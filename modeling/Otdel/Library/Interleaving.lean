import Otdel.Library.Program
import Otdel.Library.Run

/-!
# Interleaved programs

Any number of programs share a world.  A step runs one operation of one of them;
a program may be abandoned at any point, and an operation that was already
handed over may still run after that.

What holds of every run is proved one program at a time.  A program relies on
what the steps of the others may do to the world and guarantees the same of its
own steps; the two together make it safe whatever the order of the steps.
-/

universe u v w

/-- How operations act on a world: the answer and the next world, or `none`
while the operation must wait.  Dropping a program changes the world too, and
`detached` operations run to their end once they were handed over. -/
structure Machine (ι : Type u) (W : Type v) (Op : Type) (Ans : Op → Type) (Choice : Type w) where
  perform : ι → (op : Op) → Choice → W → Option (Ans op × W)
  abandon : ι → W → W
  detached : Op → Bool

structure Sys (ι : Type u) (W : Type v) (Op : Type) (Ans : Op → Type) (α : Type) where
  procs : ι → Program Op Ans α
  world : W

/-- Program `i` takes a step, or is dropped; with `underWay`, while its next
operation is being carried out. -/
inductive SysEvent (ι : Type u) (Choice : Type w) where
  | act (i : ι) (c : Choice)
  | abandon (i : ι) (underWay : Bool)

def SysEvent.actor {ι : Type u} {Choice : Type w} : SysEvent ι Choice → ι
  | .act i _ => i
  | .abandon i _ => i

/-- What is assumed and promised about the world.  `Rely i op` is what the
others may do while program `i` waits for `op`, `Guar i` what it does itself,
`Grows` what either does, and `Busy i` holds until it has answered. -/
structure Contract (ι : Type u) (W : Type v) (Op : Type) where
  Inv : W → Prop
  Rely : ι → Option Op → W → W → Prop
  Guar : ι → W → W → Prop
  Grows : W → W → Prop
  Busy : ι → W → Prop
  rely_refl : ∀ i op w, Rely i op w w
  rely_trans : ∀ i op w₁ w₂ w₃, Rely i op w₁ w₂ → Rely i op w₂ w₃ → Rely i op w₁ w₃
  rely_grows : ∀ i op w w', Rely i op w w' → Grows w w'
  grows_refl : ∀ w, Grows w w
  grows_trans : ∀ w₁ w₂ w₃, Grows w₁ w₂ → Grows w₂ w₃ → Grows w₁ w₃

/-- A step of program `i` that keeps the contract. -/
structure Contract.Keeps {ι : Type u} {W : Type v} {Op : Type} (C : Contract ι W Op) (i : ι)
    (w w' : W) : Prop where
  inv : C.Inv w'
  guar : C.Guar i w w'
  grows : C.Grows w w'

namespace Machine

variable {ι : Type u} {W : Type v} {Op : Type} {Ans : Op → Type} {Choice : Type w} {α : Type}

/-- Program `i` keeps the contract from here on, whatever the others do, and
ends with `Post`. -/
def Safe (M : Machine ι W Op Ans Choice) (C : Contract ι W Op) (i : ι) {β : Type}
    (Post : β → W → Prop) : Program Op Ans β → W → Prop
  | .done a, w => ∀ w', C.Rely i none w w' → C.Inv w' → Post a w'
  | .call op next, w => ∀ w', C.Rely i (some op) w w' → C.Inv w' →
      C.Busy i w' ∧ ∀ c a w'', M.perform i op c w' = some (a, w'') →
        C.Keeps i w' w'' ∧ Safe M C i Post (next a) w''

section Rules

variable {M : Machine ι W Op Ans Choice} {C : Contract ι W Op} {i : ι} {β γ : Type} {w w' : W}

theorem Safe.stable {Post : β → W → Prop} {p : Program Op Ans β}
    (h : M.Safe C i Post p w) (hrely : C.Rely i p.head? w w') : M.Safe C i Post p w' := by
  cases p with
  | done a => exact fun w'' h' hinv ↦ h w'' (C.rely_trans _ _ _ _ _ hrely h') hinv
  | call op next => exact fun w'' h' hinv ↦ h w'' (C.rely_trans _ _ _ _ _ hrely h') hinv

theorem Safe.mono {Post Post' : β → W → Prop} {p : Program Op Ans β}
    (h : M.Safe C i Post p w)
    (hpost : ∀ a w', C.Inv w' → C.Grows w w' → Post a w' → Post' a w') :
    M.Safe C i Post' p w := by
  induction p generalizing w with
  | done a =>
      intro w' hrely hinv
      exact hpost a w' hinv (C.rely_grows _ _ _ _ hrely) (h w' hrely hinv)
  | call op next ih =>
      intro w' hrely hinv
      obtain ⟨hbusy, hstep⟩ := h w' hrely hinv
      refine ⟨hbusy, fun c a w'' hperform ↦ ?_⟩
      obtain ⟨hkeeps, hnext⟩ := hstep c a w'' hperform
      refine ⟨hkeeps, ih a hnext fun b w₃ hinv₃ hgrows ↦ hpost b w₃ hinv₃ ?_⟩
      exact C.grows_trans _ _ _ (C.grows_trans _ _ _ (C.rely_grows _ _ _ _ hrely) hkeeps.grows)
        hgrows

/-- A sequence is safe when its second part is safe from wherever the first may
end. -/
theorem Safe.bind {Post : γ → W → Prop} {Mid : β → W → Prop} {p : Program Op Ans β}
    {f : β → Program Op Ans γ} (hinv : C.Inv w) (h : M.Safe C i Mid p w)
    (hnext : ∀ a w', C.Inv w' → C.Grows w w' → Mid a w' → M.Safe C i Post (f a) w') :
    M.Safe C i Post (p.bind f) w := by
  induction p generalizing w with
  | done a =>
      exact hnext a w hinv (C.grows_refl w) (h w (C.rely_refl _ _ _) hinv)
  | call op next ih =>
      intro w' hrely hinv'
      obtain ⟨hbusy, hstep⟩ := h w' hrely hinv'
      refine ⟨hbusy, fun c a w'' hperform ↦ ?_⟩
      obtain ⟨hkeeps, hsafe⟩ := hstep c a w'' hperform
      refine ⟨hkeeps, ih a hkeeps.inv hsafe fun b w₃ hinv₃ hgrows ↦ hnext b w₃ hinv₃ ?_⟩
      exact C.grows_trans _ _ _ (C.grows_trans _ _ _ (C.rely_grows _ _ _ _ hrely) hkeeps.grows)
        hgrows

theorem Safe.done {Post : β → W → Prop} {a : β}
    (h : ∀ w', C.Rely i none w w' → C.Inv w' → Post a w') :
    M.Safe C i Post (.done a) w := h

theorem Safe.perform {Post : β → W → Prop} {op : Op} {next : Ans op → Program Op Ans β}
    (h : ∀ w', C.Rely i (some op) w w' → C.Inv w' →
      C.Busy i w' ∧ ∀ c a w'', M.perform i op c w' = some (a, w'') →
        C.Keeps i w' w'' ∧ M.Safe C i Post (next a) w'') :
    M.Safe C i Post (.call op next) w := h

end Rules

/-! ## Runs -/

section Runs

variable (M : Machine ι W Op Ans Choice) (gone : α)

/-- One step of the system; `gone` is what a dropped program answers. -/
def step [DecidableEq ι] (s : Sys ι W Op Ans α) : SysEvent ι Choice → Option (Sys ι W Op Ans α)
  | .act i c =>
      match s.procs i with
      | .done _ => none
      | .call op next =>
          (M.perform i op c s.world).map fun r ↦
            ⟨Function.update s.procs i (next r.1), r.2⟩
  | .abandon i underWay =>
      match s.procs i with
      | .done _ => none
      | .call op _ =>
          if underWay then
            if M.detached op then
              some ⟨Function.update s.procs i (.call op fun _ ↦ .done gone),
                M.abandon i s.world⟩
            else none
          else some ⟨Function.update s.procs i (.done gone), M.abandon i s.world⟩

/-- Dropping a busy program keeps the contract, also while a detached operation
of it is under way. -/
structure Droppable (C : Contract ι W Op) (Post : ι → α → W → Prop) : Prop where
  keeps : ∀ i w, C.Inv w → C.Busy i w → C.Keeps i w (M.abandon i w)
  post : ∀ i w, C.Inv w → C.Busy i w → M.Safe C i (Post i) (.done gone) w
  busy : ∀ i w, C.Inv w → C.Busy i w → C.Busy i (M.abandon i w)
  rely : ∀ i op w, M.detached op = true → C.Inv w → C.Busy i w →
    C.Rely i (some op) w (M.abandon i w)
  underWay : ∀ i op c w a w', M.detached op = true → C.Inv w → C.Busy i w →
    M.perform i op c w = some (a, w') → C.Busy i w'

/-- Every program is safe. -/
structure AllSafe (C : Contract ι W Op) (Post : ι → α → W → Prop) (s : Sys ι W Op Ans α) :
    Prop where
  inv : C.Inv s.world
  safe : ∀ i, M.Safe C i (Post i) (s.procs i) s.world

variable {M gone} {C : Contract ι W Op} {Post : ι → α → W → Prop} {s s' : Sys ι W Op Ans α}

/-- A finished program has its postcondition. -/
theorem AllSafe.post (h : AllSafe M C Post s) {i : ι} {a : α} (hdone : s.procs i = .done a) :
    Post i a s.world := by
  have hsafe := h.safe i
  rw [hdone] at hsafe
  exact hsafe s.world (C.rely_refl _ _ _) h.inv

/-- A program that waits is busy. -/
theorem AllSafe.busy (h : AllSafe M C Post s) {i : ι} {op : Op} {next : Ans op → Program Op Ans α}
    (hcall : s.procs i = .call op next) : C.Busy i s.world := by
  have hsafe := h.safe i
  rw [hcall] at hsafe
  exact (hsafe s.world (C.rely_refl _ _ _) h.inv).1

/-- A dropped program is safe while its last operation is under way. -/
theorem safe_underWay (hdrop : Droppable M gone C Post) {i : ι} {op : Op}
    {next : Ans op → Program Op Ans α} {w : W} (hdetached : M.detached op = true)
    (h : M.Safe C i (Post i) (.call op next) w) :
    M.Safe C i (Post i) (.call op fun _ ↦ .done gone) w := by
  intro w' hrely hinv
  obtain ⟨hbusy, hstep⟩ := h w' hrely hinv
  refine ⟨hbusy, fun c a w'' hperform ↦ ?_⟩
  have hkeeps := (hstep c a w'' hperform).1
  exact ⟨hkeeps, hdrop.post i w'' hkeeps.inv
    (hdrop.underWay i op c w' a w'' hdetached hinv hbusy hperform)⟩

variable [DecidableEq ι]

/-- The steps there are. -/
inductive Steps (M : Machine ι W Op Ans Choice) (gone : α) (s : Sys ι W Op Ans α) :
    SysEvent ι Choice → Sys ι W Op Ans α → Prop
  | act {i : ι} {c : Choice} {op : Op} {next : Ans op → Program Op Ans α} {a : Ans op} {w : W}
      (hcall : s.procs i = .call op next) (hperform : M.perform i op c s.world = some (a, w)) :
      Steps M gone s (.act i c) ⟨Function.update s.procs i (next a), w⟩
  | abandon {i : ι} {op : Op} {next : Ans op → Program Op Ans α}
      (hcall : s.procs i = .call op next) :
      Steps M gone s (.abandon i false)
        ⟨Function.update s.procs i (.done gone), M.abandon i s.world⟩
  | underWay {i : ι} {op : Op} {next : Ans op → Program Op Ans α}
      (hcall : s.procs i = .call op next) (hdetached : M.detached op = true) :
      Steps M gone s (.abandon i true)
        ⟨Function.update s.procs i (.call op fun _ ↦ .done gone), M.abandon i s.world⟩

theorem steps_of_step {e : SysEvent ι Choice} (hstep : M.step gone s e = some s') :
    Steps M gone s e s' := by
  cases e with
  | act i c =>
      cases hcall : s.procs i with
      | done a => simp [Machine.step, hcall] at hstep
      | call op next =>
          simp only [Machine.step, hcall, Option.map_eq_some_iff] at hstep
          obtain ⟨⟨a, w⟩, hperform, rfl⟩ := hstep
          exact .act hcall hperform
  | abandon i underWay =>
      cases hcall : s.procs i with
      | done a => simp [Machine.step, hcall] at hstep
      | call op next =>
          cases underWay with
          | false =>
              simp only [Machine.step, hcall, Bool.false_eq_true, if_false,
                Option.some.injEq] at hstep
              exact hstep ▸ .abandon hcall
          | true =>
              simp only [Machine.step, hcall, if_true, Option.ite_none_right_eq_some,
                Option.some.injEq] at hstep
              exact hstep.2 ▸ .underWay hcall hstep.1

/-- A step of one safe program that the others can rely on leaves all safe. -/
theorem AllSafe.update (h : AllSafe M C Post s) {i : ι} {p : Program Op Ans α} {w : W}
    (hkeeps : C.Keeps i s.world w) (hsafe : M.Safe C i (Post i) p w)
    (hothers : ∀ j, j ≠ i → C.Rely j (s.procs j).head? s.world w) :
    AllSafe M C Post ⟨Function.update s.procs i p, w⟩ := by
  refine ⟨hkeeps.inv, fun j ↦ ?_⟩
  by_cases hj : j = i
  · subst hj
    simpa using hsafe
  · simpa [Function.update_of_ne hj] using (h.safe j).stable (hothers j hj)

theorem AllSafe.step (h : AllSafe M C Post s) (hdrop : Droppable M gone C Post)
    {e : SysEvent ι Choice} (hstep : M.step gone s e = some s')
    (hothers : C.Guar e.actor s.world s'.world →
      ∀ j, j ≠ e.actor → C.Rely j (s.procs j).head? s.world s'.world) :
    AllSafe M C Post s' ∧ C.Grows s.world s'.world := by
  cases steps_of_step hstep with
  | @act i c op next a w hcall hperform =>
      have hsafe := h.safe i
      rw [hcall] at hsafe
      obtain ⟨hkeeps, hnext⟩ := (hsafe s.world (C.rely_refl _ _ _) h.inv).2 c a w hperform
      exact ⟨h.update hkeeps hnext (hothers hkeeps.guar), hkeeps.grows⟩
  | @abandon i op next hcall =>
      have hbusy := h.busy hcall
      have hkeeps := hdrop.keeps i s.world h.inv hbusy
      have hgone := hdrop.post i _ hkeeps.inv (hdrop.busy i s.world h.inv hbusy)
      exact ⟨h.update hkeeps hgone (hothers hkeeps.guar), hkeeps.grows⟩
  | @underWay i op next hcall hdetached =>
      have hbusy := h.busy hcall
      have hkeeps := hdrop.keeps i s.world h.inv hbusy
      have hsafe := h.safe i
      rw [hcall] at hsafe
      have hstay : M.Safe C i (Post i) (.call op next) (M.abandon i s.world) :=
        hsafe.stable (hdrop.rely i op s.world hdetached h.inv hbusy)
      exact ⟨h.update hkeeps (safe_underWay hdrop hdetached hstay) (hothers hkeeps.guar),
        hkeeps.grows⟩

/-- Every step of a safe system keeps the contract. -/
theorem AllSafe.keeps (h : AllSafe M C Post s) (hdrop : Droppable M gone C Post)
    {e : SysEvent ι Choice} (hstep : M.step gone s e = some s') :
    C.Keeps e.actor s.world s'.world := by
  cases steps_of_step hstep with
  | @act i c op next a w hcall hperform =>
      have hsafe := h.safe i
      rw [hcall] at hsafe
      exact ((hsafe s.world (C.rely_refl _ _ _) h.inv).2 c a w hperform).1
  | @abandon i op next hcall => exact hdrop.keeps i s.world h.inv (h.busy hcall)
  | @underWay i op next hcall => exact hdrop.keeps i s.world h.inv (h.busy hcall)

/-- A step changes one program. -/
theorem procs_of_step {e : SysEvent ι Choice} (hstep : M.step gone s e = some s') {j : ι}
    (hj : j ≠ e.actor) : s'.procs j = s.procs j := by
  cases steps_of_step hstep <;> exact Function.update_of_ne hj _ _

/-- The run lemma: safe programs stay safe along every run whose steps the
waiting programs can rely on. -/
theorem AllSafe.run (h : AllSafe M C Post s) (hdrop : Droppable M gone C Post)
    {cond : Sys ι W Op Ans α → SysEvent ι Choice → Prop}
    (hothers : ∀ t t' e, cond t e → AllSafe M C Post t → M.step gone t e = some t' →
      C.Guar e.actor t.world t'.world →
        ∀ j, j ≠ e.actor → C.Rely j (t.procs j).head? t.world t'.world)
    {events : List (SysEvent ι Choice)}
    (hcond : Run.Along (M.step gone) (fun t e _ ↦ cond t e) s events) :
    Run.Throughout (M.step gone) (AllSafe M C Post) s events := by
  have hall : ∀ e ∈ events, (fun _ : SysEvent ι Choice ↦ True) e := fun _ _ ↦ trivial
  refine hcond.throughout ?_ hall h
  intro t e t' _ hsafe hstep hcond
  exact (hsafe.step hdrop hstep (hothers t t' e hcond hsafe hstep)).1

/-- What holds of every run, if the waiting programs can rely on every step. -/
theorem AllSafe.of_run (h : AllSafe M C Post s) (hdrop : Droppable M gone C Post)
    (hothers : ∀ i j op w w', j ≠ i → C.Guar i w w' → C.Rely j op w w')
    {events : List (SysEvent ι Choice)} (hrun : Run.run (M.step gone) s events = some s') :
    AllSafe M C Post s' ∧ C.Grows s.world s'.world := by
  induction events generalizing s with
  | nil =>
      cases hrun
      exact ⟨h, C.grows_refl _⟩
  | cons e events ih =>
      obtain ⟨t, hstep, hrest⟩ := Run.run_eq_some_cons.mp hrun
      obtain ⟨ht, hgrows⟩ := h.step hdrop hstep fun hguar j hj ↦ hothers _ j _ _ _ hj hguar
      obtain ⟨hs', hgrows'⟩ := ih ht hrest
      exact ⟨hs', C.grows_trans _ _ _ hgrows hgrows'⟩

/-- A program that takes no step stays, and can rely on all that happens. -/
theorem AllSafe.untouched (h : AllSafe M C Post s) (hdrop : Droppable M gone C Post)
    (hothers : ∀ i j op w w', j ≠ i → C.Guar i w w' → C.Rely j op w w') {j : ι}
    {events : List (SysEvent ι Choice)} (hevents : ∀ e ∈ events, e.actor ≠ j)
    (hrun : Run.run (M.step gone) s events = some s') :
    s'.procs j = s.procs j ∧ C.Rely j (s.procs j).head? s.world s'.world := by
  induction events generalizing s with
  | nil =>
      cases hrun
      exact ⟨rfl, C.rely_refl _ _ _⟩
  | cons e events ih =>
      obtain ⟨t, hstep, hrest⟩ := Run.run_eq_some_cons.mp hrun
      have hj : j ≠ e.actor := (hevents e List.mem_cons_self).symm
      have ht := (h.step hdrop hstep fun hguar k hk ↦ hothers _ k _ _ _ hk hguar).1
      have hproc := procs_of_step hstep hj
      obtain ⟨hsame, hrely⟩ := ih ht (fun f hf ↦ hevents f (List.mem_cons_of_mem _ hf)) hrest
      rw [hproc] at hsame hrely
      have hfirst := hothers _ j (s.procs j).head? _ _ hj (h.keeps hdrop hstep).guar
      exact ⟨hsame, C.rely_trans _ _ _ _ _ hfirst hrely⟩

/-! ## Invariants -/

/-- A step calls what the programs may call. -/
theorem calls_of_step {P : ι → Op → Prop} (hcalls : ∀ i, (s.procs i).Calls (P i))
    {e : SysEvent ι Choice} (hstep : M.step gone s e = some s') :
    ∀ i, (s'.procs i).Calls (P i) := by
  intro j
  by_cases hj : j = e.actor
  · subst hj
    have hactor := hcalls e.actor
    cases steps_of_step hstep with
    | @act i c op next a w hcall hperform =>
        simp only [SysEvent.actor, hcall] at hactor
        simpa [SysEvent.actor] using hactor.2 a
    | abandon hcall => simpa [SysEvent.actor] using Program.calls_done gone
    | underWay hcall hdetached =>
        simp only [SysEvent.actor, hcall] at hactor
        simpa [SysEvent.actor] using ⟨hactor.1, fun _ ↦ Program.calls_done gone⟩
  · rw [procs_of_step hstep hj]
    exact hcalls j

/-- What every operation and every drop keeps holds along every run. -/
theorem invariant_of_run {P : ι → Op → Prop} {Inv : W → Prop}
    (hcalls : ∀ i, (s.procs i).Calls (P i))
    (hperform : ∀ i op c w a w', P i op → Inv w → M.perform i op c w = some (a, w') → Inv w')
    (habandon : ∀ i w, Inv w → Inv (M.abandon i w)) {events : List (SysEvent ι Choice)}
    (hrun : Run.run (M.step gone) s events = some s') (hw : Inv s.world) : Inv s'.world := by
  induction events generalizing s with
  | nil =>
      cases hrun
      exact hw
  | cons e events ih =>
      obtain ⟨t, hstep, hrest⟩ := Run.run_eq_some_cons.mp hrun
      refine ih (calls_of_step hcalls hstep) hrest ?_
      cases steps_of_step hstep with
      | @act i c op next a w hcall hop =>
          have hactor := hcalls i
          rw [hcall] at hactor
          exact hperform i op c _ a w hactor.1 hw hop
      | @abandon i op next hcall => exact habandon i _ hw
      | @underWay i op next hcall hdetached => exact habandon i _ hw

end Runs

end Machine
