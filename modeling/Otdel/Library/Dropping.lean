import Otdel.Library.Interleaving

/-!
# A program that may be dropped

A program runs by itself and may be dropped at any operation.  One that was
handed over before the drop is still carried out after it.
-/

universe u v w

namespace Machine

variable {ι : Type u} {W : Type v} {Op : Type} {Ans : Op → Type} {Choice : Type w}
  (M : Machine ι W Op Ans Choice) (i : ι) (Good : W → Prop) (held : Op → Choice → W → Prop)
  {α β ε ε' : Type}

/-- Wherever the program is dropped it leaves a good world, unless an operation
under way does not find what it needs; and it ends with `Post`. -/
def Drops (Post : β → W → Prop) : Program Op Ans β → W → Prop
  | .done a, w => Post a w
  | .call op next, w =>
      (Good (M.abandon i w) ∧
        (M.detached op = true → ∀ c a w', M.perform i op c (M.abandon i w) = some (a, w') →
          (Good w' ↔ held op c (M.abandon i w)))) ∧
      ∀ c a w', M.perform i op c w = some (a, w') → held op c w ∧ Drops Post (next a) w'

variable {M i Good held} {w w' : W}

theorem Drops.bind {Mid : α → W → Prop} {Post : β → W → Prop} {p : Program Op Ans α}
    {f : α → Program Op Ans β} (hp : M.Drops i Good held Mid p w)
    (hf : ∀ a w', Mid a w' → M.Drops i Good held Post (f a) w') :
    M.Drops i Good held Post (p.bind f) w := by
  induction p generalizing w with
  | done a => exact hf a w hp
  | call op next ih =>
      obtain ⟨hdrop, hstep⟩ := hp
      refine ⟨hdrop, fun c a w' hperform ↦ ?_⟩
      obtain ⟨hheld, hnext⟩ := hstep c a w' hperform
      exact ⟨hheld, ih a hnext⟩

theorem Drops.mono {Post Post' : α → W → Prop} {p : Program Op Ans α}
    (hp : M.Drops i Good held Post p w) (h : ∀ a w', Post a w' → Post' a w') :
    M.Drops i Good held Post' p w := by
  induction p generalizing w with
  | done a => exact h a w hp
  | call op next ih =>
      refine ⟨hp.1, fun c a w' hperform ↦ ?_⟩
      obtain ⟨hheld, hnext⟩ := hp.2 c a w' hperform
      exact ⟨hheld, ih a hnext⟩

section Fallible

open Program

theorem Drops.andThen {Mid : Except ε α → W → Prop} {Post : Except ε β → W → Prop}
    {p : Fallible Op Ans ε α} {f : α → Fallible Op Ans ε β} (hp : M.Drops i Good held Mid p w)
    (herror : ∀ e w', Mid (.error e) w' → Post (.error e) w')
    (hok : ∀ a w', Mid (.ok a) w' → M.Drops i Good held Post (f a) w') :
    M.Drops i Good held Post (p >>= f : Fallible Op Ans ε β) w :=
  Drops.bind hp fun r w' h ↦ by
    cases r with
    | ok a => exact hok a w' h
    | error e => exact herror e w' h

theorem Drops.mapError {Post : Except ε' α → W → Prop} {p : Fallible Op Ans ε α} (g : ε → ε')
    (hp : M.Drops i Good held (fun r w' ↦ Post (r.mapError g) w') p w) :
    M.Drops i Good held Post (Program.mapError g p) w :=
  Drops.bind hp fun r w' h ↦ by
    cases r with
    | ok a => exact h
    | error e => exact h

theorem Drops.liftThen {Mid : α → W → Prop} {Post : Except ε β → W → Prop} {q : Program Op Ans α}
    {f : α → Fallible Op Ans ε β} (hq : M.Drops i Good held Mid q w)
    (hf : ∀ a w', Mid a w' → M.Drops i Good held Post (f a) w') :
    M.Drops i Good held Post (lift q >>= f : Fallible Op Ans ε β) w := by
  have hlift : M.Drops i Good held (fun r w' ↦ ∃ a, r = .ok a ∧ Mid a w')
      (lift q : Fallible Op Ans ε α) w :=
    Drops.bind hq fun a w' h ↦ ⟨a, rfl, h⟩
  apply hlift.andThen
  · rintro e w' ⟨a, ha, -⟩
    cases ha
  · rintro a w' ⟨a', ha, h⟩
    cases ha
    exact hf a w' h

theorem Drops.ofExceptThen {Post : Except ε β → W → Prop} {r : Except ε α}
    {f : α → Fallible Op Ans ε β} (herror : ∀ e, r = .error e → Post (.error e) w)
    (hok : ∀ a, r = .ok a → M.Drops i Good held Post (f a) w) :
    M.Drops i Good held Post (ofExcept r >>= f : Fallible Op Ans ε β) w := by
  cases r with
  | ok a => exact hok a rfl
  | error e => exact herror e rfl

end Fallible

/-! ## Runs -/

section Runs

variable [DecidableEq ι] {gone : α}

/-- Program `i`, and nobody else. -/
def only (gone : α) (i : ι) (p : Program Op Ans α) (w : W) : Sys ι W Op Ans α :=
  ⟨Function.update (fun _ ↦ .done gone) i p, w⟩

/-- An operation that is carried out finds what it needs. -/
def Finds (i : ι) (held : Op → Choice → W → Prop) (s : Sys ι W Op Ans α) (e : SysEvent ι Choice) :
    Prop :=
  ∀ c op next, e = .act i c → s.procs i = .call op next → held op c s.world

/-- Dropped, with an operation under way. -/
structure Lingers (M : Machine ι W Op Ans Choice) (i : ι) (Good : W → Prop)
    (held : Op → Choice → W → Prop) (op : Op) (w : W) : Prop where
  detached : M.detached op = true
  dropped : M.abandon i w = w
  good : Good w
  perform : ∀ c a w', M.perform i op c w = some (a, w') → (Good w' ↔ held op c w)

/-- Where a program is that may be dropped. -/
inductive Stage (M : Machine ι W Op Ans Choice) (gone : α) (i : ι) (Good : W → Prop)
    (held : Op → Choice → W → Prop) : Program Op Ans α → W → Prop
  | live {p w} (h : M.Drops i Good held (fun _ ↦ Good) p w) : Stage M gone i Good held p w
  | lingering {op w} (h : M.Lingers i Good held op w) :
      Stage M gone i Good held (.call op fun _ ↦ .done gone) w

theorem only_procs (p : Program Op Ans α) (w : W) : (only gone i p w).procs i = p := by
  simp [only]

theorem update_only (p q : Program Op Ans α) (w w' : W) :
    (⟨Function.update (only gone i p w).procs i q, w'⟩ : Sys ι W Op Ans α) = only gone i q w' := by
  rw [only, only, Function.update_idem]

/-- The steps of a program that is alone. -/
theorem step_only {p : Program Op Ans α} {e : SysEvent ι Choice} {s : Sys ι W Op Ans α}
    (hstep : M.step gone (only gone i p w) e = some s) :
    (∃ c op next a w', e = .act i c ∧ p = .call op next ∧ M.perform i op c w = some (a, w') ∧
      s = only gone i (next a) w') ∨
    (∃ op next, e = .abandon i false ∧ p = .call op next ∧
      s = only gone i (.done gone) (M.abandon i w)) ∨
    ∃ op next, e = .abandon i true ∧ p = .call op next ∧ M.detached op = true ∧
      s = only gone i (.call op fun _ ↦ .done gone) (M.abandon i w) := by
  have hproc : (only gone i p w : Sys ι W Op Ans α).procs i = p := only_procs p w
  have hactor : e.actor = i := by
    by_contra hne
    have hidle : (only gone i p w : Sys ι W Op Ans α).procs e.actor = .done gone := by
      simp [only, hne]
    cases e <;> simp [SysEvent.actor] at hidle <;> simp [Machine.step, hidle] at hstep
  cases e with
  | act j c =>
      obtain rfl : j = i := hactor
      cases p with
      | done a => simp [Machine.step, hproc] at hstep
      | call op next =>
          simp only [Machine.step, hproc, Option.map_eq_some_iff] at hstep
          obtain ⟨⟨a, w'⟩, hperform, rfl⟩ := hstep
          exact Or.inl ⟨c, op, next, a, w', rfl, rfl, hperform, update_only ..⟩
  | abandon j underWay =>
      obtain rfl : j = i := hactor
      cases p with
      | done a => simp [Machine.step, hproc] at hstep
      | call op next =>
          cases underWay with
          | false =>
              simp only [Machine.step, hproc, Bool.false_eq_true, if_false,
                Option.some.injEq] at hstep
              subst hstep
              exact Or.inr (Or.inl ⟨op, next, rfl, rfl, update_only ..⟩)
          | true =>
              simp only [Machine.step, hproc, if_true, Option.ite_none_right_eq_some,
                Option.some.injEq] at hstep
              obtain ⟨hdetached, rfl⟩ := hstep
              exact Or.inr (Or.inr ⟨op, next, rfl, rfl, hdetached, update_only ..⟩)

/-- Nothing happens after the end. -/
theorem run_only_done {a : α} {events : List (SysEvent ι Choice)} {s : Sys ι W Op Ans α}
    (hrun : Run.run (M.step gone) (only gone i (.done a) w) events = some s) :
    s = only gone i (.done a) w := by
  cases events with
  | nil => exact (Option.some.inj hrun).symm
  | cons e events =>
      obtain ⟨t, hstep, -⟩ := Run.run_eq_some_cons.mp hrun
      obtain ⟨_, _, _, _, _, -, hcall, -⟩ | ⟨_, _, -, hcall, -⟩ | ⟨_, _, -, hcall, -⟩ :=
        step_only hstep <;> cases hcall

/-- The first step of a run that does not take from an operation what it needs. -/
theorem along_finds_cons {p : Program Op Ans α} {e : SysEvent ι Choice}
    {events : List (SysEvent ι Choice)} {s : Sys ι W Op Ans α}
    (hstep : M.step gone (only gone i p w) e = some s)
    (hfinds : Finds i held (only gone i p w) e) :
    Run.Along (M.step gone) (fun s e _ ↦ Finds i held s e) (only gone i p w) (e :: events) ↔
      Run.Along (M.step gone) (fun s e _ ↦ Finds i held s e) s events := by
  rw [Run.Along]
  constructor
  · exact fun h ↦ (h s hstep).2
  · intro h t ht
    cases hstep.symm.trans ht
    exact ⟨hfinds, h⟩

/-- The run lemma: a program whose drops are good leaves a good world exactly
when every operation found what it needs. -/
theorem Stage.run (habandon : ∀ w, M.abandon i (M.abandon i w) = M.abandon i w)
    {p : Program Op Ans α} (h : M.Stage gone i Good held p w)
    {events : List (SysEvent ι Choice)} {s : Sys ι W Op Ans α}
    (hrun : Run.run (M.step gone) (only gone i p w) events = some s) {a : α}
    (hdone : s.procs i = .done a) :
    Good s.world ↔
      Run.Along (M.step gone) (fun s e _ ↦ Finds i held s e) (only gone i p w) events := by
  induction events generalizing p w with
  | nil =>
      cases hrun
      simp only [only, Function.update_self] at hdone
      subst hdone
      cases h with
      | live h => exact iff_of_true h trivial
  | cons e events ih =>
      obtain ⟨t, hstep, hrest⟩ := Run.run_eq_some_cons.mp hrun
      have hproc : (only gone i p w : Sys ι W Op Ans α).procs i = p := only_procs p w
      obtain ⟨c, op, next, b, w', rfl, rfl, hperform, rfl⟩ | ⟨op, next, rfl, rfl, rfl⟩ |
        ⟨op, next, rfl, rfl, hdetached, rfl⟩ := step_only hstep
      · have hfinds : Finds i held (only gone i (.call op next) w) (.act i c) ↔ held op c w := by
          constructor
          · exact fun h ↦ h c op next rfl hproc
          · rintro h c' op' next' heq hcall
            cases heq
            cases hproc.symm.trans hcall
            exact h
        cases h with
        | live h =>
            obtain ⟨hheld, hnext⟩ := h.2 c b w' hperform
            rw [along_finds_cons hstep (hfinds.mpr hheld)]
            exact ih (.live hnext) hrest
        | lingering h =>
            have hgood := h.perform c b w' hperform
            by_cases hheld : held op c w
            · rw [along_finds_cons hstep (hfinds.mpr hheld)]
              exact ih (.live (hgood.mpr hheld)) hrest
            · -- the program is gone, and so is what the operation needed
              have hend := run_only_done hrest
              subst hend
              refine iff_of_false (mt hgood.mp hheld) fun hall ↦ hheld ?_
              exact hfinds.mp (hall _ hstep).1
      · have hfinds : Finds i held (only gone i (.call op next) w)
            (.abandon i false : SysEvent ι Choice) := fun _ _ _ heq ↦ nomatch heq
        rw [along_finds_cons hstep hfinds]
        refine ih (.live ?_) hrest
        cases h with
        | live h => exact h.1.1
        | lingering h => exact h.dropped.symm ▸ h.good
      · have hfinds : Finds i held (only gone i (.call op next) w)
            (.abandon i true : SysEvent ι Choice) := fun _ _ _ heq ↦ nomatch heq
        rw [along_finds_cons hstep hfinds]
        refine ih (.lingering ?_) hrest
        cases h with
        | live h => exact ⟨hdetached, habandon w, h.1.1, h.1.2 hdetached⟩
        | lingering h => exact h.dropped.symm ▸ h

end Runs

end Machine
