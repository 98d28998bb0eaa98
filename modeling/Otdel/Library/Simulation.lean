import Otdel.Library.Sequential

/-!
# One program in two worlds

A program whose operations answer alike in two related worlds, and leave them
related, answers alike as a whole.  Which operations it performs, and where, is
proved along the program.
-/

universe u v w x

namespace Machine

variable {ι : Type u} {W : Type v} {V : Type x} {Op : Type} {Ans : Op → Type}
  {Choice : Type w} {α β ε ε' : Type}

/-- The same answer, in related worlds. -/
def Alike (R : W → V → Prop) (p : α × W) (q : α × V) : Prop := p.1 = q.1 ∧ R p.2 q.2

theorem Alike.mono {R R' : W → V → Prop} (hR : ∀ w v, R w v → R' w v) {p : Option (α × W)}
    {q : Option (α × V)} (h : Option.Rel (Alike R) p q) : Option.Rel (Alike R') p q := by
  cases h with
  | none => exact .none
  | some h => exact .some ⟨h.1, hR _ _ h.2⟩

section Simulation

variable {M : Machine ι W Op Ans Choice} {N : Machine ι V Op Ans Choice} {i : ι}
  {R : W → V → Prop} {good : Op → Choice → W → Prop} {good' : Op → Choice → V → Prop}

/-- The step lemma carries over to runs: both go on together, or both wait. -/
theorem play_alike
    (hstep : ∀ op c w v, R w v → good op c w → good' op c v →
      Option.Rel (Alike R) (M.perform i op c w) (N.perform i op c v))
    {p : Program Op Ans α} {choices : List Choice} {w : W} {v : V} (hR : R w v)
    (hp : M.Meets i good p choices w) (hp' : N.Meets i good' p choices v) :
    Option.Rel (Alike R) (M.play i p choices w) (N.play i p choices v) := by
  induction p generalizing choices w v with
  | done a =>
      cases choices with
      | nil => exact .some ⟨rfl, hR⟩
      | cons c choices => exact .none
  | call op next ih =>
      cases choices with
      | nil => exact .none
      | cons c choices =>
          have hrel := hstep op c w v hR hp.1 hp'.1
          rw [play, play]
          cases hw : M.perform i op c w with
          | none =>
              rw [hw] at hrel
              cases hv : N.perform i op c v with
              | none => exact .none
              | some r =>
                  rw [hv] at hrel
                  cases hrel
          | some r =>
              rw [hw] at hrel
              cases hv : N.perform i op c v with
              | none =>
                  rw [hv] at hrel
                  cases hrel
              | some r' =>
                  rw [hv] at hrel
                  obtain ⟨a, w'⟩ := r
                  obtain ⟨a', v'⟩ := r'
                  cases hrel with
                  | some hsame =>
                      obtain ⟨rfl, hR'⟩ : a = a' ∧ R w' v' := hsame
                      exact ih a hR' (hp.2 _ hw) (hp'.2 _ hv)

/-- What every step keeps, the whole run keeps. -/
theorem play_keeps (K : W → W → Prop) (hrefl : ∀ w, K w w)
    (htrans : ∀ {w₁ w₂ w₃}, K w₁ w₂ → K w₂ w₃ → K w₁ w₃) (Inv : W → Prop)
    (hstep : ∀ op c w a w', Inv w → good op c w → M.perform i op c w = some (a, w') →
      Inv w' ∧ K w w') {p : Program Op Ans α} {choices : List Choice} {w w' : W} {a : α}
    (hw : Inv w) (hp : M.Meets i good p choices w) (hplay : M.play i p choices w = some (a, w')) :
    K w w' := by
  induction p generalizing choices w with
  | done b =>
      cases choices with
      | nil =>
          cases hplay
          exact hrefl _
      | cons c choices => cases hplay
  | call op next ih =>
      cases choices with
      | nil => cases hplay
      | cons c choices =>
          obtain ⟨⟨b, t⟩, hperform, hrest⟩ := Option.bind_eq_some_iff.mp hplay
          obtain ⟨ht, hkept⟩ := hstep op c w b t hw hp.1 hperform
          exact htrans hkept (ih b ht (hp.2 _ hperform) hrest)

end Simulation

/-! ## Which operations a program performs, and where -/

section Abides

variable (M : Machine ι W Op Ans Choice) (i : ι) (Inv : W → Prop) (P : Op → W → Prop)

/-- Every operation is performed where `P` holds of it, and the end is in `Post`,
as long as the worlds on the way are in `Inv`. -/
def Abides (Post : α → W → Prop) : Program Op Ans α → W → Prop
  | .done a, w => Post a w
  | .call op next, w => Inv w → P op w ∧
      ∀ c a w', M.perform i op c w = some (a, w') → Abides Post (next a) w'

variable {M i Inv P} {w : W}

theorem Abides.mono {Post Post' : α → W → Prop} {p : Program Op Ans α}
    (hp : M.Abides i Inv P Post p w) (h : ∀ a w', Post a w' → Post' a w') :
    M.Abides i Inv P Post' p w := by
  induction p generalizing w with
  | done a => exact h a w hp
  | call op next ih =>
      intro hinv
      obtain ⟨hop, hnext⟩ := hp hinv
      exact ⟨hop, fun c a w' hperform ↦ ih a (hnext c a w' hperform)⟩

theorem Abides.bind {Mid : α → W → Prop} {Post : β → W → Prop} {p : Program Op Ans α}
    {f : α → Program Op Ans β} (hp : M.Abides i Inv P Mid p w)
    (hf : ∀ a w', Mid a w' → M.Abides i Inv P Post (f a) w') :
    M.Abides i Inv P Post (p.bind f) w := by
  induction p generalizing w with
  | done a => exact hf a w hp
  | call op next ih =>
      intro hinv
      obtain ⟨hop, hnext⟩ := hp hinv
      exact ⟨hop, fun c a w' hperform ↦ ih a (hnext c a w' hperform)⟩

theorem Abides.perform {op : Op} {Post : Ans op → W → Prop} (hop : Inv w → P op w)
    (h : Inv w → ∀ c a w', M.perform i op c w = some (a, w') → Post a w') :
    M.Abides i Inv P Post (Program.perform op) w :=
  fun hinv ↦ ⟨hop hinv, h hinv⟩

/-- A program whose operations are fine everywhere. -/
theorem Abides.of_calls {Q : Op → Prop} {p : Program Op Ans α} (hp : p.Calls Q)
    (h : ∀ op w, Q op → P op w) : M.Abides i Inv P (fun _ _ ↦ True) p w := by
  induction p generalizing w with
  | done a => trivial
  | call op next ih => exact fun _ ↦ ⟨h op w hp.1, fun c a w' _ ↦ ih a (hp.2 a)⟩

theorem Abides.ite {Post : α → W → Prop} {c : Prop} [Decidable c] {p q : Program Op Ans α}
    (hp : c → M.Abides i Inv P Post p w) (hq : ¬ c → M.Abides i Inv P Post q w) :
    M.Abides i Inv P Post (if c then p else q) w := by
  split
  · exact hp ‹_›
  · exact hq ‹_›

/-- What the operations keep holds at the end, too. -/
theorem Abides.keeping {Post : α → W → Prop} {K : W → Prop} {p : Program Op Ans α}
    (hw : K w) (hp : M.Abides i Inv P Post p w)
    (hkeep : ∀ op w c a w', Inv w → K w → P op w → M.perform i op c w = some (a, w') → K w') :
    M.Abides i Inv P (fun a w' ↦ Post a w' ∧ K w') p w := by
  induction p generalizing w with
  | done a => exact ⟨hp, hw⟩
  | call op next ih =>
      intro hinv
      obtain ⟨hop, hnext⟩ := hp hinv
      refine ⟨hop, fun c a w' hperform ↦ ?_⟩
      exact ih a (hkeep op w c a w' hinv hw hop hperform) (hnext c a w' hperform)

/-- Along every play whose worlds are in `Inv`, the operations meet `P`. -/
theorem Abides.meets {Post : α → W → Prop} {good : Op → Choice → W → Prop}
    {p : Program Op Ans α} {choices : List Choice} (hp : M.Abides i Inv P Post p w)
    (hinv : M.Meets i (fun _ _ ↦ Inv) p choices w) (hgood : M.Meets i good p choices w) :
    M.Meets i (fun op c w ↦ Inv w ∧ P op w ∧ good op c w) p choices w := by
  induction p generalizing choices w with
  | done a => cases choices <;> trivial
  | call op next ih =>
      cases choices with
      | nil => trivial
      | cons c choices =>
          obtain ⟨hop, hnext⟩ := hp hinv.1
          refine ⟨⟨hinv.1, hop, hgood.1⟩, fun r hr ↦ ?_⟩
          exact ih r.1 (hnext c r.1 r.2 hr) (hinv.2 r hr) (hgood.2 r hr)

/-- A program that is safe keeps the invariant at each of its operations. -/
theorem Safe.meets {C : Contract ι W Op} {Post : α → W → Prop} {p : Program Op Ans α}
    {choices : List Choice} (hw : C.Inv w) (hp : M.Safe C i Post p w) :
    M.Meets i (fun _ _ ↦ C.Inv) p choices w := by
  induction p generalizing choices w with
  | done a => cases choices <;> trivial
  | call op next ih =>
      cases choices with
      | nil => trivial
      | cons c choices =>
          refine ⟨hw, fun r hr ↦ ?_⟩
          obtain ⟨hkeeps, hsafe⟩ := (hp w (C.rely_refl _ _ _) hw).2 c r.1 r.2 hr
          exact ih r.1 hkeeps.inv hsafe

/-! ### Programs that may fail -/

/-- `Post` holds of a value, `Fin` where an error ends it. -/
def Concludes (Post : α → W → Prop) (Fin : W → Prop) (r : Except ε α) (w : W) : Prop :=
  match r with
  | .ok a => Post a w
  | .error _ => Fin w

variable {Fin : W → Prop}

theorem Abides.return {Post : α → W → Prop} {a : α} (h : Post a w) :
    M.Abides i Inv P (Concludes Post Fin) (pure a : Fallible Op Ans ε α) w := h

theorem Abides.fail {Post : α → W → Prop} {e : ε} (h : Fin w) :
    M.Abides i Inv P (Concludes Post Fin) (Program.fail e : Fallible Op Ans ε α) w := h

theorem Abides.andThen {Mid : α → W → Prop} {Post : β → W → Prop}
    {p : Fallible Op Ans ε α} {f : α → Fallible Op Ans ε β}
    (hp : M.Abides i Inv P (Concludes Mid Fin) p w)
    (hf : ∀ a w', Mid a w' → M.Abides i Inv P (Concludes Post Fin) (f a) w') :
    M.Abides i Inv P (Concludes Post Fin) (p >>= f : Fallible Op Ans ε β) w :=
  Abides.bind hp fun r w' h ↦ by
    cases r with
    | ok a => exact hf a w' h
    | error e => exact Abides.fail h

theorem Abides.mapError {Post : α → W → Prop} {p : Fallible Op Ans ε α} (g : ε → ε')
    (hp : M.Abides i Inv P (Concludes Post Fin) p w) :
    M.Abides i Inv P (Concludes Post Fin) (Program.mapError g p) w :=
  Abides.bind hp fun r w' h ↦ by
    cases r with
    | ok a => exact Abides.return h
    | error e => exact Abides.fail h

theorem Abides.liftThen {Mid : α → W → Prop} {Post : β → W → Prop} {q : Program Op Ans α}
    {f : α → Fallible Op Ans ε β} (hq : M.Abides i Inv P Mid q w)
    (hf : ∀ a w', Mid a w' → M.Abides i Inv P (Concludes Post Fin) (f a) w') :
    M.Abides i Inv P (Concludes Post Fin) (Program.lift q >>= f : Fallible Op Ans ε β) w := by
  have hlift : M.Abides i Inv P (Concludes Mid Fin) (Program.lift q : Fallible Op Ans ε α) w :=
    Abides.bind hq fun a w' h ↦ Abides.return h
  exact hlift.andThen hf

theorem Abides.ofExceptThen {Post : β → W → Prop} {r : Except ε α}
    {f : α → Fallible Op Ans ε β} (herror : Fin w)
    (h : ∀ a, r = .ok a → M.Abides i Inv P (Concludes Post Fin) (f a) w) :
    M.Abides i Inv P (Concludes Post Fin) (Program.ofExcept r >>= f : Fallible Op Ans ε β) w := by
  cases r with
  | error e => exact Abides.fail herror
  | ok a => exact h a rfl

/-- No fact is kept of the end. -/
theorem Abides.concludes {p : Fallible Op Ans ε α} (hp : M.Abides i Inv P (fun _ _ ↦ True) p w) :
    M.Abides i Inv P (Concludes (fun _ _ ↦ True) fun _ ↦ True) p w :=
  Abides.mono hp fun r w' _ ↦ by cases r <;> trivial

end Abides

/-! ## Two machines -/

section Congruence

variable [DecidableEq ι] {M N : Machine ι W Op Ans Choice} {gone : α} {P : ι → Op → Prop}
  {Inv : W → Prop}

/-- Machines that carry out the operations of all programs alike, where an
invariant holds, have the same runs. -/
theorem run_congr
    (hsame : ∀ i op c w, P i op → Inv w → N.perform i op c w = M.perform i op c w)
    (habandon : N.abandon = M.abandon) (hdetached : N.detached = M.detached)
    (hperform : ∀ i op c w a w', P i op → Inv w → M.perform i op c w = some (a, w') → Inv w')
    (hdrop : ∀ i w, Inv w → Inv (M.abandon i w)) {s : Sys ι W Op Ans α}
    (hcalls : ∀ i, (s.procs i).Calls (P i)) (hs : Inv s.world)
    (events : List (SysEvent ι Choice)) :
    Run.run (N.step gone) s events = Run.run (M.step gone) s events := by
  induction events generalizing s with
  | nil => rfl
  | cons e events ih =>
      have hstep : N.step gone s e = M.step gone s e := by
        cases e with
        | act i c =>
            have hactor := hcalls i
            cases hcall : s.procs i with
            | done a => simp only [Machine.step, hcall]
            | call op next =>
                rw [hcall] at hactor
                simp only [Machine.step, hcall, hsame i op c s.world hactor.1 hs]
        | abandon i underWay =>
            cases hcall : s.procs i with
            | done a => simp only [Machine.step, hcall]
            | call op next => simp only [Machine.step, hcall, habandon, hdetached]
      rw [Run.run_cons, Run.run_cons, hstep]
      cases ht : M.step gone s e with
      | none => rfl
      | some t =>
          have hrun : Run.run (M.step gone) s [e] = some t :=
            Run.run_eq_some_cons.mpr ⟨t, ht, rfl⟩
          exact ih (calls_of_step hcalls ht) (invariant_of_run hcalls hperform hdrop hrun hs)

end Congruence

end Machine
