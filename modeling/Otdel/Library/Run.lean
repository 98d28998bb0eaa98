import Mathlib

/-!
# Runs of a machine with partial steps

A machine is a step function that refuses the events its state does not allow.
A property of a whole run is a property of every step it takes; an invariant
carries one such property over to another.
-/

/-! Literals of the small types that number the actors of a run. -/

instance Run.neZeroTwo : NeZero 2 := ⟨by decide⟩

instance Run.neZeroThree : NeZero 3 := ⟨by decide⟩

namespace Run

variable {σ ε : Type*} (step : σ → ε → Option σ)

/-- The state after a list of events. -/
def run : σ → List ε → Option σ
  | s, [] => some s
  | s, e :: es => (step s e).bind fun s' ↦ run s' es

/-- Every step the run takes is a `good` one. -/
def Along (good : σ → ε → σ → Prop) : σ → List ε → Prop
  | _, [] => True
  | s, e :: es => ∀ s', step s e = some s' → good s e s' ∧ Along good s' es

/-- Every state of the run has the property. -/
def Throughout (P : σ → Prop) : σ → List ε → Prop
  | s, [] => P s
  | s, e :: es => P s ∧ ∀ s', step s e = some s' → Throughout P s' es

@[simp] theorem run_nil (s : σ) : run step s [] = some s := rfl

theorem run_cons (s : σ) (e : ε) (es : List ε) :
    run step s (e :: es) = (step s e).bind fun s' ↦ run step s' es := rfl

theorem run_append (s : σ) (es fs : List ε) :
    run step s (es ++ fs) = (run step s es).bind fun s' ↦ run step s' fs := by
  induction es generalizing s with
  | nil => rfl
  | cons e es ih =>
      rw [List.cons_append, run_cons, run_cons, Option.bind_assoc]
      congr 1
      funext s'
      exact ih s'

variable {step}

theorem run_eq_some_cons {s t : σ} {e : ε} {es : List ε} :
    run step s (e :: es) = some t ↔ ∃ s', step s e = some s' ∧ run step s' es = some t :=
  Option.bind_eq_some_iff

theorem along_cons_iff {good : σ → ε → σ → Prop} {s t : σ} {e : ε} {es : List ε}
    (hstep : step s e = some t) :
    Along step good s (e :: es) ↔ good s e t ∧ Along step good t es := by
  constructor
  · intro h
    exact h t hstep
  · intro h s' hstep'
    obtain rfl : t = s' := Option.some.inj (hstep.symm.trans hstep')
    exact h

instance decidableAlong {good : σ → ε → σ → Prop} [∀ s e s', Decidable (good s e s')] :
    ∀ s events, Decidable (Along step good s events)
  | _, [] => isTrue trivial
  | s, e :: es =>
      match hstep : step s e with
      | none => isTrue fun _ h ↦ absurd (hstep.symm.trans h) (Option.some_ne_none _).symm
      | some t =>
          haveI : Decidable (Along step good t es) := decidableAlong t es
          decidable_of_iff _ (along_cons_iff hstep).symm

theorem along_and {good good' : σ → ε → σ → Prop} {s : σ} {events : List ε}
    (h : Along step good s events) (h' : Along step good' s events) :
    Along step (fun s e s' ↦ good s e s' ∧ good' s e s') s events := by
  induction events generalizing s with
  | nil => trivial
  | cons e es ih =>
      intro s' hstep
      exact ⟨⟨(h s' hstep).1, (h' s' hstep).1⟩, ih (h s' hstep).2 (h' s' hstep).2⟩

/-- The same property, said of the steps one by one. -/
theorem along_iff {good : σ → ε → σ → Prop} {s : σ} {events : List ε} :
    Along step good s events ↔ ∀ before e after t t', events = before ++ e :: after →
      run step s before = some t → step t e = some t' → good t e t' := by
  induction events generalizing s with
  | nil => simp [Along]
  | cons e es ih =>
      constructor
      · intro h before f after t t' hsplit hrun hstep
        cases before with
        | nil =>
            rw [List.nil_append, List.cons.injEq] at hsplit
            obtain ⟨rfl, rfl⟩ := hsplit
            cases hrun
            exact (h t' hstep).1
        | cons f' before =>
            rw [List.cons_append, List.cons.injEq] at hsplit
            obtain ⟨rfl, rfl⟩ := hsplit
            obtain ⟨s', hfirst, hrest⟩ := run_eq_some_cons.mp hrun
            exact ih.mp (h s' hfirst).2 before f after t t' rfl hrest hstep
      · intro h s' hstep
        refine ⟨h [] e es s s' rfl rfl hstep, ih.mpr ?_⟩
        rintro before f after t t' rfl hrun hstep'
        exact h (e :: before) f after t t' rfl (run_eq_some_cons.mpr ⟨s', hstep, hrun⟩) hstep'

theorem throughout_iff {P : σ → Prop} {s : σ} {events : List ε} :
    Throughout step P s events ↔
      ∀ before after t, events = before ++ after → run step s before = some t → P t := by
  induction events generalizing s with
  | nil =>
      constructor
      · intro h before after t hsplit hrun
        obtain ⟨rfl, rfl⟩ := List.append_eq_nil_iff.mp hsplit.symm
        cases hrun
        exact h
      · intro h
        exact h [] [] s rfl rfl
  | cons e es ih =>
      constructor
      · intro h before after t hsplit hrun
        cases before with
        | nil =>
            cases hrun
            exact h.1
        | cons f before =>
            rw [List.cons_append, List.cons.injEq] at hsplit
            obtain ⟨rfl, rfl⟩ := hsplit
            obtain ⟨s', hfirst, hrest⟩ := run_eq_some_cons.mp hrun
            exact ih.mp (h.2 s' hfirst) before after t rfl hrest
      · intro h
        refine ⟨h [] (e :: es) s rfl rfl, fun s' hstep ↦ ih.mpr ?_⟩
        rintro before after t rfl hrun
        exact h (e :: before) after t rfl (run_eq_some_cons.mpr ⟨s', hstep, hrun⟩)

/-- The states of a run have a property if the first has it and every step leads
to a state that has it. -/
theorem throughout_iff_along {P : σ → Prop} {s : σ} {events : List ε} (hs : P s) :
    Throughout step P s events ↔ Along step (fun _ _ s' ↦ P s') s events := by
  induction events generalizing s with
  | nil => simp [Throughout, Along, hs]
  | cons e es ih =>
      constructor
      · intro h s' hstep
        have hs' : P s' := by
          cases es with
          | nil => exact h.2 s' hstep
          | cons f es => exact (h.2 s' hstep).1
        exact ⟨hs', (ih hs').mp (h.2 s' hstep)⟩
      · intro h
        exact ⟨hs, fun s' hstep ↦ (ih (h s' hstep).1).mpr (h s' hstep).2⟩

section Invariant

variable {Inv : σ → Prop} {allowed : ε → Prop} {s : σ} {events : List ε}

/-- An invariant that the good steps keep holds throughout a run of good
steps. -/
theorem Along.throughout {good : σ → ε → σ → Prop}
    (hkeep : ∀ s e s', allowed e → Inv s → step s e = some s' → good s e s' → Inv s')
    (hallowed : ∀ e ∈ events, allowed e) (hs : Inv s) (h : Along step good s events) :
    Throughout step Inv s events := by
  induction events generalizing s with
  | nil => exact hs
  | cons e es ih =>
      refine ⟨hs, fun s' hstep ↦ ?_⟩
      obtain ⟨hgood, hrest⟩ := h s' hstep
      have hs' := hkeep s e s' (hallowed e (by simp)) hs hstep hgood
      exact ih (fun f hf ↦ hallowed f (by simp [hf])) hs' hrest

/-- What good steps do from states with an invariant that they keep. -/
theorem Along.imp {good p : σ → ε → σ → Prop}
    (hkeep : ∀ s e s', Inv s → step s e = some s' → good s e s' → Inv s' ∧ p s e s')
    (hs : Inv s) (h : Along step good s events) : Along step p s events := by
  induction events generalizing s with
  | nil => trivial
  | cons e es ih =>
      intro s' hstep
      obtain ⟨hgood, hrest⟩ := h s' hstep
      obtain ⟨hs', hp⟩ := hkeep s e s' hs hstep hgood
      exact ⟨hp, ih hs' hrest⟩

/-- Two properties of steps agree along every run when they agree on the steps
from states with an invariant that either of them keeps. -/
theorem along_congr {p q : σ → ε → σ → Prop}
    (hkeep : ∀ s e s', allowed e → Inv s → step s e = some s' → p s e s' → Inv s')
    (hiff : ∀ s e s', allowed e → Inv s → step s e = some s' → (p s e s' ↔ q s e s'))
    (hallowed : ∀ e ∈ events, allowed e) (hs : Inv s) :
    Along step p s events ↔ Along step q s events := by
  induction events generalizing s with
  | nil => exact Iff.rfl
  | cons e es ih =>
      have he := hallowed e (by simp)
      have hes : ∀ f ∈ es, allowed f := fun f hf ↦ hallowed f (by simp [hf])
      constructor
      · intro h s' hstep
        obtain ⟨hp, hrest⟩ := h s' hstep
        exact ⟨(hiff s e s' he hs hstep).mp hp,
          (ih hes (hkeep s e s' he hs hstep hp)).mp hrest⟩
      · intro h s' hstep
        obtain ⟨hq, hrest⟩ := h s' hstep
        have hp := (hiff s e s' he hs hstep).mpr hq
        exact ⟨hp, (ih hes (hkeep s e s' he hs hstep hp)).mpr hrest⟩

end Invariant

end Run
