import Otdel.Library.Interleaving

/-!
# A program that runs alone, whatever the environment decides

The environment makes a choice for each operation.  What holds at the end for all
choices is proved along the program.
-/

universe u v w

namespace Machine

variable {ι : Type u} {W : Type v} {Op : Type} {Ans : Op → Type} {Choice : Type w}
  (M : Machine ι W Op Ans Choice) (i : ι) {α β ε ε' : Type}

/-- The result and the last world, under these choices. -/
def play : Program Op Ans α → List Choice → W → Option (α × W)
  | .done a, [], w => some (a, w)
  | .call op next, c :: choices, w =>
      (M.perform i op c w).bind fun r ↦ play (next r.1) choices r.2
  | _, _, _ => none

/-- Wherever the program ends, `Post` holds. -/
def Gives (Post : α → W → Prop) : Program Op Ans α → W → Prop
  | .done a, w => Post a w
  | .call op next, w => ∀ c a w', M.perform i op c w = some (a, w') → Gives Post (next a) w'

variable {M i} {w : W}

theorem gives_iff {Post : α → W → Prop} {p : Program Op Ans α} :
    M.Gives i Post p w ↔ ∀ choices a w', M.play i p choices w = some (a, w') → Post a w' := by
  induction p generalizing w with
  | done a =>
      constructor
      · intro h choices a' w' hplay
        cases choices with
        | nil =>
            cases hplay
            exact h
        | cons c choices => cases hplay
      · intro h
        exact h [] a w rfl
  | call op next ih =>
      constructor
      · intro h choices a' w' hplay
        cases choices with
        | nil => cases hplay
        | cons c choices =>
            obtain ⟨⟨a, t⟩, hperform, hrest⟩ := Option.bind_eq_some_iff.mp hplay
            exact (ih a).mp (h c a t hperform) choices a' w' hrest
      · intro h c a t hperform
        refine (ih a).mpr fun choices a' w' hplay ↦ h (c :: choices) a' w' ?_
        rw [play, hperform, Option.bind_some]
        exact hplay

theorem Gives.mono {Post Post' : α → W → Prop} {p : Program Op Ans α} (hp : M.Gives i Post p w)
    (h : ∀ a w', Post a w' → Post' a w') : M.Gives i Post' p w :=
  gives_iff.mpr fun choices a w' hplay ↦ h a w' (gives_iff.mp hp choices a w' hplay)

theorem Gives.bind {Mid : α → W → Prop} {Post : β → W → Prop} {p : Program Op Ans α}
    {f : α → Program Op Ans β} (hp : M.Gives i Mid p w)
    (hf : ∀ a w', Mid a w' → M.Gives i Post (f a) w') : M.Gives i Post (p.bind f) w := by
  induction p generalizing w with
  | done a => exact hf a w hp
  | call op next ih => exact fun c a w' hperform ↦ ih a (hp c a w' hperform)

theorem Gives.perform {Post : β → W → Prop} {op : Op} {f : Ans op → Program Op Ans β}
    (h : ∀ c a w', M.perform i op c w = some (a, w') → M.Gives i Post (f a) w') :
    M.Gives i Post ((Program.perform op).bind f) w := h

/-! ## Invariants -/

/-- Wherever the program begins in `Inv`, it ends in `Inv`. -/
def Preserves (M : Machine ι W Op Ans Choice) (i : ι) (Inv : W → Prop) (p : Program Op Ans α) :
    Prop :=
  ∀ w, Inv w → M.Gives i (fun _ w' ↦ Inv w') p w

section Preserves

variable {Inv : W → Prop}

theorem Preserves.done (a : α) : M.Preserves i Inv (Program.done a : Program Op Ans α) :=
  fun _ h ↦ h

theorem Preserves.perform {op : Op}
    (h : ∀ w c a w', Inv w → M.perform i op c w = some (a, w') → Inv w') :
    M.Preserves i Inv (Program.perform op : Program Op Ans (Ans op)) :=
  fun w hw c a w' hperform ↦ h w c a w' hw hperform

theorem Preserves.bind {p : Program Op Ans α} {f : α → Program Op Ans β}
    (hp : M.Preserves i Inv p) (hf : ∀ a, M.Preserves i Inv (f a)) :
    M.Preserves i Inv (p.bind f) :=
  fun w hw ↦ (hp w hw).bind fun a w' hw' ↦ hf a w' hw'

theorem Preserves.andThen {p : Fallible Op Ans ε α}
    {f : α → Fallible Op Ans ε β} (hp : M.Preserves i Inv p)
    (hf : ∀ a, M.Preserves i Inv (f a)) :
    M.Preserves i Inv (p >>= f : Fallible Op Ans ε β) :=
  Preserves.bind hp fun r ↦ by
    cases r with
    | ok a => exact hf a
    | error e => exact .done _

theorem Preserves.lift {p : Program Op Ans α} (hp : M.Preserves i Inv p) :
    M.Preserves i Inv (Program.lift p : Fallible Op Ans ε α) :=
  hp.bind fun _ ↦ .done _

theorem Preserves.mapError {p : Fallible Op Ans ε α} (g : ε → ε')
    (hp : M.Preserves i Inv p) : M.Preserves i Inv (Program.mapError g p) :=
  Preserves.bind hp fun r ↦ by
    cases r <;> exact .done _

theorem Preserves.ofExcept (r : Except ε α) :
    M.Preserves i Inv (Program.ofExcept r : Fallible Op Ans ε α) := .done r

/-- A program keeps what its operations keep. -/
theorem Preserves.of_calls {P : Op → Prop} {p : Program Op Ans α} (hp : p.Calls P)
    (h : ∀ op, P op → ∀ w c a w', Inv w → M.perform i op c w = some (a, w') → Inv w') :
    M.Preserves i Inv p := by
  induction p with
  | done a => exact .done a
  | call op next ih =>
      intro w hw c a w' hperform
      exact ih a (hp.2 a) w' (h op hp.1 w c a w' hw hperform)

end Preserves

/-! ## Runs whose steps meet a condition -/

section Meets

variable (M i) (good : Op → Choice → W → Prop)

/-- Every operation is performed where the condition holds. -/
def Meets : Program Op Ans α → List Choice → W → Prop
  | .call op next, c :: choices, w =>
      good op c w ∧ ∀ r, M.perform i op c w = some r → Meets (next r.1) choices r.2
  | _, _, _ => True

theorem Meets.of_forall (h : ∀ op c w, good op c w) (p : Program Op Ans α)
    (choices : List Choice) (w : W) : M.Meets i good p choices w := by
  induction p generalizing choices w with
  | done a => cases choices <;> trivial
  | call op next ih =>
      cases choices with
      | nil => trivial
      | cons c choices => exact ⟨h op c w, fun r _ ↦ ih r.1 choices r.2⟩

open Classical in
/-- The machine that performs an operation only where the condition holds. -/
noncomputable def guarded : Machine ι W Op Ans Choice :=
  { M with perform i op c w := if good op c w then M.perform i op c w else none }

variable {M i good}

theorem perform_guarded {op : Op} {c : Choice} {w : W} {r : Ans op × W} :
    (M.guarded good).perform i op c w = some r ↔ good op c w ∧ M.perform i op c w = some r := by
  by_cases h : good op c w
  · simp [guarded, h]
  · simp [guarded, h]

theorem play_guarded {p : Program Op Ans α} {choices : List Choice} {r : α × W}
    (hmeets : M.Meets i good p choices w) (hplay : M.play i p choices w = some r) :
    (M.guarded good).play i p choices w = some r := by
  induction p generalizing choices w with
  | done a => cases choices <;> exact hplay
  | call op next ih =>
      cases choices with
      | nil => cases hplay
      | cons c choices =>
          obtain ⟨⟨a, t⟩, hperform, hrest⟩ := Option.bind_eq_some_iff.mp hplay
          obtain ⟨hgood, hlater⟩ := hmeets
          rw [play, perform_guarded.mpr ⟨hgood, hperform⟩, Option.bind_some]
          exact ih a (hlater _ hperform) hrest

end Meets

section Fallible

open Program

/-- If the program ends with a value, `Post` holds. -/
def Succeeds (M : Machine ι W Op Ans Choice) (i : ι) (Post : α → W → Prop)
    (p : Fallible Op Ans ε α) (w : W) : Prop :=
  M.Gives i (fun r w' ↦ ∀ a, r = Except.ok a → Post a w') p w

/-- `Post` holds of the value that the program ends with, and `Fin` where it ends
with an error. -/
def Leads (M : Machine ι W Op Ans Choice) (i : ι) (Post : α → W → Prop) (Fin : W → Prop)
    (p : Fallible Op Ans ε α) (w : W) : Prop :=
  M.Gives i (fun r w' ↦ (∀ a, r = Except.ok a → Post a w') ∧ (∀ e, r = .error e → Fin w')) p w

theorem Leads.return {Post : α → W → Prop} {Fin : W → Prop} {a : α} (h : Post a w) :
    M.Leads i Post Fin (pure a : Fallible Op Ans ε α) w := by
  refine ⟨fun a' ha' ↦ ?_, nofun⟩
  cases ha'
  exact h

theorem Leads.fail {Post : α → W → Prop} {Fin : W → Prop} {e : ε} (h : Fin w) :
    M.Leads i Post Fin (Program.fail e : Fallible Op Ans ε α) w :=
  ⟨nofun, fun _ _ ↦ h⟩

theorem Leads.andThen {Mid : α → W → Prop} {Post : β → W → Prop} {Fin : W → Prop}
    {p : Fallible Op Ans ε α} {f : α → Fallible Op Ans ε β} (hp : M.Leads i Mid Fin p w)
    (hf : ∀ a w', Mid a w' → M.Leads i Post Fin (f a) w') :
    M.Leads i Post Fin (p >>= f : Fallible Op Ans ε β) w :=
  Gives.bind hp fun r w' h ↦ by
    cases r with
    | ok a => exact hf a w' (h.1 a rfl)
    | error e => exact Leads.fail (h.2 e rfl)

theorem Leads.mapError {Post : α → W → Prop} {Fin : W → Prop} {p : Fallible Op Ans ε α}
    (g : ε → ε') (hp : M.Leads i Post Fin p w) :
    M.Leads i Post Fin (Program.mapError g p) w :=
  Gives.bind hp fun r w' h ↦ by
    cases r with
    | ok a => exact Leads.return (h.1 a rfl)
    | error e => exact Leads.fail (h.2 e rfl)

theorem Leads.liftThen {Mid : α → W → Prop} {Post : β → W → Prop} {Fin : W → Prop}
    {q : Program Op Ans α} {f : α → Fallible Op Ans ε β} (hq : M.Gives i Mid q w)
    (hf : ∀ a w', Mid a w' → M.Leads i Post Fin (f a) w') :
    M.Leads i Post Fin (lift q >>= f : Fallible Op Ans ε β) w := by
  have hlift : M.Leads i Mid Fin (lift q : Fallible Op Ans ε α) w :=
    Gives.bind hq fun a w' h ↦ Leads.return h
  exact hlift.andThen hf

/-- One way of ending for values and errors. -/
theorem Leads.gives {Fin : W → Prop} {p : Fallible Op Ans ε α}
    (h : M.Leads i (fun _ ↦ Fin) Fin p w) : M.Gives i (fun _ ↦ Fin) p w :=
  Gives.mono h fun r w' hr ↦ by
    cases r with
    | ok a => exact hr.1 a rfl
    | error e => exact hr.2 e rfl

theorem Succeeds.return {Post : α → W → Prop} {a : α} (h : Post a w) :
    M.Succeeds i Post (pure a : Fallible Op Ans ε α) w := by
  intro a' ha'
  cases ha'
  exact h

theorem Succeeds.fail {Post : α → W → Prop} {e : ε} :
    M.Succeeds i Post (Program.fail e : Fallible Op Ans ε α) w := nofun

theorem Succeeds.andThen {Mid : α → W → Prop} {Post : β → W → Prop} {p : Fallible Op Ans ε α}
    {f : α → Fallible Op Ans ε β} (hp : M.Succeeds i Mid p w)
    (hf : ∀ a w', Mid a w' → M.Succeeds i Post (f a) w') :
    M.Succeeds i Post (p >>= f : Fallible Op Ans ε β) w :=
  Gives.bind hp fun r w' h ↦ by
    cases r with
    | ok a => exact hf a w' (h a rfl)
    | error e => exact nofun

theorem Succeeds.mapError {Post : α → W → Prop} {p : Fallible Op Ans ε α} (g : ε → ε')
    (hp : M.Succeeds i Post p w) : M.Succeeds i Post (Program.mapError g p) w :=
  Gives.bind hp fun r w' h ↦ by
    cases r with
    | ok a => exact Succeeds.return (h a rfl)
    | error e => exact nofun

theorem Succeeds.liftThen {Mid : α → W → Prop} {Post : β → W → Prop} {q : Program Op Ans α}
    {f : α → Fallible Op Ans ε β} (hq : M.Gives i Mid q w)
    (hf : ∀ a w', Mid a w' → M.Succeeds i Post (f a) w') :
    M.Succeeds i Post (lift q >>= f : Fallible Op Ans ε β) w := by
  have hlift : M.Succeeds i Mid (lift q : Fallible Op Ans ε α) w :=
    Gives.bind hq fun a w' h ↦ Succeeds.return h
  exact hlift.andThen hf

theorem Succeeds.ofExceptThen {Post : β → W → Prop} {r : Except ε α}
    {f : α → Fallible Op Ans ε β} (h : ∀ a, r = .ok a → M.Succeeds i Post (f a) w) :
    M.Succeeds i Post (ofExcept r >>= f : Fallible Op Ans ε β) w := by
  cases r with
  | error e => exact nofun
  | ok a => exact h a rfl

end Fallible

end Machine
