import Otdel.Library.Interleaving

/-!
# One program of a run

From where one program stands, a run is its own operations, with steps of the
others before, between and after them.
-/

universe u v w

namespace Machine

variable {ι : Type u} {W : Type v} {Op : Type} {Ans : Op → Type} {Choice : Type w}
  {α β ε ε' : Type}

section Follows

variable (M : Machine ι W Op Ans Choice) (i : ι) (Others : W → W → Prop)
  (Own : (op : Op) → Choice → W → W → Prop)

/-- The program leads from `w` to `w'` and answers `a`.  `Others` relates the
worlds between two of its operations, `Own` those around an operation. -/
inductive Follows : Program Op Ans α → W → α → W → Prop
  | done {a : α} {w w' : W} (hothers : Others w w') : Follows (.done a) w a w'
  | call {op : Op} {next : Ans op → Program Op Ans α} {c : Choice} {r : Ans op} {a : α}
      {w w₁ w₂ w' : W} (hothers : Others w w₁) (hperform : M.perform i op c w₁ = some (r, w₂))
      (hown : Own op c w₁ w₂) (hnext : Follows (next r) w₂ a w') :
      Follows (.call op next) w a w'

variable {M i Others Own} {w w₁ w' : W}

theorem follows_done_iff {a b : α} :
    M.Follows i Others Own (.done a) w b w' ↔ a = b ∧ Others w w' := by
  constructor
  · intro h
    cases h with
    | done hothers => exact ⟨rfl, hothers⟩
  · rintro ⟨rfl, hothers⟩
    exact .done hothers

theorem Follows.perform {op : Op} {r : Ans op}
    (h : M.Follows i Others Own (Program.perform op) w r w') :
    ∃ c w₁ w₂, Others w w₁ ∧ M.perform i op c w₁ = some (r, w₂) ∧ Own op c w₁ w₂ ∧
      Others w₂ w' := by
  cases h with
  | call hothers hperform hown hnext =>
      cases hnext with
      | done hafter => exact ⟨_, _, _, hothers, hperform, hown, hafter⟩

/-- What a dropped program still does is not an answer of its own. -/
theorem not_follows_gone {gone : α} {p : Program Op Ans α} {a : α} (ha : a ≠ gone)
    (hp : p = .done gone ∨ ∃ op, p = .call op fun _ ↦ .done gone) :
    ¬ M.Follows i Others Own p w a w' := by
  rintro h
  rcases hp with rfl | ⟨op, rfl⟩
  · exact ha (follows_done_iff.mp h).1.symm
  · cases h with
    | call _ _ _ hnext => exact ha (follows_done_iff.mp hnext).1.symm

section Transitive

variable (htrans : ∀ w₁ w₂ w₃, Others w₁ w₂ → Others w₂ w₃ → Others w₁ w₃)
include htrans

theorem Follows.after {p : Program Op Ans α} {a : α} (hothers : Others w w₁)
    (h : M.Follows i Others Own p w₁ a w') : M.Follows i Others Own p w a w' := by
  cases h with
  | done h => exact .done (htrans _ _ _ hothers h)
  | call h hperform hown hnext => exact .call (htrans _ _ _ hothers h) hperform hown hnext

theorem Follows.before {p : Program Op Ans α} {a : α} (h : M.Follows i Others Own p w a w₁)
    (hothers : Others w₁ w') : M.Follows i Others Own p w a w' := by
  induction h with
  | done h => exact .done (htrans _ _ _ h hothers)
  | call h hperform hown _ ih => exact .call h hperform hown (ih hothers)

end Transitive

section Sequence

variable (hrefl : ∀ w, Others w w)
include hrefl

theorem Follows.bind {p : Program Op Ans α} {f : α → Program Op Ans β} {b : β}
    (h : M.Follows i Others Own (p.bind f) w b w') :
    ∃ a w₁, M.Follows i Others Own p w a w₁ ∧ M.Follows i Others Own (f a) w₁ b w' := by
  induction p generalizing w with
  | done a => exact ⟨a, w, .done (hrefl w), h⟩
  | call op next ih =>
      cases h with
      | call hothers hperform hown hnext =>
          obtain ⟨a, w₁, hfirst, hrest⟩ := ih _ hnext
          exact ⟨a, w₁, .call hothers hperform hown hfirst, hrest⟩

/-- A program that ends with a value has gone through all of its parts. -/
theorem Follows.andThen {p : Fallible Op Ans ε α} {f : α → Fallible Op Ans ε β} {b : β}
    (h : M.Follows i Others Own (p >>= f : Fallible Op Ans ε β) w (.ok b) w') :
    ∃ a w₁, M.Follows i Others Own p w (.ok a) w₁ ∧
      M.Follows i Others Own (f a) w₁ (.ok b) w' := by
  obtain ⟨r, w₁, hfirst, hrest⟩ := Follows.bind hrefl h
  cases r with
  | ok a => exact ⟨a, w₁, hfirst, hrest⟩
  | error e => cases hrest

variable (htrans : ∀ w₁ w₂ w₃, Others w₁ w₂ → Others w₂ w₃ → Others w₁ w₃)
include htrans

theorem Follows.mapError {f : ε → ε'} {p : Fallible Op Ans ε α} {a : α}
    (h : M.Follows i Others Own (Program.mapError f p) w (.ok a) w') :
    M.Follows i Others Own p w (.ok a) w' := by
  obtain ⟨r, w₁, hfirst, hrest⟩ := Follows.bind hrefl h
  cases r with
  | ok b =>
      obtain ⟨heq, hothers⟩ := follows_done_iff.mp hrest
      cases heq
      exact hfirst.before htrans hothers
  | error e => cases hrest

theorem Follows.lift {p : Program Op Ans α} {a : α}
    (h : M.Follows i Others Own (Program.lift p : Fallible Op Ans ε α) w (.ok a) w') :
    M.Follows i Others Own p w a w' := by
  obtain ⟨b, w₁, hfirst, hrest⟩ := Follows.bind hrefl h
  obtain ⟨heq, hothers⟩ := follows_done_iff.mp hrest
  cases heq
  exact hfirst.before htrans hothers

end Sequence

end Follows

/-! ## Runs -/

section Runs

variable [DecidableEq ι] {M : Machine ι W Op Ans Choice} {gone : α} {i : ι}
  {Others : W → W → Prop} {Own : (op : Op) → Choice → W → W → Prop}
  {Good : Sys ι W Op Ans α → SysEvent ι Choice → Sys ι W Op Ans α → Prop}
  {s t : Sys ι W Op Ans α}

/-- A run in which the program comes to an answer, as the program sees it. -/
theorem follows_of_run (hrefl : ∀ w, Others w w)
    (htrans : ∀ w₁ w₂ w₃, Others w₁ w₂ → Others w₂ w₃ → Others w₁ w₃)
    (hothers : ∀ s e s', Good s e s' → M.step gone s e = some s' → e.actor ≠ i →
      Others s.world s'.world)
    (hown : ∀ s c s' op next, Good s (.act i c) s' → s.procs i = .call op next →
      M.step gone s (.act i c) = some s' → Own op c s.world s'.world)
    {events : List (SysEvent ι Choice)} (hgood : Run.Along (M.step gone) Good s events)
    (hrun : Run.run (M.step gone) s events = some t) {a : α} (ha : a ≠ gone)
    (hdone : t.procs i = .done a) : M.Follows i Others Own (s.procs i) s.world a t.world := by
  induction events generalizing s with
  | nil =>
      cases hrun
      rw [hdone]
      exact .done (hrefl _)
  | cons e events ih =>
      obtain ⟨s', hstep, hrest⟩ := Run.run_eq_some_cons.mp hrun
      obtain ⟨hfirst, hgood'⟩ := (Run.along_cons_iff hstep).mp hgood
      have hnext := ih hgood' hrest
      by_cases hi : e.actor = i
      · cases e with
        | act j c =>
            obtain rfl : j = i := hi
            have hown' := hown s c s'
            simp only [Machine.step] at hstep
            split at hstep
            · cases hstep
            · rename_i op next hproc
              have hall := hown' op next hfirst hproc (by simp only [Machine.step, hproc, hstep])
              obtain ⟨⟨r, w'⟩, hperform, rfl⟩ := Option.map_eq_some_iff.mp hstep
              rw [hproc]
              refine .call (hrefl _) hperform hall ?_
              simpa using hnext
        | abandon j underWay =>
            obtain rfl : j = i := hi
            refine absurd hnext (not_follows_gone ha ?_)
            simp only [Machine.step] at hstep
            split at hstep
            · cases hstep
            · rename_i op next hproc
              split at hstep
              · split at hstep <;> cases hstep
                exact Or.inr ⟨op, by simp⟩
              · cases hstep
                exact Or.inl (by simp)
      · rw [← procs_of_step hstep (Ne.symm hi)]
        exact hnext.after htrans (hothers s e s' hfirst hstep hi)

end Runs

end Machine
