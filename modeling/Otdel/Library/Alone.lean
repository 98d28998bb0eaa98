import Otdel.Library.Interleaving

/-!
# A program that runs alone

One actor runs a program from the beginning to its end, and the environment makes
a fixed choice for each operation.
-/

universe u v w

namespace Machine

variable {ι : Type u} {W : Type v} {Op : Type} {Ans : Op → Type} {Choice : Type w}
  (M : Machine ι W Op Ans Choice) (i : ι) (choose : Op → Choice) {α β ε ε' : Type}

/-- The result, the last world, and the worlds before it. -/
def alone : Program Op Ans α → W → Option (α × W × List W)
  | .done a, w => some (a, w, [])
  | .call op next, w => (M.perform i op (choose op) w).bind fun r ↦
      (alone (next r.1) r.2).map fun q ↦ (q.1, q.2.1, w :: q.2.2)

/-- The program comes to an end that satisfies `Post`, through worlds that satisfy `Inv`. -/
def Ends (Inv : W → Prop) (Post : α → W → Prop) (p : Program Op Ans α) (w : W) : Prop :=
  ∃ a w' visited, M.alone i choose p w = some (a, w', visited) ∧
    (∀ s ∈ visited, Inv s) ∧ Inv w' ∧ Post a w'

variable {M i choose} {Inv : W → Prop} {w : W}

theorem Ends.done {Post : α → W → Prop} {a : α} (hinv : Inv w) (hpost : Post a w) :
    M.Ends i choose Inv Post (.done a) w :=
  ⟨a, w, [], rfl, by simp, hinv, hpost⟩

theorem Ends.call {Post : α → W → Prop} {op : Op} {next : Ans op → Program Op Ans α}
    {answer : Ans op} {w' : W} (hinv : Inv w)
    (hperform : M.perform i op (choose op) w = some (answer, w'))
    (h : M.Ends i choose Inv Post (next answer) w') :
    M.Ends i choose Inv Post (.call op next) w := by
  obtain ⟨a, t, visited, hrun, hvisited, ht, hpost⟩ := h
  refine ⟨a, t, w :: visited, ?_, ?_, ht, hpost⟩
  · rw [alone, hperform, Option.bind_some, hrun, Option.map_some]
  · simpa using ⟨hinv, hvisited⟩

theorem Ends.perform {Post : α → W → Prop} {op : Op} {f : Ans op → Program Op Ans α}
    {answer : Ans op} {w' : W} (hinv : Inv w)
    (hperform : M.perform i op (choose op) w = some (answer, w'))
    (h : M.Ends i choose Inv Post (f answer) w') :
    M.Ends i choose Inv Post ((Program.perform op).bind f) w :=
  Ends.call hinv hperform h

theorem alone_bind (p : Program Op Ans α) (f : α → Program Op Ans β) :
    M.alone i choose (p.bind f) w = (M.alone i choose p w).bind fun r ↦
      (M.alone i choose (f r.1) r.2.1).map fun q ↦ (q.1, q.2.1, r.2.2 ++ q.2.2) := by
  induction p generalizing w with
  | done a =>
      simp only [Program.bind, alone, Option.bind_some, List.nil_append]
      exact Option.map_id'.symm
  | call op next ih =>
      simp only [Program.bind, alone]
      cases M.perform i op (choose op) w with
      | none => rfl
      | some r =>
          simp only [Option.bind_some, ih]
          cases M.alone i choose (next r.1) r.2 with
          | none => rfl
          | some q =>
              simp only [Option.bind_some, Option.map_some]
              cases M.alone i choose (f q.1) q.2.1 <;> rfl

theorem Ends.bind {Mid : α → W → Prop} {Post : β → W → Prop} {p : Program Op Ans α}
    {f : α → Program Op Ans β} (hp : M.Ends i choose Inv Mid p w)
    (hf : ∀ a w', Inv w' → Mid a w' → M.Ends i choose Inv Post (f a) w') :
    M.Ends i choose Inv Post (p.bind f) w := by
  obtain ⟨a, w', visited, hrun, hvisited, hinv, hmid⟩ := hp
  obtain ⟨b, t, rest, hrest, hlater, ht, hpost⟩ := hf a w' hinv hmid
  refine ⟨b, t, visited ++ rest, ?_, ?_, ht, hpost⟩
  · rw [alone_bind, hrun, Option.bind_some, hrest, Option.map_some]
  · intro s hs
    rcases List.mem_append.mp hs with hs | hs
    · exact hvisited s hs
    · exact hlater s hs

theorem Ends.mono {Post Post' : α → W → Prop} {p : Program Op Ans α}
    (hp : M.Ends i choose Inv Post p w) (h : ∀ a w', Post a w' → Post' a w') :
    M.Ends i choose Inv Post' p w := by
  obtain ⟨a, w', visited, hrun, hvisited, hw', hpost⟩ := hp
  exact ⟨a, w', visited, hrun, hvisited, hw', h a w' hpost⟩

section Fallible

open Program

variable {p : Fallible Op Ans ε α}

/-- A value goes on, an error ends the program. -/
theorem Ends.andThen {Mid : Except ε α → W → Prop} {Post : Except ε β → W → Prop}
    {f : α → Fallible Op Ans ε β} (hp : M.Ends i choose Inv Mid p w)
    (herror : ∀ e w', Mid (.error e) w' → Post (.error e) w')
    (hok : ∀ a w', Inv w' → Mid (.ok a) w' → M.Ends i choose Inv Post (f a) w') :
    M.Ends i choose Inv Post (p >>= f : Fallible Op Ans ε β) w :=
  Ends.bind hp fun r w' hinv h ↦ by
    cases r with
    | ok a => exact hok a w' hinv h
    | error e => exact Ends.done hinv (herror e w' h)

theorem Ends.mapError {Post : Except ε' α → W → Prop} (g : ε → ε')
    (hp : M.Ends i choose Inv (fun r w' ↦ Post (r.mapError g) w') p w) :
    M.Ends i choose Inv Post (Program.mapError g p) w :=
  Ends.bind hp fun r w' hinv h ↦ by
    cases r with
    | ok a => exact Ends.done hinv h
    | error e => exact Ends.done hinv h

theorem Ends.liftThen {Mid : α → W → Prop} {Post : Except ε β → W → Prop} {q : Program Op Ans α}
    {f : α → Fallible Op Ans ε β} (hq : M.Ends i choose Inv Mid q w)
    (hf : ∀ a w', Inv w' → Mid a w' → M.Ends i choose Inv Post (f a) w') :
    M.Ends i choose Inv Post (lift q >>= f : Fallible Op Ans ε β) w := by
  have hlift : M.Ends i choose Inv (fun r w' ↦ ∃ a, r = .ok a ∧ Mid a w')
      (lift q : Fallible Op Ans ε α) w :=
    Ends.bind hq fun a w' hinv h ↦ Ends.done hinv ⟨a, rfl, h⟩
  apply hlift.andThen
  · rintro e w' ⟨a, ha, -⟩
    cases ha
  · rintro a w' hinv ⟨a', ha, h⟩
    cases ha
    exact hf a w' hinv h

theorem Ends.ofExcept_ok {Post : Except ε β → W → Prop} {r : Except ε α} {a : α}
    {f : α → Fallible Op Ans ε β} (hr : r = .ok a) (h : M.Ends i choose Inv Post (f a) w) :
    M.Ends i choose Inv Post (ofExcept r >>= f : Fallible Op Ans ε β) w := by
  subst hr
  exact h

theorem Ends.ofExcept_error {Post : Except ε β → W → Prop} {r : Except ε α} {e : ε}
    {f : α → Fallible Op Ans ε β} (hr : r = .error e) (hinv : Inv w) (hpost : Post (.error e) w) :
    M.Ends i choose Inv Post (ofExcept r >>= f : Fallible Op Ans ε β) w := by
  subst hr
  exact Ends.done hinv hpost

end Fallible

end Machine
