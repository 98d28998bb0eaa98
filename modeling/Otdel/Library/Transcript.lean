import Otdel.Library.Program

/-!
# Transcripts

What a program has called and been answered, when it has come to its result.
-/

namespace Program

variable {Op : Type} {Ans : Op → Type} {α β ε ε' : Type}

/-- The program makes these calls, gets these answers, and ends with this result. -/
inductive Performs : Program Op Ans α → List (Sigma Ans) → α → Prop
  | done (a : α) : Performs (done a) [] a
  | call {op : Op} {next : Ans op → Program Op Ans α} {answer : Ans op} {calls : List (Sigma Ans)}
      {a : α} (h : Performs (next answer) calls a) :
      Performs (call op next) (⟨op, answer⟩ :: calls) a

variable {calls : List (Sigma Ans)}

@[simp] theorem performs_done {a b : α} :
    Performs (done a : Program Op Ans α) calls b ↔ calls = [] ∧ b = a := by
  constructor
  · intro h
    cases h
    exact ⟨rfl, rfl⟩
  · rintro ⟨rfl, rfl⟩
    exact .done b

theorem performs_call {op : Op} {next : Ans op → Program Op Ans α} {a : α} :
    Performs (call op next) calls a ↔
      ∃ answer rest, calls = ⟨op, answer⟩ :: rest ∧ Performs (next answer) rest a := by
  constructor
  · intro h
    cases h with
    | call h => exact ⟨_, _, rfl, h⟩
  · rintro ⟨answer, rest, rfl, h⟩
    exact .call h

@[simp] theorem performs_perform {op : Op} {answer : Ans op} :
    Performs (perform op : Program Op Ans (Ans op)) calls answer ↔ calls = [⟨op, answer⟩] := by
  simp [perform, performs_call]

/-- The calls of the first program come before those of the second. -/
theorem performs_bind {p : Program Op Ans α} {f : α → Program Op Ans β} {b : β} :
    Performs (p.bind f) calls b ↔
      ∃ first a second, calls = first ++ second ∧ Performs p first a ∧
        Performs (f a) second b := by
  induction p generalizing calls with
  | done a =>
      simp only [bind, performs_done]
      constructor
      · exact fun h ↦ ⟨[], a, calls, rfl, ⟨rfl, rfl⟩, h⟩
      · rintro ⟨first, a', second, rfl, ⟨rfl, rfl⟩, h⟩
        exact h
  | call op next ih =>
      simp only [bind, performs_call, ih]
      constructor
      · rintro ⟨answer, rest, rfl, first, a, second, rfl, hp, hf⟩
        exact ⟨⟨op, answer⟩ :: first, a, second, rfl, ⟨answer, first, rfl, hp⟩, hf⟩
      · rintro ⟨_, a, second, rfl, ⟨answer, first, rfl, hp⟩, hf⟩
        exact ⟨answer, first ++ second, rfl, first, a, second, rfl, hp, hf⟩

/-- A value comes from the values of both programs. -/
theorem performs_andThen {p : Fallible Op Ans ε α} {f : α → Fallible Op Ans ε β} {b : β} :
    Performs (p >>= f : Fallible Op Ans ε β) calls (.ok b) ↔
      ∃ first a second, calls = first ++ second ∧ Performs p first (.ok a) ∧
        Performs (f a) second (.ok b) := by
  refine performs_bind.trans ⟨?_, ?_⟩
  · rintro ⟨first, r, second, rfl, hp, hf⟩
    cases r with
    | ok a => exact ⟨first, a, second, rfl, hp, hf⟩
    | error e => cases (performs_done.mp hf).2
  · rintro ⟨first, a, second, rfl, hp, hf⟩
    exact ⟨first, .ok a, second, rfl, hp, hf⟩

@[simp] theorem performs_return {a b : α} :
    Performs (pure a : Fallible Op Ans ε α) calls (.ok b) ↔ calls = [] ∧ b = a :=
  performs_done.trans (by rw [Except.ok.injEq])

@[simp] theorem not_performs_fail {e : ε} {a : α} :
    ¬ Performs (fail e : Fallible Op Ans ε α) calls (.ok a) := fun h ↦
  nomatch (performs_done.mp h).2

@[simp] theorem performs_ofExcept {r : Except ε α} {a : α} :
    Performs (ofExcept r : Fallible Op Ans ε α) calls (.ok a) ↔ calls = [] ∧ r = .ok a :=
  performs_done.trans (and_congr_right fun _ ↦ eq_comm)

theorem performs_ofExcept_andThen {r : Except ε α} {f : α → Fallible Op Ans ε β} {b : β} :
    Performs (ofExcept r >>= f : Fallible Op Ans ε β) calls (.ok b) ↔
      ∃ a, r = .ok a ∧ Performs (f a) calls (.ok b) := by
  refine performs_andThen.trans ⟨?_, ?_⟩
  · rintro ⟨first, a, second, rfl, hp, hf⟩
    obtain ⟨rfl, hr⟩ := performs_ofExcept.mp hp
    exact ⟨a, hr, hf⟩
  · rintro ⟨a, hr, hf⟩
    exact ⟨[], a, calls, rfl, performs_ofExcept.mpr ⟨rfl, hr⟩, hf⟩

theorem performs_lift {p : Program Op Ans α} {a : α} :
    Performs (lift p : Fallible Op Ans ε α) calls (.ok a) ↔ Performs p calls a := by
  refine performs_bind.trans ⟨?_, ?_⟩
  · rintro ⟨first, a', second, rfl, hp, hdone⟩
    obtain ⟨rfl, h⟩ := performs_done.mp hdone
    cases h
    rwa [List.append_nil]
  · exact fun h ↦ ⟨calls, a, [], (List.append_nil _).symm, h, performs_done.mpr ⟨rfl, rfl⟩⟩

theorem performs_mapError {f : ε → ε'} {p : Fallible Op Ans ε α} {a : α} :
    Performs (mapError f p) calls (.ok a) ↔ Performs p calls (.ok a) := by
  refine performs_bind.trans ⟨?_, ?_⟩
  · rintro ⟨first, r, second, rfl, hp, hdone⟩
    cases r with
    | ok a' =>
        obtain ⟨rfl, h⟩ := performs_done.mp hdone
        cases h
        rwa [List.append_nil]
    | error e => cases (performs_done.mp hdone).2
  · exact fun h ↦ ⟨calls, .ok a, [], (List.append_nil _).symm, h, performs_done.mpr ⟨rfl, rfl⟩⟩

/-- An error that is caught is followed by the calls of its handler. -/
theorem performs_catching {p : Program Op Ans (Except ε α)} {handler : ε → Fallible Op Ans ε' α}
    {r : Except ε' α} :
    Performs (catching p handler) calls r ↔
      (∃ a, r = .ok a ∧ Performs p calls (.ok a)) ∨
        ∃ e first second, calls = first ++ second ∧ Performs p first (.error e) ∧
          Performs (handler e) second r := by
  refine performs_bind.trans ⟨?_, ?_⟩
  · rintro ⟨first, ending, second, rfl, hp, hrest⟩
    cases ending with
    | ok a =>
        obtain ⟨rfl, rfl⟩ := performs_done.mp hrest
        exact .inl ⟨a, rfl, by rwa [List.append_nil]⟩
    | error e => exact .inr ⟨e, first, second, rfl, hp, hrest⟩
  · rintro (⟨a, rfl, hp⟩ | ⟨e, first, second, rfl, hp, hrest⟩)
    · exact ⟨calls, .ok a, [], (List.append_nil _).symm, hp, .done _⟩
    · exact ⟨first, .error e, second, rfl, hp, hrest⟩

/-! ## Calls after a result -/

variable {P : Op → Prop}

/-- What follows a program has to be checked for its possible results only. -/
theorem Calls.bind_performs {p : Program Op Ans α} {f : α → Program Op Ans β} (hp : p.Calls P)
    (hf : ∀ calls a, Performs p calls a → (f a).Calls P) : (p.bind f).Calls P := by
  induction p with
  | done a => exact hf [] a (.done a)
  | call op next ih =>
      refine ⟨hp.1, fun answer ↦ ih answer (hp.2 answer) fun calls a h ↦ ?_⟩
      exact hf (⟨op, answer⟩ :: calls) a (.call h)

theorem Calls.andThen_performs {p : Fallible Op Ans ε α} {f : α → Fallible Op Ans ε β}
    (hp : Calls P p) (hf : ∀ calls a, Performs p calls (.ok a) → Calls P (f a)) :
    Calls P (p >>= f : Fallible Op Ans ε β) :=
  Calls.bind_performs hp fun calls r h ↦ by
    cases r with
    | ok a => exact hf calls a h
    | error e => trivial

theorem Calls.ofExcept_andThen {r : Except ε α} {f : α → Fallible Op Ans ε β}
    (hf : ∀ a, r = .ok a → Calls P (f a)) :
    Calls P (ofExcept r >>= f : Fallible Op Ans ε β) := by
  cases r with
  | ok a => exact hf a rfl
  | error e => trivial

/-! ## The effects of a transcript -/

/-- Whatever the answers, the effects among the calls and the result satisfy `Post`. -/
structure Yields {ε : Type} (effect : Sigma Ans → Option ε) (Post : List ε → α → Prop)
    (p : Program Op Ans α) : Prop where
  post : ∀ calls a, Performs p calls a → Post (calls.filterMap effect) a

section Yields

variable {δ : Type} {effect : Sigma Ans → Option δ}

theorem Yields.done {Post : List δ → α → Prop} {a : α} (h : Post [] a) :
    Yields effect Post (done a : Program Op Ans α) := by
  constructor
  intro calls b hperforms
  obtain ⟨rfl, rfl⟩ := performs_done.mp hperforms
  exact h

theorem Yields.perform {op : Op} {Post : List δ → Ans op → Prop}
    (h : ∀ answer, Post (effect ⟨op, answer⟩).toList answer) :
    Yields effect Post (perform op : Program Op Ans (Ans op)) := by
  constructor
  intro calls answer hperforms
  rw [performs_perform.mp hperforms]
  have hsingle : [(⟨op, answer⟩ : Sigma Ans)].filterMap effect = (effect ⟨op, answer⟩).toList := by
    cases heffect : effect ⟨op, answer⟩ <;> simp [heffect]
  rw [hsingle]
  exact h answer

theorem Yields.bind {Mid : List δ → α → Prop} {Post : List δ → β → Prop} {p : Program Op Ans α}
    {f : α → Program Op Ans β} (hp : Yields effect Mid p)
    (hf : ∀ before a, Mid before a → Yields effect (fun after ↦ Post (before ++ after)) (f a)) :
    Yields effect Post (p.bind f) := by
  constructor
  intro calls b hperforms
  obtain ⟨first, a, second, rfl, hfirst, hsecond⟩ := performs_bind.mp hperforms
  rw [List.filterMap_append]
  exact (hf _ a (hp.post first a hfirst)).post second b hsecond

theorem Yields.mono {Post Post' : List δ → α → Prop} {p : Program Op Ans α}
    (hp : Yields effect Post p) (h : ∀ effects a, Post effects a → Post' effects a) :
    Yields effect Post' p :=
  ⟨fun calls a hperforms ↦ h _ a (hp.post calls a hperforms)⟩

/-- A value goes on, an error ends the program. -/
theorem Yields.andThen {Mid : List δ → Except ε α → Prop} {Post : List δ → Except ε β → Prop}
    {p : Fallible Op Ans ε α} {f : α → Fallible Op Ans ε β} (hp : Yields effect Mid p)
    (herror : ∀ before e, Mid before (.error e) → Post before (.error e))
    (hok : ∀ before a, Mid before (.ok a) →
      Yields effect (fun after ↦ Post (before ++ after)) (f a)) :
    Yields effect Post (p >>= f : Fallible Op Ans ε β) :=
  Yields.bind hp fun before r h ↦ by
    cases r with
    | ok a => exact hok before a h
    | error e =>
        apply Yields.done
        rw [List.append_nil]
        exact herror before e h

theorem Yields.liftThen {Mid : List δ → α → Prop} {Post : List δ → Except ε β → Prop}
    {q : Program Op Ans α} {f : α → Fallible Op Ans ε β} (hq : Yields effect Mid q)
    (hf : ∀ before a, Mid before a → Yields effect (fun after ↦ Post (before ++ after)) (f a)) :
    Yields effect Post (lift q >>= f : Fallible Op Ans ε β) := by
  have hlift : Yields effect (fun effects r ↦ ∃ a, r = .ok a ∧ Mid effects a)
      (lift q : Fallible Op Ans ε α) :=
    Yields.bind hq fun before a h ↦ by
      apply Yields.done
      rw [List.append_nil]
      exact ⟨a, rfl, h⟩
  apply hlift.andThen
  · rintro before e ⟨a, ha, -⟩
    cases ha
  · rintro before a ⟨a', ha, h⟩
    cases ha
    exact hf before a h

theorem Yields.mapError {Post : List δ → Except ε' α → Prop} {p : Fallible Op Ans ε α}
    (g : ε → ε') (hp : Yields effect (fun effects r ↦ Post effects (r.mapError g)) p) :
    Yields effect Post (Program.mapError g p) :=
  Yields.bind hp fun before r h ↦ by
    cases r <;>
    · apply Yields.done
      rw [List.append_nil]
      exact h

theorem Yields.ofExceptThen {Post : List δ → Except ε β → Prop} {r : Except ε α}
    {f : α → Fallible Op Ans ε β} (herror : ∀ e, r = .error e → Post [] (.error e))
    (hok : ∀ a, r = .ok a → Yields effect Post (f a)) :
    Yields effect Post (ofExcept r >>= f : Fallible Op Ans ε β) := by
  cases r with
  | ok a => exact hok a rfl
  | error e => exact Yields.done (herror e rfl)

/-- Calls without an effect yield none. -/
theorem Yields.of_calls {p : Program Op Ans α}
    (h : p.Calls fun op ↦ ∀ answer, effect ⟨op, answer⟩ = none) :
    Yields effect (fun effects _ ↦ effects = []) p := by
  constructor
  intro calls a hperforms
  induction hperforms with
  | done a => rfl
  | call hnext ih =>
      rw [List.filterMap_cons, h.1]
      exact ih (h.2 _)

end Yields

/-! ## A transcript -/

/-- The calls, when every operation has a fixed answer. -/
def trace (answer : (op : Op) → Ans op) : Program Op Ans α → List (Sigma Ans)
  | done _ => []
  | call op next => ⟨op, answer op⟩ :: trace answer (next (answer op))

theorem performs_trace (answer : (op : Op) → Ans op) (p : Program Op Ans α) :
    Performs p (p.trace answer) (p.eval answer) := by
  induction p with
  | done a => exact .done a
  | call op next ih => exact .call (ih (answer op))

end Program
