import Mathlib

/-!
# Programs that call operations

A program is a tree: it calls an operation of a fixed interface and goes on with
the answer.  What an operation does is left to a machine.
-/

inductive Program (Op : Type) (Ans : Op → Type) (α : Type) where
  | done (a : α)
  | call (op : Op) (next : Ans op → Program Op Ans α)

/-- A program that answers a value or an error. -/
def Fallible (Op : Type) (Ans : Op → Type) (ε α : Type) := Program Op Ans (Except ε α)

namespace Program

variable {Op : Type} {Ans : Op → Type} {α β ε ε' : Type}

def bind (p : Program Op Ans α) (f : α → Program Op Ans β) : Program Op Ans β :=
  match p with
  | done a => f a
  | call op next => call op fun a ↦ (next a).bind f

/-- Call one operation and answer what it answers. -/
def perform (op : Op) : Program Op Ans (Ans op) := call op done

instance : Monad (Program Op Ans) where
  pure := done
  bind := bind

/-- Go on with the value, stop at the error. -/
def andThen (p : Program Op Ans (Except ε α)) (f : α → Program Op Ans (Except ε β)) :
    Program Op Ans (Except ε β) :=
  p.bind fun
    | .ok a => f a
    | .error e => done (.error e)

instance : Monad (Fallible Op Ans ε) where
  pure a := done (.ok a)
  bind := andThen

def fail (e : ε) : Fallible Op Ans ε α := done (.error e)

/-- A program that cannot fail, among programs that may. -/
def lift (p : Program Op Ans α) : Fallible Op Ans ε α := p.bind fun a ↦ done (.ok a)

/-- Read the answer of a program as a value or an error. -/
def attempt (p : Program Op Ans (Except ε α)) : Fallible Op Ans ε α := p

def ofExcept (r : Except ε α) : Fallible Op Ans ε α := done r

/-- The error a caller sees in place of the one that occurred. -/
def mapError (f : ε → ε') (p : Fallible Op Ans ε α) : Fallible Op Ans ε' α :=
  bind p fun
    | .ok a => done (.ok a)
    | .error e => done (.error (f e))

/-- Go on at the error, with a program that answers in its place. -/
def catching (p : Program Op Ans (Except ε α)) (handler : ε → Fallible Op Ans ε' α) :
    Fallible Op Ans ε' α :=
  p.bind fun
    | .ok a => done (.ok a)
    | .error e => handler e

theorem mapError_ofExcept (f : ε → ε') (r : Except ε α) :
    mapError f (ofExcept r : Fallible Op Ans ε α) = ofExcept (r.mapError f) := by
  cases r <;> rfl

/-- The operation a program waits for. -/
def head? : Program Op Ans α → Option Op
  | done _ => none
  | call op _ => some op

/-! ## Answers at once -/

/-- The result, when every operation has a fixed answer. -/
def eval (answer : (op : Op) → Ans op) : Program Op Ans α → α
  | done a => a
  | call op next => (next (answer op)).eval answer

section Eval

variable (answer : (op : Op) → Ans op)

@[simp] theorem eval_done (a : α) : (done a : Program Op Ans α).eval answer = a := rfl

@[simp] theorem eval_perform (op : Op) :
    (perform op : Program Op Ans (Ans op)).eval answer = answer op := rfl

@[simp] theorem eval_bind (p : Program Op Ans α) (f : α → Program Op Ans β) :
    (p.bind f).eval answer = (f (p.eval answer)).eval answer := by
  induction p with
  | done a => rfl
  | call op next ih => exact ih (answer op)

@[simp] theorem eval_andThen (p : Fallible Op Ans ε α) (f : α → Fallible Op Ans ε β) :
    eval answer (p >>= f : Fallible Op Ans ε β) =
      (eval answer p >>= fun a ↦ eval answer (f a) : Except ε β) := by
  refine (eval_bind answer p _).trans ?_
  cases eval answer p <;> rfl

@[simp] theorem eval_return (a : α) : eval answer (pure a : Fallible Op Ans ε α) = .ok a := rfl

@[simp] theorem eval_fail (e : ε) : eval answer (fail e : Fallible Op Ans ε α) = .error e := rfl

@[simp] theorem eval_ofExcept (r : Except ε α) :
    eval answer (ofExcept r : Fallible Op Ans ε α) = r := rfl

@[simp] theorem eval_lift (p : Program Op Ans α) :
    eval answer (lift p : Fallible Op Ans ε α) = .ok (p.eval answer) :=
  eval_bind answer p _

@[simp] theorem eval_mapError (f : ε → ε') (p : Fallible Op Ans ε α) :
    eval answer (mapError f p) = (eval answer p).mapError f := by
  refine (eval_bind answer p _).trans ?_
  cases eval answer p <;> rfl

end Eval

/-! ## The operations of a program -/

/-- Every operation the program may call is one of these. -/
def Calls (P : Op → Prop) : Program Op Ans α → Prop
  | done _ => True
  | call op next => P op ∧ ∀ a, (next a).Calls P

section Calls

variable {P : Op → Prop}

theorem calls_done (a : α) : (done a : Program Op Ans α).Calls P := trivial

theorem calls_perform {op : Op} (h : P op) : (perform op : Program Op Ans (Ans op)).Calls P :=
  ⟨h, fun _ ↦ trivial⟩

theorem Calls.mono {Q : Op → Prop} {p : Program Op Ans α} (hp : p.Calls P)
    (h : ∀ op, P op → Q op) : p.Calls Q := by
  induction p with
  | done a => trivial
  | call op next ih => exact ⟨h op hp.1, fun a ↦ ih a (hp.2 a)⟩

theorem Calls.bind {p : Program Op Ans α} {f : α → Program Op Ans β} (hp : p.Calls P)
    (hf : ∀ a, (f a).Calls P) : (p.bind f).Calls P := by
  induction p with
  | done a => exact hf a
  | call op next ih => exact ⟨hp.1, fun a ↦ ih a (hp.2 a)⟩

theorem Calls.andThen {p : Fallible Op Ans ε α} {f : α → Fallible Op Ans ε β}
    (hp : Calls P p) (hf : ∀ a, Calls P (f a)) :
    Calls P (p >>= f : Fallible Op Ans ε β) :=
  Calls.bind hp fun r ↦ by
    cases r with
    | ok a => exact hf a
    | error e => trivial

theorem Calls.lift {p : Program Op Ans α} (hp : p.Calls P) :
    Calls P (Program.lift p : Fallible Op Ans ε α) :=
  Calls.bind hp fun _ ↦ trivial

theorem Calls.mapError {p : Fallible Op Ans ε α} (f : ε → ε') (hp : Calls P p) :
    Calls P (Program.mapError f p) :=
  Calls.bind hp fun r ↦ by
    cases r <;> trivial

theorem Calls.ite {c : Prop} [Decidable c] {p q : Program Op Ans α} (hp : p.Calls P)
    (hq : q.Calls P) : (if c then p else q).Calls P := by
  split
  · exact hp
  · exact hq

end Calls

end Program
