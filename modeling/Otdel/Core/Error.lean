import Otdel.Library.Text

/-!
# The error type carried across the layers
-/

namespace Otdel

/-- `Option::ok_or`. -/
def okOr {ε α : Type*} (error : ε) : Option α → Except ε α
  | some a => .ok a
  | none => .error error

@[simp] theorem okOr_eq_ok {ε α : Type*} {error : ε} {o : Option α} {a : α} :
    okOr error o = .ok a ↔ o = some a := by
  cases o <;> simp [okOr]

theorem okOr_bind_eq_ok {ε α β : Type} {error : ε} {o : Option α} {f : α → Except ε β}
    {b : β} : (okOr error o >>= f) = .ok b ↔ ∃ a, o = some a ∧ f a = .ok b := by
  cases o with
  | none => simp [okOr, bind, Except.bind]
  | some a => simp [okOr, bind, Except.bind]

theorem bind_eq_ok {ε α β : Type} {x : Except ε α} {f : α → Except ε β} {b : β} :
    (x >>= f) = .ok b ↔ ∃ a, x = .ok a ∧ f a = .ok b := by
  cases x with
  | error e => simp [bind, Except.bind]
  | ok a => simp [bind, Except.bind]

theorem mapError_eq_ok {ε ε' α : Type} {x : Except ε α} {f : ε → ε'} {a : α} :
    x.mapError f = .ok a ↔ x = .ok a := by
  cases x with
  | error e => simp [Except.mapError]
  | ok a => simp [Except.mapError]

theorem map_eq_ok {ε α β : Type} {x : Except ε α} {f : α → β} {b : β} :
    x.map f = .ok b ↔ ∃ a, x = .ok a ∧ f a = b := by
  cases x with
  | error e => simp [Except.map]
  | ok a => simp [Except.map]

theorem guard_eq_ok {ε β : Type*} {error : ε} {p : Prop} [Decidable p] {rest : Except ε β}
    {b : β} : (if p then .error error else rest) = .ok b ↔ ¬ p ∧ rest = .ok b := by
  by_cases h : p <;> simp [h]

theorem guard_isOk {ε β : Type*} {error : ε} {p : Prop} [Decidable p] {rest : Except ε β} :
    (if p then .error error else rest).isOk = true ↔ ¬ p ∧ rest.isOk = true := by
  by_cases h : p
  · simp [h, Except.isOk, Except.toBool]
  · simp [h]

theorem exists_of_isOk {ε α : Type*} {x : Except ε α} (h : x.isOk = true) : ∃ a, x = .ok a := by
  cases x with
  | error e => cases h
  | ok a => exact ⟨a, rfl⟩

/-- Go on with a proof of a condition, or stop with an error. -/
def require {ε : Type*} (p : Prop) [Decidable p] (error : ε) : Except ε (PLift p) :=
  if h : p then .ok ⟨h⟩ else .error error

inductive ErrorCode where
  | validationFailed
  | badRequest
  | unauthorized
  | invalidCsrfToken
  | forbidden
  | notFound
  | methodNotAllowed
  | conflict
  | payloadTooLarge
  | unsupportedMediaType
  | rateLimited
  | serviceUnavailable
  | internal
  deriving DecidableEq, Repr

namespace ErrorCode

def httpStatus : ErrorCode → ℕ
  | validationFailed => 422
  | badRequest => 400
  | unauthorized => 401
  | invalidCsrfToken => 403
  | forbidden => 403
  | notFound => 404
  | methodNotAllowed => 405
  | conflict => 409
  | payloadTooLarge => 413
  | unsupportedMediaType => 415
  | rateLimited => 429
  | serviceUnavailable => 503
  | internal => 500

def retryable : ErrorCode → Bool
  | rateLimited => true
  | serviceUnavailable => true
  | internal => true
  | _ => false

end ErrorCode

/-- An error that is safe to render to the client. -/
structure AppError where
  code : ErrorCode
  message : String
  retryable : Bool
  deriving DecidableEq, Repr

namespace AppError

def new (code : ErrorCode) (message : String) : AppError := ⟨code, message, code.retryable⟩

def validation (message : String) : AppError := new .validationFailed message

def badRequest (message : String) : AppError := new .badRequest message

def unauthorized (message : String) : AppError := new .unauthorized message

def forbidden (message : String) : AppError := new .forbidden message

def notFound (message : String) : AppError := new .notFound message

def conflict (message : String) : AppError := new .conflict message

def internal (message : String) : AppError := new .internal message

def unavailable (message : String) : AppError := new .serviceUnavailable message

end AppError

end Otdel
