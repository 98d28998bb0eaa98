import Otdel.Core.Error

/-!
# States of a material and of a queued job
-/

namespace Otdel

/-- `Partial` is `partially`, the source's word being reserved. -/
inductive MaterialStatus where
  | queued
  | processing
  | completed
  | partially
  | failed
  | quarantined
  deriving DecidableEq, Repr

namespace MaterialStatus

def asStr : MaterialStatus → String
  | queued => "queued"
  | processing => "processing"
  | completed => "completed"
  | partially => "partial"
  | failed => "failed"
  | quarantined => "quarantined"

/-- Retry is only meaningful for an extraction that ran and did not finish
cleanly. -/
def canRetry : MaterialStatus → Bool
  | failed => true
  | partially => true
  | _ => false

def retryRefusal (status : MaterialStatus) : AppError :=
  AppError.conflict <| match status with
    | queued => "material is already queued for extraction"
    | processing => "material is being processed right now"
    | completed => "material has already been extracted"
    | quarantined => "quarantined material cannot be retried"
    | failed => "material can be retried"
    | partially => "material can be retried"

theorem canRetry_iff (status : MaterialStatus) :
    status.canRetry = true ↔ status = failed ∨ status = partially := by
  cases status <;> simp [canRetry]

/-- A refusal is a conflict that the client must not repeat. -/
theorem retryRefusal_code (status : MaterialStatus) :
    status.retryRefusal.code = .conflict ∧ status.retryRefusal.retryable = false :=
  ⟨rfl, rfl⟩

end MaterialStatus

inductive JobKind where
  | extractDocument
  deriving DecidableEq, Repr

def JobKind.asStr : JobKind → String
  | extractDocument => "extract_document"

inductive JobStatus where
  | queued
  | running
  | completed
  | failed
  | cancelled
  deriving DecidableEq, Repr

def JobStatus.asStr : JobStatus → String
  | queued => "queued"
  | running => "running"
  | completed => "completed"
  | failed => "failed"
  | cancelled => "cancelled"

end Otdel
