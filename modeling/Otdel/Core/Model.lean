import Otdel.Core.Status
import Otdel.Core.Uuid

/-!
# Domain entities on the wire
-/

namespace Otdel

/-- Seconds since the epoch. -/
abbrev Timestamp := ℕ

structure Partner where
  id : Uuid
  name : Text
  note : Option Text
  createdAt : Timestamp
  updatedAt : Timestamp
  deriving DecidableEq

structure Material where
  id : Uuid
  partnerId : Uuid
  filename : Text
  mediaType : Text
  sizeBytes : ℕ
  sha256 : Text
  status : MaterialStatus
  pageCount : Option ℕ
  createdAt : Timestamp
  error : Option Text
  deriving DecidableEq

structure Job where
  id : Uuid
  partnerId : Uuid
  materialId : Uuid
  kind : JobKind
  status : JobStatus
  stage : Option Text
  attempts : ℕ
  createdAt : Timestamp
  updatedAt : Timestamp
  error : Option Text
  deriving DecidableEq

/-- Stable idempotency key of the extraction job of a material. -/
def extractionIdempotencyKey (uuid : UuidCrate) (materialId : Uuid) (kind : JobKind) : Text :=
  kind.asStr.toList ++ ':' :: uuid.display materialId

/-- Different materials have different keys. -/
theorem extractionIdempotencyKey_injective (uuid : UuidCrate) (kind : JobKind) {m n : Uuid}
    (h : extractionIdempotencyKey uuid m kind = extractionIdempotencyKey uuid n kind) :
    m = n := by
  simp only [extractionIdempotencyKey, List.append_cancel_left_eq, List.cons.injEq,
    true_and] at h
  have hm := uuid.parseStr_display m
  rw [h, uuid.parseStr_display] at hm
  exact (Option.some.inj hm).symm

end Otdel
