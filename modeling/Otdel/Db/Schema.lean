import Otdel.Core.Media
import Otdel.Core.Model
import Otdel.Library.Table
import Otdel.Storage.Key

/-!
# The tables

Rows of `otdel.partners`, `otdel.materials` and `otdel.jobs` with the checks and
keys of the schema.  A transaction keeps its writes to itself until it commits;
it reads the committed rows with its own writes on top.
-/

namespace Otdel

structure PartnerRow where
  id : Uuid
  bureauId : Uuid
  name : Text
  note : Option Text
  createdAt : Timestamp
  updatedAt : Timestamp
  deriving DecidableEq

structure MaterialRow where
  id : Uuid
  bureauId : Uuid
  partnerId : Uuid
  filename : Text
  mediaType : Text
  sizeBytes : ℕ
  sha256 : Text
  storageKey : Text
  status : MaterialStatus
  pageCount : Option ℕ
  error : Option Text
  createdAt : Timestamp
  updatedAt : Timestamp
  deriving DecidableEq

structure JobRow where
  id : Uuid
  bureauId : Uuid
  partnerId : Uuid
  materialId : Uuid
  kind : JobKind
  status : JobStatus
  stage : Option Text
  attempts : ℕ
  maxAttempts : ℕ
  idempotencyKey : Text
  runAfter : Timestamp
  leaseOwner : Option Text
  leaseExpiresAt : Option Timestamp
  error : Option Text
  createdAt : Timestamp
  updatedAt : Timestamp
  deriving DecidableEq

/-- `btrim`: the spaces at both ends. -/
def btrim (s : Text) : Text := Text.trimMatches (· = ' ') s

/-- `~ '^[0-9a-f]{64}$'`. -/
def hexPattern (value : Text) : Bool :=
  value.length = 64 && value.all fun c ↦ ('0' ≤ c && c ≤ '9') || ('a' ≤ c && c ≤ 'f')

def PartnerRow.check (row : PartnerRow) : Bool :=
  1 ≤ (btrim row.name).length && (btrim row.name).length ≤ 200 &&
    row.note.all fun note ↦ note.length ≤ 10000

def MaterialRow.check (row : MaterialRow) : Bool :=
  (1 ≤ row.filename.length && row.filename.length ≤ 200) &&
    (["application/pdf", "image/png", "image/jpeg"].any fun t ↦ row.mediaType = t.toList) &&
      0 < row.sizeBytes && hexPattern row.sha256 &&
        (1 ≤ row.storageKey.length && row.storageKey.length ≤ 512) &&
          row.error.all fun error ↦ error.length ≤ 2000

def JobRow.check (row : JobRow) : Bool :=
  0 < row.maxAttempts && (row.stage.all fun stage ↦ stage.length ≤ 100) &&
    (row.leaseOwner.all fun owner ↦ owner.length ≤ 200) &&
      (row.error.all fun error ↦ error.length ≤ 2000) &&
        row.leaseOwner.isNone = row.leaseExpiresAt.isNone

/-- The committed rows. -/
structure Db where
  bureaus : List Uuid
  partners : List PartnerRow
  materials : List MaterialRow
  jobs : List JobRow
  deriving DecidableEq

/-- A row version a transaction has written, with the version it replaces. -/
inductive Write where
  | partner (row : PartnerRow) (replaced : Option PartnerRow)
  | material (row : MaterialRow) (replaced : Option MaterialRow)
  | job (row : JobRow) (replaced : Option JobRow)
  deriving DecidableEq

namespace Write

def partner? : Write → Option (PartnerRow × Option PartnerRow)
  | partner row replaced => some (row, replaced)
  | _ => none

def material? : Write → Option (MaterialRow × Option MaterialRow)
  | material row replaced => some (row, replaced)
  | _ => none

def job? : Write → Option (JobRow × Option JobRow)
  | job row replaced => some (row, replaced)
  | _ => none

end Write

/-- The rows with the writes of a transaction on top. -/
def Db.overlay (db : Db) (writes : List Write) : Db where
  bureaus := db.bureaus
  partners :=
    Table.overlay PartnerRow.id ((writes.filterMap Write.partner?).map Prod.fst) db.partners
  materials :=
    Table.overlay MaterialRow.id ((writes.filterMap Write.material?).map Prod.fst) db.materials
  jobs := Table.overlay JobRow.id ((writes.filterMap Write.job?).map Prod.fst) db.jobs

@[simp] theorem Db.overlay_nil (db : Db) : db.overlay [] = db := rfl

theorem Db.overlay_append (db : Db) (xs ys : List Write) :
    db.overlay (xs ++ ys) = (db.overlay xs).overlay ys := by
  simp [Db.overlay, Table.overlay_append, List.filterMap_append]

/-- A transaction of one bureau, with the time it began. -/
structure Tx where
  bureauId : Uuid
  now : Timestamp
  writes : List Write
  deriving DecidableEq

end Otdel
