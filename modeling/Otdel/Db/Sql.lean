import Otdel.Db.Schema

/-!
# The statements

What each SQL statement of the repositories answers and writes, on the rows its
transaction sees.  `waitsFor` names the uncommitted row versions of other
transactions that a statement waits for: an insert for a version with one of its
unique keys, an update for a version of a row it updates.
-/

namespace Otdel

/-- Database errors: a pool or connection failure, an error with its SQL state
and constraint, a missing row, or a row of an unexpected shape. -/
inductive DbError where
  | poolTimedOut
  | io
  | database (sqlState : String) (violated : Option String)
  | rowNotFound
  | decode (message : String)
  deriving DecidableEq, Repr

namespace DbError

/-- Client-safe translation. -/
def toAppError : DbError → AppError
  | poolTimedOut => .unavailable "the database is not available right now"
  | io => .unavailable "the database is not available right now"
  | _ => .internal "internal server error"

/-- A row was not of the expected shape. -/
def isDecode : DbError → Bool
  | decode _ => true
  | _ => false

def checkViolation : DbError := database "23514" none

def uniqueViolation (name : String) : DbError := database "23505" (some name)

def foreignKeyViolation : DbError := database "23503" none

end DbError

structure NewMaterial where
  partnerId : Uuid
  filename : Text
  mediaType : Text
  sizeBytes : ℕ
  sha256 : Text
  storageKey : Text
  deriving DecidableEq

/-- The columns of a material that an extraction worker writes. -/
structure MaterialChange where
  status : MaterialStatus
  pageCount : Option ℕ
  error : Option Text
  deriving DecidableEq

/-- The columns of a job that an extraction worker writes. -/
structure JobChange where
  status : JobStatus
  stage : Option Text
  attempts : ℕ
  leaseOwner : Option Text
  leaseExpiresAt : Option Timestamp
  error : Option Text
  deriving DecidableEq

/-- The statements of the repositories, and the two an extraction worker needs
to record what it did. -/
inductive Sql where
  | partnersList (bureauId : Uuid)
  | partnersInsert (bureauId : Uuid) (name : Text) (note : Option Text)
  | partnersGet (bureauId partnerId : Uuid)
  | partnersUpdate (bureauId partnerId : Uuid) (name : Option Text) (setNote : Bool)
      (note : Option Text)
  | partnersExists (bureauId partnerId : Uuid)
  | materialsList (bureauId partnerId : Uuid)
  | materialsByDigest (bureauId partnerId : Uuid) (sha256 : Text)
  | materialsGet (bureauId partnerId materialId : Uuid)
  | materialsInsert (bureauId : Uuid) (new : NewMaterial)
  | materialsRequeue (bureauId partnerId materialId : Uuid)
  | jobsList (bureauId partnerId : Uuid)
  | jobsInsert (bureauId partnerId materialId : Uuid) (kind : JobKind) (key : Text)
  | jobsByKey (bureauId : Uuid) (key : Text)
  | jobsRequeue (bureauId partnerId materialId : Uuid) (key : Text)
  | jobsReclaim (bureauId : Uuid)
  | workerMaterial (bureauId materialId : Uuid) (change : MaterialChange)
  | workerJob (bureauId jobId : Uuid) (change : JobChange)
  deriving DecidableEq

namespace Sql

def Answer : Sql → Type
  | partnersList _ => List PartnerRow
  | partnersInsert _ _ _ => PartnerRow
  | partnersGet _ _ => Option PartnerRow
  | partnersUpdate _ _ _ _ _ => Option PartnerRow
  | partnersExists _ _ => Bool
  | materialsList _ _ => List MaterialRow
  | materialsByDigest _ _ _ => Option MaterialRow
  | materialsGet _ _ _ => Option MaterialRow
  | materialsInsert _ _ => Option MaterialRow
  | materialsRequeue _ _ _ => Option MaterialRow
  | jobsList _ _ => List JobRow
  | jobsInsert _ _ _ _ _ => Option JobRow
  | jobsByKey _ _ => Option JobRow
  | jobsRequeue _ _ _ _ => Option JobRow
  | jobsReclaim _ => ℕ
  | workerMaterial _ _ _ => ℕ
  | workerJob _ _ _ => ℕ

/-- `ORDER BY created_at DESC, id DESC`. -/
def newestFirst {Row : Type} (createdAt : Row → Timestamp) (id : Row → Uuid) (rows : List Row) :
    List Row :=
  rows.mergeSort fun a b ↦
    createdAt b < createdAt a || (createdAt a = createdAt b && (id b).value ≤ (id a).value)

/-! ## The rows a statement is about -/

def isPartner (bureauId partnerId : Uuid) (row : PartnerRow) : Bool :=
  row.bureauId = bureauId && row.id = partnerId

def isMaterialOf (bureauId partnerId : Uuid) (row : MaterialRow) : Bool :=
  row.bureauId = bureauId && row.partnerId = partnerId

def isMaterial (bureauId partnerId materialId : Uuid) (row : MaterialRow) : Bool :=
  isMaterialOf bureauId partnerId row && row.id = materialId

def hasDigest (bureauId partnerId : Uuid) (sha256 : Text) (row : MaterialRow) : Bool :=
  isMaterialOf bureauId partnerId row && row.sha256 = sha256

def isJobOf (bureauId partnerId : Uuid) (row : JobRow) : Bool :=
  row.bureauId = bureauId && row.partnerId = partnerId

def hasKey (bureauId : Uuid) (key : Text) (row : JobRow) : Bool :=
  row.bureauId = bureauId && row.idempotencyKey = key

def isExtractionOf (bureauId partnerId materialId : Uuid) (key : Text) (row : JobRow) : Bool :=
  isJobOf bureauId partnerId row && row.materialId = materialId && row.idempotencyKey = key

/-- A running job of the bureau whose lease is over. -/
def isExpired (bureauId : Uuid) (now : Timestamp) (row : JobRow) : Bool :=
  row.bureauId = bureauId && row.status = .running &&
    row.leaseExpiresAt.any fun expires ↦ expires < now

/-! ## New row versions -/

def newMaterialRow (bureauId : Uuid) (new : NewMaterial) (id : Uuid) (now : Timestamp) :
    MaterialRow where
  id := id
  bureauId := bureauId
  partnerId := new.partnerId
  filename := new.filename
  mediaType := new.mediaType
  sizeBytes := new.sizeBytes
  sha256 := new.sha256
  storageKey := new.storageKey
  status := .queued
  pageCount := none
  error := none
  createdAt := now
  updatedAt := now

def newJobRow (bureauId partnerId materialId : Uuid) (kind : JobKind) (key : Text) (id : Uuid)
    (now : Timestamp) : JobRow where
  id := id
  bureauId := bureauId
  partnerId := partnerId
  materialId := materialId
  kind := kind
  status := .queued
  stage := none
  attempts := 0
  maxAttempts := 5
  idempotencyKey := key
  runAfter := now
  leaseOwner := none
  leaseExpiresAt := none
  error := none
  createdAt := now
  updatedAt := now

def requeued (now : Timestamp) (row : MaterialRow) : MaterialRow :=
  { row with status := .queued, error := none, updatedAt := now }

def requeuedJob (now : Timestamp) (row : JobRow) : JobRow :=
  { row with
    status := .queued
    stage := none
    error := none
    runAfter := now
    leaseOwner := none
    leaseExpiresAt := none
    maxAttempts := max row.maxAttempts (row.attempts + 1)
    updatedAt := now }

def reclaimed (now : Timestamp) (row : JobRow) : JobRow :=
  let exhausted := row.maxAttempts ≤ row.attempts
  { row with
    status := if exhausted then .failed else .queued
    error := if exhausted then some "attempt limit reached after an interrupted run".toList
      else row.error
    leaseOwner := none
    leaseExpiresAt := none
    runAfter := now
    updatedAt := now }

def changed (change : MaterialChange) (now : Timestamp) (row : MaterialRow) : MaterialRow :=
  { row with
    status := change.status
    pageCount := change.pageCount
    error := change.error
    updatedAt := now }

def changedJob (change : JobChange) (now : Timestamp) (row : JobRow) : JobRow :=
  { row with
    status := change.status
    stage := change.stage
    attempts := change.attempts
    leaseOwner := change.leaseOwner
    leaseExpiresAt := change.leaseExpiresAt
    error := change.error
    updatedAt := now }

/-! ## Execution -/

/-- Update the rows of a list that a condition picks, if their new versions pass
the checks. -/
def updateRows {Row : Type} (write : Row → Option Row → Write) (check : Row → Bool)
    (rows : List Row) (p : Row → Bool) (f : Row → Row) :
    Except DbError (List Row × List Write) :=
  let old := rows.filter p
  if old.all fun row ↦ check (f row) then
    .ok (old.map f, old.map fun row ↦ write (f row) (some row))
  else .error .checkViolation

def updateMaterials (db : Db) (p : MaterialRow → Bool) (f : MaterialRow → MaterialRow) :
    Except DbError (List MaterialRow × List Write) :=
  updateRows Write.material MaterialRow.check db.materials p f

def updateJobs (db : Db) (p : JobRow → Bool) (f : JobRow → JobRow) :
    Except DbError (List JobRow × List Write) :=
  updateRows Write.job JobRow.check db.jobs p f

/-- The largest value of an `integer` column. -/
def maxInteger : ℕ := 2147483647

/-- Run a statement on the rows its transaction sees.  `id` is the identifier
the server generates, `now` the time the transaction began. -/
def exec (id : Uuid) (now : Timestamp) (db : Db) :
    (s : Sql) → Except DbError (s.Answer × List Write)
  | partnersList bureauId =>
      .ok (newestFirst PartnerRow.createdAt PartnerRow.id
        (db.partners.filter fun row ↦ row.bureauId = bureauId), [])
  | partnersInsert bureauId name note =>
      let row : PartnerRow := ⟨id, bureauId, name, note, now, now⟩
      if row.check = false then .error .checkViolation
      else if db.partners.any fun other ↦ other.id = id then
        .error (.uniqueViolation "partners_pkey")
      else if bureauId ∉ db.bureaus then .error .foreignKeyViolation
      else .ok (row, [.partner row none])
  | partnersGet bureauId partnerId =>
      .ok (db.partners.find? (isPartner bureauId partnerId), [])
  | partnersUpdate bureauId partnerId name setNote note =>
      (updateRows Write.partner PartnerRow.check db.partners (isPartner bureauId partnerId)
        fun row ↦
          { row with
            name := name.getD row.name
            note := if setNote then note else row.note
            updatedAt := now }).map fun r ↦ (r.1.head?, r.2)
  | partnersExists bureauId partnerId =>
      .ok (db.partners.any (isPartner bureauId partnerId), [])
  | materialsList bureauId partnerId =>
      .ok (newestFirst MaterialRow.createdAt MaterialRow.id
        (db.materials.filter (isMaterialOf bureauId partnerId)), [])
  | materialsByDigest bureauId partnerId sha256 =>
      .ok (db.materials.find? (hasDigest bureauId partnerId sha256), [])
  | materialsGet bureauId partnerId materialId =>
      .ok (db.materials.find? (isMaterial bureauId partnerId materialId), [])
  | materialsInsert bureauId new =>
      let row := newMaterialRow bureauId new id now
      if row.check = false then .error .checkViolation
      else if db.materials.any fun other ↦
          other.partnerId = row.partnerId && other.sha256 = row.sha256 then .ok (none, [])
      else if db.materials.any fun other ↦ other.id = id then
        .error (.uniqueViolation "materials_pkey")
      else if (db.partners.any (isPartner bureauId row.partnerId)) = false then
        .error .foreignKeyViolation
      else .ok (some row, [.material row none])
  | materialsRequeue bureauId partnerId materialId =>
      (updateMaterials db (isMaterial bureauId partnerId materialId) (requeued now)).map
        fun r ↦ (r.1.head?, r.2)
  | jobsList bureauId partnerId =>
      .ok (newestFirst JobRow.createdAt JobRow.id
        (db.jobs.filter (isJobOf bureauId partnerId)), [])
  | jobsInsert bureauId partnerId materialId kind key =>
      let row := newJobRow bureauId partnerId materialId kind key id now
      if row.check = false then .error .checkViolation
      else if db.jobs.any (hasKey bureauId key) then .ok (none, [])
      else if db.jobs.any fun other ↦ other.id = id then .error (.uniqueViolation "jobs_pkey")
      else if (db.materials.any (isMaterial bureauId partnerId materialId)) = false then
        .error .foreignKeyViolation
      else .ok (some row, [.job row none])
  | jobsByKey bureauId key => .ok (db.jobs.find? (hasKey bureauId key), [])
  | jobsRequeue bureauId partnerId materialId key =>
      let p := isExtractionOf bureauId partnerId materialId key
      if db.jobs.any fun row ↦ p row && maxInteger < row.attempts + 1 then
        .error (.database "22003" none)
      else (updateJobs db p (requeuedJob now)).map fun r ↦ (r.1.head?, r.2)
  | jobsReclaim bureauId =>
      (updateJobs db (isExpired bureauId now) (reclaimed now)).map
        fun r ↦ (r.1.length, r.2)
  | workerMaterial bureauId materialId change =>
      (updateMaterials db (fun row ↦ row.bureauId = bureauId && row.id = materialId)
        (changed change now)).map fun r ↦ (r.1.length, r.2)
  | workerJob bureauId jobId change =>
      (updateJobs db (fun row ↦ row.bureauId = bureauId && row.id = jobId)
        (changedJob change now)).map fun r ↦ (r.1.length, r.2)

/-- The statement waits until the transaction that wrote this version ends. -/
def waitsFor (id : Uuid) (now : Timestamp) (db : Db) : Sql → Write → Bool
  | partnersInsert _ _ _, .partner row _ => row.id = id
  | partnersUpdate bureauId partnerId _ _ _, .partner row _ =>
      db.partners.any fun old ↦ isPartner bureauId partnerId old && old.id = row.id
  | materialsInsert _ new, .material row _ =>
      row.id = id || (row.partnerId = new.partnerId && row.sha256 = new.sha256)
  | materialsRequeue bureauId partnerId materialId, .material row _ =>
      db.materials.any fun old ↦ isMaterial bureauId partnerId materialId old && old.id = row.id
  | workerMaterial bureauId materialId _, .material row _ =>
      db.materials.any fun old ↦
        old.bureauId = bureauId && old.id = materialId && old.id = row.id
  | jobsInsert bureauId _ _ _ key, .job row _ => row.id = id || hasKey bureauId key row
  | jobsRequeue bureauId partnerId materialId key, .job row _ =>
      db.jobs.any fun old ↦
        isExtractionOf bureauId partnerId materialId key old && old.id = row.id
  | jobsReclaim bureauId, .job row _ =>
      db.jobs.any fun old ↦ isExpired bureauId now old && old.id = row.id
  | workerJob bureauId jobId _, .job row _ =>
      db.jobs.any fun old ↦ old.bureauId = bureauId && old.id = jobId && old.id = row.id
  | _, _ => false

end Sql

end Otdel
