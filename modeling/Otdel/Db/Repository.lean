import Otdel.Server.Op

/-!
# The repositories

Every function runs inside a transaction of one bureau and names that bureau in
its statements.
-/

namespace Otdel

open Program

structure ScopedTx where
  bureauId : Uuid
  deriving DecidableEq

namespace ScopedTx

def begin (bureauId : Uuid) : TryProg DbError ScopedTx := do
  let _ ← attempt (await (.begin bureauId))
  return ⟨bureauId⟩

def commit (_ : ScopedTx) : TryProg DbError Unit := attempt (await .commit)

def rollback (_ : ScopedTx) : Prog Unit := await .rollback

end ScopedTx

def runStatement (s : Sql) : TryProg DbError s.Answer := attempt (await (.sql s))

/-! ## Partners -/

def partnerFromRow (row : PartnerRow) : Partner where
  id := row.id
  name := row.name
  note := row.note
  createdAt := row.createdAt
  updatedAt := row.updatedAt

/-- Fields the caller actually sent; `some none` clears the note. -/
structure PartnerPatch where
  name : Option Text
  note : Option (Option Text)
  deriving DecidableEq

def PartnerPatch.isEmpty (patch : PartnerPatch) : Bool := patch.name.isNone && patch.note.isNone

namespace Partners

def list (tx : ScopedTx) : TryProg DbError (List Partner) := do
  let rows ← runStatement (.partnersList tx.bureauId)
  return rows.map partnerFromRow

def create (tx : ScopedTx) (name : Text) (note : Option Text) : TryProg DbError Partner := do
  let row ← runStatement (.partnersInsert tx.bureauId name note)
  return partnerFromRow row

def get (tx : ScopedTx) (partnerId : Uuid) : TryProg DbError (Option Partner) := do
  let row ← runStatement (.partnersGet tx.bureauId partnerId)
  return row.map partnerFromRow

def update (tx : ScopedTx) (partnerId : Uuid) (patch : PartnerPatch) :
    TryProg DbError (Option Partner) := do
  let row ← runStatement (.partnersUpdate tx.bureauId partnerId patch.name patch.note.isSome
    (patch.note.getD none))
  return row.map partnerFromRow

def exists? (tx : ScopedTx) (partnerId : Uuid) : TryProg DbError Bool :=
  runStatement (.partnersExists tx.bureauId partnerId)

end Partners

/-! ## Materials -/

def materialFromRow (row : MaterialRow) : Material where
  id := row.id
  partnerId := row.partnerId
  filename := row.filename
  mediaType := row.mediaType
  sizeBytes := row.sizeBytes
  sha256 := row.sha256
  status := row.status
  pageCount := row.pageCount
  createdAt := row.createdAt
  error := row.error

/-- A material with its storage key, which is never serialised. -/
structure StoredMaterial where
  material : Material
  storageKey : Text
  deriving DecidableEq

/-- The upload may have raced with an identical one. -/
inductive InsertOutcome where
  | created (material : Material)
  | duplicate (material : Material)
  deriving DecidableEq

def InsertOutcome.material : InsertOutcome → Material
  | created material => material
  | duplicate material => material

namespace Materials

def listForPartner (tx : ScopedTx) (partnerId : Uuid) : TryProg DbError (List Material) := do
  let rows ← runStatement (.materialsList tx.bureauId partnerId)
  return rows.map materialFromRow

def findByDigest (tx : ScopedTx) (partnerId : Uuid) (sha256 : Text) :
    TryProg DbError (Option Material) := do
  let row ← runStatement (.materialsByDigest tx.bureauId partnerId sha256)
  return row.map materialFromRow

def getInPartner (tx : ScopedTx) (partnerId materialId : Uuid) :
    TryProg DbError (Option StoredMaterial) := do
  let row ← runStatement (.materialsGet tx.bureauId partnerId materialId)
  return row.map fun row ↦ ⟨materialFromRow row, row.storageKey⟩

/-- Insert the metadata of an already written object, or find the row that an
identical upload has written first. -/
def insert (tx : ScopedTx) (new : NewMaterial) : TryProg DbError InsertOutcome := do
  match ← runStatement (.materialsInsert tx.bureauId new) with
  | some row => return .created (materialFromRow row)
  | none =>
      let found ← findByDigest tx new.partnerId new.sha256
      let existing ← ofExcept (okOr (.decode
        "insert reported a duplicate but the existing material is not visible") found)
      return .duplicate existing

def requeue (tx : ScopedTx) (partnerId materialId : Uuid) :
    TryProg DbError (Option Material) := do
  let row ← runStatement (.materialsRequeue tx.bureauId partnerId materialId)
  return row.map materialFromRow

end Materials

/-! ## Jobs -/

def jobFromRow (row : JobRow) : Job where
  id := row.id
  partnerId := row.partnerId
  materialId := row.materialId
  kind := row.kind
  status := row.status
  stage := row.stage
  attempts := row.attempts
  createdAt := row.createdAt
  updatedAt := row.updatedAt
  error := row.error

namespace Jobs

variable (uuid : UuidCrate)

def listForPartner (tx : ScopedTx) (partnerId : Uuid) : TryProg DbError (List Job) := do
  let rows ← runStatement (.jobsList tx.bureauId partnerId)
  return rows.map jobFromRow

/-- Enqueue extraction, or return the job that already exists. -/
def enqueueExtraction (tx : ScopedTx) (partnerId materialId : Uuid) : TryProg DbError Job := do
  let kind := JobKind.extractDocument
  let key := extractionIdempotencyKey uuid materialId kind
  match ← runStatement (.jobsInsert tx.bureauId partnerId materialId kind key) with
  | some row => return jobFromRow row
  | none =>
      let found ← runStatement (.jobsByKey tx.bureauId key)
      let row ← ofExcept (okOr (.decode
        "job insert conflicted but the existing job is not visible") found)
      return jobFromRow row

/-- Put the extraction job of a material back into `queued`. -/
def requeueExtraction (tx : ScopedTx) (partnerId materialId : Uuid) : TryProg DbError Job := do
  let key := extractionIdempotencyKey uuid materialId .extractDocument
  match ← runStatement (.jobsRequeue tx.bureauId partnerId materialId key) with
  | some row => return jobFromRow row
  | none => enqueueExtraction uuid tx partnerId materialId

/-- Jobs whose lease expired become runnable again, or fail. -/
def reclaimExpiredLeases (tx : ScopedTx) : TryProg DbError ℕ :=
  runStatement (.jobsReclaim tx.bureauId)

end Jobs

/-! ## The statements that queue -/

namespace Jobs

/-- The statements that queue an extraction, or find that it is queued. -/
inductive Enqueues (uuid : UuidCrate) (bureauId partnerId materialId : Uuid) : Sql → Prop
  | insert : Enqueues uuid bureauId partnerId materialId (.jobsInsert bureauId partnerId materialId
      .extractDocument (extractionIdempotencyKey uuid materialId .extractDocument))
  | find : Enqueues uuid bureauId partnerId materialId (.jobsByKey bureauId
      (extractionIdempotencyKey uuid materialId .extractDocument))

/-- The statements that queue it again. -/
inductive Requeues (uuid : UuidCrate) (bureauId partnerId materialId : Uuid) : Sql → Prop
  | again : Requeues uuid bureauId partnerId materialId (.jobsRequeue bureauId partnerId materialId
      (extractionIdempotencyKey uuid materialId .extractDocument))
  | enqueue {s : Sql} (h : Enqueues uuid bureauId partnerId materialId s) :
      Requeues uuid bureauId partnerId materialId s

variable {P : Op → Prop} {uuid : UuidCrate} {tx : ScopedTx} {partnerId materialId : Uuid}

theorem calls_enqueueExtraction
    (h : ∀ s, Enqueues uuid tx.bureauId partnerId materialId s → P (.sql s)) :
    Calls P (enqueueExtraction uuid tx partnerId materialId) := by
  apply Calls.andThen (calls_perform (h _ .insert))
  rintro (_ | row)
  · apply Calls.andThen (calls_perform (h _ .find))
    exact fun _ ↦ Calls.andThen (by trivial) fun _ ↦ by trivial
  · trivial

theorem calls_requeueExtraction
    (h : ∀ s, Requeues uuid tx.bureauId partnerId materialId s → P (.sql s)) :
    Calls P (requeueExtraction uuid tx partnerId materialId) := by
  apply Calls.andThen (calls_perform (h _ .again))
  rintro (_ | row)
  · exact calls_enqueueExtraction fun s hs ↦ h s (.enqueue hs)
  · trivial

end Jobs

end Otdel
