import Otdel.Api.Upload
import Otdel.Db.Repository

/-!
# The endpoints

Partners, materials and jobs, for a request that carries a session of a bureau.
-/

namespace Otdel

open Program

/-- The bureau comes from the session record. -/
structure Session where
  bureauId : Uuid
  deriving DecidableEq

structure CreatePartnerRequest where
  name : Text
  note : Option Text
  deriving DecidableEq

/-- `note` is absent, `null` or a string. -/
structure PatchPartnerRequest where
  name : Option Text
  note : Option (Option Text)
  deriving DecidableEq

/-- The headers and the body of a download. -/
structure OriginalResponse where
  contentType : Text
  contentLength : ℕ
  contentDisposition : Option Text
  body : Bytes
  deriving DecidableEq

/-- Successful answers, with their status where an endpoint has two. -/
inductive Response where
  | partners (items : List Partner)
  | partner (status : ℕ) (partner : Partner)
  | materials (items : List Material)
  | material (status : ℕ) (material : Material)
  | original (response : OriginalResponse)
  | jobs (items : List Job)
  deriving DecidableEq

namespace Routes

/-- A database call of a handler. -/
def db {α : Type} (p : TryProg DbError α) : TryProg ApiError α := mapError ApiError.ofDbError p

/-- Leave a handler with an open transaction. -/
def leave {α : Type} (tx : ScopedTx) (error : ApiError) : TryProg ApiError α := do
  lift tx.rollback
  fail error

def partnerNotFound : ApiError := .notFound "partner not found"

def materialNotFound : ApiError := .notFound "material not found for this partner"

/-! ## Partners -/

def listPartners (session : Session) : TryProg ApiError Response := do
  let tx ← db (ScopedTx.begin session.bureauId)
  let items ← db (Partners.list tx)
  db tx.commit
  return .partners items

def createPartner (session : Session) (payload : CreatePartnerRequest) :
    TryProg ApiError Response := do
  let name ← mapError ApiError.new (ofExcept (Validate.partnerName payload.name))
  let note ← mapError ApiError.new (ofExcept (Validate.partnerNote payload.note))
  let tx ← db (ScopedTx.begin session.bureauId)
  let partner ← db (Partners.create tx name note)
  db tx.commit
  return .partner 201 partner

def showPartner (session : Session) (partnerId : Uuid) : TryProg ApiError Response := do
  let tx ← db (ScopedTx.begin session.bureauId)
  let partner ← db (Partners.get tx partnerId)
  db tx.commit
  let partner ← ofExcept (okOr partnerNotFound partner)
  return .partner 200 partner

/-- The fields that the body names, validated. -/
def patchOf (payload : PatchPartnerRequest) : Except AppError PartnerPatch := do
  let name ← match payload.name with
    | some name => (Validate.partnerName name).map some
    | none => .ok none
  let note ← match payload.note with
    | some note => (Validate.partnerNote note).map some
    | none => .ok none
  let patch : PartnerPatch := ⟨name, note⟩
  if patch.isEmpty then
    .error (.validation "patch must contain at least one of `name` or `note`")
  else .ok patch

def updatePartner (session : Session) (partnerId : Uuid) (payload : PatchPartnerRequest) :
    TryProg ApiError Response := do
  let patch ← mapError ApiError.new (ofExcept (patchOf payload))
  let tx ← db (ScopedTx.begin session.bureauId)
  let partner ← db (Partners.update tx partnerId patch)
  db tx.commit
  let partner ← ofExcept (okOr partnerNotFound partner)
  return .partner 200 partner

/-! ## Materials -/

def listMaterials (session : Session) (partnerId : Uuid) : TryProg ApiError Response := do
  let tx ← db (ScopedTx.begin session.bureauId)
  let present ← db (Partners.exists? tx partnerId)
  if present = false then leave tx partnerNotFound
  else do
    let items ← db (Materials.listForPartner tx partnerId)
    db tx.commit
    return .materials items

section Upload

variable (state : AppState)

/-- The row and its queue entry are published together. -/
def publish (session : Session) (partnerId : Uuid) (new : NewMaterial) :
    TryProg DbError InsertOutcome := do
  let tx ← ScopedTx.begin session.bureauId
  let outcome ← Materials.insert tx new
  let _ ← Jobs.enqueueExtraction state.store.uuid tx partnerId outcome.material.id
  tx.commit
  return outcome

/-- The largest value of a `bigint` column. -/
def maxBigint : ℕ := 9223372036854775807

def newMaterial (partnerId : Uuid) (received : ReceivedFile state.store.uuid) :
    Except ApiError NewMaterial :=
  if maxBigint < received.stored.sizeBytes then
    .error (.new (.new .payloadTooLarge "file is too large to record"))
  else .ok
    { partnerId := partnerId
      filename := received.filename
      mediaType := received.mediaType.asStr.toList
      sizeBytes := received.stored.sizeBytes
      sha256 := received.stored.sha256
      storageKey := received.stored.key.raw }

def created : InsertOutcome → Response
  | .created material => .material 201 material
  | .duplicate material => .material 200 material

/-- Is the partner one of the session's bureau? -/
def partnerExists (session : Session) (partnerId : Uuid) : TryProg ApiError Bool := do
  let tx ← db (ScopedTx.begin session.bureauId)
  let present ← db (Partners.exists? tx partnerId)
  db tx.commit
  return present

/-- Record a received file. -/
def record (session : Session) (partnerId : Uuid) (received : ReceivedFile state.store.uuid) :
    TryProg ApiError Response := do
  let new ← ofExcept (newMaterial state partnerId received)
  match ← lift (publish state session partnerId new) with
  | .ok outcome => return created outcome
  | .error error => do
      lift (await (.report (.publishFailed error)))
      lift (Upload.reportOrphanedObject received.stored)
      fail (.ofDbError error)

/-- `POST /api/partners/{id}/materials`. -/
def upload (session : Session) (partnerId : Uuid) (multipart : Multipart) :
    TryProg ApiError Response := do
  let present ← partnerExists session partnerId
  if present = false then fail partnerNotFound
  else do
    let received ← Upload.receiveFile state ⟨session.bureauId, partnerId⟩ multipart
    record state session partnerId received

/-! ## Originals -/

def contentDisposition (http : HttpCrate) (material : Material) : Option Text :=
  (MediaType.parse material.mediaType).bind fun mediaType ↦
    let ascii := Validate.contentDispositionAsciiFallback material.filename mediaType
    let utf8 := Validate.contentDispositionUtf8 material.filename
    http.fromStr ("attachment; filename=\"".toList ++ ascii ++ "\"; filename*=".toList ++ utf8)

def originalResponse (http : HttpCrate) (material : Material) (body : ObjectBody) :
    OriginalResponse where
  contentType := (http.fromStr material.mediaType).getD "application/octet-stream".toList
  contentLength := body.sizeBytes
  contentDisposition := contentDisposition http material
  body := body.stream

/-- The material and its key, in a transaction of its own. -/
def findStored (session : Session) (partnerId materialId : Uuid) :
    TryProg ApiError (Option StoredMaterial) := do
  let tx ← db (ScopedTx.begin session.bureauId)
  let stored ← db (Materials.getInPartner tx partnerId materialId)
  db tx.commit
  return stored

/-- `GET /api/partners/{id}/materials/{material_id}/original`. -/
def download (session : Session) (partnerId materialId : Uuid) : TryProg ApiError Response := do
  let stored ← findStored session partnerId materialId
  let stored ← ofExcept (okOr materialNotFound stored)
  let key ← mapError (fun _ ↦ ApiError.new (.internal "internal server error"))
    (ofExcept (ObjectKey.parse state.store.uuid stored.storageKey))
  let body ← mapError ApiError.ofStorageError (state.store.openObject key)
  return .original (originalResponse state.http stored.material body)

/-- `POST /api/partners/{id}/materials/{material_id}/retry`. -/
def retry (session : Session) (partnerId materialId : Uuid) : TryProg ApiError Response := do
  let tx ← db (ScopedTx.begin session.bureauId)
  match ← db (Materials.getInPartner tx partnerId materialId) with
  | none => leave tx materialNotFound
  | some stored =>
      if stored.material.status.canRetry = false then
        leave tx (.new stored.material.status.retryRefusal)
      else do
        match ← db (Materials.requeue tx partnerId materialId) with
        | none => leave tx materialNotFound
        | some material =>
            let _ ← db (Jobs.requeueExtraction state.store.uuid tx partnerId materialId)
            db tx.commit
            return .material 200 material

end Upload

/-! ## Jobs -/

def listJobs (session : Session) (partnerId : Uuid) : TryProg ApiError Response := do
  let tx ← db (ScopedTx.begin session.bureauId)
  let present ← db (Partners.exists? tx partnerId)
  if present = false then leave tx partnerNotFound
  else do
    let items ← db (Jobs.listForPartner tx partnerId)
    db tx.commit
    return .jobs items

end Routes

end Otdel
