import Otdel.Server.Intake

/-!
# The operations of the handlers

Each handler is walked through once, for any property of its operations: it holds
of all that the handler calls if it holds of the statements and file operations
that are named.  Put together, they say what a request may do at all.
-/

namespace Otdel

open Program

variable {P : Op → Prop} {α β ε : Type} {state : AppState}

/-! ## Transactions -/

/-- A property of the operations that begin and end the transactions of a bureau. -/
structure Op.Brackets (P : Op → Prop) (bureauId : Uuid) : Prop where
  begin : P (.begin bureauId)
  commit : P .commit
  rollback : P .rollback

section Transactions

variable {bureauId : Uuid}

theorem calls_begin {f : ScopedTx → TryProg DbError α} (hbegin : P (.begin bureauId))
    (hf : Calls P (f ⟨bureauId⟩)) : Calls P (ScopedTx.begin bureauId >>= f : TryProg DbError α) := by
  refine ⟨hbegin, ?_⟩
  rintro (e | _)
  · trivial
  · exact hf

theorem calls_inTx {g : DbError → ε} {f : ScopedTx → TryProg ε α} (hbegin : P (.begin bureauId))
    (hf : Calls P (f ⟨bureauId⟩)) :
    Calls P (mapError g (ScopedTx.begin bureauId) >>= f : TryProg ε α) := by
  refine ⟨hbegin, ?_⟩
  rintro (e | _)
  · trivial
  · exact hf

theorem calls_commit {g : DbError → ε} (hcommit : P .commit) (tx : ScopedTx) :
    Calls P (mapError g tx.commit : TryProg ε Unit) :=
  Calls.mapError _ (calls_perform hcommit)

theorem calls_leave (hrollback : P .rollback) (tx : ScopedTx) (error : ApiError) :
    Calls P (Routes.leave tx error : TryProg ApiError α) :=
  Calls.andThen (Calls.lift (calls_perform hrollback)) fun _ ↦ by trivial

/-- Run a statement and convert its answer. -/
theorem calls_read {s : Sql} {g : s.Answer → α} (h : P (.sql s)) :
    Calls P (do
      let answer ← runStatement s
      return g answer : TryProg DbError α) :=
  Calls.andThen (calls_perform h) fun _ ↦ by trivial

/-- Read or write rows, commit, and answer. -/
theorem calls_query {s : Sql} {g : s.Answer → α} {f : α → TryProg ApiError β}
    (h : P (.sql s)) (hcommit : P .commit) (hf : ∀ a, Calls P (f a)) :
    Calls P (do
      let a ← Routes.db (do
        let answer ← runStatement s
        return g answer)
      Routes.db (ScopedTx.commit ⟨bureauId⟩)
      f a : TryProg ApiError β) := by
  apply Calls.andThen (Calls.mapError _ (calls_read h))
  exact fun a ↦ Calls.andThen (calls_commit hcommit _) fun _ ↦ hf a

end Transactions

/-! ## Endpoints -/

namespace Routes

variable {session : Session} {partnerId materialId : Uuid}

theorem calls_listPartners (htx : Op.Brackets P session.bureauId)
    (hlist : P (.sql (.partnersList session.bureauId))) : Calls P (listPartners session) :=
  calls_inTx htx.begin (calls_query hlist htx.commit fun _ ↦ by trivial)

theorem calls_createPartner (htx : Op.Brackets P session.bureauId) {payload : CreatePartnerRequest}
    (hinsert : ∀ name note, Validate.partnerName payload.name = .ok name →
      Validate.partnerNote payload.note = .ok note →
        P (.sql (.partnersInsert session.bureauId name note))) :
    Calls P (createPartner session payload) := by
  apply Calls.andThen_performs (Calls.mapError _ (by trivial))
  intro _ name hname
  apply Calls.andThen_performs (Calls.mapError _ (by trivial))
  intro _ note hnote
  have hname := (performs_ofExcept.mp (performs_mapError.mp hname)).2
  have hnote := (performs_ofExcept.mp (performs_mapError.mp hnote)).2
  exact calls_inTx htx.begin
    (calls_query (hinsert name note hname hnote) htx.commit fun _ ↦ by trivial)

theorem calls_showPartner (htx : Op.Brackets P session.bureauId)
    (hget : P (.sql (.partnersGet session.bureauId partnerId))) :
    Calls P (showPartner session partnerId) :=
  calls_inTx htx.begin
    (calls_query hget htx.commit fun _ ↦ Calls.andThen (by trivial) fun _ ↦ by trivial)

theorem calls_updatePartner (htx : Op.Brackets P session.bureauId) {payload : PatchPartnerRequest}
    (hupdate : ∀ patch, patchOf payload = .ok patch → P (.sql (.partnersUpdate session.bureauId
      partnerId patch.name patch.note.isSome (patch.note.getD none)))) :
    Calls P (updatePartner session partnerId payload) := by
  apply Calls.andThen_performs (Calls.mapError _ (by trivial))
  intro _ patch hpatch
  have hpatch := (performs_ofExcept.mp (performs_mapError.mp hpatch)).2
  exact calls_inTx htx.begin (calls_query (hupdate patch hpatch) htx.commit fun _ ↦
    Calls.andThen (by trivial) fun _ ↦ by trivial)

/-- Only a partner of the bureau has listings. -/
theorem calls_present {f : TryProg ApiError Response} (hrollback : P .rollback)
    (hexists : P (.sql (.partnersExists session.bureauId partnerId))) (hf : Calls P f) :
    Calls P (do
      let present ← db (Partners.exists? ⟨session.bureauId⟩ partnerId)
      if present = false then leave ⟨session.bureauId⟩ partnerNotFound else f :
      TryProg ApiError Response) := by
  apply Calls.andThen (Calls.mapError _ (calls_perform hexists))
  exact fun present ↦ Calls.ite (calls_leave hrollback _ _) hf

section Listings

variable (htx : Op.Brackets P session.bureauId)
  (hexists : P (.sql (.partnersExists session.bureauId partnerId)))
include htx hexists

theorem calls_listMaterials (hlist : P (.sql (.materialsList session.bureauId partnerId))) :
    Calls P (listMaterials session partnerId) := by
  apply calls_inTx htx.begin
  exact calls_present htx.rollback hexists (calls_query hlist htx.commit fun _ ↦ by trivial)

theorem calls_listJobs (hlist : P (.sql (.jobsList session.bureauId partnerId))) :
    Calls P (listJobs session partnerId) := by
  apply calls_inTx htx.begin
  exact calls_present htx.rollback hexists (calls_query hlist htx.commit fun _ ↦ by trivial)

theorem calls_partnerExists : Calls P (partnerExists session partnerId) := by
  apply calls_inTx htx.begin
  apply Calls.andThen (Calls.mapError _ (calls_perform hexists))
  exact fun _ ↦ Calls.andThen (calls_commit htx.commit _) fun _ ↦ by trivial

end Listings

/-! ## Uploads -/

/-- The statements that record a material, or find that it is recorded. -/
inductive Inserts (bureauId : Uuid) (new : NewMaterial) : Sql → Prop
  | insert : Inserts bureauId new (.materialsInsert bureauId new)
  | find : Inserts bureauId new (.materialsByDigest bureauId new.partnerId new.sha256)

theorem calls_publish (htx : Op.Brackets P session.bureauId) {new : NewMaterial}
    (hinsert : ∀ s, Inserts session.bureauId new s → P (.sql s))
    (hqueue : ∀ materialId s,
      Jobs.Enqueues state.store.uuid session.bureauId partnerId materialId s → P (.sql s)) :
    Calls P (publish state session partnerId new) := by
  apply calls_begin htx.begin
  apply Calls.andThen
  · apply Calls.andThen (calls_perform (hinsert _ .insert))
    rintro (_ | row)
    · apply Calls.andThen (calls_read (hinsert _ .find))
      exact fun _ ↦ Calls.andThen (by trivial) fun _ ↦ by trivial
    · trivial
  · intro outcome
    apply Calls.andThen (Jobs.calls_enqueueExtraction (hqueue outcome.material.id))
    exact fun _ ↦ Calls.andThen (calls_perform htx.commit) fun _ ↦ by trivial

/-- The row of the file part of an upload. -/
def Records (state : AppState) (session : Session) (partnerId : Uuid) (multipart : Multipart)
    (new : NewMaterial) : Prop :=
  ∃ field, ∃ received : ReceivedFile state.store.uuid,
    Upload.filePart? multipart.fields = some field ∧
      received.IsOf ⟨session.bureauId, partnerId⟩ field ∧
        newMaterial state partnerId received = .ok new

/-- Where the file part is stored. -/
def places (state : AppState) (session : Session) (partnerId : Uuid) (multipart : Multipart) :
    Set Path :=
  {path | ∃ field, Upload.filePart? multipart.fields = some field ∧
    path = state.store.place ⟨session.bureauId, partnerId⟩
      (state.store.sha256.hex field.chunks.flatten)}

theorem calls_upload (htx : Op.Brackets P session.bureauId) {multipart : Multipart}
    (hexists : P (.sql (.partnersExists session.bureauId partnerId)))
    (hintake : ∀ op : Op,
      op.OfIntake state.store (places state session partnerId multipart) → P op)
    (hinsert : ∀ new, Records state session partnerId multipart new →
      ∀ s, Inserts session.bureauId new s → P (.sql s))
    (hqueue : ∀ materialId s,
      Jobs.Enqueues state.store.uuid session.bureauId partnerId materialId s → P (.sql s)) :
    Calls P (upload state session partnerId multipart) := by
  apply Calls.andThen (calls_partnerExists htx hexists)
  intro present
  apply Calls.ite (by trivial)
  apply Calls.andThen_performs
    (Upload.calls_receiveFile hintake multipart fun field hfield ↦ ⟨field, hfield, rfl⟩)
  intro _ received hreceived
  obtain ⟨field, hfield, hof⟩ := Upload.performs_receiveFile hreceived
  apply Calls.ofExcept_andThen
  intro new hnew
  apply Calls.andThen
    (Calls.lift (calls_publish htx (hinsert new ⟨field, received, hfield, hof, hnew⟩) hqueue))
  have hreport : ∀ line, P (.report line) := fun line ↦ hintake _ (by trivial)
  rintro (error | outcome)
  · apply Calls.andThen (Calls.lift (calls_perform (hreport _)))
    intro _
    apply Calls.andThen (Calls.lift (Upload.calls_reportOrphanedObject hreport _))
    exact fun _ ↦ by trivial
  · trivial

/-! ## Downloads and retries -/

theorem calls_download (htx : Op.Brackets P session.bureauId)
    (hget : P (.sql (.materialsGet session.bureauId partnerId materialId)))
    (hstat : ∀ path, P (.stat path)) (hopen : ∀ path, P (.openFile path)) :
    Calls P (download state session partnerId materialId) := by
  have hfind : Calls P (findStored session partnerId materialId) := by
    apply calls_inTx htx.begin
    apply Calls.andThen (Calls.mapError _ (calls_read hget))
    exact fun _ ↦ Calls.andThen (calls_commit htx.commit _) fun _ ↦ by trivial
  apply Calls.andThen hfind
  intro stored
  apply Calls.andThen (by cases stored <;> trivial)
  intro stored
  apply Calls.andThen (Calls.mapError _ (by trivial))
  intro key
  apply Calls.andThen (Calls.mapError _ ?_) fun _ ↦ by trivial
  apply Calls.andThen (by trivial)
  intro path
  apply Calls.andThen (Calls.lift (calls_perform (hstat path)))
  rintro (source | metadata)
  · cases source <;> trivial
  · apply Calls.ite (by trivial)
    apply Calls.andThen (Calls.mapError _ (calls_perform (hopen path)))
    exact fun _ ↦ by trivial

theorem calls_retry (htx : Op.Brackets P session.bureauId)
    (hget : P (.sql (.materialsGet session.bureauId partnerId materialId)))
    (hrequeue : P (.sql (.materialsRequeue session.bureauId partnerId materialId)))
    (hqueue : ∀ s, Jobs.Requeues state.store.uuid session.bureauId partnerId materialId s →
      P (.sql s)) :
    Calls P (retry state session partnerId materialId) := by
  apply calls_inTx htx.begin
  apply Calls.andThen (Calls.mapError _ (calls_read hget))
  rintro (_ | stored)
  · exact calls_leave htx.rollback _ _
  · apply Calls.ite (calls_leave htx.rollback _ _)
    apply Calls.andThen (Calls.mapError _ (calls_read hrequeue))
    rintro (_ | material)
    · exact calls_leave htx.rollback _ _
    · apply Calls.andThen (Calls.mapError _ (Jobs.calls_requeueExtraction hqueue))
      exact fun _ ↦ Calls.andThen (calls_commit htx.commit _) fun _ ↦ by trivial

end Routes

/-! ## The worker -/

namespace Maintenance

variable {store : Store} {bureauId : Uuid}

theorem calls_reclaimLeases (htx : Op.Brackets P bureauId)
    (hreclaim : P (.sql (.jobsReclaim bureauId))) : Calls P (reclaimLeases bureauId) := by
  apply calls_inTx htx.begin
  apply Calls.andThen (Calls.mapError _ (calls_perform hreclaim))
  exact fun _ ↦ Calls.andThen (calls_commit htx.commit _) fun _ ↦ by trivial

theorem calls_removeAll (hremove : ∀ name, P (.removeStaging name)) (names : List Uuid)
    (removed : ℕ) : Calls P (Store.removeAll names removed) := by
  induction names generalizing removed with
  | nil => trivial
  | cons name rest ih =>
      apply Calls.andThen (Calls.lift (calls_perform (hremove name)))
      rintro (source | _)
      · cases source with
        | notFound => exact ih removed
        | alreadyExists | other => trivial
      · exact ih (removed + 1)

theorem calls_countOrphans {tx : ScopedTx}
    (hfind : ∀ partnerId digest, P (.sql (.materialsByDigest tx.bureauId partnerId digest)))
    (hreport : ∀ key, P (.report (.missingRow key))) (keys : List (ObjectKey store.uuid))
    (orphans : ℕ) : Calls P (countOrphans store tx keys orphans) := by
  induction keys generalizing orphans with
  | nil => trivial
  | cons key rest ih =>
      apply Calls.andThen (Calls.mapError _ (by trivial))
      intro ns
      apply Calls.ite (ih orphans)
      apply Calls.andThen (Calls.mapError _ (calls_read (hfind _ _)))
      rintro (_ | material)
      · apply Calls.andThen (Calls.lift (calls_perform (hreport _)))
        exact fun _ ↦ ih (orphans + 1)
      · exact ih orphans

/-- What a pass does with files. -/
inductive Touches : Op → Prop
  | readStaging (olderThan : ℕ) : Touches (.readStaging olderThan)
  | removeStaging (name : Uuid) : Touches (.removeStaging name)
  | listObjects (limit : ℕ) : Touches (.listObjects limit)
  | report (key : Text) : Touches (.report (.missingRow key))

theorem calls_runOnce (htx : Op.Brackets P bureauId) (settings : MaintenanceSettings)
    (hreclaim : P (.sql (.jobsReclaim bureauId)))
    (hfind : ∀ partnerId digest, P (.sql (.materialsByDigest bureauId partnerId digest)))
    (hfiles : ∀ op, Touches op → P op) : Calls P (runOnce store settings bureauId) := by
  have hsweep : Calls P (storage (Store.sweepStaging settings.stagingMaxAge)) := by
    apply Calls.mapError
    apply Calls.andThen (Calls.mapError _ (calls_perform (hfiles _ (.readStaging _))))
    exact fun names ↦ calls_removeAll (fun name ↦ hfiles _ (.removeStaging name)) names 0
  have horphans : Calls P (reportOrphans store bureauId settings.orphanScanLimit) := by
    apply Calls.andThen (Calls.mapError _ (Calls.andThen
      (Calls.mapError _ (calls_perform (hfiles _ (.listObjects _)))) fun _ ↦ by trivial))
    rintro ⟨keys, truncated⟩
    apply calls_inTx htx.begin
    apply Calls.andThen
      (calls_countOrphans hfind (fun key ↦ hfiles _ (.report key)) keys 0)
    exact fun _ ↦ Calls.andThen (calls_commit htx.commit _) fun _ ↦ by trivial
  apply Calls.andThen (calls_reclaimLeases htx hreclaim)
  intro leases
  apply Calls.andThen hsweep
  intro removed
  exact Calls.andThen horphans fun _ ↦ by trivial

end Maintenance

namespace Worker

variable {bureauId : Uuid} {changes : List WorkerChange}

theorem calls_runChanges (hchange : ∀ change ∈ changes, P (.sql (statement bureauId change))) :
    Calls P (runChanges bureauId changes) := by
  induction changes with
  | nil => trivial
  | cons change rest ih =>
      apply Calls.andThen (calls_perform (hchange change List.mem_cons_self))
      exact fun _ ↦ ih fun later hlater ↦ hchange later (List.mem_cons_of_mem change hlater)

theorem calls_step (hbegin : P (.begin bureauId)) (hcommit : P .commit)
    (hchange : ∀ change ∈ changes, P (.sql (statement bureauId change))) :
    Calls P (step bureauId changes) :=
  calls_begin hbegin (Calls.andThen (calls_runChanges hchange) fun _ ↦ calls_perform hcommit)

end Worker

/-! ## Requests -/

namespace Request

/-- The bureau of the session, or the one a worker was started for. -/
def bureauId : Request → Uuid
  | listPartners session => session.bureauId
  | createPartner session _ => session.bureauId
  | showPartner session _ => session.bureauId
  | updatePartner session _ _ => session.bureauId
  | listMaterials session _ => session.bureauId
  | upload session _ _ => session.bureauId
  | download session _ _ => session.bureauId
  | retry session _ _ => session.bureauId
  | listJobs session _ => session.bureauId
  | maintenance _ bureauId => bureauId
  | worker bureauId _ => bureauId

/-- The statements that a request runs. -/
inductive Runs (state : AppState) : Request → Sql → Prop
  | listPartners (session : Session) :
      Runs state (.listPartners session) (.partnersList session.bureauId)
  | createPartner {session : Session} {payload : CreatePartnerRequest} {name : Text}
      {note : Option Text} (hname : Validate.partnerName payload.name = .ok name)
      (hnote : Validate.partnerNote payload.note = .ok note) :
      Runs state (.createPartner session payload) (.partnersInsert session.bureauId name note)
  | showPartner (session : Session) (partnerId : Uuid) :
      Runs state (.showPartner session partnerId) (.partnersGet session.bureauId partnerId)
  | updatePartner {session : Session} {partnerId : Uuid} {payload : PatchPartnerRequest}
      {patch : PartnerPatch} (hpatch : Routes.patchOf payload = .ok patch) :
      Runs state (.updatePartner session partnerId payload) (.partnersUpdate session.bureauId
        partnerId patch.name patch.note.isSome (patch.note.getD none))
  | listMaterials (session : Session) (partnerId : Uuid) :
      Runs state (.listMaterials session partnerId) (.materialsList session.bureauId partnerId)
  | materialsExists (session : Session) (partnerId : Uuid) :
      Runs state (.listMaterials session partnerId) (.partnersExists session.bureauId partnerId)
  | uploadExists (session : Session) (partnerId : Uuid) (multipart : Multipart) :
      Runs state (.upload session partnerId multipart)
        (.partnersExists session.bureauId partnerId)
  | record {session : Session} {partnerId : Uuid} {multipart : Multipart} {new : NewMaterial}
      (hnew : Routes.Records state session partnerId multipart new) {s : Sql}
      (h : Routes.Inserts session.bureauId new s) :
      Runs state (.upload session partnerId multipart) s
  | enqueue {session : Session} {partnerId : Uuid} {multipart : Multipart} {materialId : Uuid}
      {s : Sql} (h : Jobs.Enqueues state.store.uuid session.bureauId partnerId materialId s) :
      Runs state (.upload session partnerId multipart) s
  | download (session : Session) (partnerId materialId : Uuid) :
      Runs state (.download session partnerId materialId)
        (.materialsGet session.bureauId partnerId materialId)
  | retryGet (session : Session) (partnerId materialId : Uuid) :
      Runs state (.retry session partnerId materialId)
        (.materialsGet session.bureauId partnerId materialId)
  | requeueMaterial (session : Session) (partnerId materialId : Uuid) :
      Runs state (.retry session partnerId materialId)
        (.materialsRequeue session.bureauId partnerId materialId)
  | requeueJob {session : Session} {partnerId materialId : Uuid} {s : Sql}
      (h : Jobs.Requeues state.store.uuid session.bureauId partnerId materialId s) :
      Runs state (.retry session partnerId materialId) s
  | listJobs (session : Session) (partnerId : Uuid) :
      Runs state (.listJobs session partnerId) (.jobsList session.bureauId partnerId)
  | jobsExists (session : Session) (partnerId : Uuid) :
      Runs state (.listJobs session partnerId) (.partnersExists session.bureauId partnerId)
  | reclaim (settings : MaintenanceSettings) (bureauId : Uuid) :
      Runs state (.maintenance settings bureauId) (.jobsReclaim bureauId)
  | findDigest (settings : MaintenanceSettings) (bureauId partnerId : Uuid) (digest : Text) :
      Runs state (.maintenance settings bureauId) (.materialsByDigest bureauId partnerId digest)
  | worker {bureauId : Uuid} {changes : List WorkerChange} {change : WorkerChange}
      (h : change ∈ changes) :
      Runs state (.worker bureauId changes) (Worker.statement bureauId change)

/-- What a request does with files. -/
inductive Touches (state : AppState) : Request → Op → Prop
  | intake {session : Session} {partnerId : Uuid} {multipart : Multipart} {op : Op}
      (h : op.OfIntake state.store (Routes.places state session partnerId multipart)) :
      Touches state (.upload session partnerId multipart) op
  | stat (session : Session) (partnerId materialId : Uuid) (path : Path) :
      Touches state (.download session partnerId materialId) (.stat path)
  | openFile (session : Session) (partnerId materialId : Uuid) (path : Path) :
      Touches state (.download session partnerId materialId) (.openFile path)
  | maintenance {settings : MaintenanceSettings} {bureauId : Uuid} {op : Op}
      (h : Maintenance.Touches op) : Touches state (.maintenance settings bureauId) op

/-- The operations of a request. -/
inductive Performs (state : AppState) (request : Request) : Op → Prop
  | begin : Performs state request (.begin request.bureauId)
  | commit : Performs state request .commit
  | rollback : Performs state request .rollback
  | sql {s : Sql} (h : request.Runs state s) : Performs state request (.sql s)
  | file {op : Op} (h : request.Touches state op) : Performs state request op

theorem brackets (request : Request) :
    Op.Brackets (request.Performs state) request.bureauId :=
  ⟨.begin, .commit, .rollback⟩

/-- A request performs nothing else, whatever it is answered. -/
theorem calls_program (request : Request) :
    (request.program state).Calls (request.Performs state) := by
  have htx : Op.Brackets (request.Performs state) request.bureauId := request.brackets
  cases request with
  | listPartners session =>
      exact (Routes.calls_listPartners htx (.sql (.listPartners _))).bind fun _ ↦ by trivial
  | createPartner session payload =>
      exact (Routes.calls_createPartner htx fun name note hname hnote ↦
        .sql (.createPartner hname hnote)).bind fun _ ↦ by trivial
  | showPartner session partnerId =>
      exact (Routes.calls_showPartner htx (.sql (.showPartner _ _))).bind fun _ ↦ by trivial
  | updatePartner session partnerId payload =>
      exact (Routes.calls_updatePartner htx fun patch hpatch ↦
        .sql (.updatePartner hpatch)).bind fun _ ↦ by trivial
  | listMaterials session partnerId =>
      exact (Routes.calls_listMaterials htx (.sql (.materialsExists _ _))
        (.sql (.listMaterials _ _))).bind fun _ ↦ by trivial
  | upload session partnerId multipart =>
      exact (Routes.calls_upload htx (.sql (.uploadExists _ _ _)) (fun op hop ↦ .file (.intake hop))
        (fun new hnew s hs ↦ .sql (.record hnew hs))
        fun materialId s hs ↦ .sql (.enqueue hs)).bind fun _ ↦ by trivial
  | download session partnerId materialId =>
      exact (Routes.calls_download htx (.sql (.download _ _ _)) (fun path ↦ .file (.stat _ _ _ path))
        fun path ↦ .file (.openFile _ _ _ path)).bind fun _ ↦ by trivial
  | retry session partnerId materialId =>
      exact (Routes.calls_retry htx (.sql (.retryGet _ _ _)) (.sql (.requeueMaterial _ _ _))
        fun s hs ↦ .sql (.requeueJob hs)).bind fun _ ↦ by trivial
  | listJobs session partnerId =>
      exact (Routes.calls_listJobs htx (.sql (.jobsExists _ _))
        (.sql (.listJobs _ _))).bind fun _ ↦ by trivial
  | maintenance settings bureauId =>
      exact (Maintenance.calls_runOnce htx settings (.sql (.reclaim _ _))
        (fun partnerId digest ↦ .sql (.findDigest _ _ partnerId digest))
        fun op hop ↦ .file (.maintenance hop)).bind fun _ ↦ by trivial
  | worker bureauId changes =>
      exact (Worker.calls_step htx.begin htx.commit fun change hchange ↦
        .sql (.worker hchange)).bind fun _ ↦ by trivial

end Request

end Otdel
