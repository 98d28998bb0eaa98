import Otdel.Core.Validate
import Otdel.Db.Effects
import Otdel.Db.Sessions

/-!
# What the database accepts

A row can be stored if it passes the checks of its table and no text of it holds
the character NUL.  A statement fits if it makes such rows of such rows.
-/

namespace Otdel

/-- `text` columns hold every character but this one. -/
def nul : Char := Char.ofNat 0

theorem isControl_nul : Text.isControl nul = true := by decide

/-- A row, as its table checks it. -/
structure PartnerRow.Storable (row : PartnerRow) : Prop where
  check : row.check = true
  name : nul ∉ row.name
  note : ∀ note ∈ row.note, nul ∉ note

structure MaterialRow.Storable (row : MaterialRow) : Prop where
  check : row.check = true
  status : row.status.asStr ∈
    ["queued", "processing", "completed", "partial", "failed", "quarantined"]
  filename : nul ∉ row.filename
  mediaType : nul ∉ row.mediaType
  sha256 : nul ∉ row.sha256
  storageKey : nul ∉ row.storageKey
  error : ∀ error ∈ row.error, nul ∉ error

structure JobRow.Storable (row : JobRow) : Prop where
  check : row.check = true
  kind : row.kind.asStr ∈ ["extract_document"]
  status : row.status.asStr ∈ ["queued", "running", "completed", "failed", "cancelled"]
  stage : ∀ stage ∈ row.stage, nul ∉ stage
  idempotencyKey : nul ∉ row.idempotencyKey
  leaseOwner : ∀ owner ∈ row.leaseOwner, nul ∉ owner
  error : ∀ error ∈ row.error, nul ∉ error

structure SessionRow.Storable (row : SessionRow) : Prop where
  fingerprint : fingerprintCheck row.tokenFingerprint = true
  csrf : csrfCheck row.csrfToken = true
  tokenFingerprint : nul ∉ row.tokenFingerprint
  csrfToken : nul ∉ row.csrfToken

/-- The words of the statuses are those that the tables list. -/
theorem MaterialStatus.asStr_mem (status : MaterialStatus) : status.asStr ∈
    ["queued", "processing", "completed", "partial", "failed", "quarantined"] := by
  cases status <;> simp [MaterialStatus.asStr]

theorem JobStatus.asStr_mem (status : JobStatus) :
    status.asStr ∈ ["queued", "running", "completed", "failed", "cancelled"] := by
  cases status <;> simp [JobStatus.asStr]

theorem JobKind.asStr_mem (kind : JobKind) : kind.asStr ∈ ["extract_document"] := by
  cases kind
  simp [JobKind.asStr]

structure Db.Storable (db : Db) : Prop where
  partners : ∀ row ∈ db.partners, row.Storable
  materials : ∀ row ∈ db.materials, row.Storable
  jobs : ∀ row ∈ db.jobs, row.Storable

def Write.Storable : Write → Prop
  | .partner row _ => row.Storable
  | .material row _ => row.Storable
  | .job row _ => row.Storable

theorem Write.Storable.partner {w : Write} (h : w.Storable) {pair : PartnerRow × Option PartnerRow}
    (hpair : w.partner? = some pair) : pair.1.Storable := by
  cases w with
  | partner row replaced =>
      cases hpair
      exact h
  | material | job => cases hpair

theorem Write.Storable.material {w : Write} (h : w.Storable)
    {pair : MaterialRow × Option MaterialRow} (hpair : w.material? = some pair) :
    pair.1.Storable := by
  cases w with
  | material row replaced =>
      cases hpair
      exact h
  | partner | job => cases hpair

theorem Write.Storable.job {w : Write} (h : w.Storable) {pair : JobRow × Option JobRow}
    (hpair : w.job? = some pair) : pair.1.Storable := by
  cases w with
  | job row replaced =>
      cases hpair
      exact h
  | partner | material => cases hpair

/-- Writing rows that can be stored leaves such rows. -/
theorem Db.Storable.overlay {db : Db} (h : db.Storable) {writes : List Write}
    (hwrites : ∀ w ∈ writes, w.Storable) : (db.overlay writes).Storable where
  partners row hrow := by
    rcases Table.mem_overlay hrow with hrow | hrow
    · simp only [List.mem_map, List.mem_filterMap] at hrow
      obtain ⟨pair, ⟨w, hw, hpair⟩, rfl⟩ := hrow
      exact (hwrites w hw).partner hpair
    · exact h.partners row hrow
  materials row hrow := by
    rcases Table.mem_overlay hrow with hrow | hrow
    · simp only [List.mem_map, List.mem_filterMap] at hrow
      obtain ⟨pair, ⟨w, hw, hpair⟩, rfl⟩ := hrow
      exact (hwrites w hw).material hpair
    · exact h.materials row hrow
  jobs row hrow := by
    rcases Table.mem_overlay hrow with hrow | hrow
    · simp only [List.mem_map, List.mem_filterMap] at hrow
      obtain ⟨pair, ⟨w, hw, hpair⟩, rfl⟩ := hrow
      exact (hwrites w hw).job hpair
    · exact h.jobs row hrow

namespace Sql

/-- The rows that a statement inserts can be stored, and those that it updates stay so. -/
def Fits : Sql → Prop
  | partnersInsert bureauId name note =>
      ∀ id now, PartnerRow.Storable ⟨id, bureauId, name, note, now, now⟩
  | partnersUpdate _ _ name setNote note => ∀ row : PartnerRow, ∀ now, row.Storable →
      PartnerRow.Storable { row with
        name := name.getD row.name
        note := if setNote then note else row.note
        updatedAt := now }
  | materialsInsert bureauId new => ∀ id now, (newMaterialRow bureauId new id now).Storable
  | materialsRequeue _ _ _ => ∀ row now, row.Storable → (requeued now row).Storable
  | jobsInsert bureauId partnerId materialId kind key =>
      ∀ id now, (newJobRow bureauId partnerId materialId kind key id now).Storable
  | jobsRequeue _ _ _ _ => ∀ row now, row.Storable → (requeuedJob now row).Storable
  | jobsReclaim _ => ∀ row now, row.Storable → (reclaimed now row).Storable
  | workerMaterial _ _ change => ∀ row now, row.Storable → (changed change now row).Storable
  | workerJob _ _ change => ∀ row now, row.Storable → (changedJob change now row).Storable
  | _ => True

/-- No check fails, and the rows that are written can be stored. -/
def Accepted {α : Type} (r : Except DbError (α × List Write)) : Prop :=
  r ≠ .error .checkViolation ∧ ∀ answer writes, r = .ok (answer, writes) →
    ∀ w ∈ writes, w.Storable

variable {α : Type} {id : Uuid} {now : Timestamp} {db : Db} {s : Sql}

theorem accepted_ok {answer : α} {writes : List Write} (h : ∀ w ∈ writes, w.Storable) :
    Accepted (.ok (answer, writes)) := by
  refine ⟨nofun, fun answer' writes' heq ↦ ?_⟩
  cases heq
  exact h

theorem accepted_read {answer : α} : Accepted (.ok (answer, [])) := accepted_ok (by simp)

theorem accepted_error {e : DbError} (h : e ≠ .checkViolation) :
    Accepted (.error e : Except DbError (α × List Write)) :=
  ⟨fun heq ↦ h (Except.error.inj heq), nofun⟩

theorem accepted_update {Row : Type} {write : Row → Option Row → Write} {check : Row → Bool}
    {rows : List Row} {f : Row → Row} (p : Row → Bool) (answer : List Row → α)
    (hcheck : ∀ row ∈ rows, check (f row) = true)
    (hwrite : ∀ row ∈ rows, (write (f row) (some row)).Storable) :
    Accepted ((updateRows write check rows p f).map fun r ↦ (answer r.1, r.2)) := by
  have hok : updateRows write check rows p f =
      .ok ((rows.filter p).map f, (rows.filter p).map fun row ↦ write (f row) (some row)) :=
    updateRows_eq_ok.mpr ⟨fun row hrow ↦ hcheck row (List.mem_of_mem_filter hrow), rfl⟩
  rw [hok]
  apply accepted_ok
  intro w hw
  obtain ⟨row, hrow, rfl⟩ := List.mem_map.mp hw
  exact hwrite row (List.mem_of_mem_filter hrow)

theorem accepted_updateMaterials {f : MaterialRow → MaterialRow} (hdb : db.Storable)
    (h : ∀ row, row.Storable → (f row).Storable) (p : MaterialRow → Bool)
    (answer : List MaterialRow → α) :
    Accepted ((updateMaterials db p f).map fun r ↦ (answer r.1, r.2)) :=
  accepted_update p answer (fun row hrow ↦ (h row (hdb.materials row hrow)).check)
    fun row hrow ↦ h row (hdb.materials row hrow)

theorem accepted_updateJobs {f : JobRow → JobRow} (hdb : db.Storable)
    (h : ∀ row, row.Storable → (f row).Storable) (p : JobRow → Bool) (answer : List JobRow → α) :
    Accepted ((updateJobs db p f).map fun r ↦ (answer r.1, r.2)) :=
  accepted_update p answer (fun row hrow ↦ (h row (hdb.jobs row hrow)).check)
    fun row hrow ↦ h row (hdb.jobs row hrow)

/-- A statement that fits fails on no check, and keeps the rows such that none will. -/
theorem Fits.accepted (hs : s.Fits) (hdb : db.Storable) : Accepted (s.exec id now db) := by
  cases s with
  | partnersList | partnersGet | partnersExists | materialsList | materialsByDigest
  | materialsGet | jobsList | jobsByKey => exact accepted_read
  | partnersInsert bureauId name note =>
      have hrow := hs id now
      simp only [exec, hrow.check, Bool.true_eq_false, if_false]
      split
      · exact accepted_error (by simp [DbError.uniqueViolation, DbError.checkViolation])
      · split
        · exact accepted_error (by simp [DbError.foreignKeyViolation, DbError.checkViolation])
        · exact accepted_ok (by simpa [Write.Storable] using hrow)
  | partnersUpdate bureauId partnerId name setNote note =>
      exact accepted_update _ _ (fun row hrow ↦ (hs row now (hdb.partners row hrow)).check)
        fun row hrow ↦ hs row now (hdb.partners row hrow)
  | materialsInsert bureauId new =>
      have hrow := hs id now
      simp only [exec, hrow.check, Bool.true_eq_false, if_false]
      split
      · exact accepted_read
      · split
        · exact accepted_error (by simp [DbError.uniqueViolation, DbError.checkViolation])
        · split
          · exact accepted_error (by simp [DbError.foreignKeyViolation, DbError.checkViolation])
          · exact accepted_ok (by simpa [Write.Storable] using hrow)
  | materialsRequeue bureauId partnerId materialId =>
      exact accepted_updateMaterials hdb (fun row ↦ hs row now) _ _
  | jobsInsert bureauId partnerId materialId kind key =>
      have hrow := hs id now
      simp only [exec, hrow.check, Bool.true_eq_false, if_false]
      split
      · exact accepted_read
      · split
        · exact accepted_error (by simp [DbError.uniqueViolation, DbError.checkViolation])
        · split
          · exact accepted_error (by simp [DbError.foreignKeyViolation, DbError.checkViolation])
          · exact accepted_ok (by simpa [Write.Storable] using hrow)
  | jobsRequeue bureauId partnerId materialId key =>
      simp only [exec]
      split
      · exact accepted_error (by simp [DbError.checkViolation])
      · exact accepted_updateJobs hdb (fun row ↦ hs row now) _ _
  | jobsReclaim bureauId => exact accepted_updateJobs hdb (fun row ↦ hs row now) _ _
  | workerMaterial bureauId materialId change =>
      exact accepted_updateMaterials hdb (fun row ↦ hs row now) _ _
  | workerJob bureauId jobId change => exact accepted_updateJobs hdb (fun row ↦ hs row now) _ _

end Sql

end Otdel
