import Otdel.Db.Effects
import Otdel.Db.Repository
import Otdel.Library.Run

/-!
# The job queue

The statements of the queue and the two steps of a worker, in any order.  Every
job only ever moves in one of four ways.
-/

namespace Otdel

/-- The run is over. -/
def JobStatus.isTerminal : JobStatus → Bool
  | completed => true
  | failed => true
  | cancelled => true
  | _ => false

namespace Queue

/-- A statement of the repository, a step of a worker, or a change of other tables. -/
inductive Event where
  | sql (s : Sql) (id : Uuid) (now : Timestamp)
  | lease (jobId : Uuid) (owner : Text) (expiresAt : Timestamp) (stage error : Option Text)
      (now : Timestamp)
  | finish (jobId : Uuid) (status : JobStatus) (stage error : Option Text) (now : Timestamp)
  | others (partners : List PartnerRow) (materials : List MaterialRow)

/-- A statement of `enqueue_extraction`, `requeue_extraction` or `reclaim_expired_leases`. -/
def ofQueue : Sql → Bool
  | .jobsInsert _ _ _ _ _ => true
  | .jobsByKey _ _ => true
  | .jobsRequeue _ _ _ _ => true
  | .jobsReclaim _ => true
  | _ => false

/-- The rows after a statement; one that fails changes nothing. -/
def statement (s : Sql) (id : Uuid) (now : Timestamp) (db : Db) : Db :=
  match s.exec id now db with
  | .ok (_, writes) => db.overlay writes
  | .error _ => db

def step (db : Db) : Event → Option Db
  | .sql s id now => if ofQueue s then some (statement s id now db) else none
  | .lease jobId owner expiresAt stage error now =>
      (db.jobs.find? fun row ↦
        row.id = jobId && row.status = .queued && row.attempts < Sql.maxInteger).map fun row ↦
          statement (.workerJob row.bureauId jobId
            ⟨.running, stage, row.attempts + 1, some owner, some expiresAt, error⟩) default now db
  | .finish jobId status stage error now =>
      if status.isTerminal then
        (db.jobs.find? fun row ↦ row.id = jobId && row.status = .running).map fun row ↦
          statement (.workerJob row.bureauId jobId
            ⟨status, stage, row.attempts, none, none, error⟩) default now db
      else none
  | .others partners materials => some { db with partners, materials }

/-! ## The repository -/

/-- The operation is one of the statements above. -/
def IsStatement (op : Op) : Prop := ∃ s, op = .sql s ∧ ofQueue s = true

variable {uuid : UuidCrate} {tx : ScopedTx} {partnerId materialId : Uuid}

theorem isStatement_of_enqueues {bureauId : Uuid} {s : Sql}
    (h : Jobs.Enqueues uuid bureauId partnerId materialId s) : IsStatement (.sql s) :=
  ⟨s, rfl, by cases h <;> rfl⟩

theorem calls_enqueueExtraction :
    Program.Calls IsStatement (Jobs.enqueueExtraction uuid tx partnerId materialId) :=
  Jobs.calls_enqueueExtraction fun _ ↦ isStatement_of_enqueues

theorem calls_requeueExtraction :
    Program.Calls IsStatement (Jobs.requeueExtraction uuid tx partnerId materialId) := by
  apply Jobs.calls_requeueExtraction
  intro s h
  cases h with
  | again => exact ⟨_, rfl, rfl⟩
  | enqueue h => exact isStatement_of_enqueues h

theorem calls_reclaimExpiredLeases :
    Program.Calls IsStatement (Jobs.reclaimExpiredLeases tx) :=
  Program.calls_perform ⟨_, rfl, rfl⟩

/-! ## What a step does -/

/-- What can happen to a job. -/
inductive Moves : Event → JobRow → JobRow → Prop
  | requeued {bureauId partnerId materialId key id now row}
      (h : Sql.isExtractionOf bureauId partnerId materialId key row = true) :
      Moves (.sql (.jobsRequeue bureauId partnerId materialId key) id now) row
        (Sql.requeuedJob now row)
  | reclaimed {bureauId id now row} (h : Sql.isExpired bureauId now row = true) :
      Moves (.sql (.jobsReclaim bureauId) id now) row (Sql.reclaimed now row)
  | leased {jobId owner expiresAt stage error now row} (h : row.status = .queued) :
      Moves (.lease jobId owner expiresAt stage error now) row
        (Sql.changedJob ⟨.running, stage, row.attempts + 1, some owner, some expiresAt, error⟩
          now row)
  | finished {jobId status stage error now row} (h : row.status = .running)
      (hterminal : status.isTerminal = true) :
      Moves (.finish jobId status stage error now) row
        (Sql.changedJob ⟨status, stage, row.attempts, none, none, error⟩ now row)

/-- A step moves some jobs, or adds one. -/
inductive Outcome (db : Db) (e : Event) (db' : Db) : Prop
  | moved (f : JobRow → JobRow) (hcore : ∀ row, (f row).core = row.core)
      (hmoves : ∀ row ∈ db.jobs, f row = row ∨ Moves e row (f row))
      (hjobs : db'.jobs = db.jobs.map f)
  | added (bureauId partnerId materialId : Uuid) (kind : JobKind) (key : Text) (id : Uuid)
      (now : Timestamp) (hfresh : ∀ row ∈ db.jobs, row.id ≠ id)
      (hjobs : db'.jobs =
        db.jobs ++ [Sql.newJobRow bureauId partnerId materialId kind key id now])

variable {db db' : Db} {e : Event}

theorem Outcome.unchanged (h : db'.jobs = db.jobs) : Outcome db e db' :=
  .moved id (fun _ ↦ rfl) (fun _ _ ↦ Or.inl rfl) (by rw [h, List.map_id])

/-- An update either fails or changes the jobs that a condition picks. -/
theorem jobs_of_update (hnodup : (db.jobs.map JobRow.id).Nodup) {α : Type}
    {p : JobRow → Bool} {f : JobRow → JobRow} (hcore : ∀ row, (f row).core = row.core)
    {answer : List JobRow → α} {r : α × List Write}
    (h : (Sql.updateJobs db p f).map (fun r ↦ (answer r.1, r.2)) = .ok r) :
    (db.overlay r.2).jobs = db.jobs.map fun row ↦ if p row then f row else row := by
  obtain ⟨rfl, -⟩ := Sql.map_updateRows_eq_ok h
  have hwrites : ((((db.jobs.filter p).map fun row ↦ Write.job (f row) (some row)).filterMap
      Write.job?).map Prod.fst) = (db.jobs.filter p).map f := by
    simp [List.filterMap_map, Write.job?, Function.comp_def]
  rw [Db.overlay, hwrites]
  exact Table.overlay_filter p f (fun row ↦ (JobRow.core_eq_iff.mp (hcore row)).1) hnodup

/-- A statement that updates jobs, by the moves of the jobs that it picks. -/
theorem outcome_of_update (hnodup : (db.jobs.map JobRow.id).Nodup) {s : Sql} {id : Uuid}
    {now : Timestamp} {p : JobRow → Bool} {f : JobRow → JobRow}
    {answer : List JobRow → s.Answer}
    (hexec : ∀ r, s.exec id now db = .ok r →
      (Sql.updateJobs db p f).map (fun r ↦ (answer r.1, r.2)) = .ok r)
    (hcore : ∀ row, (f row).core = row.core)
    (hmoves : ∀ row ∈ db.jobs, p row = true → Moves e row (f row)) :
    Outcome db e (statement s id now db) := by
  cases h : s.exec id now db with
  | error error => exact .unchanged (by rw [statement, h])
  | ok r =>
      have hjobs : (statement s id now db).jobs =
          db.jobs.map fun row ↦ if p row then f row else row := by
        rw [statement, h]
        exact jobs_of_update hnodup hcore (hexec r h)
      refine .moved _ (fun row ↦ ?_) (fun row hrow ↦ ?_) hjobs
      · by_cases hp : p row = true
        · rw [if_pos hp, hcore]
        · rw [if_neg hp]
      · by_cases hp : p row = true
        · rw [if_pos hp]
          exact Or.inr (hmoves row hrow hp)
        · exact Or.inl (if_neg hp)

theorem outcome_of_insert (bureauId partnerId materialId : Uuid) (kind : JobKind) (key : Text)
    (id : Uuid) (now : Timestamp) :
    Outcome db e (statement (.jobsInsert bureauId partnerId materialId kind key) id now db) := by
  unfold statement
  cases h : (Sql.jobsInsert bureauId partnerId materialId kind key).exec id now db with
  | error error => exact .unchanged rfl
  | ok r =>
      simp only [Sql.exec] at h
      split at h
      · cases h
      split at h
      · cases h
        exact .unchanged rfl
      split at h
      · cases h
      rename_i hid
      split at h
      · cases h
      cases h
      have hfresh : ∀ row ∈ db.jobs, row.id ≠ id := by simpa using hid
      exact .added bureauId partnerId materialId kind key id now hfresh
        (Table.upsert_of_fresh hfresh)

theorem outcome_of_work (hnodup : (db.jobs.map JobRow.id).Nodup) {row : JobRow}
    (hrow : row ∈ db.jobs) {change : JobChange} {now : Timestamp}
    (hmove : Moves e row (Sql.changedJob change now row)) :
    Outcome db e (statement (.workerJob row.bureauId row.id change) default now db) := by
  have hexec : ∀ r, (Sql.workerJob row.bureauId row.id change).exec default now db = .ok r →
      (Sql.updateJobs db (fun other ↦ other.bureauId = row.bureauId && other.id = row.id)
        (Sql.changedJob change now)).map (fun r ↦ (r.1.length, r.2)) = .ok r := fun _ h ↦ h
  apply outcome_of_update hnodup hexec fun _ ↦ rfl
  intro other hother hsame
  simp only [Bool.and_eq_true, decide_eq_true_eq] at hsame
  cases List.inj_on_of_nodup_map hnodup hother hrow hsame.2
  exact hmove

theorem outcome (hnodup : (db.jobs.map JobRow.id).Nodup) (h : step db e = some db') :
    Outcome db e db' := by
  cases e with
  | sql s id now =>
      rw [step] at h
      split at h
      · rename_i hs
        cases h
        cases s with
        | jobsInsert => exact outcome_of_insert _ _ _ _ _ _ _
        | jobsByKey => exact .unchanged rfl
        | jobsRequeue bureauId partnerId materialId key =>
            have hexec : ∀ r, (Sql.jobsRequeue bureauId partnerId materialId key).exec id now db =
                .ok r → (Sql.updateJobs db (Sql.isExtractionOf bureauId partnerId materialId key)
                  (Sql.requeuedJob now)).map (fun r ↦ (r.1.head?, r.2)) = .ok r := by
              intro r h
              simp only [Sql.exec] at h
              split at h
              · cases h
              · exact h
            exact outcome_of_update hnodup hexec (fun _ ↦ rfl) fun row _ h ↦ .requeued h
        | jobsReclaim bureauId =>
            have hexec : ∀ r, (Sql.jobsReclaim bureauId).exec id now db = .ok r →
                (Sql.updateJobs db (Sql.isExpired bureauId now) (Sql.reclaimed now)).map
                  (fun r ↦ (r.1.length, r.2)) = .ok r := fun _ h ↦ h
            exact outcome_of_update hnodup hexec (fun _ ↦ rfl) fun row _ h ↦ .reclaimed h
        | _ => cases hs
      · cases h
  | lease jobId owner expiresAt stage error now =>
      rw [step, Option.map_eq_some_iff] at h
      obtain ⟨row, hfind, rfl⟩ := h
      have hrow := List.find?_some hfind
      simp only [Bool.and_eq_true, decide_eq_true_eq] at hrow
      obtain ⟨⟨rfl, hstatus⟩, -⟩ := hrow
      exact outcome_of_work hnodup (List.mem_of_find?_eq_some hfind) (.leased hstatus)
  | finish jobId status stage error now =>
      rw [step] at h
      split at h
      · rename_i hterminal
        rw [Option.map_eq_some_iff] at h
        obtain ⟨row, hfind, rfl⟩ := h
        have hrow := List.find?_some hfind
        simp only [Bool.and_eq_true, decide_eq_true_eq] at hrow
        obtain ⟨rfl, hstatus⟩ := hrow
        exact outcome_of_work hnodup (List.mem_of_find?_eq_some hfind)
          (.finished hstatus hterminal)
      · cases h
  | others partners materials =>
      cases h
      exact .unchanged rfl

end Queue

end Otdel
