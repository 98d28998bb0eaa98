import Otdel.Db.Queue

/-!
# What the queue keeps

Status, counters and lease of a job agree in every reachable state.  A reclaim
spends one of the runs that a job has left, and only a retry grants more.
-/

namespace Otdel

/-- Status, counters and lease agree. -/
structure JobRow.Agrees (row : JobRow) : Prop where
  idle : row.status ≠ .running → row.leaseOwner = none ∧ row.leaseExpiresAt = none
  lease : row.leaseOwner = none ↔ row.leaseExpiresAt = none
  queued : row.status = .queued → row.attempts < row.maxAttempts
  running : row.status = .running → 0 < row.attempts
  limit : 0 < row.maxAttempts

/-- How often a reclaim can still put the job back into the queue. -/
def JobRow.reruns (row : JobRow) : ℕ :=
  if row.status = .running then row.maxAttempts - row.attempts
  else row.maxAttempts - row.attempts - 1

theorem JobRow.Agrees.reruns_lt {row : JobRow} (h : row.Agrees) : row.reruns < row.maxAttempts := by
  have hlimit := h.limit
  unfold JobRow.reruns
  split
  · rename_i hrunning
    have hattempts := h.running hrunning
    omega
  · omega

namespace Queue

/-- A user retry of the material. -/
def Event.Retries (bureauId partnerId materialId : Uuid) (key : Text) (e : Event) : Prop :=
  ∃ id now, e = .sql (.jobsRequeue bureauId partnerId materialId key) id now

/-- A step of the server, not of a worker. -/
def Event.IsServer : Event → Prop
  | .sql _ _ _ => True
  | _ => False

def Event.IsReclaim : Event → Prop
  | .sql (.jobsReclaim _) _ _ => True
  | _ => False

instance : DecidablePred Event.IsReclaim := fun e ↦ by
  unfold Event.IsReclaim
  split <;> infer_instance

/-- The reclaim has put the job back into the queue. -/
def Returned (jobId : Uuid) (db : Db) (e : Event) (db' : Db) : Prop :=
  e.IsReclaim ∧ (∃ row ∈ db.jobs, row.id = jobId ∧ row.status = .running) ∧
    ∃ row ∈ db'.jobs, row.id = jobId ∧ row.status = .queued

instance (jobId : Uuid) (db : Db) (e : Event) (db' : Db) : Decidable (Returned jobId db e db') := by
  unfold Returned
  infer_instance

/-- How often reclaims put the job back into the queue during a run. -/
def returns (jobId : Uuid) : Db → List Event → ℕ
  | _, [] => 0
  | db, e :: events =>
      match step db e with
      | some db' => (if Returned jobId db e db' then 1 else 0) + returns jobId db' events
      | none => 0

/-! ## One move -/

variable {e : Event} {row row' : JobRow}

theorem Moves.agrees (h : Moves e row row') (hrow : row.Agrees) : row'.Agrees := by
  have hlimit := hrow.limit
  cases h with
  | requeued =>
      refine ⟨fun _ ↦ ⟨rfl, rfl⟩, iff_of_true rfl rfl, fun _ ↦ ?_, nofun, ?_⟩
      · simp only [Sql.requeuedJob]
        omega
      · simp only [Sql.requeuedJob]
        omega
  | reclaimed =>
      refine ⟨fun _ ↦ ⟨rfl, rfl⟩, iff_of_true rfl rfl, fun h ↦ ?_, fun h ↦ ?_, hlimit⟩
      · simp only [Sql.reclaimed] at h ⊢
        split at h
        · cases h
        · omega
      · simp only [Sql.reclaimed] at h
        split at h <;> cases h
  | leased hstatus =>
      refine ⟨fun h ↦ absurd rfl h, ?_, nofun, fun _ ↦ Nat.succ_pos _, hlimit⟩
      simp [Sql.changedJob]
  | finished hstatus hterminal =>
      refine ⟨fun _ ↦ ⟨rfl, rfl⟩, iff_of_true rfl rfl, fun h ↦ ?_, fun h ↦ ?_, hlimit⟩
      · cases h
        cases hterminal
      · cases h
        cases hterminal

theorem Moves.attempts_le (h : Moves e row row') : row.attempts ≤ row'.attempts := by
  cases h with
  | leased => exact Nat.le_succ _
  | _ => exact le_rfl

theorem Moves.maxAttempts_le (h : Moves e row row') : row.maxAttempts ≤ row'.maxAttempts := by
  cases h with
  | requeued => exact le_max_left _ _
  | _ => exact le_rfl

theorem Moves.attempts_eq (h : Moves e row row') (hserver : e.IsServer) :
    row'.attempts = row.attempts := by
  cases h with
  | requeued => rfl
  | reclaimed => rfl
  | leased => exact hserver.elim
  | finished => exact hserver.elim

/-- A reclaim fails the jobs that have no attempts left, and no others. -/
theorem Moves.exhausted (h : Moves e row row') (hreclaim : e.IsReclaim)
    (hfailed : row'.status = .failed) : row.maxAttempts ≤ row.attempts := by
  cases h with
  | reclaimed =>
      simp only [Sql.reclaimed] at hfailed
      split at hfailed
      · assumption
      · cases hfailed
  | _ => exact hreclaim.elim

/-- Without a retry no move grants a rerun, and a return into the queue costs one. -/
theorem Moves.reruns (h : Moves e row row')
    (hretry : ¬ e.Retries row.bureauId row.partnerId row.materialId row.idempotencyKey) :
    row'.maxAttempts = row.maxAttempts ∧
      (if e.IsReclaim ∧ row'.status = .queued then 1 else 0) + row'.reruns ≤ row.reruns := by
  cases h with
  | requeued h =>
      simp only [Sql.isExtractionOf, Sql.isJobOf, Bool.and_eq_true, decide_eq_true_eq] at h
      obtain ⟨⟨⟨rfl, rfl⟩, rfl⟩, rfl⟩ := h
      exact (hretry ⟨_, _, rfl⟩).elim
  | reclaimed h =>
      simp only [Sql.isExpired, Bool.and_eq_true, decide_eq_true_eq] at h
      refine ⟨rfl, ?_⟩
      by_cases hexhausted : row.maxAttempts ≤ row.attempts
      · simp [JobRow.reruns, Sql.reclaimed, hexhausted, h.1.2]
      · simp only [JobRow.reruns, Sql.reclaimed, hexhausted, h.1.2, if_false, if_true, and_true,
          reduceCtorEq, Event.IsReclaim]
        omega
  | leased h =>
      refine ⟨rfl, ?_⟩
      simp only [JobRow.reruns, Sql.changedJob, h, Event.IsReclaim, if_true, if_false, false_and,
        reduceCtorEq]
      omega
  | @finished jobId status stage error now row h hterminal =>
      refine ⟨rfl, ?_⟩
      have hstatus : status ≠ .running := by
        rintro rfl
        cases hterminal
      simp only [JobRow.reruns, Sql.changedJob, h, hstatus, Event.IsReclaim, if_true, if_false,
        false_and]
      omega

/-! ## One step -/

variable {db db' : Db}

theorem newJobRow_agrees (bureauId partnerId materialId : Uuid) (kind : JobKind) (key : Text)
    (id : Uuid) (now : Timestamp) :
    (Sql.newJobRow bureauId partnerId materialId kind key id now).Agrees where
  idle _ := ⟨rfl, rfl⟩
  lease := iff_of_true rfl rfl
  queued _ := Nat.succ_pos 4
  running h := nomatch h
  limit := Nat.succ_pos 4

/-- Every job agrees, and no two have one id. -/
structure Invariant (db : Db) : Prop where
  agrees : ∀ row ∈ db.jobs, row.Agrees
  unique : (db.jobs.map JobRow.id).Nodup

theorem Invariant.next (h : Invariant db) (hstep : step db e = some db') : Invariant db' := by
  cases outcome h.unique hstep with
  | moved f hcore hmoves hjobs =>
      constructor
      · rw [hjobs]
        intro row hrow
        obtain ⟨old, hold, rfl⟩ := List.mem_map.mp hrow
        rcases hmoves old hold with hsame | hmove
        · rw [hsame]
          exact h.agrees old hold
        · exact hmove.agrees (h.agrees old hold)
      · rw [hjobs, List.map_map]
        have hid : JobRow.id ∘ f = JobRow.id :=
          funext fun row ↦ (JobRow.core_eq_iff.mp (hcore row)).1
        rw [hid]
        exact h.unique
  | added bureauId partnerId materialId kind key id now hfresh hjobs =>
      constructor
      · rw [hjobs]
        intro row hrow
        rcases List.mem_append.mp hrow with hrow | hrow
        · exact h.agrees row hrow
        · rw [List.mem_singleton.mp hrow]
          exact newJobRow_agrees _ _ _ _ _ _ _
      · rw [hjobs, List.map_append, List.nodup_append]
        refine ⟨h.unique, List.nodup_singleton _, ?_⟩
        rintro _ hold _ hnew rfl
        obtain ⟨row, hrow, hid⟩ := List.mem_map.mp hold
        exact hfresh row hrow (hid.trans (List.mem_singleton.mp hnew))

/-- What a step does to a job that is there. -/
theorem Invariant.exists_move (h : Invariant db) (hstep : step db e = some db')
    (hrow : row ∈ db.jobs) :
    ∃ row' ∈ db'.jobs, row'.core = row.core ∧ (row' = row ∨ Moves e row row') := by
  cases outcome h.unique hstep with
  | moved f hcore hmoves hjobs =>
      rw [hjobs]
      exact ⟨f row, List.mem_map_of_mem hrow, hcore row, hmoves row hrow⟩
  | added bureauId partnerId materialId kind key id now hfresh hjobs =>
      rw [hjobs]
      exact ⟨row, List.mem_append_left _ hrow, rfl, Or.inl rfl⟩

/-! ## Runs -/

theorem Invariant.run (h : Invariant db) {events : List Event}
    (hrun : Run.run step db events = some db') : Invariant db' := by
  induction events generalizing db with
  | nil =>
      cases hrun
      exact h
  | cons e events ih =>
      obtain ⟨db₁, hstep, hrest⟩ := Run.run_eq_some_cons.mp hrun
      exact ih (h.next hstep) hrest

/-- Reclaims use up the reruns of a job, as long as it is not retried. -/
theorem Invariant.returns_le (h : Invariant db) (hrow : row ∈ db.jobs) {events : List Event}
    (hretry : ∀ e ∈ events,
      ¬ e.Retries row.bureauId row.partnerId row.materialId row.idempotencyKey) :
    returns row.id db events ≤ row.reruns := by
  induction events generalizing db row with
  | nil => exact Nat.zero_le _
  | cons e events ih =>
      rw [returns]
      split
      · rename_i db₁ hstep
        obtain ⟨row', hrow', hcore, hmove⟩ := h.exists_move hstep hrow
        obtain ⟨hid, hbureau, hpartner, hmaterial, -, hkey, -⟩ := JobRow.core_eq_iff.mp hcore
        have hrest := ih (h.next hstep) hrow' (by
          rw [hbureau, hpartner, hmaterial, hkey]
          exact fun e he ↦ hretry e (List.mem_cons_of_mem _ he))
        rw [hid] at hrest
        have hreturned : Returned row.id db e db₁ →
            row.status = .running ∧ e.IsReclaim ∧ row'.status = .queued := by
          rintro ⟨hreclaim, ⟨old, hold, hid₀, hrunning⟩, ⟨new, hnew, hid₁, hqueued⟩⟩
          cases List.inj_on_of_nodup_map h.unique hold hrow hid₀
          cases List.inj_on_of_nodup_map (h.next hstep).unique hnew hrow' (hid₁.trans hid.symm)
          exact ⟨hrunning, hreclaim, hqueued⟩
        rcases hmove with rfl | hmove
        · have hnot : ¬ Returned row'.id db e db₁ := by
            intro hret
            obtain ⟨hrunning, -, hqueued⟩ := hreturned hret
            rw [hrunning] at hqueued
            cases hqueued
          rw [if_neg hnot, Nat.zero_add]
          exact hrest
        · have hcost := (hmove.reruns (hretry e List.mem_cons_self)).2
          by_cases hret : Returned row.id db e db₁
          · rw [if_pos (hreturned hret).2] at hcost
            rw [if_pos hret]
            omega
          · rw [if_neg hret]
            omega
      · exact Nat.zero_le _

/-- What the queue keeps in a reachable state, in a step from it, and in a run from it. -/
structure Kept (db : Db) : Prop where
  idle : ∀ row ∈ db.jobs, row.status ≠ .running →
    row.leaseOwner = none ∧ row.leaseExpiresAt = none
  lease : ∀ row ∈ db.jobs, row.leaseOwner = none ↔ row.leaseExpiresAt = none
  queued : ∀ row ∈ db.jobs, row.status = .queued → row.attempts < row.maxAttempts
  /-- A job stays; its counters grow, the attempts by steps of a worker only; and a reclaim
  fails it only when its attempts are used up. -/
  next : ∀ e db', step db e = some db' → ∀ row ∈ db.jobs, ∃ row' ∈ db'.jobs, row'.id = row.id ∧
    row.attempts ≤ row'.attempts ∧ row.maxAttempts ≤ row'.maxAttempts ∧
      (e.IsServer → row'.attempts = row.attempts) ∧
        (e.IsReclaim → row'.status = .failed → row.status = .failed ∨
          row.maxAttempts ≤ row.attempts)
  /-- Between two retries of a material, reclaims put its job back into the queue fewer times
  than its limit after the first. -/
  retries : ∀ bureauId partnerId materialId key retry db₁ between db₂,
    Event.Retries bureauId partnerId materialId key retry → step db retry = some db₁ →
      (∀ e ∈ between, ¬ e.Retries bureauId partnerId materialId key) →
        Run.run step db₁ between = some db₂ → ∀ row ∈ db₁.jobs,
          Sql.isExtractionOf bureauId partnerId materialId key row = true →
            returns row.id db₁ between < row.maxAttempts

theorem Invariant.kept (h : Invariant db) : Kept db where
  idle row hrow := (h.agrees row hrow).idle
  lease row hrow := (h.agrees row hrow).lease
  queued row hrow := (h.agrees row hrow).queued
  next := by
    intro e db' hstep row hrow
    obtain ⟨row', hrow', hcore, hmove⟩ := h.exists_move hstep hrow
    refine ⟨row', hrow', (JobRow.core_eq_iff.mp hcore).1, ?_⟩
    rcases hmove with rfl | hmove
    · exact ⟨le_rfl, le_rfl, fun _ ↦ rfl, fun _ hfailed ↦ Or.inl hfailed⟩
    · exact ⟨hmove.attempts_le, hmove.maxAttempts_le, hmove.attempts_eq,
        fun hreclaim hfailed ↦ Or.inr (hmove.exhausted hreclaim hfailed)⟩
  retries := by
    intro bureauId partnerId materialId key retry db₁ between db₂ _ hstep hretry _ row hrow hof
    simp only [Sql.isExtractionOf, Sql.isJobOf, Bool.and_eq_true, decide_eq_true_eq] at hof
    obtain ⟨⟨⟨rfl, rfl⟩, rfl⟩, rfl⟩ := hof
    have hnext := h.next hstep
    exact (hnext.returns_le hrow hretry).trans_lt (hnext.agrees row hrow).reruns_lt

/-- The queue keeps its invariant in every state that a run from no jobs reaches. -/
theorem queue_kept {start : Db} (hstart : start.jobs = []) {events : List Event}
    (hrun : Run.run step start events = some db) : Kept db := by
  have hinvariant : Invariant start := by
    constructor
    · simp [hstart]
    · simp [hstart]
  exact (hinvariant.run hrun).kept

/-- A material without a job. -/
def sampleStart : Db where
  bureaus := [default]
  partners := [⟨default, default, "partner".toList, none, 0, 0⟩]
  materials := [⟨default, default, default, "a.pdf".toList, "application/pdf".toList, 5,
    List.replicate 64 'a', "key".toList, .queued, none, none, 0, 0⟩]
  jobs := []

/-- The job is leased, and its worker dies. -/
def sampleEvents : List Event :=
  [.sql (.jobsInsert default default default .extractDocument "job".toList) default 0,
    .lease default "worker".toList 10 none none 5, .sql (.jobsReclaim default) default 11]

theorem queue_kept_sample : ∃ db, Run.run step sampleStart sampleEvents = some db ∧
    db.jobs.map JobRow.status = [.queued] ∧ Kept db := by
  have hstatus : (Run.run step sampleStart sampleEvents).map
      (fun db ↦ db.jobs.map JobRow.status) = some [.queued] := by decide +kernel
  obtain ⟨db, hrun, hqueued⟩ := Option.map_eq_some_iff.mp hstatus
  exact ⟨db, hrun, hqueued, queue_kept rfl hrun⟩

end Queue

end Otdel
