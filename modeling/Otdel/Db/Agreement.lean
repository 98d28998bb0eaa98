import Otdel.Db.Effects

/-!
# Materials and their jobs

The state of one piece of work is kept in two tables.  Each material has one job,
and the status of the one follows from that of the other.  A reclaim moves jobs
only.
-/

namespace Otdel

namespace Db

/-- The statuses that a material and its job have together. -/
def inStep : MaterialStatus → JobStatus → Bool
  | .queued, .queued => true
  | .processing, .running => true
  | .failed, .failed => true
  | .partially, .failed => true
  | .completed, .completed => true
  | _, _ => false

def jobsOf (db : Db) (materialId : Uuid) : List JobRow :=
  db.jobs.filter fun job ↦ job.materialId = materialId

/-- Each material has one job, and their statuses agree. -/
def Agreement (db : Db) : Prop :=
  ∀ m ∈ db.materials, ∃ job, db.jobsOf m.id = [job] ∧ inStep m.status job.status = true

/-- The keys of the two tables, the reference between them, and the idempotency
keys that jobs are made with. -/
structure Valid (uuid : UuidCrate) (db : Db) : Prop where
  materialIds : (db.materials.map MaterialRow.id).Nodup
  jobIds : (db.jobs.map JobRow.id).Nodup
  jobMaterial : ∀ job ∈ db.jobs, ∃ m ∈ db.materials, job.OfMaterial m
  jobKeys : ∀ job ∈ db.jobs,
    job.idempotencyKey = extractionIdempotencyKey uuid job.materialId .extractDocument

/-- The rows that the steps of the queue are taken from. -/
structure Steady (uuid : UuidCrate) (db : Db) : Prop where
  valid : db.Valid uuid
  agreement : db.Agreement

variable {uuid : UuidCrate} {db db' : Db} {m : MaterialRow} {job : JobRow}

theorem mem_jobsOf {materialId : Uuid} :
    job ∈ db.jobsOf materialId ↔ job ∈ db.jobs ∧ job.materialId = materialId := by
  simp [jobsOf]

theorem Valid.ofMaterial (h : db.Valid uuid) (hm : m ∈ db.materials) (hjob : job ∈ db.jobs)
    (hid : job.materialId = m.id) : job.OfMaterial m := by
  obtain ⟨m', hm', hof⟩ := h.jobMaterial job hjob
  have hsame : m' = m := List.inj_on_of_nodup_map h.materialIds hm' hm (hof.2.2.trans hid)
  exact hsame ▸ hof

theorem Agreement.exists_job (h : db.Agreement) (hm : m ∈ db.materials) :
    ∃ job ∈ db.jobs, db.jobsOf m.id = [job] ∧ job.materialId = m.id ∧
      inStep m.status job.status = true := by
  obtain ⟨job, hjobs, hstep⟩ := h m hm
  obtain ⟨hjob, hid⟩ := mem_jobsOf.mp (hjobs ▸ List.mem_singleton_self job)
  exact ⟨job, hjob, hjobs, hid, hstep⟩

theorem Agreement.status (h : db.Agreement) (hm : m ∈ db.materials) (hjob : job ∈ db.jobs)
    (hid : job.materialId = m.id) : inStep m.status job.status = true := by
  obtain ⟨only, -, hjobs, -, hstep⟩ := h.exists_job hm
  have hmem : job ∈ db.jobsOf m.id := mem_jobsOf.mpr ⟨hjob, hid⟩
  rw [hjobs, List.mem_singleton] at hmem
  rwa [hmem]

/-- No material is left in `processing` by a job that has failed. -/
theorem Agreement.not_stuck (h : db.Agreement) (hm : m ∈ db.materials)
    (hprocessing : m.status = .processing) (hjob : job ∈ db.jobs)
    (hid : job.materialId = m.id) : job.status ≠ .failed := by
  intro hfailed
  have hstep := h.status hm hjob hid
  rw [hprocessing, hfailed] at hstep
  exact absurd hstep (by decide)

/-! ## The rows after a statement -/

section Updates

theorem overlay_updateMaterials (hnodup : (db.materials.map MaterialRow.id).Nodup)
    (p : MaterialRow → Bool) {f : MaterialRow → MaterialRow} (hf : ∀ row, (f row).id = row.id) :
    db.overlay ((db.materials.filter p).map fun row ↦ .material (f row) (some row)) =
      { db with materials := db.materials.map fun row ↦ if p row then f row else row } := by
  have hrows := Table.overlay_filter p f hf hnodup
  simp [overlay, List.filterMap_map, Function.comp_def, Write.partner?, Write.material?,
    Write.job?, List.filterMap_eq_map', ← hrows]

theorem overlay_updateJobs (hnodup : (db.jobs.map JobRow.id).Nodup) (p : JobRow → Bool)
    {f : JobRow → JobRow} (hf : ∀ row, (f row).id = row.id) :
    db.overlay ((db.jobs.filter p).map fun row ↦ .job (f row) (some row)) =
      { db with jobs := db.jobs.map fun row ↦ if p row then f row else row } := by
  have hrows := Table.overlay_filter p f hf hnodup
  simp [overlay, List.filterMap_map, Function.comp_def, Write.partner?, Write.material?,
    Write.job?, List.filterMap_eq_map', ← hrows]

theorem overlay_newMaterial (hfresh : ∀ r ∈ db.materials, r.id ≠ m.id) :
    db.overlay [.material m none] = { db with materials := db.materials ++ [m] } := by
  simp [overlay, List.filterMap_cons, Write.partner?, Write.material?, Write.job?,
    Table.upsert_of_fresh hfresh]

theorem overlay_newJob (hfresh : ∀ r ∈ db.jobs, r.id ≠ job.id) :
    db.overlay [.job job none] = { db with jobs := db.jobs ++ [job] } := by
  simp [overlay, List.filterMap_cons, Write.partner?, Write.material?, Write.job?,
    Table.upsert_of_fresh hfresh]

/-- Only these two tables count. -/
theorem Valid.congr (h : db.Valid uuid) (hmaterials : db'.materials = db.materials)
    (hjobs : db'.jobs = db.jobs) : db'.Valid uuid := by
  constructor
  · rw [hmaterials]
    exact h.materialIds
  · rw [hjobs]
    exact h.jobIds
  · rw [hmaterials, hjobs]
    exact h.jobMaterial
  · rw [hjobs]
    exact h.jobKeys

theorem Agreement.congr (h : db.Agreement) (hmaterials : db'.materials = db.materials)
    (hjobs : db'.jobs = db.jobs) : db'.Agreement := by
  intro m hm
  rw [hmaterials] at hm
  rw [jobsOf, hjobs]
  exact h m hm

theorem Steady.congr (h : db.Steady uuid) (hmaterials : db'.materials = db.materials)
    (hjobs : db'.jobs = db.jobs) : db'.Steady uuid :=
  ⟨h.valid.congr hmaterials hjobs, h.agreement.congr hmaterials hjobs⟩

theorem Valid.updateMaterials (h : db.Valid uuid) {f : MaterialRow → MaterialRow}
    (hf : ∀ row, (f row).core = row.core) :
    ({ db with materials := db.materials.map f } : Db).Valid uuid where
  materialIds := by
    have hid : MaterialRow.id ∘ f = MaterialRow.id :=
      funext fun row ↦ (MaterialRow.core_eq_iff.mp (hf row)).1
    rw [List.map_map, hid]
    exact h.materialIds
  jobIds := h.jobIds
  jobMaterial job hjob := by
    obtain ⟨m, hm, hof⟩ := h.jobMaterial job hjob
    exact ⟨f m, List.mem_map_of_mem hm, hof.congr rfl (hf m)⟩
  jobKeys := h.jobKeys

theorem Valid.updateJobs (h : db.Valid uuid) {f : JobRow → JobRow}
    (hf : ∀ row, (f row).core = row.core) :
    ({ db with jobs := db.jobs.map f } : Db).Valid uuid where
  materialIds := h.materialIds
  jobIds := by
    have hid : JobRow.id ∘ f = JobRow.id :=
      funext fun row ↦ (JobRow.core_eq_iff.mp (hf row)).1
    rw [List.map_map, hid]
    exact h.jobIds
  jobMaterial job hjob := by
    obtain ⟨old, hold, rfl⟩ := List.mem_map.mp hjob
    obtain ⟨m, hm, hof⟩ := h.jobMaterial old hold
    exact ⟨m, hm, hof.congr (hf old) rfl⟩
  jobKeys job hjob := by
    obtain ⟨old, hold, rfl⟩ := List.mem_map.mp hjob
    obtain ⟨-, -, -, hmaterial, -, hkey, -⟩ := JobRow.core_eq_iff.mp (hf old)
    rw [hkey, hmaterial]
    exact h.jobKeys old hold

theorem Valid.newMaterial (h : db.Valid uuid) (hfresh : ∀ r ∈ db.materials, r.id ≠ m.id) :
    ({ db with materials := db.materials ++ [m] } : Db).Valid uuid where
  materialIds := by
    rw [List.map_append, List.map_singleton]
    apply h.materialIds.append (List.nodup_singleton _)
    rw [List.disjoint_singleton]
    intro hmem
    obtain ⟨r, hr, hid⟩ := List.mem_map.mp hmem
    exact hfresh r hr hid
  jobIds := h.jobIds
  jobMaterial job hjob := by
    obtain ⟨m', hm', hof⟩ := h.jobMaterial job hjob
    exact ⟨m', List.mem_append_left _ hm', hof⟩
  jobKeys := h.jobKeys

theorem Valid.newJob (h : db.Valid uuid) (hfresh : ∀ r ∈ db.jobs, r.id ≠ job.id)
    (hm : ∃ m ∈ db.materials, job.OfMaterial m)
    (hkey : job.idempotencyKey = extractionIdempotencyKey uuid job.materialId .extractDocument) :
    ({ db with jobs := db.jobs ++ [job] } : Db).Valid uuid where
  materialIds := h.materialIds
  jobIds := by
    rw [List.map_append, List.map_singleton]
    apply h.jobIds.append (List.nodup_singleton _)
    rw [List.disjoint_singleton]
    intro hmem
    obtain ⟨r, hr, hid⟩ := List.mem_map.mp hmem
    exact hfresh r hr hid
  jobMaterial other hother := by
    rcases List.mem_append.mp hother with hother | hother
    · exact h.jobMaterial other hother
    · rwa [List.mem_singleton.mp hother]
  jobKeys other hother := by
    rcases List.mem_append.mp hother with hother | hother
    · exact h.jobKeys other hother
    · rwa [List.mem_singleton.mp hother]

end Updates

/-! ## Retries and uploads -/

theorem jobsOf_map {f : JobRow → JobRow} (hf : ∀ row, (f row).materialId = row.materialId)
    (materials : List MaterialRow) (materialId : Uuid) :
    ({ db with materials := materials, jobs := db.jobs.map f } : Db).jobsOf materialId =
      (db.jobsOf materialId).map f := by
  simp [jobsOf, List.filter_map, Function.comp_def, hf]

/-- The job of a material is found by its key. -/
theorem Steady.exists_extraction (h : db.Steady uuid) {bureauId partnerId materialId : Uuid}
    (hm : m ∈ db.materials) (hmaterial : Sql.isMaterial bureauId partnerId materialId m = true) :
    ∃ job ∈ db.jobs, Sql.isExtractionOf bureauId partnerId materialId
      (extractionIdempotencyKey uuid materialId .extractDocument) job = true := by
  simp only [Sql.isMaterial, Sql.isMaterialOf, Bool.and_eq_true, decide_eq_true_eq] at hmaterial
  obtain ⟨⟨rfl, rfl⟩, rfl⟩ := hmaterial
  obtain ⟨job, hjob, -, hid, -⟩ := h.agreement.exists_job hm
  obtain ⟨hbureau, hpartner, -⟩ := h.valid.ofMaterial hm hjob hid
  refine ⟨job, hjob, ?_⟩
  simp [Sql.isExtractionOf, Sql.isJobOf, hbureau, hpartner, hid, h.valid.jobKeys job hjob]

/-- A retry puts the material and its job back together. -/
theorem Steady.retry (h : db.Steady uuid) (bureauId partnerId materialId : Uuid)
    (now now' : Timestamp) :
    ({ db with
      materials := db.materials.map fun row ↦
        if Sql.isMaterial bureauId partnerId materialId row then Sql.requeued now row else row
      jobs := db.jobs.map fun row ↦
        if Sql.isExtractionOf bureauId partnerId materialId
          (extractionIdempotencyKey uuid materialId .extractDocument) row
        then Sql.requeuedJob now' row else row } : Db).Steady uuid := by
  constructor
  · refine (h.valid.updateMaterials fun row ↦ ?_).updateJobs fun row ↦ ?_
    · split <;> rfl
    · split <;> rfl
  · intro m' hm'
    obtain ⟨old, hold, rfl⟩ := List.mem_map.mp hm'
    obtain ⟨job, hjob, hjobs, hid, hstep⟩ := h.agreement.exists_job hold
    have hsame : (if Sql.isMaterial bureauId partnerId materialId old then Sql.requeued now old
        else old).id = old.id := by
      split <;> rfl
    rw [hsame, jobsOf_map (fun row ↦ by split <;> rfl), hjobs]
    refine ⟨_, rfl, ?_⟩
    have hpicked : Sql.isExtractionOf bureauId partnerId materialId
        (extractionIdempotencyKey uuid materialId .extractDocument) job =
          Sql.isMaterial bureauId partnerId materialId old := by
      obtain ⟨hbureau, hpartner, -⟩ := h.valid.ofMaterial hold hjob hid
      by_cases hthis : old.id = materialId
      · simp [Sql.isExtractionOf, Sql.isJobOf, Sql.isMaterial, Sql.isMaterialOf, hbureau, hpartner,
          hid, hthis, h.valid.jobKeys job hjob]
      · simp [Sql.isExtractionOf, Sql.isMaterial, hid, hthis]
    dsimp only
    rw [hpicked]
    split
    · rfl
    · exact hstep

theorem Steady.exists_key (h : db.Steady uuid) (hm : m ∈ db.materials) :
    db.jobs.any (Sql.hasKey m.bureauId (extractionIdempotencyKey uuid m.id .extractDocument)) =
      true := by
  obtain ⟨job, hjob, -, hid, -⟩ := h.agreement.exists_job hm
  obtain ⟨hbureau, -⟩ := h.valid.ofMaterial hm hjob hid
  exact List.any_eq_true.mpr ⟨job, hjob,
    by simp [Sql.hasKey, hbureau, h.valid.jobKeys job hjob, hid]⟩

/-- A material that is new has no job yet. -/
theorem Valid.jobsOf_fresh (h : db.Valid uuid) {materialId : Uuid}
    (hfresh : ∀ r ∈ db.materials, r.id ≠ materialId) : db.jobsOf materialId = [] := by
  refine List.filter_eq_nil_iff.mpr fun job hjob hid ↦ ?_
  obtain ⟨m, hm, hof⟩ := h.jobMaterial job hjob
  exact hfresh m hm (hof.2.2.trans (of_decide_eq_true hid))

/-- An upload adds a material with its job. -/
theorem Steady.upload (h : db.Steady uuid) (hfresh : ∀ r ∈ db.materials, r.id ≠ m.id)
    (hjobFresh : ∀ r ∈ db.jobs, r.id ≠ job.id) (hof : job.OfMaterial m)
    (hkey : job.idempotencyKey = extractionIdempotencyKey uuid job.materialId .extractDocument)
    (hstep : inStep m.status job.status = true) :
    ({ db with materials := db.materials ++ [m], jobs := db.jobs ++ [job] } : Db).Steady uuid := by
  constructor
  · exact (h.valid.newMaterial hfresh).newJob hjobFresh
      ⟨m, List.mem_append_right _ (List.mem_singleton_self m), hof⟩ hkey
  · intro m' hm'
    rw [jobsOf, List.filter_append]
    rcases List.mem_append.mp hm' with hm' | hm'
    · obtain ⟨job', hjobs, hstep'⟩ := h.agreement m' hm'
      have hother : job.materialId ≠ m'.id := fun hid ↦ hfresh m' hm' (hof.2.2.trans hid).symm
      exact ⟨job', by rw [← hjobs, jobsOf]; simp [hother], hstep'⟩
    · rw [List.mem_singleton.mp hm']
      refine ⟨job, ?_, hstep⟩
      have hnone := h.valid.jobsOf_fresh hfresh
      rw [jobsOf] at hnone
      rw [hnone, List.nil_append]
      simp [hof.2.2]

/-- A material that is inserted has a new identifier. -/
theorem fresh_of_materialsInsert {bureauId id : Uuid} {new : NewMaterial} {now : Timestamp}
    {row : MaterialRow} {writes : List Write}
    (h : (Sql.materialsInsert bureauId new).exec id now db = .ok (some row, writes)) :
    row = Sql.newMaterialRow bureauId new id now ∧ writes = [.material row none] ∧
      ∀ r ∈ db.materials, r.id ≠ row.id := by
  simp only [Sql.exec] at h
  split at h
  · cases h
  split at h
  · cases h
  split at h
  · cases h
  rename_i hid
  split at h
  · cases h
  cases h
  exact ⟨rfl, rfl, by simpa [Sql.newMaterialRow] using hid⟩

/-- A job that is inserted has a new identifier, and a material. -/
theorem fresh_of_jobsInsert {bureauId partnerId materialId id : Uuid} {kind : JobKind} {key : Text}
    {now : Timestamp} {row : JobRow} {writes : List Write}
    (h : (Sql.jobsInsert bureauId partnerId materialId kind key).exec id now db =
      .ok (some row, writes)) :
    row = Sql.newJobRow bureauId partnerId materialId kind key id now ∧
      writes = [.job row none] ∧ db.jobs.any (Sql.hasKey bureauId key) = false ∧
        (∀ r ∈ db.jobs, r.id ≠ row.id) ∧ ∃ m ∈ db.materials, row.OfMaterial m := by
  simp only [Sql.exec] at h
  split at h
  · cases h
  split at h
  · cases h
  rename_i hkey
  split at h
  · cases h
  rename_i hid
  split at h
  · cases h
  rename_i hmaterial
  cases h
  rw [Bool.not_eq_false, List.any_eq_true] at hmaterial
  obtain ⟨m, hm, hmaterial⟩ := hmaterial
  simp only [Sql.isMaterial, Sql.isMaterialOf, Bool.and_eq_true, decide_eq_true_eq] at hmaterial
  exact ⟨rfl, rfl, Bool.eq_false_iff.mpr hkey, by simpa [Sql.newJobRow] using hid, m, hm, hmaterial.1.1,
    hmaterial.1.2, hmaterial.2⟩

/-! ## Leases -/

theorem check_reclaimed {now : Timestamp} (h : job.check = true) :
    (Sql.reclaimed now job).check = true := by
  simp only [JobRow.check, Bool.and_eq_true] at h ⊢
  refine ⟨⟨⟨⟨h.1.1.1.1, h.1.1.1.2⟩, rfl⟩, ?_⟩, rfl⟩
  simp only [Sql.reclaimed]
  split
  · decide
  · exact h.1.2

/-- A reclaim keeps the two tables in step exactly when it finds nothing to
reclaim. -/
theorem agreement_reclaim_iff (hvalid : db.Valid uuid) (hchecks : ∀ job ∈ db.jobs, job.check = true)
    (hagreement : db.Agreement) (bureauId id : Uuid) (now : Timestamp) :
    ∃ n writes, (Sql.jobsReclaim bureauId).exec id now db = .ok (n, writes) ∧
      ((db.overlay writes).Agreement ↔
        ∀ job ∈ db.jobs, Sql.isExpired bureauId now job = false) := by
  have hok : Sql.updateJobs db (Sql.isExpired bureauId now) (Sql.reclaimed now) = .ok
      ((db.jobs.filter (Sql.isExpired bureauId now)).map (Sql.reclaimed now),
        (db.jobs.filter (Sql.isExpired bureauId now)).map fun row ↦
          .job (Sql.reclaimed now row) (some row)) :=
    Sql.updateRows_eq_ok.mpr
      ⟨fun row hrow ↦ check_reclaimed (hchecks row (List.mem_of_mem_filter hrow)), rfl⟩
  refine ⟨_, _, by rw [Sql.exec, hok]; rfl, ?_⟩
  have hrows := overlay_updateJobs hvalid.jobIds (Sql.isExpired bureauId now)
    (f := Sql.reclaimed now) fun _ ↦ rfl
  dsimp only
  rw [hrows]
  constructor
  · intro hafter job hjob
    by_contra hexpired
    rw [Bool.not_eq_false] at hexpired
    obtain ⟨m, hm, hof⟩ := hvalid.jobMaterial job hjob
    have hrunning : job.status = .running := by
      simp only [Sql.isExpired, Bool.and_eq_true, decide_eq_true_eq] at hexpired
      exact hexpired.1.2
    have hbefore := hagreement.status hm hjob hof.2.2.symm
    have hmoved := hafter.status hm (List.mem_map_of_mem hjob)
      (show (if Sql.isExpired bureauId now job then Sql.reclaimed now job else job).materialId =
        m.id by rw [hexpired, if_pos rfl]; exact hof.2.2.symm)
    rw [hexpired, if_pos rfl] at hmoved
    rw [hrunning] at hbefore
    simp only [Sql.reclaimed] at hmoved
    -- the material of a running job is `processing`, and stays so
    cases hstatus : m.status <;> rw [hstatus] at hbefore hmoved
    · exact absurd hbefore (by decide)
    · split at hmoved <;> exact absurd hmoved (by decide)
    all_goals exact absurd hbefore (by decide)
  · intro hnone
    have hsame : (db.jobs.map fun job ↦
        if Sql.isExpired bureauId now job then Sql.reclaimed now job else job) = db.jobs := by
      refine (List.map_congr_left fun job hjob ↦ ?_).trans (List.map_id db.jobs)
      rw [hnone job hjob, if_neg Bool.false_ne_true]
      rfl
    exact hagreement.congr rfl hsame

end Db

end Otdel
