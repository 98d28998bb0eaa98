import Otdel.Server.IntakeSafety
import Otdel.Server.TxSafety

/-!
# Recording an upload is safe

The row of a stored content is inserted with its job, or the row that an
identical upload has inserted is found.  Neither of the two lookups after a
conflict comes back empty.
-/

namespace Otdel

open Program Versions

variable {ι : Type} [Fintype ι] [DecidableEq ι] {store : Store} {requests : ι → Request}
  {w w' : World ι} {i : ι} {bureauId partnerId : Uuid} {writes : List Write}

/-- The partner is committed. -/
def HasPartner (bureauId partnerId : Uuid) (w : World ι) : Prop :=
  ∃ q ∈ w.db.partners, q.bureauId = bureauId ∧ q.id = partnerId

omit [Fintype ι] [DecidableEq ι] in
theorem HasPartner.grows (h : HasPartner bureauId partnerId w) (hgrows : w.Grows w') :
    HasPartner bureauId partnerId w' := by
  obtain ⟨q, hq, hbureau, hid⟩ := h
  obtain ⟨q', hq', hcore⟩ := hgrows.partners q hq
  obtain ⟨hid', hbureau', -⟩ := PartnerRow.core_eq_iff.mp hcore
  exact ⟨q', hq', hbureau'.trans hbureau, hid'.trans hid⟩

/-- A committed row of this partner with this digest and identifier. -/
def HasRow (bureauId partnerId : Uuid) (sha256 : Text) (id : Uuid) (w : World ι) : Prop :=
  ∃ row ∈ w.db.materials, row.id = id ∧ Sql.hasDigest bureauId partnerId sha256 row = true

omit [Fintype ι] [DecidableEq ι] in
theorem hasDigest_congr {row row' : MaterialRow} {sha256 : Text} (hcore : row'.core = row.core) :
    Sql.hasDigest bureauId partnerId sha256 row' = Sql.hasDigest bureauId partnerId sha256 row := by
  obtain ⟨-, hbureau, hpartner, -, -, -, hsha, -⟩ := MaterialRow.core_eq_iff.mp hcore
  simp only [Sql.hasDigest, Sql.isMaterialOf, hbureau, hpartner, hsha]

omit [Fintype ι] [DecidableEq ι] in
theorem HasRow.grows {sha256 : Text} {id : Uuid} (h : HasRow bureauId partnerId sha256 id w)
    (hgrows : w.Grows w') : HasRow bureauId partnerId sha256 id w' := by
  obtain ⟨row, hrow, hid, hdigest⟩ := h
  obtain ⟨row', hrow', hcore⟩ := hgrows.materials row hrow
  exact ⟨row', hrow', (materialScheme.id_core hcore).trans hid,
    (hasDigest_congr hcore).trans hdigest⟩

omit [Fintype ι] [DecidableEq ι] in
/-- A partner belongs to one bureau, so a row of the partner is one of the
bureau. -/
theorem Kept.bureau_of_partner (hw : Kept store requests w) (i : ι)
    (hpartner : HasPartner bureauId partnerId w) {row : MaterialRow} (hrow : row ∈ w.db.materials)
    (hid : row.partnerId = partnerId) : row.bureauId = bureauId := by
  obtain ⟨q, hq, hbureau, hq'⟩ := hpartner
  obtain ⟨p, hp, hpbureau, hpid⟩ := hw.consistent.materialPartner.rows row hrow
  have hsame : p.id = q.id := by rw [hpid, hid, hq']
  have hcore : p.core = q.core :=
    hw.consistent.partners.core p q ⟨i, Or.inl hp⟩ ⟨i, Or.inl hq⟩ hsame
  rw [← hpbureau, (PartnerRow.core_eq_iff.mp hcore).2.1, hbureau]

/-- After the insert: the new row is pending, or there is an older one. -/
def Inserted (i : ι) (bureauId partnerId : Uuid) (sha256 : Text) :
    InsertOutcome → World ι → Prop
  | .created m, w => ∃ row : MaterialRow, row.id = m.id ∧
      Sql.hasDigest bureauId partnerId sha256 row = true ∧
        InTx i bureauId [.material row none] w
  | .duplicate m, w => HasRow bureauId partnerId sha256 m.id w ∧ InTx i bureauId [] w

omit [Fintype ι] [DecidableEq ι] in
theorem stable_inserted {sha256 : Text} : Stable i (Inserted i bureauId partnerId sha256) := by
  rintro (m | m) w₁ w₂ h hrely
  · obtain ⟨row, hid, hdigest, htx⟩ := h
    exact ⟨row, hid, hdigest, htx.stable hrely rfl⟩
  · exact ⟨h.1.grows hrely.grows, h.2.stable hrely rfl⟩

/-- The lookup after a conflict finds the row that caused it. -/
theorem safe_findByDigest (hinv : Kept store requests w) (hw : InTx i bureauId [] w) {sha256 : Text} {id : Uuid}
    (hrow : HasRow bureauId partnerId sha256 id w) (tx : ScopedTx) (htx : tx.bureauId = bureauId) :
    Safe store requests i
      (Ends (fun found w' ↦ ∃ m, found = some m ∧ HasRow bureauId partnerId sha256 m.id w' ∧
        InTx i bureauId [] w') (Failed i))
      (Materials.findByDigest tx partnerId sha256) w := by
  subst htx
  have hstable : ∀ {α : Type} (f : α → Option Uuid), Stable i fun a w' ↦ ∃ id, f a = some id ∧
      HasRow tx.bureauId partnerId sha256 id w' ∧ InTx i tx.bureauId [] w' := by
    rintro α f a w₁ w₂ ⟨id, ha, hrow, htx⟩ hrely
    exact ⟨id, ha, hrow.grows hrely.grows, htx.stable hrely rfl⟩
  have hfind : Safe store requests i
      (Ends (fun (found : Option MaterialRow) w' ↦ ∃ id, found.map MaterialRow.id = some id ∧
        HasRow tx.bureauId partnerId sha256 id w' ∧ InTx i tx.bureauId [] w') (Failed i))
      (runStatement (.materialsByDigest tx.bureauId partnerId sha256)) w := by
    apply safe_statement hw _ (hstable _)
    · intro w₁ id now answer added w₂ hrely hinv₁ htx₁ hexec hdb _ htx₂
      have hview : w₁.view i = w₁.db := by rw [World.view, htx₁.pending, Db.overlay_nil]
      simp only [Sql.exec, hview] at hexec
      cases hexec
      obtain ⟨row, hrow, -, hdigest⟩ := hrow.grows hrely.grows
      cases hfound : w₁.db.materials.find? (Sql.hasDigest tx.bureauId partnerId sha256) with
      | none => exact absurd hdigest (by simpa using List.find?_eq_none.mp hfound row hrow)
      | some found =>
          refine ⟨found.id, rfl, ⟨found, ?_, rfl, List.find?_some hfound⟩, by simpa using htx₂⟩
          rw [hdb]
          exact List.mem_of_find?_eq_some hfound
    · exact fun _ _ _ ↦ trivial
  have hend : Stable i (Ends (fun (found : Option Material) w' ↦ ∃ m, found = some m ∧
      HasRow tx.bureauId partnerId sha256 m.id w' ∧ InTx i tx.bureauId [] w') (Failed i)) := by
    apply Stable.ends _ stable_failed
    rintro found w₁ w₂ ⟨m, hm, hrow, htx⟩ hrely
    exact ⟨m, hm, hrow.grows hrely.grows, htx.stable hrely rfl⟩
  apply safe_andThen hinv hfind hend
  · exact fun e w₁ _ h ↦ h
  · rintro found w₁ _ _ ⟨id, hid, hrow, htx⟩
    apply safe_return _ hend
    obtain ⟨row, hfound, rfl⟩ := Option.map_eq_some_iff.mp hid
    exact ⟨materialFromRow row, by rw [hfound]; rfl, hrow, htx⟩

/-- Inserting a material, or finding the one that was inserted first. -/
theorem safe_insert (hinv : Kept store requests w) (hw : InTx i bureauId [] w)
    (hpartner : HasPartner bureauId partnerId w) {new : NewMaterial}
    (hnew : new.partnerId = partnerId)
    (horiginal : ∀ id now,
      IsOriginal store requests w.objects (Sql.newMaterialRow bureauId new id now))
    (tx : ScopedTx) (htx : tx.bureauId = bureauId) :
    Safe store requests i (Ends (Inserted i bureauId partnerId new.sha256) (Failed i))
      (Materials.insert tx new) w := by
  subst htx
  have hinsert : Safe store requests i
      (Ends (fun (answer : Option MaterialRow) w' ↦
        (∃ row, answer = some row ∧ Sql.hasDigest tx.bureauId partnerId new.sha256 row = true ∧
          InTx i tx.bureauId [.material row none] w') ∨
        (answer = none ∧ InTx i tx.bureauId [] w' ∧
          ∃ id, HasRow tx.bureauId partnerId new.sha256 id w')) (Failed i))
      (runStatement (.materialsInsert tx.bureauId new)) w := by
    apply safe_statement hw
    · intro w₁ hrely _ id now
      exact (horiginal id now).congr rfl hrely.grows.objects
    · rintro answer w₁ w₂ (⟨row, hrow, hdigest, htx⟩ | ⟨hnone, htx, id, hrow⟩) hrely
      · exact Or.inl ⟨row, hrow, hdigest, htx.stable hrely rfl⟩
      · exact Or.inr ⟨hnone, htx.stable hrely rfl, id, hrow.grows hrely.grows⟩
    · intro w₁ id now answer added w₂ hrely hinv₁ htx₁ hexec hdb _ htx₂
      have hview : w₁.view i = w₁.db := by rw [World.view, htx₁.pending, Db.overlay_nil]
      rcases Sql.exec_materialsInsert hexec with ⟨rfl, rfl⟩ | ⟨rfl, rfl, r, hr, hid, hsha⟩
      · refine Or.inl ⟨_, rfl, ?_, htx₂⟩
        simp [Sql.hasDigest, Sql.isMaterialOf, Sql.newMaterialRow, hnew]
      · refine Or.inr ⟨rfl, htx₂, r.id, r, ?_, rfl, ?_⟩
        · rw [hdb]
          rwa [hview] at hr
        · rw [hview] at hr
          have hbureau := hinv₁.bureau_of_partner i (hpartner.grows hrely.grows) hr
            (hid.trans hnew)
          simp [Sql.hasDigest, Sql.isMaterialOf, hbureau, hid, hnew, hsha]
  have hend : Stable i (Ends (Inserted i tx.bureauId partnerId new.sha256) (Failed i)) :=
    stable_inserted.ends stable_failed
  apply safe_andThen hinv hinsert hend
  · exact fun e w₁ _ h ↦ h
  · rintro answer w₁ hinv₁ _ (⟨row, rfl, hdigest, htx⟩ | ⟨rfl, htx, id, hrow⟩)
    · exact safe_return ⟨row, rfl, hdigest, htx⟩ hend
    · dsimp only
      rw [hnew]
      apply safe_andThen hinv₁ (safe_findByDigest hinv₁ htx hrow tx rfl) hend
      · exact fun e w₂ _ h ↦ h
      · rintro found w₂ _ _ ⟨m, rfl, hrow, htx⟩
        exact safe_return ⟨hrow, htx⟩ hend

/-- The transaction sees this material, perhaps in another version. -/
def Seen (i : ι) (row : MaterialRow) (w : World ι) : Prop :=
  ∃ r, w.materials.Visible i r ∧ r.core = row.core

/-- The transaction sees a job of this material. -/
def HasJob (i : ι) (row : MaterialRow) (w : World ι) : Prop :=
  ∃ job, w.jobs.Visible i job ∧ job.OfMaterial row

omit [Fintype ι] [DecidableEq ι] in
theorem HasJob.stable {row : MaterialRow} {o : Option Op} (h : HasJob i row w)
    (hrely : World.Rely i o w w') (ho : o.any Op.detached = false) : HasJob i row w' := by
  obtain ⟨job, hjob, hof⟩ := h
  obtain ⟨job', hjob', hcore⟩ := hrely.visible_job ho hjob
  exact ⟨job', hjob', hof.congr hcore rfl⟩

omit [Fintype ι] [DecidableEq ι] in
/-- The job of a material has the key of the material. -/
theorem HasJob.hasKey (hw : Kept store requests w) {row : MaterialRow} (h : HasJob i row w) :
    ∃ job ∈ (w.view i).jobs, Sql.hasKey row.bureauId
      (extractionIdempotencyKey store.uuid row.id .extractDocument) job = true := by
  obtain ⟨job, hjob, hof⟩ := h
  obtain ⟨job', hjob', hcore⟩ := hw.consistent.jobs.exists_view hjob
  obtain ⟨-, hbureau, -, -, -, hkey, -⟩ := JobRow.core_eq_iff.mp hcore
  refine ⟨job', hjob', ?_⟩
  have hkey' := hw.jobKeys job hjob.known
  rw [← hof.2.2] at hkey'
  simp [Sql.hasKey, hbureau, hkey, hkey', hof.1]

omit [Fintype ι] [DecidableEq ι] in
/-- The key of a material leads to its job. -/
theorem Seen.hasJob (hw : Kept store requests w) {row : MaterialRow} (h : Seen i row w)
    {job : JobRow} (hjob : job ∈ (w.view i).jobs)
    (hkey : Sql.hasKey row.bureauId
      (extractionIdempotencyKey store.uuid row.id .extractDocument) job = true) :
    HasJob i row w := by
  have hvisible := World.visible_job hjob
  obtain ⟨q, hq, hof⟩ := hw.consistent.jobMaterial.visible hvisible
  obtain ⟨r, hr, hcore⟩ := h
  simp only [Sql.hasKey, Bool.and_eq_true, decide_eq_true_eq] at hkey
  have hmaterial : job.materialId = row.id := by
    apply extractionIdempotencyKey_injective store.uuid .extractDocument
    rw [← hw.jobKeys job hvisible.known, hkey.2]
  have hid : q.id = r.id := by
    rw [hof.2.2, hmaterial]
    exact (materialScheme.id_core hcore).symm
  have hsame : q.core = r.core := hw.consistent.materials.core q r hq.known hr.known hid
  exact ⟨job, hvisible, hof.congr rfl (hsame.trans hcore).symm⟩

/-- What enqueueing leaves: the material has a job, and nothing was written if
it was committed before. -/
def Enqueued (i : ι) (bureauId : Uuid) (writes : List Write) (row : MaterialRow)
    (committed : Prop) (w : World ι) : Prop :=
  ∃ added, InTx i bureauId (writes ++ added) w ∧ HasJob i row w ∧
    (∀ r, .material r none ∉ added) ∧ (committed → added = [])

omit [Fintype ι] [DecidableEq ι] in
theorem Enqueued.stable {row : MaterialRow} {committed : Prop} {o : Option Op}
    (h : Enqueued i bureauId writes row committed w) (hrely : World.Rely i o w w')
    (ho : o.any Op.detached = false) : Enqueued i bureauId writes row committed w' := by
  obtain ⟨added, htx, hjob, hno, hcommitted⟩ := h
  exact ⟨added, htx.stable hrely ho, hjob.stable hrely ho, hno, hcommitted⟩

theorem safe_jobsInsert (hw : InTx i bureauId writes w) {row : MaterialRow} {committed : Prop}
    (hseen : ∀ w', w.Grows w' → w'.pending i = writes → Seen i row w')
    (hcommitted : committed → ∀ w', w.Grows w' → ∃ r ∈ w'.db.materials, r.core = row.core)
    (hbureau : row.bureauId = bureauId) (hpartner : row.partnerId = partnerId) :
    Safe store requests i
      (Ends (fun _ ↦ Enqueued i bureauId writes row committed) (Failed i))
      (runStatement (.jobsInsert bureauId partnerId row.id .extractDocument
        (extractionIdempotencyKey store.uuid row.id .extractDocument))) w := by
  subst hbureau hpartner
  apply safe_statement hw
  · exact fun _ _ _ ↦ rfl
  · exact fun _ _ _ h hrely ↦ h.stable hrely rfl
  · intro w₁ id now answer added w₂ hrely hinv₁ htx₁ hexec hdb hinv₂ htx₂
    rcases Sql.exec_jobsInsert hexec with ⟨rfl, rfl, hnew⟩ | ⟨rfl, rfl, job, hjob, hkey⟩
    · have hpending : Write.job (Sql.newJobRow row.bureauId row.partnerId row.id .extractDocument
          (extractionIdempotencyKey store.uuid row.id .extractDocument) id now) none ∈
            w₂.pending i := by
        rw [htx₂.pending]
        exact List.mem_append_right _ (List.mem_singleton.mpr rfl)
      refine ⟨_, htx₂, ⟨_, Or.inr ⟨_, World.mem_jobs_pending.mpr hpending, rfl⟩, rfl, rfl, rfl⟩,
        by simp, ?_⟩
      -- a committed material has its job already
      intro hc
      obtain ⟨r, hr, hcore⟩ := hcommitted hc w₁ hrely.grows
      obtain ⟨job, hjob, hof⟩ := hinv₁.queued r hr
      have hjob' : HasJob i row w₁ := ⟨job, Or.inl hjob, hof.congr rfl hcore.symm⟩
      obtain ⟨job', hmem, hkey⟩ := hjob'.hasKey hinv₁
      rw [hnew job' hmem] at hkey
      cases hkey
    · have hjob' := (hseen w₁ hrely.grows htx₁.pending).hasJob hinv₁ hjob hkey
      refine ⟨[], htx₂, ?_, by simp, fun _ ↦ rfl⟩
      obtain ⟨found, hfound | ⟨v, hv, rfl⟩, hof⟩ := hjob'
      · exact ⟨found, Or.inl (by simpa [World.jobs, hdb] using hfound), hof⟩
      · refine ⟨v.1, Or.inr ⟨v, ?_, rfl⟩, hof⟩
        rw [World.mem_jobs_pending, htx₂.pending, List.append_nil, ← htx₁.pending]
        exact World.mem_jobs_pending.mp hv

theorem safe_enqueueExtraction (hinv : Kept store requests w)
    (hw : InTx i bureauId writes w) {row : MaterialRow} {committed : Prop}
    (hseen : ∀ w', w.Grows w' → w'.pending i = writes → Seen i row w')
    (hcommitted : committed → ∀ w', w.Grows w' → ∃ r ∈ w'.db.materials, r.core = row.core)
    (hbureau : row.bureauId = bureauId) (hpartner : row.partnerId = partnerId)
    (tx : ScopedTx) (htx : tx.bureauId = bureauId) :
    Safe store requests i
      (Ends (fun _ ↦ Enqueued i bureauId writes row committed) (Failed i))
      (Jobs.enqueueExtraction store.uuid tx partnerId row.id) w := by
  subst htx
  have hend : ∀ {α : Type}, Stable i (Ends
      (fun (_ : α) ↦ Enqueued i tx.bureauId writes row committed) (Failed i)) :=
    Stable.ends (fun _ _ _ h hrely ↦ h.stable hrely rfl) stable_failed
  apply safe_andThen hinv (safe_jobsInsert hw hseen hcommitted hbureau hpartner) hend
  · exact fun e w₁ _ h ↦ h
  · rintro (_ | job) w₁ hinv₁ _ hw₁
    · have hfind : Safe store requests i
          (Ends (fun (found : Option JobRow) w' ↦ found.isSome = true ∧
            Enqueued i tx.bureauId writes row committed w') (Failed i))
          (runStatement (.jobsByKey tx.bureauId
            (extractionIdempotencyKey store.uuid row.id .extractDocument))) w₁ := by
        obtain ⟨added, htx₁, hjob₁, hno, hnil⟩ := hw₁
        apply safe_statement htx₁
        · exact fun _ _ _ ↦ trivial
        · exact fun _ _ _ h hrely ↦ ⟨h.1, h.2.stable hrely rfl⟩
        · intro w₂ id now answer added' w₃ hrely hinv₂ htx₂ hexec hdb _ htx₃
          have hjob₂ := hjob₁.stable hrely rfl
          obtain ⟨job, hmem, hkey⟩ := hjob₂.hasKey hinv₂
          rw [hbureau] at hkey
          simp only [Sql.exec] at hexec
          cases hexec
          refine ⟨List.find?_isSome.mpr ⟨job, hmem, hkey⟩, added, by simpa using htx₃, ?_, hno,
            hnil⟩
          obtain ⟨found, hfound | ⟨v, hv, rfl⟩, hof⟩ := hjob₂
          · exact ⟨found, Or.inl (by simpa [World.jobs, hdb] using hfound), hof⟩
          · refine ⟨v.1, Or.inr ⟨v, ?_, rfl⟩, hof⟩
            rw [World.mem_jobs_pending, htx₃.pending, List.append_nil, ← htx₂.pending]
            exact World.mem_jobs_pending.mp hv
      apply safe_andThen hinv₁ hfind hend
      · exact fun e w₂ _ h ↦ h
      · rintro found w₂ _ _ ⟨hfound, hw₂⟩
        obtain ⟨job, rfl⟩ := Option.isSome_iff_exists.mp hfound
        exact safe_return hw₂ hend
    · exact safe_return hw₁ hend

/-! ## The publishing transaction -/

/-- What a successful publication has committed. -/
def Recorded (i : ι) (bureauId partnerId : Uuid) (sha256 : Text) : InsertOutcome → World ι → Prop
  | .created m, w => HasRow bureauId partnerId sha256 m.id w ∧
      ∃ writes, Published i writes w ∧ (∃ row, .material row none ∈ writes) ∧
        ∀ row, .material row none ∈ writes → row.id = m.id
  | .duplicate m, w => HasRow bureauId partnerId sha256 m.id w ∧ Published i [] w

omit [Fintype ι] [DecidableEq ι] in
theorem stable_recorded {sha256 : Text} : Stable i (Recorded i bureauId partnerId sha256) := by
  rintro (m | m) w₁ w₂ h hrely
  · obtain ⟨hrow, writes, hpublished, hmem⟩ := h
    exact ⟨hrow.grows hrely.grows, writes, hpublished.stable hrely, hmem⟩
  · exact ⟨h.1.grows hrely.grows, h.2.stable hrely⟩

theorem safe_commitCreated (hinv : Kept store requests w) {row : MaterialRow} {m : Material}
    {sha256 : Text} (hid : row.id = m.id)
    (hdigest : Sql.hasDigest bureauId partnerId sha256 row = true)
    (hw : Enqueued i bureauId [.material row none] row False w) (tx : ScopedTx) :
    Safe store requests i
      (Ends (Recorded i bureauId partnerId sha256) (Uncommitted i))
      (do
        tx.commit
        return InsertOutcome.created m : TryProg DbError InsertOutcome) w := by
  obtain ⟨added, htx, hjob, hno, -⟩ := hw
  have honly : ∀ r, Write.material r none ∈ [.material row none] ++ added → r = row := by
    intro r hr
    rcases List.mem_append.mp hr with hr | hr
    · rw [List.mem_singleton] at hr
      cases hr
      rfl
    · exact absurd hr (hno r)
  have hend : ∀ {α : Type} (f : α → InsertOutcome), Stable i (Ends
      (fun a ↦ Recorded i bureauId partnerId sha256 (f a)) (Uncommitted i)) :=
    fun f ↦ Stable.ends (fun a ↦ stable_recorded (f a)) stable_uncommitted
  have hcommit : Safe store requests i
      (Ends (fun _ ↦ Recorded i bureauId partnerId sha256 (.created m)) (Uncommitted i))
      tx.commit w := by
    apply safe_commit htx
    · intro w₁ hrely _ r hr
      rw [(htx.stable hrely rfl).pending] at hr
      rw [honly r hr]
      exact hjob.stable hrely rfl
    · exact fun w₁ w₂ h hrely ↦ stable_recorded _ w₁ w₂ h hrely
    · intro w₁ w₂ hrely hinv₁ hdb hpending hpublished
      have hrow : w₁.materials.Visible i row := by
        refine Or.inr ⟨(row, none), ?_, rfl⟩
        rw [World.mem_materials_pending, hpending]
        exact List.mem_append_left _ (List.mem_singleton.mpr rfl)
      obtain ⟨row', hrow', hcore⟩ := hinv₁.consistent.materials.exists_view hrow
      refine ⟨⟨row', ?_, (materialScheme.id_core hcore).trans hid,
        (hasDigest_congr hcore).trans hdigest⟩, _, hpublished, ⟨row, by simp⟩, ?_⟩
      · rw [hdb]
        exact hrow'
      · intro r hr
        rw [honly r hr, hid]
  apply safe_andThen hinv hcommit (hend id)
  · exact fun e w₁ _ h ↦ h
  · exact fun _ w₁ _ _ h ↦ safe_return h (hend id)

theorem safe_commitDuplicate (hinv : Kept store requests w) {row : MaterialRow} {m : Material}
    {sha256 : Text} (hrow : HasRow bureauId partnerId sha256 m.id w)
    (hw : Enqueued i bureauId [] row True w) (tx : ScopedTx) :
    Safe store requests i
      (Ends (Recorded i bureauId partnerId sha256) (Uncommitted i))
      (do
        tx.commit
        return InsertOutcome.duplicate m : TryProg DbError InsertOutcome) w := by
  obtain ⟨added, htx, -, -, hnil⟩ := hw
  rw [hnil trivial, List.append_nil] at htx
  have hend : ∀ {α : Type} (f : α → InsertOutcome), Stable i (Ends
      (fun a ↦ Recorded i bureauId partnerId sha256 (f a)) (Uncommitted i)) :=
    fun f ↦ Stable.ends (fun a ↦ stable_recorded (f a)) stable_uncommitted
  have hcommit : Safe store requests i
      (Ends (fun _ ↦ Recorded i bureauId partnerId sha256 (.duplicate m)) (Uncommitted i))
      tx.commit w := by
    apply safe_commit htx
    · intro w₁ hrely _ r hr
      rw [(htx.stable hrely rfl).pending] at hr
      cases hr
    · exact fun w₁ w₂ h hrely ↦ stable_recorded _ w₁ w₂ h hrely
    · intro w₁ w₂ hrely hinv₁ hdb hpending hpublished
      rw [World.view, hpending, Db.overlay_nil] at hdb
      obtain ⟨row', hrow', hid, hdigest⟩ := hrow.grows hrely.grows
      exact ⟨⟨row', hdb ▸ hrow', hid, hdigest⟩, hpublished⟩
  apply safe_andThen hinv hcommit (hend id)
  · exact fun e w₁ _ h ↦ h
  · exact fun _ w₁ _ _ h ↦ safe_return h (hend id)

/-- The row and its queue entry are published together, or neither is. -/
theorem safe_publish {state : AppState} (hinv : Kept state.store requests w) (hw : Idle i w)
    {session : Session} (hpartner : HasPartner session.bureauId partnerId w) {new : NewMaterial}
    (hnew : new.partnerId = partnerId)
    (horiginal : ∀ id now, IsOriginal state.store requests w.objects
      (Sql.newMaterialRow session.bureauId new id now)) :
    Safe state.store requests i
      (Ends (Recorded i session.bureauId partnerId new.sha256) (Uncommitted i))
      (Routes.publish state session partnerId new) w := by
  have hend : Stable i (Ends (Recorded i session.bureauId partnerId new.sha256) (Uncommitted i)) :=
    stable_recorded.ends stable_uncommitted
  apply safe_andThen hinv (safe_begin hinv hw session.bureauId) hend
  · exact fun e w₁ _ h ↦ h.uncommitted
  · rintro tx w₁ hinv₁ hgrows₁ ⟨htx, hw₁⟩
    have horiginal₁ : ∀ id now, IsOriginal state.store requests w₁.objects
        (Sql.newMaterialRow session.bureauId new id now) :=
      fun id now ↦ (horiginal id now).congr rfl hgrows₁.objects
    apply safe_andThen hinv₁
      (safe_insert hinv₁ hw₁ (hpartner.grows hgrows₁) hnew horiginal₁ tx htx) hend
    · exact fun e w₂ _ h ↦ h.uncommitted
    · rintro (m | m) w₂ hinv₂ _ h
      · obtain ⟨row, hid, hdigest, hw₂⟩ := h
        have hof := hdigest
        simp only [Sql.hasDigest, Sql.isMaterialOf, Bool.and_eq_true, decide_eq_true_eq] at hof
        have hseen : ∀ w', w₂.Grows w' → w'.pending i = [.material row none] → Seen i row w' := by
          intro w' _ hpending
          refine ⟨row, Or.inr ⟨(row, none), ?_, rfl⟩, rfl⟩
          rw [World.mem_materials_pending, hpending]
          exact List.mem_singleton.mpr rfl
        have henqueue := safe_enqueueExtraction hinv₂ hw₂ hseen False.elim hof.1.1 hof.1.2 tx htx
        rw [hid] at henqueue
        apply safe_andThen hinv₂ henqueue hend
        · exact fun e w₃ _ h ↦ h.uncommitted
        · exact fun _ w₃ hinv₃ _ hw₃ ↦ safe_commitCreated hinv₃ hid hdigest hw₃ tx
      · obtain ⟨hrow, hw₂⟩ := h
        obtain ⟨row, hmem, hid, hdigest⟩ := hrow
        have hof := hdigest
        simp only [Sql.hasDigest, Sql.isMaterialOf, Bool.and_eq_true, decide_eq_true_eq] at hof
        have hcommitted : True → ∀ w', w₂.Grows w' → ∃ r ∈ w'.db.materials, r.core = row.core :=
          fun _ w' hgrows ↦ hgrows.materials row hmem
        have hseen : ∀ w', w₂.Grows w' → w'.pending i = [] → Seen i row w' := by
          intro w' hgrows _
          obtain ⟨r, hr, hcore⟩ := hcommitted trivial w' hgrows
          exact ⟨r, Or.inl hr, hcore⟩
        have henqueue :=
          safe_enqueueExtraction hinv₂ hw₂ hseen hcommitted hof.1.1 hof.1.2 tx htx
        rw [hid] at henqueue
        apply safe_andThen hinv₂ henqueue hend
        · exact fun e w₃ _ h ↦ h.uncommitted
        · intro _ w₃ hinv₃ hgrows₃ hw₃
          have hrow₂ : HasRow session.bureauId partnerId new.sha256 m.id w₂ :=
            ⟨row, hmem, hid, hdigest⟩
          exact safe_commitDuplicate hinv₃ (hrow₂.grows hgrows₃) hw₃ tx

end Otdel
