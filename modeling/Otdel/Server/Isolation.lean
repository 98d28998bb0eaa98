import Otdel.Server.Handlers
import Otdel.Server.Scoped
import Otdel.Server.Serving

/-!
# Tenants do not see each other

A request of a bureau, or about one partner of it, performs operations about its
scope only.  So it answers alike in all states that have the same rows and
objects of the scope, and changes nothing outside.
-/

namespace Otdel

open Program Versions Machine

variable {ι : Type}

/-- An operation that is about the scope in every world. -/
def Op.AlwaysAbout (store : Store) (s : Scope) (i : ι) (op : Op) : Prop :=
  ∀ w : World ι, op.About store s i w

section Always

variable {store : Store} {s : Scope} {i : ι}

theorem about_sql {st : Sql} (h : ∀ known, st.About s known) :
    Op.AlwaysAbout store s i (.sql st) :=
  fun w ↦ h w.known

theorem about_brackets (bureauId : Uuid) : Op.Brackets (Op.AlwaysAbout store s i) bureauId :=
  ⟨fun _ ↦ trivial, fun _ ↦ trivial, fun _ ↦ trivial⟩

end Always

variable [Fintype ι] [DecidableEq ι]

/-- The program performs operations about the scope only, while the server keeps
its invariant.  What an upload, a download or a retry may touch depends on what it
has read before, so their walks carry the state. -/
abbrev StaysIn (store : Store) (requests : ι → Request) (s : Scope) (i : ι) {α : Type}
    (Post : α → World ι → Prop) (p : Prog α) (w : World ι) : Prop :=
  (server ι).Abides i (Kept store requests) (fun op w ↦ op.About store s i w) Post p w

section Statements

variable {store : Store} {requests : ι → Request} {s : Scope} {i : ι} {w w' : World ι}
  {bureauId partnerId materialId : Uuid}

theorem stays_of_calls {α : Type} {p : Prog α} (h : p.Calls (Op.AlwaysAbout store s i)) :
    StaysIn store requests s i (fun _ _ ↦ True) p w :=
  Abides.of_calls h fun _ w hop ↦ hop w

theorem stays_await (op : Op) {Post : op.Ans → World ι → Prop}
    (habout : Kept store requests w → op.About store s i w)
    (h : Kept store requests w → ∀ choice a w', w.perform i op choice = some (a, w') →
      Post a w') :
    StaysIn store requests s i Post (await op) w :=
  fun hinv ↦ ⟨habout hinv, h hinv⟩

/-- The view after a statement that was carried out. -/
theorem view_of_sql {st : Sql} {choice : Choice} {answer : st.Answer}
    (h : w.perform i (.sql st) choice = some (.ok answer, w')) :
    ∃ id now writes, st.exec id now (w.view i) = .ok (answer, writes) ∧
      w'.view i = (w.view i).overlay writes := by
  cases hopen : w.tx i with
  | none =>
      cases choice with
      | granted id now =>
          simp only [World.perform, World.grant, World.runSql, hopen] at h
          cases h
      | failed | lost | listed => cases h
  | some tx =>
      rcases perform_sql hopen h with ⟨id, answer', writes, hanswer, hexec, rfl⟩ | ⟨e, he, -⟩
      · cases hanswer
        refine ⟨id, tx.now, writes, hexec, ?_⟩
        rw [World.view, World.view, World.pending_eq_of_tx hopen, ← Db.overlay_append]
        simp [World.pending, World.setTx]
      · cases he

theorem stays_statement (st : Sql) {Post : st.Answer → World ι → Prop}
    (habout : Kept store requests w → st.About s w.known)
    (hpost : Kept store requests w → ∀ id now answer writes w',
      st.exec id now (w.view i) = .ok (answer, writes) →
        w'.view i = (w.view i).overlay writes → Post answer w') :
    StaysIn store requests s i (Concludes Post fun _ ↦ True) (runStatement st) w := by
  apply stays_await (.sql st) habout
  intro hinv choice r w' hperform
  cases r with
  | ok answer =>
      obtain ⟨id, now, writes, hexec, hview⟩ := view_of_sql hperform
      exact hpost hinv id now answer writes w' hexec hview
  | error e => trivial

theorem stays_begin (bureauId : Uuid) :
    StaysIn store requests s i
      (Concludes (fun tx w' ↦ tx.bureauId = bureauId ∧ w'.db = w.db) fun _ ↦ True)
      (ScopedTx.begin bureauId) w := by
  have hbegin : StaysIn store requests s i
      (Concludes (fun (_ : Unit) w' ↦ w'.db = w.db) fun _ ↦ True) (await (.begin bureauId)) w := by
    apply stays_await (.begin bureauId) fun _ ↦ trivial
    intro _ choice r w' hperform
    cases choice with
    | granted id now =>
        cases hperform
        exact rfl
    | failed outage =>
        cases hperform
        trivial
    | lost | listed => cases hperform
  exact hbegin.andThen fun _ w' hdb ↦ Abides.return ⟨rfl, hdb⟩

/-- What a transaction has seen is committed when it commits. -/
theorem stays_commit (tx : ScopedTx) :
    StaysIn store requests s i (Concludes (fun _ w' ↦ w'.db = w.view i) fun _ ↦ True) tx.commit
      w := by
  apply stays_await .commit fun _ ↦ trivial
  intro _ choice r w' hperform
  cases choice with
  | granted id now =>
      simp only [World.perform, World.grant] at hperform
      split at hperform
      · cases hperform
        trivial
      · rename_i open' hopen
        cases hperform
        change w.db.overlay open'.writes = w.view i
        rw [World.view, World.pending_eq_of_tx hopen]
  | failed outage =>
      cases hperform
      trivial
  | lost =>
      obtain ⟨open', -, hfail⟩ := Option.bind_eq_some_iff.mp hperform
      cases hfail
      trivial
  | listed => cases hperform

theorem stays_leave {α : Type} (tx : ScopedTx) (error : ApiError) {Post : α → World ι → Prop} :
    StaysIn store requests s i (Concludes Post fun _ ↦ True)
      (Routes.leave tx error : TryProg ApiError α) w := by
  have hrollback : StaysIn store requests s i (fun _ _ ↦ True) tx.rollback w :=
    stays_await .rollback (fun _ ↦ trivial) fun _ _ _ _ _ ↦ trivial
  exact hrollback.liftThen fun _ _ _ ↦ Abides.fail trivial

/-! ## What inserts could clash with -/

omit [Fintype ι] [DecidableEq ι] in
/-- A partner belongs to one bureau, and so do its materials. -/
theorem Kept.about_materialsInsert (hw : Kept store requests w) (i : ι) {new : NewMaterial}
    (hs : s.holds bureauId new.partnerId = true)
    (hpartner : HasPartner bureauId new.partnerId w) :
    (Sql.materialsInsert bureauId new).About s w.known := by
  refine ⟨hs, ?_⟩
  rintro row ⟨j, hrow⟩ hid
  obtain ⟨p, hp, hof⟩ := hw.consistent.materialPartner.visible hrow
  obtain ⟨q, hq, hbureau, hqid⟩ := hpartner
  have hcore : p.core = q.core := by
    apply hw.consistent.partners.core p q hp.known ⟨i, Or.inl hq⟩
    exact hof.2.trans (hid.trans hqid.symm)
  rw [Scope.material, ← hof.1, (PartnerRow.core_eq_iff.mp hcore).2.1, hbureau, hid, hs]

/-- The transaction sees this material. -/
def SeesMaterial (i : ι) (bureauId partnerId materialId : Uuid) (w : World ι) : Prop :=
  ∃ row ∈ (w.view i).materials, Sql.isMaterial bureauId partnerId materialId row = true

omit [Fintype ι] [DecidableEq ι] in
/-- The key of a material is that of jobs of this material only. -/
theorem Kept.job_of_hasKey (hw : Kept store requests w)
    (hs : s.holds bureauId partnerId = true)
    (hsees : SeesMaterial i bureauId partnerId materialId w) (job : JobRow)
    (hjob : w.known.job job)
    (hkey : Sql.hasKey bureauId
      (extractionIdempotencyKey store.uuid materialId .extractDocument) job = true) :
    s.job job = true := by
  obtain ⟨j, hvisible⟩ := hjob
  obtain ⟨q, hq, hof⟩ := hw.consistent.jobMaterial.visible hvisible
  obtain ⟨row, hrow, his⟩ := hsees
  simp only [Sql.hasKey, Sql.isMaterial, Sql.isMaterialOf, Bool.and_eq_true,
    decide_eq_true_eq] at hkey his
  have hmaterial : job.materialId = materialId := by
    apply extractionIdempotencyKey_injective store.uuid .extractDocument
    rw [← hw.jobKeys job hvisible.known, hkey.2]
  have hcore : q.core = row.core := by
    apply hw.consistent.materials.core q row hq.known (World.visible_material hrow).known
    exact hof.2.2.trans (hmaterial.trans his.2.symm)
  have hpartner := (MaterialRow.core_eq_iff.mp hcore).2.2.1
  rw [Scope.job, hkey.1, ← hof.2.1, hpartner, his.1.2, hs]

omit [Fintype ι] [DecidableEq ι] in
/-- After a statement that wrote nothing. -/
theorem SeesMaterial.of_view {w' : World ι} (h : SeesMaterial i bureauId partnerId materialId w)
    (hview : w'.view i = w.view i) : SeesMaterial i bureauId partnerId materialId w' := by
  rw [SeesMaterial, hview]
  exact h

/-! ## Jobs -/

theorem stays_enqueueExtraction (tx : ScopedTx) (hs : s.holds tx.bureauId partnerId = true)
    (hsees : SeesMaterial i tx.bureauId partnerId materialId w) :
    StaysIn store requests s i (Concludes (fun _ _ ↦ True) fun _ ↦ True)
      (Jobs.enqueueExtraction store.uuid tx partnerId materialId) w := by
  have hinsert : StaysIn store requests s i
      (Concludes (fun (answer : Option JobRow) w' ↦ answer = none →
        SeesMaterial i tx.bureauId partnerId materialId w') fun _ ↦ True)
      (runStatement (.jobsInsert tx.bureauId partnerId materialId .extractDocument
        (extractionIdempotencyKey store.uuid materialId .extractDocument))) w := by
    apply stays_statement (.jobsInsert ..)
    · exact fun hinv ↦ ⟨hs, fun job hjob hkey ↦ hinv.job_of_hasKey hs hsees job hjob hkey⟩
    · intro _ id now answer writes w' hexec hview hnone
      rcases Sql.exec_jobsInsert hexec with ⟨hsome, -⟩ | ⟨-, rfl, -⟩
      · cases hsome.symm.trans hnone
      · exact hsees.of_view hview
  apply hinsert.andThen
  rintro (_ | row) w' hnone
  · have hfind : StaysIn store requests s i (Concludes (fun _ _ ↦ True) fun _ ↦ True)
        (runStatement (.jobsByKey tx.bureauId
          (extractionIdempotencyKey store.uuid materialId .extractDocument))) w' := by
      apply stays_statement (.jobsByKey ..)
      · refine fun hinv ↦ ⟨(Scope.holds_eq.mp hs).1, fun job hjob hkey ↦ ?_⟩
        exact hinv.job_of_hasKey hs (hnone rfl) job hjob hkey
      · exact fun _ _ _ _ _ _ _ _ ↦ trivial
    apply hfind.andThen
    intro found w'' _
    exact Abides.ofExceptThen trivial fun row _ ↦ Abides.return trivial
  · exact Abides.return trivial

theorem stays_requeueExtraction (tx : ScopedTx) (hs : s.holds tx.bureauId partnerId = true)
    (hsees : SeesMaterial i tx.bureauId partnerId materialId w) :
    StaysIn store requests s i (Concludes (fun _ _ ↦ True) fun _ ↦ True)
      (Jobs.requeueExtraction store.uuid tx partnerId materialId) w := by
  have hrequeue : StaysIn store requests s i
      (Concludes (fun (answer : Option JobRow) w' ↦ answer = none →
        SeesMaterial i tx.bureauId partnerId materialId w') fun _ ↦ True)
      (runStatement (.jobsRequeue tx.bureauId partnerId materialId
        (extractionIdempotencyKey store.uuid materialId .extractDocument))) w := by
    apply stays_statement (.jobsRequeue ..) fun _ ↦ hs
    intro _ id now answer writes w' hexec hview hnone
    simp only [Sql.exec] at hexec
    split at hexec
    · cases hexec
    · obtain ⟨hr, -⟩ := Sql.map_updateRows_eq_ok hexec
      cases hr
      -- nothing was updated
      rw [List.head?_map, Option.map_eq_none_iff, List.head?_eq_none_iff] at hnone
      rw [hnone] at hview
      exact hsees.of_view hview
  apply hrequeue.andThen
  rintro (_ | row) w' hnone
  · exact stays_enqueueExtraction tx hs (hnone rfl)
  · exact Abides.return trivial

/-! ## Materials -/

/-- A material that was found is seen. -/
theorem stays_getInPartner (tx : ScopedTx) (hs : s.holds tx.bureauId partnerId = true) :
    StaysIn store requests s i
      (Concludes (fun stored w' ↦ ∀ found : StoredMaterial, stored = some found →
        SeesMaterial i tx.bureauId partnerId materialId w' ∧
          ∃ sha256, IsDigest sha256 ∧ found.storageKey =
            (⟨tx.bureauId, partnerId⟩ : ObjectNamespace).keyText store.uuid sha256) fun _ ↦ True)
      (Materials.getInPartner tx partnerId materialId) w := by
  have hget : StaysIn store requests s i
      (Concludes (fun (answer : Option MaterialRow) w' ↦ ∀ row, answer = some row →
        SeesMaterial i tx.bureauId partnerId materialId w' ∧
          ∃ sha256, IsDigest sha256 ∧ row.storageKey =
            (⟨tx.bureauId, partnerId⟩ : ObjectNamespace).keyText store.uuid sha256) fun _ ↦ True)
      (runStatement (.materialsGet tx.bureauId partnerId materialId)) w := by
    apply stays_statement (.materialsGet ..) fun _ ↦ hs
    intro hinv id now answer writes w' hexec hview row hrow
    cases hexec
    have hmem := List.mem_of_find?_eq_some hrow
    have his := List.find?_some hrow
    have hsees : SeesMaterial i tx.bureauId partnerId materialId w := ⟨row, hmem, his⟩
    obtain ⟨⟨content, -, hdescribes⟩, hkey, -⟩ :=
      hinv.originals row (World.visible_material hmem).known
    refine ⟨hsees.of_view hview, row.sha256, ?_, ?_⟩
    · exact hdescribes.sha256 ▸ isDigest_hex store.sha256 content
    · simp only [Sql.isMaterial, Sql.isMaterialOf, Bool.and_eq_true, decide_eq_true_eq] at his
      rw [hkey, MaterialRow.ns, his.1.1, his.1.2]
  apply hget.andThen
  intro answer w' hfound
  apply Abides.return
  intro found hsome
  obtain ⟨row, hrow, rfl⟩ := Option.map_eq_some_iff.mp hsome
  exact hfound row hrow

theorem stays_requeue (tx : ScopedTx) (hs : s.holds tx.bureauId partnerId = true) :
    StaysIn store requests s i
      (Concludes (fun material w' ↦ material.isSome = true →
        SeesMaterial i tx.bureauId partnerId materialId w') fun _ ↦ True)
      (Materials.requeue tx partnerId materialId) w := by
  have hrequeue : StaysIn store requests s i
      (Concludes (fun (answer : Option MaterialRow) w' ↦ answer.isSome = true →
        SeesMaterial i tx.bureauId partnerId materialId w') fun _ ↦ True)
      (runStatement (.materialsRequeue tx.bureauId partnerId materialId)) w := by
    apply stays_statement (.materialsRequeue ..) fun _ ↦ hs
    intro _ id now answer writes w' hexec hview hsome
    obtain ⟨hr, -⟩ := Sql.map_updateRows_eq_ok hexec
    cases hr
    rw [List.head?_map, Option.isSome_map, List.isSome_head?] at hsome
    obtain ⟨old, hold⟩ := List.exists_mem_of_ne_nil _ hsome
    -- the version that was written is seen
    have hrows : (w'.view i).materials = Table.overlay MaterialRow.id
        (((w.view i).materials.filter
          (Sql.isMaterial tx.bureauId partnerId materialId)).map (Sql.requeued now))
        (w.view i).materials := by
      rw [hview]
      simp [Db.overlay, List.filterMap_map, Function.comp_def, Write.material?,
        List.filterMap_eq_map']
    obtain ⟨row, hrow, -, hfrom⟩ : ∃ row ∈ (w'.view i).materials,
        row.id = (Sql.requeued now old).id ∧
        row ∈ ((w.view i).materials.filter
          (Sql.isMaterial tx.bureauId partnerId materialId)).map (Sql.requeued now) := by
      rw [hrows]
      exact Table.exists_overlay_of_write (List.mem_map_of_mem hold)
    obtain ⟨old', hold', rfl⟩ := List.mem_map.mp hfrom
    exact ⟨_, hrow, (List.mem_filter.mp hold').2⟩
  apply hrequeue.andThen
  intro answer w' hsees
  apply Abides.return
  intro hsome
  rw [Option.isSome_map] at hsome
  exact hsees hsome

theorem stays_retry {state : AppState} {session : Session}
    (hs : s.holds session.bureauId partnerId = true) :
    StaysIn state.store requests s i (Concludes (fun _ _ ↦ True) fun _ ↦ True)
      (Routes.retry state session partnerId materialId) w := by
  have hbegin : StaysIn state.store requests s i
      (Concludes (fun tx w' ↦ tx.bureauId = session.bureauId ∧ w'.db = w.db) fun _ ↦ True)
      (Routes.db (ScopedTx.begin session.bureauId)) w := (stays_begin _).mapError _
  apply hbegin.andThen
  rintro tx w₁ ⟨htx, -⟩
  rw [← htx] at hs
  apply ((stays_getInPartner tx hs).mapError _).andThen
  rintro (_ | stored) w₂ hfound
  · exact stays_leave tx _
  · dsimp only
    split
    · exact stays_leave tx _
    · apply ((stays_requeue tx hs).mapError _).andThen
      rintro (_ | material) w₃ hsees
      · exact stays_leave tx _
      · apply ((stays_requeueExtraction tx hs (hsees rfl)).mapError _).andThen
        intro _ w₄ _
        apply ((stays_commit tx).mapError _).andThen
        exact fun _ _ _ ↦ Abides.return trivial

/-! ## Recording an upload -/

/-- The material of the outcome is seen. -/
theorem stays_insert (tx : ScopedTx) {new : NewMaterial}
    (hs : s.holds tx.bureauId new.partnerId = true)
    (hpartner : HasPartner tx.bureauId new.partnerId w) :
    StaysIn store requests s i
      (Concludes (fun (outcome : InsertOutcome) w' ↦
        SeesMaterial i tx.bureauId new.partnerId outcome.material.id w') fun _ ↦ True)
      (Materials.insert tx new) w := by
  have hinsert : StaysIn store requests s i
      (Concludes (fun (answer : Option MaterialRow) w' ↦ ∀ row, answer = some row →
        SeesMaterial i tx.bureauId new.partnerId row.id w') fun _ ↦ True)
      (runStatement (.materialsInsert tx.bureauId new)) w := by
    apply stays_statement (.materialsInsert ..)
    · exact fun hinv ↦ hinv.about_materialsInsert i hs hpartner
    · intro _ id now answer writes w' hexec hview row hrow
      rcases Sql.exec_materialsInsert hexec with ⟨hsome, rfl⟩ | ⟨hnone, -⟩
      · obtain rfl : row = Sql.newMaterialRow tx.bureauId new id now :=
          Option.some.inj (hrow.symm.trans hsome)
        refine ⟨Sql.newMaterialRow tx.bureauId new id now, ?_, ?_⟩
        · rw [hview]
          exact Table.self_mem_upsert
        · simp [Sql.isMaterial, Sql.isMaterialOf, Sql.newMaterialRow]
      · cases hrow.symm.trans hnone
  apply hinsert.andThen
  rintro (_ | row) w' hfound
  · have hfind : StaysIn store requests s i
        (Concludes (fun (answer : Option MaterialRow) w' ↦ ∀ row, answer = some row →
          SeesMaterial i tx.bureauId new.partnerId row.id w') fun _ ↦ True)
        (runStatement (.materialsByDigest tx.bureauId new.partnerId new.sha256)) w' := by
      apply stays_statement (.materialsByDigest ..) fun _ ↦ hs
      intro _ id now answer writes w'' hexec hview row hrow
      cases hexec
      have hmem := List.mem_of_find?_eq_some hrow
      have his := List.find?_some hrow
      rw [Sql.hasDigest, Bool.and_eq_true] at his
      have hsees : SeesMaterial i tx.bureauId new.partnerId row.id w' :=
        ⟨row, hmem, by simp [Sql.isMaterial, his.1]⟩
      exact hsees.of_view hview
    have hdigest : StaysIn store requests s i
        (Concludes (fun (found : Option Material) w' ↦ ∀ m, found = some m →
          SeesMaterial i tx.bureauId new.partnerId m.id w') fun _ ↦ True)
        (Materials.findByDigest tx new.partnerId new.sha256) w' := by
      apply hfind.andThen
      intro answer w'' hsees
      apply Abides.return
      intro m hm
      obtain ⟨row, hrow, rfl⟩ := Option.map_eq_some_iff.mp hm
      exact hsees row hrow
    apply hdigest.andThen
    intro found w'' hsees
    apply Abides.ofExceptThen trivial
    intro existing hexisting
    apply Abides.return
    cases found with
    | none => cases hexisting
    | some m =>
        cases hexisting
        exact hsees _ rfl
  · exact Abides.return (hfound row rfl)

theorem stays_publish {state : AppState} {session : Session} {new : NewMaterial}
    (hs : s.holds session.bureauId new.partnerId = true)
    (hpartner : HasPartner session.bureauId new.partnerId w) :
    StaysIn state.store requests s i (Concludes (fun _ _ ↦ True) fun _ ↦ True)
      (Routes.publish state session new.partnerId new) w := by
  apply (stays_begin session.bureauId).andThen
  rintro tx w₁ ⟨htx, hdb⟩
  rw [← htx] at hs hpartner
  have hpartner' : HasPartner tx.bureauId new.partnerId w₁ := by
    rw [HasPartner, hdb]
    exact hpartner
  apply (stays_insert tx hs hpartner').andThen
  intro outcome w₂ hsees
  apply (stays_enqueueExtraction tx hs hsees).andThen
  intro _ w₃ _
  apply (stays_commit tx).andThen
  exact fun _ _ _ ↦ Abides.return trivial

theorem stays_partnerExists {session : Session} (hs : s.holds session.bureauId partnerId = true) :
    StaysIn store requests s i
      (Concludes (fun present w' ↦ present = true → HasPartner session.bureauId partnerId w')
        fun _ ↦ True)
      (Routes.partnerExists session partnerId) w := by
  have hbegin : StaysIn store requests s i
      (Concludes (fun tx w' ↦ tx.bureauId = session.bureauId ∧ w'.db = w.db) fun _ ↦ True)
      (Routes.db (ScopedTx.begin session.bureauId)) w := (stays_begin _).mapError _
  apply hbegin.andThen
  rintro tx w₁ ⟨htx, -⟩
  rw [← htx] at hs
  have hexists : StaysIn store requests s i
      (Concludes (fun (present : Bool) w' ↦ present = true →
        ∃ q ∈ (w'.view i).partners, q.bureauId = tx.bureauId ∧ q.id = partnerId) fun _ ↦ True)
      (Partners.exists? tx partnerId) w₁ := by
    apply stays_statement (.partnersExists ..) fun _ ↦ hs
    intro _ id now answer writes w' hexec hview hpresent
    cases hexec
    obtain ⟨q, hq, his⟩ := List.any_eq_true.mp hpresent
    simp only [Sql.isPartner, Bool.and_eq_true, decide_eq_true_eq] at his
    exact ⟨q, by rw [hview]; exact hq, his⟩
  apply (hexists.mapError _).andThen
  intro present w₂ hpresent
  apply ((stays_commit tx).mapError _).andThen
  intro _ w₃ hdb
  apply Abides.return
  intro h
  rw [HasPartner, hdb, ← htx]
  exact hpresent h

theorem stays_record {state : AppState} {session : Session}
    {received : ReceivedFile state.store.uuid} (hs : s.holds session.bureauId partnerId = true)
    (hpartner : HasPartner session.bureauId partnerId w) :
    StaysIn state.store requests s i (Concludes (fun _ _ ↦ True) fun _ ↦ True)
      (Routes.record state session partnerId received) w := by
  apply Abides.ofExceptThen trivial
  intro new hnew
  have hnewId : new.partnerId = partnerId := by
    unfold Routes.newMaterial at hnew
    split at hnew
    · cases hnew
    · cases hnew
      rfl
  subst hnewId
  have hpublish : StaysIn state.store requests s i (fun _ _ ↦ True)
      (Routes.publish state session new.partnerId new) w :=
    Abides.mono (stays_publish hs hpartner) fun _ _ _ ↦ trivial
  apply hpublish.liftThen
  rintro (error | outcome) w₁ _
  · have hreport : StaysIn state.store requests s i (fun _ _ ↦ True)
        (await (.report (.publishFailed error))) w₁ :=
      stays_of_calls (calls_perform fun _ ↦ trivial)
    apply hreport.liftThen
    intro _ w₂ _
    have horphaned : StaysIn state.store requests s i (fun _ _ ↦ True)
        (Upload.reportOrphanedObject received.stored) w₂ :=
      stays_of_calls (Calls.ite (by trivial) (calls_perform fun _ ↦ trivial))
    apply horphaned.liftThen
    exact fun _ _ _ ↦ Abides.fail trivial
  · exact Abides.return trivial

/-! ## Storing a file -/

/-- The guard of the request owns this staging file. -/
def OwnsStaging (i : ι) (name : Uuid) (w : World ι) : Prop :=
  w.guard i = some name ∧ w.drawnBy name = some i

/-- The operations that leave the guards alone. -/
def Op.keepsGuard : Op → Bool
  | .armStaging => false
  | .dropGuard => false
  | .disarmGuard => false
  | _ => true

theorem guard_perform {op : Op} {choice : Choice} {a : op.Ans} {w' : World ι}
    (hop : op.keepsGuard = true) (h : w.perform i op choice = some (a, w')) :
    w'.guard = w.guard ∧ w'.drawnBy = w.drawnBy := by
  cases choice with
  | granted id now =>
      cases op with
      | armStaging | dropGuard | disarmGuard => cases hop
      | readStaging | listObjects => cases h
      | sql st =>
          simp only [World.perform, World.grant, World.runSql] at h
          split at h
          · cases h
            exact ⟨rfl, rfl⟩
          · split at h
            · cases h
            · split at h <;> cases h <;> exact ⟨rfl, rfl⟩
      | commit | createStaging | stat | rename | openFile | removeStaging =>
          simp only [World.perform, World.grant] at h
          split at h <;> cases h <;> exact ⟨rfl, rfl⟩
      | _ =>
          cases h
          exact ⟨rfl, rfl⟩
  | failed outage =>
      cases op with
      | rollback | armStaging | syncDir | dropGuard | disarmGuard | report => cases h
      | _ =>
          cases h
          exact ⟨rfl, rfl⟩
  | lost =>
      cases op <;> try cases h
      obtain ⟨tx, -, hfail⟩ := Option.bind_eq_some_iff.mp h
      cases hfail
      exact ⟨rfl, rfl⟩
  | listed staging objects truncated =>
      cases op <;> cases h <;> exact ⟨rfl, rfl⟩

variable {name : Uuid} {α : Type}

theorem stays_ownsStaging (op : Op) (hop : op.keepsGuard = true)
    (habout : ∀ w, OwnsStaging i name w → op.About store s i w) (hw : OwnsStaging i name w) :
    StaysIn store requests s i (fun _ ↦ OwnsStaging i name) (await op) w := by
  apply stays_await op fun _ ↦ habout w hw
  intro _ choice a w' hperform
  obtain ⟨hguard, hdrawn⟩ := guard_perform hop hperform
  rw [OwnsStaging, hguard, hdrawn]
  exact hw

/-- A file system call whose error is reported. -/
theorem stays_io {p : Prog (Except IoError α)} (operation : String)
    (hp : StaysIn store requests s i (fun _ ↦ OwnsStaging i name) p w) :
    StaysIn store requests s i (Concludes (fun _ ↦ OwnsStaging i name) (OwnsStaging i name))
      (Store.io operation p) w := by
  have hends : StaysIn store requests s i
      (Concludes (fun _ ↦ OwnsStaging i name) (OwnsStaging i name)) p w :=
    Abides.mono hp fun r w' h ↦ by cases r <;> exact h
  exact hends.mapError _

theorem stays_writeChunks (body : ByteStream) {hashed : Bytes} (hw : OwnsStaging i name w) :
    StaysIn store requests s i (Concludes (fun _ ↦ OwnsStaging i name) (OwnsStaging i name))
      (Store.writeChunks name body hashed) w := by
  induction body generalizing w hashed with
  | nil => exact Abides.return hw
  | cons chunk rest ih =>
      cases chunk with
      | error e => exact Abides.fail hw
      | ok chunk =>
          apply (stays_io _ (stays_ownsStaging (.write name chunk) rfl (fun _ h ↦ h.2) hw)).andThen
          exact fun _ w' hw' ↦ ih hw'

theorem stays_isPresent {path : Path} (hpath : store.Within s path) (sizeBytes : ℕ)
    (hw : OwnsStaging i name w) :
    StaysIn store requests s i (Concludes (fun _ ↦ OwnsStaging i name) (OwnsStaging i name))
      (Store.isPresent path sizeBytes) w := by
  apply (stays_ownsStaging (.stat path) rfl (fun _ _ ↦ hpath) hw).liftThen
  rintro (source | metadata) w' hw'
  · cases source with
    | notFound => exact Abides.return hw'
    | alreadyExists | other => exact Abides.fail hw'
  · exact Abides.return hw'

/-- The object goes to the namespace of the upload. -/
theorem stays_publishStaging {ns : ObjectNamespace} (hns : s.holds ns.bureauId ns.partnerId = true)
    (content : Bytes) (hw : OwnsStaging i name w) :
    StaysIn store requests s i (Concludes (fun _ _ ↦ True) (OwnsStaging i name))
      (store.publishStaging name ns content) w := by
  apply Abides.ofExceptThen hw
  intro key hkey
  apply Abides.ofExceptThen hw
  intro path hpath
  obtain rfl : path = store.place ns (store.sha256.hex content) := by
    rw [resolve_place (raw_of_keyForDigest hkey)] at hpath
    exact (Except.ok.inj hpath).symm
  have hwithin : store.Within s (store.place ns (store.sha256.hex content)) :=
    ⟨ns, _, hns, isDigest_hex store.sha256 content, rfl⟩
  have hdir : StaysIn store requests s i
      (Concludes (fun _ ↦ OwnsStaging i name) (OwnsStaging i name))
      (Store.createPrivateDir (store.place ns (store.sha256.hex content)).dropLast) w := by
    apply (stays_io _ (stays_ownsStaging (.createDirAll _) rfl (fun _ _ ↦ trivial) hw)).andThen
    exact fun _ w' hw' ↦
      stays_io _ (stays_ownsStaging (.setPermissions _ _) rfl (fun _ _ ↦ trivial) hw')
  apply hdir.andThen
  intro _ w₁ hw₁
  apply (stays_isPresent hwithin content.length hw₁).andThen
  intro present w₂ hw₂
  have hfree : ∀ (op : Op) w', (∀ w', op.About store s i w') →
      StaysIn store requests s i (fun _ _ ↦ True) (await op) w' := fun op w' habout ↦
    stays_await op (fun _ ↦ habout w') fun _ _ _ _ _ ↦ trivial
  cases present with
  | true =>
      have hdrop : StaysIn store requests s i (fun _ _ ↦ True) (await .dropGuard) w₂ :=
        stays_await .dropGuard (fun _ ↦ ⟨name, hw₂⟩) fun _ _ _ _ _ ↦ trivial
      exact hdrop.liftThen fun _ _ _ ↦ Abides.return trivial
  | false =>
      apply (stays_io _
        (stays_ownsStaging (.rename name _) rfl (fun _ h ↦ ⟨h.2, hwithin⟩) hw₂)).andThen
      intro _ w₃ _
      apply (hfree .disarmGuard w₃ fun _ ↦ trivial).liftThen
      intro _ w₄ _
      apply (hfree (.syncDir _) w₄ fun _ ↦ trivial).liftThen
      exact fun _ _ _ ↦ Abides.return trivial

theorem stays_writeStaging {ns : ObjectNamespace} (hns : s.holds ns.bureauId ns.partnerId = true)
    (body : ByteStream) (hw : OwnsStaging i name w) :
    StaysIn store requests s i (Concludes (fun _ _ ↦ True) (OwnsStaging i name))
      (store.writeStaging name ns body) w := by
  apply (stays_io _ (stays_ownsStaging (.createStaging name) rfl (fun _ h ↦ h.2) hw)).andThen
  intro _ w₁ hw₁
  apply (stays_writeChunks body hw₁).andThen
  intro content w₂ hw₂
  apply (stays_io _ (stays_ownsStaging (.flush name) rfl (fun _ _ ↦ trivial) hw₂)).andThen
  intro _ w₃ hw₃
  apply (stays_io _ (stays_ownsStaging (.syncAll name) rfl (fun _ _ ↦ trivial) hw₃)).andThen
  exact fun _ w₄ hw₄ ↦ stays_publishStaging hns content hw₄

theorem stays_putStream {ns : ObjectNamespace} (hns : s.holds ns.bureauId ns.partnerId = true)
    (body : ByteStream) :
    StaysIn store requests s i (Concludes (fun _ _ ↦ True) fun _ ↦ True)
      (store.putStream ns body) w := by
  have harm : StaysIn store requests s i (fun name w' ↦ OwnsStaging i name w')
      (await .armStaging) w := by
    apply stays_await .armStaging fun _ ↦ trivial
    intro _ choice name w' hperform
    cases choice with
    | granted id now =>
        simp only [World.perform, World.grant] at hperform
        split at hperform
        · cases hperform
          exact ⟨Function.update_self .., Function.update_self ..⟩
        · cases hperform
    | failed | lost | listed => cases hperform
  apply harm.liftThen
  intro name w₁ hw₁
  apply (stays_writeStaging hns body hw₁).liftThen
  rintro (e | stored) w₂ hw₂
  · have hdrop : StaysIn store requests s i (fun _ _ ↦ True) (await .dropGuard) w₂ :=
      stays_await .dropGuard (fun _ ↦ ⟨name, hw₂⟩) fun _ _ _ _ _ ↦ trivial
    exact hdrop.liftThen fun _ _ _ ↦ Abides.fail trivial
  · exact Abides.return trivial

/-! ## Uploads and downloads -/

variable {state : AppState} {session : Session}

theorem stays_readFileField {ns : ObjectNamespace}
    (hns : s.holds ns.bureauId ns.partnerId = true) (field : Field) :
    StaysIn state.store requests s i (Concludes (fun _ _ ↦ True) fun _ ↦ True)
      (Upload.readFileField state ns field) w := by
  apply Abides.ofExceptThen trivial
  rintro ⟨head, rest⟩ -
  dsimp only
  split
  · exact Abides.fail trivial
  · apply Abides.ofExceptThen trivial
    intro mediaType _
    apply Abides.ofExceptThen trivial
    intro _ _
    apply ((stays_putStream hns _).mapError _).andThen
    exact fun _ _ _ ↦ Abides.return trivial

theorem stays_receiveFields {ns : ObjectNamespace}
    (hns : s.holds ns.bureauId ns.partnerId = true) (wellFormed : Bool) (fields : List Field)
    (received : Option (ReceivedFile state.store.uuid)) (otherFieldBytes : ℕ) :
    StaysIn state.store requests s i (Concludes (fun _ _ ↦ True) fun _ ↦ True)
      (Upload.receiveFields state ns wellFormed fields received otherFieldBytes) w := by
  induction fields generalizing w received otherFieldBytes with
  | nil =>
      unfold Upload.receiveFields
      split
      · exact Abides.fail trivial
      · cases received <;> trivial
  | cons field rest ih =>
      unfold Upload.receiveFields
      split
      · apply Abides.ofExceptThen trivial
        exact fun otherFieldBytes _ ↦ ih received otherFieldBytes
      · cases received with
        | some previous =>
            have horphaned : StaysIn state.store requests s i (fun _ _ ↦ True)
                (Upload.reportOrphanedObject previous.stored) w :=
              stays_of_calls (Calls.ite (by trivial) (calls_perform fun _ ↦ trivial))
            apply horphaned.liftThen
            exact fun _ _ _ ↦ Abides.fail trivial
        | none =>
            apply (stays_readFileField hns field).andThen
            exact fun file w' _ ↦ ih (some file) otherFieldBytes

theorem HasPartner.perform {bureauId : Uuid} {op : Op} {choice : Choice} {a : op.Ans}
    {w' : World ι} (hinv : Kept store requests w) (hw : HasPartner bureauId partnerId w)
    (h : w.perform i op choice = some (a, w')) : HasPartner bureauId partnerId w' := by
  obtain ⟨q, hq, hbureau, hid⟩ := hw
  obtain ⟨q', hq', hcore⟩ := (hinv.consistent.grows_rows (World.perform_dbStep h)).1 q hq
  obtain ⟨hid', hbureau', -⟩ := PartnerRow.core_eq_iff.mp hcore
  exact ⟨q', hq', hbureau'.trans hbureau, hid'.trans hid⟩

theorem stays_upload (hs : s.holds session.bureauId partnerId = true) (multipart : Multipart) :
    StaysIn state.store requests s i (Concludes (fun _ _ ↦ True) fun _ ↦ True)
      (Routes.upload state session partnerId multipart) w := by
  apply (stays_partnerExists hs).andThen
  intro present w₁ hpartner
  split
  · exact Abides.fail trivial
  · rename_i hpresent
    have hw₁ := hpartner (Bool.eq_true_of_not_eq_false hpresent)
    have hreceive : StaysIn state.store requests s i
        (Concludes (fun _ ↦ HasPartner session.bureauId partnerId) fun _ ↦ True)
        (Upload.receiveFile state ⟨session.bureauId, partnerId⟩ multipart) w₁ := by
      have hfields : StaysIn state.store requests s i (Concludes (fun _ _ ↦ True) fun _ ↦ True)
          (Upload.receiveFile state ⟨session.bureauId, partnerId⟩ multipart) w₁ :=
        stays_receiveFields hs multipart.wellFormed multipart.fields none 0
      refine Abides.mono (hfields.keeping hw₁ ?_) fun r w' h ↦ ?_
      · exact fun op w choice a w' hinv hw _ hperform ↦ hw.perform hinv hperform
      · cases r with
        | ok file => exact h.2
        | error e => trivial
    apply hreceive.andThen
    exact fun file w₂ hw₂ ↦ stays_record hs hw₂

theorem stays_openObject (ns : ObjectNamespace) (hns : s.holds ns.bureauId ns.partnerId = true)
    {key : ObjectKey store.uuid} {sha256 : Text} (hdigest : IsDigest sha256)
    (hraw : key.raw = ns.keyText store.uuid sha256) :
    StaysIn store requests s i (Concludes (fun _ _ ↦ True) fun _ ↦ True) (store.openObject key)
      w := by
  apply Abides.ofExceptThen trivial
  intro path hpath
  obtain rfl : path = store.place ns sha256 := by
    rw [resolve_place hraw] at hpath
    exact (Except.ok.inj hpath).symm
  have hwithin : store.Within s (store.place ns sha256) := ⟨ns, sha256, hns, hdigest, rfl⟩
  have hstat : StaysIn store requests s i (fun _ _ ↦ True)
      (await (.stat (store.place ns sha256))) w :=
    stays_await (.stat _) (fun _ ↦ hwithin) fun _ _ _ _ _ ↦ trivial
  apply hstat.liftThen
  rintro (source | metadata) w₁ -
  · cases source <;> exact Abides.fail trivial
  · apply Abides.ite
    · exact fun _ ↦ Abides.fail trivial
    · intro _
      have hread : StaysIn store requests s i (fun _ _ ↦ True)
          (await (.openFile (store.place ns sha256))) w₁ :=
        stays_await (.openFile _) (fun _ ↦ hwithin) fun _ _ _ _ _ ↦ trivial
      apply (hread.concludes.mapError _).andThen
      exact fun _ _ _ ↦ Abides.return trivial

/-- The storage key of the row that is found is one of the partner's. -/
theorem stays_findStored (hs : s.holds session.bureauId partnerId = true) :
    StaysIn store requests s i
      (Concludes (fun stored _ ↦ ∀ found : StoredMaterial, stored = some found →
        ∃ sha256, IsDigest sha256 ∧ found.storageKey =
          (⟨session.bureauId, partnerId⟩ : ObjectNamespace).keyText store.uuid sha256)
        fun _ ↦ True) (Routes.findStored session partnerId materialId) w := by
  have hbegin : StaysIn store requests s i
      (Concludes (fun tx w' ↦ tx.bureauId = session.bureauId ∧ w'.db = w.db) fun _ ↦ True)
      (Routes.db (ScopedTx.begin session.bureauId)) w := (stays_begin _).mapError _
  apply hbegin.andThen
  rintro tx w₁ ⟨htx, -⟩
  have htx' : tx = ⟨session.bureauId⟩ := congrArg ScopedTx.mk htx
  subst htx'
  apply ((stays_getInPartner ⟨session.bureauId⟩ hs).mapError _).andThen
  intro stored w₂ hfound
  apply ((stays_commit ⟨session.bureauId⟩).mapError _).andThen
  exact fun _ _ _ ↦ Abides.return fun found hsome ↦ (hfound found hsome).2

theorem stays_download (hs : s.holds session.bureauId partnerId = true) :
    StaysIn state.store requests s i (Concludes (fun _ _ ↦ True) fun _ ↦ True)
      (Routes.download state session partnerId materialId) w := by
  apply (stays_findStored hs).andThen
  intro stored w₁ hstored
  apply Abides.ofExceptThen trivial
  intro found hfound
  obtain ⟨sha256, hdigest, hkeyText⟩ := hstored found (by cases stored <;> cases hfound; rfl)
  have hparse : StaysIn state.store requests s i
      (Concludes (fun key _ ↦ ObjectKey.parse state.store.uuid found.storageKey = .ok key)
        fun _ ↦ True)
      (mapError (fun _ ↦ ApiError.new (.internal "internal server error"))
        (ofExcept (ObjectKey.parse state.store.uuid found.storageKey))) w₁ := by
    cases ObjectKey.parse state.store.uuid found.storageKey with
    | error e => exact Abides.fail trivial
    | ok key => exact Abides.return rfl
  apply hparse.andThen
  intro key w₂ hkey
  have hraw := (ObjectKey.parse_eq_ok.mp hkey).trans hkeyText
  apply ((stays_openObject ⟨session.bureauId, partnerId⟩ hs hdigest hraw).mapError _).andThen
  exact fun _ _ _ ↦ Abides.return trivial

end Statements

end Otdel
