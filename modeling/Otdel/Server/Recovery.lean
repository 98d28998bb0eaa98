import Otdel.Db.Agreement
import Otdel.Library.Sequential
import Otdel.Server.Handlers
import Otdel.Server.TxSafety

/-!
# What a reclaim leaves behind

Uploads, retries and reclaims one after another, with the steps of a worker.
Uploads and retries move a material and its job together; a reclaim that finds an
expired lease moves the job alone.
-/

namespace Otdel

open Program

/-- What moves materials and their jobs. -/
inductive QueueEvent where
  | upload (session : Session) (partnerId : Uuid) (multipart : Multipart)
  | retry (session : Session) (partnerId materialId : Uuid)
  | reclaim (bureauId : Uuid)
  | worker (bureauId : Uuid) (changes : List WorkerChange)

namespace QueueEvent

def program (state : AppState) : QueueEvent → Prog Unit
  | upload session partnerId multipart =>
      Program.bind (Routes.upload state session partnerId multipart) fun _ ↦ .done ()
  | retry session partnerId materialId =>
      Program.bind (Routes.retry state session partnerId materialId) fun _ ↦ .done ()
  | reclaim bureauId => Program.bind (Maintenance.reclaimLeases bureauId) fun _ ↦ .done ()
  | worker bureauId changes => Program.bind (Worker.step bureauId changes) fun _ ↦ .done ()

def IsWorker : QueueEvent → Prop
  | worker _ _ => True
  | _ => False

/-- One event from its beginning to its end, where its transaction is dropped. -/
def step (state : AppState) (w : World Unit) (e : QueueEvent × List Choice) :
    Option (World Unit) :=
  ((server Unit).play () (e.1.program state) e.2 w).map fun r ↦ r.2.abandon ()

end QueueEvent

/-- A reclaim finds no running job whose lease is over. -/
def NothingExpired (op : Op) (_ : Choice) (w : World Unit) : Prop :=
  ∀ bureauId tx, op = .sql (.jobsReclaim bureauId) → w.tx () = some tx →
    ∀ job ∈ (w.view ()).jobs, Sql.isExpired bureauId tx.now job = false

/-- Nothing is reclaimed, and a worker keeps the two tables in step itself. -/
def QueueEvent.Moves (state : AppState) (w : World Unit) (e : QueueEvent × List Choice)
    (w' : World Unit) : Prop :=
  (server Unit).Meets () NothingExpired (e.1.program state) e.2 w ∧
    (e.1.IsWorker → w.db.Agreement → w'.db.Agreement)

/-! ## One transaction at a time -/

/-- The committed rows are in order, and the open transaction has written none
of them. -/
structure World.Steady (uuid : UuidCrate) (w : World Unit) : Prop where
  rows : w.db.Steady uuid
  materials : (w.view ()).materials = w.db.materials
  jobs : (w.view ()).jobs = w.db.jobs

/-- A transaction is open, and sees these rows. -/
structure World.Sees (db view : Db) (w : World Unit) : Prop where
  db : w.db = db
  isOpen : ∃ tx, w.tx () = some tx
  view : w.view () = view

section Steps

variable {uuid : UuidCrate} {db view : Db} {w w' : World Unit}

theorem World.view_of_none {ι : Type} {w : World ι} {i : ι} (h : w.tx i = none) :
    w.view i = w.db := by
  rw [World.view, World.pending, h]
  exact Db.overlay_nil w.db

theorem World.Steady.of_none (hrows : w.db.Steady uuid) (h : w.tx () = none) :
    w.Steady uuid where
  rows := hrows
  materials := by rw [World.view_of_none h]
  jobs := by rw [World.view_of_none h]

/-- What a statement leaves the transaction to see. -/
theorem World.view_wrote {ι : Type} [DecidableEq ι] {w w' : World ι} {i : ι} {tx : Tx}
    {writes : List Write} (hopen : w.tx i = some tx) (hdb : w'.db = w.db)
    (htx : w'.tx = Function.update w.tx i (some { tx with writes := tx.writes ++ writes })) :
    w'.view i = (w.view i).overlay writes := by
  rw [World.view, World.view, World.pending_eq_of_tx hopen, World.pending, htx,
    Function.update_self, hdb]
  exact Db.overlay_append _ _ _

/-- The operations that move neither a material nor, when nothing is expired, a
job. -/
def Op.SparesQueue : Op → Prop
  | .sql (.materialsInsert _ _) => False
  | .sql (.materialsRequeue _ _ _) => False
  | .sql (.jobsInsert _ _ _ _ _) => False
  | .sql (.jobsRequeue _ _ _ _) => False
  | .sql (.workerMaterial _ _ _) => False
  | .sql (.workerJob _ _ _) => False
  | _ => True

theorem Sql.exec_spares {s : Sql} {id : Uuid} {now : Timestamp} {answer : s.Answer}
    {writes : List Write} (hs : (Op.sql s).SparesQueue)
    (hnone : ∀ bureauId, s = .jobsReclaim bureauId →
      ∀ job ∈ db.jobs, isExpired bureauId now job = false)
    (h : s.exec id now db = .ok (answer, writes)) :
    (db.overlay writes).materials = db.materials ∧ (db.overlay writes).jobs = db.jobs := by
  cases s with
  | materialsInsert | materialsRequeue | jobsInsert | jobsRequeue | workerMaterial
  | workerJob => exact hs.elim
  | partnersInsert bureauId name note =>
      simp only [exec, guard_eq_ok, Except.ok.injEq] at h
      obtain ⟨-, -, -, h⟩ := h
      cases h
      exact ⟨rfl, rfl⟩
  | partnersUpdate bureauId partnerId name setNote note =>
      obtain ⟨hr, -⟩ := map_updateRows_eq_ok h
      cases hr
      simp [Db.overlay, List.filterMap_map, Function.comp_def, Write.material?, Write.job?]
  | jobsReclaim bureauId =>
      obtain ⟨hr, -⟩ := map_updateRows_eq_ok h
      have hfilter : db.jobs.filter (isExpired bureauId now) = [] :=
        List.filter_eq_nil_iff.mpr fun job hjob ↦ by simp [hnone bureauId rfl job hjob]
      cases hr
      rw [hfilter]
      exact ⟨rfl, rfl⟩
  | _ =>
      cases h
      exact ⟨rfl, rfl⟩

theorem World.Steady.perform {op : Op} {c : Choice} {a : op.Ans} (h : w.Steady uuid)
    (hop : op.SparesQueue) (hnone : NothingExpired op c w)
    (hperform : (server Unit).perform () op c w = some (a, w')) : w'.Steady uuid := by
  cases World.perform_dbStep hperform with
  | same hdb hlog htx =>
      have hview : w'.view () = w.view () := by
        rw [World.view, World.view, hdb, World.pending_congr (congrFun htx ())]
      exact ⟨hdb ▸ h.rows, by rw [hview, hdb, h.materials], by rw [hview, hdb, h.jobs]⟩
  | ended hdb hlog htx =>
      exact .of_none (hdb ▸ h.rows) (by simp [htx])
  | began bureauId now hbegin hdb hlog htx =>
      have hview : w'.view () = w'.db := by simp [World.view, World.pending, htx]
      exact ⟨hdb ▸ h.rows, by rw [hview], by rw [hview]⟩
  | wrote tx s id answer writes hsql hopen hfree hexec hdb hlog htx =>
      cases Option.some.inj hsql
      have hview := World.view_wrote hopen hdb htx
      obtain ⟨hmaterials, hjobs⟩ := Sql.exec_spares hop
        (fun bureauId hs job hjob ↦ hnone bureauId tx (congrArg Op.sql hs) hopen job hjob) hexec
      exact ⟨hdb ▸ h.rows, by rw [hview, hmaterials, h.materials, hdb],
        by rw [hview, hjobs, h.jobs, hdb]⟩
  | committed tx hcommit hopen hdb hlog htx =>
      have hpublished : w'.db = w.view () := by
        rw [hdb, World.view, World.pending_eq_of_tx hopen]
      apply World.Steady.of_none _ (by simp [htx])
      exact h.rows.congr (by rw [hpublished, h.materials]) (by rw [hpublished, h.jobs])

/-- The server, where every reclaim finds nothing. -/
noncomputable abbrev quietServer : Machine Unit (World Unit) Op Op.Ans Choice :=
  (server Unit).guarded NothingExpired

/-! ## The rules of a transaction -/

section Rules

variable {ε : Type}

theorem World.Sees.steady (h : w.Sees db db) (hrows : db.Steady uuid) : w.Steady uuid where
  rows := h.db ▸ hrows
  materials := by rw [h.view, h.db]
  jobs := by rw [h.view, h.db]

theorem leads_begin (hw : w.Steady uuid) (hdb : w.db = db) (bureauId : Uuid) :
    quietServer.Leads () (fun tx w' ↦ tx.bureauId = bureauId ∧ w'.Sees db db)
      (World.Steady uuid) (ScopedTx.begin bureauId) w := by
  have hbegin : quietServer.Leads () (fun (_ : Unit) w' ↦ w'.Sees db db) (World.Steady uuid)
      (attempt (await (.begin bureauId)) : TryProg DbError Unit) w := by
    intro c a w' hperform
    have hgranted := (Machine.perform_guarded.mp hperform).2
    cases c with
    | granted id now =>
        cases hgranted
        refine ⟨fun _ _ ↦ ⟨hdb, ⟨⟨bureauId, now, []⟩, by simp [World.setTx]⟩, ?_⟩, ?_⟩
        · simp [World.view, World.pending, World.setTx, hdb]
        · intro e heq
          cases heq
    | failed outage =>
        have hexpired : NothingExpired (.begin bureauId) (.failed outage) w := by
          intro bureauId' tx heq
          cases heq
        have hkept : w'.Steady uuid :=
          @World.Steady.perform _ _ _ (.begin bureauId) _ _ hw trivial hexpired hgranted
        cases hgranted
        refine ⟨fun a heq ↦ ?_, fun _ _ ↦ hkept⟩
        cases heq
    | lost => cases hgranted
    | listed => cases hgranted
  exact hbegin.andThen fun _ w' hw' ↦ .return ⟨rfl, hw'⟩

theorem leads_statement (hrows : db.Steady uuid) (hw : w.Sees db view) {s : Sql} {Post : s.Answer → World Unit → Prop}
    (hok : ∀ id now answer writes w', s.exec id now view = .ok (answer, writes) →
      w'.Sees db (view.overlay writes) → Post answer w') :
    quietServer.Leads () Post (World.Steady uuid) (runStatement s) w := by
  intro c a w' hperform
  have hgranted := (Machine.perform_guarded.mp hperform).2
  obtain ⟨tx, hopen⟩ := hw.isOpen
  rcases perform_sql hopen hgranted with
    ⟨id, answer, writes, rfl, hexec, rfl⟩ | ⟨e, rfl, -, hnone, -, -⟩
  · refine ⟨fun answer' heq ↦ ?_, fun e heq ↦ by cases heq⟩
    cases heq
    rw [hw.view] at hexec
    apply hok id tx.now _ writes _ hexec
    refine ⟨hw.db, ⟨{ tx with writes := tx.writes ++ writes }, by simp [World.setTx]⟩, ?_⟩
    have hview : (w.setTx () (some { tx with writes := tx.writes ++ writes })).view () =
        (w.view ()).overlay writes := World.view_wrote hopen rfl rfl
    rw [hview, hw.view]
  · refine ⟨fun answer heq ↦ (by cases heq), fun _ _ ↦ ?_⟩
    have hdb : w'.db = w.db := by
      cases World.perform_dbStep hgranted with
      | same hdb => exact hdb
      | ended hdb => exact hdb
      | began _ _ _ hdb => exact hdb
      | wrote _ _ _ _ _ _ _ _ _ hdb => exact hdb
      | committed _ hcommit => cases hcommit
    exact .of_none (hdb ▸ hw.db ▸ hrows) hnone

/-- A commit publishes what the transaction sees, or ends it without a trace. -/
theorem World.db_of_commit {ι : Type} [Fintype ι] [DecidableEq ι] {w w' : World ι} {i : ι}
    {tx : Tx} {c : Choice} {a : Op.Ans .commit} (hopen : w.tx i = some tx)
    (h : w.perform i .commit c = some (a, w')) :
    (w'.db = w.view i ∨ w'.db = w.db) ∧ w'.tx i = none := by
  have hview : w.view i = w.db.overlay tx.writes := by
    rw [World.view, World.pending_eq_of_tx hopen]
  cases c with
  | granted id now =>
      simp only [World.perform, World.grant, hopen] at h
      cases h
      exact ⟨.inl hview.symm, by simp [World.publish, World.setTx]⟩
  | failed outage =>
      cases h
      exact ⟨.inr rfl, by simp [World.setTx, World.markFaulted]⟩
  | lost =>
      simp only [World.perform, hopen, Option.bind_some] at h
      cases h
      exact ⟨.inl hview.symm, by simp [World.publish, World.setTx, World.markFaulted]⟩
  | listed => cases h

theorem leads_commit (hrows : db.Steady uuid) (hw : w.Sees db view) (hview : view.Steady uuid)
    (tx : ScopedTx) :
    quietServer.Leads () (fun _ w' ↦ w'.Steady uuid) (World.Steady uuid) tx.commit w := by
  intro c a w' hperform
  have hgranted := (Machine.perform_guarded.mp hperform).2
  obtain ⟨tx, hopen⟩ := hw.isOpen
  have hsteady : w'.Steady uuid := by
    obtain ⟨hdb | hdb, hnone⟩ := World.db_of_commit hopen hgranted
    · rw [hw.view] at hdb
      exact .of_none (hdb ▸ hview) hnone
    · rw [hw.db] at hdb
      exact .of_none (hdb ▸ hrows) hnone
  exact ⟨fun _ _ ↦ hsteady, fun _ _ ↦ hsteady⟩

theorem leads_leave {α : Type} {Post : α → World Unit → Prop} (hrows : db.Steady uuid)
    (hw : w.Sees db view) (tx : ScopedTx) (error : ApiError) :
    quietServer.Leads () Post (World.Steady uuid) (Routes.leave tx error) w := by
  have hrollback : quietServer.Gives () (fun _ w' ↦ w'.Steady uuid) tx.rollback w := by
    intro c a w' hperform
    have hgranted := (Machine.perform_guarded.mp hperform).2
    cases c with
    | granted id now =>
        cases hgranted
        exact .of_none (hw.db.symm ▸ hrows) (by simp [World.setTx])
    | _ => cases hgranted
  exact .liftThen hrollback fun _ w' hw' ↦ .fail hw'

end Rules

/-! ## The programs -/

section Programs

variable {state : AppState} {session : Session} {partnerId materialId : Uuid}

/-- A material with its job, or the job that is there. -/
theorem leads_enqueue {m : MaterialRow} {tx : ScopedTx} (hrows : db.Steady state.store.uuid)
    (hw : w.Sees db { db with materials := db.materials ++ [m] })
    (hfresh : ∀ r ∈ db.materials, r.id ≠ m.id) (hstatus : m.status = .queued) :
    quietServer.Leads () (fun _ w' ↦ ∃ view, w'.Sees db view ∧ view.Steady state.store.uuid)
      (World.Steady state.store.uuid)
      (Jobs.enqueueExtraction state.store.uuid tx partnerId m.id) w := by
  have hinsert : quietServer.Leads () (fun (answer : Option JobRow) w' ↦
      answer ≠ none ∧ ∃ view, w'.Sees db view ∧ view.Steady state.store.uuid)
      (World.Steady state.store.uuid)
      (runStatement (.jobsInsert tx.bureauId partnerId m.id .extractDocument
        (extractionIdempotencyKey state.store.uuid m.id .extractDocument))) w := by
    apply leads_statement hrows hw
    intro id now answer writes w' hexec hsees
    cases answer with
    | none =>
        -- a job with this key would have a material, and the material is new
        rcases Sql.exec_jobsInsert hexec with ⟨hsome, -⟩ | ⟨-, -, job, hjob, hkey⟩
        · cases hsome
        · simp only [Sql.hasKey, Bool.and_eq_true, decide_eq_true_eq] at hkey
          have hid : job.materialId = m.id := extractionIdempotencyKey_injective _ _
            ((hrows.valid.jobKeys job hjob).symm.trans hkey.2)
          obtain ⟨m', hm', hof⟩ := hrows.valid.jobMaterial job hjob
          exact absurd (hof.2.2.trans hid) (hfresh m' hm')
    | some row =>
        obtain ⟨hrow, rfl, -, hjobFresh, m', hm', hof⟩ := Db.fresh_of_jobsInsert hexec
        have hsame : m' = m := by
          have hid : m'.id = m.id := by rw [hof.2.2, hrow, Sql.newJobRow]
          rcases List.mem_append.mp hm' with hm' | hm'
          · exact absurd hid (hfresh m' hm')
          · exact List.mem_singleton.mp hm'
        refine ⟨fun heq ↦ (by cases heq), _, hsees, ?_⟩
        rw [Db.overlay_newJob hjobFresh]
        refine hrows.upload hfresh hjobFresh (hsame ▸ hof) ?_ ?_
        · rw [hrow, Sql.newJobRow]
        · rw [hstatus, hrow, Sql.newJobRow]
          rfl
  apply hinsert.andThen
  rintro answer w' ⟨hsome, hview⟩
  cases answer with
  | none => exact absurd rfl hsome
  | some row => exact .return hview

theorem leads_enqueue_again {m : MaterialRow} {tx : ScopedTx} (hrows : db.Steady state.store.uuid)
    (hw : w.Sees db db) (hm : m ∈ db.materials) (hbureau : m.bureauId = tx.bureauId) :
    quietServer.Leads () (fun _ w' ↦ ∃ view, w'.Sees db view ∧ view.Steady state.store.uuid)
      (World.Steady state.store.uuid)
      (Jobs.enqueueExtraction state.store.uuid tx partnerId m.id) w := by
  have hkey := hrows.exists_key hm
  rw [hbureau] at hkey
  have hinsert : quietServer.Leads ()
      (fun (answer : Option JobRow) w' ↦ answer = none ∧ w'.Sees db db)
      (World.Steady state.store.uuid)
      (runStatement (.jobsInsert tx.bureauId partnerId m.id .extractDocument
        (extractionIdempotencyKey state.store.uuid m.id .extractDocument))) w := by
    apply leads_statement hrows hw
    intro id now answer writes w' hexec hsees
    cases answer with
    | none =>
        rcases Sql.exec_jobsInsert hexec with ⟨hsome, -⟩ | ⟨-, rfl, -⟩
        · cases hsome
        · exact ⟨rfl, hsees⟩
    | some row =>
        obtain ⟨-, -, hnone, -⟩ := Db.fresh_of_jobsInsert hexec
        exact absurd (hnone.symm.trans hkey) Bool.false_ne_true
  apply hinsert.andThen
  rintro answer w' ⟨hnone, hsees⟩
  subst hnone
  have hfound : quietServer.Leads () (fun (_ : Option JobRow) w' ↦ w'.Sees db db)
      (World.Steady state.store.uuid)
      (runStatement (.jobsByKey tx.bureauId
        (extractionIdempotencyKey state.store.uuid m.id .extractDocument))) w' := by
    apply leads_statement hrows hsees
    intro id now answer writes w'' hexec hsees'
    cases hexec
    exact hsees'
  apply hfound.andThen
  intro found w'' hsees'
  cases found with
  | none => exact .fail (hsees'.steady hrows)
  | some row => exact .return ⟨db, hsees', hrows⟩

/-- A new material that waits for its job, or the one that is there. -/
theorem leads_insert {tx : ScopedTx} {new : NewMaterial} (hrows : db.Steady uuid)
    (hw : w.Sees db db) :
    quietServer.Leads () (fun outcome w' ↦
      (∃ m : MaterialRow, outcome.material.id = m.id ∧ m.status = .queued ∧
        (∀ r ∈ db.materials, r.id ≠ m.id) ∧
          w'.Sees db { db with materials := db.materials ++ [m] }) ∨
      (∃ m ∈ db.materials, outcome.material.id = m.id ∧ m.bureauId = tx.bureauId ∧
        w'.Sees db db))
      (World.Steady uuid) (Materials.insert tx new) w := by
  have hinsert : quietServer.Leads () (fun (answer : Option MaterialRow) w' ↦
      match answer with
      | some row => row.status = .queued ∧ (∀ r ∈ db.materials, r.id ≠ row.id) ∧
          w'.Sees db { db with materials := db.materials ++ [row] }
      | none => w'.Sees db db)
      (World.Steady uuid) (runStatement (.materialsInsert tx.bureauId new)) w := by
    apply leads_statement hrows hw
    intro id now answer writes w' hexec hsees
    cases answer with
    | none =>
        rcases Sql.exec_materialsInsert hexec with ⟨hsome, -⟩ | ⟨-, rfl, -⟩
        · cases hsome
        · exact hsees
    | some row =>
        obtain ⟨hrow, rfl, hfresh⟩ := Db.fresh_of_materialsInsert hexec
        rw [Db.overlay_newMaterial hfresh] at hsees
        exact ⟨by rw [hrow, Sql.newMaterialRow], hfresh, hsees⟩
  apply hinsert.andThen
  intro answer w' hanswer
  cases answer with
  | some row =>
      obtain ⟨hstatus, hfresh, hsees⟩ := hanswer
      exact .return (.inl ⟨row, rfl, hstatus, hfresh, hsees⟩)
  | none =>
      have hfound : quietServer.Leads () (fun (found : Option Material) w' ↦
          w'.Sees db db ∧ ∀ material, found = some material →
            ∃ m ∈ db.materials, material.id = m.id ∧ m.bureauId = tx.bureauId)
          (World.Steady uuid) (Materials.findByDigest tx new.partnerId new.sha256) w' := by
        have hselect : quietServer.Leads () (fun (found : Option MaterialRow) w' ↦
            w'.Sees db db ∧
              found = db.materials.find? (Sql.hasDigest tx.bureauId new.partnerId new.sha256))
            (World.Steady uuid)
            (runStatement (.materialsByDigest tx.bureauId new.partnerId new.sha256)) w' := by
          apply leads_statement hrows hanswer
          intro id now answer writes w'' hexec hsees
          cases hexec
          exact ⟨hsees, rfl⟩
        apply hselect.andThen
        rintro found w'' ⟨hsees, hfound⟩
        refine .return ⟨hsees, fun material hmaterial ↦ ?_⟩
        obtain ⟨m, hm, rfl⟩ := Option.map_eq_some_iff.mp hmaterial
        rw [hfound] at hm
        have hdigest := List.find?_some hm
        simp only [Sql.hasDigest, Sql.isMaterialOf, Bool.and_eq_true, decide_eq_true_eq] at hdigest
        exact ⟨m, List.mem_of_find?_eq_some hm, rfl, hdigest.1.1⟩
      apply hfound.andThen
      rintro found w'' ⟨hsees, hmaterial⟩
      cases found with
      | none => exact .fail (hsees.steady hrows)
      | some material =>
          obtain ⟨m, hm, hid, hbureau⟩ := hmaterial material rfl
          exact .return (.inr ⟨m, hm, hid, hbureau, hsees⟩)

theorem preserves_publish (new : NewMaterial) :
    quietServer.Preserves () (World.Steady state.store.uuid)
      (Routes.publish state session partnerId new) := by
  intro w hw
  refine Machine.Leads.gives ((leads_begin hw rfl session.bureauId).andThen ?_)
  rintro tx w₁ ⟨-, h₁⟩
  apply (leads_insert hw.rows h₁).andThen
  intro outcome w₂ h₂
  have henqueue : quietServer.Leads ()
      (fun _ w' ↦ ∃ view, w'.Sees w.db view ∧ view.Steady state.store.uuid)
      (World.Steady state.store.uuid)
      (Jobs.enqueueExtraction state.store.uuid tx partnerId outcome.material.id) w₂ := by
    rcases h₂ with ⟨m, hid, hstatus, hfresh, hsees⟩ | ⟨m, hm, hid, hbureau, hsees⟩
    · rw [hid]
      exact leads_enqueue hw.rows hsees hfresh hstatus
    · rw [hid]
      exact leads_enqueue_again hw.rows hsees hm hbureau
  apply henqueue.andThen
  rintro job w₃ ⟨view, hsees, hview⟩
  apply (leads_commit hw.rows hsees hview tx).andThen
  exact fun _ w₄ h₄ ↦ .return h₄

theorem preserves_spares {α : Type} {p : Prog α} (hp : p.Calls Op.SparesQueue) :
    quietServer.Preserves () (World.Steady uuid) p := by
  apply Machine.Preserves.of_calls hp
  intro op hop w c a w' hw hperform
  obtain ⟨hnone, hgranted⟩ := Machine.perform_guarded.mp hperform
  exact hw.perform hop hnone hgranted

theorem preserves_upload (multipart : Multipart) :
    quietServer.Preserves () (World.Steady state.store.uuid)
      (Routes.upload state session partnerId multipart) := by
  have hexists : Calls Op.SparesQueue (Routes.partnerExists session partnerId) :=
    Routes.calls_partnerExists ⟨trivial, trivial, trivial⟩ trivial
  have hreceive : Calls Op.SparesQueue
      (Upload.receiveFile state ⟨session.bureauId, partnerId⟩ multipart) := by
    have hspares (op : Op) (hop : op.OfIntake state.store Set.univ) : op.SparesQueue := by
      cases op with
      | sql => exact hop.elim
      | _ => trivial
    exact Upload.calls_receiveFile hspares multipart fun _ _ ↦ Set.mem_univ _
  apply (preserves_spares hexists).andThen
  intro present
  split
  · exact .done _
  · apply (preserves_spares hreceive).andThen
    intro received
    apply (Machine.Preserves.ofExcept _).andThen
    intro new
    apply (Machine.Preserves.lift (preserves_publish new)).andThen
    intro r
    cases r with
    | ok outcome => exact .done _
    | error e =>
        apply preserves_spares
        apply Calls.andThen (Calls.lift (calls_perform trivial))
        intro _
        apply Calls.andThen (Calls.lift (Upload.calls_reportOrphanedObject (fun _ ↦ trivial) _))
        exact fun _ ↦ by trivial

/-- The material is put back into `queued`, its job not yet. -/
def Db.requeued (db : Db) (bureauId partnerId materialId : Uuid) (now : Timestamp) : Db :=
  { db with
    materials := db.materials.map fun row ↦
      if Sql.isMaterial bureauId partnerId materialId row then Sql.requeued now row else row }

theorem leads_requeue {tx : ScopedTx} (hrows : db.Steady uuid) (hw : w.Sees db db) :
    quietServer.Leads () (fun answer w' ↦
      (answer ≠ none → ∃ m ∈ db.materials,
        Sql.isMaterial tx.bureauId partnerId materialId m = true) ∧
      ∃ now, w'.Sees db (db.requeued tx.bureauId partnerId materialId now))
      (World.Steady uuid) (Materials.requeue tx partnerId materialId) w := by
  have hupdate : quietServer.Leads () (fun (answer : Option MaterialRow) w' ↦
      (answer ≠ none → ∃ m ∈ db.materials,
        Sql.isMaterial tx.bureauId partnerId materialId m = true) ∧
      ∃ now, w'.Sees db (db.requeued tx.bureauId partnerId materialId now))
      (World.Steady uuid)
      (runStatement (.materialsRequeue tx.bureauId partnerId materialId)) w := by
    apply leads_statement hrows hw
    intro id now answer writes w' hexec hsees
    obtain ⟨hr, -⟩ := Sql.map_updateRows_eq_ok hexec
    cases hr
    constructor
    · intro hsome
      obtain ⟨row, hrow⟩ := Option.ne_none_iff_exists'.mp hsome
      obtain ⟨m, hm, -⟩ := List.mem_map.mp (List.mem_of_head? hrow)
      exact ⟨m, (List.mem_filter.mp hm).1, (List.mem_filter.mp hm).2⟩
    · have hrows' := Db.overlay_updateMaterials hrows.valid.materialIds
        (Sql.isMaterial tx.bureauId partnerId materialId) (f := Sql.requeued now) fun _ ↦ rfl
      rw [hrows'] at hsees
      exact ⟨now, hsees⟩
  apply hupdate.andThen
  rintro answer w' ⟨hsome, hsees⟩
  refine .return ⟨fun hmap ↦ hsome ?_, hsees⟩
  rintro rfl
  exact hmap rfl

/-- The job of the material follows it. -/
theorem leads_requeueJob {tx : ScopedTx} {now : Timestamp} (hrows : db.Steady state.store.uuid)
    (hm : ∃ m ∈ db.materials, Sql.isMaterial tx.bureauId partnerId materialId m = true)
    (hw : w.Sees db (db.requeued tx.bureauId partnerId materialId now)) :
    quietServer.Leads () (fun _ w' ↦ ∃ view, w'.Sees db view ∧ view.Steady state.store.uuid)
      (World.Steady state.store.uuid)
      (Jobs.requeueExtraction state.store.uuid tx partnerId materialId) w := by
  obtain ⟨m, hm, hmaterial⟩ := hm
  have hupdate : quietServer.Leads () (fun (answer : Option JobRow) w' ↦
      answer ≠ none ∧ ∃ view, w'.Sees db view ∧ view.Steady state.store.uuid)
      (World.Steady state.store.uuid)
      (runStatement (.jobsRequeue tx.bureauId partnerId materialId
        (extractionIdempotencyKey state.store.uuid materialId .extractDocument))) w := by
    apply leads_statement hrows hw
    intro id now' answer writes w' hexec hsees
    simp only [Sql.exec] at hexec
    split at hexec
    · cases hexec
    obtain ⟨hr, -⟩ := Sql.map_updateRows_eq_ok hexec
    cases hr
    refine ⟨?_, _, hsees, ?_⟩
    · obtain ⟨job, hjob, hextraction⟩ := hrows.exists_extraction hm hmaterial
      have hseen : job ∈ (db.requeued tx.bureauId partnerId materialId now).jobs := hjob
      have hpicked := List.mem_map_of_mem (f := Sql.requeuedJob now')
        (List.mem_filter.mpr ⟨hseen, hextraction⟩)
      intro hnone
      rw [List.head?_eq_none_iff] at hnone
      rw [hnone] at hpicked
      cases hpicked
    · have hids : ((db.requeued tx.bureauId partnerId materialId now).jobs.map JobRow.id).Nodup :=
        hrows.valid.jobIds
      have hjobs := Db.overlay_updateJobs hids
        (Sql.isExtractionOf tx.bureauId partnerId materialId
          (extractionIdempotencyKey state.store.uuid materialId .extractDocument))
        (f := Sql.requeuedJob now') fun _ ↦ rfl
      rw [hjobs]
      exact hrows.retry tx.bureauId partnerId materialId now now'
  apply hupdate.andThen
  rintro answer w' ⟨hsome, hview⟩
  cases answer with
  | none => exact absurd rfl hsome
  | some row => exact .return hview

theorem preserves_retry :
    quietServer.Preserves () (World.Steady state.store.uuid)
      (Routes.retry state session partnerId materialId) := by
  intro w hw
  refine Machine.Leads.gives (((leads_begin hw rfl session.bureauId).mapError _).andThen ?_)
  rintro tx w₁ ⟨-, h₁⟩
  have hselect : quietServer.Leads () (fun (_ : Option MaterialRow) w' ↦ w'.Sees w.db w.db)
      (World.Steady state.store.uuid)
      (runStatement (.materialsGet tx.bureauId partnerId materialId)) w₁ := by
    apply leads_statement hw.rows h₁
    intro id now answer writes w' hexec hsees
    cases hexec
    exact hsees
  have hget : quietServer.Leads () (fun _ w' ↦ w'.Sees w.db w.db) (World.Steady state.store.uuid)
      (Materials.getInPartner tx partnerId materialId) w₁ :=
    hselect.andThen fun _ _ h ↦ .return h
  apply (hget.mapError _).andThen
  intro stored w₂ h₂
  cases stored with
  | none => exact leads_leave hw.rows h₂ tx _
  | some stored =>
      dsimp only
      split
      · exact leads_leave hw.rows h₂ tx _
      · apply ((leads_requeue hw.rows h₂).mapError _).andThen
        rintro material w₃ ⟨hm, now, h₃⟩
        cases material with
        | none => exact leads_leave hw.rows h₃ tx _
        | some material =>
            apply ((leads_requeueJob hw.rows (hm nofun) h₃).mapError _).andThen
            rintro job w₄ ⟨view, h₄, hview⟩
            apply ((leads_commit hw.rows h₄ hview tx).mapError _).andThen
            exact fun _ w₅ h₅ ↦ .return h₅

theorem preserves_reclaimLeases (bureauId : Uuid) :
    quietServer.Preserves () (World.Steady uuid) (Maintenance.reclaimLeases bureauId) := by
  apply preserves_spares
  exact Maintenance.calls_reclaimLeases ⟨trivial, trivial, trivial⟩ trivial

end Programs

/-! ## The worker -/

section Worker

/-- The rows are in order, also those that an open transaction sees. -/
structure World.Valid (uuid : UuidCrate) (w : World Unit) : Prop where
  rows : w.db.Valid uuid
  view : (w.view ()).Valid uuid

/-- The operations of a worker. -/
def Op.OfWorker : Op → Prop
  | .begin _ => True
  | .sql (.workerMaterial _ _ _) => True
  | .sql (.workerJob _ _ _) => True
  | .commit => True
  | _ => False

theorem Db.Valid.exec_worker {s : Sql} {id : Uuid} {now : Timestamp} {answer : s.Answer}
    {writes : List Write} (hdb : db.Valid uuid) (hs : (Op.sql s).OfWorker)
    (h : s.exec id now db = .ok (answer, writes)) : (db.overlay writes).Valid uuid := by
  cases s with
  | workerMaterial bureauId materialId change =>
      obtain ⟨hr, -⟩ := Sql.map_updateRows_eq_ok h
      cases hr
      have hrows := Db.overlay_updateMaterials hdb.materialIds
        (fun row ↦ row.bureauId = bureauId && row.id = materialId)
        (f := Sql.changed change now) fun _ ↦ rfl
      rw [hrows]
      apply hdb.updateMaterials
      intro row
      split <;> rfl
  | workerJob bureauId jobId change =>
      obtain ⟨hr, -⟩ := Sql.map_updateRows_eq_ok h
      cases hr
      have hrows := Db.overlay_updateJobs hdb.jobIds
        (fun row ↦ row.bureauId = bureauId && row.id = jobId)
        (f := Sql.changedJob change now) fun _ ↦ rfl
      rw [hrows]
      apply hdb.updateJobs
      intro row
      split <;> rfl
  | _ => exact hs.elim

theorem World.Valid.perform {op : Op} {c : Choice} {a : op.Ans} (h : w.Valid uuid)
    (hop : op.OfWorker) (hperform : (server Unit).perform () op c w = some (a, w')) :
    w'.Valid uuid := by
  cases World.perform_dbStep hperform with
  | same hdb hlog htx =>
      have hview : w'.view () = w.view () := by
        rw [World.view, World.view, hdb, World.pending_congr (congrFun htx ())]
      exact ⟨hdb ▸ h.rows, hview ▸ h.view⟩
  | ended hdb hlog htx =>
      have hview : w'.view () = w'.db := World.view_of_none (by simp [htx])
      exact ⟨hdb ▸ h.rows, by rw [hview, hdb]; exact h.rows⟩
  | began bureauId now hbegin hdb hlog htx =>
      have hview : w'.view () = w'.db := by simp [World.view, World.pending, htx]
      exact ⟨hdb ▸ h.rows, by rw [hview, hdb]; exact h.rows⟩
  | wrote tx s id answer writes hsql hopen hfree hexec hdb hlog htx =>
      cases Option.some.inj hsql
      exact ⟨hdb ▸ h.rows, World.view_wrote hopen hdb htx ▸ h.view.exec_worker hop hexec⟩
  | committed tx hcommit hopen hdb hlog htx =>
      have hpublished : w'.db = w.view () := by
        rw [hdb, World.view, World.pending_eq_of_tx hopen]
      have hview : w'.view () = w'.db := World.view_of_none (by simp [htx])
      exact ⟨hpublished ▸ h.view, by rw [hview, hpublished]; exact h.view⟩

theorem preserves_worker (bureauId : Uuid) (changes : List WorkerChange) :
    (server Unit).Preserves () (World.Valid uuid) (Worker.step bureauId changes) := by
  have hcalls : Calls Op.OfWorker (Worker.step bureauId changes) :=
    Worker.calls_step trivial trivial fun change _ ↦ by cases change <;> trivial
  exact .of_calls hcalls fun op hop w c a w' hw hperform ↦ hw.perform hop hperform

end Worker

/-! ## Runs -/

/-- Between two events no transaction is open. -/
structure World.Rested (uuid : UuidCrate) (w : World Unit) : Prop where
  rows : w.db.Steady uuid
  none : w.tx () = none

theorem World.rested_abandon (hrows : w.db.Steady uuid) : (w.abandon ()).Rested uuid where
  rows := by
    unfold World.abandon World.releaseGuard
    split <;> exact hrows
  none := by simp [World.abandon, World.setTx]

/-- The step lemma. -/
theorem QueueEvent.keeps {state : AppState} {e : QueueEvent × List Choice}
    (h : w.Rested state.store.uuid) (hstep : QueueEvent.step state w e = some w')
    (hmoves : QueueEvent.Moves state w e w') : w'.Rested state.store.uuid := by
  obtain ⟨⟨_, last⟩, hplay, rfl⟩ := Option.map_eq_some_iff.mp hstep
  obtain ⟨hmeets, hworker⟩ := hmoves
  have hsteady : w.Steady state.store.uuid := .of_none h.rows h.none
  have hquiet := Machine.play_guarded hmeets hplay
  have hended {α : Type} {p : Prog α}
      (hkeep : quietServer.Preserves () (World.Steady state.store.uuid) p)
      (hprogram : e.1.program state = Program.bind p fun _ ↦ .done ()) :
      (last.abandon ()).Rested state.store.uuid := by
    rw [hprogram] at hquiet
    have hall := (hkeep.bind fun _ ↦ .done ()) w hsteady
    exact World.rested_abandon (Machine.gives_iff.mp hall _ _ _ hquiet).rows
  obtain ⟨event, choices⟩ := e
  cases event with
  | upload session partnerId multipart => exact hended (preserves_upload multipart) rfl
  | retry session partnerId materialId => exact hended preserves_retry rfl
  | reclaim bureauId => exact hended (preserves_reclaimLeases bureauId) rfl
  | worker bureauId changes =>
      have hvalid : w.Valid state.store.uuid :=
        ⟨h.rows.valid, World.view_of_none h.none ▸ h.rows.valid⟩
      have hall := ((preserves_worker bureauId changes).bind fun _ ↦ .done ()) w hvalid
      have hlast := Machine.gives_iff.mp hall _ _ _ hplay
      have hdb : (last.abandon ()).db = last.db := by
        unfold World.abandon World.releaseGuard
        split <;> rfl
      exact World.rested_abandon ⟨hlast.rows, hdb ▸ hworker trivial h.rows.agreement⟩

/-- A reclaim that meets no outage publishes what its statement writes. -/
theorem QueueEvent.step_reclaim {state : AppState} {bureauId id : Uuid} {now : Timestamp} {n : ℕ}
    {writes : List Write}
    (hexec : (Sql.jobsReclaim bureauId).exec id now w.db = .ok (n, writes)) :
    ∃ w', QueueEvent.step state w (.reclaim bureauId, List.replicate 3 (.granted id now)) =
      some w' ∧ w'.db = w.db.overlay writes := by
  let opened : World Unit := w.setTx () (some ⟨bureauId, now, []⟩)
  let written : World Unit := opened.setTx () (some ⟨bureauId, now, writes⟩)
  have hview : opened.view () = w.db := by
    simp [opened, World.view, World.pending, World.setTx]
  have hbegin : (server Unit).perform () (.begin bureauId) (.granted id now) w =
      some (.ok (), opened) := by
    rfl
  have hsql : (server Unit).perform () (.sql (.jobsReclaim bureauId)) (.granted id now) opened =
      some (.ok n, written) := by
    have hopen : opened.tx () = some ⟨bureauId, now, []⟩ := by simp [opened, World.setTx]
    have hfree (clashes : Write → Bool) : ¬ opened.Blocked () clashes := by
      rintro ⟨j, hj, -⟩
      exact hj rfl
    change opened.runSql () (.jobsReclaim bureauId) id = _
    rw [World.runSql, hopen]
    dsimp only
    rw [if_neg (hfree _), hview, hexec]
    rfl
  have hcommit : (server Unit).perform () .commit (.granted id now) written =
      some (.ok (), written.publish () writes) := by
    have hopen : written.tx () = some ⟨bureauId, now, writes⟩ := by simp [written, World.setTx]
    change World.grant () id now written .commit = _
    rw [World.grant, hopen]
  have hplay : (server Unit).play () (QueueEvent.program state (.reclaim bureauId))
      (List.replicate 3 (.granted id now)) w = some ((), written.publish () writes) := by
    change ((server Unit).perform () (.begin bureauId) (.granted id now) w).bind _ = _
    rw [hbegin, Option.bind_some]
    change ((server Unit).perform () (.sql (.jobsReclaim bureauId)) (.granted id now)
      opened).bind _ = _
    rw [hsql, Option.bind_some]
    change ((server Unit).perform () .commit (.granted id now) written).bind _ = _
    rw [hcommit]
    rfl
  refine ⟨(written.publish () writes).abandon (), ?_, ?_⟩
  · rw [QueueEvent.step, hplay]
    rfl
  · unfold World.abandon World.releaseGuard
    split <;> rfl

end Steps

/-- No material is in `processing` while its only job is `failed`. -/
def Db.NoneStuck (db : Db) : Prop :=
  ∀ m ∈ db.materials, ∀ job, db.jobsOf m.id = [job] → m.status = .processing →
    job.status ≠ .failed

/-- A reclaim keeps the two tables in step exactly when it finds no lease that is
over; where none does, they are in step along every run. -/
theorem reclaim_in_step_iff (state : AppState) (w : World Unit) (hidle : w.tx () = none)
    (hvalid : w.db.Valid state.store.uuid) (hchecks : ∀ job ∈ w.db.jobs, job.check = true)
    (hagreement : w.db.Agreement) :
    (∀ bureauId id now, ∃ w', QueueEvent.step state w
        (.reclaim bureauId, List.replicate 3 (.granted id now)) = some w' ∧
      (w'.db.Agreement ↔ ∀ job ∈ w.db.jobs, Sql.isExpired bureauId now job = false)) ∧
    ∀ events, Run.Along (QueueEvent.step state) (QueueEvent.Moves state) w events →
      Run.Throughout (QueueEvent.step state) (fun t ↦ t.db.Agreement ∧ t.db.NoneStuck) w
        events := by
  constructor
  · intro bureauId id now
    obtain ⟨n, writes, hexec, hiff⟩ :=
      Db.agreement_reclaim_iff hvalid hchecks hagreement bureauId id now
    obtain ⟨w', hstep, hdb⟩ := QueueEvent.step_reclaim hexec
    exact ⟨w', hstep, hdb ▸ hiff⟩
  · intro events hmoves
    have hrested : w.Rested state.store.uuid := ⟨⟨hvalid, hagreement⟩, hidle⟩
    have hall : ∀ e ∈ events, (fun _ : QueueEvent × List Choice ↦ True) e := fun _ _ ↦ trivial
    have hrun : Run.Throughout (QueueEvent.step state) (World.Rested state.store.uuid) w events :=
      hmoves.throughout (fun t e t' _ h hstep hgood ↦ QueueEvent.keeps h hstep hgood) hall hrested
    rw [Run.throughout_iff] at hrun ⊢
    intro before after t hsplit ht
    have hrows := (hrun before after t hsplit ht).rows.agreement
    refine ⟨hrows, fun m hm job hjobs hprocessing ↦ ?_⟩
    obtain ⟨hjob, hid⟩ := Db.mem_jobsOf.mp (hjobs ▸ List.mem_singleton_self job)
    exact hrows.not_stuck hm hprocessing hjob hid

namespace Sample

/-- A material in work, and its job at the last attempt, whose lease ends at 5. -/
def inWork : MaterialRow :=
  ⟨uuid 3, uuid 1, uuid 2, "contract.pdf".toList, "application/pdf".toList, 5,
    List.replicate 64 'a', "key".toList, .processing, none, none, 0, 0⟩

def lastAttempt : JobRow :=
  ⟨uuid 4, uuid 1, uuid 2, uuid 3, .extractDocument, .running, none, 5, 5,
    extractionIdempotencyKey UuidCrate.reference (uuid 3) .extractDocument, 0,
    some "worker".toList, some 5, none, 0, 0⟩

def crashed : World Unit :=
  { World.start [partner] with db := ⟨[uuid 1], [partner], [inWork], [lastAttempt]⟩ }

theorem crashed_valid : crashed.db.Valid UuidCrate.reference where
  materialIds := List.nodup_singleton _
  jobIds := List.nodup_singleton _
  jobMaterial job hjob := ⟨inWork, List.mem_singleton_self _, by
    rw [List.mem_singleton.mp hjob]
    exact ⟨rfl, rfl, rfl⟩⟩
  jobKeys job hjob := by
    rw [List.mem_singleton.mp hjob]
    rfl

theorem crashed_checks : ∀ job ∈ crashed.db.jobs, job.check = true := by decide

theorem crashed_agreement : crashed.db.Agreement := by
  intro m hm
  rw [List.mem_singleton.mp hm]
  exact ⟨lastAttempt, rfl, rfl⟩

/-- After the crash of a worker at the last attempt. -/
theorem reclaim_strands : crashed.db.Agreement ∧
    ∃ w' m job, QueueEvent.step state crashed
      (.reclaim (uuid 1), List.replicate 3 (.granted (uuid 5) 6)) = some w' ∧
        m ∈ w'.db.materials ∧ w'.db.jobsOf m.id = [job] ∧ job.status = .failed ∧
          m.status = .processing ∧ m.status.canRetry = false :=
  ⟨crashed_agreement, _, inWork, Sql.reclaimed 6 lastAttempt, rfl, List.mem_singleton_self _,
    rfl, rfl, rfl, rfl⟩

/-- Before the lease is over, a reclaim leaves them in step. -/
theorem reclaim_in_time : ∃ w', QueueEvent.step state crashed
      (.reclaim (uuid 1), List.replicate 3 (.granted (uuid 5) 4)) = some w' ∧
    (w'.db.Agreement ↔ ∀ job ∈ crashed.db.jobs, Sql.isExpired (uuid 1) 4 job = false) :=
  (reclaim_in_step_iff state crashed rfl crashed_valid crashed_checks crashed_agreement).1
    (uuid 1) (uuid 5) 4

end Sample

end Otdel
