import Otdel.Server.Consistency
import Otdel.Server.Frame
import Otdel.Server.TxSafety

/-!
# Concurrent retries of one material

A retry reads the status in one statement and writes it in another.  Between the
two it holds no lock, so what it replaces was failed only if no other transaction
has moved the material on in the meantime.
-/

namespace Otdel

open Program Versions

/-- A retry of the material, or any other program. -/
inductive RetryCaller where
  | retry
  | other (program : Prog Answer)

/-! ## The program of a retry -/

namespace Retry

variable (state : AppState) (row : MaterialRow)

def session : Session := ⟨row.bureauId⟩

def answer (r : Except ApiError Response) : Prog Answer := .done (.response r)

def failing (e : DbError) : Prog Answer := answer (.error (.ofDbError e))

def leaving (error : ApiError) : Prog Answer :=
  .call .rollback fun _ ↦ answer (.error error)

def jobKey : Text := extractionIdempotencyKey state.store.uuid row.id .extractDocument

def committed (material : MaterialRow) : Except DbError Unit → Prog Answer
  | .ok _ => answer (.ok (.material 200 (materialFromRow material)))
  | .error e => failing e

def committing (material : MaterialRow) : Prog Answer := .call .commit (committed material)

/-- The job, where there is one with the key. -/
def lookingUp (material : MaterialRow) : Prog Answer :=
  .call (.sql (.jobsByKey row.bureauId (jobKey state row))) fun
    | .ok (some _) => committing material
    | .ok none => failing (.decode "job insert conflicted but the existing job is not visible")
    | .error e => failing e

def inserting (material : MaterialRow) : Prog Answer :=
  .call (.sql (.jobsInsert row.bureauId row.partnerId row.id .extractDocument
    (jobKey state row))) fun
    | .ok (some _) => committing material
    | .ok none => lookingUp state row material
    | .error e => failing e

def jobRequeued (material : MaterialRow) : Except DbError (Option JobRow) → Prog Answer
  | .ok (some _) => committing material
  | .ok none => inserting state row material
  | .error e => failing e

def requeueingJob (material : MaterialRow) : Prog Answer :=
  .call (.sql (.jobsRequeue row.bureauId row.partnerId row.id (jobKey state row)))
    (jobRequeued state row material)

def requeued : Except DbError (Option MaterialRow) → Prog Answer
  | .ok (some material) => requeueingJob state row material
  | .ok none => leaving Routes.materialNotFound
  | .error e => failing e

/-- The UPDATE of the material. -/
def requeueing : Prog Answer :=
  .call (.sql (.materialsRequeue row.bureauId row.partnerId row.id)) (requeued state row)

/-- After the SELECT. -/
def deciding : Option MaterialRow → Prog Answer
  | none => leaving Routes.materialNotFound
  | some found =>
      if found.status.canRetry = false then leaving (.new found.status.retryRefusal)
      else requeueing state row

def selected : Except DbError (Option MaterialRow) → Prog Answer
  | .ok found => deciding state row found
  | .error e => failing e

def selecting : Prog Answer :=
  .call (.sql (.materialsGet row.bureauId row.partnerId row.id)) (selected state row)

def began : Except DbError Unit → Prog Answer
  | .ok _ => selecting state row
  | .error e => failing e

def beginning : Prog Answer := .call (.begin row.bureauId) (began state row)

end Retry

def RetryCaller.program (state : AppState) (row : MaterialRow) : RetryCaller → Prog Answer
  | retry => (Request.retry (Retry.session row) row.partnerId row.id).program state
  | other program => program

/-- What follows the UPDATE of the material. -/
theorem Retry.requeueingJob_eq (state : AppState) (row material : MaterialRow) :
    Program.bind (do
        let _ ← Routes.db
          (Jobs.requeueExtraction state.store.uuid ⟨row.bureauId⟩ row.partnerId row.id)
        Routes.db (ScopedTx.commit ⟨row.bureauId⟩)
        return .material 200 (materialFromRow material) : TryProg ApiError Response)
      (fun r ↦ .done (.response r)) = requeueingJob state row material := by
  have hcommit : ∀ job : Job, Program.bind (do
        Routes.db (ScopedTx.commit ⟨row.bureauId⟩)
        return .material 200 (materialFromRow material) : TryProg ApiError Response)
      (fun r ↦ .done (Answer.response r)) = committing material := by
    intro job
    refine congrArg (Program.call Op.commit) (funext fun committed ↦ ?_)
    cases committed with
    | error e => rfl
    | ok => rfl
  refine congrArg (Program.call (Op.sql _)) (funext fun requeued ↦ ?_)
  cases requeued with
  | error e => rfl
  | ok job =>
      cases job with
      | some job => exact hcommit (jobFromRow job)
      | none =>
          refine congrArg (Program.call (Op.sql _)) (funext fun inserted ↦ ?_)
          cases inserted with
          | error e => rfl
          | ok job =>
              cases job with
              | some job => exact hcommit (jobFromRow job)
              | none =>
                  refine congrArg (Program.call (Op.sql _)) (funext fun found ↦ ?_)
                  cases found with
                  | error e => rfl
                  | ok job =>
                      cases job with
                      | none => rfl
                      | some job => exact hcommit (jobFromRow job)

theorem Retry.deciding_eq (state : AppState) (row found : MaterialRow) :
    Program.bind (if found.status.canRetry = false then
        Routes.leave ⟨row.bureauId⟩ (.new found.status.retryRefusal)
      else do
        match ← Routes.db (Materials.requeue ⟨row.bureauId⟩ row.partnerId row.id) with
        | none => Routes.leave ⟨row.bureauId⟩ Routes.materialNotFound
        | some material =>
            let _ ← Routes.db
              (Jobs.requeueExtraction state.store.uuid ⟨row.bureauId⟩ row.partnerId row.id)
            Routes.db (ScopedTx.commit ⟨row.bureauId⟩)
            return .material 200 material : TryProg ApiError Response)
      (fun r ↦ .done (.response r)) = deciding state row (some found) := by
  rw [deciding]
  by_cases hretry : found.status.canRetry = false
  · rw [if_pos hretry, if_pos hretry]
    rfl
  · rw [if_neg hretry, if_neg hretry]
    refine congrArg (Program.call (Op.sql _)) (funext fun requeued ↦ ?_)
    cases requeued with
    | error e => rfl
    | ok material =>
        cases material with
        | none => rfl
        | some material => exact requeueingJob_eq state row material

theorem RetryCaller.program_retry (state : AppState) (row : MaterialRow) :
    RetryCaller.retry.program state row = Retry.beginning state row := by
  refine congrArg (Program.call (Op.begin row.bureauId)) (funext fun began ↦ ?_)
  cases began with
  | error e => rfl
  | ok =>
      refine congrArg (Program.call (Op.sql _)) (funext fun selected ↦ ?_)
      cases selected with
      | error e => rfl
      | ok found =>
          cases found with
          | none => rfl
          | some found => exact Retry.deciding_eq state row found

/-! ## Where a retry stands -/

section Phases

variable {ι : Type} {state : AppState} {row : MaterialRow}

/-- The statements about the job, and the commit. -/
def Op.OfJobs : Op → Prop
  | .sql (.jobsRequeue _ _ _ _) => True
  | .sql (.jobsInsert _ _ _ _ _) => True
  | .sql (.jobsByKey _ _) => True
  | .commit => True
  | _ => False

/-- The committed version of the material, if there is one, may be retried. -/
def World.Retriable (w : World ι) (materialId : Uuid) : Prop :=
  ∀ r ∈ w.db.materials, r.id = materialId → r.status.canRetry = true

section Steps

variable {w w' : World ι} {i : ι} [DecidableEq ι]

theorem World.pending_nil_step {op : Option Op} (h : w.pending i = []) (hstep : DbStep i op w w')
    (hsql : ∀ s, op ≠ some (.sql s)) : w'.pending i = [] := by
  cases hstep with
  | same hdb hlog htx => rwa [DbStep.pending_same htx]
  | ended hdb hlog htx => simp [DbStep.pending_none htx]
  | began bureauId now hop hdb hlog htx => simp [DbStep.pending_some htx]
  | wrote tx s id answer writes hop => exact (hsql s hop).elim
  | committed tx hop hopen hdb hlog htx => simp [DbStep.pending_none htx]

omit [DecidableEq ι] in
theorem World.view_of_pending (w : World ι) (h : w.pending i = []) :
    (w.view i).materials = w.db.materials := by
  simp [World.view, h]

theorem World.closed_step {op : Option Op} (h : w.tx i = none) (hstep : DbStep i op w w')
    (hbegin : ∀ bureauId, op ≠ some (.begin bureauId)) : w'.tx i = none := by
  cases hstep with
  | same hdb hlog htx => rwa [htx]
  | ended hdb hlog htx => simp [htx]
  | began bureauId now hop => exact (hbegin bureauId hop).elim
  | wrote tx s id answer writes hop hopen => simp [h] at hopen
  | committed tx hop hopen => simp [h] at hopen

variable [Fintype ι]

/-- How a statement ends, in a transaction or outside. -/
theorem World.perform_statement {s : Sql} {choice : Choice} {r : Except DbError s.Answer}
    (h : w.perform i (.sql s) choice = some (r, w')) :
    (∃ tx id answer added, w.tx i = some tx ∧ r = .ok answer ∧
      s.exec id tx.now (w.view i) = .ok (answer, added) ∧
      w' = w.setTx i (some { tx with writes := tx.writes ++ added })) ∨
    ∃ e, r = .error e ∧ w'.tx i = none := by
  cases hopen : w.tx i with
  | some tx =>
      rcases perform_sql hopen h with ⟨id, answer, added, hr, hexec, hw⟩ | ⟨e, hr, -, htx, -⟩
      · exact Or.inl ⟨tx, id, answer, added, rfl, hr, hexec, hw⟩
      · exact Or.inr ⟨e, hr, htx⟩
  | none =>
      have htx : w'.tx i = none := World.closed_step hopen (World.perform_dbStep h) nofun
      cases r with
      | error e => exact Or.inr ⟨e, rfl, htx⟩
      | ok answer =>
          cases choice with
          | granted id now =>
              simp only [World.perform, World.grant, World.runSql, hopen] at h
              cases h
          | failed outage => cases h
          | lost | listed => cases h

end Steps

namespace Retry

/-- How far a retry has come.  From its UPDATE to its end it holds a version of
the material, and the one that it replaces is still the committed one. -/
inductive Phase (state : AppState) (row : MaterialRow) (w : World ι) (i : ι) : Prog Answer → Prop
  | beginning (hpending : w.pending i = []) : Phase state row w i (beginning state row)
  | selecting (hpending : w.pending i = []) : Phase state row w i (selecting state row)
  | requeueing (hpending : w.pending i = []) (hretry : w.Retriable row.id) :
      Phase state row w i (requeueing state row)
  | holding (found new : MaterialRow) (p : Prog Answer) (hfound : found ∈ w.db.materials)
      (hid : found.id = row.id) (hretry : found.status.canRetry = true) (hnew : new.id = row.id)
      (hpending : w.materials.pending i = [(new, some found)]) (hcalls : p.Calls Op.OfJobs) :
      Phase state row w i p
  | closed (p : Prog Answer) (htx : w.tx i = none) (hcalls : p.Calls Op.OfJobs) :
      Phase state row w i p
  | leaving (error : ApiError) (hpending : w.pending i = []) :
      Phase state row w i (leaving error)
  | ended (answer : Answer) (hpending : w.pending i = []) : Phase state row w i (.done answer)

variable {w w' : World ι} {i : ι} {p : Prog Answer}

theorem committing_calls (material : MaterialRow) : (committing material).Calls Op.OfJobs := by
  refine ⟨trivial, fun committed ↦ ?_⟩
  cases committed <;> trivial

theorem requeueingJob_calls (material : MaterialRow) :
    (requeueingJob state row material).Calls Op.OfJobs := by
  refine ⟨trivial, fun requeued ↦ ?_⟩
  rcases requeued with e | _ | job
  · trivial
  · refine ⟨trivial, fun inserted ↦ ?_⟩
    rcases inserted with e | _ | job
    · trivial
    · refine ⟨trivial, fun found ↦ ?_⟩
      rcases found with e | _ | job
      · trivial
      · trivial
      · exact committing_calls material
    · exact committing_calls material
  · exact committing_calls material

/-- What a retry holds back. -/
theorem Phase.pending (h : Phase state row w i p) {new : MaterialRow} {old : Option MaterialRow}
    (hwrite : .material new old ∈ w.pending i) :
    ∃ found ∈ w.db.materials, old = some found ∧ found.id = row.id ∧
      found.status.canRetry = true := by
  have hmine := World.mem_materials_pending.mpr hwrite
  cases h with
  | holding found new' p hfound hid hretry hnew hpending hcalls =>
      rw [hpending, List.mem_singleton, Prod.mk.injEq] at hmine
      exact ⟨found, hfound, hmine.2, hid, hretry⟩
  | closed p htx hcalls => simp [World.pending, htx] at hwrite
  | beginning hpending | selecting hpending | requeueing hpending hretry | leaving error hpending
  | ended answer hpending => simp [hpending] at hwrite

/-- Until a retry holds a version, it has written nothing at all. -/
theorem Phase.replaced (h : Phase state row w i p) {write : Write} (hwrite : write ∈ w.pending i) :
    ∃ found ∈ w.db.materials, found.id = row.id ∧ found.status.canRetry = true := by
  cases h with
  | holding found new' p hfound hid hretry hnew hpending hcalls =>
      exact ⟨found, hfound, hid, hretry⟩
  | closed p htx hcalls => simp [World.pending, htx] at hwrite
  | beginning hpending | selecting hpending | requeueing hpending hretry | leaving error hpending
  | ended answer hpending => simp [hpending] at hwrite

/-- A retry keeps its place when another request takes a step. -/
theorem Phase.frame (h : Phase state row w i p) (htx : w'.tx i = w.tx i)
    (hwindow : p = Retry.requeueing state row → w.Retriable row.id → w'.Retriable row.id)
    (hkept : ∀ found ∈ w.db.materials, (∃ v ∈ w.materials.pending i, v.1.id = found.id) →
      found ∈ w'.db.materials) : Phase state row w' i p := by
  have hsame := World.pending_congr htx
  cases h with
  | beginning hpending => exact .beginning (hsame.trans hpending)
  | selecting hpending => exact .selecting (hsame.trans hpending)
  | requeueing hpending hretry => exact .requeueing (hsame.trans hpending) (hwindow rfl hretry)
  | holding found new p hfound hid hretry hnew hpending hcalls =>
      have hfound' := hkept found hfound ⟨(new, some found), by simp [hpending], hnew.trans hid.symm⟩
      refine .holding found new p hfound' hid hretry hnew ?_ hcalls
      simpa [World.materials, hsame] using hpending
  | closed p hclosed hcalls => exact .closed p (htx.trans hclosed) hcalls
  | leaving error hpending => exact .leaving error (hsame.trans hpending)
  | ended answer hpending => exact .ended answer (hsame.trans hpending)

variable [DecidableEq ι]

theorem Phase.abandon {j : ι} (h : Phase state row w i p) (hi : i ≠ j) :
    Phase state row (w.abandon j) i p := by
  have hdb : (w.abandon j).db = w.db := (w.releaseGuard_rows j).1
  refine h.frame (World.frame_abandon hi w).tx (fun _ hretry ↦ ?_) fun found hfound _ ↦ ?_
  · rwa [World.Retriable, hdb]
  · rwa [hdb]

omit [DecidableEq ι] in
/-- No operation of a retry runs on by itself. -/
theorem Phase.detached {op : Op} {next : op.Ans → Prog Answer}
    (h : Phase state row w i (.call op next)) : op.detached = false := by
  have hjobs : ∀ op : Op, op.OfJobs → op.detached = false := by
    intro op hop
    cases op <;> first | rfl | exact hop.elim
  generalize hp : Program.call op next = p at h
  cases h with
  | holding found new p hfound hid hretry hnew hpending hcalls =>
      subst hp
      exact hjobs op hcalls.1
  | closed p htx hcalls =>
      subst hp
      exact hjobs op hcalls.1
  | beginning | selecting | requeueing | leaving | ended => cases hp <;> rfl

variable [Fintype ι] in
theorem Phase.perform_begin {choice : Choice} {a : Except DbError Unit} (hpending : w.pending i = [])
    (hperform : w.perform i (.begin row.bureauId) choice = some (a, w')) :
    Phase state row w' i (began state row a) := by
  have hpending' := World.pending_nil_step hpending (World.perform_dbStep hperform) nofun
  cases a with
  | ok => exact .selecting hpending'
  | error e => exact .ended _ hpending'

variable [Fintype ι] in
/-- The SELECT, on the committed rows. -/
theorem Phase.perform_selecting {choice : Choice} {a : Except DbError (Option MaterialRow)}
    (hsound : Sound materialScheme w.materials) (hpending : w.pending i = [])
    (hperform : w.perform i (.sql (.materialsGet row.bureauId row.partnerId row.id)) choice =
      some (a, w')) :
    Phase state row w' i (selected state row a) := by
  rcases World.perform_statement hperform with
    ⟨tx, id, answer, added, hopen, rfl, hexec, rfl⟩ | ⟨e, rfl, htx⟩
  · cases hexec
    have hview := w.view_of_pending hpending
    rw [World.pending_eq_of_tx hopen] at hpending
    have hpending' : (w.setTx i (some { tx with writes := tx.writes ++ [] })).pending i = [] := by
      simp [World.pending, World.setTx, hpending]
    change Phase state row _ i (deciding state row ((w.view i).materials.find? _))
    rw [hview]
    cases hfound : w.db.materials.find? (Sql.isMaterial row.bureauId row.partnerId row.id) with
    | none => exact .leaving _ hpending'
    | some found =>
        dsimp only [deciding]
        split
        · exact .leaving _ hpending'
        · rename_i hretry
          refine .requeueing hpending' fun r hr hid ↦ ?_
          have hpicked := List.find?_some hfound
          simp only [Sql.isMaterial, Bool.and_eq_true, decide_eq_true_eq] at hpicked
          obtain rfl : r = found := List.inj_on_of_nodup_map hsound.nodup hr
            (List.mem_of_find?_eq_some hfound) (hid.trans hpicked.2.symm)
          simpa using hretry
  · exact .ended _ (by simp [World.pending, htx])

variable [Fintype ι] in
/-- The UPDATE, on the committed rows as well. -/
theorem Phase.perform_requeueing {choice : Choice} {a : Except DbError (Option MaterialRow)}
    (hsound : Sound materialScheme w.materials) (hpending : w.pending i = [])
    (hretry : w.Retriable row.id)
    (hperform : w.perform i (.sql (.materialsRequeue row.bureauId row.partnerId row.id)) choice =
      some (a, w')) :
    Phase state row w' i (requeued state row a) := by
  rcases World.perform_statement hperform with
    ⟨tx, id, answer, added, hopen, rfl, hexec, rfl⟩ | ⟨e, rfl, htx⟩
  · obtain ⟨hr, -⟩ := Sql.map_updateRows_eq_ok hexec
    have hview := w.view_of_pending hpending
    rw [World.pending_eq_of_tx hopen] at hpending
    rw [hview] at hr
    cases hfound : w.db.materials.filter (Sql.isMaterial row.bureauId row.partnerId row.id) with
    | nil =>
        rw [hfound] at hr
        cases hr
        exact .leaving _ (by simp [World.pending, World.setTx, hpending])
    | cons found rest =>
        have hmem := List.mem_filter.mp (hfound ▸ List.mem_cons_self)
        have hpicked := hmem.2
        simp only [Sql.isMaterial, Bool.and_eq_true, decide_eq_true_eq] at hpicked
        have honly : w.db.materials.filter
            (Sql.isMaterial row.bureauId row.partnerId row.id) = [found] := by
          refine Table.filter_eq_singleton hsound.nodup hmem.1 hmem.2 fun r _ hr' ↦ ?_
          simp only [Sql.isMaterial, Bool.and_eq_true, decide_eq_true_eq] at hr'
          exact hr'.2.trans hpicked.2.symm
        rw [honly] at hr
        cases hr
        refine .holding found (Sql.requeued tx.now found) _ hmem.1 hpicked.2
          (hretry found hmem.1 hpicked.2) hpicked.2 ?_ (requeueingJob_calls _)
        simp [World.materials, World.pending, World.setTx, hpending, Write.material?]
  · exact .ended _ (by simp [World.pending, htx])

theorem Phase.perform_ofJobs {op : Op} {next : op.Ans → Prog Answer} {found new : MaterialRow}
    (hfound : found ∈ w.db.materials) (hid : found.id = row.id)
    (hretry : found.status.canRetry = true) (hnew : new.id = row.id)
    (hpending : w.materials.pending i = [(new, some found)]) (hop : op.OfJobs)
    (hnext : ∀ a, (next a).Calls Op.OfJobs) (hstep : DbStep i (some op) w w') (a : op.Ans) :
    Phase state row w' i (next a) := by
  cases hstep with
  | same hdb hlog htx =>
      refine .holding found new _ (hdb ▸ hfound) hid hretry hnew ?_ (hnext a)
      simpa [World.materials, DbStep.pending_same htx] using hpending
  | ended hdb hlog htx => exact .closed _ (by simp [htx]) (hnext a)
  | began bureauId now hbegin =>
      cases hbegin
      exact hop.elim
  | committed tx hcommit hopen hdb hlog htx => exact .closed _ (by simp [htx]) (hnext a)
  | wrote tx s id answer writes hsql hopen hfree hexec hdb hlog htx =>
      cases hsql
      have hjobs : writes.filterMap Write.material? = [] := by
        cases s with
        | jobsRequeue bureauId partnerId materialId key =>
            simp only [Sql.exec, guard_eq_ok] at hexec
            obtain ⟨hr, -⟩ := Sql.map_updateRows_eq_ok hexec.2
            cases hr
            simp [List.filterMap_map, Function.comp_def, Write.material?]
        | jobsInsert bureauId partnerId materialId kind key =>
            rcases Sql.exec_jobsInsert hexec with ⟨-, rfl, -⟩ | ⟨-, rfl, -⟩ <;> rfl
        | jobsByKey bureauId key =>
            cases hexec
            rfl
        | _ => exact hop.elim
      refine .holding found new _ (hdb ▸ hfound) hid hretry hnew ?_ (hnext a)
      simp only [World.materials, World.pending_eq_of_tx hopen] at hpending
      simp [World.materials, DbStep.pending_some htx, hpending, hjobs]

variable [Fintype ι] in
theorem Phase.perform {op : Op} {next : op.Ans → Prog Answer} {choice : Choice} {a : op.Ans}
    (h : Phase state row w i (.call op next)) (hsound : Sound materialScheme w.materials)
    (hperform : w.perform i op choice = some (a, w')) : Phase state row w' i (next a) := by
  generalize hp : Program.call op next = p at h
  cases h with
  | beginning hpending =>
      cases hp
      exact Phase.perform_begin hpending hperform
  | selecting hpending =>
      cases hp
      exact Phase.perform_selecting hsound hpending hperform
  | requeueing hpending hretry =>
      cases hp
      exact Phase.perform_requeueing hsound hpending hretry hperform
  | holding found new p hfound hid hretry hnew hpending hcalls =>
      subst hp
      exact Phase.perform_ofJobs hfound hid hretry hnew hpending hcalls.1 hcalls.2
        (World.perform_dbStep hperform) a
  | closed p htx hcalls =>
      subst hp
      refine .closed _ (World.closed_step htx (World.perform_dbStep hperform) ?_) (hcalls.2 a)
      intro bureauId heq
      cases heq
      exact hcalls.1
  | leaving error hpending =>
      cases hp
      exact .ended _ (World.pending_nil_step hpending (World.perform_dbStep hperform) nofun)
  | ended answer hpending => cases hp

end Retry

end Phases

/-! ## Runs -/

section Runs

variable {ι : Type} {state : AppState} {row : MaterialRow} {callers : ι → RetryCaller}

/-- All callers, before their first step. -/
def retrying (state : AppState) (row : MaterialRow) (callers : ι → RetryCaller) (w : World ι) :
    Sys ι (World ι) Op Op.Ans Answer where
  procs i := (callers i).program state row
  world := w

/-- A retry has read the status and has not written yet. -/
def Retry.Between (row : MaterialRow) (p : Prog Answer) : Prop :=
  p.head? = some (.sql (.materialsRequeue row.bureauId row.partnerId row.id))

/-- Nobody commits a version of the material that must not be retried while a
retry stands between its SELECT and its UPDATE. -/
def NotOvertaken (row : MaterialRow) (callers : ι → RetryCaller)
    (s : Sys ι (World ι) Op Op.Ans Answer) : SysEvent ι Choice → Prop
  | .act i choice =>
      (s.procs i).head? = some .commit → (∀ outage, choice ≠ .failed outage) →
        (∃ j, callers j = .retry ∧ Retry.Between row (s.procs j)) →
          ∀ r ∈ (s.world.view i).materials, r.id = row.id → r.status.canRetry = true
  | .abandon _ _ => True

/-- What a retry replaced, or is about to replace, may be retried; and as long as
it holds a version of the job, the committed material is still one that may be
retried. -/
structure Undisturbed (row : MaterialRow) (callers : ι → RetryCaller)
    (s : Sys ι (World ι) Op Op.Ans Answer) : Prop where
  updated : ∀ i, callers i = .retry → ∀ new old, .material new old ∈ s.world.pending i →
    ∃ found ∈ s.world.db.materials, old = some found ∧ found.id = row.id ∧
      found.status.canRetry = true
  committed : ∀ i, callers i = .retry → ∀ writes, (i, writes) ∈ s.world.log →
    ∀ new old, .material new old ∈ writes → ∃ found, old = some found ∧ found.id = row.id ∧
      found.status.canRetry = true
  leases : ∀ i, callers i = .retry → ∀ new old, .job new old ∈ s.world.pending i →
    ∃ found ∈ s.world.db.materials, found.id = row.id ∧ found.status.canRetry = true

/-- The invariant of a run. -/
structure Retrying (state : AppState) (row : MaterialRow) (callers : ι → RetryCaller)
    (s : Sys ι (World ι) Op Op.Ans Answer) : Prop where
  sound : Sound materialScheme s.world.materials
  phases : ∀ i, callers i = .retry → Retry.Phase state row s.world i (s.procs i)
  committed : ∀ i, callers i = .retry → ∀ writes, (i, writes) ∈ s.world.log →
    ∀ new old, .material new old ∈ writes → ∃ found, old = some found ∧ found.id = row.id ∧
      found.status.canRetry = true

variable {w w' : World ι} {i j : ι} {s s' : Sys ι (World ι) Op Op.Ans Answer}

theorem Retrying.undisturbed (h : Retrying state row callers s) : Undisturbed row callers s where
  updated i hi _ _ hwrite := (h.phases i hi).pending hwrite
  committed := h.committed
  leases i hi _ _ hwrite := (h.phases i hi).replaced hwrite

variable [DecidableEq ι]

theorem DbStep.mem_log {op : Option Op} (h : DbStep i op w w') {writes : List Write}
    (hlog : (j, writes) ∈ w'.log) :
    (j, writes) ∈ w.log ∨ (j = i ∧ writes = w.pending i) := by
  cases h with
  | same hdb hsame | ended hdb hsame | began bureauId now hop hdb hsame
  | wrote tx s id answer added hop hopen hfree hexec hdb hsame => exact Or.inl (hsame ▸ hlog)
  | committed tx hop hopen hdb hnew =>
      rw [hnew, List.mem_cons, Prod.mk.injEq] at hlog
      rw [World.pending_eq_of_tx hopen]
      exact hlog.symm

/-- A version of the material that a request holds is replaced by nobody else. -/
theorem World.kept_of_held {op : Option Op} (hsound : Sound materialScheme w.materials)
    (hstep : DbStep i op w w') (hj : j ≠ i) {found : MaterialRow} (hfound : found ∈ w.db.materials)
    (hheld : ∃ v ∈ w.materials.pending j, v.1.id = found.id) : found ∈ w'.db.materials := by
  obtain ⟨v, hv, hid⟩ := hheld
  refine hstep.tables.materials_step.mem_rows hfound fun u hu heq ↦ ?_
  exact hsound.exclusive i j hj.symm u hu v hv (heq.trans hid.symm)

variable [Fintype ι]

theorem World.retriable_perform {op : Op} {choice : Choice} {a : op.Ans} {materialId : Uuid}
    (hretry : w.Retriable materialId) (hperform : w.perform i op choice = some (a, w'))
    (hview : op = .commit → (∀ outage, choice ≠ .failed outage) →
      ∀ r ∈ (w.view i).materials, r.id = materialId → r.status.canRetry = true) :
    w'.Retriable materialId := by
  cases World.perform_dbStep hperform with
  | same hdb | ended hdb | began bureauId now hop hdb
  | wrote tx s id answer added hop hopen hfree hexec hdb =>
      rw [World.Retriable, hdb]
      exact hretry
  | committed tx hop hopen hdb hlog =>
      cases hop
      rw [World.Retriable, hdb, ← World.pending_eq_of_tx hopen]
      refine hview rfl fun outage hfailed ↦ ?_
      subst hfailed
      cases hperform
      exact List.cons_ne_self _ _ hlog.symm

theorem Retrying.step (h : Retrying state row callers s) {e : SysEvent ι Choice}
    (hnot : NotOvertaken row callers s e) (hstep : Server.step ι s e = some s') :
    Retrying state row callers s' := by
  -- what a step of the world leaves, once the places of the retries are known
  have hworld : ∀ (op : Option Op) (w : World ι) (procs : ι → Prog Answer),
      DbStep e.actor op s.world w →
      (∀ j, callers j = .retry → Retry.Phase state row w j (procs j)) →
      Retrying state row callers ⟨procs, w⟩ := by
    intro op w procs hdb hphases
    refine ⟨h.sound.step hdb.tables.materials_step, hphases, ?_⟩
    intro j hj writes hlog new old hwrite
    rcases hdb.mem_log hlog with hold | ⟨rfl, rfl⟩
    · exact h.committed j hj writes hold new old hwrite
    · obtain ⟨found, -, hfound⟩ := (h.phases _ hj).pending hwrite
      exact ⟨found, hfound⟩
  cases Machine.steps_of_step hstep with
  | @act i choice op next a w hcall hperform =>
      have hdb := World.perform_dbStep hperform
      refine hworld _ w _ hdb fun j hj ↦ ?_
      by_cases hji : j = i
      · subst hji
        have hphase := h.phases j hj
        rw [hcall] at hphase
        simpa using hphase.perform h.sound hperform
      · rw [Function.update_of_ne hji]
        refine (h.phases j hj).frame (World.frame_perform hji hperform).tx ?_ ?_
        · intro hp hretry
          refine World.retriable_perform hretry hperform fun hop hchoice ↦ ?_
          exact hnot (by simp [hcall, Program.head?, hop]) hchoice ⟨j, hj, by rw [hp]; rfl⟩
        · exact fun found hfound hheld ↦ World.kept_of_held h.sound hdb hji hfound hheld
  | @abandon i op next hcall =>
      refine hworld none _ _ (World.abandon_dbStep i s.world) fun j hj ↦ ?_
      by_cases hji : j = i
      · subst hji
        have hpending : (s.world.abandon j).pending j = [] := by
          simp [World.pending, World.abandon, World.setTx]
        simpa using .ended _ hpending
      · rw [Function.update_of_ne hji]
        exact (h.phases j hj).abandon hji
  | @underWay i op next hcall hdetached =>
      refine hworld none _ _ (World.abandon_dbStep i s.world) fun j hj ↦ ?_
      by_cases hji : j = i
      · subst hji
        have hphase := h.phases j hj
        rw [hcall] at hphase
        exact absurd hdetached (by simp [server, hphase.detached])
      · rw [Function.update_of_ne hji]
        exact (h.phases j hj).abandon hji

end Runs

/-! ## Retries alone -/

section Racing

variable {ι : Type}

/-- The material failed, and its job is there. -/
structure Retry.Ready (state : AppState) (row : MaterialRow) (db : Db) : Prop where
  mem : row ∈ db.materials
  check : row.check = true
  canRetry : row.status.canRetry = true
  job : ∃ job ∈ db.jobs, Sql.isExtractionOf row.bureauId row.partnerId row.id
    (Retry.jobKey state row) job = true
  attempts : ∀ job ∈ db.jobs, Sql.isExtractionOf row.bureauId row.partnerId row.id
    (Retry.jobKey state row) job = true → job.attempts < Sql.maxInteger

/-- How far a retry has come when the others are retries too; `won` tells who has
committed. -/
inductive Retry.Racer (state : AppState) (row : MaterialRow) (won : Option ι) (w : World ι)
    (i : ι) : Prog Answer → Prop
  | beginning (hwon : won ≠ some i) (htx : w.tx i = none) :
      Racer state row won w i (beginning state row)
  | selecting (hwon : won ≠ some i) (now : Timestamp)
      (htx : w.tx i = some ⟨row.bureauId, now, []⟩) :
      Racer state row won w i (selecting state row)
  | requeueing (hwon : won = none) (now : Timestamp)
      (htx : w.tx i = some ⟨row.bureauId, now, []⟩) :
      Racer state row won w i (requeueing state row)
  | requeueingJob (hwon : won = none) (now : Timestamp) (new : MaterialRow)
      (old : Option MaterialRow) (hnew : Sql.isMaterial row.bureauId row.partnerId row.id new)
      (hqueued : new.status = .queued) (hcheck : new.check = true)
      (htx : w.tx i = some ⟨row.bureauId, now, [.material new old]⟩) :
      Racer state row won w i (requeueingJob state row new)
  | committing (hwon : won = none) (now : Timestamp) (new : MaterialRow)
      (old : Option MaterialRow) (jobs : List Write)
      (hnew : Sql.isMaterial row.bureauId row.partnerId row.id new)
      (hqueued : new.status = .queued) (hcheck : new.check = true)
      (hjobs : jobs.filterMap Write.material? = [])
      (htx : w.tx i = some ⟨row.bureauId, now, .material new old :: jobs⟩) :
      Racer state row won w i (committing new)
  | leaving (k : ι) (hwon : won = some k) (hk : k ≠ i) (status : MaterialStatus) :
      Racer state row won w i (leaving (.new status.retryRefusal))
  | refused (k : ι) (hwon : won = some k) (hk : k ≠ i) (status : MaterialStatus) :
      Racer state row won w i (answer (.error (.new status.retryRefusal)))
  | retried (hwon : won = some i) (material : Material) :
      Racer state row won w i (answer (.ok (.material 200 material)))
  | failed (hfaulted : w.faulted i = true) (a : Answer) : Racer state row won w i (.done a)
  | dropped : Racer state row won w i (.done .dropped)

/-- The invariant of a run of retries. -/
structure Retry.Race (state : AppState) (row : MaterialRow) (won : Option ι)
    (s : Sys ι (World ι) Op Op.Ans Answer) : Prop where
  sound : Sound materialScheme s.world.materials
  current : ∃ cur ∈ s.world.db.materials,
    Sql.isMaterial row.bureauId row.partnerId row.id cur = true ∧ cur.check = true ∧
      (cur.status.canRetry = true ↔ won = none)
  job : won = none → ∃ job ∈ s.world.db.jobs, Sql.isExtractionOf row.bureauId row.partnerId
    row.id (Retry.jobKey state row) job = true
  attempts : won = none → ∀ job ∈ s.world.db.jobs, Sql.isExtractionOf row.bureauId row.partnerId
    row.id (Retry.jobKey state row) job = true → job.attempts < Sql.maxInteger
  racers : ∀ i, Retry.Racer state row won s.world i (s.procs i)

/-- One retry was answered with the material, the others with a conflict. -/
def OneRetried (s : Sys ι (World ι) Op Op.Ans Answer) : Prop :=
  ∃ i, (∃ material, s.procs i = .done (.response (.ok (.material 200 material)))) ∧
    ∀ j, j ≠ i → ∃ error, s.procs j = .done (.response (.error error)) ∧
      error.inner.code.httpStatus = 409

/-- All have been answered, and none of them because of an outage. -/
structure AllServed (s : Sys ι (World ι) Op Op.Ans Answer) : Prop where
  answered : ∀ i, ∃ r, s.procs i = .done (.response r)
  faulted : ∀ i, s.world.faulted i = false

namespace Retry

variable {state : AppState} {row : MaterialRow} {won : Option ι} {w w' : World ι} {i j : ι}
  {p : Prog Answer} {s s' : Sys ι (World ι) Op Op.Ans Answer}

theorem Race.oneRetried [Nonempty ι] (h : Race state row won s) (hserved : AllServed s) :
    OneRetried s := by
  -- who is served has won or was refused
  have hend : ∀ i, (won = some i ∧ ∃ material, s.procs i =
      .done (.response (.ok (.material 200 material)))) ∨
      ∃ k, won = some k ∧ k ≠ i ∧ ∃ error, s.procs i = .done (.response (.error error)) ∧
        error.inner.code.httpStatus = 409 := by
    intro i
    obtain ⟨r, hr⟩ := hserved.answered i
    have hfaulted := hserved.faulted i
    have hracer := h.racers i
    generalize hp : s.procs i = p at hracer
    rw [hp] at hr
    cases hracer with
    | beginning | selecting | requeueing | requeueingJob | committing | leaving | dropped => cases hr
    | refused k hwon hk status => exact Or.inr ⟨k, hwon, hk, _, rfl, rfl⟩
    | retried hwon material => exact Or.inl ⟨hwon, material, rfl⟩
    | failed hfault => simp [hfault] at hfaulted
  obtain ⟨k, hk⟩ : ∃ k, won = some k := by
    obtain ⟨i⟩ := ‹Nonempty ι›
    rcases hend i with ⟨hi, -⟩ | ⟨k, hk, -⟩
    · exact ⟨i, hi⟩
    · exact ⟨k, hk⟩
  refine ⟨k, ?_, fun j hj ↦ ?_⟩
  · rcases hend k with ⟨-, hmaterial⟩ | ⟨k', hk', hne, -⟩
    · exact hmaterial
    · exact absurd (Option.some.inj (hk'.symm.trans hk)) hne
  · rcases hend j with ⟨hwon, -⟩ | ⟨k', -, -, herror⟩
    · exact absurd (Option.some.inj (hwon.symm.trans hk)) hj
    · exact herror

/-- A retry keeps its place when another one takes a step that is no commit. -/
theorem Racer.frame (h : Racer state row won w j p) (hframe : World.Frame j w w') :
    Racer state row won w' j p := by
  cases h with
  | beginning hwon htx => exact .beginning hwon (hframe.tx.trans htx)
  | selecting hwon now htx => exact .selecting hwon now (hframe.tx.trans htx)
  | requeueing hwon now htx => exact .requeueing hwon now (hframe.tx.trans htx)
  | requeueingJob hwon now new old hnew hqueued hcheck htx =>
      exact .requeueingJob hwon now new old hnew hqueued hcheck (hframe.tx.trans htx)
  | committing hwon now new old jobs hnew hqueued hcheck hjobs htx =>
      exact .committing hwon now new old jobs hnew hqueued hcheck hjobs (hframe.tx.trans htx)
  | leaving k hwon hk status => exact .leaving k hwon hk status
  | refused k hwon hk status => exact .refused k hwon hk status
  | retried hwon material => exact .retried hwon material
  | failed hfaulted a => exact .failed (hframe.faulted.trans hfaulted) a
  | dropped => exact .dropped

section Performing

variable [DecidableEq ι] [Fintype ι] {choice : Choice}

theorem requeued_check {row : MaterialRow} (h : row.check = true) (now : Timestamp) :
    (Sql.requeued now row).check = true := by
  simp only [MaterialRow.check, Sql.requeued, Bool.and_eq_true] at h ⊢
  exact ⟨h.1, rfl⟩

theorem requeuedJob_check (now : Timestamp) (job : JobRow) :
    (Sql.requeuedJob now job).check = true := by
  simp [JobRow.check, Sql.requeuedJob]

omit [DecidableEq ι] [Fintype ι] in
/-- There is one row of the material. -/
theorem Race.only (h : Race state row won s) {cur r : MaterialRow}
    (hcur : cur ∈ s.world.db.materials)
    (hpicked : Sql.isMaterial row.bureauId row.partnerId row.id cur = true)
    (hr : r ∈ s.world.db.materials) (hid : r.id = row.id) : r = cur := by
  simp only [Sql.isMaterial, Bool.and_eq_true, decide_eq_true_eq] at hpicked
  exact List.inj_on_of_nodup_map h.sound.nodup hr hcur (hid.trans hpicked.2.symm)

omit [Fintype ι] in
theorem db_of_sql {statement : Sql} (hstep : DbStep i (some (.sql statement)) w w') :
    w'.db = w.db := by
  cases hstep with
  | same hdb | ended hdb | began bureauId now hop hdb
  | wrote tx s id answer added hop hopen hfree hexec hdb => exact hdb
  | committed tx hop => cases hop

/-- A statement that can be carried out fails because of an outage only. -/
theorem perform_sound (statement : Sql) (Good : statement.Answer → List Write → Prop) {tx : Tx}
    {a : Except DbError statement.Answer} (htx : w.tx i = some tx)
    (hsound : ∀ id, ∃ answer added, statement.exec id tx.now (w.view i) = .ok (answer, added) ∧
      Good answer added)
    (hperform : w.perform i (.sql statement) choice = some (a, w')) :
    w'.db = w.db ∧ ((∃ answer added, Good answer added ∧ a = .ok answer ∧
      w'.tx i = some { tx with writes := tx.writes ++ added }) ∨
        ∃ e, a = .error e ∧ w'.faulted i = true) := by
  refine ⟨db_of_sql (World.perform_dbStep hperform), ?_⟩
  rcases perform_sql htx hperform with
    ⟨id, answer, added, ha, hexec, rfl⟩ | ⟨e, ha, -, -, -, hfaulted | ⟨id, hexec⟩⟩
  · obtain ⟨answer', added', hexec', hgood⟩ := hsound id
    rw [hexec'] at hexec
    cases hexec
    exact Or.inl ⟨answer, added, hgood, ha, by simp [World.setTx]⟩
  · exact Or.inr ⟨e, ha, hfaulted⟩
  · obtain ⟨answer', added', hexec', -⟩ := hsound id
    rw [hexec'] at hexec
    cases hexec

theorem Race.perform_selecting (h : Race state row won s) (hwon : won ≠ some i) {now : Timestamp}
    (htx : s.world.tx i = some ⟨row.bureauId, now, []⟩)
    {a : Except DbError (Option MaterialRow)}
    (hperform : s.world.perform i (.sql (.materialsGet row.bureauId row.partnerId row.id)) choice =
      some (a, w')) :
    w'.db = s.world.db ∧ Racer state row won w' i (selected state row a) := by
  obtain ⟨cur, hcur, hpicked, -, hretry⟩ := h.current
  have hview : (s.world.view i).materials = s.world.db.materials :=
    s.world.view_of_pending (World.pending_eq_of_tx htx)
  have hfound : (s.world.view i).materials.find?
      (Sql.isMaterial row.bureauId row.partnerId row.id) = some cur := by
    rw [hview]
    cases hfind : s.world.db.materials.find?
        (Sql.isMaterial row.bureauId row.partnerId row.id) with
    | none => simp [List.find?_eq_none.mp hfind cur hcur] at hpicked
    | some found =>
        have hsome := List.find?_some hfind
        simp only [Sql.isMaterial, Bool.and_eq_true, decide_eq_true_eq] at hsome
        rw [h.only hcur hpicked (List.mem_of_find?_eq_some hfind) hsome.2]
  have hexec : ∀ id, (Sql.materialsGet row.bureauId row.partnerId row.id).exec id now
      (s.world.view i) = .ok (some cur, []) := by
    intro id
    rw [Sql.exec, hfound]
  obtain ⟨hdb, ⟨answer, added, ⟨rfl, rfl⟩, rfl, htx'⟩ | ⟨e, rfl, hfaulted⟩⟩ :=
    perform_sound (.materialsGet row.bureauId row.partnerId row.id)
      (fun answer added ↦ answer = some cur ∧ added = []) htx
      (fun id ↦ ⟨_, _, hexec id, rfl, rfl⟩) hperform
  · refine ⟨hdb, ?_⟩
    change Racer state row won w' i (deciding state row (some cur))
    rw [deciding]
    split
    · rename_i hrefused
      obtain ⟨k, hk⟩ : ∃ k, won = some k := by
        rw [← Option.ne_none_iff_exists']
        intro hnone
        simp [hretry.mpr hnone] at hrefused
      refine .leaving k hk (fun heq ↦ hwon ?_) _
      rw [hk, heq]
    · rename_i hallowed
      exact .requeueing (hretry.mp (by simpa using hallowed)) now htx'
  · exact ⟨hdb, .failed hfaulted _⟩

theorem Race.perform_requeueing (h : Race state row won s) (hwon : won = none) {now : Timestamp}
    (htx : s.world.tx i = some ⟨row.bureauId, now, []⟩)
    {a : Except DbError (Option MaterialRow)}
    (hperform : s.world.perform i (.sql (.materialsRequeue row.bureauId row.partnerId row.id))
      choice = some (a, w')) :
    w'.db = s.world.db ∧ Racer state row won w' i (requeued state row a) := by
  obtain ⟨cur, hcur, hpicked, hcheck, -⟩ := h.current
  have hview : (s.world.view i).materials = s.world.db.materials :=
    s.world.view_of_pending (World.pending_eq_of_tx htx)
  have hfilter : (s.world.view i).materials.filter
      (Sql.isMaterial row.bureauId row.partnerId row.id) = [cur] := by
    rw [hview]
    refine Table.filter_eq_singleton h.sound.nodup hcur hpicked fun r hr hr' ↦ ?_
    simp only [Sql.isMaterial, Bool.and_eq_true, decide_eq_true_eq] at hr'
    exact congrArg MaterialRow.id (h.only hcur hpicked hr hr'.2)
  have hexec : ∀ id, (Sql.materialsRequeue row.bureauId row.partnerId row.id).exec id now
      (s.world.view i) = .ok (some (Sql.requeued now cur),
        [.material (Sql.requeued now cur) (some cur)]) := by
    intro id
    simp [Sql.exec, Sql.updateMaterials, Sql.updateRows, hfilter, requeued_check hcheck,
      Except.map]
  obtain ⟨hdb, ⟨answer, added, ⟨rfl, rfl⟩, rfl, htx'⟩ | ⟨e, rfl, hfaulted⟩⟩ :=
    perform_sound (.materialsRequeue row.bureauId row.partnerId row.id)
      (fun answer added ↦ answer = some (Sql.requeued now cur) ∧
        added = [.material (Sql.requeued now cur) (some cur)]) htx
      (fun id ↦ ⟨_, _, hexec id, rfl, rfl⟩) hperform
  · exact ⟨hdb, .requeueingJob hwon now _ (some cur) hpicked rfl (requeued_check hcheck now) htx'⟩
  · exact ⟨hdb, .failed hfaulted _⟩

theorem Race.perform_requeueingJob (h : Race state row won s) (hwon : won = none)
    {now : Timestamp} {new : MaterialRow} {old : Option MaterialRow}
    (hnew : Sql.isMaterial row.bureauId row.partnerId row.id new = true)
    (hqueued : new.status = .queued) (hcheck : new.check = true)
    (htx : s.world.tx i = some ⟨row.bureauId, now, [.material new old]⟩)
    {a : Except DbError (Option JobRow)}
    (hperform : s.world.perform i (.sql (.jobsRequeue row.bureauId row.partnerId row.id
      (jobKey state row))) choice = some (a, w')) :
    w'.db = s.world.db ∧ Racer state row won w' i (jobRequeued state row new a) := by
  obtain ⟨job, hjob, hextraction⟩ := h.job hwon
  have hview : (s.world.view i).jobs = s.world.db.jobs := by
    rw [World.view, World.pending_eq_of_tx htx]
    rfl
  have hnot : ¬ ((s.world.view i).jobs.any fun job ↦ Sql.isExtractionOf row.bureauId row.partnerId
      row.id (jobKey state row) job && decide (Sql.maxInteger < job.attempts + 1)) = true := by
    rw [hview, List.any_eq_true]
    rintro ⟨other, hother, hoverflow⟩
    simp only [Bool.and_eq_true, decide_eq_true_eq] at hoverflow
    have hattempts := h.attempts hwon other hother hoverflow.1
    omega
  have hexec : ∀ id, ∃ answer jobs, (Sql.jobsRequeue row.bureauId row.partnerId row.id
      (jobKey state row)).exec id now (s.world.view i) = .ok (answer, jobs) ∧
        (∃ job, answer = some job) ∧ jobs.filterMap Write.material? = [] := by
    intro id
    have hmem := List.mem_filter.mpr ⟨hview ▸ hjob, hextraction⟩
    cases hfilter : (s.world.view i).jobs.filter (Sql.isExtractionOf row.bureauId row.partnerId
        row.id (jobKey state row)) with
    | nil =>
        rw [hfilter] at hmem
        cases hmem
    | cons first rest =>
        refine ⟨some (Sql.requeuedJob now first), ((first :: rest).map fun job ↦
          .job (Sql.requeuedJob now job) (some job)), ?_, ⟨_, rfl⟩, ?_⟩
        · refine (if_neg hnot).trans ?_
          simp [Sql.updateJobs, Sql.updateRows, hfilter, requeuedJob_check, Except.map]
        · simp [Write.material?]
  obtain ⟨hdb, ⟨answer, added, ⟨⟨job, rfl⟩, hjobs⟩, rfl, htx'⟩ | ⟨e, rfl, hfaulted⟩⟩ :=
    perform_sound (.jobsRequeue row.bureauId row.partnerId row.id (jobKey state row))
      (fun answer added ↦ (∃ job, answer = some job) ∧ added.filterMap Write.material? = []) htx
      hexec hperform
  · exact ⟨hdb, .committing hwon now new old added hnew hqueued hcheck hjobs htx'⟩
  · exact ⟨hdb, .failed hfaulted _⟩

/-- The commit of the winner. -/
structure Wins (row : MaterialRow) (i : ι) (w w' : World ι) (new : MaterialRow) : Prop where
  seen : new ∈ (w.view i).materials
  held : ∃ v ∈ w.materials.pending i, v.1.id = row.id
  mem : new ∈ w'.db.materials
  picked : Sql.isMaterial row.bureauId row.partnerId row.id new = true
  queued : new.status = .queued
  check : new.check = true

theorem perform_committing {now : Timestamp} {new : MaterialRow} {old : Option MaterialRow}
    {jobs : List Write}
    (hnew : Sql.isMaterial row.bureauId row.partnerId row.id new = true)
    (hqueued : new.status = .queued) (hcheck : new.check = true)
    (hjobs : jobs.filterMap Write.material? = [])
    (htx : w.tx i = some ⟨row.bureauId, now, .material new old :: jobs⟩) {a : Except DbError Unit}
    (hperform : w.perform i .commit choice = some (a, w')) :
    (w'.db = w.db ∧ Racer state row won w' i (committed new a)) ∨
    ((∀ outage, choice ≠ .failed outage) ∧ Wins row i w w' new ∧
      Racer state row (some i) w' i (committed new a)) := by
  have hpicked := hnew
  simp only [Sql.isMaterial, Bool.and_eq_true, decide_eq_true_eq] at hpicked
  have hseen : new ∈ (w.db.overlay (.material new old :: jobs)).materials := by
    simp only [Db.overlay, List.filterMap_cons, Write.material?, hjobs, List.map_cons,
      List.map_nil, Table.overlay_cons, Table.overlay_nil]
    exact Table.self_mem_upsert
  have hheld : (new, old) ∈ w.materials.pending i := by
    rw [World.mem_materials_pending, World.pending_eq_of_tx htx]
    exact List.mem_cons_self
  have hwins : ∀ t : World ι, t.db = w.db.overlay (.material new old :: jobs) →
      Wins row i w t new := by
    intro t hdb
    refine ⟨?_, ⟨_, hheld, hpicked.2⟩, hdb ▸ hseen, hnew, hqueued, hcheck⟩
    rw [World.view, World.pending_eq_of_tx htx]
    exact hseen
  cases choice with
  | granted id t =>
      simp only [World.perform, World.grant, htx] at hperform
      cases hperform
      exact Or.inr ⟨fun outage heq ↦ (by cases heq), hwins _ rfl, .retried rfl _⟩
  | failed outage =>
      cases hperform
      exact Or.inl ⟨rfl, .failed (by simp [World.markFaulted]) _⟩
  | lost =>
      obtain ⟨tx, hopen, hperform⟩ := Option.bind_eq_some_iff.mp hperform
      obtain rfl := Option.some.inj (htx.symm.trans hopen)
      cases hperform
      exact Or.inr ⟨fun outage heq ↦ (by cases heq), hwins _ rfl,
        .failed (by simp [World.markFaulted]) _⟩
  | listed => cases hperform

/-- A step of a retry either leaves the rows or is the commit of the winner. -/
theorem Race.perform (h : Race state row won s) {op : Op} {next : op.Ans → Prog Answer}
    {a : op.Ans} (hcall : s.procs i = .call op next)
    (hperform : s.world.perform i op choice = some (a, w')) :
    (w'.db = s.world.db ∧ Racer state row won w' i (next a)) ∨
      (won = none ∧ op = .commit ∧ (∀ outage, choice ≠ .failed outage) ∧
        ∃ new, Wins row i s.world w' new ∧ Racer state row (some i) w' i (next a)) := by
  have hracer := h.racers i
  generalize hp : s.procs i = p at hracer
  rw [hcall] at hp
  cases hracer with
  | beginning hwon htx =>
      cases hp
      cases choice with
      | granted id now =>
          cases hperform
          exact Or.inl ⟨rfl, .selecting hwon now (by simp [World.setTx])⟩
      | failed outage =>
          cases hperform
          exact Or.inl ⟨rfl, .failed (by simp [World.markFaulted]) _⟩
      | lost | listed => cases hperform
  | selecting hwon now htx =>
      cases hp
      exact Or.inl (h.perform_selecting hwon htx hperform)
  | requeueing hwon now htx =>
      cases hp
      exact Or.inl (h.perform_requeueing hwon htx hperform)
  | requeueingJob hwon now new old hnew hqueued hcheck htx =>
      cases hp
      exact Or.inl (h.perform_requeueingJob hwon hnew hqueued hcheck htx hperform)
  | committing hwon now new old jobs hnew hqueued hcheck hjobs htx =>
      cases hp
      rcases perform_committing hnew hqueued hcheck hjobs htx hperform with
        hkept | ⟨hchoice, hwins, hracer⟩
      · exact Or.inl hkept
      · exact Or.inr ⟨hwon, rfl, hchoice, new, hwins, hracer⟩
  | leaving k hwon hk status =>
      cases hp
      cases choice with
      | granted id now =>
          cases hperform
          exact Or.inl ⟨rfl, .refused k hwon hk status⟩
      | failed | lost | listed => cases hperform
  | refused | retried | failed | dropped => cases hp

omit [DecidableEq ι] [Fintype ι] in
/-- Who has neither read the status nor begun to wait for the winner reads it now. -/
theorem Racer.outrun (h : Racer state row none w j p) (hj : j ≠ i) (hframe : World.Frame j w w')
    (hbetween : ¬ Between row p) (hspares : ∀ v ∈ w.materials.pending j, v.1.id ≠ row.id) :
    Racer state row (some i) w' j p := by
  have hholds : ∀ now new old jobs, Sql.isMaterial row.bureauId row.partnerId row.id new = true →
      w.tx j ≠ some ⟨row.bureauId, now, .material new old :: jobs⟩ := by
    intro now new old jobs hnew htx
    simp only [Sql.isMaterial, Bool.and_eq_true, decide_eq_true_eq] at hnew
    refine hspares (new, old) ?_ hnew.2
    rw [World.mem_materials_pending, World.pending_eq_of_tx htx]
    exact List.mem_cons_self
  have hwon : some i ≠ some j := fun heq ↦ hj (Option.some.inj heq).symm
  cases h with
  | beginning _ htx => exact .beginning hwon (hframe.tx.trans htx)
  | selecting _ now htx => exact .selecting hwon now (hframe.tx.trans htx)
  | requeueing _ now htx => exact absurd rfl hbetween
  | requeueingJob _ now new old hnew hqueued hcheck htx => exact absurd htx (hholds _ _ _ _ hnew)
  | committing _ now new old jobs hnew hqueued hcheck hjobs htx =>
      exact absurd htx (hholds _ _ _ _ hnew)
  | leaving k hk | refused k hk | retried hk => cases hk
  | failed hfaulted a => exact .failed (hframe.faulted.trans hfaulted) a
  | dropped => exact .dropped

omit [DecidableEq ι] [Fintype ι] in
theorem Racer.detached {op : Op} {next : op.Ans → Prog Answer}
    (h : Racer state row won w i (.call op next)) : op.detached = false := by
  generalize hp : Program.call op next = p at h
  cases h <;> cases hp <;> rfl

omit [Fintype ι] in
/-- A step that leaves the rows. -/
theorem Race.keep (h : Race state row won s) {op : Option Op} (hdb : w'.db = s.world.db)
    (hstep : DbStep i op s.world w') (hframe : ∀ j, j ≠ i → World.Frame j s.world w')
    (hracer : Racer state row won w' i p) :
    Race state row won ⟨Function.update s.procs i p, w'⟩ where
  sound := h.sound.step hstep.tables.materials_step
  current := by
    dsimp only
    rw [hdb]
    exact h.current
  job := by
    dsimp only
    rw [hdb]
    exact h.job
  attempts := by
    dsimp only
    rw [hdb]
    exact h.attempts
  racers j := by
    by_cases hj : j = i
    · subst hj
      simpa using hracer
    · dsimp only
      rw [Function.update_of_ne hj]
      exact (h.racers j).frame (hframe j hj)

theorem Race.step {callers : ι → RetryCaller} (hcallers : ∀ i, callers i = .retry)
    (h : Race state row won s) {e : SysEvent ι Choice} (hnot : NotOvertaken row callers s e)
    (hstep : Server.step ι s e = some s') : ∃ won', Race state row won' s' := by
  cases Machine.steps_of_step hstep with
  | @act i choice op next a w hcall hperform =>
      have hdb := World.perform_dbStep hperform
      have hframe : ∀ j, j ≠ i → World.Frame j s.world w :=
        fun j hj ↦ World.frame_perform hj hperform
      rcases h.perform hcall hperform with
        ⟨hsame, hracer⟩ | ⟨rfl, rfl, hchoice, new, hwins, hracer⟩
      · exact ⟨won, h.keep hsame hdb hframe hracer⟩
      · have hpicked := hwins.picked
        simp only [Sql.isMaterial, Bool.and_eq_true, decide_eq_true_eq] at hpicked
        refine ⟨some i, h.sound.step hdb.tables.materials_step, ?_, ?_, ?_, fun j ↦ ?_⟩
        · refine ⟨new, hwins.mem, hwins.picked, hwins.check, ?_⟩
          simp [hwins.queued, MaterialStatus.canRetry]
        · intro hnone
          cases hnone
        · intro hnone
          cases hnone
        · by_cases hj : j = i
          · subst hj
            simpa using hracer
          · dsimp only
            rw [Function.update_of_ne hj]
            refine (h.racers j).outrun hj (hframe j hj) (fun hbetween ↦ ?_) fun v hv hid ↦ ?_
            · have hretry := hnot (by rw [hcall]; rfl) hchoice ⟨j, hcallers j, hbetween⟩ new
                hwins.seen hpicked.2
              simp [hwins.queued, MaterialStatus.canRetry] at hretry
            · obtain ⟨u, hu, hid'⟩ := hwins.held
              exact h.sound.exclusive i j (Ne.symm hj) u hu v hv (hid'.trans hid.symm)
  | @abandon i op next hcall =>
      have hsame : (s.world.abandon i).db = s.world.db := (s.world.releaseGuard_rows i).1
      exact ⟨won, h.keep hsame (World.abandon_dbStep i s.world)
        (fun j hj ↦ World.frame_abandon hj s.world) .dropped⟩
  | @underWay i op next hcall hdetached =>
      have hracer := h.racers i
      rw [hcall] at hracer
      exact absurd hdetached (by simp [server, hracer.detached])

end Performing

end Retry

end Racing

/-! ## The results -/

section Results

variable {ι : Type}

/-- No transaction is open, and the keys of the materials are unique. -/
structure World.Unstarted (w : World ι) : Prop where
  materialIds : (w.db.materials.map MaterialRow.id).Nodup
  materialKeys : ∀ r ∈ w.db.materials, ∀ r' ∈ w.db.materials,
    materialScheme.key r = materialScheme.key r' → r.id = r'.id
  tx : ∀ i, w.tx i = none
  log : w.log = []

variable {state : AppState} {row : MaterialRow} {callers : ι → RetryCaller} {w : World ι}

theorem World.Unstarted.pending (hw : w.Unstarted) (i : ι) : w.pending i = [] := by
  simp [World.pending, hw.tx i]

theorem World.Unstarted.sound (hw : w.Unstarted) : Sound materialScheme w.materials := by
  refine Sound.start hw.materialIds hw.materialKeys (fun i ↦ ?_) ?_
  · simp [World.materials, hw.pending i]
  · simp [World.materials, hw.log]

theorem retrying_start (hw : w.Unstarted) :
    Retrying state row callers (retrying state row callers w) where
  sound := hw.sound
  phases i hi := by
    simp only [retrying, hi, RetryCaller.program_retry]
    exact .beginning (hw.pending i)
  committed i hi writes hlog := by
    simp [retrying, hw.log] at hlog

theorem race_start (hw : w.Unstarted) (hready : Retry.Ready state row w.db)
    (hcallers : ∀ i, callers i = .retry) :
    Retry.Race state row none (retrying state row callers w) where
  sound := hw.sound
  current := ⟨row, hready.mem, by simp [Sql.isMaterial, Sql.isMaterialOf], hready.check,
    by simp [hready.canRetry]⟩
  job _ := hready.job
  attempts _ := hready.attempts
  racers i := by
    simp only [retrying, hcallers, RetryCaller.program_retry]
    exact .beginning (by simp) (hw.tx i)

variable [DecidableEq ι] [Fintype ι]

/-- Where no retry is overtaken between its SELECT and its UPDATE, retries replace
only what may be retried, and retries alone are answered once with the material. -/
theorem retries_undisturbed (hw : w.Unstarted) (callers : ι → RetryCaller)
    {events : List (SysEvent ι Choice)}
    (hnot : Run.Along (Server.step ι) (fun s e _ ↦ NotOvertaken row callers s e)
      (retrying state row callers w) events) :
    Run.Throughout (Server.step ι)
      (fun s ↦ Undisturbed row callers s ∧
        (Nonempty ι → (∀ i, callers i = .retry) → Retry.Ready state row w.db → AllServed s →
          OneRetried s)) (retrying state row callers w) events := by
  have hall : ∀ e ∈ events, (fun _ : SysEvent ι Choice ↦ True) e := fun _ _ ↦ trivial
  let Inv (s : Sys ι (World ι) Op Op.Ans Answer) : Prop := Retrying state row callers s ∧
    ((∀ i, callers i = .retry) → Retry.Ready state row w.db → ∃ won, Retry.Race state row won s)
  have hstart : Inv (retrying state row callers w) :=
    ⟨retrying_start hw, fun hcallers hready ↦ ⟨none, race_start hw hready hcallers⟩⟩
  have hinv : Run.Throughout (Server.step ι) Inv (retrying state row callers w) events := by
    refine hnot.throughout (fun s e s' _ hs hstep hnot' ↦ ⟨hs.1.step hnot' hstep, ?_⟩) hall hstart
    intro hcallers hready
    obtain ⟨won, hrace⟩ := hs.2 hcallers hready
    exact hrace.step hcallers hnot' hstep
  rw [Run.throughout_iff] at hinv ⊢
  intro before after s hsplit hrun
  obtain ⟨hretrying, hrace⟩ := hinv before after s hsplit hrun
  refine ⟨hretrying.undisturbed, fun _ hcallers hready hserved ↦ ?_⟩
  obtain ⟨won, hwon⟩ := hrace hcallers hready
  exact hwon.oneRetried hserved

end Results

/-! ## Two retries of one material -/

namespace Sample

def failedOnce : MaterialRow :=
  ⟨uuid 3, uuid 1, uuid 2, "contract.pdf".toList, "application/pdf".toList, 5,
    List.replicate 64 'a', "key".toList, .failed, none, some "broken".toList, 0, 0⟩

def failedJob : JobRow :=
  ⟨uuid 4, uuid 1, uuid 2, uuid 3, .extractDocument, .failed, none, 5, 5,
    Retry.jobKey state failedOnce, 0, none, none, some "broken".toList, 0, 0⟩

def afterFailure : World (Fin 2) :=
  { World.start [partner] with db := ⟨[uuid 1], [partner], [failedOnce], [failedJob]⟩ }

def twice : Fin 2 → RetryCaller := fun _ ↦ .retry

/-- Both read the status before one of them writes. -/
def overtaking : List (SysEvent (Fin 2) Choice) :=
  [0, 1, 0, 1, 0, 0, 0, 1, 1, 1].map fun i ↦ .act i (.granted (uuid 5) 0)

/-- Both transactions are open at once, but the second retry reads the status when
the first one has committed. -/
def overlapping : List (SysEvent (Fin 2) Choice) :=
  [0, 1, 0, 0, 0, 0, 1, 1].map fun i ↦ .act i (.granted (uuid 5) 0)

theorem afterFailure_unstarted : afterFailure.Unstarted where
  materialIds := List.nodup_singleton _
  materialKeys r hr r' hr' _ := by
    rw [List.mem_singleton.mp hr, List.mem_singleton.mp hr']
  tx _ := rfl
  log := rfl

theorem afterFailure_ready : Retry.Ready state failedOnce afterFailure.db where
  mem := List.mem_singleton_self _
  check := by decide +kernel
  canRetry := rfl
  job := ⟨failedJob, List.mem_singleton_self _, by decide +kernel⟩
  attempts job hjob _ := by
    rw [List.mem_singleton.mp hjob]
    decide

end Sample

open Sample in
/-- Both retries answer with the material, and the second one replaces a queued
one. -/
theorem retries_overtake : ∃ s : Sys (Fin 2) (World (Fin 2)) Op Op.Ans Answer,
    Run.run (Server.step (Fin 2)) (retrying state failedOnce twice afterFailure) overtaking =
      some s ∧ AllServed s ∧ ¬ Undisturbed failedOnce twice s ∧ ¬ OneRetried s := by
  refine ⟨_, rfl, ⟨fun i ↦ ?_, fun i ↦ ?_⟩, fun h ↦ ?_, ?_⟩
  · fin_cases i <;> exact ⟨_, rfl⟩
  · fin_cases i <;> rfl
  · obtain ⟨found, hfound, -, hretry⟩ :=
      h.committed 1 rfl _ List.mem_cons_self _ _ List.mem_cons_self
    cases hfound
    cases hretry
  · rintro ⟨i, -, hothers⟩
    fin_cases i
    · obtain ⟨error, herror, -⟩ := hothers 1 (by decide)
      cases herror
    · obtain ⟨error, herror, -⟩ := hothers 0 (by decide)
      cases herror

section

variable {ι : Type} {row : MaterialRow} {callers : ι → RetryCaller}
  {s : Sys ι (World ι) Op Op.Ans Answer}

theorem notOvertaken_of_other {i : ι} {choice : Choice}
    (h : (s.procs i).head? ≠ some .commit) : NotOvertaken row callers s (.act i choice) :=
  fun hcommit ↦ absurd hcommit h

theorem notOvertaken_of_none {e : SysEvent ι Choice}
    (h : ∀ j, ¬ Retry.Between row (s.procs j)) : NotOvertaken row callers s e := by
  cases e with
  | act i choice =>
      rintro - - ⟨j, -, hbetween⟩
      exact absurd hbetween (h j)
  | abandon i underWay => trivial

end

open Sample in
theorem retries_undisturbed_overlapping : ∃ s : Sys (Fin 2) (World (Fin 2)) Op Op.Ans Answer,
    Run.run (Server.step (Fin 2)) (retrying state failedOnce twice afterFailure) overlapping =
      some s ∧ OneRetried s := by
  have hnot : Run.Along (Server.step (Fin 2)) (fun s e _ ↦ NotOvertaken failedOnce twice s e)
      (retrying state failedOnce twice afterFailure) overlapping := by
    refine (Run.along_cons_iff rfl).mpr ⟨notOvertaken_of_other fun h ↦ (by cases h), ?_⟩
    refine (Run.along_cons_iff rfl).mpr ⟨notOvertaken_of_other fun h ↦ (by cases h), ?_⟩
    refine (Run.along_cons_iff rfl).mpr ⟨notOvertaken_of_other fun h ↦ (by cases h), ?_⟩
    refine (Run.along_cons_iff rfl).mpr ⟨notOvertaken_of_other fun h ↦ (by cases h), ?_⟩
    refine (Run.along_cons_iff rfl).mpr ⟨notOvertaken_of_other fun h ↦ (by cases h), ?_⟩
    -- the other one has begun, but not read, when the first one commits
    refine (Run.along_cons_iff rfl).mpr ⟨notOvertaken_of_none fun j h ↦ ?_, ?_⟩
    · fin_cases j <;> cases h
    refine (Run.along_cons_iff rfl).mpr ⟨notOvertaken_of_other fun h ↦ (by cases h), ?_⟩
    refine (Run.along_cons_iff rfl).mpr ⟨notOvertaken_of_other fun h ↦ (by cases h), ?_⟩
    trivial
  have hall := Run.throughout_iff.mp (retries_undisturbed afterFailure_unstarted twice hnot)
  obtain ⟨s, hrun, hserved⟩ : ∃ s : Sys (Fin 2) (World (Fin 2)) Op Op.Ans Answer,
      Run.run (Server.step (Fin 2)) (retrying state failedOnce twice afterFailure) overlapping =
        some s ∧ AllServed s := by
    refine ⟨_, rfl, fun i ↦ ?_, fun i ↦ ?_⟩
    · fin_cases i <;> exact ⟨_, rfl⟩
    · fin_cases i <;> rfl
  have hlast := hall overlapping [] s (List.append_nil _).symm hrun
  exact ⟨s, hrun, hlast.2 ⟨0⟩ (fun _ ↦ rfl) afterFailure_ready hserved⟩

end Otdel
