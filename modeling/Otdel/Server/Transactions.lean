import Otdel.Db.Effects
import Otdel.Server.World

/-!
# Transactions of concurrent requests

Whatever programs run, an operation changes the rows in one of five ways.  The
constraints of the schema hold of the committed rows and of every uncommitted
version, in every world that the server reaches.
-/

namespace Otdel

open Versions

variable {ι : Type}

namespace World

/-! ## The tables of the world -/

def partners (w : World ι) : State ι PartnerRow where
  rows := w.db.partners
  pending i := (w.pending i).filterMap Write.partner?
  log := w.log.map fun e ↦ (e.1, e.2.filterMap Write.partner?)

def materials (w : World ι) : State ι MaterialRow where
  rows := w.db.materials
  pending i := (w.pending i).filterMap Write.material?
  log := w.log.map fun e ↦ (e.1, e.2.filterMap Write.material?)

def jobs (w : World ι) : State ι JobRow where
  rows := w.db.jobs
  pending i := (w.pending i).filterMap Write.job?
  log := w.log.map fun e ↦ (e.1, e.2.filterMap Write.job?)

theorem view_partners (w : World ι) (i : ι) :
    (w.view i).partners = w.partners.view partnerScheme i := rfl

theorem view_materials (w : World ι) (i : ι) :
    (w.view i).materials = w.materials.view materialScheme i := rfl

theorem view_jobs (w : World ι) (i : ι) : (w.view i).jobs = w.jobs.view jobScheme i := rfl

theorem mem_partners_pending {w : World ι} {i : ι} {row : PartnerRow} {old : Option PartnerRow} :
    (row, old) ∈ w.partners.pending i ↔ .partner row old ∈ w.pending i := by
  simp only [partners, List.mem_filterMap]
  constructor
  · rintro ⟨write, hwrite, heq⟩
    cases write <;> cases heq
    exact hwrite
  · exact fun h ↦ ⟨_, h, rfl⟩

theorem mem_materials_pending {w : World ι} {i : ι} {row : MaterialRow}
    {old : Option MaterialRow} :
    (row, old) ∈ w.materials.pending i ↔ .material row old ∈ w.pending i := by
  simp only [materials, List.mem_filterMap]
  constructor
  · rintro ⟨write, hwrite, heq⟩
    cases write <;> cases heq
    exact hwrite
  · exact fun h ↦ ⟨_, h, rfl⟩

theorem mem_jobs_pending {w : World ι} {i : ι} {row : JobRow} {old : Option JobRow} :
    (row, old) ∈ w.jobs.pending i ↔ .job row old ∈ w.pending i := by
  simp only [jobs, List.mem_filterMap]
  constructor
  · rintro ⟨write, hwrite, heq⟩
    cases write <;> cases heq
    exact hwrite
  · exact fun h ↦ ⟨_, h, rfl⟩

theorem pending_eq_of_tx {w : World ι} {i : ι} {tx : Tx} (h : w.tx i = some tx) :
    w.pending i = tx.writes := by
  simp [pending, h]

theorem pending_congr {w w' : World ι} {i : ι} (h : w'.tx i = w.tx i) :
    w'.pending i = w.pending i := by
  simp [pending, h]

/-- Another transaction holds no version that a statement waits for. -/
theorem not_blocked {w : World ι} {i j : ι} {clashes : Write → Bool} (h : ¬ w.Blocked i clashes)
    (hj : j ≠ i) {write : Write} (hwrite : write ∈ w.pending j) : clashes write = false := by
  by_contra hclash
  rw [Bool.not_eq_false] at hclash
  exact h ⟨j, hj, List.any_eq_true.mpr ⟨write, hwrite, hclash⟩⟩

theorem visible_partner {w : World ι} {i : ι} {row : PartnerRow}
    (h : row ∈ (w.view i).partners) : w.partners.Visible i row :=
  visible_of_mem_view (w.view_partners i ▸ h)

theorem visible_material {w : World ι} {i : ι} {row : MaterialRow}
    (h : row ∈ (w.view i).materials) : w.materials.Visible i row :=
  visible_of_mem_view (w.view_materials i ▸ h)

theorem visible_job {w : World ι} {i : ι} {row : JobRow} (h : row ∈ (w.view i).jobs) :
    w.jobs.Visible i row :=
  visible_of_mem_view (w.view_jobs i ▸ h)

end World

variable [DecidableEq ι]

/-- What an operation of request `i`, or its end, does to the rows. -/
inductive DbStep (i : ι) (op : Option Op) (w w' : World ι) : Prop
  | same (hdb : w'.db = w.db) (hlog : w'.log = w.log) (htx : w'.tx = w.tx)
  | ended (hdb : w'.db = w.db) (hlog : w'.log = w.log)
      (htx : w'.tx = Function.update w.tx i none)
  | began (bureauId : Uuid) (now : Timestamp) (hop : op = some (.begin bureauId))
      (hdb : w'.db = w.db) (hlog : w'.log = w.log)
      (htx : w'.tx = Function.update w.tx i (some ⟨bureauId, now, []⟩))
  | wrote (tx : Tx) (s : Sql) (id : Uuid) (answer : s.Answer) (writes : List Write)
      (hop : op = some (.sql s)) (hopen : w.tx i = some tx) (hfree : ¬ w.Blocked i (s.waitsFor id tx.now (w.view i)))
      (hexec : s.exec id tx.now (w.view i) = .ok (answer, writes))
      (hdb : w'.db = w.db) (hlog : w'.log = w.log)
      (htx : w'.tx = Function.update w.tx i (some { tx with writes := tx.writes ++ writes }))
  | committed (tx : Tx) (hop : op = some .commit) (hopen : w.tx i = some tx)
      (hdb : w'.db = w.db.overlay tx.writes)
      (hlog : w'.log = (i, tx.writes) :: w.log) (htx : w'.tx = Function.update w.tx i none)

namespace World

variable {w w' : World ι} {i : ι}

theorem releaseGuard_rows (w : World ι) (i : ι) : (w.releaseGuard i).db = w.db ∧
    (w.releaseGuard i).log = w.log ∧ (w.releaseGuard i).tx = w.tx := by
  unfold releaseGuard
  split <;> simp [setStaging]

theorem abandon_dbStep (i : ι) (w : World ι) : DbStep i none w (w.abandon i) := by
  obtain ⟨hdb, hlog, htx⟩ := w.releaseGuard_rows i
  exact .ended (by simp [abandon, setTx, hdb]) (by simp [abandon, setTx, hlog])
    (by simp [abandon, setTx, htx])

theorem refuse_dbStep {op : Op} {outage : Outage} {a : op.Ans}
    (h : w.refuse i outage op = some (a, w')) : DbStep i (some op) w w' := by
  cases op with
  | sql | commit =>
      cases h
      exact .ended rfl rfl rfl
  | rollback | armStaging | syncDir | dropGuard | disarmGuard | report => cases h
  | _ =>
      cases h
      exact .same rfl rfl rfl

variable [Fintype ι]

theorem runSql_dbStep {s : Sql} {id : Uuid} {a : Except DbError s.Answer}
    (h : w.runSql i s id = some (a, w')) : DbStep i (some (.sql s)) w w' := by
  unfold runSql at h
  split at h
  · cases h
    exact .same rfl rfl rfl
  · rename_i tx hopen
    split at h
    · cases h
    · rename_i hfree
      split at h
      · rename_i answer writes hexec
        cases h
        exact .wrote tx s id answer writes rfl hopen hfree hexec rfl rfl rfl
      · cases h
        exact .ended rfl rfl rfl

theorem grant_dbStep {op : Op} {id : Uuid} {now : Timestamp} {a : op.Ans}
    (h : w.grant i id now op = some (a, w')) : DbStep i (some op) w w' := by
  cases op with
  | begin bureauId =>
      cases h
      exact .began bureauId now rfl rfl rfl rfl
  | sql s => exact runSql_dbStep h
  | commit =>
      simp only [grant] at h
      split at h
      · cases h
        exact .same rfl rfl rfl
      · rename_i tx hopen
        cases h
        exact .committed tx rfl hopen rfl rfl rfl
  | rollback =>
      cases h
      exact .ended rfl rfl rfl
  | dropGuard =>
      cases h
      obtain ⟨hdb, hlog, htx⟩ := w.releaseGuard_rows i
      exact .same hdb hlog htx
  | armStaging | createStaging | rename | removeStaging | stat | openFile =>
      simp only [grant] at h
      split at h <;> cases h <;> exact .same rfl rfl rfl
  | readStaging | listObjects => cases h
  | _ =>
      cases h
      exact .same rfl rfl rfl

theorem perform_dbStep {op : Op} {choice : Choice} {a : op.Ans}
    (h : w.perform i op choice = some (a, w')) : DbStep i (some op) w w' := by
  cases choice with
  | granted id now => exact grant_dbStep h
  | failed outage => exact refuse_dbStep h
  | lost =>
      cases op <;> try cases h
      rw [perform, Option.bind_eq_some_iff] at h
      obtain ⟨tx, hopen, h⟩ := h
      cases h
      exact .committed tx rfl hopen rfl rfl rfl
  | listed staging objects truncated =>
      cases op <;> cases h <;> exact .same rfl rfl rfl

end World

/-! ## The tables take steps together -/

namespace DbStep

open World

variable {w w' : World ι} {i : ι} {op : Option Op}

omit [DecidableEq ι] in
theorem pending_same (hp : w'.tx = w.tx) : w'.pending = w.pending := by
  funext j
  simp [World.pending, hp]

theorem pending_none (hp : w'.tx = Function.update w.tx i none) :
    w'.pending = Function.update w.pending i [] := by
  funext j
  by_cases hj : j = i
  · subst hj
    simp [World.pending, hp]
  · simp [World.pending, hp, hj]

theorem pending_some {tx : Tx} (hp : w'.tx = Function.update w.tx i (some tx)) :
    w'.pending = Function.update w.pending i tx.writes := by
  funext j
  by_cases hj : j = i
  · subst hj
    simp [World.pending, hp]
  · simp [World.pending, hp, hj]

/-- How the three tables of two worlds are related. -/
inductive Tables (i : ι) (op : Option Op) (w w' : World ι) : Prop
  | same (hp : w'.partners = w.partners) (hm : w'.materials = w.materials)
      (hj : w'.jobs = w.jobs)
  | dropped (hp : w'.partners = w.partners.setPending i [])
      (hm : w'.materials = w.materials.setPending i [])
      (hj : w'.jobs = w.jobs.setPending i [])
  | added (s : Sql) (id : Uuid) (now : Timestamp) (writes : List Write)
      (hop : op = some (.sql s)) (heffect : s.Effect id now (w.view i) writes)
      (hfree : ¬ w.Blocked i (s.waitsFor id now (w.view i)))
      (hp : w'.partners = w.partners.add i (writes.filterMap Write.partner?))
      (hm : w'.materials = w.materials.add i (writes.filterMap Write.material?))
      (hj : w'.jobs = w.jobs.add i (writes.filterMap Write.job?))
  | committed (hop : op = some .commit) (hp : w'.partners = w.partners.commit partnerScheme i)
      (hm : w'.materials = w.materials.commit materialScheme i)
      (hj : w'.jobs = w.jobs.commit jobScheme i)

theorem filterMap_update {Row : Type} (f : Write → Option Row) (pending : ι → List Write)
    (writes : List Write) (j : ι) :
    (Function.update pending i writes j).filterMap f =
      Function.update (fun j ↦ (pending j).filterMap f) i (writes.filterMap f) j := by
  by_cases hj : j = i
  · subst hj
    simp
  · simp [hj]

theorem tables_dropped (hdb : w'.db = w.db) (hlog : w'.log = w.log)
    (hpending : w'.pending = Function.update w.pending i []) : Tables i op w w' := by
  refine .dropped ?_ ?_ ?_ <;>
    exact State.ext (by simp [partners, materials, jobs, hdb])
      (by simp [partners, materials, jobs, State.setPending, hpending,
        filterMap_update])
      (by simp [partners, materials, jobs, hlog])

theorem tables (h : DbStep i op w w') : Tables i op w w' := by
  cases h with
  | same hdb hlog htx =>
      have hpending := pending_same htx
      refine .same ?_ ?_ ?_
      · simp [partners, hdb, hlog, hpending]
      · simp [materials, hdb, hlog, hpending]
      · simp [jobs, hdb, hlog, hpending]
  | ended hdb hlog htx => exact tables_dropped hdb hlog (pending_none htx)
  | began bureauId now hop hdb hlog htx => exact tables_dropped hdb hlog (pending_some htx)
  | wrote tx s id answer writes hop hopen hfree hexec hdb hlog htx =>
      have hpending := pending_some htx
      have hmine := pending_eq_of_tx hopen
      refine .added s id tx.now writes hop (Sql.effect_of_exec hexec) hfree ?_ ?_ ?_ <;>
        exact State.ext (by simp [partners, materials, jobs, hdb, State.add])
          (by simp [partners, materials, jobs, State.add, State.setPending, hpending, hmine,
            filterMap_update])
          (by simp [partners, materials, jobs, hlog, State.add])
  | committed tx hop hopen hdb hlog htx =>
      have hpending := pending_none htx
      have hmine := pending_eq_of_tx hopen
      refine .committed hop ?_ ?_ ?_ <;>
        exact State.ext
          (by simp [partners, materials, jobs, hdb, hmine, State.commit, State.view, Db.overlay,
            partnerScheme, materialScheme, jobScheme])
          (by simp [partners, materials, jobs, State.commit, hpending, filterMap_update])
          (by simp [partners, materials, jobs, hlog, hmine, State.commit])

end DbStep

end Otdel
