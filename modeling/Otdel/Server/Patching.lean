import Otdel.Api.Patch
import Otdel.Server.Consistency
import Otdel.Server.Frame
import Otdel.Server.Requests

/-!
# Concurrent patches of one partner

The update of a PATCH is evaluated on the row version that was committed last,
and nobody commits another one before it ends.  So the patches that are
committed have been applied one after another.
-/

namespace Otdel

open Versions

/-- The operations that do not update this partner. -/
def Op.SparesPartner (bureauId partnerId : Uuid) : Op → Prop
  | .sql (.partnersUpdate bureauId' partnerId' _ _ _) =>
      ¬ (bureauId' = bureauId ∧ partnerId' = partnerId)
  | _ => True

/-- A PATCH of the partner, or a program that never updates it. -/
inductive Caller (bureauId partnerId : Uuid) where
  | patch (body : Json)
  | other (program : Prog Answer) (hspares : program.Calls (Op.SparesPartner bureauId partnerId))

/-- The rows that follow one another when bodies are applied in this order. -/
inductive Serial : List Json → PartnerRow → PartnerRow → Prop
  | nil (row : PartnerRow) : Serial [] row row
  | snoc {bodies : List Json} {body : Json} {row cur new : PartnerRow} (h : Serial bodies row cur)
      (hpatched : Patched body cur new) : Serial (bodies ++ [body]) row new

/-! ## The program of a PATCH -/

section Program

variable {bureauId partnerId : Uuid}

def answerError (error : ApiError) : Prog Answer := .done (.response (.error error))

/-- The commit of a PATCH. -/
def committing (row : Option PartnerRow) : Prog Answer :=
  .call .commit fun
    | .ok _ => .done (.response ((okOr Routes.partnerNotFound (row.map partnerFromRow)).map
        (Response.partner 200)))
    | .error e => answerError (.ofDbError e)

/-- The statement of a PATCH. -/
def updating (bureauId partnerId : Uuid) (patch : PartnerPatch) : Prog Answer :=
  .call (.sql (.partnersUpdate bureauId partnerId patch.name patch.note.isSome
    (patch.note.getD none))) fun
    | .ok row => committing row
    | .error e => answerError (.ofDbError e)

def Caller.program : Caller bureauId partnerId → Prog Answer
  | patch body =>
      Program.bind (Routes.patchPartner ⟨bureauId⟩ partnerId body) fun r ↦ .done (.response r)
  | other program _ => program

/-- A body that is accepted is carried out in one transaction; another one is
answered at once. -/
theorem Caller.program_patch (bureauId partnerId : Uuid) (body : Json) :
    (∃ error, (patch body : Caller bureauId partnerId).program = answerError error) ∨
      ∃ payload patch, PatchPartnerRequest.deserialize body = some payload ∧
        Routes.patchOf payload = .ok patch ∧
        (Caller.patch body : Caller bureauId partnerId).program =
          .call (.begin bureauId) fun
            | .ok _ => updating bureauId partnerId patch
            | .error e => answerError (.ofDbError e) := by
  cases hbody : PatchPartnerRequest.deserialize body with
  | none =>
      refine Or.inl ⟨Routes.invalidBody, ?_⟩
      simp only [program, Routes.patchPartner, hbody]
      rfl
  | some payload =>
      cases hpatch : Routes.patchOf payload with
      | error e =>
          refine Or.inl ⟨.new e, ?_⟩
          simp only [program, Routes.patchPartner, hbody]
          change Program.bind (Routes.updatePartner _ _ _) _ = _
          simp only [Routes.updatePartner, hpatch]
          rfl
      | ok patch =>
          refine Or.inr ⟨payload, patch, rfl, hpatch, ?_⟩
          simp only [program, Routes.patchPartner, hbody]
          change Program.bind (Routes.updatePartner _ _ _) _ = _
          simp only [Routes.updatePartner, hpatch]
          refine congrArg (Program.call (Op.begin bureauId)) (funext fun began ↦ ?_)
          cases began with
          | error e => rfl
          | ok =>
              refine congrArg (Program.call (Op.sql _)) (funext fun updated ↦ ?_)
              cases updated with
              | error e => rfl
              | ok row =>
                  refine congrArg (Program.call Op.commit) (funext fun committed ↦ ?_)
                  cases committed with
                  | error e => rfl
                  | ok => cases row <;> rfl

end Program

/-! ## The row in the world -/

section Rows

variable {bureauId partnerId : Uuid}

theorem spares_of_exec {id : Uuid} {now : Timestamp} {db : Db} {s : Sql} {answer : s.Answer}
    {writes : List Write} (h : s.exec id now db = .ok (answer, writes))
    (hspares : (Op.sql s).SparesPartner bureauId partnerId)
    (hthere : ∃ r ∈ db.partners, r.id = partnerId)
    (hbureau : ∀ r ∈ db.partners, r.id = partnerId → r.bureauId = bureauId) {row : PartnerRow}
    {old : Option PartnerRow} (hwrite : .partner row old ∈ writes) : row.id ≠ partnerId := by
  cases s with
  | partnersUpdate bureauId' partnerId' name setNote note =>
      obtain ⟨hr, -⟩ := Sql.map_updateRows_eq_ok h
      cases hr
      obtain ⟨r, hr, heq⟩ := List.mem_map.mp hwrite
      cases heq
      obtain ⟨hmem, hpartner⟩ := List.mem_filter.mp hr
      simp only [Sql.isPartner, Bool.and_eq_true, decide_eq_true_eq] at hpartner
      intro hid
      exact hspares ⟨hpartner.1.symm.trans (hbureau r hmem hid), hpartner.2.symm.trans hid⟩
  | partnersInsert bureauId' name note =>
      simp only [Sql.exec, guard_eq_ok, Except.ok.injEq] at h
      obtain ⟨-, hfresh, -, h⟩ := h
      cases h
      rw [List.mem_singleton] at hwrite
      cases hwrite
      obtain ⟨r, hr, rfl⟩ := hthere
      intro hid
      exact hfresh (List.any_eq_true.mpr ⟨r, hr, by simpa using hid.symm⟩)
  | partnersList | partnersGet | partnersExists | materialsList | materialsByDigest
  | materialsGet | jobsList | jobsByKey =>
      cases h
      cases hwrite
  | materialsInsert bureauId' new =>
      rcases Sql.exec_materialsInsert h with ⟨-, rfl⟩ | ⟨-, rfl, -⟩ <;> simp at hwrite
  | jobsInsert bureauId' partnerId' materialId kind key =>
      rcases Sql.exec_jobsInsert h with ⟨-, rfl, -⟩ | ⟨-, rfl, -⟩ <;> simp at hwrite
  | jobsRequeue =>
      simp only [Sql.exec, guard_eq_ok] at h
      obtain ⟨hr, -⟩ := Sql.map_updateRows_eq_ok h.2
      cases hr
      simp at hwrite
  | materialsRequeue | jobsReclaim | workerMaterial | workerJob =>
      obtain ⟨hr, -⟩ := Sql.map_updateRows_eq_ok h
      cases hr
      simp at hwrite

variable {ι : Type} {w w' : World ι} {i j : ι}

/-- The transaction of a request holds no version of the partner's row. -/
def World.Spares (w : World ι) (i : ι) (partnerId : Uuid) : Prop :=
  ∀ v ∈ w.partners.pending i, v.1.id ≠ partnerId

/-- The committed row of the partner. -/
structure World.Current (w : World ι) (bureauId partnerId : Uuid) (row : PartnerRow) : Prop where
  mem : row ∈ w.db.partners
  id : row.id = partnerId
  bureauId : row.bureauId = bureauId

theorem World.Current.eq_of_mem {row other : PartnerRow} (h : w.Current bureauId partnerId row)
    (hsound : Sound partnerScheme w.partners) (hmem : other ∈ w.db.partners)
    (hid : other.id = partnerId) : other = row :=
  List.inj_on_of_nodup_map hsound.nodup hmem h.mem (hid.trans h.id.symm)

variable [DecidableEq ι]

theorem World.Current.step {op : Option Op} {row : PartnerRow}
    (h : w.Current bureauId partnerId row) (hstep : DbStep i op w w')
    (hspares : w.Spares i partnerId) : w'.Current bureauId partnerId row where
  mem := hstep.tables.partners_step.mem_rows h.mem fun v hv ↦ by
    rw [show partnerScheme.id row = partnerId from h.id]
    exact hspares v hv
  id := h.id
  bureauId := h.bureauId

theorem World.Current.abandon {row : PartnerRow} (h : w.Current bureauId partnerId row) (i : ι) :
    (w.abandon i).Current bureauId partnerId row := by
  have hrows : (w.abandon i).db = w.db := (w.releaseGuard_rows i).1
  exact ⟨hrows ▸ h.mem, h.id, h.bureauId⟩

omit [DecidableEq ι] in
/-- Everything that is known of the partner names its bureau. -/
theorem World.Current.bureau {row : PartnerRow} (h : w.Current bureauId partnerId row)
    (hsound : Sound partnerScheme w.partners) {other : PartnerRow}
    (hother : w.partners.Visible i other) (hid : other.id = partnerId) :
    other.bureauId = bureauId := by
  have hcore := hsound.core other row hother.known ⟨i, Or.inl h.mem⟩ (hid.trans h.id.symm)
  rw [(PartnerRow.core_eq_iff.mp hcore).2.1, h.bureauId]

theorem World.Spares.step {op : Option Op} {row : PartnerRow}
    (h : w.Spares i partnerId) (hcurrent : w.Current bureauId partnerId row)
    (hsound : Sound partnerScheme w.partners) (hstep : DbStep i op w w')
    (hop : ∀ op' ∈ op, op'.SparesPartner bureauId partnerId) : w'.Spares i partnerId := by
  intro v hv
  rw [World.partners] at hv
  cases hstep with
  | same hdb hlog htx =>
      rw [DbStep.pending_same htx] at hv
      exact h v hv
  | ended hdb hlog htx =>
      simp [DbStep.pending_none htx] at hv
  | began bureauId now hop hdb hlog htx =>
      simp [DbStep.pending_some htx] at hv
  | committed tx hop hopen hdb hlog htx =>
      simp [DbStep.pending_none htx] at hv
  | wrote tx s id answer writes hsql hopen hfree hexec hdb hlog htx =>
      rw [DbStep.pending_some htx] at hv
      simp only [Function.update_self, List.filterMap_append, List.mem_append] at hv
      rcases hv with hold | hnew
      · exact h v (by simpa [World.partners, World.pending_eq_of_tx hopen] using hold)
      · obtain ⟨new, old⟩ := v
        obtain ⟨write, hwrite, heq⟩ := List.mem_filterMap.mp hnew
        cases write <;> cases heq
        refine spares_of_exec hexec (hop _ hsql) ?_ ?_ hwrite
        · obtain ⟨r, hr, hcore⟩ := hsound.exists_view (i := i) (Or.inl hcurrent.mem)
          exact ⟨r, w.view_partners i ▸ hr, (PartnerRow.core_eq_iff.mp hcore).1.trans hcurrent.id⟩
        · intro r hr hid
          exact hcurrent.bureau hsound (World.visible_partner hr) hid

end Rows

/-! ## Where a PATCH stands -/

section Phases

variable {bureauId partnerId : Uuid} {ι : Type}

/-- How far the request has come; `applied` when its update is committed. -/
inductive Phase (w : World ι) (i : ι) (bureauId partnerId : Uuid) (cur : PartnerRow) (body : Json) :
    Bool → Prog Answer → Prop
  | waiting (hpending : w.partners.pending i = []) :
      Phase w i bureauId partnerId cur body false
        (Caller.patch body : Caller bureauId partnerId).program
  | updating (payload : PatchPartnerRequest) (patch : PartnerPatch)
      (hbody : PatchPartnerRequest.deserialize body = some payload)
      (hpatch : Routes.patchOf payload = .ok patch) (hpending : w.partners.pending i = []) :
      Phase w i bureauId partnerId cur body false (updating bureauId partnerId patch)
  | committing (new : PartnerRow) (haccepted : body.Accepted) (hid : new.id = partnerId)
      (hpatched : Patched body cur new) (hpending : w.partners.pending i = [(new, some cur)]) :
      Phase w i bureauId partnerId cur body false (committing (some new))
  | refused (answer : Answer) (hanswer : ∀ r, answer ≠ .response (.ok r))
      (hpending : w.partners.pending i = []) :
      Phase w i bureauId partnerId cur body false (.done answer)
  | answered (r : Response) (hpending : w.partners.pending i = []) :
      Phase w i bureauId partnerId cur body true (.done (.response (.ok r)))
  | lost (error : ApiError) (hlost : w.unacked i = true) (hpending : w.partners.pending i = []) :
      Phase w i bureauId partnerId cur body true (answerError error)

variable {w w' : World ι} {i j : ι} {cur : PartnerRow} {body : Json} {applied : Bool}
  {p : Prog Answer}

/-- Where a PATCH stands does not change by what another request does. -/
theorem Phase.frame (h : Phase w j bureauId partnerId cur body applied p)
    (htx : w'.tx j = w.tx j) (hunacked : w'.unacked j = w.unacked j) :
    Phase w' j bureauId partnerId cur body applied p := by
  have hsame : w'.partners.pending j = w.partners.pending j := by
    simp [World.partners, World.pending_congr htx]
  cases h with
  | waiting hpending => exact .waiting (hsame.trans hpending)
  | updating payload patch hbody hpatch hpending =>
      exact .updating payload patch hbody hpatch (hsame.trans hpending)
  | committing new haccepted hid hpatched hpending =>
      exact .committing new haccepted hid hpatched (hsame.trans hpending)
  | refused answer hanswer hpending => exact .refused answer hanswer (hsame.trans hpending)
  | answered r hpending => exact .answered r (hsame.trans hpending)
  | lost error hlost hpending => exact .lost error (hunacked.trans hlost) (hsame.trans hpending)

/-- A PATCH that holds no version of the row does not care which one is
committed. -/
theorem Phase.reread (h : Phase w j bureauId partnerId cur body applied p)
    (hspares : w.Spares j partnerId) (cur' : PartnerRow) :
    Phase w j bureauId partnerId cur' body applied p := by
  cases h with
  | waiting hpending => exact .waiting hpending
  | updating payload patch hbody hpatch hpending =>
      exact .updating payload patch hbody hpatch hpending
  | committing new haccepted hid hpatched hpending =>
      exact (hspares (new, some cur) (by simp [hpending]) hid).elim
  | refused answer hanswer hpending => exact .refused answer hanswer hpending
  | answered r hpending => exact .answered r hpending
  | lost error hlost hpending => exact .lost error hlost hpending

theorem spares_of_nil (h : w.partners.pending i = []) : w.Spares i partnerId := by
  simp [World.Spares, h]

/-- The statement of a PATCH writes a new version of the committed row. -/
theorem exec_updating {patch : PartnerPatch} {id : Uuid} {now : Timestamp} {db : Db}
    (hfilter : db.partners.filter (Sql.isPartner bureauId partnerId) = [cur])
    {answer : Option PartnerRow} {writes : List Write}
    (h : (Sql.partnersUpdate bureauId partnerId patch.name patch.note.isSome
      (patch.note.getD none)).exec id now db = .ok (answer, writes)) :
    answer = some (patch.row now cur) ∧ writes = [.partner (patch.row now cur) (some cur)] := by
  obtain ⟨hr, -⟩ := Sql.map_updateRows_eq_ok h
  rw [hfilter] at hr
  cases hr
  exact ⟨rfl, rfl⟩

theorem Phase.of_call {op : Op} {next : op.Ans → Prog Answer}
    (h : Phase w i bureauId partnerId cur body applied (.call op next)) :
    applied = false ∧ op.detached = false := by
  generalize hp : Program.call op next = p at h
  cases h with
  | waiting =>
      rcases Caller.program_patch bureauId partnerId body with
        ⟨error, hprogram⟩ | ⟨payload, patch, -, -, hprogram⟩
      · rw [hprogram] at hp
        cases hp
      · rw [hprogram] at hp
        cases hp
        exact ⟨rfl, rfl⟩
  | updating | committing =>
      cases hp
      exact ⟨rfl, rfl⟩
  | refused | answered | lost => cases hp

theorem Phase.of_ok {r : Response}
    (h : Phase w i bureauId partnerId cur body applied (.done (.response (.ok r)))) :
    applied = true := by
  generalize hp : Program.done (Answer.response (.ok r)) = p at h
  cases h with
  | waiting =>
      rcases Caller.program_patch bureauId partnerId body with
        ⟨error, hprogram⟩ | ⟨payload, patch, -, -, hprogram⟩
      · rw [hprogram] at hp
        cases hp
      · rw [hprogram] at hp
        cases hp
  | refused answer hanswer =>
      cases hp
      exact (hanswer r rfl).elim
  | answered | lost => rfl
  | updating | committing => cases hp

variable [DecidableEq ι]

theorem pending_nil_step {op : Option Op} (h : w.partners.pending i = [])
    (hstep : DbStep i op w w') (hsql : ∀ s, op ≠ some (.sql s)) : w'.partners.pending i = [] := by
  simp only [World.partners] at h ⊢
  cases hstep with
  | same hdb hlog htx => rwa [DbStep.pending_same htx]
  | ended hdb hlog htx => simp [DbStep.pending_none htx]
  | began bureauId now hop hdb hlog htx => simp [DbStep.pending_some htx]
  | wrote tx s id answer writes hop => exact (hsql s hop).elim
  | committed tx hop hopen hdb hlog htx => simp [DbStep.pending_none htx]

variable [Fintype ι]

omit [DecidableEq ι] [Fintype ι] in
/-- The rows that the statement of a PATCH picks. -/
theorem filter_isPartner (hcurrent : w.Current bureauId partnerId cur)
    (hsound : Sound partnerScheme w.partners) (hpending : w.partners.pending i = []) :
    (w.view i).partners.filter (Sql.isPartner bureauId partnerId) = [cur] := by
  have hview : (w.view i).partners = w.db.partners := by
    rw [World.view_partners, State.view, hpending]
    rfl
  have hpicked : Sql.isPartner bureauId partnerId cur = true := by
    simp [Sql.isPartner, hcurrent.id, hcurrent.bureauId]
  rw [hview]
  apply Table.filter_eq_singleton hsound.nodup hcurrent.mem hpicked
  intro r hr hpartner
  simp only [Sql.isPartner, Bool.and_eq_true, decide_eq_true_eq] at hpartner
  exact hpartner.2.trans hcurrent.id.symm

theorem perform_updating {patch : PartnerPatch} {choice : Choice}
    {a : Except DbError (Option PartnerRow)} (hcurrent : w.Current bureauId partnerId cur)
    (hsound : Sound partnerScheme w.partners) (hpending : w.partners.pending i = [])
    (hperform : w.perform i (.sql (.partnersUpdate bureauId partnerId patch.name
      patch.note.isSome (patch.note.getD none))) choice = some (a, w')) :
    (∃ e, a = .error e ∧ w'.partners.pending i = []) ∨
      ∃ now, a = .ok (some (patch.row now cur)) ∧
        w'.partners.pending i = [(patch.row now cur, some cur)] := by
  have hmine : (w.pending i).filterMap Write.partner? = [] := hpending
  cases choice with
  | granted id now =>
      simp only [World.perform, World.grant, World.runSql] at hperform
      split at hperform
      · cases hperform
        exact Or.inl ⟨_, rfl, hpending⟩
      · rename_i tx hopen
        split at hperform
        · cases hperform
        · split at hperform
          · rename_i answer writes hexec
            cases hperform
            obtain ⟨rfl, rfl⟩ := exec_updating (filter_isPartner hcurrent hsound hpending) hexec
            rw [World.pending_eq_of_tx hopen] at hmine
            refine Or.inr ⟨tx.now, rfl, ?_⟩
            simp [World.partners, World.pending, World.setTx, hmine, Write.partner?]
          · cases hperform
            exact Or.inl ⟨_, rfl, by simp [World.partners, World.pending, World.setTx]⟩
  | failed outage =>
      cases hperform
      exact Or.inl ⟨_, rfl, by
        simp [World.partners, World.pending, World.setTx, World.markFaulted]⟩
  | lost | listed => cases hperform

theorem perform_committing {new : PartnerRow} {choice : Choice} {a : Except DbError Unit}
    (hcurrent : w.Current bureauId partnerId cur) (hid : new.id = partnerId)
    (hbureau : new.bureauId = bureauId)
    (hpending : w.partners.pending i = [(new, some cur)])
    (hperform : w.perform i .commit choice = some (a, w')) :
    w'.partners.pending i = [] ∧
      ((w'.Current bureauId partnerId cur ∧ ∃ e, a = .error e) ∨
        (w'.Current bureauId partnerId new ∧ (a = .ok () ∨ w'.unacked i = true))) := by
  have hmine : (w.pending i).filterMap Write.partner? = [(new, some cur)] := hpending
  have hpublished : ∀ tx, w.tx i = some tx → new ∈ (w.db.overlay tx.writes).partners := by
    intro tx hopen
    rw [World.pending_eq_of_tx hopen] at hmine
    simp only [Db.overlay, hmine, List.map_cons, List.map_nil, Table.overlay_cons,
      Table.overlay_nil]
    exact Table.self_mem_upsert
  cases choice with
  | granted id now =>
      simp only [World.perform, World.grant] at hperform
      split at hperform
      · rename_i hclosed
        simp [World.pending, hclosed] at hmine
      · rename_i tx hopen
        cases hperform
        exact ⟨by simp [World.partners, World.pending, World.publish, World.setTx],
          Or.inr ⟨⟨hpublished tx hopen, hid, hbureau⟩, Or.inl rfl⟩⟩
  | failed outage =>
      cases hperform
      exact ⟨by simp [World.partners, World.pending, World.setTx, World.markFaulted],
        Or.inl ⟨⟨hcurrent.mem, hcurrent.id, hcurrent.bureauId⟩, _, rfl⟩⟩
  | lost =>
      obtain ⟨tx, hopen, hperform⟩ := Option.bind_eq_some_iff.mp hperform
      cases hperform
      exact ⟨by simp [World.partners, World.pending, World.publish, World.setTx, World.markFaulted],
        Or.inr ⟨⟨hpublished tx hopen, hid, hbureau⟩, Or.inr (by simp [World.markFaulted])⟩⟩
  | listed => cases hperform

/-- A step of a PATCH leaves the committed row, or commits the patched one. -/
theorem Phase.perform {op : Op} {next : op.Ans → Prog Answer} {choice : Choice} {a : op.Ans}
    (h : Phase w i bureauId partnerId cur body applied (.call op next))
    (hcurrent : w.Current bureauId partnerId cur) (hsound : Sound partnerScheme w.partners)
    (hperform : w.perform i op choice = some (a, w')) :
    (w'.Current bureauId partnerId cur ∧
      Phase w' i bureauId partnerId cur body applied (next a)) ∨
    (applied = false ∧ body.Accepted ∧ ∃ new, Patched body cur new ∧ ¬ w.Spares i partnerId ∧
      w'.Current bureauId partnerId new ∧
        Phase w' i bureauId partnerId new body true (next a)) := by
  have hstep := World.perform_dbStep hperform
  generalize hp : Program.call op next = p at h
  cases h with
  | waiting hpending =>
      rcases Caller.program_patch bureauId partnerId body with
        ⟨error, herror⟩ | ⟨payload, patch, hbody, hpatch, hprogram⟩
      · rw [herror] at hp
        cases hp
      · rw [hprogram] at hp
        cases hp
        refine Or.inl ⟨hcurrent.step hstep (spares_of_nil hpending), ?_⟩
        have hpending' := pending_nil_step hpending hstep nofun
        cases a with
        | error e => exact .refused _ nofun hpending'
        | ok => exact .updating payload patch hbody hpatch hpending'
  | updating payload patch hbody hpatch hpending =>
      cases hp
      have hcurrent' := hcurrent.step hstep (spares_of_nil hpending)
      refine Or.inl ⟨hcurrent', ?_⟩
      rcases perform_updating hcurrent hsound hpending hperform with
        ⟨e, rfl, hpending'⟩ | ⟨now, rfl, hpending'⟩
      · exact .refused _ nofun hpending'
      · have hpatched := patched_of_patchOf hbody hpatch now cur
        exact .committing _ ⟨payload, patch, hbody, hpatch⟩ hcurrent.id hpatched hpending'
  | committing new haccepted hid hpatched hpending =>
      cases hp
      have hbureau : new.bureauId = bureauId := hpatched.bureauId.trans hcurrent.bureauId
      obtain ⟨hpending', ⟨hcurrent', e, rfl⟩ | ⟨hcurrent', hanswer⟩⟩ :=
        perform_committing hcurrent hid hbureau hpending hperform
      · exact Or.inl ⟨hcurrent', .refused _ nofun hpending'⟩
      · have hholds : ¬ w.Spares i partnerId :=
          fun hspares ↦ hspares (new, some cur) (by simp [hpending]) hid
        refine Or.inr ⟨rfl, haccepted, new, hpatched, hholds, hcurrent', ?_⟩
        cases a with
        | ok => exact .answered _ hpending'
        | error e => exact .lost _ (hanswer.resolve_left nofun) hpending'
  | refused answer hanswer hpending => cases hp
  | answered r hpending => cases hp
  | lost error hlost hpending => cases hp

end Phases

/-! ## Runs -/

section Runs

variable {bureauId partnerId : Uuid} {ι : Type} [DecidableEq ι] [Fintype ι]

/-- All callers, before their first step. -/
def calling (callers : ι → Caller bureauId partnerId) (w : World ι) :
    Sys ι (World ι) Op Op.Ans Answer where
  procs i := (callers i).program
  world := w

/-- The patches of `order` have been applied to the row, and no others. -/
structure Patching (callers : ι → Caller bureauId partnerId) (row : PartnerRow)
    (order : List (ι × Json)) (cur : PartnerRow) (s : Sys ι (World ι) Op Op.Ans Answer) : Prop where
  sound : Sound partnerScheme s.world.partners
  nodup : (order.map Prod.fst).Nodup
  bodies : ∀ x ∈ order, callers x.1 = .patch x.2 ∧ x.2.Accepted
  serial : Serial (order.map Prod.snd) row cur
  current : s.world.Current bureauId partnerId cur
  patches : ∀ i body, callers i = .patch body → ∃ applied, (applied = true ↔ (i, body) ∈ order) ∧
    Phase s.world i bureauId partnerId cur body applied (s.procs i)
  others : ∀ i program hspares, callers i = .other program hspares →
    (s.procs i).Calls (Op.SparesPartner bureauId partnerId) ∧ s.world.Spares i partnerId

variable {callers : ι → Caller bureauId partnerId} {row cur : PartnerRow}
  {order : List (ι × Json)} {s s' : Sys ι (World ι) Op Op.Ans Answer}

omit [Fintype ι] in
/-- A step that leaves the committed row. -/
theorem Patching.keep (h : Patching callers row order cur s) {i : ι} {op : Option Op}
    {p : Prog Answer} {w : World ι} (hstep : DbStep i op s.world w)
    (hframe : ∀ j, j ≠ i → s.world.Frame j w) (hcurrent : w.Current bureauId partnerId cur)
    (hpatch : ∀ body, callers i = .patch body → ∃ applied, (applied = true ↔ (i, body) ∈ order) ∧
      Phase w i bureauId partnerId cur body applied p)
    (hother : ∀ program hspares, callers i = .other program hspares →
      p.Calls (Op.SparesPartner bureauId partnerId) ∧ w.Spares i partnerId) :
    Patching callers row order cur ⟨Function.update s.procs i p, w⟩ where
  sound := h.sound.step hstep.tables.partners_step
  nodup := h.nodup
  bodies := h.bodies
  serial := h.serial
  current := hcurrent
  patches := by
    intro j body hj
    by_cases hji : j = i
    · subst hji
      simpa using hpatch body hj
    · obtain ⟨applied, happlied, hphase⟩ := h.patches j body hj
      refine ⟨applied, happlied, ?_⟩
      dsimp only
      rw [Function.update_of_ne hji]
      exact hphase.frame (hframe j hji).tx (hframe j hji).unacked
  others := by
    intro j program hspares hj
    by_cases hji : j = i
    · subst hji
      simpa using hother program hspares hj
    · obtain ⟨hcalls, hfree⟩ := h.others j program hspares hj
      dsimp only
      rw [Function.update_of_ne hji]
      refine ⟨hcalls, ?_⟩
      simpa [World.Spares, World.partners, World.pending_congr (hframe j hji).tx] using hfree

omit [Fintype ι] in
/-- A step that commits a patched row. -/
theorem Patching.apply (h : Patching callers row order cur s) {i : ι} {op : Option Op}
    {p : Prog Answer} {w : World ι} {body : Json} {new : PartnerRow}
    (hstep : DbStep i op s.world w) (hframe : ∀ j, j ≠ i → s.world.Frame j w)
    (hcaller : callers i = .patch body) (haccepted : body.Accepted) (hnew : (i, body) ∉ order)
    (hholds : ¬ s.world.Spares i partnerId) (hpatched : Patched body cur new)
    (hcurrent : w.Current bureauId partnerId new)
    (hphase : Phase w i bureauId partnerId new body true p) :
    Patching callers row (order ++ [(i, body)]) new ⟨Function.update s.procs i p, w⟩ := by
  have hbody : ∀ body', (i, body') ∈ order → body' = body := by
    intro body' hmem
    have hsame := (h.bodies _ hmem).1.symm.trans hcaller
    cases hsame
    rfl
  -- the row that this request held is held by no other one
  have hspares : ∀ j, j ≠ i → s.world.Spares j partnerId := by
    intro j hj v hv hid
    apply hholds
    intro u hu hid'
    exact h.sound.exclusive i j hj.symm u hu v hv (hid'.trans hid.symm)
  constructor
  · exact h.sound.step hstep.tables.partners_step
  · rw [List.map_append, List.map_singleton]
    refine h.nodup.append (List.nodup_singleton _) (List.disjoint_singleton.mpr ?_)
    intro hmem
    obtain ⟨⟨k, body'⟩, hmem', rfl⟩ := List.mem_map.mp hmem
    exact hnew (hbody body' hmem' ▸ hmem')
  · intro x hx
    rcases List.mem_append.mp hx with hx | hx
    · exact h.bodies x hx
    · rw [List.mem_singleton] at hx
      rw [hx]
      exact ⟨hcaller, haccepted⟩
  · rw [List.map_append]
    exact .snoc h.serial hpatched
  · exact hcurrent
  · intro j body' hj
    by_cases hji : j = i
    · subst hji
      obtain rfl : body = body' := by
        have hsame := hcaller.symm.trans hj
        cases hsame
        rfl
      exact ⟨true, by simp, by simpa using hphase⟩
    · obtain ⟨applied, happlied, hphase'⟩ := h.patches j body' hj
      refine ⟨applied, by simpa [hji] using happlied, ?_⟩
      dsimp only
      rw [Function.update_of_ne hji]
      exact (hphase'.reread (hspares j hji) new).frame (hframe j hji).tx (hframe j hji).unacked
  · intro j program hprogram hj
    have hji : j ≠ i := by
      rintro rfl
      cases hcaller.symm.trans hj
    dsimp only
    rw [Function.update_of_ne hji]
    refine ⟨(h.others j program hprogram hj).1, ?_⟩
    have hfree := hspares j hji
    simpa [World.Spares, World.partners, World.pending_congr (hframe j hji).tx] using hfree

theorem Patching.step (h : Patching callers row order cur s) {e : SysEvent ι Choice}
    (hstep : Server.step ι s e = some s') :
    ∃ order' cur', Patching callers row order' cur' s' := by
  cases e with
  | act i choice =>
      simp only [Server.step, Machine.step] at hstep
      split at hstep
      · cases hstep
      rename_i op next hproc
      obtain ⟨⟨a, w⟩, hperform, rfl⟩ := Option.map_eq_some_iff.mp hstep
      have hdb := World.perform_dbStep hperform
      have hframe : ∀ j, j ≠ i → s.world.Frame j w := fun j hj ↦ World.frame_perform hj hperform
      cases hcaller : callers i with
      | patch body =>
          obtain ⟨applied, happlied, hphase⟩ := h.patches i body hcaller
          rw [hproc] at hphase
          rcases hphase.perform h.current h.sound hperform with
            ⟨hcurrent, hphase'⟩ | ⟨rfl, haccepted, new, hpatched, hholds, hcurrent, hphase'⟩
          · refine ⟨order, cur, h.keep hdb hframe hcurrent ?_ ?_⟩
            · intro body' hcaller'
              cases hcaller.symm.trans hcaller'
              exact ⟨applied, happlied, hphase'⟩
            · intro program hspares hcaller'
              cases hcaller.symm.trans hcaller'
          · have hnew : (i, body) ∉ order := fun hmem ↦ by simpa using happlied.mpr hmem
            exact ⟨_, new,
              h.apply hdb hframe hcaller haccepted hnew hholds hpatched hcurrent hphase'⟩
      | other program hspares =>
          obtain ⟨hcalls, hfree⟩ := h.others i program hspares hcaller
          rw [hproc] at hcalls
          have hcurrent := h.current.step hdb hfree
          have hfree' := hfree.step h.current h.sound hdb fun op' hop' ↦ by
            cases hop'
            exact hcalls.1
          refine ⟨order, cur, h.keep hdb hframe hcurrent ?_ ?_⟩
          · intro body hcaller'
            cases hcaller.symm.trans hcaller'
          · intro program' hspares' hcaller'
            exact ⟨hcalls.2 a, hfree'⟩
  | abandon i underWay =>
      simp only [Server.step, Machine.step] at hstep
      split at hstep
      · cases hstep
      rename_i op next hproc
      have hdb := World.abandon_dbStep i s.world
      have hframe : ∀ j, j ≠ i → s.world.Frame j (s.world.abandon i) :=
        fun j hj ↦ World.frame_abandon hj s.world
      have hcurrent := h.current.abandon i
      have hpending : (s.world.abandon i).partners.pending i = [] := by
        simp [World.partners, World.pending, World.abandon, World.setTx]
      refine ⟨order, cur, ?_⟩
      cases hcaller : callers i with
      | patch body =>
          obtain ⟨applied, happlied, hphase⟩ := h.patches i body hcaller
          rw [hproc] at hphase
          obtain ⟨rfl, hdetached⟩ := hphase.of_call
          have hp : s' = ⟨Function.update s.procs i (.done .dropped), s.world.abandon i⟩ := by
            cases underWay <;> simpa [server, hdetached] using hstep.symm
          rw [hp]
          refine h.keep hdb hframe hcurrent ?_ ?_
          · intro body' hcaller'
            cases hcaller.symm.trans hcaller'
            refine ⟨false, happlied, .refused _ (fun r heq ↦ ?_) hpending⟩
            cases heq
          · intro program hspares hcaller'
            cases hcaller.symm.trans hcaller'
      | other program hspares =>
          obtain ⟨hcalls, -⟩ := h.others i program hspares hcaller
          rw [hproc] at hcalls
          have hkeep : ∀ p : Prog Answer, p.Calls (Op.SparesPartner bureauId partnerId) →
              Patching callers row order cur ⟨Function.update s.procs i p, s.world.abandon i⟩ := by
            intro p hp
            refine h.keep hdb hframe hcurrent ?_ ?_
            · intro body hcaller'
              cases hcaller.symm.trans hcaller'
            · intro program' hspares' hcaller'
              exact ⟨hp, spares_of_nil hpending⟩
          split at hstep
          · split at hstep <;> cases hstep
            exact hkeep _ ⟨hcalls.1, fun _ ↦ trivial⟩
          · cases hstep
            exact hkeep _ trivial

theorem Patching.run (h : Patching callers row order cur s) {events : List (SysEvent ι Choice)}
    (hrun : Run.run (Server.step ι) s events = some s') :
    ∃ order' cur', Patching callers row order' cur' s' := by
  induction events generalizing s order cur with
  | nil =>
      cases hrun
      exact ⟨order, cur, h⟩
  | cons e events ih =>
      obtain ⟨t, hstep, hrest⟩ := Run.run_eq_some_cons.mp hrun
      obtain ⟨order', cur', ht⟩ := h.step hstep
      exact ih ht hrest

end Runs

/-! ## The results -/

section Results

/-- A name stays when no later body sends one. -/
theorem Serial.names {bodies : List Json} {row final : PartnerRow} (h : Serial bodies row final)
    {before after : List Json} {body : Json} (hsplit : bodies = before ++ body :: after)
    (hlater : ∀ later ∈ after, ∀ raw, later.sentName ≠ some (.string raw)) :
    body.Names final.name := by
  induction h generalizing after with
  | nil => simp at hsplit
  | @snoc bodies last row cur new h hpatched ih =>
      rcases List.eq_nil_or_concat after with rfl | ⟨after', last', rfl⟩
      · obtain ⟨-, hlast⟩ := List.append_inj' hsplit rfl
        cases hlast
        exact hpatched.name
      · rw [List.concat_eq_append, ← List.cons_append, ← List.append_assoc] at hsplit
        obtain ⟨rfl, hlast⟩ := List.append_inj' hsplit rfl
        cases hlast
        rw [hpatched.nameKept (hlater last (by simp))]
        exact ih rfl fun later hmem ↦ hlater later (by simp [hmem])

/-- A note stays when no later body sends one. -/
theorem Serial.notes {bodies : List Json} {row final : PartnerRow} (h : Serial bodies row final)
    {before after : List Json} {body : Json} (hsplit : bodies = before ++ body :: after)
    (hlater : ∀ later ∈ after, later.sentNote = none) : body.Notes final.note := by
  induction h generalizing after with
  | nil => simp at hsplit
  | @snoc bodies last row cur new h hpatched ih =>
      rcases List.eq_nil_or_concat after with rfl | ⟨after', last', rfl⟩
      · obtain ⟨-, hlast⟩ := List.append_inj' hsplit rfl
        cases hlast
        exact hpatched.note
      · rw [List.concat_eq_append, ← List.cons_append, ← List.append_assoc] at hsplit
        obtain ⟨rfl, hlast⟩ := List.append_inj' hsplit rfl
        cases hlast
        rw [hpatched.noteKept (hlater last (by simp))]
        exact ih rfl fun later hmem ↦ hlater later (by simp [hmem])

variable {ι : Type} [DecidableEq ι] [Fintype ι]

/-- No transaction is open yet. -/
structure World.Idle (w : World ι) : Prop where
  partnerIds : (w.db.partners.map PartnerRow.id).Nodup
  tx : ∀ i, w.tx i = none
  log : w.log = []

/-- The patches that have been applied are those that were answered with the
partner, and those whose commit was not acknowledged. -/
structure Applied {bureauId partnerId : Uuid} (callers : ι → Caller bureauId partnerId)
    (s : Sys ι (World ι) Op Op.Ans Answer) (order : List (ι × Json)) : Prop where
  once : (order.map Prod.fst).Nodup
  patch : ∀ i body, (i, body) ∈ order → callers i = .patch body ∧ body.Accepted
  answered : ∀ i body, callers i = .patch body →
    (∃ r, s.procs i = .done (.response (.ok r))) → (i, body) ∈ order
  accepted : ∀ i body, (i, body) ∈ order → (∃ r, s.procs i = .done (.response (.ok r))) ∨
    (s.world.unacked i = true ∧ ∃ error, s.procs i = .done (.response (.error error)))

omit [DecidableEq ι] [Fintype ι] in
theorem patching_calling {w : World ι} (hidle : w.Idle) {row : PartnerRow}
    (hrow : row ∈ w.db.partners) (callers : ι → Caller row.bureauId row.id) :
    Patching callers row [] row (calling callers w) := by
  have hpending : ∀ i, w.partners.pending i = [] := by
    intro i
    simp [World.partners, World.pending, hidle.tx i]
  constructor
  · refine Sound.start hidle.partnerIds (fun r _ r' _ h ↦ h) hpending ?_
    simp [calling, World.partners, hidle.log]
  · exact List.nodup_nil
  · intro x hx
    cases hx
  · exact .nil row
  · exact ⟨hrow, rfl, rfl⟩
  · intro i body hcaller
    refine ⟨false, by simp, ?_⟩
    simp only [calling, hcaller]
    exact .waiting (hpending i)
  · intro i program hspares hcaller
    simp only [calling, hcaller]
    exact ⟨hspares, spares_of_nil (hpending i)⟩

omit [DecidableEq ι] [Fintype ι] in
theorem Patching.applied {bureauId partnerId : Uuid} {callers : ι → Caller bureauId partnerId}
    {row cur : PartnerRow} {order : List (ι × Json)} {s : Sys ι (World ι) Op Op.Ans Answer}
    (h : Patching callers row order cur s) : Applied callers s order where
  once := h.nodup
  patch i body := h.bodies (i, body)
  answered := by
    intro i body hcaller ⟨r, hproc⟩
    obtain ⟨applied, happlied, hphase⟩ := h.patches i body hcaller
    rw [hproc] at hphase
    exact happlied.mp hphase.of_ok
  accepted := by
    intro i body hmem
    obtain ⟨applied, happlied, hphase⟩ := h.patches i body (h.bodies _ hmem).1
    obtain rfl := happlied.mpr hmem
    generalize hproc : s.procs i = p at hphase
    cases hphase with
    | answered r => exact Or.inl ⟨r, rfl⟩
    | lost error hlost => exact Or.inr ⟨hlost, error, rfl⟩

/-- Whatever runs beside them, the accepted patches of a partner have been
applied one after another. -/
theorem patches_serialize {w : World ι} (hidle : w.Idle) {row : PartnerRow}
    (hrow : row ∈ w.db.partners) (callers : ι → Caller row.bureauId row.id)
    {events : List (SysEvent ι Choice)} {s : Sys ι (World ι) Op Op.Ans Answer}
    (hrun : Run.run (Server.step ι) (calling callers w) events = some s) :
    ∃ order final, Applied callers s order ∧ Serial (order.map Prod.snd) row final ∧
      (∀ r, r ∈ s.world.db.partners ∧ r.id = row.id ↔ r = final) ∧
      ∀ i body, (i, body) ∈ order →
        ((∀ j other, (j, other) ∈ order → j ≠ i → ∀ raw, other.sentName ≠ some (.string raw)) →
          body.Names final.name) ∧
        ((∀ j other, (j, other) ∈ order → j ≠ i → other.sentNote = none) →
          body.Notes final.note) := by
  obtain ⟨order, final, h⟩ := (patching_calling hidle hrow callers).run hrun
  refine ⟨order, final, h.applied, h.serial, fun r ↦ ⟨?_, ?_⟩, fun i body hmem ↦ ?_⟩
  · rintro ⟨hmem, hid⟩
    exact h.current.eq_of_mem h.sound hmem hid
  · rintro rfl
    exact ⟨h.current.mem, h.current.id⟩
  · obtain ⟨before, after, rfl⟩ := List.append_of_mem hmem
    have hsplit : (before ++ (i, body) :: after).map Prod.snd =
        before.map Prod.snd ++ body :: after.map Prod.snd := by simp
    -- no request is applied twice
    have hlater : ∀ j other, (j, other) ∈ after → j ≠ i := by
      intro j other hafter hj
      have honce := h.nodup
      have hfst := List.mem_map_of_mem (f := Prod.fst) hafter
      rw [List.map_append, List.map_cons, List.nodup_append] at honce
      exact (List.nodup_cons.mp honce.2.1).1 (hj ▸ hfst)
    constructor
    · intro hothers
      refine h.serial.names hsplit fun later hmap ↦ ?_
      obtain ⟨⟨j, other⟩, hafter, rfl⟩ := List.mem_map.mp hmap
      exact hothers j other (by simp [hafter]) (hlater j other hafter)
    · intro hothers
      refine h.serial.notes hsplit fun later hmap ↦ ?_
      obtain ⟨⟨j, other⟩, hafter, rfl⟩ := List.mem_map.mp hmap
      exact hothers j other (by simp [hafter]) (hlater j other hafter)

end Results

/-! ## Two patches of different fields -/

namespace Sample

def nameBody : Json := .object [("name".toList, .string " BASIS ".toList)]

def noteBody : Json := .object [("note".toList, .string "hi".toList)]

def patches : Fin 2 → Caller partner.bureauId partner.id
  | 0 => .patch nameBody
  | 1 => .patch noteBody

/-- Both transactions are open when the first one updates the row. -/
def patchEvents : List (SysEvent (Fin 2) Choice) :=
  [0, 1, 0, 0, 1, 1].map fun i ↦ .act i (.granted (uuid 3) 0)

theorem patch_run : ∃ s : Sys (Fin 2) (World (Fin 2)) Op Op.Ans Answer,
    Run.run (Server.step (Fin 2)) (calling patches (World.start [partner])) patchEvents = some s ∧
      ∀ i, ∃ r, s.procs i = .done (.response (.ok r)) := by
  refine ⟨_, rfl, fun i ↦ ?_⟩
  fin_cases i <;> exact ⟨_, rfl⟩

theorem patches_idle : (World.start [partner] : World (Fin 2)).Idle :=
  ⟨List.nodup_singleton _, fun _ ↦ rfl, rfl⟩

end Sample

open Sample in
theorem patches_serialize_two : ∃ s : Sys (Fin 2) (World (Fin 2)) Op Op.Ans Answer,
    Run.run (Server.step (Fin 2)) (calling patches (World.start [partner])) patchEvents = some s ∧
      ∃ r ∈ s.world.db.partners, r.name = "BASIS".toList ∧ r.note = some "hi".toList := by
  obtain ⟨s, hrun, hdone⟩ := patch_run
  obtain ⟨order, final, happlied, -, hfinal, hkept⟩ :=
    patches_serialize patches_idle (List.mem_singleton_self partner) patches hrun
  have hname := hkept 0 nameBody (happlied.answered 0 nameBody rfl (hdone 0))
  have hnote := hkept 1 noteBody (happlied.answered 1 noteBody rfl (hdone 1))
  have hfirst : ∀ other, (0, other) ∈ order → other = nameBody := by
    intro other hmem
    cases (happlied.patch 0 other hmem).1
    rfl
  have hsecond : ∀ other, (1, other) ∈ order → other = noteBody := by
    intro other hmem
    cases (happlied.patch 1 other hmem).1
    rfl
  have htrim : Text.trim "hi".toList ≠ [] := by decide +kernel
  refine ⟨s, hrun, final, ((hfinal final).mpr rfl).1, ?_, ?_⟩
  · refine (hname.1 ?_ _ rfl).trans (by decide +kernel)
    intro j other hmem hj raw hsent
    fin_cases j
    · exact hj rfl
    · rw [hsecond other hmem] at hsent
      cases hsent
  · refine (((hnote.2 ?_).2 _ rfl).2 htrim).trans (by decide +kernel)
    intro j other hmem hj
    fin_cases j
    · rw [hfirst other hmem]
      rfl
    · exact (hj rfl).elim

end Otdel
