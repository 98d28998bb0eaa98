import Otdel.Server.Serving

/-!
# Identical uploads converge

However the uploads interleave, a partner has one material for each digest and
each material has one job.  One request has inserted it; the others find it.
-/

namespace Otdel

open Program Versions

variable {ι : Type} {state : AppState} {requests : ι → Request} {w : World ι} {i : ι}

/-- Request `i` has committed the insert of this material. -/
def World.Inserts (w : World ι) (i : ι) (id : Uuid) : Prop :=
  ∃ writes row, (i, writes) ∈ w.log ∧ .material row none ∈ writes ∧ row.id = id

/-- An upload has ended with this answer. -/
def Uploaded (requests : ι → Request) (s : Sys ι (World ι) Op Op.Ans Answer) (i : ι)
    (ns : ObjectNamespace) (content : Bytes) (response : Response) : Prop :=
  s.procs i = .done (.response (.ok response)) ∧ ∃ session partnerId multipart,
    requests i = .upload session partnerId multipart ∧ ns = ⟨session.bureauId, partnerId⟩ ∧
      multipart.original? = some content

/-- What all requests together have made of the rows. -/
structure Converged (store : Store) (requests : ι → Request)
    (s : Sys ι (World ι) Op Op.Ans Answer) : Prop where
  oneMaterial : (s.world.db.materials.map fun m ↦ (m.partnerId, m.sha256)).Nodup
  oneJob : ∀ m ∈ s.world.db.materials, ∃ job, job.OfMaterial m ∧
    (s.world.db.jobs.filter fun job ↦ job.materialId = m.id) = [job]
  oneInsert : ∀ m ∈ s.world.db.materials, ∃! i, s.world.Inserts i m.id
  created : ∀ m ∈ s.world.db.materials, ∀ i, s.world.Inserts i m.id → s.world.unacked i = false →
    ∃ content answer, Uploaded requests s i m.ns content (.material 201 answer) ∧
      store.sha256.hex content = m.sha256 ∧ answer.id = m.id
  found : ∀ i ns content response, Uploaded requests s i ns content response →
    ∃ m ∈ s.world.db.materials, m.ns = ns ∧ m.sha256 = store.sha256.hex content ∧
      ∃ answer, answer.id = m.id ∧
        ((response = .material 201 answer ∧ s.world.Inserts i m.id) ∨
          (response = .material 200 answer ∧ ∀ writes, (i, writes) ∈ s.world.log → writes = []))
  visible : ∀ i message next,
    s.procs i ≠ .call (.report (.publishFailed (.decode message))) next

section Invariant

variable {store : Store}

/-- Who has inserted a committed row is one request. -/
theorem Kept.inserts_unique (hw : Kept store requests w) {j : ι} {id : Uuid}
    (hi : w.Inserts i id) (hj : w.Inserts j id) : i = j := by
  obtain ⟨writes, row, hlog, hmem, hid⟩ := hi
  obtain ⟨writes', row', hlog', hmem', hid'⟩ := hj
  have hentry : ∀ {k : ι} {writes : List Write}, (k, writes) ∈ w.log →
      (k, writes.filterMap Write.material?) ∈ w.materials.log :=
    fun h ↦ List.mem_map_of_mem h
  have hversion : ∀ {row : MaterialRow} {writes : List Write}, .material row none ∈ writes →
      (row, none) ∈ writes.filterMap Write.material? :=
    fun h ↦ List.mem_filterMap.mpr ⟨_, h, rfl⟩
  exact hw.consistent.materials.once _ (hentry hlog) _ (hentry hlog') row row' (hversion hmem)
    (hversion hmem') (hid.trans hid'.symm)

theorem Kept.exists_inserts (hw : Kept store requests w) {m : MaterialRow}
    (hm : m ∈ w.db.materials) : ∃ i, w.Inserts i m.id := by
  obtain ⟨⟨i, writes⟩, hlog, row, hrow, hid⟩ := hw.born m hm
  exact ⟨i, writes, row, hlog, hrow, hid⟩

/-- Committed rows with one identifier are one row. -/
theorem Kept.material_eq (hw : Kept store requests w) {m m' : MaterialRow}
    (hm : m ∈ w.db.materials) (hm' : m' ∈ w.db.materials) (hid : m.id = m'.id) : m = m' :=
  List.inj_on_of_nodup_map hw.consistent.materials.nodup hm hm' hid

theorem Kept.oneMaterial (hw : Kept store requests w) :
    (w.db.materials.map fun m ↦ (m.partnerId, m.sha256)).Nodup := by
  apply Table.nodup_map_of_ids hw.consistent.materials.nodup
  intro m hm m' hm' hkey
  obtain ⟨i, -⟩ := hw.exists_inserts hm
  exact hw.consistent.materials.unique m m' ⟨i, Or.inl hm⟩ ⟨i, Or.inl hm'⟩ hkey

theorem Kept.oneJob (hw : Kept store requests w) {m : MaterialRow} (hm : m ∈ w.db.materials) :
    ∃ job, job.OfMaterial m ∧ (w.db.jobs.filter fun job ↦ job.materialId = m.id) = [job] := by
  obtain ⟨i, -⟩ := hw.exists_inserts hm
  obtain ⟨job, hjob, hof⟩ := hw.queued m hm
  refine ⟨job, hof, Table.filter_eq_singleton hw.consistent.jobs.nodup hjob ?_ ?_⟩
  · exact decide_eq_true hof.2.2.symm
  · intro other hother hid
    have hid' : other.materialId = m.id := of_decide_eq_true hid
    -- another job of this material would refer to the same row, in the same bureau
    obtain ⟨m', hm', hof'⟩ := hw.consistent.jobMaterial.rows other hother
    have hsame : m' = m := hw.material_eq hm' hm (hof'.2.2.trans hid')
    subst hsame
    apply hw.consistent.jobs.unique other job ⟨i, Or.inl hother⟩ ⟨i, Or.inl hjob⟩
    have hbureau : other.bureauId = job.bureauId := hof'.1.symm.trans hof.1
    have hkey : other.idempotencyKey = job.idempotencyKey := by
      rw [hw.jobKeys other ⟨i, Or.inl hother⟩, hw.jobKeys job ⟨i, Or.inl hjob⟩, hid', hof.2.2]
    exact congrArg₂ Prod.mk hbureau hkey

/-- The row that an upload tells of. -/
theorem HasRow.exists_row {bureauId partnerId id : Uuid} {sha256 : Text}
    (h : HasRow bureauId partnerId sha256 id w) :
    ∃ m ∈ w.db.materials, m.id = id ∧ m.ns = ⟨bureauId, partnerId⟩ ∧ m.sha256 = sha256 := by
  obtain ⟨m, hm, hid, hdigest⟩ := h
  simp only [Sql.hasDigest, Sql.isMaterialOf, Bool.and_eq_true, decide_eq_true_eq] at hdigest
  exact ⟨m, hm, hid, congrArg₂ ObjectNamespace.mk hdigest.1.1 hdigest.1.2, hdigest.2⟩

end Invariant

variable [Fintype ι] [DecidableEq ι] {s : Sys ι (World ι) Op Op.Ans Answer}

/-- The upload that has inserted a row has answered 201. -/
theorem Serves.created (hs : Serves state requests s) {m : MaterialRow}
    (hm : m ∈ s.world.db.materials) (hinserts : s.world.Inserts i m.id)
    (hacked : s.world.unacked i = false) :
    ∃ content answer, Uploaded requests s i m.ns content (.material 201 answer) ∧
      state.store.sha256.hex content = m.sha256 ∧ answer.id = m.id := by
  obtain ⟨writes, row, hlog, hrow, hid⟩ := hinserts
  have hbusy : ¬ s.world.Busy i := fun h ↦ h hacked writes hlog row hrow
  cases hproc : s.procs i with
  | call op next => exact absurd (hs.busy hproc) hbusy
  | done a =>
      have hfinished := hs.post hproc
      obtain ⟨session, partnerId, multipart, answer, hrequest, rfl⟩ :=
        hfinished.busy.resolve_left hbusy
      obtain ⟨content, found, hcontent, ⟨heq, hrecorded⟩ | ⟨heq, -⟩⟩ :=
        hfinished.upload session partnerId multipart _ hrequest rfl
      · cases heq
        obtain ⟨hhas, published, hpublished, -, honly⟩ := hrecorded
        have hid' : answer.id = m.id := by
          rcases hpublished.log writes hlog with rfl | rfl
          · cases hrow
          · rw [← honly row hrow, hid]
        obtain ⟨m', hm', hid'', hns, hsha⟩ := hhas.exists_row
        have hsame : m' = m := hs.inv.material_eq hm' hm (hid''.trans hid')
        subst hsame
        exact ⟨content, answer, ⟨hproc, session, partnerId, multipart, hrequest, hns, hcontent⟩,
          hsha.symm, hid'⟩
      · cases heq

/-- An upload that answers tells of the row of its content. -/
theorem Serves.found (hs : Serves state requests s) {ns : ObjectNamespace} {content : Bytes}
    {response : Response} (huploaded : Uploaded requests s i ns content response) :
    ∃ m ∈ s.world.db.materials, m.ns = ns ∧ m.sha256 = state.store.sha256.hex content ∧
      ∃ answer, answer.id = m.id ∧
        ((response = .material 201 answer ∧ s.world.Inserts i m.id) ∨
          (response = .material 200 answer ∧
            ∀ writes, (i, writes) ∈ s.world.log → writes = [])) := by
  obtain ⟨hproc, session, partnerId, multipart, hrequest, rfl, hcontent⟩ := huploaded
  obtain ⟨content', answer, hcontent', hends⟩ :=
    (hs.post hproc).upload session partnerId multipart _ hrequest rfl
  rw [hcontent, Option.some.injEq] at hcontent'
  subst hcontent'
  rcases hends with ⟨rfl, hhas, writes, hpublished, ⟨row, hrow⟩, honly⟩ | ⟨rfl, hhas, hpublished⟩
  · obtain ⟨m, hm, hid, hns, hsha⟩ := hhas.exists_row
    refine ⟨m, hm, hns, hsha, answer, hid.symm, Or.inl ⟨rfl, writes, row, hpublished.mem, hrow, ?_⟩⟩
    rw [honly row hrow, hid]
  · obtain ⟨m, hm, hid, hns, hsha⟩ := hhas.exists_row
    exact ⟨m, hm, hns, hsha, answer, hid.symm,
      Or.inr ⟨rfl, fun other hother ↦ (hpublished.log other hother).elim id id⟩⟩

/-- No request is about to report that a row has vanished. -/
theorem Serves.visible (hs : Serves state requests s) (i : ι) (message : String)
    (next : Op.Ans (.report (.publishFailed (.decode message))) → Prog Answer) :
    s.procs i ≠ .call (.report (.publishFailed (.decode message))) next := by
  intro hproc
  have hsafe := hs.safe i
  rw [hproc] at hsafe
  obtain ⟨-, hstep⟩ := hsafe s.world (World.Rely.refl _ _ _) hs.inv
  obtain ⟨hkeeps, -⟩ := hstep (.granted default 0) () _ rfl
  exact hkeeps.inv.visible i message List.mem_cons_self

theorem Serves.converged (hs : Serves state requests s) :
    Converged state.store requests s where
  oneMaterial := hs.inv.oneMaterial
  oneJob _ hm := hs.inv.oneJob hm
  oneInsert m hm := by
    obtain ⟨i, hi⟩ := hs.inv.exists_inserts hm
    exact ⟨i, hi, fun j hj ↦ hs.inv.inserts_unique hj hi⟩
  created _ hm _ hinserts hacked := hs.created hm hinserts hacked
  found _ _ _ _ huploaded := hs.found huploaded
  visible := hs.visible

/-- Uploads converge, in every state of every run. -/
theorem uploads_converge (hw : w.Fresh) {events : List (SysEvent ι Choice)}
    (hrun : Run.run (Server.step ι) (serving state requests w) events = some s) :
    Converged state.store requests s :=
  (serves_of_run hw.serves hrun).1.converged

theorem uploads_converge_two :
    ∃ s, Run.run (Server.step (Fin 3)) Sample.system Sample.events = some s ∧
      Converged Sample.state.store Sample.requests s := by
  obtain ⟨s, hrun⟩ := Option.isSome_iff_exists.mp
    (show (Run.run (Server.step (Fin 3)) Sample.system Sample.events).isSome = true by
      decide +kernel)
  exact ⟨s, hrun, uploads_converge Sample.fresh hrun⟩

end Otdel
