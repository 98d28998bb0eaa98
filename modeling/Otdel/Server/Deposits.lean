import Otdel.Server.Handlers

/-!
# What the requests leave behind

An upload places one object and inserts one row, which carries the key of the
object.  No other request does either.
-/

namespace Otdel

open Program

/-- A namespace with a digest. -/
abbrev ObjectName := ObjectNamespace × Text

/-- The object of an upload. -/
def Request.object? (store : Store) : Request → Option ObjectName
  | .upload session partnerId multipart => multipart.original?.map fun content ↦
      (⟨session.bureauId, partnerId⟩, store.sha256.hex content)
  | _ => none

/-- The object that a row describes. -/
def MaterialRow.object (row : MaterialRow) : ObjectName := (row.ns, row.sha256)

/-- The row carries the key that its namespace and digest lead to. -/
def MaterialRow.Filed (uuid : UuidCrate) (row : MaterialRow) : Prop :=
  ∃ key, row.ns.keyForDigest uuid row.sha256 = .ok key ∧ row.storageKey = key.raw

/-- The operation places no other object, and inserts no row of another. -/
def Op.Deposits (store : Store) (object? : Option ObjectName) : Op → Prop
  | .rename _ path => ∃ object ∈ object?, path = store.place object.1 object.2
  | .sql (.materialsInsert bureauId new) => ∀ id now,
      (Sql.newMaterialRow bureauId new id now).object ∈ object? ∧
        (Sql.newMaterialRow bureauId new id now).Filed store.uuid
  | _ => True

variable {state : AppState} {store : Store} {object? : Option ObjectName}

theorem MaterialRow.Filed.congr {uuid : UuidCrate} {row row' : MaterialRow}
    (h : row.Filed uuid) (hcore : row'.core = row.core) : row'.Filed uuid := by
  obtain ⟨-, hbureau, hpartner, -, -, -, hsha, hkey, -⟩ := MaterialRow.core_eq_iff.mp hcore
  unfold Filed MaterialRow.ns
  rw [hbureau, hpartner, hsha, hkey]
  exact h

theorem MaterialRow.object_congr {row row' : MaterialRow} (hcore : row'.core = row.core) :
    row'.object = row.object := by
  obtain ⟨-, hbureau, hpartner, -, -, -, hsha, -⟩ := MaterialRow.core_eq_iff.mp hcore
  rw [object, object, MaterialRow.ns, MaterialRow.ns, hbureau, hpartner, hsha]

/-- A row of a filed object carries the key of the object. -/
theorem MaterialRow.Filed.storageKey_eq {uuid : UuidCrate} {row : MaterialRow}
    (h : row.Filed uuid) : row.storageKey = row.ns.keyText uuid row.sha256 := by
  obtain ⟨key, hkey, heq⟩ := h
  rw [heq, raw_of_keyForDigest hkey]

section Uploads

variable {session : Session} {partnerId materialId : Uuid}

/-- The row of a received file is filed under the file's own key. -/
theorem deposits_newMaterial {ns : ObjectNamespace} {field : Field}
    {received : ReceivedFile state.store.uuid} (hreceived : received.IsOf ns field)
    (hns : ns = ⟨session.bureauId, partnerId⟩) {new : NewMaterial}
    (hnew : Routes.newMaterial state partnerId received = .ok new) :
    Op.Deposits state.store (some (ns, state.store.sha256.hex field.chunks.flatten))
      (.sql (.materialsInsert session.bureauId new)) := by
  obtain ⟨hsha, -, hkey⟩ := hreceived.stored
  unfold Routes.newMaterial at hnew
  split at hnew <;> cases hnew
  intro id now
  subst hns
  rw [hsha] at hkey
  refine ⟨?_, received.stored.key, ?_, rfl⟩
  · simp [MaterialRow.object, Sql.newMaterialRow, MaterialRow.ns, hsha]
  · simp only [Sql.newMaterialRow, MaterialRow.ns, hsha]
    exact hkey

end Uploads

/-- The object of an upload is that of its file part. -/
theorem Request.object?_upload {session : Session} {partnerId : Uuid} {multipart : Multipart}
    {field : Field} (hfield : Upload.filePart? multipart.fields = some field) :
    (Request.upload session partnerId multipart).object? store =
      some (⟨session.bureauId, partnerId⟩, store.sha256.hex field.chunks.flatten) := by
  rw [Upload.filePart?] at hfield
  rw [Request.object?, Multipart.original?, hfield]
  rfl

theorem Request.Runs.deposits {request : Request} {s : Sql} (h : request.Runs state s) :
    (Op.sql s).Deposits state.store (request.object? state.store) := by
  cases h with
  | record hnew h =>
      obtain ⟨field, received, hfield, hof, hnew⟩ := hnew
      cases h with
      | insert =>
          rw [Request.object?_upload hfield]
          exact deposits_newMaterial hof rfl hnew
      | find => trivial
  | enqueue h => cases h <;> trivial
  | requeueJob h =>
      cases h with
      | again => trivial
      | enqueue h => cases h <;> trivial
  | @worker bureauId changes change h => cases change <;> trivial
  | _ => trivial

theorem Request.Touches.deposits {request : Request} {op : Op} (h : request.Touches state op) :
    op.Deposits state.store (request.object? state.store) := by
  cases h with
  | intake h =>
      cases op with
      | begin | sql | commit | rollback => exact h.elim
      | rename name path =>
          obtain ⟨field, hfield, rfl⟩ := h
          exact ⟨_, Request.object?_upload hfield, rfl⟩
      | _ => trivial
  | stat | openFile => trivial
  | maintenance h => cases h <;> trivial

theorem Request.deposits (request : Request) :
    (request.program state).Calls (Op.Deposits state.store (request.object? state.store)) := by
  apply request.calls_program.mono
  intro op hop
  cases hop with
  | begin | commit | rollback => trivial
  | sql h => exact h.deposits
  | file h => exact h.deposits

/-! ## What a step changes -/

variable {ι : Type}

/-- Objects and rows stay, and the new ones are of these objects. -/
structure World.Meanwhile (store : Store) (brought : Set ObjectName) (w w' : World ι) : Prop where
  present : ∀ path, (w.objects path).isSome = true → (w'.objects path).isSome = true
  placed : ∀ path, (w'.objects path).isSome = true → (w.objects path).isSome = true ∨
    ∃ object ∈ brought, path = store.place object.1 object.2
  rows : ∀ row ∈ w.db.materials, ∃ row' ∈ w'.db.materials, row'.core = row.core
  inserted : ∀ row ∈ w'.db.materials, (∃ old ∈ w.db.materials, row.core = old.core) ∨
    (row.object ∈ brought ∧ row.Filed store.uuid)

namespace World.Meanwhile

variable {brought brought' : Set ObjectName} {w w₁ w' : World ι}

theorem refl (w : World ι) : Meanwhile store brought w w where
  present _ h := h
  placed _ h := Or.inl h
  rows row hrow := ⟨row, hrow, rfl⟩
  inserted row hrow := Or.inl ⟨row, hrow, rfl⟩

theorem trans (h : Meanwhile store brought w w₁) (h' : Meanwhile store brought w₁ w') :
    Meanwhile store brought w w' where
  present path hpath := h'.present path (h.present path hpath)
  placed path hpath := by
    rcases h'.placed path hpath with hpath | hnew
    · exact h.placed path hpath
    · exact Or.inr hnew
  rows row hrow := by
    obtain ⟨row₁, hrow₁, hcore⟩ := h.rows row hrow
    obtain ⟨row', hrow', hcore'⟩ := h'.rows row₁ hrow₁
    exact ⟨row', hrow', hcore'.trans hcore⟩
  inserted row hrow := by
    rcases h'.inserted row hrow with ⟨row₁, hrow₁, hcore⟩ | hnew
    · rcases h.inserted row₁ hrow₁ with ⟨old, hold, hcore'⟩ | ⟨hobject, hfiled⟩
      · exact Or.inl ⟨old, hold, hcore.trans hcore'⟩
      · rw [← MaterialRow.object_congr hcore] at hobject
        exact Or.inr ⟨hobject, hfiled.congr hcore⟩
    · exact Or.inr hnew

theorem mono (h : Meanwhile store brought w w') (hsub : brought ⊆ brought') :
    Meanwhile store brought' w w' where
  present := h.present
  placed path hpath := (h.placed path hpath).imp_right
    fun ⟨object, hobject, heq⟩ ↦ ⟨object, hsub hobject, heq⟩
  rows := h.rows
  inserted row hrow := (h.inserted row hrow).imp_right
    fun ⟨hobject, hfiled⟩ ↦ ⟨hsub hobject, hfiled⟩

end World.Meanwhile

/-- The schema's constraints hold, and a request is about to insert only the row
of its own object. -/
structure World.Deposited (store : Store) (requests : ι → Request) (w : World ι) : Prop where
  consistent : w.Consistent
  pending : ∀ i row, .material row none ∈ w.pending i →
    row.object ∈ (requests i).object? store ∧ row.Filed store.uuid

/-- The object of a request. -/
def Request.objects (store : Store) (request : Request) : Set ObjectName :=
  {object | object ∈ request.object? store}

section Steps

variable [DecidableEq ι] {requests : ι → Request} {w w' : World ι} {i : ι}

/-- What a statement or an end of a transaction does to the committed rows. -/
theorem World.Deposited.rows_step (hw : w.Deposited store requests) {op : Option Op}
    (h : DbStep i op w w') :
    (∀ row ∈ w.db.materials, ∃ row' ∈ w'.db.materials, row'.core = row.core) ∧
      ∀ row ∈ w'.db.materials, (∃ old ∈ w.db.materials, row.core = old.core) ∨
        (row.object ∈ (requests i).objects store ∧ row.Filed store.uuid) := by
  refine ⟨(hw.consistent.grows_rows h).2.1, fun row hrow ↦ ?_⟩
  cases h with
  | same hdb | ended hdb | began _ _ _ hdb | wrote _ _ _ _ _ _ _ _ _ hdb =>
      rw [hdb] at hrow
      exact Or.inl ⟨row, hrow, rfl⟩
  | committed tx _ hopen hdb =>
      rw [hdb, ← World.pending_eq_of_tx hopen] at hrow
      rcases World.visible_material hrow with hrow | ⟨v, hv, rfl⟩
      · exact Or.inl ⟨row, hrow, rfl⟩
      · rcases hw.consistent.materials.origin i v hv with ⟨old, hold, hcore⟩ | ⟨new, hnew, hcore⟩
        · exact Or.inl ⟨old, hold, hcore.symm⟩
        · obtain ⟨hobject, hfiled⟩ := hw.pending i new (World.mem_materials_pending.mp hnew)
          rw [← MaterialRow.object_congr hcore.symm] at hobject
          exact Or.inr ⟨hobject, hfiled.congr hcore.symm⟩

theorem World.Deposited.abandon (hw : w.Deposited store requests) :
    (w.abandon i).Deposited store requests ∧
      w.Meanwhile store ((requests i).objects store) (w.abandon i) := by
  have hdb := World.abandon_dbStep i w
  obtain ⟨hrows, hinserted⟩ := hw.rows_step hdb
  have hfiles := World.filesKept_abandon i w
  refine ⟨⟨hw.consistent.step hdb, fun j row hrow ↦ ?_⟩, ?_, ?_, hrows, hinserted⟩
  · by_cases hj : j = i
    · subst hj
      rcases pending_insert_step hdb hrow with hrow | ⟨_, _, _, _, hop, -⟩
      · exact hw.pending j row hrow
      · cases hop
    · rw [World.pending_congr (World.frame_abandon hj w).tx] at hrow
      exact hw.pending j row hrow
  · exact fun path hpath ↦ by rwa [hfiles.objects]
  · exact fun path hpath ↦ Or.inl (by rwa [hfiles.objects] at hpath)

variable [Fintype ι] {op : Op} {choice : Choice} {a : op.Ans}

/-- Only a rename changes the objects. -/
theorem World.objects_perform (h : w.perform i op choice = some (a, w')) :
    w'.objects = w.objects ∨ ∃ name path content, op = .rename name path ∧
      w'.objects = Function.update w.objects path (some content) := by
  by_cases hkeeps : op.keepsFiles = true
  · exact Or.inl (World.filesKept_perform hkeeps h).objects
  · cases choice with
    | failed outage => exact Or.inl (World.filesKept_refuse h).objects
    | granted id now =>
        cases op with
        | rename name path =>
            simp only [World.perform, World.grant] at h
            split at h
            · rename_i content _
              cases h
              exact Or.inr ⟨name, path, content, rfl, rfl⟩
            · cases h
              exact Or.inl rfl
        | armStaging | createStaging =>
            simp only [World.perform, World.grant] at h
            split at h <;> cases h <;> exact Or.inl rfl
        | write =>
            cases h
            exact Or.inl rfl
        | _ => exact absurd rfl hkeeps
    | lost | listed =>
        cases op <;> first | exact absurd rfl hkeeps | cases h

theorem World.Deposited.perform (hw : w.Deposited store requests)
    (hop : op.Deposits store ((requests i).object? store))
    (h : w.perform i op choice = some (a, w')) :
    w'.Deposited store requests ∧ w.Meanwhile store ((requests i).objects store) w' := by
  have hdb := World.perform_dbStep h
  obtain ⟨hrows, hinserted⟩ := hw.rows_step hdb
  refine ⟨⟨hw.consistent.step hdb, fun j row hrow ↦ ?_⟩, ?_, ?_, hrows, hinserted⟩
  · by_cases hj : j = i
    · subst hj
      rcases pending_insert_step hdb hrow with hrow | ⟨bureauId, new, id, now, heq, rfl⟩
      · exact hw.pending j row hrow
      · cases heq
        exact hop id now
    · rw [World.pending_congr (World.frame_perform hj h).tx] at hrow
      exact hw.pending j row hrow
  · intro path hpath
    rcases World.objects_perform h with hsame | ⟨_, target, content, -, heq⟩
    · rwa [hsame]
    · rw [heq]
      by_cases hpath' : path = target
      · subst hpath'
        simp
      · rwa [Function.update_of_ne hpath']
  · intro path hpath
    rcases World.objects_perform h with hsame | ⟨name, target, content, rfl, heq⟩
    · exact Or.inl (by rwa [hsame] at hpath)
    · by_cases hpath' : path = target
      · subst hpath'
        exact Or.inr hop
      · rw [heq, Function.update_of_ne hpath'] at hpath
        exact Or.inl hpath

/-- Every request keeps to its own object. -/
structure Depositing (store : Store) (requests : ι → Request)
    (s : Sys ι (World ι) Op Op.Ans Answer) : Prop where
  calls : ∀ j, (s.procs j).Calls (Op.Deposits store ((requests j).object? store))
  world : s.world.Deposited store requests

theorem Depositing.step {s s' : Sys ι (World ι) Op Op.Ans Answer} {e : SysEvent ι Choice}
    (hs : Depositing store requests s) (hstep : Server.step ι s e = some s') :
    Depositing store requests s' ∧
      s.world.Meanwhile store ((requests e.actor).objects store) s'.world := by
  have hcalls := Machine.calls_of_step hs.calls hstep
  cases e with
  | act i c =>
      simp only [Server.step, Machine.step] at hstep
      split at hstep
      · cases hstep
      · rename_i op next hproc
        obtain ⟨⟨a, w⟩, hop, rfl⟩ := Option.map_eq_some_iff.mp hstep
        have hcall := hs.calls i
        rw [hproc] at hcall
        obtain ⟨hworld, hmeanwhile⟩ := hs.world.perform hcall.1 hop
        exact ⟨⟨hcalls, hworld⟩, hmeanwhile⟩
  | abandon i underWay =>
      obtain ⟨hworld, hmeanwhile⟩ := hs.world.abandon (i := i)
      simp only [Server.step, Machine.step] at hstep
      split at hstep
      · cases hstep
      · split at hstep
        · split at hstep <;> cases hstep
          exact ⟨⟨hcalls, hworld⟩, hmeanwhile⟩
        · cases hstep
          exact ⟨⟨hcalls, hworld⟩, hmeanwhile⟩

theorem Depositing.of_run {s s' : Sys ι (World ι) Op Op.Ans Answer}
    {events : List (SysEvent ι Choice)} (hs : Depositing store requests s)
    (hrun : Run.run (Server.step ι) s events = some s') : Depositing store requests s' := by
  induction events generalizing s with
  | nil =>
      cases hrun
      exact hs
  | cons e events ih =>
      obtain ⟨s₁, hstep, hrest⟩ := Run.run_eq_some_cons.mp hrun
      exact ih (hs.step hstep).1 hrest

theorem Depositing.meanwhile {s s' : Sys ι (World ι) Op Op.Ans Answer}
    {events : List (SysEvent ι Choice)} (hs : Depositing store requests s)
    (hrun : Run.run (Server.step ι) s events = some s') :
    s.world.Meanwhile store Set.univ s'.world := by
  induction events generalizing s with
  | nil =>
      cases hrun
      exact .refl _
  | cons e events ih =>
      obtain ⟨s₁, hstep, hrest⟩ := Run.run_eq_some_cons.mp hrun
      obtain ⟨hs₁, hmeanwhile⟩ := hs.step hstep
      exact (hmeanwhile.mono (Set.subset_univ _)).trans (ih hs₁ hrest)

/-- What every step of a run brings is of a request that takes a step. -/
theorem Depositing.along {s : Sys ι (World ι) Op Op.Ans Answer} {brought : Set ObjectName}
    {events : List (SysEvent ι Choice)} (hs : Depositing store requests s)
    (hbrought : ∀ e ∈ events, (requests e.actor).objects store ⊆ brought) :
    Run.Along (Server.step ι) (fun s _ s' ↦ s.world.Meanwhile store brought s'.world) s
      events := by
  induction events generalizing s with
  | nil => trivial
  | cons e events ih =>
      intro s₁ hstep
      obtain ⟨hs₁, hmeanwhile⟩ := hs.step hstep
      exact ⟨hmeanwhile.mono (hbrought e List.mem_cons_self),
        ih hs₁ fun f hf ↦ hbrought f (List.mem_cons_of_mem _ hf)⟩

end Steps

/-! ## The start -/

/-- A database between transactions, with rows that are filed under their
objects. -/
structure World.Settled (store : Store) (w : World ι) : Prop where
  consistent : w.Consistent
  tx : ∀ i, w.tx i = none
  filed : ∀ row ∈ w.db.materials, row.Filed store.uuid

theorem World.Settled.depositing {w : World ι} (hw : w.Settled state.store)
    (requests : ι → Request) : Depositing state.store requests (serving state requests w) where
  calls j := (requests j).deposits
  world := ⟨hw.consistent, fun i row hrow ↦
    absurd hrow (by simp [serving, World.pending, hw.tx i])⟩

end Otdel
