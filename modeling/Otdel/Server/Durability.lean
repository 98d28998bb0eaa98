import Otdel.Library.Disk
import Otdel.Server.Accepted
import Otdel.Server.Handlers

/-!
# Originals after a crash

The server on a disk that may crash.  A file is synced before it is published
and its directory after that; the directories that lead there are created on the
way, and no directory that holds one of them is ever synced.
-/

namespace Otdel

open Program

/-- The file system below the storage root. -/
abbrev Files := Disk Text UInt8

/-- `<root>/staging/<uuid>.part`, next to the objects. -/
def Store.stagingPath (store : Store) (name : Uuid) : Path :=
  store.objectsRoot.dropLast ++ ["staging".toList, store.uuid.display name ++ ".part".toList]

/-- A store that has just been opened: its two directories, and those above
them. -/
def Store.openedFiles (store : Store) : Files where
  entries path :=
    if path <+: store.objectsRoot ∨ path <+: store.objectsRoot.dropLast ++ ["staging".toList] then
      some .dir
    else none
  synced path :=
    if path <+: store.objectsRoot ∨ path <+: store.objectsRoot.dropLast ++ ["staging".toList] then
      some .dir
    else none
  content _ := []
  syncedContent _ := []
  next := 0

variable {ι : Type}

/-- The staging file of the guard goes. -/
def World.unlinkGuarded (w : World ι) (store : Store) (i : ι) (d : Files) : Files :=
  match w.guard i with
  | some name => d.remove (store.stagingPath name)
  | none => d

/-- What an operation that has answered has done to the files. -/
def World.onDisk (w : World ι) (store : Store) (i : ι) : (op : Op) → op.Ans → Files → Files
  | .createStaging name, .ok (), d => d.create (store.stagingPath name)
  | .write name chunk, .ok (), d => d.append (store.stagingPath name) chunk
  | .syncAll name, .ok (), d => d.syncFile (store.stagingPath name)
  | .createDirAll path, .ok (), d => d.makeDirs path
  | .rename name path, .ok (), d => d.rename (store.stagingPath name) path
  | .syncDir path, (), d => d.syncDir path
  | .dropGuard, (), d => w.unlinkGuarded store i d
  | .removeStaging name, .ok (), d => d.remove (store.stagingPath name)
  | _, _, d => d

variable [Fintype ι] [DecidableEq ι]

/-- The server and its disk.  The fsync of a directory may fail, and the request
goes on. -/
def diskServer (ι : Type) [Fintype ι] [DecidableEq ι] (store : Store) :
    Machine ι (World ι × Files) Op Op.Ans Choice where
  perform i op choice s :=
    match op, choice with
    | .syncDir _, .failed _ => some ((), s)
    | op, choice => (s.1.perform i op choice).map fun r ↦
        (r.1, r.2, s.1.onDisk store i op r.1 s.2)
  abandon i s := (s.1.abandon i, s.1.unlinkGuarded store i s.2)
  detached := Op.detached

/-- All requests, before their first step. -/
def servingOnDisk (state : AppState) (requests : ι → Request) (w : World ι) (d : Files) :
    Sys ι (World ι × Files) Op Op.Ans Answer where
  procs i := (requests i).program state
  world := (w, d)

/-- Nothing below the objects root is sure to survive. -/
def Store.RootOnly (store : Store) (d : Files) : Prop :=
  ∀ names, d.synced (store.objectsRoot ++ names) ≠ none → names = []

/-- After every crash, every committed row leads from the objects root to the
bytes that were uploaded. -/
def Durable (store : Store) (requests : ι → Request) (s : World ι × Files) : Prop :=
  ∀ after, s.2.Crash after → ∀ m ∈ s.1.db.materials, ∃ key : ObjectKey store.uuid, ∃ content,
    key.raw = m.storageKey ∧
      after.read store.objectsRoot (key.raw.splitOn '/') = some content ∧
        Uploads requests m.ns content ∧ m.sha256 = store.sha256.hex content

/-! ## What is never synced -/

section Calls

/-- No fsync of the objects root. -/
def Op.LeavesRoot (store : Store) : Op → Prop
  | .syncDir path => path ≠ store.objectsRoot
  | _ => True

variable {state : AppState} {store : Store}

/-- The directory of an object is not the root. -/
theorem Op.OfIntake.leavesRoot {places : Set Path} {op : Op} (h : op.OfIntake store places) :
    op.LeavesRoot store := by
  cases op with
  | syncDir path =>
      obtain ⟨key, rfl⟩ := h
      intro heq
      obtain ⟨bureau, partner, digest, u, v, hu, hv, hdigest, hraw⟩ :=
        ObjectKey.check_eq_ok_iff.mp key.checked
      rw [hraw, ObjectKey.splitOn_path hu.slash_notMem hv.slash_notMem hdigest.slash_notMem] at heq
      have hlength := congrArg List.length heq
      simp at hlength
  | _ => trivial

theorem Request.leavesRoot (request : Request) :
    (request.program state).Calls (Op.LeavesRoot state.store) := by
  apply request.calls_program.mono
  intro op hop
  cases hop with
  | begin | commit | rollback | sql => trivial
  | file h =>
      cases h with
      | intake h => exact h.leavesRoot
      | stat | openFile => trivial
      | maintenance h => cases h <;> trivial

end Calls

/-! ## Runs -/

section Runs

variable {state : AppState} {store : Store} {requests : ι → Request} {w : World ι} {d : Files}
  {i : ι} {events : List (SysEvent ι Choice)} {s : Sys ι (World ι × Files) Op Op.Ans Answer}

/-- The objects root has no entry that is sure to survive. -/
def RootUnsynced (store : Store) (d : Files) : Prop :=
  ∀ name, d.synced (store.objectsRoot ++ [name]) = none

omit [Fintype ι] [DecidableEq ι] in
theorem synced_unlinkGuarded (w : World ι) (d : Files) :
    (w.unlinkGuarded store i d).synced = d.synced := by
  unfold World.unlinkGuarded
  split <;> rfl

omit [Fintype ι] [DecidableEq ι] in
theorem rootUnsynced_onDisk {op : Op} (hop : op.LeavesRoot store) (h : RootUnsynced store d)
    (w : World ι) (a : op.Ans) : RootUnsynced store (w.onDisk store i op a d) := by
  intro name
  rw [← h name]
  cases op with
  | syncDir path => exact Disk.synced_syncDir_of_ne hop name d
  | dropGuard => exact congrFun (synced_unlinkGuarded w d) _
  | createStaging | write | syncAll | createDirAll | rename | removeStaging =>
      cases a <;> simp [World.onDisk]
  | _ => rfl

theorem rootUnsynced_perform {op : Op} (hop : op.LeavesRoot store) {choice : Choice} {a : op.Ans}
    {t t' : World ι × Files} (h : RootUnsynced store t.2)
    (hperform : (diskServer ι store).perform i op choice t = some (a, t')) :
    RootUnsynced store t'.2 := by
  simp only [diskServer] at hperform
  split at hperform
  · cases hperform
    exact h
  · obtain ⟨r, -, heq⟩ := Option.map_eq_some_iff.mp hperform
    cases heq
    exact rootUnsynced_onDisk hop h _ _

theorem rootUnsynced_run (hd : RootUnsynced state.store d)
    (hrun : Run.run ((diskServer ι state.store).step .dropped)
      (servingOnDisk state requests w d) events = some s) :
    RootUnsynced state.store s.world.2 := by
  have habandon : ∀ (i : ι) (t : World ι × Files), RootUnsynced state.store t.2 →
      RootUnsynced state.store ((diskServer ι state.store).abandon i t).2 := by
    intro i t h name
    rw [← h name]
    exact congrFun (synced_unlinkGuarded t.1 t.2) _
  exact Machine.invariant_of_run (fun i ↦ (requests i).leavesRoot)
    (fun _ _ _ _ _ _ hop h hperform ↦ rootUnsynced_perform hop h hperform) habandon hrun hd

omit [Fintype ι] [DecidableEq ι] in
theorem Store.RootOnly.rootUnsynced (h : store.RootOnly d) : RootUnsynced store d := by
  intro name
  by_contra hname
  cases h [name] hname

omit [Fintype ι] [DecidableEq ι] in
/-- The crash that keeps what was synced loses every original. -/
theorem not_durable_of_mem {t : World ι × Files} (ht : RootUnsynced store t.2) {m : MaterialRow}
    (hm : m ∈ t.1.db.materials) : ¬ Durable store requests t := by
  intro hdurable
  obtain ⟨key, content, -, hread, -⟩ := hdurable t.2.forget t.2.crash_forget m hm
  cases hsplit : key.raw.splitOn '/' with
  | nil => exact List.splitOn_ne_nil _ _ hsplit
  | cons name rest =>
      rw [hsplit, Disk.read_forget_eq_none (ht name)] at hread
      cases hread

/-- What has been recorded survives every crash exactly as long as nothing has
been recorded. -/
theorem originals_durable_iff (hroot : state.store.RootOnly d)
    (hrun : Run.run ((diskServer ι state.store).step .dropped)
      (servingOnDisk state requests w d) events = some s) :
    Durable state.store requests s.world ↔ s.world.1.db.materials = [] := by
  constructor
  · intro hdurable
    by_contra hrows
    obtain ⟨m, hm⟩ := List.exists_mem_of_ne_nil _ hrows
    exact not_durable_of_mem (rootUnsynced_run hroot.rootUnsynced hrun) hm hdurable
  · intro hrows after _ m hm
    rw [hrows] at hm
    cases hm

end Runs

theorem Sample.rootOnly : Sample.state.store.RootOnly Sample.state.store.openedFiles := by
  intro names hnames
  by_contra hne
  apply hnames
  have hlength := List.length_pos_iff.mpr hne
  have hdeep : ∀ path : Path, path.length ≤ 1 → ¬ Sample.state.store.objectsRoot ++ names <+: path := by
    intro path hpath hprefix
    have hle := hprefix.length_le
    rw [List.length_append] at hle
    simp only [Sample.state, List.length_singleton] at hle
    omega
  exact if_neg (not_or.mpr ⟨hdeep _ (by decide), hdeep _ (by decide)⟩)

/-- Two uploads of one file, on a disk. -/
theorem originals_durable_iff_sample : ∃ s,
    Run.run ((diskServer (Fin 3) Sample.state.store).step .dropped)
      (servingOnDisk Sample.state Sample.requests (World.start [Sample.partner])
        Sample.state.store.openedFiles) Sample.events = some s ∧
      (Durable Sample.state.store Sample.requests s.world ↔ s.world.1.db.materials = []) := by
  have hsome : (Run.run ((diskServer (Fin 3) Sample.state.store).step .dropped)
      (servingOnDisk Sample.state Sample.requests (World.start [Sample.partner])
        Sample.state.store.openedFiles) Sample.events).isSome = true := by decide +kernel
  obtain ⟨s, hrun⟩ := Option.isSome_iff_exists.mp hsome
  exact ⟨s, hrun, originals_durable_iff Sample.rootOnly hrun⟩

/-- Both uploads are answered, and a crash loses the file. -/
theorem answered_upload_lost : ∃ s,
    Run.run ((diskServer (Fin 3) Sample.state.store).step .dropped)
      (servingOnDisk Sample.state Sample.requests (World.start [Sample.partner])
        Sample.state.store.openedFiles) Sample.events = some s ∧
      s.world.1.db.materials ≠ [] ∧ ¬ Durable Sample.state.store Sample.requests s.world := by
  have hcount : (Run.run ((diskServer (Fin 3) Sample.state.store).step .dropped)
      (servingOnDisk Sample.state Sample.requests (World.start [Sample.partner])
        Sample.state.store.openedFiles) Sample.events).map
      (fun s ↦ s.world.1.db.materials.length) = some 1 := by decide +kernel
  obtain ⟨s, hrun, hlength⟩ := Option.map_eq_some_iff.mp hcount
  obtain ⟨m, hm⟩ := List.length_eq_one_iff.mp hlength
  have hroot := rootUnsynced_run (Store.RootOnly.rootUnsynced Sample.rootOnly) hrun
  refine ⟨s, hrun, by simp [hm], ?_⟩
  exact not_durable_of_mem hroot (by simp [hm] : m ∈ s.world.1.db.materials)

end Otdel
