import Otdel.Library.Modes
import Otdel.Library.Sequential
import Otdel.Server.Durability

/-!
# The modes of the storage tree

`create_private_dir` makes a whole chain of directories and restricts the last
one, so the others keep what the umask leaves them.
-/

namespace Otdel

open Program

/-- The operations of the store beside those of the server. -/
inductive FsOp where
  | server (op : Op)
  | canonicalize (path : Path)
  /-- `metadata` and `is_dir`. -/
  | isDir (path : Path)
  /-- `Uuid::new_v4` for a probe, whose guard is armed at once. -/
  | armProbe
  | createProbe (name : Uuid)
  | writeProbe (name : Uuid)
  | flushProbe (name : Uuid)
  | removeFile (path : Path)

namespace FsOp

def Ans : FsOp → Type
  | server op => op.Ans
  | canonicalize _ => Except IoError Path
  | isDir _ => Except IoError Bool
  | armProbe => Uuid
  | createProbe _ => Except IoError Unit
  | writeProbe _ => Except IoError Unit
  | flushProbe _ => Except IoError Unit
  | removeFile _ => Except IoError Unit

end FsOp

/-- A program of the server, among those of the store. -/
def embed {α : Type} : Prog α → Program FsOp FsOp.Ans α
  | .done a => .done a
  | .call op next => .call (.server op) fun a ↦ embed (next a)

def fsAwait (op : FsOp) : Program FsOp FsOp.Ans op.Ans := perform op

namespace Store

/-- A function of the store that may fail. -/
abbrev TryStore (α : Type) := Fallible FsOp FsOp.Ans StorageError α

/-- A file system call whose error names the operation. -/
def fsIo {α : Type} (operation : String) (p : Program FsOp FsOp.Ans (Except IoError α)) :
    TryStore α :=
  mapError (StorageError.io operation) (attempt p)

/-- Create and validate the storage tree. -/
def openAt (uuid : UuidCrate) (sha256 : Sha256) (root : Path) : TryStore Store := do
  attempt (embed (createPrivateDir root))
  let root ← fsIo "canonicalize storage root" (fsAwait (.canonicalize root))
  let objectsRoot := root ++ ["objects".toList]
  let stagingRoot := root ++ ["staging".toList]
  attempt (embed (createPrivateDir objectsRoot))
  attempt (embed (createPrivateDir stagingRoot))
  return ⟨uuid, sha256, objectsRoot⟩

variable (store : Store)

def stagingRoot : Path := store.objectsRoot.dropLast ++ ["staging".toList]

/-- `<root>/staging/health-<uuid>.probe` -/
def probePath (name : Uuid) : Path :=
  store.stagingRoot ++ ["health-".toList ++ store.uuid.display name ++ ".probe".toList]

def delete (key : ObjectKey store.uuid) : TryStore Unit := do
  let path ← ofExcept (ObjectKey.resolveWithin store.objectsRoot key.raw)
  match ← lift (fsAwait (.removeFile path)) with
  | .ok () => return ()
  | .error .notFound => return ()
  | .error source => fail (.io "delete object" source)

def checkDirs : List Path → TryStore Unit
  | [] => return ()
  | dir :: rest => do
      let isDir ← fsIo "stat storage directory" (fsAwait (.isDir dir))
      if isDir = false then fail (.unavailable "storage path is not a directory")
      else checkDirs rest

def writeProbe (name : Uuid) : TryStore Unit := do
  fsIo "create staging file" (fsAwait (.createProbe name))
  fsIo "write health probe" (fsAwait (.writeProbe name))
  fsIo "flush health probe" (fsAwait (.flushProbe name))

/-- The guard of the probe goes on every way out. -/
def health : TryStore Unit := do
  checkDirs [store.objectsRoot, store.stagingRoot]
  let name ← lift (fsAwait .armProbe)
  let written ← lift (writeProbe name)
  lift (fsAwait (.server .dropGuard))
  ofExcept written

end Store

/-! ## The tree -/

/-- What the environment decides about an operation; a creation of directories
that fails may have made some of them. -/
inductive FsChoice where
  | granted (id : Uuid)
  | failed (error : IoError) (made : ℕ)
  | sized (len : ℕ)
  | names (names : List Uuid)

/-- The tree, and the file that the guard of the running operation removes. -/
structure Held where
  tree : ModeTree Text
  guard : Option Path

namespace Held

/-- `private_create`: the file must be new and its directory there. -/
def privateCreate (umask : Mode) (path : Path) (s : Held) : Except IoError Unit × Held :=
  match s.tree path, s.tree path.dropLast with
  | none, some (.dir _) => (.ok (), { s with tree := s.tree.create umask 0o600 path })
  | some _, _ => (.error .alreadyExists, s)
  | none, _ => (.error .notFound, s)

def removeFile (path : Path) (s : Held) : Except IoError Unit × Held :=
  match s.tree path with
  | some (.file _) => (.ok (), { s with tree := s.tree.remove path })
  | some (.dir _) => (.error .other, s)
  | none => (.error .notFound, s)

/-- A file in the way of a directory stops the creation before it begins. -/
def createDirAll (umask : Mode) (path : Path) (s : Held) : Except IoError Unit × Held :=
  if path.inits.any fun dir ↦ (s.tree dir).any Node.isFile then (.error .other, s)
  else (.ok (), { s with tree := s.tree.makeDirs umask path })

def setPermissions (path : Path) (mode : Mode) (s : Held) : Except IoError Unit × Held :=
  if s.tree path = none then (.error .notFound, s)
  else (.ok (), { s with tree := s.tree.chmod path mode })

def rename (source target : Path) (s : Held) : Except IoError Unit × Held :=
  match s.tree source, s.tree target with
  | some (.file _), some (.dir _) => (.error .other, s)
  | some (.file _), _ => (.ok (), { s with tree := s.tree.rename source target })
  | _, _ => (.error .notFound, s)

/-- The guard removes its file, and the error of a removal is logged. -/
def dropGuard (removed : Bool) (s : Held) : Held :=
  match s.guard, removed with
  | some path, true => { (s.removeFile path).2 with guard := none }
  | _, _ => { s with guard := none }

end Held

def metadataOf (len : ℕ) : Option Node → Except IoError Metadata
  | some (.file _) => .ok ⟨true, len⟩
  | some (.dir _) => .ok ⟨false, len⟩
  | none => .error .notFound

def isDirOf : Option Node → Except IoError Bool
  | some (.file _) => .ok false
  | some (.dir _) => .ok true
  | none => .error .notFound

/-- The file system, for a process with this umask.  A path without links is its
own canonical form. -/
def Store.perform (store : Store) (umask : Mode) :
    (op : FsOp) → FsChoice → Held → Option (op.Ans × Held)
  | .server .armStaging, .granted name, s =>
      some (name, { s with guard := some (store.stagingPath name) })
  | .server (.createStaging name), .granted _, s =>
      some (s.privateCreate umask (store.stagingPath name))
  | .server (.createStaging _), .failed e _, s => some (.error e, s)
  | .server (.write _ _), .granted _, s => some (.ok (), s)
  | .server (.write _ _), .failed e _, s => some (.error e, s)
  | .server (.flush _), .granted _, s => some (.ok (), s)
  | .server (.flush _), .failed e _, s => some (.error e, s)
  | .server (.syncAll _), .granted _, s => some (.ok (), s)
  | .server (.syncAll _), .failed e _, s => some (.error e, s)
  | .server (.createDirAll path), .granted _, s => some (s.createDirAll umask path)
  | .server (.createDirAll path), .failed e made, s =>
      if made < path.length then some (.error e, (s.createDirAll umask (path.take made)).2)
      else none
  | .server (.setPermissions path mode), .granted _, s =>
      some (s.setPermissions path (BitVec.ofNat 9 mode))
  | .server (.setPermissions _ _), .failed e _, s => some (.error e, s)
  | .server (.stat path), .sized len, s => some (metadataOf len (s.tree path), s)
  | .server (.stat _), .failed e _, s => some (.error e, s)
  | .server (.rename name path), .granted _, s => some (s.rename (store.stagingPath name) path)
  | .server (.rename _ _), .failed e _, s => some (.error e, s)
  | .server (.syncDir _), _, s => some ((), s)
  | .server .dropGuard, .granted _, s => some ((), s.dropGuard true)
  | .server .dropGuard, .failed _ _, s => some ((), s.dropGuard false)
  | .server .disarmGuard, _, s => some ((), { s with guard := none })
  | .server (.readStaging _), .names names, s => some (.ok names, s)
  | .server (.readStaging _), .failed e _, s => some (.error e, s)
  | .server (.removeStaging name), .granted _, s => some (s.removeFile (store.stagingPath name))
  | .server (.removeStaging _), .failed e _, s => some (.error e, s)
  | .canonicalize path, .granted _, s =>
      some (if s.tree path = none then .error .notFound else .ok path, s)
  | .canonicalize _, .failed e _, s => some (.error e, s)
  | .isDir path, .granted _, s => some (isDirOf (s.tree path), s)
  | .isDir _, .failed e _, s => some (.error e, s)
  | .armProbe, .granted name, s => some (name, { s with guard := some (store.probePath name) })
  | .createProbe name, .granted _, s => some (s.privateCreate umask (store.probePath name))
  | .createProbe _, .failed e _, s => some (.error e, s)
  | .writeProbe _, .granted _, s => some (.ok (), s)
  | .writeProbe _, .failed e _, s => some (.error e, s)
  | .flushProbe _, .granted _, s => some (.ok (), s)
  | .flushProbe _, .failed e _, s => some (.error e, s)
  | .removeFile path, .granted _, s => some (s.removeFile path)
  | .removeFile _, .failed e _, s => some (.error e, s)
  | _, _, _ => none

def Store.fileSystem (store : Store) (umask : Mode) :
    Machine Unit Held FsOp FsOp.Ans FsChoice where
  perform _ := store.perform umask
  abandon _ s := s
  detached _ := false

/-! ## Sequences of operations -/

inductive StoreCall (uuid : UuidCrate) where
  | openAt
  | putStream (ns : ObjectNamespace) (body : ByteStream)
  | health
  | delete (key : ObjectKey uuid)
  | sweepStaging (olderThan : ℕ)

/-- The store at a root. -/
def Store.ofRoot (uuid : UuidCrate) (sha256 : Sha256) (root : Path) : Store :=
  ⟨uuid, sha256, root ++ ["objects".toList]⟩

/-- An operation, whatever it answers. -/
def StoreCall.program (uuid : UuidCrate) (sha256 : Sha256) (root : Path) :
    StoreCall uuid → Program FsOp FsOp.Ans Unit
  | openAt => (Store.openAt uuid sha256 root).bind fun _ ↦ .done ()
  | putStream ns body =>
      (embed ((Store.ofRoot uuid sha256 root).putStream ns body)).bind fun _ ↦ .done ()
  | health => (Store.ofRoot uuid sha256 root).health.bind fun _ ↦ .done ()
  | delete key => ((Store.ofRoot uuid sha256 root).delete key).bind fun _ ↦ .done ()
  | sweepStaging olderThan =>
      (embed (Store.sweepStaging olderThan)).bind fun _ ↦ .done ()

/-- One operation from its beginning to its end. -/
def storeStep (uuid : UuidCrate) (sha256 : Sha256) (root : Path) (umask : Mode) (s : Held)
    (e : StoreCall uuid × List FsChoice) : Option Held :=
  (((Store.ofRoot uuid sha256 root).fileSystem umask).play ()
    (e.1.program uuid sha256 root) e.2 s).map Prod.snd

/-- No directory above the one that is restricted has to be made, and no
directory stays unrestricted, unless the umask makes all directories private. -/
def Restricts (umask : Mode) (root : Path) (op : FsOp) (choice : FsChoice) (s : Held) : Prop :=
  ModeTree.Closed umask ∨
    match op, choice with
    | .server (.createDirAll path), _ => s.tree.Complete root path
    | .server (.setPermissions path _), .failed _ _ =>
        ∀ mode, s.tree path = some (.dir mode) → mode = 0o700
    | _, _ => True

/-- A tree that is opened is the one that the other operations run on. -/
theorem succeeds_openAt (uuid : UuidCrate) (sha256 : Sha256) (root : Path) (umask : Mode)
    (s : Held) :
    ((Store.ofRoot uuid sha256 root).fileSystem umask).Succeeds ()
      (fun store _ ↦ store = Store.ofRoot uuid sha256 root)
      (Store.openAt uuid sha256 root) s := by
  have hany {α : Type} (p : Program FsOp FsOp.Ans (Except StorageError α)) (s : Held) :
      ((Store.ofRoot uuid sha256 root).fileSystem umask).Succeeds () (fun _ _ ↦ True) p s :=
    Machine.gives_iff.mpr fun _ _ _ _ _ _ ↦ trivial
  refine .andThen (hany _ s) fun _ s _ ↦ ?_
  have hcanonical : ((Store.ofRoot uuid sha256 root).fileSystem umask).Succeeds ()
      (fun path _ ↦ path = root)
      (Store.fsIo "canonicalize storage root" (fsAwait (.canonicalize root))) s := by
    refine .mapError _ fun choice answer s' hperform path hpath ↦ ?_
    subst hpath
    cases choice with
    | granted id =>
        obtain ⟨heq, -⟩ := Prod.mk.inj (Option.some.inj hperform)
        replace heq : (if s.tree root = none then Except.error IoError.notFound else .ok root) =
          Except.ok path := heq
        split at heq
        · cases heq
        · cases heq
          rfl
    | failed e made => cases hperform
    | sized len => cases hperform
    | names names => cases hperform
  refine hcanonical.andThen fun path s hpath ↦ ?_
  subst hpath
  exact .andThen (hany _ s) fun _ s _ ↦ .andThen (hany _ s) fun _ _ _ ↦ .return rfl

/-! ## What an operation leaves -/

section OwnerOnly

variable {uuid : UuidCrate} {sha256 : Sha256} {root path source target : Path} {umask : Mode}
  {s s' : Held}

namespace Held

theorem ownerOnly_privateCreate (howner : ModeTree.SparesOwner umask)
    (h : s.tree.OwnerOnly root) : (s.privateCreate umask path).2.tree.OwnerOnly root := by
  unfold privateCreate
  split
  · exact h.create howner
  · exact h
  · exact h

theorem ownerOnly_removeFile (h : s.tree.OwnerOnly root) :
    (s.removeFile path).2.tree.OwnerOnly root := by
  unfold removeFile
  split
  · exact h.remove
  · exact h
  · exact h

theorem ownerOnly_rename (hsource : root <+: source) (h : s.tree.OwnerOnly root) :
    (s.rename source target).2.tree.OwnerOnly root := by
  unfold rename
  split
  · exact h
  · exact h.rename hsource
  · exact h

theorem ownerOnly_dropGuard (removed : Bool) (h : s.tree.OwnerOnly root) :
    (s.dropGuard removed).tree.OwnerOnly root := by
  unfold dropGuard
  split
  · exact ownerOnly_removeFile h
  · exact h

end Held

theorem prefix_stagingPath (name : Uuid) :
    root <+: (Store.ofRoot uuid sha256 root).stagingPath name := by
  rw [Store.stagingPath, Store.ofRoot, List.dropLast_concat]
  exact List.prefix_append _ _

/-- Every operation but the two of `create_private_dir`. -/
def FsOp.Simple : FsOp → Prop
  | .server (.createDirAll _) => False
  | .server (.setPermissions _ _) => False
  | _ => True

theorem ownerOnly_of_eq {α : Type} {r : α × Held} {a : α} (heq : some r = some (a, s'))
    (h : r.2.tree.OwnerOnly root) : s'.tree.OwnerOnly root := by
  cases heq
  exact h

/-- A file is created and moved with the mode that only its owner may use. -/
theorem ownerOnly_perform (howner : ModeTree.SparesOwner umask) {op : FsOp} (hop : op.Simple)
    {choice : FsChoice} {a : op.Ans} (h : s.tree.OwnerOnly root)
    (hperform : (Store.ofRoot uuid sha256 root).perform umask op choice s = some (a, s')) :
    s'.tree.OwnerOnly root := by
  unfold Store.perform at hperform
  split at hperform
  all_goals first
    | exact False.elim hop
    | exact ownerOnly_of_eq hperform (Held.ownerOnly_privateCreate howner h)
    | exact ownerOnly_of_eq hperform (Held.ownerOnly_removeFile h)
    | exact ownerOnly_of_eq hperform (Held.ownerOnly_rename (prefix_stagingPath _) h)
    | exact ownerOnly_of_eq hperform (Held.ownerOnly_dropGuard _ h)
    | exact ownerOnly_of_eq hperform h
    | cases hperform

/-! ## What a program leaves -/

/-- The file system, where every operation meets the condition. -/
noncomputable def restricting (uuid : UuidCrate) (sha256 : Sha256) (root : Path) (umask : Mode) :
    Machine Unit Held FsOp FsOp.Ans FsChoice :=
  ((Store.ofRoot uuid sha256 root).fileSystem umask).guarded (Restricts umask root)

/-- From a private tree to a private tree. -/
abbrev KeepsPrivate (uuid : UuidCrate) (sha256 : Sha256) (root : Path) (umask : Mode) {α : Type}
    (p : Program FsOp FsOp.Ans α) : Prop :=
  (restricting uuid sha256 root umask).Preserves () (fun s ↦ s.tree.OwnerOnly root) p

theorem keepsPrivate_fsAwait (howner : ModeTree.SparesOwner umask) {op : FsOp} (hop : op.Simple) :
    KeepsPrivate uuid sha256 root umask (fsAwait op) :=
  .perform fun _ _ _ _ h hperform ↦
    ownerOnly_perform howner hop h (Machine.perform_guarded.mp hperform).2

/-- The machine of the store, for the operations of the server. -/
def onServer (M : Machine Unit Held FsOp FsOp.Ans FsChoice) :
    Machine Unit Held Op Op.Ans FsChoice where
  perform i op := M.perform i (.server op)
  abandon := M.abandon
  detached op := M.detached (.server op)

theorem gives_embed {M : Machine Unit Held FsOp FsOp.Ans FsChoice} {α : Type}
    {Post : α → Held → Prop} {p : Prog α} {s : Held} (h : (onServer M).Gives () Post p s) :
    M.Gives () Post (embed p) s := by
  induction p generalizing s with
  | done a => exact h
  | call op next ih => exact fun c a s' hperform ↦ ih a (h c a s' hperform)

/-- From a private tree to a private tree, by a program of the server. -/
abbrev KeepsPrivateHere (uuid : UuidCrate) (sha256 : Sha256) (root : Path) (umask : Mode)
    {α : Type} (p : Prog α) : Prop :=
  (onServer (restricting uuid sha256 root umask)).Preserves () (fun s ↦ s.tree.OwnerOnly root) p

theorem KeepsPrivateHere.embed {α : Type} {p : Prog α}
    (h : KeepsPrivateHere uuid sha256 root umask p) :
    KeepsPrivate uuid sha256 root umask (embed p) :=
  fun s hs ↦ gives_embed (h s hs)

theorem keepsPrivate_await (howner : ModeTree.SparesOwner umask) {op : Op}
    (hop : (FsOp.server op).Simple) : KeepsPrivateHere uuid sha256 root umask (await op) :=
  .perform fun _ _ _ _ h hperform ↦
    ownerOnly_perform howner hop h (Machine.perform_guarded.mp hperform).2

/-- A directory has been made and is not restricted yet. -/
structure Pending (umask : Mode) (root path : Path) (s : Held) : Prop where
  others : s.tree.OwnerOnlyBut root path
  closed : ModeTree.Closed umask → s.tree.OwnerOnly root
  dir : ∃ mode, s.tree path = some (.dir mode)

namespace Held

/-- What `create_dir_all` leaves, when it comes to its end. -/
theorem createDirAll_eq (umask : Mode) (path : Path) (s : Held) :
    s.createDirAll umask path = (.error .other, s) ∨
      (∀ dir, dir <+: path → ∀ mode, s.tree dir ≠ some (.file mode)) ∧
        s.createDirAll umask path = (.ok (), { s with tree := s.tree.makeDirs umask path }) := by
  unfold createDirAll
  by_cases hfile : (path.inits.any fun dir ↦ (s.tree dir).any Node.isFile) = true
  · exact .inl (if_pos hfile)
  · refine .inr ⟨fun dir hdir mode hmode ↦ hfile ?_, if_neg hfile⟩
    have hnode : (s.tree dir).any Node.isFile = true := by simp [hmode, Node.isFile]
    exact List.any_eq_true.mpr ⟨dir, (List.mem_inits dir path).mpr hdir, hnode⟩

end Held

/-- There is a directory at the end of a path that has been made. -/
theorem exists_dir_makeDirs {t : ModeTree Text} (h : ∀ mode, t path ≠ some (.file mode)) :
    ∃ mode, t.makeDirs umask path path = some (.dir mode) := by
  unfold ModeTree.makeDirs
  by_cases hnone : t path = none
  · exact ⟨_, if_pos ⟨hnone, List.prefix_rfl⟩⟩
  · rw [if_neg fun h ↦ hnone h.1]
    obtain ⟨node, hnode⟩ := Option.ne_none_iff_exists'.mp hnone
    cases node with
    | dir mode => exact ⟨mode, hnode⟩
    | file mode => exact absurd hnode (h mode)

theorem pending_createDirAll (howner : ModeTree.SparesOwner umask) {choice : FsChoice}
    {a : Except IoError Unit} (h : s.tree.OwnerOnly root)
    (hperform : (restricting uuid sha256 root umask).perform () (.server (.createDirAll path))
      choice s = some (a, s')) :
    (a = .ok () → Pending umask root path s') ∧
      ∀ e, a = .error e → s'.tree.OwnerOnly root := by
  obtain ⟨hmeets, hperform⟩ := Machine.perform_guarded.mp hperform
  cases choice with
  | granted id =>
      replace hperform : some (s.createDirAll umask path) = some (a, s') := hperform
      rcases s.createDirAll_eq umask path with heq | ⟨hfile, heq⟩
      · rw [heq] at hperform
        cases hperform
        exact ⟨nofun, fun _ _ ↦ h⟩
      · rw [heq] at hperform
        cases hperform
        refine ⟨fun _ ↦ ⟨?_, h.makeDirs howner, exists_dir_makeDirs (hfile path List.prefix_rfl)⟩,
          nofun⟩
        rcases hmeets with hclosed | hcomplete
        · exact (h.makeDirs howner hclosed).but
        · exact h.makeDirs_but hcomplete
  | failed e made =>
      replace hperform : (if made < path.length then
          some (Except.error e, (s.createDirAll umask (path.take made)).2) else none) =
            some (a, s') := hperform
      obtain ⟨hmade, heq⟩ := Option.ite_none_right_eq_some.mp hperform
      cases heq
      refine ⟨nofun, fun _ _ ↦ ?_⟩
      rcases s.createDirAll_eq umask (path.take made) with heq | ⟨hfile, heq⟩
      · rw [heq]
        exact h
      · rw [heq]
        rcases hmeets with hclosed | hcomplete
        · exact h.makeDirs howner hclosed
        · exact h.makeDirs_take hcomplete hmade
  | sized len => cases hperform
  | names names => cases hperform

theorem ownerOnly_setPermissions {choice : FsChoice} {a : Except IoError Unit}
    (h : Pending umask root path s)
    (hperform : (restricting uuid sha256 root umask).perform ()
      (.server (.setPermissions path 0o700)) choice s = some (a, s')) :
    s'.tree.OwnerOnly root := by
  obtain ⟨hmeets, hperform⟩ := Machine.perform_guarded.mp hperform
  obtain ⟨mode, hdir⟩ := h.dir
  cases choice with
  | granted id =>
      have heq : s.setPermissions path 0o700 =
          (.ok (), { s with tree := s.tree.chmod path 0o700 }) := by
        unfold Held.setPermissions
        rw [if_neg (by simp [hdir])]
      replace hperform : some (s.setPermissions path 0o700) = some (a, s') := hperform
      rw [heq] at hperform
      cases hperform
      exact h.others.chmod hdir
  | failed e made =>
      cases hperform
      rcases hmeets with hclosed | hprivate
      · exact h.closed hclosed
      · intro other node hroot hnode
        by_cases hother : other = path
        · subst hother
          rw [hdir] at hnode
          cases hnode
          exact hprivate mode hdir
        · exact h.others other node hroot hother hnode
  | sized len => cases hperform
  | names names => cases hperform

/-- The last directory is made, and then restricted. -/
theorem keepsPrivate_createPrivateDir (howner : ModeTree.SparesOwner umask) (path : Path) :
    KeepsPrivateHere uuid sha256 root umask (Store.createPrivateDir path) := by
  intro s h choice a s' hmade
  obtain ⟨hpending, hfailed⟩ := pending_createDirAll howner h hmade
  cases a with
  | error e => exact hfailed e rfl
  | ok _ =>
      intro choice' a' s'' hrestricted
      have hprivate := ownerOnly_setPermissions (hpending rfl) hrestricted
      cases a' with
      | error e => exact hprivate
      | ok _ => exact hprivate

/-! ## The operations -/

variable (howner : ModeTree.SparesOwner umask)

include howner

theorem keepsPrivate_writeChunks (name : Uuid) (body : ByteStream) (hashed : Bytes) :
    KeepsPrivateHere uuid sha256 root umask (Store.writeChunks name body hashed) := by
  induction body generalizing hashed with
  | nil => exact .done _
  | cons chunk rest ih =>
      cases chunk with
      | error e => exact .done _
      | ok chunk =>
          exact .andThen (.mapError _ (keepsPrivate_await howner trivial)) fun _ ↦ ih _

theorem keepsPrivate_isPresent (path : Path) (sizeBytes : ℕ) :
    KeepsPrivateHere uuid sha256 root umask (Store.isPresent path sizeBytes) := by
  refine .andThen (.lift (keepsPrivate_await howner trivial)) fun answer ↦ ?_
  match answer with
  | .ok metadata => exact .done _
  | .error .notFound => exact .done _
  | .error .alreadyExists => exact .done _
  | .error .other => exact .done _

theorem keepsPrivate_publishStaging (name : Uuid) (ns : ObjectNamespace) (content : Bytes) :
    KeepsPrivateHere uuid sha256 root umask
      ((Store.ofRoot uuid sha256 root).publishStaging name ns content) := by
  refine .andThen (.ofExcept _) fun key ↦ .andThen (.ofExcept _) fun finalPath ↦ ?_
  refine .andThen (keepsPrivate_createPrivateDir howner _) fun _ ↦ ?_
  refine .andThen (keepsPrivate_isPresent howner _ _) fun alreadyPresent ↦ ?_
  cases alreadyPresent with
  | true => exact .andThen (.lift (keepsPrivate_await howner trivial)) fun _ ↦ .done _
  | false =>
      refine .andThen (.mapError _ (keepsPrivate_await howner trivial)) fun _ ↦ ?_
      refine .andThen (.lift (keepsPrivate_await howner trivial)) fun _ ↦ ?_
      exact .andThen (.lift (keepsPrivate_await howner trivial)) fun _ ↦ .done _

theorem keepsPrivate_putStream (ns : ObjectNamespace) (body : ByteStream) :
    KeepsPrivateHere uuid sha256 root umask
      ((Store.ofRoot uuid sha256 root).putStream ns body) := by
  refine .andThen (.lift (keepsPrivate_await howner trivial)) fun name ↦ ?_
  refine .andThen (.lift ?_) fun written ↦ ?_
  · refine .andThen (.mapError _ (keepsPrivate_await howner trivial)) fun _ ↦ ?_
    refine .andThen (keepsPrivate_writeChunks howner name body []) fun content ↦ ?_
    refine .andThen (.mapError _ (keepsPrivate_await howner trivial)) fun _ ↦ ?_
    refine .andThen (.mapError _ (keepsPrivate_await howner trivial)) fun _ ↦ ?_
    exact keepsPrivate_publishStaging howner name ns content
  · cases written with
    | ok stored => exact .done _
    | error e => exact .andThen (.lift (keepsPrivate_await howner trivial)) fun _ ↦ .done _

theorem keepsPrivate_removeAll (names : List Uuid) (removed : ℕ) :
    KeepsPrivateHere uuid sha256 root umask (Store.removeAll names removed) := by
  induction names generalizing removed with
  | nil => exact .done _
  | cons name rest ih =>
      refine .andThen (.lift (keepsPrivate_await howner trivial)) fun answer ↦ ?_
      match answer with
      | .ok () => exact ih _
      | .error .notFound => exact ih _
      | .error .alreadyExists => exact .done _
      | .error .other => exact .done _

theorem keepsPrivate_sweepStaging (olderThan : ℕ) :
    KeepsPrivateHere uuid sha256 root umask (Store.sweepStaging olderThan) :=
  .andThen (.mapError _ (keepsPrivate_await howner trivial)) fun names ↦
    keepsPrivate_removeAll howner names 0

theorem keepsPrivate_delete (key : ObjectKey uuid) :
    KeepsPrivate uuid sha256 root umask ((Store.ofRoot uuid sha256 root).delete key) := by
  refine .andThen (.ofExcept _) fun path ↦ ?_
  refine .andThen (.lift (keepsPrivate_fsAwait howner trivial)) fun answer ↦ ?_
  match answer with
  | .ok () => exact .done _
  | .error .notFound => exact .done _
  | .error .alreadyExists => exact .done _
  | .error .other => exact .done _

theorem keepsPrivate_checkDirs (dirs : List Path) :
    KeepsPrivate uuid sha256 root umask (Store.checkDirs dirs) := by
  induction dirs with
  | nil => exact .done _
  | cons dir rest ih =>
      refine .andThen (.mapError _ (keepsPrivate_fsAwait howner trivial)) fun isDir ↦ ?_
      cases isDir with
      | true => exact ih
      | false => exact .done _

theorem keepsPrivate_health :
    KeepsPrivate uuid sha256 root umask (Store.ofRoot uuid sha256 root).health := by
  refine .andThen (keepsPrivate_checkDirs howner _) fun _ ↦ ?_
  refine .andThen (.lift (keepsPrivate_fsAwait howner trivial)) fun name ↦ ?_
  refine .andThen (.lift ?_) fun written ↦ ?_
  · refine .andThen (.mapError _ (keepsPrivate_fsAwait howner trivial)) fun _ ↦ ?_
    refine .andThen (.mapError _ (keepsPrivate_fsAwait howner trivial)) fun _ ↦ ?_
    exact .mapError _ (keepsPrivate_fsAwait howner trivial)
  · exact .andThen (.lift (keepsPrivate_fsAwait howner trivial)) fun _ ↦ .ofExcept _

theorem keepsPrivate_openAt :
    KeepsPrivate uuid sha256 root umask (Store.openAt uuid sha256 root) := by
  have hmake (path : Path) : KeepsPrivate uuid sha256 root umask
      (embed (Store.createPrivateDir path)) := (keepsPrivate_createPrivateDir howner path).embed
  refine .andThen (hmake root) fun _ ↦ ?_
  refine .andThen (.mapError _ (keepsPrivate_fsAwait howner trivial)) fun canonical ↦ ?_
  exact .andThen (hmake _) fun _ ↦ .andThen (hmake _) fun _ ↦ .done _

/-- Every operation leaves a private tree private. -/
theorem keepsPrivate_program (call : StoreCall uuid) :
    KeepsPrivate uuid sha256 root umask (call.program uuid sha256 root) := by
  cases call with
  | openAt => exact (keepsPrivate_openAt howner).bind fun _ ↦ .done _
  | putStream ns body =>
      exact (keepsPrivate_putStream howner ns body).embed.bind fun _ ↦ .done _
  | health => exact (keepsPrivate_health howner).bind fun _ ↦ .done _
  | delete key => exact (keepsPrivate_delete howner key).bind fun _ ↦ .done _
  | sweepStaging olderThan =>
      exact (keepsPrivate_sweepStaging howner olderThan).embed.bind fun _ ↦ .done _

theorem ownerOnly_storeStep {e : StoreCall uuid × List FsChoice} (h : s.tree.OwnerOnly root)
    (hstep : storeStep uuid sha256 root umask s e = some s')
    (hmeets : ((Store.ofRoot uuid sha256 root).fileSystem umask).Meets () (Restricts umask root)
      (e.1.program uuid sha256 root) e.2 s) : s'.tree.OwnerOnly root := by
  obtain ⟨⟨a, t⟩, hplay, rfl⟩ := Option.map_eq_some_iff.mp hstep
  exact Machine.gives_iff.mp (keepsPrivate_program howner e.1 s h) e.2 a t
    (Machine.play_guarded hmeets hplay)

/-- From a root that was not there, every operation of a sequence whose
directories are all restricted leaves a tree for its owner only. -/
theorem storage_tree_owner_only {events : List (StoreCall uuid × List FsChoice)}
    (hnew : ∀ path, root <+: path → s.tree path = none)
    (hmeets : Run.Along (storeStep uuid sha256 root umask)
      (fun s e _ ↦ ((Store.ofRoot uuid sha256 root).fileSystem umask).Meets ()
        (Restricts umask root) (e.1.program uuid sha256 root) e.2 s) s events) :
    Run.Throughout (storeStep uuid sha256 root umask) (fun s ↦ s.tree.OwnerOnly root) s events := by
  have hstart : s.tree.OwnerOnly root := by
    intro path node hroot hnode
    rw [hnew path hroot] at hnode
    cases hnode
  exact @Run.Along.throughout _ _ _ _ (fun _ ↦ True) _ _ _
    (fun _ _ _ _ h hstep hgood ↦ ownerOnly_storeStep howner h hstep hgood) (fun _ _ ↦ trivial)
    hstart hmeets

end OwnerOnly

namespace Sample

def storageRoot : Path := ["storage".toList]

/-- Only the directory of the root is there. -/
def emptyDisk : Held where
  tree path := if path = [] then some (.dir 0o755) else none
  guard := none

def depositNs : ObjectNamespace := ⟨uuid 1, uuid 2⟩

/-- The tree is created, and one file is stored in it. -/
def deposit : List (StoreCall .reference × List FsChoice) :=
  [(.openAt, List.replicate 7 (.granted (uuid 0))),
    (.putStream depositNs [.ok content],
      List.replicate 7 (.granted (uuid 3)) ++ [.sized 0] ++ List.replicate 3 (.granted (uuid 3)))]

theorem emptyDisk_new : ∀ path, storageRoot <+: path → emptyDisk.tree path = none := by
  intro path hroot
  refine if_neg fun hnil ↦ ?_
  rw [hnil] at hroot
  cases List.prefix_nil.mp hroot

/-- The directory of a bureau. -/
def bureauDir : Path :=
  storageRoot ++ ["objects".toList, ObjectKey.bureauPrefix ++ UuidCrate.reference.display (uuid 1)]

end Sample

/-- Under a closed umask a file is stored in a new tree. -/
theorem storage_tree_owner_only_closed :
    (Run.run (storeStep .reference Sample.sha256 Sample.storageRoot 0o077) Sample.emptyDisk
      Sample.deposit).isSome = true ∧
      Run.Throughout (storeStep .reference Sample.sha256 Sample.storageRoot 0o077)
        (fun s ↦ s.tree.OwnerOnly Sample.storageRoot) Sample.emptyDisk Sample.deposit := by
  refine ⟨by decide +kernel, storage_tree_owner_only (by decide) Sample.emptyDisk_new ?_⟩
  rw [Run.along_iff]
  rintro before e after s s' - - -
  exact Machine.Meets.of_forall _ _ _ (fun _ _ _ ↦ Or.inl (by decide)) _ _ _

/-- Under the usual umask the directory of the bureau is open to everyone. -/
theorem bureau_directory_open : ∃ s,
    Run.run (storeStep .reference Sample.sha256 Sample.storageRoot 0o022) Sample.emptyDisk
      Sample.deposit = some s ∧
      ModeTree.SparesOwner 0o022 ∧ s.tree Sample.bureauDir = some (.dir 0o755) ∧
        ¬ s.tree.OwnerOnly Sample.storageRoot := by
  have hopen : (Run.run (storeStep .reference Sample.sha256 Sample.storageRoot 0o022)
      Sample.emptyDisk Sample.deposit).map (fun s ↦ s.tree Sample.bureauDir) =
        some (some (.dir 0o755)) := by decide +kernel
  obtain ⟨s, hrun, hdir⟩ := Option.map_eq_some_iff.mp hopen
  refine ⟨s, hrun, by decide, hdir, fun h ↦ ?_⟩
  have hmode : (0o755 : Mode) = 0o700 := h _ _ (List.prefix_append _ _) hdir
  exact absurd hmode (by decide)

end Otdel
