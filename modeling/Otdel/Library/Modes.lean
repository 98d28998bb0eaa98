import Mathlib

/-!
# Directories, files and their modes

A tree of directories and files as `chmod` and the umask see it: what lies at a
path, and the permission bits it has.
-/

/-- Read, write and execute, for the owner, the group and others. -/
abbrev Mode := BitVec 9

inductive Node where
  | dir (mode : Mode)
  | file (mode : Mode)
  deriving DecidableEq

def Node.isFile : Node → Bool
  | .dir _ => false
  | .file _ => true

/-- A directory or a file that only its owner may use. -/
def Node.Private : Node → Prop
  | .dir mode => mode = 0o700
  | .file mode => mode = 0o600

abbrev ModeTree (Name : Type*) := List Name → Option Node

namespace ModeTree

variable {Name : Type*}

/-- The bits a creation is left with. -/
def masked (umask mode : Mode) : Mode := mode &&& ~~~umask

/-- The umask takes no bit from the owner. -/
def SparesOwner (umask : Mode) : Prop := umask &&& 0o700 = 0

/-- The umask takes every bit from the group and from others. -/
def Closed (umask : Mode) : Prop := umask &&& 0o077 = 0o077

instance (umask : Mode) : Decidable (SparesOwner umask) := decEq _ _

instance (umask : Mode) : Decidable (Closed umask) := decEq _ _

theorem masked_file {umask : Mode} (h : SparesOwner umask) : masked umask 0o600 = 0o600 := by
  revert umask
  decide +kernel

theorem masked_dir {umask : Mode} (h : SparesOwner umask) (hclosed : Closed umask) :
    masked umask 0o777 = 0o700 := by
  revert umask
  decide +kernel

section Operations

variable [DecidableEq Name]

/-- Create a directory and the missing ones above it. -/
def makeDirs (umask : Mode) (path : List Name) (t : ModeTree Name) : ModeTree Name := fun other ↦
  if t other = none ∧ other <+: path then some (.dir (masked umask 0o777)) else t other

def create (umask mode : Mode) (path : List Name) (t : ModeTree Name) : ModeTree Name :=
  Function.update t path (some (.file (masked umask mode)))

def chmod (path : List Name) (mode : Mode) (t : ModeTree Name) : ModeTree Name :=
  Function.update t path ((t path).map fun
    | .dir _ => .dir mode
    | .file _ => .file mode)

def rename (source target : List Name) (t : ModeTree Name) : ModeTree Name :=
  Function.update (Function.update t source none) target (t source)

def remove (path : List Name) (t : ModeTree Name) : ModeTree Name := Function.update t path none

end Operations

/-! ## Trees for their owner only -/

/-- Everything at the root and below it is private, but for one path. -/
def OwnerOnlyBut (root except : List Name) (t : ModeTree Name) : Prop :=
  ∀ path node, root <+: path → path ≠ except → t path = some node → node.Private

def OwnerOnly (root : List Name) (t : ModeTree Name) : Prop :=
  ∀ path node, root <+: path → t path = some node → node.Private

/-- The directories above a path are there, from the root on. -/
def Complete (root path : List Name) (t : ModeTree Name) : Prop :=
  ∀ dir, root <+: dir → dir <+: path → dir ≠ path → t dir ≠ none

section OwnerOnly

variable [DecidableEq Name] {root path source target : List Name} {umask : Mode}
  {t : ModeTree Name}

omit [DecidableEq Name] in
theorem OwnerOnly.but (h : OwnerOnly root t) : OwnerOnlyBut root path t :=
  fun other node hroot _ hnode ↦ h other node hroot hnode

theorem OwnerOnlyBut.update {node : Option Node} (h : OwnerOnlyBut root path t)
    (hnode : ∀ node' ∈ node, node'.Private) : OwnerOnly root (Function.update t path node) := by
  intro other node' hroot hother
  by_cases heq : other = path
  · subst heq
    rw [Function.update_self] at hother
    exact hnode node' hother
  · rw [Function.update_of_ne heq] at hother
    exact h other node' hroot heq hother

theorem OwnerOnly.create (h : OwnerOnly root t) (howner : SparesOwner umask) :
    OwnerOnly root (t.create umask 0o600 path) :=
  h.but.update fun node hnode ↦ by
    cases hnode
    exact masked_file howner

theorem OwnerOnly.remove (h : OwnerOnly root t) : OwnerOnly root (t.remove path) :=
  h.but.update nofun

/-- What is moved keeps its mode. -/
theorem OwnerOnly.rename (h : OwnerOnly root t) (hsource : root <+: source) :
    OwnerOnly root (t.rename source target) :=
  OwnerOnlyBut.update (OwnerOnly.but (h.remove)) fun node hnode ↦ h source node hsource hnode

theorem OwnerOnlyBut.chmod {mode : Mode} (h : OwnerOnlyBut root path t)
    (hdir : t path = some (.dir mode)) : OwnerOnly root (t.chmod path 0o700) :=
  h.update fun node hnode ↦ by
    rw [hdir] at hnode
    cases hnode
    rfl

/-- Under a closed umask every directory is made private. -/
theorem OwnerOnly.makeDirs (h : OwnerOnly root t) (howner : SparesOwner umask)
    (hclosed : Closed umask) : OwnerOnly root (t.makeDirs umask path) := by
  intro other node hroot hnode
  unfold ModeTree.makeDirs at hnode
  split at hnode
  · cases hnode
    exact masked_dir howner hclosed
  · exact h other node hroot hnode

/-- If only the last directory was missing, only the last one is made. -/
theorem OwnerOnly.makeDirs_but (h : OwnerOnly root t) (hcomplete : Complete root path t) :
    OwnerOnlyBut root path (t.makeDirs umask path) := by
  intro other node hroot hne hnode
  unfold ModeTree.makeDirs at hnode
  split at hnode
  · rename_i hmissing
    exact absurd hmissing.1 (hcomplete other hroot hmissing.2 hne)
  · exact h other node hroot hnode

/-- A creation that stops above the last directory makes none. -/
theorem OwnerOnly.makeDirs_take (h : OwnerOnly root t) (hcomplete : Complete root path t) {n : ℕ}
    (hn : n < path.length) : OwnerOnly root (t.makeDirs umask (path.take n)) := by
  intro other node hroot hnode
  unfold ModeTree.makeDirs at hnode
  split at hnode
  · rename_i hmissing
    refine absurd hmissing.1 (hcomplete other hroot
      (hmissing.2.trans (List.take_prefix n path)) fun heq ↦ ?_)
    have hlength := hmissing.2.length_le
    rw [heq, List.length_take] at hlength
    omega
  · exact h other node hroot hnode

end OwnerOnly

end ModeTree
