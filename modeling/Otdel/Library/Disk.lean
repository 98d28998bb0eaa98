import Mathlib

/-!
# Files and crashes

A file system as its users see it, and as much of it as is sure to survive a
crash: the content of a file since the last fsync of the file, and an entry of a
directory since the last fsync of the directory.
-/

/-- What a name in a directory leads to. -/
inductive DiskEntry where
  | dir
  | file (number : ℕ)
  deriving DecidableEq, Repr

/-- Entries by their path; files by their number. -/
structure Disk (Name Byte : Type*) where
  entries : List Name → Option DiskEntry
  synced : List Name → Option DiskEntry
  content : ℕ → List Byte
  syncedContent : ℕ → List Byte
  next : ℕ

namespace Disk

variable {Name Byte : Type*}

/-- Follow the names from a directory on. -/
def find (view : List Name → Option DiskEntry) : List Name → List Name → Option DiskEntry
  | _, [] => some .dir
  | path, name :: rest =>
      match view (path ++ [name]) with
      | some .dir => find view (path ++ [name]) rest
      | some (.file number) => if rest.isEmpty then some (.file number) else none
      | none => none

/-- The content of the file that the names lead to. -/
def read (d : Disk Name Byte) (root names : List Name) : Option (List Byte) :=
  match find d.entries root names with
  | some (.file number) => some (d.content number)
  | _ => none

/-- What a crash may leave: of each entry the synced one or the current one, and
every content that was synced. -/
structure Crash (d d' : Disk Name Byte) : Prop where
  entries : ∀ path, d'.entries path = d.synced path ∨ d'.entries path = d.entries path
  content : ∀ number, d.syncedContent number = d.content number →
    d'.content number = d.content number

/-- The crash that keeps only what was synced. -/
def forget (d : Disk Name Byte) : Disk Name Byte :=
  { d with entries := d.synced, content := d.syncedContent }

theorem crash_forget (d : Disk Name Byte) : d.Crash d.forget :=
  ⟨fun _ ↦ Or.inl rfl, fun _ h ↦ h⟩

/-- What has no synced entry in the first directory is lost. -/
theorem read_forget_eq_none {d : Disk Name Byte} {root : List Name} {name : Name}
    (h : d.synced (root ++ [name]) = none) (rest : List Name) :
    d.forget.read root (name :: rest) = none := by
  have hentries : d.forget.entries (root ++ [name]) = none := h
  simp only [read, find, hentries]

def append (path : List Name) (bytes : List Byte) (d : Disk Name Byte) : Disk Name Byte :=
  match d.entries path with
  | some (.file number) =>
      { d with content := Function.update d.content number (d.content number ++ bytes) }
  | _ => d

/-- `fsync` of a file. -/
def syncFile (path : List Name) (d : Disk Name Byte) : Disk Name Byte :=
  match d.entries path with
  | some (.file number) =>
      { d with syncedContent := Function.update d.syncedContent number (d.content number) }
  | _ => d

@[simp] theorem synced_append (path : List Name) (bytes : List Byte) (d : Disk Name Byte) :
    (d.append path bytes).synced = d.synced := by
  unfold append
  split <;> rfl

@[simp] theorem synced_syncFile (path : List Name) (d : Disk Name Byte) :
    (d.syncFile path).synced = d.synced := by
  unfold syncFile
  split <;> rfl

section Entries

variable [DecidableEq Name]

/-- Create an empty file. -/
def create (path : List Name) (d : Disk Name Byte) : Disk Name Byte :=
  { d with
    entries := Function.update d.entries path (some (.file d.next))
    content := Function.update d.content d.next []
    syncedContent := Function.update d.syncedContent d.next []
    next := d.next + 1 }

/-- Create a directory and the missing ones above it. -/
def makeDirs (path : List Name) (d : Disk Name Byte) : Disk Name Byte :=
  { d with
    entries := fun other ↦
      if d.entries other = none ∧ other <+: path then some .dir else d.entries other }

def rename (source target : List Name) (d : Disk Name Byte) : Disk Name Byte :=
  { d with
    entries := Function.update (Function.update d.entries source none) target
      (d.entries source) }

def remove (path : List Name) (d : Disk Name Byte) : Disk Name Byte :=
  { d with entries := Function.update d.entries path none }

/-- `fsync` of a directory. -/
def syncDir (path : List Name) (d : Disk Name Byte) : Disk Name Byte :=
  { d with
    synced := fun other ↦
      if other ≠ [] ∧ other.dropLast = path then d.entries other else d.synced other }

@[simp] theorem synced_create (path : List Name) (d : Disk Name Byte) :
    (d.create path).synced = d.synced := rfl

@[simp] theorem synced_makeDirs (path : List Name) (d : Disk Name Byte) :
    (d.makeDirs path).synced = d.synced := rfl

@[simp] theorem synced_rename (source target : List Name) (d : Disk Name Byte) :
    (d.rename source target).synced = d.synced := rfl

@[simp] theorem synced_remove (path : List Name) (d : Disk Name Byte) :
    (d.remove path).synced = d.synced := rfl

/-- Only an fsync of the directory itself makes its entries last. -/
theorem synced_syncDir_of_ne {path root : List Name} (h : path ≠ root) (name : Name)
    (d : Disk Name Byte) : (d.syncDir path).synced (root ++ [name]) = d.synced (root ++ [name]) := by
  simp [syncDir, h.symm]

end Entries

end Disk
