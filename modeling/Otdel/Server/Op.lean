import Otdel.Db.Sql
import Otdel.Library.Program

/-!
# What the server waits for

Every await point of the handlers is one operation: a statement or the end of a
transaction, a file system call, a line in the log.
-/

namespace Otdel

/-- What `symlink_metadata` tells. -/
structure Metadata where
  isFile : Bool
  len : ℕ
  deriving DecidableEq, Repr

/-- The log lines that record a failed publication or an unrecorded object. -/
inductive Report where
  | publishFailed (error : DbError)
  | orphanedObject (key : Text) (sizeBytes : ℕ)
  | missingRow (key : Text)
  deriving DecidableEq, Repr

inductive Op where
  | begin (bureauId : Uuid)
  | sql (statement : Sql)
  | commit
  /-- The transaction is dropped. -/
  | rollback
  /-- `Uuid::new_v4` for a staging path, whose guard is armed at once. -/
  | armStaging
  | createStaging (name : Uuid)
  | write (name : Uuid) (chunk : Bytes)
  | flush (name : Uuid)
  | syncAll (name : Uuid)
  | createDirAll (path : Path)
  | setPermissions (path : Path) (mode : ℕ)
  | stat (path : Path)
  | rename (name : Uuid) (path : Path)
  | syncDir (path : Path)
  | dropGuard
  | disarmGuard
  | openFile (path : Path)
  /-- The staging files that are older than the given age. -/
  | readStaging (olderThan : ℕ)
  | removeStaging (name : Uuid)
  | listObjects (limit : ℕ)
  | report (line : Report)

namespace Op

def Ans : Op → Type
  | begin _ => Except DbError Unit
  | sql statement => Except DbError statement.Answer
  | commit => Except DbError Unit
  | rollback => Unit
  | armStaging => Uuid
  | createStaging _ => Except IoError Unit
  | write _ _ => Except IoError Unit
  | flush _ => Except IoError Unit
  | syncAll _ => Except IoError Unit
  | createDirAll _ => Except IoError Unit
  | setPermissions _ _ => Except IoError Unit
  | stat _ => Except IoError Metadata
  | rename _ _ => Except IoError Unit
  | syncDir _ => Unit
  | dropGuard => Unit
  | disarmGuard => Unit
  | openFile _ => Except IoError Bytes
  | readStaging _ => Except IoError (List Uuid)
  | removeStaging _ => Except IoError Unit
  | listObjects _ => Except IoError (List Text × Bool)
  | report _ => Unit

/-- File system calls run on a thread of their own, to the end. -/
def detached : Op → Bool
  | createStaging _ => true
  | write _ _ => true
  | flush _ => true
  | syncAll _ => true
  | createDirAll _ => true
  | setPermissions _ _ => true
  | stat _ => true
  | rename _ _ => true
  | syncDir _ => true
  | openFile _ => true
  | readStaging _ => true
  | removeStaging _ => true
  | listObjects _ => true
  | _ => false

end Op

/-- A function of the server. -/
abbrev Prog (α : Type) := Program Op Op.Ans α

def await (op : Op) : Prog op.Ans := Program.perform op

/-- A function of the server that may fail. -/
abbrev TryProg (ε α : Type) := Fallible Op Op.Ans ε α

end Otdel
