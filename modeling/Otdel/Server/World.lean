import Otdel.Library.Interleaving
import Otdel.Server.Op

/-!
# The database and the file system under the server

One machine runs the operations of all requests.  A statement sees the rows
committed before it, with the writes of its own transaction on top, and waits
for the transactions whose uncommitted row versions it would collide with.
Staging names are never drawn twice.
-/

namespace Otdel

/-- A failure that comes from outside: of the pool, of the connection, of the
server (a deadlock, a timeout), or of the disk. -/
inductive Outage where
  | poolTimedOut
  | io
  | database (sqlState : String)
  deriving DecidableEq, Repr

def Outage.toDbError : Outage → DbError
  | poolTimedOut => .poolTimedOut
  | io => .io
  | database sqlState => .database sqlState none

/-- What the environment decides about an operation: it is carried out with the
given identifier and clock reading, it fails, it is a commit whose
acknowledgement is lost, or it lists the given names. -/
inductive Choice where
  | granted (id : Uuid) (now : Timestamp)
  | failed (outage : Outage)
  | lost
  | listed (staging : List Uuid) (objects : List Text) (truncated : Bool)
  deriving DecidableEq

variable {ι : Type}

/-- The shared world.  `log` is the history of commits, `drawnBy` tells who drew
a staging name, `faulted` who has met an outage, and `unacked` whose commit went
unacknowledged. -/
structure World (ι : Type) where
  db : Db
  tx : ι → Option Tx
  log : List (ι × List Write)
  staging : Uuid → Option Bytes
  objects : Path → Option Bytes
  guard : ι → Option Uuid
  drawnBy : Uuid → Option ι
  reports : List (ι × Report)
  faulted : ι → Bool
  unacked : ι → Bool

namespace World

/-- The uncommitted writes of a request. -/
def pending (w : World ι) (i : ι) : List Write := ((w.tx i).map Tx.writes).getD []

/-- The rows that a statement of this request sees. -/
def view (w : World ι) (i : ι) : Db := w.db.overlay (w.pending i)

variable [DecidableEq ι]

def setTx (w : World ι) (i : ι) (tx : Option Tx) : World ι :=
  { w with tx := Function.update w.tx i tx }

def markFaulted (w : World ι) (i : ι) : World ι :=
  { w with faulted := Function.update w.faulted i true }

def setStaging (w : World ι) (name : Uuid) (content : Option Bytes) : World ι :=
  { w with staging := Function.update w.staging name content }

def setObject (w : World ι) (path : Path) (content : Bytes) : World ι :=
  { w with objects := Function.update w.objects path (some content) }

/-- Publish the writes of a transaction. -/
def publish (w : World ι) (i : ι) (writes : List Write) : World ι :=
  { w.setTx i none with
    db := w.db.overlay writes
    log := (i, writes) :: w.log }

/-- The guard removes the staging file it still owns. -/
def releaseGuard (w : World ι) (i : ι) : World ι :=
  match w.guard i with
  | some name => { w.setStaging name none with guard := Function.update w.guard i none }
  | none => w

/-- Dropping a request rolls its transaction back and drops its guard. -/
def abandon (i : ι) (w : World ι) : World ι := (w.releaseGuard i).setTx i none

/-- Another request holds an uncommitted row version that `clashes`. -/
def Blocked (w : World ι) (i : ι) (clashes : Write → Bool) : Prop :=
  ∃ j, j ≠ i ∧ (w.pending j).any clashes = true

instance [Fintype ι] (w : World ι) (i : ι) (clashes : Write → Bool) :
    Decidable (w.Blocked i clashes) := by
  unfold Blocked
  infer_instance

/-- An operation fails because of an outage. -/
def failWith {α : Type} (w : World ι) (i : ι) (error : α) : Option (α × World ι) :=
  some (error, w.markFaulted i)

def runSql [Fintype ι] (i : ι) (s : Sql) (id : Uuid) (w : World ι) :
    Option (Except DbError s.Answer × World ι) :=
  match w.tx i with
  | none => some (.error (.database "25P02" none), w)
  | some tx =>
      if w.Blocked i (s.waitsFor id tx.now (w.view i)) then none
      else match s.exec id tx.now (w.view i) with
        | .ok (answer, writes) =>
            some (.ok answer, w.setTx i (some { tx with writes := tx.writes ++ writes }))
        | .error e => some (.error e, w.setTx i none)

/-- Carry out an operation. -/
def grant [Fintype ι] (i : ι) (id : Uuid) (now : Timestamp) (w : World ι) :
    (op : Op) → Option (op.Ans × World ι)
  | .begin bureauId => some (.ok (), w.setTx i (some ⟨bureauId, now, []⟩))
  | .sql s => w.runSql i s id
  | .commit =>
      match w.tx i with
      | none => some (.error (.database "25P02" none), w)
      | some tx => some (.ok (), w.publish i tx.writes)
  | .rollback => some ((), w.setTx i none)
  | .armStaging =>
      if w.drawnBy id = none then
        some (id,
          { w with
            drawnBy := Function.update w.drawnBy id (some i)
            guard := Function.update w.guard i (some id) })
      else none
  | .createStaging name =>
      if (w.staging name).isSome then some (.error .alreadyExists, w)
      else some (.ok (), w.setStaging name (some []))
  | .write name chunk =>
      some (.ok (), w.setStaging name ((w.staging name).map fun content ↦ content ++ chunk))
  | .flush _ => some (.ok (), w)
  | .syncAll _ => some (.ok (), w)
  | .createDirAll _ => some (.ok (), w)
  | .setPermissions _ _ => some (.ok (), w)
  | .stat path =>
      match w.objects path with
      | some content => some (.ok ⟨true, content.length⟩, w)
      | none => some (.error .notFound, w)
  | .rename name path =>
      match w.staging name with
      | some content => some (.ok (), (w.setStaging name none).setObject path content)
      | none => some (.error .notFound, w)
  | .syncDir _ => some ((), w)
  | .dropGuard => some ((), w.releaseGuard i)
  | .disarmGuard => some ((), { w with guard := Function.update w.guard i none })
  | .openFile path =>
      match w.objects path with
      | some content => some (.ok content, w)
      | none => some (.error .notFound, w)
  | .readStaging _ => none
  | .removeStaging name =>
      if (w.staging name).isSome then some (.ok (), w.setStaging name none)
      else some (.error .notFound, w)
  | .listObjects _ => none
  | .report line => some ((), { w with reports := (i, line) :: w.reports })

/-- Fail an operation; a failed statement or commit ends its transaction. -/
def refuse (i : ι) (outage : Outage) (w : World ι) : (op : Op) → Option (op.Ans × World ι)
  | .begin _ => w.failWith i (.error outage.toDbError)
  | .sql _ => (w.setTx i none).failWith i (.error outage.toDbError)
  | .commit => (w.setTx i none).failWith i (.error outage.toDbError)
  | .createStaging _ => w.failWith i (.error .other)
  | .write _ _ => w.failWith i (.error .other)
  | .flush _ => w.failWith i (.error .other)
  | .syncAll _ => w.failWith i (.error .other)
  | .createDirAll _ => w.failWith i (.error .other)
  | .setPermissions _ _ => w.failWith i (.error .other)
  | .stat _ => w.failWith i (.error .other)
  | .rename _ _ => w.failWith i (.error .other)
  | .openFile _ => w.failWith i (.error .other)
  | .readStaging _ => w.failWith i (.error .other)
  | .removeStaging _ => w.failWith i (.error .other)
  | .listObjects _ => w.failWith i (.error .other)
  | _ => none

def perform [Fintype ι] (i : ι) (op : Op) (choice : Choice) (w : World ι) :
    Option (op.Ans × World ι) :=
  match choice, op with
  | .granted id now, op => w.grant i id now op
  | .failed outage, op => w.refuse i outage op
  | .lost, .commit =>
      (w.tx i).bind fun tx ↦
        { w.publish i tx.writes with unacked := Function.update w.unacked i true }.failWith i
          (.error Outage.io.toDbError)
  | .listed staging _ _, .readStaging _ => some (.ok staging, w)
  | .listed _ objects truncated, .listObjects _ => some (.ok (objects, truncated), w)
  | _, _ => none

end World

/-- The machine that all requests run on. -/
def server (ι : Type) [Fintype ι] [DecidableEq ι] :
    Machine ι (World ι) Op Op.Ans Choice where
  perform := World.perform
  abandon := World.abandon
  detached := Op.detached

end Otdel
