import Otdel.Db.Repository
import Otdel.Storage.Store

/-!
# The worker

One maintenance pass reclaims leases, sweeps the staging directory and compares
the stored objects with the material rows.  What an extraction does to the rows
of a material and its job is left open.
-/

namespace Otdel

open Program

structure MaintenanceSettings where
  stagingMaxAge : ℕ
  orphanScanLimit : ℕ
  deriving DecidableEq

inductive MaintenanceError where
  | db (error : DbError)
  | storage (error : StorageError)

structure MaintenanceReport where
  leasesReclaimed : ℕ
  stagingFilesRemoved : ℕ
  orphanObjects : ℕ
  objectsScanned : ℕ
  scanTruncated : Bool
  deriving DecidableEq

namespace Maintenance

def db {α : Type} (p : TryProg DbError α) : TryProg MaintenanceError α := mapError .db p

def storage {α : Type} (p : TryProg StorageError α) : TryProg MaintenanceError α :=
  mapError .storage p

/-- Jobs with an expired lease become runnable again, in a transaction of their
own. -/
def reclaimLeases (bureauId : Uuid) : TryProg MaintenanceError ℕ := do
  let tx ← db (ScopedTx.begin bureauId)
  let reclaimed ← db (Jobs.reclaimExpiredLeases tx)
  db tx.commit
  return reclaimed

variable (store : Store)

/-- Count the listed objects of the bureau that no row refers to. -/
def countOrphans (tx : ScopedTx) : List (ObjectKey store.uuid) → ℕ → TryProg MaintenanceError ℕ
  | [], orphans => return orphans
  | key :: rest, orphans => do
      let ns ← storage (ofExcept key.namespaceOf)
      if ns.bureauId ≠ tx.bureauId then countOrphans tx rest orphans
      else do
        match ← db (Materials.findByDigest tx ns.partnerId key.digest) with
        | some _ => countOrphans tx rest orphans
        | none => do
            lift (await (.report (.missingRow key.raw)))
            countOrphans tx rest (orphans + 1)

/-- Compare stored objects with the material rows of a bureau. -/
def reportOrphans (bureauId : Uuid) (limit : ℕ) : TryProg MaintenanceError (ℕ × ℕ × Bool) := do
  let (keys, truncated) ← storage (store.listObjects limit)
  let tx ← db (ScopedTx.begin bureauId)
  let orphans ← countOrphans store tx keys 0
  db tx.commit
  return (orphans, keys.length, truncated)

def runOnce (settings : MaintenanceSettings) (bureauId : Uuid) :
    TryProg MaintenanceError MaintenanceReport := do
  let leases ← reclaimLeases bureauId
  let removed ← storage (Store.sweepStaging settings.stagingMaxAge)
  let (orphans, scanned, truncated) ← reportOrphans store bureauId settings.orphanScanLimit
  return ⟨leases, removed, orphans, scanned, truncated⟩

end Maintenance

/-! ## Extraction -/

/-- A column update that an extraction makes. -/
inductive WorkerChange where
  | material (materialId : Uuid) (change : MaterialChange)
  | job (jobId : Uuid) (change : JobChange)
  deriving DecidableEq

namespace Worker

def statement (bureauId : Uuid) : WorkerChange → Sql
  | .material materialId change => .workerMaterial bureauId materialId change
  | .job jobId change => .workerJob bureauId jobId change

def runChanges (bureauId : Uuid) : List WorkerChange → TryProg DbError Unit
  | [] => return ()
  | change :: rest => do
      let _ ← runStatement (statement bureauId change)
      runChanges bureauId rest

/-- One transaction of an extraction worker. -/
def step (bureauId : Uuid) (changes : List WorkerChange) : TryProg DbError Unit := do
  let tx ← ScopedTx.begin bureauId
  runChanges bureauId changes
  tx.commit

end Worker

end Otdel
