import Otdel.Server.Op

/-!
# The object store

An upload is written to a staging file, hashed on the way, and renamed to the
path that its digest leads to.  The staging file is removed on every other way
out.
-/

namespace Otdel

open Program

/-- The `sha2` crate. -/
structure Sha256 where
  digest : Bytes → List UInt8
  length_digest : ∀ content, (digest content).length = 32

/-- Two lowercase digits for each byte. -/
def hexLower (bytes : List UInt8) : Text :=
  bytes.flatMap fun byte ↦
    [Text.hexDigit (Fin.ofNat 16 (byte.toNat / 16)), Text.hexDigit (Fin.ofNat 16 byte.toNat)]

/-- The digest of a content, as it is written in keys and rows. -/
def Sha256.hex (sha256 : Sha256) (content : Bytes) : Text := hexLower (sha256.digest content)

/-- What the store is built on. -/
structure Store where
  uuid : UuidCrate
  sha256 : Sha256
  objectsRoot : Path

structure StoredObject (uuid : UuidCrate) where
  key : ObjectKey uuid
  sha256 : Text
  sizeBytes : ℕ
  alreadyPresent : Bool

structure ObjectBody where
  sizeBytes : ℕ
  stream : Bytes
  deriving DecidableEq

/-- The chunks of a body, up to its end or its first error. -/
abbrev ByteStream := List (Except StreamError Bytes)

namespace Store

/-- A file system call whose error names the operation. -/
def io {α : Type} (operation : String) (p : Prog (Except IoError α)) : TryProg StorageError α :=
  mapError (StorageError.io operation) (attempt p)

def createPrivateDir (path : Path) : TryProg StorageError Unit := do
  io "create storage directory" (await (.createDirAll path))
  io "restrict storage directory" (await (.setPermissions path 0o700))

/-- Write the chunks and gather what was hashed. -/
def writeChunks (name : Uuid) : ByteStream → Bytes → TryProg StorageError Bytes
  | [], hashed => return hashed
  | .error e :: _, _ => fail (.stream e)
  | .ok chunk :: rest, hashed => do
      io "write staging file" (await (.write name chunk))
      writeChunks name rest (hashed ++ chunk)

/-- The object is already stored under this path, in this size. -/
def isPresent (path : Path) (sizeBytes : ℕ) : TryProg StorageError Bool := do
  match ← lift (await (.stat path)) with
  | .ok metadata => return metadata.isFile && metadata.len = sizeBytes
  | .error .notFound => return false
  | .error source => fail (.io "stat stored object" source)

variable (store : Store)

/-- Move a complete staging file to its place, unless the object is there. -/
def publishStaging (name : Uuid) (ns : ObjectNamespace) (content : Bytes) :
    TryProg StorageError (StoredObject store.uuid) := do
  let sha256 := store.sha256.hex content
  let key ← ofExcept (ns.keyForDigest store.uuid sha256)
  let finalPath ← ofExcept (ObjectKey.resolveWithin store.objectsRoot key.raw)
  createPrivateDir finalPath.dropLast
  let alreadyPresent ← isPresent finalPath content.length
  if alreadyPresent then
    lift (await .dropGuard)
  else do
    io "publish staging file" (await (.rename name finalPath))
    lift (await .disarmGuard)
    lift (await (.syncDir finalPath.dropLast))
  return ⟨key, sha256, content.length, alreadyPresent⟩

def writeStaging (name : Uuid) (ns : ObjectNamespace) (body : ByteStream) :
    TryProg StorageError (StoredObject store.uuid) := do
  io "create staging file" (await (.createStaging name))
  let content ← writeChunks name body []
  io "flush staging file" (await (.flush name))
  io "fsync staging file" (await (.syncAll name))
  store.publishStaging name ns content

/-- Stream a body into the namespace.  The guard goes on every way out. -/
def putStream (ns : ObjectNamespace) (body : ByteStream) :
    TryProg StorageError (StoredObject store.uuid) := do
  let name ← lift (await .armStaging)
  match ← lift (store.writeStaging name ns body) with
  | .ok stored => return stored
  | .error e =>
      lift (await .dropGuard)
      fail e

/-- Open an object for reading. -/
def openObject (key : ObjectKey store.uuid) : TryProg StorageError ObjectBody := do
  let path ← ofExcept (ObjectKey.resolveWithin store.objectsRoot key.raw)
  match ← lift (await (.stat path)) with
  | .error .notFound => fail (.notFound key.raw)
  | .error source => fail (.io "stat object" source)
  | .ok metadata =>
      if metadata.isFile = false then
        fail (.invalidKey "stored path is not a regular file")
      else do
        let content ← io "open object" (await (.openFile path))
        return ⟨metadata.len, content⟩

/-- Remove the staging files that are old enough; a file that is gone is no
error. -/
def removeAll : List Uuid → ℕ → TryProg StorageError ℕ
  | [], removed => return removed
  | name :: rest, removed => do
      match ← lift (await (.removeStaging name)) with
      | .ok () => removeAll rest (removed + 1)
      | .error .notFound => removeAll rest removed
      | .error source => fail (.io "remove staging entry" source)

def sweepStaging (olderThan : ℕ) : TryProg StorageError ℕ := do
  let names ← io "read staging directory" (await (.readStaging olderThan))
  removeAll names 0

/-- The valid keys among the listed objects. -/
def listObjects (limit : ℕ) : TryProg StorageError (List (ObjectKey store.uuid) × Bool) := do
  let (names, truncated) ← io "read objects directory" (await (.listObjects limit))
  return (names.filterMap fun raw ↦ (ObjectKey.parse store.uuid raw).toOption, truncated)

end Store

end Otdel
