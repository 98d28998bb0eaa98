import Otdel.Api.Error
import Otdel.Api.Http
import Otdel.Storage.Store

/-!
# Streaming intake of one original file

The first bytes of the `file` part are held back until the signature is known;
the rest goes to the object store chunk by chunk, up to the size limit.
-/

namespace Otdel

open Program

/-- The configuration that the handlers read. -/
structure AppState where
  http : HttpCrate
  store : Store
  maxUploadBytes : ℕ

/-- A part of a multipart body.  An incomplete part ends in a transport error
after its chunks. -/
structure Field where
  name : Option Text
  fileName : Option Text
  contentType : Option Text
  chunks : List Bytes
  complete : Bool
  deriving DecidableEq

/-- A multipart body; one that is not well formed ends in a parse error. -/
structure Multipart where
  fields : List Field
  wellFormed : Bool
  deriving DecidableEq

/-- Outcome of a successful intake. -/
structure ReceivedFile (uuid : UuidCrate) where
  filename : Text
  mediaType : MediaType
  stored : StoredObject uuid

namespace Upload

def maxOtherFieldBytes : ℕ := 64 * 1024

def interrupted : ApiError :=
  .new (.badRequest "the upload was interrupted before the file was fully received")

/-- Read and ignore a part that is not the file. -/
def drainChunks (complete : Bool) : List Bytes → ℕ → Except ApiError ℕ
  | [], otherFieldBytes => if complete then .ok otherFieldBytes else .error interrupted
  | chunk :: rest, otherFieldBytes =>
      let otherFieldBytes := otherFieldBytes + chunk.length
      if otherFieldBytes > maxOtherFieldBytes then
        .error (.new (.new .payloadTooLarge
          "unexpected form fields are too large; send only the `file` part"))
      else drainChunks complete rest otherFieldBytes

/-- Hold back chunks until the signature can be recognised: what was held back
and what is left. -/
def holdBack (complete : Bool) : Bytes → List Bytes → Except ApiError (List Bytes × List Bytes)
  | head, chunks =>
      if signaturePrefixLen ≤ head.length then .ok ([], chunks)
      else match chunks with
        | [] => if complete then .ok ([], []) else .error interrupted
        | chunk :: rest =>
            (holdBack complete (head ++ chunk) rest).map fun r ↦ (chunk :: r.1, r.2)

/-- The remaining part of a field as a byte stream. -/
def fieldStream (complete : Bool) (chunks : List Bytes) : ByteStream :=
  chunks.map .ok ++ if complete then []
    else [.error (.mkUpstream "the upload was interrupted before the file was fully received")]

/-- Stop a stream as soon as the limit is passed. -/
def limitSize (maxBytes : ℕ) : ℕ → ByteStream → ByteStream
  | _, [] => []
  | _, .error e :: _ => [.error e]
  | written, .ok chunk :: rest =>
      let written := written + chunk.length
      if written > maxBytes then
        [.error (.mkTooLarge s!"file exceeds the {maxBytes}-byte upload limit")]
      else .ok chunk :: limitSize maxBytes written rest

def unsupportedMediaType (message : String) : ApiError :=
  .new (.new .unsupportedMediaType message)

/-- A declared type must not name another accepted format. -/
def checkDeclared (declared : Option Text) (mediaType : MediaType) : Except ApiError Unit :=
  match declared.bind MediaType.parse with
  | some parsed =>
      if parsed ≠ mediaType then
        .error (unsupportedMediaType
          s!"declared content type `{parsed.asStr}` does not match the file content ({mediaType.asStr})")
      else .ok ()
  | none => .ok ()

variable (state : AppState)

def readFileField (ns : ObjectNamespace) (field : Field) :
    TryProg ApiError (ReceivedFile state.store.uuid) := do
  let (head, rest) ← ofExcept (holdBack field.complete [] field.chunks)
  if head.flatten.isEmpty then
    fail (.new (.validation "the uploaded file is empty"))
  else do
    let mediaType ← ofExcept (okOr (unsupportedMediaType
      s!"file content is not one of the formats accepted in this phase ({MediaType.acceptedList})")
      (MediaType.detect head.flatten))
    ofExcept (checkDeclared field.contentType mediaType)
    let filename := Validate.displayFilename (field.fileName.getD []) mediaType
    let body := limitSize state.maxUploadBytes 0
      (head.map .ok ++ fieldStream field.complete rest)
    let stored ← mapError ApiError.ofStorageError (state.store.putStream ns body)
    return ⟨filename, mediaType, stored⟩

/-- Report, never delete, an object that was published while the request then
failed. -/
def reportOrphanedObject {uuid : UuidCrate} (stored : StoredObject uuid) : Prog Unit :=
  if stored.alreadyPresent then return ()
  else await (.report (.orphanedObject stored.key.raw stored.sizeBytes))

def receiveFields (ns : ObjectNamespace) (wellFormed : Bool) :
    List Field → Option (ReceivedFile state.store.uuid) → ℕ →
      TryProg ApiError (ReceivedFile state.store.uuid)
  | [], received, _ =>
      if wellFormed = false then
        fail (.new (.badRequest "request body is not valid multipart form data"))
      else ofExcept (okOr
        (.new (.validation "multipart request must contain a `file` part")) received)
  | field :: rest, received, otherFieldBytes =>
      if field.name ≠ some "file".toList then do
        let otherFieldBytes ← ofExcept (drainChunks field.complete field.chunks otherFieldBytes)
        receiveFields ns wellFormed rest received otherFieldBytes
      else match received with
        | some previous => do
            lift (reportOrphanedObject previous.stored)
            fail (.new (.validation "send exactly one file per request"))
        | none => do
            let file ← readFileField state ns field
            receiveFields ns wellFormed rest (some file) otherFieldBytes

/-- Read the `file` part of a multipart request into the object store. -/
def receiveFile (ns : ObjectNamespace) (multipart : Multipart) :
    TryProg ApiError (ReceivedFile state.store.uuid) :=
  receiveFields state ns multipart.wellFormed multipart.fields none 0

end Upload

end Otdel
