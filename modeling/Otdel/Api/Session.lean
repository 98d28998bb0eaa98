import Otdel.Api.Error
import Otdel.Api.Http
import Otdel.Core.Config
import Otdel.Db.Sessions
import Otdel.Library.Program
import Otdel.Storage.Store

/-!
# Authentication

A request is let in by its cookie; one that changes state must also come from an
allowed origin and carry the session's CSRF token.
-/

namespace Otdel

inductive Method where
  | get
  | head
  | options
  | post
  | put
  | patch
  | delete
  | connect
  | trace
  | extension (name : Text)
  deriving DecidableEq

structure RequestParts where
  method : Method
  headers : HeaderMap
  deriving DecidableEq

/-! ## Cookies and tokens -/

/-- `str::split_once`. -/
def splitOnce (sep : Char) (s : Text) : Option (Text × Text) :=
  match s.span fun c ↦ c ≠ sep with
  | (key, _ :: value) => some (key, value)
  | (_, []) => none

/-- Read one cookie value out of a `Cookie` header. -/
def readCookie (header : Text) (name : Text) : Option Text :=
  (header.splitOn ';').findSome? fun pair ↦
    (splitOnce '=' pair).bind fun (key, value) ↦
      if Text.trim key = name then some (Text.trim value) else none

/-- Fingerprint stored in the database instead of the token itself. -/
def tokenFingerprint (sha256 : Sha256) (token : Text) : Text := sha256.hex token.utf8Bytes

def tokensMatch (expected provided : Text) : Bool :=
  let expected := expected.utf8Bytes
  let provided := provided.utf8Bytes
  if expected.length ≠ provided.length then false else expected = provided

/-! ## Calls of the session functions -/

/-- A function of the server that calls the session functions. -/
abbrev TrySessionProg (ε α : Type) := Fallible SessionOp (fun _ ↦ SessionAnswer) ε α

namespace Sessions

open Program

/-- The id is drawn by the database. -/
def «open» (slug fingerprint csrfToken : Text) (ttlSeconds : ℤ) (id : Uuid) :
    TrySessionProg DbError SessionRecord := do
  match ← lift (perform (.open slug fingerprint csrfToken ttlSeconds id)) with
  | .opened r => ofExcept (r.mapError SessionError.toDbError)
  | _ => fail (.decode "session_open")

def touch (fingerprint : Text) (idleSeconds : ℤ) :
    TrySessionProg DbError (Option SessionRecord) := do
  match ← lift (perform (.touch fingerprint idleSeconds)) with
  | .touched r => ofExcept (r.mapError SessionError.toDbError)
  | _ => fail (.decode "session_touch")

/-- `true` if a record was removed. -/
def close (fingerprint : Text) : TrySessionProg DbError Bool := do
  match ← lift (perform (.close fingerprint)) with
  | .closed removed => return decide (0 < removed)
  | _ => fail (.decode "session_close")

def purgeExpired (idleSeconds : ℤ) : TrySessionProg DbError ℕ := do
  match ← lift (perform (.purgeExpired idleSeconds)) with
  | .purged r => ofExcept (r.mapError SessionError.toDbError)
  | _ => fail (.decode "session_purge_expired")

end Sessions

/-! ## The extractor -/

namespace Auth

open Program

/-- An authenticated request, already checked for CSRF when it changes state. -/
structure Session where
  sessionId : Uuid
  bureauId : Uuid
  csrfToken : Text
  expiresAt : ℤ
  deriving DecidableEq

def Session.ofRecord (record : SessionRecord) : Session :=
  ⟨record.sessionId, record.bureauId, record.csrfToken, record.expiresAt⟩

def changesState (method : Method) : Bool :=
  !(method = .get || method = .head || method = .options)

def checkCsrf (http : HttpCrate) (headers : HeaderMap) (expected : Text) :
    Except ApiError Unit :=
  let provided := ((http.get headers "x-csrf-token").bind http.toStr).getD []
  if provided.isEmpty then
    .error (.new (.new .invalidCsrfToken "X-CSRF-Token header is required for this request"))
  else if !tokensMatch expected provided then
    .error (.new (.new .invalidCsrfToken "X-CSRF-Token does not match this session"))
  else .ok ()

def checkOrigin (http : HttpCrate) (headers : HeaderMap) (config : Config) :
    Except ApiError Unit :=
  match (http.get headers "origin").bind http.toStr with
  | none => .ok ()
  | some origin =>
      if config.corsAllowedOrigins.any fun allowed ↦ allowed = origin then .ok ()
      else .error (.new (.forbidden "this request origin is not allowed"))

/-- The session token of a request. -/
def requestToken (http : HttpCrate) (headers : HeaderMap) (config : Config) : Option Text :=
  ((http.get headers "cookie").bind http.toStr).bind fun header ↦
    readCookie header config.cookieName

variable (http : HttpCrate) (sha256 : Sha256) (config : Config)

def Session.fromRequestParts (parts : RequestParts) : TrySessionProg ApiError Session := do
  let token ← ofExcept (okOr ApiError.unauthorized
    ((requestToken http parts.headers config).filter fun token ↦ !token.isEmpty))
  let fingerprint := tokenFingerprint sha256 token
  let idleTimeout ← ofExcept (okOr (ApiError.new (.internal "internal server error"))
    (tryI32 config.sessionIdleTimeout))
  let record ← mapError ApiError.ofDbError (Sessions.touch fingerprint idleTimeout)
  let record ← ofExcept (okOr ApiError.unauthorized record)
  if changesState parts.method then
    ofExcept (checkOrigin http parts.headers config)
    ofExcept (checkCsrf http parts.headers record.csrfToken)
    return Session.ofRecord record
  else
    return Session.ofRecord record

/-- The end of `POST /api/session`, with the tokens that were drawn for a right password. -/
def openSession (token csrfToken : Text) (id : Uuid) : TrySessionProg ApiError SessionRecord := do
  let fingerprint := tokenFingerprint sha256 token
  let ttlSeconds ← ofExcept (okOr (ApiError.new (.internal "internal server error"))
    (tryI32 config.sessionTtl))
  mapError (fun _ ↦ ApiError.new (.unavailable ("sessions are not available; check that the " ++
    "database is migrated and the bureau is provisioned")))
    (Sessions.open config.bureauSlug fingerprint csrfToken ttlSeconds id)

/-- `DELETE /api/session`, with the status of its answer. -/
def logout (parts : RequestParts) : TrySessionProg ApiError ℕ := do
  let _ ← Session.fromRequestParts http sha256 config parts
  let token := (requestToken http parts.headers config).getD []
  let fingerprint := tokenFingerprint sha256 token
  let _ ← mapError ApiError.ofDbError (Sessions.close fingerprint)
  return 200

end Auth

end Otdel
