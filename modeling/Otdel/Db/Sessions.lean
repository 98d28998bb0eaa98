import Otdel.Db.Bureaus
import Otdel.Db.Sql

/-!
# Sessions

The rows of `otdel.sessions` and the functions of the schema that are the only
way to them.  Each is a single statement, so it sees one clock reading, in
microseconds.
-/

namespace Otdel

structure SessionRow where
  id : Uuid
  bureauId : Uuid
  tokenFingerprint : Text
  csrfToken : Text
  createdAt : ℤ
  lastSeenAt : ℤ
  expiresAt : ℤ
  deriving DecidableEq

/-- Server-side session state. -/
structure SessionRecord where
  sessionId : Uuid
  bureauId : Uuid
  csrfToken : Text
  expiresAt : ℤ
  deriving DecidableEq

/-- What the functions raise, and the constraints that an insert can violate. -/
inductive SessionError where
  | ttlOutOfRange
  | idleOutOfRange
  | notProvisioned (slug : Text)
  | uniqueViolation
  | checkViolation
  deriving DecidableEq

/-- The SQL states that the caller sees. -/
def SessionError.toDbError : SessionError → DbError
  | uniqueViolation => .database "23505" (some "sessions_token_fingerprint_key")
  | checkViolation => .database "23514" none
  | _ => .database "P0001" none

/-- `make_interval(secs => n)`. -/
def makeInterval (seconds : ℤ) : ℤ := seconds * 1000000

namespace SessionRow

def record (row : SessionRow) : SessionRecord where
  sessionId := row.id
  bureauId := row.bureauId
  csrfToken := row.csrfToken
  expiresAt := row.expiresAt

def fingerprintCheck (fingerprint : Text) : Bool := hexPattern fingerprint

/-- `char_length(csrf_token) BETWEEN 20 AND 200`. -/
def csrfCheck (csrfToken : Text) : Bool := 20 ≤ csrfToken.length && csrfToken.length ≤ 200

/-- The session has neither expired nor been idle for too long. -/
def isLive (idleSeconds : ℤ) (now : ℤ) (row : SessionRow) : Bool :=
  row.expiresAt > now && row.lastSeenAt > now - makeInterval idleSeconds

def hasFingerprint (fingerprint : Text) (row : SessionRow) : Bool :=
  row.tokenFingerprint = fingerprint

/-- The row that `session_open` inserts. -/
def opened (bureauId : Uuid) (fingerprint csrfToken : Text) (ttlSeconds : ℤ) (id : Uuid)
    (now : ℤ) : SessionRow where
  id := id
  bureauId := bureauId
  tokenFingerprint := fingerprint
  csrfToken := csrfToken
  createdAt := now
  lastSeenAt := now
  expiresAt := now + makeInterval ttlSeconds

end SessionRow

namespace Sessions

/-- The row that `session_open` is going to insert. -/
def newSession (bureaus : List BureauRow) (slug fingerprint csrfToken : Text) (ttlSeconds : ℤ)
    (id : Uuid) (now : ℤ) : Except SessionError SessionRow :=
  if ttlSeconds < 60 ∨ ttlSeconds > 604800 then .error .ttlOutOfRange
  else match bureaus.find? fun bureau ↦ bureau.slug = slug with
    | none => .error (.notProvisioned slug)
    | some bureau =>
        if SessionRow.fingerprintCheck fingerprint && SessionRow.csrfCheck csrfToken then
          .ok (SessionRow.opened bureau.id fingerprint csrfToken ttlSeconds id now)
        else .error .checkViolation

/-- `otdel.session_open`. -/
def sessionOpen (bureaus : List BureauRow) (slug fingerprint csrfToken : Text) (ttlSeconds : ℤ)
    (id : Uuid) (now : ℤ) (rows : List SessionRow) :
    Except SessionError (SessionRecord × List SessionRow) := do
  let row ← newSession bureaus slug fingerprint csrfToken ttlSeconds id now
  if rows.any (SessionRow.hasFingerprint fingerprint) then .error .uniqueViolation
  else .ok (row.record, rows ++ [row])

/-- The rows that `session_touch` updates. -/
def isTouched (fingerprint : Text) (idleSeconds : ℤ) (now : ℤ) (row : SessionRow) : Bool :=
  row.hasFingerprint fingerprint && row.isLive idleSeconds now

/-- `otdel.session_touch`, of which the caller fetches one row. -/
def sessionTouch (fingerprint : Text) (idleSeconds : ℤ) (now : ℤ) (rows : List SessionRow) :
    Except SessionError (Option SessionRecord × List SessionRow) :=
  if idleSeconds < 60 then .error .idleOutOfRange
  else .ok ((rows.find? (isTouched fingerprint idleSeconds now)).map SessionRow.record,
    rows.map fun row ↦
      if isTouched fingerprint idleSeconds now row then { row with lastSeenAt := now } else row)

/-- `otdel.session_close`. -/
def sessionClose (fingerprint : Text) (rows : List SessionRow) : ℕ × List SessionRow :=
  (rows.countP (SessionRow.hasFingerprint fingerprint),
    rows.filter fun row ↦ !row.hasFingerprint fingerprint)

/-- The rows that `session_purge_expired` deletes. -/
def isExpired (idleSeconds : ℤ) (now : ℤ) (row : SessionRow) : Bool :=
  row.expiresAt ≤ now || row.lastSeenAt ≤ now - makeInterval idleSeconds

/-- `otdel.session_purge_expired`. -/
def sessionPurgeExpired (idleSeconds : ℤ) (now : ℤ) (rows : List SessionRow) :
    Except SessionError (ℕ × List SessionRow) :=
  if idleSeconds < 60 then .error .idleOutOfRange
  else .ok (rows.countP (isExpired idleSeconds now),
    rows.filter fun row ↦ !isExpired idleSeconds now row)

end Sessions

/-! ## Steps -/

/-- The calls of the four functions. -/
inductive SessionOp where
  | open (slug fingerprint csrfToken : Text) (ttlSeconds : ℤ) (id : Uuid)
  | touch (fingerprint : Text) (idleSeconds : ℤ)
  | close (fingerprint : Text)
  | purgeExpired (idleSeconds : ℤ)
  deriving DecidableEq

inductive SessionAnswer where
  | opened (r : Except SessionError SessionRecord)
  | touched (r : Except SessionError (Option SessionRecord))
  | closed (removed : ℕ)
  | purged (r : Except SessionError ℕ)
  deriving DecidableEq

/-- A function that raises changes nothing. -/
def SessionOp.run (bureaus : List BureauRow) (now : ℤ) (rows : List SessionRow) :
    SessionOp → SessionAnswer × List SessionRow
  | .open slug fingerprint csrfToken ttlSeconds id =>
      match Sessions.sessionOpen bureaus slug fingerprint csrfToken ttlSeconds id now rows with
      | .ok (record, rows') => (.opened (.ok record), rows')
      | .error e => (.opened (.error e), rows)
  | .touch fingerprint idleSeconds =>
      match Sessions.sessionTouch fingerprint idleSeconds now rows with
      | .ok (record, rows') => (.touched (.ok record), rows')
      | .error e => (.touched (.error e), rows)
  | .close fingerprint =>
      let (removed, rows') := Sessions.sessionClose fingerprint rows
      (.closed removed, rows')
  | .purgeExpired idleSeconds =>
      match Sessions.sessionPurgeExpired idleSeconds now rows with
      | .ok (removed, rows') => (.purged (.ok removed), rows')
      | .error e => (.purged (.error e), rows)

end Otdel
