import Otdel.Core.Error

/-!
# Configuration

Everything the server needs comes from `OTDEL_*` variables.  A configuration
carries the conditions that `Config::load` has checked.
-/

namespace Otdel

def sessionSecondsMin : ℕ := 60

/-- A week. -/
def sessionTtlMax : ℕ := 7 * 24 * 3600

def maxUploadLimit : ℕ := 512 * 1024 * 1024

/-- Where configuration values come from. -/
abbrev ConfigSource := String → Option Text

/-- What is read by other libraries: socket addresses, and the algorithm of a PHC string. -/
structure ConfigReaders where
  isSocketAddr : Text → Bool
  phcAlgorithm : Text → Option Text

/-- Whether a string is a valid Argon2 PHC hash this server can verify against. -/
def ConfigReaders.isSupportedPasswordHash (readers : ConfigReaders) (value : Text) : Bool :=
  match readers.phcAlgorithm value with
  | some algorithm => "argon2".toList.isPrefixOf algorithm
  | none => false

inductive RuntimeEnv where
  | local
  | production
  deriving DecidableEq, Repr

namespace RuntimeEnv

def parse (value : Text) : Except AppError RuntimeEnv :=
  let lowered := (Text.trim value).map Text.toAsciiLowercase
  if lowered = "local".toList ∨ lowered = "development".toList ∨ lowered = "dev".toList then
    .ok «local»
  else if lowered = "production".toList ∨ lowered = "prod".toList then .ok production
  else .error (.validation ("OTDEL_ENV must be `local` or `production`, got `" ++
    String.ofList lowered ++ "`"))

end RuntimeEnv

/-- `i32::try_from`, for a number of seconds. -/
def tryI32 (seconds : ℕ) : Option ℤ := if seconds < 2 ^ 31 then some seconds else none

structure LoginThrottleConfig where
  maxFailures : ℕ
  window : ℕ
  lockout : ℕ
  deriving DecidableEq, Repr

/-- `c.is_ascii_lowercase() || c.is_ascii_digit() || c == '-'`. -/
def isSlugChar (c : Char) : Bool := ('a' ≤ c && c ≤ 'z') || ('0' ≤ c && c ≤ '9') || c = '-'

/-- `c.is_ascii_alphanumeric() || c == '_' || c == '-'`. -/
def isCookieNameChar (c : Char) : Bool :=
  ('a' ≤ c && c ≤ 'z') || ('A' ≤ c && c ≤ 'Z') || ('0' ≤ c && c ≤ '9') || c = '_' || c = '-'

def isOrigin (origin : Text) : Bool :=
  "http://".toList.isPrefixOf origin || "https://".toList.isPrefixOf origin

structure Config where
  env : RuntimeEnv
  bindAddr : Text
  databaseUrl : Text
  databaseAdminUrl : Option Text
  databaseMaxConnections : ℕ
  bureauSlug : Text
  ownerPasswordHash : Text
  storageRoot : Text
  corsAllowedOrigins : List Text
  sessionTtl : ℕ
  sessionIdleTimeout : ℕ
  cookieName : Text
  cookieSecure : Bool
  maxUploadBytes : ℕ
  loginThrottle : LoginThrottleConfig
  logFilter : Text
  slug : bureauSlug ≠ [] ∧ bureauSlug.all isSlugChar = true
  ttl : sessionSecondsMin ≤ sessionTtl ∧ sessionTtl ≤ sessionTtlMax
  idleTimeout : sessionSecondsMin ≤ sessionIdleTimeout
  idleWithinTtl : sessionIdleTimeout ≤ sessionTtl
  cookie : cookieName ≠ [] ∧ cookieName.all isCookieNameChar = true
  secure : env = .production → cookieSecure = true
  uploadBytes : 0 < maxUploadBytes ∧ maxUploadBytes ≤ maxUploadLimit

namespace Config

def stringOr (source : ConfigSource) (key : String) (fallback : String) : Text :=
  match source key with
  | some value => if Text.trim value ≠ [] then Text.trim value else fallback.toList
  | none => fallback.toList

/-- What looks like an example value rather than a secret. -/
def placeholderMarkers : List String :=
  ["changeme", "change-me", "placeholder", "example", "your-", "secret-here", "todo", "xxxxx"]

def looksLikePlaceholder (value : Text) : Bool :=
  let normalised := (Text.trim value).map Text.toAsciiLowercase
  normalised.isEmpty || placeholderMarkers.any fun marker ↦ marker.toList <:+: normalised

def placeholderError (key : String) : AppError :=
  .validation (key ++ " still contains an empty or example value; generate local credentials " ++
    "with `scripts/dev-init.sh` (the server refuses to start with a known placeholder)")

def requiredSecret (source : ConfigSource) (key : String) : Except AppError Text := do
  let value ← okOr (.validation (key ++ " is not set")) (source key)
  if looksLikePlaceholder value then .error (placeholderError key) else .ok value

def parseBool (value : Text) (key : String) : Except AppError Bool :=
  let lowered := (Text.trim value).map Text.toAsciiLowercase
  if ["1", "true", "yes", "on"].any fun word ↦ word.toList = lowered then .ok true
  else if ["0", "false", "no", "off"].any fun word ↦ word.toList = lowered then .ok false
  else .error (.validation (key ++ " must be true or false"))

/-- `u64::from_str`: decimal digits after an optional `+`. -/
def parseU64 (value : Text) : Option ℕ :=
  let digits := match value with
    | '+' :: rest => rest
    | value => value
  if digits ≠ [] ∧ digits.all Char.isDigit then
    let number := Nat.ofDigits 10 (digits.reverse.map fun c ↦ c.toNat - '0'.toNat)
    if number < 2 ^ 64 then some number else none
  else none

def parseU64Or (source : ConfigSource) (key : String) (fallback : ℕ) : Except AppError ℕ :=
  match source key with
  | some value =>
      if Text.trim value ≠ [] then
        okOr (.validation (key ++ " must be a non-negative integer")) (parseU64 (Text.trim value))
      else .ok fallback
  | none => .ok fallback

/-- `u32::try_from`. -/
def toU32 (value : ℕ) (message : String) : Except AppError ℕ :=
  if value < 2 ^ 32 then .ok value else .error (.validation message)

def adminUrl (source : ConfigSource) : Except AppError (Option Text) :=
  match source "OTDEL_DATABASE_ADMIN_URL" with
  | some value =>
      if Text.trim value ≠ [] then
        if looksLikePlaceholder value then
          .error (placeholderError "OTDEL_DATABASE_ADMIN_URL")
        else .ok (some value)
      else .ok none
  | none => .ok none

/-- The entries of the list of allowed origins. -/
def originList (value : Text) : List Text :=
  ((value.splitOn ',').map Text.trim).filter fun entry ↦ entry ≠ []

def checkOrigins : List Text → Except AppError Unit
  | [] => .ok ()
  | origin :: rest =>
      if origin = "*".toList then
        .error (.validation ("OTDEL_CORS_ALLOWED_ORIGINS must list explicit origins; `*` is " ++
          "not allowed with credentialed requests"))
      else if isOrigin origin then checkOrigins rest
      else .error (.validation ("OTDEL_CORS_ALLOWED_ORIGINS entry `" ++ String.ofList origin ++
        "` must be a full origin, e.g. http://127.0.0.1:15173"))

def envOr (source : ConfigSource) : Except AppError RuntimeEnv :=
  match source "OTDEL_ENV" with
  | some value => RuntimeEnv.parse value
  | none => .ok .local

def secureOr (source : ConfigSource) (env : RuntimeEnv) : Except AppError Bool :=
  match source "OTDEL_COOKIE_SECURE" with
  | some value => parseBool value "OTDEL_COOKIE_SECURE"
  | none => .ok (env = .production)

def load (readers : ConfigReaders) (source : ConfigSource) : Except AppError Config := do
  let env ← envOr source
  let bindAddr := stringOr source "OTDEL_BIND_ADDR" "127.0.0.1:18480"
  let _ ← require (readers.isSocketAddr bindAddr = true)
    (AppError.validation "OTDEL_BIND_ADDR must be an address like 127.0.0.1:18480")
  let databaseUrl ← requiredSecret source "OTDEL_DATABASE_URL"
  let databaseAdminUrl ← adminUrl source
  let ownerPasswordHash ← requiredSecret source "OTDEL_OWNER_PASSWORD_HASH"
  let _ ← require (readers.isSupportedPasswordHash ownerPasswordHash = true)
    (AppError.validation ("OTDEL_OWNER_PASSWORD_HASH must be an Argon2 PHC hash; " ++
      "run `scripts/dev-init.sh` to generate the local owner credentials"))
  let bureauSlug := stringOr source "OTDEL_BUREAU_SLUG" "local"
  let slug ← require (bureauSlug ≠ [] ∧ bureauSlug.all isSlugChar = true)
    (AppError.validation "OTDEL_BUREAU_SLUG must be lowercase ASCII letters, digits or `-`")
  let storageRoot := stringOr source "OTDEL_STORAGE_ROOT" ".local/storage"
  let corsAllowedOrigins := originList (stringOr source "OTDEL_CORS_ALLOWED_ORIGINS"
    "http://127.0.0.1:15173,http://localhost:15173")
  checkOrigins corsAllowedOrigins
  let sessionTtl ← parseU64Or source "OTDEL_SESSION_TTL_SECONDS" (12 * 3600)
  let sessionIdleTimeout ← parseU64Or source "OTDEL_SESSION_IDLE_TIMEOUT_SECONDS" (2 * 3600)
  let ttl ← require (sessionSecondsMin ≤ sessionTtl ∧ sessionTtl ≤ sessionTtlMax)
    (AppError.validation "OTDEL_SESSION_TTL_SECONDS must be between 60 and 604800")
  let idleTimeout ← require (sessionSecondsMin ≤ sessionIdleTimeout)
    (AppError.validation ("OTDEL_SESSION_IDLE_TIMEOUT_SECONDS must be at least 60 " ++
      "(the database session functions reject anything shorter)"))
  let idleWithinTtl ← require (sessionIdleTimeout ≤ sessionTtl)
    (AppError.validation
      "OTDEL_SESSION_IDLE_TIMEOUT_SECONDS must not exceed OTDEL_SESSION_TTL_SECONDS")
  let cookieName := stringOr source "OTDEL_SESSION_COOKIE_NAME" "otdel_session"
  let cookie ← require (cookieName ≠ [] ∧ cookieName.all isCookieNameChar = true)
    (AppError.validation "OTDEL_SESSION_COOKIE_NAME must be alphanumeric with `_`/`-`")
  let cookieSecure ← secureOr source env
  let secure ← require (env = .production → cookieSecure = true)
    (AppError.validation "OTDEL_COOKIE_SECURE cannot be disabled when OTDEL_ENV=production")
  let maxUploadBytes ← parseU64Or source "OTDEL_MAX_UPLOAD_BYTES" (25 * 1024 * 1024)
  let uploadBytes ← require (0 < maxUploadBytes ∧ maxUploadBytes ≤ maxUploadLimit)
    (AppError.validation "OTDEL_MAX_UPLOAD_BYTES must be between 1 and 536870912")
  let failures ← parseU64Or source "OTDEL_LOGIN_MAX_FAILURES" 10
  let maxFailures ← toU32 failures "OTDEL_LOGIN_MAX_FAILURES is too large"
  let window ← parseU64Or source "OTDEL_LOGIN_FAILURE_WINDOW_SECONDS" 900
  let lockout ← parseU64Or source "OTDEL_LOGIN_LOCKOUT_SECONDS" 900
  let connections ← parseU64Or source "OTDEL_DATABASE_MAX_CONNECTIONS" 8
  let maxConnections ← toU32 connections "OTDEL_DATABASE_MAX_CONNECTIONS is too large"
  let logFilter := stringOr source "OTDEL_LOG" "info,otdel_api=info,sqlx=warn"
  return {
    env, bindAddr, databaseUrl, databaseAdminUrl
    databaseMaxConnections := min (max maxConnections 1) 64
    bureauSlug, ownerPasswordHash, storageRoot, corsAllowedOrigins, sessionTtl
    sessionIdleTimeout, cookieName, cookieSecure, maxUploadBytes
    loginThrottle := ⟨max maxFailures 1, window, lockout⟩
    logFilter
    slug := slug.down
    ttl := ttl.down
    idleTimeout := idleTimeout.down
    idleWithinTtl := idleWithinTtl.down
    cookie := cookie.down
    secure := secure.down
    uploadBytes := uploadBytes.down }

/-- Readers that are right about the values below. -/
def sampleReaders : ConfigReaders where
  isSocketAddr addr := addr = "127.0.0.1:18480".toList
  phcAlgorithm value :=
    match value.splitOn '$' with
    | [[], algorithm, _, _, _, _] => some algorithm
    | _ => none

/-- The required variables, and one more. -/
def sampleSource (key : String) (value : Text) : ConfigSource
  | "OTDEL_DATABASE_URL" => some "postgres://otdel_app:pw@127.0.0.1:58432/otdel".toList
  | "OTDEL_OWNER_PASSWORD_HASH" =>
      some ("$argon2id$v=19$m=19456,t=2,p=1$c2FsdHNhbHQ$" ++
        "aGFzaGhhc2hoYXNoaGFzaGhhc2hoYXNoaGFzaGhhc2g").toList
  | other => if other = key then some value else none

variable (config : Config)

theorem tryI32_sessionTtl : tryI32 config.sessionTtl = some (config.sessionTtl : ℤ) := by
  have hmax := config.ttl.2
  simp only [sessionTtlMax] at hmax
  exact if_pos (by omega)

theorem tryI32_idleTimeout :
    tryI32 config.sessionIdleTimeout = some (config.sessionIdleTimeout : ℤ) := by
  have hmax := config.idleWithinTtl.trans config.ttl.2
  simp only [sessionTtlMax] at hmax
  exact if_pos (by omega)

theorem sixty_le_idleTimeout : (60 : ℤ) ≤ config.sessionIdleTimeout := by
  have hmin := config.idleTimeout
  simp only [sessionSecondsMin] at hmin
  omega

end Config

end Otdel
