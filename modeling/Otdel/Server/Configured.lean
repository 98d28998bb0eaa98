import Otdel.Api.Session
import Otdel.Db.SessionLifetime
import Otdel.Worker.Maintenance

/-!
# An accepted configuration

The durations that `Config::load` accepts are those that the session functions
accept, in the server and in the worker.  A slug may be longer than the bureaus
table allows.
-/

namespace Otdel

open Program

namespace Maintenance

/-- The idle timeout that the worker goes by. -/
def idleTimeout (config : Config) : ℤ := (tryI32 config.sessionIdleTimeout).getD 7200

/-- A maintenance pass starts with this. -/
def purgeSessions (config : Config) : TrySessionProg MaintenanceError ℕ :=
  Program.mapError .db (Sessions.purgeExpired (idleTimeout config))

end Maintenance

/-- No call of the function raises one of its range exceptions. -/
def SessionOp.InRange (op : SessionOp) : Prop :=
  ∀ bureaus now rows, (op.run bureaus now rows).1 ≠ .opened (.error .ttlOutOfRange) ∧
    (op.run bureaus now rows).1 ≠ .touched (.error .idleOutOfRange) ∧
      (op.run bureaus now rows).1 ≠ .purged (.error .idleOutOfRange)

/-- The database layer can run with the configuration. -/
structure Config.Runs (config : Config) : Prop where
  /-- A login opens a session for the configured time. -/
  login : ∀ sha256 token csrfToken id, (Auth.openSession sha256 config token csrfToken id).head? =
    some (.open config.bureauSlug (tokenFingerprint sha256 token) csrfToken config.sessionTtl id)
  /-- A request with a token touches its session with the configured timeout. -/
  extractor : ∀ http sha256 parts token, Auth.requestToken http parts.headers config = some token →
    token ≠ [] → (Auth.Session.fromRequestParts http sha256 config parts).head? =
      some (.touch (tokenFingerprint sha256 token) config.sessionIdleTimeout)
  /-- The worker purges with the same timeout. -/
  worker : (Maintenance.purgeSessions config).head? =
    some (.purgeExpired config.sessionIdleTimeout)
  opens : ∀ slug fingerprint csrfToken id,
    (SessionOp.open slug fingerprint csrfToken config.sessionTtl id).InRange
  touches : ∀ fingerprint, (SessionOp.touch fingerprint config.sessionIdleTimeout).InRange
  purges : (SessionOp.purgeExpired config.sessionIdleTimeout).InRange
  /-- The bureau can be provisioned. -/
  bureau : ∀ id, (BureauRow.ofSlug config.bureauSlug id).check = true

variable (config : Config)

namespace Config

theorem head?_openSession (sha256 : Sha256) (token csrfToken : Text) (id : Uuid) :
    (Auth.openSession sha256 config token csrfToken id).head? = some (.open config.bureauSlug
      (tokenFingerprint sha256 token) csrfToken config.sessionTtl id) := by
  rw [Auth.openSession, config.tryI32_sessionTtl]
  rfl

theorem head?_fromRequestParts (http : HttpCrate) (sha256 : Sha256) {parts : RequestParts}
    {token : Text} (htoken : Auth.requestToken http parts.headers config = some token) (hne : token ≠ []) :
    (Auth.Session.fromRequestParts http sha256 config parts).head? =
      some (.touch (tokenFingerprint sha256 token) config.sessionIdleTimeout) := by
  have hfilter : (Auth.requestToken http parts.headers config).filter (fun token ↦ !token.isEmpty) =
      some token := by
    rw [htoken, Option.filter_some, if_pos (by simpa using hne)]
  rw [Auth.Session.fromRequestParts, hfilter, config.tryI32_idleTimeout]
  rfl

theorem head?_purgeSessions : (Maintenance.purgeSessions config).head? =
    some (.purgeExpired config.sessionIdleTimeout) := by
  rw [Maintenance.purgeSessions, Maintenance.idleTimeout, config.tryI32_idleTimeout]
  rfl

theorem newSession_ne_ttlOutOfRange {bureaus : List BureauRow} {slug fingerprint csrfToken : Text}
    {ttlSeconds : ℤ} {id : Uuid} {now : ℤ} (hmin : 60 ≤ ttlSeconds) (hmax : ttlSeconds ≤ 604800) :
    Sessions.newSession bureaus slug fingerprint csrfToken ttlSeconds id now ≠
      .error .ttlOutOfRange := by
  rw [Sessions.newSession, if_neg (by omega)]
  split
  · simp
  · split <;> simp

theorem open_inRange (slug fingerprint csrfToken : Text) (id : Uuid) :
    (SessionOp.open slug fingerprint csrfToken config.sessionTtl id).InRange := by
  intro bureaus now rows
  have hmin := config.ttl.1
  have hmax := config.ttl.2
  simp only [sessionSecondsMin, sessionTtlMax] at hmin hmax
  have hnew : Sessions.newSession bureaus slug fingerprint csrfToken config.sessionTtl id now ≠
      .error .ttlOutOfRange := newSession_ne_ttlOutOfRange (by omega) (by omega)
  rw [Sessions.run_open_eq]
  cases h : Sessions.newSession bureaus slug fingerprint csrfToken config.sessionTtl id now with
  | error e =>
      rw [h] at hnew
      refine ⟨fun heq ↦ hnew (congrArg _ (Except.error.inj (SessionAnswer.opened.inj heq))), ?_, ?_⟩
      · intro heq
        cases heq
      · intro heq
        cases heq
  | ok row =>
      dsimp only
      split <;> refine ⟨?_, ?_, ?_⟩ <;> intro heq <;> cases heq

theorem touch_inRange (fingerprint : Text) :
    (SessionOp.touch fingerprint config.sessionIdleTimeout).InRange := by
  intro bureaus now rows
  rw [Sessions.run_touch config.sixty_le_idleTimeout]
  exact ⟨nofun, nofun, nofun⟩

theorem purge_inRange : (SessionOp.purgeExpired config.sessionIdleTimeout).InRange := by
  intro bureaus now rows
  rw [Sessions.run_purge config.sixty_le_idleTimeout]
  exact ⟨nofun, nofun, nofun⟩

/-- Everything but the length of the slug is as the database wants it. -/
theorem runs_iff : config.Runs ↔ config.bureauSlug.length ≤ 64 := by
  have hcheck := fun id ↦ check_ofSlug_iff config.slug.1 config.slug.2 id
  constructor
  · exact fun h ↦ (hcheck default).mp (h.bureau default)
  · exact fun h ↦ {
      login := fun sha256 token csrfToken id ↦ config.head?_openSession sha256 token csrfToken id
      extractor := fun http sha256 _ _ ↦ config.head?_fromRequestParts http sha256
      worker := config.head?_purgeSessions
      opens := config.open_inRange
      touches := config.touch_inRange
      purges := config.purge_inRange
      bureau := fun id ↦ (hcheck id).mpr h }

variable {config}

/-- The slug is the value of its variable. -/
theorem bureauSlug_of_load {readers : ConfigReaders} {source : ConfigSource}
    (h : load readers source = .ok config) :
    config.bureauSlug = stringOr source "OTDEL_BUREAU_SLUG" "local" := by
  simp only [load, bind_eq_ok] at h
  obtain ⟨_, -, _, -, _, -, _, -, _, -, _, -, _, -, -, -, _, -, _, -, _, -, _, -, _, -, _, -, _, -,
    _, -, _, -, _, -, _, -, _, -, _, -, _, -, _, -, _, -, h⟩ := h
  cases h
  rfl

/-- An accepted configuration is one the database can run with, unless its slug is too long. -/
theorem runs_of_load_iff {readers : ConfigReaders} {source : ConfigSource}
    (h : load readers source = .ok config) :
    config.Runs ↔ (stringOr source "OTDEL_BUREAU_SLUG" "local").length ≤ 64 := by
  rw [runs_iff, bureauSlug_of_load h]

/-! ## A slug that is too long -/

theorem runs_of_load_iff_local : ∃ config,
    load sampleReaders (sampleSource "OTDEL_BUREAU_SLUG" "local".toList) = .ok config ∧ config.Runs := by
  have hload : (load sampleReaders (sampleSource "OTDEL_BUREAU_SLUG" "local".toList)).isOk = true := by decide +kernel
  obtain ⟨config, hok⟩ := exists_of_isOk hload
  exact ⟨config, hok, (runs_of_load_iff hok).mpr (by decide +kernel)⟩

theorem long_slug_accepted : ∃ config,
    load sampleReaders (sampleSource "OTDEL_BUREAU_SLUG" (List.replicate 65 'a')) = .ok config ∧ ¬ config.Runs := by
  have hload : (load sampleReaders (sampleSource "OTDEL_BUREAU_SLUG" (List.replicate 65 'a'))).isOk = true := by
    decide +kernel
  obtain ⟨config, hok⟩ := exists_of_isOk hload
  refine ⟨config, hok, ?_⟩
  rw [runs_iff, bureauSlug_of_load hok]
  decide +kernel

end Config

end Otdel
