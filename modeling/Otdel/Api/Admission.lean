import Otdel.Api.Headers
import Otdel.Db.SessionLifetime

/-!
# Who is let in

A request is legitimate when its cookie names a live session and, if it changes
state, its origin is allowed and it carries the CSRF token of the session.
-/

namespace Otdel

/-- The rows of `otdel.sessions`, which hold no token twice. -/
structure SessionTable where
  rows : List SessionRow
  unique : Sessions.Unique rows

namespace Auth

open Program

variable (http : HttpCrate) (sha256 : Sha256) (config : Config) (table : SessionTable) (now : ℤ)
  (parts : RequestParts)

/-- What the extractor answers at a moment, over the rows of that moment. -/
def admission : Except ApiError Session :=
  eval (fun op ↦ (op.run [] now table.rows).1) (Session.fromRequestParts http sha256 config parts)

/-- A method other than `GET`, `HEAD` and `OPTIONS`. -/
def Changes (method : Method) : Prop := method ≠ .get ∧ method ≠ .head ∧ method ≠ .options

/-- The bytes of an allowed origin. -/
def Allows (value : Bytes) : Prop := ∃ allowed ∈ config.corsAllowedOrigins, value = allowed.utf8Bytes

/-- The first `Cookie` header, if there is one, is visible ASCII. -/
def ReadableCookie : Prop :=
  ∀ value, http.get parts.headers "cookie" = some value → value.all isVisibleAscii = true

/-- The first `Cookie` header names the token of this live session. -/
def Authenticates (record : SessionRecord) : Prop :=
  ∃ header token, http.get parts.headers "cookie" = some header.utf8Bytes ∧
    NamesCookie config.cookieName header token ∧ token ≠ [] ∧
      ∃ row ∈ table.rows, row.tokenFingerprint = tokenFingerprint sha256 token ∧
        row.isLive config.sessionIdleTimeout now = true ∧ row.record = record

/-- The request carries the CSRF token of this session. -/
def CarriesCsrf (record : SessionRecord) : Prop :=
  http.get parts.headers "x-csrf-token" = some record.csrfToken.utf8Bytes ∧ record.csrfToken ≠ []

structure Legitimate (record : SessionRecord) : Prop where
  cookie : Authenticates http sha256 config table now parts record
  origin : Changes parts.method →
    ∀ value, http.get parts.headers "origin" = some value → Allows config value
  csrf : Changes parts.method → CarriesCsrf http parts record

/-- Some `Origin` header is not the bytes of an allowed origin. -/
def ForeignOrigin : Prop := ∃ value, ("origin", value) ∈ parts.headers ∧ ¬ Allows config value

/-- Exactly the legitimate requests are let in. -/
structure AdmitsExactly : Prop where
  sound : ∀ session, admission http sha256 config table now parts = .ok session →
    ∃ record, Legitimate http sha256 config table now parts record ∧
      session = Session.ofRecord record
  complete : ∀ record, Legitimate http sha256 config table now parts record →
    ReadableCookie http parts →
      admission http sha256 config table now parts = .ok (Session.ofRecord record)
  origin : Changes parts.method → ForeignOrigin config parts →
    ∀ session, admission http sha256 config table now parts ≠ .ok session

/-! ## The checks -/

variable {http sha256 config table now parts}

theorem changesState_iff {method : Method} : changesState method = true ↔ Changes method := by
  simp only [changesState, Changes, Bool.not_eq_true', Bool.or_eq_false_iff,
    decide_eq_false_iff_not, and_assoc]

theorem requestToken_eq_some_iff {headers : HeaderMap} {token : Text} :
    requestToken http headers config = some token ↔
      ∃ header : Text, http.get headers "cookie" = some header.utf8Bytes ∧
        header.utf8Bytes.all isVisibleAscii = true ∧
          NamesCookie config.cookieName header token := by
  simp only [requestToken, Option.bind_eq_some_iff, http.toStr_eq_some_iff,
    readCookie_eq_some_iff]
  constructor
  · rintro ⟨header, ⟨value, hget, hvisible, rfl⟩, hnames⟩
    exact ⟨header, hget, hvisible, hnames⟩
  · rintro ⟨header, hget, hvisible, hnames⟩
    exact ⟨header, ⟨_, hget, hvisible, rfl⟩, hnames⟩

/-- An origin passes if it is missing, unreadable or allowed. -/
theorem checkOrigin_eq_ok_iff {headers : HeaderMap} :
    checkOrigin http headers config = .ok () ↔
      ∀ value, http.get headers "origin" = some value → value.all isVisibleAscii = true →
        Allows config value := by
  unfold checkOrigin
  cases hget : http.get headers "origin" with
  | none => simp
  | some value =>
      cases hread : http.toStr value with
      | none =>
          have hunreadable := http.toStr_eq_none_iff.mp hread
          simp only [Option.bind_some, hread, Option.some.injEq, forall_eq', hunreadable,
            Bool.false_eq_true, false_implies]
      | some origin =>
          obtain ⟨hvisible, rfl⟩ := (http.toStr_eq_some_iff _ _).mp hread
          have hallows : Allows config origin.utf8Bytes ↔
              config.corsAllowedOrigins.any (fun allowed ↦ allowed = origin) = true := by
            rw [List.any_eq_true]
            apply exists_congr
            intro allowed
            rw [Text.utf8Bytes_injective.eq_iff, decide_eq_true_eq, eq_comm]
          simp only [Option.bind_some, hread, Option.some.injEq, forall_eq', hvisible,
            forall_const, hallows]
          split <;> simp_all

theorem provided_eq_some_iff {headers : HeaderMap} {name : String} {s : Text} :
    (http.get headers name).bind http.toStr = some s ↔
      http.get headers name = some s.utf8Bytes ∧ s.utf8Bytes.all isVisibleAscii = true := by
  simp only [Option.bind_eq_some_iff, http.toStr_eq_some_iff]
  constructor
  · rintro ⟨value, hget, hvisible, rfl⟩
    exact ⟨hget, hvisible⟩
  · rintro ⟨hget, hvisible⟩
    exact ⟨_, hget, hvisible, rfl⟩

theorem checkCsrf_eq_ok_iff {headers : HeaderMap} {expected : Text} :
    checkCsrf http headers expected = .ok () ↔
      (http.get headers "x-csrf-token" = some expected.utf8Bytes ∧ expected ≠ []) ∧
        expected.utf8Bytes.all isVisibleAscii = true := by
  rw [and_right_comm, ← provided_eq_some_iff, checkCsrf]
  cases (http.get headers "x-csrf-token").bind http.toStr with
  | none => simp
  | some provided =>
      simp only [Option.getD_some, List.isEmpty_iff, Option.some.injEq]
      split
      · rename_i hempty
        simp only [reduceCtorEq, false_iff, not_and, not_not]
        exact fun h ↦ h.symm.trans hempty
      · rename_i hne
        by_cases hmatch : expected = provided
        · subst hmatch
          simp [tokensMatch_iff.mpr rfl, hne]
        · have hfalse : tokensMatch expected provided = false := by
            rw [← Bool.not_eq_true, tokensMatch_iff]
            exact hmatch
          simp [hfalse, Ne.symm hmatch]

theorem touch_answer (fingerprint : Text) (config : Config) :
    ((SessionOp.touch fingerprint config.sessionIdleTimeout).run [] now table.rows).1 =
      .touched (.ok ((table.rows.find? (Sessions.isTouched fingerprint
        config.sessionIdleTimeout now)).map SessionRow.record)) := by
  rw [Sessions.run_touch config.sixty_le_idleTimeout]

/-- The touch of a token finds its live session. -/
theorem find_isTouched_eq_some_iff {fingerprint : Text} {idleSeconds : ℤ} {row : SessionRow} :
    table.rows.find? (Sessions.isTouched fingerprint idleSeconds now) = some row ↔
      row ∈ table.rows ∧ row.tokenFingerprint = fingerprint ∧
        row.isLive idleSeconds now = true := by
  constructor
  · intro h
    have htouched := List.find?_some h
    simp only [Sessions.isTouched, SessionRow.hasFingerprint, Bool.and_eq_true,
      decide_eq_true_eq] at htouched
    exact ⟨List.mem_of_find?_eq_some h, htouched⟩
  · rintro ⟨hrow, rfl, hlive⟩
    rw [Sessions.find_isTouched table.unique hrow, if_pos hlive]

theorem eval_touch (fingerprint : Text) (config : Config) :
    eval (fun op ↦ (op.run [] now table.rows).1)
        (Sessions.touch fingerprint config.sessionIdleTimeout) =
      .ok ((table.rows.find? (Sessions.isTouched fingerprint
        config.sessionIdleTimeout now)).map SessionRow.record) := by
  simp only [Sessions.touch, eval_andThen, eval_lift, eval_perform, touch_answer]
  rfl

theorem eval_checks (answer : (op : SessionOp) → SessionAnswer) {record : SessionRecord}
    {session : Session} :
    eval answer (if changesState parts.method then (do
        Program.ofExcept (checkOrigin http parts.headers config)
        Program.ofExcept (checkCsrf http parts.headers record.csrfToken)
        return Session.ofRecord record)
      else (do return Session.ofRecord record) : TrySessionProg ApiError Session) =
        Except.ok session ↔
      session = Session.ofRecord record ∧ (Changes parts.method →
        checkOrigin http parts.headers config = .ok () ∧
          checkCsrf http parts.headers record.csrfToken = .ok ()) := by
  split
  · rename_i hchanges
    simp only [eval_andThen, eval_ofExcept, eval_return, bind_eq_ok, Except.ok.injEq,
      changesState_iff.mp hchanges, forall_const]
    constructor
    · rintro ⟨⟨⟩, horigin, ⟨⟩, hcsrf, rfl⟩
      exact ⟨rfl, horigin, hcsrf⟩
    · rintro ⟨rfl, horigin, hcsrf⟩
      exact ⟨(), horigin, (), hcsrf, rfl⟩
  · rename_i hchanges
    rw [changesState_iff] at hchanges
    simp [hchanges, eq_comm]

theorem admit_eq_ok_iff {session : Session} :
    admission http sha256 config table now parts = .ok session ↔
      ∃ record, Authenticates http sha256 config table now parts record ∧ ReadableCookie http parts ∧
        session = Session.ofRecord record ∧ (Changes parts.method →
          checkOrigin http parts.headers config = .ok () ∧
            checkCsrf http parts.headers record.csrfToken = .ok ()) := by
  simp only [admission, Session.fromRequestParts, eval_andThen, eval_ofExcept, bind_eq_ok,
    config.tryI32_idleTimeout, okOr_eq_ok, Option.some.injEq, exists_eq_left', eval_mapError, eval_touch,
    mapError_eq_ok, Except.ok.injEq, eval_checks, Option.map_eq_some_iff,
    find_isTouched_eq_some_iff, Option.filter_eq_some_iff, requestToken_eq_some_iff]
  constructor
  · rintro ⟨token, ⟨⟨header, hget, hvisible, hnames⟩, hne⟩, record, ⟨row, hrow, hrecord⟩, hsession,
      hchecks⟩
    refine ⟨record, ⟨header, token, hget, hnames, by simpa using hne, row, hrow.1, hrow.2.1,
      hrow.2.2, hrecord⟩, ?_, hsession, hchecks⟩
    intro value hvalue
    cases hget.symm.trans hvalue
    exact hvisible
  · rintro ⟨record, ⟨header, token, hget, hnames, hne, row, hrow, htoken, hlive, hrecord⟩,
      hreadable, hsession, hchecks⟩
    exact ⟨token, ⟨⟨header, hget, hreadable _ hget, hnames⟩, by simpa using hne⟩, record,
      ⟨row, ⟨hrow, htoken, hlive⟩, hrecord⟩, hsession, hchecks⟩

/-! ## Where the extractor goes wrong -/

variable (http sha256 config table now parts)

/-- Everything but the origin is right, and the one origin that is looked at is allowed or
unreadable, but some origin is foreign. -/
structure OverlooksOrigin : Prop where
  changes : Changes parts.method
  readable : ReadableCookie http parts
  session : ∃ record, Authenticates http sha256 config table now parts record ∧
    CarriesCsrf http parts record ∧ record.csrfToken.utf8Bytes.all isVisibleAscii = true
  looked : ∀ value, http.get parts.headers "origin" = some value →
    value.all isVisibleAscii = true → Allows config value
  foreign : ForeignOrigin config parts

/-- The request is legitimate, but its CSRF token is not visible ASCII. -/
structure UnreadableCsrf : Prop where
  changes : Changes parts.method
  readable : ReadableCookie http parts
  session : ∃ record, Legitimate http sha256 config table now parts record ∧
    record.csrfToken.utf8Bytes.all isVisibleAscii = false

variable {http sha256 config table now parts}

/-- A request authenticates one session. -/
theorem Authenticates.unique {record record' : SessionRecord}
    (h : Authenticates http sha256 config table now parts record)
    (h' : Authenticates http sha256 config table now parts record') : record = record' := by
  obtain ⟨header, token, hget, hnames, -, row, hrow, htoken, -, rfl⟩ := h
  obtain ⟨header', token', hget', hnames', -, row', hrow', htoken', -, rfl⟩ := h'
  cases Text.utf8Bytes_injective (Option.some.inj (hget.symm.trans hget'))
  rw [← readCookie_eq_some_iff] at hnames hnames'
  cases hnames.symm.trans hnames'
  rw [table.unique.eq_of_mem hrow hrow' (htoken.trans htoken'.symm)]

theorem OverlooksOrigin.admits (h : OverlooksOrigin http sha256 config table now parts) :
    ∃ session, admission http sha256 config table now parts = .ok session := by
  obtain ⟨record, hsession, hcsrf, hvisible⟩ := h.session
  refine ⟨_, admit_eq_ok_iff.mpr ⟨record, hsession, h.readable, rfl, fun _ ↦ ⟨?_, ?_⟩⟩⟩
  · exact checkOrigin_eq_ok_iff.mpr h.looked
  · exact checkCsrf_eq_ok_iff.mpr ⟨hcsrf, hvisible⟩

theorem OverlooksOrigin.not_admitsExactly (h : OverlooksOrigin http sha256 config table now parts) :
    ¬ AdmitsExactly http sha256 config table now parts := by
  intro hexact
  obtain ⟨session, hadmit⟩ := h.admits
  exact hexact.origin h.changes h.foreign session hadmit

theorem UnreadableCsrf.not_admitsExactly (h : UnreadableCsrf http sha256 config table now parts) :
    ¬ AdmitsExactly http sha256 config table now parts := by
  intro hexact
  obtain ⟨record, hlegitimate, hunreadable⟩ := h.session
  obtain ⟨record', hsession, -, -, hchecks⟩ :=
    admit_eq_ok_iff.mp (hexact.complete record hlegitimate h.readable)
  cases hlegitimate.cookie.unique hsession
  have hvisible := (checkCsrf_eq_ok_iff.mp (hchecks h.changes).2).2
  rw [hunreadable] at hvisible
  cases hvisible

/-- The origins that are looked at, and no others, are the foreign ones. -/
theorem allows_of_get {value : Bytes} (h : ¬ ForeignOrigin config parts)
    (hget : http.get parts.headers "origin" = some value) : Allows config value := by
  by_contra hforeign
  exact h ⟨value, http.mem_of_get hget, hforeign⟩

theorem admitsExactly_of_not (horigin : ¬ OverlooksOrigin http sha256 config table now parts)
    (hcsrf : ¬ UnreadableCsrf http sha256 config table now parts) :
    AdmitsExactly http sha256 config table now parts := by
  have hnot : ∀ session, admission http sha256 config table now parts = .ok session →
      Changes parts.method → ¬ ForeignOrigin config parts := by
    intro session hadmit hchanges hforeign
    obtain ⟨record, hsession, hreadable, -, hchecks⟩ := admit_eq_ok_iff.mp hadmit
    obtain ⟨hlooked, hcarries⟩ := hchecks hchanges
    exact horigin ⟨hchanges, hreadable, ⟨record, hsession, checkCsrf_eq_ok_iff.mp hcarries⟩,
      checkOrigin_eq_ok_iff.mp hlooked, hforeign⟩
  refine ⟨fun session hadmit ↦ ?_, fun record hlegitimate hreadable ↦ ?_,
    fun hchanges hforeign session hadmit ↦ hnot session hadmit hchanges hforeign⟩
  · obtain ⟨record, hsession, -, hrecord, hchecks⟩ := admit_eq_ok_iff.mp hadmit
    refine ⟨record, ⟨hsession, fun hchanges value hget ↦ ?_, fun hchanges ↦ ?_⟩, hrecord⟩
    · exact allows_of_get (hnot session hadmit hchanges) hget
    · exact (checkCsrf_eq_ok_iff.mp (hchecks hchanges).2).1
  · refine admit_eq_ok_iff.mpr ⟨record, hlegitimate.cookie, hreadable, rfl, fun hchanges ↦ ⟨?_, ?_⟩⟩
    · exact checkOrigin_eq_ok_iff.mpr fun value hget _ ↦ hlegitimate.origin hchanges value hget
    · refine checkCsrf_eq_ok_iff.mpr ⟨hlegitimate.csrf hchanges, ?_⟩
      by_contra hunreadable
      exact hcsrf ⟨hchanges, hreadable, record, hlegitimate, by simpa using hunreadable⟩

/-- Exactly the legitimate requests are let in, unless a foreign origin is overlooked or a
CSRF token cannot be read. -/
theorem admitsExactly_iff : AdmitsExactly http sha256 config table now parts ↔
    ¬ OverlooksOrigin http sha256 config table now parts ∧
      ¬ UnreadableCsrf http sha256 config table now parts := by
  constructor
  · exact fun h ↦ ⟨fun hnot ↦ hnot.not_admitsExactly h, fun hnot ↦ hnot.not_admitsExactly h⟩
  · exact fun h ↦ admitsExactly_of_not h.1 h.2

end Auth

/-! ## A foreign origin that cannot be read -/

namespace Auth

namespace EvilOrigin

def token : Text := "token".toList

/-- The digest of the token. -/
def sha256 : Sha256 where
  digest _ := [60, 70, 158, 157, 108, 88, 117, 211, 122, 67, 243, 83, 212, 248, 142, 97, 252, 248,
    18, 198, 110, 238, 52, 87, 70, 90, 64, 176, 218, 65, 83, 224]
  length_digest _ := rfl

/-- What `Config::load` makes of the two required variables. -/
def config : Config where
  env := .local
  bindAddr := "127.0.0.1:18480".toList
  databaseUrl := "postgres://otdel_app:pw@127.0.0.1:58432/otdel".toList
  databaseAdminUrl := none
  databaseMaxConnections := 8
  bureauSlug := "local".toList
  ownerPasswordHash := ("$argon2id$v=19$m=19456,t=2,p=1$c2FsdHNhbHQ$" ++
    "aGFzaGhhc2hoYXNoaGFzaGhhc2hoYXNoaGFzaGhhc2g").toList
  storageRoot := ".local/storage".toList
  corsAllowedOrigins := ["http://127.0.0.1:15173".toList, "http://localhost:15173".toList]
  sessionTtl := 43200
  sessionIdleTimeout := 7200
  cookieName := "otdel_session".toList
  cookieSecure := false
  maxUploadBytes := 26214400
  loginThrottle := ⟨10, 900, 900⟩
  logFilter := "info,otdel_api=info,sqlx=warn".toList
  slug := by decide
  ttl := by decide
  idleTimeout := by decide
  idleWithinTtl := by decide
  cookie := by decide
  secure := by decide
  uploadBytes := by decide

def row : SessionRow :=
  SessionRow.opened default (tokenFingerprint sha256 token) (List.replicate 43 'c') 43200 default 0

def table : SessionTable := ⟨[row], List.nodup_singleton _⟩

/-- The origin `http://evil.test`, with a byte behind it that is no ASCII. -/
def origin : Bytes := Text.utf8Bytes "http://evil.test".toList ++ [0xff]

def parts : RequestParts :=
  ⟨.post, [("cookie", Text.utf8Bytes ("otdel_session=".toList ++ token)), ("origin", origin),
    ("x-csrf-token", row.csrfToken.utf8Bytes)]⟩

theorem overlooked : OverlooksOrigin .reference sha256 config table 0 parts where
  changes := ⟨by decide, by decide, by decide⟩
  readable := by
    intro value hvalue
    cases hvalue
    decide
  session := by
    refine ⟨row.record, ⟨_, token, rfl, ?_, by decide, row, List.mem_singleton.mpr rfl, rfl, by decide,
      rfl⟩, ⟨rfl, by decide⟩, by decide⟩
    rw [← readCookie_eq_some_iff]
    decide +kernel
  looked := by
    intro value hvalue hvisible
    cases hvalue
    exact absurd hvisible (by decide)
  foreign := by
    refine ⟨origin, List.mem_cons_of_mem _ List.mem_cons_self, ?_⟩
    rintro ⟨allowed, hallowed, horigin⟩
    have hall : config.corsAllowedOrigins.all (fun allowed ↦ origin ≠ allowed.utf8Bytes) = true := by
      decide
    have hne := List.all_eq_true.mp hall allowed hallowed
    rw [decide_eq_true_eq] at hne
    exact hne horigin

end EvilOrigin

theorem unreadable_origin_admitted :
    ¬ AdmitsExactly .reference EvilOrigin.sha256 EvilOrigin.config EvilOrigin.table 0
      EvilOrigin.parts :=
  EvilOrigin.overlooked.not_admitsExactly

end Auth

end Otdel
