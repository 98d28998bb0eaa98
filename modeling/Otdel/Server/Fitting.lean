import Otdel.Api.Session
import Otdel.Core.Token
import Otdel.Db.Storable
import Otdel.Server.Handlers

/-!
# What the server validates the database accepts

Every statement of the handlers that store what a client sends fits, and so does
the call that opens a session.
-/

namespace Otdel

open Program

def Op.Fits : Op → Prop
  | .sql s => s.Fits
  | _ => True

/-- The row that a call inserts can be stored, in whatever bureau. -/
def SessionOp.Fits : SessionOp → Prop
  | .open _ fingerprint csrfToken ttlSeconds id => ∀ bureauId now,
      (SessionRow.opened bureauId fingerprint csrfToken ttlSeconds id now).Storable
  | _ => True

/-! ## Partners -/

/-- What `otdel.partners` asks of a name and of a note. -/
def NameFits (name : Text) : Prop :=
  (1 ≤ (btrim name).length ∧ (btrim name).length ≤ 200) ∧ nul ∉ name

def NoteFits (note : Text) : Prop := note.length ≤ 10000 ∧ nul ∉ note

theorem partnerRow_storable_iff {row : PartnerRow} :
    row.Storable ↔ NameFits row.name ∧ ∀ note ∈ row.note, NoteFits note := by
  have hcheck : row.check = true ↔
      (1 ≤ (btrim row.name).length ∧ (btrim row.name).length ≤ 200) ∧
        ∀ note ∈ row.note, note.length ≤ 10000 := by
    cases hnote : row.note <;> simp [PartnerRow.check, hnote, and_assoc]
  constructor
  · rintro ⟨hrow, hname, hnote⟩
    obtain ⟨hlength, hlengths⟩ := hcheck.mp hrow
    exact ⟨⟨hlength, hname⟩, fun note h ↦ ⟨hlengths note h, hnote note h⟩⟩
  · rintro ⟨⟨hlength, hname⟩, hnotes⟩
    exact ⟨hcheck.mpr ⟨hlength, fun note h ↦ (hnotes note h).1⟩, hname, fun note h ↦ (hnotes note h).2⟩

/-- Spaces are whitespace, so `btrim` has nothing left to strip. -/
theorem nameFits_of_ok {raw name : Text} (h : Validate.partnerName raw = .ok name) :
    NameFits name := by
  obtain ⟨rfl, hne, hlength, hcontrol⟩ := Validate.partnerName_eq_ok h
  have hbtrim : btrim (Text.trim raw) = Text.trim raw := by
    apply Text.trimMatches_trimMatches
    intro c hc
    rw [of_decide_eq_true hc]
    decide
  refine ⟨?_, fun hmem ↦ ?_⟩
  · rw [hbtrim]
    exact ⟨List.length_pos_of_ne_nil hne, hlength⟩
  · simpa [isControl_nul] using List.all_eq_true.mp hcontrol nul hmem

theorem noteFits_of_ok {raw note : Option Text} (h : Validate.partnerNote raw = .ok note) :
    ∀ text ∈ note, NoteFits text := by
  rintro text rfl
  obtain ⟨hlength, hcontrol⟩ := Validate.partnerNote_eq_ok h
  refine ⟨hlength, fun hmem ↦ ?_⟩
  rcases hcontrol nul hmem isControl_nul with hnul | hnul
  · exact absurd hnul (by decide)
  · exact absurd hnul (by decide)

/-- A patch holds the values of the fields that the body names, after validation. -/
theorem patchOf_eq_ok {payload : PatchPartnerRequest} {patch : PartnerPatch}
    (h : Routes.patchOf payload = .ok patch) :
    (∀ name ∈ patch.name, ∃ raw, Validate.partnerName raw = .ok name) ∧
      ∀ note ∈ patch.note, ∃ raw, Validate.partnerNote raw = .ok note := by
  obtain ⟨rawName, rawNote⟩ := payload
  cases rawName with
  | none =>
      cases rawNote with
      | none =>
          simp only [Routes.patchOf, bind_eq_ok, guard_eq_ok, Except.ok.injEq] at h
          obtain ⟨name, rfl, note, rfl, -, rfl⟩ := h
          exact ⟨nofun, nofun⟩
      | some rawNote =>
          simp only [Routes.patchOf, bind_eq_ok, guard_eq_ok, map_eq_ok, Except.ok.injEq] at h
          obtain ⟨name, rfl, note, ⟨valid, hnote, rfl⟩, -, rfl⟩ := h
          refine ⟨nofun, ?_⟩
          intro note hmem
          cases hmem
          exact ⟨rawNote, hnote⟩
  | some rawName =>
      cases rawNote with
      | none =>
          simp only [Routes.patchOf, bind_eq_ok, guard_eq_ok, map_eq_ok, Except.ok.injEq] at h
          obtain ⟨name, ⟨valid, hname, rfl⟩, note, rfl, -, rfl⟩ := h
          refine ⟨?_, nofun⟩
          intro name hmem
          cases hmem
          exact ⟨rawName, hname⟩
      | some rawNote =>
          simp only [Routes.patchOf, bind_eq_ok, guard_eq_ok, map_eq_ok, Except.ok.injEq] at h
          obtain ⟨name, ⟨valid, hname, rfl⟩, note, ⟨valid', hnote, rfl⟩, -, rfl⟩ := h
          constructor
          · intro name hmem
            cases hmem
            exact ⟨rawName, hname⟩
          · intro note hmem
            cases hmem
            exact ⟨rawNote, hnote⟩

theorem fits_partnersInsert {bureauId : Uuid} {name : Text} {note : Option Text}
    (hname : NameFits name) (hnote : ∀ text ∈ note, NoteFits text) :
    (Sql.partnersInsert bureauId name note).Fits := fun _ _ ↦
  partnerRow_storable_iff.mpr ⟨hname, hnote⟩

theorem fits_partnersUpdate {bureauId partnerId : Uuid} {patch : PartnerPatch}
    (hname : ∀ name ∈ patch.name, NameFits name)
    (hnote : ∀ note ∈ patch.note, ∀ text ∈ note, NoteFits text) :
    (Sql.partnersUpdate bureauId partnerId patch.name patch.note.isSome
      (patch.note.getD none)).Fits := by
  intro row now hrow
  obtain ⟨holdName, holdNote⟩ := partnerRow_storable_iff.mp hrow
  rw [partnerRow_storable_iff]
  constructor
  · cases hpatch : patch.name with
    | none => simpa [hpatch] using holdName
    | some name => simpa [hpatch] using hname name hpatch
  · cases hpatch : patch.note with
    | none => simpa [hpatch] using holdNote
    | some note => simpa [hpatch] using hnote note hpatch

/-! ## Partners created and updated -/

theorem fits_brackets (bureauId : Uuid) : Op.Brackets Op.Fits bureauId :=
  ⟨trivial, trivial, trivial⟩

theorem fits_createPartner (session : Session) (payload : CreatePartnerRequest) :
    Calls Op.Fits (Routes.createPartner session payload) := by
  apply Routes.calls_createPartner (fits_brackets session.bureauId)
  intro name note hname hnote
  exact fits_partnersInsert (nameFits_of_ok hname) (noteFits_of_ok hnote)

theorem fits_updatePartner (session : Session) (partnerId : Uuid)
    (payload : PatchPartnerRequest) :
    Calls Op.Fits (Routes.updatePartner session partnerId payload) := by
  apply Routes.calls_updatePartner (fits_brackets session.bureauId)
  intro patch hpatch
  obtain ⟨hname, hnote⟩ := patchOf_eq_ok hpatch
  have hupdate : (Sql.partnersUpdate session.bureauId partnerId patch.name patch.note.isSome
      (patch.note.getD none)).Fits := by
    apply fits_partnersUpdate
    · intro name hmem
      obtain ⟨raw, hraw⟩ := hname name hmem
      exact nameFits_of_ok hraw
    · intro note hmem
      obtain ⟨raw, hraw⟩ := hnote note hmem
      exact noteFits_of_ok hraw
  exact hupdate

/-! ## Uploads -/

theorem nul_notMem_lowerHex : nul ∉ lowerHex := by decide

theorem IsDigest.nul_notMem {digest : Text} (h : IsDigest digest) : nul ∉ digest := fun hmem ↦
  nul_notMem_lowerHex (h.2 nul hmem)

theorem UuidCrate.length_display (uuid : UuidCrate) (u : Uuid) : (uuid.display u).length = 36 := by
  rw [uuid.display_eq, Uuid.hyphenated, Uuid.length_hyphenate u.length_simple]

theorem UuidCrate.nul_notMem (uuid : UuidCrate) (u : Uuid) : nul ∉ uuid.display u := by
  rw [uuid.display_eq]
  intro hmem
  rcases Uuid.mem_hyphenate hmem with hmem | hmem
  · obtain ⟨n, -, hn⟩ := List.mem_map.mp hmem
    exact nul_notMem_lowerHex (hn ▸ hexDigit_mem_lowerHex n)
  · exact absurd hmem (by decide)

theorem length_keyText (uuid : UuidCrate) (ns : ObjectNamespace) {digest : Text}
    (h : IsDigest digest) : (ns.keyText uuid digest).length = 156 := by
  have hbureau : ObjectKey.bureauPrefix.length = 7 := by decide
  have hpartner : ObjectKey.partnerPrefix.length = 8 := by decide
  simp only [ObjectNamespace.keyText, ObjectKey.path, List.length_append, List.length_cons,
    List.length_take, hbureau, hpartner, uuid.length_display, h.1]
  norm_num

theorem nul_notMem_prefixes :
    nul ∉ ObjectKey.bureauPrefix ∧ nul ∉ ObjectKey.partnerPrefix ∧ nul ≠ '/' := by decide

theorem nul_notMem_keyText (uuid : UuidCrate) (ns : ObjectNamespace) {digest : Text}
    (h : IsDigest digest) : nul ∉ ns.keyText uuid digest := by
  obtain ⟨hbureau, hpartner, hslash⟩ := nul_notMem_prefixes
  intro hmem
  unfold ObjectNamespace.keyText ObjectKey.path at hmem
  simp only [List.mem_append, List.mem_cons] at hmem
  rcases hmem with (hmem | hmem) | hmem | (hmem | hmem) | hmem | hmem | hmem | hmem
  · exact hbureau hmem
  · exact uuid.nul_notMem _ hmem
  · exact hslash hmem
  · exact hpartner hmem
  · exact uuid.nul_notMem _ hmem
  · exact hslash hmem
  · exact h.nul_notMem (List.mem_of_mem_take hmem)
  · exact hslash hmem
  · exact h.nul_notMem hmem

theorem materialRow_check_iff {row : MaterialRow} : row.check = true ↔
    (1 ≤ row.filename.length ∧ row.filename.length ≤ 200) ∧
      (∃ t ∈ ["application/pdf", "image/png", "image/jpeg"], row.mediaType = t.toList) ∧
        0 < row.sizeBytes ∧ hexPattern row.sha256 = true ∧
          (1 ≤ row.storageKey.length ∧ row.storageKey.length ≤ 512) ∧
            ∀ error ∈ row.error, error.length ≤ 2000 := by
  have herror : (row.error.all fun error ↦ decide (error.length ≤ 2000)) = true ↔
      ∀ error ∈ row.error, error.length ≤ 2000 := by
    cases row.error <;> simp
  simp only [MaterialRow.check, Bool.and_eq_true, decide_eq_true_eq, List.any_eq_true, herror,
    and_assoc]

/-- A digest matches the pattern of the tables. -/
theorem hexPattern_of_isDigest {digest : Text} (h : IsDigest digest) :
    hexPattern digest = true := by
  have hall : lowerHex.all (fun c ↦ ('0' ≤ c && c ≤ '9') || ('a' ≤ c && c ≤ 'f')) = true := by
    decide
  simp only [hexPattern, Bool.and_eq_true, decide_eq_true_eq]
  exact ⟨h.1, List.all_eq_true.mpr fun c hc ↦ List.all_eq_true.mp hall c (h.2 c hc)⟩

theorem asStr_mem_tables (mediaType : MediaType) :
    mediaType.asStr ∈ ["application/pdf", "image/png", "image/jpeg"] := by
  cases mediaType <;> decide

theorem nul_notMem_asStr (mediaType : MediaType) : nul ∉ mediaType.asStr.toList := by
  cases mediaType <;> decide

/-- The row of a received file can be stored. -/
theorem storable_newMaterialRow {state : AppState} {bureauId partnerId : Uuid}
    {ns : ObjectNamespace} {field : Field} {received : ReceivedFile state.store.uuid}
    (hreceived : received.IsOf ns field) {new : NewMaterial}
    (hnew : Routes.newMaterial state partnerId received = .ok new) (id : Uuid) (now : Timestamp) :
    (Sql.newMaterialRow bureauId new id now).Storable := by
  unfold Routes.newMaterial at hnew
  split at hnew
  · cases hnew
  · cases hnew
    obtain ⟨hnonempty, -, hfilename, hsha256, hsize, hkey⟩ := hreceived
    have hdigest : IsDigest received.stored.sha256 := hsha256 ▸ isDigest_hex _ _
    have hraw := raw_of_keyForDigest hkey
    obtain ⟨hlength, hcontrol⟩ := Validate.displayFilename_spec (field.fileName.getD [])
      received.mediaType
    rw [← hfilename] at hlength hcontrol
    refine ⟨?_, MaterialStatus.asStr_mem _, ?_, ?_, hdigest.nul_notMem, ?_, nofun⟩
    · have hpos : 0 < received.stored.sizeBytes := by
        rw [hsize]
        exact List.length_pos_of_ne_nil hnonempty
      have hkeyLength : received.stored.key.raw.length = 156 := by
        rw [hraw, length_keyText _ _ hdigest]
      rw [materialRow_check_iff]
      refine ⟨hlength, ⟨_, asStr_mem_tables received.mediaType, rfl⟩, hpos,
        hexPattern_of_isDigest hdigest, ?_, nofun⟩
      dsimp only [Sql.newMaterialRow]
      rw [hkeyLength]
      exact ⟨by norm_num, by norm_num⟩
    · intro hmem
      have hnul := hcontrol nul hmem
      rw [isControl_nul] at hnul
      cases hnul
    · exact nul_notMem_asStr received.mediaType
    · exact hraw ▸ nul_notMem_keyText _ _ hdigest

theorem fits_of_intake {store : Store} {places : Set Path} (op : Op)
    (h : op.OfIntake store places) : op.Fits := by
  cases op with
  | sql s => exact h.elim
  | _ => trivial

theorem nul_notMem_key (uuid : UuidCrate) (materialId : Uuid) (kind : JobKind) :
    nul ∉ extractionIdempotencyKey uuid materialId kind := by
  have hkind : nul ∉ kind.asStr.toList := by
    cases kind
    decide
  obtain ⟨-, -, hslash⟩ := nul_notMem_prefixes
  have hcolon : nul ≠ ':' := by decide
  rw [extractionIdempotencyKey, List.mem_append, List.mem_cons, not_or, not_or]
  exact ⟨hkind, hcolon, uuid.nul_notMem materialId⟩

theorem fits_enqueues {uuid : UuidCrate} {bureauId partnerId materialId : Uuid} {s : Sql}
    (h : Jobs.Enqueues uuid bureauId partnerId materialId s) : s.Fits := by
  cases h with
  | insert =>
      intro id now
      exact ⟨rfl, JobKind.asStr_mem _, JobStatus.asStr_mem _, nofun, nul_notMem_key uuid _ _, nofun,
        nofun⟩
  | find => trivial

theorem fits_upload (state : AppState) (session : Session) (partnerId : Uuid)
    (multipart : Multipart) :
    Calls Op.Fits (Routes.upload state session partnerId multipart) := by
  apply Routes.calls_upload (fits_brackets session.bureauId) (by trivial) fits_of_intake
  · rintro new ⟨field, received, -, hof, hnew⟩ s hs
    cases hs with
    | insert => exact storable_newMaterialRow hof hnew
    | find => trivial
  · exact fun materialId s hs ↦ fits_enqueues hs

/-! ## Logins -/

theorem nul_notMem_generateToken (base64 : Base64Url) (bytes : Vector UInt8 32) :
    nul ∉ generateToken base64 bytes := by
  intro hmem
  exact absurd (base64.alphabet _ nul hmem) (by decide)

theorem fits_openSession (sha256 : Sha256) (base64 : Base64Url) (config : Config) (token : Text)
    (csrfBytes : Vector UInt8 32) (id : Uuid) : Calls SessionOp.Fits
      (Auth.openSession sha256 config token (generateToken base64 csrfBytes) id) := by
  have hdigest : IsDigest (tokenFingerprint sha256 token) := isDigest_hex _ _
  apply Calls.ofExcept_andThen
  intro ttlSeconds _
  apply Calls.mapError
  apply Calls.andThen
  · apply Calls.lift
    apply calls_perform
    intro bureauId now
    refine ⟨hexPattern_of_isDigest hdigest, ?_, hdigest.nul_notMem,
      nul_notMem_generateToken base64 csrfBytes⟩
    simp [SessionRow.opened, SessionRow.csrfCheck, length_generateToken]
  · intro answer
    cases answer <;> trivial

/-! ## The database agrees -/

/-- The values that the handlers store pass every check, and a database whose rows pass them
refuses none of these statements because of a check and keeps such rows. -/
theorem stored_values_accepted (state : AppState) (sha256 : Sha256) (base64 : Base64Url) :
    (∀ session payload, Calls Op.Fits (Routes.createPartner session payload)) ∧
      (∀ session partnerId payload,
        Calls Op.Fits (Routes.updatePartner session partnerId payload)) ∧
      (∀ session partnerId multipart,
        Calls Op.Fits (Routes.upload state session partnerId multipart)) ∧
      (∀ config tokenBytes csrfBytes id, Calls SessionOp.Fits (Auth.openSession sha256 config
        (generateToken base64 tokenBytes) (generateToken base64 csrfBytes) id)) ∧
      ∀ statement : Sql, statement.Fits → ∀ (db : Db) id now, db.Storable →
        statement.exec id now db ≠ .error .checkViolation ∧
          ∀ answer writes, statement.exec id now db = .ok (answer, writes) →
            (db.overlay writes).Storable := by
  refine ⟨fits_createPartner, fits_updatePartner, fits_upload state,
    fun config tokenBytes csrfBytes id ↦ fits_openSession sha256 base64 config _ csrfBytes id, ?_⟩
  intro statement hfits db id now hdb
  have haccepted : Sql.Accepted (statement.exec id now db) := hfits.accepted hdb
  exact ⟨haccepted.1, fun answer writes hexec ↦ hdb.overlay (haccepted.2 answer writes hexec)⟩

end Otdel
