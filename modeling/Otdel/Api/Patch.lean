import Otdel.Api.Routes

/-!
# The body of a PATCH

`PATCH /api/partners/{id}` reads a JSON value into the fields that were sent,
validates them, and updates the row with one statement.
-/

namespace Otdel

/-- A JSON value; the members of an object are in the order of the text. -/
inductive Json where
  | null
  | bool (value : Bool)
  | number (literal : Text)
  | string (value : Text)
  | array (items : List Json)
  | object (members : List (Text × Json))

namespace PatchPartnerRequest

def nameKey : Text := "name".toList

def noteKey : Text := "note".toList

/-- `Option<String>`: `null` or a string. -/
def optionalString : Json → Option (Option Text)
  | .null => some none
  | .string value => some (some value)
  | _ => none

/-- A field that is there, whatever its value. -/
def presentOption (value : Json) : Option (Option (Option Text)) := (optionalString value).map some

/-- The fields that have been read. -/
structure Fields where
  name : Option (Option Text)
  note : Option (Option (Option Text))

/-- Read one member: a known field, and only once. -/
def Fields.visit (fields : Fields) (member : Text × Json) : Option Fields :=
  if member.1 = nameKey then
    if fields.name.isSome then none
    else (optionalString member.2).map fun name ↦ { fields with name := some name }
  else if member.1 = noteKey then
    if fields.note.isSome then none
    else (presentOption member.2).map fun note ↦ { fields with note := some note }
  else none

/-- A field that is missing has its default. -/
def Fields.finish (fields : Fields) : PatchPartnerRequest :=
  ⟨fields.name.getD none, fields.note.getD none⟩

/-- The derived deserializer: an object by its keys, an array by position. -/
def deserialize : Json → Option PatchPartnerRequest
  | .object members => (members.foldlM Fields.visit ⟨none, none⟩).map Fields.finish
  | .array [] => some (Fields.finish ⟨none, none⟩)
  | .array [name] => (optionalString name).map fun name ↦ Fields.finish ⟨some name, none⟩
  | .array [name, note] =>
      (optionalString name).bind fun name ↦
        (presentOption note).map fun note ↦ Fields.finish ⟨some name, some note⟩
  | _ => none

end PatchPartnerRequest

namespace Routes

open Program

def invalidBody : ApiError :=
  .new (.new .badRequest "request body is not valid JSON for this endpoint")

/-- `PATCH /api/partners/{id}`, from the body on. -/
def patchPartner (session : Session) (partnerId : Uuid) (body : Json) :
    TryProg ApiError Response := do
  let payload ← ofExcept (okOr invalidBody (PatchPartnerRequest.deserialize body))
  updatePartner session partnerId payload

end Routes

/-! ## What was sent -/

/-- The value that a body gives for a field. -/
def Json.sent (key : Text) (position : ℕ) : Json → Option Json
  | .object members => (members.find? fun member ↦ member.1 = key).map Prod.snd
  | .array items => items[position]?
  | _ => none

namespace Json

def sentName (body : Json) : Option Json := body.sent PatchPartnerRequest.nameKey 0

def sentNote (body : Json) : Option Json := body.sent PatchPartnerRequest.noteKey 1

end Json

/-- The name is the one that was sent, trimmed. -/
def Json.Names (body : Json) (name : Text) : Prop :=
  ∀ raw, body.sentName = some (.string raw) → name = Text.trim raw

/-- The note is the one that was sent, where `null` and blank clear it. -/
def Json.Notes (body : Json) (note : Option Text) : Prop :=
  (body.sentNote = some .null → note = none) ∧
    ∀ raw, body.sentNote = some (.string raw) →
      (Text.trim raw = [] → note = none) ∧ (Text.trim raw ≠ [] → note = some (Text.trim raw))

/-- The row after a PATCH differs from the row before in what was sent. -/
structure Patched (body : Json) (row row' : PartnerRow) : Prop where
  name : body.Names row'.name
  nameKept : (∀ raw, body.sentName ≠ some (.string raw)) → row'.name = row.name
  note : body.Notes row'.note
  noteKept : body.sentNote = none → row'.note = row.note
  id : row'.id = row.id
  bureauId : row'.bureauId = row.bureauId
  createdAt : row'.createdAt = row.createdAt

/-! ## Reading the body -/

namespace PatchPartnerRequest

/-- A field that is read into `get` from the members with this key. -/
structure Fields.Reads {β : Type} (key : Text) (get : Fields → Option β) (read : Json → Option β) :
    Prop where
  own : ∀ {fields fields' : Fields} {value : Json}, fields.visit (key, value) = some fields' →
    get fields = none ∧ ∃ x, read value = some x ∧ get fields' = some x
  other : ∀ {fields fields' : Fields} {member : Text × Json}, member.1 ≠ key →
    fields.visit member = some fields' → get fields' = get fields

theorem noteKey_ne_nameKey : noteKey ≠ nameKey := by decide

theorem Fields.reads_name : Reads nameKey Fields.name optionalString where
  own := by
    intro fields fields' value h
    simp only [visit, if_true, Option.ite_none_left_eq_some, Option.map_eq_some_iff,
      Option.not_isSome_iff_eq_none] at h
    obtain ⟨hnew, x, hread, rfl⟩ := h
    exact ⟨hnew, x, hread, rfl⟩
  other := by
    intro fields fields' member hkey h
    simp only [visit, if_neg hkey, Option.ite_none_right_eq_some, Option.ite_none_left_eq_some,
      Option.map_eq_some_iff] at h
    obtain ⟨-, -, x, -, rfl⟩ := h
    rfl

theorem Fields.reads_note : Reads noteKey Fields.note presentOption where
  own := by
    intro fields fields' value h
    simp only [visit, if_neg noteKey_ne_nameKey, if_true, Option.ite_none_left_eq_some,
      Option.map_eq_some_iff, Option.not_isSome_iff_eq_none] at h
    obtain ⟨hnew, x, hread, rfl⟩ := h
    exact ⟨hnew, x, hread, rfl⟩
  other := by
    intro fields fields' member hkey h
    simp only [visit, if_neg hkey] at h
    split at h
    · simp only [Option.ite_none_left_eq_some, Option.map_eq_some_iff] at h
      obtain ⟨-, x, -, rfl⟩ := h
      rfl
    · cases h

/-- After the object, a field is the value of the only member with its key. -/
theorem Fields.Reads.foldlM {β : Type} {key : Text} {get : Fields → Option β}
    {read : Json → Option β} (hreads : Reads key get read) {members : List (Text × Json)}
    {fields fields' : Fields} (h : members.foldlM visit fields = some fields') :
    ((members.find? fun member ↦ member.1 = key) = none ∧ get fields' = get fields) ∨
      ∃ member x, (members.find? fun member ↦ member.1 = key) = some member ∧
        read member.2 = some x ∧ get fields = none ∧ get fields' = some x := by
  induction members generalizing fields with
  | nil =>
      cases h
      exact Or.inl ⟨rfl, rfl⟩
  | cons member members ih =>
      rw [List.foldlM_cons] at h
      obtain ⟨next, hvisit, hrest⟩ := Option.bind_eq_some_iff.mp h
      by_cases hkey : member.1 = key
      · obtain ⟨name, value⟩ := member
        obtain rfl : name = key := hkey
        obtain ⟨hnew, x, hread, hnext⟩ := hreads.own hvisit
        refine Or.inr ⟨(name, value), x, by simp, hread, hnew, ?_⟩
        rcases ih hrest with ⟨-, hsame⟩ | ⟨-, -, -, -, hnone, -⟩
        · rw [hsame, hnext]
        · rw [hnext] at hnone
          cases hnone
      · have hsame := hreads.other hkey hvisit
        have hfind : ((member :: members).find? fun member ↦ member.1 = key) =
            members.find? fun member ↦ member.1 = key := by simp [hkey]
        rw [hfind, ← hsame]
        exact ih hrest

/-- What the payload holds of a body: the fields that were sent. -/
structure Holds (body : Json) (payload : PatchPartnerRequest) : Prop where
  name : payload.name = (body.sentName.bind optionalString).getD none
  nameRead : ∀ value ∈ body.sentName, (optionalString value).isSome
  note : payload.note = body.sentNote.bind optionalString
  noteRead : ∀ value ∈ body.sentNote, (optionalString value).isSome

theorem holds_of_deserialize {body : Json} {payload : PatchPartnerRequest}
    (h : deserialize body = some payload) : Holds body payload := by
  cases body with
  | object members =>
      rw [deserialize, Option.map_eq_some_iff] at h
      obtain ⟨fields, hfold, rfl⟩ := h
      have hname := Fields.reads_name.foldlM hfold
      have hnote := Fields.reads_note.foldlM hfold
      constructor
      · rcases hname with ⟨hfind, hget⟩ | ⟨member, x, hfind, hread, -, hget⟩
        · simp [Json.sentName, Json.sent, Fields.finish, hfind, hget]
        · simp [Json.sentName, Json.sent, Fields.finish, hfind, hget, hread]
      · rcases hname with ⟨hfind, -⟩ | ⟨member, x, hfind, hread, -⟩
        · simp [Json.sentName, Json.sent, hfind]
        · simp [Json.sentName, Json.sent, hfind, hread]
      · rcases hnote with ⟨hfind, hget⟩ | ⟨member, x, hfind, hread, -, hget⟩
        · simp [Json.sentNote, Json.sent, Fields.finish, hfind, hget]
        · obtain ⟨value, hvalue, rfl⟩ := Option.map_eq_some_iff.mp hread
          simp [Json.sentNote, Json.sent, Fields.finish, hfind, hget, hvalue]
      · rcases hnote with ⟨hfind, -⟩ | ⟨member, x, hfind, hread, -⟩
        · simp [Json.sentNote, Json.sent, hfind]
        · obtain ⟨value, hvalue, rfl⟩ := Option.map_eq_some_iff.mp hread
          simp [Json.sentNote, Json.sent, hfind, hvalue]
  | array items =>
      match items, h with
      | [], h =>
          cases h
          constructor <;> simp [Json.sentName, Json.sentNote, Json.sent, Fields.finish]
      | [name], h =>
          obtain ⟨x, hname, rfl⟩ := Option.map_eq_some_iff.mp h
          constructor <;> simp [Json.sentName, Json.sentNote, Json.sent, Fields.finish, hname]
      | [name, note], h =>
          obtain ⟨x, hname, h⟩ := Option.bind_eq_some_iff.mp h
          obtain ⟨y, hread, rfl⟩ := Option.map_eq_some_iff.mp h
          obtain ⟨value, hvalue, rfl⟩ := Option.map_eq_some_iff.mp hread
          constructor <;>
            simp [Json.sentName, Json.sentNote, Json.sent, Fields.finish, hname, hvalue]
  | null | bool | number | string => cases h

end PatchPartnerRequest

/-! ## From the body to the row -/

namespace Validate

theorem partnerName_eq_trim {raw name : Text} (h : partnerName raw = .ok name) :
    name = Text.trim raw :=
  (partnerName_eq_ok h).1

theorem partnerNote_null {note : Option Text} (h : partnerNote none = .ok note) : note = none := by
  cases h
  rfl

theorem partnerNote_some {raw : Text} {note : Option Text} (h : partnerNote (some raw) = .ok note) :
    (Text.trim raw = [] → note = none) ∧ (Text.trim raw ≠ [] → note = some (Text.trim raw)) := by
  simp only [partnerNote] at h
  split at h
  · rename_i hempty
    cases h
    exact ⟨fun _ ↦ rfl, fun hne ↦ (hne (List.isEmpty_iff.mp hempty)).elim⟩
  · rename_i hempty
    simp only [guard_eq_ok, Except.ok.injEq] at h
    obtain ⟨-, -, rfl⟩ := h
    exact ⟨fun hnil ↦ (hempty (List.isEmpty_iff.mpr hnil)).elim, fun _ ↦ rfl⟩

end Validate

/-- The row that the update writes. -/
def PartnerPatch.row (patch : PartnerPatch) (now : Timestamp) (row : PartnerRow) : PartnerRow :=
  { row with
    name := patch.name.getD row.name
    note := if patch.note.isSome then patch.note.getD none else row.note
    updatedAt := now }

/-- A field that is there is validated. -/
def validated {α β : Type} (validate : α → Except AppError β) :
    Option α → Except AppError (Option β)
  | some raw => (validate raw).map some
  | none => .ok none

theorem validated_eq_ok {α β : Type} {validate : α → Except AppError β} {raw : Option α}
    {value : Option β} (h : validated validate raw = .ok value) :
    (raw = none → value = none) ∧
      ∀ x, raw = some x → ∃ y, validate x = .ok y ∧ value = some y := by
  cases raw with
  | none =>
      cases h
      exact ⟨fun _ ↦ rfl, nofun⟩
  | some x =>
      obtain ⟨y, hy, rfl⟩ := map_eq_ok.mp h
      refine ⟨nofun, fun x' hx' ↦ ?_⟩
      cases hx'
      exact ⟨y, hy, rfl⟩

theorem patchOf_eq_ok_iff {payload : PatchPartnerRequest} {patch : PartnerPatch} :
    Routes.patchOf payload = .ok patch ↔
      validated Validate.partnerName payload.name = .ok patch.name ∧
        validated Validate.partnerNote payload.note = .ok patch.note ∧ patch.isEmpty = false := by
  obtain ⟨name, note⟩ := patch
  have hdef : Routes.patchOf payload = (validated Validate.partnerName payload.name).bind fun name ↦
      (validated Validate.partnerNote payload.note).bind fun note ↦
        if (PartnerPatch.mk name note).isEmpty then
          .error (.validation "patch must contain at least one of `name` or `note`")
        else .ok ⟨name, note⟩ := by
    obtain ⟨rawName, rawNote⟩ := payload
    cases rawName <;> cases rawNote <;> rfl
  rw [hdef]
  cases hname : validated Validate.partnerName payload.name with
  | error e => simp [Except.bind]
  | ok name' =>
      cases hnote : validated Validate.partnerNote payload.note with
      | error e => simp [Except.bind]
      | ok note' =>
          simp only [Except.bind, guard_eq_ok, Except.ok.injEq, PartnerPatch.mk.injEq,
            Bool.not_eq_true]
          constructor
          · rintro ⟨hempty, rfl, rfl⟩
            exact ⟨rfl, rfl, hempty⟩
          · rintro ⟨rfl, rfl, hempty⟩
            exact ⟨hempty, rfl, rfl⟩

/-- The body has the right shape, its values are valid and a field was sent. -/
def Json.Accepted (body : Json) : Prop :=
  ∃ payload patch, PatchPartnerRequest.deserialize body = some payload ∧
    Routes.patchOf payload = .ok patch

theorem patched_of_patchOf {body : Json} {payload : PatchPartnerRequest} {patch : PartnerPatch}
    (hbody : PatchPartnerRequest.deserialize body = some payload)
    (hpatch : Routes.patchOf payload = .ok patch) (now : Timestamp) (row : PartnerRow) :
    Patched body row (patch.row now row) := by
  have hholds := PatchPartnerRequest.holds_of_deserialize hbody
  obtain ⟨hname, hnote, -⟩ := patchOf_eq_ok_iff.mp hpatch
  obtain ⟨hnoName, hsomeName⟩ := validated_eq_ok hname
  obtain ⟨hnoNote, hsomeNote⟩ := validated_eq_ok hnote
  constructor
  · intro raw hsent
    obtain ⟨name, hvalid, hsome⟩ := hsomeName raw (by simp [hholds.name, hsent,
      PatchPartnerRequest.optionalString])
    simp [PartnerPatch.row, hsome, Validate.partnerName_eq_trim hvalid]
  · intro hsent
    have hnone : payload.name = none := by
      rw [hholds.name]
      cases hvalue : body.sentName with
      | none => rfl
      | some value =>
          have hread := hholds.nameRead value hvalue
          cases value with
          | string raw => exact (hsent raw hvalue).elim
          | null => rfl
          | bool | number | array | object => cases hread
    simp [PartnerPatch.row, hnoName hnone]
  · refine ⟨fun hsent ↦ ?_, fun raw hsent ↦ ?_⟩
    · have hsome : payload.note = some none := by
        rw [hholds.note, hsent, Option.bind_some, PatchPartnerRequest.optionalString]
      obtain ⟨note, hvalid, hpatch⟩ := hsomeNote none hsome
      simp [PartnerPatch.row, hpatch, Validate.partnerNote_null hvalid]
    · have hsome : payload.note = some (some raw) := by
        rw [hholds.note, hsent, Option.bind_some, PatchPartnerRequest.optionalString]
      obtain ⟨note, hvalid, hpatch⟩ := hsomeNote (some raw) hsome
      simpa [PartnerPatch.row, hpatch] using Validate.partnerNote_some hvalid
  · intro hsent
    have hnone : payload.note = none := by rw [hholds.note, hsent, Option.bind_none]
    simp [PartnerPatch.row, hnoNote hnone]
  · rfl
  · rfl
  · rfl

end Otdel
