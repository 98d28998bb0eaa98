import Otdel.Core.Error
import Otdel.Core.Media

/-!
# Input validation and normalisation

Partner fields are validated; the name of an uploaded file is normalised for
display and never becomes part of a path.
-/

namespace Otdel.Validate

def partnerNameMaxChars : ℕ := 200

def partnerNoteMaxChars : ℕ := 10000

def filenameMaxChars : ℕ := 200

def partnerName (raw : Text) : Except AppError Text :=
  let trimmed := Text.trim raw
  if trimmed.isEmpty then .error (.validation "partner name must not be empty")
  else
    let length := trimmed.length
    if length > partnerNameMaxChars then
      .error (.validation
        s!"partner name must be at most {partnerNameMaxChars} characters, got {length}")
    else if trimmed.any Text.isControl then
      .error (.validation "partner name must not contain control characters")
    else .ok trimmed

/-- A blank note is stored as `null`. -/
def partnerNote : Option Text → Except AppError (Option Text)
  | none => .ok none
  | some raw =>
      let trimmed := Text.trim raw
      if trimmed.isEmpty then .ok none
      else
        let length := trimmed.length
        if length > partnerNoteMaxChars then
          .error (.validation
            s!"partner note must be at most {partnerNoteMaxChars} characters, got {length}")
        else if trimmed.any fun c ↦ Text.isControl c && c ≠ '\n' && c ≠ '\t' then
          .error (.validation "partner note must not contain control characters")
        else .ok (some trimmed)

/-- The part after the last separator of either kind. -/
def lastSegment (raw : Text) : Text := raw.rtakeWhile fun c ↦ c ≠ '/' && c ≠ '\\'

def displayFilename (raw : Text) (mediaType : MediaType) : Text :=
  let cleaned := (lastSegment raw).map fun c ↦ if Text.isControl c then ' ' else c
  let cleaned := Text.trim (Text.trimMatches (· = '.') (Text.trim cleaned))
  let truncated := Text.trim (cleaned.take filenameMaxChars)
  if truncated.isEmpty then s!"upload.{mediaType.extension}".toList else truncated

def isAsciiAlphanumeric (c : Char) : Bool :=
  ('0' ≤ c && c ≤ '9') || ('A' ≤ c && c ≤ 'Z') || ('a' ≤ c && c ≤ 'z')

/-- The quoted-string form of a display name. -/
def contentDispositionAsciiFallback (name : Text) (mediaType : MediaType) : Text :=
  let ascii := name.map fun c ↦
    if isAsciiAlphanumeric c || c ∈ ['.', '-', '_', ' ', '(', ')', '+'] then c else '_'
  let ascii := Text.trim ascii
  if ascii.isEmpty || ascii.all (fun c ↦ c = '_' || c = ' ') then
    s!"original.{mediaType.extension}".toList
  else ascii

def isUnreserved (byte : UInt8) : Bool :=
  (65 ≤ byte && byte ≤ 90) || (97 ≤ byte && byte ≤ 122) || (48 ≤ byte && byte ≤ 57) ||
    byte = 45 || byte = 46 || byte = 95 || byte = 126

/-- Two uppercase hexadecimal digits. -/
def hexUpper (byte : UInt8) : Text :=
  [Text.hexDigit (Fin.ofNat 16 (byte.toNat / 16)), Text.hexDigit (Fin.ofNat 16 byte.toNat)].map
    Char.toUpper

def percentEncode (byte : UInt8) : Text :=
  if isUnreserved byte then [Char.ofNat byte.toNat] else '%' :: hexUpper byte

/-- The `filename*` value. -/
def contentDispositionUtf8 (name : Text) : Text :=
  "UTF-8''".toList ++ (Text.utf8Bytes name).flatMap percentEncode

/-- A name that passes is trimmed, not empty and within the bound. -/
theorem partnerName_eq_ok {raw name : Text} (h : partnerName raw = .ok name) :
    name = Text.trim raw ∧ name ≠ [] ∧ name.length ≤ partnerNameMaxChars ∧
      name.all (fun c ↦ !Text.isControl c) = true := by
  simp only [partnerName, guard_eq_ok, Except.ok.injEq] at h
  obtain ⟨hempty, hlength, hcontrol, rfl⟩ := h
  refine ⟨rfl, ?_, not_lt.mp hlength, ?_⟩
  · simpa using hempty
  · simpa using hcontrol

theorem partnerNote_eq_ok {raw : Option Text} {note : Text} (h : partnerNote raw = .ok (some note)) :
    note.length ≤ partnerNoteMaxChars ∧
      ∀ c ∈ note, Text.isControl c = true → c = '\n' ∨ c = '\t' := by
  cases raw with
  | none => cases h
  | some raw =>
      simp only [partnerNote] at h
      split at h
      · cases h
      · simp only [guard_eq_ok, Except.ok.injEq, Option.some.injEq] at h
        obtain ⟨hlength, hcontrol, rfl⟩ := h
        refine ⟨not_lt.mp hlength, fun c hc hcc ↦ ?_⟩
        by_contra hne
        rw [not_or] at hne
        exact hcontrol (List.any_eq_true.mpr ⟨c, hc, by simp [hcc, hne.1, hne.2]⟩)

theorem fallbackName (mediaType : MediaType) :
    let name := s!"upload.{mediaType.extension}".toList
    (1 ≤ name.length ∧ name.length ≤ filenameMaxChars) ∧ ∀ c ∈ name, Text.isControl c = false := by
  have hname : s!"upload.{mediaType.extension}".toList =
      "upload.".toList ++ mediaType.extension.toList := by simp [toString]
  dsimp only
  rw [hname, filenameMaxChars]
  constructor
  · cases mediaType <;> simp [MediaType.extension]
  · cases mediaType <;> simp [MediaType.extension, Text.isControl]

/-- A display name is never empty, never too long, and without control characters. -/
theorem displayFilename_spec (raw : Text) (mediaType : MediaType) :
    (1 ≤ (displayFilename raw mediaType).length ∧
      (displayFilename raw mediaType).length ≤ filenameMaxChars) ∧
        ∀ c ∈ displayFilename raw mediaType, Text.isControl c = false := by
  unfold displayFilename
  dsimp only
  split
  · exact fallbackName mediaType
  · rename_i hempty
    refine ⟨⟨?_, ?_⟩, fun c hc ↦ ?_⟩
    · rw [Nat.one_le_iff_ne_zero]
      simpa using hempty
    · exact (Text.trimMatches_sublist _ _).length_le.trans (List.length_take_le _ _)
    · have hmem := List.mem_of_mem_take (Text.mem_of_mem_trimMatches hc)
      have hcleaned := Text.mem_of_mem_trimMatches (Text.mem_of_mem_trimMatches
        (Text.mem_of_mem_trimMatches hmem))
      obtain ⟨d, -, rfl⟩ := List.mem_map.mp hcleaned
      by_cases hd : Text.isControl d = true
      · rw [if_pos hd]
        decide
      · rwa [if_neg hd, ← Bool.not_eq_true]

end Otdel.Validate
