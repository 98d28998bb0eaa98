import Otdel.Api.Routes

/-!
# The download header

The header carries the name of an original twice: in a quoted string of plain
characters, and percent-encoded.  A client that reads the second gets the name
back.
-/

namespace Otdel.Disposition

open Validate

/-! ## Reading the header -/

def opening : Text := "attachment; filename=\"".toList

def between : Text := "\"; filename*=".toList ++ "UTF-8''".toList

/-- The header of these two values. -/
def frame (quoted ext : Text) : Text := opening ++ (quoted ++ (between ++ ext))

/-- The quoted string ends at its first quote. -/
def read (value : Text) : Option (Text × Text) := do
  let rest ← Text.stripPrefix opening value
  let quoted := rest.takeWhile fun c ↦ c ≠ '"'
  let ext ← Text.stripPrefix between (rest.drop quoted.length)
  return (quoted, ext)

/-- An unreserved character stands for its byte, `%XX` for the byte `XX`. -/
def percentDecode : Text → Option Bytes
  | [] => some []
  | c :: rest =>
      if c = '%' then
        match rest with
        | high :: low :: rest => do
            let high ← Text.hexValue? high
            let low ← Text.hexValue? low
            let bytes ← percentDecode rest
            return UInt8.ofNat (16 * high.val + low.val) :: bytes
        | _ => none
      else if Text.asciiClass isUnreserved c then do
        let bytes ← percentDecode rest
        return UInt8.ofNat c.toNat :: bytes
      else none

/-- Unreserved characters and triples. -/
inductive ExtValue : Text → Prop where
  | nil : ExtValue []
  | unreserved (c : Char) (rest : Text) (hc : Text.asciiClass isUnreserved c = true)
      (hrest : ExtValue rest) : ExtValue (c :: rest)
  | triple (byte : UInt8) (rest : Text) (hrest : ExtValue rest) :
      ExtValue ('%' :: (hexUpper byte ++ rest))

/-- The header can be read in one way only, and tells the name. -/
structure Tells (filename value quoted ext : Text) : Prop where
  visible : value.all isVisible = true
  read : read value = some (quoted, ext)
  unique : ∀ q e, value = frame q e → '"' ∉ q → q = quoted ∧ e = ext
  filled : quoted ≠ []
  plain : '"' ∉ quoted ∧ '\\' ∉ quoted ∧ ';' ∉ quoted
  encoded : ExtValue ext
  decoded : percentDecode ext = some (Text.utf8Bytes filename)

/-! ## The quoted string -/

def isPlain (c : Char) : Bool :=
  isAsciiAlphanumeric c || c ∈ ['.', '-', '_', ' ', '(', ')', '+']

theorem isPlain_spec {c : Char} (h : isPlain c = true) :
    isVisible c = true ∧ c ≠ '"' ∧ c ≠ '\\' ∧ c ≠ ';' := by
  rw [isPlain, Bool.or_eq_true] at h
  rcases h with h | h
  · simp only [isAsciiAlphanumeric, Bool.or_eq_true, Bool.and_eq_true, decide_eq_true_eq,
      Char.le_def, UInt32.le_iff_toNat_le] at h
    have hrange : 48 ≤ c.toNat ∧ c.toNat ≤ 57 ∨ 65 ≤ c.toNat ∧ c.toNat ≤ 90 ∨
        97 ≤ c.toNat ∧ c.toNat ≤ 122 := by
      rcases h with (h | h) | h
      · exact Or.inl h
      · exact Or.inr (Or.inl h)
      · exact Or.inr (Or.inr h)
    refine ⟨?_, ?_, ?_, ?_⟩
    · simp only [isVisible, Bool.and_eq_true, decide_eq_true_eq]
      omega
    · rintro rfl
      exact absurd hrange (by decide)
    · rintro rfl
      exact absurd hrange (by decide)
    · rintro rfl
      exact absurd hrange (by decide)
  · have hall : ['.', '-', '_', ' ', '(', ')', '+'].all
        (fun c ↦ isVisible c && c ≠ '"' && c ≠ '\\' && c ≠ ';') = true := by decide
    have hc := List.all_eq_true.mp hall c (of_decide_eq_true h)
    simpa [and_assoc] using hc

theorem fallback_plain (name : Text) (mediaType : MediaType) :
    contentDispositionAsciiFallback name mediaType ≠ [] ∧
      (contentDispositionAsciiFallback name mediaType).all isPlain = true := by
  unfold contentDispositionAsciiFallback
  dsimp only
  split
  · have hname : s!"original.{mediaType.extension}".toList =
        "original.".toList ++ mediaType.extension.toList := by simp [toString]
    rw [hname]
    cases mediaType <;> decide
  · rename_i h
    rw [Bool.or_eq_true, not_or] at h
    refine ⟨by simpa using h.1, ?_⟩
    rw [List.all_eq_true]
    intro c hc
    obtain ⟨d, -, rfl⟩ := List.mem_map.mp (Text.mem_of_mem_trimMatches hc)
    split
    · assumption
    · decide

/-! ## The encoded name -/

theorem unreserved_table : ∀ b : Fin 256, isUnreserved (UInt8.ofNat b.val) = true →
    Text.asciiClass isUnreserved (Char.ofNat b.val) = true ∧ Char.ofNat b.val ≠ '%' ∧
      (Char.ofNat b.val).toNat = b.val := by
  decide +kernel

/-- An unreserved byte is sent as the character it is. -/
theorem unreserved_char {byte : UInt8} (h : isUnreserved byte = true) :
    Text.asciiClass isUnreserved (Char.ofNat byte.toNat) = true ∧ Char.ofNat byte.toNat ≠ '%' ∧
      (Char.ofNat byte.toNat).toNat = byte.toNat := by
  apply unreserved_table ⟨byte.toNat, byte.toNat_lt⟩
  rwa [UInt8.ofNat_toNat]

theorem hexValue?_toUpper (n : Fin 16) : Text.hexValue? (Text.hexDigit n).toUpper = some n := by
  revert n
  decide

/-- The two digits are those of the byte. -/
theorem ofNat_digits (byte : UInt8) :
    UInt8.ofNat (16 * (Fin.ofNat 16 (byte.toNat / 16)).val + (Fin.ofNat 16 byte.toNat).val) =
      byte := by
  have hlt := byte.toNat_lt
  have hsum : 16 * (byte.toNat / 16 % 16) + byte.toNat % 16 = byte.toNat := by omega
  simp only [Fin.val_ofNat]
  rw [hsum, UInt8.ofNat_toNat]

theorem percentDecode_percentEncode (byte : UInt8) (rest : Text) :
    percentDecode (percentEncode byte ++ rest) =
      (percentDecode rest).map fun bytes ↦ byte :: bytes := by
  unfold percentEncode
  split
  · rename_i h
    obtain ⟨hclass, hne, hbyte⟩ := unreserved_char h
    rw [List.cons_append, List.nil_append, percentDecode.eq_def]
    simp only [hne, if_false, hclass, if_true, hbyte, UInt8.ofNat_toNat]
    cases percentDecode rest <;> rfl
  · simp only [hexUpper, List.map_cons, List.map_nil, List.cons_append, List.nil_append]
    rw [percentDecode, if_pos rfl]
    simp only [hexValue?_toUpper, Option.bind_eq_bind, Option.bind_some, ofNat_digits]
    cases percentDecode rest <;> rfl

theorem percentDecode_flatMap (bytes : Bytes) :
    percentDecode (bytes.flatMap percentEncode) = some bytes := by
  induction bytes with
  | nil => rfl
  | cons byte bytes ih =>
      rw [List.flatMap_cons, percentDecode_percentEncode, ih]
      rfl

theorem extValue_flatMap (bytes : Bytes) : ExtValue (bytes.flatMap percentEncode) := by
  induction bytes with
  | nil => exact ExtValue.nil
  | cons byte bytes ih =>
      rw [List.flatMap_cons]
      unfold percentEncode
      split
      · rename_i h
        exact ExtValue.unreserved _ _ (unreserved_char h).1 ih
      · exact ExtValue.triple byte _ ih

theorem isVisible_of_unreserved {c : Char} (h : Text.asciiClass isUnreserved c = true) :
    isVisible c = true := by
  simp only [Text.asciiClass, Bool.and_eq_true, decide_eq_true_eq] at h
  obtain ⟨hsize, hclass⟩ := h
  have hsmall : c.toNat ≤ 127 := Char.utf8Size_eq_one_iff.mp hsize
  have hbyte : c.val.toUInt8 = UInt8.ofNat c.toNat := rfl
  rw [hbyte] at hclass
  have hvisible : ∀ b : Fin 256, isUnreserved (UInt8.ofNat b.val) = true →
      32 ≤ b.val ∧ b.val < 127 := by decide +kernel
  have hc := hvisible ⟨c.toNat, by omega⟩ hclass
  simpa [isVisible] using hc

theorem isVisible_hexUpper (byte : UInt8) : (hexUpper byte).all isVisible = true := by
  have hdigit : ∀ n : Fin 16, isVisible (Text.hexDigit n).toUpper = true := by decide
  simp [hexUpper, hdigit]

theorem visible_of_extValue {ext : Text} (h : ExtValue ext) : ext.all isVisible = true := by
  induction h with
  | nil => rfl
  | unreserved c rest hc _ ih =>
      rw [List.all_cons, isVisible_of_unreserved hc, ih, Bool.and_self]
  | triple byte rest _ ih =>
      rw [List.all_cons, List.all_append, isVisible_hexUpper, ih]
      rfl

/-! ## The header -/

theorem between_eq : between = '"' :: ("; filename*=".toList ++ "UTF-8''".toList) := rfl

theorem read_frame {quoted : Text} (hquoted : '"' ∉ quoted) (ext : Text) :
    read (frame quoted ext) = some (quoted, ext) := by
  have hall : ∀ c ∈ quoted, decide (c ≠ '"') = true := by
    intro c hc
    rw [decide_eq_true_eq]
    rintro rfl
    exact hquoted hc
  have hquote : (quoted ++ (between ++ ext)).takeWhile (fun c ↦ c ≠ '"') = quoted := by
    rw [List.takeWhile_append_of_pos hall, between_eq, List.cons_append,
      List.takeWhile_cons_of_neg]
    · rw [List.append_nil]
    · decide
  simp only [read, frame, Text.stripPrefix_append, Option.bind_eq_bind, Option.bind_some, hquote,
    List.drop_left]
  rfl

theorem visible_frame {quoted ext : Text} (hquoted : quoted.all isPlain = true)
    (hext : ExtValue ext) : (frame quoted ext).all isVisible = true := by
  have hplain : quoted.all isVisible = true := by
    rw [List.all_eq_true] at hquoted ⊢
    exact fun c hc ↦ (isPlain_spec (hquoted c hc)).1
  have hopening : opening.all isVisible = true := by decide
  have hbetween : between.all isVisible = true := by decide
  rw [frame, List.all_append, List.all_append, List.all_append, hopening, hplain, hbetween,
    visible_of_extValue hext]
  rfl

theorem tells_frame {filename quoted ext : Text} (hfilled : quoted ≠ [])
    (hquoted : quoted.all isPlain = true) (hext : ExtValue ext)
    (hdecoded : percentDecode ext = some (Text.utf8Bytes filename)) :
    Tells filename (frame quoted ext) quoted ext := by
  have hplain : ∀ c, isPlain c = false → c ∉ quoted := by
    intro c hc hmem
    rw [List.all_eq_true.mp hquoted c hmem] at hc
    cases hc
  have hquote : '"' ∉ quoted := hplain _ (by decide)
  refine ⟨visible_frame hquoted hext, read_frame hquote ext, ?_, hfilled,
    ⟨hquote, hplain _ (by decide), hplain _ (by decide)⟩, hext, hdecoded⟩
  intro q e heq hq
  have hread := read_frame hq e
  rw [← heq, read_frame hquote, Option.some.injEq, Prod.mk.injEq] at hread
  exact ⟨hread.1.symm, hread.2.symm⟩

theorem contentDisposition_eq {http : HttpCrate} {material : Material} {mediaType : MediaType}
    (h : MediaType.parse material.mediaType = some mediaType) :
    Routes.contentDisposition http material =
      http.fromStr (frame (contentDispositionAsciiFallback material.filename mediaType)
        ((Text.utf8Bytes material.filename).flatMap percentEncode)) := by
  unfold Routes.contentDisposition
  rw [h, Option.bind_some]
  dsimp only
  unfold contentDispositionUtf8 frame opening between
  simp only [List.append_assoc]

theorem parse_asStr (mediaType : MediaType) :
    MediaType.parse mediaType.asStr.toList = some mediaType := by
  cases mediaType <;> decide

/-- Every accepted media type gets a header that tells the name. -/
theorem contentDisposition_tells (http : HttpCrate) (material : Material) (mediaType : MediaType)
    (h : MediaType.parse material.mediaType = some mediaType) :
    ∃ value quoted ext, Routes.contentDisposition http material = some value ∧
      Tells material.filename value quoted ext := by
  obtain ⟨hfilled, hplain⟩ := fallback_plain material.filename mediaType
  have hext := extValue_flatMap (Text.utf8Bytes material.filename)
  refine ⟨_, _, _, ?_, tells_frame hfilled hplain hext (percentDecode_flatMap _)⟩
  rw [contentDisposition_eq h]
  exact http.fromStr_of_visible _ (visible_frame hplain hext)

theorem contentDisposition_tells_quote :
    ∃ value quoted ext,
      Routes.contentDisposition .reference ⟨default, default, "план \"а\".png".toList,
        MediaType.png.asStr.toList, 8, [], .queued, none, 0, none⟩ = some value ∧
          Tells "план \"а\".png".toList value quoted ext :=
  contentDisposition_tells _ _ .png (parse_asStr .png)

end Otdel.Disposition
