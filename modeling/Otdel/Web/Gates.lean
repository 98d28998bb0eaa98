import Otdel.Core.Validate
import Otdel.Library.Utf16
import Otdel.Web.UseMaterials

/-!
# The gates of the client

The forms check a partner's fields before they are sent, and a row offers a
retry by its status.  The server counts scalar values and trims white space; the
client counts UTF-16 units and trims byte order marks as well.
-/

namespace Otdel.Web

/-- A string of the client, by its UTF-16 units. -/
abbrev JsString := List UInt16

namespace JsString

/-- `WhiteSpace` and `LineTerminator` of the language. -/
def isSpace (unit : UInt16) : Bool :=
  let n := unit.toNat
  (9 ≤ n && n ≤ 13) || n = 0x20 || n = 0xa0 || n = 0x1680 || (0x2000 ≤ n && n ≤ 0x200a) ||
    n = 0x2028 || n = 0x2029 || n = 0x202f || n = 0x205f || n = 0x3000 || n = 0xfeff

def trim (s : JsString) : JsString := Utf16.trimUnits isSpace s

end JsString

def validatePartnerName (raw : JsString) : Except String JsString :=
  let value := raw.trim
  if value.length = 0 then .error "Введите название партнёра."
  else if value.length > 200 then .error "Название не должно превышать 200 символов."
  else .ok value

def validatePartnerNote (raw : JsString) : Except String JsString :=
  let value := raw.trim
  if value.length > 10000 then .error "Пояснение не должно превышать 10 000 символов."
  else .ok value

def retryableMaterialStatuses : List MaterialStatus := [.failed, .partially, .quarantined]

/-- `canRetry` of `MaterialRow`. -/
def Material.offersRetry (material : Material) : Bool :=
  retryableMaterialStatuses.contains material.status

/-! ## The two trims -/

def byteOrderMark : Char := '\uFEFF'

/-- What the client trims from a text without control characters. -/
def isBlank (c : Char) : Bool := Text.isWhitespace c || c = byteOrderMark

/-- `isBlank` without the one control character that only the server trims. -/
def isJsBlank (c : Char) : Bool := isBlank c && c.toNat ≠ 0x85

theorem eq_byteOrderMark_iff {c : Char} : c = byteOrderMark ↔ c.toNat = 0xfeff :=
  Char.toNat_inj.symm

theorem isJsBlank_iff {c : Char} :
    isJsBlank c = true ↔ (Text.isWhitespace c = true ∧ c.toNat ≠ 0x85) ∨ c.toNat = 0xfeff := by
  simp only [isJsBlank, isBlank, Bool.and_eq_true, Bool.or_eq_true, decide_eq_true_eq,
    eq_byteOrderMark_iff]
  by_cases hmark : c.toNat = 0xfeff
  · simp [hmark]
  · simp [hmark]

/-- The client trims whole characters, surrogates being no white space. -/
theorem matches_isSpace : Utf16.Matches isJsBlank JsString.isSpace := by
  intro c unit hunit
  have hvalid : c.toNat < 0xd800 ∨ 0xdfff < c.toNat ∧ c.toNat < 0x110000 := c.valid
  rw [Bool.eq_iff_iff, isJsBlank_iff]
  unfold Utf16.encodeChar at hunit
  dsimp only at hunit
  by_cases hc : c.toNat < 0x10000
  · rw [if_pos hc, List.mem_singleton] at hunit
    have hnat : unit.toNat = c.toNat := by
      rw [hunit, UInt16.toNat_ofNat']
      omega
    simp only [JsString.isSpace, Text.isWhitespace, hnat, Bool.or_eq_true, Bool.and_eq_true,
      decide_eq_true_eq]
    omega
  · rw [if_neg hc, List.mem_cons, List.mem_singleton] at hunit
    have hnat : 0xd800 ≤ unit.toNat ∧ unit.toNat ≤ 0xdfff := by
      rcases hunit with rfl | rfl <;> rw [UInt16.toNat_ofNat'] <;> omega
    simp only [JsString.isSpace, Text.isWhitespace, Bool.or_eq_true, Bool.and_eq_true,
      decide_eq_true_eq]
    omega

/-! ## Texts without control characters -/

/-- What the client keeps of a text. -/
def core (raw : Text) : Text := Text.trimMatches isBlank raw

/-- The characters that only the client trims. -/
def marks (raw : Text) : ℕ := (Text.trim raw).length - (core raw).length

/-- The characters that the client counts twice. -/
def pairs (raw : Text) : ℕ := (core raw).countP Utf16.isAstral

def Plain (raw : Text) : Prop := ∀ c ∈ raw, Text.isControl c = false

instance (raw : Text) : Decidable (Plain raw) :=
  List.decidableBAll (fun c ↦ Text.isControl c = false) raw

theorem trim_encode {raw : Text} (hraw : Plain raw) :
    JsString.trim (Utf16.encode raw) = Utf16.encode (core raw) := by
  rw [JsString.trim, Utf16.trimUnits_encode matches_isSpace, core]
  refine congrArg Utf16.encode (Text.trimMatches_congr fun c hc ↦ ?_)
  have hline : c.toNat ≠ 0x85 := by
    intro hline
    have hcontrol := hraw c hc
    simp [Text.isControl, hline] at hcontrol
  simp [isJsBlank, hline]

theorem core_trim (raw : Text) : core (Text.trim raw) = core raw :=
  Text.trimMatches_of_trimMatches (fun c hc ↦ by simp [isBlank, hc]) raw

theorem length_trim (raw : Text) :
    (Text.trim raw).length = (core raw).length + marks raw := by
  have hle : (core raw).length ≤ (Text.trim raw).length := by
    rw [← core_trim]
    exact (Text.trimMatches_sublist _ _).length_le
  unfold marks
  omega

@[simp] theorem isOk_ok {ε β : Type} (b : β) : (Except.ok b : Except ε β).isOk = true := rfl

theorem validatePartnerName_isOk {raw : Text} (hraw : Plain raw) :
    (validatePartnerName (Utf16.encode raw)).isOk = true ↔
      core raw ≠ [] ∧ (core raw).length + pairs raw ≤ 200 := by
  unfold validatePartnerName
  simp only [trim_encode hraw, Utf16.length_encode, guard_isOk, isOk_ok, and_true, not_lt]
  refine and_congr_left fun _ ↦ not_congr ⟨fun h ↦ ?_, fun h ↦ ?_⟩
  · exact List.length_eq_zero_iff.mp (by omega)
  · rw [h]
    rfl

theorem validatePartnerNote_isOk {raw : Text} (hraw : Plain raw) :
    (validatePartnerNote (Utf16.encode raw)).isOk = true ↔
      (core raw).length + pairs raw ≤ 10000 := by
  unfold validatePartnerNote
  simp only [trim_encode hraw, Utf16.length_encode, guard_isOk, isOk_ok, and_true, not_lt]
  rfl

/-- Nothing that the server keeps is a control character. -/
theorem any_trim {raw : Text} (hraw : Plain raw) {p : Char → Bool}
    (hp : ∀ c, Text.isControl c = false → p c = false) : (Text.trim raw).any p = false := by
  rw [List.any_eq_false]
  intro c hc
  rw [hp c (hraw c (Text.mem_of_mem_trimMatches hc))]
  exact Bool.false_ne_true

theorem partnerName_isOk {raw : Text} (hraw : Plain raw) :
    (Validate.partnerName raw).isOk = true ↔
      (core raw).length + marks raw ≠ 0 ∧
        (core raw).length + marks raw ≤ Validate.partnerNameMaxChars := by
  unfold Validate.partnerName
  simp only [guard_isOk, isOk_ok, and_true, not_lt, List.isEmpty_iff_length_eq_zero, length_trim,
    any_trim hraw fun c hc ↦ hc, Bool.false_eq_true, not_false_eq_true, ne_eq]

theorem partnerNote_isOk {raw : Text} (hraw : Plain raw) :
    (Validate.partnerNote (some raw)).isOk = true ↔
      (core raw).length + marks raw ≤ Validate.partnerNoteMaxChars := by
  have hany := @any_trim raw hraw (fun c ↦ Text.isControl c && c ≠ '\n' && c ≠ '\t')
    fun c hc ↦ by simp [hc]
  unfold Validate.partnerNote
  dsimp only
  rw [hany]
  by_cases hempty : (Text.trim raw).isEmpty = true
  · rw [if_pos hempty, ← length_trim, List.isEmpty_iff_length_eq_zero.mp hempty]
    exact iff_of_true rfl (Nat.zero_le _)
  · rw [if_neg hempty, guard_isOk, ← length_trim, not_lt]
    exact and_iff_left rfl

/-! ## Where the gates agree -/

/-- The limit lies between the two counts of the text. -/
def Straddles (limit : ℕ) (raw : Text) : Prop :=
  (core raw).length + min (pairs raw) (marks raw) ≤ limit ∧
    limit < (core raw).length + max (pairs raw) (marks raw)

instance (limit : ℕ) (raw : Text) : Decidable (Straddles limit raw) := instDecidableAnd

/-- A blank name has no byte order marks or too many, and no other name is
counted to either side of the limit. -/
def NameAlike (raw : Text) : Prop :=
  (core raw = [] → marks raw = 0 ∨ Validate.partnerNameMaxChars < marks raw) ∧
    (core raw ≠ [] → ¬ Straddles Validate.partnerNameMaxChars raw)

def NoteAlike (raw : Text) : Prop := ¬ Straddles Validate.partnerNoteMaxChars raw

instance (raw : Text) : Decidable (NameAlike raw) := instDecidableAnd

instance (raw : Text) : Decidable (NoteAlike raw) := instDecidableNot

/-- The client accepts what the server accepts, but for texts that the limit
straddles, names of byte order marks, and the retry of a quarantined material. -/
theorem gates_agree_iff {raw : Text} (hraw : Plain raw) (material : Material) :
    (((validatePartnerName (Utf16.encode raw)).isOk = true ↔
        (Validate.partnerName raw).isOk = true) ↔ NameAlike raw) ∧
      (((validatePartnerNote (Utf16.encode raw)).isOk = true ↔
          (Validate.partnerNote (some raw)).isOk = true) ↔ NoteAlike raw) ∧
        ((material.offersRetry = true ↔ material.status.canRetry = true) ↔
          material.status ≠ .quarantined) := by
  rw [validatePartnerName_isOk hraw, partnerName_isOk hraw, validatePartnerNote_isOk hraw,
    partnerNote_isOk hraw]
  unfold NameAlike NoteAlike Straddles Validate.partnerNameMaxChars Validate.partnerNoteMaxChars
  refine ⟨?_, ?_, ?_⟩
  · rw [← List.length_eq_zero_iff, ne_eq, ← List.length_eq_zero_iff]
    have hpairs : pairs raw ≤ (core raw).length := List.countP_le_length
    omega
  · omega
  · obtain ⟨id, partnerId, status⟩ := material
    cases status <;>
      simp [Material.offersRetry, retryableMaterialStatuses, MaterialStatus.canRetry]

/-- A usual name, and the retry of a failed material. -/
theorem gates_agree_iff_usual :
    Plain "ООО «Ромашка»".toList ∧ NameAlike "ООО «Ромашка»".toList ∧
      NoteAlike "ООО «Ромашка»".toList ∧
        ((⟨"m", "p", .failed⟩ : Material).offersRetry = true ↔
          MaterialStatus.failed.canRetry = true) := by
  have hplain : Plain "ООО «Ромашка»".toList := by decide +kernel
  obtain ⟨hname, hnote, hretry⟩ := gates_agree_iff hplain ⟨"m", "p", .failed⟩
  exact ⟨hplain, hname.mp (by decide +kernel), hnote.mp (by decide +kernel),
    hretry.mpr (by decide)⟩

/-- A name that is one byte order mark, a name of surrogate pairs, and the retry
of a quarantined material. -/
theorem gates_disagree :
    (Plain [byteOrderMark] ∧ (Validate.partnerName [byteOrderMark]).isOk = true ∧
        (validatePartnerName (Utf16.encode [byteOrderMark])).isOk = false) ∧
      (Plain (List.replicate 101 '😀') ∧
        (Validate.partnerName (List.replicate 101 '😀')).isOk = true ∧
          (validatePartnerName (Utf16.encode (List.replicate 101 '😀'))).isOk = false) ∧
        (⟨"m", "p", .quarantined⟩ : Material).offersRetry = true ∧
          MaterialStatus.quarantined.canRetry = false := by
  decide +kernel

end Otdel.Web
