import Otdel.Core.Validate

/-!
# Headers as the server's library reads them

The first value of a name, the text of a value and the value of a text.
-/

namespace Otdel

/-- Names in lowercase and values of any bytes, in the order of the request. -/
abbrev HeaderMap := List (String × Bytes)

def isVisibleAscii (b : UInt8) : Bool := (32 ≤ b.toNat && b.toNat < 127) || b.toNat = 9

def isVisible (c : Char) : Bool := 32 ≤ c.toNat && c.toNat < 127

/-- The `http` crate: `HeaderMap::get`, and `HeaderValue::to_str` and `from_str`. -/
structure HttpCrate where
  get : HeaderMap → String → Option Bytes
  toStr : Bytes → Option Text
  fromStr : Text → Option Text
  get_eq_some_iff : ∀ headers name value, get headers name = some value ↔
    ∃ before after, headers = before ++ (name, value) :: after ∧
      ∀ header ∈ before, header.1 ≠ name
  toStr_eq_some_iff : ∀ value s, toStr value = some s ↔
    value.all isVisibleAscii = true ∧ value = s.utf8Bytes
  fromStr_of_visible : ∀ s, s.all isVisible = true → fromStr s = some s

variable {value : Bytes} {s : Text}

theorem isVisibleAscii_lt {b : UInt8} (h : isVisibleAscii b = true) : b.toNat < 128 := by
  simp only [isVisibleAscii, Bool.or_eq_true, Bool.and_eq_true, decide_eq_true_eq] at h
  omega

theorem utf8EncodeChar_ofNat : ∀ n : Fin 128,
    String.utf8EncodeChar (Char.ofNat n) = [UInt8.ofNat n] := by decide

/-- The text of a readable value has the bytes of the value. -/
theorem utf8Bytes_of_all (h : value.all isVisibleAscii = true) :
    Text.utf8Bytes (value.map fun b ↦ Char.ofNat b.toNat) = value := by
  induction value with
  | nil => rfl
  | cons b value ih =>
      simp only [List.all_cons, Bool.and_eq_true] at h
      have hb := utf8EncodeChar_ofNat ⟨b.toNat, isVisibleAscii_lt h.1⟩
      rw [List.map_cons, Text.utf8Bytes_cons, ih h.2, hb, UInt8.ofNat_toNat]
      rfl

namespace HttpCrate

variable (http : HttpCrate) {headers : HeaderMap} {name : String}

theorem toStr_eq_none_iff : http.toStr value = none ↔ value.all isVisibleAscii = false := by
  rw [Option.eq_none_iff_forall_ne_some, ← Bool.not_eq_true]
  constructor
  · intro hnone hvisible
    exact hnone _ ((http.toStr_eq_some_iff value _).mpr
      ⟨hvisible, (utf8Bytes_of_all hvisible).symm⟩)
  · exact fun hnot s hs ↦ hnot ((http.toStr_eq_some_iff value s).mp hs).1

theorem mem_of_get (h : http.get headers name = some value) : (name, value) ∈ headers := by
  obtain ⟨before, after, rfl, -⟩ := (http.get_eq_some_iff _ _ _).mp h
  exact List.mem_append_right _ List.mem_cons_self

/-! ## A crate with the documented behaviour -/

theorem find?_eq_some_iff : (headers.find? fun header ↦ header.1 = name).map Prod.snd =
      some value ↔
    ∃ before after, headers = before ++ (name, value) :: after ∧
      ∀ header ∈ before, header.1 ≠ name := by
  rw [Option.map_eq_some_iff]
  constructor
  · rintro ⟨⟨name', value'⟩, hfind, rfl⟩
    obtain ⟨hname, before, after, hsplit, hbefore⟩ := List.find?_eq_some_iff_append.mp hfind
    obtain rfl : name' = name := by simpa using hname
    exact ⟨before, after, hsplit, fun header hheader ↦ by simpa using hbefore header hheader⟩
  · rintro ⟨before, after, hsplit, hbefore⟩
    refine ⟨(name, value), List.find?_eq_some_iff_append.mpr ⟨by simp, before, after, hsplit, ?_⟩,
      rfl⟩
    exact fun header hheader ↦ by simpa using hbefore header hheader

def reference : HttpCrate where
  get headers name := (headers.find? fun header ↦ header.1 = name).map Prod.snd
  toStr value :=
    if value.all isVisibleAscii then some (value.map fun b ↦ Char.ofNat b.toNat) else none
  fromStr s := if s.all isVisible then some s else none
  get_eq_some_iff _ _ _ := find?_eq_some_iff
  toStr_eq_some_iff value s := by
    rw [Option.ite_none_right_eq_some, Option.some.injEq]
    constructor
    · rintro ⟨hvisible, rfl⟩
      exact ⟨hvisible, (utf8Bytes_of_all hvisible).symm⟩
    · rintro ⟨hvisible, rfl⟩
      exact ⟨hvisible, Text.utf8Bytes_injective (utf8Bytes_of_all hvisible)⟩
  fromStr_of_visible _ h := if_pos h

end HttpCrate

end Otdel
