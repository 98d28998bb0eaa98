import Otdel.Core.Validate

/-!
# Random tokens

Session and CSRF tokens are 32 random bytes in base64url.
-/

namespace Otdel

/-- `URL_SAFE_NO_PAD` of the `base64` crate: four characters of the alphabet for three bytes,
and two or three for what is left. -/
structure Base64Url where
  encode : Bytes → Text
  length_encode : ∀ bytes, (encode bytes).length = (4 * bytes.length + 2) / 3
  alphabet : ∀ bytes, ∀ c ∈ encode bytes,
    (Validate.isAsciiAlphanumeric c || c = '-' || c = '_') = true

/-- An opaque token, of 32 bytes that the operating system has drawn. -/
def generateToken (base64 : Base64Url) (bytes : Vector UInt8 32) : Text :=
  base64.encode bytes.toList

theorem length_generateToken (base64 : Base64Url) (bytes : Vector UInt8 32) :
    (generateToken base64 bytes).length = 43 := by
  rw [generateToken, base64.length_encode, Vector.length_toList]

namespace Base64Url

/-! ## An encoder with the documented behaviour -/

def digits : Text := "ABCDEFGHIJKLMNOPQRSTUVWXYZabcdefghijklmnopqrstuvwxyz0123456789-_".toList

def digit (n : ℕ) : Char := digits.getD (n % 64) 'A'

def encodeBytes : Bytes → Text
  | a :: b :: c :: rest =>
      digit (a.toNat / 4) :: digit (a.toNat * 16 + b.toNat / 16) ::
        digit (b.toNat * 4 + c.toNat / 64) :: digit c.toNat :: encodeBytes rest
  | [a, b] =>
      [digit (a.toNat / 4), digit (a.toNat * 16 + b.toNat / 16), digit (b.toNat * 4)]
  | [a] => [digit (a.toNat / 4), digit (a.toNat * 16)]
  | [] => []

theorem digit_mem (n : ℕ) : digit n ∈ digits := by
  have hlength : digits.length = 64 := by decide
  have hlt : n % 64 < digits.length := by omega
  rw [digit, List.getD_eq_getElem _ _ hlt]
  exact List.getElem_mem hlt

theorem mem_encodeBytes (bytes : Bytes) : ∀ c ∈ encodeBytes bytes, c ∈ digits := by
  fun_induction encodeBytes bytes with
  | case1 a b c rest ih =>
      intro d hd
      simp only [List.mem_cons] at hd
      rcases hd with rfl | rfl | rfl | rfl | hd
      · exact digit_mem _
      · exact digit_mem _
      · exact digit_mem _
      · exact digit_mem _
      · exact ih d hd
  | case2 => simp [digit_mem]
  | case3 => simp [digit_mem]
  | case4 => simp

theorem length_encodeBytes (bytes : Bytes) :
    (encodeBytes bytes).length = (4 * bytes.length + 2) / 3 := by
  fun_induction encodeBytes bytes with
  | case1 a b c rest ih =>
      simp only [List.length_cons, ih]
      omega
  | case2 | case3 | case4 => simp

/-- The assumptions on the crate can be met. -/
def reference : Base64Url where
  encode := encodeBytes
  length_encode := length_encodeBytes
  alphabet bytes c hc := by
    have hall : digits.all (fun c ↦
        Validate.isAsciiAlphanumeric c || c = '-' || c = '_') = true := by decide
    exact List.all_eq_true.mp hall c (mem_encodeBytes bytes c hc)

end Base64Url

/-- The engine writes `hello` as `aGVsbG8`. -/
example : Base64Url.reference.encode [104, 101, 108, 108, 111] = "aGVsbG8".toList := by decide

end Otdel
