import Otdel.Library.Text

/-!
# UTF-16

A text as the code units of another language: a character outside the basic
plane is two units, and every other one is one.
-/

namespace Utf16

/-- A character beyond U+FFFF. -/
def isAstral (c : Char) : Bool := 0x10000 ≤ c.toNat

def encodeChar (c : Char) : List UInt16 :=
  let n := c.toNat
  if n < 0x10000 then [UInt16.ofNat n]
  else [UInt16.ofNat (0xd800 + (n - 0x10000) / 0x400),
    UInt16.ofNat (0xdc00 + (n - 0x10000) % 0x400)]

def encode (s : Text) : List UInt16 := s.flatMap encodeChar

@[simp] theorem encode_nil : encode [] = [] := rfl

@[simp] theorem encode_cons (c : Char) (s : Text) :
    encode (c :: s) = encodeChar c ++ encode s := rfl

theorem encode_append (s t : Text) : encode (s ++ t) = encode s ++ encode t :=
  List.flatMap_append

theorem length_encodeChar (c : Char) :
    (encodeChar c).length = 1 + if isAstral c = true then 1 else 0 := by
  unfold encodeChar isAstral
  by_cases hc : c.toNat < 0x10000
  · simp [hc, Nat.not_le.mpr hc]
  · simp [hc, Nat.not_lt.mp hc]

theorem encodeChar_ne_nil (c : Char) : encodeChar c ≠ [] := by
  intro hnil
  have hlength := length_encodeChar c
  rw [hnil, List.length_nil] at hlength
  omega

theorem length_encode (s : Text) : (encode s).length = s.length + s.countP isAstral := by
  induction s with
  | nil => rfl
  | cons c s ih =>
      rw [encode_cons, List.length_append, length_encodeChar, ih, List.countP_cons,
        List.length_cons]
      omega

/-! ## Trimming -/

/-- Take the units of a class off at both ends. -/
def trimUnits (q : UInt16 → Bool) (s : List UInt16) : List UInt16 := (s.dropWhile q).rdropWhile q

section Trim

variable {p : Char → Bool} {q : UInt16 → Bool}

/-- The class of units is a class of whole characters. -/
def Matches (p : Char → Bool) (q : UInt16 → Bool) : Prop :=
  ∀ c, ∀ unit ∈ encodeChar c, q unit = p c

theorem encode_dropWhile (h : Matches p q) (s : Text) :
    (encode s).dropWhile q = encode (s.dropWhile p) := by
  induction s with
  | nil => rfl
  | cons c s ih =>
      rw [encode_cons]
      by_cases hc : p c = true
      · have hall : ∀ unit ∈ encodeChar c, q unit = true := fun unit hmem ↦
          (h c unit hmem).trans hc
        rw [List.dropWhile_append_of_pos hall, List.dropWhile_cons_of_pos hc, ih]
      · obtain ⟨unit, units, hunits⟩ := List.exists_cons_of_ne_nil (encodeChar_ne_nil c)
        have hunit : ¬ q unit = true := by
          rwa [h c unit (by simp [hunits])]
        rw [List.dropWhile_cons_of_neg hc, encode_cons, hunits, List.cons_append,
          List.dropWhile_cons_of_neg hunit]

theorem encode_rdropWhile (h : Matches p q) (s : Text) :
    (encode s).rdropWhile q = encode (s.rdropWhile p) := by
  induction s using List.reverseRecOn with
  | nil => simp
  | append_singleton s c ih =>
      rw [encode_append, encode_cons, encode_nil, List.append_nil]
      by_cases hc : p c = true
      · have hall : ∀ unit ∈ (encodeChar c).reverse, q unit = true := fun unit hmem ↦
          (h c unit (List.mem_reverse.mp hmem)).trans hc
        rw [List.rdropWhile, List.reverse_append, List.dropWhile_append_of_pos hall,
          List.rdropWhile_concat_pos p s c hc]
        exact ih
      · have hlast : ∀ hne, ¬ q ((encode s ++ encodeChar c).getLast hne) = true := by
          intro hne
          rw [List.getLast_append_of_ne_nil hne (encodeChar_ne_nil c),
            h c _ (List.getLast_mem _)]
          exact hc
        rw [List.rdropWhile_eq_self_iff.mpr hlast, List.rdropWhile_concat_neg p s c hc,
          encode_append, encode_cons, encode_nil, List.append_nil]

theorem trimUnits_encode (h : Matches p q) (s : Text) :
    trimUnits q (encode s) = encode (Text.trimMatches p s) := by
  rw [trimUnits, encode_dropWhile h, encode_rdropWhile h, Text.trimMatches]

end Trim

end Utf16
