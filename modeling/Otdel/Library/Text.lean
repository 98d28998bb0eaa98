import Mathlib

/-!
# Texts as lists of Unicode scalar values

A `str` is the list of its scalar values; its bytes are the UTF-8 encoding of
that list.  Checks on bytes and byte lengths agree with checks on characters as
soon as the accepted bytes are ASCII.
-/

abbrev Text := List Char

namespace Text

/-- The bytes of a text. -/
def utf8Bytes (s : Text) : List UInt8 := s.flatMap String.utf8EncodeChar

/-- `str::len`: the number of bytes. -/
def byteLength (s : Text) : ℕ := s.utf8Bytes.length

@[simp] theorem utf8Bytes_nil : utf8Bytes [] = [] := rfl

@[simp] theorem utf8Bytes_cons (c : Char) (s : Text) :
    utf8Bytes (c :: s) = String.utf8EncodeChar c ++ utf8Bytes s := rfl

/-- A text is known by its bytes. -/
theorem utf8Bytes_injective : Function.Injective utf8Bytes := by
  intro s t h
  have hbytes : (String.ofList s).toByteArray = (String.ofList t).toByteArray := by
    rw [String.toByteArray_ofList, String.toByteArray_ofList]
    exact congrArg List.toByteArray h
  exact String.ofList_injective (String.toByteArray_inj.mp hbytes)

/-- A byte class that holds ASCII bytes only, seen as a character class. -/
def asciiClass (p : UInt8 → Bool) (c : Char) : Bool :=
  decide (c.utf8Size = 1) && p c.val.toUInt8

theorem not_ascii_or (x m : UInt8) (hm : 128 ≤ m.toNat) : ¬ (x ||| m).toNat < 128 := by
  rw [UInt8.toNat_or, not_lt, Nat.lor_comm]
  exact hm.trans Nat.left_le_or

/-- A character outside ASCII starts with a byte that has its top bit set. -/
theorem exists_high_byte {c : Char} (hsize : c.utf8Size ≠ 1) :
    ∃ b ∈ String.utf8EncodeChar c, ¬ b.toNat < 128 := by
  rcases c.utf8Size_eq with h | h | h | h
  · exact (hsize h).elim
  · rw [String.utf8EncodeChar_eq_cons_cons h]
    exact ⟨_, List.mem_cons_self, not_ascii_or _ _ (by decide)⟩
  · rw [String.utf8EncodeChar_eq_cons_cons_cons h]
    exact ⟨_, List.mem_cons_self, not_ascii_or _ _ (by decide)⟩
  · rw [String.utf8EncodeChar_eq_cons_cons_cons_cons h]
    exact ⟨_, List.mem_cons_self, not_ascii_or _ _ (by decide)⟩

theorem all_utf8EncodeChar {p : UInt8 → Bool} (hp : ∀ b, p b = true → b.toNat < 128)
    (c : Char) : (String.utf8EncodeChar c).all p = asciiClass p c := by
  by_cases hsize : c.utf8Size = 1
  · simp [String.utf8EncodeChar_eq_singleton hsize, asciiClass, hsize]
  · obtain ⟨b, hmem, hhigh⟩ := exists_high_byte hsize
    have hfalse : p b = false := by
      by_contra hne
      exact hhigh (hp b (by simpa using hne))
    have hall : (String.utf8EncodeChar c).all p = false := by
      rw [List.all_eq_false]
      exact ⟨b, hmem, by simp [hfalse]⟩
    simp [hall, asciiClass, hsize]

theorem all_utf8Bytes {p : UInt8 → Bool} (hp : ∀ b, p b = true → b.toNat < 128)
    (s : Text) : (utf8Bytes s).all p = s.all (asciiClass p) := by
  induction s with
  | nil => rfl
  | cons c s ih => rw [utf8Bytes_cons, List.all_append, ih, all_utf8EncodeChar hp, List.all_cons]

/-- An ASCII text has as many bytes as characters. -/
theorem byteLength_of_all {p : UInt8 → Bool} {s : Text} (h : s.all (asciiClass p) = true) :
    byteLength s = s.length := by
  induction s with
  | nil => rfl
  | cons c s ih =>
      simp only [List.all_cons, Bool.and_eq_true] at h
      have hsize : c.utf8Size = 1 := by
        have hc := h.1
        simp only [asciiClass, Bool.and_eq_true, decide_eq_true_eq] at hc
        exact hc.1
      have hrest := ih h.2
      simp only [byteLength, utf8Bytes_cons, List.length_append, String.length_utf8EncodeChar,
        hsize, List.length_cons] at hrest ⊢
      omega

/-- A check of all bytes together with a byte length is the same check of all
characters with the character length. -/
theorem bytes_check_iff {p : UInt8 → Bool} (hp : ∀ b, p b = true → b.toNat < 128)
    (n : ℕ) (s : Text) :
    (byteLength s = n ∧ (utf8Bytes s).all p = true) ↔
      (s.length = n ∧ s.all (asciiClass p) = true) := by
  rw [all_utf8Bytes hp]
  constructor
  · rintro ⟨hlen, hall⟩
    exact ⟨(byteLength_of_all hall).symm.trans hlen, hall⟩
  · rintro ⟨hlen, hall⟩
    exact ⟨(byteLength_of_all hall).trans hlen, hall⟩

/-! ## Prefixes and separators -/

/-- `str::strip_prefix`. -/
def stripPrefix (pre s : Text) : Option Text := pre.isPrefixOf? s

theorem stripPrefix_eq_some {pre s rest : Text} :
    stripPrefix pre s = some rest ↔ s = pre ++ rest := by
  rw [stripPrefix, List.isPrefixOf?_eq_some_iff_append_eq, eq_comm]

@[simp] theorem stripPrefix_append (pre rest : Text) :
    stripPrefix pre (pre ++ rest) = some rest := stripPrefix_eq_some.mpr rfl

/-- No piece of a split holds the separator. -/
theorem notMem_of_mem_splitOn {sep : Char} {s piece : Text} (h : piece ∈ s.splitOn sep) :
    sep ∉ piece := by
  induction s generalizing piece with
  | nil =>
      rw [List.splitOn_nil, List.mem_singleton] at h
      simp [h]
  | cons c s ih =>
      rw [List.splitOn_cons_eq_if_modifyHead] at h
      obtain ⟨head, tail, hsplit⟩ := List.exists_cons_of_ne_nil (List.splitOn_ne_nil sep s)
      rw [hsplit] at h ih
      by_cases hc : c = sep
      · simp only [hc, beq_self_eq_true, if_true, List.mem_cons] at h
        rcases h with rfl | h
        · simp
        · exact ih (List.mem_cons.mpr h)
      · simp only [beq_iff_eq, hc, if_false, List.modifyHead_cons, List.mem_cons] at h
        rcases h with rfl | h
        · simp only [List.mem_cons, not_or]
          exact ⟨fun heq ↦ hc heq.symm, ih (by simp)⟩
        · exact ih (by simp [h])

/-- Splitting gives exactly the listed pieces when they are joined by the
separator and none of them holds it. -/
theorem splitOn_eq_iff {sep : Char} {s : Text} {pieces : List Text} (hne : pieces ≠ []) :
    s.splitOn sep = pieces ↔
      s = [sep].intercalate pieces ∧ ∀ piece ∈ pieces, sep ∉ piece := by
  constructor
  · rintro rfl
    exact ⟨(List.intercalate_splitOn sep).symm, fun piece h ↦ notMem_of_mem_splitOn h⟩
  · rintro ⟨rfl, hpieces⟩
    exact List.splitOn_intercalate sep hpieces hne

theorem splitOn_injective (sep : Char) {s t : Text} (h : s.splitOn sep = t.splitOn sep) :
    s = t := by
  have hjoined := congrArg (List.intercalate [sep]) h
  rwa [List.intercalate_splitOn, List.intercalate_splitOn] at hjoined

/-- A text without the separator occurs within a piece. -/
theorem infix_or_of_infix_append_cons {sep : Char} {m a b : Text} (hm : sep ∉ m)
    (h : m <:+: a ++ sep :: b) : m <:+: a ∨ m <:+: b := by
  rcases List.infix_append_iff.mp h with h | h | ⟨l, r, rfl, hl, hr⟩
  · exact Or.inl h
  · rcases List.infix_cons_iff.mp h with h | h
    · cases m with
      | nil => exact Or.inl List.nil_infix
      | cons c m =>
          obtain ⟨rfl, -⟩ := List.cons_prefix_cons.mp h
          exact (hm List.mem_cons_self).elim
    · exact Or.inr h
  · cases r with
    | nil =>
        rw [List.append_nil]
        exact Or.inl hl.isInfix
    | cons c r =>
        obtain ⟨rfl, -⟩ := List.cons_prefix_cons.mp hr
        exact (hm (by simp)).elim

/-! ## Character classes -/

/-- `char::is_whitespace`. -/
def isWhitespace (c : Char) : Bool :=
  let n := c.toNat
  (9 ≤ n && n ≤ 13) || n = 0x20 || n = 0x85 || n = 0xa0 || n = 0x1680 ||
    (0x2000 ≤ n && n ≤ 0x200a) || n = 0x2028 || n = 0x2029 || n = 0x202f || n = 0x205f ||
    n = 0x3000

/-- `char::is_control`. -/
def isControl (c : Char) : Bool :=
  c.toNat < 0x20 || (0x7f ≤ c.toNat && c.toNat ≤ 0x9f)

/-- `trim_matches` with a class of characters. -/
def trimMatches (p : Char → Bool) (s : Text) : Text := (s.dropWhile p).rdropWhile p

/-- `str::trim`. -/
def trim (s : Text) : Text := trimMatches isWhitespace s

/-- A text whose ends are not in the class stays as it is. -/
theorem trimMatches_eq_self {p : Char → Bool} {s : Text} (hhead : ∀ c ∈ s.head?, p c = false)
    (hlast : ∀ c ∈ s.getLast?, p c = false) : trimMatches p s = s := by
  have hdrop : s.dropWhile p = s := by
    cases s with
    | nil => rfl
    | cons c s => exact List.dropWhile_cons_of_neg (by simp [hhead c rfl])
  rw [trimMatches, hdrop, List.rdropWhile_eq_self_iff]
  intro hne
  simp [hlast _ (List.getLast?_eq_some_getLast hne)]

theorem head?_trimMatches {p : Char → Bool} {s : Text} {c : Char}
    (h : c ∈ (trimMatches p s).head?) : p c = false := by
  obtain ⟨rest, hrest⟩ := List.rdropWhile_prefix p (s.dropWhile p)
  have hhead : (s.dropWhile p).head? = some c := by
    rw [Option.mem_def, trimMatches] at h
    rw [← hrest, List.head?_append, h]
    rfl
  have hnot := List.head?_dropWhile_not p s
  rw [hhead] at hnot
  simpa using hnot

theorem getLast?_trimMatches {p : Char → Bool} {s : Text} {c : Char}
    (h : c ∈ (trimMatches p s).getLast?) : p c = false := by
  have hne : trimMatches p s ≠ [] := by
    intro hnil
    simp [hnil] at h
  have hnot : ¬ p ((trimMatches p s).getLast hne) = true := List.rdropWhile_last_not p _ hne
  rw [Option.mem_def, List.getLast?_eq_some_getLast hne, Option.some.injEq] at h
  rwa [h, Bool.not_eq_true] at hnot

/-- Trimming more has nothing left to trim for less. -/
theorem trimMatches_trimMatches {p q : Char → Bool} (h : ∀ c, p c = true → q c = true)
    (s : Text) : trimMatches p (trimMatches q s) = trimMatches q s := by
  have hnot : ∀ c, q c = false → p c = false := by
    intro c hq
    by_contra hp
    simp [h c (by simpa using hp)] at hq
  exact trimMatches_eq_self (fun c hc ↦ hnot c (head?_trimMatches hc))
    fun c hc ↦ hnot c (getLast?_trimMatches hc)

theorem trimMatches_sublist (p : Char → Bool) (s : Text) : List.Sublist (trimMatches p s) s :=
  (List.rdropWhile_prefix p _).sublist.trans (List.dropWhile_sublist p)

theorem mem_of_mem_trimMatches {p : Char → Bool} {s : Text} {c : Char} (h : c ∈ trimMatches p s) :
    c ∈ s := (trimMatches_sublist p s).subset h

theorem trimMatches_map (p : Char → Bool) (f : Char → Char) (s : Text) :
    trimMatches p (s.map f) = (trimMatches (p ∘ f) s).map f := by
  simp only [trimMatches, List.rdropWhile, List.dropWhile_map, ← List.map_reverse]

/-- What trimming takes off at either end. -/
theorem exists_trimMatches (p : Char → Bool) (s : Text) :
    ∃ a b, s = a ++ trimMatches p s ++ b ∧ (∀ c ∈ a, p c = true) ∧ ∀ c ∈ b, p c = true := by
  refine ⟨s.takeWhile p, (s.dropWhile p).rtakeWhile p, ?_, ?_, ?_⟩
  · rw [trimMatches, List.append_assoc, List.rdropWhile_append_rtakeWhile,
      List.takeWhile_append_dropWhile]
  · exact fun c hc ↦ List.mem_takeWhile_imp hc
  · exact fun c hc ↦ List.mem_rtakeWhile_imp hc

/-- Nothing before a character that stays is taken off at the end. -/
theorem rdropWhile_append {p : Char → Bool} {s : Text} (hlast : ∀ c ∈ s.getLast?, p c = false)
    (t : Text) : (s ++ t).rdropWhile p = s ++ t.rdropWhile p := by
  induction t using List.reverseRecOn with
  | nil =>
      rw [List.append_nil, List.rdropWhile_nil, List.append_nil, List.rdropWhile_eq_self_iff]
      intro hne
      simp [hlast _ (List.getLast?_eq_some_getLast hne)]
  | append_singleton t c ih =>
      rw [← List.append_assoc, List.rdropWhile_concat, List.rdropWhile_concat, ih]
      split
      · rfl
      · rw [List.append_assoc]

theorem rdropWhile_append_of_all {p : Char → Bool} (s : Text) {t : Text}
    (h : ∀ c ∈ t, p c = true) : (s ++ t).rdropWhile p = s.rdropWhile p := by
  induction t using List.reverseRecOn with
  | nil => rw [List.append_nil]
  | append_singleton t c ih =>
      rw [← List.append_assoc, List.rdropWhile_concat_pos _ _ _ (h c (by simp))]
      exact ih fun d hd ↦ h d (by simp [hd])

theorem rdropWhile_append_of_not_all {p : Char → Bool} (s : Text) {t : Text}
    (h : ¬ ∀ c ∈ t, p c = true) : (s ++ t).rdropWhile p = s ++ t.rdropWhile p := by
  induction t using List.reverseRecOn with
  | nil => exact (h fun _ hc ↦ nomatch hc).elim
  | append_singleton t c ih =>
      rw [← List.append_assoc, List.rdropWhile_concat, List.rdropWhile_concat]
      split
      · rename_i hc
        apply ih
        intro hall
        apply h
        intro d hd
        rcases List.mem_append.mp hd with hd | hd
        · exact hall d hd
        · rwa [List.mem_singleton.mp hd]
      · rw [List.append_assoc]

theorem dropWhile_append_of_all {p : Char → Bool} {s t : Text} (h : ∀ c ∈ s, p c = true)
    (hhead : ∀ c ∈ t.head?, p c = false) : (s ++ t).dropWhile p = t := by
  induction s with
  | nil =>
      cases t with
      | nil => rfl
      | cons c t => exact List.dropWhile_cons_of_neg (by simp [hhead c rfl])
  | cons c s ih =>
      rw [List.cons_append, List.dropWhile_cons_of_pos (h c List.mem_cons_self)]
      exact ih fun d hd ↦ h d (List.mem_cons_of_mem c hd)

/-- Trim before a part whose ends stay. -/
theorem trimMatches_append {p : Char → Bool} {a m : Text} (ha : ∀ c ∈ a, p c = true)
    (hhead : ∀ c ∈ m.head?, p c = false) (hlast : ∀ c ∈ m.getLast?, p c = false) (hm : m ≠ [])
    (t : Text) : trimMatches p (a ++ (m ++ t)) = m ++ t.rdropWhile p := by
  rw [trimMatches, dropWhile_append_of_all ha, rdropWhile_append hlast]
  intro c hc
  rw [List.head?_append_of_ne_nil _ hm] at hc
  exact hhead c hc

/-- Only the members of the class at the ends of the text matter. -/
theorem trimMatches_congr {p q : Char → Bool} {s : Text} (h : ∀ c ∈ s, p c = q c) :
    trimMatches p s = trimMatches q s := by
  have hdrop : ∀ t : Text, (∀ c ∈ t, p c = q c) → t.dropWhile p = t.dropWhile q := by
    intro t ht
    induction t with
    | nil => rfl
    | cons c t ih =>
        rw [List.dropWhile_cons, List.dropWhile_cons, ht c List.mem_cons_self]
        split
        · exact ih fun d hd ↦ ht d (List.mem_cons_of_mem c hd)
        · rfl
  rw [trimMatches, trimMatches, hdrop s h, List.rdropWhile, List.rdropWhile, hdrop]
  intro c hc
  exact h c ((List.dropWhile_sublist q).subset (List.mem_reverse.mp hc))

/-- Trimming less first changes nothing. -/
theorem trimMatches_of_trimMatches {p q : Char → Bool} (h : ∀ c, p c = true → q c = true)
    (s : Text) : trimMatches q (trimMatches p s) = trimMatches q s := by
  obtain ⟨a, b, hs, ha, hb⟩ := exists_trimMatches p s
  have hqa : ∀ c ∈ a, q c = true := fun c hc ↦ h c (ha c hc)
  have hqb : ∀ c ∈ b, q c = true := fun c hc ↦ h c (hb c hc)
  have hdrop : s.dropWhile q = (trimMatches p s ++ b).dropWhile q := by
    conv_lhs => rw [hs, List.append_assoc, List.dropWhile_append_of_pos hqa]
  rw [trimMatches, trimMatches.eq_def q s, hdrop, List.dropWhile_append]
  split
  · rename_i hempty
    rw [List.isEmpty_iff.mp hempty, List.dropWhile_eq_nil_iff.mpr hqb]
  · rw [rdropWhile_append_of_all _ hqb]

/-- `char::to_ascii_lowercase`. -/
def toAsciiLowercase (c : Char) : Char := if 'A' ≤ c ∧ c ≤ 'Z' then c.toLower else c

/-! ## Hexadecimal digits -/

instance : NeZero 16 := ⟨by decide⟩

def hexDigit (n : Fin 16) : Char := "0123456789abcdef".toList.get (n.cast (by decide))

/-- The value of a hexadecimal digit in either letter case. -/
def hexValue? (c : Char) : Option (Fin 16) :=
  (List.finRange 16).find? fun n ↦ c = hexDigit n || c = (hexDigit n).toUpper

@[simp] theorem hexValue?_hexDigit (n : Fin 16) : hexValue? (hexDigit n) = some n := by
  revert n
  decide

end Text
