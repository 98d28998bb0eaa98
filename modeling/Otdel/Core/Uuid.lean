import Otdel.Library.Text

/-!
# UUIDs and their texts

The `uuid` crate is not part of the repository.  Its `Uuid::parse_str` and
`Display` enter as a parameter that carries their documented behaviour: the
parser accepts the simple, hyphenated, braced and URN forms with digits in
either letter case, `Display` prints the lowercase hyphenated form.
-/

namespace Otdel

/-- The sixteen bytes of a UUID, as the 32 nibbles its texts print. -/
structure Uuid where
  nibbles : List (Fin 16)
  length_eq : nibbles.length = 32
  deriving DecidableEq

namespace Uuid

instance : Inhabited Uuid := ⟨List.replicate 32 0, List.length_replicate⟩

theorem ext_nibbles {u v : Uuid} (h : u.nibbles = v.nibbles) : u = v := by
  cases u
  cases v
  cases h
  rfl

/-- The number whose order is the order of the bytes. -/
def value (u : Uuid) : ℕ := Nat.ofDigits 16 (u.nibbles.map Fin.val).reverse

theorem value_injective : Function.Injective value := by
  intro u v h
  have hdigits := Nat.ofDigits_inj_of_len_eq (by norm_num : 1 < 16)
    (by simp [u.length_eq, v.length_eq]) (by simp) (by simp) h
  rw [List.reverse_inj] at hdigits
  exact ext_nibbles (List.map_injective_iff.mpr Fin.val_injective hdigits)

/-- The lowercase digits without separators. -/
def simple (u : Uuid) : Text := u.nibbles.map Text.hexDigit

@[simp] theorem length_simple (u : Uuid) : u.simple.length = 32 := by
  simp [simple, u.length_eq]

/-- Hyphens after digits 8, 12, 16 and 20. -/
def hyphenate (digits : Text) : Text :=
  digits.take 8 ++ '-' :: ((digits.drop 8).take 4 ++ '-' :: ((digits.drop 12).take 4 ++
    '-' :: ((digits.drop 16).take 4 ++ '-' :: digits.drop 20)))

def unhyphenate (s : Text) : Text :=
  s.take 8 ++ ((s.drop 9).take 4 ++ ((s.drop 14).take 4 ++ ((s.drop 19).take 4 ++ s.drop 24)))

/-- What `Display` prints. -/
def hyphenated (u : Uuid) : Text := hyphenate u.simple

theorem length_hyphenate {digits : Text} (h : digits.length = 32) :
    (hyphenate digits).length = 36 := by
  simp [hyphenate, h]

theorem take_append_drop_add (n k : ℕ) (s : Text) :
    (s.drop n).take k ++ s.drop (n + k) = s.drop n := by
  rw [← List.drop_drop, List.take_append_drop]

theorem unhyphenate_hyphenate {digits : Text} (h : digits.length = 32) :
    unhyphenate (hyphenate digits) = digits := by
  have hcut : unhyphenate (hyphenate digits) =
      digits.take 8 ++ ((digits.drop 8).take 4 ++ ((digits.drop 12).take 4 ++
        ((digits.drop 16).take 4 ++ digits.drop 20))) := by
    simp [hyphenate, unhyphenate, List.drop_append, List.drop_take, h]
  rw [hcut, take_append_drop_add 16 4, take_append_drop_add 12 4, take_append_drop_add 8 4,
    List.take_append_drop]

/-- The digits spell `u`, in either letter case. -/
def Spells (digits : Text) (u : Uuid) : Prop :=
  digits.map Text.hexValue? = u.nibbles.map some

theorem spells_simple (u : Uuid) : Spells u.simple u := by
  simp [Spells, simple]

theorem Spells.length {digits : Text} {u : Uuid} (h : Spells digits u) :
    digits.length = 32 := by
  have hlen := congrArg List.length h
  simpa [u.length_eq] using hlen

theorem Spells.unique {digits : Text} {u v : Uuid} (hu : Spells digits u)
    (hv : Spells digits v) : u = v := by
  apply ext_nibbles
  exact List.map_injective_iff.mpr (Option.some_injective _) (hu.symm.trans hv)

/-- The documented spellings of `u`. -/
inductive IsForm (u : Uuid) : Text → Prop
  | simple {digits : Text} (h : Spells digits u) : IsForm u digits
  | hyphenated {digits : Text} (h : Spells digits u) : IsForm u (hyphenate digits)
  | braced {digits : Text} (h : Spells digits u) :
      IsForm u ('{' :: (hyphenate digits ++ ['}']))
  | urn {digits : Text} (h : Spells digits u) :
      IsForm u ("urn:uuid:".toList ++ hyphenate digits)

theorem isForm_hyphenated (u : Uuid) : IsForm u u.hyphenated := .hyphenated (spells_simple u)

theorem mem_hyphenate {c : Char} {digits : Text} (h : c ∈ hyphenate digits) :
    c ∈ digits ∨ c = '-' := by
  simp only [hyphenate, List.mem_append, List.mem_cons] at h
  rcases h with h | h | h | h | h | h | h | h | h
  · exact Or.inl (List.mem_of_mem_take h)
  · exact Or.inr h
  · exact Or.inl (List.mem_of_mem_drop (List.mem_of_mem_take h))
  · exact Or.inr h
  · exact Or.inl (List.mem_of_mem_drop (List.mem_of_mem_take h))
  · exact Or.inr h
  · exact Or.inl (List.mem_of_mem_drop (List.mem_of_mem_take h))
  · exact Or.inr h
  · exact Or.inl (List.mem_of_mem_drop h)

theorem Spells.slash_notMem {digits : Text} {u : Uuid} (h : Spells digits u) :
    '/' ∉ digits := by
  intro hmem
  have himage : Text.hexValue? '/' ∈ u.nibbles.map some := by
    rw [← h]
    exact List.mem_map_of_mem hmem
  obtain ⟨n, -, hn⟩ := List.mem_map.mp himage
  exact absurd hn (by revert n; decide)

theorem IsForm.slash_notMem {s : Text} {u : Uuid} (h : u.IsForm s) : '/' ∉ s := by
  have hyphenated : ∀ {digits : Text}, Spells digits u → '/' ∉ hyphenate digits := by
    intro digits hdigits hmem
    rcases mem_hyphenate hmem with hmem | hmem
    · exact hdigits.slash_notMem hmem
    · simp at hmem
  cases h with
  | simple h => exact h.slash_notMem
  | hyphenated h => exact hyphenated h
  | braced h => simpa using hyphenated h
  | urn h =>
      rw [List.mem_append, not_or]
      exact ⟨by decide, hyphenated h⟩

end Uuid

/-- `Uuid::parse_str` and `Display` of the `uuid` crate. -/
structure UuidCrate where
  parseStr : Text → Option Uuid
  display : Uuid → Text
  parseStr_eq_some_iff : ∀ s u, parseStr s = some u ↔ u.IsForm s
  display_eq : ∀ u, display u = u.hyphenated

namespace UuidCrate

theorem parseStr_display (uuid : UuidCrate) (u : Uuid) :
    uuid.parseStr (uuid.display u) = some u := by
  rw [uuid.display_eq, uuid.parseStr_eq_some_iff]
  exact u.isForm_hyphenated

theorem isForm_display (uuid : UuidCrate) (u : Uuid) : u.IsForm (uuid.display u) :=
  (uuid.parseStr_eq_some_iff _ _).mp (uuid.parseStr_display u)

/-- A text spells one UUID at most. -/
theorem form_unique (uuid : UuidCrate) {s : Text} {u v : Uuid} (hu : u.IsForm s)
    (hv : v.IsForm s) : u = v := by
  rw [← uuid.parseStr_eq_some_iff] at hu hv
  exact Option.some.inj (hu.symm.trans hv)

/-! ## A parser with the documented behaviour -/

def ofDigits (digits : Text) : Option Uuid :=
  let nibbles := digits.filterMap Text.hexValue?
  if h : nibbles.length = 32 ∧ digits.map Text.hexValue? = nibbles.map some then
    some ⟨nibbles, h.1⟩
  else none

theorem ofDigits_eq_some_iff {digits : Text} {u : Uuid} :
    ofDigits digits = some u ↔ u.Spells digits := by
  constructor
  · intro h
    unfold ofDigits at h
    simp only at h
    split at h
    · rename_i hdigits
      cases h
      exact hdigits.2
    · cases h
  · intro h
    have hnibbles : digits.filterMap Text.hexValue? = u.nibbles := by
      have hmap := congrArg (List.filterMap id) h
      simpa [List.filterMap_map, Function.comp_def] using hmap
    unfold ofDigits
    simp only [hnibbles]
    rw [dif_pos ⟨u.length_eq, h⟩]

def ofHyphenated (s : Text) : Option Uuid :=
  if Uuid.hyphenate (Uuid.unhyphenate s) = s then ofDigits (Uuid.unhyphenate s) else none

theorem ofHyphenated_eq_some_iff {s : Text} {u : Uuid} :
    ofHyphenated s = some u ↔ ∃ digits, u.Spells digits ∧ s = Uuid.hyphenate digits := by
  constructor
  · intro h
    unfold ofHyphenated at h
    split at h
    · rename_i heq
      exact ⟨_, ofDigits_eq_some_iff.mp h, heq.symm⟩
    · cases h
  · rintro ⟨digits, hspells, rfl⟩
    unfold ofHyphenated
    rw [Uuid.unhyphenate_hyphenate hspells.length, if_pos rfl]
    exact ofDigits_eq_some_iff.mpr hspells

/-- The text between braces. -/
def unbrace : Text → Option Text
  | '{' :: rest => if rest.getLast? = some '}' then some rest.dropLast else none
  | _ => none

theorem unbrace_eq_some_iff {s inner : Text} :
    unbrace s = some inner ↔ s = '{' :: (inner ++ ['}']) := by
  constructor
  · intro h
    unfold unbrace at h
    split at h
    · rename_i rest
      split at h
      · rename_i hlast
        cases h
        rw [List.dropLast_append_getLast? _ hlast]
      · cases h
    · cases h
  · rintro rfl
    simp [unbrace]

/-- Dispatch on the length, then on the decoration. -/
def parse (s : Text) : Option Uuid :=
  if s.length = 32 then ofDigits s
  else if s.length = 36 then ofHyphenated s
  else match unbrace s with
    | some inner => ofHyphenated inner
    | none => (Text.stripPrefix "urn:uuid:".toList s).bind ofHyphenated

theorem parse_of_isForm {s : Text} {u : Uuid} (h : u.IsForm s) : parse s = some u := by
  cases h with
  | simple h =>
      rw [parse, if_pos h.length]
      exact ofDigits_eq_some_iff.mpr h
  | hyphenated h =>
      have hlen := Uuid.length_hyphenate h.length
      rw [parse, if_neg (by omega), if_pos hlen]
      exact ofHyphenated_eq_some_iff.mpr ⟨_, h, rfl⟩
  | @braced digits h =>
      have hlen := Uuid.length_hyphenate h.length
      have hbrace : unbrace ('{' :: (Uuid.hyphenate digits ++ ['}'])) =
          some (Uuid.hyphenate digits) := unbrace_eq_some_iff.mpr rfl
      have hall : ('{' :: (Uuid.hyphenate digits ++ ['}'])).length = 38 := by simp [hlen]
      rw [parse, if_neg (by omega), if_neg (by omega), hbrace]
      exact ofHyphenated_eq_some_iff.mpr ⟨_, h, rfl⟩
  | @urn digits h =>
      have hlen := Uuid.length_hyphenate h.length
      have hall : ("urn:uuid:".toList ++ Uuid.hyphenate digits).length = 45 := by
        simp [hlen]
      have hbrace : unbrace ("urn:uuid:".toList ++ Uuid.hyphenate digits) = none := rfl
      rw [parse, if_neg (by omega), if_neg (by omega), hbrace]
      simp only [Text.stripPrefix_append, Option.bind_some]
      exact ofHyphenated_eq_some_iff.mpr ⟨_, h, rfl⟩

theorem isForm_of_parse {s : Text} {u : Uuid} (h : parse s = some u) : u.IsForm s := by
  unfold parse at h
  split at h
  · exact .simple (ofDigits_eq_some_iff.mp h)
  split at h
  · obtain ⟨digits, hspells, rfl⟩ := ofHyphenated_eq_some_iff.mp h
    exact .hyphenated hspells
  split at h
  · rename_i inner hinner
    obtain ⟨digits, hspells, rfl⟩ := ofHyphenated_eq_some_iff.mp h
    rw [unbrace_eq_some_iff.mp hinner]
    exact .braced hspells
  · obtain ⟨inner, hinner, hparse⟩ := Option.bind_eq_some_iff.mp h
    obtain ⟨digits, hspells, rfl⟩ := ofHyphenated_eq_some_iff.mp hparse
    rw [Text.stripPrefix_eq_some.mp hinner]
    exact .urn hspells

/-- The assumptions on the crate can be met. -/
def reference : UuidCrate where
  parseStr := parse
  display := Uuid.hyphenated
  parseStr_eq_some_iff := fun _ _ ↦ ⟨isForm_of_parse, parse_of_isForm⟩
  display_eq := fun _ ↦ rfl

end UuidCrate

end Otdel
