import Otdel.Core.Config
import Otdel.Core.Uuid

/-!
# Bureaus
-/

namespace Otdel

structure BureauRow where
  id : Uuid
  slug : Text
  name : Text
  deriving DecidableEq

namespace BureauRow

/-- `slug ~ '^[a-z0-9-]{1,64}$'`. -/
def slugCheck (slug : Text) : Bool :=
  1 ≤ slug.length && slug.length ≤ 64 && slug.all isSlugChar

/-- `char_length(name) BETWEEN 1 AND 200`. -/
def nameCheck (name : Text) : Bool := 1 ≤ name.length && name.length ≤ 200

def check (row : BureauRow) : Bool := slugCheck row.slug && nameCheck row.name

/-- The row that is inserted for a slug. -/
def ofSlug (slug : Text) (id : Uuid) : BureauRow := ⟨id, slug, "Бюро ".toList ++ slug⟩

end BureauRow

/-- Provision a bureau; `none` is a violated check. -/
def bootstrapBureau (slug : Text) (id : Uuid) (bureaus : List BureauRow) :
    Option (Uuid × List BureauRow) :=
  let row := BureauRow.ofSlug slug id
  if row.check then
    match bureaus.find? fun bureau ↦ bureau.slug = slug with
    | some existing => some (existing.id, bureaus)
    | none => some (id, bureaus ++ [row])
  else none

/-- A slug with the right characters is refused for its length only. -/
theorem check_ofSlug_iff {slug : Text} (hne : slug ≠ []) (hchars : slug.all isSlugChar = true)
    (id : Uuid) : (BureauRow.ofSlug slug id).check = true ↔ slug.length ≤ 64 := by
  have hpos : 1 ≤ slug.length := List.length_pos_iff.mpr hne
  have hname : (BureauRow.ofSlug slug id).name.length = 5 + slug.length :=
    List.length_append
  simp only [BureauRow.check, BureauRow.slugCheck, BureauRow.nameCheck, hname,
    Bool.and_eq_true, decide_eq_true_eq]
  constructor
  · exact fun h ↦ h.1.1.2
  · intro h
    refine ⟨⟨⟨hpos, h⟩, hchars⟩, ?_, ?_⟩ <;> omega

theorem bootstrapBureau_isSome_iff {slug : Text} (hne : slug ≠ [])
    (hchars : slug.all isSlugChar = true) (id : Uuid) (bureaus : List BureauRow) :
    (bootstrapBureau slug id bureaus).isSome = true ↔ slug.length ≤ 64 := by
  rw [← check_ofSlug_iff hne hchars id, bootstrapBureau]
  split
  · rename_i hcheck
    simp only [hcheck, iff_true]
    split <;> rfl
  · rename_i hcheck
    simp [hcheck]

end Otdel
