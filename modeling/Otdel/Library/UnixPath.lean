import Otdel.Library.Text

/-!
# Unix paths

The components of a path text, and `push`, as `std::path` has them on Unix: an
absolute path replaces, any other one is appended after a separator.
-/

namespace UnixPath

inductive Component where
  | rootDir
  | curDir
  | parentDir
  | normal (name : Text)
  deriving DecidableEq

/-- A piece that is not the first one: empty pieces and dots are dropped. -/
def piece (name : Text) : List Component :=
  if name = [] ∨ name = ".".toList then []
  else if name = "..".toList then [.parentDir]
  else [.normal name]

/-- The first piece: an empty one before a separator is the root, and a dot
stays. -/
def first (name : Text) (rest : List Text) : List Component :=
  if name = [] ∧ rest ≠ [] then [.rootDir]
  else if name = ".".toList then [.curDir]
  else piece name

/-- `Path::components`. -/
def components (path : Text) : List Component :=
  match path.splitOn '/' with
  | [] => []
  | name :: rest => first name rest ++ rest.flatMap piece

/-- `PathBuf::push`. -/
def push (path part : Text) : Text :=
  if part.head? = some '/' then part
  else if path = [] ∨ path.getLast? = some '/' then path ++ part
  else path ++ '/' :: part

/-- `Path::starts_with`: whole components are compared. -/
def startsWith (path base : Text) : Bool := (components base).isPrefixOf (components path)

/-- A name that stands for itself. -/
def Plain (name : Text) : Prop :=
  name ≠ [] ∧ name ≠ ".".toList ∧ name ≠ "..".toList ∧ '/' ∉ name

theorem Plain.piece_eq {name : Text} (h : Plain name) : piece name = [.normal name] := by
  rw [piece, if_neg (not_or.mpr ⟨h.1, h.2.1⟩), if_neg h.2.2.1]

theorem Plain.first_eq {name : Text} (h : Plain name) (rest : List Text) :
    first name rest = [.normal name] := by
  rw [first, if_neg (fun hroot ↦ h.1 hroot.1), if_neg h.2.1, h.piece_eq]

theorem splitOn_of_notMem {text : Text} (h : '/' ∉ text) : text.splitOn '/' = [text] :=
  (Text.splitOn_eq_iff (by simp)).mpr ⟨by simp [List.intercalate], by simpa using h⟩

theorem splitOn_append_slash (path rest : Text) :
    (path ++ '/' :: rest).splitOn '/' = path.splitOn '/' ++ rest.splitOn '/' := by
  induction path with
  | nil => simp [List.splitOn_cons_eq_if_modifyHead]
  | cons c path ih =>
      obtain ⟨head, tail, hsplit⟩ :=
        List.exists_cons_of_ne_nil (List.splitOn_ne_nil '/' path)
      rw [List.cons_append, List.splitOn_cons_eq_if_modifyHead, ih,
        List.splitOn_cons_eq_if_modifyHead, hsplit]
      by_cases hc : c = '/' <;> simp [hc]

/-- A single plain component is the whole text. -/
theorem components_eq_single {text name : Text} (hslash : '/' ∉ text) :
    components text = [.normal name] ↔ text = name ∧ Plain text := by
  rw [components, splitOn_of_notMem hslash]
  simp only [List.flatMap_nil, List.append_nil, first, ne_eq, not_true, and_false, if_false, piece]
  constructor
  · intro h
    split at h
    · cases h
    · rename_i hdot
      split at h
      · cases h
      · rename_i hempty
        split at h
        · cases h
        · rename_i hdots
          cases h
          exact ⟨rfl, fun hnil ↦ hempty (Or.inl hnil), hdot, hdots, hslash⟩
  · rintro ⟨rfl, hnil, hdot, hdots, -⟩
    rw [if_neg hdot, if_neg (not_or.mpr ⟨hnil, hdot⟩), if_neg hdots]

/-- A plain name is added behind the components of the path. -/
theorem components_push {path name : Text} (h : Plain name) :
    components (push path name) = components path ++ [.normal name] := by
  have hname := splitOn_of_notMem h.2.2.2
  have habsolute : ¬ name.head? = some '/' := by
    intro hhead
    cases name with
    | nil => cases hhead
    | cons c name =>
        cases hhead
        exact h.2.2.2 List.mem_cons_self
  rw [push, if_neg habsolute]
  by_cases hempty : path = []
  · subst hempty
    have hnil : components [] = [] := by simp [components, first, piece]
    rw [if_pos (Or.inl rfl), List.nil_append, components, hname, hnil]
    simp only [h.first_eq, List.flatMap_nil, List.append_nil, List.nil_append]
  by_cases hlast : path.getLast? = some '/'
  · obtain ⟨front, rfl⟩ := List.getLast?_eq_some_iff.mp hlast
    obtain ⟨head, tail, hsplit⟩ := List.exists_cons_of_ne_nil (List.splitOn_ne_nil '/' front)
    rw [if_pos (Or.inr hlast), List.append_assoc]
    have hpushed : (front ++ (['/'] ++ name)).splitOn '/' = head :: (tail ++ [name]) := by
      rw [List.singleton_append, splitOn_append_slash, hsplit, hname]
      rfl
    have hpath : (front ++ ['/']).splitOn '/' = head :: (tail ++ [[]]) := by
      rw [splitOn_append_slash, hsplit]
      rfl
    have hempty : piece [] = [] := if_pos (Or.inl rfl)
    rw [components, components, hpushed, hpath]
    simp only [first, List.flatMap_append, List.flatMap_cons, List.flatMap_nil, h.piece_eq, hempty]
    simp
  · obtain ⟨head, tail, hsplit⟩ := List.exists_cons_of_ne_nil (List.splitOn_ne_nil '/' path)
    have hpushed : (path ++ '/' :: name).splitOn '/' = head :: (tail ++ [name]) := by
      rw [splitOn_append_slash, hsplit, hname]
      rfl
    rw [if_neg (not_or.mpr ⟨hempty, hlast⟩), components, components, hpushed, hsplit]
    -- an empty first piece with nothing behind it would be an empty path
    have hroot : ¬ (head = [] ∧ tail = []) := by
      rintro ⟨rfl, rfl⟩
      exact hempty (Text.splitOn_injective '/' (hsplit.trans (by simp)))
    simp only [first, List.flatMap_append, h.piece_eq, List.flatMap_cons, List.flatMap_nil]
    by_cases hhead : head = []
    · have htail : tail ≠ [] := fun hnil ↦ hroot ⟨hhead, hnil⟩
      simp [hhead, htail]
    · simp [hhead]

theorem startsWith_iff {path base : Text} :
    startsWith path base = true ↔ components base <+: components path :=
  List.isPrefixOf_iff_prefix

end UnixPath
