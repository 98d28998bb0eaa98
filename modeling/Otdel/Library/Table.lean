import Mathlib

/-!
# Tables with a key

A table is a list of rows with a key.  Writing a row replaces the row with its
key, or adds one; an overlay is a table with a list of writes on top.
-/

namespace Table

variable {Row Key : Type*} [DecidableEq Key] (key : Row → Key)

def upsert (row : Row) (rows : List Row) : List Row :=
  if rows.any fun r ↦ key r = key row then
    rows.map fun r ↦ if key r = key row then row else r
  else rows ++ [row]

def overlay (writes rows : List Row) : List Row :=
  writes.foldl (fun rows row ↦ upsert key row rows) rows

@[simp] theorem overlay_nil (rows : List Row) : overlay key [] rows = rows := rfl

@[simp] theorem overlay_cons (row : Row) (writes rows : List Row) :
    overlay key (row :: writes) rows = overlay key writes (upsert key row rows) := rfl

theorem overlay_append (xs ys rows : List Row) :
    overlay key (xs ++ ys) rows = overlay key ys (overlay key xs rows) :=
  List.foldl_append

variable {key} {row r : Row} {rows writes : List Row}

theorem mem_upsert : r ∈ upsert key row rows ↔ r = row ∨ (r ∈ rows ∧ key r ≠ key row) := by
  unfold upsert
  split
  · rename_i h
    rw [List.any_eq_true] at h
    obtain ⟨old, hold, hkey⟩ := h
    rw [decide_eq_true_eq] at hkey
    rw [List.mem_map]
    constructor
    · rintro ⟨s, hs, rfl⟩
      by_cases hsame : key s = key row
      · simp [hsame]
      · simp [hsame, hs]
    · rintro (rfl | ⟨hr, hne⟩)
      · exact ⟨old, hold, by simp [hkey]⟩
      · exact ⟨r, hr, by simp [hne]⟩
  · rename_i h
    have hnone : ∀ s ∈ rows, key s ≠ key row := by simpa using h
    rw [List.mem_append, List.mem_singleton]
    constructor
    · rintro (hr | rfl)
      · exact Or.inr ⟨hr, hnone r hr⟩
      · exact Or.inl rfl
    · rintro (rfl | ⟨hr, -⟩)
      · exact Or.inr rfl
      · exact Or.inl hr

theorem self_mem_upsert : row ∈ upsert key row rows := mem_upsert.mpr (Or.inl rfl)

theorem nodup_upsert (h : (rows.map key).Nodup) : ((upsert key row rows).map key).Nodup := by
  unfold upsert
  split
  · have hkeys : (rows.map fun r ↦ if key r = key row then row else r).map key =
        rows.map key := by
      rw [List.map_map]
      apply List.map_congr_left
      intro r _
      by_cases hr : key r = key row <;> simp [hr]
    rwa [hkeys]
  · rename_i hnone
    rw [List.map_append, List.map_singleton]
    apply h.append (List.nodup_singleton _)
    rw [List.disjoint_singleton]
    intro hmem
    obtain ⟨r, hr, hkey⟩ := List.mem_map.mp hmem
    exact hnone (List.any_eq_true.mpr ⟨r, hr, by simpa using hkey⟩)

theorem nodup_overlay (h : (rows.map key).Nodup) : ((overlay key writes rows).map key).Nodup := by
  induction writes generalizing rows with
  | nil => exact h
  | cons row writes ih => exact ih (nodup_upsert h)

theorem mem_overlay (h : r ∈ overlay key writes rows) : r ∈ writes ∨ r ∈ rows := by
  induction writes generalizing rows with
  | nil => exact Or.inr h
  | cons row writes ih =>
      rcases ih h with h | h
      · exact Or.inl (List.mem_cons_of_mem _ h)
      · rcases mem_upsert.mp h with rfl | ⟨h, -⟩
        · exact Or.inl List.mem_cons_self
        · exact Or.inr h

/-- A row stays, or a write with its key has taken its place. -/
theorem exists_overlay (h : r ∈ rows) :
    ∃ r' ∈ overlay key writes rows, key r' = key r ∧ (r' = r ∨ r' ∈ writes) := by
  induction writes generalizing rows r with
  | nil => exact ⟨r, h, rfl, Or.inl rfl⟩
  | cons row writes ih =>
      by_cases hkey : key r = key row
      · obtain ⟨r', hr', hkey', hfrom⟩ := ih (self_mem_upsert : row ∈ upsert key row rows)
        refine ⟨r', hr', hkey'.trans hkey.symm, Or.inr ?_⟩
        rcases hfrom with rfl | hfrom
        · exact List.mem_cons_self
        · exact List.mem_cons_of_mem _ hfrom
      · obtain ⟨r', hr', hkey', hfrom⟩ := ih (mem_upsert.mpr (Or.inr ⟨h, hkey⟩))
        exact ⟨r', hr', hkey', hfrom.imp_right (List.mem_cons_of_mem _)⟩

theorem exists_overlay_of_write (h : r ∈ writes) :
    ∃ r' ∈ overlay key writes rows, key r' = key r ∧ r' ∈ writes := by
  induction writes generalizing rows with
  | nil => simp at h
  | cons row writes ih =>
      rcases List.mem_cons.mp h with rfl | h
      · have hself : r ∈ upsert key r rows := self_mem_upsert
        have hstay : ∃ r' ∈ overlay key writes (upsert key r rows), key r' = key r ∧
            (r' = r ∨ r' ∈ writes) := exists_overlay hself
        obtain ⟨r', hr', hkey, hfrom⟩ := hstay
        refine ⟨r', hr', hkey, ?_⟩
        rcases hfrom with rfl | hfrom
        · exact List.mem_cons_self
        · exact List.mem_cons_of_mem _ hfrom
      · have hlater : ∃ r' ∈ overlay key writes (upsert key row rows), key r' = key r ∧
            r' ∈ writes := ih h
        obtain ⟨r', hr', hkey, hfrom⟩ := hlater
        exact ⟨r', hr', hkey, List.mem_cons_of_mem _ hfrom⟩

theorem upsert_of_mem {old : Row} (h : old ∈ rows) (hkey : key row = key old) :
    upsert key row rows = rows.map fun r ↦ if key r = key old then row else r := by
  rw [upsert, if_pos (List.any_eq_true.mpr ⟨old, h, by simp [hkey]⟩), hkey]

theorem upsert_of_fresh (h : ∀ r ∈ rows, key r ≠ key row) :
    upsert key row rows = rows ++ [row] := by
  rw [upsert, if_neg (by simpa using h)]

/-- New versions of some rows take the places of these rows. -/
theorem overlay_map (f : Row → Row) (hf : ∀ r, key (f r) = key r) {olds : List Row}
    (hnodup : (olds.map key).Nodup) (holds : ∀ old ∈ olds, ∃ r ∈ rows, key r = key old) :
    overlay key (olds.map f) rows =
      rows.map fun r ↦ ((olds.find? fun old ↦ key old = key r).map f).getD r := by
  induction olds generalizing rows with
  | nil => simp
  | cons old olds ih =>
      rw [List.map_cons, List.nodup_cons] at hnodup
      obtain ⟨r, hr, hkey⟩ := holds old List.mem_cons_self
      rw [List.map_cons, overlay_cons, upsert_of_mem hr ((hf old).trans hkey.symm), hkey, ih hnodup.2]
      · rw [List.map_map]
        apply List.map_congr_left
        intro s _
        by_cases hs : key s = key old
        · have hnone : olds.find? (fun o ↦ key o = key (f old)) = none := by
            rw [List.find?_eq_none]
            intro o ho hsame
            rw [decide_eq_true_eq, hf] at hsame
            exact hnodup.1 (hsame ▸ List.mem_map_of_mem ho)
          simp [hs, hnone]
        · simp [hs, Ne.symm hs]
      · intro o ho
        obtain ⟨s, hs, hsame⟩ := holds o (List.mem_cons_of_mem _ ho)
        refine ⟨_, List.mem_map_of_mem hs, ?_⟩
        by_cases hold : key s = key old
        · rw [if_pos hold, hf, ← hsame, hold]
        · rw [if_neg hold, hsame]

/-- An update changes the rows that a condition picks. -/
theorem overlay_filter (p : Row → Bool) (f : Row → Row) (hf : ∀ r, key (f r) = key r)
    (hnodup : (rows.map key).Nodup) :
    overlay key ((rows.filter p).map f) rows = rows.map fun r ↦ if p r then f r else r := by
  have hsub : ((rows.filter p).map key).Nodup := hnodup.sublist (List.filter_sublist.map _)
  rw [overlay_map f hf hsub fun old hold ↦ ⟨old, (List.mem_filter.mp hold).1, rfl⟩]
  apply List.map_congr_left
  intro r hr
  cases hp : p r with
  | true =>
      have hfind : (rows.filter p).find? (fun old ↦ key old = key r) = some r := by
        cases hfound : (rows.filter p).find? fun old ↦ key old = key r with
        | none =>
            have hnot := List.find?_eq_none.mp hfound r (List.mem_filter.mpr ⟨hr, hp⟩)
            simp at hnot
        | some old =>
            have hold := (List.mem_filter.mp (List.mem_of_find?_eq_some hfound)).1
            have hkey := List.find?_some hfound
            rw [decide_eq_true_eq] at hkey
            rw [List.inj_on_of_nodup_map hnodup hold hr hkey]
      simp [hfind]
  | false =>
      have hfind : (rows.filter p).find? (fun old ↦ key old = key r) = none := by
        rw [List.find?_eq_none]
        intro old hold hkey
        obtain ⟨hold, hpold⟩ := List.mem_filter.mp hold
        rw [decide_eq_true_eq] at hkey
        rw [List.inj_on_of_nodup_map hnodup hold hr hkey, hp] at hpold
        cases hpold
      simp [hfind]

omit [DecidableEq Key] in
/-- Another key tells rows apart, too. -/
theorem nodup_map_of_ids {Key' : Type*} {key' : Row → Key'} (hnodup : (rows.map key).Nodup)
    (hkey : ∀ r ∈ rows, ∀ r' ∈ rows, key' r = key' r' → key r = key r') :
    (rows.map key').Nodup := by
  apply List.Nodup.map_on _ (List.Nodup.of_map _ hnodup)
  exact fun r hr r' hr' h ↦ List.inj_on_of_nodup_map hnodup hr hr' (hkey r hr r' hr' h)

omit [DecidableEq Key] in
/-- The rows that a condition picks, when it picks one. -/
theorem filter_eq_singleton {p : Row → Bool} (hnodup : (rows.map key).Nodup) (hrow : row ∈ rows)
    (hp : p row = true) (honly : ∀ r ∈ rows, p r = true → key r = key row) :
    rows.filter p = [row] := by
  have hsame : ∀ r ∈ rows.filter p, r = row := by
    intro r hr
    obtain ⟨hmem, hpr⟩ := List.mem_filter.mp hr
    exact List.inj_on_of_nodup_map hnodup hmem hrow (honly r hmem hpr)
  have hmem : row ∈ rows.filter p := List.mem_filter.mpr ⟨hrow, hp⟩
  have hlen : (rows.filter p).length ≤ 1 := by
    have hfilter : (rows.filter p).Nodup := (List.Nodup.of_map _ hnodup).filter _
    rw [List.eq_replicate_of_mem hsame, List.nodup_replicate] at hfilter
    exact hfilter
  obtain ⟨r, hr⟩ := List.length_eq_one_iff.mp (le_antisymm hlen (List.length_pos_of_mem hmem))
  rw [hr, List.mem_singleton] at hmem
  rw [hr, hmem]

end Table
