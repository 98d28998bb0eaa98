import Otdel.Library.Table

/-!
# Tables that agree on a selection

Two tables may hold the same rows of a selection, in any order, and differ in all
others.  What is asked of the rows of the selection is answered alike, and writes
within the selection leave the tables in agreement.
-/

namespace Table

variable {Row Key : Type*}

/-- A condition that implies a selection picks the same rows of it. -/
theorem filter_filter_of_imp {q p : Row → Bool} (hp : ∀ r, p r = true → q r = true)
    (rows : List Row) : (rows.filter q).filter p = rows.filter p := by
  rw [List.filter_filter]
  apply List.filter_congr
  intro r _
  cases hr : p r with
  | true => simp [hp r hr]
  | false => simp

/-- The same rows of the selection `q`, in any order. -/
def Same (q : Row → Bool) (rows rows' : List Row) : Prop :=
  (rows.filter q).Perm (rows'.filter q)

namespace Same

variable {q p : Row → Bool} {rows rows' rows'' : List Row}

theorem refl (q : Row → Bool) (rows : List Row) : Same q rows rows := List.Perm.refl _

theorem symm (h : Same q rows rows') : Same q rows' rows := List.Perm.symm h

theorem mem_iff (h : Same q rows rows') {r : Row} (hr : q r = true) : r ∈ rows ↔ r ∈ rows' := by
  have hmem := List.Perm.mem_iff (a := r) h
  simpa [hr] using hmem

/-- A condition that implies `q` picks the same rows. -/
theorem filter_perm (h : Same q rows rows') (hp : ∀ r, p r = true → q r = true) :
    (rows.filter p).Perm (rows'.filter p) := by
  rw [← filter_filter_of_imp hp rows, ← filter_filter_of_imp hp rows']
  exact h.filter p

/-- If it picks at most one row, it picks that row in both tables. -/
theorem filter_eq (h : Same q rows rows') (hp : ∀ r, p r = true → q r = true)
    (hone : ∀ r ∈ rows, ∀ r' ∈ rows, p r = true → p r' = true → r = r') :
    rows.filter p = rows'.filter p := by
  have hperm := h.filter_perm hp
  have hsame : ∀ r r', r ∈ rows.filter p → r' ∈ rows'.filter p → True → True → r = r' := by
    intro r r' hr hr' _ _
    have hr'' := hperm.mem_iff.mpr hr'
    rw [List.mem_filter] at hr hr''
    exact hone r hr.1 r' hr''.1 hr.2 hr''.2
  exact List.Perm.eq_of_pairwise hsame (List.pairwise_of_forall fun _ _ ↦ trivial)
    (List.pairwise_of_forall fun _ _ ↦ trivial) hperm

theorem find?_eq (h : rows.filter p = rows'.filter p) : rows.find? p = rows'.find? p := by
  rw [← List.head?_filter, ← List.head?_filter, h]

/-- Rows outside `q` do not meet the condition, where they are. -/
theorem any_eq (h : Same q rows rows') (hp : ∀ r ∈ rows, p r = true → q r = true)
    (hp' : ∀ r ∈ rows', p r = true → q r = true) : rows.any p = rows'.any p := by
  rw [Bool.eq_iff_iff, List.any_eq_true, List.any_eq_true]
  constructor
  · rintro ⟨r, hr, hpr⟩
    exact ⟨r, (h.mem_iff (hp r hr hpr)).mp hr, hpr⟩
  · rintro ⟨r, hr, hpr⟩
    exact ⟨r, (h.mem_iff (hp' r hr hpr)).mpr hr, hpr⟩

end Same

/-- Rows with keys of their own are sorted in one way only. -/
theorem mergeSort_eq_of_perm {le : Row → Row → Bool} {rows rows' : List Row}
    (htrans : ∀ a b c, le a b = true → le b c = true → le a c = true)
    (htotal : ∀ a b, (le a b || le b a) = true)
    (hanti : ∀ a ∈ rows, ∀ b ∈ rows, le a b = true → le b a = true → a = b)
    (h : rows.Perm rows') : rows.mergeSort le = rows'.mergeSort le := by
  have hperm : (rows.mergeSort le).Perm (rows'.mergeSort le) :=
    (List.mergeSort_perm rows le).trans (h.trans (List.mergeSort_perm rows' le).symm)
  have hsame : ∀ a b, a ∈ rows.mergeSort le → b ∈ rows'.mergeSort le →
      le a b = true → le b a = true → a = b := by
    intro a b ha hb
    rw [List.mem_mergeSort] at ha hb
    exact hanti a ha b (h.mem_iff.mpr hb)
  exact List.Perm.eq_of_pairwise hsame (List.pairwise_mergeSort htrans htotal rows)
    (List.pairwise_mergeSort htrans htotal rows') hperm

/-! ## Writes -/

section Writes

variable [DecidableEq Key] {key : Row → Key} {q : Row → Bool} {row : Row}
  {rows rows' writes : List Row}

theorem perm_upsert (h : rows.Perm rows') : (upsert key row rows).Perm (upsert key row rows') := by
  unfold upsert
  rw [h.any_eq]
  split
  · exact h.map _
  · exact h.append_right _

theorem perm_overlay (h : rows.Perm rows') :
    (overlay key writes rows).Perm (overlay key writes rows') := by
  induction writes generalizing rows rows' with
  | nil => exact h
  | cons row writes ih => exact ih (perm_upsert h)

/-- A selection that tells no two versions of a row apart. -/
theorem filter_upsert (hq : ∀ r ∈ rows, key r = key row → q r = q row) :
    (upsert key row rows).filter q =
      if q row then upsert key row (rows.filter q) else rows.filter q := by
  by_cases hany : ∃ r ∈ rows, key r = key row
  · obtain ⟨old, hold, hkey⟩ := hany
    rw [upsert_of_mem hold hkey.symm, hkey]
    cases hrow : q row with
    | true =>
        have hold' : old ∈ rows.filter q :=
          List.mem_filter.mpr ⟨hold, (hq old hold hkey).trans hrow⟩
        rw [if_pos rfl, upsert_of_mem hold' hkey.symm, hkey, List.filter_map]
        apply congrArg
        apply List.filter_congr
        intro r hr
        by_cases hsame : key r = key row
        · simp [hsame, hrow, hq r hr hsame]
        · simp [hsame]
    | false =>
        rw [if_neg Bool.false_ne_true, List.filter_map]
        rw [List.filter_congr (q := q)]
        · conv_rhs => rw [← List.map_id (rows.filter q)]
          apply List.map_congr_left
          intro r hr
          obtain ⟨hmem, hqr⟩ := List.mem_filter.mp hr
          have hne : key r ≠ key row := fun hsame ↦ by simp [hq r hmem hsame, hrow] at hqr
          simp [hne]
        · intro r hr
          by_cases hsame : key r = key row
          · simp [hsame, hrow, hq r hr hsame]
          · simp [hsame]
  · push Not at hany
    rw [upsert_of_fresh hany, List.filter_append]
    cases hrow : q row with
    | true =>
        rw [if_pos rfl, upsert_of_fresh fun r hr ↦ hany r (List.mem_filter.mp hr).1]
        simp [hrow]
    | false => simp [hrow]

theorem filter_overlay
    (hq : ∀ r r', (r ∈ writes ∨ r ∈ rows) → (r' ∈ writes ∨ r' ∈ rows) → key r = key r' →
      q r = q r') :
    (overlay key writes rows).filter q = overlay key (writes.filter q) (rows.filter q) := by
  induction writes generalizing rows with
  | nil => rfl
  | cons row writes ih =>
      have hrow : (upsert key row rows).filter q =
          if q row then upsert key row (rows.filter q) else rows.filter q :=
        filter_upsert fun r hr ↦ hq r row (Or.inr hr) (Or.inl List.mem_cons_self)
      have hfrom : ∀ r, (r ∈ writes ∨ r ∈ upsert key row rows) → r ∈ row :: writes ∨ r ∈ rows := by
        rintro r (hr | hr)
        · exact Or.inl (List.mem_cons_of_mem _ hr)
        · rcases mem_upsert.mp hr with rfl | ⟨hr, -⟩
          · exact Or.inl List.mem_cons_self
          · exact Or.inr hr
      rw [overlay_cons, ih fun r r' hr hr' ↦ hq r r' (hfrom r hr) (hfrom r' hr'), hrow]
      cases hqrow : q row with
      | true => simp [hqrow]
      | false => simp [hqrow]

/-- Writes outside a selection leave its rows as they are. -/
theorem filter_overlay_of_outside
    (hq : ∀ r r', (r ∈ writes ∨ r ∈ rows) → (r' ∈ writes ∨ r' ∈ rows) → key r = key r' →
      q r = q r') (hwrites : ∀ r ∈ writes, q r = false) :
    (overlay key writes rows).filter q = rows.filter q := by
  have hnone : writes.filter q = [] :=
    List.filter_eq_nil_iff.mpr fun r hr ↦ by simp [hwrites r hr]
  rw [filter_overlay hq, hnone, overlay_nil]

/-- The same writes on both tables. -/
theorem Same.overlay (h : Same q rows rows')
    (hq : ∀ r r', (r ∈ writes ∨ r ∈ rows) → (r' ∈ writes ∨ r' ∈ rows) → key r = key r' →
      q r = q r')
    (hq' : ∀ r r', (r ∈ writes ∨ r ∈ rows') → (r' ∈ writes ∨ r' ∈ rows') → key r = key r' →
      q r = q r') :
    Same q (overlay key writes rows) (overlay key writes rows') := by
  rw [Same, filter_overlay hq, filter_overlay hq']
  exact perm_overlay h

end Writes

end Table
