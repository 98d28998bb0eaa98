import Otdel.Db.Bureaus
import Otdel.Db.Sql
import Otdel.Library.Run

/-!
# Provisioning one bureau from several processes

`bootstrap_bureau` inserts and looks up in one statement.  The lookup sees the
snapshot of the statement; the conflict check of the insert sees what has been
committed since, and waits for a row that is about to be.
-/

namespace Otdel.Provisioning

/-- Where the statement of one call stands. -/
inductive Call where
  | idle
  | reading (snapshot : List BureauRow)
  | inserted (row : BureauRow)
  | skipped (snapshot : List BureauRow)
  | returned (result : Except DbError Uuid)

/-- The row that a call is about to commit. -/
def Call.pending : Call → Option BureauRow
  | inserted row => some row
  | _ => none

/-- The committed bureaus, and the calls. -/
structure State (ι : Type) where
  bureaus : List BureauRow
  calls : ι → Call

inductive Event (ι : Type) where
  | start (i : ι)
  | insert (i : ι) (id : Uuid)
  | finish (i : ι)

/-- `SELECT id FROM otdel.bureaus WHERE slug = $1`, in the snapshot; `fetch_one` expects
a row. -/
def lookup (slug : Text) (snapshot : List BureauRow) : Except DbError Uuid :=
  match snapshot.find? fun bureau ↦ bureau.slug = slug with
  | some bureau => .ok bureau.id
  | none => .error .rowNotFound

variable {ι : Type} [Fintype ι] [DecidableEq ι]

namespace State

def setCall (s : State ι) (i : ι) (call : Call) : State ι :=
  { s with calls := Function.update s.calls i call }

/-- Another call is about to commit a row with this slug. -/
def Waits (s : State ι) (i : ι) (slug : Text) : Prop :=
  ∃ j, j ≠ i ∧ ∃ row ∈ (s.calls j).pending, row.slug = slug

instance (s : State ι) (i : ι) (slug : Text) : Decidable (s.Waits i slug) := by
  unfold Waits
  infer_instance

end State

/-- The insert of a call: a row that is there is skipped. -/
def insert (slug : Text) (s : State ι) (i : ι) (id : Uuid) (snapshot : List BureauRow) :
    Option (State ι) :=
  if (BureauRow.ofSlug slug id).check = false then
    some (s.setCall i (.returned (.error .checkViolation)))
  else if s.Waits i slug then none
  else if s.bureaus.any fun bureau ↦ bureau.slug = slug then some (s.setCall i (.skipped snapshot))
  else if s.bureaus.any fun bureau ↦ bureau.id = id then none
  else some (s.setCall i (.inserted (.ofSlug slug id)))

def step (slug : Text) (s : State ι) : Event ι → Option (State ι)
  | .start i =>
      match s.calls i with
      | .idle => some (s.setCall i (.reading s.bureaus))
      | _ => none
  | .insert i id =>
      match s.calls i with
      | .reading snapshot => insert slug s i id snapshot
      | _ => none
  | .finish i =>
      match s.calls i with
      | .inserted row =>
          some ({ s with bureaus := s.bureaus ++ [row] }.setCall i (.returned (.ok row.id)))
      | .skipped snapshot => some (s.setCall i (.returned (lookup slug snapshot)))
      | _ => none

/-- No call has begun. -/
def start (bureaus : List BureauRow) : State ι := ⟨bureaus, fun _ ↦ .idle⟩

/-- A conflict that the insert meets is one that the snapshot shows. -/
def Shown (slug : Text) (s : State ι) (e : Event ι) (_ : State ι) : Prop :=
  match e with
  | .insert i _ => ∀ snapshot, s.calls i = .reading snapshot →
      (∃ bureau ∈ s.bureaus, bureau.slug = slug) → ∃ bureau ∈ snapshot, bureau.slug = slug
  | _ => True

/-- All calls have returned the same identifier, of the only row with the slug. -/
def Provisioned (slug : Text) (s : State ι) : Prop :=
  ∃ id, (∀ i, s.calls i = .returned (.ok id)) ∧
    ∃ row, s.bureaus.filter (fun bureau ↦ bureau.slug = slug) = [row] ∧ row.id = id

/-! ## One step -/

/-- What a step does, for a slug that passes the check. -/
inductive Outcome (slug : Text) (s : State ι) : Event ι → State ι → Prop
  | started (i : ι) (hcall : s.calls i = .idle) :
      Outcome slug s (.start i) (s.setCall i (.reading s.bureaus))
  | skipped (i : ι) (id : Uuid) (snapshot : List BureauRow) (hcall : s.calls i = .reading snapshot)
      (hthere : ∃ bureau ∈ s.bureaus, bureau.slug = slug) :
      Outcome slug s (.insert i id) (s.setCall i (.skipped snapshot))
  | inserted (i : ι) (id : Uuid) (snapshot : List BureauRow)
      (hcall : s.calls i = .reading snapshot) (hfree : ¬ s.Waits i slug)
      (hnone : ∀ bureau ∈ s.bureaus, bureau.slug ≠ slug) :
      Outcome slug s (.insert i id) (s.setCall i (.inserted (.ofSlug slug id)))
  | committed (i : ι) (row : BureauRow) (hcall : s.calls i = .inserted row) :
      Outcome slug s (.finish i)
        ({ s with bureaus := s.bureaus ++ [row] }.setCall i (.returned (.ok row.id)))
  | answered (i : ι) (snapshot : List BureauRow) (hcall : s.calls i = .skipped snapshot) :
      Outcome slug s (.finish i) (s.setCall i (.returned (lookup slug snapshot)))

theorem check_ofSlug {slug : Text} (hslug : BureauRow.slugCheck slug = true) (id : Uuid) :
    (BureauRow.ofSlug slug id).check = true := by
  simp only [BureauRow.slugCheck, Bool.and_eq_true, decide_eq_true_eq] at hslug
  have hne : slug ≠ [] := List.length_pos_iff.mp hslug.1.1
  exact (check_ofSlug_iff hne hslug.2 id).mpr hslug.1.2

variable {slug : Text} {s s' : State ι} {e : Event ι}

theorem outcome (hslug : BureauRow.slugCheck slug = true) (h : step slug s e = some s') :
    Outcome slug s e s' := by
  cases e with
  | start i =>
      simp only [step] at h
      split at h
      · rename_i hcall
        cases h
        exact .started i hcall
      · cases h
  | insert i id =>
      simp only [step] at h
      split at h
      · rename_i snapshot hcall
        have hcheck : ¬ (BureauRow.ofSlug slug id).check = false := by simp [check_ofSlug hslug id]
        rw [insert, if_neg hcheck] at h
        split at h
        · cases h
        rename_i hfree
        split at h
        · rename_i hthere
          cases h
          exact .skipped i id snapshot hcall (by simpa using hthere)
        rename_i hnone
        split at h
        · cases h
        cases h
        exact .inserted i id snapshot hcall hfree (by simpa using hnone)
      · cases h
  | finish i =>
      simp only [step] at h
      split at h
      · rename_i row hcall
        cases h
        exact .committed i row hcall
      · rename_i snapshot hcall
        cases h
        exact .answered i snapshot hcall
      · cases h

/-! ## The invariant -/

/-- What a call knows of the committed bureaus. -/
def Call.Holds (slug : Text) (bureaus : List BureauRow) : Call → Prop
  | idle => True
  | reading snapshot => snapshot ⊆ bureaus
  | inserted row => row.slug = slug ∧ ∀ bureau ∈ bureaus, bureau.slug ≠ slug
  | skipped snapshot => snapshot ⊆ bureaus ∧ ∃ bureau ∈ bureaus, bureau.slug = slug
  | returned (.ok id) => ∃ bureau ∈ bureaus, bureau.slug = slug ∧ bureau.id = id
  | returned (.error _) => True

/-- One row has the slug at most, and one call at most is about to add one. -/
structure Invariant (slug : Text) (s : State ι) : Prop where
  calls : ∀ i, (s.calls i).Holds slug s.bureaus
  one : (s.bureaus.filter fun bureau ↦ bureau.slug = slug).length ≤ 1
  alone : ∀ i j row row', s.calls i = .inserted row → s.calls j = .inserted row' → i = j

theorem Call.Holds.append {bureaus : List BureauRow} {call : Call} (h : call.Holds slug bureaus)
    (hcall : call.pending = none) (row : BureauRow) : call.Holds slug (bureaus ++ [row]) := by
  cases call with
  | idle => trivial
  | reading snapshot => exact List.subset_append_of_subset_left _ h
  | inserted => cases hcall
  | skipped snapshot =>
      obtain ⟨hsub, bureau, hmem, hbureau⟩ := h
      exact ⟨List.subset_append_of_subset_left _ hsub, bureau, List.mem_append_left _ hmem, hbureau⟩
  | returned result =>
      cases result with
      | error => trivial
      | ok id =>
          obtain ⟨bureau, hmem, hbureau⟩ := h
          exact ⟨bureau, List.mem_append_left _ hmem, hbureau⟩

theorem holds_lookup {bureaus snapshot : List BureauRow} (hsub : snapshot ⊆ bureaus) :
    (Call.returned (lookup slug snapshot)).Holds slug bureaus := by
  unfold lookup
  cases hfind : snapshot.find? fun bureau ↦ bureau.slug = slug with
  | none => trivial
  | some bureau =>
      have hslug := List.find?_some hfind
      rw [decide_eq_true_eq] at hslug
      exact ⟨bureau, hsub (List.mem_of_find?_eq_some hfind), hslug, rfl⟩

omit [Fintype ι] [DecidableEq ι] in
theorem Invariant.start {bureaus : List BureauRow} (hunique : (bureaus.map BureauRow.slug).Nodup) :
    Invariant slug (start bureaus : State ι) where
  calls _ := trivial
  one := by
    have hcount := List.nodup_iff_count_le_one.mp hunique slug
    rw [List.count, List.countP_map, List.countP_eq_length_filter] at hcount
    change (bureaus.filter _).length ≤ 1
    simpa [Function.comp_def, beq_eq_decide] using hcount
  alone _ _ _ _ h := nomatch h

omit [Fintype ι] in
/-- A step that touches one call keeps the others. -/
theorem Invariant.setCall (h : Invariant slug s) {i : ι} {call : Call}
    (hcall : call.Holds slug s.bureaus)
    (halone : ∀ row, call = .inserted row → ∀ j, j ≠ i → (s.calls j).pending = none) :
    Invariant slug (s.setCall i call) where
  calls := by
    intro j
    by_cases hj : j = i
    · subst hj
      simpa [State.setCall] using hcall
    · simpa [State.setCall, hj] using h.calls j
  one := h.one
  alone := by
    intro j k row row' hj hk
    by_cases hji : j = i <;> by_cases hki : k = i
    · rw [hji, hki]
    · subst hji
      simp only [State.setCall, Function.update_self, Function.update_of_ne hki] at hj hk
      have hpending := halone row hj k hki
      rw [hk] at hpending
      cases hpending
    · subst hki
      simp only [State.setCall, Function.update_self, Function.update_of_ne hji] at hj hk
      have hpending := halone row' hk j hji
      rw [hj] at hpending
      cases hpending
    · simp only [State.setCall, Function.update_of_ne hji, Function.update_of_ne hki] at hj hk
      exact h.alone j k row row' hj hk

omit [Fintype ι] in
theorem Invariant.next (h : Invariant slug s) (hout : Outcome slug s e s') : Invariant slug s' := by
  cases hout with
  | started i hcall => exact h.setCall (List.Subset.refl _) nofun
  | skipped i id snapshot hcall hthere =>
      have hsub := h.calls i
      rw [hcall] at hsub
      exact h.setCall ⟨hsub, hthere⟩ nofun
  | inserted i id snapshot hcall hfree hnone =>
      refine h.setCall ⟨rfl, hnone⟩ fun row _ j hj ↦ ?_
      cases hpending : (s.calls j).pending with
      | none => rfl
      | some row' =>
          refine (hfree ⟨j, hj, row', hpending, ?_⟩).elim
          cases hcallj : s.calls j with
          | inserted r =>
              have hholds := h.calls j
              rw [hcallj] at hholds hpending
              cases hpending
              exact hholds.1
          | _ =>
              rw [hcallj] at hpending
              cases hpending
  | committed i row hcall =>
      have hholds := h.calls i
      rw [hcall] at hholds
      have hothers : ∀ j, j ≠ i → (s.calls j).pending = none := by
        intro j hj
        cases hcallj : s.calls j with
        | inserted r => exact (hj (h.alone j i r row hcallj hcall)).elim
        | _ => rfl
      have hbase : Invariant slug
          ({ s with bureaus := s.bureaus ++ [row] }.setCall i (.returned (.ok row.id))) := by
        constructor
        · intro j
          by_cases hj : j = i
          · subst hj
            simp only [State.setCall, Function.update_self]
            exact ⟨row, by simp, hholds.1, rfl⟩
          · simp only [State.setCall, Function.update_of_ne hj]
            exact (h.calls j).append (hothers j hj) row
        · have hnil : s.bureaus.filter (fun bureau ↦ bureau.slug = slug) = [] := by
            rw [List.filter_eq_nil_iff]
            exact fun bureau hmem ↦ by simpa using hholds.2 bureau hmem
          simp only [State.setCall, List.filter_append, hnil, List.nil_append]
          exact (List.length_filter_le _ _).trans (le_refl 1)
        · intro j k r r' hj hk
          by_cases hji : j = i
          · subst hji
            simp [State.setCall] at hj
          · simp only [State.setCall, Function.update_of_ne hji] at hj
            have hpending := hothers j hji
            rw [hj] at hpending
            cases hpending
      exact hbase
  | answered i snapshot hcall =>
      have hholds := h.calls i
      rw [hcall] at hholds
      exact h.setCall (holds_lookup hholds.1) nofun

/-! ## Runs -/

theorem Invariant.run (hslug : BureauRow.slugCheck slug = true) (h : Invariant slug s)
    {events : List (Event ι)} (hrun : Run.run (step slug) s events = some s') :
    Invariant slug s' := by
  induction events generalizing s with
  | nil =>
      cases hrun
      exact h
  | cons e events ih =>
      obtain ⟨t, hstep, hrest⟩ := Run.run_eq_some_cons.mp hrun
      exact ih (h.next (outcome hslug hstep)) hrest

/-- The call has an answer, or is on the way to one. -/
def Call.Shown (slug : Text) : Call → Prop
  | skipped snapshot => ∃ bureau ∈ snapshot, bureau.slug = slug
  | returned result => ∃ id, result = .ok id
  | _ => True

theorem lookup_eq_ok {snapshot : List BureauRow} (h : ∃ bureau ∈ snapshot, bureau.slug = slug) :
    ∃ id, lookup slug snapshot = .ok id := by
  obtain ⟨bureau, hmem, hbureau⟩ := h
  unfold lookup
  cases hfind : snapshot.find? fun bureau ↦ bureau.slug = slug with
  | some found => exact ⟨found.id, rfl⟩
  | none =>
      have hnot := List.find?_eq_none.mp hfind bureau hmem
      rw [decide_eq_true_eq] at hnot
      exact (hnot hbureau).elim

theorem lookup_eq_error {snapshot : List BureauRow}
    (h : ¬ ∃ bureau ∈ snapshot, bureau.slug = slug) :
    lookup slug snapshot = .error .rowNotFound := by
  have hnone : snapshot.find? (fun bureau ↦ bureau.slug = slug) = none := by
    rw [List.find?_eq_none]
    intro bureau hmem hbureau
    exact h ⟨bureau, hmem, of_decide_eq_true hbureau⟩
  rw [lookup, hnone]

omit [Fintype ι] in
theorem forall_setCall {P : Call → Prop} (h : ∀ i, P (s.calls i)) {i : ι} {call : Call}
    (hcall : P call) (j : ι) : P ((s.setCall i call).calls j) := by
  by_cases hj : j = i
  · subst hj
    simpa [State.setCall] using hcall
  · simpa [State.setCall, hj] using h j

omit [Fintype ι] in
/-- When a conflict is shown by the snapshot, the lookup finds the row. -/
theorem shown_next (h : ∀ i, (s.calls i).Shown slug) (hout : Outcome slug s e s')
    (hshown : Shown slug s e s') : ∀ i, (s'.calls i).Shown slug := by
  cases hout with
  | started i hcall => exact forall_setCall h trivial
  | skipped i id snapshot hcall hthere =>
      exact forall_setCall h (hshown snapshot hcall hthere)
  | inserted i id snapshot hcall hfree hnone => exact forall_setCall h trivial
  | committed i row hcall =>
      exact forall_setCall (s := { s with bureaus := s.bureaus ++ [row] }) h ⟨row.id, rfl⟩
  | answered i snapshot hcall =>
      have hfound := h i
      rw [hcall] at hfound
      exact forall_setCall h (lookup_eq_ok hfound)

theorem shown_run (hslug : BureauRow.slugCheck slug = true) (h : ∀ i, (s.calls i).Shown slug)
    {events : List (Event ι)} (halong : Run.Along (step slug) (Shown slug) s events)
    (hrun : Run.run (step slug) s events = some s') : ∀ i, (s'.calls i).Shown slug := by
  induction events generalizing s with
  | nil =>
      cases hrun
      exact h
  | cons e events ih =>
      obtain ⟨t, hstep, hrest⟩ := Run.run_eq_some_cons.mp hrun
      obtain ⟨hshown, halong'⟩ := halong t hstep
      exact ih (shown_next h (outcome hslug hstep) hshown) halong' hrest

/-- The call has missed the row, or has said so. -/
def Call.Lost (slug : Text) : Call → Prop
  | skipped snapshot => ¬ ∃ bureau ∈ snapshot, bureau.slug = slug
  | returned result => result = .error .rowNotFound
  | _ => False

omit [Fintype ι] in
theorem lost_next {i : ι} (h : (s.calls i).Lost slug) (hout : Outcome slug s e s') :
    (s'.calls i).Lost slug := by
  have hkeep : ∀ {t : State ι} {j : ι} {call : Call}, t.calls = s.calls →
      (j = i → call.Lost slug) → ((t.setCall j call).calls i).Lost slug := by
    intro t j call hsame hcall
    by_cases hj : i = j
    · subst hj
      simpa [State.setCall] using hcall rfl
    · simpa [State.setCall, hj, hsame] using h
  have hnot : ∀ {j : ι} {call : Call}, s.calls j = call → ¬ call.Lost slug → j ≠ i := by
    rintro j call hcall hlost rfl
    exact hlost (hcall ▸ h)
  cases hout with
  | started j hcall => exact hkeep rfl fun hj ↦ (hnot hcall id hj).elim
  | skipped j id snapshot hcall hthere => exact hkeep rfl fun hj ↦ (hnot hcall (fun h ↦ h) hj).elim
  | inserted j id snapshot hcall hfree hnone =>
      exact hkeep rfl fun hj ↦ (hnot hcall (fun h ↦ h) hj).elim
  | committed j row hcall => exact hkeep rfl fun hj ↦ (hnot hcall (fun h ↦ h) hj).elim
  | answered j snapshot hcall =>
      refine hkeep rfl fun hj ↦ ?_
      subst hj
      rw [hcall] at h
      exact lookup_eq_error h

theorem lost_run (hslug : BureauRow.slugCheck slug = true) {i : ι} (h : (s.calls i).Lost slug)
    {events : List (Event ι)} (hrun : Run.run (step slug) s events = some s') :
    (s'.calls i).Lost slug := by
  induction events generalizing s with
  | nil =>
      cases hrun
      exact h
  | cons e events ih =>
      obtain ⟨t, hstep, hrest⟩ := Run.run_eq_some_cons.mp hrun
      exact ih (lost_next h (outcome hslug hstep)) hrest

/-- A conflict that the snapshot does not show. -/
theorem lost_of_not_shown (hslug : BureauRow.slugCheck slug = true)
    (hstep : step slug s e = some s') (hnot : ¬ Shown slug s e s') :
    ∃ i, (s'.calls i).Lost slug := by
  cases outcome hslug hstep with
  | skipped i id snapshot hcall hthere =>
      refine ⟨i, ?_⟩
      have hlost : ¬ ∃ bureau ∈ snapshot, bureau.slug = slug := by
        intro hfound
        apply hnot
        intro snapshot' hcall' _
        rw [hcall] at hcall'
        cases hcall'
        exact hfound
      simp only [State.setCall, Function.update_self]
      exact hlost
  | inserted i id snapshot hcall hfree hnone =>
      refine (hnot fun _ _ hthere ↦ ?_).elim
      obtain ⟨bureau, hmem, hbureau⟩ := hthere
      exact (hnone bureau hmem hbureau).elim
  | started | committed | answered => exact (hnot trivial).elim

/-! ## Every call returns -/

/-- The steps that a call has before it. -/
def Call.remaining : Call → ℕ
  | idle => 3
  | reading _ => 2
  | inserted _ => 1
  | skipped _ => 1
  | returned _ => 0

theorem sum_remaining_lt {i : ι} {call : Call} (h : call.remaining < (s.calls i).remaining) :
    ∑ j, ((s.setCall i call).calls j).remaining < ∑ j, (s.calls j).remaining := by
  apply Finset.sum_lt_sum
  · intro j _
    by_cases hj : j = i
    · subst hj
      simpa [State.setCall] using h.le
    · simp [State.setCall, hj]
  · exact ⟨i, Finset.mem_univ i, by simpa [State.setCall] using h⟩

theorem remaining_next (hout : Outcome slug s e s') :
    ∑ i, (s'.calls i).remaining < ∑ i, (s.calls i).remaining := by
  cases hout with
  | committed i row hcall =>
      exact sum_remaining_lt (s := { s with bureaus := s.bureaus ++ [row] })
        (by simp [hcall, Call.remaining])
  | started i hcall | skipped i id snapshot hcall | inserted i id snapshot hcall
  | answered i snapshot hcall => exact sum_remaining_lt (by simp [hcall, Call.remaining])

theorem length_add_remaining_le (hslug : BureauRow.slugCheck slug = true) {events : List (Event ι)}
    (hrun : Run.run (step slug) s events = some s') :
    events.length + ∑ i, (s'.calls i).remaining ≤ ∑ i, (s.calls i).remaining := by
  induction events generalizing s with
  | nil =>
      cases hrun
      exact (Nat.zero_add _).le
  | cons e events ih =>
      obtain ⟨t, hstep, hrest⟩ := Run.run_eq_some_cons.mp hrun
      have hnext := remaining_next (outcome hslug hstep)
      have hlater := ih hrest
      rw [List.length_cons]
      omega

/-- While a call has not returned, some call can go on. -/
theorem exists_step (hslug : BureauRow.slugCheck slug = true) {i : ι}
    (hi : ∀ result, s.calls i ≠ .returned result) {id : Uuid}
    (hid : ∀ bureau ∈ s.bureaus, bureau.id ≠ id) : ∃ e s', step slug s e = some s' := by
  by_cases hpending : ∃ j row, s.calls j = .inserted row
  · obtain ⟨j, row, hcall⟩ := hpending
    exact ⟨.finish j, _, by rw [step, hcall]⟩
  have hfree : ¬ s.Waits i slug := by
    rintro ⟨j, -, row, hrow, -⟩
    cases hcall : s.calls j with
    | inserted r => exact hpending ⟨j, r, hcall⟩
    | _ =>
        rw [hcall] at hrow
        cases hrow
  cases hcall : s.calls i with
  | idle => exact ⟨.start i, _, by rw [step, hcall]⟩
  | inserted row => exact (hpending ⟨i, row, hcall⟩).elim
  | skipped snapshot => exact ⟨.finish i, _, by rw [step, hcall]⟩
  | returned result => exact (hi result hcall).elim
  | reading snapshot =>
      have hcheck : ¬ (BureauRow.ofSlug slug id).check = false := by simp [check_ofSlug hslug id]
      have hunused : ¬ (s.bureaus.any fun bureau ↦ bureau.id = id) = true := by simpa using hid
      refine ⟨.insert i id, ?_⟩
      by_cases hthere : (s.bureaus.any fun bureau ↦ bureau.slug = slug) = true
      · refine ⟨s.setCall i (.skipped snapshot), ?_⟩
        rw [step, hcall]
        simp only [insert, if_neg hcheck, if_neg hfree, if_pos hthere]
      · refine ⟨s.setCall i (.inserted (.ofSlug slug id)), ?_⟩
        rw [step, hcall]
        simp only [insert, if_neg hcheck, if_neg hfree, if_neg hthere, if_neg hunused]

/-! ## The results -/

omit [Fintype ι] in
theorem waits_start {bureaus : List BureauRow} {i : ι} {call : Call} :
    ¬ ((start bureaus : State ι).setCall i call).Waits i slug := by
  rintro ⟨k, hk, row, hrow, -⟩
  simp [State.setCall, start, hk, Call.pending] at hrow

/-- A call with nothing beside it does what the sequential statement does. -/
theorem run_alone (hslug : BureauRow.slugCheck slug = true) {bureaus : List BureauRow} {id : Uuid}
    (hid : ∀ bureau ∈ bureaus, bureau.id ≠ id) (i : ι) :
    ∃ s answer, Run.run (step slug) (start bureaus) [.start i, .insert i id, .finish i] = some s ∧
      s.calls i = .returned (.ok answer) ∧
      bootstrapBureau slug id bureaus = some (answer, s.bureaus) := by
  have hcheck := check_ofSlug hslug id
  have hpass : ¬ (BureauRow.ofSlug slug id).check = false := by simp [hcheck]
  let reading := (start bureaus : State ι).setCall i (.reading bureaus)
  have hstart : step slug (start bureaus) (.start i) = some reading := rfl
  have hreading : reading.calls i = .reading bureaus := by simp [reading, State.setCall]
  have hfree : ¬ reading.Waits i slug := waits_start
  cases hfind : bureaus.find? fun bureau ↦ bureau.slug = slug with
  | some bureau =>
      have hthere : (bureaus.any fun bureau ↦ bureau.slug = slug) = true := by
        have hslug' := List.find?_some hfind
        rw [List.any_eq_true]
        exact ⟨bureau, List.mem_of_find?_eq_some hfind, hslug'⟩
      have hinsert : step slug reading (.insert i id) =
          some (reading.setCall i (.skipped bureaus)) := by
        rw [step, hreading]
        simp only [insert, if_neg hpass, if_neg hfree]
        exact if_pos hthere
      refine ⟨(reading.setCall i (.skipped bureaus)).setCall i (.returned (.ok bureau.id)),
        bureau.id, ?_, ?_, ?_⟩
      · rw [Run.run_cons, hstart, Option.bind_some, Run.run_cons, hinsert, Option.bind_some]
        simp [Run.run_cons, step, State.setCall, lookup, hfind]
      · simp [State.setCall]
      · simp only [bootstrapBureau, if_pos hcheck, hfind]
        rfl
  | none =>
      have hnone : ¬ (bureaus.any fun bureau ↦ bureau.slug = slug) = true := by
        simpa using List.find?_eq_none.mp hfind
      have hunused : ¬ (bureaus.any fun bureau ↦ bureau.id = id) = true := by simpa using hid
      let row := BureauRow.ofSlug slug id
      have hinsert : step slug reading (.insert i id) =
          some (reading.setCall i (.inserted row)) := by
        rw [step, hreading]
        simp only [insert, if_neg hpass, if_neg hfree]
        exact (if_neg hnone).trans (if_neg hunused)
      refine ⟨{ reading.setCall i (.inserted row) with bureaus := bureaus ++ [row] }.setCall i
        (.returned (.ok id)), id, ?_, ?_, ?_⟩
      · rw [Run.run_cons, hstart, Option.bind_some, Run.run_cons, hinsert, Option.bind_some]
        simp only [Run.run_cons, step, State.setCall, Function.update_self]
        rfl
      · simp [State.setCall]
      · simp only [bootstrapBureau, if_pos hcheck, hfind]
        rfl

omit [Fintype ι] [DecidableEq ι] in
theorem provisioned_of_shown [Nonempty ι] (h : Invariant slug s)
    (hshown : ∀ i, (s.calls i).Shown slug) (hdone : ∀ i, ∃ result, s.calls i = .returned result) :
    Provisioned slug s := by
  have hanswer : ∀ i, ∃ id, s.calls i = .returned (.ok id) := by
    intro i
    obtain ⟨result, hresult⟩ := hdone i
    have hi := hshown i
    rw [hresult] at hi
    obtain ⟨id, rfl⟩ := hi
    exact ⟨id, hresult⟩
  have hrow : ∀ i id, s.calls i = .returned (.ok id) →
      ∃ bureau ∈ s.bureaus.filter (fun bureau ↦ bureau.slug = slug), bureau.id = id := by
    intro i id hid
    have hholds := h.calls i
    rw [hid] at hholds
    obtain ⟨bureau, hmem, hbureau, rfl⟩ := hholds
    exact ⟨bureau, List.mem_filter.mpr ⟨hmem, decide_eq_true hbureau⟩, rfl⟩
  obtain ⟨k⟩ := ‹Nonempty ι›
  obtain ⟨id, hid⟩ := hanswer k
  obtain ⟨row, hmem, rfl⟩ := hrow k id hid
  have hsingle : s.bureaus.filter (fun bureau ↦ bureau.slug = slug) = [row] := by
    have hone := h.one
    cases hfilter : s.bureaus.filter fun bureau ↦ bureau.slug = slug with
    | nil =>
        rw [hfilter] at hmem
        cases hmem
    | cons first rest =>
        rw [hfilter] at hmem hone
        have hrest : rest = [] := List.eq_nil_of_length_eq_zero (by
          rw [List.length_cons] at hone
          omega)
        rw [hrest, List.mem_singleton] at hmem
        rw [hrest, hmem]
  refine ⟨row.id, fun i ↦ ?_, row, hsingle, rfl⟩
  obtain ⟨id, hid⟩ := hanswer i
  obtain ⟨row', hmem', rfl⟩ := hrow i id hid
  rw [hsingle, List.mem_singleton] at hmem'
  rw [hid, hmem']

/-- Every run comes to its end, and there all calls have returned the identifier
of one row, unless an insert of the run has met a row that its snapshot does not
show. -/
theorem bootstrap_idempotent_iff [Nonempty ι] (hslug : BureauRow.slugCheck slug = true)
    {bureaus : List BureauRow} (hunique : (bureaus.map BureauRow.slug).Nodup)
    {events : List (Event ι)} (hrun : Run.run (step slug) (start bureaus) events = some s) :
    events.length ≤ 3 * Fintype.card ι ∧
      (∀ i id, (∀ result, s.calls i ≠ .returned result) →
        (∀ bureau ∈ s.bureaus, bureau.id ≠ id) → ∃ e s', step slug s e = some s') ∧
      ((∀ i, ∃ result, s.calls i = .returned result) →
        (Provisioned slug s ↔ Run.Along (step slug) (Shown slug) (start bureaus) events)) := by
  refine ⟨?_, fun i id hi hid ↦ exists_step hslug hi hid, fun hdone ↦ ⟨?_, ?_⟩⟩
  · have hlength := length_add_remaining_le hslug hrun
    have hstart : ∑ i : ι, ((start bureaus : State ι).calls i).remaining =
        3 * Fintype.card ι := by
      simp [start, Call.remaining, mul_comm]
    omega
  · rintro ⟨id, hok, -⟩
    rw [Run.along_iff]
    rintro before e after t t' rfl hbefore hstep
    by_contra hnot
    obtain ⟨i, hlost⟩ := lost_of_not_shown hslug hstep hnot
    rw [Run.run_append, hbefore, Option.bind_some] at hrun
    obtain ⟨u, hstep', hafter⟩ := Run.run_eq_some_cons.mp hrun
    obtain rfl : t' = u := Option.some.inj (hstep.symm.trans hstep')
    have hfinal := lost_run hslug hlost hafter
    rw [hok i] at hfinal
    cases hfinal
  · intro halong
    have hstart : ∀ i, ((start bureaus : State ι).calls i).Shown slug := fun _ ↦ trivial
    exact provisioned_of_shown ((Invariant.start hunique).run hslug hrun)
      (shown_run hslug hstart halong hrun) hdone

/-! ## Two calls -/

def localSlug : Text := "local".toList

/-- The second statement begins before the first one commits. -/
def overlapping : List (Event (Fin 2)) :=
  [.start 0, .start 1, .insert 0 default, .finish 0, .insert 1 default, .finish 1]

/-- One call after the other. -/
def sequential : List (Event (Fin 2)) :=
  [.start 0, .insert 0 default, .finish 0, .start 1, .insert 1 default, .finish 1]

theorem bootstrap_idempotent_iff_sequential : ∃ s : State (Fin 2),
    Run.run (step localSlug) (start []) sequential = some s ∧ Provisioned localSlug s := by
  have hslug : BureauRow.slugCheck localSlug = true := by decide +kernel
  have hunique : (([] : List BureauRow).map BureauRow.slug).Nodup := List.nodup_nil
  obtain ⟨s, hrun, hdone⟩ : ∃ s : State (Fin 2),
      Run.run (step localSlug) (start []) sequential = some s ∧
        ∀ i, ∃ result, s.calls i = .returned result := by
    refine ⟨_, rfl, fun i ↦ ?_⟩
    fin_cases i <;> exact ⟨_, rfl⟩
  refine ⟨s, hrun, ((bootstrap_idempotent_iff hslug hunique hrun).2.2 hdone).mpr ?_⟩
  refine (Run.along_cons_iff rfl).mpr ⟨trivial, ?_⟩
  refine (Run.along_cons_iff rfl).mpr ⟨fun _ _ ⟨bureau, hmem, _⟩ ↦ (List.not_mem_nil hmem).elim, ?_⟩
  refine (Run.along_cons_iff rfl).mpr ⟨trivial, ?_⟩
  refine (Run.along_cons_iff rfl).mpr ⟨trivial, ?_⟩
  refine (Run.along_cons_iff rfl).mpr ⟨fun snapshot hcall hthere ↦ ?_, ?_⟩
  · cases hcall
    exact hthere
  exact (Run.along_cons_iff rfl).mpr ⟨trivial, trivial⟩

/-- The second call answers with an error, and its row is there. -/
theorem second_bootstrap_fails : ¬ ∀ s : State (Fin 2),
    Run.run (step localSlug) (start []) overlapping = some s → Provisioned localSlug s := by
  intro h
  obtain ⟨id, hok, -⟩ := h _ rfl
  have hsecond := hok 1
  cases hsecond

end Otdel.Provisioning
