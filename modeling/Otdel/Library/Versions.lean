import Otdel.Library.Table

/-!
# Row versions of concurrent transactions

Transactions write versions of the rows of a table and keep them to themselves
until they commit.  A version is a row with the row it replaces, or with `none`
when it is a new row.  A transaction does not write a row while another one has
an uncommitted version of it, and does not insert a row whose unique key another
one is about to insert.
-/

namespace Versions

/-- A table: the identifier of a row, the columns that no update changes, and a
unique key among them. -/
structure Scheme (Row Id Core Key : Type*) where
  id : Row → Id
  core : Row → Core
  key : Row → Key
  id_core : ∀ {r s : Row}, core r = core s → id r = id s
  key_core : ∀ {r s : Row}, core r = core s → key r = key s

/-- The committed rows, the uncommitted versions, and the history of commits. -/
structure State (ι Row : Type*) where
  rows : List Row
  pending : ι → List (Row × Option Row)
  log : List (ι × List (Row × Option Row))

namespace State

variable {ι Row Id Core Key : Type*}

@[ext] theorem ext {s t : State ι Row} (hrows : s.rows = t.rows) (hpending : s.pending = t.pending)
    (hlog : s.log = t.log) : s = t := by
  cases s
  cases t
  simp_all

/-- A row that is committed or written by this transaction. -/
def Visible (s : State ι Row) (i : ι) (r : Row) : Prop := r ∈ s.rows ∨ ∃ v ∈ s.pending i, v.1 = r

/-- A row that is committed or written by some transaction. -/
def Known (s : State ι Row) (r : Row) : Prop := ∃ i, s.Visible i r

def view [DecidableEq Id] (T : Scheme Row Id Core Key) (s : State ι Row) (i : ι) : List Row :=
  Table.overlay T.id ((s.pending i).map Prod.fst) s.rows

/-- Rows that were committed stay, up to the columns that updates change. -/
def Persist (T : Scheme Row Id Core Key) (s t : State ι Row) : Prop :=
  ∀ r ∈ s.rows, ∃ r' ∈ t.rows, T.core r' = T.core r

theorem Persist.refl (T : Scheme Row Id Core Key) (s : State ι Row) : Persist T s s :=
  fun r hr ↦ ⟨r, hr, rfl⟩

theorem Persist.trans {T : Scheme Row Id Core Key} {s t u : State ι Row} (hst : Persist T s t)
    (htu : Persist T t u) : Persist T s u := by
  intro r hr
  obtain ⟨r', hr', hcore⟩ := hst r hr
  obtain ⟨r'', hr'', hcore'⟩ := htu r' hr'
  exact ⟨r'', hr'', hcore'.trans hcore⟩

variable [DecidableEq ι]

def setPending (s : State ι Row) (i : ι) (versions : List (Row × Option Row)) : State ι Row :=
  { s with pending := Function.update s.pending i versions }

@[simp] theorem rows_setPending (s : State ι Row) (i : ι) (versions : List (Row × Option Row)) :
    (s.setPending i versions).rows = s.rows := rfl

@[simp] theorem log_setPending (s : State ι Row) (i : ι) (versions : List (Row × Option Row)) :
    (s.setPending i versions).log = s.log := rfl

@[simp] theorem pending_setPending_self (s : State ι Row) (i : ι)
    (versions : List (Row × Option Row)) : (s.setPending i versions).pending i = versions :=
  Function.update_self ..

theorem pending_setPending_ne (s : State ι Row) {i j : ι} (versions : List (Row × Option Row))
    (h : j ≠ i) : (s.setPending i versions).pending j = s.pending j :=
  Function.update_of_ne h ..

def add (s : State ι Row) (i : ι) (versions : List (Row × Option Row)) : State ι Row :=
  s.setPending i (s.pending i ++ versions)

def commit [DecidableEq Id] (T : Scheme Row Id Core Key) (s : State ι Row) (i : ι) :
    State ι Row where
  rows := s.view T i
  pending := Function.update s.pending i []
  log := (i, s.pending i) :: s.log

end State

open State

section Views

variable {ι Row Id Core Key : Type*} [DecidableEq Id] {T : Scheme Row Id Core Key}
  {s : State ι Row} {i : ι} {r : Row}

theorem visible_of_mem_view (h : r ∈ s.view T i) : s.Visible i r := by
  rcases Table.mem_overlay h with h | h
  · obtain ⟨v, hv, rfl⟩ := List.mem_map.mp h
    exact Or.inr ⟨v, hv, rfl⟩
  · exact Or.inl h

omit [DecidableEq Id] in
theorem State.Visible.known (h : s.Visible i r) : s.Known r := ⟨i, h⟩

end Views

variable {ι Row Id Core Key : Type*} [DecidableEq ι] [DecidableEq Id]

/-- What transaction `i` may do. -/
inductive Step (T : Scheme Row Id Core Key) (i : ι) (s : State ι Row) : State ι Row → Prop
  | stay : Step T i s s
  | drop : Step T i s (s.setPending i [])
  | insert (row : Row) (hview : ∀ r ∈ s.view T i, T.id r ≠ T.id row ∧ T.key r ≠ T.key row)
      (hothers : ∀ j, j ≠ i → ∀ v ∈ s.pending j,
        T.id v.1 ≠ T.id row ∧ T.key v.1 ≠ T.key row) :
      Step T i s (s.add i [(row, none)])
  | update (versions : List (Row × Option Row))
      (hold : ∀ v ∈ versions, ∃ old ∈ s.view T i, v.2 = some old ∧ T.core v.1 = T.core old)
      (hothers : ∀ v ∈ versions, ∀ j, j ≠ i → ∀ u ∈ s.pending j, T.id u.1 ≠ T.id v.1) :
      Step T i s (s.add i versions)
  | commit : Step T i s (s.commit T i)

/-- The invariant.  Rows that are known under one identifier, or with one key,
are versions of one row; two transactions never hold versions of one row; an
inserted row is new; and every commit in the log is still there. -/
structure Sound (T : Scheme Row Id Core Key) (s : State ι Row) : Prop where
  nodup : (s.rows.map T.id).Nodup
  core : ∀ r r', s.Known r → s.Known r' → T.id r = T.id r' → T.core r = T.core r'
  unique : ∀ r r', s.Known r → s.Known r' → T.key r = T.key r' → T.id r = T.id r'
  exclusive : ∀ i j, i ≠ j → ∀ v ∈ s.pending i, ∀ u ∈ s.pending j, T.id v.1 ≠ T.id u.1
  fresh : ∀ i r, (r, none) ∈ s.pending i → ∀ r' ∈ s.rows, T.id r' ≠ T.id r
  origin : ∀ i, ∀ v ∈ s.pending i, (∃ r ∈ s.rows, T.core r = T.core v.1) ∨
    ∃ r, (r, none) ∈ s.pending i ∧ T.core r = T.core v.1
  logged : ∀ e ∈ s.log, ∀ v ∈ e.2, ∃ r ∈ s.rows, T.core r = T.core v.1
  once : ∀ e ∈ s.log, ∀ e' ∈ s.log, ∀ r r', (r, none) ∈ e.2 → (r', none) ∈ e'.2 →
    T.id r = T.id r' → e.1 = e'.1

omit [DecidableEq ι] [DecidableEq Id] in
theorem State.Known.rows_of_quiet {s : State ι Row} {r : Row} (h : s.Known r)
    (hpending : ∀ i, s.pending i = []) : r ∈ s.rows := by
  obtain ⟨i, h | ⟨v, hv, -⟩⟩ := h
  · exact h
  · simp [hpending i] at hv

omit [DecidableEq ι] [DecidableEq Id] in
/-- The invariant holds before the first transaction. -/
theorem Sound.start {T : Scheme Row Id Core Key} {s : State ι Row}
    (hnodup : (s.rows.map T.id).Nodup)
    (hkey : ∀ r ∈ s.rows, ∀ r' ∈ s.rows, T.key r = T.key r' → T.id r = T.id r')
    (hpending : ∀ i, s.pending i = []) (hlog : s.log = []) : Sound T s where
  nodup := hnodup
  core r r' hr hr' hid := by
    have hsame := List.inj_on_of_nodup_map hnodup (hr.rows_of_quiet hpending)
      (hr'.rows_of_quiet hpending) hid
    rw [hsame]
  unique r r' hr hr' := hkey r (hr.rows_of_quiet hpending) r' (hr'.rows_of_quiet hpending)
  exclusive i _ _ v hv := by simp [hpending i] at hv
  fresh i r hr := by simp [hpending i] at hr
  origin i v hv := by simp [hpending i] at hv
  logged e he := by simp [hlog] at he
  once e he := by simp [hlog] at he

section Views

variable {T : Scheme Row Id Core Key} {s : State ι Row} {i : ι} {r : Row}

omit [DecidableEq ι] in
/-- A transaction sees a version of every visible row. -/
theorem Sound.exists_view (hs : Sound T s) (h : s.Visible i r) :
    ∃ r' ∈ s.view T i, T.core r' = T.core r := by
  have hsame : ∀ r' ∈ s.view T i, T.id r' = T.id r → T.core r' = T.core r :=
    fun r' hr' hid ↦ hs.core r' r (visible_of_mem_view hr').known h.known hid
  rcases h with h | ⟨v, hv, rfl⟩
  · obtain ⟨r', hr', hid, -⟩ : ∃ r' ∈ s.view T i, T.id r' = T.id r ∧ _ :=
      Table.exists_overlay h
    exact ⟨r', hr', hsame r' hr' hid⟩
  · obtain ⟨r', hr', hid, -⟩ : ∃ r' ∈ s.view T i, T.id r' = T.id v.1 ∧ _ :=
      Table.exists_overlay_of_write (List.mem_map_of_mem hv)
    exact ⟨r', hr', hsame r' hr' hid⟩

/-- What a transaction does not see and no other one holds is not known. -/
theorem Sound.not_known (hs : Sound T s) {row : Row}
    (hview : ∀ r ∈ s.view T i, T.id r ≠ T.id row ∧ T.key r ≠ T.key row)
    (hothers : ∀ j, j ≠ i → ∀ v ∈ s.pending j, T.id v.1 ≠ T.id row ∧ T.key v.1 ≠ T.key row)
    (hr : s.Known r) : T.id r ≠ T.id row ∧ T.key r ≠ T.key row := by
  have hmine : s.Visible i r → T.id r ≠ T.id row ∧ T.key r ≠ T.key row := by
    intro hvisible
    obtain ⟨r', hr', hcore⟩ := hs.exists_view hvisible
    rw [← T.id_core hcore, ← T.key_core hcore]
    exact hview r' hr'
  obtain ⟨j, hr | ⟨v, hv, rfl⟩⟩ := hr
  · exact hmine (Or.inl hr)
  · by_cases hj : j = i
    · subst hj
      exact hmine (Or.inr ⟨v, hv, rfl⟩)
    · exact hothers j hj v hv

end Views

section Steps

variable {T : Scheme Row Id Core Key} {s s' : State ι Row} {i : ι}

theorem visible_setPending_nil {j : ι} {r : Row} (h : (s.setPending i []).Visible j r) :
    s.Visible j r := by
  rcases h with h | ⟨v, hv, rfl⟩
  · exact Or.inl h
  · by_cases hj : j = i
    · subst hj
      simp at hv
    · rw [pending_setPending_ne s [] hj] at hv
      exact Or.inr ⟨v, hv, rfl⟩

theorem mem_pending_add {j : ι} {versions : List (Row × Option Row)} {v : Row × Option Row} :
    v ∈ (s.add i versions).pending j ↔ v ∈ s.pending j ∨ (j = i ∧ v ∈ versions) := by
  unfold State.add
  by_cases hj : j = i
  · subst hj
    simp
  · simp [pending_setPending_ne s _ hj, hj]

theorem visible_add {j : ι} {versions : List (Row × Option Row)} {r : Row}
    (h : (s.add i versions).Visible j r) : s.Visible j r ∨ (j = i ∧ ∃ v ∈ versions, v.1 = r) := by
  rcases h with h | ⟨v, hv, rfl⟩
  · exact Or.inl (Or.inl h)
  · rcases mem_pending_add.mp hv with hv | ⟨hj, hv⟩
    · exact Or.inl (Or.inr ⟨v, hv, rfl⟩)
    · exact Or.inr ⟨hj, v, hv, rfl⟩

theorem mem_pending_commit {j : ι} {v : Row × Option Row}
    (h : v ∈ (s.commit T i).pending j) : j ≠ i ∧ v ∈ s.pending j := by
  by_cases hj : j = i
  · subst hj
    simp [State.commit] at h
  · exact ⟨hj, by simpa [State.commit, hj] using h⟩

theorem known_commit {r : Row} (h : (s.commit T i).Known r) : s.Known r := by
  obtain ⟨j, hr | ⟨v, hv, rfl⟩⟩ := h
  · exact (visible_of_mem_view hr).known
  · exact ⟨j, Or.inr ⟨v, (mem_pending_commit hv).2, rfl⟩⟩

theorem Sound.persist_commit (hs : Sound T s) : Persist T s (s.commit T i) :=
  fun _ hr ↦ hs.exists_view (Or.inl hr)

omit [DecidableEq Id] in
theorem Sound.drop (hs : Sound T s) : Sound T (s.setPending i []) := by
  have hknown : ∀ r, (s.setPending i []).Known r → s.Known r :=
    fun r ⟨j, hr⟩ ↦ ⟨j, visible_setPending_nil hr⟩
  have hpending : ∀ j v, v ∈ (s.setPending i []).pending j → j ≠ i ∧ v ∈ s.pending j := by
    intro j v hv
    by_cases hj : j = i
    · subst hj
      simp at hv
    · exact ⟨hj, by rwa [pending_setPending_ne s [] hj] at hv⟩
  constructor
  · exact hs.nodup
  · exact fun r r' hr hr' ↦ hs.core r r' (hknown r hr) (hknown r' hr')
  · exact fun r r' hr hr' ↦ hs.unique r r' (hknown r hr) (hknown r' hr')
  · exact fun j k hjk v hv u hu ↦ hs.exclusive j k hjk v (hpending j v hv).2 u (hpending k u hu).2
  · exact fun j r hr ↦ hs.fresh j r (hpending j _ hr).2
  · intro j v hv
    obtain ⟨hj, hv⟩ := hpending j v hv
    simpa [pending_setPending_ne s [] hj] using hs.origin j v hv
  · exact hs.logged
  · exact hs.once

theorem Sound.insert (hs : Sound T s) {row : Row}
    (hview : ∀ r ∈ s.view T i, T.id r ≠ T.id row ∧ T.key r ≠ T.key row)
    (hothers : ∀ j, j ≠ i → ∀ v ∈ s.pending j, T.id v.1 ≠ T.id row ∧ T.key v.1 ≠ T.key row) :
    Sound T (s.add i [(row, none)]) := by
  have hnew : ∀ r, s.Known r → T.id r ≠ T.id row ∧ T.key r ≠ T.key row :=
    fun r hr ↦ hs.not_known hview hothers hr
  have hknown : ∀ r, (s.add i [(row, none)]).Known r → s.Known r ∨ r = row := by
    rintro r ⟨j, hr⟩
    rcases visible_add hr with hr | ⟨-, v, hv, rfl⟩
    · exact Or.inl hr.known
    · rw [List.mem_singleton] at hv
      exact Or.inr (by rw [hv])
  have hmem : ∀ j v, v ∈ (s.add i [(row, none)]).pending j →
      v ∈ s.pending j ∨ (j = i ∧ v = (row, none)) := by
    intro j v hv
    rcases mem_pending_add.mp hv with hv | ⟨hj, hv⟩
    · exact Or.inl hv
    · exact Or.inr ⟨hj, List.mem_singleton.mp hv⟩
  have hpending : ∀ j, ∀ v ∈ s.pending j, s.Known v.1 := fun j v hv ↦ ⟨j, Or.inr ⟨v, hv, rfl⟩⟩
  constructor
  · exact hs.nodup
  · intro r r' hr hr' hid
    rcases hknown r hr with hk | rfl <;> rcases hknown r' hr' with hk' | rfl
    · exact hs.core r r' hk hk' hid
    · exact absurd hid (hnew r hk).1
    · exact absurd hid.symm (hnew r' hk').1
    · rfl
  · intro r r' hr hr' hkey
    rcases hknown r hr with hk | rfl <;> rcases hknown r' hr' with hk' | rfl
    · exact hs.unique r r' hk hk' hkey
    · exact absurd hkey (hnew r hk).2
    · exact absurd hkey.symm (hnew r' hk').2
    · rfl
  · intro j k hjk v hv u hu
    rcases hmem j v hv with hv' | ⟨rfl, rfl⟩ <;> rcases hmem k u hu with hu' | ⟨rfl, rfl⟩
    · exact hs.exclusive j k hjk v hv' u hu'
    · exact (hnew v.1 (hpending j v hv')).1
    · exact ((hnew u.1 (hpending k u hu')).1).symm
    · exact absurd rfl hjk
  · intro j r hr r' hr'
    rcases hmem j _ hr with hr | ⟨-, hrow⟩
    · exact hs.fresh j r hr r' hr'
    · rw [Prod.mk.injEq] at hrow
      rw [hrow.1]
      exact (hnew r' ⟨j, Or.inl hr'⟩).1
  · intro j v hv
    rcases hmem j v hv with hv' | ⟨rfl, rfl⟩
    · rcases hs.origin j v hv' with hold | ⟨r, hr, hcore⟩
      · exact Or.inl hold
      · exact Or.inr ⟨r, mem_pending_add.mpr (Or.inl hr), hcore⟩
    · exact Or.inr ⟨row, hv, rfl⟩
  · exact hs.logged
  · exact hs.once

theorem Sound.update (hs : Sound T s) {versions : List (Row × Option Row)}
    (hold : ∀ v ∈ versions, ∃ old ∈ s.view T i, v.2 = some old ∧ T.core v.1 = T.core old)
    (hothers : ∀ v ∈ versions, ∀ j, j ≠ i → ∀ u ∈ s.pending j, T.id u.1 ≠ T.id v.1) :
    Sound T (s.add i versions) := by
  -- every new version agrees with a row that was known before
  have hknown : ∀ r, (s.add i versions).Known r → ∃ old, s.Known old ∧ T.core r = T.core old := by
    rintro r ⟨j, hr⟩
    rcases visible_add hr with hr | ⟨-, v, hv, rfl⟩
    · exact ⟨r, hr.known, rfl⟩
    · obtain ⟨old, hmem, -, hcore⟩ := hold v hv
      exact ⟨old, (visible_of_mem_view hmem).known, hcore⟩
  have hnone : ∀ j r, (r, none) ∈ (s.add i versions).pending j → (r, none) ∈ s.pending j := by
    intro j r hr
    rcases mem_pending_add.mp hr with hr | ⟨-, hr⟩
    · exact hr
    · obtain ⟨old, -, hsome, -⟩ := hold _ hr
      simp at hsome
  constructor
  · exact hs.nodup
  · intro r r' hr hr' hid
    obtain ⟨o, ho, hcore⟩ := hknown r hr
    obtain ⟨o', ho', hcore'⟩ := hknown r' hr'
    rw [hcore, hcore']
    apply hs.core o o' ho ho'
    rw [← T.id_core hcore, ← T.id_core hcore', hid]
  · intro r r' hr hr' hkey
    obtain ⟨o, ho, hcore⟩ := hknown r hr
    obtain ⟨o', ho', hcore'⟩ := hknown r' hr'
    rw [T.id_core hcore, T.id_core hcore']
    apply hs.unique o o' ho ho'
    rw [← T.key_core hcore, ← T.key_core hcore', hkey]
  · intro j k hjk v hv u hu
    rcases mem_pending_add.mp hv with hv' | ⟨rfl, hv'⟩ <;>
      rcases mem_pending_add.mp hu with hu' | ⟨rfl, hu'⟩
    · exact hs.exclusive j k hjk v hv' u hu'
    · exact hothers u hu' j hjk v hv'
    · exact (hothers v hv' k hjk.symm u hu').symm
    · exact absurd rfl hjk
  · exact fun j r hr ↦ hs.fresh j r (hnone j r hr)
  · intro j v hv
    have hkeep : ∀ u : Row × Option Row, T.core u.1 = T.core v.1 → u ∈ s.pending j →
        (∃ r ∈ s.rows, T.core r = T.core v.1) ∨
          ∃ r, (r, none) ∈ (s.add i versions).pending j ∧ T.core r = T.core v.1 := by
      intro u hcore hu
      rcases hs.origin j u hu with ⟨r, hr, hr'⟩ | ⟨r, hr, hr'⟩
      · exact Or.inl ⟨r, hr, hr'.trans hcore⟩
      · exact Or.inr ⟨r, mem_pending_add.mpr (Or.inl hr), hr'.trans hcore⟩
    rcases mem_pending_add.mp hv with hv' | ⟨rfl, hv'⟩
    · exact hkeep v rfl hv'
    · obtain ⟨old, hmem, -, hcore⟩ := hold v hv'
      rcases visible_of_mem_view hmem with hrow | ⟨u, hu, rfl⟩
      · exact Or.inl ⟨old, hrow, hcore.symm⟩
      · exact hkeep u hcore.symm hu
  · exact hs.logged
  · exact hs.once

theorem Sound.commit (hs : Sound T s) : Sound T (s.commit T i) := by
  have hlog : ∀ e ∈ (s.commit T i).log, e = (i, s.pending i) ∨ e ∈ s.log :=
    fun e he ↦ List.mem_cons.mp he
  -- an insert that is committed now has no trace in the log
  have hnew : ∀ r, (r, none) ∈ s.pending i → ∀ e ∈ s.log, ∀ r', (r', none) ∈ e.2 →
      T.id r ≠ T.id r' := by
    intro r hr e he r' hr' hid
    obtain ⟨r'', hr'', hcore⟩ := hs.logged e he _ hr'
    exact hs.fresh i r hr r'' hr'' ((T.id_core hcore).trans hid.symm)
  constructor
  · exact Table.nodup_overlay hs.nodup
  · exact fun r r' hr hr' ↦ hs.core r r' (known_commit hr) (known_commit hr')
  · exact fun r r' hr hr' ↦ hs.unique r r' (known_commit hr) (known_commit hr')
  · intro j k hjk v hv u hu
    exact hs.exclusive j k hjk v (mem_pending_commit hv).2 u (mem_pending_commit hu).2
  · intro j r hr r' hr'
    obtain ⟨hj, hr⟩ := mem_pending_commit hr
    rcases visible_of_mem_view hr' with hr' | ⟨v, hv, rfl⟩
    · exact hs.fresh j r hr r' hr'
    · exact hs.exclusive i j hj.symm v hv _ hr
  · intro j v hv
    obtain ⟨hj, hv⟩ := mem_pending_commit hv
    rcases hs.origin j v hv with ⟨r, hr, hcore⟩ | ⟨r, hr, hcore⟩
    · obtain ⟨r', hr', hcore'⟩ := hs.persist_commit (i := i) r hr
      exact Or.inl ⟨r', hr', hcore'.trans hcore⟩
    · exact Or.inr ⟨r, by simpa [State.commit, hj] using hr, hcore⟩
  · intro e he v hv
    rcases hlog e he with rfl | he
    · exact hs.exists_view (Or.inr ⟨v, hv, rfl⟩)
    · obtain ⟨r, hr, hcore⟩ := hs.logged e he v hv
      obtain ⟨r', hr', hcore'⟩ := hs.persist_commit (i := i) r hr
      exact ⟨r', hr', hcore'.trans hcore⟩
  · intro e he e' he' r r' hr hr' hid
    rcases hlog e he with rfl | hold <;> rcases hlog e' he' with rfl | hold'
    · rfl
    · exact absurd hid (hnew r hr e' hold' r' hr')
    · exact absurd hid.symm (hnew r' hr' e hold r hr)
    · exact hs.once e hold e' hold' r r' hr hr' hid

theorem Sound.step (hs : Sound T s) (h : Step T i s s') : Sound T s' := by
  cases h with
  | stay => exact hs
  | drop => exact hs.drop
  | insert row hview hothers => exact hs.insert hview hothers
  | update versions hold hothers => exact hs.update hold hothers
  | commit => exact hs.commit

theorem Sound.persist (hs : Sound T s) (h : Step T i s s') : Persist T s s' := by
  cases h with
  | commit => exact hs.persist_commit
  | _ => exact Persist.refl T s

/-- A row that a transaction holds no version of stays as it is. -/
theorem Step.mem_rows (h : Step T i s s') {r : Row} (hr : r ∈ s.rows)
    (hfree : ∀ v ∈ s.pending i, T.id v.1 ≠ T.id r) : r ∈ s'.rows := by
  cases h with
  | commit =>
      obtain ⟨r', hr', hid, rfl | hwrite⟩ :
          ∃ r' ∈ s.view T i, T.id r' = T.id r ∧ (r' = r ∨ r' ∈ (s.pending i).map Prod.fst) :=
        Table.exists_overlay hr
      · exact hr'
      · obtain ⟨v, hv, rfl⟩ := List.mem_map.mp hwrite
        exact (hfree v hv hid).elim
  | _ => exact hr

end Steps

/-! ## Foreign keys -/

section References

variable {Row' Id' Core' Key' : Type*} [DecidableEq Id']
  {T : Scheme Row Id Core Key} {U : Scheme Row' Id' Core' Key'}
  {rel : Row → Row' → Prop} {c : State ι Row} {p : State ι Row'} {i : ι}

/-- Every child row has a parent that is committed when the child is. -/
structure References (rel : Row → Row' → Prop) (c : State ι Row) (p : State ι Row') : Prop where
  rows : ∀ r ∈ c.rows, ∃ q ∈ p.rows, rel r q
  pending : ∀ i, ∀ v ∈ c.pending i, ∃ q, p.Visible i q ∧ rel v.1 q

omit [DecidableEq ι] in
theorem References.visible (h : References rel c p) {r : Row} (hr : c.Visible i r) :
    ∃ q, p.Visible i q ∧ rel r q := by
  rcases hr with hr | ⟨v, hv, rfl⟩
  · obtain ⟨q, hq, hrel⟩ := h.rows r hr
    exact ⟨q, Or.inl hq, hrel⟩
  · exact h.pending i v hv

theorem References.drop (h : References rel c p) :
    References rel (c.setPending i []) (p.setPending i []) := by
  refine ⟨h.rows, fun j v hv ↦ ?_⟩
  by_cases hj : j = i
  · subst hj
    simp at hv
  · rw [pending_setPending_ne c [] hj] at hv
    obtain ⟨q, hq, hrel⟩ := h.pending j v hv
    refine ⟨q, ?_, hrel⟩
    simpa [State.Visible, pending_setPending_ne p [] hj] using hq

theorem References.add (h : References rel c p) {versions : List (Row × Option Row)}
    {versions' : List (Row' × Option Row')}
    (hnew : ∀ v ∈ versions, ∃ q, p.Visible i q ∧ rel v.1 q) :
    References rel (c.add i versions) (p.add i versions') := by
  have hstay : ∀ j q, p.Visible j q → (p.add i versions').Visible j q := by
    rintro j q (hq | ⟨u, hu, rfl⟩)
    · exact Or.inl hq
    · exact Or.inr ⟨u, mem_pending_add.mpr (Or.inl hu), rfl⟩
  refine ⟨h.rows, fun j v hv ↦ ?_⟩
  rcases mem_pending_add.mp hv with hold | ⟨rfl, hadd⟩
  · obtain ⟨q, hq, hrel⟩ := h.pending j v hold
    exact ⟨q, hstay j q hq, hrel⟩
  · obtain ⟨q, hq, hrel⟩ := hnew v hadd
    exact ⟨q, hstay j q hq, hrel⟩

theorem References.commit (h : References rel c p) (hp : Sound U p)
    (hrel : ∀ r q q', rel r q → U.core q' = U.core q → rel r q') :
    References rel (c.commit T i) (p.commit U i) := by
  constructor
  · intro r hr
    obtain ⟨q, hq, hrq⟩ := h.visible (visible_of_mem_view hr)
    obtain ⟨q', hq', hcore⟩ := hp.exists_view hq
    exact ⟨q', hq', hrel r q q' hrq hcore⟩
  · intro j v hv
    obtain ⟨hj, hv⟩ := mem_pending_commit hv
    obtain ⟨q, hq | ⟨u, hu, rfl⟩, hrq⟩ := h.pending j v hv
    · obtain ⟨q', hq', hcore⟩ := hp.persist_commit (i := i) q hq
      exact ⟨q', Or.inl hq', hrel v.1 q q' hrq hcore⟩
    · exact ⟨u.1, Or.inr ⟨u, by simpa [State.commit, hj] using hu, rfl⟩, hrq⟩

end References

end Versions
