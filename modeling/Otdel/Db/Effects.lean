import Otdel.Db.Sql
import Otdel.Library.Versions

/-!
# What the statements write

An update changes none of the columns that identify a row and say whose it is.
An insert finds no row with its keys, and finds the row it refers to.
-/

namespace Otdel

open Versions

/-! ## The columns that no update changes -/

def PartnerRow.core (row : PartnerRow) : PartnerRow :=
  { row with name := [], note := none, updatedAt := 0 }

def MaterialRow.core (row : MaterialRow) : MaterialRow :=
  { row with status := .queued, pageCount := none, error := none, updatedAt := 0 }

def JobRow.core (row : JobRow) : JobRow :=
  { row with
    status := .queued
    stage := none
    attempts := 0
    maxAttempts := 0
    runAfter := 0
    leaseOwner := none
    leaseExpiresAt := none
    error := none
    updatedAt := 0 }

theorem MaterialRow.core_eq_iff {r s : MaterialRow} : r.core = s.core ↔
    r.id = s.id ∧ r.bureauId = s.bureauId ∧ r.partnerId = s.partnerId ∧
      r.filename = s.filename ∧ r.mediaType = s.mediaType ∧ r.sizeBytes = s.sizeBytes ∧
        r.sha256 = s.sha256 ∧ r.storageKey = s.storageKey ∧ r.createdAt = s.createdAt := by
  simp [MaterialRow.core]

theorem JobRow.core_eq_iff {r s : JobRow} : r.core = s.core ↔
    r.id = s.id ∧ r.bureauId = s.bureauId ∧ r.partnerId = s.partnerId ∧
      r.materialId = s.materialId ∧ r.kind = s.kind ∧ r.idempotencyKey = s.idempotencyKey ∧
        r.createdAt = s.createdAt := by
  simp [JobRow.core]

theorem PartnerRow.core_eq_iff {r s : PartnerRow} : r.core = s.core ↔
    r.id = s.id ∧ r.bureauId = s.bureauId ∧ r.createdAt = s.createdAt := by
  simp [PartnerRow.core]

/-- `primary key (id)`. -/
def partnerScheme : Scheme PartnerRow Uuid PartnerRow Uuid where
  id := PartnerRow.id
  core := PartnerRow.core
  key := PartnerRow.id
  id_core h := (PartnerRow.core_eq_iff.mp h).1
  key_core h := (PartnerRow.core_eq_iff.mp h).1

/-- `primary key (id)` and `unique (partner_id, sha256)`. -/
def materialScheme : Scheme MaterialRow Uuid MaterialRow (Uuid × Text) where
  id := MaterialRow.id
  core := MaterialRow.core
  key row := (row.partnerId, row.sha256)
  id_core h := (MaterialRow.core_eq_iff.mp h).1
  key_core h := by
    obtain ⟨-, -, hpartner, -, -, -, hsha, -⟩ := MaterialRow.core_eq_iff.mp h
    rw [hpartner, hsha]

/-- `primary key (id)` and `unique (bureau_id, idempotency_key)`. -/
def jobScheme : Scheme JobRow Uuid JobRow (Uuid × Text) where
  id := JobRow.id
  core := JobRow.core
  key row := (row.bureauId, row.idempotencyKey)
  id_core h := (JobRow.core_eq_iff.mp h).1
  key_core h := by
    obtain ⟨-, hbureau, -, -, -, hkey, -⟩ := JobRow.core_eq_iff.mp h
    rw [hbureau, hkey]

/-- `foreign key (bureau_id, partner_id) references partners (bureau_id, id)`. -/
def MaterialRow.OfPartner (row : MaterialRow) (partner : PartnerRow) : Prop :=
  partner.bureauId = row.bureauId ∧ partner.id = row.partnerId

/-- `foreign key (bureau_id, partner_id, material_id) references materials`. -/
def JobRow.OfMaterial (row : JobRow) (material : MaterialRow) : Prop :=
  material.bureauId = row.bureauId ∧ material.partnerId = row.partnerId ∧
    material.id = row.materialId

theorem MaterialRow.OfPartner.congr {row row' : MaterialRow} {partner partner' : PartnerRow}
    (h : row.OfPartner partner) (hrow : row'.core = row.core)
    (hpartner : partner'.core = partner.core) : row'.OfPartner partner' := by
  obtain ⟨-, hbureau, hpartnerId, -⟩ := MaterialRow.core_eq_iff.mp hrow
  obtain ⟨hid, hbureau', -⟩ := PartnerRow.core_eq_iff.mp hpartner
  constructor
  · rw [hbureau', hbureau, h.1]
  · rw [hid, hpartnerId, h.2]

theorem JobRow.OfMaterial.congr {row row' : JobRow} {material material' : MaterialRow}
    (h : row.OfMaterial material) (hrow : row'.core = row.core)
    (hmaterial : material'.core = material.core) : row'.OfMaterial material' := by
  obtain ⟨-, hbureau, hpartner, hmaterialId, -⟩ := JobRow.core_eq_iff.mp hrow
  obtain ⟨hid, hbureau', hpartner', -⟩ := MaterialRow.core_eq_iff.mp hmaterial
  refine ⟨?_, ?_, ?_⟩
  · rw [hbureau', hbureau, h.1]
  · rw [hpartner', hpartner, h.2.1]
  · rw [hid, hmaterialId, h.2.2]

namespace Sql

/-- What a statement can write: nothing, one new row, or new versions of the
rows a condition picks. -/
inductive Effect (id : Uuid) (now : Timestamp) (db : Db) (s : Sql) : List Write → Prop
  | none : Effect id now db s []
  | newPartner (row : PartnerRow) (hid : row.id = id)
      (hfresh : ∀ r ∈ db.partners, r.id ≠ row.id)
      (hwaits : ∀ r o, r.id = row.id → s.waitsFor id now db (.partner r o) = true) :
      Effect id now db s [.partner row .none]
  | partners (p : PartnerRow → Bool) (f : PartnerRow → PartnerRow)
      (hcore : ∀ row, (f row).core = row.core)
      (hwaits : ∀ old ∈ db.partners, p old = true → ∀ r o, r.id = old.id →
        s.waitsFor id now db (.partner r o) = true) :
      Effect id now db s ((db.partners.filter p).map fun row ↦ .partner (f row) (some row))
  | newMaterial (bureauId : Uuid) (new : NewMaterial) (hs : s = materialsInsert bureauId new)
      (hfresh : ∀ r ∈ db.materials, r.id ≠ id ∧
        ¬ (r.partnerId = new.partnerId ∧ r.sha256 = new.sha256))
      (hpartner : ∃ q ∈ db.partners, (newMaterialRow bureauId new id now).OfPartner q) :
      Effect id now db s [.material (newMaterialRow bureauId new id now) .none]
  | materials (p : MaterialRow → Bool) (f : MaterialRow → MaterialRow)
      (hcore : ∀ row, (f row).core = row.core)
      (hwaits : ∀ old ∈ db.materials, p old = true → ∀ r o, r.id = old.id →
        s.waitsFor id now db (.material r o) = true) :
      Effect id now db s ((db.materials.filter p).map fun row ↦ .material (f row) (some row))
  | newJob (bureauId partnerId materialId : Uuid) (kind : JobKind) (key : Text)
      (hs : s = jobsInsert bureauId partnerId materialId kind key)
      (hfresh : ∀ r ∈ db.jobs, r.id ≠ id ∧ ¬ (r.bureauId = bureauId ∧ r.idempotencyKey = key))
      (hmaterial : ∃ m ∈ db.materials,
        (newJobRow bureauId partnerId materialId kind key id now).OfMaterial m) :
      Effect id now db s [.job (newJobRow bureauId partnerId materialId kind key id now) .none]
  | jobs (p : JobRow → Bool) (f : JobRow → JobRow) (hcore : ∀ row, (f row).core = row.core)
      (hwaits : ∀ old ∈ db.jobs, p old = true → ∀ r o, r.id = old.id →
        s.waitsFor id now db (.job r o) = true) :
      Effect id now db s ((db.jobs.filter p).map fun row ↦ .job (f row) (some row))

theorem updateRows_eq_ok {Row : Type} {write : Row → Option Row → Write} {check : Row → Bool}
    {rows : List Row} {p : Row → Bool} {f : Row → Row} {r : List Row × List Write} :
    updateRows write check rows p f = .ok r ↔
      (∀ row ∈ rows.filter p, check (f row) = true) ∧
        r = ((rows.filter p).map f, (rows.filter p).map fun row ↦ write (f row) (some row)) := by
  unfold updateRows
  dsimp only
  split
  · rename_i hall
    rw [List.all_eq_true] at hall
    constructor
    · intro h
      cases h
      exact ⟨hall, rfl⟩
    · rintro ⟨-, rfl⟩
      rfl
  · rename_i hall
    simp only [reduceCtorEq, false_iff, not_and]
    intro hcheck
    exact absurd (List.all_eq_true.mpr hcheck) hall

/-- The writes of an update, whatever it answers. -/
theorem map_updateRows_eq_ok {Row α : Type} {write : Row → Option Row → Write}
    {check : Row → Bool} {rows : List Row} {p : Row → Bool} {f : Row → Row}
    {answer : List Row → α} {r : α × List Write}
    (h : (updateRows write check rows p f).map (fun r ↦ (answer r.1, r.2)) = .ok r) :
    r = (answer ((rows.filter p).map f), (rows.filter p).map fun row ↦ write (f row) (some row)) ∧
      ∀ row ∈ rows.filter p, check (f row) = true := by
  cases hr : updateRows write check rows p f with
  | error e =>
      rw [hr] at h
      cases h
  | ok q =>
      rw [hr] at h
      obtain ⟨hcheck, rfl⟩ := updateRows_eq_ok.mp hr
      cases h
      exact ⟨rfl, hcheck⟩

/-- What holds of the new versions of the rows that are picked holds of all writes. -/
theorem forall_write_of_updateRows {Row α : Type} {write : Row → Option Row → Write}
    {check : Row → Bool} {rows : List Row} {p : Row → Bool} {f : Row → Row}
    {answer : List Row → α} {a : α} {writes : List Write} {q : Write → Prop}
    (h : (updateRows write check rows p f).map (fun r ↦ (answer r.1, r.2)) = .ok (a, writes))
    (hq : ∀ row, p row = true → q (write (f row) (some row))) : ∀ w ∈ writes, q w := by
  obtain ⟨hr, -⟩ := map_updateRows_eq_ok h
  cases hr
  intro w hw
  obtain ⟨old, hold, rfl⟩ := List.mem_map.mp hw
  exact hq old (List.mem_filter.mp hold).2

variable {id : Uuid} {now : Timestamp} {db : Db}

theorem effect_of_exec {s : Sql} {answer : s.Answer} {writes : List Write}
    (h : s.exec id now db = .ok (answer, writes)) : Effect id now db s writes := by
  cases s with
  | partnersList | partnersGet | partnersExists | materialsList | materialsByDigest
  | materialsGet | jobsList | jobsByKey =>
      cases h
      exact .none
  | partnersInsert bureauId name note =>
      simp only [exec] at h
      split at h
      · cases h
      · split at h
        · cases h
        · split at h
          · cases h
          · rename_i hfresh _
            cases h
            refine .newPartner ⟨id, bureauId, name, note, now, now⟩ rfl ?_ ?_
            · simpa using hfresh
            · intro r o hr
              simpa [waitsFor] using hr
  | partnersUpdate bureauId partnerId name setNote note =>
      obtain ⟨hr, -⟩ := map_updateRows_eq_ok h
      cases hr
      refine .partners _ _ (fun row ↦ rfl) ?_
      intro old hold hp r o hr
      simp only [waitsFor, List.any_eq_true]
      exact ⟨old, hold, by simp [hp, hr]⟩
  | materialsInsert bureauId new =>
      simp only [exec] at h
      split at h
      · cases h
      · split at h
        · cases h
          exact .none
        · split at h
          · cases h
          · split at h
            · cases h
            · rename_i hkey hid hpartner
              cases h
              refine .newMaterial bureauId new rfl ?_ ?_
              · intro r hr
                constructor
                · intro hr'
                  exact hid (List.any_eq_true.mpr ⟨r, hr, by simpa using hr'⟩)
                · rintro ⟨hp, hs⟩
                  apply hkey
                  exact List.any_eq_true.mpr ⟨r, hr, by simp [newMaterialRow, hp, hs]⟩
              · rw [Bool.not_eq_false, List.any_eq_true] at hpartner
                obtain ⟨q, hq, hq'⟩ := hpartner
                simp only [isPartner, Bool.and_eq_true, decide_eq_true_eq] at hq'
                exact ⟨q, hq, hq'⟩
  | materialsRequeue bureauId partnerId materialId =>
      obtain ⟨hr, -⟩ := map_updateRows_eq_ok h
      cases hr
      refine .materials _ _ (fun row ↦ rfl) ?_
      intro old hold hp r o hr
      simp only [waitsFor, List.any_eq_true]
      exact ⟨old, hold, by simp [hp, hr]⟩
  | jobsInsert bureauId partnerId materialId kind key =>
      simp only [exec] at h
      split at h
      · cases h
      · split at h
        · cases h
          exact .none
        · split at h
          · cases h
          · split at h
            · cases h
            · rename_i hkey hid hmaterial
              cases h
              refine .newJob bureauId partnerId materialId kind key rfl ?_ ?_
              · intro r hr
                constructor
                · intro hr'
                  exact hid (List.any_eq_true.mpr ⟨r, hr, by simpa using hr'⟩)
                · rintro ⟨hb, hk⟩
                  apply hkey
                  exact List.any_eq_true.mpr ⟨r, hr, by simp [hasKey, hb, hk]⟩
              · rw [Bool.not_eq_false, List.any_eq_true] at hmaterial
                obtain ⟨m, hm, hm'⟩ := hmaterial
                simp only [isMaterial, isMaterialOf, Bool.and_eq_true, decide_eq_true_eq] at hm'
                exact ⟨m, hm, hm'.1.1, hm'.1.2, hm'.2⟩
  | jobsRequeue bureauId partnerId materialId key =>
      simp only [exec] at h
      split at h
      · cases h
      · obtain ⟨hr, -⟩ := map_updateRows_eq_ok h
        cases hr
        refine .jobs _ _ (fun row ↦ rfl) ?_
        intro old hold hp r o hr
        simp only [waitsFor, List.any_eq_true]
        exact ⟨old, hold, by simp [hp, hr]⟩
  | jobsReclaim bureauId =>
      obtain ⟨hr, -⟩ := map_updateRows_eq_ok h
      cases hr
      refine .jobs _ _ (fun row ↦ rfl) ?_
      intro old hold hp r o hr
      simp only [waitsFor, List.any_eq_true]
      exact ⟨old, hold, by simp [hp, hr]⟩
  | workerMaterial bureauId materialId change =>
      obtain ⟨hr, -⟩ := map_updateRows_eq_ok h
      cases hr
      refine .materials _ _ (fun row ↦ rfl) ?_
      intro old hold hp r o hr
      simp only [waitsFor, List.any_eq_true]
      exact ⟨old, hold, by simpa [hr] using hp⟩
  | workerJob bureauId jobId change =>
      obtain ⟨hr, -⟩ := map_updateRows_eq_ok h
      cases hr
      refine .jobs _ _ (fun row ↦ rfl) ?_
      intro old hold hp r o hr
      simp only [waitsFor, List.any_eq_true]
      exact ⟨old, hold, by simpa [hr] using hp⟩

theorem map_updateRows_error {Row α : Type} {write : Row → Option Row → Write}
    {check : Row → Bool} {rows : List Row} {p : Row → Bool} {f : Row → Row}
    {g : List Row × List Write → α} {e : DbError}
    (h : (updateRows write check rows p f).map g = .error e) : e = .checkViolation := by
  unfold updateRows at h
  dsimp only at h
  split at h <;> cases h
  rfl

/-- The server reports what is wrong with a statement, never with an answer. -/
theorem isDecode_of_exec {s : Sql} {e : DbError} (h : s.exec id now db = .error e) :
    e.isDecode = false := by
  cases s with
  | partnersList | partnersGet | partnersExists | materialsList | materialsByDigest
  | materialsGet | jobsList | jobsByKey => cases h
  | partnersUpdate | materialsRequeue | jobsReclaim | workerMaterial | workerJob =>
      rw [map_updateRows_error h]
      rfl
  | jobsRequeue =>
      simp only [exec] at h
      split at h
      · cases h
        rfl
      · rw [map_updateRows_error h]
        rfl
  | partnersInsert | materialsInsert | jobsInsert =>
      simp only [exec] at h
      repeat'
        split at h
        · first
            | cases h
              rfl
            | cases h
      cases h

/-- A material is inserted, or an older row has its partner and digest. -/
theorem exec_materialsInsert {bureauId : Uuid} {new : NewMaterial}
    {answer : Option MaterialRow} {writes : List Write}
    (h : (materialsInsert bureauId new).exec id now db = .ok (answer, writes)) :
    (answer = some (newMaterialRow bureauId new id now) ∧
      writes = [.material (newMaterialRow bureauId new id now) none]) ∨
    (answer = none ∧ writes = [] ∧
      ∃ r ∈ db.materials, r.partnerId = new.partnerId ∧ r.sha256 = new.sha256) := by
  simp only [exec] at h
  split at h
  · cases h
  · split at h
    · rename_i hkey
      cases h
      obtain ⟨r, hr, hsame⟩ := List.any_eq_true.mp hkey
      rw [Bool.and_eq_true] at hsame
      exact Or.inr ⟨rfl, rfl, r, hr, of_decide_eq_true hsame.1, of_decide_eq_true hsame.2⟩
    · split at h
      · cases h
      · split at h
        · cases h
        · cases h
          exact Or.inl ⟨rfl, rfl⟩

/-- A job is inserted, or an older row has its key. -/
theorem exec_jobsInsert {bureauId partnerId materialId : Uuid} {kind : JobKind} {key : Text}
    {answer : Option JobRow} {writes : List Write}
    (h : (jobsInsert bureauId partnerId materialId kind key).exec id now db =
      .ok (answer, writes)) :
    (answer = some (newJobRow bureauId partnerId materialId kind key id now) ∧
      writes = [.job (newJobRow bureauId partnerId materialId kind key id now) none] ∧
        ∀ r ∈ db.jobs, hasKey bureauId key r = false) ∨
    (answer = none ∧ writes = [] ∧ ∃ r ∈ db.jobs, hasKey bureauId key r = true) := by
  simp only [exec] at h
  split at h
  · cases h
  · split at h
    · rename_i hkey
      cases h
      exact Or.inr ⟨rfl, rfl, List.any_eq_true.mp hkey⟩
    · rename_i hkey
      split at h
      · cases h
      · split at h
        · cases h
        · cases h
          refine Or.inl ⟨rfl, rfl, fun r hr ↦ ?_⟩
          by_contra hr'
          exact hkey (List.any_eq_true.mpr ⟨r, hr, by simpa using hr'⟩)

theorem Effect.material_insert {s : Sql} {writes : List Write} (h : Effect id now db s writes)
    {row : MaterialRow} (hrow : .material row .none ∈ writes) :
    ∃ bureauId new, s = materialsInsert bureauId new ∧ row = newMaterialRow bureauId new id now := by
  cases h with
  | newMaterial bureauId new hs =>
      rw [List.mem_singleton] at hrow
      cases hrow
      exact ⟨bureauId, new, hs, rfl⟩
  | _ => simp at hrow

end Sql

end Otdel
