import Otdel.Db.Effects
import Otdel.Library.Selection

/-!
# Whose rows a statement is about

A scope is a bureau, or one partner of a bureau.  Rows outside a scope have no
part in a statement about it: not as rows that are read or updated, and not as
rows that a key clashes with or a reference leads to.
-/

namespace Otdel

open Table

structure Scope where
  bureauId : Uuid
  /-- All partners of the bureau, or one. -/
  partnerId : Option Uuid
  deriving DecidableEq

namespace Scope

variable (s : Scope)

def holds (bureauId partnerId : Uuid) : Bool :=
  bureauId = s.bureauId && s.partnerId.all fun only ↦ partnerId = only

def partner (row : PartnerRow) : Bool := s.holds row.bureauId row.id

def material (row : MaterialRow) : Bool := s.holds row.bureauId row.partnerId

def job (row : JobRow) : Bool := s.holds row.bureauId row.partnerId

def write : Write → Bool
  | .partner row _ => s.partner row
  | .material row _ => s.material row
  | .job row _ => s.job row

variable {s}

theorem holds_eq {bureauId partnerId : Uuid} : s.holds bureauId partnerId = true ↔
    bureauId = s.bureauId ∧ ∀ only, s.partnerId = some only → partnerId = only := by
  cases hpartner : s.partnerId <;> simp [holds, hpartner]

theorem holds_of_none (hs : s.partnerId = none) {partnerId : Uuid} :
    s.holds s.bureauId partnerId = true :=
  holds_eq.mpr ⟨rfl, fun only h ↦ by simp [hs] at h⟩

theorem partner_congr {r r' : PartnerRow} (h : r.core = r'.core) : s.partner r = s.partner r' := by
  obtain ⟨hid, hbureau, -⟩ := PartnerRow.core_eq_iff.mp h
  rw [partner, partner, hid, hbureau]

theorem material_congr {r r' : MaterialRow} (h : r.core = r'.core) :
    s.material r = s.material r' := by
  obtain ⟨-, hbureau, hpartner, -⟩ := MaterialRow.core_eq_iff.mp h
  rw [material, material, hbureau, hpartner]

theorem job_congr {r r' : JobRow} (h : r.core = r'.core) : s.job r = s.job r' := by
  obtain ⟨-, hbureau, hpartner, -⟩ := JobRow.core_eq_iff.mp h
  rw [job, job, hbureau, hpartner]

end Scope

/-- The rows that someone can see: the committed ones and the versions of open
transactions. -/
structure KnownRows where
  partner : PartnerRow → Prop
  material : MaterialRow → Prop
  job : JobRow → Prop

namespace KnownRows

def write (known : KnownRows) : Write → Prop
  | .partner row _ => known.partner row
  | .material row _ => known.material row
  | .job row _ => known.job row

/-- The versions of one row are in a scope together. -/
structure Coherent (s : Scope) (known : KnownRows) : Prop where
  partner : ∀ r r', known.partner r → known.partner r' → r.id = r'.id → s.partner r = s.partner r'
  material : ∀ r r', known.material r → known.material r' → r.id = r'.id →
    s.material r = s.material r'
  job : ∀ r r', known.job r → known.job r' → r.id = r'.id → s.job r = s.job r'

end KnownRows

namespace Db

/-- Two databases have the same rows of a scope. -/
structure Agrees (s : Scope) (db db' : Db) : Prop where
  bureau : s.bureauId ∈ db.bureaus ↔ s.bureauId ∈ db'.bureaus
  partners : Same s.partner db.partners db'.partners
  materials : Same s.material db.materials db'.materials
  jobs : Same s.job db.jobs db'.jobs

/-- The keys of the three tables. -/
structure Keyed (db : Db) : Prop where
  partnerIds : (db.partners.map PartnerRow.id).Nodup
  materialIds : (db.materials.map MaterialRow.id).Nodup
  jobIds : (db.jobs.map JobRow.id).Nodup
  digests : ∀ r ∈ db.materials, ∀ r' ∈ db.materials, r.partnerId = r'.partnerId →
    r.sha256 = r'.sha256 → r = r'
  jobKeys : ∀ r ∈ db.jobs, ∀ r' ∈ db.jobs, r.bureauId = r'.bureauId →
    r.idempotencyKey = r'.idempotencyKey → r = r'

structure Shows (db : Db) (known : KnownRows) : Prop where
  partner : ∀ row ∈ db.partners, known.partner row
  material : ∀ row ∈ db.materials, known.material row
  job : ∀ row ∈ db.jobs, known.job row

theorem Agrees.symm {s : Scope} {db db' : Db} (h : db.Agrees s db') : db'.Agrees s db :=
  ⟨h.bureau.symm, h.partners.symm, h.materials.symm, h.jobs.symm⟩

theorem Keyed.partner_eq {db : Db} (h : db.Keyed) {r r' : PartnerRow} (hr : r ∈ db.partners)
    (hr' : r' ∈ db.partners) (hid : r.id = r'.id) : r = r' :=
  List.inj_on_of_nodup_map h.partnerIds hr hr' hid

theorem Keyed.material_eq {db : Db} (h : db.Keyed) {r r' : MaterialRow} (hr : r ∈ db.materials)
    (hr' : r' ∈ db.materials) (hid : r.id = r'.id) : r = r' :=
  List.inj_on_of_nodup_map h.materialIds hr hr' hid

end Db

namespace Sql

/-- A statement about the rows of a scope.  An insert is about the rows that it
could clash with, too: no row with its key lies outside. -/
def About (s : Scope) (known : KnownRows) : Sql → Prop
  | partnersList bureauId => bureauId = s.bureauId ∧ s.partnerId = none
  | partnersInsert bureauId _ _ => bureauId = s.bureauId ∧ s.partnerId = none
  | partnersGet bureauId partnerId => s.holds bureauId partnerId = true
  | partnersUpdate bureauId partnerId _ _ _ => s.holds bureauId partnerId = true
  | partnersExists bureauId partnerId => s.holds bureauId partnerId = true
  | materialsList bureauId partnerId => s.holds bureauId partnerId = true
  | materialsByDigest bureauId partnerId _ => s.holds bureauId partnerId = true
  | materialsGet bureauId partnerId _ => s.holds bureauId partnerId = true
  | materialsInsert bureauId new => s.holds bureauId new.partnerId = true ∧
      ∀ row, known.material row → row.partnerId = new.partnerId → s.material row = true
  | materialsRequeue bureauId partnerId _ => s.holds bureauId partnerId = true
  | jobsList bureauId partnerId => s.holds bureauId partnerId = true
  | jobsInsert bureauId partnerId _ _ key => s.holds bureauId partnerId = true ∧
      ∀ row, known.job row → hasKey bureauId key row = true → s.job row = true
  | jobsByKey bureauId key => bureauId = s.bureauId ∧
      ∀ row, known.job row → hasKey bureauId key row = true → s.job row = true
  | jobsRequeue bureauId partnerId _ _ => s.holds bureauId partnerId = true
  | _ => False

/-- The generated identifier is not that of a row elsewhere. -/
def NewId (s : Scope) (known : KnownRows) (id : Uuid) : Sql → Prop
  | partnersInsert _ _ _ => ∀ row, known.partner row → row.id = id → s.partner row = true
  | materialsInsert _ _ => ∀ row, known.material row → row.id = id → s.material row = true
  | jobsInsert _ _ _ _ _ => ∀ row, known.job row → row.id = id → s.job row = true
  | _ => True

/-! ## Rows that statements pick -/

section Picks

variable {s : Scope} {bureauId partnerId materialId : Uuid}

theorem partner_of_isPartner (h : s.holds bureauId partnerId = true) (row : PartnerRow)
    (hrow : isPartner bureauId partnerId row = true) : s.partner row = true := by
  simp only [isPartner, Bool.and_eq_true, decide_eq_true_eq] at hrow
  rw [Scope.partner, hrow.1, hrow.2, h]

theorem material_of_isMaterialOf (h : s.holds bureauId partnerId = true) (row : MaterialRow)
    (hrow : isMaterialOf bureauId partnerId row = true) : s.material row = true := by
  simp only [isMaterialOf, Bool.and_eq_true, decide_eq_true_eq] at hrow
  rw [Scope.material, hrow.1, hrow.2, h]

theorem material_of_isMaterial (h : s.holds bureauId partnerId = true) (row : MaterialRow)
    (hrow : isMaterial bureauId partnerId materialId row = true) : s.material row = true := by
  rw [isMaterial, Bool.and_eq_true] at hrow
  exact material_of_isMaterialOf h row hrow.1

theorem job_of_isJobOf (h : s.holds bureauId partnerId = true) (row : JobRow)
    (hrow : isJobOf bureauId partnerId row = true) : s.job row = true := by
  simp only [isJobOf, Bool.and_eq_true, decide_eq_true_eq] at hrow
  rw [Scope.job, hrow.1, hrow.2, h]

theorem job_of_isExtractionOf {key : Text} (h : s.holds bureauId partnerId = true) (row : JobRow)
    (hrow : isExtractionOf bureauId partnerId materialId key row = true) : s.job row = true := by
  simp only [isExtractionOf, Bool.and_eq_true] at hrow
  exact job_of_isJobOf h row hrow.1.1

end Picks

/-! ## Statements answer alike -/

section Alike

variable {s : Scope} {known known' : KnownRows} {id : Uuid} {now : Timestamp} {db db' : Db}

theorem newest_trans {a b c x y z : ℕ} (h : b < a ∨ (a = b ∧ y ≤ x))
    (h' : c < b ∨ (b = c ∧ z ≤ y)) : c < a ∨ (a = c ∧ z ≤ x) := by omega

theorem newest_total (a b x y : ℕ) : (b < a ∨ (a = b ∧ y ≤ x)) ∨ (a < b ∨ (b = a ∧ x ≤ y)) := by
  omega

theorem newest_anti {a b x y : ℕ} (h : b < a ∨ (a = b ∧ y ≤ x))
    (h' : a < b ∨ (b = a ∧ x ≤ y)) : x = y := by omega

/-- Rows in the order of a listing. -/
theorem newestFirst_eq {Row : Type} {createdAt : Row → Timestamp} {rowId : Row → Uuid}
    {rows rows' : List Row} (hnodup : (rows.map rowId).Nodup) (h : rows.Perm rows') :
    newestFirst createdAt rowId rows = newestFirst createdAt rowId rows' := by
  apply mergeSort_eq_of_perm _ _ _ h
  · intro a b c hab hbc
    simp only [Bool.or_eq_true, Bool.and_eq_true, decide_eq_true_eq] at hab hbc ⊢
    exact newest_trans hab hbc
  · intro a b
    simp only [Bool.or_eq_true, Bool.and_eq_true, decide_eq_true_eq]
    exact newest_total _ _ _ _
  · intro a ha b hb hab hba
    simp only [Bool.or_eq_true, Bool.and_eq_true, decide_eq_true_eq] at hab hba
    exact List.inj_on_of_nodup_map hnodup ha hb (Uuid.value_injective (newest_anti hab hba))

theorem updateRows_congr {Row : Type} {write : Row → Option Row → Write} {check : Row → Bool}
    {rows rows' : List Row} {p : Row → Bool} {f : Row → Row}
    (h : rows.filter p = rows'.filter p) :
    updateRows write check rows p f = updateRows write check rows' p f := by
  rw [updateRows, updateRows, h]

theorem nodup_filter_map {Row Id : Type} {rowId : Row → Id} {rows : List Row} (p : Row → Bool)
    (h : (rows.map rowId).Nodup) : ((rows.filter p).map rowId).Nodup :=
  h.sublist (List.filter_sublist.map _)

/-- The rows of a scope decide what a statement about it answers and writes. -/
theorem exec_agrees {st : Sql} (hagrees : db.Agrees s db') (hkeyed : db.Keyed)
    (hshows : db.Shows known) (hshows' : db'.Shows known') (habout : st.About s known)
    (habout' : st.About s known') (hnew : st.NewId s known id) (hnew' : st.NewId s known' id) :
    st.exec id now db = st.exec id now db' := by
  have hpartner : ∀ {bureauId partnerId}, s.holds bureauId partnerId = true →
      db.partners.filter (isPartner bureauId partnerId) =
        db'.partners.filter (isPartner bureauId partnerId) := by
    intro bureauId partnerId h
    apply hagrees.partners.filter_eq (partner_of_isPartner h)
    intro r hr r' hr' hp hp'
    simp only [isPartner, Bool.and_eq_true, decide_eq_true_eq] at hp hp'
    exact hkeyed.partner_eq hr hr' (hp.2.trans hp'.2.symm)
  have hmaterial : ∀ {bureauId partnerId materialId}, s.holds bureauId partnerId = true →
      db.materials.filter (isMaterial bureauId partnerId materialId) =
        db'.materials.filter (isMaterial bureauId partnerId materialId) := by
    intro bureauId partnerId materialId h
    apply hagrees.materials.filter_eq (material_of_isMaterial h)
    intro r hr r' hr' hp hp'
    simp only [isMaterial, Bool.and_eq_true, decide_eq_true_eq] at hp hp'
    exact hkeyed.material_eq hr hr' (hp.2.trans hp'.2.symm)
  have hanyPartner : ∀ {bureauId partnerId}, s.holds bureauId partnerId = true →
      db.partners.any (isPartner bureauId partnerId) =
        db'.partners.any (isPartner bureauId partnerId) := fun h ↦
    hagrees.partners.any_eq (fun r _ ↦ partner_of_isPartner h r)
      fun r _ ↦ partner_of_isPartner h r
  cases st with
  | partnersList bureauId =>
      obtain ⟨rfl, hs⟩ := habout
      have hperm := hagrees.partners.filter_perm (p := fun row ↦ row.bureauId = s.bureauId) <| by
        intro row hrow
        rw [decide_eq_true_eq] at hrow
        rw [Scope.partner, hrow]
        exact Scope.holds_of_none hs
      rw [exec, exec, newestFirst_eq (nodup_filter_map _ hkeyed.partnerIds) hperm]
  | partnersInsert bureauId name note =>
      obtain ⟨rfl, -⟩ := habout
      have hany : db.partners.any (fun other ↦ other.id = id) =
          db'.partners.any fun other ↦ other.id = id := by
        apply hagrees.partners.any_eq
        · exact fun r hr hid ↦ hnew r (hshows.partner r hr) (of_decide_eq_true hid)
        · exact fun r hr hid ↦ hnew' r (hshows'.partner r hr) (of_decide_eq_true hid)
      simp only [exec, hany, hagrees.bureau]
  | partnersGet bureauId partnerId => rw [exec, exec, Same.find?_eq (hpartner habout)]
  | partnersUpdate bureauId partnerId name setNote note =>
      rw [exec, exec, updateRows_congr (hpartner habout)]
  | partnersExists bureauId partnerId => rw [exec, exec, hanyPartner habout]
  | materialsList bureauId partnerId =>
      have hperm := hagrees.materials.filter_perm (material_of_isMaterialOf habout)
      rw [exec, exec, newestFirst_eq (nodup_filter_map _ hkeyed.materialIds) hperm]
  | materialsByDigest bureauId partnerId sha256 =>
      have hfilter : db.materials.filter (hasDigest bureauId partnerId sha256) =
          db'.materials.filter (hasDigest bureauId partnerId sha256) := by
        apply hagrees.materials.filter_eq
        · intro row hrow
          rw [hasDigest, Bool.and_eq_true] at hrow
          exact material_of_isMaterialOf habout row hrow.1
        · intro r hr r' hr' hp hp'
          simp only [hasDigest, isMaterialOf, Bool.and_eq_true, decide_eq_true_eq] at hp hp'
          exact hkeyed.digests r hr r' hr' (hp.1.2.trans hp'.1.2.symm) (hp.2.trans hp'.2.symm)
      rw [exec, exec, Same.find?_eq hfilter]
  | materialsGet bureauId partnerId materialId =>
      rw [exec, exec, Same.find?_eq (hmaterial habout)]
  | materialsInsert bureauId new =>
      obtain ⟨hholds, hin⟩ := habout
      have hdigest : db.materials.any (fun other ↦
            other.partnerId = (newMaterialRow bureauId new id now).partnerId &&
              other.sha256 = (newMaterialRow bureauId new id now).sha256) =
          db'.materials.any fun other ↦
            other.partnerId = (newMaterialRow bureauId new id now).partnerId &&
              other.sha256 = (newMaterialRow bureauId new id now).sha256 := by
        apply hagrees.materials.any_eq
        · intro r hr hp
          rw [Bool.and_eq_true, decide_eq_true_eq] at hp
          exact hin r (hshows.material r hr) hp.1
        · intro r hr hp
          rw [Bool.and_eq_true, decide_eq_true_eq] at hp
          exact habout'.2 r (hshows'.material r hr) hp.1
      have hid : db.materials.any (fun other ↦ other.id = id) =
          db'.materials.any fun other ↦ other.id = id := by
        apply hagrees.materials.any_eq
        · exact fun r hr hid ↦ hnew r (hshows.material r hr) (of_decide_eq_true hid)
        · exact fun r hr hid ↦ hnew' r (hshows'.material r hr) (of_decide_eq_true hid)
      have hpartner : db.partners.any
            (isPartner bureauId (newMaterialRow bureauId new id now).partnerId) =
          db'.partners.any (isPartner bureauId (newMaterialRow bureauId new id now).partnerId) :=
        hanyPartner hholds
      simp only [exec, hdigest, hid, hpartner]
  | materialsRequeue bureauId partnerId materialId =>
      rw [exec, exec, updateMaterials, updateMaterials, updateRows_congr (hmaterial habout)]
  | jobsList bureauId partnerId =>
      have hperm := hagrees.jobs.filter_perm (job_of_isJobOf habout)
      rw [exec, exec, newestFirst_eq (nodup_filter_map _ hkeyed.jobIds) hperm]
  | jobsInsert bureauId partnerId materialId kind key =>
      obtain ⟨hholds, hin⟩ := habout
      have hkey : db.jobs.any (hasKey bureauId key) = db'.jobs.any (hasKey bureauId key) :=
        hagrees.jobs.any_eq (fun r hr ↦ hin r (hshows.job r hr))
          fun r hr ↦ habout'.2 r (hshows'.job r hr)
      have hid : db.jobs.any (fun other ↦ other.id = id) =
          db'.jobs.any fun other ↦ other.id = id := by
        apply hagrees.jobs.any_eq
        · exact fun r hr hid ↦ hnew r (hshows.job r hr) (of_decide_eq_true hid)
        · exact fun r hr hid ↦ hnew' r (hshows'.job r hr) (of_decide_eq_true hid)
      have hany : db.materials.any (isMaterial bureauId partnerId materialId) =
          db'.materials.any (isMaterial bureauId partnerId materialId) :=
        hagrees.materials.any_eq (fun r _ ↦ material_of_isMaterial hholds r)
          fun r _ ↦ material_of_isMaterial hholds r
      simp only [exec, hkey, hid, hany]
  | jobsByKey bureauId key =>
      obtain ⟨rfl, hin⟩ := habout
      -- the jobs with this key, none of them elsewhere
      have hfilter : db.jobs.find? (hasKey s.bureauId key) =
          db'.jobs.find? (hasKey s.bureauId key) := by
        have hsub : ∀ rows : List JobRow,
            (∀ r ∈ rows, hasKey s.bureauId key r = true → s.job r = true) →
            rows.filter (hasKey s.bureauId key) =
              rows.filter fun r ↦ hasKey s.bureauId key r && s.job r := by
          intro rows hrows
          apply List.filter_congr
          intro r hr
          cases hr' : hasKey s.bureauId key r with
          | true => simp [hrows r hr hr']
          | false => simp
        apply Same.find?_eq
        rw [hsub db.jobs fun r hr ↦ hin r (hshows.job r hr),
          hsub db'.jobs fun r hr ↦ habout'.2 r (hshows'.job r hr)]
        apply hagrees.jobs.filter_eq
        · intro r hr
          exact (Bool.and_eq_true _ _ ▸ hr).2
        · intro r hr r' hr' hp hp'
          simp only [hasKey, Bool.and_eq_true, decide_eq_true_eq] at hp hp'
          exact hkeyed.jobKeys r hr r' hr' (hp.1.1.trans hp'.1.1.symm)
            (hp.1.2.trans hp'.1.2.symm)
      rw [exec, exec, hfilter]
  | jobsRequeue bureauId partnerId materialId key =>
      have hfilter : db.jobs.filter (isExtractionOf bureauId partnerId materialId key) =
          db'.jobs.filter (isExtractionOf bureauId partnerId materialId key) := by
        apply hagrees.jobs.filter_eq (job_of_isExtractionOf habout)
        intro r hr r' hr' hp hp'
        simp only [isExtractionOf, isJobOf, Bool.and_eq_true, decide_eq_true_eq] at hp hp'
        exact hkeyed.jobKeys r hr r' hr' (hp.1.1.1.trans hp'.1.1.1.symm)
          (hp.2.trans hp'.2.symm)
      have hany : db.jobs.any (fun row ↦ isExtractionOf bureauId partnerId materialId key row &&
            maxInteger < row.attempts + 1) =
          db'.jobs.any fun row ↦ isExtractionOf bureauId partnerId materialId key row &&
            maxInteger < row.attempts + 1 := by
        apply hagrees.jobs.any_eq <;>
        · intro r _ hp
          rw [Bool.and_eq_true] at hp
          exact job_of_isExtractionOf habout r hp.1
      simp only [exec, updateJobs, hany, updateRows_congr hfilter]
  | jobsReclaim | workerMaterial | workerJob => exact habout.elim

/-- They decide what it waits for. -/
theorem waitsFor_agrees {st : Sql} (hagrees : db.Agrees s db') (habout : st.About s known)
    (write : Write) : st.waitsFor id now db write = st.waitsFor id now db' write := by
  cases st with
  | partnersUpdate bureauId partnerId =>
      cases write with
      | partner row replaced =>
          apply hagrees.partners.any_eq <;>
          · intro r _ hr
            rw [Bool.and_eq_true] at hr
            exact partner_of_isPartner habout r hr.1
      | material | job => rfl
  | materialsRequeue bureauId partnerId materialId =>
      cases write with
      | material row replaced =>
          apply hagrees.materials.any_eq <;>
          · intro r _ hr
            rw [Bool.and_eq_true] at hr
            exact material_of_isMaterial habout r hr.1
      | partner | job => rfl
  | jobsRequeue bureauId partnerId materialId key =>
      cases write with
      | job row replaced =>
          apply hagrees.jobs.any_eq <;>
          · intro r _ hr
            rw [Bool.and_eq_true] at hr
            exact job_of_isExtractionOf habout r hr.1
      | partner | material => rfl
  | jobsReclaim | workerMaterial | workerJob => exact habout.elim
  | _ => cases write <;> rfl

/-- It waits for no version of a row elsewhere. -/
theorem write_of_waitsFor {st : Sql} (hcoherent : known.Coherent s) (hshows : db.Shows known)
    (habout : st.About s known) (hnew : st.NewId s known id) {write : Write}
    (hwrite : known.write write) (hwaits : st.waitsFor id now db write = true) :
    s.write write = true := by
  cases st with
  | partnersInsert bureauId name note =>
      cases write with
      | partner row replaced => exact hnew row hwrite (of_decide_eq_true hwaits)
      | material | job => cases hwaits
  | partnersUpdate bureauId partnerId =>
      cases write with
      | partner row replaced =>
          obtain ⟨old, hold, hp⟩ := List.any_eq_true.mp hwaits
          rw [Bool.and_eq_true, decide_eq_true_eq] at hp
          rw [Scope.write, ← hcoherent.partner old row (hshows.partner old hold) hwrite hp.2]
          exact partner_of_isPartner habout old hp.1
      | material | job => cases hwaits
  | materialsInsert bureauId new =>
      cases write with
      | material row replaced =>
          rw [waitsFor, Bool.or_eq_true, Bool.and_eq_true, decide_eq_true_eq, decide_eq_true_eq]
            at hwaits
          rcases hwaits with hid | ⟨hpartner, -⟩
          · exact hnew row hwrite hid
          · exact habout.2 row hwrite hpartner
      | partner | job => cases hwaits
  | materialsRequeue bureauId partnerId materialId =>
      cases write with
      | material row replaced =>
          obtain ⟨old, hold, hp⟩ := List.any_eq_true.mp hwaits
          rw [Bool.and_eq_true, decide_eq_true_eq] at hp
          rw [Scope.write, ← hcoherent.material old row (hshows.material old hold) hwrite hp.2]
          exact material_of_isMaterial habout old hp.1
      | partner | job => cases hwaits
  | jobsInsert bureauId partnerId materialId kind key =>
      cases write with
      | job row replaced =>
          rw [waitsFor, Bool.or_eq_true, decide_eq_true_eq] at hwaits
          rcases hwaits with hid | hkey
          · exact hnew row hwrite hid
          · exact habout.2 row hwrite hkey
      | partner | material => cases hwaits
  | jobsRequeue bureauId partnerId materialId key =>
      cases write with
      | job row replaced =>
          obtain ⟨old, hold, hp⟩ := List.any_eq_true.mp hwaits
          rw [Bool.and_eq_true, decide_eq_true_eq] at hp
          rw [Scope.write, ← hcoherent.job old row (hshows.job old hold) hwrite hp.2]
          exact job_of_isExtractionOf habout old hp.1
      | partner | material => cases hwaits
  | jobsReclaim | workerMaterial | workerJob => exact habout.elim
  | _ => cases write <;> cases hwaits

/-- What it writes are rows of the scope. -/
theorem write_of_exec {st : Sql} (habout : st.About s known) {answer : st.Answer}
    {writes : List Write} (h : st.exec id now db = .ok (answer, writes)) :
    ∀ write ∈ writes, s.write write = true := by
  cases st with
  | partnersList | partnersGet | partnersExists | materialsList | materialsByDigest
  | materialsGet | jobsList | jobsByKey =>
      cases h
      simp
  | partnersInsert bureauId name note =>
      simp only [exec] at h
      split at h
      · cases h
      · split at h
        · cases h
        · split at h
          · cases h
          · cases h
            obtain ⟨rfl, hs⟩ := habout
            simp [Scope.write, Scope.partner, Scope.holds_of_none hs]
  | partnersUpdate bureauId partnerId name setNote note =>
      exact forall_write_of_updateRows h fun row hrow ↦ partner_of_isPartner habout row hrow
  | materialsInsert bureauId new =>
      rcases exec_materialsInsert h with ⟨-, rfl⟩ | ⟨-, rfl, -⟩
      · simp [Scope.write, Scope.material, newMaterialRow, habout.1]
      · simp
  | materialsRequeue bureauId partnerId materialId =>
      exact forall_write_of_updateRows h fun row hrow ↦ material_of_isMaterial habout row hrow
  | jobsInsert bureauId partnerId materialId kind key =>
      rcases exec_jobsInsert h with ⟨-, rfl, -⟩ | ⟨-, rfl, -⟩
      · simp [Scope.write, Scope.job, newJobRow, habout.1]
      · simp
  | jobsRequeue bureauId partnerId materialId key =>
      simp only [exec] at h
      split at h
      · cases h
      · exact forall_write_of_updateRows h fun row hrow ↦ job_of_isExtractionOf habout row hrow
  | jobsReclaim | workerMaterial | workerJob => exact habout.elim

end Alike

end Sql

/-! ## Writes on top -/

namespace Db

variable {s : Scope} {known known' : KnownRows} {db db' : Db} {writes : List Write}

/-- Versions of one row, written or committed, are in a scope together. -/
theorem scope_eq {Row : Type} {pick : Write → Option (Row × Option Row)} {rows : List Row}
    {isKnown : Row → Prop} {rowId : Row → Uuid} {q : Row → Bool}
    (hpick : ∀ write ∈ writes, ∀ v, pick write = some v → isKnown v.1)
    (hrows : ∀ r ∈ rows, isKnown r)
    (hcoherent : ∀ r r', isKnown r → isKnown r' → rowId r = rowId r' → q r = q r') (r r' : Row)
    (hr : r ∈ (writes.filterMap pick).map Prod.fst ∨ r ∈ rows)
    (hr' : r' ∈ (writes.filterMap pick).map Prod.fst ∨ r' ∈ rows) (hid : rowId r = rowId r') :
    q r = q r' := by
  have hknown : ∀ r, (r ∈ (writes.filterMap pick).map Prod.fst ∨ r ∈ rows) → isKnown r := by
    rintro r (hr | hr)
    · obtain ⟨v, hv, rfl⟩ := List.mem_map.mp hr
      obtain ⟨write, hwrite, heq⟩ := List.mem_filterMap.mp hv
      exact hpick write hwrite v heq
    · exact hrows r hr
  exact hcoherent r r' (hknown r hr) (hknown r' hr') hid

theorem scope_partner_eq (hcoherent : known.Coherent s) (hshows : db.Shows known)
    (hwrites : ∀ write ∈ writes, known.write write) (r r' : PartnerRow)
    (hr : r ∈ (writes.filterMap Write.partner?).map Prod.fst ∨ r ∈ db.partners)
    (hr' : r' ∈ (writes.filterMap Write.partner?).map Prod.fst ∨ r' ∈ db.partners)
    (hid : r.id = r'.id) : s.partner r = s.partner r' := by
  refine scope_eq (fun write hwrite v hv ↦ ?_) hshows.partner hcoherent.partner r r' hr hr' hid
  cases write <;> cases hv
  exact hwrites _ hwrite

theorem scope_material_eq (hcoherent : known.Coherent s) (hshows : db.Shows known)
    (hwrites : ∀ write ∈ writes, known.write write) (r r' : MaterialRow)
    (hr : r ∈ (writes.filterMap Write.material?).map Prod.fst ∨ r ∈ db.materials)
    (hr' : r' ∈ (writes.filterMap Write.material?).map Prod.fst ∨ r' ∈ db.materials)
    (hid : r.id = r'.id) : s.material r = s.material r' := by
  refine scope_eq (fun write hwrite v hv ↦ ?_) hshows.material hcoherent.material r r' hr hr' hid
  cases write <;> cases hv
  exact hwrites _ hwrite

theorem scope_job_eq (hcoherent : known.Coherent s) (hshows : db.Shows known)
    (hwrites : ∀ write ∈ writes, known.write write) (r r' : JobRow)
    (hr : r ∈ (writes.filterMap Write.job?).map Prod.fst ∨ r ∈ db.jobs)
    (hr' : r' ∈ (writes.filterMap Write.job?).map Prod.fst ∨ r' ∈ db.jobs)
    (hid : r.id = r'.id) : s.job r = s.job r' := by
  refine scope_eq (fun write hwrite v hv ↦ ?_) hshows.job hcoherent.job r r' hr hr' hid
  cases write <;> cases hv
  exact hwrites _ hwrite

/-- The same writes leave two databases in agreement. -/
theorem Agrees.overlay (h : db.Agrees s db') (hcoherent : known.Coherent s)
    (hcoherent' : known'.Coherent s) (hshows : db.Shows known) (hshows' : db'.Shows known')
    (hwrites : ∀ write ∈ writes, known.write write)
    (hwrites' : ∀ write ∈ writes, known'.write write) :
    (db.overlay writes).Agrees s (db'.overlay writes) where
  bureau := h.bureau
  partners := h.partners.overlay (scope_partner_eq hcoherent hshows hwrites)
    (scope_partner_eq hcoherent' hshows' hwrites')
  materials := h.materials.overlay (scope_material_eq hcoherent hshows hwrites)
    (scope_material_eq hcoherent' hshows' hwrites')
  jobs := h.jobs.overlay (scope_job_eq hcoherent hshows hwrites)
    (scope_job_eq hcoherent' hshows' hwrites')

end Db

end Otdel
