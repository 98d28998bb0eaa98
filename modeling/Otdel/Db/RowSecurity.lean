import Otdel.Db.Effects
import Otdel.Library.Selection

/-!
# Row-level security

The policies show a transaction the rows of its bureau only, and let it write no
others.  Every statement names the bureau itself, so that nothing is hidden from
it: with the policies it answers and writes the same.
-/

namespace Otdel

variable {current id : Uuid} {now : Timestamp} {db : Db}

/-- The rows with `bureau_id = otdel.current_bureau_id()`. -/
def Db.visibleTo (db : Db) (current : Uuid) : Db where
  bureaus := db.bureaus.filter fun bureauId ↦ bureauId = current
  partners := db.partners.filter fun row ↦ row.bureauId = current
  materials := db.materials.filter fun row ↦ row.bureauId = current
  jobs := db.jobs.filter fun row ↦ row.bureauId = current

def Write.bureauId : Write → Uuid
  | .partner row _ => row.bureauId
  | .material row _ => row.bureauId
  | .job row _ => row.bureauId

namespace Sql

/-- The bureau that a statement names. -/
def bureauId : Sql → Uuid
  | partnersList bureauId => bureauId
  | partnersInsert bureauId _ _ => bureauId
  | partnersGet bureauId _ => bureauId
  | partnersUpdate bureauId _ _ _ _ => bureauId
  | partnersExists bureauId _ => bureauId
  | materialsList bureauId _ => bureauId
  | materialsByDigest bureauId _ _ => bureauId
  | materialsGet bureauId _ _ => bureauId
  | materialsInsert bureauId _ => bureauId
  | materialsRequeue bureauId _ _ => bureauId
  | jobsList bureauId _ => bureauId
  | jobsInsert bureauId _ _ _ _ => bureauId
  | jobsByKey bureauId _ => bureauId
  | jobsRequeue bureauId _ _ _ => bureauId
  | jobsReclaim bureauId => bureauId
  | workerMaterial bureauId _ _ => bureauId
  | workerJob bureauId _ _ => bureauId

def inserts : Sql → Bool
  | partnersInsert _ _ _ => true
  | materialsInsert _ _ => true
  | jobsInsert _ _ _ _ _ => true
  | _ => false

def rowSecurityViolation : DbError := .database "42501" none

/-- `WITH CHECK (bureau_id = otdel.current_bureau_id())`. -/
def withCheck {α : Type} (current : Uuid) (r : α × List Write) :
    Except DbError (α × List Write) :=
  if r.2.all fun write ↦ write.bureauId = current then .ok r else .error rowSecurityViolation

/-- Run a statement under the policies.  A new row is checked before anything
else; its keys and references are looked up among all rows, as no policy applies
to constraints. -/
def execSecured (current id : Uuid) (now : Timestamp) (db : Db) (s : Sql) :
    Except DbError (s.Answer × List Write) :=
  if s.inserts then
    if s.bureauId = current then s.exec id now db else .error rowSecurityViolation
  else (s.exec id now (db.visibleTo current)).bind (withCheck current)

/-! ## Nothing is hidden -/

section Visible

variable {Row : Type} {bureauOf : Row → Uuid} {p : Row → Bool}

/-- A condition that names the bureau picks visible rows only. -/
theorem filter_visible (hp : ∀ row, p row = true → bureauOf row = current) (rows : List Row) :
    (rows.filter fun row ↦ bureauOf row = current).filter p = rows.filter p :=
  Table.filter_filter_of_imp (fun row hrow ↦ decide_eq_true (hp row hrow)) rows

theorem find?_visible (hp : ∀ row, p row = true → bureauOf row = current) (rows : List Row) :
    (rows.filter fun row ↦ bureauOf row = current).find? p = rows.find? p := by
  rw [← List.head?_filter, ← List.head?_filter, filter_visible hp]

theorem any_visible (hp : ∀ row, p row = true → bureauOf row = current) (rows : List Row) :
    (rows.filter fun row ↦ bureauOf row = current).any p = rows.any p := by
  rw [List.any_filter]
  apply List.any_congr rfl
  intro row
  cases hrow : p row with
  | true => simp [hp row hrow]
  | false => simp

theorem any_and_visible (hp : ∀ row, p row = true → bureauOf row = current) (q : Row → Bool)
    (rows : List Row) :
    (rows.filter fun row ↦ bureauOf row = current).any (fun row ↦ p row && q row) =
      rows.any fun row ↦ p row && q row := by
  apply any_visible
  intro row hrow
  rw [Bool.and_eq_true] at hrow
  exact hp row hrow.1

theorem updateRows_visible (hp : ∀ row, p row = true → bureauOf row = current)
    (write : Row → Option Row → Write) (check : Row → Bool) (rows : List Row) (f : Row → Row) :
    updateRows write check (rows.filter fun row ↦ bureauOf row = current) p f =
      updateRows write check rows p f := by
  simp only [updateRows, filter_visible hp]

end Visible

theorem bureau_of_isPartner {partnerId : Uuid} (row : PartnerRow)
    (h : isPartner current partnerId row = true) : row.bureauId = current := by
  simp only [isPartner, Bool.and_eq_true, decide_eq_true_eq] at h
  exact h.1

theorem bureau_of_isMaterialOf {partnerId : Uuid} (row : MaterialRow)
    (h : isMaterialOf current partnerId row = true) : row.bureauId = current := by
  simp only [isMaterialOf, Bool.and_eq_true, decide_eq_true_eq] at h
  exact h.1

theorem bureau_of_isMaterial {partnerId materialId : Uuid} (row : MaterialRow)
    (h : isMaterial current partnerId materialId row = true) : row.bureauId = current := by
  simp only [isMaterial, Bool.and_eq_true] at h
  exact bureau_of_isMaterialOf row h.1

theorem bureau_of_hasDigest {partnerId : Uuid} {sha256 : Text} (row : MaterialRow)
    (h : hasDigest current partnerId sha256 row = true) : row.bureauId = current := by
  simp only [hasDigest, Bool.and_eq_true] at h
  exact bureau_of_isMaterialOf row h.1

theorem bureau_of_isJobOf {partnerId : Uuid} (row : JobRow)
    (h : isJobOf current partnerId row = true) : row.bureauId = current := by
  simp only [isJobOf, Bool.and_eq_true, decide_eq_true_eq] at h
  exact h.1

theorem bureau_of_hasKey {key : Text} (row : JobRow) (h : hasKey current key row = true) :
    row.bureauId = current := by
  simp only [hasKey, Bool.and_eq_true, decide_eq_true_eq] at h
  exact h.1

theorem bureau_of_isExtractionOf {partnerId materialId : Uuid} {key : Text} (row : JobRow)
    (h : isExtractionOf current partnerId materialId key row = true) : row.bureauId = current := by
  simp only [isExtractionOf, Bool.and_eq_true] at h
  exact bureau_of_isJobOf row h.1.1

theorem bureau_of_isExpired (row : JobRow) (h : isExpired current now row = true) :
    row.bureauId = current := by
  simp only [isExpired, Bool.and_eq_true, decide_eq_true_eq] at h
  exact h.1.1

theorem bureau_of_and {bureauId : Uuid} {b : Bool} (h : (decide (bureauId = current) && b) = true) :
    bureauId = current := by
  rw [Bool.and_eq_true, decide_eq_true_eq] at h
  exact h.1

theorem exec_visibleTo {s : Sql} (h : s.bureauId = current) (hinserts : s.inserts = false) :
    s.exec id now (db.visibleTo current) = s.exec id now db := by
  cases s with
  | partnersInsert | materialsInsert | jobsInsert => cases hinserts
  | partnersList bureauId =>
      obtain rfl : bureauId = current := h
      simp only [exec, Db.visibleTo]
      rw [filter_visible fun row hrow ↦ by simpa using hrow]
  | partnersGet bureauId partnerId =>
      obtain rfl : bureauId = current := h
      simp only [exec, Db.visibleTo]
      rw [find?_visible bureau_of_isPartner]
  | partnersUpdate bureauId partnerId name setNote note =>
      obtain rfl : bureauId = current := h
      simp only [exec, Db.visibleTo]
      rw [updateRows_visible bureau_of_isPartner]
  | partnersExists bureauId partnerId =>
      obtain rfl : bureauId = current := h
      simp only [exec, Db.visibleTo]
      rw [any_visible bureau_of_isPartner]
  | materialsList bureauId partnerId =>
      obtain rfl : bureauId = current := h
      simp only [exec, Db.visibleTo]
      rw [filter_visible bureau_of_isMaterialOf]
  | materialsByDigest bureauId partnerId sha256 =>
      obtain rfl : bureauId = current := h
      simp only [exec, Db.visibleTo]
      rw [find?_visible bureau_of_hasDigest]
  | materialsGet bureauId partnerId materialId =>
      obtain rfl : bureauId = current := h
      simp only [exec, Db.visibleTo]
      rw [find?_visible bureau_of_isMaterial]
  | materialsRequeue bureauId partnerId materialId =>
      obtain rfl : bureauId = current := h
      simp only [exec, updateMaterials, Db.visibleTo]
      rw [updateRows_visible bureau_of_isMaterial]
  | jobsList bureauId partnerId =>
      obtain rfl : bureauId = current := h
      simp only [exec, Db.visibleTo]
      rw [filter_visible bureau_of_isJobOf]
  | jobsByKey bureauId key =>
      obtain rfl : bureauId = current := h
      simp only [exec, Db.visibleTo]
      rw [find?_visible bureau_of_hasKey]
  | jobsRequeue bureauId partnerId materialId key =>
      obtain rfl : bureauId = current := h
      have hupdate : updateJobs (db.visibleTo bureauId)
          (isExtractionOf bureauId partnerId materialId key) (requeuedJob now) =
            updateJobs db (isExtractionOf bureauId partnerId materialId key) (requeuedJob now) :=
        updateRows_visible bureau_of_isExtractionOf ..
      have hlarge : ((db.visibleTo bureauId).jobs.any fun row ↦
          isExtractionOf bureauId partnerId materialId key row && maxInteger < row.attempts + 1) =
            db.jobs.any fun row ↦
              isExtractionOf bureauId partnerId materialId key row &&
                maxInteger < row.attempts + 1 :=
        any_and_visible bureau_of_isExtractionOf ..
      simp only [exec, hupdate, hlarge]
  | jobsReclaim bureauId =>
      obtain rfl : bureauId = current := h
      simp only [exec, updateJobs, Db.visibleTo]
      rw [updateRows_visible bureau_of_isExpired]
  | workerMaterial bureauId materialId change =>
      obtain rfl : bureauId = current := h
      simp only [exec, updateMaterials, Db.visibleTo]
      rw [updateRows_visible fun row hrow ↦ bureau_of_and hrow]
  | workerJob bureauId jobId change =>
      obtain rfl : bureauId = current := h
      simp only [exec, updateJobs, Db.visibleTo]
      rw [updateRows_visible fun row hrow ↦ bureau_of_and hrow]

/-- Nor does a statement wait for a row that is hidden. -/
theorem waitsFor_visibleTo {s : Sql} (h : s.bureauId = current) (write : Write) :
    s.waitsFor id now (db.visibleTo current) write = s.waitsFor id now db write := by
  cases s with
  | partnersUpdate bureauId partnerId name setNote note =>
      obtain rfl : bureauId = current := h
      cases write with
      | partner row replaced =>
          simp only [waitsFor, Db.visibleTo]
          rw [any_and_visible bureau_of_isPartner]
      | material | job => rfl
  | materialsRequeue bureauId partnerId materialId =>
      obtain rfl : bureauId = current := h
      cases write with
      | material row replaced =>
          simp only [waitsFor, Db.visibleTo]
          rw [any_and_visible bureau_of_isMaterial]
      | partner | job => rfl
  | workerMaterial bureauId materialId change =>
      obtain rfl : bureauId = current := h
      cases write with
      | material row replaced =>
          simp only [waitsFor, Db.visibleTo]
          rw [any_and_visible fun old hold ↦ bureau_of_and hold]
      | partner | job => rfl
  | jobsRequeue bureauId partnerId materialId key =>
      obtain rfl : bureauId = current := h
      cases write with
      | job row replaced =>
          simp only [waitsFor, Db.visibleTo]
          rw [any_and_visible bureau_of_isExtractionOf]
      | partner | material => rfl
  | jobsReclaim bureauId =>
      obtain rfl : bureauId = current := h
      cases write with
      | job row replaced =>
          simp only [waitsFor, Db.visibleTo]
          rw [any_and_visible bureau_of_isExpired]
      | partner | material => rfl
  | workerJob bureauId jobId change =>
      obtain rfl : bureauId = current := h
      cases write with
      | job row replaced =>
          simp only [waitsFor, Db.visibleTo]
          rw [any_and_visible fun old hold ↦ bureau_of_and hold]
      | partner | material => rfl
  | _ => cases write <;> rfl

/-! ## Nothing else is written -/

theorem bureauId_of_exec {s : Sql} {answer : s.Answer} {writes : List Write}
    (h : s.exec id now db = .ok (answer, writes)) :
    ∀ write ∈ writes, write.bureauId = s.bureauId := by
  cases s with
  | partnersList | partnersGet | partnersExists | materialsList | materialsByDigest
  | materialsGet | jobsList | jobsByKey =>
      cases h
      simp
  | partnersInsert bureauId name note =>
      simp only [exec] at h
      split at h
      · cases h
      · split at h
        · cases h
        · split at h
          · cases h
          · cases h
            simp [Write.bureauId, Sql.bureauId]
  | partnersUpdate bureauId partnerId name setNote note =>
      exact forall_write_of_updateRows h fun row hrow ↦ bureau_of_isPartner row hrow
  | materialsInsert bureauId new =>
      rcases exec_materialsInsert h with ⟨-, rfl⟩ | ⟨-, rfl, -⟩
      · simp [Write.bureauId, Sql.bureauId, newMaterialRow]
      · simp
  | materialsRequeue bureauId partnerId materialId =>
      exact forall_write_of_updateRows h fun row hrow ↦ bureau_of_isMaterial row hrow
  | jobsInsert bureauId partnerId materialId kind key =>
      rcases exec_jobsInsert h with ⟨-, rfl, -⟩ | ⟨-, rfl, -⟩
      · simp [Write.bureauId, Sql.bureauId, newJobRow]
      · simp
  | jobsRequeue bureauId partnerId materialId key =>
      simp only [exec] at h
      split at h
      · cases h
      · exact forall_write_of_updateRows h fun row hrow ↦ bureau_of_isExtractionOf row hrow
  | jobsReclaim bureauId =>
      exact forall_write_of_updateRows h fun row hrow ↦ bureau_of_isExpired row hrow
  | workerMaterial bureauId materialId change =>
      exact forall_write_of_updateRows h fun row hrow ↦ bureau_of_and hrow
  | workerJob bureauId jobId change =>
      exact forall_write_of_updateRows h fun row hrow ↦ bureau_of_and hrow

/-- In a transaction of the bureau it names, a statement does the same with the
policies as without them. -/
theorem execSecured_eq {s : Sql} (h : s.bureauId = current) :
    s.execSecured current id now db = s.exec id now db := by
  unfold execSecured
  cases hinserts : s.inserts with
  | true => rw [if_pos rfl, if_pos h]
  | false =>
      rw [if_neg (by simp), exec_visibleTo h hinserts]
      cases hexec : s.exec id now db with
      | error e => rfl
      | ok r =>
          have hwrites : ∀ write ∈ r.2, write.bureauId = current := fun write hwrite ↦
            (bureauId_of_exec hexec write hwrite).trans h
          exact if_pos (List.all_eq_true.mpr fun write hwrite ↦
            decide_eq_true (hwrites write hwrite))

end Sql

end Otdel
