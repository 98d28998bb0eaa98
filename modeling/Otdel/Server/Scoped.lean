import Otdel.Db.Scope
import Otdel.Library.Simulation
import Otdel.Server.Originals

/-!
# One request in two worlds

Two worlds may have the same rows and objects of a scope, and differ in all
others.  An operation about the scope answers alike in both of them, leaves them
alike, and changes nothing outside the scope.
-/

namespace Otdel

open Versions

variable {ι : Type}

namespace World

/-- The rows that some request sees. -/
def known (w : World ι) : KnownRows := ⟨w.partners.Known, w.materials.Known, w.jobs.Known⟩

variable {w : World ι} {i : ι} {s : Scope}

theorem Consistent.coherent (hw : w.Consistent) : w.known.Coherent s where
  partner r r' hr hr' hid := Scope.partner_congr (hw.partners.core r r' hr hr' hid)
  material r r' hr hr' hid := Scope.material_congr (hw.materials.core r r' hr hr' hid)
  job r r' hr hr' hid := Scope.job_congr (hw.jobs.core r r' hr hr' hid)

theorem shows_view (w : World ι) (i : ι) : (w.view i).Shows w.known where
  partner _ hrow := (visible_partner hrow).known
  material _ hrow := (visible_material hrow).known
  job _ hrow := (visible_job hrow).known

theorem shows_db (w : World ι) (i : ι) : w.db.Shows w.known where
  partner _ hrow := ⟨i, Or.inl hrow⟩
  material _ hrow := ⟨i, Or.inl hrow⟩
  job _ hrow := ⟨i, Or.inl hrow⟩

theorem known_write {write : Write} (h : write ∈ w.pending i) : w.known.write write := by
  cases write with
  | partner row replaced => exact ⟨i, Or.inr ⟨(row, replaced), mem_partners_pending.mpr h, rfl⟩⟩
  | material row replaced => exact ⟨i, Or.inr ⟨(row, replaced), mem_materials_pending.mpr h, rfl⟩⟩
  | job row replaced => exact ⟨i, Or.inr ⟨(row, replaced), mem_jobs_pending.mpr h, rfl⟩⟩

theorem Consistent.keyed (hw : w.Consistent) (i : ι) : (w.view i).Keyed where
  partnerIds := Table.nodup_overlay hw.partners.nodup
  materialIds := Table.nodup_overlay hw.materials.nodup
  jobIds := Table.nodup_overlay hw.jobs.nodup
  digests r hr r' hr' hpartner hsha := by
    have hid := hw.materials.unique r r' (visible_material hr).known (visible_material hr').known
      (Prod.ext hpartner hsha)
    exact List.inj_on_of_nodup_map (Table.nodup_overlay hw.materials.nodup) hr hr' hid
  jobKeys r hr r' hr' hbureau hkey := by
    have hid := hw.jobs.unique r r' (visible_job hr).known (visible_job hr').known
      (Prod.ext hbureau hkey)
    exact List.inj_on_of_nodup_map (Table.nodup_overlay hw.jobs.nodup) hr hr' hid

end World

/-- The objects of a scope lie under its namespaces. -/
def Store.Within (store : Store) (s : Scope) (path : Path) : Prop :=
  ∃ (ns : ObjectNamespace) (digest : Text), s.holds ns.bureauId ns.partnerId = true ∧
    IsDigest digest ∧ path = store.place ns digest

/-- Two worlds have the same rows and objects of a scope, also the uncommitted
rows of the requests that are not `mine`. -/
structure World.Agrees (store : Store) (s : Scope) (mine : ι → Prop) (w v : World ι) : Prop where
  db : w.db.Agrees s v.db
  uncommitted : ∀ write, s.write write = true →
    ((∃ j, ¬ mine j ∧ write ∈ w.pending j) ↔ ∃ j, ¬ mine j ∧ write ∈ v.pending j)
  objects : ∀ path, store.Within s path → w.objects path = v.objects path

/-- Nor do they differ in what my requests have at hand: their transactions and
their staging files. -/
structure World.Mirrors (store : Store) (s : Scope) (mine : ι → Prop) (w v : World ι) :
    Prop where
  agrees : w.Agrees store s mine v
  tx : ∀ j, mine j → w.tx j = v.tx j
  drawnBy : ∀ j, mine j → ∀ name, w.drawnBy name = some j ↔ v.drawnBy name = some j
  staging : ∀ j, mine j → ∀ name, w.drawnBy name = some j → w.staging name = v.staging name
  guard : ∀ j, mine j → ∀ name, w.drawnBy name = some j →
    (w.guard j = some name ↔ v.guard j = some name)

/-- An operation about the rows and objects of a scope, or about the request's
own staging files. -/
def Op.About (store : Store) (s : Scope) (i : ι) (w : World ι) : Op → Prop
  | .sql st => st.About s w.known
  | .createStaging name => w.drawnBy name = some i
  | .write name _ => w.drawnBy name = some i
  | .rename name path => w.drawnBy name = some i ∧ store.Within s path
  | .dropGuard => ∃ name, w.guard i = some name ∧ w.drawnBy name = some i
  | .stat path => store.Within s path
  | .openFile path => store.Within s path
  | .readStaging _ => False
  | .removeStaging _ => False
  | .listObjects _ => False
  | _ => True

/-- A generated identifier is not one that is in use elsewhere. -/
def Op.NewId (s : Scope) (op : Op) (choice : Choice) (w : World ι) : Prop :=
  match op, choice with
  | .sql st, .granted id _ => st.NewId s w.known id
  | .armStaging, .granted id _ => w.drawnBy id = none ∧ w.staging id = none
  | _, _ => True

namespace World

variable {store : Store} {s : Scope} {mine : ι → Prop} {i : ι} {w v : World ι}

theorem Mirrors.pending (h : Mirrors store s mine w v) (hi : mine i) :
    w.pending i = v.pending i := by
  rw [World.pending, World.pending, h.tx i hi]

variable [DecidableEq ι]

theorem pending_setTx_ne (w : World ι) (tx : Option Tx) {j : ι} (hj : j ≠ i) :
    (w.setTx i tx).pending j = w.pending j :=
  pending_congr (Function.update_of_ne hj ..)

theorem uncommitted_setTx (hi : mine i) (w : World ι) (tx : Option Tx) (write : Write) :
    (∃ j, ¬ mine j ∧ write ∈ (w.setTx i tx).pending j) ↔ ∃ j, ¬ mine j ∧ write ∈ w.pending j := by
  have hne : ∀ j, ¬ mine j → j ≠ i := fun j hj heq ↦ hj (heq ▸ hi)
  constructor
  · rintro ⟨j, hj, hwrite⟩
    exact ⟨j, hj, pending_setTx_ne w tx (hne j hj) ▸ hwrite⟩
  · rintro ⟨j, hj, hwrite⟩
    exact ⟨j, hj, (pending_setTx_ne w tx (hne j hj)).symm ▸ hwrite⟩

theorem Mirrors.setTx (h : Mirrors store s mine w v) (hi : mine i) (tx : Option Tx) :
    Mirrors store s mine (w.setTx i tx) (v.setTx i tx) where
  agrees := by
    refine ⟨h.agrees.db, fun write hwrite ↦ ?_, h.agrees.objects⟩
    rw [uncommitted_setTx hi, uncommitted_setTx hi]
    exact h.agrees.uncommitted write hwrite
  tx j hj := by
    by_cases heq : j = i
    · simp [World.setTx, heq]
    · simp [World.setTx, heq, h.tx j hj]
  drawnBy := h.drawnBy
  staging := h.staging
  guard := h.guard

theorem Mirrors.markFaulted (h : Mirrors store s mine w v) :
    Mirrors store s mine (w.markFaulted i) (v.markFaulted i) :=
  ⟨⟨h.agrees.db, h.agrees.uncommitted, h.agrees.objects⟩, h.tx, h.drawnBy, h.staging, h.guard⟩

omit [DecidableEq ι] in
theorem Mirrors.setStaging (h : Mirrors store s mine w v) (name : Uuid)
    (content : Option Bytes) :
    Mirrors store s mine (w.setStaging name content) (v.setStaging name content) where
  agrees := ⟨h.agrees.db, h.agrees.uncommitted, h.agrees.objects⟩
  tx := h.tx
  drawnBy := h.drawnBy
  staging j hj other hother := by
    by_cases heq : other = name
    · simp [World.setStaging, heq]
    · simp [World.setStaging, heq, h.staging j hj other hother]
  guard := h.guard

omit [DecidableEq ι] in
theorem Mirrors.setObject (h : Mirrors store s mine w v) (path : Path) (content : Bytes) :
    Mirrors store s mine (w.setObject path content) (v.setObject path content) where
  agrees := by
    refine ⟨h.agrees.db, h.agrees.uncommitted, fun other hother ↦ ?_⟩
    by_cases heq : other = path
    · simp [World.setObject, heq]
    · simp [World.setObject, heq, h.agrees.objects other hother]
  tx := h.tx
  drawnBy := h.drawnBy
  staging := h.staging
  guard := h.guard

theorem Mirrors.setGuard (h : Mirrors store s mine w v) (name : Option Uuid) :
    Mirrors store s mine { w with guard := Function.update w.guard i name }
      { v with guard := Function.update v.guard i name } where
  agrees := ⟨h.agrees.db, h.agrees.uncommitted, h.agrees.objects⟩
  tx := h.tx
  drawnBy := h.drawnBy
  staging := h.staging
  guard j hj other hother := by
    by_cases heq : j = i
    · simp [heq]
    · simp [heq, h.guard j hj other hother]

/-- A commit publishes the same versions. -/
theorem Mirrors.publish (h : Mirrors store s mine w v) (hi : mine i) (hw : w.Consistent)
    (hv : v.Consistent) {tx : Tx} (hopen : w.tx i = some tx) :
    Mirrors store s mine (w.publish i tx.writes) (v.publish i tx.writes) := by
  have hwrites : ∀ write ∈ tx.writes, w.known.write write := fun write hwrite ↦
    known_write ((pending_eq_of_tx hopen).symm ▸ hwrite)
  have hwrites' : ∀ write ∈ tx.writes, v.known.write write := fun write hwrite ↦
    known_write ((pending_eq_of_tx (h.tx i hi ▸ hopen)).symm ▸ hwrite)
  have hdb := h.agrees.db.overlay hw.coherent hv.coherent (w.shows_db i) (v.shows_db i) hwrites
    hwrites'
  obtain ⟨⟨-, huncommitted, hobjects⟩, htx, hdrawn, hstaging, hguard⟩ := h.setTx hi none
  exact ⟨⟨hdb, huncommitted, hobjects⟩, htx, hdrawn, hstaging, hguard⟩

omit [DecidableEq ι] in
/-- The rows that the request sees agree. -/
theorem Mirrors.view (h : Mirrors store s mine w v) (hi : mine i) (hw : w.Consistent)
    (hv : v.Consistent) : (w.view i).Agrees s (v.view i) := by
  rw [World.view, World.view, ← h.pending hi]
  exact h.agrees.db.overlay hw.coherent hv.coherent (w.shows_db i) (v.shows_db i)
    (fun write hwrite ↦ known_write hwrite)
    fun write hwrite ↦ known_write (h.pending hi ▸ hwrite)

omit [DecidableEq ι] in
/-- A version of the scope that another request holds. -/
theorem Mirrors.pending_of_others (h : Mirrors store s mine w v) {j : ι} (hj : j ≠ i)
    (hi : mine i) {write : Write} (hin : s.write write = true) (hwrite : write ∈ w.pending j) :
    ∃ k, k ≠ i ∧ write ∈ v.pending k := by
  by_cases hmine : mine j
  · exact ⟨j, hj, h.pending hmine ▸ hwrite⟩
  · obtain ⟨k, hk, hwrite'⟩ := (h.agrees.uncommitted write hin).mp ⟨j, hmine, hwrite⟩
    exact ⟨k, fun heq ↦ hk (heq ▸ hi), hwrite'⟩

omit [DecidableEq ι] in
theorem Mirrors.symm (h : Mirrors store s mine w v) : Mirrors store s mine v w where
  agrees := ⟨h.agrees.db.symm, fun write hwrite ↦ (h.agrees.uncommitted write hwrite).symm,
    fun path hpath ↦ (h.agrees.objects path hpath).symm⟩
  tx j hj := (h.tx j hj).symm
  drawnBy j hj name := (h.drawnBy j hj name).symm
  staging j hj name hname := (h.staging j hj name ((h.drawnBy j hj name).mpr hname)).symm
  guard j hj name hname := (h.guard j hj name ((h.drawnBy j hj name).mpr hname)).symm

omit [DecidableEq ι] in
/-- A statement that waits in one world waits in the other. -/
theorem Mirrors.blocked (h : Mirrors store s mine w v) (hi : mine i) (hw : w.Consistent)
    (hv : v.Consistent) {st : Sql} {id : Uuid} {now : Timestamp} (habout : st.About s w.known)
    (hnew : st.NewId s w.known id) (hwait : w.Blocked i (st.waitsFor id now (w.view i))) :
    v.Blocked i (st.waitsFor id now (v.view i)) := by
  obtain ⟨j, hj, hany⟩ := hwait
  obtain ⟨write, hwrite, hwaits⟩ := List.any_eq_true.mp hany
  have hin := Sql.write_of_waitsFor hw.coherent (w.shows_view i) habout hnew
    (known_write hwrite) hwaits
  obtain ⟨k, hk, hwrite'⟩ := h.pending_of_others hj hi hin hwrite
  refine ⟨k, hk, List.any_eq_true.mpr ⟨write, hwrite', ?_⟩⟩
  rw [← Sql.waitsFor_agrees (h.view hi hw hv) habout]
  exact hwaits

variable [Fintype ι]

open Machine in
theorem Mirrors.runSql (h : Mirrors store s mine w v) (hi : mine i) (hw : w.Consistent)
    (hv : v.Consistent) {st : Sql} {id : Uuid} (habout : st.About s w.known)
    (habout' : st.About s v.known) (hnew : st.NewId s w.known id)
    (hnew' : st.NewId s v.known id) :
    Option.Rel (Alike (Mirrors store s mine)) (w.runSql i st id) (v.runSql i st id) := by
  have htx := h.tx i hi
  unfold World.runSql
  cases hopen : w.tx i with
  | none =>
      rw [hopen] at htx
      rw [← htx]
      exact .some ⟨rfl, h⟩
  | some tx =>
      rw [hopen] at htx
      rw [← htx]
      dsimp only
      have hexec : st.exec id tx.now (w.view i) = st.exec id tx.now (v.view i) :=
        Sql.exec_agrees (h.view hi hw hv) (hw.keyed i) (w.shows_view i) (v.shows_view i) habout
          habout' hnew hnew'
      by_cases hwait : w.Blocked i (st.waitsFor id tx.now (w.view i))
      · rw [if_pos hwait, if_pos (h.blocked hi hw hv habout hnew hwait)]
        exact .none
      · rw [if_neg hwait,
          if_neg fun hwait' ↦ hwait (h.symm.blocked hi hv hw habout' hnew' hwait'), ← hexec]
        cases st.exec id tx.now (w.view i) with
        | error e => exact .some ⟨rfl, h.setTx hi none⟩
        | ok r => exact .some ⟨rfl, h.setTx hi _⟩

omit [Fintype ι] in
/-- A staging name that is new in both worlds. -/
theorem Mirrors.arm (h : Mirrors store s mine w v) {id : Uuid} (hw : w.staging id = none)
    (hv : v.staging id = none) :
    Mirrors store s mine
      { w with
        drawnBy := Function.update w.drawnBy id (some i)
        guard := Function.update w.guard i (some id) }
      { v with
        drawnBy := Function.update v.drawnBy id (some i)
        guard := Function.update v.guard i (some id) } where
  agrees := ⟨h.agrees.db, h.agrees.uncommitted, h.agrees.objects⟩
  tx := h.tx
  drawnBy j hj name := by
    by_cases hname : name = id
    · simp [hname]
    · simp [hname, h.drawnBy j hj name]
  staging j hj name hdrawn := by
    by_cases hname : name = id
    · exact hname ▸ hw.trans hv.symm
    · exact h.staging j hj name (by simpa [hname] using hdrawn)
  guard j hj name hdrawn := by
    by_cases heq : j = i
    · simp [heq]
    · have hname : name ≠ id := by
        rintro rfl
        simp [Ne.symm heq] at hdrawn
      simp [heq, h.guard j hj name (by simpa [hname] using hdrawn)]

open Machine in
theorem Mirrors.grant (h : Mirrors store s mine w v) (hi : mine i) (hw : w.Consistent)
    (hv : v.Consistent) {op : Op} {id : Uuid} {now : Timestamp} (habout : op.About store s i w)
    (habout' : op.About store s i v) (hnew : op.NewId s (.granted id now) w)
    (hnew' : op.NewId s (.granted id now) v) :
    Option.Rel (Alike (Mirrors store s mine)) (w.grant i id now op) (v.grant i id now op) := by
  cases op with
  | begin bureauId => exact .some ⟨rfl, h.setTx hi _⟩
  | sql st => exact h.runSql hi hw hv habout habout' hnew hnew'
  | commit =>
      have htx := h.tx i hi
      cases hopen : w.tx i with
      | none =>
          rw [hopen] at htx
          simp only [World.grant, hopen, ← htx]
          exact .some ⟨rfl, h⟩
      | some tx =>
          rw [hopen] at htx
          simp only [World.grant, hopen, ← htx]
          exact .some ⟨rfl, h.publish hi hw hv hopen⟩
  | rollback => exact .some ⟨rfl, h.setTx hi none⟩
  | armStaging =>
      simp only [World.grant, if_pos hnew.1, if_pos hnew'.1]
      exact .some ⟨rfl, h.arm hnew.2 hnew'.2⟩
  | createStaging name =>
      have hstaging := h.staging i hi name habout
      cases hcontent : w.staging name with
      | none =>
          rw [hcontent] at hstaging
          simp only [World.grant, hcontent, ← hstaging, Option.isSome_none]
          exact .some ⟨rfl, h.setStaging name _⟩
      | some content =>
          rw [hcontent] at hstaging
          simp only [World.grant, hcontent, ← hstaging, Option.isSome_some]
          exact .some ⟨rfl, h⟩
  | write name chunk =>
      rw [World.grant, World.grant, ← h.staging i hi name habout]
      exact .some ⟨rfl, h.setStaging name _⟩
  | stat path | openFile path =>
      have hobject := h.agrees.objects path habout
      cases hcontent : w.objects path with
      | none =>
          rw [hcontent] at hobject
          simp only [World.grant, hcontent, ← hobject]
          exact .some ⟨rfl, h⟩
      | some content =>
          rw [hcontent] at hobject
          simp only [World.grant, hcontent, ← hobject]
          exact .some ⟨rfl, h⟩
  | rename name path =>
      have hstaging := h.staging i hi name habout.1
      cases hcontent : w.staging name with
      | none =>
          rw [hcontent] at hstaging
          simp only [World.grant, hcontent, ← hstaging]
          exact .some ⟨rfl, h⟩
      | some content =>
          rw [hcontent] at hstaging
          simp only [World.grant, hcontent, ← hstaging]
          exact .some ⟨rfl, (h.setStaging name none).setObject path content⟩
  | dropGuard =>
      obtain ⟨name, hguard, hdrawn⟩ := habout
      have hguard' := (h.guard i hi name hdrawn).mp hguard
      simp only [World.grant, World.releaseGuard, hguard, hguard']
      exact .some ⟨rfl, (h.setStaging name none).setGuard none⟩
  | disarmGuard => exact .some ⟨rfl, h.setGuard none⟩
  | flush | syncAll | createDirAll | setPermissions | syncDir => exact .some ⟨rfl, h⟩
  | report line =>
      exact .some ⟨rfl, ⟨⟨h.agrees.db, h.agrees.uncommitted, h.agrees.objects⟩, h.tx, h.drawnBy,
        h.staging, h.guard⟩⟩
  | readStaging | removeStaging | listObjects => exact habout.elim

open Machine in
omit [Fintype ι] in
theorem Mirrors.refuse (h : Mirrors store s mine w v) (hi : mine i) (outage : Outage) (op : Op) :
    Option.Rel (Alike (Mirrors store s mine)) (w.refuse i outage op) (v.refuse i outage op) := by
  cases op with
  | sql | commit => exact .some ⟨rfl, (h.setTx hi none).markFaulted⟩
  | rollback | armStaging | syncDir | dropGuard | disarmGuard | report => exact .none
  | _ => exact .some ⟨rfl, h.markFaulted⟩

open Machine in
/-- The step lemma: an operation about the scope answers alike in both worlds. -/
theorem Mirrors.perform (h : Mirrors store s mine w v) (hi : mine i) (hw : w.Consistent)
    (hv : v.Consistent) {op : Op} {choice : Choice} (habout : op.About store s i w)
    (habout' : op.About store s i v) (hnew : op.NewId s choice w) (hnew' : op.NewId s choice v) :
    Option.Rel (Alike (Mirrors store s mine)) (w.perform i op choice)
      (v.perform i op choice) := by
  cases choice with
  | granted id now => exact h.grant hi hw hv habout habout' hnew hnew'
  | failed outage => exact h.refuse hi outage op
  | lost =>
      cases op with
      | commit =>
          have htx := h.tx i hi
          cases hopen : w.tx i with
          | none =>
              rw [hopen] at htx
              simp only [World.perform, hopen, ← htx, Option.bind_none]
              exact .none
          | some tx =>
              rw [hopen] at htx
              simp only [World.perform, hopen, ← htx, Option.bind_some]
              refine .some ⟨rfl, ?_⟩
              obtain ⟨⟨hdb, huncommitted, hobjects⟩, htx', hdrawn, hstaging, hguard⟩ :=
                h.publish hi hw hv hopen
              exact ⟨⟨hdb, huncommitted, hobjects⟩, htx', hdrawn, hstaging, hguard⟩
      | _ => exact .none
  | listed staging objects truncated =>
      cases op with
      | readStaging | listObjects => exact habout.elim
      | _ => exact .none

end World

/-! ## What lies outside the scope -/

/-- The rows and the objects outside a scope are the same. -/
structure World.Elsewhere (store : Store) (s : Scope) (i : ι) (w w' : World ι) : Prop where
  bureaus : w'.db.bureaus = w.db.bureaus
  partners : w'.db.partners.filter (fun row ↦ !s.partner row) =
    w.db.partners.filter fun row ↦ !s.partner row
  materials : w'.db.materials.filter (fun row ↦ !s.material row) =
    w.db.materials.filter fun row ↦ !s.material row
  jobs : w'.db.jobs.filter (fun row ↦ !s.job row) = w.db.jobs.filter fun row ↦ !s.job row
  uncommitted : ∀ j, j ≠ i → w'.pending j = w.pending j
  objects : ∀ path, ¬ store.Within s path → w'.objects path = w.objects path

/-- A request has written rows of the scope only. -/
def World.WritesWithin (s : Scope) (i : ι) (w : World ι) : Prop :=
  ∀ write ∈ w.pending i, s.write write = true

namespace World

variable {store : Store} {s : Scope} {i : ι} {w w' w'' : World ι}

theorem Elsewhere.refl (w : World ι) : Elsewhere store s i w w :=
  ⟨rfl, rfl, rfl, rfl, fun _ _ ↦ rfl, fun _ _ ↦ rfl⟩

theorem Elsewhere.trans (h : Elsewhere store s i w w') (h' : Elsewhere store s i w' w'') :
    Elsewhere store s i w w'' where
  bureaus := h'.bureaus.trans h.bureaus
  partners := h'.partners.trans h.partners
  materials := h'.materials.trans h.materials
  jobs := h'.jobs.trans h.jobs
  uncommitted j hj := (h'.uncommitted j hj).trans (h.uncommitted j hj)
  objects path hpath := (h'.objects path hpath).trans (h.objects path hpath)

variable [DecidableEq ι] [Fintype ι]

/-- Only a rename writes an object. -/
theorem objects_eq_of_not_rename {op : Op} {choice : Choice} {a : op.Ans}
    (hrename : ∀ name path, op ≠ .rename name path)
    (h : w.perform i op choice = some (a, w')) : w'.objects = w.objects := by
  cases op with
  | rename name path => exact absurd rfl (hrename name path)
  | armStaging =>
      cases choice with
      | granted id now =>
          simp only [perform, grant] at h
          split at h <;> cases h
          rfl
      | failed | lost | listed => cases h
  | createStaging name =>
      cases choice with
      | granted id now =>
          simp only [perform, grant] at h
          split at h <;> cases h <;> rfl
      | failed outage =>
          cases h
          rfl
      | lost | listed => cases h
  | write name chunk =>
      cases choice with
      | granted | failed =>
          cases h
          rfl
      | lost | listed => cases h
  | _ => exact (filesKept_perform rfl h).objects

theorem writesWithin_perform (hw : w.WritesWithin s i) {op : Op} {choice : Choice} {a : op.Ans}
    (habout : op.About store s i w) (h : w.perform i op choice = some (a, w')) :
    w'.WritesWithin s i := by
  cases perform_dbStep h with
  | same hdb hlog htx =>
      intro write hwrite
      exact hw write (by rwa [pending_congr (congrFun htx i)] at hwrite)
  | ended hdb hlog htx =>
      intro write hwrite
      rw [congrFun (DbStep.pending_none htx) i] at hwrite
      simp at hwrite
  | began bureauId now hop hdb hlog htx =>
      intro write hwrite
      rw [congrFun (DbStep.pending_some htx) i] at hwrite
      simp at hwrite
  | wrote tx st id answer writes hop hopen hfree hexec hdb hlog htx =>
      intro write hwrite
      rw [congrFun (DbStep.pending_some htx) i, Function.update_self, List.mem_append] at hwrite
      rcases hwrite with hold | hnew
      · exact hw write ((pending_eq_of_tx hopen).symm ▸ hold)
      · rw [Option.some.injEq] at hop
        subst hop
        exact Sql.write_of_exec habout hexec write hnew
  | committed tx hop hopen hdb hlog htx =>
      intro write hwrite
      rw [congrFun (DbStep.pending_none htx) i] at hwrite
      simp at hwrite

omit [DecidableEq ι] [Fintype ι] in
/-- Writes within a scope leave the rows outside as they are. -/
theorem overlay_elsewhere (hw : w.Consistent) (hwrites : w.WritesWithin s i) :
    ((w.view i).partners.filter (fun row ↦ !s.partner row) =
        w.db.partners.filter fun row ↦ !s.partner row) ∧
      ((w.view i).materials.filter (fun row ↦ !s.material row) =
        w.db.materials.filter fun row ↦ !s.material row) ∧
        ((w.view i).jobs.filter (fun row ↦ !s.job row) =
          w.db.jobs.filter fun row ↦ !s.job row) := by
  have hknown : ∀ write ∈ w.pending i, w.known.write write := fun write hwrite ↦ known_write hwrite
  refine ⟨?_, ?_, ?_⟩
  · apply Table.filter_overlay_of_outside
    · exact fun r r' hr hr' hid ↦ congrArg _
        (Db.scope_partner_eq hw.coherent (w.shows_db i) hknown r r' hr hr' hid)
    · intro row hrow
      obtain ⟨⟨row', old⟩, hv, rfl⟩ := List.mem_map.mp hrow
      simpa [Scope.write] using hwrites _ (mem_partners_pending.mp hv)
  · apply Table.filter_overlay_of_outside
    · exact fun r r' hr hr' hid ↦ congrArg _
        (Db.scope_material_eq hw.coherent (w.shows_db i) hknown r r' hr hr' hid)
    · intro row hrow
      obtain ⟨⟨row', old⟩, hv, rfl⟩ := List.mem_map.mp hrow
      simpa [Scope.write] using hwrites _ (mem_materials_pending.mp hv)
  · apply Table.filter_overlay_of_outside
    · exact fun r r' hr hr' hid ↦ congrArg _
        (Db.scope_job_eq hw.coherent (w.shows_db i) hknown r r' hr hr' hid)
    · intro row hrow
      obtain ⟨⟨row', old⟩, hv, rfl⟩ := List.mem_map.mp hrow
      simpa [Scope.write] using hwrites _ (mem_jobs_pending.mp hv)

/-- An operation about the scope changes nothing outside. -/
theorem elsewhere_perform (hw : w.Consistent) (hwrites : w.WritesWithin s i) {op : Op}
    {choice : Choice} {a : op.Ans} (habout : op.About store s i w)
    (h : w.perform i op choice = some (a, w')) : Elsewhere store s i w w' := by
  have hothers : ∀ j, j ≠ i → w'.pending j = w.pending j := fun j hj ↦
    pending_congr (frame_perform hj h).tx
  have hobjects : ∀ path, ¬ store.Within s path → w'.objects path = w.objects path := by
    intro path hpath
    by_cases hrename : ∃ name target, op = .rename name target
    · obtain ⟨name, target, rfl⟩ := hrename
      have hne : path ≠ target := by
        rintro rfl
        exact hpath habout.2
      cases choice with
      | granted id now =>
          simp only [perform, grant] at h
          split at h <;> cases h
          · simp [setObject, setStaging, hne]
          · rfl
      | failed outage =>
          cases h
          rfl
      | lost | listed => cases h
    · push Not at hrename
      rw [objects_eq_of_not_rename hrename h]
  have hsame : w'.db = w.db → Elsewhere store s i w w' := by
    intro hdb
    refine ⟨by rw [hdb], by rw [hdb], by rw [hdb], by rw [hdb], hothers, hobjects⟩
  cases perform_dbStep h with
  | same hdb => exact hsame hdb
  | ended hdb => exact hsame hdb
  | began _ _ _ hdb => exact hsame hdb
  | wrote _ _ _ _ _ _ _ _ _ hdb => exact hsame hdb
  | committed tx hop hopen hdb hlog htx =>
      have hview : w'.db = w.view i := by rw [hdb, World.view, pending_eq_of_tx hopen]
      obtain ⟨hpartners, hmaterials, hjobs⟩ := overlay_elsewhere hw hwrites
      rw [← hview] at hpartners hmaterials hjobs
      exact ⟨by rw [hdb]; rfl, hpartners, hmaterials, hjobs, hothers, hobjects⟩

end World

end Otdel
