import Otdel.Library.Following
import Otdel.Server.Deposits
import Otdel.Server.TxSafety
import Otdel.Storage.Listing

/-!
# The orphan report

A pass lists the objects first and asks for the rows later, object by object,
while uploads place objects and insert rows.
-/

namespace Otdel

open Program

variable {ι : Type} {store : Store}

/-! ## The listing of a tree that changes -/

/-- The object is there. -/
def World.Holds (store : Store) (w : World ι) (key : ObjectKey store.uuid) : Prop :=
  (w.objects (store.objectsRoot ++ key.raw.splitOn '/')).isSome = true

/-- The tree as a walk from `w` to `w'` reads it, every directory at its own
moment: a file that is read is there in the end, and a file that was there from
the beginning is read. -/
structure ObjectsTree.SeenBetween (tree : ObjectsTree) (store : Store) (w w' : World ι) : Prop where
  read : ∀ segments ∈ tree.entries.files [],
    (w'.objects (store.objectsRoot ++ segments)).isSome = true
  missed : ∀ segments, segments.length = 4 →
    (w.objects (store.objectsRoot ++ segments)).isSome = true →
      segments ∈ tree.entries.files []

/-- The answer of `list_objects`, for a walk from `w` to `w'`. -/
def ListedBetween (store : Store) (limit : ℕ) (w w' : World ι) (names : List Text)
    (truncated : Bool) : Prop :=
  ∃ tree : ObjectsTree, tree.SeenBetween store w w' ∧
    names = (listObjects store.uuid limit tree.entries).1.map ObjectKey.raw ∧
      truncated = (listObjects store.uuid limit tree.entries).2

theorem filterMap_parse_raw {uuid : UuidCrate} (keys : List (ObjectKey uuid)) :
    (keys.map ObjectKey.raw).filterMap (fun raw ↦ (ObjectKey.parse uuid raw).toOption) = keys := by
  induction keys with
  | nil => rfl
  | cons key keys ih =>
      rw [List.map_cons, List.filterMap_cons, ObjectKey.parse_raw]
      exact congrArg (key :: ·) ih

theorem length_splitOn_raw {uuid : UuidCrate} (key : ObjectKey uuid) :
    (key.raw.splitOn '/').length = 4 := by
  obtain ⟨bureau, partner, digest, u, v, hu, hv, hdigest, hraw⟩ :=
    ObjectKey.check_eq_ok_iff.mp key.checked
  rw [hraw, ObjectKey.splitOn_path hu.slash_notMem hv.slash_notMem hdigest.slash_notMem]
  rfl

/-- The listed keys are distinct objects of the end. -/
theorem ObjectsTree.SeenBetween.holds {tree : ObjectsTree} {w w' : World ι}
    (h : tree.SeenBetween store w w') {key : ObjectKey store.uuid}
    (hkey : key ∈ tree.objects store.uuid) : w'.Holds store key := by
  obtain ⟨segments, hsegments, hkeyOf⟩ := List.mem_filterMap.mp hkey
  have hroot : SlashFree [] := by simp [SlashFree]
  obtain ⟨hfree, name, -, more, hsplit⟩ := Entries.files_spec tree.wellNamed hroot hsegments
  have hne : segments ≠ [] := by
    rw [hsplit]
    simp
  rw [World.Holds, (splitOn_keyOf hfree hne hkeyOf).1]
  exact h.read segments hsegments

theorem ObjectsTree.SeenBetween.mem {tree : ObjectsTree} {w w' : World ι}
    (h : tree.SeenBetween store w w') {key : ObjectKey store.uuid} (hkey : w.Holds store key) :
    key ∈ tree.objects store.uuid := by
  refine List.mem_filterMap.mpr ⟨key.raw.splitOn '/', ?_, ?_⟩
  · exact h.missed _ (length_splitOn_raw key) hkey
  · rw [keyOf_eq_some]
    exact (List.intercalate_splitOn '/').symm

/-! ## What a pass sees -/

/-- What is left of `run_once` when `report_orphans` begins. -/
def reportPass (store : Store) (leases removed : ℕ) (bureauId : Uuid) (limit : ℕ) : Prog Answer :=
  Program.bind (do
    let (orphans, scanned, truncated) ← Maintenance.reportOrphans store bureauId limit
    return ⟨leases, removed, orphans, scanned, truncated⟩ :
      TryProg MaintenanceError MaintenanceReport) fun r ↦ .done (.maintenance r)

/-- The keys that a pass has warned of, the last one first. -/
def World.warned [DecidableEq ι] (w : World ι) (i : ι) : List Text :=
  w.reports.filterMap fun
    | (j, .missingRow key) => if j = i then some key else none
    | _ => none

/-- The object that a key names. -/
def ObjectKey.Names {uuid : UuidCrate} (key : ObjectKey uuid) (object : ObjectName) : Prop :=
  key.namespaceOf = .ok object.1 ∧ key.digest = object.2

section Pass

variable [DecidableEq ι] (store) (brought : Set ObjectName) (i : ι)

/-- What happens while a pass waits. -/
structure World.Beside (w w' : World ι) : Prop where
  meanwhile : w.Meanwhile store brought w'
  tx : w'.tx i = w.tx i
  warned : w'.warned i = w.warned i

/-- There is a moment with this property. -/
def Sometime (w w' : World ι) (P : World ι → Prop) : Prop :=
  ∃ w₁, w.Meanwhile store brought w₁ ∧ w₁.Meanwhile store brought w' ∧ P w₁

variable {store brought i} {w w₁ w₂ w' : World ι} {P : World ι → Prop}

theorem World.Beside.refl (w : World ι) : World.Beside store brought i w w := ⟨.refl w, rfl, rfl⟩

theorem World.Beside.trans (w₁ w₂ w₃ : World ι) (h : World.Beside store brought i w₁ w₂)
    (h' : World.Beside store brought i w₂ w₃) : World.Beside store brought i w₁ w₃ :=
  ⟨h.meanwhile.trans h'.meanwhile, h'.tx.trans h.tx, h'.warned.trans h.warned⟩

omit [DecidableEq ι] in
theorem Sometime.widen (h : Sometime store brought w₁ w₂ P) (hbefore : w.Meanwhile store brought w₁)
    (hafter : w₂.Meanwhile store brought w') : Sometime store brought w w' P := by
  obtain ⟨w₃, hfirst, hsecond, hP⟩ := h
  exact ⟨w₃, hbefore.trans hfirst, hsecond.trans hafter, hP⟩

variable [Fintype ι] {limit : ℕ} {since : World ι}

variable (store brought limit since) in
/-- What the pass does itself. -/
structure World.OwnStep (op : Op) (choice : Choice) (w w' : World ι) : Prop where
  meanwhile : w.Meanwhile store brought w'
  listed : ∀ staging names truncated, choice = .listed staging names truncated →
    ListedBetween store limit since w names truncated

variable (store brought limit since i) in
/-- The pass, as it runs beside the others. -/
abbrev PassFollows {α : Type} : Prog α → World ι → α → World ι → Prop :=
  (server ι).Follows i (World.Beside store brought i) (World.OwnStep store brought limit since)

omit [DecidableEq ι] [Fintype ι] in
theorem hasDigest_iff {bureauId partnerId : Uuid} {sha256 : Text} {row : MaterialRow} :
    Sql.hasDigest bureauId partnerId sha256 row = true ↔
      row.object = (⟨bureauId, partnerId⟩, sha256) := by
  simp [Sql.hasDigest, Sql.isMaterialOf, MaterialRow.object, MaterialRow.ns]

/-- The lookup of a key answers for a moment of its own. -/
theorem follows_findByDigest {tx : ScopedTx} {now : Timestamp} {partnerId : Uuid} {sha256 : Text}
    {found : Option Material} (htx : w.tx i = some ⟨tx.bureauId, now, []⟩)
    (h : PassFollows store brought i limit since
      (Maintenance.db (Materials.findByDigest tx partnerId sha256)) w (.ok found) w') :
    World.Beside store brought i w w' ∧
      Sometime store brought w w' fun w₁ ↦ (found.isSome = true ↔
        ∃ row ∈ w₁.db.materials, row.object = (⟨tx.bureauId, partnerId⟩, sha256)) := by
  have h := Machine.Follows.mapError World.Beside.refl World.Beside.trans h
  obtain ⟨row, w₃, hstatement, hreturn⟩ := Machine.Follows.andThen World.Beside.refl h
  obtain ⟨hfound, hlast⟩ := Machine.follows_done_iff.mp hreturn
  cases hfound
  obtain ⟨choice, w₁, w₂, hbefore, hperform, hown, hafter⟩ := Machine.Follows.perform hstatement
  have hopen : w₁.tx i = some ⟨tx.bureauId, now, []⟩ := hbefore.tx.trans htx
  have hview : w₁.view i = w₁.db := by simp [World.view, World.pending, hopen]
  rcases perform_sql hopen hperform with ⟨id, answer, added, hrow, hexec, rfl⟩ | ⟨e, he, -⟩
  · cases hrow
    rw [hview] at hexec
    cases hexec
    have hown' : World.Beside store brought i w₁
        (w₁.setTx i (some ⟨tx.bureauId, now, [] ++ []⟩)) := by
      refine ⟨hown.meanwhile, ?_, rfl⟩
      rw [hopen]
      simp [World.setTx]
    refine ⟨(hbefore.trans _ _ _ hown').trans _ _ _ (hafter.trans _ _ _ hlast), w₁,
      hbefore.meanwhile, hown.meanwhile.trans (hafter.meanwhile.trans hlast.meanwhile), ?_⟩
    rw [Option.isSome_map, List.find?_isSome]
    simp only [hasDigest_iff]
  · cases he

theorem follows_warn {key : Text} {a : Unit}
    (h : PassFollows store brought i limit since (await (.report (.missingRow key))) w a w') :
    w.Meanwhile store brought w' ∧ w'.tx i = w.tx i ∧ w'.warned i = key :: w.warned i := by
  obtain ⟨choice, w₁, w₂, hbefore, hperform, hown, hafter⟩ := Machine.Follows.perform h
  have hstep : w₂ = { w₁ with reports := (i, .missingRow key) :: w₁.reports } := by
    cases choice <;> cases hperform
    rfl
  subst hstep
  refine ⟨hbefore.meanwhile.trans (hown.meanwhile.trans hafter.meanwhile),
    hafter.tx.trans hbefore.tx, ?_⟩
  rw [hafter.warned, ← hbefore.warned]
  simp [World.warned]

variable (store brought i) in
/-- The keys a pass has counted among `keys`, and what it has seen of each. -/
structure Counts (bureauId : Uuid) (keys counted : List (ObjectKey store.uuid)) (w w' : World ι) :
    Prop where
  sublist : counted.Sublist keys
  warned : w'.warned i = (counted.reverse.map ObjectKey.raw) ++ w.warned i
  meanwhile : w.Meanwhile store brought w'
  missing : ∀ key ∈ counted, ∃ object, key.Names object ∧ object.1.bureauId = bureauId ∧
    Sometime store brought w w' fun w₁ ↦ ∀ row ∈ w₁.db.materials, row.object ≠ object
  found : ∀ key ∈ keys, key ∉ counted → ∃ object, key.Names object ∧
    (object.1.bureauId ≠ bureauId ∨
      Sometime store brought w w' fun w₁ ↦ ∃ row ∈ w₁.db.materials, row.object = object)

omit [Fintype ι] in
/-- The keys that follow a key that is not counted. -/
theorem Counts.skip {bureauId : Uuid} {key : ObjectKey store.uuid}
    {keys counted : List (ObjectKey store.uuid)} (hbefore : World.Beside store brought i w w₁)
    (h : Counts store brought i bureauId keys counted w₁ w') {object : ObjectName}
    (hnames : key.Names object) (hfound : object.1.bureauId ≠ bureauId ∨
      Sometime store brought w w₁ fun w₂ ↦ ∃ row ∈ w₂.db.materials, row.object = object) :
    Counts store brought i bureauId (key :: keys) counted w w' where
  sublist := h.sublist.cons key
  warned := by rw [h.warned, hbefore.warned]
  meanwhile := hbefore.meanwhile.trans h.meanwhile
  missing other hother := by
    obtain ⟨object', hobject', hbureau, hmissing⟩ := h.missing other hother
    exact ⟨object', hobject', hbureau, hmissing.widen hbefore.meanwhile (.refl _)⟩
  found other hother hcounted := by
    rcases List.mem_cons.mp hother with rfl | hother
    · exact ⟨object, hnames, hfound.imp_right fun h' ↦ h'.widen (.refl _) h.meanwhile⟩
    · obtain ⟨object', hobject', hseen⟩ := h.found other hother hcounted
      exact ⟨object', hobject', hseen.imp_right fun h' ↦ h'.widen hbefore.meanwhile (.refl _)⟩

omit [Fintype ι] in
/-- The keys that follow a key that is counted. -/
theorem Counts.count {bureauId : Uuid} {key : ObjectKey store.uuid}
    {keys counted : List (ObjectKey store.uuid)} {w₂ : World ι}
    (hbefore : World.Beside store brought i w w₁)
    (hwarn : w₁.Meanwhile store brought w₂ ∧ w₂.tx i = w₁.tx i ∧
      w₂.warned i = key.raw :: w₁.warned i)
    (h : Counts store brought i bureauId keys counted w₂ w') {object : ObjectName}
    (hnames : key.Names object) (hbureau : object.1.bureauId = bureauId)
    (hmissing : Sometime store brought w w₁ fun w₃ ↦
      ∀ row ∈ w₃.db.materials, row.object ≠ object) :
    Counts store brought i bureauId (key :: keys) (key :: counted) w w' where
  sublist := h.sublist.cons_cons key
  warned := by
    rw [h.warned, hwarn.2.2, hbefore.warned]
    simp
  meanwhile := hbefore.meanwhile.trans (hwarn.1.trans h.meanwhile)
  missing other hother := by
    rcases List.mem_cons.mp hother with rfl | hother
    · exact ⟨object, hnames, hbureau,
        hmissing.widen (.refl _) (hwarn.1.trans h.meanwhile)⟩
    · obtain ⟨object', hobject', hbureau', hmissing'⟩ := h.missing other hother
      exact ⟨object', hobject', hbureau',
        hmissing'.widen (hbefore.meanwhile.trans hwarn.1) (.refl _)⟩
  found other hother hcounted := by
    have hne : other ∈ keys := by
      rcases List.mem_cons.mp hother with rfl | hother
      · exact absurd List.mem_cons_self hcounted
      · exact hother
    obtain ⟨object', hobject', hseen⟩ :=
      h.found other hne fun hmem ↦ hcounted (List.mem_cons_of_mem _ hmem)
    exact ⟨object', hobject',
      hseen.imp_right fun h' ↦ h'.widen (hbefore.meanwhile.trans hwarn.1) (.refl _)⟩

theorem follows_countOrphans {tx : ScopedTx} {now : Timestamp}
    {keys : List (ObjectKey store.uuid)} {orphans total : ℕ}
    (htx : w.tx i = some ⟨tx.bureauId, now, []⟩)
    (h : PassFollows store brought i limit since (Maintenance.countOrphans store tx keys orphans)
      w (.ok total) w') :
    ∃ counted, Counts store brought i tx.bureauId keys counted w w' ∧
      total = orphans + counted.length := by
  induction keys generalizing orphans w with
  | nil =>
      obtain ⟨heq, hbefore⟩ := Machine.follows_done_iff.mp h
      cases heq
      refine ⟨[], ⟨.refl _, by simp [hbefore.warned], hbefore.meanwhile, ?_, ?_⟩, rfl⟩
      · exact fun key hkey ↦ absurd hkey List.not_mem_nil
      · exact fun key hkey ↦ absurd hkey List.not_mem_nil
  | cons key rest ih =>
      obtain ⟨ns, w₁, hns, h⟩ := Machine.Follows.andThen World.Beside.refl h
      obtain ⟨hns, hbefore⟩ := Machine.follows_done_iff.mp
        (Machine.Follows.mapError World.Beside.refl World.Beside.trans hns)
      have hnames : key.Names (ns, key.digest) := ⟨hns, rfl⟩
      have htx₁ : w₁.tx i = some ⟨tx.bureauId, now, []⟩ := hbefore.tx.trans htx
      split at h
      · rename_i hother
        obtain ⟨counted, hcounts, htotal⟩ := ih htx₁ h
        exact ⟨counted, hcounts.skip hbefore hnames (Or.inl hother), htotal⟩
      · rename_i hbureau
        rw [not_not] at hbureau
        obtain ⟨found, w₂, hfind, h⟩ := Machine.Follows.andThen World.Beside.refl h
        obtain ⟨hbeside, hseen⟩ := follows_findByDigest htx₁ hfind
        have hbeside' := hbefore.trans _ _ _ hbeside
        have htx₂ : w₂.tx i = some ⟨tx.bureauId, now, []⟩ := hbeside.tx.trans htx₁
        have hobject : ((⟨tx.bureauId, ns.partnerId⟩, key.digest) : ObjectName)
            = (ns, key.digest) := by rw [← hbureau]
        rw [hobject] at hseen
        cases found with
        | some material =>
            obtain ⟨counted, hcounts, htotal⟩ := ih htx₂ h
            refine ⟨counted, hcounts.skip hbeside' hnames (Or.inr ?_), htotal⟩
            obtain ⟨w₃, hfirst, hsecond, hrow⟩ := hseen
            exact ⟨w₃, hbefore.meanwhile.trans hfirst, hsecond, hrow.mp rfl⟩
        | none =>
            obtain ⟨_, w₃, hreport, h⟩ := Machine.Follows.andThen World.Beside.refl h
            have hwarn := follows_warn
              (Machine.Follows.lift World.Beside.refl World.Beside.trans hreport)
            obtain ⟨counted, hcounts, htotal⟩ := ih (hwarn.2.1.trans htx₂) h
            refine ⟨key :: counted, hcounts.count hbeside' hwarn hnames hbureau ?_, ?_⟩
            · obtain ⟨w₄, hfirst, hsecond, hrow⟩ := hseen
              refine ⟨w₄, hbefore.meanwhile.trans hfirst, hsecond, fun row hmem heq ↦ ?_⟩
              cases hrow.mpr ⟨row, hmem, heq⟩
            · rw [htotal, List.length_cons]
              omega

omit [Fintype ι] in
theorem Counts.widen {bureauId : Uuid} {keys counted : List (ObjectKey store.uuid)}
    (h : Counts store brought i bureauId keys counted w₁ w₂)
    (hbefore : w.Meanwhile store brought w₁) (hwarned : w₁.warned i = w.warned i)
    (hafter : w₂.Meanwhile store brought w') (hwarned' : w'.warned i = w₂.warned i) :
    Counts store brought i bureauId keys counted w w' where
  sublist := h.sublist
  warned := by rw [hwarned', h.warned, hwarned]
  meanwhile := hbefore.trans (h.meanwhile.trans hafter)
  missing key hkey := by
    obtain ⟨object, hobject, hbureau, hmissing⟩ := h.missing key hkey
    exact ⟨object, hobject, hbureau, hmissing.widen hbefore hafter⟩
  found key hkey hcounted := by
    obtain ⟨object, hobject, hseen⟩ := h.found key hkey hcounted
    exact ⟨object, hobject, hseen.imp_right fun h' ↦ h'.widen hbefore hafter⟩

/-- An operation that warns of nothing. -/
theorem warned_perform {op : Op} {choice : Choice} {a : op.Ans}
    (hop : ∀ line, op ≠ .report line) (h : w.perform i op choice = some (a, w')) :
    w'.warned i = w.warned i := by
  rcases World.reports_perform h with hsame | ⟨line, heq, -⟩
  · rw [World.warned, hsame, World.warned]
  · exact absurd heq (hop line)

/-- One operation of the pass that warns of nothing. -/
theorem follows_await {op : Op} {a : op.Ans} (hop : ∀ line, op ≠ .report line)
    (h : PassFollows store brought i limit since (await op) w a w') :
    w.Meanwhile store brought w' ∧ w'.warned i = w.warned i := by
  obtain ⟨choice, w₁, w₂, hbefore, hperform, hown, hafter⟩ := Machine.Follows.perform h
  refine ⟨hbefore.meanwhile.trans (hown.meanwhile.trans hafter.meanwhile), ?_⟩
  rw [hafter.warned, warned_perform hop hperform, hbefore.warned]

theorem follows_begin {bureauId : Uuid} {tx : ScopedTx}
    (h : PassFollows store brought i limit since (Maintenance.db (ScopedTx.begin bureauId)) w
      (.ok tx) w') :
    tx = ⟨bureauId⟩ ∧ w.Meanwhile store brought w' ∧ w'.warned i = w.warned i ∧
      ∃ now, w'.tx i = some ⟨bureauId, now, []⟩ := by
  have h := Machine.Follows.mapError World.Beside.refl World.Beside.trans h
  obtain ⟨_, w₃, hbegin, hreturn⟩ := Machine.Follows.andThen World.Beside.refl h
  obtain ⟨heq, hlast⟩ := Machine.follows_done_iff.mp hreturn
  cases heq
  obtain ⟨choice, w₁, w₂, hbefore, hperform, hown, hafter⟩ := Machine.Follows.perform hbegin
  have hwarned := warned_perform (by simp) hperform
  refine ⟨rfl, hbefore.meanwhile.trans (hown.meanwhile.trans
    (hafter.meanwhile.trans hlast.meanwhile)), ?_, ?_⟩
  · rw [hlast.warned, hafter.warned, hwarned, hbefore.warned]
  · rw [hlast.tx, hafter.tx]
    cases choice with
    | granted id now =>
        cases hperform
        exact ⟨now, by simp [World.setTx]⟩
    | failed | lost | listed => cases hperform

/-- The listing answers what a walk has found since the pass began. -/
theorem follows_listObjects {keys : List (ObjectKey store.uuid)} {truncated : Bool}
    (h : PassFollows store brought i limit since
      (Maintenance.storage (store.listObjects limit)) w (.ok (keys, truncated)) w') :
    ∃ (tree : ObjectsTree) (w₁ : World ι), tree.SeenBetween store since w₁ ∧
      (keys, truncated) = listObjects store.uuid limit tree.entries ∧
        w.Meanwhile store brought w₁ ∧ w₁.Meanwhile store brought w' ∧
          w'.warned i = w.warned i := by
  have h := Machine.Follows.mapError World.Beside.refl World.Beside.trans h
  obtain ⟨⟨names, flag⟩, w₃, hio, hreturn⟩ := Machine.Follows.andThen World.Beside.refl h
  obtain ⟨heq, hlast⟩ := Machine.follows_done_iff.mp hreturn
  have hlist := Machine.Follows.mapError World.Beside.refl World.Beside.trans hio
  obtain ⟨choice, w₁, w₂, hbefore, hperform, hown, hafter⟩ := Machine.Follows.perform hlist
  have hwarned := warned_perform (by simp) hperform
  cases choice with
  | granted | failed | lost => cases hperform
  | listed staging names' flag' =>
      cases hperform
      obtain ⟨tree, hseen, hnames, hflag⟩ := hown.listed _ _ _ rfl
      subst hnames
      rw [filterMap_parse_raw, hflag] at heq
      refine ⟨tree, w₁, hseen, ?_, hbefore.meanwhile,
        hafter.meanwhile.trans hlast.meanwhile, ?_⟩
      · cases heq
        rfl
      · rw [hlast.warned, hafter.warned, hbefore.warned]

/-- A pass that comes to its end. -/
theorem follows_reportPass {leases removed : ℕ} {bureauId : Uuid} {report : MaintenanceReport}
    (h : PassFollows store brought i limit since
      (reportPass store leases removed bureauId limit) w (.maintenance (.ok report)) w') :
    ∃ (tree : ObjectsTree) (w₁ : World ι) (counted : List (ObjectKey store.uuid)),
      tree.SeenBetween store since w₁ ∧ w.Meanwhile store brought w₁ ∧
        w₁.Meanwhile store brought w' ∧
          report.scanTruncated = (listObjects store.uuid limit tree.entries).2 ∧
            report.orphanObjects = counted.length ∧
              Counts store brought i bureauId (listObjects store.uuid limit tree.entries).1 counted
                w w' := by
  obtain ⟨r, w₆, hrest, hdone⟩ := Machine.Follows.bind World.Beside.refl h
  obtain ⟨heq, hlast⟩ := Machine.follows_done_iff.mp hdone
  cases heq
  obtain ⟨⟨orphans, scanned, truncated⟩, w₅, hpass, hreturn⟩ :=
    Machine.Follows.andThen World.Beside.refl hrest
  obtain ⟨hreport, hlast'⟩ := Machine.follows_done_iff.mp hreturn
  cases hreport
  obtain ⟨⟨keys, flag⟩, w₂, hlist, hrows⟩ := Machine.Follows.andThen World.Beside.refl hpass
  obtain ⟨tree, w₁, hseen, hkeys, hbefore, hafter, hwarned⟩ := follows_listObjects hlist
  obtain ⟨tx, w₃, hbegin, htx⟩ := Machine.Follows.andThen World.Beside.refl hrows
  obtain ⟨rfl, hmean, hwarned', now, hopen⟩ := follows_begin hbegin
  obtain ⟨total, w₄, hcount, hend⟩ := Machine.Follows.andThen World.Beside.refl htx
  obtain ⟨counted, hcounts, htotal⟩ := follows_countOrphans hopen hcount
  obtain ⟨_, w₇, hcommit, hreturn'⟩ := Machine.Follows.andThen World.Beside.refl hend
  obtain ⟨heq, hlast''⟩ := Machine.follows_done_iff.mp hreturn'
  cases heq
  obtain ⟨hmean', hwarned''⟩ := follows_await (by simp)
    (Machine.Follows.mapError World.Beside.refl World.Beside.trans hcommit)
  have hclose : w₄.Meanwhile store brought w' ∧ w'.warned i = w₄.warned i := by
    refine ⟨hmean'.trans (hlast''.meanwhile.trans (hlast'.meanwhile.trans hlast.meanwhile)), ?_⟩
    rw [hlast.warned, hlast'.warned, hlast''.warned, hwarned'']
  have hstart : w₃.warned i = w.warned i := hwarned'.trans hwarned
  refine ⟨tree, w₁, counted, hseen, hbefore,
    hafter.trans (hmean.trans (hcounts.meanwhile.trans hclose.1)), congrArg Prod.snd hkeys, ?_, ?_⟩
  · rw [htotal, Nat.zero_add]
  · rw [← hkeys]
    exact hcounts.widen (hbefore.trans (hafter.trans hmean)) hstart hclose.1 hclose.2

end Pass

/-! ## Keys and rows -/

section Keys

variable {uuid : UuidCrate} {key : ObjectKey uuid} {row : MaterialRow} {object : ObjectName}

theorem ObjectKey.Names.unique {object' : ObjectName} (h : key.Names object)
    (h' : key.Names object') : object = object' := by
  have hns := h.1.symm.trans h'.1
  exact Prod.ext (Except.ok.inj hns) (h.2.symm.trans h'.2)

/-- A filed row with the key as its storage key describes the key's object. -/
theorem names_of_filed (hrow : row.Filed uuid) (hkey : row.storageKey = key.raw) :
    key.Names row.object := by
  obtain ⟨filed, hfiled, hraw⟩ := hrow
  obtain rfl : filed = key := ObjectKey.ext_raw (hraw.symm.trans hkey)
  have hdigest : IsDigest row.sha256 := by
    unfold ObjectNamespace.keyForDigest at hfiled
    split at hfiled
    · cases hfiled
    · rename_i hhex
      exact isSha256Hex_iff.mp (by simpa using hhex)
  obtain ⟨same, hsame, hnames⟩ := ObjectKey.keyForDigest_readBack uuid row.ns hdigest
  obtain rfl : filed = same := Except.ok.inj (hfiled.symm.trans hsame)
  exact hnames

/-- With the usual spelling, the row of the key's object has the key. -/
theorem storageKey_of_names (hrow : row.Filed uuid)
    (hspelled : ¬ ObjectKey.LooselySpelled key.raw) (hnames : key.Names row.object) :
    row.storageKey = key.raw := by
  obtain ⟨ns, hns, hkey⟩ :=
    (ObjectKey.oneSpelling_of_not_loose uuid hspelled).2 key (ObjectKey.parse_raw key)
  obtain rfl : ns = row.ns := Except.ok.inj (hns.symm.trans hnames.1)
  rw [hnames.2] at hkey
  rw [hrow.storageKey_eq]
  exact (raw_of_keyForDigest hkey).symm

end Keys

/-- A key whose path is the place of an object has the object's text. -/
theorem raw_of_place {key : ObjectKey store.uuid} {object : ObjectName}
    (h : store.objectsRoot ++ key.raw.splitOn '/' = store.place object.1 object.2) :
    key.raw = object.1.keyText store.uuid object.2 := by
  have hsplit := List.append_cancel_left h
  exact Text.splitOn_injective '/' hsplit

/-! ## The report -/

section Report

/-- The objects of the requests that take a step. -/
def objectsInProgress (store : Store) (requests : ι → Request)
    (events : List (SysEvent ι Choice)) : Finset ObjectName :=
  (events.filterMap fun e ↦ (requests e.actor).object? store).toFinset

/-- An object of the bureau that is there throughout and has no row in the
end. -/
structure World.Orphaned (store : Store) (bureauId : Uuid) (w w' : World ι)
    (key : ObjectKey store.uuid) : Prop where
  held : w.Holds store key
  bureau : ∃ partnerId, key.namespaceOf = .ok ⟨bureauId, partnerId⟩
  unknown : ∀ row ∈ w'.db.materials, row.storageKey ≠ key.raw

/-- The report counts no object that has a row from the start, and, when the
listing was complete, every orphaned one, and at most the objects of uploads in
progress beside them. -/
structure ExactReport [DecidableEq ι] (store : Store) (requests : ι → Request) (i : ι)
    (bureauId : Uuid) (w w' : World ι) (during : List (SysEvent ι Choice))
    (report : MaintenanceReport) (counted : List Text) : Prop where
  warned : w'.warned i = counted ++ w.warned i
  total : report.orphanObjects = counted.length
  sound : ∀ row ∈ w.db.materials, row.storageKey ∉ counted
  complete : report.scanTruncated = false →
    ∀ key, World.Orphaned store bureauId w w' key → key.raw ∈ counted
  bounds : report.scanTruncated = false → {key | World.Orphaned store bureauId w w' key}.Finite ∧
    {key | World.Orphaned store bureauId w w' key}.ncard ≤ report.orphanObjects ∧
      report.orphanObjects ≤ {key | World.Orphaned store bureauId w w' key}.ncard +
        (objectsInProgress store requests during).card

/-- No object of the bureau is spelled in another way than the rows and the
uploads spell it. -/
def World.OneSpelled (store : Store) (w : World ι) (bureauId : Uuid) (uploads : Finset ObjectName) :
    Prop :=
  ∀ key : ObjectKey store.uuid, w.Holds store key → ObjectKey.LooselySpelled key.raw →
    ∀ object, key.Names object → object.1.bureauId = bureauId →
      object ∉ uploads ∧ ∀ row ∈ w.db.materials, row.object ≠ object

variable [DecidableEq ι] {brought : Set ObjectName} {i : ι} {bureauId : Uuid} {limit : ℕ}
  {w w₁ w' : World ι} {tree : ObjectsTree} {keys counted : List (ObjectKey store.uuid)}

/-- An object that a row describes from the start is not counted. -/
theorem Counts.sound (h : Counts store brought i bureauId keys counted w w')
    (hfiled : ∀ row ∈ w.db.materials, row.Filed store.uuid) {key : ObjectKey store.uuid}
    (hkey : key ∈ counted) : ∀ row ∈ w.db.materials, row.storageKey ≠ key.raw := by
  intro row hrow heq
  obtain ⟨object, hnames, -, w₁, hbefore, -, hmissing⟩ := h.missing key hkey
  obtain ⟨row', hrow', hcore⟩ := hbefore.rows row hrow
  have hobject := (names_of_filed (hfiled row hrow) heq).unique hnames
  exact hmissing row' hrow' ((MaterialRow.object_congr hcore).trans hobject)

omit [DecidableEq ι] in
/-- A row that appears is filed. -/
theorem World.Meanwhile.filed (h : w.Meanwhile store brought w')
    (hfiled : ∀ row ∈ w.db.materials, row.Filed store.uuid) :
    ∀ row ∈ w'.db.materials, row.Filed store.uuid := by
  intro row hrow
  rcases h.inserted row hrow with ⟨old, hold, hcore⟩ | ⟨-, hnew⟩
  · exact (hfiled old hold).congr hcore
  · exact hnew

/-- An orphaned object that is listed is counted. -/
theorem Counts.complete {uploads : Finset ObjectName}
    (h : Counts store (uploads : Set ObjectName) i bureauId keys counted w w')
    (hfiled : ∀ row ∈ w.db.materials, row.Filed store.uuid)
    (hspelled : w.OneSpelled store bureauId uploads) {key : ObjectKey store.uuid}
    (hkey : key ∈ keys) (horphan : World.Orphaned store bureauId w w' key) : key ∈ counted := by
  by_contra hcounted
  obtain ⟨object, hnames, hother | ⟨w₁, hbefore, hafter, row, hrow, rfl⟩⟩ :=
    h.found key hkey hcounted
  · obtain ⟨partnerId, hbureau⟩ := horphan.bureau
    have hns := Except.ok.inj (hnames.1.symm.trans hbureau)
    exact hother (by rw [hns])
  · have hrowFiled := hbefore.filed hfiled row hrow
    by_cases hloose : ObjectKey.LooselySpelled key.raw
    · obtain ⟨partnerId, hbureau⟩ := horphan.bureau
      have hns := Except.ok.inj (hnames.1.symm.trans hbureau)
      obtain ⟨hupload, hold⟩ := hspelled key horphan.held hloose row.object hnames (by rw [hns])
      rcases hbefore.inserted row hrow with ⟨old, hmem, hcore⟩ | ⟨hnew, -⟩
      · exact hold old hmem (MaterialRow.object_congr hcore).symm
      · exact hupload hnew
    · obtain ⟨row', hrow', hcore⟩ := hafter.rows row hrow
      refine horphan.unknown row' hrow' ?_
      rw [(MaterialRow.core_eq_iff.mp hcore).2.2.2.2.2.2.2.1]
      exact storageKey_of_names hrowFiled hloose hnames

/-- What is counted is orphaned, or of an upload in progress. -/
theorem Counts.orphaned_or_brought (h : Counts store brought i bureauId keys counted w w')
    (hfiled : ∀ row ∈ w.db.materials, row.Filed store.uuid)
    (hbefore : w.Meanwhile store brought w₁) {key : ObjectKey store.uuid} (hkey : key ∈ counted)
    (hheld : w₁.Holds store key) : World.Orphaned store bureauId w w' key ∨
      ∃ object ∈ brought, key.raw = object.1.keyText store.uuid object.2 := by
  obtain ⟨object, hnames, hbureau, -⟩ := h.missing key hkey
  by_cases hrow : ∃ row ∈ w'.db.materials, row.storageKey = key.raw
  · obtain ⟨row, hmem, heq⟩ := hrow
    rcases h.meanwhile.inserted row hmem with ⟨old, hold, hcore⟩ | ⟨hnew, hrowFiled⟩
    · refine absurd ?_ (h.sound hfiled hkey old hold)
      rw [← (MaterialRow.core_eq_iff.mp hcore).2.2.2.2.2.2.2.1]
      exact heq
    · exact Or.inr ⟨row.object, hnew, heq.symm.trans hrowFiled.storageKey_eq⟩
  · rcases hbefore.placed _ hheld with hheld | ⟨object', hobject', heq⟩
    · refine Or.inl ⟨hheld, ⟨object.1.partnerId, ?_⟩, fun row hmem heq ↦ hrow ⟨row, hmem, heq⟩⟩
      rw [hnames.1, ← hbureau]
    · exact Or.inr ⟨object', hobject', raw_of_place heq⟩

omit [DecidableEq ι] in
/-- As many are counted as there are orphaned objects, or more by the uploads in
progress. -/
theorem counted_bounds {uploads : Finset ObjectName} (hnodup : counted.Nodup)
    (hcomplete : ∀ key, World.Orphaned store bureauId w w' key → key ∈ counted)
    (hsplit : ∀ key ∈ counted, World.Orphaned store bureauId w w' key ∨
      ∃ object ∈ (uploads : Set ObjectName), key.raw = object.1.keyText store.uuid object.2) :
    {key | World.Orphaned store bureauId w w' key}.Finite ∧
      {key | World.Orphaned store bureauId w w' key}.ncard ≤ counted.length ∧
        counted.length ≤ {key | World.Orphaned store bureauId w w' key}.ncard + uploads.card := by
  have hsub : {key | World.Orphaned store bureauId w w' key} ⊆ counted.toFinset :=
    fun key hkey ↦ by simpa using hcomplete key hkey
  have hfinite : {key | World.Orphaned store bureauId w w' key}.Finite :=
    counted.toFinset.finite_toSet.subset hsub
  refine ⟨hfinite, ?_, ?_⟩
  · calc {key | World.Orphaned store bureauId w w' key}.ncard
        ≤ (counted.toFinset : Set (ObjectKey store.uuid)).ncard :=
          Set.ncard_le_ncard hsub counted.toFinset.finite_toSet
      _ = counted.length := by rw [Set.ncard_coe_finset, List.toFinset_card_of_nodup hnodup]
  · have hraw : (counted.map ObjectKey.raw).Nodup :=
      hnodup.map fun _ _ heq ↦ ObjectKey.ext_raw heq
    have hcover : (counted.map ObjectKey.raw).toFinset ⊆
        hfinite.toFinset.image ObjectKey.raw ∪
          uploads.image fun object ↦ object.1.keyText store.uuid object.2 := by
      intro raw hmem
      obtain ⟨key, hkey, rfl⟩ := List.mem_map.mp (List.mem_toFinset.mp hmem)
      rw [Finset.mem_union, Finset.mem_image, Finset.mem_image]
      rcases hsplit key hkey with horphan | ⟨object, hobject, heq⟩
      · exact Or.inl ⟨key, hfinite.mem_toFinset.mpr horphan, rfl⟩
      · exact Or.inr ⟨object, hobject, heq.symm⟩
    calc counted.length
        = (counted.map ObjectKey.raw).toFinset.card := by
          rw [List.toFinset_card_of_nodup hraw, List.length_map]
      _ ≤ (hfinite.toFinset.image ObjectKey.raw).card +
            (uploads.image fun object ↦ object.1.keyText store.uuid object.2).card :=
          (Finset.card_le_card hcover).trans (Finset.card_union_le _ _)
      _ ≤ hfinite.toFinset.card + uploads.card :=
          Nat.add_le_add Finset.card_image_le Finset.card_image_le
      _ = _ := by rw [Set.ncard_eq_toFinset_card _ hfinite]

variable [Fintype ι]

/-- The listing of the pass is a walk that begins with it. -/
def ListsSince (store : Store) (limit : ℕ) (i : ι) (since : World ι)
    (s : Sys ι (World ι) Op Op.Ans Answer) (e : SysEvent ι Choice)
    (_ : Sys ι (World ι) Op Op.Ans Answer) : Prop :=
  ∀ staging names truncated, e = .act i (.listed staging names truncated) →
    ListedBetween store limit since s.world names truncated

/-- The others leave the transaction and the warnings of the pass alone. -/
theorem undisturbed {s t : Sys ι (World ι) Op Op.Ans Answer} {e : SysEvent ι Choice}
    (hstep : Server.step ι s e = some t) (hother : e.actor ≠ i) :
    t.world.tx i = s.world.tx i ∧ t.world.warned i = s.world.warned i := by
  have habandon : ∀ j, i ≠ j → (s.world.abandon j).tx i = s.world.tx i ∧
      (s.world.abandon j).warned i = s.world.warned i := by
    intro j hj
    refine ⟨(World.frame_abandon hj s.world).tx, ?_⟩
    rw [World.warned, reports_abandon, World.warned]
  cases e with
  | act j c =>
      simp only [Server.step, Machine.step] at hstep
      split at hstep
      · cases hstep
      · obtain ⟨⟨a, w⟩, hop, rfl⟩ := Option.map_eq_some_iff.mp hstep
        refine ⟨(World.frame_perform (Ne.symm hother) hop).tx, ?_⟩
        rcases World.reports_perform hop with hsame | ⟨line, -, hline⟩
        · rw [World.warned, hsame, World.warned]
        · have hj : j ≠ i := hother
          rw [World.warned, hline, World.warned]
          cases line <;> simp [hj]
  | abandon j underWay =>
      simp only [Server.step, Machine.step] at hstep
      split at hstep
      · cases hstep
      · split at hstep
        · split at hstep <;> cases hstep
          exact habandon j (Ne.symm hother)
        · cases hstep
          exact habandon j (Ne.symm hother)

/-- A run of the server with a pass that comes to its end, as the pass sees it. -/
theorem passFollows_of_run {requests : ι → Request}
    {s t : Sys ι (World ι) Op Op.Ans Answer} (hs : Depositing store requests s)
    {during : List (SysEvent ι Choice)} (hrun : Run.run (Server.step ι) s during = some t)
    (hlists : Run.Along (Server.step ι) (ListsSince store limit i s.world) s during)
    {answer : Answer} (hanswer : answer ≠ .dropped) (hdone : t.procs i = .done answer) :
    PassFollows store (objectsInProgress store requests during : Set ObjectName) i limit s.world
      (s.procs i) s.world answer t.world := by
  have hbrought : ∀ e ∈ during, (requests e.actor).objects store ⊆
      (objectsInProgress store requests during : Set ObjectName) := by
    intro e he object hobject
    simp only [objectsInProgress, List.coe_toFinset, Set.mem_ofPred_eq, List.mem_filterMap]
    exact ⟨e, he, hobject⟩
  have hgood := Run.along_and (hs.along hbrought) hlists
  refine Machine.follows_of_run World.Beside.refl World.Beside.trans ?_ ?_ hgood hrun hanswer hdone
  · rintro r e r' ⟨hmeanwhile, -⟩ hstep hother
    exact ⟨hmeanwhile, (undisturbed hstep hother).1, (undisturbed hstep hother).2⟩
  · rintro r c r' op next ⟨hmeanwhile, hlisted⟩ - -
    refine ⟨hmeanwhile, fun staging names truncated hc ↦ ?_⟩
    exact hlisted staging names truncated (by rw [hc])

/-- Every pass that comes to its end reports exactly, if its limit is positive
and no object of the bureau has a second spelling beside a row or an upload. -/
theorem orphan_report_exact {state : AppState} {requests : ι → Request} {w : World ι}
    (hw : w.Settled state.store) {before during : List (SysEvent ι Choice)}
    {s t : Sys ι (World ι) Op Op.Ans Answer}
    (hbefore : Run.run (Server.step ι) (serving state requests w) before = some s)
    {leases removed : ℕ} (hpass : s.procs i = reportPass state.store leases removed bureauId limit)
    (hrun : Run.run (Server.step ι) s during = some t)
    (hlists : Run.Along (Server.step ι) (ListsSince state.store limit i s.world) s during)
    {report : MaintenanceReport} (hdone : t.procs i = .done (.maintenance (.ok report)))
    (hlimit : 0 < limit) (hspelled : s.world.OneSpelled state.store bureauId
      (objectsInProgress state.store requests during)) :
    ∃ counted, ExactReport state.store requests i bureauId s.world t.world during report
      counted := by
  have hstart := hw.depositing requests
  have hs := hstart.of_run hbefore
  have hfiled : ∀ row ∈ s.world.db.materials, row.Filed state.store.uuid := by
    have hmeanwhile := hstart.meanwhile hbefore
    exact hmeanwhile.filed hw.filed
  have hfollows := passFollows_of_run hs hrun hlists (by simp) hdone
  rw [hpass] at hfollows
  obtain ⟨tree, w₁, counted, hseen, hfirst, hsecond, hflag, htotal, hcounts⟩ :=
    follows_reportPass hfollows
  obtain ⟨hfound, hlength, htruncated⟩ := listObjects_spec state.store.uuid hlimit tree
  have hnodup : counted.Nodup := hcounts.sublist.nodup (nodup_listObjects _ tree)
  have hcomplete : report.scanTruncated = false → ∀ key,
      World.Orphaned state.store bureauId s.world t.world key → key ∈ counted := by
    intro hall key horphan
    refine hcounts.complete hfiled hspelled ?_ horphan
    rw [hflag, ← Bool.not_eq_true, htruncated, not_le] at hall
    have hperm := hfound.perm_of_length_le (by omega)
    exact hperm.mem_iff.mpr (hseen.mem horphan.held)
  have hsplit : ∀ key ∈ counted, World.Orphaned state.store bureauId s.world t.world key ∨
      ∃ object ∈ (objectsInProgress state.store requests during : Set ObjectName),
        key.raw = object.1.keyText state.store.uuid object.2 := fun key hkey ↦
    hcounts.orphaned_or_brought hfiled hfirst hkey
      (hseen.holds (hfound.subset (hcounts.sublist.subset hkey)))
  refine ⟨counted.reverse.map ObjectKey.raw, hcounts.warned, ?_, ?_, ?_, ?_⟩
  · rw [htotal, List.length_map, List.length_reverse]
  · intro row hrow hmem
    obtain ⟨key, hkey, heq⟩ := List.mem_map.mp hmem
    exact hcounts.sound hfiled (List.mem_reverse.mp hkey) row hrow heq.symm
  · intro hall key horphan
    exact List.mem_map_of_mem (List.mem_reverse.mpr (hcomplete hall key horphan))
  · intro hall
    rw [htotal]
    exact counted_bounds hnodup (hcomplete hall) hsplit

end Report

/-! ## A second spelling -/

namespace Sample

def orphanNs : ObjectNamespace :=
  ⟨⟨List.replicate 31 0 ++ [1], by decide⟩, ⟨List.replicate 31 0 ++ [2], by decide⟩⟩

/-- A row that is filed under the digest of sixty-four zeros. -/
def orphanRow : MaterialRow where
  id := uuid 3
  bureauId := orphanNs.bureauId
  partnerId := orphanNs.partnerId
  filename := "contract.pdf".toList
  mediaType := "application/pdf".toList
  sizeBytes := 5
  sha256 := List.replicate 64 '0'
  storageKey := orphanNs.keyText .reference (List.replicate 64 '0')
  status := .queued
  pageCount := none
  error := none
  createdAt := 0
  updatedAt := 0

/-- The row, and one stored object. -/
def orphanWorld (raw : Text) : World (Fin 1) where
  db := ⟨[orphanNs.bureauId],
    [⟨orphanNs.partnerId, orphanNs.bureauId, "partner".toList, none, 0, 0⟩], [orphanRow], []⟩
  tx _ := none
  log := []
  staging _ := none
  objects path := if path = state.store.objectsRoot ++ raw.splitOn '/' then some [] else none
  guard _ := none
  drawnBy _ := none
  reports := []
  faulted _ := false
  unacked _ := false

def maintenanceRequests : Fin 1 → Request := fun _ ↦ .maintenance ⟨0, 10⟩ orphanNs.bureauId

/-- The leases are reclaimed and the staging directory is swept. -/
def untilReport : List (SysEvent (Fin 1) Choice) :=
  [.act 0 (.granted (uuid 0) 0), .act 0 (.granted (uuid 0) 0), .act 0 (.granted (uuid 0) 0),
    .act 0 (.listed [] [] false)]

/-- The listing yields one name; what follows are `n` more steps. -/
def reportRun (raw : Text) (n : ℕ) : List (SysEvent (Fin 1) Choice) :=
  .act 0 (.listed [] [raw] false) :: List.replicate n (.act 0 (.granted (uuid 0) 0))

/-- The state in which the pass begins. -/
def atReport (raw : Text) : Sys (Fin 1) (World (Fin 1)) Op Op.Ans Answer :=
  (Run.run (Server.step (Fin 1)) (serving state maintenanceRequests (orphanWorld raw))
    untilReport).get rfl

/-- The digest of sixty-four ones, which has no row. -/
def otherKey : Text := orphanNs.keyText .reference (List.replicate 64 '1')

/-- The number of objects reported, whether the listing was cut short, and the
storage keys in the end. -/
def reported (raw : Text) (n : ℕ) : Option (ℕ × Bool × List Text) :=
  (Run.run (Server.step (Fin 1)) (atReport raw) (reportRun raw n)).bind fun t ↦
    match t.procs 0 with
    | .done (.maintenance (.ok report)) => some (report.orphanObjects, report.scanTruncated,
        t.world.db.materials.map MaterialRow.storageKey)
    | _ => none

theorem exists_report {raw : Text} {n orphans : ℕ} {truncated : Bool} {storageKeys : List Text}
    (h : reported raw n = some (orphans, truncated, storageKeys)) :
    ∃ t report, Run.run (Server.step (Fin 1)) (atReport raw) (reportRun raw n) = some t ∧
      t.procs 0 = .done (.maintenance (.ok report)) ∧ report.orphanObjects = orphans ∧
        report.scanTruncated = truncated ∧
          t.world.db.materials.map MaterialRow.storageKey = storageKeys := by
  obtain ⟨t, hrun, h⟩ := Option.bind_eq_some_iff.mp h
  split at h
  · rename_i report hdone
    cases h
    exact ⟨t, report, hrun, hdone, rfl, rfl, rfl⟩
  · cases h

theorem orphanWorld_settled (raw : Text) : (orphanWorld raw).Settled state.store where
  consistent :=
    { partners := Versions.Sound.start (List.nodup_singleton _) (fun _ _ _ _ h ↦ h) (fun _ ↦ rfl) rfl
      materials := by
        refine Versions.Sound.start (List.nodup_singleton _) ?_ (fun _ ↦ rfl) rfl
        intro r hr r' hr' _
        rw [List.mem_singleton.mp hr, List.mem_singleton.mp hr']
      jobs := Versions.Sound.start List.nodup_nil (fun _ hr ↦ (nomatch hr)) (fun _ ↦ rfl) rfl
      materialPartner := by
        refine ⟨fun r hr ↦ ⟨_, List.mem_singleton_self _, ?_⟩, fun _ _ hv ↦ (nomatch hv)⟩
        rw [List.mem_singleton.mp hr]
        exact ⟨rfl, rfl⟩
      jobMaterial := ⟨fun _ hr ↦ (nomatch hr), fun _ _ hv ↦ (nomatch hv)⟩ }
  tx _ := rfl
  filed row hrow := by
    rw [List.mem_singleton.mp hrow]
    have hdigest : IsDigest (List.replicate 64 '0') := isSha256Hex_iff.mp (by decide +kernel)
    obtain ⟨key, hkey, hraw⟩ := exists_keyForDigest .reference orphanNs hdigest
    exact ⟨key, hkey, hraw.symm⟩

/-- The only object is seen, and nothing else. -/
theorem reportRun_lists {key : ObjectKey state.store.uuid} {raw : Text} (hraw : key.raw = raw) (n : ℕ) :
    Run.Along (Server.step (Fin 1)) (ListsSince state.store 10 0 (atReport raw).world)
      (atReport raw) (reportRun raw n) := by
  obtain ⟨tree, hobjects, hfiles⟩ := key.exists_tree
  have hplace : ∀ segments, ((atReport raw).world.objects
      (state.store.objectsRoot ++ segments)).isSome = true ↔ segments = raw.splitOn '/' := by
    intro segments
    have hworld : (atReport raw).world.objects = (orphanWorld raw).objects := rfl
    rw [hworld]
    simp [orphanWorld]
  have hgranted : ∀ (n : ℕ) (s : Sys (Fin 1) (World (Fin 1)) Op Op.Ans Answer),
      Run.Along (Server.step (Fin 1)) (ListsSince state.store 10 0 (atReport raw).world) s
        (List.replicate n (.act 0 (.granted (uuid 0) 0))) := by
    intro n
    induction n with
    | zero => exact fun _ ↦ trivial
    | succ n ih =>
        intro s s' _
        exact ⟨fun _ _ _ heq ↦ (nomatch heq), ih s'⟩
  intro s' _
  refine ⟨fun staging names truncated heq ↦ ?_, hgranted n s'⟩
  cases heq
  have hlisted : listObjects state.store.uuid 10 tree.entries = ([key], false) :=
    listObjects_lone (by decide) hobjects
  refine ⟨tree, ⟨fun segments hsegments ↦ ?_, fun segments _ hheld ↦ ?_⟩, ?_, ?_⟩
  · rw [hfiles, List.mem_singleton, hraw] at hsegments
    exact (hplace segments).mpr hsegments
  · rw [hfiles, List.mem_singleton, hraw]
    exact (hplace segments).mp hheld
  · rw [hlisted, List.map_singleton, hraw]
  · rw [hlisted]

theorem holds_atReport {raw : Text} {key : ObjectKey state.store.uuid} :
    (atReport raw).world.Holds state.store key ↔ key.raw = raw := by
  have hworld : (atReport raw).world.objects = (orphanWorld raw).objects := rfl
  rw [World.Holds, hworld]
  constructor
  · intro h
    have hsplit : key.raw.splitOn '/' = raw.splitOn '/' := by
      by_contra hne
      simp [orphanWorld, hne] at h
    exact Text.splitOn_injective '/' hsplit
  · rintro rfl
    simp [orphanWorld]

end Sample

/-- A pass that meets an object without a row. -/
theorem orphan_report_exact_lone : ∃ t report counted,
    Run.run (Server.step (Fin 1)) (Sample.atReport Sample.otherKey)
        (Sample.reportRun Sample.otherKey 4) = some t ∧
      report.orphanObjects = 1 ∧
        ExactReport Sample.state.store Sample.maintenanceRequests 0 Sample.orphanNs.bureauId
          (Sample.atReport Sample.otherKey).world t.world (Sample.reportRun Sample.otherKey 4)
          report counted := by
  have hreported : Sample.reported Sample.otherKey 4 =
      some (1, false, [Sample.orphanRow.storageKey]) := by decide +kernel
  obtain ⟨t, report, hrun, hdone, horphans, -, -⟩ := Sample.exists_report hreported
  let key : ObjectKey Sample.state.store.uuid := ⟨Sample.otherKey, by decide +kernel⟩
  have hspelled : (Sample.atReport Sample.otherKey).world.OneSpelled Sample.state.store
      Sample.orphanNs.bureauId (objectsInProgress Sample.state.store Sample.maintenanceRequests
        (Sample.reportRun Sample.otherKey 4)) := by
    intro other hheld hloose
    have hcanonical : ObjectKey.Canonical Sample.otherKey := by
      refine ⟨Sample.orphanNs.bureauId, Sample.orphanNs.partnerId, List.replicate 64 '1',
        isSha256Hex_iff.mp (by decide +kernel), ?_⟩
      rw [Sample.otherKey, ObjectNamespace.keyText, UuidCrate.display_eq, UuidCrate.display_eq]
    refine absurd ?_ (hloose.not_canonical .reference)
    rwa [Sample.holds_atReport.mp hheld]
  have hlists := Sample.reportRun_lists (show key.raw = Sample.otherKey from rfl) 4
  obtain ⟨counted, hexact⟩ := orphan_report_exact (Sample.orphanWorld_settled Sample.otherKey)
    (Option.some_get _).symm rfl hrun hlists hdone (by decide) hspelled
  exact ⟨t, report, counted, hrun, horphans, hexact⟩

/-- An object of the bureau in another spelling has no row, and is not counted. -/
theorem second_spelling_not_counted : ∃ t report,
    Run.run (Server.step (Fin 1)) (Sample.atReport ObjectKey.simpleFormKey)
        (Sample.reportRun ObjectKey.simpleFormKey 3) = some t ∧
      t.procs 0 = .done (.maintenance (.ok report)) ∧
        ∀ counted, ¬ ExactReport Sample.state.store Sample.maintenanceRequests 0
          Sample.orphanNs.bureauId (Sample.atReport ObjectKey.simpleFormKey).world t.world
          (Sample.reportRun ObjectKey.simpleFormKey 3) report counted := by
  have hreported : Sample.reported ObjectKey.simpleFormKey 3 =
      some (0, false, [Sample.orphanRow.storageKey]) := by decide +kernel
  obtain ⟨t, report, hrun, hdone, horphans, htruncated, hkeys⟩ := Sample.exists_report hreported
  refine ⟨t, report, hrun, hdone, fun counted hexact ↦ ?_⟩
  let key : ObjectKey Sample.state.store.uuid := ⟨ObjectKey.simpleFormKey, by decide +kernel⟩
  have horphan : World.Orphaned Sample.state.store Sample.orphanNs.bureauId
      (Sample.atReport ObjectKey.simpleFormKey).world t.world key := by
    refine ⟨Sample.holds_atReport.mpr rfl, ⟨Sample.orphanNs.partnerId, rfl⟩, ?_⟩
    intro row hrow heq
    have hmem : row.storageKey ∈ t.world.db.materials.map MaterialRow.storageKey :=
      List.mem_map_of_mem hrow
    rw [hkeys, List.mem_singleton] at hmem
    exact absurd (heq.symm.trans hmem) (by decide +kernel)
  have hcounted := hexact.complete htruncated key horphan
  have hnone := hexact.total
  rw [horphans] at hnone
  rw [List.length_eq_zero_iff.mp hnone.symm] at hcounted
  cases hcounted

end Otdel
