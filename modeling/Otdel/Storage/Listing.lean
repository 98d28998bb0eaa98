import Otdel.Storage.Key

/-!
# Listing the objects

A walk over the directories under the objects root, with a stack of the
directories that are still to be read.
-/

namespace Otdel

/-- What reading a directory yields, entry by entry.  A name that is not UTF-8
is `none`; a directory comes with its own entries. -/
inductive Entries where
  | nil
  | file (name : Option Text) (rest : Entries)
  | other (name : Option Text) (rest : Entries)
  | dir (name : Option Text) (entries rest : Entries)

namespace Entries

/-- The number of entries, with those of all directories. -/
def size : Entries → ℕ
  | nil => 0
  | file _ rest => rest.size + 1
  | other _ rest => rest.size + 1
  | dir _ entries rest => entries.size + rest.size + 2

def names : Entries → List Text
  | nil => []
  | file name rest => name.toList ++ rest.names
  | other name rest => name.toList ++ rest.names
  | dir name _ rest => name.toList ++ rest.names

/-- The names in a directory are distinct, and none contains a separator. -/
def WellNamed : Entries → Prop
  | nil => True
  | file name rest => (∀ n ∈ name, '/' ∉ n ∧ n ∉ rest.names) ∧ rest.WellNamed
  | other name rest => (∀ n ∈ name, '/' ∉ n ∧ n ∉ rest.names) ∧ rest.WellNamed
  | dir name entries rest =>
      (∀ n ∈ name, '/' ∉ n ∧ n ∉ rest.names) ∧ entries.WellNamed ∧ rest.WellNamed

/-- The regular files, with their paths from `above` on. -/
def files (above : List Text) : Entries → List (List Text)
  | nil => []
  | file (some name) rest => (above ++ [name]) :: rest.files above
  | file none rest => rest.files above
  | other _ rest => rest.files above
  | dir (some name) entries rest => entries.files (above ++ [name]) ++ rest.files above
  | dir none _ rest => rest.files above

end Entries

section Walk

variable (uuid : UuidCrate) (limit : ℕ)

/-- The key of a file. -/
def keyOf (segments : List Text) : Option (ObjectKey uuid) :=
  (ObjectKey.parse uuid (List.intercalate ['/'] segments)).toOption

/-- The keys of the objects under a directory. -/
def Entries.objects (above : List Text) (entries : Entries) : List (ObjectKey uuid) :=
  (entries.files above).filterMap (keyOf uuid)

/-- A directory that is to be read, with its segments. -/
abbrev Frame := Entries × List Text

/-- The number of entries in the directories that are to be read. -/
def stackSize (stack : List Frame) : ℕ := (stack.map fun frame ↦ frame.1.size + 1).sum

/-- Read the entries of one directory, and then the directories on the stack. -/
def walk : Entries → List Text → List Frame → List (ObjectKey uuid) → List (ObjectKey uuid) × Bool
  | .nil, _, [], keys => (keys, false)
  | .nil, _, (dir, segments) :: stack, keys => walk dir segments stack keys
  | .file none rest, above, stack, keys => walk rest above stack keys
  | .other _ rest, above, stack, keys => walk rest above stack keys
  | .dir none _ rest, above, stack, keys => walk rest above stack keys
  | .dir (some name) entries rest, above, stack, keys =>
      let segments := above ++ [name]
      -- bureau, partner, shard
      if segments.length ≤ 3 then walk rest above ((entries, segments) :: stack) keys
      else walk rest above stack keys
  | .file (some name) rest, above, stack, keys =>
      match keyOf uuid (above ++ [name]) with
      | none => walk rest above stack keys
      | some key =>
          let keys := keys ++ [key]
          if limit ≤ keys.length then (keys, true) else walk rest above stack keys
  termination_by entries _ stack => entries.size + stackSize stack
  decreasing_by all_goals simp only [Entries.size, stackSize, List.map_cons, List.sum_cons]; omega

/-- `list_objects`, for the tree under the objects root. -/
def listObjects (root : Entries) : List (ObjectKey uuid) × Bool :=
  if limit = 0 then ([], false) else walk uuid limit .nil [] [(root, [])] []

end Walk

/-! ## The files of a tree -/

def SlashFree (segments : List Text) : Prop := ∀ segment ∈ segments, '/' ∉ segment

theorem SlashFree.append {above : List Text} (h : SlashFree above) {name : Text}
    (hname : '/' ∉ name) : SlashFree (above ++ [name]) := by
  intro segment hsegment
  rcases List.mem_append.mp hsegment with hsegment | hsegment
  · exact h segment hsegment
  · rwa [List.mem_singleton.mp hsegment]

namespace Entries

/-- A file lies under a name of the directory. -/
theorem files_spec {entries : Entries} {above segments : List Text} (hnamed : entries.WellNamed)
    (habove : SlashFree above) (h : segments ∈ entries.files above) :
    SlashFree segments ∧ ∃ name ∈ entries.names, ∃ more, segments = above ++ name :: more := by
  induction entries generalizing above with
  | nil => cases h
  | other name rest ih =>
      obtain ⟨hfree, name', hname', hmore⟩ := ih hnamed.2 habove h
      exact ⟨hfree, name', List.mem_append_right _ hname', hmore⟩
  | file name rest ih =>
      cases name with
      | none => exact ih hnamed.2 habove h
      | some name =>
          rcases List.mem_cons.mp h with rfl | h
          · exact ⟨habove.append (hnamed.1 name rfl).1, name, by simp [names], [], rfl⟩
          · obtain ⟨hfree, name', hname', hmore⟩ := ih hnamed.2 habove h
            exact ⟨hfree, name', List.mem_append_right _ hname', hmore⟩
  | dir name entries rest ihEntries ih =>
      cases name with
      | none => exact ih hnamed.2.2 habove h
      | some name =>
          rcases List.mem_append.mp h with h | h
          · obtain ⟨hfree, name', -, more, rfl⟩ :=
              ihEntries hnamed.2.1 (habove.append (hnamed.1 name rfl).1) h
            exact ⟨hfree, name, by simp [names], name' :: more, by simp⟩
          · obtain ⟨hfree, name', hname', hmore⟩ := ih hnamed.2.2 habove h
            exact ⟨hfree, name', List.mem_append_right _ hname', hmore⟩

/-- Files under different names have different paths. -/
theorem nodup_files {entries : Entries} {above : List Text} (hnamed : entries.WellNamed)
    (habove : SlashFree above) : (entries.files above).Nodup := by
  induction entries generalizing above with
  | nil => exact List.nodup_nil
  | other name rest ih => exact ih hnamed.2 habove
  | file name rest ih =>
      cases name with
      | none => exact ih hnamed.2 habove
      | some name =>
          refine List.nodup_cons.mpr ⟨fun hmem ↦ ?_, ih hnamed.2 habove⟩
          obtain ⟨-, name', hname', more, heq⟩ := files_spec hnamed.2 habove hmem
          have hsame := List.append_cancel_left heq
          cases hsame
          exact (hnamed.1 name rfl).2 hname'
  | dir name entries rest ihEntries ih =>
      cases name with
      | none => exact ih hnamed.2.2 habove
      | some name =>
          have hbelow := habove.append (hnamed.1 name rfl).1
          refine (ihEntries hnamed.2.1 hbelow).append (ih hnamed.2.2 habove) ?_
          intro segments hfirst hsecond
          obtain ⟨-, name', -, more, rfl⟩ := files_spec hnamed.2.1 hbelow hfirst
          obtain ⟨-, name'', hname'', more', heq⟩ := files_spec hnamed.2.2 habove hsecond
          rw [List.append_assoc] at heq
          have hsame := List.append_cancel_left heq
          cases hsame
          exact (hnamed.1 name rfl).2 hname''

end Entries

/-! ## The keys -/

section Keys

variable {uuid : UuidCrate} {limit : ℕ}

theorem keyOf_eq_some {segments : List Text} {key : ObjectKey uuid} :
    keyOf uuid segments = some key ↔ key.raw = List.intercalate ['/'] segments := by
  unfold keyOf
  rw [← ObjectKey.parse_eq_ok]
  cases ObjectKey.parse uuid (List.intercalate ['/'] segments) <;> simp [Except.toOption]

/-- The segments of a key are those of the file, and there are four of them. -/
theorem splitOn_keyOf {segments : List Text} {key : ObjectKey uuid} (hfree : SlashFree segments)
    (hne : segments ≠ []) (h : keyOf uuid segments = some key) :
    key.raw.splitOn '/' = segments ∧ segments.length = 4 := by
  have hsplit : key.raw.splitOn '/' = segments :=
    (Text.splitOn_eq_iff hne).mpr ⟨(keyOf_eq_some.mp h), hfree⟩
  refine ⟨hsplit, ?_⟩
  have hchecked := key.checked
  unfold ObjectKey.check at hchecked
  rw [hsplit] at hchecked
  split at hchecked
  · rfl
  · cases hchecked

theorem keyOf_injective {segments segments' : List Text} {key : ObjectKey uuid}
    (hfree : SlashFree segments) (hfree' : SlashFree segments') (hne : segments ≠ [])
    (hne' : segments' ≠ []) (h : keyOf uuid segments = some key)
    (h' : keyOf uuid segments' = some key) : segments = segments' := by
  rw [← (splitOn_keyOf hfree hne h).1, (splitOn_keyOf hfree' hne' h').1]

namespace Entries

@[simp]
theorem objects_nil (above : List Text) : nil.objects uuid above = [] := rfl

@[simp]
theorem objects_file_none (above : List Text) (rest : Entries) :
    (file none rest).objects uuid above = rest.objects uuid above := rfl

@[simp]
theorem objects_other (name : Option Text) (above : List Text) (rest : Entries) :
    (other name rest).objects uuid above = rest.objects uuid above := rfl

@[simp]
theorem objects_dir_none (above : List Text) (entries rest : Entries) :
    (dir none entries rest).objects uuid above = rest.objects uuid above := rfl

theorem objects_file_some (name : Text) (above : List Text) (rest : Entries) :
    (file (some name) rest).objects uuid above =
      (keyOf uuid (above ++ [name])).toList ++ rest.objects uuid above := by
  unfold objects
  simp only [files, List.filterMap_cons]
  cases keyOf uuid (above ++ [name]) <;> rfl

theorem objects_dir_some (name : Text) (above : List Text) (entries rest : Entries) :
    (dir (some name) entries rest).objects uuid above =
      entries.objects uuid (above ++ [name]) ++ rest.objects uuid above := by
  unfold objects
  simp only [files, List.filterMap_append]

/-- Below the shard directories there are no objects. -/
theorem objects_deep {entries : Entries} {above : List Text} (hnamed : entries.WellNamed)
    (habove : SlashFree above) (hdeep : 4 ≤ above.length) : entries.objects uuid above = [] := by
  refine List.filterMap_eq_nil_iff.mpr fun segments hsegments ↦ ?_
  obtain ⟨hfree, name, -, more, rfl⟩ := files_spec hnamed habove hsegments
  cases hkey : keyOf uuid (above ++ name :: more) with
  | none => rfl
  | some key =>
      have hfour := (splitOn_keyOf hfree (by simp) hkey).2
      rw [List.length_append, List.length_cons] at hfour
      omega

theorem nodup_objects {entries : Entries} {above : List Text} (hnamed : entries.WellNamed)
    (habove : SlashFree above) : (entries.objects uuid above).Nodup := by
  refine List.pairwise_filterMap.mpr ?_
  refine (nodup_files hnamed habove).imp_of_mem fun {segments segments'} h h' hne ↦ ?_
  intro key hkey key' hkey' heq
  obtain ⟨hfree, name, -, more, rfl⟩ := files_spec hnamed habove h
  obtain ⟨hfree', name', -, more', rfl⟩ := files_spec hnamed habove h'
  subst heq
  exact hne (keyOf_injective hfree hfree' (by simp) (by simp) hkey hkey')

end Entries

end Keys

/-! ## The walk -/

/-- `result` adds some of the remaining objects to the keys: all of them, unless
the limit is reached. -/
def Collects {κ : Type} (limit : ℕ) (keys remaining : List κ) (result : List κ × Bool) : Prop :=
  ∃ found, result.1 = keys ++ found ∧ found.Subperm remaining ∧
    result.1.length = min limit (keys.length + remaining.length) ∧
    (result.2 = true ↔ limit ≤ keys.length + remaining.length)

namespace Collects

variable {κ : Type} {limit : ℕ} {keys remaining remaining' : List κ} {result : List κ × Bool}

theorem nothing (hlimit : keys.length < limit) : Collects limit keys [] (keys, false) := by
  refine ⟨[], by simp, List.Subperm.refl _, ?_, ?_⟩
  · simp only [List.length_nil]
    omega
  · simp only [List.length_nil, Bool.false_eq_true, false_iff]
    omega

/-- The order in which the objects are to be read does not matter. -/
theorem perm (h : Collects limit keys remaining result) (hperm : remaining.Perm remaining') :
    Collects limit keys remaining' result := by
  obtain ⟨found, hkeys, hfound, hlength, hflag⟩ := h
  rw [hperm.length_eq] at hlength hflag
  exact ⟨found, hkeys, hfound.trans hperm.subperm, hlength, hflag⟩

theorem next {key : κ} (h : Collects limit (keys ++ [key]) remaining result) :
    Collects limit keys (key :: remaining) result := by
  obtain ⟨found, hkeys, hfound, hlength, hflag⟩ := h
  have htotal : (keys ++ [key]).length + remaining.length
      = keys.length + (key :: remaining).length := by
    simp only [List.length_append, List.length_cons, List.length_nil]
    omega
  rw [htotal] at hlength hflag
  exact ⟨key :: found, by rw [hkeys, List.append_assoc]; rfl, (List.subperm_cons key).mpr hfound,
    hlength, hflag⟩

theorem full {key : κ} (hbefore : keys.length < limit)
    (hlimit : limit ≤ (keys ++ [key]).length) :
    Collects limit keys (key :: remaining) (keys ++ [key], true) := by
  rw [List.length_append, List.length_singleton] at hlimit
  refine ⟨[key], rfl, ?_, ?_, ?_⟩
  · exact (List.subperm_cons key).mpr (List.nil_subperm)
  · simp only [List.length_append, List.length_cons, List.length_nil]
    omega
  · simp only [List.length_cons, true_iff]
    omega

end Collects

section Walk

variable {uuid : UuidCrate} {limit : ℕ}

/-- The objects in the directories that are still to be read. -/
def waiting (uuid : UuidCrate) (stack : List Frame) : List (ObjectKey uuid) :=
  stack.flatMap fun frame ↦ frame.1.objects uuid frame.2

/-- What is known of a directory that is to be read. -/
def Frame.Known (frame : Frame) : Prop := frame.1.WellNamed ∧ SlashFree frame.2

theorem walk_spec {entries : Entries} {above : List Text} {stack : List Frame}
    {keys : List (ObjectKey uuid)} (hlimit : keys.length < limit)
    (hdir : Frame.Known (entries, above)) (hstack : ∀ frame ∈ stack, frame.Known) :
    Collects limit keys (entries.objects uuid above ++ waiting uuid stack)
      (walk uuid limit entries above stack keys) := by
  fun_induction walk uuid limit entries above stack keys with
  | case1 above keys => exact Collects.nothing hlimit
  | case2 above keys dir segments stack ih =>
      have hknown := hstack _ List.mem_cons_self
      exact ih hlimit hknown fun frame hframe ↦ hstack frame (List.mem_cons_of_mem _ hframe)
  | case3 rest above stack keys ih => exact ih hlimit ⟨hdir.1.2, hdir.2⟩ hstack
  | case4 name rest above stack keys ih => exact ih hlimit ⟨hdir.1.2, hdir.2⟩ hstack
  | case5 entries rest above stack keys ih => exact ih hlimit ⟨hdir.1.2.2, hdir.2⟩ hstack
  | case6 name entries rest above stack keys segments hshallow ih =>
      have hsegments := hdir.2.append (hdir.1.1 name rfl).1
      have hpushed := ih hlimit ⟨hdir.1.2.2, hdir.2⟩ fun frame hframe ↦ by
        rcases List.mem_cons.mp hframe with rfl | hframe
        · exact ⟨hdir.1.2.1, hsegments⟩
        · exact hstack frame hframe
      refine hpushed.perm ?_
      rw [Entries.objects_dir_some, List.append_assoc]
      exact List.perm_append_comm_assoc _ _ _
  | case7 name entries rest above stack keys segments hdeep ih =>
      have hempty : entries.objects uuid (above ++ [name]) = [] :=
        Entries.objects_deep hdir.1.2.1 (hdir.2.append (hdir.1.1 name rfl).1)
          (Nat.lt_of_not_le hdeep)
      rw [Entries.objects_dir_some, hempty]
      exact ih hlimit ⟨hdir.1.2.2, hdir.2⟩ hstack
  | case8 name rest above stack keys hkey ih =>
      rw [Entries.objects_file_some, hkey]
      exact ih hlimit ⟨hdir.1.2, hdir.2⟩ hstack
  | case9 name rest above stack keys key hkey keys' hfull =>
      rw [Entries.objects_file_some, hkey]
      exact Collects.full hlimit hfull
  | case10 name rest above stack keys key hkey keys' hroom ih =>
      rw [Entries.objects_file_some, hkey]
      exact (ih (by omega) ⟨hdir.1.2, hdir.2⟩ hstack).next

end Walk

/-! ## The listing -/

/-- The directory tree under the objects root. -/
structure ObjectsTree where
  entries : Entries
  wellNamed : entries.WellNamed

section Listing

variable (uuid : UuidCrate) {limit : ℕ}

/-- The objects of a tree. -/
def ObjectsTree.objects (tree : ObjectsTree) : List (ObjectKey uuid) :=
  tree.entries.objects uuid []

/-- As many distinct objects as the limit allows, and the flag says whether
there are more. -/
structure ExactListing {κ : Type} (limit : ℕ) (objects : List κ) (listing : List κ × Bool) :
    Prop where
  distinct : listing.1.Nodup
  known : ∀ key ∈ listing.1, key ∈ objects
  bounded : listing.1.length = min limit objects.length
  truncated_iff : listing.2 = true ↔ limit < objects.length

theorem listObjects_zero (root : Entries) : listObjects uuid 0 root = ([], false) := rfl

/-- With a positive limit the flag is set as soon as the limit is reached. -/
theorem listObjects_spec (hlimit : 0 < limit) (tree : ObjectsTree) :
    (listObjects uuid limit tree.entries).1.Subperm (tree.objects uuid) ∧
      (listObjects uuid limit tree.entries).1.length = min limit (tree.objects uuid).length ∧
      ((listObjects uuid limit tree.entries).2 = true ↔ limit ≤ (tree.objects uuid).length) := by
  have hroot : Frame.Known (tree.entries, []) := ⟨tree.wellNamed, by simp [SlashFree]⟩
  have hnil : Frame.Known (.nil, []) := ⟨trivial, by simp [SlashFree]⟩
  have hwaiting : Entries.nil.objects uuid [] ++ waiting uuid [(tree.entries, [])]
      = tree.objects uuid := by simp [waiting, ObjectsTree.objects]
  have hwalk : Collects limit [] (tree.objects uuid)
      (walk uuid limit .nil [] [(tree.entries, [])] []) := by
    rw [← hwaiting]
    exact walk_spec hlimit hnil (by simpa using hroot)
  obtain ⟨found, hkeys, hfound, hlength, hflag⟩ := hwalk
  rw [List.length_nil, Nat.zero_add] at hlength hflag
  rw [List.nil_append] at hkeys
  unfold listObjects
  rw [if_neg (by omega)]
  exact ⟨hkeys ▸ hfound, hlength, hflag⟩

theorem listObjects_subperm (tree : ObjectsTree) :
    (listObjects uuid limit tree.entries).1.Subperm (tree.objects uuid) ∧
      (listObjects uuid limit tree.entries).1.length = min limit (tree.objects uuid).length := by
  rcases Nat.eq_zero_or_pos limit with rfl | hpos
  · rw [listObjects_zero, Nat.zero_min]
    exact ⟨List.nil_subperm, rfl⟩
  · obtain ⟨hfound, hlength, -⟩ := listObjects_spec uuid hpos tree
    exact ⟨hfound, hlength⟩

theorem nodup_listObjects (tree : ObjectsTree) :
    (listObjects uuid limit tree.entries).1.Nodup := by
  obtain ⟨part, hperm, hsub⟩ := (listObjects_subperm uuid tree).1
  have hnodup : (tree.objects uuid).Nodup :=
    Entries.nodup_objects tree.wellNamed (by simp [SlashFree])
  exact hperm.nodup_iff.mp (hsub.nodup hnodup)

/-- The listing is exact unless the objects are as many as the limit, or the
limit is zero and there are objects. -/
theorem list_objects_exact_iff (limit : ℕ) (tree : ObjectsTree) :
    ExactListing limit (tree.objects uuid) (listObjects uuid limit tree.entries) ↔
      ((tree.objects uuid).length = limit ↔ limit = 0) := by
  have ⟨hfound, hlength⟩ := @listObjects_subperm uuid limit tree
  have hflag : ((listObjects uuid limit tree.entries).2 = true ↔ limit < (tree.objects uuid).length)
      ↔ ((tree.objects uuid).length = limit ↔ limit = 0) := by
    rcases Nat.eq_zero_or_pos limit with rfl | hpos
    · simp only [listObjects_zero, Bool.false_eq_true, false_iff, not_lt, iff_true]
      omega
    · rw [(listObjects_spec uuid hpos tree).2.2]
      omega
  exact ⟨fun h ↦ hflag.mp h.truncated_iff, fun h ↦ ⟨nodup_listObjects uuid tree,
    fun key hkey ↦ hfound.subset hkey, hlength, hflag.mpr h⟩⟩

end Listing

/-- A tree with one file at the level of the objects. -/
def ObjectsTree.branch (bureau partner shard digest : Text)
    (h : ∀ name ∈ [bureau, partner, shard, digest], '/' ∉ name) : ObjectsTree where
  entries := .dir (some bureau) (.dir (some partner) (.dir (some shard)
    (.file (some digest) .nil) .nil) .nil) .nil
  wellNamed := by simpa [Entries.WellNamed, Entries.names] using h

theorem ObjectsTree.files_branch {bureau partner shard digest : Text}
    (h : ∀ name ∈ [bureau, partner, shard, digest], '/' ∉ name) :
    (branch bureau partner shard digest h).entries.files [] =
      [[bureau, partner, shard, digest]] := rfl

/-- Every key is the only object of some tree. -/
theorem ObjectKey.exists_tree {uuid : UuidCrate} (key : ObjectKey uuid) :
    ∃ tree : ObjectsTree, tree.objects uuid = [key] ∧
      tree.entries.files [] = [key.raw.splitOn '/'] := by
  obtain ⟨bureau, partner, digest, u, v, hu, hv, hdigest, hraw⟩ := check_eq_ok_iff.mp key.checked
  have hsplit := splitOn_path hu.slash_notMem hv.slash_notMem hdigest.slash_notMem
  rw [← hraw] at hsplit
  have hfree := ((Text.splitOn_eq_iff (by simp)).mp hsplit).2
  have hkey : keyOf uuid _ = some key :=
    keyOf_eq_some.mpr ((Text.splitOn_eq_iff (by simp)).mp hsplit).1
  refine ⟨.branch _ _ _ _ hfree, ?_, ?_⟩
  · rw [ObjectsTree.objects, Entries.objects, ObjectsTree.files_branch]
    simp [hkey]
  · rw [ObjectsTree.files_branch, hsplit]

theorem listObjects_lone {uuid : UuidCrate} {limit : ℕ} (hlimit : 1 < limit) {tree : ObjectsTree}
    {key : ObjectKey uuid} (h : tree.objects uuid = [key]) :
    listObjects uuid limit tree.entries = ([key], false) := by
  obtain ⟨hfound, hlength, hflag⟩ := listObjects_spec uuid (Nat.zero_lt_of_lt hlimit) tree
  rw [h, List.length_singleton] at hflag hlength
  rw [h] at hfound
  have hone : [key].length ≤ (listObjects uuid limit tree.entries).1.length := by
    rw [hlength, List.length_singleton]
    omega
  have hkeys := (hfound.perm_of_length_le hone).eq_singleton
  have hlast : (listObjects uuid limit tree.entries).2 = false := by
    rw [← Bool.not_eq_true, hflag]
    omega
  exact Prod.ext hkeys hlast

/-- A tree with a single object. -/
def ObjectsTree.single : ObjectsTree :=
  .branch "bureau-00000000-0000-0000-0000-000000000001".toList
    "partner-00000000-0000-0000-0000-000000000002".toList "00".toList (List.replicate 64 '0')
    (by decide +kernel)

theorem single_objects : (ObjectsTree.single.objects .reference).length = 1 := by decide +kernel

/-- The listing of a single object stops at the limit one, with nothing left. -/
theorem single_listing_not_exact :
    ¬ ExactListing 1 (ObjectsTree.single.objects .reference)
      (listObjects .reference 1 ObjectsTree.single.entries) := by
  intro h
  have hflag := (listObjects_spec .reference Nat.one_pos ObjectsTree.single).2.2
  rw [single_objects] at hflag
  have hmore := h.truncated_iff.mp (hflag.mpr le_rfl)
  rw [single_objects] at hmore
  exact absurd hmore (by decide)

end Otdel
