import Otdel.Library.UnixPath
import Otdel.Storage.Key

/-!
# Where a key leads

`ObjectKey::resolve_within` on path texts, for a key of any text.
-/

namespace Otdel.ObjectKey

open UnixPath (push startsWith Plain)

def pushPart (path segment : Text) : Except StorageError Text :=
  match UnixPath.components segment with
  | [.normal part] => .ok (push path part)
  | _ => .error (.invalidKey "key segment is not a plain path component")

/-- `resolve_within`, with the root and the result as the texts they are. -/
def resolvePath (root raw : Text) : Except StorageError Text := do
  let path ← (raw.splitOn '/').foldlM pushPart root
  if startsWith path root then .ok path
  else .error (.invalidKey "resolved path escapes the storage root")

/-- The root, and one plain component for every segment. -/
structure Inside (root raw path : Text) : Prop where
  segments : raw.splitOn '/' ≠ []
  plain : ∀ segment ∈ raw.splitOn '/', Plain segment
  components : UnixPath.components path =
    UnixPath.components root ++ (raw.splitOn '/').map UnixPath.Component.normal

theorem pushPart_eq_ok {path segment path' : Text} (hslash : '/' ∉ segment) :
    pushPart path segment = .ok path' ↔ Plain segment ∧ path' = push path segment := by
  unfold pushPart
  constructor
  · intro h
    split at h
    · rename_i part hpart
      obtain ⟨rfl, hplain⟩ := (UnixPath.components_eq_single hslash).mp hpart
      cases h
      exact ⟨hplain, rfl⟩
    · cases h
  · rintro ⟨hplain, rfl⟩
    rw [(UnixPath.components_eq_single hslash).mpr ⟨rfl, hplain⟩]

theorem foldlM_pushPart {segments : List Text} {root path : Text}
    (hslash : ∀ segment ∈ segments, '/' ∉ segment) :
    segments.foldlM pushPart root = .ok path ↔
      (∀ segment ∈ segments, Plain segment) ∧ path = segments.foldl push root := by
  induction segments generalizing root with
  | nil => simp [pure, Except.pure, eq_comm]
  | cons segment segments ih =>
      have hrest := fun other hother ↦ hslash other (List.mem_cons_of_mem segment hother)
      rw [List.foldlM_cons, List.foldl_cons]
      constructor
      · intro h
        cases hpart : pushPart root segment with
        | error e =>
            rw [hpart] at h
            cases h
        | ok path₁ =>
            rw [hpart] at h
            obtain ⟨hplain, rfl⟩ :=
              (pushPart_eq_ok (hslash segment List.mem_cons_self)).mp hpart
            obtain ⟨hplains, rfl⟩ := (ih hrest).mp h
            exact ⟨List.forall_mem_cons.mpr ⟨hplain, hplains⟩, rfl⟩
      · rintro ⟨hplain, rfl⟩
        obtain ⟨hfirst, hplains⟩ := List.forall_mem_cons.mp hplain
        rw [(pushPart_eq_ok (hslash segment List.mem_cons_self)).mpr ⟨hfirst, rfl⟩]
        exact (ih hrest).mpr ⟨hplains, rfl⟩

/-- Every push adds its component. -/
theorem components_foldl_push {segments : List Text} (root : Text)
    (h : ∀ segment ∈ segments, Plain segment) :
    UnixPath.components (segments.foldl push root) =
      UnixPath.components root ++ segments.map UnixPath.Component.normal := by
  induction segments generalizing root with
  | nil => simp
  | cons segment segments ih =>
      obtain ⟨hfirst, hrest⟩ := List.forall_mem_cons.mp h
      rw [List.foldl_cons, ih _ hrest, UnixPath.components_push hfirst, List.map_cons,
        List.append_assoc, List.singleton_append]

/-- A key resolves exactly when its segments are plain; the last check never
fails. -/
theorem resolvePath_eq_ok {root raw path : Text} :
    resolvePath root raw = .ok path ↔
      (∀ segment ∈ raw.splitOn '/', Plain segment) ∧ path = (raw.splitOn '/').foldl push root := by
  have hslash : ∀ segment ∈ raw.splitOn '/', '/' ∉ segment :=
    fun _ h ↦ Text.notMem_of_mem_splitOn h
  unfold resolvePath
  constructor
  · intro h
    cases hfold : (raw.splitOn '/').foldlM pushPart root with
    | error e =>
        rw [hfold] at h
        cases h
    | ok path₁ =>
        rw [hfold] at h
        obtain ⟨hplain, rfl⟩ := (foldlM_pushPart hslash).mp hfold
        simp only [bind, Except.bind] at h
        split at h <;> cases h
        exact ⟨hplain, rfl⟩
  · rintro ⟨hplain, rfl⟩
    have hstarts : startsWith ((raw.splitOn '/').foldl push root) root = true := by
      rw [UnixPath.startsWith_iff, components_foldl_push root hplain]
      exact List.prefix_append _ _
    rw [(foldlM_pushPart hslash).mpr ⟨hplain, rfl⟩]
    simp only [bind, Except.bind, hstarts, if_true]

theorem Inside.of_resolvePath {root raw path : Text} (h : resolvePath root raw = .ok path) :
    Inside root raw path := by
  obtain ⟨hplain, rfl⟩ := resolvePath_eq_ok.mp h
  exact ⟨List.splitOn_ne_nil _ _, hplain, components_foldl_push root hplain⟩

variable {uuid : UuidCrate}

/-- The segments of a validated key are plain, and there are four of them. -/
theorem plain_segments (key : ObjectKey uuid) :
    (key.raw.splitOn '/').length = 4 ∧ ∀ segment ∈ key.raw.splitOn '/', Plain segment := by
  obtain ⟨bureau, partner, digest, u, v, hu, hv, hdigest, hraw⟩ := check_eq_ok_iff.mp key.checked
  have hslash : ∀ segment ∈ key.raw.splitOn '/', '/' ∉ segment :=
    fun _ h ↦ Text.notMem_of_mem_splitOn h
  rw [hraw, splitOn_path hu.slash_notMem hv.slash_notMem hdigest.slash_notMem] at hslash ⊢
  refine ⟨rfl, fun segment hsegment ↦ ?_⟩
  have hfree := hslash segment hsegment
  have hlong : 2 < segment.length ∨ segment = digest.take 2 := by
    simp only [List.mem_cons, List.not_mem_nil, or_false] at hsegment
    rcases hsegment with rfl | rfl | rfl | rfl
    · exact Or.inl (by rw [List.length_append]; exact Nat.lt_add_right _ (by decide))
    · exact Or.inl (by rw [List.length_append]; exact Nat.lt_add_right _ (by decide))
    · exact Or.inr rfl
    · exact Or.inl (by rw [hdigest.1]; decide)
  rcases hlong with hlong | rfl
  · refine ⟨?_, ?_, ?_, hfree⟩ <;>
    · rintro rfl
      exact absurd hlong (by decide)
  · obtain ⟨hlength, hchars⟩ := hdigest.shard
    refine ⟨?_, ?_, ?_, hfree⟩
    · intro hnil
      rw [hnil] at hlength
      cases hlength
    · intro hdot
      rw [hdot] at hlength
      cases hlength
    · intro hdots
      exact absurd (hchars '.' (by simp [hdots])) (by decide)

theorem resolvePath_raw (root : Text) (key : ObjectKey uuid) :
    resolvePath root key.raw = .ok ((key.raw.splitOn '/').foldl push root) :=
  resolvePath_eq_ok.mpr ⟨(plain_segments key).2, rfl⟩

/-- On component lists it is the same resolution. -/
theorem resolveWithin_of_resolvePath {root raw path : Text} (names : Path)
    (h : resolvePath root raw = .ok path) :
    resolveWithin names raw = .ok (names ++ raw.splitOn '/') := by
  obtain ⟨hplain, -⟩ := resolvePath_eq_ok.mp h
  have hfold : ∀ (segments : List Text) (names : Path), (∀ segment ∈ segments, Plain segment) →
      segments.foldlM pushSegment names = .ok (names ++ segments) := by
    intro segments
    induction segments with
    | nil => exact fun names _ ↦ by simp [pure, Except.pure]
    | cons segment segments ih =>
        intro names h
        obtain ⟨hfirst, hrest⟩ := List.forall_mem_cons.mp h
        rw [List.foldlM_cons, pushSegment_normal hfirst.1 hfirst.2.1 hfirst.2.2.1]
        exact (ih _ hrest).trans (by rw [List.append_assoc, List.singleton_append])
  rw [resolveWithin, hfold _ names hplain]
  simp [bind, Except.bind]

/-- Whatever text a key holds, it leads strictly inside the root or nowhere; a
validated key leads there by four components, and to no other key's place. -/
theorem resolve_within_stays_inside (uuid : UuidCrate) (root : Text) :
    (∀ raw path, resolvePath root raw = .ok path → Inside root raw path) ∧
      (∀ key : ObjectKey uuid, ∃ (path : Text) (names : List Text), resolvePath root key.raw = .ok path ∧
        names.length = 4 ∧ UnixPath.components path =
          UnixPath.components root ++ names.map UnixPath.Component.normal) ∧
      ∀ (k l : ObjectKey uuid) (path path' : Text), resolvePath root k.raw = .ok path →
        resolvePath root l.raw = .ok path' →
          UnixPath.components path = UnixPath.components path' → k = l := by
  refine ⟨fun raw path ↦ Inside.of_resolvePath, fun key ↦ ?_, fun k l path path' hk hl heq ↦ ?_⟩
  · have hresolved := resolvePath_raw root key
    exact ⟨_, key.raw.splitOn '/', hresolved, (plain_segments key).1,
      (Inside.of_resolvePath hresolved).components⟩
  · rw [(Inside.of_resolvePath hk).components, (Inside.of_resolvePath hl).components] at heq
    have hnormal : Function.Injective UnixPath.Component.normal := fun _ _ h ↦
      UnixPath.Component.normal.inj h
    have hsplit := hnormal.list_map (List.append_cancel_left heq)
    exact ext_raw (Text.splitOn_injective '/' hsplit)

end Otdel.ObjectKey
