import Otdel.Core.Uuid
import Otdel.Storage.Error

/-!
# Object keys

`bureau-<uuid>/partner-<uuid>/<first two hex chars>/<sha256>`: the only thing
that decides where bytes are written.
-/

namespace Otdel

/-- The components of a path. -/
abbrev Path := List Text

def isLowerHex (byte : UInt8) : Bool :=
  (48 ≤ byte && byte ≤ 57) || (97 ≤ byte && byte ≤ 102)

def isSha256Hex (value : Text) : Bool :=
  decide (Text.byteLength value = 64) && (Text.utf8Bytes value).all isLowerHex

/-- Tenant namespace of an object: bureau (workspace) and partner. -/
@[ext]
structure ObjectNamespace where
  bureauId : Uuid
  partnerId : Uuid
  deriving DecidableEq

namespace ObjectKey

def bureauPrefix : Text := "bureau-".toList

def partnerPrefix : Text := "partner-".toList

/-- The checks of `ObjectKey::parse`, in its order. -/
def check (uuid : UuidCrate) (raw : Text) : Except StorageError Unit :=
  match raw.splitOn '/' with
  | [part₀, part₁, part₂, part₃] => do
      let bureau ← okOr (.invalidKey "first segment must be `bureau-<uuid>`")
        (Text.stripPrefix bureauPrefix part₀)
      let _ ← okOr (.invalidKey "bureau segment is not a UUID") (uuid.parseStr bureau)
      let partner ← okOr (.invalidKey "second segment must be `partner-<uuid>`")
        (Text.stripPrefix partnerPrefix part₁)
      let _ ← okOr (.invalidKey "partner segment is not a UUID") (uuid.parseStr partner)
      if Text.byteLength part₂ ≠ 2 ∨ (Text.utf8Bytes part₂).all isLowerHex = false then
        .error (.invalidKey "third segment must be two lowercase hex characters")
      else if isSha256Hex part₃ = false then
        .error (.invalidKey "fourth segment must be a 64-character lowercase hex digest")
      else if part₂ ≠ part₃.take 2 then
        .error (.invalidKey "shard segment does not match the digest")
      else .ok ()
  | _ => .error (.invalidKey "key must have exactly four segments")

end ObjectKey

/-- A validated storage key: the constructor is private to the module, `parse`
is the only way to one. -/
structure ObjectKey (uuid : UuidCrate) where
  raw : Text
  checked : ObjectKey.check uuid raw = .ok ()

namespace ObjectKey

variable {uuid : UuidCrate}

@[ext]
theorem ext_raw {k l : ObjectKey uuid} (h : k.raw = l.raw) : k = l := by
  cases k
  cases l
  cases h
  rfl

instance : DecidableEq (ObjectKey uuid) := fun _ _ ↦ decidable_of_iff _ ⟨ext_raw, congrArg raw⟩

def parse (uuid : UuidCrate) (raw : Text) : Except StorageError (ObjectKey uuid) :=
  match h : check uuid raw with
  | .ok () => .ok ⟨raw, h⟩
  | .error e => .error e

theorem parse_eq_ok {raw : Text} {k : ObjectKey uuid} :
    parse uuid raw = .ok k ↔ k.raw = raw := by
  unfold parse
  split
  · rename_i h
    rw [Except.ok.injEq]
    constructor
    · rintro rfl
      rfl
    · rintro rfl
      rfl
  · rename_i e h
    constructor
    · intro hfalse
      cases hfalse
    · rintro rfl
      rw [k.checked] at h
      cases h

theorem parse_raw (k : ObjectKey uuid) : parse uuid k.raw = .ok k := parse_eq_ok.mpr rfl

theorem exists_parse_iff {raw : Text} :
    (∃ k, parse uuid raw = .ok k) ↔ check uuid raw = .ok () := by
  constructor
  · rintro ⟨k, hk⟩
    rw [← parse_eq_ok.mp hk]
    exact k.checked
  · intro h
    exact ⟨⟨raw, h⟩, parse_eq_ok.mpr rfl⟩

/-- What `Path::components` makes of a text without separators. -/
inductive PathComponent where
  | curDir
  | parentDir
  | normal (name : Text)

def components (segment : Text) : List PathComponent :=
  if segment = [] then []
  else if segment = ".".toList then [.curDir]
  else if segment = "..".toList then [.parentDir]
  else [.normal segment]

def pushSegment (path : Path) (segment : Text) : Except StorageError Path :=
  match components segment with
  | [.normal part] => .ok (path ++ [part])
  | _ => .error (.invalidKey "key segment is not a plain path component")

/-- Resolve a key against `root`, rejecting anything that is not strictly
inside it. -/
def resolveWithin (root : Path) (raw : Text) : Except StorageError Path := do
  let path ← (raw.splitOn '/').foldlM pushSegment root
  if root.isPrefixOf path then .ok path
  else .error (.invalidKey "resolved path escapes the storage root")

/-- The last segment. -/
def digest (k : ObjectKey uuid) : Text := (k.raw.splitOn '/').getLast?.getD []

/-- Namespace this key belongs to, recovered from the key itself. -/
def namespaceOf (k : ObjectKey uuid) : Except StorageError ObjectNamespace := do
  let parts := k.raw.splitOn '/'
  let bureau ← okOr (.invalidKey "missing bureau segment")
    (((parts[0]?).bind (Text.stripPrefix bureauPrefix)).bind uuid.parseStr)
  let partner ← okOr (.invalidKey "missing partner segment")
    (((parts[1]?).bind (Text.stripPrefix partnerPrefix)).bind uuid.parseStr)
  return ⟨bureau, partner⟩

end ObjectKey

/-- `bureau-{}/partner-{}/{}/{}` with the shard of the digest. -/
def ObjectKey.path (bureau partner digest : Text) : Text :=
  (ObjectKey.bureauPrefix ++ bureau) ++ '/' :: ((ObjectKey.partnerPrefix ++ partner) ++
    '/' :: (digest.take 2 ++ '/' :: digest))

/-- The text `key_for_digest` formats. -/
def ObjectNamespace.keyText (uuid : UuidCrate) (n : ObjectNamespace) (digest : Text) : Text :=
  ObjectKey.path (uuid.display n.bureauId) (uuid.display n.partnerId) digest

def ObjectNamespace.keyForDigest (uuid : UuidCrate) (n : ObjectNamespace) (sha256Hex : Text) :
    Except StorageError (ObjectKey uuid) :=
  if isSha256Hex sha256Hex = false then
    .error (.invalidKey "content digest is not a 64-character lowercase hex string")
  else ObjectKey.parse uuid (n.keyText uuid sha256Hex)

/-! ## Digests -/

theorem ascii_of_isLowerHex : ∀ byte : UInt8, isLowerHex byte = true → byte.toNat < 128 := by
  intro byte h
  simp only [isLowerHex, Bool.or_eq_true, Bool.and_eq_true, decide_eq_true_eq,
    UInt8.le_iff_toNat_le] at h
  rcases h with ⟨-, h⟩ | ⟨-, h⟩
  · exact lt_of_le_of_lt h (by decide)
  · exact lt_of_le_of_lt h (by decide)

/-- The lowercase hexadecimal characters. -/
def lowerHex : Text := "0123456789abcdef".toList

/-- 64 lowercase hexadecimal characters. -/
def IsDigest (digest : Text) : Prop := digest.length = 64 ∧ ∀ c ∈ digest, c ∈ lowerHex

theorem ofNat_mem_lowerHex {n : ℕ} (h : n < 128) (hhex : isLowerHex (UInt8.ofNat n) = true) :
    Char.ofNat n ∈ lowerHex := by
  have hrange : (48 ≤ n ∧ n ≤ 57) ∨ (97 ≤ n ∧ n ≤ 102) := by
    simpa [isLowerHex, UInt8.le_iff_toNat_le, Nat.mod_eq_of_lt (show n < 256 by omega)]
      using hhex
  rcases hrange with ⟨hlow, hhigh⟩ | ⟨hlow, hhigh⟩
  · interval_cases n <;> decide
  · interval_cases n <;> decide

theorem asciiClass_isLowerHex (c : Char) :
    Text.asciiClass isLowerHex c = true ↔ c ∈ lowerHex := by
  constructor
  · intro h
    simp only [Text.asciiClass, Bool.and_eq_true, decide_eq_true_eq] at h
    obtain ⟨hsize, hclass⟩ := h
    have hsmall : c.toNat ≤ 127 := Char.utf8Size_eq_one_iff.mp hsize
    have hc := ofNat_mem_lowerHex (Nat.lt_succ_of_le hsmall) hclass
    rwa [Char.ofNat_toNat] at hc
  · have hall : lowerHex.all (Text.asciiClass isLowerHex) = true := by decide
    exact List.all_eq_true.mp hall c

theorem isSha256Hex_iff {digest : Text} : isSha256Hex digest = true ↔ IsDigest digest := by
  rw [isSha256Hex, Bool.and_eq_true, decide_eq_true_eq,
    Text.bytes_check_iff ascii_of_isLowerHex, List.all_eq_true, IsDigest]
  simp only [asciiClass_isLowerHex]

theorem shard_check_iff {shard : Text} :
    ¬ (Text.byteLength shard ≠ 2 ∨ (Text.utf8Bytes shard).all isLowerHex = false) ↔
      shard.length = 2 ∧ ∀ c ∈ shard, c ∈ lowerHex := by
  rw [not_or, not_not, Bool.not_eq_false, Text.bytes_check_iff ascii_of_isLowerHex,
    List.all_eq_true]
  simp only [asciiClass_isLowerHex]

theorem IsDigest.slash_notMem {digest : Text} (h : IsDigest digest) : '/' ∉ digest := by
  intro hmem
  exact absurd (h.2 _ hmem) (by decide)

/-- The first two characters of a digest pass the shard check. -/
theorem IsDigest.shard {digest : Text} (h : IsDigest digest) :
    (digest.take 2).length = 2 ∧ ∀ c ∈ digest.take 2, c ∈ lowerHex :=
  ⟨by simp [h.1], fun c hc ↦ h.2 c (List.mem_of_mem_take hc)⟩

/-! ## The accepted texts -/

namespace ObjectKey

variable {uuid : UuidCrate}

theorem splitOn_path {bureau partner digest : Text} (hbureau : '/' ∉ bureau)
    (hpartner : '/' ∉ partner) (hdigest : '/' ∉ digest) :
    (path bureau partner digest).splitOn '/' =
      [bureauPrefix ++ bureau, partnerPrefix ++ partner, digest.take 2, digest] := by
  rw [Text.splitOn_eq_iff (by simp)]
  refine ⟨by simp [path, List.intercalate], ?_⟩
  intro piece hpiece
  simp only [List.mem_cons, List.not_mem_nil, or_false] at hpiece
  rcases hpiece with rfl | rfl | rfl | rfl
  · rw [List.mem_append, not_or]
    exact ⟨by decide, hbureau⟩
  · rw [List.mem_append, not_or]
    exact ⟨by decide, hpartner⟩
  · exact fun h ↦ hdigest (List.mem_of_mem_take h)
  · exact hdigest

/-- The accepted texts: two UUIDs in any documented form, a digest and its
shard. -/
theorem check_eq_ok_iff {raw : Text} :
    check uuid raw = .ok () ↔ ∃ bureau partner digest : Text, ∃ u v : Uuid,
      u.IsForm bureau ∧ v.IsForm partner ∧ IsDigest digest ∧
        raw = path bureau partner digest := by
  constructor
  · intro h
    unfold check at h
    split at h
    · rename_i part₀ part₁ part₂ part₃ hsplit
      simp only [okOr_bind_eq_ok, guard_eq_ok, shard_check_iff, Bool.not_eq_false, not_not,
        isSha256Hex_iff, Text.stripPrefix_eq_some, uuid.parseStr_eq_some_iff] at h
      obtain ⟨bureau, rfl, u, hu, partner, rfl, v, hv, -, hdigest, hshard, -⟩ := h
      refine ⟨bureau, partner, part₃, u, v, hu, hv, hdigest, ?_⟩
      rw [((Text.splitOn_eq_iff (by simp)).mp hsplit).1, hshard]
      simp [path, List.intercalate]
    · cases h
  · rintro ⟨bureau, partner, digest, u, v, hu, hv, hdigest, rfl⟩
    unfold check
    rw [splitOn_path hu.slash_notMem hv.slash_notMem hdigest.slash_notMem]
    simp only [okOr_bind_eq_ok, guard_eq_ok, shard_check_iff, Bool.not_eq_false, not_not,
      isSha256Hex_iff, Text.stripPrefix_append, Option.some.injEq, exists_eq_left',
      uuid.parseStr_eq_some_iff, and_true]
    exact ⟨u, hu, v, hv, hdigest.shard, hdigest⟩

theorem pushSegment_normal {segment : Text} (hempty : segment ≠ [])
    (hdot : segment ≠ ".".toList) (hdots : segment ≠ "..".toList) (path : Path) :
    pushSegment path segment = .ok (path ++ [segment]) := by
  rw [pushSegment, components, if_neg hempty, if_neg hdot, if_neg hdots]

theorem pushSegment_of_length {segment : Text} (h : 2 < segment.length) (path : Path) :
    pushSegment path segment = .ok (path ++ [segment]) := by
  apply pushSegment_normal
  · rintro rfl
    exact absurd h (by decide)
  · rintro rfl
    exact absurd h (by decide)
  · rintro rfl
    exact absurd h (by decide)

theorem pushSegment_shard {digest : Text} (h : IsDigest digest) (path : Path) :
    pushSegment path (digest.take 2) = .ok (path ++ [digest.take 2]) := by
  obtain ⟨hlen, hchars⟩ := h.shard
  apply pushSegment_normal
  · intro hempty
    simp [hempty] at hlen
  · intro hdot
    simp [hdot] at hlen
  · intro hdots
    have hmem : '.' ∈ digest.take 2 := by simp [hdots]
    exact absurd (hchars '.' hmem) (by decide)

/-- A validated key resolves to its segments below the root. -/
theorem resolveWithin_raw (root : Path) (k : ObjectKey uuid) :
    resolveWithin root k.raw = .ok (root ++ k.raw.splitOn '/') := by
  obtain ⟨bureau, partner, digest, u, v, hu, hv, hdigest, hraw⟩ := check_eq_ok_iff.mp k.checked
  have hsplit := splitOn_path hu.slash_notMem hv.slash_notMem hdigest.slash_notMem
  have hbureau : 2 < (bureauPrefix ++ bureau).length := by
    rw [List.length_append]
    exact Nat.lt_add_right _ (by decide)
  have hpartner : 2 < (partnerPrefix ++ partner).length := by
    rw [List.length_append]
    exact Nat.lt_add_right _ (by decide)
  have hlong : 2 < digest.length := by
    rw [hdigest.1]
    decide
  rw [resolveWithin, hraw, hsplit]
  simp only [List.foldlM_cons, List.foldlM_nil, pushSegment_of_length hbureau,
    pushSegment_of_length hpartner, pushSegment_of_length hlong, pushSegment_shard hdigest]
  simp [bind, Except.bind, pure, Except.pure]

/-- A key tells its digest and namespace apart. -/
theorem readBack {bureau partner digest : Text} {u v : Uuid} (hu : u.IsForm bureau)
    (hv : v.IsForm partner) (hdigest : IsDigest digest) {k : ObjectKey uuid}
    (hk : k.raw = path bureau partner digest) :
    k.namespaceOf = .ok ⟨u, v⟩ ∧ k.digest = digest := by
  have hsplit := splitOn_path hu.slash_notMem hv.slash_notMem hdigest.slash_notMem
  have hbureau := (uuid.parseStr_eq_some_iff _ _).mpr hu
  have hpartner := (uuid.parseStr_eq_some_iff _ _).mpr hv
  constructor
  · simp only [namespaceOf, hk, hsplit, okOr_bind_eq_ok]
    refine ⟨u, by simp [hbureau], v, by simp [hpartner], rfl⟩
  · simp [ObjectKey.digest, hk, hsplit]

end ObjectKey

end Otdel
