import Otdel.Storage.Key

/-!
# One spelling for every key

`ObjectKey::parse` leaves the two identifiers to `Uuid::parse_str`, which reads
more forms than `Display` prints.  A key text in another form parses, and the
key it gives is not the one its own namespace and digest lead to.
-/

namespace Otdel.ObjectKey

/-- `bureau-U/partner-V/dd/D` with lowercase hyphenated identifiers. -/
def Canonical (raw : Text) : Prop :=
  ∃ (u v : Uuid) (digest : Text), IsDigest digest ∧ raw = path u.hyphenated v.hyphenated digest

/-- A text parses exactly when it is canonical, and the key it gives is the one
its namespace and digest lead to. -/
def OneSpelling (uuid : UuidCrate) (raw : Text) : Prop :=
  ((∃ k, parse uuid raw = .ok k) ↔ Canonical raw) ∧
    ∀ k, parse uuid raw = .ok k →
      ∃ n, k.namespaceOf = .ok n ∧ n.keyForDigest uuid k.digest = .ok k

/-- A key text with an identifier that is spelled in another documented form. -/
def LooselySpelled (raw : Text) : Prop :=
  ∃ (bureau partner digest : Text) (u v : Uuid), u.IsForm bureau ∧ v.IsForm partner ∧
    IsDigest digest ∧ raw = path bureau partner digest ∧
      ¬ (bureau = u.hyphenated ∧ partner = v.hyphenated)

variable {uuid : UuidCrate}

theorem path_injective {bureau partner digest bureau' partner' digest' : Text}
    (hbureau : '/' ∉ bureau) (hpartner : '/' ∉ partner) (hdigest : '/' ∉ digest)
    (hbureau' : '/' ∉ bureau') (hpartner' : '/' ∉ partner') (hdigest' : '/' ∉ digest')
    (h : path bureau partner digest = path bureau' partner' digest') :
    bureau = bureau' ∧ partner = partner' ∧ digest = digest' := by
  have hsplit := congrArg (List.splitOn '/') h
  rw [splitOn_path hbureau hpartner hdigest, splitOn_path hbureau' hpartner' hdigest'] at hsplit
  simp only [List.cons.injEq, List.append_cancel_left_eq] at hsplit
  exact ⟨hsplit.1, hsplit.2.1, hsplit.2.2.2.1⟩

theorem LooselySpelled.parses (uuid : UuidCrate) {raw : Text} (h : LooselySpelled raw) :
    ∃ k, parse uuid raw = .ok k := by
  obtain ⟨bureau, partner, digest, u, v, hu, hv, hdigest, rfl, -⟩ := h
  exact exists_parse_iff.mpr
    (check_eq_ok_iff.mpr ⟨bureau, partner, digest, u, v, hu, hv, hdigest, rfl⟩)

/-- A text spells its identifiers in one way only, so a loose text is not
canonical. -/
theorem LooselySpelled.not_canonical (uuid : UuidCrate) {raw : Text} (h : LooselySpelled raw) :
    ¬ Canonical raw := by
  obtain ⟨bureau, partner, digest, u, v, hu, hv, hdigest, rfl, hloose⟩ := h
  rintro ⟨u', v', digest', hdigest', heq⟩
  obtain ⟨rfl, rfl, -⟩ := path_injective hu.slash_notMem hv.slash_notMem hdigest.slash_notMem
    u'.isForm_hyphenated.slash_notMem v'.isForm_hyphenated.slash_notMem hdigest'.slash_notMem heq
  rw [uuid.form_unique hu u'.isForm_hyphenated, uuid.form_unique hv v'.isForm_hyphenated]
    at hloose
  exact hloose ⟨rfl, rfl⟩

theorem Canonical.parses (uuid : UuidCrate) {raw : Text} (h : Canonical raw) : ∃ k, parse uuid raw = .ok k := by
  obtain ⟨u, v, digest, hdigest, rfl⟩ := h
  exact exists_parse_iff.mpr (check_eq_ok_iff.mpr
    ⟨_, _, digest, u, v, u.isForm_hyphenated, v.isForm_hyphenated, hdigest, rfl⟩)

theorem canonical_of_parse {raw : Text} {k : ObjectKey uuid} (h : parse uuid raw = .ok k)
    (hloose : ¬ LooselySpelled raw) : Canonical raw := by
  obtain ⟨bureau, partner, digest, u, v, hu, hv, hdigest, hraw⟩ :=
    check_eq_ok_iff.mp (exists_parse_iff.mp ⟨k, h⟩)
  by_contra hcanonical
  refine hloose ⟨bureau, partner, digest, u, v, hu, hv, hdigest, hraw, ?_⟩
  rintro ⟨rfl, rfl⟩
  exact hcanonical ⟨u, v, digest, hdigest, hraw⟩

/-- `key_for_digest` accepts every digest. -/
theorem keyForDigest_eq_ok (n : ObjectNamespace) {digest : Text} (h : IsDigest digest)
    {k : ObjectKey uuid} :
    n.keyForDigest uuid digest = .ok k ↔
      k.raw = path n.bureauId.hyphenated n.partnerId.hyphenated digest := by
  have hhex : ¬ isSha256Hex digest = false := by
    rw [Bool.not_eq_false]
    exact isSha256Hex_iff.mpr h
  rw [ObjectNamespace.keyForDigest, if_neg hhex, parse_eq_ok, ObjectNamespace.keyText,
    uuid.display_eq, uuid.display_eq]

/-- A canonical key is the one its namespace and digest lead to. -/
theorem Canonical.rebuilds {raw : Text} (h : Canonical raw) {k : ObjectKey uuid}
    (hk : parse uuid raw = .ok k) :
    ∃ n, k.namespaceOf = .ok n ∧ n.keyForDigest uuid k.digest = .ok k := by
  obtain ⟨u, v, digest, hdigest, rfl⟩ := h
  have hraw := parse_eq_ok.mp hk
  obtain ⟨hn, hd⟩ := readBack u.isForm_hyphenated v.isForm_hyphenated hdigest hraw
  refine ⟨⟨u, v⟩, hn, ?_⟩
  rw [hd, keyForDigest_eq_ok _ hdigest, hraw]

/-- Writing a triple and reading it back. -/
theorem keyForDigest_readBack (uuid : UuidCrate) (n : ObjectNamespace) {digest : Text}
    (h : IsDigest digest) :
    ∃ k, n.keyForDigest uuid digest = .ok k ∧ k.namespaceOf = .ok n ∧ k.digest = digest := by
  have hcanonical : Canonical (path n.bureauId.hyphenated n.partnerId.hyphenated digest) :=
    ⟨_, _, digest, h, rfl⟩
  obtain ⟨k, hk⟩ := hcanonical.parses uuid
  have hraw := parse_eq_ok.mp hk
  exact ⟨k, (keyForDigest_eq_ok n h).mpr hraw,
    readBack n.bureauId.isForm_hyphenated n.partnerId.isForm_hyphenated h hraw⟩

theorem oneSpelling_of_not_loose (uuid : UuidCrate) {raw : Text} (h : ¬ LooselySpelled raw) :
    OneSpelling uuid raw := by
  refine ⟨⟨?_, Canonical.parses uuid⟩, ?_⟩
  · rintro ⟨k, hk⟩
    exact canonical_of_parse hk h
  · intro k hk
    exact (canonical_of_parse hk h).rebuilds hk

/-- Keys have one spelling except where an identifier is written in another form
than `Display` prints. -/
theorem one_spelling_iff_not_loose (uuid : UuidCrate) :
    (∀ raw, OneSpelling uuid raw ↔ ¬ LooselySpelled raw) ∧
      (∀ n digest, IsDigest digest → ∃ k, ObjectNamespace.keyForDigest uuid n digest = .ok k ∧
        k.namespaceOf = .ok n ∧ k.digest = digest) ∧
      ∀ k l : ObjectKey uuid, ¬ LooselySpelled k.raw → ¬ LooselySpelled l.raw →
        k.namespaceOf = l.namespaceOf → k.digest = l.digest → k = l := by
  refine ⟨?_, fun n digest h ↦ keyForDigest_readBack uuid n h, ?_⟩
  · intro raw
    constructor
    · intro h hloose
      exact hloose.not_canonical uuid (h.1.mp (hloose.parses uuid))
    · exact oneSpelling_of_not_loose uuid
  · intro k l hk hl hnamespace hdigest
    obtain ⟨n, hn, hkey⟩ := (oneSpelling_of_not_loose uuid hk).2 k (parse_raw k)
    obtain ⟨m, hm, hkey'⟩ := (oneSpelling_of_not_loose uuid hl).2 l (parse_raw l)
    rw [hn, hm, Except.ok.injEq] at hnamespace
    subst hnamespace
    rw [hdigest] at hkey
    exact Except.ok.inj (hkey.symm.trans hkey')

/-- A key whose bureau is written without hyphens. -/
def simpleFormKey : Text :=
  path "00000000000000000000000000000001".toList "00000000-0000-0000-0000-000000000002".toList
    (List.replicate 64 '0')

theorem simpleFormKey_has_second_spelling : ¬ OneSpelling UuidCrate.reference simpleFormKey := by
  let u : Uuid := ⟨List.replicate 31 0 ++ [1], by decide⟩
  let v : Uuid := ⟨List.replicate 31 0 ++ [2], by decide⟩
  have hv : v.hyphenated = "00000000-0000-0000-0000-000000000002".toList := by decide
  have hdigest : IsDigest (List.replicate 64 '0') := by
    refine ⟨by simp, fun c hc ↦ ?_⟩
    rw [(List.mem_replicate.mp hc).2]
    decide
  have hloose : LooselySpelled simpleFormKey := by
    refine ⟨"00000000000000000000000000000001".toList, _, _, u, v, .simple ?_,
      hv ▸ v.isForm_hyphenated, hdigest, rfl, ?_⟩
    · simp only [Uuid.Spells]
      decide
    · rintro ⟨h, -⟩
      exact absurd (congrArg List.length h) (by decide)
  intro h
  exact hloose.not_canonical .reference (h.1.mp (hloose.parses .reference))

end Otdel.ObjectKey
