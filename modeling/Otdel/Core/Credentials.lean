import Otdel.Core.Config
import Otdel.Core.Token

/-!
# The owner's password hash

`hash_password` writes a PHC string.  The start-up check that turns example
values away looks for its markers in any text, and the salt and the digest of a
real hash are arbitrary letters.
-/

namespace Otdel

def passwordMinChars : ℕ := 12

/-- The `argon2` crate with its default parameters; a salt is 16 bytes and a
digest 32. -/
structure Argon2 where
  memory : ℕ
  time : ℕ
  parallelism : ℕ
  digest : Bytes → Vector UInt8 16 → Option (Vector UInt8 32)

namespace Credentials

/-- The standard alphabet has two other characters. -/
def standardDigit (c : Char) : Char := if c = '-' then '+' else if c = '_' then '/' else c

/-- The standard alphabet, without padding. -/
def base64 (bytes : Bytes) : Text := (Base64Url.encodeBytes bytes).map standardDigit

def parameters (argon2 : Argon2) : Text :=
  "m=".toList ++ (toString argon2.memory).toList ++ ",t=".toList ++
    (toString argon2.time).toList ++ ",p=".toList ++ (toString argon2.parallelism).toList

/-- `$argon2id$v=19$m=..,t=..,p=..$salt$hash`. -/
def phc (argon2 : Argon2) (salt : Vector UInt8 16) (digest : Vector UInt8 32) : Text :=
  ['$'].intercalate [[], "argon2id".toList, "v=19".toList, parameters argon2, base64 salt.toList,
    base64 digest.toList]

/-- Hash a password with the drawn salt. -/
def hashPassword (argon2 : Argon2) (salt : Vector UInt8 16) (password : Text) :
    Except AppError Text :=
  if password.length < passwordMinChars then
    .error (.validation s!"password must be at least {passwordMinChars} characters")
  else
    match argon2.digest (Text.utf8Bytes password) salt with
    | some digest => .ok (phc argon2 salt digest)
    | none => .error (.internal "could not hash the password")

/-- The source, with this password hash. -/
def withHash (source : ConfigSource) (hash : Text) : ConfigSource :=
  Function.update source "OTDEL_OWNER_PASSWORD_HASH" (some hash)

/-- The server starts with this hash. -/
structure Accepted (readers : ConfigReaders) (hash : Text) : Prop where
  real : Config.looksLikePlaceholder hash = false
  supported : readers.isSupportedPasswordHash hash = true
  /-- Wherever it starts with some hash, it starts with this one. -/
  loads : ∀ source other config, Config.load readers (withHash source other) = .ok config →
    ∃ config', Config.load readers (withHash source hash) = .ok config'

/-- What is a marker of letters only. -/
def letterMarkers : List String := ["changeme", "placeholder", "example", "todo", "xxxxx"]

/-- A marker occurs, in any letter case. -/
def Marked (text : Text) : Prop :=
  ∃ marker ∈ letterMarkers, marker.toList <:+: text.map Text.toAsciiLowercase

instance (text : Text) : Decidable (Marked text) :=
  inferInstanceAs (Decidable (∃ marker ∈ letterMarkers,
    marker.toList <:+: text.map Text.toAsciiLowercase))

/-! ## The text of a hash -/

/-- A property of the alphabet is one of every text. -/
theorem all_base64 {p : Char → Bool} (hp : (Base64Url.digits.map standardDigit).all p = true)
    (bytes : Bytes) : (base64 bytes).all p = true := by
  rw [List.all_eq_true] at hp ⊢
  intro c hc
  obtain ⟨d, hd, rfl⟩ := List.mem_map.mp hc
  exact hp _ (List.mem_map_of_mem (Base64Url.mem_encodeBytes bytes d hd))

theorem not_infix_of_all {marker text : Text} {p : Char → Bool} (htext : text.all p = true)
    (hmarker : marker.all p = false) : ¬ marker <:+: text := by
  intro hoccurs
  have hall : marker.all p = true := by
    rw [List.all_eq_true] at htext ⊢
    exact fun c hc ↦ htext c (hoccurs.subset hc)
  rw [hall] at hmarker
  cases hmarker

/-- The characters of the parameters. -/
def isParameterChar (c : Char) : Bool := c.isDigit || c ∈ ['m', 't', 'p', '=', ',']

theorem all_repr (n : ℕ) : (toString n).toList.all isParameterChar = true := by
  rw [List.all_eq_true]
  intro c hc
  have hdigit : c.isDigit = true := by
    apply Nat.isDigit_of_mem_toDigits (b := 10) (n := n) (by decide) (by decide)
    rwa [← Nat.toList_repr]
  rw [isParameterChar, hdigit, Bool.true_or]

theorem all_parameters (argon2 : Argon2) : (parameters argon2).all isParameterChar = true := by
  have hm : "m=".toList.all isParameterChar = true := by decide
  have ht : ",t=".toList.all isParameterChar = true := by decide
  have hp : ",p=".toList.all isParameterChar = true := by decide
  simp only [parameters, List.all_append, all_repr, hm, ht, hp, Bool.and_self]

theorem toAsciiLowercase_parameter {c : Char} (h : isParameterChar c = true) :
    Text.toAsciiLowercase c = c := by
  refine if_neg fun hcapital ↦ ?_
  rw [isParameterChar, Bool.or_eq_true] at h
  rcases h with h | h
  · simp only [Char.isDigit, Bool.and_eq_true, decide_eq_true_eq, Char.le_def,
      UInt32.le_iff_toNat_le] at h hcapital
    have hnine : '9'.val.toNat = 57 := by decide
    have hcapitalA : 'A'.val.toNat = 65 := by decide
    omega
  · have hall : ['m', 't', 'p', '=', ','].all (fun c ↦ decide (¬ ('A' ≤ c ∧ c ≤ 'Z'))) = true := by
      decide
    exact of_decide_eq_true (List.all_eq_true.mp hall c (of_decide_eq_true h)) hcapital

theorem map_parameters (argon2 : Argon2) :
    (parameters argon2).map Text.toAsciiLowercase = parameters argon2 := by
  have hall := List.all_eq_true.mp (all_parameters argon2)
  exact (List.map_congr_left fun c hc ↦ toAsciiLowercase_parameter (hall c hc)).trans
    (List.map_id _)

theorem phc_eq (argon2 : Argon2) (salt : Vector UInt8 16) (digest : Vector UInt8 32) :
    phc argon2 salt digest = [] ++ '$' :: ("argon2id".toList ++ '$' :: ("v=19".toList ++ '$' ::
      (parameters argon2 ++ '$' :: (base64 salt.toList ++ '$' :: base64 digest.toList)))) := by
  simp [phc, List.intercalate]

/-- What stands before the salt. -/
def preamble (argon2 : Argon2) : Text :=
  '$' :: ("argon2id".toList ++ '$' :: ("v=19".toList ++ '$' :: (parameters argon2 ++ ['$'])))

theorem phc_eq_append (argon2 : Argon2) (salt : Vector UInt8 16) (digest : Vector UInt8 32) :
    phc argon2 salt digest =
      preamble argon2 ++ base64 salt.toList ++ ('$' :: base64 digest.toList) := by
  rw [phc_eq]
  simp only [preamble, List.nil_append, List.cons_append, List.append_assoc]

theorem trim_phc (argon2 : Argon2) (salt : Vector UInt8 16) (digest : Vector UInt8 32) :
    Text.trim (phc argon2 salt digest) = phc argon2 salt digest := by
  apply Text.trimMatches_eq_self
  · intro c hc
    rw [phc_eq] at hc
    obtain rfl : '$' = c := by simpa using hc
    decide
  · intro c hc
    have hne : base64 digest.toList ≠ [] := by
      intro hnil
      have hlength := congrArg List.length hnil
      rw [base64, List.length_map, Base64Url.length_encodeBytes, Vector.length_toList] at hlength
      cases hlength
    have hall := List.all_eq_true.mp
      (all_base64 (p := fun c ↦ !Text.isWhitespace c) (by decide) digest.toList)
    rw [phc_eq_append, List.getLast?_append_of_ne_nil _ (List.cons_ne_nil _ _),
      List.getLast?_cons_of_ne_nil hne] at hc
    simpa using hall c (List.mem_of_getLast? hc)

theorem map_phc (argon2 : Argon2) (salt : Vector UInt8 16) (digest : Vector UInt8 32) :
    (phc argon2 salt digest).map Text.toAsciiLowercase =
      [] ++ '$' :: ("argon2id".toList ++ '$' :: ("v=19".toList ++ '$' :: (parameters argon2 ++
        '$' :: ((base64 salt.toList).map Text.toAsciiLowercase ++
          '$' :: (base64 digest.toList).map Text.toAsciiLowercase)))) := by
  have hdollar : Text.toAsciiLowercase '$' = '$' := by decide
  have hname : "argon2id".toList.map Text.toAsciiLowercase = "argon2id".toList := by decide
  have hversion : "v=19".toList.map Text.toAsciiLowercase = "v=19".toList := by decide
  rw [phc_eq]
  simp only [List.map_append, List.map_cons, List.map_nil, hdollar, hname, hversion,
    map_parameters]

/-- In an encoded text only a marker of letters can occur. -/
theorem marked_of_occurs {marker : String} (hmarker : marker ∈ Config.placeholderMarkers)
    {bytes : Bytes} (h : marker.toList <:+: (base64 bytes).map Text.toAsciiLowercase) :
    Marked (base64 bytes) := by
  have hletters : Config.placeholderMarkers.all (fun marker ↦
      marker ∈ letterMarkers || !marker.toList.all fun c ↦ c ≠ '-') = true := by decide
  have hor := List.all_eq_true.mp hletters marker hmarker
  rw [Bool.or_eq_true, decide_eq_true_eq, Bool.not_eq_true'] at hor
  rcases hor with hmem | hdash
  · exact ⟨marker, hmem, h⟩
  · have hall := all_base64 (p := (fun c ↦ decide (c ≠ '-')) ∘ Text.toAsciiLowercase)
      (by decide) bytes
    rw [← List.all_map] at hall
    exact (not_infix_of_all hall hdash h).elim

/-- Only the salt and the digest can hold a marker. -/
theorem looksLikePlaceholder_phc (argon2 : Argon2) (salt : Vector UInt8 16)
    (digest : Vector UInt8 32) :
    Config.looksLikePlaceholder (phc argon2 salt digest) = true ↔
      Marked (base64 salt.toList) ∨ Marked (base64 digest.toList) := by
  have hne : ((phc argon2 salt digest).map Text.toAsciiLowercase).isEmpty = false := by
    rw [map_phc]
    rfl
  rw [Config.looksLikePlaceholder, trim_phc, hne, Bool.false_or, List.any_eq_true]
  simp only [decide_eq_true_eq]
  have hnot : ∀ {text : Text} (p : Char → Bool), text.all p = true →
      (Config.placeholderMarkers.all fun marker ↦ !marker.toList.all p) = true →
        ∀ marker ∈ Config.placeholderMarkers, ¬ marker.toList <:+: text := by
    intro text p htext hall marker hmarker
    apply not_infix_of_all htext
    simpa using List.all_eq_true.mp hall marker hmarker
  constructor
  · rintro ⟨marker, hmarker, hoccurs⟩
    rw [map_phc] at hoccurs
    have hdollar : '$' ∉ marker.toList := by
      have hall : (Config.placeholderMarkers.all fun marker ↦ '$' ∉ marker.toList) = true := by
        decide
      exact of_decide_eq_true (List.all_eq_true.mp hall marker hmarker)
    rcases Text.infix_or_of_infix_append_cons hdollar hoccurs with h | h
    · exact (hnot (fun _ ↦ false) rfl (by decide) marker hmarker h).elim
    rcases Text.infix_or_of_infix_append_cons hdollar h with h | h
    · exact (hnot (fun c ↦ c ∈ "argon2id".toList) (by decide) (by decide) marker hmarker h).elim
    rcases Text.infix_or_of_infix_append_cons hdollar h with h | h
    · exact (hnot (fun c ↦ c ∈ "v=19".toList) (by decide) (by decide) marker hmarker h).elim
    rcases Text.infix_or_of_infix_append_cons hdollar h with h | h
    · exact (hnot isParameterChar (all_parameters argon2) (by decide) marker hmarker h).elim
    rcases Text.infix_or_of_infix_append_cons hdollar h with h | h
    · exact Or.inl (marked_of_occurs hmarker h)
    · exact Or.inr (marked_of_occurs hmarker h)
  · have hletters : ∀ marker ∈ letterMarkers, marker ∈ Config.placeholderMarkers := by decide
    rw [phc_eq_append, List.map_append, List.map_append]
    rintro (⟨marker, hmarker, hoccurs⟩ | ⟨marker, hmarker, hoccurs⟩)
    · exact ⟨marker, hletters marker hmarker, hoccurs.trans (List.infix_append _ _ _)⟩
    · exact ⟨marker, hletters marker hmarker,
        hoccurs.trans ((List.suffix_cons _ _).trans (List.suffix_append _ _)).isInfix⟩

/-! ## Starting with the hash -/

theorem withHash_self (source : ConfigSource) (hash : Text) :
    withHash source hash "OTDEL_OWNER_PASSWORD_HASH" = some hash := Function.update_self ..

theorem withHash_of_ne (source : ConfigSource) (hash : Text) {key : String}
    (h : key ≠ "OTDEL_OWNER_PASSWORD_HASH") : withHash source hash key = source key :=
  Function.update_of_ne h _ _

theorem requiredSecret_withHash {source : ConfigSource} {hash : Text}
    (h : Config.looksLikePlaceholder hash = false) :
    Config.requiredSecret (withHash source hash) "OTDEL_OWNER_PASSWORD_HASH" = .ok hash := by
  rw [Config.requiredSecret, withHash_self, okOr_bind_eq_ok]
  exact ⟨hash, rfl, if_neg (by simp [h])⟩

/-- A hash that passes both checks is as good as any other. -/
theorem loads_of_checks {readers : ConfigReaders} {hash : Text}
    (hreal : Config.looksLikePlaceholder hash = false)
    (hsupported : readers.isSupportedPasswordHash hash = true) (source : ConfigSource)
    (other : Text) (config : Config)
    (h : Config.load readers (withHash source other) = .ok config) :
    ∃ config', Config.load readers (withHash source hash) = .ok config' := by
  have hsame : ∀ key, key ≠ "OTDEL_OWNER_PASSWORD_HASH" →
      withHash source hash key = withHash source other key := by
    intro key hkey
    rw [withHash_of_ne _ _ hkey, withHash_of_ne _ _ hkey]
  have hstring : ∀ key fallback, key ≠ "OTDEL_OWNER_PASSWORD_HASH" →
      Config.stringOr (withHash source hash) key fallback =
        Config.stringOr (withHash source other) key fallback := by
    intro key fallback hkey
    simp only [Config.stringOr, hsame key hkey]
  have hnumber : ∀ key fallback, key ≠ "OTDEL_OWNER_PASSWORD_HASH" →
      Config.parseU64Or (withHash source hash) key fallback =
        Config.parseU64Or (withHash source other) key fallback := by
    intro key fallback hkey
    simp only [Config.parseU64Or, hsame key hkey]
  have henv : Config.envOr (withHash source hash) = Config.envOr (withHash source other) := by
    simp only [Config.envOr, hsame "OTDEL_ENV" (by decide)]
  have hsecure : Config.secureOr (withHash source hash) =
      Config.secureOr (withHash source other) := by
    funext env
    simp only [Config.secureOr, hsame "OTDEL_COOKIE_SECURE" (by decide)]
  have hadmin : Config.adminUrl (withHash source hash) =
      Config.adminUrl (withHash source other) := by
    simp only [Config.adminUrl, hsame "OTDEL_DATABASE_ADMIN_URL" (by decide)]
  have hurl : Config.requiredSecret (withHash source hash) "OTDEL_DATABASE_URL" =
      Config.requiredSecret (withHash source other) "OTDEL_DATABASE_URL" := by
    simp only [Config.requiredSecret, hsame "OTDEL_DATABASE_URL" (by decide)]
  simp only [Config.load, bind_eq_ok] at h ⊢
  simp (disch := decide) only [hstring, hnumber, henv, hsecure, hadmin, hurl,
    requiredSecret_withHash hreal]
  have hrequire : require (readers.isSupportedPasswordHash hash = true) (AppError.validation
      ("OTDEL_OWNER_PASSWORD_HASH must be an Argon2 PHC hash; " ++
        "run `scripts/dev-init.sh` to generate the local owner credentials")) =
          .ok ⟨hsupported⟩ := dif_pos hsupported
  obtain ⟨env, h₁, addr, h₂, url, h₃, admin, h₄, _, _, _, _, slug, h₅, origins, h₆, ttl, h₇, idle,
    h₈, ttlOk, h₉, idleOk, h₁₀, within, h₁₁, cookie, h₁₂, secure, h₁₃, secureOk, h₁₄, upload, h₁₅,
    uploadOk, h₁₆, failures, h₁₇, maxFailures, h₁₈, window, h₁₉, lockout, h₂₀, connections, h₂₁,
    maxConnections, h₂₂, -⟩ := h
  exact ⟨_, env, h₁, addr, h₂, url, h₃, admin, h₄, hash, rfl, _, hrequire, slug, h₅, origins, h₆,
    ttl, h₇, idle, h₈, ttlOk, h₉, idleOk, h₁₀, within, h₁₁, cookie, h₁₂, secure, h₁₃, secureOk, h₁₄,
    upload, h₁₅, uploadOk, h₁₆, failures, h₁₇, maxFailures, h₁₈, window, h₁₉, lockout, h₂₀,
    connections, h₂₁, maxConnections, h₂₂, rfl⟩

theorem accepted_iff {readers : ConfigReaders} {hash : Text}
    (hsupported : readers.isSupportedPasswordHash hash = true) :
    Accepted readers hash ↔ Config.looksLikePlaceholder hash = false :=
  ⟨fun h ↦ h.real, fun hreal ↦ ⟨hreal, hsupported, loads_of_checks hreal hsupported⟩⟩

/-- The server accepts the hash it has made unless a marker occurs in the salt or
in the digest.  A PHC string that the crate writes is one that it reads. -/
theorem own_hash_accepted_iff (argon2 : Argon2) (readers : ConfigReaders)
    (hreads : ∀ salt digest,
      readers.phcAlgorithm (phc argon2 salt digest) = some "argon2id".toList)
    (salt : Vector UInt8 16) (password hash : Text)
    (h : hashPassword argon2 salt password = .ok hash) :
    Accepted readers hash ↔ ¬ Marked (base64 salt.toList) ∧
      ∀ digest, argon2.digest (Text.utf8Bytes password) salt = some digest →
        ¬ Marked (base64 digest.toList) := by
  simp only [hashPassword, guard_eq_ok] at h
  obtain ⟨-, h⟩ := h
  cases hdigest : argon2.digest (Text.utf8Bytes password) salt with
  | none =>
      rw [hdigest] at h
      cases h
  | some digest =>
      rw [hdigest] at h
      cases h
      have hsupported : readers.isSupportedPasswordHash (phc argon2 salt digest) = true := by
        rw [ConfigReaders.isSupportedPasswordHash, hreads]
        decide
      rw [accepted_iff hsupported, ← Bool.not_eq_true, looksLikePlaceholder_phc, not_or]
      simp

/-! ## Two salts -/

def samplePassword : Text := "correct horse battery".toList

def plainSalt : Vector UInt8 16 := Vector.replicate 16 0

/-- Its text begins with `todo`. -/
def todoSalt : Vector UInt8 16 := #v[0xb6, 0x87, 0x68, 0, 0, 0, 0, 0, 0, 0, 0, 0, 0, 0, 0, 0]

def plainDigest : Vector UInt8 32 :=
  #v[133, 181, 249, 5, 196, 120, 85, 192, 17, 130, 226, 5, 233, 235, 83, 143, 118, 110, 7, 214, 148,
    2, 122, 51, 88, 165, 213, 240, 174, 180, 93, 197]

def todoDigest : Vector UInt8 32 :=
  #v[80, 149, 221, 202, 104, 137, 75, 42, 177, 102, 100, 98, 236, 26, 175, 169, 110, 152, 243, 119,
    71, 197, 196, 112, 128, 178, 85, 74, 216, 161, 121, 179]

/-- The digests of the sample password under the two salts. -/
def recordedArgon2 : Argon2 where
  memory := 19456
  time := 2
  parallelism := 1
  digest password salt :=
    if password = Text.utf8Bytes samplePassword then
      if salt = plainSalt then some plainDigest
      else if salt = todoSalt then some todoDigest
      else none
    else none

theorem phcAlgorithm_phc (argon2 : Argon2) (salt : Vector UInt8 16) (digest : Vector UInt8 32) :
    Config.sampleReaders.phcAlgorithm (phc argon2 salt digest) = some "argon2id".toList := by
  have hnot {s : Text} {p : Char → Bool} (hs : s.all p = true) (hp : p '$' = false) : '$' ∉ s := by
    intro hmem
    rw [List.all_eq_true.mp hs _ hmem] at hp
    cases hp
  have hbase64 (bytes : Bytes) : '$' ∉ base64 bytes :=
    hnot (all_base64 (p := fun c ↦ decide (c ≠ '$')) (by decide) bytes) (by decide)
  have hparameters : '$' ∉ parameters argon2 := hnot (all_parameters argon2) (by decide)
  have hsplit : (phc argon2 salt digest).splitOn '$' = [[], "argon2id".toList, "v=19".toList,
      parameters argon2, base64 salt.toList, base64 digest.toList] := by
    refine List.splitOn_intercalate '$' (fun piece hpiece ↦ ?_) (by simp)
    simp only [List.mem_cons, List.not_mem_nil, or_false] at hpiece
    rcases hpiece with rfl | rfl | rfl | rfl | rfl | rfl
    · decide
    · decide
    · decide
    · exact hparameters
    · exact hbase64 _
    · exact hbase64 _
  simp only [Config.sampleReaders, hsplit]

theorem own_hash_accepted_iff_plain :
    Accepted Config.sampleReaders (phc recordedArgon2 plainSalt plainDigest) := by
  refine (own_hash_accepted_iff recordedArgon2 _ (phcAlgorithm_phc recordedArgon2)
    plainSalt samplePassword _ (by decide +kernel)).mpr ⟨by decide +kernel, ?_⟩
  intro digest hdigest
  obtain rfl : plainDigest = digest := Option.some.inj hdigest
  decide +kernel

/-- A salt that spells a marker makes a hash the server refuses to start with. -/
theorem todo_salt_refused : ¬ ∀ (argon2 : Argon2) (readers : ConfigReaders),
    (∀ salt digest, readers.phcAlgorithm (phc argon2 salt digest) = some "argon2id".toList) →
      ∀ salt password hash, hashPassword argon2 salt password = .ok hash →
        Accepted readers hash := by
  intro h
  have haccepted := h recordedArgon2 _ (phcAlgorithm_phc recordedArgon2) todoSalt
    samplePassword (phc recordedArgon2 todoSalt todoDigest) (by decide +kernel)
  have hrefused : Config.looksLikePlaceholder (phc recordedArgon2 todoSalt todoDigest) = true := by
    rw [looksLikePlaceholder_phc]
    exact Or.inl (by decide +kernel)
  rw [haccepted.real] at hrefused
  cases hrefused

end Credentials

end Otdel
