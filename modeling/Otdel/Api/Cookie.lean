import Otdel.Api.Admission
import Otdel.Api.Routes
import Otdel.Core.Token

/-!
# The session cookie

A browser keeps the pair before the first `;` of a `Set-Cookie` value and sends
it back between the pairs of other cookies.  The token that comes back is the one
that was sent.
-/

namespace Otdel

namespace Cookie

/-- Build the `Set-Cookie` value for a newly opened session. -/
def sessionCookie (name token : Text) (maxAgeSeconds : ℕ) (secure : Bool) : Text :=
  let cookie := name ++ '=' :: token ++ "; Path=/; HttpOnly; SameSite=Strict; Max-Age=".toList ++
    Nat.toDigits 10 maxAgeSeconds
  if secure then cookie ++ "; Secure".toList else cookie

/-- Build the `Set-Cookie` value that removes the session cookie. -/
def clearedCookie (name : Text) (secure : Bool) : Text :=
  let cookie := name ++ "=; Path=/; HttpOnly; SameSite=Strict; Max-Age=0".toList
  if secure then cookie ++ "; Secure".toList else cookie

/-- The `Set-Cookie` header of a response; a value that is no header value is
left out. -/
def withCookie (http : HttpCrate) (setCookie : Option Text) (cookieValue : Text) : Option Text :=
  match http.fromStr cookieValue with
  | some value => some value
  | none => setCookie

def attributes (maxAgeSeconds : ℕ) (secure : Bool) : List Text :=
  [" Path=/".toList, " HttpOnly".toList, " SameSite=Strict".toList,
    " Max-Age=".toList ++ Nat.toDigits 10 maxAgeSeconds] ++
    if secure then [" Secure".toList] else []

/-- The `Cookie` header of the pairs that a browser holds. -/
def cookieHeader (pairs : List Text) : Text := "; ".toList.intercalate pairs

/-! ## Names and tokens -/

theorem isCookieNameChar_spec {c : Char} (h : isCookieNameChar c = true) :
    33 ≤ c.toNat ∧ c.toNat < 127 ∧ c ≠ ';' ∧ c ≠ '=' := by
  simp only [isCookieNameChar, Bool.or_eq_true, Bool.and_eq_true, decide_eq_true_eq, Char.le_def,
    UInt32.le_iff_toNat_le] at h
  have hrange : 97 ≤ c.toNat ∧ c.toNat ≤ 122 ∨ 65 ≤ c.toNat ∧ c.toNat ≤ 90 ∨
      48 ≤ c.toNat ∧ c.toNat ≤ 57 ∨ c.toNat = 95 ∨ c.toNat = 45 := by
    rcases h with (((h | h) | h) | rfl) | rfl
    · exact Or.inl h
    · exact Or.inr (Or.inl h)
    · exact Or.inr (Or.inr (Or.inl h))
    · exact Or.inr (Or.inr (Or.inr (Or.inl rfl)))
    · exact Or.inr (Or.inr (Or.inr (Or.inr rfl)))
  refine ⟨by omega, by omega, ?_, ?_⟩
  · rintro rfl
    exact absurd hrange (by decide)
  · rintro rfl
    exact absurd hrange (by decide)

/-- Tokens are made of the characters of names. -/
theorem all_generateToken (base64 : Base64Url) (bytes : Vector UInt8 32) :
    (generateToken base64 bytes).all isCookieNameChar = true := by
  rw [List.all_eq_true]
  intro c hc
  have halphabet := base64.alphabet _ c hc
  simp only [Validate.isAsciiAlphanumeric, isCookieNameChar, Bool.or_eq_true] at halphabet ⊢
  tauto

theorem isWhitespace_of_name {c : Char} (h : isCookieNameChar c = true) :
    Text.isWhitespace c = false := by
  obtain ⟨hlow, hhigh, -⟩ := isCookieNameChar_spec h
  simp only [Text.isWhitespace, Bool.or_eq_false_iff, Bool.and_eq_false_iff,
    decide_eq_false_iff_not]
  omega

theorem trim_name {s : Text} (h : s.all isCookieNameChar = true) : Text.trim s = s := by
  rw [List.all_eq_true] at h
  exact Text.trimMatches_eq_self
    (fun c hc ↦ isWhitespace_of_name (h c (List.mem_of_mem_head? hc)))
    fun c hc ↦ isWhitespace_of_name (h c (List.mem_of_mem_getLast? hc))

theorem notMem_name {s : Text} (h : s.all isCookieNameChar = true) : ';' ∉ s ∧ '=' ∉ s := by
  rw [List.all_eq_true] at h
  exact ⟨fun hmem ↦ (isCookieNameChar_spec (h _ hmem)).2.2.1 rfl,
    fun hmem ↦ (isCookieNameChar_spec (h _ hmem)).2.2.2 rfl⟩

section Pairs

variable {name token : Text}

theorem notMem_pair (hname : name.all isCookieNameChar = true)
    (htoken : token.all isCookieNameChar = true) : ';' ∉ name ++ '=' :: token := by
  simp [(notMem_name hname).1, (notMem_name htoken).1]

theorem isCookie_pair (hname : name.all isCookieNameChar = true)
    (htoken : token.all isCookieNameChar = true) : IsCookie name (name ++ '=' :: token) token :=
  ⟨name, token, rfl, (notMem_name hname).2, trim_name hname, trim_name htoken⟩

theorem trim_cons_space (s : Text) : Text.trim (' ' :: s) = Text.trim s := by
  rw [Text.trim, Text.trimMatches, List.dropWhile_cons_of_pos (by decide)]
  rfl

/-- The blank after a `;` is not part of a name. -/
theorem isCookie_cons_space {pair : Text} :
    IsCookie name (' ' :: pair) token ↔ IsCookie name pair token := by
  constructor
  · rintro ⟨key, value, heq, hkey, hname, htoken⟩
    cases key with
    | nil => simp at heq
    | cons c key =>
        obtain ⟨rfl, rfl⟩ := List.cons.inj heq
        rw [trim_cons_space] at hname
        exact ⟨key, value, rfl, fun h ↦ hkey (List.mem_cons_of_mem _ h), hname, htoken⟩
  · rintro ⟨key, value, rfl, hkey, hname, htoken⟩
    refine ⟨' ' :: key, value, rfl, ?_, (trim_cons_space key).trans hname, htoken⟩
    simpa using hkey

/-! ## The header that comes back -/

/-- The pieces between the `;` of a header. -/
def pieces : List Text → List Text
  | [] => []
  | pair :: pairs => pair :: pairs.map (List.cons ' ')

theorem cookieHeader_eq (pairs : List Text) :
    cookieHeader pairs = [';'].intercalate (pieces pairs) := by
  cases pairs with
  | nil => rfl
  | cons pair pairs =>
      induction pairs generalizing pair with
      | nil => simp [cookieHeader, pieces, List.intercalate]
      | cons next pairs ih =>
          have hleft : cookieHeader (pair :: next :: pairs) =
              pair ++ ';' :: ' ' :: cookieHeader (next :: pairs) := by
            simp [cookieHeader, List.intercalate]
          have hright : [';'].intercalate (pieces (pair :: next :: pairs)) =
              pair ++ ';' :: ' ' :: [';'].intercalate (pieces (next :: pairs)) := by
            cases pairs <;> simp [pieces, List.intercalate]
          rw [hleft, hright, ih next]

/-- The first pair of a name is read, whatever follows. -/
theorem readCookie_cookieHeader {pair : Text} {before after : List Text}
    (hplain : ∀ p ∈ before ++ pair :: after, ';' ∉ p)
    (hbefore : ∀ p ∈ before, ∀ t, ¬ IsCookie name p t) (hpair : IsCookie name pair token) :
    readCookie (cookieHeader (before ++ pair :: after)) name = some token := by
  have hsplit : (cookieHeader (before ++ pair :: after)).splitOn ';' =
      pieces (before ++ pair :: after) := by
    refine (Text.splitOn_eq_iff (by cases before <;> simp [pieces])).mpr
      ⟨cookieHeader_eq _, fun piece hpiece ↦ ?_⟩
    cases hlist : before ++ pair :: after with
    | nil => simp at hlist
    | cons p ps =>
        rw [hlist, pieces, List.mem_cons, List.mem_map] at hpiece
        rw [hlist] at hplain
        rcases hpiece with rfl | ⟨q, hq, rfl⟩
        · exact hplain _ List.mem_cons_self
        · simpa using hplain q (List.mem_cons_of_mem _ hq)
  rw [readCookie_eq_some_iff, NamesCookie, hsplit]
  cases before with
  | nil => exact ⟨[], pair, _, rfl, hpair, by simp⟩
  | cons p ps =>
      refine ⟨p :: ps.map (List.cons ' '), ' ' :: pair, after.map (List.cons ' '), ?_,
        isCookie_cons_space.mpr hpair, ?_⟩
      · simp [pieces]
      · intro q hq t hcookie
        rcases List.mem_cons.mp hq with rfl | hq
        · exact hbefore q List.mem_cons_self t hcookie
        · obtain ⟨r, hr, rfl⟩ := List.mem_map.mp hq
          exact hbefore r (List.mem_cons_of_mem _ hr) t (isCookie_cons_space.mp hcookie)

/-! ## The value that is sent -/

theorem notMem_digits (n : ℕ) : ';' ∉ Nat.toDigits 10 n := by
  intro h
  exact absurd (Nat.isDigit_of_mem_toDigits (by decide) (by decide) h) (by decide)

theorem splitOn_sessionCookie (hname : name.all isCookieNameChar = true)
    (htoken : token.all isCookieNameChar = true) (maxAgeSeconds : ℕ) (secure : Bool) :
    (sessionCookie name token maxAgeSeconds secure).splitOn ';' =
      (name ++ '=' :: token) :: attributes maxAgeSeconds secure := by
  refine (Text.splitOn_eq_iff (by simp)).mpr ⟨?_, ?_⟩
  · have hfixed : "; Path=/; HttpOnly; SameSite=Strict; Max-Age=".toList =
        ';' :: " Path=/".toList ++ ';' :: " HttpOnly".toList ++ ';' :: " SameSite=Strict".toList ++
          ';' :: " Max-Age=".toList := by decide
    have hsecure : "; Secure".toList = ';' :: " Secure".toList := by decide
    cases secure <;>
      simp [sessionCookie, attributes, List.intercalate, hfixed, hsecure, -String.reduceToList]
  · intro piece hpiece
    have hage : ';' ∉ " Max-Age=".toList ++ Nat.toDigits 10 maxAgeSeconds := by
      rw [List.mem_append, not_or]
      exact ⟨by decide, notMem_digits _⟩
    rcases List.mem_cons.mp hpiece with rfl | hpiece
    · exact notMem_pair hname htoken
    · rcases List.mem_append.mp hpiece with hpiece | hpiece
      · simp only [List.mem_cons, List.not_mem_nil, or_false] at hpiece
        rcases hpiece with rfl | rfl | rfl | rfl
        · decide
        · decide
        · decide
        · exact hage
      · cases secure with
        | true =>
            rw [if_pos rfl, List.mem_singleton] at hpiece
            subst hpiece
            decide
        | false => simp at hpiece

theorem all_isVisible {s : Text} (h : s.all isCookieNameChar = true) :
    s.all isVisible = true := by
  rw [List.all_eq_true] at h ⊢
  intro c hc
  obtain ⟨hlow, hhigh, -⟩ := isCookieNameChar_spec (h c hc)
  simp only [isVisible, Bool.and_eq_true, decide_eq_true_eq]
  omega

theorem all_digits (n : ℕ) : (Nat.toDigits 10 n).all isVisible = true := by
  rw [List.all_eq_true]
  intro c hc
  have hdigit := Nat.isDigit_of_mem_toDigits (by decide) (by decide) hc
  simp only [Char.isDigit, Bool.and_eq_true, decide_eq_true_eq, ge_iff_le,
    UInt32.le_iff_toNat_le] at hdigit
  have hrange : 48 ≤ c.toNat ∧ c.toNat ≤ 57 := hdigit
  simp only [isVisible, Bool.and_eq_true, decide_eq_true_eq]
  omega

theorem fromStr_sessionCookie (http : HttpCrate) (hname : name.all isCookieNameChar = true)
    (htoken : token.all isCookieNameChar = true) (maxAgeSeconds : ℕ) (secure : Bool) :
    http.fromStr (sessionCookie name token maxAgeSeconds secure) =
      some (sessionCookie name token maxAgeSeconds secure) := by
  have hfixed : "; Path=/; HttpOnly; SameSite=Strict; Max-Age=".toList.all isVisible = true := by
    decide
  have hsecure : "; Secure".toList.all isVisible = true := by decide
  have hequals : isVisible '=' = true := by decide
  have hall : (sessionCookie name token maxAgeSeconds secure).all isVisible = true := by
    cases secure <;>
      simp only [sessionCookie, List.all_append, List.all_cons, all_isVisible hname,
        all_isVisible htoken, all_digits, hfixed, hsecure, hequals, Bool.and_self, if_pos,
        Bool.false_eq_true, if_false]
  exact http.fromStr_of_visible _ hall

end Pairs

theorem clearedCookie_eq (name : Text) (secure : Bool) :
    clearedCookie name secure = sessionCookie name [] 0 secure := by
  have hfixed : "=; Path=/; HttpOnly; SameSite=Strict; Max-Age=0".toList =
      '=' :: ("; Path=/; HttpOnly; SameSite=Strict; Max-Age=".toList ++ Nat.toDigits 10 0) := by
    decide
  have hcookie : name ++ "=; Path=/; HttpOnly; SameSite=Strict; Max-Age=0".toList =
      name ++ ['='] ++ "; Path=/; HttpOnly; SameSite=Strict; Max-Age=".toList ++
        Nat.toDigits 10 0 := by
    rw [hfixed, List.append_assoc, List.append_assoc, List.singleton_append]
  exact congrArg (fun cookie ↦ if secure then cookie ++ "; Secure".toList else cookie) hcookie

/-- The cookies of an accepted configuration are always sent, with the attributes
of the contract.  The token of a new session comes back whatever cookies the
browser holds besides, and the cookie that ends a session carries none. -/
theorem session_cookie_returns (http : HttpCrate) (config : Config) (base64 : Base64Url)
    (bytes : Vector UInt8 32) (setCookie : Option Text) {before after : List Text}
    (hothers : ∀ p ∈ before ++ after, ';' ∉ p ∧ ∀ t, ¬ IsCookie config.cookieName p t) :
    (∃ value, withCookie http setCookie (sessionCookie config.cookieName
          (generateToken base64 bytes) config.sessionTtl config.cookieSecure) = some value ∧
        value.splitOn ';' = (config.cookieName ++ '=' :: generateToken base64 bytes) ::
          attributes config.sessionTtl config.cookieSecure ∧
        (config.env = .production → " Secure".toList ∈ value.splitOn ';') ∧
        readCookie (cookieHeader (before ++
            (config.cookieName ++ '=' :: generateToken base64 bytes) :: after)) config.cookieName =
          some (generateToken base64 bytes)) ∧
      ∃ value, withCookie http setCookie (clearedCookie config.cookieName config.cookieSecure) =
          some value ∧
        value.splitOn ';' = (config.cookieName ++ ['=']) :: attributes 0 config.cookieSecure := by
  have hname := config.cookie.2
  have htoken := all_generateToken base64 bytes
  have hsplit := splitOn_sessionCookie hname htoken config.sessionTtl config.cookieSecure
  constructor
  · refine ⟨_, ?_, hsplit, fun hproduction ↦ ?_, ?_⟩
    · rw [withCookie, fromStr_sessionCookie http hname htoken]
    · rw [hsplit, attributes, config.secure hproduction]
      simp
    · refine readCookie_cookieHeader (fun p hp ↦ ?_)
        (fun p hp ↦ (hothers p (List.mem_append_left _ hp)).2) (isCookie_pair hname htoken)
      rw [List.mem_append, List.mem_cons] at hp
      rcases hp with hp | rfl | hp
      · exact (hothers p (List.mem_append_left _ hp)).1
      · exact notMem_pair hname htoken
      · exact (hothers p (List.mem_append_right _ hp)).1
  · refine ⟨sessionCookie config.cookieName [] 0 config.cookieSecure, ?_, ?_⟩
    · rw [clearedCookie_eq, withCookie, fromStr_sessionCookie http hname rfl]
    · exact splitOn_sessionCookie hname rfl 0 config.cookieSecure

/-- Between two cookies of other applications on the host. -/
theorem session_cookie_returns_between : ∃ value pair,
    pair = "otdel_session=".toList ++ generateToken .reference (Vector.replicate 32 7) ∧
      withCookie .reference none (sessionCookie "otdel_session".toList
        (generateToken .reference (Vector.replicate 32 7)) 43200 false) = some value ∧
      value.splitOn ';' = pair :: attributes 43200 false ∧
      readCookie (cookieHeader ["theme=dark".toList, pair, "lang=ru".toList])
        "otdel_session".toList = some (generateToken .reference (Vector.replicate 32 7)) := by
  have hothers : ∀ p ∈ ["theme=dark".toList] ++ ["lang=ru".toList],
      ';' ∉ p ∧ ∀ t, ¬ IsCookie Auth.EvilOrigin.config.cookieName p t := by
    intro p hp
    refine ⟨?_, fun t ht ↦ ?_⟩
    · simp only [List.cons_append, List.nil_append, List.mem_cons, List.not_mem_nil, or_false] at hp
      rcases hp with rfl | rfl <;> decide
    · rw [← cookieOf_eq_some_iff] at ht
      simp only [List.cons_append, List.nil_append, List.mem_cons, List.not_mem_nil, or_false] at hp
      rcases hp with rfl | rfl
      · have hnone : cookieOf Auth.EvilOrigin.config.cookieName "theme=dark".toList = none := by
          decide
        rw [hnone] at ht
        cases ht
      · have hnone : cookieOf Auth.EvilOrigin.config.cookieName "lang=ru".toList = none := by
          decide
        rw [hnone] at ht
        cases ht
  obtain ⟨value, hsent, hsplit, -, hread⟩ :=
    (session_cookie_returns .reference Auth.EvilOrigin.config .reference (Vector.replicate 32 7)
      none hothers).1
  exact ⟨value, _, rfl, hsent, hsplit, hread⟩

end Cookie

end Otdel
