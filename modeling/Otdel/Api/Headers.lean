import Otdel.Api.Session

/-!
# What headers say

The readers of cookies and of tokens, by what they accept.
-/

namespace Otdel

variable {s : Text}

theorem tokensMatch_iff {expected provided : Text} :
    tokensMatch expected provided = true ↔ expected = provided := by
  simp only [tokensMatch]
  split
  · rename_i hlength
    simp only [Bool.false_eq_true, false_iff]
    rintro rfl
    exact hlength rfl
  · rw [decide_eq_true_eq]
    exact Text.utf8Bytes_injective.eq_iff

/-! ## Cookies -/

/-- The text before the first separator and the text after it. -/
theorem splitOnce_eq_some_iff {sep : Char} {key rest : Text} :
    splitOnce sep s = some (key, rest) ↔ s = key ++ sep :: rest ∧ sep ∉ key := by
  simp only [splitOnce, List.span_eq_takeWhile_dropWhile]
  constructor
  · intro h
    split at h
    · rename_i before c after hsplit
      cases h
      rw [Prod.mk.injEq] at hsplit
      have hne : s.dropWhile (fun c ↦ decide (c ≠ sep)) ≠ [] := by
        rw [hsplit.2]
        exact List.cons_ne_nil _ _
      have hhead := List.head_dropWhile_not (fun c ↦ decide (c ≠ sep)) hne
      simp only [hsplit.2, List.head_cons, decide_eq_false_iff_not, not_not] at hhead
      refine ⟨?_, fun hmem ↦ ?_⟩
      · rw [← hhead, ← hsplit.2, ← hsplit.1, List.takeWhile_append_dropWhile]
      · rw [← hsplit.1] at hmem
        simpa using List.mem_takeWhile_imp hmem
    · cases h
  · rintro ⟨rfl, hkey⟩
    have hall : ∀ c ∈ key, decide (c ≠ sep) = true := by
      rintro c hc
      rw [decide_eq_true_eq]
      rintro rfl
      exact hkey hc
    rw [List.takeWhile_append_of_pos hall, List.dropWhile_append_of_pos hall]
    simp

/-- A pair of a `Cookie` header that gives this value to this name. -/
def IsCookie (name pair token : Text) : Prop :=
  ∃ key value, pair = key ++ '=' :: value ∧ '=' ∉ key ∧ Text.trim key = name ∧
    Text.trim value = token

/-- The first well-formed pair of this name has this value. -/
def NamesCookie (name header token : Text) : Prop :=
  ∃ earlier pair later, header.splitOn ';' = earlier ++ pair :: later ∧
    IsCookie name pair token ∧ ∀ p ∈ earlier, ∀ t, ¬ IsCookie name p t

/-- What a pair gives to a name. -/
def cookieOf (name pair : Text) : Option Text :=
  (splitOnce '=' pair).bind fun (key, value) ↦
    if Text.trim key = name then some (Text.trim value) else none

theorem cookieOf_eq_some_iff {name pair token : Text} :
    cookieOf name pair = some token ↔ IsCookie name pair token := by
  simp only [cookieOf, Option.bind_eq_some_iff, Prod.exists, splitOnce_eq_some_iff]
  constructor
  · rintro ⟨key, value, ⟨rfl, hkey⟩, h⟩
    split at h
    · rename_i hname
      cases h
      exact ⟨key, value, rfl, hkey, hname, rfl⟩
    · cases h
  · rintro ⟨key, value, rfl, hkey, hname, rfl⟩
    exact ⟨key, value, ⟨rfl, hkey⟩, if_pos hname⟩

/-- A cookie is read from the first well-formed pair of its name. -/
theorem readCookie_eq_some_iff {name header token : Text} :
    readCookie header name = some token ↔ NamesCookie name header token := by
  rw [readCookie, List.findSome?_eq_some_iff]
  constructor
  · rintro ⟨earlier, pair, later, hsplit, hpair, hearlier⟩
    refine ⟨earlier, pair, later, hsplit, cookieOf_eq_some_iff.mp hpair, fun p hp t ht ↦ ?_⟩
    have hnone : cookieOf name p = none := hearlier p hp
    rw [cookieOf_eq_some_iff.mpr ht] at hnone
    cases hnone
  · rintro ⟨earlier, pair, later, hsplit, hpair, hearlier⟩
    refine ⟨earlier, pair, later, hsplit, cookieOf_eq_some_iff.mpr hpair, fun p hp ↦ ?_⟩
    rw [← cookieOf, Option.eq_none_iff_forall_ne_some]
    exact fun t ht ↦ hearlier p hp t (cookieOf_eq_some_iff.mp ht)

end Otdel
