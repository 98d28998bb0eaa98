import Otdel.Scripts.TypeCheck

/-!
# What stands next to a command

The patterns look for words.  Blanks around a command, a comment after it and other
lines beside it add no word to it and take none away.  Only a call can be broken:
its tool may stand at the end of one line, and its script on the next.
-/

namespace Otdel.Scripts

/-! ## Words and blanks -/

theorem toNat_of_isScriptNameChar {c : Char} (h : isScriptNameChar c = true) :
    0x20 < c.toNat ∧ c.toNat < 0x80 := by
  simp only [isScriptNameChar, Char.isAlphanum, Char.isAlpha, Char.isUpper, Char.isLower,
    Char.isDigit, Bool.or_eq_true, Bool.and_eq_true, decide_eq_true_eq, ge_iff_le,
    UInt32.le_iff_toNat_le] at h
  rcases h with (((((h | h) | h) | rfl) | rfl) | rfl) | rfl
  · exact ⟨lt_of_lt_of_le (by decide) h.1, lt_of_le_of_lt h.2 (by decide)⟩
  · exact ⟨lt_of_lt_of_le (by decide) h.1, lt_of_le_of_lt h.2 (by decide)⟩
  · exact ⟨lt_of_lt_of_le (by decide) h.1, lt_of_le_of_lt h.2 (by decide)⟩
  · decide
  · decide
  · decide
  · decide

theorem isJsBlank_of_isScriptNameChar {c : Char} (h : isScriptNameChar c = true) :
    Web.isJsBlank c = false := by
  have hbounds := toNat_of_isScriptNameChar h
  rw [← Bool.not_eq_true, Web.isJsBlank_iff]
  simp only [Text.isWhitespace, Bool.or_eq_true, Bool.and_eq_true, decide_eq_true_eq]
  omega

theorem isScriptNameChar_of_isJsBlank {c : Char} (h : Web.isJsBlank c = true) :
    isScriptNameChar c = false := by
  by_contra hname
  rw [Bool.not_eq_false] at hname
  rw [isJsBlank_of_isScriptNameChar hname] at h
  cases h

theorem isScriptWordChar_of_isJsBlank {c : Char} (h : Web.isJsBlank c = true) :
    isScriptWordChar c = false := by
  have hname := isScriptNameChar_of_isJsBlank h
  simp only [isScriptNameChar, Bool.or_eq_false_iff] at hname
  simp only [isScriptWordChar, Bool.or_eq_false_iff]
  exact ⟨hname.1.1.1.1, hname.1.1.1.2⟩

/-- A word of letters that the patterns look for. -/
def IsWord (word : Text) : Prop := word ≠ [] ∧ word.all isScriptNameChar = true

instance (word : Text) : Decidable (IsWord word) := by
  unfold IsWord
  infer_instance

theorem isWord_run : IsWord "run".toList := by decide

theorem isWord_packageManagers : ∀ tool ∈ packageManagers, IsWord tool := by decide

theorem isWord_typeScriptTools : ∀ tool ∈ typeScriptTools, IsWord tool := by decide

section Words

variable {c : Char} {s t word : Text}

theorem stripPrefix_nil (hword : IsWord word) : Text.stripPrefix word [] = none := by
  cases word with
  | nil => exact absurd rfl hword.1
  | cons w word => rfl

/-- A word does not begin with another character than its own. -/
theorem stripPrefix_cons (hword : IsWord word) (hc : isScriptNameChar c = false) :
    Text.stripPrefix word (c :: s) = none := by
  obtain ⟨hne, hall⟩ := hword
  cases word with
  | nil => exact absurd rfl hne
  | cons w word =>
      have hwc : w ≠ c := by
        rintro rfl
        rw [List.all_eq_true.mp hall w List.mem_cons_self] at hc
        cases hc
      simp [Text.stripPrefix, List.isPrefixOf?, hwc]

/-- Nor does it go on with one. -/
theorem stripPrefix_append_cons (hc : isScriptNameChar c = false)
    (hword : word.all isScriptNameChar = true) (s : Text) :
    Text.stripPrefix word (s ++ c :: t) = (Text.stripPrefix word s).map (· ++ c :: t) := by
  induction word generalizing s with
  | nil => rfl
  | cons w word ih =>
      rw [List.all_cons, Bool.and_eq_true] at hword
      cases s with
      | nil =>
          have hne : w ≠ c := by
            rintro rfl
            rw [hword.1] at hc
            cases hc
          simp [Text.stripPrefix, List.isPrefixOf?, hne]
      | cons d s =>
          have hrest := ih hword.2 s
          simp only [Text.stripPrefix] at hrest ⊢
          by_cases hwd : w = d
          · simp [List.isPrefixOf?, hwd, hrest]
          · simp [List.isPrefixOf?, hwd]

/-- `\s+` stays within a text that has something else. -/
theorem afterBlanks_append (hs : ∃ d ∈ s, Web.isJsBlank d = false) :
    afterBlanks (s ++ t) = (afterBlanks s).map (· ++ t) := by
  obtain ⟨d, hd, hnot⟩ := hs
  cases s with
  | nil => cases hd
  | cons b s =>
      by_cases hb : Web.isJsBlank b = true
      · have hne : (s.dropWhile Web.isJsBlank).isEmpty = false := by
          rw [List.isEmpty_eq_false_iff]
          intro hnil
          rw [List.dropWhile_eq_nil_iff] at hnil
          rcases List.mem_cons.mp hd with rfl | hd
          · rw [hb] at hnot
            cases hnot
          · rw [hnil d hd] at hnot
            cases hnot
        simp [afterBlanks, hb, List.dropWhile_append, hne]
      · simp [afterBlanks, hb]

theorem exists_of_afterBlanks {rest : Text} (h : afterBlanks s = some rest) :
    ∃ pre b, s = pre ++ b :: rest ∧ Web.isJsBlank b = true := by
  cases s with
  | nil => cases h
  | cons b s =>
      simp only [afterBlanks, Option.ite_none_right_eq_some, Option.some.injEq] at h
      obtain ⟨hb, rfl⟩ := h
      have hsplit : s = s.takeWhile Web.isJsBlank ++ s.dropWhile Web.isJsBlank :=
        List.takeWhile_append_dropWhile.symm
      rcases List.eq_nil_or_concat (s.takeWhile Web.isJsBlank) with hnil | ⟨blanks, d, hblanks⟩
      · exact ⟨[], b, by rw [hnil] at hsplit; exact congrArg (b :: ·) hsplit, hb⟩
      · refine ⟨b :: blanks, d, ?_, ?_⟩
        · rw [hblanks] at hsplit
          conv_lhs => rw [hsplit]
          simp
        · have hmem : d ∈ s.takeWhile Web.isJsBlank := by simp [hblanks]
          exact List.mem_takeWhile_imp hmem

end Words

/-! ## Tools -/

section Tools

variable {c : Char} {s t : Text}

theorem startsWithTool_nil : startsWithTool [] = false := rfl

theorem startsWithTool_append_blank (hc : Web.isJsBlank c = true) (s : Text) :
    startsWithTool (s ++ c :: t) = startsWithTool s := by
  have hend (tool : Text) (htool : IsWord tool) :
      ((Text.stripPrefix tool (s ++ c :: t)).any fun rest ↦ rest.head?.all isTokenEnd) =
        ((Text.stripPrefix tool s).any fun rest ↦ rest.head?.all isTokenEnd) := by
    rw [stripPrefix_append_cons (isScriptNameChar_of_isJsBlank hc) htool.2]
    cases Text.stripPrefix tool s with
    | none => rfl
    | some rest =>
        cases rest with
        | nil => simp [isTokenEnd, hc]
        | cons d rest => rfl
  have hall := isWord_typeScriptTools
  unfold startsWithTool
  generalize typeScriptTools = tools at hall
  induction tools with
  | nil => rfl
  | cons tool tools ih =>
      rw [List.any_cons, List.any_cons, hend tool (hall tool List.mem_cons_self),
        ih fun tool' htool ↦ hall tool' (List.mem_cons_of_mem tool htool)]

theorem exists_of_runners {rest : Text} (h : some rest ∈ runners s) :
    rest = s ∨ ∃ pre b, s = pre ++ b :: rest ∧ Web.isJsBlank b = true := by
  have hafter {word s' rest : Text} (hword : Text.stripPrefix word s = some s')
      (hrest : afterBlanks s' = some rest) :
      ∃ pre b, s = pre ++ b :: rest ∧ Web.isJsBlank b = true := by
    obtain rfl := Text.stripPrefix_eq_some.mp hword
    obtain ⟨pre, b, rfl, hb⟩ := exists_of_afterBlanks hrest
    exact ⟨word ++ pre, b, (List.append_assoc ..).symm, hb⟩
  simp only [runners, List.mem_cons, List.not_mem_nil, or_false, Option.some.injEq] at h
  rcases h with h | h | h | rfl
  · obtain ⟨s', hword, hrest⟩ := Option.bind_eq_some_iff.mp h.symm
    exact .inr (hafter hword hrest)
  · obtain ⟨s', hword, h⟩ := Option.bind_eq_some_iff.mp h.symm
    obtain ⟨s'', h, hrest⟩ := Option.bind_eq_some_iff.mp h
    obtain ⟨s₃, hblanks, hexec⟩ := Option.bind_eq_some_iff.mp h
    obtain rfl := Text.stripPrefix_eq_some.mp hexec
    obtain ⟨pre, b, hsplit, hb⟩ := hafter hword hblanks
    obtain ⟨pre', b', rfl, hb'⟩ := exists_of_afterBlanks hrest
    exact .inr ⟨pre ++ b :: ("exec".toList ++ pre'), b', by simp [hsplit], hb'⟩
  · obtain ⟨s', hword, hrest⟩ := Option.bind_eq_some_iff.mp h.symm
    exact .inr (hafter hword hrest)
  · exact .inl rfl

/-- A match is a tool after the boundary of a token: what may stand in front of the
tool ends in a blank. -/
theorem checkerFrom_iff {atBoundary : Bool} : checkerFrom atBoundary s = true ↔
    ∃ pre rest, s = pre ++ rest ∧ pre.getLast?.elim atBoundary isTokenStart = true ∧
      startsWithTool rest = true := by
  induction s generalizing atBoundary with
  | nil =>
      refine iff_of_false Bool.false_ne_true ?_
      rintro ⟨pre, rest, hsplit, -, htool⟩
      obtain ⟨rfl, rfl⟩ := List.append_eq_nil_iff.mp hsplit.symm
      rw [startsWithTool_nil] at htool
      cases htool
  | cons c s ih =>
      rw [checkerFrom, Bool.or_eq_true, Bool.and_eq_true, ih]
      constructor
      · rintro (⟨hboundary, hat⟩ | ⟨pre, rest, rfl, hlast, htool⟩)
        · obtain ⟨r, hmem, hr⟩ := List.any_eq_true.mp hat
          obtain ⟨rest, rfl, htool⟩ := (Option.any_eq_true _ _).mp hr
          rcases exists_of_runners hmem with rfl | ⟨pre, b, hsplit, hb⟩
          · exact ⟨[], c :: s, rfl, hboundary, htool⟩
          · exact ⟨pre ++ [b], rest, by simp [hsplit], by simp [isTokenStart, hb], htool⟩
        · refine ⟨c :: pre, rest, rfl, ?_, htool⟩
          rw [List.getLast?_cons]
          cases hpre : pre.getLast? with
          | none => simpa [hpre] using hlast
          | some d => simpa [hpre] using hlast
      · rintro ⟨pre, rest, hsplit, hlast, htool⟩
        cases pre with
        | nil =>
            obtain rfl : c :: s = rest := hsplit
            refine .inl ⟨hlast, List.any_eq_true.mpr ⟨some (c :: s), ?_, htool⟩⟩
            simp [runners]
        | cons d pre =>
            obtain ⟨rfl, rfl⟩ := List.cons.inj hsplit
            refine .inr ⟨pre, rest, rfl, ?_, htool⟩
            rw [List.getLast?_cons] at hlast
            cases hpre : pre.getLast? with
            | none => simpa [hpre] using hlast
            | some e => simpa [hpre] using hlast

/-- No match of a tool goes over a blank. -/
theorem tsCheckerRe_append_blank (hc : Web.isJsBlank c = true) :
    tsCheckerRe (s ++ c :: t) = true ↔ tsCheckerRe s = true ∨ tsCheckerRe t = true := by
  have hstart : isTokenStart c = true := by simp [isTokenStart, hc]
  simp only [tsCheckerRe, checkerFrom_iff]
  constructor
  · rintro ⟨pre, rest, hsplit, hlast, htool⟩
    rcases List.append_eq_append_iff.mp hsplit with ⟨mid, rfl, hrest⟩ | ⟨mid, rfl, hrest⟩
    · cases mid with
      | nil =>
          obtain rfl : rest = c :: t := by simpa using hrest.symm
          have hnone := startsWithTool_append_blank (t := t) hc []
          rw [List.nil_append, htool, startsWithTool_nil] at hnone
          cases hnone
      | cons d mid =>
          obtain ⟨rfl, rfl⟩ := List.cons.inj hrest
          refine .inr ⟨mid, rest, rfl, ?_, htool⟩
          rw [List.getLast?_append, List.getLast?_cons] at hlast
          cases hmid : mid.getLast? with
          | none => rfl
          | some e => simpa [hmid] using hlast
    · rw [hrest, startsWithTool_append_blank hc] at htool
      exact .inl ⟨pre, mid, rfl, hlast, htool⟩
  · rintro (⟨pre, rest, rfl, hlast, htool⟩ | ⟨pre, rest, rfl, hlast, htool⟩)
    · refine ⟨pre, rest ++ c :: t, List.append_assoc .., hlast, ?_⟩
      rw [startsWithTool_append_blank hc, htool]
    · refine ⟨s ++ c :: pre, rest, by simp, ?_, htool⟩
      rw [List.getLast?_append, List.getLast?_cons]
      cases hpre : pre.getLast? with
      | none => simpa using hstart
      | some e => simpa [hpre] using hlast

/-- Quotes around a command bring no tool into it. -/
theorem tsCheckerRe_of_quoted {q : Char} (hname : isScriptNameChar q = false)
    (h : tsCheckerRe (q :: (s ++ [q])) = true) : tsCheckerRe s = true := by
  have hcons (rest : Text) : startsWithTool (q :: rest) = false := by
    rw [startsWithTool, List.any_eq_false]
    intro tool htool
    rw [stripPrefix_cons (isWord_typeScriptTools tool htool) hname]
    exact Bool.false_ne_true
  have hclosed {rest : Text} (hrest : startsWithTool (rest ++ [q]) = true) :
      startsWithTool rest = true := by
    obtain ⟨tool, htool, hany⟩ := List.any_eq_true.mp hrest
    refine List.any_eq_true.mpr ⟨tool, htool, ?_⟩
    rw [stripPrefix_append_cons hname (isWord_typeScriptTools tool htool).2] at hany
    cases hstrip : Text.stripPrefix tool rest with
    | none => simp [hstrip] at hany
    | some after =>
        cases after with
        | nil => rfl
        | cons d after => simpa [hstrip] using hany
  obtain ⟨pre, rest, hsplit, hlast, htool⟩ := checkerFrom_iff.mp h
  cases pre with
  | nil =>
      obtain rfl : q :: (s ++ [q]) = rest := hsplit
      rw [hcons] at htool
      cases htool
  | cons d pre =>
      obtain ⟨rfl, hrest⟩ : q = d ∧ s ++ [q] = pre ++ rest := List.cons.inj hsplit
      have hboundary : pre.getLast?.elim true isTokenStart = true := by
        rw [List.getLast?_cons] at hlast
        cases hpre : pre.getLast? with
        | none => rfl
        | some e => simpa [hpre] using hlast
      rcases List.eq_nil_or_concat rest with rfl | ⟨rest, e, rfl⟩
      · cases htool
      · rw [List.concat_eq_append, ← List.append_assoc] at hrest
        obtain ⟨rfl, he⟩ := List.append_inj' hrest rfl
        obtain rfl : q = e := by simpa using he
        rw [List.concat_eq_append] at htool
        exact checkerFrom_iff.mpr ⟨pre, rest, rfl, hboundary, hclosed htool⟩

end Tools

/-! ## Calls -/

/-- What can follow a command without being read as a part of it: blanks, and then
nothing or a character that no script name has. -/
structure Trails (ext : Text) : Prop where
  blank : ∃ b rest, ext = b :: rest ∧ Web.isJsBlank b = true
  stuck : ∀ c ∈ (ext.dropWhile Web.isJsBlank).head?, isScriptNameChar c = false

/-- A call begins here that is broken off before its script. -/
def opensCall (s : Text) : Bool :=
  packageManagers.any fun tool ↦ (Text.stripPrefix tool s).any fun s ↦
    s.all Web.isJsBlank ||
      ((afterBlanks s).bind (Text.stripPrefix "run".toList)).any fun s ↦ s.all Web.isJsBlank

/-- No call of the line is broken off at its end. -/
def Unbroken (line : Text) : Prop := ∀ s, s <:+ line → opensCall s = false

instance (line : Text) : Decidable (Unbroken line) :=
  decidable_of_iff (∀ s ∈ line.tails, opensCall s = false) (by simp [Unbroken])

section Calls

variable {c : Char} {ext s t tool : Text}

theorem scriptName_append_blank (hc : Web.isJsBlank c = true) (s : Text) :
    scriptName (s ++ c :: t) = (scriptName s).map fun r ↦ (r.1, r.2 ++ c :: t) := by
  have hname := isScriptNameChar_of_isJsBlank hc
  have htake : (c :: t).takeWhile isScriptNameChar = [] :=
    List.takeWhile_cons_of_neg (by simp [hname])
  have hdrop : (c :: t).dropWhile isScriptNameChar = c :: t :=
    List.dropWhile_cons_of_neg (by simp [hname])
  have hhead : (s ++ c :: t).takeWhile isScriptNameChar = s.takeWhile isScriptNameChar := by
    rw [List.takeWhile_append, htake, List.append_nil]
    split
    · rename_i hlength
      exact ((List.takeWhile_prefix _).eq_of_length hlength).symm
    · rfl
  have hafter : (s ++ c :: t).dropWhile isScriptNameChar =
      s.dropWhile isScriptNameChar ++ c :: t := by
    rw [List.dropWhile_append, hdrop]
    split
    · rename_i hnil
      rw [List.isEmpty_iff.mp hnil, List.nil_append]
    · rfl
  unfold scriptName
  rw [hhead, hafter]
  split <;> rfl

/-- `\s+` and then something that cannot begin in `ext`. -/
theorem afterBlanks_bind_append {β : Type} (hext : Trails ext) (f : Text → Option β)
    (extend : β → β) (hnil : f [] = none) (hstuck : f (ext.dropWhile Web.isJsBlank) = none)
    (happend : ∀ c rest, f (c :: rest ++ ext) = (f (c :: rest)).map extend) (s : Text) :
    (afterBlanks (s ++ ext)).bind f = ((afterBlanks s).bind f).map extend := by
  cases s with
  | nil =>
      obtain ⟨b, rest, rfl, hb⟩ := hext.blank
      rw [List.dropWhile_cons_of_pos hb] at hstuck
      simp [afterBlanks, hb, hstuck]
  | cons c s =>
      by_cases hc : Web.isJsBlank c = true
      · simp only [List.cons_append, afterBlanks, hc, if_true, Option.bind_some]
        rw [List.dropWhile_append]
        cases hrest : s.dropWhile Web.isJsBlank with
        | nil => simp [hnil, hstuck]
        | cons d rest => simpa using happend d rest
      · simp [afterBlanks, hc]

theorem callOf_append_trails (hext : Trails ext) (htool : IsWord tool) (s : Text) :
    callOf tool (s ++ ext) = (callOf tool s).map fun r ↦ (r.1, r.2 ++ ext) := by
  obtain ⟨b, rest, hcons, hb⟩ := hext.blank
  have hstuck {β : Type} (f : Text → Option β) (hnil : f [] = none)
      (hcons : ∀ c s, isScriptNameChar c = false → f (c :: s) = none) :
      f (ext.dropWhile Web.isJsBlank) = none := by
    have hhead := hext.stuck
    cases htail : ext.dropWhile Web.isJsBlank with
    | nil => exact hnil
    | cons c tail => exact hcons c tail (hhead c (by rw [htail]; rfl))
  have hname (c : Char) (s : Text) (hc : isScriptNameChar c = false) :
      scriptName (c :: s) = none := by
    simp [scriptName, hc]
  have hblank (word : Text) (hword : IsWord word) (s : Text) :
      Text.stripPrefix word (s ++ ext) = (Text.stripPrefix word s).map (· ++ ext) := by
    subst hcons
    exact stripPrefix_append_cons (isScriptNameChar_of_isJsBlank hb) hword.2 s
  unfold callOf
  rw [hblank tool htool]
  cases Text.stripPrefix tool s with
  | none => rfl
  | some s =>
      simp only [Option.map_some, Option.bind_some]
      rw [afterBlanks_bind_append hext _ (· ++ ext) (stripPrefix_nil isWord_run)
        (hstuck _ (stripPrefix_nil isWord_run) fun _ _ ↦ stripPrefix_cons isWord_run)
        fun c rest ↦ hblank _ isWord_run (c :: rest)]
      cases (afterBlanks s).bind (Text.stripPrefix "run".toList) with
      | none => rfl
      | some s =>
          refine afterBlanks_bind_append hext scriptName _ rfl (hstuck _ rfl hname)
            (fun c rest' ↦ ?_) s
          subst hcons
          exact scriptName_append_blank hb (c :: rest')

theorem exists_of_all_eq_false (h : s.all Web.isJsBlank = false) :
    ∃ d ∈ s, Web.isJsBlank d = false := by
  simpa using h

/-- A call that is not broken off ends before the blank. -/
theorem callOf_append_blank (hc : Web.isJsBlank c = true) (hopen : opensCall s = false)
    (htool : tool ∈ packageManagers) :
    callOf tool (s ++ c :: t) = (callOf tool s).map fun r ↦ (r.1, r.2 ++ c :: t) := by
  have hword := isWord_packageManagers tool htool
  have hclosed := List.any_eq_false.mp hopen tool htool
  unfold callOf
  rw [stripPrefix_append_cons (isScriptNameChar_of_isJsBlank hc) hword.2]
  cases hstrip : Text.stripPrefix tool s with
  | none => rfl
  | some s' =>
      rw [hstrip, Option.any_some, Bool.not_eq_true, Bool.or_eq_false_iff] at hclosed
      simp only [Option.map_some, Option.bind_some]
      rw [afterBlanks_append (exists_of_all_eq_false hclosed.1)]
      cases hblanks : afterBlanks s' with
      | none => rfl
      | some s'' =>
          have hrun := hclosed.2
          rw [hblanks, Option.bind_some] at hrun
          simp only [Option.map_some, Option.bind_some]
          rw [stripPrefix_append_cons (isScriptNameChar_of_isJsBlank hc) isWord_run.2]
          cases hstrip' : Text.stripPrefix "run".toList s'' with
          | none => rfl
          | some s₃ =>
              rw [hstrip', Option.any_some] at hrun
              simp only [Option.map_some, Option.bind_some]
              rw [afterBlanks_append (exists_of_all_eq_false hrun)]
              cases afterBlanks s₃ with
              | none => rfl
              | some s₄ => exact scriptName_append_blank hc s₄

theorem callAt_append (h : ∀ tool ∈ packageManagers,
      callOf tool (s ++ ext) = (callOf tool s).map fun r ↦ (r.1, r.2 ++ ext)) :
    callAt (s ++ ext) = (callAt s).map fun r ↦ (r.1, r.2 ++ ext) := by
  unfold callAt
  generalize packageManagers = tools at h
  induction tools with
  | nil => rfl
  | cons tool tools ih =>
      rw [List.findSome?_cons, List.findSome?_cons, h tool List.mem_cons_self]
      cases callOf tool s with
      | none => exact ih fun tool' htool ↦ h tool' (List.mem_cons_of_mem tool htool)
      | some r => rfl

/-- The calls of a text that nothing after it completes. -/
theorem callsFrom_append (s ext : Text) (hcall : ∀ tail, tail <:+ s →
      callAt (tail ++ ext) = (callAt tail).map fun r ↦ (r.1, r.2 ++ ext)) {skip : ℕ}
    (hskip : skip ≤ s.length) (before : Option Char) :
    ∃ before', callsFrom skip before (s ++ ext) =
      callsFrom skip before s ++ callsFrom 0 before' ext := by
  induction s generalizing skip before with
  | nil =>
      obtain rfl : skip = 0 := by simpa using hskip
      exact ⟨before, rfl⟩
  | cons c s ih =>
      have hsuffix : ∀ tail, tail <:+ s →
          callAt (tail ++ ext) = (callAt tail).map fun r ↦ (r.1, r.2 ++ ext) :=
        fun tail htail ↦ hcall tail (htail.trans (List.suffix_cons c s))
      cases skip with
      | succ skip => exact ih hsuffix (by simpa using hskip) (some c)
      | zero =>
          have hfirst : (if before.any isScriptWordChar then none else callAt (c :: s ++ ext)) =
              (if before.any isScriptWordChar then none else callAt (c :: s)).map
                fun r ↦ (r.1, r.2 ++ ext) := by
            split
            · rfl
            · exact hcall (c :: s) List.suffix_rfl
          rw [List.cons_append, callsFrom, callsFrom, ← List.cons_append, hfirst]
          cases hfound : (if before.any isScriptWordChar then none else callAt (c :: s)) with
          | none => exact ih hsuffix (Nat.zero_le _) (some c)
          | some r =>
              obtain ⟨name, after⟩ := r
              obtain ⟨before', hcalls⟩ :=
                ih hsuffix (Nat.sub_le s.length after.length) (some c)
              refine ⟨before', ?_⟩
              simp only [Option.map_some, List.length_append, Nat.add_sub_add_right,
                List.cons_append]
              rw [hcalls]

theorem callsFrom_of_blank (hc : Web.isJsBlank c = true) (before : Option Char) :
    callsFrom 0 before (c :: s) = referencedScriptNames s := by
  have hnone : callAt (c :: s) = none := by
    rw [callAt, List.findSome?_eq_none_iff]
    intro tool htool
    rw [callOf, stripPrefix_cons (isWord_packageManagers tool htool)
      (isScriptNameChar_of_isJsBlank hc)]
    rfl
  have hword := isScriptWordChar_of_isJsBlank hc
  rw [callsFrom, hnone, ite_self]
  cases s with
  | nil => rfl
  | cons d s => simp [referencedScriptNames, callsFrom, hword]

/-- The calls of two lines, when none is broken off at the end of the first. -/
theorem referencedScriptNames_append_blank (hc : Web.isJsBlank c = true) (hs : Unbroken s) :
    referencedScriptNames (s ++ c :: t) = referencedScriptNames s ++ referencedScriptNames t := by
  obtain ⟨before, hcalls⟩ := callsFrom_append s (c :: t)
    (fun tail htail ↦ callAt_append fun tool htool ↦
      callOf_append_blank hc (hs tail htail) htool) (Nat.zero_le _) none
  rw [referencedScriptNames, hcalls, callsFrom_of_blank hc, ← referencedScriptNames]

/-- The calls of a command with something after it that completes none. -/
theorem referencedScriptNames_append_trails (hext : Trails ext) (s : Text) :
    ∃ before, referencedScriptNames (s ++ ext) =
      referencedScriptNames s ++ callsFrom 0 before ext :=
  callsFrom_append s ext (fun tail _ ↦ callAt_append fun tool htool ↦
    callOf_append_trails hext (isWord_packageManagers tool htool) tail) (Nat.zero_le _) none

end Calls

/-! ## Around a command -/

section Around

variable {ext s t blanks : Text} {manifests : List Manifest}

theorem trails_blanks (hne : blanks ≠ []) (hall : ∀ c ∈ blanks, Web.isJsBlank c = true) :
    Trails blanks where
  blank := by
    obtain ⟨b, rest, rfl⟩ := List.exists_cons_of_ne_nil hne
    exact ⟨b, rest, rfl, hall b List.mem_cons_self⟩
  stuck c hc := by
    rw [List.dropWhile_eq_nil_iff.mpr hall] at hc
    cases hc

theorem tsCheckerRe_blanks (hall : ∀ c ∈ blanks, Web.isJsBlank c = true) :
    tsCheckerRe blanks = false := by
  induction blanks with
  | nil => rfl
  | cons c blanks ih =>
      have hc := hall c List.mem_cons_self
      rw [← Bool.not_eq_true, ← List.nil_append (c :: blanks), tsCheckerRe_append_blank hc,
        ih fun d hd ↦ hall d (List.mem_cons_of_mem c hd)]
      simp [tsCheckerRe, checkerFrom]

theorem callsFrom_blanks (hall : ∀ c ∈ blanks, Web.isJsBlank c = true) (before : Option Char) :
    callsFrom 0 before blanks = [] := by
  induction blanks generalizing before with
  | nil => rfl
  | cons c blanks ih =>
      rw [callsFrom_of_blank (hall c List.mem_cons_self)]
      exact ih (fun d hd ↦ hall d (List.mem_cons_of_mem c hd)) none

theorem not_isTypeCheck_nil : ¬ IsTypeCheck manifests [] := by
  rintro (hchecker | ⟨name, hname, -⟩)
  · cases hchecker
  · cases hname

/-- The blanks after a command say nothing. -/
theorem isTypeCheck_append_blanks (hall : ∀ c ∈ blanks, Web.isJsBlank c = true) :
    IsTypeCheck manifests (s ++ blanks) ↔ IsTypeCheck manifests s := by
  cases blanks with
  | nil => rw [List.append_nil]
  | cons c blanks =>
      have hrest := tsCheckerRe_blanks fun d hd ↦ hall d (List.mem_cons_of_mem c hd)
      obtain ⟨before, hcalls⟩ :=
        referencedScriptNames_append_trails (trails_blanks (List.cons_ne_nil c blanks) hall) s
      rw [callsFrom_blanks hall, List.append_nil] at hcalls
      rw [IsTypeCheck, IsTypeCheck, hcalls, tsCheckerRe_append_blank (hall c List.mem_cons_self),
        hrest]
      simp

theorem isTypeCheck_cons_blank {c : Char} (hc : Web.isJsBlank c = true) :
    IsTypeCheck manifests (c :: s) ↔ IsTypeCheck manifests s := by
  have hcalls : referencedScriptNames (c :: s) = referencedScriptNames s :=
    callsFrom_of_blank hc none
  have hchecker := tsCheckerRe_append_blank (s := []) (t := s) hc
  rw [List.nil_append] at hchecker
  rw [IsTypeCheck, IsTypeCheck, hcalls, hchecker]
  simp [tsCheckerRe, checkerFrom]

/-- Nor do the blanks before it. -/
theorem isTypeCheck_trimJs : IsTypeCheck manifests (trimJs s) ↔ IsTypeCheck manifests s := by
  obtain ⟨a, b, hsplit, ha, hb⟩ := Text.exists_trimMatches Web.isJsBlank s
  have hfront (m : Text) : IsTypeCheck manifests (a ++ m) ↔ IsTypeCheck manifests m := by
    clear hsplit
    induction a with
    | nil => rfl
    | cons c a ih =>
        rw [List.cons_append, isTypeCheck_cons_blank (ha c List.mem_cons_self)]
        exact ih fun d hd ↦ ha d (List.mem_cons_of_mem c hd)
  conv_rhs => rw [hsplit]
  rw [List.append_assoc, hfront, isTypeCheck_append_blanks hb, trimJs]

/-- A type check is one also with a comment after it. -/
theorem IsTypeCheck.append (h : IsTypeCheck manifests s) (hext : Trails ext) :
    IsTypeCheck manifests (s ++ ext) := by
  rcases h with hchecker | ⟨name, hname, hleads⟩
  · obtain ⟨b, rest, rfl, hb⟩ := hext.blank
    exact .inl ((tsCheckerRe_append_blank hb).mpr (.inl hchecker))
  · obtain ⟨before, hcalls⟩ := referencedScriptNames_append_trails hext s
    exact .inr ⟨name, hcalls ▸ List.mem_append_left _ hname, hleads⟩

end Around

end Otdel.Scripts
