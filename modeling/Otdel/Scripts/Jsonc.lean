import Otdel.Library.JsonComments
import Otdel.Web.Gates

/-!
# JSON with comments in the repository check

The check takes comments and trailing commas out of a configuration file and
parses what is left.  One pass copies the text without its comments and records
where it copied commas; another blanks the commas that a closing bracket follows.
-/

open Json

namespace Otdel.Scripts

/-- A test of `/\s/` on a piece of the output. -/
def hasBlank (piece : Text) : Bool := piece.any Web.isJsBlank

def skipLine (text : Text) : Text := text.dropWhile (· ≠ '\n')

/-- The text after the next `*/`, if there is one. -/
def skipBlock : Text → Text
  | [] => []
  | '*' :: '/' :: rest => rest
  | _ :: rest => skipBlock rest

theorem length_skipBlock (text : Text) : (skipBlock text).length ≤ text.length := by
  fun_induction skipBlock text with
  | case1 => rfl
  | case2 rest => simp only [List.length_cons]; omega
  | case3 c rest hend ih => simp only [List.length_cons]; omega

/-- The first loop: `text` is what is left to read. -/
def stripLoop (inString : Bool) (text : Text) (out : List Text) (structuralCommas : List ℕ) :
    List Text × List ℕ :=
  match text with
  | [] => (out, structuralCommas)
  | ch :: rest =>
      if inString then
        match ch, rest with
        | '\\', escaped :: after =>
            stripLoop true after (out ++ [[ch], [escaped]]) structuralCommas
        | _, after => stripLoop (ch ≠ '"') after (out ++ [[ch]]) structuralCommas
      else if ch = '"' then stripLoop true rest (out ++ [[ch]]) structuralCommas
      else
        match ch, rest with
        | '/', '/' :: after => stripLoop false (skipLine after) out structuralCommas
        | '/', '*' :: after => stripLoop false (skipBlock after) out structuralCommas
        | _, after =>
            stripLoop false after (out ++ [[ch]])
              (if ch = ',' then structuralCommas ++ [out.length] else structuralCommas)
termination_by text.length
decreasing_by
  all_goals simp only [List.length_cons]
  · omega
  · omega
  · omega
  · have hline := (List.dropWhile_sublist (l := after) (· ≠ '\n')).length_le
    simp only [skipLine]
    omega
  · have hblock := length_skipBlock after
    omega
  · omega

def closesAfter (out : List Text) (pos : ℕ) : Bool :=
  match (out.drop (pos + 1)).dropWhile hasBlank with
  | ['}'] :: _ => true
  | [']'] :: _ => true
  | _ => false

def dropComma (out : List Text) (pos : ℕ) : List Text :=
  if closesAfter out pos then out.set pos [] else out

def stripJsonc (text : Text) : Text :=
  let (out, structuralCommas) := stripLoop false text [] []
  (structuralCommas.foldl dropComma out).flatten

/-! ## The first pass -/

/-- Each character as a piece of the output. -/
def pieces (s : Text) : List Text := s.map fun c ↦ [c]

@[simp] theorem pieces_nil : pieces [] = [] := rfl

@[simp] theorem pieces_cons (c : Char) (s : Text) : pieces (c :: s) = [c] :: pieces s := rfl

theorem pieces_append (s t : Text) : pieces (s ++ t) = pieces s ++ pieces t :=
  List.map_append

@[simp] theorem length_pieces (s : Text) : (pieces s).length = s.length := List.length_map ..

@[simp] theorem flatten_pieces (s : Text) : (pieces s).flatten = s := by
  induction s with
  | nil => rfl
  | cons c s ih => rw [pieces_cons, List.flatten_cons, ih, List.singleton_append]

/-- Where the commas of `as` stand in an output that has `n` pieces before them. -/
def commaPlaces (n : ℕ) : List Atom → List ℕ
  | [] => []
  | a :: as => (if a = .punct ',' then [n] else []) ++ commaPlaces (n + a.render.length) as

theorem stripLoop_string (text : Text) (out : List Text) (commas : List ℕ) :
    stripLoop true text out commas =
      match splitString text with
      | some (raw, after) => stripLoop false after (out ++ pieces (raw ++ ['"'])) commas
      | none => (out ++ pieces text, commas) := by
  induction text using splitString.induct generalizing out with
  | case1 => simp [stripLoop, splitString]
  | case2 rest => simp [stripLoop, splitString]
  | case3 c rest ih =>
      rw [stripLoop, splitString]
      simp only [if_true]
      rw [ih]
      cases splitString rest with
      | none => simp
      | some read => simp
  | case4 c rest hquote hescape ih =>
      have hstep : stripLoop true (c :: rest) out commas =
          stripLoop true rest (out ++ [[c]]) commas := by
        rw [stripLoop.eq_def]
        dsimp only
        rw [if_pos rfl]
        split
        · rename_i escaped after
          exact (hescape escaped after rfl rfl).elim
        · rw [decide_eq_true (p := c ≠ '"') hquote]
      rw [hstep, ih, splitString]
      · cases splitString rest with
        | none => simp
        | some read => simp
      · exact hquote
      · exact hescape

theorem ofChar_eq_comma {c : Char} : Atom.ofChar c = .punct ',' ↔ c = ',' := by
  constructor
  · intro h
    unfold Atom.ofChar at h
    split_ifs at h
    exact Atom.punct.inj h
  · rintro rfl
    decide

theorem closeBlock_skipBlock (text : Text) : skipBlock text = (closeBlock text).getD [] := by
  fun_induction skipBlock text with
  | case1 => rfl
  | case2 rest => rfl
  | case3 c rest hend ih =>
      rw [closeBlock, ih]
      exact hend

theorem stripLoop_code {c : Char} (hquote : c ≠ '"') (rest : Text) (out : List Text)
    (commas : List ℕ) :
    stripLoop false (c :: rest) out commas =
      match commentAt c rest with
      | some (_, after) => stripLoop false after out commas
      | none =>
          stripLoop false rest (out ++ [[c]])
            (if c = ',' then commas ++ [out.length] else commas) := by
  rw [stripLoop.eq_def]
  dsimp only
  rw [if_neg Bool.false_ne_true, if_neg hquote]
  split
  · rfl
  · rename_i after
    rw [closeBlock_skipBlock, commentAt]
    cases closeBlock after <;> rfl
  · rename_i hline hblock
    rw [commentAt]
    · exact hline
    · exact hblock

theorem render_commentAt {c : Char} {rest after : Text} {a : Atom}
    (h : commentAt c rest = some (a, after)) : a.render = [] ∧ a ≠ .punct ',' := by
  unfold commentAt at h
  split at h
  · obtain ⟨rfl, -⟩ := Prod.mk.inj (Option.some.inj h)
    exact ⟨rfl, nofun⟩
  · split at h <;> obtain ⟨rfl, -⟩ := Prod.mk.inj (Option.some.inj h)
    · exact ⟨rfl, nofun⟩
    · exact ⟨rfl, nofun⟩
  · exact absurd h nofun

/-- The first pass copies the atoms that are no comments, and records its commas. -/
theorem stripLoop_eq (text : Text) (out : List Text) (commas : List ℕ) :
    stripLoop false text out commas =
      (out ++ pieces (render (atoms true text)),
        commas ++ commaPlaces out.length (atoms true text)) := by
  induction text using atoms.induct true generalizing out commas with
  | case1 => simp [stripLoop, commaPlaces]
  | case2 c rest ih =>
      rw [atoms_cons, render_cons, commaPlaces, pieces_append]
      by_cases hquote : c = '"'
      · subst hquote
        rw [stripLoop.eq_def]
        dsimp only
        rw [if_neg Bool.false_ne_true, if_pos rfl, stripLoop_string]
        unfold first at ih ⊢
        rw [if_pos rfl] at ih ⊢
        cases hsplit : splitString rest with
        | none => simp [Atom.render, commaPlaces]
        | some read =>
            simp only [hsplit] at ih ⊢
            rw [ih]
            simp [Atom.render, pieces_append, add_assoc]
      · rw [stripLoop_code hquote]
        unfold first at ih ⊢
        rw [if_neg hquote, if_pos rfl] at ih ⊢
        cases hcomment : commentAt c rest with
        | none =>
            simp only [hcomment, Option.getD_none] at ih ⊢
            rw [ih, Atom.render_ofChar]
            by_cases hcomma : c = ','
            · simp [hcomma, ofChar_eq_comma]
            · simp [hcomma, ofChar_eq_comma]
        | some read =>
            obtain ⟨a, after⟩ := read
            obtain ⟨hrender, hne⟩ := render_commentAt hcomment
            simp only [hcomment, Option.getD_some] at ih ⊢
            rw [ih, hrender, if_neg hne]
            simp

/-! ## The second pass -/

/-- The next character that is not blank is a closing bracket. -/
def closesSoon (s : Text) : Bool :=
  match s.dropWhile Web.isJsBlank with
  | '}' :: _ => true
  | ']' :: _ => true
  | _ => false

/-- Take out the commas that a closing bracket follows in the copied text. -/
def dropCommas : List Atom → List Atom
  | [] => []
  | a :: as => if a = .punct ',' && closesSoon (render as) then dropCommas as
      else a :: dropCommas as

theorem dropWhile_pieces (s : Text) :
    (pieces s).dropWhile hasBlank = pieces (s.dropWhile Web.isJsBlank) := by
  rw [pieces, List.dropWhile_map, pieces]
  congr 2
  funext c
  simp [hasBlank]

theorem closesAfter_pieces (out : List Text) (piece : Text) (s : Text) :
    closesAfter (out ++ piece :: pieces s) out.length = closesSoon s := by
  have hdrop : (out ++ piece :: pieces s).drop (out.length + 1) = pieces s := by
    rw [List.drop_append]
    simp
  rw [closesAfter, hdrop, dropWhile_pieces, closesSoon]
  rcases s.dropWhile Web.isJsBlank with _ | ⟨c, rest⟩
  · rfl
  · by_cases hbrace : c = '}'
    · simp [hbrace]
    · by_cases hbracket : c = ']'
      · simp [hbracket]
      · simp [hbrace, hbracket]

theorem foldl_dropComma (as : List Atom) (out : List Text) :
    ((commaPlaces out.length as).foldl dropComma (out ++ pieces (render as))).flatten =
      out.flatten ++ render (dropCommas as) := by
  induction as generalizing out with
  | nil => simp [commaPlaces, dropCommas]
  | cons a as ih =>
      by_cases hcomma : a = .punct ','
      · subst hcomma
        have hstep : dropComma (out ++ [','] :: pieces (render as)) out.length =
            (out ++ [if closesSoon (render as) then [] else [',']]) ++ pieces (render as) := by
          rw [dropComma, closesAfter_pieces]
          cases closesSoon (render as) <;> simp
        have hrest := ih (out ++ [if closesSoon (render as) then [] else [',']])
        rw [List.length_append, List.length_singleton] at hrest
        rw [commaPlaces, if_pos rfl, List.singleton_append, List.foldl_cons, render_cons,
          Atom.render, List.singleton_append, pieces_cons, hstep, List.length_singleton, hrest,
          dropCommas]
        cases closesSoon (render as) <;> simp [Atom.render]
      · have hrest := ih (out ++ pieces a.render)
        rw [List.length_append, length_pieces] at hrest
        rw [commaPlaces, if_neg hcomma, List.nil_append, render_cons, pieces_append,
          ← List.append_assoc, hrest, dropCommas]
        simp [hcomma]

theorem stripJsonc_eq (text : Text) :
    stripJsonc text = render (dropCommas (atoms true text)) := by
  have hpasses := foldl_dropComma (atoms true text) []
  simp only [List.length_nil, List.nil_append, List.flatten_nil] at hpasses
  rw [stripJsonc, stripLoop_eq]
  simpa using hpasses

/-! ## Dropped commas as tokens -/

theorem isJsBlank_of_isSpace {c : Char} (h : isSpace c = true) : Web.isJsBlank c = true := by
  simp only [isSpace, Bool.or_eq_true, decide_eq_true_eq] at h
  rcases h with ((rfl | rfl) | rfl) | rfl <;> decide

theorem isJsBlank_of_isPunct {c : Char} (h : isPunct c = true) : Web.isJsBlank c = false := by
  simp only [isPunct, Bool.or_eq_true, decide_eq_true_eq] at h
  rcases h with ((((rfl | rfl) | rfl) | rfl) | rfl) | rfl <;> decide

theorem toNat_of_isWordChar {c : Char} (h : isWordChar c = true) :
    0x20 < c.toNat ∧ c.toNat < 0x80 := by
  simp only [isWordChar, Char.isAlphanum, Char.isAlpha, Char.isUpper, Char.isLower, Char.isDigit,
    Bool.or_eq_true, Bool.and_eq_true, decide_eq_true_eq, ge_iff_le,
    UInt32.le_iff_toNat_le] at h
  rcases h with ((((h | h) | h) | rfl) | rfl) | rfl
  · exact ⟨lt_of_lt_of_le (by decide) h.1, lt_of_le_of_lt h.2 (by decide)⟩
  · exact ⟨lt_of_lt_of_le (by decide) h.1, lt_of_le_of_lt h.2 (by decide)⟩
  · exact ⟨lt_of_lt_of_le (by decide) h.1, lt_of_le_of_lt h.2 (by decide)⟩
  · decide
  · decide
  · decide

theorem isJsBlank_of_isWordChar {c : Char} (h : isWordChar c = true) :
    Web.isJsBlank c = false := by
  have hbounds := toNat_of_isWordChar h
  rw [← Bool.not_eq_true, Web.isJsBlank_iff]
  simp only [Text.isWhitespace, Bool.or_eq_true, Bool.and_eq_true, decide_eq_true_eq]
  omega

theorem closesSoon_of_blank {c : Char} (h : Web.isJsBlank c = true) (s : Text) :
    closesSoon (c :: s) = closesSoon s := by
  rw [closesSoon, closesSoon, List.dropWhile_cons_of_pos h]

theorem closesSoon_of_not_blank {c : Char} (h : Web.isJsBlank c = false) (s : Text) :
    closesSoon (c :: s) = Token.isCloser (.punct c) := by
  rw [closesSoon, List.dropWhile_cons_of_neg (by simp [h])]
  by_cases hbrace : c = '}'
  · simp [hbrace, Token.isCloser]
  · by_cases hbracket : c = ']'
    · simp [hbracket, Token.isCloser]
    · simp [hbrace, hbracket, Token.isCloser]

theorem not_isCloser_of_isWordChar {c : Char} (h : isPunct c = false) :
    Token.isCloser (.punct c) = false := by
  by_contra hcloser
  rw [Bool.not_eq_false] at hcloser
  simp only [Token.isCloser, Bool.or_eq_true, decide_eq_true_eq, Token.punct.injEq] at hcloser
  rcases hcloser with rfl | rfl <;> exact absurd h (by decide)

/-- All atoms can stand in JSON with comments. -/
def AllGood (as : List Atom) : Prop := ∀ a ∈ as, a.isBad = false

theorem closesSoon_render {as : List Atom} (h : Lexed as) (hgood : AllGood as) :
    closesSoon (render as) = startsWith Token.isCloser (tokens as) := by
  induction h with
  | nil => rfl
  | openStr => cases hgood _ List.mem_cons_self
  | openComment => cases hgood _ List.mem_cons_self
  | @cons a as ha has ih =>
      have hrest := ih fun b hb ↦ hgood b (List.mem_cons_of_mem a hb)
      have hbad := hgood a List.mem_cons_self
      rw [render_cons]
      cases a with
      | space c =>
          rw [Atom.render, List.singleton_append, tokens, ← hrest]
          exact closesSoon_of_blank (isJsBlank_of_isSpace ha.space) _
      | punct c =>
          rw [Atom.render, List.singleton_append, tokens,
            closesSoon_of_not_blank (isJsBlank_of_isPunct ha.punct), startsWith_cons]
      | word c =>
          rw [Atom.render, List.singleton_append, tokens,
            closesSoon_of_not_blank (isJsBlank_of_isWordChar ha.word.1),
            not_isCloser_of_isWordChar ha.word.2]
          split_ifs
          · exact (startsWith_eq_false (fun t ↦ by cases t <;> simp [Token.isWord, Token.isCloser])
              (startsWith_isWord_extendWord c _)).symm
          · rfl
      | str raw =>
          rw [Atom.render, List.cons_append, List.cons_append, tokens,
            closesSoon_of_not_blank (by decide)]
          rfl
      | comment => rwa [Atom.render, List.nil_append, tokens]
      | _ => cases hbad

theorem startsWord_dropCommas {as : List Atom} (h : Lexed as)
    (hcloses : closesSoon (render as) = true) : startsWord (dropCommas as) = false := by
  cases h with
  | nil => rfl
  | openStr => rfl
  | openComment => rfl
  | @cons a as ha has =>
      rw [dropCommas]
      by_cases hcomma : a = .punct ','
      · subst hcomma
        rw [render_cons, Atom.render, List.singleton_append,
          closesSoon_of_not_blank (by decide)] at hcloses
        exact absurd hcloses (by decide)
      · rw [if_neg (by simp [hcomma])]
        cases a with
        | word c =>
            rw [render_cons, Atom.render, List.singleton_append,
              closesSoon_of_not_blank (isJsBlank_of_isWordChar ha.word.1),
              not_isCloser_of_isWordChar ha.word.2] at hcloses
            exact absurd hcloses Bool.false_ne_true
        | _ => rfl

theorem startsWord_dropCommas_eq {as : List Atom} (h : Lexed as) :
    startsWord (dropCommas as) = startsWord as := by
  cases as with
  | nil => rfl
  | cons a as =>
      rw [dropCommas]
      split_ifs with hdrop
      · simp only [Bool.and_eq_true, decide_eq_true_eq] at hdrop
        rw [startsWord_dropCommas (h.sublist (List.sublist_cons_self a as)) hdrop.2, hdrop.1]
        rfl
      · cases a <;> rfl

/-- Blanking commas in the copied text is dropping them from its tokens. -/
theorem tokens_dropCommas {as : List Atom} (h : Lexed as) (hgood : AllGood as) :
    tokens (dropCommas as) = dropTrailing (tokens as) := by
  induction as with
  | nil => rfl
  | cons a as ih =>
      have hlexed : Lexed as := h.sublist (List.sublist_cons_self a as)
      have hrest : AllGood as := fun b hb ↦ hgood b (List.mem_cons_of_mem a hb)
      have hbad := hgood a List.mem_cons_self
      have htail := ih hlexed hrest
      have hcloses := closesSoon_render hlexed hrest
      by_cases hcomma : a = .punct ','
      · subst hcomma
        rw [tokens, dropCommas, dropTrailing, ← hcloses, ← htail]
        cases closesSoon (render as) <;> simp [tokens, Token.isComma]
      · rw [dropCommas, if_neg (by simp [hcomma])]
        cases a with
        | space c => rwa [tokens, tokens]
        | comment => rwa [tokens, tokens]
        | punct c =>
            have hpunct : Token.isComma (.punct c) = false := by
              simpa [Token.isComma] using fun hc ↦ hcomma (congrArg Atom.punct hc)
            rw [tokens, tokens, dropTrailing_cons_of_not_comma hpunct, htail]
        | str raw => rw [tokens, tokens, dropTrailing_cons_of_not_comma rfl, htail]
        | word c =>
            rw [tokens, tokens, startsWord_dropCommas_eq hlexed, htail]
            split_ifs
            · rw [dropTrailing_extendWord]
            · rw [dropTrailing_cons_of_not_comma rfl]
        | _ => cases hbad

/-! ## What the check reads -/

theorem dropCommas_sublist (as : List Atom) : (dropCommas as).Sublist as := by
  induction as with
  | nil => exact List.Sublist.refl []
  | cons a as ih =>
      rw [dropCommas]
      split_ifs
      · exact ih.cons a
      · exact ih.cons_cons a

theorem mem_dropCommas {as : List Atom} {a : Atom} (hne : a ≠ .punct ',') (h : a ∈ as) :
    a ∈ dropCommas as := by
  induction as with
  | nil => exact h
  | cons b as ih =>
      rw [dropCommas]
      rcases List.mem_cons.mp h with rfl | hmem
      · simp [hne]
      · split_ifs
        · exact ih hmem
        · exact List.mem_cons_of_mem b (ih hmem)

theorem render_dropComments (as : List Atom) : render (dropComments as) = render as := by
  induction as with
  | nil => rfl
  | cons a as ih =>
      cases a with
      | comment => rwa [dropComments_cons_of_comment rfl]
      | openComment => rwa [dropComments_cons_of_comment rfl]
      | _ => rw [dropComments_cons_of_not_comment rfl, render_cons, render_cons, ih]

theorem dropComments_dropCommas (as : List Atom) :
    dropComments (dropCommas as) = dropCommas (dropComments as) := by
  induction as with
  | nil => rfl
  | cons a as ih =>
      cases hcomment : a.isComment with
      | true =>
          have hcomma : a ≠ .punct ',' := by
            rintro rfl
            exact absurd hcomment Bool.false_ne_true
          rw [dropComments_cons_of_comment hcomment, dropCommas, if_neg (by simp [hcomma]),
            dropComments_cons_of_comment hcomment, ih]
      | false =>
          rw [dropComments_cons_of_not_comment hcomment, dropCommas, dropCommas,
            render_dropComments]
          split_ifs
          · exact ih
          · rw [dropComments_cons_of_not_comment hcomment, ih]

/-- The check parses a text exactly when it is JSON without its comments, a comma
being allowed before every closing bracket. -/
theorem parses_stripJsonc_iff (text : Text) (v : Value) :
    Parses (stripJsonc text) v ↔ ParsesLoosely text v := by
  have hlexed : Lexed (atoms true text) := lexed_atoms true text
  have hcopied : atoms false (stripJsonc text) = dropCommas (dropComments (atoms true text)) := by
    rw [stripJsonc_eq, atoms_render (hlexed.sublist (dropCommas_sublist _)),
      ← dropComments_dropCommas, dropComments]
  rw [Parses, ParsesLoosely, hcopied]
  by_cases hgood : AllGood (dropComments (atoms true text))
  · have hkept : Lexed (dropComments (atoms true text)) := hlexed.sublist List.filter_sublist
    rw [tokens_dropCommas hkept hgood]
    exact reads_dropTrailing_iff
  · simp only [AllGood, not_forall, Bool.not_eq_false] at hgood
    obtain ⟨a, hmem, hbad⟩ := hgood
    have hcomma : a ≠ .punct ',' := by
      rintro rfl
      exact Bool.false_ne_true hbad
    constructor
    · intro h
      exact absurd (bad_mem_tokens hbad (mem_dropCommas hcomma hmem))
        (h.notMem_bad List.not_mem_nil)
    · intro h
      exact absurd (bad_mem_tokens hbad hmem) (h.notMem_bad List.not_mem_nil)

/-- The check reads a text as JSON with comments exactly when the text is
orderly, or no JSON even after the repair. -/
theorem stripJsonc_exact_iff (text : Text) :
    (∀ v, Parses (stripJsonc text) v ↔ ParsesWithComments text v) ↔
      Orderly text ∨ ∀ v, ¬ ParsesLoosely text v := by
  simp only [parses_stripJsonc_iff]
  exact loosely_iff_withComments_iff text

/-- A comma alone, two words with a comment between them, a comment without end. -/
theorem disorderly_texts_accepted :
    (Parses (stripJsonc "[,]".toList) (.arr []) ∧
        ¬ ParsesWithComments "[,]".toList (.arr [])) ∧
      (Parses (stripJsonc "1/**/2".toList) (.word "12".toList) ∧
        ¬ ParsesWithComments "1/**/2".toList (.word "12".toList)) ∧
      (Parses (stripJsonc "{}/* abc".toList) (.obj []) ∧
        ¬ ParsesWithComments "{}/* abc".toList (.obj [])) := by
  refine ⟨⟨?_, fun h ↦ ?_⟩, ⟨?_, fun h ↦ ?_⟩, ⟨?_, fun h ↦ ?_⟩⟩
  · have htokens : tokens (dropComments (atoms true "[,]".toList)) =
        [.punct '[', .punct ',', .punct ']'] := by decide +kernel
    rw [parses_stripJsonc_iff, ParsesLoosely, htokens]
    exact .emptyArray (.inr ⟨rfl, rfl⟩)
  · have hlone : loneComma (tokens (atoms true "[,]".toList)) = true := by decide +kernel
    exact Bool.false_ne_true (h.orderly.listed.symm.trans hlone)
  · have htokens : tokens (dropComments (atoms true "1/**/2".toList)) = [.word "12".toList] := by
      decide +kernel
    rw [parses_stripJsonc_iff, ParsesLoosely, htokens]
    exact .word (by decide)
  · have hjoined : joinedWords (atoms true "1/**/2".toList) = true := by decide +kernel
    exact Bool.false_ne_true (h.orderly.apart.symm.trans hjoined)
  · have htokens : tokens (dropComments (atoms true "{}/* abc".toList)) =
        [.punct '{', .punct '}'] := by decide +kernel
    rw [parses_stripJsonc_iff, ParsesLoosely, htokens]
    exact .emptyObject (.inl rfl)
  · have hopen : .openComment ∈ atoms true "{}/* abc".toList := by decide +kernel
    exact h.orderly.closed hopen

end Otdel.Scripts
