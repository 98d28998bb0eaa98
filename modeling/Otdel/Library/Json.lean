import Otdel.Library.Text

/-!
# JSON, comments and trailing commas

A text is cut into atoms, the atoms are grouped into tokens, and the grammar
reads the tokens.  Comments are atoms that separate tokens, and the grammar has
one parameter: where a comma may stand before a closing bracket.
-/

namespace Json

/-! ## Atoms -/

/-- The insignificant white space of the grammar. -/
def isSpace (c : Char) : Bool := c = ' ' || c = '\t' || c = '\n' || c = '\r'

def isPunct (c : Char) : Bool :=
  c = '[' || c = ']' || c = '{' || c = '}' || c = ':' || c = ','

/-- The characters of numbers and of `true`, `false` and `null`. -/
def isWordChar (c : Char) : Bool := c.isAlphanum || c = '+' || c = '-' || c = '.'

inductive Atom
  | space (c : Char)
  | punct (c : Char)
  | word (c : Char)
  | other (c : Char)
  | str (raw : Text)
  | openStr (raw : Text)
  | comment
  | openComment
  deriving DecidableEq, Repr

namespace Atom

def ofChar (c : Char) : Atom :=
  if isSpace c then .space c
  else if isPunct c then .punct c
  else if isWordChar c then .word c
  else .other c

def isComment : Atom → Bool
  | .comment => true
  | .openComment => true
  | _ => false

/-- What an atom leaves of the text when comments are taken out. -/
def render : Atom → Text
  | .space c => [c]
  | .punct c => [c]
  | .word c => [c]
  | .other c => [c]
  | .str raw => '"' :: raw ++ ['"']
  | .openStr raw => '"' :: raw
  | .comment => []
  | .openComment => []

@[simp] theorem render_ofChar (c : Char) : (ofChar c).render = [c] := by
  unfold ofChar
  split_ifs <;> rfl

@[simp] theorem isComment_ofChar (c : Char) : (ofChar c).isComment = false := by
  unfold ofChar
  split_ifs <;> rfl

end Atom

def render (as : List Atom) : Text := as.flatMap Atom.render

@[simp] theorem render_nil : render [] = [] := rfl

@[simp] theorem render_cons (a : Atom) (as : List Atom) :
    render (a :: as) = a.render ++ render as := rfl

/-- The rest of a string literal and the text after it. -/
def splitString : Text → Option (Text × Text)
  | [] => none
  | '"' :: rest => some ([], rest)
  | '\\' :: c :: rest => (splitString rest).map fun read ↦ ('\\' :: c :: read.1, read.2)
  | c :: rest => (splitString rest).map fun read ↦ (c :: read.1, read.2)

/-- The text after the end of a block comment. -/
def closeBlock : Text → Option Text
  | [] => none
  | '*' :: '/' :: rest => some rest
  | _ :: rest => closeBlock rest

/-- A comment.  Only a line feed ends a line comment; a reader for which a carriage
return also does would end it earlier. -/
def commentAt : Char → Text → Option (Atom × Text)
  | '/', '/' :: rest => some (.comment, rest.dropWhile (· ≠ '\n'))
  | '/', '*' :: rest =>
      some (match closeBlock rest with
        | some after => (.comment, after)
        | none => (.openComment, []))
  | _, _ => none

/-- The first atom of a text that starts with `c`, and the text after it. -/
def first (comments : Bool) (c : Char) (rest : Text) : Atom × Text :=
  if c = '"' then
    match splitString rest with
    | some (raw, after) => (.str raw, after)
    | none => (.openStr rest, [])
  else if comments then (commentAt c rest).getD (.ofChar c, rest)
  else (.ofChar c, rest)

theorem splitString_eq {s raw after : Text} (h : splitString s = some (raw, after)) :
    s = raw ++ '"' :: after := by
  induction s using splitString.induct generalizing raw after with
  | case1 => simp [splitString] at h
  | case2 rest =>
      simp only [splitString, Option.some.injEq, Prod.mk.injEq] at h
      simp [← h.1, h.2]
  | case3 c rest ih =>
      simp only [splitString, Option.map_eq_some_iff, Prod.exists, Prod.mk.injEq] at h
      obtain ⟨raw', after', hread, rfl, rfl⟩ := h
      simp [ih hread]
  | case4 c rest hquote hescape ih =>
      rw [splitString] at h
      · simp only [Option.map_eq_some_iff, Prod.exists, Prod.mk.injEq] at h
        obtain ⟨raw', after', hread, rfl, rfl⟩ := h
        simp [ih hread]
      · exact hquote
      · exact hescape

/-- Where a literal ends does not depend on what comes after it. -/
theorem splitString_append {s raw after : Text} (h : splitString s = some (raw, after))
    (rest : Text) : splitString (raw ++ '"' :: rest) = some (raw, rest) := by
  induction s using splitString.induct generalizing raw after with
  | case1 => simp [splitString] at h
  | case2 tail =>
      simp only [splitString, Option.some.injEq, Prod.mk.injEq] at h
      simp [← h.1, splitString]
  | case3 c tail ih =>
      simp only [splitString, Option.map_eq_some_iff, Prod.exists, Prod.mk.injEq] at h
      obtain ⟨raw', after', hread, rfl, rfl⟩ := h
      simp [splitString, ih hread]
  | case4 c tail hquote hescape ih =>
      rw [splitString] at h
      · simp only [Option.map_eq_some_iff, Prod.exists, Prod.mk.injEq] at h
        obtain ⟨raw', after', hread, rfl, rfl⟩ := h
        rw [List.cons_append, splitString]
        · simp [ih hread]
        · exact hquote
        · intro d tail' hc htail
          have heq := splitString_eq hread
          rcases raw' with _ | ⟨d', raw''⟩
          · exact hescape '"' after' hc heq
          · exact hescape d' (raw'' ++ '"' :: after') hc heq
      · exact hquote
      · exact hescape

theorem length_closeBlock {s after : Text} (h : closeBlock s = some after) :
    after.length < s.length := by
  induction s using closeBlock.induct with
  | case1 => simp [closeBlock] at h
  | case2 rest =>
      simp only [closeBlock, Option.some.injEq] at h
      subst h
      simp only [List.length_cons]
      omega
  | case3 c rest hstar ih =>
      rw [closeBlock] at h
      · have hrest := ih h
        simp only [List.length_cons]
        omega
      · exact hstar

theorem length_commentAt {c : Char} {s after : Text} {a : Atom}
    (h : commentAt c s = some (a, after)) : after.length < s.length := by
  unfold commentAt at h
  split at h
  · rename_i rest
    simp only [Option.some.injEq, Prod.mk.injEq] at h
    have hdrop := (List.dropWhile_sublist (l := rest) (fun c ↦ decide (c ≠ '\n'))).length_le
    rw [← h.2, List.length_cons]
    omega
  · rename_i rest
    split at h
    · rename_i after' hclose
      simp only [Option.some.injEq, Prod.mk.injEq] at h
      have hlength := length_closeBlock hclose
      rw [← h.2, List.length_cons]
      omega
    · simp only [Option.some.injEq, Prod.mk.injEq] at h
      simp [← h.2]
  · exact absurd h (by simp)

theorem length_first (comments : Bool) (c : Char) (rest : Text) :
    (first comments c rest).2.length ≤ rest.length := by
  unfold first
  split_ifs with hquote hcomments
  · split
    · rename_i raw after hsplit
      rw [splitString_eq hsplit]
      simp only [List.length_append, List.length_cons]
      omega
    · simp
  · cases hread : commentAt c rest with
    | none => simp
    | some read => exact (length_commentAt hread).le
  · simp

def atoms (comments : Bool) : Text → List Atom
  | [] => []
  | c :: rest => (first comments c rest).1 :: atoms comments (first comments c rest).2
termination_by s => s.length
decreasing_by
  have hfirst := length_first comments c rest
  simp only [List.length_cons]
  omega

@[simp] theorem atoms_nil (comments : Bool) : atoms comments [] = [] := by
  rw [atoms]

theorem atoms_cons (comments : Bool) (c : Char) (rest : Text) :
    atoms comments (c :: rest) =
      (first comments c rest).1 :: atoms comments (first comments c rest).2 := by
  rw [atoms]

/-! ## Texts from atoms -/

/-- An atom that other atoms can follow, as a scan gives it. -/
def Atom.Whole : Atom → Prop
  | .str raw => splitString (raw ++ ['"']) = some (raw, [])
  | .openStr _ => False
  | .openComment => False
  | .comment => True
  | a => ∃ c, c ≠ '"' ∧ Atom.ofChar c = a

/-- The atoms of some text: only the last can be open. -/
inductive Lexed : List Atom → Prop
  | nil : Lexed []
  | openStr {raw : Text} (h : splitString raw = none) : Lexed [.openStr raw]
  | openComment : Lexed [.openComment]
  | cons {a : Atom} {as : List Atom} (ha : a.Whole) (has : Lexed as) : Lexed (a :: as)

theorem Lexed.sublist {as bs : List Atom} (h : Lexed as) (hsub : bs.Sublist as) : Lexed bs := by
  induction h generalizing bs with
  | nil =>
      rw [List.sublist_nil.mp hsub]
      exact .nil
  | openStr hraw =>
      rcases List.sublist_singleton.mp hsub with rfl | rfl
      · exact .nil
      · exact .openStr hraw
  | openComment =>
      rcases List.sublist_singleton.mp hsub with rfl | rfl
      · exact .nil
      · exact .openComment
  | cons ha has ih =>
      cases hsub with
      | cons _ htail => exact ih htail
      | cons_cons _ htail => exact .cons ha (ih htail)

theorem Atom.whole_ofChar {c : Char} (hc : c ≠ '"') : (ofChar c).Whole := by
  have hchar : ∃ d, d ≠ '"' ∧ ofChar d = ofChar c := ⟨c, hc, rfl⟩
  unfold ofChar at hchar ⊢
  split_ifs at hchar ⊢ <;> exact hchar

theorem Atom.Whole.space {c : Char} (h : (Atom.space c).Whole) : isSpace c = true := by
  obtain ⟨d, -, hd⟩ := h
  unfold Atom.ofChar at hd
  split_ifs at hd with hspace
  rwa [← Atom.space.inj hd]

theorem Atom.Whole.punct {c : Char} (h : (Atom.punct c).Whole) : isPunct c = true := by
  obtain ⟨d, -, hd⟩ := h
  unfold Atom.ofChar at hd
  split_ifs at hd with hspace hpunct
  rwa [← Atom.punct.inj hd]

theorem Atom.Whole.word {c : Char} (h : (Atom.word c).Whole) :
    isWordChar c = true ∧ isPunct c = false := by
  obtain ⟨d, -, hd⟩ := h
  unfold Atom.ofChar at hd
  split_ifs at hd with hspace hpunct hword
  rw [← Atom.word.inj hd]
  exact ⟨hword, Bool.eq_false_iff.mpr hpunct⟩

theorem first_cases (comments : Bool) (c : Char) (rest : Text) :
    (first comments c rest).1.Whole ∨
      ((first comments c rest).2 = [] ∧
        ((first comments c rest).1 = .openComment ∨
          ∃ raw, splitString raw = none ∧ (first comments c rest).1 = .openStr raw)) := by
  unfold first
  split_ifs with hquote hcomments
  · split
    · rename_i raw after hsplit
      exact .inl (splitString_append hsplit [])
    · rename_i hsplit
      exact .inr ⟨rfl, .inr ⟨rest, hsplit, rfl⟩⟩
  · unfold commentAt
    split
    · exact .inl trivial
    · split
      · exact .inl trivial
      · exact .inr ⟨rfl, .inl rfl⟩
    · exact .inl (Atom.whole_ofChar hquote)
  · exact .inl (Atom.whole_ofChar hquote)

theorem lexed_atoms (comments : Bool) (s : Text) : Lexed (atoms comments s) := by
  induction s using atoms.induct comments with
  | case1 =>
      rw [atoms_nil]
      exact .nil
  | case2 c rest ih =>
      rw [atoms_cons]
      rcases first_cases comments c rest with hwhole | ⟨hnil, hopen | ⟨raw, hraw, hopen⟩⟩
      · exact .cons hwhole ih
      · rw [hnil, hopen, atoms_nil]
        exact .openComment
      · rw [hnil, hopen, atoms_nil]
        exact .openStr hraw

/-- Taking the comments out of atoms leaves a text with exactly the other atoms. -/
theorem atoms_render {as : List Atom} (h : Lexed as) :
    atoms false (render as) = as.filter fun a ↦ !a.isComment := by
  induction h with
  | nil => rw [render_nil, atoms_nil, List.filter_nil]
  | @openStr raw hraw =>
      rw [render_cons, render_nil, List.append_nil, Atom.render, atoms_cons, first, if_pos rfl,
        hraw]
      simp [Atom.isComment]
  | openComment => simp [Atom.render, Atom.isComment]
  | @cons a as ha has ih =>
      have hchar : ∀ c, c ≠ '"' → Atom.ofChar c = a →
          atoms false (a.render ++ render as) = a :: atoms false (render as) := by
        rintro c hc rfl
        rw [Atom.render_ofChar, List.singleton_append, atoms_cons, first, if_neg hc,
          if_neg Bool.false_ne_true]
      rw [render_cons]
      cases a with
      | str raw =>
          rw [List.filter_cons_of_pos rfl, ← ih, Atom.render, List.cons_append, List.cons_append,
            List.append_assoc, List.singleton_append, atoms_cons, first, if_pos rfl,
            splitString_append ha]
      | openStr raw => exact ha.elim
      | openComment => exact ha.elim
      | comment => simpa [Atom.render, Atom.isComment] using ih
      | _ =>
          obtain ⟨c, hc, hofChar⟩ := ha
          rw [hchar c hc hofChar, ih, List.filter_cons_of_pos rfl]

/-! ## Tokens -/

inductive Token
  | punct (c : Char)
  | str (raw : Text)
  | word (w : Text)
  | bad
  deriving DecidableEq, Repr

namespace Token

def isWord : Token → Bool
  | .word _ => true
  | _ => false

def isOpener (t : Token) : Bool := t = .punct '[' || t = .punct '{'

def isCloser (t : Token) : Bool := t = .punct ']' || t = .punct '}'

def isComma (t : Token) : Bool := t = .punct ','

end Token

/-- The first token is one of a class. -/
def startsWith (p : Token → Bool) : List Token → Bool
  | [] => false
  | t :: _ => p t

@[simp] theorem startsWith_cons (p : Token → Bool) (t : Token) (ts : List Token) :
    startsWith p (t :: ts) = p t := rfl

def startsWord : List Atom → Bool
  | .word _ :: _ => true
  | _ => false

def extendWord (c : Char) : List Token → List Token
  | .word w :: ts => .word (c :: w) :: ts
  | ts => .word [c] :: ts

/-- A word is a longest run of its characters. -/
def tokens : List Atom → List Token
  | [] => []
  | .space _ :: as => tokens as
  | .comment :: as => tokens as
  | .punct c :: as => .punct c :: tokens as
  | .str raw :: as => .str raw :: tokens as
  | .word c :: as => if startsWord as then extendWord c (tokens as) else .word [c] :: tokens as
  | .other _ :: as => .bad :: tokens as
  | .openStr _ :: as => .bad :: tokens as
  | .openComment :: as => .bad :: tokens as

/-! ## Literals -/

def isDigits (s : Text) : Bool := s ≠ [] && s.all Char.isDigit

def isExponent : Text → Bool
  | [] => true
  | c :: '+' :: digits => (c = 'e' || c = 'E') && isDigits digits
  | c :: '-' :: digits => (c = 'e' || c = 'E') && isDigits digits
  | c :: digits => (c = 'e' || c = 'E') && isDigits digits

def isFraction : Text → Bool
  | '.' :: rest => rest.takeWhile Char.isDigit ≠ [] && isExponent (rest.dropWhile Char.isDigit)
  | rest => isExponent rest

def isUnsigned (s : Text) : Bool :=
  let whole := s.takeWhile Char.isDigit
  whole ≠ [] && (whole = ['0'] || whole.head? ≠ some '0') && isFraction (s.dropWhile Char.isDigit)

def isNumber : Text → Bool
  | '-' :: rest => isUnsigned rest
  | rest => isUnsigned rest

def isLiteral (w : Text) : Bool :=
  w = "true".toList || w = "false".toList || w = "null".toList || isNumber w

def isHex (c : Char) : Bool :=
  c.isDigit || ('a' ≤ c && c ≤ 'f') || ('A' ≤ c && c ≤ 'F')

/-- The characters and escapes of a string literal. -/
def isStringBody : Text → Bool
  | [] => true
  | '\\' :: 'u' :: a :: b :: c :: d :: rest => [a, b, c, d].all isHex && isStringBody rest
  | '\\' :: c :: rest => "\"\\/bfnrt".toList.contains c && isStringBody rest
  | c :: rest => 0x20 ≤ c.toNat && c ≠ '"' && c ≠ '\\' && isStringBody rest

/-! ## The grammar -/

/-- A value, its literals as they are written. -/
inductive Value
  | word (w : Text)
  | str (raw : Text)
  | arr (items : List Value)
  | obj (members : List (Text × Value))

/-- Where a comma may stand before a closing bracket. -/
inductive Commas
  | never
  | afterElement
  | anywhere

namespace Commas

def after : Commas → Bool
  | never => false
  | _ => true

def alone : Commas → Bool
  | anywhere => true
  | _ => false

end Commas

inductive Phrase
  | value (v : Value)
  | items (vs : List Value)
  | members (ms : List (Text × Value))

/-- The tokens `ts` begin with a closing bracket, or with a comma and one where
that is allowed. -/
def Closes (comma : Bool) (close : Char) (ts rest : List Token) : Prop :=
  ts = .punct close :: rest ∨ (comma = true ∧ ts = .punct ',' :: .punct close :: rest)

/-- A phrase at the beginning of tokens, and the tokens after it. -/
inductive Reads (k : Commas) : List Token → Phrase → List Token → Prop
  | word {w : Text} {rest : List Token} (h : isLiteral w = true) :
      Reads k (.word w :: rest) (.value (.word w)) rest
  | str {raw : Text} {rest : List Token} (h : isStringBody raw = true) :
      Reads k (.str raw :: rest) (.value (.str raw)) rest
  | emptyArray {ts rest : List Token} (h : Closes k.alone ']' ts rest) :
      Reads k (.punct '[' :: ts) (.value (.arr [])) rest
  | array {ts rest : List Token} {vs : List Value} (h : Reads k ts (.items vs) rest) :
      Reads k (.punct '[' :: ts) (.value (.arr vs)) rest
  | emptyObject {ts rest : List Token} (h : Closes k.alone '}' ts rest) :
      Reads k (.punct '{' :: ts) (.value (.obj [])) rest
  | object {ts rest : List Token} {ms : List (Text × Value)} (h : Reads k ts (.members ms) rest) :
      Reads k (.punct '{' :: ts) (.value (.obj ms)) rest
  | lastItem {ts after rest : List Token} {v : Value} (hv : Reads k ts (.value v) after)
      (h : Closes k.after ']' after rest) : Reads k ts (.items [v]) rest
  | item {ts after rest : List Token} {v : Value} {vs : List Value}
      (hv : Reads k ts (.value v) (.punct ',' :: after)) (h : Reads k after (.items vs) rest) :
      Reads k ts (.items (v :: vs)) rest
  | lastMember {key : Text} {ts after rest : List Token} {v : Value}
      (hkey : isStringBody key = true) (hv : Reads k ts (.value v) after)
      (h : Closes k.after '}' after rest) :
      Reads k (.str key :: .punct ':' :: ts) (.members [(key, v)]) rest
  | member {key : Text} {ts after rest : List Token} {v : Value} {ms : List (Text × Value)}
      (hkey : isStringBody key = true) (hv : Reads k ts (.value v) (.punct ',' :: after))
      (h : Reads k after (.members ms) rest) :
      Reads k (.str key :: .punct ':' :: ts) (.members ((key, v) :: ms)) rest

/-- `JSON.parse`: what the text is read as, if it is JSON. -/
def Parses (s : Text) (v : Value) : Prop :=
  Reads .never (tokens (atoms false s)) (.value v) []

/-- The text is JSON in which comments may stand between tokens and a comma may
follow the last element. -/
def ParsesWithComments (s : Text) (v : Value) : Prop :=
  Reads .afterElement (tokens (atoms true s)) (.value v) []

end Json
