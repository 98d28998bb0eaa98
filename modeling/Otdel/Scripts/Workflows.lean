import Otdel.Scripts.Commands

/-!
# Workflows as YAML reads them

A workflow in block style, part by part: the steps that run a one-line command or
a block, and all other lines.  A block is one command of several lines, but it is
scanned line by line.  What the scan takes beyond these lines, and what it loses at
their ends, decides whether its answer is right.
-/

namespace Otdel.Scripts

/-! ## Blocks -/

inductive BlockStyle where
  | literal
  | folded
  deriving DecidableEq, Repr

def BlockStyle.mark : BlockStyle → Char
  | .literal => '|'
  | .folded => '>'

inductive Chomping where
  | clip
  | strip
  | keep
  deriving DecidableEq, Repr

def Chomping.mark : Chomping → Text
  | .clip => []
  | .strip => ['-']
  | .keep => ['+']

/-- What stands at the key: also how much deeper than the key the block is, before or
after the chomping. -/
structure BlockHeader where
  style : BlockStyle
  chomping : Chomping
  indicator : Option ℕ
  indicatorFirst : Bool
  deriving DecidableEq, Repr

def BlockHeader.text (header : BlockHeader) : Text :=
  let indicator := header.indicator.elim [] fun n ↦ [Nat.digitChar n]
  header.style.mark ::
    if header.indicatorFirst then indicator ++ header.chomping.mark
    else header.chomping.mark ++ indicator

/-- A line that is deeper than its block. -/
def isSpaced (line : Text) : Bool := line.head?.any fun c ↦ c = ' ' || c = '\t'

/-- What a folded block has for the end of a line, with the lines after it. -/
def lineBreak (line : Text) (rest : List Text) : Text :=
  if line = [] then ['\n']
  else if isSpaced line || (rest.find? (· ≠ [])).any isSpaced then ['\n']
  else if rest.head? = some [] then []
  else [' ']

def foldLines : List Text → Text
  | [] => []
  | [line] => line
  | line :: next :: rest => line ++ (lineBreak line (next :: rest) ++ foldLines (next :: rest))

/-- The text of a block, from its lines without their indentation. -/
def blockText (header : BlockHeader) (lines : List Text) : Text :=
  let content := lines.rdropWhile (· = [])
  (match header.style with
    | .literal => ['\n'].intercalate content
    | .folded => foldLines content) ++
  match header.chomping with
    | .strip => []
    | .clip => if content = [] then [] else ['\n']
    | .keep => List.replicate (lines.length - content.length + if content = [] then 0 else 1) '\n'

example : foldLines (["", "a", "b", "", "c", "  * d", "", "  * e", "", "f"].map String.toList) =
    "\na b\nc\n  * d\n\n  * e\n\nf".toList := by decide

/-- The text has these lines, in this order, and only blanks between them. -/
inductive Joins : List Text → Text → Prop
  | nil : Joins [] []
  | blank {c : Char} {lines : List Text} {text : Text} (hc : Web.isJsBlank c = true)
      (h : Joins lines text) : Joins lines (c :: text)
  | line (line : Text) {lines : List Text} {text : Text}
      (hhead : ∀ c ∈ text.head?, Web.isJsBlank c = true) (h : Joins lines text) :
      Joins (line :: lines) (line ++ text)

section Joined

variable {lines rest : List Text} {text tail : Text}

theorem joins_nil_lines {n : ℕ} (htail : ∀ c ∈ tail, Web.isJsBlank c = true) :
    Joins (List.replicate n []) tail := by
  induction n with
  | zero =>
      induction tail with
      | nil => exact .nil
      | cons c tail ih =>
          exact .blank (htail c List.mem_cons_self)
            (ih fun d hd ↦ htail d (List.mem_cons_of_mem c hd))
  | succ n ih => exact .line [] (fun c hc ↦ htail c (List.mem_of_mem_head? hc)) ih

theorem joins_intercalate (hhead : ∀ c ∈ tail.head?, Web.isJsBlank c = true)
    (htail : Joins rest tail) (lines : List Text) :
    Joins (lines ++ rest) (['\n'].intercalate lines ++ tail) := by
  induction lines with
  | nil => exact htail
  | cons line lines ih =>
      cases lines with
      | nil =>
          have h := Joins.line line hhead htail
          simpa [List.intercalate] using h
      | cons next lines =>
          have hsplit : ['\n'].intercalate (line :: next :: lines) ++ tail =
              line ++ '\n' :: (['\n'].intercalate (next :: lines) ++ tail) := by
            simp [List.intercalate]
          rw [hsplit]
          exact .line line (by simp; decide) (.blank (by decide) ih)

theorem lineBreak_cases (line : Text) (next : Text) (lines : List Text) :
    lineBreak line (next :: lines) = ['\n'] ∨ lineBreak line (next :: lines) = [' '] ∨
      lineBreak line (next :: lines) = [] ∧ next = [] := by
  unfold lineBreak
  split
  · exact .inl rfl
  · split
    · exact .inl rfl
    · split
      · rename_i hnext
        exact .inr (.inr ⟨rfl, by simpa using hnext⟩)
      · exact .inr (.inl rfl)

theorem head?_foldLines_nil (hhead : ∀ c ∈ tail.head?, Web.isJsBlank c = true)
    (lines : List Text) :
    ∀ c ∈ (foldLines ([] :: lines) ++ tail).head?, Web.isJsBlank c = true := by
  cases lines with
  | nil => exact hhead
  | cons next lines =>
      intro c hc
      obtain rfl : '\n' = c := by simpa [foldLines, lineBreak] using hc
      decide

theorem joins_foldLines (hhead : ∀ c ∈ tail.head?, Web.isJsBlank c = true)
    (htail : Joins rest tail) (lines : List Text) :
    Joins (lines ++ rest) (foldLines lines ++ tail) := by
  induction lines with
  | nil => exact htail
  | cons line lines ih =>
      cases lines with
      | nil => exact .line line hhead htail
      | cons next lines =>
          rw [foldLines, List.append_assoc, List.append_assoc]
          rcases lineBreak_cases line next lines with hbreak | hbreak | ⟨hbreak, rfl⟩
          · rw [hbreak]
            exact .line line (by simp; decide) (.blank (by decide) ih)
          · rw [hbreak]
            exact .line line (by simp; decide) (.blank (by decide) ih)
          · rw [hbreak]
            exact .line line (head?_foldLines_nil hhead lines) ih

/-- A block is made of its lines. -/
theorem joins_blockText (header : BlockHeader) (lines : List Text) :
    Joins lines (blockText header lines) := by
  have hlines : lines = lines.rdropWhile (· = []) ++
      List.replicate (lines.rtakeWhile (· = [])).length [] := by
    have hsplit : lines.rdropWhile (· = []) ++ lines.rtakeWhile (· = []) = lines := by
      rw [List.rdropWhile, List.rtakeWhile, ← List.reverse_append, List.takeWhile_append_dropWhile,
        List.reverse_reverse]
    conv_lhs => rw [← hsplit]
    congr 1
    refine List.eq_replicate_iff.mpr ⟨rfl, fun line hline ↦ ?_⟩
    have hnil := List.mem_takeWhile_imp (List.mem_reverse.mp hline)
    exact of_decide_eq_true hnil
  have hjoins (tail : Text) (hblank : ∀ c ∈ tail, Web.isJsBlank c = true) :
      Joins lines ((match header.style with
        | .literal => ['\n'].intercalate (lines.rdropWhile (· = []))
        | .folded => foldLines (lines.rdropWhile (· = []))) ++ tail) := by
    have hhead : ∀ c ∈ tail.head?, Web.isJsBlank c = true :=
      fun c hc ↦ hblank c (List.mem_of_mem_head? hc)
    conv_lhs => rw [hlines]
    cases header.style with
    | literal => exact joins_intercalate hhead (joins_nil_lines hblank) _
    | folded => exact joins_foldLines hhead (joins_nil_lines hblank) _
  refine hjoins _ fun c hc ↦ ?_
  have hnewline : c = '\n' := by
    cases hchomping : header.chomping with
    | strip => simp [hchomping] at hc
    | clip =>
        rw [hchomping] at hc
        dsimp only at hc
        split at hc <;> simp at hc
        exact hc
    | keep =>
        rw [hchomping] at hc
        exact List.eq_of_mem_replicate hc
  rw [hnewline]
  decide

/-- A tool stands in one of the lines. -/
theorem Joins.tsCheckerRe_iff (h : Joins lines text) :
    tsCheckerRe text = true ↔ ∃ line ∈ lines, tsCheckerRe line = true := by
  have hcons {c : Char} (hc : Web.isJsBlank c = true) (s : Text) :
      tsCheckerRe (c :: s) = true ↔ tsCheckerRe s = true := by
    have happend := tsCheckerRe_append_blank (s := []) (t := s) hc
    rw [List.nil_append] at happend
    rw [happend]
    simp [tsCheckerRe, checkerFrom]
  induction h with
  | nil => simp [tsCheckerRe, checkerFrom]
  | @blank c lines text hc h ih => exact (hcons hc text).trans ih
  | @line line lines text hhead h ih =>
      have hsplit : tsCheckerRe (line ++ text) = true ↔
          tsCheckerRe line = true ∨ tsCheckerRe text = true := by
        cases text with
        | nil => simp [tsCheckerRe, checkerFrom]
        | cons c text =>
            rw [tsCheckerRe_append_blank (hhead c rfl), hcons (hhead c rfl)]
      rw [List.exists_mem_cons_iff]
      exact hsplit.trans (or_congr Iff.rfl ih)

/-- The calls are those of the lines, when none is broken between two lines. -/
theorem Joins.referencedScriptNames_eq (h : Joins lines text)
    (hunbroken : ∀ line ∈ lines, Unbroken line) :
    referencedScriptNames text = lines.flatMap referencedScriptNames := by
  induction h with
  | nil => rfl
  | @blank c lines text hc h ih =>
      rw [← ih hunbroken]
      exact callsFrom_of_blank hc none
  | @line line lines text hhead h ih =>
      have hrest := ih fun l hl ↦ hunbroken l (List.mem_cons_of_mem line hl)
      rw [List.flatMap_cons, ← hrest]
      cases text with
      | nil => simp [referencedScriptNames, callsFrom]
      | cons c text =>
          have hc := hhead c rfl
          rw [referencedScriptNames_append_blank hc (hunbroken line List.mem_cons_self)]
          congr 1
          exact (callsFrom_of_blank hc none).symm

end Joined

/-! ## Steps in block style -/

/-- Where a key `run` stands: after spaces, and after the dash of a step that it
begins; `gap` spaces more than one lead to its value. -/
structure RunKey where
  margin : ℕ
  dash : Option ℕ
  gap : ℕ

def spaces (n : ℕ) : Text := List.replicate n ' '

def RunKey.text (key : RunKey) : Text :=
  spaces key.margin ++ (key.dash.elim [] fun n ↦ '-' :: spaces (n + 1)) ++
    ("run:".toList ++ spaces (key.gap + 1))

def RunKey.column (key : RunKey) : ℕ := key.margin + key.dash.elim 0 fun n ↦ n + 2

/-- How a command of one line is written. -/
inductive Quotes where
  | plain
  | single
  | double
  deriving DecidableEq, Repr

namespace Quotes

def mark : Quotes → Text
  | .plain => []
  | .single => ['\'']
  | .double => ['"']

def write (quotes : Quotes) (command : Text) : Text := quotes.mark ++ (command ++ quotes.mark)

/-- The command can be written so, and needs no escapes. -/
def Admits : Quotes → Text → Prop
  | .plain, command =>
      trimJs command = command ∧ ∃ c rest, command = c :: rest ∧ c ≠ '|' ∧ c ≠ '>'
  | .single, command => '\'' ∉ command
  | .double, command => '"' ∉ command ∧ '\\' ∉ command

end Quotes

/-- The parts of a workflow: a step that runs a command of one line, or a block, and
every other line.  A comment may follow the command or the header of the block. -/
inductive Part where
  | other (line : Text)
  | inline (key : RunKey) (quotes : Quotes) (command comment : Text)
  | block (key : RunKey) (header : BlockHeader) (comment : Text) (indent : ℕ) (body : List Text)

/-- A comment stands after spaces. -/
def IsComment (comment : Text) : Prop :=
  comment = [] ∨ ∃ n text, comment = spaces (n + 1) ++ '#' :: text

/-- A line of a block is empty but for spaces, or has the indentation of the block.
The header says how deep this is, or else the first line that is not empty. -/
structure IsBody (column : ℕ) (indicator : Option ℕ) (indent : ℕ) (body : List Text) : Prop where
  deeper : column < indent
  lines : ∀ line ∈ body, '\n' ∉ line ∧
    ((∃ n, line = spaces n) ∨ ∃ rest, line = spaces indent ++ rest)
  indicated : ∀ n ∈ indicator, n ≤ 9 ∧ indent = column + n
  first : indicator = none → ∀ line ∈ body.find? fun line ↦ line.any (· ≠ ' '),
    (line.drop indent).head? ≠ some ' '

namespace Part

def lines : Part → List Text
  | other line => [line]
  | inline key quotes command comment => [key.text ++ (quotes.write command ++ comment)]
  | block key header comment _ body => (key.text ++ (header.text ++ comment)) :: body

/-- The command that the step runs. -/
def commands : Part → List Text
  | other _ => []
  | inline _ _ command _ => [command]
  | block _ header _ indent body => [blockText header (body.map fun line ↦ line.drop indent)]

/-- What stands there for the scan to take: the command as it is written, the lines
of a block whose header it knows. -/
def shown : Part → List Text
  | other _ => []
  | inline _ quotes command _ => [quotes.write command]
  | block _ header comment indent body =>
      if isBlockHeader (trimJs (header.text ++ comment)) then
        body.map fun line ↦ line.drop indent
      else []

/-- The command is in quotes, or below a header that the scan does not know. -/
def Veiled : Part → Prop
  | other _ => False
  | inline _ quotes _ _ => quotes ≠ .plain
  | block _ header comment _ _ => isBlockHeader (trimJs (header.text ++ comment)) = false

def Laid : Part → Prop
  | other line => '\n' ∉ line
  | inline _ quotes command comment =>
      quotes.Admits command ∧ IsComment comment ∧
        (quotes.write command ++ comment).any isLineEnd = false
  | block key header comment indent body =>
      IsComment comment ∧ (header.text ++ comment).any isLineEnd = false ∧
        IsBody key.column header.indicator indent body

end Part

def partLines (parts : List Part) : List Text := parts.flatMap Part.lines

/-- What the scan takes at these lines, when others follow. -/
def commandsWithin : List Text → List Text → List Text
  | [], _ => []
  | line :: rest, after => commandsAt line (rest ++ after) ++ commandsWithin rest after

/-- What the scan takes here and no step runs: a command with its comment, a header
that it does not know, lines after a block that are deeper than its dash, and what
looks like a step elsewhere. -/
def Part.strays (after : List Text) : Part → List Text
  | other line => commandsAt line after
  | inline _ quotes command comment =>
      if comment = [] then [] else [trimJs (quotes.write command ++ comment)]
  | block key header comment _ body =>
      (if isBlockHeader (trimJs (header.text ++ comment)) then deeperLines key.margin after
        else [trimJs (header.text ++ comment)]) ++ commandsWithin body after

def strays : List Part → List Text
  | [] => []
  | part :: rest => part.strays (partLines rest) ++ strays rest

theorem runCommands_append (lines after : List Text) :
    runCommands (lines ++ after) = commandsWithin lines after ++ runCommands after := by
  induction lines with
  | nil => rfl
  | cons line lines ih =>
      rw [List.cons_append, runCommands, commandsWithin, ih, List.append_assoc]

section Lines

variable {key : RunKey} {value line : Text}

theorem isJsBlank_of_mem_spaces {n : ℕ} {c : Char} (h : c ∈ spaces n) :
    Web.isJsBlank c = true := by
  rw [List.eq_of_mem_replicate h]
  decide

theorem dropWhile_spaces_append (n : ℕ) (s : Text) :
    (spaces n ++ s).dropWhile Web.isJsBlank = s.dropWhile Web.isJsBlank :=
  List.dropWhile_append_of_pos fun _ ↦ isJsBlank_of_mem_spaces

theorem trimJs_spaces_append (n : ℕ) (s : Text) : trimJs (spaces n ++ s) = trimJs s := by
  rw [trimJs, Text.trimMatches, dropWhile_spaces_append, trimJs, Text.trimMatches]

theorem length_takeWhile_spaces (n : ℕ) {c : Char} {s : Text} (hc : Web.isJsBlank c = false) :
    ((spaces n ++ c :: s).takeWhile Web.isJsBlank).length = n := by
  rw [List.takeWhile_append_of_pos fun _ ↦ isJsBlank_of_mem_spaces,
    List.takeWhile_cons_of_neg (by simp [hc]), List.append_nil, spaces, List.length_replicate]

theorem afterBlanks_spaces (n : ℕ) {c : Char} {s : Text} (hc : Web.isJsBlank c = false) :
    afterBlanks (spaces (n + 1) ++ c :: s) = some (c :: s) := by
  have hspace : Web.isJsBlank ' ' = true := by decide
  have hcons : spaces (n + 1) ++ c :: s = ' ' :: (spaces n ++ c :: s) := rfl
  rw [hcons, afterBlanks, if_pos hspace, dropWhile_spaces_append,
    List.dropWhile_cons_of_neg (by simp [hc])]

/-- The line of a step that runs something. -/
theorem runLine?_text (hvalue : value.any isLineEnd = false) :
    runLine? (key.text ++ value) = some (key.margin, trimJs value) := by
  have hr : Web.isJsBlank 'r' = false := by decide
  have hdash : Web.isJsBlank '-' = false := by decide
  have hrun : Text.stripPrefix "run:".toList
      ("run:".toList ++ (spaces (key.gap + 1) ++ value)) = some (spaces (key.gap + 1) ++ value) :=
    Text.stripPrefix_append _ _
  have hcons (s : Text) : "run:".toList ++ s = 'r' :: ("un:".toList ++ s) := rfl
  have hends : (value.dropWhile Web.isJsBlank).any isLineEnd = false := by
    rw [List.any_eq_false] at hvalue ⊢
    exact fun c hc ↦ hvalue c ((List.dropWhile_sublist _).subset hc)
  have htrim : trimJs (value.dropWhile Web.isJsBlank) = trimJs value := by
    rw [trimJs, Text.trimMatches, List.dropWhile_idempotent, trimJs, Text.trimMatches]
  unfold runLine?
  rcases hkey : key.dash with _ | n
  · have hline : key.text ++ value =
        spaces key.margin ++ 'r' :: ("un:".toList ++ (spaces (key.gap + 1) ++ value)) := by
      simp [RunKey.text, hkey]
    have hstep : (key.text ++ value).dropWhile Web.isJsBlank =
        "run:".toList ++ (spaces (key.gap + 1) ++ value) := by
      rw [hline, dropWhile_spaces_append, List.dropWhile_cons_of_neg (by simp [hr])]
      rfl
    have hnone : Text.stripPrefix ['-'] ("run:".toList ++ (spaces (key.gap + 1) ++ value)) =
        none := rfl
    have hlength : ((key.text ++ value).takeWhile Web.isJsBlank).length = key.margin := by
      rw [hline, length_takeWhile_spaces _ hr]
    dsimp only
    rw [hstep, hnone, Option.bind_none, Option.getD_none, hrun, Option.bind_some,
      dropWhile_spaces_append, hends, hlength, htrim]
    rfl
  · have hline : key.text ++ value = spaces key.margin ++ '-' :: (spaces (n + 1) ++
        'r' :: ("un:".toList ++ (spaces (key.gap + 1) ++ value))) := by
      simp [RunKey.text, hkey]
    have hstep : (key.text ++ value).dropWhile Web.isJsBlank =
        ['-'] ++ (spaces (n + 1) ++ 'r' :: ("un:".toList ++ (spaces (key.gap + 1) ++ value))) := by
      rw [hline, dropWhile_spaces_append, List.dropWhile_cons_of_neg (by simp [hdash])]
      rfl
    have hlength : ((key.text ++ value).takeWhile Web.isJsBlank).length = key.margin := by
      rw [hline, length_takeWhile_spaces _ hdash]
    dsimp only
    rw [hstep, Text.stripPrefix_append, Option.bind_some, afterBlanks_spaces n hr,
      Option.getD_some, ← hcons, hrun, Option.bind_some, dropWhile_spaces_append, hends, hlength,
      htrim]
    rfl

theorem trimJs_eq_nil_iff {s : Text} : trimJs s = [] ↔ ∀ c ∈ s, Web.isJsBlank c = true := by
  constructor
  · intro hnil
    obtain ⟨a, b, hsplit, ha, hb⟩ := Text.exists_trimMatches Web.isJsBlank s
    rw [trimJs] at hnil
    rw [hnil, List.append_nil] at hsplit
    intro c hc
    rw [hsplit] at hc
    rcases List.mem_append.mp hc with hc | hc
    · exact ha c hc
    · exact hb c hc
  · intro hall
    rw [trimJs, Text.trimMatches, List.dropWhile_eq_nil_iff.mpr hall, List.rdropWhile_nil]

theorem length_spaces (n : ℕ) : (spaces n).length = n := List.length_replicate

/-- The lines of a block, and those after it that are deeper than the margin. -/
theorem deeperLines_append {margin indent : ℕ} (hindent : margin < indent) {body : List Text}
    (hbody : ∀ line ∈ body, (∃ n, line = spaces n) ∨ ∃ rest, line = spaces indent ++ rest)
    (after : List Text) : deeperLines margin (body ++ after) =
      (body.map trimJs).filter (· ≠ []) ++ deeperLines margin after := by
  induction body with
  | nil => rfl
  | cons line body ih =>
      have hrest := ih fun l hl ↦ hbody l (List.mem_cons_of_mem line hl)
      rw [List.cons_append, deeperLines, List.map_cons]
      by_cases hblank : trimJs line = []
      · simp [hblank, hrest]
      · have hdeep : ¬ (line.takeWhile Web.isJsBlank).length ≤ margin := by
          rcases hbody line List.mem_cons_self with ⟨n, rfl⟩ | ⟨rest, rfl⟩
          · exact absurd (trimJs_eq_nil_iff.mpr fun _ ↦ isJsBlank_of_mem_spaces) hblank
          · rw [List.takeWhile_append_of_pos fun _ ↦ isJsBlank_of_mem_spaces, List.length_append,
              length_spaces]
            omega
        simp [hblank, hdeep, hrest]

end Lines

/-! ## What is cut out of a workflow -/

/-- One of these commands is a type check. -/
def HasCheck (manifests : List Manifest) (commands : List Text) : Prop :=
  ∃ command ∈ commands, IsTypeCheck manifests command

section Cut

variable {manifests : List Manifest} {parts : List Part}

theorem hasCheck_append {xs ys : List Text} :
    HasCheck manifests (xs ++ ys) ↔ HasCheck manifests xs ∨ HasCheck manifests ys := by
  simp only [HasCheck, List.mem_append, or_and_right, exists_or]

theorem hasCheck_singleton {s : Text} : HasCheck manifests [s] ↔ IsTypeCheck manifests s := by
  simp [HasCheck]

theorem hasCheck_flatMap {f : Part → List Text} :
    HasCheck manifests (parts.flatMap f) ↔ ∃ part ∈ parts, HasCheck manifests (f part) := by
  simp only [HasCheck, List.mem_flatMap]
  constructor
  · rintro ⟨command, ⟨part, hpart, hmem⟩, hcheck⟩
    exact ⟨part, hpart, command, hmem, hcheck⟩
  · rintro ⟨part, hpart, command, hmem, hcheck⟩
    exact ⟨command, ⟨part, hpart, hmem⟩, hcheck⟩

/-- A block is scanned without its indentation and its empty lines. -/
theorem hasCheck_body {indent : ℕ} {body : List Text}
    (hbody : ∀ line ∈ body, (∃ n, line = spaces n) ∨ ∃ rest, line = spaces indent ++ rest) :
    HasCheck manifests ((body.map trimJs).filter (· ≠ [])) ↔
      HasCheck manifests (body.map fun line ↦ line.drop indent) := by
  have hsame (line : Text) (hline : line ∈ body) :
      IsTypeCheck manifests (trimJs line) ↔ IsTypeCheck manifests (line.drop indent) := by
    rw [← isTypeCheck_trimJs (s := line.drop indent)]
    rcases hbody line hline with ⟨n, rfl⟩ | ⟨rest, rfl⟩
    · have hblank : trimJs (spaces n) = [] :=
        trimJs_eq_nil_iff.mpr fun _ ↦ isJsBlank_of_mem_spaces
      have hdrop : trimJs ((spaces n).drop indent) = [] :=
        trimJs_eq_nil_iff.mpr fun c hc ↦ isJsBlank_of_mem_spaces (List.drop_subset indent _ hc)
      rw [hblank, hdrop]
    · rw [trimJs_spaces_append, List.drop_left' (length_spaces indent)]
  constructor
  · rintro ⟨_, hmem, hcheck⟩
    obtain ⟨hmem, -⟩ := List.mem_filter.mp hmem
    obtain ⟨line, hline, rfl⟩ := List.mem_map.mp hmem
    exact ⟨_, List.mem_map_of_mem hline, (hsame line hline).mp hcheck⟩
  · rintro ⟨_, hmem, hcheck⟩
    obtain ⟨line, hline, rfl⟩ := List.mem_map.mp hmem
    have htrimmed := (hsame line hline).mpr hcheck
    refine ⟨trimJs line, List.mem_filter.mpr ⟨List.mem_map_of_mem hline, ?_⟩, htrimmed⟩
    rw [decide_eq_true_eq]
    intro hnil
    rw [hnil] at htrimmed
    exact not_isTypeCheck_nil htrimmed

theorem trails_comment {comment : Text} (h : IsComment comment) (hne : comment ≠ []) :
    Trails comment := by
  rcases h with hnil | ⟨n, text, rfl⟩
  · exact absurd hnil hne
  · refine ⟨⟨' ', spaces n ++ '#' :: text, rfl, by decide⟩, fun c hc ↦ ?_⟩
    rw [dropWhile_spaces_append, List.dropWhile_cons_of_neg (by decide)] at hc
    cases hc
    decide

theorem Quotes.Admits.write_eq {quotes : Quotes} {command : Text} (h : quotes.Admits command) :
    ∃ c rest, quotes.write command = c :: rest ∧ Web.isJsBlank c = false ∧ c ≠ '|' ∧ c ≠ '>' := by
  cases quotes with
  | plain =>
      obtain ⟨htrimmed, c, rest, rfl, hliteral, hfolded⟩ := h
      have hc : Web.isJsBlank c = false :=
        Text.head?_trimMatches (s := c :: rest) (by rw [← trimJs, htrimmed]; rfl)
      exact ⟨c, rest, by simp [write, mark], hc, hliteral, hfolded⟩
  | single => exact ⟨'\'', _, rfl, by decide, by decide, by decide⟩
  | double => exact ⟨'"', _, rfl, by decide, by decide, by decide⟩

/-- What is trimmed keeps a beginning that is not blank. -/
theorem trimJs_cons {c : Char} (hc : Web.isJsBlank c = false) (rest : Text) :
    ∃ rest', trimJs (c :: rest) = c :: rest' := by
  have hdrop : (c :: rest).dropWhile Web.isJsBlank = c :: rest :=
    List.dropWhile_cons_of_neg (by simp [hc])
  refine ⟨rest.rdropWhile Web.isJsBlank, ?_⟩
  rw [trimJs, Text.trimMatches, hdrop]
  exact Text.rdropWhile_append (s := [c]) (by simp [hc]) rest

/-- The value of a key is taken as it is, unless it is the header of a block. -/
theorem commandsAt_text {key : RunKey} {value : Text} (hline : value.any isLineEnd = false)
    (hne : trimJs value ≠ []) (after : List Text) :
    commandsAt (key.text ++ value) after =
      if isBlockHeader (trimJs value) then deeperLines key.margin after else [trimJs value] := by
  rw [commandsAt, runLine?_text hline]
  cases hheader : isBlockHeader (trimJs value) <;> simp [hne, hheader]

theorem hasCheck_inline {key : RunKey} {quotes : Quotes} {command comment : Text}
    (hlaid : (Part.inline key quotes command comment).Laid) (after : List Text) :
    HasCheck manifests (commandsWithin (Part.inline key quotes command comment).lines after) ↔
      HasCheck manifests [quotes.write command] ∨
        HasCheck manifests ((Part.inline key quotes command comment).strays after) := by
  obtain ⟨hadmits, hcomment, hline⟩ := hlaid
  obtain ⟨c, rest, hwrite, hc, hliteral, hfolded⟩ := hadmits.write_eq
  obtain ⟨rest', htrim⟩ := trimJs_cons hc (rest ++ comment)
  have htaken : commandsWithin (Part.inline key quotes command comment).lines after =
      [trimJs (quotes.write command ++ comment)] := by
    have hvalue : trimJs (quotes.write command ++ comment) = c :: rest' := by
      rw [hwrite, List.cons_append, htrim]
    rw [Part.lines, commandsWithin, commandsWithin, List.nil_append, List.append_nil,
      commandsAt_text hline (by simp [hvalue]), hvalue]
    simp [isBlockHeader, hliteral, hfolded]
  rw [htaken, Part.strays]
  by_cases hnone : comment = []
  · simp [hnone, HasCheck, isTypeCheck_trimJs]
  · have hwith : IsTypeCheck manifests (quotes.write command) →
        IsTypeCheck manifests (trimJs (quotes.write command ++ comment)) :=
      fun h ↦ isTypeCheck_trimJs.mpr (h.append (trails_comment hcomment hnone))
    rw [if_neg hnone, hasCheck_singleton, hasCheck_singleton]
    exact (or_iff_right_of_imp hwith).symm

theorem hasCheck_block {key : RunKey} {header : BlockHeader} {comment : Text} {indent : ℕ}
    {body : List Text} (hlaid : (Part.block key header comment indent body).Laid)
    (after : List Text) :
    HasCheck manifests (commandsWithin (Part.block key header comment indent body).lines after) ↔
      HasCheck manifests (Part.block key header comment indent body).shown ∨
        HasCheck manifests ((Part.block key header comment indent body).strays after) := by
  obtain ⟨hcomment, hline, hbody⟩ := hlaid
  have hlines := fun line hline ↦ (hbody.lines line hline).2
  have hmargin : key.margin < indent := lt_of_le_of_lt (Nat.le_add_right _ _) hbody.deeper
  have hne : trimJs (header.text ++ comment) ≠ [] := by
    intro hnil
    have hmark := trimJs_eq_nil_iff.mp hnil header.style.mark List.mem_cons_self
    cases hstyle : header.style with
    | literal =>
        rw [hstyle] at hmark
        exact absurd hmark (by decide)
    | folded =>
        rw [hstyle] at hmark
        exact absurd hmark (by decide)
  rw [Part.lines, commandsWithin, commandsAt_text hline hne, Part.shown, Part.strays]
  cases isBlockHeader (trimJs (header.text ++ comment)) with
  | true =>
      simp only [if_true]
      rw [deeperLines_append hmargin hlines, ← hasCheck_body hlines, List.append_assoc,
        hasCheck_append]
  | false =>
      simp [HasCheck]

/-- A line that is cut out of a workflow is a type check exactly if one is that
stands there for the scan, or a stray line. -/
theorem hasCheck_runCommands (hlaid : ∀ part ∈ parts, part.Laid) :
    HasCheck manifests (runCommands (partLines parts)) ↔
      HasCheck manifests (parts.flatMap Part.shown) ∨ HasCheck manifests (strays parts) := by
  induction parts with
  | nil => simp [partLines, runCommands, strays, HasCheck]
  | cons part parts ih =>
      have hrest := ih fun p hp ↦ hlaid p (List.mem_cons_of_mem part hp)
      have hpart : HasCheck manifests (commandsWithin part.lines (partLines parts)) ↔
          HasCheck manifests part.shown ∨ HasCheck manifests (part.strays (partLines parts)) := by
        cases part with
        | other line => simp [Part.lines, commandsWithin, Part.shown, Part.strays, HasCheck]
        | inline key quotes command comment =>
            exact hasCheck_inline (hlaid _ List.mem_cons_self) _
        | block key header comment indent body =>
            exact hasCheck_block (hlaid _ List.mem_cons_self) _
      have hlines : partLines (part :: parts) = part.lines ++ partLines parts := rfl
      rw [hlines, runCommands_append, List.flatMap_cons, strays, hasCheck_append, hasCheck_append,
        hasCheck_append, hpart, hrest]
      exact or_or_or_comm

end Cut

/-! ## When the detector is right -/

/-- From this script a body can be reached that runs a tool. -/
def LeadsToCheck (manifests : List Manifest) (name : Text) : Prop :=
  ∃ target, Relation.ReflTransGen (CallsScript manifests) name target ∧
    RunsChecker manifests target

/-- One of the first commands calls a script that none of the others calls, and that
leads to a check. -/
def CallsBeyond (manifests : List Manifest) (commands others : List Text) : Prop :=
  ∃ command ∈ commands, ∃ name ∈ referencedScriptNames command,
    LeadsToCheck manifests name ∧ ∀ other ∈ others, name ∉ referencedScriptNames other

/-- The condition on the layout: neither the stray lines nor the calls in single
lines of a block say more than the commands do, and where a command is veiled or
calls across a line end, something else that the scan takes says the same. -/
structure Faithful (manifests : List Manifest) (parts : List Part) : Prop where
  accepts : HasCheck manifests (strays parts) ∨
      (∃ part ∈ parts, CallsBeyond manifests part.shown part.commands) →
    HasCheck manifests (parts.flatMap Part.commands)
  finds : (∃ part ∈ parts, part.Veiled ∧ HasCheck manifests part.commands ∨
      CallsBeyond manifests part.commands part.shown) →
    HasCheck manifests (parts.flatMap Part.shown) ∨ HasCheck manifests (strays parts)

/-- Nothing in quotes, no header that the scan does not know, and no call that is
broken off at the end of a line. -/
def Part.Open (part : Part) : Prop := ¬ part.Veiled ∧ ∀ line ∈ part.shown, Unbroken line

section Right

variable {manifests : List Manifest} {parts : List Part} {part : Part}

theorem CallsBeyond.hasCheck {xs ys : List Text} (h : CallsBeyond manifests xs ys) :
    HasCheck manifests xs := by
  obtain ⟨command, hcommand, name, hname, hleads, -⟩ := h
  exact ⟨command, hcommand, .inr ⟨name, hname, hleads⟩⟩

/-- What runs no tool that the others do not run differs from them in its calls. -/
theorem HasCheck.of_tools {xs ys : List Text}
    (htools : (∃ x ∈ xs, tsCheckerRe x = true) → ∃ y ∈ ys, tsCheckerRe y = true)
    (h : HasCheck manifests xs) : HasCheck manifests ys ∨ CallsBeyond manifests xs ys := by
  obtain ⟨x, hx, htool | ⟨name, hname, hleads⟩⟩ := h
  · obtain ⟨y, hy, htool⟩ := htools ⟨x, hx, htool⟩
    exact .inl ⟨y, hy, .inl htool⟩
  · by_cases hother : ∃ y ∈ ys, name ∈ referencedScriptNames y
    · obtain ⟨y, hy, hname⟩ := hother
      exact .inl ⟨y, hy, .inr ⟨name, hname, hleads⟩⟩
    · refine .inr ⟨x, hx, name, hname, hleads, fun y hy hmem ↦ ?_⟩
      exact hother ⟨y, hy, hmem⟩

theorem tools_of_shown (part : Part) (h : ∃ line ∈ part.shown, tsCheckerRe line = true) :
    ∃ command ∈ part.commands, tsCheckerRe command = true := by
  obtain ⟨line, hline, htool⟩ := h
  cases part with
  | other line => cases hline
  | inline key quotes command comment =>
      obtain rfl : line = quotes.write command := List.mem_singleton.mp hline
      refine ⟨command, List.mem_cons_self, ?_⟩
      cases quotes with
      | plain => simpa [Quotes.write, Quotes.mark] using htool
      | single => exact tsCheckerRe_of_quoted (by decide) htool
      | double => exact tsCheckerRe_of_quoted (by decide) htool
  | block key header comment indent body =>
      rw [Part.shown] at hline
      split at hline
      · exact ⟨_, List.mem_cons_self,
          (joins_blockText header _).tsCheckerRe_iff.mpr ⟨line, hline, htool⟩⟩
      · cases hline

theorem tools_of_commands (hopen : ¬ part.Veiled)
    (h : ∃ command ∈ part.commands, tsCheckerRe command = true) :
    ∃ line ∈ part.shown, tsCheckerRe line = true := by
  obtain ⟨command', hcommand, htool⟩ := h
  cases part with
  | other line => cases hcommand
  | inline key quotes command comment =>
      obtain rfl : quotes = .plain := not_not.mp hopen
      obtain rfl : command' = command := List.mem_singleton.mp hcommand
      exact ⟨command', by simp [Part.shown, Quotes.write, Quotes.mark], htool⟩
  | block key header comment indent body =>
      have hheader : isBlockHeader (trimJs (header.text ++ comment)) = true := by
        simpa [Part.Veiled] using hopen
      obtain rfl := List.mem_singleton.mp hcommand
      obtain ⟨line, hline, htool⟩ := (joins_blockText header _).tsCheckerRe_iff.mp htool
      exact ⟨line, by rwa [Part.shown, if_pos hheader], htool⟩

/-- The scan sees the same calls in a part that is open. -/
theorem mem_calls_iff (hopen : part.Open) {name : Text} :
    (∃ command ∈ part.commands, name ∈ referencedScriptNames command) ↔
      ∃ line ∈ part.shown, name ∈ referencedScriptNames line := by
  obtain ⟨hveiled, hunbroken⟩ := hopen
  cases part with
  | other line => rfl
  | inline key quotes command comment =>
      obtain rfl : quotes = .plain := not_not.mp hveiled
      simp [Part.commands, Part.shown, Quotes.write, Quotes.mark]
  | block key header comment indent body =>
      have hheader : isBlockHeader (trimJs (header.text ++ comment)) = true := by
        simpa [Part.Veiled] using hveiled
      rw [Part.shown, if_pos hheader] at hunbroken ⊢
      have hcalls := (joins_blockText header _).referencedScriptNames_eq hunbroken
      simp only [Part.commands, List.mem_singleton, exists_eq_left]
      rw [hcalls, List.mem_flatMap]

theorem not_callsBeyond {xs ys : List Text}
    (h : ∀ name, (∃ x ∈ xs, name ∈ referencedScriptNames x) →
      ∃ y ∈ ys, name ∈ referencedScriptNames y) : ¬ CallsBeyond manifests xs ys := by
  rintro ⟨x, hx, name, hname, -, hnone⟩
  obtain ⟨y, hy, hmem⟩ := h name ⟨x, hx, hname⟩
  exact hnone y hy hmem

/-- What the scan takes agrees with the commands exactly under the condition. -/
theorem faithful_iff : Faithful manifests parts ↔
    (HasCheck manifests (parts.flatMap Part.shown) ∨ HasCheck manifests (strays parts) ↔
      HasCheck manifests (parts.flatMap Part.commands)) := by
  constructor
  · intro hfaithful
    constructor
    · rintro (hshown | hstrays)
      · obtain ⟨part, hpart, hcheck⟩ := hasCheck_flatMap.mp hshown
        rcases hcheck.of_tools (tools_of_shown part) with hcommand | hbeyond
        · exact hasCheck_flatMap.mpr ⟨part, hpart, hcommand⟩
        · exact hfaithful.accepts (.inr ⟨part, hpart, hbeyond⟩)
      · exact hfaithful.accepts (.inl hstrays)
    · intro hcommands
      obtain ⟨part, hpart, hcheck⟩ := hasCheck_flatMap.mp hcommands
      by_cases hveiled : part.Veiled
      · exact hfaithful.finds ⟨part, hpart, .inl ⟨hveiled, hcheck⟩⟩
      · rcases hcheck.of_tools (tools_of_commands hveiled) with hshown | hbeyond
        · exact .inl (hasCheck_flatMap.mpr ⟨part, hpart, hshown⟩)
        · exact hfaithful.finds ⟨part, hpart, .inr hbeyond⟩
  · intro hagree
    constructor
    · rintro (hstrays | ⟨part, hpart, hbeyond⟩)
      · exact hagree.mp (.inr hstrays)
      · exact hagree.mp (.inl (hasCheck_flatMap.mpr ⟨part, hpart, hbeyond.hasCheck⟩))
    · rintro ⟨part, hpart, ⟨-, hcheck⟩ | hbeyond⟩
      · exact hagree.mpr (hasCheck_flatMap.mpr ⟨part, hpart, hcheck⟩)
      · exact hagree.mpr (hasCheck_flatMap.mpr ⟨part, hpart, hbeyond.hasCheck⟩)

/-- With open steps, only the stray lines count. -/
theorem faithful_of_open (hopen : ∀ part ∈ parts, part.Open) : Faithful manifests parts ↔
    (HasCheck manifests (strays parts) → HasCheck manifests (parts.flatMap Part.commands)) := by
  constructor
  · exact fun hfaithful hstrays ↦ hfaithful.accepts (.inl hstrays)
  · intro hstrays
    constructor
    · rintro (h | ⟨part, hpart, hbeyond⟩)
      · exact hstrays h
      · exact absurd hbeyond (not_callsBeyond fun _ ↦ (mem_calls_iff (hopen part hpart)).mpr)
    · rintro ⟨part, hpart, ⟨hveiled, -⟩ | hbeyond⟩
      · exact absurd hveiled (hopen part hpart).1
      · exact absurd hbeyond (not_callsBeyond fun _ ↦ (mem_calls_iff (hopen part hpart)).mp)

end Right

/-- The text of a workflow that consists of these parts. -/
def workflowOf (parts : List Part) : Text := ['\n'].intercalate (partLines parts)

theorem notMem_text {key : RunKey} : '\n' ∉ key.text := by
  have hspaces (n : ℕ) : '\n' ∉ spaces n := fun h ↦ absurd (List.eq_of_mem_replicate h) (by decide)
  have hrun : '\n' ∉ "run:".toList := by decide
  rcases hkey : key.dash with _ | n
  · simp [RunKey.text, hkey, hspaces]
  · simp [RunKey.text, hkey, hspaces]

theorem notMem_of_any_isLineEnd {s : Text} (h : s.any isLineEnd = false) : '\n' ∉ s :=
  fun hmem ↦ List.any_eq_false.mp h _ hmem (by decide)

theorem Part.Laid.notMem {part : Part} (h : part.Laid) {line : Text} (hline : line ∈ part.lines) :
    '\n' ∉ line := by
  cases part with
  | other line' => rwa [List.mem_singleton.mp hline]
  | inline key quotes command comment =>
      obtain ⟨-, -, hends⟩ := h
      rw [List.mem_singleton.mp hline, List.mem_append, not_or]
      exact ⟨notMem_text, notMem_of_any_isLineEnd hends⟩
  | block key header comment indent body =>
      obtain ⟨-, hends, hbody⟩ := h
      rcases List.mem_cons.mp hline with rfl | hline
      · rw [List.mem_append, not_or]
        exact ⟨notMem_text, notMem_of_any_isLineEnd hends⟩
      · exact (hbody.lines line hline).1

theorem workflowRunCommands_workflowOf {parts : List Part} (hlaid : ∀ part ∈ parts, part.Laid) :
    workflowRunCommands (workflowOf parts) = runCommands (partLines parts) := by
  by_cases hnil : partLines parts = []
  · rw [workflowRunCommands, workflowOf, hnil]
    rfl
  · have hlines : ∀ line ∈ partLines parts, '\n' ∉ line := by
      intro line hline
      obtain ⟨part, hpart, hmem⟩ := List.mem_flatMap.mp hline
      exact (hlaid part hpart).notMem hmem
    rw [workflowRunCommands, workflowOf, List.splitOn_intercalate '\n' hlines hnil]

namespace Sample

/-- A step that begins with its block, and is named after it. -/
def named (name : String) (commands : List String) : List Part :=
  [.other "steps:".toList,
    .block ⟨2, some 0, 0⟩ ⟨.literal, .clip, none, false⟩ [] 6
      ("      npm ci".toList :: commands.map fun command ↦ spaces 6 ++ command.toList),
    .other ("    name: ".toList ++ name.toList)]

theorem named_laid (name : String) (commands : List String) (hname : '\n' ∉ name.toList)
    (hcommands : ∀ command ∈ commands, '\n' ∉ command.toList) :
    ∀ part ∈ named name commands, part.Laid := by
  intro part hpart
  simp only [named, List.mem_cons, List.not_mem_nil, or_false] at hpart
  rcases hpart with rfl | rfl | rfl
  · exact (by decide : '\n' ∉ "steps:".toList)
  · refine ⟨.inl rfl, by decide, by decide, fun line hline ↦ ?_, by simp, fun _ line hline ↦ ?_⟩
    · rcases List.mem_cons.mp hline with rfl | hline
      · exact ⟨by decide, .inr ⟨"npm ci".toList, rfl⟩⟩
      · obtain ⟨command, hcommand, rfl⟩ := List.mem_map.mp hline
        refine ⟨?_, .inr ⟨command.toList, rfl⟩⟩
        simp [spaces, hcommands command hcommand]
    · obtain rfl : "      npm ci".toList = line := by
        have hfirst : (("      npm ci".toList).any fun c ↦ decide (c ≠ ' ')) = true := by decide
        rw [List.find?_cons_of_pos (by exact hfirst)] at hline
        exact Option.some.inj hline
      decide
  · simp [Part.Laid, hname]

def web : Manifest := ⟨"apps/web/package.json".toList, [("check".toList, "tsc -b".toList)]⟩

/-- A call that goes over the end of a line is missed. -/
example :
    (named "Types" ["npm run", "check"]).flatMap Part.commands =
        ["npm ci\nnpm run\ncheck\n".toList] ∧
      referencedScriptNames "npm ci\nnpm run\ncheck\n".toList = ["check".toList] ∧
      findTypeScriptCheck 2 (workflowOf (named "Types" ["npm run", "check"])) [web] =
        some none := by
  decide +kernel

end Sample

end Otdel.Scripts
