import Otdel.Library.Search
import Otdel.Web.Gates

/-!
# Is there a type check?

The check looks for a command of a workflow that runs the TypeScript compiler,
directly or through the scripts of the manifests.  The commands are cut out of the
text line by line.
-/

namespace Otdel.Scripts

/-! ## Commands -/

/-- `\s+`: what follows the blanks, if there are any. -/
def afterBlanks : Text → Option Text
  | [] => none
  | c :: rest => if Web.isJsBlank c then some (rest.dropWhile Web.isJsBlank) else none

def isTokenStart (c : Char) : Bool :=
  Web.isJsBlank c || c = ';' || c = '&' || c = '|' || c = '('

def isTokenEnd (c : Char) : Bool :=
  Web.isJsBlank c || c = ';' || c = '&' || c = '|' || c = ')'

def typeScriptTools : List Text := ["vue-tsc".toList, "svelte-check".toList, "tsc".toList]

/-- With `npx`, `pnpm exec` or `yarn` in front, or nothing. -/
def runners (s : Text) : List (Option Text) :=
  [(Text.stripPrefix "npx".toList s).bind afterBlanks,
    (Text.stripPrefix "pnpm".toList s).bind fun s ↦
      ((afterBlanks s).bind (Text.stripPrefix "exec".toList)).bind afterBlanks,
    (Text.stripPrefix "yarn".toList s).bind afterBlanks,
    some s]

def startsWithTool (s : Text) : Bool :=
  typeScriptTools.any fun tool ↦ (Text.stripPrefix tool s).any fun rest ↦ rest.head?.all isTokenEnd

/-- A match that begins where `s` does, after a boundary of tokens. -/
def checkerAt (s : Text) : Bool := (runners s).any fun rest ↦ rest.any startsWithTool

def checkerFrom (atBoundary : Bool) : Text → Bool
  | [] => false
  | c :: rest => (atBoundary && checkerAt (c :: rest)) || checkerFrom (isTokenStart c) rest

/-- `TS_CHECKER_RE.test`. -/
def tsCheckerRe (s : Text) : Bool := checkerFrom true s

/-- `\w`. -/
def isScriptWordChar (c : Char) : Bool := c.isAlphanum || c = '_'

def isScriptNameChar (c : Char) : Bool :=
  c.isAlphanum || c = '_' || c = ':' || c = '.' || c = '-'

def scriptName (s : Text) : Option (Text × Text) :=
  if (s.takeWhile isScriptNameChar).isEmpty then none
  else some (s.takeWhile isScriptNameChar, s.dropWhile isScriptNameChar)

/-- A call of a tool that begins here: the name, and what follows it. -/
def callOf (tool s : Text) : Option (Text × Text) :=
  (Text.stripPrefix tool s).bind fun s ↦
    ((afterBlanks s).bind (Text.stripPrefix "run".toList)).bind fun s ↦
      (afterBlanks s).bind scriptName

def packageManagers : List Text := ["npm".toList, "pnpm".toList, "yarn".toList]

def callAt (s : Text) : Option (Text × Text) := packageManagers.findSome? fun tool ↦ callOf tool s

/-- `matchAll`: `skip` characters belong to the last match. -/
def callsFrom : ℕ → Option Char → Text → List Text
  | _, _, [] => []
  | skip + 1, _, c :: rest => callsFrom skip (some c) rest
  | 0, before, c :: rest =>
      match if before.any isScriptWordChar then none else callAt (c :: rest) with
      | some (name, after) => name :: callsFrom (rest.length - after.length) (some c) rest
      | none => callsFrom 0 (some c) rest

def referencedScriptNames (command : Text) : List Text := callsFrom 0 none command

/-! ## Workflows -/

/-- What `.` does not match. -/
def isLineEnd (c : Char) : Bool :=
  c = '\n' || c = '\r' || c = Char.ofNat 0x2028 || c = Char.ofNat 0x2029

def trimJs (s : Text) : Text := Text.trimMatches Web.isJsBlank s

/-- `/^(\s*)(?:-\s+)?run:\s*(.*)$/`: the length of the indentation and the value. -/
def runLine? (line : Text) : Option (ℕ × Text) :=
  let key := line.dropWhile Web.isJsBlank
  let key := ((Text.stripPrefix ['-'] key).bind afterBlanks).getD key
  (Text.stripPrefix "run:".toList key).bind fun rest ↦
    let value := rest.dropWhile Web.isJsBlank
    if value.any isLineEnd then none
    else some ((line.takeWhile Web.isJsBlank).length, trimJs value)

/-- `/^[|>][-+]?\d*$/`. -/
def isBlockHeader : Text → Bool
  | [] => false
  | c :: rest =>
      (c = '|' || c = '>') &&
        (match rest with
          | '-' :: digits => digits
          | '+' :: digits => digits
          | digits => digits).all Char.isDigit

/-- The lines that are deeper than the indentation. -/
def deeperLines (indent : ℕ) : List Text → List Text
  | [] => []
  | line :: rest =>
      if trimJs line = [] then deeperLines indent rest
      else if (line.takeWhile Web.isJsBlank).length ≤ indent then []
      else trimJs line :: deeperLines indent rest

/-- What the loop adds at a line, with the lines after it. -/
def commandsAt (line : Text) (rest : List Text) : List Text :=
  match runLine? line with
  | none => []
  | some (indent, inline) =>
      if inline ≠ [] ∧ isBlockHeader inline = false then [inline] else deeperLines indent rest

def runCommands : List Text → List Text
  | [] => []
  | line :: rest => commandsAt line rest ++ runCommands rest

def workflowRunCommands (text : Text) : List Text := runCommands (text.splitOn '\n')

/-! ## Scripts -/

/-- A manifest with those of its scripts that are strings. -/
structure Manifest where
  path : Text
  scripts : List (Text × Text)
  deriving DecidableEq

/-- The bodies that the manifests have for a name, in their order. -/
def scriptBodies (manifests : List Manifest) (name : Text) : List (Text × Text) :=
  manifests.filterMap fun manifest ↦ (manifest.scripts.lookup name).map fun body ↦
    (manifest.path, body)

/-- Scripts and the calls between them. -/
def scriptGraph (manifests : List Manifest) : Search.Graph Text (Text × Text) Text where
  contents := scriptBodies manifests
  hit name entry :=
    if tsCheckerRe entry.2 then
      some (entry.1 ++ " script \"".toList ++ name ++ "\": ".toList ++ entry.2)
    else none
  links entry := referencedScriptNames entry.2

/-- `resolve(name, new Set())` for one name after the other. -/
def resolveFirst (fuel : ℕ) (manifests : List Manifest) : List Text → Option (Option Text)
  | [] => some none
  | name :: rest =>
      match (scriptGraph manifests).visit fuel name [] with
      | none => none
      | some (some found, _) => some (some found)
      | some (none, _) => resolveFirst fuel manifests rest

def checkCommands (fuel : ℕ) (manifests : List Manifest) : List Text → Option (Option Text)
  | [] => some none
  | command :: rest =>
      if tsCheckerRe command then some (some ("workflow step `".toList ++ command ++ "`".toList))
      else
        match resolveFirst fuel manifests (referencedScriptNames command) with
        | some none => checkCommands fuel manifests rest
        | r => r

/-- Nothing if the fuel is short, else what is found. -/
def findTypeScriptCheck (fuel : ℕ) (workflowText : Text) (manifests : List Manifest) :
    Option (Option Text) :=
  checkCommands fuel manifests (workflowRunCommands workflowText)

/-! ## What is found -/

/-- The body of this script matches in one of the manifests. -/
def RunsChecker (manifests : List Manifest) (name : Text) : Prop :=
  ∃ entry ∈ scriptBodies manifests name, tsCheckerRe entry.2 = true

/-- A body of the one script calls the other. -/
def CallsScript (manifests : List Manifest) (name name' : Text) : Prop :=
  ∃ entry ∈ scriptBodies manifests name, name' ∈ referencedScriptNames entry.2

/-- The command is a type check, or calls a script that leads to one. -/
def IsTypeCheck (manifests : List Manifest) (command : Text) : Prop :=
  tsCheckerRe command = true ∨ ∃ name ∈ referencedScriptNames command,
    ∃ target, Relation.ReflTransGen (CallsScript manifests) name target ∧
      RunsChecker manifests target

/-- The names that have a body somewhere. -/
def scriptNames (manifests : List Manifest) : List Text :=
  manifests.flatMap fun manifest ↦ manifest.scripts.map Prod.fst

section Found

variable {manifests : List Manifest} {fuel fuel' : ℕ} {name : Text}

theorem mem_scriptNames (h : scriptBodies manifests name ≠ []) : name ∈ scriptNames manifests := by
  obtain ⟨entry, hentry⟩ := List.exists_mem_of_ne_nil _ h
  obtain ⟨manifest, hmanifest, hbody⟩ := List.mem_filterMap.mp hentry
  obtain ⟨body, hlookup, -⟩ := Option.map_eq_some_iff.mp hbody
  obtain ⟨before, after, hsplit, -⟩ := List.lookup_eq_some_iff.mp hlookup
  refine List.mem_flatMap.mpr ⟨manifest, hmanifest, List.mem_map.mpr ⟨(name, body), ?_, rfl⟩⟩
  rw [hsplit]
  exact List.mem_append_right _ List.mem_cons_self

theorem leads_iff : (scriptGraph manifests).Leads name ↔
    ∃ target, Relation.ReflTransGen (CallsScript manifests) name target ∧
      RunsChecker manifests target := by
  have hholds (target : Text) :
      (scriptGraph manifests).Holds target ↔ RunsChecker manifests target := by
    apply exists_congr
    intro entry
    apply and_congr_right
    intro _
    by_cases hchecker : tsCheckerRe entry.2 = true <;> simp [scriptGraph, hchecker]
  apply exists_congr
  intro target
  exact and_congr Iff.rfl (hholds target)

theorem resolveFirst_iff (hfuel : (scriptNames manifests).length < fuel) (names : List Text) :
    ∃ r, resolveFirst fuel manifests names = some r ∧
      (r.isSome ↔ ∃ name ∈ names, (scriptGraph manifests).Leads name) := by
  have hnodes : ∀ name, (scriptGraph manifests).contents name ≠ [] →
      name ∈ scriptNames manifests := fun _ ↦ mem_scriptNames
  induction names with
  | nil => exact ⟨none, rfl, by simp⟩
  | cons name rest ih =>
      obtain ⟨r, seen, hvisit, hleads⟩ := Search.Graph.visit_iff hnodes name hfuel
      cases r with
      | some found =>
          refine ⟨some found, by rw [resolveFirst, hvisit], iff_of_true rfl ?_⟩
          exact ⟨name, List.mem_cons_self, hleads.mp rfl⟩
      | none =>
          obtain ⟨r, hrest, hiff⟩ := ih
          have hnot : ¬ (scriptGraph manifests).Leads name :=
            fun h ↦ absurd (hleads.mpr h) Bool.false_ne_true
          refine ⟨r, by rw [resolveFirst, hvisit, hrest], hiff.trans ?_⟩
          simp [hnot]

theorem resolveFirst_mono (hfuel : fuel ≤ fuel') {names : List Text} {r : Option Text}
    (h : resolveFirst fuel manifests names = some r) :
    resolveFirst fuel' manifests names = some r := by
  induction names with
  | nil => exact h
  | cons name rest ih =>
      rw [resolveFirst] at h ⊢
      split at h
      · cases h
      · rename_i found seen hvisit
        rw [Search.Graph.visit_mono hfuel hvisit]
        exact h
      · rename_i seen hvisit
        rw [Search.Graph.visit_mono hfuel hvisit]
        exact ih h

theorem checkCommands_iff (hfuel : (scriptNames manifests).length < fuel)
    (commands : List Text) :
    ∃ r, checkCommands fuel manifests commands = some r ∧
      (r.isSome ↔ ∃ command ∈ commands, IsTypeCheck manifests command) := by
  induction commands with
  | nil => exact ⟨none, rfl, by simp⟩
  | cons command rest ih =>
      by_cases hchecker : tsCheckerRe command = true
      · refine ⟨_, by rw [checkCommands, if_pos hchecker], iff_of_true rfl ?_⟩
        exact ⟨command, List.mem_cons_self, .inl hchecker⟩
      · obtain ⟨r, hresolve, hnames⟩ := resolveFirst_iff hfuel (referencedScriptNames command)
        simp only [leads_iff] at hnames
        cases r with
        | some found =>
            refine ⟨some found, by rw [checkCommands, if_neg hchecker, hresolve],
              iff_of_true rfl ?_⟩
            exact ⟨command, List.mem_cons_self, .inr (hnames.mp rfl)⟩
        | none =>
            obtain ⟨r, hrest, hiff⟩ := ih
            have hnot : ¬ IsTypeCheck manifests command := by
              rintro (hself | hcall)
              · exact hchecker hself
              · exact absurd (hnames.mpr hcall) Bool.false_ne_true
            refine ⟨r, by rw [checkCommands, if_neg hchecker, hresolve, hrest], hiff.trans ?_⟩
            simp [hnot]

theorem checkCommands_mono (hfuel : fuel ≤ fuel') {commands : List Text} {r : Option Text}
    (h : checkCommands fuel manifests commands = some r) :
    checkCommands fuel' manifests commands = some r := by
  induction commands with
  | nil => exact h
  | cons command rest ih =>
      rw [checkCommands] at h ⊢
      split
      · rename_i hchecker
        rwa [if_pos hchecker] at h
      rename_i hchecker
      rw [if_neg hchecker] at h
      cases hresolve : resolveFirst fuel manifests (referencedScriptNames command) with
      | none =>
          rw [hresolve] at h
          cases h
      | some found =>
          rw [resolveFirst_mono hfuel hresolve]
          rw [hresolve] at h
          cases found with
          | none => exact ih h
          | some found => exact h

/-- The search ends, and finds a type check exactly if one of the lines that were
cut out is one. -/
theorem findTypeScriptCheck_spec (workflowText : Text) (manifests : List Manifest) :
    ∃ result, (∀ fuel, (scriptNames manifests).length < fuel →
        findTypeScriptCheck fuel workflowText manifests = some result) ∧
      (result.isSome ↔ ∃ line ∈ workflowRunCommands workflowText, IsTypeCheck manifests line) := by
  obtain ⟨result, hresult, hiff⟩ :=
    checkCommands_iff (Nat.lt_succ_self _) (workflowRunCommands workflowText)
  exact ⟨result, fun fuel hfuel ↦ checkCommands_mono hfuel hresult, hiff⟩

end Found

end Otdel.Scripts
