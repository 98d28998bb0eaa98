import Otdel.Library.Json

/-!
# Comments and commas before closing brackets

Dropping such commas from the tokens of a text and reading what is left as JSON
is reading the text by a grammar that allows them everywhere, also in an empty
array or object.  Only these tell that grammar from the one with trailing commas.
Taking comments out of a text changes its tokens where a comment stood between
two words.
-/

namespace Json

/-- Take out each comma that comes right before a closing bracket. -/
def dropTrailing : List Token → List Token
  | [] => []
  | t :: ts => if t.isComma && startsWith Token.isCloser ts then dropTrailing ts
      else t :: dropTrailing ts

/-- A comma alone between an opening and a closing bracket. -/
def loneComma : List Token → Bool
  | [] => false
  | t :: ts =>
      (t.isOpener && startsWith Token.isComma ts && startsWith Token.isCloser ts.tail) ||
        loneComma ts

/-- Two words with nothing between them. -/
def adjacentWords : List Token → Bool
  | [] => false
  | t :: ts => (t.isWord && startsWith Token.isWord ts) || adjacentWords ts

namespace Token

/-- The tokens that an item, a member or a value can start with. -/
def starts : Token → Bool
  | .str _ => true
  | .word _ => true
  | .punct c => c = '[' || c = '{'
  | .bad => false

theorem not_isCloser_of_starts {t : Token} (h : t.starts = true) : t.isCloser = false := by
  cases t with
  | punct c =>
      simp only [starts, Bool.or_eq_true, decide_eq_true_eq] at h
      rcases h with rfl | rfl <;> decide
  | _ => simp [isCloser]

theorem not_isComma_of_starts {t : Token} (h : t.starts = true) : t.isComma = false := by
  cases t with
  | punct c =>
      simp only [starts, Bool.or_eq_true, decide_eq_true_eq] at h
      rcases h with rfl | rfl <;> decide
  | _ => simp [isComma]

end Token

section Grammar

variable {k : Commas} {ts rest : List Token} {p : Phrase}

theorem Reads.starts (h : Reads k ts p rest) : startsWith Token.starts ts = true := by
  induction h with
  | lastItem _ _ ih => exact ih
  | item _ _ ih _ => exact ih
  | _ => rfl

theorem startsWith_eq_false {q r : Token → Bool} (hqr : ∀ t, q t = true → r t = false)
    {ts : List Token} (h : startsWith q ts = true) : startsWith r ts = false := by
  cases ts with
  | nil => rfl
  | cons t ts => exact hqr t h

theorem Reads.not_closer (h : Reads k ts p rest) : startsWith Token.isCloser ts = false :=
  startsWith_eq_false (fun _ ↦ Token.not_isCloser_of_starts) h.starts

theorem Reads.not_comma (h : Reads k ts p rest) : startsWith Token.isComma ts = false :=
  startsWith_eq_false (fun _ ↦ Token.not_isComma_of_starts) h.starts

/-! ## What is read holds -/

theorem Closes.notMem_bad {comma : Bool} {close : Char} (h : Closes comma close ts rest)
    (hrest : Token.bad ∉ rest) : Token.bad ∉ ts := by
  rcases h with rfl | ⟨-, rfl⟩ <;> simpa using hrest

theorem Reads.notMem_bad (h : Reads k ts p rest) (hrest : Token.bad ∉ rest) :
    Token.bad ∉ ts := by
  induction h with
  | word => simpa using hrest
  | str => simpa using hrest
  | emptyArray hclose => simpa using hclose.notMem_bad hrest
  | array _ ih => simpa using ih hrest
  | emptyObject hclose => simpa using hclose.notMem_bad hrest
  | object _ ih => simpa using ih hrest
  | lastItem _ hclose ih => exact ih (hclose.notMem_bad hrest)
  | item _ _ ihv ih => exact ihv (by simpa using ih hrest)
  | lastMember _ _ hclose ih => simpa using ih (hclose.notMem_bad hrest)
  | member _ _ _ ihv ih => simpa using ihv (by simpa using ih hrest)

theorem Closes.not_adjacent {comma : Bool} {close : Char} (h : Closes comma close ts rest)
    (hrest : adjacentWords rest = false) :
    startsWith Token.isWord ts = false ∧ adjacentWords ts = false := by
  rcases h with rfl | ⟨-, rfl⟩ <;> simp [adjacentWords, Token.isWord, hrest]

theorem Reads.not_adjacent (h : Reads k ts p rest) (hword : startsWith Token.isWord rest = false)
    (hrest : adjacentWords rest = false) : adjacentWords ts = false := by
  induction h with
  | word => simp [adjacentWords, hword, hrest]
  | str => simp [adjacentWords, Token.isWord, hrest]
  | emptyArray hclose =>
      simp [adjacentWords, Token.isWord, (hclose.not_adjacent hrest).2]
  | array _ ih => simp [adjacentWords, Token.isWord, ih hword hrest]
  | emptyObject hclose =>
      simp [adjacentWords, Token.isWord, (hclose.not_adjacent hrest).2]
  | object _ ih => simp [adjacentWords, Token.isWord, ih hword hrest]
  | lastItem _ hclose ih =>
      obtain ⟨hafter, hadjacent⟩ := hclose.not_adjacent hrest
      exact ih hafter hadjacent
  | item _ _ ihv ih =>
      exact ihv rfl (by simp [adjacentWords, Token.isWord, ih hword hrest])
  | lastMember _ _ hclose ih =>
      obtain ⟨hafter, hadjacent⟩ := hclose.not_adjacent hrest
      simp [adjacentWords, Token.isWord, ih hafter hadjacent]
  | member _ _ _ ihv ih =>
      have hv := ihv rfl (by simp [adjacentWords, Token.isWord, ih hword hrest])
      simp [adjacentWords, Token.isWord, hv]

/-! ## Trailing commas and lone commas -/

theorem Closes.mono {comma comma' : Bool} {close : Char} (hle : comma = true → comma' = true)
    (h : Closes comma close ts rest) : Closes comma' close ts rest :=
  h.imp_right fun ⟨hcomma, heq⟩ ↦ ⟨hle hcomma, heq⟩

theorem loneComma_cons_of_not_comma {t : Token} (h : startsWith Token.isComma ts = false) :
    loneComma (t :: ts) = loneComma ts := by
  simp [loneComma, h]

theorem loneComma_cons_of_not_opener {t : Token} (h : t.isOpener = false) :
    loneComma (t :: ts) = loneComma ts := by
  simp [loneComma, h]

theorem Closes.not_lone {comma : Bool} {close : Char} (h : Closes comma close ts rest)
    (hopener : (Token.punct close).isOpener = false) (hrest : loneComma rest = false) :
    loneComma ts = false := by
  rcases h with rfl | ⟨-, rfl⟩
  · rwa [loneComma_cons_of_not_opener hopener]
  · rwa [loneComma_cons_of_not_opener (by decide), loneComma_cons_of_not_opener hopener]

theorem Reads.not_lone (h : Reads .afterElement ts p rest) (hrest : loneComma rest = false) :
    loneComma ts = false := by
  induction h with
  | word => rwa [loneComma_cons_of_not_opener rfl]
  | str => rwa [loneComma_cons_of_not_opener rfl]
  | emptyArray hclose =>
      obtain rfl | ⟨hfalse, -⟩ := hclose
      · simpa [loneComma, Token.isComma, Token.isOpener] using hrest
      · exact absurd hfalse Bool.false_ne_true
  | array hitems ih =>
      rw [loneComma_cons_of_not_comma hitems.not_comma]
      exact ih hrest
  | emptyObject hclose =>
      obtain rfl | ⟨hfalse, -⟩ := hclose
      · simpa [loneComma, Token.isComma, Token.isOpener] using hrest
      · exact absurd hfalse Bool.false_ne_true
  | object hmembers ih =>
      rw [loneComma_cons_of_not_comma hmembers.not_comma]
      exact ih hrest
  | lastItem _ hclose ih => exact ih (hclose.not_lone (by decide) hrest)
  | item _ _ ihv ih =>
      apply ihv
      rw [loneComma_cons_of_not_opener (by decide)]
      exact ih hrest
  | lastMember _ _ hclose ih =>
      rw [loneComma_cons_of_not_opener rfl, loneComma_cons_of_not_opener (by decide)]
      exact ih (hclose.not_lone (by decide) hrest)
  | member _ _ _ ihv ih =>
      rw [loneComma_cons_of_not_opener rfl, loneComma_cons_of_not_opener (by decide)]
      apply ihv
      rw [loneComma_cons_of_not_opener (by decide)]
      exact ih hrest

theorem Reads.anywhere (h : Reads .afterElement ts p rest) : Reads .anywhere ts p rest := by
  induction h with
  | word hw => exact .word hw
  | str hraw => exact .str hraw
  | emptyArray hclose => exact .emptyArray (hclose.mono fun _ ↦ rfl)
  | array _ ih => exact .array ih
  | emptyObject hclose => exact .emptyObject (hclose.mono fun _ ↦ rfl)
  | object _ ih => exact .object ih
  | lastItem _ hclose ih => exact .lastItem ih (hclose.mono fun _ ↦ rfl)
  | item _ _ ihv ih => exact .item ihv ih
  | lastMember hkey _ hclose ih => exact .lastMember hkey ih (hclose.mono fun _ ↦ rfl)
  | member hkey _ _ ihv ih => exact .member hkey ihv ih

theorem loneComma_of_cons {t : Token} (h : loneComma (t :: ts) = false) :
    loneComma ts = false := by
  simp only [loneComma, Bool.or_eq_false_iff] at h
  exact h.2

theorem Closes.not_lone_rest {comma : Bool} {close : Char} (h : Closes comma close ts rest)
    (hlone : loneComma ts = false) : loneComma rest = false := by
  rcases h with rfl | ⟨-, rfl⟩
  · exact loneComma_of_cons hlone
  · exact loneComma_of_cons (loneComma_of_cons hlone)

theorem Closes.never_of_not_lone {comma : Bool} {opener close : Char}
    (hopener : (Token.punct opener).isOpener = true) (hcloser : (Token.punct close).isCloser = true)
    (h : Closes comma close ts rest) (hlone : loneComma (.punct opener :: ts) = false) :
    Closes false close ts rest := by
  rcases h with rfl | ⟨-, rfl⟩
  · exact .inl rfl
  · simp [loneComma, hopener, hcloser, Token.isComma] at hlone

/-- Without a lone comma the two grammars with commas read the same. -/
theorem Reads.afterElement (h : Reads .anywhere ts p rest) (hlone : loneComma ts = false) :
    Reads .afterElement ts p rest ∧ loneComma rest = false := by
  induction h with
  | word hw => exact ⟨.word hw, loneComma_of_cons hlone⟩
  | str hraw => exact ⟨.str hraw, loneComma_of_cons hlone⟩
  | emptyArray hclose =>
      exact ⟨.emptyArray (hclose.never_of_not_lone (by decide) (by decide) hlone),
        hclose.not_lone_rest (loneComma_of_cons hlone)⟩
  | array _ ih =>
      obtain ⟨hitems, hrest⟩ := ih (loneComma_of_cons hlone)
      exact ⟨.array hitems, hrest⟩
  | emptyObject hclose =>
      exact ⟨.emptyObject (hclose.never_of_not_lone (by decide) (by decide) hlone),
        hclose.not_lone_rest (loneComma_of_cons hlone)⟩
  | object _ ih =>
      obtain ⟨hmembers, hrest⟩ := ih (loneComma_of_cons hlone)
      exact ⟨.object hmembers, hrest⟩
  | lastItem _ hclose ih =>
      obtain ⟨hv, hafter⟩ := ih hlone
      exact ⟨.lastItem hv (hclose.mono fun _ ↦ rfl), hclose.not_lone_rest hafter⟩
  | item _ _ ihv ih =>
      obtain ⟨hv, hafter⟩ := ihv hlone
      obtain ⟨hitems, hrest⟩ := ih (loneComma_of_cons hafter)
      exact ⟨.item hv hitems, hrest⟩
  | lastMember hkey _ hclose ih =>
      obtain ⟨hv, hafter⟩ := ih (loneComma_of_cons (loneComma_of_cons hlone))
      exact ⟨.lastMember hkey hv (hclose.mono fun _ ↦ rfl), hclose.not_lone_rest hafter⟩
  | member hkey _ _ ihv ih =>
      obtain ⟨hv, hafter⟩ := ihv (loneComma_of_cons (loneComma_of_cons hlone))
      obtain ⟨hmembers, hrest⟩ := ih (loneComma_of_cons hafter)
      exact ⟨.member hkey hv hmembers, hrest⟩

/-! ## Dropping commas -/

theorem dropTrailing_cons_of_not_comma {t : Token} (h : t.isComma = false) :
    dropTrailing (t :: ts) = t :: dropTrailing ts := by
  simp [dropTrailing, h]

theorem dropTrailing_cons_of_not_closer {t : Token} (h : startsWith Token.isCloser ts = false) :
    dropTrailing (t :: ts) = t :: dropTrailing ts := by
  simp [dropTrailing, h]

theorem dropTrailing_comma {t : Token} (h : t.isCloser = true) :
    dropTrailing (.punct ',' :: t :: ts) = dropTrailing (t :: ts) := by
  simp [dropTrailing, Token.isComma, h]

theorem Token.not_isComma_of_isCloser {t : Token} (h : t.isCloser = true) :
    t.isComma = false := by
  simp only [isCloser, Bool.or_eq_true, decide_eq_true_eq] at h
  rcases h with rfl | rfl <;> decide

theorem dropTrailing_eq_nil (h : dropTrailing ts = []) : ts = [] := by
  induction ts with
  | nil => rfl
  | cons t ts ih =>
      simp only [dropTrailing] at h
      split_ifs at h with hcomma
      rw [ih h] at hcomma
      simp [startsWith] at hcomma

/-- The first token that is left stood first, or was a closing bracket after a
comma. -/
theorem dropTrailing_eq_cons {t : Token} {us : List Token} (h : dropTrailing ts = t :: us) :
    ∃ ts', dropTrailing ts' = us ∧
      (ts = t :: ts' ∨ (t.isCloser = true ∧ ts = .punct ',' :: t :: ts')) := by
  cases ts with
  | nil => exact absurd h (by simp [dropTrailing])
  | cons t' ts =>
      simp only [dropTrailing] at h
      split_ifs at h with hdrop
      · simp only [Bool.and_eq_true, Token.isComma, decide_eq_true_eq] at hdrop
        cases ts with
        | nil => exact absurd hdrop.2 (by simp [startsWith])
        | cons closer ts =>
            rw [dropTrailing_cons_of_not_comma (Token.not_isComma_of_isCloser hdrop.2)] at h
            obtain ⟨rfl, rfl⟩ := List.cons.inj h
            exact ⟨ts, rfl, .inr ⟨hdrop.2, by rw [hdrop.1]⟩⟩
      · obtain ⟨rfl, rfl⟩ := List.cons.inj h
        exact ⟨ts, rfl, .inl rfl⟩

theorem dropTrailing_eq_cons_of_not_closer {t : Token} {us : List Token}
    (h : dropTrailing ts = t :: us) (ht : t.isCloser = false) :
    ∃ ts', dropTrailing ts' = us ∧ ts = t :: ts' := by
  obtain ⟨ts', hts', heq | ⟨hcloser, -⟩⟩ := dropTrailing_eq_cons h
  · exact ⟨ts', hts', heq⟩
  · exact absurd (ht.symm.trans hcloser) Bool.false_ne_true

theorem Closes.dropTrailing {comma : Bool} {close : Char}
    (hcloser : (Token.punct close).isCloser = true) (h : Closes comma close ts rest) :
    Closes false close (dropTrailing ts) (Json.dropTrailing rest) := by
  have hcons : Json.dropTrailing (.punct close :: rest) = .punct close :: Json.dropTrailing rest :=
    dropTrailing_cons_of_not_comma (Token.not_isComma_of_isCloser hcloser)
  rcases h with rfl | ⟨-, rfl⟩
  · exact .inl hcons
  · exact .inl ((dropTrailing_comma hcloser).trans hcons)

theorem Closes.of_dropTrailing {close : Char} {us : List Token}
    (h : Closes false close (Json.dropTrailing ts) us) :
    ∃ rest, Json.dropTrailing rest = us ∧ Closes true close ts rest := by
  obtain heq | ⟨hfalse, -⟩ := h
  · obtain ⟨rest, hrest, hts | ⟨-, hts⟩⟩ := dropTrailing_eq_cons heq
    · exact ⟨rest, hrest, .inl hts⟩
    · exact ⟨rest, hrest, .inr ⟨rfl, hts⟩⟩
  · exact absurd hfalse Bool.false_ne_true

theorem Reads.dropTrailing (h : Reads .anywhere ts p rest) :
    Reads .never (Json.dropTrailing ts) p (Json.dropTrailing rest) := by
  induction h with
  | word hw =>
      rw [dropTrailing_cons_of_not_comma rfl]
      exact .word hw
  | str hraw =>
      rw [dropTrailing_cons_of_not_comma rfl]
      exact .str hraw
  | emptyArray hclose =>
      rw [dropTrailing_cons_of_not_comma (by decide)]
      exact .emptyArray (hclose.dropTrailing (by decide))
  | array _ ih =>
      rw [dropTrailing_cons_of_not_comma (by decide)]
      exact .array ih
  | emptyObject hclose =>
      rw [dropTrailing_cons_of_not_comma (by decide)]
      exact .emptyObject (hclose.dropTrailing (by decide))
  | object _ ih =>
      rw [dropTrailing_cons_of_not_comma (by decide)]
      exact .object ih
  | lastItem _ hclose ih => exact .lastItem ih (hclose.dropTrailing (by decide))
  | item _ hitems ihv ih =>
      rw [dropTrailing_cons_of_not_closer hitems.not_closer] at ihv
      exact .item ihv ih
  | lastMember hkey _ hclose ih =>
      rw [dropTrailing_cons_of_not_comma rfl, dropTrailing_cons_of_not_comma (by decide)]
      exact .lastMember hkey ih (hclose.dropTrailing (by decide))
  | member hkey _ hmembers ihv ih =>
      rw [dropTrailing_cons_of_not_closer hmembers.not_closer] at ihv
      rw [dropTrailing_cons_of_not_comma rfl, dropTrailing_cons_of_not_comma (by decide)]
      exact .member hkey ihv ih

theorem Reads.of_dropTrailing {us us' : List Token} (h : Reads .never us p us') {ts : List Token}
    (hts : Json.dropTrailing ts = us) :
    ∃ rest, Json.dropTrailing rest = us' ∧ Reads .anywhere ts p rest := by
  induction h generalizing ts with
  | word hw =>
      obtain ⟨rest, hrest, rfl⟩ := dropTrailing_eq_cons_of_not_closer hts rfl
      exact ⟨rest, hrest, .word hw⟩
  | str hraw =>
      obtain ⟨rest, hrest, rfl⟩ := dropTrailing_eq_cons_of_not_closer hts rfl
      exact ⟨rest, hrest, .str hraw⟩
  | emptyArray hclose =>
      obtain ⟨ts', rfl, rfl⟩ := dropTrailing_eq_cons_of_not_closer hts (by decide)
      obtain ⟨rest, hrest, hclose'⟩ := Closes.of_dropTrailing hclose
      exact ⟨rest, hrest, .emptyArray hclose'⟩
  | array _ ih =>
      obtain ⟨ts', hts', rfl⟩ := dropTrailing_eq_cons_of_not_closer hts (by decide)
      obtain ⟨rest, hrest, hitems⟩ := ih hts'
      exact ⟨rest, hrest, .array hitems⟩
  | emptyObject hclose =>
      obtain ⟨ts', rfl, rfl⟩ := dropTrailing_eq_cons_of_not_closer hts (by decide)
      obtain ⟨rest, hrest, hclose'⟩ := Closes.of_dropTrailing hclose
      exact ⟨rest, hrest, .emptyObject hclose'⟩
  | object _ ih =>
      obtain ⟨ts', hts', rfl⟩ := dropTrailing_eq_cons_of_not_closer hts (by decide)
      obtain ⟨rest, hrest, hmembers⟩ := ih hts'
      exact ⟨rest, hrest, .object hmembers⟩
  | lastItem _ hclose ih =>
      obtain ⟨after, rfl, hv⟩ := ih hts
      obtain ⟨rest, hrest, hclose'⟩ := Closes.of_dropTrailing hclose
      exact ⟨rest, hrest, .lastItem hv hclose'⟩
  | item _ _ ihv ih =>
      obtain ⟨after, hafter, hv⟩ := ihv hts
      obtain ⟨after', hafter', rfl⟩ := dropTrailing_eq_cons_of_not_closer hafter (by decide)
      obtain ⟨rest, hrest, hitems⟩ := ih hafter'
      exact ⟨rest, hrest, .item hv hitems⟩
  | lastMember hkey _ hclose ih =>
      obtain ⟨ts', hts', rfl⟩ := dropTrailing_eq_cons_of_not_closer hts rfl
      obtain ⟨ts'', hts'', rfl⟩ := dropTrailing_eq_cons_of_not_closer hts' (by decide)
      obtain ⟨after, rfl, hv⟩ := ih hts''
      obtain ⟨rest, hrest, hclose'⟩ := Closes.of_dropTrailing hclose
      exact ⟨rest, hrest, .lastMember hkey hv hclose'⟩
  | member hkey _ _ ihv ih =>
      obtain ⟨ts', hts', rfl⟩ := dropTrailing_eq_cons_of_not_closer hts rfl
      obtain ⟨ts'', hts'', rfl⟩ := dropTrailing_eq_cons_of_not_closer hts' (by decide)
      obtain ⟨after, hafter, hv⟩ := ihv hts''
      obtain ⟨after', hafter', rfl⟩ := dropTrailing_eq_cons_of_not_closer hafter (by decide)
      obtain ⟨rest, hrest, hmembers⟩ := ih hafter'
      exact ⟨rest, hrest, .member hkey hv hmembers⟩

/-- JSON after the commas are dropped is a text that allows them everywhere. -/
theorem reads_dropTrailing_iff :
    Reads .never (dropTrailing ts) p [] ↔ Reads .anywhere ts p [] := by
  constructor
  · intro h
    obtain ⟨rest, hrest, hreads⟩ := h.of_dropTrailing rfl
    rwa [dropTrailing_eq_nil hrest] at hreads
  · intro h
    simpa [dropTrailing] using h.dropTrailing

/-! ## A text has one value -/

def Phrase.SameKind : Phrase → Phrase → Prop
  | .value _, .value _ => True
  | .items _, .items _ => True
  | .members _, .members _ => True
  | _, _ => False

theorem Closes.unique {comma : Bool} {close : Char} {rest' : List Token}
    (h : Closes comma close ts rest) (h' : Closes comma close ts rest') (hclose : close ≠ ',') :
    rest = rest' := by
  rcases h with rfl | ⟨-, rfl⟩ <;> rcases h' with h' | ⟨-, h'⟩
  · exact (List.cons.inj h').2
  · exact absurd (Token.punct.inj (List.cons.inj h').1) hclose
  · exact absurd (Token.punct.inj (List.cons.inj h').1).symm hclose
  · exact (List.cons.inj (List.cons.inj h').2).2

theorem Closes.not_reads {comma : Bool} {close : Char} (h : Closes comma close ts rest)
    (hcloser : (Token.punct close).isCloser = true) {p : Phrase} {rest' : List Token}
    (h' : Reads k ts p rest') : False := by
  rcases h with rfl | ⟨-, rfl⟩
  · exact absurd (hcloser.symm.trans h'.not_closer) (by decide)
  · exact absurd h'.not_comma (by simp [Token.isComma])

/-- After a comma either a closing bracket or another element comes. -/
theorem Closes.not_continued {comma : Bool} {close : Char}
    (h : Closes comma close (.punct ',' :: ts) rest) (hclose : close ≠ ',')
    (hcloser : (Token.punct close).isCloser = true) {p : Phrase} {rest' : List Token}
    (h' : Reads k ts p rest') : False := by
  rcases h with h | ⟨-, h⟩
  · exact hclose (Token.punct.inj (List.cons.inj h).1).symm
  · have hclosed : Closes comma close ts rest := .inl (List.cons.inj h).2
    exact hclosed.not_reads hcloser h'

theorem Reads.unique (h : Reads k ts p rest) {p' : Phrase} {rest' : List Token}
    (h' : Reads k ts p' rest') (hkind : p.SameKind p') : p = p' ∧ rest = rest' := by
  induction h generalizing p' rest' with
  | word =>
      cases h' with
      | word => exact ⟨rfl, rfl⟩
      | lastItem => exact hkind.elim
      | item => exact hkind.elim
  | str =>
      cases h' with
      | str => exact ⟨rfl, rfl⟩
      | _ => exact hkind.elim
  | emptyArray hclose =>
      cases h' with
      | emptyArray hclose' => exact ⟨rfl, hclose.unique hclose' (by decide)⟩
      | array hitems' => exact (hclose.not_reads (by decide) hitems').elim
      | _ => exact hkind.elim
  | array hitems ih =>
      cases h' with
      | emptyArray hclose' => exact (hclose'.not_reads (by decide) hitems).elim
      | array hitems' =>
          obtain ⟨hvs, hrest⟩ := ih hitems' trivial
          exact ⟨by rw [Phrase.items.inj hvs], hrest⟩
      | _ => exact hkind.elim
  | emptyObject hclose =>
      cases h' with
      | emptyObject hclose' => exact ⟨rfl, hclose.unique hclose' (by decide)⟩
      | object hmembers' => exact (hclose.not_reads (by decide) hmembers').elim
      | _ => exact hkind.elim
  | object hmembers ih =>
      cases h' with
      | emptyObject hclose' => exact (hclose'.not_reads (by decide) hmembers).elim
      | object hmembers' =>
          obtain ⟨hms, hrest⟩ := ih hmembers' trivial
          exact ⟨by rw [Phrase.members.inj hms], hrest⟩
      | _ => exact hkind.elim
  | lastItem _ hclose ih =>
      cases h' with
      | lastItem hv' hclose' =>
          obtain ⟨hv, rfl⟩ := ih hv' trivial
          exact ⟨by rw [Phrase.value.inj hv], hclose.unique hclose' (by decide)⟩
      | item hv' hitems' =>
          obtain ⟨-, rfl⟩ := ih hv' trivial
          exact (hclose.not_continued (by decide) (by decide) hitems').elim
      | _ => exact hkind.elim
  | item _ hitems ihv ih =>
      cases h' with
      | lastItem hv' hclose' =>
          obtain ⟨-, rfl⟩ := ihv hv' trivial
          exact (hclose'.not_continued (by decide) (by decide) hitems).elim
      | item hv' hitems' =>
          obtain ⟨hv, hafter⟩ := ihv hv' trivial
          obtain ⟨-, rfl⟩ := List.cons.inj hafter
          obtain ⟨hvs, hrest⟩ := ih hitems' trivial
          exact ⟨by rw [Phrase.value.inj hv, Phrase.items.inj hvs], hrest⟩
      | _ => exact hkind.elim
  | lastMember _ _ hclose ih =>
      cases h' with
      | lastMember _ hv' hclose' =>
          obtain ⟨hv, rfl⟩ := ih hv' trivial
          exact ⟨by rw [Phrase.value.inj hv], hclose.unique hclose' (by decide)⟩
      | member _ hv' hmembers' =>
          obtain ⟨-, rfl⟩ := ih hv' trivial
          exact (hclose.not_continued (by decide) (by decide) hmembers').elim
      | _ => exact hkind.elim
  | member _ _ hmembers ihv ih =>
      cases h' with
      | lastMember _ hv' hclose' =>
          obtain ⟨-, rfl⟩ := ihv hv' trivial
          exact (hclose'.not_continued (by decide) (by decide) hmembers).elim
      | member _ hv' hmembers' =>
          obtain ⟨hv, hafter⟩ := ihv hv' trivial
          obtain ⟨-, rfl⟩ := List.cons.inj hafter
          obtain ⟨hms, hrest⟩ := ih hmembers' trivial
          exact ⟨by rw [Phrase.value.inj hv, Phrase.members.inj hms], hrest⟩
      | _ => exact hkind.elim

end Grammar

theorem Parses.unique {s : Text} {v v' : Value} (h : Parses s v) (h' : Parses s v') : v = v' :=
  Phrase.value.inj (Reads.unique h h' trivial).1

theorem ParsesWithComments.unique {s : Text} {v v' : Value} (h : ParsesWithComments s v)
    (h' : ParsesWithComments s v') : v = v' :=
  Phrase.value.inj (Reads.unique h h' trivial).1

/-! ## Comments between words -/

def dropComments (as : List Atom) : List Atom := as.filter fun a ↦ !a.isComment

/-- The next atom is a comment. -/
def startsComment : List Atom → Bool
  | [] => false
  | a :: _ => a.isComment

/-- Two words with nothing but comments between them. -/
def joinedWords : List Atom → Bool
  | [] => false
  | a :: as =>
      (startsWord [a] && startsComment as && startsWord (dropComments as)) || joinedWords as

theorem dropComments_cons_of_not_comment {a : Atom} {as : List Atom} (h : a.isComment = false) :
    dropComments (a :: as) = a :: dropComments as := by
  simp [dropComments, h]

theorem dropComments_cons_of_comment {a : Atom} {as : List Atom} (h : a.isComment = true) :
    dropComments (a :: as) = dropComments as := by
  simp [dropComments, h]

theorem startsWord_dropComments {as : List Atom}
    (h : (startsComment as && startsWord (dropComments as)) = false) :
    startsWord (dropComments as) = startsWord as := by
  cases as with
  | nil => rfl
  | cons a as =>
      cases hcomment : a.isComment with
      | false =>
          rw [dropComments_cons_of_not_comment hcomment]
          cases a <;> rfl
      | true =>
          simp only [startsComment, hcomment, Bool.true_and] at h
          rw [h]
          cases a <;> first | rfl | exact absurd hcomment Bool.false_ne_true

theorem dropTrailing_extendWord (c : Char) (ts : List Token) :
    dropTrailing (extendWord c ts) = extendWord c (dropTrailing ts) := by
  cases hdrop : dropTrailing ts with
  | nil =>
      rw [dropTrailing_eq_nil hdrop]
      rfl
  | cons t us =>
      cases ht : t.isWord with
      | true =>
          cases t with
          | word w =>
              obtain ⟨ts', rfl, rfl⟩ := dropTrailing_eq_cons_of_not_closer hdrop rfl
              exact dropTrailing_cons_of_not_comma rfl
          | _ => exact absurd ht Bool.false_ne_true
      | false =>
          have hplain : extendWord c ts = .word [c] :: ts := by
            unfold extendWord
            split
            · rename_i w ts'
              rw [dropTrailing_cons_of_not_comma rfl] at hdrop
              rw [← (List.cons.inj hdrop).1] at ht
              exact absurd ht.symm Bool.false_ne_true
            · rfl
          rw [hplain, dropTrailing_cons_of_not_comma rfl, hdrop]
          cases t with
          | word w => exact absurd ht.symm Bool.false_ne_true
          | _ => rfl

/-- Comments that are closed and stand between no two words change nothing. -/
theorem tokens_dropComments {as : List Atom} (hopen : .openComment ∉ as)
    (hjoined : joinedWords as = false) : tokens (dropComments as) = tokens as := by
  induction as with
  | nil => rfl
  | cons a as ih =>
      simp only [List.mem_cons, not_or] at hopen
      simp only [joinedWords, Bool.or_eq_false_iff] at hjoined
      have hrest := ih hopen.2 hjoined.2
      cases a with
      | openComment => exact absurd rfl hopen.1
      | comment => rwa [dropComments_cons_of_comment rfl, tokens]
      | word c =>
          have hstarts : startsWord (dropComments as) = startsWord as :=
            startsWord_dropComments (by simpa [startsWord] using hjoined.1)
          rw [dropComments_cons_of_not_comment rfl, tokens, tokens, hstarts, hrest]
      | _ => rw [dropComments_cons_of_not_comment rfl, tokens, tokens, hrest]

theorem startsWith_isWord_extendWord (c : Char) (ts : List Token) :
    startsWith Token.isWord (extendWord c ts) = true := by
  unfold extendWord
  split <;> rfl

theorem startsWith_isWord_tokens {as : List Atom} (hopen : .openComment ∉ as)
    (h : startsWord (dropComments as) = true) : startsWith Token.isWord (tokens as) = true := by
  induction as with
  | nil => exact absurd h Bool.false_ne_true
  | cons a as ih =>
      simp only [List.mem_cons, not_or] at hopen
      cases a with
      | openComment => exact absurd rfl hopen.1
      | comment =>
          rw [dropComments_cons_of_comment rfl] at h
          rw [tokens]
          exact ih hopen.2 h
      | word c =>
          rw [tokens]
          split_ifs
          · exact startsWith_isWord_extendWord c _
          · rfl
      | _ =>
          rw [dropComments_cons_of_not_comment rfl] at h
          exact absurd h Bool.false_ne_true

theorem adjacentWords_extendWord {c : Char} {ts : List Token} (h : adjacentWords ts = true) :
    adjacentWords (extendWord c ts) = true := by
  unfold extendWord
  split
  · simpa [adjacentWords, Token.isWord] using h
  · simp [adjacentWords, h]

theorem adjacentWords_cons {t : Token} {ts : List Token} (h : adjacentWords ts = true) :
    adjacentWords (t :: ts) = true := by
  simp [adjacentWords, h]

/-- Words with comments between them are two words. -/
theorem adjacentWords_of_joined {as : List Atom} (hopen : .openComment ∉ as)
    (hjoined : joinedWords as = true) : adjacentWords (tokens as) = true := by
  induction as with
  | nil => exact absurd hjoined Bool.false_ne_true
  | cons a as ih =>
      simp only [List.mem_cons, not_or] at hopen
      simp only [joinedWords, Bool.or_eq_true, Bool.and_eq_true] at hjoined
      rcases hjoined with ⟨⟨hword, hcomment⟩, hnext⟩ | hjoined
      · cases a with
        | word c =>
            have hstarts : startsWord as = false := by
              cases as with
              | nil => rfl
              | cons b bs => cases b <;> first | rfl | exact absurd hcomment Bool.false_ne_true
            rw [tokens, hstarts, if_neg Bool.false_ne_true]
            simp [adjacentWords, Token.isWord, startsWith_isWord_tokens hopen.2 hnext]
        | _ => exact absurd hword Bool.false_ne_true
      · have hrest := ih hopen.2 hjoined
        cases a with
        | space => rwa [tokens]
        | comment => rwa [tokens]
        | openComment => exact absurd rfl hopen.1
        | word c =>
            rw [tokens]
            split_ifs
            · exact adjacentWords_extendWord hrest
            · exact adjacentWords_cons hrest
        | _ =>
            rw [tokens]
            exact adjacentWords_cons hrest

/-- An atom that no token can hold. -/
def Atom.isBad : Atom → Bool
  | .other _ => true
  | .openStr _ => true
  | .openComment => true
  | _ => false

theorem bad_mem_tokens {as : List Atom} {a : Atom} (hbad : a.isBad = true) (h : a ∈ as) :
    .bad ∈ tokens as := by
  induction as with
  | nil => exact absurd h List.not_mem_nil
  | cons b as ih =>
      rcases List.mem_cons.mp h with rfl | hmem
      · cases a <;> first | exact List.mem_cons_self | exact absurd hbad Bool.false_ne_true
      · have hrest := ih hmem
        cases b with
        | space => rwa [tokens]
        | comment => rwa [tokens]
        | word c =>
            rw [tokens]
            split_ifs
            · unfold extendWord
              split
              · rename_i w ts htokens
                rw [htokens] at hrest
                simpa using hrest
              · exact List.mem_cons_of_mem _ hrest
            · exact List.mem_cons_of_mem _ hrest
        | _ => exact List.mem_cons_of_mem _ hrest

/-! ## The texts that are read alike -/

/-- The text is JSON once its comments are taken out, also one that is not
closed, where a comma may stand before any closing bracket. -/
def ParsesLoosely (s : Text) (v : Value) : Prop :=
  Reads .anywhere (tokens (dropComments (atoms true s))) (.value v) []

/-- Every block comment is closed, no comment stands between two words, and no
comma stands alone between brackets. -/
structure Orderly (s : Text) : Prop where
  closed : .openComment ∉ atoms true s
  apart : joinedWords (atoms true s) = false
  listed : loneComma (tokens (atoms true s)) = false

theorem ParsesWithComments.orderly {s : Text} {v : Value} (h : ParsesWithComments s v) :
    Orderly s := by
  have hclosed : .openComment ∉ atoms true s := fun hmem ↦
    Reads.notMem_bad h List.not_mem_nil (bad_mem_tokens rfl hmem)
  refine ⟨hclosed, ?_, Reads.not_lone h rfl⟩
  by_contra hjoined
  rw [Bool.not_eq_false] at hjoined
  have hadjacent := adjacentWords_of_joined hclosed hjoined
  rw [Reads.not_adjacent h rfl rfl] at hadjacent
  exact Bool.false_ne_true hadjacent

theorem Orderly.parses_iff {s : Text} (h : Orderly s) (v : Value) :
    ParsesLoosely s v ↔ ParsesWithComments s v := by
  rw [ParsesLoosely, ParsesWithComments, tokens_dropComments h.closed h.apart]
  constructor
  · intro hreads
    exact (hreads.afterElement h.listed).1
  · intro hreads
    exact hreads.anywhere

/-- The two readings agree on the orderly texts and on those neither reads. -/
theorem loosely_iff_withComments_iff (s : Text) :
    (∀ v, ParsesLoosely s v ↔ ParsesWithComments s v) ↔
      Orderly s ∨ ∀ v, ¬ ParsesLoosely s v := by
  constructor
  · intro hagree
    by_cases hreads : ∃ v, ParsesLoosely s v
    · obtain ⟨v, hv⟩ := hreads
      exact .inl ((hagree v).mp hv).orderly
    · exact .inr (not_exists.mp hreads)
  · rintro (horderly | hnone) v
    · exact horderly.parses_iff v
    · constructor
      · intro hv
        exact absurd hv (hnone v)
      · intro hv
        exact (hv.orderly.parses_iff v).mpr hv

end Json
