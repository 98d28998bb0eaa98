import Otdel.Core.Validate

/-!
# The display name of an upload

Blanks are taken off, then dots, then blanks again, and dots that stood between
blanks are laid bare by the last step.
-/

namespace Otdel.Validate

/-- White space, or a control character, which becomes a space. -/
def isBlank (c : Char) : Bool := Text.isWhitespace c || Text.isControl c

def isDot (c : Char) : Bool := c = '.'

def Blanks (s : Text) : Prop := ∀ c ∈ s, isBlank c = true

def Dots (s : Text) : Prop := ∀ c ∈ s, isDot c = true

theorem dots_one : Dots ".".toList := by simp [Dots, isDot]

theorem dots_two : Dots "..".toList := by simp [Dots, isDot]

/-- What may be shown and saved under. -/
structure SafeName (name : Text) : Prop where
  length : 1 ≤ name.length ∧ name.length ≤ filenameMaxChars
  separators : '/' ∉ name ∧ '\\' ∉ name
  control : ∀ c ∈ name, Text.isControl c = false
  head : ∀ c ∈ name.head?, Text.isWhitespace c = false
  last : ∀ c ∈ name.getLast?, Text.isWhitespace c = false
  dots : name ≠ ".".toList ∧ name ≠ "..".toList

/-- The dots `d` stand between blanks that stand between dots; instead of the
second dots anything may come after blanks that reach the bound of the name. -/
def SetsOff (d segment : Text) : Prop :=
  ∃ a p b c z, segment = a ++ (p ++ (b ++ (d ++ (c ++ z)))) ∧ Blanks a ∧ Dots p ∧ p ≠ [] ∧
    Blanks b ∧ b ≠ [] ∧ Blanks c ∧ c ≠ [] ∧
      ((∃ q e, z = q ++ e ∧ Dots q ∧ q ≠ [] ∧ Blanks e) ∨
        filenameMaxChars ≤ d.length + c.length ∧ ¬ Blanks z)

/-- One or two dots are set off in the last segment. -/
def HidesDots (raw : Text) : Prop :=
  SetsOff ".".toList (lastSegment raw) ∨ SetsOff "..".toList (lastSegment raw)

/-! ## Trimming a segment -/

/-- A segment without its blanks and dots, cut. -/
def bareName (segment : Text) : Text :=
  let cleaned := Text.trimMatches isBlank (Text.trimMatches isDot (Text.trimMatches isBlank segment))
  Text.trimMatches isBlank (cleaned.take filenameMaxChars)

theorem isBlank_of_isDot {c : Char} (h : isDot c = true) : isBlank c = false := by
  rw [of_decide_eq_true h]
  decide

theorem isDot_of_isBlank {c : Char} (h : isBlank c = true) : isDot c = false := by
  by_contra hdot
  rw [isBlank_of_isDot (by simpa using hdot)] at h
  cases h

theorem Dots.head {s : Text} (h : Dots s) : ∀ c ∈ s.head?, isBlank c = false :=
  fun c hc ↦ isBlank_of_isDot (h c (List.mem_of_head? hc))

theorem Dots.last {s : Text} (h : Dots s) : ∀ c ∈ s.getLast?, isBlank c = false :=
  fun c hc ↦ isBlank_of_isDot (h c (List.mem_of_getLast? hc))

theorem Blanks.head {s : Text} (h : Blanks s) : ∀ c ∈ s.head?, isDot c = false :=
  fun c hc ↦ isDot_of_isBlank (h c (List.mem_of_head? hc))

theorem Blanks.last {s : Text} (h : Blanks s) : ∀ c ∈ s.getLast?, isDot c = false :=
  fun c hc ↦ isDot_of_isBlank (h c (List.mem_of_getLast? hc))

/-- Nothing of the trimmed class is left at the front. -/
theorem nil_of_head {p : Char → Bool} {s a t : Text} (ha : ∀ c ∈ a, p c = true)
    (h : Text.trimMatches p s = a ++ t) : a = [] := by
  by_contra hne
  obtain ⟨c, rest, rfl⟩ := List.exists_cons_of_ne_nil hne
  have hhead : c ∈ (Text.trimMatches p s).head? := by
    rw [h]
    rfl
  have hfalse := Text.head?_trimMatches hhead
  rw [ha c List.mem_cons_self] at hfalse
  cases hfalse

theorem nil_of_last {p : Char → Bool} {s t b : Text} (hb : ∀ c ∈ b, p c = true)
    (h : Text.trimMatches p s = t ++ b) : b = [] := by
  by_contra hne
  have hlast : b.getLast hne ∈ (Text.trimMatches p s).getLast? := by
    rw [h, List.getLast?_append_of_ne_nil _ hne, List.getLast?_eq_some_getLast hne]
    rfl
  have hfalse := Text.getLast?_trimMatches hlast
  rw [hb _ (List.getLast_mem hne)] at hfalse
  cases hfalse

/-- Dots that are left were set off. -/
theorem setsOff_of_bareName {d segment : Text} (hd : Dots d) (hne : d ≠ [])
    (hlength : d.length < filenameMaxChars) (h : bareName segment = d) : SetsOff d segment := by
  obtain ⟨a₁, b₁, hsegment, ha₁, hb₁⟩ := Text.exists_trimMatches isBlank segment
  set f := Text.trimMatches isBlank segment with hf
  obtain ⟨p, q, hfdots, hp, hq⟩ := Text.exists_trimMatches isDot f
  set e := Text.trimMatches isDot f with he
  obtain ⟨a₂, b₂, heblanks, ha₂, hb₂⟩ := Text.exists_trimMatches isBlank e
  set c := Text.trimMatches isBlank e with hc
  obtain ⟨a₃, b₃, htake, ha₃, hb₃⟩ := Text.exists_trimMatches isBlank (c.take filenameMaxChars)
  have hbare : Text.trimMatches isBlank (c.take filenameMaxChars) = d := h
  rw [hbare] at htake
  have hcut : c = a₃ ++ (d ++ (b₃ ++ c.drop filenameMaxChars)) := by
    conv_lhs => rw [← List.take_append_drop filenameMaxChars c, htake]
    simp only [List.append_assoc]
  obtain rfl : a₃ = [] := nil_of_head ha₃ (hc.symm.trans hcut)
  rw [List.nil_append] at hcut htake
  set r := c.drop filenameMaxChars with hr
  have hedots : e = a₂ ++ (d ++ ((b₃ ++ r) ++ b₂)) := by
    rw [heblanks, hcut]
    simp only [List.append_assoc]
  have hfdeep : f = p ++ (a₂ ++ (d ++ ((b₃ ++ r) ++ (b₂ ++ q)))) := by
    rw [hfdots, hedots]
    simp only [List.append_assoc]
  -- before the dots stand blanks, and dots before these
  have hb : a₂ ≠ [] := by
    rintro rfl
    exact hne (nil_of_head hd (he.symm.trans hedots))
  have hpne : p ≠ [] := by
    rintro rfl
    exact hb (nil_of_head ha₂ (hf.symm.trans hfdeep))
  have hwhole : segment = a₁ ++ (p ++ (a₂ ++ (d ++ ((b₃ ++ r) ++ (b₂ ++ (q ++ b₁)))))) := by
    rw [hsegment, hfdeep]
    simp only [List.append_assoc]
  by_cases hv : b₃ ++ r = []
  · rw [hv] at hedots hfdeep hwhole
    have hb₂ne : b₂ ≠ [] := by
      rintro rfl
      simp only [List.append_nil] at hedots
      exact hne (nil_of_last hd (he.symm.trans hedots))
    have hqne : q ≠ [] := by
      rintro rfl
      simp only [List.append_nil, List.nil_append, ← List.append_assoc] at hfdeep
      exact hb₂ne (nil_of_last hb₂ (hf.symm.trans hfdeep))
    exact ⟨a₁, p, a₂, b₂, q ++ b₁, hwhole, ha₁, hp, hpne, ha₂, hb, hb₂, hb₂ne,
      Or.inl ⟨q, b₁, rfl, hq, hqne, hb₁⟩⟩
  · have hrest : ¬ Blanks r := by
      intro hblanks
      apply hv
      refine nil_of_last ?_ (hc.symm.trans hcut)
      intro x hx
      rcases List.mem_append.mp hx with hx | hx
      · exact hb₃ x hx
      · exact hblanks x hx
    have hfull : (c.take filenameMaxChars).length = filenameMaxChars := by
      rw [List.length_take, min_eq_left]
      by_contra hshort
      apply hrest
      rw [hr, List.drop_eq_nil_of_le (Nat.le_of_not_le hshort)]
      exact fun x hx ↦ nomatch hx
    rw [htake, List.length_append] at hfull
    have hb₃ne : b₃ ≠ [] := by
      rintro rfl
      rw [List.length_nil] at hfull
      omega
    refine ⟨a₁, p, a₂, b₃, r ++ (b₂ ++ (q ++ b₁)), ?_, ha₁, hp, hpne, ha₂, hb, hb₃, hb₃ne,
      Or.inr ⟨hfull.ge, fun hblanks ↦ hrest fun x hx ↦ hblanks x (by simp [hx])⟩⟩
    rw [hwhole, List.append_assoc b₃]

/-- The blanks after the dots reach the bound, or are the last that is left. -/
theorem bareName_append {d c z : Text} (hd : Dots d) (hne : d ≠ [])
    (hlength : d.length ≤ filenameMaxChars) (hc : Blanks c)
    (hz : z = [] ∨ filenameMaxChars ≤ d.length + c.length) :
    Text.trimMatches isBlank ((d ++ (c ++ z).rdropWhile isBlank).take filenameMaxChars) = d := by
  have hblanks : Blanks (((c ++ z).rdropWhile isBlank).take (filenameMaxChars - d.length)) := by
    intro x hx
    have hpre := (List.rdropWhile_prefix isBlank (c ++ z)).take (filenameMaxChars - d.length)
    have hmem := hpre.subset hx
    rcases hz with rfl | hlong
    · rw [List.append_nil] at hmem
      exact hc x (List.mem_of_mem_take hmem)
    · rw [List.take_append_of_le_length (by omega)] at hmem
      exact hc x (List.mem_of_mem_take hmem)
  rw [List.take_append, List.take_of_length_le hlength]
  have htrim := Text.trimMatches_append (a := []) (fun _ hx ↦ nomatch hx) hd.head hd.last hne
    (((c ++ z).rdropWhile isBlank).take (filenameMaxChars - d.length))
  rw [List.nil_append] at htrim
  rw [htrim, List.rdropWhile_eq_nil_iff.mpr hblanks, List.append_nil]

/-- Dots that are set off are laid bare. -/
theorem bareName_of_setsOff {d segment : Text} (hd : Dots d) (hne : d ≠ [])
    (hlength : d.length ≤ filenameMaxChars) (h : SetsOff d segment) : bareName segment = d := by
  obtain ⟨a, p, b, c, z, rfl, ha, hp, hpne, hb, hbne, hc, hcne, hz⟩ := h
  have hzblanks : ¬ Blanks z := by
    rcases hz with ⟨q, e, rfl, hq, hqne, -⟩ | ⟨-, hz⟩
    · obtain ⟨x, q, rfl⟩ := List.exists_cons_of_ne_nil hqne
      intro hblanks
      have hx := hblanks x (by simp)
      rw [isBlank_of_isDot (hq x List.mem_cons_self)] at hx
      cases hx
    · exact hz
  have hf : Text.trimMatches isBlank (a ++ (p ++ (b ++ (d ++ (c ++ z))))) =
      p ++ (b ++ (d ++ (c ++ z.rdropWhile isBlank))) := by
    have hhead : ∀ x ∈ (p ++ (b ++ d)).head?, isBlank x = false := by
      intro x hx
      rw [List.head?_append_of_ne_nil _ hpne] at hx
      exact hp.head x hx
    have hlast : ∀ x ∈ (p ++ (b ++ d)).getLast?, isBlank x = false := by
      intro x hx
      rw [← List.append_assoc, List.getLast?_append_of_ne_nil _ hne] at hx
      exact hd.last x hx
    have htrim := Text.trimMatches_append ha hhead hlast (by simp [hne]) (c ++ z)
    rw [Text.rdropWhile_append_of_not_all c hzblanks] at htrim
    simpa only [List.append_assoc] using htrim
  have he : ∀ z', Text.trimMatches isDot (p ++ (b ++ (d ++ (c ++ z')))) =
      b ++ (d ++ (c ++ z'.rdropWhile isDot)) := by
    intro z'
    have hhead : ∀ x ∈ (b ++ (d ++ c)).head?, isDot x = false := by
      intro x hx
      rw [List.head?_append_of_ne_nil _ hbne] at hx
      exact hb.head x hx
    have hlast : ∀ x ∈ (b ++ (d ++ c)).getLast?, isDot x = false := by
      intro x hx
      rw [← List.append_assoc, List.getLast?_append_of_ne_nil _ hcne] at hx
      exact hc.last x hx
    have htrim := Text.trimMatches_append hp hhead hlast (by simp [hne]) z'
    simpa only [List.append_assoc] using htrim
  rw [bareName, hf, he, Text.trimMatches_append hb hd.head hd.last hne]
  apply bareName_append hd hne hlength hc
  rcases hz with ⟨q, e, rfl, hq, -, he⟩ | ⟨hlong, -⟩
  · left
    rw [Text.rdropWhile_append_of_all q he, List.rdropWhile_eq_nil_iff]
    exact fun x hx ↦ hq x ((List.rdropWhile_prefix isBlank q).subset hx)
  · exact Or.inr hlong

/-! ## The display name -/

/-- What becomes of a character. -/
def cleanChar (c : Char) : Char := if Text.isControl c then ' ' else c

theorem isWhitespace_cleanChar (c : Char) : Text.isWhitespace (cleanChar c) = isBlank c := by
  unfold cleanChar isBlank
  split
  · rename_i h
    simp [h, Text.isWhitespace]
  · rename_i h
    simp [h]

theorem cleanChar_eq_dot {c : Char} : cleanChar c = '.' ↔ c = '.' := by
  unfold cleanChar
  split
  · rename_i h
    constructor
    · intro hfalse
      exact absurd hfalse (by decide)
    · rintro rfl
      exact absurd h (by decide)
  · exact Iff.rfl

theorem isDot_cleanChar (c : Char) : decide (cleanChar c = '.') = isDot c := by
  rw [isDot, decide_eq_decide]
  exact cleanChar_eq_dot

theorem displayFilename_eq (raw : Text) (mediaType : MediaType) :
    displayFilename raw mediaType =
      if (bareName (lastSegment raw)).isEmpty then s!"upload.{mediaType.extension}".toList
      else (bareName (lastSegment raw)).map cleanChar := by
  have hblank : Text.isWhitespace ∘ cleanChar = isBlank := funext isWhitespace_cleanChar
  have hdot : (fun c ↦ decide (c = '.')) ∘ cleanChar = isDot := funext isDot_cleanChar
  have hclean : (lastSegment raw).map (fun c ↦ if Text.isControl c then ' ' else c) =
      (lastSegment raw).map cleanChar := rfl
  simp only [displayFilename, hclean, Text.trim, Text.trimMatches_map, hblank, hdot,
    ← List.map_take, List.isEmpty_map, bareName]
  rfl

theorem safeName_fallback (mediaType : MediaType) :
    SafeName s!"upload.{mediaType.extension}".toList := by
  have hname : s!"upload.{mediaType.extension}".toList =
      "upload.".toList ++ mediaType.extension.toList := by simp [toString]
  obtain ⟨hlength, hcontrol⟩ := fallbackName mediaType
  refine ⟨hlength, ?_, hcontrol, ?_, ?_, ?_⟩
  · rw [hname]
    cases mediaType <;> decide
  · rw [hname]
    cases mediaType <;> simp [MediaType.extension, Text.isWhitespace]
  · rw [hname]
    cases mediaType <;> simp [MediaType.extension, Text.isWhitespace]
  · rw [hname]
    cases mediaType <;> decide

theorem head_map_cleanChar {s : Text} (h : ∀ c ∈ s.head?, isBlank c = false) :
    ∀ c ∈ (s.map cleanChar).head?, Text.isWhitespace c = false := by
  intro c hc
  rw [List.head?_map] at hc
  obtain ⟨d, hd, rfl⟩ := Option.map_eq_some_iff.mp hc
  rw [isWhitespace_cleanChar]
  exact h d hd

theorem last_map_cleanChar {s : Text} (h : ∀ c ∈ s.getLast?, isBlank c = false) :
    ∀ c ∈ (s.map cleanChar).getLast?, Text.isWhitespace c = false := by
  intro c hc
  rw [List.getLast?_map] at hc
  obtain ⟨d, hd, rfl⟩ := Option.map_eq_some_iff.mp hc
  rw [isWhitespace_cleanChar]
  exact h d hd

/-- Cleaning makes no separator and no dot. -/
theorem cleanChar_ne {c : Char} (h : c ≠ '/' ∧ c ≠ '\\') :
    cleanChar c ≠ '/' ∧ cleanChar c ≠ '\\' := by
  unfold cleanChar
  split
  · decide
  · exact h

theorem map_cleanChar_eq_dots {s d : Text} (hd : Dots d) : s.map cleanChar = d ↔ s = d := by
  induction s generalizing d with
  | nil => rw [List.map_nil]
  | cons c s ih =>
      cases d with
      | nil => simp
      | cons x d =>
          have hx : x = '.' := of_decide_eq_true (hd x List.mem_cons_self)
          rw [List.map_cons, List.cons.injEq, List.cons.injEq, hx, cleanChar_eq_dot,
            ih fun y hy ↦ hd y (List.mem_cons_of_mem x hy)]

theorem mem_lastSegment_of_bareName {raw : Text} {c : Char} (h : c ∈ bareName (lastSegment raw)) :
    c ∈ lastSegment raw :=
  Text.mem_of_mem_trimMatches (Text.mem_of_mem_trimMatches (Text.mem_of_mem_trimMatches
    (List.mem_of_mem_take (Text.mem_of_mem_trimMatches h))))

/-- A name is safe but for the two special names. -/
theorem safeName_iff (raw : Text) (mediaType : MediaType) :
    SafeName (displayFilename raw mediaType) ↔
      bareName (lastSegment raw) ≠ ".".toList ∧ bareName (lastSegment raw) ≠ "..".toList := by
  obtain ⟨hlength, hcontrol⟩ := displayFilename_spec raw mediaType
  have hone := map_cleanChar_eq_dots (s := bareName (lastSegment raw)) dots_one
  have htwo := map_cleanChar_eq_dots (s := bareName (lastSegment raw)) dots_two
  rw [displayFilename_eq] at hlength hcontrol ⊢
  split at hlength
  · rename_i hempty
    rw [if_pos hempty]
    rw [List.isEmpty_iff] at hempty
    refine iff_of_true (safeName_fallback mediaType) ?_
    rw [hempty]
    decide
  · rename_i hempty
    rw [if_neg hempty] at hcontrol ⊢
    have hclean : ∀ c ∈ (bareName (lastSegment raw)).map cleanChar, c ≠ '/' ∧ c ≠ '\\' := by
      intro c hc
      obtain ⟨d, hd, rfl⟩ := List.mem_map.mp hc
      have hsegment := List.mem_rtakeWhile_imp (mem_lastSegment_of_bareName hd)
      exact cleanChar_ne (by simpa using hsegment)
    constructor
    · intro hsafe
      exact ⟨fun h ↦ hsafe.dots.1 (hone.mpr h), fun h ↦ hsafe.dots.2 (htwo.mpr h)⟩
    · rintro ⟨hnot₁, hnot₂⟩
      exact ⟨hlength, ⟨fun h ↦ (hclean _ h).1 rfl, fun h ↦ (hclean _ h).2 rfl⟩, hcontrol,
        head_map_cleanChar fun _ ↦ Text.head?_trimMatches,
        last_map_cleanChar fun _ ↦ Text.getLast?_trimMatches,
        fun h ↦ hnot₁ (hone.mp h), fun h ↦ hnot₂ (htwo.mp h)⟩

/-- A display name is safe unless one or two dots are set off in the last
segment. -/
theorem displayFilename_safe_iff (raw : Text) (mediaType : MediaType) :
    SafeName (displayFilename raw mediaType) ↔ ¬ HidesDots raw := by
  have hdots : ∀ d, Dots d → d ≠ [] → d.length < filenameMaxChars →
      (bareName (lastSegment raw) = d ↔ SetsOff d (lastSegment raw)) :=
    fun d hd hne hlength ↦ ⟨setsOff_of_bareName hd hne hlength,
      bareName_of_setsOff hd hne hlength.le⟩
  have hone := hdots ".".toList dots_one (by decide) (by decide)
  have htwo := hdots "..".toList dots_two (by decide) (by decide)
  rw [safeName_iff, HidesDots, ← hone, ← htwo, not_or]

/-- Two dots between blanks between dots. -/
theorem spaced_dots_stay :
    ¬ ∀ (raw : Text) (mediaType : MediaType), SafeName (displayFilename raw mediaType) := by
  intro h
  exact (h ". .. .".toList .pdf).dots.2 (by decide)

end Otdel.Validate
