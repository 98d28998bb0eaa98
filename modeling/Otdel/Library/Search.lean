import Mathlib

/-!
# Depth-first search with nodes that were seen

A node holds contents; a content is a hit or names other nodes.  The search stops
at the first hit, and never opens a node twice.  It ends in cyclic graphs too, and
without a hit it has opened every node that can be reached.
-/

namespace Search

structure Graph (α β γ : Type*) where
  contents : α → List β
  hit : α → β → Option γ
  links : β → List α

variable {α β γ : Type*}

/-- The hit, if there is one, and the nodes seen; nothing if the fuel is short. -/
abbrev Outcome (α γ : Type*) := Option (Option γ × List α)

def visitLinks (visit : α → List α → Outcome α γ) : List α → List α → Outcome α γ
  | [], seen => some (none, seen)
  | a :: rest, seen =>
      match visit a seen with
      | some (none, seen) => visitLinks visit rest seen
      | r => r

namespace Graph

variable (G : Graph α β γ)

def visitContents (visit : α → List α → Outcome α γ) (a : α) : List β → List α → Outcome α γ
  | [], seen => some (none, seen)
  | b :: rest, seen =>
      match G.hit a b with
      | some found => some (some found, seen)
      | none =>
          match visitLinks visit (G.links b) seen with
          | some (none, seen) => visitContents visit a rest seen
          | r => r

/-- Open a node that was not seen yet. -/
def visit [DecidableEq α] : ℕ → α → List α → Outcome α γ
  | 0, _, _ => none
  | fuel + 1, a, seen =>
      if a ∈ seen then some (none, seen)
      else G.visitContents (visit fuel) a (G.contents a) (a :: seen)

/-- One of the contents of `a` names `b`. -/
def Link (a b : α) : Prop := ∃ c ∈ G.contents a, b ∈ G.links c

def Holds (a : α) : Prop := ∃ c ∈ G.contents a, (G.hit a c).isSome

/-- A node with a hit can be reached. -/
def Leads (a : α) : Prop := ∃ b, Relation.ReflTransGen G.Link a b ∧ G.Holds b

/-- Between these two moments the search has opened nodes without a hit, and seen
what they name. -/
structure Explored (seen seen' : List α) : Prop where
  grows : seen ⊆ seen'
  opened : ∀ a ∈ seen', a ∉ seen → ¬ G.Holds a ∧ ∀ b, G.Link a b → b ∈ seen'

variable {G}

theorem Explored.refl (seen : List α) : G.Explored seen seen :=
  ⟨List.Subset.refl seen, fun _ ha hnot ↦ (hnot ha).elim⟩

theorem Explored.trans {s t u : List α} (h : G.Explored s t) (h' : G.Explored t u) :
    G.Explored s u where
  grows := List.Subset.trans h.grows h'.grows
  opened a ha hnot := by
    by_cases hat : a ∈ t
    · obtain ⟨hclear, hlinks⟩ := h.opened a hat hnot
      exact ⟨hclear, fun b hb ↦ h'.grows (hlinks b hb)⟩
    · exact h'.opened a ha hat

/-! ## Without a hit -/

section Loops

variable {visit : α → List α → Outcome α γ} {seen seen' : List α}

theorem visitLinks_explored
    (hvisit : ∀ a s t, visit a s = some (none, t) → G.Explored s t ∧ a ∈ t) {names : List α}
    (h : visitLinks visit names seen = some (none, seen')) :
    G.Explored seen seen' ∧ ∀ a ∈ names, a ∈ seen' := by
  induction names generalizing seen with
  | nil =>
      cases h
      exact ⟨.refl _, by simp⟩
  | cons a rest ih =>
      rw [visitLinks] at h
      split at h
      · rename_i middle hfirst
        obtain ⟨hexplored, hmem⟩ := hvisit a seen middle hfirst
        obtain ⟨hrest, hall⟩ := ih h
        refine ⟨hexplored.trans hrest, fun b hb ↦ ?_⟩
        rcases List.mem_cons.mp hb with rfl | hb
        · exact hrest.grows hmem
        · exact hall b hb
      · rename_i hother
        exact (hother seen' h).elim

theorem visitContents_explored
    (hvisit : ∀ a s t, visit a s = some (none, t) → G.Explored s t ∧ a ∈ t) {a : α}
    {contents : List β} (h : G.visitContents visit a contents seen = some (none, seen')) :
    G.Explored seen seen' ∧ ∀ c ∈ contents, G.hit a c = none ∧ ∀ b ∈ G.links c, b ∈ seen' := by
  induction contents generalizing seen with
  | nil =>
      cases h
      exact ⟨.refl _, by simp⟩
  | cons c rest ih =>
      rw [visitContents] at h
      split at h
      · cases h
      rename_i hclear
      split at h
      · rename_i middle hlinks
        obtain ⟨hexplored, hnames⟩ := visitLinks_explored hvisit hlinks
        obtain ⟨hrest, hall⟩ := ih h
        refine ⟨hexplored.trans hrest, fun d hd ↦ ?_⟩
        rcases List.mem_cons.mp hd with rfl | hd
        · exact ⟨hclear, fun b hb ↦ hrest.grows (hnames b hb)⟩
        · exact hall d hd
      · rename_i hother
        exact (hother seen' h).elim

/-! ## With a hit -/

theorem visitLinks_hit {P : α → Prop} {found : γ}
    (hvisit : ∀ a s t, visit a s = some (some found, t) → P a) {names : List α}
    (h : visitLinks visit names seen = some (some found, seen')) : ∃ a ∈ names, P a := by
  induction names generalizing seen with
  | nil => cases h
  | cons a rest ih =>
      rw [visitLinks] at h
      split at h
      · obtain ⟨b, hb, hP⟩ := ih h
        exact ⟨b, List.mem_cons_of_mem a hb, hP⟩
      · exact ⟨a, List.mem_cons_self, hvisit a seen seen' h⟩

theorem visitContents_hit {P : α → Prop} {found : γ}
    (hvisit : ∀ a s t, visit a s = some (some found, t) → P a) {a : α} {contents : List β}
    (h : G.visitContents visit a contents seen = some (some found, seen')) :
    ∃ c ∈ contents, (G.hit a c).isSome ∨ ∃ b ∈ G.links c, P b := by
  induction contents generalizing seen with
  | nil => cases h
  | cons c rest ih =>
      rw [visitContents] at h
      split at h
      · rename_i hfound
        exact ⟨c, List.mem_cons_self, .inl (by rw [hfound]; rfl)⟩
      split at h
      · obtain ⟨d, hd, hP⟩ := ih h
        exact ⟨d, List.mem_cons_of_mem c hd, hP⟩
      · exact ⟨c, List.mem_cons_self, .inr (visitLinks_hit hvisit h)⟩

/-! ## The ends of the loops -/

theorem visitLinks_grows (hvisit : ∀ a s r t, visit a s = some (r, t) → s ⊆ t) {names : List α}
    {r : Option γ} (h : visitLinks visit names seen = some (r, seen')) : seen ⊆ seen' := by
  induction names generalizing seen with
  | nil =>
      cases h
      exact List.Subset.refl _
  | cons a rest ih =>
      rw [visitLinks] at h
      split at h
      · rename_i middle hfirst
        exact List.Subset.trans (hvisit a seen none middle hfirst) (ih h)
      · exact hvisit a seen r seen' h

/-- The loops end if every node they open is opened with enough fuel. -/
theorem visitLinks_ends (hgrows : ∀ a s r t, visit a s = some (r, t) → s ⊆ t)
    (hvisit : ∀ a s, seen ⊆ s → visit a s ≠ none) (names : List α) {s : List α} (hs : seen ⊆ s) :
    visitLinks visit names s ≠ none := by
  induction names generalizing s with
  | nil => nofun
  | cons a rest ih =>
      rw [visitLinks]
      split
      · rename_i middle hfirst
        exact ih (List.Subset.trans hs (hgrows a s none middle hfirst))
      · exact hvisit a s hs

theorem visitContents_ends (hgrows : ∀ a s r t, visit a s = some (r, t) → s ⊆ t)
    (hvisit : ∀ a s, seen ⊆ s → visit a s ≠ none) (a : α) (contents : List β) {s : List α}
    (hs : seen ⊆ s) : G.visitContents visit a contents s ≠ none := by
  induction contents generalizing s with
  | nil => nofun
  | cons c rest ih =>
      rw [visitContents]
      split
      · nofun
      split
      · rename_i middle hlinks
        exact ih (List.Subset.trans hs (visitLinks_grows hgrows hlinks))
      · exact visitLinks_ends hgrows hvisit (G.links c) hs

theorem visitContents_grows (hvisit : ∀ a s r t, visit a s = some (r, t) → s ⊆ t) {a : α}
    {contents : List β} {r : Option γ}
    (h : G.visitContents visit a contents seen = some (r, seen')) : seen ⊆ seen' := by
  induction contents generalizing seen with
  | nil =>
      cases h
      exact List.Subset.refl _
  | cons c rest ih =>
      rw [visitContents] at h
      split at h
      · cases h
        exact List.Subset.refl _
      split at h
      · rename_i middle hlinks
        exact List.Subset.trans (visitLinks_grows hvisit hlinks) (ih h)
      · exact visitLinks_grows hvisit h

theorem visitLinks_mono {visit' : α → List α → Outcome α γ}
    (hvisit : ∀ a s r, visit a s = some r → visit' a s = some r) {names : List α}
    {r : Option γ × List α} (h : visitLinks visit names seen = some r) :
    visitLinks visit' names seen = some r := by
  induction names generalizing seen with
  | nil => exact h
  | cons a rest ih =>
      rw [visitLinks] at h ⊢
      split at h
      · rename_i middle hfirst
        rw [hvisit a seen _ hfirst]
        exact ih h
      · rename_i hother
        rw [hvisit a seen r h]
        split
        · rename_i middle hsome
          exact (hother middle (h.trans hsome)).elim
        · rfl

theorem visitContents_mono {visit' : α → List α → Outcome α γ} {a : α}
    (hvisit : ∀ a s r, visit a s = some r → visit' a s = some r) {contents : List β}
    {r : Option γ × List α} (h : G.visitContents visit a contents seen = some r) :
    G.visitContents visit' a contents seen = some r := by
  induction contents generalizing seen with
  | nil => exact h
  | cons c rest ih =>
      rw [visitContents] at h ⊢
      split at h
      · exact h
      split at h
      · rename_i middle hlinks
        rw [visitLinks_mono hvisit hlinks]
        exact ih h
      · rename_i hother
        rw [visitLinks_mono hvisit h]
        split
        · rename_i middle hsome
          exact (hother middle (h.trans hsome)).elim
        · rfl

end Loops

/-- What is reached from an explored node is explored, and without a hit. -/
theorem not_leads_of_explored {seen : List α} {a : α}
    (h : G.Explored [] seen) (ha : a ∈ seen) : ¬ G.Leads a := by
  rintro ⟨b, hreach, hholds⟩
  have hall : ∀ c, Relation.ReflTransGen G.Link a c → c ∈ seen := by
    intro c hc
    induction hc with
    | refl => exact ha
    | tail _ hlink ih => exact (h.opened _ ih List.not_mem_nil).2 _ hlink
  have hb := hall b hreach
  exact (h.opened b hb List.not_mem_nil).1 hholds

/-! ## The search -/

variable [DecidableEq α] {seen seen' : List α} {fuel : ℕ} {a : α}

theorem visit_explored (h : G.visit fuel a seen = some (none, seen')) :
    G.Explored seen seen' ∧ a ∈ seen' := by
  induction fuel generalizing a seen seen' with
  | zero => cases h
  | succ fuel ih =>
      rw [visit] at h
      split at h
      · rename_i hmem
        cases h
        exact ⟨.refl seen, hmem⟩
      · obtain ⟨hexplored, hall⟩ := visitContents_explored (fun b s t hb ↦ ih hb) h
        have ha : a ∈ seen' := hexplored.grows List.mem_cons_self
        have hgrows : seen ⊆ seen' := List.Subset.trans (List.subset_cons_self a seen) hexplored.grows
        refine ⟨⟨hgrows, fun b hb hnot ↦ ?_⟩, ha⟩
        by_cases hba : b = a
        · subst hba
          constructor
          · rintro ⟨c, hc, hsome⟩
            rw [(hall c hc).1] at hsome
            cases hsome
          · rintro d ⟨c, hc, hd⟩
            exact (hall c hc).2 d hd
        · exact hexplored.opened b hb (List.not_mem_cons_of_ne_of_not_mem hba hnot)

theorem visit_hit {found : γ} (h : G.visit fuel a seen = some (some found, seen')) :
    G.Leads a := by
  induction fuel generalizing a seen seen' with
  | zero => cases h
  | succ fuel ih =>
      rw [visit] at h
      split at h
      · cases h
      · obtain ⟨c, hc, hhit | ⟨b, hb, d, hreach, hholds⟩⟩ :=
          visitContents_hit (fun b s t hb ↦ ih hb) h
        · exact ⟨a, .refl, c, hc, hhit⟩
        · exact ⟨d, .head ⟨c, hc, hb⟩ hreach, hholds⟩

/-! ## Fuel -/

theorem visit_grows {r : Option γ} (h : G.visit fuel a seen = some (r, seen')) :
    seen ⊆ seen' := by
  induction fuel generalizing a seen r seen' with
  | zero => cases h
  | succ fuel ih =>
      rw [visit] at h
      split at h
      · cases h
        exact List.Subset.refl _
      · exact List.Subset.trans (List.subset_cons_self a seen)
          (visitContents_grows (fun b s r t hb ↦ ih hb) h)

/-- The nodes with contents that are still to be opened. -/
def unopened (nodes seen : List α) : ℕ := (nodes.filter fun a ↦ a ∉ seen).length

theorem unopened_anti (nodes : List α) (h : seen ⊆ seen') :
    unopened nodes seen' ≤ unopened nodes seen := by
  apply List.Sublist.length_le
  apply List.monotone_filter_right
  intro a ha
  rw [decide_eq_true_eq] at ha ⊢
  exact fun hmem ↦ ha (h hmem)

theorem unopened_cons_lt {nodes : List α} (ha : a ∈ nodes) (hnot : a ∉ seen) :
    unopened nodes (a :: seen) < unopened nodes seen := by
  have hsplit : unopened nodes (a :: seen) =
      ((nodes.filter fun b ↦ b ∉ seen).filter fun b ↦ b ≠ a).length := by
    rw [unopened, List.filter_filter]
    congr 1
    apply List.filter_congr
    intro b _
    simp [not_or]
  have hmem : a ∈ nodes.filter fun b ↦ b ∉ seen := List.mem_filter.mpr ⟨ha, by simpa using hnot⟩
  rw [hsplit, unopened]
  exact List.length_filter_lt_length_iff_exists.mpr ⟨a, hmem, by simp⟩

/-- The search ends: each level opens one more of the nodes with contents. -/
theorem visit_ends {nodes : List α} (hnodes : ∀ a, G.contents a ≠ [] → a ∈ nodes) (a : α)
    (h : unopened nodes seen < fuel) : G.visit fuel a seen ≠ none := by
  induction fuel generalizing a seen with
  | zero => omega
  | succ fuel ih =>
      rw [visit]
      split
      · nofun
      rename_i hnot
      by_cases hcontents : G.contents a = []
      · rw [hcontents]
        nofun
      · have hless := unopened_cons_lt (hnodes a hcontents) hnot
        refine visitContents_ends (fun b s r t hb ↦ visit_grows hb) (fun b s hs ↦ ih b ?_) a _
          (List.Subset.refl (a :: seen))
        have hmono := unopened_anti nodes hs
        omega

/-- With enough fuel the search finds a hit exactly if one can be reached. -/
theorem visit_iff {nodes : List α} (hnodes : ∀ a, G.contents a ≠ [] → a ∈ nodes) (a : α)
    (hfuel : nodes.length < fuel) :
    ∃ r seen, G.visit fuel a [] = some (r, seen) ∧ (r.isSome ↔ G.Leads a) := by
  have henough : unopened nodes [] < fuel := by
    have hlength := List.length_filter_le (fun a ↦ a ∉ ([] : List α)) nodes
    rw [unopened]
    omega
  obtain ⟨⟨r, seen⟩, hvisit⟩ := Option.ne_none_iff_exists'.mp (visit_ends hnodes a henough)
  refine ⟨r, seen, hvisit, ?_⟩
  cases r with
  | some found => exact iff_of_true rfl (visit_hit hvisit)
  | none =>
      obtain ⟨hexplored, hmem⟩ := visit_explored hvisit
      exact iff_of_false (by simp) (not_leads_of_explored hexplored hmem)

theorem visit_succ {r : Option γ × List α} (h : G.visit fuel a seen = some r) :
    G.visit (fuel + 1) a seen = some r := by
  induction fuel generalizing a seen r with
  | zero => cases h
  | succ fuel ih =>
      rw [visit] at h ⊢
      split
      · rename_i hmem
        rwa [if_pos hmem] at h
      · rename_i hnot
        rw [if_neg hnot] at h
        exact visitContents_mono (fun b s r hb ↦ ih hb) h

/-- Enough fuel is enough: more of it changes nothing. -/
theorem visit_mono {fuel' : ℕ} {r : Option γ × List α} (hfuel : fuel ≤ fuel')
    (h : G.visit fuel a seen = some r) : G.visit fuel' a seen = some r := by
  induction hfuel with
  | refl => exact h
  | step _ ih => exact visit_succ ih

end Graph

end Search
