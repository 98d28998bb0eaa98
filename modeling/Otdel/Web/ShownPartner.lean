import Otdel.Web.UseMaterials

/-!
# Whose materials are on screen

The epoch guards every response, and a response of the current epoch belongs to
the partner on screen.  `upsert` and `reload` compare with the partner they were
made for, not with the one on screen: a callback kept from an earlier partner
passes its own check after the switch.
-/

namespace Otdel.Web

open Run

namespace Hook

/-- Only materials of the partner on screen are displayed, and every list
request went out for the partner on screen. -/
def OnePartner (s : Hook) : Prop :=
  (∀ items, s.materials = some items → ∀ m ∈ items, m.partnerId = s.partnerId) ∧
    ∀ request ∈ s.sent, request.1 = request.2

/-- The refs, the timer and the requests under way belong to the partner on
screen, or to an epoch that is over. -/
structure Fresh (s : Hook) : Prop where
  shown : s.OnePartner
  ref : ∀ m ∈ s.materialsRef, m.partnerId = s.partnerId
  timer : ∀ t, s.timer = some t → t.partnerId = s.partnerId ∧ t.epoch ≤ s.epoch
  inFlight : ∀ r ∈ s.inFlight, r.epoch ≤ s.epoch ∧
    (r.epoch = s.epoch → r.partnerId = s.partnerId)
  active : s.activeEpoch ≤ s.epoch

theorem fresh_initial (partnerId : String) : (initial partnerId).Fresh where
  shown := by simp [OnePartner, initial]
  ref := by simp [initial]
  timer := by simp [initial]
  inFlight := by simp [initial]
  active := le_rfl

variable {s : Hook}

theorem Fresh.clearTimer (h : s.Fresh) : s.clearTimer.Fresh :=
  { h with timer := by simp [Hook.clearTimer] }

theorem Fresh.armPoll (h : s.Fresh) {epoch : ℕ} (hepoch : epoch ≤ s.epoch) :
    (s.armPoll s.partnerId epoch).Fresh :=
  { h with timer := by rintro t ⟨⟩; exact ⟨rfl, hepoch⟩ }

/-- A request for the partner on screen keeps the hook fresh. -/
theorem Fresh.send (h : s.Fresh) {request : ListRequest}
    (hpartner : request.partnerId = s.partnerId) (hepoch : request.epoch ≤ s.epoch) :
    (s.send request).Fresh where
  shown := by
    refine ⟨h.shown.1, fun r hr ↦ ?_⟩
    rcases List.mem_cons.mp hr with rfl | hr
    · exact hpartner
    · exact h.shown.2 r hr
  ref := h.ref
  timer := h.timer
  inFlight := by
    intro r hr
    rcases List.mem_cons.mp hr with rfl | hr
    · exact ⟨hepoch, fun _ ↦ hpartner⟩
    · exact h.inFlight r hr
  active := h.active

theorem Fresh.load (h : s.Fresh) {epoch : ℕ} (hepoch : epoch ≤ s.epoch) :
    (s.load s.partnerId epoch).Fresh := by
  have hcleared : ({ s with loadError := none } : Hook).Fresh := { h with }
  exact hcleared.send rfl hepoch

/-- The effect of a render starts an epoch that no request under way belongs
to. -/
theorem Fresh.runEffect (h : s.Fresh) (partnerId : String) :
    (s.render partnerId).runEffect.Fresh := by
  have hreset : ({ s.render partnerId with
      epoch := s.epoch + 1, activeEpoch := s.epoch + 1, mounted := true,
      materialsRef := [], materials := none, loadError := none, timer := none } : Hook).Fresh :=
    { shown := ⟨by simp, h.shown.2⟩
      ref := by simp
      timer := by simp
      inFlight := fun r hr ↦
        ⟨(h.inFlight r hr).1.trans (Nat.le_succ _), fun heq ↦ by
          have hle := (h.inFlight r hr).1
          simp only at heq
          omega⟩
      active := le_rfl }
  exact hreset.load le_rfl

theorem Fresh.cleanup (h : s.Fresh) : s.cleanup.Fresh where
  shown := h.shown
  ref := h.ref
  timer := by simp [Hook.cleanup, Hook.clearTimer]
  inFlight := fun r hr ↦ by
    have hle := (h.inFlight r hr).1
    refine ⟨hle.trans (Nat.le_succ _), fun heq ↦ ?_⟩
    simp only [Hook.cleanup, Hook.clearTimer] at heq
    omega
  active := h.active.trans (Nat.le_succ _)

theorem Fresh.display (h : s.Fresh) {items : List Material}
    (hitems : ∀ m ∈ items, m.partnerId = s.partnerId) : (s.display items).Fresh :=
  { h with
    shown := ⟨by rintro _ ⟨⟩; exact hitems, h.shown.2⟩
    ref := hitems }

/-- The continuation of a request of the current epoch shows the materials of
the partner on screen. -/
theorem Fresh.settle (h : s.Fresh) {request : ListRequest} (hrequest : request ∈ s.inFlight)
    {outcome : Except (Option String) (List Material)}
    (hserver : ∀ items, outcome = .ok items → ∀ m ∈ items, m.partnerId = request.partnerId) :
    (Hook.settle request outcome { s with inFlight := s.inFlight.erase request }).Fresh := by
  have herase : ({ s with inFlight := s.inFlight.erase request } : Hook).Fresh :=
    { h with inFlight := fun r hr ↦ h.inFlight r (List.mem_of_mem_erase hr) }
  unfold Hook.settle
  split
  · exact herase
  · rename_i hepoch
    have hcurrent : request.partnerId = s.partnerId :=
      (h.inFlight request hrequest).2 (not_not.mp hepoch).symm
    cases outcome with
    | error message => exact { herase with }
    | ok items =>
        have hitems : ∀ m ∈ items, m.partnerId = s.partnerId :=
          fun m hm ↦ (hserver items rfl m hm).trans hcurrent
        have hshown := herase.display hitems
        have hclear : ∀ t : Hook, t.Fresh → ({ t with loadError := none } : Hook).Fresh :=
          fun t ht ↦ { ht with }
        have harm : ∀ t : Hook, t.Fresh → t.partnerId = s.partnerId → t.epoch = s.epoch →
            (Hook.armPoll request.partnerId request.epoch t).Fresh := by
          intro t ht hpartner hepoch
          rw [hcurrent, ← hpartner]
          exact ht.armPoll (hepoch ▸ (h.inFlight request hrequest).1)
        cases request.kind with
        | load =>
            dsimp only
            split
            · exact harm _ hshown rfl rfl
            · exact hshown
        | poll =>
            dsimp only
            split
            · exact harm _ (hclear _ hshown) rfl rfl
            · exact hclear _ hshown

theorem mem_withMaterial {material m : Material} {list : List Material}
    (h : m ∈ withMaterial material list) : m = material ∨ m ∈ list := by
  unfold withMaterial at h
  split at h
  · exact (List.mem_or_eq_of_mem_set h).symm
  · exact List.mem_cons.mp h

theorem self_mem_withMaterial (material : Material) (list : List Material) :
    material ∈ withMaterial material list := by
  unfold withMaterial
  split
  · rename_i index h
    have hlt : index < list.length := (List.findIdx?_eq_some_iff_getElem.mp h).1
    exact List.mem_set hlt material
  · exact List.mem_cons_self

/-- `upsert` with a callback of the partner on screen. -/
theorem Fresh.upsert (h : s.Fresh) {captured : String} {material : Material}
    (hcurrent : s.mounted = true → material.partnerId = captured → captured = s.partnerId) :
    (s.upsert captured material).Fresh := by
  unfold Hook.upsert
  split
  · exact h
  split
  · exact h
  rename_i hmounted hpartner
  have hcaptured : captured = s.partnerId := hcurrent (by simpa using hmounted) (not_not.mp hpartner)
  have hnext : ∀ m ∈ withMaterial material s.materialsRef, m.partnerId = s.partnerId := by
    intro m hm
    rcases mem_withMaterial hm with rfl | hm
    · exact (not_not.mp hpartner).trans hcaptured
    · exact h.ref m hm
  dsimp only
  split
  · rw [hcaptured]
    exact (h.display hnext).armPoll h.active
  · exact h.display hnext

end Hook

/-- The server answers a partner's list with that partner's materials. -/
def HookEvent.Honest (e : HookEvent) : Prop :=
  ∀ request items, e = .settled request (.ok items) →
    ∀ m ∈ items, m.partnerId = request.partnerId

/-- A callback that passes its own checks was made for the partner on screen. -/
def InTime (s : Hook) : HookEvent → Prop
  | .upsert captured material =>
      s.mounted = true → material.partnerId = captured → captured = s.partnerId
  | .reload captured => s.mounted = true → captured = s.partnerId
  | _ => True

variable {s s' : Hook} {e : HookEvent}

theorem fresh_hookStep (hhonest : e.Honest) (h : s.Fresh) (hstep : hookStep s e = some s')
    (htime : InTime s e) : s'.Fresh := by
  cases e with
  | mount partnerId =>
      simp only [hookStep, Option.ite_none_left_eq_some, Option.some.injEq] at hstep
      rw [← hstep.2]
      exact h.runEffect partnerId
  | rerender partnerId =>
      simp only [hookStep, Option.ite_none_left_eq_some] at hstep
      obtain ⟨-, hstep⟩ := hstep
      split at hstep
      · cases hstep
        exact h
      · cases hstep
        exact h.cleanup.runEffect partnerId
  | unmount =>
      simp only [hookStep, Option.ite_none_right_eq_some, Option.some.injEq] at hstep
      rw [← hstep.2]
      exact h.cleanup
  | timeout =>
      simp only [hookStep, Option.map_eq_some_iff] at hstep
      obtain ⟨timer, htimer, rfl⟩ := hstep
      obtain ⟨hpartner, hepoch⟩ := h.timer timer htimer
      exact h.clearTimer.send hpartner hepoch
  | settled request outcome =>
      simp only [hookStep, Option.ite_none_right_eq_some, Option.some.injEq] at hstep
      rw [← hstep.2]
      refine h.settle hstep.1 ?_
      rintro items rfl
      exact hhonest request items rfl
  | upsert captured material =>
      simp only [hookStep, Option.ite_none_right_eq_some, Option.some.injEq] at hstep
      rw [← hstep.2]
      exact h.upsert htime
  | reload captured =>
      simp only [hookStep, Option.ite_none_right_eq_some, Option.some.injEq] at hstep
      rw [← hstep.2]
      unfold Hook.reload
      split
      · exact h
      · rename_i hmounted
        rw [htime (by simpa using hmounted)]
        exact h.load h.active

/-- A step that leaves one partner on screen used a callback in time: one that
is late shows a material, or requests the list, of the partner it was made
for. -/
theorem inTime_of_onePartner (hstep : hookStep s e = some s') (hshown : s'.OnePartner) :
    InTime s e := by
  cases e with
  | upsert captured material =>
      simp only [hookStep, Option.ite_none_right_eq_some, Option.some.injEq] at hstep
      intro hmounted hpartner
      have hdisplayed : s'.materials = some (Hook.withMaterial material s.materialsRef) := by
        rw [← hstep.2]
        simp only [Hook.upsert, hmounted, Bool.true_eq_false, if_false, hpartner, ne_eq,
          not_true_eq_false]
        split <;> rfl
      have hsame : s'.partnerId = s.partnerId := by
        rw [← hstep.2]
        simp only [Hook.upsert]
        split_ifs <;> rfl
      rw [← hpartner, ← hsame]
      exact hshown.1 _ hdisplayed material (Hook.self_mem_withMaterial _ _)
  | reload captured =>
      simp only [hookStep, Option.ite_none_right_eq_some, Option.some.injEq] at hstep
      intro hmounted
      have hsent : (captured, s.partnerId) ∈ s'.sent := by
        rw [← hstep.2]
        simp [Hook.reload, hmounted, Hook.load, Hook.send]
      exact hshown.2 _ hsent
  | mount partnerId => trivial
  | rerender partnerId => trivial
  | unmount => trivial
  | timeout => trivial
  | settled request outcome => trivial

/-- One partner is on screen throughout a run exactly when every callback the
run uses after a switch is one of the partner on screen. -/
theorem one_partner_shown_iff (partnerId : String) (events : List HookEvent)
    (hserver : ∀ e ∈ events, e.Honest) :
    Throughout hookStep Hook.OnePartner (Hook.initial partnerId) events ↔
      Along hookStep (fun s e _ ↦ InTime s e) (Hook.initial partnerId) events := by
  rw [throughout_iff_along (Hook.fresh_initial partnerId).shown]
  symm
  refine along_congr (fun s e s' hhonest h hstep htime ↦ fresh_hookStep hhonest h hstep htime)
    ?_ hserver (Hook.fresh_initial partnerId)
  intro s e s' hhonest h hstep
  constructor
  · intro htime
    exact (fresh_hookStep hhonest h hstep htime).shown
  · exact inTime_of_onePartner hstep

/-- A material of partner `a` answers a retry after the switch to `b`. -/
def lateRetry : List HookEvent :=
  [.mount "a", .settled ⟨.load, "a", 1⟩ (.ok [⟨"m", "a", .failed⟩]), .rerender "b",
    .upsert "a" ⟨"m", "a", .queued⟩]

theorem one_partner_shown_iff_late_retry :
    Throughout hookStep Hook.OnePartner (Hook.initial "a") lateRetry ↔
      Along hookStep (fun s e _ ↦ InTime s e) (Hook.initial "a") lateRetry := by
  refine one_partner_shown_iff "a" lateRetry ?_
  intro e he request items heq
  subst heq
  simp only [lateRetry, List.mem_cons, HookEvent.settled.injEq, Except.ok.injEq, reduceCtorEq,
    false_or, List.not_mem_nil, or_false] at he
  obtain ⟨rfl, rfl⟩ := he
  simp

theorem late_retry_shows_former_partner :
    (∀ e ∈ lateRetry, e.Honest) ∧
      ¬ Throughout hookStep Hook.OnePartner (Hook.initial "a") lateRetry := by
  constructor
  · intro e he request items heq
    subst heq
    simp only [lateRetry, List.mem_cons, HookEvent.settled.injEq, Except.ok.injEq, reduceCtorEq,
      false_or, List.not_mem_nil, or_false] at he
    obtain ⟨rfl, rfl⟩ := he
    simp
  · intro h
    rw [throughout_iff] at h
    have hrun : ∃ t, run hookStep (Hook.initial "a") lateRetry = some t ∧
        t.partnerId = "b" ∧ t.materials = some [⟨"m", "a", .queued⟩] := by
      refine ⟨_, rfl, rfl, rfl⟩
    obtain ⟨t, hrun, hpartner, hmaterials⟩ := hrun
    have hshown := (h lateRetry [] t (by simp) hrun).1 _ hmaterials ⟨"m", "a", .queued⟩ (by simp)
    rw [hpartner] at hshown
    exact absurd hshown (by decide)

end Otdel.Web
