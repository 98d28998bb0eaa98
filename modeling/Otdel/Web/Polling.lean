import Otdel.Web.Timers

/-!
# Polling

While a material is queued or processing somebody will look at it again: a timer,
a list request of this epoch, or the user, who is shown an error.  After the
cleanup nobody does.
-/

namespace Otdel.Web

open Run

namespace Hook

/-- The list on screen will be looked at again, or an error is. -/
def Watched (s : Hook) : Prop :=
  s.timer ≠ none ∨ (∃ request ∈ s.inFlight, request.epoch = s.epoch) ∨ s.loadError ≠ none

/-- Timers belong to the epoch of the mounted effect, and requests to an epoch
that has begun and, after the cleanup, is over. -/
structure Timed (s : Hook) : Prop where
  active : s.mounted = true → s.activeEpoch = s.epoch
  timer : s.mounted = false → s.timer = none
  inFlight : ∀ request ∈ s.inFlight, request.epoch ≤ s.epoch ∧
    (s.mounted = false → request.epoch < s.epoch)
  timerEpoch : ∀ t, s.timer = some t → t.epoch = s.epoch
  shown : ∀ items, s.materials = some items → items = s.materialsRef

structure Scheduled (s : Hook) : Prop extends s.Timed where
  polled : s.mounted = true → hasPending s.materialsRef = true → s.Watched

theorem scheduled_initial (partnerId : String) : (initial partnerId).Scheduled where
  active := by simp [initial]
  timer := fun _ ↦ rfl
  inFlight := by simp [initial]
  timerEpoch := by simp [initial]
  shown := by simp [initial]
  polled := by simp [initial]

variable {s : Hook}

theorem Timed.clearTimer (h : s.Timed) : s.clearTimer.Timed :=
  { h with
    timer := fun _ ↦ rfl
    timerEpoch := by simp [Hook.clearTimer] }

/-- A request of the current epoch watches the list. -/
theorem Timed.send (h : s.Timed) (hmounted : s.mounted = true) {request : ListRequest}
    (hepoch : request.epoch = s.epoch) : (s.send request).Scheduled where
  active := h.active
  timer := h.timer
  inFlight := by
    intro other hother
    rcases List.mem_cons.mp hother with rfl | hother
    · exact ⟨hepoch.le, fun hover ↦ absurd (hmounted.symm.trans hover) (by decide)⟩
    · exact h.inFlight other hother
  timerEpoch := h.timerEpoch
  shown := h.shown
  polled := fun _ _ ↦ .inr (.inl ⟨request, List.mem_cons_self, hepoch⟩)

/-- So does a timer. -/
theorem Timed.armPoll (h : s.Timed) (hmounted : s.mounted = true) (partnerId : String)
    {epoch : ℕ} (hepoch : epoch = s.epoch) : (s.armPoll partnerId epoch).Scheduled where
  active := h.active
  timer := fun hover ↦ absurd (hmounted.symm.trans hover) (by decide)
  inFlight := h.inFlight
  timerEpoch := by rintro t ⟨⟩; exact hepoch
  shown := h.shown
  polled := fun _ _ ↦ .inl (Option.some_ne_none _)

theorem Timed.display (h : s.Timed) (items : List Material) : (s.display items).Timed :=
  { h with shown := by rintro _ ⟨⟩; rfl }

theorem Timed.load (h : s.Timed) (hmounted : s.mounted = true) (partnerId : String)
    {epoch : ℕ} (hepoch : epoch = s.epoch) : (s.load partnerId epoch).Scheduled := by
  have hcleared : ({ s with loadError := none } : Hook).Timed := { h with }
  exact hcleared.send hmounted hepoch

/-- The effect starts an epoch of its own. -/
theorem Timed.runEffect (h : s.Timed) : s.runEffect.Scheduled := by
  have hreset : ({ s with
      epoch := s.epoch + 1, activeEpoch := s.epoch + 1, mounted := true,
      materialsRef := [], materials := none, loadError := none, timer := none } : Hook).Timed :=
    { active := fun _ ↦ rfl
      timer := fun _ ↦ rfl
      inFlight := fun request hrequest ↦
        ⟨(h.inFlight request hrequest).1.trans (Nat.le_succ _), by simp⟩
      timerEpoch := by simp
      shown := by simp }
  exact hreset.load rfl s.partnerId rfl

theorem Timed.cleanup (h : s.Timed) : s.cleanup.Scheduled where
  active := by simp [Hook.cleanup, Hook.clearTimer]
  timer := fun _ ↦ rfl
  inFlight := by
    intro request hrequest
    have hle := (h.inFlight request hrequest).1
    simp only [Hook.cleanup, Hook.clearTimer]
    omega
  timerEpoch := by simp [Hook.cleanup, Hook.clearTimer]
  shown := h.shown
  polled := by simp [Hook.cleanup, Hook.clearTimer]

theorem Timed.render (h : s.Timed) (partnerId : String) : (s.render partnerId).Timed :=
  { h with }

/-- Only the effect that is mounted has requests of the current epoch. -/
theorem Timed.mounted_of_mem (h : s.Timed) {request : ListRequest}
    (hrequest : request ∈ s.inFlight) (hepoch : request.epoch = s.epoch) : s.mounted = true := by
  by_contra hover
  have hlt := (h.inFlight request hrequest).2 (Bool.eq_false_of_not_eq_true hover)
  omega

theorem Timed.erase (h : s.Timed) (request : ListRequest) :
    ({ s with inFlight := s.inFlight.erase request } : Hook).Timed :=
  { h with inFlight := fun other hother ↦ h.inFlight other (List.mem_of_mem_erase hother) }

/-- A list with nothing pending needs no timer. -/
theorem Timed.idle (h : s.Timed) (hidle : hasPending s.materialsRef ≠ true) : s.Scheduled :=
  { h with polled := fun _ hpending ↦ absurd hpending hidle }

/-- A response of an epoch that is over is dropped, and watched nothing. -/
theorem Scheduled.settle_stale (h : s.Scheduled) {request : ListRequest}
    (hepoch : s.epoch ≠ request.epoch) :
    ({ s with inFlight := s.inFlight.erase request } : Hook).Scheduled where
  toTimed := h.erase request
  polled := by
    intro hmounted hpending
    rcases h.polled hmounted hpending with htimer | ⟨other, hother, hcurrent⟩ | herror
    · exact .inl htimer
    · have hne : other ≠ request := by
        rintro rfl
        exact hepoch hcurrent.symm
      exact .inr (.inl ⟨other, (List.mem_erase_of_ne hne).mpr hother, hcurrent⟩)
    · exact .inr (.inr herror)

/-- A response of the current epoch arms the timer, shows an error, or leaves
nothing pending. -/
theorem Scheduled.settle (h : s.Scheduled) {request : ListRequest}
    (hrequest : request ∈ s.inFlight) (outcome : Except (Option String) (List Material)) :
    (Hook.settle request outcome
      { s with inFlight := s.inFlight.erase request }).Scheduled := by
  unfold Hook.settle
  split
  · rename_i hepoch
    exact h.settle_stale hepoch
  · rename_i hepoch
    have hcurrent : request.epoch = s.epoch := (not_not.mp hepoch).symm
    have hmounted := h.mounted_of_mem hrequest hcurrent
    cases outcome with
    | error message =>
        exact { h.erase request with
          polled := fun _ _ ↦ .inr (.inr (Option.some_ne_none _)) }
    | ok items =>
        have hshown := (h.erase request).display items
        cases request.kind with
        | load =>
            dsimp only
            split
            · exact hshown.armPoll hmounted _ hcurrent
            · rename_i hidle
              exact hshown.idle hidle
        | poll =>
            have hcleared : ({ Hook.display items
                { s with inFlight := s.inFlight.erase request } with
                loadError := none } : Hook).Timed := { hshown with }
            dsimp only
            split
            · exact hcleared.armPoll hmounted _ hcurrent
            · rename_i hidle
              exact hcleared.idle hidle

theorem Scheduled.upsert (h : s.Scheduled) (captured : String) (material : Material) :
    (s.upsert captured material).Scheduled := by
  unfold Hook.upsert
  split
  · exact h
  split
  · exact h
  rename_i hmounted _
  have hmounted : s.mounted = true := Bool.eq_true_of_not_eq_false hmounted
  have hshown := h.display (withMaterial material s.materialsRef)
  dsimp only
  split
  · exact hshown.armPoll hmounted _ (h.active hmounted)
  · rename_i hkept
    -- Something is pending and the timer is set, or nothing is pending.
    refine { hshown with polled := fun _ hpending ↦ .inl fun htimer ↦ ?_ }
    exact hkept ⟨hpending, htimer⟩

theorem Scheduled.reload (h : s.Scheduled) (captured : String) :
    (s.reload captured).Scheduled := by
  unfold Hook.reload
  split
  · exact h
  · rename_i hmounted
    have hmounted : s.mounted = true := Bool.eq_true_of_not_eq_false hmounted
    exact h.load hmounted captured (h.active hmounted)

end Hook

theorem Hook.Scheduled.step {s s' : Hook} {e : HookEvent} (h : s.Scheduled)
    (hstep : hookStep s e = some s') : s'.Scheduled := by
  cases e with
  | mount partnerId =>
      simp only [hookStep, Option.ite_none_left_eq_some, Option.some.injEq] at hstep
      rw [← hstep.2]
      exact (h.render partnerId).runEffect
  | rerender partnerId =>
      simp only [hookStep, Option.ite_none_left_eq_some] at hstep
      obtain ⟨-, hstep⟩ := hstep
      split at hstep
      · cases hstep
        exact h
      · cases hstep
        exact (h.cleanup.render partnerId).runEffect
  | unmount =>
      simp only [hookStep, Option.ite_none_right_eq_some, Option.some.injEq] at hstep
      rw [← hstep.2]
      exact h.cleanup
  | timeout =>
      simp only [hookStep, Option.map_eq_some_iff] at hstep
      obtain ⟨timer, htimer, rfl⟩ := hstep
      have hmounted : s.mounted = true := by
        by_contra hover
        rw [h.timer (Bool.eq_false_of_not_eq_true hover)] at htimer
        cases htimer
      exact h.clearTimer.send hmounted (h.timerEpoch timer htimer)
  | settled request outcome =>
      simp only [hookStep, Option.ite_none_right_eq_some, Option.some.injEq] at hstep
      rw [← hstep.2]
      exact h.settle hstep.1 outcome
  | upsert captured material =>
      simp only [hookStep, Option.ite_none_right_eq_some, Option.some.injEq] at hstep
      rw [← hstep.2]
      exact h.upsert captured material
  | reload captured =>
      simp only [hookStep, Option.ite_none_right_eq_some, Option.some.injEq] at hstep
      rw [← hstep.2]
      exact h.reload captured

namespace Runtime

/-- The list on screen, or the one the callbacks read, has a material that is
queued or processing. -/
def Pending (r : Runtime) : Prop :=
  hasPending r.materialsRef = true ∨
    ∃ items, r.materials = some items ∧ hasPending items = true

/-- What holds of the hook and its window in every run. -/
structure Kept (r : Runtime) : Prop where
  tracked : r.Tracked
  scheduled : r.hook.Scheduled

variable {r r' : Runtime} {events : List RuntimeEvent}

theorem kept_initial (partnerId : String) : (initial partnerId).Kept :=
  ⟨tracked_initial partnerId, Hook.scheduled_initial partnerId⟩

theorem Kept.step (h : r.Kept) {e : RuntimeEvent} (hstep : r.step e = some r') : r'.Kept := by
  obtain ⟨htracked, hhook⟩ := h.tracked.step hstep
  exact ⟨htracked, h.scheduled.step hhook⟩

theorem Kept.run (h : r.Kept) (hrun : Run.run Runtime.step r events = some r') : r'.Kept := by
  induction events generalizing r with
  | nil =>
      cases hrun
      exact h
  | cons e es ih =>
      obtain ⟨middle, hstep, hrest⟩ := run_eq_some_cons.mp hrun
      exact ih (h.step hstep) hrest

theorem Kept.timers_eq_nil (h : r.Kept) (hover : r.mountedRef = false) : r.timers = [] := by
  have htimer : r.hook.timer = none := h.scheduled.timer hover
  simpa [hook] using htimer

theorem Kept.watched (h : r.Kept) (hmounted : r.mountedRef = true) (hpending : r.Pending) :
    r.timers ≠ [] ∨ (∃ request ∈ r.inFlight, request.epoch = r.epochRef) ∨
      r.loadError ≠ none := by
  have href : hasPending r.materialsRef = true := by
    rcases hpending with href | ⟨items, hitems, hshown⟩
    · exact href
    · have heq : items = r.materialsRef := h.scheduled.shown items hitems
      rw [← heq]
      exact hshown
  rcases h.scheduled.polled hmounted href with htimer | hwatched
  · exact .inl (by simpa [hook] using htimer)
  · exact .inr hwatched

/-- After the cleanup an event takes a request off the list, and does nothing
else. -/
theorem Kept.step_unmounted (h : r.Kept) (hover : r.mountedRef = false) {e : RuntimeEvent}
    (hlast : ∀ partnerId, e ≠ .mount partnerId) (hstep : r.step e = some r') :
    r' = { r with inFlight := r'.inFlight } := by
  have hnone := h.timers_eq_nil hover
  cases e with
  | mount partnerId => exact absurd rfl (hlast partnerId)
  | rerender partnerId => simp [Runtime.step, hover] at hstep
  | unmount => simp [Runtime.step, hover] at hstep
  | timeout number => simp [Runtime.step, hnone] at hstep
  | settled request outcome =>
      simp only [Runtime.step, Option.ite_none_right_eq_some, Option.some.injEq] at hstep
      obtain ⟨hrequest, rfl⟩ := hstep
      have hlt : request.epoch < r.epochRef := (h.scheduled.inFlight request hrequest).2 hover
      have hdropped : Runtime.settle request outcome
          { r with inFlight := r.inFlight.erase request } =
            { r with inFlight := r.inFlight.erase request } := if_pos hlt.ne'
      rw [hdropped]
  | upsert material =>
      cases hstep
      rw [Runtime.upsert, if_pos hover]
  | reload =>
      cases hstep
      rw [Runtime.reload, if_pos hover]

theorem Kept.run_unmounted (h : r.Kept) (hover : r.mountedRef = false)
    (hlast : ∀ partnerId, .mount partnerId ∉ events)
    (hrun : Run.run Runtime.step r events = some r') : r' = { r with inFlight := r'.inFlight } := by
  induction events generalizing r with
  | nil =>
      cases hrun
      rfl
  | cons e es ih =>
      obtain ⟨middle, hstep, hrest⟩ := run_eq_some_cons.mp hrun
      have hmiddle := h.step_unmounted hover
        (fun partnerId heq ↦ hlast partnerId (heq ▸ List.mem_cons_self)) hstep
      have hstill : middle.mountedRef = false := by rw [hmiddle]; exact hover
      have hfinal := ih (h.step hstep) hstill
        (fun partnerId hmem ↦ hlast partnerId (List.mem_cons_of_mem e hmem)) hrest
      rw [hmiddle] at hfinal
      exact hfinal

end Runtime

/-- A hook has one timer at most; while it is mounted, something watches a list
with a pending material; and once it is unmounted it has no timer, sends no
request and writes nothing, whatever still arrives. -/
theorem polling_lives_with_hook (partnerId : String) (events : List RuntimeEvent) (r : Runtime)
    (hrun : run Runtime.step (Runtime.initial partnerId) events = some r) :
    r.timers.length ≤ 1 ∧
      (r.mountedRef = true → r.Pending →
        r.timers ≠ [] ∨ (∃ request ∈ r.inFlight, request.epoch = r.epochRef) ∨
          r.loadError ≠ none) ∧
      ∀ left, r.step .unmount = some left →
        ∀ later, (∀ other, .mount other ∉ later) →
          ∀ t, run Runtime.step left later = some t →
            t.timers = [] ∧ t.sent = left.sent ∧ t.writes = left.writes ∧
              t = { left with inFlight := t.inFlight } := by
  have hkept := (Runtime.kept_initial partnerId).run hrun
  refine ⟨hkept.tracked.length_le, hkept.watched, fun left hleft later hlast t hlater ↦ ?_⟩
  have hcleaned := hkept.step hleft
  have hover : left.mountedRef = false := by
    simp only [Runtime.step, Option.ite_none_right_eq_some, Option.some.injEq] at hleft
    rw [← hleft.2]
    unfold Runtime.cleanup Runtime.clearTimer
    split <;> rfl
  have hsame := hcleaned.run_unmounted hover hlast hlater
  rw [hsame]
  exact ⟨hcleaned.timers_eq_nil hover, rfl, rfl, rfl⟩

/-- An upload answers after its hook is gone. -/
theorem polling_lives_with_hook_late_upsert :
    ∃ r left t, run Runtime.step (Runtime.initial "a")
        [.mount "a", .settled ⟨.load, "a", 1⟩ (.ok [⟨"m", "a", .queued⟩]), .timeout 1] = some r ∧
      r.step .unmount = some left ∧
      run Runtime.step left [.upsert ⟨"n", "a", .queued⟩, .reload,
        .settled ⟨.poll, "a", 1⟩ (.ok [⟨"m", "a", .processing⟩])] = some t ∧
      r.timers.length ≤ 1 ∧ t.timers = [] ∧ t.sent = left.sent ∧ t.writes = left.writes := by
  refine ⟨_, _, _, rfl, rfl, rfl, ?_⟩
  obtain ⟨hlength, -, hleft⟩ := polling_lives_with_hook "a"
    [.mount "a", .settled ⟨.load, "a", 1⟩ (.ok [⟨"m", "a", .queued⟩]), .timeout 1] _ rfl
  obtain ⟨htimers, hsent, hwrites, -⟩ := hleft _ rfl
    [.upsert ⟨"n", "a", .queued⟩, .reload,
      .settled ⟨.poll, "a", 1⟩ (.ok [⟨"m", "a", .processing⟩])] (by simp) _ rfl
  exact ⟨hlength, htimers, hsent, hwrites⟩

end Otdel.Web
