import Otdel.Web.UseMaterials

/-!
# The timers of the materials hook

The hook knows one timer, by the number in `timerRef`; the window keeps every
timer that was set and neither cleared nor fired.  The two agree in every run, so
the hook can be read as one that owns a single timer.
-/

namespace Otdel.Web

/-- The hook and the timers of its window.  `writes` counts the calls of
`setMaterials` and `setLoadError`. -/
structure Runtime where
  partnerId : String
  materials : Option (List Material)
  loadError : Option String
  materialsRef : List Material
  timerRef : Option ℕ
  timers : List (ℕ × PollTimer)
  nextTimer : ℕ
  epochRef : ℕ
  activeEpochRef : ℕ
  mountedRef : Bool
  inFlight : List ListRequest
  rendered : List String
  sent : List (String × String)
  writes : ℕ

namespace Runtime

/-- The first render, before its effect. -/
def initial (partnerId : String) : Runtime where
  partnerId := partnerId
  materials := none
  loadError := none
  materialsRef := []
  timerRef := none
  timers := []
  nextTimer := 1
  epochRef := 0
  activeEpochRef := 0
  mountedRef := false
  inFlight := []
  rendered := [partnerId]
  sent := []
  writes := 0

def setMaterials (items : Option (List Material)) (r : Runtime) : Runtime :=
  { r with materials := items, writes := r.writes + 1 }

def setLoadError (message : Option String) (r : Runtime) : Runtime :=
  { r with loadError := message, writes := r.writes + 1 }

/-- `window.clearTimeout` of the timer that `timerRef` names. -/
def clearTimer (r : Runtime) : Runtime :=
  match r.timerRef with
  | some number =>
      { r with
        timers := r.timers.filter fun timer ↦ timer.1 ≠ number
        timerRef := none }
  | none => r

/-- `window.setTimeout` draws a number for the timer. -/
def setTimeout (timer : PollTimer) (r : Runtime) : Runtime :=
  { r with
    timers := (r.nextTimer, timer) :: r.timers
    timerRef := some r.nextTimer
    nextTimer := r.nextTimer + 1 }

def armPoll (partnerId : String) (epoch : ℕ) (r : Runtime) : Runtime :=
  r.clearTimer.setTimeout ⟨partnerId, epoch⟩

/-- Hand a list request to `runRead`. -/
def send (request : ListRequest) (r : Runtime) : Runtime :=
  { r with
    inFlight := request :: r.inFlight
    sent := (request.partnerId, r.partnerId) :: r.sent }

/-- The callback of a timer that has fired. -/
def fire (timer : PollTimer) (r : Runtime) : Runtime :=
  send ⟨.poll, timer.partnerId, timer.epoch⟩ { r with timerRef := none }

def load (partnerId : String) (epoch : ℕ) (r : Runtime) : Runtime :=
  send ⟨.load, partnerId, epoch⟩ (r.setLoadError none)

/-- The body of the effect. -/
def runEffect (r : Runtime) : Runtime :=
  let epoch := r.epochRef + 1
  let r := { r with
    epochRef := epoch, activeEpochRef := epoch, mountedRef := true, materialsRef := [] }
  load r.partnerId epoch ((r.setMaterials none).setLoadError none).clearTimer

/-- The function the effect returns. -/
def cleanup (r : Runtime) : Runtime :=
  clearTimer { r with epochRef := r.epochRef + 1, mountedRef := false }

def render (partnerId : String) (r : Runtime) : Runtime :=
  { r with partnerId := partnerId, rendered := partnerId :: r.rendered }

/-- The continuation of a list request. -/
def settle (request : ListRequest) (outcome : Except (Option String) (List Material))
    (r : Runtime) : Runtime :=
  if r.epochRef ≠ request.epoch then r
  else match outcome with
    | .ok items =>
        let shown := { r with materialsRef := items }.setMaterials (some items)
        let shown := match request.kind with
          | .load => shown
          | .poll => shown.setLoadError none
        if hasPending items then armPoll request.partnerId request.epoch shown else shown
    | .error message => r.setLoadError (some (Hook.failureMessage request.kind message))

/-- The `upsert` of the last render. -/
def upsert (material : Material) (r : Runtime) : Runtime :=
  if r.mountedRef = false then r
  else if material.partnerId ≠ r.partnerId then r
  else
    let next := Hook.withMaterial material r.materialsRef
    let shown := { r with materialsRef := next }.setMaterials (some next)
    if hasPending next ∧ r.timerRef = none then armPoll r.partnerId r.activeEpochRef shown
    else shown

/-- The `reload` of the last render. -/
def reload (r : Runtime) : Runtime :=
  if r.mountedRef = false then r else load r.partnerId r.activeEpochRef r

end Runtime

/-- Any timer of the window may fire. -/
inductive RuntimeEvent where
  | mount (partnerId : String)
  | rerender (partnerId : String)
  | unmount
  | timeout (number : ℕ)
  | settled (request : ListRequest) (outcome : Except (Option String) (List Material))
  | upsert (material : Material)
  | reload

def Runtime.step (r : Runtime) : RuntimeEvent → Option Runtime
  | .mount partnerId => if r.mountedRef then none else some (r.render partnerId).runEffect
  | .rerender partnerId =>
      if r.mountedRef = false then none
      else if partnerId = r.partnerId then some r
      else some (r.cleanup.render partnerId).runEffect
  | .unmount => if r.mountedRef then some r.cleanup else none
  | .timeout number =>
      (r.timers.find? fun timer ↦ timer.1 = number).map fun timer ↦
        Runtime.fire timer.2
          { r with timers := r.timers.filter fun timer ↦ timer.1 ≠ number }
  | .settled request outcome =>
      if request ∈ r.inFlight then
        some (Runtime.settle request outcome { r with inFlight := r.inFlight.erase request })
      else none
  | .upsert material => some (r.upsert material)
  | .reload => some r.reload

/-! ## One timer -/

namespace Runtime

/-- The hook with the timer of its window. -/
def hook (r : Runtime) : Hook where
  partnerId := r.partnerId
  materials := r.materials
  loadError := r.loadError
  materialsRef := r.materialsRef
  timer := r.timers.head?.map Prod.snd
  epoch := r.epochRef
  activeEpoch := r.activeEpochRef
  mounted := r.mountedRef
  inFlight := r.inFlight
  rendered := r.rendered
  sent := r.sent

/-- `timerRef` names the only timer there is, and a render made the callbacks. -/
structure Tracked (r : Runtime) : Prop where
  timers : r.timers.map Prod.fst = r.timerRef.toList
  rendered : r.partnerId ∈ r.rendered

theorem tracked_initial (partnerId : String) : (initial partnerId).Tracked where
  timers := rfl
  rendered := List.mem_cons_self

variable {r : Runtime}

theorem Tracked.length_le (h : r.Tracked) : r.timers.length ≤ 1 := by
  have hlength := congrArg List.length h.timers
  rw [List.length_map] at hlength
  rw [hlength]
  cases r.timerRef <;> simp

theorem Tracked.timer_eq_none (h : r.Tracked) : r.hook.timer = none ↔ r.timerRef = none := by
  have htimers := h.timers
  cases href : r.timerRef with
  | none =>
      rw [href, Option.toList_none, List.map_eq_nil_iff] at htimers
      simp [hook, htimers]
  | some number =>
      rw [href, Option.toList_some, List.map_eq_singleton_iff] at htimers
      obtain ⟨timer, htimer, -⟩ := htimers
      simp [hook, htimer]

theorem Tracked.clearTimer (h : r.Tracked) :
    r.clearTimer.Tracked ∧ r.clearTimer.timers = [] ∧ r.clearTimer.hook = r.hook.clearTimer := by
  have htimers := h.timers
  unfold Runtime.clearTimer
  cases href : r.timerRef with
  | none =>
      rw [href, Option.toList_none, List.map_eq_nil_iff] at htimers
      refine ⟨h, htimers, ?_⟩
      simp [hook, Hook.clearTimer, htimers]
  | some number =>
      rw [href, Option.toList_some, List.map_eq_singleton_iff] at htimers
      obtain ⟨timer, htimer, rfl⟩ := htimers
      have hnone : (r.timers.filter fun t ↦ decide (t.1 ≠ timer.1)) = [] := by simp [htimer]
      dsimp only
      rw [hnone]
      exact ⟨⟨rfl, h.rendered⟩, rfl, rfl⟩

theorem Tracked.armPoll (h : r.Tracked) (partnerId : String) (epoch : ℕ) :
    (r.armPoll partnerId epoch).Tracked ∧
      (r.armPoll partnerId epoch).hook = r.hook.armPoll partnerId epoch := by
  obtain ⟨hclear, hnone, heq⟩ := h.clearTimer
  refine ⟨⟨?_, hclear.rendered⟩, ?_⟩
  · simp [Runtime.armPoll, setTimeout, hnone]
  · calc (r.armPoll partnerId epoch).hook
        = r.clearTimer.hook.armPoll partnerId epoch := rfl
      _ = r.hook.armPoll partnerId epoch := by rw [heq]; rfl

/-- Firing the one timer is what the hook does with its own. -/
theorem Tracked.timeout (h : r.Tracked) {number : ℕ} {timer : ℕ × PollTimer}
    (hfind : (r.timers.find? fun t ↦ t.1 = number) = some timer) :
    r.hook.timer = some timer.2 ∧
      (fire timer.2 { r with timers := r.timers.filter fun t ↦ t.1 ≠ number }).Tracked ∧
      (fire timer.2 { r with timers := r.timers.filter fun t ↦ t.1 ≠ number }).hook =
        r.hook.fire timer.2 := by
  have htimers := h.timers
  have hmem := List.mem_of_find?_eq_some hfind
  have hnumber : timer.1 = number := by simpa using List.find?_some hfind
  cases href : r.timerRef with
  | none =>
      rw [href, Option.toList_none, List.map_eq_nil_iff] at htimers
      simp [htimers] at hmem
  | some other =>
      rw [href, Option.toList_some, List.map_eq_singleton_iff] at htimers
      obtain ⟨only, honly, -⟩ := htimers
      obtain rfl : timer = only := by simpa [honly] using hmem
      have hnone : (r.timers.filter fun t ↦ decide (t.1 ≠ number)) = [] := by
        simp [honly, hnumber]
      rw [hnone]
      refine ⟨by simp [hook, honly], ⟨rfl, h.rendered⟩, rfl⟩

/-- What a step does to the hook, the timer it fires left to the window. -/
def hookEvent (r : Runtime) : RuntimeEvent → HookEvent
  | .mount partnerId => .mount partnerId
  | .rerender partnerId => .rerender partnerId
  | .unmount => .unmount
  | .timeout _ => .timeout
  | .settled request outcome => .settled request outcome
  | .upsert material => .upsert r.partnerId material
  | .reload => .reload r.partnerId

/-- The hook as the effect leaves it to `clearTimer`. -/
def begun (r : Runtime) : Runtime :=
  setLoadError none <| setMaterials none
    { r with
      epochRef := r.epochRef + 1
      activeEpochRef := r.epochRef + 1
      mountedRef := true
      materialsRef := [] }

theorem Tracked.runEffect (h : r.Tracked) :
    r.runEffect.Tracked ∧ r.runEffect.hook = r.hook.runEffect := by
  have hbegun : r.begun.Tracked := ⟨h.timers, h.rendered⟩
  obtain ⟨hclear, -, heq⟩ := hbegun.clearTimer
  refine ⟨⟨hclear.timers, hclear.rendered⟩, ?_⟩
  calc r.runEffect.hook
      = r.begun.clearTimer.hook.load r.partnerId (r.epochRef + 1) := rfl
    _ = r.hook.runEffect := by rw [heq]; rfl

theorem Tracked.cleanup (h : r.Tracked) :
    r.cleanup.Tracked ∧ r.cleanup.timers = [] ∧ r.cleanup.hook = r.hook.cleanup := by
  have hstale : Tracked { r with epochRef := r.epochRef + 1, mountedRef := false } :=
    ⟨h.timers, h.rendered⟩
  exact hstale.clearTimer

theorem Tracked.render (h : r.Tracked) (partnerId : String) : (r.render partnerId).Tracked :=
  ⟨h.timers, List.mem_cons_self⟩

theorem Tracked.settle (h : r.Tracked) (request : ListRequest)
    (outcome : Except (Option String) (List Material)) :
    (r.settle request outcome).Tracked ∧
      (r.settle request outcome).hook = r.hook.settle request outcome := by
  have hepoch : r.hook.epoch = r.epochRef := rfl
  unfold Runtime.settle Hook.settle
  rw [hepoch]
  split
  · exact ⟨h, rfl⟩
  · cases outcome with
    | error message => exact ⟨⟨h.timers, h.rendered⟩, rfl⟩
    | ok items =>
        dsimp only
        have hshown : Tracked ({ r with materialsRef := items }.setMaterials (some items)) :=
          ⟨h.timers, h.rendered⟩
        have hcleared : Tracked (setLoadError none
            ({ r with materialsRef := items }.setMaterials (some items))) :=
          ⟨h.timers, h.rendered⟩
        cases request.kind with
        | load =>
            dsimp only
            split
            · exact hshown.armPoll request.partnerId request.epoch
            · exact ⟨hshown, rfl⟩
        | poll =>
            dsimp only
            split
            · exact hcleared.armPoll request.partnerId request.epoch
            · exact ⟨hcleared, rfl⟩

theorem Tracked.upsert (h : r.Tracked) (material : Material) :
    (r.upsert material).Tracked ∧
      (r.upsert material).hook = r.hook.upsert r.partnerId material := by
  have hmounted : r.hook.mounted = r.mountedRef := rfl
  have href : r.hook.materialsRef = r.materialsRef := rfl
  have hshown (next : List Material) :
      Tracked ({ r with materialsRef := next }.setMaterials (some next)) :=
    ⟨h.timers, h.rendered⟩
  unfold Runtime.upsert Hook.upsert
  simp only [hmounted, href, h.timer_eq_none]
  split
  · exact ⟨h, rfl⟩
  split
  · exact ⟨h, rfl⟩
  split
  · exact (hshown _).armPoll r.partnerId r.activeEpochRef
  · exact ⟨hshown _, rfl⟩

theorem Tracked.reload (h : r.Tracked) :
    r.reload.Tracked ∧ r.reload.hook = r.hook.reload r.partnerId := by
  have hmounted : r.hook.mounted = r.mountedRef := rfl
  unfold Runtime.reload Hook.reload
  rw [hmounted]
  split
  · exact ⟨h, rfl⟩
  · exact ⟨⟨h.timers, h.rendered⟩, rfl⟩

/-- The window and the hook that owns its timer take the same steps. -/
theorem Tracked.step {r' : Runtime} {e : RuntimeEvent} (h : r.Tracked)
    (hstep : r.step e = some r') :
    r'.Tracked ∧ hookStep r.hook (r.hookEvent e) = some r'.hook := by
  cases e with
  | mount partnerId =>
      simp only [Runtime.step, Option.ite_none_left_eq_some, Option.some.injEq] at hstep
      obtain ⟨hmounted, rfl⟩ := hstep
      obtain ⟨htracked, heq⟩ := (h.render partnerId).runEffect
      exact ⟨htracked, by rw [heq]; exact if_neg hmounted⟩
  | rerender partnerId =>
      simp only [Runtime.step, Option.ite_none_left_eq_some] at hstep
      obtain ⟨hmounted, hstep⟩ := hstep
      obtain ⟨hcleanup, -, hclean⟩ := h.cleanup
      obtain ⟨htracked, heq⟩ := (hcleanup.render partnerId).runEffect
      have hhook : hookStep r.hook (.rerender partnerId) =
          if partnerId = r.partnerId then some r.hook
          else some (r.hook.cleanup.render partnerId).runEffect := if_neg hmounted
      rw [Runtime.hookEvent, hhook]
      split at hstep
      · rename_i hsame
        cases hstep
        exact ⟨h, if_pos hsame⟩
      · rename_i hother
        cases hstep
        refine ⟨htracked, ?_⟩
        rw [if_neg hother, heq, ← hclean]
        rfl
  | unmount =>
      simp only [Runtime.step, Option.ite_none_right_eq_some, Option.some.injEq] at hstep
      obtain ⟨hmounted, rfl⟩ := hstep
      obtain ⟨htracked, -, heq⟩ := h.cleanup
      exact ⟨htracked, by rw [heq]; exact if_pos hmounted⟩
  | timeout number =>
      simp only [Runtime.step, Option.map_eq_some_iff] at hstep
      obtain ⟨timer, hfind, rfl⟩ := hstep
      obtain ⟨htimer, htracked, heq⟩ := h.timeout hfind
      refine ⟨htracked, ?_⟩
      rw [heq, Runtime.hookEvent, hookStep, htimer]
      rfl
  | settled request outcome =>
      simp only [Runtime.step, Option.ite_none_right_eq_some, Option.some.injEq] at hstep
      obtain ⟨hrequest, rfl⟩ := hstep
      have herased : Tracked { r with inFlight := r.inFlight.erase request } :=
        ⟨h.timers, h.rendered⟩
      obtain ⟨htracked, heq⟩ := herased.settle request outcome
      exact ⟨htracked, by rw [heq]; exact if_pos hrequest⟩
  | upsert material =>
      cases hstep
      obtain ⟨htracked, heq⟩ := h.upsert material
      exact ⟨htracked, by rw [heq]; exact if_pos h.rendered⟩
  | reload =>
      cases hstep
      obtain ⟨htracked, heq⟩ := h.reload
      exact ⟨htracked, by rw [heq]; exact if_pos h.rendered⟩

end Runtime

end Otdel.Web
