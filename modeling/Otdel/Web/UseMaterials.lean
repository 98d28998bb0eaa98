import Otdel.Core.Status
import Otdel.Library.Run

/-!
# The materials hook

`useMaterials` keeps a partner's materials on screen.  Every callback it returns
remembers the partner it was made for; the refs belong to the hook and are
shared by all of them.  One event is one turn of the event loop: a render with
another partner runs the cleanup and the effect of the switch.
-/

namespace Otdel.Web

structure Material where
  id : String
  partnerId : String
  status : MaterialStatus
  deriving DecidableEq, Repr

def pendingStatuses : List MaterialStatus := [.queued, .processing]

def hasPending (items : List Material) : Bool :=
  items.any fun m ↦ m.status ∈ pendingStatuses

/-- A request of `listMaterials`: from `load` or from the timer of `armPoll`. -/
inductive ListKind where
  | load
  | poll
  deriving DecidableEq, Repr

/-- A list request under way, with what its continuation remembers. -/
structure ListRequest where
  kind : ListKind
  partnerId : String
  epoch : ℕ
  deriving DecidableEq, Repr

/-- The pending `setTimeout` of `armPoll`. -/
structure PollTimer where
  partnerId : String
  epoch : ℕ
  deriving DecidableEq, Repr

/-- The hook.  `rendered` lists the partners its callbacks were made for, and
`sent` every list request with the partner shown when it was sent. -/
structure Hook where
  partnerId : String
  materials : Option (List Material)
  loadError : Option String
  materialsRef : List Material
  timer : Option PollTimer
  epoch : ℕ
  activeEpoch : ℕ
  mounted : Bool
  inFlight : List ListRequest
  rendered : List String
  sent : List (String × String)
  deriving DecidableEq, Repr

namespace Hook

/-- The first render, before its effect. -/
def initial (partnerId : String) : Hook where
  partnerId := partnerId
  materials := none
  loadError := none
  materialsRef := []
  timer := none
  epoch := 0
  activeEpoch := 0
  mounted := false
  inFlight := []
  rendered := [partnerId]
  sent := []

def clearTimer (s : Hook) : Hook := { s with timer := none }

def armPoll (partnerId : String) (epoch : ℕ) (s : Hook) : Hook :=
  { s with timer := some ⟨partnerId, epoch⟩ }

/-- Keep the list and show it. -/
def display (items : List Material) (s : Hook) : Hook :=
  { s with materialsRef := items, materials := some items }

/-- Hand a list request to `runRead`. -/
def send (request : ListRequest) (s : Hook) : Hook :=
  { s with
    inFlight := request :: s.inFlight
    sent := (request.partnerId, s.partnerId) :: s.sent }

/-- The callback of the timer. -/
def fire (timer : PollTimer) (s : Hook) : Hook :=
  send ⟨.poll, timer.partnerId, timer.epoch⟩ s.clearTimer

def load (partnerId : String) (epoch : ℕ) (s : Hook) : Hook :=
  send ⟨.load, partnerId, epoch⟩ { s with loadError := none }

/-- The body of the effect. -/
def runEffect (s : Hook) : Hook :=
  load s.partnerId (s.epoch + 1) <| clearTimer
    { s with
      epoch := s.epoch + 1
      activeEpoch := s.epoch + 1
      mounted := true
      materialsRef := []
      materials := none
      loadError := none }

/-- The function the effect returns. -/
def cleanup (s : Hook) : Hook :=
  clearTimer { s with epoch := s.epoch + 1, mounted := false }

/-- A render with `partnerId`; its callbacks are made for it. -/
def render (partnerId : String) (s : Hook) : Hook :=
  { s with partnerId := partnerId, rendered := partnerId :: s.rendered }

/-- `err.message`, or the fallback of the request when an error carries none. -/
def failureMessage (kind : ListKind) (message : Option String) : String :=
  message.getD <| match kind with
    | .load => "Не удалось загрузить материалы."
    | .poll => "Не удалось обновить статус материалов."

/-- The continuation of a list request. -/
def settle (request : ListRequest) (outcome : Except (Option String) (List Material))
    (s : Hook) : Hook :=
  if s.epoch ≠ request.epoch then s
  else match outcome with
    | .ok items =>
        let shown := s.display items
        let shown := match request.kind with
          | .load => shown
          | .poll => { shown with loadError := none }
        if hasPending items then armPoll request.partnerId request.epoch shown else shown
    | .error message => { s with loadError := some (failureMessage request.kind message) }

/-- The list with the material in the place of the one with its id, or in front. -/
def withMaterial (material : Material) (list : List Material) : List Material :=
  match list.findIdx? fun m ↦ m.id = material.id with
  | some index => list.set index material
  | none => material :: list

def upsert (captured : String) (material : Material) (s : Hook) : Hook :=
  if s.mounted = false then s
  else if material.partnerId ≠ captured then s
  else
    let next := withMaterial material s.materialsRef
    let shown := s.display next
    if hasPending next ∧ s.timer = none then armPoll captured s.activeEpoch shown else shown

def reload (captured : String) (s : Hook) : Hook :=
  if s.mounted = false then s else load captured s.activeEpoch s

end Hook

inductive HookEvent where
  | mount (partnerId : String)
  | rerender (partnerId : String)
  | unmount
  | timeout
  | settled (request : ListRequest) (outcome : Except (Option String) (List Material))
  | upsert (captured : String) (material : Material)
  | reload (captured : String)

/-- One turn of the event loop; `none` when the event cannot happen. -/
def hookStep (s : Hook) : HookEvent → Option Hook
  | .mount partnerId => if s.mounted then none else some (s.render partnerId).runEffect
  | .rerender partnerId =>
      if s.mounted = false then none
      else if partnerId = s.partnerId then some s
      else some (s.cleanup.render partnerId).runEffect
  | .unmount => if s.mounted then some s.cleanup else none
  | .timeout => s.timer.map fun timer ↦ s.fire timer
  | .settled request outcome =>
      if request ∈ s.inFlight then
        some (Hook.settle request outcome { s with inFlight := s.inFlight.erase request })
      else none
  | .upsert captured material =>
      if captured ∈ s.rendered then some (s.upsert captured material) else none
  | .reload captured => if captured ∈ s.rendered then some (s.reload captured) else none

end Otdel.Web
