import Otdel.Web.Auth

/-!
# The workspace page

The page loads the list of partners, restores a linked partner that the list
does not have, and creates and edits partners.  Each of these is a request that
the server handles at some moment, and whose response may arrive in any order.
A render runs the restore effect when the list or the link has changed.
-/

namespace Otdel.Web

structure Partner where
  id : String
  name : String
  note : Option String
  deriving DecidableEq, Repr

inductive PageRequest where
  | list
  | restore (partnerId : String)
  | create (name : String) (note : Option String)
  | edit (partnerId name : String) (note : Option String)
  deriving DecidableEq, Repr

inductive Answer where
  | items (partners : List Partner)
  | partner (partner : Partner)
  deriving DecidableEq, Repr

/-- A request under way, with the answer of the server once it has handled it. -/
structure Flight where
  number : ℕ
  request : PageRequest
  answer : Option (Except Failure Answer)
  deriving DecidableEq, Repr

/-- The page and the partners of the server.  `selected` is the
`selectedPartner` of the last render, `changed` says that the list or the link
was set after the effect ran, and `restoring` is the restore that no cleanup has
cancelled. -/
structure Page where
  partnerId : Option String
  partners : Option (List Partner)
  partnersError : Option String
  notice : Option String
  selected : Option Partner
  changed : Bool
  restoring : Option ℕ
  inFlight : List Flight
  next : ℕ
  server : List Partner
  deriving DecidableEq, Repr

/-- `err.message`, or the fallback for a value that is no `Error`. -/
def Failure.messageOr (fallback : String) : Failure → String
  | api _ _ message => message
  | error message => message
  | value => fallback

def Failure.isNotFound : Failure → Bool
  | api status _ _ => status = 404
  | _ => false

namespace Page

def ids (s : Page) : List String := (s.partners.getD []).map Partner.id

def send (request : PageRequest) (s : Page) : Page :=
  { s with inFlight := ⟨s.next, request, none⟩ :: s.inFlight, next := s.next + 1 }

def setPartners (partners : List Partner) (s : Page) : Page :=
  { s with partners := some partners, changed := true }

/-- A link that is the same is no change. -/
def setPartnerId (partnerId : Option String) (s : Page) : Page :=
  { s with partnerId := partnerId, changed := s.changed || partnerId ≠ s.partnerId }

def loadPartners (s : Page) : Page := send .list { s with partnersError := none }

/-- Mounting: the first render and its effects. -/
def initial (partnerId : Option String) (server : List Partner) : Page :=
  loadPartners
    { partnerId := partnerId, partners := none, partnersError := none, notice := none,
      selected := none, changed := false, restoring := none, inFlight := [], next := 0,
      server := server }

def selectedPartner (s : Page) : Option Partner :=
  s.partnerId.bind fun partnerId ↦ (s.partners.getD []).find? fun p ↦ p.id = partnerId

/-- The body of the restore effect. -/
def runEffect (s : Page) : Page :=
  match s.partnerId, s.partners with
  | some partnerId, some _ =>
      if partnerId = "" then s
      else if s.selectedPartner.isSome then { s with notice := none }
      else send (.restore partnerId) { s with restoring := some s.next }
  | _, _ => s

/-- The function the effect returns. -/
def cleanup (s : Page) : Page := { s with restoring := none }

def render (s : Page) : Page :=
  let s := { s with selected := s.selectedPartner }
  if s.changed then runEffect { s.cleanup with changed := false } else s

/-- `prev ? [...prev, partner] : [partner]` -/
def append (partner : Partner) (s : Page) : Page :=
  s.setPartners (s.partners.getD [] ++ [partner])

def selectPartner (partner : Partner) (s : Page) : Page :=
  { s.setPartnerId (some partner.id) with notice := none }

def replace (updated : Partner) (s : Page) : Page :=
  match s.partners with
  | some prev => s.setPartners (prev.map fun p ↦ if p.id = updated.id then updated else p)
  | none => s

/-- The continuation of a request. -/
def settle (number : ℕ) (request : PageRequest) (outcome : Except Failure Answer) (s : Page) :
    Page :=
  match request, outcome with
  | .list, .ok (.items items) => s.setPartners items
  | .list, .error e =>
      { s with partnersError := some (e.messageOr "Не удалось загрузить партнёров.") }
  | .restore _, .ok (.partner partner) =>
      if s.restoring = some number then s.append partner else s
  | .restore _, .error e =>
      if s.restoring ≠ some number then s
      else if e.isNotFound then
        { s.setPartnerId none with
          notice := some "Партнёр не найден. Возможно, ссылка устарела." }
      else { s with notice := some (e.messageOr "Не удалось загрузить партнёра.") }
  | .create _ _, .ok (.partner partner) => (s.append partner).selectPartner partner
  | .edit _ _ _, .ok (.partner updated) => s.replace updated
  | _, _ => s

/-- The server handles a request; a created partner gets a new id. -/
def serve (server : List Partner) (newId : String) :
    PageRequest → Option (Except Failure Answer × List Partner)
  | .list => some (.ok (.items server), server)
  | .restore partnerId =>
      match server.find? fun p ↦ p.id = partnerId with
      | some partner => some (.ok (.partner partner), server)
      | none => some (.error (.api 404 (some "not_found") "partner not found"), server)
  | .create name note =>
      if newId ∈ server.map Partner.id then none
      else some (.ok (.partner ⟨newId, name, note⟩), server ++ [⟨newId, name, note⟩])
  | .edit partnerId name note =>
      if partnerId ∈ server.map Partner.id then
        let updated := ⟨partnerId, name, note⟩
        some (.ok (.partner updated), server.map fun p ↦ if p.id = partnerId then updated else p)
      else some (.error (.api 404 (some "not_found") "partner not found"), server)

def flight? (number : ℕ) (s : Page) : Option Flight :=
  s.inFlight.find? fun flight ↦ flight.number = number

def answered (number : ℕ) (answer : Except Failure Answer) (s : Page) : Page :=
  { s with
    inFlight := s.inFlight.map fun flight ↦
      if flight.number = number then { flight with answer := some answer } else flight }

def landed (number : ℕ) (s : Page) : Page :=
  { s with inFlight := s.inFlight.filter fun flight ↦ flight.number ≠ number }

end Page

inductive PageEvent where
  | render
  | retry
  | navigate (partnerId : Option String)
  | select (partner : Partner)
  | submitCreate (name : String) (note : Option String)
  | submitEdit (name : String) (note : Option String)
  /-- The server handles a request, or refuses it. -/
  | process (number : ℕ) (outcome : Except Failure String)
  /-- A response arrives, or the request fails on the way. -/
  | respond (number : ℕ) (lost : Option Failure)
  /-- Other clients change the partners. -/
  | elsewhere (server : List Partner)
  deriving DecidableEq

/-- One turn of the event loop, or of the server. -/
def pageStep (s : Page) : PageEvent → Option Page
  | .render => some s.render
  | .retry => if s.partnersError = none then none else some s.loadPartners
  | .navigate partnerId => some (s.setPartnerId partnerId)
  | .select partner =>
      if partner ∈ s.partners.getD [] then some (s.selectPartner partner) else none
  | .submitCreate name note => some (s.send (.create name note))
  | .submitEdit name note => s.selected.map fun partner ↦ s.send (.edit partner.id name note)
  | .process number outcome =>
      (s.flight? number).bind fun flight ↦
        if flight.answer.isSome then none
        else match outcome with
          | .error e => some (s.answered number (.error e))
          | .ok newId => (Page.serve s.server newId flight.request).map fun r ↦
              { s.answered number r.1 with server := r.2 }
  | .respond number lost =>
      (s.flight? number).bind fun flight ↦
        match lost, flight.answer with
        | some e, _ => some (Page.settle number flight.request (.error e) (s.landed number))
        | none, some answer => some (Page.settle number flight.request answer (s.landed number))
        | none, none => none
  | .elsewhere server =>
      if (server.map Partner.id).Nodup then some { s with server := server } else none

end Otdel.Web
