import Otdel.Library.Run

/-!
# The session on the client

`AuthProvider` sends requests and changes its state when their responses
arrive.  A response is handled by the continuation of the call that sent the
request; nothing else is remembered about the time of sending.
-/

namespace Otdel.Web

inductive AnonymousReason where
  | initial
  | expired
  | loggedOut
  deriving DecidableEq, Repr

inductive AuthState where
  | checking
  | anonymous (reason : AnonymousReason)
  | authenticated (csrfToken : String)
  | unreachable (message : String)
  deriving DecidableEq, Repr

/-- What a request rejects with: an `ApiError`, another `Error`, or a thrown
value that is none. -/
inductive Failure where
  | api (status : ℕ) (code : Option String) (message : String)
  | error (message : String)
  | value
  deriving DecidableEq, Repr

namespace Failure

def isCsrfError : Failure → Bool
  | api status code _ => status = 403 && code = some "invalid_csrf_token"
  | _ => false

def isSessionExpiredError : Failure → Bool
  | api status _ _ => status = 401
  | _ => false

/-- `err.message`, or the fallback of the session check. -/
def checkMessage : Failure → String
  | api _ _ message => message
  | error message => message
  | value => "Не удалось проверить сессию."

end Failure

/-- A request under way, by the call whose continuation waits for it. -/
inductive RequestKind where
  | check
  | login (password : String)
  | logout (csrfToken : String)
  | mutation (csrfToken : String)
  | refresh
  | replay (csrfToken : String)
  | read
  deriving DecidableEq, Repr

/-- The body of a response; the session endpoints answer with a CSRF token. -/
abbrev Outcome := Except Failure String

/-- How the promise of a call settles. -/
inductive Settled where
  | resolved (body : String)
  | rejected (error : Failure)
  | sessionExpired
  deriving DecidableEq, Repr

/-- What a continuation does: `setState`, one more request, settling the call. -/
structure Effect where
  state : Option AuthState := none
  send : Option RequestKind := none
  settled : Option Settled := none
  deriving DecidableEq, Repr

def toExpiry (error : Failure) : Effect :=
  if error.isSessionExpiredError then
    { state := some (.anonymous .expired), settled := some .sessionExpired }
  else { settled := some (.rejected error) }

/-- The continuations of `checkSession`, `login`, `logout`, `runMutation` (its
first attempt, the refresh and the replay) and `runRead`. -/
def handle : RequestKind → Outcome → Effect
  | .check, .ok token => { state := some (.authenticated token) }
  | .check, .error error =>
      if error.isSessionExpiredError then { state := some (.anonymous .initial) }
      else { state := some (.unreachable error.checkMessage) }
  | .login _, .ok token =>
      { state := some (.authenticated token), settled := some (.resolved token) }
  | .login _, .error error => { settled := some (.rejected error) }
  | .logout _, .ok body =>
      { state := some (.anonymous .loggedOut), settled := some (.resolved body) }
  | .logout _, .error error =>
      if error.isSessionExpiredError = false then { settled := some (.rejected error) }
      else { state := some (.anonymous .loggedOut), settled := some (.resolved "") }
  | .mutation _, .ok body => { settled := some (.resolved body) }
  | .mutation _, .error error =>
      if error.isCsrfError = false then toExpiry error else { send := some .refresh }
  | .refresh, .ok token =>
      { state := some (.authenticated token), send := some (.replay token) }
  | .refresh, .error error => toExpiry error
  | .replay _, .ok body => { settled := some (.resolved body) }
  | .replay _, .error error => toExpiry error
  | .read, .ok body => { settled := some (.resolved body) }
  | .read, .error error => toExpiry error

/-- A request, with the session period it was sent in: the number of times a
session had begun or ended, and whether one was open. -/
structure Request where
  kind : RequestKind
  period : ℕ
  inSession : Bool
  deriving DecidableEq, Repr

/-- The provider.  `stateRef` is the state of the last render; `period`,
`inSession` and `atRest` are bookkeeping about the run. -/
structure Provider where
  state : AuthState
  stateRef : AuthState
  inFlight : List Request
  period : ℕ
  inSession : Bool
  atRest : Bool
  deriving DecidableEq, Repr

namespace Provider

def send (kind : RequestKind) (s : Provider) : Provider :=
  { s with inFlight := ⟨kind, s.period, s.inSession⟩ :: s.inFlight }

/-- Mounting: the first render and its effect, which checks the session. -/
def initial : Provider :=
  send .check
    { state := .checking, stateRef := .checking, inFlight := [], period := 0,
      inSession := false, atRest := false }

/-- The state is set by a logout; it rests until the next login or check. -/
def setLoggedOut (s : Provider) : Provider :=
  { s with
    state := .anonymous .loggedOut
    period := s.period + 1
    inSession := false
    atRest := true }

/-- The periods that a response of this kind begins or ends by setting `state`. -/
def setState (kind : RequestKind) (state : AuthState) (s : Provider) : Provider :=
  match kind, state with
  | .refresh, .authenticated token => { s with state := .authenticated token }
  | _, .authenticated token =>
      { s with state := .authenticated token, period := s.period + 1, inSession := true }
  | _, .anonymous .loggedOut => s.setLoggedOut
  | _, .anonymous reason =>
      { s with state := .anonymous reason, period := s.period + 1, inSession := false }
  | _, state => { s with state := state }

/-- Run what a continuation asks for. -/
def apply (kind : RequestKind) (effect : Effect) (s : Provider) : Provider :=
  let s := effect.state.elim s fun state ↦ s.setState kind state
  effect.send.elim s fun next ↦ s.send next

/-- Run the continuation of a request. -/
def settle (kind : RequestKind) (outcome : Outcome) (s : Provider) : Provider :=
  s.apply kind (handle kind outcome)

def checkSession (s : Provider) : Provider := send .check { s with state := .checking }

def login (password : String) (s : Provider) : Provider := s.send (.login password)

def logout (s : Provider) : Provider :=
  match s.stateRef with
  | .authenticated csrfToken => s.send (.logout csrfToken)
  | _ => s.setLoggedOut

/-- Without a session in the last render the call is rejected at once. -/
def runMutation (s : Provider) : Provider :=
  match s.stateRef with
  | .authenticated csrfToken => s.send (.mutation csrfToken)
  | _ => s

def runRead (s : Provider) : Provider := s.send .read

end Provider

inductive AuthEvent where
  | render
  | recheck
  | login (password : String)
  | logout
  | runMutation
  | runRead
  | response (request : Request) (outcome : Outcome)
  deriving DecidableEq, Repr

/-- One turn of the event loop; a response needs its request under way. -/
def authStep (s : Provider) : AuthEvent → Option Provider
  | .render => some { s with stateRef := s.state }
  | .recheck => some { s.checkSession with atRest := false }
  | .login password => some { s.login password with atRest := false }
  | .logout => some s.logout
  | .runMutation => some s.runMutation
  | .runRead => some s.runRead
  | .response request outcome =>
      if request ∈ s.inFlight then
        some (Provider.settle request.kind outcome
          { s with inFlight := s.inFlight.erase request })
      else none

end Otdel.Web
