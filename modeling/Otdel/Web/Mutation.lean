import Otdel.Library.Transcript
import Otdel.Web.Auth

/-!
# One mutating call

`runMutation` calls `fn` with the CSRF token, fetches the session again when the
token is stale, and calls `fn` once more.  What `fn` and the session endpoint
answer is left to the transcript of the run; with no other activity in between,
the state is the one that the call itself sets.
-/

namespace Otdel.Web.Mutation

open Program

variable {α : Type}

inductive ClientOp where
  | fn (csrfToken : String)
  | fetchSession
  | setState (state : AuthState)
  deriving DecidableEq, Repr

abbrev ClientOp.Ans (α : Type) : ClientOp → Type
  | fn _ => Except Failure α
  | fetchSession => Except Failure String
  | setState _ => Unit

/-- What the call throws: a `SessionExpiredError` of its own, or an error as it came. -/
inductive Thrown where
  | sessionExpired
  | failure (error : Failure)
  deriving DecidableEq, Repr

/-- The error to throw for one that was caught; a 401 ends the session. -/
def toExpiry (error : Failure) : Program ClientOp (ClientOp.Ans α) Thrown :=
  if error.isSessionExpiredError = false then pure (.failure error)
  else (perform (ClientOp.setState (.anonymous .expired))).bind fun _ ↦ pure .sessionExpired

/-- `throw toExpiry(err)` -/
def throwExpiry {β : Type} (error : Failure) : Fallible ClientOp (ClientOp.Ans α) Thrown β :=
  (toExpiry error).bind fail

def runMutation (current : AuthState) : Fallible ClientOp (ClientOp.Ans α) Thrown α :=
  match current with
  | .authenticated csrfToken =>
      catching (perform (ClientOp.fn csrfToken)) fun error ↦
        if error.isCsrfError = false then throwExpiry error
        else do
          let fresh ← catching (perform ClientOp.fetchSession) throwExpiry
          let _ ← lift (perform (ClientOp.setState (.authenticated fresh)))
          -- a second stale token is thrown like any other error
          catching (perform (ClientOp.fn fresh)) throwExpiry
  | _ => fail .sessionExpired

/-! ## What a transcript says -/

abbrev Call (α : Type) := Sigma (ClientOp.Ans α)

/-- The tokens `fn` was called with. -/
def tokens (calls : List (Call α)) : List String :=
  calls.filterMap fun
    | ⟨.fn csrfToken, _⟩ => some csrfToken
    | _ => none

def failure? {β : Type} : Except Failure β → Option Failure
  | .ok _ => none
  | .error error => some error

/-- How the requests ended, in the order they were made. -/
def endings (calls : List (Call α)) : List (Option Failure) :=
  calls.filterMap fun
    | ⟨.fn _, outcome⟩ => some (failure? outcome)
    | ⟨.fetchSession, outcome⟩ => some (failure? outcome)
    | ⟨.setState _, _⟩ => none

/-- The last token obtained, by a run that began with this one. -/
def lastToken (csrfToken : String) (calls : List (Call α)) : String :=
  calls.foldl
    (fun token call ↦
      match call with
      | ⟨.fetchSession, .ok fresh⟩ => fresh
      | _ => token)
    csrfToken

def stateAfter (state : AuthState) (calls : List (Call α)) : AuthState :=
  calls.foldl
    (fun state call ↦
      match call with
      | ⟨.setState next, _⟩ => next
      | _ => state)
    state

section Transcripts

variable (token : String) (state next : AuthState) (outcome : Except Failure α)
  (session : Except Failure String) (calls : List (Call α))

@[simp] theorem tokens_nil : tokens ([] : List (Call α)) = [] := rfl

@[simp] theorem tokens_fn : tokens (⟨.fn token, outcome⟩ :: calls) = token :: tokens calls := rfl

@[simp] theorem tokens_fetchSession :
    tokens (⟨.fetchSession, session⟩ :: calls) = tokens calls := rfl

@[simp] theorem tokens_setState : tokens (⟨.setState next, ()⟩ :: calls) = tokens calls := rfl

@[simp] theorem endings_nil : endings ([] : List (Call α)) = [] := rfl

@[simp] theorem endings_fn :
    endings (⟨.fn token, outcome⟩ :: calls) = failure? outcome :: endings calls := rfl

@[simp] theorem endings_fetchSession :
    endings (⟨.fetchSession, session⟩ :: calls) = failure? session :: endings calls := rfl

@[simp] theorem endings_setState : endings (⟨.setState next, ()⟩ :: calls) = endings calls := rfl

@[simp] theorem lastToken_nil : lastToken token ([] : List (Call α)) = token := rfl

@[simp] theorem lastToken_fn (called : String) :
    lastToken token (⟨.fn called, outcome⟩ :: calls) = lastToken token calls := rfl

@[simp] theorem lastToken_fetchSession (fresh : String) :
    lastToken token (⟨.fetchSession, .ok fresh⟩ :: calls) = lastToken fresh calls := rfl

@[simp] theorem lastToken_unfetched (error : Failure) :
    lastToken token (⟨.fetchSession, .error error⟩ :: calls) = lastToken token calls := rfl

@[simp] theorem lastToken_setState :
    lastToken token (⟨.setState next, ()⟩ :: calls) = lastToken token calls := rfl

@[simp] theorem stateAfter_nil : stateAfter state ([] : List (Call α)) = state := rfl

@[simp] theorem stateAfter_fn :
    stateAfter state (⟨.fn token, outcome⟩ :: calls) = stateAfter state calls := rfl

@[simp] theorem stateAfter_fetchSession :
    stateAfter state (⟨.fetchSession, session⟩ :: calls) = stateAfter state calls := rfl

@[simp] theorem stateAfter_setState :
    stateAfter state (⟨.setState next, ()⟩ :: calls) = stateAfter next calls := rfl

end Transcripts

/-- The first call of `fn` found its token stale. -/
def Stale (csrfToken : String) (calls : List (Call α)) : Prop :=
  ∃ error, calls.head? = some ⟨.fn csrfToken, .error error⟩ ∧ error.isCsrfError = true

/-- What a run in a session did, and how it left the session. -/
structure ReplaysOnce (csrfToken : String) (calls : List (Call α)) (result : Except Thrown α) :
    Prop where
  first : (tokens calls).head? = some csrfToken
  atMost : (tokens calls).length ≤ 2
  second : ∀ token, tokens calls = [csrfToken, token] ↔
    Stale csrfToken calls ∧ ⟨.fetchSession, .ok token⟩ ∈ calls
  value : ∀ a, result = .ok a ↔ ∃ token, ⟨.fn token, .ok a⟩ ∈ calls
  expired : ∀ error, (endings calls).getLast? = some (some error) →
    error.isSessionExpiredError = true →
      stateAfter (.authenticated csrfToken) calls = .anonymous .expired ∧
        result = .error .sessionExpired
  other : ∀ error, (endings calls).getLast? = some (some error) →
    error.isSessionExpiredError = false →
      stateAfter (.authenticated csrfToken) calls = .authenticated (lastToken csrfToken calls) ∧
        result = .error (.failure error)

/-! ## The runs of a call -/

section Runs

variable {β : Type} {calls : List (Call α)} {csrfToken : String} {error : Failure}

/-- How a request that failed for good ends its call. -/
inductive Throws (error : Failure) : List (Call α) → Thrown → Prop
  | expired (h : error.isSessionExpiredError = true) :
      Throws error [⟨.setState (.anonymous .expired), ()⟩] .sessionExpired
  | failure (h : error.isSessionExpiredError = false) : Throws error [] (.failure error)

theorem throws_of_performs {r : Except Thrown β}
    (h : Performs (throwExpiry error : Fallible ClientOp (ClientOp.Ans α) Thrown β) calls r) :
    ∃ thrown, r = .error thrown ∧ Throws error calls thrown := by
  obtain ⟨first, thrown, second, rfl, hto, hfail⟩ := performs_bind.mp h
  obtain ⟨rfl, rfl⟩ := performs_done.mp hfail
  refine ⟨thrown, rfl, ?_⟩
  rw [List.append_nil]
  unfold toExpiry at hto
  by_cases hexpired : error.isSessionExpiredError = false
  · rw [if_pos hexpired] at hto
    obtain ⟨rfl, rfl⟩ := performs_done.mp hto
    exact .failure hexpired
  · rw [if_neg hexpired] at hto
    obtain ⟨set, ⟨⟩, rest, rfl, hset, hdone⟩ := performs_bind.mp hto
    obtain ⟨rfl, rfl⟩ := performs_done.mp hdone
    rw [performs_perform.mp hset]
    exact .expired (by simpa using hexpired)

/-- The runs of a call that begins in a session. -/
inductive Runs (csrfToken : String) : List (Call α) → Except Thrown α → Prop
  | resolved (a : α) : Runs csrfToken [⟨.fn csrfToken, .ok a⟩] (.ok a)
  | rejected {error : Failure} {tail : List (Call α)} {thrown : Thrown}
      (hfresh : error.isCsrfError = false) (h : Throws error tail thrown) :
      Runs csrfToken (⟨.fn csrfToken, .error error⟩ :: tail) (.error thrown)
  | unrefreshed {stale error : Failure} {tail : List (Call α)} {thrown : Thrown}
      (hstale : stale.isCsrfError = true) (h : Throws error tail thrown) :
      Runs csrfToken
        (⟨.fn csrfToken, .error stale⟩ :: ⟨.fetchSession, .error error⟩ :: tail) (.error thrown)
  | replayed {stale : Failure} {fresh : String} {a : α} (hstale : stale.isCsrfError = true) :
      Runs csrfToken
        [⟨.fn csrfToken, .error stale⟩, ⟨.fetchSession, .ok fresh⟩,
          ⟨.setState (.authenticated fresh), ()⟩, ⟨.fn fresh, .ok a⟩] (.ok a)
  | replayRejected {stale error : Failure} {fresh : String} {tail : List (Call α)}
      {thrown : Thrown} (hstale : stale.isCsrfError = true) (h : Throws error tail thrown) :
      Runs csrfToken
        (⟨.fn csrfToken, .error stale⟩ :: ⟨.fetchSession, .ok fresh⟩ ::
          ⟨.setState (.authenticated fresh), ()⟩ :: ⟨.fn fresh, .error error⟩ :: tail)
        (.error thrown)

theorem runs_of_performs {r : Except Thrown α}
    (h : Performs (runMutation (.authenticated csrfToken)) calls r) : Runs csrfToken calls r := by
  rcases performs_catching.mp h with ⟨a, rfl, hfirst⟩ | ⟨stale, first, rest, rfl, hfirst, hrest⟩
  · rw [performs_perform.mp hfirst]
    exact .resolved a
  rw [performs_perform.mp hfirst]
  by_cases hstale : stale.isCsrfError = false
  · rw [if_pos hstale] at hrest
    obtain ⟨thrown, rfl, hthrows⟩ := throws_of_performs hrest
    exact .rejected hstale hthrows
  rw [if_neg hstale] at hrest
  rw [Bool.not_eq_false] at hstale
  obtain ⟨session, refreshed, rest, rfl, hsession, hrest⟩ := performs_bind.mp hrest
  rcases performs_catching.mp hsession with
    ⟨fresh, rfl, hfetch⟩ | ⟨error, fetch, tail, rfl, hfetch, hthrow⟩
  · rw [performs_perform.mp hfetch]
    obtain ⟨lifted, _, rest, rfl, hlift, hrest⟩ := performs_bind.mp hrest
    obtain ⟨set, ⟨⟩, nothing, rfl, hset, hdone⟩ := performs_bind.mp hlift
    obtain ⟨rfl, rfl⟩ := performs_done.mp hdone
    rw [performs_perform.mp hset]
    rcases performs_catching.mp hrest with
      ⟨a, rfl, hreplay⟩ | ⟨error, replay, tail, rfl, hreplay, hthrow⟩
    · rw [performs_perform.mp hreplay]
      exact .replayed hstale
    · rw [performs_perform.mp hreplay]
      obtain ⟨thrown, rfl, hthrows⟩ := throws_of_performs hthrow
      exact .replayRejected hstale hthrows
  · rw [performs_perform.mp hfetch]
    obtain ⟨thrown, rfl, hthrows⟩ := throws_of_performs hthrow
    obtain ⟨rfl, rfl⟩ := performs_done.mp hrest
    rw [List.append_nil]
    exact .unrefreshed hstale hthrows

/-- The end of a call that throws makes no request and obtains no token. -/
theorem Throws.quiet {tail : List (Call α)} {thrown : Thrown} (h : Throws error tail thrown) :
    tokens tail = [] ∧ endings tail = [] ∧ (∀ token outcome, ⟨.fn token, outcome⟩ ∉ tail) ∧
      (∀ outcome, ⟨.fetchSession, outcome⟩ ∉ tail) ∧
        ∀ token, lastToken token tail = token := by
  cases h with
  | expired h => simp
  | failure h => simp

theorem Throws.ends {tail : List (Call α)} {thrown : Thrown} (h : Throws error tail thrown)
    (state : AuthState) :
    (error.isSessionExpiredError = true →
        stateAfter state tail = .anonymous .expired ∧ thrown = .sessionExpired) ∧
      (error.isSessionExpiredError = false →
        stateAfter state tail = state ∧ thrown = .failure error) := by
  cases h with
  | expired h => simp [h]
  | failure h => simp [h]

theorem stale_iff {outcome : Except Failure α} :
    Stale csrfToken (⟨.fn csrfToken, outcome⟩ :: calls) ↔
      ∃ error, outcome = .error error ∧ error.isCsrfError = true := by
  simp [Stale]

/-- Whatever it calls and however that ends. -/
theorem Runs.replaysOnce {r : Except Thrown α} (h : Runs csrfToken calls r) :
    ReplaysOnce csrfToken calls r := by
  cases h with
  | resolved a =>
      constructor
      case value =>
        intro b
        simp [eq_comm]
      all_goals simp [failure?, stale_iff]
  | @rejected error tail thrown hfresh h =>
      obtain ⟨htokens, hendings, hfn, hfetch, hlast⟩ := h.quiet
      have hends := h.ends (.authenticated csrfToken)
      constructor <;> simp_all [failure?, stale_iff]
  | @unrefreshed stale error tail thrown hstale h =>
      obtain ⟨htokens, hendings, hfn, hfetch, hlast⟩ := h.quiet
      have hends := h.ends (.authenticated csrfToken)
      constructor <;> simp_all [failure?, stale_iff]
  | @replayed stale fresh a hstale =>
      constructor
      case value =>
        intro b
        simp [eq_comm]
      case second =>
        intro token
        simpa [stale_iff, hstale] using eq_comm
      all_goals simp [failure?]
  | @replayRejected stale error fresh tail thrown hstale h =>
      obtain ⟨htokens, hendings, hfn, hfetch, hlast⟩ := h.quiet
      have hends := h.ends (.authenticated fresh)
      constructor
      case second =>
        intro token
        simpa [stale_iff, hstale, htokens, hfetch] using eq_comm
      all_goals simp_all [failure?]

end Runs

/-! ## The provider -/

def IsRequest : Call α → Bool
  | ⟨.setState _, _⟩ => false
  | _ => true

/-- The request that a response of the provider answers. -/
def answered : RequestKind × Outcome → Option (Call String)
  | (.mutation csrfToken, outcome) => some ⟨.fn csrfToken, outcome⟩
  | (.replay csrfToken, outcome) => some ⟨.fn csrfToken, outcome⟩
  | (.refresh, outcome) => some ⟨.fetchSession, outcome⟩
  | _ => none

/-- The turns of the provider when a call and its responses are all that happens. -/
def turns (s : Provider) (responses : List (RequestKind × Outcome)) : List AuthEvent :=
  .runMutation :: responses.map fun r ↦ .response ⟨r.1, s.period, s.inSession⟩ r.2

theorem run_response {s : Provider} {kind : RequestKind} {period : ℕ} {inSession : Bool}
    {rest : List Request} {outcome : Outcome} {later : List AuthEvent}
    (h : s.inFlight = ⟨kind, period, inSession⟩ :: rest) :
    Run.run authStep s (.response ⟨kind, period, inSession⟩ outcome :: later) =
      Run.run authStep (Provider.settle kind outcome { s with inFlight := rest }) later := by
  simp [Run.run_cons, authStep, h]

/-- The provider ends a call that throws in the same state. -/
theorem Throws.settle {error : Failure} {tail : List (Call String)} {thrown : Thrown}
    (h : Throws error tail thrown) {kind : RequestKind}
    (hkind : handle kind (.error error) = Web.toExpiry error) (s : Provider) :
    (s.settle kind (.error error)).state = stateAfter s.state tail ∧
      (s.settle kind (.error error)).inFlight = s.inFlight := by
  unfold Provider.settle
  rw [hkind]
  cases h with
  | expired h =>
      unfold Web.toExpiry
      rw [if_pos h]
      cases kind <;> exact ⟨rfl, rfl⟩
  | failure h =>
      unfold Web.toExpiry
      rw [if_neg (by simp [h])]
      exact ⟨rfl, rfl⟩

theorem settle_stale {stale : Failure} (h : stale.isCsrfError = true) (csrfToken : String)
    (s : Provider) : s.settle (.mutation csrfToken) (.error stale) = s.send .refresh := by
  unfold Provider.settle
  simp only [handle, h, Bool.true_eq_false, if_false]
  rfl

theorem handle_fresh {error : Failure} (h : error.isCsrfError = false) (csrfToken : String) :
    handle (.mutation csrfToken) (.error error) = Web.toExpiry error := by
  simp [handle, h]

/-- The continuations of the provider set the states that the call sets. -/
theorem provider_runs {s : Provider} {csrfToken : String} {calls : List (Call String)}
    {r : Except Thrown String} (href : s.stateRef = .authenticated csrfToken)
    (h : Performs (runMutation s.stateRef) calls r) :
    ∃ responses t, responses.filterMap answered = calls.filter IsRequest ∧
      Run.run authStep s (turns s responses) = some t ∧
        t.state = stateAfter s.state calls ∧ t.inFlight = s.inFlight := by
  rw [href] at h
  have hsent (responses : List (RequestKind × Outcome)) :
      Run.run authStep s (turns s responses) =
        Run.run authStep (s.send (.mutation csrfToken))
          (responses.map fun r ↦ .response ⟨r.1, s.period, s.inSession⟩ r.2) := by
    have hsend : s.runMutation = s.send (.mutation csrfToken) := by
      unfold Provider.runMutation
      rw [href]
    rw [← hsend]
    rfl
  have hstale {stale : Failure} (hcsrf : stale.isCsrfError = true)
      (responses : List (RequestKind × Outcome)) :
      Run.run authStep s (turns s ((.mutation csrfToken, .error stale) :: responses)) =
        Run.run authStep (s.send .refresh)
          (responses.map fun r ↦ .response ⟨r.1, s.period, s.inSession⟩ r.2) := by
    rw [hsent, List.map_cons, run_response rfl, settle_stale hcsrf]
    rfl
  have hfresh {stale : Failure} (hcsrf : stale.isCsrfError = true) (fresh : String)
      (responses : List (RequestKind × Outcome)) :
      Run.run authStep s
          (turns s ((.mutation csrfToken, .error stale) :: (.refresh, .ok fresh) :: responses)) =
        Run.run authStep (({ s with state := .authenticated fresh }).send (.replay fresh))
          (responses.map fun r ↦ .response ⟨r.1, s.period, s.inSession⟩ r.2) := by
    rw [hstale hcsrf, List.map_cons, run_response rfl]
    rfl
  cases runs_of_performs h with
  | resolved a =>
      exact ⟨[(.mutation csrfToken, .ok a)], _, rfl, (hsent _).trans (run_response rfl), rfl, rfl⟩
  | @rejected error tail thrown hcsrf hthrows =>
      obtain ⟨hended, hleft⟩ := hthrows.settle (handle_fresh hcsrf csrfToken) s
      refine ⟨[(.mutation csrfToken, .error error)], _, ?_, (hsent _).trans (run_response rfl),
        hended, hleft⟩
      cases hthrows <;> rfl
  | @unrefreshed stale error tail thrown hcsrf hthrows =>
      obtain ⟨hended, hleft⟩ := @Throws.settle error tail thrown hthrows .refresh rfl s
      refine ⟨[(.mutation csrfToken, .error stale), (.refresh, .error error)], _, ?_,
        (hstale hcsrf _).trans (run_response rfl), hended, hleft⟩
      cases hthrows <;> rfl
  | @replayed stale fresh a hcsrf =>
      exact ⟨[(.mutation csrfToken, .error stale), (.refresh, .ok fresh), (.replay fresh, .ok a)], _,
        rfl, (hfresh hcsrf fresh _).trans (run_response rfl), rfl, rfl⟩
  | @replayRejected stale error fresh tail thrown hcsrf hthrows =>
      obtain ⟨hended, hleft⟩ := @Throws.settle error tail thrown hthrows (.replay fresh) rfl
        { s with state := .authenticated fresh }
      refine ⟨[(.mutation csrfToken, .error stale), (.refresh, .ok fresh),
        (.replay fresh, .error error)], _, ?_, (hfresh hcsrf fresh _).trans (run_response rfl),
        hended, hleft⟩
      cases hthrows <;> rfl

/-! ## The call -/

/-- A call replays at most once, throws the failure of its last request, and
turns a 401 into the expired state wherever it meets it. -/
theorem runMutation_replays_once {current : AuthState} {calls : List (Call α)}
    {result : Except Thrown α} (h : Performs (runMutation current) calls result) :
    (∀ csrfToken, current = .authenticated csrfToken → ReplaysOnce csrfToken calls result) ∧
      ((∀ csrfToken, current ≠ .authenticated csrfToken) →
        tokens calls = [] ∧ stateAfter current calls = current ∧
          result = .error .sessionExpired) := by
  constructor
  · rintro csrfToken rfl
    exact (runs_of_performs h).replaysOnce
  · intro hout
    cases current with
    | authenticated csrfToken => exact absurd rfl (hout csrfToken)
    | checking =>
        obtain ⟨rfl, rfl⟩ := performs_done.mp h
        exact ⟨rfl, rfl, rfl⟩
    | anonymous reason =>
        obtain ⟨rfl, rfl⟩ := performs_done.mp h
        exact ⟨rfl, rfl, rfl⟩
    | unreachable message =>
        obtain ⟨rfl, rfl⟩ := performs_done.mp h
        exact ⟨rfl, rfl, rfl⟩

/-- The session ends between the refresh and the replay. -/
theorem runMutation_replays_once_expired :
    let stale : Failure := .api 403 (some "invalid_csrf_token") "stale"
    let expired : Failure := .api 401 (some "unauthorized") "expired"
    let calls : List (Call ℕ) :=
      [⟨.fn "initial-token", .error stale⟩, ⟨.fetchSession, .ok "fresh-token"⟩,
        ⟨.setState (.authenticated "fresh-token"), ()⟩, ⟨.fn "fresh-token", .error expired⟩,
        ⟨.setState (.anonymous .expired), ()⟩]
    Performs (runMutation (.authenticated "initial-token")) calls (.error .sessionExpired) ∧
      ReplaysOnce "initial-token" calls (.error .sessionExpired) := by
  intro stale expired calls
  have hperforms : Performs (runMutation (.authenticated "initial-token")) calls
      (.error .sessionExpired) := .call (.call (.call (.call (.call (.done _)))))
  exact ⟨hperforms, (runMutation_replays_once hperforms).1 "initial-token" rfl⟩

end Otdel.Web.Mutation
