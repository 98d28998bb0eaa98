import Otdel.Web.Auth

/-!
# Responses that arrive in another session

The continuations set the state whenever their response arrives.  A run keeps
its sessions apart when no response that tells of the session comes for a request
of an earlier one.
-/

namespace Otdel.Web

open Run

/-- What a step owes to the session periods.  A response to a request of an
earlier session leaves the state alone, a logout rests until the next login or
check, and a 401 from before a new login does not expire it. -/
structure Undisturbed (s : Provider) (e : AuthEvent) (s' : Provider) : Prop where
  late : ∀ request outcome, e = .response request outcome → request.inSession = true →
    request.period < s.period → s'.state = s.state
  rest : s'.atRest = true → s'.state = .anonymous .loggedOut
  relogin : ∀ request error, e = .response request (.error error) →
    error.isSessionExpiredError = true → request.period < s.period →
      (∃ token, s.state = .authenticated token) → s'.state ≠ .anonymous .expired

/-- The calls that report a 401 as the end of the session. -/
def RequestKind.Authorized : RequestKind → Prop
  | .mutation _ => True
  | .refresh => True
  | .replay _ => True
  | .read => True
  | _ => False

/-- The responses that ask for a state. -/
inductive Asks : RequestKind → Outcome → AuthState → Prop
  | checked (token : String) : Asks .check (.ok token) (.authenticated token)
  | loggedIn (password token : String) :
      Asks (.login password) (.ok token) (.authenticated token)
  | refreshed (token : String) : Asks .refresh (.ok token) (.authenticated token)
  | absent {error : Failure} (h : error.isSessionExpiredError = true) :
      Asks .check (.error error) (.anonymous .initial)
  | unreachable {error : Failure} (h : error.isSessionExpiredError = false) :
      Asks .check (.error error) (.unreachable error.checkMessage)
  | loggedOut (csrfToken body : String) :
      Asks (.logout csrfToken) (.ok body) (.anonymous .loggedOut)
  | alreadyGone (csrfToken : String) {error : Failure}
      (h : error.isSessionExpiredError = true) :
      Asks (.logout csrfToken) (.error error) (.anonymous .loggedOut)
  | expired {kind : RequestKind} (hkind : kind.Authorized) {error : Failure}
      (h : error.isSessionExpiredError = true) :
      Asks kind (.error error) (.anonymous .expired)

/-- The answers that tell whether there is a session: all of the session check, the
success of a login, a logout or a refresh, and a 401 for what needs a session. -/
def TellsSession : RequestKind → Outcome → Prop
  | .check, _ => True
  | .login _, .error _ => False
  | .login _, .ok _ => True
  | .logout _, .ok _ => True
  | .refresh, .ok _ => True
  | _, .ok _ => False
  | _, .error error => error.isSessionExpiredError = true

/-- The request was sent in an earlier session, or it is a call from before the
present login, or a logout rests. -/
def Overtaken (s : Provider) (request : Request) : Prop :=
  s.atRest = true ∨ request.period < s.period ∧
    (request.inSession = true ∨
      request.kind.Authorized ∧ ∃ token, s.state = .authenticated token)

/-- The answer tells what the state shows: a 401 of a call when the session has
expired, or the answer to a logout after a logout. -/
def Repeats (state : AuthState) : RequestKind → Outcome → Prop
  | .check, _ => False
  | .login _, _ => False
  | .logout _, _ => state = .anonymous .loggedOut
  | .refresh, .ok _ => False
  | _, _ => state = .anonymous .expired

/-- No answer that tells of the session comes for a request that was overtaken. -/
def AnsweredInTime (s : Provider) : AuthEvent → Prop
  | .response request outcome =>
      TellsSession request.kind outcome → Overtaken s request →
        Repeats s.state request.kind outcome
  | _ => True

instance (kind : RequestKind) : Decidable kind.Authorized := by
  cases kind <;> unfold RequestKind.Authorized <;> infer_instance

instance (kind : RequestKind) (outcome : Outcome) : Decidable (TellsSession kind outcome) := by
  cases kind <;> cases outcome <;> unfold TellsSession <;> infer_instance

instance (state : AuthState) : Decidable (∃ token, state = .authenticated token) :=
  match state with
  | .authenticated token => isTrue ⟨token, rfl⟩
  | .checking => isFalse fun ⟨_, h⟩ ↦ AuthState.noConfusion h
  | .anonymous _ => isFalse fun ⟨_, h⟩ ↦ AuthState.noConfusion h
  | .unreachable _ => isFalse fun ⟨_, h⟩ ↦ AuthState.noConfusion h

instance (s : Provider) (request : Request) : Decidable (Overtaken s request) := by
  unfold Overtaken
  infer_instance

instance (state : AuthState) (kind : RequestKind) (outcome : Outcome) :
    Decidable (Repeats state kind outcome) := by
  cases kind <;> cases outcome <;> unfold Repeats <;> infer_instance

instance (s : Provider) (e : AuthEvent) : Decidable (AnsweredInTime s e) := by
  cases e <;> unfold AnsweredInTime <;> infer_instance

theorem isCsrfError_of_expired {error : Failure} (h : error.isSessionExpiredError = true) :
    error.isCsrfError = false := by
  cases error with
  | api status code message =>
      simp only [Failure.isSessionExpiredError, decide_eq_true_eq] at h
      simp [Failure.isCsrfError, h]
  | error message => rfl
  | value => rfl

theorem toExpiry_state {error : Failure} {target : AuthState} :
    (toExpiry error).state = some target ↔
      error.isSessionExpiredError = true ∧ target = .anonymous .expired := by
  unfold toExpiry
  split
  · rename_i h
    simp [h, eq_comm]
  · rename_i h
    simp [h]

/-- A continuation sets the state that its response asks for. -/
theorem handle_state {kind : RequestKind} {outcome : Outcome} {target : AuthState} :
    (handle kind outcome).state = some target ↔ Asks kind outcome target := by
  constructor
  · intro h
    cases kind with
    | check =>
        cases outcome with
        | ok token =>
            cases h
            exact .checked token
        | error error =>
            simp only [handle] at h
            split at h
            · rename_i hexpired
              cases h
              exact .absent hexpired
            · rename_i hexpired
              cases h
              exact .unreachable (by simpa using hexpired)
    | login password =>
        cases outcome with
        | ok token =>
            cases h
            exact .loggedIn password token
        | error error => cases h
    | logout csrfToken =>
        cases outcome with
        | ok body =>
            cases h
            exact .loggedOut csrfToken body
        | error error =>
            simp only [handle] at h
            split at h
            · cases h
            · rename_i hexpired
              cases h
              exact .alreadyGone csrfToken (by simpa using hexpired)
    | mutation csrfToken =>
        cases outcome with
        | ok body => cases h
        | error error =>
            simp only [handle] at h
            split at h
            · obtain ⟨hexpired, rfl⟩ := toExpiry_state.mp h
              exact .expired (by trivial) hexpired
            · cases h
    | refresh =>
        cases outcome with
        | ok token =>
            cases h
            exact .refreshed token
        | error error =>
            obtain ⟨hexpired, rfl⟩ := toExpiry_state.mp h
            exact .expired (by trivial) hexpired
    | replay csrfToken =>
        cases outcome with
        | ok body => cases h
        | error error =>
            obtain ⟨hexpired, rfl⟩ := toExpiry_state.mp h
            exact .expired (by trivial) hexpired
    | read =>
        cases outcome with
        | ok body => cases h
        | error error =>
            obtain ⟨hexpired, rfl⟩ := toExpiry_state.mp h
            exact .expired (by trivial) hexpired
  · intro h
    cases h with
    | checked token => rfl
    | loggedIn password token => rfl
    | refreshed token => rfl
    | absent h => simp [handle, h]
    | unreachable h => simp [handle, h]
    | loggedOut csrfToken body => rfl
    | alreadyGone csrfToken h => simp [handle, h]
    | @expired kind hkind error h =>
        have hexpiry : (toExpiry error).state = some (.anonymous .expired) :=
          toExpiry_state.mpr ⟨h, rfl⟩
        cases kind with
        | mutation csrfToken => simpa [handle, isCsrfError_of_expired h] using hexpiry
        | refresh => exact hexpiry
        | replay csrfToken => exact hexpiry
        | read => exact hexpiry
        | check => exact hkind.elim
        | login password => exact hkind.elim
        | logout csrfToken => exact hkind.elim

theorem Asks.of_expired {kind : RequestKind} {outcome : Outcome}
    (h : Asks kind outcome (.anonymous .expired)) :
    kind.Authorized ∧ ∃ error, outcome = .error error ∧ error.isSessionExpiredError = true := by
  cases h with
  | expired hkind h => exact ⟨hkind, _, rfl, h⟩

theorem Asks.tells {kind : RequestKind} {outcome : Outcome} {target : AuthState}
    (h : Asks kind outcome target) : TellsSession kind outcome := by
  cases h with
  | checked | loggedIn | refreshed | absent | unreachable | loggedOut => trivial
  | alreadyGone csrfToken h => exact h
  | expired hkind h =>
      cases kind with
      | mutation | refresh | replay | read => exact h
      | check | login | logout => exact hkind.elim

/-- A response that repeats what the state shows asks for that state. -/
theorem Asks.eq_of_repeats {kind : RequestKind} {outcome : Outcome} {state target : AuthState}
    (h : Asks kind outcome target) (hrepeats : Repeats state kind outcome) : target = state := by
  cases h with
  | checked | loggedIn | refreshed | absent | unreachable => exact hrepeats.elim
  | loggedOut | alreadyGone => exact hrepeats.symm
  | expired hkind h =>
      cases kind with
      | mutation | refresh | replay | read => exact hrepeats.symm
      | check | login | logout => exact hkind.elim

namespace Provider

variable (kind : RequestKind) (outcome : Outcome) (s : Provider)

@[simp] theorem send_state : (s.send kind).state = s.state := rfl

@[simp] theorem send_atRest : (s.send kind).atRest = s.atRest := rfl

@[simp] theorem setState_state (state : AuthState) : (s.setState kind state).state = state := by
  unfold setState
  split <;> rfl

theorem setState_atRest (state : AuthState) :
    (s.setState kind state).atRest = true ↔
      state = .anonymous .loggedOut ∨ s.atRest = true := by
  unfold setState
  split <;> simp_all [setLoggedOut]

theorem settle_state :
    (s.settle kind outcome).state = (handle kind outcome).state.getD s.state := by
  unfold settle
  rcases handle kind outcome with ⟨_ | state, _ | next, settled⟩ <;> simp [Provider.apply]

theorem settle_atRest :
    (s.settle kind outcome).atRest = true ↔
      (handle kind outcome).state = some (.anonymous .loggedOut) ∨ s.atRest = true := by
  unfold settle
  rcases handle kind outcome with ⟨_ | state, _ | next, settled⟩ <;>
    simp [Provider.apply, setState_atRest]

/-- A provider at rest is logged out. -/
def Rested (s : Provider) : Prop := s.atRest = true → s.state = .anonymous .loggedOut

end Provider

variable {s s' : Provider} {e : AuthEvent}

/-- Calls and renders never disturb a session. -/
theorem undisturbed_call (hrested : s.Rested) (hstep : authStep s e = some s')
    (hcall : ∀ request outcome, e ≠ .response request outcome) : Undisturbed s e s' := by
  have hrest : s'.Rested := by
    cases e with
    | render =>
        cases hstep
        exact hrested
    | recheck =>
        cases hstep
        intro h
        cases h
    | login password =>
        cases hstep
        intro h
        cases h
    | logout =>
        cases hstep
        unfold Provider.logout
        split
        · exact hrested
        · exact fun _ ↦ rfl
    | runMutation =>
        cases hstep
        unfold Provider.runMutation
        split
        · exact hrested
        · exact hrested
    | runRead =>
        cases hstep
        exact hrested
    | response request outcome => exact absurd rfl (hcall request outcome)
  exact ⟨fun request outcome h ↦ absurd h (hcall request outcome), hrest,
    fun request error h ↦ absurd h (hcall request (.error error))⟩

theorem settle_of_response {request : Request} {outcome : Outcome}
    (hstep : authStep s (.response request outcome) = some s') :
    s'.state = (handle request.kind outcome).state.getD s.state ∧
      (s'.atRest = true ↔
        (handle request.kind outcome).state = some (.anonymous .loggedOut) ∨ s.atRest = true) := by
  simp only [authStep, Option.ite_none_right_eq_some, Option.some.injEq] at hstep
  obtain ⟨-, rfl⟩ := hstep
  exact ⟨Provider.settle_state .., Provider.settle_atRest ..⟩

/-- A response that asks for no state disturbs no session. -/
theorem undisturbed_silent (hrested : s.Rested) {request : Request} {outcome : Outcome}
    (hstep : authStep s (.response request outcome) = some s')
    (hsilent : (handle request.kind outcome).state = none) :
    Undisturbed s (.response request outcome) s' := by
  obtain ⟨hstate, hatRest⟩ := settle_of_response hstep
  rw [hsilent, Option.getD_none] at hstate
  refine ⟨fun _ _ _ _ _ ↦ hstate, fun h ↦ ?_, fun _ _ _ _ _ hauth hexpired ↦ ?_⟩
  · rw [hatRest, hsilent] at h
    exact hstate.trans (hrested (h.resolve_left nofun))
  · obtain ⟨token, htoken⟩ := hauth
    rw [hstate, htoken] at hexpired
    cases hexpired

/-- A response in time disturbs no session. -/
theorem undisturbed_response (hrested : s.Rested) {request : Request} {outcome : Outcome}
    (hstep : authStep s (.response request outcome) = some s')
    (htime : AnsweredInTime s (.response request outcome)) :
    Undisturbed s (.response request outcome) s' := by
  cases hasked : (handle request.kind outcome).state with
  | none => exact undisturbed_silent hrested hstep hasked
  | some target =>
      have hasks : Asks request.kind outcome target := handle_state.mp hasked
      obtain ⟨hstate, hatRest⟩ := settle_of_response hstep
      rw [hasked, Option.getD_some] at hstate
      have hsame (hover : Overtaken s request) : target = s.state :=
        hasks.eq_of_repeats (htime hasks.tells hover)
      refine ⟨?_, fun h ↦ ?_, ?_⟩
      · rintro request' outcome' heq hin hperiod
        cases heq
        exact hstate.trans (hsame (.inr ⟨hperiod, .inl hin⟩))
      · rw [hatRest, hasked, Option.some.injEq] at h
        rcases h with rfl | h
        · exact hstate
        · rw [hstate, hsame (.inl h)]
          exact hrested h
      · rintro request' error heq _ hperiod hauth hexpired
        cases heq
        rw [hstate] at hexpired
        subst hexpired
        have hover : Overtaken s request := .inr ⟨hperiod, .inr ⟨hasks.of_expired.1, hauth⟩⟩
        obtain ⟨token, htoken⟩ := hauth
        rw [← hsame hover] at htoken
        cases htoken

theorem undisturbed_of_inTime (hrested : s.Rested) (hstep : authStep s e = some s')
    (htime : AnsweredInTime s e) : Undisturbed s e s' := by
  by_cases hresponse : ∃ request outcome, e = .response request outcome
  · obtain ⟨request, outcome, rfl⟩ := hresponse
    exact undisturbed_response hrested hstep htime
  · exact undisturbed_call hrested hstep fun request outcome h ↦ hresponse ⟨request, outcome, h⟩

/-! ## Requests that must not be overtaken -/

section Whatever

variable {request : Request}

/-- Whatever this request is answered, no session is disturbed. -/
def Harmless (s : Provider) (request : Request) : Prop :=
  ∀ outcome s', authStep s (.response request outcome) = some s' →
    Undisturbed s (.response request outcome) s'

/-- What an overtaken request asks for is the state already, but for a refresh
that comes after another login. -/
theorem Harmless.asks_state (hharmless : Harmless s request) (hrested : s.Rested)
    (hrequest : request ∈ s.inFlight) (hover : Overtaken s request) {outcome : Outcome}
    {target : AuthState} (hasks : Asks request.kind outcome target) :
    target = s.state ∨
      request.kind.Authorized ∧ (∃ token, s.state = .authenticated token) ∧
        target ≠ .anonymous .expired := by
  obtain ⟨s', hstep⟩ : ∃ s', authStep s (.response request outcome) = some s' :=
    ⟨_, if_pos hrequest⟩
  have hasked := handle_state.mpr hasks
  have hundisturbed := hharmless outcome s' hstep
  obtain ⟨hstate, hatRest⟩ := settle_of_response hstep
  rw [hasked, Option.getD_some] at hstate
  rcases hover with hrest | ⟨hperiod, hin | ⟨hkind, hauth⟩⟩
  · left
    rw [← hstate, hundisturbed.rest (hatRest.mpr (.inr hrest)), hrested hrest]
  · left
    rw [← hstate, hundisturbed.late request outcome rfl hin hperiod]
  · refine .inr ⟨hkind, hauth, fun hexpired ↦ ?_⟩
    subst hexpired
    obtain ⟨-, error, rfl, h⟩ := hasks.of_expired
    exact hundisturbed.relogin request error rfl h hperiod hauth hstate

/-- A call that was overtaken can be answered only when the session has expired. -/
theorem Harmless.expired (hharmless : Harmless s request) (hrested : s.Rested)
    (hrequest : request ∈ s.inFlight) (hover : Overtaken s request)
    (hkind : request.kind.Authorized) : s.state = .anonymous .expired := by
  have hasks : Asks request.kind (.error (.api 401 none "")) (.anonymous .expired) :=
    .expired hkind rfl
  rcases hharmless.asks_state hrested hrequest hover hasks with h | ⟨-, -, h⟩
  · exact h.symm
  · exact absurd rfl h

/-- A request can be answered at any time exactly when it was not overtaken, or
tells only what the state shows. -/
theorem harmless_iff (hrested : s.Rested) (hrequest : request ∈ s.inFlight) :
    (∀ outcome, AnsweredInTime s (.response request outcome)) ↔ Harmless s request := by
  constructor
  · exact fun htime outcome s' hstep ↦ undisturbed_response hrested hstep (htime outcome)
  · intro hharmless outcome htells hover
    have htokens (hkind : ¬ request.kind.Authorized)
        (hasks : ∀ token, Asks request.kind (.ok token) (.authenticated token)) : False := by
      have hsame (token : String) : AuthState.authenticated token = s.state :=
        (hharmless.asks_state hrested hrequest hover (hasks token)).resolve_right
          fun h ↦ hkind h.1
      have hclash := (hsame "a").trans (hsame "b").symm
      exact absurd (AuthState.authenticated.inj hclash) (by decide)
    have hexpired := hharmless.expired hrested hrequest hover
    cases hkind : request.kind with
    | check => exact (htokens (by simp [hkind, RequestKind.Authorized])
        fun token ↦ hkind ▸ .checked token).elim
    | login password => exact (htokens (by simp [hkind, RequestKind.Authorized])
        fun token ↦ hkind ▸ .loggedIn password token).elim
    | logout csrfToken =>
        have hasks : Asks request.kind (.ok "") (.anonymous .loggedOut) :=
          hkind ▸ .loggedOut csrfToken ""
        exact ((hharmless.asks_state hrested hrequest hover hasks).resolve_right
          fun h ↦ by simp [hkind, RequestKind.Authorized] at h).symm
    | refresh =>
        have hstate := hexpired (by simp [hkind, RequestKind.Authorized])
        cases outcome with
        | error error => exact hstate
        | ok token =>
            have hasks : Asks request.kind (.ok token) (.authenticated token) :=
              hkind ▸ .refreshed token
            rcases hharmless.asks_state hrested hrequest hover hasks with h | ⟨-, ⟨_, h⟩, -⟩
            · rw [hstate] at h
              cases h
            · rw [hstate] at h
              cases h
    | mutation csrfToken => exact hexpired (by simp [hkind, RequestKind.Authorized])
    | replay csrfToken => exact hexpired (by simp [hkind, RequestKind.Authorized])
    | read => exact hexpired (by simp [hkind, RequestKind.Authorized])

end Whatever

/-- When no answer that tells of the session comes for a request that was overtaken,
no session of the run is disturbed.  In each state of such a run these are the
requests under way that may be answered in any way. -/
theorem sessions_undisturbed {events : List AuthEvent}
    (hevents : Along authStep (fun s e _ ↦ AnsweredInTime s e) Provider.initial events) :
    Along authStep Undisturbed Provider.initial events ∧
      ∀ s, run authStep Provider.initial events = some s → ∀ request ∈ s.inFlight,
        ((∀ outcome, AnsweredInTime s (.response request outcome)) ↔ Harmless s request) := by
  have hinitial : Provider.initial.Rested := by
    intro h
    cases h
  have hall : ∀ e ∈ events, (fun _ : AuthEvent ↦ True) e := fun _ _ ↦ trivial
  have hthroughout : Throughout authStep Provider.Rested Provider.initial events :=
    Along.throughout (fun s e s' _ hrested hstep htime ↦
      (undisturbed_of_inTime hrested hstep htime).rest) hall hinitial hevents
  constructor
  · refine hevents.imp (fun s e s' hrested hstep htime ↦ ?_) hinitial
    have hundisturbed := undisturbed_of_inTime hrested hstep htime
    exact ⟨hundisturbed.rest, hundisturbed⟩
  · intro s hrun request hrequest
    refine harmless_iff ?_ hrequest
    exact throughout_iff.mp hthroughout events [] s (List.append_nil _).symm hrun

/-- Two reads find the session expired; after the next login and logout only answers
arrive that tell nothing. -/
def inTime : List AuthEvent :=
  [.response ⟨.check, 0, false⟩ (.ok "csrf-1"), .render, .runRead, .runRead, .runMutation,
    .response ⟨.read, 1, true⟩ (.error (.api 401 none "")),
    .response ⟨.read, 1, true⟩ (.error (.api 401 none "")), .render, .login "secret",
    .response ⟨.login "secret", 3, false⟩ (.ok "csrf-2"), .render,
    .response ⟨.mutation "csrf-1", 1, true⟩ (.ok ""), .runRead, .logout,
    .response ⟨.logout "csrf-2", 4, true⟩ (.ok ""), .render,
    .response ⟨.read, 4, true⟩ (.ok "")]

theorem sessions_undisturbed_inTime : Along authStep Undisturbed Provider.initial inTime ∧
    (run authStep Provider.initial inTime).map Provider.state = some (.anonymous .loggedOut) :=
  ⟨(sessions_undisturbed (by decide +kernel)).1, by decide +kernel⟩

/-- A read of the first session is answered with 401 after the logout. -/
def lateRead : List AuthEvent :=
  [.response ⟨.check, 0, false⟩ (.ok "csrf-1"), .render, .runRead, .logout,
    .response ⟨.logout "csrf-1", 1, true⟩ (.ok ""),
    .response ⟨.read, 1, true⟩ (.error (.api 401 (some "unauthorized") ""))]

theorem late_read_expires_logout :
    ¬ Along authStep Undisturbed Provider.initial lateRead := by
  intro h
  have hlast := (along_iff.mp h) (lateRead.take 5) _ [] _ _ rfl rfl rfl
  have hstate := hlast.late _ _ rfl rfl (by decide)
  exact absurd hstate (by decide)

end Otdel.Web
