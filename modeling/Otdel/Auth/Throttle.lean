import Mathlib

/-!
# Login throttling

`LoginThrottle` keeps one `Attempts` record per client key.  Every call of
`reserve_at` first evicts the stale records of all clients, so the table of
one client depends on when the others called.  The second half of the module
shows that this is not observable: each client is answered by an automaton
that is fed its own calls only and never evicts anything.
-/

namespace Otdel.Throttle

/-- The last representable `Instant`, in nanoseconds of the monotonic clock:
signed 64-bit seconds and a nanosecond part. -/
def lastInstant : ℕ := (2 ^ 63 - 1) * 1000000000 + 999999999

/-- `Instant + Duration`; `none` is the panic on overflow. -/
def addDuration (now d : ℕ) : Option ℕ :=
  if now + d ≤ lastInstant then some (now + d) else none

/-- `otdel_core::config::LoginThrottle`, its durations in nanoseconds. -/
structure ThrottleConfig where
  maxFailures : ℕ
  window : ℕ
  lockout : ℕ
  deriving DecidableEq, Repr

structure Attempts where
  started : ℕ
  windowStarted : ℕ
  lockedUntil : Option ℕ
  deriving DecidableEq, Repr

/-- A record as `reserve_at` inserts it, and as it leaves a served lockout. -/
def Attempts.fresh (now : ℕ) : Attempts := ⟨0, now, none⟩

/-- Outcome of one `reserve_at`: `Ok(())`, `Err(retry_after)`, or the panic of
`now + lockout`. -/
inductive Reservation where
  | ok
  | err (retryAfter : ℕ)
  | panicked
  deriving DecidableEq, Repr

def isStale (attempts : Attempts) (now : ℕ) (window : ℕ) : Bool :=
  let lockExpired := attempts.lockedUntil.all fun lockedUntil ↦ decide (lockedUntil ≤ now)
  lockExpired && decide (now - attempts.windowStarted > window)

/-- The window check of `reserve_at`. -/
def openWindow (config : ThrottleConfig) (entry : Attempts) (now : ℕ) : Attempts :=
  if now - entry.windowStarted > config.window then
    { entry with started := 0, windowStarted := now }
  else entry

/-- The limit check of `reserve_at`. -/
def countAttempt (config : ThrottleConfig) (entry : Attempts) (now : ℕ) :
    Reservation × Attempts :=
  if entry.started ≥ config.maxFailures then
    match addDuration now config.lockout with
    | some lockedUntil => (.err config.lockout, { entry with lockedUntil := some lockedUntil })
    | none => (.panicked, entry)
  else (.ok, { entry with started := entry.started + 1 })

/-- `reserve_at` on the record of its own key. -/
def reserveEntry (config : ThrottleConfig) (entry : Attempts) (now : ℕ) :
    Reservation × Attempts :=
  match entry.lockedUntil with
  | some lockedUntil =>
      if lockedUntil > now then (.err (lockedUntil - now), entry)
      else countAttempt config (openWindow config (Attempts.fresh now) now) now
  | none => countAttempt config (openWindow config entry now) now

/-- The `HashMap<String, Attempts>` behind the mutex. -/
abbrev Table := String → Option Attempts

def Table.empty : Table := fun _ ↦ none

/-- `state.retain(|_, attempts| !Self::is_stale(..))`. -/
def Table.retain (state : Table) (now : ℕ) (window : ℕ) : Table :=
  fun key ↦ (state key).filter fun attempts ↦ !isStale attempts now window

def reserveAt (config : ThrottleConfig) (state : Table) (key : String) (now : ℕ) :
    Reservation × Table :=
  let state := state.retain now config.window
  let entry := (state key).getD (Attempts.fresh now)
  let (answer, entry) := reserveEntry config entry now
  (answer, Function.update state key (some entry))

def recordSuccess (state : Table) (key : String) : Table :=
  Function.update state key none

inductive Call where
  | reserveAt (key : String) (now : ℕ)
  | recordSuccess (key : String)
  deriving DecidableEq, Repr

namespace Call

def key : Call → String
  | .reserveAt key _ => key
  | .recordSuccess key => key

/-- `record_success` reads no clock. -/
def time : Call → Option ℕ
  | .reserveAt _ now => some now
  | .recordSuccess _ => none

end Call

/-- The answer of a call, `none` for the unit result of `record_success`, and
the table it leaves. -/
def step (config : ThrottleConfig) (state : Table) : Call → Option Reservation × Table
  | .reserveAt key now =>
      ((reserveAt config state key now).1, (reserveAt config state key now).2)
  | .recordSuccess key => (none, recordSuccess state key)

def final (config : ThrottleConfig) (state : Table) : List Call → Table
  | [] => state
  | call :: calls => final config (step config state call).2 calls

/-- The calls of a run paired with their answers. -/
def trace (config : ThrottleConfig) (state : Table) :
    List Call → List (Call × Option Reservation)
  | [] => []
  | call :: calls =>
      (call, (step config state call).1) :: trace config (step config state call).2 calls

/-- The clock never goes backwards along the calls. -/
def NonDecreasing (calls : List Call) : Prop :=
  (calls.filterMap Call.time).Pairwise (· ≤ ·)

/-! ## The automaton of one client -/

inductive ClientCall where
  | reserve (now : ℕ)
  | success
  deriving DecidableEq, Repr

/-- What `call` is to the client `key`. -/
def Call.toClient (key : String) : Call → Option ClientCall
  | .reserveAt k now => if k = key then some (.reserve now) else none
  | .recordSuccess k => if k = key then some .success else none

/-- One client alone: no table, no eviction. -/
def clientStep (config : ThrottleConfig) (client : Option Attempts) :
    ClientCall → Option Reservation × Option Attempts
  | .reserve now =>
      let (answer, entry) := reserveEntry config (client.getD (Attempts.fresh now)) now
      (some answer, some entry)
  | .success => (none, none)

def clientFinal (config : ThrottleConfig) (client : Option Attempts) :
    List ClientCall → Option Attempts
  | [] => client
  | call :: calls => clientFinal config (clientStep config client call).2 calls

def clientAnswers (config : ThrottleConfig) (client : Option Attempts) :
    List ClientCall → List (Option Reservation)
  | [] => []
  | call :: calls =>
      (clientStep config client call).1 ::
        clientAnswers config (clientStep config client call).2 calls

/-- The answers that `key` received. -/
def answersFor (key : String) (answered : List (Call × Option Reservation)) :
    List (Option Reservation) :=
  (answered.filter fun p ↦ decide (p.1.key = key)).map Prod.snd

/-! ## Eviction -/

theorem isStale_iff (attempts : Attempts) (now : ℕ) (window : ℕ) :
    isStale attempts now window = true ↔
      (∀ lockedUntil, attempts.lockedUntil = some lockedUntil → lockedUntil ≤ now) ∧
        window < now - attempts.windowStarted := by
  simp [isStale, Option.all_eq_true]

theorem isStale_mono {attempts : Attempts} {now later : ℕ} {window : ℕ}
    (hle : now ≤ later) (h : isStale attempts now window = true) :
    isStale attempts later window = true := by
  rw [isStale_iff] at h ⊢
  refine ⟨fun lockedUntil hl ↦ (h.1 lockedUntil hl).trans hle, ?_⟩
  have hwindow := h.2
  omega

theorem openWindow_fresh (config : ThrottleConfig) (now : ℕ) :
    openWindow config (Attempts.fresh now) now = Attempts.fresh now := by
  simp [openWindow, Attempts.fresh]

theorem openWindow_of_expired {config : ThrottleConfig} {entry : Attempts} {now : ℕ}
    (hlock : entry.lockedUntil = none) (h : config.window < now - entry.windowStarted) :
    openWindow config entry now = Attempts.fresh now := by
  simp [openWindow, Attempts.fresh, h, hlock]

/-- A stale record answers like no record at all: whichever of the two reset
branches it takes, the attempt starts a fresh window. -/
theorem reserveEntry_of_stale {config : ThrottleConfig} {entry : Attempts} {now : ℕ}
    (h : isStale entry now config.window = true) :
    reserveEntry config entry now = reserveEntry config (Attempts.fresh now) now := by
  obtain ⟨hlock, hwindow⟩ := (isStale_iff entry now config.window).mp h
  have hfresh : (Attempts.fresh now).lockedUntil = none := rfl
  cases hl : entry.lockedUntil with
  | none =>
      simp only [reserveEntry, hl, hfresh, openWindow_of_expired hl hwindow, openWindow_fresh]
  | some lockedUntil =>
      have hle : ¬ lockedUntil > now := not_lt.mpr (hlock lockedUntil hl)
      simp only [reserveEntry, hl, hfresh, hle, if_false]

/-- The record of a client in the table is the one of its automaton, or it was
evicted when the automaton's record had become stale. -/
def Simulates (config : ThrottleConfig) (last : ℕ) (entry client : Option Attempts) :
    Prop :=
  entry = client ∨
    entry = none ∧ ∃ attempts, client = some attempts ∧
      isStale attempts last config.window = true

theorem Simulates.mono {config : ThrottleConfig} {last now : ℕ}
    {entry client : Option Attempts} (hle : last ≤ now)
    (h : Simulates config last entry client) : Simulates config now entry client := by
  rcases h with heq | ⟨hnone, attempts, hclient, hstale⟩
  · exact Or.inl heq
  · exact Or.inr ⟨hnone, attempts, hclient, isStale_mono hle hstale⟩

/-- Eviction at `now` keeps the simulation, whoever called. -/
theorem Simulates.filter {config : ThrottleConfig} {now : ℕ}
    {entry client : Option Attempts} (h : Simulates config now entry client) :
    Simulates config now
      (entry.filter fun attempts ↦ !isStale attempts now config.window) client := by
  rcases h with rfl | ⟨rfl, attempts, rfl, hstale⟩
  · cases entry with
    | none => exact Or.inl rfl
    | some attempts =>
        by_cases hstale : isStale attempts now config.window = true
        · exact Or.inr ⟨by simp [hstale], attempts, rfl, hstale⟩
        · exact Or.inl (by simp [hstale])
  · exact Or.inr ⟨rfl, attempts, rfl, hstale⟩

/-- Related records give the same answer and the same next record. -/
theorem Simulates.reserveEntry_eq {config : ThrottleConfig} {now : ℕ}
    {entry client : Option Attempts} (h : Simulates config now entry client) :
    reserveEntry config (entry.getD (Attempts.fresh now)) now =
      reserveEntry config (client.getD (Attempts.fresh now)) now := by
  rcases h with rfl | ⟨rfl, attempts, rfl, hstale⟩
  · rfl
  · exact (reserveEntry_of_stale hstale).symm

/-! ## One step and whole runs -/

/-- The clock reading after `call`, when it was `last` before. -/
def Call.clock (last : ℕ) (call : Call) : ℕ := call.time.getD last

@[simp] theorem Call.clock_reserveAt (last : ℕ) (key : String) (now : ℕ) :
    (Call.reserveAt key now).clock last = now := rfl

@[simp] theorem Call.clock_recordSuccess (last : ℕ) (key : String) :
    (Call.recordSuccess key).clock last = last := rfl

/-- A call of the client itself is answered as its automaton answers it. -/
theorem step_own {config : ThrottleConfig} {last : ℕ} {state : Table}
    {client : Option Attempts} {call : Call} {c : ClientCall} {key : String}
    (hsim : Simulates config last (state key) client)
    (hclock : last ≤ call.clock last) (hown : call.toClient key = some c) :
    (step config state call).1 = (clientStep config client c).1 ∧
      (step config state call).2 key = (clientStep config client c).2 := by
  cases call with
  | reserveAt k now =>
      obtain ⟨rfl, rfl⟩ : k = key ∧ .reserve now = c := by
        simpa [Call.toClient] using hown
      have heq := ((hsim.mono hclock).filter).reserveEntry_eq
      simp only [Call.clock_reserveAt] at heq
      simp [step, reserveAt, clientStep, Table.retain, heq]
  | recordSuccess k =>
      obtain ⟨rfl, rfl⟩ : k = key ∧ ClientCall.success = c := by
        simpa [Call.toClient] using hown
      simp [step, recordSuccess, clientStep]

/-- A call of another client can only evict. -/
theorem step_foreign {config : ThrottleConfig} {last : ℕ} {state : Table}
    {client : Option Attempts} {call : Call} {key : String}
    (hsim : Simulates config last (state key) client)
    (hclock : last ≤ call.clock last) (hforeign : call.toClient key = none) :
    Simulates config (call.clock last) ((step config state call).2 key) client := by
  cases call with
  | reserveAt k now =>
      have hne : key ≠ k := by
        rintro rfl
        simp [Call.toClient] at hforeign
      have hkept : Simulates config now
          ((state key).filter fun attempts ↦ !isStale attempts now config.window) client :=
        (hsim.mono hclock).filter
      simpa [step, reserveAt, Table.retain, Function.update_of_ne hne] using hkept
  | recordSuccess k =>
      have hne : key ≠ k := by
        rintro rfl
        simp [Call.toClient] at hforeign
      simpa [step, recordSuccess, Function.update_of_ne hne] using hsim.mono hclock

theorem toClient_isSome_iff (key : String) (call : Call) :
    (call.toClient key).isSome ↔ call.key = key := by
  cases call <;> simp [Call.toClient, Call.key]

/-- Times along the calls are at least `last` and do not decrease. -/
def Chronological (last : ℕ) (calls : List Call) : Prop :=
  NonDecreasing calls ∧ ∀ now ∈ calls.filterMap Call.time, last ≤ now

theorem Chronological.cons {last : ℕ} {call : Call} {calls : List Call}
    (h : Chronological last (call :: calls)) :
    last ≤ call.clock last ∧ Chronological (call.clock last) calls := by
  obtain ⟨hsorted, hlast⟩ := h
  cases htime : call.time with
  | none =>
      simp only [NonDecreasing, List.filterMap_cons, htime] at hsorted hlast
      simp only [Call.clock, htime, Option.getD_none]
      exact ⟨le_rfl, hsorted, hlast⟩
  | some now =>
      simp only [NonDecreasing, List.filterMap_cons, htime, List.pairwise_cons,
        List.mem_cons] at hsorted hlast
      simp only [Call.clock, htime, Option.getD_some]
      exact ⟨hlast now (Or.inl rfl), hsorted.2, hsorted.1⟩

/-- Along a run the table keeps simulating the client's automaton, and the
answers agree.  The clock reading after the run bounds every later call. -/
theorem run_simulates (config : ThrottleConfig) (key : String) {last : ℕ}
    {state : Table} {client : Option Attempts} (calls : List Call)
    (hsim : Simulates config last (state key) client)
    (hchron : Chronological last calls) :
    answersFor key (trace config state calls) =
        clientAnswers config client (calls.filterMap (Call.toClient key)) ∧
      Simulates config (calls.foldl Call.clock last) (final config state calls key)
        (clientFinal config client (calls.filterMap (Call.toClient key))) := by
  induction calls generalizing last state client with
  | nil => exact ⟨rfl, hsim⟩
  | cons call calls ih =>
      obtain ⟨hclock, hrest⟩ := hchron.cons
      cases hc : call.toClient key with
      | none =>
          have hkey : ¬ call.key = key := by
            rw [← toClient_isSome_iff, hc]
            simp
          have hnext := ih (step_foreign hsim hclock hc) hrest
          simpa [trace, final, answersFor, hc, hkey] using hnext
      | some c =>
          have hkey : call.key = key := by
            rw [← toClient_isSome_iff, hc]
            rfl
          obtain ⟨hanswer, hentry⟩ := step_own hsim hclock hc
          have hsim' : Simulates config (call.clock last) ((step config state call).2 key)
              (clientStep config client c).2 := Or.inl hentry
          have hnext := ih hsim' hrest
          simpa [trace, final, answersFor, clientAnswers, clientFinal, hc, hkey, hanswer]
            using hnext

theorem NonDecreasing.chronological {calls : List Call} (h : NonDecreasing calls) :
    Chronological 0 calls :=
  ⟨h, fun _ _ ↦ Nat.zero_le _⟩

theorem simulates_empty (config : ThrottleConfig) (key : String) :
    Simulates config 0 (Table.empty key) none := Or.inl rfl

/-- Every answer a client gets from the shared table, under any interleaving
with other clients, is the one its own automaton gives to its calls alone. -/
theorem answers_eq_client (config : ThrottleConfig) (calls : List Call)
    (hsorted : NonDecreasing calls) (key : String) :
    answersFor key (trace config Table.empty calls) =
      clientAnswers config none (calls.filterMap (Call.toClient key)) :=
  (run_simulates config key calls (simulates_empty config key) hsorted.chronological).1

/-- Client `a` is locked out, and the later call of `b` evicts its record. -/
theorem answers_eq_client_two_clients :
    answersFor "a" (trace ⟨1, 900, 300⟩ Table.empty
        [.reserveAt "a" 0, .reserveAt "a" 5, .reserveAt "b" 2000, .reserveAt "a" 2001]) =
      clientAnswers ⟨1, 900, 300⟩ none [.reserve 0, .reserve 5, .reserve 2001] :=
  answers_eq_client ⟨1, 900, 300⟩
    [.reserveAt "a" 0, .reserveAt "a" 5, .reserveAt "b" 2000, .reserveAt "a" 2001]
    (by unfold NonDecreasing; decide) "a"

end Otdel.Throttle
