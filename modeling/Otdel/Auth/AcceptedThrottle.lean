import Otdel.Auth.Guessing
import Otdel.Core.Config

/-!
# The throttle of an accepted configuration

Any number of seconds is accepted for the lockout.  Without a lockout the
counter starts again at once, and with a long one the end of the lockout is no
representable instant.
-/

namespace Otdel.Throttle

/-- The durations of a configuration are seconds. -/
def ThrottleConfig.ofConfig (config : LoginThrottleConfig) : ThrottleConfig where
  maxFailures := config.maxFailures
  window := 1000000000 * config.window
  lockout := 1000000000 * config.lockout

/-- A run whose clock does not go back, up to `last`. -/
structure Within (last : ℕ) (calls : List Call) : Prop where
  sorted : NonDecreasing calls
  le : ∀ now ∈ calls.filterMap Call.time, now ≤ last

/-- No call panics, and the guesses of a client are bounded by the length of
the interval they are made in. -/
structure Effective (config : ThrottleConfig) (last : ℕ) : Prop where
  total : ∀ calls, Within last calls → ∀ p ∈ trace config Table.empty calls, p.2 ≠ some .panicked
  bounded : ∀ key T, ∃ bound, ∀ before stretch start, Within last (before ++ stretch) →
    Call.recordSuccess key ∉ stretch →
      (∀ now, Call.reserveAt key now ∈ stretch → start ≤ now ∧ now ≤ start + T) →
        (answersFor key (trace config (final config Table.empty before) stretch)).count
          (some .ok) ≤ bound

variable {config : ThrottleConfig}

/-! ## No overflow -/

theorem countAttempt_ne_panicked {entry : Attempts} {now : ℕ}
    (h : now + config.lockout ≤ lastInstant) : (countAttempt config entry now).1 ≠ .panicked := by
  unfold countAttempt
  rw [addDuration, if_pos h]
  split <;> simp

theorem reserveEntry_ne_panicked {entry : Attempts} {now : ℕ}
    (h : now + config.lockout ≤ lastInstant) : (reserveEntry config entry now).1 ≠ .panicked := by
  unfold reserveEntry
  split
  · split
    · simp
    · exact countAttempt_ne_panicked h
  · exact countAttempt_ne_panicked h

theorem step_ne_panicked {state : Table} {call : Call}
    (h : ∀ now ∈ call.time, now + config.lockout ≤ lastInstant) :
    (step config state call).1 ≠ some .panicked := by
  cases call with
  | reserveAt key now =>
      intro heq
      exact reserveEntry_ne_panicked (h now rfl) (Option.some.inj heq)
  | recordSuccess key => exact nofun

theorem trace_ne_panicked {state : Table} {calls : List Call}
    (h : ∀ now ∈ calls.filterMap Call.time, now + config.lockout ≤ lastInstant) :
    ∀ p ∈ trace config state calls, p.2 ≠ some .panicked := by
  induction calls generalizing state with
  | nil => exact fun p hp ↦ nomatch hp
  | cons call calls ih =>
      intro p hp
      rcases List.mem_cons.mp hp with rfl | hp
      · apply step_ne_panicked
        intro now hnow
        exact h now (List.mem_filterMap.mpr ⟨call, List.mem_cons_self, hnow⟩)
      · refine ih (fun now hnow ↦ h now ?_) p hp
        obtain ⟨c, hc, htime⟩ := List.mem_filterMap.mp hnow
        exact List.mem_filterMap.mpr ⟨c, List.mem_cons_of_mem call hc, htime⟩

/-! ## A bound without a window -/

/-- The guesses that are left to a client until `stop`: windows start at
different instants, not before `start`. -/
def allowance (config : ThrottleConfig) (start stop : ℕ) (entry : Attempts) : ℕ :=
  (config.maxFailures - entry.started) +
    config.maxFailures * (stop + 1 - max (entry.windowStarted + 1) start)

/-- A new window costs a whole instant. -/
theorem allowance_restart {entry : Attempts} {start stop now : ℕ} (hmax : 1 ≤ config.maxFailures)
    (hlater : entry.windowStarted < now) (hstart : start ≤ now) (hstop : now ≤ stop) :
    1 + allowance config start stop ⟨1, now, none⟩ ≤ allowance config start stop entry := by
  have hspan : stop + 1 - max (now + 1) start + 1 ≤
      stop + 1 - max (entry.windowStarted + 1) start := by omega
  have hmul := Nat.mul_le_mul_left config.maxFailures hspan
  rw [Nat.mul_add, Nat.mul_one] at hmul
  simp only [allowance]
  omega

/-- An admitted guess is taken off the allowance. -/
theorem reserveEntry_spends {entry : Attempts} {last now start stop : ℕ}
    (hmax : 1 ≤ config.maxFailures) (hlockout : 0 < config.lockout)
    (hwf : WellFormed config entry last) (hstart : start ≤ now) (hstop : now ≤ stop) :
    (if (reserveEntry config entry now).1 = .ok then 1 else 0) +
        allowance config start stop (reserveEntry config entry now).2 ≤
      allowance config start stop entry := by
  cases hlock : entry.lockedUntil with
  | none =>
      by_cases hwindow : config.window < now - entry.windowStarted
      · have heq : reserveEntry config entry now = (.ok, ⟨1, now, none⟩) := by
          simp only [reserveEntry, hlock, openWindow_of_expired hlock hwindow,
            countAttempt_fresh hmax]
        rw [heq]
        exact allowance_restart hmax (by omega) hstart hstop
      · have heq : reserveEntry config entry now = countAttempt config entry now := by
          simp only [reserveEntry, hlock, openWindow, hwindow, if_false]
        rw [heq]
        unfold countAttempt
        by_cases hlimit : entry.started ≥ config.maxFailures
        · rw [if_pos hlimit]
          cases addDuration now config.lockout with
          | some lockedUntil => simp [allowance]
          | none => simp
        · rw [if_neg hlimit]
          simp only [allowance, if_true]
          omega
  | some lockedUntil =>
      by_cases hlt : now < lockedUntil
      · rw [reserveEntry_locked config hlock hlt]
        simp
      · have hlater := hwf.locked lockedUntil hlock
        rw [reserveEntry_served hmax hlock (not_lt.mp hlt)]
        exact allowance_restart hmax (by omega) hstart hstop

theorem admissions_le_allowance {entry : Attempts} {last start stop : ℕ} {times : List ℕ}
    (hmax : 1 ≤ config.maxFailures) (hlockout : 0 < config.lockout)
    (hwf : WellFormed config entry last) (hsorted : (last :: times).Pairwise (· ≤ ·))
    (hinterval : ∀ now ∈ times, start ≤ now ∧ now ≤ stop) :
    admissions config (some entry) times ≤ allowance config start stop entry := by
  induction times generalizing entry last with
  | nil => simp [admissions, clientAnswers]
  | cons now times ih =>
      rw [List.pairwise_cons] at hsorted
      obtain ⟨hstart, hstop⟩ := hinterval now List.mem_cons_self
      have hlast : last ≤ now := hsorted.1 now List.mem_cons_self
      have hnext := (attempted_reserveEntry hmax hwf hlast).2
      have hrest := ih hnext hsorted.2 fun t ht ↦ hinterval t (List.mem_cons_of_mem now ht)
      have hspends := reserveEntry_spends hmax hlockout hwf hstart hstop
      rw [admissions_cons, Option.getD_some]
      omega

theorem allowance_le {entry : Attempts} {start T : ℕ} :
    allowance config start (start + T) entry ≤ config.maxFailures * (T + 2) := by
  have hspan : start + T + 1 - max (entry.windowStarted + 1) start ≤ T + 1 := by omega
  have hmul := Nat.mul_le_mul_left config.maxFailures hspan
  have hsplit : config.maxFailures * (T + 2) =
      config.maxFailures + config.maxFailures * (T + 1) := by ring
  rw [allowance, hsplit]
  omega

theorem admissions_le {client : Option Attempts} {last start T : ℕ} {times : List ℕ}
    (hmax : 1 ≤ config.maxFailures) (hlockout : 0 < config.lockout)
    (hwf : ∀ entry, client = some entry → WellFormed config entry last)
    (hsorted : (last :: times).Pairwise (· ≤ ·))
    (hinterval : ∀ now ∈ times, start ≤ now ∧ now ≤ start + T) :
    admissions config client times ≤ config.maxFailures * (T + 2) := by
  cases client with
  | some entry =>
      exact (admissions_le_allowance hmax hlockout (hwf entry rfl) hsorted hinterval).trans
        allowance_le
  | none =>
      cases times with
      | nil => simp [admissions, clientAnswers]
      | cons now times =>
          have hfresh : WellFormed config (Attempts.fresh now) now :=
            ⟨Nat.zero_le _, le_rfl, by simp [Attempts.fresh]⟩
          have hsame : admissions config none (now :: times) =
              admissions config (some (Attempts.fresh now)) (now :: times) := by
            rw [admissions_cons, admissions_cons, Option.getD_none, Option.getD_some]
          rw [hsame]
          refine (admissions_le_allowance hmax hlockout hfresh ?_ hinterval).trans allowance_le
          rw [List.pairwise_cons] at hsorted ⊢
          refine ⟨fun t ht ↦ ?_, hsorted.2⟩
          rcases List.mem_cons.mp ht with rfl | ht
          · exact le_rfl
          · exact (List.pairwise_cons.mp hsorted.2).1 t ht

/-- With a lockout, a window of no length still bounds the guesses. -/
theorem stretch_bounded (hmax : 1 ≤ config.maxFailures) (hlockout : 0 < config.lockout)
    {key : String} {before stretch : List Call} {start T : ℕ}
    (hsorted : NonDecreasing (before ++ stretch)) (hnone : Call.recordSuccess key ∉ stretch)
    (hinterval : ∀ now, Call.reserveAt key now ∈ stretch → start ≤ now ∧ now ≤ start + T) :
    (answersFor key (trace config (final config Table.empty before) stretch)).count (some .ok) ≤
      config.maxFailures * (T + 2) := by
  obtain ⟨hbefore, hstretch⟩ := hsorted.chronological.append
  have hsim := (run_simulates config key before (simulates_empty config key) hbefore).2
  have hnoEntry : ∀ entry, (none : Option Attempts) = some entry →
      WellFormed config entry 0 := nofun
  have hwf := wellFormed_clientFinal hmax key before hnoEntry hbefore
  rw [(run_simulates config key stretch hsim hstretch).1, toClient_of_no_success hnone]
  have htimes : ((before.foldl Call.clock 0) :: reserveTimes key stretch).Pairwise (· ≤ ·) := by
    rw [List.pairwise_cons]
    exact ⟨fun t ht ↦ hstretch.2 t ((reserveTimes_sublist key stretch).subset ht),
      hstretch.1.sublist (reserveTimes_sublist key stretch)⟩
  exact admissions_le hmax hlockout hwf htimes fun t ht ↦ hinterval t (mem_reserveTimes.mp ht)

/-! ## Many calls at one instant -/

theorem within_replicate (key : String) (last n : ℕ) :
    Within last (List.replicate n (.reserveAt key last)) := by
  have htimes : (List.replicate n (Call.reserveAt key last)).filterMap Call.time =
      List.replicate n last := List.filterMap_replicate_of_some rfl
  constructor
  · rw [NonDecreasing, htimes, List.pairwise_replicate]
    exact Or.inr le_rfl
  · intro now hnow
    rw [htimes] at hnow
    exact (List.eq_of_mem_replicate hnow).le

theorem toClient_replicate (key : String) (now n : ℕ) :
    (List.replicate n (Call.reserveAt key now)).filterMap (Call.toClient key) =
      (List.replicate n now).map .reserve := by
  rw [List.map_replicate]
  exact List.filterMap_replicate_of_some (if_pos rfl)

/-- Until the limit the calls of one instant are counted. -/
theorem clientFinal_replicate (now n : ℕ) {started : ℕ} (h : started + n ≤ config.maxFailures) :
    clientFinal config (some ⟨started, now, none⟩) ((List.replicate n now).map .reserve) =
      some ⟨started + n, now, none⟩ := by
  induction n generalizing started with
  | zero => rfl
  | succ n ih =>
      have hlimit : ¬ started ≥ config.maxFailures := by omega
      have hstep : reserveEntry config ⟨started, now, none⟩ now =
          (.ok, ⟨started + 1, now, none⟩) := by
        simp [reserveEntry, openWindow, countAttempt, hlimit]
      rw [List.replicate_succ, List.map_cons, clientFinal]
      simp only [clientStep, Option.getD_some, hstep]
      rw [ih (by omega), Nat.add_right_comm, Nat.add_assoc]

theorem trace_append (state : Table) (xs ys : List Call) :
    trace config state (xs ++ ys) = trace config state xs ++ trace config (final config state xs) ys := by
  induction xs generalizing state with
  | nil => rfl
  | cons call xs ih =>
      rw [List.cons_append, trace, ih, trace, final, List.cons_append]

/-- One call more than the limit, at an instant the lockout does not fit behind. -/
theorem panicked_of_overflow {last : ℕ} (hmax : 1 ≤ config.maxFailures)
    (hoverflow : lastInstant < last + config.lockout) :
    ∃ calls, Within last calls ∧ ∃ p ∈ trace config Table.empty calls, p.2 = some .panicked := by
  have hwithin := within_replicate "" last (config.maxFailures + 1)
  refine ⟨_, hwithin, (.reserveAt "" last, answerAfter config
    (List.replicate config.maxFailures (.reserveAt "" last)) (.reserveAt "" last)), ?_, ?_⟩
  · rw [List.replicate_succ', trace_append]
    exact List.mem_append_right _ List.mem_cons_self
  · have hsorted := hwithin.sorted
    rw [List.replicate_succ'] at hsorted
    obtain ⟨n, hn⟩ := Nat.exists_eq_add_of_le' hmax
    have hclient : clientAfter config "" (List.replicate config.maxFailures (.reserveAt "" last)) =
        some ⟨config.maxFailures, last, none⟩ := by
      have hfirst := reserveEntry_fresh hmax last
      rw [clientAfter, toClient_replicate, hn, List.replicate_succ, List.map_cons, clientFinal]
      simp only [clientStep, Option.getD_none, hfirst]
      rw [clientFinal_replicate last n (by omega), Nat.add_comm]
    have hadd : addDuration last config.lockout = none := if_neg (by omega)
    dsimp only
    rw [answerAfter_reserveAt hsorted, hclient, Option.getD_some]
    simp [reserveEntry, openWindow, countAttempt, hadd]

/-- A refusal at instant 0 ends at instant 0. -/
theorem unlocked_reserveEntry (hlockout : config.lockout = 0) {entry : Attempts}
    (hentry : ∀ t, entry.lockedUntil = some t → t = 0) (hmax : 1 ≤ config.maxFailures) :
    (∀ t, (reserveEntry config entry 0).2.lockedUntil = some t → t = 0) ∧
      ((reserveEntry config entry 0).1 = .ok ∨
        (reserveEntry config entry 0).2.lockedUntil = some 0) := by
  cases hlock : entry.lockedUntil with
  | some t =>
      have hserved := reserveEntry_served hmax hlock (hentry t hlock).le
      rw [hserved]
      exact ⟨nofun, Or.inl rfl⟩
  | none =>
      have hwindow : ¬ 0 - entry.windowStarted > config.window := by omega
      have heq : reserveEntry config entry 0 = countAttempt config entry 0 := by
        simp only [reserveEntry, hlock, openWindow, hwindow, if_false]
      have hadd : addDuration 0 config.lockout = some 0 := by
        rw [hlockout]
        decide
      rw [heq, countAttempt]
      by_cases hlimit : entry.started ≥ config.maxFailures
      · rw [if_pos hlimit, hadd]
        exact ⟨fun t ht ↦ (Option.some.inj ht).symm, Or.inr rfl⟩
      · rw [if_neg hlimit]
        exact ⟨hentry, Or.inl rfl⟩

/-- Without a lockout at most every other call is refused. -/
theorem le_admissions (hmax : 1 ≤ config.maxFailures) (hlockout : config.lockout = 0) (n : ℕ)
    {entry : Attempts} (hentry : ∀ t, entry.lockedUntil = some t → t = 0) :
    n ≤ admissions config (some entry) (List.replicate (2 * n) 0) := by
  induction n generalizing entry with
  | zero => exact Nat.zero_le _
  | succ n ih =>
      obtain ⟨hfirst, hok⟩ := unlocked_reserveEntry hlockout hentry hmax
      have hrest := ih (unlocked_reserveEntry hlockout hfirst hmax).1
      have htwo : 2 * (n + 1) = 2 * n + 1 + 1 := by ring
      rw [htwo, List.replicate_succ, List.replicate_succ, admissions_cons, admissions_cons,
        Option.getD_some, Option.getD_some]
      rcases hok with hok | hlocked
      · rw [if_pos hok]
        omega
      · have hserved := reserveEntry_served hmax hlocked le_rfl
        rw [hserved] at hrest ⊢
        rw [if_pos rfl]
        omega

theorem unbounded_of_no_lockout (hmax : 1 ≤ config.maxFailures) (hlockout : config.lockout = 0)
    {last : ℕ} : ¬ Effective config last := by
  intro h
  obtain ⟨bound, hbound⟩ := h.bounded "" 0
  have hwithin : Within last (List.replicate (2 * (bound + 1)) (.reserveAt "" 0)) := by
    refine ⟨(within_replicate "" 0 _).sorted, fun now hnow ↦ ?_⟩
    exact ((within_replicate "" 0 _).le now hnow).trans (Nat.zero_le last)
  have hsame : ∀ {call : Call}, call ∈ List.replicate (2 * (bound + 1)) (.reserveAt "" 0) →
      call = .reserveAt "" 0 := List.eq_of_mem_replicate
  have hnone : Call.recordSuccess "" ∉ List.replicate (2 * (bound + 1)) (.reserveAt "" 0) := by
    intro hmem
    cases hsame hmem
  have hinstant : ∀ now,
      Call.reserveAt "" now ∈ List.replicate (2 * (bound + 1)) (.reserveAt "" 0) →
        0 ≤ now ∧ now ≤ 0 + 0 := by
    intro now hmem
    cases hsame hmem
    exact ⟨le_rfl, le_rfl⟩
  have hcount := hbound [] (List.replicate (2 * (bound + 1)) (.reserveAt "" 0)) 0 hwithin hnone
    hinstant
  have hanswers := answers_eq_client config _ hwithin.sorted ""
  rw [final, hanswers, toClient_replicate] at hcount
  have hfresh : admissions config none (List.replicate (2 * (bound + 1)) 0) =
      admissions config (some (Attempts.fresh 0)) (List.replicate (2 * (bound + 1)) 0) := by
    have htwo : 2 * (bound + 1) = 2 * bound + 1 + 1 := by ring
    rw [htwo, List.replicate_succ, admissions_cons, admissions_cons, Option.getD_none,
      Option.getD_some]
  have hlow : bound + 1 ≤ admissions config (some (Attempts.fresh 0))
      (List.replicate (2 * (bound + 1)) 0) :=
    le_admissions hmax hlockout (bound + 1) fun _ h ↦ by cases h
  rw [← hfresh, admissions] at hlow
  omega

theorem effective_iff (hmax : 1 ≤ config.maxFailures) {last : ℕ} :
    Effective config last ↔ 0 < config.lockout ∧ last + config.lockout ≤ lastInstant := by
  constructor
  · intro h
    constructor
    · by_contra hzero
      exact unbounded_of_no_lockout hmax (Nat.eq_zero_of_not_pos hzero) h
    · by_contra hoverflow
      obtain ⟨calls, hwithin, p, hp, hpanicked⟩ := panicked_of_overflow hmax (not_le.mp hoverflow)
      exact h.total calls hwithin p hp hpanicked
  · rintro ⟨hlockout, hlast⟩
    constructor
    · intro calls hwithin
      apply trace_ne_panicked
      intro now hnow
      have hle := hwithin.le now hnow
      omega
    · intro key T
      exact ⟨_, fun before stretch start hwithin hnone hinterval ↦
        stretch_bounded hmax hlockout hwithin.sorted hnone hinterval⟩

/-! ## Accepted configurations -/

/-- The throttle of an accepted configuration. -/
theorem loginThrottle_of_load {readers : ConfigReaders} {source : ConfigSource} {config : Config}
    (h : Config.load readers source = .ok config) :
    ∃ failures window lockout,
      Config.parseU64Or source "OTDEL_LOGIN_MAX_FAILURES" 10 = .ok failures ∧
        Config.parseU64Or source "OTDEL_LOGIN_LOCKOUT_SECONDS" 900 = .ok lockout ∧
          config.loginThrottle = ⟨max failures 1, window, lockout⟩ := by
  simp only [Config.load, bind_eq_ok] at h
  obtain ⟨_, -, _, -, _, -, _, -, _, -, _, -, _, -, _, -, _, -, _, -, _, -, _, -, _, -, _, -, _, -,
    _, -, _, -, _, -, failures, hfailures, maxFailures, hmax, window, -, lockout, hlockout, _, -, _,
    -, h⟩ := h
  obtain rfl : failures = maxFailures := by
    unfold Config.toU32 at hmax
    split at hmax <;> cases hmax
    rfl
  cases h
  exact ⟨failures, window, lockout, hfailures, hlockout, rfl⟩

/-- An accepted throttle works, in runs up to `last`, when there is a lockout
and it ends at a representable instant. -/
theorem accepted_throttle_effective_iff {readers : ConfigReaders} {source : ConfigSource}
    {config : Config} (h : Config.load readers source = .ok config) {lockout : ℕ}
    (hlockout : Config.parseU64Or source "OTDEL_LOGIN_LOCKOUT_SECONDS" 900 = .ok lockout)
    (last : ℕ) :
    Effective (.ofConfig config.loginThrottle) last ↔
      0 < lockout ∧ last + 1000000000 * lockout ≤ lastInstant := by
  obtain ⟨failures, window, seconds, -, hseconds, hthrottle⟩ := loginThrottle_of_load h
  obtain rfl : lockout = seconds := Except.ok.inj (hlockout.symm.trans hseconds)
  rw [hthrottle, effective_iff (le_max_right failures 1)]
  simp only [ThrottleConfig.ofConfig]
  omega

/-- The required variables, and a lockout. -/
abbrev lockoutSource (lockout : Text) : ConfigSource :=
  Config.sampleSource "OTDEL_LOGIN_LOCKOUT_SECONDS" lockout

/-- A quarter of an hour, on the first day of the clock. -/
theorem accepted_throttle_effective_iff_quarter : ∃ config,
    Config.load Config.sampleReaders (lockoutSource "900".toList) = .ok config ∧
      Effective (.ofConfig config.loginThrottle) (86400 * 1000000000) := by
  have hok : (Config.load Config.sampleReaders (lockoutSource "900".toList)).isOk = true := by decide +kernel
  obtain ⟨config, hload⟩ := exists_of_isOk hok
  have hlockout : Config.parseU64Or (lockoutSource "900".toList) "OTDEL_LOGIN_LOCKOUT_SECONDS" 900 =
      .ok 900 := by decide +kernel
  exact ⟨config, hload, (accepted_throttle_effective_iff hload hlockout _).mpr (by decide)⟩

/-- The longest lockout is accepted, and the eleventh attempt panics. -/
theorem longest_lockout_panics : ¬ ∀ (readers : ConfigReaders) (source : ConfigSource)
    (config : Config), Config.load readers source = .ok config →
      ∀ calls, NonDecreasing calls →
        ∀ p ∈ trace (.ofConfig config.loginThrottle) Table.empty calls, p.2 ≠ some .panicked := by
  intro h
  have hok : (Config.load Config.sampleReaders (lockoutSource "18446744073709551615".toList)).isOk = true := by
    decide +kernel
  obtain ⟨config, hload⟩ := exists_of_isOk hok
  obtain ⟨failures, window, lockout, hfailures, hlockout, hthrottle⟩ := loginThrottle_of_load hload
  have hten : Config.parseU64Or (lockoutSource "18446744073709551615".toList)
      "OTDEL_LOGIN_MAX_FAILURES" 10 = .ok 10 := by decide +kernel
  have hlongest : Config.parseU64Or (lockoutSource "18446744073709551615".toList)
      "OTDEL_LOGIN_LOCKOUT_SECONDS" 900 = .ok 18446744073709551615 := by decide +kernel
  obtain rfl : 10 = failures := Except.ok.inj (hten.symm.trans hfailures)
  obtain rfl : 18446744073709551615 = lockout := Except.ok.inj (hlongest.symm.trans hlockout)
  have hpanics : ∃ calls, Within 0 calls ∧ ∃ p ∈ trace (.ofConfig config.loginThrottle) Table.empty
      calls, p.2 = some .panicked := by
    have hoverflow : lastInstant < 0 + 1000000000 * 18446744073709551615 := by decide
    rw [hthrottle]
    exact panicked_of_overflow (le_max_right 10 1) hoverflow
  obtain ⟨calls, hwithin, p, hp, hpanicked⟩ := hpanics
  exact h Config.sampleReaders _ config hload calls hwithin.sorted p hp hpanicked

end Otdel.Throttle
