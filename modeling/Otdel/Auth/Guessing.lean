import Otdel.Auth.Throttle

/-!
# How many guesses a client gets

A record restarts its counter when its window has passed, when its lockout is
served, or when it was evicted and inserted again.  Two restarts are at least
`min window lockout` apart, and between two restarts at most `max_failures`
attempts are admitted.  The counting is done on the automaton of one client;
`run_simulates` carries it over to the shared table.
-/

namespace Otdel.Throttle

/-! ## Chronological runs -/

theorem Chronological.append {last : ℕ} {xs ys : List Call}
    (h : Chronological last (xs ++ ys)) :
    Chronological last xs ∧ Chronological (xs.foldl Call.clock last) ys := by
  induction xs generalizing last with
  | nil => exact ⟨⟨List.Pairwise.nil, by simp⟩, h⟩
  | cons call xs ih =>
      obtain ⟨_, hrest⟩ := h.cons
      refine ⟨⟨?_, ?_⟩, (ih hrest).2⟩
      · exact h.1.sublist ((List.sublist_append_left _ _).filterMap _)
      · intro now hnow
        exact h.2 now (((List.sublist_append_left _ ys).filterMap _).subset hnow)

theorem Chronological.clock_le {last : ℕ} {xs : List Call} {call : Call}
    (h : Chronological last (xs ++ [call])) :
    xs.foldl Call.clock last ≤ call.clock (xs.foldl Call.clock last) :=
  h.append.2.cons.1

/-- The calls of `key` in a stretch without `record_success(key)`. -/
def reserveTimes (key : String) (calls : List Call) : List ℕ :=
  calls.filterMap fun
    | .reserveAt k now => if k = key then some now else none
    | .recordSuccess _ => none

theorem mem_reserveTimes {key : String} {calls : List Call} {now : ℕ} :
    now ∈ reserveTimes key calls ↔ Call.reserveAt key now ∈ calls := by
  induction calls with
  | nil => simp [reserveTimes]
  | cons call calls ih =>
      cases call with
      | reserveAt k t =>
          by_cases hk : k = key <;> simp_all [reserveTimes, eq_comm]
      | recordSuccess k => simpa [reserveTimes] using ih

theorem toClient_of_no_success {key : String} {calls : List Call}
    (hnone : Call.recordSuccess key ∉ calls) :
    calls.filterMap (Call.toClient key) = (reserveTimes key calls).map .reserve := by
  induction calls with
  | nil => rfl
  | cons call calls ih =>
      have hrest := ih fun h ↦ hnone (List.mem_cons_of_mem _ h)
      cases call with
      | reserveAt k t =>
          by_cases hk : k = key <;>
            simpa [reserveTimes, Call.toClient, hk] using hrest
      | recordSuccess k =>
          have hk : ¬ k = key := by
            rintro rfl
            exact hnone (by simp)
          simpa [reserveTimes, Call.toClient, hk] using hrest

theorem reserveTimes_sublist (key : String) (calls : List Call) :
    (reserveTimes key calls).Sublist (calls.filterMap Call.time) := by
  induction calls with
  | nil => exact List.Sublist.refl []
  | cons call calls ih =>
      cases call with
      | reserveAt k t =>
          by_cases hk : k = key
          · simpa [reserveTimes, Call.time, hk] using ih
          · simpa [reserveTimes, Call.time, hk] using ih.cons t
      | recordSuccess k => simpa [reserveTimes, Call.time, List.filterMap_cons] using ih

/-! ## One attempt -/

/-- The counter respects the limit, and a lockout lasts at least `lockout`
past the start of the window it was set in. -/
structure WellFormed (config : ThrottleConfig) (entry : Attempts) (last : ℕ) : Prop where
  started_le : entry.started ≤ config.maxFailures
  windowStarted_le : entry.windowStarted ≤ last
  locked : ∀ lockedUntil, entry.lockedUntil = some lockedUntil →
    entry.windowStarted + config.lockout ≤ lockedUntil

/-- What one attempt does to a record: nothing is admitted and the window
stays, or one more is admitted in the same window, or a new window starts at
least `min window lockout` after the old one. -/
inductive Attempted (config : ThrottleConfig) (entry : Attempts) (now : ℕ) :
    Reservation × Attempts → Prop
  | refused (answer : Reservation) (next : Attempts) (hanswer : answer ≠ .ok)
      (hstarted : next.started = entry.started)
      (hwindow : next.windowStarted = entry.windowStarted) :
      Attempted config entry now (answer, next)
  | counted (next : Attempts) (hlt : entry.started < config.maxFailures)
      (hstarted : next.started = entry.started + 1)
      (hwindow : next.windowStarted = entry.windowStarted) :
      Attempted config entry now (.ok, next)
  | restarted (hapart : entry.windowStarted + min config.window config.lockout ≤ now) :
      Attempted config entry now (.ok, ⟨1, now, none⟩)

theorem countAttempt_fresh {config : ThrottleConfig} (hmax : 1 ≤ config.maxFailures)
    (now : ℕ) : countAttempt config (Attempts.fresh now) now = (.ok, ⟨1, now, none⟩) := by
  have hlt : ¬ (0 : ℕ) ≥ config.maxFailures := by omega
  simp [countAttempt, Attempts.fresh, hlt]

theorem addDuration_eq_some {now d until_ : ℕ} (h : addDuration now d = some until_) :
    until_ = now + d := by
  unfold addDuration at h
  split at h
  · exact (Option.some.inj h).symm
  · cases h

/-- Inside a window the counter moves by one or the lockout is set. -/
theorem attempted_countAttempt {config : ThrottleConfig} {entry : Attempts} {now : ℕ}
    (hwf : WellFormed config entry now) :
    Attempted config entry now (countAttempt config entry now) ∧
      WellFormed config (countAttempt config entry now).2 now := by
  have hws := hwf.windowStarted_le
  by_cases hlimit : entry.started ≥ config.maxFailures
  · cases hadd : addDuration now config.lockout with
    | none =>
        have heq : countAttempt config entry now = (.panicked, entry) := by
          simp only [countAttempt, hlimit, if_true, hadd]
        rw [heq]
        exact ⟨.refused _ _ (by simp) rfl rfl, hwf⟩
    | some lockedUntil =>
        have heq : countAttempt config entry now =
            (.err config.lockout, { entry with lockedUntil := some lockedUntil }) := by
          simp only [countAttempt, hlimit, if_true, hadd]
        rw [heq]
        refine ⟨.refused _ _ (by simp) rfl rfl, hwf.started_le, hws, ?_⟩
        rintro _ ⟨rfl⟩
        rw [addDuration_eq_some hadd]
        exact Nat.add_le_add_right hws _
  · have heq : countAttempt config entry now =
        (.ok, { entry with started := entry.started + 1 }) := by
      simp only [countAttempt, hlimit, if_false]
    have hlt : entry.started < config.maxFailures := not_le.mp hlimit
    rw [heq]
    exact ⟨.counted _ hlt rfl rfl, hlt, hws, hwf.locked⟩

theorem reserveEntry_locked (config : ThrottleConfig) {entry : Attempts} {now lockedUntil : ℕ}
    (hlock : entry.lockedUntil = some lockedUntil) (hlt : now < lockedUntil) :
    reserveEntry config entry now = (.err (lockedUntil - now), entry) := by
  simp [reserveEntry, hlock, hlt]

theorem reserveEntry_served {config : ThrottleConfig} (hmax : 1 ≤ config.maxFailures)
    {entry : Attempts} {now lockedUntil : ℕ} (hlock : entry.lockedUntil = some lockedUntil)
    (hle : lockedUntil ≤ now) : reserveEntry config entry now = (.ok, ⟨1, now, none⟩) := by
  have hnot : ¬ now < lockedUntil := not_lt.mpr hle
  simp [reserveEntry, hlock, hnot, openWindow_fresh, countAttempt_fresh hmax]

theorem reserveEntry_fresh {config : ThrottleConfig} (hmax : 1 ≤ config.maxFailures)
    (now : ℕ) : reserveEntry config (Attempts.fresh now) now = (.ok, ⟨1, now, none⟩) := by
  have hlock : (Attempts.fresh now).lockedUntil = none := rfl
  simp only [reserveEntry, hlock, openWindow_fresh, countAttempt_fresh hmax]

/-- The step lemma: every attempt is one of the three kinds, and the record
stays well formed. -/
theorem attempted_reserveEntry {config : ThrottleConfig} (hmax : 1 ≤ config.maxFailures)
    {entry : Attempts} {last now : ℕ} (hwf : WellFormed config entry last)
    (hlast : last ≤ now) :
    Attempted config entry now (reserveEntry config entry now) ∧
      WellFormed config (reserveEntry config entry now).2 now := by
  have hnow : WellFormed config entry now :=
    ⟨hwf.started_le, hwf.windowStarted_le.trans hlast, hwf.locked⟩
  cases hlock : entry.lockedUntil with
  | none =>
      by_cases hwindow : config.window < now - entry.windowStarted
      · have heq : reserveEntry config entry now = (.ok, ⟨1, now, none⟩) := by
          simp only [reserveEntry, hlock, openWindow_of_expired hlock hwindow,
            countAttempt_fresh hmax]
        rw [heq]
        refine ⟨.restarted ?_, hmax, le_rfl, by simp⟩
        have hmin := min_le_left config.window config.lockout
        omega
      · have heq : reserveEntry config entry now = countAttempt config entry now := by
          simp only [reserveEntry, hlock, openWindow, hwindow, if_false]
        rw [heq]
        exact attempted_countAttempt hnow
  | some lockedUntil =>
      by_cases hlt : now < lockedUntil
      · rw [reserveEntry_locked config hlock hlt]
        exact ⟨.refused _ _ (by simp) rfl rfl, hnow⟩
      · rw [reserveEntry_served hmax hlock (not_lt.mp hlt)]
        refine ⟨.restarted ?_, hmax, le_rfl, by simp⟩
        have hapart := hwf.locked lockedUntil hlock
        have hmin := min_le_right config.window config.lockout
        omega

/-! ## Counting admissions -/

/-- How many of the attempts at `times` are admitted. -/
def admissions (config : ThrottleConfig) (client : Option Attempts) (times : List ℕ) : ℕ :=
  (clientAnswers config client (times.map .reserve)).count (some .ok)

theorem admissions_cons (config : ThrottleConfig) (client : Option Attempts) (now : ℕ)
    (times : List ℕ) :
    admissions config client (now :: times) =
      (if (reserveEntry config (client.getD (Attempts.fresh now)) now).1 = .ok then 1 else 0) +
        admissions config
          (some (reserveEntry config (client.getD (Attempts.fresh now)) now).2) times := by
  simp only [admissions, List.map_cons, clientAnswers, clientStep, List.count_cons]
  rw [add_comm]
  simp

/-- The restarts after a window that began at `ws` are spaced by `gap`, so at
most `(stop - ws) / gap` of them happen by `stop`. -/
theorem admissions_after_window {config : ThrottleConfig} (hmax : 1 ≤ config.maxFailures)
    (hgap : 0 < min config.window config.lockout) {stop : ℕ} {times : List ℕ}
    {entry : Attempts} {last : ℕ} (hwf : WellFormed config entry last)
    (hsorted : (last :: times).Pairwise (· ≤ ·)) (hstop : ∀ now ∈ times, now ≤ stop) :
    admissions config (some entry) times ≤
      (config.maxFailures - entry.started) +
        config.maxFailures *
          ((stop - entry.windowStarted) / min config.window config.lockout) := by
  induction times generalizing entry last with
  | nil => simp [admissions, clientAnswers]
  | cons now times ih =>
      rw [List.pairwise_cons] at hsorted
      have hlast : last ≤ now := hsorted.1 now (by simp)
      have hnow : now ≤ stop := hstop now (by simp)
      obtain ⟨hkind, hnext⟩ := attempted_reserveEntry hmax hwf hlast
      have hrest := ih hnext hsorted.2 fun t ht ↦ hstop t (by simp [ht])
      rw [admissions_cons, Option.getD_some]
      have hstarted := hwf.started_le
      rcases hres : reserveEntry config entry now with ⟨answer, next⟩
      rw [hres] at hkind hrest
      cases hkind with
      | refused _ _ hanswer hs hw =>
          simp only [hs, hw] at hrest
          simpa [hanswer] using hrest
      | counted _ hlt hs hw =>
          simp only [hs, hw] at hrest
          simp only [if_true]
          omega
      | restarted hapart =>
          simp only [if_true]
          have hdiv : (stop - entry.windowStarted) / min config.window config.lockout =
              (stop - entry.windowStarted - min config.window config.lockout) /
                min config.window config.lockout + 1 :=
            Nat.div_eq_sub_div hgap (by omega)
          have hmono : (stop - now) / min config.window config.lockout ≤
              (stop - entry.windowStarted - min config.window config.lockout) /
                min config.window config.lockout :=
            Nat.div_le_div_right (by omega)
          have hmul := Nat.mul_le_mul_left config.maxFailures hmono
          simp only at hrest
          rw [hdiv, Nat.mul_add, Nat.mul_one]
          omega

/-- In `[start, start + T]` the running window contributes at most
`max_failures`, and so does every window that starts inside. -/
theorem admissions_in_interval {config : ThrottleConfig} (hmax : 1 ≤ config.maxFailures)
    (hgap : 0 < min config.window config.lockout) {start T : ℕ} {times : List ℕ}
    {client : Option Attempts} {last : ℕ}
    (hwf : ∀ entry, client = some entry → WellFormed config entry last)
    (hsorted : (last :: times).Pairwise (· ≤ ·))
    (hinterval : ∀ now ∈ times, start ≤ now ∧ now ≤ start + T) :
    admissions config client times ≤
      (config.maxFailures - (client.getD (Attempts.fresh last)).started) +
        config.maxFailures * (T / min config.window config.lockout + 1) := by
  -- After a restart at `now` inside the interval everything is `admissions_after_window`.
  have hrestart : ∀ now times', now ∈ times → (now :: times').Pairwise (· ≤ ·) →
      (∀ t ∈ times', t ≤ start + T) →
      1 + admissions config (some ⟨1, now, none⟩) times' ≤
        config.maxFailures * (T / min config.window config.lockout + 1) := by
    intro now times' hmem hsorted' hstop
    have hwf' : WellFormed config ⟨1, now, none⟩ now := ⟨hmax, le_rfl, by simp⟩
    have hcount := admissions_after_window hmax hgap hwf' hsorted' hstop
    have hmono : (start + T - now) / min config.window config.lockout ≤
        T / min config.window config.lockout :=
      Nat.div_le_div_right (by have := (hinterval now hmem).1; omega)
    have hmul := Nat.mul_le_mul_left config.maxFailures hmono
    simp only at hcount
    rw [Nat.mul_add, Nat.mul_one]
    omega
  induction times generalizing client last with
  | nil => simp [admissions, clientAnswers]
  | cons now times ih =>
      rw [List.pairwise_cons] at hsorted
      have hlast : last ≤ now := hsorted.1 now (by simp)
      have hstop : ∀ t ∈ times, t ≤ start + T := fun t ht ↦ (hinterval t (by simp [ht])).2
      rw [admissions_cons]
      cases client with
      | none =>
          have hfresh := reserveEntry_fresh hmax now
          have hcount := hrestart now times (by simp) hsorted.2 hstop
          simp only [Option.getD_none, hfresh, if_true]
          omega
      | some entry =>
          obtain ⟨hkind, hnext⟩ := attempted_reserveEntry hmax (hwf entry rfl) hlast
          have hstarted := (hwf entry rfl).started_le
          rw [Option.getD_some]
          rcases hres : reserveEntry config entry now with ⟨answer, next⟩
          rw [hres] at hkind hnext
          have hwf' : ∀ e, some next = some e → WellFormed config e now := by
            rintro e ⟨⟩
            exact hnext
          have hrest := ih hwf' hsorted.2
            (fun t ht ↦ hinterval t (by simp [ht]))
            (fun t times' ht ↦ hrestart t times' (by simp [ht]))
          cases hkind with
          | refused _ _ hanswer hs hw =>
              simp only [Option.getD_some, hs] at hrest
              simpa [hanswer] using hrest
          | counted _ hlt hs hw =>
              simp only [Option.getD_some, hs] at hrest
              simp only [if_true, Option.getD_some]
              omega
          | restarted hapart =>
              have hcount := hrestart now times (by simp) hsorted.2 hstop
              simp only [if_true]
              omega

/-! ## Lockouts -/

/-- `Err(d)` at `now` means locked until `now + d`, whether the lockout is new
or was already running. -/
theorem lockedUntil_of_err {config : ThrottleConfig} {entry : Attempts} {now d : ℕ}
    (h : (reserveEntry config entry now).1 = .err d) :
    (reserveEntry config entry now).2.lockedUntil = some (now + d) := by
  have hcount : ∀ e : Attempts, (countAttempt config e now).1 = .err d →
      (countAttempt config e now).2.lockedUntil = some (now + d) := by
    intro e he
    unfold countAttempt at he ⊢
    by_cases hlimit : e.started ≥ config.maxFailures
    · cases hadd : addDuration now config.lockout with
      | none => simp [hlimit, hadd] at he
      | some lockedUntil =>
          have hd : config.lockout = d := by simpa [hlimit, hadd] using he
          simp [hlimit, addDuration_eq_some hadd, hd]
    · simp [hlimit] at he
  unfold reserveEntry at h ⊢
  split at h
  · rename_i lockedUntil hlock
    split at h
    · rename_i hlt
      cases h
      simp only [hlock, hlt, if_true]
      congr 1
      omega
    · rename_i hnot
      simpa [hlock, hnot] using hcount _ h
  · rename_i hlock
    simpa [hlock] using hcount _ h

/-- Attempts during a lockout leave the record alone. -/
theorem clientFinal_locked (config : ThrottleConfig) {entry : Attempts} {lockedUntil : ℕ}
    (hlock : entry.lockedUntil = some lockedUntil) {times : List ℕ}
    (hbefore : ∀ now ∈ times, now < lockedUntil) :
    clientFinal config (some entry) (times.map .reserve) = some entry := by
  induction times with
  | nil => rfl
  | cons now times ih =>
      have hstep := reserveEntry_locked config hlock (hbefore now (by simp))
      simp only [List.map_cons, clientFinal, clientStep, Option.getD_some, hstep]
      exact ih fun t ht ↦ hbefore t (by simp [ht])

/-! ## The shared table -/

/-- Every record of an automaton that has run from the start is well formed. -/
theorem wellFormed_clientFinal {config : ThrottleConfig} (hmax : 1 ≤ config.maxFailures)
    (key : String) {last : ℕ} {client : Option Attempts} (calls : List Call)
    (hwf : ∀ entry, client = some entry → WellFormed config entry last)
    (hchron : Chronological last calls) :
    ∀ entry, clientFinal config client (calls.filterMap (Call.toClient key)) = some entry →
      WellFormed config entry (calls.foldl Call.clock last) := by
  induction calls generalizing last client with
  | nil => exact hwf
  | cons call calls ih =>
      obtain ⟨hclock, hrest⟩ := hchron.cons
      have hmono : ∀ entry, client = some entry → WellFormed config entry (call.clock last) :=
        fun entry he ↦ ⟨(hwf entry he).started_le,
          (hwf entry he).windowStarted_le.trans hclock, (hwf entry he).locked⟩
      cases hc : call.toClient key with
      | none => simpa [hc] using ih hmono hrest
      | some c =>
          simp only [List.filterMap_cons, hc, clientFinal, List.foldl_cons]
          refine ih ?_ hrest
          cases call with
          | recordSuccess k =>
              obtain ⟨rfl, rfl⟩ : k = key ∧ ClientCall.success = c := by
                simpa [Call.toClient] using hc
              simp [clientStep]
          | reserveAt k now =>
              obtain ⟨rfl, rfl⟩ : k = key ∧ .reserve now = c := by
                simpa [Call.toClient] using hc
              rintro entry ⟨rfl⟩
              cases client with
              | some entry => exact (attempted_reserveEntry hmax (hmono entry rfl) le_rfl).2
              | none =>
                  have hfresh : WellFormed config (Attempts.fresh now) now :=
                    ⟨Nat.zero_le _, le_rfl, by simp [Attempts.fresh]⟩
                  exact (attempted_reserveEntry hmax hfresh le_rfl).2

/-- The answer to `call` after the run `calls`. -/
def answerAfter (config : ThrottleConfig) (calls : List Call) (call : Call) :
    Option Reservation :=
  (step config (final config Table.empty calls) call).1

/-- The client `key` after the run `calls`, on its own automaton. -/
def clientAfter (config : ThrottleConfig) (key : String) (calls : List Call) :
    Option Attempts :=
  clientFinal config none (calls.filterMap (Call.toClient key))

theorem clientFinal_append (config : ThrottleConfig) (client : Option Attempts)
    (xs ys : List ClientCall) :
    clientFinal config client (xs ++ ys) =
      clientFinal config (clientFinal config client xs) ys := by
  induction xs generalizing client with
  | nil => rfl
  | cons call xs ih => exact ih _

theorem answerAfter_reserveAt {config : ThrottleConfig} {key : String} {calls : List Call}
    {now : ℕ} (hsorted : NonDecreasing (calls ++ [.reserveAt key now])) :
    answerAfter config calls (.reserveAt key now) =
      some (reserveEntry config
        ((clientAfter config key calls).getD (Attempts.fresh now)) now).1 := by
  have hchron := hsorted.chronological
  have hsim := (run_simulates config key calls (simulates_empty config key)
    hchron.append.1).2
  have hown : (Call.reserveAt key now).toClient key = some (.reserve now) := by
    simp [Call.toClient]
  exact (step_own hsim hchron.clock_le hown).1

theorem clientAfter_reserveAt (config : ThrottleConfig) (key : String) (calls rest : List Call)
    (now : ℕ) :
    clientAfter config key (calls ++ .reserveAt key now :: rest) =
      clientFinal config
        (some (reserveEntry config
          ((clientAfter config key calls).getD (Attempts.fresh now)) now).2)
        (rest.filterMap (Call.toClient key)) := by
  simp [clientAfter, clientFinal_append, Call.toClient, clientFinal, clientStep]

/-- At most `max_failures * (T / min window lockout + 2)` attempts of a client
are admitted in any stretch of a run that lies in an interval of length `T` and
holds no success of that client. -/
theorem admissions_bounded {config : ThrottleConfig} (hmax : 1 ≤ config.maxFailures)
    (hgap : 0 < min config.window config.lockout) (key : String) (before stretch : List Call)
    (start T : ℕ) (hsorted : NonDecreasing (before ++ stretch))
    (hnone : Call.recordSuccess key ∉ stretch)
    (hinterval : ∀ now, Call.reserveAt key now ∈ stretch → start ≤ now ∧ now ≤ start + T) :
    (answersFor key (trace config (final config Table.empty before) stretch)).count
        (some .ok) ≤
      config.maxFailures * (T / min config.window config.lockout + 2) := by
  obtain ⟨hbefore, hstretch⟩ := hsorted.chronological.append
  have hsim := (run_simulates config key before (simulates_empty config key) hbefore).2
  have hnoEntry : ∀ entry, (none : Option Attempts) = some entry →
      WellFormed config entry 0 := by simp
  have hwf := wellFormed_clientFinal hmax key before hnoEntry hbefore
  rw [(run_simulates config key stretch hsim hstretch).1, toClient_of_no_success hnone]
  have htimes : ((before.foldl Call.clock 0) :: reserveTimes key stretch).Pairwise (· ≤ ·) := by
    rw [List.pairwise_cons]
    exact ⟨fun t ht ↦ hstretch.2 t ((reserveTimes_sublist key stretch).subset ht),
      hstretch.1.sublist (reserveTimes_sublist key stretch)⟩
  have hcount := admissions_in_interval hmax hgap hwf htimes
    fun t ht ↦ hinterval t (mem_reserveTimes.mp ht)
  have hsplit : config.maxFailures * (T / min config.window config.lockout + 2) =
      config.maxFailures +
        config.maxFailures * (T / min config.window config.lockout + 1) := by ring
  rw [hsplit]
  exact hcount.trans (Nat.add_le_add_right (Nat.sub_le _ _) _)

/-- The state of a client that was refused at `now` with `d` to wait, as long
as no later attempt reaches `now + d` and none succeeds. -/
theorem locked_after_err {config : ThrottleConfig} {key : String} {before between : List Call}
    {now d : ℕ} (hsorted : NonDecreasing (before ++ [.reserveAt key now]))
    (herr : answerAfter config before (.reserveAt key now) = some (.err d))
    (hnone : Call.recordSuccess key ∉ between)
    (hbefore : ∀ t, Call.reserveAt key t ∈ between → t < now + d) :
    ∃ entry, clientAfter config key (before ++ .reserveAt key now :: between) = some entry ∧
      entry.lockedUntil = some (now + d) := by
  rw [answerAfter_reserveAt hsorted] at herr
  have hlock := lockedUntil_of_err (Option.some.inj herr)
  refine ⟨_, ?_, hlock⟩
  rw [clientAfter_reserveAt, toClient_of_no_success hnone]
  exact clientFinal_locked config hlock fun t ht ↦ hbefore t (mem_reserveTimes.mp ht)

/-- Guessing is bounded, and a refusal names the exact end of the lockout:
until then every attempt is refused with the remaining time, and the first
attempt from then on is admitted. -/
theorem guessing_bounded_and_lockouts_honest (config : ThrottleConfig)
    (hmax : 1 ≤ config.maxFailures) (hgap : 0 < min config.window config.lockout)
    (key : String) :
    (∀ (before stretch : List Call) (start T : ℕ),
      NonDecreasing (before ++ stretch) → Call.recordSuccess key ∉ stretch →
      (∀ now, Call.reserveAt key now ∈ stretch → start ≤ now ∧ now ≤ start + T) →
      (answersFor key (trace config (final config Table.empty before) stretch)).count
          (some .ok) ≤
        config.maxFailures * (T / min config.window config.lockout + 2)) ∧
    ∀ (before between : List Call) (now d later : ℕ),
      NonDecreasing (before ++ .reserveAt key now :: between ++ [.reserveAt key later]) →
      answerAfter config before (.reserveAt key now) = some (.err d) →
      Call.recordSuccess key ∉ between →
      (later < now + d →
        answerAfter config (before ++ .reserveAt key now :: between) (.reserveAt key later) =
          some (.err (now + d - later))) ∧
      (now + d ≤ later → (∀ t, Call.reserveAt key t ∈ between → t < now + d) →
        answerAfter config (before ++ .reserveAt key now :: between) (.reserveAt key later) =
          some .ok) := by
  refine ⟨admissions_bounded hmax hgap key, ?_⟩
  intro before between now d later hsorted herr hnone
  have hfirst : NonDecreasing (before ++ [.reserveAt key now]) := by
    refine hsorted.sublist (List.Sublist.filterMap _ ?_)
    rw [List.append_assoc]
    exact (List.Sublist.refl before).append (by simp)
  rw [answerAfter_reserveAt hsorted]
  constructor
  · intro hlater
    have hbefore : ∀ t, Call.reserveAt key t ∈ between → t < now + d := by
      intro t ht
      have hle : t ≤ later := by
        simp only [NonDecreasing, List.filterMap_append, List.pairwise_append] at hsorted
        exact hsorted.2.2 t (by
          simp only [List.mem_append, List.mem_filterMap]
          exact Or.inr ⟨_, List.mem_cons_of_mem _ ht, rfl⟩) later (by simp [Call.time])
      omega
    obtain ⟨entry, hentry, hlock⟩ := locked_after_err hfirst herr hnone hbefore
    rw [hentry, Option.getD_some, reserveEntry_locked config hlock hlater]
  · intro hlater hbefore
    obtain ⟨entry, hentry, hlock⟩ := locked_after_err hfirst herr hnone hbefore
    rw [hentry, Option.getD_some, reserveEntry_served hmax hlock hlater]

/-- One attempt, a refusal at 5 for 300, a refusal at 100 for the rest, and an
admission at 305. -/
theorem guessing_bounded_and_lockouts_honest_single_attempt :
    (answersFor "a" (trace ⟨1, 900, 300⟩ Table.empty
        [.reserveAt "a" 0, .reserveAt "a" 5])).count (some .ok) ≤ 1 * (5 / 300 + 2) ∧
      answerAfter ⟨1, 900, 300⟩ [.reserveAt "a" 0, .reserveAt "a" 5] (.reserveAt "a" 100) =
        some (.err 205) ∧
      answerAfter ⟨1, 900, 300⟩ [.reserveAt "a" 0, .reserveAt "a" 5] (.reserveAt "a" 305) =
        some .ok := by
  have h := guessing_bounded_and_lockouts_honest ⟨1, 900, 300⟩ (by decide) (by decide) "a"
  refine ⟨?_, ?_, ?_⟩
  · exact h.1 [] [.reserveAt "a" 0, .reserveAt "a" 5] 0 5 (by unfold NonDecreasing; decide)
      (by decide) (by simp)
  · exact (h.2 [.reserveAt "a" 0] [] 5 300 100 (by unfold NonDecreasing; decide)
      (by decide) (by simp)).1 (by decide)
  · exact (h.2 [.reserveAt "a" 0] [] 5 300 305 (by unfold NonDecreasing; decide)
      (by decide) (by simp)).2 (by decide) (by simp)

end Otdel.Throttle
