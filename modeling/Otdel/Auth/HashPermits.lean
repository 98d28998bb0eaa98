import Otdel.Api.Error
import Otdel.Auth.Throttle
import Otdel.Library.Run

/-!
# Password hashing

A login reserves an attempt, waits for a permit, and hands the permit to a closure
on the blocking pool that verifies the password.  The closure runs to its end,
whether or not its request is still there.
-/

namespace Otdel.Login

open Throttle

/-- Simultaneous Argon2 verifications. -/
def maxConcurrentPasswordHashes : ℕ := 2

structure LoginRequest where
  throttleKey : String
  password : Text

/-- Where the future of a request stands: at an await point, or at its end. -/
inductive Future where
  | received
  /-- `hash_permit().await`. -/
  | waiting
  /-- The permit is its own, the closure not yet spawned. -/
  | granted
  /-- `spawn_blocking(..).await`. -/
  | joining
  /-- `sessions::open(..).await`. -/
  | opening
  | answered (r : Except ApiError Unit)
  | panicked
  | dropped

/-- The closure of a request, which owns the permit until it ends. -/
inductive Closure where
  | absent
  | queued
  | running
  | returned (verified : Bool)
  | panicked

structure Attempt where
  future : Future
  closure : Closure

/-- `reserved` and `started` count, for each key, the attempts that `reserve` has admitted and
the verifications that have begun. -/
structure State (ι : Type) where
  throttle : Table
  available : ℕ
  attempts : ι → Attempt
  reserved : String → ℕ
  started : String → ℕ

/-- A verification returns or panics (`unwind`); a request is dropped where it stands. -/
inductive Event (ι : Type) where
  | poll (i : ι) (now : ℕ)
  | grant (i : ι)
  | spawn (i : ι)
  | start (i : ι)
  | finish (i : ι)
  | unwind (i : ι)
  | join (i : ι)
  | opened (i : ι) (r : Except ApiError Unit)
  | drop (i : ι)

def rateLimited (retryAfter : ℕ) : ApiError :=
  ⟨.new .rateLimited "too many failed sign-in attempts; try again later", some retryAfter⟩

def signInFailed : ApiError := .new (.unauthorized "sign-in failed")

variable {ι : Type} [DecidableEq ι]

namespace State

def setFuture (s : State ι) (i : ι) (future : Future) : State ι :=
  { s with attempts := Function.update s.attempts i { s.attempts i with future } }

def setClosure (s : State ι) (i : ι) (closure : Closure) : State ι :=
  { s with attempts := Function.update s.attempts i { s.attempts i with closure } }

/-- Before any request is polled. -/
def new (ι : Type) : State ι where
  throttle := Table.empty
  available := maxConcurrentPasswordHashes
  attempts _ := ⟨.received, .absent⟩
  reserved _ := 0
  started _ := 0

end State

/-- One more for this key. -/
def countKey (counts : String → ℕ) (key : String) : String → ℕ :=
  Function.update counts key (counts key + 1)

variable (config : ThrottleConfig) (verifyPassword : Text → Bool) (requests : ι → LoginRequest)

/-- The request after `reserve` has answered. -/
def afterReserve (s : State ι) (i : ι) : Reservation → State ι
  | .ok => { s.setFuture i .waiting with
      reserved := countKey s.reserved (requests i).throttleKey }
  | .err retryAfter => s.setFuture i (.answered (.error (rateLimited retryAfter)))
  | .panicked => s.setFuture i .panicked

/-- The request up to its first await point. -/
def reserve (s : State ι) (i : ι) (now : ℕ) : State ι :=
  let r := reserveAt config s.throttle (requests i).throttleKey now
  afterReserve requests { s with throttle := r.2 } i r.1

/-- The request after its verification has ended. -/
def afterJoin (s : State ι) (i : ι) : Closure → Option (State ι)
  | .returned true => some { s.setFuture i .opening with
      throttle := recordSuccess s.throttle (requests i).throttleKey }
  | .returned false => some (s.setFuture i (.answered (.error signInFailed)))
  | .panicked => some (s.setFuture i
      (.answered (.error (.new (.internal "internal server error")))))
  | _ => none

/-- Dropping a request gives back the permit it still owns. -/
def dropFuture (s : State ι) (i : ι) : Future → Option (State ι)
  | .received => some (s.setFuture i .dropped)
  | .waiting => some (s.setFuture i .dropped)
  | .granted => some { s.setFuture i .dropped with available := s.available + 1 }
  | .joining => some (s.setFuture i .dropped)
  | .opening => some (s.setFuture i .dropped)
  | _ => none

def step (s : State ι) : Event ι → Option (State ι)
  | .poll i now =>
      match (s.attempts i).future with
      | .received => some (reserve config requests s i now)
      | _ => none
  | .grant i =>
      match (s.attempts i).future, s.available with
      | .waiting, available + 1 => some { s.setFuture i .granted with available }
      | _, _ => none
  | .spawn i =>
      match (s.attempts i).future with
      | .granted => some ((s.setClosure i .queued).setFuture i .joining)
      | _ => none
  | .start i =>
      match (s.attempts i).closure with
      | .queued => some { s.setClosure i .running with
          started := countKey s.started (requests i).throttleKey }
      | _ => none
  | .finish i =>
      match (s.attempts i).closure with
      | .running => some
          { s.setClosure i (.returned (verifyPassword (requests i).password)) with
            available := s.available + 1 }
      | _ => none
  | .unwind i =>
      match (s.attempts i).closure with
      | .running => some { s.setClosure i .panicked with available := s.available + 1 }
      | _ => none
  | .join i =>
      match (s.attempts i).future with
      | .joining => afterJoin requests s i (s.attempts i).closure
      | _ => none
  | .opened i r =>
      match (s.attempts i).future with
      | .opening => some (s.setFuture i (.answered r))
      | _ => none
  | .drop i => dropFuture s i (s.attempts i).future

section Updates

variable {s : State ι} {i : ι} {old : Attempt}

theorem attempts_setFuture (hold : s.attempts i = old) (future : Future) :
    (s.setFuture i future).attempts = Function.update s.attempts i { old with future } := by
  rw [← hold, State.setFuture]

theorem attempts_setClosure (hold : s.attempts i = old) (closure : Closure) :
    (s.setClosure i closure).attempts = Function.update s.attempts i { old with closure } := by
  rw [← hold, State.setClosure]

end Updates

/-! ## Permits -/

/-- The request owns a permit that it has not handed on. -/
def Future.isGranted : Future → Bool
  | .granted => true
  | _ => false

/-- The closure owns its permit. -/
def Closure.holdsPermit : Closure → Bool
  | .queued => true
  | .running => true
  | _ => false

def Closure.isRunning : Closure → Bool
  | .running => true
  | _ => false

namespace Attempt

/-- Permits that are out. -/
def held (a : Attempt) : ℕ := a.future.isGranted.toNat + a.closure.holdsPermit.toNat

/-- Admitted, and no verification begun. -/
def pending (a : Attempt) : ℕ :=
  match a.future, a.closure with
  | .waiting, _ => 1
  | .granted, _ => 1
  | _, .queued => 1
  | _, _ => 0

/-- A closure has been spawned only if the request is past its permit. -/
def InOrder (a : Attempt) : Prop :=
  match a.future with
  | .received => a.closure = .absent
  | .waiting => a.closure = .absent
  | .granted => a.closure = .absent
  | _ => True

end Attempt

/-- The pending verifications of the key that the request counts for. -/
def pendingFor (key : String) (i : ι) (a : Attempt) : ℕ :=
  if (requests i).throttleKey = key then a.pending else 0

variable [Fintype ι]

structure Invariant (s : State ι) : Prop where
  permits : s.available + ∑ i, (s.attempts i).held = maxConcurrentPasswordHashes
  counted : ∀ key,
    s.started key + ∑ i, pendingFor requests key i (s.attempts i) ≤ s.reserved key
  inOrder : ∀ i, (s.attempts i).InOrder

variable {config verifyPassword requests} {s s' : State ι} {i : ι}

/-- A sum in which one term changes. -/
theorem sum_update (f : ι → Attempt → ℕ) (attempts : ι → Attempt) (i : ι) (a : Attempt) :
    ∑ j, f j (Function.update attempts i a j) + f i (attempts i) =
      ∑ j, f j (attempts j) + f i a := by
  rw [← Finset.add_sum_erase _ _ (Finset.mem_univ i),
    ← Finset.add_sum_erase Finset.univ (fun j ↦ f j (attempts j)) (Finset.mem_univ i)]
  have hrest : ∑ j ∈ Finset.univ.erase i, f j (Function.update attempts i a j) =
      ∑ j ∈ Finset.univ.erase i, f j (attempts j) := by
    apply Finset.sum_congr rfl
    intro j hj
    rw [Function.update_of_ne (Finset.ne_of_mem_erase hj)]
  rw [hrest, Function.update_self]
  omega

/-- A step of one attempt keeps the invariant if no permit and no count gets lost. -/
theorem Invariant.change (h : Invariant requests s) {old : Attempt} (a : Attempt)
    (hold : s.attempts i = old)
    (hattempts : s'.attempts = Function.update s.attempts i a)
    (hheld : s'.available + a.held = s.available + old.held)
    (hcounted : ∀ key, s'.started key + pendingFor requests key i a + s.reserved key ≤
      s.started key + pendingFor requests key i old + s'.reserved key)
    (horder : a.InOrder) : Invariant requests s' := by
  subst hold
  constructor
  · have hsum := sum_update (fun _ a ↦ a.held) s.attempts i a
    have hpermits := h.permits
    rw [hattempts]
    omega
  · intro key
    have hsum := sum_update (pendingFor requests key) s.attempts i a
    have hcount := h.counted key
    have hkey := hcounted key
    rw [hattempts]
    omega
  · intro j
    rw [hattempts]
    by_cases hj : j = i
    · rw [hj, Function.update_self]
      exact horder
    · rw [Function.update_of_ne hj]
      exact h.inOrder j

/-- A step that admits no one and begins no verification. -/
theorem Invariant.quiet (h : Invariant requests s) {old : Attempt} (a : Attempt)
    (hold : s.attempts i = old)
    (hattempts : s'.attempts = Function.update s.attempts i a)
    (hstarted : s'.started = s.started) (hreserved : s'.reserved = s.reserved)
    (hheld : s'.available + a.held = s.available + old.held)
    (hpending : a.pending ≤ old.pending) (horder : a.InOrder) : Invariant requests s' := by
  apply h.change a hold hattempts hheld _ horder
  intro key
  rw [hstarted, hreserved]
  unfold pendingFor
  split <;> omega

omit [DecidableEq ι] in
theorem invariant_new : Invariant requests (State.new ι) where
  permits := by simp [State.new, Attempt.held, Future.isGranted, Closure.holdsPermit]
  counted := by simp [State.new, pendingFor, Attempt.pending]
  inOrder _ := rfl

omit [DecidableEq ι] in
theorem Invariant.absent (h : Invariant requests s) {future : Future} {closure : Closure}
    (hold : s.attempts i = ⟨future, closure⟩)
    (hearly : future = .received ∨ future = .waiting ∨ future = .granted) : closure = .absent := by
  have horder := h.inOrder i
  rw [hold] at horder
  rcases hearly with rfl | rfl | rfl <;> exact horder

omit [DecidableEq ι] in
theorem Invariant.spawned (h : Invariant requests s) {future : Future} {closure : Closure}
    (hold : s.attempts i = ⟨future, closure⟩) (hclosure : closure ≠ .absent) :
    future ≠ .received ∧ future ≠ .waiting ∧ future ≠ .granted := by
  refine ⟨?_, ?_, ?_⟩ <;> rintro rfl
  · exact hclosure (h.absent hold (Or.inl rfl))
  · exact hclosure (h.absent hold (Or.inr (Or.inl rfl)))
  · exact hclosure (h.absent hold (Or.inr (Or.inr rfl)))

omit [DecidableEq ι] in
theorem Invariant.throttled (h : Invariant requests s) (throttle : Table) :
    Invariant requests { s with throttle } := ⟨h.permits, h.counted, h.inOrder⟩

theorem Invariant.afterReserve (h : Invariant requests s)
    (hold : s.attempts i = ⟨.received, .absent⟩) (answer : Reservation) :
    Invariant requests (afterReserve requests s i answer) := by
  cases answer with
  | ok =>
      refine h.change ⟨.waiting, .absent⟩ hold ?_ rfl (fun key ↦ ?_) rfl
      · exact attempts_setFuture hold .waiting
      · simp only [Login.afterReserve, State.setFuture, pendingFor, Attempt.pending, countKey,
          Function.update_apply]
        by_cases hkey : (requests i).throttleKey = key
        · simp [hkey]
          omega
        · simp [hkey, Ne.symm hkey]
  | err retryAfter =>
      exact h.quiet _ hold (attempts_setFuture hold _) rfl rfl rfl le_rfl trivial
  | panicked => exact h.quiet _ hold (attempts_setFuture hold _) rfl rfl rfl le_rfl trivial

theorem Invariant.afterJoin (h : Invariant requests s) {closure : Closure}
    (hold : s.attempts i = ⟨.joining, closure⟩)
    (hstep : afterJoin requests s i closure = some s') : Invariant requests s' := by
  cases closure with
  | returned verified =>
      cases verified with
      | true =>
          cases hstep
          exact h.quiet _ hold (attempts_setFuture hold .opening) rfl rfl rfl le_rfl trivial
      | false =>
          cases hstep
          exact h.quiet _ hold (attempts_setFuture hold _) rfl rfl rfl le_rfl trivial
  | panicked =>
      cases hstep
      exact h.quiet _ hold (attempts_setFuture hold _) rfl rfl rfl le_rfl trivial
  | absent | queued | running => cases hstep

theorem Invariant.dropFuture (h : Invariant requests s) {future : Future} {closure : Closure}
    (hold : s.attempts i = ⟨future, closure⟩) (hstep : dropFuture s i future = some s') :
    Invariant requests s' := by
  cases future with
  | received =>
      cases h.absent hold (Or.inl rfl)
      cases hstep
      exact h.quiet _ hold (attempts_setFuture hold .dropped) rfl rfl rfl le_rfl trivial
  | waiting =>
      cases h.absent hold (Or.inr (Or.inl rfl))
      cases hstep
      exact h.quiet _ hold (attempts_setFuture hold .dropped) rfl rfl rfl (Nat.zero_le _) trivial
  | granted =>
      cases h.absent hold (Or.inr (Or.inr rfl))
      cases hstep
      exact h.quiet _ hold (attempts_setFuture hold .dropped) rfl rfl rfl (Nat.zero_le _) trivial
  | joining | opening =>
      cases hstep
      refine h.quiet _ hold (attempts_setFuture hold .dropped) rfl rfl rfl ?_ trivial
      cases closure <;> exact le_rfl
  | answered | panicked | dropped => cases hstep

/-- The closure begins: one pending verification becomes one that has started. -/
theorem Invariant.started (h : Invariant requests s) {future : Future}
    (hold : s.attempts i = ⟨future, .queued⟩) :
    Invariant requests { s.setClosure i .running with
      started := countKey s.started (requests i).throttleKey } := by
  obtain ⟨hreceived, hwaiting, hgranted⟩ := h.spawned hold nofun
  refine h.change ⟨future, .running⟩ hold ?_ rfl (fun key ↦ ?_) ?_
  · exact attempts_setClosure hold .running
  · have hpending : Attempt.pending ⟨future, .running⟩ + 1 = Attempt.pending ⟨future, .queued⟩ := by
      cases future <;> simp_all [Attempt.pending]
    simp only [State.setClosure, pendingFor, countKey, Function.update_apply]
    by_cases hkey : (requests i).throttleKey = key
    · simp only [hkey, if_true]
      omega
    · simp [hkey, Ne.symm hkey]
  · cases future <;> simp_all [Attempt.InOrder]

/-- The closure ends, and its permit comes back. -/
theorem Invariant.ended (h : Invariant requests s) {future : Future} {closure : Closure}
    (hold : s.attempts i = ⟨future, .running⟩) (hnone : closure ≠ .queued)
    (hpermit : closure.holdsPermit = false) :
    Invariant requests { s.setClosure i closure with available := s.available + 1 } := by
  obtain ⟨hreceived, hwaiting, hgranted⟩ := h.spawned hold nofun
  refine h.quiet ⟨future, closure⟩ hold ?_ rfl rfl ?_ ?_ ?_
  · exact attempts_setClosure hold closure
  · have hrunning : Closure.holdsPermit .running = true := rfl
    simp only [Attempt.held, hpermit, hrunning, Bool.toNat_false, Bool.toNat_true]
    omega
  · cases future <;> cases closure <;> simp_all [Attempt.pending]
  · cases future <;> simp_all [Attempt.InOrder]

theorem Invariant.step {e : Event ι} (h : Invariant requests s)
    (hstep : step config verifyPassword requests s e = some s') : Invariant requests s' := by
  cases e with
  | poll i now =>
      rcases hold : s.attempts i with ⟨future, closure⟩
      simp only [Login.step, hold] at hstep
      cases future with
      | received =>
          cases hstep
          cases h.absent hold (Or.inl rfl)
          exact (h.throttled (reserveAt config s.throttle _ now).2).afterReserve hold _
      | _ => cases hstep
  | grant i =>
      rcases hold : s.attempts i with ⟨future, closure⟩
      rcases havailable : s.available with _ | available
      · simp only [Login.step, hold, havailable] at hstep
        cases future <;> cases hstep
      · simp only [Login.step, hold, havailable] at hstep
        cases future with
        | waiting =>
            cases hstep
            cases h.absent hold (Or.inr (Or.inl rfl))
            refine h.quiet ⟨.granted, .absent⟩ hold ?_ rfl rfl ?_ le_rfl rfl
            · exact attempts_setFuture hold .granted
            · simp [havailable, Attempt.held, Future.isGranted, Closure.holdsPermit]
        | _ => cases hstep
  | spawn i =>
      rcases hold : s.attempts i with ⟨future, closure⟩
      simp only [Login.step, hold] at hstep
      cases future with
      | granted =>
          cases hstep
          cases h.absent hold (Or.inr (Or.inr rfl))
          have hqueued := attempts_setClosure hold .queued
          refine h.quiet ⟨.joining, .queued⟩ hold ?_ rfl rfl rfl le_rfl trivial
          simp only [State.setFuture, hqueued, Function.update_self, Function.update_idem]
      | _ => cases hstep
  | start i =>
      rcases hold : s.attempts i with ⟨future, closure⟩
      simp only [Login.step, hold] at hstep
      cases closure with
      | queued =>
          cases hstep
          exact h.started hold
      | _ => cases hstep
  | finish i =>
      rcases hold : s.attempts i with ⟨future, closure⟩
      simp only [Login.step, hold] at hstep
      cases closure with
      | running =>
          cases hstep
          exact h.ended hold nofun rfl
      | _ => cases hstep
  | unwind i =>
      rcases hold : s.attempts i with ⟨future, closure⟩
      simp only [Login.step, hold] at hstep
      cases closure with
      | running =>
          cases hstep
          exact h.ended hold nofun rfl
      | _ => cases hstep
  | join i =>
      rcases hold : s.attempts i with ⟨future, closure⟩
      simp only [Login.step, hold] at hstep
      cases future with
      | joining => exact h.afterJoin hold hstep
      | _ => cases hstep
  | opened i r =>
      rcases hold : s.attempts i with ⟨future, closure⟩
      simp only [Login.step, hold] at hstep
      cases future with
      | opening =>
          cases hstep
          refine h.quiet _ hold (attempts_setFuture hold _) rfl rfl rfl ?_ trivial
          cases closure <;> exact le_rfl
      | _ => cases hstep
  | drop i =>
      rcases hold : s.attempts i with ⟨future, closure⟩
      simp only [Login.step, hold] at hstep
      exact h.dropFuture hold hstep

theorem Invariant.run {events : List (Event ι)} (h : Invariant requests s)
    (hrun : Run.run (Login.step config verifyPassword requests) s events = some s') :
    Invariant requests s' := by
  induction events generalizing s with
  | nil =>
      cases hrun
      exact h
  | cons e es ih =>
      obtain ⟨t, hstep, hrest⟩ := Run.run_eq_some_cons.mp hrun
      exact ih (h.step hstep) hrest

omit [DecidableEq ι] in
/-- A sum of zeros and ones counts. -/
theorem sum_toNat (p : ι → Bool) : ∑ i, (p i).toNat = (Finset.univ.filter (p · = true)).card := by
  rw [Finset.card_filter]
  apply Finset.sum_congr rfl
  intro i _
  cases p i <;> rfl

variable (config verifyPassword requests)

/-- The permits of a state: those that are there, those of the requests and those of the
closures. -/
structure PermitsKept (s : State ι) : Prop where
  bounded : (Finset.univ.filter fun i ↦ (s.attempts i).closure.isRunning).card ≤ 2
  started : ∀ key, s.started key ≤ s.reserved key
  conserved : s.available + (Finset.univ.filter fun i ↦ (s.attempts i).future.isGranted).card +
    (Finset.univ.filter fun i ↦ (s.attempts i).closure.holdsPermit).card = 2
  restored : (∀ i, (s.attempts i).future.isGranted = false ∧
    (s.attempts i).closure.holdsPermit = false) → s.available = 2

variable {config verifyPassword requests}

theorem Closure.holdsPermit_of_isRunning {closure : Closure} (h : closure.isRunning = true) :
    closure.holdsPermit = true := by
  cases closure with
  | running => rfl
  | _ => cases h

omit [DecidableEq ι] in
theorem Invariant.conserved (h : Invariant requests s) :
    s.available + (Finset.univ.filter fun i ↦ (s.attempts i).future.isGranted).card +
      (Finset.univ.filter fun i ↦ (s.attempts i).closure.holdsPermit).card = 2 := by
  rw [← sum_toNat, ← sum_toNat, Nat.add_assoc, ← Finset.sum_add_distrib]
  exact h.permits

omit [DecidableEq ι] in
theorem Invariant.kept (h : Invariant requests s) : PermitsKept s where
  bounded := by
    have hsub : (Finset.univ.filter fun i ↦ (s.attempts i).closure.isRunning) ⊆
        Finset.univ.filter fun i ↦ (s.attempts i).closure.holdsPermit := by
      intro i hi
      rw [Finset.mem_filter] at hi ⊢
      exact ⟨hi.1, Closure.holdsPermit_of_isRunning hi.2⟩
    have hcard := Finset.card_le_card hsub
    have hconserved := h.conserved
    omega
  started key := by
    have hcounted := h.counted key
    omega
  conserved := h.conserved
  restored := by
    intro hnone
    have hconserved := h.conserved
    simpa [hnone] using hconserved

/-- In every state that logins reach, however their steps interleave and wherever a request
is dropped, no permit is lost and none is given out twice. -/
theorem permits_kept {events : List (Event ι)}
    (hrun : Run.run (step config verifyPassword requests) (State.new ι) events = some s) :
    PermitsKept s := (invariant_new.run hrun).kept

/-- Three requests for one key.  The first leaves while its verification runs, so that the
third has to wait for a panic of the second. -/
def sampleEvents : List (Event (Fin 3)) :=
  [.poll 0 0, .poll 1 0, .poll 2 0, .grant 0, .spawn 0, .grant 1, .start 0, .drop 0, .spawn 1,
    .start 1, .unwind 1, .grant 2]

theorem permits_kept_sample : ∃ s, Run.run (step ⟨5, 900, 300⟩ (fun _ ↦ true)
      fun _ : Fin 3 ↦ ⟨"owner", "password".toList⟩) (State.new (Fin 3)) sampleEvents = some s ∧
    s.available = 0 ∧ PermitsKept s := by
  have havailable : (Run.run (step ⟨5, 900, 300⟩ (fun _ ↦ true)
      fun _ : Fin 3 ↦ ⟨"owner", "password".toList⟩) (State.new (Fin 3)) sampleEvents).map
      State.available = some 0 := by decide +kernel
  obtain ⟨s, hrun, hnone⟩ := Option.map_eq_some_iff.mp havailable
  exact ⟨s, hrun, hnone, permits_kept hrun⟩

end Otdel.Login
