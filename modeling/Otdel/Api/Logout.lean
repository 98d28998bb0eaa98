import Otdel.Api.Session
import Otdel.Db.SessionRuns
import Otdel.Library.Transcript

/-!
# From login to logout

A session is found from its opening until it expires, is idle for too long or is
closed; a logout closes the session that authenticated it.
-/

namespace Otdel

open Program

variable {http : HttpCrate} {sha256 : Sha256} {config : Config} {parts : RequestParts}
  {calls : List (Sigma fun _ : SessionOp ↦ SessionAnswer)}

/-! ## The calls of a request -/

theorem Sessions.performs_touch {fingerprint : Text} {idleSeconds : ℤ}
    {record : Option SessionRecord} :
    Performs (Sessions.touch fingerprint idleSeconds) calls (.ok record) ↔
      calls = [⟨.touch fingerprint idleSeconds, .touched (.ok record)⟩] := by
  refine performs_andThen.trans ⟨?_, ?_⟩
  · rintro ⟨first, answer, second, rfl, hfirst, hsecond⟩
    rw [performs_lift, performs_perform] at hfirst
    cases answer with
    | touched r =>
        obtain ⟨rfl, hr⟩ := performs_ofExcept.mp hsecond
        cases r with
        | ok r =>
            cases hr
            rw [hfirst, List.append_nil]
        | error e => cases hr
    | opened | closed | purged => exact absurd hsecond not_performs_fail
  · rintro rfl
    refine ⟨_, .touched (.ok record), [], (List.append_nil _).symm, ?_, ?_⟩
    · exact performs_lift.mpr (performs_perform.mpr rfl)
    · exact performs_ofExcept.mpr ⟨rfl, rfl⟩

theorem Sessions.performs_close {fingerprint : Text} {found : Bool}
    (h : Performs (Sessions.close fingerprint) calls (.ok found)) :
    ∃ removed, calls = [⟨.close fingerprint, .closed removed⟩] := by
  obtain ⟨first, answer, second, rfl, hfirst, hsecond⟩ := performs_andThen.mp h
  rw [performs_lift, performs_perform] at hfirst
  cases answer with
  | closed removed =>
      obtain ⟨rfl, -⟩ := performs_return.mp hsecond
      exact ⟨removed, by rw [hfirst, List.append_nil]⟩
  | opened | touched | purged => exact absurd hsecond not_performs_fail

namespace Auth

/-- Whoever is let in has been found by one touch. -/
theorem performs_fromRequestParts {session : Session}
    (h : Performs (Session.fromRequestParts http sha256 config parts) calls (.ok session)) :
    ∃ token idleSeconds record, requestToken http parts.headers config = some token ∧
      tryI32 config.sessionIdleTimeout = some idleSeconds ∧ session = Session.ofRecord record ∧
        calls = [⟨.touch (tokenFingerprint sha256 token) idleSeconds,
          .touched (.ok (some record))⟩] := by
  obtain ⟨token, htoken, hrest⟩ := performs_ofExcept_andThen.mp h
  obtain ⟨idleSeconds, hidle, hcalls⟩ := performs_ofExcept_andThen.mp hrest
  obtain ⟨first, found, second, rfl, htouch, hdone⟩ := performs_andThen.mp hcalls
  obtain rfl := Sessions.performs_touch.mp (performs_mapError.mp htouch)
  obtain ⟨record, hfound, hchecks⟩ := performs_ofExcept_andThen.mp hdone
  obtain rfl := okOr_eq_ok.mp hfound
  have hsession : second = [] ∧ session = Session.ofRecord record := by
    split at hchecks
    · obtain ⟨-, -, hcsrf⟩ := performs_ofExcept_andThen.mp hchecks
      obtain ⟨-, -, hreturn⟩ := performs_ofExcept_andThen.mp hcsrf
      exact performs_return.mp hreturn
    · exact performs_return.mp hchecks
  obtain ⟨rfl, rfl⟩ := hsession
  exact ⟨token, idleSeconds, record, (Option.filter_eq_some_iff.mp (okOr_eq_ok.mp htoken)).1,
    okOr_eq_ok.mp hidle, rfl, rfl⟩

/-- A logout closes the session that it was let in by. -/
theorem performs_logout {status : ℕ}
    (h : Performs (logout http sha256 config parts) calls (.ok status)) :
    ∃ token idleSeconds record removed, tryI32 config.sessionIdleTimeout = some idleSeconds ∧
      calls = [⟨.touch (tokenFingerprint sha256 token) idleSeconds,
          .touched (.ok (some record))⟩,
        ⟨.close (tokenFingerprint sha256 token), .closed removed⟩] := by
  obtain ⟨first, session, second, rfl, hsession, hclose⟩ := performs_andThen.mp h
  obtain ⟨token, idleSeconds, record, htoken, hidle, -, rfl⟩ := performs_fromRequestParts hsession
  rw [htoken] at hclose
  obtain ⟨closing, found, rest, rfl, hclosing, hrest⟩ := performs_andThen.mp hclose
  obtain ⟨removed, rfl⟩ := Sessions.performs_close (performs_mapError.mp hclosing)
  obtain ⟨rfl, -⟩ := performs_return.mp hrest
  exact ⟨token, idleSeconds, record, removed, hidle, rfl⟩

end Auth

/-! ## A run of calls -/

namespace Sessions

variable (bureaus : List BureauRow)

/-- The answer of a call that comes after a run from no rows. -/
def answer (earlier : List (ℤ × SessionOp)) (now : ℤ) (op : SessionOp) : SessionAnswer :=
  (op.run bureaus now (after bureaus [] earlier)).1

/-- What the sessions of a run of calls can rely on, from no rows on. -/
structure LifetimesKept (idleSeconds : ℤ) (events : List (ℤ × SessionOp)) : Prop where
  /-- A touch answers the session, if it is live since its opening. -/
  touch : ∀ earlier now fingerprint later,
    events = earlier ++ (now, .touch fingerprint idleSeconds) :: later →
      ∃ found, answer bureaus earlier now (.touch fingerprint idleSeconds) =
          .touched (.ok found) ∧
        ∀ record, found = some record ↔
          LiveSince idleSeconds fingerprint now record (history bureaus [] earlier)
  /-- No touch tells the purges. -/
  purge : touches (history bureaus [] events) =
    touches (history bureaus [] (events.filter notPurge))
  /-- Once refused after its opening, refused for ever. -/
  refused : ∀ earlier now fingerprint between later rest,
    events = earlier ++ (now, .touch fingerprint idleSeconds) ::
        (between ++ (later, .touch fingerprint idleSeconds) :: rest) →
      fingerprint ∈ openedTokens earlier →
        answer bureaus earlier now (.touch fingerprint idleSeconds) = .touched (.ok none) →
          answer bureaus (earlier ++ (now, .touch fingerprint idleSeconds) :: between) later
            (.touch fingerprint idleSeconds) = .touched (.ok none)
  /-- The calls of a token are answered as they are without those of the others. -/
  others : ∀ fingerprint, stepsOf fingerprint (history bureaus [] events) =
    stepsOf fingerprint (history bureaus [] (events.filter (concerns fingerprint)))
  /-- A logout that answers 200 closes the session that authenticated it, and no other. -/
  logout : ∀ http sha256 config parts calls, tryI32 config.sessionIdleTimeout = some idleSeconds →
    Performs (Auth.logout http sha256 config parts) calls (.ok 200) →
      ∃ fingerprint record removed, calls = [⟨.touch fingerprint idleSeconds,
            .touched (.ok (some record))⟩, ⟨.close fingerprint, .closed removed⟩] ∧
        ∀ earlier now between later rest,
          events = earlier ++ (now, .touch fingerprint idleSeconds) ::
              (between ++ (later, .close fingerprint) :: rest) →
            answer bureaus earlier now (.touch fingerprint idleSeconds) =
                .touched (.ok (some record)) →
              ∀ rows, rows = after bureaus []
                  (earlier ++ (now, .touch fingerprint idleSeconds) :: between) →
                ((SessionOp.close fingerprint).run bureaus later rows).2 =
                    rows.filter (fun row ↦ !row.hasFingerprint fingerprint) ∧
                  HasRecord fingerprint record rows

variable {bureaus} {idleSeconds now later : ℤ} {fingerprint : Text}
  {events earlier between rest : List (ℤ × SessionOp)} {record : SessionRecord}

theorem answer_touch (hidle : 60 ≤ idleSeconds) :
    answer bureaus earlier now (.touch fingerprint idleSeconds) =
      .touched (.ok (((after bureaus [] earlier).find?
        (isTouched fingerprint idleSeconds now)).map SessionRow.record)) := by
  rw [answer, run_touch hidle]

/-- A session that a touch misses is missed by every later one. -/
theorem answer_refused (hidle : 60 ≤ idleSeconds)
    (huses : ∀ e ∈ between, e.2.UsesIdle idleSeconds)
    (hsorted : (between.map Prod.fst).Pairwise (· ≤ ·)) (hfrom : ∀ e ∈ between, now ≤ e.1)
    (hto : ∀ e ∈ between, e.1 ≤ later) (hle : now ≤ later)
    (hopen : fingerprint ∉ openedTokens between)
    (h : answer bureaus earlier now (.touch fingerprint idleSeconds) = .touched (.ok none)) :
    answer bureaus (earlier ++ (now, .touch fingerprint idleSeconds) :: between) later
      (.touch fingerprint idleSeconds) = .touched (.ok none) := by
  rw [answer_touch hidle] at h ⊢
  simp only [SessionAnswer.touched.injEq, Except.ok.injEq, Option.map_eq_none_iff] at h ⊢
  have huse : (SessionOp.touch fingerprint idleSeconds).UsesIdle idleSeconds := rfl
  have hnow := (refused_of_find h).run bureaus hidle le_rfl huse (by simp [openedTokens])
  rw [after_append]
  exact find_of_refused (hnow.after hidle huses hsorted hfrom hopen hto hle)

/-- Between a touch that finds it and a later call, the session of a token is the same. -/
theorem hasRecord_of_answer (hidle : 60 ≤ idleSeconds)
    (huses : ∀ e ∈ earlier ++ (now, .touch fingerprint idleSeconds) :: between,
      e.2.UsesIdle idleSeconds)
    (hnodup : (openedTokens (earlier ++ (now, .touch fingerprint idleSeconds) :: between)).Nodup)
    (h : answer bureaus earlier now (.touch fingerprint idleSeconds) =
      .touched (.ok (some record))) :
    HasRecord fingerprint record (after bureaus []
      (earlier ++ (now, .touch fingerprint idleSeconds) :: between)) := by
  rw [answer_touch hidle] at h
  simp only [SessionAnswer.touched.injEq, Except.ok.injEq, Option.map_eq_some_iff] at h
  obtain ⟨row, hfind, rfl⟩ := h
  have hrow := List.mem_of_find?_eq_some hfind
  have htouched := List.find?_some hfind
  simp only [isTouched, SessionRow.hasFingerprint, Bool.and_eq_true, decide_eq_true_eq] at htouched
  obtain ⟨rfl, -⟩ := htouched
  have hunique : Unique (after bureaus [] earlier) :=
    (origins bureaus hidle fun e he ↦ huses e (List.mem_append_left _ he)).1
  have hsame : HasRecord row.tokenFingerprint row.record (after bureaus [] earlier) :=
    fun row' hrow' htoken ↦ congrArg _ (hunique.eq_of_mem hrow' hrow htoken)
  have hopen : row.tokenFingerprint ∈ openedTokens earlier := by
    rcases token_of_mem_after hrow with ⟨old, hold, -⟩ | hopened
    · cases hold
    · exact hopened
  rw [after_append]
  apply hsame.after hidle fun e he ↦ huses e (List.mem_append_right _ he)
  rw [openedTokens_append, List.nodup_append] at hnodup
  exact fun hlater ↦ hnodup.2.2 _ hopen _ hlater rfl

theorem answer_touch_iff (hidle : 60 ≤ idleSeconds)
    (huses : ∀ e ∈ earlier, e.2.UsesIdle idleSeconds)
    (hsorted : (earlier.map Prod.fst).Pairwise (· ≤ ·)) (hlast : ∀ e ∈ earlier, e.1 ≤ now) :
    ∃ found, answer bureaus earlier now (.touch fingerprint idleSeconds) = .touched (.ok found) ∧
      ∀ record, found = some record ↔
        LiveSince idleSeconds fingerprint now record (history bureaus [] earlier) := by
  rw [answer_touch hidle]
  refine ⟨_, rfl, fun record ↦ ?_⟩
  rw [← touch_finds_iff hidle huses hsorted hlast, run_touch hidle, SessionAnswer.touched.injEq,
    Except.ok.injEq]

theorem touches_without_purges (hidle : 60 ≤ idleSeconds)
    (huses : ∀ e ∈ events, e.2.UsesIdle idleSeconds)
    (hsorted : (events.map Prod.fst).Pairwise (· ≤ ·)) (hnodup : (openedTokens events).Nodup) :
    touches (history bureaus [] events) =
      touches (history bureaus [] (events.filter notPurge)) := by
  have hfresh : Fresh [] events := fun _ _ _ hrow ↦ nomatch hrow
  cases events with
  | nil => rfl
  | cons e events =>
      have hnow : ∀ e' ∈ e :: events, e.1 ≤ e'.1 := by
        intro e' he'
        rcases List.mem_cons.mp he' with rfl | he'
        · exact le_rfl
        · rw [List.map_cons, List.pairwise_cons] at hsorted
          exact hsorted.1 _ (List.mem_map_of_mem he')
      exact touches_eq hidle rfl huses hsorted hnow hnodup hfresh hfresh

/-- Sessions live as long as they should, and end when they should. -/
theorem lifetimes_kept (hidle : 60 ≤ idleSeconds) (huses : ∀ e ∈ events, e.2.UsesIdle idleSeconds)
    (hsorted : (events.map Prod.fst).Pairwise (· ≤ ·)) (hnodup : (openedTokens events).Nodup) :
    LifetimesKept bureaus idleSeconds events where
  touch := by
    rintro earlier now fingerprint later rfl
    rw [List.map_append, List.pairwise_append] at hsorted
    apply answer_touch_iff hidle (fun e he ↦ huses e (List.mem_append_left _ he)) hsorted.1
    exact fun e he ↦ hsorted.2.2 _ (List.mem_map_of_mem he) _ List.mem_cons_self
  purge := touches_without_purges hidle huses hsorted hnodup
  refused := by
    rintro earlier now fingerprint between later rest rfl hopened hrefused
    simp only [List.map_append, List.map_cons, List.pairwise_append, List.pairwise_cons,
      List.mem_append, List.mem_cons] at hsorted
    obtain ⟨-, ⟨hfrom, hsorted, -, hto⟩, -⟩ := hsorted
    have hopen : fingerprint ∉ openedTokens between := by
      rw [openedTokens_append, openedTokens_touch, openedTokens_append, List.nodup_append] at hnodup
      exact fun hlater ↦ hnodup.2.2 _ hopened _ (List.mem_append_left _ hlater) rfl
    apply answer_refused hidle _ hsorted _ _ _ hopen hrefused
    · exact fun e he ↦ huses e
        (List.mem_append_right _ (List.mem_cons_of_mem _ (List.mem_append_left _ he)))
    · exact fun e he ↦ hfrom _ (Or.inl (List.mem_map_of_mem he))
    · exact fun e he ↦ hto _ (List.mem_map_of_mem he) _ (Or.inl rfl)
    · exact hfrom _ (Or.inr (Or.inl rfl))
  others := fun fingerprint ↦ stepsOf_eq hidle rfl huses
  logout := by
    intro http sha256 config parts calls hconfig hperforms
    obtain ⟨token, idle, record, removed, hidle', rfl⟩ := Auth.performs_logout hperforms
    cases hconfig.symm.trans hidle'
    refine ⟨_, record, removed, rfl, ?_⟩
    rintro earlier now between later rest rfl hfound rows rfl
    refine ⟨rfl, ?_⟩
    rw [← List.cons_append, ← List.append_assoc] at huses hnodup
    rw [openedTokens_append] at hnodup
    exact hasRecord_of_answer hidle (fun e he ↦ huses e (List.mem_append_left _ he))
      hnodup.of_append_left hfound

/-- A login, two visits, a purge, and a visit that comes too late. -/
def sampleRun : List (ℤ × SessionOp) :=
  let fingerprint := List.replicate 64 'a'
  [(0, .open [] fingerprint (List.replicate 20 'c') 3600 default),
    (59999999, .touch fingerprint 60), (100000000, .purgeExpired 60),
    (119999998, .touch fingerprint 60), (179999998, .touch fingerprint 60)]

theorem lifetimes_kept_sample :
    LifetimesKept [⟨default, [], []⟩] 60 sampleRun := by
  apply lifetimes_kept le_rfl
  · simp [sampleRun, SessionOp.UsesIdle]
  · decide
  · decide

end Sessions

end Otdel
