import Otdel.Db.Sessions

/-!
# The lifetime of a session

A touch finds a session as long as it has neither expired nor been idle for too
long, whatever else happens and whenever dead sessions are purged.
-/

namespace Otdel

/-- A call, when it ran, and its answer. -/
structure SessionStep where
  moment : ℤ
  op : SessionOp
  answer : SessionAnswer
  deriving DecidableEq

namespace Sessions

variable (bureaus : List BureauRow)

/-- The rows after a run of calls. -/
def after : List SessionRow → List (ℤ × SessionOp) → List SessionRow
  | rows, [] => rows
  | rows, (now, op) :: events => after (op.run bureaus now rows).2 events

/-- A run of calls with its answers. -/
def history : List SessionRow → List (ℤ × SessionOp) → List SessionStep
  | _, [] => []
  | rows, (now, op) :: events =>
      ⟨now, op, (op.run bureaus now rows).1⟩ :: history (op.run bureaus now rows).2 events

end Sessions

/-- The session with this token has been opened. -/
def SessionStep.Opens (fingerprint : Text) (ttlSeconds : ℤ) (record : SessionRecord)
    (step : SessionStep) : Prop :=
  (∃ slug csrfToken id, step.op = .open slug fingerprint csrfToken ttlSeconds id) ∧
    step.answer = .opened (.ok record)

/-- A touch with this token has found a session. -/
def SessionStep.finds (fingerprint : Text) (step : SessionStep) : Bool :=
  match step.op, step.answer with
  | .touch other _, .touched (.ok (some _)) => other = fingerprint
  | _, _ => false

/-- When touches with this token have found a session. -/
def touchesOf (fingerprint : Text) (steps : List SessionStep) : List ℤ :=
  (steps.filter (SessionStep.finds fingerprint)).map SessionStep.moment

/-- No gap between consecutive moments reaches the idle timeout. -/
def GapsBelow (idleSeconds : ℤ) (moments : List ℤ) : Prop :=
  moments.IsChain fun s t ↦ t - s < makeInterval idleSeconds

/-- The session was opened, not closed since, and is neither expired nor idle. -/
def LiveSince (idleSeconds : ℤ) (fingerprint : Text) (now : ℤ) (record : SessionRecord)
    (steps : List SessionStep) : Prop :=
  ∃ before opening since ttlSeconds, steps = before ++ opening :: since ∧
    opening.Opens fingerprint ttlSeconds record ∧ (∀ s ∈ since, s.op ≠ .close fingerprint) ∧
      now < opening.moment + makeInterval ttlSeconds ∧
        GapsBelow idleSeconds (opening.moment :: touchesOf fingerprint since ++ [now])

/-- All touches and purges use this idle timeout. -/
def SessionOp.UsesIdle (idleSeconds : ℤ) : SessionOp → Prop
  | .touch _ idle => idle = idleSeconds
  | .purgeExpired idle => idle = idleSeconds
  | _ => True

/-- The token that a call names. -/
def SessionOp.fingerprint? : SessionOp → Option Text
  | .open _ fingerprint _ _ _ => some fingerprint
  | .touch fingerprint _ => some fingerprint
  | .close fingerprint => some fingerprint
  | .purgeExpired _ => none

/-- The tokens that are opened. -/
def openedTokens (events : List (ℤ × SessionOp)) : List Text :=
  events.filterMap fun e ↦ match e.2 with
    | .open _ fingerprint _ _ _ => some fingerprint
    | _ => none

namespace Sessions

variable {bureaus : List BureauRow} {rows : List SessionRow} {events : List (ℤ × SessionOp)}
  {fingerprint : Text} {idleSeconds : ℤ} {now : ℤ}

theorem after_append (rows : List SessionRow) (events later : List (ℤ × SessionOp)) :
    after bureaus rows (events ++ later) = after bureaus (after bureaus rows events) later := by
  induction events generalizing rows with
  | nil => rfl
  | cons e events ih => exact ih _

theorem history_append (rows : List SessionRow) (events later : List (ℤ × SessionOp)) :
    history bureaus rows (events ++ later) =
      history bureaus rows events ++ history bureaus (after bureaus rows events) later := by
  induction events generalizing rows with
  | nil => rfl
  | cons e events ih => exact congrArg _ (ih _)

/-- A history splits where its run does. -/
theorem history_split {before : List SessionStep} {step : SessionStep}
    {since : List SessionStep} (h : history bureaus rows events = before ++ step :: since) :
    ∃ earlier later, events = earlier ++ (step.moment, step.op) :: later ∧
      before = history bureaus rows earlier ∧
        step.answer = (step.op.run bureaus step.moment (after bureaus rows earlier)).1 ∧
          since = history bureaus
            (step.op.run bureaus step.moment (after bureaus rows earlier)).2 later := by
  induction events generalizing rows before with
  | nil => simp [history] at h
  | cons e events ih =>
      cases before with
      | nil =>
          rw [history, List.nil_append, List.cons.injEq] at h
          obtain ⟨rfl, rfl⟩ := h
          exact ⟨[], events, rfl, rfl, rfl, rfl⟩
      | cons first before =>
          rw [history, List.cons_append, List.cons.injEq] at h
          obtain ⟨rfl, hrest⟩ := h
          obtain ⟨earlier, later, rfl, rfl, hanswer, hsince⟩ := ih hrest
          exact ⟨e :: earlier, later, rfl, rfl, hanswer, hsince⟩

/-! ## What the functions do -/

/-- A call of `session_open`, by the row that it is going to insert. -/
theorem run_open_eq (slug csrfToken : Text) (ttlSeconds : ℤ) (id : Uuid) :
    (SessionOp.open slug fingerprint csrfToken ttlSeconds id).run bureaus now rows =
      match newSession bureaus slug fingerprint csrfToken ttlSeconds id now with
      | .error e => (.opened (.error e), rows)
      | .ok row =>
          if rows.any (SessionRow.hasFingerprint fingerprint) then
            (.opened (.error .uniqueViolation), rows)
          else (.opened (.ok row.record), rows ++ [row]) := by
  simp only [SessionOp.run, sessionOpen]
  cases newSession bureaus slug fingerprint csrfToken ttlSeconds id now with
  | error e => rfl
  | ok row =>
      cases hany : rows.any (SessionRow.hasFingerprint fingerprint) <;> simp [bind, Except.bind]

theorem newSession_eq_ok {slug csrfToken : Text} {ttlSeconds : ℤ} {id : Uuid} {row : SessionRow}
    (h : newSession bureaus slug fingerprint csrfToken ttlSeconds id now = .ok row) :
    row.tokenFingerprint = fingerprint ∧ row.lastSeenAt = now ∧
      row.expiresAt = now + makeInterval ttlSeconds := by
  unfold newSession at h
  split at h
  · cases h
  · split at h
    · cases h
    · split at h <;> cases h
      exact ⟨rfl, rfl, rfl⟩

theorem any_hasFingerprint : rows.any (SessionRow.hasFingerprint fingerprint) = false ↔
    ∀ row ∈ rows, row.tokenFingerprint ≠ fingerprint := by
  simp [List.any_eq_false, SessionRow.hasFingerprint]

variable (bureaus rows now fingerprint) in
/-- Opening adds one row, of a token that has none, or changes nothing. -/
theorem run_open (slug csrfToken : Text) (ttlSeconds : ℤ) (id : Uuid) :
    ((∀ row ∈ rows, row.tokenFingerprint ≠ fingerprint) ∧ ∃ row : SessionRow,
      row.tokenFingerprint = fingerprint ∧ row.lastSeenAt = now ∧
        row.expiresAt = now + makeInterval ttlSeconds ∧
          (SessionOp.open slug fingerprint csrfToken ttlSeconds id).run bureaus now rows =
            (.opened (.ok row.record), rows ++ [row])) ∨
      ∃ e, (SessionOp.open slug fingerprint csrfToken ttlSeconds id).run bureaus now rows =
        (.opened (.error e), rows) := by
  rw [run_open_eq]
  cases hnew : newSession bureaus slug fingerprint csrfToken ttlSeconds id now with
  | error e => exact Or.inr ⟨e, rfl⟩
  | ok row =>
      obtain ⟨htoken, hseen, hexpires⟩ := newSession_eq_ok hnew
      cases hany : rows.any (SessionRow.hasFingerprint fingerprint) with
      | true => exact Or.inr ⟨.uniqueViolation, rfl⟩
      | false =>
          exact Or.inl ⟨any_hasFingerprint.mp hany, row, htoken, hseen, hexpires, rfl⟩

theorem run_touch (hidle : 60 ≤ idleSeconds) :
    (SessionOp.touch fingerprint idleSeconds).run bureaus now rows =
      (.touched (.ok ((rows.find? (isTouched fingerprint idleSeconds now)).map
        SessionRow.record)),
        rows.map fun row ↦ if isTouched fingerprint idleSeconds now row then
          { row with lastSeenAt := now } else row) := by
  simp only [SessionOp.run, sessionTouch, if_neg (show ¬ idleSeconds < 60 by omega)]

theorem run_close : (SessionOp.close fingerprint).run bureaus now rows =
    (.closed (rows.countP (SessionRow.hasFingerprint fingerprint)),
      rows.filter fun row ↦ !row.hasFingerprint fingerprint) := rfl

theorem run_purge (hidle : 60 ≤ idleSeconds) :
    (SessionOp.purgeExpired idleSeconds).run bureaus now rows =
      (.purged (.ok (rows.countP (isExpired idleSeconds now))),
        rows.filter fun row ↦ !isExpired idleSeconds now row) := by
  simp only [SessionOp.run, sessionPurgeExpired, if_neg (show ¬ idleSeconds < 60 by omega)]

/-- A purge removes exactly the rows that no touch would find. -/
theorem not_isExpired (row : SessionRow) :
    (!isExpired idleSeconds now row) = row.isLive idleSeconds now := by
  simp only [isExpired, SessionRow.isLive, Bool.not_or, gt_iff_lt, decide_not, ← not_lt]
  simp

/-- No two rows have one token. -/
def Unique (rows : List SessionRow) : Prop := (rows.map SessionRow.tokenFingerprint).Nodup

theorem Unique.eq_of_mem (h : Unique rows) {r r' : SessionRow} (hr : r ∈ rows) (hr' : r' ∈ rows)
    (hsame : r.tokenFingerprint = r'.tokenFingerprint) : r = r' :=
  List.inj_on_of_nodup_map h hr hr' hsame

theorem Unique.filter (h : Unique rows) (p : SessionRow → Bool) : Unique (rows.filter p) :=
  (h.sublist ((List.filter_sublist (p := p)).map _))

variable (bureaus now) in
theorem Unique.run (h : Unique rows) (op : SessionOp) (hidle : 60 ≤ idleSeconds)
    (huses : op.UsesIdle idleSeconds) : Unique (op.run bureaus now rows).2 := by
  cases op with
  | «open» slug fingerprint csrfToken ttlSeconds id =>
      rcases run_open bureaus rows fingerprint now slug csrfToken ttlSeconds id with
        ⟨hnew, row, hrow, -, -, hrun⟩ | ⟨e, hrun⟩
      · rw [hrun, Unique, List.map_append, List.nodup_append]
        refine ⟨h, by simp, ?_⟩
        simp only [List.mem_map, List.map_cons, List.map_nil, List.mem_singleton]
        rintro _ ⟨r, hr, rfl⟩ _ rfl
        rw [hrow]
        exact hnew r hr
      · rw [hrun]
        exact h
  | touch fingerprint idle =>
      cases huses
      rw [run_touch hidle, Unique, List.map_map]
      have hsame : SessionRow.tokenFingerprint ∘ (fun row : SessionRow ↦
          if isTouched fingerprint idleSeconds now row then { row with lastSeenAt := now }
          else row) =
            SessionRow.tokenFingerprint := by
        funext row
        simp only [Function.comp_apply]
        split <;> rfl
      rw [hsame]
      exact h
  | close fingerprint => exact h.filter _
  | purgeExpired idle =>
      cases huses
      rw [run_purge hidle]
      exact h.filter _

/-- What a touch finds is the row of its token, if that is live. -/
theorem find_isTouched (hunique : Unique rows) {row : SessionRow} (hrow : row ∈ rows) :
    rows.find? (isTouched row.tokenFingerprint idleSeconds now) =
      if row.isLive idleSeconds now then some row else none := by
  split
  · rename_i hlive
    have htouched : isTouched row.tokenFingerprint idleSeconds now row = true := by
      simp [isTouched, SessionRow.hasFingerprint, hlive]
    obtain ⟨r, hr⟩ := Option.isSome_iff_exists.mp (List.find?_isSome.mpr ⟨row, hrow, htouched⟩)
    have hof := List.find?_some hr
    simp only [isTouched, SessionRow.hasFingerprint, Bool.and_eq_true, decide_eq_true_eq] at hof
    rw [hr, hunique.eq_of_mem (List.mem_of_find?_eq_some hr) hrow hof.1]
  · rename_i hdead
    apply List.find?_eq_none.mpr
    intro r hr htouched
    simp only [isTouched, SessionRow.hasFingerprint, Bool.and_eq_true, decide_eq_true_eq] at htouched
    rw [hunique.eq_of_mem hr hrow htouched.1] at htouched
    exact hdead htouched.2

theorem touchesOf_cons (step : SessionStep) (steps : List SessionStep) :
    touchesOf fingerprint (step :: steps) =
      if step.finds fingerprint then step.moment :: touchesOf fingerprint steps
      else touchesOf fingerprint steps := by
  rw [touchesOf, List.filter_cons]
  split <;> rfl

/-- Only a touch finds a session. -/
theorem finds_eq_false {step : SessionStep} (h : ∀ idle, step.op ≠ .touch fingerprint idle) :
    step.finds fingerprint = false := by
  obtain ⟨moment, op, answer⟩ := step
  cases op with
  | touch other idle =>
      have hne : other ≠ fingerprint := fun heq ↦ h idle (by rw [heq])
      simp only [SessionStep.finds]
      split <;> simp_all
  | _ => rfl

theorem mem_touchesOf {x : ℤ}
    (h : x ∈ touchesOf fingerprint (history bureaus rows events)) : ∃ e ∈ events, e.1 = x := by
  induction events generalizing rows with
  | nil => simp [touchesOf, history] at h
  | cons e events ih =>
      rw [touchesOf, history, List.filter_cons] at h
      split at h
      · rcases List.mem_cons.mp h with rfl | h
        · exact ⟨e, List.mem_cons_self, rfl⟩
        · obtain ⟨e', he', hx⟩ := ih h
          exact ⟨e', List.mem_cons_of_mem _ he', hx⟩
      · obtain ⟨e', he', hx⟩ := ih h
        exact ⟨e', List.mem_cons_of_mem _ he', hx⟩

/-! ## A session that is in use stays -/

theorem isLive_of_gap {row : SessionRow} (hexpires : now < row.expiresAt)
    (hgap : now - row.lastSeenAt < makeInterval idleSeconds) :
    row.isLive idleSeconds now = true := by
  simp only [SessionRow.isLive, Bool.and_eq_true, decide_eq_true_eq]
  constructor <;> omega

variable (bureaus events now) in
/-- A row is there, and would be found, as long as its gaps are short. -/
theorem persists (hidle : 60 ≤ idleSeconds) {row : SessionRow} (hrow : row ∈ rows)
    (hunique : Unique rows) (huses : ∀ e ∈ events, e.2.UsesIdle idleSeconds)
    (hsorted : (events.map Prod.fst).Pairwise (· ≤ ·)) (hlast : ∀ e ∈ events, e.1 ≤ now)
    (hclose : ∀ s ∈ history bureaus rows events, s.op ≠ .close row.tokenFingerprint)
    (hexpires : now < row.expiresAt)
    (hgaps : GapsBelow idleSeconds (row.lastSeenAt ::
      touchesOf row.tokenFingerprint (history bureaus rows events) ++ [now])) :
    ∃ row' ∈ after bureaus rows events, row'.tokenFingerprint = row.tokenFingerprint ∧
      row'.record = row.record ∧ row'.isLive idleSeconds now = true := by
  induction events generalizing rows row with
  | nil =>
      refine ⟨row, hrow, rfl, rfl, isLive_of_gap hexpires ?_⟩
      simpa [touchesOf, history, GapsBelow] using hgaps
  | cons e events ih =>
      obtain ⟨moment, op⟩ := e
      rw [List.map_cons, List.pairwise_cons] at hsorted
      have huse := huses _ List.mem_cons_self
      have hnow : moment ≤ now := hlast _ List.mem_cons_self
      have hnext : ∀ row' ∈ (op.run bureaus moment rows).2,
          row'.tokenFingerprint = row.tokenFingerprint → row'.record = row.record →
            GapsBelow idleSeconds (row'.lastSeenAt :: touchesOf row.tokenFingerprint
              (history bureaus (op.run bureaus moment rows).2 events) ++ [now]) →
              ∃ row' ∈ after bureaus rows ((moment, op) :: events),
                row'.tokenFingerprint = row.tokenFingerprint ∧ row'.record = row.record ∧
                  row'.isLive idleSeconds now = true := by
        intro row' hrow' htoken hrecord hgaps'
        have hexpires' : row'.expiresAt = row.expiresAt := congrArg SessionRecord.expiresAt hrecord
        obtain ⟨found, hfound, htoken', hrecord', hlive⟩ := ih hrow'
          (hunique.run _ _ _ hidle huse) (fun e he ↦ huses e (List.mem_cons_of_mem _ he)) hsorted.2
          (fun e he ↦ hlast e (List.mem_cons_of_mem _ he))
          (fun s hs ↦ htoken ▸ hclose s (List.mem_cons_of_mem _ hs)) (hexpires' ▸ hexpires)
          (htoken ▸ hgaps')
        exact ⟨found, hfound, htoken'.trans htoken, hrecord'.trans hrecord, hlive⟩
      rw [history, touchesOf_cons] at hgaps
      cases op with
      | «open» slug other csrfToken ttlSeconds id =>
          rw [finds_eq_false (by simp), if_neg Bool.false_ne_true] at hgaps
          refine hnext row ?_ rfl rfl hgaps
          rcases run_open bureaus rows other moment slug csrfToken ttlSeconds id with
            ⟨-, new, -, -, -, hrun⟩ | ⟨e, hrun⟩
          · rw [hrun]
            exact List.mem_append_left _ hrow
          · rw [hrun]
            exact hrow
      | touch other idle =>
          cases huse
          have hmap : ∀ row' ∈ rows, (if isTouched other idleSeconds moment row' then
              { row' with lastSeenAt := moment } else row') ∈
                ((SessionOp.touch other idleSeconds).run bureaus moment rows).2 := by
            intro row' hrow'
            rw [run_touch hidle]
            exact List.mem_map_of_mem hrow'
          have hmem := hmap row hrow
          by_cases hother : other = row.tokenFingerprint
          · subst hother
            by_cases hlive : row.isLive idleSeconds moment = true
            · have hfinds : SessionStep.finds row.tokenFingerprint
                  ⟨moment, .touch row.tokenFingerprint idleSeconds,
                    ((SessionOp.touch row.tokenFingerprint idleSeconds).run bureaus moment
                      rows).1⟩ = true := by
                simp [SessionStep.finds, run_touch hidle, find_isTouched hunique hrow, hlive]
              rw [if_pos hfinds] at hgaps
              rw [if_pos (by simp [isTouched, SessionRow.hasFingerprint, hlive])] at hmem
              exact hnext _ hmem rfl rfl (List.isChain_cons_cons.mp hgaps).2
            · have hfinds : SessionStep.finds row.tokenFingerprint
                  ⟨moment, .touch row.tokenFingerprint idleSeconds,
                    ((SessionOp.touch row.tokenFingerprint idleSeconds).run bureaus moment
                      rows).1⟩ = false := by
                simp [SessionStep.finds, run_touch hidle, find_isTouched hunique hrow, hlive]
              rw [hfinds, if_neg Bool.false_ne_true] at hgaps
              rw [if_neg (by simp [isTouched, hlive])] at hmem
              exact hnext row hmem rfl rfl hgaps
          · rw [finds_eq_false (by simp [hother]), if_neg Bool.false_ne_true] at hgaps
            rw [if_neg (by simp [isTouched, SessionRow.hasFingerprint, Ne.symm hother])] at hmem
            exact hnext row hmem rfl rfl hgaps
      | close other =>
          rw [finds_eq_false (by simp), if_neg Bool.false_ne_true] at hgaps
          have hne : other ≠ row.tokenFingerprint := fun heq ↦
            hclose _ List.mem_cons_self (by rw [heq])
          refine hnext row (List.mem_filter.mpr ⟨hrow, ?_⟩) rfl rfl hgaps
          simp [SessionRow.hasFingerprint, Ne.symm hne]
      | purgeExpired idle =>
          cases huse
          rw [finds_eq_false (by simp), if_neg Bool.false_ne_true] at hgaps
          refine hnext row ?_ rfl rfl hgaps
          -- the next touch comes later, so the purge does not find the row idle
          have hgap : moment - row.lastSeenAt < makeInterval idleSeconds := by
            rw [List.cons_append, GapsBelow, List.isChain_cons] at hgaps
            have hhead := hgaps.1
            cases htouches : touchesOf row.tokenFingerprint (history bureaus
                ((SessionOp.purgeExpired idleSeconds).run bureaus moment rows).2 events) with
            | nil =>
                have hfirst := hhead now (by rw [htouches]; rfl)
                omega
            | cons x rest =>
                have hfirst := hhead x (by rw [htouches]; rfl)
                have hmem : x ∈ touchesOf row.tokenFingerprint (history bureaus
                    ((SessionOp.purgeExpired idleSeconds).run bureaus moment rows).2 events) := by
                  rw [htouches]
                  exact List.mem_cons_self
                obtain ⟨e, he, rfl⟩ := mem_touchesOf hmem
                have hlater := hsorted.1 e.1 (List.mem_map_of_mem he)
                omega
          rw [run_purge hidle]
          refine List.mem_filter.mpr ⟨hrow, ?_⟩
          rw [not_isExpired]
          exact isLive_of_gap (by omega) hgap

/-! ## Where a row comes from -/

/-- The opening of a row, and the touches since. -/
def Origin (idleSeconds : ℤ) (steps : List SessionStep) (row : SessionRow) : Prop :=
  ∃ before opening since ttlSeconds, steps = before ++ opening :: since ∧
    opening.Opens row.tokenFingerprint ttlSeconds row.record ∧
      (∀ s ∈ since, s.op ≠ .close row.tokenFingerprint) ∧
        row.expiresAt = opening.moment + makeInterval ttlSeconds ∧
          GapsBelow idleSeconds (opening.moment :: touchesOf row.tokenFingerprint since) ∧
            (opening.moment :: touchesOf row.tokenFingerprint since).getLast? =
              some row.lastSeenAt

theorem touchesOf_append (steps later : List SessionStep) :
    touchesOf fingerprint (steps ++ later) =
      touchesOf fingerprint steps ++ touchesOf fingerprint later := by
  simp [touchesOf]

theorem gapsBelow_append {moments : List ℤ} {last next : ℤ} (h : GapsBelow idleSeconds moments)
    (hlast : moments.getLast? = some last) (hgap : next - last < makeInterval idleSeconds) :
    GapsBelow idleSeconds (moments ++ [next]) := by
  apply List.isChain_append.mpr
  refine ⟨h, List.isChain_singleton _, ?_⟩
  intro x hx y hy
  rw [hlast, Option.mem_some_iff] at hx
  rw [List.head?_cons, Option.mem_some_iff] at hy
  rw [← hx, ← hy]
  exact hgap

/-- A step that neither closes the session nor finds it. -/
theorem Origin.pass {steps : List SessionStep} {row : SessionRow}
    (h : Origin idleSeconds steps row) {step : SessionStep}
    (hclose : step.op ≠ .close row.tokenFingerprint)
    (hfinds : step.finds row.tokenFingerprint = false) :
    Origin idleSeconds (steps ++ [step]) row := by
  obtain ⟨before, opening, since, ttlSeconds, rfl, hopens, hnone, hexpires, hgaps, hlast⟩ := h
  have htouches : touchesOf row.tokenFingerprint (since ++ [step]) =
      touchesOf row.tokenFingerprint since := by
    rw [touchesOf_append, touchesOf_cons, hfinds, if_neg Bool.false_ne_true]
    exact List.append_nil _
  refine ⟨before, opening, since ++ [step], ttlSeconds, by simp, hopens, ?_, hexpires, ?_, ?_⟩
  · intro s hs
    rcases List.mem_append.mp hs with hs | hs
    · exact hnone s hs
    · rw [List.mem_singleton.mp hs]
      exact hclose
  · rw [htouches]
    exact hgaps
  · rw [htouches]
    exact hlast

/-- A step that finds the session. -/
theorem Origin.touch {steps : List SessionStep} {row : SessionRow}
    (h : Origin idleSeconds steps row) {step : SessionStep}
    (hclose : step.op ≠ .close row.tokenFingerprint)
    (hfinds : step.finds row.tokenFingerprint = true)
    (hlive : row.isLive idleSeconds step.moment = true) :
    Origin idleSeconds (steps ++ [step]) { row with lastSeenAt := step.moment } := by
  obtain ⟨before, opening, since, ttlSeconds, rfl, hopens, hnone, hexpires, hgaps, hlast⟩ := h
  simp only [SessionRow.isLive, Bool.and_eq_true, decide_eq_true_eq] at hlive
  have htouches : touchesOf row.tokenFingerprint (since ++ [step]) =
      touchesOf row.tokenFingerprint since ++ [step.moment] := by
    rw [touchesOf_append, touchesOf_cons, hfinds, if_pos rfl]
    rfl
  refine ⟨before, opening, since ++ [step], ttlSeconds, by simp, hopens, ?_, hexpires, ?_, ?_⟩
  · intro s hs
    rcases List.mem_append.mp hs with hs | hs
    · exact hnone s hs
    · rw [List.mem_singleton.mp hs]
      exact hclose
  · rw [htouches, ← List.cons_append]
    exact gapsBelow_append hgaps hlast (by omega)
  · rw [htouches, ← List.cons_append, List.getLast?_append]
    rfl

variable (bureaus) in
/-- Every row was opened, and touched since as its times tell. -/
theorem origins (hidle : 60 ≤ idleSeconds) (huses : ∀ e ∈ events, e.2.UsesIdle idleSeconds) :
    Unique (after bureaus [] events) ∧
      ∀ row ∈ after bureaus [] events, Origin idleSeconds (history bureaus [] events) row := by
  induction events using List.reverseRecOn with
  | nil => simp [after, Unique]
  | append_singleton events e ih =>
      obtain ⟨hunique, horigin⟩ := ih fun e he ↦ huses e (List.mem_append_left _ he)
      have huse := huses e (List.mem_append_right _ (List.mem_singleton.mpr rfl))
      obtain ⟨moment, op⟩ := e
      rw [after_append, history_append]
      simp only [after, history]
      generalize after bureaus [] events = rows at *
      refine ⟨hunique.run _ _ _ hidle huse, ?_⟩
      cases op with
      | «open» slug token csrfToken ttlSeconds id =>
          have hpass : ∀ row ∈ rows, Origin idleSeconds (history bureaus [] events ++
              [⟨moment, .open slug token csrfToken ttlSeconds id,
                ((SessionOp.open slug token csrfToken ttlSeconds id).run bureaus moment
                  rows).1⟩]) row :=
            fun row hrow ↦ (horigin row hrow).pass (by simp) (finds_eq_false (by simp))
          rcases run_open bureaus rows token moment slug csrfToken ttlSeconds id with
            ⟨-, new, htoken, hlast, hexpires, hrun⟩ | ⟨e, hrun⟩
          · rw [hrun] at hpass ⊢
            intro row hrow
            rcases List.mem_append.mp hrow with hrow | hrow
            · exact hpass row hrow
            · rw [List.mem_singleton.mp hrow]
              refine ⟨history bureaus [] events, _, [], ttlSeconds, rfl, ⟨⟨slug, csrfToken, id, ?_⟩,
                rfl⟩, by simp, hexpires, List.isChain_singleton _, ?_⟩
              · rw [htoken]
              · rw [hlast]
                rfl
          · rw [hrun] at hpass ⊢
            exact hpass
      | touch token idle =>
          cases huse
          rw [run_touch hidle]
          intro row hrow
          obtain ⟨old, hold, rfl⟩ := List.mem_map.mp hrow
          split
          · rename_i htouched
            simp only [isTouched, SessionRow.hasFingerprint, Bool.and_eq_true,
              decide_eq_true_eq] at htouched
            obtain ⟨rfl, hlive⟩ := htouched
            refine (horigin old hold).touch (by simp) ?_ hlive
            simp [SessionStep.finds, find_isTouched hunique hold, hlive]
          · rename_i hnot
            refine (horigin old hold).pass (by simp) ?_
            by_cases htoken : token = old.tokenFingerprint
            · subst htoken
              have hdead : old.isLive idleSeconds moment = false := by
                simpa [isTouched, SessionRow.hasFingerprint] using hnot
              simp [SessionStep.finds, find_isTouched hunique hold, hdead]
            · exact finds_eq_false (by simp [htoken])
      | close token =>
          intro row hrow
          obtain ⟨hrow, hne⟩ := List.mem_filter.mp hrow
          refine (horigin row hrow).pass ?_ (finds_eq_false (by simp))
          rw [Ne, SessionOp.close.injEq]
          rintro rfl
          simp [SessionRow.hasFingerprint] at hne
      | purgeExpired idle =>
          cases huse
          rw [run_purge hidle]
          intro row hrow
          exact (horigin row (List.mem_filter.mp hrow).1).pass (by simp) (finds_eq_false (by simp))

/-- A touch finds exactly the sessions that are live since their opening. -/
theorem touch_finds_iff (hidle : 60 ≤ idleSeconds)
    (huses : ∀ e ∈ events, e.2.UsesIdle idleSeconds)
    (hsorted : (events.map Prod.fst).Pairwise (· ≤ ·)) (hlast : ∀ e ∈ events, e.1 ≤ now)
    {record : SessionRecord} :
    ((SessionOp.touch fingerprint idleSeconds).run bureaus now (after bureaus [] events)).1 =
        .touched (.ok (some record)) ↔
      LiveSince idleSeconds fingerprint now record (history bureaus [] events) := by
  obtain ⟨-, horigin⟩ := origins bureaus hidle huses
  rw [run_touch hidle]
  simp only [SessionAnswer.touched.injEq, Except.ok.injEq, Option.map_eq_some_iff]
  constructor
  · rintro ⟨row, hfind, rfl⟩
    have htouched := List.find?_some hfind
    simp only [isTouched, SessionRow.hasFingerprint, SessionRow.isLive, Bool.and_eq_true,
      decide_eq_true_eq] at htouched
    obtain ⟨rfl, hexpires, hseen⟩ := htouched
    obtain ⟨before, opening, since, ttlSeconds, hsteps, hopens, hclose, hexpiry, hgaps,
      hlastSeen⟩ := horigin row (List.mem_of_find?_eq_some hfind)
    refine ⟨before, opening, since, ttlSeconds, hsteps, hopens, hclose, hexpiry ▸ hexpires, ?_⟩
    exact gapsBelow_append hgaps hlastSeen (by omega)
  · rintro ⟨before, opening, since, ttlSeconds, hsteps, hopens, hclose, hexpires, hgaps⟩
    obtain ⟨moment, op, answer⟩ := opening
    obtain ⟨⟨slug, csrfToken, id, rfl⟩, rfl⟩ := hopens
    obtain ⟨earlier, later, rfl, rfl, hanswer, rfl⟩ := history_split hsteps
    have hunique := (origins bureaus hidle
      fun e he ↦ huses e (List.mem_append_left _ he)).1
    have hopened := hunique.run bureaus moment
      (.open slug fingerprint csrfToken ttlSeconds id) hidle trivial
    rw [after_append]
    simp only [after] at hanswer hclose hgaps ⊢
    rcases run_open bureaus (after bureaus [] earlier) fingerprint moment slug csrfToken ttlSeconds
      id with ⟨-, row, rfl, hseen, hexpiry, hrun⟩ | ⟨e, hrun⟩
    · rw [hrun] at hanswer hclose hgaps hopened ⊢
      cases hanswer
      rw [List.map_append, List.map_cons, List.pairwise_append, List.pairwise_cons] at hsorted
      obtain ⟨row', hrow', htoken, hrecord, hlive⟩ := persists bureaus later now hidle
        (List.mem_append_right _ (List.mem_singleton.mpr rfl)) hopened
        (fun e he ↦ huses e (List.mem_append_right _ (List.mem_cons_of_mem _ he)))
        hsorted.2.1.2
        (fun e he ↦ hlast e (List.mem_append_right _ (List.mem_cons_of_mem _ he))) hclose
        (by rw [hexpiry]; exact hexpires) (by rw [hseen]; exact hgaps)
      have hfinal : Unique (after bureaus (after bureaus [] earlier ++ [row]) later) := by
        have hall := (origins bureaus hidle huses).1
        rw [after_append] at hall
        simp only [after, hrun] at hall
        exact hall
      refine ⟨row', ?_, hrecord⟩
      rw [← htoken, find_isTouched hfinal hrow', if_pos hlive]
    · rw [hrun] at hanswer
      cases hanswer

end Sessions

end Otdel
