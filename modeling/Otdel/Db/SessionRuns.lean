import Otdel.Db.SessionLifetime

/-!
# Runs that touches cannot tell apart

A touch depends on the live rows of its token only.  So purges can be left out
of a run, and so can the calls that name other tokens; and a session that was
refused stays refused.
-/

namespace Otdel

namespace Sessions

variable {bureaus : List BureauRow} {rows rows' : List SessionRow}
  {events : List (ℤ × SessionOp)} {fingerprint : Text} {idleSeconds now : ℤ}

/-- The touches of a run, with their answers. -/
def touches (steps : List SessionStep) : List SessionStep :=
  steps.filter fun s ↦ match s.op with
    | .touch _ _ => true
    | _ => false

/-- A call is not a purge. -/
def notPurge (e : ℤ × SessionOp) : Bool :=
  match e.2 with
  | .purgeExpired _ => false
  | _ => true

/-- The calls of a run that name this token. -/
def stepsOf (fingerprint : Text) (steps : List SessionStep) : List SessionStep :=
  steps.filter fun s ↦ s.op.fingerprint? = some fingerprint

/-- A call names this token, or none. -/
def concerns (fingerprint : Text) (e : ℤ × SessionOp) : Bool :=
  match e.2.fingerprint? with
  | some other => other = fingerprint
  | none => true

/-! ## Purges -/

/-- The same rows are live. -/
def SameLive (idleSeconds now : ℤ) (rows rows' : List SessionRow) : Prop :=
  rows.filter (SessionRow.isLive idleSeconds now) =
    rows'.filter (SessionRow.isLive idleSeconds now)

theorem isLive_earlier {row : SessionRow} {later : ℤ} (h : now ≤ later)
    (hlive : row.isLive idleSeconds later = true) : row.isLive idleSeconds now = true := by
  simp only [SessionRow.isLive, Bool.and_eq_true, decide_eq_true_eq] at hlive ⊢
  omega

theorem SameLive.later {later : ℤ} (h : SameLive idleSeconds now rows rows') (hnow : now ≤ later) :
    SameLive idleSeconds later rows rows' := by
  have hfilter : ∀ rows : List SessionRow, rows.filter (SessionRow.isLive idleSeconds later) =
      (rows.filter (SessionRow.isLive idleSeconds now)).filter
        (SessionRow.isLive idleSeconds later) := by
    intro rows
    rw [List.filter_filter]
    apply List.filter_congr
    intro row _
    by_cases hlive : row.isLive idleSeconds later = true
    · simp [hlive, isLive_earlier hnow hlive]
    · simp [hlive]
  rw [SameLive, hfilter, hfilter rows', h]

/-- What a touch finds is among the live rows. -/
theorem find_isTouched_filter (rows : List SessionRow) :
    rows.find? (isTouched fingerprint idleSeconds now) =
      (rows.filter (SessionRow.isLive idleSeconds now)).find?
        (SessionRow.hasFingerprint fingerprint) := by
  rw [List.find?_filter]
  congr 1
  funext row
  rw [isTouched, Bool.and_comm]
  cases row.isLive idleSeconds now <;> cases row.hasFingerprint fingerprint <;> rfl

/-- A touch keeps the live rows, and only these change. -/
theorem filter_touched (hidle : 60 ≤ idleSeconds) (rows : List SessionRow) :
    (rows.map fun row ↦ if isTouched fingerprint idleSeconds now row then
        { row with lastSeenAt := now } else row).filter (SessionRow.isLive idleSeconds now) =
      (rows.filter (SessionRow.isLive idleSeconds now)).map fun row ↦
        if isTouched fingerprint idleSeconds now row then { row with lastSeenAt := now }
        else row := by
  rw [List.filter_map]
  congr 1
  apply List.filter_congr
  intro row _
  simp only [Function.comp_apply]
  split
  · rename_i htouched
    simp only [isTouched, SessionRow.isLive, Bool.and_eq_true, decide_eq_true_eq] at htouched
    have hpositive : now > now - makeInterval idleSeconds := by
      rw [makeInterval]
      omega
    simp [SessionRow.isLive, htouched.2.1, htouched.2.2, hpositive]
  · rfl

variable (bureaus now) in
/-- Opening a fresh token does the same to any rows. -/
theorem open_fresh (slug csrfToken : Text) (ttlSeconds : ℤ) (id : Uuid)
    (h : ∀ row ∈ rows, row.tokenFingerprint ≠ fingerprint)
    (h' : ∀ row ∈ rows', row.tokenFingerprint ≠ fingerprint) :
    ∃ added, ((SessionOp.open slug fingerprint csrfToken ttlSeconds id).run bureaus now rows).2 =
        rows ++ added ∧
      ((SessionOp.open slug fingerprint csrfToken ttlSeconds id).run bureaus now rows').2 =
        rows' ++ added := by
  rw [run_open_eq, run_open_eq, any_hasFingerprint.mpr h, any_hasFingerprint.mpr h']
  cases newSession bureaus slug fingerprint csrfToken ttlSeconds id now with
  | error e => exact ⟨[], by simp⟩
  | ok row => exact ⟨[row], rfl, rfl⟩

variable (bureaus) in
/-- Calls that are no purges tell only the live rows. -/
theorem SameLive.run (h : SameLive idleSeconds now rows rows') (hidle : 60 ≤ idleSeconds)
    {op : SessionOp} (huses : op.UsesIdle idleSeconds) (hpurge : notPurge (now, op) = true)
    (hfresh : ∀ token ∈ openedTokens [(now, op)], (∀ row ∈ rows, row.tokenFingerprint ≠ token) ∧
      ∀ row ∈ rows', row.tokenFingerprint ≠ token) :
    SameLive idleSeconds now (op.run bureaus now rows).2 (op.run bureaus now rows').2 ∧
      ∀ token idle, op = .touch token idle →
        (op.run bureaus now rows).1 = (op.run bureaus now rows').1 := by
  cases op with
  | «open» slug token csrfToken ttlSeconds id =>
      obtain ⟨hrows, hrows'⟩ := hfresh token (by simp [openedTokens])
      obtain ⟨added, hrun, hrun'⟩ := open_fresh bureaus now slug csrfToken ttlSeconds id
        hrows hrows'
      refine ⟨?_, fun _ _ heq ↦ (nomatch heq)⟩
      rw [hrun, hrun', SameLive, List.filter_append, List.filter_append, h]
  | touch token idle =>
      cases huses
      rw [run_touch hidle, run_touch hidle]
      constructor
      · rw [SameLive, filter_touched hidle, filter_touched hidle, h]
      · rintro - - -
        rw [find_isTouched_filter, find_isTouched_filter rows', h]
  | close token =>
      refine ⟨?_, fun _ _ heq ↦ (nomatch heq)⟩
      rw [run_close, run_close, SameLive, List.filter_comm, h, List.filter_comm]
  | purgeExpired idle => cases hpurge

/-- A purge leaves the live rows. -/
theorem SameLive.purge (h : SameLive idleSeconds now rows rows') (hidle : 60 ≤ idleSeconds) :
    SameLive idleSeconds now ((SessionOp.purgeExpired idleSeconds).run bureaus now rows).2
      rows' := by
  rw [run_purge hidle, SameLive, List.filter_filter, ← h]
  apply List.filter_congr
  intro row _
  rw [not_isExpired, Bool.and_self]

/-- A row comes from the rows before or from the token that is opened. -/
theorem token_of_mem_run {op : SessionOp} {row : SessionRow}
    (hrow : row ∈ (op.run bureaus now rows).2) :
    (∃ old ∈ rows, old.tokenFingerprint = row.tokenFingerprint) ∨
      row.tokenFingerprint ∈ openedTokens [(now, op)] := by
  cases op with
  | «open» slug token csrfToken ttlSeconds id =>
      rcases run_open bureaus rows token now slug csrfToken ttlSeconds id with
        ⟨-, new, htoken, -, -, hrun⟩ | ⟨e, hrun⟩
      · rw [hrun] at hrow
        rcases List.mem_append.mp hrow with hrow | hrow
        · exact Or.inl ⟨row, hrow, rfl⟩
        · rw [List.mem_singleton.mp hrow, htoken]
          exact Or.inr (by simp [openedTokens])
      · rw [hrun] at hrow
        exact Or.inl ⟨row, hrow, rfl⟩
  | touch token idle =>
      simp only [SessionOp.run, sessionTouch] at hrow
      split at hrow
      · rename_i hok
        split at hok <;> cases hok
        obtain ⟨old, hold, rfl⟩ := List.mem_map.mp hrow
        refine Or.inl ⟨old, hold, ?_⟩
        split <;> rfl
      · exact Or.inl ⟨row, hrow, rfl⟩
  | close token => exact Or.inl ⟨row, (List.mem_filter.mp hrow).1, rfl⟩
  | purgeExpired idle =>
      simp only [SessionOp.run, sessionPurgeExpired] at hrow
      split at hrow
      · rename_i hok
        split at hok <;> cases hok
        exact Or.inl ⟨row, (List.mem_filter.mp hrow).1, rfl⟩
      · exact Or.inl ⟨row, hrow, rfl⟩

theorem openedTokens_append (events later : List (ℤ × SessionOp)) :
    openedTokens (events ++ later) = openedTokens events ++ openedTokens later :=
  List.filterMap_append

theorem openedTokens_cons (e : ℤ × SessionOp) (events : List (ℤ × SessionOp)) :
    openedTokens (e :: events) = openedTokens [e] ++ openedTokens events :=
  openedTokens_append [e] events

theorem openedTokens_touch : openedTokens ((now, .touch fingerprint idleSeconds) :: events) =
    openedTokens events := rfl

/-- Tokens that are still going to be opened have no rows. -/
def Fresh (rows : List SessionRow) (events : List (ℤ × SessionOp)) : Prop :=
  ∀ token ∈ openedTokens events, ∀ row ∈ rows, row.tokenFingerprint ≠ token

theorem Fresh.run {e : ℤ × SessionOp} (h : Fresh rows (e :: events))
    (hnodup : (openedTokens (e :: events)).Nodup) :
    Fresh (e.2.run bureaus e.1 rows).2 events := by
  rw [openedTokens_cons, List.nodup_append] at hnodup
  rintro token htoken row hrow rfl
  rcases token_of_mem_run hrow with ⟨old, hold, hsame⟩ | hopened
  · apply h row.tokenFingerprint _ old hold hsame
    rw [openedTokens_cons]
    exact List.mem_append_right _ htoken
  · exact hnodup.2.2 _ hopened _ htoken rfl

theorem touches_cons (step : SessionStep) (steps : List SessionStep) :
    touches (step :: steps) = touches [step] ++ touches steps := by
  rw [← List.singleton_append, touches, touches, touches, List.filter_append]

/-- Runs from rows of which the same are live, one without the purges. -/
theorem touches_eq (hidle : 60 ≤ idleSeconds) (h : SameLive idleSeconds now rows rows')
    (huses : ∀ e ∈ events, e.2.UsesIdle idleSeconds)
    (hsorted : (events.map Prod.fst).Pairwise (· ≤ ·)) (hnow : ∀ e ∈ events, now ≤ e.1)
    (hnodup : (openedTokens events).Nodup) (hfresh : Fresh rows events)
    (hfresh' : Fresh rows' events) :
    touches (history bureaus rows events) =
      touches (history bureaus rows' (events.filter notPurge)) := by
  induction events generalizing rows rows' now with
  | nil => rfl
  | cons e events ih =>
      obtain ⟨moment, op⟩ := e
      have hlive := h.later (hnow _ List.mem_cons_self)
      have huse := huses _ List.mem_cons_self
      rw [List.map_cons, List.pairwise_cons] at hsorted
      have htail : (openedTokens events).Nodup := by
        rw [openedTokens_cons, List.nodup_append] at hnodup
        exact hnodup.2.1
      have hnext : ∀ {rows rows' : List SessionRow}, SameLive idleSeconds moment rows rows' →
          Fresh rows events → Fresh rows' events → touches (history bureaus rows events) =
            touches (history bureaus rows' (events.filter notPurge)) :=
        fun hlive hfresh hfresh' ↦ ih hlive (fun e he ↦ huses e (List.mem_cons_of_mem _ he))
          hsorted.2 (fun e he ↦ hsorted.1 e.1 (List.mem_map_of_mem he)) htail hfresh hfresh'
      cases hpurge : notPurge (moment, op) with
      | true =>
          rw [List.filter_cons_of_pos hpurge]
          simp only [history]
          obtain ⟨hlive', hanswer⟩ := hlive.run bureaus hidle huse hpurge
            fun token htoken ↦ by
              have hmem : token ∈ openedTokens ((moment, op) :: events) := by
                rw [openedTokens_cons]
                exact List.mem_append_left _ htoken
              exact ⟨hfresh token hmem, hfresh' token hmem⟩
          rw [touches_cons, touches_cons ⟨moment, op, (op.run bureaus moment rows').1⟩,
            hnext hlive' (hfresh.run hnodup) (hfresh'.run hnodup)]
          congr 1
          cases op with
          | touch token idle => rw [hanswer token idle rfl]
          | _ => rfl
      | false =>
          rw [List.filter_cons_of_neg (by simp [hpurge]), history, touches_cons]
          cases op with
          | purgeExpired idle =>
              cases huse
              have hrest : Fresh rows' events := by
                intro token htoken
                apply hfresh' token
                rw [openedTokens_cons]
                exact List.mem_append_right _ htoken
              rw [hnext (hlive.purge hidle) (hfresh.run hnodup) hrest]
              rfl
          | _ => cases hpurge

/-! ## Other tokens -/

/-- The rows with this token. -/
def own (fingerprint : Text) (rows : List SessionRow) : List SessionRow :=
  rows.filter (SessionRow.hasFingerprint fingerprint)

theorem own_of_filter (p : SessionRow → Bool) (h : own fingerprint rows = own fingerprint rows') :
    own fingerprint (rows.filter p) = own fingerprint (rows'.filter p) := by
  rw [own, own, List.filter_comm, List.filter_comm (SessionRow.hasFingerprint fingerprint) p rows']
  exact congrArg _ h

/-- A touch changes no token. -/
theorem own_touched (token : Text) (rows : List SessionRow) :
    own fingerprint (rows.map fun row ↦ if isTouched token idleSeconds now row then
        { row with lastSeenAt := now } else row) =
      (own fingerprint rows).map fun row ↦ if isTouched token idleSeconds now row then
        { row with lastSeenAt := now } else row := by
  rw [own, List.filter_map]
  congr 1
  apply List.filter_congr
  intro row _
  simp only [Function.comp_apply]
  split <;> rfl

/-- A call that names another token leaves the rows of this one. -/
theorem own_run_other (hidle : 60 ≤ idleSeconds) {op : SessionOp}
    (huses : op.UsesIdle idleSeconds) {token : Text} (hop : op.fingerprint? = some token)
    (hne : token ≠ fingerprint) :
    own fingerprint (op.run bureaus now rows).2 = own fingerprint rows := by
  cases op with
  | «open» slug other csrfToken ttlSeconds id =>
      cases hop
      rcases run_open bureaus rows token now slug csrfToken ttlSeconds id with
        ⟨-, new, htoken, -, -, hrun⟩ | ⟨e, hrun⟩
      · rw [hrun, own, List.filter_append]
        simp [SessionRow.hasFingerprint, htoken, hne, own]
      · rw [hrun]
  | touch other idle =>
      cases hop
      cases huses
      rw [run_touch hidle, own_touched]
      have hsame : ∀ row ∈ own fingerprint rows, (if isTouched token idleSeconds now row then
          { row with lastSeenAt := now } else row) = row := by
        intro row hrow
        have hown := (List.mem_filter.mp hrow).2
        simp only [SessionRow.hasFingerprint, decide_eq_true_eq] at hown
        rw [if_neg]
        simp [isTouched, SessionRow.hasFingerprint, hown, hne.symm]
      rw [List.map_congr_left hsame, List.map_id']
  | close other =>
      cases hop
      rw [run_close, own, List.filter_filter]
      apply List.filter_congr
      intro row _
      by_cases h : row.hasFingerprint fingerprint = true
      · have hother : row.hasFingerprint token = false := by
          simp only [SessionRow.hasFingerprint, decide_eq_true_eq] at h
          simpa [SessionRow.hasFingerprint, h] using hne.symm
        simp [h, hother]
      · simp [h]
  | purgeExpired idle => cases hop

variable (bureaus) in
/-- A call that names this token tells only its rows. -/
theorem own_run_same (hidle : 60 ≤ idleSeconds) {op : SessionOp}
    (huses : op.UsesIdle idleSeconds) (hop : concerns fingerprint (now, op) = true)
    (h : own fingerprint rows = own fingerprint rows') :
    own fingerprint (op.run bureaus now rows).2 = own fingerprint (op.run bureaus now rows').2 ∧
      (op.fingerprint? = some fingerprint →
        (op.run bureaus now rows).1 = (op.run bureaus now rows').1) := by
  cases op with
  | «open» slug token csrfToken ttlSeconds id =>
      cases of_decide_eq_true hop
      have hany : rows.any (SessionRow.hasFingerprint fingerprint) =
          rows'.any (SessionRow.hasFingerprint fingerprint) := by
        have hempty : ∀ rows : List SessionRow,
            rows.any (SessionRow.hasFingerprint fingerprint) = !(own fingerprint rows).isEmpty := by
          intro rows
          rw [own]
          induction rows with
          | nil => rfl
          | cons row rows ih => by_cases hrow : row.hasFingerprint fingerprint <;> simp [hrow, ih]
        rw [hempty, hempty rows', h]
      rw [run_open_eq, run_open_eq, hany]
      cases newSession bureaus slug fingerprint csrfToken ttlSeconds id now with
      | error e => exact ⟨h, fun _ ↦ rfl⟩
      | ok row =>
          cases rows'.any (SessionRow.hasFingerprint fingerprint) with
          | true => exact ⟨h, fun _ ↦ rfl⟩
          | false =>
              refine ⟨?_, fun _ ↦ rfl⟩
              have happend : ∀ rows : List SessionRow, own fingerprint (rows ++ [row]) =
                  own fingerprint rows ++ own fingerprint [row] := by simp [own]
              exact (happend rows).trans ((congrArg (· ++ own fingerprint [row]) h).trans
                (happend rows').symm)
  | touch token idle =>
      cases of_decide_eq_true hop
      cases huses
      rw [run_touch hidle, run_touch hidle]
      refine ⟨?_, fun _ ↦ ?_⟩
      · rw [own_touched, own_touched, h]
      · have hfind : ∀ rows : List SessionRow,
            rows.find? (isTouched fingerprint idleSeconds now) =
              (own fingerprint rows).find? (SessionRow.isLive idleSeconds now) := by
          intro rows
          rw [own, List.find?_filter]
          congr 1
          funext row
          rw [isTouched]
          cases row.isLive idleSeconds now <;> cases row.hasFingerprint fingerprint <;> rfl
        rw [hfind, hfind rows', h]
  | close token =>
      cases of_decide_eq_true hop
      rw [run_close, run_close]
      refine ⟨own_of_filter _ h, fun _ ↦ ?_⟩
      rw [List.countP_eq_length_filter, List.countP_eq_length_filter]
      exact congrArg (fun rows ↦ SessionAnswer.closed rows.length) h
  | purgeExpired idle =>
      cases huses
      rw [run_purge hidle, run_purge hidle]
      exact ⟨own_of_filter _ h, fun hname ↦ by cases hname⟩

theorem stepsOf_cons (step : SessionStep) (steps : List SessionStep) :
    stepsOf fingerprint (step :: steps) =
      stepsOf fingerprint [step] ++ stepsOf fingerprint steps := by
  rw [← List.singleton_append, stepsOf, stepsOf, stepsOf, List.filter_append]

/-- Runs from rows with the same sessions of a token, one without the calls that
name other tokens. -/
theorem stepsOf_eq (hidle : 60 ≤ idleSeconds) (h : own fingerprint rows = own fingerprint rows')
    (huses : ∀ e ∈ events, e.2.UsesIdle idleSeconds) :
    stepsOf fingerprint (history bureaus rows events) =
      stepsOf fingerprint (history bureaus rows' (events.filter (concerns fingerprint))) := by
  induction events generalizing rows rows' with
  | nil => rfl
  | cons e events ih =>
      obtain ⟨moment, op⟩ := e
      have huse := huses _ List.mem_cons_self
      have hrest := fun {rows rows' : List SessionRow}
        (h : own fingerprint rows = own fingerprint rows') ↦
          ih h fun e he ↦ huses e (List.mem_cons_of_mem _ he)
      cases hconcerns : concerns fingerprint (moment, op) with
      | true =>
          obtain ⟨hown, hanswer⟩ :=
            own_run_same bureaus hidle huse hconcerns h
          rw [List.filter_cons_of_pos hconcerns, history, history, stepsOf_cons,
            stepsOf_cons ⟨moment, op, (op.run bureaus moment rows').1⟩, hrest hown]
          congr 1
          by_cases hname : op.fingerprint? = some fingerprint
          · rw [hanswer hname]
          · simp [stepsOf, hname]
      | false =>
          have hother : ∃ token, op.fingerprint? = some token ∧ token ≠ fingerprint := by
            simp only [concerns] at hconcerns
            split at hconcerns
            · rename_i token hop
              exact ⟨token, hop, of_decide_eq_false hconcerns⟩
            · cases hconcerns
          obtain ⟨token, hop, hne⟩ := hother
          rw [List.filter_cons_of_neg (by simp [hconcerns]), history, stepsOf_cons,
            hrest ((own_run_other hidle huse hop hne).trans h)]
          simp [stepsOf, hop, hne]

/-! ## Refusals -/

/-- No row with this token is live. -/
def Refused (fingerprint : Text) (idleSeconds now : ℤ) (rows : List SessionRow) : Prop :=
  ∀ row ∈ rows, row.tokenFingerprint = fingerprint → row.isLive idleSeconds now = false

theorem find_of_refused (h : Refused fingerprint idleSeconds now rows) :
    rows.find? (isTouched fingerprint idleSeconds now) = none := by
  apply List.find?_eq_none.mpr
  intro row hrow htouched
  simp only [isTouched, SessionRow.hasFingerprint, Bool.and_eq_true, decide_eq_true_eq] at htouched
  rw [h row hrow htouched.1] at htouched
  exact Bool.false_ne_true htouched.2

theorem refused_of_find (h : rows.find? (isTouched fingerprint idleSeconds now) = none) :
    Refused fingerprint idleSeconds now rows := by
  intro row hrow htoken
  have hnot := List.find?_eq_none.mp h row hrow
  simpa [isTouched, SessionRow.hasFingerprint, htoken] using hnot

variable (bureaus) in
/-- A dead row never comes back. -/
theorem Refused.run (h : Refused fingerprint idleSeconds now rows) (hidle : 60 ≤ idleSeconds)
    {later : ℤ} (hlater : now ≤ later) {op : SessionOp} (huses : op.UsesIdle idleSeconds)
    (hop : fingerprint ∉ openedTokens [(later, op)]) :
    Refused fingerprint idleSeconds later (op.run bureaus later rows).2 := by
  have hdead : Refused fingerprint idleSeconds later rows := by
    intro row hrow htoken
    have hnow := h row hrow htoken
    by_contra hlive
    rw [isLive_earlier hlater (by simpa using hlive)] at hnow
    cases hnow
  cases op with
  | «open» slug token csrfToken ttlSeconds id =>
      rcases run_open bureaus rows token later slug csrfToken ttlSeconds id with
        ⟨-, new, hnew, -, -, hrun⟩ | ⟨e, hrun⟩
      · rw [hrun]
        intro row hrow htoken
        rcases List.mem_append.mp hrow with hrow | hrow
        · exact hdead row hrow htoken
        · rw [List.mem_singleton.mp hrow, hnew] at htoken
          exact absurd (by simp [openedTokens, htoken]) hop
      · rw [hrun]
        exact hdead
  | touch token idle =>
      cases huses
      rw [run_touch hidle]
      intro row hrow htoken
      obtain ⟨old, hold, rfl⟩ := List.mem_map.mp hrow
      split at htoken
      · rename_i htouched
        simp only [isTouched, Bool.and_eq_true] at htouched
        rw [hdead old hold htoken] at htouched
        exact absurd htouched.2 Bool.false_ne_true
      · rename_i hnot
        rw [if_neg hnot]
        exact hdead old hold htoken
  | close token => exact fun row hrow ↦ hdead row (List.mem_filter.mp hrow).1
  | purgeExpired idle =>
      cases huses
      rw [run_purge hidle]
      exact fun row hrow ↦ hdead row (List.mem_filter.mp hrow).1

theorem Refused.after (h : Refused fingerprint idleSeconds now rows) (hidle : 60 ≤ idleSeconds)
    (huses : ∀ e ∈ events, e.2.UsesIdle idleSeconds)
    (hsorted : (events.map Prod.fst).Pairwise (· ≤ ·)) (hnow : ∀ e ∈ events, now ≤ e.1)
    (hopen : fingerprint ∉ openedTokens events) {last : ℤ} (hlast : ∀ e ∈ events, e.1 ≤ last)
    (hle : now ≤ last) : Refused fingerprint idleSeconds last (after bureaus rows events) := by
  induction events generalizing rows now with
  | nil =>
      intro row hrow htoken
      have hdead := h row hrow htoken
      by_contra hlive
      rw [isLive_earlier hle (by simpa using hlive)] at hdead
      cases hdead
  | cons e events ih =>
      obtain ⟨moment, op⟩ := e
      rw [List.map_cons, List.pairwise_cons] at hsorted
      rw [openedTokens_cons, List.mem_append, not_or] at hopen
      have hnext := h.run bureaus hidle (hnow _ List.mem_cons_self)
        (huses _ List.mem_cons_self) hopen.1
      exact ih hnext (fun e he ↦ huses e (List.mem_cons_of_mem _ he)) hsorted.2
        (fun e he ↦ hsorted.1 e.1 (List.mem_map_of_mem he)) hopen.2
        (fun e he ↦ hlast e (List.mem_cons_of_mem _ he)) (hlast _ List.mem_cons_self)

/-! ## The session of a token -/

theorem token_of_mem_after {row : SessionRow} (hrow : row ∈ after bureaus rows events) :
    (∃ old ∈ rows, old.tokenFingerprint = row.tokenFingerprint) ∨
      row.tokenFingerprint ∈ openedTokens events := by
  induction events generalizing rows with
  | nil => exact Or.inl ⟨row, hrow, rfl⟩
  | cons e events ih =>
      rw [openedTokens_cons, List.mem_append]
      rcases ih hrow with ⟨old, hold, hsame⟩ | hopened
      · rcases token_of_mem_run hold with ⟨first, hfirst, hsame'⟩ | hopened
        · exact Or.inl ⟨first, hfirst, hsame'.trans hsame⟩
        · exact Or.inr (Or.inl (hsame ▸ hopened))
      · exact Or.inr (Or.inr hopened)

/-- The session with this token, if there is one, has this record. -/
def HasRecord (fingerprint : Text) (record : SessionRecord) (rows : List SessionRow) : Prop :=
  ∀ row ∈ rows, row.tokenFingerprint = fingerprint → row.record = record

variable {record : SessionRecord}

variable (bureaus) in
theorem HasRecord.run (h : HasRecord fingerprint record rows) (hidle : 60 ≤ idleSeconds)
    {op : SessionOp} (huses : op.UsesIdle idleSeconds)
    (hop : fingerprint ∉ openedTokens [(now, op)]) :
    HasRecord fingerprint record (op.run bureaus now rows).2 := by
  cases op with
  | «open» slug token csrfToken ttlSeconds id =>
      rcases run_open bureaus rows token now slug csrfToken ttlSeconds id with
        ⟨-, new, hnew, -, -, hrun⟩ | ⟨e, hrun⟩
      · rw [hrun]
        intro row hrow htoken
        rcases List.mem_append.mp hrow with hrow | hrow
        · exact h row hrow htoken
        · rw [List.mem_singleton.mp hrow, hnew] at htoken
          exact absurd (by simp [openedTokens, htoken]) hop
      · rw [hrun]
        exact h
  | touch token idle =>
      cases huses
      rw [run_touch hidle]
      intro row hrow htoken
      obtain ⟨old, hold, rfl⟩ := List.mem_map.mp hrow
      by_cases htouched : isTouched token idleSeconds now old = true
      · rw [if_pos htouched] at htoken ⊢
        exact h old hold htoken
      · rw [if_neg htouched] at htoken ⊢
        exact h old hold htoken
  | close token => exact fun row hrow ↦ h row (List.mem_filter.mp hrow).1
  | purgeExpired idle =>
      cases huses
      rw [run_purge hidle]
      exact fun row hrow ↦ h row (List.mem_filter.mp hrow).1

theorem HasRecord.after (h : HasRecord fingerprint record rows) (hidle : 60 ≤ idleSeconds)
    (huses : ∀ e ∈ events, e.2.UsesIdle idleSeconds) (hopen : fingerprint ∉ openedTokens events) :
    HasRecord fingerprint record (after bureaus rows events) := by
  induction events generalizing rows with
  | nil => exact h
  | cons e events ih =>
      rw [openedTokens_cons, List.mem_append, not_or] at hopen
      exact ih (h.run bureaus hidle (huses _ List.mem_cons_self) hopen.1)
        (fun e he ↦ huses e (List.mem_cons_of_mem _ he)) hopen.2

end Sessions

end Otdel
