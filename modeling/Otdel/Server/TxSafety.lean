import Otdel.Server.StoreSafety

/-!
# Transactions are safe

The statements of a transaction, from `begin` to its commit: what it has written
so far, what it sees, and what is committed with it.
-/

namespace Otdel

open Program Versions

variable {ι : Type}

/-- An open transaction with these writes, the first ones of its request. -/
structure InTx (i : ι) (bureauId : Uuid) (writes : List Write) (w : World ι) : Prop where
  tx : ∃ now, w.tx i = some ⟨bureauId, now, writes⟩
  log : ∀ earlier, (i, earlier) ∈ w.log → earlier = []

/-- The transaction failed, and not because a row had vanished. -/
structure Failed (i : ι) (e : DbError) (w : World ι) : Prop where
  idle : Idle i w
  isDecode : e.isDecode = false

/-- One postcondition for values and one for errors. -/
def Ends {ε α : Type} (Pok : α → World ι → Prop) (Perr : ε → World ι → Prop) :
    Except ε α → World ι → Prop
  | .ok a => Pok a
  | .error e => Perr e

section Stability

variable {w w' : World ι} {i : ι} {o : Option Op} {bureauId : Uuid} {writes : List Write}

theorem InTx.pending (h : InTx i bureauId writes w) : w.pending i = writes := by
  obtain ⟨now, htx⟩ := h.tx
  exact World.pending_eq_of_tx htx

theorem InTx.busy (h : InTx i bureauId writes w) : w.Busy i := by
  intro _ earlier hearlier
  simp [h.log earlier hearlier]

theorem InTx.stable (h : InTx i bureauId writes w) (hrely : World.Rely i o w w')
    (ho : o.any Op.detached = false) : InTx i bureauId writes w' := by
  obtain ⟨now, htx⟩ := h.tx
  exact ⟨⟨now, (hrely.tx_eq ho).trans htx⟩,
    fun earlier hearlier ↦ h.log earlier ((hrely.log earlier).mp hearlier)⟩

theorem Failed.stable {e : DbError} (h : Failed i e w) (hrely : World.Rely i o w w') :
    Failed i e w' :=
  ⟨h.idle.stable hrely, h.isDecode⟩

theorem Stable.ends {ε α : Type} {Pok : α → World ι → Prop} {Perr : ε → World ι → Prop}
    (hok : Stable i Pok) (herr : Stable i Perr) : Stable i (Ends Pok Perr) := by
  rintro (e | a) w₁ w₂ h hrely
  · exact herr e w₁ w₂ h hrely
  · exact hok a w₁ w₂ h hrely

theorem stable_failed : Stable i fun e ↦ Failed i e := fun _ _ _ h hrely ↦ h.stable hrely

theorem stable_outage : Stable i fun e w ↦ Failed i e w ∧ w.faulted i = true :=
  fun _ _ _ h hrely ↦ ⟨h.1.stable hrely, hrely.faulted.trans h.2⟩

/-- What the transaction sees stays visible to it. -/
theorem World.Rely.visible_job (hrely : World.Rely i o w w') (ho : o.any Op.detached = false)
    {job : JobRow} (hjob : w.jobs.Visible i job) :
    ∃ job', w'.jobs.Visible i job' ∧ job'.core = job.core := by
  rcases hjob with hjob | ⟨v, hv, rfl⟩
  · obtain ⟨job', hjob', hcore⟩ := hrely.grows.jobs job hjob
    exact ⟨job', Or.inl hjob', hcore⟩
  · refine ⟨v.1, Or.inr ⟨v, ?_, rfl⟩, rfl⟩
    rw [World.mem_jobs_pending, World.pending_congr (hrely.tx_eq ho)]
    exact World.mem_jobs_pending.mp hv

end Stability

section Rules

variable [Fintype ι] [DecidableEq ι] {store : Store} {requests : ι → Request}
  {w w' : World ι} {i : ι} {bureauId : Uuid} {writes : List Write}

theorem safe_ends {ε α : Type} {Pok Pok' : α → World ι → Prop} {Perr Perr' : ε → World ι → Prop}
    {p : TryProg ε α} (hp : Safe store requests i (Ends Pok Perr) p w)
    (hok : ∀ a w', Pok a w' → Pok' a w') (herror : ∀ e w', Perr e w' → Perr' e w') :
    Safe store requests i (Ends Pok' Perr') p w := by
  apply Machine.Safe.mono hp
  rintro (e | a) w' _ _ h
  · exact herror e w' h
  · exact hok a w' h

/-- A transaction begins, unless there is an outage. -/
theorem safe_begin_or_outage (hinv : Kept store requests w) (hw : Idle i w) (bureauId : Uuid) :
    Safe store requests i
      (Ends (fun tx w' ↦ tx.bureauId = bureauId ∧ InTx i bureauId [] w')
        fun e w' ↦ Failed i e w' ∧ w'.faulted i = true)
      (ScopedTx.begin bureauId) w := by
  have hstable : ∀ {α : Type} (P : α → Prop),
      Stable i fun (a : α) w' ↦ P a ∧ InTx i bureauId [] w' :=
    fun P a w₁ w₂ h hrely ↦ ⟨h.1, h.2.stable hrely rfl⟩
  have hbegin : Safe store requests i
      (Ends (fun (_ : Unit) w' ↦ True ∧ InTx i bureauId [] w')
        fun e w' ↦ Failed i e w' ∧ w'.faulted i = true)
      (await (.begin bureauId)) w := by
    apply safe_await
    · exact fun w' hrely _ ↦ ⟨(hw.stable hrely).unpublished.busy, trivial⟩
    · intro w' choice r w'' hrely _ hperform
      have hw' := hw.stable hrely
      cases choice with
      | granted id now =>
          cases hperform
          exact ⟨trivial, ⟨now, Function.update_self ..⟩, hw'.log⟩
      | failed outage =>
          cases hperform
          refine ⟨⟨⟨hw'.tx, hw'.log⟩, ?_⟩, by simp [World.markFaulted]⟩
          cases outage <;> rfl
      | lost | listed => cases hperform
    · exact (hstable _).ends stable_outage
  apply safe_andThen hinv hbegin ((hstable _).ends stable_outage)
  · exact fun e w' _ h ↦ h
  · exact fun _ w' _ _ h ↦ safe_return ⟨rfl, h.2⟩ ((hstable _).ends stable_outage)

theorem safe_begin (hinv : Kept store requests w) (hw : Idle i w) (bureauId : Uuid) :
    Safe store requests i
      (Ends (fun tx w' ↦ tx.bureauId = bureauId ∧ InTx i bureauId [] w') (Failed i))
      (ScopedTx.begin bureauId) w :=
  safe_ends (safe_begin_or_outage hinv hw bureauId) (fun _ _ h ↦ h) fun _ _ h ↦ h.1

/-- How a statement of an open transaction ends. -/
theorem perform_sql {tx : Tx} (hopen : w.tx i = some tx) {s : Sql} {choice : Choice}
    {r : Except DbError s.Answer} (h : w.perform i (.sql s) choice = some (r, w')) :
    (∃ id answer added, r = .ok answer ∧ s.exec id tx.now (w.view i) = .ok (answer, added) ∧
      w' = w.setTx i (some { tx with writes := tx.writes ++ added })) ∨
    ∃ e, r = .error e ∧ e.isDecode = false ∧ w'.tx i = none ∧ w'.log = w.log ∧
      (w'.faulted i = true ∨ ∃ id, s.exec id tx.now (w.view i) = .error e) := by
  cases choice with
  | granted id now =>
      simp only [World.perform, World.grant, World.runSql, hopen] at h
      split at h
      · cases h
      · split at h
        · rename_i answer added hexec
          cases h
          exact Or.inl ⟨id, answer, added, rfl, hexec, rfl⟩
        · rename_i e hexec
          cases h
          exact Or.inr ⟨e, rfl, Sql.isDecode_of_exec hexec, by simp [World.setTx], rfl,
            Or.inr ⟨id, hexec⟩⟩
  | failed outage =>
      cases h
      refine Or.inr ⟨_, rfl, ?_, by simp [World.setTx, World.markFaulted], rfl,
        Or.inl (by simp [World.markFaulted])⟩
      cases outage <;> rfl
  | lost | listed => cases h

/-- The rule for a statement, which fails for a reason of its own or because of
an outage. -/
theorem safe_statement_or_outage {s : Sql} {Pok : s.Answer → World ι → Prop}
    (hw : InTx i bureauId writes w)
    (hallowed : ∀ w', World.Rely i (some (.sql s)) w w' → Kept store requests w' →
      Op.Allowed store requests i w' (.sql s))
    (hstable : Stable i Pok)
    (hok : ∀ w' id now answer added w'', World.Rely i (some (.sql s)) w w' →
      Kept store requests w' → InTx i bureauId writes w' →
        s.exec id now (w'.view i) = .ok (answer, added) → w''.db = w'.db →
          Kept store requests w'' → InTx i bureauId (writes ++ added) w'' → Pok answer w'') :
    Safe store requests i
      (Ends Pok fun e w' ↦ Failed i e w' ∧
        (w'.faulted i = true ∨ ∃ id now db, s.exec id now db = .error e)) (runStatement s) w := by
  apply safe_call
  · intro w' hrely hinv
    exact ⟨(hw.stable hrely rfl).busy, hallowed w' hrely hinv⟩
  · intro w' choice r w'' hrely hinv hperform hinv'
    have hw' := hw.stable hrely rfl
    obtain ⟨now, htx⟩ := hw'.tx
    have hfailed : Stable i fun e w' ↦ Failed i e w' ∧
        (w'.faulted i = true ∨ ∃ id now db, s.exec id now db = .error e) :=
      fun _ _ _ h hrely ↦ ⟨h.1.stable hrely, hrely.faulted ▸ h.2⟩
    apply safe_done _ (hstable.ends hfailed)
    rcases perform_sql htx hperform with
      ⟨id, answer, added, rfl, hexec, rfl⟩ | ⟨e, rfl, hdecode, hnone, hlog, hcause⟩
    · exact hok w' id now answer added _ hrely hinv hw' hexec rfl hinv'
        ⟨⟨now, by simp [World.setTx]⟩, hw'.log⟩
    · refine ⟨⟨⟨hnone, fun earlier hearlier ↦ hw'.log earlier (hlog ▸ hearlier)⟩, hdecode⟩, ?_⟩
      refine hcause.imp_right ?_
      rintro ⟨id, hexec⟩
      exact ⟨id, now, w'.view i, hexec⟩

theorem safe_statement {s : Sql} {Pok : s.Answer → World ι → Prop}
    (hw : InTx i bureauId writes w)
    (hallowed : ∀ w', World.Rely i (some (.sql s)) w w' → Kept store requests w' →
      Op.Allowed store requests i w' (.sql s))
    (hstable : Stable i Pok)
    (hok : ∀ w' id now answer added w'', World.Rely i (some (.sql s)) w w' →
      Kept store requests w' → InTx i bureauId writes w' →
        s.exec id now (w'.view i) = .ok (answer, added) → w''.db = w'.db →
          Kept store requests w'' → InTx i bureauId (writes ++ added) w'' → Pok answer w'') :
    Safe store requests i (Ends Pok (Failed i)) (runStatement s) w :=
  safe_ends (safe_statement_or_outage hw hallowed hstable hok) (fun _ _ h ↦ h) fun _ _ h ↦ h.1

/-- What a committed transaction leaves. -/
structure Published (i : ι) (writes : List Write) (w : World ι) : Prop where
  tx : w.tx i = none
  mem : (i, writes) ∈ w.log
  log : ∀ other, (i, other) ∈ w.log → other = [] ∨ other = writes

/-- A commit that failed has published nothing, unless its acknowledgement was
lost. -/
structure Uncommitted (i : ι) (e : DbError) (w : World ι) : Prop where
  tx : w.tx i = none
  log : w.unacked i = false → ∀ other, (i, other) ∈ w.log → other = []
  isDecode : e.isDecode = false

omit [Fintype ι] [DecidableEq ι] in
theorem Published.stable {o : Option Op} (h : Published i writes w) (hrely : World.Rely i o w w') :
    Published i writes w' :=
  ⟨hrely.tx_none h.tx, (hrely.log _).mpr h.mem,
    fun other hother ↦ h.log other ((hrely.log other).mp hother)⟩

omit [Fintype ι] [DecidableEq ι] in
theorem Uncommitted.stable {o : Option Op} {e : DbError} (h : Uncommitted i e w)
    (hrely : World.Rely i o w w') : Uncommitted i e w' :=
  ⟨hrely.tx_none h.tx, fun hacked other hother ↦
    h.log (hrely.unacked ▸ hacked) other ((hrely.log other).mp hother), h.isDecode⟩

omit [Fintype ι] [DecidableEq ι] in
theorem stable_uncommitted : Stable i fun e ↦ Uncommitted i e :=
  fun _ _ _ h hrely ↦ h.stable hrely

omit [Fintype ι] [DecidableEq ι] in
theorem Failed.uncommitted {e : DbError} (h : Failed i e w) : Uncommitted i e w :=
  ⟨h.idle.tx, fun _ ↦ h.idle.log, h.isDecode⟩

theorem safe_commit_or_outage {Pok : World ι → Prop} (hw : InTx i bureauId writes w)
    (hsettled : ∀ w', World.Rely i (some .commit) w w' → Kept store requests w' →
      Settled i w')
    (hstable : ∀ w₁ w₂, Pok w₁ → World.Rely i none w₁ w₂ → Pok w₂)
    (hok : ∀ w' w'', World.Rely i (some .commit) w w' → Kept store requests w' →
      w''.db = w'.view i → w'.pending i = writes → Published i writes w'' → Pok w'')
    (tx : ScopedTx) :
    Safe store requests i
      (Ends (fun _ ↦ Pok) fun e w' ↦ Uncommitted i e w' ∧ w'.faulted i = true) tx.commit w := by
  apply safe_await
  · exact fun w' hrely hinv ↦ ⟨(hw.stable hrely rfl).busy, hsettled w' hrely hinv⟩
  · intro w' choice r w'' hrely hinv hperform
    have hw' := hw.stable hrely rfl
    have hpending := hw'.pending
    obtain ⟨now, htx⟩ := hw'.tx
    cases choice with
    | granted id now =>
        simp only [World.perform, World.grant, htx] at hperform
        cases hperform
        apply hok w' _ hrely hinv (by simp [World.publish, World.view, hpending]) hpending
        refine ⟨by simp [World.publish, World.setTx], List.mem_cons_self, ?_⟩
        intro other hother
        rcases List.mem_cons.mp hother with heq | hother
        · exact Or.inr (Prod.mk.inj heq).2
        · exact Or.inl (hw'.log other hother)
    | failed outage =>
        cases hperform
        refine ⟨⟨by simp [World.setTx, World.markFaulted], fun _ ↦ hw'.log, ?_⟩,
          by simp [World.markFaulted]⟩
        cases outage <;> rfl
    | lost =>
        rw [World.perform, Option.bind_eq_some_iff] at hperform
        obtain ⟨tx, -, hperform⟩ := hperform
        cases hperform
        refine ⟨⟨by simp [World.publish, World.setTx, World.markFaulted], ?_, rfl⟩,
          by simp [World.markFaulted]⟩
        intro hacked
        simp [World.markFaulted] at hacked
    | listed => cases hperform
  · exact Stable.ends (fun _ w₁ w₂ h hrely ↦ hstable w₁ w₂ h hrely)
      fun _ _ _ h hrely ↦ ⟨h.1.stable hrely, hrely.faulted.trans h.2⟩

theorem safe_commit {Pok : World ι → Prop} (hw : InTx i bureauId writes w)
    (hsettled : ∀ w', World.Rely i (some .commit) w w' → Kept store requests w' →
      Settled i w')
    (hstable : ∀ w₁ w₂, Pok w₁ → World.Rely i none w₁ w₂ → Pok w₂)
    (hok : ∀ w' w'', World.Rely i (some .commit) w w' → Kept store requests w' →
      w''.db = w'.view i → w'.pending i = writes → Published i writes w'' → Pok w'')
    (tx : ScopedTx) :
    Safe store requests i (Ends (fun _ ↦ Pok) (Uncommitted i)) tx.commit w :=
  safe_ends (safe_commit_or_outage hw hsettled hstable hok tx) (fun _ _ h ↦ h) fun _ _ h ↦ h.1

end Rules

end Otdel
