import Otdel.Server.Transactions

/-!
# What an operation leaves alone

A request changes neither the transaction nor the history of another one.  The operations that do not write files keep every object, and at
most remove staging files.
-/

namespace Otdel

variable {ι : Type}

/-- Nothing that belongs to request `j` has changed. -/
structure World.Frame (j : ι) (w w' : World ι) : Prop where
  tx : w'.tx j = w.tx j
  log : ∀ writes, (j, writes) ∈ w'.log ↔ (j, writes) ∈ w.log
  faulted : w'.faulted j = w.faulted j
  unacked : w'.unacked j = w.unacked j

/-- Files were at most removed, and none of them an object. -/
structure World.FilesKept (w w' : World ι) : Prop where
  objects : w'.objects = w.objects
  drawnBy : w'.drawnBy = w.drawnBy
  staging : ∀ name, w'.staging name = w.staging name ∨ w'.staging name = none

/-- The operations that neither draw a staging name nor write a file. -/
def Op.keepsFiles : Op → Bool
  | .armStaging => false
  | .createStaging _ => false
  | .write _ _ => false
  | .rename _ _ => false
  | _ => true

namespace World

theorem Frame.refl (j : ι) (w : World ι) : Frame j w w := ⟨rfl, fun _ ↦ Iff.rfl, rfl, rfl⟩

theorem FilesKept.of_eq {w w' : World ι} (hobjects : w'.objects = w.objects)
    (hdrawn : w'.drawnBy = w.drawnBy) (hstaging : w'.staging = w.staging) : FilesKept w w' :=
  ⟨hobjects, hdrawn, fun _ ↦ Or.inl (by rw [hstaging])⟩

theorem Frame.trans {j : ι} {w₁ w₂ w₃ : World ι} (h : Frame j w₁ w₂) (h' : Frame j w₂ w₃) :
    Frame j w₁ w₃ :=
  ⟨h'.tx.trans h.tx, fun ws ↦ (h'.log ws).trans (h.log ws),
    h'.faulted.trans h.faulted, h'.unacked.trans h.unacked⟩

variable [DecidableEq ι] {w w' : World ι} {i j : ι}

theorem frame_setTx (hj : j ≠ i) (w : World ι) (tx : Option Tx) : Frame j w (w.setTx i tx) :=
  ⟨by simp [setTx, hj], fun _ ↦ Iff.rfl, rfl, rfl⟩

theorem frame_markFaulted (hj : j ≠ i) (w : World ι) : Frame j w (w.markFaulted i) :=
  ⟨rfl, fun _ ↦ Iff.rfl, by simp [markFaulted, hj], rfl⟩

theorem frame_publish (hj : j ≠ i) (w : World ι) (writes : List Write) :
    Frame j w (w.publish i writes) :=
  ⟨by simp [publish, setTx, hj], fun ws ↦ by simp [publish, hj], rfl, rfl⟩

theorem frame_releaseGuard (w : World ι) (i j : ι) : Frame j w (w.releaseGuard i) := by
  unfold releaseGuard
  split
  · exact ⟨rfl, fun _ ↦ Iff.rfl, rfl, rfl⟩
  · exact Frame.refl j w

theorem frame_abandon (hj : j ≠ i) (w : World ι) : Frame j w (w.abandon i) :=
  (frame_releaseGuard w i j).trans (frame_setTx hj _ none)

theorem frame_refuse (hj : j ≠ i) {op : Op} {outage : Outage} {a : op.Ans}
    (h : w.refuse i outage op = some (a, w')) : Frame j w w' := by
  cases op with
  | sql | commit =>
      cases h
      exact (frame_setTx hj w none).trans (frame_markFaulted hj _)
  | rollback | armStaging | syncDir | dropGuard | disarmGuard | report => cases h
  | _ =>
      cases h
      exact frame_markFaulted hj w

omit [DecidableEq ι] in
theorem filesKept_removeStaging (w : World ι) (name : Uuid) :
    FilesKept w (w.setStaging name none) := by
  refine ⟨rfl, rfl, fun other ↦ ?_⟩
  by_cases h : other = name
  · subst h
    exact Or.inr (by simp [setStaging])
  · exact Or.inl (by simp [setStaging, h])

theorem filesKept_releaseGuard (w : World ι) (i : ι) : FilesKept w (w.releaseGuard i) := by
  unfold releaseGuard
  split
  · rename_i name _
    obtain ⟨hobjects, hdrawn, hstaging⟩ := filesKept_removeStaging w name
    exact ⟨hobjects, hdrawn, hstaging⟩
  · exact FilesKept.of_eq rfl rfl rfl

theorem filesKept_abandon (i : ι) (w : World ι) : FilesKept w (w.abandon i) := by
  obtain ⟨hobjects, hdrawn, hstaging⟩ := filesKept_releaseGuard w i
  exact ⟨hobjects, hdrawn, hstaging⟩

theorem filesKept_refuse {op : Op} {outage : Outage} {a : op.Ans}
    (h : w.refuse i outage op = some (a, w')) : FilesKept w w' := by
  cases op with
  | rollback | armStaging | syncDir | dropGuard | disarmGuard | report => cases h
  | _ =>
      cases h
      exact FilesKept.of_eq rfl rfl rfl

variable [Fintype ι]

theorem frame_runSql (hj : j ≠ i) {s : Sql} {id : Uuid} {a : Except DbError s.Answer}
    (h : w.runSql i s id = some (a, w')) : Frame j w w' := by
  unfold runSql at h
  split at h
  · cases h
    exact Frame.refl j w
  · split at h
    · cases h
    · split at h <;> cases h <;> exact frame_setTx hj w _

theorem frame_grant (hj : j ≠ i) {op : Op} {id : Uuid} {now : Timestamp} {a : op.Ans}
    (h : w.grant i id now op = some (a, w')) : Frame j w w' := by
  cases op with
  | begin bureauId =>
      cases h
      exact frame_setTx hj w _
  | sql s => exact frame_runSql hj h
  | commit =>
      simp only [grant] at h
      split at h <;> cases h
      · exact Frame.refl j w
      · exact frame_publish hj w _
  | rollback =>
      cases h
      exact frame_setTx hj w none
  | armStaging =>
      simp only [grant] at h
      split at h
      · cases h
        exact ⟨rfl, fun _ ↦ Iff.rfl, rfl, rfl⟩
      · cases h
  | dropGuard =>
      cases h
      exact frame_releaseGuard w i j
  | disarmGuard =>
      cases h
      exact ⟨rfl, fun _ ↦ Iff.rfl, rfl, rfl⟩
  | createStaging | rename | removeStaging | stat | openFile =>
      simp only [grant] at h
      split at h <;> cases h <;> exact ⟨rfl, fun _ ↦ Iff.rfl, rfl, rfl⟩
  | readStaging | listObjects => cases h
  | _ =>
      cases h
      exact ⟨rfl, fun _ ↦ Iff.rfl, rfl, rfl⟩

theorem frame_perform (hj : j ≠ i) {op : Op} {choice : Choice} {a : op.Ans}
    (h : w.perform i op choice = some (a, w')) : Frame j w w' := by
  cases choice with
  | granted id now => exact frame_grant hj h
  | failed outage => exact frame_refuse hj h
  | lost =>
      cases op <;> try cases h
      rw [perform, Option.bind_eq_some_iff] at h
      obtain ⟨tx, hopen, h⟩ := h
      cases h
      exact ⟨by simp [publish, setTx, markFaulted, hj],
        fun ws ↦ by simp [publish, markFaulted, hj], by simp [markFaulted, publish, setTx, hj],
        by simp [markFaulted, hj]⟩
  | listed staging objects truncated =>
      cases op <;> cases h <;> exact Frame.refl j w

theorem filesKept_grant {op : Op} (hop : op.keepsFiles = true) {id : Uuid} {now : Timestamp}
    {a : op.Ans} (h : w.grant i id now op = some (a, w')) : FilesKept w w' := by
  cases op with
  | sql s =>
      simp only [grant, runSql] at h
      split at h
      · cases h
        exact FilesKept.of_eq rfl rfl rfl
      · split at h
        · cases h
        · split at h <;> cases h <;> exact FilesKept.of_eq rfl rfl rfl
  | commit =>
      simp only [grant] at h
      split at h <;> cases h <;> exact FilesKept.of_eq rfl rfl rfl
  | armStaging | createStaging | write | rename => cases hop
  | dropGuard =>
      cases h
      exact filesKept_releaseGuard w i
  | removeStaging name =>
      simp only [grant] at h
      split at h <;> cases h
      · exact filesKept_removeStaging w name
      · exact FilesKept.of_eq rfl rfl rfl
  | stat | openFile =>
      simp only [grant] at h
      split at h <;> cases h <;> exact FilesKept.of_eq rfl rfl rfl
  | readStaging | listObjects => cases h
  | _ =>
      cases h
      exact FilesKept.of_eq rfl rfl rfl

theorem filesKept_perform {op : Op} (hop : op.keepsFiles = true) {choice : Choice} {a : op.Ans}
    (h : w.perform i op choice = some (a, w')) : FilesKept w w' := by
  cases choice with
  | granted id now => exact filesKept_grant hop h
  | failed outage => exact filesKept_refuse h
  | lost =>
      cases op <;> try cases h
      rw [perform, Option.bind_eq_some_iff] at h
      obtain ⟨tx, hopen, h⟩ := h
      cases h
      exact FilesKept.of_eq rfl rfl rfl
  | listed staging objects truncated =>
      cases op <;> cases h <;> exact FilesKept.of_eq rfl rfl rfl

end World

end Otdel
