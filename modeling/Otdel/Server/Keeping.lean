import Otdel.Server.Originals

/-!
# Operations keep the contract

An operation that respects `Op.Allowed` keeps the invariant and leaves the other
requests what they rely on; so does the end of a dropped request.
-/

namespace Otdel

open Versions

variable {ι : Type} {store : Store} {requests : ι → Request} {w w' : World ι} {i : ι}

/-- What a step does to the files. -/
structure World.FilesStep (store : Store) (requests : ι → Request) (i : ι) (w w' : World ι) :
    Prop where
  placed : ∀ path content, w'.objects path = some content →
    w.objects path = some content ∨ Placed store requests path content
  present : ∀ path, (w.objects path).isSome = true → (w'.objects path).isSome = true
  drawnBy : ∀ name j, w.drawnBy name = some j → w'.drawnBy name = some j
  staging : ∀ j, j ≠ i → ∀ name, w.drawnBy name = some j →
    w'.staging name = w.staging name ∨ w'.staging name = none

namespace World

theorem FilesKept.filesStep (h : FilesKept w w') : FilesStep store requests i w w' where
  placed path content hpath := Or.inl (by rw [← h.objects]; exact hpath)
  present path hpath := by rw [h.objects]; exact hpath
  drawnBy name j hname := by rw [h.drawnBy]; exact hname
  staging _ _ name _ := h.staging name

theorem filesStep_setStaging {name : Uuid} {content : Option Bytes}
    (hown : w.drawnBy name = some i) :
    FilesStep store requests i w (w.setStaging name content) where
  placed _ _ hpath := Or.inl hpath
  present _ hpath := hpath
  drawnBy _ _ hname := hname
  staging j hj other hother := by
    refine Or.inl (Function.update_of_ne ?_ _ _)
    rintro rfl
    rw [hown] at hother
    exact hj (Option.some.inj hother).symm

theorem filesStep_rename {name : Uuid} {path : Path} {content : Bytes}
    (hplaced : Placed store requests path content) :
    FilesStep store requests i w ((w.setStaging name none).setObject path content) where
  placed other found hother := by
    by_cases hpath : other = path
    · subst hpath
      right
      have hfound : content = found := by simpa [setObject] using hother
      exact hfound ▸ hplaced
    · exact Or.inl (by simpa [setObject, setStaging, hpath] using hother)
  present other hother := by
    by_cases hpath : other = path
    · simp [setObject, hpath]
    · simpa [setObject, setStaging, hpath] using hother
  drawnBy _ _ hname := hname
  staging j _ other _ := by
    by_cases hname : other = name
    · exact Or.inr (by simp [setObject, setStaging, hname])
    · exact Or.inl (by simp [setObject, setStaging, hname])

variable [DecidableEq ι] [Fintype ι]

theorem filesStep_perform {op : Op} (hop : op.Allowed store requests i w) {choice : Choice}
    {a : op.Ans} (h : w.perform i op choice = some (a, w')) :
    FilesStep store requests i w w' := by
  by_cases hkeeps : op.keepsFiles = true
  · exact (filesKept_perform hkeeps h).filesStep
  · cases choice with
    | failed outage => exact (filesKept_refuse h).filesStep
    | lost => cases op <;> first | cases h | exact absurd rfl hkeeps
    | listed staging objects truncated =>
        cases op <;> cases h <;> exact absurd rfl hkeeps
    | granted id now =>
        cases op <;> first | exact absurd rfl hkeeps | skip
        case armStaging =>
          simp only [perform, grant] at h
          split at h <;> cases h
          rename_i hfree
          refine ⟨fun _ _ hpath ↦ Or.inl hpath, fun _ hpath ↦ hpath, fun name j hname ↦ ?_,
            fun _ _ _ _ ↦ Or.inl rfl⟩
          rw [← hname]
          apply Function.update_of_ne
          rintro rfl
          simp [hfree] at hname
        case createStaging name =>
          simp only [perform, grant] at h
          split at h <;> cases h
          · exact (FilesKept.of_eq rfl rfl rfl).filesStep
          · exact filesStep_setStaging hop
        case write name chunk =>
          cases h
          exact filesStep_setStaging hop
        case rename name path =>
          simp only [perform, grant] at h
          split at h <;> cases h
          · rename_i content hcontent
            exact filesStep_rename (hop content hcontent)
          · exact (FilesKept.of_eq rfl rfl rfl).filesStep

theorem unacked_perform {op : Op} (hop : op ≠ .commit) {choice : Choice} {a : op.Ans}
    (h : w.perform i op choice = some (a, w')) : w'.unacked = w.unacked := by
  cases choice with
  | granted id now =>
      cases op with
      | commit => exact absurd rfl hop
      | sql s =>
          simp only [perform, grant, runSql] at h
          split at h
          · cases h
            rfl
          · split at h
            · cases h
            · split at h <;> cases h <;> rfl
      | dropGuard =>
          cases h
          unfold releaseGuard
          split <;> rfl
      | armStaging | createStaging | rename | removeStaging | stat | openFile =>
          simp only [perform, grant] at h
          split at h <;> cases h <;> rfl
      | readStaging | listObjects => cases h
      | _ =>
          cases h
          rfl
  | failed outage => cases op <;> cases h <;> rfl
  | lost => cases op <;> first | exact absurd rfl hop | cases h
  | listed staging objects truncated => cases op <;> cases h <;> rfl

theorem reports_perform {op : Op} {choice : Choice} {a : op.Ans}
    (h : w.perform i op choice = some (a, w')) :
    w'.reports = w.reports ∨ ∃ line, op = .report line ∧ w'.reports = (i, line) :: w.reports := by
  cases choice with
  | granted id now =>
      cases op with
      | report line =>
          cases h
          exact Or.inr ⟨line, rfl, rfl⟩
      | commit =>
          simp only [perform, grant] at h
          split at h <;> cases h <;> exact Or.inl rfl
      | sql s =>
          simp only [perform, grant, runSql] at h
          split at h
          · cases h
            exact Or.inl rfl
          · split at h
            · cases h
            · split at h <;> cases h <;> exact Or.inl rfl
      | dropGuard =>
          cases h
          unfold releaseGuard
          split <;> exact Or.inl rfl
      | armStaging | createStaging | rename | removeStaging | stat | openFile =>
          simp only [perform, grant] at h
          split at h <;> cases h <;> exact Or.inl rfl
      | readStaging | listObjects => cases h
      | _ =>
          cases h
          exact Or.inl rfl
  | failed outage => cases op <;> cases h <;> exact Or.inl rfl
  | lost =>
      cases op <;> try cases h
      rw [perform, Option.bind_eq_some_iff] at h
      obtain ⟨tx, hopen, h⟩ := h
      cases h
      exact Or.inl rfl
  | listed staging objects truncated => cases op <;> cases h <;> exact Or.inl rfl

end World

variable [DecidableEq ι]

/-- The log after an operation that is no commit. -/
theorem DbStep.log_eq {op : Option Op} (h : DbStep i op w w')
    (hop : op ≠ some .commit) : w'.log = w.log := by
  cases h with
  | same _ hlog => exact hlog
  | ended _ hlog => exact hlog
  | began _ _ _ _ hlog => exact hlog
  | wrote _ _ _ _ _ _ _ _ _ _ hlog => exact hlog
  | committed _ hcommit => exact absurd hcommit hop

/-- The invariant after a step on the rows and the files. -/
theorem Kept.step {op : Option Op} (hw : Kept store requests w) (hdb : DbStep i op w w')
    (hfiles : World.FilesStep store requests i w w')
    (hallowed : ∀ o, op = some o → o.Allowed store requests i w)
    (hreports : ∀ j message, (j, .publishFailed (.decode message)) ∈ w'.reports →
      (j, .publishFailed (.decode message)) ∈ w.reports) : Kept store requests w' where
  consistent := hw.consistent.step hdb
  originals row hrow := by
    rcases hdb.tables.known_material hrow with
      ⟨old, hold, hcore⟩ | ⟨bureauId, new, id, now, rfl, rfl⟩
    · exact (hw.originals old hold).congr hcore hfiles.present
    · exact (hallowed _ rfl id now).congr rfl hfiles.present
  placed path content hpath :=
    (hfiles.placed path content hpath).elim (hw.placed path content) id
  jobKeys job hjob := by
    rcases hdb.tables.known_job hjob with
      ⟨old, hold, hcore⟩ | ⟨bureauId, partnerId, materialId, kind, key, id, now, rfl, rfl⟩
    · obtain ⟨-, -, -, hmaterial, -, hkey, -⟩ := JobRow.core_eq_iff.mp hcore
      rw [hkey, hmaterial]
      exact hw.jobKeys old hold
    · exact hallowed _ rfl
  queued := hw.queued_step hdb fun hcommit ↦ hallowed .commit hcommit
  born := hw.born_step hdb
  visible j message hmem := hw.visible j message (hreports j message hmem)

/-- Keeping the contract, for an operation. -/
theorem keeps_perform [Fintype ι] (hw : Kept store requests w) {op : Op}
    (hop : op.Allowed store requests i w) {choice : Choice} {a : op.Ans}
    (h : w.perform i op choice = some (a, w')) :
    (originalsContract store requests).Keeps i w w' := by
  have hdb := World.perform_dbStep h
  have hfiles : World.FilesStep store requests i w w' := World.filesStep_perform hop h
  obtain ⟨hpartners, hmaterials, hjobs⟩ := hw.consistent.grows_rows hdb
  have hgrows : w.Grows w' := ⟨hpartners, hmaterials, hjobs, hfiles.present, hfiles.drawnBy⟩
  refine ⟨?_, ?_, hgrows⟩
  · apply hw.step hdb hfiles
    · rintro o ho
      cases ho
      exact hop
    · intro j message hmem
      rcases World.reports_perform h with hsame | ⟨line, rfl, hcons⟩
      · rwa [hsame] at hmem
      · rw [hcons, List.mem_cons] at hmem
        rcases hmem with heq | hmem
        · cases heq
          exact hop.elim
        · exact hmem
  · intro j hj
    have hframe := World.frame_perform hj h
    exact ⟨Or.inl hframe.tx, hframe.log, hframe.faulted, hframe.unacked,
      hfiles.staging j hj, hgrows⟩

theorem reports_abandon (w : World ι) (i : ι) : (w.abandon i).reports = w.reports := by
  unfold World.abandon World.releaseGuard
  split <;> rfl

/-- Keeping the contract, when the request is dropped. -/
theorem keeps_abandon (hw : Kept store requests w) :
    (originalsContract store requests).Keeps i w (w.abandon i) := by
  have hdb := World.abandon_dbStep i w
  have hfiles : World.FilesStep store requests i w (w.abandon i) :=
    (World.filesKept_abandon i w).filesStep
  obtain ⟨hpartners, hmaterials, hjobs⟩ := hw.consistent.grows_rows hdb
  have hgrows : w.Grows (w.abandon i) :=
    ⟨hpartners, hmaterials, hjobs, hfiles.present, hfiles.drawnBy⟩
  refine ⟨?_, ?_, hgrows⟩
  · apply hw.step hdb hfiles
    · rintro o ho
      cases ho
    · intro j message hmem
      rwa [reports_abandon] at hmem
  · intro j hj
    have hframe := World.frame_abandon hj w
    exact ⟨Or.inl hframe.tx, hframe.log, hframe.faulted, hframe.unacked,
      hfiles.staging j hj, hgrows⟩

end Otdel
