import Otdel.Server.DownloadSafety
import Otdel.Server.Handlers

/-!
# Serving requests

Every request is safe, from a fresh start on and along every run.
-/

namespace Otdel

open Program Versions

variable {ι : Type} {state : AppState} {requests : ι → Request} {w w' : World ι} {i : ι}

/-- How a request ends. -/
structure Finished (state : AppState) (requests : ι → Request) (i : ι) (a : Answer)
    (w : World ι) : Prop where
  busy : w.Busy i ∨ ∃ session partnerId multipart m,
    requests i = .upload session partnerId multipart ∧ a = .response (.ok (.material 201 m))
  upload : ∀ session partnerId multipart r, requests i = .upload session partnerId multipart →
    a = .response r →
      UploadEnds i state.store session.bureauId partnerId multipart.original? r w
  download : ∀ session partnerId materialId r,
    requests i = .download session partnerId materialId → a = .response r →
      DownloadEnds i state.store requests session.bureauId partnerId materialId False r w

theorem stable_finished : Stable i (Finished state requests i) := by
  intro a w₁ w₂ h hrely
  refine ⟨h.busy.imp_left hrely.busy, ?_, ?_⟩
  · intro session partnerId multipart r hrequest ha
    exact stable_uploadEnds _ w₁ w₂ (h.upload session partnerId multipart r hrequest ha) hrely
  · intro session partnerId materialId r hrequest ha
    exact stable_downloadEnds _ w₁ w₂ (h.download session partnerId materialId r hrequest ha) hrely

/-- A dropped request has committed nothing that it knows of. -/
theorem finished_dropped (hbusy : w.Busy i) : Finished state requests i .dropped w :=
  ⟨Or.inl hbusy, fun _ _ _ _ _ ha ↦ (nomatch ha), fun _ _ _ _ _ ha ↦ (nomatch ha)⟩

/-- Only an upload that has answered 201 has inserted a material. -/
theorem UploadEnds.busy {store : Store} {bureauId partnerId : Uuid} {content? : Option Bytes}
    {r : Except ApiError Response} (h : UploadEnds i store bureauId partnerId content? r w) :
    w.Busy i ∨ ∃ m, r = .ok (.material 201 m) := by
  cases r with
  | error e => exact Or.inl (Aborted.busy h)
  | ok response =>
      obtain ⟨content, m, -, ⟨rfl, -⟩ | ⟨rfl, hrecorded⟩⟩ := h
      · exact Or.inr ⟨m, rfl⟩
      · refine Or.inl fun _ writes hwrites row hrow ↦ ?_
        rcases hrecorded.2.log writes hwrites with rfl | rfl <;> cases hrow

variable [Fintype ι] [DecidableEq ι]

omit [Fintype ι] in
theorem abandon_self (w : World ι) (i : ι) :
    (w.abandon i).tx i = none ∧ (w.abandon i).log = w.log ∧
      (w.abandon i).faulted = w.faulted ∧ (w.abandon i).unacked = w.unacked := by
  unfold World.abandon World.releaseGuard
  split <;> simp [World.setTx, World.setStaging]

/-- Requests may be dropped at any time. -/
theorem droppable_of {store : Store} {Post : ι → Answer → World ι → Prop}
    (hpost : ∀ i w, Kept store requests w → w.Busy i →
      Safe store requests i (Post i) (.done .dropped) w) :
    Machine.Droppable (server ι) Answer.dropped (originalsContract store requests) Post where
  keeps i w hinv _ := keeps_abandon hinv
  post := hpost
  busy i w _ hbusy := by
    obtain ⟨-, hlog, -, hunacked⟩ := abandon_self w i
    intro hacked writes hwrites
    exact hbusy (by rw [← hunacked]; exact hacked) writes (hlog ▸ hwrites)
  rely i op w hdetached hinv _ := by
    obtain ⟨htx, hlog, hfaulted, hunacked⟩ := abandon_self w i
    exact ⟨Or.inr ⟨hdetached, htx⟩, fun writes ↦ iff_of_eq (congrArg _ hlog), congrFun hfaulted i,
      congrFun hunacked i, fun name _ ↦ (World.filesKept_abandon i w).staging name, (keeps_abandon hinv).grows⟩
  underWay i op c w a w' hdetached _ hbusy hperform := by
    have hop : op ≠ .commit := by
      rintro rfl
      cases hdetached
    intro hacked writes hwrites
    have hlog := (World.perform_dbStep hperform).log_eq (by simpa using hop)
    rw [hlog] at hwrites
    rw [World.unacked_perform hop hperform] at hacked
    exact hbusy hacked writes hwrites

theorem droppable : Machine.Droppable (server ι) Answer.dropped
    (originalsContract state.store requests) (Finished state requests) :=
  droppable_of fun _ _ _ hbusy ↦ safe_done (finished_dropped hbusy) stable_finished

/-! ## The start -/

section Start

omit [Fintype ι] [DecidableEq ι]

theorem World.Fresh.pending (hw : w.Fresh) (i : ι) : w.pending i = [] := by
  rw [World.pending, hw.tx i]
  rfl

theorem World.Fresh.consistent (hw : w.Fresh) : w.Consistent where
  partners := by
    apply Sound.start hw.partnerIds
    · exact fun _ _ _ _ h ↦ h
    · exact fun i ↦ by simp [World.partners, hw.pending i]
    · simp [World.partners, hw.log]
  materials := by
    apply Sound.start
    · simp [World.materials, hw.materials]
    · simp [World.materials, hw.materials]
    · exact fun i ↦ by simp [World.materials, hw.pending i]
    · simp [World.materials, hw.log]
  jobs := by
    apply Sound.start
    · simp [World.jobs, hw.jobs]
    · simp [World.jobs, hw.jobs]
    · exact fun i ↦ by simp [World.jobs, hw.pending i]
    · simp [World.jobs, hw.log]
  materialPartner := by
    constructor
    · simp [World.materials, hw.materials]
    · exact fun i ↦ by simp [World.materials, hw.pending i]
  jobMaterial := by
    constructor
    · simp [World.jobs, hw.jobs]
    · exact fun i ↦ by simp [World.jobs, hw.pending i]

theorem World.Fresh.kept {store : Store} (hw : w.Fresh) : Kept store requests w where
  consistent := hw.consistent
  originals row hrow := by
    have hmem := hrow.rows_of_quiet fun i ↦ by simp [World.materials, hw.pending i]
    simp [World.materials, hw.materials] at hmem
  placed path content h := by simp [hw.objects path] at h
  jobKeys job hjob := by
    have hmem := hjob.rows_of_quiet fun i ↦ by simp [World.jobs, hw.pending i]
    simp [World.jobs, hw.jobs] at hmem
  queued row hrow := by simp [hw.materials] at hrow
  born row hrow := by simp [hw.materials] at hrow
  visible i message := by simp [hw.reports]

theorem World.Fresh.idle (hw : w.Fresh) (i : ι) : Otdel.Idle i w :=
  ⟨hw.tx i, fun writes h ↦ by simp [hw.log] at h⟩

end Start

/-- A request that is neither an upload nor a download. -/
def Request.StoresNothing : Request → Prop
  | .upload _ _ _ => False
  | .download _ _ _ => False
  | _ => True

theorem Request.StoresNothing.quiet {request : Request} (h : request.StoresNothing) {op : Op}
    (hop : request.Performs state op) : op.Quiet state.store := by
  cases hop with
  | begin | commit | rollback => trivial
  | sql hruns =>
      cases hruns with
      | uploadExists | record | enqueue | download => exact h.elim
      | requeueJob hs =>
          cases hs with
          | again => trivial
          | enqueue hs => cases hs <;> trivial
      | @worker bureauId changes change hchange => cases change <;> trivial
      | _ => trivial
  | file htouches =>
      cases htouches with
      | intake | stat | openFile => exact h.elim
      | maintenance hop => cases hop <;> trivial

/-- A request is safe from its first operation on. -/
theorem safe_program (hinv : Kept state.store requests w) (hw : Idle i w) :
    Safe state.store requests i (Finished state requests i) ((requests i).program state) w := by
  cases hrequest : requests i with
  | upload session partnerId multipart =>
      have huploads : ∀ content, multipart.original? = some content →
          Uploads requests ⟨session.bureauId, partnerId⟩ content :=
        fun content h ↦ ⟨i, session, partnerId, multipart, hrequest, rfl, h⟩
      apply safe_bind hinv (safe_upload hinv hw huploads)
      intro r w' _ _ hends
      apply safe_done _ stable_finished
      refine ⟨?_, ?_, ?_⟩
      · refine hends.busy.imp_right fun ⟨m, hr⟩ ↦ ?_
        exact ⟨session, partnerId, multipart, m, hrequest, by rw [hr]⟩
      · rintro session' partnerId' multipart' r' hother ⟨⟩
        rw [hrequest] at hother
        cases hother
        exact hends
      · rintro session' partnerId' materialId' r' hother -
        rw [hrequest] at hother
        cases hother
  | download session partnerId materialId =>
      apply safe_bind hinv (safe_download hinv hw False.elim)
      intro r w' _ _ hends
      apply safe_done _ stable_finished
      refine ⟨Or.inl hends.1.busy, ?_, ?_⟩
      · rintro session' partnerId' multipart' r' hother -
        rw [hrequest] at hother
        cases hother
      · rintro session' partnerId' materialId' r' hother ⟨⟩
        rw [hrequest] at hother
        cases hother
        exact hends
  | _ =>
      have hquiet : (requests i).StoresNothing := by
        rw [hrequest]
        trivial
      have hcalls : ((requests i).program state).Calls (Op.Quiet state.store) :=
        (requests i).calls_program.mono fun _ ↦ hquiet.quiet
      rw [hrequest] at hcalls
      apply Machine.Safe.mono (safe_quiet hcalls hw.unpublished)
      intro a w' _ _ hw'
      refine ⟨Or.inl hw'.busy, ?_, ?_⟩ <;>
      · intro _ _ _ _ hother
        rw [hrequest] at hother
        cases hother

/-- The contract and the ends of all requests. -/
abbrev Serves (state : AppState) (requests : ι → Request)
    (s : Sys ι (World ι) Op Op.Ans Answer) : Prop :=
  (server ι).AllSafe (originalsContract state.store requests) (Finished state requests) s

theorem World.Fresh.serves (hw : w.Fresh) : Serves state requests (serving state requests w) :=
  ⟨hw.kept, fun i ↦ safe_program hw.kept (hw.idle i)⟩

omit [Fintype ι] [DecidableEq ι] in
/-- Every waiting request can rely on the steps of the others. -/
theorem rely_of_guar {store : Store} (i j : ι) (op : Option Op) (w w' : World ι) (hj : j ≠ i)
    (hguar : (originalsContract store requests).Guar i w w') : World.Rely j op w w' :=
  (hguar j hj).of_none

/-- Every state that is reached is safe, and nothing is lost on the way. -/
theorem serves_of_run {s t : Sys ι (World ι) Op Op.Ans Answer} (h : Serves state requests s)
    {events : List (SysEvent ι Choice)} (hrun : Run.run (Server.step ι) s events = some t) :
    Serves state requests t ∧ s.world.Grows t.world := by
  exact Machine.AllSafe.of_run h droppable rely_of_guar hrun

end Otdel
