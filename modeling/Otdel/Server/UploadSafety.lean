import Otdel.Server.PublishSafety

/-!
# Uploads are safe

An upload that answers has recorded exactly the content it was sent; one that
fails has committed nothing, unless it cannot know.
-/

namespace Otdel

open Program Versions

variable {ι : Type} [Fintype ι] [DecidableEq ι] {state : AppState} {requests : ι → Request}
  {w w' : World ι} {i : ι} {session : Session} {partnerId : Uuid}

/-- No transaction is open, and none has committed a write, unless the request
does not know. -/
structure Aborted (i : ι) (w : World ι) : Prop where
  tx : w.tx i = none
  log : w.unacked i = false → ∀ other, (i, other) ∈ w.log → other = []

/-- How an upload to a partner ends. -/
def UploadEnds (i : ι) (store : Store) (bureauId partnerId : Uuid) (content? : Option Bytes) :
    Except ApiError Response → World ι → Prop :=
  Ends (fun response w ↦ ∃ content m, content? = some content ∧
      ((response = .material 201 m ∧
        Recorded i bureauId partnerId (store.sha256.hex content) (.created m) w) ∨
      (response = .material 200 m ∧
        Recorded i bureauId partnerId (store.sha256.hex content) (.duplicate m) w)))
    fun _ ↦ Aborted i

section Stability

omit [Fintype ι] [DecidableEq ι]

variable {o : Option Op}

theorem Aborted.stable (h : Aborted i w) (hrely : World.Rely i o w w') : Aborted i w' :=
  ⟨hrely.tx_none h.tx, fun hacked other hother ↦
    h.log (hrely.unacked ▸ hacked) other ((hrely.log other).mp hother)⟩

theorem Aborted.busy (h : Aborted i w) : w.Busy i := by
  intro hacked other hother
  simp [h.log hacked other hother]

theorem Idle.aborted (h : Idle i w) : Aborted i w := ⟨h.tx, fun _ ↦ h.log⟩

theorem Uncommitted.aborted {e : DbError} (h : Uncommitted i e w) : Aborted i w := ⟨h.tx, h.log⟩

theorem stable_aborted {α : Type} : Stable i fun (_ : α) ↦ Aborted i :=
  fun _ _ _ h hrely ↦ h.stable hrely

theorem stable_uploadEnds {store : Store} {bureauId : Uuid} {content? : Option Bytes} :
    Stable i (UploadEnds i store bureauId partnerId content?) := by
  apply Stable.ends _ stable_aborted
  rintro response w₁ w₂ ⟨content, m, hcontent, h⟩ hrely
  refine ⟨content, m, hcontent, ?_⟩
  rcases h with ⟨hr, h⟩ | ⟨hr, h⟩
  · exact Or.inl ⟨hr, stable_recorded _ w₁ w₂ h hrely⟩
  · exact Or.inr ⟨hr, stable_recorded _ w₁ w₂ h hrely⟩

end Stability

/-- A line in the log, after the transaction has ended. -/
theorem safe_report {store : Store} (hw : Aborted i w) {line : Report}
    (hline : ∀ message, line ≠ .publishFailed (.decode message)) :
    Safe store requests i (fun _ ↦ Aborted i) (await (.report line)) w := by
  apply safe_await
  · intro w₁ hrely _
    refine ⟨(hw.stable hrely).busy, ?_⟩
    cases line with
    | publishFailed e =>
        cases e with
        | decode message => exact absurd rfl (hline message)
        | _ => trivial
    | _ => trivial
  · intro w₁ choice r w₂ hrely _ hperform
    have hw₁ := hw.stable hrely
    cases choice with
    | granted id now =>
        cases hperform
        exact ⟨hw₁.tx, hw₁.log⟩
    | failed | lost | listed => cases hperform
  · exact stable_aborted

theorem safe_reportAborted {store : Store} (hw : Aborted i w) (stored : StoredObject store.uuid) :
    Safe store requests i (fun _ ↦ Aborted i) (Upload.reportOrphanedObject stored) w := by
  obtain ⟨key, sha256, sizeBytes, present⟩ := stored
  cases present with
  | true => exact safe_done hw stable_aborted
  | false => exact safe_report hw (by simp)

theorem safe_dbCall {α : Type} {store : Store} {p : TryProg DbError α} {Pok : α → World ι → Prop}
    {Perr : DbError → World ι → Prop} {Q : World ι → Prop} (hinv : Kept store requests w)
    (hp : Safe store requests i (Ends Pok Perr) p w) (hok : Stable i Pok)
    (herror : ∀ e w', Perr e w' → Q w') (hQ : Stable i fun (_ : ApiError) ↦ Q) :
    Safe store requests i (Ends Pok fun _ ↦ Q) (Routes.db p) w := by
  apply safe_mapError _ hinv hp (hok.ends hQ)
  · exact fun e w' h ↦ herror e w' h
  · exact fun a w' h ↦ h

/-- The partner is looked up first, in a transaction of its own. -/
theorem safe_partnerExists (hinv : Kept state.store requests w) (hw : Idle i w) :
    Safe state.store requests i
      (Ends (fun present w' ↦ Idle i w' ∧
        (present = true → HasPartner session.bureauId partnerId w')) fun _ ↦ Aborted i)
      (Routes.partnerExists session partnerId) w := by
  have hstable : Stable i fun (present : Bool) w' ↦ Idle i w' ∧
      (present = true → HasPartner session.bureauId partnerId w') :=
    fun _ _ _ h hrely ↦ ⟨h.1.stable hrely, fun hp ↦ (h.2 hp).grows hrely.grows⟩
  have hend := hstable.ends (stable_aborted (i := i) (α := ApiError))
  apply safe_andThen hinv (safe_dbCall hinv (safe_begin hinv hw session.bureauId)
    (fun _ _ _ h hrely ↦ ⟨h.1, h.2.stable hrely rfl⟩) (fun e w' h ↦ h.idle.aborted)
    stable_aborted) hend
  · exact fun e w₁ _ h ↦ h
  · rintro tx w₁ hinv₁ _ ⟨htx, hw₁⟩
    have hopen : Stable i fun (present : Bool) w' ↦ InTx i session.bureauId [] w' ∧
        (present = true → HasPartner session.bureauId partnerId w') :=
      fun _ _ _ h hrely ↦ ⟨h.1.stable hrely rfl, fun hp ↦ (h.2 hp).grows hrely.grows⟩
    have hexists : Safe state.store requests i
        (Ends (fun (present : Bool) w' ↦ InTx i session.bureauId [] w' ∧
          (present = true → HasPartner session.bureauId partnerId w')) (Failed i))
        (Partners.exists? tx partnerId) w₁ := by
      unfold Partners.exists?
      rw [htx]
      apply safe_statement hw₁
      · exact fun _ _ _ ↦ trivial
      · exact hopen
      · intro w₂ id now answer added w₃ _ _ htx₂ hexec hdb _ htx₃
        have hview : w₂.view i = w₂.db := by rw [World.view, htx₂.pending, Db.overlay_nil]
        simp only [Sql.exec, hview] at hexec
        cases hexec
        refine ⟨htx₃, fun hp ↦ ?_⟩
        obtain ⟨q, hq, hof⟩ := List.any_eq_true.mp hp
        simp only [Sql.isPartner, Bool.and_eq_true, decide_eq_true_eq] at hof
        exact ⟨q, hdb ▸ hq, hof⟩
    apply safe_andThen hinv₁ (safe_dbCall hinv₁ hexists hopen
      (fun e w' h ↦ h.idle.aborted) stable_aborted) hend
    · exact fun e w₂ _ h ↦ h
    · rintro present w₂ hinv₂ _ ⟨hw₂, hp⟩
      have hcommit : Safe state.store requests i
          (Ends (fun _ w' ↦ Idle i w' ∧
            (present = true → HasPartner session.bureauId partnerId w')) (Uncommitted i))
          tx.commit w₂ := by
        apply safe_commit hw₂
        · intro w₃ hrely _ r hr
          rw [(hw₂.stable hrely rfl).pending] at hr
          cases hr
        · exact fun w₃ w₄ h hrely ↦ ⟨h.1.stable hrely, fun hp ↦ (h.2 hp).grows hrely.grows⟩
        · intro w₃ w₄ hrely _ hdb hpending hpublished
          rw [World.view, hpending, Db.overlay_nil] at hdb
          refine ⟨⟨hpublished.tx, fun other hother ↦ ?_⟩, fun hpresent ↦ ?_⟩
          · exact (hpublished.log other hother).elim id id
          · obtain ⟨q, hq, hof⟩ := (hp hpresent).grows hrely.grows
            exact ⟨q, hdb ▸ hq, hof⟩
      apply safe_andThen hinv₂ (safe_dbCall hinv₂ hcommit
        (fun _ w₃ w₄ h hrely ↦ ⟨h.1.stable hrely, fun hp ↦ (h.2 hp).grows hrely.grows⟩)
        (fun e w' h ↦ h.aborted) stable_aborted) hend
      · exact fun e w₃ _ h ↦ h
      · exact fun _ w₃ _ _ h ↦ safe_return h hend

omit [Fintype ι] [DecidableEq ι] in
/-- The row that is going to be inserted is one of the stored content. -/
theorem isOriginal_new {bureauId : Uuid} {content : Bytes}
    (huploads : Uploads requests ⟨bureauId, partnerId⟩ content)
    {received : ReceivedFile state.store.uuid}
    (hreceived : ReceivedAs state.store ⟨bureauId, partnerId⟩ content received w)
    {new : NewMaterial} (hnew : Routes.newMaterial state partnerId received = .ok new)
    (id : Uuid) (now : Timestamp) :
    IsOriginal state.store requests w.objects (Sql.newMaterialRow bureauId new id now) := by
  unfold Routes.newMaterial at hnew
  split at hnew
  · cases hnew
  · cases hnew
    have hstored := hreceived.stored
    refine ⟨⟨content, huploads, hstored.sha256, hstored.sizeBytes, received.mediaType,
      hreceived.mediaType, rfl⟩, hstored.key, hstored.present⟩

omit [Fintype ι] [DecidableEq ι] in
theorem newMaterial_eq_ok {received : ReceivedFile state.store.uuid} {new : NewMaterial}
    (hnew : Routes.newMaterial state partnerId received = .ok new) :
    new.partnerId = partnerId ∧ new.sha256 = received.stored.sha256 := by
  unfold Routes.newMaterial at hnew
  split at hnew
  · cases hnew
  · cases hnew
    exact ⟨rfl, rfl⟩

theorem safe_record (hinv : Kept state.store requests w) (hw : Idle i w)
    (hpartner : HasPartner session.bureauId partnerId w) {content : Bytes}
    (huploads : Uploads requests ⟨session.bureauId, partnerId⟩ content)
    {received : ReceivedFile state.store.uuid}
    (hreceived : ReceivedAs state.store ⟨session.bureauId, partnerId⟩ content received w) :
    Safe state.store requests i
      (UploadEnds i state.store session.bureauId partnerId (some content))
      (Routes.record state session partnerId received) w := by
  apply safe_ofExcept stable_uploadEnds (fun e _ ↦ hw.aborted)
  intro new hnew
  obtain ⟨hid, hsha⟩ := newMaterial_eq_ok hnew
  have hpublish := safe_publish hinv hw hpartner hid (isOriginal_new huploads hreceived hnew)
  rw [hsha, hreceived.stored.sha256] at hpublish
  apply safe_liftThen hinv hpublish (stable_recorded.ends stable_uncommitted)
  rintro (e | m | m) w₁ hinv₁ _ h
  · apply safe_liftThen hinv₁ (safe_report h.aborted _) stable_aborted
    · intro _ w₂ hinv₂ _ hw₂
      apply safe_liftThen hinv₂ (safe_reportAborted hw₂ received.stored) stable_aborted
      exact fun _ w₃ _ _ hw₃ ↦ safe_fail hw₃ stable_uploadEnds
    · intro message heq
      have hdecode := h.isDecode
      rw [Report.publishFailed.inj heq] at hdecode
      cases hdecode
  · exact safe_return ⟨content, m, rfl, Or.inl ⟨rfl, h⟩⟩ stable_uploadEnds
  · exact safe_return ⟨content, m, rfl, Or.inr ⟨rfl, h⟩⟩ stable_uploadEnds

theorem safe_upload (hinv : Kept state.store requests w) (hw : Idle i w) {multipart : Multipart}
    (huploads : ∀ content, multipart.original? = some content →
      Uploads requests ⟨session.bureauId, partnerId⟩ content) :
    Safe state.store requests i
      (UploadEnds i state.store session.bureauId partnerId multipart.original?)
      (Routes.upload state session partnerId multipart) w := by
  apply safe_andThen hinv (safe_partnerExists hinv hw) stable_uploadEnds
  · exact fun e w₁ _ h ↦ h
  · rintro (_ | _) w₁ hinv₁ _ ⟨hw₁, hpartner⟩
    · exact safe_fail hw₁.aborted stable_uploadEnds
    · apply safe_andThen hinv₁ (safe_receiveFile hinv₁ hw₁ huploads) stable_uploadEnds
      · exact fun e w₂ _ h ↦ h.1.aborted
      · rintro received w₂ hinv₂ hgrows ⟨hw₂, hreceived⟩
        obtain ⟨content, hcontent, hreceived⟩ := hreceived received rfl
        rw [hcontent]
        exact safe_record hinv₂ hw₂ ((hpartner rfl).grows hgrows) (huploads content hcontent)
          hreceived

end Otdel
