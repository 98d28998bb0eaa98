import Otdel.Server.StoreSafety

/-!
# Receiving a file is safe

The part named `file` is stored as it was sent, and its media type is the one
its content has.
-/

namespace Otdel

open Program

/-! ## Streams -/

theorem content?_append (xs ys : ByteStream) :
    ByteStream.content? (xs ++ ys) =
      (ByteStream.content? xs).bind fun x ↦ (ByteStream.content? ys).map fun y ↦ x ++ y := by
  induction xs with
  | nil => simp [ByteStream.content?]
  | cons chunk xs ih =>
      cases chunk with
      | error e => rfl
      | ok chunk =>
          rw [List.cons_append, ByteStream.content?, ByteStream.content?, ih]
          cases ByteStream.content? xs <;> cases ByteStream.content? ys <;> simp

theorem content?_map_ok (chunks : List Bytes) :
    ByteStream.content? (chunks.map .ok) = some chunks.flatten := by
  induction chunks with
  | nil => rfl
  | cons chunk chunks ih => simp [ByteStream.content?, ih]

theorem content?_limitSize {maxBytes written : ℕ} {body : ByteStream} {content : Bytes}
    (h : ByteStream.content? (Upload.limitSize maxBytes written body) = some content) :
    ByteStream.content? body = some content := by
  induction body generalizing written content with
  | nil => exact h
  | cons chunk rest ih =>
      cases chunk with
      | error e => cases h
      | ok chunk =>
          rw [Upload.limitSize] at h
          split at h
          · cases h
          · rw [ByteStream.content?, Option.map_eq_some_iff] at h
            obtain ⟨bytes, hbytes, rfl⟩ := h
            rw [ByteStream.content?, ih hbytes]
            rfl

theorem content?_fieldStream {complete : Bool} {chunks : List Bytes} {content : Bytes}
    (h : ByteStream.content? (Upload.fieldStream complete chunks) = some content) :
    content = chunks.flatten := by
  rw [Upload.fieldStream, content?_append, content?_map_ok] at h
  cases complete <;> simp [ByteStream.content?] at h
  exact h.symm

/-- What is held back is a beginning of the part, and all of it unless the
signature is complete. -/
theorem holdBack_eq_ok {complete : Bool} {chunks : List Bytes} {head : Bytes}
    {held rest : List Bytes} (h : Upload.holdBack complete head chunks = .ok (held, rest)) :
    chunks = held ++ rest ∧ (signaturePrefixLen ≤ (head ++ held.flatten).length ∨ rest = []) := by
  induction chunks generalizing head held with
  | nil =>
      unfold Upload.holdBack at h
      split at h
      · rename_i hlen
        cases h
        exact ⟨rfl, Or.inl (by simpa using hlen)⟩
      · dsimp only at h
        split at h <;> cases h
        exact ⟨rfl, Or.inr rfl⟩
  | cons chunk chunks ih =>
      unfold Upload.holdBack at h
      split at h
      · rename_i hlen
        cases h
        exact ⟨rfl, Or.inl (by simpa using hlen)⟩
      · dsimp only at h
        cases hrest : Upload.holdBack complete (head ++ chunk) chunks with
        | error e =>
            rw [hrest] at h
            cases h
        | ok r =>
            obtain ⟨held', rest'⟩ := r
            rw [hrest] at h
            cases h
            obtain ⟨rfl, hlen⟩ := ih hrest
            refine ⟨rfl, ?_⟩
            simpa [List.append_assoc] using hlen

theorem detect_held {chunks held rest : List Bytes}
    (h : chunks = held ++ rest ∧ (signaturePrefixLen ≤ (([] : Bytes) ++ held.flatten).length ∨
      rest = [])) :
    MediaType.detect chunks.flatten = MediaType.detect held.flatten := by
  obtain ⟨rfl, hlen | rfl⟩ := h
  · rw [List.flatten_append]
    exact MediaType.detect_append _ (by simpa using hlen)
  · simp

/-! ## The file part -/

variable {ι : Type}

/-- A received file: its content is stored and has its media type. -/
structure ReceivedAs (store : Store) (ns : ObjectNamespace) (content : Bytes)
    (received : ReceivedFile store.uuid) (w : World ι) : Prop where
  mediaType : MediaType.detect content = some received.mediaType
  stored : StoredAs store ns content received.stored w

/-- What receiving leaves behind. -/
def Intake (i : ι) (store : Store) (ns : ObjectNamespace) (content? : Option Bytes)
    (r : Except ApiError (ReceivedFile store.uuid)) (w : World ι) : Prop :=
  Idle i w ∧ ∀ received, r = .ok received → ∃ content, content? = some content ∧
    ReceivedAs store ns content received w

variable {state : AppState} {requests : ι → Request} {w : World ι} {i : ι}
  {ns : ObjectNamespace} {content? : Option Bytes}

theorem stable_intake {store : Store} : Stable i (Intake i store ns content?) := by
  rintro r w₁ w₂ ⟨hidle, hok⟩ hrely
  refine ⟨hidle.stable hrely, fun received hr ↦ ?_⟩
  obtain ⟨content, hcontent, hreceived⟩ := hok received hr
  exact ⟨content, hcontent, hreceived.mediaType, hreceived.stored.grows hrely.grows⟩

theorem Intake.error {store : Store} {e : ApiError} (h : Idle i w) :
    Intake i store ns content? (.error e) w :=
  ⟨h, fun _ hr ↦ nomatch hr⟩

variable [Fintype ι] [DecidableEq ι]

theorem safe_readFileField (hinv : Kept state.store requests w) (hw : Idle i w) {field : Field}
    (huploads : Uploads requests ns field.chunks.flatten) :
    Safe state.store requests i (Intake i state.store ns (some field.chunks.flatten))
      (Upload.readFileField state ns field) w := by
  have hfail : ∀ e w', Idle i w' →
      Intake i state.store ns (some field.chunks.flatten) (.error e) w' :=
    fun e w' h ↦ Intake.error h
  apply safe_ofExcept stable_intake (fun e _ ↦ hfail e w hw)
  rintro ⟨held, rest⟩ hheld
  have hsplit := holdBack_eq_ok hheld
  dsimp only
  split
  · exact safe_fail (hfail _ w hw) stable_intake
  · apply safe_ofExcept stable_intake (fun e _ ↦ hfail e w hw)
    intro mediaType hmedia
    rw [okOr_eq_ok] at hmedia
    apply safe_ofExcept stable_intake (fun e _ ↦ hfail e w hw)
    intro _ _
    have hbody : ∀ content, ByteStream.content? (Upload.limitSize state.maxUploadBytes 0
        (held.map .ok ++ Upload.fieldStream field.complete rest)) = some content →
          content = field.chunks.flatten := by
      intro content hcontent
      have hall := content?_limitSize hcontent
      rw [content?_append, content?_map_ok, Option.bind_some, Option.map_eq_some_iff] at hall
      obtain ⟨bytes, hbytes, rfl⟩ := hall
      rw [content?_fieldStream hbytes, hsplit.1, List.flatten_append]
    have hput : Safe state.store requests i
        (Put i state.store ns (some field.chunks.flatten))
        (mapError ApiError.ofStorageError (state.store.putStream ns
          (Upload.limitSize state.maxUploadBytes 0
            (held.map .ok ++ Upload.fieldStream field.complete rest)))) w := by
      apply safe_mapError _ hinv
        (safe_putStream hinv hw fun content hcontent ↦ hbody content hcontent ▸ huploads)
        stable_put
      · exact fun e w' h ↦ Put.error h.1
      · rintro stored w' ⟨hidle, hstored⟩
        refine ⟨hidle, fun stored' hr ↦ ?_⟩
        cases hr
        obtain ⟨content, hcontent, hstored⟩ := hstored stored rfl
        exact ⟨content, by rw [hbody content hcontent], hstored⟩
    apply safe_andThen hinv hput stable_intake
    · exact fun e w' _ h ↦ hfail e w' h.1
    · rintro stored w' _ _ ⟨hidle, hstored⟩
      obtain ⟨content, hcontent, hstored⟩ := hstored stored rfl
      apply safe_return _ stable_intake
      refine ⟨hidle, fun received hr ↦ ⟨content, hcontent, ?_⟩⟩
      rw [Except.ok.injEq] at hr
      subst hr
      refine ⟨?_, hstored⟩
      rw [← Option.some.inj hcontent, detect_held hsplit, hmedia]

theorem safe_reportOrphanedObject {store : Store} (hw : Idle i w)
    (stored : StoredObject store.uuid) :
    Safe store requests i (fun _ ↦ Idle i) (Upload.reportOrphanedObject stored) w := by
  obtain ⟨key, sha256, sizeBytes, present⟩ := stored
  cases present with
  | true => exact safe_done hw stable_idle
  | false => exact safe_idle (.report (.orphanedObject key.raw sizeBytes)) trivial (by simp) hw

/-- After the file part the other parts are read, and a second one is refused. -/
theorem safe_receiveRest (hinv : Kept state.store requests w) (hw : Idle i w)
    {content : Bytes} {received : ReceivedFile state.store.uuid}
    (hreceived : ReceivedAs state.store ns content received w) (wellFormed : Bool)
    (fields : List Field) (otherFieldBytes : ℕ) :
    Safe state.store requests i (Intake i state.store ns (some content))
      (Upload.receiveFields state ns wellFormed fields (some received) otherFieldBytes) w := by
  induction fields generalizing otherFieldBytes with
  | nil =>
      unfold Upload.receiveFields
      split
      · exact safe_fail (Intake.error hw) stable_intake
      · apply safe_done _ stable_intake
        refine ⟨hw, fun found hr ↦ ?_⟩
        cases hr
        exact ⟨content, rfl, hreceived⟩
  | cons field rest ih =>
      unfold Upload.receiveFields
      split
      · apply safe_ofExcept stable_intake (fun e _ ↦ Intake.error hw)
        exact fun bytes _ ↦ ih bytes
      · apply safe_liftThen hinv (safe_reportOrphanedObject hw received.stored) stable_idle
        exact fun _ w' _ _ hw' ↦ safe_fail (Intake.error hw') stable_intake

theorem safe_receiveFields (hinv : Kept state.store requests w) (hw : Idle i w)
    (wellFormed : Bool) (fields : List Field) (otherFieldBytes : ℕ)
    (huploads : ∀ content, Multipart.original? ⟨fields, wellFormed⟩ = some content →
      Uploads requests ns content) :
    Safe state.store requests i
      (Intake i state.store ns (Multipart.original? ⟨fields, wellFormed⟩))
      (Upload.receiveFields state ns wellFormed fields none otherFieldBytes) w := by
  induction fields generalizing otherFieldBytes with
  | nil =>
      unfold Upload.receiveFields
      split
      · exact safe_fail (Intake.error hw) stable_intake
      · exact safe_done (Intake.error hw) stable_intake
  | cons field rest ih =>
      unfold Upload.receiveFields
      split
      · rename_i hname
        have hskip : Multipart.original? ⟨field :: rest, wellFormed⟩ =
            Multipart.original? ⟨rest, wellFormed⟩ := by
          rw [Multipart.original?, Multipart.original?,
            List.find?_cons_of_neg (by simpa using hname)]
        rw [hskip] at huploads ⊢
        apply safe_ofExcept stable_intake (fun e _ ↦ Intake.error hw)
        exact fun bytes _ ↦ ih bytes huploads
      · rename_i hname
        rw [not_not] at hname
        have hfound : Multipart.original? ⟨field :: rest, wellFormed⟩ =
            some field.chunks.flatten := by
          simp [Multipart.original?, hname]
        rw [hfound] at huploads ⊢
        apply safe_andThen hinv (safe_readFileField hinv hw (huploads _ rfl)) stable_intake
        · exact fun e w' _ h ↦ Intake.error h.1
        · rintro received w' hinv' _ ⟨hidle, hreceived⟩
          obtain ⟨content, hcontent, hreceived⟩ := hreceived received rfl
          rw [hcontent]
          exact safe_receiveRest hinv' hidle hreceived wellFormed rest otherFieldBytes

/-- What is received is the `file` part of the request. -/
theorem safe_receiveFile (hinv : Kept state.store requests w) (hw : Idle i w)
    {multipart : Multipart}
    (huploads : ∀ content, multipart.original? = some content → Uploads requests ns content) :
    Safe state.store requests i (Intake i state.store ns multipart.original?)
      (Upload.receiveFile state ns multipart) w :=
  safe_receiveFields hinv hw multipart.wellFormed multipart.fields 0 huploads

end Otdel
