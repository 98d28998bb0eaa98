import Otdel.Server.Safety

/-!
# Storing an upload is safe

A request that stores a file has no transaction open.  Whatever is swept while
it writes, an object that it publishes holds exactly the bytes it was sent.
-/

namespace Otdel

open Program

variable {ι : Type}

/-- No transaction is open, and none has written anything. -/
structure Idle (i : ι) (w : World ι) : Prop where
  tx : w.tx i = none
  log : ∀ writes, (i, writes) ∈ w.log → writes = []

/-- The staging file of the request has this content, unless it was swept. -/
structure Staged (i : ι) (name : Uuid) (content : Bytes) (w : World ι) : Prop where
  idle : Idle i w
  drawn : w.drawnBy name = some i
  staging : w.staging name = some content ∨ w.staging name = none

/-- What was stored for a content. -/
structure StoredAs (store : Store) (ns : ObjectNamespace) (content : Bytes)
    (stored : StoredObject store.uuid) (w : World ι) : Prop where
  key : stored.key.raw = ns.keyText store.uuid stored.sha256
  sha256 : stored.sha256 = store.sha256.hex content
  sizeBytes : stored.sizeBytes = content.length
  present : (w.objects (store.place ns stored.sha256)).isSome = true

/-- The bytes of a stream that does not end in an error. -/
def ByteStream.content? : ByteStream → Option Bytes
  | [] => some []
  | .error _ :: _ => none
  | .ok chunk :: rest => (content? rest).map fun bytes ↦ chunk ++ bytes

section Stability

variable {w w' : World ι} {i : ι} {o : Option Op} {name : Uuid} {content : Bytes}

theorem Idle.unpublished (hw : Idle i w) : Unpublished i w := by
  constructor
  · simp [World.pending, hw.tx]
  · intro _ writes hwrites
    simp [hw.log writes hwrites]

theorem Idle.stable (hw : Idle i w) (h : World.Rely i o w w') : Idle i w' :=
  ⟨h.tx_none hw.tx, fun writes hwrites ↦ hw.log writes ((h.log writes).mp hwrites)⟩

theorem Staged.stable (hw : Staged i name content w) (h : World.Rely i o w w') :
    Staged i name content w' := by
  refine ⟨hw.idle.stable h, h.grows.drawnBy name i hw.drawn, ?_⟩
  rcases h.staging name hw.drawn with hstay | hgone
  · rw [hstay]
    exact hw.staging
  · exact Or.inr hgone

theorem StoredAs.grows {store : Store} {ns : ObjectNamespace} {stored : StoredObject store.uuid}
    (hw : StoredAs store ns content stored w) (h : w.Grows w') :
    StoredAs store ns content stored w' :=
  ⟨hw.key, hw.sha256, hw.sizeBytes, h.objects _ hw.present⟩

variable [DecidableEq ι] [Fintype ι] {op : Op} {choice : Choice} {a : op.Ans}

/-- Without a transaction, only `begin` matters to the rows. -/
theorem Idle.perform (hw : Idle i w) (hop : ∀ bureauId, op ≠ .begin bureauId)
    (h : w.perform i op choice = some (a, w')) : Idle i w' := by
  have hkept : w'.tx i = none ∧ w'.log = w.log := by
    have hdb := World.perform_dbStep h
    cases hdb with
    | same _ hlog htx => exact ⟨htx ▸ hw.tx, hlog⟩
    | ended _ hlog htx => exact ⟨by simp [htx], hlog⟩
    | wrote tx _ _ _ _ _ hopen => simp [hw.tx] at hopen
    | committed tx _ hopen => simp [hw.tx] at hopen
    | began bureauId now hbegin => exact absurd (Option.some.inj hbegin) (hop bureauId)
  exact ⟨hkept.1, fun writes hwrites ↦ hw.log writes (hkept.2 ▸ hwrites)⟩

/-- An operation that writes no file leaves the staging file, if it is not swept. -/
theorem Staged.perform (hw : Staged i name content w) (hkeeps : op.keepsFiles = true)
    (hop : ∀ bureauId, op ≠ .begin bureauId) (h : w.perform i op choice = some (a, w')) :
    Staged i name content w' := by
  have hfiles := World.filesKept_perform hkeeps h
  refine ⟨hw.idle.perform hop h, by rw [hfiles.drawnBy]; exact hw.drawn, ?_⟩
  rcases hfiles.staging name with hstay | hgone
  · rw [hstay]
    exact hw.staging
  · exact Or.inr hgone

end Stability

section Rules

variable [Fintype ι] [DecidableEq ι] {store : Store} {requests : ι → Request}
  {w : World ι} {i : ι} {name : Uuid} {content : Bytes} {α : Type}

omit [Fintype ι] [DecidableEq ι] in
theorem stable_idle : Stable i fun (_ : α) ↦ Idle i := fun _ _ _ hw h ↦ hw.stable h

omit [Fintype ι] [DecidableEq ι] in
theorem stable_staged : Stable i fun (_ : α) ↦ Staged i name content :=
  fun _ _ _ hw h ↦ hw.stable h

theorem safe_idle (op : Op) (hop : op.Quiet store) (hbegin : ∀ bureauId, op ≠ .begin bureauId)
    (hw : Idle i w) : Safe store requests i (fun _ ↦ Idle i) (await op) w := by
  apply safe_await
  · intro w' hrely _
    have hw' := (hw.stable hrely).unpublished
    exact ⟨hw'.busy, hop.allowed hw'⟩
  · intro w' choice a w'' hrely _ hperform
    exact (hw.stable hrely).perform hbegin hperform
  · exact stable_idle

theorem safe_staged (op : Op) (hop : op.Quiet store) (hkeeps : op.keepsFiles = true)
    (hbegin : ∀ bureauId, op ≠ .begin bureauId) (hw : Staged i name content w) :
    Safe store requests i (fun _ ↦ Staged i name content) (await op) w := by
  apply safe_await
  · intro w' hrely _
    have hw' := (hw.stable hrely).idle.unpublished
    exact ⟨hw'.busy, hop.allowed hw'⟩
  · intro w' choice a w'' hrely _ hperform
    exact (hw.stable hrely).perform hkeeps hbegin hperform
  · exact stable_staged

/-- The object of this path is there and nothing else is open. -/
def Stored (i : ι) (path : Path) (w : World ι) : Prop :=
  Idle i w ∧ (w.objects path).isSome = true

omit [Fintype ι] [DecidableEq ι] in
theorem stable_stored {path : Path} : Stable i fun (_ : α) ↦ Stored i path :=
  fun _ _ _ hw h ↦ ⟨hw.1.stable h, h.grows.objects path hw.2⟩

theorem safe_stored (op : Op) (hop : op.Quiet store) (hkeeps : op.keepsFiles = true)
    (hbegin : ∀ bureauId, op ≠ .begin bureauId) {path : Path} (hw : Stored i path w) :
    Safe store requests i (fun _ ↦ Stored i path) (await op) w := by
  apply safe_await
  · intro w' hrely _
    have hw' := (hw.1.stable hrely).unpublished
    exact ⟨hw'.busy, hop.allowed hw'⟩
  · intro w' choice a w'' hrely _ hperform
    refine ⟨(hw.1.stable hrely).perform hbegin hperform, ?_⟩
    rw [(World.filesKept_perform hkeeps hperform).objects]
    exact hrely.grows.objects path hw.2
  · exact stable_stored

theorem safe_io {p : Prog (Except IoError α)} {operation : String} {P : World ι → Prop}
    (hinv : Kept store requests w) (hp : Safe store requests i (fun _ ↦ P) p w)
    (hstable : Stable i fun (_ : Except StorageError α) ↦ P) :
    Safe store requests i (fun _ ↦ P) (Store.io operation p) w :=
  safe_mapError _ hinv hp hstable (fun _ _ h ↦ h) fun _ _ h ↦ h

/-- One chunk is appended, if the file is still there. -/
theorem safe_write (hw : Staged i name content w) (chunk : Bytes) :
    Safe store requests i
      (fun r w' ↦ Idle i w' ∧ (r = .ok () → Staged i name (content ++ chunk) w'))
      (await (.write name chunk)) w := by
  apply safe_await
  · intro w' hrely _
    have hw' := hw.stable hrely
    exact ⟨hw'.idle.unpublished.busy, hw'.drawn⟩
  · intro w' choice a w'' hrely _ hperform
    have hw' := hw.stable hrely
    have hidle := hw'.idle.perform (by simp) hperform
    refine ⟨hidle, fun _ ↦ ?_⟩
    cases choice with
    | granted id now =>
        cases hperform
        refine ⟨hidle, hw'.drawn, ?_⟩
        rcases hw'.staging with hstaged | hgone
        · exact Or.inl (by simp [World.setStaging, hstaged])
        · exact Or.inr (by simp [World.setStaging, hgone])
    | failed outage =>
        rename_i hok
        cases hperform
        cases hok
    | lost | listed => cases hperform
  · rintro r w₁ w₂ ⟨hidle, hstaged⟩ hrely
    exact ⟨hidle.stable hrely, fun hr ↦ (hstaged hr).stable hrely⟩

/-- Every chunk of a stream is written, or the stream ends in an error. -/
theorem safe_writeChunks (body : ByteStream) {hashed : Bytes} (hinv : Kept store requests w)
    (hw : Staged i name hashed w) :
    Safe store requests i
      (fun r w' ↦ Idle i w' ∧ ∀ content, r = .ok content → Staged i name content w' ∧
        body.content?.map (fun bytes ↦ hashed ++ bytes) = some content)
      (Store.writeChunks name body hashed) w := by
  have hstable : ∀ (body : ByteStream) (hashed : Bytes), Stable i
      fun (r : Except StorageError Bytes) w' ↦ Idle i w' ∧ ∀ content, r = .ok content →
        Staged i name content w' ∧
          body.content?.map (fun bytes ↦ hashed ++ bytes) = some content := by
    rintro body hashed r w₁ w₂ ⟨hidle, hok⟩ hrely
    exact ⟨hidle.stable hrely, fun content hr ↦ ⟨(hok content hr).1.stable hrely, (hok content hr).2⟩⟩
  induction body generalizing w hashed with
  | nil =>
      apply safe_done _ (hstable [] hashed)
      refine ⟨hw.idle, fun content hr ↦ ?_⟩
      cases hr
      exact ⟨hw, by simp [ByteStream.content?]⟩
  | cons chunk rest ih =>
      cases chunk with
      | error e =>
          apply safe_done _ (hstable _ hashed)
          exact ⟨hw.idle, fun content hr ↦ nomatch hr⟩
      | ok chunk =>
          have hwrite : Safe store requests i
              (fun r w' ↦ Idle i w' ∧ (r = .ok () → Staged i name (hashed ++ chunk) w'))
              (Store.io "write staging file" (await (.write name chunk))) w := by
            apply safe_mapError _ hinv (safe_write hw chunk)
            · rintro r w₁ w₂ ⟨hidle, hok⟩ hrely
              exact ⟨hidle.stable hrely, fun hr ↦ (hok hr).stable hrely⟩
            · exact fun e w' h ↦ ⟨h.1, fun hr ↦ nomatch hr⟩
            · exact fun a w' h ↦ ⟨h.1, fun _ ↦ h.2 rfl⟩
          apply safe_andThen hinv hwrite (hstable _ hashed)
          · rintro e w' _ ⟨hidle, -⟩
            exact ⟨hidle, fun content hr ↦ nomatch hr⟩
          · rintro ⟨⟩ w' hinv' _ ⟨-, hstaged⟩
            apply Machine.Safe.mono (ih hinv' (hstaged rfl))
            rintro r w'' _ _ ⟨hidle, hok⟩
            refine ⟨hidle, fun content hr ↦ ⟨(hok content hr).1, ?_⟩⟩
            rw [← (hok content hr).2]
            simp [ByteStream.content?, Function.comp_def]

theorem safe_createPrivateDir (hinv : Kept store requests w) (hw : Staged i name content w)
    (path : Path) :
    Safe store requests i (fun _ ↦ Staged i name content) (Store.createPrivateDir path) w := by
  apply safe_andThen hinv (safe_io hinv (safe_staged (.createDirAll path) trivial rfl (by simp) hw)
    stable_staged) stable_staged
  · exact fun _ _ _ h ↦ h
  · intro _ w' hinv' _ hw'
    exact safe_io hinv' (safe_staged (.setPermissions path 0o700) trivial rfl (by simp) hw')
      stable_staged

/-- An object that was seen is there to stay. -/
theorem safe_isPresent (hinv : Kept store requests w) (hw : Staged i name content w)
    (path : Path) (sizeBytes : ℕ) :
    Safe store requests i
      (fun r w' ↦ Staged i name content w' ∧
        (r = .ok true → (w'.objects path).isSome = true))
      (Store.isPresent path sizeBytes) w := by
  have hstable : ∀ {α : Type} (P : α → Prop), Stable i fun (r : α) w' ↦
      Staged i name content w' ∧ (P r → (w'.objects path).isSome = true) := by
    rintro α P r w₁ w₂ ⟨hw, hpresent⟩ hrely
    exact ⟨hw.stable hrely, fun hr ↦ hrely.grows.objects path (hpresent hr)⟩
  have hstat : Safe store requests i
      (fun r w' ↦ Staged i name content w' ∧
        ((∃ metadata, r = .ok metadata) → (w'.objects path).isSome = true))
      (await (.stat path)) w := by
    apply safe_await
    · intro w' hrely _
      exact ⟨(hw.stable hrely).idle.unpublished.busy, trivial⟩
    · intro w' choice a w'' hrely _ hperform
      refine ⟨(hw.stable hrely).perform rfl (by simp) hperform, ?_⟩
      rintro ⟨metadata, rfl⟩
      cases choice with
      | granted id now =>
          simp only [World.perform, World.grant] at hperform
          split at hperform
          · rename_i found hfound
            cases hperform
            rw [hfound]
            rfl
          · cases hperform
      | failed outage => cases hperform
      | lost | listed => cases hperform
    · exact hstable _
  have hanswer := hstable fun r : Except StorageError Bool ↦ r = .ok true
  apply safe_liftThen hinv hstat (hstable _)
  rintro (source | metadata) w' _ _ ⟨hw', hpresent⟩
  · cases source <;> exact safe_done ⟨hw', fun h ↦ by cases h⟩ hanswer
  · exact safe_done ⟨hw', fun _ ↦ hpresent ⟨metadata, rfl⟩⟩ hanswer

omit [Fintype ι] [DecidableEq ι] in
theorem stable_renamed {ε : Type} {path : Path} : Stable i fun (r : Except ε Unit) w' ↦
    Idle i w' ∧ (r = .ok () → (w'.objects path).isSome = true) := by
  rintro r w₁ w₂ ⟨hidle, hpresent⟩ hrely
  exact ⟨hidle.stable hrely, fun hr ↦ hrely.grows.objects path (hpresent hr)⟩

/-- The staging file becomes the object, with the bytes that were hashed. -/
theorem safe_rename (hw : Staged i name content w) {path : Path}
    (hplaced : Placed store requests path content) :
    Safe store requests i
      (fun r w' ↦ Idle i w' ∧ (r = .ok () → (w'.objects path).isSome = true))
      (await (.rename name path)) w := by
  apply safe_await
  · intro w' hrely _
    have hw' := hw.stable hrely
    refine ⟨hw'.idle.unpublished.busy, fun found hfound ↦ ?_⟩
    rcases hw'.staging with hstaged | hgone
    · rw [hstaged, Option.some.injEq] at hfound
      exact hfound ▸ hplaced
    · rw [hgone] at hfound
      cases hfound
  · intro w' choice a w'' hrely _ hperform
    refine ⟨(hw.stable hrely).idle.perform (by simp) hperform, ?_⟩
    rintro rfl
    cases choice with
    | granted id now =>
        simp only [World.perform, World.grant] at hperform
        split at hperform <;> cases hperform
        simp [World.setObject]
    | failed outage => cases hperform
    | lost | listed => cases hperform
  · exact stable_renamed

/-- What `put_stream` leaves behind, whether it succeeds or not. -/
def Put {ε : Type} (i : ι) (store : Store) (ns : ObjectNamespace) (content? : Option Bytes)
    (r : Except ε (StoredObject store.uuid)) (w : World ι) : Prop :=
  Idle i w ∧ ∀ stored, r = .ok stored → ∃ content, content? = some content ∧
    StoredAs store ns content stored w

omit [Fintype ι] [DecidableEq ι] in
theorem stable_put {ε : Type} {ns : ObjectNamespace} {content? : Option Bytes} :
    Stable i fun (r : Except ε (StoredObject store.uuid)) ↦ Put i store ns content? r := by
  rintro r w₁ w₂ ⟨hidle, hok⟩ hrely
  refine ⟨hidle.stable hrely, fun stored hr ↦ ?_⟩
  obtain ⟨content, hcontent, hstored⟩ := hok stored hr
  exact ⟨content, hcontent, hstored.grows hrely.grows⟩

omit [Fintype ι] [DecidableEq ι] in
theorem Put.error {ε : Type} {ns : ObjectNamespace} {content? : Option Bytes} {e : ε}
    (h : Idle i w) : Put i store ns content? (.error e) w := ⟨h, fun _ hr ↦ nomatch hr⟩

theorem safe_publishStaging (hinv : Kept store requests w) (hw : Staged i name content w)
    {ns : ObjectNamespace} (huploads : Uploads requests ns content) :
    Safe store requests i (Put i store ns (some content))
      (store.publishStaging name ns content) w := by
  have hplaced : Placed store requests (store.place ns (store.sha256.hex content)) content :=
    ⟨ns, huploads, rfl⟩
  apply safe_ofExcept stable_put (fun e _ ↦ Put.error hw.idle)
  intro key hkey
  have hraw := raw_of_keyForDigest hkey
  have hput : ∀ w' present, Idle i w' →
      (w'.objects (store.place ns (store.sha256.hex content))).isSome = true →
        Put i store ns (some content) (Except.ok ⟨key, store.sha256.hex content, content.length,
          present⟩ : Except StorageError (StoredObject store.uuid)) w' := by
    intro w' present hidle hstored
    refine ⟨hidle, fun stored hr ↦ ⟨content, rfl, ?_⟩⟩
    cases hr
    exact ⟨hraw, rfl, rfl, hstored⟩
  apply safe_ofExcept stable_put (fun e _ ↦ Put.error hw.idle)
  intro finalPath hpath
  rw [resolve_place hraw, Except.ok.injEq] at hpath
  subst hpath
  apply safe_andThen hinv (safe_createPrivateDir hinv hw _) stable_put
  · exact fun e w' _ hw' ↦ Put.error hw'.idle
  · intro _ w₁ hinv₁ _ hw₁
    apply safe_andThen hinv₁ (safe_isPresent hinv₁ hw₁ _ _) stable_put
    · exact fun e w' _ hw' ↦ Put.error hw'.1.idle
    · rintro (_ | _) w₂ hinv₂ _ ⟨hw₂, hpresent⟩
      · -- the staging file is renamed
        apply safe_andThen hinv₂ (safe_mapError _ hinv₂ (safe_rename hw₂ hplaced)
          stable_renamed (fun e w' h ↦ ⟨h.1, fun hr ↦ nomatch hr⟩)
          (fun a w' h ↦ ⟨h.1, fun _ ↦ h.2 rfl⟩)) stable_put
        · exact fun e w' _ hw' ↦ Put.error hw'.1
        · intro _ w₃ hinv₃ _ hw₃
          have hstored : Stored i (store.place ns (store.sha256.hex content)) w₃ :=
            ⟨hw₃.1, hw₃.2 rfl⟩
          apply safe_liftThen hinv₃ (safe_stored .disarmGuard trivial rfl (by simp) hstored)
            stable_stored
          intro _ w₄ hinv₄ _ hw₄
          apply safe_liftThen hinv₄ (safe_stored (.syncDir _) trivial rfl (by simp) hw₄)
            stable_stored
          intro _ w₅ _ _ hw₅
          exact safe_done (hput w₅ false hw₅.1 hw₅.2) stable_put
      · -- the object was there before
        have hstored : Stored i (store.place ns (store.sha256.hex content)) w₂ :=
          ⟨hw₂.idle, hpresent rfl⟩
        apply safe_liftThen hinv₂ (safe_stored .dropGuard trivial rfl (by simp) hstored)
          stable_stored
        intro _ w₃ _ _ hw₃
        exact safe_done (hput w₃ true hw₃.1 hw₃.2) stable_put

/-- A staging name of its own, that nobody else writes to. -/
theorem safe_armStaging (hw : Idle i w) :
    Safe store requests i (fun name w' ↦ Idle i w' ∧ w'.drawnBy name = some i)
      (await .armStaging) w := by
  apply safe_await
  · exact fun w' hrely _ ↦ ⟨(hw.stable hrely).unpublished.busy, trivial⟩
  · intro w' choice name w'' hrely _ hperform
    refine ⟨(hw.stable hrely).perform (by simp) hperform, ?_⟩
    cases choice with
    | granted id now =>
        simp only [World.perform, World.grant] at hperform
        split at hperform <;> cases hperform
        exact Function.update_self ..
    | failed | lost | listed => cases hperform
  · rintro name w₁ w₂ ⟨hidle, hdrawn⟩ hrely
    exact ⟨hidle.stable hrely, hrely.grows.drawnBy name i hdrawn⟩

theorem safe_createStaging (hinv : Kept store requests w) (hw : Idle i w)
    (hdrawn : w.drawnBy name = some i) :
    Safe store requests i (fun r w' ↦ Idle i w' ∧ (r = .ok () → Staged i name [] w'))
      (Store.io "create staging file" (await (.createStaging name))) w := by
  have hstable : ∀ {ε : Type}, Stable i fun (r : Except ε Unit) w' ↦
      Idle i w' ∧ (r = .ok () → Staged i name [] w') := by
    rintro ε r w₁ w₂ ⟨hidle, hstaged⟩ hrely
    exact ⟨hidle.stable hrely, fun hr ↦ (hstaged hr).stable hrely⟩
  have hcreate : Safe store requests i (fun r w' ↦ Idle i w' ∧ (r = .ok () → Staged i name [] w'))
      (await (.createStaging name)) w := by
    apply safe_await
    · exact fun w' hrely _ ↦ ⟨(hw.stable hrely).unpublished.busy,
        hrely.grows.drawnBy name i hdrawn⟩
    · intro w' choice r w'' hrely _ hperform
      have hidle := (hw.stable hrely).perform (by simp) hperform
      refine ⟨hidle, ?_⟩
      rintro rfl
      have hdrawn' : Op.Allowed store requests i w' (.createStaging name) :=
        hrely.grows.drawnBy name i hdrawn
      refine ⟨hidle, (World.filesStep_perform hdrawn' hperform).drawnBy name i hdrawn', ?_⟩
      · cases choice with
        | granted id now =>
            simp only [World.perform, World.grant] at hperform
            split at hperform <;> cases hperform
            exact Or.inl (by simp [World.setStaging])
        | failed | lost | listed => cases hperform
    · exact hstable
  apply safe_mapError _ hinv hcreate hstable
  · exact fun e w' h ↦ ⟨h.1, fun hr ↦ by cases hr⟩
  · exact fun a w' h ↦ ⟨h.1, fun _ ↦ h.2 rfl⟩

theorem safe_writeStaging (hinv : Kept store requests w) (hw : Idle i w)
    (hdrawn : w.drawnBy name = some i) {ns : ObjectNamespace} {body : ByteStream}
    (huploads : ∀ content, body.content? = some content → Uploads requests ns content) :
    Safe store requests i (Put i store ns body.content?) (store.writeStaging name ns body) w := by
  apply safe_andThen hinv (safe_createStaging hinv hw hdrawn) stable_put
  · exact fun e w' _ hw' ↦ Put.error hw'.1
  · intro _ w₁ hinv₁ _ hw₁
    apply safe_andThen hinv₁ (safe_writeChunks body hinv₁ (hw₁.2 rfl)) stable_put
    · exact fun e w' _ hw' ↦ Put.error hw'.1
    · intro content w₂ hinv₂ _ hw₂
      obtain ⟨hstaged, hbody⟩ := hw₂.2 content rfl
      have hcontent : body.content? = some content := by simpa using hbody
      apply safe_andThen hinv₂ (safe_io hinv₂
        (safe_staged (.flush name) trivial rfl (by simp) hstaged) stable_staged) stable_put
      · exact fun e w' _ hw' ↦ Put.error hw'.idle
      · intro _ w₃ hinv₃ _ hw₃
        apply safe_andThen hinv₃ (safe_io hinv₃
          (safe_staged (.syncAll name) trivial rfl (by simp) hw₃) stable_staged) stable_put
        · exact fun e w' _ hw' ↦ Put.error hw'.idle
        · intro _ w₄ hinv₄ _ hw₄
          rw [hcontent]
          exact safe_publishStaging hinv₄ hw₄ (huploads content hcontent)

/-- Storing a body publishes it whole, or not at all. -/
theorem safe_putStream (hinv : Kept store requests w) (hw : Idle i w) {ns : ObjectNamespace}
    {body : ByteStream}
    (huploads : ∀ content, body.content? = some content → Uploads requests ns content) :
    Safe store requests i (Put i store ns body.content?) (store.putStream ns body) w := by
  apply safe_liftThen hinv (safe_armStaging hw)
  · rintro name w₁ w₂ ⟨hidle, hdrawn⟩ hrely
    exact ⟨hidle.stable hrely, hrely.grows.drawnBy name i hdrawn⟩
  · intro name w₁ hinv₁ _ hw₁
    apply safe_liftThen hinv₁ (safe_writeStaging hinv₁ hw₁.1 hw₁.2 huploads) stable_put
    rintro (e | stored) w₂ hinv₂ _ hw₂
    · apply safe_liftThen hinv₂ (safe_idle .dropGuard trivial (by simp) hw₂.1) stable_idle
      exact fun _ w₃ _ _ hw₃ ↦ safe_done (Put.error hw₃) stable_put
    · exact safe_done hw₂ stable_put

end Rules

end Otdel
