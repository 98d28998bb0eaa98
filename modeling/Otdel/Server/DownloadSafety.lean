import Otdel.Server.UploadSafety

/-!
# Downloads are safe

A download answers with the bytes of an object that was uploaded for the row it
found, and it fails only when there is an outage or no row.
-/

namespace Otdel

open Program Versions

variable {ι : Type}

/-- What a download of a row answers.  The length is taken before the file is
opened, so it is told apart from the length of the bytes. -/
def Streams (store : Store) (requests : ι → Request) (row : MaterialRow) (response : Response) :
    Prop :=
  ∃ held sent disposition, Uploads requests row.ns held ∧ store.sha256.hex held = row.sha256 ∧
    Uploads requests row.ns sent ∧ store.sha256.hex sent = row.sha256 ∧
      response = .original ⟨row.mediaType, held.length, disposition, sent⟩

/-- How a download ends.  `known` is what tells that the row was there. -/
def DownloadEnds (i : ι) (store : Store) (requests : ι → Request)
    (bureauId partnerId materialId : Uuid) (known : Prop) (r : Except ApiError Response)
    (w : World ι) : Prop :=
  Aborted i w ∧
    (∀ response, r = .ok response → ∃ row ∈ w.db.materials,
      Sql.isMaterial bureauId partnerId materialId row = true ∧
        Streams store requests row response) ∧
    (known → w.faulted i = false → ∃ response, r = .ok response)

section Stability

variable {w w' : World ι} {i : ι} {o : Option Op} {store : Store} {requests : ι → Request}
  {bureauId partnerId materialId : Uuid} {known : Prop}

theorem isMaterial_congr {row row' : MaterialRow} (hcore : row'.core = row.core) :
    Sql.isMaterial bureauId partnerId materialId row' =
      Sql.isMaterial bureauId partnerId materialId row := by
  obtain ⟨hid, hbureau, hpartner, -⟩ := MaterialRow.core_eq_iff.mp hcore
  simp only [Sql.isMaterial, Sql.isMaterialOf, hid, hbureau, hpartner]

theorem Streams.congr {row row' : MaterialRow} {response : Response}
    (h : Streams store requests row response) (hcore : row'.core = row.core) :
    Streams store requests row' response := by
  obtain ⟨-, -, -, -, hmedia, -, hsha, -⟩ := MaterialRow.core_eq_iff.mp hcore
  rw [Streams, MaterialRow.ns_congr hcore, hmedia, hsha]
  exact h

/-- A version of this row is committed. -/
def Persists (row : MaterialRow) (w : World ι) : Prop := ∃ r ∈ w.db.materials, r.core = row.core

theorem Persists.grows {row : MaterialRow} (h : Persists row w) (hgrows : w.Grows w') :
    Persists row w' := by
  obtain ⟨r, hr, hcore⟩ := h
  obtain ⟨r', hr', hcore'⟩ := hgrows.materials r hr
  exact ⟨r', hr', hcore'.trans hcore⟩

/-- A committed row is one of an original. -/
theorem Persists.isOriginal {row : MaterialRow} (h : Persists row w)
    (hw : Kept store requests w) (i : ι) : IsOriginal store requests w.objects row := by
  obtain ⟨r, hr, hcore⟩ := h
  exact (hw.originals r ⟨i, Or.inl hr⟩).congr hcore.symm fun _ h ↦ h

/-- The content of the object of a row is one that was uploaded for it. -/
theorem IsOriginal.content (hw : Kept store requests w) {row : MaterialRow}
    (h : IsOriginal store requests w.objects row) {content : Bytes}
    (hcontent : w.objects (store.place row.ns row.sha256) = some content) :
    Uploads requests row.ns content ∧ store.sha256.hex content = row.sha256 := by
  obtain ⟨ns, huploads, hplace⟩ := hw.placed _ _ hcontent
  obtain ⟨original, -, hdescribes⟩ := h.uploaded
  obtain ⟨hns, hsha⟩ := store.place_injective
    (hdescribes.sha256 ▸ isDigest_hex store.sha256 original)
    (isDigest_hex store.sha256 content) hplace
  exact ⟨hns ▸ huploads, hsha.symm⟩

theorem DownloadEnds.error {e : ApiError} (h : Aborted i w)
    (hknown : known → w.faulted i = true) :
    DownloadEnds i store requests bureauId partnerId materialId known (.error e) w := by
  refine ⟨h, ?_, ?_⟩
  · rintro response hr
    cases hr
  · intro hk hf
    rw [hknown hk] at hf
    cases hf

theorem stable_downloadEnds :
    Stable i (DownloadEnds i store requests bureauId partnerId materialId known) := by
  rintro r w₁ w₂ ⟨haborted, hok, hknown⟩ hrely
  refine ⟨haborted.stable hrely, fun response hr ↦ ?_, fun hk hf ↦ hknown hk ?_⟩
  · obtain ⟨row, hrow, hof, hstreams⟩ := hok response hr
    obtain ⟨row', hrow', hcore⟩ := hrely.grows.materials row hrow
    exact ⟨row', hrow', (isMaterial_congr hcore).trans hof, hstreams.congr hcore⟩
  · rw [← hrely.faulted, hf]

/-- No transaction is open, or the request has met an outage. -/
def Excused (i : ι) (w : World ι) : Prop := Aborted i w ∧ w.faulted i = true

theorem stable_excused {α : Type} : Stable i fun (_ : α) ↦ Excused i :=
  fun _ _ _ h hrely ↦ ⟨h.1.stable hrely, hrely.faulted.trans h.2⟩

end Stability

variable [Fintype ι] [DecidableEq ι] {w : World ι} {i : ι} {state : AppState}
  {requests : ι → Request} {session : Session} {partnerId materialId : Uuid} {known : Prop}

/-- What the lookup of a download finds. -/
def FoundStored (i : ι) (bureauId partnerId materialId : Uuid) (known : Prop)
    (stored : Option StoredMaterial) (w : World ι) : Prop :=
  Idle i w ∧ (known → stored.isSome = true) ∧
    ∀ found, stored = some found → ∃ row, found = ⟨materialFromRow row, row.storageKey⟩ ∧
      Sql.isMaterial bureauId partnerId materialId row = true ∧ Persists row w

omit [Fintype ι] [DecidableEq ι] in
theorem FoundStored.stable {bureauId : Uuid} {stored : Option StoredMaterial} {w' : World ι}
    {o : Option Op} (h : FoundStored i bureauId partnerId materialId known stored w)
    (hrely : World.Rely i o w w') :
    FoundStored i bureauId partnerId materialId known stored w' := by
  obtain ⟨hidle, hknown, hfound⟩ := h
  refine ⟨hidle.stable hrely, hknown, fun found hr ↦ ?_⟩
  obtain ⟨row, hrow, hof, hpersists⟩ := hfound found hr
  exact ⟨row, hrow, hof, hpersists.grows hrely.grows⟩

theorem safe_getInPartner (hinv : Kept state.store requests w) {bureauId : Uuid}
    (hw : InTx i bureauId [] w)
    (hknown : known → ∃ row ∈ w.db.materials,
      Sql.isMaterial bureauId partnerId materialId row = true)
    (tx : ScopedTx) (htx : tx.bureauId = bureauId) :
    Safe state.store requests i
      (Ends (fun stored w' ↦ InTx i bureauId [] w' ∧ (known → stored.isSome = true) ∧
        ∀ found, stored = some found → ∃ row, found = ⟨materialFromRow row, row.storageKey⟩ ∧
          Sql.isMaterial bureauId partnerId materialId row = true ∧ Persists row w')
        fun e w' ↦ Failed i e w' ∧ w'.faulted i = true)
      (Materials.getInPartner tx partnerId materialId) w := by
  subst htx
  have hstable : ∀ {α : Type} (f : α → Option MaterialRow), Stable i fun a w' ↦
      InTx i tx.bureauId [] w' ∧ (known → (f a).isSome = true) ∧ ∀ row, f a = some row →
        Sql.isMaterial tx.bureauId partnerId materialId row = true ∧ Persists row w' := by
    rintro α f a w₁ w₂ ⟨htx, hk, hfound⟩ hrely
    exact ⟨htx.stable hrely rfl, hk, fun row hr ↦
      ⟨(hfound row hr).1, (hfound row hr).2.grows hrely.grows⟩⟩
  have hget : Safe state.store requests i
      (Ends (fun (answer : Option MaterialRow) w' ↦ InTx i tx.bureauId [] w' ∧
        (known → answer.isSome = true) ∧ ∀ row, answer = some row →
          Sql.isMaterial tx.bureauId partnerId materialId row = true ∧ Persists row w')
        fun e w' ↦ Failed i e w' ∧ w'.faulted i = true)
      (runStatement (.materialsGet tx.bureauId partnerId materialId)) w := by
    have hrun : Safe state.store requests i
        (Ends (fun (answer : Option MaterialRow) w' ↦ InTx i tx.bureauId [] w' ∧
          (known → answer.isSome = true) ∧ ∀ row, answer = some row →
            Sql.isMaterial tx.bureauId partnerId materialId row = true ∧ Persists row w')
          fun e w' ↦ Failed i e w' ∧ (w'.faulted i = true ∨ ∃ id now db,
            Sql.exec id now db (.materialsGet tx.bureauId partnerId materialId) = .error e))
        (runStatement (.materialsGet tx.bureauId partnerId materialId)) w := by
      apply safe_statement_or_outage hw
      · exact fun _ _ _ ↦ trivial
      · exact hstable id
      intro w₁ id now answer added w₂ hrely _ htx₁ hexec hdb _ htx₂
      have hview : w₁.view i = w₁.db := by rw [World.view, htx₁.pending, Db.overlay_nil]
      simp only [Sql.exec, hview] at hexec
      cases hexec
      refine ⟨htx₂, fun hk ↦ ?_, fun row hr ↦ ?_⟩
      · obtain ⟨row, hrow, hof⟩ := hknown hk
        obtain ⟨row', hrow', hcore⟩ := hrely.grows.materials row hrow
        exact List.find?_isSome.mpr ⟨row', hrow', (isMaterial_congr hcore).trans hof⟩
      · exact ⟨List.find?_some hr, row, hdb ▸ List.mem_of_find?_eq_some hr, rfl⟩
    apply safe_ends hrun (fun _ _ h ↦ h)
    rintro e w₁ ⟨hfailed, hfaulted | ⟨id, now, db, hexec⟩⟩
    · exact ⟨hfailed, hfaulted⟩
    · cases hexec
  have hend : Stable i (Ends (fun (stored : Option StoredMaterial) w' ↦
      InTx i tx.bureauId [] w' ∧ (known → stored.isSome = true) ∧
        ∀ found, stored = some found → ∃ row, found = ⟨materialFromRow row, row.storageKey⟩ ∧
          Sql.isMaterial tx.bureauId partnerId materialId row = true ∧ Persists row w')
      fun e w' ↦ Failed i e w' ∧ w'.faulted i = true) := by
    apply Stable.ends _ stable_outage
    rintro stored w₁ w₂ ⟨htx, hk, hfound⟩ hrely
    refine ⟨htx.stable hrely rfl, hk, fun found hr ↦ ?_⟩
    obtain ⟨row, hrow, hof, hpersists⟩ := hfound found hr
    exact ⟨row, hrow, hof, hpersists.grows hrely.grows⟩
  apply safe_andThen hinv hget hend
  · exact fun e w₁ _ h ↦ h
  · rintro answer w₁ _ _ ⟨htx, hk, hfound⟩
    apply safe_return _ hend
    refine ⟨htx, fun hknown ↦ by simpa using hk hknown, fun found hr ↦ ?_⟩
    obtain ⟨row, hrow, rfl⟩ := Option.map_eq_some_iff.mp hr
    exact ⟨row, rfl, hfound row hrow⟩

theorem safe_findStored (hinv : Kept state.store requests w) (hw : Idle i w)
    (hknown : known → ∃ row ∈ w.db.materials,
      Sql.isMaterial session.bureauId partnerId materialId row = true) :
    Safe state.store requests i
      (Ends (FoundStored i session.bureauId partnerId materialId known) fun _ ↦ Excused i)
      (Routes.findStored session partnerId materialId) w := by
  have hstable : Stable i (FoundStored i session.bureauId partnerId materialId known) :=
    fun _ _ _ h hrely ↦ h.stable hrely
  have hend := hstable.ends (stable_excused (i := i) (α := ApiError))
  apply safe_andThen hinv (safe_dbCall hinv (safe_begin_or_outage hinv hw session.bureauId)
    (fun _ _ _ h hrely ↦ ⟨h.1, h.2.stable hrely rfl⟩) (fun e w' h ↦ ⟨h.1.idle.aborted, h.2⟩)
    stable_excused) hend
  · exact fun e w₁ _ h ↦ h
  · rintro tx w₁ hinv₁ hgrows₁ ⟨htx, hw₁⟩
    have hknown₁ : known → ∃ row ∈ w₁.db.materials,
        Sql.isMaterial session.bureauId partnerId materialId row = true := by
      intro hk
      obtain ⟨row, hrow, hof⟩ := hknown hk
      obtain ⟨row', hrow', hcore⟩ := hgrows₁.materials row hrow
      exact ⟨row', hrow', (isMaterial_congr hcore).trans hof⟩
    apply safe_andThen hinv₁ (safe_dbCall hinv₁ (safe_getInPartner hinv₁ hw₁ hknown₁ tx htx) _
      (fun e w' h ↦ ⟨h.1.idle.aborted, h.2⟩) stable_excused) hend
    · exact fun e w₂ _ h ↦ h
    · rintro stored w₂ hinv₂ _ ⟨hw₂, hk, hfound⟩
      have hcommit : Safe state.store requests i
          (Ends (fun _ ↦ FoundStored i session.bureauId partnerId materialId known stored)
            fun e w' ↦ Uncommitted i e w' ∧ w'.faulted i = true) tx.commit w₂ := by
        apply safe_commit_or_outage hw₂
        · intro w₃ hrely _ r hr
          rw [(hw₂.stable hrely rfl).pending] at hr
          cases hr
        · exact fun w₃ w₄ h hrely ↦ h.stable hrely
        · intro w₃ w₄ hrely _ hdb hpending hpublished
          rw [World.view, hpending, Db.overlay_nil] at hdb
          refine ⟨⟨hpublished.tx, fun other hother ↦ ?_⟩, hk, fun found hr ↦ ?_⟩
          · exact (hpublished.log other hother).elim id id
          · obtain ⟨row, hrow, hof, hpersists⟩ := hfound found hr
            obtain ⟨r, hr', hcore⟩ := hpersists.grows hrely.grows
            exact ⟨row, hrow, hof, r, hdb ▸ hr', hcore⟩
      apply safe_andThen hinv₂ (safe_dbCall hinv₂ hcommit
        (fun _ w₃ w₄ h hrely ↦ h.stable hrely) (fun e w' h ↦ ⟨h.1.aborted, h.2⟩)
        stable_excused) hend
      · exact fun e w₃ _ h ↦ h
      · exact fun _ w₃ _ _ h ↦ safe_return h hend
    · rintro stored w₂ w₃ ⟨htx, hk, hfound⟩ hrely
      refine ⟨htx.stable hrely rfl, hk, fun found hr ↦ ?_⟩
      obtain ⟨row, hrow, hof, hpersists⟩ := hfound found hr
      exact ⟨row, hrow, hof, hpersists.grows hrely.grows⟩

/-- Bytes that were uploaded for a row. -/
def OfRow (store : Store) (requests : ι → Request) (row : MaterialRow) (content : Bytes) : Prop :=
  Uploads requests row.ns content ∧ store.sha256.hex content = row.sha256

/-- How the object of a row is opened. -/
def Opened (i : ι) (store : Store) (requests : ι → Request) (row : MaterialRow) {ε : Type} :
    Except ε ObjectBody → World ι → Prop :=
  Ends (fun body w ↦ Aborted i w ∧ Persists row w ∧ ∃ held, OfRow store requests row held ∧
      body.sizeBytes = held.length ∧ OfRow store requests row body.stream)
    fun _ ↦ Excused i

omit [Fintype ι] [DecidableEq ι] in
theorem stable_opened {store : Store} {row : MaterialRow} {ε : Type} :
    Stable i fun (r : Except ε ObjectBody) ↦ Opened i store requests row r := by
  apply Stable.ends _ stable_excused
  exact fun _ _ _ h hrely ↦ ⟨h.1.stable hrely, h.2.1.grows hrely.grows, h.2.2⟩

/-- The object of an original is found where its row says. -/
theorem safe_stat {store : Store} (hw : Idle i w) {row : MaterialRow} (hrow : Persists row w) :
    Safe store requests i
      (Ends (fun metadata w' ↦ Idle i w' ∧ metadata.isFile = true ∧
          ∃ held, OfRow store requests row held ∧ metadata.len = held.length)
        fun e w' ↦ e ≠ .notFound ∧ Excused i w')
      (await (.stat (store.place row.ns row.sha256))) w := by
  apply safe_await
  · intro w' hrely _
    exact ⟨(hw.stable hrely).unpublished.busy, trivial⟩
  · intro w' choice r w'' hrely hinv hperform
    have horiginal := (hrow.grows hrely.grows).isOriginal hinv i
    have hidle := (hw.stable hrely).perform (by simp) hperform
    cases choice with
    | granted id now =>
        obtain ⟨held, hheld⟩ := Option.isSome_iff_exists.mp horiginal.stored
        simp only [World.perform, World.grant, hheld] at hperform
        cases hperform
        exact ⟨hidle, rfl, held, horiginal.content hinv hheld, rfl⟩
    | failed outage =>
        cases hperform
        exact ⟨by simp, hidle.aborted, by simp [World.markFaulted]⟩
    | lost | listed => cases hperform
  · apply Stable.ends
    · exact fun _ _ _ h hrely ↦ ⟨h.1.stable hrely, h.2⟩
    · exact fun _ _ _ h hrely ↦ ⟨h.1, h.2.1.stable hrely, hrely.faulted.trans h.2.2⟩

theorem safe_openFile {store : Store} (hw : Idle i w) {row : MaterialRow}
    (hrow : Persists row w) :
    Safe store requests i
      (Ends (fun content w' ↦ Idle i w' ∧ OfRow store requests row content) fun _ ↦ Excused i)
      (await (.openFile (store.place row.ns row.sha256))) w := by
  apply safe_await
  · intro w' hrely _
    exact ⟨(hw.stable hrely).unpublished.busy, trivial⟩
  · intro w' choice r w'' hrely hinv hperform
    have horiginal := (hrow.grows hrely.grows).isOriginal hinv i
    have hidle := (hw.stable hrely).perform (by simp) hperform
    cases choice with
    | granted id now =>
        obtain ⟨content, hcontent⟩ := Option.isSome_iff_exists.mp horiginal.stored
        simp only [World.perform, World.grant, hcontent] at hperform
        cases hperform
        exact ⟨hidle, horiginal.content hinv hcontent⟩
    | failed outage =>
        cases hperform
        exact ⟨hidle.aborted, by simp [World.markFaulted]⟩
    | lost | listed => cases hperform
  · apply Stable.ends _ stable_excused
    exact fun _ _ _ h hrely ↦ ⟨h.1.stable hrely, h.2⟩

theorem safe_openObject {store : Store} (hinv : Kept store requests w) (hw : Idle i w)
    {row : MaterialRow} (hrow : Persists row w) {key : ObjectKey store.uuid}
    (hkey : key.raw = row.ns.keyText store.uuid row.sha256) :
    Safe store requests i (fun r w' ↦ Opened i store requests row r w')
      (store.openObject key) w := by
  have hresolve : ObjectKey.resolveWithin store.objectsRoot key.raw =
      .ok (store.place row.ns row.sha256) := resolve_place hkey
  apply safe_ofExcept stable_opened
  · intro e he
    rw [hresolve] at he
    cases he
  intro path hpath
  rw [hresolve, Except.ok.injEq] at hpath
  subst hpath
  apply safe_liftThen hinv (safe_stat hw hrow)
  · apply Stable.ends
    · exact fun _ _ _ h hrely ↦ ⟨h.1.stable hrely, h.2⟩
    · exact fun _ _ _ h hrely ↦ ⟨h.1, h.2.1.stable hrely, hrely.faulted.trans h.2.2⟩
  rintro (source | metadata) w₁ hinv₁ hgrows hstat
  · cases source with
    | notFound => exact absurd rfl hstat.1
    | alreadyExists | other => exact safe_fail hstat.2 stable_opened
  · obtain ⟨hw₁, hfile, held, hheld, hlen⟩ := hstat
    have hread : Safe store requests i
        (Ends (fun content w' ↦ Idle i w' ∧ OfRow store requests row content) fun _ ↦ Excused i)
        (Store.io "open object" (await (.openFile (store.place row.ns row.sha256)))) w₁ := by
      apply safe_mapError _ hinv₁ (safe_openFile hw₁ (hrow.grows hgrows))
      · apply Stable.ends _ stable_excused
        exact fun _ _ _ h hrely ↦ ⟨h.1.stable hrely, h.2⟩
      · exact fun e w' h ↦ h
      · exact fun a w' h ↦ h
    simp only [hfile, Bool.true_eq_false, if_false]
    apply safe_andThen hinv₁ hread stable_opened
    · exact fun e w' _ h ↦ h
    · intro content w₂ _ hgrows₂ hcontent
      exact safe_return ⟨hcontent.1.aborted, (hrow.grows hgrows).grows hgrows₂, held, hheld, hlen,
        hcontent.2⟩ stable_opened

theorem fromStr_mediaType (http : HttpCrate) (t : MediaType) :
    http.fromStr t.asStr.toList = some t.asStr.toList := by
  apply http.fromStr_of_visible
  cases t <;> decide +kernel

/-- A download answers what was uploaded, if its row is there. -/
theorem safe_download (hinv : Kept state.store requests w) (hw : Idle i w)
    (hknown : known → ∃ row ∈ w.db.materials,
      Sql.isMaterial session.bureauId partnerId materialId row = true) :
    Safe state.store requests i
      (DownloadEnds i state.store requests session.bureauId partnerId materialId known)
      (Routes.download state session partnerId materialId) w := by
  have hend : Stable i (DownloadEnds i state.store requests session.bureauId partnerId materialId
      known) := stable_downloadEnds
  apply safe_andThen hinv (safe_findStored hinv hw hknown) hend
  · exact fun e w₁ _ h ↦ DownloadEnds.error h.1 fun _ ↦ h.2
  · rintro (_ | stored) w₁ hinv₁ _ ⟨hw₁, hk, hfound⟩
    · apply safe_done _ hend
      exact DownloadEnds.error hw₁.aborted fun h ↦ nomatch hk h
    · obtain ⟨row, rfl, hof, hrow⟩ := hfound stored rfl
      have horiginal := hrow.isOriginal hinv₁ i
      obtain ⟨content, -, hdescribes⟩ := horiginal.uploaded
      obtain ⟨t, -, hmedia⟩ := hdescribes.mediaType
      obtain ⟨key, hkey, hraw⟩ := exists_keyForDigest state.store.uuid row.ns
        (hdescribes.sha256 ▸ isDigest_hex state.store.sha256 content)
      have hparse : ObjectKey.parse state.store.uuid row.storageKey = .ok key := by
        rw [ObjectKey.parse_eq_ok, hraw, horiginal.storageKey]
      apply safe_ofExcept hend (fun e he ↦ by cases he)
      rintro _ ⟨⟩
      rw [mapError_ofExcept, hparse]
      apply safe_ofExcept hend (fun e he ↦ by cases he)
      rintro _ ⟨⟩
      have hopen : Safe state.store requests i
          (fun (r : Except ApiError ObjectBody) ↦ Opened i state.store requests row r)
          (mapError ApiError.ofStorageError (state.store.openObject key)) w₁ := by
        apply safe_mapError _ hinv₁ (safe_openObject hinv₁ hw₁ hrow hraw) stable_opened
        · exact fun e w' h ↦ h
        · exact fun a w' h ↦ h
      apply safe_andThen hinv₁ hopen hend
      · exact fun e w₂ _ h ↦ DownloadEnds.error h.1 fun _ ↦ h.2
      · rintro body w₂ _ _ ⟨hw₂, hrow₂, held, hheld, hlen, hsent⟩
        apply safe_return _ hend
        refine ⟨hw₂, ?_, fun _ _ ↦ ⟨_, rfl⟩⟩
        rintro _ ⟨⟩
        obtain ⟨r, hr, hcore⟩ := hrow₂
        refine ⟨r, hr, (isMaterial_congr hcore).trans hof, ?_⟩
        apply Streams.congr _ hcore
        refine ⟨held, body.stream, Routes.contentDisposition state.http (materialFromRow row),
          hheld.1, hheld.2, hsent.1, hsent.2, ?_⟩
        simp [Routes.originalResponse, materialFromRow, hmedia, fromStr_mediaType, hlen]

end Otdel
