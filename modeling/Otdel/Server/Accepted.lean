import Otdel.Server.Convergence

/-!
# Accepted originals are kept

In every state that is reached, a material row leads to the bytes of the uploads
that were answered with it, and a download answers these bytes.
-/

namespace Otdel

open Program Versions

variable {ι : Type} {state : AppState} {requests : ι → Request} {w : World ι} {i : ι}

/-- The contents that are uploaded have digests of their own. -/
def NoCollision (store : Store) (requests : ι → Request) : Prop :=
  ∀ ns content content', Uploads requests ns content → Uploads requests ns content' →
    store.sha256.hex content = store.sha256.hex content' → content = content'

/-- The original of a committed row. -/
structure Accepted (store : Store) (requests : ι → Request)
    (s : Sys ι (World ι) Op Op.Ans Answer) (m : MaterialRow) (content : Bytes) : Prop where
  storageKey : ∃ key, m.ns.keyForDigest store.uuid m.sha256 = .ok key ∧
    key.raw = m.storageKey ∧ ObjectKey.resolveWithin store.objectsRoot key.raw =
      .ok (store.place m.ns m.sha256)
  stored : s.world.objects (store.place m.ns m.sha256) = some content
  sha256 : m.sha256 = store.sha256.hex content
  sizeBytes : m.sizeBytes = content.length
  mediaType : ∃ t, MediaType.detect (content.take signaturePrefixLen) = some t ∧
    m.mediaType = t.asStr.toList
  original : Uploads requests m.ns content
  uploaded : ∀ i ns sent response, Uploaded requests s i ns sent response →
    ∀ status answer, response = .material status answer → answer.id = m.id →
      ns = m.ns ∧ sent = content

/-- A download of this row. -/
def Downloads (request : Request) (m : MaterialRow) : Prop :=
  ∃ session, session.bureauId = m.bureauId ∧ request = .download session m.partnerId m.id

/-- The answer that streams a content. -/
def StreamsAs (m : MaterialRow) (content : Bytes) (response : Response) : Prop :=
  ∃ disposition, response = .original ⟨m.mediaType, content.length, disposition, content⟩

theorem MediaType.detect_take (content : Bytes) :
    MediaType.detect (content.take signaturePrefixLen) = MediaType.detect content := by
  by_cases h : signaturePrefixLen ≤ content.length
  · conv_rhs => rw [← List.take_append_drop signaturePrefixLen content]
    refine (MediaType.detect_append _ ?_).symm
    rw [List.length_take, Nat.min_eq_left h]
  · rw [List.take_of_length_le (by omega)]

variable [Fintype ι] [DecidableEq ι] {s t : Sys ι (World ι) Op Op.Ans Answer}

/-- The object of a committed row is its original. -/
theorem Serves.accepted (hs : Serves state requests s)
    (hno : NoCollision state.store requests) {m : MaterialRow}
    (hm : m ∈ s.world.db.materials) : ∃ content, Accepted state.store requests s m content := by
  obtain ⟨i, -⟩ := hs.inv.exists_inserts hm
  have horiginal := hs.inv.originals m ⟨i, Or.inl hm⟩
  obtain ⟨content, hcontent⟩ := Option.isSome_iff_exists.mp horiginal.stored
  obtain ⟨huploads, hsha⟩ := horiginal.content hs.inv hcontent
  obtain ⟨original, huploads', hdescribes⟩ := horiginal.uploaded
  have hsame : original = content :=
    hno m.ns original content huploads' huploads (hdescribes.sha256.symm.trans hsha.symm)
  subst hsame
  obtain ⟨key, hkey, hraw⟩ := exists_keyForDigest state.store.uuid m.ns
    (hdescribes.sha256 ▸ isDigest_hex state.store.sha256 original)
  refine ⟨original, ⟨key, hkey, hraw.trans horiginal.storageKey.symm, resolve_place hraw⟩,
    hcontent, hdescribes.sha256, hdescribes.sizeBytes, ?_, huploads, ?_⟩
  · rw [MediaType.detect_take]
    exact hdescribes.mediaType
  · intro j ns sent response huploaded status answer hresponse hid
    obtain ⟨m', hm', rfl, hsha', answer', hid', hends⟩ := hs.found huploaded
    have hanswer : answer = answer' := by
      rcases hends with ⟨heq, -⟩ | ⟨heq, -⟩ <;>
      · rw [hresponse, Response.material.injEq] at heq
        exact heq.2
    have hsame : m' = m := hs.inv.material_eq hm' hm (by rw [← hid', ← hanswer, hid])
    subst hsame
    obtain ⟨-, session, partnerId, multipart, hrequest, hns, hsent⟩ := huploaded
    refine ⟨rfl, hno m'.ns sent original ⟨j, session, partnerId, multipart, hrequest, hns, hsent⟩
      huploads' ?_⟩
    rw [← hsha', hdescribes.sha256]

/-- What a download of a row that has been committed streams. -/
theorem Accepted.streams (ht : Serves state requests t) (hno : NoCollision state.store requests)
    {m : MaterialRow} {content : Bytes} (haccepted : Accepted state.store requests s m content)
    (hgrows : s.world.Grows t.world) (hm : m ∈ s.world.db.materials) {row : MaterialRow}
    (hrow : row ∈ t.world.db.materials) (hid : row.id = m.id) {response : Response}
    (hstreams : Streams state.store requests row response) : StreamsAs m content response := by
  obtain ⟨m', hm', hcore⟩ := hgrows.materials m hm
  have hsame : row = m' :=
    ht.inv.material_eq hrow hm' (hid.trans (materialScheme.id_core hcore).symm)
  subst hsame
  obtain ⟨held, sent, disposition, hheld, hheldSha, hsent, hsentSha, rfl⟩ :=
    hstreams.congr hcore.symm
  have hsha := haccepted.sha256
  have hheld' : held = content := hno m.ns held content hheld haccepted.original (hheldSha.trans hsha)
  have hsent' : sent = content := hno m.ns sent content hsent haccepted.original (hsentSha.trans hsha)
  subst hheld'
  exact ⟨disposition, by rw [hsent']⟩

/-- Request `i` answers with `P`; the others are left open. -/
def EndsAs (i : ι) (P : Except ApiError Response → World ι → Prop) (j : ι) (a : Answer)
    (w : World ι) : Prop :=
  j = i → ∀ r, a = .response r → P r w

/-- A download that has started after the row was committed. -/
theorem Serves.download (hw : w.Fresh) {events later : List (SysEvent ι Choice)}
    (hrun : Run.run (Server.step ι) (serving state requests w) events = some s)
    (hlater : Run.run (Server.step ι) s later = some t) {m : MaterialRow}
    (hm : m ∈ s.world.db.materials) (hi : ∀ e ∈ events, e.actor ≠ i)
    (hdownload : Downloads (requests i) m) {r : Except ApiError Response}
    (hdone : t.procs i = .done (.response r)) (hfaulted : t.world.faulted i = false) :
    ∃ response, r = .ok response := by
  obtain ⟨session, hbureau, hrequest⟩ := hdownload
  have hs := (serves_of_run hw.serves hrun).1
  obtain ⟨hproc, hrely⟩ := hw.serves.untouched droppable rely_of_guar hi hrun
  have hidle : Idle i s.world := (hw.idle i).stable hrely
  have hpost : ∀ j, Stable j (EndsAs i (DownloadEnds i state.store requests session.bureauId
      m.partnerId m.id True) j) := by
    rintro j a w₁ w₂ h hsteps rfl r hr
    exact stable_downloadEnds r w₁ w₂ (h rfl r hr) hsteps
  -- the same requests, with what this one knows about its row
  have hends : (server ι).AllSafe (originalsContract state.store requests)
      (EndsAs i (DownloadEnds i state.store requests session.bureauId m.partnerId m.id True))
      s := by
    refine ⟨hs.inv, fun j ↦ ?_⟩
    by_cases hj : j = i
    · subst hj
      rw [hproc]
      change Safe state.store requests j _ ((requests j).program state) s.world
      rw [hrequest]
      apply safe_bind hs.inv (safe_download hs.inv hidle fun _ ↦ ⟨m, hm, ?_⟩)
      · intro r w' _ _ h
        apply safe_done _ (hpost j)
        rintro - r' hr
        cases hr
        exact h
      · simp [Sql.isMaterial, Sql.isMaterialOf, hbureau]
    · apply Machine.Safe.mono (hs.safe j)
      exact fun a w' _ _ _ h ↦ absurd h hj
  have hdrop : Machine.Droppable (server ι) Answer.dropped
      (originalsContract state.store requests)
      (EndsAs i (DownloadEnds i state.store requests session.bureauId m.partnerId m.id True)) :=
    droppable_of fun j _ _ _ ↦ safe_done (fun _ r hr ↦ by cases hr) (hpost j)
  have ht := (hends.of_run hdrop rely_of_guar hlater).1
  exact (ht.post hdone rfl r rfl).2.2 trivial hfaulted

/-- Accepted originals are never lost or altered. -/
theorem originals_kept (hw : w.Fresh) (hno : NoCollision state.store requests)
    {events : List (SysEvent ι Choice)}
    (hrun : Run.run (Server.step ι) (serving state requests w) events = some s)
    {m : MaterialRow} (hm : m ∈ s.world.db.materials) :
    ∃ content, Accepted state.store requests s m content ∧
      ∀ later t i r, Run.run (Server.step ι) s later = some t → Downloads (requests i) m →
        t.procs i = .done (.response r) →
          (∀ response, r = .ok response → StreamsAs m content response) ∧
          ((∀ e ∈ events, e.actor ≠ i) → t.world.faulted i = false →
            ∃ response, r = .ok response) := by
  have hs := (serves_of_run hw.serves hrun).1
  obtain ⟨content, haccepted⟩ := hs.accepted hno hm
  refine ⟨content, haccepted, fun later t i r hlater hdownload hdone ↦ ⟨?_, ?_⟩⟩
  · rintro response rfl
    obtain ⟨ht, hgrows⟩ := serves_of_run hs hlater
    obtain ⟨session, hbureau, hrequest⟩ := hdownload
    obtain ⟨-, hstreams, -⟩ :=
      (ht.post hdone).download session m.partnerId m.id _ hrequest rfl
    obtain ⟨row, hrow, hof, hstreams⟩ := hstreams response rfl
    simp only [Sql.isMaterial, Bool.and_eq_true, decide_eq_true_eq] at hof
    exact haccepted.streams ht hno hgrows hm hrow hof.2 hstreams
  · exact fun hi hfaulted ↦ Serves.download hw hrun hlater hm hi hdownload hdone hfaulted

theorem Sample.noCollision : NoCollision Sample.state.store Sample.requests := by
  have hcontent : ∀ ns content, Uploads Sample.requests ns content → content = Sample.content := by
    rintro ns content ⟨i, session, partnerId, multipart, hrequest, -, horiginal⟩
    fin_cases i <;> cases hrequest
    all_goals exact (Option.some.inj horiginal).symm
  intro ns content content' huploads huploads' _
  rw [hcontent ns content huploads, hcontent ns content' huploads']

theorem originals_kept_two : ∃ s m,
    Run.run (Server.step (Fin 3)) Sample.system Sample.events = some s ∧
      m ∈ s.world.db.materials ∧
        ∃ content, Accepted Sample.state.store Sample.requests s m content := by
  have hcount : (Run.run (Server.step (Fin 3)) Sample.system Sample.events).map
      (fun s ↦ s.world.db.materials.length) = some 1 := by decide +kernel
  obtain ⟨s, hrun, hlength⟩ := Option.map_eq_some_iff.mp hcount
  obtain ⟨m, hm⟩ := List.length_eq_one_iff.mp hlength
  have hmem : m ∈ s.world.db.materials := by simp [hm]
  obtain ⟨content, haccepted, -⟩ := originals_kept Sample.fresh Sample.noCollision hrun hmem
  exact ⟨s, m, hrun, hmem, content, haccepted⟩

end Otdel
