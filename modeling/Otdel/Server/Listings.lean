import Otdel.Server.Scoped
import Otdel.Server.Serving

/-!
# Listings

A listing shows the committed rows it is about, all of them, each once, and the
newest first.
-/

namespace Otdel

open Program Versions Machine

variable {ι : Type} {state : AppState} {Row α : Type}

/-- The order of a listing; of two rows of one time the greater identifier comes
first. -/
def Newer (createdAt : Row → Timestamp) (rowId : Row → Uuid) (r r' : Row) : Prop :=
  createdAt r' < createdAt r ∨ createdAt r = createdAt r' ∧ (rowId r').value < (rowId r).value

/-- The records of these rows, each once, newest first. -/
def Listed (createdAt : Row → Timestamp) (rowId : Row → Uuid) (record : Row → α)
    (rows : List Row) (items : List α) : Prop :=
  ∃ sorted : List Row, sorted.Perm rows ∧ sorted.Pairwise (Newer createdAt rowId) ∧
    items = sorted.map record

theorem newer_of_le {a b x y : ℕ} (h : b < a ∨ (a = b ∧ y ≤ x)) (hne : x ≠ y) :
    b < a ∨ a = b ∧ y < x := by omega

theorem listed_newestFirst {createdAt : Row → Timestamp} {rowId : Row → Uuid} {rows : List Row}
    (hnodup : (rows.map rowId).Nodup) (record : Row → α) :
    Listed createdAt rowId record rows ((Sql.newestFirst createdAt rowId rows).map record) := by
  have hperm : (Sql.newestFirst createdAt rowId rows).Perm rows := List.mergeSort_perm rows _
  have hsorted : (Sql.newestFirst createdAt rowId rows).Pairwise fun a b ↦
      (createdAt b < createdAt a || (createdAt a = createdAt b &&
        (rowId b).value ≤ (rowId a).value)) = true := by
    apply List.pairwise_mergeSort
    · intro a b c hab hbc
      simp only [Bool.or_eq_true, Bool.and_eq_true, decide_eq_true_eq] at hab hbc ⊢
      exact Sql.newest_trans hab hbc
    · intro a b
      simp only [Bool.or_eq_true, Bool.and_eq_true, decide_eq_true_eq]
      exact Sql.newest_total _ _ _ _
  have hdistinct : (Sql.newestFirst createdAt rowId rows).Pairwise fun a b ↦ rowId a ≠ rowId b :=
    List.pairwise_map.mp ((hperm.map rowId).nodup_iff.mpr hnodup)
  refine ⟨_, hperm, (hsorted.and hdistinct).imp ?_, rfl⟩
  rintro a b ⟨hle, hne⟩
  simp only [Bool.or_eq_true, Bool.and_eq_true, decide_eq_true_eq] at hle
  exact newer_of_le hle fun heq ↦ hne (Uuid.value_injective heq)

/-! ## What a listing answers -/

/-- The endpoints that list rows. -/
def Request.IsListing : Request → Prop
  | .listPartners _ => True
  | .listMaterials _ _ => True
  | .listJobs _ _ => True
  | _ => False

/-- The answer shows what the database has for this request. -/
def Request.Shows (db : Db) : Request → Response → Prop
  | .listPartners session, .partners items =>
      Listed PartnerRow.createdAt PartnerRow.id partnerFromRow
        (db.partners.filter fun row ↦ row.bureauId = session.bureauId) items
  | .listMaterials session partnerId, .materials items =>
      (∃ row ∈ db.partners, Sql.isPartner session.bureauId partnerId row = true) ∧
        Listed MaterialRow.createdAt MaterialRow.id materialFromRow
          (db.materials.filter (Sql.isMaterialOf session.bureauId partnerId)) items
  | .listJobs session partnerId, .jobs items =>
      (∃ row ∈ db.partners, Sql.isPartner session.bureauId partnerId row = true) ∧
        Listed JobRow.createdAt JobRow.id jobFromRow
          (db.jobs.filter (Sql.isJobOf session.bureauId partnerId)) items
  | _, _ => False

section Reading

variable [Fintype ι] [DecidableEq ι] {w : World ι} {i : ι} {db : Db} {bureauId partnerId : Uuid}
  {session : Session}

/-- The transaction has written nothing, and the committed rows are these. -/
def World.Reads (i : ι) (bureauId : Uuid) (db : Db) (w : World ι) : Prop :=
  w.db = db ∧ ∃ now, w.tx i = some ⟨bureauId, now, []⟩

theorem succeeds_begin (hw : w.db = db) (bureauId : Uuid) :
    (server ι).Succeeds i (fun tx w' ↦ tx = ⟨bureauId⟩ ∧ w'.Reads i bureauId db)
      (ScopedTx.begin bureauId) w := by
  have hbegin : (server ι).Succeeds i (fun (_ : Unit) w' ↦ w'.Reads i bureauId db)
      (await (.begin bureauId)) w := by
    intro choice r w' hperform a ha
    cases ha
    cases choice with
    | granted id now =>
        cases hperform
        exact ⟨hw, now, Function.update_self ..⟩
    | failed | lost | listed => cases hperform
  exact hbegin.andThen fun _ w' h ↦ Succeeds.return ⟨rfl, h⟩

/-- A statement that writes nothing answers from the committed rows. -/
theorem succeeds_statement {s : Sql} {answer : s.Answer} (hw : w.Reads i bureauId db)
    (hexec : ∀ id now, s.exec id now db = .ok (answer, [])) :
    (server ι).Succeeds i (fun answer' w' ↦ answer' = answer ∧ w'.Reads i bureauId db)
      (runStatement s) w := by
  intro choice r w' hperform a ha
  subst ha
  obtain ⟨rfl, now, hopen⟩ := hw
  have hview : w.view i = w.db := by
    rw [World.view, World.pending_eq_of_tx hopen, Db.overlay_nil]
  rcases perform_sql hopen hperform with ⟨id, answer', added, hanswer, hrun, rfl⟩ | ⟨e, he, -⟩
  · cases hanswer
    rw [hview, hexec] at hrun
    cases hrun
    exact ⟨rfl, rfl, now, by simp [World.setTx]⟩
  · cases he

theorem succeeds_commit (tx : ScopedTx) :
    (server ι).Succeeds i (fun _ _ ↦ True) (Routes.db tx.commit) w :=
  Succeeds.mapError _ fun _ _ _ _ _ _ ↦ trivial

/-- Run a statement, convert its answer and commit. -/
theorem succeeds_query {s : Sql} {answer : s.Answer} {g : s.Answer → α} {f : α → Response}
    (hw : w.Reads i bureauId db) (hexec : ∀ id now, s.exec id now db = .ok (answer, [])) :
    (server ι).Succeeds i (fun r _ ↦ r = f (g answer)) (do
      let a ← Routes.db (do
        let answer ← runStatement s
        return g answer)
      Routes.db (ScopedTx.commit ⟨bureauId⟩)
      return f a : TryProg ApiError Response) w := by
  have hread : (server ι).Succeeds i (fun a _ ↦ a = g answer) (do
      let answer ← runStatement s
      return g answer : TryProg DbError α) w :=
    (succeeds_statement hw hexec).andThen fun a w' h ↦ Succeeds.return (congrArg g h.1)
  apply (hread.mapError ApiError.ofDbError).andThen
  rintro a w₁ rfl
  exact (succeeds_commit _).andThen fun _ _ _ ↦ Succeeds.return rfl

/-- Only a partner of the bureau has listings. -/
theorem succeeds_present {f : ScopedTx → TryProg ApiError Response} {Post : Response → Prop}
    (hw : w.db = db)
    (hf : ∀ w' : World ι, w'.Reads i bureauId db →
      (server ι).Succeeds i (fun r _ ↦ Post r) (f ⟨bureauId⟩) w') :
    (server ι).Succeeds i
      (fun r _ ↦ (∃ row ∈ db.partners, Sql.isPartner bureauId partnerId row = true) ∧ Post r) (do
        let tx ← Routes.db (ScopedTx.begin bureauId)
        let present ← Routes.db (Partners.exists? tx partnerId)
        if present = false then Routes.leave tx Routes.partnerNotFound else f tx) w := by
  apply ((succeeds_begin hw bureauId).mapError ApiError.ofDbError).andThen
  rintro tx w₁ ⟨rfl, hw₁⟩
  have hexists : (server ι).Succeeds i
      (fun present w' ↦ present = db.partners.any (Sql.isPartner bureauId partnerId) ∧
        w'.Reads i bureauId db) (Partners.exists? ⟨bureauId⟩ partnerId) w₁ :=
    succeeds_statement hw₁ fun _ _ ↦ rfl
  apply (hexists.mapError ApiError.ofDbError).andThen
  rintro present w₂ ⟨hpresent, hw₂⟩
  cases present with
  | false =>
      rw [if_pos rfl]
      have hrollback : (server ι).Gives i (fun _ _ ↦ True) (ScopedTx.rollback ⟨bureauId⟩) w₂ :=
        fun _ _ _ _ ↦ trivial
      exact Succeeds.liftThen hrollback fun _ _ _ ↦ Succeeds.fail
  | true =>
      rw [if_neg (by simp)]
      exact (hf w₂ hw₂).mono fun r w' h a ha ↦
        ⟨List.any_eq_true.mp hpresent.symm, h a ha⟩

theorem succeeds_listing {request : Request} (hw : w.Consistent) (hlisting : request.IsListing) :
    (server ι).Gives i (fun a _ ↦ ∀ response, a = .response (.ok response) →
      request.Shows w.db response) (request.program state) w := by
  have hanswer {p : TryProg ApiError Response} {Post : Response → Prop}
      (hp : (server ι).Succeeds i (fun r _ ↦ Post r) p w) :
      (server ι).Gives i (fun a _ ↦ ∀ response, a = .response (.ok response) → Post response)
        (Program.bind p fun r ↦ .done (Answer.response r)) w :=
    Gives.bind hp fun r w' h response hresponse ↦ by
      cases hresponse
      exact h response rfl
  cases request with
  | listPartners session =>
      apply hanswer
      apply ((succeeds_begin rfl session.bureauId).mapError ApiError.ofDbError).andThen
      rintro tx w₁ ⟨rfl, hw₁⟩
      apply (succeeds_query hw₁ fun _ _ ↦ rfl).mono
      rintro r w' h a ha
      rw [h a ha]
      exact listed_newestFirst (Sql.nodup_filter_map _ hw.partners.nodup) _
  | listMaterials session partnerId =>
      apply hanswer
      have hlist : (server ι).Succeeds i
          (fun r _ ↦ (∃ row ∈ w.db.partners, Sql.isPartner session.bureauId partnerId row = true) ∧
            r = .materials ((Sql.newestFirst MaterialRow.createdAt MaterialRow.id
              (w.db.materials.filter (Sql.isMaterialOf session.bureauId partnerId))).map
                materialFromRow))
          (Routes.listMaterials session partnerId) w := by
        apply succeeds_present rfl
        exact fun w₁ hw₁ ↦
          succeeds_query (s := .materialsList session.bureauId partnerId) hw₁ fun _ _ ↦ rfl
      apply hlist.mono
      rintro r w' h a ha
      obtain ⟨hpartner, hitems⟩ := h a ha
      rw [hitems]
      exact ⟨hpartner, listed_newestFirst (Sql.nodup_filter_map _ hw.materials.nodup) _⟩
  | listJobs session partnerId =>
      apply hanswer
      have hlist : (server ι).Succeeds i
          (fun r _ ↦ (∃ row ∈ w.db.partners, Sql.isPartner session.bureauId partnerId row = true) ∧
            r = .jobs ((Sql.newestFirst JobRow.createdAt JobRow.id
              (w.db.jobs.filter (Sql.isJobOf session.bureauId partnerId))).map jobFromRow))
          (Routes.listJobs session partnerId) w := by
        apply succeeds_present rfl
        exact fun w₁ hw₁ ↦
          succeeds_query (s := .jobsList session.bureauId partnerId) hw₁ fun _ _ ↦ rfl
      apply hlist.mono
      rintro r w' h a ha
      obtain ⟨hpartner, hitems⟩ := h a ha
      rw [hitems]
      exact ⟨hpartner, listed_newestFirst (Sql.nodup_filter_map _ hw.jobs.nodup) _⟩
  | _ => exact hlisting.elim

variable {requests : ι → Request}

/-- In every reachable state a listing that is answered shows the committed rows
it is about: all of them, each once, the newest first. -/
theorem listings_exact (hw : w.Fresh) {events : List (SysEvent ι Choice)}
    {t : Sys ι (World ι) Op Op.Ans Answer}
    (hrun : Run.run (Server.step ι) (serving state requests w) events = some t) {request : Request}
    (hlisting : request.IsListing) {choices : List Choice} {response : Response} {w' : World ι}
    (hplay : (server ι).play i (request.program state) choices t.world =
      some (.response (.ok response), w')) : request.Shows t.world.db response :=
  gives_iff.mp (succeeds_listing (serves_of_run hw.serves hrun).1.inv.consistent hlisting)
    choices _ w' hplay response rfl

end Reading

/-! ## A listing after two uploads, and during a third -/

namespace Sample

/-- The first bytes of a PNG file, and of a JPEG file. -/
def png : Bytes := [0x89, 0x50, 0x4e, 0x47, 0x0d, 0x0a, 0x1a, 0x0a]

def jpeg : Bytes := [0xff, 0xd8, 0xff, 0xe0]

/-- The digests of the three files. -/
def sha256s : Sha256 where
  digest bytes :=
    if bytes = png then
      [76, 75, 106, 59, 225, 49, 74, 184, 97, 56, 190, 244, 49, 77, 222, 2, 46, 96, 9, 96, 216,
        104, 154, 44, 143, 134, 49, 128, 45, 32, 218, 182]
    else if bytes = jpeg then
      [186, 79, 37, 191, 22, 186, 75, 230, 188, 125, 50, 118, 250, 254, 182, 127, 158, 179, 197,
        223, 4, 43, 195, 164, 5, 225, 175, 21, 185, 33, 238, 215]
    else sha256.digest bytes
  length_digest bytes := by
    split
    · rfl
    · split
      · rfl
      · exact sha256.length_digest bytes

def filesState : AppState := ⟨.reference, ⟨.reference, sha256s, ["objects".toList]⟩, 1024⟩

def fileUpload (filename : String) (bytes : Bytes) : Request :=
  .upload ⟨uuid 1⟩ (uuid 2)
    ⟨[⟨some "file".toList, some filename.toList, none, [bytes], true⟩], true⟩

def listing : Request := .listMaterials ⟨uuid 1⟩ (uuid 2)

def threeUploads : Fin 4 → Request
  | 0 => fileUpload "contract.pdf" content
  | 1 => fileUpload "scan.png" png
  | 2 => fileUpload "photo.jpg" jpeg
  | 3 => listing

def actAt (now : Timestamp) (i : Fin 4) (n : Fin 16) : SysEvent (Fin 4) Choice :=
  .act i (.granted (uuid n) now)

/-- The third upload has inserted its row and not committed it. -/
def twoServed : List (SysEvent (Fin 4) Choice) :=
  List.replicate 16 (actAt 0 0 3) ++ List.replicate 2 (actAt 0 0 5) ++
    List.replicate 16 (actAt 1 1 4) ++ List.replicate 2 (actAt 1 1 6) ++
      List.replicate 16 (actAt 2 2 8)

def listingChoices : List Choice := List.replicate 4 (.granted (uuid 7) 3)

theorem threeUploads_fresh : (World.start [partner] : World (Fin 4)).Fresh :=
  World.start_fresh (List.nodup_singleton _)

/-- How many rows the listing is about, and how many the open transaction holds. -/
def listed : Option (ℕ × ℕ) :=
  (Run.run (Server.step (Fin 4)) (serving filesState threeUploads (World.start [partner]))
    twoServed).bind fun t ↦
      ((server (Fin 4)).play 3 (listing.program filesState) listingChoices t.world).bind fun r ↦
        match r.1 with
        | .response (.ok (.materials _)) =>
            some ((t.world.db.materials.filter (Sql.isMaterialOf (uuid 1) (uuid 2))).length,
              (t.world.pending 2).length)
        | _ => none

end Sample

open Sample in
theorem listings_exact_uploads : ∃ t items w',
    Run.run (Server.step (Fin 4)) (serving filesState threeUploads (World.start [partner]))
        twoServed = some t ∧
      (server (Fin 4)).play 3 (listing.program filesState) listingChoices t.world =
        some (.response (.ok (.materials items)), w') ∧
      listing.Shows t.world.db (.materials items) ∧ items.length = 2 ∧
      (t.world.pending 2).length = 1 := by
  have hlisted : listed = some (2, 1) := by decide +kernel
  obtain ⟨t, hrun, hlisted⟩ := Option.bind_eq_some_iff.mp hlisted
  obtain ⟨⟨a, w'⟩, hplay, hlisted⟩ := Option.bind_eq_some_iff.mp hlisted
  have hlisting : listing.IsListing := trivial
  dsimp only at hlisted
  split at hlisted
  · rename_i items
    obtain ⟨hrows, hpending⟩ := Prod.mk.inj (Option.some.inj hlisted)
    have hshows := listings_exact threeUploads_fresh hrun hlisting hplay
    obtain ⟨-, sorted, hperm, -, hitems⟩ := id hshows
    have hlength : items.length = 2 := by
      rw [hitems, List.length_map, hperm.length_eq]
      exact hrows
    exact ⟨t, items, w', hrun, hplay, hshows, hlength, hpending⟩
  · cases hlisted

end Otdel
