import Otdel.Server.Consistency
import Otdel.Server.Frame
import Otdel.Server.Requests
import Otdel.Storage.Place

/-!
# Originals and their rows

What the server keeps, whatever the order of the steps: every material row, also
an uncommitted one, is about an uploaded content that is stored under its key,
and every committed one has its extraction job.  The requests rely on this and
on each other to leave their transactions and their staging files alone.
-/

namespace Otdel

open Versions

/-- The bytes of the first `file` part. -/
def Multipart.original? (multipart : Multipart) : Option Bytes :=
  (multipart.fields.find? fun field ↦ field.name = some "file".toList).map fun field ↦
    field.chunks.flatten

def MaterialRow.ns (row : MaterialRow) : ObjectNamespace := ⟨row.bureauId, row.partnerId⟩

variable {ι : Type}

/-- Some request uploads this content to this partner. -/
def Uploads (requests : ι → Request) (ns : ObjectNamespace) (content : Bytes) : Prop :=
  ∃ i session partnerId multipart, requests i = .upload session partnerId multipart ∧
    ns = ⟨session.bureauId, partnerId⟩ ∧ multipart.original? = some content

section Definitions

variable (store : Store) (requests : ι → Request)

/-- The columns of a row tell of an uploaded content. -/
structure Describes (row : MaterialRow) (content : Bytes) : Prop where
  sha256 : row.sha256 = store.sha256.hex content
  sizeBytes : row.sizeBytes = content.length
  mediaType : ∃ t, MediaType.detect content = some t ∧ row.mediaType = t.asStr.toList

/-- The row of an uploaded content whose object is stored. -/
structure IsOriginal (objects : Path → Option Bytes) (row : MaterialRow) : Prop where
  uploaded : ∃ content, Uploads requests row.ns content ∧ Describes store row content
  storageKey : row.storageKey = row.ns.keyText store.uuid row.sha256
  stored : (objects (store.place row.ns row.sha256)).isSome = true

/-- A path holds only contents that were uploaded to it. -/
def Placed (path : Path) (content : Bytes) : Prop :=
  ∃ ns, Uploads requests ns content ∧ path = store.place ns (store.sha256.hex content)

/-- The invariant of the server. -/
structure Kept (w : World ι) : Prop where
  consistent : w.Consistent
  originals : ∀ row, w.materials.Known row → IsOriginal store requests w.objects row
  placed : ∀ path content, w.objects path = some content → Placed store requests path content
  jobKeys : ∀ job, w.jobs.Known job →
    job.idempotencyKey = extractionIdempotencyKey store.uuid job.materialId .extractDocument
  queued : ∀ row ∈ w.db.materials, ∃ job ∈ w.db.jobs, job.OfMaterial row
  born : ∀ row ∈ w.db.materials, ∃ e ∈ w.log, ∃ row', .material row' none ∈ e.2 ∧
    row'.id = row.id
  visible : ∀ i message, (i, .publishFailed (.decode message)) ∉ w.reports

end Definitions

/-! ## What requests rely on -/

/-- Nothing committed, stored or drawn is lost. -/
structure World.Grows (w w' : World ι) : Prop where
  partners : State.Persist partnerScheme w.partners w'.partners
  materials : State.Persist materialScheme w.materials w'.materials
  jobs : State.Persist jobScheme w.jobs w'.jobs
  objects : ∀ path, (w.objects path).isSome = true → (w'.objects path).isSome = true
  drawnBy : ∀ name i, w.drawnBy name = some i → w'.drawnBy name = some i

/-- What happens to request `i` while it waits: its staging files may be swept,
and if it was dropped during a detached operation its transaction is gone. -/
structure World.Rely (i : ι) (op : Option Op) (w w' : World ι) : Prop where
  tx : w'.tx i = w.tx i ∨ (op.any Op.detached = true ∧ w'.tx i = none)
  log : ∀ writes, (i, writes) ∈ w'.log ↔ (i, writes) ∈ w.log
  faulted : w'.faulted i = w.faulted i
  unacked : w'.unacked i = w.unacked i
  staging : ∀ name, w.drawnBy name = some i →
    w'.staging name = w.staging name ∨ w'.staging name = none
  grows : w.Grows w'

/-- A request that has not answered has committed no material, unless it does
not know. -/
def World.Busy (i : ι) (w : World ι) : Prop :=
  w.unacked i = false → ∀ writes, (i, writes) ∈ w.log → ∀ row, .material row none ∉ writes

namespace World

variable {w w' w₁ w₂ w₃ : World ι} {i j : ι} {op : Option Op}

theorem Grows.refl (w : World ι) : Grows w w :=
  ⟨.refl _ _, .refl _ _, .refl _ _, fun _ h ↦ h, fun _ _ h ↦ h⟩

theorem Grows.trans (h : Grows w₁ w₂) (h' : Grows w₂ w₃) : Grows w₁ w₃ where
  partners := h.partners.trans h'.partners
  materials := h.materials.trans h'.materials
  jobs := h.jobs.trans h'.jobs
  objects path hp := h'.objects path (h.objects path hp)
  drawnBy name i hi := h'.drawnBy name i (h.drawnBy name i hi)

theorem Rely.refl (i : ι) (op : Option Op) (w : World ι) : Rely i op w w :=
  ⟨Or.inl rfl, fun _ ↦ Iff.rfl, rfl, rfl, fun _ _ ↦ Or.inl rfl, .refl w⟩

theorem Rely.trans (h : Rely i op w₁ w₂) (h' : Rely i op w₂ w₃) : Rely i op w₁ w₃ where
  tx := by
    rcases h'.tx with htx | hgone
    · rw [htx]
      exact h.tx
    · exact Or.inr hgone
  log writes := (h'.log writes).trans (h.log writes)
  faulted := h'.faulted.trans h.faulted
  unacked := h'.unacked.trans h.unacked
  staging name hname := by
    rcases h'.staging name (h.grows.drawnBy name i hname) with hstay | hgone
    · rw [hstay]
      exact h.staging name hname
    · exact Or.inr hgone
  grows := h.grows.trans h'.grows

theorem Rely.of_none (h : Rely i none w w') : Rely i op w w' :=
  ⟨Or.inl (h.tx.resolve_right (by simp)), h.log, h.faulted, h.unacked, h.staging, h.grows⟩

theorem Rely.tx_none (h : Rely i op w w') (hnone : w.tx i = none) : w'.tx i = none := by
  rcases h.tx with htx | ⟨-, htx⟩
  · rw [htx, hnone]
  · exact htx

theorem Rely.tx_eq (h : Rely i op w w') (hop : op.any Op.detached = false) :
    w'.tx i = w.tx i := by
  rcases h.tx with htx | ⟨hdetached, -⟩
  · exact htx
  · simp [hop] at hdetached

theorem Rely.busy (h : Rely i op w w') (hw : Busy i w) : Busy i w' := by
  intro hacked writes hwrites
  exact hw (h.unacked ▸ hacked) writes ((h.log writes).mp hwrites)

end World

/-- The contract between the requests. -/
def originalsContract (store : Store) (requests : ι → Request) : Contract ι (World ι) Op where
  Inv := Kept store requests
  Rely := World.Rely
  Guar i w w' := ∀ j, j ≠ i → World.Rely j none w w'
  Grows := World.Grows
  Busy := World.Busy
  rely_refl := World.Rely.refl
  rely_trans _ _ _ _ _ := World.Rely.trans
  rely_grows _ _ _ _ h := h.grows
  grows_refl := World.Grows.refl
  grows_trans _ _ _ := World.Grows.trans

/-! ## Operations keep the contract -/

section Steps

variable {store : Store} {requests : ι → Request} {objects objects' : Path → Option Bytes}

theorem Describes.congr {row row' : MaterialRow} {content : Bytes}
    (h : Describes store row content) (hcore : row'.core = row.core) :
    Describes store row' content := by
  obtain ⟨-, -, -, -, hmedia, hsize, hsha, -⟩ := MaterialRow.core_eq_iff.mp hcore
  exact ⟨hsha.trans h.sha256, hsize.trans h.sizeBytes, by rw [hmedia]; exact h.mediaType⟩

theorem MaterialRow.ns_congr {row row' : MaterialRow} (hcore : row'.core = row.core) :
    row'.ns = row.ns := by
  obtain ⟨-, hbureau, hpartner, -⟩ := MaterialRow.core_eq_iff.mp hcore
  rw [MaterialRow.ns, MaterialRow.ns, hbureau, hpartner]

theorem IsOriginal.congr {row row' : MaterialRow} (h : IsOriginal store requests objects row)
    (hcore : row'.core = row.core)
    (hobjects : ∀ path, (objects path).isSome = true → (objects' path).isSome = true) :
    IsOriginal store requests objects' row' := by
  obtain ⟨-, -, -, -, -, -, hsha, hkey, -⟩ := MaterialRow.core_eq_iff.mp hcore
  have hns := MaterialRow.ns_congr hcore
  obtain ⟨content, huploads, hdescribes⟩ := h.uploaded
  refine ⟨⟨content, hns ▸ huploads, hdescribes.congr hcore⟩, ?_, ?_⟩
  · rw [hkey, hns, hsha]
    exact h.storageKey
  · rw [hns, hsha]
    exact hobjects _ h.stored

/-- Every material inserted by an open transaction has its job. -/
def Settled (i : ι) (w : World ι) : Prop :=
  ∀ row, .material row none ∈ w.pending i → ∃ job, w.jobs.Visible i job ∧ job.OfMaterial row

/-- What an operation must respect. -/
def Op.Allowed (store : Store) (requests : ι → Request) (i : ι) (w : World ι) : Op → Prop
  | .sql (.materialsInsert bureauId new) =>
      ∀ id now, IsOriginal store requests w.objects (Sql.newMaterialRow bureauId new id now)
  | .sql (.jobsInsert _ _ materialId _ key) =>
      key = extractionIdempotencyKey store.uuid materialId .extractDocument
  | .commit => Settled i w
  | .createStaging name => w.drawnBy name = some i
  | .write name _ => w.drawnBy name = some i
  | .rename name path =>
      ∀ content, w.staging name = some content → Placed store requests path content
  | .report (.publishFailed (.decode _)) => False
  | _ => True

variable [DecidableEq ι] {w w' : World ι} {i : ι} {op : Option Op}

theorem World.Consistent.grows_rows (hw : w.Consistent) (h : DbStep i op w w') :
    State.Persist partnerScheme w.partners w'.partners ∧
      State.Persist materialScheme w.materials w'.materials ∧
        State.Persist jobScheme w.jobs w'.jobs :=
  ⟨hw.partners.persist h.tables.partners_step, hw.materials.persist h.tables.materials_step,
    hw.jobs.persist h.tables.jobs_step⟩

/-- A row that a commit publishes was visible to its transaction. -/
theorem Kept.queued_step (hw : Kept store requests w) (h : DbStep i op w w')
    (hsettled : op = some .commit → Settled i w) :
    ∀ row ∈ w'.db.materials, ∃ job ∈ w'.db.jobs, job.OfMaterial row := by
  intro row hrow
  have hsame : w'.db = w.db → ∃ job ∈ w'.db.jobs, job.OfMaterial row := by
    intro hdb
    rw [hdb] at hrow ⊢
    exact hw.queued row hrow
  cases h with
  | same hdb => exact hsame hdb
  | ended hdb => exact hsame hdb
  | began _ _ _ hdb => exact hsame hdb
  | wrote _ _ _ _ _ _ _ _ _ hdb => exact hsame hdb
  | committed tx hop hopen hdb hlog htx =>
      have hstep : DbStep i op w w' := .committed tx hop hopen hdb hlog htx
      have hpending : w.pending i = tx.writes := World.pending_eq_of_tx hopen
      have hjobs : w'.db.jobs = (w.view i).jobs := by rw [hdb, World.view, hpending]
      have hvisible : w.materials.Visible i row := by
        rw [hdb, ← hpending] at hrow
        exact World.visible_material hrow
      -- a job of this row that the transaction sees
      have hjob : ∃ job, w.jobs.Visible i job ∧ job.OfMaterial row := by
        have hold : ∀ old ∈ w.db.materials, old.core = row.core →
            ∃ job, w.jobs.Visible i job ∧ job.OfMaterial row := by
          intro old hold hcore
          obtain ⟨job, hjob, hof⟩ := hw.queued old hold
          exact ⟨job, Or.inl hjob, hof.congr rfl hcore.symm⟩
        rcases hvisible with hrow | ⟨v, hv, rfl⟩
        · exact hold row hrow rfl
        · rcases hw.consistent.materials.origin i v hv with ⟨r, hr, hcore⟩ | ⟨r, hr, hcore⟩
          · exact hold r hr hcore
          · obtain ⟨job, hjob, hof⟩ := hsettled hop r (World.mem_materials_pending.mp hr)
            exact ⟨job, hjob, hof.congr rfl hcore.symm⟩
      obtain ⟨job, hjob, hof⟩ := hjob
      obtain ⟨job', hjob', hcore⟩ := hw.consistent.jobs.exists_view hjob
      exact ⟨job', hjobs ▸ hjob', hof.congr hcore rfl⟩

theorem Kept.born_step (hw : Kept store requests w) (h : DbStep i op w w') :
    ∀ row ∈ w'.db.materials, ∃ e ∈ w'.log, ∃ row', .material row' none ∈ e.2 ∧
      row'.id = row.id := by
  intro row hrow
  have hsame : w'.db = w.db → w'.log = w.log →
      ∃ e ∈ w'.log, ∃ row', .material row' none ∈ e.2 ∧ row'.id = row.id := by
    intro hdb hlog
    rw [hdb] at hrow
    rw [hlog]
    exact hw.born row hrow
  cases h with
  | same hdb hlog => exact hsame hdb hlog
  | ended hdb hlog => exact hsame hdb hlog
  | began _ _ _ hdb hlog => exact hsame hdb hlog
  | wrote _ _ _ _ _ _ _ _ _ hdb hlog => exact hsame hdb hlog
  | committed tx hop hopen hdb hlog htx =>
      have hpending : w.pending i = tx.writes := World.pending_eq_of_tx hopen
      have hold : ∀ old ∈ w.db.materials, old.core = row.core →
          ∃ e ∈ w'.log, ∃ row', .material row' none ∈ e.2 ∧ row'.id = row.id := by
        intro old hold hcore
        obtain ⟨e, he, row', hrow', hid⟩ := hw.born old hold
        refine ⟨e, by rw [hlog]; exact List.mem_cons_of_mem _ he, row', hrow', ?_⟩
        exact hid.trans (materialScheme.id_core hcore)
      have hvisible : w.materials.Visible i row := by
        rw [hdb, ← hpending] at hrow
        exact World.visible_material hrow
      rcases hvisible with hrow | ⟨v, hv, rfl⟩
      · exact hold row hrow rfl
      · rcases hw.consistent.materials.origin i v hv with ⟨r, hr, hcore⟩ | ⟨r, hr, hcore⟩
        · exact hold r hr hcore
        · refine ⟨(i, tx.writes), by rw [hlog]; exact List.mem_cons_self, r, ?_,
            materialScheme.id_core hcore⟩
          rw [← hpending]
          exact World.mem_materials_pending.mp hr

end Steps

end Otdel
