import Otdel.Api.Routes
import Otdel.Server.World
import Otdel.Worker.Maintenance

/-!
# Requests

The programs that run on the server: the endpoints under a session, maintenance
passes, and transactions of an extraction worker.
-/

namespace Otdel

open Program

inductive Request where
  | listPartners (session : Session)
  | createPartner (session : Session) (payload : CreatePartnerRequest)
  | showPartner (session : Session) (partnerId : Uuid)
  | updatePartner (session : Session) (partnerId : Uuid) (payload : PatchPartnerRequest)
  | listMaterials (session : Session) (partnerId : Uuid)
  | upload (session : Session) (partnerId : Uuid) (multipart : Multipart)
  | download (session : Session) (partnerId materialId : Uuid)
  | retry (session : Session) (partnerId materialId : Uuid)
  | listJobs (session : Session) (partnerId : Uuid)
  | maintenance (settings : MaintenanceSettings) (bureauId : Uuid)
  | worker (bureauId : Uuid) (changes : List WorkerChange)

/-- How a program ends; a dropped request answers nothing. -/
inductive Answer where
  | response (r : Except ApiError Response)
  | maintenance (r : Except MaintenanceError MaintenanceReport)
  | worker (r : Except DbError Unit)
  | dropped

namespace Request

/-- The handler of an endpoint. -/
def handler (state : AppState) : Request → Option (TryProg ApiError Response)
  | listPartners session => some (Routes.listPartners session)
  | createPartner session payload => some (Routes.createPartner session payload)
  | showPartner session partnerId => some (Routes.showPartner session partnerId)
  | updatePartner session partnerId payload =>
      some (Routes.updatePartner session partnerId payload)
  | listMaterials session partnerId => some (Routes.listMaterials session partnerId)
  | upload session partnerId multipart => some (Routes.upload state session partnerId multipart)
  | download session partnerId materialId =>
      some (Routes.download state session partnerId materialId)
  | retry session partnerId materialId => some (Routes.retry state session partnerId materialId)
  | listJobs session partnerId => some (Routes.listJobs session partnerId)
  | _ => none

def program (state : AppState) (request : Request) : Prog Answer :=
  match request with
  | maintenance settings bureauId =>
      Program.bind (Maintenance.runOnce state.store settings bureauId) fun r ↦
        .done (.maintenance r)
  | worker bureauId changes =>
      Program.bind (Worker.step bureauId changes) fun r ↦ .done (.worker r)
  | request =>
      match request.handler state with
      | some p => Program.bind p fun r ↦ .done (.response r)
      | none => .done .dropped

end Request

/-! ## The system -/

section System

variable {ι : Type} [Fintype ι] [DecidableEq ι]

/-- All requests, before their first step. -/
def serving (state : AppState) (requests : ι → Request) (w : World ι) :
    Sys ι (World ι) Op Op.Ans Answer where
  procs i := (requests i).program state
  world := w

/-- One step of the server. -/
def Server.step (ι : Type) [Fintype ι] [DecidableEq ι] :
    Sys ι (World ι) Op Op.Ans Answer → SysEvent ι Choice →
      Option (Sys ι (World ι) Op Op.Ans Answer) :=
  (server ι).step Answer.dropped

/-- A server that has just started, with partners but no originals. -/
structure World.Fresh (w : World ι) : Prop where
  partnerIds : (w.db.partners.map PartnerRow.id).Nodup
  materials : w.db.materials = []
  jobs : w.db.jobs = []
  tx : ∀ i, w.tx i = none
  log : w.log = []
  objects : ∀ path, w.objects path = none
  drawnBy : ∀ name, w.drawnBy name = none
  reports : w.reports = []
  faulted : ∀ i, w.faulted i = false
  unacked : ∀ i, w.unacked i = false

/-- A server that starts with these partners. -/
def World.start (partners : List PartnerRow) : World ι where
  db := ⟨partners.map PartnerRow.bureauId, partners, [], []⟩
  tx _ := none
  log := []
  staging _ := none
  objects _ := none
  guard _ := none
  drawnBy _ := none
  reports := []
  faulted _ := false
  unacked _ := false

omit [Fintype ι] [DecidableEq ι] in
theorem World.start_fresh {partners : List PartnerRow}
    (h : (partners.map PartnerRow.id).Nodup) : (World.start partners : World ι).Fresh where
  partnerIds := h
  materials := rfl
  jobs := rfl
  tx _ := rfl
  log := rfl
  objects _ := rfl
  drawnBy _ := rfl
  reports := rfl
  faulted _ := rfl
  unacked _ := rfl

end System

/-! ## Two uploads of one file -/

namespace Sample

def uuid (n : Fin 16) : Uuid := ⟨List.replicate 32 n, List.length_replicate⟩

/-- The first bytes of a PDF file, and their digest. -/
def content : Bytes := [0x25, 0x50, 0x44, 0x46, 0x2d]

def sha256 : Sha256 where
  digest _ := [56, 82, 60, 8, 119, 150, 229, 213, 221, 28, 249, 186, 209, 251, 2, 103, 129, 168,
    56, 221, 157, 210, 207, 138, 245, 139, 159, 101, 2, 164, 103, 120]
  length_digest _ := rfl

def state : AppState := ⟨.reference, ⟨.reference, sha256, ["objects".toList]⟩, 1024⟩

def partner : PartnerRow := ⟨uuid 2, uuid 1, "partner".toList, none, 0, 0⟩

def multipart : Multipart :=
  ⟨[⟨some "file".toList, some "contract.pdf".toList, none, [content], true⟩], true⟩

/-- Two uploads, and a download of what they store. -/
def requests : Fin 3 → Request
  | 2 => .download ⟨uuid 1⟩ (uuid 2) (uuid 3)
  | _ => .upload ⟨uuid 1⟩ (uuid 2) multipart

def system : Sys (Fin 3) (World (Fin 3)) Op Op.Ans Answer :=
  serving state requests (World.start [partner])

def act (i : Fin 3) (n : Fin 16) : SysEvent (Fin 3) Choice := .act i (.granted (uuid n) 0)

/-- The second upload finds the object of the first, and waits for its row. -/
def events : List (SysEvent (Fin 3) Choice) :=
  List.replicate 16 (act 0 3) ++ List.replicate 13 (act 1 4) ++ List.replicate 2 (act 0 5) ++
    List.replicate 5 (act 1 6)

theorem fresh : (World.start [partner] : World (Fin 3)).Fresh :=
  World.start_fresh (List.nodup_singleton _)

end Sample

end Otdel
