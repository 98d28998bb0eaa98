import Otdel.Db.RowSecurity
import Otdel.Server.Handlers
import Otdel.Server.Noninterference

/-!
# The server under row-level security

All statements of a request name the bureau that its transaction was begun for.
So the policies change no run of the server, and whatever other bureaus do
meanwhile, the rows of a bureau stay as they are.
-/

namespace Otdel

open Program Versions Machine

variable {ι : Type} {state : AppState} {store : Store}

/-! ## The bureau of a request -/

/-- The operation begins a transaction of the bureau, or names the bureau, if it
is about rows at all. -/
def Op.OfBureau (bureauId : Uuid) : Op → Prop
  | .begin current => current = bureauId
  | .sql s => s.bureauId = bureauId
  | _ => True

theorem Request.Runs.bureauId_eq {request : Request} {s : Sql} (h : request.Runs state s) :
    s.bureauId = request.bureauId := by
  cases h with
  | record hnew h => cases h <;> rfl
  | enqueue h => cases h <;> rfl
  | requeueJob h =>
      cases h with
      | again => rfl
      | enqueue h => cases h <;> rfl
  | @worker bureauId changes change h => cases change <;> rfl
  | _ => rfl

theorem Request.Touches.ofBureau {request : Request} {op : Op} (h : request.Touches state op)
    (bureauId : Uuid) : op.OfBureau bureauId := by
  cases h with
  | intake h => cases op <;> first | exact h.elim | trivial
  | stat | openFile => trivial
  | maintenance h => cases h <;> trivial

/-- A request is about the rows of its bureau only. -/
theorem Request.ofBureau (request : Request) :
    (request.program state).Calls (Op.OfBureau request.bureauId) := by
  apply request.calls_program.mono
  intro op hop
  cases hop with
  | begin => rfl
  | commit | rollback => trivial
  | sql h => exact h.bureauId_eq
  | file h => exact h.ofBureau request.bureauId

/-! ## What a request has written -/

/-- Every transaction is of the bureau of its request and holds versions of rows
of that bureau, and so does every transaction that was committed. -/
structure World.InBureaus (requests : ι → Request) (w : World ι) : Prop where
  tx : ∀ i tx, w.tx i = some tx → tx.bureauId = (requests i).bureauId ∧
    ∀ write ∈ tx.writes, write.bureauId = (requests i).bureauId
  log : ∀ e ∈ w.log, ∀ write ∈ e.2, write.bureauId = (requests e.1).bureauId

section Runs

variable [DecidableEq ι] {requests : ι → Request} {w w' : World ι} {i : ι}

omit [DecidableEq ι] in
theorem World.Fresh.inBureaus (hw : w.Fresh) : w.InBureaus requests where
  tx i tx h := by simp [hw.tx i] at h
  log e he := by simp [hw.log] at he

theorem World.InBureaus.step (hw : w.InBureaus requests) {op : Option Op}
    (hop : ∀ o ∈ op, o.OfBureau (requests i).bureauId) (h : DbStep i op w w') :
    w'.InBureaus requests := by
  have hupdate : ∀ tx' : Option Tx, w'.tx = Function.update w.tx i tx' →
      (∀ tx, tx' = some tx → tx.bureauId = (requests i).bureauId ∧
        ∀ write ∈ tx.writes, write.bureauId = (requests i).bureauId) →
      ∀ j tx, w'.tx j = some tx → tx.bureauId = (requests j).bureauId ∧
        ∀ write ∈ tx.writes, write.bureauId = (requests j).bureauId := by
    intro tx' htx hnew j tx hopen
    by_cases hj : j = i
    · subst hj
      rw [htx, Function.update_self] at hopen
      exact hnew tx hopen
    · rw [htx, Function.update_of_ne hj] at hopen
      exact hw.tx j tx hopen
  cases h with
  | same hdb hlog htx =>
      exact ⟨fun j tx hopen ↦ hw.tx j tx (htx ▸ hopen), fun e he ↦ hw.log e (hlog ▸ he)⟩
  | ended hdb hlog htx =>
      exact ⟨hupdate none htx (fun tx h ↦ by cases h), fun e he ↦ hw.log e (hlog ▸ he)⟩
  | began bureauId now heq hdb hlog htx =>
      refine ⟨hupdate _ htx fun tx h ↦ ?_, fun e he ↦ hw.log e (hlog ▸ he)⟩
      cases h
      exact ⟨hop _ heq, by simp⟩
  | wrote tx s id answer writes heq hopen hfree hexec hdb hlog htx =>
      refine ⟨hupdate _ htx fun tx' h ↦ ?_, fun e he ↦ hw.log e (hlog ▸ he)⟩
      cases h
      obtain ⟨hbureau, hwrites⟩ := hw.tx i tx hopen
      refine ⟨hbureau, fun write hwrite ↦ ?_⟩
      rcases List.mem_append.mp hwrite with hold | hnew
      · exact hwrites write hold
      · have hs : s.bureauId = (requests i).bureauId := hop _ heq
        exact (Sql.bureauId_of_exec hexec write hnew).trans hs
  | committed tx heq hopen hdb hlog htx =>
      refine ⟨hupdate none htx (fun tx h ↦ by cases h), fun e he ↦ ?_⟩
      rw [hlog] at he
      rcases List.mem_cons.mp he with rfl | he
      · exact (hw.tx i tx hopen).2
      · exact hw.log e he

/-! ## The policies in force -/

variable [Fintype ι]

def World.runSecured (i : ι) (s : Sql) (id : Uuid) (w : World ι) :
    Option (Except DbError s.Answer × World ι) :=
  match w.tx i with
  | none => some (.error (.database "25P02" none), w)
  | some tx =>
      if w.Blocked i (s.waitsFor id tx.now ((w.view i).visibleTo tx.bureauId)) then none
      else match s.execSecured tx.bureauId id tx.now (w.view i) with
        | .ok (answer, writes) =>
            some (.ok answer, w.setTx i (some { tx with writes := tx.writes ++ writes }))
        | .error e => some (.error e, w.setTx i none)

/-- The server whose database applies the policies to every statement. -/
def securedServer (ι : Type) [Fintype ι] [DecidableEq ι] :
    Machine ι (World ι) Op Op.Ans Choice where
  perform i op choice w :=
    match choice, op with
    | .granted id _, .sql s => w.runSecured i s id
    | choice, op => w.perform i op choice
  abandon := World.abandon
  detached := Op.detached

theorem runSecured_eq (hw : w.InBureaus requests) {s : Sql} {id : Uuid}
    (hs : s.bureauId = (requests i).bureauId) : w.runSecured i s id = w.runSql i s id := by
  unfold World.runSecured World.runSql
  cases hopen : w.tx i with
  | none => rfl
  | some tx =>
      have hbureau : s.bureauId = tx.bureauId := hs.trans (hw.tx i tx hopen).1.symm
      have hwaits : s.waitsFor id tx.now ((w.view i).visibleTo tx.bureauId) =
          s.waitsFor id tx.now (w.view i) := funext (Sql.waitsFor_visibleTo hbureau)
      dsimp only
      by_cases hwait : w.Blocked i (s.waitsFor id tx.now (w.view i))
      · rw [if_pos (hwaits.symm ▸ hwait), if_pos hwait]
      · have hexec : s.execSecured tx.bureauId id tx.now (w.view i) =
            s.exec id tx.now (w.view i) := Sql.execSecured_eq hbureau
        rw [if_neg (hwaits.symm ▸ hwait), if_neg hwait]
        cases hr : s.exec id tx.now (w.view i) with
        | ok r => simp only [hexec.trans hr]
        | error e => simp only [hexec.trans hr]

theorem securedServer_perform (hw : w.InBureaus requests) {op : Op} {choice : Choice}
    (hop : op.OfBureau (requests i).bureauId) :
    (securedServer ι).perform i op choice w = (server ι).perform i op choice w := by
  cases choice with
  | granted id now =>
      cases op with
      | sql s => exact runSecured_eq hw hop
      | _ => rfl
  | failed | lost | listed => rfl

theorem World.InBureaus.perform (hw : w.InBureaus requests) {op : Op} {choice : Choice}
    {a : op.Ans} (hop : op.OfBureau (requests i).bureauId)
    (h : w.perform i op choice = some (a, w')) : w'.InBureaus requests :=
  hw.step (fun o ho ↦ by cases ho; exact hop) (World.perform_dbStep h)

/-- The policies change no run: whatever requests there are, and however they are
interleaved, dropped or hit by outages, each step has the same outcome. -/
theorem row_security_transparent (hw : w.Fresh) (events : List (SysEvent ι Choice)) :
    Run.run ((securedServer ι).step Answer.dropped) (serving state requests w) events =
      Run.run (Server.step ι) (serving state requests w) events := by
  have hsame : ∀ i op choice (w : World ι), Op.OfBureau (requests i).bureauId op →
      w.InBureaus requests →
      (securedServer ι).perform i op choice w = (server ι).perform i op choice w :=
    fun i op choice w hop hw ↦ securedServer_perform hw hop
  refine run_congr hsame rfl rfl ?_ ?_ (fun i ↦ (requests i).ofBureau) hw.inBureaus events
  · exact fun i op choice w a w' hop hw h ↦ hw.perform hop h
  · exact fun i w hw ↦ hw.step (by simp) (World.abandon_dbStep i w)

namespace Sample

/-- Two bureaus upload a file, and the first one lists its partners meanwhile. -/
def twoBureaus : Fin 3 → Request
  | 0 => .upload ⟨uuid 1⟩ (uuid 2) multipart
  | 1 => .upload ⟨uuid 7⟩ (uuid 8) multipart
  | 2 => .listPartners ⟨uuid 1⟩

/-- Both uploads have inserted their rows when the list is read. -/
def alternating : List (SysEvent (Fin 3) Choice) :=
  (List.replicate 16 [act 0 3, act 1 4]).flatten ++ List.replicate 3 (act 2 5) ++
    [act 0 5, act 1 6, act 0 5, act 1 6]

theorem twoBureaus_fresh : (World.start [partner, foreignPartner] : World (Fin 3)).Fresh :=
  World.start_fresh (by decide)

end Sample

open Sample in
theorem row_security_transparent_uploads : ∃ s,
    Run.run ((securedServer (Fin 3)).step Answer.dropped)
        (serving Sample.state twoBureaus (World.start [partner, foreignPartner])) alternating =
          some s ∧
      Run.run (Server.step (Fin 3))
        (serving Sample.state twoBureaus (World.start [partner, foreignPartner])) alternating =
          some s ∧
      s.world.db.materials.map MaterialRow.bureauId = [uuid 1, uuid 7] := by
  have hrows : ((Run.run (Server.step (Fin 3))
      (serving Sample.state twoBureaus (World.start [partner, foreignPartner])) alternating).map
        fun s ↦ s.world.db.materials.map MaterialRow.bureauId) = some [uuid 1, uuid 7] := by
    decide +kernel
  obtain ⟨s, hs, hmaterials⟩ := Option.map_eq_some_iff.mp hrows
  exact ⟨s, (row_security_transparent twoBureaus_fresh alternating).trans hs, hs, hmaterials⟩

/-! ## What others do meanwhile -/

omit [Fintype ι] in
/-- A step of another bureau changes no row of the bureau. -/
theorem visibleTo_step {bureauId : Uuid} (hconsistent : w.Consistent)
    (hw : w.InBureaus requests) (hother : (requests i).bureauId ≠ bureauId) {op : Option Op}
    (h : DbStep i op w w') : w'.db.visibleTo bureauId = w.db.visibleTo bureauId := by
  cases h with
  | same hdb => rw [hdb]
  | ended hdb => rw [hdb]
  | began _ _ _ hdb => rw [hdb]
  | wrote _ _ _ _ _ _ _ _ _ hdb => rw [hdb]
  | committed tx _ hopen hdb =>
      have hwithin : w.WritesWithin ⟨(requests i).bureauId, none⟩ i := by
        intro write hwrite
        rw [World.pending_eq_of_tx hopen] at hwrite
        have hbureau := (hw.tx i tx hopen).2 write hwrite
        cases write <;> exact (Scope.holds_eq.mpr ⟨hbureau, fun only h ↦ by cases h⟩)
      have hview : w'.db = w.view i := by rw [hdb, World.view, World.pending_eq_of_tx hopen]
      obtain ⟨hpartners, hmaterials, hjobs⟩ := World.overlay_elsewhere hconsistent hwithin
      rw [← hview] at hpartners hmaterials hjobs
      have houtside {Row : Type} {bureauOf : Row → Uuid} {partnerOf : Row → Uuid}
          {rows rows' : List Row}
          (hrows : rows'.filter (fun row ↦
              !Scope.holds ⟨(requests i).bureauId, none⟩ (bureauOf row) (partnerOf row)) =
            rows.filter fun row ↦
              !Scope.holds ⟨(requests i).bureauId, none⟩ (bureauOf row) (partnerOf row)) :
          rows'.filter (fun row ↦ bureauOf row = bureauId) =
            rows.filter fun row ↦ bureauOf row = bureauId := by
        have himp : ∀ row, decide (bureauOf row = bureauId) = true →
            (!Scope.holds ⟨(requests i).bureauId, none⟩ (bureauOf row) (partnerOf row)) = true := by
          intro row hrow
          rw [decide_eq_true_eq] at hrow
          simp [Scope.holds, hrow, Ne.symm hother]
        rw [← Table.filter_filter_of_imp himp rows', hrows, Table.filter_filter_of_imp himp rows]
      have hbureaus : w'.db.bureaus = w.db.bureaus := by rw [hdb]; rfl
      simp only [Db.visibleTo, hbureaus]
      rw [houtside hpartners, houtside hmaterials, houtside hjobs]

theorem World.InBureaus.of_run (hw : w.Fresh) {t : Sys ι (World ι) Op Op.Ans Answer}
    {events : List (SysEvent ι Choice)}
    (hrun : Run.run (Server.step ι) (serving state requests w) events = some t) :
    t.world.InBureaus requests :=
  invariant_of_run (fun i ↦ (requests i).ofBureau)
    (fun _ _ _ _ _ _ hop hw h ↦ World.InBureaus.perform hw hop h)
    (fun i w hw ↦ hw.step (by simp) (World.abandon_dbStep i w)) hrun hw.inBureaus

/-- While only requests of other bureaus take steps, the committed rows of a
bureau stay as they are. -/
theorem foreign_rows_stay (hw : w.Fresh) {t u : Sys ι (World ι) Op Op.Ans Answer}
    {events later : List (SysEvent ι Choice)}
    (hrun : Run.run (Server.step ι) (serving state requests w) events = some t)
    (hlater : Run.run (Server.step ι) t later = some u) {bureauId : Uuid}
    (hothers : ∀ e ∈ later, (requests e.actor).bureauId ≠ bureauId) :
    u.world.db.visibleTo bureauId = t.world.db.visibleTo bureauId := by
  induction later generalizing t events with
  | nil =>
      cases hlater
      rfl
  | cons e later ih =>
      obtain ⟨t', hstep, hrest⟩ := Run.run_eq_some_cons.mp hlater
      have hrun' : Run.run (Server.step ι) (serving state requests w) (events ++ [e]) =
          some t' := by
        rw [Run.run_append, hrun]
        exact Run.run_eq_some_cons.mpr ⟨t', hstep, rfl⟩
      rw [ih hrun' hrest fun e' he' ↦ hothers e' (List.mem_cons_of_mem _ he')]
      have hconsistent := (serves_of_run hw.serves hrun).1.inv.consistent
      have hin := World.InBureaus.of_run hw hrun
      have hother := hothers e List.mem_cons_self
      cases steps_of_step hstep with
      | act hcall hperform =>
          exact visibleTo_step hconsistent hin hother (World.perform_dbStep hperform)
      | abandon hcall => exact visibleTo_step hconsistent hin hother (World.abandon_dbStep _ _)
      | underWay hcall hdetached =>
          exact visibleTo_step hconsistent hin hother (World.abandon_dbStep _ _)

/-- A material is uploaded next to a partner of another bureau. -/
theorem foreign_rows_stay_upload : ∃ u,
    Run.run (Server.step (Fin 3)) (serving Sample.state Sample.requests
        (World.start [Sample.partner, Sample.foreignPartner])) Sample.events = some u ∧
      u.world.db.visibleTo (Sample.uuid 7) =
        ⟨[Sample.uuid 7], [Sample.foreignPartner], [], []⟩ := by
  obtain ⟨u, hu⟩ := Option.isSome_iff_exists.mp
    (show (Run.run (Server.step (Fin 3)) (serving Sample.state Sample.requests
        (World.start [Sample.partner, Sample.foreignPartner])) Sample.events).isSome = true by
      decide +kernel)
  have hothers : ∀ e ∈ Sample.events, (Sample.requests e.actor).bureauId ≠ Sample.uuid 7 := by
    decide
  exact ⟨u, hu, foreign_rows_stay Sample.twoBureaus_fresh (Run.run_nil _ _) hu hothers⟩

end Runs

end Otdel
