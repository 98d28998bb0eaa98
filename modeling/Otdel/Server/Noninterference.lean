import Otdel.Server.Isolation

/-!
# Noninterference

From two reachable states with the same rows and objects of a scope, a request of
the scope gets the same answer and leaves the same rows and objects of the scope.
What lies outside is as it was.
-/

namespace Otdel

open Program Versions Machine

section Requests

variable {ι : Type} {state : AppState} {s : Scope} {i : ι} {request : Request}

/-- A request under a session of the bureau, and about the partner if the scope
is one of a partner. -/
def Request.Within (s : Scope) : Request → Prop
  | .listPartners session => session.bureauId = s.bureauId ∧ s.partnerId = none
  | .createPartner session _ => session.bureauId = s.bureauId ∧ s.partnerId = none
  | .showPartner session partnerId => s.holds session.bureauId partnerId = true
  | .updatePartner session partnerId _ => s.holds session.bureauId partnerId = true
  | .listMaterials session partnerId => s.holds session.bureauId partnerId = true
  | .upload session partnerId _ => s.holds session.bureauId partnerId = true
  | .download session partnerId _ => s.holds session.bureauId partnerId = true
  | .retry session partnerId _ => s.holds session.bureauId partnerId = true
  | .listJobs session partnerId => s.holds session.bureauId partnerId = true
  | .maintenance _ _ => False
  | .worker _ _ => False

instance Request.decidableWithin (s : Scope) (request : Request) :
    Decidable (request.Within s) := by
  cases request <;> unfold Request.Within <;> infer_instance

variable [Fintype ι] [DecidableEq ι] {requests : ι → Request} {w w' : World ι}

theorem stays_program (h : request.Within s) :
    StaysIn state.store requests s i (fun _ _ ↦ True) (request.program state) w := by
  have hplain : ∀ {p : TryProg ApiError Response},
      Calls (Op.AlwaysAbout state.store s i) p →
        StaysIn state.store requests s i (fun _ _ ↦ True)
          (Program.bind p fun r ↦ .done (Answer.response r)) w :=
    fun hp ↦ stays_of_calls (hp.bind fun _ ↦ trivial)
  cases request with
  | listPartners session =>
      exact hplain (Routes.calls_listPartners (about_brackets _) (about_sql fun _ ↦ h))
  | createPartner session payload =>
      exact hplain (Routes.calls_createPartner (about_brackets _) fun _ _ _ _ ↦
        about_sql fun _ ↦ h)
  | showPartner session partnerId =>
      exact hplain (Routes.calls_showPartner (about_brackets _) (about_sql fun _ ↦ h))
  | updatePartner session partnerId payload =>
      exact hplain (Routes.calls_updatePartner (about_brackets _) fun _ _ ↦ about_sql fun _ ↦ h)
  | listMaterials session partnerId =>
      exact hplain (Routes.calls_listMaterials (about_brackets _) (about_sql fun _ ↦ h)
        (about_sql fun _ ↦ h))
  | upload session partnerId multipart =>
      exact (stays_upload h multipart).bind fun _ _ _ ↦ trivial
  | download session partnerId materialId => exact (stays_download h).bind fun _ _ _ ↦ trivial
  | retry session partnerId materialId => exact (stays_retry h).bind fun _ _ _ ↦ trivial
  | listJobs session partnerId =>
      exact hplain (Routes.calls_listJobs (about_brackets _) (about_sql fun _ ↦ h)
        (about_sql fun _ ↦ h))
  | maintenance | worker => exact h.elim

/-! ## A request that has not started -/

/-- Only the request itself draws staging names for it. -/
theorem drawnBy_perform {j : ι} {op : Op} {choice : Choice} {a : op.Ans}
    (h : w.perform j op choice = some (a, w')) {name : Uuid} {k : ι}
    (hname : w'.drawnBy name = some k) : w.drawnBy name = some k ∨ k = j := by
  cases hop : op.keepsGuard with
  | true => exact Or.inl (by rwa [(guard_perform hop h).2] at hname)
  | false =>
      cases op with
      | dropGuard =>
          cases choice with
          | granted id now =>
              cases h
              exact Or.inl (by rwa [(World.filesKept_releaseGuard w j).drawnBy] at hname)
          | failed | lost | listed => cases h
      | disarmGuard =>
          cases choice with
          | granted id now =>
              cases h
              exact Or.inl hname
          | failed | lost | listed => cases h
      | armStaging =>
          cases choice with
          | granted fresh now =>
              simp only [World.perform, World.grant] at h
              split at h
              · have hw' := congrArg Prod.snd (Option.some.inj h)
                dsimp only at hw'
                subst hw'
                change Function.update w.drawnBy fresh (some j) name = some k at hname
                rw [Function.update_apply] at hname
                split at hname
                · exact Or.inr (Option.some.inj hname).symm
                · exact Or.inl hname
              · cases h
          | failed | lost | listed => cases h
      | _ => cases hop

theorem not_drawn_of_run {t u : Sys ι (World ι) Op Op.Ans Answer}
    {events : List (SysEvent ι Choice)} (hevents : ∀ e ∈ events, e.actor ≠ i)
    (hrun : Run.run (Server.step ι) t events = some u)
    (ht : ∀ name, t.world.drawnBy name ≠ some i) : ∀ name, u.world.drawnBy name ≠ some i := by
  induction events generalizing t with
  | nil =>
      cases hrun
      exact ht
  | cons e events ih =>
      obtain ⟨t', hstep, hrest⟩ := Run.run_eq_some_cons.mp hrun
      have hactor := hevents e List.mem_cons_self
      refine ih (fun e' he' ↦ hevents e' (List.mem_cons_of_mem _ he')) hrest fun name hname ↦ ?_
      cases steps_of_step hstep with
      | act hcall hperform =>
          rcases drawnBy_perform hperform hname with hold | heq
          · exact ht name hold
          · exact hactor heq.symm
      | abandon hcall =>
          change (World.abandon _ _).drawnBy name = some i at hname
          rw [(World.filesKept_abandon _ _).drawnBy] at hname
          exact ht name hname
      | underWay hcall hdetached =>
          change (World.abandon _ _).drawnBy name = some i at hname
          rw [(World.filesKept_abandon _ _).drawnBy] at hname
          exact ht name hname

/-- The request has not started: nothing is at hand. -/
structure World.AtRest (i : ι) (w : World ι) : Prop where
  tx : w.tx i = none
  drawnBy : ∀ name, w.drawnBy name ≠ some i

omit [Fintype ι] [DecidableEq ι] in
theorem World.AtRest.mirrors {v : World ι} (hw : w.AtRest i) (hv : v.AtRest i)
    (h : w.Agrees state.store s (· = i) v) : w.Mirrors state.store s (· = i) v where
  agrees := h
  tx j hj := by
    subst hj
    rw [hw.tx, hv.tx]
  drawnBy j hj name := by
    subst hj
    exact iff_of_false (hw.drawnBy name) (hv.drawnBy name)
  staging j hj name hname := by
    subst hj
    exact absurd hname (hw.drawnBy name)
  guard j hj name hname := by
    subst hj
    exact absurd hname (hw.drawnBy name)

/-! ## One request -/

/-- What every operation of a play meets. -/
def Meeting (store : Store) (requests : ι → Request) (s : Scope) (i : ι) (op : Op)
    (choice : Choice) (w : World ι) : Prop :=
  Kept store requests w ∧ op.About store s i w ∧ op.NewId s choice w

theorem meets_program (hinv : Kept state.store requests w)
    (hsafe : Safe state.store requests i (Finished state requests i) (request.program state) w)
    (hrequest : request.Within s) {choices : List Choice}
    (hnew : (server ι).Meets i (Op.NewId s) (request.program state) choices w) :
    (server ι).Meets i (Meeting state.store requests s i) (request.program state) choices w :=
  (stays_program hrequest).meets (Safe.meets hinv hsafe) hnew

/-- Nothing outside the scope changes. -/
theorem elsewhere_of_play {α : Type} {p : Prog α} {choices : List Choice} {a : α}
    (hwrites : w.WritesWithin s i)
    (hmeets : (server ι).Meets i (Meeting state.store requests s i) p choices w)
    (hplay : (server ι).play i p choices w = some (a, w')) :
    w.Elsewhere state.store s i w' := by
  refine play_keeps (World.Elsewhere state.store s i) World.Elsewhere.refl
    (fun h h' ↦ h.trans h') (World.WritesWithin s i) ?_ hwrites hmeets hplay
  rintro op choice w a w' hwrites ⟨hinv, habout, -⟩ hperform
  exact ⟨World.writesWithin_perform hwrites habout hperform,
    World.elsewhere_perform hinv.consistent hwrites habout hperform⟩

/-- Both states answer alike. -/
theorem alike_of_play {α : Type} {p : Prog α} {choices : List Choice} {v : World ι}
    {requests' : ι → Request} (h : w.Mirrors state.store s (· = i) v)
    (hmeets : (server ι).Meets i (Meeting state.store requests s i) p choices w)
    (hmeets' : (server ι).Meets i (Meeting state.store requests' s i) p choices v) :
    Option.Rel (Alike (World.Mirrors state.store s (· = i))) ((server ι).play i p choices w)
      ((server ι).play i p choices v) := by
  refine play_alike ?_ h hmeets hmeets'
  rintro op choice w v h ⟨hw, habout, hnew⟩ ⟨hv, habout', hnew'⟩
  exact h.perform rfl hw.consistent hv.consistent habout habout' hnew hnew'

/-- A reachable state in which a request has not started. -/
structure Arrives (state : AppState) (requests : ι → Request) (i : ι) (request : Request)
    (w : World ι) : Prop where
  inv : Kept state.store requests w
  safe : Safe state.store requests i (Finished state requests i) (request.program state) w
  atRest : w.AtRest i

theorem arrives_of_run {t : Sys ι (World ι) Op Op.Ans Answer} (hw : w.Fresh)
    {events : List (SysEvent ι Choice)}
    (hrun : Run.run (Server.step ι) (serving state requests w) events = some t)
    (hevents : ∀ e ∈ events, e.actor ≠ i) : Arrives state requests i (requests i) t.world := by
  obtain ⟨hserves, -⟩ := serves_of_run hw.serves hrun
  obtain ⟨hprocs, hrely⟩ := AllSafe.untouched hw.serves droppable
    (fun i j op w w' hj hguar ↦ rely_of_guar i j op w w' hj hguar) hevents hrun
  refine ⟨hserves.inv, ?_, ?_, ?_⟩
  · have hsafe := hserves.safe i
    rw [hprocs] at hsafe
    exact hsafe
  · exact hrely.tx_none (hw.tx i)
  · exact not_drawn_of_run hevents hrun fun name hname ↦ by
      rw [serving, hw.drawnBy name] at hname
      cases hname

/-- Tenants do not see each other: from two reachable states with the same rows
and objects of a scope, a request of the scope is answered alike, with the same
rows and objects of the scope left, and nothing outside is changed. -/
theorem tenant_noninterference {w v : World ι} (hw : w.Fresh) (hv : v.Fresh)
    {requests requests' : ι → Request} {events events' : List (SysEvent ι Choice)}
    {t u : Sys ι (World ι) Op Op.Ans Answer}
    (hrun : Run.run (Server.step ι) (serving state requests w) events = some t)
    (hrun' : Run.run (Server.step ι) (serving state requests' v) events' = some u)
    (hevents : ∀ e ∈ events, e.actor ≠ i) (hevents' : ∀ e ∈ events', e.actor ≠ i)
    (hrequest : requests i = request) (hrequest' : requests' i = request)
    (hwithin : request.Within s) (hagree : t.world.Agrees state.store s (· = i) u.world)
    {choices : List Choice}
    (hnew : (server ι).Meets i (Op.NewId s) (request.program state) choices t.world)
    (hnew' : (server ι).Meets i (Op.NewId s) (request.program state) choices u.world) :
    Option.Rel (Alike (World.Agrees state.store s (· = i)))
        ((server ι).play i (request.program state) choices t.world)
        ((server ι).play i (request.program state) choices u.world) ∧
      ∀ a w', (server ι).play i (request.program state) choices t.world = some (a, w') →
        t.world.Elsewhere state.store s i w' := by
  obtain ⟨hinv, hsafe, hatRest⟩ := arrives_of_run hw hrun hevents
  obtain ⟨hinv', hsafe', hatRest'⟩ := arrives_of_run hv hrun' hevents'
  rw [hrequest] at hsafe
  rw [hrequest'] at hsafe'
  have hmeets := meets_program hinv hsafe hwithin hnew
  have hmeets' := meets_program hinv' hsafe' hwithin hnew'
  constructor
  · exact Alike.mono (fun _ _ h ↦ h.agrees)
      (alike_of_play (hatRest.mirrors hatRest' hagree) hmeets hmeets')
  · intro a w' hplay
    refine elsewhere_of_play ?_ hmeets hplay
    intro write hwrite
    simp [World.pending, hatRest.tx] at hwrite

end Requests

/-! ## Two bureaus -/

namespace Sample

/-- A partner of another bureau, under the same name. -/
def foreignPartner : PartnerRow := { partner with id := uuid 8, bureauId := uuid 7 }

def creation : Fin 2 → Request := fun _ ↦ .createPartner ⟨uuid 1⟩ ⟨"second".toList, none⟩

def bureau : Scope := ⟨uuid 1, none⟩

def creationChoices : List Choice := List.replicate 3 (.granted (uuid 9) 0)

theorem own_fresh : (World.start [partner] : World (Fin 2)).Fresh :=
  World.start_fresh (List.nodup_singleton _)

theorem foreign_fresh : (World.start [partner, foreignPartner] : World (Fin 2)).Fresh :=
  World.start_fresh (by decide)

theorem starts_agree : (World.start [partner, foreignPartner] : World (Fin 2)).Agrees state.store
    bureau (· = 0) (World.start [partner]) where
  db := ⟨by decide, List.Perm.refl _, List.Perm.refl _, List.Perm.refl _⟩
  uncommitted write _ := by simp [World.start, World.pending]
  objects path _ := rfl

theorem creation_meets {partners : List PartnerRow} (hids : ∀ r ∈ partners, r.id ≠ uuid 9) :
    (server (Fin 2)).Meets 0 (Op.NewId bureau) ((creation 0).program state) creationChoices
      (World.start partners) := by
  refine ⟨trivial, fun r hr ↦ ?_⟩
  cases hr
  refine ⟨fun row hrow hid ↦ ?_, fun r hr ↦ ?_⟩
  · -- The transaction has just begun: only the committed rows are known.
    obtain ⟨j, hrow | ⟨v, hv, rfl⟩⟩ := hrow
    · exact absurd hid (hids row hrow)
    · fin_cases j <;> cases hv
  · obtain ⟨a, w'⟩ := r
    cases a with
    | error e => trivial
    | ok row =>
        refine ⟨trivial, fun r hr ↦ ?_⟩
        obtain ⟨a, w'⟩ := r
        cases a <;> trivial

/-- A bureau creates a partner. -/
def created (partners : List PartnerRow) : Option (Answer × World (Fin 2)) :=
  (server (Fin 2)).play 0 ((creation 0).program state) creationChoices (World.start partners)

end Sample

open Sample in
/-- A partner of another bureau makes no difference, and stays as it is. -/
theorem creation_undisturbed : ∃ (a : Answer) (w' v' : World (Fin 2)),
    created [partner, foreignPartner] = some (a, w') ∧ created [partner] = some (a, v') ∧
      w'.Agrees state.store bureau (· = 0) v' ∧
      World.Elsewhere state.store bureau 0 (World.start [partner, foreignPartner]) w' := by
  have hrun (partners : List PartnerRow) :
      Run.run (Server.step (Fin 2)) (serving state creation (World.start partners)) [] =
        some (serving state creation (World.start partners)) := rfl
  obtain ⟨hsame, hrest⟩ : Option.Rel (Alike (World.Agrees state.store bureau (· = 0)))
        (created [partner, foreignPartner]) (created [partner]) ∧
      ∀ a w', created [partner, foreignPartner] = some (a, w') →
        World.Elsewhere state.store bureau 0 (World.start [partner, foreignPartner]) w' :=
    tenant_noninterference foreign_fresh own_fresh (hrun _) (hrun _) (by simp) (by simp) rfl rfl
      (by decide) starts_agree (creation_meets (by decide)) (creation_meets (by decide))
  have hplay : ∃ r, created [partner, foreignPartner] = some r := ⟨_, rfl⟩
  obtain ⟨⟨a, w'⟩, hplay⟩ := hplay
  have hother := hrest a w' hplay
  rw [hplay] at hsame
  cases hv : created [partner] with
  | none =>
      rw [hv] at hsame
      cases hsame
  | some r =>
      rw [hv] at hsame
      cases hsame with
      | some h =>
          obtain ⟨b, v'⟩ := r
          obtain ⟨rfl, hagrees⟩ := h
          exact ⟨_, w', v', hplay, rfl, hagrees, hother⟩

end Otdel
