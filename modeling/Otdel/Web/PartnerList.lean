import Otdel.Web.Workspace

/-!
# Each partner once

A list replaces the partners and an edit keeps their ids.  What appends is the
answer to a create, and that of a restore which no later render has cancelled;
neither looks at the list it appends to.
-/

namespace Otdel.Web

open Run

namespace Page

/-- No two entries of the list have the same id. -/
def UniqueIds (s : Page) : Prop := s.ids.Nodup

/-- The event appends this partner to the list. -/
inductive Appends (s : Page) : PageEvent → Partner → Prop
  | created {number : ℕ} {flight : Flight} {name : String} {note : Option String}
      {partner : Partner} (hflight : s.flight? number = some flight)
      (hrequest : flight.request = .create name note)
      (hanswer : flight.answer = some (.ok (.partner partner))) :
      Appends s (.respond number none) partner
  | restored {number : ℕ} {flight : Flight} {partnerId : String} {partner : Partner}
      (hflight : s.flight? number = some flight) (hrequest : flight.request = .restore partnerId)
      (hanswer : flight.answer = some (.ok (.partner partner)))
      (hactive : s.restoring = some number) : Appends s (.respond number none) partner

/-- No partner is appended to a list that has it already. -/
def AppendsNew (s : Page) (e : PageEvent) : Prop := ∀ p, s.Appends e p → p.id ∉ s.ids

/-- Every list that the server has, or has answered with, has each id once. -/
structure Served (s : Page) : Prop where
  server : (s.server.map Partner.id).Nodup
  answers : ∀ flight ∈ s.inFlight, ∀ items, flight.answer = some (.ok (.items items)) →
    (items.map Partner.id).Nodup

variable {s s' : Page} {e : PageEvent} {number : ℕ}

theorem served_initial (partnerId : Option String) {server : List Partner}
    (h : (server.map Partner.id).Nodup) : (initial partnerId server).Served where
  server := h
  answers := by
    intro flight hflight items hanswer
    simp only [initial, loadPartners, send, List.mem_singleton] at hflight
    rw [hflight] at hanswer
    cases hanswer

theorem Served.congr (h : s.Served) (hserver : s'.server = s.server)
    (hflights : s'.inFlight = s.inFlight) : s'.Served := by
  constructor
  · rw [hserver]
    exact h.server
  · rw [hflights]
    exact h.answers

theorem Served.send (h : s.Served) (request : PageRequest) : (s.send request).Served where
  server := h.server
  answers flight hflight items hanswer := by
    rcases List.mem_cons.mp hflight with rfl | hflight
    · cases hanswer
    · exact h.answers flight hflight items hanswer

theorem Served.landed (h : s.Served) (number : ℕ) : (s.landed number).Served where
  server := h.server
  answers flight hflight := h.answers flight (List.mem_of_mem_filter hflight)

theorem Served.answered (h : s.Served) (number : ℕ) {answer : Except Failure Answer}
    (hanswer : ∀ items, answer = .ok (.items items) → (items.map Partner.id).Nodup) :
    (s.answered number answer).Served where
  server := h.server
  answers flight hflight items hitems := by
    obtain ⟨before, hbefore, rfl⟩ := List.mem_map.mp hflight
    split at hitems
    · exact hanswer items (Option.some.inj hitems)
    · exact h.answers before hbefore items hitems

/-- A replaced partner keeps its id. -/
theorem map_id_replace (updated : Partner) (partners : List Partner) :
    (partners.map fun p ↦ if p.id = updated.id then updated else p).map Partner.id =
      partners.map Partner.id := by
  rw [List.map_map]
  refine List.map_congr_left fun p _ ↦ ?_
  by_cases hp : p.id = updated.id
  · simp [hp]
  · simp [hp]

@[simp] theorem ids_append (partner : Partner) (s : Page) :
    (s.append partner).ids = s.ids ++ [partner.id] := by
  simp [ids, append, setPartners]

theorem uniqueIds_append {partner : Partner} :
    (s.append partner).UniqueIds ↔ s.UniqueIds ∧ partner.id ∉ s.ids := by
  rw [UniqueIds, ids_append, ← List.concat_eq_append, List.nodup_concat, and_comm]
  rfl

theorem runEffect_ids (s : Page) : s.runEffect.ids = s.ids := by
  unfold runEffect
  split
  · split
    · rfl
    · split <;> rfl
  · rfl

theorem runEffect_served (h : s.Served) : s.runEffect.Served := by
  unfold runEffect
  split
  · split
    · exact h
    · split
      · exact h.congr rfl rfl
      · have hsame : ({ s with restoring := some s.next } : Page).Served := h.congr rfl rfl
        exact hsame.send _
  · exact h

theorem render_ids (s : Page) : s.render.ids = s.ids := by
  unfold render
  dsimp only
  split
  · exact runEffect_ids _
  · rfl

theorem render_served (h : s.Served) : s.render.Served := by
  unfold render
  dsimp only
  split
  · exact runEffect_served (h.congr rfl rfl)
  · exact h.congr rfl rfl

/-- Only the list of partners and the link are set by a continuation. -/
theorem settle_congr (request : PageRequest) (outcome : Except Failure Answer) (s : Page) :
    (s.settle number request outcome).server = s.server ∧
      (s.settle number request outcome).inFlight = s.inFlight := by
  unfold settle
  split
  · exact ⟨rfl, rfl⟩
  · exact ⟨rfl, rfl⟩
  · split <;> exact ⟨rfl, rfl⟩
  · split
    · exact ⟨rfl, rfl⟩
    · split <;> exact ⟨rfl, rfl⟩
  · exact ⟨rfl, rfl⟩
  · unfold replace
    split <;> exact ⟨rfl, rfl⟩
  · exact ⟨rfl, rfl⟩

/-- A request that fails leaves the list as it is. -/
theorem settle_error_ids (request : PageRequest) (error : Failure) (s : Page) :
    (s.settle number request (.error error)).ids = s.ids := by
  cases request with
  | list => rfl
  | restore partnerId =>
      simp only [settle]
      split
      · rfl
      · split <;> rfl
  | create name note => rfl
  | edit partnerId name note => rfl

theorem replace_ids (updated : Partner) (s : Page) : (s.replace updated).ids = s.ids := by
  unfold replace
  split
  · rename_i prev hprev
    simp only [ids, setPartners, hprev, Option.getD_some]
    exact map_id_replace updated prev
  · rfl

theorem serve_served {server server' : List Partner} {newId : String} {request : PageRequest}
    {answer : Except Failure Answer} (h : (server.map Partner.id).Nodup)
    (hserve : serve server newId request = some (answer, server')) :
    (server'.map Partner.id).Nodup ∧
      ∀ items, answer = .ok (.items items) → (items.map Partner.id).Nodup := by
  cases request with
  | list =>
      cases hserve
      exact ⟨h, fun items hitems ↦ by cases hitems; exact h⟩
  | restore partnerId =>
      simp only [serve] at hserve
      split at hserve <;>
      · cases hserve
        exact ⟨h, nofun⟩
  | create name note =>
      obtain ⟨hnew, heq⟩ := Option.ite_none_left_eq_some.mp hserve
      cases heq
      refine ⟨?_, nofun⟩
      rw [List.map_append, List.map_singleton, ← List.concat_eq_append, List.nodup_concat]
      exact ⟨hnew, h⟩
  | edit partnerId name note =>
      simp only [serve] at hserve
      split at hserve
      · cases hserve
        refine ⟨?_, nofun⟩
        exact (map_id_replace ⟨partnerId, name, note⟩ server).symm ▸ h
      · cases hserve
        exact ⟨h, nofun⟩

theorem mem_of_flight? {flight : Flight} (h : s.flight? number = some flight) :
    flight ∈ s.inFlight := List.mem_of_find?_eq_some h

/-- The lists under way stay lists of the server. -/
theorem served_pageStep (h : s.Served) (hstep : pageStep s e = some s') : s'.Served := by
  cases e with
  | render =>
      cases hstep
      exact render_served h
  | retry =>
      obtain ⟨-, heq⟩ := Option.ite_none_left_eq_some.mp hstep
      cases heq
      have hsame : ({ s with partnersError := none } : Page).Served := h.congr rfl rfl
      exact hsame.send _
  | navigate partnerId =>
      cases hstep
      exact h.congr rfl rfl
  | select partner =>
      obtain ⟨-, heq⟩ := Option.ite_none_right_eq_some.mp hstep
      cases heq
      exact h.congr rfl rfl
  | submitCreate name note =>
      cases hstep
      exact h.send _
  | submitEdit name note =>
      obtain ⟨partner, -, rfl⟩ := Option.map_eq_some_iff.mp hstep
      exact h.send _
  | process number outcome =>
      obtain ⟨flight, hflight, hrest⟩ := Option.bind_eq_some_iff.mp hstep
      obtain ⟨-, hrest⟩ := Option.ite_none_left_eq_some.mp hrest
      cases outcome with
      | error error =>
          cases hrest
          exact h.answered number nofun
      | ok newId =>
          obtain ⟨⟨answer, server⟩, hserve, rfl⟩ := Option.map_eq_some_iff.mp hrest
          obtain ⟨hserver, hanswer⟩ := serve_served h.server hserve
          exact ⟨hserver, (h.answered number hanswer).answers⟩
  | respond number lost =>
      obtain ⟨flight, hflight, hrest⟩ := Option.bind_eq_some_iff.mp hstep
      split at hrest
      · cases hrest
        obtain ⟨hserver, hflights⟩ := settle_congr flight.request _ (s.landed number)
        exact (h.landed number).congr hserver hflights
      · cases hrest
        obtain ⟨hserver, hflights⟩ := settle_congr flight.request _ (s.landed number)
        exact (h.landed number).congr hserver hflights
      · cases hrest
  | elsewhere server =>
      obtain ⟨hserver, heq⟩ := Option.ite_none_right_eq_some.mp hstep
      cases heq
      exact ⟨hserver, h.answers⟩

theorem appendsNew_of_ne (h : ∀ number, e ≠ .respond number none) : s.AppendsNew e := by
  intro p happends
  cases happends with
  | created => exact absurd rfl (h _)
  | restored => exact absurd rfl (h _)

/-- The answer that a response brings is appended to the list. -/
theorem appends_iff {flight : Flight} {answer : Except Failure Answer} {partner : Partner}
    (hflight : s.flight? number = some flight) (hanswer : flight.answer = some answer) :
    s.Appends (.respond number none) partner ↔ answer = .ok (.partner partner) ∧
      ((∃ name note, flight.request = .create name note) ∨
        (∃ partnerId, flight.request = .restore partnerId) ∧ s.restoring = some number) := by
  constructor
  · intro h
    cases h with
    | created hflight' hrequest hanswer' =>
        obtain rfl := Option.some.inj (hflight.symm.trans hflight')
        exact ⟨Option.some.inj (hanswer.symm.trans hanswer'), .inl ⟨_, _, hrequest⟩⟩
    | restored hflight' hrequest hanswer' hactive =>
        obtain rfl := Option.some.inj (hflight.symm.trans hflight')
        exact ⟨Option.some.inj (hanswer.symm.trans hanswer'), .inr ⟨⟨_, hrequest⟩, hactive⟩⟩
  · rintro ⟨rfl, ⟨name, note, hrequest⟩ | ⟨⟨partnerId, hrequest⟩, hactive⟩⟩
    · exact .created hflight hrequest hanswer
    · exact .restored hflight hrequest hanswer hactive

/-- A response keeps the ids apart exactly when it appends a new one. -/
theorem uniqueIds_settle_iff (h : s.Served) (hunique : s.UniqueIds) {flight : Flight}
    {answer : Except Failure Answer} (hflight : s.flight? number = some flight)
    (hanswer : flight.answer = some answer) :
    (Page.settle number flight.request answer (s.landed number)).UniqueIds ↔
      s.AppendsNew (.respond number none) := by
  have hquiet (hids : (Page.settle number flight.request answer (s.landed number)).ids.Nodup)
      (hnone : ∀ p, ¬ s.Appends (.respond number none) p) :
      (Page.settle number flight.request answer (s.landed number)).UniqueIds ↔
        s.AppendsNew (.respond number none) :=
    iff_of_true hids fun p happends ↦ absurd happends (hnone p)
  cases answer with
  | error error =>
      refine hquiet ?_ fun p happends ↦ nomatch ((appends_iff hflight hanswer).mp happends).1
      rw [settle_error_ids]
      exact hunique
  | ok answer =>
      cases answer with
      | items items =>
          refine hquiet ?_ fun p happends ↦ nomatch ((appends_iff hflight hanswer).mp happends).1
          cases flight.request with
          | list => exact h.answers flight (mem_of_flight? hflight) items hanswer
          | restore | create | edit => exact hunique
      | partner partner =>
          have happends : s.AppendsNew (.respond number none) ↔
              ((∃ name note, flight.request = .create name note) ∨
                (∃ partnerId, flight.request = .restore partnerId) ∧
                  s.restoring = some number) → partner.id ∉ s.ids := by
            constructor
            · exact fun hnew hkind ↦ hnew partner ((appends_iff hflight hanswer).mpr ⟨rfl, hkind⟩)
            · intro hnew p hp
              obtain ⟨heq, hkind⟩ := (appends_iff hflight hanswer).mp hp
              cases heq
              exact hnew hkind
          have happended : ((s.landed number).append partner).UniqueIds ↔ partner.id ∉ s.ids :=
            uniqueIds_append.trans (and_iff_right hunique)
          rw [happends]
          cases flight.request with
          | list => exact iff_of_true hunique (by simp)
          | restore partnerId =>
              by_cases hactive : s.restoring = some number
              · rw [settle, if_pos (show (s.landed number).restoring = some number from hactive),
                  happended]
                simp [hactive]
              · rw [settle, if_neg (show (s.landed number).restoring ≠ some number from hactive)]
                exact iff_of_true hunique (by simp [hactive])
          | create name note =>
              refine happended.trans ?_
              simp
          | edit partnerId name note =>
              refine iff_of_true ?_ (by simp)
              rw [settle, UniqueIds, replace_ids]
              exact hunique

/-- A step keeps the ids apart exactly when it appends a new one. -/
theorem uniqueIds_pageStep_iff (h : s.Served) (hunique : s.UniqueIds)
    (hstep : pageStep s e = some s') : s'.UniqueIds ↔ s.AppendsNew e := by
  have hsame (hids : s'.ids = s.ids) (hne : ∀ number, e ≠ .respond number none) :
      s'.UniqueIds ↔ s.AppendsNew e := by
    refine iff_of_true ?_ (appendsNew_of_ne hne)
    rw [UniqueIds, hids]
    exact hunique
  cases e with
  | render =>
      cases hstep
      exact hsame (render_ids s) nofun
  | retry =>
      obtain ⟨-, heq⟩ := Option.ite_none_left_eq_some.mp hstep
      cases heq
      exact hsame rfl nofun
  | navigate partnerId =>
      cases hstep
      exact hsame rfl nofun
  | select partner =>
      obtain ⟨-, heq⟩ := Option.ite_none_right_eq_some.mp hstep
      cases heq
      exact hsame rfl nofun
  | submitCreate name note =>
      cases hstep
      exact hsame rfl nofun
  | submitEdit name note =>
      obtain ⟨partner, -, rfl⟩ := Option.map_eq_some_iff.mp hstep
      exact hsame rfl nofun
  | process number outcome =>
      obtain ⟨flight, hflight, hrest⟩ := Option.bind_eq_some_iff.mp hstep
      obtain ⟨-, hrest⟩ := Option.ite_none_left_eq_some.mp hrest
      cases outcome with
      | error error =>
          cases hrest
          exact hsame rfl nofun
      | ok newId =>
          obtain ⟨r, -, rfl⟩ := Option.map_eq_some_iff.mp hrest
          exact hsame rfl nofun
  | respond number lost =>
      obtain ⟨flight, hflight, hrest⟩ := Option.bind_eq_some_iff.mp hstep
      cases lost with
      | some error =>
          cases hrest
          exact hsame (settle_error_ids flight.request error _) nofun
      | none =>
          cases hanswer : flight.answer with
          | none =>
              rw [hanswer] at hrest
              cases hrest
          | some answer =>
              rw [hanswer] at hrest
              cases hrest
              exact uniqueIds_settle_iff h hunique hflight hanswer
  | elsewhere server =>
      obtain ⟨-, heq⟩ := Option.ite_none_right_eq_some.mp hstep
      cases heq
      exact hsame rfl nofun

end Page

/-- Each partner is shown once throughout a run exactly when every answer to a
create, and every restore that is not cancelled, appends a partner that the list
does not have. -/
theorem partners_unique_iff (partnerId : Option String) {server : List Partner}
    (hserver : (server.map Partner.id).Nodup) (events : List PageEvent) :
    Throughout pageStep Page.UniqueIds (Page.initial partnerId server) events ↔
      Along pageStep (fun s e _ ↦ s.AppendsNew e) (Page.initial partnerId server) events := by
  have hunique : (Page.initial partnerId server).UniqueIds := List.nodup_nil
  rw [throughout_iff_along hunique]
  refine @along_congr _ _ _ (fun s ↦ s.Served ∧ s.UniqueIds) (fun _ ↦ True) _ _ _ _ ?_ ?_
    (fun _ _ ↦ trivial) ⟨Page.served_initial partnerId hserver, hunique⟩
  · intro s e s' _ h hstep hgood
    exact ⟨Page.served_pageStep h.1 hstep, hgood⟩
  · intro s e s' _ h hstep
    exact Page.uniqueIds_pageStep_iff h.1 h.2 hstep

/-- A partner is created while the list is loading; the list has it, and arrives
first. -/
def earlyCreate : List PageEvent :=
  [.submitCreate "Ромашка" none, .process 1 (.ok "p"), .process 0 (.ok ""), .respond 0 none,
    .render, .respond 1 none]

/-- The same, with the responses in the other order. -/
def lateList : List PageEvent :=
  [.submitCreate "Ромашка" none, .process 1 (.ok "p"), .process 0 (.ok ""), .respond 1 none,
    .render, .respond 0 none]

/-- The list, which comes after the answer to the create, replaces what this has
appended. -/
theorem partners_unique_iff_late_list :
    Throughout pageStep Page.UniqueIds (Page.initial none [⟨"q", "Василёк", none⟩]) lateList ∧
      (run pageStep (Page.initial none [⟨"q", "Василёк", none⟩]) lateList).map Page.ids =
        some ["q", "p"] := by
  refine ⟨(partners_unique_iff none (by decide) lateList).mpr ?_, by decide⟩
  refine (along_cons_iff rfl).mpr ⟨Page.appendsNew_of_ne (by simp), ?_⟩
  refine (along_cons_iff rfl).mpr ⟨Page.appendsNew_of_ne (by simp), ?_⟩
  refine (along_cons_iff rfl).mpr ⟨Page.appendsNew_of_ne (by simp), ?_⟩
  refine (along_cons_iff rfl).mpr ⟨fun p happends ↦ ?_, ?_⟩
  · -- no partner is shown when the one that was created is appended
    exact List.not_mem_nil
  refine (along_cons_iff rfl).mpr ⟨Page.appendsNew_of_ne (by simp), ?_⟩
  refine (along_cons_iff rfl).mpr ⟨fun p happends ↦ ?_, trivial⟩
  · obtain ⟨hitems, -⟩ := (Page.appends_iff rfl rfl).mp happends
    cases hitems

theorem early_create_shown_twice : ∃ s,
    run pageStep (Page.initial none []) earlyCreate = some s ∧ s.ids = ["p", "p"] ∧
      ¬ Throughout pageStep Page.UniqueIds (Page.initial none []) earlyCreate := by
  have hrun : ∃ s, run pageStep (Page.initial none []) earlyCreate = some s ∧ s.ids = ["p", "p"] :=
    ⟨_, rfl, by decide⟩
  obtain ⟨s, hrun, hids⟩ := hrun
  refine ⟨s, hrun, hids, fun h ↦ ?_⟩
  have hunique : s.ids.Nodup := throughout_iff.mp h earlyCreate [] s (by simp) hrun
  rw [hids] at hunique
  exact absurd hunique (by decide)

end Otdel.Web
