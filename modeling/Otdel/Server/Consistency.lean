import Otdel.Server.Transactions

/-!
# The schema's constraints, at every moment

Keys are unique and references are kept, for the committed rows and for all
uncommitted versions, whatever the requests do.
-/

namespace Otdel

open Versions

variable {ι : Type}

/-- The constraints of the schema, with the versions that are not committed. -/
structure World.Consistent (w : World ι) : Prop where
  partners : Sound partnerScheme w.partners
  materials : Sound materialScheme w.materials
  jobs : Sound jobScheme w.jobs
  materialPartner : References MaterialRow.OfPartner w.materials w.partners
  jobMaterial : References JobRow.OfMaterial w.jobs w.materials

namespace DbStep.Tables

variable [DecidableEq ι] {w w' : World ι} {i : ι} {op : Option Op}

theorem step_add_nil {Row Id Core Key : Type} [DecidableEq Id] (T : Scheme Row Id Core Key)
    (s : State ι Row) : Step T i s (s.add i []) :=
  .update [] (by simp) (by simp)

theorem partners_step (h : Tables i op w w') : Step partnerScheme i w.partners w'.partners := by
  cases h with
  | same hp => exact hp ▸ .stay
  | dropped hp => exact hp ▸ .drop
  | committed _ hp => exact hp ▸ .commit
  | added s id now writes hop heffect hfree hp =>
      rw [hp]
      cases heffect with
      | newPartner row hid hfresh hwaits =>
          refine .insert row (fun r hr ↦ ⟨hfresh r hr, hfresh r hr⟩) ?_
          rintro j hj ⟨r, o⟩ hv
          have hne : r.id ≠ row.id := fun hr ↦
            absurd (hwaits r o hr)
              (by simp [World.not_blocked hfree hj (World.mem_partners_pending.mp hv)])
          exact ⟨hne, hne⟩
      | partners p f hcore hwaits =>
          simp only [List.filterMap_map, Function.comp_def, Write.partner?, List.filterMap_eq_map']
          refine .update _ ?_ ?_
          · intro v hv
            obtain ⟨old, hold, rfl⟩ := List.mem_map.mp hv
            exact ⟨old, (List.mem_filter.mp hold).1, rfl, hcore old⟩
          · rintro v hv j hj ⟨r, o⟩ hu hid
            obtain ⟨old, hold, rfl⟩ := List.mem_map.mp hv
            obtain ⟨hmem, hp'⟩ := List.mem_filter.mp hold
            have hsame : r.id = old.id := hid.trans (PartnerRow.core_eq_iff.mp (hcore old)).1
            have hwait := hwaits old hmem hp' r o hsame
            rw [World.not_blocked hfree hj (World.mem_partners_pending.mp hu)] at hwait
            cases hwait
      | _ =>
          simpa [List.filterMap_cons, List.filterMap_map, Function.comp_def, Write.partner?] using
            step_add_nil _ _

theorem materials_step (h : Tables i op w w') :
    Step materialScheme i w.materials w'.materials := by
  cases h with
  | same _ hm => exact hm ▸ .stay
  | dropped _ hm => exact hm ▸ .drop
  | committed _ _ hm => exact hm ▸ .commit
  | added s id now writes hop heffect hfree _ hm =>
      rw [hm]
      cases heffect with
      | newMaterial bureauId new hs hfresh hpartner =>
          subst hs
          refine .insert (Sql.newMaterialRow bureauId new id now) ?_ ?_
          · intro r hr
            obtain ⟨hid, hkey⟩ := hfresh r hr
            refine ⟨hid, fun heq ↦ hkey ?_⟩
            exact Prod.mk.inj heq
          · rintro j hj ⟨r, o⟩ hv
            have hfree' := World.not_blocked hfree hj (World.mem_materials_pending.mp hv)
            simp only [Sql.waitsFor, Bool.or_eq_false_iff, Bool.and_eq_false_iff,
              decide_eq_false_iff_not] at hfree'
            refine ⟨hfree'.1, fun heq ↦ ?_⟩
            obtain ⟨hpartner, hsha⟩ := Prod.mk.inj heq
            exact hfree'.2.elim (· hpartner) (· hsha)
      | materials p f hcore hwaits =>
          simp only [List.filterMap_map, Function.comp_def, Write.material?, List.filterMap_eq_map']
          refine .update _ ?_ ?_
          · intro v hv
            obtain ⟨old, hold, rfl⟩ := List.mem_map.mp hv
            exact ⟨old, (List.mem_filter.mp hold).1, rfl, hcore old⟩
          · rintro v hv j hj ⟨r, o⟩ hu hid
            obtain ⟨old, hold, rfl⟩ := List.mem_map.mp hv
            obtain ⟨hmem, hp'⟩ := List.mem_filter.mp hold
            have hsame : r.id = old.id := hid.trans (MaterialRow.core_eq_iff.mp (hcore old)).1
            have hwait := hwaits old hmem hp' r o hsame
            rw [World.not_blocked hfree hj (World.mem_materials_pending.mp hu)] at hwait
            cases hwait
      | _ =>
          simpa [List.filterMap_cons, List.filterMap_map, Function.comp_def, Write.material?] using
            step_add_nil _ _

theorem jobs_step (h : Tables i op w w') : Step jobScheme i w.jobs w'.jobs := by
  cases h with
  | same _ _ hj => exact hj ▸ .stay
  | dropped _ _ hj => exact hj ▸ .drop
  | committed _ _ _ hj => exact hj ▸ .commit
  | added s id now writes hop heffect hfree _ _ hj =>
      rw [hj]
      cases heffect with
      | newJob bureauId partnerId materialId kind key hs hfresh hmaterial =>
          subst hs
          refine .insert (Sql.newJobRow bureauId partnerId materialId kind key id now) ?_ ?_
          · intro r hr
            obtain ⟨hid, hkey⟩ := hfresh r hr
            refine ⟨hid, fun heq ↦ hkey ?_⟩
            exact Prod.mk.inj heq
          · rintro j hj ⟨r, o⟩ hv
            have hfree' := World.not_blocked hfree hj (World.mem_jobs_pending.mp hv)
            simp only [Sql.waitsFor, Sql.hasKey, Bool.or_eq_false_iff, Bool.and_eq_false_iff,
              decide_eq_false_iff_not] at hfree'
            refine ⟨hfree'.1, fun heq ↦ ?_⟩
            obtain ⟨hbureau, hkey⟩ := Prod.mk.inj heq
            exact hfree'.2.elim (· hbureau) (· hkey)
      | jobs p f hcore hwaits =>
          simp only [List.filterMap_map, Function.comp_def, Write.job?, List.filterMap_eq_map']
          refine .update _ ?_ ?_
          · intro v hv
            obtain ⟨old, hold, rfl⟩ := List.mem_map.mp hv
            exact ⟨old, (List.mem_filter.mp hold).1, rfl, hcore old⟩
          · rintro v hv j hj ⟨r, o⟩ hu hid
            obtain ⟨old, hold, rfl⟩ := List.mem_map.mp hv
            obtain ⟨hmem, hp'⟩ := List.mem_filter.mp hold
            have hsame : r.id = old.id := hid.trans (JobRow.core_eq_iff.mp (hcore old)).1
            have hwait := hwaits old hmem hp' r o hsame
            rw [World.not_blocked hfree hj (World.mem_jobs_pending.mp hu)] at hwait
            cases hwait
      | _ =>
          simpa [List.filterMap_cons, List.filterMap_map, Function.comp_def, Write.job?] using
            step_add_nil _ _

/-- A new version of a material keeps its partner, a new material has one. -/
theorem materialPartner (h : Tables i op w w') (hw : w.Consistent) :
    References MaterialRow.OfPartner w'.materials w'.partners := by
  cases h with
  | same hp hm => exact hp ▸ hm ▸ hw.materialPartner
  | dropped hp hm => exact hp ▸ hm ▸ hw.materialPartner.drop
  | committed _ hp hm =>
      rw [hp, hm]
      exact hw.materialPartner.commit hw.partners fun r q q' hrel hcore ↦ hrel.congr rfl hcore
  | added s id now writes hop heffect hfree hp hm =>
      rw [hp, hm]
      apply hw.materialPartner.add
      cases heffect with
      | newMaterial bureauId new hs hfresh hpartner =>
          obtain ⟨q, hq, hrel⟩ := hpartner
          simp only [List.filterMap_cons, Write.material?, List.filterMap_nil, List.mem_singleton,
            forall_eq]
          exact ⟨q, World.visible_partner hq, hrel⟩
      | materials p f hcore =>
          simp only [List.filterMap_map, Function.comp_def, Write.material?, List.filterMap_eq_map',
            List.mem_map, forall_exists_index, and_imp, forall_apply_eq_imp_iff₂]
          intro old hold
          obtain ⟨q, hq, hrel⟩ := hw.materialPartner.visible
            (World.visible_material (List.mem_filter.mp hold).1)
          exact ⟨q, hq, hrel.congr (hcore old) rfl⟩
      | _ => simp [List.filterMap_cons, List.filterMap_map, Function.comp_def, Write.material?]

/-- A new version of a job keeps its material, a new job has one. -/
theorem jobMaterial (h : Tables i op w w') (hw : w.Consistent) :
    References JobRow.OfMaterial w'.jobs w'.materials := by
  cases h with
  | same _ hm hj => exact hm ▸ hj ▸ hw.jobMaterial
  | dropped _ hm hj => exact hm ▸ hj ▸ hw.jobMaterial.drop
  | committed _ _ hm hj =>
      rw [hm, hj]
      exact hw.jobMaterial.commit hw.materials fun r q q' hrel hcore ↦ hrel.congr rfl hcore
  | added s id now writes hop heffect hfree _ hm hj =>
      rw [hm, hj]
      apply hw.jobMaterial.add
      cases heffect with
      | newJob bureauId partnerId materialId kind key hs hfresh hmaterial =>
          obtain ⟨q, hq, hrel⟩ := hmaterial
          simp only [List.filterMap_cons, Write.job?, List.filterMap_nil, List.mem_singleton,
            forall_eq]
          exact ⟨q, World.visible_material hq, hrel⟩
      | jobs p f hcore =>
          simp only [List.filterMap_map, Function.comp_def, Write.job?, List.filterMap_eq_map',
            List.mem_map, forall_exists_index, and_imp, forall_apply_eq_imp_iff₂]
          intro old hold
          obtain ⟨q, hq, hrel⟩ := hw.jobMaterial.visible
            (World.visible_job (List.mem_filter.mp hold).1)
          exact ⟨q, hq, hrel.congr (hcore old) rfl⟩
      | _ => simp [List.filterMap_cons, List.filterMap_map, Function.comp_def, Write.job?]

/-- Where the versions of a material come from. -/
theorem known_material (h : Tables i op w w') {row : MaterialRow}
    (hrow : w'.materials.Known row) :
    (∃ old, w.materials.Known old ∧ row.core = old.core) ∨
      ∃ bureauId new id now, op = some (.sql (.materialsInsert bureauId new)) ∧
        row = Sql.newMaterialRow bureauId new id now := by
  cases h with
  | same _ hm => exact Or.inl ⟨row, hm ▸ hrow, rfl⟩
  | dropped _ hm =>
      rw [hm] at hrow
      obtain ⟨j, hj⟩ := hrow
      exact Or.inl ⟨row, (visible_setPending_nil hj).known, rfl⟩
  | committed _ _ hm =>
      rw [hm] at hrow
      exact Or.inl ⟨row, known_commit hrow, rfl⟩
  | added s id now writes hop heffect _ _ hm =>
      rw [hm] at hrow
      obtain ⟨j, hj⟩ := hrow
      rcases visible_add hj with hj | ⟨-, v, hv, rfl⟩
      · exact Or.inl ⟨row, hj.known, rfl⟩
      · cases heffect with
        | newMaterial bureauId new hs =>
            rw [List.filterMap_cons, Write.material?, List.filterMap_nil,
              List.mem_singleton] at hv
            exact Or.inr ⟨bureauId, new, id, now, by rw [hop, hs], by rw [hv]⟩
        | materials p f hcore =>
            rw [List.filterMap_map] at hv
            obtain ⟨old, hold, heq⟩ := List.mem_filterMap.mp hv
            cases heq
            exact Or.inl ⟨old, (World.visible_material (List.mem_filter.mp hold).1).known,
              hcore old⟩
        | _ => simp [List.filterMap_cons, List.filterMap_map, Write.material?] at hv

/-- Where the versions of a job come from. -/
theorem known_job (h : Tables i op w w') {row : JobRow} (hrow : w'.jobs.Known row) :
    (∃ old, w.jobs.Known old ∧ row.core = old.core) ∨
      ∃ bureauId partnerId materialId kind key id now,
        op = some (.sql (.jobsInsert bureauId partnerId materialId kind key)) ∧
          row = Sql.newJobRow bureauId partnerId materialId kind key id now := by
  cases h with
  | same _ _ hj => exact Or.inl ⟨row, hj ▸ hrow, rfl⟩
  | dropped _ _ hj =>
      rw [hj] at hrow
      obtain ⟨j, hj⟩ := hrow
      exact Or.inl ⟨row, (visible_setPending_nil hj).known, rfl⟩
  | committed _ _ _ hj =>
      rw [hj] at hrow
      exact Or.inl ⟨row, known_commit hrow, rfl⟩
  | added s id now writes hop heffect _ _ _ hj =>
      rw [hj] at hrow
      obtain ⟨j, hj⟩ := hrow
      rcases visible_add hj with hj | ⟨-, v, hv, rfl⟩
      · exact Or.inl ⟨row, hj.known, rfl⟩
      · cases heffect with
        | newJob bureauId partnerId materialId kind key hs =>
            rw [List.filterMap_cons, Write.job?, List.filterMap_nil, List.mem_singleton] at hv
            exact Or.inr ⟨bureauId, partnerId, materialId, kind, key, id, now, by rw [hop, hs],
              by rw [hv]⟩
        | jobs p f hcore =>
            rw [List.filterMap_map] at hv
            obtain ⟨old, hold, heq⟩ := List.mem_filterMap.mp hv
            cases heq
            exact Or.inl ⟨old, (World.visible_job (List.mem_filter.mp hold).1).known, hcore old⟩
        | _ => simp [List.filterMap_cons, List.filterMap_map, Write.job?] at hv

end DbStep.Tables

variable [DecidableEq ι] {w w' : World ι} {i : ι} {op : Option Op}

theorem World.Consistent.step (hw : w.Consistent) (h : DbStep i op w w') : w'.Consistent where
  partners := hw.partners.step h.tables.partners_step
  materials := hw.materials.step h.tables.materials_step
  jobs := hw.jobs.step h.tables.jobs_step
  materialPartner := h.tables.materialPartner hw
  jobMaterial := h.tables.jobMaterial hw

end Otdel
