import Otdel.Server.Keeping

/-!
# Safe programs

A program whose operations respect the contract is safe.  One that never inserts
a material respects it everywhere.
-/

namespace Otdel

open Versions

variable {ι : Type} [Fintype ι] [DecidableEq ι] (store : Store) (requests : ι → Request)

/-- Safety under the contract between the requests. -/
abbrev Safe (i : ι) {β : Type} (Post : β → World ι → Prop) (p : Prog β) (w : World ι) : Prop :=
  (server ι).Safe (originalsContract store requests) i Post p w

/-- The request has inserted no material so far. -/
structure Unpublished (i : ι) (w : World ι) : Prop where
  pending : ∀ row, .material row none ∉ w.pending i
  busy : w.Busy i

variable {store requests} {w w' : World ι} {i : ι} {β : Type}

section Steps

variable {op : Op} {choice : Choice} {a : op.Ans}

omit [Fintype ι] in
theorem pending_insert_step {o : Option Op} (h : DbStep i o w w') {row : MaterialRow}
    (hrow : .material row none ∈ w'.pending i) : .material row none ∈ w.pending i ∨
      ∃ bureauId new id now, o = some (.sql (.materialsInsert bureauId new)) ∧
        row = Sql.newMaterialRow bureauId new id now := by
  cases h with
  | same _ _ htx => exact Or.inl (by rwa [DbStep.pending_same htx] at hrow)
  | ended _ _ htx => simp [DbStep.pending_none htx] at hrow
  | began _ _ _ _ _ htx => simp [DbStep.pending_some htx] at hrow
  | committed _ _ _ _ _ htx => simp [DbStep.pending_none htx] at hrow
  | wrote tx s id answer writes hop hopen _ hexec _ _ htx =>
      rw [DbStep.pending_some htx, Function.update_self, List.mem_append] at hrow
      rcases hrow with hrow | hrow
      · exact Or.inl (by rwa [World.pending_eq_of_tx hopen])
      · obtain ⟨bureauId, new, rfl, rfl⟩ := (Sql.effect_of_exec hexec).material_insert hrow
        exact Or.inr ⟨bureauId, new, id, tx.now, hop, rfl⟩

theorem acked_of_perform (h : w.perform i op choice = some (a, w'))
    (hacked : w'.unacked i = false) : w.unacked i = false := by
  by_cases hop : op = .commit
  · subst hop
    cases choice with
    | granted id now =>
        simp only [World.perform, World.grant] at h
        split at h <;> cases h <;> exact hacked
    | failed outage =>
        cases h
        exact hacked
    | lost =>
        rw [World.perform, Option.bind_eq_some_iff] at h
        obtain ⟨tx, -, h⟩ := h
        cases h
        simp [World.markFaulted] at hacked
    | listed => cases h
  · rwa [World.unacked_perform hop h] at hacked

theorem Unpublished.perform (hw : Unpublished i w)
    (hop : ∀ bureauId new, op ≠ .sql (.materialsInsert bureauId new))
    (h : w.perform i op choice = some (a, w')) : Unpublished i w' := by
  have hdb := World.perform_dbStep h
  constructor
  · intro row hrow
    rcases pending_insert_step hdb hrow with hrow | ⟨bureauId, new, id, now, heq, -⟩
    · exact hw.pending row hrow
    · exact hop bureauId new (Option.some.inj heq)
  · intro hacked writes hwrites
    have hold := hw.busy (acked_of_perform h hacked)
    cases hdb with
    | same _ hlog => exact hold writes (hlog ▸ hwrites)
    | ended _ hlog => exact hold writes (hlog ▸ hwrites)
    | began _ _ _ _ hlog => exact hold writes (hlog ▸ hwrites)
    | wrote _ _ _ _ _ _ _ _ _ _ hlog => exact hold writes (hlog ▸ hwrites)
    | committed tx _ hopen _ hlog =>
        rw [hlog, List.mem_cons, Prod.mk.injEq] at hwrites
        rcases hwrites with ⟨-, rfl⟩ | hwrites
        · rw [← World.pending_eq_of_tx hopen]
          exact hw.pending
        · exact hold writes hwrites

omit [Fintype ι] [DecidableEq ι] in
theorem Unpublished.stable (hw : Unpublished i w) {o : Option Op} (h : World.Rely i o w w') :
    Unpublished i w' := by
  refine ⟨fun row hrow ↦ ?_, h.busy hw.busy⟩
  rcases h.tx with htx | ⟨-, htx⟩
  · exact hw.pending row (by rwa [World.pending_congr htx] at hrow)
  · simp [World.pending, htx] at hrow

end Steps

/-- What the others cannot take away. -/
def Stable (i : ι) (Post : β → World ι → Prop) : Prop :=
  ∀ b w w', Post b w → World.Rely i none w w' → Post b w'

section Rules

variable {α ε ε' : Type} {Post : β → World ι → Prop}

theorem safe_done {b : β} (hpost : Post b w) (hstable : Stable i Post) :
    Safe store requests i Post (.done b) w :=
  fun w' hrely _ ↦ hstable b w w' hpost hrely

theorem safe_return {a : β} {Post : Except ε β → World ι → Prop} (hpost : Post (.ok a) w)
    (hstable : Stable i Post) : Safe store requests i Post (pure a : TryProg ε β) w :=
  safe_done hpost hstable

theorem safe_fail {e : ε} {Post : Except ε β → World ι → Prop} (hpost : Post (.error e) w)
    (hstable : Stable i Post) : Safe store requests i Post (Program.fail e : TryProg ε β) w :=
  safe_done hpost hstable

theorem safe_bind {p : Prog α} {f : α → Prog β} {Mid : α → World ι → Prop}
    (hinv : Kept store requests w) (hp : Safe store requests i Mid p w)
    (hnext : ∀ a w', Kept store requests w' → w.Grows w' → Mid a w' →
      Safe store requests i Post (f a) w') : Safe store requests i Post (p.bind f) w :=
  Machine.Safe.bind hinv hp hnext

/-- The rule for a sequence that stops at an error. -/
theorem safe_andThen {p : TryProg ε α} {f : α → TryProg ε β}
    {Mid : Except ε α → World ι → Prop} {Post : Except ε β → World ι → Prop}
    (hinv : Kept store requests w) (hp : Safe store requests i Mid p w)
    (hstable : Stable i Post)
    (herror : ∀ e w', Kept store requests w' → Mid (.error e) w' → Post (.error e) w')
    (hok : ∀ a w', Kept store requests w' → w.Grows w' → Mid (.ok a) w' →
      Safe store requests i Post (f a) w') :
    Safe store requests i Post (p >>= f : TryProg ε β) w := by
  apply safe_bind hinv hp
  intro r w' hinv' hgrows hmid
  cases r with
  | ok a => exact hok a w' hinv' hgrows hmid
  | error e => exact safe_done (herror e w' hinv' hmid) hstable

/-- The rule for a computation that calls nothing. -/
theorem safe_ofExcept {r : Except ε α} {f : α → TryProg ε β} {Post : Except ε β → World ι → Prop}
    (hstable : Stable i Post) (herror : ∀ e, r = .error e → Post (.error e) w)
    (hok : ∀ a, r = .ok a → Safe store requests i Post (f a) w) :
    Safe store requests i Post (Program.ofExcept r >>= f : TryProg ε β) w := by
  cases r with
  | ok a => exact hok a rfl
  | error e => exact safe_done (herror e rfl) hstable

theorem safe_mapError {p : TryProg ε α} (g : ε → ε') {Mid : Except ε α → World ι → Prop}
    {Post : Except ε' α → World ι → Prop} (hinv : Kept store requests w)
    (hp : Safe store requests i Mid p w) (hstable : Stable i Post)
    (herror : ∀ e w', Mid (.error e) w' → Post (.error (g e)) w')
    (hok : ∀ a w', Mid (.ok a) w' → Post (.ok a) w') :
    Safe store requests i Post (Program.mapError g p) w := by
  apply safe_bind hinv hp
  intro r w' _ _ hmid
  cases r with
  | ok a => exact safe_done (hok a w' hmid) hstable
  | error e => exact safe_done (herror e w' hmid) hstable

/-- The rule for a program that cannot fail. -/
theorem safe_liftThen {p : Prog α} {f : α → TryProg ε β} {Mid : α → World ι → Prop}
    {Post : Except ε β → World ι → Prop} (hinv : Kept store requests w)
    (hp : Safe store requests i Mid p w) (hmid : Stable i Mid)
    (hnext : ∀ a w', Kept store requests w' → w.Grows w' → Mid a w' →
      Safe store requests i Post (f a) w') :
    Safe store requests i Post (Program.lift p >>= f : TryProg ε β) w := by
  have hlift : Safe store requests i (fun r w' ↦ ∃ a, r = .ok a ∧ Mid a w')
      (Program.lift p : TryProg ε α) w := by
    apply safe_bind hinv hp
    intro a w' _ _ ha w'' hrely _
    exact ⟨a, rfl, hmid a w' w'' ha hrely⟩
  apply safe_bind hinv hlift
  rintro _ w' hinv' hgrows ⟨a, rfl, ha⟩
  exact hnext a w' hinv' hgrows ha

end Rules

theorem safe_call {op : Op} {next : op.Ans → Prog β} {Post : β → World ι → Prop}
    (hop : ∀ w', World.Rely i (some op) w w' → Kept store requests w' →
      w'.Busy i ∧ op.Allowed store requests i w')
    (hnext : ∀ w' choice a w'', World.Rely i (some op) w w' → Kept store requests w' →
      w'.perform i op choice = some (a, w'') → Kept store requests w'' →
        Safe store requests i Post (next a) w'') :
    Safe store requests i Post (.call op next) w := by
  intro w' hrely hinv
  obtain ⟨hbusy, hallowed⟩ := hop w' hrely hinv
  refine ⟨hbusy, fun choice a w'' hperform ↦ ?_⟩
  have hkeeps := keeps_perform hinv hallowed hperform
  exact ⟨hkeeps, hnext w' choice a w'' hrely hinv hperform hkeeps.inv⟩

/-- The rule for a single operation with a stable postcondition. -/
theorem safe_await {op : Op} {Post : op.Ans → World ι → Prop}
    (hop : ∀ w', World.Rely i (some op) w w' → Kept store requests w' →
      w'.Busy i ∧ op.Allowed store requests i w')
    (hpost : ∀ w' choice a w'', World.Rely i (some op) w w' → Kept store requests w' →
      w'.perform i op choice = some (a, w'') → Post a w'')
    (hstable : Stable i Post) : Safe store requests i Post (await op) w := by
  apply safe_call hop
  intro w' choice a w'' hrely hinv hperform _
  exact safe_done (hpost w' choice a w'' hrely hinv hperform) hstable

/-- The operations that insert no material, write no file and report no row that
has vanished. -/
def Op.Quiet (store : Store) : Op → Prop
  | .sql (.materialsInsert _ _) => False
  | .sql (.jobsInsert _ _ materialId _ key) =>
      key = extractionIdempotencyKey store.uuid materialId .extractDocument
  | .armStaging => False
  | .createStaging _ => False
  | .write _ _ => False
  | .rename _ _ => False
  | .report (.publishFailed _) => False
  | _ => True

omit [Fintype ι] [DecidableEq ι] in
theorem Op.Quiet.allowed {op : Op} (hop : op.Quiet store) (hw : Unpublished i w) :
    op.Allowed store requests i w := by
  cases op with
  | sql s => cases s <;> first | exact hop | trivial
  | commit => exact fun row hrow ↦ absurd hrow (hw.pending row)
  | report line => cases line <;> first | exact hop.elim | trivial
  | createStaging | write | rename => exact hop.elim
  | _ => trivial

theorem Op.Quiet.no_insert {op : Op} (hop : op.Quiet store) (bureauId : Uuid)
    (new : NewMaterial) : op ≠ .sql (.materialsInsert bureauId new) := by
  rintro rfl
  exact hop

/-- Programs that insert no material are safe. -/
theorem safe_quiet {p : Prog β} (hp : p.Calls (Op.Quiet store)) (hw : Unpublished i w) :
    Safe store requests i (fun _ ↦ Unpublished i) p w := by
  induction p generalizing w with
  | done a => exact fun w' hrely _ ↦ hw.stable hrely
  | call op next ih =>
      obtain ⟨hop, hnext⟩ := hp
      apply safe_call
      · intro w' hrely _
        have hw' := hw.stable hrely
        exact ⟨hw'.busy, hop.allowed hw'⟩
      · intro w' choice a w'' hrely _ hperform _
        exact ih a (hnext a) ((hw.stable hrely).perform hop.no_insert hperform)

end Otdel
