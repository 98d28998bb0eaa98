import Otdel.Library.Dropping
import Otdel.Server.StoreSafety

/-!
# Cancelling an upload

A request that stores a file may be dropped at any await point.  Its guard
removes the staging file at once, also while a file system call that was handed
over is still under way, so the creation of the file can come after its
removal.
-/

namespace Otdel

open Program

variable {ι : Type}

/-- The objects as before, or with the complete content under its own key. -/
def ObjectsOf (store : Store) (ns : ObjectNamespace) (body : ByteStream) (start w : World ι) :
    Prop :=
  w.objects = start.objects ∨ ∃ content, body.content? = some content ∧
    w.objects = Function.update start.objects (store.place ns (store.sha256.hex content))
      (some content)

/-- What a request that stores a body has left: no staging file of its own, those
of the others, and the objects as before or with the complete body. -/
structure LeftBy (store : Store) (ns : ObjectNamespace) (body : ByteStream) (start w : World ι) :
    Prop where
  own : ∀ name, start.drawnBy name = none → w.drawnBy name ≠ none → w.staging name = none
  others : ∀ name, w.drawnBy name = start.drawnBy name → w.staging name = start.staging name
  objects : ObjectsOf store ns body start w

/-- The staging file is created while its guard is there to remove it. -/
def Guarded (i : ι) (op : Op) (choice : Choice) (w : World ι) : Prop :=
  ∀ name id now, op = .createStaging name → choice = .granted id now → w.guard i = some name

section Worlds

variable {store : Store} {ns : ObjectNamespace} {body : ByteStream} {i : ι} {start w w' : World ι}
  {name : Uuid} {content : Bytes}

/-- The files of one world in another, with the guards. -/
structure SameFiles (w w' : World ι) : Prop where
  drawnBy : w'.drawnBy = w.drawnBy
  staging : w'.staging = w.staging
  objects : w'.objects = w.objects
  guard : w'.guard = w.guard

theorem LeftBy.congr (h : LeftBy store ns body start w) (hsame : SameFiles w w') :
    LeftBy store ns body start w' := by
  obtain ⟨hdrawn, hstaging, hobjects, -⟩ := hsame
  constructor
  · rw [hdrawn, hstaging]
    exact h.own
  · rw [hdrawn, hstaging]
    exact h.others
  · rw [ObjectsOf, hobjects]
    exact h.objects

/-- The request has drawn a name, and touched no other staging file. -/
structure Drawn (store : Store) (ns : ObjectNamespace) (body : ByteStream) (i : ι)
    (start : World ι) (name : Uuid) (w : World ι) : Prop where
  free : start.drawnBy name = none
  drawnBy : w.drawnBy = Function.update start.drawnBy name (some i)
  others : ∀ other, other ≠ name → w.staging other = start.staging other
  objects : ObjectsOf store ns body start w

/-- Its guard is armed, and no object is written. -/
structure Armed (store : Store) (ns : ObjectNamespace) (body : ByteStream) (i : ι)
    (start : World ι) (name : Uuid) (w : World ι) : Prop
    extends Drawn store ns body i start name w where
  guard : w.guard i = some name
  unwritten : w.objects = start.objects

/-- The staging file has this content. -/
structure Holding (store : Store) (ns : ObjectNamespace) (body : ByteStream) (i : ι)
    (start : World ι) (name : Uuid) (content : Bytes) (w : World ι) : Prop
    extends Armed store ns body i start name w where
  content : w.staging name = some content

theorem Drawn.congr (h : Drawn store ns body i start name w) (hsame : SameFiles w w') :
    Drawn store ns body i start name w' := by
  obtain ⟨hdrawn, hstaging, hobjects, -⟩ := hsame
  refine ⟨h.free, hdrawn.trans h.drawnBy, ?_, ?_⟩
  · rw [hstaging]
    exact h.others
  · rw [ObjectsOf, hobjects]
    exact h.objects

theorem Armed.congr (h : Armed store ns body i start name w) (hsame : SameFiles w w') :
    Armed store ns body i start name w' :=
  ⟨h.toDrawn.congr hsame, by rw [hsame.guard]; exact h.guard, hsame.objects.trans h.unwritten⟩

theorem Holding.congr (h : Holding store ns body i start name content w) (hsame : SameFiles w w') :
    Holding store ns body i start name content w' :=
  ⟨h.toArmed.congr hsame, by rw [hsame.staging]; exact h.content⟩

/-- Once the staging file is gone, nothing is left to clean up. -/
theorem Drawn.leftBy (h : Drawn store ns body i start name w) (hgone : w.staging name = none) :
    LeftBy store ns body start w where
  own other hfree hdrawn := by
    by_cases hother : other = name
    · rw [hother, hgone]
    · rw [h.drawnBy, Function.update_of_ne hother] at hdrawn
      exact absurd hfree hdrawn
  others other hsame := by
    by_cases hother : other = name
    · subst hother
      rw [h.drawnBy, Function.update_self, h.free] at hsame
      cases hsame
    · exact h.others other hother
  objects := h.objects

theorem Drawn.setStaging (h : Drawn store ns body i start name w) (content : Option Bytes) :
    Drawn store ns body i start name (w.setStaging name content) := by
  refine ⟨h.free, h.drawnBy, fun other hother ↦ ?_, h.objects⟩
  rw [← h.others other hother]
  exact Function.update_of_ne hother _ _

theorem Armed.setStaging (h : Armed store ns body i start name w) (content : Option Bytes) :
    Armed store ns body i start name (w.setStaging name content) :=
  ⟨h.toDrawn.setStaging content, h.guard, h.unwritten⟩

theorem Armed.holding (h : Armed store ns body i start name w) (content : Bytes) :
    Holding store ns body i start name content (w.setStaging name (some content)) :=
  ⟨h.setStaging _, Function.update_self ..⟩

/-- The guard has removed the file. -/
structure Released (store : Store) (ns : ObjectNamespace) (body : ByteStream) (i : ι)
    (start : World ι) (name : Uuid) (w : World ι) : Prop
    extends Drawn store ns body i start name w where
  guard : w.guard i = none
  gone : w.staging name = none

/-- The file has been moved to its place. -/
structure Moved (store : Store) (ns : ObjectNamespace) (body : ByteStream) (i : ι)
    (start : World ι) (name : Uuid) (w : World ι) : Prop
    extends Drawn store ns body i start name w where
  guard : w.guard i = some name ∨ w.guard i = none
  gone : w.staging name = none

theorem Moved.congr (h : Moved store ns body i start name w) (hsame : SameFiles w w') :
    Moved store ns body i start name w' :=
  ⟨h.toDrawn.congr hsame, by rw [hsame.guard]; exact h.guard,
    by rw [hsame.staging]; exact h.gone⟩

theorem Released.leftBy (h : Released store ns body i start name w) :
    LeftBy store ns body start w := h.toDrawn.leftBy h.gone

theorem Holding.move (h : Holding store ns body i start name content w)
    (hcontent : body.content? = some content) :
    Moved store ns body i start name ((w.setStaging name none).setObject
      (store.place ns (store.sha256.hex content)) content) := by
  refine ⟨⟨h.free, h.drawnBy, (h.toDrawn.setStaging none).others, ?_⟩, Or.inl h.guard,
    Function.update_self ..⟩
  exact Or.inr ⟨content, hcontent, by rw [← h.unwritten]; rfl⟩

variable [DecidableEq ι]

theorem Armed.release (h : Armed store ns body i start name w) :
    Released store ns body i start name (w.releaseGuard i) := by
  rw [World.releaseGuard, h.guard]
  exact ⟨⟨h.free, h.drawnBy, (h.toDrawn.setStaging none).others, h.objects⟩,
    Function.update_self .., Function.update_self ..⟩

theorem Armed.abandon (h : Armed store ns body i start name w) :
    Released store ns body i start name (w.abandon i) :=
  ⟨⟨h.free, h.release.drawnBy, h.release.others, h.release.objects⟩, h.release.guard,
    h.release.gone⟩

theorem Moved.abandon (h : Moved store ns body i start name w) :
    Moved store ns body i start name (w.abandon i) := by
  rcases h.guard with hguard | hguard
  · have hrelease : w.releaseGuard i =
        { w.setStaging name none with guard := Function.update w.guard i none } := by
      rw [World.releaseGuard, hguard]
    rw [World.abandon, hrelease]
    exact ⟨⟨h.free, h.drawnBy, (h.toDrawn.setStaging none).others, h.objects⟩,
      Or.inr (Function.update_self ..), Function.update_self ..⟩
  · have hrelease : w.releaseGuard i = w := by rw [World.releaseGuard, hguard]
    rw [World.abandon, hrelease]
    exact h.congr ⟨rfl, rfl, rfl, rfl⟩

theorem abandon_idem (w : World ι) (i : ι) : (w.abandon i).abandon i = w.abandon i := by
  have hguard : (w.abandon i).guard i = none := by
    unfold World.abandon World.releaseGuard
    split
    · exact Function.update_self ..
    · assumption
  have hrelease : (w.abandon i).releaseGuard i = w.abandon i := by
    rw [World.releaseGuard, hguard]
  calc (w.abandon i).abandon i
      = (w.abandon i).setTx i none := by rw [World.abandon, hrelease]
    _ = w.abandon i := by simp [World.abandon, World.setTx]

end Worlds

/-! ## Operations -/

section Operations

variable [Fintype ι] [DecidableEq ι] {store : Store} {ns : ObjectNamespace} {body : ByteStream}
  {i : ι} {start w w' : World ι} {name : Uuid} {content : Bytes} {α : Type}

/-- The operations that only look at the files. -/
def Op.looks : Op → Bool
  | .flush _ => true
  | .syncAll _ => true
  | .createDirAll _ => true
  | .setPermissions _ _ => true
  | .stat _ => true
  | .syncDir _ => true
  | _ => false

theorem sameFiles_of_looks {op : Op} (hop : op.looks = true) {choice : Choice} {a : op.Ans}
    (h : w.perform i op choice = some (a, w')) : SameFiles w w' := by
  cases choice with
  | granted id now =>
      cases op with
      | stat path =>
          simp only [World.perform, World.grant] at h
          split at h <;> cases h <;> exact ⟨rfl, rfl, rfl, rfl⟩
      | flush | syncAll | createDirAll | setPermissions | syncDir =>
          cases h
          exact ⟨rfl, rfl, rfl, rfl⟩
      | _ => cases hop
  | failed outage => cases op <;> cases hop <;> cases h <;> exact ⟨rfl, rfl, rfl, rfl⟩
  | lost => cases op <;> cases hop <;> cases h
  | listed => cases op <;> cases hop <;> cases h

/-- A request that stores a body may be dropped at any of its operations. -/
abbrev Cancels (store : Store) (ns : ObjectNamespace) (body : ByteStream) (i : ι)
    (start : World ι) (Post : α → World ι → Prop) (p : Prog α) (w : World ι) : Prop :=
  (server ι).Drops i (LeftBy store ns body start) (Guarded i) Post p w

theorem cancels_await {op : Op} {Post : op.Ans → World ι → Prop}
    (hdrop : LeftBy store ns body start (w.abandon i))
    (hunder : op.detached = true → ∀ c a w', (w.abandon i).perform i op c = some (a, w') →
      (LeftBy store ns body start w' ↔ Guarded i op c (w.abandon i)))
    (hstep : ∀ c a w', w.perform i op c = some (a, w') → Guarded i op c w ∧ Post a w') :
    Cancels store ns body i start Post (await op) w :=
  ⟨⟨hdrop, hunder⟩, hstep⟩

theorem cancels_io {operation : String} {p : Prog (Except IoError α)}
    {Post : Except StorageError α → World ι → Prop} {Mid : Except IoError α → World ι → Prop}
    (h : Cancels store ns body i start Mid p w)
    (hpost : ∀ r w', Mid r w' → Post (r.mapError (StorageError.io operation)) w') :
    Cancels store ns body i start Post (Store.io operation p) w :=
  Machine.Drops.mapError _ (h.mono hpost)

omit [Fintype ι] [DecidableEq ι] in
theorem guarded_of_ne {op : Op} (hop : ∀ name, op ≠ .createStaging name) (choice : Choice)
    (w : World ι) : Guarded i op choice w := fun name _ _ heq ↦ absurd heq (hop name)

theorem cancels_look {op : Op} (hop : op.looks = true) {P : World ι → Prop} (hw : P w)
    (hcongr : ∀ w w', P w → SameFiles w w' → P w')
    (hdrop : LeftBy store ns body start (w.abandon i)) :
    Cancels store ns body i start (fun _ ↦ P) (await op) w := by
  have hne : ∀ name, op ≠ .createStaging name := by
    rintro name rfl
    cases hop
  apply cancels_await hdrop
  · intro _ c a w' hperform
    exact iff_of_true (hdrop.congr (sameFiles_of_looks hop hperform)) (guarded_of_ne hne _ _)
  · intro c a w' hperform
    exact ⟨guarded_of_ne hne _ _, hcongr w w' hw (sameFiles_of_looks hop hperform)⟩

/-- Creating the file is the operation that must come before the drop. -/
theorem cancels_createStaging (h : Armed store ns body i start name w) :
    Cancels store ns body i start
      (fun r w' ↦ Armed store ns body i start name w' ∧
        (r = .ok () → Holding store ns body i start name [] w'))
      (await (.createStaging name)) w := by
  have hreleased := h.abandon
  apply cancels_await hreleased.leftBy
  · intro _ c a w' hperform
    cases c with
    | granted id now =>
        simp only [World.perform, World.grant, hreleased.gone, Option.isSome_none,
          Bool.false_eq_true, if_false] at hperform
        cases hperform
        apply iff_of_false
        · intro hleft
          have hgone := hleft.own name h.free (by
            have hdrawn : (w.abandon i).drawnBy name = some i := by
              rw [hreleased.drawnBy, Function.update_self]
            simp [World.setStaging, hdrawn])
          simp [World.setStaging] at hgone
        · intro hguarded
          have hguard := hguarded name id now rfl rfl
          rw [hreleased.guard] at hguard
          cases hguard
    | failed outage =>
        cases hperform
        exact iff_of_true (hreleased.leftBy.congr ⟨rfl, rfl, rfl, rfl⟩)
          (fun _ _ _ _ heq ↦ by cases heq)
    | lost | listed => cases hperform
  · intro c a w' hperform
    have hguarded : Guarded i (.createStaging name) c w := by
      rintro other id now heq -
      cases heq
      exact h.guard
    refine ⟨hguarded, ?_⟩
    cases c with
    | granted id now =>
        simp only [World.perform, World.grant] at hperform
        split at hperform <;> cases hperform
        · exact ⟨h, fun hr ↦ by cases hr⟩
        · exact ⟨h.setStaging _, fun _ ↦ h.holding []⟩
    | failed outage =>
        cases hperform
        exact ⟨h.congr ⟨rfl, rfl, rfl, rfl⟩, fun hr ↦ by cases hr⟩
    | lost | listed => cases hperform

theorem cancels_write (h : Holding store ns body i start name content w) (chunk : Bytes) :
    Cancels store ns body i start
      (fun r w' ↦ Armed store ns body i start name w' ∧
        (r = .ok () → Holding store ns body i start name (content ++ chunk) w'))
      (await (.write name chunk)) w := by
  have hreleased := h.toArmed.abandon
  have hne : ∀ other, (.write name chunk : Op) ≠ .createStaging other :=
    fun other heq ↦ by cases heq
  apply cancels_await hreleased.leftBy
  · intro _ c a w' hperform
    refine iff_of_true ?_ (guarded_of_ne hne _ _)
    cases c with
    | granted id now =>
        cases hperform
        -- the file is unlinked: the bytes go to a file that no name leads to
        exact (hreleased.toDrawn.setStaging _).leftBy (by simp [World.setStaging, hreleased.gone])
    | failed outage =>
        cases hperform
        exact hreleased.leftBy.congr ⟨rfl, rfl, rfl, rfl⟩
    | lost | listed => cases hperform
  · intro c a w' hperform
    refine ⟨guarded_of_ne hne _ _, ?_⟩
    cases c with
    | granted id now =>
        cases hperform
        rw [h.content]
        exact ⟨h.setStaging _, fun _ ↦ h.toArmed.holding _⟩
    | failed outage =>
        cases hperform
        exact ⟨h.toArmed.congr ⟨rfl, rfl, rfl, rfl⟩, fun hr ↦ by cases hr⟩
    | lost | listed => cases hperform

theorem cancels_rename (h : Holding store ns body i start name content w)
    (hcontent : body.content? = some content) :
    Cancels store ns body i start
      (fun r w' ↦ match r with
        | .ok () => Moved store ns body i start name w'
        | .error _ => Armed store ns body i start name w')
      (await (.rename name (store.place ns (store.sha256.hex content)))) w := by
  have hreleased := h.toArmed.abandon
  have hne : ∀ other, (.rename name (store.place ns (store.sha256.hex content)) : Op) ≠
      .createStaging other := nofun
  apply cancels_await hreleased.leftBy
  · intro _ c a w' hperform
    refine iff_of_true ?_ (guarded_of_ne hne _ _)
    cases c with
    | granted id now =>
        simp only [World.perform, World.grant, hreleased.gone] at hperform
        cases hperform
        exact hreleased.leftBy
    | failed outage =>
        cases hperform
        exact hreleased.leftBy.congr ⟨rfl, rfl, rfl, rfl⟩
    | lost | listed => cases hperform
  · intro c a w' hperform
    refine ⟨guarded_of_ne hne _ _, ?_⟩
    cases c with
    | granted id now =>
        simp only [World.perform, World.grant, h.content] at hperform
        cases hperform
        exact h.move hcontent
    | failed outage =>
        cases hperform
        exact h.toArmed.congr ⟨rfl, rfl, rfl, rfl⟩
    | lost | listed => cases hperform

theorem cancels_dropGuard (h : Armed store ns body i start name w) :
    Cancels store ns body i start (fun _ ↦ LeftBy store ns body start) (await .dropGuard) w := by
  apply cancels_await h.abandon.leftBy
  · intro hdetached
    cases hdetached
  · intro c a w' hperform
    refine ⟨guarded_of_ne (by simp) _ _, ?_⟩
    cases c with
    | granted id now =>
        cases hperform
        exact h.release.leftBy
    | failed | lost | listed => cases hperform

theorem cancels_disarmGuard (h : Moved store ns body i start name w) :
    Cancels store ns body i start (fun _ ↦ Moved store ns body i start name)
      (await .disarmGuard) w := by
  apply cancels_await (h.abandon.toDrawn.leftBy h.abandon.gone)
  · intro hdetached
    cases hdetached
  · intro c a w' hperform
    refine ⟨guarded_of_ne (by simp) _ _, ?_⟩
    cases c with
    | granted id now =>
        cases hperform
        exact ⟨⟨h.free, h.drawnBy, h.others, h.objects⟩, Or.inr (Function.update_self ..), h.gone⟩
    | failed | lost | listed => cases hperform

/-! ## Storing a body -/

/-- What a part of the upload answers while the guard is armed. -/
def ArmedOr (store : Store) (ns : ObjectNamespace) (body : ByteStream) (i : ι) (start : World ι)
    (name : Uuid) (Post : α → World ι → Prop) : Except StorageError α → World ι → Prop
  | .ok a, w => Post a w
  | .error _, w => Armed store ns body i start name w

theorem cancels_andThen {β : Type} {Mid : α → World ι → Prop} {Post : β → World ι → Prop}
    {p : TryProg StorageError α} {f : α → TryProg StorageError β}
    (hp : Cancels store ns body i start (ArmedOr store ns body i start name Mid) p w)
    (hf : ∀ a w', Mid a w' →
      Cancels store ns body i start (ArmedOr store ns body i start name Post) (f a) w') :
    Cancels store ns body i start (ArmedOr store ns body i start name Post)
      (p >>= f : TryProg StorageError β) w :=
  Machine.Drops.andThen hp (fun _ _ h ↦ h) hf

theorem cancels_lookHolding (op : Op) (hop : op.looks = true)
    (h : Holding store ns body i start name content w) :
    Cancels store ns body i start (fun _ ↦ Holding store ns body i start name content)
      (await op) w :=
  cancels_look hop h (fun _ _ h hsame ↦ h.congr hsame) h.toArmed.abandon.leftBy

theorem cancels_lookMoved (op : Op) (hop : op.looks = true)
    (h : Moved store ns body i start name w) :
    Cancels store ns body i start (fun _ ↦ Moved store ns body i start name) (await op) w :=
  cancels_look hop h (fun _ _ h hsame ↦ h.congr hsame) (h.abandon.toDrawn.leftBy h.abandon.gone)

/-- A look at the files fails without harm. -/
theorem cancels_ioHolding {operation : String} {p : Prog (Except IoError α)}
    (hp : Cancels store ns body i start
      (fun _ ↦ Holding store ns body i start name content) p w) :
    Cancels store ns body i start
      (ArmedOr store ns body i start name fun _ ↦ Holding store ns body i start name content)
      (Store.io operation p) w := by
  apply cancels_io hp
  rintro (e | a) w' h
  · exact h.toArmed
  · exact h

/-- A write that fails leaves the guard armed. -/
theorem cancels_ioArmed {operation : String} {p : Prog (Except IoError Unit)} {content : Bytes}
    (hp : Cancels store ns body i start
      (fun r w' ↦ Armed store ns body i start name w' ∧
        (r = .ok () → Holding store ns body i start name content w')) p w) :
    Cancels store ns body i start
      (ArmedOr store ns body i start name fun _ ↦ Holding store ns body i start name content)
      (Store.io operation p) w := by
  apply cancels_io hp
  rintro (e | ⟨⟩) w' ⟨harmed, hok⟩
  · exact harmed
  · exact hok rfl

theorem cancels_writeChunks {rest : ByteStream} {hashed : Bytes}
    (h : Holding store ns body i start name hashed w) :
    Cancels store ns body i start
      (ArmedOr store ns body i start name fun bytes w' ↦
        Holding store ns body i start name bytes w' ∧
          rest.content?.map (fun more ↦ hashed ++ more) = some bytes)
      (Store.writeChunks name rest hashed) w := by
  induction rest generalizing hashed w with
  | nil => exact ⟨h, by simp [ByteStream.content?]⟩
  | cons chunk rest ih =>
      cases chunk with
      | error e => exact h.toArmed
      | ok chunk =>
          apply cancels_andThen (cancels_ioArmed (cancels_write h chunk))
          rintro ⟨⟩ w' h'
          apply (ih h').mono
          rintro (e | bytes) w'' hw''
          · exact hw''
          · refine ⟨hw''.1, ?_⟩
            rw [← hw''.2]
            simp [ByteStream.content?, Function.comp_def]

theorem cancels_createPrivateDir (h : Holding store ns body i start name content w)
    (path : Path) :
    Cancels store ns body i start
      (ArmedOr store ns body i start name fun _ ↦ Holding store ns body i start name content)
      (Store.createPrivateDir path) w := by
  apply cancels_andThen (cancels_ioHolding (cancels_lookHolding (.createDirAll path) rfl h))
  intro _ w' h'
  exact cancels_ioHolding (cancels_lookHolding (.setPermissions path 0o700) rfl h')

theorem cancels_isPresent (h : Holding store ns body i start name content w) (path : Path)
    (sizeBytes : ℕ) :
    Cancels store ns body i start
      (ArmedOr store ns body i start name fun _ ↦ Holding store ns body i start name content)
      (Store.isPresent path sizeBytes) w := by
  apply Machine.Drops.liftThen (cancels_lookHolding (.stat path) rfl h)
  rintro (source | metadata) w' h'
  · cases source with
    | notFound => exact h'
    | _ => exact h'.toArmed
  · exact h'

/-- The complete file goes to its place, or its copy is dropped. -/
theorem cancels_publishStaging (h : Holding store ns body i start name content w)
    (hcontent : body.content? = some content) :
    Cancels store ns body i start
      (ArmedOr store ns body i start name fun _ ↦ LeftBy store ns body start)
      (store.publishStaging name ns content) w := by
  apply Machine.Drops.ofExceptThen
  · exact fun _ _ ↦ h.toArmed
  intro key hkey
  rw [resolve_place (raw_of_keyForDigest hkey)]
  apply Machine.Drops.ofExceptThen
  · exact fun _ hfalse ↦ nomatch hfalse
  rintro finalPath hpath
  cases hpath
  apply cancels_andThen (cancels_createPrivateDir h _)
  rintro - w₁ h₁
  apply cancels_andThen (cancels_isPresent h₁ _ _)
  rintro (_ | _) w₂ h₂
  · have hrename : Cancels store ns body i start
        (ArmedOr store ns body i start name fun _ ↦ Moved store ns body i start name)
        (Store.io "publish staging file"
          (await (.rename name (store.place ns (store.sha256.hex content))))) w₂ := by
      apply cancels_io (cancels_rename h₂ hcontent)
      rintro (e | ⟨⟩) w' h'
      · exact h'
      · exact h'
    apply cancels_andThen hrename
    rintro - w₃ h₃
    apply Machine.Drops.liftThen (cancels_disarmGuard h₃)
    rintro - w₄ h₄
    apply Machine.Drops.liftThen (cancels_lookMoved (.syncDir _) rfl h₄)
    rintro - w₅ h₅
    exact h₅.toDrawn.leftBy h₅.gone
  · apply Machine.Drops.liftThen (cancels_dropGuard h₂.toArmed)
    exact fun _ w₃ h₃ ↦ h₃

theorem cancels_writeStaging (h : Armed store ns body i start name w) :
    Cancels store ns body i start
      (ArmedOr store ns body i start name fun _ ↦ LeftBy store ns body start)
      (store.writeStaging name ns body) w := by
  apply cancels_andThen (cancels_ioArmed (cancels_createStaging h))
  rintro - w₁ h₁
  apply cancels_andThen (cancels_writeChunks h₁)
  rintro content w₂ ⟨h₂, hbody⟩
  have hcontent : body.content? = some content := by simpa using hbody
  apply cancels_andThen (cancels_ioHolding (cancels_lookHolding (.flush name) rfl h₂))
  rintro - w₃ h₃
  apply cancels_andThen (cancels_ioHolding (cancels_lookHolding (.syncAll name) rfl h₃))
  exact fun _ w₄ h₄ ↦ cancels_publishStaging h₄ hcontent

/-- A request that draws a staging name has an armed guard. -/
theorem cancels_armStaging (hguard : start.guard i = none) :
    Cancels store ns body i start (fun name ↦ Armed store ns body i start name)
      (await .armStaging) start := by
  have hrelease : start.releaseGuard i = start := by rw [World.releaseGuard, hguard]
  apply cancels_await
  · rw [World.abandon, hrelease]
    exact ⟨fun _ hfree hdrawn ↦ absurd hfree hdrawn, fun _ _ ↦ rfl, Or.inl rfl⟩
  · intro hdetached
    cases hdetached
  · intro c a w' hperform
    refine ⟨guarded_of_ne (by simp) _ _, ?_⟩
    cases c with
    | granted id now =>
        simp only [World.perform, World.grant] at hperform
        split at hperform <;> cases hperform
        rename_i hfree
        exact ⟨⟨hfree, rfl, fun _ _ ↦ rfl, Or.inl rfl⟩, Function.update_self .., rfl⟩
    | failed | lost | listed => cases hperform

theorem cancels_putStream (hguard : start.guard i = none) :
    Cancels store ns body i start (fun _ ↦ LeftBy store ns body start)
      (store.putStream ns body) start := by
  apply Machine.Drops.liftThen (cancels_armStaging hguard)
  intro name w₁ h₁
  apply Machine.Drops.liftThen (cancels_writeStaging h₁)
  rintro (e | stored) w₂ h₂
  · apply Machine.Drops.liftThen (cancels_dropGuard h₂)
    exact fun _ w₃ h₃ ↦ h₃
  · exact h₂

end Operations

/-! ## Runs -/

section Runs

variable [Fintype ι] [DecidableEq ι]

/-- One request stores a body; it has no answer when it is dropped. -/
def storing (store : Store) (ns : ObjectNamespace) (body : ByteStream) (i : ι) (start : World ι) :
    Sys ι (World ι) Op Op.Ans (Option (Except StorageError (StoredObject store.uuid))) :=
  Machine.only none i (Program.bind (store.putStream ns body) fun r ↦ .done (some r)) start

/-- Whatever fails and wherever the request is dropped, it leaves no staging file
and the objects as before or with its complete content, exactly when its file is
not created after the drop. -/
theorem put_stream_cleans_up_iff (store : Store) (ns : ObjectNamespace) (body : ByteStream)
    (i : ι) (start : World ι) (hguard : start.guard i = none)
    (events : List (SysEvent ι Choice))
    (s : Sys ι (World ι) Op Op.Ans (Option (Except StorageError (StoredObject store.uuid))))
    (hrun : Run.run ((server ι).step none) (storing store ns body i start) events = some s)
    (r : Option (Except StorageError (StoredObject store.uuid))) (hdone : s.procs i = .done r) :
    LeftBy store ns body start s.world ↔
      Run.Along ((server ι).step none) (fun s e _ ↦ Machine.Finds i (Guarded i) s e)
        (storing store ns body i start) events := by
  refine Machine.Stage.run (fun w ↦ abandon_idem w i) (.live ?_) hrun hdone
  exact Machine.Drops.bind (cancels_putStream hguard) fun _ _ h ↦ h

end Runs

namespace Sample

/-- The request is dropped while its file is being created. -/
def droppedCreation : List (SysEvent (Fin 3) Choice) := [act 0 3, .abandon 0 true, act 0 3]

/-- It is dropped after that. -/
def droppedWrite : List (SysEvent (Fin 3) Choice) := [act 0 3, act 0 3, .abandon 0 true, act 0 3]

end Sample

theorem put_stream_cleans_up_iff_dropped_write :
    ∃ s : Sys (Fin 3) (World (Fin 3)) Op Op.Ans
        (Option (Except StorageError (StoredObject Sample.state.store.uuid))),
      Run.run ((server (Fin 3)).step none)
          (storing Sample.state.store ⟨Sample.uuid 1, Sample.uuid 2⟩ [.ok Sample.content] 0
            (World.start [Sample.partner])) Sample.droppedWrite = some s ∧
        (LeftBy Sample.state.store ⟨Sample.uuid 1, Sample.uuid 2⟩ [.ok Sample.content]
            (World.start [Sample.partner]) s.world ↔
          Run.Along ((server (Fin 3)).step none) (fun s e _ ↦ Machine.Finds 0 (Guarded 0) s e)
            (storing Sample.state.store ⟨Sample.uuid 1, Sample.uuid 2⟩ [.ok Sample.content] 0
              (World.start [Sample.partner])) Sample.droppedWrite) := by
  refine ⟨_, rfl, ?_⟩
  exact put_stream_cleans_up_iff Sample.state.store ⟨Sample.uuid 1, Sample.uuid 2⟩
    [.ok Sample.content] 0 (World.start [Sample.partner]) rfl Sample.droppedWrite _ rfl none rfl

/-- The file of a request that is gone stays in the staging directory. -/
theorem dropped_creation_leaves_file :
    ∃ s : Sys (Fin 3) (World (Fin 3)) Op Op.Ans
        (Option (Except StorageError (StoredObject Sample.state.store.uuid))),
      Run.run ((server (Fin 3)).step none)
          (storing Sample.state.store ⟨Sample.uuid 1, Sample.uuid 2⟩ [.ok Sample.content] 0
            (World.start [Sample.partner])) Sample.droppedCreation = some s ∧
        s.procs 0 = .done none ∧ s.world.staging (Sample.uuid 3) = some [] ∧
          ¬ LeftBy Sample.state.store ⟨Sample.uuid 1, Sample.uuid 2⟩ [.ok Sample.content]
            (World.start [Sample.partner]) s.world := by
  refine ⟨_, rfl, rfl, rfl, fun hleft ↦ ?_⟩
  have hgone := hleft.own (Sample.uuid 3) rfl (Option.some_ne_none (0 : Fin 3))
  cases hgone

end Otdel
