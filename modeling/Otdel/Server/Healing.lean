import Otdel.Library.Sequential
import Otdel.Server.StoreAlone

/-!
# Storing over what is there

An upload keeps the file that it finds in its place when the size is right, and
replaces any other one.
-/

namespace Otdel

open Program

section Uploads

variable {ι : Type} [Fintype ι] [DecidableEq ι] {i : ι} {w w₀ : World ι} {store : Store}
  {ns : ObjectNamespace} {content : Bytes} {α β : Type}

/-- The program runs alone, under these choices of the environment. -/
def playAlone (i : ι) {α : Type} (p : Prog α) (choices : List Choice) (w : World ι) :
    Option (α × World ι) :=
  (server ι).play i p choices w

/-- If the program ends with a value, `Post` holds. -/
abbrev Succeeds (i : ι) {ε α : Type} (Post : α → World ι → Prop) (p : TryProg ε α)
    (w : World ι) : Prop :=
  (server ι).Succeeds i Post p w

/-- The staging file holds what was written, and the objects are as before. -/
structure Filled (w₀ : World ι) (name : Uuid) (written : Bytes) (w : World ι) : Prop where
  staging : w.staging name = some written
  objects : w.objects = w₀.objects

/-- What a successful upload has found in its place, and done about it. -/
structure PutOver (w₀ : World ι) (ns : ObjectNamespace) (content : Bytes)
    (stored : StoredObject store.uuid) (w : World ι) : Prop where
  kept : stored.alreadyPresent = true → w.objects = w₀.objects ∧
    ∃ old, w₀.objects (store.place ns (store.sha256.hex content)) = some old ∧
      old.length = content.length
  replaced : stored.alreadyPresent = false →
    w.objects = Function.update w₀.objects (store.place ns (store.sha256.hex content))
      (some content) ∧
    ∀ old, w₀.objects (store.place ns (store.sha256.hex content)) = some old →
      old.length ≠ content.length

/-! ## One operation -/

section Operations

variable {w' : World ι} {choice : Choice} {name : Uuid} {path : Path}

theorem perform_createStaging_ok
    (h : w.perform i (.createStaging name) choice = some (.ok (), w')) :
    w' = w.setStaging name (some []) := by
  cases choice with
  | granted id now =>
      simp only [World.perform, World.grant] at h
      split at h <;> cases h
      rfl
  | failed | lost | listed => cases h

theorem perform_write_ok {chunk : Bytes}
    (h : w.perform i (.write name chunk) choice = some (.ok (), w')) :
    w' = w.setStaging name ((w.staging name).map fun content ↦ content ++ chunk) := by
  cases choice with
  | granted id now =>
      cases h
      rfl
  | failed | lost | listed => cases h

/-- The operations that leave all files as they are. -/
def Op.KeepsFiles : Op → Prop
  | .flush _ => True
  | .syncAll _ => True
  | .createDirAll _ => True
  | .setPermissions _ _ => True
  | _ => False

theorem perform_keepsFiles {op : Op} (hop : op.KeepsFiles) {a : op.Ans}
    (h : w.perform i op choice = some (a, w')) :
    w'.objects = w.objects ∧ w'.staging = w.staging := by
  cases op <;> first | exact hop.elim | (cases choice <;> cases h <;> exact ⟨rfl, rfl⟩)

theorem perform_stat {a : Except IoError Metadata}
    (h : w.perform i (.stat path) choice = some (a, w')) :
    w'.objects = w.objects ∧ w'.staging = w.staging ∧
      ((∃ content, w.objects path = some content ∧ a = .ok ⟨true, content.length⟩) ∨
        (w.objects path = none ∧ a = .error .notFound) ∨ a = .error .other) := by
  cases choice with
  | granted id now =>
      simp only [World.perform, World.grant] at h
      split at h <;> cases h
      · rename_i content hobject
        exact ⟨rfl, rfl, Or.inl ⟨content, hobject, rfl⟩⟩
      · rename_i hobject
        exact ⟨rfl, rfl, Or.inr (Or.inl ⟨hobject, rfl⟩)⟩
  | failed outage =>
      cases h
      exact ⟨rfl, rfl, Or.inr (Or.inr rfl)⟩
  | lost | listed => cases h

theorem perform_rename_ok (h : w.perform i (.rename name path) choice = some (.ok (), w')) :
    ∃ content, w.staging name = some content ∧
      w' = (w.setStaging name none).setObject path content := by
  cases choice with
  | granted id now =>
      simp only [World.perform, World.grant] at h
      split at h <;> cases h
      rename_i content hstaging
      exact ⟨content, hstaging, rfl⟩
  | failed | lost | listed => cases h

end Operations

/-! ## The program -/

section Programs

variable {name : Uuid} {written : Bytes}

omit [Fintype ι] [DecidableEq ι] in
theorem Filled.keeps (h : Filled w₀ name written w) {w' : World ι}
    (hfiles : w'.objects = w.objects ∧ w'.staging = w.staging) : Filled w₀ name written w' :=
  ⟨(congrFun hfiles.2 name).trans h.staging, hfiles.1.trans h.objects⟩

theorem gives_keepsFiles (h : Filled w₀ name written w) {op : Op} (hop : op.KeepsFiles) :
    (server ι).Gives i (fun _ ↦ Filled w₀ name written) (await op) w :=
  fun _ _ _ hperform ↦ h.keeps (perform_keepsFiles hop hperform)

theorem succeeds_io {operation : String} {p : Prog (Except IoError α)} {Post : World ι → Prop}
    (h : (server ι).Gives i (fun _ ↦ Post) p w) :
    Succeeds i (fun _ ↦ Post) (Store.io operation p) w :=
  Machine.Succeeds.mapError _ (h.mono fun _ _ hpost _ _ ↦ hpost)

theorem succeeds_createPrivateDir (h : Filled w₀ name written w) (path : Path) :
    Succeeds i (fun _ ↦ Filled w₀ name written) (Store.createPrivateDir path) w := by
  apply Machine.Succeeds.andThen (succeeds_io (gives_keepsFiles h (by trivial)))
  intro _ w' h'
  exact succeeds_io (gives_keepsFiles h' (by trivial))

theorem succeeds_writeChunks {body : ByteStream} {hashed : Bytes} (h : Filled w₀ name hashed w) :
    Succeeds i (fun content w' ↦ Filled w₀ name content w' ∧
      ∃ bytes, body.content? = some bytes ∧ content = hashed ++ bytes)
      (Store.writeChunks name body hashed) w := by
  induction body generalizing hashed w with
  | nil => exact Machine.Succeeds.return ⟨h, [], rfl, (List.append_nil _).symm⟩
  | cons chunk rest ih =>
      cases chunk with
      | error e => exact Machine.Succeeds.fail
      | ok chunk =>
          have hwrite : Succeeds i (fun _ ↦ Filled w₀ name (hashed ++ chunk))
              (Store.io "write staging file" (await (.write name chunk))) w :=
            Machine.Succeeds.mapError _ fun choice answer w' hperform a ha ↦ by
              subst ha
              rw [perform_write_ok hperform]
              exact ⟨by simp [World.setStaging, h.staging], h.objects⟩
          apply hwrite.andThen
          intro _ w' h'
          refine Machine.Gives.mono (ih h') fun r w'' hr content hcontent ↦ ?_
          obtain ⟨hfilled, bytes, hbytes, rfl⟩ := hr content hcontent
          exact ⟨hfilled, chunk ++ bytes, by rw [ByteStream.content?, hbytes]; rfl,
            List.append_assoc _ _ _⟩

theorem succeeds_isPresent (h : Filled w₀ name written w) (path : Path) (sizeBytes : ℕ) :
    Succeeds i (fun present w' ↦ Filled w₀ name written w' ∧
      (present = true ↔ ∃ old, w₀.objects path = some old ∧ old.length = sizeBytes))
      (Store.isPresent path sizeBytes) w := by
  have hstat : (server ι).Gives i (fun answer w' ↦ Filled w₀ name written w' ∧
      ((∃ content, w₀.objects path = some content ∧ answer = .ok ⟨true, content.length⟩) ∨
        (w₀.objects path = none ∧ answer = .error .notFound) ∨ answer = .error .other))
      (await (.stat path)) w := by
    intro choice answer w' hperform
    obtain ⟨hobjects, hstaging, hanswer⟩ := perform_stat hperform
    rw [h.objects] at hanswer
    exact ⟨h.keeps ⟨hobjects, hstaging⟩, hanswer⟩
  apply Machine.Succeeds.liftThen hstat
  rintro answer w' ⟨h', ⟨content, hobject, rfl⟩ | ⟨hobject, rfl⟩ | rfl⟩
  · exact Machine.Succeeds.return ⟨h', by simp [hobject]⟩
  · exact Machine.Succeeds.return ⟨h', by simp [hobject]⟩
  · exact Machine.Succeeds.fail

/-- The operations after which the objects are as before. -/
def Op.KeepsObjects : Op → Prop
  | .dropGuard => True
  | .disarmGuard => True
  | .syncDir _ => True
  | _ => False

theorem gives_sameObjects {op : Op} (hop : op.KeepsObjects) :
    (server ι).Gives i (fun _ w' ↦ w'.objects = w.objects) (await op) w := by
  intro choice a w' hperform
  have hperform : w.perform i op choice = some (a, w') := hperform
  cases op with
  | dropGuard =>
      cases choice <;> cases hperform
      exact (World.filesKept_releaseGuard w i).objects
  | disarmGuard | syncDir =>
      cases choice <;> cases hperform
      rfl
  | _ => exact hop.elim

theorem succeeds_publishStaging (h : Filled w₀ name content w) :
    Succeeds i (fun stored w' ↦ stored.IsOf ns content ∧ PutOver w₀ ns content stored w')
      (store.publishStaging name ns content) w := by
  apply Machine.Succeeds.ofExceptThen
  intro key hkey
  apply Machine.Succeeds.ofExceptThen
  intro path hpath
  have hplace : path = store.place ns (store.sha256.hex content) := by
    rw [resolve_place (raw_of_keyForDigest hkey)] at hpath
    exact (Except.ok.inj hpath).symm
  subst hplace
  apply (succeeds_createPrivateDir h _).andThen
  intro _ w₁ h₁
  apply (succeeds_isPresent h₁ _ _).andThen
  rintro present w₂ ⟨h₂, hpresent⟩
  have hof : StoredObject.IsOf
      (⟨key, store.sha256.hex content, content.length, present⟩ : StoredObject store.uuid)
      ns content := ⟨rfl, rfl, hkey⟩
  cases present with
  | true =>
      apply Machine.Succeeds.liftThen (gives_sameObjects (by trivial))
      intro _ w₃ h₃
      refine Machine.Succeeds.return ⟨hof, fun _ ↦ ⟨h₃.trans h₂.objects, hpresent.mp rfl⟩, ?_⟩
      intro heq
      cases heq
  | false =>
      have hrename : Succeeds i (fun _ w' ↦ w'.objects = Function.update w₀.objects
          (store.place ns (store.sha256.hex content)) (some content))
          (Store.io "publish staging file"
            (await (.rename name (store.place ns (store.sha256.hex content))))) w₂ :=
        Machine.Succeeds.mapError _ fun choice answer w' hperform a ha ↦ by
          subst ha
          obtain ⟨written, hwritten, rfl⟩ := perform_rename_ok hperform
          obtain rfl : content = written := Option.some.inj (h₂.staging.symm.trans hwritten)
          simp [World.setObject, World.setStaging, h₂.objects]
      apply hrename.andThen
      intro _ w₃ h₃
      apply Machine.Succeeds.liftThen (gives_sameObjects (by trivial))
      intro _ w₄ h₄
      apply Machine.Succeeds.liftThen (gives_sameObjects (by trivial))
      intro _ w₅ h₅
      refine Machine.Succeeds.return
        ⟨hof, fun heq ↦ (by cases heq), fun _ ↦ ⟨h₅.trans (h₄.trans h₃), ?_⟩⟩
      intro old hold hlength
      exact Bool.false_ne_true (hpresent.mpr ⟨old, hold, hlength⟩)

theorem succeeds_writeStaging {body : ByteStream} (hbody : body.content? = some content)
    (hw : w.objects = w₀.objects) :
    Succeeds i (fun stored w' ↦ stored.IsOf ns content ∧ PutOver w₀ ns content stored w')
      (store.writeStaging name ns body) w := by
  have hcreate : Succeeds i (fun _ ↦ Filled w₀ name [])
      (Store.io "create staging file" (await (.createStaging name))) w :=
    Machine.Succeeds.mapError _ fun choice answer w' hperform a ha ↦ by
      subst ha
      rw [perform_createStaging_ok hperform]
      exact ⟨by simp [World.setStaging], hw⟩
  apply hcreate.andThen
  intro _ w₁ h₁
  apply (succeeds_writeChunks h₁).andThen
  rintro written w₂ ⟨h₂, bytes, hbytes, hwritten⟩
  rw [List.nil_append] at hwritten
  obtain rfl : written = content := hwritten.trans (Option.some.inj (hbytes.symm.trans hbody))
  apply Machine.Succeeds.andThen (succeeds_io (gives_keepsFiles h₂ (by trivial)))
  intro _ w₃ h₃
  apply Machine.Succeeds.andThen (succeeds_io (gives_keepsFiles h₃ (by trivial)))
  intro _ w₄ h₄
  exact succeeds_publishStaging h₄

theorem succeeds_putStream {body : ByteStream} (hbody : body.content? = some content) :
    Succeeds i (fun stored w' ↦ stored.IsOf ns content ∧ PutOver w ns content stored w')
      (store.putStream ns body) w := by
  have harm : (server ι).Gives i (fun _ w' ↦ w'.objects = w.objects) (await .armStaging) w := by
    intro choice a w' hperform
    have hperform : w.perform i .armStaging choice = some (a, w') := hperform
    cases choice with
    | granted id now =>
        simp only [World.perform, World.grant] at hperform
        split at hperform <;> cases hperform
        rfl
    | failed | lost | listed => cases hperform
  apply Machine.Succeeds.liftThen harm
  intro name w₁ h₁
  apply Machine.Succeeds.liftThen (succeeds_writeStaging hbody h₁)
  intro r w₂ h₂
  cases r with
  | ok stored => exact Machine.Succeeds.return (h₂ stored rfl)
  | error e =>
      exact Machine.Succeeds.liftThen (gives_sameObjects (by trivial)) fun _ _ _ ↦
        Machine.Succeeds.fail

/-- An object in its place is read as it is. -/
theorem play_openObject {key : ObjectKey store.uuid} {sha256 : Text}
    (hkey : key.raw = ns.keyText store.uuid sha256)
    (hobject : w.objects (store.place ns sha256) = some content) (id : Uuid) (now : Timestamp) :
    playAlone i (store.openObject key) (List.replicate 2 (.granted id now)) w =
      some (.ok ⟨content.length, content⟩, w) := by
  have hstat : w.perform i (.stat (store.place ns sha256)) (.granted id now) =
      some (.ok ⟨true, content.length⟩, w) := by
    simp only [World.perform, World.grant, hobject]
  have hopen : w.perform i (.openFile (store.place ns sha256)) (.granted id now) =
      some (.ok content, w) := by
    simp only [World.perform, World.grant, hobject]
  unfold playAlone Store.openObject
  rw [resolve_place hkey]
  refine (congrArg (Option.bind · _) hstat).trans ?_
  exact (congrArg (Option.bind · _) hopen).trans rfl

end Programs

/-! ## The result -/

/-- What the claim of a successful upload comes to. -/
structure Readable (i : ι) (ns : ObjectNamespace) (content : Bytes) (w : World ι)
    (stored : StoredObject store.uuid) (w' : World ι) : Prop where
  opens : ∀ id now, playAlone i (store.openObject stored.key)
    (List.replicate 2 (.granted id now)) w' = some (.ok ⟨stored.sizeBytes, content⟩, w')
  sha256 : stored.sha256 = store.sha256.hex content
  identical : stored.alreadyPresent = true →
    w.objects (store.place ns (store.sha256.hex content)) = some content

theorem put_stream_readable_iff {body : ByteStream} (hbody : body.content? = some content)
    {choices : List Choice} {stored : StoredObject store.uuid} {w' : World ι}
    (hrun : playAlone i (store.putStream ns body) choices w = some (.ok stored, w')) :
    Readable i ns content w stored w' ↔
      ∀ old, w.objects (store.place ns (store.sha256.hex content)) = some old →
        old.length = content.length → old = content := by
  obtain ⟨hof, hput⟩ :=
    Machine.gives_iff.mp (succeeds_putStream hbody) choices _ w' hrun stored rfl
  constructor
  · intro h old hold hlength
    cases hpresent : stored.alreadyPresent with
    | true => exact Option.some.inj (hold.symm.trans (h.identical hpresent))
    | false => exact ((hput.replaced hpresent).2 old hold hlength).elim
  · intro h
    have hobject : w'.objects (store.place ns (store.sha256.hex content)) = some content := by
      cases hpresent : stored.alreadyPresent with
      | true =>
          obtain ⟨hsame, old, hold, hlength⟩ := hput.kept hpresent
          rw [hsame, hold, h old hold hlength]
      | false => rw [(hput.replaced hpresent).1, Function.update_self]
    refine ⟨fun id now ↦ ?_, hof.sha256, fun hpresent ↦ ?_⟩
    · rw [hof.sizeBytes]
      exact play_openObject (hof.sha256 ▸ raw_of_keyForDigest hof.key) hobject id now
    · rw [← (hput.kept hpresent).1, hobject]

end Uploads

/-! ## A file that is there -/

namespace Sample

def ns : ObjectNamespace := ⟨uuid 1, uuid 2⟩

/-- A store that holds this file in the place of the upload. -/
def holding (file : Bytes) : World (Fin 1) :=
  (World.start []).setObject (state.store.place ns (state.store.sha256.hex content)) file

/-- Every operation of the upload is carried out. -/
def grants (n : ℕ) : List Choice := List.replicate n (.granted (uuid 3) 0)

def truncated : Bytes := [0x25, 0x50]

def damaged : Bytes := [0x25, 0x50, 0x44, 0x46, 0x00]

/-- The upload over this file, and what it says of it. -/
theorem exists_play (file : Bytes) (n : ℕ) (present : Bool)
    (h : ((playAlone 0 (state.store.putStream ns [.ok content]) (grants n) (holding file)).any
      fun r ↦ r.1.toOption.any fun stored ↦ stored.alreadyPresent = present) = true) :
    ∃ stored w', playAlone 0 (state.store.putStream ns [.ok content]) (grants n) (holding file) =
      some (.ok stored, w') ∧ stored.alreadyPresent = present := by
  obtain ⟨⟨r, w'⟩, hplay, hr⟩ := (Option.any_eq_true _ _).mp h
  cases r with
  | error e => cases hr
  | ok stored => exact ⟨stored, w', hplay, of_decide_eq_true hr⟩

end Sample

open Sample in
theorem put_stream_readable_iff_truncated : ∃ stored w',
    playAlone 0 (state.store.putStream ns [.ok content]) (grants 11) (holding truncated) =
      some (.ok stored, w') ∧ Readable 0 ns content (holding truncated) stored w' := by
  obtain ⟨stored, w', hrun, -⟩ := exists_play truncated 11 false (by decide +kernel)
  have hbody : ByteStream.content? [.ok content] = some content := rfl
  refine ⟨stored, w', hrun, (put_stream_readable_iff hbody hrun).mpr ?_⟩
  intro old hold hlength
  simp only [holding, World.setObject, Function.update_self, Option.some.injEq] at hold
  subst hold
  cases hlength

open Sample in
/-- A file of the same size is kept, whatever its bytes. -/
theorem damaged_file_stays : ∃ stored w',
    playAlone 0 (state.store.putStream ns [.ok content]) (grants 9) (holding damaged) =
      some (.ok stored, w') ∧ ¬ Readable 0 ns content (holding damaged) stored w' := by
  obtain ⟨stored, w', hrun, hpresent⟩ := exists_play damaged 9 true (by decide +kernel)
  refine ⟨stored, w', hrun, fun h ↦ ?_⟩
  have hidentical := h.identical hpresent
  simp [holding, World.setObject, damaged, content] at hidentical

end Otdel
