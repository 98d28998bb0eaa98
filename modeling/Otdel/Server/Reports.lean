import Otdel.Server.Handlers

/-!
# Originals that were not recorded

An upload that has stored a new object and then fails has to report it.  The
second `file` part of a request and a failed publication do; the other errors
after the file do not.
-/

namespace Otdel

open Program

/-- A new object in its place, or a report of one. -/
inductive Effect where
  | stored (path : Path)
  | orphaned (key : Text) (sizeBytes : ℕ)

def Effect.ofCall : Sigma Op.Ans → Option Effect
  | ⟨.rename _ path, .ok ()⟩ => some (.stored path)
  | ⟨.report (.orphanedObject key sizeBytes), _⟩ => some (.orphaned key sizeBytes)
  | _ => none

/-- The effects of a transcript, in their order. -/
def effectsOf (calls : List (Sigma Op.Ans)) : List Effect := calls.filterMap Effect.ofCall

/-- A request that fails has reported the objects it stored and no others; one
that succeeds has reported none. -/
def Reported (store : Store) (effects : List Effect) : Except ApiError Response → Prop
  | .error _ => ∀ path, .stored path ∈ effects →
      (∃ key sizeBytes, .orphaned key sizeBytes ∈ effects) ∧
        ∀ key sizeBytes, .orphaned key sizeBytes ∈ effects →
          ObjectKey.resolveWithin store.objectsRoot key = .ok path
  | .ok _ => ∀ key sizeBytes, .orphaned key sizeBytes ∉ effects

namespace Upload

/-- How a body goes on after its `file` part. -/
inductive Remainder where
  | ends
  | secondFile
  | breaksOff
  deriving DecidableEq

def remainder (wellFormed : Bool) : List Field → ℕ → Remainder
  | [], _ => if wellFormed then .ends else .breaksOff
  | field :: rest, otherFieldBytes =>
      if field.name ≠ some "file".toList then
        match drainChunks field.complete field.chunks otherFieldBytes with
        | .ok otherFieldBytes => remainder wellFormed rest otherFieldBytes
        | .error _ => .breaksOff
      else .secondFile

/-- The first `file` part, if the parts before it are drained, and what follows
it. -/
def fileAndRemainder (wellFormed : Bool) : List Field → ℕ → Option (Field × Remainder)
  | [], _ => none
  | field :: rest, otherFieldBytes =>
      if field.name ≠ some "file".toList then
        match drainChunks field.complete field.chunks otherFieldBytes with
        | .ok otherFieldBytes => fileAndRemainder wellFormed rest otherFieldBytes
        | .error _ => none
      else some (field, remainder wellFormed rest otherFieldBytes)

/-- The body comes to a second file, or to its end after a file whose size can be
recorded. -/
def WellAfter (field : Field) (remainder : Remainder) : Prop :=
  remainder = .secondFile ∨ (remainder = .ends ∧ field.chunks.flatten.length ≤ Routes.maxBigint)

/-- After its file, if there is one, the body goes on well. -/
def GoesOn (multipart : Multipart) : Prop :=
  ∀ field remainder, fileAndRemainder multipart.wellFormed multipart.fields 0 =
    some (field, remainder) → WellAfter field remainder

end Upload

/-! ## Effects -/

/-- Where a new object is. -/
def StoredObject.placed {store : Store} (stored : StoredObject store.uuid) : List Effect :=
  if stored.alreadyPresent then []
  else [.stored (store.objectsRoot ++ stored.key.raw.splitOn '/')]

/-- The report of a new object. -/
def StoredObject.reported {uuid : UuidCrate} (stored : StoredObject uuid) : List Effect :=
  if stored.alreadyPresent then [] else [.orphaned stored.key.raw stored.sizeBytes]

/-- A call without an effect. -/
def Op.Silent (op : Op) : Prop := ∀ answer, Effect.ofCall ⟨op, answer⟩ = none

/-- The effects of a program of the server, whatever it is answered. -/
abbrev Effects {α : Type} (Post : List Effect → α → Prop) (p : Prog α) : Prop :=
  Yields Effect.ofCall Post p

/-- Stored is what the result tells of. -/
def PlacedBy {store : Store} {ε : Type} (effects : List Effect)
    (r : Except ε (StoredObject store.uuid)) : Prop :=
  match r with
  | .ok stored => effects = stored.placed
  | .error _ => effects = []

section Rules

variable {store : Store} {ns : ObjectNamespace} {α β ε : Type}

theorem effects_silent {p : Prog α} (h : p.Calls Op.Silent) :
    Effects (fun effects _ ↦ effects = []) p := Yields.of_calls h

/-- Go on after calls without an effect. -/
theorem effects_silentThen {Post : List Effect → Except ε β → Prop} {p : TryProg ε α}
    {f : α → TryProg ε β} (hp : Calls Op.Silent p) (herror : ∀ e, Post [] (.error e))
    (hf : ∀ a, Effects Post (f a)) : Effects Post (p >>= f : TryProg ε β) := by
  apply Yields.andThen (effects_silent hp)
  · rintro _ e rfl
    exact herror e
  · rintro _ a rfl
    exact hf a

theorem effects_silentLift {Post : List Effect → Except ε β → Prop} {p : Prog α}
    {f : α → TryProg ε β} (hp : p.Calls Op.Silent) (hf : ∀ a, Effects Post (f a)) :
    Effects Post (lift p >>= f : TryProg ε β) := by
  apply Yields.liftThen (effects_silent hp)
  rintro _ a rfl
  exact hf a

theorem silent_of_ne {op : Op} (hrename : ∀ name path, op ≠ .rename name path)
    (hreport : ∀ key sizeBytes, op ≠ .report (.orphanedObject key sizeBytes)) : op.Silent := by
  intro answer
  unfold Effect.ofCall
  split
  · rename_i heq
    cases heq
    exact absurd rfl (hrename _ _)
  · rename_i heq
    cases heq
    exact absurd rfl (hreport _ _)
  · rfl

/-- The one call that makes an object. -/
theorem effects_rename (name : Uuid) (path : Path) :
    Effects (fun effects r ↦ match r with
        | .ok () => effects = [.stored path]
        | .error _ => effects = [])
      (Store.io "publish staging file" (await (.rename name path))) := by
  apply Yields.mapError
  refine @Yields.perform Op Op.Ans Effect Effect.ofCall (.rename name path) _ fun answer ↦ ?_
  cases answer <;> rfl

theorem effects_publishStaging (name : Uuid) (content : Bytes) :
    Effects PlacedBy (store.publishStaging name ns content) := by
  apply Yields.ofExceptThen
  · exact fun _ _ ↦ rfl
  intro key _
  rw [ObjectKey.resolveWithin_raw]
  apply Yields.ofExceptThen
  · exact fun _ hfalse ↦ nomatch hfalse
  rintro _ ⟨⟩
  apply effects_silentThen
  · exact Store.calls_createPrivateDir (silent_of_ne (by simp) (by simp))
      fun _ ↦ silent_of_ne (by simp) (by simp)
  · exact fun _ ↦ rfl
  intro _
  apply effects_silentThen
  · exact Store.calls_isPresent (silent_of_ne (by simp) (by simp)) _
  · exact fun _ ↦ rfl
  rintro (_ | _)
  · apply Yields.andThen (effects_rename name _)
    · exact fun _ _ h ↦ h
    · rintro _ ⟨⟩ rfl
      apply effects_silentLift (calls_perform (silent_of_ne (by simp) (by simp)))
      intro _
      apply effects_silentLift (calls_perform (silent_of_ne (by simp) (by simp)))
      exact fun _ ↦ Yields.done rfl
  · apply effects_silentLift (calls_perform (silent_of_ne (by simp) (by simp)))
    exact fun _ ↦ Yields.done rfl

theorem effects_writeStaging (name : Uuid) (body : ByteStream) :
    Effects PlacedBy (store.writeStaging name ns body) := by
  apply effects_silentThen
  · exact Calls.mapError _ (calls_perform (silent_of_ne (by simp) (by simp)))
  · exact fun _ ↦ rfl
  intro _
  apply effects_silentThen
  · exact Store.calls_writeChunks (fun _ ↦ silent_of_ne (by simp) (by simp)) body []
  · exact fun _ ↦ rfl
  intro content
  apply effects_silentThen
  · exact Calls.mapError _ (calls_perform (silent_of_ne (by simp) (by simp)))
  · exact fun _ ↦ rfl
  intro _
  apply effects_silentThen
  · exact Calls.mapError _ (calls_perform (silent_of_ne (by simp) (by simp)))
  · exact fun _ ↦ rfl
  exact fun _ ↦ effects_publishStaging name content

/-- A body that is stored leaves a new object, unless it was there. -/
theorem effects_putStream (body : ByteStream) : Effects PlacedBy (store.putStream ns body) := by
  apply effects_silentLift (calls_perform (silent_of_ne (by simp) (by simp)))
  intro name
  apply Yields.liftThen (effects_writeStaging name body)
  rintro effects (e | stored) h
  · apply effects_silentLift (calls_perform (silent_of_ne (by simp) (by simp)))
    rw [show effects = [] from h]
    exact fun _ ↦ Yields.done rfl
  · apply Yields.done
    rw [List.append_nil]
    exact h

end Rules

namespace Upload

variable {state : AppState} {ns : ObjectNamespace}

/-- A part that is received leaves what it has stored. -/
theorem effects_readFileField (field : Field) :
    Effects (fun effects r ↦ match r with
        | .ok file => effects = file.stored.placed ∧ file.IsOf ns field
        | .error _ => effects = [])
      (readFileField state ns field) := by
  have hplaced : Effects (fun effects r ↦ match r with
      | .ok file => effects = file.stored.placed
      | .error _ => effects = []) (readFileField state ns field) := by
    apply Yields.ofExceptThen
    · exact fun _ _ ↦ rfl
    rintro ⟨head, rest⟩ _
    dsimp only
    split
    · exact Yields.done rfl
    apply Yields.ofExceptThen
    · exact fun _ _ ↦ rfl
    intro mediaType _
    apply Yields.ofExceptThen
    · exact fun _ _ ↦ rfl
    intro _ _
    have hput : Effects PlacedBy (mapError ApiError.ofStorageError (state.store.putStream ns
        (limitSize state.maxUploadBytes 0 (head.map .ok ++ fieldStream field.complete rest)))) := by
      apply Yields.mapError
      apply (effects_putStream _).mono
      rintro effects (e | stored) h
      · exact h
      · exact h
    apply Yields.andThen hput
    · exact fun _ _ h ↦ h
    · intro effects stored h
      apply Yields.done
      rw [List.append_nil]
      exact h
  constructor
  intro calls r hperforms
  have heffects := hplaced.post calls r hperforms
  cases r with
  | ok file => exact ⟨heffects, performs_readFileField hperforms⟩
  | error e => exact heffects

theorem effects_reportOrphanedObject {uuid : UuidCrate} (stored : StoredObject uuid) :
    Effects (fun effects _ ↦ effects = stored.reported) (reportOrphanedObject stored) := by
  obtain ⟨key, sha256, sizeBytes, present⟩ := stored
  cases present with
  | true => exact Yields.done rfl
  | false =>
      refine @Yields.perform Op Op.Ans Effect Effect.ofCall
        (.report (.orphanedObject key.raw sizeBytes)) _ fun _ ↦ rfl

/-- After the file: the rest of the body decides. -/
def AfterFile (file : ReceivedFile state.store.uuid) (before : List Effect) :
    Remainder → List Effect → Except ApiError (ReceivedFile state.store.uuid) → Prop
  | .ends, effects, r => effects = before ∧ r = .ok file
  | .secondFile, effects, r => effects = before ++ file.stored.reported ∧ ∃ e, r = .error e
  | .breaksOff, effects, r => effects = before ∧ ∃ e, r = .error e

theorem effects_receiveRest (wellFormed : Bool) (fields : List Field) (otherFieldBytes : ℕ)
    (file : ReceivedFile state.store.uuid) (before : List Effect) :
    Effects (fun effects r ↦
        AfterFile file before (remainder wellFormed fields otherFieldBytes) (before ++ effects) r)
      (receiveFields state ns wellFormed fields (some file) otherFieldBytes) := by
  induction fields generalizing otherFieldBytes with
  | nil =>
      unfold receiveFields remainder
      cases wellFormed with
      | false => exact Yields.done ⟨List.append_nil _, _, rfl⟩
      | true => exact Yields.done ⟨List.append_nil _, rfl⟩
  | cons field rest ih =>
      unfold receiveFields remainder
      split
      · cases hdrain : drainChunks field.complete field.chunks otherFieldBytes with
        | error e => exact Yields.done ⟨List.append_nil _, _, rfl⟩
        | ok bytes => exact ih bytes
      · apply Yields.liftThen (effects_reportOrphanedObject file.stored)
        rintro _ _ rfl
        apply Yields.done
        rw [List.append_nil]
        exact ⟨rfl, _, rfl⟩

/-- What an intake has done when it ends. -/
def Intake (ns : ObjectNamespace) (found : Option (Field × Remainder)) (effects : List Effect)
    (r : Except ApiError (ReceivedFile state.store.uuid)) : Prop :=
  (effects = [] ∧ ∃ e, r = .error e) ∨ ∃ field remainder file, found = some (field, remainder) ∧
    file.IsOf ns field ∧ AfterFile file file.stored.placed remainder effects r

theorem effects_receiveFields (wellFormed : Bool) (fields : List Field) (otherFieldBytes : ℕ) :
    Effects (Intake ns (fileAndRemainder wellFormed fields otherFieldBytes))
      (receiveFields state ns wellFormed fields none otherFieldBytes) := by
  induction fields generalizing otherFieldBytes with
  | nil =>
      unfold receiveFields
      cases wellFormed with
      | false => exact Yields.done (Or.inl ⟨rfl, _, rfl⟩)
      | true => exact Yields.done (Or.inl ⟨rfl, _, rfl⟩)
  | cons field rest ih =>
      unfold receiveFields fileAndRemainder
      split
      · cases hdrain : drainChunks field.complete field.chunks otherFieldBytes with
        | error e => exact Yields.done (Or.inl ⟨rfl, _, rfl⟩)
        | ok bytes => exact ih bytes
      · apply Yields.andThen (effects_readFileField field)
        · exact fun _ e h ↦ Or.inl ⟨h, e, rfl⟩
        · rintro _ file ⟨rfl, hof⟩
          apply (effects_receiveRest wellFormed rest otherFieldBytes file file.stored.placed).mono
          exact fun effects r h ↦ Or.inr ⟨field, _, file, rfl, hof, h⟩

end Upload

/-! ## Uploads -/

section Uploads

variable {state : AppState} {session : Session} {partnerId : Uuid}

theorem silent_sql (s : Sql) : (Op.sql s).Silent := silent_of_ne (by simp) (by simp)

theorem silent_brackets (bureauId : Uuid) : Op.Brackets Op.Silent bureauId where
  begin := silent_of_ne (by simp) (by simp)
  commit := silent_of_ne (by simp) (by simp)
  rollback := silent_of_ne (by simp) (by simp)

/-- A file is recorded, or its object is reported, unless its size cannot be recorded. -/
theorem effects_record (file : ReceivedFile state.store.uuid) :
    Effects (fun effects r ↦ (file.stored.sizeBytes ≤ Routes.maxBigint ∧
        ((effects = [] ∧ ∃ response, r = .ok response) ∨
          (effects = file.stored.reported ∧ ∃ e, r = .error e))) ∨
        (Routes.maxBigint < file.stored.sizeBytes ∧ effects = [] ∧ ∃ e, r = .error e))
      (Routes.record state session partnerId file) := by
  apply Yields.ofExceptThen
  · intro e hnew
    unfold Routes.newMaterial at hnew
    split at hnew
    · rename_i hsize
      exact Or.inr ⟨hsize, rfl, e, rfl⟩
    · cases hnew
  intro new hnew
  have hsize : file.stored.sizeBytes ≤ Routes.maxBigint := by
    unfold Routes.newMaterial at hnew
    split at hnew
    · cases hnew
    · rename_i hsize
      exact not_lt.mp hsize
  have hpublish : Calls Op.Silent (Routes.publish state session partnerId new) :=
    Routes.calls_publish (silent_brackets session.bureauId) (fun s _ ↦ silent_sql s)
      fun _ s _ ↦ silent_sql s
  apply effects_silentLift hpublish
  rintro (error | outcome)
  · apply effects_silentLift (calls_perform (silent_of_ne (by simp) (by simp)))
    intro _
    apply Yields.liftThen (Upload.effects_reportOrphanedObject file.stored)
    rintro _ _ rfl
    apply Yields.done
    rw [List.append_nil]
    exact Or.inl ⟨hsize, Or.inr ⟨rfl, _, rfl⟩⟩
  · exact Yields.done (Or.inl ⟨hsize, Or.inl ⟨rfl, _, rfl⟩⟩)

/-- What an upload has done with its file when it is answered: all is well if the
object is recorded or reported. -/
def Accounted (file : ReceivedFile state.store.uuid) (well : Prop) (effects : List Effect)
    (r : Except ApiError Response) : Prop :=
  (well ∧ ((effects = file.stored.placed ∧ ∃ response, r = .ok response) ∨
      (effects = file.stored.placed ++ file.stored.reported ∧ ∃ e, r = .error e))) ∨
    (¬ well ∧ effects = file.stored.placed ∧ ∃ e, r = .error e)

theorem effects_upload (multipart : Multipart) :
    Effects (fun effects r ↦ (effects = [] ∧ ∃ e, r = .error e) ∨
        ∃ field remainder, ∃ file : ReceivedFile state.store.uuid,
          Upload.fileAndRemainder multipart.wellFormed multipart.fields 0 =
            some (field, remainder) ∧ Accounted file (Upload.WellAfter field remainder) effects r)
      (Routes.upload state session partnerId multipart) := by
  apply effects_silentThen
    (Routes.calls_partnerExists (silent_brackets session.bureauId) (silent_sql _))
  · exact fun e ↦ Or.inl ⟨rfl, e, rfl⟩
  rintro (_ | _)
  · exact Yields.done (Or.inl ⟨rfl, _, rfl⟩)
  apply Yields.andThen (Upload.effects_receiveFields _ _ _)
  · rintro effects e (⟨rfl, -⟩ | ⟨field, remainder, file, hfound, -, hafter⟩)
    · exact Or.inl ⟨rfl, e, rfl⟩
    · refine Or.inr ⟨field, remainder, file, hfound, ?_⟩
      cases remainder with
      | ends => cases hafter.2
      | secondFile => exact Or.inl ⟨Or.inl rfl, Or.inr ⟨hafter.1, e, rfl⟩⟩
      | breaksOff => exact Or.inr ⟨by simp [Upload.WellAfter], hafter.1, e, rfl⟩
  · rintro effects received (⟨-, e, he⟩ | ⟨field, remainder, file, hfound, hof, hafter⟩)
    · cases he
    cases remainder with
    | secondFile =>
        obtain ⟨-, e, he⟩ := hafter
        cases he
    | breaksOff =>
        obtain ⟨-, e, he⟩ := hafter
        cases he
    | ends =>
        obtain ⟨rfl, hreceived⟩ := hafter
        cases hreceived
        have hsize := hof.stored.sizeBytes
        apply (effects_record received).mono
        intro effects r h
        refine Or.inr ⟨field, .ends, received, hfound, ?_⟩
        rw [hsize] at h
        rcases h with ⟨hfits, ⟨rfl, hok⟩ | ⟨rfl, herror⟩⟩ | ⟨hlarge, rfl, herror⟩
        · rw [List.append_nil]
          exact Or.inl ⟨Or.inr ⟨rfl, hfits⟩, Or.inl ⟨rfl, hok⟩⟩
        · exact Or.inl ⟨Or.inr ⟨rfl, hfits⟩, Or.inr ⟨rfl, herror⟩⟩
        · rw [List.append_nil]
          refine Or.inr ⟨?_, rfl, herror⟩
          rintro (hsecond | ⟨-, hfits⟩)
          · cases hsecond
          · exact absurd hlarge (not_lt.mpr hfits)

/-- A file that is settled is reported as it should be, unless a new object is neither
recorded nor reported. -/
theorem Accounted.reported_iff {file : ReceivedFile state.store.uuid} {well : Prop}
    {effects : List Effect} {r : Except ApiError Response} (h : Accounted file well effects r) :
    Reported state.store effects r ↔ ((∃ path, .stored path ∈ effects) → well) := by
  obtain ⟨filename, mediaType, key, sha256, sizeBytes, present⟩ := file
  cases present with
  | true =>
      -- nothing was stored, and nothing is reported
      have heffects : effects = [] := by
        rcases h with ⟨-, ⟨rfl, -⟩ | ⟨rfl, -⟩⟩ | ⟨-, rfl, -⟩ <;> rfl
      subst heffects
      refine iff_of_true ?_ ?_
      · cases r <;> simp [Reported]
      · simp
  | false =>
      have hresolve := ObjectKey.resolveWithin_raw state.store.objectsRoot key
      rcases h with ⟨hwell, ⟨rfl, response, rfl⟩ | ⟨rfl, e, rfl⟩⟩ | ⟨hwell, rfl, e, rfl⟩
      · refine iff_of_true ?_ fun _ ↦ hwell
        simp [Reported, StoredObject.placed]
      · refine iff_of_true ?_ fun _ ↦ hwell
        simp [Reported, StoredObject.placed, StoredObject.reported, hresolve]
      · refine iff_of_false ?_ ?_
        · simp [Reported, StoredObject.placed]
        · intro hstored
          exact hwell (hstored ⟨_, List.mem_cons_self⟩)

/-- A stored object is recorded, or the failure is answered after a report of it, exactly
when the body goes on well after its file. -/
theorem unrecorded_reported_iff {multipart : Multipart} {calls : List (Sigma Op.Ans)}
    {r : Except ApiError Response}
    (h : Performs (Routes.upload state session partnerId multipart) calls r) :
    Reported state.store (effectsOf calls) r ↔
      ((∃ path, .stored path ∈ effectsOf calls) → Upload.GoesOn multipart) := by
  rcases (effects_upload multipart).post calls r h with
    ⟨heffects, e, rfl⟩ | ⟨field, remainder, file, hfound, haccounted⟩
  · have hnone : effectsOf calls = [] := heffects
    rw [hnone]
    simp [Reported]
  · have hreported : Reported state.store (effectsOf calls) r ↔
        ((∃ path, .stored path ∈ effectsOf calls) → Upload.WellAfter field remainder) :=
      haccounted.reported_iff
    have hgoes : Upload.GoesOn multipart ↔ Upload.WellAfter field remainder := by
      constructor
      · exact fun hgoes ↦ hgoes field remainder hfound
      · rintro hwell field' remainder' hfound'
        rw [hfound, Option.some.injEq, Prod.mk.injEq] at hfound'
        obtain ⟨rfl, rfl⟩ := hfound'
        exact hwell
    rw [hreported, hgoes]

end Uploads

namespace Sample

/-- Every operation is carried out; the partner exists, and the object does not. -/
def answers : (op : Op) → op.Ans
  | .begin _ => .ok ()
  | .sql (.partnersExists _ _) => .ok true
  | .sql _ => .error .poolTimedOut
  | .commit => .ok ()
  | .rollback => ()
  | .armStaging => uuid 3
  | .createStaging _ => .ok ()
  | .write _ _ => .ok ()
  | .flush _ => .ok ()
  | .syncAll _ => .ok ()
  | .createDirAll _ => .ok ()
  | .setPermissions _ _ => .ok ()
  | .stat _ => .error .notFound
  | .rename _ _ => .ok ()
  | .syncDir _ => ()
  | .dropGuard => ()
  | .disarmGuard => ()
  | .openFile _ => .ok []
  | .readStaging _ => .ok []
  | .removeStaging _ => .ok ()
  | .listObjects _ => .ok ([], false)
  | .report _ => ()

/-- The file arrives, and the connection breaks before the body ends. -/
def brokenMultipart : Multipart := { multipart with wellFormed := false }

end Sample

theorem unrecorded_reported_iff_broken :
    Reported Sample.state.store
        (effectsOf (trace Sample.answers
          (Routes.upload Sample.state ⟨Sample.uuid 1⟩ (Sample.uuid 2) Sample.brokenMultipart)))
        (eval Sample.answers
          (Routes.upload Sample.state ⟨Sample.uuid 1⟩ (Sample.uuid 2) Sample.brokenMultipart)) ↔
      ((∃ path, .stored path ∈ effectsOf (trace Sample.answers
          (Routes.upload Sample.state ⟨Sample.uuid 1⟩ (Sample.uuid 2) Sample.brokenMultipart))) →
        Upload.GoesOn Sample.brokenMultipart) :=
  unrecorded_reported_iff (performs_trace _ _)

/-- The object is stored, the answer is an error, and nothing is reported. -/
theorem broken_body_not_reported : ∃ calls r,
    Performs (Routes.upload Sample.state ⟨Sample.uuid 1⟩ (Sample.uuid 2) Sample.brokenMultipart)
        calls r ∧
      ¬ Reported Sample.state.store (effectsOf calls) r := by
  refine ⟨_, _, performs_trace Sample.answers _, ?_⟩
  have heffects : ∃ path, effectsOf (trace Sample.answers
      (Routes.upload Sample.state ⟨Sample.uuid 1⟩ (Sample.uuid 2) Sample.brokenMultipart)) =
        [.stored path] := ⟨_, rfl⟩
  have hresult : ∃ e, eval Sample.answers
      (Routes.upload Sample.state ⟨Sample.uuid 1⟩ (Sample.uuid 2) Sample.brokenMultipart) =
        .error e := ⟨_, rfl⟩
  obtain ⟨path, heffects⟩ := heffects
  obtain ⟨e, hresult⟩ := hresult
  rw [heffects, hresult]
  simp [Reported]

end Otdel
