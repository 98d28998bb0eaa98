import Otdel.Library.Alone
import Otdel.Server.Intake

/-!
# Storing a body, alone

When every operation is carried out, the store keeps the body of a stream that
does not break off, and no staging file outgrows what the stream carries.
-/

namespace Otdel

open Program

/-- The bytes before the first error of a stream. -/
def ByteStream.written : ByteStream → Bytes
  | [] => []
  | .error _ :: _ => []
  | .ok chunk :: rest => chunk ++ written rest

theorem ByteStream.written_of_content? {body : ByteStream} {content : Bytes}
    (h : body.content? = some content) : body.written = content := by
  induction body generalizing content with
  | nil => exact Option.some.inj h
  | cons chunk rest ih =>
      cases chunk with
      | error e => cases h
      | ok chunk =>
          obtain ⟨bytes, hbytes, rfl⟩ := Option.map_eq_some_iff.mp h
          rw [written, ih hbytes]

variable {ι : Type}

/-- Staging files are short, but for those of the start. -/
def World.Bounded (start : World ι) (maxBytes : ℕ) (w : World ι) : Prop :=
  ∀ name content, w.staging name = some content →
    content.length ≤ maxBytes ∨ start.staging name = some content

section Worlds

variable {start w t : World ι} {maxBytes : ℕ}

theorem World.Bounded.setStaging (h : start.Bounded maxBytes w) {name : Uuid} {content : Bytes}
    (hlength : content.length ≤ maxBytes) :
    start.Bounded maxBytes (w.setStaging name (some content)) := by
  intro name' content' hstaging
  by_cases hname : name' = name
  · subst hname
    simp only [World.setStaging, Function.update_self, Option.some.injEq] at hstaging
    exact Or.inl (hstaging ▸ hlength)
  · simp only [World.setStaging, Function.update_of_ne hname] at hstaging
    exact h name' content' hstaging

theorem World.Bounded.unstage (h : start.Bounded maxBytes w) (name : Uuid) :
    start.Bounded maxBytes (w.setStaging name none) := by
  intro name' content' hstaging
  by_cases hname : name' = name
  · simp [World.setStaging, hname] at hstaging
  · simp only [World.setStaging, Function.update_of_ne hname] at hstaging
    exact h name' content' hstaging

theorem World.Bounded.of_staging (h : start.Bounded maxBytes w) (hstaging : t.staging = w.staging) :
    start.Bounded maxBytes t := by
  intro name content hcontent
  exact h name content (hstaging ▸ hcontent)

theorem setStaging_setStaging (w : World ι) (name : Uuid) (a b : Option Bytes) :
    (w.setStaging name a).setStaging name b = w.setStaging name b := by
  simp [World.setStaging]

theorem setStaging_self {name : Uuid} {content : Option Bytes} (h : w.staging name = content) :
    w.setStaging name content = w := by
  subst h
  simp [World.setStaging]

end Worlds

variable [Fintype ι] [DecidableEq ι]

/-- Alone, with every operation carried out, a program ends so and keeps to the bound. -/
abbrev ServesAlone (i : ι) (id : Uuid) (now : Timestamp) (start : World ι) (maxBytes : ℕ) {α : Type}
    (Post : α → World ι → Prop) (p : Prog α) (w : World ι) : Prop :=
  (server ι).Ends i (fun _ ↦ .granted id now) (start.Bounded maxBytes) Post p w

/-- This result, in this world. -/
def Exactly {α : Type} (a : α) (t : World ι) : α → World ι → Prop := fun r w ↦ r = a ∧ w = t

variable {i : ι} {id : Uuid} {now : Timestamp} {start w t : World ι} {maxBytes : ℕ}
  {α β ε ε' : Type}

theorem serves_await (op : Op) {answer : op.Ans} (hgrant : w.grant i id now op = some (answer, t))
    (hw : start.Bounded maxBytes w) (ht : start.Bounded maxBytes t) :
    ServesAlone i id now start maxBytes (Exactly answer t) (await op) w :=
  Machine.Ends.call hw hgrant (Machine.Ends.done ht ⟨rfl, rfl⟩)

theorem serves_io {a : α} {operation : String} {p : Prog (Except IoError α)}
    (h : ServesAlone i id now start maxBytes (Exactly (.ok a) t) p w) :
    ServesAlone i id now start maxBytes (Exactly (.ok a) t) (Store.io operation p) w := by
  apply Machine.Ends.mapError
  apply h.mono
  rintro r w' ⟨rfl, rfl⟩
  exact ⟨rfl, rfl⟩

/-- Go on from a known value in a known world. -/
theorem serves_then {Post : Except ε β → World ι → Prop} {a : α} {p : TryProg ε α}
    {f : α → TryProg ε β} (hp : ServesAlone i id now start maxBytes (Exactly (.ok a) t) p w)
    (hf : start.Bounded maxBytes t → ServesAlone i id now start maxBytes Post (f a) t) :
    ServesAlone i id now start maxBytes Post (p >>= f : TryProg ε β) w := by
  apply Machine.Ends.andThen hp
  · rintro e w' ⟨h, -⟩
    cases h
  · rintro a' w' hinv ⟨h, rfl⟩
    cases h
    exact hf hinv

theorem serves_liftThen {Post : Except ε β → World ι → Prop} {a : α} {p : Prog α}
    {f : α → TryProg ε β} (hp : ServesAlone i id now start maxBytes (Exactly a t) p w)
    (hf : start.Bounded maxBytes t → ServesAlone i id now start maxBytes Post (f a) t) :
    ServesAlone i id now start maxBytes Post (lift p >>= f : TryProg ε β) w := by
  apply Machine.Ends.liftThen hp
  rintro a' w' hinv ⟨rfl, rfl⟩
  exact hf hinv

/-! ## Staging -/

/-- What writing a stream answers. -/
def Wrote (hashed : Bytes) (body : ByteStream) (r : Except StorageError Bytes) : Prop :=
  match body.content? with
  | some bytes => r = .ok (hashed ++ bytes)
  | none => ∃ e, r = .error e

theorem serves_writeChunks {name : Uuid} (body : ByteStream) {hashed : Bytes}
    (hw : w.staging name = some hashed) (hbound : start.Bounded maxBytes w)
    (hmax : (hashed ++ body.written).length ≤ maxBytes) :
    ServesAlone i id now start maxBytes (fun r w' ↦ Wrote hashed body r ∧
      w' = w.setStaging name (some (hashed ++ body.written)))
      (Store.writeChunks name body hashed) w := by
  induction body generalizing hashed w with
  | nil =>
      refine Machine.Ends.done hbound ⟨?_, ?_⟩
      · simp [Wrote, ByteStream.content?]
      · rw [ByteStream.written, List.append_nil, setStaging_self hw]
  | cons chunk rest ih =>
      cases chunk with
      | error e =>
          refine Machine.Ends.done hbound ⟨⟨_, rfl⟩, ?_⟩
          rw [ByteStream.written, List.append_nil, setStaging_self hw]
      | ok chunk =>
          rw [ByteStream.written, ← List.append_assoc] at hmax
          have hgrant : w.grant i id now (.write name chunk) =
              some (.ok (), w.setStaging name (some (hashed ++ chunk))) := by
            rw [World.grant, hw, Option.map_some]
          have hlength : (hashed ++ chunk).length ≤ maxBytes := by
            rw [List.length_append] at hmax
            omega
          apply serves_then (serves_io (serves_await (.write name chunk) hgrant hbound (hbound.setStaging hlength)))
          intro hbound'
          have hstaging : (w.setStaging name (some (hashed ++ chunk))).staging name =
              some (hashed ++ chunk) := by simp [World.setStaging]
          apply (ih hstaging hbound' hmax).mono
          rintro r w' ⟨hr, rfl⟩
          constructor
          · unfold Wrote at hr ⊢
            rw [ByteStream.content?]
            cases hrest : ByteStream.content? rest with
            | none => simpa [hrest] using hr
            | some bytes => simpa [hrest] using hr
          · rw [setStaging_setStaging, ByteStream.written, List.append_assoc]

/-! ## Publishing -/

variable {store : Store} {ns : ObjectNamespace} {content : Bytes}

theorem serves_isPresent (hw : start.Bounded maxBytes w) (path : Path) (sizeBytes : ℕ) :
    ServesAlone i id now start maxBytes
      (Exactly (.ok ((w.objects path).any fun content ↦ content.length = sizeBytes)) w)
      (Store.isPresent path sizeBytes) w := by
  cases hobject : w.objects path with
  | none =>
      have hgrant : w.grant i id now (.stat path) = some (.error .notFound, w) := by
        simp only [World.grant, hobject]
      apply serves_liftThen (serves_await (.stat path) hgrant hw hw)
      exact fun hw ↦ Machine.Ends.done hw ⟨rfl, rfl⟩
  | some content =>
      have hgrant : w.grant i id now (.stat path) = some (.ok ⟨true, content.length⟩, w) := by
        simp only [World.grant, hobject]
      apply serves_liftThen (serves_await (.stat path) hgrant hw hw)
      exact fun hw ↦ Machine.Ends.done hw ⟨by simp, rfl⟩

/-- No other content of this size is in the place of the content. -/
def Unclashed (store : Store) (ns : ObjectNamespace) (content : Bytes)
    (objects : Path → Option Bytes) : Prop :=
  ∀ other, objects (store.place ns (store.sha256.hex content)) = some other →
    other.length = content.length → other = content

/-- The content is in its place exactly if no other content of its size was there. -/
def StoredOver (store : Store) (ns : ObjectNamespace) (content : Bytes)
    (objects : Path → Option Bytes) (w : World ι) : Prop :=
  w.objects (store.place ns (store.sha256.hex content)) = some content ↔
    Unclashed store ns content objects

structure PutAlone (store : Store) (ns : ObjectNamespace) (content : Bytes)
    (objects : Path → Option Bytes) (r : Except StorageError (StoredObject store.uuid))
    (w' : World ι) : Prop where
  stored : ∃ stored, r = .ok stored ∧ stored.IsOf ns content
  object : StoredOver store ns content objects w'

theorem serves_publishStaging {name : Uuid} (hbound : start.Bounded maxBytes w)
    (hstaging : w.staging name = some content) (hguard : w.guard i = some name) :
    ServesAlone i id now start maxBytes (PutAlone store ns content w.objects)
      (store.publishStaging name ns content) w := by
  obtain ⟨key, hkey, hraw⟩ := exists_keyForDigest store.uuid ns (isDigest_hex store.sha256 content)
  have hof : ∀ present, StoredObject.IsOf
      (⟨key, store.sha256.hex content, content.length, present⟩ : StoredObject store.uuid)
      ns content := fun present ↦ ⟨rfl, rfl, hkey⟩
  apply Machine.Ends.ofExcept_ok hkey
  apply Machine.Ends.ofExcept_ok (resolve_place hraw)
  have hprivate : ServesAlone i id now start maxBytes (Exactly (.ok ()) w)
      (Store.createPrivateDir (store.place ns (store.sha256.hex content)).dropLast) w := by
    apply serves_then (serves_io (serves_await (.createDirAll _) rfl hbound hbound))
    exact fun hw ↦ serves_io (serves_await (.setPermissions _ _) rfl hw hw)
  apply serves_then hprivate
  intro _
  apply serves_then (serves_isPresent hbound _ _)
  intro _
  cases hpresent : (w.objects (store.place ns (store.sha256.hex content))).any
      fun other ↦ other.length = content.length with
  | true =>
      have hrelease : start.Bounded maxBytes (w.releaseGuard i) := by
        rw [World.releaseGuard, hguard]
        exact (hbound.unstage name).of_staging rfl
      apply serves_liftThen (serves_await .dropGuard rfl hbound hrelease)
      intro _
      refine Machine.Ends.done hrelease ⟨⟨_, rfl, hof true⟩, ?_⟩
      obtain ⟨other, hobject, hlength⟩ := (Option.any_eq_true _ _).mp hpresent
      have hkept : (w.releaseGuard i).objects = w.objects := by rw [World.releaseGuard, hguard]; rfl
      rw [StoredOver, hkept]
      constructor
      · intro hcontent other' hother' _
        exact Option.some.inj (hother'.symm.trans hcontent)
      · intro hclash
        rw [hobject, hclash other hobject (of_decide_eq_true hlength)]
  | false =>
      have hgrant : w.grant i id now
          (.rename name (store.place ns (store.sha256.hex content))) = some (.ok (),
            (w.setStaging name none).setObject (store.place ns (store.sha256.hex content))
              content) := by
        simp only [World.grant, hstaging]
      have hrenamed := (hbound.unstage name).of_staging
        (t := (w.setStaging name none).setObject (store.place ns (store.sha256.hex content))
          content) rfl
      apply serves_then (serves_io (serves_await (.rename _ _) hgrant hbound hrenamed))
      intro _
      apply serves_liftThen (serves_await .disarmGuard rfl hrenamed (hrenamed.of_staging rfl))
      intro hdisarmed
      apply serves_liftThen (serves_await (.syncDir _) rfl hdisarmed hdisarmed)
      intro _
      refine Machine.Ends.done hdisarmed ⟨⟨_, rfl, hof false⟩, ?_⟩
      refine iff_of_true (by simp [World.setObject]) fun other hother hlength ↦ ?_
      simp [hother, hlength] at hpresent

/-- What storing a stream answers. -/
def PutStream (store : Store) (ns : ObjectNamespace) (body : ByteStream)
    (objects : Path → Option Bytes) (r : Except StorageError (StoredObject store.uuid)) (w' : World ι) : Prop :=
  match body.content? with
  | some content => PutAlone store ns content objects r w'
  | none => ∃ e, r = .error e

theorem serves_writeStaging {name : Uuid} {body : ByteStream} (hbound : start.Bounded maxBytes w)
    (hstaging : w.staging name = none) (hguard : w.guard i = some name)
    (hmax : body.written.length ≤ maxBytes) :
    ServesAlone i id now start maxBytes
      (fun r w' ↦ PutStream store ns body w.objects r w' ∧ ∀ e, r = .error e → w'.guard i = some name)
      (store.writeStaging name ns body) w := by
  have hgrant : w.grant i id now (.createStaging name) =
      some (.ok (), w.setStaging name (some [])) := by
    simp [World.grant, hstaging]
  have hcreated : start.Bounded maxBytes (w.setStaging name (some [])) :=
    hbound.setStaging (Nat.zero_le _)
  apply serves_then (serves_io (serves_await (.createStaging name) hgrant hbound hcreated))
  intro _
  have hempty : (w.setStaging name (some [])).staging name = some [] := by
    simp [World.setStaging]
  apply Machine.Ends.andThen (serves_writeChunks body hempty hcreated hmax)
  · rintro e w' ⟨hr, rfl⟩
    refine ⟨?_, fun _ _ ↦ hguard⟩
    unfold PutStream
    cases hcontent : body.content? with
    | none => exact ⟨e, rfl⟩
    | some bytes => simp [Wrote, hcontent] at hr
  · rintro hashed w' hw' ⟨hr, rfl⟩
    cases hcontent : body.content? with
    | none => simp [Wrote, hcontent] at hr
    | some bytes =>
        simp only [Wrote, hcontent, Except.ok.injEq, List.nil_append] at hr
        subst hr
        rw [setStaging_setStaging, ByteStream.written_of_content? hcontent, List.nil_append] at hw' ⊢
        apply serves_then (serves_io (serves_await (.flush name) rfl hw' hw'))
        intro _
        apply serves_then (serves_io (serves_await (.syncAll name) rfl hw' hw'))
        intro _
        have hwritten : (w.setStaging name (some hashed)).staging name = some hashed := by
          simp [World.setStaging]
        apply (serves_publishStaging hw' hwritten hguard).mono
        rintro r w'' hput
        refine ⟨?_, fun e he ↦ ?_⟩
        · rw [PutStream, hcontent]
          exact ⟨hput.stored, hput.object⟩
        · obtain ⟨stored, hstored, -⟩ := hput.stored
          rw [he] at hstored
          cases hstored

/-- A stream that does not break off is stored. -/
theorem serves_putStream {body : ByteStream} (hbound : start.Bounded maxBytes w)
    (hdrawn : w.drawnBy id = none) (hstaging : w.staging id = none)
    (hmax : body.written.length ≤ maxBytes) :
    ServesAlone i id now start maxBytes (PutStream store ns body w.objects) (store.putStream ns body) w := by
  have hgrant : w.grant i id now .armStaging = some (id, { w with
      drawnBy := Function.update w.drawnBy id (some i)
      guard := Function.update w.guard i (some id) }) := by
    exact if_pos hdrawn
  have harmed : start.Bounded maxBytes { w with
      drawnBy := Function.update w.drawnBy id (some i)
      guard := Function.update w.guard i (some id) } := hbound.of_staging rfl
  apply serves_liftThen (serves_await .armStaging hgrant hbound harmed)
  intro _
  apply Machine.Ends.liftThen (serves_writeStaging harmed hstaging (Function.update_self ..) hmax)
  rintro r w' hw' ⟨hput, hguard⟩
  cases r with
  | ok stored => exact Machine.Ends.done hw' hput
  | error e =>
      have hrelease : start.Bounded maxBytes (w'.releaseGuard i) := by
        rw [World.releaseGuard, hguard e rfl]
        exact (hw'.unstage id).of_staging rfl
      apply serves_liftThen (serves_await .dropGuard rfl hw' hrelease)
      intro _
      refine Machine.Ends.done hrelease ?_
      unfold PutStream at hput ⊢
      cases hcontent : body.content? with
      | none => exact ⟨e, rfl⟩
      | some content =>
          rw [hcontent] at hput
          obtain ⟨stored, hstored, -⟩ := hput.stored
          cases hstored

end Otdel
