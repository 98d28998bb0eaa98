import Otdel.Library.Transcript
import Otdel.Server.IntakeSafety

/-!
# What is received

The result of an intake, whatever its operations have answered, and the
operations it may call.
-/

namespace Otdel

open Program

/-- What is recorded of a content. -/
structure StoredObject.IsOf {store : Store} (stored : StoredObject store.uuid)
    (ns : ObjectNamespace) (content : Bytes) : Prop where
  sha256 : stored.sha256 = store.sha256.hex content
  sizeBytes : stored.sizeBytes = content.length
  key : ns.keyForDigest store.uuid stored.sha256 = .ok stored.key

/-- What is recorded of a part. -/
structure ReceivedFile.IsOf {store : Store} (received : ReceivedFile store.uuid)
    (ns : ObjectNamespace) (field : Field) : Prop where
  nonempty : field.chunks.flatten ≠ []
  mediaType : MediaType.detect field.chunks.flatten = some received.mediaType
  filename : received.filename =
    Validate.displayFilename (field.fileName.getD []) received.mediaType
  stored : received.stored.IsOf ns field.chunks.flatten

variable {store : Store} {ns : ObjectNamespace} {calls : List (Sigma Op.Ans)}

namespace Store

theorem performs_writeChunks {name : Uuid} {body : ByteStream} {hashed content : Bytes}
    (h : Performs (writeChunks name body hashed) calls (.ok content)) :
    ∃ bytes, body.content? = some bytes ∧ content = hashed ++ bytes := by
  induction body generalizing hashed calls with
  | nil =>
      obtain ⟨-, rfl⟩ := performs_return.mp h
      exact ⟨[], rfl, (List.append_nil _).symm⟩
  | cons chunk rest ih =>
      cases chunk with
      | error e => exact (not_performs_fail h).elim
      | ok chunk =>
          obtain ⟨first, _, second, rfl, -, hrest⟩ := performs_andThen.mp h
          obtain ⟨bytes, hbytes, rfl⟩ := ih hrest
          refine ⟨chunk ++ bytes, ?_, List.append_assoc _ _ _⟩
          rw [ByteStream.content?, hbytes]
          rfl

theorem performs_publishStaging {name : Uuid} {content : Bytes} {stored : StoredObject store.uuid}
    (h : Performs (store.publishStaging name ns content) calls (.ok stored)) :
    stored.IsOf ns content := by
  obtain ⟨key, hkey, h⟩ := performs_ofExcept_andThen.mp h
  obtain ⟨path, -, h⟩ := performs_ofExcept_andThen.mp h
  obtain ⟨-, _, calls, -, -, h⟩ := performs_andThen.mp h
  obtain ⟨-, present, calls, -, -, h⟩ := performs_andThen.mp h
  have hstored : stored = ⟨key, store.sha256.hex content, content.length, present⟩ := by
    cases present with
    | true =>
        obtain ⟨-, _, calls, -, -, h⟩ := performs_andThen.mp h
        exact (performs_return.mp h).2
    | false =>
        obtain ⟨-, _, calls, -, -, h⟩ := performs_andThen.mp h
        obtain ⟨-, _, calls, -, -, h⟩ := performs_andThen.mp h
        obtain ⟨-, _, calls, -, -, h⟩ := performs_andThen.mp h
        exact (performs_return.mp h).2
  rw [hstored]
  exact ⟨rfl, rfl, hkey⟩

theorem performs_putStream {body : ByteStream} {stored : StoredObject store.uuid}
    (h : Performs (store.putStream ns body) calls (.ok stored)) :
    ∃ content, body.content? = some content ∧ stored.IsOf ns content := by
  obtain ⟨-, name, calls, -, -, h⟩ := performs_andThen.mp h
  obtain ⟨_, r, calls, -, hr, h⟩ := performs_andThen.mp h
  cases r with
  | error e =>
      obtain ⟨-, _, calls, -, -, h⟩ := performs_andThen.mp h
      exact (not_performs_fail h).elim
  | ok stored' =>
      obtain ⟨-, rfl⟩ := performs_return.mp h
      have h := performs_lift.mp hr
      obtain ⟨-, _, calls, -, -, h⟩ := performs_andThen.mp h
      obtain ⟨_, content, calls, -, hchunks, h⟩ := performs_andThen.mp h
      obtain ⟨-, _, calls, -, -, h⟩ := performs_andThen.mp h
      obtain ⟨-, _, calls, -, -, h⟩ := performs_andThen.mp h
      obtain ⟨bytes, hbytes, hcontent⟩ := performs_writeChunks hchunks
      rw [List.nil_append] at hcontent
      rw [← hcontent] at hbytes
      exact ⟨content, hbytes, performs_publishStaging h⟩

end Store

namespace Upload

variable {state : AppState}

/-- The bytes that reach the store are those of the part. -/
theorem content?_body {complete : Bool} {chunks held rest : List Bytes} {content : Bytes}
    (hheld : holdBack complete [] chunks = .ok (held, rest)) {maxBytes : ℕ}
    (hcontent : ByteStream.content? (limitSize maxBytes 0
      (held.map .ok ++ fieldStream complete rest)) = some content) : content = chunks.flatten := by
  have hall := content?_limitSize hcontent
  rw [content?_append, content?_map_ok, Option.bind_some, Option.map_eq_some_iff] at hall
  obtain ⟨bytes, hbytes, rfl⟩ := hall
  rw [content?_fieldStream hbytes, (holdBack_eq_ok hheld).1, List.flatten_append]

theorem performs_readFileField {field : Field} {received : ReceivedFile state.store.uuid}
    (h : Performs (readFileField state ns field) calls (.ok received)) :
    received.IsOf ns field := by
  obtain ⟨⟨held, rest⟩, hheld, h⟩ := performs_ofExcept_andThen.mp h
  have hsplit := holdBack_eq_ok hheld
  dsimp only at h
  split at h
  · exact (not_performs_fail h).elim
  · rename_i hempty
    obtain ⟨mediaType, hmedia, h⟩ := performs_ofExcept_andThen.mp h
    obtain ⟨_, -, h⟩ := performs_ofExcept_andThen.mp h
    obtain ⟨_, stored, calls, -, hput, h⟩ := performs_andThen.mp h
    obtain ⟨-, rfl⟩ := performs_return.mp h
    obtain ⟨content, hcontent, hstored⟩ := Store.performs_putStream (performs_mapError.mp hput)
    rw [content?_body hheld hcontent] at hstored
    refine ⟨?_, ?_, ?_, hstored⟩
    · intro hnil
      rw [hsplit.1, List.flatten_append, List.append_eq_nil_iff] at hnil
      exact hempty (by simp [hnil.1])
    · rw [detect_held hsplit, okOr_eq_ok.mp hmedia]
    · dsimp only

/-- The part that is received. -/
def filePart? (fields : List Field) : Option Field :=
  fields.find? fun field ↦ field.name = some "file".toList

/-- A received file is kept to the end. -/
theorem performs_receiveRest {wellFormed : Bool} {fields : List Field}
    {before received : ReceivedFile state.store.uuid} {otherFieldBytes : ℕ}
    (h : Performs (receiveFields state ns wellFormed fields (some before) otherFieldBytes) calls
      (.ok received)) : received = before := by
  induction fields generalizing otherFieldBytes calls with
  | nil =>
      unfold receiveFields at h
      split at h
      · exact (not_performs_fail h).elim
      · exact (Option.some.inj (okOr_eq_ok.mp (performs_ofExcept.mp h).2)).symm
  | cons field rest ih =>
      unfold receiveFields at h
      split at h
      · obtain ⟨bytes, -, h⟩ := performs_ofExcept_andThen.mp h
        exact ih h
      · obtain ⟨-, _, calls, -, -, h⟩ := performs_andThen.mp h
        exact (not_performs_fail h).elim

theorem performs_receiveFields {wellFormed : Bool} {fields : List Field} {otherFieldBytes : ℕ}
    {received : ReceivedFile state.store.uuid}
    (h : Performs (receiveFields state ns wellFormed fields none otherFieldBytes) calls
      (.ok received)) : ∃ field, filePart? fields = some field ∧ received.IsOf ns field := by
  induction fields generalizing otherFieldBytes calls with
  | nil =>
      unfold receiveFields at h
      split at h
      · exact (not_performs_fail h).elim
      · cases okOr_eq_ok.mp (performs_ofExcept.mp h).2
  | cons field rest ih =>
      unfold receiveFields at h
      split at h
      · rename_i hname
        obtain ⟨bytes, -, h⟩ := performs_ofExcept_andThen.mp h
        rw [filePart?, List.find?_cons_of_neg (by simpa using hname)]
        exact ih h
      · rename_i hname
        rw [not_not] at hname
        obtain ⟨_, file, calls, -, hfile, h⟩ := performs_andThen.mp h
        rw [performs_receiveRest h, filePart?, List.find?_cons_of_pos (by simpa using hname)]
        exact ⟨field, rfl, performs_readFileField hfile⟩

theorem performs_receiveFile {multipart : Multipart} {received : ReceivedFile state.store.uuid}
    (h : Performs (receiveFile state ns multipart) calls (.ok received)) :
    ∃ field, filePart? multipart.fields = some field ∧ received.IsOf ns field :=
  performs_receiveFields h

end Upload

/-! ## The operations of an intake -/

section Calls

/-- No transaction, no fsync but of the directory of an object, and a rename to
one of these places only. -/
def Op.OfIntake (store : Store) (places : Set Path) : Op → Prop
  | .begin _ => False
  | .sql _ => False
  | .commit => False
  | .rollback => False
  | .syncDir path =>
      ∃ key : ObjectKey store.uuid, path = (store.objectsRoot ++ key.raw.splitOn '/').dropLast
  | .rename _ path => path ∈ places
  | _ => True

variable {P : Op → Prop} {places : Set Path}

namespace Store

theorem calls_writeChunks {name : Uuid} (hwrite : ∀ chunk, P (.write name chunk))
    (body : ByteStream) (hashed : Bytes) : Calls P (writeChunks name body hashed) := by
  induction body generalizing hashed with
  | nil => trivial
  | cons chunk rest ih =>
      cases chunk with
      | error e => trivial
      | ok chunk =>
          apply Calls.andThen (Calls.mapError _ (calls_perform (hwrite chunk)))
          exact fun _ ↦ ih _

theorem calls_createPrivateDir {path : Path} (hcreate : P (.createDirAll path))
    (hpermissions : ∀ mode, P (.setPermissions path mode)) : Calls P (createPrivateDir path) := by
  apply Calls.andThen (Calls.mapError _ (calls_perform hcreate))
  exact fun _ ↦ Calls.mapError _ (calls_perform (hpermissions _))

theorem calls_isPresent {path : Path} (hstat : P (.stat path)) (sizeBytes : ℕ) :
    Calls P (isPresent path sizeBytes) := by
  apply Calls.andThen (Calls.lift (calls_perform hstat))
  intro r
  cases r with
  | ok metadata => trivial
  | error e => cases e <;> trivial

variable (hP : ∀ op : Op, op.OfIntake store places → P op)
include hP

theorem calls_publishStaging (name : Uuid) (content : Bytes)
    (hplace : store.place ns (store.sha256.hex content) ∈ places) :
    Calls P (store.publishStaging name ns content) := by
  apply Calls.ofExcept_andThen
  intro key hkey
  have hraw := raw_of_keyForDigest hkey
  rw [resolve_place hraw]
  apply Calls.ofExcept_andThen
  rintro path ⟨⟩
  apply Calls.andThen
    (calls_createPrivateDir (hP _ (by trivial)) fun _ ↦ hP _ (by trivial))
  intro _
  apply Calls.andThen (calls_isPresent (hP _ (by trivial)) _)
  intro present
  cases present with
  | true =>
      apply Calls.andThen (Calls.lift (calls_perform (hP _ (by trivial))))
      exact fun _ ↦ trivial
  | false =>
      apply Calls.andThen (Calls.mapError _ (calls_perform (hP (.rename _ _) hplace)))
      intro _
      apply Calls.andThen (Calls.lift (calls_perform (hP _ (by trivial))))
      intro _
      refine Calls.andThen (Calls.lift (calls_perform (hP _ ⟨key, ?_⟩))) fun _ ↦ trivial
      rw [hraw, Store.place]

theorem calls_writeStaging (name : Uuid) (body : ByteStream)
    (hplace : ∀ content, body.content? = some content →
      store.place ns (store.sha256.hex content) ∈ places) :
    Calls P (store.writeStaging name ns body) := by
  apply Calls.andThen (Calls.mapError _ (calls_perform (hP _ (by trivial))))
  intro _
  apply Calls.andThen_performs (calls_writeChunks (fun _ ↦ hP _ (by trivial)) body [])
  intro _ content hcontent
  obtain ⟨bytes, hbytes, rfl⟩ := performs_writeChunks hcontent
  apply Calls.andThen (Calls.mapError _ (calls_perform (hP _ (by trivial))))
  intro _
  apply Calls.andThen (Calls.mapError _ (calls_perform (hP _ (by trivial))))
  exact fun _ ↦ calls_publishStaging hP name _ (hplace _ hbytes)

theorem calls_putStream (body : ByteStream)
    (hplace : ∀ content, body.content? = some content →
      store.place ns (store.sha256.hex content) ∈ places) :
    Calls P (store.putStream ns body) := by
  apply Calls.andThen (Calls.lift (calls_perform (hP _ (by trivial))))
  intro name
  apply Calls.andThen (Calls.lift (calls_writeStaging hP name body hplace))
  intro r
  cases r with
  | ok stored => trivial
  | error e =>
      apply Calls.andThen (Calls.lift (calls_perform (hP _ (by trivial))))
      exact fun _ ↦ trivial

end Store

namespace Upload

theorem calls_reportOrphanedObject (hreport : ∀ line, P (.report line)) {uuid : UuidCrate}
    (stored : StoredObject uuid) : (reportOrphanedObject stored).Calls P := by
  exact Calls.ite (by trivial) (calls_perform (hreport _))

variable {state : AppState} (hP : ∀ op : Op, op.OfIntake state.store places → P op)
include hP

theorem calls_readFileField (field : Field)
    (hplace : state.store.place ns (state.store.sha256.hex field.chunks.flatten) ∈ places) :
    Calls P (readFileField state ns field) := by
  apply Calls.ofExcept_andThen
  rintro ⟨head, rest⟩ hheld
  apply Calls.ite (by trivial)
  apply Calls.ofExcept_andThen
  intro mediaType _
  apply Calls.ofExcept_andThen
  intro _ _
  refine Calls.andThen (Calls.mapError _ (Store.calls_putStream hP _ fun content hcontent ↦ ?_))
    fun _ ↦ trivial
  rw [content?_body hheld hcontent]
  exact hplace

/-- After the file part nothing is placed any more. -/
theorem calls_receiveRest (wellFormed : Bool) (fields : List Field)
    (received : ReceivedFile state.store.uuid) (otherFieldBytes : ℕ) :
    Calls P (receiveFields state ns wellFormed fields (some received) otherFieldBytes) := by
  induction fields generalizing otherFieldBytes with
  | nil =>
      unfold receiveFields
      split <;> trivial
  | cons field rest ih =>
      unfold receiveFields
      split
      · apply Calls.ofExcept_andThen
        exact fun bytes _ ↦ ih bytes
      · apply Calls.andThen
          (Calls.lift (calls_reportOrphanedObject (fun _ ↦ hP _ (by trivial)) received.stored))
        exact fun _ ↦ trivial

theorem calls_receiveFields (wellFormed : Bool) (fields : List Field) (otherFieldBytes : ℕ)
    (hplace : ∀ field, filePart? fields = some field →
      state.store.place ns (state.store.sha256.hex field.chunks.flatten) ∈ places) :
    Calls P (receiveFields state ns wellFormed fields none otherFieldBytes) := by
  induction fields generalizing otherFieldBytes with
  | nil =>
      unfold receiveFields
      split <;> trivial
  | cons field rest ih =>
      unfold receiveFields
      split
      · rename_i hname
        rw [filePart?, List.find?_cons_of_neg (by simpa using hname)] at hplace
        apply Calls.ofExcept_andThen
        exact fun bytes _ ↦ ih bytes hplace
      · rename_i hname
        rw [not_not] at hname
        have hfile : filePart? (field :: rest) = some field :=
          List.find?_cons_of_pos (by simpa using hname)
        apply Calls.andThen (calls_readFileField hP field (hplace field hfile))
        exact fun file ↦ calls_receiveRest hP wellFormed rest file otherFieldBytes

theorem calls_receiveFile (multipart : Multipart)
    (hplace : ∀ field, filePart? multipart.fields = some field →
      state.store.place ns (state.store.sha256.hex field.chunks.flatten) ∈ places) :
    Calls P (receiveFile state ns multipart) :=
  calls_receiveFields hP _ _ _ hplace

end Upload

end Calls

end Otdel
