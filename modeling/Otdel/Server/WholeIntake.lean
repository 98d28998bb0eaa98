import Otdel.Server.StoreAlone

/-!
# Streaming intake is intake of whole parts

A file is taken in chunk by chunk, but what is accepted depends on the parts and
their bytes only, neither on the cuts between the chunks nor on the order of the
parts.
-/

namespace Otdel

open Program

/-- A part of a multipart body with its bytes in one piece. -/
structure Part where
  name : Option Text
  fileName : Option Text
  contentType : Option Text
  content : Bytes
  deriving DecidableEq

def Field.part (field : Field) : Part :=
  ⟨field.name, field.fileName, field.contentType, field.chunks.flatten⟩

namespace Part

def isFile (part : Part) : Bool := part.name = some "file".toList

/-- The declared type is absent, not recognised, or this one. -/
def Declares (part : Part) (mediaType : MediaType) : Prop :=
  ∀ declared ∈ part.contentType, ∀ parsed ∈ MediaType.parse declared, parsed = mediaType

/-- A content that the server takes. -/
structure Acceptable (maxBytes : ℕ) (part : Part) : Prop where
  nonempty : part.content ≠ []
  size : part.content.length ≤ maxBytes
  mediaType : ∃ t, MediaType.detect part.content = some t ∧ part.Declares t

/-- The bytes of the parts that are not the file. -/
def otherBytes (parts : List Part) : ℕ :=
  ((parts.filter fun part ↦ !part.isFile).map fun part ↦ part.content.length).sum

/-- One file, and little else. -/
def Accepted (maxBytes : ℕ) (parts : List Part) : Prop :=
  ∃ file, parts.filter isFile = [file] ∧ file.Acceptable maxBytes ∧
    otherBytes parts ≤ Upload.maxOtherFieldBytes

theorem accepted_of_perm {maxBytes : ℕ} {parts parts' : List Part} (h : parts.Perm parts') :
    Accepted maxBytes parts → Accepted maxBytes parts' := by
  rintro ⟨file, hfile, hacceptable, hother⟩
  refine ⟨file, ?_, hacceptable, ?_⟩
  · have hperm := h.filter isFile
    rw [hfile] at hperm
    exact List.perm_singleton.mp hperm.symm
  · have hsum : otherBytes parts' = otherBytes parts :=
      ((h.filter _).map _).sum_eq.symm
    rwa [hsum]

end Part

namespace Upload

/-! ## Pure parts -/

theorem drainChunks_complete {chunks : List Bytes} {otherFieldBytes : ℕ}
    (h : otherFieldBytes ≤ maxOtherFieldBytes) :
    if otherFieldBytes + chunks.flatten.length ≤ maxOtherFieldBytes then
      drainChunks true chunks otherFieldBytes = .ok (otherFieldBytes + chunks.flatten.length)
    else ∃ e, drainChunks true chunks otherFieldBytes = .error e := by
  induction chunks generalizing otherFieldBytes with
  | nil => simp [drainChunks, h]
  | cons chunk rest ih =>
      rw [List.flatten_cons, List.length_append, ← Nat.add_assoc]
      by_cases hlarge : otherFieldBytes + chunk.length > maxOtherFieldBytes
      · rw [if_neg (by omega), drainChunks]
        exact ⟨_, if_pos hlarge⟩
      · rw [drainChunks, if_neg hlarge]
        exact ih (by omega)

theorem holdBack_complete (head : Bytes) (chunks : List Bytes) :
    ∃ held rest, holdBack true head chunks = .ok (held, rest) := by
  induction chunks generalizing head with
  | nil =>
      unfold holdBack
      split
      · exact ⟨_, _, rfl⟩
      · exact ⟨_, _, rfl⟩
  | cons chunk rest ih =>
      unfold holdBack
      split
      · exact ⟨_, _, rfl⟩
      · obtain ⟨held, left, h⟩ := ih (head ++ chunk)
        dsimp only
        rw [h]
        exact ⟨chunk :: held, left, rfl⟩

/-- The stream that reaches the store is the part, chunk by chunk. -/
theorem body_complete {held rest : List Bytes} :
    held.map .ok ++ fieldStream true rest = ((held ++ rest).map .ok : ByteStream) := by
  simp [fieldStream]

theorem content?_limitSize_chunks {maxBytes written : ℕ} (chunks : List Bytes)
    (h : written ≤ maxBytes) :
    ByteStream.content? (limitSize maxBytes written (chunks.map .ok)) =
      if written + chunks.flatten.length ≤ maxBytes then some chunks.flatten else none := by
  induction chunks generalizing written with
  | nil => simp [limitSize, ByteStream.content?, h]
  | cons chunk rest ih =>
      rw [List.map_cons, limitSize, List.flatten_cons, List.length_append, ← Nat.add_assoc]
      by_cases hlarge : written + chunk.length > maxBytes
      · rw [if_pos hlarge, if_neg (by omega)]
        rfl
      · rw [if_neg hlarge, ByteStream.content?, ih (by omega)]
        split <;> rfl

/-- A limited stream never carries more than the limit. -/
theorem length_written_limitSize {maxBytes written : ℕ} (body : ByteStream)
    (h : written ≤ maxBytes) :
    written + (ByteStream.written (limitSize maxBytes written body)).length ≤ maxBytes := by
  induction body generalizing written with
  | nil => simpa [limitSize, ByteStream.written] using h
  | cons chunk rest ih =>
      cases chunk with
      | error e => simpa [limitSize, ByteStream.written] using h
      | ok chunk =>
          rw [limitSize]
          split
          · simpa [ByteStream.written] using h
          · have hrest := @ih (written + chunk.length) (by omega)
            rw [ByteStream.written, List.length_append]
            omega

theorem checkDeclared_eq_ok {declared : Option Text} {mediaType : MediaType} :
    checkDeclared declared mediaType = .ok () ↔
      ∀ text ∈ declared, ∀ parsed ∈ MediaType.parse text, parsed = mediaType := by
  unfold checkDeclared
  cases declared with
  | none => simp
  | some text =>
      simp only [Option.bind_some, Option.mem_def, Option.some.injEq, forall_eq']
      cases MediaType.parse text with
      | none => simp
      | some parsed =>
          simp only [Option.some.injEq, forall_eq']
          split
          · rename_i hne
            simpa using hne
          · rename_i heq
            simpa using heq

/-! ## The file part -/

variable {ι : Type} [Fintype ι] [DecidableEq ι] {state : AppState} {ns : ObjectNamespace} {i : ι}
  {id : Uuid} {now : Timestamp} {start w : World ι}

/-- The part is received and stored, or it is not acceptable. -/
def TakesPart (state : AppState) (ns : ObjectNamespace) (field : Field)
    (objects : Path → Option Bytes) (r : Except ApiError (ReceivedFile state.store.uuid))
    (w : World ι) : Prop :=
  (field.part.Acceptable state.maxUploadBytes ∧ ∃ received, r = .ok received ∧
    received.IsOf ns field ∧ StoredOver state.store ns field.chunks.flatten objects w) ∨
  (¬ field.part.Acceptable state.maxUploadBytes ∧ ∃ e, r = .error e)

/-- The store takes the chunks up to the limit. -/
theorem serves_putChunks (hbound : start.Bounded state.maxUploadBytes w)
    (hdrawn : w.drawnBy id = none) (hstaging : w.staging id = none) (chunks : List Bytes) :
    ServesAlone i id now start state.maxUploadBytes
      (fun r w' ↦ (chunks.flatten.length ≤ state.maxUploadBytes ∧ ∃ stored, r = .ok stored ∧
          stored.IsOf ns chunks.flatten ∧ StoredOver state.store ns chunks.flatten w.objects w') ∨
        (¬ chunks.flatten.length ≤ state.maxUploadBytes ∧ ∃ e, r = .error e))
      (mapError ApiError.ofStorageError
        (state.store.putStream ns (limitSize state.maxUploadBytes 0 (chunks.map .ok)))) w := by
  have hbody := content?_limitSize_chunks chunks (Nat.zero_le state.maxUploadBytes)
  have hlimit := length_written_limitSize (chunks.map .ok) (Nat.zero_le state.maxUploadBytes)
  rw [Nat.zero_add] at hbody hlimit
  apply Machine.Ends.mapError
  apply (serves_putStream hbound hdrawn hstaging hlimit).mono
  intro r w' hput
  rw [PutStream, hbody] at hput
  split at hput
  · rename_i content hcontent
    split at hcontent
    · rename_i hsize
      cases hcontent
      obtain ⟨⟨stored, rfl, hof⟩, hobject⟩ := hput
      exact Or.inl ⟨hsize, stored, rfl, hof, hobject⟩
    · cases hcontent
  · rename_i hcontent
    split at hcontent
    · cases hcontent
    · rename_i hsize
      obtain ⟨e, rfl⟩ := hput
      exact Or.inr ⟨hsize, _, rfl⟩

theorem serves_readFileField {field : Field} (hcomplete : field.complete = true)
    (hbound : start.Bounded state.maxUploadBytes w) (hdrawn : w.drawnBy id = none)
    (hstaging : w.staging id = none) :
    ServesAlone i id now start state.maxUploadBytes (TakesPart state ns field w.objects)
      (readFileField state ns field) w := by
  obtain ⟨held, rest, hheld⟩ := holdBack_complete [] field.chunks
  have hsplit := holdBack_eq_ok hheld
  have hdetect := detect_held hsplit
  rw [readFileField, hcomplete]
  apply Machine.Ends.ofExcept_ok hheld
  dsimp only
  split
  · rename_i hempty
    refine Machine.Ends.done hbound (Or.inr ⟨fun h ↦ ?_, _, rfl⟩)
    rw [List.isEmpty_iff] at hempty
    have hrest : rest = [] := by
      refine hsplit.2.resolve_left ?_
      simp [hempty, signaturePrefixLen]
    exact h.nonempty (by simp [Field.part, hsplit.1, hrest, hempty])
  · rename_i hnonempty
    have hcontent : field.chunks.flatten ≠ [] := by
      intro hnil
      rw [hsplit.1, List.flatten_append, List.append_eq_nil_iff] at hnil
      exact hnonempty (by simp [hnil.1])
    cases hmedia : MediaType.detect held.flatten with
    | none =>
        apply Machine.Ends.ofExcept_error rfl hbound
        refine Or.inr ⟨fun h ↦ ?_, _, rfl⟩
        obtain ⟨t, ht, -⟩ := h.mediaType
        rw [Field.part, hdetect, hmedia] at ht
        cases ht
    | some mediaType =>
        apply Machine.Ends.ofExcept_ok (okOr_eq_ok.mpr rfl)
        cases hdeclared : checkDeclared field.contentType mediaType with
        | error e =>
            apply Machine.Ends.ofExcept_error rfl hbound
            refine Or.inr ⟨fun h ↦ ?_, _, rfl⟩
            obtain ⟨t, ht, hdeclares⟩ := h.mediaType
            rw [Field.part, hdetect, hmedia, Option.some.injEq] at ht
            subst ht
            have hok : checkDeclared field.contentType mediaType = .ok () :=
              checkDeclared_eq_ok.mpr hdeclares
            rw [hok] at hdeclared
            cases hdeclared
        | ok _ =>
            apply Machine.Ends.ofExcept_ok rfl
            have hacceptable : field.part.Acceptable state.maxUploadBytes ↔
                field.chunks.flatten.length ≤ state.maxUploadBytes := by
              refine ⟨fun h ↦ h.size, fun hsize ↦ ⟨hcontent, hsize, mediaType, ?_, ?_⟩⟩
              · rw [Field.part, hdetect, hmedia]
              · exact checkDeclared_eq_ok.mp hdeclared
            rw [body_complete, ← hsplit.1]
            apply Machine.Ends.andThen (serves_putChunks hbound hdrawn hstaging field.chunks)
            · rintro e w' (⟨hsize, stored, hr, -⟩ | ⟨hsize, -⟩)
              · cases hr
              · exact Or.inr ⟨fun h ↦ hsize (hacceptable.mp h), e, rfl⟩
            · rintro stored w' hw' (⟨hsize, stored', hr, hof, hobject⟩ | ⟨-, e, hr⟩)
              · cases hr
                refine Machine.Ends.done hw' (Or.inl ⟨hacceptable.mpr hsize, _, rfl, ?_, hobject⟩)
                exact ⟨hcontent, by rw [hdetect, hmedia], by dsimp only, hof⟩
              · cases hr

/-! ## All parts -/

theorem isFile_part (field : Field) : field.part.isFile = true ↔ field.name = some "file".toList :=
  decide_eq_true_iff

theorem otherBytes_cons_file {part : Part} (parts : List Part) (h : part.isFile = true) :
    Part.otherBytes (part :: parts) = Part.otherBytes parts := by
  simp [Part.otherBytes, h]

theorem otherBytes_cons_other {part : Part} (parts : List Part) (h : part.isFile = false) :
    Part.otherBytes (part :: parts) = part.content.length + Part.otherBytes parts := by
  simp [Part.otherBytes, h]

theorem serves_reportOrphanedObject (hbound : start.Bounded state.maxUploadBytes w)
    {uuid : UuidCrate} (stored : StoredObject uuid) :
    ServesAlone i id now start state.maxUploadBytes (fun _ _ ↦ True) (reportOrphanedObject stored) w := by
  obtain ⟨key, sha256, sizeBytes, present⟩ := stored
  cases present with
  | true => exact Machine.Ends.done hbound trivial
  | false =>
      refine (serves_await (.report (.orphanedObject key.raw sizeBytes)) rfl hbound ?_).mono
        fun _ _ _ ↦ trivial
      exact hbound.of_staging rfl

/-- A part that is not the file counts against the budget. -/
theorem serves_otherField {field : Field} {rest : List Field}
    {before : Option (ReceivedFile state.store.uuid)} {otherFieldBytes : ℕ}
    {Post : Except ApiError (ReceivedFile state.store.uuid) → World ι → Prop}
    (hname : field.part.isFile = false) (hcomplete : field.complete = true)
    (hbound : start.Bounded state.maxUploadBytes w) (hother : otherFieldBytes ≤ maxOtherFieldBytes)
    (herror : ¬ otherFieldBytes + field.chunks.flatten.length ≤ maxOtherFieldBytes →
      ∀ e, Post (.error e) w)
    (hok : otherFieldBytes + field.chunks.flatten.length ≤ maxOtherFieldBytes →
      ServesAlone i id now start state.maxUploadBytes Post (receiveFields state ns true rest before
        (otherFieldBytes + field.chunks.flatten.length)) w) :
    ServesAlone i id now start state.maxUploadBytes Post
      (receiveFields state ns true (field :: rest) before otherFieldBytes) w := by
  have hskip : field.name ≠ some "file".toList := by
    intro hfile
    rw [(isFile_part field).mpr hfile] at hname
    cases hname
  have hdrain := @drainChunks_complete field.chunks _ hother
  unfold receiveFields
  rw [if_pos hskip, hcomplete]
  split at hdrain
  · rename_i hle
    exact Machine.Ends.ofExcept_ok hdrain (hok hle)
  · rename_i hgt
    obtain ⟨e, he⟩ := hdrain
    exact Machine.Ends.ofExcept_error he hbound (herror hgt e)

/-- After the file, the rest is read and held against the budget. -/
theorem serves_receiveRest {received : ReceivedFile state.store.uuid} {fields : List Field}
    {otherFieldBytes : ℕ} (hcomplete : ∀ field ∈ fields, field.complete = true)
    (hbound : start.Bounded state.maxUploadBytes w)
    (hother : otherFieldBytes ≤ maxOtherFieldBytes) :
    ServesAlone i id now start state.maxUploadBytes
      (fun r w' ↦
        (((fields.map Field.part).filter Part.isFile = [] ∧
          otherFieldBytes + Part.otherBytes (fields.map Field.part) ≤ maxOtherFieldBytes) ∧
            r = .ok received ∧ w' = w) ∨
        (¬ ((fields.map Field.part).filter Part.isFile = [] ∧
          otherFieldBytes + Part.otherBytes (fields.map Field.part) ≤ maxOtherFieldBytes) ∧
            ∃ e, r = .error e))
      (receiveFields state ns true fields (some received) otherFieldBytes) w := by
  induction fields generalizing otherFieldBytes with
  | nil =>
      refine Machine.Ends.done hbound (Or.inl ⟨⟨rfl, ?_⟩, rfl, rfl⟩)
      simpa [Part.otherBytes] using hother
  | cons field rest ih =>
      have hrest : ∀ f ∈ rest, f.complete = true := fun f hf ↦
        hcomplete f (List.mem_cons_of_mem _ hf)
      cases hfile : field.part.isFile with
      | false =>
          rw [List.map_cons, List.filter_cons_of_neg (by simp [hfile]),
            otherBytes_cons_other _ hfile, ← Nat.add_assoc]
          apply serves_otherField hfile (hcomplete field List.mem_cons_self) hbound hother
          · intro hlarge e
            refine Or.inr ⟨fun h ↦ hlarge ?_, e, rfl⟩
            have hsum := h.2
            change otherFieldBytes + field.part.content.length ≤ _
            omega
          · exact fun hle ↦ ih hrest hle
      | true =>
          have hname : ¬ field.name ≠ some "file".toList := not_not.mpr ((isFile_part field).mp hfile)
          rw [receiveFields, if_neg hname]
          apply Machine.Ends.liftThen (serves_reportOrphanedObject hbound received.stored)
          intro _ w' hw' _
          refine Machine.Ends.done hw' (Or.inr ⟨fun h ↦ ?_, _, rfl⟩)
          rw [List.map_cons, List.filter_cons_of_pos hfile] at h
          cases h.1

/-- What taking in all parts answers, and what it stores. -/
def TakesParts (state : AppState) (ns : ObjectNamespace) (fields : List Field)
    (otherFieldBytes : ℕ) (objects : Path → Option Bytes)
    (r : Except ApiError (ReceivedFile state.store.uuid)) (w : World ι) : Prop :=
  (∃ file received, fields.filter (fun field ↦ field.part.isFile) = [file] ∧
    file.part.Acceptable state.maxUploadBytes ∧
      otherFieldBytes + Part.otherBytes (fields.map Field.part) ≤ maxOtherFieldBytes ∧
        r = .ok received ∧ received.IsOf ns file ∧
          StoredOver state.store ns file.chunks.flatten objects w) ∨
  ((¬ ∃ file, fields.filter (fun field ↦ field.part.isFile) = [file] ∧
    file.part.Acceptable state.maxUploadBytes ∧
      otherFieldBytes + Part.otherBytes (fields.map Field.part) ≤ maxOtherFieldBytes) ∧
    ∃ e, r = .error e)

theorem filter_part_eq_nil {fields : List Field} :
    (fields.map Field.part).filter Part.isFile = [] ↔
      fields.filter (fun field ↦ field.part.isFile) = [] := by
  rw [List.filter_map, List.map_eq_nil_iff]
  rfl

theorem serves_receiveFields {fields : List Field} {otherFieldBytes : ℕ}
    (hcomplete : ∀ field ∈ fields, field.complete = true)
    (hbound : start.Bounded state.maxUploadBytes w) (hdrawn : w.drawnBy id = none)
    (hstaging : w.staging id = none) (hother : otherFieldBytes ≤ maxOtherFieldBytes) :
    ServesAlone i id now start state.maxUploadBytes
      (TakesParts state ns fields otherFieldBytes w.objects)
      (receiveFields state ns true fields none otherFieldBytes) w := by
  induction fields generalizing otherFieldBytes with
  | nil =>
      refine Machine.Ends.done hbound (Or.inr ⟨?_, _, rfl⟩)
      simp
  | cons field rest ih =>
      have hrest : ∀ f ∈ rest, f.complete = true := fun f hf ↦
        hcomplete f (List.mem_cons_of_mem _ hf)
      unfold TakesParts
      cases hfile : field.part.isFile with
      | false =>
          rw [List.map_cons, List.filter_cons_of_neg (by simp [hfile]),
            otherBytes_cons_other _ hfile, ← Nat.add_assoc]
          apply serves_otherField hfile (hcomplete field List.mem_cons_self) hbound hother
          · intro hlarge e
            refine Or.inr ⟨?_, e, rfl⟩
            rintro ⟨file, -, -, hsum⟩
            apply hlarge
            change otherFieldBytes + field.part.content.length ≤ _
            omega
          · exact fun hle ↦ ih hrest hle
      | true =>
          have hname : ¬ field.name ≠ some "file".toList := not_not.mpr ((isFile_part field).mp hfile)
          have hfilter : (field :: rest).filter (fun field ↦ field.part.isFile) =
              field :: rest.filter (fun field ↦ field.part.isFile) :=
            List.filter_cons_of_pos hfile
          rw [List.map_cons, hfilter, otherBytes_cons_file _ hfile, receiveFields, if_neg hname]
          apply Machine.Ends.andThen (serves_readFileField (hcomplete field List.mem_cons_self)
            hbound hdrawn hstaging)
          · rintro e w' (⟨-, received, hr, -⟩ | ⟨hnot, -⟩)
            · cases hr
            · refine Or.inr ⟨?_, e, rfl⟩
              rintro ⟨file, hsingle, hacceptable, -⟩
              rw [List.cons.injEq] at hsingle
              exact hnot (hsingle.1 ▸ hacceptable)
          · rintro received w' hw' (⟨hacceptable, received', hr, hof, hobject⟩ | ⟨-, e, hr⟩)
            · cases hr
              apply (serves_receiveRest hrest hw' hother).mono
              rintro r w'' (⟨⟨hnone, hsum⟩, rfl, rfl⟩ | ⟨hnot, e, rfl⟩)
              · refine Or.inl ⟨field, received, ?_, hacceptable, hsum, rfl, hof, hobject⟩
                rw [filter_part_eq_nil.mp hnone]
              · refine Or.inr ⟨?_, e, rfl⟩
                rintro ⟨file, hsingle, -, hsum⟩
                rw [List.cons.injEq] at hsingle
                exact hnot ⟨filter_part_eq_nil.mpr hsingle.2, hsum⟩
            · cases hr

theorem accepted_parts_iff {maxBytes : ℕ} {fields : List Field} :
    Part.Accepted maxBytes (fields.map Field.part) ↔
      ∃ file, fields.filter (fun field ↦ field.part.isFile) = [file] ∧
        file.part.Acceptable maxBytes ∧
          Part.otherBytes (fields.map Field.part) ≤ maxOtherFieldBytes := by
  have hfilter : (fields.map Field.part).filter Part.isFile =
      (fields.filter fun field ↦ field.part.isFile).map Field.part := List.filter_map ..
  constructor
  · rintro ⟨part, hpart, hacceptable, hother⟩
    rw [hfilter, List.map_eq_singleton_iff] at hpart
    obtain ⟨file, hfile, rfl⟩ := hpart
    exact ⟨file, hfile, hacceptable, hother⟩
  · rintro ⟨file, hfile, hacceptable, hother⟩
    exact ⟨file.part, by rw [hfilter, hfile]; rfl, hacceptable, hother⟩

theorem takesParts_alone (state : AppState) (ns : ObjectNamespace) {fields : List Field}
    (hcomplete : ∀ field ∈ fields, field.complete = true) {w : World ι} (i : ι) (id : Uuid)
    (now : Timestamp) (hdrawn : w.drawnBy id = none) (hstaging : w.staging id = none) :
    ∃ r last visited,
      (server ι).alone i (fun _ ↦ .granted id now) (receiveFile state ns ⟨fields, true⟩) w =
        some (r, last, visited) ∧
      (∀ s ∈ visited ++ [last], w.Bounded state.maxUploadBytes s) ∧
      TakesParts state ns fields 0 w.objects r last := by
  have hserves : ServesAlone i id now w state.maxUploadBytes (TakesParts state ns fields 0 w.objects)
      (receiveFields state ns true fields none 0) w :=
    serves_receiveFields hcomplete (fun _ _ h ↦ Or.inr h) hdrawn hstaging (Nat.zero_le _)
  obtain ⟨r, last, visited, hrun, hvisited, hlast, htakes⟩ := hserves
  refine ⟨r, last, visited, hrun, fun s hs ↦ ?_, htakes⟩
  rcases List.mem_append.mp hs with hs | hs
  · exact hvisited s hs
  · rw [List.mem_singleton] at hs
    exact hs ▸ hlast

/-- What chunks and their order have no part in: which bodies are accepted, what is
said of the file, and how long staging files get. -/
structure Streams (state : AppState) (ns : ObjectNamespace) (fields : List Field)
    (start : World ι) (r : Except ApiError (ReceivedFile state.store.uuid)) (last : World ι)
    (visited : List (World ι)) : Prop where
  accepts : (∃ received, r = .ok received) ↔
    Part.Accepted state.maxUploadBytes (fields.map Field.part)
  anyOrder : ∀ parts, (fields.map Field.part).Perm parts →
    (Part.Accepted state.maxUploadBytes parts ↔
      Part.Accepted state.maxUploadBytes (fields.map Field.part))
  received : ∀ received, r = .ok received → ∃ file ∈ fields, file.part.isFile = true ∧
    received.IsOf ns file
  bounded : ∀ s ∈ visited ++ [last], ∀ name content, s.staging name = some content →
    content.length ≤ state.maxUploadBytes ∨ start.staging name = some content

/-- The intake in chunks does what the intake in one piece would do. -/
structure StreamsWhole (state : AppState) (ns : ObjectNamespace) (fields : List Field)
    (start : World ι) (r : Except ApiError (ReceivedFile state.store.uuid)) (last : World ι)
    (visited : List (World ι)) : Prop
    extends Streams state ns fields start r last visited where
  stored : ∀ received, r = .ok received → ∃ file ∈ fields, file.part.isFile = true ∧
    last.objects (state.store.place ns (state.store.sha256.hex file.chunks.flatten)) =
      some file.chunks.flatten

/-- Of accepted parts, the file has its place to itself. -/
def FileUnclashed (state : AppState) (ns : ObjectNamespace) (fields : List Field)
    (objects : Path → Option Bytes) : Prop :=
  Part.Accepted state.maxUploadBytes (fields.map Field.part) →
    ∀ file ∈ fields, file.part.isFile = true →
      Unclashed state.store ns file.chunks.flatten objects

omit [Fintype ι] [DecidableEq ι] in
theorem TakesParts.streams {fields : List Field} {r : Except ApiError (ReceivedFile state.store.uuid)}
    {last : World ι} {visited : List (World ι)}
    (htakes : TakesParts state ns fields 0 w.objects r last)
    (hbounded : ∀ s ∈ visited ++ [last], w.Bounded state.maxUploadBytes s) :
    Streams state ns fields w r last visited where
  accepts := by
    rw [accepted_parts_iff]
    unfold TakesParts at htakes
    rw [Nat.zero_add] at htakes
    rcases htakes with ⟨file, received, hfile, hacceptable, hother, rfl, -⟩ | ⟨hnot, e, rfl⟩
    · exact ⟨fun _ ↦ ⟨file, hfile, hacceptable, hother⟩, fun _ ↦ ⟨received, rfl⟩⟩
    · refine ⟨?_, fun h ↦ absurd h hnot⟩
      rintro ⟨received, h⟩
      cases h
  anyOrder parts hperm := ⟨Part.accepted_of_perm hperm.symm, Part.accepted_of_perm hperm⟩
  received received hr := by
    rcases htakes with ⟨file, received', hfile, -, -, hr', hof, -⟩ | ⟨-, e, hr'⟩
    · cases hr.symm.trans hr'
      have hmem : file ∈ fields.filter fun field ↦ field.part.isFile := by simp [hfile]
      rw [List.mem_filter] at hmem
      exact ⟨file, hmem.1, hmem.2, hof⟩
    · cases hr.symm.trans hr'
  bounded := hbounded

omit [Fintype ι] [DecidableEq ι] in
/-- What is stored is the file exactly if nothing else of its size was in its place. -/
theorem TakesParts.streamsWhole_iff {fields : List Field}
    {r : Except ApiError (ReceivedFile state.store.uuid)} {last : World ι}
    {visited : List (World ι)} (htakes : TakesParts state ns fields 0 w.objects r last)
    (hbounded : ∀ s ∈ visited ++ [last], w.Bounded state.maxUploadBytes s) :
    StreamsWhole state ns fields w r last visited ↔ FileUnclashed state ns fields w.objects := by
  have hstreams := htakes.streams hbounded
  rcases htakes with ⟨file, received, hfile, -, -, rfl, -, hstored⟩ | ⟨hnot, e, rfl⟩
  · have honly (other : Field) : other ∈ fields ∧ other.part.isFile = true ↔ other = file := by
      have hmem : other ∈ fields.filter (fun field ↦ field.part.isFile) ↔ other = file := by
        rw [hfile, List.mem_singleton]
      exact List.mem_filter.symm.trans hmem
    constructor
    · rintro ⟨-, hwhole⟩ - other hmem hother
      obtain ⟨file', hmem', hfile', hobject⟩ := hwhole received rfl
      rw [(honly file').mp ⟨hmem', hfile'⟩] at hobject
      rw [(honly other).mp ⟨hmem, hother⟩]
      exact hstored.mp hobject
    · intro hclash
      refine ⟨hstreams, fun _ _ ↦ ?_⟩
      obtain ⟨hmem, hisFile⟩ := (honly file).mpr rfl
      exact ⟨file, hmem, hisFile,
        hstored.mpr (hclash (hstreams.accepts.mp ⟨received, rfl⟩) file hmem hisFile)⟩
  · refine iff_of_true ⟨hstreams, fun received hr ↦ by cases hr⟩ fun haccepted ↦ ?_
    obtain ⟨received, hr⟩ := hstreams.accepts.mpr haccepted
    cases hr

/-- Chunk by chunk, with every operation carried out, the server accepts exactly the
bodies that it would accept in one piece.  It stores the whole file exactly if no
other content of its size is in the place of the file. -/
theorem streaming_intake_iff (state : AppState) (ns : ObjectNamespace) (fields : List Field)
    (hcomplete : ∀ field ∈ fields, field.complete = true) (w : World ι) (i : ι) (id : Uuid)
    (now : Timestamp) (hdrawn : w.drawnBy id = none) (hstaging : w.staging id = none) :
    ∃ r last visited,
      (server ι).alone i (fun _ ↦ .granted id now) (receiveFile state ns ⟨fields, true⟩) w =
        some (r, last, visited) ∧
      Streams state ns fields w r last visited ∧
      (StreamsWhole state ns fields w r last visited ↔
        FileUnclashed state ns fields w.objects) := by
  obtain ⟨r, last, visited, hrun, hbounded, htakes⟩ :=
    takesParts_alone state ns hcomplete i id now hdrawn hstaging
  exact ⟨r, last, visited, hrun, htakes.streams hbounded, htakes.streamsWhole_iff hbounded⟩

end Upload

/-! ## Over an empty place, and over another file -/

open Upload

namespace Sample

/-- The place of the upload holds this file, or nothing. -/
def stocked (file : Option Bytes) : World (Fin 3) :=
  { World.start [partner] with
    objects := Function.update (fun _ ↦ none)
      (state.store.place ⟨uuid 1, uuid 2⟩ (state.store.sha256.hex content)) file }

theorem accepted : Part.Accepted state.maxUploadBytes (multipart.fields.map Field.part) := by
  refine ⟨_, rfl, ⟨by decide, by decide, .pdf, by decide, fun declared h ↦ ?_⟩, by decide⟩
  cases h

end Sample

open Sample in
theorem streaming_intake_iff_fresh : ∃ r last visited,
    (server (Fin 3)).alone 0 (fun _ ↦ .granted (uuid 3) 0)
        (receiveFile state ⟨uuid 1, uuid 2⟩ multipart) (stocked none) = some (r, last, visited) ∧
      StreamsWhole state ⟨uuid 1, uuid 2⟩ multipart.fields (stocked none) r last visited ∧
      ∃ received, r = .ok received := by
  obtain ⟨r, last, visited, hrun, hstreams, hiff⟩ := streaming_intake_iff state
    ⟨uuid 1, uuid 2⟩ multipart.fields (by decide) (stocked none) (0 : Fin 3) (uuid 3) 0 rfl rfl
  refine ⟨r, last, visited, hrun, hiff.mpr fun _ file _ _ other hother ↦ ?_,
    hstreams.accepts.mpr accepted⟩
  simp [stocked] at hother

open Sample in
/-- Another file of five bytes stays in the place of the upload. -/
theorem intake_keeps_damaged : ∃ r last visited,
    (server (Fin 3)).alone 0 (fun _ ↦ .granted (uuid 3) 0)
        (receiveFile state ⟨uuid 1, uuid 2⟩ multipart)
        (stocked (some [0x25, 0x50, 0x44, 0x46, 0x00])) = some (r, last, visited) ∧
      (∃ received, r = .ok received) ∧
      ¬ StreamsWhole state ⟨uuid 1, uuid 2⟩ multipart.fields
        (stocked (some [0x25, 0x50, 0x44, 0x46, 0x00])) r last visited := by
  have hcomplete : ∀ field ∈ multipart.fields, field.complete = true := by decide
  obtain ⟨r, last, visited, hrun, hbounded, htakes⟩ :=
    takesParts_alone state ⟨uuid 1, uuid 2⟩ hcomplete
      (w := stocked (some [0x25, 0x50, 0x44, 0x46, 0x00])) (0 : Fin 3) (uuid 3) 0 rfl rfl
  refine ⟨r, last, visited, hrun, (htakes.streams hbounded).accepts.mpr accepted, fun hwhole ↦ ?_⟩
  have hclash := (htakes.streamsWhole_iff hbounded).mp hwhole accepted _ List.mem_cons_self
    (by decide) [0x25, 0x50, 0x44, 0x46, 0x00] (by simp [stocked, content]) rfl
  exact absurd hclash (by decide)

end Otdel
