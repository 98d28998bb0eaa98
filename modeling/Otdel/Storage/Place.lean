import Otdel.Storage.KeySpelling
import Otdel.Storage.Store

/-!
# Where objects lie

The path of an object tells its namespace and its digest apart from all others.
-/

namespace Otdel

/-- Where the object of a digest lies. -/
def Store.place (store : Store) (ns : ObjectNamespace) (sha256 : Text) : Path :=
  store.objectsRoot ++ (ns.keyText store.uuid sha256).splitOn '/'

theorem hexDigit_mem_lowerHex : ∀ n : Fin 16, Text.hexDigit n ∈ lowerHex := by decide

theorem isDigest_hex (sha256 : Sha256) (content : Bytes) : IsDigest (sha256.hex content) := by
  constructor
  · rw [Sha256.hex, hexLower, List.length_flatMap]
    simp [sha256.length_digest]
  · intro c hc
    rw [Sha256.hex, hexLower, List.mem_flatMap] at hc
    obtain ⟨byte, -, hc⟩ := hc
    simp only [List.mem_cons, List.not_mem_nil, or_false] at hc
    rcases hc with rfl | rfl <;> exact hexDigit_mem_lowerHex _

theorem splitOn_keyText (uuid : UuidCrate) (ns : ObjectNamespace) {digest : Text}
    (h : IsDigest digest) :
    (ns.keyText uuid digest).splitOn '/' =
      [ObjectKey.bureauPrefix ++ uuid.display ns.bureauId,
        ObjectKey.partnerPrefix ++ uuid.display ns.partnerId, digest.take 2, digest] :=
  ObjectKey.splitOn_path (uuid.isForm_display _).slash_notMem (uuid.isForm_display _).slash_notMem
    h.slash_notMem

theorem UuidCrate.display_injective (uuid : UuidCrate) : Function.Injective uuid.display := by
  intro u v h
  have hu := uuid.parseStr_display u
  rw [h, uuid.parseStr_display] at hu
  exact (Option.some.inj hu).symm

theorem Store.place_injective (store : Store) {ns ns' : ObjectNamespace} {digest digest' : Text}
    (h : IsDigest digest) (h' : IsDigest digest')
    (heq : store.place ns digest = store.place ns' digest') : ns = ns' ∧ digest = digest' := by
  have hsplit := List.append_cancel_left heq
  rw [splitOn_keyText store.uuid ns h, splitOn_keyText store.uuid ns' h'] at hsplit
  simp only [List.cons.injEq, List.append_cancel_left_eq] at hsplit
  obtain ⟨hbureau, hpartner, -, hdigest, -⟩ := hsplit
  have hbureauId := store.uuid.display_injective hbureau
  have hpartnerId := store.uuid.display_injective hpartner
  exact ⟨congrArg₂ ObjectNamespace.mk hbureauId hpartnerId, hdigest⟩

theorem resolve_place {store : Store} {ns : ObjectNamespace} {sha256 : Text}
    {key : ObjectKey store.uuid} (hkey : key.raw = ns.keyText store.uuid sha256) :
    ObjectKey.resolveWithin store.objectsRoot key.raw = .ok (store.place ns sha256) := by
  rw [ObjectKey.resolveWithin_raw, hkey, Store.place]

theorem raw_of_keyForDigest {uuid : UuidCrate} {ns : ObjectNamespace} {sha256 : Text}
    {key : ObjectKey uuid} (h : ns.keyForDigest uuid sha256 = .ok key) :
    key.raw = ns.keyText uuid sha256 := by
  unfold ObjectNamespace.keyForDigest at h
  split at h
  · cases h
  · exact ObjectKey.parse_eq_ok.mp h

/-- The key of a digest exists, and its text is the one that is formatted. -/
theorem exists_keyForDigest (uuid : UuidCrate) (ns : ObjectNamespace) {digest : Text}
    (h : IsDigest digest) :
    ∃ key, ns.keyForDigest uuid digest = .ok key ∧ key.raw = ns.keyText uuid digest := by
  obtain ⟨key, hkey, -⟩ := ObjectKey.keyForDigest_readBack uuid ns h
  exact ⟨key, hkey, raw_of_keyForDigest hkey⟩

end Otdel
