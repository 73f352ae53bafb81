import ContentVault.Proofs.Vault.Deduplicating
import ContentVault.Proofs.Vault.Session
set_option autoImplicit false

/-!
# The first holder of content

Content may be held by several blobs of its checksum, if they are committed past the vault.  What
is looked for is found under the least stamp of these.
-/

namespace ContentVault

variable [Codec]

namespace Slots

variable (s : Slots) (hash : UInt32) (data : Bytes)

/-- A blob of the checksum is committed and holds the content. -/
def Holds (id : StoreId) : Prop :=
  id.hash = hash ∧
    ∃ record, s.blob id = .ok (some (.committed record)) ∧ record.decompressed = .ok data

/-- No blob that holds the content has a lesser stamp. -/
structure HoldsFirst (id : StoreId) : Prop where
  holds : s.Holds hash data id
  least : ∀ id', s.Holds hash data id' → id.stamp ≤ id'.stamp

variable {s hash data} {id id' : StoreId}

/-- There is one first holder at most. -/
theorem HoldsFirst.unique (h : s.HoldsFirst hash data id) (h' : s.HoldsFirst hash data id') :
    id = id' := by
  have hhash : id.hash = id'.hash := h.holds.1.trans h'.holds.1.symm
  have hstamp : id.stamp = id'.stamp :=
    UInt16.le_antisymm (h.least id' h'.holds) (h'.least id h.holds)
  cases id
  cases id'
  cases hhash
  cases hstamp
  rfl

/-- Where the same content is held, it is held first under the same identifier. -/
theorem HoldsFirst.congr {t : Slots} (h : s.HoldsFirst hash data id)
    (hsame : ∀ id', t.Holds hash data id' ↔ s.Holds hash data id') : t.HoldsFirst hash data id :=
  ⟨(hsame id).mpr h.holds, fun id' hid' => h.least id' ((hsame id').mp hid')⟩

end Slots

namespace MemoryStore

variable {m : MemoryStore} {hash : UInt32} {data : Bytes} {record : ContentRecord} {id : StoreId}

theorem slots_holds_iff (m : MemoryStore) (hash : UInt32) (data : Bytes) (id : StoreId) :
    m.slots.Holds hash data id ↔
      id.hash = hash ∧ ∃ record, m.stores.record? id = some record ∧
        record.decompressed = .ok data := by
  refine and_congr_right fun _ => exists_congr fun record => and_congr_left fun _ => ?_
  constructor
  · exact fun h => SlotMap.record?_of_get? (Except.ok.inj h)
  · exact fun h => congrArg Except.ok (SlotMap.record?_eq_some h)

/-- The same content is held where the same blobs are committed. -/
theorem SameRecords.holds_iff {n : MemoryStore} (h : SameRecords m n) (hash : UInt32) (data : Bytes)
    (id : StoreId) : n.slots.Holds hash data id ↔ m.slots.Holds hash data id := by
  rw [slots_holds_iff, slots_holds_iff, h id]

section

variable {level : Int} (hfaithful : Faithful level data)

include hfaithful

/-- Content that is not found is not held. -/
theorem not_holds_of_find?
    (hnone : (m.matchHash hash).find?
      (ContentStore.holds data (Codec.compress data level)) = none) :
    ¬m.slots.Holds hash data id := by
  intro hholds
  obtain ⟨hhash, record, hrecord, hdata⟩ := (m.slots_holds_iff hash data id).mp hholds
  have hnot := (m.find?_matchHash_eq_none_iff hash _).mp hnone id record hhash hrecord
  rw [(ContentStore.holds_iff record hfaithful.decompress_eq hfaithful.length_lt).mpr hdata] at hnot
  cases hnot

namespace Keyed

/-- What is found holds the content, and is the first to do so. -/
theorem holdsFirst_of_find? (h : m.Keyed)
    (hfirst : (m.matchHash hash).find?
      (ContentStore.holds data (Codec.compress data level)) = some record) :
    m.slots.HoldsFirst hash data record.id := by
  have hholds := fun r : ContentRecord =>
    ContentStore.holds_iff r hfaithful.decompress_eq hfaithful.length_lt
  have hdata := List.find?_some hfirst
  have hmem : record ∈ m.matchHash hash := List.mem_of_find?_eq_some hfirst
  obtain ⟨id, hhash, hrecord⟩ := (m.mem_matchHash_iff hash record).mp hmem
  rw [h id record hrecord]
  refine ⟨(m.slots_holds_iff hash data id).mpr ⟨hhash, record, hrecord, (hholds record).mp hdata⟩,
    fun id' hid' => ?_⟩
  obtain ⟨hhash', record', hrecord', hdata'⟩ := (m.slots_holds_iff hash data id').mp hid'
  have hmem' : record' ∈ m.matchHash hash :=
    (m.mem_matchHash_iff hash record').mpr ⟨id', hhash', hrecord'⟩
  rw [← h id record hrecord]
  rcases ContentRecord.before_of_find? (matchHash_pairwise h hash) hfirst hmem'
    ((hholds record').mpr hdata') with rfl | hlt
  · rw [h id' record' hrecord']
    exact UInt16.le_refl _
  · -- The checksums are equal, so it is the stamps that tell the order.
    rw [ContentRecord.Before, h id record hrecord, h id' record' hrecord', StoreId.compare_def,
      hhash, hhash', Std.compare_self] at hlt
    rw [h id record hrecord]
    exact UInt16.le_of_lt (Std.compare_eq_lt.mp hlt)

/-- Content that is held is held first somewhere. -/
theorem exists_holdsFirst (h : m.Keyed) (hholds : m.slots.Holds hash data id) :
    ∃ first, m.slots.HoldsFirst hash data first := by
  cases hfound : (m.matchHash hash).find?
      (ContentStore.holds data (Codec.compress data level)) with
  | none => exact absurd hholds (not_holds_of_find? hfaithful hfound)
  | some found => exact ⟨found.id, h.holdsFirst_of_find? hfaithful hfound⟩

end Keyed

end

end MemoryStore

end ContentVault
