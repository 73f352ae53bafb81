import ContentVault.Proofs.Store.Records
set_option autoImplicit false

/-!
# Slots that hold a list of blobs

Between calls no identifier is reserved, so the slots of the blobs are told by a list of the
committed ones, in whatever order.
-/

namespace ContentVault

/-! ## Members told apart by a key -/

section

variable {α β : Type} {key : α → β} {l : List α} {n : Nat} {a : α}

/-- Where no key occurs twice, members with the same key are at the same place. -/
theorem index_eq_of_nodup_map (h : (l.map key).Nodup) {n' : Nat} {a' : α} (ha : l[n]? = some a)
    (ha' : l[n']? = some a') (hkey : key a = key a') : n = n' := by
  have hget : ∀ {i : Nat} {b : α}, l[i]? = some b → (l.map key)[i]? = some (key b) := by
    intro i b hb
    rw [List.getElem?_map, hb, Option.map_some]
  obtain ⟨hn, _⟩ := List.getElem?_eq_some_iff.mp (hget ha)
  exact (List.getElem?_inj hn h).mp ((hget ha).trans (hkey ▸ (hget ha').symm))

/-- A member may be replaced by one with the same key. -/
theorem map_set_of_key_eq {a' : α} (ha : l[n]? = some a) (hkey : key a' = key a) :
    (l.set n a').map key = l.map key := by
  obtain ⟨hn, hget⟩ := List.getElem?_eq_some_iff.mp ha
  have hn' : n < (l.map key).length := List.length_map key ▸ hn
  rw [List.map_set, hkey, ← hget, ← List.getElem_map key (h := hn'), List.set_getElem_self]

end

/-! ## Blobs under their identifiers -/

/-- The slots of the blobs are those of the listed ones, which are committed; no other identifier is
reserved. -/
structure Lists (records : List ContentRecord) (m : MemoryStore) : Prop where
  nodup : (records.map (·.id)).Nodup
  get?_iff : ∀ id slot, m.stores.get? id = some slot ↔
    ∃ record ∈ records, record.id = id ∧ slot = .committed record

namespace Lists

variable {records : List ContentRecord} {m : MemoryStore}

theorem empty : Lists [] .empty := by
  refine ⟨List.nodup_nil, fun id slot => ⟨fun hget => ?_, fun h => ?_⟩⟩
  · cases hget
  · obtain ⟨record, hrecord, _⟩ := h
    cases hrecord

theorem record?_iff (h : Lists records m) (id : StoreId) (record : ContentRecord) :
    m.stores.record? id = some record ↔ record ∈ records ∧ record.id = id := by
  constructor
  · intro hrecord
    obtain ⟨record', hmem, hid, hslot⟩ := (h.get?_iff id _).mp (SlotMap.record?_eq_some hrecord)
    cases hslot
    exact ⟨hmem, hid⟩
  · rintro ⟨hmem, hid⟩
    rw [SlotMap.record?, (h.get?_iff id _).mpr ⟨record, hmem, hid, rfl⟩]
    rfl

/-- An identifier is free if no listed blob has it. -/
theorem get?_eq_none_iff (h : Lists records m) (id : StoreId) :
    m.stores.get? id = none ↔ ∀ record ∈ records, record.id ≠ id := by
  constructor
  · intro hfree record hmem hid
    rw [(h.get?_iff id _).mpr ⟨record, hmem, hid, rfl⟩] at hfree
    cases hfree
  · intro hother
    cases hget : m.stores.get? id with
    | none => rfl
    | some slot =>
      obtain ⟨record, hmem, hid, _⟩ := (h.get?_iff id slot).mp hget
      exact absurd hid (hother record hmem)

/-- A blob that is committed under a free identifier is listed last. -/
theorem append (h : Lists records m) {record : ContentRecord}
    (hfree : m.stores.get? record.id = none) {m' : MemoryStore}
    (hslots : ∀ id, m'.stores.get? id
      = if id = record.id then some (.committed record) else m.stores.get? id) :
    Lists (records ++ [record]) m' := by
  have hother := (h.get?_eq_none_iff record.id).mp hfree
  refine ⟨?_, fun id slot => ?_⟩
  · rw [List.map_append, List.map_singleton]
    refine List.Nodup.append h.nodup (List.nodup_singleton _) fun id hold hlast => ?_
    cases List.mem_singleton.mp hlast
    obtain ⟨record', hmem, hid⟩ := List.mem_map.mp hold
    exact hother record' hmem hid
  · rw [hslots]
    by_cases hid : id = record.id
    · rw [if_pos hid]
      constructor
      · rintro ⟨⟩
        exact ⟨record, List.mem_append_right _ (List.mem_singleton_self _), hid.symm, rfl⟩
      · rintro ⟨record', hmem, hid', rfl⟩
        rcases List.mem_append.mp hmem with hold | hlast
        · exact absurd (hid'.trans hid) (hother record' hold)
        · rw [List.mem_singleton.mp hlast]
    · rw [if_neg hid, h.get?_iff]
      constructor
      · rintro ⟨record', hmem, hrest⟩
        exact ⟨record', List.mem_append_left _ hmem, hrest⟩
      · rintro ⟨record', hmem, hid', hslot⟩
        rcases List.mem_append.mp hmem with hold | hlast
        · exact ⟨record', hold, hid', hslot⟩
        · rw [List.mem_singleton.mp hlast] at hid'
          exact absurd hid'.symm hid

/-- A listed blob whose status is changed stays where it is listed. -/
theorem set_status (h : Lists records m) {n : Nat} {record : ContentRecord}
    (hrecord : records[n]? = some record) (status : Status) :
    ∃ m', Backend.updateStatus record.id status m = (.ok (), m') ∧
      Lists (records.set n { record with status }) m' := by
  have hget := (h.record?_iff record.id record).mpr ⟨List.mem_of_getElem? hrecord, rfl⟩
  obtain ⟨hn, _⟩ := List.getElem?_eq_some_iff.mp hrecord
  let changed : ContentRecord := { record with status }
  refine ⟨{ m with stores := m.stores.insert record.id (.committed changed) }, ?_, ?_⟩
  · change m.updateStatus record.id status = _
    unfold MemoryStore.updateStatus SlotMap.replace
    rw [hget]
    rfl
  · have hids : (records.set n changed).map (·.id) = records.map (·.id) :=
      map_set_of_key_eq hrecord rfl
    refine ⟨hids ▸ h.nodup, fun id slot => ?_⟩
    rw [OrderedMap.get?_insert]
    by_cases hid : id = record.id
    · rw [if_pos hid]
      constructor
      · rintro ⟨⟩
        exact ⟨changed, List.mem_set hn changed, hid.symm, rfl⟩
      · rintro ⟨record', hmem, hid', rfl⟩
        obtain ⟨i, hi⟩ := List.mem_iff_getElem?.mp hmem
        rw [List.getElem?_set] at hi
        split at hi
        · cases hi
          rfl
        next hne =>
          have hsame : record.id = record'.id := hid.symm.trans hid'.symm
          exact absurd (index_eq_of_nodup_map h.nodup hrecord hi hsame) hne
    · rw [if_neg hid, h.get?_iff]
      constructor
      · rintro ⟨record', hmem, hid', hslot⟩
        obtain ⟨i, hi⟩ := List.mem_iff_getElem?.mp hmem
        refine ⟨record', List.mem_iff_getElem?.mpr ⟨i, ?_⟩, hid', hslot⟩
        rw [List.getElem?_set, if_neg, hi]
        rintro rfl
        cases hrecord.symm.trans hi
        exact hid hid'.symm
      · rintro ⟨record', hmem, hid', hslot⟩
        rcases List.mem_or_eq_of_mem_set hmem with hold | rfl
        · exact ⟨record', hold, hid', hslot⟩
        · exact absurd hid'.symm hid

/-- The blobs of a checksum are the listed ones of that checksum. -/
theorem matchHash_perm (h : Lists records m) (hash : UInt32) :
    (m.matchHash hash).Perm (records.filter (·.id.hash == hash)) := by
  have hrecords : records.Nodup := h.nodup.of_map _
  have hmatches : (m.matchHash hash).Nodup := by
    refine SlotMap.recordsWhere_pairwise m.stores _ ?_
    rintro id id' record record' hlt hrecord hrecord' rfl
    have hsame := ((h.record?_iff id record).mp hrecord).2.symm.trans
      ((h.record?_iff id' record).mp hrecord').2
    have hself : compare id' id' = .eq := Std.ReflCmp.compare_self
    rw [hsame, hself] at hlt
    cases hlt
  refine (List.perm_ext_iff_of_nodup hmatches (hrecords.filter _)).mpr fun record => ?_
  rw [MemoryStore.mem_matchHash_iff, List.mem_filter, beq_iff_eq]
  constructor
  · rintro ⟨id, hhash, hrecord⟩
    obtain ⟨hmem, rfl⟩ := (h.record?_iff id record).mp hrecord
    exact ⟨hmem, hhash⟩
  · rintro ⟨hmem, hhash⟩
    exact ⟨record.id, hhash, (h.record?_iff _ _).mpr ⟨hmem, rfl⟩⟩

end Lists

end ContentVault
