import ContentVault.Proofs.Vault.Retrieving
set_option autoImplicit false

/-!
# The archive of what was ingested

Every content that was ingested is committed once, under the identifier that the ingest
gave, and nothing else is committed.  Ingests keep it so, and so do changes of statuses.
-/

namespace ContentVault

open MemoryStore (SameBlobs)

variable [Codec]

/-- The committed blobs are the contents that were ingested: each is kept under the identifier given
to it, of its checksum, and no content is kept twice. -/
structure Archive (checksum : Bytes → UInt32) (m : MemoryStore)
    (ingested : List (Bytes × Ingested)) : Prop where
  kept : ∀ data done, (data, done) ∈ ingested → ∃ record,
    m.stores.record? done.record.id = some record ∧ record.decompressed = .ok data
  known : ∀ id record, m.stores.record? id = some record → record.id = id ∧
    ∃ data done, (data, done) ∈ ingested ∧ done.record.id = id ∧
      record.decompressed = .ok data ∧ id.hash = checksum data
  apart : ∀ id id' record record' data, m.stores.record? id = some record →
    m.stores.record? id' = some record' → record.decompressed = .ok data →
    record'.decompressed = .ok data → id = id'

namespace Archive

variable {checksum : Bytes → UInt32} {m m' : MemoryStore} {ingested : List (Bytes × Ingested)}

theorem empty : Archive checksum .empty [] := by
  refine ⟨fun data done h => ?_, fun id record h => ?_, fun id _ record _ _ h => ?_⟩
  · cases h
  · cases h
  · cases h

/-! ## Steps -/

theorem of_sameBlobs (h : Archive checksum m ingested) (hsame : SameBlobs m m') :
    Archive checksum m' ingested := by
  obtain ⟨status, hsame⟩ := hsame
  have hold : ∀ {id record'}, m'.stores.record? id = some record' →
      ∃ record, m.stores.record? id = some record ∧ record'.id = record.id ∧
        record'.decompressed = record.decompressed := by
    intro id record' hrecord'
    rw [hsame, Option.map_eq_some_iff] at hrecord'
    obtain ⟨record, hrecord, rfl⟩ := hrecord'
    exact ⟨record, hrecord, rfl, rfl⟩
  refine ⟨fun data done hmem => ?_, fun id record' hrecord' => ?_, ?_⟩
  · obtain ⟨record, hrecord, hdata⟩ := h.kept data done hmem
    refine ⟨{ record with status := status done.record.id record.status }, ?_, hdata⟩
    rw [hsame, hrecord]
    rfl
  · obtain ⟨record, hrecord, hid, hdecompressed⟩ := hold hrecord'
    rw [hid, hdecompressed]
    exact h.known id record hrecord
  · intro id id' record₁ record₂ data hrecord₁ hrecord₂ hdata₁ hdata₂
    obtain ⟨record, hrecord, _, hdecompressed⟩ := hold hrecord₁
    obtain ⟨record', hrecord', _, hdecompressed'⟩ := hold hrecord₂
    exact h.apart id id' record record' data hrecord hrecord' (hdecompressed ▸ hdata₁)
      (hdecompressed' ▸ hdata₂)

/-- Content that was found again is ingested under the identifier that it has. -/
theorem found (h : Archive checksum m ingested) {id : StoreId} {existing : ContentRecord}
    {data : Bytes} (hrecord : m.stores.record? id = some existing)
    (hdata : existing.decompressed = .ok data) :
    Archive checksum m ((data, ⟨existing, true⟩) :: ingested) := by
  refine ⟨fun data' done hmem => ?_, fun id' record hrecord' => ?_, h.apart⟩
  · rcases List.mem_cons.mp hmem with heq | hmem
    · cases heq
      have hid : existing.id = id := (h.known id existing hrecord).1
      exact ⟨existing, hid ▸ hrecord, hdata⟩
    · exact h.kept data' done hmem
  · obtain ⟨hid, data', done, hmem, hrest⟩ := h.known id' record hrecord'
    exact ⟨hid, data', done, List.mem_cons_of_mem _ hmem, hrest⟩

/-- Content that was not stored is ingested under an identifier that was not committed. -/
theorem stored (h : Archive checksum m ingested) {id : StoreId} {record : ContentRecord}
    {data : Bytes} (hid : record.id = id) (hhash : id.hash = checksum data)
    (hdata : record.decompressed = .ok data) (hnone : m.stores.record? id = none)
    (habsent : ∀ id record, id.hash = checksum data → m.stores.record? id = some record →
      record.decompressed ≠ .ok data)
    (hrecord? : ∀ id', m'.stores.record? id'
      = if id' = id then some record else m.stores.record? id') :
    Archive checksum m' ((data, ⟨record, false⟩) :: ingested) := by
  -- Nothing that was there holds the content, whatever its checksum.
  have hnew : ∀ id' record', m.stores.record? id' = some record' →
      record'.decompressed ≠ .ok data := by
    intro id' record' hrecord' hdata'
    obtain ⟨_, data', _, _, _, hdata'', hhash'⟩ := h.known id' record' hrecord'
    cases hdata''.symm.trans hdata'
    exact habsent id' record' hhash' hrecord' hdata'
  have hcases : ∀ {id' record'}, m'.stores.record? id' = some record' →
      id' = id ∧ record' = record ∨ m.stores.record? id' = some record' := by
    intro id' record' hrecord'
    rw [hrecord?] at hrecord'
    by_cases heq : id' = id
    · rw [if_pos heq] at hrecord'
      cases hrecord'
      exact Or.inl ⟨heq, rfl⟩
    · rw [if_neg heq] at hrecord'
      exact Or.inr hrecord'
  refine ⟨fun data' done hmem => ?_, fun id' record' hrecord' => ?_, ?_⟩
  · rcases List.mem_cons.mp hmem with heq | hmem
    · cases heq
      refine ⟨record, ?_, hdata⟩
      rw [hrecord?, if_pos hid]
    · obtain ⟨record', hrecord', hdata'⟩ := h.kept data' done hmem
      refine ⟨record', ?_, hdata'⟩
      rw [hrecord?, if_neg, hrecord']
      intro heq
      rw [heq, hnone] at hrecord'
      cases hrecord'
  · rcases hcases hrecord' with ⟨rfl, rfl⟩ | hold
    · exact ⟨hid, data, ⟨record', false⟩, List.mem_cons_self, hid, hdata, hhash⟩
    · obtain ⟨hid', data', done, hmem, hrest⟩ := h.known id' record' hold
      exact ⟨hid', data', done, List.mem_cons_of_mem _ hmem, hrest⟩
  · intro id₁ id₂ record₁ record₂ data' hrecord₁ hrecord₂ hdata₁ hdata₂
    rcases hcases hrecord₁ with ⟨rfl, rfl⟩ | hold₁
    · rcases hcases hrecord₂ with ⟨rfl, rfl⟩ | hold₂
      · rfl
      · cases hdata.symm.trans hdata₁
        exact absurd hdata₂ (hnew id₂ record₂ hold₂)
    · rcases hcases hrecord₂ with ⟨rfl, rfl⟩ | hold₂
      · cases hdata.symm.trans hdata₂
        exact absurd hdata₁ (hnew id₁ record₁ hold₁)
      · exact h.apart id₁ id₂ record₁ record₂ data' hold₁ hold₂ hdata₁ hdata₂

/-! ## What an archive answers -/

/-- Two contents have one identifier only if they are equal, and then they have. -/
theorem id_eq_iff (h : Archive checksum m ingested) {data data' : Bytes} {done done' : Ingested}
    (hmem : (data, done) ∈ ingested) (hmem' : (data', done') ∈ ingested) :
    done.record.id = done'.record.id ↔ data = data' := by
  obtain ⟨record, hrecord, hdata⟩ := h.kept data done hmem
  obtain ⟨record', hrecord', hdata'⟩ := h.kept data' done' hmem'
  constructor
  · intro hid
    rw [hid] at hrecord
    cases hrecord.symm.trans hrecord'
    exact Except.ok.inj (hdata.symm.trans hdata')
  · rintro rfl
    exact h.apart _ _ record record' data hrecord hrecord' hdata hdata'

/-- Content is held by a committed blob exactly if it was ingested. -/
theorem holds_iff (h : Archive checksum m ingested) (data : Bytes) :
    (∃ id record, id.hash = checksum data ∧ m.stores.record? id = some record ∧
      record.decompressed = .ok data) ↔ ∃ done, (data, done) ∈ ingested := by
  constructor
  · rintro ⟨id, record, _, hrecord, hdata⟩
    obtain ⟨_, data', done, hmem, _, hdata', _⟩ := h.known id record hrecord
    cases hdata.symm.trans hdata'
    exact ⟨done, hmem⟩
  · rintro ⟨done, hmem⟩
    obtain ⟨record, hrecord, hdata⟩ := h.kept data done hmem
    obtain ⟨_, data', _, _, _, hdata', hhash⟩ := h.known _ record hrecord
    cases hdata.symm.trans hdata'
    exact ⟨done.record.id, record, hhash, hrecord, hdata⟩

/-- The blobs of a checksum come in the order of their identifiers. -/
theorem matchHash_pairwise (h : Archive checksum m ingested) (hash : UInt32) :
    (m.matchHash hash).Pairwise fun a b => compare a.id b.id = .lt :=
  MemoryStore.matchHash_pairwise (fun id record hrecord => (h.known id record hrecord).1) hash

/-- The blobs of a checksum are contents of that checksum. -/
theorem of_mem_matchHash (h : Archive checksum m ingested) {hash : UInt32}
    {record : ContentRecord} (hrecord : record ∈ m.matchHash hash) :
    ∃ data done, (data, done) ∈ ingested ∧ checksum data = hash ∧
      record.id = done.record.id ∧ record.decompressed = .ok data := by
  obtain ⟨id, hid, hget⟩ := (m.mem_matchHash_iff hash record).mp hrecord
  obtain ⟨hrecordId, data, done, hmem, hdone, hdata, hhash⟩ := h.known id record hget
  exact ⟨data, done, hmem, hhash.symm.trans hid, hrecordId.trans hdone.symm, hdata⟩

/-- Every content of a checksum is one of its blobs, once. -/
theorem existsUnique_mem_matchHash (h : Archive checksum m ingested) {data : Bytes}
    {done : Ingested} (hmem : (data, done) ∈ ingested) :
    ∃! record, record ∈ m.matchHash (checksum data) ∧ record.decompressed = .ok data := by
  obtain ⟨id, record, hhash, hrecord, hdata⟩ := (h.holds_iff data).mpr ⟨done, hmem⟩
  refine ⟨record, ⟨(m.mem_matchHash_iff _ record).mpr ⟨id, hhash, hrecord⟩, hdata⟩, ?_⟩
  rintro record' ⟨hrecord', hdata'⟩
  obtain ⟨id', _, hget⟩ := (m.mem_matchHash_iff _ record').mp hrecord'
  cases h.apart id id' record record' data hrecord hget hdata hdata'
  exact Option.some.inj (hget.symm.trans hrecord)

end Archive

end ContentVault
