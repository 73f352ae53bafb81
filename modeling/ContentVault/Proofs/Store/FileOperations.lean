import ContentVault.Proofs.Store.Operations
set_option autoImplicit false

/-!
# Operations on files, seen as operations on slots

A file is one document, so each operation is one step on the documents and one on the slots.
-/

namespace ContentVault.ChunkedStore

/-- A commit of slots at a reading of the clock. -/
def commitFileAt (now : UInt64) (r : Reservation FileId) (record : FileRecord) :
    Atomic MemoryStore (Except StoreError Unit) :=
  Atomic.standing now (MemoryStore.commitFile · r record)

theorem commitFileAt_eq (now : UInt64) (r : Reservation FileId) (record : FileRecord)
    (m : MemoryStore) :
    commitFileAt now r record m
      = if record.id = r.id then
          ((m.files.commit r record now).1, { m with files := (m.files.commit r record now).2 })
        else (.error (r.mismatch record.id), m) := by
  unfold commitFileAt Atomic.standing MemoryStore.commitFile
  by_cases hid : record.id = r.id
  · simp only [hid, ne_eq, not_true_eq_false, if_true, if_false, Clock.read_still]
  · simp only [hid, ne_eq, not_false_eq_true, if_true, if_false]

/-- The document of a committed file. -/
def committedFile (r : Reservation FileId) (record : FileRecord) : FileDoc :=
  ⟨r.id, none, some record⟩

/-- How a commit of a file ends, by whether the lease is held at a reading of the clock. -/
abbrev FileEnds (s : ChunkedStore) (m : MemoryStore) (r : Reservation FileId) (record : FileRecord)
    (now : UInt64) : Except StoreError Unit × ChunkedStore → Prop :=
  Ending r record.id (m.files.holds r now) s
    (fun e => s.files.limit < encodedSize (committedFile r record) ∧
      e = s.files.tooLarge (committedFile r record))
    (fun after => encodedSize (committedFile r record) ≤ s.files.limit ∧
      Models after { m with files := m.files.insert r.id (.committed record) })

/-- However a commit ends, the slots end likewise, unless something is refused. -/
theorem follows_of_fileEnds {s : ChunkedStore} {m : MemoryStore} (h : Models s m)
    {r : Reservation FileId} {record : FileRecord} {now : UInt64}
    {out : Except StoreError Unit × ChunkedStore} (hends : FileEnds s m r record now out) :
    Follows Models s out (commitFileAt now r record m) := by
  rw [commitFileAt_eq]
  cases hends with
  | mismatch hid =>
    rw [if_neg hid]
    exact Or.inr ⟨rfl, h⟩
  | notReserved hid hheld =>
    rw [if_pos hid, SlotMap.commit_of_not_held hheld]
    exact Or.inr ⟨rfl, h⟩
  | refused _ _ he => exact Or.inl ⟨_, he.2 ▸ rfl, rfl⟩
  | taken hid hheld hafter =>
    rw [if_pos hid, SlotMap.commit_of_held hheld]
    exact Or.inr ⟨rfl, hafter.2⟩

namespace Represents

variable {s : ChunkedStore} {m : MemoryStore} {writer : StoreId → UInt64}

/-! ## Setting and freeing a slot -/

theorem put_file (h : Represents s m writer) (id : FileId) (slot : Slot FileRecord) :
    Represents { s with files := s.files.put id (slot.toEntry (fun record => record) id) }
      { m with files := m.files.insert id slot } writer := by
  refine ⟨h.stores, h.chunks, fun id' => ?_, h.storable⟩
  change (s.files.put id _).find id' = ((m.files.insert id slot).get? id').map _
  rw [Collection.find_put, OrderedMap.get?_insert]
  by_cases hid : id' = id
  · rw [if_pos hid, if_pos hid, hid]
    rfl
  · rw [if_neg hid, if_neg hid, h.files]

theorem drop_file (h : Represents s m writer) (id : FileId) :
    Represents { s with files := s.files.drop id } { m with files := m.files.erase id } writer := by
  refine ⟨h.stores, h.chunks, fun id' => ?_, h.storable⟩
  change (s.files.drop id).find id' = ((m.files.erase id).get? id').map _
  rw [Collection.find_drop, OrderedMap.get?_erase]
  by_cases hid : id' = id
  · rw [if_pos hid, if_pos hid]
    rfl
  · rw [if_neg hid, if_neg hid, h.files]

/-- A test of documents that comes to a test of slots. -/
theorem any_file (h : Represents s m writer) (id : FileId) {p : FileDoc → Bool}
    {q : Slot FileRecord → Bool}
    (hpq : ∀ slot : Slot FileRecord, p (slot.toEntry (fun record => record) id) = q slot) :
    (s.files.find id).any p = (m.files.get? id).any q := by
  rw [h.files]
  cases m.files.get? id with
  | none => rfl
  | some slot => exact hpq slot

theorem any_isHeldBy_file (h : Represents s m writer) (id : FileId) (token now : UInt64) :
    (s.files.find id).any (·.isHeldBy token now)
      = (m.files.get? id).any (·.isHeldBy token now) :=
  h.any_file id fun slot => Entry.isHeldBy_toEntry _ id slot token now

theorem isSome_record?_file (h : Represents s m writer) (id : FileId) :
    (s.files.find id).any (·.record?.isSome) = (m.files.record? id).isSome := by
  rw [h.any_file id (q := fun slot => slot.record?.isSome)]
  · rw [SlotMap.record?]
    cases m.files.get? id <;> rfl
  · intro slot
    rw [Entry.record?_toEntry, Option.isSome_map]

/-! ## Claiming, releasing and reading -/

theorem claimFile (h : Represents s m writer) (hconfig : Usable s.config) (id : FileId)
    (lease : Lease) (now : UInt64) :
    Follows Models s (s.claimFile id lease now) (Backend.claimFile id lease now m) := by
  have hclaimable : (s.files.find id).all (·.isClaimable now)
      = (m.files.get? id).all (·.isClaimable now) := by
    rw [h.files]
    cases m.files.get? id with
    | none => rfl
    | some slot => exact Entry.isClaimable_toEntry _ _ _ _
  change Follows Models s _
    (.ok (m.files.claim id lease now).1, { m with files := (m.files.claim id lease now).2 })
  unfold ChunkedStore.claimFile onFiles
  rcases s.files.upsertIf_cases id (.reserved id lease) (·.isClaimable now)
    with ⟨_, hup⟩ | ⟨_, hall, hup⟩ | ⟨_, hall, hup⟩
  · simp only [hup]
    exact Or.inl ⟨_, rfl, rfl⟩
  · rw [hclaimable] at hall
    have hslots : m.files.claim id lease now = (true, m.files.insert id (.reserved lease)) :=
      if_pos hall
    simp only [hup, hslots]
    exact Or.inr ⟨rfl, hconfig, writer, h.put_file id (.reserved lease)⟩
  · rw [hclaimable] at hall
    have hslots : m.files.claim id lease now = (false, m.files) :=
      if_neg (Bool.eq_false_iff.mp hall)
    simp only [hup, hslots]
    exact Or.inr ⟨rfl, hconfig, writer, h⟩

theorem releaseFile (h : Represents s m writer) (hconfig : Usable s.config)
    (r : Reservation FileId) :
    Follows Models s (s.releaseFile r) (Backend.releaseFile r m) := by
  have hleased : (s.files.find r.id).any (·.isLeasedTo r.lease.token)
      = (m.files.get? r.id).any (·.isLeasedTo r.lease.token) :=
    h.any_file r.id fun slot => Entry.isLeasedTo_toEntry _ r.id slot r.lease.token
  change Follows Models s _
    (.ok (m.files.release r).1, { m with files := (m.files.release r).2 })
  unfold ChunkedStore.releaseFile onFiles
  rcases s.files.deleteIf_cases r.id (·.isLeasedTo r.lease.token)
    with ⟨hany, hdel⟩ | ⟨doc, hfind, hacc, hdel⟩
  · rw [hleased] at hany
    have hslots : m.files.release r = (false, m.files) := if_neg (Bool.eq_false_iff.mp hany)
    simp only [hdel, hslots]
    exact Or.inr ⟨rfl, hconfig, writer, h⟩
  · have hany : (m.files.get? r.id).any (·.isLeasedTo r.lease.token) = true := by
      rw [← hleased, hfind]
      exact hacc
    have hslots : m.files.release r = (true, m.files.erase r.id) := if_pos hany
    simp only [hdel, hslots]
    exact Or.inr ⟨rfl, hconfig, writer, h.drop_file r.id⟩

theorem getFile (h : Represents s m writer) (id : FileId) : s.getFile id = m.files.record? id := by
  rw [ChunkedStore.getFile, h.files, SlotMap.record?]
  cases m.files.get? id with
  | none => rfl
  | some slot => cases slot <;> rfl

theorem filesForStore (h : Represents s m writer) (store : StoreId) :
    s.filesForStore store = m.filesForStore store := by
  unfold ChunkedStore.filesForStore MemoryStore.filesForStore SlotMap.recordsWhere
    Collection.scanFrom
  rw [OrderedMap.run_eq_filter (FileId.isRun_store store), OrderedMap.entries_eq_map h.files,
    List.filter_map, List.filterMap_map, List.filterMap_filter]
  refine List.filterMap_congr ?_
  rintro ⟨id, slot⟩ _
  refine if_congr Iff.rfl ?_ rfl
  cases slot <;> rfl

/-! ## Committing, replacing and removing -/

/-- A commit of a file ends as the lease is held at the first reading of the clock. -/
theorem commitFile_ends (h : Represents s m writer) (hconfig : Usable s.config)
    (r : Reservation FileId) (record : FileRecord) (clock : Clock) :
    ∃ clock' out, ChunkedStore.commitFile ⟨s, clock⟩ r record = (out.1, ⟨out.2, clock'⟩) ∧
      FileEnds s m r record clock.read.1 out := by
  have hheld := h.any_isHeldBy_file r.id r.lease.token clock.read.1
  unfold ChunkedStore.commitFile onFiles
  by_cases hid : record.id = r.id
  · rw [if_neg (not_not.mpr hid)]
    simp only [Collection.contains_eq]
    rcases s.files.updateIf_cases r.id (·.isHeldBy r.lease.token clock.read.1) (·.commit record)
      with ⟨hany, hup⟩ | ⟨doc, hdoc, hacc, hlt, hup⟩ | ⟨doc, hdoc, hacc, hle, hup⟩
    · rw [hheld] at hany
      simp only [hup]
      by_cases hsome : (s.files.find r.id).isSome = true
      · simp only [hsome, if_true]
        exact ⟨clock.read.2, (.error r.notReserved, s), rfl, .notReserved hid hany⟩
      · simp only [hsome]
        exact ⟨clock, (.error r.notReserved, s), rfl, .notReserved hid hany⟩
    all_goals
      have hslot := h.files r.id
      rw [hdoc, eq_comm, Option.map_eq_some_iff] at hslot
      obtain ⟨slot, _, rfl⟩ := hslot
      rw [hdoc, Option.any_some, hacc] at hheld
      have hentry : (slot.toEntry (fun record => record) r.id).commit record
          = committedFile r record := Entry.commit_toEntry _ _ _ _
      rw [hentry] at hup
      simp only [hdoc, Option.isSome_some, if_true, hup]
    · rw [hentry] at hlt
      exact ⟨clock.read.2, (.error _, s), rfl, .refused hid hheld.symm ⟨hlt, rfl⟩⟩
    · rw [hentry] at hle
      exact ⟨clock.read.2, (.ok (), _), rfl, .taken hid hheld.symm
        ⟨hle, hconfig, writer, h.put_file r.id (.committed record)⟩⟩
  · rw [if_pos hid]
    exact ⟨clock, (.error (r.mismatch record.id), s), rfl, .mismatch hid⟩

/-- A commit of a file is a commit of its slot, at the first reading of the clock. -/
theorem commitFile (h : Represents s m writer) (hconfig : Usable s.config)
    (r : Reservation FileId) (record : FileRecord) (clock : Clock) :
    ∃ clock' out, ChunkedStore.commitFile ⟨s, clock⟩ r record = (out.1, ⟨out.2, clock'⟩) ∧
      Follows Models s out (commitFileAt clock.read.1 r record m) := by
  obtain ⟨clock', out, hcommit, hends⟩ := h.commitFile_ends hconfig r record clock
  exact ⟨clock', out, hcommit, follows_of_fileEnds ⟨hconfig, writer, h⟩ hends⟩

theorem updateFile (h : Represents s m writer) (hconfig : Usable s.config) (record : FileRecord) :
    Follows Models s (s.updateFile record) (Backend.updateFile record m) := by
  have hcommitted := h.isSome_record?_file record.id
  change Follows Models s _ (m.updateFile record)
  unfold ChunkedStore.updateFile onFiles MemoryStore.updateFile SlotMap.replace
  rcases s.files.updateIf_cases record.id (·.record?.isSome)
      (fun doc => { doc with record? := some record })
    with ⟨hany, hup⟩ | ⟨doc, hfind, hacc, _, hup⟩ | ⟨doc, hfind, hacc, _, hup⟩
  · rw [hcommitted, Option.isSome_eq_false_iff, Option.isNone_iff_eq_none] at hany
    simp only [hup, hany]
    exact Or.inr ⟨rfl, hconfig, writer, h⟩
  · simp only [hup]
    exact Or.inl ⟨_, rfl, rfl⟩
  · rw [hfind, Option.any_some, hacc, eq_comm, Option.isSome_iff_exists] at hcommitted
    obtain ⟨old, hold⟩ := hcommitted
    have hdoc := h.files record.id
    rw [hfind, SlotMap.record?_eq_some hold] at hdoc
    cases hdoc
    simp only [hup, hold]
    exact Or.inr ⟨rfl, hconfig, writer, h.put_file record.id (.committed record)⟩

theorem removeFile (h : Represents s m writer) (hconfig : Usable s.config) (id : FileId) :
    Follows Models s (s.removeFile id) (Backend.removeFile id m) := by
  have hcommitted := h.isSome_record?_file id
  change Follows Models s _ (m.removeFile id)
  unfold ChunkedStore.removeFile onFiles MemoryStore.removeFile SlotMap.remove
  rcases s.files.deleteIf_cases id (·.record?.isSome)
    with ⟨hany, hdel⟩ | ⟨doc, hfind, hacc, hdel⟩
  · rw [hcommitted, Option.isSome_eq_false_iff, Option.isNone_iff_eq_none] at hany
    simp only [hdel, hany]
    exact Or.inr ⟨rfl, hconfig, writer, h⟩
  · rw [hfind, Option.any_some, hacc, eq_comm, Option.isSome_iff_exists] at hcommitted
    obtain ⟨record, hrecord⟩ := hcommitted
    simp only [hdel, hrecord]
    exact Or.inr ⟨rfl, hconfig, writer, h.drop_file id⟩

end Represents

end ContentVault.ChunkedStore
