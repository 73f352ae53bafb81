import ContentVault.Proofs.Vault.Amid
import ContentVault.Proofs.Vault.Reserving
import Mathlib.Logic.Function.Basic
set_option autoImplicit false

/-!
# Slots on view

Whatever a backend holds, it shows a slot for each identifier: free, reserved, or committed with
the record that can be read.  A claim is refused, or it is turned down, or it sets the slot of its
identifier and no other; and that in any state of either backend.
-/

namespace ContentVault

/-- The slots of blobs, as far as these can be read, and those of files. -/
@[ext] structure Slots where
  blob : StoreId → Except StoreError (Option (Slot ContentRecord))
  file : FileId → Option (Slot FileRecord)

namespace Slots

/-- What a claim at `now` may take: a slot that is free or whose lease has lapsed. -/
def isOpen {ρ : Type} (now : UInt64) : Except StoreError (Option (Slot ρ)) → Bool
  | .ok slot? => slot?.all (·.isClaimable now)
  | .error _ => false

/-- What is committed is not open. -/
theorem not_isOpen_committed {ρ : Type} {now : UInt64} {record : ρ} :
    ¬isOpen now (.ok (some (.committed record))) = true := Bool.false_ne_true

/-- The same blobs and files are committed. -/
structure SameCommitted (before after : Slots) : Prop where
  blob : ∀ id record, after.blob id = .ok (some (.committed record)) ↔
    before.blob id = .ok (some (.committed record))
  file : ∀ id record, after.file id = some (.committed record) ↔
    before.file id = some (.committed record)

/-- A value that is nowhere set or overwritten stands where it stood. -/
theorem update_eq_iff {κ α : Type} [DecidableEq κ] {f : κ → α} {id id' : κ} {x y : α} (hx : x ≠ y)
    (hid : f id ≠ y) : Function.update f id x id' = y ↔ f id' = y := by
  by_cases h : id' = id
  · subst h
    rw [Function.update_self]
    exact iff_of_false hx hid
  · rw [Function.update_of_ne h]

end Slots

/-- The slots of slot maps. -/
def MemoryStore.slots (m : MemoryStore) : Slots := ⟨fun id => .ok (m.stores.get? id), m.files.get?⟩

/-- The slots that a chunked store stands for. -/
def ChunkedStore.slots (s : ChunkedStore) : Slots := ⟨s.storeSlot, s.fileSlot⟩

/-- A backend that shows its slots. -/
class ShowsSlots (σ : Type) [Backend σ] extends SlotBackend σ where
  slotsOf : σ → Slots
  slotsOf_eq {b : σ} {m : MemoryStore} (h : Models b m) : slotsOf b = m.slots

export ShowsSlots (slotsOf slotsOf_eq)

instance : ShowsSlots MemoryStore where
  slotsOf := MemoryStore.slots
  slotsOf_eq h := h ▸ rfl

instance : ShowsSlots ChunkedStore where
  slotsOf := ChunkedStore.slots
  slotsOf_eq h := by
    obtain ⟨_, writer, h⟩ := h
    exact Slots.ext (funext h.storeSlot_eq) (funext h.fileSlot_eq)

theorem ChunkedStore.blob_slotsOf (s : ChunkedStore) (id : StoreId) :
    (slotsOf s).blob id = s.storeSlot id := rfl

/-! ## Kinds of identifiers -/

/-- Identifiers that have slots, and the candidate that follows one that is taken: a byte is drawn
for it, or no byte matters. -/
class SlotKind (κ : Type) (ρ : outParam Type) [Reservable κ ρ] extends SlotClaim κ ρ where
  slot : Slots → κ → Except StoreError (Option (Slot ρ))
  set : Slots → κ → Slot ρ → Slots
  mutate : κ → UInt8 → κ
  slot_set_self (s : Slots) (id : κ) (x : Slot ρ) : slot (set s id x) id = .ok (some x)
  sameCommitted_set {s : Slots} {id : κ} {lease : Lease} {now : UInt64}
    (hopen : Slots.isOpen now (slot s id) = true) : s.SameCommitted (set s id (.reserved lease))
  run_next {σ : Type} [Backend σ] (w : World σ) (id : κ) :
    ∃ stampBytes, w.run (Reservable.next id)
        = (mutate id w.stampBytes.draw.1, { w with stampBytes }) ∧
      (stampBytes = w.stampBytes.draw.2 ∨ ∀ id byte byte', mutate id byte = mutate id byte')
  ensures_next {σ : Type} [Backend σ] {kind : World Unit → Prop} (id : κ) (b : σ) :
    Ensures kind (fun id' b' => b' = b ∧ ∃ byte, id' = mutate id byte) (Reservable.next id) b
  /-- A claim is one request. -/
  ensures_claim {σ : Type} [Backend σ] {kind : World Unit → Prop}
    {post : Except StoreError Bool → σ → Prop} {id : κ} {lease : Lease} {now : UInt64} {b : σ}
    (h : post (claim id lease now b).1 (claim id lease now b).2) :
    Ensures kind post (Reservable.claim id lease now) b

instance : SlotKind StoreId ContentRecord where
  slot s := s.blob
  set s id x := { s with blob := Function.update s.blob id (.ok (some x)) }
  mutate id _ := id.next
  slot_set_self s id x := Function.update_self ..
  sameCommitted_set hopen :=
    ⟨fun _ record => Slots.update_eq_iff (fun h => by cases h) fun h =>
      Slots.not_isOpen_committed (h ▸ hopen), fun _ _ => Iff.rfl⟩
  run_next w id := ⟨w.stampBytes, rfl, Or.inr fun _ _ _ => rfl⟩
  ensures_next _ _ := ⟨rfl, 0, rfl⟩
  ensures_claim h := fun _ _ => h

instance : SlotKind FileId FileRecord where
  slot s id := .ok (s.file id)
  set s id x := { s with file := Function.update s.file id (some x) }
  mutate := FileId.extend
  slot_set_self s id x := congrArg Except.ok (Function.update_self ..)
  sameCommitted_set hopen :=
    ⟨fun _ _ => Iff.rfl, fun _ record => Slots.update_eq_iff (fun h => by cases h) fun h =>
      Slots.not_isOpen_committed (h ▸ hopen)⟩
  run_next w id := ⟨w.stampBytes.draw.2, rfl, Or.inl rfl⟩
  ensures_next _ _ := Ensures.bind (Ensures.ask_local trivial fun _ _ => ⟨rfl, _, rfl⟩)
  ensures_claim h := fun _ _ => h

/-! ## What a claim does -/

/-- Claims in a backend are answered by the slots that it shows. -/
class ClaimsSlots (κ : Type) (ρ : outParam Type) [Reservable κ ρ] [SlotKind κ ρ] (σ : Type)
    [Backend σ] [ShowsSlots σ] where
  /-- The error of a claim of an identifier for which there is no room. -/
  refused? : σ → κ → Option StoreError
  claim_cases (b : σ) (id : κ) (lease : Lease) (now : UInt64) :
    (∃ e, refused? b id = some e ∧ SlotClaim.claim id lease now b = (.error e, b)) ∨
    (refused? b id = none ∧ Slots.isOpen now (SlotKind.slot (slotsOf b) id) = false ∧
      SlotClaim.claim id lease now b = (.ok false, b)) ∨
    (refused? b id = none ∧ Slots.isOpen now (SlotKind.slot (slotsOf b) id) = true ∧
      (SlotClaim.claim id lease now b).1 = .ok true ∧
      slotsOf (SlotClaim.claim id lease now b).2
        = SlotKind.set (slotsOf b) id (.reserved lease))

/-- A claim of a slot map takes a slot that is open. -/
theorem SlotMap.claim_cases {κ ρ : Type} [Ord κ] [Std.TransOrd κ] (m : SlotMap κ ρ) (id : κ)
    (lease : Lease) (now : UInt64) :
    (Slots.isOpen now (.ok (m.get? id)) = false ∧ m.claim id lease now = (false, m)) ∨
    (Slots.isOpen now (.ok (m.get? id)) = true ∧
      m.claim id lease now = (true, m.insert id (.reserved lease))) := by
  cases hopen : Slots.isOpen now (.ok (m.get? id)) with
  | false => exact Or.inl ⟨rfl, if_neg (Bool.eq_false_iff.mp hopen)⟩
  | true => exact Or.inr ⟨rfl, if_pos hopen⟩

theorem OrderedMap.get?_insert_eq_update {κ ν : Type} [Ord κ] [Std.TransOrd κ] [Std.LawfulEqOrd κ]
    [DecidableEq κ] (m : OrderedMap κ ν) (key : κ) (value : ν) :
    (m.insert key value).get? = Function.update m.get? key (some value) := by
  funext key'
  rw [OrderedMap.get?_insert, Function.update_apply]

namespace MemoryStore

instance : ClaimsSlots StoreId ContentRecord MemoryStore where
  refused? _ _ := none
  claim_cases b id lease now := by
    have hclaim : SlotClaim.claim id lease now b
        = (.ok (b.stores.claim id lease now).1,
          { b with stores := (b.stores.claim id lease now).2 }) := rfl
    rw [hclaim]
    rcases b.stores.claim_cases id lease now with ⟨hopen, h⟩ | ⟨hopen, h⟩
    · rw [h]
      exact Or.inr (Or.inl ⟨rfl, hopen, rfl⟩)
    · rw [h]
      refine Or.inr (Or.inr ⟨rfl, hopen, rfl, Slots.ext (funext fun id' => ?_) rfl⟩)
      change Except.ok ((b.stores.insert id (.reserved lease)).get? id')
        = Function.update (fun id => Except.ok (b.stores.get? id)) id _ id'
      rw [OrderedMap.get?_insert, Function.update_apply]
      split
      · rfl
      · rfl

instance : ClaimsSlots FileId FileRecord MemoryStore where
  refused? _ _ := none
  claim_cases b id lease now := by
    have hclaim : SlotClaim.claim id lease now b
        = (.ok (b.files.claim id lease now).1,
          { b with files := (b.files.claim id lease now).2 }) := rfl
    rw [hclaim]
    rcases b.files.claim_cases id lease now with ⟨hopen, h⟩ | ⟨hopen, h⟩
    · rw [h]
      exact Or.inr (Or.inl ⟨rfl, hopen, rfl⟩)
    · rw [h]
      exact Or.inr (Or.inr ⟨rfl, hopen, rfl,
        Slots.ext rfl (OrderedMap.get?_insert_eq_update b.files id _)⟩)

end MemoryStore

namespace ChunkedStore

variable {s t : ChunkedStore} {id : StoreId}

/-- The slot of a blob is told by its document and its chunks. -/
theorem storeSlot_congr (hstores : t.stores.find id = s.stores.find id)
    (hchunks : ∀ key, key.store = id → t.chunks.find key = s.chunks.find key) :
    t.storeSlot id = s.storeSlot id := by
  have hscan : ∀ writer, t.storedPieces id writer = s.storedPieces id writer := fun writer =>
    storedPieces_congr fun i => hchunks ⟨id, writer, i⟩ rfl
  unfold storeSlot
  rw [hstores]
  simp only [hscan]

theorem storeSlot_of_reserved {lease : Lease}
    (h : s.stores.find id = some (.reserved id lease)) :
    s.storeSlot id = .ok (some (.reserved lease)) := by
  rw [storeSlot, h]
  rfl

theorem isClaimable_storeSlot (s : ChunkedStore) (id : StoreId) (now : UInt64) :
    (s.stores.find id).all (·.isClaimable now) = Slots.isOpen now (s.storeSlot id) := by
  unfold storeSlot
  cases s.stores.find id with
  | none => rfl
  | some doc =>
    obtain ⟨_, lease?, record?⟩ := doc
    cases record? with
    | none => cases lease? <;> rfl
    | some m =>
      change false = Slots.isOpen now
        ((readRecord id m (s.storedPieces id m.writer)).map fun record => some (.committed record))
      cases readRecord id m (s.storedPieces id m.writer) <;> rfl

theorem isClaimable_fileSlot (s : ChunkedStore) (id : FileId) (now : UInt64) :
    (s.files.find id).all (·.isClaimable now) = Slots.isOpen now (.ok (s.fileSlot id)) := by
  unfold fileSlot
  cases s.files.find id with
  | none => rfl
  | some doc =>
    obtain ⟨_, lease?, record?⟩ := doc
    cases record? with
    | none => cases lease? <;> rfl
    | some record => rfl

/-- The error of a document that is too large for a collection. -/
def roomFor? {κ δ : Type} [Ord κ] [EncodedSize δ] (c : Collection κ δ) (doc : δ) :
    Option StoreError :=
  if c.limit < encodedSize doc then some (c.tooLarge doc) else none

instance : ClaimsSlots StoreId ContentRecord ChunkedStore where
  refused? s id := roomFor? s.stores (.reserved id default)
  claim_cases s id lease now := by
    have hclaim : SlotClaim.claim id lease now s = (claim id lease now).unclocked s := rfl
    rw [hclaim]
    unfold claim Client.unclocked
    simp only [Client.alone_bind, alone_upsertStore]
    rcases s.stores.upsertIf_cases id (.reserved id lease) (·.isClaimable now)
      with ⟨hlt, hup⟩ | ⟨hle, hall, hup⟩ | ⟨hle, hall, hup⟩
    · simp only [hup]
      exact Or.inl ⟨_, if_pos hlt, rfl⟩
    · rw [isClaimable_storeSlot] at hall
      simp only [hup, Client.alone_bind, Client.alone_pure, alone_purgeChunks]
      refine Or.inr (Or.inr ⟨if_neg (Nat.not_lt.mpr hle), hall, trivial, Slots.ext ?_ rfl⟩)
      funext id'
      change storeSlot _ id' = Function.update s.storeSlot id _ id'
      by_cases hid : id' = id
      · subst hid
        rw [Function.update_self]
        exact storeSlot_of_reserved ((s.stores.find_put id' id' _).trans (if_pos rfl))
      · rw [Function.update_of_ne hid]
        refine storeSlot_congr ?_ fun key hkey => ?_
        · exact (s.stores.find_put id id' _).trans (if_neg hid)
        · refine (find_purge s id (· != lease.token) key).trans (if_neg fun h => hid ?_)
          exact hkey.symm.trans h.1
    · rw [isClaimable_storeSlot] at hall
      simp only [hup]
      exact Or.inr (Or.inl ⟨if_neg (Nat.not_lt.mpr hle), hall, rfl⟩)

instance : ClaimsSlots FileId FileRecord ChunkedStore where
  refused? s id := roomFor? s.files (.reserved id default)
  claim_cases s id lease now := by
    have hclaim : SlotClaim.claim id lease now s = s.claimFile id lease now := rfl
    rw [hclaim]
    unfold claimFile onFiles
    rcases s.files.upsertIf_cases id (.reserved id lease) (·.isClaimable now)
      with ⟨hlt, hup⟩ | ⟨hle, hall, hup⟩ | ⟨hle, hall, hup⟩
    · simp only [hup]
      exact Or.inl ⟨_, if_pos hlt, rfl⟩
    · rw [isClaimable_fileSlot] at hall
      simp only [hup]
      refine Or.inr (Or.inr ⟨if_neg (Nat.not_lt.mpr hle), hall, trivial, Slots.ext rfl ?_⟩)
      funext id'
      change fileSlot _ id' = Function.update s.fileSlot id _ id'
      unfold fileSlot
      rw [Collection.find_put, Function.update_apply]
      split
      · rfl
      · rfl
    · rw [isClaimable_fileSlot] at hall
      simp only [hup]
      exact Or.inr (Or.inl ⟨if_neg (Nat.not_lt.mpr hle), hall, trivial⟩)

end ChunkedStore

end ContentVault
