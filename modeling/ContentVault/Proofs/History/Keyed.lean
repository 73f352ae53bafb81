import ContentVault.Proofs.History.Chronicle
set_option autoImplicit false

/-!
# Blobs under their own identifiers

Whatever is done to a backend, each blob is committed under the identifier that its record bears.
-/

namespace ContentVault

/-- Each blob is committed under its own identifier. -/
def MemoryStore.Keyed (m : MemoryStore) : Prop :=
  ∀ id record, m.stores.record? id = some record → record.id = id

namespace MemoryStore.Keyed

theorem empty : MemoryStore.empty.Keyed := fun _ _ h => (by cases h)

/-- What is committed anew is what was committed before, or bears its identifier. -/
theorem of_record? {m n : MemoryStore} (h : m.Keyed)
    (hrecord : ∀ id record, n.stores.record? id = some record →
      m.stores.record? id = some record ∨ record.id = id) : n.Keyed := by
  intro id record hget
  rcases hrecord id record hget with hbefore | hid
  · exact h id record hbefore
  · exact hid

end MemoryStore.Keyed

namespace Operation

variable {α : Type}

/-- A record is committed only under the identifier that it bears. -/
theorem id_eq_of_committed {op : Operation α} {m : MemoryStore} {id : StoreId}
    {record : ContentRecord}
    (h : op.onBlob? (op.perform m).1 = some (id, .committed record)) : record.id = id := by
  cases op with
  | commitStore r record' hlength now schedule =>
    obtain ⟨hok, hevent⟩ := Option.ite_none_right_eq_some.mp h
    cases hevent
    by_contra hid
    change (ChunkedStore.commitAt now r record m).1.isOk = true at hok
    rw [ChunkedStore.commitAt_of_ne hid] at hok
    cases hok
  | claimStore id' lease now => cases (Option.ite_none_right_eq_some.mp h).2
  | releaseStore r => cases (Option.ite_none_right_eq_some.mp h).2
  | updateStatus id' status => cases (Option.ite_none_right_eq_some.mp h).2
  | reserveStore reserver candidate deadline around =>
    cases hout : ((reserveStore reserver candidate deadline around).perform m).1 with
    | error e =>
      rw [hout] at h
      cases h
    | ok r =>
      rw [hout] at h
      cases h
  | _ => cases h

theorem keyed_perform (op : Operation α) {m : MemoryStore} (h : m.Keyed) :
    (op.perform m).2.Keyed := by
  have hturned := (op.turned_perform m).stores
  cases hblob : op.onBlob? (op.perform m).1 with
  | none =>
    rw [hblob] at hturned
    exact h.of_record? fun id record hget => Or.inl (by rwa [hturned] at hget)
  | some happened =>
    obtain ⟨id', event⟩ := happened
    rw [hblob] at hturned
    obtain ⟨hturns, hothers⟩ := hturned
    intro id record hget
    by_cases hid : id = id'
    · subst hid
      have hslot := SlotMap.record?_eq_some hget
      rw [hslot] at hturns
      generalize hbefore : m.stores.get? id = before at hturns
      cases hturns with
      | committed => exact id_eq_of_committed hblob
      | @changed change old =>
        have hold : m.stores.record? id = some old := SlotMap.record?_of_get? hbefore
        exact h id old hold
    · refine h id record ?_
      rw [SlotMap.record?, hothers id hid] at hget
      exact hget

end Operation

/-- After any deeds, the backend stands for slots in which each blob is under its own identifier. -/
theorem Chronicle.exists_keyed {σ : Type} [Backend σ] [ChronicledBackend σ] {c : Chronicle σ}
    {m : MemoryStore} (h : SlotBackend.Models c.backend m) (hkeyed : m.Keyed)
    (deeds : List ((α : Type) × Deed α)) :
    ∃ n, SlotBackend.Models (c.run deeds).backend n ∧ n.Keyed := by
  induction deeds generalizing c m with
  | nil => exact ⟨m, h, hkeyed⟩
  | cons deed deeds ih =>
    obtain ⟨now, ⟨e, _, hout⟩ | ⟨_, hafter⟩⟩ := ChronicledBackend.follows h deed.2
    · have hsame : (c.advance deed.2).backend = c.backend := congrArg Prod.snd hout
      exact ih (hsame ▸ h : SlotBackend.Models (c.advance deed.2).backend m) hkeyed
    · exact ih (c := c.advance deed.2) hafter ((deed.2.operation now).keyed_perform hkeyed)

end ContentVault
