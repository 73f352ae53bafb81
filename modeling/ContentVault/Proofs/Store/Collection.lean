import ContentVault.Proofs.Map.Run
import ContentVault.Store.Collection
set_option autoImplicit false

/-!
# Collections: what each operation can do

Every conditional operation has few outcomes.  They are listed once, with what was found
before and with the collection afterwards; whoever uses an operation goes through its
outcomes.
-/

namespace ContentVault.Collection

variable {κ δ : Type} [Ord κ]

theorem contains_eq (c : Collection κ δ) (key : κ) :
    c.records.contains key = (c.find key).isSome := rfl

/-- The collection without the document at a key. -/
def drop (c : Collection κ δ) (key : κ) : Collection κ δ :=
  { c with records := c.records.erase key }

/-! ## The outcomes of the conditional operations -/

/-- A document is deleted if it is accepted. -/
theorem deleteIf_cases (c : Collection κ δ) (key : κ) (accepts : δ → Bool) :
    ((c.find key).any accepts = false ∧ c.deleteIf key accepts = (false, c)) ∨
    (∃ doc, c.find key = some doc ∧ accepts doc = true ∧
      c.deleteIf key accepts = (true, c.drop key)) := by
  rw [deleteIf]
  cases hfind : c.find key with
  | none => exact Or.inl ⟨rfl, rfl⟩
  | some doc =>
    cases hacc : accepts doc with
    | false =>
      refine Or.inl ⟨hacc, ?_⟩
      simp [hacc]
    | true =>
      refine Or.inr ⟨doc, rfl, hacc, ?_⟩
      simp [hacc, drop]

section

variable [EncodedSize δ]

theorem checkSize_of_le (c : Collection κ δ) {doc : δ} (h : encodedSize doc ≤ c.limit) :
    c.checkSize doc = .ok (encodedSize doc) := by
  rw [checkSize]
  exact if_neg (Nat.not_lt.mpr h)

/-- The error of a document beyond the limit. -/
def tooLarge (c : Collection κ δ) (doc : δ) : StoreError :=
  .recordTooLarge c.name (encodedSize doc) c.limit

theorem checkSize_of_lt (c : Collection κ δ) {doc : δ} (h : c.limit < encodedSize doc) :
    c.checkSize doc = .error (c.tooLarge doc) := by
  rw [checkSize]
  exact if_pos h

variable [Std.TransOrd κ]

/-- A document is added if it is within the limit and its key is new. -/
theorem insert_cases [Describe κ] (c : Collection κ δ) (key : κ) (doc : δ) :
    (c.limit < encodedSize doc ∧ c.insert key doc = (.error (c.tooLarge doc), c)) ∨
    (encodedSize doc ≤ c.limit ∧ (∃ old, c.find key = some old) ∧
      c.insert key doc = (.error (.duplicateKey c.name (Describe.describe key)), c)) ∨
    (encodedSize doc ≤ c.limit ∧ c.find key = none ∧
      c.insert key doc = (.ok (), c.put key doc)) := by
  rcases Nat.lt_or_ge c.limit (encodedSize doc) with hlt | hle
  · refine Or.inl ⟨hlt, ?_⟩
    rw [insert, c.checkSize_of_lt hlt]
  · right
    rw [insert, c.checkSize_of_le hle, contains_eq]
    cases hfind : c.find key with
    | none => exact Or.inr ⟨hle, rfl, rfl⟩
    | some old => exact Or.inl ⟨hle, ⟨old, rfl⟩, rfl⟩

/-- A document is put if it is within the limit and takes nobody's place. -/
theorem upsertIf_cases (c : Collection κ δ) (key : κ) (doc : δ) (replaceable : δ → Bool) :
    (c.limit < encodedSize doc ∧ c.upsertIf key doc replaceable = (.error (c.tooLarge doc), c)) ∨
    (encodedSize doc ≤ c.limit ∧ (c.find key).all replaceable = true ∧
      c.upsertIf key doc replaceable = (.ok true, c.put key doc)) ∨
    (encodedSize doc ≤ c.limit ∧ (c.find key).all replaceable = false ∧
      c.upsertIf key doc replaceable = (.ok false, c)) := by
  rcases Nat.lt_or_ge c.limit (encodedSize doc) with hlt | hle
  · refine Or.inl ⟨hlt, ?_⟩
    rw [upsertIf, c.checkSize_of_lt hlt]
  · right
    rw [upsertIf, c.checkSize_of_le hle]
    cases hall : (c.find key).all replaceable with
    | true => exact Or.inl ⟨hle, rfl, rfl⟩
    | false => exact Or.inr ⟨hle, rfl, rfl⟩

/-- A document is changed if it is accepted and the changed one is within the limit. -/
theorem updateIf_cases (c : Collection κ δ) (key : κ) (accepts : δ → Bool) (change : δ → δ) :
    ((c.find key).any accepts = false ∧ c.updateIf key accepts change = (.ok false, c)) ∨
    (∃ doc, c.find key = some doc ∧ accepts doc = true ∧ c.limit < encodedSize (change doc) ∧
      c.updateIf key accepts change = (.error (c.tooLarge (change doc)), c)) ∨
    (∃ doc, c.find key = some doc ∧ accepts doc = true ∧ encodedSize (change doc) ≤ c.limit ∧
      c.updateIf key accepts change = (.ok true, c.put key (change doc))) := by
  rw [updateIf]
  cases hfind : c.find key with
  | none => exact Or.inl ⟨rfl, rfl⟩
  | some doc =>
    cases hacc : accepts doc with
    | false =>
      refine Or.inl ⟨hacc, ?_⟩
      simp [hacc]
    | true =>
      right
      rcases Nat.lt_or_ge c.limit (encodedSize (change doc)) with hlt | hle
      · refine Or.inl ⟨doc, rfl, hacc, hlt, ?_⟩
        simp [hacc, c.checkSize_of_lt hlt]
      · refine Or.inr ⟨doc, rfl, hacc, hle, ?_⟩
        simp [hacc, c.checkSize_of_le hle]

end

/-! ## What is found after a change -/

section

variable [Std.LawfulEqOrd κ] [DecidableEq κ]

@[simp] theorem find_drop (c : Collection κ δ) (key key' : κ) :
    (c.drop key).find key' = if key' = key then none else c.find key' :=
  OrderedMap.get?_erase c.records key key'

theorem find_drop_eq_update (c : Collection κ δ) (key : κ) :
    (c.drop key).find = Function.update c.find key none := by
  funext key'
  rw [find_drop, Function.update_apply]

end

variable [Std.TransOrd κ] [Std.LawfulEqOrd κ]

@[simp] theorem find_put [DecidableEq κ] (c : Collection κ δ) (key key' : κ) (doc : δ) :
    (c.put key doc).find key' = if key' = key then some doc else c.find key' :=
  OrderedMap.get?_insert c.records key key' doc

theorem find_put_eq_update [DecidableEq κ] (c : Collection κ δ) (key : κ) (doc : δ) :
    (c.put key doc).find = Function.update c.find key (some doc) := by
  funext key'
  rw [find_put, Function.update_apply]

/-- What is found after an insertion was there before, or is new. -/
theorem find_of_find_insert [DecidableEq κ] [EncodedSize δ] [Describe κ] {c : Collection κ δ}
    {key key' : κ} {doc doc' : δ} (h : (c.insert key doc).2.find key' = some doc') :
    c.find key' = some doc' ∨ (key', doc') = (key, doc) := by
  rcases c.insert_cases key doc with ⟨_, hins⟩ | ⟨_, _, hins⟩ | ⟨_, _, hins⟩
  · rw [hins] at h
    exact Or.inl h
  · rw [hins] at h
    exact Or.inl h
  · rw [hins, find_put] at h
    split at h
    next hkey =>
      cases h
      exact Or.inr (Prod.ext hkey rfl)
    · exact Or.inl h

/-- A document that was inserted is found. -/
theorem find_of_insert_eq_ok [DecidableEq κ] [EncodedSize δ] [Describe κ] {c : Collection κ δ}
    {key : κ} {doc : δ} (h : (c.insert key doc).1 = .ok ()) :
    (c.insert key doc).2.find key = some doc := by
  rcases c.insert_cases key doc with ⟨_, hins⟩ | ⟨_, _, hins⟩ | ⟨_, _, hins⟩
  · rw [hins] at h
    cases h
  · rw [hins] at h
    cases h
  · rw [hins, find_put, if_pos rfl]

theorem find_deleteRangeWhere {start : κ} {keep : κ → Bool} (h : IsRun start keep)
    (c : Collection κ δ) (doomed : κ → δ → Bool) (key : κ) :
    (c.deleteRangeWhere start keep doomed).2.find key
      = (c.find key).filter fun doc => !(keep key && doomed key doc) :=
  OrderedMap.get?_eraseRun h c.records doomed key

theorem mem_scanFrom_iff {start : κ} {keep : κ → Bool} (h : IsRun start keep)
    (c : Collection κ δ) (key : κ) (doc : δ) :
    (key, doc) ∈ c.scanFrom start keep ↔ c.find key = some doc ∧ keep key = true :=
  OrderedMap.mem_run_iff h c.records key doc

/-- Collections of one name and limit are equal by what is found in them. -/
theorem ext_find {c d : Collection κ δ} (hname : c.name = d.name) (hlimit : c.limit = d.limit)
    (h : ∀ key, c.find key = d.find key) : c = d := by
  cases c
  cases d
  simp only [mk.injEq]
  exact ⟨hname, hlimit, OrderedMap.ext_get? h⟩

end ContentVault.Collection
