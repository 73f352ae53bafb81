import ContentVault.OrderedMap
import Mathlib.Data.List.Sort
set_option autoImplicit false

/-!
# Finite maps: entries and look-ups

A map is known by its look-ups: the entries are the pairs that a look-up finds, and two
maps with equal look-ups are equal.  Every change of a map is therefore described by what
is found afterwards.
-/

namespace ContentVault.OrderedMap

universe u v

variable {κ : Type u} {ν : Type v} [Ord κ] [Std.LawfulEqOrd κ]

/-! ## Entries are what a look-up finds -/

theorem Before.ne {a b : κ × ν} (h : Before a b) : a.1 ≠ b.1 := by
  intro heq
  have hself : compare b.1 b.1 = .eq := Std.ReflCmp.compare_self
  rw [Before, heq, hself] at h
  cases h

/-- In a sorted list the entry of a key is the first one that a search for the key meets. -/
theorem find?_eq_some_of_mem {k : κ} {x : ν} {es : List (κ × ν)} (hs : es.Pairwise Before)
    (hmem : (k, x) ∈ es) : (es.find? fun e => compare k e.1 == .eq) = some (k, x) := by
  induction es with
  | nil => cases hmem
  | cons d ds ih =>
    have hd := List.pairwise_cons.mp hs
    rcases List.mem_cons.mp hmem with heq | htail
    · subst heq
      simp
    · have hne : k ≠ d.1 := (Before.ne (hd.1 _ htail)).symm
      rw [List.find?_cons_of_neg (by simpa using hne)]
      exact ih hd.2 htail

theorem mem_entries_iff (m : OrderedMap κ ν) (k : κ) (x : ν) :
    (k, x) ∈ m.entries ↔ m.get? k = some x := by
  constructor
  · intro hmem
    rw [get?, find?_eq_some_of_mem m.sorted hmem, Option.map_some]
  · intro hget
    obtain ⟨e, hfind, rfl⟩ := Option.map_eq_some_iff.mp hget
    have hkey : k = e.1 := by simpa using List.find?_some hfind
    have hmem : e ∈ m.entries := List.mem_of_find?_eq_some hfind
    rw [hkey]
    exact hmem

theorem mem_keys_iff (m : OrderedMap κ ν) (k : κ) : k ∈ m.keys ↔ (m.get? k).isSome = true := by
  rw [keys, List.mem_map, Option.isSome_iff_exists]
  constructor
  · rintro ⟨⟨_, x⟩, hmem, rfl⟩
    exact ⟨x, (mem_entries_iff m _ x).mp hmem⟩
  · rintro ⟨x, hx⟩
    exact ⟨(k, x), (mem_entries_iff m k x).mpr hx, rfl⟩

/-! ## Look-ups after entries are taken away -/

theorem get?_filter (m : OrderedMap κ ν) (p : κ → ν → Bool) (k : κ) :
    (m.filter p).get? k = (m.get? k).filter (p k) := by
  apply Option.ext
  intro x
  rw [← mem_entries_iff, Option.filter_eq_some_iff, ← mem_entries_iff]
  exact List.mem_filter

theorem get?_erase [DecidableEq κ] (m : OrderedMap κ ν) (k k' : κ) :
    (m.erase k).get? k' = if k' = k then none else m.get? k' := by
  rw [erase, get?_filter]
  by_cases h : k' = k
  · subst h
    cases m.get? k' <;> simp
  · have hne : k ≠ k' := fun heq => h heq.symm
    cases m.get? k' <;> simp [h, hne]

/-! ## Maps are equal by their look-ups -/

variable [Std.TransOrd κ]

instance : Std.Irrefl (Before : κ × ν → κ × ν → Prop) := ⟨fun _ h => h.ne rfl⟩

instance : Std.Antisymm (Before : κ × ν → κ × ν → Prop) where
  antisymm a _ hab hba := absurd rfl (Before.ne (a := a) (Std.TransCmp.lt_trans hab hba))

/-- Maps with equal look-ups are equal. -/
theorem ext_get? {m n : OrderedMap κ ν} (h : ∀ k, m.get? k = n.get? k) : m = n := by
  apply ext
  apply m.sorted.eq_of_mem_iff n.sorted
  rintro ⟨k, x⟩
  rw [mem_entries_iff, mem_entries_iff, h k]

/-- A map whose look-ups are those of another, changed key by key, has the other's entries, changed
key by key. -/
theorem entries_eq_map {ν' : Type v} {m : OrderedMap κ ν} {n : OrderedMap κ ν'} {f : κ → ν → ν'}
    (h : ∀ k, n.get? k = (m.get? k).map (f k)) :
    n.entries = m.entries.map fun e => (e.1, f e.1 e.2) := by
  refine n.sorted.eq_of_mem_iff (List.pairwise_map.mpr m.sorted) fun e => ?_
  rw [mem_entries_iff, h, Option.map_eq_some_iff, List.mem_map]
  constructor
  · rintro ⟨x, hx, hfx⟩
    exact ⟨(e.1, x), (mem_entries_iff m e.1 x).mpr hx, by rw [hfx]⟩
  · rintro ⟨⟨k, x⟩, hx, rfl⟩
    exact ⟨x, (mem_entries_iff m k x).mp hx, rfl⟩

theorem get?_insert [DecidableEq κ] (m : OrderedMap κ ν) (k k' : κ) (x : ν) :
    (m.insert k x).get? k' = if k' = k then some x else m.get? k' := by
  by_cases h : k' = k
  · rw [if_pos h, h, get?_insert_self]
  · rw [if_neg h, get?_insert_of_ne m x h]

/-- What was put at a key is erased with it. -/
theorem erase_insert [DecidableEq κ] (m : OrderedMap κ ν) (k : κ) (x : ν) :
    (m.insert k x).erase k = m.erase k := by
  refine ext_get? fun k' => ?_
  simp only [get?_erase, get?_insert]
  split <;> rfl

/-- Where nothing is, nothing is erased. -/
theorem erase_of_none [DecidableEq κ] {m : OrderedMap κ ν} {k : κ} (h : m.get? k = none) :
    m.erase k = m := by
  refine ext_get? fun k' => ?_
  rw [get?_erase]
  split
  next heq => rw [heq, h]
  · rfl

end ContentVault.OrderedMap
