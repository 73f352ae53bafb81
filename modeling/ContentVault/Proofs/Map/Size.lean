import ContentVault.Proofs.Map.Run
import Mathlib.Data.Set.Card
set_option autoImplicit false

/-!
# Finite maps: how many entries there are

A map has as many entries as there are keys at which a look-up finds something, so what a
change does to the number of entries is read off what it does to the keys.
-/

namespace ContentVault.OrderedMap

universe u v

variable {κ : Type u} {ν : Type v} [Ord κ]

/-- What is doomed is counted once. -/
theorem size_eraseRun (m : OrderedMap κ ν) (start : κ) (keep : κ → Bool)
    (doomed : κ → ν → Bool) :
    (m.eraseRun start keep doomed).size + (m.run start keep).countP (fun e => doomed e.1 e.2)
      = m.size := by
  have hsplit := List.length_eq_countP_add_countP (l := m.run start keep)
    (fun e => doomed e.1 e.2)
  have hentries := congrArg List.length (m.entries_eq_run start keep)
  simp only [List.length_append] at hentries
  simp only [size, eraseRun, restrict, List.length_append, ← List.countP_eq_length_filter]
  simp only [Bool.not_eq_true, Bool.decide_eq_false] at hsplit
  omega

variable [Std.LawfulEqOrd κ]

theorem keys_nodup (m : OrderedMap κ ν) : m.keys.Nodup :=
  List.pairwise_map.mpr (m.sorted.imp fun h => h.ne)

/-- A map has no entry exactly if nothing is found at any key. -/
theorem isEmpty_iff (m : OrderedMap κ ν) : m.isEmpty = true ↔ ∀ k, m.get? k = none := by
  rw [isEmpty, List.isEmpty_iff, List.eq_nil_iff_forall_not_mem, Prod.forall]
  simp only [mem_entries_iff, Option.eq_none_iff_forall_ne_some, ne_eq]

variable [DecidableEq κ]

/-- A map has as many entries as keys. -/
theorem encard_keys (m : OrderedMap κ ν) : {k | (m.get? k).isSome}.encard = m.size := by
  have hkeys : {k | (m.get? k).isSome} = m.keys.toFinset := by
    ext k
    simp only [Set.mem_ofPred_eq, List.coe_toFinset, mem_keys_iff]
  rw [hkeys, Set.encard_coe_eq_coe_finsetCard, List.toFinset_card_of_nodup m.keys_nodup, keys,
    List.length_map, size]

theorem size_erase_of_some {m : OrderedMap κ ν} {k : κ} {old : ν} (h : m.get? k = some old) :
    (m.erase k).size + 1 = m.size := by
  have hkeys : {k' | ((m.erase k).get? k').isSome} = {k' | (m.get? k').isSome} \ {k} := by
    ext k'
    by_cases hk : k' = k <;> simp [get?_erase, hk]
  have hold : k ∈ {k' | (m.get? k').isSome} := by simp [h]
  have hcard := Set.encard_sdiff_singleton_add_one hold
  rw [← hkeys, encard_keys, encard_keys] at hcard
  exact_mod_cast hcard

variable [Std.TransOrd κ]

theorem size_insert_of_none {m : OrderedMap κ ν} {k : κ} (h : m.get? k = none) (x : ν) :
    (m.insert k x).size = m.size + 1 := by
  have hkeys : {k' | ((m.insert k x).get? k').isSome}
      = Insert.insert k {k' | (m.get? k').isSome} := by
    ext k'
    by_cases hk : k' = k <;> simp [get?_insert, hk]
  have hnew : k ∉ {k' | (m.get? k').isSome} := by simp [h]
  have hcard := Set.encard_insert_of_notMem hnew
  rw [← hkeys, encard_keys, encard_keys] at hcard
  exact_mod_cast hcard

theorem size_insert_of_some {m : OrderedMap κ ν} {k : κ} {old : ν} (h : m.get? k = some old)
    (x : ν) : (m.insert k x).size = m.size := by
  have hkeys : {k' | ((m.insert k x).get? k').isSome} = {k' | (m.get? k').isSome} := by
    ext k'
    by_cases hk : k' = k <;> simp [get?_insert, hk, h]
  have hcard := congrArg Set.encard hkeys
  rw [encard_keys, encard_keys] at hcard
  exact_mod_cast hcard

end ContentVault.OrderedMap
