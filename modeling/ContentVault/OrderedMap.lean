set_option autoImplicit false

/-!
# Finite maps kept in key order

A map is the list of its entries, in strictly increasing key order.  The order
is part of the type, so every enumeration is sorted and no key occurs twice.
Look-ups and changes are described through the list view.
-/

namespace ContentVault

universe u v

/-- The entry `a` stands before the entry `b`. -/
def OrderedMap.Before {κ : Type u} {ν : Type v} [Ord κ] (a b : κ × ν) : Prop :=
  compare a.1 b.1 = .lt

/-- A finite map from `κ` to `ν`, listed in key order. -/
structure OrderedMap (κ : Type u) (ν : Type v) [Ord κ] where
  entries : List (κ × ν)
  sorted : entries.Pairwise OrderedMap.Before

namespace OrderedMap

variable {κ : Type u} {ν : Type v} [Ord κ]

@[ext] theorem ext {m n : OrderedMap κ ν} (h : m.entries = n.entries) : m = n := by
  cases m; cases n; simp_all

instance [DecidableEq κ] [DecidableEq ν] : DecidableEq (OrderedMap κ ν) := fun m n =>
  if h : m.entries = n.entries then isTrue (ext h)
  else isFalse fun hmn => h (congrArg entries hmn)

/-- The map without entries. -/
def empty : OrderedMap κ ν := ⟨[], .nil⟩

instance : Inhabited (OrderedMap κ ν) := ⟨empty⟩

/-! ## Enumeration -/

/-- The keys, in increasing order. -/
def keys (m : OrderedMap κ ν) : List κ := m.entries.map (·.1)

/-- The values, in key order. -/
def values (m : OrderedMap κ ν) : List ν := m.entries.map (·.2)

/-- Number of entries. -/
def size (m : OrderedMap κ ν) : Nat := m.entries.length

/-- There is no entry. -/
def isEmpty (m : OrderedMap κ ν) : Bool := m.entries.isEmpty

/-- The value at `k`, if `k` is a key. -/
def get? (m : OrderedMap κ ν) (k : κ) : Option ν :=
  (m.entries.find? fun e => compare k e.1 == .eq).map (·.2)

/-- `k` is a key. -/
def contains (m : OrderedMap κ ν) (k : κ) : Bool := (m.get? k).isSome

/-! ## Removing entries -/

/-- The map of some of the entries, in their order. -/
def restrict (m : OrderedMap κ ν) (kept : List (κ × ν)) (h : kept.Sublist m.entries) :
    OrderedMap κ ν :=
  ⟨kept, m.sorted.sublist h⟩

/-- The entries that `p` accepts. -/
def filter (m : OrderedMap κ ν) (p : κ → ν → Bool) : OrderedMap κ ν :=
  m.restrict (m.entries.filter fun e => p e.1 e.2) List.filter_sublist

/-- The map without the key `k`. -/
def erase (m : OrderedMap κ ν) (k : κ) : OrderedMap κ ν :=
  m.filter fun k' _ => compare k k' != .eq

/-! ## Runs of keys -/

/-- The entries whose key is below `start`. -/
def below (m : OrderedMap κ ν) (start : κ) : List (κ × ν) :=
  m.entries.takeWhile fun e => compare e.1 start == .lt

/-- The entries from the key `start` on. -/
def upFrom (m : OrderedMap κ ν) (start : κ) : List (κ × ν) :=
  m.entries.dropWhile fun e => compare e.1 start == .lt

/-- The run of consecutive entries from `start` on whose keys `keep` accepts. -/
def run (m : OrderedMap κ ν) (start : κ) (keep : κ → Bool) : List (κ × ν) :=
  (m.upFrom start).takeWhile fun e => keep e.1

/-- What follows the run. -/
def afterRun (m : OrderedMap κ ν) (start : κ) (keep : κ → Bool) : List (κ × ν) :=
  (m.upFrom start).dropWhile fun e => keep e.1

theorem below_append_upFrom (m : OrderedMap κ ν) (start : κ) :
    m.below start ++ m.upFrom start = m.entries :=
  List.takeWhile_append_dropWhile

theorem run_append_afterRun (m : OrderedMap κ ν) (start : κ) (keep : κ → Bool) :
    m.run start keep ++ m.afterRun start keep = m.upFrom start :=
  List.takeWhile_append_dropWhile

/-- The entries are those below, those of the run and those after it. -/
theorem entries_eq_run (m : OrderedMap κ ν) (start : κ) (keep : κ → Bool) :
    m.entries = m.below start ++ (m.run start keep ++ m.afterRun start keep) := by
  rw [run_append_afterRun, below_append_upFrom]

/-- The map without the members of a run that `doomed` accepts. -/
def eraseRun (m : OrderedMap κ ν) (start : κ) (keep : κ → Bool) (doomed : κ → ν → Bool) :
    OrderedMap κ ν :=
  m.restrict
    (m.below start ++
      ((m.run start keep).filter (fun e => !doomed e.1 e.2) ++ m.afterRun start keep))
    (by
      rw [m.entries_eq_run start keep]
      exact (List.Sublist.refl _).append (List.filter_sublist.append (List.Sublist.refl _)))

/-! ## Adding entries -/

/-- Puts an entry at its place in a sorted list, over an entry of the same key. -/
def insertEntry (k : κ) (x : ν) : List (κ × ν) → List (κ × ν)
  | [] => [(k, x)]
  | e :: es =>
    match compare k e.1 with
    | .lt => (k, x) :: e :: es
    | .eq => (k, x) :: es
    | .gt => e :: insertEntry k x es

theorem mem_insertEntry {k : κ} {x : ν} {e : κ × ν} {es : List (κ × ν)}
    (h : e ∈ insertEntry k x es) : e = (k, x) ∨ e ∈ es := by
  induction es with
  | nil => simpa [insertEntry] using h
  | cons d ds ih =>
    rw [insertEntry] at h
    split at h
    · simpa using h
    · rcases List.mem_cons.mp h with h | h
      · exact Or.inl h
      · exact Or.inr (List.mem_cons_of_mem d h)
    · rcases List.mem_cons.mp h with h | h
      · exact Or.inr (h ▸ List.mem_cons_self)
      · rcases ih h with h | h
        · exact Or.inl h
        · exact Or.inr (List.mem_cons_of_mem d h)

theorem insertEntry_sorted [Std.TransOrd κ] (k : κ) (x : ν) {es : List (κ × ν)}
    (h : es.Pairwise Before) : (insertEntry k x es).Pairwise Before := by
  induction es with
  | nil => exact List.pairwise_singleton ..
  | cons d ds ih =>
    have hd := List.pairwise_cons.mp h
    rw [insertEntry]
    split
    next hlt =>
      refine List.pairwise_cons.mpr ⟨fun e he => ?_, h⟩
      rcases List.mem_cons.mp he with rfl | he
      · exact hlt
      · exact Std.TransCmp.lt_trans hlt (hd.1 e he)
    next heq =>
      refine List.pairwise_cons.mpr ⟨fun e he => ?_, hd.2⟩
      exact Std.TransCmp.lt_of_eq_of_lt heq (hd.1 e he)
    next hgt =>
      refine List.pairwise_cons.mpr ⟨fun e he => ?_, ih hd.2⟩
      rcases mem_insertEntry he with rfl | he
      · exact Std.OrientedCmp.gt_iff_lt.mp hgt
      · exact hd.1 e he

/-- The map with the value `x` at `k`, whatever it held there before. -/
def insert [Std.TransOrd κ] (m : OrderedMap κ ν) (k : κ) (x : ν) : OrderedMap κ ν :=
  ⟨insertEntry k x m.entries, insertEntry_sorted k x m.sorted⟩

/-! ## Look-ups after a change -/

@[simp] theorem get?_empty (k : κ) : (empty : OrderedMap κ ν).get? k = none := rfl

theorem find?_insertEntry_self [Std.ReflOrd κ] (k : κ) (x : ν) (es : List (κ × ν)) :
    ((insertEntry k x es).find? fun e => compare k e.1 == .eq) = some (k, x) := by
  induction es with
  | nil => simp [insertEntry]
  | cons d ds ih =>
    rw [insertEntry]
    split
    · simp
    · simp
    next hgt => rw [List.find?_cons_of_neg (by simp [hgt]), ih]

@[simp] theorem get?_insert_self [Std.TransOrd κ] (m : OrderedMap κ ν) (k : κ) (x : ν) :
    (m.insert k x).get? k = some x := by
  simp [get?, insert, find?_insertEntry_self]

theorem find?_insertEntry_of_ne [Std.TransOrd κ] [Std.LawfulEqOrd κ] {k k' : κ} (x : ν)
    (hne : k' ≠ k) (es : List (κ × ν)) :
    ((insertEntry k x es).find? fun e => compare k' e.1 == .eq)
      = es.find? fun e => compare k' e.1 == .eq := by
  have hk : (compare k' k == .eq) = false := by simpa using hne
  induction es with
  | nil => simp [insertEntry, hne]
  | cons d ds ih =>
    rw [insertEntry]
    split
    · rw [List.find?_cons, hk]
    next heq =>
      have hd : k = d.1 := Std.LawfulEqCmp.eq_of_compare heq
      rw [List.find?_cons, List.find?_cons, hk, ← hd, hk]
    · rw [List.find?_cons, List.find?_cons, ih]

theorem get?_insert_of_ne [Std.TransOrd κ] [Std.LawfulEqOrd κ] (m : OrderedMap κ ν)
    {k k' : κ} (x : ν) (hne : k' ≠ k) : (m.insert k x).get? k' = m.get? k' := by
  simp [get?, insert, find?_insertEntry_of_ne x hne]

end OrderedMap

end ContentVault
