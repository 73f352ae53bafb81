import ContentVault.Proofs.Content.Pieces
import Mathlib.Data.List.Sort
set_option autoImplicit false

/-!
# Complete sets of chunks

Chunks are put together if their numbers are `0, 1, 2, …` in some order, and then it does not
matter in which.  Otherwise the sorted numbers leave the count somewhere for the first time, and
that place is what the error names.
-/

namespace ContentVault.Chunk

/-! ## Numbers of chunks -/

/-- The numbers of chunks, in the order of the list. -/
def numbers (chunks : List Chunk) : List Nat := chunks.map (·.index.toNat)

@[simp] theorem length_numbers (chunks : List Chunk) : (numbers chunks).length = chunks.length :=
  List.length_map _

/-- The numbers of chunks from the least to the greatest. -/
def sortedNumbers (chunks : List Chunk) : List Nat := (numbers chunks).mergeSort (· ≤ ·)

/-- The numbers are `0, 1, 2, …`, each once. -/
def IsComplete (chunks : List Chunk) : Prop := (numbers chunks).Perm (List.range chunks.length)
deriving Decidable

theorem sortedNumbers_perm (chunks : List Chunk) : (sortedNumbers chunks).Perm (numbers chunks) :=
  List.mergeSort_perm _ _

theorem pairwise_sortedNumbers (chunks : List Chunk) :
    (sortedNumbers chunks).Pairwise (· ≤ ·) := List.pairwise_mergeSort' (· ≤ ·) _

theorem inOrder_perm (chunks : List Chunk) : (inOrder chunks).Perm chunks :=
  List.mergeSort_perm _ _

theorem pairwise_inOrder (chunks : List Chunk) :
    (inOrder chunks).Pairwise fun a b => a.index ≤ b.index := by
  have htrans : ∀ a b c : Chunk, decide (a.index ≤ b.index) = true →
      decide (b.index ≤ c.index) = true → decide (a.index ≤ c.index) = true := by
    simp only [decide_eq_true_eq]
    exact fun a b c hab hbc => UInt32.le_trans hab hbc
  have htotal : ∀ a b : Chunk,
      (decide (a.index ≤ b.index) || decide (b.index ≤ a.index)) = true := by
    simp only [Bool.or_eq_true, decide_eq_true_eq]
    exact fun a b => UInt32.le_total a.index b.index
  exact (List.pairwise_mergeSort htrans htotal chunks).imp of_decide_eq_true

theorem numbers_inOrder (chunks : List Chunk) :
    numbers (inOrder chunks) = sortedNumbers chunks := by
  have hsorted : (numbers (inOrder chunks)).Pairwise (· ≤ ·) :=
    List.pairwise_map.mpr ((pairwise_inOrder chunks).imp UInt32.le_iff_toNat_le.mp)
  have hperm : (numbers (inOrder chunks)).Perm (sortedNumbers chunks) :=
    ((inOrder_perm chunks).map _).trans (sortedNumbers_perm chunks).symm
  exact hperm.eq_of_pairwise' hsorted (pairwise_sortedNumbers chunks)

/-- Numbers are complete exactly if, sorted, they count up from zero. -/
theorem isComplete_iff (chunks : List Chunk) :
    IsComplete chunks ↔ sortedNumbers chunks = List.range chunks.length := by
  constructor
  · intro h
    have hperm := (sortedNumbers_perm chunks).trans h
    exact hperm.eq_of_pairwise' (pairwise_sortedNumbers chunks) List.pairwise_le_range
  · intro h
    have hperm := (sortedNumbers_perm chunks).symm
    rwa [h] at hperm

theorem IsComplete.nodup {chunks : List Chunk} (h : IsComplete chunks) : (numbers chunks).Nodup :=
  h.nodup_iff.mpr List.nodup_range

theorem IsComplete.of_perm {chunks chunks' : List Chunk} (h : IsComplete chunks)
    (hperm : chunks'.Perm chunks) : IsComplete chunks' := by
  rw [IsComplete, hperm.length_eq]
  exact (hperm.map _).trans h

theorem sortedNumbers_congr {chunks chunks' : List Chunk} (hperm : chunks'.Perm chunks) :
    sortedNumbers chunks' = sortedNumbers chunks := by
  have hsorted : (sortedNumbers chunks').Perm (sortedNumbers chunks) :=
    (sortedNumbers_perm chunks').trans ((hperm.map _).trans (sortedNumbers_perm chunks).symm)
  exact hsorted.eq_of_pairwise' (pairwise_sortedNumbers chunks') (pairwise_sortedNumbers chunks)

/-! ## The first fault -/

/-- At the place `p` the numbers leave the count `0, 1, 2, …` for the first time, with `i`. -/
structure FirstFault (numbers : List Nat) (p i : Nat) : Prop where
  here : numbers[p]? = some i
  ne : i ≠ p
  before : ∀ q < p, numbers[q]? = some q

/-- There is one first fault at most. -/
theorem FirstFault.unique {numbers : List Nat} {p i p' i' : Nat} (h : FirstFault numbers p i)
    (h' : FirstFault numbers p' i') : p = p' ∧ i = i' := by
  have hplace : p = p' := by
    rcases Nat.lt_trichotomy p p' with hlt | heq | hgt
    · exact absurd (Option.some.inj (h.here.symm.trans (h'.before p hlt))) h.ne
    · exact heq
    · exact absurd (Option.some.inj (h'.here.symm.trans (h.before p' hgt))) h'.ne
  subst hplace
  exact ⟨rfl, Option.some.inj (h.here.symm.trans h'.here)⟩

/-- Numbers count up from zero, or they have a first fault. -/
theorem eq_range_or_exists_firstFault (numbers : List Nat) :
    numbers = List.range numbers.length ∨ ∃ p i, FirstFault numbers p i := by
  by_cases hall : ∀ p < numbers.length, numbers[p]? = some p
  · left
    apply List.ext_getElem?
    intro p
    by_cases hp : p < numbers.length
    · rw [hall p hp, List.getElem?_range hp]
    · rw [List.getElem?_eq_none (Nat.not_lt.mp hp),
        List.getElem?_eq_none (by simpa using Nat.not_lt.mp hp)]
  · right
    push Not at hall
    classical
    obtain ⟨hp, hne⟩ := Nat.find_spec hall
    refine ⟨Nat.find hall, numbers[Nat.find hall], List.getElem?_eq_getElem hp, fun heq => ?_,
      fun q hq => ?_⟩
    · exact hne ((List.getElem?_eq_getElem hp).trans (congrArg some heq))
    · by_contra hbefore
      exact Nat.find_min hall hq ⟨hq.trans hp, hbefore⟩

/-- What is said of the number `i` at the place `p`. -/
def faultText (p i : Nat) : String :=
  if i < p then s!"duplicate chunk index {i}" else s!"missing chunk index {p}"

/-- Where the numbers go wrong first, the check ends. -/
theorem checkFrom_of_fault {position : Nat} {cs : List Chunk} {p i : Nat}
    (hlength : position + cs.length ≤ UInt32.size) (hhere : (numbers cs)[p]? = some i)
    (hne : i ≠ position + p) (hbefore : ∀ q < p, (numbers cs)[q]? = some (position + q)) :
    checkFrom position cs = .error (.corruptData (faultText (position + p) i)) := by
  induction cs generalizing position p with
  | nil => cases hhere
  | cons c cs ih =>
    rw [List.length_cons] at hlength
    have hposition : (UInt32.ofNat position).toNat = position := by
      rw [UInt32.toNat_ofNat', Nat.mod_eq_of_lt]
      simp only [UInt32.size] at hlength
      omega
    rw [checkFrom]
    cases p with
    | zero =>
      have hi : c.index.toNat = i := Option.some.inj hhere
      have hindex : c.index ≠ UInt32.ofNat position := by
        intro heq
        rw [← hi, heq, hposition] at hne
        exact hne rfl
      simp only [if_neg hindex, UInt32.lt_iff_toNat_lt, hposition, hi, Nat.add_zero, faultText]
      split
      · rfl
      · rfl
    | succ p =>
      have hfirst : c.index.toNat = position := Option.some.inj (hbefore 0 (Nat.succ_pos p))
      have hindex : c.index = UInt32.ofNat position := by
        rw [← UInt32.toNat_inj, hfirst, hposition]
      have hrest := @ih (position + 1) p (by omega) hhere (by omega)
        fun q hq => by
          have hq' := hbefore (q + 1) (Nat.succ_lt_succ hq)
          rwa [Nat.add_right_comm, Nat.add_assoc]
      rw [if_pos hindex, hrest, Nat.add_right_comm, Nat.add_assoc]

/-! ## Putting together -/

/-- The bytes of the first chunk that has a number. -/
def dataOf (chunks : List Chunk) (i : Nat) : Bytes :=
  ((chunks.find? (·.index.toNat == i)).map (·.data)).getD []

/-- The bytes of as many chunks as there are, in the order of their numbers. -/
def joined (chunks : List Chunk) : Bytes := (List.range chunks.length).flatMap (dataOf chunks)

/-- Where no number comes twice, a chunk is found by its number. -/
theorem dataOf_of_mem {chunks : List Chunk} (hnodup : (numbers chunks).Nodup) {c : Chunk}
    (hc : c ∈ chunks) : dataOf chunks c.index.toNat = c.data := by
  rw [dataOf]
  cases hfind : chunks.find? (·.index.toNat == c.index.toNat) with
  | none => exact absurd (List.find?_eq_none.mp hfind c hc) (by simp)
  | some d =>
    have hindex : d.index.toNat = c.index.toNat := by simpa using List.find?_some hfind
    rw [List.inj_on_of_nodup_map hnodup (List.mem_of_find?_eq_some hfind) hc hindex]
    rfl

/-- A complete set is put together in the order of its numbers. -/
theorem IsComplete.reassemble_eq {chunks : List Chunk} (h : IsComplete chunks) :
    reassemble chunks = .ok (joined chunks) := by
  have hnumbers : numbers (inOrder chunks) = List.range chunks.length :=
    (numbers_inOrder chunks).trans ((isComplete_iff chunks).mp h)
  rw [reassemble_eq_ok_iff, checkFrom_eq_ok_iff]
  constructor
  · intro i c hc
    have hi : (numbers (inOrder chunks))[i]? = some c.index.toNat := by
      rw [numbers, List.getElem?_map, hc]
      rfl
    rw [hnumbers, List.getElem?_range (by
      rw [← (inOrder_perm chunks).length_eq]
      exact (List.getElem?_eq_some_iff.mp hc).1)] at hi
    rw [Nat.zero_add, Option.some.inj hi, UInt32.ofNat_toNat]
  · calc (inOrder chunks).flatMap (·.data)
        = (inOrder chunks).flatMap fun c => dataOf chunks c.index.toNat :=
          List.flatMap_congr fun c hc =>
            (dataOf_of_mem h.nodup ((inOrder_perm chunks).mem_iff.mp hc)).symm
      _ = (numbers (inOrder chunks)).flatMap (dataOf chunks) := by
          rw [numbers, List.flatMap_map]
      _ = joined chunks := by rw [hnumbers, joined]

/-- Nothing is lost or added when a complete set is put together. -/
theorem IsComplete.length_joined {chunks : List Chunk} (h : IsComplete chunks) :
    (joined chunks).length = (chunks.flatMap (·.data)).length := by
  have hjoined := ((reassemble_eq_ok_iff chunks _).mp h.reassemble_eq).2
  rw [← hjoined]
  exact ((inOrder_perm chunks).flatMap_right _).length_eq

/-- A set that is not complete has a first fault, and that is what is told. -/
theorem exists_fault_of_not_isComplete {chunks : List Chunk} (hlength : chunks.length ≤ UInt32.size)
    (h : ¬IsComplete chunks) : ∃ p i, FirstFault (sortedNumbers chunks) p i ∧
      reassemble chunks = .error (.corruptData (faultText p i)) := by
  have hsorted : (sortedNumbers chunks).length = chunks.length := by
    rw [(sortedNumbers_perm chunks).length_eq, length_numbers]
  rcases eq_range_or_exists_firstFault (sortedNumbers chunks) with hrange | ⟨p, i, hfault⟩
  · rw [hsorted] at hrange
    exact absurd ((isComplete_iff chunks).mpr hrange) h
  · have hcheck : checkFrom 0 (inOrder chunks) = .error (.corruptData (faultText (0 + p) i)) := by
      have hnumbers := numbers_inOrder chunks
      refine checkFrom_of_fault ?_ ?_ ?_ ?_
      · rw [(inOrder_perm chunks).length_eq, Nat.zero_add]
        exact hlength
      · rw [hnumbers]
        exact hfault.here
      · rw [Nat.zero_add]
        exact hfault.ne
      · intro q hq
        rw [hnumbers, Nat.zero_add]
        exact hfault.before q hq
    rw [Nat.zero_add] at hcheck
    refine ⟨p, i, hfault, ?_⟩
    rw [reassemble, hcheck]

theorem isComplete_iff_exists_reassemble {chunks : List Chunk}
    (hlength : chunks.length ≤ UInt32.size) :
    IsComplete chunks ↔ ∃ content, reassemble chunks = .ok content := by
  constructor
  · exact fun h => ⟨_, h.reassemble_eq⟩
  · rintro ⟨content, hcontent⟩
    by_contra h
    obtain ⟨p, i, _, herror⟩ := exists_fault_of_not_isComplete hlength h
    cases hcontent.symm.trans herror

/-- The order in which chunks are given does not matter, not even to the error. -/
theorem reassemble_congr {chunks chunks' : List Chunk} (hlength : chunks.length ≤ UInt32.size)
    (hperm : chunks'.Perm chunks) : reassemble chunks' = reassemble chunks := by
  by_cases h : IsComplete chunks
  · have h' := h.of_perm hperm
    have hjoined : joined chunks' = joined chunks := by
      rw [joined, joined, hperm.length_eq]
      refine List.flatMap_congr fun i hi => ?_
      obtain ⟨c, hc, rfl⟩ := List.mem_map.mp (h.mem_iff.mpr hi)
      rw [dataOf_of_mem h.nodup hc, dataOf_of_mem h'.nodup (hperm.mem_iff.mpr hc)]
    rw [h.reassemble_eq, h'.reassemble_eq, hjoined]
  · have h' : ¬IsComplete chunks' := fun h' => h (h'.of_perm hperm.symm)
    have hlength' : chunks'.length ≤ UInt32.size := hperm.length_eq.trans_le hlength
    obtain ⟨p, i, hfault, herror⟩ := exists_fault_of_not_isComplete hlength h
    obtain ⟨p', i', hfault', herror'⟩ := exists_fault_of_not_isComplete hlength' h'
    rw [sortedNumbers_congr hperm] at hfault'
    obtain ⟨rfl, rfl⟩ := hfault.unique hfault'
    rw [herror, herror']

/-- Of at most 2^32 chunks, those that are complete are put together, in the order of their
numbers; for others the error names the first fault of the sorted numbers.  Neither depends on the
order in which the chunks are given. -/
theorem reassemble_exact {chunks : List Chunk} (hlength : chunks.length ≤ UInt32.size) :
    ((∃ content, reassemble chunks = .ok content) ↔ IsComplete chunks) ∧
    (IsComplete chunks → reassemble chunks = .ok (joined chunks)) ∧
    (¬IsComplete chunks → ∃ p i, FirstFault (sortedNumbers chunks) p i ∧
      reassemble chunks = .error (.corruptData
        (if i < p then s!"duplicate chunk index {i}" else s!"missing chunk index {p}"))) ∧
    ∀ chunks', chunks'.Perm chunks → reassemble chunks' = reassemble chunks :=
  ⟨(isComplete_iff_exists_reassemble hlength).symm, IsComplete.reassemble_eq,
    exists_fault_of_not_isComplete hlength, fun _ => reassemble_congr hlength⟩

/-- Two chunks of one number are not put together in either order; with the numbers put right they
are. -/
theorem reassemble_exact_of_duplicate :
    let chunks : List Chunk := [⟨2, [7]⟩, ⟨0, [5]⟩, ⟨0, [9]⟩]
    let mended : List Chunk := [⟨2, [7]⟩, ⟨0, [5]⟩, ⟨1, [9]⟩]
    chunks.length ≤ UInt32.size ∧ ¬IsComplete chunks ∧
      reassemble chunks = .error (.corruptData "duplicate chunk index 0") ∧
      reassemble chunks.reverse = reassemble chunks ∧
      mended.length ≤ UInt32.size ∧ IsComplete mended ∧ reassemble mended = .ok [5, 9, 7] := by
  intro chunks mended
  have hlength : chunks.length ≤ UInt32.size := by decide
  have hmended : mended.length ≤ UInt32.size := by decide
  have hcomplete : IsComplete mended := by decide
  obtain ⟨_, _, _, hperm⟩ := reassemble_exact hlength
  obtain ⟨_, hjoined, _⟩ := reassemble_exact hmended
  refine ⟨hlength, by decide, ?_, hperm _ chunks.reverse_perm, hmended, hcomplete, ?_⟩
  · have hsorted : inOrder chunks = [⟨0, [5]⟩, ⟨0, [9]⟩, ⟨2, [7]⟩] := by
      simp [chunks, inOrder, List.mergeSort, List.MergeSort.Internal.splitInTwo]
    rw [reassemble, hsorted]
    rfl
  · exact (hjoined hcomplete).trans (by decide)

end ContentVault.Chunk
