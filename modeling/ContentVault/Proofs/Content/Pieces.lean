import ContentVault.Content.Chunk
set_option autoImplicit false

/-!
# Chunks: cutting and putting together

The pieces of a payload are numbered by their places.  Any selection of as many pieces as
there are that can be put together at all is the whole payload again, so a reader who
counts what was found is never given a mixture.
-/

namespace ContentVault.Chunk

/-! ## Slices -/

theorem length_slices (size count : Nat) (payload : Bytes) :
    (slices size count payload).length = count := by
  induction count generalizing payload with
  | zero => rfl
  | succ count ih => rw [slices, List.length_cons, ih]

theorem flatten_slices (size count : Nat) (payload : Bytes) :
    (slices size count payload).flatten = payload.take (size * count) := by
  induction count generalizing payload with
  | zero => simp [slices]
  | succ count ih =>
    rw [slices, List.flatten_cons, ih, Nat.mul_succ, Nat.add_comm, List.take_add]

theorem length_le_of_mem_slices {size count : Nat} {payload piece : Bytes}
    (h : piece ∈ slices size count payload) : piece.length ≤ size := by
  induction count generalizing payload with
  | zero => cases h
  | succ count ih =>
    rw [slices] at h
    rcases List.mem_cons.mp h with rfl | h
    · exact List.length_take_le size payload
    · exact ih h

/-- The bytes of a payload that belong into its chunk number `i`. -/
def slice (size : Nat) (payload : Bytes) (i : Nat) : Bytes := (payload.drop (size * i)).take size

theorem slices_getElem? (size count : Nat) (payload : Bytes) (i : Nat) :
    (slices size count payload)[i]? = if i < count then some (slice size payload i) else none := by
  induction count generalizing payload i with
  | zero => rfl
  | succ count ih =>
    rw [slices]
    cases i with
    | zero => simp [slice]
    | succ i =>
      rw [List.getElem?_cons_succ, ih, slice, slice, List.drop_drop, Nat.mul_succ,
        Nat.add_comm size]
      simp only [Nat.add_lt_add_iff_right]

/-- As many slices as are counted cover the payload. -/
theorem length_le_mul_countFor (length size : Nat) (h : size ≠ 0) :
    length ≤ size * countFor length size := by
  have hdiv := Nat.div_add_mod (length + size - 1) size
  have hmod := Nat.mod_lt (length + size - 1) (Nat.pos_of_ne_zero h)
  rw [countFor]
  omega

/-! ## Pieces in their places -/

/-- Pieces that are numbered by their places. -/
structure Numbered (pieces : List Chunk) : Prop where
  length_lt : pieces.length < UInt32.size
  index_eq : ∀ i c, pieces[i]? = some c → c.index = UInt32.ofNat i

namespace Numbered

variable {pieces : List Chunk}

theorem index_toNat (h : Numbered pieces) {i : Nat} {c : Chunk} (hc : pieces[i]? = some c) :
    c.index.toNat = i := by
  have hi : i < pieces.length := (List.getElem?_eq_some_iff.mp hc).1
  have hlt := h.length_lt
  rw [h.index_eq i c hc, UInt32.toNat_ofNat', Nat.mod_eq_of_lt]
  exact Nat.lt_trans hi hlt

/-- A piece is found at the place that its number names. -/
theorem mem_iff (h : Numbered pieces) (c : Chunk) :
    c ∈ pieces ↔ pieces[c.index.toNat]? = some c := by
  constructor
  · intro hc
    obtain ⟨i, hi⟩ := List.mem_iff_getElem?.mp hc
    rw [h.index_toNat hi]
    exact hi
  · exact List.mem_of_getElem?

theorem eq_of_index_eq (h : Numbered pieces) {c d : Chunk} (hc : c ∈ pieces) (hd : d ∈ pieces)
    (hindex : c.index = d.index) : c = d := by
  have hc' := (h.mem_iff c).mp hc
  rw [hindex, (h.mem_iff d).mp hd] at hc'
  exact (Option.some.inj hc').symm

theorem pairwise_index_lt (h : Numbered pieces) :
    pieces.Pairwise fun c d => c.index < d.index := by
  rw [List.pairwise_iff_getElem]
  intro i j hi hj hij
  rw [UInt32.lt_iff_toNat_lt, h.index_toNat (List.getElem?_eq_getElem hi),
    h.index_toNat (List.getElem?_eq_getElem hj)]
  exact hij

theorem inOrder_eq (h : Numbered pieces) : inOrder pieces = pieces := by
  apply List.mergeSort_of_pairwise
  refine h.pairwise_index_lt.imp fun {c d} hcd => ?_
  simpa using UInt32.le_of_lt hcd

end Numbered

theorem number_getElem? (slices : List Bytes) (i : Nat) :
    (number slices)[i]? = (slices[i]?).map fun data => ⟨UInt32.ofNat i, data⟩ := by
  rw [number, List.getElem?_mapIdx]

theorem flatMap_data_number (slices : List Bytes) :
    (number slices).flatMap (·.data) = slices.flatten := by
  have hdata : (number slices).map (·.data) = slices := by
    apply List.ext_getElem?
    intro i
    rw [List.getElem?_map, number_getElem?, Option.map_map]
    cases slices[i]? <;> rfl
  rw [List.flatMap_def, hdata]

/-! ## Cutting -/

/-- What cutting a payload yields: numbered pieces of at most the given size that hold the
payload. -/
structure IsCut (payload : Bytes) (size : Nat) (pieces : List Chunk) : Prop where
  numbered : Numbered pieces
  flatMap_data : pieces.flatMap (·.data) = payload
  length_eq : pieces.length = countFor payload.length size
  data_length_le : ∀ c ∈ pieces, c.data.length ≤ size

theorem IsCut.of_split {payload : Bytes} {size : Nat} {pieces : List Chunk}
    (h : split payload size = .ok pieces) : IsCut payload size pieces := by
  rw [split] at h
  split at h
  · cases h
  next hsize =>
    simp only at h
    split at h
    · cases h
    next hcount =>
      cases h
      have hlength : (number (slices size (countFor payload.length size) payload)).length
          = countFor payload.length size := by
        rw [number, List.length_mapIdx, length_slices]
      refine ⟨⟨?_, ?_⟩, ?_, hlength, ?_⟩
      · rw [hlength]
        simp only [UInt32.size] at hcount ⊢
        omega
      · intro i c hc
        rw [number_getElem?] at hc
        obtain ⟨data, _, rfl⟩ := Option.map_eq_some_iff.mp hc
        rfl
      · rw [flatMap_data_number, flatten_slices, List.take_of_length_le]
        exact length_le_mul_countFor payload.length size hsize
      · intro c hc
        obtain ⟨i, hi⟩ := List.mem_iff_getElem?.mp hc
        rw [number_getElem?] at hi
        obtain ⟨data, hdata, rfl⟩ := Option.map_eq_some_iff.mp hi
        exact length_le_of_mem_slices (List.mem_of_getElem? hdata)

/-- No piece is longer than the payload. -/
theorem IsCut.length_data_le {payload : Bytes} {size : Nat} {pieces : List Chunk}
    (h : IsCut payload size pieces) {c : Chunk} (hc : c ∈ pieces) :
    c.data.length ≤ payload.length := by
  have hpart := List.sublist_flatten_of_mem (List.mem_map_of_mem (f := (·.data)) hc)
  rw [← List.flatMap_def, h.flatMap_data] at hpart
  exact hpart.length_le

theorem split_getElem? {payload : Bytes} {size : Nat} {pieces : List Chunk}
    (h : split payload size = .ok pieces) (i : Nat) :
    pieces[i]? = if i < countFor payload.length size
      then some ⟨UInt32.ofNat i, slice size payload i⟩ else none := by
  rw [split] at h
  split at h
  · cases h
  · simp only at h
    split at h
    · cases h
    · cases h
      rw [number_getElem?, slices_getElem?]
      split
      · rfl
      · rfl

/-- Cutting fails only for pieces without bytes and for too many of them. -/
theorem split_error {payload : Bytes} {size : Nat} {e : CodecError} (hsize : size ≠ 0)
    (h : split payload size = .error e) :
    e = .tooManyChunks payload.length size ∧ UInt32.size ≤ countFor payload.length size := by
  rw [split, if_neg hsize] at h
  simp only at h
  split at h
  next hcount =>
    cases h
    exact ⟨rfl, Nat.le_of_pred_lt hcount⟩
  · cases h

/-! ## Putting together -/

theorem checkFrom_eq_ok_iff (position : Nat) (cs : List Chunk) :
    checkFrom position cs = .ok () ↔
      ∀ i c, cs[i]? = some c → c.index = UInt32.ofNat (position + i) := by
  induction cs generalizing position with
  | nil => simp [checkFrom]
  | cons c cs ih =>
    rw [checkFrom]
    split
    next hindex =>
      rw [ih]
      constructor
      · intro h i d hd
        cases i with
        | zero =>
          cases hd
          exact hindex
        | succ i =>
          rw [h i d hd, Nat.add_assoc, Nat.add_comm 1 i]
      · intro h i d hd
        rw [h (i + 1) d hd, Nat.add_assoc, Nat.add_comm 1 i]
    next hindex =>
      constructor
      · intro h
        split at h <;> cases h
      · intro h
        exact absurd (h 0 c rfl) hindex

theorem reassemble_eq_ok_iff (chunks : List Chunk) (content : Bytes) :
    reassemble chunks = .ok content ↔
      checkFrom 0 (inOrder chunks) = .ok () ∧ (inOrder chunks).flatMap (·.data) = content := by
  rw [reassemble]
  cases h : checkFrom 0 (inOrder chunks) with
  | error e => simp
  | ok u => simp

theorem checkFrom_error {position : Nat} {cs : List Chunk} {e : CodecError}
    (h : checkFrom position cs = .error e) : ∃ reason, e = .corruptData reason := by
  induction cs generalizing position with
  | nil => cases h
  | cons c cs ih =>
    rw [checkFrom] at h
    split at h
    · exact ih h
    · split at h
      · cases h
        exact ⟨_, rfl⟩
      · cases h
        exact ⟨_, rfl⟩

/-- Chunks that cannot be put together are corrupt. -/
theorem reassemble_error {chunks : List Chunk} {e : CodecError}
    (h : reassemble chunks = .error e) : ∃ reason, e = .corruptData reason := by
  rw [reassemble] at h
  split at h
  next hcheck =>
    cases h
    exact checkFrom_error hcheck
  · cases h

theorem Numbered.reassemble_eq {pieces : List Chunk} (h : Numbered pieces) :
    reassemble pieces = .ok (pieces.flatMap (·.data)) := by
  rw [reassemble_eq_ok_iff, h.inOrder_eq, checkFrom_eq_ok_iff]
  refine ⟨fun i c hc => ?_, rfl⟩
  rw [Nat.zero_add]
  exact h.index_eq i c hc

theorem IsCut.reassemble_eq {payload : Bytes} {size : Nat} {pieces : List Chunk}
    (h : IsCut payload size pieces) : reassemble pieces = .ok payload := by
  rw [h.numbered.reassemble_eq, h.flatMap_data]

/-- As many pieces as there are, if they can be put together, are all of them in order. -/
theorem Numbered.inOrder_eq_of_reassemble {pieces found : List Chunk} (h : Numbered pieces)
    (hmem : ∀ c ∈ found, c ∈ pieces) (hlength : found.length = pieces.length) {content : Bytes}
    (hok : reassemble found = .ok content) : inOrder found = pieces := by
  have hcheck := (checkFrom_eq_ok_iff 0 _).mp ((reassemble_eq_ok_iff found content).mp hok).1
  have hperm : (inOrder found).Perm found := List.mergeSort_perm found _
  have hlen : (inOrder found).length = pieces.length := by rw [hperm.length_eq, hlength]
  apply List.ext_getElem?
  intro i
  by_cases hi : i < pieces.length
  · have hget : (inOrder found)[i]? = some (inOrder found)[i] := List.getElem?_eq_getElem _
    have hpiece : (inOrder found)[i] ∈ pieces :=
      hmem _ (hperm.mem_iff.mp (List.getElem_mem _))
    have hindex : (inOrder found)[i].index.toNat = i := by
      have hlt := h.length_lt
      rw [hcheck i _ hget, Nat.zero_add, UInt32.toNat_ofNat', Nat.mod_eq_of_lt]
      exact Nat.lt_trans hi hlt
    rw [hget, ← (h.mem_iff _).mp hpiece, hindex]
  · rw [List.getElem?_eq_none (by omega), List.getElem?_eq_none (by omega)]

/-- As many pieces as there are, if they can be put together, make up the payload. -/
theorem Numbered.eq_of_reassemble {pieces found : List Chunk} (h : Numbered pieces)
    (hmem : ∀ c ∈ found, c ∈ pieces) (hlength : found.length = pieces.length) {content : Bytes}
    (hok : reassemble found = .ok content) : content = pieces.flatMap (·.data) := by
  have hcontent := ((reassemble_eq_ok_iff found content).mp hok).2
  rw [h.inOrder_eq_of_reassemble hmem hlength hok] at hcontent
  exact hcontent.symm

end ContentVault.Chunk
