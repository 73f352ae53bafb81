import ContentVault.Ident.StoreId
import ContentVault.Proofs.Content.Completeness
import ContentVault.Proofs.Map.Lookup
import Mathlib.Algebra.Order.Floor.Div
import Mathlib.GroupTheory.GroupAction.Ring
set_option autoImplicit false

/-!
# Chunks by their owners

The chunks of several payloads may arrive mixed.  Each is filed under the owner of its payload, and
since chunks are put together in any order, each group yields the payload of its owner.
-/

namespace ContentVault.Chunk

/-! ## Even cuts -/

/-- What a payload is cut into: chunks numbered from zero, as many as are needed, all of `size`
bytes but the last, which has one byte at least. -/
structure IsEvenCut (payload : Bytes) (size : Nat) (pieces : List Chunk) : Prop where
  length_eq : pieces.length = payload.length ⌈/⌉ size
  index_eq : ∀ i (c : Chunk), pieces[i]? = some c → c.index.toNat = i
  full : ∀ i (c : Chunk), pieces[i]? = some c → i + 1 < pieces.length → c.data.length = size
  last : ∀ c : Chunk, pieces.getLast? = some c → c.data ≠ [] ∧ c.data.length ≤ size

/-- A chunk is needed if there is something before it that it starts with. -/
theorem lt_countFor_iff {length size i : Nat} (hsize : 0 < size) :
    i < countFor length size ↔ size * i < length :=
  lt_iff_lt_of_le_iff_le (ceilDiv_le_iff_le_mul (b := length) (c := i) hsize)

theorem length_slice (size : Nat) (payload : Bytes) (i : Nat) :
    (slice size payload i).length = min size (payload.length - size * i) := by
  rw [slice, List.length_take, List.length_drop]

theorem IsEvenCut.of_split {payload : Bytes} {size : Nat} {pieces : List Chunk} (hsize : 0 < size)
    (h : split payload size = .ok pieces) : IsEvenCut payload size pieces := by
  have hcut := IsCut.of_split h
  -- Where a chunk starts, the payload has not ended.
  have hdata : ∀ i c, pieces[i]? = some c → c.data = slice size payload i ∧
      size * i < payload.length := by
    intro i c hc
    have hi : i < countFor payload.length size := by
      rw [← hcut.length_eq]
      exact (List.getElem?_eq_some_iff.mp hc).1
    rw [split_getElem? h, if_pos hi] at hc
    cases hc
    exact ⟨rfl, (lt_countFor_iff hsize).mp hi⟩
  refine ⟨hcut.length_eq, fun i c hc => hcut.numbered.index_toNat hc, fun i c hc hnext => ?_,
    fun c hc => ?_⟩
  · rw [hcut.length_eq, lt_countFor_iff hsize, Nat.mul_succ] at hnext
    rw [(hdata i c hc).1, length_slice]
    omega
  · rw [List.getLast?_eq_getElem?] at hc
    obtain ⟨hslice, hstart⟩ := hdata _ c hc
    refine ⟨List.ne_nil_of_length_pos ?_, hcut.data_length_le c (List.mem_of_getElem? hc)⟩
    rw [hslice, length_slice]
    omega

/-- A payload that needs no more chunks than there are numbers is cut, and its chunks are put
together in any order. -/
theorem exists_evenCut {payload : Bytes} {size : Nat} (hsize : 0 < size)
    (hcount : payload.length ⌈/⌉ size < UInt32.size) :
    ∃ pieces, split payload size = .ok pieces ∧ IsEvenCut payload size pieces ∧
      ∀ mixed : List Chunk, mixed.Perm pieces → reassemble mixed = .ok payload := by
  cases h : split payload size with
  | error e => exact absurd (split_error (Nat.ne_of_gt hsize) h).2 (Nat.not_le.mpr hcount)
  | ok pieces =>
    have hcut := IsCut.of_split h
    refine ⟨pieces, rfl, .of_split hsize h, fun mixed hmixed => ?_⟩
    rw [reassemble_congr hcut.numbered.length_lt.le hmixed, hcut.reassemble_eq]

theorem IsEvenCut.ne_nil_iff {payload : Bytes} {size : Nat} {pieces : List Chunk}
    (h : IsEvenCut payload size pieces) (hsize : 0 < size) : pieces ≠ [] ↔ payload ≠ [] := by
  rw [← List.length_pos_iff, ← List.length_pos_iff, h.length_eq]
  exact lt_countFor_iff (i := 0) hsize

/-! ## Payloads of several owners -/

section

variable {κ : Type} [DecidableEq κ]

/-- The chunks of one owner. -/
def chunksOf (chunks : List (κ × Chunk)) (owner : κ) : List Chunk :=
  (chunks.filter fun e => e.1 = owner).map (·.2)

/-- The chunks of all payloads, each under its owner, one payload after the other. -/
def owned (cut : Bytes → List Chunk) (family : List (κ × Bytes)) : List (κ × Chunk) :=
  family.flatMap fun e => (cut e.2).map fun c => (e.1, c)

theorem chunksOf_owned (cut : Bytes → List Chunk) (family : List (κ × Bytes)) (owner : κ) :
    chunksOf (owned cut family) owner
      = (family.filter fun e => e.1 = owner).flatMap fun e => cut e.2 := by
  induction family with
  | nil => rfl
  | cons e family ih =>
    rw [owned, List.flatMap_cons, chunksOf, List.filter_append, List.map_append]
    change _ ++ chunksOf (owned cut family) owner = _
    rw [ih]
    by_cases h : e.1 = owner
    · simp [List.filter_map, Function.comp_def, h]
    · simp [List.filter_map, Function.comp_def, h]

/-- Where owners differ, an owner has one payload. -/
theorem filter_owner_eq {family : List (κ × Bytes)} (hkeys : (family.map (·.1)).Nodup)
    {e : κ × Bytes} (he : e ∈ family) : (family.filter fun d => d.1 = e.1) = [e] := by
  have hsame : (family.filter fun d => d.1 = e.1) = family.filter (· = e) := by
    refine List.filter_congr fun d hd => ?_
    rw [decide_eq_decide]
    exact ⟨fun heq => List.inj_on_of_nodup_map hkeys hd he heq, fun heq => heq ▸ rfl⟩
  rw [hsame, List.filter_eq, List.count_eq_one_of_mem (.of_map _ hkeys) he, List.replicate_one]

theorem chunksOf_perm {chunks chunks' : List (κ × Chunk)} (h : chunks'.Perm chunks) (owner : κ) :
    (chunksOf chunks' owner).Perm (chunksOf chunks owner) :=
  (h.filter _).map _

end

/-! ## Groups -/

variable {κ : Type} [Ord κ] [Std.TransOrd κ] [Std.LawfulEqOrd κ] [DecidableEq κ]

omit [Std.LawfulEqOrd κ] [DecidableEq κ] in
/-- A chunk that comes after others is added to the group of its owner. -/
theorem groupByOwner_concat (chunks : List (κ × Chunk)) (e : κ × Chunk) :
    groupByOwner (chunks ++ [e]) = (groupByOwner chunks).insert e.1
      (((groupByOwner chunks).get? e.1).getD [] ++ [e.2]) :=
  List.foldl_concat ..

/-- A group holds the chunks of its owner, in the order of the list. -/
theorem get?_groupByOwner (chunks : List (κ × Chunk)) (owner : κ) :
    ((groupByOwner chunks).get? owner).getD []
      = (chunks.filter fun e => e.1 = owner).map (·.2) := by
  induction chunks using List.reverseRecOn with
  | nil => rfl
  | append_singleton chunks e ih =>
    rw [groupByOwner_concat, OrderedMap.get?_insert, List.filter_append, List.map_append, ← ih]
    by_cases h : owner = e.1
    · rw [if_pos h, List.filter_cons_of_pos (by simp [h]), h]
      rfl
    · rw [if_neg h, List.filter_cons_of_neg (by simpa using fun he => h he.symm)]
      simp

/-- No group is empty: it starts with a chunk, and chunks are only added. -/
theorem ne_nil_of_get?_groupByOwner {chunks : List (κ × Chunk)} {owner : κ} {group : List Chunk}
    (h : (groupByOwner chunks).get? owner = some group) : group ≠ [] := by
  induction chunks using List.reverseRecOn generalizing group with
  | nil => cases h
  | append_singleton chunks e ih =>
    rw [groupByOwner_concat, OrderedMap.get?_insert] at h
    split at h
    · cases h
      exact List.append_ne_nil_of_right_ne_nil _ (List.cons_ne_nil _ _)
    · exact ih h

/-- There is a group for each owner of a chunk, and it holds the owner's chunks. -/
theorem get?_groupByOwner_eq_some_iff {chunks : List (κ × Chunk)} {owner : κ}
    {group : List Chunk} :
    (groupByOwner chunks).get? owner = some group ↔
      group = chunksOf chunks owner ∧ chunksOf chunks owner ≠ [] := by
  have hgroup := get?_groupByOwner chunks owner
  cases h : (groupByOwner chunks).get? owner with
  | none =>
    rw [h] at hgroup
    simp [chunksOf, ← hgroup]
  | some found =>
    have hne := ne_nil_of_get?_groupByOwner h
    rw [h] at hgroup
    have hfound : found = chunksOf chunks owner := hgroup
    rw [← hfound]
    constructor
    · intro heq
      cases heq
      exact ⟨rfl, hne⟩
    · rintro ⟨rfl, _⟩
      rfl

theorem mem_keys_groupByOwner_iff {chunks : List (κ × Chunk)} {owner : κ} :
    owner ∈ (groupByOwner chunks).keys ↔ chunksOf chunks owner ≠ [] := by
  rw [OrderedMap.keys, List.mem_map]
  constructor
  · rintro ⟨e, he, rfl⟩
    exact (get?_groupByOwner_eq_some_iff.mp ((OrderedMap.mem_entries_iff _ e.1 e.2).mp he)).2
  · intro hne
    exact ⟨(owner, chunksOf chunks owner),
      (OrderedMap.mem_entries_iff _ _ _).mpr (get?_groupByOwner_eq_some_iff.mpr ⟨rfl, hne⟩), rfl⟩

/-- Payloads of different owners are cut into even chunks, and the chunks of one are put together
to it in any order.  Mixed in any order, the chunks of all are grouped under the owners whose
payload is not empty, in the order of the owners, and each group is put together to the payload of
its owner. -/
theorem groups_restore_payloads {family : List (κ × Bytes)} {size : Nat}
    (hkeys : (family.map (·.1)).Nodup) (hsize : 0 < size)
    (hcount : ∀ e ∈ family, e.2.length ⌈/⌉ size < UInt32.size) :
    ∃ cut : Bytes → List Chunk,
      (∀ e ∈ family, split e.2 size = .ok (cut e.2) ∧ IsEvenCut e.2 size (cut e.2) ∧
        ∀ mixed : List Chunk, mixed.Perm (cut e.2) → reassemble mixed = .ok e.2) ∧
      ∀ mixed : List (κ × Chunk), mixed.Perm (owned cut family) →
        (groupByOwner mixed).keys.Pairwise (fun a b => compare a b = .lt) ∧
        (∀ owner, owner ∈ (groupByOwner mixed).keys ↔
          ∃ payload, (owner, payload) ∈ family ∧ payload ≠ []) ∧
        ∀ owner payload, (owner, payload) ∈ family → payload ≠ [] →
          ∃ group, (groupByOwner mixed).get? owner = some group ∧
            reassemble group = .ok payload := by
  let cut : Bytes → List Chunk := fun payload => (split payload size).toOption.getD []
  have hcut : ∀ e ∈ family, split e.2 size = .ok (cut e.2) ∧ IsEvenCut e.2 size (cut e.2) ∧
      ∀ mixed : List Chunk, mixed.Perm (cut e.2) → reassemble mixed = .ok e.2 := by
    intro e he
    obtain ⟨pieces, hsplit, heven, hmixed⟩ := exists_evenCut hsize (hcount e he)
    have hpieces : cut e.2 = pieces := by
      simp only [cut, hsplit, Except.toOption, Option.getD_some]
    rw [hpieces]
    exact ⟨hsplit, heven, hmixed⟩
  refine ⟨cut, hcut, fun mixed hmixed => ?_⟩
  -- An owner's chunks are those of the owner's one payload.
  have hgroup : ∀ e ∈ family, (chunksOf mixed e.1).Perm (cut e.2) := by
    intro e he
    have hperm := chunksOf_perm hmixed e.1
    rwa [chunksOf_owned, filter_owner_eq hkeys he, List.flatMap_singleton] at hperm
  have hne : ∀ e ∈ family, (chunksOf mixed e.1 ≠ [] ↔ e.2 ≠ []) := by
    intro e he
    rw [← (hcut e he).2.1.ne_nil_iff hsize, ← List.length_pos_iff, ← List.length_pos_iff,
      (hgroup e he).length_eq]
  refine ⟨List.pairwise_map.mpr (groupByOwner mixed).sorted, fun owner => ?_,
    fun owner payload he hpayload => ?_⟩
  · rw [mem_keys_groupByOwner_iff]
    constructor
    · intro howner
      obtain ⟨c, hc⟩ := List.exists_mem_of_ne_nil _ howner
      have hc' := (chunksOf_perm hmixed owner).mem_iff.mp hc
      rw [chunksOf_owned, List.mem_flatMap] at hc'
      obtain ⟨e, hfilter, _⟩ := hc'
      obtain ⟨he, heq⟩ := List.mem_filter.mp hfilter
      obtain rfl := of_decide_eq_true heq
      exact ⟨e.2, he, (hne e he).mp howner⟩
    · rintro ⟨payload, he, hpayload⟩
      exact (hne (owner, payload) he).mpr hpayload
  · refine ⟨chunksOf mixed owner, get?_groupByOwner_eq_some_iff.mpr ⟨rfl, ?_⟩, ?_⟩
    · exact (hne (owner, payload) he).mpr hpayload
    · exact (hcut (owner, payload) he).2.2 _ (hgroup (owner, payload) he)

/-- Chunks of two blobs and of an empty third that arrive interleaved, last ones first. -/
theorem groups_restore_payloads_of_interleaved :
    let a : StoreId := ⟨7, 1⟩
    let b : StoreId := ⟨7, 0⟩
    let family : List (StoreId × Bytes) := [(a, [1, 2, 3, 4, 5]), (⟨3, 0⟩, []), (b, [9, 8, 7])]
    let mixed : List (StoreId × Chunk) :=
      [(a, ⟨2, [5]⟩), (b, ⟨1, [7]⟩), (a, ⟨0, [1, 2]⟩), (b, ⟨0, [9, 8]⟩), (a, ⟨1, [3, 4]⟩)]
    (family.map (·.1)).Nodup ∧ 0 < 2 ∧
      (∀ e ∈ family, e.2.length ⌈/⌉ 2 < UInt32.size) ∧
      (∃ cut : Bytes → List Chunk, (∀ e ∈ family, split e.2 2 = .ok (cut e.2)) ∧
        mixed.Perm (owned cut family)) ∧
      (∀ owner, owner ∈ (groupByOwner mixed).keys ↔ owner = a ∨ owner = b) ∧
      (∃ group, (groupByOwner mixed).get? a = some group ∧
        reassemble group = .ok [1, 2, 3, 4, 5]) ∧
      ∃ group, (groupByOwner mixed).get? b = some group ∧ reassemble group = .ok [9, 8, 7] := by
  intro a b family mixed
  have hkeys : (family.map (·.1)).Nodup := by decide
  have hcount : ∀ e ∈ family, e.2.length ⌈/⌉ 2 < UInt32.size := by decide
  obtain ⟨cut, hcut, hmixed⟩ := groups_restore_payloads hkeys (show 0 < 2 by decide) hcount
  have hperm : mixed.Perm (owned cut family) := by
    have hpieces : ∀ e ∈ family, cut e.2 = (split e.2 2).toOption.getD [] := by
      intro e he
      rw [(hcut e he).1]
      rfl
    have howned : owned cut family = owned (fun bs => (split bs 2).toOption.getD []) family :=
      List.flatMap_congr fun e he => by rw [hpieces e he]
    rw [howned]
    decide
  obtain ⟨_, howners, hgroups⟩ := hmixed mixed hperm
  refine ⟨hkeys, by decide, hcount, ⟨cut, fun e he => (hcut e he).1, hperm⟩, fun owner => ?_,
    hgroups a _ (by decide) (by decide), hgroups b _ (by decide) (by decide)⟩
  rw [howners]
  constructor
  · rintro ⟨payload, hmem, hne⟩
    simp only [family, List.mem_cons, Prod.mk.injEq, List.not_mem_nil, or_false] at hmem
    rcases hmem with ⟨rfl, _⟩ | ⟨_, hempty⟩ | ⟨rfl, _⟩
    · exact Or.inl rfl
    · exact absurd hempty hne
    · exact Or.inr rfl
  · rintro (rfl | rfl)
    · exact ⟨[1, 2, 3, 4, 5], by decide, by decide⟩
    · exact ⟨[9, 8, 7], by decide, by decide⟩

end ContentVault.Chunk
