import ContentVault.Ident.StampGenerator
import Mathlib.Data.List.FinRange
set_option autoImplicit false

/-!
# What a stamp generator deals

All that a shuffle has to do is to move the cards of the deck that it is given.  It may draw on
any source of randomness, so each deck may come in any order; whatever the orders are, a
generator deals whole decks, one after the other, from its making on.  Every turn of 256 draws has
each byte once, a turn that is cut short has none twice, and each draw takes the card at its own
place of the deck in hand.
-/

namespace ContentVault

/-- Every byte value is there, once. -/
def EachOnce (bytes : Bytes) : Prop := ∀ byte, bytes.count byte = 1

theorem EachOnce.nodup {bytes : Bytes} (h : EachOnce bytes) : bytes.Nodup :=
  List.nodup_iff_count_le_one.mpr fun byte => Nat.le_of_eq (h byte)

theorem EachOnce.of_perm {bytes bytes' : Bytes} (h : EachOnce bytes) (hperm : bytes'.Perm bytes) :
    EachOnce bytes' :=
  fun byte => (hperm.count_eq byte).trans (h byte)

/-! ## Decks and shuffles -/

theorem Deck.eachOnce_ordered : EachOnce Deck.ordered.toList := by
  intro byte
  rw [Deck.ordered, Vector.toList_ofFn]
  have hinjective : Function.Injective fun i : Fin 256 => UInt8.ofNat i.val := by
    intro i j hij
    have hnat := congrArg UInt8.toNat hij
    simp only [UInt8.toNat_ofNat', Nat.mod_eq_of_lt i.isLt, Nat.mod_eq_of_lt j.isLt] at hnat
    exact Fin.ext hnat
  have hmem : byte ∈ List.ofFn fun i : Fin 256 => UInt8.ofNat i.val :=
    List.mem_ofFn.mpr ⟨⟨byte.toNat, byte.toNat_lt⟩, UInt8.ofNat_toNat⟩
  exact List.count_eq_one_of_mem (List.nodup_ofFn.mpr hinjective) hmem

/-- The shuffle moves the cards of a deck and does nothing else to them. -/
def Shuffle.Permutes {ρ : Type} (shuffle : Shuffle ρ) : Prop :=
  ∀ deck source, (shuffle deck source).1.Perm deck

theorem swapDown_perm (count : Nat) (h : count ≤ 256) (deck : Deck) (state : UInt64) :
    (swapDown count h deck state).1.Perm deck := by
  induction count generalizing deck state with
  | zero => exact .rfl
  | succ i ih => exact (ih _ _ _).trans (Vector.swap_perm _ _)

theorem permutes_seededShuffle : seededShuffle.Permutes := swapDown_perm 256 (Nat.le_refl 256)

/-! ## Turns of 256 draws -/

/-- The bytes of one turn among those that were dealt; a turn is 256 draws. -/
def turnOf (bytes : Bytes) (turn : Nat) : Bytes := (bytes.drop (256 * turn)).take 256

theorem turnOf_zero_of_deck (deck : Deck) (rest : Bytes) :
    turnOf (deck.toList ++ rest) 0 = deck.toList :=
  List.take_left' deck.length_toList

theorem turnOf_succ_of_deck (deck : Deck) (rest : Bytes) (turn : Nat) :
    turnOf (deck.toList ++ rest) (turn + 1) = turnOf rest turn := by
  rw [turnOf, turnOf, Nat.mul_succ, Nat.add_comm, ← List.drop_drop,
    List.drop_left' deck.length_toList]

/-- If whole decks are dealt, and then some of one more, each turn is dealt from a whole deck. -/
theorem exists_deck_of_turn {decks : List Deck} (hdecks : ∀ deck ∈ decks, EachOnce deck.toList)
    {hand : Deck} (hhand : EachOnce hand.toList) {rest : Bytes} (hrest : rest <+: hand.toList)
    (turn : Nat) :
    ∃ deck : Deck, EachOnce deck.toList ∧
      turnOf (decks.flatMap Vector.toList ++ rest) turn <+: deck.toList := by
  induction decks generalizing turn with
  | nil =>
    refine ⟨hand, hhand, ?_⟩
    rw [List.flatMap_nil, List.nil_append]
    cases turn with
    | zero => exact (List.take_prefix 256 rest).trans hrest
    | succ turn =>
      have hlength : rest.length ≤ 256 := hand.length_toList ▸ hrest.length_le
      have hnone : rest.drop (256 * (turn + 1)) = [] := List.drop_eq_nil_of_le (by omega)
      rw [turnOf, hnone, List.take_nil]
      exact List.nil_prefix
  | cons deck decks ih =>
    rw [List.flatMap_cons, List.append_assoc]
    cases turn with
    | zero =>
      rw [turnOf_zero_of_deck]
      exact ⟨deck, hdecks deck List.mem_cons_self, List.prefix_rfl⟩
    | succ turn =>
      rw [turnOf_succ_of_deck]
      exact ih (fun d hd => hdecks d (List.mem_cons_of_mem deck hd)) turn

namespace StampGenerator

variable {ρ : Type} {shuffle : Shuffle ρ} {g : StampGenerator ρ} {bytes : Bytes}

/-! ## One draw -/

/-- A draw takes the next card, or the first one of the deck shuffled anew. -/
theorem next_cases (shuffle : Shuffle ρ) (g : StampGenerator ρ) :
    (∃ h : g.position < 256,
      g.next shuffle = (g.order[g.position], { g with position := g.position + 1 })) ∨
    (256 ≤ g.position ∧ g.next shuffle
      = ((shuffle g.order g.source).1[0],
        ⟨(shuffle g.order g.source).1, 1, (shuffle g.order g.source).2⟩)) := by
  by_cases h : g.position < 256
  · exact Or.inl ⟨h, dif_pos h⟩
  · exact Or.inr ⟨Nat.le_of_not_lt h, dif_neg h⟩

/-- The byte of a draw is a card of the deck then in hand, and the position is behind it. -/
theorem next_takes (shuffle : Shuffle ρ) (g : StampGenerator ρ) :
    ∃ place < 256, (g.next shuffle).2.position = place + 1 ∧
      (g.next shuffle).2.order[place]? = some (g.next shuffle).1 := by
  rcases next_cases shuffle g with ⟨h, hnext⟩ | ⟨_, hnext⟩
  · rw [hnext]
    exact ⟨g.position, h, rfl, Vector.getElem?_eq_getElem h⟩
  · rw [hnext]
    exact ⟨0, by omega, rfl, Vector.getElem?_eq_getElem (by omega)⟩

/-- A generator that has dealt `bytes`: whole decks were dealt, and of the deck in hand, which is
whole too, the cards before the position.  Every draw keeps this. -/
structure HasDealt (g : StampGenerator ρ) (bytes : Bytes) : Prop where
  eachOnce : EachOnce g.order.toList
  position_le : g.position ≤ 256
  bytes_eq : ∃ decks : List Deck, (∀ deck ∈ decks, EachOnce deck.toList) ∧
    bytes = decks.flatMap Vector.toList ++ g.order.toList.take g.position

theorem hasDealt_start (hshuffle : shuffle.Permutes) (source : ρ) :
    (start shuffle source).HasDealt [] :=
  ⟨Deck.eachOnce_ordered.of_perm (hshuffle _ _).toList, Nat.zero_le 256, [], by simp, rfl⟩

theorem HasDealt.next (hshuffle : shuffle.Permutes) (h : g.HasDealt bytes) :
    (g.next shuffle).2.HasDealt (bytes ++ [(g.next shuffle).1]) := by
  obtain ⟨heach, hle, decks, hdecks, rfl⟩ := h
  rcases next_cases shuffle g with ⟨hlt, hnext⟩ | ⟨hge, hnext⟩
  · rw [hnext]
    refine ⟨heach, hlt, decks, hdecks, ?_⟩
    have hlength : g.position < g.order.toList.length := g.order.length_toList.symm ▸ hlt
    rw [List.append_assoc, List.take_succ_eq_append_getElem hlength, Vector.getElem_toList]
  · -- The deck in hand is dealt out, so it joins the decks before it.
    have hout : g.order.toList.take g.position = g.order.toList :=
      List.take_of_length_le (g.order.length_toList.symm ▸ hge)
    have hnew := heach.of_perm (hshuffle g.order g.source).toList
    have hfirst : 1 ≤ 256 := by omega
    rw [hnext, hout]
    refine ⟨hnew, hfirst, decks ++ [g.order], ?_, ?_⟩
    · intro deck hdeck
      rcases List.mem_append.mp hdeck with hold | hlast
      · exact hdecks deck hold
      · exact List.mem_singleton.mp hlast ▸ heach
    · have hlength : 0 < (shuffle g.order g.source).1.toList.length := by simp
      simp [List.take_succ_eq_append_getElem hlength]

/-! ## Many draws -/

/-- The bytes of the first `count` draws, counted from the making of a generator. -/
def dealt (shuffle : Shuffle ρ) (source : ρ) (count : Nat) : Bytes :=
  (draw shuffle count (start shuffle source)).1

/-- The generator after the first `count` draws. -/
def after (shuffle : Shuffle ρ) (source : ρ) (count : Nat) : StampGenerator ρ :=
  (draw shuffle count (start shuffle source)).2

theorem draw_concat (shuffle : Shuffle ρ) (count : Nat) (g : StampGenerator ρ) :
    draw shuffle (count + 1) g
      = ((draw shuffle count g).1 ++ [((draw shuffle count g).2.next shuffle).1],
        ((draw shuffle count g).2.next shuffle).2) := by
  induction count generalizing g with
  | zero => rfl
  | succ count ih =>
    have hdraw : draw shuffle (count + 1 + 1) g
        = ((g.next shuffle).1 :: (draw shuffle (count + 1) (g.next shuffle).2).1,
          (draw shuffle (count + 1) (g.next shuffle).2).2) := rfl
    rw [hdraw, ih]
    rfl

section

variable (shuffle : Shuffle ρ) (source : ρ) (count : Nat)

theorem dealt_succ :
    dealt shuffle source (count + 1)
      = dealt shuffle source count ++ [((after shuffle source count).next shuffle).1] :=
  congrArg Prod.fst (draw_concat shuffle count _)

theorem after_succ :
    after shuffle source (count + 1) = ((after shuffle source count).next shuffle).2 :=
  congrArg Prod.snd (draw_concat shuffle count _)

@[simp] theorem length_dealt : (dealt shuffle source count).length = count := by
  induction count with
  | zero => rfl
  | succ count ih => simp [dealt_succ, ih]

/-- What was dealt before stays as it is when more is dealt. -/
theorem dealt_getElem?_of_lt {n : Nat} (h : n < count) :
    (dealt shuffle source count)[n]? = some ((after shuffle source n).next shuffle).1 := by
  induction count with
  | zero => omega
  | succ count ih =>
    rw [dealt_succ]
    rcases Nat.lt_succ_iff_lt_or_eq.mp h with hlt | rfl
    · rw [List.getElem?_append_left (by simpa using hlt), ih hlt]
    · rw [List.getElem?_append_right (by simp)]
      simp

end

theorem hasDealt_after (hshuffle : shuffle.Permutes) (source : ρ) (count : Nat) :
    (after shuffle source count).HasDealt (dealt shuffle source count) := by
  induction count with
  | zero => exact hasDealt_start hshuffle source
  | succ count ih =>
    rw [dealt_succ, after_succ]
    exact ih.next hshuffle

theorem HasDealt.length_eq (h : g.HasDealt bytes) : ∃ n, bytes.length = 256 * n + g.position := by
  obtain ⟨_, hle, decks, _, rfl⟩ := h
  refine ⟨decks.length, ?_⟩
  have hdecks : (decks.flatMap Vector.toList).length = 256 * decks.length := by
    simp [List.length_flatMap, Nat.mul_comm]
  rw [List.length_append, hdecks, List.length_take, g.order.length_toList, Nat.min_eq_left hle]

theorem HasDealt.exists_deck (h : g.HasDealt bytes) (turn : Nat) :
    ∃ deck : Deck, EachOnce deck.toList ∧ turnOf bytes turn <+: deck.toList := by
  obtain ⟨heach, _, decks, hdecks, rfl⟩ := h
  exact exists_deck_of_turn hdecks heach (List.take_prefix _ _) turn

/-- What a generator deals in its first `count` draws. -/
structure DealsWholeDecks (shuffle : Shuffle ρ) (source : ρ) (count : Nat) : Prop where
  length_eq : (dealt shuffle source count).length = count
  /-- The draws numbered `256 * turn` to `256 * turn + 255` have every byte once. -/
  whole : ∀ turn, 256 * (turn + 1) ≤ count →
    EachOnce (turnOf (dealt shuffle source count) turn)
  /-- The draws of a last turn that is cut short are distinct. -/
  distinct : (turnOf (dealt shuffle source count) (count / 256)).Nodup
  /-- The draw number `n` takes the card that there is at the place `n % 256` of the deck then in
  hand, and leaves the position behind it. -/
  takes : ∀ n < count, ∃ card, (dealt shuffle source count)[n]? = some card ∧
    (after shuffle source (n + 1)).order[n % 256]? = some card ∧
    (after shuffle source (n + 1)).position = n % 256 + 1

/-- Whatever the shuffle does to the order of the cards, whole decks are dealt. -/
theorem deals_whole_decks (hshuffle : shuffle.Permutes) (source : ρ) (count : Nat) :
    DealsWholeDecks shuffle source count where
  length_eq := length_dealt shuffle source count
  whole turn hturn := by
    obtain ⟨deck, heach, hpart⟩ := (hasDealt_after hshuffle source count).exists_deck turn
    have hlength : deck.toList.length ≤ (turnOf (dealt shuffle source count) turn).length := by
      rw [deck.length_toList, turnOf, List.length_take, List.length_drop, length_dealt]
      omega
    rwa [hpart.eq_of_length_le hlength]
  distinct := by
    obtain ⟨deck, heach, hpart⟩ := (hasDealt_after hshuffle source count).exists_deck (count / 256)
    exact heach.nodup.sublist hpart.sublist
  takes n hn := by
    obtain ⟨place, hplace, hposition, hcard⟩ := next_takes shuffle (after shuffle source n)
    obtain ⟨m, hm⟩ := (hasDealt_after hshuffle source (n + 1)).length_eq
    rw [length_dealt, after_succ, hposition] at hm
    -- Since `m` decks were dealt before, the place in hand counts the draws of this turn.
    have hmod : n % 256 = place := by omega
    rw [after_succ, hmod]
    exact ⟨_, dealt_getElem?_of_lt shuffle source count hn, hcard, hposition⟩

/-- Two whole decks and some of a third one. -/
theorem deals_whole_decks_of_seed :
    seededShuffle.Permutes ∧ DealsWholeDecks seededShuffle (nextRandom 0x9E3779B97F4A7C12) 600 :=
  ⟨permutes_seededShuffle, deals_whole_decks permutes_seededShuffle _ 600⟩

end StampGenerator

end ContentVault
