import ContentVault.Bytes.Basic
set_option autoImplicit false

/-!
# Stamp bytes dealt from a shuffled deck

The generator deals every byte value once, in shuffled order, then shuffles the
deck again.  Within one deal no value repeats, so the stamps of successive
candidates reach 256 distinct trailing bytes before any can recur.
-/

namespace ContentVault

/-- All byte values, in some order. -/
abbrev Deck := Vector UInt8 256

/-- A way of shuffling a deck that draws on a source of randomness. -/
abbrev Shuffle (ρ : Type) := Deck → ρ → Deck × ρ

/-- The deck in increasing order. -/
def Deck.ordered : Deck := Vector.ofFn fun i => UInt8.ofNat i.val

/-- A deck being dealt: `position` cards are gone. -/
structure StampGenerator (ρ : Type) where
  order : Deck
  position : Nat
  source : ρ

namespace StampGenerator

variable {ρ : Type}

/-- A generator with a freshly shuffled deck. -/
def start (shuffle : Shuffle ρ) (source : ρ) : StampGenerator ρ :=
  let (order, source) := shuffle Deck.ordered source
  ⟨order, 0, source⟩

/-- Deals the next byte, shuffling first if the deck is used up. -/
def next (shuffle : Shuffle ρ) (g : StampGenerator ρ) : UInt8 × StampGenerator ρ :=
  if h : g.position < 256 then
    (g.order[g.position], { g with position := g.position + 1 })
  else
    let (order, source) := shuffle g.order g.source
    (order[0], ⟨order, 1, source⟩)

/-- The next `count` bytes. -/
def draw (shuffle : Shuffle ρ) : Nat → StampGenerator ρ → Bytes × StampGenerator ρ
  | 0, g => ([], g)
  | count + 1, g =>
    let (byte, g) := g.next shuffle
    let (bytes, g) := draw shuffle count g
    (byte :: bytes, g)

/-- The form shown in diagnostics, which tells nothing of the deck. -/
def describe (_ : StampGenerator ρ) : String := "StampGenerator \x7b .. \x7d"

end StampGenerator

/-! ## A shuffle driven by a 64-bit state -/

/-- One step of a xorshift sequence. -/
def nextRandom (state : UInt64) : UInt64 :=
  let a := state ^^^ (state <<< 13)
  let b := a ^^^ (a >>> 7)
  b ^^^ (b <<< 17)

/-- Swaps each of the first `count` cards, the last of them first, with one at or below its
place. -/
def swapDown : (count : Nat) → count ≤ 256 → Deck → UInt64 → Deck × UInt64
  | 0, _, deck, state => (deck, state)
  | i + 1, h, deck, state =>
    let state := nextRandom state
    let j := state.toNat % (i + 1)
    have hj : j < i + 1 := Nat.mod_lt _ (Nat.succ_pos i)
    swapDown i (Nat.le_of_succ_le h) (deck.swap i j h (Nat.lt_of_lt_of_le hj h)) state

/-- The shuffle that swaps every card with one at or below its place. -/
def seededShuffle : Shuffle UInt64 := swapDown 256 (Nat.le_refl 256)

/-- A generator whose deals follow from a seed. -/
def StampGenerator.ofSeed (seed : UInt64) : StampGenerator UInt64 :=
  .start seededShuffle (nextRandom (seed ^^^ 0x9E3779B97F4A7C15))

end ContentVault
