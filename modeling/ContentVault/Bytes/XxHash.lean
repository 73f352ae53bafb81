import ContentVault.Bytes.Basic
set_option autoImplicit false

/-!
# XXH64

The 64-bit hash that closes a compressed frame, with seed zero.  Four lanes eat
stripes of 32 bytes; what is left is eaten in words of eight bytes, at most one
word of four, and single bytes.
-/

namespace ContentVault.XxHash

def prime1 : UInt64 := 11400714785074694791
def prime2 : UInt64 := 14029467366897019727
def prime3 : UInt64 := 1609587929392839161
def prime4 : UInt64 := 9650029242287828579
def prime5 : UInt64 := 2870177450012600261

/-- Rotation to the left by `k` bits, `0 < k < 64`. -/
def rotate (x k : UInt64) : UInt64 := (x <<< k) ||| (x >>> (64 - k))

/-- The little-endian word made of the first `width` bytes. -/
def word (width : Nat) (bs : Bytes) : UInt64 :=
  UInt64.ofNat (Bytes.ofLittleEndian (bs.take width))

/-- One word enters a lane. -/
def mix (lane input : UInt64) : UInt64 := rotate (lane + input * prime2) 31 * prime1

/-- The four lanes. -/
structure Lanes where
  first : UInt64
  second : UInt64
  third : UInt64
  fourth : UInt64
  deriving DecidableEq, Repr, Inhabited

/-- The lanes before the first stripe. -/
def Lanes.initial : Lanes := ⟨prime1 + prime2, prime2, 0, 0 - prime1⟩

/-- `count` stripes enter the lanes; the answer also holds what follows them. -/
def Lanes.stripes : Nat → Bytes → Lanes → Lanes × Bytes
  | 0, bs, lanes => (lanes, bs)
  | count + 1, bs, lanes =>
    let bs2 := bs.drop 8
    let bs3 := bs2.drop 8
    let bs4 := bs3.drop 8
    Lanes.stripes count (bs4.drop 8)
      ⟨mix lanes.first (word 8 bs), mix lanes.second (word 8 bs2),
        mix lanes.third (word 8 bs3), mix lanes.fourth (word 8 bs4)⟩

/-- One lane enters the joint state. -/
def join (state lane : UInt64) : UInt64 := (state ^^^ mix 0 lane) * prime1 + prime4

/-- The joint state of the lanes. -/
def Lanes.joined (lanes : Lanes) : UInt64 :=
  let state := rotate lanes.first 1 + rotate lanes.second 7 + rotate lanes.third 12
    + rotate lanes.fourth 18
  join (join (join (join state lanes.first) lanes.second) lanes.third) lanes.fourth

/-- `count` words of eight bytes enter the state. -/
def octets : Nat → Bytes → UInt64 → UInt64 × Bytes
  | 0, bs, state => (state, bs)
  | count + 1, bs, state =>
    octets count (bs.drop 8) (rotate (state ^^^ mix 0 (word 8 bs)) 27 * prime1 + prime4)

/-- A word of four bytes enters the state if that many are left. -/
def quartet (bs : Bytes) (state : UInt64) : UInt64 × Bytes :=
  if 4 ≤ bs.length then
    (rotate (state ^^^ (word 4 bs * prime1)) 23 * prime2 + prime3, bs.drop 4)
  else (state, bs)

/-- A single byte enters the state. -/
def single (state : UInt64) (b : UInt8) : UInt64 :=
  rotate (state ^^^ (b.toUInt64 * prime5)) 11 * prime1

/-- The last scrambling of the state. -/
def avalanche (state : UInt64) : UInt64 :=
  let a := (state ^^^ (state >>> 33)) * prime2
  let b := (a ^^^ (a >>> 29)) * prime3
  b ^^^ (b >>> 32)

/-- The hash of a byte string. -/
def hash (bs : Bytes) : UInt64 :=
  let size := bs.length
  let (state, rest) :=
    if 32 ≤ size then
      let (lanes, rest) := Lanes.stripes (size / 32) bs Lanes.initial
      (lanes.joined, rest)
    else (prime5, bs)
  let (state, rest) := octets (size % 32 / 8) rest (state + UInt64.ofNat size)
  let (state, rest) := quartet rest state
  avalanche (rest.foldl single state)

end ContentVault.XxHash
