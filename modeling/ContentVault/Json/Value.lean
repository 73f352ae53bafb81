set_option autoImplicit false

/-!
# JSON values

A value as it stands in a text: an object keeps its members in order, repeated
ones included, and a number or string that cannot be taken in is kept as such,
because it does no harm where its value is not looked at.
-/

namespace ContentVault.Json

/-- A number by the kind of reader it suits. -/
inductive Number where
  /-- No sign, fraction or exponent, below 2^64. -/
  | natural (n : Nat)
  /-- The number `-n`, with `0 < n ≤ 2^63`, without fraction or exponent. -/
  | negative (n : Nat)
  /-- Any other number within the range of a double, as it is spelled. -/
  | fractional (spelling : String)
  /-- A number beyond the range of a double, as it is spelled. -/
  | tooLarge (spelling : String)
  deriving DecidableEq, Repr, Inhabited

/-- A JSON value.  A string is absent if half of a surrogate pair stands alone in it. -/
inductive Value where
  | null
  | bool (b : Bool)
  | number (n : Number)
  | string (s : Option String)
  | array (items : List Value)
  | object (members : List (Option String × Value))
  deriving Inhabited

/-- How deep a value may nest to be taken in as a whole. -/
def maxLevels : Nat := 127

namespace Value

/-- A string value. -/
def ofText (s : String) : Value := .string (some s)

/-- A number value. -/
def ofNat (n : Nat) : Value := .number (.natural n)

/-- A byte string as an array of numbers. -/
def ofBytes (bs : List UInt8) : Value := .array (bs.map fun b => ofNat b.toNat)

/-- An object with the given members. -/
def ofMembers (members : List (String × Value)) : Value :=
  .object (members.map fun (k, v) => (some k, v))

/-- The value nests at most `levels` deep and every string and number in it can be taken in. -/
def fits : Nat → Value → Bool
  | _, .null => true
  | _, .bool _ => true
  | _, .number (.tooLarge _) => false
  | _, .number _ => true
  | _, .string s => s.isSome
  | 0, .array _ => false
  | levels + 1, .array items => items.all (fits levels)
  | 0, .object _ => false
  | levels + 1, .object members => members.all fun (k, v) => k.isSome && fits levels v

end Value

end ContentVault.Json
