import ContentVault.Json.Value
set_option autoImplicit false

/-!
# Taking records out of JSON values

A record is read from an object by the names of its fields, whatever their order,
or from an array by their places.  Unknown members are passed over, a known field
given twice is an error.
-/

namespace ContentVault.Json.Value

/-- The values of the named fields, each absent if it is not given. -/
def fields? (names : List String) : Value → Option (List (Option Value))
  | .object members =>
    if members.all (fun (k, _) => k.isSome)
        && names.all (fun name => (members.countP fun (k, _) => k == some name) ≤ 1) then
      some (names.map fun name => (members.find? fun (k, _) => k == some name).map (·.2))
    else none
  | .array items =>
    if items.length ≤ names.length then
      some (items.map some ++ List.replicate (names.length - items.length) none)
    else none
  | _ => none

/-- A whole number below `bound`. -/
def natBelow? (bound : Nat) : Value → Option Nat
  | .number (.natural n) => if n < bound then some n else none
  | _ => none

/-- A whole number of at most 32 bits with sign. -/
def int32? : Value → Option Int
  | .number (.natural n) => if n < 0x80000000 then some n else none
  | .number (.negative n) => if n ≤ 0x80000000 then some (-n) else none
  | _ => none

/-- The text of a string. -/
def text? : Value → Option String
  | .string s => s
  | _ => none

/-- The byte string written as an array of numbers. -/
def bytes? : Value → Option (List UInt8)
  | .array items => items.mapM fun v => (v.natBelow? 256).map UInt8.ofNat
  | _ => none

end ContentVault.Json.Value
