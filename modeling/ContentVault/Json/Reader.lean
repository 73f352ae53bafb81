import ContentVault.Json.Approximate
import ContentVault.Json.Value
set_option autoImplicit false

/-!
# Reading JSON

The whole text has to be one value, with blanks between its parts.  Strings hold
no raw control characters and numbers have no leading zeros.  Half of a surrogate
pair and a number beyond the range of a double are read and marked, not refused:
whoever looks at the value decides.
-/

namespace ContentVault.Json

/-- Reading from the front of a text: the value read and what follows it. -/
abbrev Read (α : Type) := Option (α × List Char)

/-- Blanks between the parts of a text. -/
def isBlank (c : Char) : Bool := c = ' ' || c = '\n' || c = '\t' || c = '\r'

/-- What follows the blanks. -/
def skipBlank (cs : List Char) : List Char := cs.dropWhile isBlank

/-! ## Strings -/

/-- The number that four hexadecimal digits stand for. -/
def hexWord? (a b c d : Char) : Option Nat :=
  let value? (c : Char) : Option Nat :=
    if '0' ≤ c ∧ c ≤ '9' then some (c.toNat - 48)
    else if 'a' ≤ c ∧ c ≤ 'f' then some (c.toNat - 87)
    else if 'A' ≤ c ∧ c ≤ 'F' then some (c.toNat - 55)
    else none
  match value? a, value? b, value? c, value? d with
  | some a, some b, some c, some d => some (((16 * a + b) * 16 + c) * 16 + d)
  | _, _, _, _ => none

/-- The character that a letter after a backslash stands for. -/
def letterEscape? (c : Char) : Option Char :=
  if c = '"' ∨ c = '\\' ∨ c = '/' then some c
  else if c = 'b' then some (Char.ofNat 8)
  else if c = 'f' then some (Char.ofNat 12)
  else if c = 'n' then some '\n'
  else if c = 'r' then some '\r'
  else if c = 't' then some '\t'
  else none

/-- The number is the first half of a surrogate pair. -/
def isHighSurrogate (n : Nat) : Bool := 0xD800 ≤ n && n ≤ 0xDBFF

/-- The number is the second half of a surrogate pair. -/
def isLowSurrogate (n : Nat) : Bool := 0xDC00 ≤ n && n ≤ 0xDFFF

/-- The character of a surrogate pair. -/
def pairChar (high low : Nat) : Char :=
  Char.ofNat (0x10000 + (high - 0xD800) * 0x400 + (low - 0xDC00))

/-- Reads a string up to its closing quote.  `seen` holds the characters so far, last one
first, and `whole` tells that no half of a surrogate pair stood alone. -/
def readString (seen : List Char) (whole : Bool) : List Char → Read (Option String)
  | [] => none
  | '"' :: rest => some (if whole then some (String.ofList seen.reverse) else none, rest)
  | '\\' :: 'u' :: a :: b :: c :: d :: rest =>
    match hexWord? a b c d with
    | none => none
    | some n =>
      if isLowSurrogate n then readString seen false rest
      else if isHighSurrogate n then
        match rest with
        | '\\' :: 'u' :: e :: f :: g :: h :: rest' =>
          match hexWord? e f g h with
          | none => none
          | some m =>
            if isLowSurrogate m then readString (pairChar n m :: seen) whole rest'
            else readString seen false ('\\' :: 'u' :: e :: f :: g :: h :: rest')
        | rest => readString seen false rest
      else readString (Char.ofNat n :: seen) whole rest
  | '\\' :: c :: rest =>
    match letterEscape? c with
    | none => none
    | some c => readString (c :: seen) whole rest
  | c :: rest => if c = '\\' ∨ c.toNat < 32 then none else readString (c :: seen) whole rest
  termination_by cs => cs.length

/-! ## Numbers -/

/-- The digits in front. -/
def takeDigits (cs : List Char) : List Char × List Char := cs.span Char.isDigit

/-- The integral part: a zero, or digits that do not start with one. -/
def readIntegral (cs : List Char) : Read (List Char) :=
  match cs with
  | '0' :: rest => some (['0'], rest)
  | _ =>
    match takeDigits cs with
    | ([], _) => none
    | (ds, rest) => some (ds, rest)

/-- The digits after a point, if there is a point. -/
def readFraction : List Char → Read (List Char)
  | '.' :: cs =>
    match takeDigits cs with
    | ([], _) => none
    | (ds, rest) => some (ds, rest)
  | cs => some ([], cs)

/-- The exponent and its spelling, if there is one. -/
def readExponent : List Char → Read (Option (Int × List Char))
  | c :: cs =>
    if c = 'e' ∨ c = 'E' then
      let (sign, cs) := match cs with
        | '-' :: cs => (['-'], cs)
        | '+' :: cs => (['+'], cs)
        | cs => ([], cs)
      match takeDigits cs with
      | ([], _) => none
      | (ds, rest) =>
        let n : Int := Decimal.value ds
        some (some (if sign = ['-'] then -n else n, c :: sign ++ ds), rest)
    else some (none, c :: cs)
  | [] => some (none, [])

/-- The number with the given parts. -/
def classify (minus : Bool) (integral fraction : List Char) (exponent : Option (Int × List Char)) :
    Number :=
  let n := Decimal.value integral
  if fraction.isEmpty && exponent.isNone && !minus && n < UInt64.size then .natural n
  else if fraction.isEmpty && exponent.isNone && minus && 0 < n && n ≤ 0x8000000000000000 then
    .negative n
  else
    let spelling := String.ofList ((if minus then ['-'] else []) ++ integral
      ++ (if fraction.isEmpty then [] else '.' :: fraction)
      ++ (exponent.map (·.2)).getD [])
    let approximate := Approximate.ofDigits integral fraction ((exponent.map (·.1)).getD 0)
    if approximate.isTooLarge then .tooLarge spelling else .fractional spelling

/-- Reads a number after its sign. -/
def readUnsigned (minus : Bool) (cs : List Char) : Read Number :=
  match readIntegral cs with
  | none => none
  | some (integral, cs) =>
    match readFraction cs with
    | none => none
    | some (fraction, cs) =>
      match readExponent cs with
      | none => none
      | some (exponent, cs) => some (classify minus integral fraction exponent, cs)

/-- Reads a number. -/
def readNumber : List Char → Read Number
  | '-' :: cs => readUnsigned true cs
  | cs => readUnsigned false cs

/-! ## Values -/

mutual

/-- Reads a value, at most `fuel` steps deep. -/
def readValue : Nat → List Char → Read Value
  | 0, _ => none
  | fuel + 1, cs =>
    match skipBlank cs with
    | 'n' :: 'u' :: 'l' :: 'l' :: rest => some (.null, rest)
    | 't' :: 'r' :: 'u' :: 'e' :: rest => some (.bool true, rest)
    | 'f' :: 'a' :: 'l' :: 's' :: 'e' :: rest => some (.bool false, rest)
    | '"' :: rest => (readString [] true rest).map fun (s, rest) => (.string s, rest)
    | '[' :: rest =>
      match skipBlank rest with
      | ']' :: rest => some (.array [], rest)
      | rest => (readItems fuel rest []).map fun (items, rest) => (.array items, rest)
    | '\x7b' :: rest =>
      match skipBlank rest with
      | '\x7d' :: rest => some (.object [], rest)
      | rest => (readMembers fuel rest []).map fun (members, rest) => (.object members, rest)
    | cs => (readNumber cs).map fun (n, rest) => (.number n, rest)

/-- Reads the items of an array up to its closing bracket; `seen` holds the items so far, last
one first. -/
def readItems : Nat → List Char → List Value → Read (List Value)
  | 0, _, _ => none
  | fuel + 1, cs, seen =>
    match readValue fuel cs with
    | none => none
    | some (v, rest) =>
      match skipBlank rest with
      | ',' :: rest => readItems fuel rest (v :: seen)
      | ']' :: rest => some ((v :: seen).reverse, rest)
      | _ => none

/-- Reads the members of an object up to its closing brace; `seen` holds the members so far,
last one first. -/
def readMembers : Nat → List Char → List (Option String × Value) →
    Read (List (Option String × Value))
  | 0, _, _ => none
  | fuel + 1, cs, seen =>
    match skipBlank cs with
    | '"' :: rest =>
      match readString [] true rest with
      | none => none
      | some (k, rest) =>
        match skipBlank rest with
        | ':' :: rest =>
          match readValue fuel rest with
          | none => none
          | some (v, rest) =>
            match skipBlank rest with
            | ',' :: rest => readMembers fuel rest ((k, v) :: seen)
            | '\x7d' :: rest => some (((k, v) :: seen).reverse, rest)
            | _ => none
        | _ => none
    | _ => none

end

/-- Reads a text that holds one value and nothing else. -/
def read (text : String) : Option Value :=
  let cs := text.toList
  match readValue (2 * cs.length + 2) cs with
  | none => none
  | some (v, rest) => if (skipBlank rest).isEmpty then some v else none

end ContentVault.Json
