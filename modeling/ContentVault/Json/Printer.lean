import ContentVault.Json.Value
import ContentVault.Text.Decimal
import ContentVault.Text.Quoted
set_option autoImplicit false

/-!
# Writing JSON

The compact form: no blanks, members in order, non-ASCII characters as they are.
Inside a string the quote, the backslash and the control characters are escaped,
by a letter where there is one and by four hexadecimal digits otherwise.  A string
that could not be taken in is written as an empty one.
-/

namespace ContentVault.Json

/-- One character of a string. -/
def escape (c : Char) : List Char :=
  if c = '"' then ['\\', '"']
  else if c = '\\' then ['\\', '\\']
  else if c.toNat = 8 then ['\\', 'b']
  else if c.toNat = 9 then ['\\', 't']
  else if c.toNat = 10 then ['\\', 'n']
  else if c.toNat = 12 then ['\\', 'f']
  else if c.toNat = 13 then ['\\', 'r']
  else if c.toNat < 32 then ['\\', 'u'] ++ Text.hexPadded 4 c.toNat
  else [c]

/-- A string between quotes. -/
def printString (s : String) : List Char := '"' :: s.toList.flatMap escape ++ ['"']

/-- A number. -/
def printNumber : Number → List Char
  | .natural n => Decimal.digits n
  | .negative n => '-' :: Decimal.digits n
  | .fractional spelling => spelling.toList
  | .tooLarge spelling => spelling.toList

/-- Items with commas between them. -/
def separated : List (List Char) → List Char
  | [] => []
  | [item] => item
  | item :: rest => item ++ ',' :: separated rest

mutual

/-- A value in compact form. -/
def printValue : Value → List Char
  | .null => "null".toList
  | .bool true => "true".toList
  | .bool false => "false".toList
  | .number n => printNumber n
  | .string s => printString (s.getD "")
  | .array items => '[' :: separated (printItems items) ++ [']']
  | .object members => '\x7b' :: separated (printMembers members) ++ ['\x7d']

/-- The items of an array, each in compact form. -/
def printItems : List Value → List (List Char)
  | [] => []
  | v :: vs => printValue v :: printItems vs

/-- The members of an object, each in compact form. -/
def printMembers : List (Option String × Value) → List (List Char)
  | [] => []
  | (k, v) :: ms => (printString (k.getD "") ++ ':' :: printValue v) :: printMembers ms

end

/-- The compact text of a value. -/
def Value.text (v : Value) : String := String.ofList (printValue v)

end ContentVault.Json
