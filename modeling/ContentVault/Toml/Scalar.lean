import ContentVault.Json.Reader
import ContentVault.Text.Double
import ContentVault.Time.Timestamp
import ContentVault.Toml.Value
set_option autoImplicit false

/-!
# Texts, numbers and times in TOML

The values that hold no others.  Numbers may have single underscores between their digits
and no zeros in front, and an integer has to fit into 64 bits with sign.  A time is a date,
a time of day, or both with or without an offset.
-/

namespace ContentVault.Toml

/-- Reading from the front of a text: the value read and what follows it. -/
abbrev Read (α : Type) := Option (α × List Char)

/-! ## Blanks, comments and line ends -/

/-- Blanks within a line. -/
def isBlank (c : Char) : Bool := c = ' ' || c = '\t'

/-- What follows the blanks of the line. -/
def skipBlank (cs : List Char) : List Char := cs.dropWhile isBlank

/-- A character that may stand in a comment or a text: no control character but the tab. -/
def isPlain (c : Char) : Bool := c = '\t' || (32 ≤ c.toNat && c.toNat != 127)

/-- What follows a line end; the end of the text is one. -/
def endLine : List Char → Option (List Char)
  | [] => some []
  | '\n' :: rest => some rest
  | '\r' :: '\n' :: rest => some rest
  | _ => none

/-- What follows the comment, if there is one. -/
def skipComment : List Char → List Char
  | '#' :: rest => rest.dropWhile isPlain
  | cs => cs

/-- What follows the rest of a line on which nothing but blanks and a comment may stand. -/
def finishLine (cs : List Char) : Option (List Char) := endLine (skipComment (skipBlank cs))

/-- What follows blanks, line ends and comments; a comment has to end with its line. -/
def skipLines (comment : Bool) : List Char → Option (List Char)
  | [] => if comment then none else some []
  | '\n' :: rest => skipLines false rest
  | '\r' :: '\n' :: rest => skipLines false rest
  | c :: rest =>
    if comment then (if isPlain c then skipLines true rest else none)
    else if isBlank c then skipLines false rest
    else if c = '#' then skipLines true rest
    else some (c :: rest)

/-! ## Texts -/

/-- The character that a letter after a backslash stands for. -/
def letterEscape? (c : Char) : Option Char :=
  if c = '"' ∨ c = '\\' then some c
  else if c = 'b' then some (Char.ofNat 8)
  else if c = 't' then some '\t'
  else if c = 'n' then some '\n'
  else if c = 'f' then some (Char.ofNat 12)
  else if c = 'r' then some '\r'
  else none

/-- The character of a number that is one. -/
def scalar? (n : Nat) : Option Char := if n.isValidChar then some (Char.ofNat n) else none

/-- The character that four hexadecimal digits stand for. -/
def shortEscape? (a b c d : Char) : Option Char := (Json.hexWord? a b c d).bind scalar?

/-- The character that eight hexadecimal digits stand for. -/
def longEscape? (a b c d e f g h : Char) : Option Char :=
  match Json.hexWord? a b c d, Json.hexWord? e f g h with
  | some high, some low => scalar? (65536 * high + low)
  | _, _ => none

/-- Reads a text between double quotes up to the closing one; `seen` holds the characters so far,
last one first. -/
def readBasic (seen : List Char) : List Char → Read String
  | [] => none
  | '"' :: rest => some (String.ofList seen.reverse, rest)
  | '\\' :: 'u' :: a :: b :: c :: d :: rest =>
    match shortEscape? a b c d with
    | none => none
    | some c => readBasic (c :: seen) rest
  | '\\' :: 'U' :: a :: b :: c :: d :: e :: f :: g :: h :: rest =>
    match longEscape? a b c d e f g h with
    | none => none
    | some c => readBasic (c :: seen) rest
  | '\\' :: c :: rest =>
    match letterEscape? c with
    | none => none
    | some c => readBasic (c :: seen) rest
  | c :: rest => if isPlain c && c != '\\' then readBasic (c :: seen) rest else none

/-- Reads a text between single quotes, in which there are no escapes. -/
def readLiteral (seen : List Char) : List Char → Read String
  | [] => none
  | '\'' :: rest => some (String.ofList seen.reverse, rest)
  | c :: rest => if isPlain c then readLiteral (c :: seen) rest else none

/-- Three quotes in front close a text of several lines; one or two more before them belong to
it. -/
def closing? (quote : Char) (cs : List Char) : Option (List Char × List Char) :=
  let run := cs.takeWhile (· = quote)
  if run.length < 3 then none
  else
    let inside := min (run.length - 3) 2
    some (List.replicate inside quote, cs.drop (inside + 3))

/-- What follows a line end and all blanks and line ends after it, if there is a line end after
blanks. -/
def foldLine? (cs : List Char) : Option (List Char) :=
  let rec skip : List Char → List Char
    | '\n' :: rest => skip rest
    | '\r' :: '\n' :: rest => skip rest
    | c :: rest => if isBlank c then skip rest else c :: rest
    | [] => []
  match skipBlank cs with
  | '\n' :: rest => some (skip rest)
  | '\r' :: '\n' :: rest => some (skip rest)
  | _ => none

/-- Reads a text of several lines between triple double quotes; at most `fuel` steps. -/
def readLongBasic : Nat → List Char → List Char → Read String
  | 0, _, _ => none
  | fuel + 1, seen, cs =>
    match closing? '"' cs with
    | some (inside, rest) => some (String.ofList (seen.reverse ++ inside), rest)
    | none =>
      match cs with
      | [] => none
      | '\n' :: rest => readLongBasic fuel ('\n' :: seen) rest
      | '\r' :: '\n' :: rest => readLongBasic fuel ('\n' :: seen) rest
      | '\\' :: 'u' :: a :: b :: c :: d :: rest =>
        match shortEscape? a b c d with
        | none => none
        | some c => readLongBasic fuel (c :: seen) rest
      | '\\' :: 'U' :: a :: b :: c :: d :: e :: f :: g :: h :: rest =>
        match longEscape? a b c d e f g h with
        | none => none
        | some c => readLongBasic fuel (c :: seen) rest
      | '\\' :: rest =>
        match foldLine? rest with
        | some rest => readLongBasic fuel seen rest
        | none =>
          match rest with
          | [] => none
          | c :: rest =>
            match letterEscape? c with
            | none => none
            | some c => readLongBasic fuel (c :: seen) rest
      | c :: rest => if isPlain c then readLongBasic fuel (c :: seen) rest else none

/-- Reads a text of several lines between triple single quotes; at most `fuel` steps. -/
def readLongLiteral : Nat → List Char → List Char → Read String
  | 0, _, _ => none
  | fuel + 1, seen, cs =>
    match closing? '\'' cs with
    | some (inside, rest) => some (String.ofList (seen.reverse ++ inside), rest)
    | none =>
      match cs with
      | [] => none
      | '\n' :: rest => readLongLiteral fuel ('\n' :: seen) rest
      | '\r' :: '\n' :: rest => readLongLiteral fuel ('\n' :: seen) rest
      | c :: rest => if isPlain c then readLongLiteral fuel (c :: seen) rest else none

/-- What follows a line end in front, if there is one. -/
def dropLineEnd : List Char → List Char
  | '\n' :: rest => rest
  | '\r' :: '\n' :: rest => rest
  | cs => cs

/-- Reads a text of one of the four kinds. -/
def readText : List Char → Read String
  | '"' :: '"' :: '"' :: rest => readLongBasic (rest.length + 1) [] (dropLineEnd rest)
  | '"' :: rest => readBasic [] rest
  | '\'' :: '\'' :: '\'' :: rest => readLongLiteral (rest.length + 1) [] (dropLineEnd rest)
  | '\'' :: rest => readLiteral [] rest
  | _ => none

/-! ## Numbers -/

/-- Reads the rest of a run of digits with single underscores between them; `seen` holds the
digits so far, last one first. -/
def moreDigits (isDigit : Char → Bool) (seen : List Char) : List Char → Read (List Char)
  | '_' :: c :: rest => if isDigit c then moreDigits isDigit (c :: seen) rest else none
  | ['_'] => none
  | c :: rest =>
    if isDigit c then moreDigits isDigit (c :: seen) rest else some (seen.reverse, c :: rest)
  | [] => some (seen.reverse, [])

/-- Reads a run of digits, zeros in front included. -/
def readDigits (isDigit : Char → Bool) : List Char → Read (List Char)
  | c :: rest => if isDigit c then moreDigits isDigit [c] rest else none
  | [] => none

/-- Reads a whole number without sign: a zero, or digits that do not start with one. -/
def readWhole : List Char → Read (List Char)
  | '0' :: rest => some (['0'], rest)
  | cs => readDigits Char.isDigit cs

/-- Takes a sign off; tells whether it is a minus. -/
def takeSign : List Char → Bool × List Char
  | '-' :: rest => (true, rest)
  | '+' :: rest => (false, rest)
  | cs => (false, cs)

/-- The number as an integer of 64 bits with sign. -/
def integer? (minus : Bool) (n : Nat) : Option Int :=
  if minus then (if n ≤ 0x8000000000000000 then some (-n) else none)
  else if n < 0x8000000000000000 then some n
  else none

/-- The value of a digit up to fifteen. -/
def hexValue (c : Char) : Nat :=
  if c.isDigit then c.toNat - 48 else if 'a' ≤ c then c.toNat - 87 else c.toNat - 55

/-- Reads an integer after its mark `0x`, `0o` or `0b`. -/
def readRadix (base : Nat) (cs : List Char) : Read Int :=
  let isDigit (c : Char) : Bool :=
    (c.isDigit || ('a' ≤ c && c ≤ 'f') || ('A' ≤ c && c ≤ 'F')) && hexValue c < base
  match readDigits isDigit cs with
  | none => none
  | some (digits, rest) =>
    (integer? false (digits.foldl (fun n c => base * n + hexValue c) 0)).map fun n => (n, rest)

/-- Reads a decimal integer. -/
def readDecimal (cs : List Char) : Read Int :=
  let (minus, cs) := takeSign cs
  match readWhole cs with
  | none => none
  | some (digits, rest) => (integer? minus (Decimal.value digits)).map fun n => (n, rest)

/-- Reads an integer. -/
def readInteger : List Char → Read Int
  | '0' :: 'x' :: rest => readRadix 16 rest
  | '0' :: 'o' :: rest => readRadix 8 rest
  | '0' :: 'b' :: rest => readRadix 2 rest
  | cs => readDecimal cs

/-- Reads an exponent, which may have zeros in front. -/
def readExponent : List Char → Read Int
  | c :: cs =>
    if c = 'e' ∨ c = 'E' then
      let (minus, cs) := takeSign cs
      match readDigits Char.isDigit cs with
      | none => none
      | some (digits, rest) =>
        let n : Int := Decimal.value digits
        some (if minus then -n else n, rest)
    else none
  | [] => none

/-- Reads the digits after a point. -/
def readFraction : List Char → Read (List Char)
  | '.' :: cs => readDigits Char.isDigit cs
  | _ => none

/-- Reads what makes a number a float after its integral part: a fraction, an exponent or both. -/
def readFloatEnd (cs : List Char) : Read (List Char × Int) :=
  match readFraction cs with
  | none => (readExponent cs).map fun (e, rest) => (([], e), rest)
  | some (fraction, cs) =>
    match cs with
    | 'e' :: _ => (readExponent cs).map fun (e, rest) => ((fraction, e), rest)
    | 'E' :: _ => (readExponent cs).map fun (e, rest) => ((fraction, e), rest)
    | _ => some ((fraction, 0), cs)

/-- What follows a float; one beyond the largest double is refused unless it is negative. -/
def skipFloat (cs : List Char) : Option (List Char) :=
  let (minus, unsigned) := takeSign cs
  match unsigned with
  | 'i' :: 'n' :: 'f' :: rest => some rest
  | 'n' :: 'a' :: 'n' :: rest => some rest
  | _ =>
    match readWhole unsigned with
    | none => none
    | some (whole, rest) =>
      match readFloatEnd rest with
      | none => none
      | some ((fraction, exponent), rest) =>
        if !minus && Double.isBeyond (whole ++ fraction) (exponent - fraction.length) then none
        else some rest

/-! ## Times -/

/-- Reads a number of exactly `width` digits. -/
def readFixed (width : Nat) (cs : List Char) : Read Nat :=
  let digits := cs.take width
  if digits.length = width ∧ digits.all Char.isDigit then
    some (Decimal.value digits, cs.drop width)
  else none

/-- What follows a given character. -/
def skipMark (mark : Char) : List Char → Option (List Char)
  | c :: rest => if c = mark then some rest else none
  | [] => none

/-- What follows a date. -/
def skipDate (cs : List Char) : Option (List Char) := do
  let (year, cs) ← readFixed 4 cs
  let cs ← skipMark '-' cs
  let (month, cs) ← readFixed 2 cs
  let cs ← skipMark '-' cs
  let (day, cs) ← readFixed 2 cs
  if 1 ≤ month ∧ month ≤ 12 ∧ 1 ≤ day ∧ day ≤ Timestamp.monthLength year month then some cs
  else none

/-- What follows hours and minutes. -/
def skipHourMinute (cs : List Char) : Option (List Char) := do
  let (hour, cs) ← readFixed 2 cs
  let cs ← skipMark ':' cs
  let (minute, cs) ← readFixed 2 cs
  if hour < 24 ∧ minute < 60 then some cs else none

/-- What follows a time of day. -/
def skipTime (cs : List Char) : Option (List Char) := do
  let cs ← skipHourMinute cs
  let cs ← skipMark ':' cs
  let (second, cs) ← readFixed 2 cs
  if 60 < second then none
  else
    match cs with
    | '.' :: rest =>
      match rest.takeWhile Char.isDigit with
      | [] => some cs
      | digits => some (rest.drop digits.length)
    | _ => some cs

/-- What follows an offset, if there is one. -/
def skipOffset : List Char → Option (List Char)
  | c :: rest =>
    if c = 'Z' ∨ c = 'z' then some rest
    else if c = '+' ∨ c = '-' then skipHourMinute rest
    else some (c :: rest)
  | [] => some []

/-- What follows a date, a time of day or both. -/
def skipDateTime (cs : List Char) : Option (List Char) :=
  match skipDate cs with
  | none => skipTime cs
  | some rest =>
    match rest with
    | c :: cs =>
      if c = 'T' ∨ c = 't' ∨ c = ' ' then
        match skipTime cs with
        | none => some rest
        | some rest => skipOffset rest
      else some rest
    | [] => some []

/-! ## Values without parts -/

/-- The characters in front of what follows. -/
def spelling (cs rest : List Char) : String := String.ofList (cs.take (cs.length - rest.length))

/-- Reads a time or a number. -/
def readNumeric (cs : List Char) : Read Value :=
  match skipDateTime cs with
  | some rest => some (.time (spelling cs rest), rest)
  | none =>
    match skipFloat cs with
    | some rest => some (.float (spelling cs rest), rest)
    | none => (readInteger cs).map fun (n, rest) => (.integer n, rest)

/-- Reads a value that holds no others. -/
def readScalar : List Char → Read Value
  | 't' :: 'r' :: 'u' :: 'e' :: rest => some (.boolean true, rest)
  | 'f' :: 'a' :: 'l' :: 's' :: 'e' :: rest => some (.boolean false, rest)
  | '"' :: rest => (readText ('"' :: rest)).map fun (s, rest) => (.text s, rest)
  | '\'' :: rest => (readText ('\'' :: rest)).map fun (s, rest) => (.text s, rest)
  | cs => readNumeric cs

end ContentVault.Toml
