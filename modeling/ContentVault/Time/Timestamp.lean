import ContentVault.Text.Blank
import ContentVault.Text.Decimal
set_option autoImplicit false

/-!
# Points in time and their text

A point in time is a count of seconds since 1970 in universal time, with
nanoseconds; a leap second is the second before it with a thousand million more of
them.  It is written in the Internet form, in universal time, with no fraction or one of
three, six or nine digits.  Reading is laxer: any offset, blanks between the parts,
short months and days, and a blank or a small letter in place of the `T`.
-/

namespace ContentVault

/-- A point in time. -/
structure Timestamp where
  seconds : Int
  nanos : Nat
  deriving DecidableEq, Repr, Inhabited

namespace Timestamp

/-! ## The calendar -/

/-- Days from the first of March of year zero to the first of March of a year. -/
def daysToMarch (year : Int) : Int := 365 * year + year / 4 - year / 100 + year / 400

/-- Days from the first of March to the start of the month that comes `m` months later. -/
def monthOffset (m : Nat) : Nat := (153 * m + 2) / 5

/-- Day number of a date, counted from 1970; years are taken to start in March. -/
def dayNumber (year : Int) (month day : Nat) : Int :=
  let shifted := if month ≤ 2 then year - 1 else year
  daysToMarch shifted + monthOffset ((month + 9) % 12) + day - 1 - 719468

/-- The year has a 29th of February. -/
def isLeap (year : Int) : Bool := (year % 4 = 0 && year % 100 != 0) || year % 400 = 0

/-- Number of days of a month. -/
def monthLength (year : Int) (month : Nat) : Nat :=
  if month = 2 then (if isLeap year then 29 else 28)
  else if month = 4 ∨ month = 6 ∨ month = 9 ∨ month = 11 then 30
  else 31

/-- The date of a day number: year, month and day. -/
def dateOf (day : Int) : Int × Nat × Nat :=
  let shifted := day + 719468
  let era := shifted / 146097
  let dayOfEra := (shifted % 146097).toNat
  let yearOfEra :=
    (dayOfEra - dayOfEra / 1460 + dayOfEra / 36524 - dayOfEra / 146096) / 365
  let dayOfYear := dayOfEra - (365 * yearOfEra + yearOfEra / 4 - yearOfEra / 100)
  let m := (5 * dayOfYear + 2) / 153
  let month := if m < 10 then m + 3 else m - 9
  let year := 400 * era + yearOfEra + (if month ≤ 2 then 1 else 0)
  (year, month, dayOfYear - monthOffset m + 1)

/-- The calendar covers these years. -/
def yearInRange (year : Int) : Bool := -262143 ≤ year && year ≤ 262142

/-! ## Writing -/

/-- A number with zeros in front, up to `width` digits. -/
def padded (width n : Nat) : List Char :=
  let digits := Decimal.digits n
  List.replicate (width - digits.length) '0' ++ digits

/-- A year: four digits, with a sign and more of them outside the years 0 to 9999. -/
def yearText (year : Int) : List Char :=
  if year < 0 then '-' :: padded 4 year.natAbs
  else if year ≤ 9999 then padded 4 year.toNat
  else '+' :: padded 4 year.toNat

/-- The fraction of a second in thousandths, millionths or nanoseconds, as it needs. -/
def fractionText (nanos : Nat) : List Char :=
  if nanos = 0 then []
  else if nanos % 1000000 = 0 then '.' :: padded 3 (nanos / 1000000)
  else if nanos % 1000 = 0 then '.' :: padded 6 (nanos / 1000)
  else '.' :: padded 9 nanos

/-- The text of a point in time, in universal time. -/
def text (t : Timestamp) : String :=
  let (year, month, day) := dateOf (t.seconds / 86400)
  let second := (t.seconds % 86400).toNat
  let leap := t.nanos / 1000000000
  String.ofList <|
    yearText year ++ '-' :: padded 2 month ++ '-' :: padded 2 day
      ++ 'T' :: padded 2 (second / 3600) ++ ':' :: padded 2 (second / 60 % 60)
      ++ ':' :: padded 2 (second % 60 + leap) ++ fractionText (t.nanos % 1000000000) ++ ['Z']

/-! ## Reading -/

/-- Reads one to `most` digits. -/
def readDigits (most : Nat) (cs : List Char) : Option (List Char × List Char) :=
  let digits := (cs.take most).takeWhile Char.isDigit
  if digits.isEmpty then none else some (digits, cs.drop digits.length)

/-- Reads a number of one to `most` digits after blanks. -/
def readNumber (most : Nat) (cs : List Char) : Option (Nat × List Char) :=
  (readDigits most (Text.skipBlank cs)).map fun (digits, rest) => (Decimal.value digits, rest)

/-- Reads a year after blanks: up to four digits, or any number of them after a sign. -/
def readYear (cs : List Char) : Option (Int × List Char) :=
  match Text.skipBlank cs with
  | '-' :: rest => (readDigits rest.length rest).map fun (ds, rest) => (-Decimal.value ds, rest)
  | '+' :: rest => (readDigits rest.length rest).map fun (ds, rest) => (Decimal.value ds, rest)
  | rest => (readDigits 4 rest).map fun (ds, rest) => (Decimal.value ds, rest)

/-- Reads a separator after blanks. -/
def readMark (mark : Char) (cs : List Char) : Option (List Char) :=
  match Text.skipBlank cs with
  | c :: rest => if c = mark then some rest else none
  | [] => none

/-- Reads a fraction of a second, if there is one; digits after the ninth are passed over. -/
def readFraction : List Char → Option (Nat × List Char)
  | '.' :: rest =>
    (readDigits 9 rest).map fun (digits, rest) =>
      (Decimal.value digits * Nat.pow 10 (9 - digits.length), rest.dropWhile Char.isDigit)
  | cs => some (0, cs)

/-- The number that two digits stand for. -/
def twoDigits? (a b : Char) : Option Nat :=
  if a.isDigit ∧ b.isDigit then some (Decimal.value [a, b]) else none

/-- Reads hours and minutes of an offset after its sign, in seconds. -/
def readOffsetSize : List Char → Option (Nat × List Char)
  | a :: b :: rest =>
    match twoDigits? a b with
    | none => none
    | some hours =>
      match rest.dropWhile fun c => c = ':' || Text.isBlank c with
      | c :: d :: rest =>
        match twoDigits? c d with
        | none => none
        | some minutes => if minutes < 60 then some (hours * 3600 + minutes * 60, rest) else none
      | _ => none
  | _ => none

/-- Reads the offset from universal time, in seconds. -/
def readOffset (cs : List Char) : Option (Int × List Char) :=
  match Text.skipBlank cs with
  | u :: t :: c :: rest =>
    if u.toUpper = 'U' ∧ t.toUpper = 'T' ∧ c.toUpper = 'C' then some (0, rest)
    else readSigned (u :: t :: c :: rest)
  | cs => readSigned cs
where
  /-- Reads the letter for universal time, or a sign and a size. -/
  readSigned : List Char → Option (Int × List Char)
    | c :: rest =>
      if c = 'Z' ∨ c = 'z' then some (0, rest)
      else if c = '+' then (readOffsetSize rest).map fun (n, rest) => ((n : Int), rest)
      else if c = '-' ∨ c = '−' then (readOffsetSize rest).map fun (n, rest) => (-(n : Int), rest)
      else none
    | [] => none

/-- The point in time with the given parts, if they name one. -/
def ofParts? (year : Int) (month day hour minute second nanos : Nat) (offset : Int) :
    Option Timestamp :=
  if yearInRange year ∧ 1 ≤ month ∧ month ≤ 12 ∧ 1 ≤ day ∧ day ≤ monthLength year month
      ∧ hour < 24 ∧ minute < 60 ∧ second ≤ 60 ∧ offset.natAbs < 86400 then
    let (second, leap) := if second = 60 then (59, 1000000000) else (second, 0)
    let seconds := dayNumber year month day * 86400 + (hour * 3600 + minute * 60 + second : Nat)
      - offset
    if yearInRange (dateOf (seconds / 86400)).1 then some ⟨seconds, nanos + leap⟩ else none
  else none

/-- Reads the text of a point in time. -/
def ofText? (s : String) : Option Timestamp := do
  let (year, cs) ← readYear s.toList
  let cs ← readMark '-' cs
  let (month, cs) ← readNumber 2 cs
  let cs ← readMark '-' cs
  let (day, cs) ← readNumber 2 cs
  let cs ← match cs with
    | c :: rest => if c = 'T' ∨ c = 't' ∨ c = ' ' then some rest else none
    | [] => none
  let (hour, cs) ← readNumber 2 cs
  let cs ← readMark ':' cs
  let (minute, cs) ← readNumber 2 cs
  let cs ← readMark ':' cs
  let (second, cs) ← readNumber 2 cs
  let (nanos, cs) ← readFraction cs
  let (offset, cs) ← readOffset cs
  if (Text.skipBlank cs).isEmpty then
    ofParts? year month day hour minute second nanos offset
  else none

end Timestamp

end ContentVault
