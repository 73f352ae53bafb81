import ContentVault.Toml.Scalar
set_option autoImplicit false

/-!
# Reading TOML documents

A document is a sequence of lines: a key and its value, the header of a table, the header
of a further table in an array of tables, a comment, or nothing.  Keys may be dotted and
quoted.  A value may hold others in brackets or braces; neither values nor keys nest deeper
than a fixed number of levels.
-/

namespace ContentVault.Toml

/-- How deep values and dotted keys may nest. -/
def maxLevels : Nat := 79

/-! ## Keys -/

/-- A character of a key without quotes. -/
def isKeyChar (c : Char) : Bool := c.isAlphanum || c = '_' || c = '-'

/-- Reads one part of a key. -/
def readKeyPart : List Char → Read String
  | '"' :: rest => readBasic [] rest
  | '\'' :: rest => readLiteral [] rest
  | cs =>
    match cs.takeWhile isKeyChar with
    | [] => none
    | name => some (String.ofList name, cs.dropWhile isKeyChar)

/-- Reads a key of at most so many parts: those before the last one, and the last one. -/
def readKey : Nat → List Char → Read (List String × String)
  | 0, _ => none
  | parts + 1, cs =>
    match readKeyPart (skipBlank cs) with
    | none => none
    | some (name, rest) =>
      match skipBlank rest with
      | '.' :: rest =>
        (readKey parts rest).map fun ((path, last), rest) => ((name :: path, last), rest)
      | rest => some (([], name), rest)

/-- Reads a key, the equals sign after it, and a value. -/
def readPair (readValue : List Char → Read Value) (cs : List Char) :
    Read ((List String × String) × Value) :=
  match readKey maxLevels cs with
  | some (key, '=' :: rest) =>
    (readValue (skipBlank rest)).map fun (v, rest) => ((key, v), rest)
  | _ => none

/-! ## Values -/

/-- Reads the items of an array up to its closing bracket, a comma after the last one allowed;
`seen` holds the items so far, last one first. -/
def readItems (readValue : List Char → Read Value) :
    Nat → List Char → List Value → Read (List Value)
  | 0, _, _ => none
  | fuel + 1, cs, seen =>
    match skipLines false cs with
    | none => none
    | some (']' :: rest) => some (seen.reverse, rest)
    | some cs =>
      match readValue cs with
      | none => none
      | some (v, rest) =>
        match skipLines false rest with
        | some (',' :: rest) => readItems readValue fuel rest (v :: seen)
        | some (']' :: rest) => some ((v :: seen).reverse, rest)
        | _ => none

/-- Reads the members of a table up to its closing brace; there is at least one. -/
def readMembers (readValue : List Char → Read Value) : Nat → List Char → Members → Read Members
  | 0, _, _ => none
  | fuel + 1, cs, ms =>
    match readPair readValue cs with
    | none => none
    | some (((path, key), v), rest) =>
      match ms.define path key v with
      | none => none
      | some ms =>
        match skipBlank rest with
        | ',' :: rest => readMembers readValue fuel rest ms
        | '\x7d' :: rest => some (ms, rest)
        | _ => none

/-- Reads a value that nests at most so deep. -/
def readValue : (levels : Nat) → List Char → Read Value
  | 0, '[' :: _ => none
  | 0, '\x7b' :: _ => none
  | levels + 1, '[' :: rest =>
    (readItems (readValue levels) (rest.length + 1) rest []).map fun (items, rest) =>
      (.array items, rest)
  | levels + 1, '\x7b' :: rest =>
    match skipBlank rest with
    | '\x7d' :: rest => some (.braced [], rest)
    | rest =>
      (readMembers (readValue levels) (rest.length + 1) rest []).map fun (ms, rest) =>
        (.braced ms, rest)
  | _, cs => readScalar cs

/-! ## Documents -/

/-- What was read of a document: its tables, and the path of the table that is open. -/
structure Document where
  root : Members
  opened : List String
  deriving Inhabited

namespace Document

/-- Nothing was read. -/
def empty : Document := ⟨[], []⟩

/-- Gives a value to a key of the table that is open. -/
def define (d : Document) (path : List String) (key : String) (v : Value) : Option Document :=
  (Members.alter false (fun _ ms => ms.define path key v) d.opened .header d.root).map fun root =>
    { d with root }

/-- Opens a table. -/
def openTable (d : Document) (path : List String) (key : String) : Option Document :=
  (d.root.openTable path key).map fun root => ⟨root, path ++ [key]⟩

/-- Opens a further table of an array of tables. -/
def pushTable (d : Document) (path : List String) (key : String) : Option Document :=
  (d.root.pushTable path key).map fun root => ⟨root, path ++ [key]⟩

end Document

/-- Reads what stands on one line; a value may go on over several. -/
def readLine (d : Document) : List Char → Read Document
  | '#' :: rest => (endLine (rest.dropWhile isPlain)).map fun rest => (d, rest)
  | '\n' :: rest => some (d, rest)
  | '\r' :: '\n' :: rest => some (d, rest)
  | '[' :: '[' :: rest =>
    match readKey maxLevels rest with
    | some ((path, key), ']' :: ']' :: rest) =>
      match d.pushTable path key, finishLine rest with
      | some d, some rest => some (d, rest)
      | _, _ => none
    | _ => none
  | '[' :: rest =>
    match readKey maxLevels rest with
    | some ((path, key), ']' :: rest) =>
      match d.openTable path key, finishLine rest with
      | some d, some rest => some (d, rest)
      | _, _ => none
    | _ => none
  | cs =>
    match readPair (readValue maxLevels) cs with
    | none => none
    | some (((path, key), v), rest) =>
      match d.define path key v, finishLine rest with
      | some d, some rest => some (d, rest)
      | _, _ => none

/-- Reads the lines of a document; at most `fuel` of them. -/
def readLines : (fuel : Nat) → Document → List Char → Option Document
  | 0, _, _ => none
  | fuel + 1, d, cs =>
    match skipBlank cs with
    | [] => some d
    | cs =>
      match readLine d cs with
      | none => none
      | some (d, rest) => readLines fuel d rest

/-- Reads a document; a byte order mark in front is passed over. -/
def read (text : String) : Option Members :=
  let cs := match text.toList with
    | '\uFEFF' :: rest => rest
    | cs => cs
  (readLines (cs.length + 1) .empty cs).map (·.root)

end ContentVault.Toml
