set_option autoImplicit false

/-!
# TOML tables

A document is a tree of tables.  A table may be opened by a header, be implied by the
header of a table inside it, or come about by dotted keys, and what may still be added to
it depends on which of these it was: a header opens a table once, dotted keys do not reach
into a table that a header opened, and a table between braces is complete as it stands.
-/

namespace ContentVault.Toml

/-- How a table came about. -/
inductive Origin where
  | header
  | implied
  | dotted
  deriving DecidableEq, Repr, Inhabited

/-- A value.  Floats and times are kept as they are spelled. -/
inductive Value where
  | text (s : String)
  | integer (n : Int)
  | float (spelling : String)
  | boolean (b : Bool)
  | time (spelling : String)
  | array (items : List Value)
  /-- A table between braces. -/
  | braced (members : List (String × Value))
  | table (origin : Origin) (members : List (String × Value))
  /-- An array of tables, the last one first. -/
  | tables (items : List (List (String × Value)))
  deriving Inhabited

/-- The members of a table. -/
abbrev Members := List (String × Value)

namespace Members

/-- The value of a key. -/
def get? (ms : Members) (key : String) : Option Value := (ms.find? fun m => m.1 == key).map (·.2)

/-- The table with another value at a key. -/
def set (ms : Members) (key : String) (v : Value) : Members :=
  match ms with
  | [] => [(key, v)]
  | m :: ms => if m.1 == key then (key, v) :: ms else m :: set ms key v

/-- Changes the table at the end of a path, making the tables on the way that are missing.
Dotted keys do not pass through a table that a header opened. -/
def alter (dotted : Bool) (change : Origin → Members → Option Members) :
    List String → Origin → Members → Option Members
  | [], origin, ms => change origin ms
  | key :: path, _, ms =>
    match ms.get? key with
    | none =>
      let origin := if dotted then .dotted else .implied
      (alter dotted change path origin []).map fun child => ms.set key (.table origin child)
    | some (.table origin child) =>
      if dotted && origin == .header then none
      else
        (alter dotted change path origin child).map fun child => ms.set key (.table origin child)
    | some (.tables (last :: earlier)) =>
      (alter dotted change path .header last).map fun last => ms.set key (.tables (last :: earlier))
    | some _ => none

/-- Gives a value to a new key at the end of a path of dotted keys.  Tables reached by dotted keys
are open to dotted keys only. -/
def define (path : List String) (key : String) (v : Value) (ms : Members) : Option Members :=
  let add (origin : Origin) (ms : Members) : Option Members :=
    if (origin == .dotted) == path.isEmpty then none
    else if (ms.get? key).isSome then none
    else some (ms.set key v)
  alter true add path .header ms

/-- Opens a table by its header. -/
def openTable (path : List String) (key : String) (ms : Members) : Option Members :=
  let enter (_ : Origin) (ms : Members) : Option Members :=
    match ms.get? key with
    | none => some (ms.set key (.table .header []))
    | some (.table .implied child) => some (ms.set key (.table .header child))
    | some _ => none
  alter false enter path .header ms

/-- Adds a table to an array of tables. -/
def pushTable (path : List String) (key : String) (ms : Members) : Option Members :=
  let push (_ : Origin) (ms : Members) : Option Members :=
    match ms.get? key with
    | none => some (ms.set key (.tables [[]]))
    | some (.tables items) => some (ms.set key (.tables ([] :: items)))
    | some _ => none
  alter false push path .header ms

end Members

end ContentVault.Toml
