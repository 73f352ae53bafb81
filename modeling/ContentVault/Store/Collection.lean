import ContentVault.OrderedMap
import ContentVault.Store.EncodedSize
set_option autoImplicit false

/-!
# Collections of documents

A collection is a finite map in key order whose documents may not take more than a
given number of bytes.  Each operation is indivisible; one that fails or declines
leaves the collection as it was.
-/

namespace ContentVault

/-- Keys that can be shown in diagnostics. -/
class Describe (κ : Type) where
  /-- The form shown in diagnostics. -/
  describe : κ → String

instance : Describe UInt32 := ⟨fun n => toString n.toNat⟩

/-- A named collection of documents of at most `limit` bytes each. -/
structure Collection (κ δ : Type) [Ord κ] where
  name : String
  limit : Nat
  records : OrderedMap κ δ

namespace Collection

variable {κ δ : Type} [Ord κ]

/-- A collection without documents. -/
def empty (name : String) (limit : Nat) : Collection κ δ := ⟨name, limit, .empty⟩

/-- Number of documents. -/
def size (c : Collection κ δ) : Nat := c.records.size

/-- There is no document. -/
def isEmpty (c : Collection κ δ) : Bool := c.records.isEmpty

/-- The form shown in diagnostics. -/
def describe (c : Collection κ δ) : String :=
  s!"Collection \x7b name: {Text.quote c.name}, max_record_bytes: {c.limit}, len: {c.size} \x7d"

/-! ## Reading -/

/-- The document at a key. -/
def find (c : Collection κ δ) (key : κ) : Option δ := c.records.get? key

/-- The run of documents from `start` on whose keys `keep` accepts. -/
def scanFrom (c : Collection κ δ) (start : κ) (keep : κ → Bool) : List (κ × δ) :=
  c.records.run start keep

/-! ## Writing -/

variable [EncodedSize δ]

/-- The size of a document, if it is within the limit. -/
def checkSize (c : Collection κ δ) (doc : δ) : Except StoreError Nat :=
  let size := encodedSize doc
  if c.limit < size then .error (.recordTooLarge c.name size c.limit) else .ok size

variable [Std.TransOrd κ]

/-- Puts a document at a key, over the one that is there. -/
def put (c : Collection κ δ) (key : κ) (doc : δ) : Collection κ δ :=
  { c with records := c.records.insert key doc }

/-- Puts a document at a key that has none. -/
def insert [Describe κ] (c : Collection κ δ) (key : κ) (doc : δ) :
    Except StoreError Unit × Collection κ δ :=
  match c.checkSize doc with
  | .error e => (.error e, c)
  | .ok _ =>
    if c.records.contains key then
      (.error (.duplicateKey c.name (Describe.describe key)), c)
    else (.ok (), c.put key doc)

/-- Puts a document at a key that has none or one that `replaceable` accepts; tells whether it
did. -/
def upsertIf (c : Collection κ δ) (key : κ) (doc : δ) (replaceable : δ → Bool) :
    Except StoreError Bool × Collection κ δ :=
  match c.checkSize doc with
  | .error e => (.error e, c)
  | .ok _ => if (c.find key).all replaceable then (.ok true, c.put key doc) else (.ok false, c)

/-- Changes the document at a key if there is one and `accepts` takes it; tells whether it did.
The changed document has to be within the limit. -/
def updateIf (c : Collection κ δ) (key : κ) (accepts : δ → Bool) (change : δ → δ) :
    Except StoreError Bool × Collection κ δ :=
  match c.find key with
  | none => (.ok false, c)
  | some doc =>
    if accepts doc then
      match c.checkSize (change doc) with
      | .error e => (.error e, c)
      | .ok _ => (.ok true, c.put key (change doc))
    else (.ok false, c)

/-- Deletes the document at a key if there is one and `accepts` takes it; tells whether it did. -/
def deleteIf (c : Collection κ δ) (key : κ) (accepts : δ → Bool) : Bool × Collection κ δ :=
  if (c.find key).any accepts then (true, { c with records := c.records.erase key })
  else (false, c)

/-- Deletes the members of a run that `doomed` accepts; tells how many. -/
def deleteRangeWhere (c : Collection κ δ) (start : κ) (keep : κ → Bool) (doomed : κ → δ → Bool) :
    Nat × Collection κ δ :=
  ((c.scanFrom start keep).countP fun e => doomed e.1 e.2,
    { c with records := c.records.eraseRun start keep doomed })

end Collection

end ContentVault
