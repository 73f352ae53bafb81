import ContentVault.Json.Fields
import ContentVault.Text.Quoted
set_option autoImplicit false

/-!
# Processing status of stored content

Whatever is computed from content after it was stored may be finished, still under
way, or have failed.  The bytes are safely stored in every case, so a failure here is
data and not an error.
-/

namespace ContentVault

/-- How far the processing of stored content has come. -/
inductive Status where
  | ok
  | inProgress
  | failed (code : UInt16) (message : String)
  deriving DecidableEq, Repr

instance : Inhabited Status := ⟨.inProgress⟩

namespace Status

/-- The code that stands for processing under way. -/
def inProgressCode : UInt16 := 202

/-- Processing finished well. -/
def isReady : Status → Bool
  | .ok => true
  | _ => false

/-- Processing is under way. -/
def isInProgress : Status → Bool
  | .inProgress => true
  | _ => false

/-- Code and message of a status other than `ok`. -/
def code? : Status → Option (UInt16 × String)
  | .ok => none
  | .inProgress => some (inProgressCode, "processing file")
  | .failed code message => some (code, message)

/-- The text shown to users. -/
def text : Status → String
  | .ok => "ok"
  | .inProgress => "in progress"
  | .failed code message => s!"failed ({code.toNat}): {message}"

/-- The form shown in diagnostics. -/
def describe : Status → String
  | .ok => "Ok"
  | .inProgress => "InProgress"
  | .failed code message => s!"Failed \x7b code: {code.toNat}, message: {Text.quote message} \x7d"

/-! ## JSON -/

/-- The name of a status, which tags its object. -/
def tag : Status → String
  | .ok => "ok"
  | .inProgress => "in_progress"
  | .failed .. => "failed"

/-- The tagged object of a status. -/
def toJson (s : Status) : Json.Value :=
  match s with
  | .failed code message =>
    .ofMembers [("state", .ofText s.tag), ("code", .ofNat code.toNat),
      ("message", .ofText message)]
  | _ => .ofMembers [("state", .ofText s.tag)]

/-- Reads code and message of a failure. -/
def failedOfJson? (v : Json.Value) : Option Status :=
  match v.fields? ["code", "message"] with
  | some [some code, some message] =>
    match code.natBelow? (UInt16.size), message.text? with
    | some code, some message => some (.failed (UInt16.ofNat code) message)
    | _, _ => none
  | _ => none

/-- Reads the status of a name from what else its object or array holds. -/
def ofTagged? (tag : Json.Value) (content : Json.Value) : Option Status :=
  match tag.text? with
  | some "ok" => unit .ok
  | some "in_progress" => unit .inProgress
  | some "failed" => failedOfJson? content
  | _ => none
where
  /-- A status without fields takes any members but no items. -/
  unit (s : Status) : Option Status :=
    match content with
    | .array (_ :: _) => none
    | _ => some s

/-- Reads a status from an object tagged by `state`, or an array that starts with the name.  What
else it holds may nest at most `levels` deep. -/
def ofJson? (levels : Nat) : Json.Value → Option Status
  | .object members =>
    let others := members.filter fun (k, _) => k != some "state"
    match members.filter fun (k, _) => k == some "state" with
    | [(_, tag)] =>
      if others.all fun (k, v) => k.isSome && v.fits levels then ofTagged? tag (.object others)
      else none
    | _ => none
  | .array (tag :: items) =>
    if items.all (·.fits levels) then ofTagged? tag (.array items) else none
  | _ => none

end Status

end ContentVault
