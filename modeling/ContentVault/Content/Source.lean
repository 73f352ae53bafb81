import ContentVault.Bytes.Basic
import ContentVault.Content.Error
set_option autoImplicit false

/-!
# Sources of content

A source answers each read with some bytes, with an interruption, after which it is
asked again, with the end, or with a failure.  What follows the end or a failure is
never asked for; a source that has run dry is at its end.
-/

namespace ContentVault

/-- The answer to one read. -/
inductive ReadResult where
  | bytes (data : Bytes)
  | interrupted
  | endOfFile
  | failed (reason : String)
  deriving DecidableEq, Repr, Inhabited

namespace ReadResult

/-- The most that one read delivers. -/
def maxRead : Nat := 65536

/-- The answers to the reads that deliver a byte string, in pieces of at most 64 KiB. -/
def deliver (data : Bytes) : List ReadResult :=
  let rec go : Nat → Bytes → List ReadResult
    | 0, _ => []
    | count + 1, data => .bytes (data.take maxRead) :: go count (data.drop maxRead)
  go ((data.length + maxRead - 1) / maxRead) data

/-- Feeds what is delivered before the end into `eat`, unless it fails; a failure of the source is
told by `failed`. -/
def drain {ε α : Type} (failed : CodecError → ε) (eat : α → Bytes → Except ε α) :
    List ReadResult → α → Except ε α
  | [], a => .ok a
  | .bytes [] :: _, a => .ok a
  | .bytes data :: rest, a =>
    match eat a data with
    | .error e => .error e
    | .ok a => drain failed eat rest a
  | .interrupted :: rest, a => drain failed eat rest a
  | .endOfFile :: _, a => .ok a
  | .failed reason :: _, _ => .error (failed (.io reason))

/-- All that is delivered before the end. -/
def readToEnd (source : List ReadResult) : Except CodecError Bytes :=
  match drain id (fun (pieces : List Bytes) data => .ok (data :: pieces)) source [] with
  | .error e => .error e
  | .ok pieces => .ok pieces.reverse.flatten

end ReadResult

end ContentVault
