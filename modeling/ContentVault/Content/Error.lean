set_option autoImplicit false

/-!
# What can go wrong with content
-/

namespace ContentVault

/-- Why content could not be read, compressed, cut into chunks or put together again. -/
inductive CodecError where
  /-- The source failed while it was being read. -/
  | io (reason : String)
  /-- A set of chunks or a compressed payload breaks its rules. -/
  | corruptData (reason : String)
  | compressionFailed (reason : String)
  | invalidChunkSize (size : Nat)
  | tooManyChunks (length chunkSize : Nat)
  deriving DecidableEq, Repr, Inhabited

/-- The name of the kind of error. -/
def CodecError.name : CodecError → String
  | .io _ => "Io"
  | .corruptData _ => "CorruptData"
  | .compressionFailed _ => "CompressionFailed"
  | .invalidChunkSize _ => "InvalidChunkSize"
  | .tooManyChunks .. => "TooManyChunks"

/-- The wording of a content error. -/
def CodecError.message : CodecError → String
  | .io reason => s!"I/O error: {reason}"
  | .corruptData reason => s!"corrupt data: {reason}"
  | .compressionFailed reason => s!"compression failed: {reason}"
  | .invalidChunkSize size => s!"invalid chunk size: {size}"
  | .tooManyChunks length chunkSize =>
    s!"payload of {length} bytes needs too many chunks of {chunkSize} bytes"

end ContentVault
