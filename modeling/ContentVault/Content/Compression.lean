import ContentVault.Content.Codec
import ContentVault.Zstandard.Decoder
import ContentVault.Zstandard.Encoder
set_option autoImplicit false

/-!
# Compressed content

Content is kept as compressed frames.  Whatever is wrong with compressed bytes is
reported as corrupt data, because the store itself has written them.
-/

namespace ContentVault.Compression

/-- The level used where none is asked for. -/
def defaultLevel : Int := 3

/-- Compresses a byte string. -/
def compress (data : Bytes) (level : Int) : Bytes := Zstandard.encode level data

/-- Decompresses a byte string. -/
def decompress (data : Bytes) : Except CodecError Bytes :=
  match Zstandard.decode data with
  | .error fault => .error (.corruptData s!"decompression failed: {fault.message}")
  | .ok out => .ok out

/-- The codec of compressed frames. -/
@[reducible] def codec : Codec := ⟨compress, decompress⟩

/-- Decompresses a byte string that has to have `expected` bytes. -/
def decompressExact (data : Bytes) (expected : Nat) : Except CodecError Bytes :=
  @Codec.decompressExact codec data expected

end ContentVault.Compression
