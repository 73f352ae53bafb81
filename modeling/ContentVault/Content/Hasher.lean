import ContentVault.Bytes.Crc
import ContentVault.Content.Compression
import ContentVault.Content.Source
import ContentVault.Failure
import ContentVault.Ident.StoreId
set_option autoImplicit false

/-!
# Checksums of content

The checksum of content is half of its address.  It only narrows the search for
equal content; equality itself is decided by comparing bytes.  Checksums are taken
piece by piece, alone or together with compressing.  The bytes are counted in 64 bits, and
more than can be counted are not hashed.
-/

namespace ContentVault

/-- The checksum and length of what was fed so far. -/
structure Hasher where
  register : UInt32
  length : UInt64
  deriving DecidableEq, Repr, Inhabited

namespace Hasher

/-- Nothing was fed. -/
def empty : Hasher := ⟨Crc.initial, 0⟩

/-- Feeds more content. -/
def update (h : Hasher) (data : Bytes) : Except (Failure CodecError) Hasher :=
  match checkedAdd h.length (UInt64.ofNat data.length) with
  | .error failure => .error failure
  | .ok length => .ok ⟨Crc.update h.register data, length⟩

/-- Nothing was fed. -/
def isEmpty (h : Hasher) : Bool := h.length == 0

/-- The checksum of what was fed. -/
def finish (h : Hasher) : UInt32 := Crc.finish h.register

/-- The checksum and length of a source. -/
def ofSource (source : List ReadResult) : Except (Failure CodecError) (UInt32 × UInt64) :=
  match ReadResult.drain .answered update source empty with
  | .error failure => .error failure
  | .ok h => .ok (h.finish, h.length)

end Hasher

/-- The address of a source's content with an explicit stamp. -/
def StoreId.ofSource (source : List ReadResult) (stamp : UInt16) :
    Except (Failure CodecError) StoreId :=
  match Hasher.ofSource source with
  | .error failure => .error failure
  | .ok (hash, _) => .ok ⟨hash, stamp⟩

/-- Content after one pass: its checksum, its length and its compressed form. -/
structure Digest where
  hash : UInt32
  size : UInt64
  compressed : Bytes
  deriving DecidableEq, Repr, Inhabited

namespace Digest

/-- Hashes a source and collects what the compressor is fed, the last piece first. -/
def absorb (state : Hasher × List Bytes) (data : Bytes) :
    Except (Failure CodecError) (Hasher × List Bytes) :=
  match state.1.update data with
  | .error failure => .error failure
  | .ok h => .ok (h, data :: state.2)

/-- Hashes and compresses a source in one pass. -/
def ofSource (source : List ReadResult) (level : Int) : Except (Failure CodecError) Digest :=
  match ReadResult.drain .answered absorb source (.empty, []) with
  | .error failure => .error failure
  | .ok (h, pieces) =>
    .ok ⟨h.finish, h.length, Compression.compress pieces.reverse.flatten level⟩

/-- Hashes and compresses a byte string. -/
def ofBytes (data : Bytes) (level : Int) : Except (Failure CodecError) Digest :=
  ofSource (ReadResult.deliver data) level

/-- The address of the content with the given stamp. -/
def storeId (d : Digest) (stamp : UInt16) : StoreId := ⟨d.hash, stamp⟩

end Digest

end ContentVault
