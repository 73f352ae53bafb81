import ContentVault.Bytes.Basic
import ContentVault.Content.Error
set_option autoImplicit false

/-!
# Codecs

Content is kept compressed.  How it is compressed is left open: nothing but the space that it takes
hangs on it, as long as what was compressed is decompressed to what it was.
-/

namespace ContentVault

/-- How content is compressed, at a level, and got back. -/
class Codec where
  compress : Bytes → Int → Bytes
  decompress : Bytes → Except CodecError Bytes

/-- Content whose compressed form is decompressed to it again; both fit into the memory of a
machine. -/
structure Faithful [Codec] (level : Int) (data : Bytes) : Prop where
  decompress_eq : Codec.decompress (Codec.compress data level) = .ok data
  length_lt : data.length < UInt64.size
  compressed_lt : (Codec.compress data level).length < UInt64.size

namespace Codec

variable [Codec]

/-- Decompresses a byte string that has to have `expected` bytes. -/
def decompressExact (data : Bytes) (expected : Nat) : Except CodecError Bytes :=
  match decompress data with
  | .error e => .error e
  | .ok out =>
    if out.length ≠ expected then
      .error (.corruptData s!"size mismatch: expected {expected}, got {out.length}")
    else .ok out

theorem decompressExact_of_ok {bs out : Bytes} (h : decompress bs = .ok out) (expected : Nat) :
    decompressExact bs expected = if expected = out.length then .ok out
      else .error (.corruptData s!"size mismatch: expected {expected}, got {out.length}") := by
  rw [decompressExact, h]
  by_cases hlength : expected = out.length
  · rw [if_pos hlength]
    exact if_neg fun hne => hne hlength.symm
  · rw [if_neg hlength]
    exact if_pos (Ne.symm hlength)

theorem decompressExact_of_error {bs : Bytes} {e : CodecError} (h : decompress bs = .error e)
    (expected : Nat) : decompressExact bs expected = .error e := by
  rw [decompressExact, h]

/-- What is decompressed exactly is what is decompressed, if it has the length. -/
theorem decompressExact_eq_ok_iff {bs out : Bytes} {expected : Nat} :
    decompressExact bs expected = .ok out ↔ decompress bs = .ok out ∧ out.length = expected := by
  cases h : decompress bs with
  | error e =>
    rw [decompressExact_of_error h]
    simp
  | ok found =>
    rw [decompressExact_of_ok h]
    constructor
    · intro hok
      split at hok
      next hlength =>
        cases hok
        exact ⟨rfl, hlength.symm⟩
      · cases hok
    · rintro ⟨hout, rfl⟩
      cases hout
      exact if_pos rfl

end Codec

end ContentVault
