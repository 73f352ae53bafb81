import ContentVault.Record.ContentRecord
import ContentVault.Record.FileRecord
set_option autoImplicit false

/-!
# How many bytes a document takes

The size limit of a collection counts the bytes of a plain binary form: words at their
width, texts and byte strings after a length of eight bytes, an optional part after a
byte that tells whether it is there, and the fields of a record one after the other.
-/

namespace ContentVault

/-- Types whose values have a size in the binary form. -/
class EncodedSize (α : Type) where
  /-- Number of bytes of a value. -/
  encodedSize : α → Nat

export EncodedSize (encodedSize)

instance : EncodedSize UInt16 := ⟨fun _ => 2⟩
instance : EncodedSize UInt32 := ⟨fun _ => 4⟩
instance : EncodedSize UInt64 := ⟨fun _ => 8⟩
instance : EncodedSize String := ⟨fun s => 8 + s.utf8ByteSize⟩
instance : EncodedSize Bytes := ⟨fun bs => 8 + bs.length⟩

instance {α : Type} [EncodedSize α] : EncodedSize (Option α) where
  encodedSize
    | none => 1
    | some a => 1 + encodedSize a

instance : EncodedSize StoreId := ⟨fun id => encodedSize id.hash + encodedSize id.stamp⟩
instance : EncodedSize FileId := ⟨fun id => encodedSize id.token⟩

instance : EncodedSize Status where
  encodedSize s :=
    encodedSize s.tag +
      match s with
      | .failed code message => encodedSize code + encodedSize message
      | _ => 0

instance : EncodedSize FileRecord where
  encodedSize r :=
    encodedSize r.id + encodedSize r.name + encodedSize r.owner + encodedSize r.uploadedAt.text

end ContentVault
