import ContentVault.Bytes.Basic
set_option autoImplicit false

/-!
# CRC-32

The checksum of content: the reflected polynomial `0xEDB88320`, a register that
starts with all bits set and is complemented at the end.  Feeding is a fold over
the bytes, so a checksum taken piece by piece is the checksum of the whole.
-/

namespace ContentVault.Crc

/-- The reflected generator polynomial. -/
def polynomial : UInt32 := 0xEDB88320

/-- The register before the first byte. -/
def initial : UInt32 := 0xFFFFFFFF

/-- One bit leaves the register at the low end. -/
def shift (register : UInt32) : UInt32 :=
  if register &&& 1 = 1 then (register >>> 1) ^^^ polynomial else register >>> 1

/-- `count` bits leave the register. -/
def shifts : Nat → UInt32 → UInt32
  | 0, register => register
  | count + 1, register => shifts count (shift register)

/-- One byte enters the register. -/
def feed (register : UInt32) (byte : UInt8) : UInt32 :=
  shifts 8 (register ^^^ byte.toUInt32)

/-- A byte string enters the register. -/
def update (register : UInt32) (bs : Bytes) : UInt32 := bs.foldl feed register

/-- The checksum that a register stands for. -/
def finish (register : UInt32) : UInt32 := register ^^^ 0xFFFFFFFF

/-- The CRC-32 of a byte string. -/
def checksum (bs : Bytes) : UInt32 := finish (update initial bs)

@[simp] theorem update_nil (register : UInt32) : update register [] = register := rfl

theorem update_append (register : UInt32) (xs ys : Bytes) :
    update register (xs ++ ys) = update (update register xs) ys := by
  simp [update, List.foldl_append]

end ContentVault.Crc
