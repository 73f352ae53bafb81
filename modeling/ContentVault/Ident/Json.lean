import ContentVault.Ident.FileId
import ContentVault.Json.Fields
set_option autoImplicit false

/-!
# Identifiers in JSON

A store identifier is an object of its two numbers; a file identifier is its token.
-/

namespace ContentVault

/-- The object of a store identifier. -/
def StoreId.toJson (id : StoreId) : Json.Value :=
  .ofMembers [("hash", .ofNat id.hash.toNat), ("stamp", .ofNat id.stamp.toNat)]

/-- Reads a store identifier from an object or an array of two numbers. -/
def StoreId.ofJson? (v : Json.Value) : Option StoreId :=
  match v.fields? ["hash", "stamp"] with
  | some [some hash, some stamp] =>
    match hash.natBelow? UInt32.size, stamp.natBelow? UInt16.size with
    | some hash, some stamp => some ⟨UInt32.ofNat hash, UInt16.ofNat stamp⟩
    | _, _ => none
  | _ => none

/-- The token of a file identifier as a string. -/
def FileId.toJson (id : FileId) : Json.Value := .ofText id.token

/-- Reads a file identifier from a string. -/
def FileId.ofJson? (v : Json.Value) : Option FileId :=
  match v.text? with
  | none => none
  | some token => (FileId.ofToken token).toOption

end ContentVault
