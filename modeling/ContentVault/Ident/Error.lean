set_option autoImplicit false

/-!
# What can be wrong with an identifier token
-/

namespace ContentVault

/-- Why a token or a byte string is no identifier. -/
inductive IdentError where
  | invalidHex (reason : String)
  | invalidLength (expected actual : Nat)
  | emptyStamp
  deriving DecidableEq, Repr, Inhabited

/-- The name of the kind of error. -/
def IdentError.name : IdentError → String
  | .invalidHex _ => "InvalidHex"
  | .invalidLength .. => "InvalidLength"
  | .emptyStamp => "EmptyStamp"

/-- The wording of an identifier error. -/
def IdentError.message : IdentError → String
  | .invalidHex reason => s!"invalid hex string: {reason}"
  | .invalidLength expected actual =>
    s!"invalid byte length: expected {expected}, got {actual}"
  | .emptyStamp => "file id token has no stamp bytes"

end ContentVault
