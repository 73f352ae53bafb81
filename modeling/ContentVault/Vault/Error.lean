import ContentVault.Ident.Error
import ContentVault.Store.Error
set_option autoImplicit false

/-!
# What can go wrong in a vault
-/

namespace ContentVault

/-- Why a vault could not be set up, or an operation on it failed. -/
inductive VaultError where
  | invalidConfig (reason : String)
  /-- The text of a configuration could not be read. -/
  | configParse (reason : String)
  | store (error : StoreError)
  | codec (error : CodecError)
  /-- A token given by the caller is no identifier. -/
  | invalidId (error : IdentError)
  deriving DecidableEq, Repr, Inhabited

namespace VaultError

/-- The name of the kind of error; that of the error within stands after a slash. -/
def name : VaultError → String
  | .invalidConfig _ => "InvalidConfig"
  | .configParse _ => "ConfigParse"
  | .store error => s!"Store/{error.name}"
  | .codec error => s!"Codec/{error.name}"
  | .invalidId error => s!"InvalidId/{error.name}"

/-- The wording of a vault error. -/
def message : VaultError → String
  | .invalidConfig reason => s!"invalid configuration: {reason}"
  | .configParse reason => s!"failed to parse configuration: {reason}"
  | .store error => s!"store error: {error.message}"
  | .codec error => s!"codec error: {error.message}"
  | .invalidId error => s!"invalid identifier: {error.message}"

/-- A record does not exist. -/
def isNotFound : VaultError → Bool
  | .store error => error.isNotFound
  | _ => false

/-- The deadline passed. -/
def isTimeout : VaultError → Bool
  | .store .timeout => true
  | _ => false

/-- The HTTP status to answer with; a bad token is the caller's fault. -/
def httpStatus : VaultError → Nat
  | .store error => error.httpStatus
  | .invalidId _ => 400
  | _ => 500

end VaultError

end ContentVault
