import Portlyn.Go.Time
import Portlyn.Go.Utf8

/-! # Users, sessions and policies (`internal/domain`)

The columns of the stored records that decisions read. Texts with a fixed set of meanings are
inductive types; `other` keeps a text that has none of them. -/
namespace Portlyn.Domain
open Go
set_option autoImplicit false

inductive Role
  | admin
  | viewer
  | other (raw : GoString)
deriving DecidableEq

def Role.text : Role → GoString
  | .admin => str "admin"
  | .viewer => str "viewer"
  | .other raw => raw

inductive AuthProvider
  | password
  | oidc
  | other (raw : GoString)
deriving DecidableEq

structure User where
  id : ℕ
  email : GoString
  role : Role
  active : Bool
  mustChangePassword : Bool
  mfaEnabled : Bool
  authProvider : AuthProvider
deriving DecidableEq

structure Session where
  id : ℕ
  userID : ℕ
  tokenID : GoString
  expiresAt : Instant
  revokedAt : Option Instant
  bootstrapDismissed : Bool
deriving DecidableEq

structure APIToken where
  id : ℕ
  name : GoString
  tokenHash : GoString
  role : Role
  createdByID : Option ℕ
  revokedAt : Option Instant
  expiresAt : Option Instant
deriving DecidableEq

/-! ## Access policies -/

inductive AccessMode
  | unset
  | publicMode
  | authenticated
  | restricted
  | other (raw : GoString)
deriving DecidableEq

structure AccessPolicy where
  accessMode : AccessMode
  allowedRoles : List Role
  allowedGroups : List ℕ
deriving DecidableEq

inductive AccessMethod
  | session
  | oidcOnly
  | pin
  | emailCode
deriving DecidableEq

def AccessMethod.text : AccessMethod → GoString
  | .session => str "session"
  | .oidcOnly => str "oidc_only"
  | .pin => str "pin"
  | .emailCode => str "email_code"

inductive JsonValue
  | null
  | bool (b : Bool)
  | number (text : GoString)
  | string (s : GoString)
  | array (items : List JsonValue)
  | object (fields : List (GoString × JsonValue))

abbrev JsonObject := List (GoString × JsonValue)

/-! ## Hosts of services -/

section Hosts
variable [UnicodeTables]

/-- What `NormalizeSubdomain` accepts as a label; `first` tells the first one. -/
def validLabel (first : Bool) (label : GoString) : Bool :=
  (first && label = [0x2A]) ||
    (label ≠ [] && label.length ≤ 63 && label.head? ≠ some 0x2D && label.getLast? ≠ some 0x2D &&
      label.all fun b => (0x61 ≤ b && b ≤ 0x7A) || (0x30 ≤ b && b ≤ 0x39) || b = 0x2D)

def normalizeSubdomain (value : GoString) : Option GoString :=
  let normalized := toLower (trimSpace value)
  if normalized = [] then some []
  else
    match normalized.splitOn dot with
    | [] => some normalized
    | label :: labels =>
      if validLabel true label && labels.all (validLabel false) then some normalized else none

def serviceHostname (rootDomain subdomain : GoString) : GoString :=
  let root := toLower (trimSpace rootDomain)
  if root = [] then []
  else
    match normalizeSubdomain subdomain with
    | none => root
    | some label => if label = [] then root else label ++ dot :: root

def isWildcardHost (host : GoString) : Bool := hasPrefix host [0x2A, dot]

/-- The fields of `domain.Service` that name its host and say where it allows logins. -/
structure Service where
  domainName : GoString
  subdomain : GoString
  loginHosts : List GoString

def loginAllowedOnHost (service : Service) (host : GoString) : Bool :=
  if !isWildcardHost (serviceHostname service.domainName service.subdomain) then true
  else
    let host := toLower (trimSpace host)
    let label := cutBefore dot host
    if dot ∉ host ∨ label = [] then false
    else service.loginHosts.any fun allowed => equalFold (trimSpace allowed) label

end Hosts
end Portlyn.Domain
