import Portlyn.Auth.Calls

/-! # Signing in with OpenID Connect (`oidc.go`, `oidc_login.go`)

The configuration may change between two calls, so each call has its own. What `Exchange` returns is
given: an identity whose ID token the provider of that configuration has signed. The key of the user
that a call signs in stands beside its result. -/
namespace Portlyn.Auth
open Go Domain Lib Lib.Interleave
set_option autoImplicit false

structure OIDCConfig where
  issuerURL : GoString
  allowedEmailDomains : List GoString
  adminRoleClaimPath : GoString
  adminRoleValue : GoString
  allowEmailLinking : Bool
  requireVerifiedEmail : Bool
  manageRoles : Bool

structure OIDCIdentity where
  subject : GoString
  email : GoString
  emailVerified : Bool
  name : GoString
  preferredUsername : GoString
  claims : JsonObject
  accessClaims : JsonObject

inductive OIDCError
  | emailUnverified
  | emailBlocked
  | linkDenied
  | inactiveUser
  | store (e : StoreError)
  | login (e : CallError)
deriving DecidableEq

/-! ## Claims -/

def stringValue : JsonValue → GoString
  | .string s => s
  | _ => []

def claimAt : JsonValue → List GoString → Option JsonValue
  | current, [] => some current
  | .object fields, part :: parts => (fields.lookup part).bind fun value => claimAt value parts
  | _, _ :: _ => none

def extractClaimPathValues (claims : JsonObject) (path : GoString) : List GoString :=
  if path = [] then []
  else
    match claimAt (.object claims) (path.splitOn dot) with
    | none => []
    | some (.array items) => (items.map stringValue).filter (· ≠ [])
    | some value => if stringValue value ≠ [] then [stringValue value] else []

def OIDCConfig.isAdmin (cfg : OIDCConfig) (claimSets : List JsonObject) : Bool :=
  if trimSpace cfg.adminRoleValue = [] then false
  else claimSets.any fun claims =>
    (extractClaimPathValues claims cfg.adminRoleClaimPath).any fun value => value = cfg.adminRoleValue

def oidcDisplayName (identity : OIDCIdentity) : GoString :=
  if trimSpace identity.name ≠ [] then trimSpace identity.name
  else if trimSpace identity.preferredUsername ≠ [] then trimSpace identity.preferredUsername
  else
    let email := trimSpace identity.email
    -- an address that starts with the sign is kept whole
    if 0x40 ∈ email ∧ cutBefore 0x40 email ≠ [] then cutBefore 0x40 email else email

section Tables
variable [UnicodeTables] (env : Env) (t : ℕ)

def OIDCIdentity.normalizedEmail (identity : OIDCIdentity) : GoString :=
  toLower (trimSpace identity.email)

def OIDCConfig.listsDomain (cfg : OIDCConfig) (email : GoString) : Bool :=
  match cutLast 0x40 email with
  | none => false
  | some (_, domain) =>
    cfg.allowedEmailDomains.any fun allowed => equalFold (toLower (trimSpace domain))
      (trimSpace allowed)

def OIDCConfig.validateAllowedEmailDomain (cfg : OIDCConfig) (email : GoString) : Bool :=
  if cfg.allowedEmailDomains = [] ∨ email = [] then true else cfg.listsDomain email

/-! ## Accounts -/

def OIDCConfig.roleOf (cfg : OIDCConfig) (identity : OIDCIdentity) : Role :=
  if cfg.isAdmin [identity.claims, identity.accessClaims] then .admin else .viewer

def boundColumns (cfg : OIDCConfig) : List UserColumn :=
  [.email, .username, .displayName, .authProvider, .authProviderRef, .authIssuer] ++
    if cfg.manageRoles then [.role] else []

def boundUser (cfg : OIDCConfig) (identity : OIDCIdentity) (user : UserRow) : UserRow :=
  { user with
    email := identity.normalizedEmail
    username := identity.preferredUsername
    displayName := oidcDisplayName identity
    authIssuer := cfg.issuerURL
    role := if cfg.manageRoles then cfg.roleOf identity else user.role
    authProvider := .oidc
    authProviderRef := trimSpace identity.subject }

def linkedColumns (cfg : OIDCConfig) : List UserColumn :=
  [.displayName, .username, .authProvider, .authProviderRef, .authIssuer] ++ if cfg.manageRoles then [.role] else []

/-- The row that was found by its e-mail, as the login leaves it: only a local account gets a new
subject. -/
def linkedUser (cfg : OIDCConfig) (identity : OIDCIdentity) (user : UserRow) : UserRow :=
  let links := user.authProvider = .other [] ∨ user.authProvider = .password
  { user with
    displayName := oidcDisplayName identity
    username := identity.preferredUsername
    authProvider := if links then .oidc else user.authProvider
    authProviderRef := if links then trimSpace identity.subject else user.authProviderRef
    authIssuer := cfg.issuerURL
    role := if cfg.manageRoles then cfg.roleOf identity else user.role }

def createdUser (cfg : OIDCConfig) (identity : OIDCIdentity) : UserRow where
  email := identity.normalizedEmail
  passwordHash := []
  role := cfg.roleOf identity
  active := true
  mustChangePassword := false
  mfaEnabled := false
  mfaSecret := []
  mfaPendingSecret := []
  mfaRecoveryCodes := []
  mfaPendingRecoveryCodes := []
  mfaLastTOTPCounter := 0
  authProvider := .oidc
  authProviderRef := trimSpace identity.subject
  authIssuer := cfg.issuerURL
  displayName := oidcDisplayName identity
  username := identity.preferredUsername
  lastLoginAt := none

def linkDenied (cfg : OIDCConfig) (identity : OIDCIdentity) (user : UserRow) : Bool :=
  !identity.emailVerified || (user.authProvider = .password && !cfg.allowEmailLinking) ||
    (user.authProvider = .oidc && user.authProviderRef ≠ [] && user.authProviderRef ≠ trimSpace identity.subject)

def createOIDCUser (cfg : OIDCConfig) (identity : OIDCIdentity) : Call (Except OIDCError (ℕ × UserRow)) := do
  match ← Users.create (createdUser cfg identity) with
  | .error e => return .error (.store e)
  | .ok id => return .ok (id, createdUser cfg identity)

/-- The second half of `findOrCreateOIDCUser`, where no account has the subject. -/
def linkOrCreateOIDCUser (cfg : OIDCConfig) (identity : OIDCIdentity) : Call (Except OIDCError (ℕ × UserRow)) := do
  if identity.normalizedEmail = [] then createOIDCUser cfg identity
  else
    match ← Users.getByEmail identity.normalizedEmail with
    | .ok (id, user) =>
      if linkDenied cfg identity user then return .error .linkDenied
      else
        match ← Users.updateFields id (linkedUser cfg identity user) (linkedColumns cfg) with
        | .error e => return .error (.store e)
        | .ok _ => return .ok (id, linkedUser cfg identity user)
    | .error .notFound => createOIDCUser cfg identity
    | .error e => return .error (.store e)

def findOrCreateOIDCUser (cfg : OIDCConfig) (identity : OIDCIdentity) : Call (Except OIDCError (ℕ × UserRow)) := do
  if trimSpace identity.subject = [] then return .error .linkDenied
  else
    match ← Users.getByProviderRef .oidc (trimSpace identity.subject) with
    | .ok (id, user) =>
      match ← Users.updateColumns id (boundUser cfg identity user) (boundColumns cfg) with
      | .error e => return .error (.store e)
      | .ok _ => return .ok (id, boundUser cfg identity user)
    | .error .notFound => linkOrCreateOIDCUser cfg identity
    | .error e => return .error (.store e)

def completeOIDC (cfg : OIDCConfig) (identity : OIDCIdentity) : Call (Except OIDCError (ℕ × LoginResult)) := do
  if cfg.requireVerifiedEmail && !identity.emailVerified then return .error .emailUnverified
  else if !cfg.validateAllowedEmailDomain identity.normalizedEmail then return .error .emailBlocked
  else
    match ← findOrCreateOIDCUser cfg identity with
    | .error e => return .error e
    | .ok (id, user) =>
      if !user.active then return .error .inactiveUser
      else
        match ← completePrimaryLogin env t id user ⟨[], []⟩ with
        | .error e => return .error (.login e)
        | .ok result => return .ok (id, result)

end Tables
end Portlyn.Auth
