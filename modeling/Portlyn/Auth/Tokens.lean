import Portlyn.Auth.Authenticate
import Portlyn.Go.Dns
import Portlyn.Go.Jwt

/-! # The five kinds of signed tokens (`route_access.go`, `sessions.go`)

Access tokens, route access cookies, host session tokens, session bridge tokens and route access
bridge tokens are signed with two secrets and one key derived from them. A payload is what is
written under the tags of the claim structures; a parser takes from it the members of its own
structure, and a missing one is the zero value.

The service of `Authenticate` is the one whose verification is that of these tokens. Its cache is
filled by the authentications themselves: whatever they were asked, the cache holds no route access
cookie and no bridge token (`cacheSound_run`). -/
namespace Portlyn.Auth
open Go Domain
set_option autoImplicit false

/-! ## Payloads -/

/-- The members of a payload by their tags: `user_id`, `session_id` and so on. -/
structure Payload where
  userID : Option ℕ
  sessionID : Option ℕ
  tokenID : Option GoString
  role : Option GoString
  email : Option GoString
  serviceID : Option ℕ
  method : Option GoString
  typ : Option GoString
  hostToken : Option GoString
  host : Option GoString
  returnTo : Option GoString
  registered : RegisteredClaims
deriving Countable

def Payload.of (registered : RegisteredClaims) : Payload :=
  ⟨none, none, none, none, none, none, none, none, none, none, none, registered⟩

def omitEmpty (s : GoString) : Option GoString := if s = [] then none else some s

structure SessionBridgeClaims where
  hostToken : GoString
  host : GoString
  id : GoString

structure RouteAccessBridgeClaims where
  serviceID : ℕ
  host : GoString
  method : GoString
  email : GoString
  returnTo : GoString
  id : GoString

def Payload.claims (p : Payload) : Claims :=
  ⟨p.userID.getD 0, p.sessionID.getD 0, p.tokenID.getD []⟩

def Payload.hostSessionClaims (p : Payload) : HostSessionClaims :=
  ⟨p.userID.getD 0, p.sessionID.getD 0, p.typ.getD []⟩

def Payload.routeAccessClaims (p : Payload) : RouteAccessClaims :=
  ⟨p.serviceID.getD 0, p.method.getD [], p.email.getD []⟩

def Payload.sessionBridgeClaims (p : Payload) : SessionBridgeClaims :=
  ⟨p.hostToken.getD [], p.host.getD [], p.registered.id⟩

def Payload.routeAccessBridgeClaims (p : Payload) : RouteAccessBridgeClaims :=
  ⟨p.serviceID.getD 0, p.host.getD [], p.method.getD [], p.email.getD [], p.returnTo.getD [], p.registered.id⟩

/-! ## Keys -/

def hostSessionKeyContext : GoString := str "portlyn host session v1"

def sessionBridgeSubject : GoString := str "session_bridge"

/-- What `url.Parse` gives: `string` is `URL.String` for a scheme. -/
structure ParsedURL where
  scheme : GoString
  host : GoString
  requestURI : GoString
  string : (scheme : GoString) → GoString

/-- The signing part of the service. The key of the host sessions is an HMAC, which is neither
secret. -/
structure TokenService where
  signatures : Signatures Payload
  hmac : (key message : GoString) → GoString
  jwtSigningSecret : GoString
  sessionBridgeSecret : GoString
  issuer : GoString
  tokenTTL : ℤ
  routeAuthTTL : ℤ
  urlParse : GoString → Option ParsedURL
  hostKey_ne_signing : hmac jwtSigningSecret hostSessionKeyContext ≠ jwtSigningSecret
  hostKey_ne_bridge : hmac jwtSigningSecret hostSessionKeyContext ≠ sessionBridgeSecret

namespace TokenService
variable (ts : TokenService)

def hostSessionSecret : GoString := ts.hmac ts.jwtSigningSecret hostSessionKeyContext

theorem hostSessionSecret_ne_signing : ts.hostSessionSecret ≠ ts.jwtSigningSecret :=
  ts.hostKey_ne_signing

theorem hostSessionSecret_ne_bridge : ts.hostSessionSecret ≠ ts.sessionBridgeSecret :=
  ts.hostKey_ne_bridge

def registeredClaims (now : Instant) (ttl : ℤ) (subject id : GoString) : RegisteredClaims where
  issuer := ts.issuer
  subject := subject
  audience := []
  expiresAt := some (numericDate (now + ttl))
  notBefore := none
  issuedAt := some (numericDate now)
  id := id

/-! ## Issuers -/

def issueToken (now : Instant) (user : User) (session : Option Session) : GoString :=
  let tokenID := (session.map Session.tokenID).getD []
  ts.signatures.sign ts.jwtSigningSecret
    { Payload.of (ts.registeredClaims now ts.tokenTTL (decimal user.id) tokenID) with
      userID := some user.id
      sessionID := some ((session.map Session.id).getD 0)
      tokenID := some tokenID
      role := some user.role.text
      email := some user.email }

def issueHostSessionToken (now : Instant) (jti : GoString) (user : User) (session : Option Session)
    (host : GoString) : GoString :=
  ts.signatures.sign ts.hostSessionSecret
    { Payload.of { ts.registeredClaims now ts.tokenTTL (decimal user.id) jti with audience := [host] } with
      userID := some user.id
      sessionID := some ((session.map Session.id).getD 0)
      typ := some hostSessionTokenType }

def bridgeTTL : ℤ := 120 * 1000000000

def sanitizeReturnTo (value : GoString) : GoString :=
  let value := trimSpace value
  if value = [] then []
  else
    match ts.urlParse value with
    | none => []
    | some parsed =>
      if parsed.host = [] ∨ parsed.scheme = [] then []
      else if parsed.scheme ≠ str "http" ∧ parsed.scheme ≠ str "https" then []
      else parsed.string parsed.scheme

section Tables
variable [UnicodeTables]

def setRouteAccessCookie (now : Instant) (serviceID : ℕ) (method email : GoString) : GoString :=
  ts.signatures.sign ts.jwtSigningSecret
    { Payload.of (ts.registeredClaims now ts.routeAuthTTL (str "route:" ++ decimal serviceID) []) with
      serviceID := some serviceID
      method := some (trimSpace method)
      email := omitEmpty (toLower (trimSpace email)) }

/-- `storesSessions` is whether the service has a session store; `hostJti` and `jti` are the random
ids. -/
def issueSessionBridgeToken (storesSessions : Bool) (now : Instant) (hostJti jti : GoString) (user : User)
    (session : Option Session) (host : GoString) : Option GoString :=
  let host := normalizeBridgeHost host
  if user.id = 0 ∨ host = [] then none
  else if storesSessions ∧ session = none then none
  else
    some (ts.signatures.sign ts.sessionBridgeSecret
      { Payload.of (ts.registeredClaims now bridgeTTL sessionBridgeSubject jti) with
        hostToken := some (ts.issueHostSessionToken now hostJti user session host)
        host := some host })

def issueRouteAccessBridgeToken (now : Instant) (jti : GoString) (serviceID : ℕ)
    (host method email returnTo : GoString) :
    Option GoString :=
  let host := normalizeBridgeHost host
  if serviceID = 0 ∨ host = [] then none
  else
    some (ts.signatures.sign ts.sessionBridgeSecret
      { Payload.of (ts.registeredClaims now bridgeTTL (str "route_bridge:" ++ decimal serviceID) jti) with
        serviceID := some serviceID
        host := some host
        method := some (trimSpace method)
        email := omitEmpty (toLower (trimSpace email))
        returnTo := omitEmpty (ts.sanitizeReturnTo returnTo) })

end Tables

/-! ## Parsers -/

def parse (key : GoString) (options : ParserOptions) (now : Instant) (token : GoString) : Option Payload :=
  ts.signatures.parse Payload.registered key options now token

def parseToken (now : Instant) (token : GoString) : Option Claims :=
  (ts.parse ts.jwtSigningSecret .default now token).map Payload.claims

/-- The part of `RouteAccessCookieClaims` that verifies the cookie. -/
def verifyRouteAccess (now : Instant) (token : GoString) : Option RouteAccessClaims :=
  (ts.parse ts.jwtSigningSecret .default now token).map Payload.routeAccessClaims

/-- The part of `parseHostSessionToken` that verifies the token for a host. -/
def verifyHostSession (now : Instant) (token host : GoString) : Option HostSessionClaims :=
  (ts.parse ts.hostSessionSecret ⟨some host, true⟩ now token).map Payload.hostSessionClaims

def parseRouteAccessBridgeToken (now : Instant) (token : GoString) : Option RouteAccessBridgeClaims :=
  (ts.parse ts.sessionBridgeSecret .default now token).map Payload.routeAccessBridgeClaims

def parseSessionBridgeToken (now : Instant) (token : GoString) : Option SessionBridgeClaims :=
  match ts.parse ts.sessionBridgeSecret .default now token with
  | none => none
  | some payload =>
    if payload.registered.subject ≠ sessionBridgeSubject ∨
      trimSpace payload.sessionBridgeClaims.hostToken = [] then none
    else some payload.sessionBridgeClaims

/-- `IsPortlynCredential` looks at the signature only. -/
def signedHere (token : GoString) : Bool :=
  [ts.jwtSigningSecret, ts.hostSessionSecret].any fun key => (ts.signatures.verify key token).isSome

end TokenService

/-! ## The service and its cache -/

/-- What the clock and the stores answer at a moment. No row of the users has the id zero. -/
structure Backend where
  answers : AuthService
  getUser_zero : answers.getUser 0 = none

abbrev AuthCache := GoString → Option (User × List ℕ)

variable (ts : TokenService)

/-- The service of `Authenticate` with the verification of these tokens. -/
def TokenService.service (backend : Backend) (cache : AuthCache) : AuthService :=
  { backend.answers with
    verifyAccess := ts.parseToken backend.answers.now
    verifyHostSession := ts.verifyHostSession backend.answers.now
    verifyRouteAccess := ts.verifyRouteAccess backend.answers.now
    signedHere := ts.signedHere
    getCachedAuthResult := cache }

/-- Authentications, of any text, and entries that go: they expire, are swept or are invalidated. -/
inductive CacheEvent
  | accessToken (backend : Backend) (token : GoString)
  | hostSessionToken (backend : Backend) (token host : GoString)
  | forget (token : GoString)

/-- `storeCachedAuthResult` after an authentication that succeeds. After a hit it changes nothing.
-/
def AuthCache.store (cache : AuthCache) (token : GoString) : Except AuthError Identity → AuthCache
  | .ok (user, groupIDs, _) => Function.update cache token (some (user, groupIDs))
  | .error _ => cache

section Tables
variable [UnicodeTables]

def TokenService.cacheStep (cache : AuthCache) : CacheEvent → AuthCache
  | .accessToken backend token => cache.store token (authenticateAccessToken (ts.service backend cache) token)
  | .hostSessionToken backend token host =>
    cache.store token (authenticateHostSessionToken (ts.service backend cache) token host)
  | .forget token => Function.update cache token none

def TokenService.cacheAfter (events : List CacheEvent) : AuthCache :=
  events.foldl ts.cacheStep fun _ => none

/-- Every token of the cache is signed as an access token of some user or as a host session token.
-/
def CacheSound (cache : AuthCache) : Prop :=
  ∀ token entry, cache token = some entry →
    (∃ payload, ts.signatures.verify ts.jwtSigningSecret token = some payload ∧ payload.claims.userID ≠ 0) ∨
      ∃ payload, ts.signatures.verify ts.hostSessionSecret token = some payload

variable {ts}

variable {cache : AuthCache} {token : GoString}

omit [UnicodeTables] in
theorem cacheSound_store (h : CacheSound ts cache) {result : Except AuthError Identity}
    (hresult : ∀ identity, result = .ok identity →
      (∃ payload, ts.signatures.verify ts.jwtSigningSecret token = some payload ∧ payload.claims.userID ≠ 0) ∨
        ∃ payload, ts.signatures.verify ts.hostSessionSecret token = some payload) :
    CacheSound ts (cache.store token result) := by
  cases result with
  | error e => exact h
  | ok identity =>
    intro token' entry hentry
    by_cases htoken : token' = token
    · subst htoken
      exact hresult identity rfl
    · rw [AuthCache.store, Function.update_of_ne htoken] at hentry
      exact h token' entry hentry

omit [UnicodeTables] in
theorem accessToken_signed (h : CacheSound ts cache) {backend : Backend}
    {identity : Identity} (hok : authenticateAccessToken (ts.service backend cache) token = .ok identity) :
    ∃ payload, ts.parse ts.jwtSigningSecret .default backend.answers.now token = some payload ∧
      (payload.claims.userID ≠ 0 ∨ ∃ payload, ts.signatures.verify ts.hostSessionSecret token = some payload) := by
  have hverify : (ts.service backend cache).verifyAccess token =
      (ts.parse ts.jwtSigningSecret .default backend.answers.now token).map Payload.claims := rfl
  unfold authenticateAccessToken at hok
  rw [hverify] at hok
  cases hparse : ts.parse ts.jwtSigningSecret .default backend.answers.now token with
  | none =>
    rw [hparse] at hok
    cases hok
  | some payload =>
    rw [hparse] at hok
    refine ⟨payload, rfl, ?_⟩
    cases hcached : cache token with
    | some entry =>
      rcases h token entry hcached with ⟨signed, hsigned, hne⟩ | hhost
      · rw [verify_of_parse ts.signatures Payload.registered hparse, Option.some.injEq] at hsigned
        exact Or.inl (hsigned ▸ hne)
      · exact Or.inr hhost
    | none =>
      refine Or.inl fun hzero => ?_
      have hmiss : (ts.service backend cache).getCachedAuthResult token = none := hcached
      have hnouser : (ts.service backend cache).getUser payload.claims.userID = none := hzero ▸ backend.getUser_zero
      simp only [Option.map_some, hmiss, hnouser] at hok
      cases hok

theorem hostSessionToken_signed {backend : Backend} {host : GoString} {identity : Identity}
    (hok : authenticateHostSessionToken (ts.service backend cache) token host = .ok identity) :
    ∃ payload, ts.parse ts.hostSessionSecret ⟨some (normalizeBridgeHost host),
      true⟩ backend.answers.now token = some payload := by
  unfold authenticateHostSessionToken at hok
  cases hparse : ts.parse ts.hostSessionSecret ⟨some (normalizeBridgeHost host), true⟩ backend.answers.now token with
  | some payload => exact ⟨payload, rfl⟩
  | none =>
    have hverify : (ts.service backend cache).verifyHostSession token (normalizeBridgeHost host) = none := by
      have heq : (ts.service backend cache).verifyHostSession token (normalizeBridgeHost host) =
          (ts.parse ts.hostSessionSecret ⟨some (normalizeBridgeHost host), true⟩ backend.answers.now token).map
            Payload.hostSessionClaims := rfl
      rw [heq, hparse, Option.map_none]
    have hnone : parseHostSessionToken (ts.service backend cache) token host = none := by
      rw [parseHostSessionToken, hverify]
      exact ite_self none
    rw [hnone] at hok
    cases hok

theorem cacheSound_step (h : CacheSound ts cache) (event : CacheEvent) :
    CacheSound ts (ts.cacheStep cache event) := by
  cases event with
  | accessToken backend token =>
    refine cacheSound_store h fun identity hok => ?_
    obtain ⟨payload, hparse, hne | hhost⟩ := accessToken_signed h hok
    · exact Or.inl ⟨payload, verify_of_parse ts.signatures Payload.registered hparse, hne⟩
    · exact Or.inr hhost
  | hostSessionToken backend token host =>
    refine cacheSound_store h fun identity hok => ?_
    obtain ⟨payload, hparse⟩ := hostSessionToken_signed hok
    exact Or.inr ⟨payload, verify_of_parse ts.signatures Payload.registered hparse⟩
  | forget token =>
    intro token' entry hentry
    by_cases htoken : token' = token
    · subst htoken
      rw [TokenService.cacheStep, Function.update_self] at hentry
      cases hentry
    · rw [TokenService.cacheStep, Function.update_of_ne htoken] at hentry
      exact h token' entry hentry

theorem cacheSound_run (events : List CacheEvent) : CacheSound ts (ts.cacheAfter events) := by
  have hrun : ∀ cache, CacheSound ts cache → CacheSound ts (events.foldl ts.cacheStep cache) := by
    induction events with
    | nil => exact fun _ h => h
    | cons event events ih => exact fun cache h => ih _ (cacheSound_step h event)
  exact hrun _ fun _ _ h => by cases h

end Tables
end Portlyn.Auth
