import Portlyn.Auth.Tokens
import Portlyn.Proxy.Handler

/-! # The bridges and the separation of tokens (`manager.go`, `route_access_bridge.go`)

The two bridge handlers turn a token of the console into a cookie of a service's host. Together with
the three acceptors of the auth service they are everything that accepts a signed token. The one
handler that does not look at the subject of a token is `handleRouteAccessBridge`, and so a session
bridge token of its host passes there (`tokens_separated_iff`). -/
namespace Portlyn.Proxy
open Go Domain Auth
set_option autoImplicit false

/-! ## The handlers -/

inductive BridgeResponse
  | error (status : ℕ) (code message : GoString)
  /-- `SetSessionCookieForHost` and the redirect to the front page. -/
  | session (hostToken host : GoString) (secure : Bool)
  /-- `SetRouteAccessCookie` and the redirect. -/
  | routeAccess (serviceID : ℕ) (cookie target : GoString)
deriving DecidableEq

/-- A request, its query value `token` and the scheme that `forwardedProto` gives it. -/
structure BridgeRequest where
  request : Request
  token : GoString
  scheme : GoString

/-- The manager of a moment: `consumeBridgeToken` is what the limiters say then. -/
structure BridgeManager where
  tokens : TokenService
  now : Instant
  consumeBridgeToken : (jti : GoString) → Bool

section Tables
variable [UnicodeTables]

def sanitizeReturnPath (urlParse : GoString → Option ParsedURL) (returnTo host scheme : GoString) : GoString :=
  let value := trimSpace returnTo
  if value = [] then []
  else
    match urlParse value with
    | none => []
    | some parsed =>
      if parsed.scheme = [] ∧ parsed.host = [] then parsed.requestURI
      else if normalizeHost parsed.host ≠ normalizeHost host then []
      else parsed.string scheme

variable (m : BridgeManager)

/-- What the two handlers share. `none` is a request that is left to others; `name` stands in the
messages. -/
def handleBridge {C : Type} (path name : GoString) (parse : Instant → GoString → Option C) (host id : C → GoString)
    (respond : C → BridgeResponse) (r : BridgeRequest) : Option BridgeResponse :=
  if normalizePath r.request.url.path ≠ path then none
  else
    let token := trimSpace r.token
    if token = [] then some (.error 400 (str "invalid_token") (str "missing " ++ name ++ str " token"))
    else
      match parse m.now token with
      | none => some (.error 401 (str "invalid_token") (str "invalid " ++ name ++ str " token"))
      | some claims =>
        if normalizeHost (host claims) ≠ normalizeHost r.request.host then
          some (.error 403 (str "forbidden") (name ++ str " host mismatch"))
        else if !m.consumeBridgeToken (id claims) then
          some (.error 401 (str "invalid_token") (name ++ str " token already used"))
        else some (respond claims)

def sessionBridgePath : GoString := str "/_portlyn/session-bridge"

def handleSessionBridge (r : BridgeRequest) : Option BridgeResponse :=
  handleBridge m sessionBridgePath (str "session bridge") m.tokens.parseSessionBridgeToken
    SessionBridgeClaims.host SessionBridgeClaims.id
    (fun claims => .session claims.hostToken (normalizeHost r.request.host) (r.scheme = str "https")) r

def routeAccessBridgePath : GoString := str "/_portlyn/route-access"

def handleRouteAccessBridge (r : BridgeRequest) : Option BridgeResponse :=
  handleBridge m routeAccessBridgePath (str "route access bridge") m.tokens.parseRouteAccessBridgeToken
    RouteAccessBridgeClaims.host RouteAccessBridgeClaims.id
    (fun claims =>
      let target := sanitizeReturnPath m.tokens.urlParse claims.returnTo r.request.host r.scheme
      .routeAccess claims.serviceID (m.tokens.setRouteAccessCookie m.now claims.serviceID claims.method claims.email)
        (if target = [] then [slash] else target)) r

/-! ## Tokens and who accepts them -/

inductive Minting
  | accessToken (now : Instant) (user : User) (session : Option Session)
  | routeAccessCookie (now : Instant) (serviceID : ℕ) (method email : GoString)
  | hostSessionToken (now : Instant) (jti : GoString) (user : User) (session : Option Session) (host : GoString)
      (dns : IsDNSHost host)
  | sessionBridgeToken (storesSessions : Bool) (now : Instant) (hostJti jti : GoString) (user : User)
      (session : Option Session) (host : GoString) (dns : IsDNSHost host)
  | routeAccessBridgeToken (now : Instant) (jti : GoString) (serviceID : ℕ) (host method email returnTo : GoString)
      (dns : IsDNSHost host)

def Minting.token (ts : TokenService) : Minting → Option GoString
  | .accessToken now user session => some (ts.issueToken now user session)
  | .routeAccessCookie now serviceID method email => some (ts.setRouteAccessCookie now serviceID method email)
  | .hostSessionToken now jti user session host _ => some (ts.issueHostSessionToken now jti user session host)
  | .sessionBridgeToken storesSessions now hostJti jti user session host _ =>
    ts.issueSessionBridgeToken storesSessions now hostJti jti user session host
  | .routeAccessBridgeToken now jti serviceID host method email returnTo _ =>
    ts.issueRouteAccessBridgeToken now jti serviceID host method email returnTo

inductive Acceptance
  | accessToken (token : GoString)
  | routeAccessCookie (r : Request) (serviceID : ℕ) (known : serviceID ≠ 0)
  | hostSessionToken (token host : GoString) (dns : IsDNSHost host)
  | sessionBridge (r : BridgeRequest) (dns : IsDNSHost r.request.host)
  | routeAccessBridge (r : BridgeRequest) (dns : IsDNSHost r.request.host)

def Acceptance.Presents (token : GoString) : Acceptance → Prop
  | .accessToken token' => token' = token
  | .routeAccessCookie r serviceID _ => r.cookie (sessionCookieNameForService serviceID) = some token
  | .hostSessionToken token' _ _ => token' = token
  | .sessionBridge r _ => trimSpace r.token = token
  | .routeAccessBridge r _ => trimSpace r.token = token

inductive Grant
  | identity (identity : Identity)
  | route (claims : RouteAccessClaims)
  | session (hostToken host : GoString)
  | routeAccess (serviceID : ℕ)

/-- The moment at which a token is presented: its backend, the cache as it is then, the limiters. -/
structure Moment where
  backend : Backend
  history : List CacheEvent
  consumeBridgeToken : (jti : GoString) → Bool

def Moment.service (ts : TokenService) (moment : Moment) : AuthService :=
  ts.service moment.backend (ts.cacheAfter moment.history)

def Moment.manager (ts : TokenService) (moment : Moment) : BridgeManager :=
  ⟨ts, moment.backend.answers.now, moment.consumeBridgeToken⟩

def BridgeResponse.grant : BridgeResponse → Option Grant
  | .error _ _ _ => none
  | .session hostToken host _ => some (.session hostToken host)
  | .routeAccess serviceID _ _ => some (.routeAccess serviceID)

def Acceptance.grant (ts : TokenService) (moment : Moment) : Acceptance → Option Grant
  | .accessToken token => (authenticateAccessToken (moment.service ts) token).toOption.map .identity
  | .routeAccessCookie r serviceID _ => (routeAccessCookieClaims (moment.service ts) r serviceID).map .route
  | .hostSessionToken token host _ =>
    (authenticateHostSessionToken (moment.service ts) token host).toOption.map .identity
  | .sessionBridge r _ => (handleSessionBridge (moment.manager ts) r).bind BridgeResponse.grant
  | .routeAccessBridge r _ => (handleRouteAccessBridge (moment.manager ts) r).bind BridgeResponse.grant

/-- The token was minted for this use: by the issuer of its kind, for the same service and the same
host. -/
def Minting.IsFor : Minting → Acceptance → Grant → Prop
  | .accessToken .., .accessToken _, _ => True
  | .routeAccessCookie _ serviceID _ _, .routeAccessCookie _ serviceID' _, .route claims =>
    serviceID = serviceID' ∧ claims.serviceID = serviceID
  | .hostSessionToken _ _ _ _ host _, .hostSessionToken _ host' _, _ => SameHost host host'
  | .sessionBridgeToken _ _ _ _ _ _ host _, .sessionBridge r _, .session _ host' =>
    SameHost host r.request.host ∧ SameHost host host'
  | .routeAccessBridgeToken _ _ serviceID host _ _ _ _, .routeAccessBridge r _, .routeAccess serviceID' =>
    SameHost host r.request.host ∧ serviceID = serviceID'
  | _, _, _ => False

/-- The uses of a token that is taken for one of another kind: a session bridge token at the route
access bridge of its host, and, if the two secrets are the same, a route access bridge token as the
cookie of its service. -/
def Confused (ts : TokenService) (moment : Moment) : Minting → Acceptance → Prop
  | .sessionBridgeToken _ now _ jti _ _ host _, .routeAccessBridge r _ =>
    normalizePath r.request.url.path = routeAccessBridgePath ∧ SameHost host r.request.host ∧
      moment.backend.answers.now < dateInstant (numericDate (now + TokenService.bridgeTTL)) ∧
      moment.consumeBridgeToken jti = true
  | .routeAccessBridgeToken now _ serviceID _ _ _ _ _, .routeAccessCookie _ serviceID' _ =>
    ts.jwtSigningSecret = ts.sessionBridgeSecret ∧ serviceID = serviceID' ∧
      moment.backend.answers.now < dateInstant (numericDate (now + TokenService.bridgeTTL))
  | _, _ => False

/-! ## What the issuers sign -/

def Minting.key (ts : TokenService) : Minting → GoString
  | .accessToken .. => ts.jwtSigningSecret
  | .routeAccessCookie .. => ts.jwtSigningSecret
  | .hostSessionToken .. => ts.hostSessionSecret
  | .sessionBridgeToken .. => ts.sessionBridgeSecret
  | .routeAccessBridgeToken .. => ts.sessionBridgeSecret

def Minting.Carries (payload : Payload) : Minting → Prop
  | .accessToken .. => payload.serviceID = none ∧ payload.hostToken = none ∧ payload.host = none
  | .routeAccessCookie _ serviceID _ _ =>
    payload.userID = none ∧ payload.serviceID = some serviceID ∧ payload.hostToken = none ∧ payload.host = none
  | .hostSessionToken _ _ _ _ host _ => payload.registered.audience = [host]
  | .sessionBridgeToken _ now _ jti _ _ host _ =>
    payload.userID = none ∧ payload.serviceID = none ∧ payload.host = some (hostName host) ∧
      payload.registered.id = jti ∧
      ∀ t, payload.registered.isValid .default t = decide (t < dateInstant (numericDate (now + TokenService.bridgeTTL)))
  | .routeAccessBridgeToken now jti serviceID host _ _ _ _ =>
    payload.userID = none ∧ payload.serviceID = some serviceID ∧ payload.hostToken = none ∧
      payload.host = some (hostName host) ∧
      payload.registered.id = jti ∧
      ∀ t, payload.registered.isValid .default t = decide (t < dateInstant (numericDate (now + TokenService.bridgeTTL)))

variable {ts : TokenService} {moment : Moment}

omit [UnicodeTables] in
theorem isValid_registeredClaims (now t : Instant) (ttl : ℤ) (subject id : GoString) :
    (ts.registeredClaims now ttl subject id).isValid .default t =
      decide (t < dateInstant (numericDate (now + ttl))) := by
  simp [RegisteredClaims.isValid, TokenService.registeredClaims, ParserOptions.default]

theorem normalizeBridgeHost_dns {host : GoString} (dns : IsDNSHost host) : normalizeBridgeHost host = hostName host :=
  cutBefore_toLower_trimSpace dns

theorem normalizeHost_dns {host : GoString} (dns : IsDNSHost host) : normalizeHost host = hostName host :=
  cutBefore_trimSpace_toLower dns

theorem normalizeHost_hostName {host : GoString} (dns : IsDNSHost host) :
    normalizeHost (hostName host) = hostName host := by
  obtain ⟨hdns, hidem⟩ := isDNSHost_hostName dns
  rw [normalizeHost_dns hdns, hidem]

theorem minted_signed {minting : Minting} {token : GoString} (h : minting.token ts = some token) :
    ∃ payload, token = ts.signatures.sign (minting.key ts) payload ∧ minting.Carries payload := by
  cases minting with
  | accessToken now user session =>
    cases h
    exact ⟨_, rfl, rfl, rfl, rfl⟩
  | routeAccessCookie now serviceID method email =>
    cases h
    exact ⟨_, rfl, rfl, rfl, rfl, rfl⟩
  | hostSessionToken now jti user session host dns =>
    cases h
    exact ⟨_, rfl, rfl⟩
  | sessionBridgeToken storesSessions now hostJti jti user session host dns =>
    rw [Minting.token, TokenService.issueSessionBridgeToken] at h
    split_ifs at h
    rw [Option.some.injEq] at h
    refine ⟨_, h.symm, rfl, rfl, ?_, rfl, fun t => isValid_registeredClaims now t _ _ _⟩
    rw [normalizeBridgeHost_dns dns]
  | routeAccessBridgeToken now jti serviceID host method email returnTo dns =>
    rw [Minting.token, TokenService.issueRouteAccessBridgeToken] at h
    split_ifs at h
    rw [Option.some.injEq] at h
    refine ⟨_, h.symm, rfl, rfl, rfl, ?_, rfl, fun t => isValid_registeredClaims now t _ _ _⟩
    rw [normalizeBridgeHost_dns dns]

/-! ## What the acceptors check -/

omit [UnicodeTables] in
theorem tokens_parse_sign (key key' : GoString) (options : ParserOptions) (now : Instant) (payload : Payload) :
    ts.parse key options now (ts.signatures.sign key' payload) =
      if key = key' ∧ payload.registered.isValid options now = true then some payload else none :=
  parse_sign ts.signatures Payload.registered key key' options now payload

variable {key : GoString} {payload : Payload}

omit [UnicodeTables] in
theorem of_parse_sign {key' : GoString} {options : ParserOptions} {now : Instant} {payload' : Payload}
    (h : ts.parse key options now (ts.signatures.sign key' payload) = some payload') :
    key = key' ∧ payload.registered.isValid options now = true ∧ payload' = payload := by
  rw [tokens_parse_sign] at h
  split_ifs at h with hkey
  exact ⟨hkey.1, hkey.2, (Option.some.inj h).symm⟩

variable {grant : Grant}

omit [UnicodeTables] in
theorem identity_of_toOption {result : Except AuthError Identity}
    (h : result.toOption.map Grant.identity = some grant) : ∃ identity, result = .ok identity := by
  cases result with
  | error e => cases h
  | ok identity => exact ⟨identity, rfl⟩

theorem accessToken_grant (h : (Acceptance.accessToken (ts.signatures.sign key payload)).grant ts moment = some grant) :
    key = ts.jwtSigningSecret ∧ payload.userID ≠ none := by
  obtain ⟨identity, hok⟩ := identity_of_toOption h
  obtain ⟨payload', hparse, hsigned⟩ := accessToken_signed (cacheSound_run moment.history) hok
  obtain ⟨rfl, -, rfl⟩ := of_parse_sign hparse
  refine ⟨rfl, fun hnone => ?_⟩
  rcases hsigned with hne | ⟨payload', hverify⟩
  · rw [Payload.claims, hnone] at hne
    exact hne rfl
  · rw [ts.signatures.verify_sign, if_neg ts.hostSessionSecret_ne_signing] at hverify
    cases hverify

theorem routeAccessCookie_grant {r : Request} {serviceID : ℕ} {known : serviceID ≠ 0}
    (hcookie : r.cookie (sessionCookieNameForService serviceID) =
      some (ts.signatures.sign key payload))
    (grant : Grant) :
    (Acceptance.routeAccessCookie r serviceID known).grant ts moment = some grant ↔
      ts.jwtSigningSecret = key ∧ payload.registered.isValid .default moment.backend.answers.now =
        true ∧
        payload.serviceID.getD 0 = serviceID ∧ grant = .route payload.routeAccessClaims := by
  have hverify : (moment.service ts).verifyRouteAccess (ts.signatures.sign key payload) =
      (ts.parse ts.jwtSigningSecret .default moment.backend.answers.now (ts.signatures.sign key payload)).map
        Payload.routeAccessClaims := rfl
  have hservice : payload.routeAccessClaims.serviceID = payload.serviceID.getD 0 := rfl
  rw [Acceptance.grant, routeAccessCookieClaims, hcookie]
  dsimp only
  rw [hverify, tokens_parse_sign]
  by_cases hsigned : ts.jwtSigningSecret = key ∧ payload.registered.isValid .default moment.backend.answers.now = true
  · rw [if_pos hsigned, Option.map_some]
    dsimp only
    rw [hservice]
    by_cases hid : payload.serviceID.getD 0 = serviceID
    · rw [if_neg (not_not_intro hid), Option.map_some, Option.some.injEq]
      exact ⟨fun h => ⟨hsigned.1, hsigned.2, hid, h.symm⟩, fun h => h.2.2.2.symm⟩
    · rw [if_pos hid]
      exact ⟨nofun, fun h => absurd h.2.2.1 hid⟩
  · rw [if_neg hsigned]
    exact ⟨nofun, fun h => absurd ⟨h.1, h.2.1⟩ hsigned⟩

theorem hostSessionToken_grant {host : GoString} {dns : IsDNSHost host}
    (h : (Acceptance.hostSessionToken (ts.signatures.sign key payload) host dns).grant ts moment = some grant) :
    ts.hostSessionSecret = key ∧ hostName host ∈ payload.registered.audience := by
  obtain ⟨identity, hok⟩ := identity_of_toOption h
  obtain ⟨payload', hparse⟩ := hostSessionToken_signed hok
  obtain ⟨hkey, hvalid, -⟩ := of_parse_sign hparse
  refine ⟨hkey, ?_⟩
  rw [RegisteredClaims.isValid, Bool.and_eq_true] at hvalid
  rw [← normalizeBridgeHost_dns dns]
  exact of_decide_eq_true hvalid.2

theorem handleBridge_grant {m : BridgeManager} {C : Type} {path name : GoString}
    {parse : Instant → GoString → Option C} {host id : C → GoString} {respond : C → BridgeResponse}
    {r : BridgeRequest} (htoken : trimSpace r.token ≠ []) (grant : Grant) :
    (handleBridge m path name parse host id respond r).bind BridgeResponse.grant = some grant ↔
      normalizePath r.request.url.path = path ∧
        ∃ claims, parse m.now (trimSpace r.token) = some claims ∧
          normalizeHost (host claims) = normalizeHost r.request.host ∧
          m.consumeBridgeToken (id claims) = true ∧ (respond claims).grant = some grant := by
  rw [handleBridge]
  by_cases hpath : normalizePath r.request.url.path = path
  · rw [if_neg (not_not_intro hpath)]
    rw [if_neg htoken]
    cases hparse : parse m.now (trimSpace r.token) with
    | none => exact ⟨nofun, fun ⟨_, _, h, _⟩ => by cases h⟩
    | some claims =>
      dsimp only
      split_ifs with hhost hconsume
      · exact ⟨nofun, fun ⟨_, _, h, hsame, _⟩ => absurd (Option.some.inj h ▸ hsame) hhost⟩
      · refine ⟨nofun, fun ⟨_, _, h, _, hused, _⟩ => ?_⟩
        rw [← Option.some.inj h] at hused
        rw [hused] at hconsume
        cases hconsume
      · have hused : m.consumeBridgeToken (id claims) = true := by simpa using hconsume
        refine ⟨fun h => ⟨hpath, claims, rfl, not_not.mp hhost, hused, h⟩, fun ⟨_, _, h, _, _, hgrant⟩ => ?_⟩
        rw [Option.some.inj h]
        exact hgrant
  · rw [if_pos hpath]
    exact ⟨nofun, fun h => absurd h.1 hpath⟩

section Bridges
variable {key : GoString} {payload : Payload} {r : BridgeRequest} {dns : IsDNSHost r.request.host}
  (htoken : trimSpace r.token = ts.signatures.sign key payload)
include htoken

theorem sessionBridge_grant {grant : Grant} (h : (Acceptance.sessionBridge r dns).grant ts moment = some grant) :
    ts.sessionBridgeSecret = key ∧ payload.hostToken ≠ none ∧
      normalizeHost (payload.host.getD []) = hostName r.request.host ∧
      ∃ hostToken, grant = .session hostToken (hostName r.request.host) := by
  have hne : trimSpace r.token ≠ [] := htoken ▸ ts.signatures.sign_ne_nil key payload
  obtain ⟨-, claims, hparse, hhost, -, hgrant⟩ := (handleBridge_grant hne grant).mp h
  rw [htoken, TokenService.parseSessionBridgeToken] at hparse
  split at hparse
  · cases hparse
  · rename_i payload' hpayload
    obtain ⟨hkey, -, rfl⟩ := of_parse_sign hpayload
    split_ifs at hparse with hshape
    rw [Option.some.injEq] at hparse
    subst hparse
    rw [normalizeHost_dns dns] at hhost
    refine ⟨hkey, fun hnone => hshape (Or.inr ?_), hhost, payload'.sessionBridgeClaims.hostToken, ?_⟩
    · rw [Payload.sessionBridgeClaims, hnone]
      rfl
    · rw [normalizeHost_dns dns] at hgrant
      exact (Option.some.inj hgrant).symm

theorem routeAccessBridge_grant (grant : Grant) :
    (Acceptance.routeAccessBridge r dns).grant ts moment = some grant ↔
      normalizePath r.request.url.path = routeAccessBridgePath ∧ ts.sessionBridgeSecret = key ∧
        payload.registered.isValid .default moment.backend.answers.now = true ∧
        normalizeHost (payload.host.getD []) = hostName r.request.host ∧
        moment.consumeBridgeToken payload.registered.id = true ∧ grant = .routeAccess (payload.serviceID.getD 0) := by
  have hne : trimSpace r.token ≠ [] := htoken ▸ ts.signatures.sign_ne_nil key payload
  have hparse : ∀ now claims, ts.parseRouteAccessBridgeToken now (trimSpace r.token) = some claims ↔
      ts.sessionBridgeSecret = key ∧ payload.registered.isValid .default now = true ∧
      claims = payload.routeAccessBridgeClaims := by
    intro now claims
    rw [htoken, TokenService.parseRouteAccessBridgeToken, tokens_parse_sign]
    split_ifs with hsigned
    · rw [Option.map_some, Option.some.injEq]
      exact ⟨fun h => ⟨hsigned.1, hsigned.2, h.symm⟩, fun h => h.2.2.symm⟩
    · exact ⟨nofun, fun h => absurd ⟨h.1, h.2.1⟩ hsigned⟩
  rw [Acceptance.grant, handleRouteAccessBridge, handleBridge_grant hne]
  constructor
  · rintro ⟨hpath, claims, hclaims, hhost, hconsume, hgrant⟩
    obtain ⟨hkey, hvalid, rfl⟩ := (hparse _ _).mp hclaims
    rw [normalizeHost_dns dns] at hhost
    exact ⟨hpath, hkey, hvalid, hhost, hconsume, (Option.some.inj hgrant).symm⟩
  · rintro ⟨hpath, hkey, hvalid, hhost, hconsume, rfl⟩
    refine ⟨hpath, _, (hparse _ _).mpr ⟨hkey, hvalid, rfl⟩, ?_, hconsume, rfl⟩
    rw [normalizeHost_dns dns]
    exact hhost

end Bridges

/-! ## Separation -/

section Separation
variable {minting : Minting} {payload : Payload} {grant : Grant}
  (hcarries : minting.Carries payload)
include hcarries

theorem accessToken_isFor
    (h : (Acceptance.accessToken (ts.signatures.sign (minting.key ts) payload)).grant ts moment = some grant) :
    minting.IsFor (.accessToken (ts.signatures.sign (minting.key ts) payload)) grant := by
  obtain ⟨hkey, huser⟩ := accessToken_grant h
  cases minting with
  | accessToken now user session => trivial
  | hostSessionToken now jti user session host dns => exact absurd hkey ts.hostSessionSecret_ne_signing
  | _ => exact absurd hcarries.1 huser

theorem routeAccessCookie_isFor {r : Request} {serviceID : ℕ} {known : serviceID ≠ 0}
    (hcookie : r.cookie (sessionCookieNameForService serviceID) = some (ts.signatures.sign (minting.key ts) payload))
    (h : (Acceptance.routeAccessCookie r serviceID known).grant ts moment = some grant) :
    minting.IsFor (.routeAccessCookie r serviceID known) grant ∨
      Confused ts moment minting (.routeAccessCookie r serviceID known) := by
  obtain ⟨hkey, hvalid, hservice, rfl⟩ := (routeAccessCookie_grant hcookie grant).mp h
  -- a token without a service is one of the service zero
  have hnone : payload.serviceID ≠ none := fun hnone => known (by rw [← hservice, hnone]; rfl)
  cases minting with
  | accessToken now user session => exact absurd hcarries.1 hnone
  | routeAccessCookie now serviceID' method email =>
    rw [hcarries.2.1] at hservice
    refine Or.inl ⟨hservice, ?_⟩
    rw [Payload.routeAccessClaims, hcarries.2.1, Option.getD_some]
  | hostSessionToken now jti user session host dns => exact absurd hkey.symm ts.hostSessionSecret_ne_signing
  | sessionBridgeToken storesSessions now hostJti jti user session host dns => exact absurd hcarries.2.1 hnone
  | routeAccessBridgeToken now jti serviceID' host method email returnTo dns =>
    obtain ⟨-, hid, -, -, -, hdate⟩ := hcarries
    rw [hid] at hservice
    rw [hdate] at hvalid
    exact Or.inr ⟨hkey, hservice, of_decide_eq_true hvalid⟩

theorem hostSessionToken_isFor {host : GoString} {dns : IsDNSHost host}
    (h : (Acceptance.hostSessionToken (ts.signatures.sign (minting.key ts) payload) host dns).grant
      ts moment = some grant) :
    minting.IsFor (.hostSessionToken (ts.signatures.sign (minting.key ts) payload) host dns)
      grant := by
  obtain ⟨hkey, haudience⟩ := hostSessionToken_grant h
  cases minting with
  | hostSessionToken now jti user session host' dns' =>
    rw [hcarries, List.mem_singleton] at haudience
    rw [Minting.IsFor, ← haudience]
    exact (isDNSHost_hostName dns).2
  | sessionBridgeToken storesSessions now hostJti jti user session host' dns' =>
    exact absurd hkey ts.hostSessionSecret_ne_bridge
  | routeAccessBridgeToken now jti serviceID host' method email returnTo dns' =>
    exact absurd hkey ts.hostSessionSecret_ne_bridge
  | _ => exact absurd hkey ts.hostSessionSecret_ne_signing

theorem sessionBridge_isFor {r : BridgeRequest} {dns : IsDNSHost r.request.host}
    (htoken : trimSpace r.token = ts.signatures.sign (minting.key ts) payload)
    (h : (Acceptance.sessionBridge r dns).grant ts moment = some grant) :
    minting.IsFor (.sessionBridge r dns) grant := by
  obtain ⟨hkey, hhostToken, hhost, hostToken, rfl⟩ := sessionBridge_grant htoken h
  cases minting with
  | sessionBridgeToken storesSessions now hostJti jti user session host dns' =>
    rw [hcarries.2.2.1, Option.getD_some, normalizeHost_hostName dns'] at hhost
    refine ⟨hhost, ?_⟩
    rw [SameHost, (isDNSHost_hostName dns).2]
    exact hhost
  | accessToken now user session => exact absurd hcarries.2.1 hhostToken
  | hostSessionToken now jti user session host dns' => exact absurd hkey.symm ts.hostSessionSecret_ne_bridge
  | _ => exact absurd hcarries.2.2.1 hhostToken

theorem routeAccessBridge_isFor {r : BridgeRequest} {dns : IsDNSHost r.request.host}
    (htoken : trimSpace r.token = ts.signatures.sign (minting.key ts) payload)
    (h : (Acceptance.routeAccessBridge r dns).grant ts moment = some grant) :
    minting.IsFor (.routeAccessBridge r dns) grant ∨ Confused ts moment minting (.routeAccessBridge r dns) := by
  obtain ⟨hpath, hkey, hvalid, hhost, hconsume, rfl⟩ := (routeAccessBridge_grant htoken grant).mp h
  -- a token without a host is one of no host that a request can have
  have hnone : payload.host ≠ none := fun hnone => by
    rw [hnone] at hhost
    exact hostName_ne_nil dns hhost.symm
  cases minting with
  | routeAccessBridgeToken now jti serviceID host method email returnTo dns' =>
    obtain ⟨-, hid, -, hname, -, -⟩ := hcarries
    rw [hname, Option.getD_some, normalizeHost_hostName dns'] at hhost
    rw [hid]
    exact Or.inl ⟨hhost, rfl⟩
  | sessionBridgeToken storesSessions now hostJti jti user session host dns' =>
    obtain ⟨-, -, hname, hid, hdate⟩ := hcarries
    rw [hname, Option.getD_some, normalizeHost_hostName dns'] at hhost
    rw [hdate] at hvalid
    rw [hid] at hconsume
    exact Or.inr ⟨hpath, hhost, of_decide_eq_true hvalid, hconsume⟩
  | accessToken now user session => exact absurd hcarries.2.2 hnone
  | routeAccessCookie now serviceID method email => exact absurd hcarries.2.2.2 hnone
  | hostSessionToken now jti user session host dns' => exact absurd hkey.symm ts.hostSessionSecret_ne_bridge

theorem grant_of_confused {acceptance : Acceptance}
    (hpresents : acceptance.Presents (ts.signatures.sign (minting.key ts) payload))
    (h : Confused ts moment minting acceptance) :
    ∃ grant, acceptance.grant ts moment = some grant ∧ ¬ minting.IsFor acceptance grant := by
  unfold Confused at h
  split at h
  · rename_i storesSessions now hostJti jti user session host dns' r dns
    obtain ⟨hpath, hhost, hdate, hconsume⟩ := h
    obtain ⟨-, -, hname, hid, hvalid⟩ := hcarries
    refine ⟨_, (routeAccessBridge_grant hpresents _).mpr ⟨hpath, rfl, ?_, ?_, ?_, rfl⟩, not_false⟩
    · rw [hvalid]
      exact decide_eq_true hdate
    · rw [hname, Option.getD_some, normalizeHost_hostName dns']
      exact hhost
    · rw [hid]
      exact hconsume
  · obtain ⟨hkey, hservice, hdate⟩ := h
    obtain ⟨-, hid, -, -, -, hvalid⟩ := hcarries
    refine ⟨_, (routeAccessCookie_grant hpresents _).mpr ⟨hkey, ?_, ?_, rfl⟩, not_false⟩
    · rw [hvalid]
      exact decide_eq_true hdate
    · rw [hid]
      exact hservice
  · exact h.elim

end Separation

/-- Whatever was authenticated before, a token that one of the issuers minted is accepted only for
what it was minted for, unless it is used as one of the other kind that it is confused with. -/
theorem tokens_separated_iff (ts : TokenService) (moment : Moment) (minting : Minting)
    (acceptance : Acceptance) (token : GoString) (hminted : minting.token ts = some token)
    (hpresents : acceptance.Presents token) :
    (∀ grant, acceptance.grant ts moment = some grant → minting.IsFor acceptance grant) ↔
      ¬ Confused ts moment minting acceptance := by
  obtain ⟨payload, rfl, hcarries⟩ := minted_signed hminted
  constructor
  · intro hall hconfused
    obtain ⟨grant, hgrant, hnot⟩ := grant_of_confused hcarries hpresents hconfused
    exact hnot (hall grant hgrant)
  · intro hclear grant hgrant
    cases acceptance with
    | accessToken token =>
      cases hpresents
      exact accessToken_isFor hcarries hgrant
    | routeAccessCookie r serviceID known =>
      exact (routeAccessCookie_isFor hcarries hpresents hgrant).resolve_right hclear
    | hostSessionToken token host dns =>
      cases hpresents
      exact hostSessionToken_isFor hcarries hgrant
    | sessionBridge r dns => exact sessionBridge_isFor hcarries hpresents hgrant
    | routeAccessBridge r dns => exact (routeAccessBridge_isFor hcarries hpresents hgrant).resolve_right hclear

end Tables

/-! ## A session bridge token at the wrong bridge -/

noncomputable def sampleTokens : TokenService where
  signatures := .ofCountable Payload
  hmac := fun key message => key ++ message
  jwtSigningSecret := [0x6A]
  sessionBridgeSecret := [0x73]
  issuer := []
  tokenTTL := 3600 * 1000000000
  routeAuthTTL := 3600 * 1000000000
  urlParse := fun _ => none
  hostKey_ne_signing := by decide +kernel
  hostKey_ne_bridge := by decide +kernel

def sampleMoment : Moment where
  backend := ⟨sampleAuth, rfl⟩
  history := []
  consumeBridgeToken := fun _ => true

def sampleHost : GoString := str "app.example.com"

theorem isDNSHost_sampleHost : IsDNSHost sampleHost := by decide +kernel

def sampleSessionBridge : Minting :=
  .sessionBridgeToken false 0 [0x31] [0x32] ⟨1, str "root@example.com", .admin, true, false, false, .password⟩ none
    sampleHost isDNSHost_sampleHost

def sampleRouteAccessBridge : Minting :=
  .routeAccessBridgeToken 0 [0x33] 7 sampleHost (str "pin") [] [] isDNSHost_sampleHost

def atRouteAccessBridge (token : GoString) : Acceptance :=
  .routeAccessBridge ⟨sampleRequest routeAccessBridgePath, token, str "https"⟩ isDNSHost_sampleHost

theorem minted_sampleSessionBridge :
    ∃ token, @Minting.token asciiTables sampleTokens sampleSessionBridge = some token := by
  simp only [sampleSessionBridge, Minting.token, TokenService.issueSessionBridgeToken]
  rw [if_neg (by decide +kernel)]
  exact ⟨_, rfl⟩

theorem minted_sampleRouteAccessBridge :
    ∃ token, @Minting.token asciiTables sampleTokens sampleRouteAccessBridge = some token := by
  simp only [sampleRouteAccessBridge, Minting.token, TokenService.issueRouteAccessBridgeToken]
  rw [if_neg (by decide +kernel)]
  exact ⟨_, rfl⟩

theorem presents_atRouteAccessBridge {minting : Minting} {token : GoString}
    (h : @Minting.token asciiTables sampleTokens minting = some token) :
    (atRouteAccessBridge token).Presents token := by
  obtain ⟨payload, rfl, -⟩ := @minted_signed asciiTables _ _ _ h
  exact @trimSpace_sign Payload sampleTokens.signatures _ payload

/-- The route access bridge takes it for a token of the service zero. -/
theorem sessionBridgeToken_atRouteAccessBridge :
    ∃ token, @Minting.token asciiTables sampleTokens sampleSessionBridge = some token ∧
      (atRouteAccessBridge token).Presents token ∧
      @Acceptance.grant asciiTables sampleTokens sampleMoment (atRouteAccessBridge token) = some (.routeAccess 0) ∧
      ¬ sampleSessionBridge.IsFor (atRouteAccessBridge token) (.routeAccess 0) := by
  obtain ⟨token, hminted⟩ := minted_sampleSessionBridge
  have hpresents := presents_atRouteAccessBridge hminted
  have hpath : normalizePath routeAccessBridgePath = routeAccessBridgePath := by decide +kernel
  refine ⟨token, hminted, hpresents, ?_, not_false⟩
  obtain ⟨payload, rfl, -, hservice, hname, hid, hvalid⟩ := @minted_signed asciiTables _ _ _ hminted
  refine (@routeAccessBridge_grant asciiTables _ _ _ _ _ _ hpresents _).mpr ⟨hpath, rfl, ?_, ?_, rfl, ?_⟩
  · rw [hvalid]
    decide
  · rw [hname, Option.getD_some, @normalizeHost_hostName asciiTables _ isDNSHost_sampleHost]
    rfl
  · rw [hservice]
    rfl

/-- A token of the service 7 is accepted there, for that service. -/
theorem tokens_separated_iff_routeAccess :
    ∃ token, @Minting.token asciiTables sampleTokens sampleRouteAccessBridge = some token ∧
      (atRouteAccessBridge token).Presents token ∧
      ∀ grant, @Acceptance.grant asciiTables sampleTokens sampleMoment (atRouteAccessBridge token) = some grant →
        sampleRouteAccessBridge.IsFor (atRouteAccessBridge token) grant := by
  obtain ⟨token, hminted⟩ := minted_sampleRouteAccessBridge
  have hpresents := presents_atRouteAccessBridge hminted
  refine ⟨token, hminted, hpresents, ?_⟩
  exact (@tokens_separated_iff asciiTables sampleTokens sampleMoment _ _ _ hminted hpresents).mpr not_false

end Portlyn.Proxy
