import Portlyn.Proxy.Access

/-! # The handler (`manager.go`, `transport.go`)

`handler` is `Manager.Handler` from the arrival of a request to the call of the route's reverse
proxy, which is the verdict `proxied`. `handler_proxied` says once what must have happened on the
way there; `proxied_authorized` and `forwarded_path_agrees_iff` are read off it. -/
namespace Portlyn.Proxy
open Go Domain Auth
set_option autoImplicit false

/-! ## Verdicts -/

inductive DenyReason
  | nonCanonicalPath
  | bootstrapAdminLocalOnly
  | ambiguousPath
  | networkPolicy
  | accessRuleDeny
  | authz
  | loginRequired
  | accessWindow
  | restrictedPolicy
deriving DecidableEq

inductive BuiltinEndpoint
  | sessionBridge
  | routeAccessBridge
  | magicLink
deriving DecidableEq

inductive Verdict
  | proxied (route : Route) (r : Request)
  | denied (reason : DenyReason) (response : Response)
  | notFound
  | degraded (reason : GoString)
  | builtin (endpoint : BuiltinEndpoint)
  | adminAPI (r : Request)
  | adminUI (r : Request)

def Verdict.isProxied : Verdict → Bool
  | .proxied _ _ => true
  | _ => false

def clientCertHeader : GoString := canonicalHeaderKey (str "X-Portlyn-Client-Cert-SHA256")

def clientCertSignatureHeader : GoString :=
  canonicalHeaderKey (str "X-Portlyn-Client-Cert-Signature")

def userEmailHeader : GoString := canonicalHeaderKey (str "X-Portlyn-User-Email")

def userRoleHeader : GoString := canonicalHeaderKey (str "X-Portlyn-User-Role")

def userIDHeader : GoString := canonicalHeaderKey (str "X-Portlyn-User-ID")

/-! ## A small installation -/

def sampleAuth : AuthService where
  now := 0
  apiTokens := none
  hashAPIToken := id
  verifyAccess := fun token => if token = str "token" then some ⟨1, 0, []⟩ else none
  verifyHostSession := fun _ _ => none
  verifyRouteAccess := fun _ => none
  sessions := none
  getUser := fun id =>
    if id = 1 then some ⟨1, str "root@example.com", .admin, true, false, false, .password⟩ else none
  getUserGroupIDs := fun _ => some []
  getCachedAuthResult := fun _ => none
  settings := none
  userHasPasskey := fun _ => false
  signedHere := fun token => token = str "token"

def sampleRoute (configPath : GoString) : Route where
  serviceID := 7
  configPath := configPath
  targetURL := str "http://10.0.0.9"
  service := ⟨str "example.com", str "app", []⟩
  effectivePolicy := ⟨.restricted, [.admin], []⟩
  configMethod := []
  effectiveMethodConfig := []
  allowPrefixes := []
  blockPrefixes := [everyV6]
  allowedCountries := []
  blockedCountries := []
  compiledWindows := [⟨[], [.thursday], 0, 60, utc⟩]
  accessRules := [⟨1, [], .deny, [], [], [[str "private"]], false⟩]

def sampleManager : Manager where
  now := 0
  auth := sampleAuth
  adminHost := []
  trustedProxyCIDRs := []
  bootstrapAdminEnabled := false
  bootstrapAdminAllowRemote := false
  hasAdminUI := false
  hasAdminAPI := false
  countryLookup := none
  reputation := none
  geoIPFailOpen := false
  crowdSecFailOpen := false
  routesForHost := fun host => if host = str "app.example.com" then some [sampleRoute (str "/")] else none
  degraded := fun _ => none
  sha256Hex := id
  clientCertHeaderSecret := []
  clientCertSign := fun _ _ => []

def sampleRequest (path : GoString) : Request where
  method := str "GET"
  host := str "app.example.com"
  remoteAddr := str "192.0.2.1:1234"
  url := ⟨path, []⟩
  header := [(str "Authorization", str "Bearer token")]
  tls := false
  peerCertificate := none

section Tables

theorem mapError_ok {ε ε' α : Type} {f : ε → ε'} {x : Except ε α} {a : α} (h : x.mapError f = .ok a) : x = .ok a := by
  cases x with
  | error e => cases h
  | ok b => simpa [Except.mapError] using h

variable [UnicodeTables]

/-! ## Headers -/

def isIdentityHeader (name : GoString) : Bool := hasPrefix (replaceByte 0x5F 0x2D (toLower name)) (str "x-portlyn-")

def sanitizePortlynIdentityHeaders (headers : Header) : Header := headers.filter fun line => !isIdentityHeader line.1

def sanitized (r : Request) : Request :=
  { r with header := sanitizePortlynIdentityHeaders r.header }

def clientCertSHA256 (m : Manager) (r : Request) : GoString :=
  match r.tls, r.peerCertificate with
  | true, some raw => m.sha256Hex raw
  | _, _ => []

def isPortlynCookieName (name : GoString) : Bool :=
  let name := toLower (trimSpace name)
  name = sessionCookieName || name = str "portlyn_refresh" || name = str "portlyn_csrf" ||
    hasPrefix name (str "portlyn_route_access_")

def stripPortlynCookies (headers : Header) : Header :=
  let parts := (headers.values (str "Cookie")).flatMap fun line =>
    ((line.splitOn semicolon).map trimSpace).filter (· ≠ [])
  let kept := parts.filter fun part => !isPortlynCookieName (cutBefore 0x3D part)
  if parts.any fun part => isPortlynCookieName (cutBefore 0x3D part) then
    if kept = [] then headers.del (str "Cookie") else headers.set (str "Cookie") ((str "; ").intercalate kept)
  else headers

def bearerToken (header : GoString) : GoString :=
  let header := trimSpace header
  if header.length < 7 ∨ equalFold (header.take 7) (str "Bearer ") = false then [] else trimSpace (header.drop 7)

def stripPortlynCredentials (m : Manager) (headers : Header) : Header :=
  let token := bearerToken (headers.get (str "Authorization"))
  stripPortlynCookies
    (if token ≠ [] ∧ isPortlynCredential m.auth token then headers.del (str "Authorization") else headers)

def setIdentityHeaders (m : Manager) (r : Request) (user : Option (User × List ℕ)) : Header :=
  let headers :=
    match user with
    | none => r.header
    | some (user, _) =>
      ((r.header.set userEmailHeader user.email).set userRoleHeader user.role.text).set userIDHeader (decimal user.id)
  let fingerprint := clientCertSHA256 m r
  if fingerprint ≠ [] then headers.set clientCertHeader fingerprint else headers.del clientCertHeader

def forwardRequest (m : Manager) (r : Request) (user : Option (User × List ℕ)) (canonicalPath : GoString) : Request :=
  { r with
    header := stripPortlynCredentials m (setIdentityHeaders m r user)
    url := canonicalizeURL canonicalPath r.url }

/-! ## Answers before a route is looked up -/

def builtinEndpoint (r : Request) : Option BuiltinEndpoint :=
  let path := normalizePath r.url.path
  if path = str "/_portlyn/session-bridge" then some .sessionBridge
  else if path = str "/_portlyn/route-access" then some .routeAccessBridge
  else if hasPrefix path (str "/_portlyn/magic/") then some .magicLink
  else none

def isLocalRequestSource (r : Request) : Bool :=
  let remote := trimSpace r.remoteAddr
  let host :=
    match splitHostPort remote with
    | some (host, _) => host
    | none => remote
  match parseAddr host with
  | some addr => addr.isLoopback || addr.isPrivate || addr.isLinkLocalUnicast
  | none => false

def Manager.allowAdminHost (m : Manager) (host : GoString) (r : Request) : Bool :=
  let normalized := normalizeHost host
  if m.adminHost ≠ [] ∧ normalized = m.adminHost then true
  else if !m.bootstrapAdminEnabled || !isBootstrapAdminHost normalized then false
  else if m.bootstrapAdminAllowRemote then true
  else isLocalRequestSource r

def adminRequest (m : Manager) (r : Request) : Request :=
  let headers := sanitizePortlynIdentityHeaders r.header
  let fingerprint := clientCertSHA256 m r
  if fingerprint = [] then { r with header := headers }
  else
    let headers := headers.set clientCertHeader fingerprint
    { r with
      header :=
        if m.clientCertHeaderSecret = [] then headers
        else headers.set clientCertSignatureHeader (m.clientCertSign m.clientCertHeaderSecret fingerprint) }

def isAdminAPIPath (path : GoString) : Bool :=
  hasPrefix path (str "/api/") || path = str "/livez" || path = str "/readyz" || path = str "/healthz" ||
    path = str "/metrics" || path = str "/install.sh"

def handleAdminHost (m : Manager) (r : Request) (path : GoString) : Option Verdict :=
  if isAdminAPIPath path then if m.hasAdminAPI then some (.adminAPI r) else none
  else if m.hasAdminUI then some (.adminUI r)
  else none

/-! ## The decision about a matched route -/

def denyIf (condition : Bool) (reason : DenyReason) (response : Response) : Except (DenyReason × Response) Unit :=
  if condition then .error (reason, response) else .ok ()

def because {α : Type} (reason : DenyReason) (result : Except Response α) : Except (DenyReason × Response) α :=
  result.mapError fun response => (reason, response)

def matchedAccessRule (m : Manager) (r : Request) (route : Route) (path : GoString) : Option CompiledAccessRule :=
  if route.accessRules = [] then none
  else (realClientIP m.trustedProxyCIDRs r).bind fun clientIP => matchAccessRule route.accessRules clientIP path

def Route.withRule (route : Route) (rule : Option CompiledAccessRule) : Route :=
  let mode := route.effectivePolicy.accessMode
  if rule.any (·.action = .authenticate) ∧ (mode = .unset ∨ mode = .publicMode) then
    { route with effectivePolicy := { route.effectivePolicy with accessMode := .authenticated } }
  else route

def writeAccessDenied (r : Request) : Response :=
  if wantsHTML r then .accessDeniedPage else forbidden (str "access denied")

def restrictedDenied (r : Request) (route : Route) : Response :=
  if expectsTokenAuth r || !wantsHTML r then forbidden (str "restricted service policy denied access")
  else .routeForbidden route.serviceID

def authzReason : Response → DenyReason
  | .routeLogin _ => .loginRequired
  | _ => .authz

/-- An allow rule takes the place of `authorizeRequest`. -/
def authorizeUnlessAllowed (m : Manager) (r : Request) (route : Route) (allowedByRule : Bool) :
    Except (DenyReason × Response) (Option (User × List ℕ)) :=
  if allowedByRule then .ok none else (authorizeRequest m r route).mapError fun e => (authzReason e, e)

/-- Network rules, access rules, method and mode, windows and the restricted policy, in this order.
-/
def authorizeRoute (m : Manager) (r : Request) (route : Route) (path : GoString) :
    Except (DenyReason × Response) (Option (User × List ℕ)) := do
  because .networkPolicy (enforceNetworkRules m r route)
  let rule := matchedAccessRule m r route path
  denyIf (rule.any (·.action = .deny)) .accessRuleDeny (writeAccessDenied r)
  let route := route.withRule rule
  let allowedByRule := rule.any (·.action = .allow)
  let user ← authorizeUnlessAllowed m r route allowedByRule
  because .accessWindow (enforceAccessWindows m route)
  denyIf (route.effectivePolicy.accessMode = .restricted && !allowedByRule &&
    !isAllowedByRestrictedPolicy user route.effectivePolicy) .restrictedPolicy (restrictedDenied r route)
  .ok user

def ambiguousPath (m : Manager) (host path : GoString) (route : Route) : Bool :=
  decide (semicolon ∈ path) &&
    match m.matchRoute host (normalizePath (stripPathParams path)) with
    | none => true
    | some paramRoute => paramRoute.serviceID ≠ route.serviceID || paramRoute.path ≠ route.path

def serveRoute (m : Manager) (r : Request) (host path canonicalPath : GoString) : Verdict :=
  match m.matchRoute host path with
  | none => .notFound
  | some route =>
    if ambiguousPath m host path route then
      .denied .ambiguousPath (.error 400 (str "invalid_path") (str "request path parameters change the matched route"))
    else
      let r := sanitized r
      match authorizeRoute m r route path with
      | .error (reason, response) => .denied reason response
      | .ok user =>
        match m.degraded route.targetURL with
        | some reason => .degraded reason
        | none => .proxied route (forwardRequest m r user canonicalPath)

def handler (m : Manager) (r : Request) : Verdict :=
  match canonicalRequestPath r.url.path with
  | none =>
    .denied .nonCanonicalPath (.error 400 (str "invalid_path") (str "request path must not contain dot segments"))
  | some canonicalPath =>
    match builtinEndpoint r with
    | some endpoint => .builtin endpoint
    | none =>
      let host := normalizeHost r.host
      let path := normalizePath r.url.path
      let admin := m.allowAdminHost host r
      let r := if admin then adminRequest m r else r
      match if admin then handleAdminHost m r path else none with
      | some verdict => verdict
      | none =>
        if m.bootstrapAdminEnabled && !m.bootstrapAdminAllowRemote && isBootstrapAdminHost host &&
            !isLocalRequestSource r then .denied .bootstrapAdminLocalOnly .bootstrapAdminHint
        else serveRoute m r host path canonicalPath

/-! ## What must have happened before a request is proxied -/

variable {m : Manager} {r : Request} {route : Route}

theorem serveRoute_proxied {req : Request} {host path canonicalPath : GoString}
    (h : serveRoute m r host path canonicalPath = .proxied route req) :
    m.matchRoute host path = some route ∧ ∃ user,
      authorizeRoute m (sanitized r) route path = .ok user ∧
        req = forwardRequest m (sanitized r) user canonicalPath := by
  unfold serveRoute at h
  split at h
  · cases h
  · rename_i found hfound
    split_ifs at h
    dsimp only at h
    split at h
    · cases h
    · rename_i user huser
      split at h
      · cases h
      · cases h
        exact ⟨hfound, user, huser, rfl⟩

theorem allowAdminHost_of_isAdminHost {host : GoString} (h : m.isAdminHost host = false)
    (r : Request) : m.allowAdminHost host r = false := by
  simp only [Manager.isAdminHost, Bool.or_eq_false_iff, Bool.and_eq_false_iff, decide_eq_false_iff_not] at h
  unfold Manager.allowAdminHost
  rw [if_neg (by tauto)]
  rcases h.2 with h2 | h2 <;> simp [h2]

theorem handler_proxied {req : Request}
    (hhost : m.isAdminHost (normalizeHost r.host) = false) (h : handler m r = .proxied route req) :
    ∃ canonicalPath user, canonicalRequestPath r.url.path = some canonicalPath ∧
      m.matchRoute (normalizeHost r.host) (normalizePath r.url.path) = some route ∧
      authorizeRoute m (sanitized r) route (normalizePath r.url.path) =
        .ok user ∧
      req = forwardRequest m (sanitized r) user canonicalPath := by
  unfold handler at h
  split at h
  · cases h
  · rename_i canonicalPath hcan
    split at h
    · cases h
    · simp only [allowAdminHost_of_isAdminHost hhost r, Bool.false_eq_true, if_false] at h
      split_ifs at h
      obtain ⟨hroute, user, huser, hreq⟩ := serveRoute_proxied h
      exact ⟨canonicalPath, user, hcan, hroute, huser, hreq⟩

/-! ## Removing the proxy's own headers changes no decision -/

structure SameCredentials (r r' : Request) : Prop where
  host : r.host = r'.host
  remoteAddr : r.remoteAddr = r'.remoteAddr
  values : ∀ name ∈ [xForwardedFor, xRealIp, str "Authorization", str "Cookie"],
    r.header.values name = r'.header.values name

namespace SameCredentials
variable {r r' : Request}

omit [UnicodeTables] in
theorem get (h : SameCredentials r r') {name : GoString}
    (hname : name ∈ [xForwardedFor, xRealIp, str "Authorization", str "Cookie"]) :
    r.header.get name = r'.header.get name := by
  rw [Header.get, Header.get, h.values name hname]

omit [UnicodeTables] in
theorem realClientIP (h : SameCredentials r r') (trusted : List GoString) :
    realClientIP trusted r = Proxy.realClientIP trusted r' := by
  unfold Proxy.realClientIP requestFromTrustedProxy
  rw [h.remoteAddr, h.get (by simp : xForwardedFor ∈ _), h.get (by simp : xRealIp ∈ _)]

omit [UnicodeTables] in
theorem cookie (h : SameCredentials r r') (name : GoString) : r.cookie name = r'.cookie name := by
  unfold Request.cookie
  rw [h.values _ (by simp)]

theorem authenticated (h : SameCredentials r r') {m : Manager} {user : User} {groupIDs : List ℕ}
    (hr : Authenticated m r user groupIDs) : Authenticated m r' user groupIDs := by
  obtain ⟨session, hauth, hrest⟩ := hr
  refine ⟨session, ?_, hrest⟩
  rw [← hauth]
  unfold authenticateHostRequest bearerOf
  rw [h.host, h.get (by simp : str "Authorization" ∈ _), h.cookie]

omit [UnicodeTables] in
theorem routeCookie (h : SameCredentials r r') {m : Manager} {route : Route} {claims : RouteAccessClaims}
    (hr : RouteCookie m r route claims) : RouteCookie m r' route claims := by
  obtain ⟨⟨value, hvalue, hver⟩, hservice, hmethod⟩ := hr
  exact ⟨⟨value, by rw [← h.cookie, hvalue], hver⟩, hservice, hmethod⟩

theorem methodSatisfied (h : SameCredentials r r') {m : Manager} {route : Route}
    (hr : MethodSatisfied m r route) : MethodSatisfied m r' route := by
  unfold MethodSatisfied at hr ⊢
  cases hm : route.effectiveMethod with
  | session => trivial
  | oidcOnly =>
    simp only [hm] at hr
    obtain ⟨user, groupIDs, hauth, hrest⟩ := hr
    exact ⟨user, groupIDs, h.authenticated hauth, hrest⟩
  | pin =>
    simp only [hm] at hr
    obtain ⟨claims, hclaims⟩ := hr
    exact ⟨claims, h.routeCookie hclaims⟩
  | emailCode =>
    simp only [hm] at hr
    obtain ⟨claims, hclaims, hemail⟩ := hr
    exact ⟨claims, h.routeCookie hclaims, hemail⟩

end SameCredentials

theorem isIdentityHeader_credentials :
    ∀ name ∈ [xForwardedFor, xRealIp, str "Authorization", str "Cookie"], isIdentityHeader name = false := by
  have hascii : ∀ name ∈ [xForwardedFor, xRealIp, str "Authorization", str "Cookie"], (∀ b ∈ name, b.toNat < 0x80) ∧
      hasPrefix (replaceByte 0x5F 0x2D (name.map fun b => UInt8.ofNat (asciiLower b.toNat)))
      (str "x-portlyn-") = false := by
    decide +kernel
  intro name hname
  obtain ⟨hlt, hpre⟩ := hascii name hname
  rw [isIdentityHeader, toLower_of_ascii hlt, hpre]

theorem sameCredentials_sanitize (r : Request) :
    SameCredentials (sanitized r) r := by
  refine ⟨rfl, rfl, fun name hname => ?_⟩
  have hname' := isIdentityHeader_credentials name hname
  simp only [Header.values, sanitized, sanitizePortlynIdentityHeaders, List.filter_filter]
  congr 1
  apply List.filter_congr
  intro line _
  by_cases hl : line.1 = name
  · simp [hl, hname']
  · simp [hl]

/-! ## Authorization -/

structure AccessGranted (m : Manager) (r : Request) (route : Route) : Prop where
  method : MethodSatisfied m r route
  supported : ∀ raw, route.effectivePolicy.accessMode ≠ .other raw
  identity : route.effectivePolicy.accessMode = .authenticated ∨ route.effectivePolicy.accessMode = .restricted →
    (∃ user groupIDs, Authenticated m r user groupIDs) ∨ route.effectiveMethod = .pin ∨
    route.effectiveMethod = .emailCode
  restricted : route.effectivePolicy.accessMode = .restricted → ∃ user groupIDs, Authenticated m r user groupIDs ∧
    (user.role ∈ route.effectivePolicy.allowedRoles ∨ ∃ id ∈ route.effectivePolicy.allowedGroups, id ∈ groupIDs)

structure Authorized (m : Manager) (r : Request) (route : Route) (ip : Addr) : Prop where
  clientIP : realClientIP m.trustedProxyCIDRs r = some ip
  network : NetworkAllowed m route ip
  notDenied : ∀ rule, matchAccessRule route.accessRules ip (normalizePath r.url.path) = some rule → rule.action ≠ .deny
  access : (∃ rule, matchAccessRule route.accessRules ip (normalizePath r.url.path) = some rule ∧
    rule.action = .allow) ∨
    AccessGranted m r (route.withRule (matchAccessRule route.accessRules ip (normalizePath r.url.path)))
  window : route.compiledWindows ≠ [] → ∃ w ∈ route.compiledWindows, accessWindowMatches w m.now = true

omit [UnicodeTables] in
theorem denyIf_ok {condition : Bool} {reason : DenyReason} {response : Response}
    (h : denyIf condition reason response = .ok ()) : condition = false := by
  unfold denyIf at h
  split_ifs at h with hc
  simpa using hc

theorem matchedAccessRule_eq {path : GoString} {ip : Addr}
    (h : realClientIP m.trustedProxyCIDRs r = some ip) :
    matchedAccessRule m r route path = matchAccessRule route.accessRules ip path := by
  unfold matchedAccessRule
  split_ifs with hnil
  · rw [hnil]
    rfl
  · rw [h]
    rfl

omit [UnicodeTables] in
theorem withRule_compiledWindows (route : Route) (rule : Option CompiledAccessRule) :
    (route.withRule rule).compiledWindows = route.compiledWindows := by
  unfold Route.withRule
  dsimp only
  split_ifs <;> rfl

theorem SameCredentials.accessGranted {r' : Request} (h : SameCredentials r r')
    (hr : AccessGranted m r route) : AccessGranted m r' route := by
  refine ⟨h.methodSatisfied hr.method, hr.supported, fun hmode => ?_, fun hmode => ?_⟩
  · rcases hr.identity hmode with ⟨user, groupIDs, hauth⟩ | hself
    · exact Or.inl ⟨user, groupIDs, h.authenticated hauth⟩
    · exact Or.inr hself
  · obtain ⟨user, groupIDs, hauth, hlisted⟩ := hr.restricted hmode
    exact ⟨user, groupIDs, h.authenticated hauth, hlisted⟩

theorem accessGranted_of_ok {user : Option (User × List ℕ)}
    (hhost : m.isAdminHost (normalizeHost r.host) = false) (h : authorizeRequest m r route = .ok user)
    (hrestricted : route.effectivePolicy.accessMode = .restricted →
      isAllowedByRestrictedPolicy user route.effectivePolicy = true) : AccessGranted m r route := by
  obtain ⟨hmethod, hsupported, hauth, hid⟩ := authorizeRequest_ok hhost h
  refine ⟨hmethod, hsupported, fun hmode => ?_, fun hmode => ?_⟩
  · rcases hid hmode with ⟨u, g, hu⟩ | hself
    · exact Or.inl ⟨u, g, hauth u g hu⟩
    · exact Or.inr (by simpa [methodIsSelfSufficient] using hself)
  · obtain ⟨u, g, hu, hlisted⟩ := (isAllowedByRestrictedPolicy_iff _ _).mp (hrestricted hmode)
    exact ⟨u, g, hauth u g hu, hlisted⟩

theorem authorizeRoute_ok {user : Option (User × List ℕ)}
    (hhost : m.isAdminHost (normalizeHost r.host) = false)
    (h : authorizeRoute m r route (normalizePath r.url.path) = .ok user) : ∃ ip, Authorized m r route ip := by
  obtain ⟨⟨⟩, hnet, h⟩ := bind_eq_ok h
  obtain ⟨ip, hip, hnetwork⟩ := enforceNetworkRules_ok (mapError_ok hnet)
  rw [matchedAccessRule_eq hip] at h
  set rule := matchAccessRule route.accessRules ip (normalizePath r.url.path) with hrule
  obtain ⟨⟨⟩, hdeny, h⟩ := bind_eq_ok h
  obtain ⟨given, hgiven, h⟩ := bind_eq_ok h
  obtain ⟨⟨⟩, hwindow, h⟩ := bind_eq_ok h
  obtain ⟨⟨⟩, hrestricted, -⟩ := bind_eq_ok h
  have hdeny' := denyIf_ok hdeny
  have hres := denyIf_ok hrestricted
  refine ⟨ip, hip, hnetwork, fun x hx hact => ?_, ?_, fun hne => ?_⟩
  · rw [← hrule] at hx
    simp [hx, hact] at hdeny'
  · rw [← hrule]
    cases hallow : rule.any (·.action = .allow) with
    | true =>
      cases hx : rule with
      | none => simp [hx] at hallow
      | some x => exact Or.inl ⟨x, rfl, by simpa [hx] using hallow⟩
    | false =>
      simp only [hallow] at hgiven hres
      refine Or.inr (accessGranted_of_ok hhost (mapError_ok hgiven) fun hmode => ?_)
      simpa [hmode] using hres
  · have hw := enforceAccessWindows_ok (mapError_ok hwindow)
    rw [withRule_compiledWindows] at hw
    exact hw hne

/-- A request to a service host reaches the route's reverse proxy only when it is authorized. -/
theorem proxied_authorized (m : Manager) (r req : Request) (route : Route)
    (hhost : m.isAdminHost (normalizeHost r.host) = false) (h : handler m r = .proxied route req) :
    m.matchRoute (normalizeHost r.host) (normalizePath r.url.path) = some route ∧ ∃ ip, Authorized m r route ip := by
  obtain ⟨canonicalPath, user, -, hroute, huser, -⟩ := handler_proxied hhost h
  refine ⟨hroute, ?_⟩
  obtain ⟨ip, hip, hnetwork, hdeny, haccess, hwindow⟩ := @authorizeRoute_ok _ m (sanitized r) route user hhost huser
  have hsame := sameCredentials_sanitize r
  refine ⟨ip, by rw [← hsame.realClientIP, hip], hnetwork, hdeny, ?_, hwindow⟩
  exact haccess.imp id hsame.accessGranted

end Tables

theorem proxied_authorized_sample : ∃ route ip,
    @Authorized asciiTables sampleManager (sampleRequest (str "/public")) route ip := by
  have hproxied : (@handler asciiTables sampleManager (sampleRequest (str "/public"))).isProxied =
    true := by decide +kernel
  cases hv : @handler asciiTables sampleManager (sampleRequest (str "/public")) with
  | proxied route req =>
    obtain ⟨-, ip, hip⟩ := @proxied_authorized asciiTables sampleManager _ req route (by decide +kernel) hv
    exact ⟨route, ip, hip⟩
  | _ => simp [hv, Verdict.isProxied] at hproxied

section Tables
variable [UnicodeTables]

/-! ## Paths -/

theorem matchRoute_matchesPath {m : Manager} {host path : GoString} {route : Route}
    (h : m.matchRoute host path = some route) : matchesPath route.path path = true := by
  unfold Manager.matchRoute at h
  dsimp only at h
  split_ifs at h
  obtain ⟨routes, -, hfind⟩ := Option.bind_eq_some_iff.mp h
  simpa using List.find?_some hfind

/-- For every route table and every path that is not refused: the policy's segments are the route's
followed by the forwarded ones exactly when no white space is trimmed from either path and the
request path starts with a slash (or the route is the root and the path has no backslash). In every
case the forwarded path is what the escaped form decodes to, and it has no dot segment. -/
theorem forwarded_path_agrees_iff (m : Manager) (host : GoString) (u v : URL) (route : Route)
    (hroute : m.matchRoute host (normalizePath u.path) = some route) (hfwd : forwardURL route.path u = some v) :
    (segments (normalizePath u.path) = segments route.path ++ segments v.path ↔
      trimSpace u.path = u.path ∧ trimSpace route.path = route.path ∧
        (hasPrefix u.path [slash] = true ∨ route.path = [slash] ∧ backslash ∉ u.path)) ∧
      unescapePath v.escapedPath = some v.path ∧ ∀ seg ∈ segments v.path, isDotSegment seg = false :=
  ⟨forwardURL_agrees_iff hfwd (matchRoute_matchesPath hroute), unescapePath_escapedPath v,
    forwardURL_no_dotSegment hfwd⟩

end Tables

theorem forwarded_path_agrees_sample :
    segments (normalizePath (str "/docs//a")) = segments (sampleRoute (str "/")).path ++ segments (str "/docs/a") := by
  have hhost : @normalizeHost asciiTables (str "app.example.com") = str "app.example.com" := by decide +kernel
  have hvalid : validRouteHost (str "app.example.com") = true := by decide +kernel
  have hpath : matchesPath (sampleRoute (str "/")).path (normalizePath (str "/docs//a")) = true := by decide +kernel
  have hroute : @Manager.matchRoute asciiTables sampleManager (str "app.example.com") (normalizePath (str "/docs//a")) =
      some (sampleRoute (str "/")) := by
    simp [Manager.matchRoute, hhost, hvalid, sampleManager, hpath]
  have hfwd : forwardURL (sampleRoute (str "/")).path ⟨str "/docs//a", []⟩ =
    some ⟨str "/docs/a", []⟩ := by decide +kernel
  exact ((@forwarded_path_agrees_iff asciiTables sampleManager (str "app.example.com") ⟨str "/docs//a", []⟩
    ⟨str "/docs/a", []⟩ (sampleRoute (str "/")) hroute hfwd).1).mpr (by decide +kernel)

/-- A path with a blank at its end is matched without it and forwarded with it. -/
theorem forwarded_path_trailing_blank :
    canonicalRequestPath (str "/admin ") = some (str "/admin ") ∧
      ((@Manager.matchRoute asciiTables sampleManager (str "app.example.com")
        (normalizePath (str "/admin "))).map Route.path =
        some (str "/")) ∧
      (forwardURL (str "/") ⟨str "/admin ", []⟩).map URL.path = some (str "/admin ") ∧
      segments (normalizePath (str "/admin ")) = [str "admin"] ∧
        segments (str "/admin ") = [str "admin "] := by
  decide +kernel

end Portlyn.Proxy
