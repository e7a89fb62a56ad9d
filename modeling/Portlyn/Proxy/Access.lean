import Portlyn.Proxy.NetworkRules

/-! # Access methods, modes and windows (`access.go`)

`authorizeRequest` asks the route's access method first and then its mode. A PIN or an e-mail code
is enough for any mode but the restricted one, which also wants a user; the handler checks that
last. -/
namespace Portlyn.Proxy
open Go Domain Auth
set_option autoImplicit false

section Tables
variable [UnicodeTables]

/-! ## The functions of the source -/

def expectsTokenAuth (r : Request) : Bool := trimSpace (r.header.get (str "Authorization")) ≠ []

def wantsHTML (r : Request) : Bool :=
  decide (str "text/html" <:+: toLower (r.header.get (str "Accept")))

def allowedEmails (config : JsonObject) : List GoString :=
  match config.lookup (str "allowed_emails") with
  | some (.array items) =>
    items.filterMap fun
      | .string s => some (toLower (trimSpace s))
      | _ => none
  | _ => []

def routeEmailAllowed (email : GoString) (config : JsonObject) : Bool :=
  let normalized := toLower (trimSpace email)
  if allowedEmails config ≠ [] then (allowedEmails config).any fun allowed => allowed ≠ [] && allowed = normalized
  else
    match config.lookup (str "allowed_email_domain") with
    | some (.string raw) =>
      let lowered := toLower (trimSpace raw)
      let allowed := if hasPrefix lowered [0x40] then lowered.drop 1 else lowered
      if allowed = [] then true
      else
        match normalized.splitOn 0x40 with
        | [_, domain] => domain = allowed
        | _ => false
    | _ => true

def authenticateProxyRequest (m : Manager) (r : Request) : Except ℕ Identity :=
  let host := normalizeHost r.host
  let result := if m.isAdminHost host then authenticateRequest m.auth r else authenticateHostRequest m.auth r host
  match result with
  | .error _ => .error 401
  | .ok identity => if bootstrapAccessAllowed m.auth identity.1 identity.2.2 then .ok identity else .error 403

def statusCode (status : ℕ) : GoString := if status = 401 then str "unauthorized" else str "forbidden"

def statusMessage (status : ℕ) : GoString :=
  if status = 401 then str "missing or invalid bearer token" else str "insufficient permissions"

def redirectToRouteLogin (r : Request) (route : Route) : Response :=
  if loginAllowedOnHost route.service (normalizeHost r.host) then .routeLogin route.serviceID
  else .error 403 (str "login_not_enabled") (str "login is not enabled for this subdomain")

def enforceAccessMethod (m : Manager) (r : Request) (route : Route) : Except Response (Option (User × List ℕ)) :=
  match route.effectiveMethod with
  | .session => .ok none
  | .oidcOnly =>
    match authenticateProxyRequest m r with
    | .error _ => .error (redirectToRouteLogin r route)
    | .ok (user, groupIDs, _) =>
      if user.authProvider ≠ .oidc ∨ user.active = false then .error (redirectToRouteLogin r route)
      else .ok (some (user, groupIDs))
  | .pin | .emailCode =>
    match routeAccessCookieClaims m.auth r route.serviceID with
    | none => .error (redirectToRouteLogin r route)
    | some claims =>
      if claims.method ≠ route.effectiveMethod.text then .error (redirectToRouteLogin r route)
      else if route.effectiveMethod = .emailCode ∧
        routeEmailAllowed claims.email route.effectiveMethodConfig = false then
        .error (redirectToRouteLogin r route)
      else .ok none

def methodIsSelfSufficient (method : AccessMethod) : Bool := method = .pin || method = .emailCode

/-- The branch of `authorizeRequest` for the two modes that need a user. -/
def requireUser (m : Manager) (r : Request) (route : Route) (user : Option (User × List ℕ)) :
    Except Response (Option (User × List ℕ)) :=
  if user = none ∧ methodIsSelfSufficient route.effectiveMethod = false then
    match authenticateProxyRequest m r with
    | .ok (user, groupIDs, _) => .ok (some (user, groupIDs))
    | .error status =>
      .error (if route.effectiveMethod = .session ∧ expectsTokenAuth r then
        .error status (statusCode status) (statusMessage status)
      else redirectToRouteLogin r route)
  else .ok user

def authorizeRequest (m : Manager) (r : Request) (route : Route) : Except Response (Option (User × List ℕ)) :=
  match enforceAccessMethod m r route with
  | .error response => .error response
  | .ok user =>
    match route.effectivePolicy.accessMode with
    | .unset | .publicMode => .ok user
    | .authenticated | .restricted => requireUser m r route user
    | .other _ => .error (forbidden (str "unsupported access policy"))

def accessWindowMatches (window : CompiledAccessWindow) (now : Instant) : Bool :=
  let currentMinutes := now.hour window.location * 60 + now.minute window.location
  (window.weekdays = [] || now.weekday window.location ∈ window.weekdays) &&
    (if window.startMinutes ≤ window.endMinutes then
      window.startMinutes ≤ currentMinutes && currentMinutes ≤ window.endMinutes
    else window.startMinutes ≤ currentMinutes || currentMinutes ≤ window.endMinutes)

def enforceAccessWindows (m : Manager) (route : Route) : Except Response Unit :=
  if route.compiledWindows = [] ∨ route.compiledWindows.any (accessWindowMatches · m.now) then .ok ()
  else .error (.error 403 (str "outside_access_window") (str "service is outside its configured access window"))

def isAllowedByRestrictedPolicy (user : Option (User × List ℕ)) (policy : AccessPolicy) : Bool :=
  match user with
  | none => false
  | some (user, groupIDs) => user.role ∈ policy.allowedRoles || policy.allowedGroups.any (· ∈ groupIDs)

/-! ## What passes -/

/-- A user the proxy has authenticated on a service host, with the bootstrap duties done. -/
def Authenticated (m : Manager) (r : Request) (user : User) (groupIDs : List ℕ) : Prop :=
  ∃ session, authenticateHostRequest m.auth r (normalizeHost r.host) = .ok (user, groupIDs, session) ∧
    Live m.auth.now (user, groupIDs, session) ∧ bootstrapAccessAllowed m.auth user session = true

structure RouteCookie (m : Manager) (r : Request) (route : Route) (claims : RouteAccessClaims) : Prop where
  verified : ∃ value, r.cookie (sessionCookieNameForService route.serviceID) = some value ∧
    m.auth.verifyRouteAccess value = some claims
  service : claims.serviceID = route.serviceID
  method : claims.method = route.effectiveMethod.text

def MethodSatisfied (m : Manager) (r : Request) (route : Route) : Prop :=
  match route.effectiveMethod with
  | .session => True
  | .oidcOnly => ∃ user groupIDs, Authenticated m r user groupIDs ∧ user.authProvider = .oidc ∧ user.active = true
  | .pin => ∃ claims, RouteCookie m r route claims
  | .emailCode =>
    ∃ claims, RouteCookie m r route claims ∧
      routeEmailAllowed claims.email route.effectiveMethodConfig = true

theorem authenticateProxyRequest_ok {m : Manager} {r : Request} {user : User} {groupIDs : List ℕ}
    {session : Option Session} (hhost : m.isAdminHost (normalizeHost r.host) = false)
    (h : authenticateProxyRequest m r = .ok (user, groupIDs, session)) :
    Authenticated m r user groupIDs := by
  unfold authenticateProxyRequest at h
  simp only [hhost] at h
  split at h
  · cases h
  · rename_i identity hid
    split_ifs at h with hboot
    cases h
    exact ⟨session, hid, authenticateHostRequest_live hid, hboot⟩

omit [UnicodeTables] in
theorem routeCookie_of_claims {m : Manager} {r : Request} {route : Route} {claims : RouteAccessClaims}
    (h : routeAccessCookieClaims m.auth r route.serviceID = some claims)
    (hmethod : claims.method = route.effectiveMethod.text) : RouteCookie m r route claims := by
  unfold routeAccessCookieClaims at h
  split at h
  · cases h
  · rename_i value hvalue
    split at h
    · cases h
    · rename_i verified hver
      split_ifs at h with hid
      cases h
      exact ⟨⟨value, hvalue, hver⟩, not_not.mp hid, hmethod⟩

theorem enforceAccessMethod_ok {m : Manager} {r : Request} {route : Route}
    {user : Option (User × List ℕ)} (hhost : m.isAdminHost (normalizeHost r.host) = false)
    (h : enforceAccessMethod m r route = .ok user) :
    MethodSatisfied m r route ∧ ∀ u g, user = some (u, g) → Authenticated m r u g := by
  unfold enforceAccessMethod at h
  unfold MethodSatisfied
  cases hm : route.effectiveMethod with
  | session =>
    simp only [hm] at h
    cases h
    exact ⟨trivial, by simp⟩
  | oidcOnly =>
    simp only [hm] at h
    split at h
    · cases h
    · rename_i u g session hauth
      split_ifs at h with hoidc
      cases h
      rw [not_or, not_not, Bool.not_eq_false] at hoidc
      have hu := authenticateProxyRequest_ok hhost hauth
      refine ⟨⟨u, g, hu, hoidc⟩, ?_⟩
      rintro _ _ ⟨⟩
      exact hu
  | pin =>
    simp only [hm] at h
    split at h
    · cases h
    · rename_i claims hclaims
      split_ifs at h with h1
      cases h
      exact ⟨⟨claims, routeCookie_of_claims hclaims (by rw [hm]; exact not_not.mp h1)⟩, by simp⟩
  | emailCode =>
    simp only [hm] at h
    split at h
    · cases h
    · rename_i claims hclaims
      split_ifs at h with h1 h2
      cases h
      refine ⟨⟨claims, routeCookie_of_claims hclaims (by rw [hm]; exact not_not.mp h1), ?_⟩, by simp⟩
      simpa using h2

structure ModeSatisfied (m : Manager) (r : Request) (route : Route) (user : Option (User × List ℕ)) : Prop where
  supported : ∀ raw, route.effectivePolicy.accessMode ≠ .other raw
  authenticated : ∀ u g, user = some (u, g) → Authenticated m r u g
  identity : route.effectivePolicy.accessMode = .authenticated ∨ route.effectivePolicy.accessMode = .restricted →
    (∃ u g, user = some (u, g)) ∨ methodIsSelfSufficient route.effectiveMethod = true

theorem requireUser_ok {m : Manager} {r : Request} {route : Route}
    {given user : Option (User × List ℕ)} (hhost : m.isAdminHost (normalizeHost r.host) = false)
    (hgiven : ∀ u g, given = some (u, g) → Authenticated m r u g)
    (h : requireUser m r route given = .ok user) :
    (∀ u g, user = some (u, g) → Authenticated m r u g) ∧
      ((∃ u g, user = some (u, g)) ∨ methodIsSelfSufficient route.effectiveMethod = true) := by
  unfold requireUser at h
  by_cases hnone : given = none ∧ methodIsSelfSufficient route.effectiveMethod = false
  · rw [if_pos hnone] at h
    split at h
    · rename_i u g session hauth
      cases h
      refine ⟨?_, Or.inl ⟨u, g, rfl⟩⟩
      rintro _ _ ⟨⟩
      exact authenticateProxyRequest_ok hhost hauth
    · cases h
  · rw [if_neg hnone] at h
    cases h
    refine ⟨hgiven, ?_⟩
    cases given with
    | none => exact Or.inr (by simpa using hnone)
    | some p => exact Or.inl ⟨p.1, p.2, rfl⟩

theorem authorizeRequest_ok {m : Manager} {r : Request} {route : Route}
    {user : Option (User × List ℕ)} (hhost : m.isAdminHost (normalizeHost r.host) = false)
    (h : authorizeRequest m r route = .ok user) :
    MethodSatisfied m r route ∧ ModeSatisfied m r route user := by
  unfold authorizeRequest at h
  split at h
  · cases h
  · rename_i given hgiven
    obtain ⟨hmethod, huser⟩ := enforceAccessMethod_ok hhost hgiven
    refine ⟨hmethod, ?_⟩
    cases hmode : route.effectivePolicy.accessMode with
    | unset =>
      simp only [hmode] at h
      cases h
      exact ⟨by simp [hmode], huser, by simp [hmode]⟩
    | publicMode =>
      simp only [hmode] at h
      cases h
      exact ⟨by simp [hmode], huser, by simp [hmode]⟩
    | authenticated =>
      simp only [hmode] at h
      obtain ⟨hu, hid⟩ := requireUser_ok hhost huser h
      exact ⟨by simp [hmode], hu, fun _ => hid⟩
    | restricted =>
      simp only [hmode] at h
      obtain ⟨hu, hid⟩ := requireUser_ok hhost huser h
      exact ⟨by simp [hmode], hu, fun _ => hid⟩
    | other raw =>
      simp only [hmode] at h
      cases h

omit [UnicodeTables] in
theorem enforceAccessWindows_ok {m : Manager} {route : Route}
    (h : enforceAccessWindows m route = .ok ()) (hne : route.compiledWindows ≠ []) :
    ∃ w ∈ route.compiledWindows, accessWindowMatches w m.now = true := by
  unfold enforceAccessWindows at h
  split_ifs at h with hw
  simpa [hne] using hw

omit [UnicodeTables] in
theorem isAllowedByRestrictedPolicy_iff (user : Option (User × List ℕ)) (policy : AccessPolicy) :
    isAllowedByRestrictedPolicy user policy = true ↔
      ∃ u g, user = some (u, g) ∧ (u.role ∈ policy.allowedRoles ∨ ∃ id ∈ policy.allowedGroups, id ∈ g) := by
  cases user with
  | none => simp [isAllowedByRestrictedPolicy]
  | some p =>
    obtain ⟨u, g⟩ := p
    simp only [isAllowedByRestrictedPolicy, Bool.or_eq_true, decide_eq_true_eq, List.any_eq_true]
    refine ⟨fun h => ⟨u, g, rfl, h⟩, ?_⟩
    rintro ⟨_, _, ⟨⟩, h⟩
    exact h

end Tables
end Portlyn.Proxy
