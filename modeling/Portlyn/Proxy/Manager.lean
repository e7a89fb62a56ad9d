import Portlyn.Auth.Authenticate
import Portlyn.Proxy.AccessRules
import Portlyn.Proxy.ClientIP

/-! # Routes and the manager (`manager.go`, `routing_runtime.go`)

What `Manager.Handler` reads: the route table, the two look-ups by client address, the clock and the
authentication service. The handler's answers are data (`Response`). -/
namespace Portlyn.Proxy
open Go Domain Auth
set_option autoImplicit false

/-! ## Answers -/

/-- What the handler writes when it does not pass a request on. `error` is `writeProxyError`; the
two redirects go to pages of the frontend that know the service. -/
inductive Response
  | error (status : ℕ) (code message : GoString)
  | accessDeniedPage
  | bootstrapAdminHint
  | routeLogin (serviceID : ℕ)
  | routeForbidden (serviceID : ℕ)
deriving DecidableEq

/-! ## Look-ups by address -/

structure CountryLookup where
  countryISO : GoString → GoString
  available : Bool

/-- `isBlocked` gives the reason of a block. -/
structure ReputationBlocklist where
  isBlocked : GoString → Option GoString
  healthy : Bool
  enabled : Bool

/-! ## Routes -/

structure CompiledAccessWindow where
  name : GoString
  weekdays : List Weekday
  startMinutes : ℕ
  endMinutes : ℕ
  location : Location

def normalizedAccessMethod (value : GoString) : AccessMethod :=
  ([AccessMethod.session, .oidcOnly, .pin, .emailCode].find? fun method => method.text = trimSpace value).getD .session

/-- A compiled route. Its path and its method are normalised: they are computed from what is
configured. -/
structure Route where
  serviceID : ℕ
  configPath : GoString
  targetURL : GoString
  service : Service
  effectivePolicy : AccessPolicy
  configMethod : GoString
  effectiveMethodConfig : JsonObject
  allowPrefixes : List Prefix
  blockPrefixes : List Prefix
  allowedCountries : List GoString
  blockedCountries : List GoString
  compiledWindows : List CompiledAccessWindow
  accessRules : List CompiledAccessRule

def Route.path (route : Route) : GoString := normalizePath route.configPath

def Route.effectiveMethod (route : Route) : AccessMethod :=
  normalizedAccessMethod route.configMethod

/-! ## The manager -/

/-- `routesForHost` is what caches and store give for a host, already compiled and sorted;
`degraded` is the state of the circuit breakers at the time of the request. -/
structure Manager where
  now : Instant
  auth : AuthService
  adminHost : GoString
  trustedProxyCIDRs : List GoString
  bootstrapAdminEnabled : Bool
  bootstrapAdminAllowRemote : Bool
  hasAdminUI : Bool
  hasAdminAPI : Bool
  countryLookup : Option CountryLookup
  reputation : Option ReputationBlocklist
  geoIPFailOpen : Bool
  crowdSecFailOpen : Bool
  routesForHost : GoString → Option (List Route)
  degraded : GoString → Option GoString
  sha256Hex : GoString → GoString
  clientCertHeaderSecret : GoString
  clientCertSign : (secret fingerprint : GoString) → GoString

section Hosts
variable [UnicodeTables]

def normalizeHost (value : GoString) : GoString := cutBefore colon (trimSpace (toLower value))

def validRouteHost (host : GoString) : Bool :=
  host ≠ [] && host.length ≤ 253 && host.count dot + 1 ≤ 127 && (host.splitOn dot).all (· ≠ [])

def isBootstrapAdminHost (host : GoString) : Bool :=
  host = [] || host = str "localhost" || host = str "127.0.0.1" || host = str "::1" || (parseAddr host).isSome

def Manager.isAdminHost (m : Manager) (host : GoString) : Bool :=
  let normalized := normalizeHost host
  (m.adminHost ≠ [] && normalized = m.adminHost) || (m.bootstrapAdminEnabled && isBootstrapAdminHost normalized)

/-- `matchRoute`: the first route of the host's table whose path covers the request path. -/
def Manager.matchRoute (m : Manager) (host path : GoString) : Option Route :=
  let host := normalizeHost host
  if !validRouteHost host then none
  else (m.routesForHost host).bind fun routes => routes.find? fun route => matchesPath route.path path

end Hosts

/-! ## Compiling routes (`routing_runtime.go`, `tunnel.go`, `manager.go`)

A `RouteConfig` is what the routing store gives for a service; `routeFromConfig` makes of it a route
with the target that is dialled and the transport that dials it. -/

/-! ### Configurations -/

structure AccessWindow where
  name : GoString
  daysOfWeek : List GoString
  startTime : GoString
  endTime : GoString
  timezone : GoString

/-- `routing.RouteConfig`. `node` is the tunnel address of the node that was loaded with the
service, if there was one. -/
structure RouteConfig where
  serviceID : ℕ
  host : GoString
  path : GoString
  targetURL : GoString
  service : Service
  nodeID : Option ℕ
  node : Option GoString
  upstreamSkipVerify : Bool
  upstreamCAPEM : GoString
  upstreamServerName : GoString
  authPolicy : GoString
  effectivePolicy : AccessPolicy
  effectiveMethod : GoString
  effectiveMethodConfig : JsonObject
  allowCIDRs : List GoString
  blockCIDRs : List GoString
  allowedCountries : List GoString
  blockedCountries : List GoString
  accessWindows : List AccessWindow
  accessRules : List AccessRule

/-! ### Transports -/

/-- How a transport gets its connections: from the network of the hub, or through the tunnel server.
-/
inductive Dialer
  | direct
  | tunnel
deriving DecidableEq, Repr

inductive UpstreamTLS
  | standard
  | pinned (caPEM serverName : GoString)
  | insecure
  | serverName (name : GoString)
deriving DecidableEq

structure UpstreamTransport where
  dialer : Dialer
  tls : UpstreamTLS
deriving DecidableEq

structure CompiledRoute extends Route where
  target : ParsedTarget
  transport : UpstreamTransport

/-- What the manager has for the compilation at the moment. `tunnelDialer` tells whether the tunnel
server is started, if there is one. -/
structure RouteCompiler where
  urlParse : GoString → Option ParsedTarget
  loadLocation : GoString → Option Location
  appendsCertsFromPEM : GoString → Bool
  tunnelTransport : Bool
  tunnelDialer : Option Bool

inductive CompileError
  | targetURL (serviceID : ℕ)
  | allowlist (serviceID : ℕ)
  | blocklist (serviceID : ℕ)
  | accessWindows (serviceID : ℕ)
  | accessRules (serviceID : ℕ) (e : AccessRuleError)
deriving DecidableEq

/-- The host of the rewritten target: the address of the node, with the port if the target has one.
-/
def tunnelHost (tunnelIP : GoString) (parsed : ParsedTarget) : GoString :=
  if parsed.port ≠ [] then tunnelIP ++ colon :: parsed.port else tunnelIP

/-- The target with the address of the node in place of its host, if the service is behind a node
that has one. -/
def rewriteTargetForTunnel (urlParse : GoString → Option ParsedTarget) (rawTarget : GoString) (nodeID : Option ℕ)
    (node : Option GoString) : GoString × Bool :=
  match nodeID, node with
  | some _, some wgTunnelIP =>
    let tunnelIP := trimSpace wgTunnelIP
    if tunnelIP = [] then (rawTarget, false)
    else
      match urlParse (trimSpace rawTarget) with
      | none => (rawTarget, false)
      | some parsed =>
        if parsed.host = [] then (rawTarget, false)
        else (parsed.withHost (tunnelHost tunnelIP parsed), true)
  | _, _ => (rawTarget, false)

section Compilation
variable [UnicodeTables]

def weekdayText : Weekday → GoString
  | .sunday => str "sunday"
  | .monday => str "monday"
  | .tuesday => str "tuesday"
  | .wednesday => str "wednesday"
  | .thursday => str "thursday"
  | .friday => str "friday"
  | .saturday => str "saturday"

def parseWeekday (value : GoString) : Option Weekday := weekdays.find? fun day => weekdayText day =
    toLower (trimSpace value)

/-- One window of `compileAccessWindows`. -/
def compileAccessWindow (loadLocation : GoString → Option Location) (window : AccessWindow) :
    Option CompiledAccessWindow := do
  let start ← parseHourMinute window.startTime
  let finish ← parseHourMinute window.endTime
  let location ← if trimSpace window.timezone ≠ [] then loadLocation window.timezone else some utc
  return {
    name := window.name
    weekdays := window.daysOfWeek.filterMap parseWeekday
    startMinutes := start.1 * 60 + start.2
    endMinutes := finish.1 * 60 + finish.2
    location := location }

def compileAccessWindows (loadLocation : GoString → Option Location) (windows : List AccessWindow) :
    Option (List CompiledAccessWindow) := windows.mapM (compileAccessWindow loadLocation)

def isUnset : AccessMode → Bool
  | .unset => true
  | .other raw => trimSpace raw = []
  | _ => false

def normalizedPolicy (policy : AccessPolicy) (legacy : GoString) : AccessPolicy :=
  if !isUnset policy.accessMode then policy
  else if legacy = str "public" then { policy with accessMode := .publicMode }
  else if legacy = str "admin_only" then { policy with accessMode := .restricted, allowedRoles := [.admin] }
  else { policy with accessMode := .authenticated }

def upstreamTLSServerName (urlParse : GoString → Option ParsedTarget) (config : RouteConfig) : GoString :=
  if trimSpace config.upstreamServerName ≠ [] then trimSpace config.upstreamServerName
  else ((urlParse (trimSpace config.targetURL)).map ParsedTarget.hostname).getD []

/-- The base of the transport: through the tunnel if the target was rewritten and the tunnel server
runs at the moment. -/
def RouteCompiler.dialer (m : RouteCompiler) (viaNode : Bool) : Dialer :=
  if viaNode && m.tunnelTransport && m.tunnelDialer = some true then .tunnel else .direct

def RouteCompiler.upstreamTLS (m : RouteCompiler) (config : RouteConfig) (viaNode : Bool)
    (target : ParsedTarget) : UpstreamTLS :=
  let serverName := upstreamTLSServerName m.urlParse config
  let caPEM := trimSpace config.upstreamCAPEM
  if caPEM ≠ [] then if m.appendsCertsFromPEM caPEM then .pinned caPEM serverName else .standard
  else if config.upstreamSkipVerify then .insecure
  else if viaNode ∧ serverName ≠ [] ∧ target.scheme = str "https" then .serverName serverName
  else .standard

def routeFromConfig (m : RouteCompiler) (config : RouteConfig) : Except CompileError CompiledRoute :=
  let rewritten := rewriteTargetForTunnel m.urlParse config.targetURL config.nodeID config.node
  match m.urlParse rewritten.1 with
  | none => .error (.targetURL config.serviceID)
  | some target =>
    match compileCIDRs config.allowCIDRs with
    | none => .error (.allowlist config.serviceID)
    | some allowPrefixes =>
      match compileCIDRs config.blockCIDRs with
      | none => .error (.blocklist config.serviceID)
      | some blockPrefixes =>
        match compileAccessWindows m.loadLocation config.accessWindows with
        | none => .error (.accessWindows config.serviceID)
        | some compiledWindows =>
          match compileAccessRules config.accessRules with
          | .error e => .error (.accessRules config.serviceID e)
          | .ok accessRules =>
            .ok {
              serviceID := config.serviceID
              configPath := config.path
              targetURL := rewritten.1
              service := config.service
              effectivePolicy := normalizedPolicy config.effectivePolicy config.authPolicy
              configMethod := config.effectiveMethod
              effectiveMethodConfig := config.effectiveMethodConfig
              allowPrefixes := allowPrefixes
              blockPrefixes := blockPrefixes
              allowedCountries := config.allowedCountries
              blockedCountries := config.blockedCountries
              compiledWindows := compiledWindows
              accessRules := accessRules
              target := target
              transport := ⟨m.dialer rewritten.2, m.upstreamTLS config rewritten.2 target⟩ }

end Compilation

end Portlyn.Proxy
