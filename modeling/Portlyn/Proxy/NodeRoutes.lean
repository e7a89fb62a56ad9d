import Portlyn.Proxy.Manager

/-! # Routes to services behind a node (`routeFromConfig`, `rewriteTargetForTunnel`)

A service with a node is meant to be reached through the tunnel, at the address of the node. Whether
its route does so is decided when the route is compiled: the target has to be rewritten, and the
tunnel server has to run at that moment. -/
namespace Portlyn.Proxy
open Go Domain
set_option autoImplicit false

section Compiled
variable {m : RouteCompiler} {config : RouteConfig} {route : CompiledRoute}

def Rewritable (urlParse : GoString → Option ParsedTarget) (config : RouteConfig) (tunnelIP : GoString)
    (parsed : ParsedTarget) : Prop :=
  config.node.map trimSpace = some tunnelIP ∧ tunnelIP ≠ [] ∧ urlParse (trimSpace config.targetURL) = some parsed ∧
    parsed.host ≠ []

theorem rewriteTargetForTunnel_cases (urlParse : GoString → Option ParsedTarget) {nodeID : ℕ}
    (hnode : config.nodeID = some nodeID) :
    (∃ tunnelIP parsed, Rewritable urlParse config tunnelIP parsed ∧
      rewriteTargetForTunnel urlParse config.targetURL config.nodeID config.node =
        (parsed.withHost (tunnelHost tunnelIP parsed), true)) ∨
    (∀ tunnelIP parsed, ¬ Rewritable urlParse config tunnelIP parsed) ∧
      rewriteTargetForTunnel urlParse config.targetURL config.nodeID config.node =
        (config.targetURL, false) := by
  rw [hnode]
  cases hrow : config.node with
  | none =>
    refine Or.inr ⟨fun tunnelIP parsed h => ?_, rfl⟩
    have hloaded := h.1
    rw [hrow] at hloaded
    cases hloaded
  | some wgTunnelIP =>
    have hloaded : ∀ tunnelIP parsed, Rewritable urlParse config tunnelIP parsed → trimSpace wgTunnelIP = tunnelIP := by
      intro tunnelIP parsed h
      have hip := h.1
      rw [hrow, Option.map_some, Option.some.injEq] at hip
      exact hip
    rw [rewriteTargetForTunnel]
    by_cases hblank : trimSpace wgTunnelIP = []
    · rw [if_pos hblank]
      exact Or.inr ⟨fun tunnelIP parsed h => h.2.1 ((hloaded tunnelIP parsed h).symm.trans hblank), rfl⟩
    · rw [if_neg hblank]
      cases hparse : urlParse (trimSpace config.targetURL) with
      | none =>
        refine Or.inr ⟨fun tunnelIP parsed h => ?_, rfl⟩
        exact Option.some_ne_none _ (h.2.2.1.symm.trans hparse)
      | some parsed =>
        dsimp only
        by_cases hhost : parsed.host = []
        · rw [if_pos hhost]
          refine Or.inr ⟨fun tunnelIP parsed' h => h.2.2.2 ?_, rfl⟩
          obtain rfl : parsed = parsed' := Option.some.inj (hparse.symm.trans h.2.2.1)
          exact hhost
        · rw [if_neg hhost]
          exact Or.inl ⟨_, parsed, ⟨congrArg (Option.map trimSpace) hrow, hblank, hparse, hhost⟩, rfl⟩

theorem dialer_eq_tunnel {viaNode : Bool} :
    m.dialer viaNode = .tunnel ↔ viaNode = true ∧ m.tunnelTransport = true ∧ m.tunnelDialer = some true := by
  rw [RouteCompiler.dialer]
  split_ifs with h
  · rw [Bool.and_eq_true, Bool.and_eq_true, decide_eq_true_eq] at h
    exact iff_of_true rfl ⟨h.1.1, h.1.2, h.2⟩
  · refine iff_of_false (fun heq => nomatch heq) fun hready => h ?_
    rw [Bool.and_eq_true, Bool.and_eq_true, decide_eq_true_eq]
    exact ⟨⟨hready.1, hready.2.1⟩, hready.2.2⟩

variable [UnicodeTables]

theorem routeFromConfig_dials (h : routeFromConfig m config = .ok route) :
    m.urlParse (rewriteTargetForTunnel m.urlParse config.targetURL config.nodeID config.node).1 =
      some route.target ∧
      route.targetURL = (rewriteTargetForTunnel m.urlParse config.targetURL config.nodeID
        config.node).1 ∧
      route.transport.dialer =
        m.dialer (rewriteTargetForTunnel m.urlParse config.targetURL config.nodeID config.node).2 :=
        by
  rw [routeFromConfig] at h
  split at h
  · cases h
  · rename_i target hparse
    split at h
    · cases h
    · split at h
      · cases h
      · split at h
        · cases h
        · split at h
          · cases h
          · cases h
            exact ⟨hparse, rfl, rfl⟩

structure SentToNode (m : RouteCompiler) (config : RouteConfig) (route : CompiledRoute) : Prop where
  dialer : route.transport.dialer = .tunnel
  target : ∃ tunnelIP parsed, config.node.map trimSpace = some tunnelIP ∧ tunnelIP ≠ [] ∧
    m.urlParse (trimSpace config.targetURL) = some parsed ∧
    route.targetURL = parsed.withHost (tunnelHost tunnelIP parsed) ∧
    m.urlParse route.targetURL = some route.target

def TunnelReady (m : RouteCompiler) (config : RouteConfig) : Prop :=
  (∃ tunnelIP parsed, Rewritable m.urlParse config tunnelIP parsed) ∧ m.tunnelTransport = true ∧
    m.tunnelDialer = some true

theorem sentToNode_iff {nodeID : ℕ} (hnode : config.nodeID = some nodeID) (h : routeFromConfig m config = .ok route) :
    SentToNode m config route ↔ TunnelReady m config := by
  obtain ⟨hparse, htarget, hdialer⟩ := routeFromConfig_dials h
  rcases rewriteTargetForTunnel_cases m.urlParse hnode with ⟨tunnelIP, parsed, hrewritable, heq⟩ | ⟨hnot, heq⟩
  · rw [heq] at hparse htarget hdialer
    rw [← htarget] at hparse
    constructor
    · intro hsent
      exact ⟨⟨tunnelIP, parsed, hrewritable⟩, (dialer_eq_tunnel.mp (hdialer.symm.trans hsent.dialer)).2⟩
    · intro hready
      obtain ⟨hip, hblank, hurl, -⟩ := hrewritable
      exact ⟨hdialer.trans (dialer_eq_tunnel.mpr ⟨rfl, hready.2⟩), tunnelIP, parsed, hip, hblank, hurl, htarget, hparse⟩
  · refine iff_of_false (fun hsent => ?_) fun hready => ?_
    · rw [heq] at hdialer
      cases (dialer_eq_tunnel.mp (hdialer.symm.trans hsent.dialer)).1
    · obtain ⟨⟨tunnelIP, parsed, hrewritable⟩, -⟩ := hready
      exact hnot tunnelIP parsed hrewritable

/-- What a configuration needs to compile: its target, rewritten if it can be, is a URL, and its
networks, windows and rules are well formed. -/
structure Acceptable (m : RouteCompiler) (config : RouteConfig) : Prop where
  rewritten : ∀ tunnelIP parsed, Rewritable m.urlParse config tunnelIP parsed →
    (m.urlParse (parsed.withHost (tunnelHost tunnelIP parsed))).isSome
  raw : (∀ tunnelIP parsed, ¬ Rewritable m.urlParse config tunnelIP parsed) → (m.urlParse config.targetURL).isSome
  allowlist : (compileCIDRs config.allowCIDRs).isSome
  blocklist : (compileCIDRs config.blockCIDRs).isSome
  windows : (compileAccessWindows m.loadLocation config.accessWindows).isSome
  rules : (compileAccessRules config.accessRules).isOk

theorem routeFromConfig_isOk_iff :
    (∃ route, routeFromConfig m config = .ok route) ↔
    (m.urlParse (rewriteTargetForTunnel m.urlParse config.targetURL config.nodeID
      config.node).1).isSome ∧
      (compileCIDRs config.allowCIDRs).isSome ∧ (compileCIDRs config.blockCIDRs).isSome ∧
      (compileAccessWindows m.loadLocation config.accessWindows).isSome ∧
        (compileAccessRules config.accessRules).isOk := by
  rw [routeFromConfig]
  cases m.urlParse (rewriteTargetForTunnel m.urlParse config.targetURL config.nodeID config.node).1 with
  | none => simp
  | some target =>
    cases compileCIDRs config.allowCIDRs with
    | none => simp
    | some allowPrefixes =>
      cases compileCIDRs config.blockCIDRs with
      | none => simp
      | some blockPrefixes =>
        cases compileAccessWindows m.loadLocation config.accessWindows with
        | none => simp
        | some windows => cases compileAccessRules config.accessRules <;> simp [Except.isOk, Except.toBool]

theorem acceptable_iff {nodeID : ℕ} (hnode : config.nodeID = some nodeID) :
    (∃ route, routeFromConfig m config = .ok route) ↔ Acceptable m config := by
  rw [routeFromConfig_isOk_iff]
  rcases rewriteTargetForTunnel_cases m.urlParse hnode with ⟨tunnelIP, parsed, hrewritable, heq⟩ | ⟨hnot, heq⟩
  · have honly : ∀ tunnelIP' parsed', Rewritable m.urlParse config tunnelIP' parsed' →
        tunnelIP' = tunnelIP ∧ parsed' = parsed := by
      intro tunnelIP' parsed' h
      exact ⟨Option.some.inj (h.1.symm.trans hrewritable.1), Option.some.inj (h.2.2.1.symm.trans hrewritable.2.2.1)⟩
    rw [heq]
    constructor
    · rintro ⟨htarget, hallow, hblock, hwindows, hrules⟩
      refine ⟨fun tunnelIP' parsed' h => ?_, fun hnone => absurd hrewritable (hnone _ _), hallow,
        hblock, hwindows, hrules⟩
      obtain ⟨rfl, rfl⟩ := honly _ _ h
      exact htarget
    · intro h
      exact ⟨h.rewritten _ _ hrewritable, h.allowlist, h.blocklist, h.windows, h.rules⟩
  · rw [heq]
    constructor
    · rintro ⟨htarget, hallow, hblock, hwindows, hrules⟩
      exact ⟨fun _ _ h => absurd h (hnot _ _), fun _ => htarget, hallow, hblock, hwindows, hrules⟩
    · intro h
      exact ⟨h.raw hnot, h.allowlist, h.blocklist, h.windows, h.rules⟩

/-- A service behind a node is reached through the tunnel or not at all exactly if its configuration
is not acceptable, or the node has an address, the target a host, and the tunnel server runs when
the route is compiled. -/
theorem node_routes_tunnelled_iff {nodeID : ℕ} (hnode : config.nodeID = some nodeID) :
    (∀ route, routeFromConfig m config = .ok route → SentToNode m config route) ↔
      (Acceptable m config → TunnelReady m config) := by
  rw [← acceptable_iff hnode]
  constructor
  · rintro hall ⟨route, h⟩
    exact (sentToNode_iff hnode h).mp (hall route h)
  · intro hready route h
    exact (sentToNode_iff hnode h).mpr (hready ⟨route, h⟩)

end Compiled

def nodeConfig (wgTunnelIP : GoString) : RouteConfig where
  serviceID := 1
  host := []
  path := [slash]
  targetURL := str "http://db:8080"
  service := ⟨[], [], []⟩
  nodeID := some 7
  node := some wgTunnelIP
  upstreamSkipVerify := false
  upstreamCAPEM := []
  upstreamServerName := []
  authPolicy := []
  effectivePolicy := ⟨.publicMode, [], []⟩
  effectiveMethod := []
  effectiveMethodConfig := []
  allowCIDRs := []
  blockCIDRs := []
  allowedCountries := []
  blockedCountries := []
  accessWindows := []
  accessRules := []

def runningCompiler : RouteCompiler where
  urlParse := parseTarget
  loadLocation := fun _ => none
  appendsCertsFromPEM := fun _ => false
  tunnelTransport := true
  tunnelDialer := some true

/-- The text `10.0.0.2`. -/
def nodeAddress : GoString := [0x31, 0x30, 0x2E, 0x30, 0x2E, 0x30, 0x2E, 0x32]

theorem node_routes_tunnelled_iff_provisioned :
    (nodeConfig nodeAddress).nodeID = some 7 ∧
      ∀ route, @routeFromConfig asciiTables runningCompiler (nodeConfig nodeAddress) = .ok route →
        SentToNode runningCompiler (nodeConfig nodeAddress) route := by
  have hready : TunnelReady runningCompiler (nodeConfig nodeAddress) := by
    have hparse : (parseTarget (trimSpace (str "http://db:8080"))).any (fun u => u.host ≠ []) = true := by
      decide +kernel
    obtain ⟨u, hu, hhost⟩ := (Option.any_eq_true _ _).mp hparse
    exact ⟨⟨nodeAddress, u, by decide +kernel, List.cons_ne_nil _ _, hu, of_decide_eq_true hhost⟩, rfl, rfl⟩
  exact ⟨rfl, (@node_routes_tunnelled_iff runningCompiler _ asciiTables 7 rfl).mpr fun _ => hready⟩

/-- The address of the node is empty, as it is before it gets one and after it was revoked: the hub
dials the target itself, with the tunnel server running. -/
theorem node_route_direct :
    ∃ route, @routeFromConfig asciiTables runningCompiler (nodeConfig []) = .ok route ∧
      route.transport.dialer = .direct ∧
      route.targetURL = str "http://db:8080" ∧ route.target.host = str "db:8080" := by
  have hall : (@routeFromConfig asciiTables runningCompiler (nodeConfig [])).toOption.any (fun route =>
      route.transport.dialer = .direct ∧ route.targetURL = str "http://db:8080" ∧
        route.target.host = str "db:8080") = true := by
    decide +kernel
  cases hroute : @routeFromConfig asciiTables runningCompiler (nodeConfig []) with
  | error e =>
    rw [hroute] at hall
    cases hall
  | ok route =>
    rw [hroute] at hall
    exact ⟨route, rfl, of_decide_eq_true hall⟩

end Portlyn.Proxy
