import Portlyn.Proxy.NodeRoutes

/-! # From the hub to a service behind a node (`tunnel.go`, `handleNodeTunnelTargets`,
`forwarder.go`)

The hub dials the address of the node with the port of the service's target. It tells the node which
ports lead to which local addresses, and the forwarder of the node keeps a listener for each port. A
port has one local address only, that of the last target in the list that names it. -/
namespace Portlyn.Tunnel
open Go Domain Proxy
set_option autoImplicit false

/-- The fields of `domain.Service` that the list of targets is made of. -/
structure NodeService where
  id : ℕ
  nodeID : Option ℕ
  targetURL : GoString

/-- `tunnelTargetItem`, of which the node reads the last two as its `targetSpec`. -/
structure TunnelTarget where
  serviceID : ℕ
  listenPort : ℕ
  localAddr : GoString

/-! ## The hub -/

section Hub
variable [UnicodeTables] (urlParse : GoString → Option ParsedTarget)

omit urlParse in
def targetPort (parsed : ParsedTarget) : GoString :=
  if parsed.port ≠ [] then parsed.port else if equalFold parsed.scheme (str "https") then str "443"
    else str "80"

omit urlParse in
def targetAddr (parsed : ParsedTarget) : GoString :=
  joinHostPort (if parsed.hostname = [] then str "127.0.0.1" else parsed.hostname)
    (targetPort parsed)

def tunnelTarget (svc : NodeService) : Option TunnelTarget := do
  let parsed ← urlParse (trimSpace svc.targetURL)
  let port ← parseInt64 (targetPort parsed)
  if port ≤ 0 ∨ 65535 < port then none else return ⟨svc.id, port.toNat, targetAddr parsed⟩

/-- `handleNodeTunnelTargets`, from the list of all services. -/
def nodeTunnelTargets (nodeID : ℕ) (services : List NodeService) : List TunnelTarget :=
  (services.filter fun svc => svc.nodeID = some nodeID).filterMap (tunnelTarget urlParse)

omit [UnicodeTables] urlParse in
/-- The port that `http.Transport` dials for a URL. -/
def transportPort (u : ParsedTarget) : Option GoString :=
  if u.scheme = str "http" then some (if u.port ≠ [] then u.port else str "80")
  else if u.scheme = str "https" then some (if u.port ≠ [] then u.port else str "443")
  else none

/-- The connection that the hub makes for a URL through `NetStack.DialContext`. -/
def hubDial (text : GoString) : Option (Addr × ℕ) := do
  let u ← urlParse text
  let sport ← transportPort u
  let port ← parseInt64 sport
  if port < 0 ∨ 65535 < port then none
  else
    let ip ← parseAddr u.hostname
    return (ip, port.toNat)

end Hub

/-! ## The node -/

/-- The first loop of `reconcile`. -/
def desired (targets : List TunnelTarget) : ℕ → Option GoString :=
  targets.foldl (fun table t =>
    if t.listenPort ≤ 0 ∨ t.localAddr = [] then table
    else Function.update table t.listenPort (some t.localAddr)) fun _ => none

/-- The listeners after `reconcile`: those with the desired address stay, the others are closed, and
a desired port without a listener gets one if `ListenTCP` works. -/
def reconcile (listens : ℕ → Bool) (listeners : ℕ → Option GoString) (targets : List TunnelTarget)
    (port : ℕ) : Option GoString :=
  (desired targets port).filter fun addr => listeners port = some addr || listens port

theorem desired_append (targets : List TunnelTarget) (t : TunnelTarget) :
    desired (targets ++ [t]) =
      if t.listenPort ≤ 0 ∨ t.localAddr = [] then desired targets
      else Function.update (desired targets) t.listenPort (some t.localAddr) := by
  rw [desired, List.foldl_append]
  rfl

def portAddrs (targets : List TunnelTarget) (port : ℕ) : List GoString :=
  (targets.filter fun t => t.listenPort = port).map TunnelTarget.localAddr

theorem desired_eq_last {targets : List TunnelTarget}
    (hvalid : ∀ t ∈ targets, 0 < t.listenPort ∧ t.localAddr ≠ []) (port : ℕ) :
    desired targets port = (portAddrs targets port).getLast? := by
  induction targets using List.reverseRecOn with
  | nil => rfl
  | append_singleton targets t ih =>
    obtain ⟨hport, haddr⟩ := hvalid t (List.mem_append_right _ (List.mem_singleton_self t))
    have hrest := ih fun t' ht' => hvalid t' (List.mem_append_left _ ht')
    rw [desired_append, if_neg (not_or.mpr ⟨Nat.not_le.mpr hport, haddr⟩), portAddrs, List.filter_append]
    by_cases hlast : t.listenPort = port
    · subst hlast
      have hkept : [t].filter (fun t' => t'.listenPort = t.listenPort) = [t] :=
        List.filter_cons_of_pos (decide_eq_true rfl)
      rw [Function.update_self, hkept, List.map_append]
      exact List.getLast?_concat.symm
    · have hdropped : [t].filter (fun t' => t'.listenPort = port) = [] :=
        List.filter_cons_of_neg fun h => hlast (of_decide_eq_true h)
      rw [Function.update_of_ne (Ne.symm hlast), hdropped, List.append_nil]
      exact hrest

theorem reconcile_eq_some {listens : ℕ → Bool} {listeners : ℕ → Option GoString}
    {targets : List TunnelTarget} {port : ℕ} {addr : GoString} :
    reconcile listens listeners targets port = some addr ↔
      desired targets port = some addr ∧ (listeners port = some addr ∨ listens port = true) := by
  rw [reconcile, Option.filter_eq_some_iff, Bool.or_eq_true, decide_eq_true_eq]

/-! ## Both -/

section Both
variable {urlParse : GoString → Option ParsedTarget} {parsed : ParsedTarget}

theorem joinHostPort_ne_nil (host port : GoString) : joinHostPort host port ≠ [] := by
  rw [joinHostPort]
  split_ifs
  · exact List.cons_ne_nil _ _
  · exact List.append_ne_nil_of_right_ne_nil _ (List.cons_ne_nil _ _)

theorem transportPort_congr {u u' : ParsedTarget} (hscheme : u'.scheme = u.scheme)
    (hport : u'.port = u.port) : transportPort u' = transportPort u := by
  rw [transportPort, transportPort, hscheme, hport]

theorem plain_of_parseAddr {ip : GoString} {n : BitVec 32} (h : parseAddr ip = some (.v4 n)) :
    ip ≠ [] ∧ ∀ b ∈ ip, isDigit b = true ∨ b = dot := by
  rw [parseAddr] at h
  split at h
  · cases h
  · rename_i c hfind
    refine ⟨fun hnil => ?_, ?_⟩
    · rw [hnil] at hfind
      cases hfind
    · split_ifs at h
      · obtain ⟨fields, hfields, -⟩ := Option.map_eq_some_iff.mp h
        exact mem_of_parseIPv4Loop hfields
      · rw [parseIPv6] at h
        split_ifs at h
        all_goals obtain ⟨groups, -, hgroups⟩ := Option.map_eq_some_iff.mp h
        all_goals cases hgroups

theorem tunnelHost_split {ip : GoString} (hip : ∀ b ∈ ip, isDigit b = true ∨ b = dot)
    (parsed : ParsedTarget) : splitURLHost (tunnelHost ip parsed) = (ip, parsed.port) := by
  rw [tunnelHost]
  split_ifs with hport
  · exact splitURLHost_port hip (port_digits parsed)
  · rw [not_not] at hport
    rw [hport]
    exact splitURLHost_plain hip

variable [UnicodeTables]

theorem tunnelTarget_valid {svc : NodeService} {t : TunnelTarget}
    (h : tunnelTarget urlParse svc = some t) : 0 < t.listenPort ∧ t.localAddr ≠ [] := by
  obtain ⟨parsed, -, h⟩ := Option.bind_eq_some_iff.mp h
  obtain ⟨port, -, h⟩ := Option.bind_eq_some_iff.mp h
  split_ifs at h with hrange
  cases h
  refine ⟨?_, joinHostPort_ne_nil _ _⟩
  dsimp only
  omega

theorem nodeTunnelTargets_valid {nodeID : ℕ} {services : List NodeService} :
    ∀ t ∈ nodeTunnelTargets urlParse nodeID services, 0 < t.listenPort ∧ t.localAddr ≠ [] := by
  intro t ht
  obtain ⟨svc, -, hsvc⟩ := List.mem_filterMap.mp ht
  exact tunnelTarget_valid hsvc

def Connects (parsed : ParsedTarget) (port : ℕ) : Prop :=
  ∃ sport, transportPort parsed = some sport ∧ parseInt64 sport = some (port : ℤ) ∧ port ≤ 65535

/-- What is used of `url.Parse` and `String`: the text with another host is a URL with that host and
the same scheme. -/
def RewritesHost (urlParse : GoString → Option ParsedTarget) (parsed : ParsedTarget)
    (host : GoString) : Prop :=
  ∃ u, urlParse (parsed.withHost host) = some u ∧ u.host = host ∧ u.scheme = parsed.scheme

omit [UnicodeTables] in
theorem hubDial_rewritten {ip : GoString} {n : BitVec 32} (hip : parseAddr ip = some (.v4 n))
    (hurl : RewritesHost urlParse parsed (tunnelHost ip parsed)) (addr : Addr) (port : ℕ) :
    hubDial urlParse (parsed.withHost (tunnelHost ip parsed)) = some (addr, port) ↔ addr = .v4 n ∧
      Connects parsed port := by
  have hsplit := tunnelHost_split (plain_of_parseAddr hip).2 parsed
  obtain ⟨u, hu, huhost, huscheme⟩ := hurl
  have hname : u.hostname = ip := by rw [ParsedTarget.hostname, huhost, hsplit]
  have hport : u.port = parsed.port := by rw [ParsedTarget.port, huhost, hsplit]
  have htransport := transportPort_congr huscheme hport
  constructor
  · intro h
    obtain ⟨u', hu', h⟩ := Option.bind_eq_some_iff.mp h
    obtain rfl : u = u' := Option.some.inj (hu.symm.trans hu')
    obtain ⟨sport, hsport, h⟩ := Option.bind_eq_some_iff.mp h
    obtain ⟨number, hnumber, h⟩ := Option.bind_eq_some_iff.mp h
    split_ifs at h with hrange
    obtain ⟨ip', hip', h⟩ := Option.bind_eq_some_iff.mp h
    cases h
    rw [hname, hip, Option.some.injEq] at hip'
    refine ⟨hip'.symm, sport, htransport.symm.trans hsport, ?_, by omega⟩
    rw [hnumber, Int.toNat_of_nonneg (by omega)]
  · rintro ⟨rfl, sport, hsport, hnumber, hrange⟩
    refine Option.bind_eq_some_iff.mpr ⟨u, hu, Option.bind_eq_some_iff.mpr ⟨sport, htransport.trans hsport, ?_⟩⟩
    refine Option.bind_eq_some_iff.mpr ⟨port, hnumber, ?_⟩
    rw [if_neg (by omega), hname, hip]
    rfl

/-- The port and the address that the target of the service stands for. -/
def HasTarget (urlParse : GoString → Option ParsedTarget) (svc : NodeService) (port : ℕ)
    (addr : GoString) : Prop :=
  0 < port ∧ port ≤ 65535 ∧ ∃ parsed, urlParse (trimSpace svc.targetURL) = some parsed ∧
    parseInt64 (targetPort parsed) = some (port : ℤ) ∧ targetAddr parsed = addr

/-- Of the services of the node with this port, the last one has this address. -/
def LastAt (urlParse : GoString → Option ParsedTarget) (nodeID : ℕ) (services : List NodeService)
    (port : ℕ)
    (addr : GoString) : Prop :=
  ∃ earlier svc later, services = earlier ++ svc :: later ∧ svc.nodeID = some nodeID ∧
    HasTarget urlParse svc port addr ∧
    ∀ svc' ∈ later, svc'.nodeID = some nodeID → ∀ addr', ¬ HasTarget urlParse svc' port addr'

theorem hasTarget_iff {svc : NodeService} {port : ℕ} {addr : GoString} :
    HasTarget urlParse svc port addr ↔
      ∃ t, tunnelTarget urlParse svc = some t ∧ t.listenPort = port ∧ t.localAddr = addr := by
  constructor
  · rintro ⟨hpos, hle, parsed, hparse, hnumber, rfl⟩
    refine ⟨⟨svc.id, port, targetAddr parsed⟩, ?_, rfl, rfl⟩
    refine Option.bind_eq_some_iff.mpr ⟨parsed, hparse, Option.bind_eq_some_iff.mpr ⟨port, hnumber, ?_⟩⟩
    exact if_neg (by omega)
  · rintro ⟨t, ht, rfl, rfl⟩
    obtain ⟨parsed, hparse, ht⟩ := Option.bind_eq_some_iff.mp ht
    obtain ⟨number, hnumber, ht⟩ := Option.bind_eq_some_iff.mp ht
    split_ifs at ht with hrange
    cases ht
    refine ⟨by dsimp only; omega, by dsimp only; omega, parsed, hparse, ?_, rfl⟩
    rw [hnumber, Int.toNat_of_nonneg (by omega)]

theorem portAddrs_getLast?_iff {nodeID : ℕ} {services : List NodeService} {port : ℕ}
    {addr : GoString} :
    (portAddrs (nodeTunnelTargets urlParse nodeID services) port).getLast? = some addr ↔
      LastAt urlParse nodeID services port addr := by
  set pick := fun svc :
    NodeService => Option.map TunnelTarget.localAddr (Option.filter (fun t => t.listenPort = port)
    (if svc.nodeID = some nodeID then tunnelTarget urlParse svc else none))
  have hpick : ∀ svc addr, pick svc = some addr ↔ svc.nodeID = some nodeID ∧
    HasTarget urlParse svc port addr := by
    intro svc addr
    rw [hasTarget_iff, Option.map_eq_some_iff]
    simp only [Option.filter_eq_some_iff, Option.ite_none_right_eq_some, decide_eq_true_eq, and_assoc, exists_and_left]
  have hlist : portAddrs (nodeTunnelTargets urlParse nodeID services) port =
    services.filterMap pick := by
    simp only [portAddrs, nodeTunnelTargets, List.filter_filterMap, List.map_filterMap, List.filterMap_filter,
      decide_eq_true_eq, pick]
  have hnone : ∀ svc, pick svc = none ↔
    (svc.nodeID = some nodeID → ∀ addr', ¬ HasTarget urlParse svc port addr') := by
    intro svc
    rw [Option.eq_none_iff_forall_not_mem]
    exact ⟨fun h hsvc addr' htarget => h addr' ((hpick svc addr').mpr ⟨hsvc, htarget⟩),
      fun h addr' haddr' => h ((hpick svc addr').mp haddr').1 addr' ((hpick svc addr').mp haddr').2⟩
  rw [hlist, List.getLast?_filterMap, List.findSome?_eq_some_iff]
  constructor
  · rintro ⟨later, svc, earlier, hsplit, hsvc, hlater⟩
    refine ⟨earlier.reverse, svc, later.reverse, ?_, ((hpick svc addr).mp hsvc).1, ((hpick svc addr).mp hsvc).2, ?_⟩
    · rw [← List.reverse_reverse services, hsplit]
      simp
    · exact fun svc' hsvc' => (hnone svc').mp (hlater svc' (List.mem_reverse.mp hsvc'))
  · rintro ⟨earlier, svc, later, rfl, hnode, htarget, hlater⟩
    refine ⟨later.reverse, svc, earlier.reverse, by simp, (hpick svc addr).mpr ⟨hnode, htarget⟩, ?_⟩
    exact fun svc' hsvc' => (hnone svc').mpr (hlater svc' (List.mem_reverse.mp hsvc'))

end Both

/-! ## Services at one port -/

/-- For a node with an IPv4 address, all connections that the hub makes to the rewritten target of a
service lead to the address of that target exactly if it is that of the last service of the node
with the port, and the node listens there. -/
theorem node_targets_reached_iff [UnicodeTables] {urlParse : GoString → Option ParsedTarget}
    {parsed : ParsedTarget} {svc : NodeService} {services : List NodeService} {nodeID : ℕ}
    {wgTunnelIP : GoString} {n : BitVec 32} (hnode : svc.nodeID = some nodeID)
    (hip : parseAddr (trimSpace wgTunnelIP) = some (.v4 n))
    (hparse : urlParse (trimSpace svc.targetURL) = some parsed) (hhost : parsed.host ≠ [])
    (hurl : RewritesHost urlParse parsed (tunnelHost (trimSpace wgTunnelIP) parsed))
    (listens : ℕ → Bool) (listeners : ℕ → Option GoString) :
    (∀ addr port, hubDial urlParse
        (rewriteTargetForTunnel urlParse svc.targetURL svc.nodeID (some wgTunnelIP)).1 =
        some (addr, port) →
      reconcile listens listeners (nodeTunnelTargets urlParse nodeID services) port =
        some (targetAddr parsed)) ↔
    ∀ port, Connects parsed port → LastAt urlParse nodeID services port (targetAddr parsed) ∧
      (listeners port = some (targetAddr parsed) ∨ listens port = true) := by
  have hrewrite : rewriteTargetForTunnel urlParse svc.targetURL svc.nodeID (some wgTunnelIP) =
      (parsed.withHost (tunnelHost (trimSpace wgTunnelIP) parsed), true) := by
    rw [hnode, rewriteTargetForTunnel, if_neg (plain_of_parseAddr hip).1, hparse]
    dsimp only
    rw [if_neg hhost]
  have htable : ∀ port, reconcile listens listeners (nodeTunnelTargets urlParse nodeID services)
      port = some (targetAddr parsed) ↔
      LastAt urlParse nodeID services port (targetAddr parsed) ∧
        (listeners port = some (targetAddr parsed) ∨ listens port = true) := by
    intro port
    rw [reconcile_eq_some, desired_eq_last nodeTunnelTargets_valid, portAddrs_getLast?_iff]
  rw [hrewrite]
  constructor
  · intro hreached port hconnects
    exact (htable port).mp (hreached _ port ((hubDial_rewritten hip hurl _ port).mpr ⟨rfl, hconnects⟩))
  · intro hlast addr port hdial
    exact (htable port).mpr (hlast port ((hubDial_rewritten hip hurl addr port).mp hdial).2)

def nodeService (id : ℕ) (targetURL : GoString) : NodeService := ⟨id, some 7, targetURL⟩

def apartServices : List NodeService :=
  [nodeService 1 (str "http://a:9"), nodeService 2 (str "https://b")]

/-- Two services behind a node with different ports. -/
theorem node_targets_reached_iff_apart :
    ∃ parsed, parseTarget (trimSpace (str "http://a:9")) = some parsed ∧ ∀ addr port, hubDial parseTarget
      (rewriteTargetForTunnel parseTarget (str "http://a:9") (some 7) (some nodeAddress)).1 = some (addr, port) →
        reconcile (fun _ => true) (fun _ => none) (@nodeTunnelTargets asciiTables parseTarget 7 apartServices) port =
          some (@targetAddr asciiTables parsed) := by
  have hfacts : (parseTarget (trimSpace (str "http://a:9"))).any (fun u =>
      u.host ≠ [] ∧ transportPort u = some (str "9") ∧ @targetAddr asciiTables u = str "a:9" ∧
      (parseTarget (u.withHost (tunnelHost (trimSpace nodeAddress) u))).any (fun u' =>
        u'.host = tunnelHost (trimSpace nodeAddress) u ∧ u'.scheme = u.scheme) = true) = true := by
    decide +kernel
  obtain ⟨u, hu, hfacts⟩ := (Option.any_eq_true _ _).mp hfacts
  obtain ⟨hhost, hport, htarget, hrewritten⟩ := of_decide_eq_true hfacts
  obtain ⟨u', hu', hsame⟩ := (Option.any_eq_true _ _).mp hrewritten
  refine ⟨u, hu, (@node_targets_reached_iff asciiTables _ _ (nodeService 1 (str "http://a:9")) _
    7 nodeAddress
    0x0A000002#32 rfl (by decide +kernel) hu hhost ⟨u', hu', of_decide_eq_true hsame⟩ _ _).mpr ?_⟩
  rintro port ⟨sport, hsport, hnumber, -⟩
  obtain rfl : str "9" = sport := Option.some.inj (hport.symm.trans hsport)
  have hnine : parseInt64 (str "9") = some 9 := by decide +kernel
  obtain rfl : 9 = port := Int.ofNat_inj.mp (Option.some.inj (hnine.symm.trans hnumber))
  rw [htarget]
  exact ⟨(@portAddrs_getLast?_iff _ asciiTables _ _ _ _).mp (by decide +kernel), Or.inr rfl⟩

/-- Two services behind one node have the same port. What the hub sends to the first of them reaches
the backend of the second. -/
theorem node_targets_crossed :
    hubDial parseTarget (rewriteTargetForTunnel parseTarget (str "http://a:9") (some 7) (some nodeAddress)).1 =
        some (.v4 0x0A000002#32, 9) ∧
      reconcile (fun _ => true) (fun _ => none) (@nodeTunnelTargets asciiTables parseTarget 7
        [nodeService 1 (str "http://a:9"), nodeService 2 (str "http://b:9")]) 9 = some (str "b:9") ∧
      (parseTarget (str "http://a:9")).map (@targetAddr asciiTables) = some (str "a:9") := by
  decide +kernel

end Portlyn.Tunnel
