import Portlyn.Lib.Mutex
import Portlyn.Tunnel.Store

/-! # The tunnel manager (`manager.go`) and the handlers that write node rows (`nodes.go`)

Every exported method of the manager runs under its mutex. The handlers do not take it: the one that
updates a node loads the row, changes it, writes it back as a whole, and then calls `ApplyPeers`. -/
namespace Portlyn.Tunnel
open Go Lib Lib.Interleave
set_option autoImplicit false

/-! ## Texts of lists -/

def splitCSV (value : GoString) : List GoString :=
  ((value.splitOn comma).map trimSpace).filter (· ≠ [])

def parseUintCSV (value : GoString) : List ℕ := (splitCSV value).filterMap fun part =>
    (parseUint 64 part).filter (· ≠ 0)

def joinUintCSV (values : List ℕ) : GoString := [comma].intercalate (values.map decimal)

def parsePrefixes (values : List GoString) : List Prefix :=
  values.filterMap fun value => (parsePrefix (trimSpace value)).map Prefix.masked

def normalizeSubnetCSV (value : GoString) : Option GoString := do
  let prefixes ← (splitCSV value).mapM parsePrefix
  return [comma].intercalate (prefixes.map fun p => p.masked.string)

def composeServerEndpoint (endpoint : GoString) (listenPort : ℤ) : GoString :=
  let endpoint := trimSpace endpoint
  if endpoint = [] then []
  else if (splitHostPort endpoint).isSome then endpoint
  else endpoint ++ colon :: intText (if listenPort ≤ 0 then 51820 else listenPort)

/-- The text `10.42.0.2/32` of one address. -/
def hostPrefix (ip : GoString) : GoString := ip ++ str "/32"

theorem bitLen_le (addr : Addr) : addr.bitLen ≤ addr.bitLen := le_refl _

def requestedPrefix (entry : GoString) : Option Prefix :=
  match parsePrefix entry with
  | some p => some p.masked
  | none => (parseAddr entry).map fun addr => (prefixFrom addr addr.bitLen (bitLen_le addr)).masked

def validateClientAllowedIPs (requested : List GoString) (tunnelCIDR : GoString)
    (advertised : List GoString) :
    Except TunnelErr (List GoString) :=
  match parsePrefix (trimSpace tunnelCIDR) with
  | none => .error .invalidTunnelCIDR
  | some tunnelPrefix => do
    let allowedRanges := tunnelPrefix.masked :: parsePrefixes advertised
    let out ← ((requested.map trimSpace).filter (· ≠ [])).mapM fun entry =>
      match requestedPrefix entry with
      | none => .error (.allowedIPsNotPermitted entry)
      | some p =>
        if allowedRanges.any fun allowed => allowed.bits ≤ p.bits && allowed.contains p.addr then .ok p.string
        else .error (.allowedIPsNotPermitted entry)
    return if out = [] then [tunnelPrefix.masked.string] else out

theorem exists_map_of_mapM {ε α β γ : Type} {f : α → Except ε γ} {g : β → γ} {R : α → β → Prop}
    (hf : ∀ x y, f x = .ok y → ∃ b, y = g b ∧ R x b) {xs : List α} {ys : List γ}
    (h : xs.mapM f = .ok ys) :
    ∃ bs : List β, ys = bs.map g ∧ (∀ x ∈ xs, ∃ b ∈ bs, R x b) ∧ ∀ b ∈ bs, ∃ x ∈ xs, R x b := by
  induction xs generalizing ys with
  | nil =>
    cases h
    exact ⟨[], rfl, nofun, nofun⟩
  | cons x xs ih =>
    rw [List.mapM_cons] at h
    cases hx : f x with
    | error e =>
      rw [hx] at h
      cases h
    | ok y =>
      cases hxs : xs.mapM f with
      | error e =>
        rw [hx, hxs] at h
        cases h
      | ok ys' =>
        rw [hx, hxs] at h
        cases h
        obtain ⟨b, rfl, hb⟩ := hf x y hx
        obtain ⟨bs, rfl, hleft, hright⟩ := ih hxs
        refine ⟨b :: bs, rfl, List.forall_mem_cons.mpr ⟨⟨b, List.mem_cons_self, hb⟩, fun x hx => ?_⟩,
          List.forall_mem_cons.mpr ⟨⟨x, List.mem_cons_self, hb⟩, fun b hb => ?_⟩⟩
        · obtain ⟨b', hb', hR⟩ := hleft x hx
          exact ⟨b', List.mem_cons_of_mem _ hb', hR⟩
        · obtain ⟨x', hx', hR⟩ := hright b hb
          exact ⟨x', List.mem_cons_of_mem _ hx', hR⟩

/-- The addresses that an entry asks for: those of a prefix, or one address without its zone. -/
def Asks (entry : GoString) (a : Addr) : Prop :=
  match parsePrefix entry with
  | some p => p.contains a = true
  | none => ∃ addr, parseAddr entry = some addr ∧ a = addr.withoutZone

theorem asks_contains {entry : GoString} {p : Prefix} (h : requestedPrefix entry = some p)
    {a : Addr} (ha : Asks entry a) : p.contains a = true := by
  rw [requestedPrefix] at h
  rw [Asks] at ha
  cases hp : parsePrefix entry with
  | some q =>
    rw [hp] at h ha
    cases h
    rw [Prefix.contains_masked]
    exact ha
  | none =>
    rw [hp] at h ha
    obtain ⟨addr, haddr, rfl⟩ := ha
    simp only [haddr, Option.map_some, Option.some.injEq] at h
    rw [← h, Prefix.contains_masked]
    exact Prefix.contains_self (prefixFrom addr _ _)

/-- Whatever is requested: of an accepted request every address of every returned prefix lies in the
tunnel or in an advertised subnet, and every address that was asked for lies in a returned prefix.
-/
theorem allowedIPs_contained (requested : List GoString) (tunnelCIDR : GoString)
    (advertised out : List GoString)
    (h : validateClientAllowedIPs requested tunnelCIDR advertised = .ok out) :
    ∃ prefixes : List Prefix, out = prefixes.map Prefix.string ∧
      (∀ p ∈ prefixes, ∀ a, p.contains a = true →
        ∃ text ∈ tunnelCIDR :: advertised, ∃ range, parsePrefix (trimSpace text) = some range ∧
          range.contains a = true) ∧
      ∀ raw ∈ requested, trimSpace raw ≠ [] → ∃ p ∈ prefixes, ∀ a, Asks (trimSpace raw) a →
        p.contains a = true := by
  unfold validateClientAllowedIPs at h
  cases htunnel : parsePrefix (trimSpace tunnelCIDR) with
  | none =>
    rw [htunnel] at h
    cases h
  | some tunnel =>
    simp only [htunnel, bind, Except.bind] at h
    have hranges : ∀ range ∈ tunnel.masked :: parsePrefixes advertised, ∃ text ∈ tunnelCIDR :: advertised, ∃ r,
        parsePrefix (trimSpace text) = some r ∧ ∀ a, range.contains a = true → r.contains a = true := by
      intro range hrange
      rcases List.mem_cons.mp hrange with rfl | hrange
      · exact ⟨tunnelCIDR, List.mem_cons_self, tunnel, htunnel, fun a ha => (tunnel.contains_masked a).symm.trans ha⟩
      · obtain ⟨text, htext, hparse⟩ := List.mem_filterMap.mp hrange
        obtain ⟨r, hr, rfl⟩ := Option.map_eq_some_iff.mp hparse
        exact ⟨text, List.mem_cons_of_mem _ htext, r, hr, fun a ha => (r.contains_masked a).symm.trans ha⟩
    split at h
    · cases h
    rename_i out' hout'
    cases h
    obtain ⟨prefixes, hmap, hcovered, hpermitted⟩ := exists_map_of_mapM (R := fun entry p =>
      requestedPrefix entry = some p ∧ ∃ range ∈ tunnel.masked :: parsePrefixes advertised, range.bits ≤ p.bits ∧
        range.contains p.addr = true) (fun entry text htext => by
      split at htext
      · cases htext
      · rename_i p hp
        split_ifs at htext with hany
        cases htext
        obtain ⟨range, hrange, hfits⟩ := List.any_eq_true.mp hany
        rw [Bool.and_eq_true, decide_eq_true_eq] at hfits
        exact ⟨p, rfl, hp, range, hrange, hfits⟩) hout'
    have hinside : ∀ p ∈ prefixes, ∀ a, p.contains a = true →
        ∃ text ∈ tunnelCIDR :: advertised, ∃ range, parsePrefix (trimSpace text) = some range ∧
        range.contains a = true := by
      intro p hp a ha
      obtain ⟨entry, -, -, range, hrange, hbits, haddr⟩ := hpermitted p hp
      obtain ⟨text, htext, r, hr, hsub⟩ := hranges range hrange
      exact ⟨text, htext, r, hr, hsub a (Prefix.contains_of_contains hbits haddr ha)⟩
    by_cases hempty : out' = []
    · -- nothing was asked for, and the tunnel is returned
      rw [if_pos hempty]
      refine ⟨[tunnel.masked], rfl, fun p hp a ha => ?_, fun raw hraw hne => ?_⟩
      · rw [List.mem_singleton.mp hp, Prefix.contains_masked] at ha
        exact ⟨tunnelCIDR, List.mem_cons_self, tunnel, htunnel, ha⟩
      · obtain ⟨p, hp, -⟩ := hcovered (trimSpace raw)
          (List.mem_filter.mpr ⟨List.mem_map_of_mem hraw, decide_eq_true hne⟩)
        rw [hmap, List.map_eq_nil_iff] at hempty
        rw [hempty] at hp
        cases hp
    · rw [if_neg hempty]
      refine ⟨prefixes, hmap, hinside, fun raw hraw hne => ?_⟩
      obtain ⟨p, hp, hrequested, -⟩ := hcovered (trimSpace raw)
        (List.mem_filter.mpr ⟨List.mem_map_of_mem hraw, decide_eq_true hne⟩)
      exact ⟨p, hp, fun a ha => asks_contains hrequested ha⟩

/-- An address of the tunnel and a part of an advertised subnet. -/
theorem allowedIPs_contained_two :
    let requested := [str "10.42.0.7", str " ", str "fd00:1::/32"]
    ∃ out, validateClientAllowedIPs requested (str "10.42.0.0/16") [str "fd00::/16"] = .ok out ∧
      ∃ prefixes : List Prefix, out = prefixes.map Prefix.string ∧
        ∀ raw ∈ requested, trimSpace raw ≠ [] → ∃ p ∈ prefixes, ∀ a, Asks (trimSpace raw) a → p.contains a = true := by
  intro requested
  have hsome : (validateClientAllowedIPs requested (str "10.42.0.0/16")
    [str "fd00::/16"]).toOption.isSome = true := by
    decide +kernel
  cases h : validateClientAllowedIPs requested (str "10.42.0.0/16") [str "fd00::/16"] with
  | error e =>
    rw [h] at hsome
    cases hsome
  | ok out =>
    obtain ⟨prefixes, hmap, -, hcovered⟩ := allowedIPs_contained requested _ _ _ h
    exact ⟨out, rfl, prefixes, hmap, hcovered⟩

/-! ## Peers -/

def nodePeer (node : NodeRow) : Option PeerSpec :=
  let pub := trimSpace node.wgPublicKey
  let ip := trimSpace node.wgTunnelIP
  if pub = [] ∨ ip = [] then none
  else some ⟨pub, trimSpace node.wgPresharedKey, hostPrefix ip :: splitCSV node.advertisedSubnets⟩

def clientPeer (client : ClientRow) : Option PeerSpec :=
  let pub := trimSpace client.wgPublicKey
  let ip := trimSpace client.wgTunnelIP
  if pub = [] ∨ ip = [] ∨ client.enabled = false then none else some ⟨pub, [], [hostPrefix ip]⟩

def nodeRanges (nodes : List (ℕ × NodeRow)) (nodeID : ℕ) : List Prefix :=
  match (nodes.find? fun n => n.1 = nodeID).bind fun n => nodePeer n.2 with
  | some spec => parsePrefixes spec.allowedIPs
  | none => []

def rulesFor (client : Prefix) (ranges : List Prefix) : List ForwardRule :=
  if ranges = [] then [] else [⟨[client], ranges⟩, ⟨ranges, [client]⟩]

def clientRules (nodes : List (ℕ × NodeRow)) (client : ClientRow) : List ForwardRule :=
  match clientPeer client, parseAddr (trimSpace client.wgTunnelIP) with
  | some _, some addr =>
    (parseUintCSV client.allowedNodeIDs).flatMap fun nodeID =>
      rulesFor (prefixFrom addr addr.bitLen (bitLen_le addr)) (nodeRanges nodes nodeID)
  | _, _ => []

/-- `buildPeerState` on the rows it has read. -/
def peerState (nodes : List (ℕ × NodeRow)) (clients : List (ℕ × ClientRow)) :
    List PeerSpec × List ForwardRule :=
  ((nodes.filterMap fun n => nodePeer n.2) ++ clients.filterMap fun c => clientPeer c.2,
    clients.flatMap fun c => clientRules nodes c.2)

/-! ## The parts of the methods -/

abbrev stmt (op : TunnelOp) : Prog TunnelOp.Ans op.Ans := Prog.op op

def fail {α : Type} (e : TunnelErr) : Prog TunnelOp.Ans (Except TunnelErr α) := pure (.error e)

def loadPool (settings : TunnelSettings) : Prog TunnelOp.Ans (Except TunnelErr IPPool) :=
  match parseAddr (trimSpace settings.tunnelServerTunnelIP) with
  | none => fail .parseServerTunnelIP
  | some serverAddr =>
    match newIPPool (trimSpace settings.tunnelCIDR) [serverAddr] with
    | .error e => fail (.pool e)
    | .ok pool =>
      Prog.attempt (stmt .listNodes) fun nodes => Prog.attempt (stmt .listClients) fun clients =>
        pure (.ok (((nodes.map fun n => n.2.wgTunnelIP) ++ clients.map fun c => c.2.wgTunnelIP).foldl
          (fun pool ip => ((parseAddr (trimSpace ip)).map pool.markAllocated).getD pool) pool))

def ensureUniquePeerKey (key : GoString) (excludeNodeID excludeClientID : ℕ) :
    Prog TunnelOp.Ans (Except TunnelErr Unit) :=
  let key := trimSpace key
  if key = [] then pure (.ok ())
  else
    Prog.attempt (stmt .listNodes) fun nodes =>
      if nodes.any fun n => n.1 ≠ excludeNodeID && trimSpace n.2.wgPublicKey = key then fail .peerKeyDuplicate
      else
        Prog.attempt (stmt .listClients) fun clients =>
          if clients.any fun c => c.1 ≠ excludeClientID && trimSpace c.2.wgPublicKey = key then fail .peerKeyDuplicate
          else pure (.ok ())

def writeServerConfigLocked (settings : TunnelSettings) :
    Prog TunnelOp.Ans (Except TunnelErr Unit) :=
  if trimSpace settings.tunnelConfigPath = [] then pure (.ok ())
  else Prog.attempt (stmt .listNodes) fun _ => stmt .writeConfig

def buildPeerState : Prog TunnelOp.Ans (Except TunnelErr (List PeerSpec × List ForwardRule)) :=
  Prog.attempt (stmt .listNodes) fun nodes => Prog.attempt (stmt .listClients) fun clients =>
    pure (.ok (peerState nodes clients))

/-- Both `SetForwardRules` and `ApplyPeerSpecs`. -/
def setPeers (specs : List PeerSpec) (rules : List ForwardRule) :
    Prog TunnelOp.Ans (Except ApplyErr Unit) := do
  let _ ← stmt (.setForwardRules rules)
  stmt (.applyPeerSpecs specs)

def applyPeersLocked : Prog TunnelOp.Ans Unit := do
  let started ← stmt .started
  if started then
    let state ← buildPeerState
    match state with
    | .error _ => pure ()
    | .ok (specs, rules) =>
      let _ ← setPeers specs rules
      pure ()
  else pure ()

structure BootstrapOptions where
  forceReissue : Bool
  clientAllowedIPs : List GoString
  clientPublicKey : GoString

def clientKeys (opts : BootstrapOptions) : Prog TunnelOp.Ans (Except TunnelErr KeyPair) :=
  if trimSpace opts.clientPublicKey ≠ [] then
    if validatePublicKey (trimSpace opts.clientPublicKey) then
    pure (.ok ⟨[], trimSpace opts.clientPublicKey⟩)
    else fail .invalidClientPublicKey
  else stmt .generateKeyPair

def releaseOwn (pool : IPPool) (node : NodeRow) : IPPool :=
  ((parseAddr (trimSpace node.wgTunnelIP)).map pool.release).getD pool

def subnetsForNodes (nodeIDs : List ℕ) : Prog TunnelOp.Ans (Except TunnelErr (List GoString)) :=
  if nodeIDs = [] then pure (.ok [])
  else
    Prog.attempt (stmt .listNodes) fun nodes =>
      pure (.ok ((nodes.filter fun n => nodeIDs.any fun id => id = n.1).flatMap fun n =>
        splitCSV n.2.advertisedSubnets).eraseDups)

def TunnelResult.of : Except TunnelErr TunnelResult → TunnelResult
  | .ok r => r
  | .error e => .failed e

def withLock (t : ℕ) (body : Prog TunnelOp.Ans (Except TunnelErr TunnelResult)) :
    Prog TunnelOp.Ans TunnelResult := do
  let _ ← stmt (.lock t)
  let r ← body
  let _ ← stmt (.unlock t (.of r))
  return .of r

/-! ## The methods -/

def provisionedNode (settings : TunnelSettings) (node : NodeRow) (key presharedKey ip : GoString) :
    NodeRow :=
  { node with
    wgPublicKey := key, wgPresharedKey := presharedKey, wgTunnelIP := ip, wgAllowedIPs :=
    hostPrefix ip
    wgEndpoint := composeServerEndpoint settings.tunnelServerEndpoint settings.tunnelListenPort
    tunnelStatus := str "provisioned" }

def bundleFor (settings : TunnelSettings) (keys : KeyPair) (ip presharedKey : GoString)
    (allowedIPs : List GoString) : ClientBundle where
  privateKey := keys.privateKey
  publicKey := keys.publicKey
  address := hostPrefix ip
  serverPublicKey := settings.tunnelServerPublicKey
  serverEndpoint := composeServerEndpoint settings.tunnelServerEndpoint settings.tunnelListenPort
  presharedKey := presharedKey
  allowedIPs := allowedIPs
  keepalive := 25

def bootstrapAllowedIPs (settings : TunnelSettings) (opts : BootstrapOptions) (node : NodeRow) :
    Except TunnelErr (List GoString) :=
  if opts.clientAllowedIPs = [] then .ok [trimSpace settings.tunnelCIDR]
  else validateClientAllowedIPs opts.clientAllowedIPs settings.tunnelCIDR
    (splitCSV node.advertisedSubnets)

/-- The end of `BootstrapNode`, from the writing of the row on. -/
def storeBootstrap (settings : TunnelSettings) (nodeID : ℕ) (keys : KeyPair) (row : NodeRow)
    (allowedIPs : List GoString) :
    Prog TunnelOp.Ans (Except TunnelErr TunnelResult) :=
  Prog.attempt (stmt (.updateNode .manager nodeID row)) fun _ =>
    Prog.attempt (writeServerConfigLocked settings) fun _ => do
      applyPeersLocked
      return .ok (.bootstrapped ⟨row, bundleFor settings keys row.wgTunnelIP row.wgPresharedKey allowedIPs,
        settings.tunnelServerPublicKey, trimSpace settings.tunnelServerTunnelIP, splitCSV row.advertisedSubnets⟩)

def bootstrapNode (t nodeID : ℕ) (opts : BootstrapOptions) : Prog TunnelOp.Ans TunnelResult :=
  withLock t <| Prog.attempt (stmt .getSettings) fun settings =>
    if trimSpace settings.tunnelServerPublicKey = [] then fail .invalidServerSettings
    else if trimSpace settings.tunnelServerEndpoint = [] then fail .endpointNotConfigured
    else
      Prog.attempt (stmt (.getNode nodeID)) fun node => Prog.attempt (loadPool settings) fun pool =>
        if trimSpace node.wgTunnelIP ≠ [] ∧ opts.forceReissue = false then fail .nodeAlreadyProvisioned
        else
          Prog.attempt (clientKeys opts) fun keys => Prog.attempt (ensureUniquePeerKey keys.publicKey nodeID 0) fun _ =>
            match (releaseOwn pool node).allocate with
            | .error e => fail (.pool e)
            | .ok assignedIP =>
              match bootstrapAllowedIPs settings opts node with
              | .error e => fail e
              | .ok allowedIPs =>
                Prog.attempt (stmt .generatePresharedKey) fun presharedKey =>
                  storeBootstrap settings nodeID keys
                    (provisionedNode settings node keys.publicKey presharedKey (string4 assignedIP)) allowedIPs

def revokedNode (node : NodeRow) : NodeRow :=
  { node with
    wgPublicKey := [], wgPresharedKey := [], wgTunnelIP := [], wgAllowedIPs := [], wgEndpoint := [],
    wgLastHandshake := none
    tunnelStatus := str "inactive" }

def revokeNode (t nodeID : ℕ) : Prog TunnelOp.Ans TunnelResult :=
  withLock t <| Prog.attempt (stmt .getSettings) fun settings =>
    Prog.attempt (stmt (.getNode nodeID)) fun node =>
    Prog.attempt (stmt (.updateNode .manager nodeID (revokedNode node))) fun _ =>
      Prog.attempt (writeServerConfigLocked settings) fun _ => do
        applyPeersLocked
        return .ok (.revoked nodeID node)

def provisionClient (t : ℕ) (name description : GoString) (allowedNodeIDs : List ℕ) :
    Prog TunnelOp.Ans TunnelResult :=
  withLock t <| Prog.attempt (stmt .getSettings) fun settings =>
    if trimSpace settings.tunnelServerPublicKey = [] ∨ trimSpace settings.tunnelServerEndpoint =
      [] then fail .invalidServerSettings
    else
      Prog.attempt (loadPool settings) fun pool =>
        match pool.allocate with
        | .error e => fail (.pool e)
        | .ok assignedIP =>
          Prog.attempt (subnetsForNodes allowedNodeIDs) fun allowedSubnets =>
            Prog.attempt (stmt .generateKeyPair) fun keys =>
            let client : ClientRow :=
              { name := trimSpace name, description := trimSpace description, wgPublicKey := keys.publicKey
                wgTunnelIP := string4 assignedIP, wgAllowedIPs := [comma].intercalate allowedSubnets
                allowedNodeIDs := joinUintCSV allowedNodeIDs, enabled := true, tunnelStatus := str "provisioned" }
            Prog.attempt (stmt (.createClient client)) fun _ => do
              applyPeersLocked
              return .ok (.provisioned (bundleFor settings keys client.wgTunnelIP [] allowedSubnets) client)

def rotateClient (t clientID : ℕ) : Prog TunnelOp.Ans TunnelResult :=
  withLock t <| Prog.attempt (stmt .getSettings) fun settings =>
    Prog.attempt (stmt (.getClient clientID)) fun client =>
    Prog.attempt (stmt .generateKeyPair) fun keys =>
      let rotated := { client with wgPublicKey := keys.publicKey, tunnelStatus := str "provisioned" }
      Prog.attempt (stmt (.saveClient clientID rotated)) fun _ => do
        applyPeersLocked
        return .ok (.rotated (bundleFor settings keys client.wgTunnelIP [] (splitCSV client.wgAllowedIPs)) rotated)

def revokeClient (t clientID : ℕ) : Prog TunnelOp.Ans TunnelResult :=
  withLock t <| Prog.attempt (stmt (.deleteClient clientID)) fun _ => do
    applyPeersLocked
    return .ok .clientRevoked

def applyPeers (t : ℕ) : Prog TunnelOp.Ans TunnelResult :=
  withLock t <| Prog.attempt buildPeerState fun state => do
    let started ← stmt .started
    if started then
      let answer ← setPeers state.1 state.2
      match answer with
      | .ok _ => return .ok .applied
      | .error e => return .error (.apply e)
    else return .ok .applied

/-! ## The handlers -/

structure UpdateNodeRequest where
  name : Option GoString
  description : Option GoString
  lastSeenAt : Option Instant
  version : Option GoString
  status : Option GoString
  authMode : Option GoString
  mtlsSHA256 : Option GoString
  advertisedSubnets : Option GoString

def updatedNode [UnicodeTables] (req : UpdateNodeRequest) (item : NodeRow) :
    Except GoString NodeRow :=
  let item :=
    { item with
      name := req.name.getD item.name
      description := req.description.getD item.description
      lastSeenAt := req.lastSeenAt.orElse fun _ => item.lastSeenAt
      version := req.version.getD item.version
      status := req.status.getD item.status
      heartbeatAuthMode := (req.authMode.map fun mode => toLower (trimSpace mode)).getD item.heartbeatAuthMode
      mtlsCertSHA256 := (req.mtlsSHA256.map fun sha => toLower (trimSpace sha)).getD item.mtlsCertSHA256 }
  if item.heartbeatAuthMode = str "mtls" ∧ item.mtlsCertSHA256 = [] then
    .error (str "mtls_cert_sha256 is required when heartbeat_auth_mode is mtls")
  else
    match req.advertisedSubnets with
    | none => .ok item
    | some subnets =>
      match normalizeSubnetCSV subnets with
      | none => .error (str "advertised_subnets must be valid CIDRs")
      | some normalized => .ok { item with advertisedSubnets := normalized }

def handleUpdateNode [UnicodeTables] (t nodeID : ℕ) (req : UpdateNodeRequest) :
    Prog TunnelOp.Ans TunnelResult := do
  let loaded : Except TunnelErr NodeRow ← stmt (.getNode nodeID)
  match loaded with
  | .error e => return .failed e
  | .ok item =>
    match updatedNode req item with
    | .error message => return .invalid message
    | .ok item =>
      let answer : Except TunnelErr Unit ← stmt (.updateNode .handler nodeID item)
      match answer with
      | .error e => return .failed e
      | .ok _ =>
        let _ ← applyPeers t
        return .written item

structure HeartbeatRequest where
  authorized : Bool
  withinFailLimit : Bool
  withinLimit : Bool
  clientIP : GoString
  now : Instant
  version : Option GoString
  status : Option GoString
  load : Option UInt64
  bandwidthInKbps : Option UInt64
  bandwidthOutKbps : Option UInt64
  wgLastHandshake : Option Instant
  wgRxBytes : Option ℤ
  wgTxBytes : Option ℤ
  tunnelStatus : Option GoString

def heartbeatTunnelStatus (req : HeartbeatRequest) (node : NodeRow) : GoString :=
  match req.tunnelStatus with
  | some status => status
  | none =>
    if node.wgLastHandshake.any fun handshake => req.now - handshake < 180 * 1000000000 then str "connected"
    else if node.wgPublicKey ≠ [] ∧ node.tunnelStatus ≠ str "provisioned" then str "stale"
    else node.tunnelStatus

def heartbeatNode (req : HeartbeatRequest) (node : NodeRow) : NodeRow :=
  let node :=
    { node with
      lastSeenAt := some req.now
      status := req.status.getD (str "online")
      version := req.version.getD node.version
      wgLastHandshake := req.wgLastHandshake.orElse fun _ => node.wgLastHandshake
      heartbeat :=
        { heartbeatVersion := req.version.getD node.version
          lastHeartbeatIP := req.clientIP
          lastHeartbeatCode := 200
          lastHeartbeatError := []
          heartbeatFailedAt := none
          lastHeartbeatAt := some req.now
          load := req.load.getD node.heartbeat.load
          bandwidthInKbps := req.bandwidthInKbps.getD node.heartbeat.bandwidthInKbps
          bandwidthOutKbps := req.bandwidthOutKbps.getD node.heartbeat.bandwidthOutKbps
          wgRxBytes := req.wgRxBytes.getD node.heartbeat.wgRxBytes
          wgTxBytes := req.wgTxBytes.getD node.heartbeat.wgTxBytes } }
  { node with tunnelStatus := heartbeatTunnelStatus req node }

def handleHeartbeatNode (nodeID : ℕ) (req : HeartbeatRequest) : Prog TunnelOp.Ans TunnelResult := do
  let loaded : Except TunnelErr NodeRow ← stmt (.getNode nodeID)
  match loaded with
  | .error e => return .failed e
  | .ok node =>
    if req.authorized then
      if req.withinLimit then
        let answer : Except TunnelErr Unit ← stmt (.updateHeartbeat nodeID (heartbeatNode req node))
        match answer with
        | .error e => return .failed e
        | .ok _ => return .written (heartbeatNode req node)
      else return .refused
    else if req.withinFailLimit then
      let _ ← stmt (.recordHeartbeatFailure nodeID req.clientIP req.now)
      return .refused
    else return .refused

/-! ## The system -/

inductive TunnelRequest
  | bootstrapNode (nodeID : ℕ) (opts : BootstrapOptions)
  | revokeNode (nodeID : ℕ)
  | provisionClient (name description : GoString) (allowedNodeIDs : List ℕ)
  | rotateClient (clientID : ℕ)
  | revokeClient (clientID : ℕ)
  | applyPeers
  | updateNode (nodeID : ℕ) (req : UpdateNodeRequest)
  | heartbeat (nodeID : ℕ) (req : HeartbeatRequest)

def tunnelCall [UnicodeTables] (t : ℕ) : TunnelRequest → Prog TunnelOp.Ans TunnelResult
  | .bootstrapNode nodeID opts => bootstrapNode t nodeID opts
  | .revokeNode nodeID => revokeNode t nodeID
  | .provisionClient name description allowedNodeIDs =>
    provisionClient t name description allowedNodeIDs
  | .rotateClient clientID => rotateClient t clientID
  | .revokeClient clientID => revokeClient t clientID
  | .applyPeers => applyPeers t
  | .updateNode nodeID req => handleUpdateNode t nodeID req
  | .heartbeat nodeID req => handleHeartbeatNode nodeID req

def tunnelSystem [UnicodeTables] (env : TunnelEnv) :
    System TunnelOp.Ans TunnelStore TunnelChance TunnelRequest TunnelResult where
  exec := TunnelStore.exec env
  prog := tunnelCall

end Portlyn.Tunnel
