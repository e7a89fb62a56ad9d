import Portlyn.Tunnel.Calls

/-! # Tunnel addresses are unique

The pool gives a peer an address that no other row has, and the mutex keeps the rows as they are
until the address is written. The handler of node updates writes whole rows without the mutex: an
address that it brings back may have been given to another peer meanwhile. -/
namespace Portlyn.Tunnel
open Go Lib Lib.Interleave
set_option autoImplicit false

/-- The tunnel addresses that are not empty lie in the network of the tunnel, are not the server's,
and belong to one peer each. -/
structure AddressesUnique (env : TunnelEnv) (peers : Peers) : Prop where
  inside : ∀ p c, peers p = some c → trimSpace c.tunnelIP ≠ [] → ∃ a network, c.address = some a ∧
    parsePrefix (trimSpace env.settings.tunnelCIDR) = some network ∧
    network.masked.contains a = true ∧
    parseAddr (trimSpace env.settings.tunnelServerTunnelIP) ≠ some a
  distinct : DistinctBy PeerColumns.address peers

section Unique
variable {env : TunnelEnv} {policy : TunnelPolicy} {peers peers' : Peers}

theorem AddressesUnique.update (h : AddressesUnique env peers) {p : PeerID} {new : Option PeerColumns}
    (hinside : ∀ c, new = some c → trimSpace c.tunnelIP ≠ [] → ∃ a network, c.address = some a ∧
      parsePrefix (trimSpace env.settings.tunnelCIDR) = some network ∧ network.masked.contains a = true ∧
      parseAddr (trimSpace env.settings.tunnelServerTunnelIP) ≠ some a)
    (hfree : ∀ c a q c', new = some c → c.address = some a → q ≠ p → peers q = some c' →
      c'.address ≠ some a) :
    AddressesUnique env (Function.update peers p new) := by
  constructor
  · intro q c hc hblank
    by_cases hq : q = p
    · subst hq
      rw [Function.update_self] at hc
      exact hinside c hc hblank
    · rw [Function.update_of_ne hq] at hc
      exact h.inside q c hc hblank
  · exact h.distinct.update hfree

theorem FreeAddress.parse {released : Option Addr} {ip : GoString}
    (h : FreeAddress env peers released ip) :
    ∃ n network, parseAddr (trimSpace ip) = some (.v4 n) ∧
      parsePrefix (trimSpace env.settings.tunnelCIDR) = some network ∧
      network.masked.contains (.v4 n) = true ∧
        parseAddr (trimSpace env.settings.tunnelServerTunnelIP) ≠ some (.v4 n) ∧
      ∀ p c, peers p = some c → c.address = some (.v4 n) → released = some (.v4 n) := by
  obtain ⟨n, network, server, rfl, hnetwork, hcontains, hserver, hne, hfree⟩ := h
  refine ⟨n, network, ?_, hnetwork, hcontains, fun heq => hne ?_, hfree⟩
  · rw [(trimSpace_string4 n).1]
    exact parseAddr_string4 n
  · rw [hserver, Option.some.injEq] at heq
    exact heq.symm

theorem AddressesUnique.assign (h : AddressesUnique env peers) {p : PeerID} {new : PeerColumns}
    {released : Option Addr} (hfree : FreeAddress env peers released new.tunnelIP)
    (hreleased : ∀ a q c, released = some a → peers q = some c → c.address = some a → q = p) :
    AddressesUnique env (Function.update peers p (some new)) := by
  obtain ⟨n, network, hparse, hnetwork, hcontains, hserver, hothers⟩ := hfree.parse
  refine h.update (fun c hc _ => ?_) fun c a q c' hc ha hq hc' ha' => ?_
  · cases hc
    exact ⟨_, network, hparse, hnetwork, hcontains, hserver⟩
  · cases hc
    rw [PeerColumns.address, hparse, Option.some.injEq] at ha
    subst ha
    exact hq (hreleased _ q c' (hothers q c' hc' ha') hc' ha')

theorem AddressesUnique.change (h : AddressesUnique env peers)
    (hchange : PeerChange env policy peers peers') : AddressesUnique env peers' := by
  cases hchange with
  | kept => exact h
  | @node id new hwrite =>
    rcases hwrite with rfl | ⟨c, hc, hfree, -, -⟩
    · refine h.update (fun c hc hblank => ?_) fun c a q c' hc ha _ _ _ => ?_
      · cases hc
        exact absurd rfl hblank
      · cases hc
        cases ha
    · exact h.assign hfree fun a q c' ha hc' ha' => h.distinct q (.node id) c' c a hc' hc ha' ha
  | created hnone hfree hkey => exact h.assign hfree fun _ _ _ ha => by cases ha
  | @rotated id new c hc hip hkey =>
    have haddress : new.address = c.address := congrArg (fun ip => parseAddr (trimSpace ip)) hip.symm
    refine h.update (fun c' hc' hblank => ?_) fun c' a q c'' hc' ha hq hc'' ha'' => ?_
    · cases hc'
      rw [← hip] at hblank
      rw [haddress]
      exact h.inside _ c hc hblank
    · cases hc'
      rw [haddress] at ha
      exact hq (h.distinct q _ c'' c a hc'' hc ha'' ha)
  | removed => exact h.update (fun c hc => by cases hc) fun c a q c' hc => by cases hc

end Unique

/-! ## A hub with two nodes -/

/-- `IpcSet` on a device with the key `own`: a line with that key is skipped, and an address that
cannot be read ends it. -/
def setPeerLines (own : GoString) : ℕ → List PeerLines → List GoString → List GoString × Bool
  | _, [], peers => (peers, true)
  | 0, _ :: _, peers => (peers, false)
  | left + 1, line :: lines, peers =>
    let peers := if line.key = own ∨ peers.any (fun key => key = line.key) then peers else peers ++ [line.key]
    if line.allowed.all fun text => (parsePrefix text).isSome then setPeerLines own left lines peers else (peers, false)

theorem mem_setPeerLines {own key : GoString} {left : ℕ} {lines : List PeerLines}
    {peers : List GoString} (h : key ∈ (setPeerLines own left lines peers).1) :
    key ∈ peers ∨ ∃ line ∈ lines, line.key = key := by
  have hadded : ∀ {line : PeerLines}
      {lines peers}, key ∈ (if line.key = own ∨ peers.any (fun key => key = line.key) then peers
      else peers ++ [line.key]) → key ∈ peers ∨ ∃ line' ∈ line :: lines, line'.key = key := by
    intro line lines peers hmem
    split_ifs at hmem
    · exact Or.inl hmem
    · refine (List.mem_append.mp hmem).imp_right fun hlast => ⟨line, List.mem_cons_self, ?_⟩
      exact (List.mem_singleton.mp hlast).symm
  fun_induction setPeerLines own left lines peers with
  | case1 => exact Or.inl h
  | case2 => exact Or.inl h
  | case3 left line lines peers peers' hall ih =>
    rcases ih h with hmem | ⟨line', hline', hkey⟩
    · exact hadded hmem
    · exact Or.inr ⟨line', List.mem_cons_of_mem _ hline', hkey⟩
  | case4 left line lines peers peers' hall => exact hadded h

/-- The network 10.0.0.0/29 with the server at 10.0.0.1. Keys are their own public keys. -/
def sampleTunnel : TunnelEnv where
  settings :=
    { tunnelServerPublicKey := [0x6B], tunnelServerEndpoint := [0x65], tunnelListenPort := 51820
      tunnelCIDR := [0x31, 0x30, 0x2E, 0x30, 0x2E, 0x30, 0x2E, 0x30, 0x2F, 0x32, 0x39]
      tunnelServerTunnelIP := [0x31, 0x30, 0x2E, 0x30, 0x2E, 0x30, 0x2E, 0x31]
      tunnelConfigPath := [] }
  x25519 := some
  ipcSet := fun left lines _ => setPeerLines [0x6B] left lines []
  ipcSet_peers := fun h => (mem_setPeerLines h).resolve_left List.not_mem_nil

/-- The text `10.0.0.2`. -/
def firstAddress : GoString := [0x31, 0x30, 0x2E, 0x30, 0x2E, 0x30, 0x2E, 0x32]

def sampleNode (key ip : GoString) : NodeRow where
  name := []
  description := []
  heartbeatAuthMode := []
  lastSeenAt := none
  version := []
  status := []
  mtlsCertSHA256 := []
  wgPublicKey := key
  wgPresharedKey := []
  wgEndpoint := []
  wgAllowedIPs := []
  wgTunnelIP := ip
  wgLastHandshake := none
  advertisedSubnets := []
  tunnelStatus := []
  heartbeat :=
    { heartbeatVersion := [], lastHeartbeatIP := [], lastHeartbeatCode := 0, lastHeartbeatError :=
      [], heartbeatFailedAt := none
      lastHeartbeatAt := none, load := 0, bandwidthInKbps := 0, bandwidthOutKbps := 0, wgRxBytes := 0, wgTxBytes := 0 }

def twoNodes (key : GoString) (device : Option Device) : TunnelStore where
  nodes := (Table.empty.insert (sampleNode key firstAddress)).insert (sampleNode [] [])
  clients := Table.empty
  mutex := none
  device := device

theorem twoNodes_peers {key : GoString} {device : Option Device} {p : PeerID} {c : PeerColumns}
    (h : (twoNodes key device).peers p = some c) :
    p = .node 1 ∧ c = ⟨key, firstAddress⟩ ∨ p = .node 2 ∧ c = ⟨[], []⟩ := by
  cases p with
  | client id => cases h
  | node id =>
    obtain ⟨row, hrow, rfl⟩ := Option.map_eq_some_iff.mp h
    rcases Table.get_insert_cases hrow with hrow | ⟨rfl, rfl⟩
    · rcases Table.get_insert_cases hrow with hrow | ⟨rfl, rfl⟩
      · cases hrow
      · exact Or.inl ⟨rfl, rfl⟩
    · exact Or.inr ⟨rfl, rfl⟩

def noUpdate : UpdateNodeRequest := ⟨none, none, none, none, none, none, none, none⟩

def generatesKey : BootstrapOptions := ⟨false, [], []⟩

/-- Every statement works, and every random byte is `b`. -/
def works (b : UInt8) : TunnelChance := ⟨true, List.replicate 32 b, 9⟩

def tunnelSteps (t n : ℕ) : List (Event TunnelRequest TunnelChance) :=
  List.replicate n (.step t (works 1))

theorem twoNodes_unique (key : GoString) (device : Option Device) :
    AddressesUnique sampleTunnel (twoNodes key device).peers := by
  have hparse : parseAddr (trimSpace firstAddress) = some (.v4 0x0A000002#32) := by decide +kernel
  constructor
  · intro p c hc hblank
    rcases twoNodes_peers hc with ⟨-, rfl⟩ | ⟨-, rfl⟩
    · refine ⟨_, ⟨.v4 0x0A000000#32, 29, by decide, rfl⟩, hparse, by decide +kernel, by
        decide +kernel, by decide +kernel⟩
    · exact absurd rfl hblank
  · intro p q c c' a hc hc' ha ha'
    rcases twoNodes_peers hc with ⟨rfl, rfl⟩ | ⟨-, rfl⟩
    · rcases twoNodes_peers hc' with ⟨rfl, rfl⟩ | ⟨-, rfl⟩
      · rfl
      · cases ha'
    · cases ha

/-- The mutex is free when a call takes it, and the handler of node updates brings no key and no
address back. -/
def Undisturbed (_t : ℕ) (op : TunnelOp) (_i : TunnelChance) (w : World TunnelOp.Ans TunnelStore) :
    Prop :=
  MutexFree op w.store ∧ ColumnsKept op w.store

def mutexFree (op : TunnelOp) (s : TunnelStore) : Bool :=
  match op with
  | .lock _ => s.mutex.isNone
  | _ => true

def columnsKept (op : TunnelOp) (s : TunnelStore) : Bool :=
  match op with
  | .updateNode .handler id row => (s.nodes.get id).all fun current => row.columns = current.columns
  | _ => true

theorem mutexFree_sound {op : TunnelOp} {s : TunnelStore} (h : mutexFree op s = true) :
    MutexFree op s := by
  cases op with
  | lock t => exact Option.isNone_iff_eq_none.mp h
  | _ => trivial

theorem columnsKept_sound {op : TunnelOp} {s : TunnelStore} (h : columnsKept op s = true) :
    ColumnsKept op s := by
  cases op with
  | updateNode writer id row =>
    cases writer with
    | manager => trivial
    | handler =>
      intro current hcurrent
      rw [columnsKept, hcurrent, Option.all_some, decide_eq_true_eq] at h
      exact h
  | _ => trivial

theorem undisturbed_sound {t : ℕ} {op : TunnelOp} {i : TunnelChance}
    {w : World TunnelOp.Ans TunnelStore}
    (h : (mutexFree op w.store && columnsKept op w.store) = true) : Undisturbed t op i w := by
  rw [Bool.and_eq_true] at h
  exact ⟨mutexFree_sound h.1, columnsKept_sound h.2⟩

/-! ## Runs -/

/-- The first node is revoked, the second gets its address, and then a request writes the row of the
first. -/
def revokedThenUpdated : List (Event TunnelRequest TunnelChance) :=
  .start 0 (.revokeNode 1) :: tunnelSteps 0 6 ++ .start 1 (.bootstrapNode 2 generatesKey) ::
    tunnelSteps 1 12 ++
    .start 2 (.updateNode 1 noUpdate) :: tunnelSteps 2 7

/-- In a run in which the handler of node updates brings no column of the tunnel back, the addresses
are unique at every moment. -/
theorem tunnel_addresses_unique [UnicodeTables] {env : TunnelEnv} {s : TunnelStore}
    (hs : AddressesUnique env s.peers) {events : List (Event TunnelRequest TunnelChance)}
    {c : Config TunnelOp.Ans TunnelStore TunnelRequest TunnelResult}
    (hcond : (tunnelSystem env).Along (Allows (fun _ => True) Undisturbed) (Config.init s) events)
    (hrun : (tunnelSystem env).run (Config.init s) events = some c) :
    AddressesUnique env c.world.store.peers := by
  refine tunnel_invariant anyRequest (J := fun w => AddressesUnique env w.store.peers)
    (fun request _ => anyRequest_admits request)
    (fun t op i w hgiven => ⟨hgiven.1, fun _ => hgiven.2, anyRequest_generated op i w.store⟩)
      (fun t op i w hJ hpromise hgiven => ?_) hs hcond hrun
  exact hJ.change (effect hpromise fun _ => hgiven.2).peerChange

theorem tunnel_addresses_unique_revoked :
    ∃ c, (@tunnelSystem asciiTables sampleTunnel).run (Config.init (twoNodes [0x61] none)) revokedThenUpdated = some c ∧
      (c.world.store.peers (.node 2)).map PeerColumns.tunnelIP = some firstAddress ∧
      AddressesUnique sampleTunnel c.world.store.peers := by
  have hend : ((@tunnelSystem asciiTables sampleTunnel).run (Config.init (twoNodes [0x61] none))
      revokedThenUpdated).map
      (fun c => (c.world.store.peers (.node 2)).map PeerColumns.tunnelIP) =
        some (some firstAddress) := by decide +kernel
  obtain ⟨c, hrun, haddress⟩ := Option.map_eq_some_iff.mp hend
  have hcond : (@tunnelSystem asciiTables sampleTunnel).Along (Allows (fun _ => True) Undisturbed)
      (Config.init (twoNodes [0x61] none)) revokedThenUpdated :=
    along_of_allowed (fun _ => true) (fun _ op _ w => mutexFree op w.store && columnsKept op w.store)
      (fun _ _ => trivial) (fun _ _ _ _ h => undisturbed_sound h) (by decide +kernel)
  exact ⟨c, hrun, haddress,
    @tunnel_addresses_unique asciiTables _ _ (twoNodes_unique _ _) _ _ hcond hrun⟩

/-- A request has loaded the row of the first node when the node is revoked and the second gets its
address. -/
def updatedWhileRevoked : List (Event TunnelRequest TunnelChance) :=
  .start 0 (.updateNode 1 noUpdate) :: tunnelSteps 0 1 ++
    .start 1 (.revokeNode 1) :: tunnelSteps 1 6 ++
    .start 2 (.bootstrapNode 2 generatesKey) :: tunnelSteps 2 12 ++ tunnelSteps 0 1

/-- The request brings the address back that the second node has now. -/
theorem tunnel_address_taken_twice :
    AddressesUnique sampleTunnel (twoNodes [0x61] none).peers ∧
      (@tunnelSystem asciiTables sampleTunnel).Along (Allows (fun _ => True) fun _ op _ w =>
        MutexFree op w.store)
        (Config.init (twoNodes [0x61] none)) updatedWhileRevoked ∧
      ∃ c, (@tunnelSystem asciiTables sampleTunnel).run (Config.init (twoNodes [0x61] none))
        updatedWhileRevoked = some c ∧
        (c.world.store.peers (.node 1)).map PeerColumns.tunnelIP = some firstAddress ∧
        (c.world.store.peers (.node 2)).map PeerColumns.tunnelIP = some firstAddress ∧
        ¬ AddressesUnique sampleTunnel c.world.store.peers := by
  have hend : ((@tunnelSystem asciiTables sampleTunnel).run (Config.init (twoNodes [0x61] none))
      updatedWhileRevoked).map
      (fun c => ((c.world.store.peers (.node 1)).map PeerColumns.tunnelIP,
        (c.world.store.peers (.node 2)).map PeerColumns.tunnelIP)) =
        some (some firstAddress, some firstAddress) := by decide +kernel
  obtain ⟨c, hrun, haddresses⟩ := Option.map_eq_some_iff.mp hend
  obtain ⟨hfirst, hsecond⟩ := Prod.mk.inj haddresses
  refine ⟨twoNodes_unique _ _, ?_, c, hrun, hfirst, hsecond, fun hunique => ?_⟩
  · exact along_of_allowed (fun _ => true) (fun _ op _ w => mutexFree op w.store) (fun _ _ => trivial)
      (fun _ _ _ _ h => mutexFree_sound h) (by decide +kernel)
  · have hparse : parseAddr (trimSpace firstAddress) = some (.v4 0x0A000002#32) := by decide +kernel
    obtain ⟨c₁, hc₁, hip₁⟩ := Option.map_eq_some_iff.mp hfirst
    obtain ⟨c₂, hc₂, hip₂⟩ := Option.map_eq_some_iff.mp hsecond
    have haddress₁ : c₁.address = _ := (congrArg (fun ip => parseAddr (trimSpace ip)) hip₁).trans hparse
    have haddress₂ : c₂.address = _ := (congrArg (fun ip => parseAddr (trimSpace ip)) hip₂).trans hparse
    cases hunique.distinct (.node 1) (.node 2) c₁ c₂ _ hc₁ hc₂ haddress₁ haddress₂

end Portlyn.Tunnel
