import Portlyn.Go.Base64
import Portlyn.Go.Json
import Portlyn.Lib.Interleave
import Portlyn.Lib.Table
import Portlyn.Tunnel.Pool

/-! # What the tunnel manager works on

The rows of nodes and clients, the mutex of the manager, and the WireGuard device of the server with
the rules by which it forwards. Every statement of the manager and of the handlers that write node
rows is an operation here; whether the database, the file system and the random source work is left
to chance. -/
namespace Portlyn.Tunnel
open Go Lib Lib.Interleave
set_option autoImplicit false

/-! ## Rows -/

/-- The columns of `domain.Node` that only heartbeats write. Numbers with a fraction are kept as
their bits. -/
structure HeartbeatColumns where
  heartbeatVersion : GoString
  lastHeartbeatIP : GoString
  lastHeartbeatCode : ℕ
  lastHeartbeatError : GoString
  heartbeatFailedAt : Option Instant
  lastHeartbeatAt : Option Instant
  load : UInt64
  bandwidthInKbps : UInt64
  bandwidthOutKbps : UInt64
  wgRxBytes : ℤ
  wgTxBytes : ℤ

/-- The other columns of `domain.Node`. -/
structure NodeRow where
  name : GoString
  description : GoString
  heartbeatAuthMode : GoString
  lastSeenAt : Option Instant
  version : GoString
  status : GoString
  mtlsCertSHA256 : GoString
  wgPublicKey : GoString
  wgPresharedKey : GoString
  wgEndpoint : GoString
  wgAllowedIPs : GoString
  wgTunnelIP : GoString
  wgLastHandshake : Option Instant
  advertisedSubnets : GoString
  tunnelStatus : GoString
  heartbeat : HeartbeatColumns

/-- `domain.Client`. -/
structure ClientRow where
  name : GoString
  description : GoString
  wgPublicKey : GoString
  wgTunnelIP : GoString
  wgAllowedIPs : GoString
  allowedNodeIDs : GoString
  enabled : Bool
  tunnelStatus : GoString

/-- The tunnel fields of `domain.AppSettings` that the manager reads. -/
structure TunnelSettings where
  tunnelServerPublicKey : GoString
  tunnelServerEndpoint : GoString
  tunnelListenPort : ℤ
  tunnelCIDR : GoString
  tunnelServerTunnelIP : GoString
  tunnelConfigPath : GoString

/-! ## Keys -/

structure KeyPair where
  privateKey : GoString
  publicKey : GoString

def validatePublicKey (value : GoString) : Bool := (Base64.decodeString value).any fun decoded =>
    decoded.length = 32

/-- `keyToHex`, whose text the device reads back as these bytes. -/
def decodeKey (value : GoString) : Option GoString :=
  (Base64.decodeString (trimSpace value)).filter fun decoded => decoded.length = 32

/-- The bits that `GenerateKeyPair` sets and clears. -/
def clampKey (key : GoString) : GoString :=
  (key.modify 0 fun b => b &&& 248).modify 31 fun b => b &&& 127 ||| 64

/-! ## The server -/

structure PeerSpec where
  publicKey : GoString
  presharedKey : GoString
  allowedIPs : List GoString

structure ForwardRule where
  sources : List Prefix
  destinations : List Prefix

/-- A running WireGuard device: its peers, and the rules of the server for forwarding. -/
structure Device where
  peers : List GoString
  rules : List ForwardRule

inductive ApplyErr
  | decodeKey
  | ipc

/-- The lines that `ApplyPeerSpecs` writes for a peer: its key, and its allowed addresses. -/
structure PeerLines where
  key : GoString
  allowed : List GoString

/-- The loop of `ApplyPeerSpecs`. A key that cannot be decoded ends it. -/
def peerLines : List PeerSpec → Option (List PeerLines)
  | [] => some []
  | spec :: specs =>
    let pub := trimSpace spec.publicKey
    if pub = [] ∨ spec.allowedIPs = [] then peerLines specs
    else do
      let key ← decodeKey pub
      if trimSpace spec.presharedKey ≠ [] ∧ (decodeKey (trimSpace spec.presharedKey)).isNone then none
      else
        let lines ← peerLines specs
        return ⟨key, (spec.allowedIPs.map trimSpace).filter (· ≠ [])⟩ :: lines

/-- The settings, the curve, and `IpcSet` of the device: from the lines that replace its peers and
the peers it has, it makes those it has then. It may fail after `left` lines. -/
structure TunnelEnv where
  settings : TunnelSettings
  x25519 : GoString → Option GoString
  ipcSet : (left : ℕ) → List PeerLines → List GoString → List GoString × Bool
  ipcSet_peers : ∀ {left lines peers key}, key ∈ (ipcSet left lines peers).1 →
    ∃ line ∈ lines, line.key = key

def generateKeyPair (env : TunnelEnv) (random : GoString) : Option KeyPair :=
  (env.x25519 (clampKey random)).map fun pub =>
    ⟨Base64.encodeToString (clampKey random), Base64.encodeToString pub⟩

def applyPeerSpecs (env : TunnelEnv) (left : ℕ) (specs : List PeerSpec) (device : Device) :
    Except ApplyErr Unit × Device :=
  match peerLines specs with
  | none => (.error .decodeKey, device)
  | some lines =>
    match env.ipcSet left lines device.peers with
    | (peers, true) => (.ok (), { device with peers := peers })
    | (peers, false) => (.error .ipc, { device with peers := peers })

/-! ## Results -/

inductive TunnelErr
  | store
  | notFound
  | invalidServerSettings
  | endpointNotConfigured
  | parseServerTunnelIP
  | pool (e : PoolErr)
  | nodeAlreadyProvisioned
  | invalidClientPublicKey
  | random
  | peerKeyDuplicate
  | invalidTunnelCIDR
  | allowedIPsNotPermitted (entry : GoString)
  | config
  | apply (e : ApplyErr)

structure ClientBundle where
  privateKey : GoString
  publicKey : GoString
  address : GoString
  serverPublicKey : GoString
  serverEndpoint : GoString
  presharedKey : GoString
  allowedIPs : List GoString
  keepalive : ℕ

structure BootstrapResult where
  node : NodeRow
  bundle : ClientBundle
  serverPublicKey : GoString
  serverTunnelIP : GoString
  advertisedSubnets : List GoString

/-- How a call ends. `RevokeNode` returns nothing; the model keeps the row that it had loaded. -/
inductive TunnelResult
  | failed (e : TunnelErr)
  | bootstrapped (result : BootstrapResult)
  | revoked (nodeID : ℕ) (node : NodeRow)
  | provisioned (bundle : ClientBundle) (client : ClientRow)
  | rotated (bundle : ClientBundle) (client : ClientRow)
  | clientRevoked
  | applied
  | invalid (message : GoString)
  | refused
  | written (node : NodeRow)

/-! ## Operations -/

structure TunnelStore where
  nodes : Table NodeRow
  clients : Table ClientRow
  mutex : Option ℕ
  device : Option Device

/-- Who calls `NodeStore.Update`: the manager, or the handler of node updates. -/
inductive Writer
  | manager
  | handler
deriving DecidableEq

inductive TunnelOp
  | lock (t : ℕ)
  -- the deferred `Unlock`, after which the call returns this
  | unlock (t : ℕ) (result : TunnelResult)
  | getSettings
  | listNodes
  | getNode (id : ℕ)
  | updateNode (writer : Writer) (id : ℕ) (row : NodeRow)
  | updateHeartbeat (id : ℕ) (row : NodeRow)
  | recordHeartbeatFailure (id : ℕ) (ip : GoString) (failedAt : Instant)
  | listClients
  | createClient (row : ClientRow)
  | getClient (id : ℕ)
  | saveClient (id : ℕ) (row : ClientRow)
  | deleteClient (id : ℕ)
  | generateKeyPair
  | generatePresharedKey
  | writeConfig
  | started
  | setForwardRules (rules : List ForwardRule)
  | applyPeerSpecs (specs : List PeerSpec)

@[reducible]
def TunnelOp.Ans : TunnelOp → Type
  | .lock _ => Unit
  | .unlock _ _ => Unit
  | .getSettings => Except TunnelErr TunnelSettings
  | .listNodes => Except TunnelErr (List (ℕ × NodeRow))
  | .getNode _ => Except TunnelErr NodeRow
  | .updateNode _ _ _ => Except TunnelErr Unit
  | .updateHeartbeat _ _ => Except TunnelErr Unit
  | .recordHeartbeatFailure _ _ _ => Except TunnelErr Unit
  | .listClients => Except TunnelErr (List (ℕ × ClientRow))
  | .createClient _ => Except TunnelErr Unit
  | .getClient _ => Except TunnelErr ClientRow
  | .saveClient _ _ => Except TunnelErr Unit
  | .deleteClient _ => Except TunnelErr Unit
  | .generateKeyPair => Except TunnelErr KeyPair
  | .generatePresharedKey => Except TunnelErr GoString
  | .writeConfig => Except TunnelErr Unit
  | .started => Bool
  | .setForwardRules _ => Unit
  | .applyPeerSpecs _ => Except ApplyErr Unit

/-- What the store leaves to chance: whether the statement works, the random bytes, and after how
many peers the device gives up. -/
structure TunnelChance where
  ok : Bool
  random : GoString
  ipcLeft : ℕ

namespace TunnelStore

/-- `UpdateHeartbeat` writes the columns of a heartbeat and no others. -/
def heartbeatColumns (row : NodeRow) (current : NodeRow) : NodeRow :=
  { current with
    lastSeenAt := row.lastSeenAt, status := row.status, version := row.version, wgLastHandshake :=
    row.wgLastHandshake,
    tunnelStatus := row.tunnelStatus, heartbeat := row.heartbeat }

/-- `RecordHeartbeatFailure`. -/
def failureColumns (ip : GoString) (failedAt : Instant) (current : NodeRow) : NodeRow :=
  { current with
    heartbeat := { current.heartbeat with
      lastHeartbeatIP := ip, lastHeartbeatCode := 401, lastHeartbeatError := str "invalid_token",
      heartbeatFailedAt := some failedAt } }

def changeNode (s : TunnelStore) (id : ℕ) (f : NodeRow → NodeRow) :
    Except TunnelErr Unit × TunnelStore :=
  match s.nodes.get id with
  | none => (.error .notFound, s)
  | some _ => (.ok (), { s with nodes := s.nodes.update (fun id' _ => id' = id) f })

def saveClient (s : TunnelStore) (id : ℕ) (row : ClientRow) : TunnelStore :=
  if h : 0 < id then { s with clients := s.clients.put id row h }
    else { s with clients := s.clients.insert row }

def exec (env : TunnelEnv) : Semantics TunnelOp.Ans TunnelStore TunnelChance
  | .lock t, _, s => ((), { s with mutex := some t })
  | .unlock _ _, _, s => ((), { s with mutex := none })
  | .getSettings, i, s => (if i.ok then .ok env.settings else .error .store, s)
  | .listNodes, i, s => (if i.ok then .ok s.nodes.rows else .error .store, s)
  | .getNode id, i, s =>
    (if i.ok then (match s.nodes.get id with | some row => .ok row | none => .error .notFound) else .error .store, s)
  | .updateNode _ id row, i, s => if i.ok then s.changeNode id fun _ => row else (.error .store, s)
  | .updateHeartbeat id row, i, s =>
    if i.ok then s.changeNode id (heartbeatColumns row) else (.error .store, s)
  | .recordHeartbeatFailure id ip failedAt, i, s =>
    if i.ok then s.changeNode id (failureColumns ip failedAt) else (.error .store, s)
  | .listClients, i, s => (if i.ok then .ok s.clients.rows else .error .store, s)
  | .createClient row, i, s =>
    if i.ok then (.ok (), { s with clients := s.clients.insert row }) else (.error .store, s)
  | .getClient id, i, s =>
    (if i.ok then (match s.clients.get id with | some row => .ok row | none => .error .notFound) else .error .store, s)
  | .saveClient id row, i, s => if i.ok then (.ok (), s.saveClient id row) else (.error .store, s)
  | .deleteClient id, i, s =>
    if i.ok then
      match s.clients.get id with
      | none => (.error .notFound, s)
      | some _ => (.ok (), { s with clients := s.clients.delete id })
    else (.error .store, s)
  | .generateKeyPair, i, s =>
    (if i.ok then
      match generateKeyPair env i.random with
      | some keys => .ok keys
      | none => .error .random
    else .error .random, s)
  | .generatePresharedKey, i, s => (if i.ok then .ok (Base64.encodeToString i.random) else .error .random, s)
  | .writeConfig, i, s => (if i.ok then .ok () else .error .config, s)
  | .started, _, s => (s.device.isSome, s)
  | .setForwardRules rules, _, s =>
    ((), { s with device := s.device.map fun device => { device with rules := rules } })
  | .applyPeerSpecs specs, i, s =>
    match s.device with
    | none => (.ok (), s)
    | some device =>
      match Tunnel.applyPeerSpecs env i.ipcLeft specs device with
      | (answer, device) => (answer, { s with device := some device })

end TunnelStore

end Portlyn.Tunnel
