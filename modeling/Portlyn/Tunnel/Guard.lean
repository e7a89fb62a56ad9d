import Portlyn.Tunnel.Manager

/-! # What the mutex of the tunnel manager guards

The mutex guards the keys and addresses of all peers, and the device, as long as the handler of node
updates writes these two columns back as they are. Under that condition every method of the manager
finds them, when it writes, as they were when it read them. What each method then promises of its
writes is said here once; the results on addresses, keys and live peers are drawn from these
promises. -/
namespace Portlyn.Tunnel
open Go Lib Lib.Interleave
set_option autoImplicit false

/-! ## Peers -/

inductive PeerID
  | node (id : ℕ)
  | client (id : ℕ)
deriving DecidableEq

structure PeerColumns where
  publicKey : GoString
  tunnelIP : GoString
deriving DecidableEq

def PeerColumns.address (c : PeerColumns) : Option Addr := parseAddr (trimSpace c.tunnelIP)

def PeerColumns.key (c : PeerColumns) : Option GoString := decodeKey c.publicKey

def NodeRow.columns (row : NodeRow) : PeerColumns := ⟨row.wgPublicKey, row.wgTunnelIP⟩

def ClientRow.columns (row : ClientRow) : PeerColumns := ⟨row.wgPublicKey, row.wgTunnelIP⟩

abbrev Peers := PeerID → Option PeerColumns

def TunnelStore.peers (s : TunnelStore) : Peers
  | .node id => (s.nodes.get id).map NodeRow.columns
  | .client id => (s.clients.get id).map ClientRow.columns

structure Guarded where
  peers : Peers
  device : Option Device

def TunnelStore.guarded (s : TunnelStore) : Guarded := ⟨s.peers, s.device⟩

def Follows (g : Guarded) : Prop :=
  ∀ device, g.device = some device → ∀ key ∈ device.peers, ∃ p c, g.peers p = some c ∧
    c.key = some key

/-- What `f` gives for the rows, if it gives anything, it gives for one peer only. -/
def DistinctBy {β : Type} (f : PeerColumns → Option β) (peers : Peers) : Prop :=
  ∀ p q c c' b, peers p = some c → peers q = some c' → f c = some b → f c' = some b → p = q

theorem DistinctBy.update {β : Type} {f : PeerColumns → Option β} {peers : Peers}
    (h : DistinctBy f peers) {p : PeerID} {new : Option PeerColumns}
    (hfree : ∀ c b q c', new = some c → f c = some b → q ≠ p → peers q = some c' → f c' ≠ some b) :
    DistinctBy f (Function.update peers p new) := by
  intro q q' c c' b hc hc' hb hb'
  by_cases hq : q = p
  · by_cases hq' : q' = p
    · rw [hq, hq']
    · subst hq
      rw [Function.update_self] at hc
      rw [Function.update_of_ne hq'] at hc'
      exact absurd hb' (hfree c b q' c' hc hb hq' hc')
  · rw [Function.update_of_ne hq] at hc
    by_cases hq' : q' = p
    · subst hq'
      rw [Function.update_self] at hc'
      exact absurd hb (hfree c' b q c hc' hb' hq hc)
    · rw [Function.update_of_ne hq'] at hc'
      exact h q q' c c' b hc hc' hb hb'

/-! ## What the statements do to the peers -/

section Effects
variable (s : TunnelStore) (id : ℕ)

theorem changeNode_mutex (f : NodeRow → NodeRow) : (s.changeNode id f).2.mutex = s.mutex := by
  rw [TunnelStore.changeNode]
  split <;> rfl

theorem changeNode_guarded (f : NodeRow → NodeRow) :
    (s.changeNode id f).2.guarded =
      ⟨Function.update s.peers (.node id) ((s.nodes.get id).map fun row => (f row).columns), s.device⟩ := by
  rw [TunnelStore.changeNode]
  split
  · rename_i hnone
    rw [hnone, Function.update_eq_self_iff.mpr]
    · rfl
    · exact (congrArg (Option.map NodeRow.columns) hnone).symm
  · rename_i current hcurrent
    refine congrArg (Guarded.mk · s.device) (funext fun p => ?_)
    by_cases hp : p = .node id
    · subst hp
      rw [Function.update_self]
      dsimp only [TunnelStore.peers]
      rw [Table.get_update_some _ _ hcurrent, hcurrent, if_pos (decide_eq_true rfl)]
      rfl
    · rw [Function.update_of_ne hp]
      cases p with
      | client id' => rfl
      | node id' =>
        have hid : id' ≠ id := fun h => hp (congrArg PeerID.node h)
        dsimp only [TunnelStore.peers]
        rw [Table.get_update]
        cases s.nodes.get id' with
        | none => rfl
        | some row' => rw [Option.map_some, if_neg (fun h => hid (of_decide_eq_true h))]

theorem changeNode_kept {f : NodeRow → NodeRow}
    (h : ∀ row, s.nodes.get id = some row → (f row).columns = row.columns) :
    (s.changeNode id f).2.guarded = s.guarded := by
  rw [changeNode_guarded, Function.update_eq_self_iff.mpr]
  · rfl
  · dsimp only [TunnelStore.peers]
    cases hget : s.nodes.get id with
    | none => rfl
    | some row => exact congrArg some (h row hget)

theorem changeNode_cases (f : NodeRow → NodeRow) :
    (s.changeNode id f).1 = .ok () ∧ s.nodes.get id ≠ none ∨
      (∃ e, (s.changeNode id f).1 = .error e) ∧ (s.changeNode id f).2 = s := by
  rw [TunnelStore.changeNode]
  cases hget : s.nodes.get id with
  | none => exact Or.inr ⟨⟨_, rfl⟩, rfl⟩
  | some current => exact Or.inl ⟨rfl, Option.some_ne_none _⟩

theorem peers_setClient {clients : Table ClientRow} {new : Option ClientRow}
    (hnew : clients.get id = new)
    (hothers : ∀ id', id' ≠ id → clients.get id' = s.clients.get id') :
    ({ s with clients := clients } : TunnelStore).guarded =
      ⟨Function.update s.peers (.client id) (new.map ClientRow.columns), s.device⟩ := by
  refine congrArg (Guarded.mk · s.device) (funext fun p => ?_)
  by_cases hp : p = .client id
  · subst hp
    rw [Function.update_self]
    exact congrArg (Option.map ClientRow.columns) hnew
  · rw [Function.update_of_ne hp]
    cases p with
    | node id' => rfl
    | client id' => exact congrArg (Option.map ClientRow.columns) (hothers id' fun h => hp (congrArg PeerID.client h))

end Effects

/-! ## What the calls promise -/

/-- What is known of the requests: whether there are updates of nodes among them, the keys that
nodes send, and the keys that are generated while the peers are these. -/
structure TunnelPolicy where
  updates : Prop
  supplied : GoString → Prop
  generated : Peers → GoString → Prop

section Promises
variable (env : TunnelEnv) (policy : TunnelPolicy)

/-- The text of an address inside the network that is not the server's, and that no row has unless
it is the one which is given up. -/
def FreeAddress (peers : Peers) (released : Option Addr) (ip : GoString) : Prop :=
  ∃ n network server, ip = string4 n ∧ parsePrefix (trimSpace env.settings.tunnelCIDR) =
    some network ∧
    network.masked.contains (.v4 n) = true ∧
    parseAddr (trimSpace env.settings.tunnelServerTunnelIP) = some server ∧ .v4 n ≠ server ∧
    ∀ p c, peers p = some c → c.address = some (.v4 n) → released = some (.v4 n)

def GeneratedKey (peers : Peers) (key : GoString) : Prop := ∃ pub, key = Base64.encodeToString pub ∧
    policy.generated peers pub

def UniqueKey (peers : Peers) (owner : PeerID) (key : GoString) : Prop :=
  trimSpace key ≠ [] → ∀ p c, p ≠ owner → peers p = some c → trimSpace c.publicKey ≠ trimSpace key

/-- What the manager writes to the row of a node: nothing, or a free address and a key of its own.
-/
def NodeWrite (peers : Peers) (id : ℕ) (new : PeerColumns) : Prop :=
  new = ⟨[], []⟩ ∨ ∃ c, peers (.node id) = some c ∧ FreeAddress env peers c.address new.tunnelIP ∧
    (policy.supplied new.publicKey ∨ GeneratedKey policy peers new.publicKey) ∧
    UniqueKey peers (.node id) new.publicKey

def SpecsOf (peers : Peers) (specs : List PeerSpec) : Prop :=
  ∀ spec ∈ specs, ∃ p c, peers p = some c ∧ spec.publicKey = trimSpace c.publicKey

def TunnelOp.Changes : (op : TunnelOp) → op.Ans → Prop
  | .updateNode .manager _ _, .ok _ => True
  | .createClient _, .ok _ => True
  | .saveClient _ _, .ok _ => True
  | .deleteClient _, .ok _ => True
  | _, _ => False

/-- A failure after which the device may be left as it was: the rows could not be read, the file
could not be written, or a key could not be decoded. -/
def TunnelOp.Fails : (op : TunnelOp) → op.Ans → Prop
  | .listNodes, .error _ => True
  | .listClients, .error _ => True
  | .writeConfig, .error _ => True
  | .applyPeerSpecs _, .error .decodeKey => True
  | _, _ => False

def Untouched (own : List (Entry TunnelOp.Ans)) : Prop := ∀ e ∈ own, ¬ e.op.Changes e.ans

def Broken (own : List (Entry TunnelOp.Ans)) : Prop := ∃ e ∈ own, e.op.Fails e.ans

/-- How a method leaves the peers: as it found them, or followed by the device, unless a statement
failed. -/
structure Ends (r : TunnelResult) (g : Guarded) (own : List (Entry TunnelOp.Ans)) : Prop where
  followed : (Untouched own ∧ ∀ id row, r ≠ .revoked id row) ∨ Broken own ∨ Follows g
  cleared : ∀ id row, r = .revoked id row → ∀ c, g.peers (.node id) = some c → c.publicKey = []

def TunnelPromise (t : ℕ) (op : TunnelOp) (w : World TunnelOp.Ans TunnelStore) : Prop :=
  match op with
  | .lock u => u = t
  | .unlock u r => u = t ∧ w.store.mutex = some t ∧ Ends r w.store.guarded (w.own t)
  | .updateNode .manager id row =>
    w.store.mutex = some t ∧ NodeWrite env policy w.store.peers id row.columns
  | .updateNode .handler _ _ => policy.updates
  | .createClient row =>
    w.store.mutex = some t ∧ FreeAddress env w.store.peers none row.wgTunnelIP ∧
      GeneratedKey policy w.store.peers row.wgPublicKey
  | .saveClient id row =>
    w.store.mutex = some t ∧ (∃ c, w.store.peers (.client id) = some c ∧ c.tunnelIP = row.wgTunnelIP) ∧
      GeneratedKey policy w.store.peers row.wgPublicKey
  | .deleteClient _ => w.store.mutex = some t
  | .setForwardRules _ => w.store.mutex = some t
  | .applyPeerSpecs specs => w.store.mutex = some t ∧ SpecsOf w.store.peers specs
  | _ => True

/-! ## The conditions on schedules -/

def MutexFree (op : TunnelOp) (s : TunnelStore) : Prop :=
  match op with
  | .lock _ => s.mutex = none
  | _ => True

/-- The handler of node updates writes the key and the address of the node back as they are in the
row at that moment. -/
def ColumnsKept (op : TunnelOp) (s : TunnelStore) : Prop :=
  match op with
  | .updateNode .handler id row =>
    ∀ current, s.nodes.get id = some current → row.columns = current.columns
  | _ => True

def KeysGenerated (op : TunnelOp) (i : TunnelChance) (s : TunnelStore) : Prop :=
  match op with
  | .generateKeyPair =>
    ∀ pub, env.x25519 (clampKey i.random) = some pub → policy.generated s.peers pub
  | _ => True

inductive PeerChange (peers : Peers) : Peers → Prop
  | kept : PeerChange peers peers
  | node {id : ℕ} {new : PeerColumns} (h : NodeWrite env policy peers id new) :
    PeerChange peers (Function.update peers (.node id) (some new))
  | created {id : ℕ} {new : PeerColumns} (hnone : peers (.client id) = none)
      (hfree : FreeAddress env peers none new.tunnelIP)
    (hkey : GeneratedKey policy peers new.publicKey) : PeerChange peers (Function.update peers (.client id) (some new))
  | rotated {id : ℕ} {new c : PeerColumns} (hc : peers (.client id) = some c) (hip : c.tunnelIP = new.tunnelIP)
    (hkey : GeneratedKey policy peers new.publicKey) : PeerChange peers (Function.update peers (.client id) (some new))
  | removed {id : ℕ} : PeerChange peers (Function.update peers (.client id) none)

end Promises

end Portlyn.Tunnel
