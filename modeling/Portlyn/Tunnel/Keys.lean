import Portlyn.Tunnel.Addresses

/-! # No two peers share a key

`ensureUniquePeerKey` compares the texts of keys, and the device decodes them. The decoder is not
strict, so that the bytes of a stored key have other texts, and a node that sends one of these gets
the key of another peer. Among canonical texts there is one for each key. -/
namespace Portlyn.Tunnel
open Go Lib Lib.Interleave
set_option autoImplicit false

/-- Nodes send canonical texts, and a generated key is none that a row holds. There are no updates
of nodes. -/
def canonicalKeys : TunnelPolicy where
  updates := False
  supplied := Base64.Canonical
  generated := fun peers pub => ∀ p c, peers p = some c → c.key ≠ some pub

structure KeysUnique (peers : Peers) : Prop where
  canonical : ∀ p c, peers p = some c → c.key ≠ none → Base64.Canonical (trimSpace c.publicKey)
  distinct : DistinctBy PeerColumns.key peers

theorem decodeKey_eq_some {text key : GoString} (h : decodeKey text = some key) :
    Base64.decodeString (trimSpace text) = some key ∧ trimSpace text ≠ [] := by
  obtain ⟨hdecode, hlength⟩ := Option.filter_eq_some_iff.mp h
  refine ⟨hdecode, fun hblank => ?_⟩
  rw [hblank] at hdecode
  cases hdecode
  cases of_decide_eq_true hlength

theorem trimSpace_canonical {text : GoString} (h : Base64.Canonical text) :
    trimSpace text = text := by
  obtain ⟨bytes, -, rfl⟩ := h
  exact Base64.trimSpace_encodeToString bytes

section Unique
variable {env : TunnelEnv} {peers peers' : Peers}

theorem KeysUnique.update (h : KeysUnique peers) {p : PeerID} {new : Option PeerColumns}
    (hcanonical : ∀ c, new = some c → c.key ≠ none → Base64.Canonical (trimSpace c.publicKey))
    (hfree : ∀ c k q c', new = some c → c.key = some k → q ≠ p → peers q = some c' → c'.key ≠ some k) :
    KeysUnique (Function.update peers p new) := by
  refine ⟨fun q c hc hkey => ?_, h.distinct.update hfree⟩
  by_cases hq : q = p
  · subst hq
    rw [Function.update_self] at hc
    exact hcanonical c hc hkey
  · rw [Function.update_of_ne hq] at hc
    exact h.canonical q c hc hkey

theorem KeysUnique.unique_key (h : KeysUnique peers) {owner : PeerID} {new : PeerColumns}
    (hcanonical : Base64.Canonical new.publicKey) (hunique : UniqueKey peers owner new.publicKey)
    {k : GoString} (hk : new.key = some k) {q : PeerID} {c : PeerColumns} (hq : q ≠ owner)
    (hc : peers q = some c) : c.key ≠ some k := by
  intro hck
  obtain ⟨hnew, hblank⟩ := decodeKey_eq_some hk
  obtain ⟨hold, -⟩ := decodeKey_eq_some hck
  have hcanonical' := h.canonical q c hc (fun hnone => by rw [hnone] at hck; cases hck)
  refine hunique hblank q c hq hc (hcanonical'.ext ?_ (hold.trans hnew.symm))
  rw [trimSpace_canonical hcanonical]
  exact hcanonical

theorem KeysUnique.generate (h : KeysUnique peers) {p : PeerID} {new : PeerColumns}
    (hkey : GeneratedKey canonicalKeys peers new.publicKey) :
    KeysUnique (Function.update peers p (some new)) := by
  obtain ⟨pub, htext, hfresh⟩ := hkey
  refine h.update (fun c hc _ => ?_) fun c k q c' hc hk _ hc' hck => ?_
  · cases hc
    rw [htext, Base64.trimSpace_encodeToString]
    exact Base64.canonical_encodeToString pub
  · cases hc
    obtain ⟨hdecode, -⟩ := decodeKey_eq_some hk
    rw [htext, Base64.trimSpace_encodeToString, Base64.decodeString_encodeToString] at hdecode
    exact hfresh q c' hc' (hdecode ▸ hck)

theorem KeysUnique.change (h : KeysUnique peers)
    (hchange : PeerChange env canonicalKeys peers peers') : KeysUnique peers' := by
  cases hchange with
  | kept => exact h
  | node hwrite =>
    rcases hwrite with rfl | ⟨-, -, -, hkey, hunique⟩
    · refine h.update (fun c hc hkey => ?_) fun c k q c' hc hk _ _ _ => ?_
      · cases hc
        exact absurd rfl hkey
      · cases hc
        cases hk
    · have hcanonical : Base64.Canonical _ := hkey.elim id fun ⟨pub, htext, _⟩ =>
        htext.symm ▸ Base64.canonical_encodeToString pub
      refine h.update (fun c hc _ => ?_) fun c k q c' hc hk hq hc' => ?_
      · cases hc
        rw [trimSpace_canonical hcanonical]
        exact hcanonical
      · cases hc
        exact h.unique_key hcanonical hunique hk hq hc'
  | created hnone hfree hkey => exact h.generate hkey
  | rotated hc hip hkey => exact h.generate hkey
  | removed => exact h.update (fun c hc => by cases hc) fun c k q c' hc => by cases hc

end Unique

/-! ## Runs -/

/-- The mutex is free when a call takes it, and a generated key is none that a row holds. -/
def FreshKeys (env : TunnelEnv) (_t : ℕ) (op : TunnelOp) (i : TunnelChance)
    (w : World TunnelOp.Ans TunnelStore) : Prop :=
  MutexFree op w.store ∧ KeysGenerated env canonicalKeys op i w.store

def freshKeys (env : TunnelEnv) (op : TunnelOp) (i : TunnelChance) (s : TunnelStore) : Bool :=
  match op with
  | .lock _ => s.mutex.isNone
  | .generateKeyPair => (env.x25519 (clampKey i.random)).all fun pub =>
      (s.nodes.rows.all fun n => n.2.columns.key ≠ some pub) && s.clients.rows.all fun c => c.2.columns.key ≠ some pub
  | _ => true

theorem freshKeys_sound {env : TunnelEnv} {t : ℕ} {op : TunnelOp} {i : TunnelChance}
    {w : World TunnelOp.Ans TunnelStore} (h : freshKeys env op i w.store = true) :
    FreshKeys env t op i w := by
  cases op with
  | lock u => exact ⟨Option.isNone_iff_eq_none.mp h, trivial⟩
  | generateKeyPair =>
    refine ⟨trivial, fun pub hpub p c hc => ?_⟩
    rw [freshKeys, hpub, Option.all_some, Bool.and_eq_true, List.all_eq_true, List.all_eq_true] at h
    cases p with
    | node id =>
      obtain ⟨row, hrow, rfl⟩ := (listsNodes_rows w.store id c).mp hc
      exact of_decide_eq_true (h.1 _ hrow)
    | client id =>
      obtain ⟨row, hrow, rfl⟩ := (listsClients_rows w.store id c).mp hc
      exact of_decide_eq_true (h.2 _ hrow)
  | _ => exact ⟨trivial, trivial⟩

def admitsCanonical : TunnelRequest → Bool
  | .updateNode _ _ => false
  | .bootstrapNode _ opts =>
    decide (trimSpace opts.clientPublicKey = []) ||
      decide (Base64.Canonical (trimSpace opts.clientPublicKey))
  | _ => true

theorem admitsCanonical_sound {request : TunnelRequest} (h : admitsCanonical request = true) :
    canonicalKeys.Admits request := by
  cases request with
  | updateNode nodeID req => cases h
  | bootstrapNode nodeID opts =>
    rw [admitsCanonical, Bool.or_eq_true, decide_eq_true_eq, decide_eq_true_eq] at h
    exact fun hkey => h.resolve_left hkey
  | _ => trivial

def zeroKey : GoString := List.replicate 43 0x41 ++ [0x3D]

def otherZeroKey : GoString := List.replicate 42 0x41 ++ [0x42, 0x3D]

def suppliesKey (key : GoString) : BootstrapOptions := ⟨false, [], key⟩

theorem twoNodes_keys (device : Option Device) : KeysUnique (twoNodes zeroKey device).peers := by
  constructor
  · intro p c hc hkey
    rcases twoNodes_peers hc with ⟨-, rfl⟩ | ⟨-, rfl⟩
    · decide +kernel
    · exact absurd rfl hkey
  · intro p q c c' k hc hc' hk hk'
    rcases twoNodes_peers hc with ⟨rfl, rfl⟩ | ⟨-, rfl⟩
    · rcases twoNodes_peers hc' with ⟨rfl, rfl⟩ | ⟨-, rfl⟩
      · rfl
      · cases hk'
    · cases hk

/-- The second node sends the text of 32 ones, a client gets a generated key and then another one.
-/
def differentKeys : List (Event TunnelRequest TunnelChance) :=
  .start 0 (.bootstrapNode 2 (suppliesKey (Base64.encodeToString (List.replicate 32 1)))) ::
    tunnelSteps 0 11 ++
    .start 1 (.provisionClient [] [] []) :: List.replicate 8 (.step 1 (works 2)) ++
    .start 2 (.rotateClient 1) :: List.replicate 7 (.step 2 (works 3))

/-- If nodes send canonical texts and generated keys are new, no two rows hold the same key. -/
theorem tunnel_keys_unique [UnicodeTables] {env : TunnelEnv} {s : TunnelStore}
    (hs : KeysUnique s.peers) {events : List (Event TunnelRequest TunnelChance)}
    {c : Config TunnelOp.Ans TunnelStore TunnelRequest TunnelResult}
    (hcond : (tunnelSystem env).Along (Allows canonicalKeys.Admits (FreshKeys env))
      (Config.init s) events)
    (hrun : (tunnelSystem env).run (Config.init s) events = some c) :
    DistinctBy PeerColumns.key c.world.store.peers := by
  refine (tunnel_invariant canonicalKeys (J := fun w => KeysUnique w.store.peers) (fun _ h => h)
    (fun t op i w hgiven => ⟨hgiven.1, fun h => h.elim, hgiven.2⟩)
    (fun t op i w hJ hpromise _ => ?_) hs hcond hrun).distinct
  exact hJ.change (effect hpromise fun h => h.elim).peerChange

theorem tunnel_keys_unique_canonical :
    ∃ c, (@tunnelSystem asciiTables sampleTunnel).run (Config.init (twoNodes zeroKey none)) differentKeys = some c ∧
      (c.world.store.peers (.node 2)).bind PeerColumns.key = some (List.replicate 32 1) ∧
      (c.world.store.peers (.client 1)).bind PeerColumns.key = some (clampKey (List.replicate 32 3)) ∧
      DistinctBy PeerColumns.key c.world.store.peers := by
  have hend : ((@tunnelSystem asciiTables sampleTunnel).run (Config.init (twoNodes zeroKey none))
      differentKeys).map
      (fun c => ((c.world.store.peers (.node 2)).bind PeerColumns.key,
        (c.world.store.peers (.client 1)).bind PeerColumns.key)) =
        some (some (List.replicate 32 1), some (clampKey (List.replicate 32 3))) := by decide +kernel
  obtain ⟨c, hrun, hkeys⟩ := Option.map_eq_some_iff.mp hend
  obtain ⟨hnode, hclient⟩ := Prod.mk.inj hkeys
  have hcond : (@tunnelSystem asciiTables sampleTunnel).Along
      (Allows canonicalKeys.Admits (FreshKeys sampleTunnel))
      (Config.init (twoNodes zeroKey none)) differentKeys :=
    along_of_allowed admitsCanonical (fun _ op i w => freshKeys sampleTunnel op i w.store)
      (fun _ h => admitsCanonical_sound h)
      (fun _ _ _ _ h => freshKeys_sound h) (by decide +kernel)
  exact ⟨c, hrun, hnode, hclient,
    @tunnel_keys_unique asciiTables _ _ (twoNodes_keys none) _ _ hcond hrun⟩

/-- The second node sends another text of the key that the first has. It is accepted, and both nodes
are one peer. -/
theorem tunnel_key_shared :
    KeysUnique (twoNodes zeroKey none).peers ∧ validatePublicKey otherZeroKey = true ∧
      (@tunnelSystem asciiTables sampleTunnel).Along (Allows (fun _ => True)
        (FreshKeys sampleTunnel))
        (Config.init (twoNodes zeroKey none))
          (.start 0 (.bootstrapNode 2 (suppliesKey otherZeroKey)) :: tunnelSteps 0 11) ∧
      ∃ c, (@tunnelSystem asciiTables sampleTunnel).run (Config.init (twoNodes zeroKey none))
          (.start 0 (.bootstrapNode 2 (suppliesKey otherZeroKey)) :: tunnelSteps 0 11) = some c ∧
        (c.world.store.peers (.node 1)).bind PeerColumns.key = some (List.replicate 32 0) ∧
        (c.world.store.peers (.node 2)).bind PeerColumns.key = some (List.replicate 32 0) ∧
        ¬ DistinctBy PeerColumns.key c.world.store.peers := by
  have hend : ((@tunnelSystem asciiTables sampleTunnel).run (Config.init (twoNodes zeroKey none))
      (.start 0 (.bootstrapNode 2 (suppliesKey otherZeroKey)) :: tunnelSteps 0 11)).map
      (fun c => ((c.world.store.peers (.node 1)).bind PeerColumns.key,
        (c.world.store.peers (.node 2)).bind PeerColumns.key)) =
        some (some (List.replicate 32 0), some (List.replicate 32 0)) := by decide +kernel
  obtain ⟨c, hrun, hkeys⟩ := Option.map_eq_some_iff.mp hend
  obtain ⟨hfirst, hsecond⟩ := Prod.mk.inj hkeys
  refine ⟨twoNodes_keys none, by decide +kernel, ?_, c, hrun, hfirst, hsecond, fun hdistinct => ?_⟩
  · exact along_of_allowed (fun _ => true) (fun _ op i w => freshKeys sampleTunnel op i w.store) (fun _ _ => trivial)
      (fun _ _ _ _ h => freshKeys_sound h) (by decide +kernel)
  · obtain ⟨c₁, hc₁, hkey₁⟩ := Option.bind_eq_some_iff.mp hfirst
    obtain ⟨c₂, hc₂, hkey₂⟩ := Option.bind_eq_some_iff.mp hsecond
    cases hdistinct (.node 1) (.node 2) c₁ c₂ _ hc₁ hc₂ hkey₁ hkey₂

end Portlyn.Tunnel
