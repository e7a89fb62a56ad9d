import Portlyn.Tunnel.Effects

/-! # The calls on the tunnel keep their promises

A method of the manager first reads, while the guarded part of the store is that at its lock, then
it writes one row, and then it has the configuration written and the peers applied. `Reads` is what
the first phase learns; the parts of the second phase end with the peers followed by the device, or
with a failure. -/
namespace Portlyn.Tunnel
open Go Lib Lib.Interleave
set_option autoImplicit false

section Calls
variable (env : TunnelEnv) (policy : TunnelPolicy)

def tunnelMutex : Mutex (TunnelStore.exec env) Guarded where
  holder := TunnelStore.mutex
  guarded := TunnelStore.guarded
  promise := TunnelPromise env policy
  given := fun _ op i w => MutexFree op w.store ∧ (policy.updates → ColumnsKept op w.store) ∧
    KeysGenerated env policy op i w.store
  others := fun _ _ _ _ _ hne hholder hpromise hgiven =>
    (effect hpromise hgiven.2.1).others hgiven.1 hne hholder

/-! ## Reading -/

variable {env policy} {t : ℕ} {g : Guarded} {α β : Type}

variable (env policy t) in
abbrev Holding (g : Guarded) (own : List (Entry TunnelOp.Ans))
    (w : World TunnelOp.Ans TunnelStore) : Prop :=
  (tunnelMutex env policy).Held t g own w

variable (env policy t) in
abbrev TunnelWp (Q : α → World TunnelOp.Ans TunnelStore → Prop) (p : Prog TunnelOp.Ans α)
    (w : World TunnelOp.Ans TunnelStore) : Prop :=
  (tunnelMutex env policy).discipline.Wp t Q p w

variable (env policy t g) in
def Reading (w : World TunnelOp.Ans TunnelStore) : Prop := ∃ own, Holding env policy t g own w ∧
    Untouched own

variable (env policy t) in
def Ended (r : Except TunnelErr TunnelResult) (w : World TunnelOp.Ans TunnelStore) : Prop :=
  ∃ g own, Holding env policy t g own w ∧ Ends (.of r) g own

variable (env policy t) in
abbrev Ending : Prog TunnelOp.Ans (Except TunnelErr TunnelResult) → World TunnelOp.Ans TunnelStore →
    Prop :=
  TunnelWp env policy t (Ended env policy t)

variable (env policy t) in
abbrev Keeping (p : Prog TunnelOp.Ans α) : World TunnelOp.Ans TunnelStore → Prop :=
  TunnelWp env policy t (fun _ _ => True) p

variable (env policy t g) in
/-- A part of a call that changes nothing, and what it finds out if it does not fail. -/
def Reads (p : Prog TunnelOp.Ans (Except TunnelErr α)) (R : α → Prop) : Prop :=
  ∀ w, Reading env policy t g w →
    TunnelWp env policy t (fun r w => Reading env policy t g w ∧ ∀ a, r = .ok a → R a) p w

variable {w : World TunnelOp.Ans TunnelStore}

theorem Reading.stable {w' : World TunnelOp.Ans TunnelStore} (h : Reading env policy t g w)
    (hrely : (tunnelMutex env policy).discipline.rely t w w') : Reading env policy t g w' := by
  obtain ⟨own, hheld, hown⟩ := h
  exact ⟨own, hheld.stable hrely, hown⟩

theorem Reading.ended (h : Reading env policy t g w) (e : TunnelErr) :
    Ended env policy t (.error e) w := by
  obtain ⟨own, hheld, hown⟩ := h
  refine ⟨g, own, hheld, Or.inl ⟨hown, fun id row => ?_⟩, fun id row hr => ?_⟩
  · exact fun h => TunnelResult.noConfusion h
  · exact TunnelResult.noConfusion hr

theorem wp_fail (h : Reading env policy t g w) (e : TunnelErr) :
    Ending env policy t (fail e) w :=
  wp_ret fun _ hrely _ => (h.stable hrely).ended e

variable {R : α → Prop}

theorem wp_reads {p : Prog TunnelOp.Ans (Except TunnelErr α)} (hp : Reads env policy t g p R)
    {f : α → Prog TunnelOp.Ans (Except TunnelErr TunnelResult)}
    (hf : ∀ a w, R a → Reading env policy t g w → Ending env policy t (f a) w)
    (h : Reading env policy t g w) :
    Ending env policy t (p.attempt f) w := by
  refine wp_attempt ((hp w h).imp fun r w _ hr => ⟨fun e _ => ?_, fun a ha => ?_⟩)
  · exact wp_fail hr.1 e
  · exact hf a w (hr.2 a ha) hr.1

theorem reads_attempt {p : Prog TunnelOp.Ans (Except TunnelErr α)} {R' : β → Prop}
    (hp : Reads env policy t g p R) {f : α → Prog TunnelOp.Ans (Except TunnelErr β)}
    (hf : ∀ a, R a → Reads env policy t g (f a) R') : Reads env policy t g (p.attempt f) R' := by
  intro w h
  refine wp_attempt ((hp w h).imp fun r w _ hr => ⟨fun e _ => ?_, fun a ha => ?_⟩)
  · exact wp_ret fun _ hrely _ => ⟨hr.1.stable hrely, fun a h => by cases h⟩
  · exact hf a (hr.2 a ha) w hr.1

theorem reads_pure {a : α} (h : R a) : Reads env policy t g (pure (.ok a)) R :=
  fun _ hw => wp_ret fun _ hrely _ => ⟨hw.stable hrely, fun _ ha => Except.ok.inj ha ▸ h⟩

theorem reads_fail {e : TunnelErr} : Reads env policy t g (fail e) R :=
  fun _ hw => wp_ret fun _ hrely _ => ⟨hw.stable hrely, fun _ ha => by cases ha⟩

theorem untouched_cons {own : List (Entry TunnelOp.Ans)} (h : Untouched own)
    {e : Entry TunnelOp.Ans} (he : ¬ e.op.Changes e.ans) : Untouched (e :: own) :=
  List.forall_mem_cons.mpr ⟨he, h⟩

theorem wp_answer (op : TunnelOp) (T : op.Ans → Prop) (hstore : ∀ i s, (TunnelStore.exec env op i s).2 = s)
    (hpromise : ∀ w, TunnelPromise env policy t op w)
    (hT : ∀ i s, s.guarded = g → KeysGenerated env policy op i s → T (TunnelStore.exec env op i s).1)
    {own : List (Entry TunnelOp.Ans)} (h : Holding env policy t g own w) :
    TunnelWp env policy t (fun a w => Holding env policy t g (⟨t, op, a⟩ :: own) w ∧ T a) (stmt op) w := by
  refine Mutex.wp_held h (fun w' _ => hpromise w') fun w' i hheld hgiven => ?_
  have hstep := hheld.step op i ((congrArg _ (hstore i w'.store)).trans hheld.holder)
    ((congrArg _ (hstore i w'.store)).trans hheld.guarded)
  exact Mutex.wp_end hstep fun w'' hheld' => ⟨hheld', hT i w'.store hheld.guarded hgiven.2.2⟩

theorem wp_quiet (op : TunnelOp) (T : op.Ans → Prop) (hstore : ∀ i s, (TunnelStore.exec env op i s).2 = s)
    (hpromise : ∀ w, TunnelPromise env policy t op w) (hquiet : ∀ a, ¬ op.Changes a)
    (hT : ∀ i s, s.guarded = g → KeysGenerated env policy op i s → T (TunnelStore.exec env op i s).1)
    (h : Reading env policy t g w) :
    TunnelWp env policy t (fun a w => Reading env policy t g w ∧ T a) (stmt op) w := by
  obtain ⟨own, hheld, hown⟩ := h
  exact (wp_answer op T hstore hpromise hT hheld).imp fun a w _ hw =>
    ⟨⟨_, hw.1, untouched_cons hown (hquiet a)⟩, hw.2⟩

/-! ## What the readers find -/

def ListsNodes (peers : Peers) (rows : List (ℕ × NodeRow)) : Prop :=
  ∀ id c, peers (.node id) = some c ↔ ∃ row, (id, row) ∈ rows ∧ row.columns = c

def ListsClients (peers : Peers) (rows : List (ℕ × ClientRow)) : Prop :=
  ∀ id c, peers (.client id) = some c ↔ ∃ row, (id, row) ∈ rows ∧ row.columns = c

theorem listsNodes_rows (s : TunnelStore) : ListsNodes s.peers s.nodes.rows := by
  intro id c
  rw [TunnelStore.peers, Option.map_eq_some_iff]
  exact exists_congr fun row => and_congr_left fun _ => Table.get_eq_some

theorem listsClients_rows (s : TunnelStore) : ListsClients s.peers s.clients.rows := by
  intro id c
  rw [TunnelStore.peers, Option.map_eq_some_iff]
  exact exists_congr fun row => and_congr_left fun _ => Table.get_eq_some

variable {s : TunnelStore}

theorem listNodes_lists {i : TunnelChance} (hs : s.guarded = g) :
    ∀ rows, (TunnelStore.exec env .listNodes i s).1 = .ok rows → ListsNodes g.peers rows := by
  intro rows hrows
  dsimp only [TunnelStore.exec] at hrows
  split_ifs at hrows
  cases hrows
  rw [← hs]
  exact listsNodes_rows s

theorem listClients_lists {i : TunnelChance} (hs : s.guarded = g) :
    ∀ rows, (TunnelStore.exec env .listClients i s).1 = .ok rows → ListsClients g.peers rows := by
  intro rows hrows
  dsimp only [TunnelStore.exec] at hrows
  split_ifs at hrows
  cases hrows
  rw [← hs]
  exact listsClients_rows s

theorem reads_listNodes : Reads env policy t g (stmt .listNodes) (ListsNodes g.peers) := fun _ h =>
  wp_quiet .listNodes (fun r => ∀ rows, r = .ok rows → ListsNodes g.peers rows) (fun _ _ => rfl)
    (fun _ => trivial) (fun _ h => h)
    (fun _ _ hs _ => listNodes_lists hs) h

theorem reads_listClients : Reads env policy t g (stmt .listClients) (ListsClients g.peers) :=
  fun _ h =>
  wp_quiet .listClients (fun r => ∀ rows, r = .ok rows → ListsClients g.peers rows) (fun _ _ => rfl)
    (fun _ => trivial) (fun _ h => h)
    (fun _ _ hs _ => listClients_lists hs) h

theorem reads_getSettings : Reads env policy t g (stmt .getSettings) (· = env.settings) := by
  intro w h
  refine wp_quiet .getSettings (fun r => ∀ settings, r = .ok settings → settings = env.settings)
    (fun _ _ => rfl) (fun _ => trivial)
    (fun _ h => h) (fun i s _ _ settings hsettings => ?_) h
  dsimp only [TunnelStore.exec] at hsettings
  split_ifs at hsettings
  cases hsettings
  rfl

theorem reads_getNode {id : ℕ} :
    Reads env policy t g (stmt (.getNode id)) fun row => g.peers (.node id) = some row.columns := by
  intro w h
  refine wp_quiet (.getNode id)
    (fun r => ∀ row, r = .ok row → g.peers (.node id) = some row.columns) (fun _ _ => rfl)
    (fun _ => trivial)
    (fun _ h => h) (fun i s hs _ row hrow => ?_) h
  dsimp only [TunnelStore.exec] at hrow
  split_ifs at hrow
  rw [← hs]
  dsimp only [TunnelStore.guarded, TunnelStore.peers]
  cases hget : s.nodes.get id with
  | none =>
    rw [hget] at hrow
    cases hrow
  | some current =>
    rw [hget] at hrow
    cases hrow
    rfl

theorem reads_getClient {id : ℕ} :
    Reads env policy t g (stmt (.getClient id)) fun row => g.peers (.client id) =
      some row.columns := by
  intro w h
  refine wp_quiet (.getClient id)
    (fun r => ∀ row, r = .ok row → g.peers (.client id) = some row.columns) (fun _ _ => rfl)
    (fun _ => trivial)
    (fun _ h => h) (fun i s hs _ row hrow => ?_) h
  dsimp only [TunnelStore.exec] at hrow
  split_ifs at hrow
  rw [← hs]
  dsimp only [TunnelStore.guarded, TunnelStore.peers]
  cases hget : s.clients.get id with
  | none =>
    rw [hget] at hrow
    cases hrow
  | some current =>
    rw [hget] at hrow
    cases hrow
    rfl

theorem reads_generateKeyPair :
    Reads env policy t g (stmt .generateKeyPair) fun keys => GeneratedKey policy g.peers keys.publicKey := by
  intro w h
  refine wp_quiet .generateKeyPair (fun r => ∀ keys, r = .ok keys →
    GeneratedKey policy g.peers keys.publicKey) (fun _ _ => rfl) (fun _ => trivial)
    (fun _ h => h) (fun i s hs hgenerated keys hkeys => ?_) h
  dsimp only [TunnelStore.exec] at hkeys
  split_ifs at hkeys
  rw [generateKeyPair] at hkeys
  cases hpub : env.x25519 (clampKey i.random) with
  | none =>
    rw [hpub] at hkeys
    cases hkeys
  | some pub =>
    rw [hpub] at hkeys
    cases hkeys
    refine ⟨pub, rfl, ?_⟩
    rw [← hs]
    exact hgenerated pub hpub

theorem reads_generatePresharedKey : Reads env policy t g (stmt .generatePresharedKey) fun _ =>
    True := fun _ h =>
  wp_quiet .generatePresharedKey (fun r => ∀ key, r = .ok key → True) (fun _ _ => rfl)
    (fun _ => trivial) (fun _ h => h)
    (fun _ _ _ _ _ _ => trivial) h

/-! ## Free addresses -/

def PoolOf (env : TunnelEnv) (peers : Peers) (pool : IPPool) : Prop :=
  ∃ network server, parsePrefix (trimSpace env.settings.tunnelCIDR) = some network ∧
    pool.network = network.masked ∧
    parseAddr (trimSpace env.settings.tunnelServerTunnelIP) = some server ∧ server ∈ pool.reserved ∧
    ∀ p c a, peers p = some c → c.address = some a → network.masked.contains a = true →
    a ∈ pool.allocated

theorem free_of_allocate {peers : Peers} {pool : IPPool} (released : Option Addr) {n : BitVec 32}
    (h : PoolOf env peers pool) (hn : ((released.map pool.release).getD pool).allocate = .ok n) :
    FreeAddress env peers released (string4 n) := by
  obtain ⟨network, server, hnetwork, hpool, hserver, hreserved, hallocated⟩ := h
  obtain ⟨hcontains, hfree, hother⟩ := IPPool.allocate_spec hn
  cases released with
  | none =>
    rw [Option.map_none, Option.getD_none] at hcontains hfree hother
    rw [hpool] at hcontains
    refine ⟨n, network, server, rfl, hnetwork, hcontains, hserver,
      fun heq => hother (heq ▸ hreserved), fun p c hc hparse => ?_⟩
    exact absurd (hallocated p c _ hc hparse hcontains) hfree
  | some own =>
    rw [Option.map_some, Option.getD_some, IPPool.release] at hcontains hfree hother
    rw [hpool] at hcontains
    refine ⟨n, network, server, rfl, hnetwork, hcontains, hserver,
      fun heq => hother (heq ▸ hreserved), fun p c hc hparse => ?_⟩
    have hmem := hallocated p c _ hc hparse hcontains
    by_contra hne
    exact hfree (List.mem_filter.mpr ⟨hmem, decide_eq_true fun heq => hne (congrArg some heq.symm)⟩)

theorem foldl_markAllocated (ips : List GoString) (pool : IPPool) :
    let marked := ips.foldl (fun pool ip => ((parseAddr (trimSpace ip)).map pool.markAllocated).getD pool) pool
    marked.network = pool.network ∧ marked.reserved = pool.reserved ∧ (∀ a ∈ pool.allocated, a ∈ marked.allocated) ∧
      ∀ ip ∈ ips, ∀ a, parseAddr (trimSpace ip) = some a → pool.network.contains a = true → a ∈ marked.allocated := by
  induction ips generalizing pool with
  | nil => exact ⟨rfl, rfl, fun _ h => h, List.forall_mem_nil _⟩
  | cons ip ips ih =>
    have hstep : ∀ pool' : IPPool, pool' = ((parseAddr (trimSpace ip)).map pool.markAllocated).getD pool →
        pool'.network = pool.network ∧ pool'.reserved = pool.reserved ∧ (∀ a ∈ pool.allocated, a ∈ pool'.allocated) ∧
          ∀ a, parseAddr (trimSpace ip) = some a → pool.network.contains a = true → a ∈ pool'.allocated := by
      rintro pool' rfl
      cases parseAddr (trimSpace ip) with
      | none => exact ⟨rfl, rfl, fun _ h => h, nofun⟩
      | some a =>
        rw [Option.map_some, IPPool.markAllocated]
        split_ifs with hcontains
        · refine ⟨rfl, rfl, fun _ h => List.mem_cons_of_mem _ h, fun a' ha' _ => ?_⟩
          cases ha'
          exact List.mem_cons_self
        · refine ⟨rfl, rfl, fun _ h => h, fun a' ha' hcontains' => ?_⟩
          cases ha'
          exact absurd hcontains' hcontains
    obtain ⟨hnetwork, hreserved, hkept, hnew⟩ := hstep _ rfl
    obtain ⟨hnetwork', hreserved', hkept', hnew'⟩ := ih (((parseAddr (trimSpace ip)).map pool.markAllocated).getD pool)
    refine ⟨hnetwork'.trans hnetwork, hreserved'.trans hreserved, fun a ha => hkept' a (hkept a ha),
      fun ip' hip' a ha hcontains => ?_⟩
    rcases List.mem_cons.mp hip' with rfl | hip'
    · exact hkept' a (hnew a ha hcontains)
    · exact hnew' ip' hip' a ha (hnetwork.symm ▸ hcontains)

theorem newIPPool_ok {cidr : GoString} {server : Addr} {pool : IPPool} (h : newIPPool cidr [server] = .ok pool) :
    ∃ network, parsePrefix cidr = some network ∧ pool.network = network.masked ∧ server ∈ pool.reserved := by
  rw [newIPPool] at h
  split at h
  · cases h
  · rename_i network hnetwork
    split at h
    · cases h
      exact ⟨network, hnetwork, rfl, List.mem_singleton_self _⟩
    · cases h

theorem reads_loadPool : Reads env policy t g (loadPool env.settings) (PoolOf env g.peers) := by
  rw [loadPool]
  split
  · exact reads_fail
  · rename_i server hserver
    split
    · exact reads_fail
    · rename_i pool hpool
      obtain ⟨network, hnetwork, hmasked, hreserved⟩ := newIPPool_ok hpool
      refine reads_attempt reads_listNodes fun nodes hnodes =>
        reads_attempt reads_listClients fun clients hclients => ?_
      obtain ⟨hnet, hres, -, hnew⟩ := foldl_markAllocated
        ((nodes.map fun n => n.2.wgTunnelIP) ++ clients.map fun c => c.2.wgTunnelIP) pool
      refine reads_pure ⟨network, server, hnetwork, hnet.trans hmasked, hserver,
        hres.symm ▸ hreserved, fun p c a hc ha hcontains => ?_⟩
      refine hnew c.tunnelIP ?_ a ha (hmasked.symm ▸ hcontains)
      cases p with
      | node id =>
        obtain ⟨row, hrow, rfl⟩ := (hnodes id c).mp hc
        exact List.mem_append_left _ (List.mem_map.mpr ⟨_, hrow, rfl⟩)
      | client id =>
        obtain ⟨row, hrow, rfl⟩ := (hclients id c).mp hc
        exact List.mem_append_right _ (List.mem_map.mpr ⟨_, hrow, rfl⟩)

/-! ## Keys -/

theorem reads_ensureUniquePeerKey {key : GoString} {id : ℕ} :
    Reads env policy t g (ensureUniquePeerKey key id 0) fun _ => UniqueKey g.peers (.node id) key := by
  intro w h
  have hclients : g.peers (.client 0) = none := by
    obtain ⟨own, hheld, -⟩ := h
    rw [← hheld.guarded]
    exact peers_client_zero w.store
  suffices hreads : Reads env policy t g (ensureUniquePeerKey key id 0) fun _ =>
    UniqueKey g.peers (.node id) key from hreads w h
  rw [ensureUniquePeerKey]
  split_ifs with hblank
  · exact reads_pure fun hkey => absurd hblank hkey
  · refine reads_attempt reads_listNodes fun nodes hnodes => ?_
    split_ifs with hnode
    · exact reads_fail
    · refine reads_attempt reads_listClients fun clients hlist => ?_
      split_ifs with hclient
      · exact reads_fail
      · refine reads_pure fun _ p c hp hc heq => ?_
        cases p with
        | node id' =>
          obtain ⟨row, hrow, rfl⟩ := (hnodes id' c).mp hc
          refine hnode (List.any_eq_true.mpr ⟨_, hrow, ?_⟩)
          rw [Bool.and_eq_true, decide_eq_true_eq, decide_eq_true_eq]
          exact ⟨fun h => hp (congrArg PeerID.node h), heq⟩
        | client id' =>
          obtain ⟨row, hrow, rfl⟩ := (hlist id' c).mp hc
          refine hclient (List.any_eq_true.mpr ⟨_, hrow, ?_⟩)
          rw [Bool.and_eq_true, decide_eq_true_eq, decide_eq_true_eq]
          refine ⟨fun hzero => ?_, heq⟩
          rw [show id' = 0 from hzero, hclients] at hc
          cases hc

theorem reads_clientKeys {opts : BootstrapOptions}
    (hsupplied : trimSpace opts.clientPublicKey ≠ [] →
      policy.supplied (trimSpace opts.clientPublicKey)) :
    Reads env policy t g (clientKeys opts) fun keys => policy.supplied keys.publicKey ∨
      GeneratedKey policy g.peers keys.publicKey := by
  rw [clientKeys]
  split_ifs with hgiven hvalid
  · exact reads_pure (Or.inl (hsupplied hgiven))
  · exact reads_fail
  · intro w h
    refine (reads_generateKeyPair w h).imp fun r w _ hr => ⟨hr.1, fun keys hkeys => Or.inr (hr.2 keys hkeys)⟩

theorem reads_subnetsForNodes {nodeIDs : List ℕ} :
    Reads env policy t g (subnetsForNodes nodeIDs) fun _ => True := by
  rw [subnetsForNodes]
  split_ifs
  · exact reads_pure trivial
  · exact reads_attempt reads_listNodes fun _ _ => reads_pure trivial

/-! ## Applying the peers -/

theorem nodePeer_key {node : NodeRow} {spec : PeerSpec} (h : nodePeer node = some spec) :
    spec.publicKey = trimSpace node.wgPublicKey := by
  rw [nodePeer] at h
  split_ifs at h
  cases h
  rfl

theorem clientPeer_key {client : ClientRow} {spec : PeerSpec} (h : clientPeer client = some spec) :
    spec.publicKey = trimSpace client.wgPublicKey := by
  rw [clientPeer] at h
  split_ifs at h
  cases h
  rfl

theorem specsOf_peerState {peers : Peers} {nodes : List (ℕ × NodeRow)}
    {clients : List (ℕ × ClientRow)} (hnodes : ListsNodes peers nodes)
    (hclients : ListsClients peers clients) : SpecsOf peers (peerState nodes clients).1 := by
  intro spec hspec
  rcases List.mem_append.mp hspec with hspec | hspec
  · obtain ⟨⟨id, row⟩, hrow, hpeer⟩ := List.mem_filterMap.mp hspec
    exact ⟨.node id, row.columns, (hnodes id _).mpr ⟨row, hrow, rfl⟩, nodePeer_key hpeer⟩
  · obtain ⟨⟨id, row⟩, hrow, hpeer⟩ := List.mem_filterMap.mp hspec
    exact ⟨.client id, row.columns, (hclients id _).mpr ⟨row, hrow, rfl⟩, clientPeer_key hpeer⟩

section Applying
variable {own : List (Entry TunnelOp.Ans)} {w : World TunnelOp.Ans TunnelStore}

theorem broken_cons {e : Entry TunnelOp.Ans} (h : e.op.Fails e.ans) : Broken (e :: own) :=
  ⟨e, List.mem_cons_self, h⟩

theorem wp_buildPeerState (h : Holding env policy t g own w) :
    TunnelWp env policy t (fun r w => ∃ own', Holding env policy t g own' w ∧
      (∀ e, r = .error e → Broken own') ∧ ∀ state, r = .ok state → SpecsOf g.peers state.1) buildPeerState w := by
  refine wp_attempt ((wp_answer .listNodes (fun r => ∀ rows, r = .ok rows → ListsNodes g.peers rows)
    (fun _ _ => rfl)
    (fun _ => trivial) (fun _ _ hs _ => listNodes_lists hs) h).imp fun r w _ hw =>
    ⟨fun e he => ?_, fun nodes hr => ?_⟩)
  · subst he
    exact Mutex.wp_end hw.1 fun w hheld => ⟨_, hheld, fun _ _ => broken_cons trivial, fun _ hstate => by cases hstate⟩
  · have hnodes := hw.2 nodes hr
    refine wp_attempt ((wp_answer .listClients (fun r => ∀ rows, r = .ok rows →
      ListsClients g.peers rows) (fun _ _ => rfl)
      (fun _ => trivial) (fun _ _ hs _ => listClients_lists hs) hw.1).imp fun r w _ hw =>
      ⟨fun e he => ?_, fun clients hr => ?_⟩)
    · subst he
      exact Mutex.wp_end hw.1 fun w hheld => ⟨_, hheld, fun _ _ => broken_cons trivial, fun _ hstate => by cases hstate⟩
    · refine Mutex.wp_end hw.1 fun w hheld => ⟨_, hheld, fun _ he => (by cases he), fun state hstate => ?_⟩
      cases hstate
      exact specsOf_peerState hnodes (hw.2 clients hr)

def Applied (env : TunnelEnv) (policy : TunnelPolicy) (t : ℕ) (peers : Peers)
    (w : World TunnelOp.Ans TunnelStore) : Prop :=
  ∃ device own, Holding env policy t ⟨peers, device⟩ own w ∧ (Broken own ∨ Follows ⟨peers, device⟩)

theorem Applied.stable {peers : Peers} {w w' : World TunnelOp.Ans TunnelStore}
    (h : Applied env policy t peers w) (hrely : (tunnelMutex env policy).discipline.rely t w w') :
    Applied env policy t peers w' := by
  obtain ⟨device, own, hheld, hfollows⟩ := h
  exact ⟨device, own, hheld.stable hrely, hfollows⟩

theorem wp_setPeers {specs : List PeerSpec} {rules : List ForwardRule}
    (h : Holding env policy t g own w) (hspecs : SpecsOf g.peers specs) :
    TunnelWp env policy t (fun _ w => Applied env policy t g.peers w) (setPeers specs rules) w := by
  refine Mutex.wp_held h (fun w' hheld => hheld.holder) fun w' i hheld _ => ?_
  have hrules := hheld.step (.setForwardRules rules) i hheld.holder
    (congrArg (fun g => Guarded.mk g.peers
      (TunnelStore.exec env (.setForwardRules rules) i w'.store).2.device) hheld.guarded)
  refine Mutex.wp_held hrules (fun w'' hheld' => ⟨hheld'.holder, ?_⟩) fun w'' i' hheld' _ => ?_
  · rw [show w''.store.peers = g.peers from congrArg Guarded.peers hheld'.guarded]
    exact hspecs
  · have hpeers : w''.store.peers = g.peers := congrArg Guarded.peers hheld'.guarded
    obtain ⟨hmutex, hkept⟩ := exec_applyPeerSpecs_kept env specs i' w''.store
    have hstep := hheld'.step (.applyPeerSpecs specs) i' (hmutex.trans hheld'.holder)
      (congrArg (fun peers => Guarded.mk peers (TunnelStore.exec env (.applyPeerSpecs specs) i' w''.store).2.device)
        (hkept.trans hpeers))
    refine Mutex.wp_end hstep fun w₃ hheld₃ => ⟨_, _, hheld₃, ?_⟩
    by_cases hdecode : (TunnelStore.exec env (.applyPeerSpecs specs) i' w''.store).1 = .error .decodeKey
    · refine Or.inl (broken_cons ?_)
      dsimp only [World.answer]
      rw [hdecode]
      trivial
    · have hfollows := follows_applyPeerSpecs (hpeers ▸ hspecs) hdecode
      rw [TunnelStore.guarded, hkept, hpeers] at hfollows
      exact Or.inr hfollows

theorem wp_applyPeersLocked (h : Holding env policy t g own w) :
    TunnelWp env policy t (fun _ w => Applied env policy t g.peers w) applyPeersLocked w := by
  refine wp_bind ((wp_answer .started (fun started => started = g.device.isSome) (fun _ _ => rfl)
    (fun _ => trivial)
    (fun i s hs _ => congrArg (fun g => g.device.isSome) hs) h).imp fun started w _ hw => ?_)
  refine wp_ite (fun _ => wp_bind ((wp_buildPeerState hw.1).imp fun state w _ hstate => ?_))
    fun hstopped => ?_
  · obtain ⟨own', hheld, hbroken, hspecs⟩ := hstate
    cases state with
    | error e => exact Mutex.wp_end hheld fun w hheld => ⟨g.device, own', hheld, Or.inl (hbroken e rfl)⟩
    | ok state =>
      exact wp_bind ((wp_setPeers hheld (hspecs state rfl)).imp fun _ w _ happlied =>
        wp_ret fun w' hrely _ => happlied.stable hrely)
  · refine Mutex.wp_end hw.1 fun w hheld => ⟨g.device, _, hheld, Or.inr fun device hdevice => ?_⟩
    rw [hw.2, show g.device = some device from hdevice] at hstopped
    exact absurd rfl hstopped

theorem wp_applied {r : TunnelResult} (h : Holding env policy t g own w)
    (hcleared : ∀ id row, r = .revoked id row → ∀ c, g.peers (.node id) = some c → c.publicKey = []) :
    Ending env policy t (applyPeersLocked >>= fun _ => pure (.ok r)) w := by
  refine wp_bind ((wp_applyPeersLocked h).imp fun _ w _ happlied => ?_)
  obtain ⟨device, own', hheld, hfollows⟩ := happlied
  exact Mutex.wp_end hheld fun w hheld => ⟨_, own', hheld, Or.inr hfollows, hcleared⟩

theorem wp_configured {settings : TunnelSettings} {r : TunnelResult} (h : Holding env policy t g own w)
    (hcleared : ∀ id row, r = .revoked id row → ∀ c, g.peers (.node id) = some c → c.publicKey = []) :
    Ending env policy t
      ((writeServerConfigLocked settings).attempt fun _ => applyPeersLocked >>= fun _ => pure (.ok r)) w := by
  have hbroken : ∀ {own' : List (Entry TunnelOp.Ans)} {w : World TunnelOp.Ans TunnelStore}
      (e : TunnelErr),
      Holding env policy t g own' w → Broken own' →
      Ending env policy t (pure (.error e)) w := fun e hheld hbroken =>
    Mutex.wp_end hheld fun w hheld => ⟨g, _, hheld, Or.inr (Or.inl hbroken), fun _ _ hr => TunnelResult.noConfusion hr⟩
  have hquiet : ∀ (op : TunnelOp) (own : List (Entry TunnelOp.Ans))
      (w : World TunnelOp.Ans TunnelStore),
      (∀ i s, (TunnelStore.exec env op i s).2 = s) → (∀ w, TunnelPromise env policy t op w) →
      Holding env policy t g own w → TunnelWp env policy t
        (fun a w => Holding env policy t g (⟨t, op, a⟩ :: own) w ∧ True) (stmt op) w :=
          fun op own w hstore hpromise hheld =>
    wp_answer op (fun _ => True) hstore hpromise (fun _ _ _ _ => trivial) hheld
  rw [writeServerConfigLocked]
  split_ifs with hpath
  · exact wp_attempt (wp_ret fun w' hrely _ =>
      ⟨fun e he => (by cases he), fun _ _ => wp_applied (h.stable hrely) hcleared⟩)
  · refine wp_attempt (wp_attempt ((hquiet .listNodes own w (fun _ _ => rfl) (fun _ => trivial) h).imp fun r w _ hw =>
      ⟨fun e he => ?_, fun _ _ => ?_⟩))
    · subst he
      exact Mutex.wp_end hw.1 fun w hheld =>
        ⟨fun e' _ => hbroken e' hheld (broken_cons trivial), fun _ ha => by cases ha⟩
    · refine (hquiet .writeConfig _ w (fun _ _ => rfl) (fun _ => trivial) hw.1).imp fun r w _ hw =>
        ⟨fun e he => ?_, fun _ _ => ?_⟩
      · subst he
        exact hbroken e hw.1 (broken_cons trivial)
      · exact wp_applied hw.1 hcleared

end Applying

/-! ## Writing -/

variable (env policy t g) in
/-- A statement that has changed nothing, or has left what it guards as `G` says. -/
def Written (changes : Prop) (G : Guarded → Prop) (w : World TunnelOp.Ans TunnelStore) : Prop :=
  ¬ changes ∧ Reading env policy t g w ∨ changes ∧ ∃ g' own, G g' ∧ Holding env policy t g' own w

theorem wp_write (op : TunnelOp) (G : Guarded → Prop)
    (hpromise : ∀ w, w.store.mutex = some t → w.store.guarded = g → TunnelPromise env policy t op w)
    (hsets : ∀ s, s.guarded = g → ∃ p new, op.Sets s p new ∧ G ⟨Function.update g.peers p new, g.device⟩)
    (h : Reading env policy t g w) :
    TunnelWp env policy t (fun a w => Written env policy t g (op.Changes a) G w) (stmt op) w := by
  obtain ⟨own, hheld, hown⟩ := h
  refine Mutex.wp_held hheld (fun w' h => hpromise w' h.holder h.guarded) fun w' i hheld' _ => ?_
  obtain ⟨p, new, hop, hG⟩ := hsets w'.store hheld'.guarded
  rcases exec_sets hop with ⟨hquiet, hstore⟩ | ⟨hchanges, hmutex, hguarded⟩
  · have hstep := hheld'.step op i ((congrArg _ hstore).trans hheld'.holder) ((congrArg _ hstore).trans hheld'.guarded)
    exact Mutex.wp_end hstep fun w'' hheld'' => Or.inl ⟨hquiet, _, hheld'', untouched_cons hown hquiet⟩
  · have hset : (TunnelStore.exec env op i w'.store).2.guarded = ⟨Function.update g.peers p new, g.device⟩ := by
      rw [hguarded, ← hheld'.guarded]
      rfl
    have hstep := hheld'.step op i (hmutex.trans hheld'.holder) hset
    exact Mutex.wp_end hstep fun w'' hheld'' => Or.inr ⟨hchanges, _, _, hG, hheld''⟩

theorem wp_written {changes : Except TunnelErr Unit → Prop} {G : Guarded → Prop}
    {p : Prog TunnelOp.Ans (Except TunnelErr Unit)}
    {f : Unit → Prog TunnelOp.Ans (Except TunnelErr TunnelResult)}
    (hp : TunnelWp env policy t (fun a w => Written env policy t g (changes a) G w) p w)
    (herror : ∀ e, ¬ changes (.error e)) (hok : changes (.ok ()))
    (hf : ∀ g' own w, G g' → Holding env policy t g' own w → Ending env policy t (f ()) w) :
    Ending env policy t (p.attempt f) w := by
  refine wp_attempt (hp.imp fun r w _ hr => ⟨fun e he => ?_, fun a ha => ?_⟩)
  · subst he
    rcases hr with ⟨-, hreading⟩ | ⟨hchanges, -⟩
    · exact wp_fail hreading e
    · exact absurd hchanges (herror e)
  · subst ha
    rcases hr with ⟨hquiet, -⟩ | ⟨-, g', own, hg', hheld⟩
    · exact absurd hok hquiet
    · exact hf g' own w hg' hheld

theorem wp_updateNode {id : ℕ} {row : NodeRow}
    {f : Unit → Prog TunnelOp.Ans (Except TunnelErr TunnelResult)}
    (hwrite : NodeWrite env policy g.peers id row.columns)
    (hf : ∀ g' own w, g'.peers = Function.update g.peers (.node id) (some row.columns) →
      Holding env policy t g' own w → Ending env policy t (f ()) w)
    (h : Reading env policy t g w) :
    Ending env policy t (Prog.attempt (stmt (.updateNode .manager id row)) f) w := by
  refine wp_written (wp_write (.updateNode .manager id row)
    (fun g' => g'.peers = Function.update g.peers (.node id) (some row.columns))
    (fun w hmutex hg => ⟨hmutex, ?_⟩)
    (fun s _ => ⟨_, _, .updateNode id row, rfl⟩) h) (fun _ h => h) trivial hf
  rw [show w.store.peers = g.peers from congrArg Guarded.peers hg]
  exact hwrite

theorem wp_clientWritten {changes : Except TunnelErr Unit → Prop}
    {p : Prog TunnelOp.Ans (Except TunnelErr Unit)} {r : TunnelResult}
    (hp : TunnelWp env policy t (fun a w => Written env policy t g (changes a)
      (fun _ => True) w) p w)
    (herror : ∀ e, ¬ changes (.error e)) (hok : changes (.ok ()))
    (hr : ∀ id row, r ≠ .revoked id row) :
    Ending env policy t
      (p.attempt fun _ => applyPeersLocked >>= fun _ => pure (.ok r)) w :=
  wp_written hp herror hok fun _ _ _ _ hheld => wp_applied hheld fun id row heq =>
    absurd heq (hr id row)

theorem wp_createClient (row : ClientRow) (hfree : FreeAddress env g.peers none row.wgTunnelIP)
    (hkey : GeneratedKey policy g.peers row.wgPublicKey) (h : Reading env policy t g w) :
    TunnelWp env policy t (fun a w =>
      Written env policy t g (TunnelOp.Changes (.createClient row) a) (fun _ => True) w)
      (stmt (.createClient row)) w := by
  refine wp_write (.createClient row) (fun _ => True) (fun w hmutex hg => ⟨hmutex, ?_⟩)
    (fun s _ => ⟨_, _, .createClient row, trivial⟩) h
  rw [show w.store.peers = g.peers from congrArg Guarded.peers hg]
  exact ⟨hfree, hkey⟩

theorem wp_saveClient {id : ℕ} (row : ClientRow)
    (hip : ∃ c, g.peers (.client id) = some c ∧ c.tunnelIP = row.wgTunnelIP)
    (hkey : GeneratedKey policy g.peers row.wgPublicKey) (h : Reading env policy t g w) :
    TunnelWp env policy t (fun a w =>
      Written env policy t g (TunnelOp.Changes (.saveClient id row) a) (fun _ => True) w)
      (stmt (.saveClient id row)) w := by
  obtain ⟨old, hold, hsame⟩ := hip
  refine wp_write (.saveClient id row) (fun _ => True) (fun w hmutex hg => ⟨hmutex, ?_⟩)
    (fun s hs => ⟨_, _, .saveClient row ((congrArg (fun g => g.peers (.client id)) hs).trans hold), trivial⟩) h
  rw [show w.store.peers = g.peers from congrArg Guarded.peers hg]
  exact ⟨⟨old, hold, hsame⟩, hkey⟩

theorem wp_deleteClient {id : ℕ} (h : Reading env policy t g w) :
    TunnelWp env policy t (fun a w => Written env policy t g (TunnelOp.Changes (.deleteClient id) a)
      (fun _ => True) w) (stmt (.deleteClient id)) w :=
  wp_write (.deleteClient id) (fun _ => True) (fun _ hmutex _ => hmutex)
    (fun _ _ => ⟨_, _, .deleteClient id, trivial⟩) h

/-! ## The methods and the handlers -/

theorem wp_withLock {body : Prog TunnelOp.Ans (Except TunnelErr TunnelResult)}
    (hown : Untouched (w.own t)) (hbody : ∀ g w, Reading env policy t g w →
      Ending env policy t body w) :
    Keeping env policy t (withLock t body) w := by
  refine Mutex.wp_unheld (fun _ => rfl) fun w₁ i _ hown₁ => ?_
  have hlocked : Reading env policy t w₁.store.guarded
    (w₁.step (TunnelStore.exec env) t (.lock t) i) := by
    refine ⟨_, ⟨rfl, rfl, rfl⟩, ?_⟩
    rw [own_step_self, hown₁]
    exact untouched_cons hown fun h => h
  refine wp_bind ((hbody _ _ hlocked).imp fun r w₂ _ hended => ?_)
  obtain ⟨g', own, hheld, hends⟩ := hended
  refine Mutex.wp_held hheld (fun w₃ hheld₃ => ⟨rfl, hheld₃.holder, ?_⟩) fun _ _ _ _ =>
    wp_ret fun _ _ _ => trivial
  rw [show w₃.store.guarded = g' from hheld₃.guarded, hheld₃.own]
  exact hends

variable {nodeID : ℕ}

theorem wp_bootstrapNode {opts : BootstrapOptions} (hsupplied : trimSpace opts.clientPublicKey ≠ [] →
    policy.supplied (trimSpace opts.clientPublicKey)) (hown : Untouched (w.own t)) :
    Keeping env policy t (bootstrapNode t nodeID opts) w := by
  refine wp_withLock hown fun g w h =>
    wp_reads reads_getSettings (fun settings w hsettings h => ?_) h
  subst hsettings
  refine wp_ite (fun _ => wp_fail h _) fun _ => wp_ite (fun _ => wp_fail h _) fun _ => ?_
  refine wp_reads reads_getNode (fun node w hnode h =>
    wp_reads reads_loadPool (fun pool w hpool h => ?_) h) h
  refine wp_ite (fun _ => wp_fail h _) fun _ => ?_
  refine wp_reads (reads_clientKeys hsupplied) (fun keys w hkeys h => ?_) h
  refine wp_reads reads_ensureUniquePeerKey (fun _ w hunique h => ?_) h
  cases hallocate : (releaseOwn pool node).allocate with
  | error e => exact wp_fail h _
  | ok assignedIP =>
    cases hallowed : bootstrapAllowedIPs env.settings opts node with
    | error e => exact wp_fail h _
    | ok allowedIPs =>
      refine wp_reads reads_generatePresharedKey (fun presharedKey w _ h => ?_) h
      have hwrite : NodeWrite env policy g.peers nodeID
          (provisionedNode env.settings node keys.publicKey presharedKey (string4 assignedIP)).columns :=
        Or.inr ⟨_, hnode, free_of_allocate _ hpool hallocate, hkeys, hunique⟩
      refine wp_updateNode hwrite (fun g' own w _ hheld => ?_) h
      exact wp_configured hheld fun _ _ hr => TunnelResult.noConfusion hr

theorem wp_revokeNode (hown : Untouched (w.own t)) :
    Keeping env policy t (revokeNode t nodeID) w := by
  refine wp_withLock hown fun g w h => wp_reads reads_getSettings (fun settings w _ h => ?_) h
  refine wp_reads reads_getNode (fun node w hnode h => wp_updateNode (Or.inl rfl)
    (fun g' own w hg' hheld => ?_) h) h
  refine wp_configured hheld fun id row hr c hc => ?_
  cases hr
  rw [hg', Function.update_self] at hc
  cases hc
  rfl

theorem wp_provisionClient {name description : GoString} {allowedNodeIDs : List ℕ}
    (hown : Untouched (w.own t)) :
    Keeping env policy t (provisionClient t name description allowedNodeIDs) w := by
  refine wp_withLock hown fun g w h =>
    wp_reads reads_getSettings (fun settings w hsettings h => ?_) h
  subst hsettings
  refine wp_ite (fun _ => wp_fail h _) fun _ => wp_reads reads_loadPool (fun pool w hpool h => ?_) h
  cases hallocate : pool.allocate with
  | error e => exact wp_fail h _
  | ok assignedIP =>
    refine wp_reads reads_subnetsForNodes (fun subnets w _ h =>
      wp_reads reads_generateKeyPair (fun keys w hkeys h => ?_) h) h
    refine wp_clientWritten (wp_createClient _ (free_of_allocate none hpool hallocate) hkeys h) (fun _ h => h) trivial
      fun _ _ hr => TunnelResult.noConfusion hr

theorem wp_rotateClient {clientID : ℕ} (hown : Untouched (w.own t)) :
    Keeping env policy t (rotateClient t clientID) w := by
  refine wp_withLock hown fun g w h => wp_reads reads_getSettings (fun settings w _ h => ?_) h
  refine wp_reads reads_getClient (fun client w hclient h =>
    wp_reads reads_generateKeyPair (fun keys w hkeys h => ?_) h) h
  have hsaved := wp_saveClient
    { client with wgPublicKey := keys.publicKey, tunnelStatus := str "provisioned" }
    ⟨_, hclient, rfl⟩ hkeys h
  exact wp_clientWritten hsaved (fun _ h => h) trivial fun _ _ hr => TunnelResult.noConfusion hr

theorem wp_revokeClient {clientID : ℕ} (hown : Untouched (w.own t)) :
    Keeping env policy t (revokeClient t clientID) w :=
  wp_withLock hown fun _ _ h =>
    wp_clientWritten (wp_deleteClient h) (fun _ h => h) trivial fun _ _ hr => TunnelResult.noConfusion hr

theorem wp_applyPeers (hown : Untouched (w.own t)) :
    Keeping env policy t (applyPeers t) w := by
  refine wp_withLock hown fun g w h => ?_
  obtain ⟨own, hheld, -⟩ := h
  refine wp_attempt ((wp_buildPeerState hheld).imp fun r w _ hr => ?_)
  obtain ⟨own', hheld, hbroken, hspecs⟩ := hr
  refine ⟨fun e he => ?_, fun state hstate => ?_⟩
  · exact Mutex.wp_end hheld fun w hheld =>
      ⟨g, own', hheld, Or.inr (Or.inl (hbroken e he)), fun _ _ hr => TunnelResult.noConfusion hr⟩
  · refine wp_bind ((wp_answer .started (fun started => started = g.device.isSome) (fun _ _ => rfl) (fun _ => trivial)
      (fun i s hs _ => congrArg (fun g => g.device.isSome) hs) hheld).imp fun started w _ hw => ?_)
    refine wp_ite (fun _ =>
      wp_bind ((wp_setPeers hw.1 (hspecs state hstate)).imp fun answer w _ happlied => ?_))
      fun hstopped => ?_
    · obtain ⟨device, own'', hheld, hfollows⟩ := happlied
      cases answer with
      | ok _ =>
        exact Mutex.wp_end hheld fun w hheld =>
          ⟨_, own'', hheld, Or.inr hfollows, fun _ _ hr => TunnelResult.noConfusion hr⟩
      | error e =>
        exact Mutex.wp_end hheld fun w hheld =>
          ⟨_, own'', hheld, Or.inr hfollows, fun _ _ hr => TunnelResult.noConfusion hr⟩
    · refine Mutex.wp_end hw.1 fun w hheld => ⟨g, _, hheld, Or.inr (Or.inr fun device hdevice => ?_), fun _ _ hr =>
        TunnelResult.noConfusion hr⟩
      rw [hw.2, hdevice] at hstopped
      exact absurd rfl hstopped

theorem wp_handleUpdateNode [UnicodeTables] {req : UpdateNodeRequest}
    (hupdates : policy.updates) (hown : Untouched (w.own t)) :
    Keeping env policy t (handleUpdateNode t nodeID req) w := by
  refine Mutex.wp_unheld (fun _ => trivial) fun w₁ i _ hown₁ => ?_
  cases w₁.answer (TunnelStore.exec env) (.getNode nodeID) i with
  | error e => exact wp_ret fun _ _ _ => trivial
  | ok item =>
    dsimp only
    cases updatedNode req item with
    | error message => exact wp_ret fun _ _ _ => trivial
    | ok item' =>
      refine Mutex.wp_unheld (fun _ => hupdates) fun w₂ i₂ _ hown₂ => ?_
      have hown' : Untouched ((w₂.step (TunnelStore.exec env) t (.updateNode .handler nodeID item') i₂).own t) := by
        rw [own_step_self, hown₂, own_step_self, hown₁]
        refine untouched_cons ?_ fun h => h
        exact untouched_cons hown fun h => h
      cases w₂.answer (TunnelStore.exec env) (.updateNode .handler nodeID item') i₂ with
      | error e => exact wp_ret fun _ _ _ => trivial
      | ok _ => exact wp_bind ((wp_applyPeers hown').imp fun _ _ _ _ => wp_ret fun _ _ _ => trivial)

theorem wp_handleHeartbeatNode {req : HeartbeatRequest} :
    Keeping env policy t (handleHeartbeatNode nodeID req) w := by
  refine Mutex.wp_unheld (fun _ => trivial) fun w₁ i _ _ => ?_
  cases w₁.answer (TunnelStore.exec env) (.getNode nodeID) i with
  | error e => exact wp_ret fun _ _ _ => trivial
  | ok node =>
    refine wp_ite (fun _ => wp_ite (fun _ => ?_) fun _ => wp_ret fun _ _ _ => trivial)
      fun _ => wp_ite (fun _ => ?_) fun _ => wp_ret fun _ _ _ => trivial
    · refine Mutex.wp_unheld (fun _ => trivial) fun w₂ i₂ _ _ => ?_
      cases w₂.answer (TunnelStore.exec env) (.updateHeartbeat nodeID (heartbeatNode req node)) i₂ with
      | error e => exact wp_ret fun _ _ _ => trivial
      | ok _ => exact wp_ret fun _ _ _ => trivial
    · exact Mutex.wp_unheld (fun _ => trivial) fun _ _ _ _ => wp_ret fun _ _ _ => trivial

def TunnelPolicy.Admits (policy : TunnelPolicy) : TunnelRequest → Prop
  | .updateNode _ _ => policy.updates
  | .bootstrapNode _ opts =>
    trimSpace opts.clientPublicKey ≠ [] → policy.supplied (trimSpace opts.clientPublicKey)
  | _ => True

theorem wp_tunnelCall [UnicodeTables] {request : TunnelRequest} (hadmits : policy.Admits request)
    (hown : w.own t = []) :
    Keeping env policy t ((tunnelSystem env).prog t request) w := by
  have huntouched : Untouched (w.own t) := by
    rw [hown]
    exact List.forall_mem_nil _
  cases request with
  | bootstrapNode nodeID opts => exact wp_bootstrapNode hadmits huntouched
  | revokeNode nodeID => exact wp_revokeNode huntouched
  | provisionClient name description allowedNodeIDs => exact wp_provisionClient huntouched
  | rotateClient clientID => exact wp_rotateClient huntouched
  | revokeClient clientID => exact wp_revokeClient huntouched
  | applyPeers => exact wp_applyPeers huntouched
  | updateNode nodeID req => exact wp_handleUpdateNode hadmits huntouched
  | heartbeat nodeID req => exact wp_handleHeartbeatNode

theorem tunnel_invariant [UnicodeTables] (policy : TunnelPolicy) {admits : TunnelRequest → Prop}
    {given : ℕ → TunnelOp → TunnelChance → World TunnelOp.Ans TunnelStore → Prop}
    (hadmits : ∀ request, admits request → policy.Admits request)
    (hgiven : ∀ t op i w, given t op i w → MutexFree op w.store ∧
      (policy.updates → ColumnsKept op w.store) ∧ KeysGenerated env policy op i w.store)
    {J : World TunnelOp.Ans TunnelStore → Prop}
    (hJ : ∀ t op i w, J w → TunnelPromise env policy t op w → given t op i w →
      J (w.step (TunnelStore.exec env) t op i))
    (hinit : J ⟨s, []⟩) {c : Config TunnelOp.Ans TunnelStore TunnelRequest TunnelResult}
    {events : List (Event TunnelRequest TunnelChance)}
    (hcond : (tunnelSystem env).Along (Allows admits given) (Config.init s) events)
    (hrun : (tunnelSystem env).run (Config.init s) events = some c) : J c.world :=
  Mutex.invariant (tunnelSystem env) (tunnelMutex env policy)
    (fun _ request _ hrequest hown => wp_tunnelCall (hadmits request hrequest) hown) hgiven hJ hinit hcond hrun

def anyRequest : TunnelPolicy := ⟨True, fun _ => True, fun _ _ => True⟩

theorem anyRequest_admits (request : TunnelRequest) : anyRequest.Admits request := by
  cases request with
  | bootstrapNode nodeID opts => exact fun _ => trivial
  | _ => trivial

theorem anyRequest_generated (op : TunnelOp) (i : TunnelChance) (s : TunnelStore) :
    KeysGenerated env anyRequest op i s := by
  cases op with
  | generateKeyPair => exact fun _ _ => trivial
  | _ => trivial

end Calls
end Portlyn.Tunnel
