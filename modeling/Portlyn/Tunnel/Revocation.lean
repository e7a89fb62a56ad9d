import Portlyn.Tunnel.Live

/-! # A revoked key does not come back

After `RevokeNode` has returned, the rows get keys only from calls of the manager, and the device
only those of rows. So the key is gone until the manager stores it again, provided that the handler
of node updates brings no key back, and that at the return no other row held it and the peers had
been applied. A handler that loaded the row before the revocation writes the key into the row again,
and then applies the peers. -/
namespace Portlyn.Tunnel
open Go Lib Lib.Interleave
set_option autoImplicit false

def Denotes (key text : GoString) : Prop := text = key ∨ ∃ k, decodeKey key = some k ∧
    decodeKey text = some k

def TunnelOp.written : TunnelOp → Option PeerColumns
  | .updateNode .manager _ row => some row.columns
  | .createClient row => some row.columns
  | .saveClient _ row => some row.columns
  | _ => none

def Stores (key : GoString) (e : Entry TunnelOp.Ans) : Prop :=
  e.op.Changes e.ans ∧ ∃ c, e.op.written = some c ∧ Denotes key c.publicKey

structure Gone (key : GoString) (s : TunnelStore) : Prop where
  rows : ∀ p c, s.peers p = some c → ¬ Denotes key c.publicKey
  live : ∀ device k, s.device = some device → decodeKey key = some k → k ∉ device.peers

/-- When `RevokeNode` returns, the peers have been applied and no other row holds the key. -/
def Settled (t : ℕ) (op : TunnelOp) (w : World TunnelOp.Ans TunnelStore) : Prop :=
  match op with
  | .unlock _ (.revoked id row) =>
    ¬ Broken (w.own t) ∧ ∀ p c, p ≠ .node id → w.store.peers p = some c → ¬ Denotes row.wgPublicKey c.publicKey
  | _ => True

def RevokedGone (w : World TunnelOp.Ans TunnelStore) : Prop :=
  ∀ later t id row earlier, w.log = later ++ ⟨t, .unlock t (.revoked id row), ()⟩ :: earlier →
    row.wgPublicKey ≠ [] →
    (∀ e ∈ later, ¬ Stores row.wgPublicKey e) → Gone row.wgPublicKey w.store

section Step
variable {env : TunnelEnv} {policy : TunnelPolicy} {t : ℕ} {op : TunnelOp} {i : TunnelChance}
  {w : World TunnelOp.Ans TunnelStore}

variable {c : PeerColumns}

theorem written_of_sets {s : TunnelStore} {p : PeerID} (h : op.Sets s p (some c)) :
    op.written = some c := by
  cases h <;> rfl

theorem peers_written (h : Effect env policy t op i w) {p : PeerID}
    (hc : (TunnelStore.exec env op i w.store).2.peers p = some c) :
    w.store.peers p = some c ∨ op.Changes (TunnelStore.exec env op i w.store).1 ∧ op.written = some c := by
  have hsame : (TunnelStore.exec env op i w.store).2.peers = w.store.peers →
    w.store.peers p = some c := fun hpeers => hpeers ▸ hc
  cases h with
  | kept hmutex hguarded => exact Or.inl (hsame (congrArg Guarded.peers hguarded))
  | locked hop hguarded => exact Or.inl (hsame (congrArg Guarded.peers hguarded))
  | unlocked hop hholder hends hguarded => exact Or.inl (hsame (congrArg Guarded.peers hguarded))
  | @row q new hsets hholder hchanges hmutex hguarded hchange =>
    rw [show (TunnelStore.exec env op i w.store).2.peers = Function.update w.store.peers q new from
      congrArg Guarded.peers hguarded] at hc
    by_cases hp : p = q
    · subst hp
      rw [Function.update_self] at hc
      exact Or.inr ⟨hchanges, written_of_sets (hc ▸ hsets)⟩
    · rw [Function.update_of_ne hp] at hc
      exact Or.inl hc
  | rules hholder hmutex hpeers hlive => exact Or.inl (hsame hpeers)
  | applied hholder hmutex hpeers hfollows => exact Or.inl (hsame hpeers)

theorem live_applied (h : Effect env policy t op i w) {device : Device} {k : GoString}
    (hdevice : (TunnelStore.exec env op i w.store).2.device = some device) (hk : k ∈ device.peers) :
    (∃ device₀, w.store.device = some device₀ ∧ k ∈ device₀.peers) ∨
      ∃ p c, (TunnelStore.exec env op i w.store).2.peers p = some c ∧ c.key = some k := by
  have hsame : (TunnelStore.exec env op i w.store).2.device.map Device.peers =
      w.store.device.map Device.peers →
      ∃ device₀, w.store.device = some device₀ ∧ k ∈ device₀.peers := by
    intro hlive
    rw [hdevice] at hlive
    obtain ⟨device₀, hdevice₀, hpeers⟩ := Option.map_eq_some_iff.mp hlive.symm
    exact ⟨device₀, hdevice₀, hpeers ▸ hk⟩
  cases h with
  | kept hmutex hguarded =>
    exact Or.inl (hsame (congrArg (fun g => g.device.map Device.peers) hguarded))
  | locked hop hguarded =>
    exact Or.inl (hsame (congrArg (fun g => g.device.map Device.peers) hguarded))
  | unlocked hop hholder hends hguarded =>
    exact Or.inl (hsame (congrArg (fun g => g.device.map Device.peers) hguarded))
  | row hsets hholder hchanges hmutex hguarded hchange =>
    exact Or.inl (hsame (congrArg (fun g => g.device.map Device.peers) hguarded))
  | rules hholder hmutex hpeers hlive => exact Or.inl (hsame hlive)
  | applied hholder hmutex hpeers hfollows => exact Or.inr (hfollows device hdevice k hk)

variable {key : GoString}

theorem denotes_of_key {k : GoString} (hkey : decodeKey key = some k) (hc : c.key = some k) :
    Denotes key c.publicKey := Or.inr ⟨k, hkey, hc⟩

theorem not_denotes_nil (h : key ≠ []) : ¬ Denotes key [] := by
  rintro (heq | ⟨k, -, hk⟩)
  · exact h heq.symm
  · cases hk

theorem Gone.step (h : Gone key w.store) (heffect : Effect env policy t op i w)
    (hstores : ¬ Stores key ⟨t, op, w.answer (TunnelStore.exec env) op i⟩) :
    Gone key (TunnelStore.exec env op i w.store).2 := by
  have hrows : ∀ p c, (TunnelStore.exec env op i w.store).2.peers p = some c →
    ¬ Denotes key c.publicKey := by
    intro p c hc hdenotes
    rcases peers_written heffect hc with hold | ⟨hchanges, hwritten⟩
    · exact h.rows p c hold hdenotes
    · exact hstores ⟨hchanges, c, hwritten, hdenotes⟩
  refine ⟨hrows, fun device k hdevice hkey hk => ?_⟩
  rcases live_applied heffect hdevice hk with ⟨device₀, hdevice₀, hk₀⟩ | ⟨p, c, hc, hck⟩
  · exact h.live device₀ k hdevice₀ hkey hk₀
  · exact hrows p c hc (denotes_of_key hkey hck)

theorem gone_of_ends {id : ℕ} {row : NodeRow} {own : List (Entry TunnelOp.Ans)} {s : TunnelStore}
    (hends : Ends (.revoked id row) s.guarded own) (hbroken : ¬ Broken own)
    (hothers : ∀ p c, p ≠ .node id → s.peers p = some c → ¬ Denotes row.wgPublicKey c.publicKey)
    (hkey : row.wgPublicKey ≠ []) : Gone row.wgPublicKey s := by
  have hrows : ∀ p c, s.peers p = some c → ¬ Denotes row.wgPublicKey c.publicKey := by
    intro p c hc
    by_cases hp : p = .node id
    · subst hp
      rw [hends.cleared id row rfl c hc]
      exact not_denotes_nil hkey
    · exact hothers p c hp hc
  refine ⟨hrows, fun device k hdevice hk hlive => ?_⟩
  rcases hends.followed with ⟨-, hr⟩ | hfailed | hfollows
  · exact hr id row rfl
  · exact hbroken hfailed
  · obtain ⟨p, c, hc, hck⟩ := hfollows device hdevice k hlive
    exact hrows p c hc (denotes_of_key hk hck)

theorem RevokedGone.step (h : RevokedGone w) (hpromise : TunnelPromise env policy t op w)
    (hkept : policy.updates → ColumnsKept op w.store) (hsettled : Settled t op w) :
    RevokedGone (w.step (TunnelStore.exec env) t op i) := by
  intro later u id row earlier hlog hkey hstores
  cases later with
  | nil =>
    -- this statement is the return of `RevokeNode`
    obtain ⟨hentry, -⟩ := List.cons.inj hlog
    cases hentry
    have hgone := gone_of_ends hpromise.2.2 hsettled.1 hsettled.2 hkey
    exact ⟨hgone.rows, hgone.live⟩
  | cons e later =>
    obtain ⟨rfl, hrest⟩ := List.cons.inj hlog
    have hgone := h later u id row earlier hrest hkey fun e he => hstores e (List.mem_cons_of_mem _ he)
    exact hgone.step (effect hpromise hkept) (hstores _ List.mem_cons_self)

end Step

/-! ## Runs -/

/-- The mutex is free when a call takes it, the handler of node updates brings no key back, and a
revocation is settled when it returns. -/
def LastingRevocations (t : ℕ) (op : TunnelOp) (i : TunnelChance)
    (w : World TunnelOp.Ans TunnelStore) : Prop :=
  Undisturbed t op i w ∧ Settled t op w

def denotes (key text : GoString) : Bool := text = key || (decodeKey key).any fun k =>
    decodeKey text = some k

theorem denotes_of_Denotes {key text : GoString} (h : Denotes key text) :
    denotes key text = true := by
  rw [denotes, Bool.or_eq_true]
  rcases h with heq | ⟨k, hkey, htext⟩
  · exact Or.inl (decide_eq_true heq)
  · rw [hkey]
    exact Or.inr (decide_eq_true htext)

def settled (t : ℕ) (op : TunnelOp) (w : World TunnelOp.Ans TunnelStore) : Bool :=
  match op with
  | .unlock _ (.revoked id row) =>
    ((w.own t).all fun e => !e.op.fails e.ans) &&
      ((w.store.nodes.rows.all fun n => n.1 = id || !denotes row.wgPublicKey n.2.wgPublicKey) &&
        w.store.clients.rows.all fun c => !denotes row.wgPublicKey c.2.wgPublicKey)
  | _ => true

theorem settled_sound {t : ℕ} {op : TunnelOp} {w : World TunnelOp.Ans TunnelStore}
    (h : settled t op w = true) : Settled t op w := by
  rw [settled.eq_def] at h
  rw [Settled.eq_def]
  split at h
  · rename_i id row
    rw [Bool.and_eq_true, Bool.and_eq_true, List.all_eq_true, List.all_eq_true, List.all_eq_true] at h
    obtain ⟨hworks, hnodes, hclients⟩ := h
    refine ⟨?_, fun p c hp hc hdenotes => ?_⟩
    · rintro ⟨e, he, hfails⟩
      have hentry := hworks e he
      rw [fails_of_Fails hfails] at hentry
      cases hentry
    · have hdenotes := denotes_of_Denotes hdenotes
      cases p with
      | node id' =>
        obtain ⟨row', hrow', rfl⟩ := (listsNodes_rows w.store id' c).mp hc
        have hrow := hnodes _ hrow'
        rw [show denotes row.wgPublicKey row'.wgPublicKey = true from hdenotes, Bool.or_eq_true,
          decide_eq_true_eq] at hrow
        exact hp (congrArg PeerID.node (hrow.resolve_right Bool.false_ne_true))
      | client id' =>
        obtain ⟨row', hrow', rfl⟩ := (listsClients_rows w.store id' c).mp hc
        have hrow := hclients _ hrow'
        rw [show denotes row.wgPublicKey row'.wgPublicKey = true from hdenotes] at hrow
        cases hrow
  · trivial

def revocation (e : Entry TunnelOp.Ans) : Option (ℕ × NodeRow) :=
  match e with
  | ⟨t, .unlock u (.revoked id row), _⟩ => if u = t then some (id, row) else none
  | _ => none

theorem revocation_eq_some {e : Entry TunnelOp.Ans} {id : ℕ} {row : NodeRow}
    (h : revocation e = some (id, row)) : e = ⟨e.call, .unlock e.call (.revoked id row), ()⟩ := by
  rw [revocation.eq_def] at h
  split at h
  · split_ifs at h with heq
    cases h
    rw [heq]
  · cases h

def revokedOnly (id : ℕ) (key : GoString) (log : List (Entry TunnelOp.Ans)) : Bool :=
  (log.any fun e => (revocation e).any fun r => r.1 = id && r.2.wgPublicKey = key) &&
    log.all fun e => e.op.written.all fun c => !denotes key c.publicKey

theorem revokedOnly_sound {id : ℕ} {key : GoString} {log : List (Entry TunnelOp.Ans)}
    (h : revokedOnly id key log = true) :
    ∃ later t row earlier, log = later ++ ⟨t, .unlock t (.revoked id row), ()⟩ :: earlier ∧
      row.wgPublicKey = key ∧
      ∀ e ∈ later, ¬ Stores key e := by
  rw [revokedOnly, Bool.and_eq_true, List.any_eq_true, List.all_eq_true] at h
  obtain ⟨⟨e, he, hrevoked⟩, hwritten⟩ := h
  obtain ⟨⟨id', row⟩, hr, hcheck⟩ := (Option.any_eq_true _ _).mp hrevoked
  rw [Bool.and_eq_true, decide_eq_true_eq, decide_eq_true_eq] at hcheck
  obtain ⟨rfl, rfl⟩ := hcheck
  obtain ⟨later, earlier, rfl⟩ := List.append_of_mem he
  refine ⟨later, e.call, row, earlier, ?_, rfl, ?_⟩
  · rw [← revocation_eq_some hr]
  · rintro e' he' ⟨-, c, hc, hdenotes⟩
    have hcheck := hwritten e' (List.mem_append_left _ he')
    rw [hc, Option.all_some, denotes_of_Denotes hdenotes] at hcheck
    cases hcheck

/-- The first node is revoked, and then its row is updated and the peers are applied. -/
def updatedAfterRevocation : List (Event TunnelRequest TunnelChance) :=
  .start 0 (.revokeNode 1) :: tunnelSteps 0 10 ++ .start 1 (.updateNode 1 noUpdate) ::
    tunnelSteps 1 9

/-- Once `RevokeNode` has returned, the key is not in the row of the node and not live, unless the
manager has stored it since. -/
theorem revocation_lasts [UnicodeTables] {env : TunnelEnv} {s : TunnelStore}
    {events : List (Event TunnelRequest TunnelChance)}
    {c : Config TunnelOp.Ans TunnelStore TunnelRequest TunnelResult}
    (hcond : (tunnelSystem env).Along (Allows (fun _ => True) LastingRevocations)
      (Config.init s) events)
    (hrun : (tunnelSystem env).run (Config.init s) events = some c)
    {later earlier : List (Entry TunnelOp.Ans)} {t id : ℕ} {row : NodeRow}
    (hlog : c.world.log = later ++ ⟨t, .unlock t (.revoked id row), ()⟩ :: earlier)
    (hkey : row.wgPublicKey ≠ []) (hstores : ∀ e ∈ later, ¬ Stores row.wgPublicKey e) :
    (∀ current, c.world.store.nodes.get id = some current → current.wgPublicKey ≠ row.wgPublicKey) ∧
      ∀ device key, c.world.store.device = some device → decodeKey row.wgPublicKey = some key →
        key ∉ device.peers := by
  have hinit : RevokedGone ⟨s, []⟩ := fun later _ _ _ _ hlog =>
    absurd hlog.symm (List.append_ne_nil_of_right_ne_nil later (List.cons_ne_nil _ _))
  have hgone := tunnel_invariant anyRequest (fun request _ => anyRequest_admits request)
    (fun t op i w hgiven => ⟨hgiven.1.1, fun _ => hgiven.1.2, anyRequest_generated op i w.store⟩)
    (fun t op i w hJ hpromise hgiven => hJ.step hpromise (fun _ => hgiven.1.2) hgiven.2) hinit hcond hrun
    later t id row earlier hlog hkey hstores
  refine ⟨fun current hcurrent heq => ?_, hgone.live⟩
  exact hgone.rows (.node id) current.columns (congrArg (Option.map NodeRow.columns) hcurrent)
    (Or.inl heq)

theorem revocation_lasts_updated :
    ∃ c later t row earlier,
      (@tunnelSystem asciiTables sampleTunnel).run (Config.init (twoNodes zeroKey (some firstLive)))
        updatedAfterRevocation = some c ∧
      c.world.log = later ++ ⟨t, .unlock t (.revoked 1 row), ()⟩ :: earlier ∧
        row.wgPublicKey = zeroKey ∧
      (∀ current, c.world.store.nodes.get 1 = some current →
        current.wgPublicKey ≠ row.wgPublicKey) ∧
      ∀ device key, c.world.store.device = some device → decodeKey row.wgPublicKey = some key →
        key ∉ device.peers := by
  have hend : ((@tunnelSystem asciiTables sampleTunnel).run
      (Config.init (twoNodes zeroKey (some firstLive))) updatedAfterRevocation).map
      (fun c => revokedOnly 1 zeroKey c.world.log) = some true := by decide +kernel
  obtain ⟨c, hrun, hlog⟩ := Option.map_eq_some_iff.mp hend
  obtain ⟨later, t, row, earlier, hlog, hkey, hstores⟩ := revokedOnly_sound hlog
  have hcond : (@tunnelSystem asciiTables sampleTunnel).Along
      (Allows (fun _ => True) LastingRevocations)
      (Config.init (twoNodes zeroKey (some firstLive))) updatedAfterRevocation := by
    refine along_of_allowed (fun _ => true)
      (fun t op _ w => (mutexFree op w.store && columnsKept op w.store) && settled t op w)
      (fun _ _ => trivial) (fun t op i w h => ?_) (by decide +kernel)
    rw [Bool.and_eq_true] at h
    exact ⟨undisturbed_sound h.1, settled_sound h.2⟩
  have hnonblank : row.wgPublicKey ≠ [] := by
    rw [hkey]
    exact List.cons_ne_nil _ _
  rw [← hkey] at hstores
  exact ⟨c, later, t, row, earlier, hrun, hlog, hkey,
    @revocation_lasts asciiTables _ _ _ _ hcond hrun _ _ _ _ _ hlog hnonblank hstores⟩

def loadedBeforeRevocation : List (Event TunnelRequest TunnelChance) :=
  .start 0 (.updateNode 1 noUpdate) :: tunnelSteps 0 1 ++
    .start 1 (.revokeNode 1) :: tunnelSteps 1 10 ++ tunnelSteps 0 8

/-- The request brings the key back into the row and to the device after `RevokeNode` has returned.
-/
theorem revoked_key_brought_back :
    (@tunnelSystem asciiTables sampleTunnel).Along (Allows (fun _ => True) fun t op _ w =>
        MutexFree op w.store ∧ Settled t op w)
        (Config.init (twoNodes zeroKey (some firstLive))) loadedBeforeRevocation ∧
      ∃ c later t row earlier,
        (@tunnelSystem asciiTables sampleTunnel).run
          (Config.init (twoNodes zeroKey (some firstLive))) loadedBeforeRevocation = some c ∧
        c.world.log = later ++ ⟨t, .unlock t (.revoked 1 row), ()⟩ :: earlier ∧
          row.wgPublicKey = zeroKey ∧
        (∀ e ∈ later, ¬ Stores zeroKey e) ∧ (c.world.store.nodes.get 1).map NodeRow.wgPublicKey =
          some zeroKey ∧
        decodeKey zeroKey = some (List.replicate 32 0) ∧ c.world.store.device.map Device.peers =
          some [List.replicate 32 0] := by
  have hend : ((@tunnelSystem asciiTables sampleTunnel).run
      (Config.init (twoNodes zeroKey (some firstLive))) loadedBeforeRevocation).map
      (fun c => (revokedOnly 1 zeroKey c.world.log, (c.world.store.nodes.get 1).map NodeRow.wgPublicKey,
        c.world.store.device.map Device.peers)) =
        some (true, some zeroKey, some [List.replicate 32 0]) := by decide +kernel
  obtain ⟨c, hrun, hstate⟩ := Option.map_eq_some_iff.mp hend
  obtain ⟨hlog, hstate⟩ := Prod.mk.inj hstate
  obtain ⟨hrow, hlive⟩ := Prod.mk.inj hstate
  obtain ⟨later, t, row, earlier, hlog, hkey, hstores⟩ := revokedOnly_sound hlog
  refine ⟨?_, c, later, t, row, earlier, hrun, hlog, hkey, hstores, hrow, by decide +kernel, hlive⟩
  refine along_of_allowed (fun _ => true) (fun t op _ w => mutexFree op w.store && settled t op w)
    (fun _ _ => trivial) (fun t op i w h => ?_) (by decide +kernel)
  rw [Bool.and_eq_true] at h
  exact ⟨mutexFree_sound h.1, settled_sound h.2⟩

end Portlyn.Tunnel
