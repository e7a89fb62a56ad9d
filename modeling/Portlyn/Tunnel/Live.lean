import Portlyn.Tunnel.Keys

/-! # The device follows the rows

When no call of the manager is under way, every live peer has the key of a row, if in no call a read
of the peers, the writing of the file or the decoding of a key has failed. A failure in the device
itself does no harm, since the first thing that the device does with new peers is to remove all old
ones. But a call whose row is written gives up at the file, and at the first key that cannot be
decoded, with the old peers still live. -/
namespace Portlyn.Tunnel
open Go Lib Lib.Interleave
set_option autoImplicit false

def managerCalls : TunnelPolicy := ⟨False, fun _ => True, fun _ _ => True⟩

def managerCall : TunnelRequest → Bool
  | .updateNode _ _ => false
  | _ => true

theorem managerCall_sound {request : TunnelRequest} (h : managerCall request = true) :
    managerCalls.Admits request := by
  cases request with
  | updateNode nodeID req => cases h
  | bootstrapNode nodeID opts => exact fun _ => trivial
  | _ => trivial

theorem managerCalls_generated {env : TunnelEnv} (op : TunnelOp) (i : TunnelChance)
    (s : TunnelStore) : KeysGenerated env managerCalls op i s := by
  cases op with
  | generateKeyPair => exact fun _ _ => trivial
  | _ => trivial

/-- The mutex is free when a call takes it, and no call gives it back after one of its reads of the
peers, the writing of the file or the decoding of a key has failed. -/
def Unbroken (t : ℕ) (op : TunnelOp) (_i : TunnelChance) (w : World TunnelOp.Ans TunnelStore) :
    Prop :=
  match op with
  | .lock _ => w.store.mutex = none
  | .unlock _ _ => ¬ Broken (w.own t)
  | _ => True

theorem Unbroken.free {t : ℕ} {op : TunnelOp} {i : TunnelChance}
    {w : World TunnelOp.Ans TunnelStore} (h : Unbroken t op i w) : MutexFree op w.store := by
  cases op with
  | lock u => exact h
  | _ => trivial

def FollowsOrPending (w : World TunnelOp.Ans TunnelStore) : Prop :=
  Follows w.store.guarded ∨ ∃ u, w.store.mutex = some u ∧ ¬ Untouched (w.own u)

section Step
variable {env : TunnelEnv} {policy : TunnelPolicy} {t : ℕ} {op : TunnelOp} {i : TunnelChance}
  {w : World TunnelOp.Ans TunnelStore}

theorem untouched_of_step {u : ℕ} (h : Untouched ((w.step (TunnelStore.exec env) t op i).own u)) :
    Untouched (w.own u) := by
  by_cases hu : u = t
  · subst hu
    rw [own_step_self] at h
    exact fun e he => h e (List.mem_cons_of_mem _ he)
  · rwa [own_step_of_ne _ _ _ _ hu] at h

theorem FollowsOrPending.kept (h : FollowsOrPending w)
    (hmutex : (TunnelStore.exec env op i w.store).2.mutex = w.store.mutex)
    (hfollows : Follows w.store.guarded → Follows (TunnelStore.exec env op i w.store).2.guarded) :
    FollowsOrPending (w.step (TunnelStore.exec env) t op i) := by
  rcases h with h | ⟨u, hu, hown⟩
  · exact Or.inl (hfollows h)
  · exact Or.inr ⟨u, hmutex.trans hu, fun huntouched => hown (untouched_of_step huntouched)⟩

theorem Follows.of_live {s s' : TunnelStore} (h : Follows s.guarded) (hpeers : s'.peers = s.peers)
    (hlive : s'.device.map Device.peers = s.device.map Device.peers) : Follows s'.guarded := by
  intro device hdevice key hkey
  have hsome : s.device.map Device.peers = some device.peers := by
    rw [← hlive, show s'.device = some device from hdevice]
    rfl
  obtain ⟨device₀, hdevice₀, hsame⟩ := Option.map_eq_some_iff.mp hsome
  dsimp only [TunnelStore.guarded]
  rw [hpeers]
  exact h device₀ hdevice₀ key (hsame ▸ hkey)

theorem FollowsOrPending.step (h : FollowsOrPending w) (heffect : Effect env policy t op i w)
    (hgiven : Unbroken t op i w) : FollowsOrPending (w.step (TunnelStore.exec env) t op i) := by
  cases heffect with
  | kept hmutex hguarded => exact h.kept hmutex fun hfollows => by rwa [hguarded]
  | locked hop hguarded =>
    subst hop
    -- nobody holds the mutex, so no change is pending
    rcases h with h | ⟨u', hu', -⟩
    · exact Or.inl h
    · exact absurd (hu'.symm.trans hgiven) (Option.some_ne_none _)
  | unlocked hop hholder hends hguarded =>
    subst hop
    rcases h with h | ⟨u', hu', hown⟩
    · exact Or.inl h
    · cases Option.some.inj (hu'.symm.trans hholder)
      rcases hends.followed with ⟨huntouched, -⟩ | hbroken | hfollows
      · exact absurd huntouched hown
      · exact absurd hbroken hgiven
      · exact Or.inl hfollows
  | row hsets hholder hchanges hmutex hguarded hchange =>
    refine Or.inr ⟨t, hmutex.trans hholder, fun huntouched => ?_⟩
    rw [own_step_self] at huntouched
    exact huntouched _ List.mem_cons_self hchanges
  | rules hholder hmutex hpeers hlive =>
    exact h.kept hmutex fun hfollows => hfollows.of_live hpeers hlive
  | applied hholder hmutex hpeers hfollows => exact Or.inl hfollows

end Step

/-! ## Runs -/

def follows (s : TunnelStore) : Bool :=
  s.device.all fun device => device.peers.all fun key =>
    (s.nodes.rows.any fun n => n.2.columns.key = some key) || s.clients.rows.any fun c => c.2.columns.key = some key

theorem holdsKey_iff (s : TunnelStore) (key : GoString) :
    ((s.nodes.rows.any fun n => n.2.columns.key = some key) || s.clients.rows.any fun c =>
      c.2.columns.key = some key) = true ↔
      ∃ p c, s.peers p = some c ∧ c.key = some key := by
  rw [Bool.or_eq_true, List.any_eq_true, List.any_eq_true]
  constructor
  · rintro (⟨⟨id, row⟩, hrow, hkey⟩ | ⟨⟨id, row⟩, hrow, hkey⟩)
    · exact ⟨.node id, _, (listsNodes_rows s id _).mpr ⟨row, hrow, rfl⟩, of_decide_eq_true hkey⟩
    · exact ⟨.client id, _, (listsClients_rows s id _).mpr ⟨row, hrow, rfl⟩, of_decide_eq_true hkey⟩
  · rintro ⟨p, c, hc, hkey⟩
    cases p with
    | node id =>
      obtain ⟨row, hrow, rfl⟩ := (listsNodes_rows s id c).mp hc
      exact Or.inl ⟨_, hrow, decide_eq_true hkey⟩
    | client id =>
      obtain ⟨row, hrow, rfl⟩ := (listsClients_rows s id c).mp hc
      exact Or.inr ⟨_, hrow, decide_eq_true hkey⟩

theorem follows_iff (s : TunnelStore) : follows s = true ↔ Follows s.guarded := by
  constructor
  · intro h device hdevice key hkey
    rw [follows, show s.device = some device from hdevice, Option.all_some, List.all_eq_true] at h
    exact (holdsKey_iff s key).mp (h key hkey)
  · intro h
    rw [follows]
    cases hdevice : s.device with
    | none => rfl
    | some device =>
      rw [Option.all_some, List.all_eq_true]
      exact fun key hkey => (holdsKey_iff s key).mpr (h device hdevice key hkey)

def TunnelOp.fails : (op : TunnelOp) → op.Ans → Bool
  | .listNodes, .error _ => true
  | .listClients, .error _ => true
  | .writeConfig, .error _ => true
  | .applyPeerSpecs _, .error .decodeKey => true
  | _, _ => false

theorem fails_of_Fails {op : TunnelOp} {ans : op.Ans} (h : op.Fails ans) : op.fails ans = true := by
  rw [TunnelOp.Fails.eq_def] at h
  split at h
  · rfl
  · rfl
  · rfl
  · rfl
  · exact h.elim

def unbroken (t : ℕ) (op : TunnelOp) (w : World TunnelOp.Ans TunnelStore) : Bool :=
  match op with
  | .lock _ => w.store.mutex.isNone
  | .unlock _ _ => (w.own t).all fun e => !e.op.fails e.ans
  | _ => true

theorem unbroken_sound {t : ℕ} {op : TunnelOp} {i : TunnelChance}
    {w : World TunnelOp.Ans TunnelStore} (h : unbroken t op w = true) : Unbroken t op i w := by
  cases op with
  | lock u => exact Option.isNone_iff_eq_none.mp h
  | unlock u r =>
    rintro ⟨e, he, hfails⟩
    have hworks := List.all_eq_true.mp h e he
    rw [fails_of_Fails hfails] at hworks
    cases hworks
  | _ => trivial

def filedTunnel : TunnelEnv :=
  { sampleTunnel with settings := { sampleTunnel.settings with tunnelConfigPath := [0x70] } }

def firstLive : Device := ⟨[List.replicate 32 0], []⟩

def revokedThenBootstrapped : List (Event TunnelRequest TunnelChance) :=
  .start 0 (.revokeNode 1) :: tunnelSteps 0 12 ++ .start 1 (.bootstrapNode 2 generatesKey) ::
    tunnelSteps 1 18

/-- If no call of the manager fails at the rows, at the file or at a key, every live peer has the
key of a row whenever no call is under way. -/
theorem live_peers_follow_rows [UnicodeTables] {env : TunnelEnv} {s : TunnelStore}
    (hs : Follows s.guarded) {events : List (Event TunnelRequest TunnelChance)}
    {c : Config TunnelOp.Ans TunnelStore TunnelRequest TunnelResult}
    (hcond : (tunnelSystem env).Along (Allows managerCalls.Admits Unbroken) (Config.init s) events)
    (hrun : (tunnelSystem env).run (Config.init s) events = some c)
    (hidle : c.world.store.mutex = none) : Follows c.world.store.guarded := by
  have hpending := tunnel_invariant managerCalls (J := FollowsOrPending) (fun _ h => h)
    (fun t op i w hgiven => ⟨hgiven.free, fun h => h.elim, managerCalls_generated op i w.store⟩)
    (fun t op i w hJ hpromise hgiven => hJ.step (effect hpromise fun h => h.elim) hgiven) (Or.inl hs) hcond hrun
  rcases hpending with hfollows | ⟨u, hu, -⟩
  · exact hfollows
  · exact absurd (hu.symm.trans hidle) (Option.some_ne_none _)

theorem live_peers_follow_rows_revoked :
    ∃ c, (@tunnelSystem asciiTables filedTunnel).run
      (Config.init (twoNodes zeroKey (some firstLive))) revokedThenBootstrapped = some c ∧
      c.world.store.mutex = none ∧ (c.world.store.device.map Device.peers) =
        some [clampKey (List.replicate 32 1)] ∧
      Follows c.world.store.guarded := by
  have hend : ((@tunnelSystem asciiTables filedTunnel).run
      (Config.init (twoNodes zeroKey (some firstLive))) revokedThenBootstrapped).map
      (fun c => (c.world.store.mutex, c.world.store.device.map Device.peers)) =
        some (none, some [clampKey (List.replicate 32 1)]) := by decide +kernel
  obtain ⟨c, hrun, hstate⟩ := Option.map_eq_some_iff.mp hend
  obtain ⟨hidle, hpeers⟩ := Prod.mk.inj hstate
  have hcond : (@tunnelSystem asciiTables filedTunnel).Along (Allows managerCalls.Admits Unbroken)
      (Config.init (twoNodes zeroKey (some firstLive))) revokedThenBootstrapped :=
    along_of_allowed managerCall (fun t op _ w => unbroken t op w) (fun _ h => managerCall_sound h)
      (fun _ _ _ _ h => unbroken_sound h) (by decide +kernel)
  exact ⟨c, hrun, hidle, hpeers,
    @live_peers_follow_rows asciiTables _ _ ((follows_iff _).mp (by decide +kernel)) _ _
    hcond hrun hidle⟩

/-- A run of calls of the manager after which the first node has no key any more, and a key is live
that no row holds. -/
def LeftLive (env : TunnelEnv) (s : TunnelStore)
    (events : List (Event TunnelRequest TunnelChance)) : Prop :=
  Follows s.guarded ∧
    (@tunnelSystem asciiTables env).Along (Allows managerCalls.Admits fun _ op _ w =>
      MutexFree op w.store) (Config.init s) events ∧
    ∃ c, (@tunnelSystem asciiTables env).run (Config.init s) events = some c ∧
    c.world.store.mutex = none ∧
      (c.world.store.peers (.node 1)).map PeerColumns.publicKey = some [] ∧ ¬ Follows c.world.store.guarded

theorem leftLive_of_run {env : TunnelEnv} {s : TunnelStore}
    {events : List (Event TunnelRequest TunnelChance)} (hs : follows s = true)
    (hcond : (@tunnelSystem asciiTables env).checks (allowed managerCall fun _ op _ w =>
      mutexFree op w.store) (Config.init s) events = true)
    (hend : ((@tunnelSystem asciiTables env).run (Config.init s) events).map (fun c =>
      (c.world.store.mutex, (c.world.store.peers (.node 1)).map PeerColumns.publicKey,
      follows c.world.store)) = some (none, some [], false)) :
    LeftLive env s events := by
  obtain ⟨c, hrun, hstate⟩ := Option.map_eq_some_iff.mp hend
  obtain ⟨hidle, hstate⟩ := Prod.mk.inj hstate
  obtain ⟨hkey, hfollows⟩ := Prod.mk.inj hstate
  refine ⟨(follows_iff s).mp hs, ?_, c, hrun, hidle, hkey, fun h => ?_⟩
  · exact along_of_allowed managerCall (fun _ op _ w => mutexFree op w.store) (fun _ h => managerCall_sound h)
      (fun _ _ _ _ h => mutexFree_sound h) hcond
  · rw [(follows_iff _).mpr h] at hfollows
    cases hfollows

def invalidSecond : TunnelStore where
  nodes := (Table.empty.insert (sampleNode zeroKey firstAddress)).insert (sampleNode [0x61]
    [0x31, 0x30, 0x2E, 0x30, 0x2E, 0x30, 0x2E, 0x33])
  clients := Table.empty
  mutex := none
  device := some firstLive

/-- The first node is revoked while the file cannot be written, and while the second node has a key
that cannot be decoded. Both times its key stays live. -/
theorem revoked_key_left_live :
    LeftLive filedTunnel (twoNodes zeroKey (some firstLive))
        (.start 0 (.revokeNode 1) :: tunnelSteps 0 5 ++ [.step 0 ⟨false, [], 0⟩, .step 0 (works 1)]) ∧
      LeftLive sampleTunnel invalidSecond (.start 0 (.revokeNode 1) :: tunnelSteps 0 10) := by
  constructor
  · exact leftLive_of_run (by decide +kernel) (by decide +kernel) (by decide +kernel)
  · exact leftLive_of_run (by decide +kernel) (by decide +kernel) (by decide +kernel)

end Portlyn.Tunnel
