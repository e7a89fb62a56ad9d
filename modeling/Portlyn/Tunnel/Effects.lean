import Portlyn.Tunnel.Guard

/-! # What a statement on the tunnel can do

A statement that keeps its promise takes the mutex or gives it back, sets or removes one row, sets
the rules or the peers of the device, or leaves the mutex and what it guards alone. This is proved
here once, and what the runs keep is drawn from it. -/
namespace Portlyn.Tunnel
open Go Lib Lib.Interleave
set_option autoImplicit false

/-! ## Statements on rows -/

theorem changeNode_if_kept (s : TunnelStore) (id : ℕ) {f : NodeRow → NodeRow}
    (h : ∀ row, s.nodes.get id = some row → (f row).columns = row.columns) (ok : Bool)
    (e : TunnelErr) :
    (if ok then s.changeNode id f else (.error e, s)).2.mutex = s.mutex ∧
      (if ok then s.changeNode id f else (.error e, s)).2.guarded = s.guarded := by
  cases ok with
  | false => exact ⟨rfl, rfl⟩
  | true => exact ⟨changeNode_mutex s id f, changeNode_kept s id h⟩

section Rows
variable {env : TunnelEnv} {i : TunnelChance}

theorem peers_insert (s : TunnelStore) (row : ClientRow) :
    ({ s with clients := s.clients.insert row } : TunnelStore).peers =
      Function.update s.peers (.client s.clients.nextID) (some row.columns) :=
  congrArg Guarded.peers (peers_setClient s s.clients.nextID (Table.get_insert_self s.clients row)
    fun _ h => Table.get_insert_of_ne s.clients row h)

theorem peers_client_zero (s : TunnelStore) : s.peers (.client 0) = none := by
  cases hget : s.clients.get 0 with
  | none => exact congrArg (Option.map ClientRow.columns) hget
  | some row => exact absurd (Table.get_lt hget).1 (Nat.lt_irrefl 0)

theorem peers_saveClient (s : TunnelStore) {id : ℕ} (row : ClientRow) {c : PeerColumns}
    (hc : s.peers (.client id) = some c) :
    (s.saveClient id row).peers = Function.update s.peers (.client id) (some row.columns) := by
  have hid : 0 < id := by
    refine Nat.pos_of_ne_zero fun hzero => ?_
    rw [hzero, peers_client_zero] at hc
    cases hc
  rw [TunnelStore.saveClient, dif_pos hid]
  exact congrArg Guarded.peers (peers_setClient s id (Table.get_put_self s.clients row hid)
    fun _ h => Table.get_put_of_ne s.clients row hid h)

theorem peers_delete (s : TunnelStore) (id : ℕ) :
    ({ s with clients := s.clients.delete id } : TunnelStore).peers = Function.update s.peers (.client id) none :=
  congrArg Guarded.peers (peers_setClient s id (Table.get_delete_self s.clients id)
    fun _ h => Table.get_delete_of_ne s.clients h)

theorem peers_applyPeerSpecs (specs : List PeerSpec) (s : TunnelStore) :
    (TunnelStore.exec env (.applyPeerSpecs specs) i s).2.peers = s.peers := by
  dsimp only [TunnelStore.exec]
  split <;> rfl

inductive TunnelOp.Sets (s : TunnelStore) : TunnelOp → PeerID → Option PeerColumns → Prop
  | updateNode (id : ℕ) (row : NodeRow) : Sets s (.updateNode .manager id row) (.node id) (some row.columns)
  | createClient (row : ClientRow) : Sets s (.createClient row) (.client s.clients.nextID) (some row.columns)
  | saveClient {id : ℕ} (row : ClientRow) {c : PeerColumns} (hc : s.peers (.client id) = some c) :
    Sets s (.saveClient id row) (.client id) (some row.columns)
  | deleteClient (id : ℕ) : Sets s (.deleteClient id) (.client id) none

theorem exec_sets {s : TunnelStore} {op : TunnelOp} {p : PeerID} {new : Option PeerColumns}
    (h : op.Sets s p new) :
    ¬ op.Changes (TunnelStore.exec env op i s).1 ∧ (TunnelStore.exec env op i s).2 = s ∨
      op.Changes (TunnelStore.exec env op i s).1 ∧ (TunnelStore.exec env op i s).2.mutex = s.mutex ∧
        (TunnelStore.exec env op i s).2.guarded = ⟨Function.update s.peers p new, s.device⟩ := by
  cases h with
  | updateNode id row =>
    dsimp only [TunnelStore.exec]
    cases i.ok with
    | false => exact Or.inl ⟨fun h => h, rfl⟩
    | true =>
      rw [if_pos rfl]
      rcases changeNode_cases s id fun _ => row with ⟨hok, hget⟩ | ⟨⟨e, he⟩, hstore⟩
      · obtain ⟨current, hcurrent⟩ := Option.ne_none_iff_exists'.mp hget
        rw [hok, changeNode_guarded, hcurrent]
        exact Or.inr ⟨trivial, changeNode_mutex s id _, rfl⟩
      · rw [he]
        exact Or.inl ⟨fun h => h, hstore⟩
  | createClient row =>
    dsimp only [TunnelStore.exec]
    cases i.ok with
    | false => exact Or.inl ⟨fun h => h, rfl⟩
    | true => exact Or.inr ⟨trivial, rfl, congrArg (Guarded.mk · s.device) (peers_insert s row)⟩
  | @saveClient id row c hc =>
    have hpeers := peers_saveClient s row hc
    dsimp only [TunnelStore.exec]
    cases i.ok with
    | false => exact Or.inl ⟨fun h => h, rfl⟩
    | true =>
      rw [if_pos rfl, ← hpeers, TunnelStore.saveClient]
      refine Or.inr ⟨trivial, ?_, ?_⟩
      · split_ifs <;> rfl
      · split_ifs <;> rfl
  | deleteClient id =>
    dsimp only [TunnelStore.exec]
    cases i.ok with
    | false => exact Or.inl ⟨fun h => h, rfl⟩
    | true =>
      cases s.clients.get id with
      | none => exact Or.inl ⟨fun h => h, rfl⟩
      | some row => exact Or.inr ⟨trivial, rfl, congrArg (Guarded.mk · s.device) (peers_delete s id)⟩

end Rows

/-! ## The device -/

variable {specs : List PeerSpec} {lines : List PeerLines}

theorem mem_peerLines (h : peerLines specs = some lines) :
    ∀ line ∈ lines, ∃ spec ∈ specs, decodeKey (trimSpace spec.publicKey) = some line.key := by
  induction specs generalizing lines with
  | nil =>
    cases h
    exact List.forall_mem_nil _
  | cons spec specs ih =>
    rw [peerLines] at h
    split_ifs at h with hskip hpsk
    · intro line hline
      obtain ⟨spec', hmem, hkey⟩ := ih h line hline
      exact ⟨spec', List.mem_cons_of_mem _ hmem, hkey⟩
    · obtain ⟨key, -, h⟩ := Option.bind_eq_some_iff.mp h
      cases h
    · obtain ⟨key, hkey, h⟩ := Option.bind_eq_some_iff.mp h
      obtain ⟨rest, hrest, h⟩ := Option.bind_eq_some_iff.mp h
      cases h
      intro line hline
      rcases List.mem_cons.mp hline with rfl | hline
      · exact ⟨spec, List.mem_cons_self, hkey⟩
      · obtain ⟨spec', hmem, hkey'⟩ := ih hrest line hline
        exact ⟨spec', List.mem_cons_of_mem _ hmem, hkey'⟩

variable {env : TunnelEnv} {device : Device} {left : ℕ}

theorem applyPeerSpecs_eq (h : peerLines specs = some lines) :
    (applyPeerSpecs env left specs device).2.peers = (env.ipcSet left lines device.peers).1 := by
  rw [applyPeerSpecs, h]
  dsimp only
  split
  · rename_i peers hset
    rw [hset]
  · rename_i peers hset
    rw [hset]

theorem applyPeerSpecs_peers (h : (applyPeerSpecs env left specs device).1 ≠ .error .decodeKey) :
    ∀ key ∈ (applyPeerSpecs env left specs device).2.peers,
      ∃ spec ∈ specs, decodeKey (trimSpace spec.publicKey) = some key := by
  intro key hkey
  cases hlines : peerLines specs with
  | none =>
    rw [applyPeerSpecs, hlines] at h
    exact absurd rfl h
  | some lines =>
    rw [applyPeerSpecs_eq hlines] at hkey
    obtain ⟨line, hline, rfl⟩ := env.ipcSet_peers hkey
    exact mem_peerLines hlines line hline

section Applying
variable {env : TunnelEnv} {i : TunnelChance}

variable (env) in
theorem exec_applyPeerSpecs_kept (specs : List PeerSpec) (i : TunnelChance) (s : TunnelStore) :
    (TunnelStore.exec env (.applyPeerSpecs specs) i s).2.mutex = s.mutex ∧
      (TunnelStore.exec env (.applyPeerSpecs specs) i s).2.peers = s.peers := by
  refine ⟨?_, peers_applyPeerSpecs specs s⟩
  dsimp only [TunnelStore.exec]
  split <;> rfl

theorem follows_applyPeerSpecs {s : TunnelStore} {specs : List PeerSpec} {i : TunnelChance}
    (hspecs : SpecsOf s.peers specs)
    (h : (TunnelStore.exec env (.applyPeerSpecs specs) i s).1 ≠ .error .decodeKey) :
    Follows (TunnelStore.exec env (.applyPeerSpecs specs) i s).2.guarded := by
  intro device hdevice key hkey
  dsimp only [TunnelStore.exec] at h hdevice ⊢
  cases hd : s.device with
  | none =>
    rw [hd] at hdevice
    dsimp only [TunnelStore.guarded] at hdevice
    rw [hd] at hdevice
    cases hdevice
  | some device₀ =>
    rw [hd] at h hdevice
    cases hdevice
    obtain ⟨spec, hspec, hdecode⟩ := applyPeerSpecs_peers h key hkey
    obtain ⟨p, c, hc, hpub⟩ := hspecs spec hspec
    refine ⟨p, c, hc, ?_⟩
    rw [hpub, trimSpace_trimSpace, decodeKey, trimSpace_trimSpace] at hdecode
    exact hdecode

theorem applyPeerSpecs_decodeKey {specs : List PeerSpec} {s : TunnelStore}
    (h : (TunnelStore.exec env (.applyPeerSpecs specs) i s).1 = .error .decodeKey) :
    (TunnelStore.exec env (.applyPeerSpecs specs) i s).2 = s := by
  dsimp only [TunnelStore.exec] at h ⊢
  cases hdevice : s.device with
  | none => rfl
  | some device =>
    rw [hdevice] at h
    dsimp only [applyPeerSpecs] at h ⊢
    cases hlines : peerLines specs with
    | none =>
      rw [← hdevice]
    | some lines =>
      rw [hlines] at h
      dsimp only at h
      split at h
      · cases h
      · cases h

end Applying

/-! ## All statements -/

section Effects
variable (env : TunnelEnv) (policy : TunnelPolicy) (t : ℕ) (op : TunnelOp) (i : TunnelChance)
  (w : World TunnelOp.Ans TunnelStore)

inductive Effect : Prop
  | kept (hmutex : (TunnelStore.exec env op i w.store).2.mutex = w.store.mutex)
    (hguarded : (TunnelStore.exec env op i w.store).2.guarded = w.store.guarded)
  | locked {u : ℕ} (hop : op = .lock u) (hguarded : (TunnelStore.exec env op i w.store).2.guarded = w.store.guarded)
  | unlocked {r : TunnelResult} (hop : op = .unlock t r) (hholder : w.store.mutex = some t)
    (hends : Ends r w.store.guarded (w.own t))
      (hguarded : (TunnelStore.exec env op i w.store).2.guarded = w.store.guarded)
  | row {p : PeerID} {new : Option PeerColumns} (hsets : op.Sets w.store p new) (hholder : w.store.mutex = some t)
    (hchanges : op.Changes (TunnelStore.exec env op i w.store).1)
    (hmutex : (TunnelStore.exec env op i w.store).2.mutex = w.store.mutex)
    (hguarded : (TunnelStore.exec env op i w.store).2.guarded = ⟨Function.update w.store.peers p new, w.store.device⟩)
    (hchange : PeerChange env policy w.store.peers (Function.update w.store.peers p new))
  -- the rules are set, or the setting of the peers gives up at a key before the device hears of it
  | rules (hholder : w.store.mutex = some t) (hmutex : (TunnelStore.exec env op i w.store).2.mutex = w.store.mutex)
    (hpeers : (TunnelStore.exec env op i w.store).2.peers = w.store.peers)
    (hlive : (TunnelStore.exec env op i w.store).2.device.map Device.peers = w.store.device.map Device.peers)
  | applied (hholder : w.store.mutex = some t) (hmutex : (TunnelStore.exec env op i w.store).2.mutex = w.store.mutex)
    (hpeers : (TunnelStore.exec env op i w.store).2.peers = w.store.peers)
    (hfollows : Follows (TunnelStore.exec env op i w.store).2.guarded)

variable {env policy t op i w}

theorem effect_kept (h : (TunnelStore.exec env op i w.store).2.mutex = w.store.mutex ∧
    (TunnelStore.exec env op i w.store).2.guarded = w.store.guarded) : Effect env policy t op i w :=
  .kept h.1 h.2

theorem effect_sets {p : PeerID} {new : Option PeerColumns} (hsets : op.Sets w.store p new)
    (hholder : w.store.mutex = some t)
    (hchange : PeerChange env policy w.store.peers (Function.update w.store.peers p new)) :
    Effect env policy t op i w := by
  rcases exec_sets hsets with ⟨-, hstore⟩ | ⟨hchanges, hmutex, hguarded⟩
  · exact .kept (congrArg _ hstore) (congrArg _ hstore)
  · exact .row hsets hholder hchanges hmutex hguarded hchange

theorem effect (hpromise : TunnelPromise env policy t op w)
    (hkept : policy.updates → ColumnsKept op w.store) : Effect env policy t op i w := by
  cases op with
  | lock u => exact .locked rfl rfl
  | unlock u r =>
    obtain ⟨rfl, hholder, hends⟩ := hpromise
    exact .unlocked rfl hholder hends rfl
  | updateNode writer id row =>
    cases writer with
    | manager => exact effect_sets (.updateNode id row) hpromise.1 (.node hpromise.2)
    | handler => exact effect_kept (changeNode_if_kept w.store id (hkept hpromise) i.ok .store)
  | updateHeartbeat id row =>
    exact effect_kept (changeNode_if_kept w.store id (f := TunnelStore.heartbeatColumns row)
      (fun _ _ => rfl) i.ok .store)
  | recordHeartbeatFailure id ip failedAt =>
    exact effect_kept (changeNode_if_kept w.store id (f := TunnelStore.failureColumns ip failedAt)
      (fun _ _ => rfl) i.ok .store)
  | createClient row =>
    have hnone : w.store.peers (.client w.store.clients.nextID) = none :=
      congrArg (Option.map ClientRow.columns) (Table.get_nextID w.store.clients)
    exact effect_sets (.createClient row) hpromise.1 (.created hnone hpromise.2.1 hpromise.2.2)
  | saveClient id row =>
    obtain ⟨hholder, ⟨c, hc, hip⟩, hkey⟩ := hpromise
    exact effect_sets (.saveClient row hc) hholder (.rotated hc hip hkey)
  | deleteClient id => exact effect_sets (.deleteClient id) hpromise .removed
  | setForwardRules rules =>
    refine .rules hpromise rfl rfl ?_
    dsimp only [TunnelStore.exec]
    rw [Option.map_map]
    rfl
  | applyPeerSpecs specs =>
    obtain ⟨hmutex, hpeers⟩ := exec_applyPeerSpecs_kept env specs i w.store
    by_cases hdecode : (TunnelStore.exec env (.applyPeerSpecs specs) i w.store).1 = .error .decodeKey
    · exact .rules hpromise.1 hmutex hpeers (congrArg (fun s => s.device.map Device.peers)
        (applyPeerSpecs_decodeKey hdecode))
    · exact .applied hpromise.1 hmutex hpeers (follows_applyPeerSpecs hpromise.2 hdecode)
  | _ => exact .kept rfl rfl

theorem Effect.peerChange (h : Effect env policy t op i w) :
    PeerChange env policy w.store.peers (TunnelStore.exec env op i w.store).2.peers := by
  have hsame : (TunnelStore.exec env op i w.store).2.peers = w.store.peers →
      PeerChange env policy w.store.peers (TunnelStore.exec env op i w.store).2.peers := fun hpeers => hpeers ▸ .kept
  cases h with
  | kept hmutex hguarded => exact hsame (congrArg Guarded.peers hguarded)
  | locked hop hguarded => exact hsame (congrArg Guarded.peers hguarded)
  | unlocked hop hholder hends hguarded => exact hsame (congrArg Guarded.peers hguarded)
  | row hsets hholder hchanges hmutex hguarded hchange =>
    rw [show (TunnelStore.exec env op i w.store).2.peers = _ from congrArg Guarded.peers hguarded]
    exact hchange
  | rules hholder hmutex hpeers hlive => exact hsame hpeers
  | applied hholder hmutex hpeers hfollows => exact hsame hpeers

theorem Effect.others (h : Effect env policy t op i w) (hfree : MutexFree op w.store) {u : ℕ}
    (hne : u ≠ t) (hu : w.store.mutex = some u) :
    (TunnelStore.exec env op i w.store).2.mutex = some u ∧
      (TunnelStore.exec env op i w.store).2.guarded = w.store.guarded := by
  have hholds : w.store.mutex ≠ some t := fun h => hne (Option.some.inj (hu.symm.trans h))
  cases h with
  | kept hmutex hguarded => exact ⟨hmutex.trans hu, hguarded⟩
  | locked hop hguarded =>
    subst hop
    exact absurd (hu.symm.trans hfree) (Option.some_ne_none _)
  | unlocked hop hholder => exact absurd hholder hholds
  | row hsets hholder => exact absurd hholder hholds
  | rules hholder => exact absurd hholder hholds
  | applied hholder => exact absurd hholder hholds

end Effects
end Portlyn.Tunnel
