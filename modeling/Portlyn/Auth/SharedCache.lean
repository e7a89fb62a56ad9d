import Portlyn.Auth.CacheCoherence

/-! # The caches of several hubs, with no authentication under way

The hubs store, look up and invalidate one after the other, while time passes. After
`InvalidateUser` on one hub no hub finds an entry for a token of the user if, and only if, the index
in Redis still has all tokens under which Redis has an entry of the user, and no other hub has one
in its map. -/
namespace Portlyn.Auth.Cache
open Go Domain Lib Lib.Interleave
set_option autoImplicit false

/-! ## Commands -/

/-- What the hubs do, one command after the other; `expiresAt` is the expiry of the token. -/
inductive CacheCommand
  | pass (d : ℕ)
  | store (hub : ℕ) (token : GoString) (user : UserRow) (groupIDs : List ℕ) (expiresAt : Option Instant)
  | lookup (hub : ℕ) (token : GoString)
  | invalidateUser (hub userID : ℕ)
  | sweep (hub : ℕ) (dropped : GoString → Bool)

def answered : CacheChance := ⟨fine, true⟩

section Commands
variable [UnicodeTables] (env : CacheEnv) (owner : GoString → ℕ)

/-- A token is stored with the user it belongs to; `owner` gives the user for the hash. -/
def commandCall : CacheCommand → CacheCall Unit
  | .pass d => authCall (ask (.tick d))
  | .store hub token user groupIDs expiresAt =>
    storeCachedAuthResult env hub token ⟨owner (env.auth.hashToken token), user, groupIDs, 0, 0⟩ expiresAt
  | .lookup hub token => do
    let _ ← getCachedAuthResult env hub token
    return ()
  | .invalidateUser hub userID => invalidateUser env hub userID
  | .sweep hub dropped => Prog.op (CacheOp.localSweep hub dropped)

def perform (s : CacheStore) (command : CacheCommand) : CacheStore :=
  ((commandCall env owner command).solo (CacheOp.exec env) answered s).2

def performAll (s : CacheStore) (commands : List CacheCommand) : CacheStore :=
  commands.foldl (perform env owner) s

def found (s : CacheStore) (hub : ℕ) (token : GoString) : Option CachedAuth :=
  ((getCachedAuthResult env hub token).solo (CacheOp.exec env) answered s).1

end Commands

def CacheCommand.Stores (env : CacheEnv) (key : GoString) : CacheCommand → Prop
  | .store _ token _ _ _ => env.auth.hashToken token = key
  | _ => False

/-! ## Entries and their users -/

/-- Entries belong to the users of their tokens, and the tokens in a hub's map are indexed. -/
structure Owned (owner : GoString → ℕ) (s : CacheStore) : Prop where
  shared : ∀ key kept, s.redis.entries key = some kept → kept.1.userID = owner key
  hubs : ∀ hub key entry, (s.hubs hub).authCache key = some entry → entry.userID = owner key
  indexed : ∀ hub, (s.hubs hub).Above fun _ => 0

def Owning (owner : GoString → ℕ) : CacheOp → Prop
  | .sharedSet key entry _ => entry.userID = owner key
  | .localPut _ key entry => entry.userID = owner key
  | _ => True

section Owned
variable {env : CacheEnv} {owner : GoString → ℕ} {s : CacheStore}

theorem Owned.onHub (h : Owned owner s) {hub : ℕ} {f : HubCache → HubCache}
    (hindexed : (f (s.hubs hub)).Above fun _ => 0)
    (hf : ∀ key entry, (f (s.hubs hub)).authCache key = some entry → entry.userID = owner key) :
    Owned owner (s.onHub hub f) := by
  refine ⟨h.shared, fun hub' key entry hget => ?_, fun hub' => ?_⟩
  · rcases hubs_onHub s hub f hub' with ⟨-, heq⟩ | ⟨-, heq⟩
    · rw [heq] at hget
      exact hf key entry hget
    · rw [heq] at hget
      exact h.hubs hub' key entry hget
  · rcases hubs_onHub s hub f hub' with ⟨-, heq⟩ | ⟨-, heq⟩
    · rw [heq]
      exact hindexed
    · rw [heq]
      exact h.indexed hub'

theorem Owned.onRedis (h : Owned owner s) (i : CacheChance) {f : AuthRedis → AuthRedis}
    (hf : ∀ key kept, (f s.redis).entries key = some kept → kept.1.userID = owner key) :
    Owned owner (s.onRedis i f) := by
  refine ⟨fun key kept hkept => ?_, h.hubs, h.indexed⟩
  rw [CacheStore.onRedis] at hkept
  split_ifs at hkept
  · exact hf key kept hkept
  · exact h.shared key kept hkept

theorem exec_owned [UnicodeTables] {op : CacheOp} (hop : Owning owner op) (i : CacheChance)
    (h : Owned owner s) : Owned owner (CacheOp.exec env op i s).2 := by
  cases op with
  | change userID act =>
    rw [CacheOp.exec]
    split_ifs
    · exact ⟨h.shared, h.hubs, h.indexed⟩
    · exact h
  | sharedSet key entry ttl =>
    refine h.onRedis i (f := fun r => r.set s.store.clock key entry ttl) fun key' kept hkept => ?_
    rcases AuthRedis.entries_set hkept with ⟨rfl, heq⟩ | ⟨-, hkept⟩
    · rw [heq]
      exact hop
    · exact h.shared key' kept hkept
  | sharedDelToken key =>
    exact h.onRedis i (f := fun r => r.delToken key) fun key' kept hkept =>
      h.shared key' kept (AuthRedis.entries_delToken hkept)
  | sharedDel userID keys =>
    rw [CacheOp.exec]
    split_ifs
    · exact ⟨fun key kept hkept => h.shared key kept (AuthRedis.entries_del hkept).2, h.hubs, h.indexed⟩
    · exact h
  | localDelete hub key =>
    exact h.onHub (f := fun c => c.remove key) ((h.indexed hub).remove key) fun key' entry hget =>
      h.hubs hub key' entry (HubCache.held_remove hget)
  | localPut hub key entry =>
    refine h.onHub (f := fun c => c.put key entry) ((h.indexed hub).put (Nat.zero_le _) key) fun key' entry' hget => ?_
    rcases HubCache.held_put hget with ⟨rfl, rfl⟩ | ⟨-, hget⟩
    · exact hop
    · exact h.hubs hub key' entry' hget
  | localInvalidate hub userID =>
    have hindexed := (h.indexed hub).invalidateUser userID 0
    rw [Function.update_eq_self_iff.mpr rfl] at hindexed
    have honHub := h.onHub (f := fun c => c.invalidateUser userID) hindexed fun key entry hget =>
      h.hubs hub key entry (HubCache.held_invalidateUser hget).2
    exact ⟨honHub.shared, honHub.hubs, honHub.indexed⟩
  | localSweep hub dropped =>
    exact h.onHub (f := fun c => c.sweep dropped) ((h.indexed hub).sweep dropped) fun key entry hget =>
      h.hubs hub key entry (HubCache.held_sweep hget).2
  | _ => exact ⟨h.shared, h.hubs, h.indexed⟩

end Owned

/-! ### The statements of the commands -/

def Storeless : CacheOp → Prop
  | .sharedSet _ _ _ => False
  | .localPut _ _ _ => False
  | _ => True

section Statements
variable {env : CacheEnv} {hub : ℕ}

variable {P : CacheOp → Prop}

theorem authCall_all {α : Type} (hauth : ∀ op, P (.auth op)) (call : Call α) : (authCall call).All P :=
  all_lift (fun op _ => hauth op) (all_trivial call)

theorem localResult_storeless (key : GoString) (now : Instant) : (localResult hub key now).All Storeless := by
  refine all_op trivial fun cached => ?_
  cases cached with
  | none => trivial
  | some cached => exact all_ite (all_op trivial fun _ => trivial) trivial

theorem getCachedAuthResult_storeless (token : GoString) : (getCachedAuthResult env hub token).All Storeless := by
  refine all_ite trivial (all_bind (authCall_all (fun _ => trivial) _) fun now => ?_)
  refine all_ite (all_bind ?_ fun found => ?_) (localResult_storeless _ now)
  · refine all_op trivial fun entry => ?_
    cases entry with
    | none => trivial
    | some entry =>
      refine all_bind (authCall_all (fun _ => trivial) _) fun now => ?_
      exact all_ite (all_op trivial fun _ => trivial) trivial
  · cases found with
    | some entry => trivial
    | none => exact all_ite trivial (localResult_storeless _ now)

theorem invalidateUser_storeless (userID : ℕ) : (invalidateUser env hub userID).All Storeless := by
  refine all_ite (all_op trivial fun members => ?_) ⟨trivial, fun _ => trivial⟩
  cases members with
  | error e => exact ⟨trivial, fun _ => trivial⟩
  | ok keys => exact all_op trivial fun _ => ⟨trivial, fun _ => trivial⟩

theorem storeCachedAuthResult_all {token : GoString} {data : AuthData} (hauth : ∀ op, P (.auth op))
    (hstore : ∀ expiry ttl, P (.sharedSet (env.auth.hashToken token) ⟨data, expiry⟩ ttl) ∧
      P (.localPut hub (env.auth.hashToken token) ⟨data, expiry⟩)) (expiresAt : Option Instant) :
    (storeCachedAuthResult env hub token data expiresAt).All P := by
  refine all_ite trivial (all_bind (authCall_all hauth _) fun now => all_bind (authCall_all hauth _) fun now' => ?_)
  refine all_ite trivial (all_ite (all_bind (authCall_all hauth _) fun now'' => ?_) ⟨(hstore _ 0).2, fun _ => trivial⟩)
  exact all_op (hstore _ _).1 fun _ => ⟨(hstore _ 0).2, fun _ => trivial⟩

theorem commandCall_all {owner : GoString → ℕ} (hstoreless : ∀ op, Storeless op → P op)
    {command : CacheCommand}
    (hstore : ∀ hub token user groupIDs expiresAt, command = .store hub token user groupIDs expiresAt → ∀ expiry ttl,
      let entry : CachedAuth := ⟨⟨owner (env.auth.hashToken token), user, groupIDs, 0, 0⟩, expiry⟩
      P (.sharedSet (env.auth.hashToken token) entry ttl) ∧ P (.localPut hub (env.auth.hashToken token) entry)) :
    (commandCall env owner command).All P := by
  cases command with
  | pass d => exact authCall_all (fun op => hstoreless _ trivial) _
  | store hub token user groupIDs expiresAt =>
    exact storeCachedAuthResult_all (fun op => hstoreless _ trivial)
      (hstore hub token user groupIDs expiresAt rfl) expiresAt
  | lookup hub token => exact all_bind ((getCachedAuthResult_storeless token).imp hstoreless) fun _ => trivial
  | invalidateUser hub userID => exact (invalidateUser_storeless userID).imp hstoreless
  | sweep hub dropped => exact ⟨hstoreless _ trivial, fun _ => trivial⟩

end Statements

section Runs
variable [UnicodeTables] {env : CacheEnv} {owner : GoString → ℕ} {s : CacheStore}

theorem perform_owned (h : Owned owner s) (command : CacheCommand) : Owned owner (perform env owner s command) := by
  refine solo_keeps (fun op s hop hs => exec_owned hop answered hs) (commandCall_all (fun op hop => ?_) ?_) h
  · cases op <;> trivial
  · exact fun _ _ _ _ _ _ _ _ => ⟨rfl, rfl⟩

theorem performAll_nil : performAll env owner s [] = s := rfl

theorem performAll_owned (h : Owned owner s) (commands : List CacheCommand) :
    Owned owner (performAll env owner s commands) := by
  induction commands generalizing s with
  | nil => exact h
  | cons command commands ih => exact ih (perform_owned h command)

end Runs

/-! ## What a hub finds -/

def current (now : Instant) (entry : Option CachedAuth) : Option CachedAuth :=
  entry.filter fun e => !(e.expiresAt < now)

theorem current_eq_some {now : Instant} {held : Option CachedAuth} {entry : CachedAuth} :
    current now held = some entry ↔ held = some entry ∧ ¬ entry.expiresAt < now := by
  rw [current, Option.filter_eq_some_iff, Bool.not_eq_true', decide_eq_false_iff_not]

theorem current_eq_none {now : Instant} {held : Option CachedAuth} :
    current now held = none ↔ ∀ entry, held = some entry → entry.expiresAt < now := by
  rw [Option.eq_none_iff_forall_ne_some]
  constructor
  · intro h entry hheld
    by_contra hexpired
    exact h entry (current_eq_some.mpr ⟨hheld, hexpired⟩)
  · intro h entry hcurrent
    obtain ⟨hheld, hexpired⟩ := current_eq_some.mp hcurrent
    exact hexpired (h entry hheld)

section Found
variable [UnicodeTables] {env : CacheEnv} {s : CacheStore}

theorem solo_timeNow (s : CacheStore) : (authCall timeNow).solo (CacheOp.exec env) answered s =
    (s.store.clock, s) := rfl

theorem sharedResult_solo (env : CacheEnv) (s : CacheStore) (key : GoString) :
    ((sharedResult key).solo (CacheOp.exec env) answered s).1 = current s.store.clock (s.redis.get s.store.clock key) ∧
      ((sharedResult key).solo (CacheOp.exec env) answered s).2.hubs = s.hubs := by
  rw [sharedResult, solo_bind]
  have hget : (sharedGet key).solo (CacheOp.exec env) answered s = (s.redis.get s.store.clock key, s) := rfl
  rw [hget]
  cases hentry : s.redis.get s.store.clock key with
  | none => exact ⟨rfl, rfl⟩
  | some entry =>
    rw [solo_bind, solo_timeNow]
    by_cases hexpired : entry.expiresAt < s.store.clock
    · rw [if_pos hexpired]
      refine ⟨?_, rfl⟩
      rw [current_eq_none.mpr fun e he => Option.some.inj he ▸ hexpired]
      rfl
    · rw [if_neg hexpired, current_eq_some.mpr ⟨rfl, hexpired⟩]
      exact ⟨rfl, rfl⟩

theorem localResult_solo (hub : ℕ) (key : GoString) (now : Instant) :
    ((localResult hub key now).solo (CacheOp.exec env) answered s).1 = current now ((s.hubs hub).authCache key) := by
  rw [localResult, solo_bind]
  have hget : (localGet hub key).solo (CacheOp.exec env) answered s = ((s.hubs hub).authCache key, s) := rfl
  rw [hget]
  cases hentry : (s.hubs hub).authCache key with
  | none => rfl
  | some entry =>
    dsimp only
    by_cases hexpired : entry.expiresAt < now
    · rw [if_pos hexpired, current_eq_none.mpr fun e he => Option.some.inj he ▸ hexpired]
      rfl
    · rw [if_neg hexpired, current_eq_some.mpr ⟨rfl, hexpired⟩]
      rfl

theorem found_eq_none (hub : ℕ) (token : GoString) :
    found env s hub token = none ↔
      (env.distributed = true → current s.store.clock (s.redis.get s.store.clock (env.auth.hashToken token)) = none) ∧
      (0 < env.cacheTTL → current s.store.clock ((s.hubs hub).authCache (env.auth.hashToken token)) = none) := by
  unfold found getCachedAuthResult
  by_cases hoff : env.cacheTTL ≤ 0 ∧ env.distributed = false
  · rw [if_pos hoff, hoff.2]
    exact iff_of_true rfl ⟨fun hd => Bool.noConfusion hd, fun hpos => absurd hpos (not_lt.mpr hoff.1)⟩
  · rw [if_neg hoff]
    rw [solo_bind, solo_timeNow]
    by_cases hdistributed : env.distributed = true
    · rw [if_pos hdistributed, solo_bind]
      obtain ⟨hshared, hhubs⟩ := sharedResult_solo env s (env.auth.hashToken token)
      rw [hshared]
      cases hcurrent : current s.store.clock (s.redis.get s.store.clock (env.auth.hashToken token)) with
      | some entry => exact iff_of_false (fun h => nomatch h) fun h => nomatch h.1 hdistributed
      | none =>
        by_cases hTTL : env.cacheTTL ≤ 0
        · rw [if_pos hTTL]
          exact iff_of_true rfl ⟨fun _ => rfl, fun hpos => absurd hpos (not_lt.mpr hTTL)⟩
        · rw [if_neg hTTL, localResult_solo, hhubs]
          exact ⟨fun h => ⟨fun _ => rfl, fun _ => h⟩, fun h => h.2 (not_le.mp hTTL)⟩
    · have hTTL : ¬ env.cacheTTL ≤ 0 := fun hTTL => hoff ⟨hTTL, Bool.eq_false_iff.mpr hdistributed⟩
      rw [if_neg hdistributed, localResult_solo]
      exact ⟨fun h => ⟨fun hd => absurd hd hdistributed, fun _ => h⟩, fun h => h.2 (not_le.mp hTTL)⟩

end Found

/-! ## Tokens without an entry -/

structure Cold (env : CacheEnv) (key : GoString) (s : CacheStore) : Prop where
  shared : env.distributed = true → ∀ entry, s.redis.get s.store.clock key = some entry →
    entry.expiresAt < s.store.clock
  hubs : 0 < env.cacheTTL → ∀ hub entry, (s.hubs hub).authCache key = some entry → entry.expiresAt < s.store.clock

def Elsewhere (key : GoString) : CacheOp → Prop
  | .sharedSet key' _ _ => key' ≠ key
  | .localPut _ key' _ => key' ≠ key
  | _ => True

section Cold
variable {env : CacheEnv} {key : GoString} {s : CacheStore}

theorem Cold.later (h : Cold env key s) {store : Store} (hclock : s.store.clock ≤ store.clock) :
    Cold env key { s with store := store } := by
  refine ⟨fun hdistributed entry hget => ?_, fun hTTL hub entry hget =>
    lt_of_lt_of_le (h.hubs hTTL hub entry hget) hclock⟩
  obtain ⟨expiry, hkept, halive⟩ := AuthRedis.get_eq_some.mp hget
  have hget := AuthRedis.get_eq_some.mpr ⟨expiry, hkept, unexpired_earlier hclock halive⟩
  exact lt_of_lt_of_le (h.shared hdistributed entry hget) hclock

theorem Cold.sub (h : Cold env key s) {s' : CacheStore} (hclock : s'.store.clock = s.store.clock)
    (hshared : ∀ kept, s'.redis.entries key = some kept → s.redis.entries key = some kept)
    (hhubs : ∀ hub entry, (s'.hubs hub).authCache key = some entry →
      (s.hubs hub).authCache key = some entry) :
    Cold env key s' := by
  refine ⟨fun hdistributed entry hget => ?_, fun hTTL hub entry hget => ?_⟩
  · obtain ⟨expiry, hkept, halive⟩ := AuthRedis.get_eq_some.mp hget
    rw [hclock] at halive ⊢
    exact h.shared hdistributed entry (AuthRedis.get_eq_some.mpr ⟨expiry, hshared _ hkept, halive⟩)
  · rw [hclock]
    exact h.hubs hTTL hub entry (hhubs hub entry hget)

theorem Cold.onHub (h : Cold env key s) {hub : ℕ} {f : HubCache → HubCache}
    (hf : ∀ entry, (f (s.hubs hub)).authCache key = some entry → (s.hubs hub).authCache key = some entry) :
    Cold env key (s.onHub hub f) := by
  refine h.sub rfl (fun _ hkept => hkept) fun hub' entry hget => ?_
  rcases hubs_onHub s hub f hub' with ⟨rfl, heq⟩ | ⟨-, heq⟩
  · rw [heq] at hget
    exact hf entry hget
  · rw [heq] at hget
    exact hget

theorem Cold.onRedis (h : Cold env key s) (i : CacheChance) {f : AuthRedis → AuthRedis}
    (hf : ∀ kept, (f s.redis).entries key = some kept → s.redis.entries key = some kept) :
    Cold env key (s.onRedis i f) := by
  refine h.sub rfl (fun kept hkept => ?_) fun _ _ hget => hget
  rw [CacheStore.onRedis] at hkept
  split_ifs at hkept
  · exact hf kept hkept
  · exact hkept

theorem exec_cold [UnicodeTables] {op : CacheOp} (hop : Elsewhere key op) (i : CacheChance)
    (h : Cold env key s) : Cold env key (CacheOp.exec env op i s).2 := by
  cases op with
  | auth op => exact h.later (clock_le_exec env.auth op i.toChance s.store)
  | change userID act =>
    rw [CacheOp.exec]
    split_ifs
    · exact h.sub (by cases act <;> rfl) (fun _ hkept => hkept) fun _ _ hget => hget
    · exact h
  | sharedSet key' entry ttl =>
    refine h.onRedis i (f := fun r => r.set s.store.clock key' entry ttl) fun kept hkept => ?_
    exact (AuthRedis.entries_set hkept).elim (fun heq => absurd heq.1.symm hop) And.right
  | sharedDelToken key' =>
    exact h.onRedis i (f := fun r => r.delToken key') fun kept hkept =>
      AuthRedis.entries_delToken hkept
  | sharedDel userID keys =>
    rw [CacheOp.exec]
    split_ifs
    · exact h.sub rfl (fun kept hkept => (AuthRedis.entries_del hkept).2) fun _ _ hget => hget
    · exact h
  | localDelete hub key' => exact h.onHub (f := fun c => c.remove key') fun entry hget => HubCache.held_remove hget
  | localPut hub key' entry =>
    refine h.onHub (f := fun c => c.put key' entry) fun entry' hget => ?_
    exact (HubCache.held_put hget).elim (fun heq => absurd heq.1.symm hop) And.right
  | localInvalidate hub userID =>
    have honHub : Cold env key (s.onHub hub fun c => c.invalidateUser userID) :=
      h.onHub fun entry hget => (HubCache.held_invalidateUser hget).2
    exact ⟨honHub.shared, honHub.hubs⟩
  | localSweep hub dropped =>
    exact h.onHub (f := fun c => c.sweep dropped) fun entry hget => (HubCache.held_sweep hget).2
  | _ => exact h

theorem perform_cold [UnicodeTables] {owner : GoString → ℕ} (h : Cold env key s) {command : CacheCommand}
    (hcommand : ¬ command.Stores env key) : Cold env key (perform env owner s command) := by
  refine solo_keeps (fun op s hop hs => exec_cold hop answered hs) (commandCall_all (fun op hop => ?_) ?_) h
  · cases op with
    | sharedSet key' entry ttl => exact hop.elim
    | localPut hub key' entry => exact hop.elim
    | _ => trivial
  · rintro hub token user groupIDs expiresAt rfl expiry ttl
    exact ⟨hcommand, hcommand⟩

theorem performAll_cold [UnicodeTables] {owner : GoString → ℕ} (h : Cold env key s)
    {commands : List CacheCommand} (hcommands : ∀ command ∈ commands, ¬ command.Stores env key) :
    Cold env key (performAll env owner s commands) := by
  induction commands generalizing s with
  | nil => exact h
  | cons command commands ih =>
    exact ih (perform_cold h (hcommands command List.mem_cons_self)) fun c hc => hcommands c (List.mem_cons_of_mem _ hc)

theorem found_of_cold [UnicodeTables] {token : GoString} (h : Cold env (env.auth.hashToken token) s)
    (hub : ℕ) : found env s hub token = none := by
  refine (found_eq_none hub token).mpr ⟨fun hdistributed => ?_, fun hTTL => ?_⟩
  · exact current_eq_none.mpr (h.shared hdistributed)
  · exact current_eq_none.mpr (h.hubs hTTL hub)

end Cold

/-! ## Invalidations -/

/-- The index in Redis has all tokens under which Redis has an entry of the user, and no other hub
has one in its map. -/
def Reaches (env : CacheEnv) (owner : GoString → ℕ) (s : CacheStore) (hub userID : ℕ) : Prop :=
  ∀ token, owner (env.auth.hashToken token) = userID →
    (env.distributed = true → current s.store.clock (s.redis.get s.store.clock (env.auth.hashToken token)) ≠ none →
      env.auth.hashToken token ∈ s.redis.smembers s.store.clock userID) ∧
    (0 < env.cacheTTL → ∀ hub' ≠ hub, current s.store.clock ((s.hubs hub').authCache (env.auth.hashToken token)) = none)

section Invalidation
variable [UnicodeTables] {env : CacheEnv} {owner : GoString → ℕ}

theorem perform_invalidateUser (env : CacheEnv) (owner : GoString → ℕ) (s : CacheStore)
    (hub userID : ℕ) :
    (perform env owner s (.invalidateUser hub userID)).store = s.store ∧
    (perform env owner s (.invalidateUser hub userID)).hubs =
      Function.update s.hubs hub ((s.hubs hub).invalidateUser userID) ∧
    (env.distributed = true → (perform env owner s (.invalidateUser hub userID)).redis =
      s.redis.del userID (s.redis.smembers s.store.clock userID)) := by
  obtain ⟨auth, cacheTTL, distributed, parseToken, parseHostSessionToken⟩ := env
  cases distributed with
  | false => exact ⟨rfl, rfl, fun hdistributed => Bool.noConfusion hdistributed⟩
  | true => exact ⟨rfl, rfl, fun _ => rfl⟩

theorem invalidated_cold {s : CacheStore} (howned : Owned owner s) {hub userID : ℕ} (h : Reaches env owner s hub userID)
    {token : GoString} (howner : owner (env.auth.hashToken token) = userID) :
    Cold env (env.auth.hashToken token) (perform env owner s (.invalidateUser hub userID)) := by
  obtain ⟨hstore, hhubs, hredis⟩ := perform_invalidateUser env owner s hub userID
  obtain ⟨hshared, hothers⟩ := h token howner
  refine ⟨fun hdistributed entry hget => ?_, fun hTTL hub' entry hget => ?_⟩
  · rw [hstore, hredis hdistributed] at hget
    rw [hstore]
    obtain ⟨expiry, hkept, halive⟩ := AuthRedis.get_eq_some.mp hget
    obtain ⟨hmem, hkept⟩ := AuthRedis.entries_del hkept
    have hnone := not_ne_iff.mp fun hcurrent => hmem (hshared hdistributed hcurrent)
    exact current_eq_none.mp hnone entry (AuthRedis.get_eq_some.mpr ⟨expiry, hkept, halive⟩)
  · rw [hhubs] at hget
    rw [hstore]
    by_cases hhub : hub' = hub
    · subst hhub
      rw [Function.update_self] at hget
      obtain ⟨htoken, hget⟩ := HubCache.held_invalidateUser hget
      have hindexed := (howned.indexed hub').indexed _ entry hget
      rw [howned.hubs hub' _ entry hget, howner, htoken] at hindexed
      cases hindexed
    · rw [Function.update_of_ne hhub] at hget
      exact current_eq_none.mp (hothers hTTL hub' hhub) entry hget

/-- After `InvalidateUser` on one hub, no hub finds an entry for a token of the user until one is
stored for the token, if and only if the invalidation reaches all entries of the user. -/
theorem invalidation_reaches_iff (store : Store) (commands : List CacheCommand) (hub userID : ℕ) :
    (∀ later token, owner (env.auth.hashToken token) = userID →
      (∀ command ∈ later, ¬ CacheCommand.Stores env (env.auth.hashToken token) command) → ∀ hub',
        found env
          (performAll env owner
            (perform env owner (performAll env owner (CacheStore.fresh store) commands)
              (.invalidateUser hub userID)) later)
          hub' token = none) ↔
    Reaches env owner (performAll env owner (CacheStore.fresh store) commands) hub userID := by
  have howned : Owned owner (performAll env owner (CacheStore.fresh store) commands) := by
    refine performAll_owned ⟨fun _ _ h => ?_, fun _ _ _ h => ?_, fun _ => ⟨aboveFloor_empty, fun _ _ h => ?_⟩⟩ commands
    · cases h
    · cases h
    · cases h
  generalize performAll env owner (CacheStore.fresh store) commands = s at howned ⊢
  obtain ⟨hstore, hhubs, hredis⟩ := perform_invalidateUser env owner s hub userID
  constructor
  · intro h token howner
    have hfound := fun hub' => (found_eq_none hub' token).mp (h [] token howner (List.forall_mem_nil _) hub')
    refine ⟨fun hdistributed hcurrent => ?_, fun hTTL hub' hhub => ?_⟩
    · by_contra hmem
      have hnone := (hfound hub).1 hdistributed
      rw [performAll_nil, hstore, hredis hdistributed, AuthRedis.get_del hmem] at hnone
      exact hcurrent hnone
    · have hnone := (hfound hub').2 hTTL
      rw [performAll_nil, hstore, hhubs, Function.update_of_ne hhub] at hnone
      exact hnone
  · exact fun h later token howner hlater hub' =>
      found_of_cold (performAll_cold (invalidated_cold howned h howner) hlater) hub'

end Invalidation

def sharing (commands : List CacheCommand) : CacheStore :=
  @performAll asciiTables (sampleCacheEnv true) (fun _ => 1) (CacheStore.fresh (sampleStore sampleUser .empty)) commands

/-- The hub 1 keeps its own entry of the token when the hub 0 invalidates. On the hub 0 itself the
first token survives: the second one, of which a second is left, shortened the life of the index, so
that it had expired when the hub invalidated. -/
theorem invalidation_missed :
    (∃ entry, @found asciiTables (sampleCacheEnv true)
      (sharing [.store 1 [0x74] sampleUser [] none, .invalidateUser 0 1]) 1 [0x74] = some entry ∧ entry.userID = 1) ∧
    (∃ entry, @found asciiTables (sampleCacheEnv true)
      (sharing [.store 0 [0x74] sampleUser [] none, .store 0 [0x75] sampleUser [] (some 1000000000), .pass 2000000000,
        .invalidateUser 0 1]) 0 [0x74] = some entry ∧ entry.userID = 1) := by
  exact ⟨⟨_, rfl, rfl⟩, ⟨_, rfl, rfl⟩⟩

end Portlyn.Auth.Cache
