import Portlyn.Auth.Cache
import Portlyn.Lib.Floors

/-! # Authentications after an invalidation

An authentication that starts when `InvalidateUser` has returned on its hub does not return what was
read of the user before the change, unless an authentication that was already under way when the
caches were cleared stores what it had read. In Redis the invalidation has to find all entries of
the user as well. -/
namespace Portlyn.Auth.Cache
open Go Domain Lib Lib.Interleave
set_option autoImplicit false

/-! ## What the statements keep -/

abbrev SharedAbove (floor : ℕ → ℕ) (r : AuthRedis) (now : Instant) : Prop :=
  AboveFloor (fun _ entry => entry.userID) (fun entry : CachedAuth => entry.stamp) floor (r.get now)

structure HubCache.Above (floor : ℕ → ℕ) (c : HubCache) : Prop where
  held : AboveFloor (fun _ entry => entry.userID) (fun entry : CachedAuth => entry.stamp) floor c.authCache
  indexed : ∀ key entry, c.authCache key = some entry → c.userTokens entry.userID key = true

structure Coherent (s : CacheStore) : Prop where
  sharedBelow : ∀ userID, s.sharedFloor userID ≤ s.changes userID
  localBelow : ∀ hub userID, s.localFloor hub userID ≤ s.changes userID
  shared : SharedAbove s.sharedFloor s.redis s.store.clock
  hubs : ∀ hub, (s.hubs hub).Above (s.localFloor hub)

structure Grows (s s' : CacheStore) : Prop where
  changes : ∀ userID, s.changes userID ≤ s'.changes userID
  sharedFloor : ∀ userID, s.sharedFloor userID ≤ s'.sharedFloor userID
  localFloor : ∀ hub userID, s.localFloor hub userID ≤ s'.localFloor hub userID

theorem Grows.refl (s : CacheStore) : Grows s s :=
  ⟨fun _ => le_rfl, fun _ => le_rfl, fun _ _ => le_rfl⟩

theorem Grows.trans {s₁ s₂ s₃ : CacheStore} (h : Grows s₁ s₂) (h' : Grows s₂ s₃) : Grows s₁ s₃ where
  changes := fun userID => (h.changes userID).trans (h'.changes userID)
  sharedFloor := fun userID => (h.sharedFloor userID).trans (h'.sharedFloor userID)
  localFloor := fun hub userID => (h.localFloor hub userID).trans (h'.localFloor hub userID)

/-- What an authentication stores of a user is not older than the last clearing of the cache. An
invalidation reaches Redis, and its list of tokens has all entries of the user that are still there.
-/
def Timely (_ : ℕ) (op : CacheOp) (i : CacheChance) (w : CacheWorld) : Prop :=
  match op with
  | .sharedSet _ entry _ => w.store.sharedFloor entry.userID ≤ entry.stamp
  | .localPut hub _ entry => w.store.localFloor hub entry.userID ≤ entry.stamp
  | .sharedMembers _ => i.ok = true
  | .sharedDel userID keys => i.ok = true ∧ ∀ key entry, w.store.redis.get w.store.store.clock key = some entry →
    entry.userID = userID → key ∈ keys
  | _ => True

section Statements
variable {env : CacheEnv} {s : CacheStore}

theorem clock_le_exec [UnicodeTables] (env : Env) (op : Op) (i : Chance) (s : Store) :
    s.clock ≤ (Op.exec env op i s).2.clock := by
  cases op with
  | tick d => exact le_add_of_nonneg_right (Int.natCast_nonneg d)
  | _ => exact le_rfl

theorem exec_grows [UnicodeTables] (h : Coherent s) (op : CacheOp) (i : CacheChance) :
    Grows s (CacheOp.exec env op i s).2 := by
  cases op with
  | change userID act =>
    rw [CacheOp.exec]
    split_ifs
    · exact ⟨le_update_floor (Nat.le_succ _), fun _ => le_rfl, fun _ _ => le_rfl⟩
    · exact Grows.refl s
  | sharedDel userID keys =>
    rw [CacheOp.exec]
    split_ifs
    · exact ⟨fun _ => le_rfl, le_update_floor (h.sharedBelow userID), fun _ _ => le_rfl⟩
    · exact Grows.refl s
  | localInvalidate hub userID =>
    refine ⟨fun _ => le_rfl, fun _ => le_rfl, fun hub' userID' => ?_⟩
    change s.localFloor hub' userID' ≤ Function.update s.localFloor hub _ hub' userID'
    by_cases hhub : hub' = hub
    · subst hhub
      rw [Function.update_self]
      exact le_update_floor (h.localBelow hub' userID) userID'
    · rw [Function.update_of_ne hhub]
  | _ => exact ⟨fun _ => le_rfl, fun _ => le_rfl, fun _ _ => le_rfl⟩

/-! ### The shared cache -/

variable {floor : ℕ → ℕ} {r : AuthRedis} {now : Instant}

theorem SharedAbove.later (h : SharedAbove floor r now) {later : Instant} (hlater : now ≤ later) :
    SharedAbove floor r later := by
  refine h.sub fun key entry hget => ?_
  obtain ⟨expiry, hentry, halive⟩ := AuthRedis.get_eq_some.mp hget
  exact AuthRedis.get_eq_some.mpr ⟨expiry, hentry, unexpired_earlier hlater halive⟩

theorem SharedAbove.set (h : SharedAbove floor r now) {entry : CachedAuth} (hentry : floor entry.userID ≤ entry.stamp)
    (key : GoString) (ttl : ℤ) : SharedAbove floor (r.set now key entry ttl) now := by
  intro key' entry' hget
  obtain ⟨expiry, hkept, halive⟩ := AuthRedis.get_eq_some.mp hget
  rcases AuthRedis.entries_set hkept with ⟨-, rfl⟩ | ⟨-, hkept⟩
  · exact hentry
  · exact h key' entry' (AuthRedis.get_eq_some.mpr ⟨expiry, hkept, halive⟩)

theorem SharedAbove.delToken (h : SharedAbove floor r now) (key : GoString) :
    SharedAbove floor (r.delToken key) now := by
  refine h.sub fun key' entry hget => ?_
  obtain ⟨expiry, hkept, halive⟩ := AuthRedis.get_eq_some.mp hget
  exact AuthRedis.get_eq_some.mpr ⟨expiry, AuthRedis.entries_delToken hkept, halive⟩

theorem SharedAbove.del (h : SharedAbove floor r now) {userID : ℕ} {keys : List GoString}
    (hkeys : ∀ key entry, r.get now key = some entry → entry.userID = userID → key ∈ keys) (n : ℕ) :
    SharedAbove (Function.update floor userID n) (r.del userID keys) now := by
  refine h.clear n fun key entry hget => ?_
  obtain ⟨expiry, hkept, halive⟩ := AuthRedis.get_eq_some.mp hget
  obtain ⟨hmem, hkept⟩ := AuthRedis.entries_del hkept
  have hget := AuthRedis.get_eq_some.mpr ⟨expiry, hkept, halive⟩
  exact ⟨hget, fun howner => hmem (hkeys key entry hget howner)⟩

/-! ### The map of a hub -/

namespace HubCache.Above
variable {c : HubCache}

theorem put (h : c.Above floor) {entry : CachedAuth} (hentry : floor entry.userID ≤ entry.stamp)
    (key : GoString) : (c.put key entry).Above floor := by
  refine ⟨h.held.insert hentry, fun key' entry' hget => ?_⟩
  have htokens : ∀ userID, (c.put key entry).userTokens userID =
    Function.update c.userTokens entry.userID (Function.update (c.userTokens entry.userID) key true)
    userID := fun _ => rfl
  rw [htokens]
  rcases held_put hget with ⟨rfl, rfl⟩ | ⟨hkey, hget⟩
  · rw [Function.update_self, Function.update_self]
  · have hindexed := h.indexed key' entry' hget
    by_cases howner : entry'.userID = entry.userID
    · rw [howner, Function.update_self, Function.update_of_ne hkey, ← howner]
      exact hindexed
    · rw [Function.update_of_ne howner]
      exact hindexed

theorem remove (h : c.Above floor) (key : GoString) : (c.remove key).Above floor :=
  ⟨h.held.sub fun _ _ => held_remove, fun key' entry hget => h.indexed key' entry (held_remove hget)⟩

theorem invalidateUser (h : c.Above floor) (userID n : ℕ) :
    (c.invalidateUser userID).Above (Function.update floor userID n) := by
  have hsub : ∀ key entry, (c.invalidateUser userID).authCache key = some entry →
      c.authCache key = some entry ∧ entry.userID ≠ userID := by
    intro key entry hget
    obtain ⟨htoken, hget⟩ := held_invalidateUser hget
    refine ⟨hget, fun howner => ?_⟩
    have hindexed := h.indexed key entry hget
    rw [howner, htoken] at hindexed
    cases hindexed
  refine ⟨h.held.clear n hsub, fun key entry hget => ?_⟩
  obtain ⟨hget, howner⟩ := hsub key entry hget
  rw [HubCache.invalidateUser]
  dsimp only
  rw [Function.update_of_ne howner]
  exact h.indexed key entry hget

theorem sweep (h : c.Above floor) (dropped : GoString → Bool) : (c.sweep dropped).Above floor := by
  refine ⟨h.held.sub fun key entry hget => (held_sweep hget).2, fun key entry hget => ?_⟩
  obtain ⟨hdropped, hget⟩ := held_sweep hget
  change (c.userTokens entry.userID key && !(dropped key && _)) = true
  rw [h.indexed key entry hget, hdropped]
  rfl

end HubCache.Above

/-! ### All statements -/

theorem Coherent.onHub (h : Coherent s) {hub : ℕ} {f : HubCache → HubCache}
    (hf : (f (s.hubs hub)).Above (s.localFloor hub)) : Coherent (s.onHub hub f) := by
  refine ⟨h.sharedBelow, h.localBelow, h.shared, fun hub' => ?_⟩
  rcases hubs_onHub s hub f hub' with ⟨rfl, heq⟩ | ⟨-, heq⟩
  · rw [heq]
    exact hf
  · rw [heq]
    exact h.hubs hub'

theorem Coherent.onRedis (h : Coherent s) (i : CacheChance) {f : AuthRedis → AuthRedis}
    (hf : SharedAbove s.sharedFloor (f s.redis) s.store.clock) : Coherent (s.onRedis i f) := by
  refine ⟨h.sharedBelow, h.localBelow, ?_, h.hubs⟩
  rw [CacheStore.onRedis]
  split_ifs
  · exact hf
  · exact h.shared

theorem Coherent.change (h : Coherent s) {store : Store} (hclock : store.clock = s.store.clock) (userID : ℕ) :
    Coherent { s with store := store, changes := Function.update s.changes userID (s.changes userID + 1) } := by
  have hcount : ∀ userID', s.changes userID' ≤ Function.update s.changes userID (s.changes userID + 1) userID' :=
    le_update_floor (Nat.le_succ _)
  refine ⟨fun userID' => (h.sharedBelow userID').trans (hcount userID'),
    fun hub userID' => (h.localBelow hub userID').trans (hcount userID'), ?_, h.hubs⟩
  rw [hclock]
  exact h.shared

theorem Coherent.localInvalidate (h : Coherent s) (hub userID : ℕ) :
    Coherent { s.onHub hub fun c => c.invalidateUser userID with
      localFloor := Function.update s.localFloor hub
        (Function.update (s.localFloor hub) userID (s.changes userID)) } := by
  refine ⟨h.sharedBelow, fun hub' userID' => ?_, h.shared, fun hub' => ?_⟩
  · dsimp only
    by_cases hhub : hub' = hub
    · subst hhub
      rw [Function.update_self]
      by_cases huser : userID' = userID
      · rw [huser, Function.update_self]
        exact le_rfl
      · rw [Function.update_of_ne huser]
        exact h.localBelow hub' userID'
    · rw [Function.update_of_ne hhub]
      exact h.localBelow hub' userID'
  · rw [CacheStore.onHub]
    dsimp only
    by_cases hhub : hub' = hub
    · subst hhub
      rw [Function.update_self, Function.update_self]
      exact (h.hubs hub').invalidateUser userID _
    · rw [Function.update_of_ne hhub, Function.update_of_ne hhub]
      exact h.hubs hub'

theorem Coherent.sharedDel (h : Coherent s) {userID : ℕ} {keys : List GoString}
    (hkeys : ∀ key entry, s.redis.get s.store.clock key = some entry → entry.userID = userID → key ∈ keys) :
    Coherent { s with
      redis := s.redis.del userID keys, sharedFloor := Function.update s.sharedFloor userID (s.changes userID) } := by
  refine ⟨fun userID' => ?_, h.localBelow, h.shared.del hkeys _, h.hubs⟩
  dsimp only
  by_cases huser : userID' = userID
  · rw [huser, Function.update_self]
  · rw [Function.update_of_ne huser]
    exact h.sharedBelow userID'

theorem exec_coherent [UnicodeTables] {w : CacheWorld} (h : Coherent w.store) {t : ℕ} {op : CacheOp}
    {i : CacheChance} (hgiven : Timely t op i w) : Coherent (CacheOp.exec env op i w.store).2 := by
  cases op with
  | auth op =>
    have hclock := clock_le_exec env.auth op i.toChance w.store.store
    exact ⟨h.sharedBelow, h.localBelow, h.shared.later hclock, h.hubs⟩
  | change userID act =>
    rw [CacheOp.exec]
    split_ifs
    · exact h.change (by cases act <;> rfl) userID
    · exact h
  | sharedSet key entry ttl =>
    exact h.onRedis i (f := fun r => r.set w.store.store.clock key entry ttl) (h.shared.set hgiven key ttl)
  | sharedDelToken key => exact h.onRedis i (f := fun r => r.delToken key) (h.shared.delToken key)
  | sharedDel userID keys =>
    rw [CacheOp.exec]
    split_ifs
    · exact h.sharedDel hgiven.2
    · exact h
  | localDelete hub key => exact h.onHub (f := fun c => c.remove key) ((h.hubs hub).remove key)
  | localPut hub key entry => exact h.onHub (f := fun c => c.put key entry) ((h.hubs hub).put hgiven key)
  | localInvalidate hub userID => exact h.localInvalidate hub userID
  | localSweep hub dropped => exact h.onHub (f := fun c => c.sweep dropped) ((h.hubs hub).sweep dropped)
  | _ => exact h

end Statements

/-! ## Calls -/

def coherence [UnicodeTables] (env : CacheEnv) : Discipline (CacheOp.exec env) where
  inv := fun w => Coherent w.store
  rely := fun _ w w' => Grows w.store w'.store
  promise := fun _ _ _ => True
  given := Timely
  refl := fun _ w => Grows.refl w.store
  trans := fun _ _ _ _ h h' => h.trans h'
  keeps := fun _ _ _ _ h _ hgiven => exec_coherent h hgiven
  others := fun _ op i _ _ _ h _ _ => exec_grows h op i

/-- The caches that an authentication on the hub asks have been cleared of the user since the change
with this number. -/
def Cleared (env : CacheEnv) (s : CacheStore) (hub userID count : ℕ) : Prop :=
  count ≤ s.localFloor hub userID ∧ (env.distributed = true → count ≤ s.sharedFloor userID)

theorem Cleared.grows {env : CacheEnv} {s s' : CacheStore} {hub userID count : ℕ}
    (h : Cleared env s hub userID count) (hgrows : Grows s s') : Cleared env s' hub userID count :=
  ⟨h.1.trans (hgrows.localFloor hub userID), fun hd => (h.2 hd).trans (hgrows.sharedFloor userID)⟩

section Calls
variable [UnicodeTables] {env : CacheEnv} {t hub : ℕ} {s₀ : CacheStore} {w : CacheWorld}

/-- What a call on the hub returns of a user is no older than the changes its caches had been
cleared for at `s₀`. -/
def UpToDate (env : CacheEnv) (s₀ : CacheStore) (hub : ℕ) (data : AuthData) : Prop :=
  ∀ count, Cleared env s₀ hub data.userID count → count ≤ data.stamp

theorem wp_grows {α : Type} (call : CacheCall α) (h : Grows s₀ w.store) :
    (coherence env).Wp t (fun _ w => Grows s₀ w.store) call w :=
  wp_of_all (fun _ _ hrely h => h.trans hrely) (fun _ _ _ _ _ => trivial)
    (fun op i _ _ hinv h _ => h.trans (exec_grows hinv op i)) (all_trivial call) h

theorem wp_statement {op : CacheOp} {α : Type} {f : CacheAns op → CacheCall α}
    {Q : α → CacheWorld → Prop} (h : Grows s₀ w.store)
    (hf : ∀ w' i ans, Grows s₀ w'.store → Coherent w'.store → Timely t op i w' →
      w'.answer (CacheOp.exec env) op i = ans → ∀ w'', Grows s₀ w''.store →
      (coherence env).Wp t Q (f ans) w'') :
    (coherence env).Wp t Q (Prog.op op >>= f) w := by
  refine wp_op (fun _ _ _ => trivial) fun w' i ans hrely hinv hgiven hans => ?_
  have hgrows : Grows s₀ w'.store := h.trans hrely
  exact hf w' i ans hgrows hinv hgiven hans _ (hgrows.trans (exec_grows hinv op i))

theorem wp_end {α : Type} {a : α} {P : α → Prop} (h : Grows s₀ w.store) (hP : P a) :
    (coherence env).Wp t (fun a w => Grows s₀ w.store ∧ P a) (pure a) w :=
  wp_ret fun _ hrely _ => ⟨h.trans hrely, hP⟩

def FoundUpToDate (env : CacheEnv) (s₀ : CacheStore) (hub : ℕ) (result : Option CachedAuth) : Prop :=
  ∀ entry, result = some entry → UpToDate env s₀ hub entry.toAuthData

omit [UnicodeTables] in
theorem foundUpToDate_none : FoundUpToDate env s₀ hub none := fun _ h => nomatch h

omit [UnicodeTables] in
theorem foundUpToDate_some {entry : CachedAuth} (h : UpToDate env s₀ hub entry.toAuthData) :
    FoundUpToDate env s₀ hub (some entry) := fun _ heq => Option.some.inj heq ▸ h

theorem sharedResult_upToDate (hub : ℕ) (hdistributed : env.distributed = true) (key : GoString)
    (h : Grows s₀ w.store) :
    (coherence env).Wp t (fun result w => Grows s₀ w.store ∧ FoundUpToDate env s₀ hub result)
      (sharedResult key) w := by
  refine wp_statement h fun w' i ans hgrows hinv _ hans w'' h => ?_
  cases ans with
  | none => exact wp_end h foundUpToDate_none
  | some entry =>
    have hupToDate : UpToDate env s₀ hub entry.toAuthData := by
      intro count hcleared
      have hget : w'.store.redis.get w'.store.store.clock key = some entry := by
        change (if i.ok = true then _ else none) = some entry at hans
        split_ifs at hans
        exact hans
      exact ((hcleared.grows hgrows).2 hdistributed).trans (hinv.shared key entry hget)
    refine wp_bind ((wp_grows _ h).imp fun now w₁ _ h₁ => wp_ite (fun _ => ?_) fun _ => ?_)
    · exact wp_statement h₁ fun _ _ _ _ _ _ _ _ h₂ => wp_end h₂ foundUpToDate_none
    · exact wp_end h₁ (foundUpToDate_some hupToDate)

theorem localResult_upToDate (key : GoString) (now : Instant) (h : Grows s₀ w.store) :
    (coherence env).Wp t (fun result w => Grows s₀ w.store ∧ FoundUpToDate env s₀ hub result)
      (localResult hub key now) w := by
  refine wp_statement h fun w' i ans hgrows hinv _ hans w'' h => ?_
  cases ans with
  | none => exact wp_end h foundUpToDate_none
  | some entry =>
    have hupToDate : UpToDate env s₀ hub entry.toAuthData := fun count hcleared =>
      (hcleared.grows hgrows).1.trans ((hinv.hubs hub).held key entry hans)
    refine wp_ite (fun _ => ?_) fun _ => wp_end h (foundUpToDate_some hupToDate)
    exact wp_statement h fun _ _ _ _ _ _ _ _ h₂ => wp_end h₂ foundUpToDate_none

theorem getCachedAuthResult_upToDate (token : GoString) (h : Grows s₀ w.store) :
    (coherence env).Wp t (fun result w => Grows s₀ w.store ∧ FoundUpToDate env s₀ hub result)
      (getCachedAuthResult env hub token)
      w := by
  refine wp_ite (fun _ => wp_end h foundUpToDate_none) fun _ => ?_
  refine wp_bind ((wp_grows _ h).imp fun now w₁ _ h₁ => wp_ite (fun hdistributed => ?_) fun _ => ?_)
  · refine wp_bind ((sharedResult_upToDate hub hdistributed _ h₁).imp fun found w₂ _ h₂ => ?_)
    obtain ⟨h₂, hfound⟩ := h₂
    cases found with
    | some entry => exact wp_end h₂ hfound
    | none => exact wp_ite (fun _ => wp_end h₂ foundUpToDate_none) fun _ => localResult_upToDate _ now h₂
  · exact localResult_upToDate _ now h₁

def ReplyUpToDate (env : CacheEnv) (s₀ : CacheStore) (hub : ℕ) (reply : CacheReply) : Prop :=
  ∀ data session, reply = .authenticated data session → UpToDate env s₀ hub data

omit [UnicodeTables] in
theorem replyUpToDate_failed (e : CallError) : ReplyUpToDate env s₀ hub (.failed e) :=
  fun _ _ h => nomatch h

omit [UnicodeTables] in
theorem replyUpToDate_authenticated {data : AuthData} (h : UpToDate env s₀ hub data)
    (session : Option (ℕ × SessionRow)) :
    ReplyUpToDate env s₀ hub (.authenticated data session) := by
  intro data' session' heq
  cases heq
  exact h

variable {userID : ℕ}

omit [UnicodeTables] in
theorem cleared_le_changes {s : CacheStore} {count : ℕ} (h : Coherent s) (hgrows : Grows s₀ s)
    (hcleared : Cleared env s₀ hub userID count) : count ≤ s.changes userID :=
  (hcleared.grows hgrows).1.trans (h.localBelow hub userID)

theorem authenticateFresh_upToDate {token : GoString} {user : UserRow} {userStamp : ℕ}
    {expiresAt : Option Instant} {session : Option (ℕ × SessionRow)} (h : Grows s₀ w.store)
    (hstamp : ∀ count, Cleared env s₀ hub userID count → count ≤ userStamp) :
    (coherence env).Wp t (fun reply w => Grows s₀ w.store ∧ ReplyUpToDate env s₀ hub reply)
      (authenticateFresh env hub token userID user userStamp expiresAt session) w := by
  refine wp_statement h fun w' i ans hgrows hinv _ hans w'' h => ?_
  rcases ans with e | ⟨groupIDs, groupsStamp⟩
  · exact wp_end h (replyUpToDate_failed _)
  · have hgroups : groupsStamp = w'.store.changes userID := by
      change (if i.ok = true then _ else _) = _ at hans
      split_ifs at hans
      cases hans
      rfl
    refine wp_bind ((wp_grows _ h).imp fun _ w₁ _ h₁ =>
      wp_end h₁ (replyUpToDate_authenticated (fun count hcleared => ?_) _))
    refine le_min (hstamp count hcleared) ?_
    rw [hgroups]
    exact cleared_le_changes hinv hgrows hcleared

theorem getUser_upToDate (hub : ℕ) {α : Type} {f : Except StoreError (UserRow × ℕ) → CacheCall α}
    {Q : α → CacheWorld → Prop} (h : Grows s₀ w.store)
    (herror : ∀ e w', Grows s₀ w'.store → (coherence env).Wp t Q (f (.error e)) w')
    (hok : ∀ user userStamp w', Grows s₀ w'.store →
      (∀ count, Cleared env s₀ hub userID count → count ≤ userStamp) →
      (coherence env).Wp t Q (f (.ok (user, userStamp))) w') :
    (coherence env).Wp t Q (getUser userID >>= f) w := by
  refine wp_statement h fun w' i ans hgrows hinv _ hans w'' h => ?_
  rcases ans with e | ⟨user, userStamp⟩
  · exact herror e w'' h
  · refine hok user userStamp w'' h fun count hcleared => ?_
    have hstamp : userStamp = w'.store.changes userID := by
      change (if i.ok = true then (orNotFound (w'.store.store.users.get userID)).map _ else _) = _ at hans
      split_ifs at hans
      cases hget : w'.store.store.users.get userID with
      | none =>
        rw [hget] at hans
        cases hans
      | some row =>
        rw [hget] at hans
        cases hans
        rfl
    rw [hstamp]
    exact cleared_le_changes hinv hgrows hcleared

theorem authenticateAccessToken_upToDate (token : GoString) (h : Grows s₀ w.store) :
    (coherence env).Wp t (fun reply w => Grows s₀ w.store ∧ ReplyUpToDate env s₀ hub reply)
      (authenticateAccessToken env hub token) w := by
  refine wp_bind ((wp_grows _ h).imp fun now w₁ _ h₁ => ?_)
  rcases env.parseToken token now with _ | ⟨claims, expiresAt⟩
  · exact wp_end h₁ (replyUpToDate_failed _)
  · refine wp_bind ((getCachedAuthResult_upToDate token h₁).imp fun found w₂ _ h₂ => ?_)
    obtain ⟨h₂, hfound⟩ := h₂
    cases found with
    | some cached =>
      refine wp_ite (fun _ => wp_end h₂ (replyUpToDate_failed _)) fun _ => ?_
      refine wp_bind ((wp_grows _ h₂).imp fun session w₃ _ h₃ => ?_)
      cases session with
      | error e => exact wp_end h₃ (replyUpToDate_failed _)
      | ok session => exact wp_end h₃ (replyUpToDate_authenticated (hfound cached rfl) session)
    | none =>
      refine getUser_upToDate hub h₂ (fun e w' h' => wp_end h' (replyUpToDate_failed _))
        fun user userStamp w' h' hstamp => ?_
      refine wp_ite (fun _ => wp_end h' (replyUpToDate_failed _)) fun _ => ?_
      refine wp_bind ((wp_grows _ h').imp fun session w₃ _ h₃ => ?_)
      cases session with
      | error e => exact wp_end h₃ (replyUpToDate_failed _)
      | ok session => exact authenticateFresh_upToDate h₃ hstamp

theorem authenticateHostSessionToken_upToDate (token host : GoString) (h : Grows s₀ w.store) :
    (coherence env).Wp t (fun reply w => Grows s₀ w.store ∧ ReplyUpToDate env s₀ hub reply)
      (authenticateHostSessionToken env hub token host) w := by
  refine wp_bind ((wp_grows _ h).imp fun now w₁ _ h₁ => ?_)
  rcases env.parseHostSessionToken token host now with _ | ⟨claims, expiresAt⟩
  · exact wp_end h₁ (replyUpToDate_failed _)
  · refine wp_bind ((wp_grows _ h₁).imp fun session w₂ _ h₂ => ?_)
    obtain _ | session := session
    · exact wp_end h₂ (replyUpToDate_failed _)
    refine wp_bind ((getCachedAuthResult_upToDate token h₂).imp fun found w₃ _ h₃ => ?_)
    obtain ⟨h₃, hfound⟩ := h₃
    cases found with
    | some cached =>
      refine wp_ite (fun _ => wp_end h₃ (replyUpToDate_failed _)) fun _ => ?_
      exact wp_end h₃ (replyUpToDate_authenticated (hfound cached rfl) _)
    | none =>
      refine getUser_upToDate hub h₃ (fun e w' h' => wp_end h' (replyUpToDate_failed _))
        fun user userStamp w' h' hstamp => ?_
      exact wp_ite (fun _ => wp_end h' (replyUpToDate_failed _)) fun _ => authenticateFresh_upToDate h' hstamp

/-! ### Changes -/

theorem localInvalidate_cleared {count : ℕ} (hcount : count ≤ w.store.changes userID)
    (hshared : env.distributed = true → count ≤ w.store.sharedFloor userID) :
    (coherence env).Wp t (fun _ w => Cleared env w.store hub userID count) (localInvalidate hub userID) w := by
  intro w' hrely _
  refine ⟨trivial, fun i _ => wp_ret fun w'' hrely' _ => ?_⟩
  have hcleared : Cleared env (w'.step (CacheOp.exec env) t (.localInvalidate hub userID) i).store
    hub userID count := by
    refine ⟨?_, fun hd => (hshared hd).trans (hrely.sharedFloor userID)⟩
    change count ≤ Function.update w'.store.localFloor hub _ hub userID
    rw [Function.update_self, Function.update_self]
    exact hcount.trans (hrely.changes userID)
  exact hcleared.grows hrely'

theorem invalidateUser_cleared {count : ℕ} (hcount : count ≤ w.store.changes userID) :
    (coherence env).Wp t (fun _ w => Cleared env w.store hub userID count) (invalidateUser env hub userID) w := by
  refine wp_ite (fun _ => ?_) fun hlocal => localInvalidate_cleared hcount fun hd => absurd hd hlocal
  refine wp_op (fun _ _ _ => trivial) fun w' i ans hrely hinv hgiven hans => ?_
  have hcount' := hcount.trans (hrely.changes userID)
  cases ans with
  | error e =>
    have hok : i.ok = true := hgiven
    change (if i.ok = true then _ else _) = _ at hans
    rw [if_pos hok] at hans
    cases hans
  | ok keys =>
    refine wp_op (fun _ _ _ => trivial) fun w₁ i₁ _ hrely₁ _ hgiven₁ _ => ?_
    have hcount₁ := hcount'.trans (hrely₁.changes userID)
    have hdel : (w₁.step (CacheOp.exec env) t (.sharedDel userID keys) i₁).store =
        { w₁.store with
          redis := w₁.store.redis.del userID keys
          sharedFloor := Function.update w₁.store.sharedFloor userID (w₁.store.changes userID) } := by
      change (if (i₁.ok || i₁.applied) = true then _ else _) = _
      rw [hgiven₁.1]
      rfl
    refine localInvalidate_cleared ?_ fun _ => ?_
    · rw [hdel]
      exact hcount₁
    · rw [hdel]
      dsimp only
      rw [Function.update_self]
      exact hcount₁

theorem changeUser_cleared (userID : ℕ) (act : UserChange) :
    (coherence env).Wp t (fun reply w => ∀ count, reply = .changed count → Cleared env w.store hub userID count)
      (changeUser env hub userID act) w := by
  refine wp_op (fun _ _ _ => trivial) fun w' i ans hrely hinv hgiven hans => ?_
  obtain _ | count := ans
  · exact wp_ret fun _ _ _ _ heq => nomatch heq
  have hcount : count ≤ (w'.step (CacheOp.exec env) t (.change userID act) i).store.changes userID := by
    change (CacheOp.exec env (.change userID act) i w'.store).1 = _ at hans
    change count ≤ (CacheOp.exec env (.change userID act) i w'.store).2.changes userID
    rw [CacheOp.exec] at hans ⊢
    split_ifs at hans ⊢
    cases hans
    dsimp only
    rw [Function.update_self]
  refine wp_bind ((invalidateUser_cleared hcount).imp fun _ w₁ _ hcleared => wp_ret fun w₂ hrely₂ _ count' heq => ?_)
  cases heq
  exact hcleared.grows hrely₂

end Calls

/-! ## Runs -/

section Runs
variable [UnicodeTables] {env : CacheEnv}

def CacheEnd (env : CacheEnv) (_ : ℕ) (request : CacheRequest) (start : CacheWorld)
    (reply : CacheReply) (w : CacheWorld) : Prop :=
  match request with
  | .accessToken hub _ => ReplyUpToDate env start.store hub reply
  | .hostSessionToken hub _ _ => ReplyUpToDate env start.store hub reply
  | .changeUser hub userID _ => ∀ count, reply = .changed count → Cleared env w.store hub userID count
  | _ => True

theorem cacheCallOf_ends (t : ℕ) (request : CacheRequest) (w : CacheWorld) :
    (coherence env).Wp t (CacheEnd env t request w) (cacheCallOf env request) w := by
  cases request with
  | accessToken hub token => exact (authenticateAccessToken_upToDate token (Grows.refl _)).imp fun _ _ _ h => h.2
  | hostSessionToken hub token host =>
    exact (authenticateHostSessionToken_upToDate token host (Grows.refl _)).imp fun _ _ _ h => h.2
  | changeUser hub userID act => exact changeUser_cleared userID act
  | _ => exact (wp_grows _ (Grows.refl _)).imp fun _ _ _ _ => trivial

def CacheRequest.authenticatesOn (hub : ℕ) : CacheRequest → Prop
  | .accessToken h _ => h = hub
  | .hostSessionToken h _ _ => h = hub
  | _ => False

def CacheStore.fresh (store : Store) : CacheStore where
  store := store
  hubs := fun _ => ⟨fun _ => none, fun _ _ => false⟩
  redis := ⟨fun _ => none, fun _ => none⟩
  changes := fun _ => 0
  sharedFloor := fun _ => 0
  localFloor := fun _ _ => 0

omit [UnicodeTables] in
theorem fresh_coherent (store : Store) : Coherent (CacheStore.fresh store) where
  sharedBelow := fun _ => le_rfl
  localBelow := fun _ _ => le_rfl
  shared := aboveFloor_empty
  hubs := fun _ => ⟨aboveFloor_empty, fun _ _ h => nomatch h⟩

end Runs

/-! ## A hub to run -/

def sampleCacheEnv (distributed : Bool) : CacheEnv where
  auth := sampleEnv
  cacheTTL := 60000000000
  distributed := distributed
  parseToken := fun _ _ => some (⟨1, 0, []⟩, none)
  parseHostSessionToken := fun _ _ _ => none

def cacheSteps (t n : ℕ) : List (Event CacheRequest CacheChance) :=
  List.replicate n (.step t ⟨fine, true⟩)

def joining (t : ℕ) : Event CacheRequest CacheChance := .start t (.changeUser 0 1 (.groups [7]))

def authenticating (t : ℕ) : Event CacheRequest CacheChance := .start t (.accessToken 0 [0x74])

def timely (c : CacheConfig) : Event CacheRequest CacheChance → Bool
  | .start _ _ => true
  | .step t _ =>
    match c.task t with
    | some ⟨_, _, .stmt (.localPut hub _ entry) _⟩ => c.world.store.localFloor hub entry.userID ≤ entry.stamp
    | some ⟨_, _, .stmt (.sharedSet _ _ _) _⟩ => false
    | some ⟨_, _, .stmt (.sharedMembers _) _⟩ => false
    | some ⟨_, _, .stmt (.sharedDel _ _) _⟩ => false
    | _ => true

theorem timely_sound (c : CacheConfig) (e : Event CacheRequest CacheChance)
    (h : timely c e = true) : Allows (fun _ => True) Timely c e := by
  cases e with
  | start t request => trivial
  | step t i =>
    rw [Allows]
    split
    · rename_i request start op next htask
      rw [timely, htask] at h
      cases op with
      | localPut hub key entry =>
        have hfloor := of_decide_eq_true h
        exact hfloor
      | sharedSet key entry ttl => cases h
      | sharedMembers userID => cases h
      | sharedDel userID keys => cases h
      | _ => trivial
    · trivial

/-! ## Authentications after a change -/

/-- In a run whose statements are timely, an authentication that starts on a hub where a change of a
user has returned, with its invalidation, returns of the user only what was read after the change.
-/
theorem authentications_coherent [UnicodeTables] {env : CacheEnv} {store : Store}
    {events later : List (Event CacheRequest CacheChance)} {c c' : CacheConfig}
    (hcond : (authCaches env).Along (Allows (fun _ => True) Timely)
      (Config.init (CacheStore.fresh store)) (events ++ later))
    (hrun : (authCaches env).run (Config.init (CacheStore.fresh store)) events = some c)
    (hlater : (authCaches env).run c later = some c') {t hub userID count : ℕ} {act : UserChange}
    {start : CacheWorld}
    (hchanged : c.task t = some ⟨.changeUser hub userID act, start, .ret (.changed count)⟩) {u : ℕ}
    {request : CacheRequest} {start' : CacheWorld} {data : AuthData}
    {session : Option (ℕ × SessionRow)} (hon : request.authenticatesOn hub)
    (hafter : c.task u = none)
    (hreturned : c'.task u = some ⟨request, start', .ret (.authenticated data session)⟩)
    (huser : data.userID = userID) : count ≤ data.userStamp ∧ count ≤ data.groupsStamp := by
  obtain ⟨hcond, hcond'⟩ := along_append hcond hrun
  have hkept : Kept (authCaches env) (coherence env) (CacheEnd env) c :=
    (coherence env).sound (fun t request w _ _ _ => cacheCallOf_ends t request w)
      (kept_init (fresh_coherent store)) hcond hrun
  have hcleared : Cleared env c.world.store hub userID count := hkept.returned hchanged rfl count rfl
  have hkept' := (coherence env).sound (fun t request w _ _ _ => cacheCallOf_ends t request w) hkept hcond' hlater
  obtain ⟨before, after, c₁, rfl, hbefore, -, -, hstart⟩ := start_moment hlater hafter hreturned
  have hgrows : Coherent c₁.world.store ∧ Grows c.world.store c₁.world.store := by
    have hkeeps : ∀ t op i (w : CacheWorld), Coherent w.store ∧ Grows c.world.store w.store → Timely t op i w →
        Coherent (w.step (CacheOp.exec env) t op i).store ∧
        Grows c.world.store (w.step (CacheOp.exec env) t op i).store :=
      fun t op i w h hgiven => ⟨exec_coherent h.1 hgiven, h.2.trans (exec_grows h.1 op i)⟩
    exact along_run hkeeps ⟨hkept.inv, Grows.refl _⟩ (along_append hcond' hbefore).1 hbefore
  have hupToDate : ReplyUpToDate env start'.store hub (.authenticated data session) := by
    have hend := hkept'.returned hreturned rfl
    cases request with
    | accessToken hub' token =>
      cases hon
      exact hend
    | hostSessionToken hub' token host =>
      cases hon
      exact hend
    | _ => exact hon.elim
  dsimp only at hstart
  rw [hstart] at hupToDate
  subst huser
  exact le_min_iff.mp (hupToDate data session rfl count (hcleared.grows hgrows.2))

theorem authentications_coherent_joined :
    ∃ c c' start start' data, (@authCaches asciiTables (sampleCacheEnv false)).run
        (Config.init (CacheStore.fresh (sampleStore sampleUser .empty))) (joining 0 :: cacheSteps 0 2) = some c ∧
      (@authCaches asciiTables (sampleCacheEnv false)).run c (authenticating 1 :: cacheSteps 1 8) = some c' ∧
      c.task 0 = some ⟨.changeUser 0 1 (.groups [7]), start, .ret (.changed 1)⟩ ∧
      c'.task 1 = some ⟨.accessToken 0 [0x74], start', .ret (.authenticated data none)⟩ ∧ 1 ≤ data.userStamp ∧
      1 ≤ data.groupsStamp := by
  have htimely : (@authCaches asciiTables (sampleCacheEnv false)).Along (Allows (fun _ => True) Timely)
      (Config.init (CacheStore.fresh (sampleStore sampleUser .empty)))
      (joining 0 :: cacheSteps 0 2 ++ authenticating 1 :: cacheSteps 1 8) := along_of_checks timely_sound rfl
  have hon : (CacheRequest.accessToken 0 [0x74]).authenticatesOn 0 := rfl
  refine ⟨_, _, _, _, _, rfl, rfl, rfl, rfl, ?_⟩
  exact @authentications_coherent asciiTables (sampleCacheEnv false) _ _ _ _ _ htimely rfl rfl
    0 0 1 1 _ _ rfl 1 _ _ _ _ hon rfl rfl rfl

/-- An authentication has read the groups of the user and stores them when the user has got a group
and the caches have been cleared; the next one returns the old groups. -/
theorem authentications_stale :
    ∃ c c' start start' data, (@authCaches asciiTables (sampleCacheEnv false)).run
        (Config.init (CacheStore.fresh (sampleStore sampleUser .empty)))
        (authenticating 0 :: cacheSteps 0 7 ++ joining 1 :: cacheSteps 1 2) = some c ∧
      (@authCaches asciiTables (sampleCacheEnv false)).run c (cacheSteps 0 1 ++
        authenticating 2 :: cacheSteps 2 3) = some c' ∧
      c.task 1 = some ⟨.changeUser 0 1 (.groups [7]), start, .ret (.changed 1)⟩ ∧ c.task 2 = none ∧
      c'.task 2 = some ⟨.accessToken 0 [0x74], start', .ret (.authenticated data none)⟩ ∧
        data.userID = 1 ∧
      data.groupIDs = [] ∧ data.groupsStamp = 0 := by
  refine ⟨_, _, _, _, _, rfl, rfl, rfl, rfl, rfl, rfl, rfl, rfl⟩

end Portlyn.Auth.Cache
