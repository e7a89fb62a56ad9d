import Portlyn.Auth.Calls

/-! # The caches of authentications (`cache.go`, `service.go`, `sessions.go`, `route_access.go`)

An authentication leaves the user and the groups that it read in a cache: in Redis, where the hubs
share it, and in a map of the hub. Both have an index of the tokens of a user, by which
`InvalidateUser` finds what to drop.

The calls are given by their statements. For the record, the store counts how often a user was
changed, what is read carries the count, and each cache has the count at which it was last cleared
of the user. -/
namespace Portlyn.Auth.Cache
open Go Domain Lib Lib.Interleave
set_option autoImplicit false

/-! ## Entries -/

structure AuthData where
  userID : ℕ
  user : UserRow
  groupIDs : List ℕ
  userStamp : ℕ
  groupsStamp : ℕ

/-- `CachedAuthEntry` and `cachedAuthResult`. -/
structure CachedAuth extends AuthData where
  expiresAt : Instant

def AuthData.stamp (data : AuthData) : ℕ := min data.userStamp data.groupsStamp

structure HubCache where
  authCache : GoString → Option CachedAuth
  userTokens : ℕ → GoString → Bool

namespace HubCache

def put (c : HubCache) (key : GoString) (entry : CachedAuth) : HubCache where
  authCache := Function.update c.authCache key (some entry)
  userTokens := Function.update c.userTokens entry.userID (Function.update (c.userTokens entry.userID) key true)

def remove (c : HubCache) (key : GoString) : HubCache :=
  { c with authCache := Function.update c.authCache key none }

def invalidateUser (c : HubCache) (userID : ℕ) : HubCache where
  authCache := fun key => if c.userTokens userID key then none else c.authCache key
  userTokens := Function.update c.userTokens userID fun _ => false

/-- `sweepAuthCache` drops entries together with their tokens: the expired ones and, of too many,
some more. -/
def sweep (c : HubCache) (dropped : GoString → Bool) : HubCache where
  authCache := fun key => if dropped key then none else c.authCache key
  userTokens := fun userID key =>
    c.userTokens userID key && !(dropped key && (c.authCache key).any fun entry => entry.userID = userID)

variable {c : HubCache} {key key' : GoString} {entry entry' : CachedAuth}

theorem held_put (h : (c.put key entry).authCache key' = some entry') :
    key' = key ∧ entry' = entry ∨ key' ≠ key ∧ c.authCache key' = some entry' := by
  rw [put] at h
  dsimp only at h
  by_cases hkey : key' = key
  · rw [hkey, Function.update_self, Option.some.injEq] at h
    exact Or.inl ⟨hkey, h.symm⟩
  · rw [Function.update_of_ne hkey] at h
    exact Or.inr ⟨hkey, h⟩

theorem held_remove (h : (c.remove key).authCache key' = some entry') : c.authCache key' = some entry' := by
  rw [remove] at h
  dsimp only at h
  by_cases hkey : key' = key
  · rw [hkey, Function.update_self] at h
    cases h
  · rw [Function.update_of_ne hkey] at h
    exact h

theorem held_invalidateUser {userID : ℕ} (h : (c.invalidateUser userID).authCache key' = some entry') :
    c.userTokens userID key' = false ∧ c.authCache key' = some entry' := by
  rw [invalidateUser] at h
  dsimp only at h
  split_ifs at h with htoken
  exact ⟨Bool.eq_false_iff.mpr htoken, h⟩

theorem held_sweep {dropped : GoString → Bool} (h : (c.sweep dropped).authCache key' = some entry') :
    dropped key' = false ∧ c.authCache key' = some entry' := by
  rw [sweep] at h
  dsimp only at h
  split_ifs at h with hdropped
  exact ⟨Bool.eq_false_iff.mpr hdropped, h⟩

end HubCache

/-- The keys of `RedisAuthCache`, with the times at which they expire. -/
structure AuthRedis where
  entries : GoString → Option (CachedAuth × Option Instant)
  members : ℕ → Option (List GoString × Option Instant)

/-- The key is there at the time `now`. -/
def unexpired {α : Type} (now : Instant) (kept : α × Option Instant) : Bool :=
  kept.2.all fun expiry => now < expiry

/-- `SET` with the lifetime that is passed to it: without one the key stays, and -1 keeps the one it
has. -/
def expiryAfterSet (now : Instant) (ttl : ℤ) (old : Option Instant) : Option Instant :=
  if 0 < ttl then some (now + ttl) else if ttl = -1 then old else none

namespace AuthRedis

def kept (r : AuthRedis) (now : Instant) (key : GoString) : Option (CachedAuth × Option Instant) :=
  (r.entries key).filter (unexpired now)

def get (r : AuthRedis) (now : Instant) (key : GoString) : Option CachedAuth :=
  (r.kept now key).map Prod.fst

def smembers (r : AuthRedis) (now : Instant) (userID : ℕ) : List GoString :=
  (((r.members userID).filter (unexpired now)).map Prod.fst).getD []

/-- The transaction of `Set`: `SET`, `SADD` and `EXPIRE`, which deletes the key if the lifetime is
not positive. -/
def set (r : AuthRedis) (now : Instant) (key : GoString) (entry : CachedAuth) (ttl : ℤ) : AuthRedis where
  entries := Function.update r.entries key (some (entry, expiryAfterSet now ttl ((r.kept now key).bind Prod.snd)))
  members := Function.update r.members entry.userID
    (if 0 < ttl then some ((r.smembers now entry.userID).insert key, some (now + ttl)) else none)

def delToken (r : AuthRedis) (key : GoString) : AuthRedis :=
  { r with entries := Function.update r.entries key none }

/-- The transaction of `InvalidateUser`. -/
def del (r : AuthRedis) (userID : ℕ) (keys : List GoString) : AuthRedis where
  entries := fun key => if keys.any fun k => k = key then none else r.entries key
  members := Function.update r.members userID none

variable {r : AuthRedis} {now : Instant} {key key' : GoString} {entry : CachedAuth}
  {kept' : CachedAuth × Option Instant}

theorem get_eq_some : r.get now key = some entry ↔
    ∃ expiry, r.entries key = some (entry, expiry) ∧ unexpired now (entry, expiry) = true := by
  rw [get, Option.map_eq_some_iff]
  constructor
  · rintro ⟨⟨_, expiry⟩, hkept, rfl⟩
    obtain ⟨hentry, halive⟩ := Option.filter_eq_some_iff.mp hkept
    exact ⟨expiry, hentry, halive⟩
  · rintro ⟨expiry, hentry, halive⟩
    exact ⟨(entry, expiry), Option.filter_eq_some_iff.mpr ⟨hentry, halive⟩, rfl⟩

theorem entries_set {ttl : ℤ} (h : (r.set now key entry ttl).entries key' = some kept') :
    key' = key ∧ kept'.1 = entry ∨ key' ≠ key ∧ r.entries key' = some kept' := by
  rw [set] at h
  dsimp only at h
  by_cases hkey : key' = key
  · rw [hkey, Function.update_self, Option.some.injEq] at h
    rw [← h]
    exact Or.inl ⟨hkey, rfl⟩
  · rw [Function.update_of_ne hkey] at h
    exact Or.inr ⟨hkey, h⟩

theorem entries_delToken (h : (r.delToken key).entries key' = some kept') : r.entries key' = some kept' := by
  rw [delToken] at h
  dsimp only at h
  by_cases hkey : key' = key
  · rw [hkey, Function.update_self] at h
    cases h
  · rw [Function.update_of_ne hkey] at h
    exact h

theorem entries_del {userID : ℕ} {keys : List GoString} (h : (r.del userID keys).entries key' = some kept') :
    key' ∉ keys ∧ r.entries key' = some kept' := by
  rw [del] at h
  dsimp only at h
  split_ifs at h with hany
  exact ⟨fun hmem => hany (List.any_eq_true.mpr ⟨key', hmem, decide_eq_true rfl⟩), h⟩

theorem get_del {userID : ℕ} {keys : List GoString} (h : key ∉ keys) :
    (r.del userID keys).get now key = r.get now key := by
  have hany : ¬ (keys.any fun k => k = key) = true := fun hany => by
    obtain ⟨k, hmem, heq⟩ := List.any_eq_true.mp hany
    exact h (of_decide_eq_true heq ▸ hmem)
  rw [get, get, kept, kept, del]
  dsimp only
  rw [if_neg hany]

end AuthRedis

theorem unexpired_earlier {α : Type} {now later : Instant} (h : now ≤ later) {kept : α × Option Instant}
    (halive : unexpired later kept = true) : unexpired now kept = true := by
  unfold unexpired at halive ⊢
  cases hexpiry : kept.2 with
  | none => rfl
  | some expiry =>
    rw [hexpiry, Option.all_some, decide_eq_true_eq] at halive
    rw [Option.all_some, decide_eq_true_eq]
    exact lt_of_le_of_lt h halive

/-! ## Statements -/

inductive UserChange
  | save (row : UserRow)
  | delete
  | groups (groupIDs : List ℕ)

def UserChange.apply (userID : ℕ) (s : Store) : UserChange → Store
  | .save row => { s with users := s.users.update (fun id _ => id = userID) fun _ => row }
  | .delete => { s with users := s.users.delete userID }
  | .groups groupIDs => { s with groups := Function.update s.groups userID groupIDs }

/-- A statement with `hub` is one section under the lock of the hub's map. -/
inductive CacheOp
  | auth (op : Op)
  | getUser (userID : ℕ)
  | groupIDs (userID : ℕ)
  | change (userID : ℕ) (act : UserChange)
  | sharedGet (key : GoString)
  | sharedSet (key : GoString) (entry : CachedAuth) (ttl : ℤ)
  | sharedDelToken (key : GoString)
  | sharedMembers (userID : ℕ)
  | sharedDel (userID : ℕ) (keys : List GoString)
  | localGet (hub : ℕ) (key : GoString)
  | localDelete (hub : ℕ) (key : GoString)
  | localPut (hub : ℕ) (key : GoString) (entry : CachedAuth)
  | localInvalidate (hub userID : ℕ)
  | localSweep (hub : ℕ) (dropped : GoString → Bool)

/-- A change answers with its number among those of the user. -/
@[reducible] def CacheAns : CacheOp → Type
  | .auth op => Ans op
  | .getUser _ => Except StoreError (UserRow × ℕ)
  | .groupIDs _ => Except StoreError (List ℕ × ℕ)
  | .change _ _ => Except StoreError ℕ
  | .sharedGet _ => Option CachedAuth
  | .sharedSet _ _ _ => Unit
  | .sharedDelToken _ => Unit
  | .sharedMembers _ => Except Unit (List GoString)
  | .sharedDel _ _ => Unit
  | .localGet _ _ => Option CachedAuth
  | .localDelete _ _ => Unit
  | .localPut _ _ _ => Unit
  | .localInvalidate _ _ => Unit
  | .localSweep _ _ => Unit

structure CacheStore where
  store : Store
  hubs : ℕ → HubCache
  redis : AuthRedis
  changes : (userID : ℕ) → ℕ
  sharedFloor : (userID : ℕ) → ℕ
  localFloor : (hub userID : ℕ) → ℕ

structure CacheChance extends Chance where
  applied : Bool

structure CacheEnv where
  auth : Env
  cacheTTL : ℤ
  /-- There is a shared cache. -/
  distributed : Bool
  /-- The claims of a token that is valid at the time, with its expiry. -/
  parseToken : (token : GoString) → (now : Instant) → Option (Claims × Option Instant)
  parseHostSessionToken : (token host : GoString) → (now : Instant) → Option (HostSessionClaims × Option Instant)

def CacheStore.onHub (s : CacheStore) (hub : ℕ) (f : HubCache → HubCache) : CacheStore :=
  { s with hubs := Function.update s.hubs hub (f (s.hubs hub)) }

theorem hubs_onHub (s : CacheStore) (hub : ℕ) (f : HubCache → HubCache) (hub' : ℕ) :
    hub' = hub ∧ (s.onHub hub f).hubs hub' = f (s.hubs hub) ∨ hub' ≠ hub ∧ (s.onHub hub f).hubs hub' = s.hubs hub' := by
  by_cases hhub : hub' = hub
  · exact Or.inl ⟨hhub, (congrArg _ hhub).trans (Function.update_self ..)⟩
  · exact Or.inr ⟨hhub, Function.update_of_ne hhub ..⟩

def CacheStore.onRedis (s : CacheStore) (i : CacheChance) (f : AuthRedis → AuthRedis) : CacheStore :=
  { s with redis := if i.ok || i.applied then f s.redis else s.redis }

def CacheOp.exec [UnicodeTables] (env : CacheEnv) : Semantics CacheAns CacheStore CacheChance
  | .auth op, i, s =>
    let result := Op.exec env.auth op i.toChance s.store
    (result.1, { s with store := result.2 })
  | .getUser userID, i, s =>
    (if i.ok then (orNotFound (s.store.users.get userID)).map (·, s.changes userID) else .error .failed, s)
  | .groupIDs userID, i, s => (if i.ok then .ok (s.store.groups userID, s.changes userID) else .error .failed, s)
  | .change userID act, i, s =>
    if i.ok then
      (.ok (s.changes userID + 1),
        { s with store := act.apply userID s.store, changes :=
          Function.update s.changes userID (s.changes userID + 1) })
    else (.error .failed, s)
  | .sharedGet key, i, s => (if i.ok then s.redis.get s.store.clock key else none, s)
  | .sharedSet key entry ttl, i, s => ((), s.onRedis i fun r => r.set s.store.clock key entry ttl)
  | .sharedDelToken key, i, s => ((), s.onRedis i fun r => r.delToken key)
  | .sharedMembers userID, i, s => (if i.ok then .ok (s.redis.smembers s.store.clock userID) else .error (), s)
  | .sharedDel userID keys, i, s =>
    ((), if i.ok || i.applied then
      { s with redis := s.redis.del userID keys, sharedFloor :=
        Function.update s.sharedFloor userID (s.changes userID) }
      else s)
  | .localGet hub key, _, s => ((s.hubs hub).authCache key, s)
  | .localDelete hub key, _, s => ((), s.onHub hub fun c => c.remove key)
  | .localPut hub key entry, _, s => ((), s.onHub hub fun c => c.put key entry)
  | .localInvalidate hub userID, _, s =>
    ((), { s.onHub hub fun c => c.invalidateUser userID with
      localFloor := Function.update s.localFloor hub (Function.update (s.localFloor hub) userID (s.changes userID)) })
  | .localSweep hub dropped, _, s => ((), s.onHub hub fun c => c.sweep dropped)

/-! ## Calls -/

abbrev CacheCall := Prog CacheAns

def authCall {α : Type} (call : Call α) : CacheCall α := call.lift CacheOp.auth fun _ a => a

def getUser (userID : ℕ) : CacheCall (Except StoreError (UserRow × ℕ)) :=
  Prog.op (CacheOp.getUser userID)

def getUserGroupIDs (userID : ℕ) : CacheCall (Except StoreError (List ℕ × ℕ)) :=
  Prog.op (CacheOp.groupIDs userID)

def sharedGet (key : GoString) : CacheCall (Option CachedAuth) := Prog.op (CacheOp.sharedGet key)

def sharedSet (key : GoString) (entry : CachedAuth) (ttl : ℤ) : CacheCall Unit :=
  Prog.op (CacheOp.sharedSet key entry ttl)

def invalidateToken (key : GoString) : CacheCall Unit := Prog.op (CacheOp.sharedDelToken key)

def sharedMembers (userID : ℕ) : CacheCall (Except Unit (List GoString)) :=
  Prog.op (CacheOp.sharedMembers userID)

def sharedDel (userID : ℕ) (keys : List GoString) : CacheCall Unit :=
  Prog.op (CacheOp.sharedDel userID keys)

def localGet (hub : ℕ) (key : GoString) : CacheCall (Option CachedAuth) :=
  Prog.op (CacheOp.localGet hub key)

def localDelete (hub : ℕ) (key : GoString) : CacheCall Unit := Prog.op (CacheOp.localDelete hub key)

def localPut (hub : ℕ) (key : GoString) (entry : CachedAuth) : CacheCall Unit :=
  Prog.op (CacheOp.localPut hub key entry)

def localInvalidate (hub userID : ℕ) : CacheCall Unit :=
  Prog.op (CacheOp.localInvalidate hub userID)

section Calls
variable (env : CacheEnv) (hub : ℕ)

/-- `RedisAuthCache.Get`, where an error counts as no entry. -/
def sharedResult (key : GoString) : CacheCall (Option CachedAuth) := do
  match ← sharedGet key with
  | none => return none
  | some entry =>
    let now ← authCall timeNow
    if entry.expiresAt < now then
      invalidateToken key
      return none
    else return some entry

def localResult (key : GoString) (now : Instant) : CacheCall (Option CachedAuth) := do
  match ← localGet hub key with
  | none => return none
  | some cached =>
    if cached.expiresAt < now then
      localDelete hub key
      return none
    else return some cached

def getCachedAuthResult (token : GoString) : CacheCall (Option CachedAuth) := do
  if env.cacheTTL ≤ 0 ∧ env.distributed = false then return none
  else
    let key := env.auth.hashToken token
    let now ← authCall timeNow
    if env.distributed then
      match ← sharedResult key with
      | some entry => return some entry
      | none => if env.cacheTTL ≤ 0 then return none else localResult hub key now
    else localResult hub key now

def cacheExpiry (now : Instant) (expiresAt : Option Instant) : Instant :=
  match expiresAt with
  | none => now + env.cacheTTL
  | some expiry => if expiry < now + env.cacheTTL then expiry else now + env.cacheTTL

def storeCachedAuthResult (token : GoString) (data : AuthData) (expiresAt : Option Instant) : CacheCall Unit := do
  if env.cacheTTL ≤ 0 then return ()
  else
    let entry : CachedAuth := ⟨data, cacheExpiry env (← authCall timeNow) expiresAt⟩
    if entry.expiresAt ≤ (← authCall timeNow) then return ()
    else
      let key := env.auth.hashToken token
      if env.distributed then sharedSet key entry (entry.expiresAt - (← authCall timeNow))
      localPut hub key entry

def invalidateUser (userID : ℕ) : CacheCall Unit := do
  if env.distributed then
    match ← sharedMembers userID with
    | .error _ => pure ()
    | .ok keys => sharedDel userID keys
  localInvalidate hub userID

inductive CacheReply
  | authenticated (data : AuthData) (session : Option (ℕ × SessionRow))
  | changed (count : ℕ)
  | done
  | failed (e : CallError)

/-- The rest of an authentication that found nothing in the caches and the user in the store. -/
def authenticateFresh (token : GoString) (userID : ℕ) (user : UserRow) (userStamp : ℕ) (expiresAt : Option Instant)
    (session : Option (ℕ × SessionRow)) : CacheCall CacheReply := do
  match ← getUserGroupIDs userID with
  | .error e => return .failed (.store e)
  | .ok (groupIDs, groupsStamp) =>
    let data : AuthData := ⟨userID, user, groupIDs, userStamp, groupsStamp⟩
    storeCachedAuthResult env hub token data expiresAt
    return .authenticated data session

def authenticateAccessToken (token : GoString) : CacheCall CacheReply := do
  match env.parseToken token (← authCall timeNow) with
  | none => return .failed .invalidToken
  | some (claims, expiresAt) =>
    match ← getCachedAuthResult env hub token with
    | some cached =>
      if !cached.user.active then return .failed .inactiveUser
      else
        match ← authCall (accessTokenSessionCall claims false) with
        | .error e => return .failed e
        | .ok session => return .authenticated cached.toAuthData session
    | none =>
      match ← getUser claims.userID with
      | .error e => return .failed (.store e)
      | .ok (user, userStamp) =>
        if !user.active then return .failed .inactiveUser
        else
          match ← authCall (accessTokenSessionCall claims true) with
          | .error e => return .failed e
          | .ok session => authenticateFresh env hub token claims.userID user userStamp expiresAt session

def authenticateHostSessionToken (token host : GoString) : CacheCall CacheReply := do
  match env.parseHostSessionToken token host (← authCall timeNow) with
  | none => return .failed .invalidToken
  | some (claims, expiresAt) =>
    match ← authCall (hostSessionForCall claims) with
    | .error e => return .failed e
    | .ok session =>
      match ← getCachedAuthResult env hub token with
      | some cached =>
        if !cached.user.active then return .failed .inactiveUser
          else return .authenticated cached.toAuthData (some session)
      | none =>
        match ← getUser claims.userID with
        | .error e => return .failed (.store e)
        | .ok (user, userStamp) =>
          if !user.active then return .failed .inactiveUser
          else authenticateFresh env hub token claims.userID user userStamp expiresAt (some session)

def changeUser (userID : ℕ) (act : UserChange) : CacheCall CacheReply := do
  match ← (Prog.op (CacheOp.change userID act) : CacheCall (Except StoreError ℕ)) with
  | .error e => return .failed (.store e)
  | .ok count =>
    invalidateUser env hub userID
    return .changed count

end Calls

inductive CacheRequest
  | pass (d : ℕ)
  | accessToken (hub : ℕ) (token : GoString)
  | hostSessionToken (hub : ℕ) (token host : GoString)
  | changeUser (hub userID : ℕ) (act : UserChange)
  | sweep (hub : ℕ) (dropped : GoString → Bool)

def cacheCallOf (env : CacheEnv) : CacheRequest → CacheCall CacheReply
  | .pass d => do
    authCall (ask (.tick d))
    return .done
  | .accessToken hub token => authenticateAccessToken env hub token
  | .hostSessionToken hub token host => authenticateHostSessionToken env hub token host
  | .changeUser hub userID act => changeUser env hub userID act
  | .sweep hub dropped => do
    Prog.op (CacheOp.localSweep hub dropped)
    return .done

def authCaches [UnicodeTables] (env : CacheEnv) : System CacheAns CacheStore CacheChance CacheRequest CacheReply where
  exec := CacheOp.exec env
  prog := fun _ request => cacheCallOf env request

abbrev CacheWorld := World CacheAns CacheStore
abbrev CacheConfig := Config CacheAns CacheStore CacheRequest CacheReply

end Portlyn.Auth.Cache
