import Portlyn.Auth.Authenticate
import Portlyn.Lib.Interleave
import Portlyn.Lib.Table

/-! # The statements of the auth service (`internal/store`)

The tables of users, login tokens and sessions, and each statement that the stores run on them. A
statement runs as a whole or fails; between two statements of a call those of other calls may run.
Next to the stores stand the other things a call asks for and gets from outside: the clock, the rate
limiter, the caches. -/
namespace Portlyn.Auth
open Go Domain Lib Lib.Interleave
set_option autoImplicit false

/-! ## Rows -/

structure UserRow where
  email : GoString
  passwordHash : GoString
  role : Role
  active : Bool
  mustChangePassword : Bool
  mfaEnabled : Bool
  mfaSecret : GoString
  mfaPendingSecret : GoString
  mfaRecoveryCodes : List GoString
  mfaPendingRecoveryCodes : List GoString
  mfaLastTOTPCounter : ℕ
  authProvider : AuthProvider
  authProviderRef : GoString
  authIssuer : GoString
  displayName : GoString
  username : GoString
  lastLoginAt : Option Instant
deriving DecidableEq

def UserRow.toUser (row : UserRow) (id : ℕ) : User where
  id := id
  email := row.email
  role := row.role
  active := row.active
  mustChangePassword := row.mustChangePassword
  mfaEnabled := row.mfaEnabled
  authProvider := row.authProvider

inductive TokenScope
  | accountLogin
  | routeAccess
  | magicLink
  | mfaLogin
  | other (raw : GoString)
deriving DecidableEq

structure LoginToken where
  userID : Option ℕ
  serviceID : Option ℕ
  email : GoString
  token : GoString
  scope : TokenScope
  expiresAt : Instant
  usedAt : Option Instant
  attemptCount : ℕ
deriving DecidableEq

structure SessionRow where
  userID : ℕ
  tokenID : GoString
  refreshTokenHash : GoString
  userAgent : GoString
  remoteAddr : GoString
  lastSeenAt : Option Instant
  expiresAt : Instant
  revokedAt : Option Instant
  bootstrapDismissed : Bool
deriving DecidableEq

structure AppSettings extends Settings where
  localLoginDisabled : Bool
  otpEnabled : Bool

inductive StoreError
  | notFound
  | conflict
  | alreadyUsed
  | stale
  /-- Any other error, such as a lost connection or a violated index. -/
  | failed
deriving DecidableEq

/-! ## Users -/

inductive UserColumn
  | email
  | passwordHash
  | role
  | active
  | mustChangePassword
  | mfaEnabled
  | mfaSecret
  | mfaPendingSecret
  | mfaRecoveryCodes
  | mfaPendingRecoveryCodes
  | mfaLastTOTPCounter
  | authProvider
  | authProviderRef
  | authIssuer
  | displayName
  | username
deriving DecidableEq

def UserColumn.copy (source row : UserRow) : UserColumn → UserRow
  | .email => { row with email := source.email }
  | .passwordHash => { row with passwordHash := source.passwordHash }
  | .role => { row with role := source.role }
  | .active => { row with active := source.active }
  | .mustChangePassword => { row with mustChangePassword := source.mustChangePassword }
  | .mfaEnabled => { row with mfaEnabled := source.mfaEnabled }
  | .mfaSecret => { row with mfaSecret := source.mfaSecret }
  | .mfaPendingSecret => { row with mfaPendingSecret := source.mfaPendingSecret }
  | .mfaRecoveryCodes => { row with mfaRecoveryCodes := source.mfaRecoveryCodes }
  | .mfaPendingRecoveryCodes => { row with mfaPendingRecoveryCodes := source.mfaPendingRecoveryCodes }
  | .mfaLastTOTPCounter => { row with mfaLastTOTPCounter := source.mfaLastTOTPCounter }
  | .authProvider => { row with authProvider := source.authProvider }
  | .authProviderRef => { row with authProviderRef := source.authProviderRef }
  | .authIssuer => { row with authIssuer := source.authIssuer }
  | .displayName => { row with displayName := source.displayName }
  | .username => { row with username := source.username }

def UserColumn.agrees (a b : UserRow) (column : UserColumn) : Bool := column.copy a b = b

/-- The row with the selected columns of `source`. -/
def UserRow.withColumns (row source : UserRow) (fields : List UserColumn) : UserRow :=
  fields.foldl (fun row column => column.copy source row) row

/-- `update.guard` lists the columns that must still have the values of `expected`. -/
inductive UserOp
  | getByID (id : ℕ)
  | getByEmail (email : GoString)
  | getByProviderRef (provider : AuthProvider) (ref : GoString)
  | updateFieldsIf (id : ℕ) (user : UserRow) (guard : List UserColumn) (expected : UserRow) (fields : List UserColumn)
  | updateColumns (id : ℕ) (values : UserRow) (fields : List UserColumn)
  | updateLastLogin (id : ℕ) (time : Instant)
  | create (user : UserRow)
  | delete (id : ℕ)
  | countActiveAdmins (excludeUserID : ℕ)

@[reducible] def UserOp.Val : UserOp → Type
  | .getByID _ => ℕ × UserRow
  | .getByEmail _ => ℕ × UserRow
  | .getByProviderRef _ _ => ℕ × UserRow
  | .updateFieldsIf .. => Unit
  | .updateColumns .. => Unit
  | .updateLastLogin _ _ => Unit
  | .create _ => ℕ
  | .delete _ => Unit
  | .countActiveAdmins _ => ℕ

def orNotFound {α : Type} : Option α → Except StoreError α
  | some a => .ok a
  | none => .error .notFound

/-- The unique index on the e-mail refuses the new value for row `id`. -/
def emailTaken (users : Table UserRow) (id : ℕ) (email : GoString) : Bool :=
  (users.first fun id' row => id' ≠ id && row.email = email).isSome

/-- An `UPDATE` of row `id` in the selected columns. -/
def writeColumns (users : Table UserRow) (id : ℕ) (source : UserRow) (fields : List UserColumn) :
    Except StoreError Unit × Table UserRow :=
  if .email ∈ fields ∧ emailTaken users id source.email then (.error .failed, users)
  else (.ok (), users.update (fun id' _ => id' = id) fun row => row.withColumns source fields)

/-- What the service takes from its configuration and from other packages: SHA-256 in hex
(`hashToken`), the cipher of the stored secrets, the HOTP code of a counter, bcrypt, the `lower` of
the database, `strings.ToUpper`, and the random values of each call. -/
structure Env where
  hashToken : GoString → GoString
  decrypt : GoString → Option GoString
  hotp : (secret : GoString) → (counter : ℕ) → GoString
  bcryptMatches : (hash password : GoString) → Bool
  bcryptHash : (call : ℕ) → (password : GoString) → Option GoString
  sqlLower : GoString → GoString
  toUpper : GoString → GoString
  randomCode : (call draw : ℕ) → GoString
  refreshTokenTTL : ℤ
  fallbackOTPEnabled : Bool

section Tables

theorem orNotFound_ok {α : Type} {o : Option α} {a : α} (h : orNotFound o = .ok a) : o = some a := by
  cases o with
  | none => cases h
  | some b => cases h; rfl

theorem withColumns_apply {β : Type} (project : UserRow → β) (column : UserColumn)
    (hself : ∀ source row, project (column.copy source row) = project source)
    (hother : ∀ c, c ≠ column → ∀ source row, project (c.copy source row) = project row)
    (row source : UserRow) (fields : List UserColumn) :
    project (row.withColumns source fields) = if column ∈ fields then project source
      else project row := by
  induction fields generalizing row with
  | nil => rfl
  | cons c fields ih =>
    have hstep : row.withColumns source (c :: fields) = (c.copy source row).withColumns source fields := rfl
    rw [hstep, ih]
    by_cases hc : c = column
    · subst hc
      rw [hself, if_pos List.mem_cons_self, ite_self]
    · have hmem : column ∈ c :: fields ↔ column ∈ fields := List.mem_cons.trans (or_iff_right (Ne.symm hc))
      rw [hother c hc]
      simp only [hmem]

theorem withColumns_role (row source : UserRow) (fields : List UserColumn) :
    (row.withColumns source fields).role = if .role ∈ fields then source.role else row.role := by
  refine withColumns_apply UserRow.role .role (fun _ _ => rfl) (fun c hc source row => ?_) row source fields
  cases c with
  | role => exact absurd rfl hc
  | _ => rfl

theorem withColumns_active (row source : UserRow) (fields : List UserColumn) :
    (row.withColumns source fields).active = if .active ∈ fields then source.active else row.active := by
  refine withColumns_apply UserRow.active .active (fun _ _ => rfl) (fun c hc source row => ?_) row source fields
  cases c with
  | active => exact absurd rfl hc
  | _ => rfl

theorem writeColumns_ok {users : Table UserRow} {id : ℕ} {source : UserRow}
    {fields : List UserColumn} (h : (writeColumns users id source fields).1 = .ok ()) :
    (writeColumns users id source fields).2 = users.update (fun id' _ => id' = id) fun row =>
      row.withColumns source fields := by
  rw [writeColumns] at h ⊢
  split_ifs at h ⊢
  rfl

theorem writeColumns_cases (users : Table UserRow) (id : ℕ) (source : UserRow) (fields : List UserColumn) :
    (writeColumns users id source fields).2 = users ∨ (writeColumns users id source fields).1 = .ok () := by
  rw [writeColumns]
  split_ifs
  · exact Or.inl rfl
  · exact Or.inr rfl

variable [UnicodeTables] (env : Env)

def UserOp.exec (users : Table UserRow) : (op : UserOp) → Except StoreError op.Val × Table UserRow
  | .getByID id => (orNotFound ((users.get id).map (id, ·)), users)
  | .getByEmail email => (orNotFound (users.first fun _ row => env.sqlLower row.email = toLower email), users)
  | .getByProviderRef provider ref =>
    (orNotFound (users.first fun _ row => row.authProvider = provider && row.authProviderRef = trimSpace ref), users)
  | .updateFieldsIf id user guard expected fields =>
    if fields = [] then (.ok (), users)
    else
      match users.get id with
      | none => (.error (if guard = [] then .notFound else .stale), users)
      | some row =>
        if guard.all (UserColumn.agrees expected row) then writeColumns users id user fields
        else (.error .stale, users)
  | .updateColumns id values fields =>
    match users.get id with
    | none => (.ok (), users)
    | some _ => writeColumns users id values fields
  | .updateLastLogin id time =>
    (.ok (), users.update (fun id' _ => id' = id) fun row => { row with lastLoginAt := some time })
  | .create user =>
    if emailTaken users 0 user.email then (.error .failed, users) else (.ok users.nextID, users.insert user)
  | .delete id =>
    match users.get id with
    | none => (.error .notFound, users)
    | some _ => (.ok (), users.delete id)
  | .countActiveAdmins excludeUserID =>
    (.ok (users.count fun id row => row.role = .admin && row.active && id ≠ excludeUserID), users)

/-! ## Login tokens -/

/-- `IncrementAttempts` is two statements, `addAttempt` and `attempts`. -/
inductive TokenOp
  | create (item : LoginToken)
  | getValidTokenByScope (email token : GoString) (scope : TokenScope) (serviceID : Option ℕ)
  | getMagicLink (serviceID : ℕ) (token : GoString)
  | invalidateOutstandingByUserScope (userID : ℕ) (scope : TokenScope) (usedAt : Instant)
  | markUsed (id : ℕ) (usedAt : Instant)
  | addAttempt (id : ℕ)
  | attempts (id : ℕ)

@[reducible] def TokenOp.Val : TokenOp → Type
  | .create _ => ℕ
  | .getValidTokenByScope .. => ℕ × LoginToken
  | .getMagicLink _ _ => ℕ × LoginToken
  | .invalidateOutstandingByUserScope .. => Unit
  | .markUsed _ _ => Unit
  | .addAttempt _ => Unit
  | .attempts _ => ℕ

/-- The `WHERE` of `GetValidTokenByScope`. -/
def validTokenQuery (email token : GoString) (scope : TokenScope) (serviceID : Option ℕ) (item : LoginToken) : Bool :=
  item.scope = scope && item.token = env.hashToken (trimSpace token) &&
    (trimSpace email = [] || env.sqlLower item.email = toLower (trimSpace email)) && item.serviceID = serviceID

def magicLinkQuery (serviceID : ℕ) (token : GoString) (item : LoginToken) : Bool :=
  item.scope = .magicLink && item.serviceID = some serviceID && item.token = env.hashToken (trimSpace token)

def LoginToken.use (usedAt : Instant) (item : LoginToken) : LoginToken :=
  { item with usedAt := some usedAt }

def TokenOp.exec (tokens : Table LoginToken) : (op : TokenOp) → Except StoreError op.Val × Table LoginToken
  | .create item => (.ok tokens.nextID, tokens.insert item)
  | .getValidTokenByScope email token scope serviceID =>
    (orNotFound (tokens.last fun _ item => validTokenQuery env email token scope serviceID item), tokens)
  | .getMagicLink serviceID token =>
    (orNotFound (tokens.last fun _ item => magicLinkQuery env serviceID token item), tokens)
  | .invalidateOutstandingByUserScope userID scope usedAt =>
    (.ok (), tokens.update (fun _ item => item.userID = some userID && item.scope = scope && item.usedAt = none)
      (LoginToken.use usedAt))
  | .markUsed id usedAt =>
    match tokens.get id with
    | none => (.error .alreadyUsed, tokens)
    | some item =>
      if item.usedAt = none then (.ok (), tokens.update (fun id' _ => id' = id) (LoginToken.use usedAt))
      else (.error .alreadyUsed, tokens)
  | .addAttempt id =>
    (.ok (), tokens.update (fun id' _ => id' = id) fun item => { item with attemptCount := item.attemptCount + 1 })
  | .attempts id => (orNotFound ((tokens.get id).map LoginToken.attemptCount), tokens)

/-! ## Sessions -/

inductive SessionOp
  | create (item : SessionRow)
  | getByRefreshHash (refreshHash : GoString)
  | getByID (id : ℕ)
  | getByTokenID (tokenID : GoString)
  | rotate (id : ℕ) (item : SessionRow) (previousRefreshHash : GoString)
  | touch (id : ℕ) (time : Instant)
  | markBootstrapDismissed (id : ℕ)
  | revoke (id : ℕ) (revokedAt : Instant)
  | revokeByUser (userID : ℕ) (revokedAt : Instant)
  | revokeByUserExcept (userID exceptSessionID : ℕ) (revokedAt : Instant)

@[reducible] def SessionOp.Val : SessionOp → Type
  | .create _ => ℕ
  | .getByRefreshHash _ => ℕ × SessionRow
  | .getByID _ => ℕ × SessionRow
  | .getByTokenID _ => ℕ × SessionRow
  | .rotate .. => Unit
  | .touch _ _ => Unit
  | .markBootstrapDismissed _ => Unit
  | .revoke _ _ => Unit
  | .revokeByUser _ _ => Unit
  | .revokeByUserExcept .. => Unit

/-- The unique indexes on the token id and the refresh hash refuse the values for row `id`. -/
def sessionKeysTaken (sessions : Table SessionRow) (id : ℕ) (item : SessionRow) : Bool :=
  (sessions.first fun id' row =>
    id' ≠ id && (row.tokenID = item.tokenID || row.refreshTokenHash = item.refreshTokenHash)).isSome

/-- The columns that `Rotate` sets. -/
def SessionRow.rotated (item row : SessionRow) : SessionRow :=
  { row with
    tokenID := item.tokenID
    refreshTokenHash := item.refreshTokenHash
    userAgent := item.userAgent
    remoteAddr := item.remoteAddr
    lastSeenAt := item.lastSeenAt
    expiresAt := item.expiresAt }

/-- An `UPDATE` of row `id` that must find it and finds it only if `p` holds. -/
def updateSession (sessions : Table SessionRow) (id : ℕ) (p : SessionRow → Bool) (f : SessionRow → SessionRow) :
    Except StoreError Unit × Table SessionRow :=
  match sessions.get id with
  | none => (.error .notFound, sessions)
  | some row =>
    if p row then (.ok (), sessions.update (fun id' _ => id' = id) f) else (.error .notFound, sessions)

def SessionRow.revoke (revokedAt : Instant) (row : SessionRow) : SessionRow :=
  { row with revokedAt := some revokedAt }

def SessionRow.isLive (row : SessionRow) : Bool := row.revokedAt = none

def SessionOp.exec (sessions : Table SessionRow) : (op : SessionOp) → Except StoreError op.Val × Table SessionRow
  | .create item =>
    if sessionKeysTaken sessions 0 item then (.error .failed, sessions) else (.ok sessions.nextID, sessions.insert item)
  | .getByRefreshHash refreshHash =>
    (orNotFound (sessions.first fun _ row => row.refreshTokenHash = refreshHash), sessions)
  | .getByID id => (orNotFound ((sessions.get id).map (id, ·)), sessions)
  | .getByTokenID tokenID => (orNotFound (sessions.first fun _ row => row.tokenID = tokenID), sessions)
  | .rotate id item previousRefreshHash =>
    match sessions.get id with
    | none => (.error .notFound, sessions)
    | some row =>
      if row.isLive && row.refreshTokenHash = previousRefreshHash then
        if sessionKeysTaken sessions id item then (.error .failed, sessions)
        else (.ok (), sessions.update (fun id' _ => id' = id) (SessionRow.rotated item))
      else (.error .notFound, sessions)
  | .touch id time => updateSession sessions id SessionRow.isLive fun row => { row with lastSeenAt := some time }
  | .markBootstrapDismissed id =>
    updateSession sessions id (fun _ => true) fun row => { row with bootstrapDismissed := true }
  | .revoke id revokedAt => updateSession sessions id SessionRow.isLive (SessionRow.revoke revokedAt)
  | .revokeByUser userID revokedAt =>
    (.ok (), sessions.update (fun _ row => row.userID = userID && row.isLive) (SessionRow.revoke revokedAt))
  | .revokeByUserExcept userID exceptSessionID revokedAt =>
    (.ok (), sessions.update
      (fun id row => row.userID = userID && row.isLive && (exceptSessionID = 0 || id ≠ exceptSessionID))
      (SessionRow.revoke revokedAt))

/-! ## Second factors -/

/-- `uint64(t.Unix() / 30)`; the division of integers truncates. -/
def totpCounter (t : Instant) : ℕ := ((t.unix.tdiv 30) % 2 ^ 64).toNat

/-- The step of `now` or the one before it, if the code is that step's. -/
def validateTOTP (secret code : GoString) (now : Instant) : Option ℕ :=
  if env.hotp secret (totpCounter now) = code then some (totpCounter now)
  else
    let earlier : Instant := now - 30 * 1000000000
    if env.hotp secret (totpCounter earlier) = code then some (totpCounter earlier) else none

def decryptSecret (value : GoString) : Option GoString := if trimSpace value = [] then some [] else env.decrypt value

def subtleEqualHash (left right : GoString) : Bool := trimSpace left = trimSpace right

/-- What a code was accepted as: the code of a time step, or the recovery code with this stored
hash. -/
inductive Factor
  | totp (counter : ℕ)
  | recovery (hash : GoString)
deriving DecidableEq

/-- The results of `verifyMFAFactor`: `factor` is set if the code is right, `counter` is the new
`MFALastTOTPCounter`. -/
structure Verdict where
  factor : Option Factor
  remaining : List GoString
  counter : ℕ

def Verdict.refused (user : UserRow) : Verdict :=
  ⟨none, user.mfaRecoveryCodes, user.mfaLastTOTPCounter⟩

def recoveryVerdict (user : UserRow) (code : GoString) : Verdict :=
  let matching := fun item => subtleEqualHash item (env.hashToken code)
  ⟨(user.mfaRecoveryCodes.find? matching).map .recovery, user.mfaRecoveryCodes.eraseP matching, user.mfaLastTOTPCounter⟩

def verifyMFAFactor (user : UserRow) (code : GoString) (now : Instant) : Verdict :=
  let code := env.toUpper (trimSpace code)
  if code = [] then .refused user
  else
    match decryptSecret env user.mfaSecret with
    | none => recoveryVerdict env user code
    | some secret =>
      if secret = [] then recoveryVerdict env user code
      else
        match validateTOTP env secret code now with
        | none => recoveryVerdict env user code
        | some counter =>
          if counter ≤ user.mfaLastTOTPCounter then .refused user
          else ⟨some (.totp counter), user.mfaRecoveryCodes, counter⟩

/-! ## All statements -/

/-- `verifyMFAFactor` and `validateTOTP` read the clock, so they are steps of their own; `id` says
whose code is checked. `tick` is no statement of a call but time that passes. -/
inductive Op
  | now
  | tick (d : ℕ)
  | isRateLimited (key : GoString)
  | cachedAuthResult
  | groupIDs (userID : ℕ)
  | settings
  | hasPasskey (userID : ℕ)
  | verifyMFAFactor (id : ℕ) (user : UserRow) (code : GoString)
  | validateTOTP (id : ℕ) (secret code : GoString)
  | users (op : UserOp)
  | loginTokens (op : TokenOp)
  | sessions (op : SessionOp)

@[reducible] def Ans : Op → Type
  | .now => Instant
  | .tick _ => Unit
  | .isRateLimited _ => Bool
  | .cachedAuthResult => Option (User × List ℕ)
  | .groupIDs _ => Except StoreError (List ℕ)
  | .settings => Option AppSettings
  | .hasPasskey _ => Bool
  | .verifyMFAFactor .. => Verdict
  | .validateTOTP .. => Option ℕ
  | .users op => Except StoreError op.Val
  | .loginTokens op => Except StoreError op.Val
  | .sessions op => Except StoreError op.Val

structure Store where
  users : Table UserRow
  loginTokens : Table LoginToken
  sessions : Table SessionRow
  appSettings : AppSettings
  groups : ℕ → List ℕ
  passkeys : ℕ → Bool
  clock : Instant

/-- What is left to chance: whether a statement fails, what the limiter says, and what the caches
hold. -/
structure Chance where
  ok : Bool
  limited : Bool
  cached : Option (User × List ℕ)

def orFailed {α β : Type} (ok : Bool) (state : β) (result : Except StoreError α × β) : Except StoreError α × β :=
  if ok then result else (.error .failed, state)

def Op.exec : Semantics Ans Store Chance
  | .now, _, s => (s.clock, s)
  | .tick d, _, s => ((), { s with clock := s.clock + d })
  | .isRateLimited _, i, s => (i.limited, s)
  | .cachedAuthResult, i, s => (i.cached, s)
  | .groupIDs userID, i, s => (if i.ok then .ok (s.groups userID) else .error .failed, s)
  | .settings, i, s => (if i.ok then some s.appSettings else none, s)
  | .hasPasskey userID, i, s => (i.ok && s.passkeys userID, s)
  | .verifyMFAFactor _ user code, _, s => (Auth.verifyMFAFactor env user code s.clock, s)
  | .validateTOTP _ secret code, _, s => (Auth.validateTOTP env secret code s.clock, s)
  | .users op, i, s =>
    let result := orFailed i.ok s.users (op.exec env s.users)
    (result.1, { s with users := result.2 })
  | .loginTokens op, i, s =>
    let result := orFailed i.ok s.loginTokens (op.exec env s.loginTokens)
    (result.1, { s with loginTokens := result.2 })
  | .sessions op, i, s =>
    let result := orFailed i.ok s.sessions (op.exec s.sessions)
    (result.1, { s with sessions := result.2 })

variable {env}

/-! ## Which table a statement changes -/

theorem loginTokens_frame {op : Op} (h : ∀ top, op ≠ .loginTokens top) (i : Chance) (s : Store) :
    (Op.exec env op i s).2.loginTokens = s.loginTokens := by
  cases op with
  | loginTokens top => exact absurd rfl (h top)
  | _ => rfl

theorem sessions_frame {op : Op} (h : ∀ sop, op ≠ .sessions sop) (i : Chance) (s : Store) :
    (Op.exec env op i s).2.sessions = s.sessions := by
  cases op with
  | sessions sop => exact absurd rfl (h sop)
  | _ => rfl

theorem users_frame {op : Op} (h : ∀ uop, op ≠ .users uop) (i : Chance) (s : Store) :
    (Op.exec env op i s).2.users = s.users := by
  cases op with
  | users uop => exact absurd rfl (h uop)
  | _ => rfl

theorem clock_le_exec (op : Op) (i : Chance) (s : Store) : s.clock ≤ (Op.exec env op i s).2.clock := by
  cases op with
  | tick d => exact Int.le_add_of_nonneg_right (Int.natCast_nonneg d)
  | _ => exact Int.le_refl _

/-! ## What a statement does to the users -/

theorem updateFieldsIf_cases (env : Env) (users : Table UserRow) (id : ℕ) (user expected : UserRow)
    (guard fields : List UserColumn) :
    ((UserOp.updateFieldsIf id user guard expected fields).exec env users).2 = users ∨
      ∃ row, users.get id = some row ∧ guard.all (UserColumn.agrees expected row) = true ∧
        (UserOp.updateFieldsIf id user guard expected fields).exec env users =
          (.ok (), users.update (fun id' _ => id' = id) fun row =>
            row.withColumns user fields) := by
  rw [UserOp.exec]
  by_cases hfields : fields = []
  · rw [if_pos hfields]
    exact Or.inl rfl
  · rw [if_neg hfields]
    split
    · exact Or.inl rfl
    · rename_i row hget
      split_ifs with hguard
      · rcases writeColumns_cases users id user fields with hsame | hok
        · exact Or.inl hsame
        · exact Or.inr ⟨row, hget, hguard, Prod.ext hok (writeColumns_ok hok)⟩
      · exact Or.inl rfl

def UserOp.written : UserOp → Option (ℕ × UserRow × List UserColumn)
  | .updateFieldsIf id user _ _ fields => some (id, user, fields)
  | .updateColumns id values fields => some (id, values, fields)
  | _ => none

theorem users_cases (env : Env) (op : Op) (i : Chance) (s : Store) :
    (Op.exec env op i s).2.users = s.users ∨
    (∃ id time, (Op.exec env op i s).2.users =
      s.users.update (fun id' _ => id' = id) fun row => { row with lastLoginAt := some time }) ∨
    (∃ uop id source fields row, op = .users uop ∧ uop.written = some (id, source, fields) ∧ s.users.get id = some row ∧
      (Op.exec env op i s).2.users = s.users.update (fun id' _ => id' = id) fun row => row.withColumns source fields) ∨
    (∃ user, op = .users (.create user) ∧ (Op.exec env op i s).2.users = s.users.insert user) ∨
    ∃ id, op = .users (.delete id) ∧ (Op.exec env op i s).2.users = s.users.delete id := by
  by_cases hop : ∃ uop, op = .users uop
  · obtain ⟨uop, rfl⟩ := hop
    have hexec : (Op.exec env (.users uop) i s).2.users = (orFailed i.ok s.users (uop.exec env s.users)).2 := rfl
    cases hok : i.ok with
    | false =>
      rw [hok] at hexec
      exact Or.inl hexec
    | true =>
      rw [hok] at hexec
      rw [hexec]
      cases uop with
      | updateFieldsIf id user guard expected fields =>
        rcases updateFieldsIf_cases env s.users id user expected guard fields with hsame | ⟨row, hget, -, hexec⟩
        · exact Or.inl hsame
        · exact Or.inr (Or.inr (Or.inl ⟨_, id, user, fields, row, rfl, rfl, hget, congrArg Prod.snd hexec⟩))
      | updateColumns id values fields =>
        cases hget : s.users.get id with
        | none =>
          refine Or.inl ?_
          rw [orFailed, if_pos rfl, UserOp.exec, hget]
        | some row =>
          have hwrite : (UserOp.exec env s.users (.updateColumns id values fields)) =
            writeColumns s.users id values fields := by
            rw [UserOp.exec, hget]
          rw [orFailed, hwrite]
          rcases writeColumns_cases s.users id values fields with hsame | hok
          · exact Or.inl hsame
          · exact Or.inr (Or.inr (Or.inl ⟨_, id, values, fields, row, rfl, rfl, hget, writeColumns_ok hok⟩))
      | updateLastLogin id time => exact Or.inr (Or.inl ⟨id, time, rfl⟩)
      | create user =>
        rw [orFailed, if_pos rfl, UserOp.exec]
        split_ifs
        · exact Or.inl rfl
        · exact Or.inr (Or.inr (Or.inr (Or.inl ⟨user, rfl, rfl⟩)))
      | delete id =>
        cases hget : s.users.get id with
        | none =>
          refine Or.inl ?_
          rw [orFailed, if_pos rfl, UserOp.exec, hget]
        | some row =>
          refine Or.inr (Or.inr (Or.inr (Or.inr ⟨id, rfl, ?_⟩)))
          rw [orFailed, if_pos rfl, UserOp.exec, hget]
      | _ => exact Or.inl rfl
  · exact Or.inl (users_frame (fun uop heq => hop ⟨uop, heq⟩) i s)

/-! ## Statements that succeed -/

abbrev AuthWorld := World Ans Store

theorem users_ok {w : AuthWorld} {op : UserOp} {i : Chance} {v : op.Val}
    (h : w.answer (Op.exec env) (.users op) i = (.ok v : Except StoreError op.Val)) :
    (op.exec env w.store.users).1 = .ok v ∧
      ∀ t, (w.step (Op.exec env) t (.users op) i).store.users = (op.exec env w.store.users).2 := by
  have hans : (orFailed i.ok w.store.users (op.exec env w.store.users)).1 = .ok v := h
  have hstep : ∀ t, (w.step (Op.exec env) t (.users op) i).store.users =
    (orFailed i.ok w.store.users (op.exec env w.store.users)).2 := fun _ => rfl
  cases hok : i.ok with
  | false =>
    rw [hok] at hans
    cases hans
  | true =>
    rw [hok] at hans hstep
    exact ⟨hans, hstep⟩

theorem loginTokens_ok {w : AuthWorld} {op : TokenOp} {i : Chance} {v : op.Val}
    (h : w.answer (Op.exec env) (.loginTokens op) i = (.ok v : Except StoreError op.Val)) :
    (op.exec env w.store.loginTokens).1 = .ok v ∧
      ∀ t, (w.step (Op.exec env) t (.loginTokens op) i).store.loginTokens = (op.exec env w.store.loginTokens).2 := by
  have hans : (orFailed i.ok w.store.loginTokens (op.exec env w.store.loginTokens)).1 = .ok v := h
  have hstep : ∀ t, (w.step (Op.exec env) t (.loginTokens op) i).store.loginTokens =
    (orFailed i.ok w.store.loginTokens (op.exec env w.store.loginTokens)).2 := fun _ => rfl
  cases hok : i.ok with
  | false =>
    rw [hok] at hans
    cases hans
  | true =>
    rw [hok] at hans hstep
    exact ⟨hans, hstep⟩

theorem sessions_ok {w : AuthWorld} {op : SessionOp} {i : Chance} {v : op.Val}
    (h : w.answer (Op.exec env) (.sessions op) i = (.ok v : Except StoreError op.Val)) :
    (op.exec w.store.sessions).1 = .ok v ∧
      ∀ t, (w.step (Op.exec env) t (.sessions op) i).store.sessions = (op.exec w.store.sessions).2 := by
  have hans : (orFailed i.ok w.store.sessions (op.exec w.store.sessions)).1 = .ok v := h
  have hstep : ∀ t, (w.step (Op.exec env) t (.sessions op) i).store.sessions =
    (orFailed i.ok w.store.sessions (op.exec w.store.sessions)).2 := fun _ => rfl
  cases hok : i.ok with
  | false =>
    rw [hok] at hans
    cases hans
  | true =>
    rw [hok] at hans hstep
    exact ⟨hans, hstep⟩

end Tables
end Portlyn.Auth
