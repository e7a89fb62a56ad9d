import Portlyn.Auth.Calls

/-! # What a call may do next

`Law` says which statement may follow what a call has done: a user is only updated on the ground of
a row that was read and a code that was checked, a challenge is only stored after the older ones
were used up, a session is stored under the call's own random values. `Outcome` says what a call
that succeeded has done. Every call obeys, whatever the stores answer (`callOf_obeys`); the
properties of runs rest on this and not on another look at the calls. -/
namespace Portlyn.Auth
open Go Domain Lib Lib.Interleave
set_option autoImplicit false

abbrev History := List (Entry Ans)

theorem ofError {ε α : Type} {e : ε} {P : α → Prop} (a : α) (h : (.error e : Except ε α) = .ok a) : P a := by cases h

/-! ## Kinds of statements -/

def Op.isCheck : Op → Bool
  | .verifyMFAFactor .. => true
  | .validateTOTP .. => true
  | _ => false

/-- `UpdateFields` and `UpdateFieldsIf`. -/
def Op.isUpdate : Op → Bool
  | .users (.updateFieldsIf ..) => true
  | _ => false

def Op.storesSession : Op → Bool
  | .sessions (.create _) => true
  | .sessions (.rotate ..) => true
  | _ => false

def Op.isSilent : Op → Bool
  | .verifyMFAFactor .. => false
  | .validateTOTP .. => false
  | .users (.updateFieldsIf ..) => false
  | _ => true

def Op.isQuiet : Op → Bool
  | .verifyMFAFactor .. => false
  | .validateTOTP .. => false
  | .users (.updateFieldsIf ..) => false
  | .users (.updateColumns ..) => false
  | .users (.create _) => false
  | .users (.delete _) => false
  | .loginTokens (.create _) => false
  | .loginTokens (.addAttempt _) => false
  | .sessions (.create _) => false
  | .sessions (.rotate ..) => false
  | _ => true

def Never (kind : Op → Bool) (own : History) : Prop := ∀ e ∈ own, kind e.op = false

variable {own : History} {e : Entry Ans}

theorem Never.cons {kind : Op → Bool} (h : Never kind own) (he : kind e.op = false) :
    Never kind (e :: own) := List.forall_mem_cons.mpr ⟨he, h⟩

theorem never_nil {kind : Op → Bool} : Never kind [] := List.forall_mem_nil _

section History
variable (t : ℕ) (own : History)

/-! ## What a call has done -/

def ReadUser (id : ℕ) (row : UserRow) : Prop :=
  ∃ k, (⟨t, .users (.getByID k), .ok (id, row)⟩ : Entry Ans) ∈ own

def Verified (id : ℕ) (row : UserRow) (code : GoString) (verdict : Verdict) : Prop :=
  (⟨t, .verifyMFAFactor id row code, verdict⟩ : Entry Ans) ∈ own

def Validated (id : ℕ) (secret code : GoString) (counter : ℕ) : Prop :=
  (⟨t, .validateTOTP id secret code, some counter⟩ : Entry Ans) ∈ own

def FoundChallenge (id : ℕ) (item : LoginToken) : Prop :=
  ∃ token, (⟨t, .loginTokens (.getValidTokenByScope [] token .mfaLogin none), .ok (id, item)⟩ : Entry Ans) ∈ own

def FoundRefresh (hash : GoString) (id : ℕ) (session : SessionRow) : Prop :=
  (⟨t, .sessions (.getByRefreshHash hash), .ok (id, session)⟩ : Entry Ans) ∈ own

def ReadLive (tokenID : GoString) : Prop :=
  ∃ id row, (⟨t, .sessions (.getByTokenID tokenID), .ok (id, row)⟩ : Entry Ans) ∈ own ∧ row.revokedAt = none

def ReadHostLive (sessionID : ℕ) : Prop :=
  ∃ id row, (⟨t, .sessions (.getByID sessionID), .ok (id, row)⟩ : Entry Ans) ∈ own ∧ row.revokedAt = none

def Created (id : ℕ) (session : SessionRow) : Prop :=
  (⟨t, .sessions (.create session), .ok id⟩ : Entry Ans) ∈ own

def Rotated (id : ℕ) (session : SessionRow) : Prop :=
  ∃ previous, (⟨t, .sessions (.rotate id session previous), .ok ()⟩ : Entry Ans) ∈ own

/-- The update took effect, or it came too late and was the one of `DisableMFA`, which takes that
for success. -/
def Updated : Prop :=
  ∃ id user guard expected fields,
    (⟨t, .users (.updateFieldsIf id user guard expected fields), .ok ()⟩ : Entry Ans) ∈ own ∨
    guard = [.mfaSecret, .mfaEnabled] ∧
      (⟨t, .users (.updateFieldsIf id user guard expected fields), .error .stale⟩ : Entry Ans) ∈ own

end History

def Verdict.Spends (verdict : Verdict) (row : UserRow) : Prop :=
  verdict.remaining.length ≠ row.mfaRecoveryCodes.length ∨ verdict.counter ≠ row.mfaLastTOTPCounter

/-! ## The law -/

section Laws
variable (env : Env) (t : ℕ) (own : History)

/-- The updates of a user row that was read as `row`: what is written, which columns must still have
the values of which row, and which columns are set. -/
inductive Change (id : ℕ) (row : UserRow) : UserRow → List UserColumn → UserRow → List UserColumn → Prop
  | completeMFA {code : GoString} {verdict : Verdict} {factor : Factor} (verified : Verified t own id row code verdict)
    (accepted : verdict.factor = some factor) :
    Change id row { row with mfaLastTOTPCounter := verdict.counter, mfaRecoveryCodes := verdict.remaining }
      mfaGuard { row with mfaEnabled := true } [.mfaRecoveryCodes, .mfaLastTOTPCounter]
  | regenerate {code : GoString} {verdict : Verdict} {factor : Factor} (verified : Verified t own id row code verdict)
    (accepted : verdict.factor = some factor) :
    Change id row
      { row with
        mfaLastTOTPCounter := verdict.counter
        mfaRecoveryCodes := (env.generateRecoveryCodes t).map env.hashToken }
      mfaGuard { row with mfaEnabled := true } [.mfaRecoveryCodes, .mfaLastTOTPCounter]
  | disable {code : GoString} {verdict : Verdict} {factor : Factor} (verified : Verified t own id row code verdict)
    (accepted : verdict.factor = some factor) (enabled : row.mfaEnabled = true) :
    Change id row
      { row with
        mfaLastTOTPCounter := verdict.counter
        mfaEnabled := false
        mfaSecret := []
        mfaPendingSecret := []
        mfaRecoveryCodes := verdict.remaining
        mfaPendingRecoveryCodes := [] }
      [.mfaSecret, .mfaEnabled] { row with mfaEnabled := true } mfaColumns
  | enable {secret code : GoString} {counter : ℕ} (decrypted : decryptSecret env row.mfaPendingSecret = some secret)
    (nonempty : secret ≠ []) (validated : Validated t own id secret code counter) :
    Change id row
      { row with
        mfaLastTOTPCounter := counter
        mfaEnabled := true
        mfaSecret := row.mfaPendingSecret
        mfaPendingSecret := []
        mfaRecoveryCodes := row.mfaPendingRecoveryCodes
        mfaPendingRecoveryCodes := [] }
      [.mfaPendingSecret] row mfaColumns
  | accountSetup (email hash : GoString) (unchecked : Never Op.isCheck own) :
    Change id row { row with email := email, passwordHash := hash, mustChangePassword := false }
      [.mustChangePassword] { row with mustChangePassword := true } [.email, .passwordHash, .mustChangePassword]
  | password (hash : GoString) (unchecked : Never Op.isCheck own) :
    Change id row { row with passwordHash := hash, mustChangePassword := false } [.passwordHash] row
      [.passwordHash, .mustChangePassword]

def Law : Op → Prop
  | .verifyMFAFactor id row _ =>
    ReadUser t own id row ∧ Never Op.isCheck own ∧ Never Op.isUpdate own ∧
      ∀ id item, FoundChallenge t own id item → item.attemptCount < maxMFAAttempts
  | .validateTOTP .. => Never Op.isCheck own ∧ Never Op.isUpdate own
  | .users (.updateFieldsIf id user guard expected fields) =>
    Never Op.isUpdate own ∧ ∃ row, ReadUser t own id row ∧ Change env t own id row user guard expected fields
  | .users (.updateColumns ..) => False
  | .users (.create _) => False
  | .users (.delete _) => False
  | .loginTokens (.create item) =>
    ∃ userID now, item.userID = some userID ∧ item.scope = .mfaLogin ∧
      (⟨t, .loginTokens (.invalidateOutstandingByUserScope userID .mfaLogin now), .ok ()⟩ : Entry Ans) ∈ own
  | .loginTokens (.addAttempt id) => ∃ item, FoundChallenge t own id item
  | .sessions (.create item) =>
    Never Op.storesSession own ∧ item.tokenID = env.newTokenID t ∧
      item.refreshTokenHash = env.hashToken (env.newRefreshToken t) ∧ item.revokedAt = none
  | .sessions (.rotate id item previous) =>
    Never Op.storesSession own ∧ item.tokenID = env.newTokenID t ∧
      item.refreshTokenHash = env.hashToken (env.newRefreshToken t) ∧
      ∃ hash session, FoundRefresh t own hash id session ∧ session.revokedAt = none ∧
      previous = session.refreshTokenHash
  | _ => True

theorem law_of_quiet {op : Op} (h : op.isQuiet = true) : Law env t own op := by
  cases op with
  | verifyMFAFactor id row code => trivial
  | validateTOTP id secret code => trivial
  | users op => cases op <;> trivial
  | loginTokens op => cases op <;> trivial
  | sessions op => cases op <;> trivial
  | _ => trivial

/-! ## Outcomes -/

def Settled : Prop :=
  (∀ id row code verdict factor, Verified t own id row code verdict → verdict.factor = some factor →
    verdict.Spends row →
    Updated t own) ∧
  ∀ id secret code counter, Validated t own id secret code counter → Updated t own

def Issues : LoginResult → Prop
  | .session claims refreshToken _ session _ =>
    claims.tokenID = env.newTokenID t ∧ refreshToken = env.newRefreshToken t ∧
      (Created t own claims.sessionID session ∨ Rotated t own claims.sessionID session)
  | .mfaRequired .. => True

/-- The statement that ends the sessions of a user but `current`. -/
def endingOp (userID : ℕ) (now : Instant) : Option ℕ → SessionOp
  | some sessionID => .revokeByUserExcept userID sessionID now
  | none => .revokeByUser userID now

/-- After the user was read and updated, its sessions but `current` were ended, or it was tried. -/
def EndsSessions (userID : ℕ) (current : Option ℕ) : Prop :=
  ∃ id row now answer later earlier user guard expected fields,
    (⟨t, .users (.getByID userID), .ok (id, row)⟩ : Entry Ans) ∈ earlier ∧
    (⟨t, .users (.updateFieldsIf id user guard expected fields), .ok ()⟩ : Entry Ans) ∈ earlier ∧
    own = later ++ ⟨t, .sessions (endingOp id now current), answer⟩ :: earlier

/-- What the call has done if it succeeds with `reply`. -/
def Ended : ServiceRequest → Reply → Prop
  | .refreshSession token _, reply =>
    ∃ id session item userID user, FoundRefresh t own (env.hashToken token) id session ∧ session.revokedAt = none ∧
      (⟨t, .sessions (.rotate id item session.refreshTokenHash), .ok ()⟩ : Entry Ans) ∈ own ∧
      reply = .login (.session ⟨userID, id, env.newTokenID t⟩ (env.newRefreshToken t) user item false)
  | .authenticateAccessToken claims, _ =>
    claims.sessionID = 0 ∨ ReadLive t own claims.tokenID
  | .authenticateHostSessionToken claims, _ =>
    ReadHostLive t own claims.sessionID
  | .revokeSession _ sessionID, _ => ∃ now, (⟨t, .sessions (.revoke sessionID now), .ok ()⟩ : Entry Ans) ∈ own
  | .revokeAllUserSessions userID, _ => ∃ now, (⟨t, .sessions (.revokeByUser userID now), .ok ()⟩ : Entry Ans) ∈ own
  | .revokeOtherUserSessions userID keepSessionID, _ =>
    ∃ now, (⟨t, .sessions (.revokeByUserExcept userID keepSessionID now), .ok ()⟩ : Entry Ans) ∈ own
  | .changeOwnPassword userID _ _ current, _ => EndsSessions t own userID current
  | .enableTOTP userID _ current, _ => EndsSessions t own userID current
  | _, _ => True

def Outcome (request : ServiceRequest) (result : Except CallError Reply) : Prop :=
  ∀ reply, result = .ok reply →
    Settled t own ∧ (∀ login, reply = .login login → Issues env t own login) ∧ Ended env t own request reply

end Laws

/-! ## Longer histories -/

def Extends (own own' : History) : Prop := ∃ more, own' = more ++ own ∧ ∀ e ∈ more, e.op.isSilent = true

theorem Extends.refl (own : History) : Extends own own := ⟨[], rfl, List.forall_mem_nil _⟩

variable {own' : History}

theorem Extends.cons (h : Extends (e :: own) own') (he : e.op.isSilent = true) :
    Extends own own' := by
  obtain ⟨more, rfl, hmore⟩ := h
  refine ⟨more ++ [e], by rw [List.append_assoc, List.singleton_append], fun e' he' => ?_⟩
  rcases List.mem_append.mp he' with he' | he'
  · exact hmore e' he'
  · rw [List.mem_singleton.mp he']
    exact he

theorem Extends.trans {a b c : History} (h : Extends a b) (h' : Extends b c) : Extends a c := by
  obtain ⟨more, rfl, hmore⟩ := h
  obtain ⟨more', rfl, hmore'⟩ := h'
  refine ⟨more' ++ more, (List.append_assoc ..).symm, fun e he => ?_⟩
  rcases List.mem_append.mp he with he | he
  · exact hmore' e he
  · exact hmore e he

theorem Extends.mem (h : Extends own own') (he : e ∈ own) : e ∈ own' := by
  obtain ⟨more, rfl, -⟩ := h
  exact List.mem_append_right more he

theorem Extends.mem_of_not_silent (h : Extends own own') (he : e ∈ own')
    (hop : e.op.isSilent = false) : e ∈ own := by
  obtain ⟨more, rfl, hmore⟩ := h
  rcases List.mem_append.mp he with he | he
  · rw [hmore e he] at hop
    cases hop
  · exact he

theorem silent_of_quiet {op : Op} (h : op.isQuiet = true) : op.isSilent = true := by
  cases op with
  | users op => cases op <;> trivial
  | _ => trivial

section Laws
variable {env : Env} {t : ℕ} {own own' : History}

theorem Settled.of_silent (h : ∀ e ∈ own, e.op.isSilent = true) : Settled t own :=
  ⟨fun _ _ _ _ _ hv => absurd (h _ hv) Bool.false_ne_true, fun _ _ _ _ hv => absurd (h _ hv) Bool.false_ne_true⟩

theorem Settled.of_updated (h : Updated t own) : Settled t own :=
  ⟨fun _ _ _ _ _ _ _ _ => h, fun _ _ _ _ _ => h⟩

theorem settled_update {id : ℕ} {user expected : UserRow} {guard fields : List UserColumn} :
    Settled t (⟨t, .users (.updateFieldsIf id user guard expected fields), .ok ()⟩ :: own) :=
  .of_updated ⟨id, user, guard, expected, fields, Or.inl List.mem_cons_self⟩

theorem Updated.extends (h : Updated t own) (hext : Extends own own') : Updated t own' := by
  obtain ⟨id, user, guard, expected, fields, h⟩ := h
  exact ⟨id, user, guard, expected, fields, h.imp (fun h => hext.mem h) fun h => ⟨h.1, hext.mem h.2⟩⟩

theorem Settled.extends (h : Settled t own) (hext : Extends own own') : Settled t own' where
  left := fun id row code verdict factor hv hf hs =>
    (h.1 id row code verdict factor (hext.mem_of_not_silent hv rfl) hf hs).extends hext
  right := fun id secret code counter hv => (h.2 id secret code counter (hext.mem_of_not_silent hv rfl)).extends hext

theorem obeys_quiet {α : Type} {p : Call α} (hp : p.All fun op => op.isQuiet = true) :
    p.Obeys t (Law env t) (fun own' _ => Extends own own') own := by
  refine (obeys_of_all (fun own op (hop : op.isQuiet = true) => law_of_quiet env t own hop) hp).imp ?_
  rintro own' _ ⟨more, rfl, hmore⟩
  exact ⟨more, rfl, fun e he => silent_of_quiet (hmore e he)⟩

/-! ## Quiet parts -/

theorem quiet_bootstrapRequired (userID : ℕ) (user : UserRow) :
    (bootstrapRequiredCall userID user).All fun op => op.isQuiet = true := by
  refine all_ite trivial (all_ite trivial (all_ite trivial (all_op rfl fun settings => ?_)))
  cases settings with
  | none => trivial
  | some settings => exact all_ite (all_op rfl fun _ => trivial) trivial

theorem quiet_mfaStatusForUser (userID : ℕ) : (mfaStatusForUser userID).All fun op => op.isQuiet = true := by
  refine all_op rfl fun user => ?_
  cases user with
  | error e => trivial
  | ok user => exact all_op rfl fun _ => trivial

/-! ## Logins -/

theorem obeys_createSession (hown : Never Op.storesSession own) (userID : ℕ) (metadata : RequestMetadata) :
    (createSession env t userID metadata).Obeys t (Law env t)
      (fun own' result => Extends own own' ∧ ∀ created, result = .ok created →
        Created t own' created.1 created.2.1 ∧ created.2.1.tokenID = env.newTokenID t ∧
          created.2.2 = env.newRefreshToken t) own := by
  refine obeys_op trivial fun now => obeys_op ⟨?_, rfl, rfl, rfl⟩ fun stored => ?_
  · exact hown.cons rfl
  · obtain _ | id := stored
    · exact ⟨((Extends.refl _).cons rfl).cons rfl, ofError⟩
    refine ⟨((Extends.refl _).cons rfl).cons rfl, fun created h => ?_⟩
    cases h
    exact ⟨List.mem_cons_self, rfl, rfl⟩

theorem obeys_completeSuccessfulLogin (hown : Never Op.storesSession own) (userID : ℕ) (user : UserRow)
    (metadata : RequestMetadata) :
    (completeSuccessfulLogin env t userID user metadata).Obeys t (Law env t)
      (fun own' result => Extends own own' ∧ ∀ login, result = .ok login → Issues env t own' login) own := by
  refine obeys_op trivial fun now => obeys_op trivial fun saved => ?_
  obtain _ | _ := saved
  · exact ⟨((Extends.refl _).cons rfl).cons rfl, ofError⟩
  refine obeys_bind ((obeys_createSession ((hown.cons rfl).cons rfl) userID metadata).imp ?_)
  rintro own₁ created ⟨hext, hcreated⟩
  have hext₁ := (hext.cons rfl).cons rfl
  obtain _ | created := created
  · exact ⟨hext₁, ofError⟩
  obtain ⟨hcreated, htoken, hrefresh⟩ := hcreated created rfl
  refine obeys_bind ((obeys_quiet (quiet_bootstrapRequired userID _)).imp fun own₂ required hext₂ => ?_)
  refine ⟨hext₁.trans hext₂, fun login h => ?_⟩
  cases h
  exact ⟨htoken, hrefresh, Or.inl (hext₂.mem hcreated)⟩

theorem obeys_beginMFAChallenge (userID : ℕ) (user : UserRow) :
    (beginMFAChallenge env t userID user).Obeys t (Law env t)
      (fun own' result => Extends own own' ∧ ∀ login, result = .ok login → Issues env t own' login) own := by
  refine obeys_ite (fun _ => ⟨.refl own, ofError⟩) fun _ => ?_
  refine obeys_op trivial fun now => obeys_op trivial fun invalidated => ?_
  obtain _ | _ := invalidated
  · exact ⟨((Extends.refl _).cons rfl).cons rfl, ofError⟩
  refine obeys_op ⟨userID, now, rfl, rfl, List.mem_cons_self⟩ fun stored => ?_
  obtain _ | id := stored
  · exact ⟨(((Extends.refl _).cons rfl).cons rfl).cons rfl, ofError⟩
  refine ⟨(((Extends.refl _).cons rfl).cons rfl).cons rfl, fun login h => ?_⟩
  cases h
  trivial

theorem obeys_completePrimaryLogin (hown : Never Op.storesSession own) (userID : ℕ) (user : UserRow)
    (metadata : RequestMetadata) :
    (completePrimaryLogin env t userID user metadata).Obeys t (Law env t)
      (fun own' result => Extends own own' ∧ ∀ login, result = .ok login → Issues env t own' login) own :=
  obeys_ite (fun _ => obeys_beginMFAChallenge userID user) fun _ =>
    obeys_completeSuccessfulLogin hown userID user metadata

def QuietSoFar (own : History) : Prop := ∀ e ∈ own, e.op.isQuiet = true

theorem QuietSoFar.never {kind : Op → Bool} (h : QuietSoFar own) (hkind : ∀ op, op.isQuiet = true → kind op = false) :
    Never kind own := fun e he => hkind e.op (h e he)

theorem QuietSoFar.extends (h : QuietSoFar own) : Extends [] own :=
  ⟨own, (List.append_nil own).symm, fun e he => silent_of_quiet (h e he)⟩

theorem QuietSoFar.settled (h : QuietSoFar own) : Settled t own :=
  .of_silent fun e he => silent_of_quiet (h e he)

theorem storesSession_of_quiet (op : Op) (h : op.isQuiet = true) : op.storesSession = false := by
  cases op with
  | sessions op => cases op <;> trivial
  | _ => rfl

theorem quietSoFar_nil : QuietSoFar [] := List.forall_mem_nil _

variable {α β : Type} {post : History → β → Prop}

theorem obeys_guard {P : History → α → Prop} {c : Prop} [Decidable c] {e : CallError} {p : Call (Except CallError α)}
    (h : ¬ c → p.Obeys t (Law env t) (fun own result => ∀ a, result = .ok a → P own a) own) :
    (if c then return .error e else p).Obeys t (Law env t) (fun own result => ∀ a, result = .ok a → P own a) own :=
  obeys_ite (fun _ => ofError) h

theorem obeys_ask {op : Op} {f : Ans op → Call β} (hown : QuietSoFar own) (hop : op.isQuiet = true)
    (h : ∀ a, QuietSoFar (⟨t, op, a⟩ :: own) → (f a).Obeys t (Law env t) post (⟨t, op, a⟩ :: own)) :
    (Prog.op op >>= f).Obeys t (Law env t) post own :=
  obeys_op (law_of_quiet env t own hop) fun a => h a (List.forall_mem_cons.mpr ⟨hop, hown⟩)

theorem obeys_askCall {p : Call α} {f : α → Call β} (hown : QuietSoFar own) (hp : p.All fun op => op.isQuiet = true)
    (h : ∀ own' a, QuietSoFar own' → (f a).Obeys t (Law env t) post own') : (p >>= f).Obeys t (Law env t) post own := by
  refine obeys_bind ((obeys_of_all (fun own op (hop : op.isQuiet = true) => law_of_quiet env t own hop) hp).imp ?_)
  rintro own' a ⟨more, rfl, hmore⟩
  exact h _ a (List.forall_mem_append.mpr ⟨hmore, hown⟩)

/-- How a login ends: it has checked no second factor, and hands out the tokens of the session it
stored. -/
def LoginEnds (env : Env) (t : ℕ) (own : History) (result : Except CallError LoginResult) : Prop :=
  Extends [] own ∧ ∀ login, result = .ok login → Issues env t own login

theorem loginEnds_error (hown : QuietSoFar own) (e : CallError) : LoginEnds env t own (.error e) :=
  ⟨hown.extends, ofError⟩

theorem loginEnds_guard {c : Prop} [Decidable c] {e : CallError}
    {p : Call (Except CallError LoginResult)} (hown : QuietSoFar own)
    (h : ¬ c → p.Obeys t (Law env t) (LoginEnds env t) own) :
    (if c then return .error e else p).Obeys t (Law env t) (LoginEnds env t) own :=
    obeys_ite (fun _ => loginEnds_error hown e) h

theorem loginEnds_primary (hown : QuietSoFar own) (userID : ℕ) (user : UserRow) (metadata : RequestMetadata) :
    (completePrimaryLogin env t userID user metadata).Obeys t (Law env t) (LoginEnds env t) own :=
  (obeys_completePrimaryLogin (hown.never storesSession_of_quiet) userID user metadata).imp
    fun _ _ h => ⟨hown.extends.trans h.1, h.2⟩

theorem loginEnds_successful (hown : QuietSoFar own) (userID : ℕ) (user : UserRow) (metadata : RequestMetadata) :
    (completeSuccessfulLogin env t userID user metadata).Obeys t (Law env t) (LoginEnds env t) own :=
  (obeys_completeSuccessfulLogin (hown.never storesSession_of_quiet) userID user metadata).imp
    fun _ _ h => ⟨hown.extends.trans h.1, h.2⟩

theorem quiet_localLoginDisabled : localLoginDisabled.All fun op => op.isQuiet = true := by
  refine all_op rfl fun settings => ?_
  cases settings <;> trivial

theorem quiet_otpEnabled : (otpEnabled env).All fun op => op.isQuiet = true := by
  refine all_op rfl fun settings => ?_
  cases settings <;> trivial

theorem obeys_completePasskeyLogin (userID : ℕ) (metadata : RequestMetadata) :
    (completePasskeyLogin env t userID metadata).Obeys t (Law env t) (LoginEnds env t) [] := by
  refine obeys_ask quietSoFar_nil rfl fun user h₁ => ?_
  cases user with
  | error e => exact loginEnds_error h₁ _
  | ok user => exact loginEnds_guard h₁ fun _ => loginEnds_successful h₁ user.1 user.2 metadata

/-! ## Second factors -/

theorem isCheck_of_quiet (op : Op) (h : op.isQuiet = true) : op.isCheck = false := by
  cases op with
  | verifyMFAFactor id row code => cases h
  | validateTOTP id secret code => cases h
  | _ => rfl

theorem isUpdate_of_quiet (op : Op) (h : op.isQuiet = true) : op.isUpdate = false := by
  cases op with
  | users op => cases op <;> trivial
  | _ => rfl

variable {row : UserRow}

theorem verified_eq {id id' : ℕ} {row' : UserRow} {code code' : GoString}
    {verdict verdict' : Verdict} (hown : QuietSoFar own)
    (h : Verified t (⟨t, .verifyMFAFactor id row code, verdict⟩ :: own) id' row' code' verdict') :
    row' = row ∧ verdict' = verdict := by
  rcases List.mem_cons.mp h with h | h
  · cases h
    exact ⟨rfl, rfl⟩
  · cases hown _ h

/-- How `CompleteMFA` ends if it succeeds. -/
def MFAEnds (env : Env) (t : ℕ) (own : History) (result : Except CallError LoginResult) : Prop :=
  ∀ login, result = .ok login → Settled t own ∧ Issues env t own login

theorem mfaEnds_error (own : History) (e : CallError) : MFAEnds env t own (.error e) := ofError

theorem readUser_self {k id : ℕ} :
    ReadUser t (⟨t, .users (.getByID k), .ok (id, row)⟩ :: own) id row := ⟨k, List.mem_cons_self⟩

variable {e : Entry Ans}

theorem ReadUser.cons {id : ℕ} (h : ReadUser t own id row) : ReadUser t (e :: own) id row := by
  obtain ⟨k, h⟩ := h
  exact ⟨k, List.mem_cons_of_mem _ h⟩

theorem FoundChallenge.of_cons {id : ℕ} {item : LoginToken}
    (h : FoundChallenge t (e :: own) id item)
    (he : ∀ token, e.op ≠ .loginTokens (.getValidTokenByScope [] token .mfaLogin none)) :
    FoundChallenge t own id item := by
  obtain ⟨token, hmem⟩ := h
  rcases List.mem_cons.mp hmem with heq | hmem
  · exact absurd (congrArg Entry.op heq.symm) (he token)
  · exact ⟨token, hmem⟩

theorem obeys_countWrongCode {id : ℕ} {item : LoginToken} (hfound : FoundChallenge t own id item)
    (now : Instant) (e : CallError) :
    (countWrongCode id now >>= fun _ =>
      (pure (.error e) : Call (Except CallError LoginResult))).Obeys t (Law env t)
      (MFAEnds env t) own := by
  refine obeys_bind (obeys_op ⟨item, hfound⟩ fun added => ?_)
  obtain _ | _ := added
  · exact mfaEnds_error _ _
  refine obeys_op trivial fun attempts => ?_
  cases attempts with
  | error e => exact mfaEnds_error _ _
  | ok attempts => exact obeys_ite (fun _ => obeys_op trivial fun _ => mfaEnds_error _ _) fun _ => mfaEnds_error _ _

variable {user : UserRow}

theorem obeys_saveMFAFactor {id userID : ℕ} {code : GoString} {verdict : Verdict} {factor : Factor}
    {now : Instant} {answer : Except StoreError Unit} (hown : QuietSoFar own) (huser : ReadUser t own userID user)
    (hfactor : verdict.factor = some factor) (metadata : RequestMetadata) :
    (saveMFAFactor env t userID user verdict metadata).Obeys t (Law env t) (MFAEnds env t)
      (⟨t, .loginTokens (.markUsed id now), answer⟩ :: ⟨t, .verifyMFAFactor userID user code, verdict⟩ :: own) := by
  refine obeys_ite (fun _ => ?_) fun hspends => ?_
  · refine obeys_op ⟨((hown.never isUpdate_of_quiet).cons rfl).cons rfl, user, huser.cons.cons,
      .completeMFA (List.mem_cons_of_mem _ List.mem_cons_self) hfactor⟩ fun updated => ?_
    obtain e | _ := updated
    · cases e <;> exact mfaEnds_error _ _
    refine (obeys_completeSuccessfulLogin
      ((((hown.never storesSession_of_quiet).cons rfl).cons rfl).cons rfl) _ _ _).imp
      fun own' result h login hlogin => ?_
    exact ⟨settled_update.extends h.1, h.2 login hlogin⟩
  · refine (obeys_completeSuccessfulLogin (((hown.never storesSession_of_quiet).cons rfl).cons rfl) _ _ _).imp
      fun own' result h login hlogin => ?_
    refine ⟨Settled.extends ⟨fun _ row code' verdict' _ hv _ hs => ?_, fun _ secret code' counter hv => ?_⟩ h.1,
      h.2 login hlogin⟩
    · rcases List.mem_cons.mp hv with hv | hv
      · cases hv
      · obtain ⟨rfl, rfl⟩ := verified_eq hown hv
        exact absurd hs hspends
    · rcases List.mem_cons.mp hv with hv | hv
      · cases hv
      · rcases List.mem_cons.mp hv with hv | hv
        · cases hv
        · cases hown _ hv

theorem obeys_completeMFA (mfaToken code : GoString) (metadata : RequestMetadata) :
    (completeMFA env t mfaToken code metadata).Obeys t (Law env t) (MFAEnds env t) [] := by
  refine obeys_ask quietSoFar_nil rfl fun now h₁ => obeys_ask h₁ rfl fun _ h₂ => ?_
  refine obeys_ite (fun _ => mfaEnds_error _ _) fun _ => obeys_ask h₂ rfl fun found h₃ => ?_
  obtain _ | found := found
  · exact mfaEnds_error _ _
  refine obeys_ite (fun _ => mfaEnds_error _ _) fun _ => obeys_ite (fun _ => mfaEnds_error _ _) fun _ => ?_
  cases found.2.userID with
  | none => exact mfaEnds_error _ _
  | some userID =>
    refine obeys_ask h₃ rfl fun _ h₄ => obeys_ite (fun _ => mfaEnds_error _ _) fun _ => ?_
    refine obeys_ite (fun _ => obeys_ask h₄ rfl fun _ _ => mfaEnds_error _ _) fun hattempts => ?_
    refine obeys_ask h₄ rfl fun user h₅ => ?_
    obtain _ | user := user
    · exact mfaEnds_error _ _
    refine obeys_ite (fun _ => mfaEnds_error _ _) fun _ => ?_
    refine obeys_op ⟨readUser_self, h₅.never isCheck_of_quiet, h₅.never isUpdate_of_quiet,
      fun id item hfound => ?_⟩ fun verdict => ?_
    · -- the challenge that was found is the only one among the statements so far
      obtain ⟨token, hmem⟩ := (hfound.of_cons nofun).of_cons nofun
      rcases List.mem_cons.mp hmem with heq | hmem
      · cases heq
        exact Nat.lt_of_not_le hattempts
      · obtain ⟨_, hmem⟩ := (FoundChallenge.of_cons ⟨token, hmem⟩ nofun).of_cons nofun
        cases hmem
    · split
      · exact obeys_countWrongCode ⟨mfaToken, List.mem_cons_of_mem _ (List.mem_cons_of_mem _
          (List.mem_cons_of_mem _ List.mem_cons_self))⟩ now .mfaCodeInvalid
      · rename_i factor hfactor
        refine obeys_op trivial fun marked => ?_
        cases marked with
        | error e => exact mfaEnds_error _ _
        | ok _ => exact obeys_saveMFAFactor h₅ readUser_self hfactor metadata

/-- A code is checked after nothing but the user was read. -/
theorem law_verify {k id : ℕ} {code : GoString} (h : QuietSoFar [⟨t, .users (.getByID k), .ok (id, row)⟩]) :
    Law env t [⟨t, .users (.getByID k), .ok (id, row)⟩] (.verifyMFAFactor id row code) := by
  refine ⟨readUser_self, h.never isCheck_of_quiet, h.never isUpdate_of_quiet, fun id item hfound => ?_⟩
  obtain ⟨_, hmem⟩ := hfound.of_cons nofun
  cases hmem

theorem obeys_regenerateRecoveryCodes (userID : ℕ) (code : GoString) :
    (regenerateRecoveryCodes env t userID code).Obeys t (Law env t)
      (fun own result => ∀ codes, result = .ok codes → Settled t own) [] := by
  refine obeys_ask quietSoFar_nil rfl fun user h₁ => ?_
  obtain _ | user := user
  · exact ofError
  refine obeys_op (law_verify h₁) fun verdict => ?_
  split
  · exact ofError
  · rename_i factor hfactor
    refine obeys_op ⟨(h₁.never isUpdate_of_quiet).cons rfl, user.2, readUser_self.cons,
      .regenerate List.mem_cons_self hfactor⟩ fun updated => ?_
    cases updated with
    | error e => cases e <;> exact ofError
    | ok _ => exact fun _ _ => settled_update

theorem obeys_disableMFA (userID : ℕ) (code : GoString) :
    (disableMFA userID code).Obeys t (Law env t)
      (fun own result => ∀ status, result = .ok status → Settled t own) [] := by
  refine obeys_ask quietSoFar_nil rfl fun user h₁ => ?_
  obtain _ | user := user
  · exact ofError
  refine obeys_ite (fun _ => ?_) fun henabled => ?_
  · refine (obeys_quiet (quiet_mfaStatusForUser userID)).imp fun own' _ hext _ _ => ?_
    exact h₁.settled.extends hext
  refine obeys_op (law_verify h₁) fun verdict => ?_
  split
  · exact ofError
  · rename_i factor hfactor
    have henabled' : user.2.mfaEnabled = true := by simpa using henabled
    refine obeys_op ⟨(h₁.never isUpdate_of_quiet).cons rfl, user.2, readUser_self.cons,
      .disable List.mem_cons_self hfactor henabled'⟩ fun updated => ?_
    cases updated with
    | error e =>
      cases e with
      | stale =>
        refine (obeys_quiet (quiet_mfaStatusForUser userID)).imp fun own' _ hext _ _ => Settled.extends ?_ hext
        exact .of_updated ⟨_, _, _, _, _, Or.inr ⟨rfl, List.mem_cons_self⟩⟩
      | _ => exact ofError
    | ok _ => exact (obeys_quiet (quiet_mfaStatusForUser userID)).imp fun own' _ hext _ _ => settled_update.extends hext

/-! ## Changes of credentials -/

theorem EndsSessions.extends {userID : ℕ} {current : Option ℕ} (h : EndsSessions t own userID current)
    (hext : Extends own own') : EndsSessions t own' userID current := by
  obtain ⟨id, row, now, answer, later, earlier, user, guard, expected, fields, hread, hupdate, rfl⟩ := h
  obtain ⟨more, rfl, -⟩ := hext
  exact ⟨id, row, now, answer, more ++ later, earlier, user, guard, expected, fields, hread, hupdate,
    (List.append_assoc ..).symm⟩

theorem obeys_endOtherSessions {userID id : ℕ} {expected : UserRow} {guard fields : List UserColumn}
    (hread : (⟨t, .users (.getByID userID), .ok (id, row)⟩ : Entry Ans) ∈ own)
    (hupdate : (⟨t, .users (.updateFieldsIf id user guard expected fields), .ok ()⟩ : Entry Ans) ∈
      own)
    (current : Option ℕ) :
    (endOtherSessions id current).Obeys t (Law env t)
      (fun own' _ => Extends own own' ∧ EndsSessions t own' userID current) own := by
  have hends : ∀ now (answer : Ans (.sessions (endingOp id now current))),
      EndsSessions t (⟨t, .sessions (endingOp id now current), answer⟩ :: ⟨t, .now, now⟩ :: own)
      userID current := fun now answer =>
    ⟨id, row, now, answer, [], _, user, guard, expected, fields, List.mem_cons_of_mem _ hread,
      List.mem_cons_of_mem _ hupdate, rfl⟩
  cases current with
  | some sessionID =>
    refine obeys_bind (obeys_op trivial fun now => obeys_op trivial fun revoked => ?_)
    cases revoked <;> exact ⟨((Extends.refl _).cons rfl).cons rfl, hends now _⟩
  | none =>
    refine obeys_bind (obeys_op trivial fun now => obeys_op trivial fun revoked => ?_)
    cases revoked <;> exact ⟨((Extends.refl _).cons rfl).cons rfl, hends now _⟩

theorem obeys_enableTOTP (userID : ℕ) (code : GoString) (current : Option ℕ) :
    (enableTOTP env userID code current).Obeys t (Law env t)
      (fun own result => ∀ status, result = .ok status → Settled t own ∧ EndsSessions t own userID current) [] := by
  refine obeys_ask quietSoFar_nil rfl fun user h₁ => ?_
  obtain _ | user := user
  · exact ofError
  dsimp only
  split
  · exact ofError
  · rename_i secret hsecret
    refine obeys_guard fun hnonempty => ?_
    refine obeys_op ⟨h₁.never isCheck_of_quiet, h₁.never isUpdate_of_quiet⟩ fun counter => ?_
    cases counter with
    | none => exact ofError
    | some counter =>
      refine obeys_op ⟨(h₁.never isUpdate_of_quiet).cons rfl, user.2, readUser_self.cons,
        .enable hsecret hnonempty List.mem_cons_self⟩ fun updated => ?_
      obtain e | _ := updated
      · cases e <;> exact ofError
      refine obeys_bind ((obeys_endOtherSessions (List.mem_cons_of_mem _ (List.mem_cons_of_mem _ List.mem_cons_self))
        List.mem_cons_self current).imp fun own₂ _ h₂ => ?_)
      refine (obeys_quiet (quiet_mfaStatusForUser userID)).imp fun own₃ _ h₃ _ _ => ⟨?_, h₂.2.extends h₃⟩
      exact settled_update.extends (h₂.1.trans h₃)

theorem obeys_changeOwnPassword (userID : ℕ) (currentPassword newPassword : GoString) (current : Option ℕ) :
    (changeOwnPassword env t userID currentPassword newPassword current).Obeys t (Law env t)
      (fun own result => ∀ done, result = .ok done → Settled t own ∧ EndsSessions t own userID current) [] := by
  refine obeys_ask quietSoFar_nil rfl fun user h₁ => ?_
  obtain _ | user := user
  · exact ofError
  refine obeys_guard fun _ => obeys_guard fun _ => ?_
  cases env.bcryptHash t newPassword with
  | none => exact ofError
  | some hash =>
    refine obeys_op ⟨h₁.never isUpdate_of_quiet, user.2, readUser_self,
      .password hash (h₁.never isCheck_of_quiet)⟩ fun updated => ?_
    obtain e | _ := updated
    · cases e <;> exact ofError
    refine obeys_bind ((obeys_endOtherSessions (List.mem_cons_of_mem _ List.mem_cons_self)
      List.mem_cons_self current).imp fun own₂ _ h₂ _ _ => ⟨?_, h₂.2⟩)
    exact settled_update.extends h₂.1

theorem obeys_saveAccountSetup {id : ℕ} (hown : QuietSoFar own) (hread : ReadUser t own id user)
    (email password : GoString) (current : Option ℕ) :
    (saveAccountSetup env t id user email password current).Obeys t (Law env t)
      (fun own result => ∀ row, result = .ok row → Settled t own) own := by
  unfold saveAccountSetup
  obtain ⟨k, hmem⟩ := hread
  cases env.bcryptHash t password with
  | none => exact ofError
  | some hash =>
    refine obeys_op ⟨hown.never isUpdate_of_quiet, user, ⟨k, hmem⟩,
      .accountSetup email hash (hown.never isCheck_of_quiet)⟩ fun updated => ?_
    obtain e | _ := updated
    · cases e <;> exact ofError
    refine obeys_bind ((obeys_endOtherSessions (List.mem_cons_of_mem _ hmem)
      List.mem_cons_self current).imp fun own₂ _ h₂ _ _ => ?_)
    exact settled_update.extends h₂.1

/-! ## Sessions -/

theorem quiet_verifyRouteEmailCode [UnicodeTables] (serviceID : ℕ) (email code : GoString) :
    (verifyRouteEmailCode serviceID email code).All fun op => op.isQuiet = true := by
  refine all_op rfl fun now => all_op rfl fun found => ?_
  obtain e | found := found
  · cases e <;> trivial
  refine all_ite trivial (all_ite trivial (all_op rfl fun marked => ?_))
  cases marked <;> trivial

theorem quiet_consumeMagicLink (serviceID : ℕ) (token remoteAddr : GoString) :
    (consumeMagicLink serviceID token remoteAddr).All fun op => op.isQuiet = true := by
  refine all_ite trivial (all_op rfl fun limited => all_ite trivial (all_op rfl fun found => ?_))
  obtain e | found := found
  · cases e <;> trivial
  refine all_op rfl fun now => all_ite trivial (all_ite trivial (all_op rfl fun marked => ?_))
  cases marked <;> trivial

theorem obeys_revokeAllUserSessions (userID : ℕ) :
    (revokeAllUserSessions userID).Obeys t (Law env t)
      (fun own result => ∀ done, result = .ok done → Settled t own ∧
        ∃ now, (⟨t, .sessions (.revokeByUser userID now), .ok ()⟩ : Entry Ans) ∈ own) [] := by
  refine obeys_ask quietSoFar_nil rfl fun now h₁ => obeys_ask h₁ rfl fun revoked h₂ => ?_
  cases revoked with
  | error e => exact ofError
  | ok _ => exact fun _ _ => ⟨h₂.settled, now, List.mem_cons_self⟩

theorem obeys_revokeOtherUserSessions (userID keepSessionID : ℕ) :
    (revokeOtherUserSessions userID keepSessionID).Obeys t (Law env t)
      (fun own result => ∀ done, result = .ok done → Settled t own ∧
        ∃ now, (⟨t, .sessions (.revokeByUserExcept userID keepSessionID now), .ok ()⟩ : Entry Ans) ∈ own) [] := by
  refine obeys_ask quietSoFar_nil rfl fun now h₁ => obeys_ask h₁ rfl fun revoked h₂ => ?_
  cases revoked with
  | error e => exact ofError
  | ok _ => exact fun _ _ => ⟨h₂.settled, now, List.mem_cons_self⟩

theorem obeys_revokeSession (userID sessionID : ℕ) :
    (revokeSession userID sessionID).Obeys t (Law env t)
      (fun own result => ∀ done, result = .ok done → Settled t own ∧
        ∃ now, (⟨t, .sessions (.revoke sessionID now), .ok ()⟩ : Entry Ans) ∈ own) [] := by
  refine obeys_ask quietSoFar_nil rfl fun session h₁ => ?_
  obtain _ | session := session
  · exact ofError
  refine obeys_guard fun _ => ?_
  refine obeys_ask h₁ rfl fun now h₂ => obeys_ask h₂ rfl fun revoked h₃ => ?_
  cases revoked with
  | error e => exact ofError
  | ok _ => exact fun _ _ => ⟨h₃.settled, now, List.mem_cons_self⟩

theorem obeys_refreshSession (refreshToken : GoString) (metadata : RequestMetadata) :
    (refreshSession env t refreshToken metadata).Obeys t (Law env t)
      (fun own result => ∀ login, result = .ok login → Extends [] own ∧ Issues env t own login ∧
        Ended env t own (.refreshSession refreshToken metadata) (.login login)) [] := by
  refine obeys_ask quietSoFar_nil rfl fun found h₁ => ?_
  obtain _ | found := found
  · exact ofError
  refine obeys_ask h₁ rfl fun now h₂ => obeys_guard fun hlive => ?_
  refine obeys_guard fun _ => obeys_ask h₂ rfl fun user h₃ => ?_
  obtain _ | user := user
  · exact ofError
  refine obeys_guard fun _ => ?_
  have hlive : found.2.revokedAt = none := not_not.mp hlive
  refine obeys_op ⟨h₃.never storesSession_of_quiet, rfl, rfl, env.hashToken refreshToken, found.2,
    List.mem_cons_of_mem _ (List.mem_cons_of_mem _ List.mem_cons_self), hlive, rfl⟩ fun rotated => ?_
  obtain e | _ := rotated
  · cases e <;> exact ofError
  intro login hlogin
  cases hlogin
  refine ⟨h₃.extends.trans ((Extends.refl _).cons rfl), ⟨rfl, rfl, Or.inr ⟨_, List.mem_cons_self⟩⟩, ?_⟩
  exact ⟨found.1, found.2, _, user.1, user.2,
    List.mem_cons_of_mem _ (List.mem_cons_of_mem _ (List.mem_cons_of_mem _ List.mem_cons_self)), hlive,
    List.mem_cons_self, rfl⟩

theorem ReadLive.cons {tokenID : GoString} (h : ReadLive t own tokenID) : ReadLive t (e :: own) tokenID := by
  obtain ⟨id, row, hmem, hrow⟩ := h
  exact ⟨id, row, List.mem_cons_of_mem _ hmem, hrow⟩

theorem ReadHostLive.cons {sessionID : ℕ} (h : ReadHostLive t own sessionID) :
    ReadHostLive t (e :: own) sessionID := by
  obtain ⟨id, row, hmem, hrow⟩ := h
  exact ⟨id, row, List.mem_cons_of_mem _ hmem, hrow⟩

theorem obeys_checkSessionRow (hown : QuietSoFar own) (session : SessionRow) :
    (checkSessionRow session).Obeys t (Law env t)
      (fun own' result => QuietSoFar own' ∧ own ⊆ own' ∧ ∀ now, result = .ok now → session.revokedAt = none) own := by
  refine obeys_ite (fun _ => ⟨hown, List.Subset.refl own, ofError⟩) fun hlive => ?_
  refine obeys_ask hown rfl fun now h₁ => ?_
  have hsub : own ⊆ ⟨t, .now, now⟩ :: own := List.subset_cons_self _ _
  exact obeys_ite (fun _ => ⟨h₁, hsub, ofError⟩) fun _ => ⟨h₁, hsub, fun _ _ => not_not.mp hlive⟩

theorem obeys_accessTokenSession (hown : QuietSoFar own) (claims : Claims) (touch : Bool) :
    (accessTokenSessionCall claims touch).Obeys t (Law env t)
      (fun own' result => QuietSoFar own' ∧ ∀ session, result = .ok session →
        claims.sessionID = 0 ∨ ReadLive t own' claims.tokenID) own := by
  refine obeys_ite (fun hzero => ⟨hown, fun _ _ => Or.inl hzero⟩) fun _ => obeys_ask hown rfl fun session h₁ => ?_
  obtain _ | session := session
  · exact ⟨h₁, ofError⟩
  refine obeys_bind ((obeys_checkSessionRow h₁ session.2).imp ?_)
  rintro own₂ checked ⟨h₂, hsub, hlive⟩
  obtain _ | now := checked
  · exact ⟨h₂, ofError⟩
  have hread : ReadLive t own₂ claims.tokenID :=
    ⟨session.1, session.2, hsub List.mem_cons_self, hlive now rfl⟩
  refine obeys_ite (fun _ => obeys_ask h₂ rfl fun touched h₃ => ?_) fun _ => ⟨h₂, fun _ _ => Or.inr hread⟩
  cases touched with
  | error e =>
    cases e with
    | notFound => exact ⟨h₃, ofError⟩
    | _ => exact ⟨h₃, fun _ _ => Or.inr hread.cons⟩
  | ok _ => exact ⟨h₃, fun _ _ => Or.inr hread.cons⟩

theorem obeys_authenticateAccessToken (claims : Claims) :
    (authenticateAccessTokenCall claims).Obeys t (Law env t)
      (fun own result => ∀ identity, result = .ok identity → Settled t own ∧
        (claims.sessionID = 0 ∨ ReadLive t own claims.tokenID)) [] := by
  refine obeys_ask quietSoFar_nil rfl fun cached h₁ => ?_
  cases cached with
  | some cached =>
    refine obeys_guard fun _ => obeys_bind ((obeys_accessTokenSession h₁ claims false).imp ?_)
    rintro own₂ session ⟨h₂, hlive⟩
    cases session with
    | error e => exact ofError
    | ok session => exact fun _ _ => ⟨h₂.settled, hlive session rfl⟩
  | none =>
    refine obeys_ask h₁ rfl fun user h₂ => ?_
    obtain _ | user := user
    · exact ofError
    refine obeys_guard fun _ => obeys_bind ((obeys_accessTokenSession h₂ claims true).imp ?_)
    rintro own₃ session ⟨h₃, hlive⟩
    obtain _ | session := session
    · exact ofError
    refine obeys_ask h₃ rfl fun groups h₄ => ?_
    obtain _ | groups := groups
    · exact ofError
    exact fun _ _ => ⟨h₄.settled, (hlive session rfl).imp_right ReadLive.cons⟩

theorem obeys_authenticateHostSessionToken (claims : HostSessionClaims) :
    (authenticateHostSessionTokenCall claims).Obeys t (Law env t)
      (fun own result => ∀ identity, result = .ok identity → Settled t own ∧
        ReadHostLive t own claims.sessionID) [] := by
  have hsession : (hostSessionForCall claims).Obeys t (Law env t)
      (fun own result => QuietSoFar own ∧ ∀ session, result = .ok session →
        ReadHostLive t own claims.sessionID) [] := by
    refine obeys_ite (fun _ => ⟨quietSoFar_nil, ofError⟩) fun _ => ?_
    refine obeys_ask quietSoFar_nil rfl fun session h₁ => ?_
    obtain _ | session := session
    · exact ⟨h₁, ofError⟩
    refine obeys_ite (fun _ => ⟨h₁, ofError⟩) fun _ => ?_
    refine obeys_bind ((obeys_checkSessionRow h₁ session.2).imp ?_)
    rintro own₂ checked ⟨h₂, hsub, hlive⟩
    cases checked with
    | error e => exact ⟨h₂, ofError⟩
    | ok now => exact ⟨h₂, fun _ _ => ⟨session.1, session.2, hsub List.mem_cons_self, hlive now rfl⟩⟩
  refine obeys_bind (hsession.imp ?_)
  rintro own₁ session ⟨h₁, hlive⟩
  obtain _ | session := session
  · exact ofError
  have hlive := hlive session rfl
  refine obeys_ask h₁ rfl fun cached h₂ => ?_
  cases cached with
  | some cached => exact obeys_guard fun _ => fun _ _ => ⟨h₂.settled, hlive.cons⟩
  | none =>
    refine obeys_ask h₂ rfl fun user h₃ => ?_
    obtain _ | user := user
    · exact ofError
    refine obeys_guard fun _ => obeys_ask h₃ rfl fun groups h₄ => ?_
    cases groups with
    | error e => exact ofError
    | ok groups => exact fun _ _ => ⟨h₄.settled, hlive.cons.cons.cons⟩

/-! ## Outcomes of calls -/

variable {request : ServiceRequest}

theorem outcome_of {reply : α → Reply} {call : Call (Except CallError α)}
    (h : call.Obeys t (Law env t)
      (fun own result => ∀ a, result = .ok a → Settled t own ∧
      (∀ login, reply a = .login login → Issues env t own login) ∧
      Ended env t own request (reply a)) []) :
    (replying reply call).Obeys t (Law env t) (fun own result => Outcome env t own request result)
      [] := by
  refine obeys_bind (h.imp fun own result hresult r hr => ?_)
  obtain _ | a := result
  · cases hr
  cases hr
  exact hresult a rfl

theorem outcome_login (hrequest : ∀ own reply, Ended env t own request reply)
    {call : Call (Except CallError LoginResult)} (h : call.Obeys t (Law env t) (LoginEnds env t) []) :
    (replying .login call).Obeys t (Law env t) (fun own result => Outcome env t own request result) [] := by
  refine outcome_of (h.imp fun own result hends login hlogin => ?_)
  refine ⟨(Settled.of_silent (List.forall_mem_nil _)).extends hends.1, fun login' heq => ?_, hrequest own _⟩
  cases heq
  exact hends.2 login hlogin

def Reply.isLogin : Reply → Bool
  | .login _ => true
  | _ => false

section Plain
variable {reply : α → Reply} {call : Call (Except CallError α)}
  (hreply : ∀ a, (reply a).isLogin = false)
include hreply

theorem outcome_plain (h : call.Obeys t (Law env t) (fun own result => ∀ a, result = .ok a →
      Settled t own ∧ Ended env t own request (reply a)) []) :
    (replying reply call).Obeys t (Law env t) (fun own result => Outcome env t own request result) [] :=
  outcome_of (h.imp fun _ _ h a ha => ⟨(h a ha).1, fun _ heq => absurd (heq ▸ hreply a) nofun, (h a ha).2⟩)

theorem outcome_quiet (hrequest : ∀ own reply, Ended env t own request reply)
    (h : call.Obeys t (Law env t) (fun own result => ∀ a, result = .ok a → Settled t own) []) :
    (replying reply call).Obeys t (Law env t) (fun own result => Outcome env t own request result) [] :=
  outcome_plain hreply (h.imp fun own _ hsettled a ha => ⟨hsettled a ha, hrequest own _⟩)

end Plain

section Tables
variable [UnicodeTables]

theorem obeys_login (email password : GoString) (metadata : RequestMetadata) :
    (login env t email password metadata).Obeys t (Law env t) (LoginEnds env t) [] := by
  refine obeys_askCall quietSoFar_nil quiet_localLoginDisabled fun own₁ _ h₁ => ?_
  refine loginEnds_guard h₁ fun _ => obeys_ask h₁ rfl fun _ h₂ => ?_
  refine loginEnds_guard h₂ fun _ => obeys_ask h₂ rfl fun _ h₃ => ?_
  refine loginEnds_guard h₃ fun _ => obeys_ask h₃ rfl fun user h₄ => ?_
  obtain e | user := user
  · cases e <;> exact loginEnds_error h₄ _
  refine loginEnds_guard h₄ fun _ => loginEnds_guard h₄ fun _ => ?_
  exact loginEnds_guard h₄ fun _ => loginEnds_primary h₄ user.1 user.2 metadata

theorem obeys_loginBreakGlass (email password : GoString) (metadata : RequestMetadata) :
    (loginBreakGlass env t email password metadata).Obeys t (Law env t) (LoginEnds env t) [] := by
  refine obeys_ask quietSoFar_nil rfl fun _ h₁ => ?_
  refine loginEnds_guard h₁ fun _ => obeys_ask h₁ rfl fun _ h₂ => ?_
  refine loginEnds_guard h₂ fun _ => obeys_ask h₂ rfl fun user h₃ => ?_
  obtain e | user := user
  · cases e <;> exact loginEnds_error h₃ _
  refine loginEnds_guard h₃ fun _ => loginEnds_guard h₃ fun _ => ?_
  exact loginEnds_guard h₃ fun _ => loginEnds_successful h₃ user.1 user.2 metadata

theorem obeys_verifyOTP (email token : GoString) (metadata : RequestMetadata) :
    (verifyOTP env t email token metadata).Obeys t (Law env t) (LoginEnds env t) [] := by
  refine obeys_askCall quietSoFar_nil quiet_otpEnabled fun own₁ _ h₁ => ?_
  refine loginEnds_guard h₁ fun _ => obeys_ask h₁ rfl fun now h₂ => obeys_ask h₂ rfl fun _ h₃ => ?_
  refine loginEnds_guard h₃ fun _ => obeys_ask h₃ rfl fun _ h₄ => ?_
  refine loginEnds_guard h₄ fun _ => obeys_ask h₄ rfl fun found h₅ => ?_
  obtain e | found := found
  · cases e <;> exact loginEnds_error h₅ _
  refine loginEnds_guard h₅ fun _ => loginEnds_guard h₅ fun _ => ?_
  cases found.2.userID with
  | none => exact loginEnds_error h₅ _
  | some userID =>
    refine obeys_ask h₅ rfl fun user h₆ => ?_
    obtain _ | user := user
    · exact loginEnds_error h₆ _
    refine loginEnds_guard h₆ fun _ => obeys_ask h₆ rfl fun marked h₇ => ?_
    cases marked with
    | error e => exact loginEnds_error h₇ _
    | ok _ => exact loginEnds_primary h₇ user.1 user.2 metadata

theorem obeys_completeAccountSetup (userID : ℕ) (email password : GoString) (current : Option ℕ) :
    (completeAccountSetup env t userID email password current).Obeys t (Law env t)
      (fun own result => ∀ row, result = .ok row → Settled t own) [] := by
  refine obeys_ask quietSoFar_nil rfl fun user h₁ => ?_
  obtain _ | user := user
  · exact ofError
  refine obeys_guard fun _ => obeys_guard fun _ => ?_
  refine obeys_ask h₁ rfl fun existing h₂ => ?_
  cases existing with
  | error e =>
    cases e with
    | notFound => exact obeys_saveAccountSetup h₂ readUser_self.cons _ password current
    | _ => exact ofError
  | ok existing =>
    exact obeys_guard fun _ => obeys_saveAccountSetup h₂ readUser_self.cons _ password current

/-! ## All calls -/

theorem callOf_obeys (request : ServiceRequest) :
    (callOf env t request).Obeys t (Law env t) (fun own result => Outcome env t own request result) [] := by
  cases request with
  | tick d =>
    refine obeys_ask quietSoFar_nil rfl fun _ h reply hreply => ?_
    cases hreply
    exact ⟨h.settled, (fun _ heq => Reply.noConfusion heq), trivial⟩
  | login email password metadata =>
    exact outcome_login (fun _ _ => by trivial) (obeys_login email password metadata)
  | loginBreakGlass email password metadata =>
    exact outcome_login (fun _ _ => by trivial) (obeys_loginBreakGlass email password metadata)
  | completePasskeyLogin userID metadata =>
    exact outcome_login (fun _ _ => by trivial) (obeys_completePasskeyLogin userID metadata)
  | verifyOTP email token metadata =>
    exact outcome_login (fun _ _ => by trivial) (obeys_verifyOTP email token metadata)
  | verifyRouteEmailCode serviceID email code =>
    refine outcome_quiet (fun _ => rfl) (fun _ _ => by trivial) ?_
    exact (obeys_quiet (quiet_verifyRouteEmailCode serviceID email code)).imp fun _ _ hext _ _ =>
      quietSoFar_nil.settled.extends hext
  | consumeMagicLink serviceID token remoteAddr =>
    refine outcome_quiet (fun _ => rfl) (fun _ _ => by trivial) ?_
    exact (obeys_quiet (quiet_consumeMagicLink serviceID token remoteAddr)).imp
      fun _ _ hext _ _ => quietSoFar_nil.settled.extends hext
  | beginMFAChallenge userID user =>
    exact outcome_login (fun _ _ => by trivial) (obeys_beginMFAChallenge userID user)
  | completeMFA mfaToken code metadata =>
    refine outcome_of ((obeys_completeMFA mfaToken code metadata).imp fun own result h login hlogin => ?_)
    refine ⟨(h login hlogin).1, fun login' heq => ?_, trivial⟩
    cases heq
    exact (h login hlogin).2
  | enableTOTP userID code current =>
    exact outcome_plain (fun _ => rfl) (obeys_enableTOTP userID code current)
  | disableMFA userID code =>
    exact outcome_quiet (fun _ => rfl) (fun _ _ => by trivial) (obeys_disableMFA userID code)
  | regenerateRecoveryCodes userID code =>
    exact outcome_quiet (fun _ => rfl) (fun _ _ => by trivial) (obeys_regenerateRecoveryCodes userID code)
  | completeAccountSetup userID email password current =>
    exact outcome_quiet (fun _ => rfl) (fun _ _ => by trivial)
      (obeys_completeAccountSetup userID email password current)
  | changeOwnPassword userID currentPassword newPassword current =>
    exact outcome_plain (fun _ => rfl) (obeys_changeOwnPassword userID currentPassword newPassword current)
  | createSession userID metadata =>
    refine outcome_quiet (fun _ => rfl) (fun _ _ => by trivial)
      ((obeys_createSession never_nil userID metadata).imp fun own result h _ _ => ?_)
    exact quietSoFar_nil.settled.extends h.1
  | refreshSession refreshToken metadata =>
    refine outcome_of ((obeys_refreshSession refreshToken metadata).imp fun own result h login hlogin => ?_)
    obtain ⟨hext, hissues, hended⟩ := h login hlogin
    refine ⟨quietSoFar_nil.settled.extends hext, fun login' heq => ?_, hended⟩
    cases heq
    exact hissues
  | revokeSession userID sessionID =>
    exact outcome_plain (fun _ => rfl) (obeys_revokeSession userID sessionID)
  | revokeAllUserSessions userID =>
    exact outcome_plain (fun _ => rfl) (obeys_revokeAllUserSessions userID)
  | revokeOtherUserSessions userID keepSessionID =>
    exact outcome_plain (fun _ => rfl) (obeys_revokeOtherUserSessions userID keepSessionID)
  | authenticateAccessToken claims =>
    exact outcome_plain (fun _ => rfl) (obeys_authenticateAccessToken claims)
  | authenticateHostSessionToken claims =>
    exact outcome_plain (fun _ => rfl) (obeys_authenticateHostSessionToken claims)

end Tables
end Laws
end Portlyn.Auth
