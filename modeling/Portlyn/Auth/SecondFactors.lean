import Portlyn.Auth.Laws

/-! # Second factors in the user table

What a statement of a lawful call can do to the columns that hold the second factor of a user
(`mfa_step`), and how the updates in the log go back to the codes that were checked (`FactorLog`).
-/
namespace Portlyn.Auth
open Go Domain Lib Lib.Interleave
set_option autoImplicit false

/-! ## Columns -/

structure MFAState where
  enabled : Bool
  secret : GoString
  pendingSecret : GoString
  codes : List GoString
  pendingCodes : List GoString
  counter : ℕ
deriving DecidableEq

def UserRow.mfa (row : UserRow) : MFAState where
  enabled := row.mfaEnabled
  secret := row.mfaSecret
  pendingSecret := row.mfaPendingSecret
  codes := row.mfaRecoveryCodes
  pendingCodes := row.mfaPendingRecoveryCodes
  counter := row.mfaLastTOTPCounter

/-- How an update by the call `t`, which read the row as `read`, changes these columns; what its
guard says about them is part of it. -/
inductive MFAChange (env : Env) (t : ℕ) (own : History) (id : ℕ) (read : UserRow) (guard : List UserColumn)
    (before : MFAState) : MFAState → Prop
  | completeMFA {code : GoString} {verdict : Verdict} {factor : Factor} (verified : Verified t own id read code verdict)
    (accepted : verdict.factor = some factor) (enabled : before.enabled = true)
      (secret : before.secret = read.mfaSecret)
    (counter : before.counter = read.mfaLastTOTPCounter) :
    MFAChange env t own id read guard before { before with codes := verdict.remaining, counter := verdict.counter }
  | regenerate {code : GoString} {verdict : Verdict} {factor : Factor} (verified : Verified t own id read code verdict)
    (accepted : verdict.factor = some factor) (enabled : before.enabled = true)
      (secret : before.secret = read.mfaSecret)
    (counter : before.counter = read.mfaLastTOTPCounter) :
    MFAChange env t own id read guard before
      { before with codes := (env.generateRecoveryCodes t).map env.hashToken, counter := verdict.counter }
  | disable {code : GoString} {verdict : Verdict} {factor : Factor} (verified : Verified t own id read code verdict)
    (accepted : verdict.factor = some factor) (secret : before.secret = read.mfaSecret)
    (guarded : guard = [.mfaSecret, .mfaEnabled]) :
    MFAChange env t own id read guard before ⟨false, [], [], verdict.remaining, [], verdict.counter⟩
  | enable {secret code : GoString} {counter : ℕ} (decrypted : decryptSecret env read.mfaPendingSecret = some secret)
    (nonempty : secret ≠ []) (validated : Validated t own id secret code counter)
    (pending : before.pendingSecret = read.mfaPendingSecret) :
    MFAChange env t own id read guard before
      ⟨true, read.mfaPendingSecret, [], read.mfaPendingRecoveryCodes, [], counter⟩

/-- The update, of a row that the call `t` read as `read`, replaces the recovery codes that were
read. -/
structure Rewrites (env : Env) (t : ℕ) (own : History) (id : ℕ) (read user : UserRow) (guard : List UserColumn)
    (expected : UserRow) (fields : List UserColumn) (before after : MFAState) : Prop where
  change : MFAChange env t own id read guard before after
  setsCodes : .mfaRecoveryCodes ∈ fields
  expectedCodes : expected.mfaRecoveryCodes = read.mfaRecoveryCodes
  codes : user.mfaRecoveryCodes = after.codes

theorem agrees_eq {β : Type} {expected row : UserRow} {column : UserColumn} (h : column.agrees expected row = true)
    (field : UserRow → β) : field (column.copy expected row) = field row := congrArg field (of_decide_eq_true h)

section Laws
variable {env : Env} {t : ℕ} {own : History}

theorem Change.mfa {id : ℕ} {read user expected row : UserRow} {guard fields : List UserColumn}
    (h : Change env t own id read user guard expected fields)
    (hguard : guard.all (UserColumn.agrees expected row) = true) :
    (row.withColumns user fields).mfa = row.mfa ∧ Never Op.isCheck own ∧
      .mfaRecoveryCodes ∉ fields ∨
      Rewrites env t own id read user guard expected fields row.mfa
        (row.withColumns user fields).mfa := by
  rw [List.all_eq_true] at hguard
  cases h with
  | completeMFA verified accepted =>
    refine Or.inr ⟨.completeMFA verified accepted ?_ ?_ ?_, by decide, rfl, rfl⟩
    · exact (agrees_eq (hguard .mfaEnabled (by decide)) UserRow.mfaEnabled).symm
    · exact (agrees_eq (hguard .mfaSecret (by decide)) UserRow.mfaSecret).symm
    · exact (agrees_eq (hguard .mfaLastTOTPCounter (by decide)) UserRow.mfaLastTOTPCounter).symm
  | regenerate verified accepted =>
    refine Or.inr ⟨.regenerate verified accepted ?_ ?_ ?_, by decide, rfl, rfl⟩
    · exact (agrees_eq (hguard .mfaEnabled (by decide)) UserRow.mfaEnabled).symm
    · exact (agrees_eq (hguard .mfaSecret (by decide)) UserRow.mfaSecret).symm
    · exact (agrees_eq (hguard .mfaLastTOTPCounter (by decide)) UserRow.mfaLastTOTPCounter).symm
  | disable verified accepted enabled =>
    refine Or.inr ⟨.disable verified accepted ?_ rfl, by decide, rfl, rfl⟩
    exact (agrees_eq (hguard .mfaSecret (by decide)) UserRow.mfaSecret).symm
  | enable decrypted nonempty validated =>
    refine Or.inr ⟨.enable decrypted nonempty validated ?_, by decide, rfl, rfl⟩
    exact (agrees_eq (hguard .mfaPendingSecret (by decide)) UserRow.mfaPendingSecret).symm
  | accountSetup email hash unchecked => exact Or.inl ⟨rfl, unchecked, by decide⟩
  | password hash unchecked => exact Or.inl ⟨rfl, unchecked, by decide⟩

end Laws

/-! ## Verdicts -/

section Verdicts
variable {env : Env} {row : UserRow} {code : GoString} {now : Instant}

theorem verifyMFAFactor_cases (env : Env) (row : UserRow) (code : GoString) (now : Instant) :
    verifyMFAFactor env row code now = .refused row ∨
    (∃ code', verifyMFAFactor env row code now = recoveryVerdict env row code') ∨
    ∃ secret counter, secret ≠ [] ∧ decryptSecret env row.mfaSecret = some secret ∧ row.mfaLastTOTPCounter < counter ∧
      verifyMFAFactor env row code now = ⟨some (.totp counter), row.mfaRecoveryCodes, counter⟩ := by
  rw [verifyMFAFactor]
  by_cases hcode : env.toUpper (trimSpace code) = []
  · rw [if_pos hcode]
    exact Or.inl rfl
  · rw [if_neg hcode]
    split
    · exact Or.inr (Or.inl ⟨_, rfl⟩)
    · rename_i secret hsecret
      by_cases hnil : secret = []
      · rw [if_pos hnil]
        exact Or.inr (Or.inl ⟨_, rfl⟩)
      · rw [if_neg hnil]
        split
        · exact Or.inr (Or.inl ⟨_, rfl⟩)
        · rename_i counter _
          by_cases hle : counter ≤ row.mfaLastTOTPCounter
          · rw [if_pos hle]
            exact Or.inl rfl
          · rw [if_neg hle]
            exact Or.inr (Or.inr ⟨secret, counter, hnil, hsecret, Nat.lt_of_not_le hle, rfl⟩)

theorem decryptSecret_nil_ne {secret : GoString} (h : secret ≠ []) : decryptSecret env [] ≠ some secret := by
  exact fun heq => h (Option.some.inj heq).symm

theorem recoveryVerdict_factor {factor : Factor} (h : (recoveryVerdict env row code).factor = some factor) :
    ∃ hash, factor = .recovery hash ∧
      row.mfaRecoveryCodes.find? (fun item => subtleEqualHash item (env.hashToken code)) = some hash := by
  obtain ⟨hash, hfind, rfl⟩ := Option.map_eq_some_iff.mp h
  exact ⟨hash, rfl, hfind⟩

theorem totp_verdict {counter : ℕ}
    (h : (verifyMFAFactor env row code now).factor = some (.totp counter)) :
    row.mfaLastTOTPCounter < counter ∧ verifyMFAFactor env row code now =
      ⟨some (.totp counter), row.mfaRecoveryCodes, counter⟩ ∧
      ∃ secret, secret ≠ [] ∧ decryptSecret env row.mfaSecret = some secret := by
  rcases verifyMFAFactor_cases env row code now with heq | ⟨code', heq⟩ | ⟨secret, counter', hnil, hsecret, hlt, heq⟩
  · rw [heq] at h
    cases h
  · rw [heq] at h
    obtain ⟨hash, hfactor, -⟩ := recoveryVerdict_factor h
    cases hfactor
  · rw [heq] at h ⊢
    cases h
    exact ⟨hlt, rfl, secret, hnil, hsecret⟩

theorem recovery_verdict {hash : GoString} (h : (verifyMFAFactor env row code now).factor = some (.recovery hash)) :
    ∃ code', row.mfaRecoveryCodes.find? (fun item => subtleEqualHash item (env.hashToken code')) = some hash ∧
      verifyMFAFactor env row code now = recoveryVerdict env row code' := by
  rcases verifyMFAFactor_cases env row code now with heq | ⟨code', heq⟩ | ⟨secret, counter', hnil, hsecret, hlt, heq⟩
  · rw [heq] at h
    cases h
  · rw [heq] at h
    obtain ⟨hash', hfactor, hfind⟩ := recoveryVerdict_factor h
    cases hfactor
    exact ⟨code', hfind, heq⟩
  · rw [heq] at h
    cases h

theorem spends_of_accepted {factor : Factor} (h : (verifyMFAFactor env row code now).factor = some factor) :
    (verifyMFAFactor env row code now).Spends row := by
  cases factor with
  | totp counter =>
    obtain ⟨hlt, heq, -⟩ := totp_verdict h
    rw [heq]
    exact Or.inr (Nat.ne_of_gt hlt)
  | recovery hash =>
    obtain ⟨code', hfind, heq⟩ := recovery_verdict h
    have hmatch : subtleEqualHash hash (env.hashToken code') = true := by
      have hp := List.find?_some hfind
      exact hp
    have hlength := List.length_eraseP_add_one (p := fun item => subtleEqualHash item (env.hashToken code'))
      (List.mem_of_find?_eq_some hfind) hmatch
    rw [heq]
    refine Or.inl (Nat.ne_of_lt ?_)
    rw [← hlength]
    exact Nat.lt_succ_self _

end Verdicts

/-! ## Checks in the log -/

/-- The update of `DisableMFA` finds the row as its guard says. -/
def DisableFinds (w : AuthWorld) (op : Op) : Prop :=
  ∀ id user expected fields, op = .users (.updateFieldsIf id user [.mfaSecret, .mfaEnabled] expected fields) →
    ∃ row, w.store.users.get id = some row ∧
    [UserColumn.mfaSecret, .mfaEnabled].all (UserColumn.agrees expected row) = true

structure FactorLog (env : Env) (w : AuthWorld) : Prop where
  /-- A call checks one code. -/
  single : ∀ e ∈ w.log, ∀ e' ∈ w.log, e.call = e'.call → e.op.isCheck = true → e'.op.isCheck = true → e = e'
  truth : ∀ t id row code verdict, Verified t w.log id row code verdict →
    ∃ now, verdict = verifyMFAFactor env row code now
  notStale : ∀ t id user expected fields,
    (⟨t, .users (.updateFieldsIf id user [.mfaSecret, .mfaEnabled] expected fields), .error .stale⟩ : Entry Ans) ∉ w.log

theorem factorLog_init (env : Env) (s : Store) : FactorLog env ⟨s, []⟩ where
  single := List.forall_mem_nil _
  truth := fun _ _ _ _ _ h => absurd h List.not_mem_nil
  notStale := fun _ _ _ _ _ => List.not_mem_nil

section Log
variable {env : Env} {w : AuthWorld} {t : ℕ} {op : Op}

theorem never_check (hlaw : Law env t (w.own t) op) (h : op.isCheck = true) :
    Never Op.isCheck (w.own t) ∧ Never Op.isUpdate (w.own t) := by
  cases op with
  | verifyMFAFactor id row code => exact ⟨hlaw.2.1, hlaw.2.2.1⟩
  | validateTOTP id secret code => exact hlaw
  | _ => cases h

def PutToUse (t : ℕ) (log : History) : Prop :=
  ∃ id user guard expected fields,
    (⟨t, .users (.updateFieldsIf id user guard expected fields), .ok ()⟩ : Entry Ans) ∈ log

theorem Updated.putToUse (h : Updated t (w.own t)) (hlog : FactorLog env w) : PutToUse t w.log := by
  obtain ⟨id, user, guard, expected, fields, hok | ⟨rfl, hstale⟩⟩ := h
  · exact ⟨id, user, guard, expected, fields, (mem_own.mp hok).1⟩
  · exact absurd (mem_own.mp hstale).1 (hlog.notStale t id user expected fields)

theorem Settled.verified (h : Settled t (w.own t)) (hlog : FactorLog env w) {id : ℕ} {row : UserRow} {code : GoString}
    {verdict : Verdict} {factor : Factor} (hverified : Verified t w.log id row code verdict)
    (hfactor : verdict.factor = some factor) : PutToUse t w.log := by
  obtain ⟨now, rfl⟩ := hlog.truth t id row code verdict hverified
  refine (h.1 id row code _ factor (mem_own.mpr ⟨hverified, rfl⟩) hfactor (spends_of_accepted hfactor)).putToUse hlog

theorem Settled.validated (h : Settled t (w.own t)) (hlog : FactorLog env w) {id : ℕ}
    {secret code : GoString} {counter : ℕ} (hvalidated : Validated t w.log id secret code counter) :
    PutToUse t w.log :=
  (h.2 id secret code counter (mem_own.mpr ⟨hvalidated, rfl⟩)).putToUse hlog

def Succeeded (c : Config Ans Store ServiceRequest (Except CallError Reply)) (t : ℕ) : Prop :=
  ∃ task reply, c.task t = some task ∧ task.rest = .ret (.ok reply)

end Log

/-! ## Statements on users -/

section Tables
variable [UnicodeTables] {env : Env} {w : AuthWorld} {t : ℕ} {op : Op} {i : Chance}

theorem users_step (hlaw : Law env t (w.own t) op) :
    (w.step (Op.exec env) t op i).store.users = w.store.users ∨
    (∃ id time, (w.step (Op.exec env) t op i).store.users =
      w.store.users.update (fun id' _ => id' = id) fun row =>
        { row with lastLoginAt := some time }) ∨
    ∃ id user guard expected fields row,
      (⟨t, op, w.answer (Op.exec env) op i⟩ : Entry Ans) =
        ⟨t, .users (.updateFieldsIf id user guard expected fields), .ok ()⟩ ∧
      w.store.users.get id = some row ∧ guard.all (UserColumn.agrees expected row) = true ∧
      (w.step (Op.exec env) t op i).store.users =
        w.store.users.update (fun id' _ => id' = id) fun row => row.withColumns user fields := by
  by_cases hop : ∃ uop, op = .users uop
  · obtain ⟨uop, rfl⟩ := hop
    have hstep : (w.step (Op.exec env) t (.users uop) i).store.users =
      (orFailed i.ok w.store.users (uop.exec env w.store.users)).2 := rfl
    have hans : w.answer (Op.exec env)
      (.users uop) i = (orFailed i.ok w.store.users (uop.exec env w.store.users)).1 := rfl
    cases hok : i.ok with
    | false =>
      rw [hok] at hstep
      exact Or.inl hstep
    | true =>
      rw [hok] at hstep hans
      rw [hans, hstep]
      cases uop with
      | updateFieldsIf id user guard expected fields =>
        rcases updateFieldsIf_cases env w.store.users id user expected guard fields with hsame
          | ⟨row, hget, hguard, hexec⟩
        · exact Or.inl hsame
        · refine Or.inr (Or.inr ⟨id, user, guard, expected, fields, row, ?_, hget, hguard, ?_⟩)
          · exact congrArg (fun result : Except StoreError Unit × Table UserRow =>
              (⟨t, .users (.updateFieldsIf id user guard expected fields), result.1⟩ : Entry Ans)) hexec
          · exact congrArg Prod.snd hexec
      | updateLastLogin id time => exact Or.inr (Or.inl ⟨id, time, rfl⟩)
      | updateColumns id values fields => exact hlaw.elim
      | create user => exact hlaw.elim
      | delete id => exact hlaw.elim
      | _ => exact Or.inl rfl
  · exact Or.inl (users_frame (fun uop heq => hop ⟨uop, heq⟩) i w.store)

theorem user_origin (hlaw : Law env t (w.own t) op) {id : ℕ} {row' : UserRow}
    (h : (w.step (Op.exec env) t op i).store.users.get id = some row') : ∃ row, w.store.users.get id = some row := by
  have hupdate : ∀ p f, (w.store.users.update p f).get id = some row' → ∃ row, w.store.users.get id = some row := by
    intro p f h
    rw [Table.get_update] at h
    obtain ⟨row, hget, -⟩ := Option.map_eq_some_iff.mp h
    exact ⟨row, hget⟩
  rcases users_step hlaw with hsame | ⟨id', time, hstep⟩ | ⟨id', user, guard, expected, fields, row, -, -, -, hstep⟩
  · exact ⟨row', hsame ▸ h⟩
  · exact hupdate _ _ (hstep ▸ h)
  · exact hupdate _ _ (hstep ▸ h)

theorem readUser_truth {u k id : ℕ} {read : UserRow}
    (heq : (⟨u, .users (.getByID k), .ok (id, read)⟩ : Entry Ans) = ⟨t, op, w.answer (Op.exec env) op i⟩) :
    id = k ∧ w.store.users.get id = some read ∧ (w.step (Op.exec env) t op i).store.users = w.store.users := by
  obtain ⟨-, hop, hans⟩ := Entry.mk.inj heq
  subst hop
  obtain ⟨hval, hstep⟩ := users_ok (eq_of_heq hans).symm
  obtain ⟨row, hget, hpair⟩ := Option.map_eq_some_iff.mp (orNotFound_ok hval)
  obtain ⟨rfl, rfl⟩ := Prod.mk.inj hpair
  exact ⟨rfl, hget, hstep t⟩

theorem update_step {id : ℕ} {user expected : UserRow} {guard fields : List UserColumn}
    (hlaw : Law env t (w.own t) op)
    (heq : (⟨t, op, w.answer (Op.exec env) op i⟩ : Entry Ans) =
      ⟨t, .users (.updateFieldsIf id user guard expected fields), .ok ()⟩) :
    ∃ row read, w.store.users.get id = some row ∧ ReadUser t (w.own t) id read ∧
      Change env t (w.own t) id read user guard expected fields ∧
        guard.all (UserColumn.agrees expected row) = true ∧
      (w.step (Op.exec env) t op i).store.users.get id = some (row.withColumns user fields) := by
  obtain ⟨-, rfl, hans⟩ := Entry.mk.inj heq
  obtain ⟨-, read, hread, hchange⟩ := hlaw
  obtain ⟨hval, hstep⟩ := users_ok (eq_of_heq hans)
  have hfields : fields ≠ [] := by
    cases hchange <;> exact List.cons_ne_nil _ _
  rw [UserOp.exec, if_neg hfields] at hval hstep
  split at hval
  · cases hval
  · rename_i row hget
    split_ifs at hval with hguard
    refine ⟨row, read, hget, hread, hchange, hguard, ?_⟩
    rw [hstep t, hget]
    dsimp only
    rw [if_pos hguard, writeColumns_ok hval, Table.get_update_some _ _ hget, if_pos (decide_eq_true rfl)]

theorem mfa_step (hlaw : Law env t (w.own t) op) {id : ℕ} {row : UserRow}
    (h : w.store.users.get id = some row) :
    ∃ row', (w.step (Op.exec env) t op i).store.users.get id = some row' ∧
      (row'.mfa = row.mfa ∨ ∃ user guard expected fields read,
        (⟨t, op, w.answer (Op.exec env) op i⟩ : Entry Ans) =
          ⟨t, .users (.updateFieldsIf id user guard expected fields), .ok ()⟩ ∧
        ReadUser t (w.own t) id read ∧ guard.all (UserColumn.agrees expected row) = true ∧
        Rewrites env t (w.own t) id read user guard expected fields row.mfa row'.mfa) := by
  rcases users_step hlaw with hsame | ⟨id', time, hstep⟩
    | ⟨id', user, guard, expected, fields, row₁, heq, hget, hguard, hstep⟩
  · exact ⟨row, hsame ▸ h, Or.inl rfl⟩
  · rw [hstep]
    refine ⟨_, Table.get_update_some _ _ h, Or.inl ?_⟩
    split_ifs <;> rfl
  · rw [hstep]
    refine ⟨_, Table.get_update_some _ _ h, ?_⟩
    split_ifs with hid
    · obtain rfl := of_decide_eq_true hid
      rw [h, Option.some.injEq] at hget
      subst hget
      obtain ⟨-, hop, -⟩ := Entry.mk.inj heq
      rw [hop] at hlaw
      obtain ⟨-, read, hread, hchange⟩ := hlaw
      refine (hchange.mfa hguard).imp And.left fun hmfa => ?_
      exact ⟨user, guard, expected, fields, read, heq, hread, hguard, hmfa⟩
    · exact Or.inl rfl

/-! ## What the calls keep -/

theorem not_stale {id : ℕ} {user expected : UserRow} {fields : List UserColumn}
    (h : DisableFinds w (.users
      (.updateFieldsIf id user [.mfaSecret, .mfaEnabled] expected fields))) :
    w.answer (Op.exec env)
      (.users (.updateFieldsIf id user [.mfaSecret, .mfaEnabled] expected fields)) i ≠
      .error .stale := by
  obtain ⟨row, hget, hguard⟩ := h id user expected fields rfl
  change (orFailed i.ok w.store.users _).1 ≠ _
  cases i.ok with
  | false => exact fun heq => by cases heq
  | true =>
    rw [orFailed, UserOp.exec, hget]
    dsimp only
    rw [writeColumns]
    split_ifs <;> exact fun heq => by cases heq

theorem FactorLog.step (h : FactorLog env w) (hlaw : Law env t (w.own t) op) (hfinds : DisableFinds w op) :
    FactorLog env (w.step (Op.exec env) t op i) where
  single := by
    have hnew : ∀ e ∈ w.log, e.call = t → e.op.isCheck = true → op.isCheck = true → False := by
      intro e he hcall hcheck hop
      have hfalse := (never_check hlaw hop).1 e (mem_own.mpr ⟨he, hcall⟩)
      rw [hcheck] at hfalse
      cases hfalse
    intro e he e' he' hcall hcheck hcheck'
    rcases List.mem_cons.mp he with rfl | he
    · rcases List.mem_cons.mp he' with rfl | he'
      · rfl
      · exact (hnew e' he' hcall.symm hcheck' hcheck).elim
    · rcases List.mem_cons.mp he' with rfl | he'
      · exact (hnew e he hcall hcheck hcheck').elim
      · exact h.single e he e' he' hcall hcheck hcheck'
  truth := by
    intro u id row code verdict hverified
    rcases List.mem_cons.mp hverified with heq | hverified
    · obtain ⟨-, hop, hans⟩ := Entry.mk.inj heq
      subst hop
      exact ⟨w.store.clock, eq_of_heq hans⟩
    · exact h.truth u id row code verdict hverified
  notStale := by
    intro u id user expected fields hmem
    rcases List.mem_cons.mp hmem with heq | hmem
    · obtain ⟨-, hop, hans⟩ := Entry.mk.inj heq
      subst hop
      exact not_stale hfinds (eq_of_heq hans).symm
    · exact h.notStale u id user expected fields hmem

theorem putToUse_step (hlaw : Law env t (w.own t) op) {u : ℕ} {e : Entry Ans} (hcall : e.call = u)
    (hcheck : e.op.isCheck = true) (he : e ∈ (w.step (Op.exec env) t op i).log)
    (huse : PutToUse u (w.step (Op.exec env) t op i).log) :
    e ∈ w.log ∧ (PutToUse u w.log ∨ u = t ∧ ∃ id user guard expected fields,
      (⟨t, op, w.answer (Op.exec env) op i⟩ : Entry Ans) =
        ⟨t, .users (.updateFieldsIf id user guard expected fields), .ok ()⟩) := by
  obtain ⟨id, user, guard, expected, fields, hmem⟩ := huse
  rcases List.mem_cons.mp he with rfl | he
  · -- a call that checks a code has not updated the user yet
    rcases List.mem_cons.mp hmem with heq | hmem
    · obtain ⟨-, hop, -⟩ := Entry.mk.inj heq
      rw [← hop] at hcheck
      cases hcheck
    · have hfalse := (never_check hlaw hcheck).2 _ (mem_own.mpr ⟨hmem, hcall.symm⟩)
      cases hfalse
  · refine ⟨he, ?_⟩
    rcases List.mem_cons.mp hmem with heq | hmem
    · obtain ⟨hu, -⟩ := Entry.mk.inj heq
      subst hu
      exact Or.inr ⟨rfl, id, user, guard, expected, fields, heq.symm⟩
    · exact Or.inl ⟨id, user, guard, expected, fields, hmem⟩

end Tables

/-! ## Writes to the users -/

/-- The call had read the user, and had a code accepted by the second factor of that row or with its
pending secret. -/
def CodeAccepted (env : Env) (t : ℕ) (log : History) (id : ℕ) : Prop :=
  ∃ row, ReadUser t log id row ∧
    ((∃ user code verdict factor, Verified t log user row code verdict ∧ verdict.factor = some factor) ∨
      ∃ user secret code counter, decryptSecret env row.mfaPendingSecret = some secret ∧
        Validated t log user secret code counter)

/-- Users are neither created nor deleted, role and status stay, and the columns of the second
factor are for calls with an accepted code. -/
def UserOp.Guarded (env : Env) (t : ℕ) (log : History) : UserOp → Prop
  | .updateFieldsIf id _ _ _ fields =>
    .role ∉ fields ∧ .active ∉ fields ∧ ((∃ column ∈ mfaColumns, column ∈ fields) → CodeAccepted env t log id)
  | .updateColumns .. | .create _ | .delete _ => False
  | _ => True

theorem Law.guarded {env : Env} {t : ℕ} {own : History} {op : UserOp}
    (h : Law env t own (.users op)) : op.Guarded env t own := by
  cases op with
  | updateFieldsIf id user guard expected fields =>
    obtain ⟨-, row, hread, hchange⟩ := h
    cases hchange with
    | enable decrypted nonempty validated =>
      exact ⟨by decide, by decide, fun _ => ⟨_, hread, Or.inr ⟨_, _, _, _, decrypted, validated⟩⟩⟩
    | accountSetup | password => exact ⟨by decide, by decide, fun h => absurd h (by decide)⟩
    | _ => exact ⟨by decide, by decide, fun _ => ⟨_, hread, Or.inl ⟨_, _, _, _, ‹Verified _ _ _ _ _ _›, ‹_›⟩⟩⟩
  | _ => exact h

/-- Whatever calls interleave and whatever fails: all that the service sends to the table of users
is guarded by what the same call did before. -/
theorem users_guarded [UnicodeTables] (env : Env) (s : Store)
    (events : List (Event ServiceRequest Chance))
    (c : Config Ans Store ServiceRequest (Except CallError Reply))
    (hrun : (service env).run (Config.init s) events = some c) (later earlier : History) (t : ℕ)
    (op : UserOp) (answer : Ans (.users op))
    (hlog : c.world.log = later ++ ⟨t, .users op, answer⟩ :: earlier) :
    op.Guarded env t (earlier.filter fun e => e.call = t) := by
  let inv : AuthWorld → Prop := fun w => ∀ later earlier t op answer, w.log = later ++
    ⟨t, .users op, answer⟩ :: earlier →
    op.Guarded env t (earlier.filter fun e => e.call = t)
  have hkeeps : Keeps (service env).exec (fun t => Law env t) (fun _ _ _ _ => True) inv := by
    intro t op i w hinv hlaw _ later earlier u uop answer hlog
    cases later with
    | nil =>
      obtain ⟨heq, rfl⟩ := List.cons.inj hlog
      obtain ⟨rfl, rfl, -⟩ := Entry.mk.inj heq
      exact hlaw.guarded
    | cons e later => exact hinv later earlier u uop answer (List.cons.inj hlog).2
  have hinit : inv ⟨s, []⟩ :=
    fun later _ _ _ _ h =>
    absurd h.symm (List.append_ne_nil_of_right_ne_nil later (List.cons_ne_nil _ _))
  exact (lawful_run (service env) (fun t request (_ : True) => callOf_obeys request) hkeeps hinit
    (along_always (fun _ => trivial) (fun _ _ _ _ => trivial) _ _) hrun).1 later earlier t op answer hlog

/-- The second factor is turned off with a recovery code. -/
theorem users_guarded_disable :
    ∃ c user expected earlier,
    (@service asciiTables sampleEnv).run
      (Config.init (sampleStore { sampleUser with mfaRecoveryCodes := [[0x78]] } .empty))
      (.start 0 (.disableMFA 1 [0x78]) :: steps 0 3) = some c ∧
    c.world.log = (⟨0, .users
      (.updateFieldsIf 1 user [.mfaSecret, .mfaEnabled] expected mfaColumns), .ok ()⟩ :
      Entry Ans) :: earlier ∧
    CodeAccepted sampleEnv 0 (earlier.filter fun e => e.call = 0) 1 := by
  refine ⟨?c, ?user, ?expected, ?earlier, ?run, ?log,
    (@users_guarded asciiTables sampleEnv _ _ ?c ?run [] ?earlier 0
      (.updateFieldsIf 1 ?user _ ?expected _) _ ?log).2.2 (by decide)⟩
  case run => rfl
  case log => rfl

end Portlyn.Auth
