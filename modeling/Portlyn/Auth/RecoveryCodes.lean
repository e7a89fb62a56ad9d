import Portlyn.Auth.SecondFactors
import Portlyn.Lib.Mutex

/-! # Recovery codes

A call takes a recovery code out of the list it has read and writes the rest back; the guard of the
update names other columns, so a list that was written in between is overwritten. Two calls can so
accept one code, and a code that was used can come back (`recoveryCodesReused`). Where every update
finds the list that the call read, a code is accepted once and does not come back
(`recoveryCodesOneTime`). -/
namespace Portlyn.Auth
open Go Domain Lib Lib.Interleave
set_option autoImplicit false

/-! ## Codes

A stored hash stands for a code as `subtleEqualHash` compares it. -/

def codeKeys (codes : List GoString) : List GoString := codes.map trimSpace

def MFAState.keys (state : MFAState) : List GoString := codeKeys state.codes ++ codeKeys state.pendingCodes

def ChecksCode (id : ℕ) (key : GoString) : Entry Ans → Prop
  | ⟨_, .verifyMFAFactor id' _ _, verdict⟩ =>
    id' = id ∧ ∃ hash, verdict.factor = some (.recovery hash) ∧ trimSpace hash = key
  | _ => False

def AcceptsCode (t : ℕ) (log : History) (id : ℕ) (key : GoString) : Prop := ∃ e ∈ log, e.call = t ∧ ChecksCode id key e

/-- An update of the call took effect that replaces a list with the code by one without it. -/
def Drops (t : ℕ) (log : History) (id : ℕ) (key : GoString) : Prop :=
  ∃ user guard expected fields,
    (⟨t, .users (.updateFieldsIf id user guard expected fields), .ok ()⟩ : Entry Ans) ∈ log ∧
    .mfaRecoveryCodes ∈ fields ∧ key ∈ codeKeys expected.mfaRecoveryCodes ∧ key ∉ codeKeys user.mfaRecoveryCodes

/-- The code was in a list of the user at first, or is in one that an update read or wrote. -/
def Known (s : Store) (log : History) (id : ℕ) (key : GoString) : Prop :=
  (∃ row, s.users.get id = some row ∧ key ∈ row.mfa.keys) ∨
    ∃ t user guard expected fields answer,
      (⟨t, .users (.updateFieldsIf id user guard expected fields), answer⟩ : Entry Ans) ∈ log ∧
        (key ∈ codeKeys user.mfaRecoveryCodes ∨ key ∈ codeKeys expected.mfaRecoveryCodes)

theorem isCheck_of_checksCode {id : ℕ} {key : GoString} {e : Entry Ans} (h : ChecksCode id key e) :
    e.op.isCheck = true := by
  rw [ChecksCode.eq_def] at h
  split at h
  · rfl
  · exact h.elim

/-! ## The condition -/

/-- An update of the recovery codes that takes effect finds the list that the call read, and the one
of `DisableMFA` takes effect. -/
def CodesAsRead (t : ℕ) (op : Op) (w : AuthWorld) : Prop :=
  match op with
  | .users (.updateFieldsIf id _ guard expected fields) =>
    .mfaRecoveryCodes ∈ fields → ∀ read, ReadUser t (w.own t) id read →
      (∀ row, w.store.users.get id = some row → guard.all (UserColumn.agrees expected row) = true →
        row.mfaRecoveryCodes = read.mfaRecoveryCodes) ∧
      (guard = [.mfaSecret, .mfaEnabled] →
        ∃ row, w.store.users.get id = some row ∧ guard.all (UserColumn.agrees expected row) = true)
  | _ => True

def DrawnCodesNew (env : Env) (s : Store) (t : ℕ) (op : Op) (w : AuthWorld) : Prop :=
  match op with
  | .users (.updateFieldsIf id user _ _ _) =>
    user.mfaRecoveryCodes = (env.generateRecoveryCodes t).map env.hashToken →
      (codeKeys user.mfaRecoveryCodes).Nodup ∧ ∀ key ∈ codeKeys user.mfaRecoveryCodes, ¬ Known s w.log id key
  | _ => True

def CodesUndisturbed (env : Env) (s : Store) (t : ℕ) (op : Op) (_ : Chance) (w : AuthWorld) : Prop :=
  CodesAsRead t op w ∧ DrawnCodesNew env s t op w

/-! ## Updates of the list -/

section Tables
variable {env : Env} {w : AuthWorld} {t : ℕ}

theorem keys_eraseP (codes : List GoString) (hash : GoString) :
    codeKeys (codes.eraseP fun item => subtleEqualHash item hash) = (codeKeys codes).erase (trimSpace hash) := by
  rw [List.erase_eq_eraseP, codeKeys, codeKeys, List.eraseP_map]
  congr 2
  funext item
  rw [Bool.eq_iff_iff, Function.comp_apply, beq_iff_eq]
  exact decide_eq_true_iff.trans eq_comm

variable {row : UserRow}

theorem accepted_sublist {code : GoString} {now : Instant} {factor : Factor}
    (h : (verifyMFAFactor env row code now).factor = some factor) :
    (verifyMFAFactor env row code now).remaining.Sublist row.mfaRecoveryCodes := by
  cases factor with
  | totp counter =>
    obtain ⟨-, heq, -⟩ := totp_verdict h
    rw [heq]
  | recovery hash =>
    obtain ⟨code', -, heq⟩ := recovery_verdict h
    rw [heq]
    exact List.eraseP_sublist

theorem accepted_dropped {code hash : GoString} {now : Instant}
    (h : (verifyMFAFactor env row code now).factor = some (.recovery hash))
    (hnodup : (codeKeys row.mfaRecoveryCodes).Nodup) :
    trimSpace hash ∈ codeKeys row.mfaRecoveryCodes ∧
      trimSpace hash ∉ codeKeys (verifyMFAFactor env row code now).remaining := by
  obtain ⟨code', hfind, heq⟩ := recovery_verdict h
  refine ⟨List.mem_map_of_mem (List.mem_of_find?_eq_some hfind), ?_⟩
  have hmatch : subtleEqualHash hash (env.hashToken code') = true := by
    have hp := List.find?_some hfind
    exact hp
  have hkey : trimSpace hash = trimSpace (env.hashToken code') := of_decide_eq_true hmatch
  rw [heq, recoveryVerdict, keys_eraseP, hkey]
  exact hnodup.not_mem_erase

variable {read : UserRow} {guard : List UserColumn} {before after : MFAState}

theorem MFAChange.keys {id : ℕ} (h : MFAChange env t (w.own t) id read guard before after)
    (hlog : FactorLog env w) (hcodes : before.codes = read.mfaRecoveryCodes)
    (hpending : before.pendingSecret = [] ∨ before.pendingSecret = read.mfaPendingSecret ∧
      before.pendingCodes = read.mfaPendingRecoveryCodes) :
    (codeKeys after.pendingCodes).Sublist (codeKeys before.pendingCodes) ∧
      (after.keys.Sublist before.keys ∨
        after.codes = (env.generateRecoveryCodes t).map env.hashToken) := by
  have hremaining : ∀ {code verdict factor}, Verified t (w.own t) id read code verdict → verdict.factor = some factor →
      (codeKeys verdict.remaining).Sublist (codeKeys before.codes) := by
    intro code verdict factor hverified hfactor
    obtain ⟨now, rfl⟩ := hlog.truth t id read code verdict (mem_own.mp hverified).1
    rw [hcodes]
    exact (accepted_sublist hfactor).map trimSpace
  cases h with
  | completeMFA verified accepted _ _ _ =>
    exact ⟨List.Sublist.refl _, Or.inl ((hremaining verified accepted).append (List.Sublist.refl _))⟩
  | regenerate verified accepted _ _ _ => exact ⟨List.Sublist.refl _, Or.inr rfl⟩
  | disable verified accepted _ _ =>
    exact ⟨List.nil_sublist _, Or.inl ((hremaining verified accepted).append (List.nil_sublist _))⟩
  | enable decrypted nonempty validated pending =>
    refine ⟨List.nil_sublist _, Or.inl ?_⟩
    rcases hpending with hnil | ⟨-, hpending⟩
    · -- nothing was pending, but a code for it was found right
      rw [← pending, hnil] at decrypted
      exact absurd decrypted (decryptSecret_nil_ne nonempty)
    · rw [← hpending]
      change (codeKeys before.pendingCodes ++ []).Sublist before.keys
      rw [List.append_nil]
      exact List.sublist_append_right _ _

variable {key : GoString}

theorem AcceptsCode.putToUse {id : ℕ} (h : AcceptsCode t w.log id key) (hlog : FactorLog env w)
    (hsettled : Settled t (w.own t)) : PutToUse t w.log := by
  obtain ⟨e, he, rfl, hcode⟩ := h
  rw [ChecksCode.eq_def] at hcode
  split at hcode
  · obtain ⟨-, hash, hfactor, -⟩ := hcode
    exact hsettled.verified hlog he hfactor
  · exact hcode.elim

theorem MFAChange.acceptsCode {id id' : ℕ}
    (h : MFAChange env t (w.own t) id read guard before after) (hlog : FactorLog env w)
    (hnodup : (codeKeys read.mfaRecoveryCodes).Nodup)
    (hdrawn : after.codes = (env.generateRecoveryCodes t).map env.hashToken →
      key ∈ codeKeys read.mfaRecoveryCodes → key ∉ codeKeys after.codes)
    (haccepts : AcceptsCode t w.log id' key) :
    id' = id ∧ key ∈ codeKeys read.mfaRecoveryCodes ∧ key ∉ codeKeys after.codes := by
  obtain ⟨e, he, hcall, hcode⟩ := haccepts
  have hcheck := isCheck_of_checksCode hcode
  have hverified : ∀ {code verdict}, Verified t (w.own t) id read code verdict →
      id' = id ∧ key ∈ codeKeys read.mfaRecoveryCodes ∧ key ∉ codeKeys verdict.remaining := by
    intro code verdict hverified
    have hmem := (mem_own.mp hverified).1
    obtain rfl := hlog.single e he _ hmem hcall hcheck rfl
    obtain ⟨hid, hash, hfactor, rfl⟩ := hcode
    obtain ⟨now, rfl⟩ := hlog.truth t id read code verdict hmem
    exact ⟨hid.symm, accepted_dropped hfactor hnodup⟩
  cases h with
  | completeMFA verified _ _ _ _ => exact hverified verified
  | regenerate verified _ _ _ _ =>
    obtain ⟨hid, hkey, -⟩ := hverified verified
    exact ⟨hid, hkey, hdrawn rfl hkey⟩
  | disable verified _ _ _ => exact hverified verified
  | enable _ _ validated _ =>
    obtain rfl := hlog.single e he _ (mem_own.mp validated).1 hcall hcheck rfl
    exact hcode.elim

/-! ## What the calls keep -/

structure CodeInv (env : Env) (s : Store) (w : AuthWorld) : Prop where
  log : FactorLog env w
  known : ∀ id row, w.store.users.get id = some row → ∀ key ∈ row.mfa.keys, Known s w.log id key
  nodup : ∀ id row, w.store.users.get id = some row → row.mfa.keys.Nodup
  /-- What a call has read of a pending setup still holds, or there is no such setup any more. -/
  reads : ∀ t id read row, ReadUser t w.log id read → w.store.users.get id = some row → row.mfaPendingSecret = [] ∨
    row.mfaPendingSecret = read.mfaPendingSecret ∧ row.mfaPendingRecoveryCodes = read.mfaPendingRecoveryCodes
  gone : ∀ t id key row, Drops t w.log id key → w.store.users.get id = some row → key ∉ row.mfa.keys
  dropped : ∀ t id key, AcceptsCode t w.log id key → PutToUse t w.log → Drops t w.log id key
  once : ∀ t t' id key, Drops t w.log id key → Drops t' w.log id key → t = t'

theorem codeInv_init {s : Store} (h : ∀ id row, s.users.get id = some row → row.mfa.keys.Nodup) :
    CodeInv env s ⟨s, []⟩ where
  log := factorLog_init env s
  known := fun _ row hget _ hkey => Or.inl ⟨row, hget, hkey⟩
  nodup := h
  reads := fun _ _ _ _ ⟨_, he⟩ => absurd he List.not_mem_nil
  gone := fun _ _ _ _ ⟨_, _, _, _, he, _⟩ => absurd he List.not_mem_nil
  dropped := fun _ _ _ ⟨_, he, _⟩ => absurd he List.not_mem_nil
  once := fun _ _ _ _ ⟨_, _, _, _, he, _⟩ => absurd he List.not_mem_nil

theorem Known.cons {s : Store} {log : History} {id : ℕ} (h : Known s log id key) (e : Entry Ans) :
    Known s (e :: log) id key := by
  refine h.imp_right ?_
  rintro ⟨t, user, guard, expected, fields, answer, hmem, hkey⟩
  exact ⟨t, user, guard, expected, fields, answer, List.mem_cons_of_mem _ hmem, hkey⟩

theorem Drops.known {s : Store} {log : History} {id : ℕ} (h : Drops t log id key) : Known s log id key := by
  obtain ⟨user, guard, expected, fields, hmem, -, hkey, -⟩ := h
  exact Or.inr ⟨t, user, guard, expected, fields, _, hmem, Or.inr hkey⟩

variable {s : Store} {op : Op} {i : Chance}

theorem disableFinds_of_codesAsRead (hlaw : Law env t (w.own t) op) (hgiven : CodesAsRead t op w) :
    DisableFinds w op := by
  rintro id user expected fields rfl
  obtain ⟨-, read, hread, hchange⟩ := hlaw
  have hfields : .mfaRecoveryCodes ∈ fields := by
    cases hchange
    decide
  exact (hgiven hfields read hread).2 rfl

structure CodeChange (env : Env) (s : Store) (w : AuthWorld) (t id : ℕ) (read user : UserRow) (expected : UserRow)
    (guard fields : List UserColumn) (row row' : UserRow) : Prop where
  rewrites : Rewrites env t (w.own t) id read user guard expected fields row.mfa row'.mfa
  codes : row.mfa.codes = read.mfaRecoveryCodes
  pendingCodes : (codeKeys row'.mfa.pendingCodes).Sublist (codeKeys row.mfa.pendingCodes)
  keys : row'.mfa.keys.Sublist row.mfa.keys ∨ row'.mfa.codes = (env.generateRecoveryCodes t).map env.hashToken
  drawn : row'.mfa.codes = (env.generateRecoveryCodes t).map env.hashToken →
    (codeKeys row'.mfa.codes).Nodup ∧ ∀ key ∈ codeKeys row'.mfa.codes, ¬ Known s w.log id key

theorem codeChange (h : CodeInv env s w) {id : ℕ} {user expected row' : UserRow} {fields : List UserColumn}
    (hrewrites : Rewrites env t (w.own t) id read user guard expected fields row.mfa row'.mfa)
    (hget : w.store.users.get id = some row) (hread : ReadUser t (w.own t) id read)
    (hguard : guard.all (UserColumn.agrees expected row) = true)
    (hgiven : CodesUndisturbed env s t (.users (.updateFieldsIf id user guard expected fields)) i w) :
    CodeChange env s w t id read user expected guard fields row row' := by
  have hcodes : row.mfa.codes = read.mfaRecoveryCodes := (hgiven.1 hrewrites.setsCodes read hread).1 row hget hguard
  have hread' : ReadUser t w.log id read := by
    obtain ⟨k, hmem⟩ := hread
    exact ⟨k, (mem_own.mp hmem).1⟩
  obtain ⟨hpending, hkeys⟩ := hrewrites.change.keys h.log hcodes (h.reads t id read row hread' hget)
  refine ⟨hrewrites, hcodes, hpending, hkeys, fun hdrawn => ?_⟩
  rw [← hrewrites.codes] at hdrawn ⊢
  exact hgiven.2 hdrawn

theorem MFAChange.pending {id : ℕ} (h : MFAChange env t (w.own t) id read guard before after) :
    after.pendingSecret = [] ∨ after.pendingSecret = before.pendingSecret ∧
      after.pendingCodes = before.pendingCodes := by
  cases h with
  | disable _ _ _ _ => exact Or.inl rfl
  | enable _ _ _ _ => exact Or.inl rfl
  | _ => exact Or.inr ⟨rfl, rfl⟩

theorem CodeChange.drops {id : ℕ} {user expected row' : UserRow} {fields : List UserColumn}
    (h : CodeChange env s w t id read user expected guard fields row row')
    (hnodup : row.mfa.keys.Nodup) (hmem : key ∈ codeKeys expected.mfaRecoveryCodes)
    (hnot : key ∉ codeKeys user.mfaRecoveryCodes) :
    key ∈ codeKeys row.mfa.codes ∧ key ∉ row'.mfa.keys := by
  rw [h.rewrites.expectedCodes, ← h.codes] at hmem
  rw [h.rewrites.codes] at hnot
  refine ⟨hmem, fun hkey => ?_⟩
  rcases List.mem_append.mp hkey with hkey | hkey
  · exact hnot hkey
  · exact List.disjoint_of_nodup_append hnodup hmem (h.pendingCodes.subset hkey)

section Statements
variable [UnicodeTables]

theorem code_step (h : CodeInv env s w) (hlaw : Law env t (w.own t) op)
    (hgiven : CodesUndisturbed env s t op i w) {id : ℕ} {row' : UserRow}
    (hget' : (w.step (Op.exec env) t op i).store.users.get id = some row') :
    ∃ row, w.store.users.get id = some row ∧
      (row'.mfa = row.mfa ∨ ∃ read user expected guard fields,
      (⟨t, op, w.answer (Op.exec env) op i⟩ : Entry Ans) =
        ⟨t, .users (.updateFieldsIf id user guard expected fields), .ok ()⟩ ∧
      CodeChange env s w t id read user expected guard fields row row') := by
  obtain ⟨row, hget⟩ := user_origin hlaw hget'
  obtain ⟨row₁, hget₁, hstep⟩ := mfa_step hlaw hget
  rw [hget', Option.some.injEq] at hget₁
  subst hget₁
  refine ⟨row, hget, hstep.imp_right ?_⟩
  rintro ⟨user, guard, expected, fields, read, heq, hread, hguard, hrewrites⟩
  obtain ⟨-, hop, -⟩ := Entry.mk.inj heq
  rw [hop] at hgiven
  exact ⟨read, user, expected, guard, fields, heq, codeChange h hrewrites hget hread hguard hgiven⟩

theorem update_codeChange (h : CodeInv env s w) (hlaw : Law env t (w.own t) op)
    (hgiven : CodesUndisturbed env s t op i w) {id : ℕ} {user expected : UserRow}
    {guard fields : List UserColumn}
    (heq : (⟨t, op, w.answer (Op.exec env) op i⟩ : Entry Ans) =
      ⟨t, .users (.updateFieldsIf id user guard expected fields), .ok ()⟩) :
    Never Op.isCheck (w.own t) ∧ .mfaRecoveryCodes ∉ fields ∨
      ∃ read row row', w.store.users.get id = some row ∧
        (w.step (Op.exec env) t op i).store.users.get id = some row' ∧
        CodeChange env s w t id read user expected guard fields row row' := by
  obtain ⟨row, read, hget, hread, hchange, hguard, hget'⟩ := update_step hlaw heq
  obtain ⟨-, hop, -⟩ := Entry.mk.inj heq
  rw [hop] at hgiven
  refine (hchange.mfa hguard).imp And.right fun hrewrites => ?_
  exact ⟨read, row, _, hget, hget', codeChange h hrewrites hget hread hguard hgiven⟩

theorem drops_step (h : CodeInv env s w) (hlaw : Law env t (w.own t) op)
    (hgiven : CodesUndisturbed env s t op i w) {u id : ℕ} {key : GoString}
    (hdrops : Drops u (w.step (Op.exec env) t op i).log id key) :
    Drops u w.log id key ∨ u = t ∧ ∃ row row', w.store.users.get id = some row ∧
      (w.step (Op.exec env) t op i).store.users.get id = some row' ∧ key ∈ row.mfa.keys ∧
        key ∉ row'.mfa.keys := by
  obtain ⟨user, guard, expected, fields, hmem, hfields, hkey, hnot⟩ := hdrops
  rcases List.mem_cons.mp hmem with heq | hmem
  · obtain ⟨rfl, -⟩ := Entry.mk.inj heq
    rcases update_codeChange h hlaw hgiven heq.symm with ⟨-, hnone⟩ | ⟨read, row, row', hget, hget', hchange⟩
    · exact absurd hfields hnone
    · obtain ⟨hbefore, hafter⟩ := hchange.drops (h.nodup id row hget) hkey hnot
      exact Or.inr ⟨rfl, row, row', hget, hget', List.mem_append_left _ hbefore, hafter⟩
  · exact Or.inl ⟨user, guard, expected, fields, hmem, hfields, hkey, hnot⟩

theorem reads_step (h : CodeInv env s w) (hlaw : Law env t (w.own t) op) {u id : ℕ} {read row' : UserRow}
    (hread : ReadUser u (w.step (Op.exec env) t op i).log id read)
    (hget' : (w.step (Op.exec env) t op i).store.users.get id = some row') : row'.mfaPendingSecret = [] ∨
      row'.mfaPendingSecret = read.mfaPendingSecret ∧ row'.mfaPendingRecoveryCodes = read.mfaPendingRecoveryCodes := by
  obtain ⟨k, hmem⟩ := hread
  rcases List.mem_cons.mp hmem with heq | hmem
  · obtain ⟨-, hget, hsame⟩ := readUser_truth heq
    rw [hsame, hget, Option.some.injEq] at hget'
    subst hget'
    exact Or.inr ⟨rfl, rfl⟩
  · obtain ⟨row, hget⟩ := user_origin hlaw hget'
    obtain ⟨row₁, hget₁, hstep⟩ := mfa_step hlaw hget
    rw [hget', Option.some.injEq] at hget₁
    subst hget₁
    have hpending : row'.mfaPendingSecret = [] ∨
        row'.mfaPendingSecret = row.mfaPendingSecret ∧ row'.mfaPendingRecoveryCodes = row.mfaPendingRecoveryCodes := by
      rcases hstep with hmfa | ⟨user, guard, expected, fields, read', -, -, -, hrewrites⟩
      · exact Or.inr ⟨congrArg MFAState.pendingSecret hmfa, congrArg MFAState.pendingCodes hmfa⟩
      · exact hrewrites.change.pending
    rcases hpending with hnil | ⟨hsecret, hcodes⟩
    · exact Or.inl hnil
    · rw [hsecret, hcodes]
      exact h.reads u id read row ⟨k, hmem⟩ hget

theorem dropped_step (h : CodeInv env s w) (hlaw : Law env t (w.own t) op)
    (hgiven : CodesUndisturbed env s t op i w) {u id : ℕ} {key : GoString}
    (haccepts : AcceptsCode u (w.step (Op.exec env) t op i).log id key)
    (huse : PutToUse u (w.step (Op.exec env) t op i).log) :
    Drops u (w.step (Op.exec env) t op i).log id key := by
  obtain ⟨e, he, hcall, hcode⟩ := haccepts
  have hcheck := isCheck_of_checksCode hcode
  obtain ⟨hlog, huse | ⟨rfl, id', user, guard, expected, fields, heq⟩⟩ := putToUse_step hlaw hcall hcheck he huse
  · obtain ⟨user, guard, expected, fields, hmem, hdrops⟩ := h.dropped u id key ⟨e, hlog, hcall, hcode⟩ huse
    exact ⟨user, guard, expected, fields, List.mem_cons_of_mem _ hmem, hdrops⟩
  · rcases update_codeChange h hlaw hgiven heq with ⟨hnever, -⟩ | ⟨read, row, row', hget, hget', hchange⟩
    · have hfalse := hnever e (mem_own.mpr ⟨hlog, hcall⟩)
      rw [hcheck] at hfalse
      cases hfalse
    · have hnodup : (codeKeys read.mfaRecoveryCodes).Nodup := by
        rw [← hchange.codes]
        exact (h.nodup id' row hget).sublist (List.sublist_append_left _ _)
      have hdrawn : row'.mfa.codes = (env.generateRecoveryCodes u).map env.hashToken →
          key ∈ codeKeys read.mfaRecoveryCodes → key ∉ codeKeys row'.mfa.codes := by
        intro hdrawn hkey hnew
        rw [← hchange.codes] at hkey
        exact (hchange.drawn hdrawn).2 key hnew (h.known id' row hget key (List.mem_append_left _ hkey))
      obtain ⟨rfl, hkey, hnot⟩ := hchange.rewrites.change.acceptsCode h.log hnodup hdrawn ⟨e, hlog, hcall, hcode⟩
      rw [← hchange.rewrites.expectedCodes] at hkey
      rw [← hchange.rewrites.codes] at hnot
      refine ⟨user, guard, expected, fields, ?_, hchange.rewrites.setsCodes, hkey, hnot⟩
      rw [← heq]
      exact List.mem_cons_self

theorem CodeInv.step (h : CodeInv env s w) (hlaw : Law env t (w.own t) op) (hgiven : CodesUndisturbed env s t op i w) :
    CodeInv env s (w.step (Op.exec env) t op i) where
  log := h.log.step hlaw (disableFinds_of_codesAsRead hlaw hgiven.1)
  known := by
    intro id row' hget' key hkey
    obtain ⟨row, hget, hmfa | ⟨read, user, expected, guard, fields, heq, hchange⟩⟩ := code_step h hlaw hgiven hget'
    · rw [hmfa] at hkey
      exact (h.known id row hget key hkey).cons _
    · rcases hchange.keys with hsub | -
      · exact (h.known id row hget key (hsub.subset hkey)).cons _
      · rcases List.mem_append.mp hkey with hkey | hkey
        · rw [← hchange.rewrites.codes] at hkey
          refine Or.inr ⟨t, user, guard, expected, fields, .ok (), ?_, Or.inl hkey⟩
          rw [← heq]
          exact List.mem_cons_self
        · exact (h.known id row hget key (List.mem_append_right _ (hchange.pendingCodes.subset hkey))).cons _
  nodup := by
    intro id row' hget'
    obtain ⟨row, hget, hmfa | ⟨read, user, expected, guard, fields, heq, hchange⟩⟩ := code_step h hlaw hgiven hget'
    · rw [hmfa]
      exact h.nodup id row hget
    · rcases hchange.keys with hsub | hdrawn
      · exact (h.nodup id row hget).sublist hsub
      · obtain ⟨hnodup, hnew⟩ := hchange.drawn hdrawn
        refine List.Nodup.append hnodup ?_ fun key hkey hpending => hnew key hkey ?_
        · exact ((h.nodup id row hget).sublist (List.sublist_append_right _ _)).sublist hchange.pendingCodes
        · exact h.known id row hget key (List.mem_append_right _ (hchange.pendingCodes.subset hpending))
  reads := fun _ _ _ _ hread hget' => reads_step h hlaw hread hget'
  gone := by
    intro u id key row' hdrops hget'
    rcases drops_step h hlaw hgiven hdrops with hold | ⟨-, row, row₁, -, hget₁, -, hnot⟩
    · obtain ⟨row, hget, hmfa | ⟨read, user, expected, guard, fields, heq, hchange⟩⟩ := code_step h hlaw hgiven hget'
      · rw [hmfa]
        exact h.gone u id key row hold hget
      · have hnot := h.gone u id key row hold hget
        rcases hchange.keys with hsub | hdrawn
        · exact fun hkey => hnot (hsub.subset hkey)
        · intro hkey
          rcases List.mem_append.mp hkey with hkey | hkey
          · exact (hchange.drawn hdrawn).2 key hkey hold.known
          · exact hnot (List.mem_append_right _ (hchange.pendingCodes.subset hkey))
    · rw [hget', Option.some.injEq] at hget₁
      subst hget₁
      exact hnot
  dropped := fun _ _ _ haccepts huse => dropped_step h hlaw hgiven haccepts huse
  once := by
    intro u u' id key hdrops hdrops'
    rcases drops_step h hlaw hgiven hdrops with hold | ⟨rfl, row, -, hget, -, hkey, -⟩
    · rcases drops_step h hlaw hgiven hdrops' with hold' | ⟨rfl, row, -, hget, -, hkey, -⟩
      · exact h.once u u' id key hold hold'
      · exact absurd hkey (h.gone u id key row hold hget)
    · rcases drops_step h hlaw hgiven hdrops' with hold' | ⟨rfl, -⟩
      · exact absurd hkey (h.gone u' id key row hold' hget)
      · rfl

/-! ## Runs -/

/-- In every run in which each update of the recovery codes finds the list that the call read, from
lists without duplicates and with codes that are new when they are drawn: a recovery code is
accepted by at most one call that succeeds; and a code that a successful call accepted, or that an
update has dropped, is not in the stored list, at this or any later moment. -/
theorem recoveryCodesOneTime (env : Env) (s : Store) (events : List (Event ServiceRequest Chance))
    (c : Config Ans Store ServiceRequest (Except CallError Reply))
    (hnodup : ∀ id row, s.users.get id = some row → row.mfa.keys.Nodup)
    (hcond : (service env).Along (Allows (fun _ => True) (CodesUndisturbed env s))
      (Config.init s) events)
    (hrun : (service env).run (Config.init s) events = some c) :
    (∀ t t' id key, Succeeded c t → Succeeded c t' → AcceptsCode t c.world.log id key →
      AcceptsCode t' c.world.log id key →
      t = t') ∧
    ∀ t id key row, (Succeeded c t ∧ AcceptsCode t c.world.log id key ∨
      Drops t c.world.log id key) →
      c.world.store.users.get id = some row → key ∉ codeKeys row.mfaRecoveryCodes := by
  obtain ⟨hinv, hended⟩ := lawful_run (service env) (fun t request _ => callOf_obeys request)
    (fun t op i w hinv hlaw hgiven => CodeInv.step hinv hlaw hgiven) (codeInv_init hnodup) hcond hrun
  have hdrops : ∀ t id key, Succeeded c t → AcceptsCode t c.world.log id key → Drops t c.world.log id key := by
    rintro t id key ⟨task, reply, htask, hret⟩ haccepts
    obtain ⟨hsettled, -⟩ := hended t task _ htask hret reply rfl
    exact hinv.dropped t id key haccepts (haccepts.putToUse hinv.log hsettled)
  constructor
  · intro t t' id key hsucceeded hsucceeded' haccepts haccepts'
    exact hinv.once t t' id key (hdrops t id key hsucceeded haccepts) (hdrops t' id key hsucceeded' haccepts')
  · intro t id key row hused hget hkey
    have hdropped : Drops t c.world.log id key := hused.elim (fun h => hdrops t id key h.1 h.2) fun h => h
    exact hinv.gone t id key row hdropped hget (List.mem_append_left _ hkey)

end Statements
end Tables

def codesUser : UserRow := { sampleUser with mfaRecoveryCodes := [[0x78], [0x79]] }

def readRow (t id : ℕ) : Entry Ans → Option UserRow
  | ⟨u, .users (.getByID _), .ok (id', row)⟩ => if u = t ∧ id' = id then some row else none
  | _ => none

def updatedKeys (id : ℕ) : Entry Ans → List GoString
  | ⟨_, .users (.updateFieldsIf id' user _ expected _), _⟩ =>
    if id' = id then codeKeys user.mfaRecoveryCodes ++ codeKeys expected.mfaRecoveryCodes else []
  | _ => []

/-- A check for updates by calls other than `DisableMFA`. -/
def codesUndisturbed (s : Store) (t : ℕ) (op : Op) (_ : Chance) (w : AuthWorld) : Bool :=
  match op with
  | .users (.updateFieldsIf id user guard _ _) =>
    guard ≠ [.mfaSecret, .mfaEnabled] &&
    (w.log.all fun e => (readRow t id e).all fun read =>
      (w.store.users.get id).all fun row => row.mfaRecoveryCodes = read.mfaRecoveryCodes) &&
    (codeKeys user.mfaRecoveryCodes).Nodup && (codeKeys user.mfaRecoveryCodes).all fun key =>
      ((s.users.get id).all fun row => row.mfa.keys.all (· ≠ key)) &&
        (w.log.flatMap (updatedKeys id)).all (· ≠ key)
  | _ => true

theorem codesUndisturbed_sound {env : Env} {s : Store} {t : ℕ} {op : Op} {i : Chance}
    {w : AuthWorld} (h : codesUndisturbed s t op i w = true) : CodesUndisturbed env s t op i w := by
  cases op with
  | users op =>
    cases op with
    | updateFieldsIf id user guard expected fields =>
      simp only [codesUndisturbed, Bool.and_eq_true, decide_eq_true_eq, List.all_eq_true,
        Option.all_eq_true] at h
      obtain ⟨⟨⟨hguard, hread⟩, hnodup⟩, hnew⟩ := h
      refine ⟨fun _ read ⟨k, hmem⟩ => ⟨fun row hget _ => ?_, fun heq => absurd heq hguard⟩, fun _ => ⟨hnodup, ?_⟩⟩
      · exact hread _ (mem_own.mp hmem).1 read (if_pos ⟨rfl, rfl⟩) row hget
      · rintro key hkey (⟨row, hget, hold⟩ | ⟨u, user', guard', expected', fields', answer, hmem, hold⟩)
        · exact (hnew key hkey).1 row hget key hold rfl
        · refine (hnew key hkey).2 key (List.mem_flatMap.mpr ⟨_, hmem, ?_⟩) rfl
          rw [updatedKeys, if_pos rfl]
          exact List.mem_append.mpr hold
    | _ => exact ⟨trivial, trivial⟩
  | _ => exact ⟨trivial, trivial⟩

/-- Codes are drawn twice; the second time with one of those that were drawn first. -/
def regenerations : List (Event ServiceRequest Chance) :=
  .start 0 (.regenerateRecoveryCodes 1 [0x78]) :: steps 0 3 ++
    .start 1 (.regenerateRecoveryCodes 1 [0, 3, 0x2D]) :: steps 1 3

theorem recoveryCodesOneTime_regeneration :
    ∃ c, (@service asciiTables sampleEnv).run (Config.init (sampleStore codesUser .empty)) regenerations = some c ∧
      Succeeded c 0 ∧ Succeeded c 1 ∧ AcceptsCode 0 c.world.log 1 [0x78] ∧ AcceptsCode 1 c.world.log 1 [0, 3, 0x2D] ∧
      ¬ AcceptsCode 1 c.world.log 1 [0x78] ∧
      ∀ row, c.world.store.users.get 1 = some row →
        [0x78] ∉ codeKeys row.mfaRecoveryCodes ∧ [0, 3, 0x2D] ∉ codeKeys row.mfaRecoveryCodes := by
  have hcond : (@service asciiTables sampleEnv).Along
      (Allows (fun _ => True) (CodesUndisturbed sampleEnv (sampleStore codesUser .empty)))
      (Config.init (sampleStore codesUser .empty)) regenerations :=
    along_of_allowed (fun _ => true) (codesUndisturbed (sampleStore codesUser .empty)) (fun _ _ => trivial)
      (fun _ _ _ _ h => codesUndisturbed_sound h) (by decide +kernel)
  have hnodup : ∀ id row, (sampleStore codesUser .empty).users.get id = some row → row.mfa.keys.Nodup := by
    intro id row hget
    rcases Table.get_insert_cases hget with h | ⟨-, rfl⟩
    · cases h
    · decide +kernel
  have hrest : ∀ c, (@service asciiTables sampleEnv).run
      (Config.init (sampleStore codesUser .empty)) regenerations = some c →
      Succeeded c 0 → Succeeded c 1 → AcceptsCode 0 c.world.log 1 [0x78] → AcceptsCode 1 c.world.log 1 [0, 3, 0x2D] →
      ¬ AcceptsCode 1 c.world.log 1 [0x78] ∧ ∀ row, c.world.store.users.get 1 = some row →
        [0x78] ∉ codeKeys row.mfaRecoveryCodes ∧ [0, 3, 0x2D] ∉ codeKeys row.mfaRecoveryCodes := by
    intro c hrun hfirst hsecond hold hnew
    obtain ⟨honce, hgone⟩ :=
      @recoveryCodesOneTime asciiTables sampleEnv (sampleStore codesUser .empty) regenerations c hnodup hcond hrun
    refine ⟨fun h => absurd (honce 0 1 1 _ hfirst hsecond hold h) (by decide), fun row hget => ⟨?_, ?_⟩⟩
    · exact hgone 0 1 _ row (Or.inl ⟨hfirst, hold⟩) hget
    · exact hgone 1 1 _ row (Or.inl ⟨hsecond, hnew⟩) hget
  have haccepts : ∀ (t : ℕ) (row : UserRow) (code : GoString) (verdict : Verdict), trimSpace code = code →
      verdict.factor = some (.recovery code) → ChecksCode 1 code ⟨t, .verifyMFAFactor 1 row code, verdict⟩ :=
    fun _ _ _ _ htrim h => ⟨rfl, _, h, htrim⟩
  have hold : trimSpace [0x78] = [0x78] := by decide +kernel
  have hnew : trimSpace [0, 3, 0x2D] = [0, 3, 0x2D] := by decide +kernel
  refine ⟨_, rfl, ⟨_, _, rfl, rfl⟩, ⟨_, _, rfl, rfl⟩, ?_, ?_, hrest _ rfl ⟨_, _, rfl, rfl⟩ ⟨_, _, rfl, rfl⟩ ?_ ?_⟩
  · exact ⟨_, List.mem_of_getElem? (i := 4) rfl, rfl, haccepts _ _ _ _ hold rfl⟩
  · exact ⟨_, List.mem_of_getElem? (i := 1) rfl, rfl, haccepts _ _ _ _ hnew rfl⟩
  · exact ⟨_, List.mem_of_getElem? (i := 4) rfl, rfl, haccepts _ _ _ _ hold rfl⟩
  · exact ⟨_, List.mem_of_getElem? (i := 1) rfl, rfl, haccepts _ _ _ _ hnew rfl⟩

/-! ## Calls that overlap -/

def twoRegenerations : List (Event ServiceRequest Chance) :=
  .start 0 (.regenerateRecoveryCodes 1 [0x78]) :: steps 0 2 ++
    .start 1 (.regenerateRecoveryCodes 1 [0x78]) :: steps 1 2 ++
    steps 0 1 ++ steps 1 1

/-- The codes are replaced while another call, which has read the old ones, switches the second
factor off. -/
def staleList : List (Event ServiceRequest Chance) :=
  .start 0 (.regenerateRecoveryCodes 1 [0x78]) :: steps 0 2 ++ .start 1 (.disableMFA 1 [0x79]) :: steps 1 2 ++
    steps 0 1 ++ steps 1 3

theorem recoveryCodesReused :
    (∃ c, (@service asciiTables sampleEnv).run (Config.init (sampleStore codesUser .empty)) twoRegenerations = some c ∧
      Succeeded c 0 ∧ Succeeded c 1 ∧ AcceptsCode 0 c.world.log 1 [0x78] ∧ AcceptsCode 1 c.world.log 1 [0x78]) ∧
    ∃ c row, (@service asciiTables sampleEnv).run (Config.init (sampleStore codesUser .empty)) staleList = some c ∧
      Succeeded c 0 ∧ Succeeded c 1 ∧ AcceptsCode 0 c.world.log 1 [0x78] ∧ c.world.store.users.get 1 = some row ∧
      [0x78] ∈ codeKeys row.mfaRecoveryCodes := by
  have haccepts : ∀ (t : ℕ) (verdict : Verdict), verdict.factor = some (.recovery [0x78]) →
      ChecksCode 1 [0x78] ⟨t, .verifyMFAFactor 1 codesUser [0x78], verdict⟩ :=
      fun _ _ h => ⟨rfl, _, h, by decide +kernel⟩
  refine ⟨⟨_, rfl, ⟨_, _, rfl, rfl⟩, ⟨_, _, rfl, rfl⟩, ?_, ?_⟩, _, _, rfl, ⟨_, _, rfl, rfl⟩,
    ⟨_, _, rfl, rfl⟩, ?_, rfl, ?_⟩
  · exact ⟨_, List.mem_of_getElem? (i := 4) rfl, rfl, haccepts _ _ rfl⟩
  · exact ⟨_, List.mem_of_getElem? (i := 2) rfl, rfl, haccepts _ _ rfl⟩
  · exact ⟨_, List.mem_of_getElem? (i := 6) rfl, rfl, haccepts _ _ rfl⟩
  · decide +kernel

end Portlyn.Auth
