import Portlyn.Auth.SecondFactors

/-! # Replay of TOTP codes

A time step counts once for a secret because the counter of the last one is stored, and because
every update that stores it is guarded by the counter that was read. `DisableMFA` is guarded by the
secret alone. So it accepts a code that another call has just used, and of two calls of it both may
accept the same code (`totpReplayed`). Where the counter is still the one it read, no step counts
twice and the counter of a secret never falls (`totpOneTime`). -/
namespace Portlyn.Auth
open Go Domain Lib Lib.Interleave
set_option autoImplicit false

/-! ## Accepted steps -/

/-- The statement found the code right for the time step `k` of the secret. -/
def ChecksStep (env : Env) (id : ℕ) (secret : GoString) (k : ℕ) : Entry Ans → Prop
  | ⟨_, .verifyMFAFactor id' row _, verdict⟩ =>
    id' = id ∧ verdict.factor = some (.totp k) ∧ decryptSecret env row.mfaSecret = some secret
  | ⟨_, .validateTOTP id' secret' _, answer⟩ => id' = id ∧ secret' = secret ∧ answer = some k
  | _ => False

def AcceptsStep (env : Env) (t : ℕ) (log : History) (id : ℕ) (secret : GoString) (k : ℕ) : Prop :=
  ∃ e ∈ log, e.call = t ∧ ChecksStep env id secret k e

theorem isCheck_of_checksStep {env : Env} {id k : ℕ} {secret : GoString} {e : Entry Ans}
    (h : ChecksStep env id secret k e) : e.op.isCheck = true := by
  rw [ChecksStep.eq_def] at h
  split at h
  · rfl
  · rfl
  · exact h.elim

def UsesStep (env : Env) (t : ℕ) (log : History) (id : ℕ) (secret : GoString) (k : ℕ) : Prop :=
  AcceptsStep env t log id secret k ∧ PutToUse t log

/-! ## The condition -/

/-- The update of `DisableMFA` finds the secret and the counter that the call read. -/
def CounterAsRead (t : ℕ) (op : Op) (_ : Chance) (w : AuthWorld) : Prop :=
  match op with
  | .users (.updateFieldsIf id _ guard expected _) =>
    guard = [.mfaSecret, .mfaEnabled] → ∀ read, ReadUser t (w.own t) id read →
      ∃ row, w.store.users.get id = some row ∧ guard.all (UserColumn.agrees expected row) = true ∧
        row.mfaLastTOTPCounter = read.mfaLastTOTPCounter
  | _ => True

def PendingFresh (env : Env) (state : MFAState) : Prop :=
  ∀ secret, secret ≠ [] → decryptSecret env state.pendingSecret = some secret →
    decryptSecret env state.secret ≠ some secret

/-! ## How the second factor of a user goes on -/

/-- The secret stays and its counter does not fall, or the secret that was pending is confirmed, or
there is none. -/
def MFAState.Later (a b : MFAState) : Prop :=
  b.secret = a.secret ∧ b.pendingSecret = a.pendingSecret ∧ a.counter ≤ b.counter ∨
    b.pendingSecret = [] ∧ (b.secret = a.pendingSecret ∨ b.secret = [])

theorem MFAState.Later.refl (a : MFAState) : a.Later a := Or.inl ⟨rfl, rfl, Nat.le_refl _⟩

theorem MFAState.Later.trans {a b c : MFAState} (h : a.Later b) (h' : b.Later c) : a.Later c := by
  rcases h' with ⟨hsecret', hpending', hcounter'⟩ | ⟨hpending', hsecret'⟩
  · rcases h with ⟨hsecret, hpending, hcounter⟩ | ⟨hpending, hsecret⟩
    · exact Or.inl ⟨hsecret'.trans hsecret, hpending'.trans hpending, Nat.le_trans hcounter hcounter'⟩
    · rw [← hsecret'] at hsecret
      exact Or.inr ⟨hpending'.trans hpending, hsecret⟩
  · rcases h with ⟨-, hpending, -⟩ | ⟨hpending, -⟩
    · rw [hpending] at hsecret'
      exact Or.inr ⟨hpending', hsecret'⟩
    · rw [hpending, or_self] at hsecret'
      exact Or.inr ⟨hpending', Or.inr hsecret'⟩

section Tables
variable {env : Env}

theorem PendingFresh.later {a b : MFAState} (h : PendingFresh env a) (hlater : a.Later b) : PendingFresh env b := by
  intro secret hnil hpending
  rcases hlater with ⟨hsecret, hpending', -⟩ | ⟨hpending', -⟩
  · rw [hpending'] at hpending
    rw [hsecret]
    exact h secret hnil hpending
  · rw [hpending'] at hpending
    exact absurd hpending (decryptSecret_nil_ne hnil)

/-- The step `k` cannot count again: the secret is not to be confirmed, and its counter is not
below. -/
def StepOver (env : Env) (state : MFAState) (secret : GoString) (k : ℕ) : Prop :=
  decryptSecret env state.pendingSecret ≠ some secret ∧
    (decryptSecret env state.secret = some secret → k ≤ state.counter)

variable {secret : GoString}

theorem StepOver.later {a b : MFAState} {k : ℕ} (h : StepOver env a secret k) (hnil : secret ≠ [])
    (hlater : a.Later b) : StepOver env b secret k := by
  rcases hlater with ⟨hsecret, hpending, hcounter⟩ | ⟨hpending, hsecret⟩
  · refine ⟨?_, fun hactive => Nat.le_trans (h.2 ?_) hcounter⟩
    · rw [hpending]
      exact h.1
    · rw [← hsecret]
      exact hactive
  · refine ⟨?_, fun hactive => ?_⟩
    · rw [hpending]
      exact decryptSecret_nil_ne hnil
    · rcases hsecret with hsecret | hsecret
      · rw [hsecret] at hactive
        exact absurd hactive h.1
      · rw [hsecret] at hactive
        exact absurd hactive (decryptSecret_nil_ne hnil)

/-! ## Updates -/

variable {w : AuthWorld} {t : ℕ}

theorem counter_le_verdict {row : UserRow} {code : GoString} {now : Instant} {factor : Factor}
    (h : (verifyMFAFactor env row code now).factor = some factor) :
    row.mfaLastTOTPCounter ≤ (verifyMFAFactor env row code now).counter := by
  cases factor with
  | totp counter =>
    obtain ⟨hlt, heq, -⟩ := totp_verdict h
    rw [heq]
    exact Nat.le_of_lt hlt
  | recovery hash =>
    obtain ⟨code', -, heq⟩ := recovery_verdict h
    rw [heq]
    exact Nat.le_refl _

theorem MFAChange.later {id : ℕ} {read : UserRow} {guard : List UserColumn}
    {before after : MFAState} (h : MFAChange env t (w.own t) id read guard before after)
    (hlog : FactorLog env w) : before.Later after := by
  have hcounter : ∀ {code verdict factor}, Verified t (w.own t) id read code verdict → verdict.factor = some factor →
      before.counter = read.mfaLastTOTPCounter → before.counter ≤ verdict.counter := by
    intro code verdict factor hverified hfactor heq
    obtain ⟨now, rfl⟩ := hlog.truth t id read code verdict (mem_own.mp hverified).1
    rw [heq]
    exact counter_le_verdict hfactor
  cases h with
  | completeMFA verified accepted _ _ counter => exact Or.inl ⟨rfl, rfl, hcounter verified accepted counter⟩
  | regenerate verified accepted _ _ counter => exact Or.inl ⟨rfl, rfl, hcounter verified accepted counter⟩
  | disable _ _ _ _ => exact Or.inr ⟨rfl, Or.inr rfl⟩
  | enable _ _ _ pending => exact Or.inr ⟨rfl, Or.inl pending.symm⟩

theorem MFAChange.accepts {id id' k : ℕ} {read : UserRow} {guard : List UserColumn}
    {before after : MFAState} (h : MFAChange env t (w.own t) id read guard before after)
    (hlog : FactorLog env w) (hfresh : PendingFresh env before)
    (hcounter : guard = [.mfaSecret, .mfaEnabled] → before.counter = read.mfaLastTOTPCounter)
    (haccepts : AcceptsStep env t w.log id' secret k) :
    id' = id ∧ secret ≠ [] ∧ ¬ StepOver env before secret k ∧ StepOver env after secret k := by
  obtain ⟨e, he, hcall, hstep⟩ := haccepts
  have hcheck := isCheck_of_checksStep hstep
  -- the code of `CompleteMFA`, `RegenerateRecoveryCodes` and `DisableMFA`
  have hverified : ∀ {code verdict}, Verified t (w.own t) id read code verdict → before.secret = read.mfaSecret →
      before.counter = read.mfaLastTOTPCounter → id' = id ∧ secret ≠ [] ∧
      decryptSecret env before.secret = some secret ∧
        before.counter < k ∧ verdict.counter = k := by
    intro code verdict hverified hsecret heq
    have hmem := (mem_own.mp hverified).1
    obtain rfl := hlog.single e he _ hmem hcall hcheck rfl
    obtain ⟨hid, hfactor, hdecrypt⟩ := hstep
    obtain ⟨now, rfl⟩ := hlog.truth t id read code verdict hmem
    obtain ⟨hlt, hverdict, secret', hnil, hdecrypt'⟩ := totp_verdict hfactor
    rw [hdecrypt, Option.some.injEq] at hdecrypt'
    subst hdecrypt'
    rw [hsecret, heq, hverdict]
    exact ⟨hid.symm, hnil, hdecrypt, hlt, rfl⟩
  cases h with
  | completeMFA verified accepted _ hsecret counter =>
    obtain ⟨hid, hnil, hdecrypt, hlt, hk⟩ := hverified verified hsecret counter
    refine ⟨hid, hnil, fun hover => Nat.not_le_of_lt hlt (hover.2 hdecrypt), fun hpending => ?_,
      fun _ => Nat.le_of_eq hk.symm⟩
    exact hfresh secret hnil hpending hdecrypt
  | regenerate verified accepted _ hsecret counter =>
    obtain ⟨hid, hnil, hdecrypt, hlt, hk⟩ := hverified verified hsecret counter
    refine ⟨hid, hnil, fun hover => Nat.not_le_of_lt hlt (hover.2 hdecrypt), fun hpending => ?_,
      fun _ => Nat.le_of_eq hk.symm⟩
    exact hfresh secret hnil hpending hdecrypt
  | disable verified accepted hsecret guarded =>
    obtain ⟨hid, hnil, hdecrypt, hlt, -⟩ := hverified verified hsecret (hcounter guarded)
    refine ⟨hid, hnil, fun hover => Nat.not_le_of_lt hlt (hover.2 hdecrypt),
      decryptSecret_nil_ne hnil, fun hactive => ?_⟩
    exact absurd hactive (decryptSecret_nil_ne hnil)
  | enable decrypted nonempty validated pending =>
    obtain rfl := hlog.single e he _ (mem_own.mp validated).1 hcall hcheck rfl
    obtain ⟨rfl, rfl, hk⟩ := hstep
    refine ⟨rfl, nonempty, fun hover => hover.1 ?_, decryptSecret_nil_ne nonempty, fun _ => Nat.le_of_eq ?_⟩
    · rw [pending]
      exact decrypted
    · exact (Option.some.inj hk).symm

/-! ## What the calls keep -/

structure TotpInv (env : Env) (w : AuthWorld) : Prop where
  log : FactorLog env w
  fresh : ∀ id row, w.store.users.get id = some row → PendingFresh env row.mfa
  passed : ∀ t id secret k, UsesStep env t w.log id secret k → secret ≠ [] ∧
    ∀ row, w.store.users.get id = some row → StepOver env row.mfa secret k
  once : ∀ t t' id secret k, UsesStep env t w.log id secret k → UsesStep env t' w.log id secret k → t = t'

theorem totpInv_init {s : Store} (h : ∀ id row, s.users.get id = some row → PendingFresh env row.mfa) :
    TotpInv env ⟨s, []⟩ where
  log := factorLog_init env s
  fresh := h
  passed := fun _ _ _ _ ⟨⟨_, he, _⟩, _⟩ => absurd he List.not_mem_nil
  once := fun _ _ _ _ _ ⟨⟨_, he, _⟩, _⟩ => absurd he List.not_mem_nil

theorem AcceptsStep.usesStep {id k : ℕ} (h : AcceptsStep env t w.log id secret k) (hlog : FactorLog env w)
    (hsettled : Settled t (w.own t)) : UsesStep env t w.log id secret k := by
  refine ⟨h, ?_⟩
  obtain ⟨e, he, rfl, hstep⟩ := h
  rw [ChecksStep.eq_def] at hstep
  split at hstep
  · exact hsettled.verified hlog he hstep.2.1
  · obtain ⟨-, -, rfl⟩ := hstep
    exact hsettled.validated hlog he
  · exact hstep.elim

def UsersLater (w w' : AuthWorld) : Prop :=
  ∀ id row, w.store.users.get id = some row → ∃ row', w'.store.users.get id = some row' ∧ row.mfa.Later row'.mfa

theorem UsersLater.trans {w₁ w₂ w₃ : AuthWorld} (h : UsersLater w₁ w₂) (h' : UsersLater w₂ w₃) : UsersLater w₁ w₃ := by
  intro id row hget
  obtain ⟨row₂, hget₂, hlater⟩ := h id row hget
  obtain ⟨row₃, hget₃, hlater'⟩ := h' id row₂ hget₂
  exact ⟨row₃, hget₃, hlater.trans hlater'⟩

variable {op : Op} {i : Chance}

theorem disableFinds_of_counterAsRead (hlaw : Law env t (w.own t) op)
    (hgiven : CounterAsRead t op i w) : DisableFinds w op := by
  rintro id user expected fields rfl
  obtain ⟨-, read, hread, -⟩ := hlaw
  obtain ⟨row, hget, hguard, -⟩ := hgiven rfl read hread
  exact ⟨row, hget, hguard⟩

variable [UnicodeTables]

theorem mfaLater_step (hlog : FactorLog env w) (hlaw : Law env t (w.own t) op) {id : ℕ}
    {row : UserRow} (h : w.store.users.get id = some row) :
    ∃ row', (w.step (Op.exec env) t op i).store.users.get id = some row' ∧
      row.mfa.Later row'.mfa := by
  obtain ⟨row', hget, hmfa | ⟨user, guard, expected, fields, read, -, -, -, hrewrites⟩⟩ := mfa_step hlaw h
  · rw [← hmfa]
    exact ⟨row', hget, .refl _⟩
  · exact ⟨row', hget, hrewrites.change.later hlog⟩

theorem usesStep_step (h : TotpInv env w) (hlaw : Law env t (w.own t) op) (hgiven : CounterAsRead t op i w) {u id k : ℕ}
    (huses : UsesStep env u (w.step (Op.exec env) t op i).log id secret k) :
    UsesStep env u w.log id secret k ∨ u = t ∧ secret ≠ [] ∧
      ∃ row row', w.store.users.get id = some row ∧ (w.step (Op.exec env) t op i).store.users.get id = some row' ∧
        ¬ StepOver env row.mfa secret k ∧ StepOver env row'.mfa secret k := by
  obtain ⟨⟨e, he, hcall, hstep⟩, huse⟩ := huses
  have hcheck := isCheck_of_checksStep hstep
  obtain ⟨hlog, huse | ⟨rfl, id', user, guard, expected, fields, heq⟩⟩ := putToUse_step hlaw hcall hcheck he huse
  · exact Or.inl ⟨⟨e, hlog, hcall, hstep⟩, huse⟩
  · obtain ⟨row, read, hget, hread, hchange, hguard, hget'⟩ := update_step hlaw heq
    rcases hchange.mfa hguard with ⟨-, hnever, -⟩ | hrewrites
    · have hfalse := hnever e (mem_own.mpr ⟨hlog, hcall⟩)
      rw [hcheck] at hfalse
      cases hfalse
    · obtain ⟨-, hop, -⟩ := Entry.mk.inj heq
      rw [hop] at hgiven
      have hcounter : guard = [.mfaSecret, .mfaEnabled] → row.mfa.counter = read.mfaLastTOTPCounter := by
        intro hdisable
        obtain ⟨row₁, hget₁, -, hcounter⟩ := hgiven hdisable read hread
        rw [hget, Option.some.injEq] at hget₁
        subst hget₁
        exact hcounter
      obtain ⟨rfl, hnil, hbefore, hafter⟩ :=
        hrewrites.change.accepts h.log (h.fresh id' row hget) hcounter ⟨e, hlog, hcall, hstep⟩
      exact Or.inr ⟨rfl, hnil, row, _, hget, hget', hbefore, hafter⟩

theorem TotpInv.step (h : TotpInv env w) (hlaw : Law env t (w.own t) op) (hgiven : CounterAsRead t op i w) :
    TotpInv env (w.step (Op.exec env) t op i) where
  log := h.log.step hlaw (disableFinds_of_counterAsRead hlaw hgiven)
  fresh := by
    intro id row' hget'
    obtain ⟨row, hget⟩ := user_origin hlaw hget'
    obtain ⟨row₁, hget₁, hlater⟩ := mfaLater_step h.log hlaw hget
    rw [hget', Option.some.injEq] at hget₁
    subst hget₁
    exact (h.fresh id row hget).later hlater
  passed := by
    intro u id secret k huses
    rcases usesStep_step h hlaw hgiven huses with hold | ⟨-, hnil, row, row', -, hget', -, hafter⟩
    · obtain ⟨hnil, hover⟩ := h.passed u id secret k hold
      refine ⟨hnil, fun row' hget' => ?_⟩
      obtain ⟨row, hget⟩ := user_origin hlaw hget'
      obtain ⟨row₁, hget₁, hlater⟩ := mfaLater_step h.log hlaw hget
      rw [hget', Option.some.injEq] at hget₁
      subst hget₁
      exact (hover row hget).later hnil hlater
    · refine ⟨hnil, fun row₁ hget₁ => ?_⟩
      rw [hget', Option.some.injEq] at hget₁
      subst hget₁
      exact hafter
  once := by
    intro u u' id secret k huses huses'
    rcases usesStep_step h hlaw hgiven huses with hold | ⟨rfl, -, row, _, hget, -, hbefore, -⟩
    · rcases usesStep_step h hlaw hgiven huses' with hold' | ⟨rfl, -, row, _, hget, -, hbefore, -⟩
      · exact h.once u u' id secret k hold hold'
      · exact absurd ((h.passed u id secret k hold).2 row hget) hbefore
    · rcases usesStep_step h hlaw hgiven huses' with hold' | ⟨rfl, -⟩
      · exact absurd ((h.passed u' id secret k hold').2 row hget) hbefore
      · rfl

/-! ## Runs -/

/-- In every run in which `DisableMFA` updates the row with the counter it read: a time step of a
secret is accepted by at most one call that succeeds; and if the secret is in use at two moments,
the counter stored at the first is not above the one stored at the second. -/
theorem totpOneTime (env : Env) (s : Store) (events later : List (Event ServiceRequest Chance))
    (c c' : Config Ans Store ServiceRequest (Except CallError Reply))
    (hfresh : ∀ id row, s.users.get id = some row → PendingFresh env row.mfa)
    (hcond : (service env).Along (Allows (fun _ => True) CounterAsRead) (Config.init s)
      (events ++ later))
    (hrun : (service env).run (Config.init s) events = some c)
    (hlater : (service env).run c later = some c') :
    (∀ t t' id secret k, Succeeded c t → Succeeded c t' →
      AcceptsStep env t c.world.log id secret k →
      AcceptsStep env t' c.world.log id secret k → t = t') ∧
    ∀ id row row' secret, secret ≠ [] → c.world.store.users.get id = some row →
      c'.world.store.users.get id = some row' →
      decryptSecret env row.mfaSecret = some secret → decryptSecret env row'.mfaSecret =
        some secret →
      row.mfaLastTOTPCounter ≤ row'.mfaLastTOTPCounter := by
  have hobeys : ∀ t request, True → ((service env).prog t request).Obeys t (Law env t)
    (fun own => Outcome env t own request) [] :=
    fun t request _ => callOf_obeys request
  have hkeeps : Keeps (service env).exec (fun t => Law env t) CounterAsRead (TotpInv env) :=
    fun t op i w hinv hlaw hgiven => hinv.step hlaw hgiven
  constructor
  · obtain ⟨hinv, hended⟩ := lawful_run (service env) hobeys hkeeps (totpInv_init hfresh)
      (along_append hcond hrun).1 hrun
    have huse : ∀ t id secret k, Succeeded c t → AcceptsStep env t c.world.log id secret k →
        UsesStep env t c.world.log id secret k := by
      rintro t id secret k ⟨task, reply, htask, hret⟩ haccepts
      obtain ⟨hsettled, -⟩ := hended t task _ htask hret reply rfl
      exact haccepts.usesStep hinv.log hsettled
    intro t t' id secret k hsucceeded hsucceeded' haccepts haccepts'
    exact hinv.once t t' id secret k (huse t id secret k hsucceeded haccepts)
      (huse t' id secret k hsucceeded' haccepts')
  · obtain ⟨hinv, hsince⟩ := lawful_since (service env) hobeys hkeeps UsersLater
      (fun w id row hget => ⟨row, hget, .refl _⟩) (fun _ _ _ h h' => h.trans h')
      (fun t op i w hinv hlaw _ id row hget => mfaLater_step hinv.log hlaw hget) (totpInv_init hfresh) hcond hrun hlater
    intro id row row' secret hnil hget hget' hactive hactive'
    obtain ⟨row₁, hget₁, hl⟩ := hsince id row hget
    rw [hget', Option.some.injEq] at hget₁
    subst hget₁
    rcases hl with ⟨-, -, hle⟩ | ⟨-, hsecret | hsecret⟩
    · exact hle
    · have heq : row'.mfaSecret = row.mfaPendingSecret := hsecret
      rw [heq] at hactive'
      exact absurd hactive (hinv.fresh id row hget secret hnil hactive')
    · have heq : row'.mfaSecret = [] := hsecret
      rw [heq] at hactive'
      exact absurd hactive' (decryptSecret_nil_ne hnil)

end Tables

/-- Two minutes pass; the codes of the user are replaced with the code of one time step, and the
second factor is switched off with the code of the next. -/
def twoSteps : List (Event ServiceRequest Chance) :=
  .start 0 (.tick (60 * 1000000000)) :: steps 0 1 ++ .start 1 (.regenerateRecoveryCodes 1 [2]) :: steps 1 3 ++
    .start 2 (.tick (30 * 1000000000)) :: steps 2 1 ++ .start 3 (.disableMFA 1 [3]) :: steps 3 5

def regeneratedUser : UserRow :=
  { sampleUser with
    mfaRecoveryCodes := (sampleEnv.generateRecoveryCodes 1).map sampleEnv.hashToken
    mfaLastTOTPCounter := 2 }

theorem pendingFresh_sample (id : ℕ) (row : UserRow) (h : (sampleStore sampleUser .empty).users.get id = some row) :
    PendingFresh sampleEnv row.mfa := by
  rcases Table.get_insert_cases h with h | ⟨-, rfl⟩
  · cases h
  · exact fun secret hnil hpending => absurd hpending (decryptSecret_nil_ne hnil)

theorem read_regenerated {k : ℕ} {read : UserRow} {verdict : Verdict}
    (h : (⟨3, .users (.getByID k), .ok (1, read)⟩ : Entry Ans) ∈
      [⟨3, .verifyMFAFactor 1 regeneratedUser [3], verdict⟩, ⟨3, .users (.getByID 1), .ok (1, regeneratedUser)⟩]) :
    read = regeneratedUser := by
  rcases List.mem_cons.mp h with heq | h
  · cases heq
  · cases List.mem_singleton.mp h
    rfl

theorem totpOneTime_twoSteps :
    ∃ c, (@service asciiTables sampleEnv).run (Config.init (sampleStore sampleUser .empty)) twoSteps = some c ∧
      Succeeded c 1 ∧ Succeeded c 3 ∧ AcceptsStep sampleEnv 1 c.world.log 1 [0x73] 2 ∧
      AcceptsStep sampleEnv 3 c.world.log 1 [0x73] 3 ∧
      ∀ t, Succeeded c t → AcceptsStep sampleEnv t c.world.log 1 [0x73] 2 → t = 1 := by
  refine ⟨_, rfl, ⟨_, _, rfl, rfl⟩, ⟨_, _, rfl, rfl⟩, ?_, ?_, ?_⟩
  · exact ⟨_, List.mem_of_getElem? (i := 7) rfl, rfl, rfl, rfl, rfl⟩
  · exact ⟨_, List.mem_of_getElem? (i := 3) rfl, rfl, rfl, rfl, rfl⟩
  · intro t hsucceeded haccepts
    refine (@totpOneTime asciiTables sampleEnv (sampleStore sampleUser .empty) twoSteps [] _ _
      pendingFresh_sample ?_ rfl rfl).1
      t 1 1 [0x73] 2 hsucceeded ⟨_, _, rfl, rfl⟩ haccepts ⟨_, List.mem_of_getElem? (i := 7) rfl, rfl, rfl, rfl, rfl⟩
    iterate 5 refine along_cons trivial rfl ?_
    refine along_cons (fun h => absurd h (by decide)) rfl ?_
    iterate 5 refine along_cons trivial rfl ?_
    refine along_cons ?_ rfl ?_
    rotate_left
    iterate 2 refine along_cons trivial rfl ?_
    trivial
    rintro - read ⟨k, hmem⟩
    rw [read_regenerated hmem]
    exact ⟨_, rfl, by decide +kernel, rfl⟩

/-! ## Calls that overlap -/

/-- The codes are replaced and the second factor is switched off with the same code: both calls
check it before either has stored the counter. -/
def oneStepTwice : List (Event ServiceRequest Chance) :=
  .start 0 (.tick (60 * 1000000000)) :: steps 0 1 ++ .start 1 (.regenerateRecoveryCodes 1 [2]) :: steps 1 2 ++
    .start 2 (.disableMFA 1 [2]) :: steps 2 2 ++ steps 1 1 ++ steps 2 3

theorem totpReplayed :
    ∃ c, (@service asciiTables sampleEnv).run (Config.init (sampleStore sampleUser .empty)) oneStepTwice = some c ∧
      Succeeded c 1 ∧ Succeeded c 2 ∧ AcceptsStep sampleEnv 1 c.world.log 1 [0x73] 2 ∧
      AcceptsStep sampleEnv 2 c.world.log 1 [0x73] 2 := by
  refine ⟨_, rfl, ⟨_, _, rfl, rfl⟩, ⟨_, _, rfl, rfl⟩, ?_, ?_⟩
  · exact ⟨_, List.mem_of_getElem? (i := 6) rfl, rfl, rfl, rfl, rfl⟩
  · exact ⟨_, List.mem_of_getElem? (i := 4) rfl, rfl, rfl, rfl, rfl⟩

end Portlyn.Auth
