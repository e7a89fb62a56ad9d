import Portlyn.Auth.Laws
import Portlyn.Auth.LoginTokens

/-! # Guessing second factors

`CompleteMFA` checks the number of attempts of a challenge before it verifies a code and counts the
attempt after it; `beginMFAChallenge` uses up the older challenges of the user before it stores the
new one. Both bounds hold for runs in which no other call gets between (`boundedGuessing`). Calls
that overlap can verify more codes than are allowed, and leave several challenges usable
(`unboundedGuessing`). -/
namespace Portlyn.Auth
open Go Domain Lib Lib.Interleave
set_option autoImplicit false

/-! ## Attempts in the log -/

def Op.isVerify : Op → Bool
  | .verifyMFAFactor .. => true
  | _ => false

/-- The challenge that `CompleteMFA` found with this statement. -/
def challengeFound : Entry Ans → Option (ℕ × LoginToken)
  | ⟨_, .loginTokens (.getValidTokenByScope [] _ .mfaLogin none), .ok found⟩ => some found
  | _ => none

def Finds (id : ℕ) (e : Entry Ans) : Bool := (challengeFound e).any fun found => found.1 = id

theorem isCheck_of_isVerify {op : Op} (h : op.isVerify = true) : op.isCheck = true := by
  cases op with
  | verifyMFAFactor id row code => rfl
  | _ => cases h

/-- The calls that verified a code against the challenge, one for each verification. -/
def verifiers (id : ℕ) : History → List ℕ
  | [] => []
  | e :: earlier =>
    if e.op.isVerify && earlier.any fun e' => e'.call = e.call && Finds id e' then e.call :: verifiers id earlier
    else verifiers id earlier

def Counts (id : ℕ) : Entry Ans → Bool
  | ⟨_, .loginTokens (.addAttempt id'), .ok _⟩ => id' = id
  | _ => false

def counters (id : ℕ) (log : History) : List ℕ := (log.filter (Counts id)).map Entry.call

theorem mem_verifiers {id u : ℕ} {log : History} (h : u ∈ verifiers id log) :
    ∃ e ∈ log, e.call = u ∧ e.op.isVerify = true := by
  induction log with
  | nil => cases h
  | cons e log ih =>
    rw [verifiers] at h
    split_ifs at h with hcond
    · rcases List.mem_cons.mp h with rfl | h
      · exact ⟨e, List.mem_cons_self, rfl, (Bool.and_eq_true_iff.mp hcond).1⟩
      · obtain ⟨e', he', hcall⟩ := ih h
        exact ⟨e', List.mem_cons_of_mem _ he', hcall⟩
    · obtain ⟨e', he', hcall⟩ := ih h
      exact ⟨e', List.mem_cons_of_mem _ he', hcall⟩

theorem counters_cons (id : ℕ) (e : Entry Ans) (log : History) :
    (counters id (e :: log)).length = (counters id log).length + if Counts id e = true then 1 else 0 := by
  rw [counters, counters, List.filter_cons]
  split_ifs <;> simp

variable {e : Entry Ans}

theorem challengeFound_eq {id : ℕ} {item : LoginToken} (h : challengeFound e = some (id, item)) :
    ∃ token, e = ⟨e.call, .loginTokens (.getValidTokenByScope [] token .mfaLogin none), .ok (id, item)⟩ := by
  rw [challengeFound.eq_def] at h
  split at h
  · rename_i call token found
    cases h
    exact ⟨token, rfl⟩
  · cases h

theorem counts_eq {id : ℕ} (h : Counts id e = true) :
    e = ⟨e.call, .loginTokens (.addAttempt id), .ok ()⟩ := by
  rw [Counts.eq_def] at h
  split at h
  · obtain rfl := of_decide_eq_true h
    rfl
  · cases h

/-! ## Challenges in the log -/

def Usable (s : Store) (userID id : ℕ) : Prop :=
  ∃ item, s.loginTokens.get id = some item ∧ item.userID = some userID ∧ item.scope = .mfaLogin ∧
    item.usedAt = none ∧ s.clock ≤ item.expiresAt

def AtMostOneUsable (s : Store) (userID : ℕ) : Prop := ∀ id id', Usable s userID id → Usable s userID id' → id = id'

def Inserts (userID : ℕ) : Entry Ans → Bool
  | ⟨_, .loginTokens (.create item), .ok _⟩ => item.userID = some userID && item.scope = .mfaLogin
  | _ => false

def Invalidates (userID : ℕ) : Entry Ans → Bool
  | ⟨_, .loginTokens (.invalidateOutstandingByUserScope userID' .mfaLogin _), .ok _⟩ => userID' = userID
  | _ => false

/-- A challenge of the user was stored after the call `t` used up the older ones. -/
def insertedSince (t userID : ℕ) : History → Bool
  | [] => false
  | e :: earlier =>
    if e.call = t && Invalidates userID e then false else Inserts userID e || insertedSince t userID earlier

theorem inserts_eq {userID : ℕ} (h : Inserts userID e = true) :
    ∃ item id, e = ⟨e.call, .loginTokens (.create item), .ok id⟩ ∧ item.userID = some userID ∧
      item.scope = .mfaLogin := by
  rw [Inserts.eq_def] at h
  split at h
  · simp only [Bool.and_eq_true, decide_eq_true_eq] at h
    exact ⟨_, _, rfl, h⟩
  · cases h

theorem invalidates_eq {userID : ℕ} (h : Invalidates userID e = true) :
    ∃ usedAt, e = ⟨e.call, .loginTokens (.invalidateOutstandingByUserScope userID .mfaLogin usedAt), .ok ()⟩ := by
  rw [Invalidates.eq_def] at h
  split at h
  · obtain rfl := of_decide_eq_true h
    exact ⟨_, rfl⟩
  · cases h

/-! ## The condition -/

/-- When a call verifies a code, every verification against its challenge was counted before the
call read the challenge. When it stores a challenge, no other of the user was stored since it used
up the older ones. -/
def Undisturbed (t : ℕ) (op : Op) (_ : Chance) (w : AuthWorld) : Prop :=
  match op with
  | .verifyMFAFactor .. =>
    ∀ e earlier id, e :: earlier <:+ w.log → e.call = t → Finds id e = true → verifiers id w.log ⊆ counters id earlier
  | .loginTokens (.create item) => ∀ userID, item.userID = some userID → insertedSince t userID w.log = false
  | _ => True

/-! ## What the calls keep -/

structure ChallengeInv (s : Store) (w : AuthWorld) : Prop where
  /-- A challenge that was found is in the table. -/
  stored : ∀ e ∈ w.log, ∀ id item, challengeFound e = some (id, item) → id < w.store.loginTokens.nextID
  /-- Attempts are counted on challenges in the table. -/
  countedStored : ∀ e ∈ w.log, ∀ id, Counts id e = true → id < w.store.loginTokens.nextID
  attempts : ∀ id item, w.store.loginTokens.get id = some item → (counters id w.log).length ≤ item.attemptCount
  attemptsRead : ∀ e earlier id item, e :: earlier <:+ w.log → challengeFound e = some (id, item) →
    (counters id earlier).length ≤ item.attemptCount
  once : ∀ id, (verifiers id w.log).Nodup
  bounded : ∀ id, (verifiers id w.log).length ≤ maxMFAAttempts
  usedUp : ∀ t userID, (∃ e ∈ w.log, e.call = t ∧ Invalidates userID e = true) →
    insertedSince t userID w.log = true ∨ ∀ id, ¬ Usable w.store userID id
  single : ∀ userID, (AtMostOneUsable s userID ∨ ∃ e ∈ w.log, Inserts userID e = true) → AtMostOneUsable w.store userID

theorem challengeInv_init (s : Store) : ChallengeInv s ⟨s, []⟩ where
  stored := List.forall_mem_nil _
  countedStored := List.forall_mem_nil _
  attempts := fun _ _ _ => Nat.zero_le _
  attemptsRead := fun _ _ _ _ h => absurd (List.suffix_nil.mp h) (List.cons_ne_nil _ _)
  once := fun _ => List.nodup_nil
  bounded := fun _ => Nat.zero_le _
  usedUp := fun _ _ ⟨_, h, _⟩ => absurd h List.not_mem_nil
  single := fun _ h => h.resolve_right fun ⟨_, h, _⟩ => absurd h List.not_mem_nil

section Inv
variable {env : Env} {s : Store} {w : AuthWorld} {t : ℕ} {op : Op} {i : Chance}

theorem notVerifier (hlaw : Law env t (w.own t) op) (hverify : op.isVerify = true) (id : ℕ) :
    t ∉ verifiers id w.log := by
  intro hmem
  obtain ⟨e, he, hcall, hop⟩ := mem_verifiers hmem
  cases op with
  | verifyMFAFactor id row code =>
    have hcheck := hlaw.2.1 e (mem_own.mpr ⟨he, hcall⟩)
    rw [isCheck_of_isVerify hop] at hcheck
    cases hcheck
  | _ => cases hverify

theorem verifiers_lt (h : ChallengeInv s w) (hlaw : Law env t (w.own t) op)
    (hgiven : Undisturbed t op i w) (hverify : op.isVerify = true) {id : ℕ} {e : Entry Ans}
    (he : e ∈ w.log) (hcall : e.call = t) (hfinds : Finds id e = true) :
    (verifiers id w.log).length < maxMFAAttempts := by
  cases op with
  | verifyMFAFactor userID row code =>
    obtain ⟨later, earlier, hlog⟩ := List.append_of_mem he
    have hsuffix : e :: earlier <:+ w.log := ⟨later, hlog.symm⟩
    obtain ⟨⟨id', item⟩, hfound, hid⟩ := Option.any_eq_true _ _ |>.mp hfinds
    obtain rfl := of_decide_eq_true hid
    have hsub := hgiven e earlier id' hsuffix hcall hfinds
    calc (verifiers id' w.log).length ≤ (counters id' earlier).length := ((h.once id').subperm hsub).length_le
      _ ≤ item.attemptCount := h.attemptsRead e earlier id' item hsuffix hfound
      _ < maxMFAAttempts := by
        obtain ⟨token, heq⟩ := challengeFound_eq hfound
        refine hlaw.2.2.2 id' item ⟨token, mem_own.mpr ⟨?_, rfl⟩⟩
        rw [← hcall, ← heq]
        exact he
  | _ => cases hverify

section Tables
variable [UnicodeTables]

/-! ## Statements -/

theorem nextID_le_exec (tokens : Table LoginToken) (op : TokenOp) : tokens.nextID ≤ (op.exec env tokens).2.nextID := by
  cases op with
  | create item => exact Nat.le_succ _
  | markUsed id usedAt =>
    rw [TokenOp.exec]
    split
    · exact Nat.le_refl _
    · split_ifs <;> exact Nat.le_refl _
  | _ => exact Nat.le_refl _

theorem nextID_le_step (w : AuthWorld) (t : ℕ) (op : Op) (i : Chance) :
    w.store.loginTokens.nextID ≤ (w.step (Op.exec env) t op i).store.loginTokens.nextID := by
  by_cases h : ∃ top, op = .loginTokens top
  · obtain ⟨top, rfl⟩ := h
    change _ ≤ (orFailed i.ok w.store.loginTokens (top.exec env w.store.loginTokens)).2.nextID
    cases i.ok with
    | false => exact Nat.le_refl _
    | true => exact nextID_le_exec _ top
  · change _ ≤ (Op.exec env op i w.store).2.loginTokens.nextID
    rw [loginTokens_frame fun top heq => h ⟨top, heq⟩]

variable {item' : LoginToken}

theorem exec_origin {tokens : Table LoginToken} {op : TokenOp} {id : ℕ}
    (h : (op.exec env tokens).2.get id = some item') (hnone : tokens.get id = none) :
    op = .create item' ∧ id = tokens.nextID := by
  have hupdate : ∀ p f, (tokens.update p f).get id = none := by
    intro p f
    rw [Table.get_update, hnone]
    rfl
  cases op with
  | create item =>
    rcases Table.get_insert_cases h with h | ⟨hid, rfl⟩
    · rw [hnone] at h
      cases h
    · exact ⟨rfl, hid⟩
  | markUsed id' usedAt =>
    rw [TokenOp.exec] at h
    split at h
    · rw [hnone] at h
      cases h
    · split_ifs at h
      · rw [hupdate] at h
        cases h
      · rw [hnone] at h
        cases h
  | invalidateOutstandingByUserScope userID scope usedAt =>
    have hsome : (tokens.update _ _).get id = some item' := h
    rw [hupdate] at hsome
    cases hsome
  | addAttempt id' =>
    have hsome : (tokens.update _ _).get id = some item' := h
    rw [hupdate] at hsome
    cases hsome
  | _ =>
    have hsome : tokens.get id = some item' := h
    rw [hnone] at hsome
    cases hsome

theorem token_origin {id : ℕ} (h : (w.step (Op.exec env) t op i).store.loginTokens.get id = some item') :
    (∃ item, w.store.loginTokens.get id = some item ∧ item.Later item') ∨
      op = .loginTokens (.create item') ∧ id = w.store.loginTokens.nextID ∧ i.ok = true := by
  cases hget : w.store.loginTokens.get id with
  | some item =>
    have hlater : TokensLater _ (w.step (Op.exec env) t op i).store.loginTokens := tokensLater_step w t op i
    obtain ⟨item'', hget', hlater⟩ := hlater id item hget
    rw [h, Option.some.injEq] at hget'
    exact Or.inl ⟨item, rfl, hget' ▸ hlater⟩
  | none =>
    right
    by_cases hop : ∃ top, op = .loginTokens top
    · obtain ⟨top, rfl⟩ := hop
      have hafter : (orFailed i.ok w.store.loginTokens (top.exec env w.store.loginTokens)).2.get id = some item' := h
      cases hok : i.ok with
      | false =>
        rw [hok] at hafter
        have hsame : w.store.loginTokens.get id = some item' := hafter
        rw [hget] at hsame
        cases hsame
      | true =>
        rw [hok] at hafter
        obtain ⟨rfl, hid⟩ := exec_origin hafter hget
        exact ⟨rfl, hid, rfl⟩
    · have hafter : (Op.exec env op i w.store).2.loginTokens.get id = some item' := h
      rw [loginTokens_frame fun top heq => hop ⟨top, heq⟩, hget] at hafter
      cases hafter

variable {userID : ℕ}

theorem usable_step {id : ℕ} (h : Usable (w.step (Op.exec env) t op i).store userID id) :
    Usable w.store userID id ∨ id = w.store.loginTokens.nextID ∧
      Inserts userID ⟨t, op, w.answer (Op.exec env) op i⟩ = true := by
  obtain ⟨item', hget, huser, hscope, hunused, hexpires⟩ := h
  rcases token_origin hget with ⟨item, hget', hlater⟩ | ⟨rfl, hid, hok⟩
  · refine Or.inl ⟨item, hget', hlater.same.userID ▸ huser, hlater.same.scope ▸ hscope, ?_, ?_⟩
    · cases hused : item.usedAt with
      | none => rfl
      | some time =>
        rw [hlater.used time hused] at hunused
        cases hunused
    · rw [← hlater.same.expiresAt]
      exact Int.le_trans (clock_le_exec op i w.store) hexpires
  · refine Or.inr ⟨hid, ?_⟩
    have hans : w.answer (Op.exec env) (.loginTokens (.create item')) i = .ok w.store.loginTokens.nextID := by
      change (orFailed i.ok w.store.loginTokens _).1 = _
      rw [hok]
      rfl
    rw [hans]
    simp [Inserts, huser, hscope]

/-! ## Attempts -/

theorem challengeFound_truth {id : ℕ} {item : LoginToken}
    (h : challengeFound ⟨t, op, w.answer (Op.exec env) op i⟩ = some (id, item)) :
    w.store.loginTokens.get id = some item := by
  obtain ⟨token, heq⟩ := challengeFound_eq h
  obtain ⟨-, rfl, hans⟩ := Entry.mk.inj heq
  obtain ⟨hval, -⟩ := loginTokens_ok (eq_of_heq hans)
  exact (Table.last_some (orNotFound_ok hval)).1

theorem attempts_step (h : ChallengeInv s w) {id : ℕ}
    (hget : (w.step (Op.exec env) t op i).store.loginTokens.get id = some item') :
    (counters id (w.step (Op.exec env) t op i).log).length ≤ item'.attemptCount := by
  change (counters id (⟨t, op, w.answer (Op.exec env) op i⟩ :: w.log)).length ≤ _
  rw [counters_cons]
  rcases token_origin hget with ⟨item, hget', hlater⟩ | ⟨rfl, rfl, hok⟩
  · have hle := h.attempts id item hget'
    split_ifs with hcounts
    · obtain ⟨-, rfl, hans⟩ := Entry.mk.inj (counts_eq hcounts)
      obtain ⟨-, hstep⟩ := loginTokens_ok (eq_of_heq hans)
      rw [hstep t] at hget
      have hadd := Table.get_update_some (fun id' _ => id' = id)
        (fun item : LoginToken => { item with attemptCount := item.attemptCount + 1 }) hget'
      rw [if_pos (decide_eq_true rfl)] at hadd
      have heq := hget.symm.trans hadd
      rw [Option.some.injEq] at heq
      rw [heq]
      exact Nat.succ_le_succ hle
    · exact Nat.le_trans hle hlater.attempts
  · -- nothing was counted on a token that was not there
    have hnone : counters w.store.loginTokens.nextID w.log = [] := by
      refine List.map_eq_nil_iff.mpr (List.filter_eq_nil_iff.mpr fun e he hcounts => ?_)
      exact Nat.lt_irrefl _ (h.countedStored e he _ hcounts)
    rw [hnone]
    exact Nat.zero_le _

theorem countedStored_step (h : ChallengeInv s w) (hlaw : Law env t (w.own t) op) {id : ℕ}
    (hcounts : Counts id ⟨t, op, w.answer (Op.exec env) op i⟩ = true) : id < w.store.loginTokens.nextID := by
  obtain ⟨-, rfl, -⟩ := Entry.mk.inj (counts_eq hcounts)
  obtain ⟨item, token, hfound⟩ := hlaw
  exact h.stored _ (mem_own.mp hfound).1 id item rfl

/-! ## Challenges -/

theorem notUsable_of_invalidates (h : Invalidates userID ⟨t, op, w.answer (Op.exec env) op i⟩ = true) (id : ℕ) :
    ¬ Usable (w.step (Op.exec env) t op i).store userID id := by
  obtain ⟨usedAt, heq⟩ := invalidates_eq h
  obtain ⟨-, rfl, hans⟩ := Entry.mk.inj heq
  obtain ⟨-, hstep⟩ := loginTokens_ok (eq_of_heq hans)
  rintro ⟨item', hget, huser, hscope, hunused, -⟩
  rw [hstep t] at hget
  have hget' : (w.store.loginTokens.update _ (LoginToken.use usedAt)).get id = some item' := hget
  rw [Table.get_update] at hget'
  obtain ⟨item, -, rfl⟩ := Option.map_eq_some_iff.mp hget'
  split_ifs at huser hscope hunused with hmatch
  · cases hunused
  · exact hmatch (by simp [huser, hscope, hunused])

theorem usedUp_step (h : ChallengeInv s w) {u : ℕ}
    (hexists : ∃ e ∈ (w.step (Op.exec env) t op i).log, e.call = u ∧ Invalidates userID e = true) :
    insertedSince u userID (w.step (Op.exec env) t op i).log = true ∨
      ∀ id, ¬ Usable (w.step (Op.exec env) t op i).store userID id := by
  change insertedSince u userID (⟨t, op, w.answer (Op.exec env) op i⟩ :: w.log) = true ∨ _
  rw [insertedSince]
  obtain ⟨e, he, hcall, hinvalidates⟩ := hexists
  by_cases hnew : Invalidates userID ⟨t, op, w.answer (Op.exec env) op i⟩ = true
  · exact Or.inr (notUsable_of_invalidates hnew)
  · rw [if_neg (by simp [hnew])]
    by_cases hinserts : Inserts userID ⟨t, op, w.answer (Op.exec env) op i⟩ = true
    · exact Or.inl (by rw [hinserts]; rfl)
    · have hold : e ∈ w.log := (List.mem_cons.mp he).resolve_left fun heq => hnew (heq ▸ hinvalidates)
      rcases h.usedUp u userID ⟨e, hold, hcall, hinvalidates⟩ with hsince | hnone
      · exact Or.inl (by rw [hsince, Bool.or_true])
      · exact Or.inr fun id husable => (usable_step husable).elim (hnone id) fun hnew => hinserts hnew.2

theorem single_step (h : ChallengeInv s w) (hlaw : Law env t (w.own t) op) (hgiven : Undisturbed t op i w)
    (hexists : AtMostOneUsable s userID ∨ ∃ e ∈ (w.step (Op.exec env) t op i).log, Inserts userID e = true) :
    AtMostOneUsable (w.step (Op.exec env) t op i).store userID := by
  intro id id' hid hid'
  by_cases hinserts : Inserts userID ⟨t, op, w.answer (Op.exec env) op i⟩ = true
  · obtain ⟨item, newID, heq, huser, hscope⟩ := inserts_eq hinserts
    obtain ⟨-, rfl, -⟩ := Entry.mk.inj heq
    obtain ⟨userID', now, huser', -, hinvalidated⟩ := hlaw
    rw [huser, Option.some.injEq] at huser'
    subst huser'
    have hfalse := hgiven userID huser
    have hnone : ∀ id, ¬ Usable w.store userID id := by
      refine (h.usedUp t userID ⟨_, (mem_own.mp hinvalidated).1, rfl, decide_eq_true rfl⟩).resolve_left ?_
      rw [hfalse]
      exact Bool.false_ne_true
    exact ((usable_step hid).resolve_left (hnone id)).1.trans ((usable_step hid').resolve_left (hnone id')).1.symm
  · have hold : AtMostOneUsable w.store userID := by
      refine h.single userID (hexists.imp_right ?_)
      rintro ⟨e, he, hins⟩
      exact ⟨e, (List.mem_cons.mp he).resolve_left fun heq => hinserts (heq ▸ hins), hins⟩
    exact hold id id' ((usable_step hid).resolve_right fun hnew => hinserts hnew.2)
      ((usable_step hid').resolve_right fun hnew => hinserts hnew.2)

/-! ## Runs -/

theorem verifiers_step (w : AuthWorld) (t : ℕ) (op : Op) (i : Chance) (id : ℕ) :
    verifiers id (w.step (Op.exec env) t op i).log = verifiers id w.log ∨
      verifiers id (w.step (Op.exec env) t op i).log = t :: verifiers id w.log ∧ op.isVerify = true ∧
        ∃ e ∈ w.log, e.call = t ∧ Finds id e = true := by
  change verifiers id (⟨t, op, w.answer (Op.exec env) op i⟩ :: w.log) = _ ∨
    verifiers id (⟨t, op, w.answer (Op.exec env) op i⟩ :: w.log) = _ ∧ _
  rw [verifiers]
  split_ifs with hcond
  · simp only [Bool.and_eq_true, List.any_eq_true, decide_eq_true_eq] at hcond
    exact Or.inr ⟨rfl, hcond⟩
  · exact Or.inl rfl

theorem ChallengeInv.step (h : ChallengeInv s w) (hlaw : Law env t (w.own t) op) (hgiven : Undisturbed t op i w) :
    ChallengeInv s (w.step (Op.exec env) t op i) where
  stored := by
    intro e he id item hfound
    refine Nat.lt_of_lt_of_le ?_ (nextID_le_step w t op i)
    rcases List.mem_cons.mp he with rfl | he
    · exact (Table.get_lt (challengeFound_truth hfound)).2
    · exact h.stored e he id item hfound
  countedStored := by
    intro e he id hcounts
    refine Nat.lt_of_lt_of_le ?_ (nextID_le_step w t op i)
    rcases List.mem_cons.mp he with rfl | he
    · exact countedStored_step h hlaw hcounts
    · exact h.countedStored e he id hcounts
  attempts := fun _ _ hget => attempts_step h hget
  attemptsRead := by
    intro e earlier id item hsuffix hfound
    rcases List.suffix_cons_iff.mp hsuffix with heq | hsuffix
    · obtain ⟨rfl, rfl⟩ := List.cons.inj heq
      exact h.attempts id item (challengeFound_truth hfound)
    · exact h.attemptsRead e earlier id item hsuffix hfound
  once := by
    intro id
    rcases verifiers_step w t op i id with heq | ⟨heq, hverify, -⟩
    · rw [heq]
      exact h.once id
    · rw [heq]
      exact List.nodup_cons.mpr ⟨notVerifier hlaw hverify id, h.once id⟩
  bounded := by
    intro id
    rcases verifiers_step w t op i id with heq | ⟨heq, hverify, e, he, hcall, hfinds⟩
    · rw [heq]
      exact h.bounded id
    · rw [heq]
      exact verifiers_lt h hlaw hgiven hverify he hcall hfinds
  usedUp := fun _ _ hexists => usedUp_step h hexists
  single := fun _ hexists => single_step h hlaw hgiven hexists

/-- In every run in which each verification finds the earlier ones counted, and each challenge is
stored before another one is: at most `maxMFAAttempts` codes are verified against any challenge; and
a user has at most one usable challenge once one was stored, or if it was so at first. -/
theorem boundedGuessing (env : Env) (s : Store) (events : List (Event ServiceRequest Chance))
    (c : Config Ans Store ServiceRequest (Except CallError Reply))
    (hcond : (service env).Along (Allows (fun _ => True) Undisturbed) (Config.init s) events)
    (hrun : (service env).run (Config.init s) events = some c) :
    (∀ id, (verifiers id c.world.log).length ≤ maxMFAAttempts) ∧
    ∀ userID, (AtMostOneUsable s userID ∨ ∃ e ∈ c.world.log, Inserts userID e = true) →
      AtMostOneUsable c.world.store userID := by
  obtain ⟨hinv, -⟩ := lawful_run (service env) (fun t request _ => callOf_obeys request)
    (fun t op i w hinv hlaw hgiven => ChallengeInv.step hinv hlaw hgiven) (challengeInv_init s) hcond hrun
  exact ⟨hinv.bounded, hinv.single⟩

end Tables
end Inv

def oneGuess : List (Event ServiceRequest Chance) :=
  .start 0 (.beginMFAChallenge 1 sampleUser) :: steps 0 3 ++
    .start 1 (.completeMFA [0, 2] [0x78] sampleMetadata) :: steps 1 6

theorem boundedGuessing_oneGuess :
    ∃ c, (@service asciiTables sampleEnv).run (Config.init (sampleStore sampleUser .empty)) oneGuess = some c ∧
      verifiers 1 c.world.log = [1] ∧ AtMostOneUsable c.world.store 1 := by
  refine ⟨_, rfl, by decide +kernel, ?_⟩
  refine (@boundedGuessing asciiTables sampleEnv (sampleStore sampleUser .empty) oneGuess _ ?_ rfl).2 1 (Or.inl ?_)
  · iterate 3 refine along_cons trivial rfl ?_
    refine along_cons ?_ rfl ?_
    rotate_left
    iterate 6 refine along_cons trivial rfl ?_
    refine along_cons ?_ rfl ?_
    rotate_left
    trivial
    · intro userID huser
      cases huser
      rfl
    · exact fun _ _ _ _ _ _ => List.nil_subset _
  · rintro id id' ⟨item, hget, -⟩
    cases hget

/-! ## Calls that overlap -/

def sampleChallenge : LoginToken :=
  ⟨some 1, none, [0x61], [0x74], .mfaLogin, 600 * 1000000000, none, 0⟩

def sixGuesses : List (Event ServiceRequest Chance) :=
  (List.range 6).flatMap (fun t => .start t (.completeMFA [0x74] [0x78] sampleMetadata) :: steps t 5) ++
    (List.range 6).flatMap fun t => steps t 1

def twoChallenges : List (Event ServiceRequest Chance) :=
  [.start 0 (.beginMFAChallenge 1 sampleUser), .start 1 (.beginMFAChallenge 1 sampleUser)] ++
    steps 0 2 ++ steps 1 2 ++ steps 0 1 ++ steps 1 1

theorem unboundedGuessing :
    (∃ c, (@service asciiTables sampleEnv).run
        (Config.init (sampleStore sampleUser (Table.empty.insert sampleChallenge)))
        sixGuesses = some c ∧ maxMFAAttempts < (verifiers 1 c.world.log).length) ∧
    ∃ c, (@service asciiTables sampleEnv).run (Config.init (sampleStore sampleUser .empty))
      twoChallenges = some c ∧
      (∀ t < 2, ∃ task reply, c.task t = some task ∧ task.rest = .ret (.ok reply)) ∧
      Usable c.world.store 1 1 ∧ Usable c.world.store 1 2 := by
  refine ⟨⟨_, rfl, by decide +kernel⟩, _, rfl, fun t ht => ?_, ?_, ?_⟩
  · match t, ht with
    | 0, _ => exact ⟨_, _, rfl, rfl⟩
    | 1, _ => exact ⟨_, _, rfl, rfl⟩
  · exact ⟨_, rfl, rfl, rfl, rfl, by decide +kernel⟩
  · exact ⟨_, rfl, rfl, rfl, rfl, by decide +kernel⟩

end Portlyn.Auth
