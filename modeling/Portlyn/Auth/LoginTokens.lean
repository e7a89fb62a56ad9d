import Portlyn.Auth.Calls

/-! # One-time tokens

`VerifyOTP`, `VerifyRouteEmailCode`, `ConsumeMagicLink` and `CompleteMFA` look a token up, check it,
and mark it used with an update that only takes effect on an unused row. That update alone makes a
token one-time, whatever runs between the statements (`oneTimeTokens`). -/
namespace Portlyn.Auth
open Go Domain Lib Lib.Interleave
set_option autoImplicit false

/-! ## Tokens only get used -/

structure LoginToken.Same (a b : LoginToken) : Prop where
  userID : a.userID = b.userID
  serviceID : a.serviceID = b.serviceID
  email : a.email = b.email
  token : a.token = b.token
  scope : a.scope = b.scope
  expiresAt : a.expiresAt = b.expiresAt

structure LoginToken.Later (item item' : LoginToken) : Prop where
  same : item'.Same item
  used : ∀ time, item.usedAt = some time → item'.usedAt = some time
  attempts : item.attemptCount ≤ item'.attemptCount

theorem LoginToken.Later.refl (item : LoginToken) : item.Later item :=
  ⟨⟨rfl, rfl, rfl, rfl, rfl, rfl⟩, fun _ h => h, Nat.le_refl _⟩

theorem LoginToken.Later.trans {a b c : LoginToken} (h : a.Later b) (h' : b.Later c) : a.Later c where
  same := ⟨h'.same.1.trans h.same.1, h'.same.2.trans h.same.2, h'.same.3.trans h.same.3, h'.same.4.trans h.same.4,
    h'.same.5.trans h.same.5, h'.same.6.trans h.same.6⟩
  used := fun time hu => h'.used time (h.used time hu)
  attempts := Nat.le_trans h.attempts h'.attempts

def TokensLater (tokens tokens' : Table LoginToken) : Prop :=
  ∀ id item, tokens.get id = some item → ∃ item', tokens'.get id = some item' ∧ item.Later item'

theorem TokensLater.refl (tokens : Table LoginToken) : TokensLater tokens tokens :=
  fun _ item h => ⟨item, h, .refl item⟩

theorem TokensLater.trans {a b c : Table LoginToken} (h : TokensLater a b) (h' : TokensLater b c) :
    TokensLater a c := by
  intro id item hget
  obtain ⟨item', hget', hlater⟩ := h id item hget
  obtain ⟨item'', hget'', hlater'⟩ := h' id item' hget'
  exact ⟨item'', hget'', hlater.trans hlater'⟩

theorem tokensLater_update {tokens : Table LoginToken} {p : ℕ → LoginToken → Bool} {f : LoginToken → LoginToken}
    (h : ∀ id item, tokens.get id = some item → p id item = true → item.Later (f item)) :
    TokensLater tokens (tokens.update p f) := by
  intro id item hget
  refine ⟨_, Table.get_update_some p f hget, ?_⟩
  by_cases hp : p id item = true
  · rw [if_pos hp]
    exact h id item hget hp
  · rw [if_neg hp]
    exact .refl item

theorem later_use {item : LoginToken} (h : item.usedAt = none) (usedAt : Instant) : item.Later (item.use usedAt) :=
  ⟨⟨rfl, rfl, rfl, rfl, rfl, rfl⟩, fun time hu => absurd (h.symm.trans hu) (Option.some_ne_none time).symm,
    Nat.le_refl _⟩

/-! ## Marks -/

/-- The call `t` marked the token `id` used: its update took effect. -/
def Marked (w : AuthWorld) (t id : ℕ) (usedAt : Instant) : Prop :=
  (⟨t, .loginTokens (.markUsed id usedAt), (.ok () : Except StoreError Unit)⟩ : Entry Ans) ∈ w.log

structure TokensInv (w : AuthWorld) : Prop where
  recorded : ∀ t id usedAt, Marked w t id usedAt →
    ∃ item, w.store.loginTokens.get id = some item ∧ item.usedAt = some usedAt
  once : ∀ t u id usedAt usedAt', Marked w t id usedAt → Marked w u id usedAt' → t = u

def NoMark (op : Op) : Prop := ∀ id usedAt, op ≠ .loginTokens (.markUsed id usedAt)

theorem marked_iff_own {w : AuthWorld} {t id : ℕ} {usedAt : Instant} :
    Marked w t id usedAt ↔
      (⟨t, .loginTokens (.markUsed id usedAt), (.ok () : Except StoreError Unit)⟩ : Entry Ans) ∈ w.own t :=
  ⟨fun h => mem_own.mpr ⟨h, rfl⟩, fun h => (mem_own.mp h).1⟩

theorem tokensInv_init (s : Store) : TokensInv ⟨s, []⟩ where
  recorded := fun _ _ _ h => absurd h List.not_mem_nil
  once := fun _ _ _ _ _ h => absurd h List.not_mem_nil

/-! ## What a call may rely on -/

structure Since (w w' : AuthWorld) : Prop where
  tokens : TokensLater w.store.loginTokens w'.store.loginTokens
  clock : w.store.clock ≤ w'.store.clock

theorem Since.refl (w : AuthWorld) : Since w w := ⟨.refl _, Int.le_refl _⟩

theorem Since.trans {a b c : AuthWorld} (h : Since a b) (h' : Since b c) : Since a c :=
  ⟨h.tokens.trans h'.tokens, Int.le_trans h.clock h'.clock⟩

structure Untouched (start : AuthWorld) (t : ℕ) (w : AuthWorld) : Prop where
  unmarked : ∀ id usedAt, ¬ Marked w t id usedAt
  clock : start.store.clock ≤ w.store.clock

/-- The call has marked a token, and every token it marked is of the right kind and had not expired
when the call read the clock. -/
structure Consumed (fits : LoginToken → Prop) (start : AuthWorld) (t : ℕ) (w : AuthWorld) : Prop where
  marked : ∃ id usedAt, Marked w t id usedAt
  fits : ∀ id usedAt, Marked w t id usedAt → ∃ item, w.store.loginTokens.get id = some item ∧ fits item ∧
    item.usedAt = some usedAt ∧ start.store.clock ≤ usedAt ∧ usedAt ≤ item.expiresAt

def Stable (fits : LoginToken → Prop) : Prop := ∀ item item', item'.Same item → fits item → fits item'

theorem Consumed.since {fits : LoginToken → Prop} {start w w' : AuthWorld} {t : ℕ}
    (h : Consumed fits start t w) (hfits : Stable fits) (hsince : Since w w')
    (hmarks : ∀ id usedAt, Marked w' t id usedAt ↔ Marked w t id usedAt) : Consumed fits start t w' where
  marked := by
    obtain ⟨id, usedAt, hm⟩ := h.marked
    exact ⟨id, usedAt, (hmarks id usedAt).mpr hm⟩
  fits := by
    intro id usedAt hm
    obtain ⟨item, hget, hfit, hused, hstart, hexpires⟩ := h.fits id usedAt ((hmarks id usedAt).mp hm)
    obtain ⟨item', hget', hlater⟩ := hsince.tokens id item hget
    refine ⟨item', hget', hfits item item' hlater.same hfit, hlater.used usedAt hused, hstart, ?_⟩
    rw [hlater.same.expiresAt]
    exact hexpires

def ConsumedIfOk {α : Type} (fits : LoginToken → Prop) (start : AuthWorld) (t : ℕ)
    (result : Except CallError α) (w : AuthWorld) : Prop :=
  ∀ a, result = .ok a → Consumed fits start t w

/-! ## Parts that mark no token -/

section NoMark
variable {env : Env} {t : ℕ}

theorem noMark_otpEnabled : (otpEnabled env).All NoMark := by
  refine all_op nofun fun settings => ?_
  cases settings <;> trivial

theorem noMark_of_completesLogin (op : Op) (h : CompletesLogin op) : NoMark op := by
  rintro id usedAt rfl
  cases h

theorem noMark_saveFactor (userID : ℕ) (user : UserRow) (verdict : Verdict) (metadata : RequestMetadata) :
    (saveMFAFactor env t userID user verdict metadata).All NoMark := by
  have hlogin : ∀ user', (completeSuccessfulLogin env t userID user' metadata).All NoMark :=
    fun user' => (all_completeSuccessfulLogin env userID user' metadata).imp noMark_of_completesLogin
  refine all_ite (all_op nofun fun result => ?_) (hlogin _)
  cases result with
  | error e => cases e <;> trivial
  | ok _ => exact hlogin _

end NoMark

/-! ## Statements -/

section Tables
variable [UnicodeTables] {env : Env}

theorem tokensLater_exec (tokens : Table LoginToken) (op : TokenOp) : TokensLater tokens (op.exec env tokens).2 := by
  cases op with
  | create item => exact fun id old hget => ⟨old, Table.get_insert_of_some item hget, .refl old⟩
  | invalidateOutstandingByUserScope userID scope usedAt =>
    refine tokensLater_update fun id item _ hp => later_use ?_ usedAt
    simp only [Bool.and_eq_true, decide_eq_true_eq] at hp
    exact hp.2
  | markUsed id usedAt =>
    rw [TokenOp.exec]
    split
    · exact .refl tokens
    · rename_i item hget
      split_ifs with hunused
      · refine tokensLater_update fun id' item' hget' hp => later_use ?_ usedAt
        obtain rfl := of_decide_eq_true hp
        rw [hget, Option.some.injEq] at hget'
        exact hget' ▸ hunused
      · exact .refl tokens
  | addAttempt id =>
    exact tokensLater_update fun _ item _ _ => ⟨⟨rfl, rfl, rfl, rfl, rfl, rfl⟩, fun _ h => h, Nat.le_succ _⟩
  | _ => exact .refl tokens

theorem tokensLater_step (w : AuthWorld) (t : ℕ) (op : Op) (i : Chance) :
    TokensLater w.store.loginTokens (w.step (Op.exec env) t op i).store.loginTokens := by
  by_cases h : ∃ top, op = .loginTokens top
  · obtain ⟨top, rfl⟩ := h
    change TokensLater _ (orFailed i.ok w.store.loginTokens (top.exec env w.store.loginTokens)).2
    cases i.ok with
    | false => exact .refl _
    | true => exact tokensLater_exec _ top
  · change TokensLater _ (Op.exec env op i w.store).2.loginTokens
    rw [loginTokens_frame fun top heq => h ⟨top, heq⟩]
    exact .refl _

variable {i : Chance}

theorem markUsed_ok {w : AuthWorld} {id : ℕ} {usedAt : Instant}
    (h : w.answer (Op.exec env) (.loginTokens (.markUsed id usedAt)) i = (.ok () : Except StoreError Unit)) :
    ∃ item, w.store.loginTokens.get id = some item ∧ item.usedAt = none ∧
      ∀ t, (w.step (Op.exec env) t (.loginTokens (.markUsed id usedAt)) i).store.loginTokens =
        w.store.loginTokens.update (fun id' _ => id' = id) (LoginToken.use usedAt) := by
  obtain ⟨hval, hstep⟩ := loginTokens_ok h
  simp only [TokenOp.exec] at hval hstep
  split at hval
  · cases hval
  · rename_i item hget
    rw [hget] at hstep
    by_cases hunused : item.usedAt = none
    · simp only [hunused] at hstep
      exact ⟨item, hget, hunused, hstep⟩
    · simp [hunused] at hval

theorem marked_step {w : AuthWorld} {t u : ℕ} {op : Op} {id : ℕ} {usedAt : Instant}
    (h : Marked (w.step (Op.exec env) t op i) u id usedAt) :
    Marked w u id usedAt ∨ u = t ∧ op = .loginTokens (.markUsed id usedAt) ∧
      ∃ item, w.store.loginTokens.get id = some item ∧ item.usedAt = none ∧
        (w.step (Op.exec env) t op i).store.loginTokens.get id = some (item.use usedAt) := by
  rcases List.mem_cons.mp h with heq | hmem
  · obtain ⟨rfl, rfl, hans⟩ := Entry.mk.inj heq
    obtain ⟨item, hget, hunused, hexec⟩ := markUsed_ok (eq_of_heq hans).symm
    refine Or.inr ⟨rfl, rfl, item, hget, hunused, ?_⟩
    rw [hexec, Table.get_update_some _ _ hget, if_pos (decide_eq_true rfl)]
  · exact Or.inl hmem

theorem TokensInv.step {w : AuthWorld} (h : TokensInv w) (t : ℕ) (op : Op) (i : Chance) :
    TokensInv (w.step (Op.exec env) t op i) where
  recorded := by
    intro u id usedAt hmark
    rcases marked_step hmark with hold | ⟨-, -, item, -, -, hget⟩
    · obtain ⟨item, hget, hused⟩ := h.recorded u id usedAt hold
      have hlater : TokensLater _ (w.step (Op.exec env) t op i).store.loginTokens := tokensLater_step w t op i
      obtain ⟨item', hget', hlater⟩ := hlater id item hget
      exact ⟨item', hget', hlater.used usedAt hused⟩
    · exact ⟨item.use usedAt, hget, rfl⟩
  once := by
    -- a token that a mark has used is not found unused again
    have hclash : ∀ u id usedAt item, Marked w u id usedAt →
      w.store.loginTokens.get id = some item → item.usedAt ≠ none := by
      intro u id usedAt item hold hget hunused
      obtain ⟨item', hget', hused⟩ := h.recorded u id usedAt hold
      rw [hget, Option.some.injEq] at hget'
      rw [← hget', hunused] at hused
      cases hused
    intro u v id usedAt usedAt' hu hv
    rcases marked_step hu with hu' | ⟨rfl, -, item, hget, hunused, -⟩ <;>
      rcases marked_step hv with hv' | ⟨rfl, -, item', hget', hunused', -⟩
    · exact h.once u v id usedAt usedAt' hu' hv'
    · exact absurd hunused' (hclash u id usedAt item' hu' hget')
    · exact absurd hunused (hclash v id usedAt' item hv' hget)
    · rfl

theorem since_step (w : AuthWorld) (t : ℕ) (op : Op) (i : Chance) : Since w (w.step (Op.exec env) t op i) :=
  ⟨tokensLater_step w t op i, clock_le_exec op i w.store⟩

variable (env) in
def tokenDiscipline : Discipline (Op.exec env) where
  inv := TokensInv
  rely := fun t w w' => Since w w' ∧ w'.own t = w.own t
  promise := fun _ _ _ => True
  given := fun _ _ _ _ => True
  refl := fun _ w => ⟨.refl w, rfl⟩
  trans := fun _ _ _ _ h h' => ⟨h.1.trans h'.1, h'.2.trans h.2⟩
  keeps := fun t op i _ h _ _ => h.step t op i
  others := fun t op i w _ hne _ _ _ => ⟨since_step w t op i, own_step_of_ne _ op i w hne⟩

/-! ## Calls that consume a token -/

variable {fits : LoginToken → Prop} {start w w' : AuthWorld} {t : ℕ} {α : Type}

theorem Untouched.rely (h : Untouched start t w) (hrely : (tokenDiscipline env).rely t w w') :
    Untouched start t w' where
  unmarked := fun id usedAt hm => h.unmarked id usedAt (marked_iff_own.mpr (hrely.2 ▸ marked_iff_own.mp hm))
  clock := Int.le_trans h.clock hrely.1.clock

theorem Untouched.step (h : Untouched start t w) {op : Op} (hop : NoMark op) (i : Chance) :
    Untouched start t (w.step (Op.exec env) t op i) where
  unmarked := by
    intro id usedAt hm
    rcases marked_step hm with hm | ⟨-, heq, -⟩
    · exact h.unmarked id usedAt hm
    · exact hop id usedAt heq
  clock := Int.le_trans h.clock (clock_le_exec op i w.store)

theorem Consumed.rely (h : Consumed fits start t w) (hfits : Stable fits)
    (hrely : (tokenDiscipline env).rely t w w') : Consumed fits start t w' :=
  h.since hfits hrely.1 fun id usedAt => by rw [marked_iff_own, marked_iff_own, hrely.2]

theorem Consumed.step (h : Consumed fits start t w) (hfits : Stable fits) {op : Op}
    (hop : NoMark op) (i : Chance) : Consumed fits start t (w.step (Op.exec env) t op i) := by
  refine h.since hfits (since_step w t op i) fun id usedAt => ⟨fun hm => ?_, List.mem_cons_of_mem _⟩
  rcases marked_step hm with hm | ⟨-, heq, -⟩
  · exact hm
  · exact absurd heq (hop id usedAt)

theorem wp_error (e : CallError) :
    (tokenDiscipline env).Wp t (ConsumedIfOk fits start t)
      (.ret (.error e) : Call (Except CallError α)) w :=
  wp_ret fun _ _ _ _ h => by cases h

theorem wp_quiet {op : Op} {f : Ans op → Call (Except CallError α)} (hop : NoMark op)
    (hw : Untouched start t w)
    (h : ∀ w' i ans, w'.answer (Op.exec env) op i = ans → Since w (w'.step (Op.exec env) t op i) →
      Untouched start t w' → Untouched start t (w'.step (Op.exec env) t op i) →
      (tokenDiscipline env).Wp t (ConsumedIfOk fits start t) (f ans)
      (w'.step (Op.exec env) t op i)) :
    (tokenDiscipline env).Wp t (ConsumedIfOk fits start t) (Prog.op op >>= f) w :=
  wp_op (fun _ _ _ => trivial) fun w' i ans hrely _ _ hans =>
    h w' i ans hans (hrely.1.trans (since_step w' t op i)) (hw.rely hrely) ((hw.rely hrely).step hop i)

theorem wp_quietCall {β : Type} {p : Call β} {f : β → Call (Except CallError α)} (hp : p.All NoMark)
    (hw : Untouched start t w)
    (h : ∀ b w', Untouched start t w' → (tokenDiscipline env).Wp t (ConsumedIfOk fits start t)
      (f b) w') :
    (tokenDiscipline env).Wp t (ConsumedIfOk fits start t) (p >>= f) w :=
  wp_bind ((wp_of_all (fun _ _ hrely h => Untouched.rely h hrely) (fun _ _ _ _ _ => trivial)
    (fun _ i _ hop _ h _ => h.step hop i) hp hw).imp fun b w' _ hw' => h b w' hw')

theorem wp_fails {β : Type} (p : Call β) (e : CallError) :
    (tokenDiscipline env).Wp t (ConsumedIfOk fits start t)
      (p >>= fun _ => (pure (.error e) : Call (Except CallError α))) w := by
  refine wp_bind ((wp_of_all (fun _ _ _ _ => trivial) (fun _ _ _ _ _ => trivial)
    (fun _ _ _ _ _ _ _ => trivial) (all_trivial p) trivial).imp fun _ _ _ _ => wp_error e)

variable {item : LoginToken}

theorem wp_markUsed (hfits : Stable fits) {id : ℕ} {now : Instant} {rest : Call (Except CallError α)}
    (hw : Untouched start t w)
    (hseen : ∃ item', w.store.loginTokens.get id = some item' ∧ item.Later item') (hfit : fits item)
    (hnow : start.store.clock ≤ now) (hexpires : now ≤ item.expiresAt) (hrest : rest.All NoMark) :
    (tokenDiscipline env).Wp t (ConsumedIfOk fits start t)
      (LoginTokens.markUsed id now >>= fun result =>
        match result with
        | .error e => pure (.error (.store e))
        | .ok _ => rest) w := by
  refine wp_op (fun _ _ _ => trivial) fun w' i ans hrely _ _ hans => ?_
  obtain e | u := ans
  · exact wp_error (.store e)
  have hconsumed : Consumed fits start t (w'.step (Op.exec env) t (.loginTokens (.markUsed id now)) i) := by
    refine ⟨⟨id, now, List.mem_cons.mpr (Or.inl (by rw [hans]))⟩, fun id' usedAt hm => ?_⟩
    rcases marked_step hm with hm | ⟨-, hop, item₂, hget₂, -, hget⟩
    · exact absurd hm ((hw.rely hrely).unmarked id' usedAt)
    · obtain ⟨rfl, rfl⟩ : id = id' ∧ now = usedAt := by
        injection hop with hop
        injection hop with h1 h2
        exact ⟨h1, h2⟩
      obtain ⟨item', hget', hlater⟩ := hseen
      obtain ⟨item'', hget'', hlater'⟩ := hrely.1.tokens id item' hget'
      rw [hget₂, Option.some.injEq] at hget''
      subst hget''
      have hsame := (hlater.trans hlater').same
      refine ⟨item₂.use now, hget,
        hfits item _ ⟨hsame.1, hsame.2, hsame.3, hsame.4, hsame.5, hsame.6⟩ hfit, rfl, hnow, ?_⟩
      change now ≤ item₂.expiresAt
      rw [hsame.expiresAt]
      exact hexpires
  refine ((wp_of_all (fun _ _ hrely h => Consumed.rely h hfits hrely) (fun _ _ _ _ _ => trivial)
    (fun _ i _ hop _ h _ => h.step hfits hop i) hrest hconsumed).imp ?_)
  exact fun _ _ _ h _ _ => h

/-! ## The calls -/

/-- The token is the presented one, of the given scope and service, and of the given e-mail if one
is given. -/
structure Presented (env : Env) (scope : TokenScope) (serviceID : Option ℕ) (email token : GoString)
    (item : LoginToken) :
    Prop where
  scope : item.scope = scope
  serviceID : item.serviceID = serviceID
  email : trimSpace email = [] ∨ env.sqlLower item.email = toLower (trimSpace email)
  token : item.token = env.hashToken (trimSpace token)

theorem stable_presented (scope : TokenScope) (serviceID : Option ℕ) (email token : GoString) :
    Stable (Presented env scope serviceID email token) :=
  fun _ _ hsame h => ⟨hsame.scope.trans h.scope, hsame.serviceID.trans h.serviceID, hsame.email ▸ h.email,
    hsame.token.trans h.token⟩

theorem getValidTokenByScope_ok {email token : GoString} {scope : TokenScope} {serviceID : Option ℕ}
    {id : ℕ}
    (h : w.answer (Op.exec env)
      (.loginTokens (.getValidTokenByScope email token scope serviceID)) i =
      (.ok (id, item) : Except StoreError (ℕ × LoginToken))) :
    Presented env scope serviceID email token item ∧
      ∀ t, (w.step (Op.exec env) t
        (.loginTokens (.getValidTokenByScope email token scope serviceID)) i).store.loginTokens.get
        id =
        some item := by
  obtain ⟨hval, hstep⟩ := loginTokens_ok h
  obtain ⟨hget, hquery⟩ := Table.last_some (orNotFound_ok hval)
  simp only [validTokenQuery, Bool.and_eq_true, Bool.or_eq_true, decide_eq_true_eq] at hquery
  obtain ⟨⟨⟨hscope, htoken⟩, hemail⟩, hservice⟩ := hquery
  exact ⟨⟨hscope, hservice, hemail, htoken⟩, fun t => (hstep t).symm ▸ hget⟩

theorem getMagicLink_ok {serviceID : ℕ} {token : GoString} {id : ℕ}
    (h : w.answer (Op.exec env) (.loginTokens (.getMagicLink serviceID token)) i =
      (.ok (id, item) : Except StoreError (ℕ × LoginToken))) :
    Presented env .magicLink (some serviceID) [] token item ∧
      ∀ t, (w.step (Op.exec env) t (.loginTokens (.getMagicLink serviceID token))
        i).store.loginTokens.get id = some item := by
  obtain ⟨hval, hstep⟩ := loginTokens_ok h
  obtain ⟨hget, hquery⟩ := Table.last_some (orNotFound_ok hval)
  simp only [magicLinkQuery, Bool.and_eq_true, decide_eq_true_eq] at hquery
  exact ⟨⟨hquery.1.1, hquery.1.2, Or.inl rfl, hquery.2⟩, fun t => (hstep t).symm ▸ hget⟩

theorem wp_verifyRouteEmailCode (serviceID : ℕ) (email code : GoString) (hw : Untouched start t w) :
    (tokenDiscipline env).Wp t
      (ConsumedIfOk (Presented env .routeAccess (some serviceID) (toLower (trimSpace email)) code) start t)
      (verifyRouteEmailCode serviceID email code) w := by
  refine wp_quiet nofun hw fun w₁ i₁ now hnow _ hw₁ hw₁' => ?_
  refine wp_quiet nofun hw₁' fun w₂ i₂ found hfound hsince hw₂ hw₂' => ?_
  obtain e | found := found
  · cases e <;> exact wp_error _
  obtain ⟨hfit, hget⟩ := getValidTokenByScope_ok hfound
  refine wp_ite (fun _ => wp_error _) fun _ => wp_ite (fun _ => wp_error _) fun hexpired => ?_
  exact wp_markUsed (stable_presented _ _ _ _) hw₂' ⟨_, hget t, .refl _⟩ hfit (hnow ▸ hw₁.clock)
    (Int.not_lt.mp hexpired)
    trivial

theorem wp_consumeMagicLink (serviceID : ℕ) (token remoteAddr : GoString) (hw : Untouched start t w) :
    (tokenDiscipline env).Wp t (ConsumedIfOk (Presented env .magicLink (some serviceID) [] token) start t)
      (consumeMagicLink serviceID token remoteAddr) w := by
  refine wp_ite (fun _ => wp_error _) fun _ => ?_
  refine wp_quiet nofun hw fun _ _ limited _ _ _ hw₁ => wp_ite (fun _ => wp_error _) fun _ => ?_
  refine wp_quiet nofun hw₁ fun w₂ i₂ found hfound _ _ hw₂ => ?_
  obtain e | found := found
  · cases e <;> exact wp_error _
  obtain ⟨hfit, hget⟩ := getMagicLink_ok hfound
  refine wp_quiet nofun hw₂ fun w₃ i₃ now hnow hsince hw₃ hw₃' => ?_
  refine wp_ite (fun _ => wp_error _) fun _ => wp_ite (fun _ => wp_error _) fun hexpired => ?_
  obtain ⟨item', hget', hlater⟩ := hsince.tokens _ _ (hget t)
  exact wp_markUsed (stable_presented _ _ _ _) hw₃' ⟨item', hget', hlater⟩ hfit (hnow ▸ hw₃.clock)
    (Int.not_lt.mp hexpired)
    trivial

theorem wp_verifyOTP (email token : GoString) (metadata : RequestMetadata)
    (hw : Untouched start t w) :
    (tokenDiscipline env).Wp t
      (ConsumedIfOk (Presented env .accountLogin none (toLower (trimSpace email)) token) start t)
      (verifyOTP env t email token metadata) w := by
  refine wp_quietCall noMark_otpEnabled hw fun enabled w₁ hw₁ => wp_ite (fun _ => wp_error _) fun _ => ?_
  refine wp_quiet nofun hw₁ fun _ _ now hnow _ hw₂ hw₂' => ?_
  refine wp_quiet nofun hw₂' fun _ _ _ _ _ _ hw₃ => wp_ite (fun _ => wp_error _) fun _ => ?_
  refine wp_quiet nofun hw₃ fun _ _ _ _ _ _ hw₄ => wp_ite (fun _ => wp_error _) fun _ => ?_
  refine wp_quiet nofun hw₄ fun _ _ found hfound _ _ hw₅ => ?_
  obtain e | found := found
  · cases e <;> exact wp_error _
  obtain ⟨hfit, hget⟩ := getValidTokenByScope_ok hfound
  refine wp_ite (fun _ => wp_error _) fun _ => wp_ite (fun _ => wp_error _) fun hexpired => ?_
  cases found.2.userID with
  | none => exact wp_error _
  | some userID =>
    refine wp_quiet nofun hw₅ fun w₆ i₆ user _ hsince _ hw₆ => ?_
    obtain _ | user := user
    · exact wp_error _
    refine wp_ite (fun _ => wp_error _) fun _ => ?_
    obtain ⟨item', hget', hlater⟩ := hsince.tokens _ _ (hget t)
    exact wp_markUsed (stable_presented _ _ _ _) hw₆ ⟨item', hget', hlater⟩ hfit (hnow ▸ hw₂.clock)
      (Int.not_lt.mp hexpired) ((all_completePrimaryLogin env _ _ _).imp noMark_of_completesLogin)

theorem wp_completeMFA (mfaToken code : GoString) (metadata : RequestMetadata) (hw : Untouched start t w) :
    (tokenDiscipline env).Wp t (ConsumedIfOk (Presented env .mfaLogin none [] mfaToken) start t)
      (completeMFA env t mfaToken code metadata) w := by
  refine wp_quiet nofun hw fun _ _ now hnow _ hw₁ hw₁' => ?_
  refine wp_quiet nofun hw₁' fun _ _ _ _ _ _ hw₂ => wp_ite (fun _ => wp_error _) fun _ => ?_
  refine wp_quiet nofun hw₂ fun _ _ found hfound _ _ hw₃ => ?_
  obtain _ | found := found
  · exact wp_error _
  obtain ⟨hfit, hget⟩ := getValidTokenByScope_ok hfound
  refine wp_ite (fun _ => wp_error _) fun _ => wp_ite (fun _ => wp_error _) fun hexpired => ?_
  cases found.2.userID with
  | none => exact wp_error _
  | some userID =>
    refine wp_quiet nofun hw₃ fun w₄ i₄ _ _ hsince₄ _ hw₄ => wp_ite (fun _ => wp_error _) fun _ => ?_
    refine wp_ite (fun _ => wp_fails (LoginTokens.markUsed found.1 now) .rateLimited) fun _ => ?_
    refine wp_quiet nofun hw₄ fun w₅ i₅ user _ hsince₅ _ hw₅ => ?_
    obtain _ | user := user
    · exact wp_error _
    refine wp_ite (fun _ => wp_error _) fun _ => ?_
    refine wp_quiet nofun hw₅ fun w₆ i₆ verdict _ hsince₆ _ hw₆ => ?_
    split
    · exact wp_fails (countWrongCode found.1 now) .mfaCodeInvalid
    · obtain ⟨item', hget', hlater⟩ := ((hsince₄.trans hsince₅).trans hsince₆).tokens _ _ (hget t)
      exact wp_markUsed (stable_presented _ _ _ _) hw₆ ⟨item', hget', hlater⟩ hfit (hnow ▸ hw₁.clock)
        (Int.not_lt.mp hexpired) (noMark_saveFactor _ _ _ _)

/-! ## All calls -/

def Consumable (env : Env) : ServiceRequest → LoginToken → Prop
  | .verifyOTP email token _ => Presented env .accountLogin none (toLower (trimSpace email)) token
  | .verifyRouteEmailCode serviceID email code =>
    Presented env .routeAccess (some serviceID) (toLower (trimSpace email)) code
  | .consumeMagicLink serviceID token _ => Presented env .magicLink (some serviceID) [] token
  | .completeMFA mfaToken _ _ => Presented env .mfaLogin none [] mfaToken
  | _ => fun _ => False

def Consuming : ServiceRequest → Prop
  | .verifyOTP .. => True
  | .verifyRouteEmailCode .. => True
  | .consumeMagicLink .. => True
  | .completeMFA .. => True
  | _ => False

theorem wp_replying (hfits : Stable fits) (reply : α → Reply) {call : Call (Except CallError α)}
    (h : (tokenDiscipline env).Wp t (ConsumedIfOk fits start t) call w) :
    (tokenDiscipline env).Wp t (ConsumedIfOk fits start t) (replying reply call) w := by
  refine wp_bind (h.imp fun result w' hinv hresult => wp_ret fun w'' hrely _ b hb => ?_)
  cases result with
  | error e => cases hb
  | ok a => exact (hresult a rfl).rely hfits hrely

theorem wp_callOf (request : ServiceRequest) (hrequest : Consuming request) (hw : Untouched start t w) :
    (tokenDiscipline env).Wp t (ConsumedIfOk (Consumable env request) start t) (callOf env t request) w := by
  cases request with
  | verifyOTP email token metadata =>
    exact wp_replying (stable_presented _ _ _ _) _ (wp_verifyOTP email token metadata hw)
  | verifyRouteEmailCode serviceID email code =>
    exact wp_replying (stable_presented _ _ _ _) _ (wp_verifyRouteEmailCode serviceID email code hw)
  | consumeMagicLink serviceID token remoteAddr =>
    exact wp_replying (stable_presented _ _ _ _) _ (wp_consumeMagicLink serviceID token remoteAddr hw)
  | completeMFA mfaToken code metadata =>
    exact wp_replying (stable_presented _ _ _ _) _ (wp_completeMFA mfaToken code metadata hw)
  | _ => cases hrequest

/-- For every table of tokens and every interleaving of calls: a call that consumes a token and
succeeds has marked one; each token that it marked is of its scope, its service and its e-mail and
had not expired by the time that the call took for the present; and no two calls mark the same
token. -/
theorem oneTimeTokens (env : Env) (s : Store) (events : List (Event ServiceRequest Chance))
    (c : Config Ans Store ServiceRequest (Except CallError Reply))
    (hrun : (service env).run (Config.init s) events = some c) :
    (∀ t task reply, c.task t = some task → Consuming task.request → task.rest = .ret (.ok reply) →
      Consumed (Consumable env task.request) task.start t c.world) ∧
    ∀ t u id usedAt usedAt', Marked c.world t id usedAt → Marked c.world u id usedAt' → t = u := by
  have hkept : Kept (service env) (tokenDiscipline env)
      (fun t request start result w => Consuming request →
        ConsumedIfOk (Consumable env request) start t result w) c := by
    refine (tokenDiscipline env).sound_always (fun _ _ _ _ => trivial) (fun t request w _ hunused => ?_)
      (kept_init (tokensInv_init s)) hrun
    by_cases hrequest : Consuming request
    · have hw : Untouched w t w := ⟨fun _ _ hm => hunused _ hm rfl, Int.le_refl _⟩
      exact (wp_callOf request hrequest hw).imp fun _ _ _ h _ => h
    · exact (wp_of_all (fun _ _ _ _ => trivial) (fun _ _ _ _ _ => trivial)
        (fun _ _ _ _ _ _ _ => trivial) (all_trivial _) trivial).imp fun _ _ _ _ h => absurd h hrequest
  exact ⟨fun t task reply htask hrequest hrest => hkept.returned htask hrest hrequest reply rfl, hkept.inv.once⟩

end Tables

def codeStore : Store :=
  sampleStore sampleUser (Table.empty.insert ⟨none, some 1, [0x61], [0x63], .routeAccess, 5, none, 0⟩)

def codePresentedTwice : List (Event ServiceRequest Chance) :=
  [.start 0 (.verifyRouteEmailCode 1 [0x61] [0x63]), .start 1 (.verifyRouteEmailCode 1 [0x61] [0x63])] ++
    steps 0 2 ++ steps 1 2 ++ steps 0 1 ++ steps 1 1

theorem oneTimeTokens_twice :
    ∃ c task, (@service asciiTables sampleEnv).run (Config.init codeStore) codePresentedTwice = some c ∧
      c.task 0 = some task ∧ task.rest = .ret (.ok .done) ∧
      Consumed (@Consumable asciiTables sampleEnv task.request) task.start 0 c.world ∧ ¬ Marked c.world 1 1 0 := by
  refine ⟨_, _, rfl, rfl, rfl, ?_, fun h => ?_⟩
  · refine (@oneTimeTokens asciiTables sampleEnv codeStore codePresentedTwice _ rfl).1 0 _ .done rfl ?_ rfl
    trivial
  · refine absurd ((@oneTimeTokens asciiTables sampleEnv codeStore codePresentedTwice _ rfl).2 0 1 1
      0 0 ?_ h) (by decide)
    exact List.mem_cons_of_mem _ List.mem_cons_self

/-- The call reads the clock and finds the code, and then time passes. -/
def codePresentedLate : List (Event ServiceRequest Chance) :=
  [.start 0 (.verifyRouteEmailCode 1 [0x61] [0x63])] ++ steps 0 2 ++ [.start 1 (.tick 100)] ++ steps 1 1

/-- `MarkUsed` does not look at the expiry: the code expires at 5, and at 100 it is still unused and
is consumed by a call that succeeds. -/
theorem token_consumed_late :
    ∃ c c' task item, (@service asciiTables sampleEnv).run (Config.init codeStore) codePresentedLate = some c ∧
      c.world.store.loginTokens.get 1 = some item ∧ item.expiresAt = 5 ∧ item.usedAt = none ∧
      c.world.store.clock = 100 ∧ (@service asciiTables sampleEnv).run c (steps 0 1) = some c' ∧
      c'.task 0 = some task ∧ task.rest = .ret (.ok .done) ∧ Marked c'.world 0 1 0 :=
  ⟨_, _, _, _, rfl, rfl, rfl, rfl, rfl, rfl, rfl, rfl, List.mem_cons_self⟩

end Portlyn.Auth
