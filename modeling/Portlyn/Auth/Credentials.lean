import Portlyn.Auth.Sessions

/-! # Changes of credentials

`ChangeOwnPassword` and `EnableTOTP` update the user and then end the sessions of the user that
exist. A login reads the user, verifies it and stores its session at the end; if the change runs in
between, the session stays. So does the session of a challenge that was issued before the change,
since a change does not use up challenges (`oldAccessSurvives`). Where no login stores a session on
the ground of what was read before a change that has already ended the sessions, all older access
ends (`credentialsEndAccess`). -/
namespace Portlyn.Auth
open Go Domain Lib Lib.Interleave
set_option autoImplicit false

/-! ## Older logins -/

def ReadBy (t userID : ℕ) (log : History) : Prop :=
  ∃ row, (∃ email, (⟨t, .users (.getByEmail email), .ok (userID, row)⟩ : Entry Ans) ∈ log) ∨ ReadUser t log userID row

/-- The login `t` rests on what was read of the user in `earlier`: by the call itself, or by the one
that issued the challenge that it answers. A challenge of the first store counts as old. -/
def OldLogin (s : Store) (log earlier : History) (t userID : ℕ) : Prop :=
  ReadBy t userID earlier ∨
    ∃ id item, FoundChallenge t log id item ∧ item.userID = some userID ∧
      ((∃ item', s.loginTokens.get id = some item') ∨
        ∃ u item', (⟨u, .loginTokens (.create item'), .ok id⟩ : Entry Ans) ∈ log ∧ ReadBy u userID earlier)

/-- The session is one of the first store, or was stored by a login that rests on `earlier`. -/
def OldSession (s : Store) (log earlier : History) (sid userID : ℕ) : Prop :=
  (∃ row, s.sessions.get sid = some row) ∨
    ∃ t item before, (⟨t, .sessions (.create item), .ok sid⟩ : Entry Ans) :: before <:+ log ∧
    OldLogin s before earlier t userID

/-! ## Changes -/

/-- The call has updated the user, when the log was `earlier`. -/
def UpdatedAfter (log earlier : History) (t userID : ℕ) : Prop :=
  ∃ user guard expected fields,
    (⟨t, .users (.updateFieldsIf userID user guard expected fields), .ok ()⟩ : Entry Ans) :: earlier <:+ log

/-- After that update the call has ended the sessions of the user but `current`. -/
def EndedAfter (log earlier : History) (t userID : ℕ) (current : Option ℕ) : Prop :=
  ∃ now value between, (⟨t, .sessions (endingOp userID now current), .ok value⟩ : Entry Ans) :: between <:+ log ∧
    UpdatedAfter between earlier t userID

/-- A login that stores a session does not rest on what was read before a change that has ended the
sessions already. And the statement by which a change ends the sessions does not fail. -/
def NoOlderLogin (s : Store) (t : ℕ) (op : Op) (i : Chance) (w : AuthWorld) : Prop :=
  match op with
  | .sessions (.create item) =>
    ∀ earlier u current, EndedAfter w.log earlier u item.userID current → ¬ OldLogin s w.log earlier t item.userID
  | .sessions (.revokeByUser _ _) => (∃ e ∈ w.own t, e.op.isUpdate = true) → i.ok = true
  | .sessions (.revokeByUserExcept ..) => (∃ e ∈ w.own t, e.op.isUpdate = true) → i.ok = true
  | _ => True

/-! ## What the calls keep -/

structure CredentialInv (s : Store) (w : AuthWorld) : Prop where
  since : SessionsLater s.sessions w.store.sessions
  created : ∀ t item sid, (⟨t, .sessions (.create item), .ok sid⟩ : Entry Ans) ∈ w.log →
    ∃ row, w.store.sessions.get sid = some row
  /-- A change has ended the sessions if it has tried. -/
  tried : ∀ t userID now current answer between,
    (⟨t, .sessions (endingOp userID now current), answer⟩ : Entry Ans) :: between <:+ w.log →
    (∃ e ∈ between, e.call = t ∧ e.op.isUpdate = true) → ∃ value, answer = .ok value
  ended : ∀ earlier t userID current sid row, EndedAfter w.log earlier t userID current →
    w.store.sessions.get sid = some row → row.userID = userID → current ≠ some sid →
    OldSession s w.log earlier sid userID → row.revokedAt ≠ none

theorem credentialInv_init (s : Store) : CredentialInv s ⟨s, []⟩ where
  since := .refl _
  created := fun _ _ _ he => absurd he List.not_mem_nil
  tried := fun _ _ _ _ _ _ h => absurd (List.suffix_nil.mp h) (List.cons_ne_nil _ _)
  ended := fun _ _ _ _ _ _ ⟨_, _, _, h, _⟩ => absurd (List.suffix_nil.mp h) (List.cons_ne_nil _ _)

section Inv
variable {s : Store} {w : AuthWorld} {t : ℕ} {op : Op} {i : Chance}

variable {userID : ℕ} {current : Option ℕ}

theorem endingOp_revokes {sid : ℕ} {now : Instant} {row : SessionRow} (huser : row.userID = userID)
    (hother : current ≠ some sid) : (endingOp userID now current).Revokes sid row := by
  cases current with
  | none => exact huser
  | some sessionID => exact ⟨huser, Or.inr fun heq => hother (congrArg some heq.symm)⟩

theorem endingOp_ne_create (userID : ℕ) (now : Instant) (current : Option ℕ) (item : SessionRow) :
    endingOp userID now current ≠ .create item := by
  cases current <;> exact fun h => by cases h

variable [UnicodeTables] {env : Env}

theorem create_ok {sid : ℕ} {item : SessionRow}
    (heq : (⟨t, op, w.answer (Op.exec env) op i⟩ : Entry Ans) = ⟨t, .sessions (.create item), .ok sid⟩) :
    w.store.sessions.get sid = none ∧ (w.step (Op.exec env) t op i).store.sessions.get sid = some item := by
  obtain ⟨-, rfl, hans⟩ := Entry.mk.inj heq
  obtain ⟨hval, hstep⟩ := sessions_ok (eq_of_heq hans)
  rw [hstep t]
  rw [SessionOp.exec] at hval ⊢
  split_ifs at hval ⊢
  cases hval
  exact ⟨Table.get_nextID _, Table.get_insert_self _ _⟩

theorem oldSession_step {earlier : History} {sid : ℕ} {row : SessionRow}
    (hold : OldSession s (w.step (Op.exec env) t op i).log earlier sid userID)
    (hget : w.store.sessions.get sid = some row) : OldSession s w.log earlier sid userID := by
  refine hold.imp_right ?_
  rintro ⟨u, item, before, hsuffix, hlogin⟩
  rcases List.suffix_cons_iff.mp hsuffix with heq | hsuffix
  · obtain ⟨hentry, rfl⟩ := List.cons.inj heq
    obtain ⟨rfl, -⟩ := Entry.mk.inj hentry
    rw [(create_ok hentry.symm).1] at hget
    cases hget
  · exact ⟨u, item, before, hsuffix, hlogin⟩

theorem tried_step (h : CredentialInv s w) (hgiven : NoOlderLogin s t op i w) {u : ℕ}
    {now : Instant} {answer : Ans (.sessions (endingOp userID now current))} {between : History}
    (hsuffix : (⟨u, .sessions (endingOp userID now current), answer⟩ : Entry Ans) ::
      between <:+ (w.step (Op.exec env) t op i).log)
    (hupdated : ∃ e ∈ between, e.call = u ∧ e.op.isUpdate = true) :
    ∃ value, answer = .ok value := by
  rcases List.suffix_cons_iff.mp hsuffix with heq | hsuffix
  · obtain ⟨hentry, rfl⟩ := List.cons.inj heq
    obtain ⟨rfl, rfl, hans⟩ := Entry.mk.inj hentry
    obtain rfl := eq_of_heq hans
    obtain ⟨e, he, hcall, hupdate⟩ := hupdated
    have hown : ∃ e ∈ w.own u, e.op.isUpdate = true := ⟨e, mem_own.mpr ⟨he, hcall⟩, hupdate⟩
    change ∃ value, (orFailed i.ok w.store.sessions ((endingOp userID now current).exec w.store.sessions)).1 = .ok value
    cases current with
    | none =>
      rw [hgiven hown]
      exact ⟨_, rfl⟩
    | some sessionID =>
      rw [hgiven hown]
      exact ⟨_, rfl⟩
  · exact h.tried u userID now current answer between hsuffix hupdated

theorem ended_step (h : CredentialInv s w) (hgiven : NoOlderLogin s t op i w) {earlier : History}
    {u sid : ℕ} {row' : SessionRow}
    (hended : EndedAfter (w.step (Op.exec env) t op i).log earlier u userID current)
    (hget' : (w.step (Op.exec env) t op i).store.sessions.get sid = some row')
    (huser : row'.userID = userID) (hother : current ≠ some sid)
    (hold : OldSession s (w.step (Op.exec env) t op i).log earlier sid userID) :
    row'.revokedAt ≠ none := by
  obtain ⟨now, value, between, hsuffix, hupdated⟩ := hended
  cases hget : w.store.sessions.get sid with
  | some row =>
    obtain ⟨row₁, hget₁, hlater⟩ := sessionsLater_step w t op i sid row hget
    rw [hget', Option.some.injEq] at hget₁
    subst hget₁
    rw [hlater.userID] at huser
    rcases List.suffix_cons_iff.mp hsuffix with heq | hsuffix
    · obtain ⟨hentry, rfl⟩ := List.cons.inj heq
      obtain ⟨rfl, rfl, hans⟩ := Entry.mk.inj hentry
      obtain ⟨row₂, hget₂, hrevoked⟩ := revokes_step hget (endingOp_revokes huser hother) (eq_of_heq hans).symm
      rw [hget', Option.some.injEq] at hget₂
      subst hget₂
      exact hrevoked
    · have hrevoked := h.ended earlier u userID current sid row ⟨now, value, between, hsuffix,
        hupdated⟩ hget huser hother
        (oldSession_step hold hget)
      rw [hlater.revoked hrevoked]
      exact hrevoked
  | none =>
    -- the session is stored now, and by the condition not by an older login
    exfalso
    rcases session_origin hget' with ⟨row, hget₁, -⟩ | ⟨item, previous, heq, -⟩ | heq
    · rw [hget] at hget₁
      cases hget₁
    · obtain ⟨row, hget₁, -⟩ := rotate_ok heq
      rw [hget] at hget₁
      cases hget₁
    · obtain ⟨-, hop, -⟩ := Entry.mk.inj heq
      subst hop
      have hended : EndedAfter w.log earlier u row'.userID current := by
        rcases List.suffix_cons_iff.mp hsuffix with hcons | hsuffix
        · obtain ⟨hentry, -⟩ := List.cons.inj hcons
          obtain ⟨-, hop, -⟩ := Entry.mk.inj hentry
          exact absurd (Op.sessions.inj hop) (endingOp_ne_create _ _ _ _)
        · rw [huser]
          exact ⟨now, value, between, hsuffix, hupdated⟩
      rcases hold with ⟨row, hinit⟩ | ⟨v, item, before, hsuffix', hlogin⟩
      · obtain ⟨row₁, hget₁, -⟩ := h.since sid row hinit
        rw [hget] at hget₁
        cases hget₁
      · rcases List.suffix_cons_iff.mp hsuffix' with hcons | hsuffix'
        · obtain ⟨hentry, rfl⟩ := List.cons.inj hcons
          obtain ⟨rfl, -⟩ := Entry.mk.inj hentry
          exact hgiven earlier u current hended (huser ▸ hlogin)
        · obtain ⟨row₁, hget₁⟩ := h.created v item sid (hsuffix'.subset List.mem_cons_self)
          rw [hget] at hget₁
          cases hget₁

theorem CredentialInv.step (h : CredentialInv s w) (hgiven : NoOlderLogin s t op i w) :
    CredentialInv s (w.step (Op.exec env) t op i) where
  since := h.since.trans (sessionsLater_step w t op i)
  created := by
    intro u item sid hmem
    rcases List.mem_cons.mp hmem with heq | hmem
    · obtain ⟨rfl, -⟩ := Entry.mk.inj heq
      exact ⟨item, (create_ok heq.symm).2⟩
    · obtain ⟨row, hget⟩ := h.created u item sid hmem
      obtain ⟨row', hget', -⟩ := sessionsLater_step w t op i sid row hget
      exact ⟨row', hget'⟩
  tried := fun _ _ _ _ _ _ hsuffix hupdated => tried_step h hgiven hsuffix hupdated
  ended := fun _ _ _ _ _ _ hended hget' huser hother hold => ended_step h hgiven hended hget' huser hother hold

/-! ## Runs -/

variable {c : AuthConfig} {events : List (Event ServiceRequest Chance)}

theorem endedAfter_of_ends (hrun : (service env).run (Config.init s) events = some c)
    (hinv : CredentialInv s c.world) (hends : EndsSessions t (c.world.own t) userID current) :
    ∃ earlier, UpdatedAfter c.world.log earlier t userID ∧
      EndedAfter c.world.log earlier t userID current := by
  obtain ⟨id, row, now, answer, later, own, user, guard, expected, fields, hread, hupdate, hown⟩ := hends
  obtain ⟨between, hsuffix, hbefore⟩ := own_split hown
  have hsub : between ⊆ c.world.log := fun _ he => hsuffix.subset (List.mem_cons_of_mem _ he)
  obtain ⟨-, -, c₁, c₂, i, -, -, -, -, hans⟩ := statement_moment hrun (hsub (hbefore _ hread)) List.not_mem_nil
  obtain ⟨rfl, -⟩ := readUser_truth hans
  obtain ⟨value, rfl⟩ := hinv.tried t id now current answer between hsuffix ⟨_, hbefore _ hupdate, rfl, rfl⟩
  obtain ⟨later', earlier, hsplit⟩ := List.append_of_mem (hbefore _ hupdate)
  have hupdated : UpdatedAfter between earlier t id := ⟨user, guard, expected, fields, later', hsplit.symm⟩
  refine ⟨earlier, ?_, now, value, between, hsuffix, hupdated⟩
  have hbetween : between <:+ c.world.log := (List.suffix_cons _ _).trans hsuffix
  obtain ⟨user, guard, expected, fields, hupdated⟩ := hupdated
  exact ⟨user, guard, expected, fields, hupdated.trans hbetween⟩

/-- In every run in which no login stores a session on the ground of what was read before a change
of credentials that has ended the sessions, and no change fails to end them: once
`ChangeOwnPassword` or `EnableTOTP` has succeeded, the sessions of the user but the caller's own are
revoked, at this and any later moment, if they are older or were stored by a login that rests on
what was read before the update. -/
theorem credentialsEndAccess (env : Env) (s : Store) (events : List (Event ServiceRequest Chance))
    (c : AuthConfig)
    (hcond : (service env).Along (Allows (fun _ => True) (NoOlderLogin s)) (Config.init s) events)
    (hrun : (service env).run (Config.init s) events = some c) (t userID : ℕ) (current : Option ℕ)
    (hchange : (∃ currentPassword newPassword,
      SucceededWith c t (.changeOwnPassword userID currentPassword newPassword current)) ∨
      ∃ code, SucceededWith c t (.enableTOTP userID code current)) :
    ∃ earlier, UpdatedAfter c.world.log earlier t userID ∧
      ∀ sid row, c.world.store.sessions.get sid = some row → row.userID = userID →
        current ≠ some sid →
        OldSession s c.world.log earlier sid userID → row.revokedAt ≠ none := by
  obtain ⟨hinv, hended⟩ := lawful_run (service env) (fun t request _ => callOf_obeys request)
    (fun t op i w hinv _ hgiven => CredentialInv.step hinv hgiven) (credentialInv_init s) hcond hrun
  have hends : EndsSessions t (c.world.own t) userID current := by
    rcases hchange with ⟨old, new, task, reply, htask, hrequest, hret⟩ | ⟨code, task, reply, htask, hrequest, hret⟩
    · obtain ⟨-, -, hends⟩ := hended t task _ htask hret reply rfl
      rw [hrequest] at hends
      exact hends
    · obtain ⟨-, -, hends⟩ := hended t task _ htask hret reply rfl
      rw [hrequest] at hends
      exact hends
  obtain ⟨earlier, hupdated, hafter⟩ := endedAfter_of_ends hrun hinv hends
  refine ⟨earlier, hupdated, fun sid row hget huser hother hold => ?_⟩
  exact hinv.ended earlier t userID current sid row hafter hget huser hother hold

end Inv

def plainUser : UserRow := { sampleUser with mfaEnabled := false }

def sampleSession : SessionRow := ⟨1, [0x74], [0x72], [], [], none, 3600 * 1000000000, none, false⟩

def sessionStore : Store :=
  { sampleStore plainUser .empty with sessions := Table.empty.insert sampleSession }

def loginThenChange : List (Event ServiceRequest Chance) :=
  .start 0 (.login [0x61] [0x70] sampleMetadata) :: steps 0 8 ++
    .start 1 (.changeOwnPassword 1 [0x70] [0x71] none) :: steps 1 4

def Op.isSession : Op → Bool
  | .sessions _ => true
  | _ => false

theorem not_endedAfter {log earlier : History} {t userID : ℕ} {current : Option ℕ}
    (hlog : (log.all fun e => !e.op.isSession) = true) : ¬ EndedAfter log earlier t userID current := by
  rintro ⟨now, value, between, hsuffix, -⟩
  have hfalse := List.all_eq_true.mp hlog _ (hsuffix.subset List.mem_cons_self)
  cases hfalse

theorem drop_subset {log earlier : History} {t userID n : ℕ} (h : UpdatedAfter log earlier t userID)
    (hrest : ((log.drop n).all fun e => !e.op.isUpdate) = true) : log.drop n ⊆ earlier := by
  obtain ⟨user, guard, expected, fields, h⟩ := h
  have hnot : (⟨t, .users (.updateFieldsIf userID user guard expected fields), .ok ()⟩ : Entry Ans) ∉ log.drop n := by
    intro hmem
    have hfalse := List.all_eq_true.mp hrest _ hmem
    cases hfalse
  rcases List.suffix_or_suffix_of_suffix (List.drop_suffix n log) h with hsuffix | hsuffix
  · rcases List.suffix_cons_iff.mp hsuffix with heq | hsuffix
    · exact absurd (heq ▸ List.mem_cons_self) hnot
    · exact hsuffix.subset
  · exact absurd (hsuffix.subset List.mem_cons_self) hnot

/-- The change ends both the session of the first store and that of the login. -/
theorem credentialsEndAccess_loginThenChange :
    ∃ c first second, (@service asciiTables sampleEnv).run (Config.init sessionStore) loginThenChange = some c ∧
      SucceededWith c 1 (.changeOwnPassword 1 [0x70] [0x71] none) ∧
      c.world.store.sessions.get 1 = some first ∧ first.revokedAt ≠ none ∧
      c.world.store.sessions.get 2 = some second ∧ second.revokedAt ≠ none := by
  have hcond : (@service asciiTables sampleEnv).Along (Allows (fun _ => True)
      (NoOlderLogin sessionStore)) (Config.init sessionStore)
      loginThenChange := by
    iterate 8 refine along_cons trivial rfl ?_
    refine along_cons ?_ rfl ?_
    rotate_left
    iterate 4 refine along_cons trivial rfl ?_
    refine along_cons (fun _ => rfl) rfl ?_
    trivial
    intro earlier u current hended
    exact absurd hended (not_endedAfter rfl)
  have hended : ∀ c, (@service asciiTables sampleEnv).run (Config.init sessionStore) loginThenChange = some c →
      SucceededWith c 1 (.changeOwnPassword 1 [0x70] [0x71] none) →
      ∀ sid row, c.world.store.sessions.get sid = some row →
      row.userID = 1 → (∀ earlier, UpdatedAfter c.world.log earlier 1 1 →
        OldSession sessionStore c.world.log earlier sid 1) →
      row.revokedAt ≠ none := by
    intro c hrun hchange sid row hget huser hold
    obtain ⟨earlier, hupdated, h⟩ :=
      @credentialsEndAccess asciiTables sampleEnv sessionStore loginThenChange c hcond hrun 1 1
      none (Or.inl ⟨_, _, hchange⟩)
    exact h sid row hget huser nofun (hold earlier hupdated)
  refine ⟨_, _, _, rfl, ⟨_, _, rfl, rfl, rfl⟩, rfl, ?_, rfl, ?_⟩
  · exact hended _ rfl ⟨_, _, rfl, rfl, rfl⟩ 1 _ rfl rfl fun _ _ => Or.inl ⟨sampleSession, rfl⟩
  · refine hended _ rfl ⟨_, _, rfl, rfl, rfl⟩ 2 _ rfl rfl fun earlier hupdated => ?_
    have hread := @drop_subset _ earlier 1 1 3 hupdated rfl
    exact Or.inr ⟨0, _, _, ⟨[_, _, _, _], rfl⟩, Or.inl ⟨_, Or.inl ⟨_, hread (List.mem_of_getElem? (i := 5) rfl)⟩⟩⟩

/-! ## Logins that overlap with a change -/

/-- The login has verified the password before the change, and stores its session after it. -/
def changeDuringLogin : List (Event ServiceRequest Chance) :=
  .start 0 (.login [0x61] [0x70] sampleMetadata) :: steps 0 4 ++
    .start 1 (.changeOwnPassword 1 [0x70] [0x71] none) :: steps 1 4 ++
    steps 0 4

def recoveryUser : UserRow := { sampleUser with mfaRecoveryCodes := [[0x78]] }

/-- The password is verified and a challenge issued before the change; the challenge is answered
after it. -/
def changeDuringChallenge : List (Event ServiceRequest Chance) :=
  .start 0 (.login [0x61] [0x70] sampleMetadata) :: steps 0 7 ++
    .start 1 (.changeOwnPassword 1 [0x70] [0x71] none) :: steps 1 4 ++
    .start 2 (.completeMFA [0, 2] [0x78] sampleMetadata) :: steps 2 12

theorem oldAccessSurvives :
    (∃ c earlier row, (@service asciiTables sampleEnv).run
      (Config.init (sampleStore plainUser .empty)) changeDuringLogin = some c ∧
      SucceededWith c 1 (.changeOwnPassword 1 [0x70] [0x71] none) ∧
        UpdatedAfter c.world.log earlier 1 1 ∧
      c.world.store.sessions.get 1 = some row ∧ row.userID = 1 ∧
      OldSession (sampleStore plainUser .empty) c.world.log earlier 1 1 ∧ row.revokedAt = none) ∧
    ∃ c earlier row, (@service asciiTables sampleEnv).run
      (Config.init (sampleStore recoveryUser .empty)) changeDuringChallenge = some c ∧
      SucceededWith c 1 (.changeOwnPassword 1 [0x70] [0x71] none) ∧
        UpdatedAfter c.world.log earlier 1 1 ∧
      c.world.store.sessions.get 1 = some row ∧ row.userID = 1 ∧
      OldSession (sampleStore recoveryUser .empty) c.world.log earlier 1 1 ∧
        row.revokedAt = none := by
  constructor
  · refine ⟨_, _, _, rfl, ⟨_, _, rfl, rfl, rfl⟩, ⟨_, _, _, _, [_, _, _, _, _, _], rfl⟩, rfl, rfl,
      Or.inr ⟨0, _, _, ⟨[], rfl⟩, ?_⟩, rfl⟩
    exact Or.inl ⟨_, Or.inl ⟨_, List.mem_of_getElem? (i := 1) rfl⟩⟩
  · refine ⟨_, _, _, rfl, ⟨_, _, rfl, rfl, rfl⟩,
      ⟨_, _, _, _, [_, _, _, _, _, _, _, _, _, _, _, _, _, _], rfl⟩, rfl, rfl,
      Or.inr ⟨2, _, _, ⟨[], rfl⟩, ?_⟩, rfl⟩
    exact Or.inr ⟨_, _, ⟨_, List.mem_of_getElem? (i := 8) rfl⟩, rfl,
      Or.inr ⟨0, _, List.mem_of_getElem? (i := 15) rfl, _, Or.inl ⟨_, List.mem_of_getElem? (i := 4) rfl⟩⟩⟩

end Portlyn.Auth
