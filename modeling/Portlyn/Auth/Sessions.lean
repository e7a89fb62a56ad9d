import Portlyn.Auth.SecondFactors

/-! # Sessions

A session is stored once and from then on rotated, touched and revoked by conditional updates. The
token id and the refresh hash of a row are the keys by which tokens find it; each rotation gives the
row new ones. If the random values behind them are new when they are stored, every key has one
session in its life, and a key that was rotated away finds nothing (`SessionInv`). With the order of
the statements of each call this gives the state machine of sessions (`sessionStateMachine`). -/
namespace Portlyn.Auth
open Go Domain Lib Lib.Interleave
set_option autoImplicit false

/-! ## Keys -/

inductive SessionKey
  | tokenID
  | refreshTokenHash

def SessionKey.of : SessionKey → SessionRow → GoString
  | .tokenID => SessionRow.tokenID
  | .refreshTokenHash => SessionRow.refreshTokenHash

/-- The session was stored, or rotated, as `item`. -/
def Stores (sid : ℕ) (item : SessionRow) : Entry Ans → Prop
  | ⟨_, .sessions (.create item'), answer⟩ => item' = item ∧ answer = .ok sid
  | ⟨_, .sessions (.rotate id item' _), answer⟩ => id = sid ∧ item' = item ∧ answer = .ok ()
  | _ => False

def Rotates (sid : ℕ) (e : Entry Ans) : Prop :=
  ∃ t item previous, e = ⟨t, .sessions (.rotate sid item previous), .ok ()⟩

def IssuedFor (key : SessionKey) (s : Store) (log : History) (sid : ℕ) (value : GoString) : Prop :=
  (∃ row, s.sessions.get sid = some row ∧ key.of row = value) ∨
    ∃ e ∈ log, ∃ item, Stores sid item e ∧ key.of item = value

theorem IssuedFor.mono {key : SessionKey} {s : Store} {log log' : History} {sid : ℕ} {value : GoString}
    (h : IssuedFor key s log sid value) (hsub : log ⊆ log') : IssuedFor key s log' sid value := by
  refine h.imp_right ?_
  rintro ⟨e, he, item, hstores⟩
  exact ⟨e, hsub he, item, hstores⟩

def DrawsNew (s : Store) (_ : ℕ) (op : Op) (_ : Chance) (w : AuthWorld) : Prop :=
  match op with
  | .sessions (.create item) => ∀ key sid, ¬ IssuedFor key s w.log sid (key.of item)
  | .sessions (.rotate _ item _) => ∀ key sid, ¬ IssuedFor key s w.log sid (key.of item)
  | _ => True

def UniqueKeys (sessions : Table SessionRow) : Prop :=
  ∀ (key : SessionKey) id id' row row', sessions.get id = some row → sessions.get id' = some row' →
    key.of row = key.of row' → id = id'

/-! ## How a session goes on -/

structure SessionRow.Later (row row' : SessionRow) : Prop where
  userID : row'.userID = row.userID
  revoked : row.revokedAt ≠ none → row' = { row with bootstrapDismissed := row'.bootstrapDismissed }

theorem SessionRow.Later.refl (row : SessionRow) : row.Later row := ⟨rfl, fun _ => rfl⟩

theorem SessionRow.Later.trans {a b c : SessionRow} (h : a.Later b) (h' : b.Later c) : a.Later c where
  userID := h'.userID.trans h.userID
  revoked := by
    intro hrevoked
    have hb := h.revoked hrevoked
    have hc := h'.revoked (by rw [hb]; exact hrevoked)
    rw [hb] at hc
    exact hc

def SessionsLater (sessions sessions' : Table SessionRow) : Prop :=
  ∀ id row, sessions.get id = some row → ∃ row', sessions'.get id = some row' ∧ row.Later row'

theorem SessionsLater.refl (sessions : Table SessionRow) : SessionsLater sessions sessions :=
  fun _ row h => ⟨row, h, .refl row⟩

theorem SessionsLater.trans {a b c : Table SessionRow} (h : SessionsLater a b)
    (h' : SessionsLater b c) : SessionsLater a c := by
  intro id row hget
  obtain ⟨row', hget', hlater⟩ := h id row hget
  obtain ⟨row'', hget'', hlater'⟩ := h' id row' hget'
  exact ⟨row'', hget'', hlater.trans hlater'⟩

/-! ## Statements on sessions -/

variable {sessions : Table SessionRow}

theorem sessionsLater_update {p : ℕ → SessionRow → Bool} {f : SessionRow → SessionRow}
    (h : ∀ id row, sessions.get id = some row → p id row = true → row.Later (f row)) :
    SessionsLater sessions (sessions.update p f) := by
  intro id row hget
  refine ⟨_, Table.get_update_some p f hget, ?_⟩
  by_cases hp : p id row = true
  · rw [if_pos hp]
    exact h id row hget hp
  · rw [if_neg hp]
    exact .refl row

variable {row row' : SessionRow}

theorem later_of_live (huser : row'.userID = row.userID) (hlive : row.revokedAt = none) :
    row.Later row' := ⟨huser, fun hrevoked => absurd hlive hrevoked⟩

theorem updateSession_cases (sessions : Table SessionRow) (id : ℕ) (p : SessionRow → Bool)
    (f : SessionRow → SessionRow) :
    updateSession sessions id p f = (.error .notFound, sessions) ∨
      ∃ row, sessions.get id = some row ∧ p row = true ∧
        updateSession sessions id p f = (.ok (), sessions.update (fun id' _ => id' = id) f) := by
  rw [updateSession]
  split
  · exact Or.inl rfl
  · rename_i row hget
    split_ifs with hp
    · exact Or.inr ⟨row, hget, hp, rfl⟩
    · exact Or.inl rfl

theorem rotate_cases (sessions : Table SessionRow) (id : ℕ) (item : SessionRow) (previous : GoString) :
    (∃ e, (SessionOp.rotate id item previous).exec sessions = (.error e, sessions)) ∨
      ∃ row, sessions.get id = some row ∧ row.revokedAt = none ∧ row.refreshTokenHash = previous ∧
        (SessionOp.rotate id item previous).exec sessions =
          (.ok (), sessions.update (fun id' _ => id' = id) (SessionRow.rotated item)) := by
  rw [SessionOp.exec]
  split
  · exact Or.inl ⟨_, rfl⟩
  · rename_i row hget
    by_cases hfound : (row.isLive && row.refreshTokenHash = previous) = true
    · split_ifs with htaken
      · exact Or.inl ⟨_, rfl⟩
      · simp only [Bool.and_eq_true, decide_eq_true_eq] at hfound
        exact Or.inr ⟨row, hget, of_decide_eq_true hfound.1, hfound.2, rfl⟩
    · rw [if_neg hfound]
      exact Or.inl ⟨_, rfl⟩

theorem sessionsLater_exec (sessions : Table SessionRow) (op : SessionOp) :
    SessionsLater sessions (op.exec sessions).2 := by
  -- an update of one row that must be live, or keeps what is told of a revoked one
  have hone : ∀ id p f, (∀ row, p row = true → row.Later (f row)) →
    SessionsLater sessions (updateSession sessions id p f).2 := by
    intro id p f hf
    rcases updateSession_cases sessions id p f with hexec | ⟨row, hget, hp, hexec⟩
    · rw [hexec]
      exact .refl sessions
    · rw [hexec]
      refine sessionsLater_update fun id' row' hget' hid => hf row' ?_
      obtain rfl := of_decide_eq_true hid
      rw [hget, Option.some.injEq] at hget'
      exact hget' ▸ hp
  cases op with
  | create item =>
    rw [SessionOp.exec]
    split_ifs
    · exact .refl sessions
    · exact fun id row hget => ⟨row, Table.get_insert_of_some item hget, .refl row⟩
  | rotate id item previous =>
    rcases rotate_cases sessions id item previous with ⟨e, hexec⟩ | ⟨row, hget, hlive, -, hexec⟩
    · rw [hexec]
      exact .refl sessions
    · rw [hexec]
      refine sessionsLater_update fun id' row' hget' hid => later_of_live rfl ?_
      obtain rfl := of_decide_eq_true hid
      rw [hget, Option.some.injEq] at hget'
      exact hget' ▸ hlive
  | touch id time => exact hone id _ _ fun row hlive => later_of_live rfl (of_decide_eq_true hlive)
  | markBootstrapDismissed id => exact hone id _ _ fun row _ => ⟨rfl, fun _ => rfl⟩
  | revoke id revokedAt => exact hone id _ _ fun row hlive => later_of_live rfl (of_decide_eq_true hlive)
  | revokeByUser userID revokedAt =>
    refine sessionsLater_update fun id row _ hp => later_of_live rfl ?_
    simp only [Bool.and_eq_true] at hp
    exact of_decide_eq_true hp.2
  | revokeByUserExcept userID exceptSessionID revokedAt =>
    refine sessionsLater_update fun id row _ hp => later_of_live rfl ?_
    simp only [Bool.and_eq_true] at hp
    exact of_decide_eq_true hp.1.2
  | _ => exact .refl sessions

theorem keys_exec {op : SessionOp} {id : ℕ} (hop : ∀ item previous, op ≠ .rotate id item previous)
    (hget : sessions.get id = some row) (hget' : (op.exec sessions).2.get id = some row')
    (key : SessionKey) : key.of row' = key.of row := by
  have hsame : ∀ {sessions'}, sessions' = sessions → sessions'.get id = some row' → key.of row' = key.of row := by
    rintro _ rfl h
    rw [hget, Option.some.injEq] at h
    rw [h]
  have hupdate : ∀ p f, (∀ row, key.of (f row) = key.of row) → (sessions.update p f).get id = some row' →
      key.of row' = key.of row := by
    intro p f hf h
    rw [Table.get_update_some p f hget, Option.some.injEq] at h
    rw [← h]
    split_ifs
    · exact hf row
    · rfl
  have hone : ∀ id' p f, (∀ row, key.of (f row) = key.of row) → (updateSession sessions id' p f).2.get id = some row' →
      key.of row' = key.of row := by
    intro id' p f hf h
    rcases updateSession_cases sessions id' p f with hexec | ⟨_, -, -, hexec⟩
    · rw [hexec] at h
      exact hsame rfl h
    · rw [hexec] at h
      exact hupdate _ f hf h
  cases op with
  | create item =>
    rw [SessionOp.exec] at hget'
    split_ifs at hget'
    · exact hsame rfl hget'
    · rw [Table.get_insert_of_some item hget, Option.some.injEq] at hget'
      rw [hget']
  | rotate id' item previous =>
    rcases rotate_cases sessions id' item previous with ⟨e, hexec⟩ | ⟨_, -, -, -, hexec⟩
    · rw [hexec] at hget'
      exact hsame rfl hget'
    · have hne : id ≠ id' := fun heq => hop item previous (heq ▸ rfl)
      rw [hexec, Table.get_update_some _ _ hget, if_neg (by simp [hne]), Option.some.injEq] at hget'
      rw [hget']
  | touch id' time =>
    refine hone id' _ _ (fun row => ?_) hget'
    cases key <;> rfl
  | markBootstrapDismissed id' =>
    refine hone id' _ _ (fun row => ?_) hget'
    cases key <;> rfl
  | revoke id' revokedAt =>
    refine hone id' _ _ (fun row => ?_) hget'
    cases key <;> rfl
  | revokeByUser userID revokedAt =>
    refine hupdate _ _ (fun row => ?_) hget'
    cases key <;> rfl
  | revokeByUserExcept userID exceptSessionID revokedAt =>
    refine hupdate _ _ (fun row => ?_) hget'
    cases key <;> rfl
  | _ => exact hsame rfl hget'

/-- The statement revokes the session with the row `row`, if it takes effect. -/
def SessionOp.Revokes (sid : ℕ) (row : SessionRow) : SessionOp → Prop
  | .revoke id _ => id = sid
  | .revokeByUser userID _ => row.userID = userID
  | .revokeByUserExcept userID exceptSessionID _ => row.userID = userID ∧ (exceptSessionID = 0 ∨ sid ≠ exceptSessionID)
  | _ => False

theorem revokes_exec {sop : SessionOp} {sid : ℕ} (hget : sessions.get sid = some row)
    (hrevokes : sop.Revokes sid row) {v : sop.Val} (hok : (sop.exec sessions).1 = .ok v) :
    ∃ row', (sop.exec sessions).2.get sid = some row' ∧ row'.revokedAt ≠ none := by
  -- where the update leaves the row as it is, it was revoked before
  have hupdate : ∀ p time, (p sid row = false → row.revokedAt ≠ none) →
      ∃ row', (sessions.update p (SessionRow.revoke time)).get sid = some row' ∧ row'.revokedAt ≠ none := by
    intro p time hp
    refine ⟨_, Table.get_update_some p _ hget, ?_⟩
    split_ifs with hmatch
    · exact Option.some_ne_none time
    · exact hp (Bool.not_eq_true _ ▸ hmatch)
  cases sop with
  | revoke id time =>
    obtain rfl : id = sid := hrevokes
    rcases updateSession_cases sessions id SessionRow.isLive (SessionRow.revoke time) with hexec | ⟨_, -, -, hexec⟩
    · have herror : (updateSession sessions id SessionRow.isLive (SessionRow.revoke time)).1 = .ok v := hok
      rw [hexec] at herror
      cases herror
    · rw [SessionOp.exec, hexec]
      exact hupdate _ time fun h => absurd rfl (of_decide_eq_false h)
  | revokeByUser userID time =>
    obtain rfl : row.userID = userID := hrevokes
    refine hupdate _ time fun h hlive => ?_
    simp [SessionRow.isLive, hlive] at h
  | revokeByUserExcept userID exceptSessionID time =>
    obtain ⟨rfl, hother⟩ := hrevokes
    refine hupdate _ time fun h hlive => ?_
    simp only [SessionRow.isLive, hlive, decide_true, Bool.true_and, Bool.or_eq_false_iff,
      decide_eq_false_iff_not, not_not] at h
    exact hother.elim h.1 fun hne => hne h.2
  | _ => exact hrevokes.elim

theorem origin_exec {op : SessionOp} {id : ℕ}
    (hget' : (op.exec sessions).2.get id = some row') (hnone : sessions.get id = none) :
    op = .create row' ∧ (SessionOp.create row').exec sessions = (.ok id, sessions.insert row') := by
  have hsame : ∀ {P : Prop} {sessions'}, sessions' = sessions → sessions'.get id = some row' → P := by
    rintro P _ rfl h
    rw [hnone] at h
    cases h
  have hupdate : ∀ {P : Prop} p f, (sessions.update p f).get id = some row' → P := by
    intro P p f h
    rw [Table.get_update, hnone] at h
    cases h
  have hone : ∀ {P : Prop} id' p f, (updateSession sessions id' p f).2.get id = some row' → P := by
    intro P id' p f h
    rcases updateSession_cases sessions id' p f with hexec | ⟨_, -, -, hexec⟩
    · rw [hexec] at h
      exact hsame rfl h
    · rw [hexec] at h
      exact hupdate _ f h
  cases op with
  | create item =>
    rw [SessionOp.exec] at hget'
    split_ifs at hget' with htaken
    · exact hsame rfl hget'
    · rcases Table.get_insert_cases hget' with h | ⟨rfl, rfl⟩
      · exact hsame rfl h
      · rw [SessionOp.exec, if_neg htaken]
        exact ⟨rfl, rfl⟩
  | rotate id' item previous =>
    rcases rotate_cases sessions id' item previous with ⟨e, hexec⟩ | ⟨_, -, -, -, hexec⟩
    · rw [hexec] at hget'
      exact hsame rfl hget'
    · rw [hexec] at hget'
      exact hupdate _ _ hget'
  | touch id' time => exact hone _ _ _ hget'
  | markBootstrapDismissed id' => exact hone _ _ _ hget'
  | revoke id' revokedAt => exact hone _ _ _ hget'
  | revokeByUser userID revokedAt => exact hupdate _ _ hget'
  | revokeByUserExcept userID exceptSessionID revokedAt => exact hupdate _ _ hget'
  | _ => exact hsame rfl hget'

section Steps
variable [UnicodeTables] {env : Env} {w : AuthWorld} {t : ℕ} {op : Op} {i : Chance}

theorem sessions_step (env : Env) (w : AuthWorld) (t : ℕ) (op : Op) (i : Chance) :
    (w.step (Op.exec env) t op i).store.sessions = w.store.sessions ∨
      ∃ sop, op = .sessions sop ∧ (w.step (Op.exec env) t op i).store.sessions = (sop.exec w.store.sessions).2 ∧
        (⟨t, op, w.answer (Op.exec env) op i⟩ : Entry Ans) = ⟨t, .sessions sop, (sop.exec w.store.sessions).1⟩ := by
  by_cases hop : ∃ sop, op = .sessions sop
  · obtain ⟨sop, rfl⟩ := hop
    have hstep : (w.step (Op.exec env) t (.sessions sop) i).store.sessions =
      (orFailed i.ok w.store.sessions (sop.exec w.store.sessions)).2 := rfl
    have hans : w.answer (Op.exec env)
      (.sessions sop) i = (orFailed i.ok w.store.sessions (sop.exec w.store.sessions)).1 := rfl
    cases hok : i.ok with
    | false =>
      rw [hok] at hstep
      exact Or.inl hstep
    | true =>
      rw [hok] at hstep hans
      exact Or.inr ⟨sop, rfl, hstep, by rw [hans]; rfl⟩
  · exact Or.inl (sessions_frame (fun sop heq => hop ⟨sop, heq⟩) i w.store)

theorem sessionsLater_step (w : AuthWorld) (t : ℕ) (op : Op) (i : Chance) :
    SessionsLater w.store.sessions (w.step (Op.exec env) t op i).store.sessions := by
  rcases sessions_step env w t op i with hsame | ⟨sop, -, hstep, -⟩
  · rw [hsame]
    exact .refl _
  · rw [hstep]
    exact sessionsLater_exec w.store.sessions sop

theorem session_origin {id : ℕ} {row' : SessionRow}
    (hget' : (w.step (Op.exec env) t op i).store.sessions.get id = some row') :
    (∃ row, w.store.sessions.get id = some row ∧ ∀ key : SessionKey, key.of row' = key.of row) ∨
    (∃ item previous, (⟨t, op, w.answer (Op.exec env) op i⟩ : Entry Ans) =
      ⟨t, .sessions (.rotate id item previous), .ok ()⟩ ∧
      ∀ key : SessionKey, key.of row' = key.of item) ∨
    (⟨t, op, w.answer (Op.exec env) op i⟩ : Entry Ans) = ⟨t, .sessions (.create row'), .ok id⟩ := by
  rcases sessions_step env w t op i with hsame | ⟨sop, rfl, hstep, heq⟩
  · rw [hsame] at hget'
    exact Or.inl ⟨row', hget', fun _ => rfl⟩
  · rw [hstep] at hget'
    rw [heq]
    cases hget : w.store.sessions.get id with
    | none =>
      obtain ⟨rfl, hexec⟩ := origin_exec hget' hget
      rw [hexec]
      exact Or.inr (Or.inr rfl)
    | some row =>
      by_cases hrotate : ∃ item previous, sop = .rotate id item previous
      · obtain ⟨item, previous, rfl⟩ := hrotate
        rcases rotate_cases w.store.sessions id item previous with ⟨e, hexec⟩ | ⟨row₁, hget₁, -, -, hexec⟩
        · rw [hexec, hget] at hget'
          exact Or.inl ⟨row, rfl, fun key => congrArg key.of (Option.some.inj hget').symm⟩
        · rw [hexec, Table.get_update_some _ _ hget, if_pos (decide_eq_true rfl), Option.some.injEq] at hget'
          rw [hexec]
          refine Or.inr (Or.inl ⟨item, previous, rfl, fun key => ?_⟩)
          rw [← hget']
          cases key <;> rfl
      · exact Or.inl ⟨row, rfl, keys_exec (fun item previous h => hrotate ⟨item, previous, h⟩) hget hget'⟩

theorem rotate_ok {id : ℕ} {item : SessionRow} {previous : GoString}
    (heq : (⟨t, op, w.answer (Op.exec env) op i⟩ : Entry Ans) = ⟨t, .sessions (.rotate id item previous), .ok ()⟩) :
    ∃ row, w.store.sessions.get id = some row ∧ row.revokedAt = none ∧ row.refreshTokenHash = previous ∧
      (w.step (Op.exec env) t op i).store.sessions.get id = some (item.rotated row) := by
  obtain ⟨-, rfl, hans⟩ := Entry.mk.inj heq
  obtain ⟨hval, hstep⟩ := sessions_ok (eq_of_heq hans)
  rcases rotate_cases w.store.sessions id item previous with ⟨e, hexec⟩ | ⟨row, hget, hlive, hprevious, hexec⟩
  · rw [hexec] at hval
    cases hval
  · refine ⟨row, hget, hlive, hprevious, ?_⟩
    rw [hstep t, hexec, Table.get_update_some _ _ hget, if_pos (decide_eq_true rfl)]

end Steps

/-! ## What the calls keep -/

structure SessionInv (s : Store) (w : AuthWorld) : Prop where
  origin : ∀ id row (key : SessionKey), w.store.sessions.get id = some row → IssuedFor key s w.log id (key.of row)
  /-- A key is never issued for two sessions. -/
  single : ∀ key value sid sid', IssuedFor key s w.log sid value → IssuedFor key s w.log sid' value → sid = sid'
  /-- The key by which a session was rotated was its own. -/
  previous : ∀ t sid item previous earlier,
    (⟨t, .sessions (.rotate sid item previous), .ok ()⟩ : Entry Ans) :: earlier <:+ w.log →
    IssuedFor .refreshTokenHash s earlier sid previous
  /-- The keys that a session had before it was rotated are keys of no session. -/
  retired : ∀ e earlier sid (key : SessionKey) value, e :: earlier <:+ w.log → Rotates sid e →
    IssuedFor key s earlier sid value → ∀ id row, w.store.sessions.get id = some row → key.of row ≠ value
  once : ∀ t t' sid sid' item item' previous, (⟨t, .sessions (.rotate sid item previous), .ok ()⟩ : Entry Ans) ∈ w.log →
    (⟨t', .sessions (.rotate sid' item' previous), .ok ()⟩ : Entry Ans) ∈ w.log → t = t'

theorem sessionInv_init {s : Store} (h : UniqueKeys s.sessions) : SessionInv s ⟨s, []⟩ where
  origin := fun _ row _ hget => Or.inl ⟨row, hget, rfl⟩
  single := by
    rintro key value sid sid' (⟨row, hget, rfl⟩ | ⟨e, he, -⟩) (⟨row', hget', heq⟩ | ⟨e', he', -⟩)
    · exact h key sid sid' row row' hget hget' heq.symm
    · exact absurd he' List.not_mem_nil
    · exact absurd he List.not_mem_nil
    · exact absurd he List.not_mem_nil
  previous := fun _ _ _ _ _ hsuffix => absurd (List.suffix_nil.mp hsuffix) (List.cons_ne_nil _ _)
  retired := fun _ _ _ _ _ hsuffix => absurd (List.suffix_nil.mp hsuffix) (List.cons_ne_nil _ _)
  once := fun _ _ _ _ _ _ _ he => absurd he List.not_mem_nil

section Inv
variable {s : Store} {w : AuthWorld} {t : ℕ} {op : Op} {i : Chance}

variable {item : SessionRow}

theorem DrawsNew.stores (h : DrawsNew s t op i w) {sid : ℕ} {answer : Ans op}
    (hstores : Stores sid item ⟨t, op, answer⟩) (key : SessionKey) (sid' : ℕ) :
    ¬ IssuedFor key s w.log sid' (key.of item) := by
  rw [Stores.eq_def] at hstores
  split at hstores
  · rename_i heq
    obtain ⟨-, rfl, -⟩ := Entry.mk.inj heq
    obtain ⟨rfl, -⟩ := hstores
    exact h key sid'
  · rename_i heq
    obtain ⟨-, rfl, -⟩ := Entry.mk.inj heq
    obtain ⟨-, rfl, -⟩ := hstores
    exact h key sid'
  · exact hstores.elim

theorem issuedFor_cons {e : Entry Ans} {key : SessionKey} {sid : ℕ} {value : GoString}
    {log : History} (h : IssuedFor key s (e :: log) sid value) :
    IssuedFor key s log sid value ∨ ∃ item, Stores sid item e ∧ key.of item = value := by
  rcases h with hinit | ⟨e', he', item, hstores⟩
  · exact Or.inl (Or.inl hinit)
  · rcases List.mem_cons.mp he' with rfl | he'
    · exact Or.inr ⟨item, hstores⟩
    · exact Or.inl (Or.inr ⟨e', he', item, hstores⟩)

theorem stores_unique {e : Entry Ans} {sid sid' : ℕ} {item' : SessionRow} (h : Stores sid item e)
    (h' : Stores sid' item' e) : sid = sid' := by
  rw [Stores.eq_def] at h
  split at h
  · obtain ⟨-, rfl⟩ := h
    obtain ⟨-, h'⟩ := h'
    exact Except.ok.inj h'
  · obtain ⟨rfl, -⟩ := h
    exact h'.1
  · exact h.elim

theorem SessionInv.exchanged (h : SessionInv s w) {sid : ℕ} {previous : GoString} {u : ℕ}
    (hmem : (⟨u, .sessions (.rotate sid item previous), .ok ()⟩ : Entry Ans) ∈ w.log) (id : ℕ) (row : SessionRow)
    (hget : w.store.sessions.get id = some row) : row.refreshTokenHash ≠ previous := by
  obtain ⟨later, earlier, hlog⟩ := List.append_of_mem hmem
  have hsuffix : (⟨u, .sessions (.rotate sid item previous), .ok ()⟩ : Entry Ans) ::
    earlier <:+ w.log := ⟨later, hlog.symm⟩
  exact h.retired _ earlier sid .refreshTokenHash previous hsuffix ⟨u, item, previous, rfl⟩
    (h.previous u sid item previous earlier hsuffix) id row hget

variable [UnicodeTables] {env : Env}

theorem retired_step (h : SessionInv s w) (hgiven : DrawsNew s t op i w) {e : Entry Ans}
    {earlier : History} {sid : ℕ} {key : SessionKey} {value : GoString}
    (hsuffix : e :: earlier <:+ (w.step (Op.exec env) t op i).log) (hrotates : Rotates sid e)
    (hissued : IssuedFor key s earlier sid value) {id : ℕ} {row' : SessionRow}
    (hget' : (w.step (Op.exec env) t op i).store.sessions.get id = some row') :
    key.of row' ≠ value := by
  intro hkey
  have hsub : earlier ⊆ w.log := by
    rcases List.suffix_cons_iff.mp hsuffix with heq | hsuffix
    · rw [(List.cons.inj heq).2]
      exact fun _ he => he
    · exact fun _ he => hsuffix.subset (List.mem_cons_of_mem _ he)
  have hissued' := hissued.mono hsub
  have hnew : ∀ sid' item, Stores sid' item ⟨t, op, w.answer (Op.exec env) op i⟩ → key.of item ≠ value := by
    intro sid' item hstores heq
    exact hgiven.stores hstores key sid (heq.symm ▸ hissued')
  rcases session_origin hget' with ⟨row, hget, hsame⟩ | ⟨item, previous, heq, hitem⟩ | heq
  · rw [hsame] at hkey
    rcases List.suffix_cons_iff.mp hsuffix with heq | hsuffix
    · -- the row of the key is the one that is rotated now, and has a new key
      obtain ⟨rfl, rfl⟩ := List.cons.inj heq
      obtain ⟨u, item, previous, hrotate⟩ := hrotates
      obtain ⟨rfl, -⟩ := Entry.mk.inj hrotate
      have hid : id = sid := h.single key value id sid (hkey ▸ h.origin id row key hget) hissued
      subst hid
      obtain ⟨row₁, hget₁, -, -, hget₁'⟩ := rotate_ok hrotate
      rw [hget', Option.some.injEq] at hget₁'
      refine hnew id item (hrotate ▸ ⟨rfl, rfl, rfl⟩) ?_
      rw [← hkey, ← hsame, hget₁']
      cases key <;> rfl
    · exact h.retired e earlier sid key value hsuffix hrotates hissued id row hget hkey
  · rw [hitem] at hkey
    exact hnew id item (heq ▸ ⟨rfl, rfl, rfl⟩) hkey
  · exact hnew id row' (heq ▸ ⟨rfl, rfl⟩) hkey

theorem SessionInv.step (h : SessionInv s w) (hgiven : DrawsNew s t op i w) :
    SessionInv s (w.step (Op.exec env) t op i) where
  origin := by
    intro id row' key hget'
    rcases session_origin hget' with ⟨row, hget, hsame⟩ | ⟨item, previous, heq, hitem⟩ | heq
    · rw [hsame]
      exact (h.origin id row key hget).mono fun _ he => List.mem_cons_of_mem _ he
    · refine Or.inr ⟨_, List.mem_cons_self, item, ?_, (hitem key).symm⟩
      rw [heq]
      exact ⟨rfl, rfl, rfl⟩
    · refine Or.inr ⟨_, List.mem_cons_self, row', ?_, rfl⟩
      rw [heq]
      exact ⟨rfl, rfl⟩
  single := by
    intro key value sid sid' hissued hissued'
    rcases issuedFor_cons hissued with hold | ⟨item, hstores, rfl⟩
    · rcases issuedFor_cons hissued' with hold' | ⟨item', hstores', rfl⟩
      · exact h.single key value sid sid' hold hold'
      · exact absurd hold (hgiven.stores hstores' key sid)
    · rcases issuedFor_cons hissued' with hold' | ⟨item', hstores', -⟩
      · exact absurd hold' (hgiven.stores hstores key sid')
      · exact stores_unique hstores hstores'
  previous := by
    intro u sid item previous earlier hsuffix
    rcases List.suffix_cons_iff.mp hsuffix with heq | hsuffix
    · obtain ⟨hentry, rfl⟩ := List.cons.inj heq
      obtain ⟨rfl, -⟩ := Entry.mk.inj hentry
      obtain ⟨row, hget, -, hprevious, -⟩ := rotate_ok hentry.symm
      rw [← hprevious]
      exact h.origin sid row .refreshTokenHash hget
    · exact h.previous u sid item previous earlier hsuffix
  retired := fun _ _ _ _ _ hsuffix hrotates hissued _ _ hget' => retired_step h hgiven hsuffix hrotates hissued hget'
  once := by
    have hnew : ∀ {u sid sid' item item' previous},
        (⟨u, .sessions (.rotate sid item previous), .ok ()⟩ : Entry Ans) ∈ w.log →
        (⟨t, op, w.answer (Op.exec env) op i⟩ : Entry Ans) ≠ ⟨t, .sessions (.rotate sid' item' previous), .ok ()⟩ := by
      intro u sid sid' item item' previous hmem heq
      obtain ⟨row, hget, -, hprevious, -⟩ := rotate_ok heq
      exact h.exchanged hmem sid' row hget hprevious
    intro u u' sid sid' item item' previous hmem hmem'
    rcases List.mem_cons.mp hmem with heq | hold
    · obtain ⟨rfl, -⟩ := Entry.mk.inj heq
      rcases List.mem_cons.mp hmem' with heq' | hold'
      · exact (Entry.mk.inj heq').1.symm
      · exact absurd heq.symm (hnew hold')
    · rcases List.mem_cons.mp hmem' with heq' | hold'
      · obtain ⟨rfl, -⟩ := Entry.mk.inj heq'
        exact absurd heq'.symm (hnew hold)
      · exact h.once u u' sid sid' item item' previous hold hold'

end Inv

/-! ## Requests -/

abbrev AuthConfig := Config Ans Store ServiceRequest (Except CallError Reply)

def SucceededWith (c : AuthConfig) (t : ℕ) (request : ServiceRequest) : Prop :=
  ∃ task reply, c.task t = some task ∧ task.request = request ∧ task.rest = .ret (.ok reply)

/-- The request is the revocation of the session, among those of the store in which it is made. -/
def Revokes (s : Store) (sid : ℕ) : ServiceRequest → Prop
  | .revokeSession _ sessionID => sessionID = sid
  | .revokeAllUserSessions userID => ∃ row, s.sessions.get sid = some row ∧ row.userID = userID
  | .revokeOtherUserSessions userID keepSessionID =>
    (∃ row, s.sessions.get sid = some row ∧ row.userID = userID) ∧ (keepSessionID = 0 ∨ sid ≠ keepSessionID)
  | _ => False

def BelongsTo (env : Env) (s : Store) (log : History) (sid : ℕ) : ServiceRequest → Prop
  | .authenticateAccessToken claims => claims.sessionID = sid ∧ IssuedFor .tokenID s log sid claims.tokenID
  | .authenticateHostSessionToken claims => claims.sessionID = sid
  | .refreshSession refreshToken _ => IssuedFor .refreshTokenHash s log sid (env.hashToken refreshToken)
  | _ => False

theorem presents_live {env : Env} {t sid : ℕ} {request : ServiceRequest} {reply : Reply}
    {own : History} {s' : Store} {log : History} (hbelongs : BelongsTo env s' log sid request)
    (hsid : sid ≠ 0) (hended : Ended env t own request reply) :
    ∃ e ∈ own, ∃ id row, row.revokedAt = none ∧
      ((∃ hash, e = ⟨t, .sessions (.getByRefreshHash hash), .ok (id, row)⟩ ∧
        IssuedFor .refreshTokenHash s' log sid hash) ∨
       (∃ tokenID, e = ⟨t, .sessions (.getByTokenID tokenID), .ok (id, row)⟩ ∧
         IssuedFor .tokenID s' log sid tokenID) ∨
       e = ⟨t, .sessions (.getByID sid), .ok (id, row)⟩) := by
  cases request with
  | authenticateAccessToken claims =>
    obtain ⟨rfl, hissued⟩ := hbelongs
    obtain ⟨id, row, hmem, hlive⟩ := hended.resolve_left hsid
    exact ⟨_, hmem, id, row, hlive, Or.inr (Or.inl ⟨_, rfl, hissued⟩)⟩
  | authenticateHostSessionToken claims =>
    obtain rfl : claims.sessionID = sid := hbelongs
    obtain ⟨id, row, hmem, hlive⟩ := hended
    exact ⟨_, hmem, id, row, hlive, Or.inr (Or.inr rfl)⟩
  | refreshSession refreshToken metadata =>
    obtain ⟨id, session, item, userID, user, hmem, hlive, -⟩ := hended
    exact ⟨_, hmem, id, session, hlive, Or.inl ⟨_, rfl, hbelongs⟩⟩
  | _ => exact hbelongs.elim

/-! ## Statements of a run -/

section Runs
variable [UnicodeTables] {env : Env} {w : AuthWorld} {t : ℕ} {op : Op} {i : Chance} {id : ℕ}
  {row : SessionRow}

variable {e : Entry Ans}

theorem getByKey_truth (he : e = ⟨t, op, w.answer (Op.exec env) op i⟩) :
    (∀ hash, e = ⟨t, .sessions (.getByRefreshHash hash), .ok (id, row)⟩ →
      w.store.sessions.get id = some row ∧ row.refreshTokenHash = hash) ∧
    (∀ tokenID, e = ⟨t, .sessions (.getByTokenID tokenID), .ok (id, row)⟩ →
      w.store.sessions.get id = some row ∧ row.tokenID = tokenID) ∧
    ∀ sid, e = ⟨t, .sessions (.getByID sid), .ok (id, row)⟩ → w.store.sessions.get id = some row ∧ id = sid := by
  refine ⟨fun hash heq => ?_, fun tokenID heq => ?_, fun sid heq => ?_⟩ <;>
    obtain ⟨-, hop, hans⟩ := Entry.mk.inj (heq.symm.trans he) <;> subst hop <;>
    obtain ⟨hval, -⟩ := sessions_ok (eq_of_heq hans).symm
  · obtain ⟨hget, hkey⟩ := Table.first_some (orNotFound_ok hval)
    exact ⟨hget, of_decide_eq_true hkey⟩
  · obtain ⟨hget, hkey⟩ := Table.first_some (orNotFound_ok hval)
    exact ⟨hget, of_decide_eq_true hkey⟩
  · obtain ⟨row', hget, hpair⟩ := Option.map_eq_some_iff.mp (orNotFound_ok hval)
    obtain ⟨rfl, rfl⟩ := Prod.mk.inj hpair
    exact ⟨hget, rfl⟩

theorem revokes_step {sop : SessionOp} {sid : ℕ} (hget : w.store.sessions.get sid = some row)
    (hrevokes : sop.Revokes sid row) {v : sop.Val}
    (hok : w.answer (Op.exec env) (.sessions sop) i = (.ok v : Except StoreError sop.Val)) :
    ∃ row', (w.step (Op.exec env) t (.sessions sop) i).store.sessions.get sid = some row' ∧
      row'.revokedAt ≠ none := by
  obtain ⟨hval, hstep⟩ := sessions_ok hok
  rw [hstep t]
  exact revokes_exec hget hrevokes hval

theorem revoke_found {sid : ℕ} {time : Instant}
    (hok : w.answer (Op.exec env) (.sessions (.revoke sid time)) i = (.ok () : Except StoreError Unit)) :
    ∃ row, w.store.sessions.get sid = some row := by
  obtain ⟨hval, -⟩ := sessions_ok hok
  rcases updateSession_cases w.store.sessions sid SessionRow.isLive (SessionRow.revoke time) with
    hexec | ⟨row, hget, -, -⟩
  · have herror : (updateSession w.store.sessions sid SessionRow.isLive (SessionRow.revoke time)).1 = .ok () := hval
    rw [hexec] at herror
    cases herror
  · exact ⟨row, hget⟩

variable {s : Store} {c c' : AuthConfig} {events later : List (Event ServiceRequest Chance)}

theorem sessionsLater_run (hrun : (service env).run c events = some c') :
    SessionsLater c.world.store.sessions c'.world.store.sessions :=
  run_since (fun w w' => SessionsLater w.store.sessions w'.store.sessions) (fun w => .refl w.store.sessions)
    (fun _ _ _ => SessionsLater.trans)
    (fun t op i w => sessionsLater_step w t op i) hrun

theorem statement_of_call (hrun : (service env).run (Config.init s) events = some c)
    {task : Task Ans Store ServiceRequest (Except CallError Reply)} (htask : c.task t = some task)
    (he : e ∈ c.world.own t) :
    ∃ (w : AuthWorld) (i : Chance), SessionsLater task.start.store.sessions w.store.sessions ∧
      e = ⟨t, e.op, w.answer (Op.exec env) e.op i⟩ ∧
      SessionsLater (w.step (Op.exec env) t e.op i).store.sessions c.world.store.sessions := by
  obtain ⟨hmem, rfl⟩ := mem_own.mp he
  obtain ⟨before, after, c₀, rfl, hbefore, hafter, hnone, hstart⟩ := start_moment hrun rfl htask
  have hnew : e ∉ c₀.world.log := fun h => log_started hbefore e h hnone
  obtain ⟨before', after', c₁, c₂, i, -, hrun₁, hrun₂, hworld, hans⟩ := statement_moment hafter hmem hnew
  refine ⟨c₁.world, i, ?_, hans, ?_⟩
  · rw [hstart]
    exact sessionsLater_run hrun₁
  · have hlater := sessionsLater_run hrun₂
    rw [hworld] at hlater
    exact hlater

theorem revoked_of_ended (hrun : (service env).run (Config.init s) events = some c)
    {task : Task Ans Store ServiceRequest (Except CallError Reply)} (htask : c.task t = some task)
    {reply : Reply} (hended : Ended env t (c.world.own t) task.request reply) {sid : ℕ}
    (hrevokes : Revokes task.start.store sid task.request) :
    ∃ row, c.world.store.sessions.get sid = some row ∧ row.revokedAt ≠ none := by
  -- the statement revokes the row, and the row stays revoked
  have hentry : ∀ {sop : SessionOp} {v : sop.Val}, (⟨t, .sessions sop, .ok v⟩ : Entry Ans) ∈ c.world.own t →
      (∀ w : AuthWorld, SessionsLater task.start.store.sessions w.store.sessions →
        (∃ i, w.answer (Op.exec env) (.sessions sop) i = (.ok v : Except StoreError sop.Val)) →
        ∃ row, w.store.sessions.get sid = some row ∧ sop.Revokes sid row) →
      ∃ row, c.world.store.sessions.get sid = some row ∧ row.revokedAt ≠ none := by
    intro sop v hmem hfound
    obtain ⟨w, i, hsince, hans, hafter⟩ := statement_of_call hrun htask hmem
    have hok : w.answer (Op.exec env) (.sessions sop) i = (.ok v : Except StoreError sop.Val) :=
      (eq_of_heq (Entry.mk.inj hans).2.2).symm
    obtain ⟨row, hget, hrevokes⟩ := hfound w hsince ⟨i, hok⟩
    obtain ⟨row', hget', hrevoked⟩ := revokes_step hget hrevokes hok
    obtain ⟨row'', hget'', hlater⟩ := hafter sid row' hget'
    refine ⟨row'', hget'', ?_⟩
    rw [hlater.revoked hrevoked]
    exact hrevoked
  have hpersists : ∀ {userID : ℕ}
      {w : AuthWorld}, (∃ row, task.start.store.sessions.get sid = some row ∧ row.userID = userID) →
      SessionsLater task.start.store.sessions w.store.sessions →
      ∃ row, w.store.sessions.get sid = some row ∧ row.userID = userID := by
    rintro userID w ⟨row, hget, rfl⟩ hsince
    obtain ⟨row', hget', hlater⟩ := hsince sid row hget
    exact ⟨row', hget', hlater.userID⟩
  cases hrequest : task.request with
  | revokeSession userID sessionID =>
    rw [hrequest] at hended hrevokes
    obtain rfl : sessionID = sid := hrevokes
    obtain ⟨now, hmem⟩ := hended
    refine hentry hmem fun w _ ⟨i, hok⟩ => ?_
    obtain ⟨row, hget⟩ := revoke_found hok
    exact ⟨row, hget, rfl⟩
  | revokeAllUserSessions userID =>
    rw [hrequest] at hended hrevokes
    obtain ⟨now, hmem⟩ := hended
    exact hentry hmem fun w hsince _ => hpersists hrevokes hsince
  | revokeOtherUserSessions userID keepSessionID =>
    rw [hrequest] at hended hrevokes
    obtain ⟨now, hmem⟩ := hended
    refine hentry hmem fun w hsince _ => ?_
    obtain ⟨row, hget, huser⟩ := hpersists hrevokes.1 hsince
    exact ⟨row, hget, huser, hrevokes.2⟩
  | _ =>
    rw [hrequest] at hrevokes
    exact hrevokes.elim

theorem statement_later (hunique : UniqueKeys s.sessions)
    (hcond : (service env).Along (Allows (fun _ => True) (DrawsNew s)) (Config.init s) (events ++ later))
    (hrun : (service env).run (Config.init s) events = some c) (hlater : (service env).run c later = some c')
    (hnone : c.task t = none) (he : e ∈ c'.world.own t) :
    ∃ (w : AuthWorld) (i : Chance), SessionInv s w ∧ SessionsLater c.world.store.sessions w.store.sessions ∧
      c.world.log <:+ w.log ∧ e = ⟨t, e.op, w.answer (Op.exec env) e.op i⟩ := by
  obtain ⟨hmem, rfl⟩ := mem_own.mp he
  have hnew : e ∉ c.world.log := fun h => log_started hrun e h hnone
  obtain ⟨before, after, c₁, c₂, i, rfl, hrun₁, -, -, hans⟩ := statement_moment hlater hmem hnew
  rw [← List.append_assoc] at hcond
  have hall := run_append_of hrun hrun₁
  have hinv : SessionInv s c₁.world := along_run (fun _ _ _ _ h hgiven => h.step hgiven) (sessionInv_init hunique)
    (along_append hcond hall).1 hall
  refine ⟨c₁.world, i, hinv, sessionsLater_run hrun₁, ?_, hans⟩
  exact run_since (fun w w' => w.log <:+ w'.log) (fun _ => List.suffix_refl _) (fun _ _ _ h h' => h.trans h')
    (fun _ _ _ _ => List.suffix_cons _ _) hrun₁

theorem rotates_pos (hrun : (service env).run (Config.init s) events = some c)
    (he : e ∈ c.world.log) {sid : ℕ} (hrotates : Rotates sid e) : sid ≠ 0 := by
  obtain ⟨u, item, previous, rfl⟩ := hrotates
  obtain ⟨before, after, c₁, c₂, i, -, -, -, -, hans⟩ := statement_moment hrun he List.not_mem_nil
  obtain ⟨row, hget, -⟩ := rotate_ok hans.symm
  exact Nat.pos_iff_ne_zero.mp (Table.get_lt hget).1

theorem refreshed (hrun : (service env).run (Config.init s) events = some c)
    {refreshToken : GoString} {metadata : RequestMetadata} {reply : Reply}
    (hended : Ended env t (c.world.own t) (.refreshSession refreshToken metadata) reply) :
    ∃ sid item, (⟨t, .sessions (.rotate sid item (env.hashToken refreshToken)), .ok ()⟩ : Entry Ans)
      ∈ c.world.log := by
  obtain ⟨sid, session, item, userID, user, hfound, -, hrotate, -⟩ := hended
  obtain ⟨before, after, c₁, c₂, i, -, -, -, -, hans⟩ := statement_moment hrun (mem_own.mp hfound).1 List.not_mem_nil
  obtain ⟨-, hhash⟩ := (getByKey_truth hans).1 _ rfl
  rw [hhash] at hrotate
  exact ⟨sid, item, (mem_own.mp hrotate).1⟩

/-- For any schedule of any requests, from sessions with unique keys and with random values that are
new when they are stored. A refresh token is exchanged at most once. A session that is revoked stays
as it is, but for the dismissal of the bootstrap. An access token that was issued for a session
before it was rotated is not accepted by a call that starts later. And no call succeeds that
presents a token of a session and starts after a revocation of the session has returned. -/
theorem sessionStateMachine (env : Env) (s : Store)
    (events later : List (Event ServiceRequest Chance)) (c c' : AuthConfig)
    (hunique : UniqueKeys s.sessions)
    (hcond : (service env).Along (Allows (fun _ => True) (DrawsNew s)) (Config.init s)
      (events ++ later))
    (hrun : (service env).run (Config.init s) events = some c)
    (hlater : (service env).run c later = some c') :
    (∀ t t' refreshToken metadata metadata',
      SucceededWith c t (.refreshSession refreshToken metadata) →
      SucceededWith c t' (.refreshSession refreshToken metadata') → t = t') ∧
    (∀ id row, c.world.store.sessions.get id = some row → row.revokedAt ≠ none →
      ∃ row', c'.world.store.sessions.get id = some row' ∧
        row' = { row with bootstrapDismissed := row'.bootstrapDismissed }) ∧
    (∀ e earlier claims u, e :: earlier <:+ c.world.log → Rotates claims.sessionID e →
      IssuedFor .tokenID s earlier claims.sessionID claims.tokenID → c.task u = none →
      ¬ SucceededWith c' u (.authenticateAccessToken claims)) ∧
    ∀ t task sid u request, c.task t = some task → SucceededWith c t task.request →
      Revokes task.start.store sid task.request →
      c.task u = none → BelongsTo env s c.world.log sid request → ¬ SucceededWith c' u request := by
  have hobeys : ∀ t request, True → ((service env).prog t request).Obeys t (Law env t)
    (fun own => Outcome env t own request) [] :=
    fun t request _ => callOf_obeys request
  have hkeeps : Keeps (service env).exec (fun t => Law env t) (DrawsNew s) (SessionInv s) :=
    fun t op i w hinv _ hgiven => hinv.step hgiven
  have hended : ∀ {events c}, (service env).Along (Allows (fun _ => True) (DrawsNew s)) (Config.init s) events →
      (service env).run (Config.init s) events = some c → ∀ {t request}, SucceededWith c t request →
      ∃ reply, Ended env t (c.world.own t) request reply := by
    rintro events c hcond hrun t request ⟨task, reply, htask, rfl, hret⟩
    obtain ⟨-, hpost⟩ := lawful_run (service env) hobeys hkeeps (sessionInv_init hunique) hcond hrun
    exact ⟨reply, (hpost t task _ htask hret reply rfl).2.2⟩
  obtain ⟨hcond₁, -⟩ := along_append hcond hrun
  have hrun' := run_append_of hrun hlater
  refine ⟨?_, ?_, ?_, ?_⟩
  · intro t t' refreshToken metadata metadata' hsucceeded hsucceeded'
    obtain ⟨hinv, -⟩ := lawful_run (service env) hobeys hkeeps (sessionInv_init hunique) hcond₁ hrun
    obtain ⟨reply, hend⟩ := hended hcond₁ hrun hsucceeded
    obtain ⟨reply', hend'⟩ := hended hcond₁ hrun hsucceeded'
    obtain ⟨sid, item, hmem⟩ := refreshed hrun hend
    obtain ⟨sid', item', hmem'⟩ := refreshed hrun hend'
    exact hinv.once t t' sid sid' item item' _ hmem hmem'
  · intro id row hget hrevoked
    obtain ⟨row', hget', hlater'⟩ := sessionsLater_run hlater id row hget
    exact ⟨row', hget', hlater'.revoked hrevoked⟩
  · intro e earlier claims u hsuffix hrotates hissued hnone hsucceeded
    have hpos := rotates_pos hrun (hsuffix.subset List.mem_cons_self) hrotates
    obtain ⟨reply, hend⟩ := hended hcond hrun' hsucceeded
    obtain ⟨id, row, hmem, -⟩ := hend.resolve_left hpos
    obtain ⟨w, i, hinv, -, hlog, hans⟩ := statement_later hunique hcond hrun hlater hnone hmem
    obtain ⟨hget, htoken⟩ := (getByKey_truth hans).2.1 _ rfl
    exact hinv.retired e earlier claims.sessionID .tokenID claims.tokenID (hsuffix.trans hlog)
      hrotates hissued id row hget htoken
  · intro t task sid u request htask hsucceeded hrevokes hnone hbelongs hsucceeded'
    obtain ⟨reply, hend⟩ := hended hcond₁ hrun hsucceeded
    obtain ⟨revoked, hgetRevoked, hrevoked⟩ := revoked_of_ended hrun htask hend hrevokes
    have hpos : sid ≠ 0 := Nat.pos_iff_ne_zero.mp (Table.get_lt hgetRevoked).1
    obtain ⟨reply', hend'⟩ := hended hcond hrun' hsucceeded'
    obtain ⟨e, he, id, row, hlive, hread⟩ := presents_live hbelongs hpos hend'
    obtain ⟨w, i, hinv, hsince, hlog, hans⟩ := statement_later hunique hcond hrun hlater hnone he
    obtain ⟨row', hget', hlater'⟩ := hsince sid revoked hgetRevoked
    have hrevoked' : row'.revokedAt ≠ none := by
      rw [hlater'.revoked hrevoked]
      exact hrevoked
    -- the row that the call found is the row of the session
    suffices hfound : w.store.sessions.get id = some row ∧ id = sid by
      obtain ⟨hget, rfl⟩ := hfound
      rw [hget', Option.some.injEq] at hget
      exact hrevoked' (hget ▸ hlive)
    rcases hread with ⟨hash, heq, hissued⟩ | ⟨tokenID, heq, hissued⟩ | heq
    · obtain ⟨hget, rfl⟩ := (getByKey_truth hans).1 hash heq
      exact ⟨hget, hinv.single .refreshTokenHash _
        id sid (hinv.origin id row .refreshTokenHash hget) (hissued.mono hlog.subset)⟩
    · obtain ⟨hget, rfl⟩ := (getByKey_truth hans).2.1 tokenID heq
      exact ⟨hget, hinv.single .tokenID _ id sid (hinv.origin id row .tokenID hget) (hissued.mono hlog.subset)⟩
    · exact (getByKey_truth hans).2.2 sid heq

end Runs

/-- A session is stored and refreshed, and then the sessions of its user are revoked. -/
def sessionRevoked : List (Event ServiceRequest Chance) :=
  .start 0 (.createSession 1 sampleMetadata) :: steps 0 2 ++
    .start 1 (.refreshSession [0, 1] sampleMetadata) :: steps 1 4 ++
    .start 2 (.revokeAllUserSessions 1) :: steps 2 2

def sessionRefreshed : List (Event ServiceRequest Chance) :=
  .start 3 (.refreshSession [1, 1] sampleMetadata) :: steps 3 2

theorem drawsNew_sample {log : History} {item : SessionRow}
    (h : ∀ e ∈ log, ∀ sid item', Stores sid item' e → item'.tokenID ≠ item.tokenID ∧
      item'.refreshTokenHash ≠ item.refreshTokenHash)
    (key : SessionKey) (sid : ℕ) :
    ¬ IssuedFor key (sampleStore sampleUser .empty) log sid (key.of item) := by
  rintro (⟨row, hget, -⟩ | ⟨e, he, item', hstores, heq⟩)
  · cases hget
  · obtain ⟨htoken, hhash⟩ := h e he sid item' hstores
    cases key with
    | tokenID => exact htoken heq
    | refreshTokenHash => exact hhash heq

theorem sessionStateMachine_revoked :
    ∃ c c', (@service asciiTables sampleEnv).run (Config.init (sampleStore sampleUser .empty)) sessionRevoked = some c ∧
      (@service asciiTables sampleEnv).run c sessionRefreshed = some c' ∧
      SucceededWith c 1 (.refreshSession [0, 1] sampleMetadata) ∧ SucceededWith c 2 (.revokeAllUserSessions 1) ∧
      ¬ SucceededWith c' 3 (.refreshSession [1, 1] sampleMetadata) := by
  refine ⟨_, _, rfl, rfl, ⟨_, _, rfl, rfl, rfl⟩, ⟨_, _, rfl, rfl, rfl⟩, ?_⟩
  refine (@sessionStateMachine asciiTables sampleEnv (sampleStore sampleUser .empty) sessionRevoked sessionRefreshed _ _
    ?_ ?_ rfl rfl).2.2.2 2 _ 1 3 _ rfl ⟨_, _, rfl, rfl, rfl⟩ ⟨_, rfl, rfl⟩ rfl ?_
  · intro key id id' row row' hget
    cases hget
  · iterate 2 refine along_cons trivial rfl ?_
    refine along_cons ?_ rfl ?_
    rotate_left
    iterate 4 refine along_cons trivial rfl ?_
    refine along_cons ?_ rfl ?_
    rotate_left
    iterate 6 refine along_cons trivial rfl ?_
    trivial
    · exact drawsNew_sample (List.forall_mem_singleton.mpr fun _ _ h => h.elim)
    · refine drawsNew_sample
        (List.forall_mem_cons.mpr ⟨fun _ _ h => h.elim,
        List.forall_mem_cons.mpr ⟨fun _ _ h => h.elim,
        List.forall_mem_cons.mpr ⟨fun _ _ h => h.elim, List.forall_mem_cons.mpr ⟨fun _ _ h => ?_,
          List.forall_mem_singleton.mpr fun _ _ h => h.elim⟩⟩⟩⟩)
      obtain ⟨rfl, -⟩ := h
      exact ⟨by decide +kernel, by decide +kernel⟩
  · exact Or.inr ⟨_, List.mem_of_getElem? (i := 2) rfl, _, ⟨rfl, rfl, rfl⟩, rfl⟩

end Portlyn.Auth
