import Portlyn.Auth.Calls
import Portlyn.Auth.Passkeys

/-! # Passkey ceremonies are bound and one-time

The entry of a ceremony is in one place at a time: in the shared store, in the map of one process,
or with the call that has taken it (`Placed`). So at most one call accepts it, and what it accepts
is what the first half has stored.

There are two ways out. The second half of a registration does not compare the user of the request
with the user of the entry, and a `Save` that reports an error although it was carried out leaves
two copies. Where neither happens the ceremonies are bound (`ceremonies_bound`). -/
namespace Portlyn.Auth.Passkeys
open Go Domain Lib Lib.Interleave
set_option autoImplicit false

/-! ## Where an entry is -/

inductive Place
  | shared
  | process (process : ℕ)
  | call (t : ℕ)

inductive Stores (t : ℕ) (id : GoString) (entry : Ceremony) : PasskeyEntry → Place → Prop
  | save : Stores t id entry ⟨t, .save id entry, true⟩ .shared
  | storeLocal (process : ℕ) : Stores t id entry ⟨t, .storeLocal process id entry, ()⟩ (.process process)

inductive Takes (t : ℕ) (id : GoString) (entry : Ceremony) : PasskeyEntry → Place → Prop
  | pop : Takes t id entry ⟨t, .pop id, some entry⟩ .shared
  | popLocal (process : ℕ) (purpose : Purpose) (time : Instant) :
    Takes t id entry ⟨t, .popLocal process id purpose, some (entry, time)⟩ (.process process)

def Stored (log : List PasskeyEntry) (t : ℕ) (id : GoString) (entry : Ceremony) : Prop :=
  ∃ e ∈ log, ∃ place, Stores t id entry e place

def Took (log : List PasskeyEntry) (t : ℕ) (id : GoString) (entry : Ceremony) : Prop :=
  ∃ e ∈ log, ∃ place, Takes t id entry e place

def At (w : PasskeyWorld) (id : GoString) (entry : Ceremony) : Place → Prop
  | .shared => ∃ expiry, w.store.shared id = some (entry, expiry)
  | .process process => w.store.sessions process id = some entry
  | .call t => Took w.log t id entry

variable {entry : Ceremony} {e : PasskeyEntry} {place : Place}

theorem Stores.call_eq {t : ℕ} {id : GoString}
    (h : Stores t id entry e place) : e.call = t := by
  cases h <;> rfl

theorem Takes.call_eq {t : ℕ} {id : GoString}
    (h : Takes t id entry e place) : e.call = t := by
  cases h <;> rfl

theorem Stores.place_eq {t u : ℕ} {id id' : GoString} {entry' : Ceremony} {place' : Place}
    (h : Stores t id entry e place) (h' : Stores u id' entry' e place') : place = place' := by
  cases h <;> cases h' <;> rfl

theorem Stores.not_takes {t u : ℕ} {id id' : GoString} {entry' : Ceremony} {place' : Place}
    (h : Stores t id entry e place) : ¬ Takes u id' entry' e place' := by
  intro h'
  cases h <;> cases h'

theorem Stored.grows {log log' : List PasskeyEntry} {t : ℕ} {id : GoString}
    (h : Stored log t id entry) (hsub : ∀ e ∈ log, e ∈ log') : Stored log' t id entry := by
  obtain ⟨e, he, hstores⟩ := h
  exact ⟨e, hsub e he, hstores⟩

def CleanSave (_ : ℕ) : PasskeyOp → Luck → PasskeyWorld → Prop
  | .save _ _, i, _ => i.ok = false → i.applied = false
  | _, _, _ => True

section Steps
variable [UnicodeTables] {env : PasskeyEnv} {w : PasskeyWorld} {t : ℕ} {op : PasskeyOp} {i : Luck}
  {id : GoString}
  {entry : Ceremony}

theorem shared_step (hclean : CleanSave t op i w) (h : At (w.step (PasskeyOp.exec env) t op i) id entry .shared) :
    At w id entry .shared ∨ Stores t id entry ⟨t, op, w.answer (PasskeyOp.exec env) op i⟩ .shared := by
  obtain ⟨expiry, h⟩ := h
  cases op with
  | save id' entry' =>
    simp only [World.step, PasskeyOp.exec] at h
    by_cases hok : i.ok = true
    · rw [hok, Bool.true_or, if_pos rfl] at h
      by_cases hid : id = id'
      · subst hid
        dsimp only at h
        rw [Function.update_self, Option.some.injEq] at h
        obtain ⟨rfl, -⟩ := Prod.mk.inj h
        have hans : w.answer (PasskeyOp.exec env) (.save id entry') i = true := hok
        rw [hans]
        exact Or.inr .save
      · exact Or.inl ⟨expiry, (Function.update_of_ne hid _ _).symm.trans h⟩
    · rw [Bool.not_eq_true] at hok
      rw [hok, hclean hok, Bool.or_self] at h
      exact Or.inl ⟨expiry, h⟩
  | pop id' =>
    simp only [World.step, PasskeyOp.exec] at h
    split at h
    · by_cases hid : id = id'
      · subst hid
        exact absurd ((Function.update_self ..).symm.trans h) (Option.some_ne_none _).symm
      · exact Or.inl ⟨expiry, (Function.update_of_ne hid _ _).symm.trans h⟩
    · exact Or.inl ⟨expiry, h⟩
  | create item =>
    simp only [World.step, PasskeyOp.exec] at h
    split at h <;> exact Or.inl ⟨expiry, h⟩
  | _ => exact Or.inl ⟨expiry, h⟩

theorem process_step {process : ℕ}
    (h : At (w.step (PasskeyOp.exec env) t op i) id entry (.process process)) :
    At w id entry (.process process) ∨
      Stores t id entry ⟨t, op, w.answer (PasskeyOp.exec env) op i⟩ (.process process) := by
  cases op with
  | storeLocal process' id' entry' =>
    by_cases hprocess : process = process'
    · subst hprocess
      have h := (congrFun (Function.update_self ..) id).symm.trans h
      have h := (Option.filter_eq_some_iff.mp h).1
      by_cases hid : id = id'
      · subst hid
        rw [Function.update_self, Option.some.injEq] at h
        subst h
        exact Or.inr (.storeLocal process)
      · exact Or.inl ((Function.update_of_ne hid _ _).symm.trans h)
    · exact Or.inl ((congrFun (Function.update_of_ne hprocess _ _) id).symm.trans h)
  | popLocal process' id' purpose =>
    by_cases hprocess : process = process'
    · subst hprocess
      have h := (congrFun (Function.update_self ..) id).symm.trans h
      by_cases hid : id = id'
      · subst hid
        exact absurd ((Function.update_self ..).symm.trans h) (Option.some_ne_none _).symm
      · exact Or.inl ((Function.update_of_ne hid _ _).symm.trans h)
    · exact Or.inl ((congrFun (Function.update_of_ne hprocess _ _) id).symm.trans h)
  | save id' entry' =>
    simp only [World.step, PasskeyOp.exec] at h
    split at h <;> exact Or.inl h
  | pop id' =>
    simp only [World.step, PasskeyOp.exec] at h
    split at h <;> exact Or.inl h
  | create item =>
    simp only [World.step, PasskeyOp.exec] at h
    split at h <;> exact Or.inl h
  | _ => exact Or.inl h

theorem at_step {place : Place} (hclean : CleanSave t op i w)
    (h : At (w.step (PasskeyOp.exec env) t op i) id entry place) :
    At w id entry place ∨ Stores t id entry ⟨t, op, w.answer (PasskeyOp.exec env) op i⟩ place ∨
      place = .call t ∧ ∃ source, Takes t id entry ⟨t, op, w.answer (PasskeyOp.exec env) op i⟩
        source := by
  cases place with
  | shared => exact (shared_step hclean h).imp_right Or.inl
  | process process => exact (process_step h).imp_right Or.inl
  | call u =>
    obtain ⟨e, he, source, htakes⟩ := h
    rcases List.mem_cons.mp he with rfl | he
    · obtain rfl : t = u := htakes.call_eq
      exact Or.inr (Or.inr ⟨rfl, source, htakes⟩)
    · exact Or.inl ⟨e, he, source, htakes⟩

theorem takes_step {source : Place} (h : Takes t id entry ⟨t, op, w.answer (PasskeyOp.exec env) op i⟩ source) :
    At w id entry source ∧ ∀ entry', ¬ At (w.step (PasskeyOp.exec env) t op i) id entry' source := by
  generalize hans : w.answer (PasskeyOp.exec env) op i = ans at h
  cases h with
  | pop =>
    by_cases hok : i.ok = true
    · simp only [World.answer, PasskeyOp.exec, hok] at hans
      obtain ⟨⟨_, expiry⟩, hheld, rfl⟩ := Option.map_eq_some_iff.mp hans
      refine ⟨⟨expiry, (Option.filter_eq_some_iff.mp hheld).1⟩, fun entry' h => ?_⟩
      obtain ⟨expiry', h⟩ := h
      simp only [World.step, PasskeyOp.exec, hok] at h
      exact absurd ((Function.update_self ..).symm.trans h) (Option.some_ne_none _).symm
    · simp only [World.answer, PasskeyOp.exec, hok] at hans
      exact absurd hans.symm (Option.some_ne_none _)
  | popLocal process purpose time =>
    refine ⟨?_, fun entry' h => ?_⟩
    · simp only [World.answer, PasskeyOp.exec, PasskeyStore.takeLocal] at hans
      split at hans
      · cases hans
      · rename_i kept hkept
        split at hans
        · cases hans
        · cases hans
          exact hkept
    · have h := (congrFun (Function.update_self ..) id).symm.trans h
      exact absurd ((Function.update_self ..).symm.trans h) (Option.some_ne_none _).symm

end Steps

/-! ## What a call does -/

/-- `popSession` has given the entry to the call. -/
def Popped (own : List PasskeyEntry) (t : ℕ) (id : GoString) (purpose : Purpose) (entry : Ceremony) : Prop :=
  (⟨t, .pop id, some entry⟩ ∈ own ∧ entry.purpose = purpose ∧ ∃ time, ⟨t, .now, time⟩ ∈ own ∧ time ≤ entry.expires) ∨
    ∃ process time, ⟨t, .popLocal process id purpose, some (entry, time)⟩ ∈ own

theorem Popped.grows {own own' : List PasskeyEntry} {t : ℕ} {id : GoString} {purpose : Purpose}
    (h : Popped own t id purpose entry) (hsub : ∀ e ∈ own, e ∈ own') : Popped own' t id purpose entry := by
  rcases h with ⟨hpop, hpurpose, time, hnow, htime⟩ | ⟨process, time, hpop⟩
  · exact Or.inl ⟨hsub _ hpop, hpurpose, time, hsub _ hnow, htime⟩
  · exact Or.inr ⟨process, time, hsub _ hpop⟩

theorem Popped.took {own : List PasskeyEntry} {t : ℕ} {id : GoString} {purpose : Purpose}
    (h : Popped own t id purpose entry) : Took own t id entry := by
  rcases h with ⟨hpop, -⟩ | ⟨process, time, hpop⟩
  · exact ⟨_, hpop, _, .pop⟩
  · exact ⟨_, hpop, _, .popLocal process purpose time⟩

/-- An entry is stored once, under the id of the call, to expire five minutes after a time that the
call has read. -/
def MayStore (env : PasskeyEnv) (t : ℕ) (own : List PasskeyEntry) (id : GoString) (entry : Ceremony) : Prop :=
  id = env.sessionID t ∧ (∀ id' entry', ¬ Stored own t id' entry') ∧
    ∃ begun, ⟨t, .now, begun⟩ ∈ own ∧ entry.expires = begun + ceremonyTTL

def ceremonyLaw (env : PasskeyEnv) (t : ℕ) (own : List PasskeyEntry) : PasskeyOp → Prop
  | .save id entry => MayStore env t own id entry
  | .storeLocal _ id entry => MayStore env t own id entry
  | .create item => ∃ id entry, Popped own t id .register entry ∧ item.userID = entry.userID
  | _ => True

def Quiet : PasskeyOp → Prop
  | .save _ _ => False
  | .storeLocal _ _ _ => False
  | .create _ => False
  | _ => True

section Calls
variable {env : PasskeyEnv} {process t : ℕ} {own : List PasskeyEntry}

theorem not_stored_nil (id : GoString) (entry : Ceremony) : ¬ Stored [] t id entry := by
  rintro ⟨e, he, -⟩
  exact List.not_mem_nil he

theorem not_stored_cons (op : PasskeyOp) (ans : PasskeyAns op) (hop : Quiet op)
    (h : ∀ id entry, ¬ Stored own t id entry) (id : GoString) (entry : Ceremony) :
    ¬ Stored (⟨t, op, ans⟩ :: own) t id entry := by
  rintro ⟨e, he, place, hstores⟩
  rcases List.mem_cons.mp he with rfl | he
  · cases hstores with
    | save => exact hop
    | storeLocal => exact hop
  · exact h id entry ⟨e, he, place, hstores⟩

theorem not_stored_failed {id' : GoString} {entry' : Ceremony} (h : ∀ id entry, ¬ Stored own t id entry) (id : GoString)
    (entry : Ceremony) : ¬ Stored (⟨t, .save id' entry', false⟩ :: own) t id entry := by
  rintro ⟨e, he, place, hstores⟩
  rcases List.mem_cons.mp he with rfl | he
  · cases hstores
  · exact h id entry ⟨e, he, place, hstores⟩

theorem storeSession_obeys (userID : ℕ) (session : SessionData) (purpose : Purpose)
    (hown : ∀ id entry, ¬ Stored own t id entry) :
    (storeSession env process (env.sessionID t) userID session purpose).Obeys t (ceremonyLaw env t)
      (fun _ _ => True) own := by
  refine obeys_op trivial fun begun => ?_
  have hown' := not_stored_cons .now begun trivial hown
  refine obeys_ite (fun _ => ?_) fun _ => ?_
  · refine obeys_op ⟨rfl, hown', begun, List.mem_cons_self, rfl⟩ fun saved => ?_
    cases saved with
    | true => trivial
    | false =>
      refine ⟨⟨rfl, not_stored_failed hown', begun, ?_, rfl⟩, fun _ => trivial⟩
      exact List.mem_cons_of_mem _ List.mem_cons_self
  · exact ⟨⟨rfl, hown', begun, List.mem_cons_self, rfl⟩, fun _ => trivial⟩

theorem beginCeremony_obeys (userID : ℕ) (session : SessionData) (purpose : Purpose)
    (hown : ∀ id entry, ¬ Stored own t id entry) :
    (beginCeremony env process t userID session purpose).Obeys t (ceremonyLaw env t)
      (fun _ result => result.isOk) own := by
  refine obeys_bind ((storeSession_obeys userID session purpose hown).imp fun own' _ _ => ?_)
  exact obeys_op trivial fun now => rfl

def BeginEnds (t : ℕ) (own : List PasskeyEntry) (result : Except PasskeyError BeginResult) : Prop :=
  result.isOk ∨ ∀ id entry, ¬ Stored own t id entry

theorem beginRegistration_obeys (userID : ℕ) (hown : ∀ id entry, ¬ Stored own t id entry) :
    (beginRegistration env process t userID).Obeys t (ceremonyLaw env t) (BeginEnds t) own := by
  refine obeys_ite (fun _ => Or.inr hown) fun _ => ?_
  refine obeys_op trivial fun user => ?_
  have hown₁ := not_stored_cons (.getUser userID) user trivial hown
  obtain _ | user := user
  · exact Or.inr hown₁
  refine obeys_op trivial fun credentials => ?_
  have hown₂ := not_stored_cons (.listByUser userID) credentials trivial hown₁
  cases credentials with
  | error e => exact Or.inr hown₂
  | ok credentials => exact (beginCeremony_obeys _ _ _ hown₂).imp fun _ _ => Or.inl

theorem beginLogin_obeys (userID : ℕ) (hown : ∀ id entry, ¬ Stored own t id entry) :
    (beginLogin env process t userID).Obeys t (ceremonyLaw env t) (BeginEnds t) own := by
  refine obeys_ite (fun _ => Or.inr hown) fun _ => ?_
  refine obeys_op trivial fun user => ?_
  have hown₁ := not_stored_cons (.getUser userID) user trivial hown
  obtain _ | user := user
  · exact Or.inr hown₁
  refine obeys_op trivial fun credentials => ?_
  have hown₂ := not_stored_cons (.listByUser userID) credentials trivial hown₁
  obtain _ | credentials := credentials
  · exact Or.inr hown₂
  refine obeys_ite (fun _ => Or.inr hown₂) fun _ => ?_
  exact (beginCeremony_obeys _ _ _ hown₂).imp fun _ _ => Or.inl

theorem popSession_obeys (id : GoString) (purpose : Purpose) :
    (popSession env process id purpose).Obeys t (ceremonyLaw env t)
      (fun own' result => ∀ entry, result = some entry → Popped own' t id purpose entry) own := by
  have hlocal : ∀ own, (popSessionLocal process id purpose).Obeys t (ceremonyLaw env t)
      (fun own' result => ∀ entry, result = some entry → Popped own' t id purpose entry) own := by
    intro own
    refine obeys_op trivial fun taken => obeys_ret fun entry hentry => ?_
    obtain ⟨⟨_, time⟩, rfl, rfl⟩ := Option.map_eq_some_iff.mp hentry
    exact Or.inr ⟨process, time, List.mem_cons_self⟩
  refine obeys_ite (fun _ => ?_) fun _ => hlocal own
  refine obeys_op trivial fun popped => ?_
  cases popped with
  | none => exact hlocal _
  | some entry =>
    refine obeys_ite (fun _ => obeys_ret fun _ h => absurd h.symm (Option.some_ne_none _)) fun hpurpose => ?_
    refine obeys_op trivial fun now => ?_
    refine obeys_ite (fun _ => obeys_ret fun _ h => absurd h.symm (Option.some_ne_none _)) fun hexpires => ?_
    refine obeys_ret fun entry' hentry' => ?_
    obtain rfl := Option.some.inj hentry'
    refine Or.inl ⟨?_, of_not_not hpurpose, now, List.mem_cons_self, not_lt.mp hexpires⟩
    exact List.mem_cons_of_mem _ List.mem_cons_self

/-- A second half that does not say that there is no such session has been given the entry. -/
def FinishEnds {β : Type} (t : ℕ) (id : GoString) (purpose : Purpose) (own : List PasskeyEntry)
    (result : Except PasskeyError β) :
    Prop :=
  result ≠ .error unknownSession → ∃ entry, Popped own t id purpose entry

theorem finishRegistration_obeys (id label response : GoString) :
    (finishRegistration env process id label response).Obeys t (ceremonyLaw env t) (FinishEnds t id .register) own := by
  refine obeys_bind ((popSession_obeys id .register).imp fun own' result hresult => ?_)
  cases result with
  | none => exact obeys_ret fun h => absurd rfl h
  | some entry =>
    have hpopped := hresult entry rfl
    -- from here on the entry is the call's, whatever it still does
    suffices hrest : Prog.Obeys t (ceremonyLaw env t) (fun _ _ => True) _ own' from
      hrest.grows.imp fun own'' result hown'' _ => ⟨entry, hpopped.grows hown''.1⟩
    refine obeys_ite (fun _ => trivial) fun _ => ?_
    refine obeys_op trivial fun user => ?_
    obtain _ | user := user
    · trivial
    refine obeys_op trivial fun credentials => ?_
    obtain _ | credentials := credentials
    · trivial
    dsimp only
    split
    · trivial
    · refine obeys_op ⟨id, entry, hpopped.grows fun e he => ?_, rfl⟩ fun created => ?_
      · exact List.mem_cons_of_mem _ (List.mem_cons_of_mem _ he)
      · cases created <;> trivial

theorem finishLogin_obeys (id response : GoString) :
    (finishLogin env process id response).Obeys t (ceremonyLaw env t) (FinishEnds t id .login) own := by
  refine obeys_bind ((popSession_obeys id .login).imp fun own' result hresult => ?_)
  cases result with
  | none => exact obeys_ret fun h => absurd rfl h
  | some entry =>
    have hpopped := hresult entry rfl
    suffices hrest : Prog.Obeys t (ceremonyLaw env t) (fun _ _ => True) _ own' from
      hrest.grows.imp fun own'' result hown'' _ => ⟨entry, hpopped.grows hown''.1⟩
    refine obeys_ite (fun _ => trivial) fun _ => ?_
    refine obeys_op trivial fun user => ?_
    obtain _ | user := user
    · trivial
    refine obeys_op trivial fun credentials => ?_
    obtain _ | credentials := credentials
    · trivial
    dsimp only
    split
    · trivial
    · refine obeys_ite (fun _ => trivial) fun _ => obeys_op trivial fun stored => ?_
      split
      · trivial
      · trivial
      · refine obeys_op trivial fun now => obeys_op trivial fun updated => ?_
        cases updated <;> trivial

end Calls

/-! ## What a request ends with -/

def PasskeyReply.accepts : PasskeyReply → Prop
  | .failed e => e ≠ unknownSession ∧ e ≠ .missingSession
  | _ => True

section Requests
variable {env : PasskeyEnv} {process t : ℕ} {request : PasskeyRequest} [UnicodeTables]

/-- A request that finishes a ceremony, and does not say that there is none, has been given the
entry. -/
def RequestEnds (t : ℕ) (request : PasskeyRequest) (own : List PasskeyEntry) (reply : PasskeyReply) : Prop :=
  ∀ id purpose, request.finishes = some (id, purpose) → reply.accepts → ∃ entry, Popped own t id purpose entry

variable {own : List PasskeyEntry}

omit [UnicodeTables] in
theorem finish_ends {β : Type} {id : GoString} {purpose : Purpose} {result : Except PasskeyError β}
    {reply : β → PasskeyReply} (hfinishes : request.finishes = some (id, purpose))
    (h : FinishEnds t id purpose own result) :
    RequestEnds t request own (replyOf reply result) := by
  intro id' purpose' hfinishes' haccepts
  rw [hfinishes, Option.some.injEq] at hfinishes'
  obtain ⟨rfl, rfl⟩ := Prod.mk.inj hfinishes'
  refine h fun heq => ?_
  rw [heq] at haccepts
  exact haccepts.1 rfl

omit [UnicodeTables] in
theorem finish_missing : RequestEnds t request own (.failed .missingSession) :=
  fun _ _ _ haccepts => absurd rfl haccepts.2

omit [UnicodeTables] in
theorem startends (h : request.finishes = none) {reply : PasskeyReply} :
    RequestEnds t request own reply := by
  intro id purpose hfinishes
  rw [h] at hfinishes
  cases hfinishes

theorem writePasskeyLoginDecoy_obeys (email : GoString) (hown : ∀ id entry, ¬ Stored own t id entry) :
    (writePasskeyLoginDecoy env process t email).Obeys t (ceremonyLaw env t) (fun _ _ => True) own := by
  refine obeys_bind (obeys_ite (fun _ => trivial) fun _ => ?_)
  exact (beginCeremony_obeys _ _ _ hown).imp fun _ _ _ => trivial

theorem handleBeginPasskeyLogin_obeys (email : GoString) :
    (handleBeginPasskeyLogin env process t email).Obeys t (ceremonyLaw env t) (fun _ _ => True) [] := by
  refine obeys_op trivial fun user => ?_
  have hown₁ := not_stored_cons (.userByEmail (toLower (trimSpace email))) user trivial (not_stored_nil (t := t))
  obtain _ | user := user
  · exact writePasskeyLoginDecoy_obeys email hown₁
  refine obeys_bind ((beginLogin_obeys user.1 hown₁).imp fun own' result hresult => ?_)
  cases result with
  | error e => exact writePasskeyLoginDecoy_obeys email (hresult.resolve_left Bool.false_ne_true)
  | ok result => trivial

theorem passkeyCallOf_obeys (request : PasskeyRequest) :
    (passkeyCallOf env process t request).Obeys t (ceremonyLaw env t) (RequestEnds t request) [] := by
  cases request with
  | pass d => exact obeys_op trivial fun _ => startends rfl
  | beginRegistration user =>
    exact obeys_bind ((beginRegistration_obeys user not_stored_nil).imp fun _ _ _ => startends rfl)
  | finishRegistration user sessionID label response =>
    refine obeys_ite (fun _ => obeys_ret finish_missing) fun _ => ?_
    exact obeys_bind ((finishRegistration_obeys _ _ _).imp fun _ _ h => finish_ends rfl h)
  | beginLogin email => exact (handleBeginPasskeyLogin_obeys email).imp fun _ _ _ => startends rfl
  | finishLogin sessionID response =>
    refine obeys_ite (fun _ => obeys_ret finish_missing) fun _ => ?_
    exact obeys_bind ((finishLogin_obeys _ _).imp fun _ _ h => finish_ends rfl h)
  | deletePasskey user id =>
    refine obeys_op trivial fun result => ?_
    cases result <;> exact startends rfl

end Requests

/-! ## One place -/

structure Placed (env : PasskeyEnv) (w : PasskeyWorld) : Prop where
  one : ∀ {id entry entry' place place'}, At w id entry place → At w id entry' place' → place = place'
  origin : ∀ {id entry place}, At w id entry place → ∃ b, env.sessionID b = id ∧ Stored w.log b id entry

section Runs

theorem begins_register {request : PasskeyRequest} (h : request.begins = some .register) :
    ∃ user, request = .beginRegistration user := by
  cases request with
  | beginRegistration user => exact ⟨user, rfl⟩
  | _ => cases h

theorem served_eq {served : ServedRequest} {request : PasskeyRequest}
    (h : served.request = request) : served = ⟨served.process, request⟩ := by
  rw [← h]

variable [UnicodeTables] {env : PasskeyEnv}

variable {w : PasskeyWorld} {op : PasskeyOp} {entry : Ceremony}

theorem stores_fresh {t : ℕ} {i : Luck} {id : GoString} {place : Place}
    (h : Placed env w) (hlaw : ceremonyLaw env t (w.own t) op)
    (hstores : Stores t id entry ⟨t, op, w.answer (PasskeyOp.exec env) op i⟩ place) :
    id = env.sessionID t ∧ ∀ entry' place', ¬ At w id entry' place' := by
  have hmay : MayStore env t (w.own t) id entry := by
    generalize w.answer (PasskeyOp.exec env) op i = ans at hstores
    cases hstores with
    | save => exact hlaw
    | storeLocal process => exact hlaw
  obtain ⟨rfl, hown, -⟩ := hmay
  refine ⟨rfl, fun entry' place' hat => ?_⟩
  obtain ⟨b, hb, e, he, place, hstored⟩ := h.origin hat
  obtain rfl := env.sessionID_injective hb
  exact hown _ entry' ⟨e, mem_own.mpr ⟨he, hstored.call_eq⟩, place, hstored⟩

theorem placed_step {t : ℕ} {i : Luck} (h : Placed env w)
    (hlaw : ceremonyLaw env t (w.own t) op) (hclean : CleanSave t op i w) :
    Placed env (w.step (PasskeyOp.exec env) t op i) where
  one := by
    intro id entry entry' place place' hat hat'
    rcases at_step hclean hat with hold | hnew | ⟨rfl, source, htakes⟩ <;>
      rcases at_step hclean hat' with hold' | hnew' | ⟨rfl, source', htakes'⟩
    · exact h.one hold hold'
    · exact absurd hold ((stores_fresh h hlaw hnew').2 _ _)
    · obtain rfl := h.one hold (takes_step htakes').1
      exact absurd hat ((takes_step htakes').2 _)
    · exact absurd hold' ((stores_fresh h hlaw hnew).2 _ _)
    · exact hnew.place_eq hnew'
    · exact absurd htakes' hnew.not_takes
    · obtain rfl := h.one hold' (takes_step htakes).1
      exact absurd hat' ((takes_step htakes).2 _)
    · exact absurd htakes hnew'.not_takes
    · rfl
  origin := by
    intro id entry place hat
    have hold : ∀ {place}, At w id entry place → ∃ b, env.sessionID b = id ∧
        Stored (w.step (PasskeyOp.exec env) t op i).log b id entry := by
      intro place hat
      obtain ⟨b, hb, hstored⟩ := h.origin hat
      exact ⟨b, hb, hstored.grows fun _ he => List.mem_cons_of_mem _ he⟩
    rcases at_step hclean hat with hat | hnew | ⟨rfl, source, htakes⟩
    · exact hold hat
    · exact ⟨t, (stores_fresh h hlaw hnew).1.symm, _, List.mem_cons_self, place, hnew⟩
    · exact hold (takes_step htakes).1

def Checked (w : PasskeyWorld) : Prop :=
  ∀ t process id purpose entry time, ⟨t, .popLocal process id purpose, some (entry, time)⟩ ∈ w.log →
    entry.purpose = purpose ∧ time ≤ entry.expires

theorem checked_step {t : ℕ} {i : Luck} (h : Checked w) :
    Checked (w.step (PasskeyOp.exec env) t op i) := by
  intro t' process id purpose entry time hmem
  rcases List.mem_cons.mp hmem with heq | hmem
  · obtain ⟨rfl, hop, hans⟩ := Entry.mk.inj heq
    cases hop
    simp only [World.answer, PasskeyOp.exec, PasskeyStore.takeLocal] at hans
    split at hans
    · cases hans
    · split at hans
      · cases hans
      · rename_i hcheck
        cases hans
        rw [not_or, not_not, not_lt] at hcheck
        exact hcheck
  · exact h t' process id purpose entry time hmem

/-! ## Main result -/

def startStore (users : Table UserRow) (credentials : Table CredentialRow) (clock : Instant) : PasskeyStore :=
  ⟨users, credentials, fun _ => none, fun _ _ => none, clock⟩

def Accepted (c : PasskeyConfig) (t : ℕ) (id : GoString) (purpose : Purpose) : Prop :=
  ∃ task reply, c.task t = some task ∧ task.request.request.finishes = some (id, purpose) ∧ task.rest = .ret reply ∧
    reply.accepts

def ReadTime (log : List PasskeyEntry) (t : ℕ) (time : Instant) : Prop :=
  ⟨t, .now, time⟩ ∈ log ∨ ∃ process id purpose entry, ⟨t, .popLocal process id purpose, some (entry, time)⟩ ∈ log

/-- The ceremony was begun for this purpose and had not expired at a time that the call has read. -/
def BegunFor (env : PasskeyEnv) (c : PasskeyConfig) (t : ℕ) (id : GoString) (purpose : Purpose) : Prop :=
  ∃ b task begun time, env.sessionID b = id ∧ c.task b = some task ∧ task.request.request.begins = some purpose ∧
    ⟨b, .now, begun⟩ ∈ c.world.log ∧ ReadTime c.world.log t time ∧ time ≤ begun + ceremonyTTL

def OwnCeremonies (env : PasskeyEnv) (events : List (Event ServedRequest Luck)) : Prop :=
  ∀ t b process process' user user' sessionID label response,
    .start t ⟨process, .finishRegistration user sessionID label response⟩ ∈ events →
    .start b ⟨process', .beginRegistration user'⟩ ∈ events → env.sessionID b = trimSpace sessionID → user = user'

omit [UnicodeTables] in
theorem start_placed {users : Table UserRow} {credentials : Table CredentialRow} {clock : Instant} :
    Placed env ⟨startStore users credentials clock, []⟩ ∧ Checked ⟨startStore users credentials clock, []⟩ := by
  have hnowhere : ∀ {id entry place}, ¬ At ⟨startStore users credentials clock, []⟩ id entry place := by
    intro id entry place hat
    cases place with
    | shared =>
      obtain ⟨_, h⟩ := hat
      cases h
    | process process => cases hat
    | call t =>
      obtain ⟨e, he, -⟩ := hat
      exact List.not_mem_nil he
  refine ⟨⟨fun hat => absurd hat hnowhere, fun hat => absurd hat hnowhere⟩, ?_⟩
  intro _ _ _ _ _ _ hmem
  exact absurd hmem List.not_mem_nil

omit [UnicodeTables] in
theorem popped_checked (hchecked : Checked w) {t : ℕ} {id : GoString} {purpose : Purpose}
    (h : Popped w.log t id purpose entry) :
    entry.purpose = purpose ∧ ∃ time, ReadTime w.log t time ∧ time ≤ entry.expires := by
  rcases h with ⟨-, hpurpose, time, hnow, htime⟩ | ⟨process, time, hpop⟩
  · exact ⟨hpurpose, time, Or.inl hnow, htime⟩
  · obtain ⟨hpurpose, htime⟩ := hchecked t process id purpose entry time hpop
    exact ⟨hpurpose, time, Or.inr ⟨process, id, purpose, entry, hpop⟩, htime⟩

theorem passkeys_obey (t : ℕ) (served : ServedRequest) (_ : True) :
    ((passkeys env).prog t served).Obeys t (ceremonyLaw env t) (RequestEnds t served.request) [] :=
    passkeyCallOf_obeys _

variable {events : List (Event ServedRequest Luck)} {s : PasskeyStore} {c : PasskeyConfig}

theorem log_lawful (hrun : (passkeys env).run (Config.init s) events = some c) :
    ∀ e ∈ c.world.log, ∃ own, (∀ e' ∈ own, e' ∈ c.world.log) ∧ ceremonyLaw env e.call own e.op := by
  have halong : (passkeys env).Along (Allows (fun _ => True) fun _ _ _ _ => True) (Config.init s) events :=
    along_always (fun _ => trivial) (fun _ _ _ _ => trivial) _ _
  exact lawful_log passkeys_obey halong hrun

theorem stored_begun (hrun : (passkeys env).run (Config.init s) events = some c) {b : ℕ}
    {id : GoString} (h : Stored c.world.log b id entry) :
    ∃ task begun, c.task b = some task ∧ MayBegin task.request.request entry ∧
      ⟨b, .now, begun⟩ ∈ c.world.log ∧
      entry.expires = begun + ceremonyTTL := by
  obtain ⟨e, he, place, hstores⟩ := h
  obtain ⟨task, htask, hruns⟩ := log_allowed (fun _ _ => passkeyCallOf_all _) hrun e he
  obtain ⟨own, hown, hlaw⟩ := log_lawful hrun e he
  cases hstores with
  | save =>
    obtain ⟨-, -, begun, hbegun, hexpires⟩ := hlaw
    exact ⟨task, begun, htask, hruns, hown _ hbegun, hexpires⟩
  | storeLocal process =>
    obtain ⟨-, -, begun, hbegun, hexpires⟩ := hlaw
    exact ⟨task, begun, htask, hruns, hown _ hbegun, hexpires⟩

theorem took_finishes (hrun : (passkeys env).run (Config.init s) events = some c) {t : ℕ}
    {id : GoString} (h : Took c.world.log t id entry) :
    ∃ task purpose, c.task t = some task ∧ task.request.request.finishes = some (id, purpose) := by
  obtain ⟨e, he, place, htakes⟩ := h
  obtain ⟨task, htask, hruns⟩ := log_allowed (fun _ _ => passkeyCallOf_all _) hrun e he
  cases htakes with
  | pop =>
    obtain ⟨purpose, hfinishes⟩ := hruns
    exact ⟨task, purpose, htask, hfinishes⟩
  | popLocal process purpose' time =>
    obtain ⟨purpose, hfinishes⟩ := hruns
    exact ⟨task, purpose, htask, hfinishes⟩

theorem registration_own (hown : OwnCeremonies env events)
    (hrun : (passkeys env).run (Config.init s) events = some c) (hplaced : Placed env c.world)
    (hchecked : Checked c.world) {t user : ℕ}
    {task : Task PasskeyAns PasskeyStore ServedRequest PasskeyReply}
    {sessionID label response : GoString} {item : CredentialRow} {ans : PasskeyAns (.create item)}
    (htask : c.task t = some task)
    (hrequest : task.request.request = .finishRegistration user sessionID label response)
    (hcreate : ⟨t, .create item, ans⟩ ∈ c.world.log) : item.userID = user := by
  obtain ⟨own, hsub, id, entry, hpopped, hitem⟩ := log_lawful hrun _ hcreate
  have hpopped := hpopped.grows hsub
  have hat : At c.world id entry (.call t) := hpopped.took
  obtain ⟨b, rfl, hstored⟩ := hplaced.origin hat
  obtain ⟨task', purpose, htask', hfinishes⟩ := took_finishes hrun hpopped.took
  obtain rfl : task = task' := Option.some.inj (htask.symm.trans htask')
  rw [hrequest] at hfinishes
  obtain ⟨hid, -⟩ := Prod.mk.inj (Option.some.inj hfinishes)
  obtain ⟨beginner, begun, hbeginner, ⟨hbegins, huser⟩, -⟩ := stored_begun hrun hstored
  rw [(popped_checked hchecked hpopped).1] at hbegins
  obtain ⟨user', hrequest'⟩ := begins_register hbegins
  have ht := start_event hrun htask
  have hb := start_event hrun hbeginner
  rw [served_eq hrequest] at ht
  rw [served_eq hrequest'] at hb
  rw [hown t b _ _ user user' sessionID label response ht hb hid.symm, hitem]
  exact huser user' hrequest'

/-- If only the user who has begun a registration finishes it, and a save that fails has stored
nothing, then a ceremony is accepted by one call, for its purpose and in time, and a registration
adds to the account of the user who finishes it. -/
theorem ceremonies_bound (env : PasskeyEnv) (users : Table UserRow)
    (credentials : Table CredentialRow) (clock : Instant) (events : List (Event ServedRequest Luck))
    (c : PasskeyConfig)
    (hclean : (passkeys env).Along (Allows (fun _ => True) CleanSave)
      (Config.init (startStore users credentials clock)) events)
    (hown : OwnCeremonies env events)
    (hrun : (passkeys env).run (Config.init (startStore users credentials clock)) events = some c) :
    (∀ id purpose purpose' t u, Accepted c t id purpose → Accepted c u id purpose' → t = u) ∧
    (∀ id purpose t, Accepted c t id purpose → BegunFor env c t id purpose) ∧
    ∀ t task user sessionID label response item ans, c.task t = some task →
      task.request.request = .finishRegistration user sessionID label response →
      ⟨t, .create item, ans⟩ ∈ c.world.log → item.userID = user := by
  have keeps : Keeps (PasskeyOp.exec env) (ceremonyLaw env) CleanSave fun w => Placed env w ∧ Checked w :=
    fun t op i w h hlaw hgiven => ⟨placed_step h.1 hlaw hgiven, checked_step h.2⟩
  obtain ⟨⟨hplaced, hchecked⟩, hends⟩ := lawful_run (passkeys env) passkeys_obey keeps start_placed hclean hrun
  have hpopped : ∀ {id purpose t}, Accepted c t id purpose → ∃ entry, Popped c.world.log t id purpose entry := by
    rintro id purpose t ⟨task, reply, htask, hfinishes, hret, haccepts⟩
    obtain ⟨entry, h⟩ := hends t task reply htask hret id purpose hfinishes haccepts
    exact ⟨entry, h.grows fun e he => (mem_own.mp he).1⟩
  refine ⟨fun id purpose purpose' t u ht hu => ?_, fun id purpose t ht => ?_,
    fun t task user sessionID label response item ans => ?_⟩
  · obtain ⟨entry, ht⟩ := hpopped ht
    obtain ⟨entry', hu⟩ := hpopped hu
    have hat : At c.world id entry (.call t) := ht.took
    have hat' : At c.world id entry' (.call u) := hu.took
    exact Place.call.inj (hplaced.one hat hat')
  · obtain ⟨entry, ht⟩ := hpopped ht
    have hat : At c.world id entry (.call t) := ht.took
    obtain ⟨b, hb, hstored⟩ := hplaced.origin hat
    obtain ⟨task, begun, htask, ⟨hbegins, -⟩, hbegun, hexpires⟩ := stored_begun hrun hstored
    obtain ⟨rfl, time, hread, htime⟩ := popped_checked hchecked ht
    exact ⟨b, task, begun, time, hb, htask, hbegins, hbegun, hread, hexpires ▸ htime⟩
  · exact registration_own hown hrun hplaced hchecked

end Runs

/-! ## Two users -/

def passkeyStart : PasskeyStore :=
  startStore ((Table.empty.insert sampleUser).insert sampleUser) .empty 0

def beginning (user : ℕ) : Event ServedRequest Luck := .start 0 ⟨0, .beginRegistration user⟩

def finishing (t user : ℕ) : Event ServedRequest Luck :=
  .start t ⟨0, .finishRegistration user [0x61] [] [t.toUInt8]⟩

def ownCeremonies (env : PasskeyEnv) (events : List (Event ServedRequest Luck)) : Bool :=
  events.all fun finish => events.all fun start =>
    match finish, start with
    | .start _ ⟨_, .finishRegistration user sessionID _ _⟩, .start b ⟨_, .beginRegistration user'⟩ =>
      env.sessionID b ≠ trimSpace sessionID || user = user'
    | _, _ => true

theorem ownCeremonies_sound {env : PasskeyEnv} {events : List (Event ServedRequest Luck)}
    (h : ownCeremonies env events = true) : OwnCeremonies env events := by
  intro t b process process' user user' sessionID label response ht hb hid
  have hpair := List.all_eq_true.mp (List.all_eq_true.mp h _ ht) _ hb
  rw [Bool.or_eq_true] at hpair
  rcases hpair with hother | hsame
  · exact absurd hid (of_decide_eq_true hother)
  · exact of_decide_eq_true hsame

def nothingFails (_ : PasskeyConfig) : Event ServedRequest Luck → Bool
  | .start _ _ => true
  | .step _ i => i.ok

theorem nothingFails_sound (c : PasskeyConfig) (e : Event ServedRequest Luck)
    (h : nothingFails c e = true) : Allows (fun _ => True) CleanSave c e := by
  cases e with
  | start t request => trivial
  | step t i =>
    rw [Allows]
    split
    · rename_i op _ _
      cases op with
      | save id entry => exact fun hfails => absurd (hfails.symm.trans h) Bool.false_ne_true
      | _ => trivial
    · trivial

/-- Both users register, each with two processes that share a store. -/
def twoRegistrations : List (Event ServedRequest Luck) :=
  [beginning 1, .start 1 ⟨1, .beginRegistration 2⟩] ++ passkeySteps 0 5 ++ passkeySteps 1 5 ++
    [.start 2 ⟨0, .finishRegistration 2 [0x61, 0x61] [] [2]⟩, .start 3 ⟨1, .finishRegistration 1 [0x61] [] [3]⟩] ++
    passkeySteps 2 5 ++ passkeySteps 3 5

theorem ceremonies_bound_registered :
    ∃ c item item', (@passkeys asciiTables (samplePasskeyEnv true)).run (Config.init passkeyStart)
      twoRegistrations = some c ∧
      Accepted c 2 [0x61, 0x61] .register ∧
        BegunFor (samplePasskeyEnv true) c 2 [0x61, 0x61] .register ∧
      Accepted c 3 [0x61] .register ∧ BegunFor (samplePasskeyEnv true) c 3 [0x61] .register ∧
      ⟨2, .create item, .ok 1⟩ ∈ c.world.log ∧ item.userID = 2 ∧
      ⟨3, .create item', .ok 2⟩ ∈ c.world.log ∧ item'.userID = 1 := by
  have hclean : (@passkeys asciiTables (samplePasskeyEnv true)).Along (Allows (fun _ => True) CleanSave)
      (Config.init passkeyStart) twoRegistrations := along_of_checks nothingFails_sound rfl
  have hown : OwnCeremonies (samplePasskeyEnv true) twoRegistrations := ownCeremonies_sound rfl
  have hbound := fun c => @ceremonies_bound asciiTables (samplePasskeyEnv true) _ _ 0 twoRegistrations c hclean hown
  refine ⟨_, _, _, rfl, ?_, ?_, ?_, ?_, List.mem_of_getElem? (i := 5) rfl, ?_, List.mem_of_getElem? (i := 0) rfl, ?_⟩
  · exact ⟨_, _, rfl, rfl, rfl, trivial⟩
  · exact (hbound _ rfl).2.1 _ _ 2 ⟨_, _, rfl, rfl, rfl, trivial⟩
  · exact ⟨_, _, rfl, rfl, rfl, trivial⟩
  · exact (hbound _ rfl).2.1 _ _ 3 ⟨_, _, rfl, rfl, rfl, trivial⟩
  · exact (hbound _ rfl).2.2 2 _ 2 _ _ _ _ _ rfl rfl (List.mem_of_getElem? (i := 5) rfl)
  · exact (hbound _ rfl).2.2 3 _ 1 _ _ _ _ _ rfl rfl (List.mem_of_getElem? (i := 0) rfl)

/-- The second user finishes the registration of the first, whose account gets the credential; and
an entry that was saved, although the save failed, is accepted twice. -/
theorem ceremonies_unbound :
    (∃ c task item, (@passkeys asciiTables (samplePasskeyEnv false)).run (Config.init passkeyStart)
        ([beginning 1] ++ passkeySteps 0 5 ++ [finishing 1 2] ++ passkeySteps 1 4) = some c ∧
      c.task 1 = some task ∧ task.request.request = .finishRegistration 2 [0x61] [] [1] ∧
      ⟨1, .create item, .ok 1⟩ ∈ c.world.log ∧ item.userID = 1) ∧
    ∃ c, (@passkeys asciiTables (samplePasskeyEnv true)).run (Config.init passkeyStart)
        ([beginning 1] ++ passkeySteps 0 3 ++ [.step 0 ⟨false, true⟩] ++ passkeySteps 0 2 ++
          [finishing 1 1, finishing 2 1] ++
          passkeySteps 1 5 ++ passkeySteps 2 5) = some c ∧
      Accepted c 1 [0x61] .register ∧ Accepted c 2 [0x61] .register := by
  refine ⟨⟨_, _, _, rfl, rfl, rfl, List.mem_cons_self, rfl⟩, _, rfl, ?_, ?_⟩
  · exact ⟨_, _, rfl, rfl, rfl, trivial⟩
  · exact ⟨_, _, rfl, rfl, rfl, trivial⟩

end Portlyn.Auth.Passkeys
