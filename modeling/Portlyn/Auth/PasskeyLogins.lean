import Portlyn.Auth.Calls
import Portlyn.Auth.Passkeys

/-! # A deleted passkey stays deleted, and counters do not go back

A login lists the credentials of the user, verifies the answer against one of them, reads the row
again and writes it back as a whole. If the row is still there then, with the counter that the login
was verified against, the table evolves as it should: no key is used again and no counter gets
smaller (`passkeys_evolve`). -/
namespace Portlyn.Auth.Passkeys
open Go Domain Lib Lib.Interleave
set_option autoImplicit false

/-! ## What a login writes -/

/-- What the call has listed, if it lists the credential at all, counts as the row says. -/
def CountsAsListed (log : List PasskeyEntry) (t : ℕ) (credentialID : GoString) (signCount : ℕ) : Prop :=
  ∀ userID credentials seen, ⟨t, .listByUser userID, .ok credentials⟩ ∈ log →
    credentials.find? (fun row => row.2.credentialID = credentialID) = some seen → seen.2.signCount = signCount

/-- A row is written back while it is there, with the counter that the login was verified against.
-/
def StillVerified (t : ℕ) : PasskeyOp → Luck → PasskeyWorld → Prop
  | .update id item, _, w =>
    ∃ row, w.store.credentials.get id = some row ∧ CountsAsListed w.log t item.credentialID row.signCount
  | _, _, _ => True

/-- A row that is written back was read again, after a login against what the call has listed. -/
def loginLaw (t : ℕ) (own : List PasskeyEntry) : PasskeyOp → Prop
  | .update id item =>
    ∃ credentialID stored userID credentials seen, ⟨t, .getByCredentialID credentialID,
      .ok (id, stored)⟩ ∈ own ∧
      item.credentialID = stored.credentialID ∧ ⟨t, .listByUser userID, .ok credentials⟩ ∈ own ∧
      credentials.find? (fun row => row.2.credentialID = credentialID) = some seen ∧ seen.2.signCount ≤ item.signCount
  | _ => True

def DeleteEnds (t : ℕ) (request : PasskeyRequest) (own : List PasskeyEntry) (reply : PasskeyReply) : Prop :=
  ∀ userID id, request = .deletePasskey userID id → reply = .deleted → ⟨t, .delete userID id, .ok ()⟩ ∈ own

section Calls
variable {env : PasskeyEnv} {process t : ℕ} {own : List PasskeyEntry}

theorem obeys_of_noUpdate {β : Type} {p : PasskeyCall β} (hp : p.All fun op => ∀ own, loginLaw t own op) :
    p.Obeys t (loginLaw t) (fun _ _ => True) own :=
  (obeys_of_all (fun own _ hop => hop own) hp).imp fun _ _ _ => trivial

theorem finishLogin_writes (id response : GoString) :
    (finishLogin env process id response).Obeys t (loginLaw t) (fun _ _ => True) own := by
  have hpop : (popSession env process id .login).All fun op => ∀ own, loginLaw t own op :=
    popSession_all (fun _ => trivial) (fun _ => trivial) fun _ => trivial
  refine obeys_bind ((obeys_of_noUpdate hpop).imp fun own' result _ => ?_)
  cases result with
  | none => trivial
  | some entry =>
    refine obeys_ite (fun _ => trivial) fun _ => ?_
    refine obeys_op trivial fun user => ?_
    obtain _ | user := user
    · trivial
    refine obeys_op trivial fun credentials => ?_
    obtain _ | credentials := credentials
    · trivial
    dsimp only
    split
    · trivial
    · rename_i login hlogin
      obtain ⟨seen, hseen, hcount⟩ := env.validateLogin_listed hlogin
      refine obeys_ite (fun _ => trivial) fun hclone => obeys_op trivial fun stored => ?_
      split
      · trivial
      · trivial
      · rename_i rowID row
        refine obeys_op trivial fun now => obeys_op ?_ fun updated => ?_
        · refine ⟨_, row, entry.userID, credentials, seen, ?_, rfl, ?_, hseen, hcount (eq_false_of_ne_true hclone)⟩
          · exact List.mem_cons_of_mem _ List.mem_cons_self
          · exact List.mem_cons_of_mem _ (List.mem_cons_of_mem _ List.mem_cons_self)
        · cases updated <;> trivial

theorem noUpdate_of_runs {request : PasskeyRequest}
    (hrequest : ∀ sessionID response, request ≠ .finishLogin sessionID response) {op : PasskeyOp}
    (hop : Runs request op) (own : List PasskeyEntry) : loginLaw t own op := by
  cases op with
  | update id item =>
    obtain ⟨sessionID, response, heq⟩ := hop
    exact absurd heq (hrequest sessionID response)
  | _ => trivial

theorem passkeyCallOf_writes [UnicodeTables] (request : PasskeyRequest) :
    (passkeyCallOf env process t request).Obeys t (loginLaw t) (DeleteEnds t request) [] := by
  have hquiet : (∀ sessionID response, request ≠ .finishLogin sessionID response) →
      (passkeyCallOf env process t request).Obeys t (loginLaw t) (fun _ _ => True) [] := fun hrequest =>
    obeys_of_noUpdate ((passkeyCallOf_all request).imp fun _ hop => noUpdate_of_runs hrequest hop)
  cases request with
  | finishLogin sessionID response =>
    refine obeys_ite (fun _ => obeys_ret nofun) fun _ => ?_
    exact obeys_bind ((finishLogin_writes _ _).imp fun _ _ _ => obeys_ret nofun)
  | deletePasskey userID id =>
    refine obeys_op trivial fun result => ?_
    obtain _ | u := result
    · exact obeys_ret nofun
    refine obeys_ret ?_
    rintro _ _ heq -
    cases heq
    exact List.mem_cons_self
  | _ => exact (hquiet nofun).imp fun _ _ _ => nofun

end Calls

/-! ## The table -/

def countsUp (row row' : CredentialRow) : Prop := row.signCount ≤ row'.signCount

theorem countsUp_refl (row : CredentialRow) : countsUp row row := Nat.le_refl _

variable {credentials : Table CredentialRow}

theorem saveCredential_evolves {id : ℕ} {item row : CredentialRow}
    (hget : credentials.get id = some row) (hcount : countsUp row item) :
    Table.Evolves countsUp credentials (saveCredential credentials id item).2 := by
  rw [saveCredential]
  split
  · exact Table.evolves_refl countsUp_refl _
  · split
    · exact Table.evolves_put countsUp_refl (Table.get_lt hget).1 hget hcount
    · exact Table.evolves_insert countsUp_refl _ _

theorem deleteCredentialRow_evolves (credentials : Table CredentialRow) (userID id : ℕ) :
    Table.Evolves countsUp credentials (deleteCredentialRow credentials userID id).2 := by
  rw [deleteCredentialRow]
  split
  · exact Table.evolves_refl countsUp_refl _
  · split
    · exact Table.evolves_delete countsUp_refl _ _
    · exact Table.evolves_refl countsUp_refl _

theorem deleteCredentialRow_ok {userID id : ℕ}
    (h : (deleteCredentialRow credentials userID id).1 = .ok ()) :
    (deleteCredentialRow credentials userID id).2.get id = none ∧ id < credentials.nextID := by
  rw [deleteCredentialRow] at h ⊢
  split at h
  · cases h
  · rename_i row hget
    split at h
    · rename_i hrow
      rw [if_pos hrow]
      exact ⟨Table.get_delete_self _ _, (Table.get_lt hget).2⟩
    · cases h

theorem orFailed_evolves {ok : Bool} {result : Except StoreError Unit × Table CredentialRow}
    (h : Table.Evolves countsUp credentials result.2) :
    Table.Evolves countsUp credentials (orFailed ok credentials result).2 := by
  cases ok with
  | true => exact h
  | false => exact Table.evolves_refl countsUp_refl _

/-- A row that a call has read again has the id it asked for, and a row that was deleted is gone. -/
structure TableInv (w : PasskeyWorld) : Prop where
  found : ∀ {t credentialID id stored}, ⟨t, .getByCredentialID credentialID, .ok (id, stored)⟩ ∈ w.log →
    stored.credentialID = credentialID
  gone : ∀ {t userID id}, ⟨t, .delete userID id, .ok ()⟩ ∈ w.log →
    w.store.credentials.get id = none ∧ id < w.store.credentials.nextID

section Runs
variable [UnicodeTables] {env : PasskeyEnv} {w : PasskeyWorld} {t : ℕ} {op : PasskeyOp} {i : Luck}

theorem evolves_step (hinv : TableInv w) (hlaw : loginLaw t (w.own t) op) (hgiven : StillVerified t op i w) :
    Table.Evolves countsUp w.store.credentials (w.step (PasskeyOp.exec env) t op i).store.credentials := by
  cases op with
  | create item =>
    simp only [World.step, PasskeyOp.exec]
    split
    · exact Table.evolves_refl countsUp_refl _
    · exact Table.evolves_insert countsUp_refl _ _
  | update id item =>
    obtain ⟨row, hget, hlisted⟩ := hgiven
    obtain ⟨credentialID, stored, userID, credentials, seen, hstored, hitem, hlist, hseen, hcount⟩ := hlaw
    rw [hitem, hinv.found (mem_own.mp hstored).1] at hlisted
    have hrow : countsUp row item := (hlisted userID credentials seen (mem_own.mp hlist).1 hseen).symm.trans_le hcount
    exact orFailed_evolves (saveCredential_evolves hget hrow)
  | delete userID id => exact orFailed_evolves (deleteCredentialRow_evolves _ userID id)
  | save id entry =>
    simp only [World.step, PasskeyOp.exec]
    split <;> exact Table.evolves_refl countsUp_refl _
  | pop id =>
    simp only [World.step, PasskeyOp.exec]
    split <;> exact Table.evolves_refl countsUp_refl _
  | _ => exact Table.evolves_refl countsUp_refl _

theorem tableInv_step (hinv : TableInv w) (hlaw : loginLaw t (w.own t) op) (hgiven : StillVerified t op i w) :
    TableInv (w.step (PasskeyOp.exec env) t op i) where
  found := by
    intro t' credentialID id stored hmem
    rcases List.mem_cons.mp hmem with heq | hmem
    · obtain ⟨rfl, hop, hans⟩ := Entry.mk.inj heq
      cases hop
      simp only [World.answer, PasskeyOp.exec] at hans
      split at hans
      · cases hfirst : w.store.credentials.first fun _ row => row.credentialID = credentialID with
        | none =>
          rw [hfirst] at hans
          cases hans
        | some found =>
          rw [hfirst] at hans
          cases hans
          exact of_decide_eq_true (Table.first_some hfirst).2
      · cases hans
    · exact hinv.found hmem
  gone := by
    intro t' userID id hmem
    have hevolves : Table.Evolves countsUp w.store.credentials (w.step (PasskeyOp.exec env) t op i).store.credentials :=
      evolves_step hinv hlaw hgiven
    rcases List.mem_cons.mp hmem with heq | hmem
    · obtain ⟨rfl, hop, hans⟩ := Entry.mk.inj heq
      cases hop
      have hans := (eq_of_heq hans).symm
      simp only [World.answer, PasskeyOp.exec] at hans
      cases hok : i.ok with
      | false =>
        rw [hok] at hans
        cases hans
      | true =>
        rw [hok] at hans
        obtain ⟨hnone, hid⟩ := deleteCredentialRow_ok hans
        refine ⟨?_, Nat.lt_of_lt_of_le hid hevolves.1⟩
        simp only [World.step, PasskeyOp.exec, hok]
        exact hnone
    · obtain ⟨hnone, hid⟩ := hinv.gone hmem
      exact ⟨hevolves.gone hid hnone, Nat.lt_of_lt_of_le hid hevolves.1⟩

/-! ## Main result -/

def HasDeleted (c : PasskeyConfig) (t userID id : ℕ) : Prop :=
  ∃ task, c.task t = some task ∧ task.request.request = .deletePasskey userID id ∧ task.rest = .ret .deleted

/-- If every login that writes a row back finds it in the table, with the counter it was verified
against, then a passkey that was deleted stays away and no counter goes back. -/
theorem passkeys_evolve (env : PasskeyEnv) (s : PasskeyStore) (events later : List (Event ServedRequest Luck))
    (c c' : PasskeyConfig)
    (hverified : (passkeys env).Along (Allows (fun _ => True) StillVerified) (Config.init s) (events ++ later))
    (hrun : (passkeys env).run (Config.init s) events = some c) (hlater : (passkeys env).run c later = some c') :
    (∀ t userID id, HasDeleted c t userID id → c'.world.store.credentials.get id = none) ∧
    ∀ id row row', c.world.store.credentials.get id = some row → c'.world.store.credentials.get id = some row' →
      row.signCount ≤ row'.signCount := by
  have hprog : ∀ t served, True → ((passkeys env).prog t served).Obeys t (loginLaw t)
    (DeleteEnds t served.request) [] :=
    fun _ _ _ => passkeyCallOf_writes _
  have hinit : TableInv ⟨s, []⟩ := ⟨fun hmem => absurd hmem List.not_mem_nil, fun hmem => absurd hmem List.not_mem_nil⟩
  have keeps : Keeps (PasskeyOp.exec env) loginLaw StillVerified TableInv :=
    fun _ _ _ _ h hlaw hgiven => tableInv_step h hlaw hgiven
  obtain ⟨hinv, hevolves⟩ := lawful_since (passkeys env) hprog keeps
    (fun w w' => Table.Evolves countsUp w.store.credentials w'.store.credentials)
      (fun _ => Table.evolves_refl countsUp_refl _)
    (fun _ _ _ h h' => h.trans (fun _ _ _ => Nat.le_trans) h') (fun _ _ _ _ h hlaw hgiven => evolves_step h hlaw hgiven)
    hinit hverified hrun hlater
  have hends := (lawful_run (passkeys env) hprog keeps hinit (along_append hverified hrun).1 hrun).2
  refine ⟨fun t userID id hdeleted => ?_, fun id row row' hrow hrow' => ?_⟩
  · obtain ⟨task, htask, hrequest, hret⟩ := hdeleted
    have hmem := hends t task .deleted htask hret userID id hrequest rfl
    obtain ⟨hnone, hid⟩ := hinv.gone (mem_own.mp hmem).1
    exact hevolves.gone hid hnone
  · obtain ⟨old, hold, hcount⟩ := hevolves.2 id row' hrow' (Table.get_lt hrow).2
    obtain rfl := Option.some.inj (hrow.symm.trans hold)
    exact hcount

end Runs

/-! ## Logins that overlap -/

def onePasskey : PasskeyStore where
  users := Table.empty.insert sampleUser
  credentials := Table.empty.insert ⟨1, [0x6b], [], [], [], 0, [], true, false, false, none⟩
  shared := fun _ => none
  sessions := fun _ _ => none
  clock := 0

def beginningLogin (t : ℕ) : List (Event ServedRequest Luck) :=
  .start t ⟨0, .beginLogin [0x61]⟩ :: passkeySteps t 6

/-- The call finishes the login that call `b` has begun, with a counter. -/
def finishingLogin (t b count : ℕ) : Event ServedRequest Luck :=
  .start t ⟨0, .finishLogin (List.replicate (b + 1) 0x61) (List.replicate count 0x61)⟩

def deleting (t : ℕ) : List (Event ServedRequest Luck) :=
  .start t ⟨0, .deletePasskey 1 1⟩ :: passkeySteps t 1

def signCountOf (c : PasskeyConfig) : Option ℕ :=
  (c.world.store.credentials.get 1).map CredentialRow.signCount

def hasReturned (c : PasskeyConfig) (t : ℕ) : Bool :=
  match c.task t with
  | some ⟨_, _, .ret _⟩ => true
  | _ => false

/-- A passkey is deleted while a login is about to write its row back; and a login writes its
counter over that of a login that came later. -/
theorem passkeys_goBack :
    (∃ c, (@passkeys asciiTables (samplePasskeyEnv false)).run (Config.init onePasskey)
        (beginningLogin 0 ++ [finishingLogin 1 0 5] ++ passkeySteps 1 5 ++ deleting 2 ++ passkeySteps 1 1) = some c ∧
      HasDeleted c 2 1 1 ∧ hasReturned c 1 = true ∧ signCountOf c = some 5) ∧
    ∃ c c', (@passkeys asciiTables (samplePasskeyEnv false)).run (Config.init onePasskey)
        (beginningLogin 0 ++ beginningLogin 1 ++ [finishingLogin 2 0 5, finishingLogin 3 1 6] ++ passkeySteps 2 5 ++
          passkeySteps 3 6) = some c ∧
      (@passkeys asciiTables (samplePasskeyEnv false)).run c (passkeySteps 2 1) = some c' ∧
      signCountOf c = some 6 ∧ signCountOf c' = some 5 := by
  refine ⟨⟨_, rfl, ⟨_, rfl, rfl, rfl⟩, rfl, rfl⟩, _, _, rfl, rfl, ?_, ?_⟩
  · rfl
  · rfl

def listings (log : List PasskeyEntry) (t : ℕ) : List (List (ℕ × CredentialRow)) :=
  log.filterMap fun e =>
    match e with
    | ⟨u, .listByUser _, .ok credentials⟩ => if u = t then some credentials else none
    | _ => none

def stillVerified (c : PasskeyConfig) : Event ServedRequest Luck → Bool
  | .start _ _ => true
  | .step t _ =>
    match c.task t with
    | some ⟨_, _, .stmt (.update id item) _⟩ =>
      (c.world.store.credentials.get id).any fun row =>
        (listings c.world.log t).all fun credentials =>
          (credentials.find? fun seen => seen.2.credentialID = item.credentialID).all fun seen =>
            seen.2.signCount = row.signCount
    | _ => true

theorem stillVerified_sound (c : PasskeyConfig) (e : Event ServedRequest Luck)
    (h : stillVerified c e = true) : Allows (fun _ => True) StillVerified c e := by
  cases e with
  | start t request => trivial
  | step t i =>
    rw [Allows]
    split
    · rename_i request start op next htask
      cases op with
      | update id item =>
        rw [stillVerified, htask] at h
        dsimp only at h
        cases hrow : c.world.store.credentials.get id with
        | none =>
          rw [hrow] at h
          cases h
        | some row =>
          rw [hrow] at h
          refine ⟨row, hrow, fun userID credentials seen hmem hseen => ?_⟩
          have hlisted : credentials ∈ listings c.world.log t := List.mem_filterMap.mpr ⟨_, hmem, if_pos rfl⟩
          have hcount := List.all_eq_true.mp h credentials hlisted
          rw [hseen] at hcount
          exact of_decide_eq_true hcount
      | _ => trivial
    · trivial

def loginThenDelete : List (Event ServedRequest Luck) :=
  beginningLogin 0 ++ [finishingLogin 1 0 5] ++ passkeySteps 1 6 ++ deleting 2

theorem passkeys_evolve_consecutive :
    ∃ c c', (@passkeys asciiTables (samplePasskeyEnv false)).run (Config.init onePasskey) loginThenDelete = some c ∧
      (@passkeys asciiTables (samplePasskeyEnv false)).run c (beginningLogin 3) = some c' ∧
      HasDeleted c 2 1 1 ∧ c'.world.store.credentials.get 1 = none := by
  have hverified : (@passkeys asciiTables (samplePasskeyEnv false)).Along (Allows (fun _ => True) StillVerified)
      (Config.init onePasskey) (loginThenDelete ++ beginningLogin 3) := along_of_checks stillVerified_sound rfl
  refine ⟨_, _, rfl, rfl, ⟨_, rfl, rfl, rfl⟩, ?_⟩
  exact (@passkeys_evolve asciiTables (samplePasskeyEnv false) onePasskey loginThenDelete
    (beginningLogin 3) _ _ hverified
    rfl rfl).1 2 1 1 ⟨_, rfl, rfl, rfl⟩

end Portlyn.Auth.Passkeys
