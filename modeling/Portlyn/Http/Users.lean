import Portlyn.Auth.Oidc

/-! # The users of the console (`users.go`)

The handlers that change or delete a user, next to the sign-in with OpenID Connect, which changes
users too. A handler gets the body of its request decoded and validated, or `none` where that
failed. -/
namespace Portlyn.Http
open Go Domain Lib Lib.Interleave Auth
set_option autoImplicit false

structure UpdateUserRequest where
  email : Option GoString
  password : Option GoString
  role : Option Role
  active : Option Bool

/-- `lastAdminProtected` is answered when no other admin was counted, and also when counting failed.
-/
inductive UserAnswer
  | updated (user : UserRow)
  | deleted
  | notFound
  | invalidRequest
  | emailInUse
  | lastAdminProtected (e : Option StoreError)
  | internalError
  | signedIn (result : Except OIDCError (ℕ × LoginResult))

/-- `handleStoreError`. -/
def storeErrorAnswer : StoreError → UserAnswer
  | .notFound => .notFound
  | _ => .internalError

def preventRemovingLastActiveAdmin (userID : ℕ) (originalRole : Role) (originalActive : Bool) (nextRole : Role)
    (nextActive : Bool) : Call (Option UserAnswer) := do
  if originalRole ≠ .admin ∨ originalActive = false then return none
  else if nextRole = .admin ∧ nextActive = true then return none
  else
    match ← Users.countActiveAdmins userID with
    | .error e => return some (.lastAdminProtected (some e))
    | .ok count => if count = 0 then return some (.lastAdminProtected none) else return none

section Tables
variable [UnicodeTables] (env : Env) (t : ℕ)

def UpdateUserRequest.apply (req : UpdateUserRequest) (user : UserRow) (fields : List UserColumn) :
    UserRow × List UserColumn :=
  ({ user with role := req.role.getD user.role, active := req.active.getD user.active },
    fields ++ (if req.role.isSome then [.role] else []) ++ if req.active.isSome then [.active] else [])

/-- The end of `handleUpdateUser`: the guard, the password, the update. `user` is the row as it was
loaded but for the e-mail. -/
def saveUser (id : ℕ) (user : UserRow) (fields : List UserColumn) (req : UpdateUserRequest) : Call UserAnswer := do
  let next := req.apply user fields
  match ← preventRemovingLastActiveAdmin id user.role user.active next.1.role next.1.active with
  | some refused => return refused
  | none =>
    let save (user : UserRow) (fields : List UserColumn) : Call UserAnswer := do
      match ← Users.updateFields id user fields with
      | .error _ => return .internalError
      | .ok _ => return .updated user
    match req.password with
    | none => save next.1 next.2
    | some password =>
      if trimSpace password = [] then save next.1 next.2
      else
        match env.bcryptHash t password with
        | none => return .internalError
        | some hash =>
          save { next.1 with passwordHash := hash, mustChangePassword := true }
            (next.2 ++ [.passwordHash, .mustChangePassword])

def handleUpdateUser (id : ℕ) (body : Option UpdateUserRequest) : Call UserAnswer := do
  match ← Users.getByID id with
  | .error e => return storeErrorAnswer e
  | .ok (id, user) =>
    match body with
    | none => return .invalidRequest
    | some req =>
      match req.email with
      | none => saveUser env t id user [] req
      | some email =>
        let email := toLower (trimSpace email)
        match ← Users.getByEmail email with
        | .error .notFound => saveUser env t id { user with email := email } [.email] req
        | .error _ => return .internalError
        | .ok (existingID, _) =>
          if existingID ≠ id then return .emailInUse
          else saveUser env t id { user with email := email } [.email] req

def handleDeleteUser (id : ℕ) : Call UserAnswer := do
  match ← Users.getByID id with
  | .error e => return storeErrorAnswer e
  | .ok (id, user) =>
    match ← preventRemovingLastActiveAdmin id user.role user.active (.other []) false with
    | some refused => return refused
    | none =>
      match ← Users.delete id with
      | .error e => return storeErrorAnswer e
      | .ok _ => return .deleted

inductive UserRequest
  | updateUser (id : ℕ) (body : Option UpdateUserRequest)
  | deleteUser (id : ℕ)
  | completeOIDC (cfg : OIDCConfig) (identity : OIDCIdentity)

def userCallOf : UserRequest → Call UserAnswer
  | .updateUser id body => handleUpdateUser env t id body
  | .deleteUser id => handleDeleteUser id
  | .completeOIDC cfg identity => do
    let result ← completeOIDC env t cfg identity
    return .signedIn result

def accounts : System Ans Store Chance UserRequest UserAnswer where
  exec := Op.exec env
  prog := fun t request => userCallOf env t request

end Tables

/-! ## What a call does -/

abbrev UserHistory := List (Entry Ans)

section Laws
variable (t : ℕ) (own : UserHistory)

def Loaded (id : ℕ) (row : UserRow) : Prop :=
  ∃ k, (⟨t, .users (.getByID k), .ok (id, row)⟩ : Entry Ans) ∈ own

/-- The call has counted admins other than `id`. -/
def Counted (id : ℕ) : Prop := ∃ n, (⟨t, .users (.countActiveAdmins id), .ok n⟩ : Entry Ans) ∈ own ∧ n ≠ 0

def IsSignIn : Prop := ∃ ref ans, (⟨t, .users (.getByProviderRef .oidc ref), ans⟩ : Entry Ans) ∈ own

def IsActiveAdmin (row : UserRow) : Prop := row.role = .admin ∧ row.active = true

/-- What a handler knows when it writes role or status of the user `id`, or deletes it: if it has
loaded an active admin, then `kept` says that the write leaves one, or it has counted others. -/
def Guarded (id : ℕ) (kept : Prop) : Prop :=
  ¬ IsSignIn t own ∧ ∃ row, Loaded t own id row ∧ (IsActiveAdmin row → kept ∨ Counted t own id)

def UserLaw : Op → Prop
  | .users (.updateFieldsIf id user _ _ fields) =>
    IsSignIn t own ∧ .active ∉ fields ∨ Guarded t own id (IsActiveAdmin user)
  | .users (.updateColumns _ _ fields) => IsSignIn t own ∧ .active ∉ fields
  | .users (.delete id) => Guarded t own id False
  | _ => True

/-! ## How a sign-in comes to its user -/

def FoundBySubject (identity : OIDCIdentity) (id : ℕ) (row : UserRow) : Prop :=
  (⟨t, .users (.getByProviderRef .oidc (trimSpace identity.subject)), .ok (id, row)⟩ : Entry Ans) ∈ own

section Tables
variable [UnicodeTables]

def FoundByEmail (identity : OIDCIdentity) (id : ℕ) (row : UserRow) : Prop :=
  (⟨t, .users (.getByEmail identity.normalizedEmail), .ok (id, row)⟩ : Entry Ans) ∈ own

def CreatedFor (cfg : OIDCConfig) (identity : OIDCIdentity) (id : ℕ) : Prop :=
  (⟨t, .users (.create (createdUser cfg identity)), .ok id⟩ : Entry Ans) ∈ own

/-- The user `id` is the one that was found or created, and a user found by its e-mail may be
linked. -/
structure Resolved (cfg : OIDCConfig) (identity : OIDCIdentity) (id : ℕ) : Prop where
  user : (∃ row, FoundBySubject t own identity id row) ∨
    (∃ row, FoundByEmail t own identity id row) ∨ CreatedFor t own cfg identity id
  subject : trimSpace identity.subject ≠ []
  only : ∀ id' row, FoundBySubject t own identity id' row → id' = id
  linked : ∀ id' row, FoundByEmail t own identity id' row → id' = id ∧ linkDenied cfg identity row = false

def UserOutcome : UserRequest → UserAnswer → Prop
  | .completeOIDC cfg identity, .signedIn (.ok (id, _)) =>
    Resolved t own cfg identity id ∧ cfg.validateAllowedEmailDomain identity.normalizedEmail = true
  | _, _ => True

end Tables

/-! ## All calls keep to that -/

variable {t own}

theorem not_isSignIn_cons {e : Entry Ans} (h : ¬ IsSignIn t own)
    (he : ∀ ref, e.op ≠ .users (.getByProviderRef .oidc ref)) : ¬ IsSignIn t (e :: own) := by
  rintro ⟨ref, ans, hmem⟩
  rcases List.mem_cons.mp hmem with heq | hmem
  · exact he ref (congrArg Entry.op heq).symm
  · exact h ⟨ref, ans, hmem⟩

theorem Loaded.cons {e : Entry Ans} {id : ℕ} {row : UserRow} (h : Loaded t own id row) :
    Loaded t (e :: own) id row := by
  obtain ⟨k, hmem⟩ := h
  exact ⟨k, List.mem_cons_of_mem _ hmem⟩

theorem obeys_preventRemoving {id : ℕ} {row : UserRow} (hown : ¬ IsSignIn t own) (hload : Loaded t own id row)
    (nextRole : Role) (nextActive : Bool) :
    (preventRemovingLastActiveAdmin id row.role row.active nextRole nextActive).Obeys t (UserLaw t)
      (fun own' refused => refused = none → Guarded t own' id (nextRole = .admin ∧ nextActive = true)) own := by
  refine obeys_ite (fun hnot _ => ⟨hown, row, hload, fun hadmin => ?_⟩) fun _ => ?_
  · exact (hnot.elim (fun h => h hadmin.1) fun h => Bool.false_ne_true (h.symm.trans hadmin.2)).elim
  refine obeys_ite (fun hnext _ => ⟨hown, row, hload, fun _ => Or.inl hnext⟩) fun _ => ?_
  refine obeys_op trivial fun counted => ?_
  obtain _ | n := counted
  · exact fun h => by cases h
  refine obeys_ite (fun _ h => by cases h) fun hn _ => ?_
  exact ⟨not_isSignIn_cons hown nofun, row, hload.cons, fun _ => Or.inr ⟨n, List.mem_cons_self, hn⟩⟩

theorem obeys_updateFields {id : ℕ} {user : UserRow} (h : Guarded t own id (IsActiveAdmin user))
    (fields : List UserColumn) :
    (do
      match ← Users.updateFields id user fields with
      | .error _ => return .internalError
      | .ok _ => return .updated user : Call UserAnswer).Obeys t (UserLaw t) (fun _ _ => True) own := by
  refine obeys_op (Or.inr h) fun saved => ?_
  cases saved <;> trivial

theorem obeys_saveUser {id : ℕ} {row user : UserRow} (hown : ¬ IsSignIn t own)
    (hload : Loaded t own id row) (hrole : user.role = row.role)
    (hactive : user.active = row.active) (env : Env) (fields : List UserColumn)
    (req : UpdateUserRequest) :
    (saveUser env t id user fields req).Obeys t (UserLaw t) (fun _ _ => True) own := by
  unfold saveUser
  rw [hrole, hactive]
  refine obeys_bind ((obeys_preventRemoving hown hload _ _).imp fun own₁ refused hguard => ?_)
  cases refused with
  | some refused => trivial
  | none =>
    have hguarded : Guarded t own₁ id (IsActiveAdmin (req.apply user fields).1) := hguard rfl
    cases req.password with
    | none => exact obeys_updateFields hguarded _
    | some password =>
      refine obeys_ite (fun _ => obeys_updateFields hguarded _) fun _ => ?_
      cases env.bcryptHash t password with
      | none => trivial
      | some hash =>
        refine obeys_updateFields ?_ _
        exact hguarded

theorem firstLoad (t id : ℕ) (found : ℕ × UserRow) :
    ¬ IsSignIn t [⟨t, .users (.getByID id), .ok found⟩] ∧
      Loaded t [⟨t, .users (.getByID id), .ok found⟩] found.1 found.2 := by
  refine ⟨not_isSignIn_cons ?_ nofun, id, List.mem_cons_self⟩
  rintro ⟨_, _, hmem⟩
  exact absurd hmem List.not_mem_nil

theorem obeys_handleUpdateUser [UnicodeTables] (env : Env) (id : ℕ) (body : Option UpdateUserRequest) :
    (handleUpdateUser env t id body).Obeys t (UserLaw t) (fun _ _ => True) [] := by
  refine obeys_op trivial fun found => ?_
  obtain _ | found := found
  · trivial
  obtain ⟨hown, hload⟩ := firstLoad t id found
  cases body with
  | none => trivial
  | some req =>
    dsimp only
    cases req.email with
    | none => exact obeys_saveUser hown hload rfl rfl env [] req
    | some email =>
      refine obeys_op trivial fun existing => ?_
      have hsave : (saveUser env t found.1 { found.2 with email := toLower (trimSpace email) }
          [.email] req).Obeys t (UserLaw t)
          (fun _ _ => True) [⟨t, .users (.getByEmail (toLower (trimSpace email))), existing⟩,
            ⟨t, .users (.getByID id), .ok found⟩] := by
        refine obeys_saveUser (not_isSignIn_cons hown ?_) hload.cons ?_ ?_ env [.email] req
        · exact nofun
        · rfl
        · rfl
      cases existing with
      | error e =>
        cases e with
        | notFound => exact hsave
        | _ => trivial
      | ok existing => exact obeys_ite (fun _ => trivial) fun _ => hsave

theorem obeys_handleDeleteUser (id : ℕ) : (handleDeleteUser id).Obeys t (UserLaw t) (fun _ _ => True) [] := by
  refine obeys_op trivial fun found => ?_
  obtain _ | found := found
  · trivial
  obtain ⟨hown, hload⟩ := firstLoad t id found
  refine obeys_bind ((obeys_preventRemoving hown hload _ _).imp fun own₁ refused hguard => ?_)
  cases refused with
  | some refused => trivial
  | none =>
    obtain ⟨hsign, row, hload, hcounted⟩ := hguard rfl
    refine obeys_op ⟨hsign, row, hload, fun hadmin => (hcounted hadmin).imp_left fun h => ?_⟩ fun deleted => ?_
    · exact Bool.false_ne_true h.2
    · cases deleted <;> trivial

theorem userLaw_of_completesLogin (own : UserHistory) (op : Op) (h : CompletesLogin op) : UserLaw t own op := by
  cases op with
  | users op => cases op <;> trivial
  | _ => trivial

section SignIn
variable [UnicodeTables] (env : Env) (cfg : OIDCConfig) (identity : OIDCIdentity)

def Resolves (t : ℕ) (own : UserHistory) (cfg : OIDCConfig) (identity : OIDCIdentity)
    (result : Except OIDCError (ℕ × UserRow)) : Prop := ∀ found, result = .ok found →
    Resolved t own cfg identity found.1

omit [UnicodeTables] in
theorem active_not_mem_linkedColumns : .active ∉ linkedColumns cfg := by
  unfold linkedColumns
  split_ifs <;> decide

omit [UnicodeTables] in
theorem active_not_mem_boundColumns : .active ∉ boundColumns cfg := by
  unfold boundColumns
  split_ifs <;> decide

def Unfound (t : ℕ) (own : UserHistory) (identity : OIDCIdentity) : Prop :=
  ∀ id row, ¬ FoundBySubject t own identity id row ∧ ¬ FoundByEmail t own identity id row

theorem unfound_cons {e : Entry Ans} (h : Unfound t own identity)
    (he : ∀ found : ℕ × UserRow, e ≠ ⟨t, .users (.getByProviderRef .oidc (trimSpace identity.subject)), .ok found⟩ ∧
      e ≠ ⟨t, .users (.getByEmail identity.normalizedEmail), .ok found⟩) : Unfound t (e :: own) identity := by
  refine fun id row => ⟨fun hfound => ?_, fun hfound => ?_⟩
  · exact (List.mem_cons.mp hfound).elim (fun heq => (he (id, row)).1 heq.symm) (h id row).1
  · exact (List.mem_cons.mp hfound).elim (fun heq => (he (id, row)).2 heq.symm) (h id row).2

theorem Unfound.resolved {id : ℕ} (h : Unfound t own identity) (hsubject : trimSpace identity.subject ≠ [])
    (hcreated : CreatedFor t own cfg identity id) : Resolved t own cfg identity id where
  user := Or.inr (Or.inr hcreated)
  subject := hsubject
  only := fun id' row hfound => absurd hfound (h id' row).1
  linked := fun id' row hfound => absurd hfound (h id' row).2

theorem obeys_createOIDCUser (hsubject : trimSpace identity.subject ≠ []) (hown : Unfound t own identity) :
    (createOIDCUser cfg identity).Obeys t (UserLaw t) (fun own' => Resolves t own' cfg identity) own := by
  refine obeys_op trivial fun created => ?_
  obtain _ | id := created
  · exact fun _ h => by cases h
  intro found h
  cases h
  have hown₁ : Unfound t (⟨t, .users (.create (createdUser cfg identity)), .ok id⟩ :: own) identity :=
    unfound_cons identity hown fun _ => ⟨nofun, nofun⟩
  exact hown₁.resolved cfg identity hsubject List.mem_cons_self

theorem obeys_linkOrCreateOIDCUser (hsubject : trimSpace identity.subject ≠ [])
    (hsign : IsSignIn t own) (hown : Unfound t own identity) :
    (linkOrCreateOIDCUser cfg identity).Obeys t (UserLaw t)
      (fun own' => Resolves t own' cfg identity) own := by
  refine obeys_ite (fun _ => obeys_createOIDCUser cfg identity hsubject hown) fun _ => obeys_op trivial fun found => ?_
  cases found with
  | ok found =>
    refine obeys_ite (fun _ _ h => by cases h) fun hlink => ?_
    have hsign₁ : IsSignIn t (⟨t, .users (.getByEmail identity.normalizedEmail), .ok found⟩ :: own) := by
      obtain ⟨ref, ans, hmem⟩ := hsign
      exact ⟨ref, ans, List.mem_cons_of_mem _ hmem⟩
    refine obeys_op (Or.inl ⟨hsign₁, active_not_mem_linkedColumns cfg⟩) fun saved => ?_
    obtain _ | _ := saved
    · exact fun _ h => by cases h
    intro result h
    cases h
    refine ⟨Or.inr (Or.inl ⟨found.2, List.mem_cons_of_mem _ List.mem_cons_self⟩), hsubject,
      fun id' row hfound => ?_, fun id' row hfound => ?_⟩
    · rcases List.mem_cons.mp hfound with heq | hmem
      · cases congrArg Entry.op heq
      · rcases List.mem_cons.mp hmem with heq | hmem
        · cases congrArg Entry.op heq
        · exact absurd hmem (hown id' row).1
    · rcases List.mem_cons.mp hfound with heq | hmem
      · cases congrArg Entry.op heq
      · rcases List.mem_cons.mp hmem with heq | hmem
        · obtain rfl : (id', row) = found := Except.ok.inj (eq_of_heq (Entry.mk.inj heq).2.2)
          exact ⟨rfl, Bool.eq_false_of_not_eq_true hlink⟩
        · exact absurd hmem (hown id' row).2
  | error e =>
    cases e with
    | notFound =>
      refine obeys_createOIDCUser cfg identity hsubject (unfound_cons identity hown fun found => ⟨nofun, fun heq => ?_⟩)
      cases eq_of_heq (Entry.mk.inj heq).2.2
    | _ => exact fun _ h => by cases h

theorem obeys_findOrCreateOIDCUser :
    (findOrCreateOIDCUser cfg identity).Obeys t (UserLaw t) (fun own' => Resolves t own' cfg identity) [] := by
  refine obeys_ite (fun _ _ h => by cases h) fun hsubject => obeys_op trivial fun found => ?_
  cases found with
  | ok found =>
    refine obeys_op ⟨⟨_, _, List.mem_cons_self⟩, active_not_mem_boundColumns cfg⟩ fun saved => ?_
    obtain _ | _ := saved
    · exact fun _ h => by cases h
    intro result h
    cases h
    refine ⟨Or.inl ⟨found.2, List.mem_cons_of_mem _ List.mem_cons_self⟩, hsubject,
      fun id' row hfound => ?_, fun id' row hfound => ?_⟩
    · rcases List.mem_cons.mp hfound with heq | hmem
      · cases congrArg Entry.op heq
      · have heq := List.mem_singleton.mp hmem
        obtain rfl : (id', row) = found := Except.ok.inj (eq_of_heq (Entry.mk.inj heq).2.2)
        rfl
    · rcases List.mem_cons.mp hfound with heq | hmem
      · cases congrArg Entry.op heq
      · cases congrArg Entry.op (List.mem_singleton.mp hmem)
  | error e =>
    cases e with
    | notFound =>
      refine obeys_linkOrCreateOIDCUser cfg identity hsubject ⟨_, _,
        List.mem_cons_self⟩ (unfound_cons identity ?_ fun found => ?_)
      · exact fun _ _ => ⟨List.not_mem_nil, List.not_mem_nil⟩
      · refine ⟨fun heq => ?_, nofun⟩
        cases eq_of_heq (Entry.mk.inj heq).2.2
    | _ => exact fun _ h => by cases h

theorem Resolved.append {cfg : OIDCConfig} {identity : OIDCIdentity} {id : ℕ}
    (h : Resolved t own cfg identity id) {more : UserHistory}
    (hmore : ∀ e ∈ more, CompletesLogin e.op) : Resolved t (more ++ own) cfg identity id := by
  have hold : ∀ e ∈ more ++ own, e.op.completesLogin = false → e ∈ own := by
    intro e he hop
    rcases List.mem_append.mp he with he | he
    · exact absurd (hop.symm.trans (hmore e he)) Bool.false_ne_true
    · exact he
  refine ⟨?_, h.subject, fun id' row hfound => h.only id' row (hold _ hfound rfl),
    fun id' row hfound => h.linked id' row (hold _ hfound rfl)⟩
  rcases h.user with ⟨row, hfound⟩ | ⟨row, hfound⟩ | hcreated
  · exact Or.inl ⟨row, List.mem_append_right _ hfound⟩
  · exact Or.inr (Or.inl ⟨row, List.mem_append_right _ hfound⟩)
  · exact Or.inr (Or.inr (List.mem_append_right _ hcreated))

theorem obeys_completeOIDC :
    (completeOIDC env t cfg identity).Obeys t (UserLaw t)
      (fun own' result => ∀ id login, result = .ok (id, login) →
        Resolved t own' cfg identity id ∧ cfg.validateAllowedEmailDomain identity.normalizedEmail = true) [] := by
  refine obeys_ite (fun _ _ _ h => by cases h) fun _ => obeys_ite (fun _ _ _ h => by cases h) fun hdomain => ?_
  have hvalid : cfg.validateAllowedEmailDomain identity.normalizedEmail = true := by
    cases hv : cfg.validateAllowedEmailDomain identity.normalizedEmail with
    | true => rfl
    | false => exact absurd (by rw [hv]; rfl) hdomain
  refine obeys_bind ((obeys_findOrCreateOIDCUser cfg identity).imp fun own₁ found hfound => ?_)
  obtain _ | found := found
  · exact fun _ _ h => by cases h
  refine obeys_ite (fun _ _ _ h => by cases h) fun _ => ?_
  refine obeys_bind ((obeys_of_all userLaw_of_completesLogin (all_completePrimaryLogin env found.1 found.2 _)).imp ?_)
  rintro own₂ login ⟨more, rfl, hmore⟩
  obtain _ | login := login
  · exact fun _ _ h => by cases h
  intro id login' h
  cases h
  exact ⟨(hfound found rfl).append hmore, hvalid⟩

theorem userCallOf_obeys (request : UserRequest) :
    (userCallOf env t request).Obeys t (UserLaw t) (fun own' => UserOutcome t own' request) [] := by
  cases request with
  | updateUser id body => exact (obeys_handleUpdateUser env id body).imp fun _ _ _ => trivial
  | deleteUser id => exact (obeys_handleDeleteUser id).imp fun _ _ _ => trivial
  | completeOIDC cfg identity =>
    refine obeys_bind ((obeys_completeOIDC env cfg identity).imp fun own₁ result h => ?_)
    cases result with
    | error e => trivial
    | ok result => exact h result.1 result.2 rfl

end SignIn

end Laws

/-! ## A provider to sign in with -/

def sampleOIDC : OIDCConfig where
  issuerURL := [0x69]
  allowedEmailDomains := []
  adminRoleClaimPath := []
  adminRoleValue := []
  allowEmailLinking := false
  requireVerifiedEmail := false
  manageRoles := false

def sampleIdentity : OIDCIdentity where
  subject := [0x73]
  email := [0x61]
  emailVerified := true
  name := []
  preferredUsername := []
  claims := []
  accessClaims := []

/-- The next `n` statements of a call. -/
def userSteps (t n : ℕ) : List (Event UserRequest Chance) := List.replicate n (.step t fine)

end Portlyn.Http
