import Portlyn.Http.Users

/-! # The last administrator

The handlers count the other admins and write in a later statement, and a sign-in writes roles
without counting. `activeAdmin_remains` says under which conditions on the schedule there is an
active admin at every moment. -/
namespace Portlyn.Http
open Go Domain Lib Lib.Interleave Auth
set_option autoImplicit false

def ActiveAdmin (users : Table UserRow) (id : ℕ) : Prop := ∃ row, users.get id = some row ∧ IsActiveAdmin row

def changesAdmins : Op → Bool
  | .users (.updateFieldsIf _ _ _ _ fields) => .role ∈ fields || .active ∈ fields
  | .users (.updateColumns _ _ fields) => .role ∈ fields || .active ∈ fields
  | .users (.delete _) => true
  | _ => false

/-! ## One statement -/

section Statements
variable [UnicodeTables] (env : Env) (op : Op) (i : Chance) {s : Store} {id : ℕ}

theorem activeAdmin_step (h : ActiveAdmin s.users id) :
    ActiveAdmin (Op.exec env op i s).2.users id ∨
    (∃ uop source fields row, op = .users uop ∧ uop.written = some (id, source, fields) ∧
      (.role ∈ fields ∨ .active ∈ fields) ∧
      s.users.get id = some row ∧ (Op.exec env op i s).2.users.get id =
        some (row.withColumns source fields)) ∨
    op = .users (.delete id) := by
  obtain ⟨row, hget, hadmin⟩ := h
  rcases users_cases env op i s with
    hsame | ⟨id', time, hlogin⟩ | ⟨uop, id', source, fields, -, hop, hwritten, -, hupdate⟩
      | ⟨user, -, hcreate⟩ | ⟨id', hop, hdelete⟩
  · exact Or.inl ⟨row, hsame ▸ hget, hadmin⟩
  · have hafter := Table.get_update_some (fun id'' _ => id'' = id')
      (fun row => { row with lastLoginAt := some time }) hget
    rw [← hlogin] at hafter
    refine Or.inl ⟨_, hafter, ?_⟩
    split_ifs <;> exact hadmin
  · have hafter := Table.get_update_some (fun id'' _ => id'' = id') (fun row => row.withColumns source fields) hget
    rw [← hupdate] at hafter
    by_cases hid : id = id'
    · subst hid
      rw [if_pos (decide_eq_true rfl)] at hafter
      by_cases hfields : .role ∈ fields ∨ .active ∈ fields
      · exact Or.inr (Or.inl ⟨uop, source, fields, row, hop, hwritten, hfields, hget, hafter⟩)
      · rw [not_or] at hfields
        refine Or.inl ⟨_, hafter, ?_, ?_⟩
        · exact (withColumns_role row source fields).trans ((if_neg hfields.1).trans hadmin.1)
        · exact (withColumns_active row source fields).trans ((if_neg hfields.2).trans hadmin.2)
    · rw [if_neg fun heq => hid (of_decide_eq_true heq)] at hafter
      exact Or.inl ⟨row, hafter, hadmin⟩
  · refine Or.inl ⟨row, ?_, hadmin⟩
    rw [hcreate]
    exact Table.get_insert_of_some user hget
  · by_cases hid : id = id'
    · subst hid
      exact Or.inr (Or.inr hop)
    · refine Or.inl ⟨row, ?_, hadmin⟩
      rw [hdelete, Table.get_delete_of_ne _ hid]
      exact hget

theorem activeAdmin_of_quiet (h : ActiveAdmin s.users id) (hop : changesAdmins op = false) :
    ActiveAdmin (Op.exec env op i s).2.users id := by
  rcases activeAdmin_step env op i h with h | ⟨uop, source, fields, row, rfl, hwritten, hfields, -⟩ | rfl
  · exact h
  · cases uop with
    | updateFieldsIf _ _ _ _ _ =>
      cases hwritten
      simp only [changesAdmins, Bool.or_eq_false_iff, decide_eq_false_iff_not] at hop
      exact absurd hfields (not_or.mpr hop)
    | updateColumns _ _ _ =>
      cases hwritten
      simp only [changesAdmins, Bool.or_eq_false_iff, decide_eq_false_iff_not] at hop
      exact absurd hfields (not_or.mpr hop)
    | _ => cases hwritten
  · cases hop

end Statements

/-! ## The condition -/

/-- A handler writes or deletes the user `id` undisturbed: if the user is an active admin, it was
one when the handler loaded it, and since the handler counted the others no statement has written a
role or a status or deleted a user. -/
structure Undisturbed (t id : ℕ) (w : AuthWorld) : Prop where
  asLoaded : ActiveAdmin w.store.users id → ∀ row, Loaded t w.log id row → IsActiveAdmin row
  sinceCount : ∀ n later earlier, w.log = later ++ (⟨t, .users (.countActiveAdmins id), .ok n⟩ : Entry Ans) :: earlier →
    ∀ e ∈ later, changesAdmins e.op = false

/-- A sign-in that gives the user `id` the role does not take it from the only active admin. -/
def Spares (users : Table UserRow) (id : ℕ) (role : Role) : Prop :=
  ActiveAdmin users id → role ≠ .admin → ∃ id', id' ≠ id ∧ ActiveAdmin users id'

def AdminsKept (t : ℕ) (op : Op) (_ : Chance) (w : AuthWorld) : Prop :=
  match op with
  | .users (.updateFieldsIf id user _ _ fields) =>
    (.role ∈ fields → IsSignIn t w.log → Spares w.store.users id user.role) ∧
      (.role ∈ fields ∨ .active ∈ fields → ¬ IsSignIn t w.log → Undisturbed t id w)
  | .users (.updateColumns id values fields) => .role ∈ fields → Spares w.store.users id values.role
  | .users (.delete id) => Undisturbed t id w
  | _ => True

/-! ## The invariant -/

/-- There is an active admin, and a count of others is worth something as long as nothing has
changed since. -/
structure AdminsInv (w : AuthWorld) : Prop where
  admin : ∃ id, ActiveAdmin w.store.users id
  counted : ∀ t id n later earlier, w.log = later ++
    (⟨t, .users (.countActiveAdmins id), .ok n⟩ : Entry Ans) :: earlier →
    n ≠ 0 → (∀ e ∈ later, changesAdmins e.op = false) → ∃ id', id' ≠ id ∧ ActiveAdmin w.store.users id'

section Steps

theorem IsActiveAdmin.withColumns {row source : UserRow} {fields : List UserColumn}
    (h : IsActiveAdmin row) (hrole : .role ∈ fields → source.role = .admin)
    (hactive : .active ∈ fields → source.active = true) :
    IsActiveAdmin (row.withColumns source fields) := by
  refine ⟨(withColumns_role row source fields).trans ?_, (withColumns_active row source fields).trans ?_⟩
  · split_ifs with hmem
    · exact hrole hmem
    · exact h.1
  · split_ifs with hmem
    · exact hactive hmem
    · exact h.2

variable [UnicodeTables] {env : Env} {w : AuthWorld} {t id : ℕ} {op : Op} {i : Chance}

omit [UnicodeTables] in
theorem isSignIn_log : IsSignIn t (w.own t) ↔ IsSignIn t w.log :=
  exists_congr fun _ => exists_congr fun _ => mem_own.trans (and_iff_left rfl)

omit [UnicodeTables] in
theorem Guarded.other {kept : Prop} (hguard : Guarded t (w.own t) id kept) (hinv : AdminsInv w)
    (hcond : Undisturbed t id w) (hadmin : ActiveAdmin w.store.users id) :
    kept ∨ ∃ id', id' ≠ id ∧ ActiveAdmin w.store.users id' := by
  obtain ⟨-, row, ⟨k, hload⟩, hguard⟩ := hguard
  refine (hguard (hcond.asLoaded hadmin row ⟨k, (mem_own.mp hload).1⟩)).imp_right ?_
  rintro ⟨n, hmem, hn⟩
  obtain ⟨later, earlier, hlog⟩ := List.append_of_mem (mem_own.mp hmem).1
  exact hinv.counted t id n later earlier hlog hn (hcond.sinceCount n later earlier hlog)

theorem activeAdmin_other
    (hop : ∀ uop, op = .users uop → (∃ source fields, uop.written = some (id, source, fields)) ∨
      uop = .delete id)
    (h : ∃ id', id' ≠ id ∧ ActiveAdmin w.store.users id') :
    ∃ id', ActiveAdmin (Op.exec env op i w.store).2.users id' := by
  obtain ⟨id', hne, hadmin⟩ := h
  refine ⟨id', (activeAdmin_step env op i hadmin).resolve_right ?_⟩
  rintro (⟨uop, source, fields, row, rfl, hwritten, -⟩ | rfl)
  · rcases hop uop rfl with ⟨source', fields', hwritten'⟩ | rfl
    · rw [hwritten, Option.some.injEq, Prod.mk.injEq] at hwritten'
      exact hne hwritten'.1
    · cases hwritten
  · rcases hop _ rfl with ⟨source', fields', hwritten'⟩ | heq
    · cases hwritten'
    · exact hne (UserOp.delete.inj heq)

omit [UnicodeTables] in
theorem Spares.kept {row source : UserRow} {fields : List UserColumn}
    (h : Spares w.store.users id source.role) (hget : w.store.users.get id = some row)
    (hrow : IsActiveAdmin row) (hactive : .active ∉ fields) :
    IsActiveAdmin (row.withColumns source fields) ∨ ∃ id', id' ≠ id ∧
      ActiveAdmin w.store.users id' := by
  by_cases hrole : source.role = .admin
  · exact Or.inl (hrow.withColumns (fun _ => hrole) fun hmem => absurd hmem hactive)
  · exact Or.inr (h ⟨row, hget, hrow⟩ hrole)

theorem admin_step (hinv : AdminsInv w) (hlaw : UserLaw t (w.own t) op)
    (hcond : AdminsKept t op i w) : ∃ id, ActiveAdmin (Op.exec env op i w.store).2.users id := by
  obtain ⟨id, hadmin⟩ := hinv.admin
  rcases activeAdmin_step env op i hadmin with h | ⟨uop, source, fields, row, rfl, hwritten,
    hfields, hget, hafter⟩ | rfl
  · exact ⟨id, h⟩
  · have hrow : IsActiveAdmin row := by
      obtain ⟨row', hget', hrow'⟩ := hadmin
      rw [hget, Option.some.injEq] at hget'
      exact hget' ▸ hrow'
    have hkept : IsActiveAdmin (row.withColumns source fields) ∨ ∃ id', id' ≠ id ∧ ActiveAdmin w.store.users id' := by
      cases uop with
      | updateFieldsIf _ _ _ _ _ =>
        cases hwritten
        rcases hlaw with ⟨hsign, hactive⟩ | hguard
        · exact (hcond.1 (hfields.resolve_right hactive) (isSignIn_log.mp hsign)).kept hget hrow hactive
        · have hundisturbed := hcond.2 hfields fun hsign => hguard.1 (isSignIn_log.mpr hsign)
          refine (hguard.other hinv hundisturbed hadmin).imp_left fun hsource => ?_
          exact hrow.withColumns (fun _ => hsource.1) fun _ => hsource.2
      | updateColumns _ _ _ =>
        cases hwritten
        exact (hcond (hfields.resolve_right hlaw.2)).kept hget hrow hlaw.2
      | _ => cases hwritten
    rcases hkept with hafter' | hother
    · exact ⟨id, _, hafter, hafter'⟩
    · refine activeAdmin_other (fun uop' heq => Or.inl ⟨source, fields, ?_⟩) hother
      rw [← Op.users.inj heq]
      exact hwritten
  · obtain hother := (Guarded.other hlaw hinv hcond hadmin).resolve_left not_false
    exact activeAdmin_other (fun uop heq => Or.inr (Op.users.inj heq).symm) hother

theorem counted_step (hinv : AdminsInv w) (u k n : ℕ) (later earlier : UserHistory)
    (hlog : (w.step (Op.exec env) t op i).log = later ++
      (⟨u, .users (.countActiveAdmins k), .ok n⟩ : Entry Ans) :: earlier)
    (hn : n ≠ 0) (hquiet : ∀ e ∈ later, changesAdmins e.op = false) :
    ∃ id', id' ≠ k ∧ ActiveAdmin (Op.exec env op i w.store).2.users id' := by
  cases later with
  | nil =>
    obtain ⟨-, hop, hans⟩ := Entry.mk.inj (List.cons.inj hlog).1
    subst hop
    obtain ⟨hval, hstep⟩ := users_ok (eq_of_heq hans)
    have hcount : w.store.users.count (fun id row => row.role = .admin && row.active && id ≠ k) =
      n := Except.ok.inj hval
    obtain ⟨id', row, hget, hrow⟩ := Table.count_pos.mp (Nat.pos_of_ne_zero (hcount ▸ hn))
    simp only [Bool.and_eq_true, decide_eq_true_eq] at hrow
    refine ⟨id', hrow.2, activeAdmin_of_quiet env _ i ⟨row, hget, hrow.1⟩ rfl⟩
  | cons e later =>
    obtain ⟨rfl, hrest⟩ := List.cons.inj hlog
    obtain ⟨id', hne, hadmin⟩ := hinv.counted u k n later earlier hrest hn fun e he =>
      hquiet e (List.mem_cons_of_mem _ he)
    exact ⟨id', hne, activeAdmin_of_quiet env op i hadmin (hquiet _ List.mem_cons_self)⟩

theorem adminsInv_step : Keeps (Op.exec env) UserLaw AdminsKept AdminsInv :=
  fun _ _ _ _ hinv hlaw hcond =>
  ⟨admin_step hinv hlaw hcond, fun u k n later earlier hlog => counted_step hinv u k n later earlier hlog⟩

/-- There is an active admin at every moment, in every run whose statements all meet the condition.
-/
theorem activeAdmin_remains (env : Env) (s : Store) (hadmin : ∃ id, ActiveAdmin s.users id)
    (events : List (Event UserRequest Chance)) (c : Config Ans Store UserRequest UserAnswer)
    (hcond : (accounts env).Along (Allows (fun _ => True) AdminsKept) (Config.init s) events)
    (hrun : (accounts env).run (Config.init s) events = some c) : ∃ id, ActiveAdmin c.world.store.users id := by
  have hprog : ∀ t request, True → ((accounts env).prog t request).Obeys t (UserLaw t)
    (fun own => UserOutcome t own request) [] :=
    fun t request _ => userCallOf_obeys env request
  have hinit : AdminsInv ⟨s, []⟩ := ⟨hadmin, fun _ _ _ later _ hlog => by cases later <;> cases hlog⟩
  exact (lawful_run (accounts env) hprog adminsInv_step hinit hcond hrun).1.admin

end Steps

/-! ## Two admins, and one -/

def sampleAdmin : UserRow := { sampleUser with role := .admin, mfaEnabled := false }

def twoAdmins : Store :=
  { sampleStore sampleAdmin .empty with users :=
    (Table.empty.insert sampleAdmin).insert { sampleAdmin with email := [0x62] } }

def oneDeleted : List (Event UserRequest Chance) := .start 0 (.deleteUser 1) :: userSteps 0 3

theorem undisturbed_delete {w : AuthWorld}
    (hlog : w.log = [⟨0, .users (.countActiveAdmins 1), .ok 1⟩, ⟨0, .users (.getByID 1), .ok (1, sampleAdmin)⟩]) :
    Undisturbed 0 1 w := by
  refine ⟨fun _ row hload => ?_, fun n later earlier hsplit e he => ?_⟩
  · obtain ⟨k, hmem⟩ := hload
    rw [hlog] at hmem
    rcases List.mem_cons.mp hmem with heq | hmem
    · cases congrArg Entry.op heq
    · obtain ⟨-, hop, hans⟩ := Entry.mk.inj (List.mem_singleton.mp hmem)
      cases hop
      cases eq_of_heq hans
      exact ⟨rfl, rfl⟩
  · rw [hlog] at hsplit
    have hmem : e ∈ [(⟨0, .users (.countActiveAdmins 1), .ok 1⟩ : Entry Ans),
      ⟨0, .users (.getByID 1), .ok (1, sampleAdmin)⟩] := by
      rw [hsplit]
      exact List.mem_append_left _ he
    rcases List.mem_cons.mp hmem with rfl | hmem
    · rfl
    · rw [List.mem_singleton.mp hmem]
      rfl

theorem activeAdmin_remains_oneDeleted :
    ∃ c, (@accounts asciiTables sampleEnv).run (Config.init twoAdmins) oneDeleted = some c ∧
      c.world.store.users.get 1 = none ∧ ∃ id, ActiveAdmin c.world.store.users id := by
  refine ⟨_, rfl, rfl, ?_⟩
  refine @activeAdmin_remains asciiTables sampleEnv twoAdmins ⟨1, sampleAdmin, rfl, rfl, rfl⟩ oneDeleted _ ?_ rfl
  refine along_cons trivial rfl (along_cons trivial rfl (along_cons trivial rfl (along_cons ?_ rfl trivial)))
  exact undisturbed_delete rfl

def activeAdmins (users : Table UserRow) : ℕ := users.count fun _ row => row.role = .admin && row.active

theorem not_activeAdmin_of_count {users : Table UserRow} (h : activeAdmins users = 0) :
    ¬ ∃ id, ActiveAdmin users id := by
  rintro ⟨id, row, hget, hadmin⟩
  have hpos : 0 < activeAdmins users := Table.count_pos.mpr ⟨id, row, hget, by rw [hadmin.1, hadmin.2]; rfl⟩
  exact absurd h (Nat.ne_of_gt hpos)

def bothDeleted : List (Event UserRequest Chance) :=
  .start 0 (.deleteUser 1) :: .start 1 (.deleteUser 2) :: userSteps 0 2 ++ userSteps 1 2 ++
    userSteps 0 1 ++ userSteps 1 1

def oneAdmin : Store :=
  sampleStore { sampleAdmin with authProvider := .oidc, authProviderRef := [0x73] } .empty

def managedRoles : OIDCConfig := { sampleOIDC with manageRoles := true }

def roleSynced : List (Event UserRequest Chance) :=
  .start 0 (.completeOIDC managedRoles sampleIdentity) :: userSteps 0 2

/-- The last admin is lost in both ways. -/
theorem lastAdmin_lost :
    ((∃ id, ActiveAdmin twoAdmins.users id) ∧
      ∃ c, (@accounts asciiTables sampleEnv).run (Config.init twoAdmins) bothDeleted = some c ∧
      ¬ ∃ id, ActiveAdmin c.world.store.users id) ∧
    (∃ id, ActiveAdmin oneAdmin.users id) ∧
      ∃ c, (@accounts asciiTables sampleEnv).run (Config.init oneAdmin) roleSynced = some c ∧
      ¬ ∃ id, ActiveAdmin c.world.store.users id := by
  refine ⟨⟨⟨1, sampleAdmin, rfl, rfl, rfl⟩, ?_⟩, ⟨1, _, rfl, rfl, rfl⟩, ?_⟩
  · have hrun : ((@accounts asciiTables sampleEnv).run (Config.init twoAdmins) bothDeleted).map
        (fun c => activeAdmins c.world.store.users) = some 0 := by decide +kernel
    obtain ⟨c, hc, hcount⟩ := Option.map_eq_some_iff.mp hrun
    exact ⟨c, hc, not_activeAdmin_of_count hcount⟩
  · have hrun : ((@accounts asciiTables sampleEnv).run (Config.init oneAdmin) roleSynced).map
        (fun c => activeAdmins c.world.store.users) = some 0 := by decide +kernel
    obtain ⟨c, hc, hcount⟩ := Option.map_eq_some_iff.mp hrun
    exact ⟨c, hc, not_activeAdmin_of_count hcount⟩

end Portlyn.Http
