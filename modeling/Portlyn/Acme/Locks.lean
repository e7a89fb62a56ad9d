import Portlyn.Acme.Storage
import Portlyn.Lib.Mutex

/-! # Locks of certmagic (`Lock`, `Unlock`, `RenewLockLease`)

A lock is a row with an owner and an end; the process remembers the owner under the name of the
lock. Any number of processes share the table, with one clock. A caller locks a name, and later
unlocks it; the leases are extended by calls of their own, which may be late or fail.
`locks_exclusive` says that there is never more than one row for a name, and under which condition
an unlock deletes no row but that of its own lock. -/
namespace Portlyn.Acme
open Go Lib.Interleave
set_option autoImplicit false

/-! ## The table and the processes -/

/-- `domain.DistributedLock`. -/
structure LockRow where
  name : GoString
  owner : GoString
  expiresAt : Instant
deriving DecidableEq

/-- `owners p` is the map of the process `p`; a name that is not in it has the empty owner. -/
structure LockStore where
  rows : List LockRow
  owners : ℕ → GoString → GoString
  clock : Instant

def LockStore.init (clock : Instant) : LockStore := ⟨[], fun _ _ => [], clock⟩

inductive LockOp
  | now
  | acquire (name owner : GoString) (now expiresAt : Instant)
  | recordLease (p : ℕ) (name owner : GoString)
  | currentOwner (p : ℕ) (name : GoString)
  | takeOwner (p : ℕ) (name : GoString)
  | extend (name owner : GoString) (expiresAt : Instant)
  | deleteLock (name owner : GoString)

/-- A transaction that fails answers `none`. A delete answers with the rows that it has deleted, so
that the log tells. -/
@[reducible]
def LockOp.Ans : LockOp → Type
  | .now => Instant
  | .acquire _ _ _ _ => Option Bool
  | .currentOwner _ _ | .takeOwner _ _ => GoString
  | .deleteLock _ _ => List LockRow
  | .recordLease _ _ _ | .extend _ _ _ => Unit

abbrev LockProg := Prog LockOp.Ans
abbrev LockEntry := Entry LockOp.Ans
abbrev LockWorld := World LockOp.Ans LockStore

structure LockChance where
  works : Bool
  now : Instant

def LockRow.is (name owner : GoString) (row : LockRow) : Bool := row.name = name && row.owner = owner

def setOwner (owners : ℕ → GoString → GoString) (p : ℕ) (name owner : GoString) : ℕ → GoString → GoString :=
  Function.update owners p (Function.update (owners p) name owner)

def LockStore.exec : Semantics LockOp.Ans LockStore LockChance
  | .now, i, s => (max s.clock i.now, { s with clock := max s.clock i.now })
  | .acquire name owner now expiresAt, i, s =>
    if i.works then
      let rows := s.rows.filter fun row => now < row.expiresAt
      -- the index on the name is unique, and a conflict inserts nothing
      if rows.any fun row => row.name = name then (some false, { s with rows := rows })
      else (some true, { s with rows := ⟨name, owner, expiresAt⟩ :: rows })
    else (none, s)
  | .recordLease p name owner, _, s => ((), { s with owners := setOwner s.owners p name owner })
  | .currentOwner p name, _, s => (s.owners p name, s)
  | .takeOwner p name, _, s => (s.owners p name, { s with owners := setOwner s.owners p name [] })
  | .extend name owner expiresAt, i, s =>
    if i.works then
      ((), { s with rows := s.rows.map fun row => if row.is name owner then
        { row with expiresAt := expiresAt } else row })
    else ((), s)
  | .deleteLock name owner, i, s =>
    if i.works then (s.rows.filter (LockRow.is name owner),
      { s with rows := s.rows.filter fun row => !row.is name owner }) else ([], s)

/-! ## The calls -/

/-- `randomOwner t n` is what the call `t` draws when it may try `n` times more. -/
structure LockEnv where
  lockTTL : ℤ
  randomOwner : ℕ → ℕ → GoString

section Calls
variable (env : LockEnv)

def lockStmt (op : LockOp) : LockProg op.Ans := Prog.op op

/-- `Lock` with a cleaned name in the process `p`, until the context is done: whether the lock was
acquired. -/
def lock (t p : ℕ) (name : GoString) : ℕ → LockProg Bool
  | 0 => return false
  | n + 1 => do
    let now ← lockStmt .now
    match ← lockStmt (.acquire name (env.randomOwner t n) now (now + env.lockTTL)) with
    | none => return false
    | some true =>
      let _ ← lockStmt (.recordLease p name (env.randomOwner t n))
      return true
    | some false => lock t p name n

def unlock (p : ℕ) (name : GoString) : LockProg Unit := do
  let owner ← lockStmt (.takeOwner p name)
  if owner = [] then return ()
  else
    let _ ← lockStmt (.deleteLock name owner)
    return ()

def renewLockLease (p : ℕ) (name : GoString) (leaseDuration : ℤ) : LockProg Unit := do
  let owner ← lockStmt (.currentOwner p name)
  if owner = [] then return ()
  else
    let now ← lockStmt .now
    let _ ← lockStmt (.extend name owner (now + if leaseDuration ≤ 0 then env.lockTTL else leaseDuration))
    return ()

def renewLease (name owner : GoString) : ℕ → LockProg Unit
  | 0 => return ()
  | n + 1 => do
    let now ← lockStmt .now
    let _ ← lockStmt (.extend name owner (now + env.lockTTL))
    renewLease name owner n

/-- A caller of the process `p` that locks the name, with so many attempts, and then unlocks it; a
call of `RenewLockLease`; and the goroutine of a lease, which may go on after it was cancelled. -/
inductive LockCall
  | session (p : ℕ) (name : GoString) (attempts : ℕ)
  | renewLockLease (p : ℕ) (name : GoString) (leaseDuration : ℤ)
  | renewLease (name owner : GoString) (ticks : ℕ)

def lockSystem : System LockOp.Ans LockStore LockChance LockCall Unit where
  exec := LockStore.exec
  prog := fun t call =>
    match call with
    | .session p name attempts => do
      if ← lock env t p (cleanKey name) attempts then unlock p (cleanKey name) else return ()
    | .renewLockLease p name leaseDuration => renewLockLease env p (cleanKey name) leaseDuration
    | .renewLease name owner ticks => renewLease env name owner ticks

end Calls

/-! ## The log -/

def acquired : LockEntry → Option (GoString × GoString)
  | ⟨_, .acquire name owner _ _, some true⟩ => some (name, owner)
  | _ => none

def deletedRows : LockEntry → List LockRow
  | ⟨_, .deleteLock _ _, rows⟩ => rows
  | _ => []

def leaseHolder (p : ℕ) (name : GoString) : List LockEntry → Option ℕ
  | [] => none
  | e :: log =>
    match e.op with
    | .recordLease p' name' _ => if p' = p ∧ name' = name then some e.call else leaseHolder p name log
    | .takeOwner p' name' => if p' = p ∧ name' = name then none else leaseHolder p name log
    | _ => leaseHolder p name log

/-! ## The property and the condition -/

def AtMostOne (s : LockStore) : Prop :=
  ∀ name, (s.rows.filter fun row => row.name = name && s.clock < row.expiresAt).length ≤ 1

def DeletesOwn (log : List LockEntry) : Prop :=
  ∀ e ∈ log, ∀ row ∈ deletedRows e,
    (∃ e' ∈ log, acquired e' = some (row.name, row.owner)) ∧
    ∀ e' ∈ log, acquired e' = some (row.name, row.owner) → e'.call = e.call

/-- When a call unlocks a name, the lease that the process has recorded for it is that of the call,
or there is none. -/
def unlocksOwnLease (t : ℕ) (op : LockOp) (w : LockWorld) : Bool :=
  match op with
  | .takeOwner p name => (leaseHolder p name w.log).all (· = t)
  | _ => true

/-! ## One row for a name -/

def NamesDistinct (rows : List LockRow) : Prop := rows.Pairwise fun a b => a.name ≠ b.name

theorem namesDistinct_exec (op : LockOp) (i : LockChance) {s : LockStore}
    (h : NamesDistinct s.rows) : NamesDistinct (LockStore.exec op i s).2.rows := by
  cases op with
  | acquire name owner now expiresAt =>
    rw [LockStore.exec]
    split
    · dsimp only
      have hlive : NamesDistinct (s.rows.filter fun row => now < row.expiresAt) := h.filter _
      split
      · exact hlive
      · rename_i hfree
        refine List.pairwise_cons.mpr ⟨fun row hrow heq => hfree ?_, hlive⟩
        exact List.any_eq_true.mpr ⟨row, hrow, decide_eq_true heq.symm⟩
    · exact h
  | extend name owner expiresAt =>
    rw [LockStore.exec]
    split
    · refine List.pairwise_map.mpr (h.imp fun {a b} hne => ?_)
      -- the names stay
      have hname : ∀ row :
        LockRow, (if row.is name owner then { row with expiresAt := expiresAt } else row).name =
        row.name := by
        intro row
        split <;> rfl
      rw [hname, hname]
      exact hne
    · exact h
  | deleteLock name owner =>
    rw [LockStore.exec]
    split
    · exact h.filter _
    · exact h
  | _ => exact h

theorem NamesDistinct.length_le_one {rows : List LockRow} (h : NamesDistinct rows) (name : GoString)
    (hname : ∀ row ∈ rows, row.name = name) : rows.length ≤ 1 := by
  cases rows with
  | nil => exact Nat.zero_le _
  | cons a rows =>
    cases rows with
    | nil => exact Nat.le_refl _
    | cons b rows =>
      have hsame : a.name = b.name :=
        (hname a List.mem_cons_self).trans (hname b (List.mem_cons_of_mem _ List.mem_cons_self)).symm
      exact absurd hsame ((List.pairwise_cons.mp h).1 b List.mem_cons_self)

theorem atMostOne_of_namesDistinct {s : LockStore} (h : NamesDistinct s.rows) : AtMostOne s := by
  intro name
  refine NamesDistinct.length_le_one (h.filter _) name fun row hrow => ?_
  exact of_decide_eq_true (Bool.and_eq_true_iff.mp (List.mem_filter.mp hrow).2).1

def drawnOwner : LockEntry → Option GoString
  | ⟨_, .acquire _ owner _ _, _⟩ => some owner
  | _ => none

def OwnersDiffer (log : List LockEntry) : Prop :=
  ∀ e ∈ log, ∀ e' ∈ log, drawnOwner e = drawnOwner e' → drawnOwner e = none ∨ e.call = e'.call

instance (log : List LockEntry) : Decidable (OwnersDiffer log) :=
  inferInstanceAs (Decidable (∀ e ∈ log, ∀ e' ∈ log, _))

/-! ## What a call may do -/

def takenOwner : LockEntry → Option (GoString × GoString)
  | ⟨_, .takeOwner _ name, owner⟩ => some (name, owner)
  | _ => none

def Acquired (t : ℕ) (name owner : GoString) (log : List LockEntry) : Prop :=
  ∃ e ∈ log, e.call = t ∧ acquired e = some (name, owner)

variable {name owner : GoString}

theorem Acquired.cons {t : ℕ} {log : List LockEntry} (h : Acquired t name owner log)
    (e : LockEntry) : Acquired t name owner (e :: log) := by
  obtain ⟨e', he', hacquired⟩ := h
  exact ⟨e', List.mem_cons_of_mem _ he', hacquired⟩

def lockLaw (own : List LockEntry) : LockOp → Prop
  | .recordLease _ name owner => ∃ e ∈ own, acquired e = some (name, owner)
  | .deleteLock name owner => owner ≠ [] ∧ ∃ e ∈ own, takenOwner e = some (name, owner)
  | _ => True

section Laws
variable {env : LockEnv} {t : ℕ} {own : List LockEntry}

theorem lock_obeys (p : ℕ) (name : GoString) (attempts : ℕ) :
    (lock env t p name attempts).Obeys t lockLaw (fun _ _ => True) own := by
  induction attempts generalizing own with
  | zero => trivial
  | succ n ih =>
    refine obeys_op trivial fun now => obeys_op trivial fun r => ?_
    cases r with
    | none => trivial
    | some inserted =>
      cases inserted with
      | true => exact obeys_op ⟨_, List.mem_cons_self, rfl⟩ fun _ => trivial
      | false => exact ih

theorem unlock_obeys (p : ℕ) (name : GoString) : (unlock p name).Obeys t lockLaw (fun _ _ => True) own := by
  refine obeys_op trivial fun owner => obeys_ite (fun _ => trivial) fun hne => ?_
  exact obeys_op ⟨hne, _, List.mem_cons_self, rfl⟩ fun _ => trivial

theorem renewLease_obeys (name owner : GoString) (ticks : ℕ) :
    (renewLease env name owner ticks).Obeys t lockLaw (fun _ _ => True) own := by
  induction ticks generalizing own with
  | zero => trivial
  | succ n ih => exact obeys_op trivial fun now => obeys_op trivial fun _ => ih

theorem lockProg_obeys (call : LockCall) : ((lockSystem env).prog t call).Obeys t lockLaw (fun _ _ => True) [] := by
  cases call with
  | session p name attempts =>
    refine obeys_bind ((lock_obeys p (cleanKey name) attempts).imp fun own' locked _ => ?_)
    exact obeys_ite (fun _ => unlock_obeys p (cleanKey name)) fun _ => trivial
  | renewLockLease p name leaseDuration =>
    refine obeys_op trivial fun owner => obeys_ite (fun _ => trivial) fun _ => ?_
    exact obeys_op trivial fun now => obeys_op trivial fun _ => trivial
  | renewLease name owner ticks => exact renewLease_obeys name owner ticks

end Laws

/-! ## What the statements keep -/

theorem is_iff {row : LockRow} : row.is name owner = true ↔ row.name = name ∧ row.owner = owner := by
  rw [LockRow.is, Bool.and_eq_true, decide_eq_true_eq, decide_eq_true_eq]

theorem rows_exec (op : LockOp) (i : LockChance) (s : LockStore) (t : ℕ) :
    ∀ row ∈ (LockStore.exec op i s).2.rows, (∃ row' ∈ s.rows, row'.name = row.name ∧ row'.owner = row.owner) ∨
      acquired ⟨t, op, (LockStore.exec op i s).1⟩ = some (row.name, row.owner) := by
  intro row hrow
  cases op with
  | acquire name owner now expiresAt =>
    rw [LockStore.exec] at hrow ⊢
    split at hrow
    · dsimp only at hrow ⊢
      split at hrow
      · exact Or.inl ⟨row, (List.mem_filter.mp hrow).1, rfl, rfl⟩
      · rename_i hworks hfree
        rcases List.mem_cons.mp hrow with rfl | hrow
        · rw [if_pos hworks, if_neg hfree]
          exact Or.inr rfl
        · exact Or.inl ⟨row, (List.mem_filter.mp hrow).1, rfl, rfl⟩
    · exact Or.inl ⟨row, hrow, rfl, rfl⟩
  | extend name owner expiresAt =>
    rw [LockStore.exec] at hrow
    split at hrow
    · obtain ⟨row', hrow', rfl⟩ := List.mem_map.mp hrow
      refine Or.inl ⟨row', hrow', ?_⟩
      split <;> exact ⟨rfl, rfl⟩
    · exact Or.inl ⟨row, hrow, rfl, rfl⟩
  | deleteLock name owner =>
    rw [LockStore.exec] at hrow
    split at hrow
    · exact Or.inl ⟨row, (List.mem_filter.mp hrow).1, rfl, rfl⟩
    · exact Or.inl ⟨row, hrow, rfl, rfl⟩
  | _ => exact Or.inl ⟨row, hrow, rfl, rfl⟩

theorem drawn_of_acquired {e : LockEntry} (h : acquired e = some (name, owner)) : drawnOwner e = some owner := by
  obtain ⟨t, op, a⟩ := e
  cases op with
  | acquire name' owner' now expiresAt =>
    rcases a with - | - | -
    · cases h
    · cases h
    · obtain ⟨rfl, rfl⟩ := Prod.mk.inj (Option.some.inj h)
      rfl
  | _ => cases h

structure LeasesHeld (s : LockStore) (log : List LockEntry) : Prop where
  free : ∀ p name, leaseHolder p name log = none → s.owners p name = []
  held : ∀ p name t, leaseHolder p name log = some t → Acquired t name (s.owners p name) log

/-- Every row was inserted by a call, and what an unlock has taken or deleted, its call had
inserted. -/
structure LeasesKept (w : LockWorld) : Prop where
  rows : ∀ row ∈ w.store.rows, ∃ t, Acquired t row.name row.owner w.log
  leases : LeasesHeld w.store w.log
  taken : ∀ e ∈ w.log, ∀ name owner, takenOwner e = some (name, owner) → owner ≠ [] → Acquired e.call name owner w.log
  deleted : ∀ e ∈ w.log, ∀ row ∈ deletedRows e, Acquired e.call row.name row.owner w.log

section Steps
variable {w : LockWorld} {t : ℕ} {i : LockChance}

variable {name owner : GoString}

theorem LeasesKept.deletesOwn (h : LeasesKept w) (hdiffer : OwnersDiffer w.log) : DeletesOwn w.log := by
  intro e he row hrow
  obtain ⟨e', he', hcall, hacquired⟩ := h.deleted e he row hrow
  refine ⟨⟨e', he', hacquired⟩, fun e'' he'' hacquired'' => ?_⟩
  have hdrawn := drawn_of_acquired hacquired''
  rcases hdiffer e'' he'' e' he' (hdrawn.trans (drawn_of_acquired hacquired).symm) with hnone | hsame
  · rw [hdrawn] at hnone
    cases hnone
  · exact hsame.trans hcall

theorem LeasesKept.step (h : LeasesKept w) (op : LockOp)
    (hleases : LeasesHeld (LockStore.exec op i w.store).2 (⟨t, op, w.answer LockStore.exec op i⟩ :: w.log))
    (htaken : ∀ name owner, takenOwner ⟨t, op, w.answer LockStore.exec op i⟩ = some (name, owner) → owner ≠ [] →
      Acquired t name owner w.log)
    (hdeleted : ∀ row ∈ deletedRows ⟨t, op, w.answer LockStore.exec op i⟩, Acquired t row.name row.owner w.log) :
    LeasesKept (w.step LockStore.exec t op i) where
  rows := by
    intro row hrow
    rcases rows_exec op i w.store t row hrow with ⟨row', hrow', hname, howner⟩ | hacquired
    · obtain ⟨u, hu⟩ := h.rows row' hrow'
      rw [hname, howner] at hu
      exact ⟨u, hu.cons _⟩
    · exact ⟨t, _, List.mem_cons_self, rfl, hacquired⟩
  leases := hleases
  taken := by
    intro e he name owner htaken' hne
    rcases List.mem_cons.mp he with rfl | he
    · exact (htaken name owner htaken' hne).cons _
    · exact (h.taken e he name owner htaken' hne).cons _
  deleted := by
    intro e he row hrow
    rcases List.mem_cons.mp he with rfl | he
    · exact (hdeleted row hrow).cons _
    · exact (h.deleted e he row hrow).cons _

variable {log : List LockEntry}

theorem LeasesHeld.same {s s' : LockStore} (h : LeasesHeld s log) {e : LockEntry} (howners : s'.owners = s.owners)
    (hholder : ∀ p name, leaseHolder p name (e :: log) = leaseHolder p name log) : LeasesHeld s' (e :: log) := by
  refine ⟨fun p name hnone => ?_, fun p name u hsome => ?_⟩
  · rw [howners]
    exact h.free p name ((hholder p name).symm.trans hnone)
  · rw [howners]
    exact (h.held p name u ((hholder p name).symm.trans hsome)).cons e

theorem setOwner_self (owners : ℕ → GoString → GoString) (p : ℕ) (name owner : GoString) :
    setOwner owners p name owner p name = owner := by
  rw [setOwner, Function.update_self, Function.update_self]

theorem setOwner_of_ne {owners : ℕ → GoString → GoString} {p p' : ℕ} {name' : GoString}
    (h : ¬ (p = p' ∧ name = name')) : setOwner owners p name owner p' name' = owners p' name' := by
  rw [setOwner]
  by_cases hp : p' = p
  · subst hp
    rw [Function.update_self, Function.update_of_ne fun hname => h ⟨rfl, hname.symm⟩]
  · rw [Function.update_of_ne hp]

theorem LeasesHeld.recorded {s : LockStore} (h : LeasesHeld s log) (p : ℕ)
    (hacquired : Acquired t name owner log) :
    LeasesHeld { s with owners := setOwner s.owners p name owner } (⟨t, .recordLease p name owner, ()⟩ :: log) := by
  refine ⟨fun p' name' hnone => ?_, fun p' name' u hsome => ?_⟩
  · rw [leaseHolder] at hnone
    dsimp only at hnone ⊢
    split at hnone
    · cases hnone
    · rename_i hne
      rw [setOwner_of_ne hne]
      exact h.free p' name' hnone
  · rw [leaseHolder] at hsome
    dsimp only at hsome ⊢
    split at hsome
    · rename_i hsame
      obtain ⟨rfl, rfl⟩ := hsame
      rw [setOwner_self, ← Option.some.inj hsome]
      exact hacquired.cons _
    · rename_i hne
      rw [setOwner_of_ne hne]
      exact (h.held p' name' u hsome).cons _

theorem LeasesHeld.released {s : LockStore} (h : LeasesHeld s log) (p : ℕ) (name owner : GoString) :
    LeasesHeld { s with owners := setOwner s.owners p name [] } (⟨t, .takeOwner p name, owner⟩ :: log) := by
  refine ⟨fun p' name' hnone => ?_, fun p' name' u hsome => ?_⟩
  · rw [leaseHolder] at hnone
    dsimp only at hnone ⊢
    split at hnone
    · rename_i hsame
      obtain ⟨rfl, rfl⟩ := hsame
      exact setOwner_self _ _ _ _
    · rename_i hne
      rw [setOwner_of_ne hne]
      exact h.free p' name' hnone
  · rw [leaseHolder] at hsome
    dsimp only at hsome ⊢
    split at hsome
    · cases hsome
    · rename_i hne
      rw [setOwner_of_ne hne]
      exact (h.held p' name' u hsome).cons _

theorem LeasesKept.found (h : LeasesKept w) {p : ℕ} (hcond : unlocksOwnLease t (.takeOwner p name) w = true)
    (hne : w.store.owners p name ≠ []) : Acquired t name (w.store.owners p name) w.log := by
  cases hholder : leaseHolder p name w.log with
  | none => exact absurd (h.leases.free p name hholder) hne
  | some u =>
    rw [unlocksOwnLease, hholder] at hcond
    have hu : u = t := of_decide_eq_true hcond
    rw [← hu]
    exact h.leases.held p name u hholder

theorem leases_keep :
    Keeps LockStore.exec (fun _ => lockLaw) (fun t op _ w => unlocksOwnLease t op w = true) LeasesKept := by
  intro t op i w h hlaw hcond
  cases op with
  | acquire name owner now expiresAt =>
    refine h.step _ (h.leases.same ?_ fun _ _ => rfl) nofun nofun
    rw [LockStore.exec]
    split
    · dsimp only
      split <;> rfl
    · rfl
  | extend name owner expiresAt =>
    refine h.step _ (h.leases.same ?_ fun _ _ => rfl) nofun nofun
    rw [LockStore.exec]
    split <;> rfl
  | recordLease p name owner =>
    obtain ⟨e, he, hacquired⟩ := hlaw
    obtain ⟨hlog, hcall⟩ := mem_own.mp he
    exact h.step _ (h.leases.recorded p ⟨e, hlog, hcall, hacquired⟩) nofun nofun
  | takeOwner p name =>
    refine h.step _ (h.leases.released p name _) (fun name' owner' htaken hne => ?_) nofun
    obtain ⟨rfl, rfl⟩ := Prod.mk.inj (Option.some.inj htaken)
    exact h.found hcond hne
  | deleteLock name owner =>
    refine h.step _ (h.leases.same ?_ fun _ _ => rfl) nofun fun row hrow => ?_
    · rw [LockStore.exec]
      split <;> rfl
    · have hrow : row ∈ w.store.rows.filter (LockRow.is name owner) := by
        rw [World.answer, LockStore.exec] at hrow
        split at hrow
        · exact hrow
        · cases hrow
      obtain ⟨rfl, rfl⟩ := is_iff.mp (List.mem_filter.mp hrow).2
      obtain ⟨hne, e, he, htaken⟩ := hlaw
      obtain ⟨hlog, rfl⟩ := mem_own.mp he
      exact h.taken e hlog _ _ htaken hne
  | _ => exact h.step _ (h.leases.same rfl fun _ _ => rfl) nofun nofun

end Steps

/-- There is never more than one row for a name that has not expired; and if, whenever a call
unlocks a name, the lease that its process has recorded for it is that of the call or there is none,
and no two calls have drawn the same owner, a call deletes no row but the one that it has inserted.
-/
theorem locks_exclusive (env : LockEnv) {clock : Instant}
    {events : List (Event LockCall LockChance)} {c : Config LockOp.Ans LockStore LockCall Unit}
    (hrun : (lockSystem env).run (Config.init (LockStore.init clock)) events = some c) :
    AtMostOne c.world.store ∧
      ((lockSystem env).Along (Allows (fun _ => True) fun t op _ w => unlocksOwnLease t op w = true)
        (Config.init (LockStore.init clock)) events → OwnersDiffer c.world.log →
          DeletesOwn c.world.log) := by
  constructor
  · refine atMostOne_of_namesDistinct (run_since (fun w w' => NamesDistinct w.store.rows →
      NamesDistinct w'.store.rows) ?_ ?_ ?_ hrun ?_)
    · exact fun _ h => h
    · exact fun _ _ _ h h' hrows => h' (h hrows)
    · exact fun _ op i _ h => namesDistinct_exec op i h
    · exact List.Pairwise.nil
  · intro hcond
    have hinit : LeasesKept ⟨LockStore.init clock, []⟩ := by
      refine ⟨?_, ⟨fun _ _ _ => rfl, ?_⟩, ?_, ?_⟩ <;> nofun
    obtain ⟨hkept, -⟩ := lawful_run (lockSystem env) (fun _ call _ => lockProg_obeys call) leases_keep hinit hcond hrun
    exact hkept.deletesOwn

/-! ## Two callers of one process -/

def sampleLocks : LockEnv where
  lockTTL := 30
  randomOwner t _ := List.replicate 32 (UInt8.ofNat (0x30 + t))

def lockSteps (t : ℕ) (now : Instant) (n : ℕ) : List (Event LockCall LockChance) :=
  List.replicate n (.step t ⟨true, now⟩)

def lockIssue : LockCall := .session 0 (str "issue_cert") 1

def lockedInTurn : List (Event LockCall LockChance) := .start 0 lockIssue :: lockSteps 0 0 5 ++
    .start 1 lockIssue :: lockSteps 1 10 5

theorem locks_exclusive_in_turn :
    ∃ c, (lockSystem sampleLocks).run (Config.init (LockStore.init 0)) lockedInTurn = some c ∧ AtMostOne c.world.store ∧
      DeletesOwn c.world.log ∧ (c.world.log.flatMap deletedRows).length = 2 := by
  have hend : ((lockSystem sampleLocks).run (Config.init (LockStore.init 0)) lockedInTurn).map
      (fun c => ((c.world.log.flatMap deletedRows).length, decide (OwnersDiffer c.world.log))) = some (2, true) := by
    decide +kernel
  obtain ⟨c, hrun, hc⟩ := Option.map_eq_some_iff.mp hend
  obtain ⟨hdeleted, hdiffer⟩ := Prod.mk.inj hc
  have hcond : (lockSystem sampleLocks).Along (Allows (fun _ => True) fun t op _ w => unlocksOwnLease t op w = true)
      (Config.init (LockStore.init 0)) lockedInTurn :=
    along_of_allowed (fun _ => true) (fun t op _ w => unlocksOwnLease t op w) (fun _ _ => trivial)
      (fun _ _ _ _ h => h) (by decide +kernel)
  obtain ⟨hone, howns⟩ := locks_exclusive sampleLocks hrun
  exact ⟨c, hrun, hone, howns hcond (of_decide_eq_true hdiffer), hdeleted⟩

/-- The lease of the first caller lapses, the second one locks the name, and then the first one
unlocks it. -/
def lapsedThenUnlocked : List (Event LockCall LockChance) :=
  .start 0 lockIssue :: lockSteps 0 0 3 ++ .start 1 lockIssue :: lockSteps 1 31 3 ++ lockSteps 0 32 2

/-- The first caller has deleted the row of the second one. -/
theorem unlock_deletes_other_lock :
    ∃ c, (lockSystem sampleLocks).run (Config.init (LockStore.init 0)) lapsedThenUnlocked = some c ∧
      c.world.store.rows = [] ∧
      (∃ e ∈ c.world.log, e.call = 0 ∧ ∃ e' ∈ c.world.log, e'.call = 1 ∧
        ∃ row ∈ deletedRows e, acquired e' = some (row.name, row.owner)) ∧
          ¬ DeletesOwn c.world.log := by
  have hend : ((lockSystem sampleLocks).run (Config.init (LockStore.init 0)) lapsedThenUnlocked).map
      (fun c => (c.world.store.rows.isEmpty, c.world.log.any fun e => e.call = 0 &&
        c.world.log.any fun e' => e'.call = 1 &&
        (deletedRows e).any fun row => acquired e' = some (row.name, row.owner))) =
        some (true, true) := by decide +kernel
  obtain ⟨c, hrun, hc⟩ := Option.map_eq_some_iff.mp hend
  obtain ⟨hrows, hlog⟩ := Prod.mk.inj hc
  simp only [List.any_eq_true, Bool.and_eq_true, decide_eq_true_eq] at hlog
  obtain ⟨e, he, hcall, e', he', hcall', row, hrow, hacquired⟩ := hlog
  refine ⟨c, hrun, List.isEmpty_iff.mp hrows, ⟨e, he, hcall, e', he', hcall', row, hrow, hacquired⟩, fun howns => ?_⟩
  have hsame := (howns e he row hrow).2 e' he' hacquired
  rw [hcall, hcall'] at hsame
  exact absurd hsame (by decide)

end Portlyn.Acme
