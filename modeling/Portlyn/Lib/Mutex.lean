import Portlyn.Lib.Interleave

/-! # Calls that take a mutex

Part of the store is guarded: while a call holds the mutex, no other call changes that part. So
between two of its own statements the holder finds the guarded part as it left it, and what it has
learnt of it stays true. That a call waits until the mutex is free is a condition on schedules, like
every other condition under which statements run. -/
namespace Portlyn.Lib.Interleave
set_option autoImplicit false

section Mutex
variable {Op : Type} {Ans : Op → Type} {σ ι κ α β γ ε : Type}

/-! ## Statements that may fail -/

def Prog.attempt (p : Prog Ans (Except ε α)) (f : α → Prog Ans (Except ε β)) : Prog Ans (Except ε β) :=
  p >>= fun r => match r with
    | .ok a => f a
    | .error e => pure (.error e)

theorem wp_attempt {exec : Semantics Ans σ ι} {D : Discipline exec} {t : ℕ}
    {Q : Except ε β → World Ans σ → Prop} {p : Prog Ans (Except ε α)}
    {f : α → Prog Ans (Except ε β)} {w : World Ans σ}
    (h : D.Wp t (fun r w => (∀ e, r = .error e → D.Wp t Q (pure (.error e)) w) ∧ ∀ a, r = .ok a →
      D.Wp t Q (f a) w) p w) :
    D.Wp t Q (p.attempt f) w := by
  refine wp_bind (h.imp fun r w _ hr => ?_)
  cases r with
  | ok a => exact hr.2 a rfl
  | error e => exact hr.1 e rfl

structure Mutex (exec : Semantics Ans σ ι) (γ : Type) where
  holder : σ → Option ℕ
  guarded : σ → γ
  promise : ℕ → Op → World Ans σ → Prop
  given : ℕ → Op → ι → World Ans σ → Prop
  others : ∀ t op i w u, u ≠ t → holder w.store = some u → promise t op w → given t op i w →
    holder (exec op i w.store).2 = some u ∧ guarded (exec op i w.store).2 = guarded w.store

namespace Mutex

def discipline {exec : Semantics Ans σ ι} (M : Mutex exec γ) : Discipline exec where
  inv := fun _ => True
  rely := fun t w w' => w'.own t = w.own t ∧
    (M.holder w.store = some t → M.holder w'.store = some t ∧ M.guarded w'.store = M.guarded w.store)
  promise := M.promise
  given := M.given
  refl := fun _ _ => ⟨rfl, fun h => ⟨h, rfl⟩⟩
  trans := by
    intro t w₁ w₂ w₃ h h'
    refine ⟨h'.1.trans h.1, fun hholder => ?_⟩
    obtain ⟨hholder₂, hguarded₂⟩ := h.2 hholder
    obtain ⟨hholder₃, hguarded₃⟩ := h'.2 hholder₂
    exact ⟨hholder₃, hguarded₃.trans hguarded₂⟩
  keeps := fun _ _ _ _ _ _ _ => trivial
  others := fun t op i w u hne _ hpromise hgiven =>
    ⟨own_step_of_ne exec op i w hne, fun hholder => M.others t op i w u hne hholder hpromise hgiven⟩

variable {exec : Semantics Ans σ ι} {M : Mutex exec γ} {t : ℕ} {g : γ} {own : List (Entry Ans)}
  {w w' : World Ans σ}
  {Q : β → World Ans σ → Prop}

variable (M) in
/-- The call holds the mutex, the guarded part is `g`, and the call has run the statements `own`. -/
structure Held (t : ℕ) (g : γ) (own : List (Entry Ans)) (w : World Ans σ) : Prop where
  holder : M.holder w.store = some t
  guarded : M.guarded w.store = g
  own : w.own t = own

theorem Held.stable (h : M.Held t g own w) (hrely : M.discipline.rely t w w') : M.Held t g own w' := by
  obtain ⟨hholder, hguarded⟩ := hrely.2 h.holder
  exact ⟨hholder, hguarded.trans h.guarded, hrely.1.trans h.own⟩

theorem Held.step (h : M.Held t g own w) (op : Op) (i : ι) {g' : γ} (hholder : M.holder (exec op i w.store).2 = some t)
    (hguarded : M.guarded (exec op i w.store).2 = g') :
    M.Held t g' (⟨t, op, w.answer exec op i⟩ :: own) (w.step exec t op i) :=
  ⟨hholder, hguarded, (own_step_self exec t op i w).trans (congrArg _ h.own)⟩

theorem wp_held (h : M.Held t g own w) {op : Op} {f : Ans op → Prog Ans β}
    (hpromise : ∀ w', M.Held t g own w' → M.promise t op w')
    (hf : ∀ w' i, M.Held t g own w' → M.given t op i w' →
      M.discipline.Wp t Q (f (w'.answer exec op i)) (w'.step exec t op i)) :
    M.discipline.Wp t Q (Prog.op op >>= f) w := by
  refine wp_op (fun w' hrely _ => hpromise w' (h.stable hrely)) fun w' i ans hrely _ hgiven hans => ?_
  subst hans
  exact hf w' i (h.stable hrely) hgiven

theorem wp_unheld {op : Op} {f : Ans op → Prog Ans β} (hpromise : ∀ w', M.promise t op w')
    (hf : ∀ w' i, M.given t op i w' → w'.own t = w.own t →
      M.discipline.Wp t Q (f (w'.answer exec op i)) (w'.step exec t op i)) :
    M.discipline.Wp t Q (Prog.op op >>= f) w := by
  refine wp_op (fun w' _ _ => hpromise w') fun w' i ans hrely _ hgiven hans => ?_
  subst hans
  exact hf w' i hgiven hrely.1

theorem wp_end (h : M.Held t g own w) {a : β} (hQ : ∀ w', M.Held t g own w' → Q a w') :
    M.discipline.Wp t Q (pure a) w :=
  wp_ret fun w' hrely _ => hQ w' (h.stable hrely)

end Mutex

/-! ## What the statements keep -/

section Runs
variable {sys : System Ans σ ι κ α}

def allowed (admits : κ → Bool) (given : ℕ → Op → ι → World Ans σ → Bool) (c : Config Ans σ κ α) : Event κ ι → Bool
  | .start _ request => admits request
  | .step t i =>
    match c.task t with
    | some ⟨_, _, .stmt op _⟩ => given t op i c.world
    | _ => true

variable {admits : κ → Prop} {given : ℕ → Op → ι → World Ans σ → Prop} {c : Config Ans σ κ α}

theorem along_of_allowed (admits' : κ → Bool) (given' : ℕ → Op → ι → World Ans σ → Bool)
    (hadmits : ∀ request, admits' request = true → admits request)
    (hgiven : ∀ t op i w, given' t op i w = true → given t op i w) {events : List (Event κ ι)}
    (h : sys.checks (allowed admits' given') c events = true) :
    sys.Along (Allows admits given) c events := by
  refine along_of_checks (fun c e he => ?_) h
  cases e with
  | start t request => exact hadmits request he
  | step t i =>
    rw [Allows]
    split
    · rename_i htask
      rw [allowed, htask] at he
      exact hgiven t _ i c.world he
    · trivial

def Event.ended (c : Config Ans σ κ α) : Event κ ι → Bool
  | .start t _ =>
    match c.task t with
    | some ⟨_, _, .stmt _ _⟩ => false
    | _ => true
  | .step _ _ => true

theorem Allows.imp {given' : ℕ → Op → ι → World Ans σ → Prop}
    (h : ∀ t op i w, given t op i w → given' t op i w) {e : Event κ ι}
    (hallows : Allows admits given c e) : Allows admits given' c e := by
  cases e with
  | start t request => exact hallows
  | step t i =>
    rw [Allows] at hallows ⊢
    split at hallows
    · exact h _ _ _ _ hallows
    · trivial

variable (sys) in
theorem Mutex.invariant (M : Mutex sys.exec γ)
    (hprog : ∀ t request w, admits request → w.own t = [] → M.discipline.Wp t (fun _ _ => True) (sys.prog t request) w)
    (hgiven : ∀ t op i w, given t op i w → M.given t op i w) {J : World Ans σ → Prop}
    (hJ : ∀ t op i w, J w → M.promise t op w → given t op i w → J (w.step sys.exec t op i)) {s : σ} (hinit : J ⟨s, []⟩)
    {events : List (Event κ ι)} (hcond : sys.Along (Allows admits given) (Config.init s) events)
    (hrun : sys.run (Config.init s) events = some c) : J c.world := by
  let post : ℕ → κ → World Ans σ → α → World Ans σ → Prop := fun _ _ _ _ _ => True
  have hkept : Kept sys M.discipline post (Config.init s) := kept_init trivial
  refine (run_induction (P := fun c => Kept sys M.discipline post c ∧ J c.world) ?_ ⟨hkept, hinit⟩ hcond hrun).2
  rintro c₁ e c₂ ⟨hkept, hinv⟩ hallows hnext
  refine ⟨kept_next (fun t request w hadmits _ hunused => ?_) hkept (hallows.imp hgiven) hnext, ?_⟩
  · exact hprog t request w hadmits (own_of_unused hunused)
  · rcases next_cases hnext with ⟨t, request, rfl, -, rfl⟩ | ⟨t, i, request, start, op, next, rfl, htask, rfl⟩
    · exact hinv
    · rw [Allows, htask] at hallows
      have hpromise := (hkept.calls t _ htask c₁.world (M.discipline.refl t _) trivial).1
      exact hJ t op i c₁.world hinv hpromise hallows

end Runs

end Mutex

end Portlyn.Lib.Interleave
