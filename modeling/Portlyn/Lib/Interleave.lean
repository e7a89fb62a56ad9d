import Mathlib.Logic.Function.Basic
import Mathlib.Data.Nat.Notation

/-! # Calls on a shared store, interleaved statement by statement

A call is a finite tree of statements: what it does next depends on what the store answered. A
schedule starts calls and lets them run one statement each, in any order. The log keeps every
statement with its answer.

A discipline says what the statements of the calls keep (`inv`), what a call may rely on while the
others run (`rely`), and what it promises of its own statements. `Wp` is the condition under which a
call ends in a given way whatever the others do, and `Discipline.sound` carries it along every
schedule. -/
namespace Portlyn.Lib.Interleave
set_option autoImplicit false

/-! ## Calls -/

inductive Prog {Op : Type} (Ans : Op → Type) (α : Type) : Type
  | ret (a : α)
  | stmt (op : Op) (next : Ans op → Prog Ans α)

section Calls
variable {Op : Type} {Ans : Op → Type} {α β : Type}

def Prog.bind : Prog Ans α → (α → Prog Ans β) → Prog Ans β
  | .ret a, f => f a
  | .stmt op next, f => .stmt op fun a => (next a).bind f

instance : Monad (Prog Ans) where
  pure := .ret
  bind := Prog.bind

def Prog.op (op : Op) : Prog Ans (Ans op) := .stmt op .ret

/-- Every statement that the call can come to satisfies `P`. -/
def Prog.All (P : Op → Prop) : Prog Ans α → Prop
  | .ret _ => True
  | .stmt op next => P op ∧ ∀ a, (next a).All P

variable {P : Op → Prop} {p : Prog Ans α}

theorem all_bind {f : α → Prog Ans β} (hp : p.All P) (hf : ∀ a, (f a).All P) :
    (p >>= f).All P := by
  induction p with
  | ret a => exact hf a
  | stmt op next ih => exact ⟨hp.1, fun a => ih a (hp.2 a)⟩

def Prog.lift {Op' : Type} {Ans' : Op' → Type} (f : Op → Op') (g : ∀ op, Ans' (f op) → Ans op) :
    Prog Ans α → Prog Ans' α
  | .ret a => .ret a
  | .stmt op next => .stmt (f op) fun a => (next (g op a)).lift f g

theorem all_lift {Op' : Type} {Ans' : Op' → Type} {f : Op → Op'} {g : ∀ op, Ans' (f op) → Ans op}
    {P' : Op' → Prop} (h : ∀ op, P op → P' (f op)) (hp : p.All P) : (p.lift f g).All P' := by
  induction p with
  | ret a => trivial
  | stmt op next ih => exact ⟨h op hp.1, fun a => ih _ (hp.2 _)⟩

theorem Prog.All.imp {Q : Op → Prop} (h : ∀ op, P op → Q op) (hp : p.All P) : p.All Q := by
  induction p with
  | ret a => trivial
  | stmt op next ih => exact ⟨h op hp.1, fun a => ih a (hp.2 a)⟩

theorem all_trivial (p : Prog Ans α) : p.All fun _ => True := by
  induction p with
  | ret a => trivial
  | stmt op next ih => exact ⟨trivial, ih⟩

theorem all_op {op : Op} {f : Ans op → Prog Ans α} (hop : P op) (hf : ∀ a, (f a).All P) :
    (Prog.op op >>= f).All P := ⟨hop, hf⟩

theorem all_ite {c : Prop} [Decidable c] {q : Prog Ans α} (hp : p.All P) (hq : q.All P) :
    (if c then p else q).All P := by
  by_cases h : c
  · rw [if_pos h]
    exact hp
  · rw [if_neg h]
    exact hq

end Calls

/-! ## Stores and schedules -/

structure Entry {Op : Type} (Ans : Op → Type) where
  call : ℕ
  op : Op
  ans : Ans op

structure World {Op : Type} (Ans : Op → Type) (σ : Type) where
  store : σ
  log : List (Entry Ans)

/-- A call that was started: its request, the world as it was then, and what is left of it. -/
structure Task {Op : Type} (Ans : Op → Type) (σ κ α : Type) where
  request : κ
  start : World Ans σ
  rest : Prog Ans α

structure Config {Op : Type} (Ans : Op → Type) (σ κ α : Type) where
  world : World Ans σ
  task : ℕ → Option (Task Ans σ κ α)

inductive Event (κ ι : Type)
  | start (t : ℕ) (request : κ)
  | step (t : ℕ) (chance : ι)

/-- How statements act on a store, where `ι` is what the store leaves to chance. -/
abbrev Semantics {Op : Type} (Ans : Op → Type) (σ ι : Type) := (op : Op) → ι → σ → Ans op × σ

/-- The calls that answer the requests. A call knows its own number, from which its random values
are made. -/
structure System {Op : Type} (Ans : Op → Type) (σ ι κ α : Type) where
  exec : Semantics Ans σ ι
  prog : ℕ → κ → Prog Ans α

section Schedules
variable {Op : Type} {Ans : Op → Type} {σ ι κ α : Type}

def Config.init (s : σ) : Config Ans σ κ α := ⟨⟨s, []⟩, fun _ => none⟩

def World.answer (exec : Semantics Ans σ ι) (op : Op) (i : ι) (w : World Ans σ) : Ans op :=
  (exec op i w.store).1

def World.step (exec : Semantics Ans σ ι) (t : ℕ) (op : Op) (i : ι) (w : World Ans σ) : World Ans σ :=
  ⟨(exec op i w.store).2, ⟨t, op, w.answer exec op i⟩ :: w.log⟩

/-- The statements of the call `t`. -/
def World.own (w : World Ans σ) (t : ℕ) : List (Entry Ans) := w.log.filter fun e => e.call = t

theorem own_step_self (exec : Semantics Ans σ ι) (t : ℕ) (op : Op) (i : ι) (w : World Ans σ) :
    (w.step exec t op i).own t = ⟨t, op, w.answer exec op i⟩ :: w.own t :=
  List.filter_cons_of_pos (decide_eq_true rfl)

variable {t : ℕ}

theorem own_step_of_ne (exec : Semantics Ans σ ι) {u : ℕ} (op : Op) (i : ι) (w : World Ans σ)
    (h : u ≠ t) : (w.step exec t op i).own u = w.own u := by
  refine List.filter_cons_of_neg fun heq => h ?_
  exact (of_decide_eq_true heq).symm

variable {w : World Ans σ}

theorem mem_own {e : Entry Ans} : e ∈ w.own t ↔ e ∈ w.log ∧ e.call = t := by
  rw [World.own, List.mem_filter, decide_eq_true_eq]

theorem own_split {e : Entry Ans} {later earlier : List (Entry Ans)}
    (h : w.own t = later ++ e :: earlier) : ∃ before, e :: before <:+ w.log ∧ ∀ e' ∈ earlier, e' ∈ before := by
  obtain ⟨log₁, log₂, hlog, -, hcons⟩ := List.filter_eq_append_iff.mp h
  obtain ⟨skipped, before, rfl, -, -, hbefore⟩ := List.filter_eq_cons_iff.mp hcons
  refine ⟨before, ⟨log₁ ++ skipped, by rw [hlog, List.append_assoc]⟩, fun e' he' => ?_⟩
  rw [← hbefore] at he'
  exact (List.mem_filter.mp he').1

variable (sys : System Ans σ ι κ α)

def System.next (c : Config Ans σ κ α) : Event κ ι → Option (Config Ans σ κ α)
  | .start t request =>
    match c.task t with
    | none => some ⟨c.world, Function.update c.task t (some ⟨request, c.world, sys.prog t request⟩)⟩
    | some _ => none
  | .step t i =>
    match c.task t with
    | some ⟨request, start, .stmt op next⟩ =>
      some ⟨c.world.step sys.exec t op i,
        Function.update c.task t (some ⟨request, start, next (c.world.answer sys.exec op i)⟩)⟩
    | _ => none

def System.run (c : Config Ans σ κ α) (events : List (Event κ ι)) : Option (Config Ans σ κ α) :=
  events.foldlM sys.next c

/-- Every event of the schedule meets the condition in the configuration in which it happens. -/
def System.Along (cond : Config Ans σ κ α → Event κ ι → Prop) : Config Ans σ κ α → List (Event κ ι) → Prop
  | _, [] => True
  | c, e :: events => cond c e ∧ ∀ c' ∈ sys.next c e, System.Along cond c' events

def Allows (admits : κ → Prop) (given : ℕ → Op → ι → World Ans σ → Prop) (c : Config Ans σ κ α) : Event κ ι → Prop
  | .start _ request => admits request
  | .step t i =>
    match c.task t with
    | some ⟨_, _, .stmt op _⟩ => given t op i c.world
    | _ => True

def System.checks (check : Config Ans σ κ α → Event κ ι → Bool) : Config Ans σ κ α → List (Event κ ι) → Bool
  | _, [] => true
  | c, e :: events => check c e && ((sys.next c e).map fun c' => System.checks check c' events).getD true

variable {sys}

variable {task new : Task Ans σ κ α} {tasks : ℕ → Option (Task Ans σ κ α)} {u : ℕ}

theorem updated_task (h : Function.update tasks t (some new) u = some task) :
    u = t ∧ task = new ∨ u ≠ t ∧ tasks u = some task := by
  by_cases hut : u = t
  · subst hut
    rw [Function.update_self, Option.some.injEq] at h
    exact Or.inl ⟨rfl, h.symm⟩
  · rw [Function.update_of_ne hut] at h
    exact Or.inr ⟨hut, h⟩

theorem updated_ne_none (h : u ≠ t → tasks u ≠ none) :
    Function.update tasks t (some new) u ≠ none := by
  by_cases hut : u = t
  · rw [hut, Function.update_self]
    exact Option.some_ne_none _
  · rw [Function.update_of_ne hut]
    exact h hut

variable {c c' : Config Ans σ κ α} {e : Event κ ι}

theorem next_cases (h : sys.next c e = some c') :
    (∃ t request, e = .start t request ∧ c.task t = none ∧
      c' = ⟨c.world, Function.update c.task t (some ⟨request, c.world, sys.prog t request⟩)⟩) ∨
    ∃ t i request start op next, e = .step t i ∧ c.task t = some ⟨request, start, .stmt op next⟩ ∧
      c' = ⟨c.world.step sys.exec t op i,
        Function.update c.task t (some ⟨request, start, next (c.world.answer sys.exec op i)⟩)⟩ := by
  cases e with
  | start t request =>
    rw [System.next] at h
    split at h
    · rename_i hnone
      cases h
      exact Or.inl ⟨t, request, rfl, hnone, rfl⟩
    · cases h
  | step t i =>
    rw [System.next] at h
    split at h
    · rename_i request start op next htask
      cases h
      exact Or.inr ⟨t, i, request, start, op, next, rfl, htask, rfl⟩
    · cases h

theorem started_next (h : ∀ e ∈ c.world.log, c.task e.call ≠ none)
    (hnext : sys.next c e = some c') : ∀ e ∈ c'.world.log, c'.task e.call ≠ none := by
  intro e he
  rcases next_cases hnext with ⟨t, request, rfl, -, rfl⟩ | ⟨t, i, request, start, op, next, rfl, -, rfl⟩
  · exact updated_ne_none fun _ => h e he
  · refine updated_ne_none fun het => h e ?_
    exact (List.mem_cons.mp he).resolve_left fun heq => het (congrArg Entry.call heq)

theorem next_new (hnext : sys.next c e = some c') (hnone : c.task t = none)
    (htask : c'.task t = some task) : e = .start t task.request ∧ task.start = c.world := by
  rcases next_cases hnext with ⟨u, request, rfl, -, rfl⟩ | ⟨u, i, request, start, op, next, rfl, hu, rfl⟩
  · rcases updated_task htask with ⟨rfl, rfl⟩ | ⟨-, ht⟩
    · exact ⟨rfl, rfl⟩
    · exact absurd (ht.symm.trans hnone) (Option.some_ne_none _)
  · rcases updated_task htask with ⟨rfl, rfl⟩ | ⟨-, ht⟩
    · exact absurd (hu.symm.trans hnone) (Option.some_ne_none _)
    · exact absurd (ht.symm.trans hnone) (Option.some_ne_none _)

variable {events : List (Event κ ι)}

theorem run_cons (h : sys.run c (e :: events) = some c') :
    ∃ c₁, sys.next c e = some c₁ ∧ sys.run c₁ events = some c' := by
  exact Option.bind_eq_some_iff.mp h

variable {cond : Config Ans σ κ α → Event κ ι → Prop}

theorem run_induction {P : Config Ans σ κ α → Prop}
    (hnext : ∀ c e c', P c → cond c e → sys.next c e = some c' → P c')
    (hP : P c) (hcond : sys.Along cond c events) (hrun : sys.run c events = some c') : P c' := by
  induction events generalizing c with
  | nil =>
    cases hrun
    exact hP
  | cons e events ih =>
    obtain ⟨c₁, hc₁, hrun⟩ := run_cons hrun
    exact ih (hnext c e c₁ hP hcond.1 hc₁) (hcond.2 c₁ hc₁) hrun

theorem along_cons (h : cond c e) (hnext : sys.next c e = some c')
    (hrest : sys.Along cond c' events) : sys.Along cond c (e :: events) := by
  refine ⟨h, fun c'' hc'' => ?_⟩
  obtain rfl : c' = c'' := Option.some.inj (hnext.symm.trans hc'')
  exact hrest

theorem along_of_forall (h : ∀ c e, cond c e) (c : Config Ans σ κ α)
    (events : List (Event κ ι)) : sys.Along cond c events := by
  induction events generalizing c with
  | nil => trivial
  | cons e events ih => exact ⟨h c e, fun c' _ => ih c'⟩

theorem along_of_checks {check : Config Ans σ κ α → Event κ ι → Bool}
    (hcheck : ∀ c e, check c e = true → cond c e)
    (h : sys.checks check c events = true) : sys.Along cond c events := by
  induction events generalizing c with
  | nil => trivial
  | cons e events ih =>
    rw [System.checks, Bool.and_eq_true] at h
    refine ⟨hcheck c e h.1, fun c' hc' => ih ?_⟩
    rw [Option.mem_def.mp hc'] at h
    exact h.2

variable {admits : κ → Prop} {given : ℕ → Op → ι → World Ans σ → Prop}

theorem allows_always (hadmits : ∀ request, admits request) (hgiven : ∀ t op i w, given t op i w)
    (c : Config Ans σ κ α) (e : Event κ ι) : Allows admits given c e := by
  cases e with
  | start t request => exact hadmits request
  | step t i =>
    rw [Allows]
    split
    · exact hgiven t _ i c.world
    · trivial

theorem along_always (hadmits : ∀ request, admits request)
    (hgiven : ∀ t op i w, given t op i w) (c : Config Ans σ κ α) (events : List (Event κ ι)) :
    sys.Along (Allows admits given) c events :=
  along_of_forall (allows_always hadmits hgiven) c events

theorem along_append {later : List (Event κ ι)}
    (h : sys.Along cond c (events ++ later)) (hrun : sys.run c events = some c') :
    sys.Along cond c events ∧ sys.Along cond c' later := by
  induction events generalizing c with
  | nil =>
    cases hrun
    exact ⟨trivial, h⟩
  | cons e events ih =>
    obtain ⟨c₁, hc₁, hrun⟩ := run_cons hrun
    obtain ⟨hevents, hlater⟩ := ih (h.2 c₁ hc₁) hrun
    exact ⟨along_cons h.1 hc₁ hevents, hlater⟩

theorem run_append_of {c₁ : Config Ans σ κ α} {later : List (Event κ ι)} (h : sys.run c events = some c₁)
    (h' : sys.run c₁ later = some c') : sys.run c (events ++ later) = some c' := by
  rw [System.run, List.foldlM_append]
  exact Option.bind_eq_some_iff.mpr ⟨c₁, h, h'⟩

theorem run_invariant {P : Config Ans σ κ α → Prop} (hnext : ∀ c e c', P c → sys.next c e = some c' → P c')
    (hP : P c) (hrun : sys.run c events = some c') : P c' := by
  have hcond : sys.Along (fun _ _ => True) c events := along_of_forall (fun _ _ => trivial) c events
  exact run_induction (fun c e c' hc _ h => hnext c e c' hc h) hP hcond hrun

theorem along_run {inv : World Ans σ → Prop}
    (keeps : ∀ t op i w, inv w → given t op i w → inv (w.step sys.exec t op i))
    (hinv : inv c.world) (hcond : sys.Along (Allows admits given) c events)
    (hrun : sys.run c events = some c') : inv c'.world := by
  refine run_induction (P := fun c => inv c.world) (fun c₁ e c₂ hinv hcond hnext => ?_) hinv hcond hrun
  rcases next_cases hnext with ⟨t, request, rfl, -, rfl⟩ | ⟨t, i, request, start, op, next, rfl, htask, rfl⟩
  · exact hinv
  · rw [Allows, htask] at hcond
    exact keeps t op i c₁.world hinv hcond

/-! ## Moments of a run -/

theorem run_since (rel : World Ans σ → World Ans σ → Prop) (refl : ∀ w, rel w w)
    (trans : ∀ w₁ w₂ w₃, rel w₁ w₂ → rel w₂ w₃ → rel w₁ w₃) (step : ∀ t op i w, rel w (w.step sys.exec t op i))
    (hrun : sys.run c events = some c') : rel c.world c'.world := by
  refine run_invariant (P := fun c' => rel c.world c'.world) (fun c₁ e c₂ hrel hnext => ?_) (refl _) hrun
  rcases next_cases hnext with ⟨t, request, rfl, -, rfl⟩ | ⟨t, i, request, start, op, next, rfl, -, rfl⟩
  · exact hrel
  · exact trans _ _ _ hrel (step t op i c₁.world)

theorem log_started {s : σ} (hrun : sys.run (Config.init s) events = some c) :
    ∀ e ∈ c.world.log, c.task e.call ≠ none := by
  exact run_invariant (fun _ _ _ => started_next)
    (List.forall_mem_nil _) hrun

theorem statement_moment (hrun : sys.run c events = some c')
    {e : Entry Ans} (he : e ∈ c'.world.log) (hnew : e ∉ c.world.log) :
    ∃ before after c₁ c₂ i, events = before ++ .step e.call i :: after ∧ sys.run c before = some c₁ ∧
      sys.run c₂ after = some c' ∧ c₂.world = c₁.world.step sys.exec e.call e.op i ∧
      e = ⟨e.call, e.op, c₁.world.answer sys.exec e.op i⟩ := by
  induction events generalizing c with
  | nil =>
    cases hrun
    exact absurd he hnew
  | cons event events ih =>
    obtain ⟨c₀, hnext, hrun⟩ := run_cons hrun
    by_cases hmem : e ∈ c₀.world.log
    · rcases next_cases hnext with ⟨t, request, rfl, -, rfl⟩ | ⟨t, i, request, start, op, next, rfl, -, rfl⟩
      · exact absurd hmem hnew
      · obtain rfl := (List.mem_cons.mp hmem).resolve_right hnew
        exact ⟨[], events, c, _, i, rfl, rfl, hrun, rfl, rfl⟩
    · obtain ⟨before, after, c₁, c₂, i, rfl, hbefore, hafter, hworld, hans⟩ := ih hrun hmem
      refine ⟨event :: before, after, c₁, c₂, i, rfl, ?_, hafter, hworld, hans⟩
      exact Option.bind_eq_some_iff.mpr ⟨c₀, hnext, hbefore⟩

theorem task_kept (hrun : sys.run c events = some c')
    (htask : c.task t = some task) :
    ∃ rest, c'.task t = some ⟨task.request, task.start, rest⟩ := by
  refine run_invariant (P := fun c => ∃ rest, c.task t = some ⟨task.request, task.start, rest⟩) ?_
    ⟨task.rest, htask⟩ hrun
  rintro c₁ e c₂ ⟨rest, hrest⟩ hnext
  rcases next_cases hnext with ⟨u, request, rfl, hnone, rfl⟩ | ⟨u, i, request, start, op, next, rfl, hu, rfl⟩
  · have hne : t ≠ u := fun heq => Option.some_ne_none _ (hrest.symm.trans (heq ▸ hnone))
    exact ⟨rest, (Function.update_of_ne hne _ _).trans hrest⟩
  · by_cases htu : t = u
    · subst htu
      rw [hrest, Option.some.injEq] at hu
      obtain ⟨rfl, rfl, -⟩ := Task.mk.inj hu
      exact ⟨_, Function.update_self ..⟩
    · exact ⟨rest, (Function.update_of_ne htu _ _).trans hrest⟩

theorem start_moment (hrun : sys.run c events = some c')
    (hnone : c.task t = none) (htask : c'.task t = some task) :
    ∃ before after c₁, events = before ++ after ∧ sys.run c before = some c₁ ∧ sys.run c₁ after = some c' ∧
      c₁.task t = none ∧ task.start = c₁.world := by
  induction events generalizing c with
  | nil =>
    cases hrun
    rw [hnone] at htask
    cases htask
  | cons event events ih =>
    have hall := hrun
    obtain ⟨c₀, hnext, hrun⟩ := run_cons hrun
    cases hc₀ : c₀.task t with
    | none =>
      obtain ⟨before, after, c₁, rfl, hbefore, hafter⟩ := ih hrun hc₀
      refine ⟨event :: before, after, c₁, rfl, ?_, hafter⟩
      exact Option.bind_eq_some_iff.mpr ⟨c₀, hnext, hbefore⟩
    | some task₀ =>
      refine ⟨[], event :: events, c, rfl, rfl, hall, hnone, ?_⟩
      obtain ⟨rest, hrest⟩ := task_kept hrun hc₀
      rw [htask, Option.some.injEq] at hrest
      subst hrest
      exact (next_new hnext hnone hc₀).2

theorem log_allowed {P : ℕ → κ → Op → Prop} (hprog : ∀ t request, (sys.prog t request).All (P t request)) {s : σ}
    (hrun : sys.run (Config.init s) events = some c) :
    ∀ e ∈ c.world.log, ∃ task, c.task e.call = some task ∧ P e.call task.request e.op := by
  let inv : Config Ans σ κ α → Prop := fun c => (∀ t task, c.task t = some task → task.rest.All (P t task.request)) ∧
    ∀ e ∈ c.world.log, ∃ task, c.task e.call = some task ∧ P e.call task.request e.op
  have hinit : inv (Config.init s) := ⟨fun _ _ h => absurd h.symm (Option.some_ne_none _), List.forall_mem_nil _⟩
  refine (run_invariant (fun c₁ e c₂ hinv hnext => ?_) hinit hrun).2
  rcases next_cases hnext with ⟨t, request, rfl, hnone, rfl⟩ | ⟨t, i, request, start, op, next, rfl, htask, rfl⟩
  · refine ⟨fun u task hu => ?_, fun e he => ?_⟩
    · rcases updated_task hu with ⟨rfl, rfl⟩ | ⟨-, hu⟩
      · exact hprog u request
      · exact hinv.1 u task hu
    · obtain ⟨task, hcall, hop⟩ := hinv.2 e he
      have hne : e.call ≠ t := fun heq => Option.some_ne_none _ (hcall.symm.trans (heq ▸ hnone))
      exact ⟨task, (Function.update_of_ne hne _ _).trans hcall, hop⟩
  · have hall := hinv.1 t _ htask
    refine ⟨fun u task hu => ?_, fun e he => ?_⟩
    · rcases updated_task hu with ⟨rfl, rfl⟩ | ⟨-, hu⟩
      · exact hall.2 _
      · exact hinv.1 u task hu
    · by_cases het : e.call = t
      · refine ⟨_, (congrArg _ het).trans (Function.update_self ..), ?_⟩
        rcases List.mem_cons.mp he with rfl | he
        · exact hall.1
        · obtain ⟨task, hcall, hop⟩ := hinv.2 e he
          rw [het, htask, Option.some.injEq] at hcall
          rw [← hcall] at hop
          exact hop
      · obtain ⟨task, hcall, hop⟩ :=
          hinv.2 e ((List.mem_cons.mp he).resolve_left fun heq => het (congrArg Entry.call heq))
        exact ⟨task, (Function.update_of_ne het _ _).trans hcall, hop⟩

theorem start_event {s : σ} (hrun : sys.run (Config.init s) events = some c)
    (htask : c.task t = some task) : Event.start t task.request ∈ events := by
  suffices h : ∀ c₀ : Config Ans σ κ α, sys.run c₀ events = some c → c₀.task t = none →
    Event.start t task.request ∈ events from
    h _ hrun rfl
  clear hrun
  induction events with
  | nil =>
    intro c₀ hrun hnone
    cases hrun
    exact absurd (htask.symm.trans hnone) (Option.some_ne_none _)
  | cons e events ih =>
    intro c₀ hrun hnone
    obtain ⟨c₁, hnext, hrun⟩ := run_cons hrun
    by_cases hstart : c₁.task t = none
    · exact List.mem_cons_of_mem _ (ih c₁ hrun hstart)
    · obtain ⟨task₁, htask₁⟩ := Option.ne_none_iff_exists'.mp hstart
      obtain ⟨rest, hrest⟩ := task_kept hrun htask₁
      rw [htask, Option.some.injEq] at hrest
      subst hrest
      rw [(next_new hnext hnone htask₁).1]
      exact List.mem_cons_self

/-! ## Disciplines -/

/-- What the statements of a system keep. `given` says in which worlds a statement runs, for
schedules that are restricted so. -/
structure Discipline (exec : Semantics Ans σ ι) where
  inv : World Ans σ → Prop
  rely : ℕ → World Ans σ → World Ans σ → Prop
  promise : ℕ → Op → World Ans σ → Prop
  given : ℕ → Op → ι → World Ans σ → Prop
  refl : ∀ t w, rely t w w
  trans : ∀ t w₁ w₂ w₃, rely t w₁ w₂ → rely t w₂ w₃ → rely t w₁ w₃
  keeps : ∀ t op i w, inv w → promise t op w → given t op i w → inv (w.step exec t op i)
  others : ∀ t op i w u, u ≠ t → inv w → promise t op w → given t op i w → rely u w (w.step exec t op i)

variable {exec : Semantics Ans σ ι} (D : Discipline exec)

/-- From the world `w` the call `t` keeps its promises and, if it ends, ends with `Q`. -/
def Discipline.Wp {β : Type} (t : ℕ) (Q : β → World Ans σ → Prop) : Prog Ans β → World Ans σ → Prop
  | .ret a, w => ∀ w', D.rely t w w' → D.inv w' → Q a w'
  | .stmt op next, w => ∀ w', D.rely t w w' → D.inv w' →
    D.promise t op w' ∧ ∀ i, D.given t op i w' →
      Discipline.Wp t Q (next (w'.answer exec op i)) (w'.step exec t op i)

variable {D} {β γ : Type} {t : ℕ} {Q : β → World Ans σ → Prop}

theorem wp_ret {a : β} (h : ∀ w', D.rely t w w' → D.inv w' → Q a w') : D.Wp t Q (.ret a) w := h

theorem wp_op {op : Op} {f : Ans op → Prog Ans β}
    (hpromise : ∀ w', D.rely t w w' → D.inv w' → D.promise t op w')
    (h : ∀ w' i ans, D.rely t w w' → D.inv w' → D.given t op i w' → w'.answer exec op i = ans →
      D.Wp t Q (f ans) (w'.step exec t op i)) :
    D.Wp t Q (Prog.op op >>= f) w :=
  fun w' hrely hinv => ⟨hpromise w' hrely hinv, fun i hgiven => h w' i _ hrely hinv hgiven rfl⟩

variable {p : Prog Ans β}

theorem wp_ite {c : Prop} [Decidable c] {q : Prog Ans β} (hp : c → D.Wp t Q p w)
    (hq : ¬ c → D.Wp t Q q w) : D.Wp t Q (if c then p else q) w := by
  by_cases h : c
  · rw [if_pos h]
    exact hp h
  · rw [if_neg h]
    exact hq h

theorem Discipline.Wp.stable {w' : World Ans σ} (h : D.Wp t Q p w) (hrely : D.rely t w w') :
    D.Wp t Q p w' := by
  cases p with
  | ret a => exact fun w'' hrely' => h w'' (D.trans _ _ _ _ hrely hrely')
  | stmt op next => exact fun w'' hrely' => h w'' (D.trans _ _ _ _ hrely hrely')

theorem Discipline.Wp.settled (h : ∀ w', D.rely t w w' → D.inv w' → D.Wp t Q p w') : D.Wp t Q p w := by
  cases p with
  | ret a => exact fun w' hrely hinv => h w' hrely hinv w' (D.refl t w') hinv
  | stmt op next => exact fun w' hrely hinv => h w' hrely hinv w' (D.refl t w') hinv

theorem Discipline.Wp.imp {Q' : β → World Ans σ → Prop} (h : D.Wp t Q p w)
    (himp : ∀ a w, D.inv w → Q a w → Q' a w) : D.Wp t Q' p w := by
  induction p generalizing w with
  | ret a => exact fun w' hrely hinv => himp a w' hinv (h w' hrely hinv)
  | stmt op next ih =>
    intro w' hrely hinv
    obtain ⟨hpromise, hnext⟩ := h w' hrely hinv
    exact ⟨hpromise, fun i hgiven => ih _ (hnext i hgiven)⟩

theorem wp_bind {p : Prog Ans γ} {f : γ → Prog Ans β}
    (h : D.Wp t (fun b w => D.Wp t Q (f b) w) p w) : D.Wp t Q (p >>= f) w := by
  induction p generalizing w with
  | ret a => exact Discipline.Wp.settled h
  | stmt op next ih =>
    intro w' hrely hinv
    obtain ⟨hpromise, hnext⟩ := h w' hrely hinv
    exact ⟨hpromise, fun i hgiven => ih _ (hnext i hgiven)⟩

theorem wp_of_all {quiet : Op → Prop} {P : World Ans σ → Prop} (hrely : ∀ w w', D.rely t w w' → P w → P w')
    (hpromise : ∀ op w, quiet op → D.inv w → P w → D.promise t op w)
    (hstep : ∀ op i w, quiet op → D.inv w → P w → D.given t op i w → P (w.step exec t op i))
    (hp : p.All quiet) (hw : P w) : D.Wp t (fun _ w => P w) p w := by
  induction p generalizing w with
  | ret a => exact fun w' h _ => hrely w w' h hw
  | stmt op next ih =>
    intro w' h hinv
    have hw' := hrely w w' h hw
    refine ⟨hpromise op w' hp.1 hinv hw', fun i hgiven => ?_⟩
    exact ih _ (hp.2 _) (hstep op i w' hp.1 hinv hw' hgiven)

/-! ## Soundness -/

/-- No statement of the call `t` has run. -/
def World.Unused (w : World Ans σ) (t : ℕ) : Prop := ∀ e ∈ w.log, e.call ≠ t

variable (sys) in
structure Kept (D : Discipline sys.exec) (post : ℕ → κ → World Ans σ → α → World Ans σ → Prop)
    (c : Config Ans σ κ α) : Prop where
  inv : D.inv c.world
  started : ∀ e ∈ c.world.log, c.task e.call ≠ none
  calls : ∀ t task, c.task t = some task → D.Wp t (post t task.request task.start) task.rest c.world

variable {D : Discipline sys.exec} {post : ℕ → κ → World Ans σ → α → World Ans σ → Prop}

theorem kept_next
    (hprog : ∀ t request w, admits request → D.inv w → w.Unused t → D.Wp t (post t request w) (sys.prog t request) w)
    (h : Kept sys D post c) (hcond : Allows admits D.given c e)
    (hnext : sys.next c e = some c') : Kept sys D post c' := by
  have hstarted := started_next h.started hnext
  rcases next_cases hnext with ⟨t, request, rfl, hnone, rfl⟩ | ⟨t, i, request, start, op, next, rfl, htask, rfl⟩
  · refine ⟨h.inv, hstarted, fun u task hu => ?_⟩
    rcases updated_task hu with ⟨rfl, rfl⟩ | ⟨-, hu⟩
    · exact hprog u request c.world hcond h.inv fun e he heq => h.started e he (heq ▸ hnone)
    · exact h.calls u task hu
  · have hgiven : D.given t op i c.world := by
      rw [Allows, htask] at hcond
      exact hcond
    obtain ⟨hpromise, hstep⟩ := h.calls t _ htask c.world (D.refl t _) h.inv
    refine ⟨D.keeps t op i _ h.inv hpromise hgiven, hstarted, fun u task hu => ?_⟩
    rcases updated_task hu with ⟨rfl, rfl⟩ | ⟨hut, hu⟩
    · exact hstep i hgiven
    · exact (h.calls u task hu).stable (D.others t op i _ u hut h.inv hpromise hgiven)

theorem Discipline.sound (D : Discipline sys.exec)
    (hprog : ∀ t request w, admits request → D.inv w → w.Unused t → D.Wp t (post t request w)
      (sys.prog t request) w)
    (h : Kept sys D post c) (hcond : sys.Along (Allows admits D.given) c events)
    (hrun : sys.run c events = some c') : Kept sys D post c' :=
  run_induction (fun _ _ _ hkept hcond hnext => kept_next hprog hkept hcond hnext) h hcond hrun

theorem Discipline.sound_always (D : Discipline sys.exec) (hgiven : ∀ t op i w, D.given t op i w)
    (hprog : ∀ t request w, D.inv w → w.Unused t → D.Wp t (post t request w) (sys.prog t request) w)
    (h : Kept sys D post c) (hrun : sys.run c events = some c') :
    Kept sys D post c' := by
  exact D.sound (fun t request w (_ : True) => hprog t request w) h
    (along_always (fun _ => trivial) hgiven c events) hrun

theorem kept_init {s : σ}
    (h : D.inv ⟨s, []⟩) : Kept sys D post (Config.init s) where
  inv := h
  started := List.forall_mem_nil _
  calls := fun _ _ h => by cases h

theorem Kept.returned (h : Kept sys D post c) {a : α} (htask : c.task t = some task)
    (ha : task.rest = .ret a) : post t task.request task.start a c.world := by
  have hwp := h.calls t task htask
  rw [ha] at hwp
  exact hwp c.world (D.refl t _) h.inv

/-! ## Calls told by their own statements

A law says which statement may follow what a call has done so far. A call obeys it whatever the
store answers, so this needs no store; what the statements of lawful calls keep is then an invariant
of the world. -/

/-- Every statement of the call is allowed after those before it, and the call ends as `post` says.
`own` is what the call has done already. -/
def Prog.Obeys {β : Type} (t : ℕ) (law : List (Entry Ans) → Op → Prop) (post : List (Entry Ans) → β → Prop) :
    Prog Ans β → List (Entry Ans) → Prop
  | .ret a, own => post own a
  | .stmt op next, own => law own op ∧ ∀ a, Prog.Obeys t law post (next a) (⟨t, op, a⟩ :: own)

section Laws
variable {law : List (Entry Ans) → Op → Prop} {post : List (Entry Ans) → β → Prop}
  {own : List (Entry Ans)}

theorem obeys_ret {a : β} (h : post own a) : (pure a : Prog Ans β).Obeys t law post own := h

theorem obeys_op {op : Op} {f : Ans op → Prog Ans β} (hop : law own op)
    (hf : ∀ a, (f a).Obeys t law post (⟨t, op, a⟩ :: own)) : (Prog.op op >>= f).Obeys t law post own := ⟨hop, hf⟩

variable {p : Prog Ans β}

theorem obeys_ite {c : Prop} [Decidable c] {q : Prog Ans β} (hp : c → p.Obeys t law post own)
    (hq : ¬ c → q.Obeys t law post own) : (if c then p else q).Obeys t law post own := by
  by_cases h : c
  · rw [if_pos h]
    exact hp h
  · rw [if_neg h]
    exact hq h

theorem obeys_bind {p : Prog Ans γ} {f : γ → Prog Ans β}
    (h : p.Obeys t law (fun own c => (f c).Obeys t law post own) own) : (p >>= f).Obeys t law post own := by
  induction p generalizing own with
  | ret c => exact h
  | stmt op next ih => exact ⟨h.1, fun a => ih a (h.2 a)⟩

theorem Prog.Obeys.imp {post' : List (Entry Ans) → β → Prop} (himp : ∀ own a, post own a → post' own a)
    (h : p.Obeys t law post own) : p.Obeys t law post' own := by
  induction p generalizing own with
  | ret a => exact himp own a h
  | stmt op next ih => exact ⟨h.1, fun a => ih a (h.2 a)⟩

theorem Prog.Obeys.grows (h : p.Obeys t law post own) :
    p.Obeys t law (fun own' a => (∀ e ∈ own, e ∈ own') ∧ post own' a) own := by
  induction p generalizing own with
  | ret a => exact ⟨fun _ he => he, h⟩
  | stmt op next ih =>
    refine ⟨h.1, fun a => (ih a (h.2 a)).imp fun own' b hb => ⟨fun e he => ?_, hb.2⟩⟩
    exact hb.1 e (List.mem_cons_of_mem _ he)

theorem obeys_of_all {quiet : Op → Prop} (hquiet : ∀ own op, quiet op → law own op) (hp : p.All quiet) :
    p.Obeys t law (fun own' _ => ∃ more, own' = more ++ own ∧ ∀ e ∈ more, quiet e.op) own := by
  induction p generalizing own with
  | ret a => exact ⟨[], rfl, List.forall_mem_nil _⟩
  | stmt op next ih =>
    refine ⟨hquiet own op hp.1, fun a => (ih a (hp.2 a)).imp ?_⟩
    rintro own' _ ⟨more, rfl, hmore⟩
    refine ⟨more ++ [⟨t, op, a⟩], by rw [List.append_assoc, List.singleton_append], fun e he => ?_⟩
    rcases List.mem_append.mp he with he | he
    · exact hmore e he
    · rw [List.mem_singleton.mp he]
      exact hp.1

end Laws

theorem own_of_unused (h : w.Unused t) : w.own t = [] :=
  List.filter_eq_nil_iff.mpr fun e he heq => h e he (of_decide_eq_true heq)

structure Lawful (law : ℕ → List (Entry Ans) → Op → Prop) (post : ℕ → κ → List (Entry Ans) → α → Prop)
    (c : Config Ans σ κ α) : Prop where
  started : ∀ e ∈ c.world.log, c.task e.call ≠ none
  calls : ∀ t task, c.task t = some task → task.rest.Obeys t (law t) (post t task.request) (c.world.own t)

section Lawful
variable {law : ℕ → List (Entry Ans) → Op → Prop} {post : ℕ → κ → List (Entry Ans) → α → Prop}
  {admits : κ → Prop}
  {given : ℕ → Op → ι → World Ans σ → Prop}

theorem lawful_init {s : σ} : Lawful law post (Config.init s : Config Ans σ κ α) where
  started := List.forall_mem_nil _
  calls := fun _ _ h => by cases h

variable {c : Config Ans σ κ α}

theorem Lawful.unused (h : Lawful law post c) (hnone : c.task t = none) : c.world.Unused t :=
  fun e he heq => h.started e he (heq ▸ hnone)

variable {c' : Config Ans σ κ α}

/-- Statements that lawful calls may run keep `inv`. -/
def Keeps (exec : Semantics Ans σ ι) (law : ℕ → List (Entry Ans) → Op → Prop) (given : ℕ → Op → ι → World Ans σ → Prop)
    (inv : World Ans σ → Prop) : Prop :=
  ∀ t op i w, inv w → law t (w.own t) op → given t op i w → inv (w.step exec t op i)

variable {inv : World Ans σ → Prop}

theorem keeps_next (keeps : Keeps sys.exec law given inv) {e : Event κ ι} (h : Lawful law post c)
    (hinv : inv c.world) (hcond : Allows admits given c e) (hnext : sys.next c e = some c') :
    inv c'.world := by
  rcases next_cases hnext with ⟨t, request, rfl, hnone, rfl⟩ | ⟨t, i, request, start, op, next, rfl, htask, rfl⟩
  · exact hinv
  · rw [Allows, htask] at hcond
    exact keeps t op i c.world hinv (h.calls t _ htask).1 hcond

variable (hprog : ∀ t request, admits request → (sys.prog t request).Obeys t (law t)
  (post t request) [])
include hprog

theorem lawful_next {e : Event κ ι} (h : Lawful law post c) (hcond : Allows admits given c e)
    (hnext : sys.next c e = some c') : Lawful law post c' := by
  refine ⟨started_next h.started hnext, fun u task hu => ?_⟩
  rcases next_cases hnext with ⟨t, request, rfl, hnone, rfl⟩ | ⟨t, i, request, start, op, next, rfl, htask, rfl⟩
  · rcases updated_task hu with ⟨rfl, rfl⟩ | ⟨-, hu⟩
    · dsimp only
      rw [own_of_unused (h.unused hnone)]
      exact hprog u request hcond
    · exact h.calls u task hu
  · rcases updated_task hu with ⟨rfl, rfl⟩ | ⟨hut, hu⟩
    · dsimp only
      rw [own_step_self]
      exact (h.calls u _ htask).2 _
    · dsimp only
      rw [own_step_of_ne _ op i _ hut]
      exact h.calls u task hu

variable {events : List (Event κ ι)}

theorem lawful_from (keeps : Keeps sys.exec law given inv)
    (h : Lawful law post c) (hinv : inv c.world) (hcond : sys.Along (Allows admits given) c events)
    (hrun : sys.run c events = some c') : Lawful law post c' ∧ inv c'.world := by
  refine run_induction (P := fun c => Lawful law post c ∧ inv c.world)
    (fun c e c' hc hcond hnext => ?_) ⟨h, hinv⟩ hcond hrun
  exact ⟨lawful_next hprog hc.1 hcond hnext, keeps_next keeps hc.1 hc.2 hcond hnext⟩

variable (sys) in
theorem lawful_run (keeps : Keeps sys.exec law given inv) {s : σ} (hinit : inv ⟨s, []⟩)
    (hcond : sys.Along (Allows admits given) (Config.init s) events) (hrun : sys.run (Config.init s) events = some c) :
    inv c.world ∧ ∀ t task a, c.task t = some task → task.rest = .ret a → post t task.request (c.world.own t) a := by
  obtain ⟨hlawful, hinv⟩ := lawful_from hprog keeps (lawful_init : Lawful law post _) hinit hcond hrun
  refine ⟨hinv, fun t task a htask ha => ?_⟩
  have hobeys := hlawful.calls t task htask
  rw [ha] at hobeys
  exact hobeys

theorem lawful_log {s : σ} (hcond : sys.Along (Allows admits given) (Config.init s) events)
    (hrun : sys.run (Config.init s) events = some c) :
    ∀ e ∈ c.world.log, ∃ own, (∀ e' ∈ own, e' ∈ c.world.log) ∧ law e.call own e.op := by
  let inv : World Ans σ → Prop := fun w => ∀ e ∈ w.log, ∃ own, (∀ e' ∈ own, e' ∈ w.log) ∧ law e.call own e.op
  have keeps : Keeps sys.exec law given inv := by
    intro t op i w hinv hlaw _ e he
    rcases List.mem_cons.mp he with rfl | he
    · exact ⟨w.own t, fun e' he' => List.mem_cons_of_mem _ (mem_own.mp he').1, hlaw⟩
    · obtain ⟨own, hown, hlaw⟩ := hinv e he
      exact ⟨own, fun e' he' => List.mem_cons_of_mem _ (hown e' he'), hlaw⟩
  exact (lawful_run sys hprog keeps (List.forall_mem_nil _) hcond hrun).1

variable (sys) in
theorem lawful_since (keeps : Keeps sys.exec law given inv) (rel : World Ans σ → World Ans σ → Prop)
    (refl : ∀ w, rel w w) (trans : ∀ w₁ w₂ w₃, rel w₁ w₂ → rel w₂ w₃ → rel w₁ w₃)
    (step : ∀ t op i w, inv w → law t (w.own t) op → given t op i w → rel w (w.step sys.exec t op i)) {s : σ}
    (hinit : inv ⟨s, []⟩) {later : List (Event κ ι)}
    (hcond : sys.Along (Allows admits given) (Config.init s) (events ++ later))
    (hrun : sys.run (Config.init s) events = some c) (hlater : sys.run c later = some c') :
    inv c.world ∧ rel c.world c'.world := by
  obtain ⟨hcond, hcond'⟩ := along_append hcond hrun
  obtain ⟨hlawful, hinv⟩ := lawful_from hprog keeps (lawful_init : Lawful law post _) hinit hcond hrun
  have hkeeps : Keeps sys.exec law given fun w => inv w ∧ rel c.world w := fun t op i w h hlaw hgiven =>
    ⟨keeps t op i w h.1 hlaw hgiven, trans _ _ _ h.2 (step t op i w h.1 hlaw hgiven)⟩
  exact ⟨hinv, (lawful_from hprog hkeeps hlawful ⟨hinv, refl _⟩ hcond' hlater).2.2⟩

end Lawful

end Schedules

/-! ## One call by itself, on two stores

A call that runs with no other meets a sequence of chances, one for each statement. It ends alike on
two stores if each of its statements is answered alike on stores that are related, and leaves them
related; where a statement tells them apart, what is left of the call has to end alike all the same.
-/

section TwoRuns
variable {Op : Type} {Ans : Op → Type} {σ ι α β : Type} {exec : Semantics Ans σ ι}

/-- A call by itself in which all statements meet one chance: its result and the store it leaves. -/
def Prog.solo (exec : Semantics Ans σ ι) (i : ι) : Prog Ans α → σ → α × σ
  | .ret a, s => (a, s)
  | .stmt op next, s => (next (exec op i s).1).solo exec i (exec op i s).2

theorem solo_bind (i : ι) (p : Prog Ans α) (f : α → Prog Ans β) (s : σ) :
    (p >>= f).solo exec i s = (f (p.solo exec i s).1).solo exec i (p.solo exec i s).2 := by
  induction p generalizing s with
  | ret a => rfl
  | stmt op next ih => exact ih _ _

theorem solo_keeps {P : σ → Prop} {allowed : Op → Prop} {i : ι} (hstep : ∀ op s, allowed op → P s → P (exec op i s).2)
    {p : Prog Ans α} (hp : p.All allowed) {s : σ} (hs : P s) : P (p.solo exec i s).2 := by
  induction p generalizing s with
  | ret a => exact hs
  | stmt op next ih => exact ih _ (hp.2 _) (hstep op s hp.1 hs)

end TwoRuns

/-! ## The statements of a run on another store

What a store would be if its statements had acted on it in another way: the schedule and what the
calls ask for are those of the run, and the other store follows it statement by statement. -/

section Replay
variable {Op : Type} {Ans : Op → Type} {σ ι κ α : Type} (sys : System Ans σ ι κ α)
  (exec : Semantics Ans σ ι)

def Config.replayed (c : Config Ans σ κ α) (s : σ) : Event κ ι → σ
  | .start _ _ => s
  | .step t i =>
    match c.task t with
    | some ⟨_, _, .stmt op _⟩ => (exec op i s).2
    | _ => s

def System.replay : Config Ans σ κ α → σ → List (Event κ ι) → σ
  | _, s, [] => s
  | c, s, e :: events =>
    match sys.next c e with
    | none => s
    | some c' => System.replay c' (c.replayed exec s e) events

variable {sys exec}

theorem replayed_of_allowed {admits : κ → Prop} {given : ℕ → Op → ι → World Ans σ → Prop}
    (hsame : ∀ t op i w, given t op i w → (exec op i w.store).2 = (sys.exec op i w.store).2)
    {c c' : Config Ans σ κ α} {e : Event κ ι} (hallows : Allows admits given c e)
    (hnext : sys.next c e = some c') : c.replayed exec c.world.store e = c'.world.store := by
  rcases next_cases hnext with ⟨t, request, rfl, -, rfl⟩ | ⟨t, i, request, start, op, next, rfl, htask, rfl⟩
  · rfl
  · rw [Allows, htask] at hallows
    rw [Config.replayed, htask]
    exact hsame t op i c.world hallows

theorem replay_eq {admits : κ → Prop} {given : ℕ → Op → ι → World Ans σ → Prop}
    (hsame : ∀ t op i w, given t op i w → (exec op i w.store).2 = (sys.exec op i w.store).2)
    {c c' : Config Ans σ κ α} {events : List (Event κ ι)}
    (hcond : sys.Along (Allows admits given) c events) (hrun : sys.run c events = some c') :
    sys.replay exec c c.world.store events = c'.world.store := by
  induction events generalizing c with
  | nil =>
    cases hrun
    rfl
  | cons e events ih =>
    obtain ⟨c₁, hnext, hrun⟩ := run_cons hrun
    rw [System.replay, hnext]
    rw [replayed_of_allowed hsame hcond.1 hnext]
    exact ih (hcond.2 c₁ hnext) hrun

end Replay
end Portlyn.Lib.Interleave
