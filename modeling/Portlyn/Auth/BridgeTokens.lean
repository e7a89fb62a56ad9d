import Portlyn.Lib.Interleave
import Portlyn.Rate.Limiters

/-! # Bridge tokens are consumed by counting (`ConsumeBridgeToken`)

The calls of one process that has a distributed limiter and one of its own to fall back on. The
distributed limiter answers a call or fails; when it fails, the call may have been counted all the
same. The clock of the fallback is read before its lock is taken, so other calls may come between.

Each limiter alone says yes once. A token is used twice exactly when the first call that the
distributed limiter counts gets its answer and another one falls back (`bridgeToken_usedOnce_iff`).
-/
namespace Portlyn.Auth.BridgeTokens
open Go Rate Lib.Interleave
set_option autoImplicit false

/-! ## Statements -/

inductive LimiterOp
  | distributed (key : GoString)
  | now
  | fallback (key : GoString) (time : Instant)
  | tick (d : ℕ)

inductive DistributedAnswer
  | answered (allowed : Bool)
  | failed (counted : Bool)

@[reducible] def LimiterAns : LimiterOp → Type
  | .distributed _ => DistributedAnswer
  | .now => Instant
  | .fallback _ _ => Bool
  | .tick _ => Unit

structure Limiters where
  distributed : RedisCounters
  fallback : LocalLimiter
  clock : Instant

inductive Availability
  | answers
  | fails (counted : Bool)

def bridgeWindow : ℤ := 300 * 1000000000

def LimiterOp.exec : Semantics LimiterAns Limiters Availability
  | .distributed key, .answers, s =>
    let result := s.distributed.allow s.clock key 1 bridgeWindow
    (.answered result.1.allowed, { s with distributed := result.2 })
  | .distributed key, .fails counted, s =>
    (.failed counted, if counted then
      { s with distributed := (s.distributed.allow s.clock key 1 bridgeWindow).2 } else s)
  | .now, _, s => (s.clock, s)
  | .fallback key time, _, s =>
    let result := s.fallback.allow time key 1 bridgeWindow
    (result.1.allowed, { s with fallback := result.2 })
  | .tick d, _, s => ((), { s with clock := s.clock + d })

/-! ## Calls -/

def distributedAllow (key : GoString) : Prog LimiterAns DistributedAnswer :=
  Prog.op (LimiterOp.distributed key)

def timeNow : Prog LimiterAns Instant := Prog.op LimiterOp.now

def fallbackAllow (key : GoString) (time : Instant) : Prog LimiterAns Bool :=
  Prog.op (LimiterOp.fallback key time)

def bridgeKey (jti : GoString) : GoString := str "bridge-jti:" ++ jti

def consumeBridgeToken (jti : GoString) : Prog LimiterAns Bool := do
  if trimSpace jti = [] then return false
  else
    match ← distributedAllow (bridgeKey jti) with
    | .answered allowed => return allowed
    | .failed _ =>
      let now ← timeNow
      fallbackAllow (bridgeKey jti) now

inductive LimiterRequest
  | consume (jti : GoString)
  | pass (d : ℕ)

def LimiterRequest.prog : LimiterRequest → Prog LimiterAns Bool
  | .consume jti => consumeBridgeToken jti
  | .pass d => do
    let _ ← Prog.op (LimiterOp.tick d)
    return false

def limiterSystem : System LimiterAns Limiters Availability LimiterRequest Bool where
  exec := LimiterOp.exec
  prog := fun _ request => request.prog

abbrev LimiterWorld := World LimiterAns Limiters
abbrev LimiterEntry := Entry LimiterAns
abbrev LimiterConfig := Config LimiterAns Limiters LimiterRequest Bool

def Used (jti : GoString) (c : LimiterConfig) (t : ℕ) : Prop :=
  ∃ task, c.task t = some task ∧ task.request = .consume jti ∧ task.rest = .ret true

def UsedOnce (jti : GoString) (c : LimiterConfig) : Prop := ∀ t t', Used jti c t → Used jti c t' → t = t'

def tokenLife : ℤ := 120 * 1000000000

def LimiterOp.key : LimiterOp → Option GoString
  | .distributed key => some key
  | .fallback key _ => some key
  | _ => none

def DuringLife (jti : GoString) (issued : Instant) : ℕ → LimiterOp → Availability → LimiterWorld → Prop :=
  fun _ op _ w => op.key = some (bridgeKey jti) → issued ≤ w.store.clock ∧ w.store.clock ≤ issued + tokenLife

/-! ## What the log tells -/

/-- The call that a statement counts at the distributed limiter, and whether it gets its answer. -/
def countedBy (key : GoString) : LimiterEntry → Option (ℕ × Bool)
  | ⟨t, .distributed key', .answered _⟩ => if key' = key then some (t, true) else none
  | ⟨t, .distributed key', .failed true⟩ => if key' = key then some (t, false) else none
  | _ => none

def fallenBackBy (key : GoString) : LimiterEntry → Option ℕ
  | ⟨t, .fallback key' _, _⟩ => if key' = key then some t else none
  | _ => none

/-- The first of a log for which `f` has something to tell. -/
def firstTold {α : Type} (f : LimiterEntry → Option α) : List LimiterEntry → Option α
  | [] => none
  | e :: earlier => (firstTold f earlier).or (f e)

def AnsweredFirst (jti : GoString) (log : List LimiterEntry) : Prop :=
  ∃ t, firstTold (countedBy (bridgeKey jti)) log = some (t, true)

def FellBack (jti : GoString) (log : List LimiterEntry) : Prop :=
  ∃ t, firstTold (fallenBackBy (bridgeKey jti)) log = some t

def AllowedByDistributed (key : GoString) (log : List LimiterEntry) (t : ℕ) : Prop :=
  (⟨t, .distributed key, .answered true⟩ : LimiterEntry) ∈ log

def AllowedByFallback (key : GoString) (log : List LimiterEntry) (t : ℕ) : Prop :=
  ∃ time, (⟨t, .fallback key time, true⟩ : LimiterEntry) ∈ log

theorem firstTold_cons_of_some {α : Type} {f : LimiterEntry → Option α} {log : List LimiterEntry} {a : α}
    (h : firstTold f log = some a) (e : LimiterEntry) : firstTold f (e :: log) = some a := by
  rw [firstTold, h, Option.some_or]

theorem firstTold_cons_of_none {α : Type} {f : LimiterEntry → Option α} {log : List LimiterEntry}
    (h : firstTold f log = none) (e : LimiterEntry) : firstTold f (e :: log) = f e := by
  rw [firstTold, h, Option.none_or]

theorem firstTold_cons_of_silent {α : Type} {f : LimiterEntry → Option α} {e : LimiterEntry}
    (h : f e = none) (log : List LimiterEntry) : firstTold f (e :: log) = firstTold f log := by
  rw [firstTold, h, Option.or_none]

/-! ## What a call does -/

def ConsumeLaw (t : ℕ) (own : List LimiterEntry) : LimiterOp → Prop
  | .distributed _ => own = []
  | .now => ∃ key counted, own = [⟨t, .distributed key, .failed counted⟩]
  | .fallback key time => ∃ counted, own = [⟨t, .now, time⟩, ⟨t, .distributed key, .failed counted⟩]
  | .tick _ => own = []

def ConsumeEnd (t : ℕ) (own : List LimiterEntry) (a : Bool) : LimiterRequest → Prop
  | .consume jti =>
    (own = [] ∧ a = false) ∨ own = [⟨t, .distributed (bridgeKey jti), .answered a⟩] ∨
      ∃ time counted, own = [⟨t, .fallback (bridgeKey jti) time, a⟩, ⟨t, .now, time⟩,
        ⟨t, .distributed (bridgeKey jti), .failed counted⟩]
  | .pass d => own = [⟨t, .tick d, ()⟩]

theorem prog_obeys (t : ℕ) (request : LimiterRequest) :
    (limiterSystem.prog t request).Obeys t (ConsumeLaw t) (fun own a => ConsumeEnd t own a request) [] := by
  cases request with
  | pass d => exact obeys_op rfl fun _ => rfl
  | consume jti =>
    change (consumeBridgeToken jti).Obeys t (ConsumeLaw t) _ []
    refine obeys_ite (fun _ => Or.inl ⟨rfl, rfl⟩) fun _ => obeys_op rfl fun answer => ?_
    cases answer with
    | answered allowed => exact Or.inr (Or.inl rfl)
    | failed counted =>
      refine obeys_op ⟨_, counted, rfl⟩ fun time => ⟨⟨counted, rfl⟩, fun allowed => ?_⟩
      exact Or.inr (Or.inr ⟨time, counted, rfl⟩)

/-! ## The distributed limiter says yes once -/

section Invariants
variable {jti : GoString} {issued : Instant} {w : LimiterWorld}

/-- While the token lives, its counter exists from the first call that is counted, and only that
call can have been allowed. -/
structure CounterInv (jti : GoString) (issued : Instant) (w : LimiterWorld) : Prop where
  fresh : firstTold (countedBy (bridgeKey jti)) w.log = none → w.store.distributed (bridgeKey jti) = none
  counter : ∀ first, firstTold (countedBy (bridgeKey jti)) w.log = some first →
    ∃ n expiry, w.store.distributed (bridgeKey jti) = some (n, expiry) ∧ 1 ≤ n ∧ issued + tokenLife < expiry
  allowed : ∀ t, AllowedByDistributed (bridgeKey jti) w.log t ↔
    firstTold (countedBy (bridgeKey jti)) w.log = some (t, true)

variable {e : LimiterEntry} {s : Limiters}

theorem CounterInv.silent (h : CounterInv jti issued w)
    (hsame : s.distributed (bridgeKey jti) = w.store.distributed (bridgeKey jti))
    (he : countedBy (bridgeKey jti) e = none) : CounterInv jti issued ⟨s, e :: w.log⟩ := by
  have hfirst := firstTold_cons_of_silent he w.log
  refine ⟨fun hnone => ?_, fun first hsome => ?_, fun t => ?_⟩
  · rw [hfirst] at hnone
    exact hsame.trans (h.fresh hnone)
  · rw [hfirst] at hsome
    obtain ⟨n, expiry, hcounter, hn⟩ := h.counter first hsome
    exact ⟨n, expiry, hsame.trans hcounter, hn⟩
  · rw [hfirst, ← h.allowed t]
    refine ⟨fun hmem => (List.mem_cons.mp hmem).resolve_left fun heq => ?_, fun hmem => List.mem_cons_of_mem _ hmem⟩
    rw [← heq, countedBy, if_pos rfl] at he
    cases he

theorem CounterInv.first (h : CounterInv jti issued w) (hnone : firstTold (countedBy (bridgeKey jti)) w.log = none)
    {t : ℕ} {answered : Bool} (he : countedBy (bridgeKey jti) e = some (t, answered))
    (hentry : ∀ t', e = ⟨t', .distributed (bridgeKey jti), .answered true⟩ ↔ t' = t ∧ answered = true)
    {n : ℕ} {expiry : Instant} (hcounter : s.distributed (bridgeKey jti) = some (n, expiry)) (hn : 1 ≤ n)
    (hexpiry : issued + tokenLife < expiry) : CounterInv jti issued ⟨s, e :: w.log⟩ := by
  have hfirst : firstTold (countedBy (bridgeKey jti)) (e :: w.log) = some (t, answered) :=
    (firstTold_cons_of_none hnone e).trans he
  refine ⟨fun hnone' => ?_, fun _ _ => ⟨n, expiry, hcounter, hn, hexpiry⟩, fun t' => ?_⟩
  · rw [hfirst] at hnone'
    cases hnone'
  · rw [hfirst, Option.some.injEq, Prod.mk.injEq]
    constructor
    · intro hmem
      rcases List.mem_cons.mp hmem with heq | hmem
      · obtain ⟨rfl, hanswered⟩ := (hentry t').mp heq.symm
        exact ⟨rfl, hanswered⟩
      · have hallowed := (h.allowed t').mp hmem
        rw [hnone] at hallowed
        cases hallowed
    · rintro ⟨rfl, hanswered⟩
      exact List.mem_cons.mpr (Or.inl ((hentry t).mpr ⟨rfl, hanswered⟩).symm)

theorem CounterInv.later (h : CounterInv jti issued w) {first : ℕ × Bool}
    (hsome : firstTold (countedBy (bridgeKey jti)) w.log = some first)
    (hentry : ∀ t, e ≠ ⟨t, .distributed (bridgeKey jti), .answered true⟩) {n : ℕ} {expiry : Instant}
    (hcounter : s.distributed (bridgeKey jti) = some (n, expiry)) (hn : 1 ≤ n)
    (hexpiry : issued + tokenLife < expiry) : CounterInv jti issued ⟨s, e :: w.log⟩ := by
  have hfirst := firstTold_cons_of_some hsome e
  refine ⟨fun hnone => ?_, fun _ _ => ⟨n, expiry, hcounter, hn, hexpiry⟩, fun t => ?_⟩
  · rw [hfirst] at hnone
    cases hnone
  · rw [hfirst, ← hsome, ← h.allowed t]
    exact ⟨fun hmem => (List.mem_cons.mp hmem).resolve_left fun heq => hentry t heq.symm,
      fun hmem => List.mem_cons_of_mem _ hmem⟩

theorem CounterInv.count (h : CounterInv jti issued w) (hissued : issued ≤ w.store.clock)
    (halive : w.store.clock ≤ issued + tokenLife) :
    ∃ n expiry, (w.store.distributed.allow w.store.clock (bridgeKey jti) 1 bridgeWindow).2
      (bridgeKey jti) = some (n, expiry) ∧
      1 ≤ n ∧ issued + tokenLife < expiry ∧
      (w.store.distributed.allow w.store.clock (bridgeKey jti) 1 bridgeWindow).1.allowed =
        (firstTold (countedBy (bridgeKey jti)) w.log).isNone := by
  have hwindow : wholeMilliseconds bridgeWindow = bridgeWindow := by decide
  rw [RedisCounters.allow, if_neg (by decide)]
  dsimp only
  rw [Function.update_self]
  cases hfirst : firstTold (countedBy (bridgeKey jti)) w.log with
  | none =>
    rw [RedisCounters.count, h.fresh hfirst]
    refine ⟨1, _, rfl, le_refl 1, ?_, rfl⟩
    exact add_lt_add_of_le_of_lt hissued (by decide)
  | some first =>
    obtain ⟨n, expiry, hcounter, hn, hexpiry⟩ := h.counter first hfirst
    have hlive : w.store.clock < expiry := lt_of_le_of_lt halive hexpiry
    have hcount : w.store.distributed.count w.store.clock (bridgeKey jti) bridgeWindow = (n + 1, expiry) := by
      rw [RedisCounters.count, hcounter]
      exact if_pos hlive
    rw [hcount]
    refine ⟨n + 1, expiry, rfl, Nat.le_add_left 1 n, hexpiry, decide_eq_false ?_⟩
    omega

theorem CounterInv.counted (h : CounterInv jti issued w) {t : ℕ} {i : Availability}
    (hgiven : DuringLife jti issued t (.distributed (bridgeKey jti)) i w) (hi : i ≠ .fails false) :
    CounterInv jti issued (w.step LimiterOp.exec t (.distributed (bridgeKey jti)) i) := by
  obtain ⟨hissued, halive⟩ := hgiven rfl
  obtain ⟨n, expiry, hcounter, hn, hexpiry, hallowed⟩ := h.count hissued halive
  cases i with
  | fails counted =>
    obtain rfl : counted = true := by simpa using hi
    cases hfirst : firstTold (countedBy (bridgeKey jti)) w.log with
    | none => exact h.first hfirst (if_pos rfl) (fun _ => ⟨nofun, nofun⟩) hcounter hn hexpiry
    | some first => exact h.later hfirst nofun hcounter hn hexpiry
  | answers =>
    cases hfirst : firstTold (countedBy (bridgeKey jti)) w.log with
    | none =>
      rw [hfirst] at hallowed
      refine h.first hfirst (if_pos rfl) (fun t' => ?_) hcounter hn hexpiry
      rw [World.answer, LimiterOp.exec]
      rw [hallowed]
      exact ⟨fun heq => ⟨(congrArg Entry.call heq).symm, rfl⟩, fun heq => heq.1 ▸ rfl⟩
    | some first =>
      rw [hfirst] at hallowed
      refine h.later hfirst (fun t' heq => ?_) hcounter hn hexpiry
      rw [World.answer, LimiterOp.exec] at heq
      rw [hallowed] at heq
      cases heq

theorem counterInv_step (t : ℕ) (op : LimiterOp) (i : Availability) (h : CounterInv jti issued w)
    (hgiven : DuringLife jti issued t op i w) : CounterInv jti issued (w.step LimiterOp.exec t op i) := by
  cases op with
  | distributed key =>
    by_cases hkey : key = bridgeKey jti
    · subst hkey
      by_cases hi : i = .fails false
      · subst hi
        exact h.silent rfl rfl
      · exact h.counted hgiven hi
    · have hother := RedisCounters.allow_other w.store.distributed w.store.clock (Ne.symm hkey) 1 bridgeWindow
      cases i with
      | answers => exact h.silent hother (if_neg hkey)
      | fails counted =>
        cases counted with
        | true => exact h.silent hother (if_neg hkey)
        | false => exact h.silent rfl rfl
  | _ => exact h.silent rfl rfl

/-! ## The fallback says yes once -/

/-- A call that has read the clock has read a time of the past, and of the token's life if it is for
the token. -/
structure TimesInv (jti : GoString) (issued : Instant) (w : LimiterWorld) : Prop where
  begun : ∀ t counted, w.own t = [⟨t, .distributed (bridgeKey jti), .failed counted⟩] → issued ≤ w.store.clock
  read : ∀ t key time counted, w.own t = [⟨t, .now, time⟩, ⟨t, .distributed key, .failed counted⟩] →
    time ≤ w.store.clock ∧ (key = bridgeKey jti → issued ≤ time)

theorem clock_le_step (t : ℕ) (op : LimiterOp) (i : Availability) (w : LimiterWorld) :
    w.store.clock ≤ (w.step LimiterOp.exec t op i).store.clock := by
  cases op with
  | tick d => exact Int.le_add_of_nonneg_right (Int.natCast_nonneg d)
  | distributed key =>
    cases i with
    | answers => exact le_refl _
    | fails counted => cases counted <;> exact le_refl _
  | _ => exact le_refl _

theorem timesInv_step (t : ℕ) (op : LimiterOp) (i : Availability) (h : TimesInv jti issued w)
    (hgiven : DuringLife jti issued t op i w) : TimesInv jti issued (w.step LimiterOp.exec t op i) := by
  have hclock := clock_le_step t op i w
  refine ⟨fun u counted hown => ?_, fun u key time counted hown => ?_⟩
  · by_cases hu : u = t
    · subst hu
      rw [own_step_self, List.cons.injEq] at hown
      cases op with
      | distributed key =>
        have hkey : LimiterOp.distributed key = .distributed (bridgeKey jti) := congrArg Entry.op hown.1
        exact (hgiven (congrArg LimiterOp.key hkey)).1.trans hclock
      | _ => cases congrArg Entry.op hown.1
    · rw [own_step_of_ne _ _ _ _ hu] at hown
      exact (h.begun u counted hown).trans hclock
  · by_cases hu : u = t
    · subst hu
      rw [own_step_self, List.cons.injEq] at hown
      cases op with
      | now =>
        obtain ⟨hentry, hown⟩ := hown
        cases hentry
        exact ⟨le_refl _, fun hkey => h.begun u counted (hkey ▸ hown)⟩
      | _ => cases congrArg Entry.op hown.1
    · rw [own_step_of_ne _ _ _ _ hu] at hown
      obtain ⟨htime, hissued⟩ := h.read u key time counted hown
      exact ⟨htime.trans hclock, hissued⟩

/-- While the token lives, its bucket is empty until a call falls back, and only the first such call
can have been allowed. -/
structure BucketInv (jti : GoString) (issued : Instant) (w : LimiterWorld) : Prop where
  bucket : w.store.clock ≤ issued + tokenLife →
    (w.store.fallback.buckets (bridgeKey jti) = [] ↔ firstTold (fallenBackBy (bridgeKey jti)) w.log = none) ∧
      ∀ ts ∈ w.store.fallback.buckets (bridgeKey jti), issued ≤ ts
  allowed : ∀ t, AllowedByFallback (bridgeKey jti) w.log t ↔ firstTold (fallenBackBy (bridgeKey jti)) w.log = some t

theorem recent_of_alive {time clock issued ts age : ℤ} (htime : time ≤ clock) (halive : clock ≤ issued + tokenLife)
    (hts : issued ≤ ts) (hage : tokenLife < age) : time - age < ts := by
  omega

theorem BucketInv.silent (h : BucketInv jti issued w) (hclock : w.store.clock ≤ s.clock)
    (hsame : s.clock ≤ issued + tokenLife → s.fallback.buckets (bridgeKey jti) =
      w.store.fallback.buckets (bridgeKey jti))
    (he : fallenBackBy (bridgeKey jti) e = none) : BucketInv jti issued ⟨s, e :: w.log⟩ := by
  have hfirst := firstTold_cons_of_silent he w.log
  refine ⟨fun halive => ?_, fun t => ?_⟩
  · rw [hfirst, hsame halive]
    exact h.bucket (hclock.trans halive)
  · rw [hfirst, ← h.allowed t]
    refine ⟨fun ⟨time, hmem⟩ => ⟨time, (List.mem_cons.mp hmem).resolve_left fun heq => ?_⟩, fun ⟨time, hmem⟩ =>
      ⟨time, List.mem_cons_of_mem _ hmem⟩⟩
    rw [← heq, fallenBackBy, if_pos rfl] at he
    cases he

theorem BucketInv.fallBack (h : BucketInv jti issued w) {t : ℕ} {i : Availability} {time : Instant}
    (hissued : issued ≤ time) (htime : time ≤ w.store.clock)
    (halive : w.store.clock ≤ issued + tokenLife) :
    BucketInv jti issued (w.step LimiterOp.exec t (.fallback (bridgeKey jti) time) i) := by
  obtain ⟨hempty, hwithin⟩ := h.bucket halive
  have hwindow : ∀ ts ∈ w.store.fallback.buckets (bridgeKey jti), time - bridgeWindow < ts := by
    intro ts hts
    exact recent_of_alive htime halive (hwithin ts hts) (by decide)
  obtain ⟨hbucket, hallowed⟩ := LocalLimiter.allow_self (by decide : (0 : ℤ) < 1) (by decide) (by decide) hwindow
  have hstep : (w.step LimiterOp.exec t (.fallback (bridgeKey jti) time) i).log =
      ⟨t, .fallback (bridgeKey jti) time,
        (w.store.fallback.allow time (bridgeKey jti) 1 bridgeWindow).1.allowed⟩ :: w.log := rfl
  refine ⟨fun _ => ⟨?_, fun ts hts => ?_⟩, fun t' => ?_⟩
  · rw [hstep]
    refine ⟨fun hnil => ?_, fun hnone => ?_⟩
    · exact absurd (hbucket.symm.trans hnil) (List.append_ne_nil_of_right_ne_nil _ (List.cons_ne_nil _ _))
    · rw [firstTold, fallenBackBy, if_pos rfl, Option.or_eq_none_iff] at hnone
      cases hnone.2
  · rw [World.step, LimiterOp.exec] at hts
    rw [hbucket] at hts
    rcases List.mem_append.mp hts with hts | hts
    · exact hwithin ts hts
    · rw [List.mem_singleton.mp hts]
      exact hissued
  · rw [hstep]
    cases hfirst : firstTold (fallenBackBy (bridgeKey jti)) w.log with
    | none =>
      rw [hempty.mpr hfirst] at hallowed
      rw [firstTold_cons_of_none hfirst, fallenBackBy, if_pos rfl, Option.some.injEq, hallowed]
      constructor
      · rintro ⟨time', hmem⟩
        rcases List.mem_cons.mp hmem with heq | hmem
        · exact (congrArg Entry.call heq).symm
        · have hbefore := (h.allowed t').mp ⟨time', hmem⟩
          rw [hfirst] at hbefore
          cases hbefore
      · rintro rfl
        exact ⟨time, List.mem_cons_self⟩
    | some first =>
      have hlength : 0 < (w.store.fallback.buckets (bridgeKey jti)).length := by
        refine List.length_pos_of_ne_nil fun hnil => ?_
        rw [hempty.mp hnil] at hfirst
        cases hfirst
      have hno : (w.store.fallback.allow time (bridgeKey jti) 1 bridgeWindow).1.allowed = false := by
        rw [hallowed]
        exact decide_eq_false (by omega)
      rw [firstTold_cons_of_some hfirst, ← hfirst, ← h.allowed t', hno]
      refine ⟨fun ⟨time', hmem⟩ => ⟨time', (List.mem_cons.mp hmem).resolve_left fun heq => ?_⟩, fun ⟨time', hmem⟩ =>
        ⟨time', List.mem_cons_of_mem _ hmem⟩⟩
      cases heq

theorem bucketInv_step (t : ℕ) (op : LimiterOp) (i : Availability) (h : BucketInv jti issued w)
    (htimes : TimesInv jti issued w) (hlaw : ConsumeLaw t (w.own t) op)
    (hgiven : DuringLife jti issued t op i w) :
    BucketInv jti issued (w.step LimiterOp.exec t op i) := by
  have hclock := clock_le_step t op i w
  cases op with
  | distributed key =>
    cases i with
    | answers => exact h.silent hclock (fun _ => rfl) rfl
    | fails counted => cases counted <;> exact h.silent hclock (fun _ => rfl) rfl
  | fallback key time =>
    obtain ⟨counted, hown⟩ := hlaw
    obtain ⟨htime, hissued⟩ := htimes.read t key time counted hown
    by_cases hkey : key = bridgeKey jti
    · subst hkey
      exact h.fallBack (hissued rfl) htime (hgiven rfl).2
    · refine h.silent hclock (fun halive => LocalLimiter.allow_other (Ne.symm hkey) fun ts hts => ?_) (if_neg hkey)
      -- what came before in the life of the token is less than an hour old
      exact recent_of_alive htime halive ((h.bucket halive).2 ts hts) (by decide)
  | _ => exact h.silent hclock (fun _ => rfl) rfl

end Invariants

/-! ## Runs -/

structure TokenInv (jti : GoString) (issued : Instant) (w : LimiterWorld) : Prop where
  counter : CounterInv jti issued w
  times : TimesInv jti issued w
  bucket : BucketInv jti issued w

theorem tokenInv_keeps (jti : GoString) (issued : Instant) :
    Keeps LimiterOp.exec ConsumeLaw (DuringLife jti issued) (TokenInv jti issued) :=
  fun t op i _ h hlaw hgiven => ⟨counterInv_step t op i h.counter hgiven, timesInv_step t op i h.times hgiven,
    bucketInv_step t op i h.bucket h.times hlaw hgiven⟩

theorem tokenInv_init {jti : GoString} (issued : Instant) {s : Limiters}
    (hdistributed : s.distributed (bridgeKey jti) = none)
    (hfallback : s.fallback.buckets (bridgeKey jti) = []) : TokenInv jti issued ⟨s, []⟩ where
  counter := ⟨fun _ => hdistributed, nofun, fun _ => ⟨nofun, nofun⟩⟩
  times := ⟨nofun, nofun⟩
  bucket := by
    refine ⟨fun _ => ⟨⟨fun _ => rfl, fun _ => hfallback⟩, fun ts hts => ?_⟩, fun _ => ⟨nofun, nofun⟩⟩
    rw [hfallback] at hts
    cases hts

section Ends
variable {jti : GoString} {c : LimiterConfig} {t : ℕ}

abbrev Consuming (c : LimiterConfig) : Prop :=
  Lawful ConsumeLaw (fun t request own a => ConsumeEnd t own a request) c

theorem bridgeKey_injective : Function.Injective bridgeKey := fun _ _ h => List.append_cancel_left h

theorem allowed_of_used (hcalls : Consuming c) (h : Used jti c t) :
    AllowedByDistributed (bridgeKey jti) c.world.log t ∨ AllowedByFallback (bridgeKey jti) c.world.log t := by
  obtain ⟨task, htask, hrequest, hret⟩ := h
  have hend := hcalls.calls t task htask
  rw [hret] at hend
  rw [hrequest] at hend
  rcases hend with ⟨-, hfalse⟩ | hown | ⟨time, counted, hown⟩
  · cases hfalse
  · exact Or.inl (mem_own.mp (hown ▸ List.mem_cons_self)).1
  · exact Or.inr ⟨time, (mem_own.mp (hown ▸ List.mem_cons_self)).1⟩

theorem ended_of_answer (hcalls : Consuming c) {e : LimiterEntry} (he : e ∈ c.world.own t)
    (hanswer : (∃ key allowed, e = ⟨t, .distributed key, .answered allowed⟩) ∨
      ∃ key time allowed, e = ⟨t, .fallback key time, allowed⟩) :
    ∃ task a, c.task t = some task ∧ task.rest = .ret a ∧
      ConsumeEnd t (c.world.own t) a task.request := by
  have hstarted := hcalls.started e (mem_own.mp he).1
  rw [(mem_own.mp he).2] at hstarted
  obtain ⟨task, htask⟩ := Option.ne_none_iff_exists'.mp hstarted
  have hobeys := hcalls.calls t task htask
  cases hrest : task.rest with
  | ret a =>
    rw [hrest] at hobeys
    exact ⟨task, a, htask, hrest, hobeys⟩
  | stmt op next =>
    rw [hrest] at hobeys
    -- the law knows no statement after an answer
    have hlaw : ConsumeLaw t (c.world.own t) op := hobeys.1
    exfalso
    cases op with
    | distributed key =>
      rw [hlaw] at he
      cases he
    | tick d =>
      rw [hlaw] at he
      cases he
    | now =>
      obtain ⟨key, counted, hown⟩ := hlaw
      rw [hown, List.mem_singleton] at he
      subst he
      rcases hanswer with ⟨key', allowed, heq⟩ | ⟨key', time', allowed, heq⟩ <;> cases heq
    | fallback key time =>
      obtain ⟨counted, hown⟩ := hlaw
      rw [hown, List.mem_cons, List.mem_singleton] at he
      rcases he with rfl | rfl <;> rcases hanswer with ⟨key', allowed, heq⟩ | ⟨key', time', allowed, heq⟩ <;> cases heq

theorem used_of_distributed (hcalls : Consuming c) (h : AllowedByDistributed (bridgeKey jti) c.world.log t) :
    Used jti c t ∧ ¬ AllowedByFallback (bridgeKey jti) c.world.log t := by
  have hmem : (⟨t, .distributed (bridgeKey jti), .answered true⟩ : LimiterEntry) ∈ c.world.own t := mem_own.mpr ⟨h, rfl⟩
  obtain ⟨task, a, htask, hret, hend⟩ := ended_of_answer hcalls hmem (Or.inl ⟨_, _, rfl⟩)
  cases hrequest : task.request with
  | pass d =>
    rw [hrequest] at hend
    rw [hend, List.mem_singleton] at hmem
    cases hmem
  | consume jti' =>
    rw [hrequest] at hend
    rcases hend with ⟨hown, -⟩ | hown | ⟨time, counted, hown⟩
    · rw [hown] at hmem
      cases hmem
    · rw [hown, List.mem_singleton] at hmem
      obtain rfl := bridgeKey_injective (Option.some.inj (congrArg (fun e => e.op.key) hmem))
      cases hmem
      refine ⟨⟨task, htask, hrequest, hret⟩, fun ⟨time, hfallback⟩ => ?_⟩
      have hboth : (⟨t, .fallback (bridgeKey jti) time, true⟩ : LimiterEntry) ∈ c.world.own t :=
        mem_own.mpr ⟨hfallback, rfl⟩
      rw [hown, List.mem_singleton] at hboth
      cases hboth
    · rw [hown] at hmem
      simp at hmem

theorem used_of_fallback (hcalls : Consuming c)
    (h : AllowedByFallback (bridgeKey jti) c.world.log t) : Used jti c t := by
  obtain ⟨time, h⟩ := h
  have hmem : (⟨t, .fallback (bridgeKey jti) time, true⟩ : LimiterEntry) ∈ c.world.own t := mem_own.mpr ⟨h, rfl⟩
  obtain ⟨task, a, htask, hret, hend⟩ := ended_of_answer hcalls hmem (Or.inr ⟨_, _, _, rfl⟩)
  cases hrequest : task.request with
  | pass d =>
    rw [hrequest] at hend
    rw [hend, List.mem_singleton] at hmem
    cases hmem
  | consume jti' =>
    rw [hrequest] at hend
    rcases hend with ⟨hown, -⟩ | hown | ⟨time', counted, hown⟩
    · rw [hown] at hmem
      cases hmem
    · rw [hown, List.mem_singleton] at hmem
      cases hmem
    · have hhead : (⟨t, .fallback (bridgeKey jti) time, true⟩ : LimiterEntry) =
        ⟨t, .fallback (bridgeKey jti') time', a⟩ := by
        rw [hown] at hmem
        rcases List.mem_cons.mp hmem with heq | hmem
        · exact heq
        · simp at hmem
      obtain rfl := bridgeKey_injective (Option.some.inj (congrArg (fun e => e.op.key) hhead))
      cases hhead
      exact ⟨task, htask, hrequest, hret⟩

end Ends

/-- While the token lives, at most one call for it returns true, unless the distributed limiter
answers the first call that it counts and fails another one. -/
theorem bridgeToken_usedOnce_iff (jti : GoString) (issued : Instant) (s : Limiters)
    (events : List (Event LimiterRequest Availability)) (c : LimiterConfig)
    (hdistributed : s.distributed (bridgeKey jti) = none) (hfallback : s.fallback.buckets (bridgeKey jti) = [])
    (hlife : limiterSystem.Along (Allows (fun _ => True) (DuringLife jti issued)) (Config.init s) events)
    (hrun : limiterSystem.run (Config.init s) events = some c) :
    UsedOnce jti c ↔ ¬ (AnsweredFirst jti c.world.log ∧ FellBack jti c.world.log) := by
  obtain ⟨hcalls, hinv⟩ := lawful_from (fun t request _ => prog_obeys t request) (tokenInv_keeps jti issued) lawful_init
    (tokenInv_init issued hdistributed hfallback) hlife hrun
  constructor
  · rintro honce ⟨⟨t, hfirst⟩, ⟨t', hfirst'⟩⟩
    obtain ⟨hused, hnot⟩ := used_of_distributed hcalls ((hinv.counter.allowed t).mpr hfirst)
    have hallowed' := (hinv.bucket.allowed t').mpr hfirst'
    obtain rfl := honce t t' hused (used_of_fallback hcalls hallowed')
    exact hnot hallowed'
  · intro hmixed t t' hused hused'
    rcases allowed_of_used hcalls hused with h | h <;> rcases allowed_of_used hcalls hused' with h' | h'
    · rw [hinv.counter.allowed] at h h'
      cases h.symm.trans h'
      rfl
    · exact absurd ⟨⟨t, (hinv.counter.allowed t).mp h⟩, ⟨t', (hinv.bucket.allowed t').mp h'⟩⟩ hmixed
    · exact absurd ⟨⟨t', (hinv.counter.allowed t').mp h'⟩, ⟨t, (hinv.bucket.allowed t).mp h⟩⟩ hmixed
    · rw [hinv.bucket.allowed] at h h'
      exact Option.some.inj (h.symm.trans h')

/-! ## Two calls for one token -/

def freshLimiters : Limiters := ⟨fun _ => none, ⟨fun _ => [], 0⟩, 0⟩

def returned (c : LimiterConfig) (t : ℕ) : Option (LimiterRequest × Bool) :=
  match c.task t with
  | some ⟨request, _, .ret a⟩ => some (request, a)
  | _ => none

theorem used_of_returned {jti : GoString} {c : LimiterConfig} {t : ℕ}
    (h : returned c t = some (.consume jti, true)) : Used jti c t := by
  unfold returned at h
  split at h
  · rename_i request start a htask
    obtain ⟨rfl, rfl⟩ := Prod.mk.inj (Option.some.inj h)
    exact ⟨_, htask, rfl, rfl⟩
  · cases h

def twoCalls (second : List Availability) : List (Event LimiterRequest Availability) :=
  [.start 1 (.consume [0x31]), .step 1 .answers, .start 2 (.consume [0x31])] ++ second.map (.step 2)

/-- For the second call the distributed limiter is not there. -/
theorem bridgeToken_usedTwice :
    ∃ c, limiterSystem.run (Config.init freshLimiters) (twoCalls [.fails false, .answers, .answers]) = some c ∧
      c.world.store.clock = 0 ∧ Used [0x31] c 1 ∧ Used [0x31] c 2 := by
  refine ⟨_, rfl, rfl, used_of_returned ?_, used_of_returned ?_⟩
  · rfl
  · rfl

theorem duringLife_twoCalls :
    limiterSystem.Along (Allows (fun _ => True) (DuringLife [0x31] 0)) (Config.init freshLimiters)
      (twoCalls [.answers]) := by
  have hlife : (0 : ℤ) ≤ 0 ∧ (0 : ℤ) ≤ 0 + tokenLife := by decide
  refine along_cons trivial rfl (along_cons (fun _ => hlife) rfl ?_)
  exact along_cons trivial rfl (along_cons (fun _ => hlife) rfl trivial)

theorem bridgeToken_usedOnce_iff_answered :
    ∃ c, limiterSystem.run (Config.init freshLimiters) (twoCalls [.answers]) = some c ∧
      Used [0x31] c 1 ∧ UsedOnce [0x31] c := by
  refine ⟨_, rfl, used_of_returned rfl, ?_⟩
  refine (bridgeToken_usedOnce_iff [0x31] 0 freshLimiters (twoCalls [.answers]) _ rfl rfl
    duringLife_twoCalls rfl).mpr ?_
  rintro ⟨-, t, hfirst⟩
  cases hfirst

end Portlyn.Auth.BridgeTokens
