import Portlyn.Go.Time

/-! # Rate limiters (`internal/rate`)

The limiter of one process keeps the times of the calls of each key and forgets those that have left
the window; from time to time it drops the keys that were not used for an hour. The limiter on Redis
counts the calls of a key until the key expires. -/
namespace Portlyn.Rate
open Go
set_option autoImplicit false

structure Allowance where
  allowed : Bool
  remaining : ℤ
  reset : Instant
deriving DecidableEq

/-! ## In one process -/

def localSweepInterval : ℤ := 300 * 1000000000

def localStaleAfter : ℤ := 3600 * 1000000000

structure LocalLimiter where
  buckets : GoString → List Instant
  lastSweep : Instant

namespace LocalLimiter

def sweepLocked (l : LocalLimiter) (now : Instant) : LocalLimiter :=
  { l with
    buckets := fun key =>
      match (l.buckets key).getLast? with
      | none => []
      | some last => if now - localStaleAfter < last then l.buckets key else [] }

def allow (l : LocalLimiter) (now : Instant) (key : GoString) (limit window : ℤ) : Allowance × LocalLimiter :=
  if limit ≤ 0 ∨ window ≤ 0 then (⟨true, 0, now⟩, l)
  else
    let items := (l.buckets key).filter (fun ts => now - window < ts) ++ [now]
    let l := { l with buckets := Function.update l.buckets key items }
    let l := if localSweepInterval ≤ now - l.lastSweep then { l.sweepLocked now with lastSweep := now } else l
    (⟨(items.length : ℤ) ≤ limit, max 0 (limit - items.length), items.headD now + window⟩, l)

/-- The buckets that a sweep at `now` keeps. -/
def Fresh (now : Instant) (items : List Instant) : Prop := ∀ ts ∈ items, now - localStaleAfter < ts

theorem sweepLocked_of_fresh {l : LocalLimiter} {now : Instant} {key : GoString}
    (h : Fresh now (l.buckets key)) : (l.sweepLocked now).buckets key = l.buckets key := by
  rw [sweepLocked]
  dsimp only
  split
  · rename_i hnone
    exact (List.getLast?_eq_none_iff.mp hnone).symm
  · rename_i last hlast
    exact if_pos (h last (List.mem_of_getLast? hlast))

variable {l : LocalLimiter} {now : Instant} {key : GoString} {limit window : ℤ}

theorem allow_self (hlimit : 0 < limit) (hwindow : 0 < window) (hstale : window ≤ localStaleAfter)
    (h : ∀ ts ∈ l.buckets key, now - window < ts) :
    (l.allow now key limit window).2.buckets key = l.buckets key ++ [now] ∧
      (l.allow now key limit window).1.allowed = decide (((l.buckets key).length : ℤ) + 1 ≤ limit) := by
  have hfilter : (l.buckets key).filter (fun ts => decide (now - window < ts)) = l.buckets key :=
    List.filter_eq_self.mpr fun ts hts => decide_eq_true (h ts hts)
  rw [allow, if_neg (by omega)]
  simp only [hfilter, List.length_append, List.length_singleton, Nat.cast_add, Nat.cast_one]
  refine ⟨?_, trivial⟩
  split_ifs
  · have hself : (Function.update l.buckets key (l.buckets key ++ [now])) key = l.buckets key ++
      [now] := Function.update_self ..
    rw [sweepLocked_of_fresh]
    · exact hself
    · dsimp only
      rw [hself]
      intro ts hts
      rcases List.mem_append.mp hts with hts | hts
      · exact lt_of_le_of_lt (Int.sub_le_sub_left hstale now) (h ts hts)
      · rw [List.mem_singleton.mp hts]
        exact sub_lt_self _ (by decide)
  · exact Function.update_self ..

theorem allow_other {other : GoString} (hne : other ≠ key) (h : Fresh now (l.buckets other)) :
    (l.allow now key limit window).2.buckets other = l.buckets other := by
  rw [allow]
  split_ifs
  · rfl
  · dsimp only
    have hother : ∀ items, (Function.update l.buckets key items) other = l.buckets other :=
      fun _ => Function.update_of_ne hne ..
    split_ifs
    · rw [sweepLocked_of_fresh]
      · exact hother _
      · dsimp only
        rw [hother]
        exact h
    · exact hother _

end LocalLimiter

/-! ## On Redis -/

abbrev RedisCounters := GoString → Option (ℕ × Instant)

def wholeMilliseconds (d : ℤ) : ℤ := d.tdiv 1000000 * 1000000

namespace RedisCounters

/-- The script: `INCR`, and `PEXPIRE` for a counter that is new. -/
def count (r : RedisCounters) (clock : Instant) (key : GoString) (window : ℤ) : ℕ × Instant :=
  match r key with
  | none => (1, clock + wholeMilliseconds window)
  | some (n, expiry) => if clock < expiry then (n + 1, expiry) else (1, clock + wholeMilliseconds window)

def allow (r : RedisCounters) (clock : Instant) (key : GoString) (limit window : ℤ) : Allowance × RedisCounters :=
  if limit ≤ 0 ∨ window ≤ 0 then (⟨true, 0, clock⟩, r)
  else
    let counter := r.count clock key window
    (⟨(counter.1 : ℤ) ≤ limit, max 0 (limit - counter.1), counter.2⟩, Function.update r key (some counter))

theorem allow_other (r : RedisCounters) (clock : Instant) {key other : GoString} (hne : other ≠ key)
    (limit window : ℤ) : (r.allow clock key limit window).2 other = r other := by
  rw [allow]
  split_ifs
  · rfl
  · exact Function.update_of_ne hne ..

end RedisCounters
end Portlyn.Rate
