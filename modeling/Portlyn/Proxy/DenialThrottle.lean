import Portlyn.Go.Time

/-! # Denials in the audit log (`internal/proxy/denial_throttle.go`)

In a window a key is written once and then counted; the count is reported with the first denial of
the next window. -/
namespace Portlyn.Proxy
open Go
set_option autoImplicit false

/-! ## The functions of the source -/

structure DenialThrottle where
  window : ℤ
  limit : ℤ
  windowStart : Instant
  written : ℤ
  current : GoString → Option ℕ
  previous : GoString → ℕ

def newDenialThrottle (window limit : ℤ) : DenialThrottle :=
  ⟨window, limit, -62135596800000000000, 0, fun _ => none, fun _ => 0⟩

/-- `now.Sub(start)`, which stops at the largest and the smallest duration. -/
def elapsed (now start : Instant) : ℤ := max (-2 ^ 63) (min (2 ^ 63 - 1) (now - start))

namespace DenialThrottle

def rotates (t : DenialThrottle) (now : Instant) : Bool := t.window ≤ elapsed now t.windowStart

/-- The counts of the last window are kept for the next one; `2*t.window` can wrap around. -/
def keepsCounts (t : DenialThrottle) (now : Instant) : Bool :=
  elapsed now t.windowStart < (2 * t.window).bmod (2 ^ 64)

def pass (t : DenialThrottle) (now : Instant) : DenialThrottle :=
  if t.rotates now then
    { t with
      previous := fun k => if t.keepsCounts now then (t.current k).getD 0 else 0
      current := fun _ => none
      windowStart := now
      written := 0 }
  else t

/-- The denial in the window. -/
def enter (t : DenialThrottle) (key : GoString) : Bool × ℕ × DenialThrottle :=
  match t.current key with
  | some n => (false, 0, { t with current := Function.update t.current key (some (n + 1)) })
  | none =>
    if t.limit ≤ t.written then (false, 0, t)
    else
      (true, t.previous key,
        { t with
          written := t.written + 1
          current := Function.update t.current key (some 0)
          previous := Function.update t.previous key 0 })

def allow (t : DenialThrottle) (key : GoString) (now : Instant) : Bool × ℕ × DenialThrottle :=
  (t.pass now).enter key

end DenialThrottle

/-! ## The books -/

structure Denial where
  key : GoString
  written : Bool
  suppressed : ℕ

def writtenOf (key : GoString) (log : List Denial) : ℕ := log.countP fun d => d.written && d.key = key

def suppressedOf (key : GoString) (log : List Denial) : ℕ :=
  ((log.filter fun d => d.written && d.key = key).map (·.suppressed)).sum

def Fits (limit : ℤ) (log : List Denial) : Prop := (log.countP (·.written) : ℤ) ≤ max limit 0 ∧
    ∀ key, writtenOf key log ≤ 1

/-- The throttle with the denials of its window and those of the windows before. -/
structure Books where
  throttle : DenialThrottle
  log : List Denial
  earlier : List (List Denial)

namespace Books

def pass (b : Books) (now : Instant) : Books :=
  if b.throttle.rotates now then ⟨b.throttle.pass now, [], b.log :: b.earlier⟩ else b

def record (b : Books) (d : GoString × Instant) : Books :=
  let r := b.throttle.allow d.1 d.2
  ⟨r.2.2, ⟨d.1, r.1, r.2.1⟩ :: (b.pass d.2).log, (b.pass d.2).earlier⟩

def run (window limit : ℤ) (ds : List (GoString × Instant)) : Books :=
  ds.foldl record ⟨newDenialThrottle window limit, [], []⟩

def all (b : Books) : List Denial := b.log ++ b.earlier.flatten

/-- The denials of a key that were written, reported with a written one, or are pending. -/
def accounted (b : Books) (key : GoString) : ℕ :=
  writtenOf key b.all + suppressedOf key b.all + ((b.throttle.current key).getD 0 + b.throttle.previous key)

/-- What a change of the window forgets. -/
def dropped (b : Books) (now : Instant) (key : GoString) : ℕ :=
  if b.throttle.rotates now then b.throttle.previous key + if b.throttle.keepsCounts now then 0
    else (b.throttle.current key).getD 0 else 0

/-- The key was not seen in the window, and the limit is reached. -/
def refused (t : DenialThrottle) (key : GoString) : Bool := (t.current key).isNone && t.limit ≤ t.written

def Lossless (b : Books) (d : GoString × Instant) : Prop := (∀ key, b.dropped d.2 key = 0) ∧
    ¬ refused (b.throttle.pass d.2) d.1

theorem throttle_pass (b : Books) (now : Instant) : (b.pass now).throttle = b.throttle.pass now := by
  rw [pass, DenialThrottle.pass]
  split_ifs <;> rfl

theorem accounted_pass (b : Books) (now : Instant) (key : GoString) :
    (b.pass now).accounted key + b.dropped now key = b.accounted key := by
  have hall : (b.pass now).all = b.all := by
    rw [pass]
    split_ifs <;> rfl
  rw [accounted, accounted, throttle_pass, DenialThrottle.pass, dropped]
  split_ifs <;> simp [Nat.add_assoc, Nat.add_comm, *]

theorem accounted_record (b : Books) (d : GoString × Instant) (key : GoString) :
    (b.record d).accounted key + b.dropped d.2 key + (if refused (b.throttle.pass d.2) d.1 ∧ d.1 = key then 1 else 0) =
      b.accounted key + if d.1 = key then 1 else 0 := by
  rw [← accounted_pass b d.2 key, accounted, accounted, throttle_pass, record, DenialThrottle.allow,
    DenialThrottle.enter, refused]
  generalize b.throttle.pass d.2 = t
  rcases eq_or_ne d.1 key with rfl | hkey
  · cases hseen : t.current d.1 <;> by_cases hlimit : t.limit ≤ t.written <;>
      simp [all, writtenOf, suppressedOf, hseen, hlimit] <;> omega
  · cases hseen : t.current d.1 <;> by_cases hlimit : t.limit ≤ t.written <;>
      simp [all, writtenOf, suppressedOf, hkey, hkey.symm, hlimit]

structure Bounded (limit : ℤ) (b : Books) : Prop where
  limit_eq : b.throttle.limit = limit
  count : (b.log.countP (·.written) : ℤ) = b.throttle.written
  fits : ∀ log ∈ b.log :: b.earlier, Fits limit log
  unseen : ∀ key, b.throttle.current key = none → writtenOf key b.log = 0

variable {limit : ℤ}

theorem Bounded.pass {b : Books} (h : Bounded limit b) (now : Instant) : Bounded limit (b.pass now) := by
  rw [Books.pass]
  split_ifs with hrotates
  · rw [DenialThrottle.pass, if_pos hrotates]
    exact ⟨h.limit_eq, rfl,
      List.forall_mem_cons.mpr ⟨⟨le_max_right _ _, fun _ => Nat.zero_le _⟩, h.fits⟩, fun _ _ => rfl⟩
  · exact h

theorem Bounded.record {b : Books} (h : Bounded limit b) (d : GoString × Instant) : Bounded limit (b.record d) := by
  obtain ⟨hlimit, hcount, hfits, hunseen⟩ := h.pass d.2
  obtain ⟨hlog, hearlier⟩ := List.forall_mem_cons.mp hfits
  rw [throttle_pass] at hcount hlimit hunseen
  rw [Books.record, DenialThrottle.allow, DenialThrottle.enter]
  generalize b.throttle.pass d.2 = t at *
  -- a key that the update has not seen is another one, and was not seen before
  have hother : ∀ n key, Function.update t.current d.1 (some n) key = none → key ≠ d.1 ∧ t.current key = none := by
    intro n key hkey
    have hne : key ≠ d.1 := fun heq => by simp [heq] at hkey
    exact ⟨hne, Function.update_of_ne hne (some n) t.current ▸ hkey⟩
  cases hseen : t.current d.1 with
  | some n =>
    exact ⟨hlimit, hcount, List.forall_mem_cons.mpr ⟨hlog, hearlier⟩,
      fun key hkey => hunseen key (hother _ key hkey).2⟩
  | none =>
    split_ifs with hfull
    · exact ⟨hlimit, hcount, List.forall_mem_cons.mpr ⟨hlog, hearlier⟩, hunseen⟩
    · refine ⟨hlimit, by simpa using hcount,
        List.forall_mem_cons.mpr ⟨⟨?_, fun key => ?_⟩, hearlier⟩, fun key hkey => ?_⟩
      · simp only [List.countP_cons_of_pos]
        omega
      · by_cases hkey : d.1 = key
        · have hzero := hunseen d.1 hseen
          rw [writtenOf] at hzero
          simp [writtenOf, ← hkey, hzero]
        · simpa [writtenOf, hkey] using hlog.2 key
      · obtain ⟨hne, hnone⟩ := hother _ key hkey
        simpa [writtenOf, hne.symm] using hunseen key hnone

variable (window limit : ℤ) (ds : List (GoString × Instant))

theorem run_append (d : GoString × Instant) : run window limit (ds ++ [d]) = (run window limit ds).record d := by
  rw [run, List.foldl_append]
  rfl

theorem bounded_run : Bounded limit (run window limit ds) := by
  induction ds using List.reverseRecOn with
  | nil => exact ⟨rfl, rfl, List.forall_mem_singleton.mpr ⟨le_max_right _ _, fun _ => Nat.zero_le _⟩, fun _ _ => rfl⟩
  | append_singleton ds d ih => exact run_append window limit ds d ▸ ih.record d

theorem accounted_run :
    (∀ key, (run window limit ds).accounted key ≤ ds.countP (·.1 = key)) ∧
      ((∀ key, (run window limit ds).accounted key = ds.countP (·.1 = key)) ↔
        ∀ past d, past ++ [d] <+: ds → (run window limit past).Lossless d) := by
  induction ds using List.reverseRecOn with
  | nil => exact ⟨fun _ => le_rfl, iff_of_true (fun _ => rfl) fun past d h => by simp at h⟩
  | append_singleton ds d ih =>
    obtain ⟨hle, hiff⟩ := ih
    have hstep := accounted_record (run window limit ds) d
    simp only [run_append, List.countP_append, List.countP_singleton, decide_eq_true_eq, List.prefix_concat_iff]
    refine ⟨fun key => by have := hstep key; have := hle key; omega, fun h => ?_, fun h key => ?_⟩
    · -- the accounts never exceed the denials, so nothing is lost at the last step and nothing was missing before
      have hnone : ∀ key, (run window limit ds).accounted key = ds.countP (·.1 = key) ∧
          (run window limit ds).dropped d.2 key = 0 ∧
          (if refused ((run window limit ds).throttle.pass d.2) d.1 ∧ d.1 = key then 1 else 0) = 0 := by
        intro key
        have := hstep key
        have := hle key
        have := h key
        omega
      rintro past d' (heq | hpre)
      · obtain ⟨rfl, rfl⟩ := List.append_singleton_inj.mp heq
        exact ⟨fun key => (hnone key).2.1, by simpa using (hnone d'.1).2.2⟩
      · exact hiff.mp (fun key => (hnone key).1) past d' hpre
    · have hlast := h ds d (Or.inl rfl)
      have hcount := hstep key
      rw [if_neg fun hrefused => hlast.2 hrefused.1, hlast.1 key,
        hiff.mpr (fun past d' hpre => h past d' (Or.inr hpre)) key] at hcount
      exact hcount

/-- In a window no key is written twice and no more than the limit are. The books balance exactly if
no change of the window forgets a count and no denial is refused for the limit. -/
theorem books_balance_iff :
    ((∀ log ∈ (run window limit ds).log :: (run window limit ds).earlier, Fits limit log) ∧
      ∀ key, (run window limit ds).accounted key = ds.countP (·.1 = key)) ↔
    ∀ past d, past ++ [d] <+: ds → (run window limit past).Lossless d :=
  (and_iff_right (bounded_run window limit ds).fits).trans (accounted_run window limit ds).2

/-- With a limit of one, the denial of a second key in the window is in no book. -/
theorem refused_denial_lost :
    (run 60 1 [([1], 0), ([2], 1)]).accounted [2] = 0 ∧
      [(([1] : GoString), (0 : Instant)), ([2], 1)].countP (·.1 = [2]) = 1 := by
  decide +kernel

end Books
end Portlyn.Proxy
