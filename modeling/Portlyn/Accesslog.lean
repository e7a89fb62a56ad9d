import Mathlib.Data.Int.ConditionallyCompleteOrder
import Portlyn.Go.Time
import Portlyn.Go.Utf8

/-! # The ring of the access log (`internal/accesslog/accesslog.go`)

`none` is the zero time. -/
namespace Portlyn.Accesslog
open Go
set_option autoImplicit false

structure Entry where
  time : Option Instant
  host : GoString
  path : GoString
  status : ℤ
  remoteAddr : GoString
  userAgent : GoString
  outcome : GoString
  serviceID : ℕ
  userEmail : GoString

structure Filter where
  host : GoString
  serviceID : ℕ
  status : GoString
  ip : GoString
  query : GoString
  outcome : GoString
  before : Option Instant

structure Recorder where
  entries : List Entry
  next : ℕ
  full : Bool

def newRecorder (capacity : ℤ) : Recorder :=
  ⟨List.replicate (if capacity ≤ 0 then 2000 else capacity.toNat) ⟨none, [], [], 0, [], [], [], 0,
    []⟩, 0, false⟩

def Recorder.record (r : Recorder) (entry : Entry) : Recorder where
  entries := r.entries.set r.next entry
  next := (r.next + 1) % r.entries.length
  full := r.full || (r.next + 1) % r.entries.length = 0

section Filters
variable [UnicodeTables]

def statusMatches (filter : GoString) (status : ℤ) : Bool :=
  let filter := toLower (trimSpace filter)
  match filter with
  | [c, 0x78, 0x78] => if 0x31 ≤ c ∧ c ≤ 0x35 then status.tdiv 100 = c.toNat - 0x30 else parseInt64 filter = some status
  | _ => parseInt64 filter = some status

def Filter.matches (f : Filter) (entry : Entry) : Bool :=
  match entry.time with
  | none => false
  | some time =>
    f.before.all (time < ·) && (f.serviceID = 0 || entry.serviceID = f.serviceID) &&
      (f.host = [] || toLower f.host <:+: entry.host) && (f.ip = [] || hasPrefix entry.remoteAddr f.ip) &&
      (f.outcome = [] || entry.outcome = f.outcome) && (f.status = [] || statusMatches f.status entry.status) &&
      (f.query = [] || [entry.path, entry.userAgent, entry.userEmail].any fun text => toLower f.query <:+: toLower text)

/-- The entry that is `i` older than the newest one. -/
def Recorder.entry? (r : Recorder) (i : ℕ) : Option Entry :=
  r.entries[(r.next + r.entries.length - 1 - i) % r.entries.length]?

def Recorder.listFrom (r : Recorder) (f : Filter) (limit : ℕ) : ℕ → ℕ → List Entry → List Entry
  | 0, _, out => out
  | left + 1, i, out =>
    if out.length < limit then listFrom r f limit left (i + 1) (out ++ (r.entry? i).toList.filter f.matches) else out

def Recorder.list (r : Recorder) (f : Filter) (limit : ℤ) : List Entry :=
  r.listFrom f (if limit ≤ 0 ∨ 1000 < limit then 200 else limit.toNat)
    (if r.full then r.entries.length else r.next) 0 []

end Filters

/-! ## What the ring holds -/

theorem mod_ne_mod {n p q : ℕ} (hlt : p < q) (hq : q < p + n) : p % n ≠ q % n := by
  intro h
  have hle := Nat.le_of_dvd (by omega) ((Nat.modEq_iff_dvd' hlt.le).mp h)
  omega

/-- The slots of the ring hold the newest of `es`, which begins with the newest entry. -/
structure Holds (n : ℕ) (r : Recorder) (es : List Entry) : Prop where
  length : r.entries.length = n
  next : r.next = es.length % n
  full : r.full = true ↔ n ≤ es.length
  entries : ∀ i < n, i < es.length → r.entries[(es.length - 1 - i) % n]? = es[i]?

variable {n : ℕ} {r : Recorder} {es : List Entry}

theorem Holds.record (hn : 0 < n) (h : Holds n r es) (e : Entry) :
    Holds n (r.record e) (e :: es) := by
  have hnext : (r.next + 1) % r.entries.length = (es.length + 1) % n := by
    rw [h.length, h.next, Nat.mod_add_mod]
  refine ⟨by simp [Recorder.record, h.length], hnext, ?_, fun i hi hes => ?_⟩
  · simp only [Recorder.record, hnext, Bool.or_eq_true, h.full, decide_eq_true_eq, List.length_cons]
    by_cases hfull : n ≤ es.length + 1
    · have hcases : es.length + 1 = n ∨ n ≤ es.length := by omega
      rcases hcases with heq | hle
      · simp [heq]
      · simp [hle, hfull]
    · rw [Nat.mod_eq_of_lt (by omega)]
      omega
  · rw [List.length_cons, Nat.add_sub_cancel]
    cases i with
    | zero =>
      have hslot : es.length % n < r.entries.length := by rw [h.length]; exact Nat.mod_lt _ hn
      simp [Recorder.record, h.next, hslot]
    | succ i =>
      rw [List.length_cons] at hes
      have hne : es.length % n ≠ (es.length - (i + 1)) % n := (mod_ne_mod (by omega) (by omega)).symm
      rw [Recorder.record, h.next, List.getElem?_set_ne hne,
        List.getElem?_cons_succ, ← h.entries i (by omega) (by omega)]
      congr 2
      omega

theorem holds_foldr (n : ℕ+) (es : List Entry) :
    Holds n (es.foldr (fun e r => r.record e) (newRecorder n)) es := by
  induction es with
  | nil => exact ⟨by simp [newRecorder], (Nat.zero_mod _).symm, by simp [newRecorder], by simp⟩
  | cons e es ih => exact ih.record n.pos e

theorem Holds.entry? (h : Holds n r es) {i : ℕ} (hi : i < n) (hes : i < es.length) :
    r.entry? i = es[i]? := by
  have hlen := Nat.mod_add_div es.length n
  rw [Recorder.entry?, h.length, h.next, ← h.entries i hi hes]
  congr 1
  rcases Nat.eq_zero_or_pos (es.length / n) with hq | hq
  · rw [hq, Nat.mul_zero, Nat.add_zero] at hlen
    rw [hlen, show es.length + n - 1 - i = es.length - 1 - i + n by omega, Nat.add_mod_right]
  · obtain ⟨q, hq⟩ := Nat.exists_eq_add_of_lt hq
    rw [hq, Nat.zero_add, Nat.mul_add_one] at hlen
    rw [show es.length - 1 - i = es.length % n + n - 1 - i + n * q by omega, Nat.add_mul_mod_self_left]

theorem filterMap_range' (l : List Entry) (g : ℕ → Option Entry) (k : ℕ)
    (hg : ∀ i < l.length, g (k + i) = l[i]?) : (List.range' k l.length).filterMap g = l := by
  induction l generalizing k with
  | nil => rfl
  | cons a l ih =>
    have hhead : g k = some a := hg 0 (by simp)
    have htail := ih (k + 1) fun i hi => by
      rw [Nat.add_assoc, Nat.add_comm 1 i]
      exact hg (i + 1) (by simpa using hi)
    simp [List.range'_succ, hhead, htail]

theorem Holds.filterMap (h : Holds n r es) :
    (List.range' 0 (if r.full then r.entries.length else r.next)).filterMap r.entry? = es.take n := by
  have hsize : (if r.full then r.entries.length else r.next) = (es.take n).length := by
    have hfull := h.full
    rw [List.length_take, h.length, h.next]
    split_ifs with hr
    · have := hfull.mp hr
      omega
    · have hlt : es.length < n := not_le.mp fun hle => hr (hfull.mpr hle)
      rw [Nat.mod_eq_of_lt hlt, Nat.min_eq_right hlt.le]
  rw [hsize]
  refine filterMap_range' _ _ 0 fun i hi => ?_
  rw [List.length_take, lt_min_iff] at hi
  rw [Nat.zero_add, h.entry? hi.1 hi.2, List.getElem?_take_of_lt hi.1]

variable [UnicodeTables]

theorem listFrom_eq (r : Recorder) (f : Filter) (limit left i : ℕ) (out : List Entry)
    (hout : out.length ≤ limit) :
    r.listFrom f limit left i out = out ++
      (((List.range' i left).filterMap r.entry?).filter f.matches).take (limit - out.length) := by
  induction left generalizing i out with
  | zero => simp [Recorder.listFrom]
  | succ left ih =>
    rw [Recorder.listFrom]
    split_ifs with hlt
    · cases he : r.entry? i with
      | none => simp [ih, List.range'_succ, he, hout]
      | some e =>
        cases hm : f.matches e with
        | false => simp [ih, List.range'_succ, he, hm, hout]
        | true =>
          rw [ih _ _ (by simp [hm]; omega)]
          have hleft : limit - out.length = limit - (out.length + 1) + 1 := by omega
          simp [List.range'_succ, he, hm, hleft]
    · simp [show limit - out.length = 0 by omega]

/-- For every capacity, all entries that were recorded, every filter and every limit: the list
shows, newest first, those of the last `capacity` entries that have a time and match the filter, up
to the limit. -/
theorem list_shows_recent (capacity : ℕ+) (es : List Entry) (f : Filter) (limit : Set.Icc (1 : ℤ) 1000) :
    (es.foldl Recorder.record (newRecorder capacity)).list f limit =
      ((es.reverse.take capacity).filter fun e => e.time.isSome && f.matches e).take (limit : ℤ).toNat := by
  have htime : (fun e : Entry => e.time.isSome && f.matches e) = f.matches := by
    funext e
    rw [Filter.matches]
    cases e.time <;> simp
  have hlimit : ¬ ((limit : ℤ) ≤ 0 ∨ 1000 < (limit : ℤ)) := by
    have := limit.2.1
    have := limit.2.2
    omega
  rw [List.foldl_eq_foldr_reverse, htime, Recorder.list, listFrom_eq _ _ _ _ _ _ (Nat.zero_le _),
    (holds_foldr capacity _).filterMap,
    if_neg hlimit]
  rfl

end Portlyn.Accesslog
