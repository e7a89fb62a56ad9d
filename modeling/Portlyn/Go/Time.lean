import Mathlib.Data.Nat.Digits.Lemmas
import Portlyn.Go.Strings

/-! # Instants and their text

An instant is a number of nanoseconds since the Unix epoch. A time zone is the function that gives
its offset at an instant. `formatRFC3339Nano` loses nothing (`formatRFC3339Nano_injective`): the
proof reads the date back with `daysFromCivil` and the digits with `decValue`. -/
namespace Portlyn.Go
set_option autoImplicit false

/-! ## Decimal numbers -/

def digitByte (d : ℕ) : UInt8 := UInt8.ofNat (48 + d)

/-- `strconv.FormatUint(n, 10)`. -/
def decimal (n : ℕ) : GoString := if n = 0 then [48] else (Nat.digits 10 n).reverse.map digitByte

/-- At least `w` digits, filled with zeroes from the left. -/
def padDecimal (w n : ℕ) : GoString := List.replicate (w - (decimal n).length) 48 ++ decimal n

def decValue (s : GoString) : ℕ := s.foldl (fun acc b => acc * 10 + (b.toNat - 48)) 0

def IsDecDigit (b : UInt8) : Prop := 48 ≤ b.toNat ∧ b.toNat < 58

instance (b : UInt8) : Decidable (IsDecDigit b) := inferInstanceAs (Decidable (_ ∧ _))

theorem digitByte_toNat {d : ℕ} (h : d < 10) : (digitByte d).toNat = 48 + d := by
  rw [digitByte, UInt8.toNat_ofNat']
  omega

theorem foldl_digits (ds : List ℕ) (h : ∀ d ∈ ds, d < 10) :
    decValue (ds.reverse.map digitByte) = Nat.ofDigits 10 ds := by
  unfold decValue
  induction ds with
  | nil => rfl
  | cons d ds ih =>
    have hd := h d (by simp)
    rw [List.reverse_cons, List.map_append, List.foldl_append, ih fun e he => h e (by simp [he])]
    simp only [List.map_cons, List.map_nil, List.foldl_cons, List.foldl_nil, digitByte_toNat hd, Nat.ofDigits_cons]
    omega

theorem decValue_decimal (n : ℕ) : decValue (decimal n) = n := by
  unfold decimal
  split_ifs with h
  · rw [h]
    rfl
  · rw [foldl_digits _ fun d hd => Nat.digits_lt_base (by omega) hd, Nat.ofDigits_digits]

theorem decValue_padDecimal (w n : ℕ) : decValue (padDecimal w n) = n := by
  have hzero : ∀ k, (List.replicate k (48 : UInt8)).foldl (fun acc b => acc * 10 + (b.toNat - 48))
    0 = 0 := by
    intro k
    induction k with
    | zero => rfl
    | succ k ih =>
      rw [List.replicate_succ', List.foldl_append, ih]
      rfl
  rw [padDecimal, decValue, List.foldl_append, hzero]
  exact decValue_decimal n

theorem decimal_injective : Function.Injective decimal :=
  Function.LeftInverse.injective decValue_decimal

theorem padDecimal_injective (w : ℕ) : Function.Injective (padDecimal w) :=
  Function.LeftInverse.injective (decValue_padDecimal w)

theorem isDecDigit_decimal (n : ℕ) : ∀ b ∈ decimal n, IsDecDigit b := by
  unfold decimal IsDecDigit
  split_ifs with h
  · simp
  · intro b hb
    obtain ⟨d, hd, rfl⟩ := List.mem_map.mp hb
    have hlt := Nat.digits_lt_base (by omega) (List.mem_reverse.mp hd)
    rw [digitByte_toNat hlt]
    omega

theorem notSpace_of_isDecDigit {b : UInt8} (h : IsDecDigit b) : NotSpace b := by
  have hall : ∀ n < 256, IsDecDigit (UInt8.ofNat n) → NotSpace (UInt8.ofNat n) := by decide +kernel
  have hb := hall b.toNat b.toNat_lt
  rw [UInt8.ofNat_toNat] at hb
  exact hb h

theorem isDecDigit_padDecimal (w n : ℕ) : ∀ b ∈ padDecimal w n, IsDecDigit b := by
  intro b hb
  rcases List.mem_append.mp hb with h | h
  · rw [List.eq_of_mem_replicate h]
    decide
  · exact isDecDigit_decimal n b h

theorem length_padDecimal {w n : ℕ} (hw : 0 < w) (h : n < 10 ^ w) :
    (padDecimal w n).length = w := by
  have hlen : (decimal n).length ≤ w := by
    unfold decimal
    split_ifs with h0
    · exact hw
    · rw [List.length_map, List.length_reverse, Nat.digits_length_le_iff (by omega)]
      exact h
  rw [padDecimal, List.length_append, List.length_replicate]
  omega

/-! ## The calendar -/

/-- Year, month and day of a day counted from the first of March, so that a leap day is the last
one. -/
def marchDate (year dayOfYear : ℤ) : ℤ × ℤ × ℤ :=
  let mp := (5 * dayOfYear + 2) / 153
  let day := dayOfYear - (153 * mp + 2) / 5 + 1
  if mp < 10 then (year, mp + 3, day) else (year + 1, mp - 9, day)

/-- Year, month and day of a number of days since 1970-01-01. Years come in eras of 400 years,
centuries and four-year cycles. -/
def civilFromDays (z : ℤ) : ℤ × ℤ × ℤ :=
  let era := (z + 719468) / 146097
  let dayOfEra := (z + 719468) % 146097
  let century := min (dayOfEra / 36524) 3
  let cycle := (dayOfEra - 36524 * century) / 1461
  let dayOfCycle := (dayOfEra - 36524 * century) % 1461
  let year := min (dayOfCycle / 365) 3
  marchDate (400 * era + 100 * century + 4 * cycle + year) (dayOfCycle - 365 * year)

def daysFromCivil : ℤ × ℤ × ℤ → ℤ
  | (year, month, day) =>
    let y := if month ≤ 2 then year - 1 else year
    let mp := if month ≤ 2 then month + 9 else month - 3
    365 * y + y / 4 - y / 100 + y / 400 + ((153 * mp + 2) / 5 + day - 1) - 719468

theorem daysFromCivil_marchDate {y d : ℤ} (h0 : 0 ≤ d) (h1 : d ≤ 365) :
    daysFromCivil (marchDate y d) = 365 * y + y / 4 - y / 100 + y / 400 + d - 719468 := by
  unfold marchDate
  dsimp only
  split_ifs with hm
  · have h : ¬ (5 * d + 2) / 153 + 3 ≤ 2 := by omega
    simp only [daysFromCivil]
    omega
  · have h : (5 * d + 2) / 153 - 9 ≤ 2 := by omega
    simp only [daysFromCivil]
    omega

theorem daysFromCivil_civilFromDays (z : ℤ) : daysFromCivil (civilFromDays z) = z := by
  unfold civilFromDays
  dsimp only
  generalize hera : (z + 719468) / 146097 = era
  generalize hdoe : (z + 719468) % 146097 = doe
  generalize hc : min (doe / 36524) 3 = c
  generalize hq : (doe - 36524 * c) / 1461 = q
  generalize hr : (doe - 36524 * c) % 1461 = r
  generalize hy : min (r / 365) 3 = y
  have hdiv : (400 * era + 100 * c + 4 * q + y) / 4 = 100 * era + 25 * c + q ∧
      (400 * era + 100 * c + 4 * q + y) / 100 = 4 * era + c ∧
      (400 * era + 100 * c + 4 * q + y) / 400 = era := by omega
  rw [daysFromCivil_marchDate (by omega) (by omega)]
  omega

theorem civilFromDays_injective : Function.Injective civilFromDays :=
  Function.LeftInverse.injective daysFromCivil_civilFromDays

theorem civilFromDays_bounds (z : ℤ) :
    1 ≤ (civilFromDays z).2.1 ∧ (civilFromDays z).2.1 ≤ 12 ∧ 1 ≤ (civilFromDays z).2.2 ∧
      (civilFromDays z).2.2 ≤ 31 := by
  have hmarch : ∀ y d : ℤ, 0 ≤ d → d ≤ 365 → 1 ≤ (marchDate y d).2.1 ∧ (marchDate y d).2.1 ≤ 12 ∧
      1 ≤ (marchDate y d).2.2 ∧ (marchDate y d).2.2 ≤ 31 := by
    intro y d h0 h1
    unfold marchDate
    dsimp only
    split_ifs with hm <;> refine ⟨?_, ?_, ?_, ?_⟩ <;> dsimp only <;> omega
  apply hmarch <;> omega

/-! ## Instants -/

abbrev Instant := ℤ

def Instant.unix (t : Instant) : ℤ := t / 1000000000
def Instant.nanosecond (t : Instant) : ℕ := (t % 1000000000).toNat

structure Location where
  offset : ℤ → ℤ

def utc : Location := ⟨fun _ => 0⟩

def Instant.local (t : Instant) (loc : Location) : ℤ := t.unix + loc.offset t.unix

inductive Weekday
  | sunday | monday | tuesday | wednesday | thursday | friday | saturday
deriving DecidableEq, Repr

def weekdays : List Weekday :=
  [.sunday, .monday, .tuesday, .wednesday, .thursday, .friday, .saturday]

def Instant.weekday (t : Instant) (loc : Location) : Weekday :=
  weekdays.getD ((t.local loc / 86400 + 4) % 7).toNat .sunday

def Instant.hour (t : Instant) (loc : Location) : ℕ := (t.local loc % 86400 / 3600).toNat
def Instant.minute (t : Instant) (loc : Location) : ℕ := (t.local loc % 3600 / 60).toNat
def Instant.second (t : Instant) : ℕ := (t.unix % 60).toNat

/-! ## RFC 3339 -/

def yearText (y : ℤ) : GoString := if y < 0 then 45 :: padDecimal 4 y.natAbs
    else padDecimal 4 y.toNat

def dateText (t : Instant) : GoString :=
  let date := civilFromDays (t.unix / 86400)
  yearText date.1 ++ (45 :: padDecimal 2 date.2.1.toNat ++ 45 :: padDecimal 2 date.2.2.toNat)

def clockText (t : Instant) : GoString :=
  padDecimal 2 (t.hour utc) ++ (58 :: padDecimal 2 (t.minute utc) ++ 58 :: padDecimal 2 t.second)

def fractionText (ns : ℕ) : GoString := if ns = 0 then []
    else dot :: (padDecimal 9 ns).rdropWhile (· = 48)

/-- `t.UTC().Format(time.RFC3339Nano)`. -/
def formatRFC3339Nano (t : Instant) : GoString :=
  dateText t ++ 84 :: (clockText t ++ (fractionText t.nanosecond ++ [90]))

theorem append_cons_inj {α : Type} {x : α} {a b a' b' : List α} (h : a ++ x :: b = a' ++ x :: b')
    (ha : x ∉ a) (ha' : x ∉ a') : a = a' ∧ b = b' := by
  induction a generalizing a' with
  | nil =>
    cases a' with
    | nil => exact ⟨rfl, (List.cons.inj h).2⟩
    | cons y a' => exact absurd (by simp [(List.cons.inj h).1]) ha'
  | cons y a ih =>
    cases a' with
    | nil => exact absurd (by simp [(List.cons.inj h).1]) ha
    | cons y' a' =>
      rw [List.cons_append, List.cons_append, List.cons.injEq] at h
      obtain ⟨h1, h2⟩ := ih h.2 (fun hm => ha (by simp [hm])) (fun hm => ha' (by simp [hm]))
      exact ⟨by rw [h.1, h1], h2⟩

theorem not_mem_padDecimal {b : UInt8} (hb : ¬ IsDecDigit b) (w n : ℕ) : b ∉ padDecimal w n :=
  fun hm => hb (isDecDigit_padDecimal w n b hm)

theorem yearText_injective : Function.Injective yearText := by
  intro y y' h
  have hdash : ∀ w n, (45 : UInt8) ∉ padDecimal w n := fun w n => not_mem_padDecimal (by decide) w n
  unfold yearText at h
  split_ifs at h with h1 h2 h2
  · have hn := padDecimal_injective 4 (List.cons.inj h).2
    omega
  · exact absurd (by rw [← h]; simp : (45 : UInt8) ∈ padDecimal 4 y'.toNat) (hdash _ _)
  · exact absurd (by rw [h]; simp : (45 : UInt8) ∈ padDecimal 4 y.toNat) (hdash _ _)
  · have hn := padDecimal_injective 4 h
    omega

theorem dateText_inj {t t' : Instant} (h : dateText t = dateText t') :
    t.unix / 86400 = t'.unix / 86400 := by
  apply civilFromDays_injective
  obtain ⟨hm1, hm2, hd1, hd2⟩ := civilFromDays_bounds (t.unix / 86400)
  obtain ⟨hm1', hm2', hd1', hd2'⟩ := civilFromDays_bounds (t'.unix / 86400)
  unfold dateText at h
  generalize civilFromDays (t.unix / 86400) = c at *
  generalize civilFromDays (t'.unix / 86400) = c' at *
  obtain ⟨y, m, d⟩ := c
  obtain ⟨y', m', d'⟩ := c'
  dsimp only at *
  have hlen : ∀ n : ℤ, n ≤ 31 → (padDecimal 2 n.toNat).length = 2 :=
    fun n hn => length_padDecimal (by omega) (by omega)
  obtain ⟨hy, htail⟩ := List.append_inj' h (by
    simp only [List.length_append, List.length_cons, hlen m (by omega), hlen m' (by omega), hlen d hd2, hlen d' hd2'])
  rw [List.cons_append, List.cons_append, List.cons.injEq] at htail
  obtain ⟨hm, hd⟩ := List.append_inj htail.2 (by rw [hlen m (by omega), hlen m' (by omega)])
  have hm := padDecimal_injective 2 hm
  have hd := padDecimal_injective 2 (List.cons.inj hd).2
  have hy := yearText_injective hy
  simp only [Prod.mk.injEq]
  omega

theorem clockText_inj {t t' : Instant} (h : clockText t = clockText t') :
    t.unix % 86400 = t'.unix % 86400 := by
  have hlen : ∀ n, n < 100 → (padDecimal 2 n).length = 2 :=
    fun n hn => length_padDecimal (by omega) hn
  have hh : ∀ t : Instant, t.hour utc < 100 := fun t => by simp only [Instant.hour]; omega
  have hm : ∀ t : Instant, t.minute utc < 100 := fun t => by simp only [Instant.minute]; omega
  obtain ⟨h1, h2⟩ := List.append_inj h (by rw [hlen _ (hh t), hlen _ (hh t')])
  rw [List.cons_append, List.cons_append, List.cons.injEq] at h2
  obtain ⟨h3, h4⟩ := List.append_inj h2.2 (by rw [hlen _ (hm t), hlen _ (hm t')])
  have e1 := padDecimal_injective 2 h1
  have e2 := padDecimal_injective 2 h3
  have e3 := padDecimal_injective 2 (List.cons.inj h4).2
  simp only [Instant.hour, Instant.minute, Instant.second, Instant.local, utc, add_zero] at e1 e2 e3
  have hparts : ∀ u : ℤ, u % 86400 = 3600 * (u % 86400 / 3600).toNat + 60 * (u % 3600 / 60).toNat +
    (u % 60).toNat := by
    intro u
    omega
  rw [hparts t.unix, hparts t'.unix, e1, e2, e3]

theorem rdropWhile_zeroes (s : GoString) :
    s = s.rdropWhile (· = 48) ++ List.replicate (s.length - (s.rdropWhile (· = 48)).length) 48 := by
  induction s using List.reverseRecOn with
  | nil => rfl
  | append_singleton s b ih =>
    by_cases hb : b = 48
    · subst hb
      have hle := (List.rdropWhile_prefix (fun b : UInt8 => decide (b = 48)) s).length_le
      rw [List.rdropWhile_concat_pos _ _ _ (by simp), List.length_append, List.length_singleton,
        Nat.sub_add_comm hle, List.replicate_succ', ← List.append_assoc, ← ih]
    · rw [List.rdropWhile_concat_neg _ _ _ (by simpa using hb)]
      simp

theorem fractionText_inj {n n' : ℕ} (hn : n < 1000000000) (hn' : n' < 1000000000)
    (h : fractionText n = fractionText n') : n = n' := by
  unfold fractionText at h
  split_ifs at h with h1 h2 h2
  · omega
  · have hl := length_padDecimal (w := 9) (n := n) (by omega) (by omega)
    have hl' := length_padDecimal (w := 9) (by omega) (by omega)
    have hs := (List.cons.inj h).2
    have e := rdropWhile_zeroes (padDecimal 9 n)
    have e' := rdropWhile_zeroes (padDecimal 9 n')
    rw [hs, hl] at e
    rw [hl'] at e'
    exact padDecimal_injective 9 (e.trans e'.symm)

theorem eq_of_parts {t t' : ℤ} (hd : t / 1000000000 / 86400 = t' / 1000000000 / 86400)
    (hs : t / 1000000000 % 86400 = t' / 1000000000 % 86400)
    (hn : (t % 1000000000).toNat = (t' % 1000000000).toNat) : t = t' := by
  have hu : t / 1000000000 = t' / 1000000000 := by
    rw [← Int.mul_ediv_add_emod (t / 1000000000) 86400, hd, hs, Int.mul_ediv_add_emod]
  have hm : t % 1000000000 = t' % 1000000000 := by omega
  rw [← Int.mul_ediv_add_emod t 1000000000, hu, hm, Int.mul_ediv_add_emod]

theorem formatRFC3339Nano_injective : Function.Injective formatRFC3339Nano := by
  intro t t' h
  have hT : ∀ t : Instant, (84 : UInt8) ∉ dateText t := by
    intro t
    have hd : ∀ w n, (84 : UInt8) ∉ padDecimal w n := fun w n => not_mem_padDecimal (by decide) w n
    unfold dateText yearText
    dsimp only
    split_ifs <;> simp [hd]
  have hns : ∀ t : Instant, t.nanosecond < 1000000000 := fun t => by
    unfold Instant.nanosecond; omega
  obtain ⟨hdate, hrest⟩ := append_cons_inj h (hT t) (hT t')
  have hclock : ∀ t : Instant, (clockText t).length = 8 := by
    intro t
    have hh : t.hour utc < 100 := by simp only [Instant.hour, utc]; omega
    have hm : t.minute utc < 100 := by simp only [Instant.minute, utc]; omega
    have hs : t.second < 100 := by unfold Instant.second; omega
    have hlen : ∀ n, n < 100 → (padDecimal 2 n).length = 2 := fun n hn => length_padDecimal (by omega) hn
    simp only [clockText, List.length_append, List.length_cons, hlen _ hh, hlen _ hm, hlen _ hs]
  obtain ⟨hck, hfr⟩ := List.append_inj hrest (by rw [hclock, hclock])
  have h1 := dateText_inj hdate
  have h2 := clockText_inj hck
  have h3 := fractionText_inj (hns t) (hns t') (List.append_inj_left' hfr rfl)
  exact eq_of_parts h1 h2 h3

theorem mem_formatRFC3339Nano {t : Instant} {b : UInt8} (h : b ∈ formatRFC3339Nano t) :
    IsDecDigit b ∨ b ∈ ([45, 84, 58, 46, 90] : GoString) := by
  have hpad : ∀ {w n}, b ∈ padDecimal w n → IsDecDigit b := fun hm => isDecDigit_padDecimal _ _ b hm
  have hyear : ∀ y, b ∈ yearText y → IsDecDigit b ∨ b = 45 := by
    intro y hm
    unfold yearText at hm
    split_ifs at hm
    · exact (List.mem_cons.mp hm).symm.imp hpad id
    · exact Or.inl (hpad hm)
  have hfrac : ∀ n, b ∈ fractionText n → IsDecDigit b ∨ b = dot := by
    intro n hm
    unfold fractionText at hm
    split_ifs at hm
    · simp at hm
    · rcases List.mem_cons.mp hm with hm | hm
      · exact Or.inr hm
      · exact Or.inl (hpad ((List.rdropWhile_prefix _ _).subset hm))
  simp only [formatRFC3339Nano, dateText, clockText, List.mem_append, List.mem_cons,
    List.not_mem_nil, or_false] at h ⊢
  rcases h with (h | (h | h) | h | h) | h | (h | (h | h) | h | h) | h | h
  · exact (hyear _ h).imp id Or.inl
  · exact Or.inr (Or.inl h)
  · exact Or.inl (hpad h)
  · exact Or.inr (Or.inl h)
  · exact Or.inl (hpad h)
  · exact Or.inr (Or.inr (Or.inl h))
  · exact Or.inl (hpad h)
  · exact Or.inr (Or.inr (Or.inr (Or.inl h)))
  · exact Or.inl (hpad h)
  · exact Or.inr (Or.inr (Or.inr (Or.inl h)))
  · exact Or.inl (hpad h)
  · exact (hfrac _ h).imp id fun e => Or.inr (Or.inr (Or.inr (Or.inl e)))
  · exact Or.inr (Or.inr (Or.inr (Or.inr (Or.inr h))))

example : formatRFC3339Nano 1790855999123456000 = str "2026-10-01T11:59:59.123456Z" := by
  decide +kernel

/-! ## Hours and minutes -/

/-- The number that `time.Parse` takes from the front for an element with two digits, of which one
is enough unless `fixed`. -/
def takeTwoDigits (fixed : Bool) : GoString → Option (ℕ × GoString)
  | d :: rest =>
    if IsDecDigit d then
      match rest with
      | e :: rest' =>
        if IsDecDigit e then some (decValue [d, e], rest') else if fixed then none else some (decValue [d], rest)
      | [] => if fixed then none else some (decValue [d], [])
    else none
  | [] => none

/-- `time.Parse("15:04", value)`: the hour and the minute. -/
def parseHourMinute (value : GoString) : Option (ℕ × ℕ) :=
  match takeTwoDigits false value with
  | some (hour, 58 :: rest) =>
    match takeTwoDigits true rest with
    | some (minute, []) => if hour < 24 ∧ minute < 60 then some (hour, minute) else none
    | _ => none
  | _ => none

/-! ## Numbers in texts (`strconv`) -/

def parseUint (bits : ℕ) (s : GoString) : Option ℕ :=
  if s ≠ [] ∧ s.all (fun b => IsDecDigit b) = true then if decValue s < 2 ^ bits then
    some (decValue s) else none else none

/-- `strconv.ParseInt(s, 10, 64)`. -/
def parseInt64 (s : GoString) : Option ℤ :=
  match s with
  | 0x2D :: digits =>
    (parseUint 64 digits).bind fun n => if n ≤ 2 ^ 63 then some (-(n : ℤ)) else none
  | 0x2B :: digits => (parseUint 64 digits).bind fun n => if n < 2 ^ 63 then some (n : ℤ) else none
  | digits => (parseUint 64 digits).bind fun n => if n < 2 ^ 63 then some (n : ℤ) else none

theorem parseUint_digits {bits : ℕ} {s : GoString} (h : (parseUint bits s).isSome = true) :
    s ≠ [] ∧ ∀ b ∈ s, IsDecDigit b := by
  by_contra hs
  have hall : ¬ (s ≠ [] ∧ s.all (fun b => IsDecDigit b) = true) :=
    fun ⟨hne, hdigits⟩ => hs ⟨hne, fun b hb => of_decide_eq_true (List.all_eq_true.mp hdigits b hb)⟩
  rw [parseUint, if_neg hall] at h
  cases h

end Portlyn.Go
