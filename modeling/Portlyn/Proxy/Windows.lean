import Portlyn.Proxy.Access

/-! # Access windows (`manager.go`, `access.go`)

A window has days, a start and an end, and the end may be on the next day. What it says is stated in
local time (`Means`); `window_means_iff` says at which times the compiled window says the same. -/
namespace Portlyn.Proxy
open Go Domain
set_option autoImplicit false

/-! ## Names of days -/

section Days

theorem parseHourMinute_lt {value : GoString} {time : ℕ × ℕ}
    (h : parseHourMinute value = some time) : time.1 < 24 ∧ time.2 < 60 := by
  unfold parseHourMinute at h
  split at h
  · split at h
    · split at h
      · rename_i hlt
        cases h
        exact hlt
      · cases h
    · cases h
  · cases h

theorem minute_of_day (t : Instant) (loc : Location) :
    ((t.hour loc * 60 + t.minute loc : ℕ) : ℤ) = t.local loc % 86400 / 60 := by
  rw [Instant.hour, Instant.minute]
  omega

theorem agree_today {named listed began goesOn notPast : Prop} (h : listed → named) :
    ((¬ named ∨ listed) ∧ began ∧ goesOn ↔ listed ∧ began ∧ goesOn ∧ notPast) ↔
      (began → goesOn → named ∧ (listed → notPast)) := by
  tauto

theorem agree_tonight {named listed listedBefore began goesOn notPast : Prop} (h : listed → named)
    (hapart : began → goesOn → False) :
    ((¬ named ∨ listed) ∧ (began ∨ goesOn) ↔ listed ∧ began ∨ listedBefore ∧ goesOn ∧ notPast) ↔
      ((began → named) ∧ (goesOn → (¬ named ∨ listed ↔ listedBefore ∧ notPast))) := by
  tauto

variable [UnicodeTables]

variable {window : AccessWindow}

theorem compileAccessWindow_cases {loadLocation : GoString → Option Location}
    {compiled : CompiledAccessWindow}
    (h : compileAccessWindow loadLocation window = some compiled) :
    ∃ start finish location, parseHourMinute window.startTime = some start ∧
      parseHourMinute window.endTime = some finish ∧
      (if trimSpace window.timezone ≠ [] then loadLocation window.timezone else some utc) =
        some location ∧
      compiled = ⟨window.name, window.daysOfWeek.filterMap parseWeekday, start.1 * 60 + start.2,
        finish.1 * 60 + finish.2, location⟩ := by
  obtain ⟨start, hstart, h⟩ := Option.bind_eq_some_iff.mp h
  obtain ⟨finish, hfinish, h⟩ := Option.bind_eq_some_iff.mp h
  refine ⟨start, finish, compiled.location, hstart, hfinish, ?_⟩
  split at h
  · rename_i hzone
    obtain ⟨location, hlocation, h⟩ := Option.bind_eq_some_iff.mp h
    cases h
    rw [if_pos hzone]
    exact ⟨hlocation, rfl⟩
  · rename_i hzone
    cases h
    rw [if_neg hzone]
    exact ⟨rfl, rfl⟩

/-! ## What a window says -/

def windowLocation (loadLocation : GoString → Option Location) (window : AccessWindow) : Option Location :=
  if trimSpace window.timezone ≠ [] then loadLocation window.timezone else some utc

def dayOf (d : ℤ) : Weekday := weekdays.getD ((d + 4) % 7).toNat .sunday

def Listed (window : AccessWindow) (d : ℤ) : Prop := window.daysOfWeek = [] ∨
    ∃ name ∈ window.daysOfWeek, parseWeekday name = some (dayOf d)

def localTime (t : Instant) (loc : Location) : ℤ := t.local loc * 1000000000 + t % 1000000000

def onDay (d : ℤ) (time : ℕ × ℕ) : ℤ := (d * 86400 + (time.1 * 60 + time.2) * 60) * 1000000000

def minutesOf (time : ℕ × ℕ) : ℕ := time.1 * 60 + time.2

/-- On one of its days the window has started and not yet ended; if the end is before the start, it
is that of the next day. -/
def Means (loadLocation : GoString → Option Location) (window : AccessWindow) (t : Instant) : Prop :=
  ∃ start finish location, parseHourMinute window.startTime = some start ∧
    parseHourMinute window.endTime = some finish ∧
    windowLocation loadLocation window = some location ∧
    ∃ d, Listed window d ∧ onDay d start ≤ localTime t location ∧
      localTime t location ≤ onDay (if minutesOf start ≤ minutesOf finish then d else d + 1) finish

/-! ## Days, minutes and the rest -/

variable {loc : Location}

omit [UnicodeTables] in
theorem onDay_le {t : Instant} {d : ℤ} {time : ℕ × ℕ} :
    onDay d time ≤ localTime t loc ↔ d * 86400 + minutesOf time * 60 ≤ t.local loc := by
  have hscale : ∀ x y n : ℤ, 0 ≤ n → n < 1000000000 → (x * 1000000000 ≤ y * 1000000000 + n ↔ x ≤ y) := by
    intro x y n h0 h1
    omega
  rw [onDay, localTime, hscale _ _ _ (by omega) (by omega)]
  rfl

omit [UnicodeTables] in
theorem le_onDay {t : Instant} {d : ℤ} {time : ℕ × ℕ} :
    localTime t loc ≤ onDay d time ↔ t.local loc < d * 86400 + minutesOf time * 60 ∨
      t.local loc = d * 86400 + minutesOf time * 60 ∧ t % 1000000000 = 0 := by
  have hscale : ∀ x y n : ℤ, 0 ≤ n → n < 1000000000 →
    (y * 1000000000 + n ≤ x * 1000000000 ↔ y < x ∨ y = x ∧ n = 0) := by
    intro x y n h0 h1
    omega
  rw [onDay, localTime, hscale _ _ _ (by omega) (by omega)]
  rfl

/-! ## Agreement -/

def Named (window : AccessWindow) : Prop := window.daysOfWeek = [] ∨
    ∃ name ∈ window.daysOfWeek, (parseWeekday name).isSome

def NotPast (compiled : CompiledAccessWindow) (t : Instant) : Prop :=
  t.hour compiled.location * 60 + t.minute compiled.location = compiled.endMinutes →
    t.local compiled.location % 60 = 0 ∧ t % 1000000000 = 0

/-- The times at which a window is told right. During the day the list has to name a day, and the
last minute counts only at its very beginning. Over midnight the evening is told right if the list
names a day, and the morning if today is listed exactly where yesterday is. -/
def ToldRight (window : AccessWindow) (compiled : CompiledAccessWindow) (t : Instant) : Prop :=
  let today := t.local compiled.location / 86400
  let minute := t.hour compiled.location * 60 + t.minute compiled.location
  if compiled.startMinutes ≤ compiled.endMinutes then
    compiled.startMinutes ≤ minute → minute ≤ compiled.endMinutes → Named window ∧
    (Listed window today → NotPast compiled t)
  else
    (compiled.startMinutes ≤ minute → Named window) ∧
      (minute ≤ compiled.endMinutes →
        (¬ Named window ∨ Listed window today ↔ Listed window (today - 1) ∧ NotPast compiled t))

theorem weekdays_open {t : Instant} :
    (window.daysOfWeek.filterMap parseWeekday = [] ∨ t.weekday loc ∈ window.daysOfWeek.filterMap parseWeekday) ↔
      ¬ Named window ∨ Listed window (t.local loc / 86400) := by
  have htoday : t.weekday loc = dayOf (t.local loc / 86400) := rfl
  rw [htoday, Listed, Named]
  by_cases hempty : window.daysOfWeek = []
  · simp [hempty]
  · simp [hempty]

theorem named_of_listed {d : ℤ} (h : Listed window d) : Named window := by
  rcases h with hempty | ⟨name, hname, hday⟩
  · exact Or.inl hempty
  · exact Or.inr ⟨name, hname, by rw [hday]; rfl⟩

section Compiled
variable {window : AccessWindow} {t : Instant} {loc : Location} {start finish : ℕ × ℕ} {today : ℤ}
  {minute : ℕ}

theorem open_today (hle : minutesOf start ≤ minutesOf finish) (hfinish : minutesOf finish < 1440)
    (htoday : today = t.local loc / 86400) (hminute : (minute : ℤ) = t.local loc % 86400 / 60) :
    (∃ d, Listed window d ∧ onDay d start ≤ localTime t loc ∧ localTime t loc ≤ onDay d finish) ↔
      Listed window today ∧ minutesOf start ≤ minute ∧ minute ≤ minutesOf finish ∧
        (minute = minutesOf finish → t.local loc % 60 = 0 ∧ t % 1000000000 = 0) := by
  simp only [onDay_le, le_onDay]
  constructor
  · rintro ⟨d, hlisted, hstart, hend⟩
    have hd : d = today := by omega
    subst hd
    exact ⟨hlisted, by omega, by omega, fun heq => ⟨by omega, (hend.resolve_left (by omega)).2⟩⟩
  · rintro ⟨hlisted, hstart, hend, hlast⟩
    refine ⟨today, hlisted, by omega, ?_⟩
    by_cases heq : minute = minutesOf finish
    · exact Or.inr ⟨by omega, (hlast heq).2⟩
    · exact Or.inl (by omega)

theorem open_tonight (hlt : minutesOf finish < minutesOf start) (hstart : minutesOf start < 1440)
    (htoday : today = t.local loc / 86400) (hminute : (minute : ℤ) = t.local loc % 86400 / 60) :
    (∃ d, Listed window d ∧ onDay d start ≤ localTime t loc ∧ localTime t loc ≤ onDay (d + 1) finish) ↔
      Listed window today ∧ minutesOf start ≤ minute ∨ Listed window (today - 1) ∧ minute ≤ minutesOf finish ∧
        (minute = minutesOf finish → t.local loc % 60 = 0 ∧ t % 1000000000 = 0) := by
  simp only [onDay_le, le_onDay]
  constructor
  · rintro ⟨d, hlisted, hbegan, hend⟩
    have hd : d = today ∨ d = today - 1 := by omega
    rcases hd with rfl | rfl
    · exact Or.inl ⟨hlisted, by omega⟩
    · exact Or.inr ⟨hlisted, by omega, fun heq => ⟨by omega, (hend.resolve_left (by omega)).2⟩⟩
  · rintro (⟨hlisted, hbegan⟩ | ⟨hlisted, hend, hlast⟩)
    · exact ⟨today, hlisted, by omega, by omega⟩
    · refine ⟨today - 1, hlisted, by omega, ?_⟩
      by_cases heq : minute = minutesOf finish
      · exact Or.inr ⟨by omega, (hlast heq).2⟩
      · exact Or.inl (by omega)

end Compiled

/-- A compiled window matches when the window says so, exactly at the times at which it is told
right. -/
theorem window_means_iff {loadLocation : GoString → Option Location} {window : AccessWindow}
    {compiled : CompiledAccessWindow} (h : compileAccessWindow loadLocation window = some compiled)
    (t : Instant) :
    (accessWindowMatches compiled t = true ↔ Means loadLocation window t) ↔
      ToldRight window compiled t := by
  obtain ⟨start, finish, location, hstart, hfinish, hlocation, rfl⟩ := compileAccessWindow_cases h
  have hbounds : minutesOf start < 1440 ∧ minutesOf finish < 1440 := by
    have h1 := parseHourMinute_lt hstart
    have h2 := parseHourMinute_lt hfinish
    rw [minutesOf, minutesOf]
    omega
  have hmeans : Means loadLocation window t ↔ ∃ d, Listed window d ∧ onDay d start ≤ localTime t location ∧
      localTime t location ≤ onDay (if minutesOf start ≤ minutesOf finish then d else d + 1) finish := by
    rw [Means, hstart, hfinish, windowLocation, hlocation]
    constructor
    · rintro ⟨_, _, _, ⟨⟩, ⟨⟩, ⟨⟩, hopen⟩
      exact hopen
    · exact fun hopen => ⟨start, finish, location, rfl, rfl, rfl, hopen⟩
  have hmatches : accessWindowMatches ⟨window.name, window.daysOfWeek.filterMap parseWeekday,
      minutesOf start, minutesOf finish, location⟩ t = true ↔
      (¬ Named window ∨ Listed window (t.local location / 86400)) ∧
        (if minutesOf start ≤ minutesOf finish then
          minutesOf start ≤ t.hour location * 60 + t.minute location ∧
          t.hour location * 60 + t.minute location ≤ minutesOf finish
        else minutesOf start ≤ t.hour location * 60 + t.minute location ∨
        t.hour location * 60 + t.minute location ≤ minutesOf finish) := by
    rw [← weekdays_open, accessWindowMatches]
    rw [Bool.and_eq_true, Bool.or_eq_true, decide_eq_true_eq, decide_eq_true_eq]
    refine and_congr_right fun _ => ?_
    split <;> simp
  have hminute := minute_of_day t location
  change (accessWindowMatches ⟨_, _, minutesOf start, minutesOf finish, _⟩ t = true ↔ _) ↔
    ToldRight window ⟨_, _, minutesOf start, minutesOf finish, _⟩ t
  rw [hmatches, hmeans, ToldRight]
  by_cases hle : minutesOf start ≤ minutesOf finish
  · simp only [if_pos hle]
    rw [open_today hle hbounds.2 rfl hminute]
    exact agree_today named_of_listed
  · have hlt : minutesOf finish < minutesOf start := Nat.lt_of_not_le hle
    simp only [if_neg hle]
    rw [open_tonight hlt hbounds.1 rfl hminute]
    -- the evening and the morning do not meet
    exact agree_tonight named_of_listed fun hbegan hend => by omega

end Days

/-! ## A Friday -/

def fridays (start finish : GoString) : AccessWindow := ⟨[], [str "Friday"], start, finish, []⟩

/-- An hour after the midnight that the second of January 1970 begins with, which was a Friday, or
after a later one. -/
def hourAfter (nights hour : ℤ) : Instant := ((nights + 1) * 86400 + hour * 3600) * 1000000000

theorem window_means_noon :
    ∃ compiled, @compileAccessWindow asciiTables (fun _ => none) (fridays (str "09:00") (str "17:00")) = some compiled ∧
      accessWindowMatches compiled (hourAfter 0 12) = true ∧
      @Means asciiTables (fun _ => none) (fridays (str "09:00") (str "17:00")) (hourAfter 0 12) := by
  have hsome : (@compileAccessWindow asciiTables (fun _ => none)
    (fridays (str "09:00") (str "17:00"))).isSome = true := by decide +kernel
  obtain ⟨compiled, hcompiled⟩ := Option.isSome_iff_exists.mp hsome
  have hmatches : (@compileAccessWindow asciiTables (fun _ => none) (fridays (str "09:00") (str "17:00"))).any
      (accessWindowMatches · (hourAfter 0 12)) = true := by decide +kernel
  have hminute : (@compileAccessWindow asciiTables (fun _ => none) (fridays (str "09:00") (str "17:00"))).any
      (fun c => c.startMinutes ≤ c.endMinutes &&
        (hourAfter 0 12).hour c.location * 60 + (hourAfter 0 12).minute c.location < c.endMinutes) =
        true := by
    decide +kernel
  rw [hcompiled, Option.any_some] at hmatches hminute
  rw [Bool.and_eq_true, decide_eq_true_eq, decide_eq_true_eq] at hminute
  refine ⟨compiled, hcompiled, hmatches, ((@window_means_iff asciiTables _ _ _ hcompiled _).mpr ?_).mp hmatches⟩
  unfold ToldRight
  rw [if_pos hminute.1]
  intro _ _
  refine ⟨Or.inr ⟨str "Friday", List.mem_singleton_self _, by decide +kernel⟩, fun _ hlast => ?_⟩
  omega

/-- A window over the night of Friday is open in the morning of Friday, and closed in the morning
after. -/
theorem overnight_misread :
    ∃ compiled, @compileAccessWindow asciiTables (fun _ => none) (fridays (str "22:00") (str "06:00")) = some compiled ∧
      accessWindowMatches compiled (hourAfter 0 3) = true ∧
      ¬ @Means asciiTables (fun _ => none) (fridays (str "22:00") (str "06:00")) (hourAfter 0 3) ∧
      accessWindowMatches compiled (hourAfter 1 3) = false ∧
      @Means asciiTables (fun _ => none) (fridays (str "22:00") (str "06:00")) (hourAfter 1 3) := by
  have hsome : (@compileAccessWindow asciiTables (fun _ => none)
    (fridays (str "22:00") (str "06:00"))).isSome = true := by decide +kernel
  obtain ⟨compiled, hcompiled⟩ := Option.isSome_iff_exists.mp hsome
  have hmatches : (@compileAccessWindow asciiTables (fun _ => none) (fridays (str "22:00") (str "06:00"))).any
      (fun c => accessWindowMatches c (hourAfter 0 3) && !accessWindowMatches c (hourAfter 1 3)) =
        true := by decide +kernel
  rw [hcompiled, Option.any_some, Bool.and_eq_true, Bool.not_eq_true'] at hmatches
  have hstart : parseHourMinute (str "22:00") = some (22, 0) := by decide +kernel
  have hfinish : parseHourMinute (str "06:00") = some (6, 0) := by decide +kernel
  refine ⟨compiled, hcompiled, hmatches.1, ?_, hmatches.2, ?_⟩
  · rintro ⟨_, _, _, hs, hf, hl, d, hlisted, hbegan, hend⟩
    cases hstart.symm.trans hs
    cases hfinish.symm.trans hf
    cases hl
    have hd : d = 0 := by
      rw [le_onDay] at hend
      rw [onDay_le] at hbegan
      have hlocal : (hourAfter 0 3).local utc = 97200 := by decide +kernel
      simp only [minutesOf] at hbegan hend
      omega
    subst hd
    rcases hlisted with hnil | ⟨name, hname, hday⟩
    · cases hnil
    · rw [List.mem_singleton.mp hname] at hday
      revert hday
      decide +kernel
  · refine ⟨(22, 0), (6, 0), utc, hstart, hfinish, rfl, 1,
      Or.inr ⟨str "Friday", List.mem_singleton_self _, by decide +kernel⟩, ?_, ?_⟩
    all_goals decide +kernel

end Portlyn.Proxy
