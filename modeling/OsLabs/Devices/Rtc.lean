import Mathlib.Tactic.IntervalCases
import Mathlib.Tactic.Ring
import OsLabs.Lib.Yields

/-!
# The real-time clock

`devices/rtc.c`. The CMOS registers hold the time in BCD, and `rtc_get_time` converts it to seconds since 1970-01-01 00:00:00.

The loop over the months of the year also adds the month that has only begun, so the result is late by about a month for
every date (`rtcGetTime_late`). Besides, the days added for leap years are counted as if 1970 were a leap year and not 1972,
which makes a difference of up to two days. So the result is never right (`rtc_time_wrong`).
-/

namespace OsLabs.Devices

open Lib

/-! ## The code -/

/-- The registers that are read. -/
inductive RtcReg where
  | sec
  | min
  | hour
  | mday
  | mon
  | year

/-- What the reads of the registers return, one after the other. -/
def Cmos : Type :=
  ℕ → RtcReg → UInt8

/-- `bcd_to_bin`. -/
def bcdToBin (x : UInt8) : ℤ :=
  ((x &&& 0x0f).toNat : ℤ) + (x >>> 4).toNat * 10

/-- The components of the time. -/
structure RtcTime where
  sec : ℤ
  min : ℤ
  hour : ℤ
  mday : ℤ
  mon : ℤ
  year : ℤ

/-- The loop that reads the registers until the seconds are the same before and after, from read number `k` on. -/
def rtcRead (cmos : Cmos) : ℕ → ℕ → Option RtcTime
  | 0, _ => none
  | fuel + 1, k =>
    let sec := bcdToBin (cmos k .sec)
    let min := bcdToBin (cmos (k + 1) .min)
    let hour := bcdToBin (cmos (k + 2) .hour)
    let mday := bcdToBin (cmos (k + 3) .mday)
    let mon := bcdToBin (cmos (k + 4) .mon)
    let year := bcdToBin (cmos (k + 5) .year)
    if sec ≠ bcdToBin (cmos (k + 6) .sec) then rtcRead cmos fuel (k + 7)
    else some { sec, min, hour, mday, mon, year }

def daysPerMonth : List ℤ :=
  [31, 28, 31, 30, 31, 30, 31, 31, 30, 31, 30, 31]

/-- An assignment to `time`, which has 32 bits. -/
def addTime (time seconds : ℤ) : ℤ :=
  (time + seconds) % 2 ^ 32

/-- The loop over the months: round `i` adds month `i + 1`. -/
def addMonths (time mon : ℤ) : ℤ :=
  (List.range mon.toNat).foldl (fun time i => addTime time (daysPerMonth.getD i 0 * 24 * 60 * 60)) time

/-- The conversion in `rtc_get_time`. -/
def rtcSeconds (t : RtcTime) : ℤ :=
  let year := if t.year < 70 then t.year + 100 else t.year
  let year := year - 70
  let time := addTime 0 ((year * 365 + (year - 1).tdiv 4) * 24 * 60 * 60)
  let time := addMonths time t.mon
  let time := if t.mon > 2 ∧ year.tmod 4 = 0 then addTime time (24 * 60 * 60) else time
  let time := addTime time ((t.mday - 1) * 24 * 60 * 60)
  let time := addTime time (t.hour * 60 * 60)
  let time := addTime time (t.min * 60)
  addTime time t.sec

/-- `rtc_get_time`. -/
def rtcGetTime (cmos : Cmos) (fuel : ℕ) : Option ℤ := do
  let t ← rtcRead cmos fuel 0
  return rtcSeconds t

/-! ## The calendar -/

def IsLeap (year : ℕ) : Prop :=
  year % 4 = 0 ∧ (year % 100 ≠ 0 ∨ year % 400 = 0)

instance (year : ℕ) : Decidable (IsLeap year) :=
  inferInstanceAs (Decidable (_ ∧ _))

def daysInYear (year : ℕ) : ℕ :=
  if IsLeap year then 366 else 365

def daysInMonth (year month : ℕ) : ℕ :=
  if month = 2 then if IsLeap year then 29 else 28
  else if month = 4 ∨ month = 6 ∨ month = 9 ∨ month = 11 then 30
  else 31

/-- A date and time from 1970-01-01 00:00:00 to 2037-12-31 23:59:59. -/
structure DateTime where
  year : ℕ
  month : ℕ
  day : ℕ
  hour : ℕ
  minute : ℕ
  second : ℕ
  year_le : 1970 ≤ year
  le_year : year ≤ 2037
  month_pos : 1 ≤ month
  month_le : month ≤ 12
  day_pos : 1 ≤ day
  day_le : day ≤ daysInMonth year month
  hour_lt : hour < 24
  minute_lt : minute < 60
  second_lt : second < 60

/-- The days of the years from 1970 on, before a year. -/
def daysBeforeYear (year : ℕ) : ℕ :=
  ((List.range (year - 1970)).map fun i => daysInYear (1970 + i)).sum

/-- The days of the months of a year, before a month. -/
def daysBeforeMonth (year month : ℕ) : ℕ :=
  ((List.range (month - 1)).map fun i => daysInMonth year (i + 1)).sum

/-- The number of days since 1970-01-01. -/
def DateTime.days (d : DateTime) : ℕ :=
  daysBeforeYear d.year + daysBeforeMonth d.year d.month + (d.day - 1)

/-- The number of seconds since 1970-01-01 00:00:00. -/
def DateTime.seconds (d : DateTime) : ℕ :=
  d.days * 86400 + d.hour * 3600 + d.minute * 60 + d.second

/-- Two decimal digits, four bits each. -/
def toBcd (n : ℕ) : UInt8 :=
  (n / 10 * 16 + n % 10).toUInt8

/-- The registers when the clock shows `d`. -/
def DateTime.register (d : DateTime) : RtcReg → UInt8
  | .sec => toBcd d.second
  | .min => toBcd d.minute
  | .hour => toBcd d.hour
  | .mday => toBcd d.day
  | .mon => toBcd d.month
  | .year => toBcd (d.year % 100)

/-- The clock shows `d` all the time. -/
def Cmos.Shows (cmos : Cmos) (d : DateTime) : Prop :=
  ∀ k reg, cmos k reg = d.register reg

/-! ## The registers -/

lemma bcdToBin_toBcd {n : ℕ} (h : n < 100) : bcdToBin (toBcd n) = n := by
  have hall : ∀ n < 100, bcdToBin (toBcd n) = n := by decide
  exact hall n h

/-- The components of a date and time. -/
def DateTime.components (d : DateTime) : RtcTime where
  sec := d.second
  min := d.minute
  hour := d.hour
  mday := d.day
  mon := d.month
  year := (d.year % 100 : ℕ)

lemma DateTime.day_le_31 (d : DateTime) : d.day ≤ 31 := by
  have hday := d.day_le
  unfold daysInMonth at hday
  split_ifs at hday <;> omega

/-- The first round reads the components. -/
lemma rtcRead_shows {cmos : Cmos} {d : DateTime} (h : cmos.Shows d) : Returns (fun fuel => rtcRead cmos fuel 0) d.components := by
  refine ⟨1, fun fuel hfuel => ?_⟩
  obtain ⟨fuel, rfl⟩ : ∃ k, fuel = k + 1 := ⟨fuel - 1, by omega⟩
  have hsec := d.second_lt
  have hmin := d.minute_lt
  have hhour := d.hour_lt
  have hday := d.day_le_31
  have hmonth := d.month_le
  have hyear : d.year % 100 < 100 := Nat.mod_lt _ (by decide)
  show rtcRead cmos (fuel + 1) 0 = _
  rw [rtcRead]
  simp only [h _ _, DateTime.register, bcdToBin_toBcd (show d.second < 100 by omega), bcdToBin_toBcd (show d.minute < 100 by omega),
    bcdToBin_toBcd (show d.hour < 100 by omega), bcdToBin_toBcd (show d.day < 100 by omega),
    bcdToBin_toBcd (show d.month < 100 by omega), bcdToBin_toBcd hyear]
  exact if_neg (not_not.mpr rfl)

/-! ## The conversion -/

lemma addTime_emod (x seconds : ℤ) : addTime (x % 2 ^ 32) seconds = (x + seconds) % 2 ^ 32 :=
  Int.emod_add_emod ..

/-- The days of the first `n` months in the table. -/
def tableDays (n : ℕ) : ℤ :=
  ((List.range n).map fun i => daysPerMonth.getD i 0).sum

lemma addMonths_emod (x : ℤ) (mon : ℕ) : addMonths (x % 2 ^ 32) mon = (x + tableDays mon * 86400) % 2 ^ 32 := by
  unfold addMonths tableDays
  rw [Int.toNat_natCast]
  induction mon with
  | zero => simp
  | succ n ih =>
    rw [List.range_succ, List.foldl_append, ih, List.foldl_cons, List.foldl_nil, addTime_emod, List.map_append, List.sum_append,
      List.map_singleton, List.sum_singleton]
    congr 1
    omega

/-- The years since 1970. -/
def DateTime.age (d : DateTime) : ℕ :=
  d.year - 1970

/-- The days that `rtc_get_time` counts before the date. -/
def DateTime.countedDays (d : DateTime) : ℤ :=
  d.age * 365 + ((d.age - 1) / 4 : ℕ) + tableDays d.month + (if d.month > 2 ∧ d.age % 4 = 0 then 1 else 0) + (d.day - 1)

lemma rtcSeconds_components (d : DateTime) :
    rtcSeconds d.components = (d.countedDays * 86400 + d.hour * 3600 + d.minute * 60 + d.second) % 2 ^ 32 := by
  have hlow := d.year_le
  have hhigh := d.le_year
  have hyear : (if d.components.year < 70 then d.components.year + 100 else d.components.year) - 70 = d.age := by
    show (if ((d.year % 100 : ℕ) : ℤ) < 70 then ((d.year % 100 : ℕ) : ℤ) + 100 else (d.year % 100 : ℕ)) - 70 = _
    unfold DateTime.age
    split <;> omega
  -- the division of -1 by 4 is 0 in C, too
  have hdiv : ((d.age : ℤ) - 1).tdiv 4 = ((d.age - 1) / 4 : ℕ) := by
    cases d.age with
    | zero => rfl
    | succ n =>
      rw [show ((n + 1 : ℕ) : ℤ) - 1 = (n : ℤ) by omega]
      rfl
  have hmod : ((d.age : ℤ).tmod 4 = 0) ↔ d.age % 4 = 0 := by
    rw [Int.tmod_eq_emod_of_nonneg (by omega)]
    omega
  unfold rtcSeconds
  dsimp only
  rw [hyear, hdiv]
  have hstart (seconds : ℤ) : addTime 0 seconds = seconds % 2 ^ 32 := by rw [addTime, Int.zero_add]
  have hmon : d.components.mon = (d.month : ℤ) := rfl
  rw [hstart, hmon, addMonths_emod]
  simp only [hmod]
  unfold DateTime.countedDays
  show addTime (addTime (addTime (addTime _ (((d.day : ℤ) - 1) * 24 * 60 * 60)) ((d.hour : ℤ) * 60 * 60))
    ((d.minute : ℤ) * 60)) (d.second : ℤ) = _
  by_cases hleap : (d.month : ℤ) > 2 ∧ d.age % 4 = 0
  · have hleap' : d.month > 2 ∧ d.age % 4 = 0 := ⟨by omega, hleap.2⟩
    rw [if_pos hleap, if_pos hleap']
    simp only [addTime_emod]
    apply congrArg (· % (2 : ℤ) ^ 32)
    ring
  · have hleap' : ¬(d.month > 2 ∧ d.age % 4 = 0) := fun h => hleap ⟨by omega, h.2⟩
    rw [if_neg hleap, if_neg hleap']
    simp only [addTime_emod]
    apply congrArg (· % (2 : ℤ) ^ 32)
    ring

/-! ## The error -/

lemma isLeap_iff {y : ℕ} (h : y ≤ 67) : IsLeap (1970 + y) ↔ y % 4 = 2 := by
  unfold IsLeap
  omega

lemma daysBeforeYear_eq {y : ℕ} (h : y ≤ 67) : daysBeforeYear (1970 + y) = 365 * y + (y + 1) / 4 := by
  have hall : ∀ y ≤ 67, daysBeforeYear (1970 + y) = 365 * y + (y + 1) / 4 := by decide
  exact hall y h

lemma daysBeforeMonth_eq (year : ℕ) {month : ℕ} (hpos : 1 ≤ month) (hle : month ≤ 12) :
    (daysBeforeMonth year month : ℤ) = tableDays (month - 1) + if month > 2 ∧ IsLeap year then 1 else 0 := by
  unfold daysBeforeMonth daysInMonth
  by_cases hleap : IsLeap year
  · simp only [hleap]
    interval_cases month <;> rfl
  · simp only [hleap]
    interval_cases month <;> rfl

/-- The days by which the result is late: the month that has begun, and the miscounted leap days. -/
def DateTime.lateDays (d : DateTime) : ℤ :=
  daysPerMonth.getD (d.month - 1) 0 + (((d.age - 1) / 4 : ℕ) - ((d.age + 1) / 4 : ℕ)) +
    if d.month > 2 then (if d.age % 4 = 0 then 1 else if d.age % 4 = 2 then -1 else 0) else 0

lemma tableDays_succ (n : ℕ) : tableDays (n + 1) = tableDays n + daysPerMonth.getD n 0 := by
  unfold tableDays
  rw [List.range_succ, List.map_append, List.sum_append, List.map_singleton, List.sum_singleton]

lemma countedDays_eq (d : DateTime) : d.countedDays = d.days + d.lateDays := by
  have hlow := d.year_le
  have hhigh := d.le_year
  have hday := d.day_pos
  have hmonth := d.month_pos
  have hage : d.year = 1970 + d.age := by
    unfold DateTime.age
    omega
  have hyears := daysBeforeYear_eq (y := d.age) (by omega)
  have hmonths := daysBeforeMonth_eq d.year hmonth d.month_le
  have htable : tableDays d.month = tableDays (d.month - 1) + daysPerMonth.getD (d.month - 1) 0 := by
    rw [← tableDays_succ, Nat.sub_add_cancel hmonth]
  have hleap := isLeap_iff (y := d.age) (by omega)
  rw [hage] at hmonths
  simp only [hleap] at hmonths
  have hdays : d.days = daysBeforeYear (1970 + d.age) + daysBeforeMonth (1970 + d.age) d.month + (d.day - 1) := by
    rw [← hage]
    rfl
  unfold DateTime.countedDays DateTime.lateDays
  split_ifs at hmonths ⊢ <;> omega

lemma lateDays_pos (d : DateTime) : 0 < d.lateDays := by
  have hle := d.month_le
  have htable : 28 ≤ daysPerMonth.getD (d.month - 1) 0 := by
    have hall : ∀ i < 12, 28 ≤ daysPerMonth.getD i 0 := by decide
    exact hall (d.month - 1) (by omega)
  unfold DateTime.lateDays
  split_ifs <;> omega

lemma countedDays_bounds (d : DateTime) : 0 ≤ d.countedDays ∧ d.countedDays < 25000 := by
  have hhigh := d.le_year
  have hday := d.day_pos
  have hday' := d.day_le_31
  have hage : d.age ≤ 67 := by
    unfold DateTime.age
    omega
  have htable : 0 ≤ tableDays d.month ∧ tableDays d.month ≤ 365 := by
    have hall : ∀ n ≤ 12, 0 ≤ tableDays n ∧ tableDays n ≤ 365 := by decide
    exact hall d.month d.month_le
  unfold DateTime.countedDays
  split_ifs <;> omega

/-- The result is late by the month that has begun, up to the miscounted leap days. -/
lemma rtcGetTime_late {cmos : Cmos} {d : DateTime} (h : cmos.Shows d) :
    Returns (rtcGetTime cmos) (d.seconds + 86400 * d.lateDays) := by
  have hbounds := countedDays_bounds d
  have hhour := d.hour_lt
  have hminute := d.minute_lt
  have hsecond := d.second_lt
  have heq : rtcSeconds d.components = d.seconds + 86400 * d.lateDays := by
    rw [rtcSeconds_components, Int.emod_eq_of_lt (by omega) (by omega), countedDays_eq]
    unfold DateTime.seconds
    push_cast
    ring
  rw [← heq]
  exact ((rtcRead_shows h).map).congr fun fuel => by
    rw [rtcGetTime]
    cases rtcRead cmos fuel 0 <;> rfl

/-- For no date and time does `rtc_get_time` return the number of seconds since 1970-01-01 00:00:00. -/
theorem rtc_time_wrong (cmos : Cmos) (d : DateTime) (h : cmos.Shows d) : ¬Returns (rtcGetTime cmos) (d.seconds : ℤ) := by
  intro hright
  have heq := hright.unique (rtcGetTime_late h)
  have hpos := lateDays_pos d
  omega

/-- The first second of 1970. -/
def epoch : DateTime where
  year := 1970
  month := 1
  day := 1
  hour := 0
  minute := 0
  second := 0
  year_le := by decide
  le_year := by decide
  month_pos := by decide
  month_le := by decide
  day_pos := by decide
  day_le := by decide
  hour_lt := by decide
  minute_lt := by decide
  second_lt := by decide

theorem rtc_time_wrong_epoch : ¬Returns (rtcGetTime fun _ reg => epoch.register reg) (epoch.seconds : ℤ) :=
  rtc_time_wrong _ epoch fun _ _ => rfl

/-- The result for the first second of 1970 is the first second of February. -/
theorem rtc_epoch_in_february :
    Returns (rtcGetTime fun _ reg => epoch.register reg) (31 * 86400) ∧ (31 * 86400 : ℤ) ≠ epoch.seconds :=
  ⟨rtcGetTime_late (d := epoch) fun _ _ => rfl, by decide⟩

end OsLabs.Devices
