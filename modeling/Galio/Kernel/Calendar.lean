import Galio.Lib.Blocks

/-! The calendar of the wall clock (`time.c`). -/

namespace Galio

open Blocks Finset

structure DateTime where
  second : Nat
  minute : Nat
  hour : Nat
  day : Nat
  month : Nat
  year : Nat
  deriving DecidableEq

def kernelTimeIsValidDatetime (dt : DateTime) : Bool :=
  1970 ≤ dt.year ∧ 1 ≤ dt.month ∧ dt.month ≤ 12 ∧ 1 ≤ dt.day ∧ dt.day ≤ 31 ∧ dt.hour ≤ 23 ∧ dt.minute ≤ 59 ∧
    dt.second ≤ 59

def kernelTimeIsLeapYear (year : Nat) : Bool := year % 4 = 0 ∧ (year % 100 ≠ 0 ∨ year % 400 = 0)

def yearDays (year : Nat) : Nat := 365 + if kernelTimeIsLeapYear year then 1 else 0

def monthDays : List Nat := [31, 28, 31, 30, 31, 30, 31, 31, 30, 31, 30, 31]

def kernelTimeDaysInMonth (month year : Nat) : Nat :=
  if month < 1 ∨ 12 < month then 31
  else if month = 2 ∧ kernelTimeIsLeapYear year then 29
  else monthDays.getD (month - 1) 0

def kernelTimeAdvanceOneSecond (dt : DateTime) : DateTime :=
  let second := (dt.second + 1) % 256
  if second < 60 then { dt with second } else
  let minute := (dt.minute + 1) % 256
  if minute < 60 then { dt with second := 0, minute } else
  let hour := (dt.hour + 1) % 256
  if hour < 24 then { dt with second := 0, minute := 0, hour } else
  let day := (dt.day + 1) % 256
  if day ≤ kernelTimeDaysInMonth dt.month dt.year % 256 then { dt with second := 0, minute := 0, hour := 0, day } else
  let month := (dt.month + 1) % 256
  if month ≤ 12 then ⟨0, 0, 0, 1, month, dt.year⟩ else ⟨0, 0, 0, 1, 1, (dt.year + 1) % 65536⟩

/-- The seconds that the loops count up to a date, from the start of 1970, or of its year if that is earlier. -/
def DateTime.instant (dt : DateTime) : Nat :=
  (∑ year ∈ Ico 1970 dt.year, yearDays year + ∑ month ∈ Ico 1 dt.month, kernelTimeDaysInMonth month dt.year +
    (dt.day - 1)) * 86400 + dt.hour * 3600 + dt.minute * 60 + dt.second

def kernelTimeDatetimeToEpoch (dt : DateTime) : Nat :=
  if kernelTimeIsValidDatetime dt then dt.instant % 2 ^ 32 else 0

lemma yearDays_pos (year : Nat) : 0 < yearDays year := by
  unfold yearDays
  omega

lemma kernelTimeDaysInMonth_bounds (year month : Nat) :
    28 ≤ kernelTimeDaysInMonth month year ∧ kernelTimeDaysInMonth month year ≤ 31 := by
  unfold kernelTimeDaysInMonth
  split_ifs with out leap
  · decide
  · decide
  · have table : ∀ index < 12, 28 ≤ monthDays.getD index 0 ∧ monthDays.getD index 0 ≤ 31 := by decide
    exact table _ (by omega)

lemma kernelTimeDaysInMonth_pos (year month : Nat) : 0 < kernelTimeDaysInMonth month year :=
  Nat.lt_of_lt_of_le (by decide) (kernelTimeDaysInMonth_bounds year month).1

def kernelTimeDatetimeFromEpoch (epoch : Nat) : DateTime :=
  let (year, days) := locate yearDays_pos 1970 (epoch / 86400)
  let (month, days) := locate (kernelTimeDaysInMonth_pos year) 1 days
  ⟨epoch % 60, epoch / 60 % 60, epoch / 3600 % 24, (days + 1) % 256, month % 256, year % 65536⟩

/-- The months make up the year. -/
theorem sum_kernelTimeDaysInMonth (year : Nat) :
    ∑ month ∈ Ico 1 13, kernelTimeDaysInMonth month year = yearDays year := by
  have months : Ico 1 13 = {1, 2, 3, 4, 5, 6, 7, 8, 9, 10, 11, 12} := by decide
  cases leap : kernelTimeIsLeapYear year <;> simp [months, kernelTimeDaysInMonth, monthDays, yearDays, leap]

/-- A date of the calendar. -/
def DateTime.Exists (dt : DateTime) : Prop :=
  kernelTimeIsValidDatetime dt ∧ dt.day ≤ kernelTimeDaysInMonth dt.month dt.year

variable {dt : DateTime}

lemma DateTime.exists_iff : dt.Exists ↔ 1970 ≤ dt.year ∧ 1 ≤ dt.month ∧ dt.month ≤ 12 ∧ 1 ≤ dt.day ∧
    dt.day ≤ kernelTimeDaysInMonth dt.month dt.year ∧ dt.hour ≤ 23 ∧ dt.minute ≤ 59 ∧ dt.second ≤ 59 := by
  have short := (kernelTimeDaysInMonth_bounds dt.year dt.month).2
  unfold Exists kernelTimeIsValidDatetime
  rw [decide_eq_true_eq]
  omega

lemma dayOfYear_lt (january : 1 ≤ dt.month) (december : dt.month ≤ 12) (day : 1 ≤ dt.day)
    (inMonth : dt.day ≤ kernelTimeDaysInMonth dt.month dt.year) :
    ∑ i ∈ Ico 1 dt.month, kernelTimeDaysInMonth i dt.year + (dt.day - 1) < yearDays dt.year := by
  have most := sum_le_sum_of_subset (f := (kernelTimeDaysInMonth · dt.year))
    (Ico_subset_Ico_right (a := 1) (Nat.succ_le_succ december))
  rw [sum_Ico_succ_top january, sum_kernelTimeDaysInMonth] at most
  omega

/-- The count of a date's seconds gives the date. -/
theorem fromEpoch_instant (valid : dt.Exists) (small : dt.instant < 2 ^ 32) :
    kernelTimeDatetimeFromEpoch dt.instant = dt := by
  obtain ⟨since, january, december, day, inMonth, hour, minute, second⟩ := DateTime.exists_iff.1 valid
  have year := locate_sum yearDays_pos 1970 since (dayOfYear_lt january december day inMonth)
  have month := locate_sum (kernelTimeDaysInMonth_pos dt.year) 1 january (show dt.day - 1 < _ by omega)
  have total : dt.instant / 86400 = ∑ i ∈ Ico 1970 dt.year, yearDays i +
      (∑ i ∈ Ico 1 dt.month, kernelTimeDaysInMonth i dt.year + (dt.day - 1)) := by
    unfold DateTime.instant
    omega
  have word := locate_le yearDays_pos 1970 (dt.instant / 86400)
  unfold kernelTimeDatetimeFromEpoch
  rw [total, year] at word ⊢
  dsimp only at word ⊢
  rw [month]
  have short := (kernelTimeDaysInMonth_bounds dt.year dt.month).2
  unfold DateTime.instant at *
  show _ = DateTime.mk dt.second dt.minute dt.hour dt.day dt.month dt.year
  rw [DateTime.mk.injEq]
  omega

lemma exists_fromEpoch {epoch : Nat} (small : epoch < 2 ^ 32) :
    let dt := kernelTimeDatetimeFromEpoch epoch
    dt.Exists ∧ dt.instant = epoch ∧ dt.year < 65535 := by
  have year := locate_le yearDays_pos 1970 (epoch / 86400)
  have since := first_le_locate yearDays_pos 1970 (epoch / 86400)
  have inYear := locate_snd_lt yearDays_pos 1970 (epoch / 86400)
  have days := sum_locate yearDays_pos 1970 (epoch / 86400)
  unfold kernelTimeDatetimeFromEpoch
  generalize locate yearDays_pos 1970 (epoch / 86400) = date at *
  rw [← sum_kernelTimeDaysInMonth] at inYear
  have december := locate_lt (kernelTimeDaysInMonth_pos date.1) 1 date.2 inYear
  have january := first_le_locate (kernelTimeDaysInMonth_pos date.1) 1 date.2
  have inMonth := locate_snd_lt (kernelTimeDaysInMonth_pos date.1) 1 date.2
  have rest := sum_locate (kernelTimeDaysInMonth_pos date.1) 1 date.2
  dsimp only
  generalize locate (kernelTimeDaysInMonth_pos date.1) 1 date.2 = place at *
  have short := (kernelTimeDaysInMonth_bounds date.1 place.1).2
  rw [Nat.mod_eq_of_lt (a := place.2 + 1) (by omega), Nat.mod_eq_of_lt (a := place.1) (by omega),
    Nat.mod_eq_of_lt (a := date.1) (by omega), DateTime.exists_iff]
  unfold DateTime.instant
  dsimp only
  omega

/-- The next second: the next date, also at the end of a month and of a year. -/
theorem advance_instant (valid : dt.Exists) (small : dt.year < 65535) :
    (kernelTimeAdvanceOneSecond dt).Exists ∧ (kernelTimeAdvanceOneSecond dt).instant = dt.instant + 1 := by
  rw [DateTime.exists_iff] at *
  have short := (kernelTimeDaysInMonth_bounds dt.year dt.month).2
  unfold DateTime.instant
  fun_cases kernelTimeAdvanceOneSecond dt with
  | case1 | case2 | case3 | case4 =>
    dsimp only
    omega
  | case5 second _ minute _ hour _ day _ month =>
    -- The days of the month are over.
    have next : month = dt.month + 1 := Nat.mod_eq_of_lt (by omega)
    have long := (kernelTimeDaysInMonth_bounds dt.year (dt.month + 1)).1
    rw [next, sum_Ico_succ_top (by omega)]
    dsimp only
    omega
  | case6 second _ minute _ hour _ day _ month =>
    -- So are the months of the year.
    have months := sum_kernelTimeDaysInMonth dt.year
    have last : dt.month = 12 := by omega
    have long := (kernelTimeDaysInMonth_bounds (dt.year + 1) 1).1
    rw [sum_Ico_succ_top (by decide), ← last] at months
    rw [Nat.mod_eq_of_lt (by omega), sum_Ico_succ_top (by omega), Ico_self, sum_empty]
    dsimp only
    omega

/-- Every count of seconds is a date of the calendar, which gives it back, and whose next second is that of the next
count. -/
theorem kernelTimeDatetimeFromEpoch_faithful : (∀ epoch : Fin (2 ^ 32), (kernelTimeDatetimeFromEpoch epoch).Exists ∧
      kernelTimeDatetimeToEpoch (kernelTimeDatetimeFromEpoch epoch) = epoch) ∧ ∀ epoch : Fin (2 ^ 32 - 1),
      kernelTimeAdvanceOneSecond (kernelTimeDatetimeFromEpoch epoch) = kernelTimeDatetimeFromEpoch (epoch + 1) := by
  constructor
  · intro ⟨epoch, small⟩
    have ⟨valid, instant, year⟩ := exists_fromEpoch small
    refine ⟨valid, ?_⟩
    rw [kernelTimeDatetimeToEpoch, if_pos valid.1, instant, Nat.mod_eq_of_lt small]
  · intro ⟨epoch, small⟩
    have ⟨valid, instant, year⟩ := exists_fromEpoch (show epoch < 2 ^ 32 by omega)
    have ⟨next, after⟩ := advance_instant valid year
    rw [← fromEpoch_instant next (by omega), after, instant]

end Galio
