import Galio.Kernel.Calendar

/-! Setting the wall clock and reading a date from a text (`time.c`). -/

namespace Galio

open Finset

structure WallClock where
  currentDatetime : DateTime
  baseEpochSeconds : Nat
  wallEpochSeconds : Nat
  timezoneOffsetSeconds : Int

def kernelTimeSetDatetime (clock : WallClock) (dt : DateTime) : WallClock :=
  if kernelTimeIsValidDatetime dt then
    let base := kernelTimeDatetimeToEpoch dt
    let adjusted := max 0 (base + clock.timezoneOffsetSeconds)
    let wall := (adjusted % 2 ^ 32).toNat
    { clock with
      baseEpochSeconds := base, wallEpochSeconds := wall, currentDatetime := kernelTimeDatetimeFromEpoch wall }
  else clock

def kernelTimeGetDatetime (clock : WallClock) : DateTime := clock.currentDatetime

/-- A number of so many digits, and the text behind it. -/
def readDigits : Nat → Nat → List Char → Option (Nat × List Char)
  | 0, value, text => some (value, text)
  | _ + 1, _, [] => none
  | count + 1, value, c :: text =>
    if '0' ≤ c ∧ c ≤ '9' then readDigits count (value * 10 + (c.toNat - '0'.toNat)) text else none

/-- The text behind a character that has to be there. -/
def readChar (expected : Char) : List Char → Option (List Char)
  | [] => none
  | c :: text => if c = expected then some text else none

/-- The fields of a text up to its NUL; a time may follow the date, then spaces to the end of the line. -/
def readDatetime (text : List Char) : Option DateTime := do
  let (y, p) ← readDigits 4 0 text
  let p ← readChar '-' p
  let (m, p) ← readDigits 2 0 p
  let p ← readChar '-' p
  let (d, p) ← readDigits 2 0 p
  let (hour, minute, second, p) ←
    if p.head? = some ' ' ∨ p.head? = some 'T' then do
      let (hour, p) ← readDigits 2 0 p.tail
      let p ← readChar ':' p
      let (minute, p) ← readDigits 2 0 p
      let p ← readChar ':' p
      let (second, p) ← readDigits 2 0 p
      pure (hour, minute, second, p)
    else pure (0, 0, 0, p)
  let rest := (p.dropWhile (· = ' ')).head?
  if rest = none ∨ rest = some '\n' ∨ rest = some '\r' then pure ⟨second, minute, hour, d, m, y⟩ else none

/-- The date and time that a text is accepted as. -/
def acceptedDatetime (text : List Char) : Option DateTime :=
  (readDatetime text).filter fun dt => 1 ≤ dt.month ∧ dt.month ≤ 12 ∧ 1 ≤ dt.day ∧
    dt.day ≤ kernelTimeDaysInMonth dt.month dt.year ∧ dt.hour ≤ 23 ∧ dt.minute ≤ 59 ∧ dt.second ≤ 59

def kernelTimeParseYyyyMmDdToEpoch (text : List Char) : Nat :=
  match acceptedDatetime text with
  | none => 0
  | some dt => dt.instant % 2 ^ 32

/-- The seconds from the start of 1970 to a date, negative before. -/
def DateTime.seconds (dt : DateTime) : Int := dt.instant - (∑ year ∈ Ico dt.year 1970, yearDays year : Nat) * 86400

/-- The seconds fit 32 bits. -/
def DateTime.Representable (dt : DateTime) : Prop := 0 ≤ dt.seconds ∧ dt.seconds < 2 ^ 32

instance (dt : DateTime) : Decidable dt.Representable := instDecidableAnd

/-- A date that is set is the one shown, and a text that is accepted gives its seconds, or zero if they do not fit. -/
def DatesKept (dt : DateTime) (text : List Char) : Prop :=
  (kernelTimeIsValidDatetime dt → ∀ clock : WallClock, clock.timezoneOffsetSeconds = 0 →
    kernelTimeGetDatetime (kernelTimeSetDatetime clock dt) = dt) ∧
  ∀ read, acceptedDatetime text = some read →
    (kernelTimeParseYyyyMmDdToEpoch text : Int) = if read.Representable then read.seconds else 0

variable {dt : DateTime}

lemma seconds_of_since (since : 1970 ≤ dt.year) : dt.seconds = dt.instant := by
  rw [DateTime.seconds, Ico_eq_empty_of_le since]
  simp

lemma since_of_representable {text : List Char} (accepted : acceptedDatetime text = some dt)
    (fits : dt.Representable) : 1970 ≤ dt.year := by
  have checks := (Option.filter_eq_some_iff.1 accepted).2
  rw [decide_eq_true_eq] at checks
  obtain ⟨january, december, day, inMonth, hour, minute, second⟩ := checks
  by_contra! early
  -- The days counted are less than those of its year.
  have inYear := dayOfYear_lt january december day inMonth
  have whole := fits.1
  rw [DateTime.seconds, DateTime.instant, Ico_eq_empty_of_le early.le, sum_empty,
    sum_eq_sum_Ico_succ_bot early] at whole
  omega

lemma getDatetime_setDatetime (valid : kernelTimeIsValidDatetime dt) {clock : WallClock}
    (utc : clock.timezoneOffsetSeconds = 0) : kernelTimeGetDatetime (kernelTimeSetDatetime clock dt) =
      kernelTimeDatetimeFromEpoch (dt.instant % 2 ^ 32) := by
  rw [kernelTimeSetDatetime, if_pos valid, kernelTimeDatetimeToEpoch, if_pos valid, utc]
  show kernelTimeDatetimeFromEpoch _ = _
  congr 1
  omega

/-- What is shown exists, and its seconds fit. -/
theorem exists_of_kept (kept : kernelTimeDatetimeFromEpoch (dt.instant % 2 ^ 32) = dt) :
    dt.Exists ∧ dt.instant < 2 ^ 32 := by
  obtain ⟨valid, same, _⟩ := exists_fromEpoch (Nat.mod_lt dt.instant (show 0 < 2 ^ 32 by decide))
  rw [kept] at valid same
  exact ⟨valid, by omega⟩

/-- Dates are kept exactly if their days exist and their seconds fit, or a text's counted seconds wrap to zero. -/
theorem dates_kept_iff (dt : DateTime) (text : List Char) : DatesKept dt text ↔
    (kernelTimeIsValidDatetime dt → dt.day ≤ kernelTimeDaysInMonth dt.month dt.year ∧ dt.seconds < 2 ^ 32) ∧
      ∀ read, acceptedDatetime text = some read → read.Representable ∨ read.instant % 2 ^ 32 = 0 := by
  apply and_congr
  · refine imp_congr_right fun valid => ?_
    rw [seconds_of_since (of_decide_eq_true valid).1]
    constructor
    · intro kept
      have shown := kept ⟨dt, 0, 0, 0⟩ rfl
      rw [getDatetime_setDatetime valid rfl] at shown
      obtain ⟨exist, fits⟩ := exists_of_kept shown
      exact ⟨exist.2, by omega⟩
    · rintro ⟨day, fits⟩ clock utc
      have small : dt.instant < 2 ^ 32 := by omega
      rw [getDatetime_setDatetime valid utc, Nat.mod_eq_of_lt small, fromEpoch_instant ⟨valid, day⟩ small]
  · refine forall₂_congr fun read accepted => ?_
    rw [kernelTimeParseYyyyMmDdToEpoch, accepted]
    dsimp only
    by_cases fits : read.Representable
    · have exact := seconds_of_since (since_of_representable accepted fits)
      have small := fits.2
      rw [if_pos fits, exact]
      simp only [fits, true_or, iff_true]
      omega
    · rw [if_neg fits]
      simp only [fits, false_or]
      omega

/-- A last day of February that is none becomes a day of March, and a text of the next century a time long past. -/
theorem dates_lost : ¬DatesKept ⟨0, 0, 0, 31, 2, 2023⟩ [] ∧ ¬DatesKept ⟨0, 0, 0, 1, 1, 1970⟩ "2107-01-01".toList := by
  constructor
  · intro kept
    have shown := kept.1 (by decide) ⟨⟨0, 0, 0, 1, 1, 1970⟩, 0, 0, 0⟩ rfl
    rw [getDatetime_setDatetime (by decide) rfl] at shown
    exact absurd (exists_of_kept shown).1.2 (by decide)
  · intro kept
    exact absurd (kept.2 ⟨0, 0, 0, 1, 1, 2107⟩ (by decide)) (by decide +kernel)

end Galio
