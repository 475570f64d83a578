import Mathlib.Algebra.Group.Nat.Defs
import Galio.Kernel.Ktimer

/-! Nanoseconds as seconds (`timeconv.c`), and sleeping by the tick counter (`sleep_timeout.c`). -/

namespace Galio

open BitVec

/-- A result of 64 bits with a sign; one that overflows is undefined. -/
def s64 (value : Int) : Option Int := if -2 ^ 63 ≤ value ∧ value < 2 ^ 63 then some value else none

structure Timespec64 where
  tvSec : Int
  tvNsec : Int

def nsecPerSec : Int := 1000000000

/-- The quotient and the remainder. -/
def divS64Rem (dividend divisor : Int) : Int × Int := (dividend.tdiv divisor, dividend.tmod divisor)

def galioNsToTimespec64 (ns : Int64) : Option Timespec64 :=
  if ns.toInt < 0 then do
    let low ← s64 (ns.toInt - nsecPerSec)
    let shifted ← s64 (low + 1)
    let (sec, rem) := divS64Rem shifted nsecPerSec
    pure ⟨sec, nsecPerSec + rem⟩
  else
    let (sec, rem) := divS64Rem ns.toInt nsecPerSec
    pure ⟨sec, rem⟩

def galioTimespec64ToNs (ts : Timespec64) : Option Int := do
  let whole ← s64 (ts.tvSec * nsecPerSec)
  s64 (whole + ts.tvNsec)

lemma s64_eq_some {value result : Int} :
    s64 value = some result ↔ (-2 ^ 63 ≤ value ∧ value < 2 ^ 63) ∧ value = result := by
  unfold s64
  split <;> simp_all

/-- Nanoseconds come back exactly if they are not negative: those that are come back one too many. -/
theorem ns_timespec_iff (ns : Int64) :
    (∃ ts, galioNsToTimespec64 ns = some ts ∧ 0 ≤ ts.tvNsec ∧ ts.tvNsec < nsecPerSec ∧
      galioTimespec64ToNs ts = some ns.toInt) ↔ 0 ≤ ns.toInt := by
  have least := ns.le_toInt
  have most := ns.toInt_lt
  unfold galioNsToTimespec64
  constructor
  · rintro ⟨ts, split, -, -, joined⟩
    by_contra! negative
    rw [if_pos negative] at split
    simp only [Option.bind_eq_bind, Option.bind_eq_some_iff, s64_eq_some, galioTimespec64ToNs] at split joined
    obtain ⟨_, ⟨_, rfl⟩, _, ⟨_, rfl⟩, same⟩ := split
    obtain ⟨_, ⟨_, rfl⟩, _, total⟩ := joined
    cases same
    have parts := Int.mul_tdiv_add_tmod (ns.toInt - nsecPerSec + 1) nsecPerSec
    rw [Int.mul_comm] at parts
    simp only [divS64Rem] at total
    omega
  · intro positive
    have parts := Int.mul_tdiv_add_tmod ns.toInt nsecPerSec
    have low := Int.tmod_nonneg nsecPerSec positive
    have high := Int.tmod_lt_of_pos ns.toInt (show 0 < nsecPerSec by decide)
    have whole := Int.tdiv_nonneg positive (show 0 ≤ nsecPerSec by decide)
    rw [if_neg positive.not_gt]
    refine ⟨_, rfl, low, high, ?_⟩
    rw [Int.mul_comm] at parts
    simp only [galioTimespec64ToNs, Option.bind_eq_bind, Option.bind_eq_some_iff, s64_eq_some]
    refine ⟨_, ⟨?_, rfl⟩, ?_, parts⟩
    · simp only [nsecPerSec] at *
      omega
    · rw [parts]
      exact ⟨least, most⟩

/-- One nanosecond before the epoch comes back as the epoch. -/
theorem last_nanosecond_lost : (galioNsToTimespec64 (-1)).bind galioTimespec64ToNs = some 0 := by decide

/-- The counter of `pit_get_ticks`. -/
def galioJiffiesRead (ticks : BitVec 32) : BitVec 64 := ticks.setWidth 64

def galioMsecsToJiffies (ms : BitVec 64) : BitVec 64 := (ms * 1000 + 999) / 1000

/-- The loop of `galio_msleep` from a value of the counter on: the ticks it waits, unless more than some pass. -/
def sleepUntil (target : BitVec 64) : Nat → BitVec 32 → Option Nat
  | passing, now =>
    if galioTimeBefore (galioJiffiesRead now) target then
      match passing with
      | 0 => none
      | passing + 1 => (sleepUntil target passing (now + 1)).map (· + 1)
    else some 0

def galioMsleep (passing : Nat) (now msecs : BitVec 32) : Option Nat :=
  sleepUntil (galioJiffiesRead now + galioMsecsToJiffies (msecs.setWidth 64)) passing now

lemma galioMsecsToJiffies_toNat (msecs : BitVec 32) :
    (galioMsecsToJiffies (msecs.setWidth 64)).toNat = msecs.toNat := by
  have small := msecs.isLt
  simp only [galioMsecsToJiffies, toNat_udiv, toNat_add, toNat_mul, toNat_setWidth]
  simp
  omega

section Sleep

variable {target : BitVec 64} {now : BitVec 32}

lemma galioTimeBefore_read (near : target.toNat < 2 ^ 63) :
    galioTimeBefore (galioJiffiesRead now) target ↔ now.toNat < target.toNat := by
  have small := now.isLt
  have read : galioJiffiesRead now = .ofInt 64 now.toNat := by
    rw [ofInt_natCast, ofNat_toNat, galioJiffiesRead]
  have given : target = .ofInt 64 target.toNat := by
    rw [ofInt_natCast, ofNat_toNat, setWidth_eq]
  rw [galioTimeBefore, read]
  nth_rewrite 1 [given]
  rw [galioTimeAfter_ofInt (by omega) (by omega), decide_eq_true_eq, Int.ofNat_lt]

/-- The loop ends at its target if the counter gets there. -/
theorem sleepUntil_reached (inside : target.toNat < 2 ^ 32) {passing : Nat} (ahead : now.toNat ≤ target.toNat)
    (enough : target.toNat - now.toNat ≤ passing) :
    sleepUntil target passing now = some (target.toNat - now.toNat) := by
  induction passing generalizing now with
  | zero =>
    rw [sleepUntil, if_neg (by rw [galioTimeBefore_read (by omega)]; omega), Nat.le_zero.mp enough]
  | succ passing ih =>
    rw [sleepUntil]
    split <;> rename_i before <;> rw [galioTimeBefore_read (by omega)] at before
    · have next : (now + 1).toNat = now.toNat + 1 := by
        have one : (1 : BitVec 32).toNat = 1 := rfl
        rw [toNat_add, one, Nat.mod_eq_of_lt (by omega)]
      rw [ih (by omega) (by omega), next, Option.map_some]
      exact congrArg some (by omega)
    · exact congrArg some (by omega)

/-- Beyond the counter's wrap it never ends. -/
theorem sleepUntil_endless (near : target.toNat < 2 ^ 63) (beyond : 2 ^ 32 ≤ target.toNat) (passing : Nat) :
    sleepUntil target passing now = none := by
  have before : ∀ now, galioTimeBefore (galioJiffiesRead now) target := fun now =>
    (galioTimeBefore_read near).mpr (now.isLt.trans_le beyond)
  induction passing generalizing now with
  | zero => rw [sleepUntil, if_pos (before now)]
  | succ passing ih => rw [sleepUntil, if_pos (before now), ih, Option.map_none]

end Sleep

/-- Sleeping ends after its ticks, and not before, exactly if the counter does not wrap on the way. -/
theorem msleep_ends_iff (now msecs : BitVec 32) :
    (∀ passing, (galioMsecsToJiffies (msecs.setWidth 64)).toNat ≤ passing →
      galioMsleep passing now msecs = some (galioMsecsToJiffies (msecs.setWidth 64)).toNat) ↔
      now.toNat + msecs.toNat < 2 ^ 32 := by
  have small := now.isLt
  have short := msecs.isLt
  have target : (galioJiffiesRead now + galioMsecsToJiffies (msecs.setWidth 64)).toNat = now.toNat + msecs.toNat := by
    rw [toNat_add, galioMsecsToJiffies_toNat, galioJiffiesRead, toNat_setWidth]
    omega
  rw [galioMsecsToJiffies_toNat]
  constructor
  · intro ends
    by_contra! wraps
    have never : galioMsleep msecs.toNat now msecs = none :=
      sleepUntil_endless (by omega) (wraps.trans target.ge) _
    exact absurd ((ends _ le_rfl).symm.trans never) (by simp)
  · intro inside passing enough
    rw [galioMsleep, sleepUntil_reached (by omega) (by omega) (by omega), target, Nat.add_sub_cancel_left]

/-- A millisecond before the counter wraps, a sleep of one millisecond lasts for ever. -/
theorem msleep_endless : (galioMsecsToJiffies 1).toNat = 1 ∧ ∀ passing, galioMsleep passing 0xFFFFFFFF 1 = none :=
  ⟨by decide, sleepUntil_endless (by decide) (by decide)⟩

end Galio
