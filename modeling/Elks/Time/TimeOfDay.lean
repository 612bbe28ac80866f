import Elks.Minix.Super

/-!
# The time of day (kernel/time.c)

The kernel keeps the ticks since it has started, and in `xtime` what has to be added to
them.  `sys_settimeofday` takes the seconds and the microseconds of the ticks off each
on its own, and `sys_gettimeofday` adds them again; neither carries between the two.

**Results.**  `after_keeps_order`: readings do not go back.  `timeOfDay_iff`: a reading
is the time that has been set and the ticks since then, as a proper pair, exactly when
the ticks within a second need no carry.
-/

namespace Elks
namespace Time

open Minix (Errno)

/-- `struct timeval`: two numbers of type `long`. -/
structure Timeval where
  tvSec : BitVec 32
  tvUsec : BitVec 32
deriving DecidableEq

/-- `struct timezone`: two numbers of type `int`. -/
structure Timezone where
  tzMinuteswest : BitVec 16
  tzDsttime : BitVec 16
deriving DecidableEq

/-- `HZ`; `sibo` is `CONFIG_ARCH_SIBO`. -/
def hz (sibo : Bool) : BitVec 32 :=
  if sibo then 30 else 100

/-- `DST_NONE`. -/
def dstNone : BitVec 16 :=
  0

/-- `DST_AUSTALT`. -/
def dstAustalt : BitVec 16 :=
  10

/-- An address from a task: `NULL`, one that `verify_area` refuses, or one at which
`x` stands. -/
inductive Pointer (α : Type)
  | null
  | bad
  | good (x : α)

/-- `jiffies`, `xtime` and `xzone`. -/
structure Clock where
  jiffies : BitVec 32
  xtime : Timeval
  xzone : Timezone

/-- What a call of `sys_gettimeofday` returns, and what it has stored. -/
structure Reply where
  ret : Option Errno
  tv : Option Timeval
  tz : Option Timezone

section Code

variable (sibo : Bool) (c : Clock)

/-- `do_timer`. -/
def Clock.doTimer : Clock :=
  { c with jiffies := c.jiffies + 1 }

/-- The first checks of `sys_settimeofday`.  The comparison is of unsigned numbers. -/
def readTv : Pointer Timeval → Except Errno (Option Timeval)
  | .null => .ok none
  | .bad => .error .efault
  | .good tmpTv => if 1000000#32 ≤ tmpTv.tvUsec then .error .einval else .ok (some tmpTv)

def readTz : Pointer Timezone → Except Errno (Option Timezone)
  | .null => .ok none
  | .bad => .error .efault
  | .good tmpTz =>
      if dstAustalt - dstNone < tmpTz.tzDsttime - dstNone then .error .einval
      else .ok (some tmpTz)

/-- `xtime` for a time that is to hold from now on. -/
def Clock.setBase (tv : Timeval) : Clock :=
  { c with
    xtime :=
      { tvSec := tv.tvSec - c.jiffies / hz sibo
        tvUsec := tv.tvUsec - c.jiffies % hz sibo * (1000000#32 / hz sibo) } }

/-- `sys_settimeofday`. -/
def Clock.sysSettimeofday (euid : Nat) (tv : Pointer Timeval) (tz : Pointer Timezone) :
    Except Errno Clock :=
  if euid ≠ 0 then
    .error .eperm
  else do
    let tmpTv ← readTv tv
    let tmpTz ← readTz tz
    let c := { c with xzone := tmpTz.getD c.xzone }
    match tmpTv with
    | none => .ok c
    | some tmpTv => .ok (c.setBase sibo tmpTv)

/-- The pair that `sys_gettimeofday` computes. -/
def Clock.now : Timeval where
  tvSec := c.xtime.tvSec + c.jiffies / hz sibo
  tvUsec := c.xtime.tvUsec + c.jiffies % hz sibo * (1000000#32 / hz sibo)

/-- `sys_gettimeofday`. -/
def Clock.sysGettimeofday (tv tz : Pointer Unit) : Reply :=
  match tv with
  | .bad => ⟨some .efault, none, none⟩
  | .null =>
      match tz with
      | .null => ⟨none, none, none⟩
      | .bad => ⟨some .efault, none, none⟩
      | .good _ => ⟨none, none, some c.xzone⟩
  | .good _ =>
      match tz with
      | .null => ⟨none, some (c.now sibo), none⟩
      | .bad => ⟨some .efault, some (c.now sibo), none⟩
      | .good _ => ⟨none, some (c.now sibo), some c.xzone⟩

/-- The clock after `k` ticks. -/
def Clock.after (k : Nat) : Clock :=
  Clock.doTimer^[k] c

end Code

/-- The time that a pair stands for. -/
def Timeval.seconds (tv : Timeval) : ℚ :=
  tv.tvSec.toInt + tv.tvUsec.toInt / 1000000

/-- A pair with less than a second of microseconds. -/
def Timeval.Proper (tv : Timeval) : Prop :=
  0 ≤ tv.tvUsec.toInt ∧ tv.tvUsec.toInt < 1000000

/-- The order of pairs. -/
def Timeval.Le (a b : Timeval) : Prop :=
  a.tvSec.toInt < b.tvSec.toInt ∨
    a.tvSec.toInt = b.tvSec.toInt ∧ a.tvUsec.toInt ≤ b.tvUsec.toInt

/-- `sys_gettimeofday` stores a pair. -/
def Clock.Shows (sibo : Bool) (c : Clock) (r : Timeval) : Prop :=
  c.sysGettimeofday sibo (.good ()) .null = ⟨none, some r, none⟩

/-- The time was `tv` before `k` ticks: the pair that a task gets now is a proper one,
it is the time set and the ticks, and none of the pairs between was later. -/
def Clock.Tells (sibo : Bool) (c : Clock) (tv : Timeval) (k : Nat) : Prop :=
  ∃ r, (c.after k).Shows sibo r ∧
    r.Proper ∧
    r.seconds = tv.seconds + k / (hz sibo).toNat ∧
    ∀ i ≤ k, ∃ r', (c.after i).Shows sibo r' ∧ r'.Le r

/-- The ticks within the second: with 100 of them a second, those of the time that has
been set, counted on, leave the same second as `jiffies` does; with 30 of them a second,
which is not a whole number of microseconds, they are those from before. -/
def InPhase (sibo : Bool) (jiffies : Nat) (usec : Int) (k : Nat) : Prop :=
  if sibo then
    (jiffies + k) % 30 = jiffies % 30
  else
    ((jiffies % 100 : Nat) : Int) ≤ usec / 10000 + ((jiffies + k) % 100 : Nat) ∧
      usec / 10000 + ((jiffies + k) % 100 : Nat) < (jiffies % 100 : Nat) + 100

section Readings

variable {sibo : Bool} {c c' : Clock} {tv : Timeval} {tz : Pointer Timezone} {euid k i : Nat}

theorem after_succ (c : Clock) (k : Nat) : c.after (k + 1) = (c.after k).doTimer :=
  Function.iterate_succ_apply' _ _ _

@[simp] theorem after_xtime (c : Clock) (k : Nat) : (c.after k).xtime = c.xtime := by
  induction k with
  | zero => rfl
  | succ k ih =>
      rw [after_succ]
      exact ih

theorem after_jiffies (c : Clock) (h : c.jiffies.toNat + k < 2 ^ 32) :
    (c.after k).jiffies.toNat = c.jiffies.toNat + k := by
  induction k with
  | zero => rfl
  | succ k ih =>
      have hk := ih (by omega)
      rw [after_succ]
      have hnext : (c.after k).doTimer.jiffies = (c.after k).jiffies + 1#32 := rfl
      rw [hnext, BitVec.toNat_add, hk, BitVec.toNat_ofNat]
      omega

theorem sysSettimeofday_ok (h : c.sysSettimeofday sibo euid (.good tv) tz = .ok c') :
    tv.tvUsec.toNat < 1000000 ∧ c'.jiffies = c.jiffies ∧
      c'.xtime = (c.setBase sibo tv).xtime := by
  unfold Clock.sysSettimeofday at h
  split at h
  · cases h
  · by_cases hlarge : 1000000#32 ≤ tv.tvUsec
    · rw [readTv, if_pos hlarge] at h
      cases h
    · rw [readTv, if_neg hlarge] at h
      cases hz : readTz tz with
      | error e =>
          rw [hz] at h
          cases h
      | ok tmpTz =>
          rw [hz] at h
          cases h
          refine ⟨?_, rfl, rfl⟩
          rw [BitVec.le_def, BitVec.toNat_ofNat] at hlarge
          omega

theorem sub_add_toInt (s a b : BitVec 32) :
    (s - a + b).toInt = (s.toInt - a.toNat + b.toNat).bmod (2 ^ 32) := by
  have ha : a.toInt = (a.toNat : Int).bmod (2 ^ 32) := BitVec.toInt_eq_toNat_bmod a
  have hb : b.toInt = (b.toNat : Int).bmod (2 ^ 32) := BitVec.toInt_eq_toNat_bmod b
  rw [BitVec.toInt_add, BitVec.toInt_sub, ha, hb]
  simp only [Int.bmod_add_bmod, Int.add_bmod_bmod, Int.sub_bmod_bmod]

theorem ticks_toNat (sibo : Bool) (j : BitVec 32) :
    (j % hz sibo * (1000000#32 / hz sibo)).toNat =
      j.toNat % (hz sibo).toNat * (1000000 / (hz sibo).toNat) := by
  rw [BitVec.toNat_mul, BitVec.toNat_umod, BitVec.toNat_udiv]
  cases sibo with
  | true =>
      have hlt := Nat.mod_lt j.toNat (show 0 < 30 by norm_num)
      exact Nat.mod_eq_of_lt (by simp [hz]; omega)
  | false =>
      have hlt := Nat.mod_lt j.toNat (show 0 < 100 by norm_num)
      exact Nat.mod_eq_of_lt (by simp [hz]; omega)

theorem now_sec (tv : Timeval) (hj : c.jiffies.toNat + k < 2 ^ 32) (hsame : c'.jiffies = c.jiffies)
    (hbase : c'.xtime = (c.setBase sibo tv).xtime) :
    ((c'.after k).now sibo).tvSec.toInt =
      (tv.tvSec.toInt - (c.jiffies.toNat / (hz sibo).toNat : Nat) +
        ((c.jiffies.toNat + k) / (hz sibo).toNat : Nat)).bmod (2 ^ 32) := by
  have hlater : (c'.after k).jiffies.toNat = c.jiffies.toNat + k := by
    rw [after_jiffies c' (by rwa [hsame]), hsame]
  unfold Clock.now
  rw [after_xtime, hbase]
  refine (sub_add_toInt _ _ _).trans ?_
  rw [BitVec.toNat_udiv, BitVec.toNat_udiv, hlater]

theorem now_usec (hj : c.jiffies.toNat + k < 2 ^ 32) (hsame : c'.jiffies = c.jiffies)
    (hbase : c'.xtime = (c.setBase sibo tv).xtime) (htv : tv.tvUsec.toNat < 1000000) :
    ((c'.after k).now sibo).tvUsec.toInt =
      tv.tvUsec.toInt -
          (c.jiffies.toNat % (hz sibo).toNat * (1000000 / (hz sibo).toNat) : Nat) +
        ((c.jiffies.toNat + k) % (hz sibo).toNat * (1000000 / (hz sibo).toNat) : Nat) := by
  have hlater : (c'.after k).jiffies.toNat = c.jiffies.toNat + k := by
    rw [after_jiffies c' (by rwa [hsame]), hsame]
  have hsmall : tv.tvUsec.toInt = tv.tvUsec.toNat :=
    BitVec.toInt_eq_toNat_of_lt (by omega)
  unfold Clock.now
  rw [after_xtime, hbase]
  refine (sub_add_toInt _ _ _).trans ?_
  rw [ticks_toNat, ticks_toNat, hlater, hsmall]
  -- the ticks within a second are less than a second
  have hless : ∀ n, n % (hz sibo).toNat * (1000000 / (hz sibo).toNat) < 1000000 := by
    intro n
    cases sibo with
    | true =>
        have hlt := Nat.mod_lt n (show 0 < 30 by norm_num)
        simp [hz]
        omega
    | false =>
        have hlt := Nat.mod_lt n (show 0 < 100 by norm_num)
        simp [hz]
        omega
  have hthen := hless c.jiffies.toNat
  have hnow := hless (c.jiffies.toNat + k)
  exact Int.bmod_eq_of_le (by omega) (by omega)

theorem hz_pos (sibo : Bool) : 0 < (hz sibo).toNat := by
  cases sibo <;> decide

theorem now_sec_fits (tv : Timeval) (hj : c.jiffies.toNat + k < 2 ^ 32) (hsame : c'.jiffies = c.jiffies)
    (hbase : c'.xtime = (c.setBase sibo tv).xtime)
    (hfits : tv.tvSec.toInt - (c.jiffies.toNat / (hz sibo).toNat : Nat) +
      ((c.jiffies.toNat + k) / (hz sibo).toNat : Nat) < 2 ^ 31) :
    ((c'.after k).now sibo).tvSec.toInt =
      tv.tvSec.toInt - (c.jiffies.toNat / (hz sibo).toNat : Nat) +
        ((c.jiffies.toNat + k) / (hz sibo).toNat : Nat) := by
  have hlow := BitVec.le_toInt tv.tvSec
  have hmono : c.jiffies.toNat / (hz sibo).toNat ≤ (c.jiffies.toNat + k) / (hz sibo).toNat :=
    Nat.div_le_div_right (Nat.le_add_right _ _)
  rw [now_sec tv hj hsame hbase]
  exact Int.bmod_eq_of_le (by omega) (by omega)

theorem after_keeps_order (hj : c.jiffies.toNat + k < 2 ^ 32)
    (hset : c.sysSettimeofday sibo euid (.good tv) tz = .ok c') (hi : i ≤ k)
    (hfits : tv.tvSec.toInt - (c.jiffies.toNat / (hz sibo).toNat : Nat) +
      ((c.jiffies.toNat + k) / (hz sibo).toNat : Nat) < 2 ^ 31) :
    ((c'.after i).now sibo).Le ((c'.after k).now sibo) := by
  obtain ⟨htv, hsame, hbase⟩ := sysSettimeofday_ok hset
  have hj' : c.jiffies.toNat + i < 2 ^ 32 := by omega
  have hmono : (c.jiffies.toNat + i) / (hz sibo).toNat ≤
      (c.jiffies.toNat + k) / (hz sibo).toNat :=
    Nat.div_le_div_right (by omega)
  unfold Timeval.Le
  rw [now_sec_fits tv hj hsame hbase hfits, now_sec_fits tv hj' hsame hbase (by omega),
    now_usec hj hsame hbase htv, now_usec hj' hsame hbase htv]
  rcases Nat.lt_or_eq_of_le hmono with hlt | heq
  · exact Or.inl (by omega)
  · -- within a second the ticks grow
    refine Or.inr ⟨by rw [heq], ?_⟩
    have hmod : (c.jiffies.toNat + i) % (hz sibo).toNat ≤
        (c.jiffies.toNat + k) % (hz sibo).toNat := by
      have hdiv := Nat.div_add_mod (c.jiffies.toNat + i) (hz sibo).toNat
      have hdiv' := Nat.div_add_mod (c.jiffies.toNat + k) (hz sibo).toNat
      rw [heq] at hdiv
      omega
    have hticks := Nat.mul_le_mul_right (1000000 / (hz sibo).toNat) hmod
    omega

/-- A pair is `k` ticks later than another one, in whole numbers. -/
theorem seconds_eq_iff {r : Timeval} {n : Nat} (hn : 0 < n) :
    r.seconds = tv.seconds + k / n ↔
      n * (r.tvSec.toInt * 1000000 + r.tvUsec.toInt) =
        n * (tv.tvSec.toInt * 1000000 + tv.tvUsec.toInt) + k * 1000000 := by
  have hne : (n : ℚ) ≠ 0 := Nat.cast_ne_zero.mpr hn.ne'
  unfold Timeval.seconds
  rw [← @Int.cast_inj ℚ]
  push_cast
  constructor
  · intro h
    field_simp at h
    linarith
  · intro h
    field_simp
    linarith

theorem seconds_lt_iff {n : Nat} (hn : 0 < n) :
    tv.seconds + k / n < 2 ^ 31 ↔
      n * (tv.tvSec.toInt * 1000000 + tv.tvUsec.toInt) + k * 1000000 <
        n * (2 ^ 31 * 1000000) := by
  have hpos : (0 : ℚ) < n := Nat.cast_pos.mpr hn
  unfold Timeval.seconds
  rw [← @Int.cast_lt ℚ]
  push_cast
  rw [← mul_lt_mul_iff_right₀ (show (0 : ℚ) < n * 1000000 by positivity)]
  have hleft : (n : ℚ) * 1000000 * (tv.tvSec.toInt + tv.tvUsec.toInt / 1000000 + k / n) =
      n * (tv.tvSec.toInt * 1000000 + tv.tvUsec.toInt) + k * 1000000 := by
    field_simp
  rw [hleft]
  constructor <;> intro h <;> linarith

theorem shows_iff {r : Timeval} : c.Shows sibo r ↔ r = c.now sibo := by
  unfold Clock.Shows Clock.sysGettimeofday
  simp only [Reply.mk.injEq, Option.some.injEq, true_and, and_true]
  exact eq_comm

theorem tells_iff :
    c.Tells sibo tv k ↔
      ((c.after k).now sibo).Proper ∧
        ((c.after k).now sibo).seconds = tv.seconds + k / (hz sibo).toNat ∧
        ∀ i ≤ k, ((c.after i).now sibo).Le ((c.after k).now sibo) := by
  unfold Clock.Tells
  simp only [shows_iff, exists_eq_left]

theorem fits_of_proper {s u : Int} {j : Nat}
    (hsec : 100 * (s * 1000000 + u) + k * 1000000 < 100 * (2 ^ 31 * 1000000))
    (hlow : 0 ≤ u - (j % 100 * 10000 : Nat) + ((j + k) % 100 * 10000 : Nat)) :
    s - (j / 100 : Nat) + ((j + k) / 100 : Nat) < 2 ^ 31 := by
  omega

/-- Whether the microseconds need a carry, by the ticks within the second. -/
theorem proper_iff {u : Int} {j : Nat} :
    (0 ≤ u - (j % 100 * 10000 : Nat) + ((j + k) % 100 * 10000 : Nat) ∧
        u - (j % 100 * 10000 : Nat) + ((j + k) % 100 * 10000 : Nat) < 1000000) ↔
      InPhase false j u k := by
  unfold InPhase
  rw [if_neg Bool.false_ne_true]
  omega

theorem tells_iff_hundred (hj : c.jiffies.toNat + k < 2 ^ 32)
    (hset : c.sysSettimeofday false euid (.good tv) tz = .ok c')
    (hsec : tv.seconds + k / (hz false).toNat < 2 ^ 31) :
    c'.Tells false tv k ↔ InPhase false c.jiffies.toNat tv.tvUsec.toInt k := by
  obtain ⟨htv, hsame, hbase⟩ := sysSettimeofday_ok hset
  have husec := now_usec hj hsame hbase htv
  rw [seconds_lt_iff (hz_pos false)] at hsec
  rw [tells_iff, seconds_eq_iff (hz_pos false), ← proper_iff]
  unfold Timeval.Proper
  rw [husec]
  have hn : (hz false).toNat = 100 := rfl
  rw [hn] at hsec ⊢
  constructor
  · rintro ⟨hproper, -, -⟩
    exact hproper
  · intro hproper
    have hfits := fits_of_proper hsec hproper.1
    have hnow := now_sec_fits tv hj hsame hbase hfits
    rw [hn] at hnow
    refine ⟨hproper, ?_, fun i hi => after_keeps_order hj hset hi hfits⟩
    rw [hnow]
    omega

theorem tells_iff_thirty (hj : c.jiffies.toNat + k < 2 ^ 32)
    (hset : c.sysSettimeofday true euid (.good tv) tz = .ok c')
    (hsec : tv.seconds + k / (hz true).toNat < 2 ^ 31) :
    c'.Tells true tv k ↔ InPhase true c.jiffies.toNat tv.tvUsec.toInt k := by
  obtain ⟨htv, hsame, hbase⟩ := sysSettimeofday_ok hset
  have husec := now_usec hj hsame hbase htv
  have hwrapped := now_sec tv hj hsame hbase
  rw [seconds_lt_iff (hz_pos true)] at hsec
  rw [tells_iff, seconds_eq_iff (hz_pos true)]
  unfold Timeval.Proper InPhase
  rw [husec, if_pos rfl]
  have hn : (hz true).toNat = 30 := rfl
  rw [hn] at hsec hwrapped ⊢
  constructor
  · rintro ⟨-, hexact, -⟩
    -- what the microseconds of the ticks leave out is less than a wrap of the seconds
    have hbmod := Int.bmod_add_bdiv (tv.tvSec.toInt - (c.jiffies.toNat / 30 : Nat) +
      ((c.jiffies.toNat + k) / 30 : Nat)) (2 ^ 32)
    rw [← hwrapped] at hbmod
    omega
  · intro hphase
    have hsmall : tv.tvUsec.toInt = tv.tvUsec.toNat :=
      BitVec.toInt_eq_toNat_of_lt (by omega)
    have hfits : tv.tvSec.toInt - (c.jiffies.toNat / 30 : Nat) +
        ((c.jiffies.toNat + k) / 30 : Nat) < 2 ^ 31 := by
      omega
    have hnow := now_sec_fits tv hj hsame hbase hfits
    rw [hn] at hnow
    refine ⟨by rw [hphase]; omega, ?_, fun i hi => after_keeps_order hj hset hi hfits⟩
    rw [hnow, hphase]
    omega

/-- The time that a task has set, `k` ticks later: `sys_gettimeofday` stores a proper
pair for just that time, not before any pair since, exactly when the ticks within the
second need no carry. -/
theorem timeOfDay_iff (hj : c.jiffies.toNat + k < 2 ^ 32)
    (hset : c.sysSettimeofday sibo euid (.good tv) tz = .ok c')
    (hsec : tv.seconds + k / (hz sibo).toNat < 2 ^ 31) :
    c'.Tells sibo tv k ↔ InPhase sibo c.jiffies.toNat tv.tvUsec.toInt k := by
  cases sibo with
  | false => exact tells_iff_hundred hj hset hsec
  | true => exact tells_iff_thirty hj hset hsec

end Readings

section HalfASecond

/-- Half a second after the start of a clock. -/
def halfASecond : Clock where
  jiffies := 50
  xtime := ⟨0, 0⟩
  xzone := ⟨0, 0⟩

/-- A full second. -/
def fullSecond : Timeval where
  tvSec := 1000
  tvUsec := 0

theorem timeOfDay_iff_soon :
    (halfASecond.setBase false fullSecond).Tells false fullSecond 30 ↔
      InPhase false halfASecond.jiffies.toNat fullSecond.tvUsec.toInt 30 := by
  have hset : halfASecond.sysSettimeofday false 0 (.good fullSecond) .null =
      .ok (halfASecond.setBase false fullSecond) := rfl
  refine timeOfDay_iff (by decide) hset ?_
  have hsec : fullSecond.tvSec.toInt = 1000 := by decide
  have husec : fullSecond.tvUsec.toInt = 0 := by decide
  have hn : (hz false).toNat = 100 := rfl
  rw [Timeval.seconds, hsec, husec, hn]
  norm_num

/-- Half a second after a full second has been set, half a second of microseconds is
taken off the next one. -/
theorem microseconds_below_zero :
    halfASecond.sysSettimeofday false 0 (.good fullSecond) .null =
        .ok (halfASecond.setBase false fullSecond) ∧
      (((halfASecond.setBase false fullSecond).after 50).now false).tvSec.toInt = 1001 ∧
      (((halfASecond.setBase false fullSecond).after 50).now false).tvUsec.toInt = -500000 ∧
      ¬(halfASecond.setBase false fullSecond).Tells false fullSecond 50 := by
  refine ⟨rfl, by decide, by decide, ?_⟩
  rintro ⟨r, hr, hproper, -⟩
  rw [shows_iff] at hr
  rw [hr] at hproper
  exact absurd hproper.1 (by decide)

end HalfASecond

end Time
end Elks
