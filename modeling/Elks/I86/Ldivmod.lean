import Elks.Lib.I8086
import Elks.Lib.Loop
import Elks.Lib.Machine

/-!
# Division of long integers (arch/i86/lib/ldivmod.s)

`ldivmod` and `ludivmod` divide the number in `bx:ax` by the one in `di:cx`, and leave the
quotient in `di:cx` and the remainder in `bx:ax`.  The 8086 can divide by a word only: where
the quotient might not fit, the routine shifts the divisor up as far as it stays below the
dividend and subtracts on the way down.  Signs are taken off first and put back at the end.

Every label of the source that is jumped to is a function on the registers here.  A routine
that jumps to a label ends with that function.

**Results.**  `gotSigns_spec`: without its signs, every division gives the quotient and the
remainder.  `ldivmod_divides`: what the header of the source says of both routines.
-/

namespace Elks
namespace I86

open Lib Lib.I8086

/-- The registers, `bp` and `sp` apart. -/
structure Regs where
  ax : Word
  bx : Word
  cx : Word
  dx : Word
  si : Word
  di : Word
deriving DecidableEq, Repr

/-- What stands on the stack: `b16`, `b0` and the saved `si`. -/
structure Frame where
  b16 : Word
  b0 : Word
  si : Word

/-- The dividend, and later the remainder. -/
def Regs.bxax (r : Regs) : BitVec 32 :=
  long r.bx r.ax

/-- The divisor, and later the quotient. -/
def Regs.dicx (r : Regs) : BitVec 32 :=
  long r.di r.cx

/-- The shifted divisor. -/
def Regs.sidx (r : Regs) : BitVec 32 :=
  long r.si r.dx

/-- What `got_signs` pushes. -/
def Regs.frame (r : Regs) : Frame where
  b16 := r.di
  b0 := r.cx
  si := r.si

/-- The divisor on the stack. -/
def Frame.b (f : Frame) : BitVec 32 :=
  long f.b16 f.b0

section Code

/-- Rounds enough for every number of thirty-two bits. -/
def ROUNDS : Nat := 33

variable (f : Frame) (r : Regs)

/-- `return`. -/
def leave : Regs :=
  { r with si := f.si }

/-- `negr`. -/
def negr : Regs :=
  let (bx, _) := neg r.bx
  let (ax, cf) := neg r.ax
  let (bx, _) := sbb bx 0#16 cf
  leave f { r with bx, ax }

/-- `negq`. -/
def negq : Regs :=
  let (di, _) := neg r.di
  let (cx, cf) := neg r.cx
  let (di, _) := sbb di 0#16 cf
  leave f { r with di, cx }

/-- `zbminus`. -/
def zbminus : Regs :=
  if (low r.dx).msb then
    negr f r
  else
    let dx := r.ax ||| r.bx
    if dx = 0#16 then
      negq f { r with dx }
    else
      let (ax, cf) := sub r.ax f.b0
      let (bx, _) := sbb r.bx f.b16 cf
      leave f { r with ax, bx, dx, cx := ~~~r.cx, di := ~~~r.di }

/-- `zdivu1`. -/
def zdivu1 : Regs :=
  if (high r.dx).msb then
    zbminus f r
  else if (low r.dx).msb = false then
    leave f r
  else
    let dx := r.ax ||| r.bx
    if dx = 0#16 then
      negq f { r with dx }
    else
      let (ax, cf) := sub r.ax f.b0
      let (bx, _) := sbb r.bx f.b16 cf
      negr f { r with ax, bx, dx, cx := ~~~r.cx, di := ~~~r.di }

/-- `zdivu`, with the sign bytes from the stack. -/
def zdivu (signs : Word) : Regs :=
  zdivu1 f { r with dx := signs }

/-- A round of `loop1`; it leaves with the carry. -/
def loop1 : Regs ⊕ (Regs × Bool) :=
  let (dx, cf) := shl r.dx
  let (si, cf) := rcl r.si cf
  let r := { r with dx, si }
  if cf then
    .inr (r, cf)
  else
    let flags := cmpWord r.si r.bx
    if flags.cf then
      .inl r
    else if flags.above then
      .inr (r, flags.cf)
    else
      let flags := cmpWord r.dx r.ax
      if flags.belowEq then .inl r else .inr (r, flags.cf)

/-- `loop1_exit`. -/
def loop1Exit (cf : Bool) : Regs :=
  let (si, cf) := rcr r.si cf
  let (dx, _) := rcr r.dx cf
  { r with si, dx }

/-- `loop2_over`, up to `loop2_test`. -/
def loop2Over : Regs :=
  let (cx, cf) := add r.cx 1#16
  let (di, _) := adc r.di 0#16 cf
  let (ax, cf) := sub r.ax r.dx
  let (bx, _) := sbb r.bx r.si cf
  { r with cx, di, ax, bx }

/-- `loop2_test`. -/
def loop2Test : Regs ⊕ Regs :=
  let (si, cf) := shr r.si
  let (dx, _) := rcr r.dx cf
  let r := { r with si, dx }
  let flags := cmpWord r.si f.b16
  if flags.above then
    .inl r
  else if flags.cf then
    .inr r
  else if (cmpWord r.dx f.b0).cf then
    .inr r
  else
    .inl r

/-- A round of `loop2`. -/
def loop2 : Regs ⊕ Regs :=
  let (cx, cf) := shl r.cx
  let (di, _) := rcl r.di cf
  let r := { r with cx, di }
  let flags := cmpWord r.si r.bx
  if flags.cf then
    loop2Test f (loop2Over r)
  else if flags.above then
    loop2Test f r
  else if (cmpWord r.dx r.ax).above then
    loop2Test f r
  else
    loop2Test f (loop2Over r)

/-- `divlarge`. -/
def divlarge : Except Fault Regs :=
  let signs := r.dx
  let r := { r with si := r.di, dx := r.cx, cx := 0#16, di := 0#16 }
  let flags := cmpWord r.si r.bx
  if flags.cf = false ∧ (flags.above ∨ (cmpWord r.dx r.ax).above) then
    .ok (zdivu f r signs)
  else
    match loop loop1 ROUNDS r with
    | none => .error .endless
    | some (r, cf) =>
        match loop (loop2 f) ROUNDS (loop1Exit r cf) with
        | none => .error .endless
        | some r => .ok (zdivu f r signs)

/-- `divzero`. -/
def divzero : Regs :=
  if (low r.dx).msb = false then leave f r else negr f r

/-- `got_signs`. -/
def gotSigns : Except Fault Regs :=
  let f := r.frame
  if r.di ≠ 0#16 then
    divlarge f r
  else if r.cx = 0#16 then
    .ok (divzero f r)
  else if (cmpWord r.bx r.cx).cf = false then
    divlarge f r
  else
    let r := { r with dx := r.bx, bx := r.dx }
    match div r.dx r.ax r.cx with
    | none => .error (.panic "divide error")
    | some (ax, dx) =>
        let r := { r with ax, dx }
        let r := { r with cx := r.ax, ax := r.cx }
        let r := { r with ax := r.bx, bx := r.ax }
        let r := { r with ax := r.dx, dx := r.ax }
        .ok (zdivu1 f { r with bx := r.di })

/-- `set_asign`. -/
def setAsign : Except Fault Regs :=
  if r.bx.msb then
    let (bx, _) := neg r.bx
    let (ax, cf) := neg r.ax
    let (bx, _) := sbb bx 0#16 cf
    gotSigns { r with bx, ax }
  else
    gotSigns r

/-- `ldivmod`: the sign byte of the divisor in `dh` and that of the dividend in `dl`. -/
def ldivmod : Except Fault Regs :=
  let r := { r with dx := high r.di ++ high r.bx }
  if r.di.msb then
    let (di, _) := neg r.di
    let (cx, cf) := neg r.cx
    let (di, _) := sbb di 0#16 cf
    setAsign { r with di, cx }
  else
    setAsign r

/-- `ludivmod`. -/
def ludivmod : Except Fault Regs :=
  gotSigns { r with dx := 0#16 }

end Code

section Loops

variable {f : Frame} {r : Regs}

theorem loop1_cases (r : Regs) :
    (2 * r.sidx.toNat ≤ r.bxax.toNat ∧ ∃ si dx, loop1 r = .inl { r with si, dx } ∧
      (long si dx).toNat = 2 * r.sidx.toNat) ∨
    r.bxax.toNat < 2 * r.sidx.toNat ∧ ∃ s cf, loop1 r = .inr (s, cf) ∧ loop1Exit s cf = r := by
  obtain ⟨dx, c, hdx⟩ : ∃ dx c, shl r.dx = (dx, c) := ⟨_, _, rfl⟩
  obtain ⟨si, cf, hsi⟩ : ∃ si cf, rcl r.si c = (si, cf) := ⟨_, _, rfl⟩
  have hshl : 2 * r.sidx.toNat = (long si dx).toNat + 4294967296 * cf.toNat := by
    have hpair := long_shl r.si r.dx
    rwa [hdx, hsi] at hpair
  have hlt := r.bxax.isLt
  have hexit : loop1Exit { r with dx, si } cf = r := by
    have hback := rcr_rcl r.si r.dx hdx hsi
    unfold loop1Exit
    dsimp only
    rw [hback.1, hback.2]
  unfold loop1
  dsimp only
  rw [hdx, hsi]
  dsimp only
  cases cf with
  | true =>
      right
      rw [Bool.toNat_true] at hshl
      exact ⟨by omega, _, _, rfl, hexit⟩
  | false =>
      rw [Bool.toNat_false] at hshl
      simp only [Bool.false_eq_true, if_false]
      rcases cmpWord_pair si dx r.bx r.ax with ⟨hbelow, hless⟩ | ⟨hcf, habove, hmore⟩ |
        ⟨hcf, habove, hlow, hlow'⟩
      · left
        rw [if_pos hbelow]
        exact ⟨by rw [hshl]; exact hless.le, si, dx, rfl, by omega⟩
      · right
        rw [hcf, if_neg Bool.false_ne_true, if_pos habove]
        exact ⟨by rw [hshl]; exact hmore, _, _, rfl, hexit⟩
      · rw [hcf, if_neg Bool.false_ne_true, habove, if_neg Bool.false_ne_true,
          cmpWord_belowEq]
        cases hmore : (cmpWord dx r.ax).above with
        | true =>
            right
            have hcarry : (cmpWord dx r.ax).cf = false := by
              rw [← Bool.not_eq_true, hlow]
              exact (hlow'.mp hmore).not_gt
            rw [Bool.not_true, if_neg Bool.false_ne_true, hcarry]
            exact ⟨by rw [hshl]; exact hlow'.mp hmore, _, _, rfl, hexit⟩
        | false =>
            left
            rw [Bool.not_false, if_pos rfl]
            refine ⟨?_, si, dx, rfl, by omega⟩
            rw [hshl]
            exact not_lt.mp fun h => by rw [hlow'.mpr h] at hmore; cases hmore

theorem loop1_spec (hpos : 0 < r.sidx.toNat) (hle : r.sidx.toNat ≤ r.bxax.toNat) :
    ∃ s cf, loop loop1 ROUNDS r = some (s, cf) ∧
      ∃ si dx k, loop1Exit s cf = { r with si, dx } ∧
        (long si dx).toNat = r.sidx.toNat * 2 ^ k ∧
        r.sidx.toNat * 2 ^ k ≤ r.bxax.toNat ∧ r.bxax.toNat < 2 * (r.sidx.toNat * 2 ^ k) := by
  obtain ⟨⟨s, cf⟩, hsome, hend⟩ : ∃ p : Regs × Bool, loop loop1 ROUNDS r = some p ∧
      ∃ si dx k, loop1Exit p.1 p.2 = { r with si, dx } ∧
        (long si dx).toNat = r.sidx.toNat * 2 ^ k ∧
        r.sidx.toNat * 2 ^ k ≤ r.bxax.toNat ∧ r.bxax.toNat < 2 * (r.sidx.toNat * 2 ^ k) := by
    refine loop_of_variant (I := fun s => ∃ si dx k, s = { r with si, dx } ∧
        (long si dx).toNat = r.sidx.toNat * 2 ^ k ∧ r.sidx.toNat * 2 ^ k ≤ r.bxax.toNat)
      (v := fun s => 32 - s.sidx.toNat.log2) ?_ ?_ ?_
    · rintro s ⟨si, dx, k, rfl, hw, hwle⟩
      have hword : ({ r with si, dx } : Regs).sidx.toNat = r.sidx.toNat * 2 ^ k := hw
      rcases loop1_cases { r with si, dx } with ⟨hmore, si', dx', hround, hw'⟩ |
        ⟨hend, s, cf, hround, hexit⟩
      · left
        rw [hword] at hmore hw'
        have hdouble : 2 * (r.sidx.toNat * 2 ^ k) = r.sidx.toNat * 2 ^ (k + 1) := by
          rw [pow_succ]
          ring
        refine ⟨_, hround, ⟨si', dx', k + 1, rfl, hw'.trans hdouble, hdouble ▸ hmore⟩, ?_⟩
        have hword' : ({ r with si := si', dx := dx' } : Regs).sidx.toNat =
            2 * (r.sidx.toNat * 2 ^ k) := hw'
        have hne : r.sidx.toNat * 2 ^ k ≠ 0 := by positivity
        have hlog : (r.sidx.toNat * 2 ^ k).log2 < 32 :=
          (Nat.log2_lt hne).mpr (hwle.trans_lt r.bxax.isLt)
        rw [hword', hword, Nat.log2_two_mul hne]
        omega
      · right
        rw [hword] at hend
        exact ⟨_, hround, si, dx, k, hexit, hw, hwle, hend⟩
    · have hstart : r.sidx.toNat = r.sidx.toNat * 2 ^ 0 := by
        rw [pow_zero, mul_one]
      exact ⟨r.si, r.dx, 0, rfl, hstart, hstart ▸ hle⟩
    · unfold ROUNDS
      omega
  exact ⟨s, cf, hsome, hend⟩

theorem loop2Over_eq (r : Regs) :
    ∃ cx di ax bx, loop2Over r = { r with cx, di, ax, bx } ∧
      long di cx = r.dicx + 1#32 ∧ long bx ax = r.bxax - r.sidx :=
  ⟨_, _, _, _, rfl, long_inc r.di r.cx, long_sub r.bx r.ax r.si r.dx⟩

theorem loop2Test_eq (f : Frame) (r : Regs) :
    ∃ si dx, (long si dx).toNat = r.sidx.toNat / 2 ∧
      loop2Test f r =
        if f.b.toNat ≤ r.sidx.toNat / 2 then .inl { r with si, dx }
        else .inr { r with si, dx } := by
  obtain ⟨si, c, hsi⟩ : ∃ si c, shr r.si = (si, c) := ⟨_, _, rfl⟩
  obtain ⟨dx, c', hdx⟩ : ∃ dx c', rcr r.dx c = (dx, c') := ⟨_, _, rfl⟩
  have hhalf : (long si dx).toNat = r.sidx.toNat / 2 := by
    have hpair := long_shr r.si r.dx
    rw [hsi, hdx] at hpair
    dsimp only at hpair
    have hbit := c'.toNat_le
    unfold Regs.sidx
    omega
  refine ⟨si, dx, hhalf, ?_⟩
  rw [← hhalf]
  unfold loop2Test Frame.b
  dsimp only
  rw [hsi]
  dsimp only
  rw [hdx]
  dsimp only
  rcases cmpWord_pair si dx f.b16 f.b0 with ⟨hbelow, hless⟩ | ⟨hcf, habove, hmore⟩ |
    ⟨hcf, habove, hlow, -⟩
  · have hnot : (cmpWord si f.b16).above = false := by
      rw [Flags.above, hbelow]
      rfl
    rw [hnot, if_neg Bool.false_ne_true, if_pos hbelow, if_neg (not_le.mpr hless)]
  · rw [if_pos habove, if_pos hmore.le]
  · rw [habove, if_neg Bool.false_ne_true, hcf, if_neg Bool.false_ne_true]
    by_cases hless : (long si dx).toNat < (long f.b16 f.b0).toNat
    · rw [if_pos (hlow.mpr hless), if_neg (not_le.mpr hless)]
    · rw [if_neg (mt hlow.mp hless), if_pos (not_lt.mp hless)]

theorem loop2_eq (f : Frame) (r : Regs) (hroom : 2 * r.dicx.toNat + 1 < 2 ^ 32) :
    ∃ s : Regs,
      s.dicx.toNat = 2 * r.dicx.toNat + (if r.sidx.toNat ≤ r.bxax.toNat then 1 else 0) ∧
      s.bxax.toNat =
        (if r.sidx.toNat ≤ r.bxax.toNat then r.bxax.toNat - r.sidx.toNat else r.bxax.toNat) ∧
      s.sidx.toNat = r.sidx.toNat / 2 ∧
      loop2 f r = if f.b.toNat ≤ r.sidx.toNat / 2 then .inl s else .inr s := by
  obtain ⟨cx, c, hcx⟩ : ∃ cx c, shl r.cx = (cx, c) := ⟨_, _, rfl⟩
  obtain ⟨di, c', hdi⟩ : ∃ di c', rcl r.di c = (di, c') := ⟨_, _, rfl⟩
  have hdouble : (long di cx).toNat = 2 * r.dicx.toNat := by
    have hpair := long_shl r.di r.cx
    rw [hcx, hdi] at hpair
    dsimp only at hpair
    have hlt := (long di cx).isLt
    unfold Regs.dicx at hroom ⊢
    omega
  have hbranch : loop2 f r =
      if r.sidx.toNat ≤ r.bxax.toNat then loop2Test f (loop2Over { r with cx, di })
      else loop2Test f { r with cx, di } := by
    unfold loop2 Regs.sidx Regs.bxax
    dsimp only
    rw [hcx]
    dsimp only
    rw [hdi]
    dsimp only
    rcases cmpWord_pair r.si r.dx r.bx r.ax with ⟨hbelow, hless⟩ | ⟨hcf, habove, hmore⟩ |
      ⟨hcf, habove, -, hlow⟩
    · rw [if_pos hbelow, if_pos hless.le]
    · rw [hcf, if_neg Bool.false_ne_true, if_pos habove, if_neg (not_le.mpr hmore)]
    · rw [hcf, if_neg Bool.false_ne_true, habove, if_neg Bool.false_ne_true]
      by_cases hmore : (long r.bx r.ax).toNat < (long r.si r.dx).toNat
      · rw [if_pos (hlow.mpr hmore), if_neg (not_le.mpr hmore)]
      · rw [if_neg (mt hlow.mp hmore), if_pos (not_lt.mp hmore)]
  rw [hbranch]
  by_cases hfits : r.sidx.toNat ≤ r.bxax.toNat
  · obtain ⟨cx', di', ax, bx, hover, hinc, hsub⟩ := loop2Over_eq { r with cx, di }
    have hinc' : long di' cx' = long di cx + 1#32 := hinc
    have hsub' : long bx ax = r.bxax - r.sidx := hsub
    obtain ⟨si, dx, hhalf, htest⟩ := loop2Test_eq f { r with cx := cx', di := di', ax, bx }
    simp only [if_pos hfits]
    rw [hover]
    refine ⟨{ r with cx := cx', di := di', ax, bx, si, dx }, ?_, ?_, hhalf, htest⟩
    · change (long di' cx').toNat = _
      have hone : (1#32).toNat = 1 := rfl
      rw [hinc', BitVec.toNat_add, hdouble, hone]
      exact Nat.mod_eq_of_lt hroom
    · change (long bx ax).toNat = _
      rw [hsub', BitVec.toNat_sub_of_le hfits]
  · obtain ⟨si, dx, hhalf, htest⟩ := loop2Test_eq f { r with cx, di }
    simp only [if_neg hfits]
    exact ⟨{ r with cx, di, si, dx }, hdouble, rfl, hhalf, htest⟩

/-- What the rounds of `loop2` keep: the quotient so far is that by twice the shifted
divisor. -/
structure Subtracting (f : Frame) (r s : Regs) : Prop where
  rem : s.bxax.toNat < 2 * s.sidx.toNat
  shifted : ∃ k, s.sidx.toNat = f.b.toNat * 2 ^ k
  sum : r.bxax.toNat = s.dicx.toNat * (2 * s.sidx.toNat) + s.bxax.toNat

theorem Subtracting.round {r s : Regs} (h : Subtracting f r s) (hpos : 0 < f.b.toNat) :
    ∃ s', r.bxax.toNat = s'.dicx.toNat * s.sidx.toNat + s'.bxax.toNat ∧
      s'.bxax.toNat < s.sidx.toNat ∧ s'.sidx.toNat = s.sidx.toNat / 2 ∧
      loop2 f s = if f.b.toNat ≤ s.sidx.toNat / 2 then .inl s' else .inr s' := by
  obtain ⟨k, hk⟩ := h.shifted
  have hwpos : 0 < s.sidx.toNat := by
    rw [hk]
    positivity
  have hroom : 2 * s.dicx.toNat + 1 < 2 ^ 32 := by
    have hle : s.dicx.toNat * 2 ≤ s.dicx.toNat * (2 * s.sidx.toNat) :=
      Nat.mul_le_mul_left _ (by omega)
    have hlt := r.bxax.isLt
    have hsum := h.sum
    omega
  obtain ⟨s', hquot, hrem, hhalf, hround⟩ := loop2_eq f s hroom
  refine ⟨s', ?_, ?_, hhalf, hround⟩
  · by_cases hfits : s.sidx.toNat ≤ s.bxax.toNat
    · rw [hquot, hrem, if_pos hfits, if_pos hfits, h.sum, add_mul, one_mul, add_assoc,
        Nat.add_sub_cancel' hfits]
      ring
    · rw [hquot, hrem, if_neg hfits, if_neg hfits, h.sum]
      ring
  · have hlt := h.rem
    rw [hrem]
    split_ifs <;> omega

theorem loop2_spec (hpos : 0 < f.b.toNat) {s : Regs} (h : Subtracting f r s) :
    ∃ t, loop (loop2 f) ROUNDS s = some t ∧
      t.dicx.toNat = r.bxax.toNat / f.b.toNat ∧ t.bxax.toNat = r.bxax.toNat % f.b.toNat := by
  have hlog : s.sidx.toNat.log2 < ROUNDS := by
    obtain ⟨k, hk⟩ := h.shifted
    have hne : s.sidx.toNat ≠ 0 := by
      rw [hk]
      positivity
    exact ((Nat.log2_lt hne).mpr s.sidx.isLt).trans (by decide)
  refine loop_of_variant (I := Subtracting f r) (v := fun s => s.sidx.toNat.log2) ?_ h hlog
  clear hlog h s
  intro s h
  obtain ⟨s', hsum, hrem, hhalf, hround⟩ := h.round hpos
  obtain ⟨k, hk⟩ := h.shifted
  cases k with
  | zero =>
      rw [pow_zero, mul_one] at hk
      rw [if_neg (by omega)] at hround
      have hdivided : s'.bxax.toNat + f.b.toNat * s'.dicx.toNat = r.bxax.toNat := by
        rw [hsum, hk]
        ring
      have hless : s'.bxax.toNat < f.b.toNat := by
        rw [← hk]
        exact hrem
      have hunique := (Nat.div_mod_unique hpos).mpr ⟨hdivided, hless⟩
      exact Or.inr ⟨s', hround, hunique.1.symm, hunique.2.symm⟩
  | succ k =>
      have htwice : s.sidx.toNat = 2 * (f.b.toNat * 2 ^ k) := by
        rw [hk, pow_succ]
        ring
      have hshifted : s'.sidx.toNat = f.b.toNat * 2 ^ k := by
        rw [hhalf, htwice, Nat.mul_div_cancel_left _ (by decide)]
      have hsame : 2 * s'.sidx.toNat = s.sidx.toNat := by
        rw [hshifted, htwice]
      have hge : f.b.toNat ≤ s.sidx.toNat / 2 := by
        rw [← hhalf, hshifted]
        exact Nat.le_mul_of_pos_right _ (by positivity)
      rw [if_pos hge] at hround
      have hkept : Subtracting f r s' :=
        ⟨by rw [hsame]; exact hrem, ⟨k, hshifted⟩, by rw [hsame]; exact hsum⟩
      have hless : s'.sidx.toNat.log2 < s.sidx.toNat.log2 := by
        rw [← hsame, Nat.log2_two_mul (by omega)]
        exact Nat.lt_succ_self _
      exact Or.inl ⟨s', hround, hkept, hless⟩

/-- The quotient and the remainder, without signs, and what is on the stack. -/
structure Divided (r s : Regs) : Prop where
  dx : s.dx = r.dx
  quot : s.dicx.toNat = r.bxax.toNat / r.dicx.toNat
  rem : s.bxax.toNat = r.bxax.toNat % r.dicx.toNat

theorem divlarge_spec (r : Regs) (hpos : 0 < r.dicx.toNat) :
    ∃ s, divlarge r.frame r = .ok (zdivu1 r.frame s) ∧ Divided r s := by
  have hready : (cmpWord r.di r.bx).cf = false ∧
      ((cmpWord r.di r.bx).above ∨ (cmpWord r.cx r.ax).above) ↔
      r.bxax.toNat < r.dicx.toNat := by
    unfold Regs.bxax Regs.dicx
    rcases cmpWord_pair r.di r.cx r.bx r.ax with ⟨hbelow, hless⟩ | ⟨hcf, habove, hmore⟩ |
      ⟨hcf, habove, -, hlow⟩
    · rw [hbelow]
      exact iff_of_false (fun h => absurd h.1 Bool.noConfusion) (not_lt.mpr hless.le)
    · exact iff_of_true ⟨hcf, Or.inl habove⟩ hmore
    · rw [hcf, habove, hlow]
      simp
  unfold divlarge
  dsimp only
  by_cases hless : r.bxax.toNat < r.dicx.toNat
  · rw [if_pos (hready.mpr hless)]
    refine ⟨{ r with si := r.di, cx := 0#16, di := 0#16 }, rfl, rfl, ?_, ?_⟩
    · rw [Nat.div_eq_of_lt hless]
      exact congrArg BitVec.toNat long_zero
    · rw [Nat.mod_eq_of_lt hless]
      rfl
  · rw [if_neg (mt hready.mp hless)]
    have hshifted : ({ r with si := r.di, dx := r.cx, cx := 0#16, di := 0#16 } : Regs).sidx =
        r.dicx := rfl
    have hsame : ({ r with si := r.di, dx := r.cx, cx := 0#16, di := 0#16 } : Regs).bxax =
        r.bxax := rfl
    obtain ⟨s, cf, hloop, si, dx, k, hexit, hw, -, hlt⟩ :=
      loop1_spec (r := { r with si := r.di, dx := r.cx, cx := 0#16, di := 0#16 })
        (by rwa [hshifted]) (by rw [hshifted, hsame]; exact not_lt.mp hless)
    rw [hshifted] at hw hlt
    rw [hsame, ← hw] at hlt
    have hstart : Subtracting r.frame r { r with si, dx, cx := 0#16, di := 0#16 } := by
      refine ⟨hlt, ⟨k, hw⟩, ?_⟩
      have hzero : ({ r with si, dx, cx := 0#16, di := 0#16 } : Regs).dicx = 0#32 := long_zero
      rw [hzero, BitVec.toNat_zero, zero_mul, zero_add]
      rfl
    have hdivisor : r.frame.b = r.dicx := rfl
    have hpos' : 0 < r.frame.b.toNat := by rwa [hdivisor]
    obtain ⟨t, hloop', hquot, hrem⟩ := loop2_spec hpos' hstart
    rw [hdivisor] at hquot hrem
    rw [hloop]
    dsimp only
    rw [hexit, hloop']
    exact ⟨_, rfl, rfl, hquot, hrem⟩

/-- Without its signs, a division by something other than zero gives the quotient and the
remainder. -/
theorem gotSigns_spec (r : Regs) (hpos : 0 < r.dicx.toNat) :
    ∃ s, gotSigns r = .ok (zdivu1 r.frame s) ∧ Divided r s := by
  unfold gotSigns
  dsimp only
  by_cases hdi : r.di = 0#16
  · have hdicx : r.dicx.toNat = r.cx.toNat := by
      rw [Regs.dicx, toNat_long, hdi, BitVec.toNat_zero, mul_zero, zero_add]
    have hcx : r.cx ≠ 0#16 := by
      intro h
      rw [hdicx, h, BitVec.toNat_zero] at hpos
      exact absurd hpos (lt_irrefl 0)
    rw [if_neg (not_not.mpr hdi), if_neg hcx]
    by_cases hfits : r.bx.toNat < r.cx.toNat
    · rw [if_neg (by rw [(cmpWord_cf _ _).mpr hfits]; exact Bool.noConfusion)]
      obtain ⟨q, rem, hdiv, hq, hrem⟩ := div_of_lt r.ax hfits
      rw [hdiv]
      have hbxax : r.bxax.toNat = r.bx.toNat * 65536 + r.ax.toNat := by
        rw [Regs.bxax, toNat_long, mul_comm]
      refine ⟨{ r with cx := q, ax := rem, bx := r.di }, rfl, rfl, ?_, ?_⟩
      · rw [hbxax, hdicx, ← hq]
        change (long r.di q).toNat = _
        rw [toNat_long, hdi, BitVec.toNat_zero, mul_zero, zero_add]
      · rw [hbxax, hdicx, ← hrem]
        change (long r.di rem).toNat = _
        rw [toNat_long, hdi, BitVec.toNat_zero, mul_zero, zero_add]
    · have hcf : (cmpWord r.bx r.cx).cf = false := by
        rw [← Bool.not_eq_true, cmpWord_cf]
        exact hfits
      rw [if_pos hcf]
      exact divlarge_spec r hpos
  · rw [if_pos hdi]
    exact divlarge_spec r hpos

theorem gotSigns_zero (r : Regs) (hzero : r.dicx = 0#32) :
    gotSigns r = .ok (divzero r.frame r) := by
  have hwords := BitVec.or_eq_zero_iff.mp ((long_eq_zero r.di r.cx).mp hzero)
  unfold gotSigns
  dsimp only
  rw [if_neg (not_not.mpr hwords.1), if_pos hwords.2]

end Loops

section Signs

variable {f : Frame} {r : Regs}

theorem leave_bxax : (leave f r).bxax = r.bxax := rfl

theorem leave_dicx : (leave f r).dicx = r.dicx := rfl

theorem negr_bxax : (negr f r).bxax = -r.bxax :=
  long_neg r.bx r.ax

theorem negr_dicx : (negr f r).dicx = r.dicx := rfl

theorem negq_bxax : (negq f r).bxax = r.bxax := rfl

theorem negq_dicx : (negq f r).dicx = -r.dicx :=
  long_neg r.di r.cx

theorem or_eq_zero_iff (r : Regs) : r.ax ||| r.bx = 0#16 ↔ r.bxax = 0#32 := by
  rw [BitVec.or_comm]
  exact (long_eq_zero r.bx r.ax).symm

theorem zdivu1_spec (hrem : r.bxax.toNat < f.b.toNat) :
    ∃ x : BitVec 32, x.toNat < f.b.toNat ∧
      (zdivu1 f r).bxax = (if (high r.dx).msb then -x else x) ∧
      (if (low r.dx).msb = (high r.dx).msb then f.b * r.dicx + r.bxax
        else -(f.b * r.dicx + r.bxax)) = f.b * (zdivu1 f r).dicx + x := by
  obtain ⟨t, ht, hrem', hquot'⟩ : ∃ t, t = ({ r with
      ax := (sub r.ax f.b0).1
      bx := (sbb r.bx f.b16 (sub r.ax f.b0).2).1
      dx := r.ax ||| r.bx
      cx := ~~~r.cx
      di := ~~~r.di } : Regs) ∧ t.bxax = r.bxax - f.b ∧ t.dicx = -r.dicx - 1 :=
    ⟨_, rfl, long_sub r.bx r.ax f.b16 f.b0, long_not r.di r.cx⟩
  have hrest (hne : r.bxax ≠ 0#32) : (f.b - r.bxax).toNat < f.b.toNat := by
    have hpos : r.bxax.toNat ≠ 0 := fun h => hne (BitVec.eq_of_toNat_eq h)
    rw [BitVec.toNat_sub_of_le hrem.le]
    omega
  have hnone : (0 : BitVec 32).toNat < f.b.toNat := (Nat.zero_le _).trans_lt hrem
  unfold zdivu1 zbminus
  cases hb : (high r.dx).msb <;> cases ha : (low r.dx).msb
  · refine ⟨r.bxax, hrem, ?_⟩
    simp only [Bool.false_eq_true, if_false, if_true, leave_bxax, leave_dicx, and_self]
  · by_cases hzero : r.bxax = 0#32
    · refine ⟨0, hnone, ?_⟩
      simp only [Bool.false_eq_true, Bool.true_eq_false, if_false,
        if_pos ((or_eq_zero_iff r).mpr hzero), negq_bxax, negq_dicx]
      refine ⟨hzero, ?_⟩
      rw [hzero, neg_add, mul_neg]
      rfl
    · refine ⟨f.b - r.bxax, hrest hzero, ?_⟩
      simp only [Bool.false_eq_true, Bool.true_eq_false, if_false,
        if_neg (mt (or_eq_zero_iff r).mp hzero), negr_bxax, negr_dicx, ← ht, hrem', hquot']
      exact ⟨by ring, by ring⟩
  · by_cases hzero : r.bxax = 0#32
    · refine ⟨0, hnone, ?_⟩
      simp only [Bool.false_eq_true, if_true, if_false, if_pos ((or_eq_zero_iff r).mpr hzero),
        negq_bxax, negq_dicx]
      refine ⟨hzero, ?_⟩
      rw [hzero, neg_add, mul_neg]
      rfl
    · refine ⟨f.b - r.bxax, hrest hzero, ?_⟩
      simp only [Bool.false_eq_true, if_true, if_false, if_neg (mt (or_eq_zero_iff r).mp hzero),
        leave_bxax, leave_dicx, ← ht, hrem', hquot']
      exact ⟨by ring, by ring⟩
  · refine ⟨r.bxax, hrem, ?_⟩
    simp only [if_true, negr_bxax, negr_dicx, and_self]

end Signs

section Result

/-- What the header of the source says of `ldivmod`. -/
structure DividesSigned (a b q r : BitVec 32) : Prop where
  sum : a = b * q + r
  zero : b = 0#32 → q = 0#32 ∧ r = a
  rem_pos : 0 < b.toInt → 0 ≤ r.toInt ∧ r.toInt < b.toInt
  rem_neg : b.toInt < 0 → b.toInt < r.toInt ∧ r.toInt ≤ 0

/-- What the header of the source says of `ludivmod`. -/
structure DividesUnsigned (a b q r : BitVec 32) : Prop where
  sum : a = b * q + r
  zero : b = 0#32 → q = 0#32 ∧ r = a
  rem : b ≠ 0#32 → r.toNat < b.toNat

variable {r s : Regs}

theorem Divided.sum (h : Divided r s) : r.bxax = r.dicx * s.dicx + s.bxax := by
  apply BitVec.eq_of_toNat_eq
  have hlt := r.bxax.isLt
  rw [BitVec.toNat_add, BitVec.toNat_mul, h.quot, h.rem, Nat.mod_add_mod, Nat.div_add_mod,
    Nat.mod_eq_of_lt hlt]

theorem Divided.less (h : Divided r s) (hpos : 0 < r.dicx.toNat) : s.bxax.toNat < r.dicx.toNat := by
  rw [h.rem]
  exact Nat.mod_lt _ hpos

theorem setAsign_eq (r : Regs) :
    ∃ s, setAsign r = gotSigns s ∧ s.dx = r.dx ∧ s.dicx = r.dicx ∧
      s.bxax = if r.bx.msb then -r.bxax else r.bxax := by
  unfold setAsign
  cases r.bx.msb with
  | true => exact ⟨_, rfl, rfl, rfl, long_neg r.bx r.ax⟩
  | false => exact ⟨r, rfl, rfl, rfl, rfl⟩

theorem ldivmod_eq (r : Regs) :
    ∃ s, ldivmod r = gotSigns s ∧ s.dx = high r.di ++ high r.bx ∧
      s.dicx = (if r.di.msb then -r.dicx else r.dicx) ∧
      s.bxax = if r.bx.msb then -r.bxax else r.bxax := by
  unfold ldivmod
  dsimp only
  cases r.di.msb with
  | true =>
      obtain ⟨s, heq, hdx, hdicx, hbxax⟩ := setAsign_eq { r with
        dx := high r.di ++ high r.bx
        di := (sbb (neg r.di).1 0#16 (neg r.cx).2).1
        cx := (neg r.cx).1 }
      exact ⟨s, heq, hdx, hdicx.trans (long_neg r.di r.cx), hbxax⟩
  | false =>
      obtain ⟨s, heq, hdx, hdicx, hbxax⟩ := setAsign_eq { r with dx := high r.di ++ high r.bx }
      exact ⟨s, heq, hdx, hdicx, hbxax⟩

theorem bounds_of_plus {b x : BitVec 32} (hb : b.msb = false) (hx : x.toNat < b.toNat) :
    0 ≤ x.toInt ∧ x.toInt < b.toInt := by
  have hhalf := BitVec.msb_eq_false_iff_two_mul_lt.mp hb
  rw [BitVec.toInt_eq_toNat_of_lt hhalf, BitVec.toInt_eq_toNat_of_lt (by omega)]
  omega

theorem bounds_of_minus {b x : BitVec 32} (hb : b.msb = true) (hx : x.toNat < (-b).toNat) :
    b.toInt < (-x).toInt ∧ (-x).toInt ≤ 0 := by
  have hhalf := BitVec.msb_eq_true_iff_two_mul_ge.mp hb
  have hlt := b.isLt
  have hltx := x.isLt
  rw [BitVec.toNat_neg] at hx
  rw [BitVec.toInt_eq_toNat_cond, BitVec.toInt_eq_toNat_cond, BitVec.toNat_neg]
  omega

theorem ldivmod_signed (r : Regs) :
    ∃ s, ldivmod r = .ok s ∧ DividesSigned r.bxax r.dicx s.dicx s.bxax := by
  obtain ⟨u, heq, hdx, hdicx, hbxax⟩ := ldivmod_eq r
  have hhigh : (high u.dx).msb = r.di.msb := by
    rw [hdx, high_append, msb_high]
  have hlow : (low u.dx).msb = r.bx.msb := by
    rw [hdx, low_append, msb_high]
  have hsign : r.dicx.msb = r.di.msb := msb_long r.di r.cx
  rw [heq]
  by_cases hzero : r.dicx = 0#32
  · have hquot : u.dicx = 0#32 := by
      rw [hdicx, hzero]
      split_ifs <;> rfl
    have hends : (divzero u.frame u).dicx = 0#32 ∧ (divzero u.frame u).bxax = r.bxax := by
      unfold divzero
      rw [hlow]
      cases hminus : r.bx.msb with
      | true =>
          rw [if_neg Bool.noConfusion, negr_dicx, negr_bxax, hbxax, hminus, if_pos rfl, neg_neg]
          exact ⟨hquot, rfl⟩
      | false =>
          rw [if_pos rfl, leave_dicx, leave_bxax, hbxax, hminus, if_neg Bool.false_ne_true]
          exact ⟨hquot, rfl⟩
    refine ⟨_, gotSigns_zero u hquot, ?_, fun _ => hends, ?_, ?_⟩
    · rw [hends.1, hends.2, hzero]
      exact (zero_add r.bxax).symm
    · intro hpos
      rw [hzero] at hpos
      exact absurd hpos (by decide)
    · intro hneg
      rw [hzero] at hneg
      exact absurd hneg (by decide)
  · have hpos : 0 < u.dicx.toNat := by
      rw [Nat.pos_iff_ne_zero, hdicx]
      intro h
      have hnone := BitVec.eq_of_toNat_eq (y := 0#32) h
      split_ifs at hnone
      · exact hzero (neg_eq_zero.mp hnone)
      · exact hzero hnone
    obtain ⟨s, hok, hdivided⟩ := gotSigns_spec u hpos
    obtain ⟨x, hx, hrem, hsum⟩ := zdivu1_spec (f := u.frame) (hdivided.less hpos)
    have hframe : u.frame.b = u.dicx := rfl
    rw [hframe] at hx hsum
    rw [hdivided.dx, hhigh] at hrem
    rw [hdivided.dx, hlow, hhigh, ← hdivided.sum, hbxax] at hsum
    refine ⟨_, hok, ?_, fun h => absurd h hzero, ?_, ?_⟩
    · rw [hdicx] at hsum
      rw [hrem]
      cases hminus : r.bx.msb <;> cases hminus' : r.di.msb <;>
        simp only [hminus, hminus', if_true, if_false, Bool.false_eq_true, Bool.true_eq_false,
          neg_neg] at hsum ⊢
      · exact hsum
      · linear_combination -hsum
      · exact hsum
      · linear_combination -hsum
    · intro hplus
      have hb : r.dicx.msb = false := by
        by_contra hminus
        exact absurd (BitVec.toInt_neg_of_msb_true (Bool.not_eq_false _ ▸ hminus)) (by omega)
      rw [← hsign, hb, if_neg Bool.false_ne_true] at hdicx hrem
      rw [hrem]
      exact bounds_of_plus hb (hdicx ▸ hx)
    · intro hminus
      have hb : r.dicx.msb = true := by
        by_contra hplus
        exact absurd (BitVec.toInt_nonneg_of_msb_false (Bool.not_eq_true _ ▸ hplus)) (by omega)
      rw [← hsign, hb, if_pos rfl] at hdicx hrem
      rw [hrem]
      exact bounds_of_minus hb (hdicx ▸ hx)

theorem zdivu1_zero {f : Frame} (h : r.dx = 0#16) : zdivu1 f r = leave f r := by
  unfold zdivu1
  rw [h]
  rfl

theorem divzero_zero {f : Frame} (h : r.dx = 0#16) : divzero f r = leave f r := by
  unfold divzero
  rw [h]
  rfl

theorem ludivmod_quot (r : Regs) (hpos : 0 < r.dicx.toNat) :
    ∃ s, ludivmod r = .ok s ∧ s.dicx.toNat = r.bxax.toNat / r.dicx.toNat ∧
      s.bxax.toNat = r.bxax.toNat % r.dicx.toNat := by
  obtain ⟨s, hok, hdivided⟩ := gotSigns_spec { r with dx := 0#16 } hpos
  rw [zdivu1_zero hdivided.dx] at hok
  exact ⟨_, hok, hdivided.quot, hdivided.rem⟩

theorem ludivmod_unsigned (r : Regs) :
    ∃ s, ludivmod r = .ok s ∧ DividesUnsigned r.bxax r.dicx s.dicx s.bxax := by
  by_cases hzero : r.dicx = 0#32
  · have hok := gotSigns_zero { r with dx := 0#16 } hzero
    rw [divzero_zero rfl] at hok
    refine ⟨_, hok, ?_, fun _ => ⟨hzero, rfl⟩, fun h => absurd hzero h⟩
    rw [leave_bxax, leave_dicx, hzero, BitVec.zero_mul, BitVec.zero_add]
    rfl
  · have hpos : 0 < r.dicx.toNat := Nat.pos_iff_ne_zero.mpr fun h =>
      hzero (BitVec.eq_of_toNat_eq h)
    obtain ⟨s, hok, hdivided⟩ := gotSigns_spec { r with dx := 0#16 } hpos
    rw [zdivu1_zero hdivided.dx] at hok
    exact ⟨_, hok, hdivided.sum, fun h => absurd h hzero, fun _ => hdivided.less hpos⟩

/-- Both routines come back, and leave what the header of the source says, whatever is in the
registers. -/
theorem ldivmod_divides (r : Regs) :
    (∃ s, ldivmod r = .ok s ∧ DividesSigned r.bxax r.dicx s.dicx s.bxax) ∧
      ∃ s, ludivmod r = .ok s ∧ DividesUnsigned r.bxax r.dicx s.dicx s.bxax :=
  ⟨ldivmod_signed r, ludivmod_unsigned r⟩

end Result

end I86
end Elks
