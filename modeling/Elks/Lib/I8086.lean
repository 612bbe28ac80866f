import Elks.Lib.Copy
import Mathlib.Data.BitVec

/-!
# Some instructions of the 8086

A register is a word of sixteen bits, and the arithmetic instructions that chain through
the carry flag give a word and a carry.  Each has one equation without a remainder, such as
`x + y = sum + 65536 * carry`.

A number of thirty-two bits stands in two registers, `long hi lo`.  The usual sequences for
such a pair (negate, subtract, shift by one, compare) are one lemma each.

The string instructions work on memory: `rep movsb` is a copy cell by cell
(`repMovsb_eq_copies`), and `rep scasb` looks for the first byte that is, or is not, the one
in `al`.
-/

namespace Elks
namespace Lib
namespace I8086

/-- What a register holds. -/
abbrev Word := BitVec 16

section Instructions

/-- `shl x,1` and the carry. -/
def shl (x : Word) : Word × Bool :=
  (x <<< 1, x.msb)

/-- `rcl x,1` with the carry `cf`. -/
def rcl (x : Word) (cf : Bool) : Word × Bool :=
  (x <<< 1 + BitVec.ofNat 16 cf.toNat, x.msb)

/-- `shr x,1`. -/
def shr (x : Word) : Word × Bool :=
  (x >>> 1, x.getLsbD 0)

/-- `rcr x,1`. -/
def rcr (x : Word) (cf : Bool) : Word × Bool :=
  (x >>> 1 + BitVec.ofNat 16 (32768 * cf.toNat), x.getLsbD 0)

/-- `neg x`. -/
def neg (x : Word) : Word × Bool :=
  (-x, decide (x ≠ 0))

/-- `add x,y`. -/
def add (x y : Word) : Word × Bool :=
  (x + y, decide (65536 ≤ x.toNat + y.toNat))

/-- `adc x,y`. -/
def adc (x y : Word) (cf : Bool) : Word × Bool :=
  (x + y + BitVec.ofNat 16 cf.toNat, decide (65536 ≤ x.toNat + y.toNat + cf.toNat))

/-- `sub x,y`. -/
def sub (x y : Word) : Word × Bool :=
  (x - y, decide (x.toNat < y.toNat))

/-- `sbb x,y`. -/
def sbb (x y : Word) (cf : Bool) : Word × Bool :=
  (x - y - BitVec.ofNat 16 cf.toNat, decide (x.toNat < y.toNat + cf.toNat))

/-- The carry and the zero flag. -/
structure Flags where
  cf : Bool
  zf : Bool

/-- `cmp x,y`. -/
def cmpWord (x y : Word) : Flags where
  cf := (sub x y).2
  zf := decide (x = y)

/-- `ja` jumps. -/
def Flags.above (f : Flags) : Bool :=
  !f.cf && !f.zf

/-- `jbe` jumps. -/
def Flags.belowEq (f : Flags) : Bool :=
  f.cf || f.zf

/-- `div y` on `dx:ax`: the quotient for `ax` and the remainder for `dx`, unless it traps. -/
def div (dx ax y : Word) : Option (Word × Word) :=
  let n := dx.toNat * 65536 + ax.toNat
  if y.toNat ≤ dx.toNat then none
  else some (BitVec.ofNat 16 (n / y.toNat), BitVec.ofNat 16 (n % y.toNat))

/-- The high byte of a register. -/
def high (x : Word) : BitVec 8 :=
  x.extractLsb' 8 8

/-- The low byte of a register. -/
def low (x : Word) : BitVec 8 :=
  x.extractLsb' 0 8

end Instructions

section Equations

variable (x y : Word) (cf : Bool)

theorem toNat_ofNat_bool : (BitVec.ofNat 16 cf.toNat).toNat = cf.toNat := by
  cases cf <;> rfl

theorem shl_eq : 2 * x.toNat = (shl x).1.toNat + 65536 * (shl x).2.toNat := by
  have hx := x.isLt
  simp only [shl, BitVec.toNat_shiftLeft, BitVec.msb_eq_decide]
  by_cases h : 2 ^ (16 - 1) ≤ x.toNat
  · simp only [h, decide_true, Bool.toNat_true]
    omega
  · simp only [h, decide_false, Bool.toNat_false]
    omega

theorem rcl_eq : 2 * x.toNat + cf.toNat = (rcl x cf).1.toNat + 65536 * (rcl x cf).2.toNat := by
  have hx := x.isLt
  have hcf := cf.toNat_le
  simp only [rcl, BitVec.toNat_add, toNat_ofNat_bool, BitVec.toNat_shiftLeft,
    BitVec.msb_eq_decide]
  by_cases h : 2 ^ (16 - 1) ≤ x.toNat
  · simp only [h, decide_true, Bool.toNat_true]
    omega
  · simp only [h, decide_false, Bool.toNat_false]
    omega

theorem getLsbD_zero_toNat : (x.getLsbD 0).toNat = x.toNat % 2 := by
  rw [BitVec.getLsbD, Nat.testBit_zero]
  rcases Nat.mod_two_eq_zero_or_one x.toNat with h | h
  · rw [h]
    rfl
  · rw [h]
    rfl

theorem shr_eq : x.toNat = 2 * (shr x).1.toNat + (shr x).2.toNat := by
  simp only [shr, BitVec.toNat_ushiftRight, getLsbD_zero_toNat, Nat.shiftRight_eq_div_pow]
  omega

theorem rcr_eq : x.toNat + 65536 * cf.toNat = 2 * (rcr x cf).1.toNat + (rcr x cf).2.toNat := by
  have hx := x.isLt
  simp only [rcr, BitVec.toNat_add, BitVec.toNat_ushiftRight, getLsbD_zero_toNat,
    Nat.shiftRight_eq_div_pow, BitVec.toNat_ofNat]
  cases cf
  · simp only [Bool.toNat_false]
    omega
  · simp only [Bool.toNat_true]
    omega

theorem neg_eq : x.toNat + (neg x).1.toNat = 65536 * (neg x).2.toNat := by
  have hx := x.isLt
  simp only [neg, BitVec.toNat_neg]
  by_cases h : x = 0
  · subst h
    rfl
  · have hpos : x.toNat ≠ 0 := fun h0 => h (BitVec.eq_of_toNat_eq h0)
    simp only [ne_eq, h, not_false_eq_true, decide_true, Bool.toNat_true]
    omega

theorem add_eq : x.toNat + y.toNat = (add x y).1.toNat + 65536 * (add x y).2.toNat := by
  have hx := x.isLt
  have hy := y.isLt
  simp only [add, BitVec.toNat_add]
  by_cases h : 65536 ≤ x.toNat + y.toNat
  · simp only [h, decide_true, Bool.toNat_true]
    omega
  · simp only [h, decide_false, Bool.toNat_false]
    omega

theorem adc_eq :
    x.toNat + y.toNat + cf.toNat = (adc x y cf).1.toNat + 65536 * (adc x y cf).2.toNat := by
  have hx := x.isLt
  have hy := y.isLt
  have hcf := cf.toNat_le
  simp only [adc, BitVec.toNat_add, toNat_ofNat_bool]
  by_cases h : 65536 ≤ x.toNat + y.toNat + cf.toNat
  · simp only [h, decide_true, Bool.toNat_true]
    omega
  · simp only [h, decide_false, Bool.toNat_false]
    omega

theorem sub_eq : x.toNat + 65536 * (sub x y).2.toNat = y.toNat + (sub x y).1.toNat := by
  have hx := x.isLt
  have hy := y.isLt
  simp only [sub, BitVec.toNat_sub]
  by_cases h : x.toNat < y.toNat
  · simp only [h, decide_true, Bool.toNat_true]
    omega
  · simp only [h, decide_false, Bool.toNat_false]
    omega

theorem sbb_eq :
    x.toNat + 65536 * (sbb x y cf).2.toNat = y.toNat + cf.toNat + (sbb x y cf).1.toNat := by
  have hx := x.isLt
  have hy := y.isLt
  have hcf := cf.toNat_le
  simp only [sbb, BitVec.toNat_sub, toNat_ofNat_bool]
  by_cases h : x.toNat < y.toNat + cf.toNat
  · simp only [h, decide_true, Bool.toNat_true]
    omega
  · simp only [h, decide_false, Bool.toNat_false]
    omega

/-- A division that does not trap. -/
theorem div_of_lt {dx y : Word} (ax : Word) (h : dx.toNat < y.toNat) :
    ∃ q r, div dx ax y = some (q, r) ∧
      q.toNat = (dx.toNat * 65536 + ax.toNat) / y.toNat ∧
      r.toNat = (dx.toNat * 65536 + ax.toNat) % y.toNat := by
  have hax := ax.isLt
  have hy := y.isLt
  have hq : (dx.toNat * 65536 + ax.toNat) / y.toNat < 65536 := by
    rw [Nat.div_lt_iff_lt_mul (by omega)]
    omega
  have hr := Nat.mod_lt (dx.toNat * 65536 + ax.toNat) (by omega : 0 < y.toNat)
  refine ⟨_, _, if_neg (not_le.mpr h), ?_, ?_⟩
  · rw [BitVec.toNat_ofNat]
    exact Nat.mod_eq_of_lt hq
  · rw [BitVec.toNat_ofNat]
    exact Nat.mod_eq_of_lt (by omega)

end Equations

section Bytes

theorem msb_high (x : Word) : (high x).msb = x.msb := by
  rw [BitVec.msb_eq_getLsbD_last, BitVec.msb_eq_getLsbD_last]
  simp [high]

variable (x y : BitVec 8)

theorem toNat_word_of_bytes : (x ++ y : Word).toNat = 256 * x.toNat + y.toNat := by
  rw [BitVec.toNat_append, ← Nat.shiftLeft_add_eq_or_of_lt y.isLt, Nat.shiftLeft_eq]
  omega

theorem high_append : high (x ++ y) = x := by
  have hx := x.isLt
  have hy := y.isLt
  apply BitVec.eq_of_toNat_eq
  rw [high, BitVec.extractLsb'_toNat, toNat_word_of_bytes, Nat.shiftRight_eq_div_pow]
  omega

theorem low_append : low (x ++ y) = y := by
  have hy := y.isLt
  apply BitVec.eq_of_toNat_eq
  rw [low, BitVec.extractLsb'_toNat, toNat_word_of_bytes, Nat.shiftRight_zero]
  omega

end Bytes

section Pairs

/-- The number in two registers. -/
def long (hi lo : Word) : BitVec 32 :=
  hi ++ lo

variable (hi lo hi' lo' : Word)

theorem toNat_long : (long hi lo).toNat = 65536 * hi.toNat + lo.toNat := by
  rw [long, BitVec.toNat_append, ← Nat.shiftLeft_add_eq_or_of_lt lo.isLt, Nat.shiftLeft_eq]
  omega

theorem msb_long : (long hi lo).msb = hi.msb := by
  rw [long, BitVec.msb_append]
  rfl

theorem long_zero : long 0#16 0#16 = 0#32 := by
  decide

theorem long_inj {hi lo hi' lo' : Word} (h : (long hi lo).toNat = (long hi' lo').toNat) :
    hi = hi' ∧ lo = lo' := by
  have hlo := lo.isLt
  have hlo' := lo'.isLt
  rw [toNat_long, toNat_long] at h
  exact ⟨BitVec.eq_of_toNat_eq (by omega), BitVec.eq_of_toNat_eq (by omega)⟩

theorem long_eq_zero : long hi lo = 0#32 ↔ hi ||| lo = 0#16 := by
  rw [BitVec.or_eq_zero_iff]
  constructor
  · intro h
    have hzero := congrArg BitVec.toNat h
    rw [toNat_long, BitVec.toNat_zero] at hzero
    exact ⟨BitVec.eq_of_toNat_eq (by rw [BitVec.toNat_zero]; omega),
      BitVec.eq_of_toNat_eq (by rw [BitVec.toNat_zero]; omega)⟩
  · rintro ⟨rfl, rfl⟩
    rfl

/-- `neg hi; neg lo; sbb hi,0`. -/
theorem long_neg : long (sbb (neg hi).1 0#16 (neg lo).2).1 (neg lo).1 = -long hi lo := by
  have hhi := neg_eq hi
  have hlo := neg_eq lo
  have hsbb := sbb_eq (neg hi).1 0#16 (neg lo).2
  have hlt := lo.isLt
  have hcf := (neg lo).2.toNat_le
  apply BitVec.eq_of_toNat_eq
  rw [BitVec.toNat_neg, toNat_long, toNat_long]
  rw [BitVec.toNat_zero] at hsbb
  omega

/-- `sub lo,lo'; sbb hi,hi'`. -/
theorem long_sub :
    long (sbb hi hi' (sub lo lo').2).1 (sub lo lo').1 = long hi lo - long hi' lo' := by
  have hlo := sub_eq lo lo'
  have hhi := sbb_eq hi hi' (sub lo lo').2
  apply BitVec.eq_of_toNat_eq
  rw [BitVec.toNat_sub, toNat_long, toNat_long, toNat_long]
  omega

/-- `add lo,1; adc hi,0`. -/
theorem long_inc : long (adc hi 0#16 (add lo 1#16).2).1 (add lo 1#16).1 = long hi lo + 1#32 := by
  have hlo := add_eq lo 1#16
  have hhi := adc_eq hi 0#16 (add lo 1#16).2
  have hone : (1#16).toNat = 1 := rfl
  have hone' : (1#32).toNat = 1 := rfl
  apply BitVec.eq_of_toNat_eq
  rw [BitVec.toNat_add, toNat_long, toNat_long, hone']
  rw [hone] at hlo
  rw [BitVec.toNat_zero] at hhi
  omega

/-- `not lo; not hi`. -/
theorem long_not : long (~~~hi) (~~~lo) = -long hi lo - 1#32 := by
  rw [long, ← BitVec.not_append, BitVec.neg_eq_not_add, BitVec.add_sub_cancel]
  rfl

/-- `shl lo,1; rcl hi,1`, and the carry. -/
theorem long_shl :
    2 * (long hi lo).toNat =
      (long (rcl hi (shl lo).2).1 (shl lo).1).toNat +
        4294967296 * (rcl hi (shl lo).2).2.toNat := by
  have hlo := shl_eq lo
  have hhi := rcl_eq hi (shl lo).2
  rw [toNat_long, toNat_long]
  omega

/-- `rcr hi,1; rcr lo,1` with the carry `cf`. -/
theorem long_rcr (cf : Bool) :
    (long hi lo).toNat + 4294967296 * cf.toNat =
      2 * (long (rcr hi cf).1 (rcr lo (rcr hi cf).2).1).toNat +
        (rcr lo (rcr hi cf).2).2.toNat := by
  have hhi := rcr_eq hi cf
  have hlo := rcr_eq lo (rcr hi cf).2
  rw [toNat_long, toNat_long]
  omega

/-- `rcr hi,1; rcr lo,1` takes `shl lo,1; rcl hi,1` back. -/
theorem rcr_rcl {hi₁ lo₁ : Word} {c cf : Bool}
    (hlo₁ : shl lo = (lo₁, c)) (hhi₁ : rcl hi c = (hi₁, cf)) :
    (rcr hi₁ cf).1 = hi ∧ (rcr lo₁ (rcr hi₁ cf).2).1 = lo := by
  have hshl := long_shl hi lo
  have hrcr := long_rcr hi₁ lo₁ cf
  have hbit := (rcr lo₁ (rcr hi₁ cf).2).2.toNat_le
  rw [hlo₁, hhi₁] at hshl
  dsimp only at hshl
  exact long_inj (by omega)

/-- `shr hi,1; rcr lo,1`. -/
theorem long_shr :
    (long hi lo).toNat =
      2 * (long (shr hi).1 (rcr lo (shr hi).2).1).toNat + (rcr lo (shr hi).2).2.toNat := by
  have hhi := shr_eq hi
  have hlo := rcr_eq lo (shr hi).2
  rw [toNat_long, toNat_long]
  omega

variable (x y : Word)

theorem cmpWord_cf : (cmpWord x y).cf = true ↔ x.toNat < y.toNat := by
  exact decide_eq_true_iff

theorem cmpWord_zf : (cmpWord x y).zf = true ↔ x.toNat = y.toNat := by
  rw [cmpWord, decide_eq_true_iff]
  exact BitVec.toNat_inj.symm

theorem cmpWord_above : (cmpWord x y).above = true ↔ y.toNat < x.toNat := by
  have hcf := cmpWord_cf x y
  have hzf := cmpWord_zf x y
  unfold Flags.above
  rw [Bool.and_eq_true, Bool.not_eq_true', Bool.not_eq_true', ← Bool.not_eq_true,
    ← Bool.not_eq_true, hcf, hzf]
  omega

theorem cmpWord_belowEq : (cmpWord x y).belowEq = !(cmpWord x y).above := by
  rw [Flags.belowEq, Flags.above, Bool.not_and, Bool.not_not, Bool.not_not]

/-- Numbers in two registers are compared by their high words first; if these are equal, the
low ones decide. -/
theorem cmpWord_pair :
    (cmpWord hi hi').cf = true ∧ (long hi lo).toNat < (long hi' lo').toNat ∨
    (cmpWord hi hi').cf = false ∧ (cmpWord hi hi').above = true ∧
      (long hi' lo').toNat < (long hi lo).toNat ∨
    (cmpWord hi hi').cf = false ∧ (cmpWord hi hi').above = false ∧
      ((cmpWord lo lo').cf = true ↔ (long hi lo).toNat < (long hi' lo').toNat) ∧
      ((cmpWord lo lo').above = true ↔ (long hi' lo').toNat < (long hi lo).toNat) := by
  have hlo := lo.isLt
  have hlo' := lo'.isLt
  rw [← Bool.not_eq_true, ← Bool.not_eq_true, cmpWord_cf, cmpWord_cf, cmpWord_above,
    cmpWord_above, toNat_long, toNat_long]
  omega

end Pairs

section Strings

/-- The address of `seg:off`: twenty lines of it, or twenty-one with `a20`. -/
def linear (a20 : Bool) (seg off : Word) : Nat :=
  if a20 then seg.toNat * 16 + off.toNat else (seg.toNat * 16 + off.toNat) % 1048576

/-- The next offset: downwards after `std`. -/
def advance (df : Bool) (x : Word) : Word :=
  if df then x - 1#16 else x + 1#16

/-- `rep movsb` with a count of `cx`. -/
def repMovsb (a20 df : Bool) (ds es : Word) :
    Nat → Word → Word → (Nat → UInt8) → Nat → UInt8
  | 0, _, _, m => m
  | cx + 1, si, di, m =>
      repMovsb a20 df ds es cx (advance df si) (advance df di)
        (Function.update m (linear a20 es di) (m (linear a20 ds si)))

/-- `rep scasb` (with `zf`) and `repne scasb` upwards from `di`, with a count of `cx`: the
`di` behind the last byte that has been compared with `al`. -/
def repScasb (zf : Bool) (mem : Word → UInt8) (al : UInt8) : Nat → Word → Word
  | 0, di => di
  | cx + 1, di =>
      if decide (al = mem di) = zf then repScasb zf mem al cx (di + 1#16) else di + 1#16

/-- The offset after `i` steps. -/
def advanced (df : Bool) (x : Word) (i : Nat) : Word :=
  if df then x - BitVec.ofNat 16 i else x + BitVec.ofNat 16 i

variable {a20 df : Bool} {ds es : Word}

theorem advanced_succ (df : Bool) (x : Word) (i : Nat) :
    advanced df (advance df x) i = advanced df x (i + 1) := by
  unfold advanced advance
  rw [Nat.add_comm i 1, BitVec.ofNat_add]
  cases df
  · exact BitVec.add_assoc x _ _
  · exact sub_sub x _ _

theorem repMovsb_eq_copies (n : Nat) (si di : Word) (m : Nat → UInt8) :
    repMovsb a20 df ds es n si di m =
      copies m (fun i => linear a20 ds (advanced df si i))
        (fun i => linear a20 es (advanced df di i)) n := by
  induction n generalizing si di m with
  | zero => rfl
  | succ n ih =>
      have hstart (x : Word) : advanced df x 0 = x := by
        cases df
        · exact BitVec.add_zero x
        · exact BitVec.sub_zero x
      rw [repMovsb, ih, copies_succ, hstart, hstart]
      simp only [advanced_succ]

section Scan

variable {zf : Bool} {mem : Word → UInt8} {al : UInt8} {n cx : Nat}

theorem add_ofNat_succ (x : Word) (n : Nat) :
    x + 1#16 + BitVec.ofNat 16 n = x + BitVec.ofNat 16 (n + 1) := by
  rw [Nat.add_comm n 1, BitVec.ofNat_add, BitVec.add_assoc]

/-- A scan ends behind the first byte that ends the repetition. -/
theorem repScasb_found (di : Word) (hn : n < cx)
    (hbefore : ∀ i < n, decide (al = mem (di + BitVec.ofNat 16 i)) = zf)
    (hfound : decide (al = mem (di + BitVec.ofNat 16 n)) ≠ zf) :
    repScasb zf mem al cx di = di + BitVec.ofNat 16 (n + 1) := by
  obtain ⟨cx, rfl⟩ : ∃ k, cx = k + 1 := ⟨cx - 1, by omega⟩
  induction n generalizing cx di with
  | zero =>
      have hstop : decide (al = mem di) ≠ zf := by
        rwa [(BitVec.add_zero di : di + BitVec.ofNat 16 0 = di)] at hfound
      rw [repScasb, if_neg hstop]
  | succ n ih =>
      have hgoes : decide (al = mem di) = zf := by
        have h := hbefore 0 (Nat.succ_pos n)
        rwa [(BitVec.add_zero di : di + BitVec.ofNat 16 0 = di)] at h
      obtain ⟨cx, rfl⟩ : ∃ k, cx = k + 1 := ⟨cx - 1, by omega⟩
      have hrest := ih (di + 1#16) (fun i hi => by
        rw [add_ofNat_succ]
        exact hbefore (i + 1) (by omega)) (by rwa [add_ofNat_succ]) cx (by omega)
      rw [repScasb, if_pos hgoes, hrest, add_ofNat_succ]

/-- A scan compares one byte at least, and no more than its count. -/
theorem repScasb_bounds (zf : Bool) (mem : Word → UInt8) (al : UInt8) (di : Word) (hpos : 0 < cx) :
    ∃ k, 0 < k ∧ k ≤ cx ∧ repScasb zf mem al cx di = di + BitVec.ofNat 16 k := by
  obtain ⟨cx, rfl⟩ : ∃ k, cx = k + 1 := ⟨cx - 1, by omega⟩
  induction cx generalizing di with
  | zero =>
      refine ⟨1, Nat.one_pos, le_refl 1, ?_⟩
      rw [repScasb, repScasb, ite_self]
  | succ cx ih =>
      rw [repScasb]
      split_ifs
      · obtain ⟨k, hk, hle, heq⟩ := ih (di + 1#16) (Nat.succ_pos cx)
        refine ⟨k + 1, Nat.succ_pos k, by omega, ?_⟩
        rw [heq, add_ofNat_succ]
      · exact ⟨1, Nat.one_pos, by omega, rfl⟩

end Scan

end Strings

end I8086
end Lib
end Elks
