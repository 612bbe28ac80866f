import Elks.I86.Ldivmod
import Mathlib.Data.Nat.Digits.Lemmas

/-!
# Numbers for printk (kernel/printk.c, arch/i86/lib/ldivul.s, arch/i86/lib/lmodul.s)

`numout` makes the digits of a number from the end of a buffer of 32 bytes on, pads them, and
writes them to the console.  A minus goes to the console before all that.

Every digit takes two divisions of long integers by `ludivmod`.  A store outside the buffer
is a trap here, and so is a digit that the table of digits does not have.  The bytes are
those of a kernel without CONFIG_DCON_ANSI_PRINTK, which colours what it writes.

`formatted` is what is to be written.

**Results.**  `digitLoop_eq`, `padLoop_eq`: the two loops stay in the buffer.  `numout_eq`:
what is written for every number.  `numout_formats_iff`: it is what was to be written exactly
when the number is not negative or has as many digits as there are columns.
-/

namespace Elks
namespace Kernel
namespace Printk

open Lib.I8086 I86

/-- What must not happen: a store outside `buf` or a digit that there is none of, and a
division that does not come back. -/
inductive Trap
  | outside
  | division (fault : Lib.Fault)
deriving DecidableEq

/-- A character as a byte. -/
def byte (c : Char) : UInt8 :=
  c.toUInt8

section Division

variable (r : Regs) (v base : BitVec 32)

/-- The high and the low word of a long integer. -/
def hi (v : BitVec 32) : Word :=
  v.extractLsb' 16 16

def lo (v : BitVec 32) : Word :=
  v.setWidth 16

/-- The long integer `v` in `bx:ax`. -/
def load : Regs :=
  { r with bx := hi v, ax := lo v }

/-- `lmodul` with a pointer to `base` in `di`. -/
def lmodul : Except Lib.Fault Regs :=
  ludivmod { r with cx := lo base, di := hi base }

/-- `ldivul` with a pointer to `base` in `di`. -/
def ldivul : Except Lib.Fault Regs := do
  let r ← ludivmod { r with cx := lo base, di := hi base }
  return { r with ax := r.cx, cx := r.ax, bx := r.di, di := r.bx }

/-- `v % base`, with something in the other registers. -/
def modulo : Except Trap (BitVec 32) :=
  match lmodul (load r v) base with
  | .ok s => .ok s.bxax
  | .error e => .error (.division e)

/-- `v / base`. -/
def quotient : Except Trap (BitVec 32) :=
  match ldivul (load r v) base with
  | .ok s => .ok s.bxax
  | .error e => .error (.division e)

end Division

section Code

/-- `hex_string` and `hex_lower`. -/
def hexString : List UInt8 :=
  ['0', '1', '2', '3', '4', '5', '6', '7', '8', '9', 'A', 'B', 'C', 'D', 'E', 'F'].map byte

def hexLower : List UInt8 :=
  ['0', '1', '2', '3', '4', '5', '6', '7', '8', '9', 'a', 'b', 'c', 'd', 'e', 'f'].map byte

/-- The byte `i` of a string. -/
def charAt (l : List UInt8) (i : BitVec 32) : Except Trap UInt8 :=
  if h : i.toNat < l.length then .ok l[i.toNat] else .error .outside

/-- A store into `buf[32]`. -/
def put (buf : Nat → UInt8) (bp : Nat) (c : UInt8) : Except Trap (Nat → UInt8) :=
  if bp < 32 then .ok (Function.update buf bp c) else .error .outside

/-- What `con_write` sends to the console. -/
def conWrite (text : List UInt8) : List UInt8 :=
  text.flatMap fun c => if c = byte '\n' then [byte '\r', c] else [c]

/-- The first loop: `bp` is the place behind the one that the next digit goes to. -/
def digitLoop (r : Regs) (Upper : Bool) (base : Word) :
    Nat → BitVec 32 → (Nat → UInt8) → Except Trap ((Nat → UInt8) × Nat)
  | 0, _, _ => .error .outside
  | bp + 1, v, buf => do
      let i ← modulo r v (base.signExtend 32)
      let c ← charAt (if Upper then hexString else hexLower) i
      let buf ← put buf bp c
      let v ← quotient r v (base.signExtend 32)
      if v ≠ 0 ∧ 0 < bp then digitLoop r Upper base bp v buf else return (buf, bp)

/-- The second loop. -/
def padLoop (width : Int) (fill : UInt8) :
    Nat → (Nat → UInt8) → Except Trap ((Nat → UInt8) × Nat)
  | 0, buf => if 31 < width then .error .outside else .ok (buf, 0)
  | bp + 1, buf =>
      if (31 : Int) - ↑(bp + 1) < width then do
        let buf ← put buf bp fill
        padLoop width fill bp buf
      else
        .ok (buf, bp + 1)

/-- The bytes from `bp` up to the last but one. -/
def shown (buf : Nat → UInt8) (bp : Nat) : List UInt8 :=
  (List.range' bp (31 - bp)).map buf

/-- `*((short *) ptr)`. -/
def short (ptr : Nat → UInt8) : Word :=
  (ptr 1).toBitVec ++ (ptr 0).toBitVec

/-- `*((long *) ptr)`. -/
def longAt (ptr : Nat → UInt8) : BitVec 32 :=
  long ((ptr 3).toBitVec ++ (ptr 2).toBitVec) (short ptr)

/-- The number as it is divided, what is written in front, and the buffer. -/
def takeSign (buf ptr : Nat → UInt8) (len : Nat) (useSign : Bool) :
    Except Trap (BitVec 32 × List UInt8 × (Nat → UInt8)) :=
  if useSign then
    let vs := if len = 2 then (short ptr).signExtend 32 else longAt ptr
    if vs.slt 0 then do
      let buf ← put buf 31 (byte '-')
      return (-vs, conWrite [buf 31], buf)
    else
      return (vs, [], buf)
  else
    return (if len = 2 then (short ptr).setWidth 32 else longAt ptr, [], buf)

/-- `numout`; `buf` is what the buffer holds at first, and `r` what is in the registers. -/
def numout (r : Regs) (buf ptr : Nat → UInt8) (len : Nat) (width : Int) (base : Word)
    (useSign Upper Zero : Bool) : Except Trap (List UInt8) := do
  let width := if 31 < width then 31 else width
  let (v, sign, buf) ← takeSign buf ptr len useSign
  let buf ← put buf 31 0
  let (buf, bp) ← digitLoop r Upper base 31 v buf
  let (buf, bp) ← padLoop width (if Zero then byte '0' else byte ' ') bp buf
  return sign ++ conWrite (shown buf bp)

end Code

section Purpose

/-- The number that is to be written. -/
def value (ptr : Nat → UInt8) (len : Nat) (useSign : Bool) : Int :=
  if useSign then (if len = 2 then (short ptr).toInt else (longAt ptr).toInt)
  else (if len = 2 then ((short ptr).toNat : Int) else (longAt ptr).toNat)

/-- A digit. -/
def digit (Upper : Bool) (d : Nat) : UInt8 :=
  if d < 10 then byte '0' + UInt8.ofNat d
  else byte (if Upper then 'A' else 'a') + UInt8.ofNat (d - 10)

/-- The shortest representation of a number. -/
def numeral (Upper : Bool) (base n : Nat) : List UInt8 :=
  (if n = 0 then [0] else (Nat.digits base n).reverse).map (digit Upper)

/-- A number with its sign. -/
def spelled (Upper : Bool) (base : Nat) (x : Int) : List UInt8 :=
  (if x < 0 then [byte '-'] else []) ++ numeral Upper base x.natAbs

/-- A number on the right of so many columns. -/
def formatted (Upper Zero : Bool) (base width : Nat) (x : Int) : List UInt8 :=
  List.leftpad width (if Zero then byte '0' else byte ' ') (spelled Upper base x)

end Purpose

section Values

variable {r : Regs} {v base : BitVec 32} {Upper : Bool} {b n k : Nat}

theorem long_hi_lo (v : BitVec 32) : long (hi v) (lo v) = v := by
  apply BitVec.eq_of_toNat_eq
  have hlt := v.isLt
  rw [toNat_long, hi, lo, BitVec.extractLsb'_toNat, BitVec.toNat_setWidth,
    Nat.shiftRight_eq_div_pow]
  omega

theorem ludivmod_load (r : Regs) (hbase : 0 < base.toNat) :
    ∃ s, ludivmod { load r v with cx := lo base, di := hi base } = .ok s ∧
      s.dicx = v / base ∧ s.bxax = v % base := by
  have hdividend : ({ load r v with cx := lo base, di := hi base } : Regs).bxax = v :=
    long_hi_lo v
  have hdivisor : ({ load r v with cx := lo base, di := hi base } : Regs).dicx = base :=
    long_hi_lo base
  obtain ⟨s, hok, hquot, hrem⟩ := ludivmod_quot { load r v with cx := lo base, di := hi base }
    (by rwa [hdivisor])
  rw [hdividend, hdivisor] at hquot hrem
  exact ⟨s, hok, BitVec.eq_of_toNat_eq (hquot.trans BitVec.toNat_udiv.symm),
    BitVec.eq_of_toNat_eq (hrem.trans BitVec.toNat_umod.symm)⟩

theorem modulo_eq (hbase : 0 < base.toNat) : modulo r v base = .ok (v % base) := by
  obtain ⟨s, hok, -, hrem⟩ := ludivmod_load (v := v) r hbase
  unfold modulo lmodul
  rw [hok, ← hrem]

theorem quotient_eq (hbase : 0 < base.toNat) : quotient r v base = .ok (v / base) := by
  obtain ⟨s, hok, hquot, -⟩ := ludivmod_load (v := v) r hbase
  unfold quotient ldivul
  rw [hok, ← hquot]
  rfl

theorem charAt_eq {i : BitVec 32} (hi : i.toNat < 16) :
    charAt (if Upper then hexString else hexLower) i = .ok (digit Upper i.toNat) := by
  obtain ⟨d, hd⟩ : ∃ d : Fin 16, i.toNat = d := ⟨⟨i.toNat, hi⟩, rfl⟩
  have htable : ∀ (U : Bool) (d : Fin 16),
      (if U then hexString else hexLower)[(d : Nat)]? = some (digit U d) := by
    decide
  have hentry := htable Upper d
  rw [← hd] at hentry
  obtain ⟨hlt, hget⟩ := List.getElem?_eq_some_iff.mp hentry
  unfold charAt
  rw [dif_pos hlt, hget]

theorem numeral_eq (hb : 1 < b) (n : Nat) :
    numeral Upper b n =
      (if n / b = 0 then [] else numeral Upper b (n / b)) ++ [digit Upper (n % b)] := by
  unfold numeral
  by_cases hzero : n = 0
  · rw [hzero, Nat.zero_div, if_pos rfl, if_pos rfl, Nat.zero_mod]
    rfl
  · rw [if_neg hzero, Nat.digits_def' hb (Nat.pos_of_ne_zero hzero), List.reverse_cons,
      List.map_append]
    split_ifs with hquot
    · rw [hquot, Nat.digits_zero]
      rfl
    · rfl

theorem numeral_length_le_iff (Upper : Bool) (n : Nat) (hb : 1 < b) (hk : 0 < k) :
    (numeral Upper b n).length ≤ k ↔ n < b ^ k := by
  unfold numeral
  rw [List.length_map]
  split_ifs with hzero
  · rw [hzero]
    exact iff_of_true hk (Nat.pow_pos (by omega))
  · rw [List.length_reverse, Nat.digits_length_le_iff hb]

theorem numeral_length_pos (Upper : Bool) (n : Nat) (hb : 1 < b) :
    0 < (numeral Upper b n).length := by
  rw [numeral_eq hb, List.length_append]
  exact Nat.succ_pos _

theorem shown_put {buf : Nat → UInt8} {bp : Nat} (c : UInt8) (hbp : bp < 31) :
    shown (Function.update buf bp c) bp = c :: shown buf (bp + 1) := by
  obtain ⟨m, hm⟩ : ∃ m, 31 - bp = m + 1 := ⟨30 - bp, by omega⟩
  have hm' : 31 - (bp + 1) = m := by omega
  unfold shown
  rw [hm, hm', List.range'_succ, List.map_cons, Function.update_self]
  refine congrArg _ (List.map_congr_left fun i hi => Function.update_of_ne ?_ _ _)
  have hbounds := List.mem_range'_1.mp hi
  omega

theorem conWrite_eq {text : List UInt8} (h : byte '\n' ∉ text) : conWrite text = text := by
  induction text with
  | nil => rfl
  | cons c text ih =>
      rw [List.mem_cons, not_or] at h
      unfold conWrite
      rw [List.flatMap_cons, if_neg (Ne.symm h.1)]
      exact congrArg (c :: ·) (ih h.2)

end Values

section Loops

variable {r : Regs} {v : BitVec 32} {base : Word} {Upper : Bool} {bp : Nat}
  {buf : Nat → UInt8} {width : Int} {fill : UInt8}

theorem digitLoop_eq (r : Regs) (buf : Nat → UInt8) (hb : 1 < (base.signExtend 32).toNat)
    (hb' : (base.signExtend 32).toNat ≤ 16) (hbp : bp ≤ 31)
    (hroom : (numeral Upper (base.signExtend 32).toNat v.toNat).length ≤ bp) :
    ∃ buf' bp', digitLoop r Upper base bp v buf = .ok (buf', bp') ∧
      shown buf' bp' = numeral Upper (base.signExtend 32).toNat v.toNat ++ shown buf bp ∧
      bp' + (numeral Upper (base.signExtend 32).toNat v.toNat).length = bp := by
  induction bp generalizing v buf with
  | zero =>
      have hpos := numeral_length_pos Upper v.toNat hb
      omega
  | succ bp ih =>
      have hpos : 0 < (base.signExtend 32).toNat := by omega
      have hdigit : (v % base.signExtend 32).toNat < 16 := by
        rw [BitVec.toNat_umod]
        exact (Nat.mod_lt _ hpos).trans_le hb'
      have hquot : (v / base.signExtend 32).toNat = v.toNat / (base.signExtend 32).toNat :=
        BitVec.toNat_udiv
      have hlast : digit Upper (v % base.signExtend 32).toNat =
          digit Upper (v.toNat % (base.signExtend 32).toNat) := by
        rw [BitVec.toNat_umod]
      have hnil : v / base.signExtend 32 = 0 ↔ v.toNat / (base.signExtend 32).toNat = 0 := by
        rw [← hquot]
        exact BitVec.toNat_eq
      rw [digitLoop, modulo_eq hpos, quotient_eq hpos]
      simp only [bind, Except.bind]
      rw [charAt_eq hdigit, hlast]
      simp only [put, if_pos (by omega : bp < 32)]
      rw [numeral_eq hb] at hroom ⊢
      rw [List.length_append, List.length_singleton] at hroom ⊢
      by_cases hzero : v.toNat / (base.signExtend 32).toNat = 0
      · rw [if_pos hzero, List.nil_append, if_neg (fun h => h.1 (hnil.mpr hzero))]
        exact ⟨_, bp, rfl, shown_put _ (by omega), by simp⟩
      · rw [if_neg hzero] at hroom ⊢
        have hlen := numeral_length_pos Upper (v.toNat / (base.signExtend 32).toNat) hb
        rw [if_pos ⟨mt hnil.mp hzero, by omega⟩]
        obtain ⟨buf', bp', hok, hshown, hsum⟩ :=
          ih (v := v / base.signExtend 32) _ (by omega) (by rw [hquot]; omega)
        rw [hquot] at hshown hsum
        refine ⟨buf', bp', hok, ?_, by omega⟩
        rw [hshown, shown_put _ (by omega), List.append_assoc]
        rfl

theorem shown_length (buf : Nat → UInt8) (bp : Nat) : (shown buf bp).length = 31 - bp := by
  unfold shown
  rw [List.length_map, List.length_range']

theorem leftpad_of_le {l : List UInt8} {n : Nat} (h : n ≤ l.length) :
    List.leftpad n fill l = l := by
  rw [List.leftpad, Nat.sub_eq_zero_of_le h]
  rfl

theorem leftpad_cons {l : List UInt8} {n : Nat} (h : l.length < n) :
    List.leftpad n fill (fill :: l) = List.leftpad n fill l := by
  obtain ⟨m, hm⟩ : ∃ m, n - l.length = m + 1 := ⟨n - l.length - 1, by omega⟩
  have hm' : n - (fill :: l).length = m := by
    rw [List.length_cons]
    omega
  rw [List.leftpad, List.leftpad, hm, hm', List.replicate_succ', List.append_assoc]
  rfl

theorem padLoop_eq (fill : UInt8) (buf : Nat → UInt8) (hwidth : width ≤ 31) (hbp : bp ≤ 31) :
    ∃ buf' bp', padLoop width fill bp buf = .ok (buf', bp') ∧
      shown buf' bp' = List.leftpad width.toNat fill (shown buf bp) := by
  induction bp generalizing buf with
  | zero =>
      rw [padLoop, if_neg (by omega), leftpad_of_le (by rw [shown_length]; omega)]
      exact ⟨buf, 0, rfl, rfl⟩
  | succ bp ih =>
      rw [padLoop]
      split_ifs with hmissing
      · simp only [put, if_pos (by omega : bp < 32), bind, Except.bind]
        obtain ⟨buf', bp', hok, hshown⟩ := ih (Function.update buf bp fill) (by omega)
        refine ⟨buf', bp', hok, ?_⟩
        rw [hshown, shown_put _ (by omega), leftpad_cons]
        rw [shown_length]
        omega
      · rw [leftpad_of_le (by rw [shown_length]; omega)]
        exact ⟨buf, bp + 1, rfl, rfl⟩

end Loops

section Result

variable {r : Regs} {buf ptr : Nat → UInt8} {len : Nat} {width : Int} {base : Word}
  {useSign Upper Zero : Bool} {fill : UInt8} {b n w : Nat} {x : Int}

theorem natAbs_of_not_slt {v : BitVec 32} (h : ¬v.slt 0) :
    v.toNat = v.toInt.natAbs ∧ ¬v.toInt < 0 := by
  have hnot : ¬v.toInt < 0 := fun hneg => h (BitVec.slt_iff_toInt_lt.mpr hneg)
  have hlt := v.isLt
  rw [BitVec.toInt_eq_toNat_cond] at hnot ⊢
  omega

theorem natAbs_of_slt {v : BitVec 32} (h : v.slt 0) :
    (-v).toNat = v.toInt.natAbs ∧ v.toInt < 0 := by
  have hneg : v.toInt < 0 := BitVec.slt_iff_toInt_lt.mp h
  have hlt := v.isLt
  refine ⟨?_, hneg⟩
  rw [BitVec.toNat_neg]
  rw [BitVec.toInt_eq_toNat_cond] at hneg ⊢
  omega

theorem takeSign_eq (buf ptr : Nat → UInt8) (len : Nat) (useSign : Bool) :
    ∃ v buf', takeSign buf ptr len useSign =
        .ok (v, if value ptr len useSign < 0 then [byte '-'] else [], buf') ∧
      v.toNat = (value ptr len useSign).natAbs := by
  unfold takeSign value
  cases useSign with
  | true =>
      have hvalue :
          ((if len = 2 then (short ptr).signExtend 32 else longAt ptr) : BitVec 32).toInt =
            if len = 2 then (short ptr).toInt else (longAt ptr).toInt := by
        split_ifs
        · exact BitVec.toInt_signExtend_of_le (by decide)
        · rfl
      obtain ⟨vs, hvs⟩ : ∃ vs, vs = if len = 2 then (short ptr).signExtend 32 else longAt ptr :=
        ⟨_, rfl⟩
      rw [← hvs] at hvalue
      simp only [if_true, ← hvalue, ← hvs]
      by_cases hslt : vs.slt 0
      · obtain ⟨habs, hneg⟩ := natAbs_of_slt hslt
        rw [if_pos hslt, if_pos hneg]
        exact ⟨-vs, _, rfl, habs⟩
      · obtain ⟨habs, hneg⟩ := natAbs_of_not_slt hslt
        rw [if_neg hslt, if_neg hneg]
        exact ⟨vs, buf, rfl, habs⟩
  | false =>
      have hvalue :
          (if len = 2 then ((short ptr).toNat : Int) else (longAt ptr).toNat) =
            (((if len = 2 then (short ptr).setWidth 32 else longAt ptr) : BitVec 32).toNat :
              Int) := by
        split_ifs
        · rw [BitVec.toNat_setWidth, Nat.mod_eq_of_lt ((short ptr).isLt.trans (by decide))]
        · rfl
      simp only [Bool.false_eq_true, if_false, hvalue]
      rw [if_neg (not_lt.mpr (Int.natCast_nonneg _))]
      exact ⟨_, buf, rfl, rfl⟩

theorem newline_notMem_numeral (hb : 1 < b) (hb' : b ≤ 16) : byte '\n' ∉ numeral Upper b n := by
  intro hmem
  have htable : ∀ (U : Bool) (d : Fin 16), digit U d ≠ byte '\n' := by
    decide
  obtain ⟨d, hd, heq⟩ := List.mem_map.mp hmem
  have hlt : d < 16 := by
    split_ifs at hd
    · rw [List.mem_singleton.mp hd]
      decide
    · exact (Nat.digits_lt_base hb (List.mem_reverse.mp hd)).trans_le hb'
  exact htable Upper ⟨d, hlt⟩ heq

theorem numout_eq (r : Regs) (buf ptr : Nat → UInt8) (len : Nat) (useSign Upper Zero : Bool)
    (hbase : base = 8 ∨ base = 10 ∨ base = 16) (hwidth : width ≤ 31) :
    numout r buf ptr len width base useSign Upper Zero =
      .ok ((if value ptr len useSign < 0 then [byte '-'] else []) ++
        List.leftpad width.toNat (if Zero then byte '0' else byte ' ')
          (numeral Upper base.toNat (value ptr len useSign).natAbs)) := by
  have hbounds : (base.signExtend 32).toNat = base.toNat ∧ 8 ≤ base.toNat ∧ base.toNat ≤ 16 := by
    rcases hbase with rfl | rfl | rfl
    · decide
    · decide
    · decide
  obtain ⟨hsame, hge, hle⟩ := hbounds
  obtain ⟨v, buf₁, htake, habs⟩ := takeSign_eq buf ptr len useSign
  have hroom : (numeral Upper (base.signExtend 32).toNat v.toNat).length ≤ 31 := by
    rw [hsame, numeral_length_le_iff Upper v.toNat (by omega) (by decide)]
    calc v.toNat < 2 ^ 32 := v.isLt
      _ ≤ 8 ^ 31 := by decide
      _ ≤ base.toNat ^ 31 := Nat.pow_le_pow_left hge 31
  obtain ⟨buf₂, bp₂, hdigits, hshown, hsum⟩ :=
    digitLoop_eq r (Function.update buf₁ 31 0) (by omega) (by omega)
      (Nat.le_refl 31) hroom
  obtain ⟨buf₃, bp₃, hpad, hpadded⟩ :=
    padLoop_eq (if Zero then byte '0' else byte ' ') buf₂ hwidth (by omega : bp₂ ≤ 31)
  have hempty : shown (Function.update buf₁ 31 0) 31 = [] := rfl
  rw [hempty, List.append_nil, hsame, habs] at hshown
  rw [hshown] at hpadded
  have hplain : byte '\n' ∉ shown buf₃ bp₃ := by
    rw [hpadded, List.leftpad, List.mem_append, not_or]
    refine ⟨?_, newline_notMem_numeral (by omega) hle⟩
    intro hmem
    have hfill := List.eq_of_mem_replicate hmem
    cases Zero <;> exact absurd hfill (by decide)
  unfold numout
  rw [if_neg (not_lt.mpr hwidth), htake]
  simp only [bind, Except.bind, put, if_pos (by decide : 31 < 32), hdigits, hpad]
  rw [conWrite_eq hplain, hpadded]
  rfl

theorem minus_leftpad_iff (c : UInt8) (l : List UInt8) :
    [c] ++ List.leftpad w fill l = List.leftpad w fill ([c] ++ l) ↔ w ≤ l.length := by
  constructor
  · intro heq
    have hlen := congrArg List.length heq
    rw [List.length_append, List.length_leftpad, List.length_leftpad, List.length_append,
      List.length_singleton] at hlen
    omega
  · intro hle
    rw [leftpad_of_le hle, leftpad_of_le]
    rw [List.length_append]
    omega

theorem le_numeral_length_iff (hb : 1 < b) (hn : 0 < n) :
    w ≤ (numeral Upper b n).length ↔ b ^ (w - 1) ≤ n := by
  have hlen := numeral_length_pos Upper n hb
  rcases Nat.lt_or_ge w 2 with hsmall | hlarge
  · have hone : w - 1 = 0 := by omega
    rw [hone, pow_zero]
    exact iff_of_true (by omega) hn
  · have hle := numeral_length_le_iff Upper n hb (by omega : 0 < w - 1)
    omega

/-- For every number of sixteen or thirty-two bits, every width and every filling, `numout`
writes the shortest representation on the right of the columns exactly when the number is
not negative or has as many digits as there are columns. -/
theorem numout_formats_iff (r : Regs) (buf ptr : Nat → UInt8) (len : Nat)
    (useSign Upper Zero : Bool) (hbase : base = 8 ∨ base = 10 ∨ base = 16)
    (hwidth : width ≤ 31) :
    numout r buf ptr len width base useSign Upper Zero =
        .ok (formatted Upper Zero base.toNat width.toNat (value ptr len useSign)) ↔
      0 ≤ value ptr len useSign ∨
        base.toNat ^ (width.toNat - 1) ≤ (value ptr len useSign).natAbs := by
  have hb : 1 < base.toNat := by
    rcases hbase with rfl | rfl | rfl
    · decide
    · decide
    · decide
  rw [numout_eq r buf ptr len useSign Upper Zero hbase hwidth, formatted]
  by_cases hneg : value ptr len useSign < 0
  · have hnot : ¬0 ≤ value ptr len useSign := not_le.mpr hneg
    rw [spelled, if_pos hneg, or_iff_right hnot,
      ← le_numeral_length_iff hb (by omega : 0 < (value ptr len useSign).natAbs)]
    exact (Except.ok.injEq _ _).to_iff.trans (minus_leftpad_iff _ _)
  · have hspelled : spelled Upper base.toNat (value ptr len useSign) =
        numeral Upper base.toNat (value ptr len useSign).natAbs := by
      rw [spelled, if_neg hneg, List.nil_append]
    rw [hspelled, if_neg hneg, List.nil_append]
    exact iff_of_true rfl (Or.inl (not_lt.mp hneg))

/-- The bytes of a `short`. -/
def bytesOf (x : Word) (i : Nat) : UInt8 :=
  if i = 0 then ⟨low x⟩ else ⟨high x⟩

/-- What is in the registers when nothing was put into them. -/
def cleared : Regs where
  ax := 0
  bx := 0
  cx := 0
  dx := 0
  si := 0
  di := 0

theorem numout_formats_iff_minusFive :
    numout cleared (fun _ => 0) (bytesOf (-5)) 2 1 10 true false false =
      .ok (formatted false false 10 1 (-5)) :=
  (numout_formats_iff cleared (fun _ => 0) (bytesOf (-5)) 2 true false false
    (Or.inr (Or.inl rfl)) (by decide)).mpr (Or.inr (by decide))

/-- Four columns for the number -5 become five, with the minus in the first. -/
theorem numout_minusFive :
    numout cleared (fun _ => 0) (bytesOf (-5)) 2 4 10 true false false =
        .ok [byte '-', byte ' ', byte ' ', byte ' ', byte '5'] ∧
      numout cleared (fun _ => 0) (bytesOf (-5)) 2 4 10 true false false ≠
        .ok (formatted false false 10 4 (value (bytesOf (-5)) 2 true)) := by
  rw [numout_eq cleared (fun _ => 0) (bytesOf (-5)) 2 true false false (Or.inr (Or.inl rfl))
    (by decide : (4 : Int) ≤ 31)]
  have hvalue : value (bytesOf (-5)) 2 true = -5 := by
    decide
  have hfive : numeral false (10 : Word).toNat (-5 : Int).natAbs = [byte '5'] := by
    decide
  have hfive' : numeral false 10 (-5 : Int).natAbs = [byte '5'] := hfive
  rw [hvalue, formatted, spelled, hfive, hfive']
  exact ⟨rfl, fun heq => absurd (Except.ok.inj heq) (by decide)⟩

end Result

end Printk
end Kernel
end Elks
