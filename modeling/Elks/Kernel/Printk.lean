import Elks.Kernel.Numout

/-!
# Formats for printk (kernel/printk.c)

`printk` goes through a format and takes its arguments from the memory behind `fmt`.  A
format is a list of pieces: characters, `%%`, and directives with a filling, a width, a size
and a letter.

`Writes` says what a piece writes for the arguments at an address, and where the next ones
are.

**Result.**  `printk_writes`: for every list of pieces `printk` comes to its end and writes
what the pieces do.
-/

namespace Elks
namespace Kernel
namespace Printk

open Lib.I8086 I86

section Code

/-- The kernel's and the task's data segment, and what `numout` finds in the registers and in
its buffer when the argument is at some address. -/
structure World where
  mem : UInt16 → UInt8
  user : UInt16 → UInt8
  regs : UInt16 → Regs
  buf : UInt16 → Nat → UInt8

variable (W : World)

/-- `*((char **) p)`. -/
def World.pointer (p : UInt16) : UInt16 :=
  (W.mem p).toUInt16 + 256 * (W.mem (p + 1)).toUInt16

/-- The loop that reads the width; `c` is the character before `fmt`. -/
def readWidth (mem : UInt16 → UInt8) :
    Nat → UInt8 → UInt16 → Word → Option (UInt8 × UInt16 × Word)
  | 0, _, _, _ => none
  | n + 1, c, fmt, width =>
      if byte '0' ≤ c ∧ c ≤ byte '9' then
        readWidth mem n (mem fmt) (fmt + 1)
          (width * 10 + BitVec.ofNat 16 (c.toNat - (byte '0').toNat))
      else
        some (c, fmt, width)

/-- The loops over a string. -/
def readText (mem : UInt16 → UInt8) : Nat → UInt16 → Option (List UInt8)
  | 0, _ => none
  | n + 1, cp => if mem cp = 0 then some [] else (readText mem n (cp + 1)).map (mem cp :: ·)

/-- The loops that end with `con_write(" ", 1)`. -/
def blanks (n : Int) : List UInt8 :=
  List.replicate n.toNat (byte ' ')

/-- What a letter says to `numout`: the base, and whether the number has a sign and capital
letters. -/
def numberOf (c : UInt8) : Option (Word × Bool × Bool) :=
  if c = byte 'o' then some (8, false, false)
  else if c = byte 'i' ∨ c = byte 'd' then some (10, true, false)
  else if c = byte 'u' then some (10, false, false)
  else if c = byte 'P' ∨ c = byte 'X' then some (16, false, true)
  else if c = byte 'p' ∨ c = byte 'x' then some (16, false, false)
  else none

/-- The `switch`: what is written, and where the next argument is. -/
def directive (n : Nat) (c : UInt8) (zero : Bool) (width : Word) (len : Nat) (p : UInt16) :
    Option (List UInt8 × UInt16) :=
  match numberOf c with
  | some (base, useSign, Upper) =>
      (numout (W.regs p) (W.buf p) (fun i => W.mem (p + UInt16.ofNat i)) len width.toInt base
        useSign Upper zero).toOption.map (·, p + UInt16.ofNat len)
  | none =>
      if c = byte 's' then
        (readText W.mem n (W.pointer p)).map fun s =>
          (conWrite s ++ blanks (width - BitVec.ofNat 16 s.length).toInt, p + 2)
      else if c = byte 't' then
        (readText W.user n (W.pointer p)).map fun s =>
          (s ++ blanks (width - BitVec.ofNat 16 s.length).toInt, p + 2)
      else if c = byte 'c' then
        some (blanks (width.toInt - 1) ++ conWrite [W.mem p], p + 2)
      else
        some ([byte '?'], p)

/-- `printk`. -/
def printk : Nat → UInt16 → UInt16 → Option (List UInt8)
  | 0, _, _ => none
  | n + 1, fmt, p =>
      if W.mem fmt = 0 then
        some []
      else if W.mem fmt ≠ byte '%' then
        (printk n (fmt + 1) p).map (conWrite [W.mem fmt] ++ ·)
      else if W.mem (fmt + 1) = byte '%' then
        (printk n (fmt + 1 + 1) p).map (byte '%' :: ·)
      else do
        let (c, fmt', width) ← readWidth W.mem n (W.mem (fmt + 1)) (fmt + 1 + 1) 0
        let (len, c, fmt') :=
          if c = byte 'h' then (2, W.mem fmt', fmt' + 1)
          else if c = byte 'l' then (4, W.mem fmt', fmt' + 1)
          else (2, c, fmt')
        let (out, p) ← directive W n c (W.mem (fmt + 1) = byte '0') width len p
        (printk n fmt' p).map (out ++ ·)

end Code

section Purpose

/-- The size in a directive. -/
inductive Size
  | short
  | h
  | l

def Size.text : Size → List UInt8
  | .short => []
  | .h => [byte 'h']
  | .l => [byte 'l']

def Size.len : Size → Nat
  | .l => 4
  | _ => 2

/-- A piece of a format; a directive has the digits of its width. -/
inductive Piece
  | plain (c : UInt8)
  | percent
  | directive (ds : List (Fin 10)) (size : Size) (c : UInt8)

/-- The characters of a piece. -/
def Piece.text : Piece → List UInt8
  | .plain c => [c]
  | .percent => [byte '%', byte '%']
  | .directive ds size c => byte '%' :: (ds.map (fun d : Fin 10 => digit false d) ++ (size.text ++ [c]))

/-- The width that digits say. -/
def columns (ds : List (Fin 10)) : Nat :=
  ds.foldl (fun w (d : Fin 10) => w * 10 + d) 0

/-- A character that goes as it is is neither the end nor a `%`; the letter of a directive is
none of the other parts, and its width fits into an `int`. -/
def Piece.Ok : Piece → Prop
  | .plain c => c ≠ 0 ∧ c ≠ byte '%'
  | .percent => True
  | .directive ds _ c => columns ds < 2 ^ 15 ∧ c ≠ byte '%' ∧ c ≠ byte 'h' ∧ c ≠ byte 'l' ∧
      ¬(byte '0' ≤ c ∧ c ≤ byte '9')

/-- The bytes from an address on. -/
def At (mem : UInt16 → UInt8) : UInt16 → List UInt8 → Prop
  | _, [] => True
  | a, c :: l => mem a = c ∧ At mem (a + 1) l

/-- What a piece writes for the arguments at an address, and where the next ones are. -/
inductive Writes (W : World) : Piece → UInt16 → List UInt8 → UInt16 → Prop
  | plain (c : UInt8) (p : UInt16) : Writes W (.plain c) p (conWrite [c]) p
  | percent (p : UInt16) : Writes W .percent p [byte '%'] p
  | number (ds : List (Fin 10)) (size : Size) (c : UInt8) (p : UInt16) {base : Word}
      {useSign Upper : Bool} {x : Int} (hletter : numberOf c = some (base, useSign, Upper))
      (hx : x = value (fun i => W.mem (p + UInt16.ofNat i)) size.len useSign) :
      Writes W (.directive ds size c) p
        ((if x < 0 then [byte '-'] else []) ++
          List.leftpad (min (columns ds) 31) (if ds.head? = some 0 then byte '0' else byte ' ')
            (numeral Upper base.toNat x.natAbs))
        (p + UInt16.ofNat size.len)
  | string (ds : List (Fin 10)) (size : Size) (p : UInt16) {s : List UInt8}
      (hs : At W.mem (W.pointer p) (s ++ [0])) (hnul : 0 ∉ s) (hlen : s.length < 2 ^ 15) :
      Writes W (.directive ds size (byte 's')) p
        (conWrite s ++ List.replicate (columns ds - s.length) (byte ' ')) (p + 2)
  | userString (ds : List (Fin 10)) (size : Size) (p : UInt16) {s : List UInt8}
      (hs : At W.user (W.pointer p) (s ++ [0])) (hnul : 0 ∉ s) (hlen : s.length < 2 ^ 15) :
      Writes W (.directive ds size (byte 't')) p
        (s ++ List.replicate (columns ds - s.length) (byte ' ')) (p + 2)
  | char (ds : List (Fin 10)) (size : Size) (p : UInt16) :
      Writes W (.directive ds size (byte 'c')) p
        (List.replicate (columns ds - 1) (byte ' ') ++ conWrite [W.mem p]) (p + 2)
  | unknown (ds : List (Fin 10)) (size : Size) {c : UInt8} (p : UInt16)
      (hletter : numberOf c = none) (hs : c ≠ byte 's') (ht : c ≠ byte 't')
      (hc : c ≠ byte 'c') :
      Writes W (.directive ds size c) p [byte '?'] p

/-- The pieces one after the other. -/
inductive WritesAll (W : World) : List Piece → UInt16 → List UInt8 → Prop
  | nil (p : UInt16) : WritesAll W [] p []
  | cons {piece : Piece} {pieces : List Piece} {p p' : UInt16} {out out' : List UInt8}
      (h : Writes W piece p out p') (hrest : WritesAll W pieces p' out') :
      WritesAll W (piece :: pieces) p (out ++ out')

end Purpose

section Result

variable {W : World} {mem : UInt16 → UInt8} {a fmt p p' : UInt16} {c : UInt8}
  {l l' s out : List UInt8} {n : Nat} {ds : List (Fin 10)} {piece : Piece}

theorem address_succ (n : Nat) : a + 1 + UInt16.ofNat n = a + UInt16.ofNat (n + 1) := by
  rw [UInt16.ofNat_add, UInt16.add_assoc, UInt16.add_comm 1]
  rfl

theorem at_append : At mem a (l ++ l') ↔ At mem a l ∧ At mem (a + UInt16.ofNat l.length) l' := by
  induction l generalizing a with
  | nil => simp [At]
  | cons c l ih =>
      rw [List.cons_append, At, At, ih, List.length_cons, address_succ, and_assoc]

theorem readText_eq (hs : At mem a (s ++ [0])) (hnul : 0 ∉ s) (hn : s.length < n) :
    readText mem n a = some s := by
  induction s generalizing a n with
  | nil =>
      obtain ⟨n, rfl⟩ := Nat.exists_eq_succ_of_ne_zero (Nat.ne_zero_of_lt hn)
      exact if_pos hs.1
  | cons c s ih =>
      obtain ⟨n, rfl⟩ := Nat.exists_eq_succ_of_ne_zero (Nat.ne_zero_of_lt hn)
      obtain ⟨rfl, hs⟩ := hs
      obtain ⟨hc, hnul⟩ := not_or.mp (mt List.mem_cons.mpr hnul)
      rw [readText, if_neg (Ne.symm hc), ih hs hnul (Nat.lt_of_succ_lt_succ hn)]
      rfl

theorem readWidth_eq {w : Nat}
    (hat : At mem a (ds.map (fun d : Fin 10 => digit false d) ++ c :: l)) (hc : ¬(byte '0' ≤ c ∧ c ≤ byte '9')) (hn : ds.length < n) :
    readWidth mem n (mem a) (a + 1) (BitVec.ofNat 16 w) =
      some (c, a + UInt16.ofNat ds.length + 1, BitVec.ofNat 16 (ds.foldl (fun w (d : Fin 10) => w * 10 + d) w)) := by
  induction ds generalizing a n w with
  | nil =>
      obtain ⟨n, rfl⟩ := Nat.exists_eq_succ_of_ne_zero (Nat.ne_zero_of_lt hn)
      rw [readWidth, hat.1, if_neg hc]
      exact congrArg (fun b => some (c, b + 1, _)) (UInt16.add_zero a).symm
  | cons d ds ih =>
      obtain ⟨n, rfl⟩ := Nat.exists_eq_succ_of_ne_zero (Nat.ne_zero_of_lt hn)
      have hdigit : ∀ d : Fin 10, (byte '0' ≤ digit false d ∧ digit false d ≤ byte '9') ∧
          (digit false d).toNat - (byte '0').toNat = d := by
        decide
      have hstep : BitVec.ofNat 16 w * 10 + BitVec.ofNat 16 (d : Nat) =
          BitVec.ofNat 16 (w * 10 + d) := by
        rw [BitVec.ofNat_add, BitVec.ofNat_mul]
        rfl
      rw [readWidth, hat.1, if_pos (hdigit d).1, (hdigit d).2, hstep,
        ih hat.2 (Nat.lt_of_succ_lt_succ hn), address_succ]
      rfl

theorem first_char (hat : At mem a (ds.map (fun d : Fin 10 => digit false d) ++ c :: l))
    (hc : ¬(byte '0' ≤ c ∧ c ≤ byte '9')) (hpercent : c ≠ byte '%') :
    mem a ≠ byte '%' ∧ (mem a = byte '0' ↔ ds.head? = some 0) := by
  cases ds with
  | nil =>
      rw [hat.1]
      exact ⟨hpercent, iff_of_false (fun hzero => hc (by rw [hzero]; decide)) (by simp)⟩
  | cons d ds =>
      have hdigit : ∀ d : Fin 10, digit false d ≠ byte '%' ∧
          (digit false d = byte '0' ↔ d = 0) := by
        decide
      rw [hat.1, List.head?_cons, Option.some.injEq]
      exact hdigit d

theorem size_eq {size : Size} (hat : At mem a (size.text ++ [c])) (hh : c ≠ byte 'h')
    (hl : c ≠ byte 'l') :
    (if mem a = byte 'h' then (2, mem (a + 1), a + 1 + 1)
      else if mem a = byte 'l' then (4, mem (a + 1), a + 1 + 1) else (2, mem a, a + 1)) =
      (size.len, c, a + UInt16.ofNat (size.text.length + 1)) := by
  rw [← address_succ]
  cases size with
  | short =>
      rw [hat.1, if_neg hh, if_neg hl]
      exact congrArg _ (congrArg _ (UInt16.add_zero _).symm)
  | h =>
      rw [hat.1, hat.2.1]
      rfl
  | l =>
      rw [hat.1, hat.2.1]
      rfl

theorem numberOf_base {base : Word} {useSign Upper : Bool}
    (h : numberOf c = some (base, useSign, Upper)) : base = 8 ∨ base = 10 ∨ base = 16 := by
  unfold numberOf at h
  split_ifs at h <;> cases h <;> simp

theorem numout_clamped (r : Regs) (buf ptr : Nat → UInt8) (len w : Nat) (base : Word)
    (useSign Upper Zero : Bool) :
    numout r buf ptr len w base useSign Upper Zero =
      numout r buf ptr len (min w 31 : Nat) base useSign Upper Zero := by
  have hsame : (if (31 : Int) < w then 31 else (w : Int)) =
      if (31 : Int) < (min w 31 : Nat) then 31 else ((min w 31 : Nat) : Int) := by
    split_ifs <;> omega
  unfold numout
  rw [hsame]

theorem blanks_eq {k m : Nat} (hk : k < 2 ^ 15) (hm : m < 2 ^ 15) :
    blanks (BitVec.ofNat 16 k - BitVec.ofNat 16 m).toInt =
      List.replicate (k - m) (byte ' ') := by
  have hleft : (BitVec.ofNat 16 k - BitVec.ofNat 16 m).toInt.toNat = k - m := by
    rw [BitVec.toInt_eq_toNat_cond, BitVec.toNat_sub, BitVec.toNat_ofNat, BitVec.toNat_ofNat]
    omega
  rw [blanks, hleft]

theorem directive_eq {size : Size} (h : Writes W (.directive ds size c) p out p')
    (hwidth : columns ds < 2 ^ 15) :
    ∃ n₀, ∀ n ≥ n₀, directive W n c (ds.head? = some 0) (BitVec.ofNat 16 (columns ds))
      size.len p = some (out, p') := by
  have hint : (BitVec.ofNat 16 (columns ds)).toInt = columns ds := by
    rw [BitVec.toInt_eq_toNat_cond, BitVec.toNat_ofNat]
    omega
  cases h with
  | @number _ _ _ _ base useSign Upper x hletter hx =>
      refine ⟨0, fun n _ => ?_⟩
      rw [directive, hletter]
      simp only [hint]
      rw [numout_clamped, numout_eq _ _ _ _ _ _ _ (numberOf_base hletter)
        (by exact_mod_cast Nat.min_le_right _ 31), hx]
      simp only [decide_eq_true_eq]
      rfl
  | @string _ _ _ s hs hnul hlen =>
      refine ⟨s.length + 1, fun n hn => ?_⟩
      rw [directive, readText_eq hs hnul hn, ← blanks_eq hwidth hlen]
      rfl
  | @userString _ _ _ s hs hnul hlen =>
      refine ⟨s.length + 1, fun n hn => ?_⟩
      rw [directive, readText_eq hs hnul hn, ← blanks_eq hwidth hlen]
      rfl
  | char =>
      refine ⟨0, fun n _ => ?_⟩
      have hleft : ((columns ds : Int) - 1).toNat = columns ds - 1 := by omega
      rw [← hleft, ← hint]
      rfl
  | unknown _ _ _ hletter hs ht hc =>
      refine ⟨0, fun n _ => ?_⟩
      rw [directive, hletter]
      simp only [if_neg hs, if_neg ht, if_neg hc]

theorem printk_piece (h : Writes W piece p out p') (hok : piece.Ok)
    (hat : At W.mem fmt piece.text) :
    ∃ n₀, ∀ n ≥ n₀, printk W (n + 1) fmt p =
      (printk W n (fmt + UInt16.ofNat piece.text.length) p').map (out ++ ·) := by
  cases piece with
  | plain c =>
      cases h
      obtain ⟨rfl, -⟩ := hat
      refine ⟨0, fun n _ => ?_⟩
      rw [printk, if_neg hok.1, if_pos hok.2]
      rfl
  | percent =>
      cases h
      obtain ⟨hfirst, hsecond, -⟩ := hat
      refine ⟨0, fun n _ => ?_⟩
      rw [printk, hfirst, if_neg (by decide), if_neg (by decide), if_pos hsecond,
        UInt16.add_assoc]
      rfl
  | directive ds size c =>
      obtain ⟨hwidth, hpercent, hh, hl, hdigit⟩ := hok
      obtain ⟨n₀, hdirective⟩ := directive_eq h hwidth
      obtain ⟨hfirst, hat⟩ := hat
      have hlast := (at_append.mp hat).2
      rw [List.length_map] at hlast
      obtain ⟨c₀, l, hrest, hpercent₀, hdigit₀⟩ : ∃ c₀ l, size.text ++ [c] = c₀ :: l ∧
          c₀ ≠ byte '%' ∧ ¬(byte '0' ≤ c₀ ∧ c₀ ≤ byte '9') := by
        cases size with
        | short => exact ⟨c, [], rfl, hpercent, hdigit⟩
        | h => exact ⟨byte 'h', [c], rfl, by decide⟩
        | l => exact ⟨byte 'l', [c], rfl, by decide⟩
      rw [hrest] at hat
      obtain ⟨hnot, hzero⟩ := first_char hat hdigit₀ hpercent₀
      have hsize := size_eq hlast hh hl
      rw [hrest] at hlast
      refine ⟨max n₀ (ds.length + 1), fun n hn => ?_⟩
      have hrun := hdirective n (by omega)
      rw [hlast.1] at hsize
      simp only [← hzero] at hrun
      rw [printk, hfirst, if_neg (by decide), if_neg (by decide), if_neg hnot]
      have hcolumns : readWidth W.mem n (W.mem (fmt + 1)) (fmt + 1 + 1) 0 =
          some (c₀, fmt + 1 + UInt16.ofNat ds.length + 1, BitVec.ofNat 16 (columns ds)) :=
        readWidth_eq hat hdigit₀ (by omega)
      rw [hcolumns]
      have hnext : fmt + 1 + UInt16.ofNat ds.length + UInt16.ofNat (size.text.length + 1) =
          fmt + UInt16.ofNat (Piece.directive ds size c).text.length := by
        rw [address_succ, UInt16.add_assoc, ← UInt16.ofNat_add]
        congr 2
        simp [Piece.text]
        omega
      simp only [bind, Option.bind, hsize, hrun, hnext]

/-- For every list of pieces and every argument list printk writes what the pieces do. -/
theorem printk_writes {pieces : List Piece} (h : WritesAll W pieces p out)
    (hok : ∀ piece ∈ pieces, piece.Ok)
    (hat : At W.mem fmt (pieces.flatMap Piece.text ++ [0])) :
    ∃ n₀, ∀ n ≥ n₀, printk W n fmt p = some out := by
  induction h generalizing fmt with
  | nil =>
      refine ⟨1, fun n hn => ?_⟩
      obtain ⟨n, rfl⟩ := Nat.exists_eq_succ_of_ne_zero (Nat.ne_zero_of_lt hn)
      exact if_pos hat.1
  | @cons piece pieces p p' out out' hpiece hrest ih =>
      rw [List.flatMap_cons, List.append_assoc, at_append] at hat
      obtain ⟨n₁, hfirst⟩ := printk_piece hpiece (hok piece List.mem_cons_self) hat.1
      obtain ⟨n₂, hafter⟩ := ih (fun q hq => hok q (List.mem_cons_of_mem _ hq)) hat.2
      refine ⟨max n₁ n₂ + 1, fun n hn => ?_⟩
      obtain ⟨n, rfl⟩ := Nat.exists_eq_succ_of_ne_zero (Nat.ne_zero_of_lt hn)
      rw [hfirst n (by omega), hafter n (by omega)]
      rfl

/-- A format with a number and a newline, and behind it the number -5. -/
def sample : World where
  mem a := [byte '%', byte '3', byte 'd', byte '\n', 0, 0xFB, 0xFF].getD a.toNat 0
  user _ := 0
  regs _ := cleared
  buf _ _ := 0

theorem printk_writes_minusFive :
    ∃ n₀, ∀ n ≥ n₀, printk sample n 0 5 =
      some [byte '-', byte ' ', byte ' ', byte '5', byte '\r', byte '\n'] :=
  have hwrites : WritesAll sample [.directive [3] .short (byte 'd'), .plain (byte '\n')] 5
      [byte '-', byte ' ', byte ' ', byte '5', byte '\r', byte '\n'] :=
    .cons (.number [3] .short (byte 'd') 5 rfl rfl) (.cons (.plain _ _) (.nil _))
  printk_writes hwrites (by simp [Piece.Ok]; decide) ⟨rfl, rfl, rfl, rfl, rfl, trivial⟩

end Result
end Printk
end Kernel
end Elks
