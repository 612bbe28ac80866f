import Mathlib.Data.List.TakeWhile
import Elks.Tty.DirconScreen

/-!
# The commands of the console (arch/i86/drivers/char/dircon.c)

A stream for the console is a list of commands: plain characters, VT52 commands and
commands with `ESC [`.  `Cmd.interpret` says where a command leaves the cursor.

`WriteChar` asks for `[` before it looks what it has seen behind `ESC`, so that a `[` among
the arguments of a command begins a new one: `Cmd.taken` is what a command is taken for, and
`Cmd.Ends` that it is taken for something whole.  `Cmd.Fits` compares the numbers of a
command with what 16 bits, and a `char`, keep of them.

**Result.**  `follows_commands_iff`: the console follows a list of commands exactly when each
of them ends and fits, and what it is taken for leads to the same place.
-/

namespace Elks
namespace Tty
namespace Dircon

open Lib ChQueue

section Decimal

/-- A decimal digit. -/
def isDigit (b : UInt8) : Prop :=
  ascii '0' ≤ b ∧ b ≤ ascii '9'

instance (b : UInt8) : Decidable (isDigit b) :=
  inferInstanceAs (Decidable (_ ∧ _))

/-- A decimal number; nothing is zero. -/
def decimal (ds : List UInt8) : Nat :=
  ds.foldl (fun n d => n * 10 + (d.toNat - 48)) 0

/-- The parameters before and behind the first semicolon, up to the next. -/
def firstField (params : List UInt8) : List UInt8 :=
  params.takeWhile (· ≠ ascii ';')

def secondField (params : List UInt8) : List UInt8 :=
  firstField (params.dropWhile (· ≠ ascii ';')).tail

/-- A number that is missing or zero counts as one. -/
def count (ds : List UInt8) : Int :=
  max 1 (decimal ds)

/-- What an `int` keeps of a number, where zero counts as one. -/
def kept (ds : List UInt8) : Int :=
  if int16 (decimal ds) ≠ 0 then int16 (decimal ds) else 1

/-- The bytes of a list stand in a memory from a place on. -/
def Stores (mem : Nat → UInt8) : Nat → List UInt8 → Prop
  | _, [] => True
  | i, b :: l => mem i = b ∧ Stores mem (i + 1) l

variable {mem : Nat → UInt8} {i fuel : Nat} {l l' ds params : List UInt8} {stop letter : UInt8}

theorem stores_append : Stores mem i (l ++ l') ↔ Stores mem i l ∧ Stores mem (i + l.length) l' := by
  induction l generalizing i with
  | nil =>
      simp only [List.nil_append, Stores, true_and, List.length_nil, Nat.add_zero]
  | cons b l ih =>
      have hplace : i + (b :: l).length = i + 1 + l.length := by
        rw [List.length_cons]
        omega
      simp only [List.cons_append, Stores, ih, hplace, and_assoc]

theorem isDigit_bounds {b : UInt8} (h : isDigit b) : 48 ≤ b.toNat ∧ b.toNat ≤ 57 :=
  ⟨UInt8.le_iff_toNat_le.mp h.1, UInt8.le_iff_toNat_le.mp h.2⟩

/-- What ends a number. -/
structure Stops (stop : UInt8) : Prop where
  behind : 57 < stop.toNat
  low : stop.toNat < 128

theorem stops_letter (h : isalpha letter) : Stops letter := by
  have hbounds := isalpha_bounds h
  exact ⟨by omega, by omega⟩

theorem stops_semicolon : Stops (ascii ';') :=
  ⟨by decide, by decide⟩

theorem int16_digit (n d : Int) : int16 (int16 n * 10 + d) = int16 (n * 10 + d) := by
  unfold int16
  omega

theorem digits_eq (n : Nat) (h : Stores mem i (ds ++ [stop])) (hds : ∀ d ∈ ds, isDigit d)
    (hstop : Stops stop) (hfuel : ds.length < fuel) :
    digits mem fuel i (int16 n) =
      .ok (int16 (ds.foldl (fun n d => n * 10 + (d.toNat - 48)) n : Nat), i + ds.length) := by
  induction ds generalizing i n fuel with
  | nil =>
      obtain ⟨fuel, rfl⟩ : ∃ f, fuel = f + 1 := ⟨fuel - 1, by omega⟩
      have hnot : ¬signed (mem i) - 48 ≤ 9 := by
        rw [h.1, signed_of_lt hstop.low]
        have hbehind := hstop.behind
        omega
      unfold digits
      rw [if_neg hnot]
      rfl
  | cons d ds ih =>
      obtain ⟨fuel, rfl⟩ : ∃ f, fuel = f + 1 := ⟨fuel - 1, by omega⟩
      have hd := isDigit_bounds (hds d List.mem_cons_self)
      have hsigned : signed (mem i) = d.toNat := by
        rw [h.1, signed_of_lt (by omega)]
      have hdigit : signed (mem i) - 48 ≤ 9 := by
        rw [hsigned]
        omega
      have hnext : int16 (int16 n * 10 + (signed (mem i) - 48)) =
          int16 ((n * 10 + (d.toNat - 48) : Nat) : Int) := by
        have hsum : (n : Int) * 10 + (d.toNat - 48) = ((n * 10 + (d.toNat - 48) : Nat) : Int) := by
          omega
        rw [int16_digit, hsigned, hsum]
      rw [List.length_cons] at hfuel
      unfold digits
      rw [if_pos hdigit, hnext, ih (n * 10 + (d.toNat - 48)) h.2
        (fun d' hd' => hds d' (List.mem_cons_of_mem d hd')) (by omega), List.foldl_cons,
        List.length_cons, Nat.add_assoc, Nat.add_comm 1]

theorem parm1_eq (h : Stores mem i (ds ++ [stop])) (hds : ∀ d ∈ ds, isDigit d)
    (hstop : Stops stop) (hfuel : ds.length < SEGMENT) :
    parm1 mem i = .ok (kept ds, i + ds.length) := by
  have hbyte : 48 ≤ (mem i).toNat ∧ (mem i).toNat < 128 := by
    cases ds with
    | nil =>
        have hbehind := hstop.behind
        have hlow := hstop.low
        rw [h.1]
        omega
    | cons d ds =>
        have hd := isDigit_bounds (hds d List.mem_cons_self)
        rw [h.1]
        omega
  have hzero : mem i ≠ 0 := by
    intro hzero
    rw [hzero] at hbyte
    exact absurd hbyte.1 (by decide)
  have hminus : mem i ≠ ascii '-' := by
    intro hminus
    rw [hminus] at hbyte
    exact absurd hbyte.1 (by decide)
  have hplus : mem i ≠ ascii '+' := by
    intro hplus
    rw [hplus] at hbyte
    exact absurd hbyte.1 (by decide)
  have hskip : skipBlanks mem SEGMENT i = .ok i := by
    have hblank : ¬signed (mem i) ≤ 32 := by
      rw [signed_of_lt hbyte.2]
      omega
    have hsegment : SEGMENT = 65535 + 1 := rfl
    rw [hsegment]
    unfold skipBlanks
    rw [if_neg hblank]
  have hdigits := digits_eq 0 h hds hstop hfuel
  have hstart : int16 ((0 : Nat) : Int) = 0 := rfl
  rw [hstart] at hdigits
  have hatoi : atoi mem i = .ok (int16 (decimal ds), i + ds.length) := by
    unfold atoi
    rw [hskip]
    simp only [bind, Except.bind, if_neg hzero, hminus, hplus, or_self, if_false, hdigits]
    rfl
  unfold parm1
  rw [hatoi]
  rfl

/-- The bytes of parameters that are not negative. -/
def IsParam (b : UInt8) : Prop :=
  isDigit b ∨ b = ascii ';'

theorem digit_of_mem_firstField (hparams : ∀ b ∈ params, IsParam b) :
    ∀ d ∈ firstField params, isDigit d := by
  intro d hd
  have hne := List.mem_takeWhile_imp (p := fun b => decide (b ≠ ascii ';')) hd
  exact (hparams d ((List.takeWhile_sublist _).subset hd)).resolve_right
    (of_decide_eq_true hne)

theorem stores_firstField (hletter : isalpha letter) (h : Stores mem i (params ++ [letter, 0])) :
    ∃ stop, Stops stop ∧ Stores mem i (firstField params ++ [stop]) := by
  induction params generalizing i with
  | nil => exact ⟨letter, stops_letter hletter, h.1, trivial⟩
  | cons b params ih =>
      by_cases hb : b = ascii ';'
      · have hfield : firstField (b :: params) = [] := by
          unfold firstField
          rw [List.takeWhile_cons_of_neg (by rw [hb]; decide)]
        rw [hfield]
        exact ⟨ascii ';', stops_semicolon, hb ▸ h.1, trivial⟩
      · have hfield : firstField (b :: params) = b :: firstField params := by
          unfold firstField
          exact List.takeWhile_cons_of_pos (decide_eq_true hb)
        rw [hfield]
        obtain ⟨stop, hstop, hstores⟩ := ih h.2
        exact ⟨stop, hstop, h.1, hstores⟩

theorem length_firstField_le (params : List UInt8) : (firstField params).length ≤ params.length :=
  (List.takeWhile_sublist _).length_le

theorem parm1_field (hletter : isalpha letter) (hparams : ∀ b ∈ params, IsParam b)
    (h : Stores mem i (params ++ [letter, 0])) (hfuel : params.length < SEGMENT) :
    parm1 mem i = .ok (kept (firstField params), i + (firstField params).length) := by
  obtain ⟨stop, hstop, hstores⟩ := stores_firstField hletter h
  exact parm1_eq hstores (digit_of_mem_firstField hparams) hstop
    (lt_of_le_of_lt (length_firstField_le params) hfuel)

theorem scanSemicolon_eq (hletter : isalpha letter) (hparams : ∀ b ∈ params, IsParam b)
    (h : Stores mem i (params ++ [letter, 0])) (hfuel : params.length + 1 < fuel) :
    ∃ j, scanSemicolon mem fuel i = .ok j ∧
      (mem j = 0 ∧ params.dropWhile (· ≠ ascii ';') = [] ∨
        mem j ≠ 0 ∧
          Stores mem (j + 1) ((params.dropWhile (· ≠ ascii ';')).tail ++ [letter, 0])) := by
  induction params generalizing i fuel with
  | nil =>
      obtain ⟨fuel, rfl⟩ : ∃ f, fuel = f + 2 := by
        rw [List.length_nil] at hfuel
        exact ⟨fuel - 2, by omega⟩
      have hbounds := isalpha_bounds hletter
      have hother : mem i ≠ ascii ';' ∧ mem i ≠ 0 := by
        rw [h.1]
        constructor
        · rintro rfl
          exact absurd hbounds.1 (by decide)
        · rintro rfl
          exact absurd hbounds.1 (by decide)
      have hend : ¬(mem (i + 1) ≠ ascii ';' ∧ mem (i + 1) ≠ 0) := fun hend => hend.2 h.2.1
      refine ⟨i + 1, ?_, .inl ⟨h.2.1, rfl⟩⟩
      rw [scanSemicolon, if_pos hother, scanSemicolon, if_neg hend]
  | cons b params ih =>
      obtain ⟨fuel, rfl⟩ : ∃ f, fuel = f + 1 := ⟨fuel - 1, by omega⟩
      by_cases hb : b = ascii ';'
      · have hsemi : mem i = ascii ';' := h.1.trans hb
        have hdrop : (b :: params).dropWhile (· ≠ ascii ';') = b :: params :=
          List.dropWhile_cons_of_neg (by rw [hb]; decide)
        refine ⟨i, ?_, .inr ⟨?_, ?_⟩⟩
        · rw [scanSemicolon, if_neg fun hother => hother.1 hsemi]
        · rw [hsemi]
          decide
        · rw [hdrop]
          exact h.2
      · have hdigit := isDigit_bounds ((hparams b List.mem_cons_self).resolve_right hb)
        have hother : mem i ≠ ascii ';' ∧ mem i ≠ 0 := by
          rw [h.1]
          refine ⟨hb, ?_⟩
          rintro rfl
          exact absurd hdigit.1 (by decide)
        have hdrop : (b :: params).dropWhile (· ≠ ascii ';') =
            params.dropWhile (· ≠ ascii ';') :=
          List.dropWhile_cons_of_pos (decide_eq_true hb)
        have hfuel' : params.length + 1 < fuel := by
          rw [List.length_cons] at hfuel
          omega
        obtain ⟨j, hscan, hj⟩ :=
          ih (fun b' hb' => hparams b' (List.mem_cons_of_mem b hb')) h.2 hfuel'
        refine ⟨j, ?_, ?_⟩
        · rw [scanSemicolon, if_pos hother]
          exact hscan
        · rw [hdrop]
          exact hj

theorem parm2_field (hletter : isalpha letter) (hparams : ∀ b ∈ params, IsParam b)
    (h : Stores mem 0 (params ++ [letter, 0])) (hfuel : params.length + 1 < SEGMENT) :
    ∃ last, parm2 mem 0 = .ok (kept (secondField params), last) := by
  obtain ⟨j, hscan, hj⟩ := scanSemicolon_eq hletter hparams h hfuel
  unfold parm2
  rw [hscan]
  rcases hj with ⟨hzero, hnone⟩ | ⟨hnot, hstores⟩
  · refine ⟨j, ?_⟩
    have hfield : kept (secondField params) = 1 := by
      unfold secondField
      rw [hnone]
      rfl
    simp only [bind, Except.bind, hzero, ne_eq, not_true_eq_false, if_false]
    rw [hfield]
    exact parm1_zero hzero
  · have htail := (List.tail_sublist (params.dropWhile (· ≠ ascii ';'))).trans
      (List.dropWhile_sublist (· ≠ ascii ';'))
    refine ⟨j + 1 + (secondField params).length, ?_⟩
    simp only [bind, Except.bind, hnot, ne_eq, not_false_eq_true, if_true]
    refine parm1_field hletter (fun b hb => hparams b (htail.subset hb)) hstores ?_
    have hlen := htail.length_le
    omega

end Decimal

/-- Where the cursor is, and what has been saved of it. -/
structure Cursor where
  x : Int
  y : Int
  savex : Int
  savey : Int

/-- The commands: a plain character, a VT52 command of one letter, a line put in or taken
out, an attribute, a place, and the commands with `ESC [`. -/
inductive Cmd
  | plain (c : UInt8)
  | vt52 (c : UInt8)
  | line (insert : Bool)
  | attr (a : UInt8)
  | moveTo (row col : UInt8)
  | ansi (params : List UInt8) (letter : UInt8)

/-- The letters of the VT52 commands of one letter. -/
def vt52Letters : List UInt8 :=
  [ascii 'H', ascii 'A', ascii 'B', ascii 'C', ascii 'D', ascii 'K', ascii 'J', ascii 'I']

section Language

variable (scr : Screen)

/-- The bytes of a command. -/
def Cmd.bytes : Cmd → List UInt8
  | .plain c => [c]
  | .vt52 c => [ESC, c]
  | .line insert => [ESC, ascii 'P', if insert then ascii 'f' else ascii 'd']
  | .attr a => [ESC, ascii 'Q', a]
  | .moveTo row col => [ESC, ascii 'Y', row, col]
  | .ansi params letter => ESC :: ascii '[' :: (params ++ [letter])

/-- The commands of a stream for the screen. -/
def Cmd.Proper : Cmd → Prop
  | .plain c => c ≠ ESC
  | .vt52 c => c ∈ vt52Letters
  | .line _ => True
  | .attr _ => True
  | .moveTo row col =>
      32 ≤ row.toNat ∧ (row.toNat : Int) ≤ 32 + scr.maxRow ∧
        32 ≤ col.toNat ∧ (col.toNat : Int) ≤ 32 + scr.maxCol
  | .ansi params letter => params.length ≤ 9 ∧ (∀ b ∈ params, IsParam b) ∧ isalpha letter

/-- Where a command with `ESC [` leaves the cursor. -/
def Screen.ansiMoved (params : List UInt8) (letter : UInt8) (q : Cursor) : Cursor :=
  let n := count (firstField params)
  if letter = ascii 's' then { q with savex := q.x, savey := q.y }
  else if letter = ascii 'u' then { q with x := q.savex, y := q.savey }
  else if letter = ascii 'A' then { q with y := max 0 (q.y - n) }
  else if letter = ascii 'B' then { q with y := min (q.y + n) scr.maxRow }
  else if letter = ascii 'C' then { q with x := min (q.x + n) scr.maxCol }
  else if letter = ascii 'D' then { q with x := max 0 (q.x - n) }
  else if letter = ascii 'H' then
    { q with
      x := min (count (secondField params) - 1) scr.maxCol
      y := min (n - 1) scr.maxRow }
  else q

/-- Where a command leaves the cursor. -/
def Cmd.interpret (q : Cursor) : Cmd → Cursor
  | .plain c => { q with x := (scr.typed c q.x q.y).1, y := (scr.typed c q.x q.y).2 }
  | .vt52 c => { q with x := (scr.moved c q.x q.y).1, y := (scr.moved c q.x q.y).2 }
  | .line _ => q
  | .attr _ => q
  | .moveTo row col => { q with x := col.toNat - 32, y := row.toNat - 32 }
  | .ansi params letter => scr.ansiMoved params letter q

/-- Where a list of commands leaves the cursor. -/
def interpretAll (q : Cursor) (cmds : List Cmd) : Cursor :=
  cmds.foldl (Cmd.interpret scr) q

/-- What a command is taken for: `[` in the place of the row begins a command. -/
def Cmd.taken : Cmd → Cmd
  | .moveTo row col => if row = ascii '[' then .ansi [] col else .moveTo row col
  | cmd => cmd

/-- What a command is taken for is whole. -/
def Cmd.Ends : Cmd → Prop
  | .attr a => a ≠ ascii '['
  | .moveTo row col => if row = ascii '[' then isalpha col else col ≠ ascii '['
  | _ => True

/-- A move back by `n` instead of `d` goes to the same place. -/
def FitsBack (v n d : Int) : Prop :=
  n = d ∨ v ≤ n ∨ 32767 < v - n

/-- A move forth by `n` instead of `d` goes to the same place. -/
def FitsForth (M v n d : Int) : Prop :=
  0 < n ∧ v + n ≤ 32767 ∧ (n = d ∨ M ≤ v + n)

/-- The place `n` is the place `d`. -/
def FitsPlace (M n d : Int) : Prop :=
  n = d ∨ M < n ∨ n = -32768 ∨ M = 0

/-- The numbers of a command do not suffer from 16 bits, nor its bytes from the sign of a
`char`. -/
def Cmd.Fits (q : Cursor) : Cmd → Prop
  | .moveTo _ col => col.toNat < 128
  | .ansi params letter =>
      let n := kept (firstField params)
      let d := count (firstField params)
      if letter = ascii 'A' then FitsBack q.y n d
      else if letter = ascii 'B' then FitsForth scr.maxRow q.y n d
      else if letter = ascii 'C' then FitsForth scr.maxCol q.x n d
      else if letter = ascii 'D' then FitsBack q.x n d
      else if letter = ascii 'H' then
        FitsPlace scr.maxCol (kept (secondField params)) (count (secondField params)) ∧
          FitsPlace scr.maxRow n d
      else True
  | _ => True

/-- The cursor of a console. -/
def Console.cursor (C : Console) : Cursor :=
  ⟨C.cx, C.cy, C.savex, C.savey⟩

/-- Between two commands the console is in its normal state with the cursor where the
commands so far lead, and inside of a command it is in another one. -/
structure Follows (C : Console) (cmds : List Cmd) : Prop where
  boundary : ∀ pre, pre <+: cmds → ∃ C', C.writeChars scr (pre.flatMap Cmd.bytes) = .ok C' ∧
    C'.state = .normal ∧ C'.cx = (interpretAll scr C.cursor pre).x ∧
      C'.cy = (interpretAll scr C.cursor pre).y
  within : ∀ pre cmd, pre ++ [cmd] <+: cmds → ∀ part, part <+: cmd.bytes → part ≠ [] →
    part ≠ cmd.bytes → ∃ C', C.writeChars scr (pre.flatMap Cmd.bytes ++ part) = .ok C' ∧
      C'.state ≠ .normal

end Language

section Numbers

variable {n d v M : Int}

/-- What 16 bits make of a number that counts. -/
structure Kept (n d : Int) : Prop where
  low : -32768 ≤ n
  high : n < 32768
  nonzero : n ≠ 0
  pos : 1 ≤ d
  eq_or_lt : n = d ∨ n < d ∧ 32768 ≤ d

theorem kept_count (ds : List UInt8) : Kept (kept ds) (count ds) := by
  have hnat : (0 : Int) ≤ decimal ds := Int.natCast_nonneg _
  unfold kept count
  generalize (decimal ds : Int) = d at hnat
  unfold int16
  split_ifs with hzero
  · exact ⟨by omega, by omega, hzero, by omega, by omega⟩
  · exact ⟨by decide, by decide, by decide, by omega, by omega⟩

theorem back_fits (h : Kept n d) (h0 : 0 ≤ v) (hv : v < 32767) :
    (if int16 (v - n) < 0 then 0 else int16 (v - n)) = max 0 (v - d) ↔ FitsBack v n d := by
  have hlow := h.low
  have hhigh := h.high
  have hpos := h.pos
  have hor := h.eq_or_lt
  unfold FitsBack int16
  split_ifs <;> omega

theorem forth_fits (h : Kept n d) (h0 : 0 ≤ v) (hv : v ≤ M) (hM : M < 32767) :
    (if M < int16 (v + n) then M else int16 (v + n)) = min (v + d) M ↔ FitsForth M v n d := by
  have hlow := h.low
  have hhigh := h.high
  have hnonzero := h.nonzero
  have hpos := h.pos
  have hor := h.eq_or_lt
  unfold FitsForth int16
  split_ifs <;> omega

theorem place_fits (h : Kept n d) (h0 : 0 ≤ M) (hM : M < 32767) :
    (if M ≤ int16 (n - 1) then M else if int16 (n - 1) < 0 then 0 else int16 (n - 1)) =
      min (d - 1) M ↔ FitsPlace M n d := by
  have hlow := h.low
  have hhigh := h.high
  have hnonzero := h.nonzero
  have hpos := h.pos
  have hor := h.eq_or_lt
  unfold FitsPlace int16
  split_ifs <;> omega

end Numbers

section Commands

variable {scr : Screen} {C D : Console} {c letter : UInt8} {params : List UInt8} {i : Nat}
  {l : List UInt8} {mem mem' : Nat → UInt8}

/-- The cursor, and what is saved of it, are on the screen. -/
structure Cursor.On (q : Cursor) (scr : Screen) : Prop where
  cursor : scr.Holds q.x q.y
  saved : scr.Holds q.savex q.savey

/-- What a run that has been taken for `cmd` leaves. -/
structure Took (scr : Screen) (q : Cursor) (cmd : Cmd) (C : Console) : Prop where
  state : C.state = .normal
  savex : C.savex = (cmd.interpret scr q).savex
  savey : C.savey = (cmd.interpret scr q).savey
  place : (C.cx = (cmd.interpret scr q).x ∧ C.cy = (cmd.interpret scr q).y) ↔ cmd.Fits scr q

theorem gotoxy_fits {n d m e : Int} (hx : Kept n d) (hy : Kept m e) :
    ((C.gotoxy scr (int16 (n - 1)) (int16 (m - 1))).cx = min (d - 1) scr.maxCol ∧
      (C.gotoxy scr (int16 (n - 1)) (int16 (m - 1))).cy = min (e - 1) scr.maxRow) ↔
      FitsPlace scr.maxCol n d ∧ FitsPlace scr.maxRow m e := by
  have hcol := scr.maxCol_bounds
  have hrow := scr.maxRow_bounds
  unfold Console.gotoxy
  exact and_congr (place_fits hx hcol.1 hcol.2) (place_fits hy hrow.1 hrow.2)

theorem ansiCmd_took (hon : C.cursor.On scr) (hletter : isalpha letter)
    (hparams : ∀ b ∈ params, IsParam b) (hlen : params.length ≤ 9)
    (hstores : Stores C.params 0 (params ++ [letter, 0])) :
    ∃ C', C.ansiCmd scr letter = .ok C' ∧ Took scr C.cursor (.ansi params letter) C' := by
  have hsegment : SEGMENT = 65536 := rfl
  have hcol := scr.maxCol_bounds
  have hrow := scr.maxRow_bounds
  have hx0 : 0 ≤ C.cx := hon.cursor.x_nonneg
  have hx : C.cx ≤ scr.maxCol := hon.cursor.x_le
  have hy0 : 0 ≤ C.cy := hon.cursor.y_nonneg
  have hy : C.cy ≤ scr.maxRow := hon.cursor.y_le
  have hparm := parm1_field hletter hparams hstores (by omega)
  have hkept := kept_count (firstField params)
  have htook {C' : Console} (q' : Cursor) (P : Prop)
      (hmoved : (Cmd.ansi params letter).interpret scr C.cursor = q')
      (hfits : (Cmd.ansi params letter).Fits scr C.cursor ↔ P) (hstate : C'.state = .normal)
      (hsavex : C'.savex = q'.savex) (hsavey : C'.savey = q'.savey)
      (hplace : C'.cx = q'.x ∧ C'.cy = q'.y ↔ P) :
      Took scr C.cursor (.ansi params letter) C' := by
    subst hmoved
    exact ⟨hstate, hsavex, hsavey, hplace.trans hfits.symm⟩
  -- the letters that save, restore and move, each with where it should lead
  by_cases hs : letter = ascii 's'
  · subst hs
    exact ⟨_, rfl, htook { C.cursor with savex := C.cx, savey := C.cy } True rfl Iff.rfl
      rfl rfl rfl (iff_true_intro ⟨rfl, rfl⟩)⟩
  by_cases hu : letter = ascii 'u'
  · subst hu
    exact ⟨_, rfl, htook { C.cursor with x := C.savex, y := C.savey } True rfl Iff.rfl
      rfl rfl rfl (iff_true_intro ⟨rfl, rfl⟩)⟩
  by_cases hA : letter = ascii 'A'
  · subst hA
    refine ⟨_, ansiCmd_A hparm, htook
      { C.cursor with y := max 0 (C.cy - count (firstField params)) }
      (FitsBack C.cy (kept (firstField params)) (count (firstField params)))
      rfl Iff.rfl rfl rfl rfl ?_⟩
    exact (and_iff_right rfl).trans (back_fits hkept hy0 (by omega))
  by_cases hB : letter = ascii 'B'
  · subst hB
    refine ⟨_, ansiCmd_B hparm, htook
      { C.cursor with y := min (C.cy + count (firstField params)) scr.maxRow }
      (FitsForth scr.maxRow C.cy (kept (firstField params)) (count (firstField params)))
      rfl Iff.rfl rfl rfl rfl ?_⟩
    exact (and_iff_right rfl).trans (forth_fits hkept hy0 hy hrow.2)
  by_cases hC : letter = ascii 'C'
  · subst hC
    refine ⟨_, ansiCmd_C hparm, htook
      { C.cursor with x := min (C.cx + count (firstField params)) scr.maxCol }
      (FitsForth scr.maxCol C.cx (kept (firstField params)) (count (firstField params)))
      rfl Iff.rfl rfl rfl rfl ?_⟩
    exact (and_iff_left rfl).trans (forth_fits hkept hx0 hx hcol.2)
  by_cases hD : letter = ascii 'D'
  · subst hD
    refine ⟨_, ansiCmd_D hparm, htook
      { C.cursor with x := max 0 (C.cx - count (firstField params)) }
      (FitsBack C.cx (kept (firstField params)) (count (firstField params)))
      rfl Iff.rfl rfl rfl rfl ?_⟩
    exact (and_iff_left rfl).trans (back_fits hkept hx0 (by omega))
  by_cases hH : letter = ascii 'H'
  · subst hH
    obtain ⟨last, hparm2⟩ := parm2_field hletter hparams hstores (by omega)
    refine ⟨_, ansiCmd_H hparm2 hparm, htook
      { C.cursor with
        x := min (count (secondField params) - 1) scr.maxCol
        y := min (count (firstField params) - 1) scr.maxRow }
      (FitsPlace scr.maxCol (kept (secondField params)) (count (secondField params)) ∧
        FitsPlace scr.maxRow (kept (firstField params)) (count (firstField params)))
      rfl Iff.rfl (by dsimp only [Console.touch, Console.gotoxy])
      (by dsimp only [Console.touch, Console.gotoxy, Console.cursor])
      (by dsimp only [Console.touch, Console.gotoxy, Console.cursor]) ?_⟩
    dsimp only [Console.touch]
    exact gotoxy_fits (kept_count (secondField params)) hkept
  -- the others leave the cursor where it is
  by_cases hJ : letter = ascii 'J'
  · subst hJ
    refine ⟨_, ansiCmd_J hparm, ?_⟩
    split_ifs
    · exact htook C.cursor True rfl Iff.rfl rfl rfl rfl (iff_true_intro ⟨rfl, rfl⟩)
    · exact htook C.cursor True rfl Iff.rfl rfl rfl rfl (iff_true_intro ⟨rfl, rfl⟩)
  by_cases hK : letter = ascii 'K'
  · subst hK
    exact ⟨_, rfl, htook C.cursor True rfl Iff.rfl rfl rfl rfl (iff_true_intro ⟨rfl, rfl⟩)⟩
  by_cases hm : letter = ascii 'm'
  · subst hm
    have hlast := (stores_append.mp hstores).2.1
    rw [Nat.zero_add] at hlast
    obtain ⟨attr, last, hcolor, -⟩ := colorLoop_ok SEGMENT C.attr hlast (Nat.zero_le _)
      (by omega)
    exact ⟨_, ansiCmd_m hcolor,
      htook C.cursor True rfl Iff.rfl rfl rfl rfl (iff_true_intro ⟨rfl, rfl⟩)⟩
  · have hstill : (Cmd.ansi params letter).interpret scr C.cursor = C.cursor := by
      simp only [Cmd.interpret, Screen.ansiMoved, if_neg hs, if_neg hu, if_neg hA, if_neg hB,
        if_neg hC, if_neg hD, if_neg hH]
    have hfits : (Cmd.ansi params letter).Fits scr C.cursor ↔ True := by
      simp only [Cmd.Fits, if_neg hA, if_neg hB, if_neg hC, if_neg hD, if_neg hH]
    unfold Console.ansiCmd
    dsimp only
    rw [if_neg hs, if_neg hu, if_neg hA, if_neg hB, if_neg hC, if_neg hD, if_neg hH, if_neg hJ,
      if_neg hK, if_neg hm]
    exact ⟨_, rfl, htook C.cursor True hstill hfits rfl rfl rfl (iff_true_intro ⟨rfl, rfl⟩)⟩

theorem not_isalpha_of_isParam {b : UInt8} (h : IsParam b) : ¬isalpha b := by
  intro halpha
  have hbounds := isalpha_bounds halpha
  cases h with
  | inl hdigit =>
      have hdigit := isDigit_bounds hdigit
      omega
  | inr hsemi =>
      rw [hsemi] at hbounds
      exact absurd hbounds.1 (by decide)

/-- A console behind parameters. -/
structure Gathered (D D' : Console) (params : List UInt8) : Prop where
  state : D'.state = .ansi
  cursor : D'.cursor = D.cursor
  parmptr : D'.parmptr = D.parmptr + params.length
  stores : Stores D'.params D.parmptr params
  before : ∀ i < D.parmptr, D'.params i = D.params i

theorem writeChars_params (scr : Screen) (hstate : D.state = .ansi) (hparams : ∀ b ∈ params, IsParam b)
    (hlen : D.parmptr + params.length ≤ MAXPARMS) :
    ∃ D', D.writeChars scr params = .ok D' ∧ Gathered D D' params := by
  induction params generalizing D with
  | nil => exact ⟨D, rfl, hstate, rfl, rfl, trivial, fun _ _ => rfl⟩
  | cons b params ih =>
      have hplace : D.parmptr < MAXPARMS := by
        rw [List.length_cons] at hlen
        omega
      have hgather : D.gather b = { D.storeParm b with parmptr := D.parmptr + 1 } := if_pos hplace
      have hbyte : D.writeChar scr b = .ok (D.gather b) := by
        unfold Console.writeChar
        rw [hstate]
        exact if_neg (not_isalpha_of_isParam (hparams b List.mem_cons_self))
      obtain ⟨D', hrun, hg⟩ := ih (D := D.gather b)
        (by rw [hgather]; exact hstate)
        (fun b' hb' => hparams b' (List.mem_cons_of_mem b hb'))
        (by rw [hgather]; rw [List.length_cons] at hlen; dsimp only; omega)
      have hptr : (D.gather b).parmptr = D.parmptr + 1 := by rw [hgather]
      refine ⟨D', ?_, hg.state, ?_, ?_, ⟨?_, ?_⟩, ?_⟩
      · rw [Console.writeChars, hbyte]
        exact hrun
      · rw [hg.cursor, hgather]
        rfl
      · rw [hg.parmptr, hptr, List.length_cons]
        omega
      · rw [hg.before D.parmptr (by omega), hgather]
        exact Function.update_self _ _ _
      · rw [← hptr]
        exact hg.stores
      · intro i hi
        rw [hg.before i (by omega), hgather]
        exact Function.update_of_ne (Nat.ne_of_lt hi) _ _

theorem Stores.congr (h : Stores mem i l) (heq : ∀ j, j < i + l.length → mem' j = mem j) :
    Stores mem' i l := by
  induction l generalizing i with
  | nil => trivial
  | cons b l ih =>
      rw [List.length_cons] at heq
      exact ⟨(heq i (by omega)).trans h.1, ih h.2 fun j hj => heq j (by omega)⟩

theorem ansi_took (scr : Screen) (params : List UInt8) (hstate : D.state = .ansi) (hptr : D.parmptr = 0) (hon : D.cursor.On scr)
    (hletter : isalpha letter) (hparams : ∀ b ∈ params, IsParam b) (hlen : params.length ≤ 9) :
    ∃ C', D.writeChars scr (params ++ [letter]) = .ok C' ∧
      Took scr D.cursor (.ansi params letter) C' := by
  have hmax : MAXPARMS = 10 := rfl
  obtain ⟨D', hrun, hg⟩ := writeChars_params scr hstate hparams (by omega)
  have hptr' : D'.parmptr = params.length := by
    rw [hg.parmptr, hptr, Nat.zero_add]
  have hgather : D'.gather letter = { D'.storeParm letter with parmptr := D'.parmptr + 1 } :=
    if_pos (by omega)
  have hready := ready_store (C := D') hletter (by omega)
  have hcursor : ((D'.gather letter).storeParm 0).cursor = D.cursor := by
    rw [hgather, ← hg.cursor]
    rfl
  have hstores : Stores ((D'.gather letter).storeParm 0).params 0 (params ++ [letter, 0]) := by
    refine stores_append.mpr ⟨?_, ?_, ?_, trivial⟩
    · have hold := hg.stores
      rw [hptr] at hold
      refine hold.congr fun j hj => ?_
      rw [hgather]
      exact (Function.update_of_ne (by dsimp only; omega) _ _).trans
        (Function.update_of_ne (by omega) _ _)
    · rw [Nat.zero_add, ← hptr']
      exact hready.letter
    · rw [Nat.zero_add, ← hptr']
      exact hready.zero
  obtain ⟨C', hcmd, htook⟩ := ansiCmd_took (hcursor ▸ hon) hletter hparams hlen hstores
  rw [hcursor] at htook
  refine ⟨C', ?_, htook⟩
  rw [writeChars_snoc, hrun]
  change D'.writeChar scr letter = .ok C'
  unfold Console.writeChar
  rw [hg.state]
  exact (if_pos hletter).trans hcmd

theorem writeChars_cons {cs : List UInt8} (h : C.writeChar scr c = .ok D) :
    C.writeChars scr (c :: cs) = D.writeChars scr cs := by
  rw [Console.writeChars, h]
  rfl

theorem writeChar_esc (hstate : C.state = .normal) :
    C.writeChar scr ESC = .ok { C with state := .escSeen } := by
  unfold Console.writeChar
  rw [hstate]
  rfl

/-- A state behind `ESC`, but not in the parameters. -/
def ConState.Escaped (state : ConState) : Prop :=
  state ≠ .normal ∧ state ≠ .ansi

theorem writeChar_bracket (hstate : C.state.Escaped) :
    C.writeChar scr (ascii '[') = .ok { C with state := .ansi, parmptr := 0 } := by
  unfold Console.writeChar
  cases h : C.state with
  | normal => exact absurd h hstate.1
  | ansi => exact absurd h hstate.2
  | _ => exact if_pos rfl

theorem writeChar_vt52 (hstate : C.state.Escaped) (hc : c ≠ ascii '[') :
    C.writeChar scr c = .ok (C.vt52Cmd scr c) := by
  unfold Console.writeChar
  cases h : C.state with
  | normal => exact absurd h hstate.1
  | ansi => exact absurd h hstate.2
  | _ => exact if_neg hc

theorem writeChars_longer (hstate : C.state = .normal) (hc : c ≠ ascii '[') {state : ConState}
    (h : ({ C with state := .escSeen } : Console).vt52Cmd scr c = { C with state := state })
    (cs : List UInt8) :
    C.writeChars scr (ESC :: c :: cs) =
      ({ C with state := state } : Console).writeChars scr cs := by
  have hseen : ({ C with state := .escSeen } : Console).state.Escaped :=
    ⟨ConState.noConfusion, ConState.noConfusion⟩
  rw [writeChars_cons (writeChar_esc hstate), writeChars_cons (writeChar_vt52 hseen hc), h]

theorem writeChars_P (hstate : C.state = .normal) (cs : List UInt8) :
    C.writeChars scr (ESC :: ascii 'P' :: cs) =
      ({ C with state := .escP } : Console).writeChars scr cs :=
  writeChars_longer hstate (by decide) (vt52Cmd_P rfl) cs

theorem writeChars_Q (hstate : C.state = .normal) (cs : List UInt8) :
    C.writeChars scr (ESC :: ascii 'Q' :: cs) =
      ({ C with state := .escQ } : Console).writeChars scr cs :=
  writeChars_longer hstate (by decide) (vt52Cmd_Q rfl) cs

theorem writeChars_Y (hstate : C.state = .normal) (cs : List UInt8) :
    C.writeChars scr (ESC :: ascii 'Y' :: cs) =
      ({ C with state := .escY } : Console).writeChars scr cs :=
  writeChars_longer hstate (by decide) (vt52Cmd_Y rfl) cs

theorem writeChars_bracket (hstate : C.state = .normal) (cs : List UInt8) :
    C.writeChars scr (ESC :: ascii '[' :: cs) =
      ({ C with state := .ansi, parmptr := 0 } : Console).writeChars scr cs := by
  have hseen : ({ C with state := .escSeen } : Console).state.Escaped :=
    ⟨ConState.noConfusion, ConState.noConfusion⟩
  rw [writeChars_cons (writeChar_esc hstate), writeChars_cons (writeChar_bracket hseen)]

theorem gather_state (C : Console) (c : UInt8) : (C.gather c).state = C.state := by
  unfold Console.gather
  split_ifs
  · rfl
  · rfl

/-- What is left behind the bytes of `cmd`. -/
structure Ran (scr : Screen) (q : Cursor) (cmd : Cmd) (C : Console) : Prop where
  ends : C.state = .normal ↔ cmd.Ends
  took : cmd.Ends → Took scr q cmd.taken C

theorem plain_ran (hstate : C.state = .normal) (hon : C.cursor.On scr) (hc : c ≠ ESC) :
    ∃ C', C.writeChars scr (Cmd.plain c).bytes = .ok C' ∧ Ran scr C.cursor (.plain c) C' := by
  obtain ⟨pokes, -, heq⟩ := normalChar_eq (C := C) hon.cursor hc
  have hbyte : C.writeChar scr c = .ok (C.normalChar scr c) := by
    unfold Console.writeChar
    rw [hstate]
  refine ⟨_, (writeChars_singleton.trans hbyte).trans (by rw [heq]), ?_⟩
  exact ⟨iff_of_true hstate trivial, fun _ =>
    ⟨hstate, rfl, rfl, iff_of_true ⟨rfl, rfl⟩ trivial⟩⟩

theorem vt52Letters_short (hc : c ∈ vt52Letters) : c ≠ ascii '[' ∧ ¬Longer c := by
  simp only [vt52Letters, List.mem_cons, List.not_mem_nil, or_false] at hc
  unfold Longer
  rcases hc with rfl | rfl | rfl | rfl | rfl | rfl | rfl | rfl
  all_goals decide

theorem vt52_ran (hstate : C.state = .normal) (hon : C.cursor.On scr) (hc : c ∈ vt52Letters) :
    ∃ C', C.writeChars scr (Cmd.vt52 c).bytes = .ok C' ∧ Ran scr C.cursor (.vt52 c) C' := by
  have hshort := vt52Letters_short hc
  have hseen : ({ C with state := .escSeen } : Console).state.Escaped :=
    ⟨ConState.noConfusion, ConState.noConfusion⟩
  obtain ⟨pokes, -, heq⟩ := vt52Cmd_eq (C := { C with state := .escSeen }) hon.cursor rfl hshort.2
  have hrun : C.writeChars scr (Cmd.vt52 c).bytes =
      .ok (({ C with state := .escSeen } : Console).vt52Cmd scr c) := by
    rw [Cmd.bytes, writeChars_cons (writeChar_esc hstate), writeChars_singleton,
      writeChar_vt52 hseen hshort.1]
  exact ⟨_, hrun.trans (congrArg Except.ok heq), iff_of_true rfl trivial, fun _ =>
    ⟨rfl, rfl, rfl, iff_of_true ⟨rfl, rfl⟩ trivial⟩⟩

theorem line_ran (hstate : C.state = .normal) (hon : C.cursor.On scr) (insert : Bool) :
    ∃ C', C.writeChars scr (Cmd.line insert).bytes = .ok C' ∧
      Ran scr C.cursor (.line insert) C' := by
  obtain ⟨b, hb⟩ : ∃ b, b = if insert then ascii 'f' else ascii 'd' := ⟨_, rfl⟩
  have hbracket : b ≠ ascii '[' := by
    rw [hb]
    split_ifs
    · decide
    · decide
  have hseen : ({ C with state := .escP } : Console).state.Escaped :=
    ⟨ConState.noConfusion, ConState.noConfusion⟩
  obtain ⟨pokes, -, heq⟩ := lines_eq (C := { C with state := .escP }) hon.cursor rfl b
  have hrun : C.writeChars scr (Cmd.line insert).bytes =
      .ok (({ C with state := .escP } : Console).vt52CmdEx scr b) := by
    rw [Cmd.bytes, writeChars_P hstate, writeChars_singleton, ← hb,
      writeChar_vt52 hseen hbracket, vt52Cmd_ex ConState.noConfusion]
  exact ⟨_, hrun.trans (congrArg Except.ok heq), iff_of_true rfl trivial, fun _ =>
    ⟨rfl, rfl, rfl, iff_of_true ⟨rfl, rfl⟩ trivial⟩⟩

theorem attr_ran (hstate : C.state = .normal) (a : UInt8) :
    ∃ C', C.writeChars scr (Cmd.attr a).bytes = .ok C' ∧
      Ran scr C.cursor (.attr a) C' := by
  have hseen : ({ C with state := .escQ } : Console).state.Escaped :=
    ⟨ConState.noConfusion, ConState.noConfusion⟩
  by_cases ha : a = ascii '['
  · subst ha
    refine ⟨{ C with state := .ansi, parmptr := 0 }, ?_, ?_, fun hends => absurd rfl hends⟩
    · rw [Cmd.bytes, writeChars_Q hstate, writeChars_singleton, writeChar_bracket hseen]
    · exact iff_of_false ConState.noConfusion fun hends => hends rfl
  · have hrun : C.writeChars scr (Cmd.attr a).bytes =
        .ok (({ C with state := .escQ } : Console).vt52CmdEx scr a) := by
      rw [Cmd.bytes, writeChars_Q hstate, writeChars_singleton, writeChar_vt52 hseen ha,
        vt52Cmd_ex ConState.noConfusion]
    exact ⟨_, hrun, iff_of_true rfl ha, fun _ =>
      ⟨rfl, rfl, rfl, iff_of_true ⟨rfl, rfl⟩ trivial⟩⟩

theorem column_fits {row col : UInt8} (hrow : 32 ≤ row.toNat)
    (hrow' : (row.toNat : Int) ≤ 32 + scr.maxRow) (hcol : 32 ≤ col.toNat)
    (hcol' : (col.toNat : Int) ≤ 32 + scr.maxCol) :
    ((C.gotoxy scr (signed col - 32) (row - BLANK).toNat).cx = col.toNat - 32 ∧
      (C.gotoxy scr (signed col - 32) (row - BLANK).toNat).cy = row.toNat - 32) ↔
      col.toNat < 128 := by
  have hblank : BLANK ≤ row := UInt8.le_iff_toNat_le.mpr hrow
  have htmp : ((row - BLANK).toNat : Int) = row.toNat - 32 := by
    rw [UInt8.toNat_sub_of_le _ _ hblank]
    have hval : BLANK.toNat = 32 := rfl
    omega
  have hsigned : signed col = if col.toNat < 128 then (col.toNat : Int) else col.toNat - 256 := by
    have hlt := col.toNat_lt
    unfold signed
    rw [Int.bmod_def]
    split_ifs <;> omega
  have hbounds := scr.maxCol_bounds
  have hbounds' := scr.maxRow_bounds
  unfold Console.gotoxy
  dsimp only
  rw [htmp, hsigned]
  split_ifs <;> omega

theorem moveTo_ran (hstate : C.state = .normal) (hon : C.cursor.On scr) {row col : UInt8}
    (hproper : (Cmd.moveTo row col).Proper scr) :
    ∃ C', C.writeChars scr (Cmd.moveTo row col).bytes = .ok C' ∧
      Ran scr C.cursor (.moveTo row col) C' := by
  obtain ⟨hrow, hrow', hcol, hcol'⟩ := hproper
  have hseen : ({ C with state := .escY } : Console).state.Escaped :=
    ⟨ConState.noConfusion, ConState.noConfusion⟩
  by_cases hbracket : row = ascii '['
  · have htaken : (Cmd.moveTo row col).taken = .ansi [] col := if_pos hbracket
    have hends : (Cmd.moveTo row col).Ends ↔ isalpha col := by
      simp only [Cmd.Ends, if_pos hbracket]
    have hstart (cs : List UInt8) : C.writeChars scr (ESC :: ascii 'Y' :: row :: cs) =
        ({ C with state := .ansi, parmptr := 0 } : Console).writeChars scr cs := by
      rw [writeChars_Y hstate, hbracket, writeChars_cons (writeChar_bracket hseen)]
    by_cases halpha : isalpha col
    · obtain ⟨C', hrun, htook⟩ := ansi_took scr []
        (D := { C with state := .ansi, parmptr := 0 }) rfl rfl hon halpha
        (fun _ hb => nomatch hb) (Nat.zero_le 9)
      refine ⟨C', (hstart [col]).trans hrun, iff_of_true htook.state (hends.mpr halpha), ?_⟩
      rw [htaken]
      exact fun _ => htook
    · refine ⟨_, (hstart [col]).trans (writeChars_singleton.trans (if_neg halpha)), ?_,
        fun h => absurd (hends.mp h) halpha⟩
      refine iff_of_false ?_ fun h => halpha (hends.mp h)
      rw [gather_state]
      exact ConState.noConfusion
  · have htaken : (Cmd.moveTo row col).taken = .moveTo row col := if_neg hbracket
    have hends : (Cmd.moveTo row col).Ends ↔ col ≠ ascii '[' := by
      simp only [Cmd.Ends, if_neg hbracket]
    have hseen' : ({ C with tmp := row - BLANK, state := .escY2 } : Console).state.Escaped :=
      ⟨ConState.noConfusion, ConState.noConfusion⟩
    have hrowbyte : ({ C with state := .escY } : Console).writeChar scr row =
        .ok { C with tmp := row - BLANK, state := .escY2 } := by
      rw [writeChar_vt52 hseen hbracket, vt52Cmd_ex ConState.noConfusion]
      rfl
    have hstart (cs : List UInt8) : C.writeChars scr (ESC :: ascii 'Y' :: row :: cs) =
        ({ C with tmp := row - BLANK, state := .escY2 } : Console).writeChars scr cs := by
      rw [writeChars_Y hstate, writeChars_cons hrowbyte]
    by_cases hcolumn : col = ascii '['
    · refine ⟨{ C with tmp := row - BLANK, state := .ansi, parmptr := 0 }, ?_, ?_,
        fun h => absurd hcolumn (hends.mp h)⟩
      · rw [Cmd.bytes, hstart, writeChars_singleton, hcolumn, writeChar_bracket hseen']
      · exact iff_of_false ConState.noConfusion fun h => hends.mp h hcolumn
    · have hrun : C.writeChars scr (Cmd.moveTo row col).bytes =
          .ok (({ C with tmp := row - BLANK, state := .normal } : Console).gotoxy scr
            (signed col - 32) (row - BLANK).toNat) := by
        rw [Cmd.bytes, hstart, writeChars_singleton, writeChar_vt52 hseen' hcolumn,
          vt52Cmd_ex ConState.noConfusion]
        rfl
      refine ⟨_, hrun, iff_of_true rfl (hends.mpr hcolumn), ?_⟩
      rw [htaken]
      exact fun _ => ⟨rfl, rfl, rfl, column_fits hrow hrow' hcol hcol'⟩

theorem ansi_ran (hstate : C.state = .normal) (hon : C.cursor.On scr)
    (hproper : (Cmd.ansi params letter).Proper scr) :
    ∃ C', C.writeChars scr (Cmd.ansi params letter).bytes = .ok C' ∧
      Ran scr C.cursor (.ansi params letter) C' := by
  obtain ⟨hlen, hparams, hletter⟩ := hproper
  obtain ⟨C', hrun, htook⟩ := ansi_took scr params
    (D := { C with state := .ansi, parmptr := 0 }) rfl rfl hon hletter hparams hlen
  refine ⟨C', ?_, iff_of_true htook.state trivial, fun _ => htook⟩
  rw [Cmd.bytes, writeChars_bracket hstate]
  exact hrun

theorem command_ran (hstate : C.state = .normal) (hon : C.cursor.On scr) {cmd : Cmd}
    (hproper : cmd.Proper scr) :
    ∃ C', C.writeChars scr cmd.bytes = .ok C' ∧ Ran scr C.cursor cmd C' := by
  cases cmd with
  | plain c => exact plain_ran hstate hon hproper
  | vt52 c => exact vt52_ran hstate hon hproper
  | line insert => exact line_ran hstate hon insert
  | attr a => exact attr_ran hstate a
  | moveTo row col => exact moveTo_ran hstate hon hproper
  | ansi params letter => exact ansi_ran hstate hon hproper

theorem prefix_cons_cases {α : Type} {x : α} {p rest : List α} (h : p <+: x :: rest)
    (hne : p ≠ x :: rest) : p = [] ∨ ∃ p', p = x :: p' ∧ p' <+: rest ∧ p' ≠ rest := by
  cases p with
  | nil => exact .inl rfl
  | cons y p =>
      obtain ⟨rfl, hp⟩ := List.cons_prefix_cons.mp h
      exact .inr ⟨p, rfl, hp, fun heq => hne (congrArg _ heq)⟩

theorem inside_longer (hstate : C.state = .normal) {state : ConState} (hc : c ≠ ascii '[')
    (h : ({ C with state := .escSeen } : Console).vt52Cmd scr c = { C with state := state })
    {rest part : List UInt8} (hpart : part <+: ESC :: c :: rest)
    (hne : part ≠ ESC :: c :: rest) (hnil : part ≠ [])
    (hrest : ∀ p, p <+: rest → p ≠ rest →
      ∃ C', ({ C with state := state } : Console).writeChars scr p = .ok C' ∧
        C'.state ≠ .normal) :
    ∃ C', C.writeChars scr part = .ok C' ∧ C'.state ≠ .normal := by
  obtain hempty | ⟨p, rfl, hp, hpne⟩ := prefix_cons_cases hpart hne
  · exact absurd hempty hnil
  obtain rfl | ⟨p', rfl, hp', hpne'⟩ := prefix_cons_cases hp hpne
  · exact ⟨_, writeChars_singleton.trans (writeChar_esc hstate), ConState.noConfusion⟩
  · rw [writeChars_longer hstate hc h]
    exact hrest p' hp' hpne'

theorem command_inside (hstate : C.state = .normal) {cmd : Cmd} (hproper : cmd.Proper scr)
    {part : List UInt8} (hpart : part <+: cmd.bytes) (hnil : part ≠ []) (hne : part ≠ cmd.bytes) :
    ∃ C', C.writeChars scr part = .ok C' ∧ C'.state ≠ .normal := by
  have hlast {state : ConState} {b : UInt8} (hother : state ≠ .normal) (p : List UInt8)
      (hp : p <+: [b]) (hpne : p ≠ [b]) :
      ∃ C', ({ C with state := state } : Console).writeChars scr p = .ok C' ∧
        C'.state ≠ .normal := by
    obtain rfl | ⟨p', rfl, hp', hpne'⟩ := prefix_cons_cases hp hpne
    · exact ⟨_, rfl, hother⟩
    · exact absurd (List.prefix_nil.mp hp') hpne'
  cases cmd with
  | plain c =>
      obtain hempty | ⟨p, rfl, hp, hpne⟩ := prefix_cons_cases hpart hne
      · exact absurd hempty hnil
      · exact absurd (List.prefix_nil.mp hp) hpne
  | vt52 c =>
      obtain hempty | ⟨p, rfl, hp, hpne⟩ := prefix_cons_cases hpart hne
      · exact absurd hempty hnil
      rw [writeChars_cons (writeChar_esc hstate)]
      exact hlast ConState.noConfusion p hp hpne
  | line insert =>
      exact inside_longer hstate (by decide) (vt52Cmd_P rfl) hpart hne hnil
        (hlast ConState.noConfusion)
  | attr a =>
      exact inside_longer hstate (by decide) (vt52Cmd_Q rfl) hpart hne hnil
        (hlast ConState.noConfusion)
  | moveTo row col =>
      refine inside_longer hstate (by decide) (vt52Cmd_Y rfl) hpart hne hnil fun p hp hpne => ?_
      obtain rfl | ⟨p', rfl, hp', hpne'⟩ := prefix_cons_cases hp hpne
      · exact ⟨_, rfl, ConState.noConfusion⟩
      obtain rfl | ⟨p'', rfl, hp'', hpne''⟩ := prefix_cons_cases hp' hpne'
      · have hseen : ({ C with state := .escY } : Console).state.Escaped :=
          ⟨ConState.noConfusion, ConState.noConfusion⟩
        by_cases hbracket : row = ascii '['
        · refine ⟨_, writeChars_singleton.trans (hbracket ▸ writeChar_bracket hseen),
            ConState.noConfusion⟩
        · refine ⟨_, writeChars_singleton.trans (writeChar_vt52 hseen hbracket), ?_⟩
          rw [vt52Cmd_ex ConState.noConfusion]
          exact ConState.noConfusion
      · exact absurd (List.prefix_nil.mp hp'') hpne''
  | ansi params letter =>
      obtain ⟨hlen, hparams, hletter⟩ := hproper
      have hmax : MAXPARMS = 10 := rfl
      obtain hempty | ⟨p, rfl, hp, hpne⟩ := prefix_cons_cases hpart hne
      · exact absurd hempty hnil
      obtain rfl | ⟨p', rfl, hp', hpne'⟩ := prefix_cons_cases hp hpne
      · exact ⟨_, writeChars_singleton.trans (writeChar_esc hstate), ConState.noConfusion⟩
      have hfront : p' <+: params := by
        obtain hall | hfront := List.prefix_concat_iff.mp hp'
        · exact absurd hall hpne'
        · exact hfront
      have hlen' := hfront.length_le
      obtain ⟨D', hrun, hg⟩ := writeChars_params scr
        (D := { C with state := .ansi, parmptr := 0 }) rfl
        (fun b hb => hparams b (hfront.subset hb)) (by dsimp only; omega)
      refine ⟨D', (writeChars_bracket hstate p').trans hrun, ?_⟩
      rw [hg.state]
      exact ConState.noConfusion

end Commands

section Runs

variable {scr : Screen} {C C' : Console} {q q' : Cursor} {cmd : Cmd} {cmds pre : List Cmd}

theorem interpret_on (hon : q.On scr) (hproper : cmd.Proper scr) :
    (cmd.interpret scr q).On scr := by
  have hcol := scr.maxCol_bounds
  have hrow := scr.maxRow_bounds
  obtain ⟨hx0, hx, hy0, hy⟩ := hon.cursor
  cases cmd with
  | plain c => exact ⟨typed_holds hon.cursor c, hon.saved⟩
  | vt52 c => exact ⟨moved_holds hon.cursor c, hon.saved⟩
  | line insert => exact hon
  | attr a => exact hon
  | moveTo row col =>
      obtain ⟨hrow, hrow', hcol, hcol'⟩ := hproper
      exact ⟨⟨by dsimp only [Cmd.interpret]; omega, by dsimp only [Cmd.interpret]; omega,
        by dsimp only [Cmd.interpret]; omega, by dsimp only [Cmd.interpret]; omega⟩, hon.saved⟩
  | ansi params letter =>
      have hn := (kept_count (firstField params)).pos
      have hm := (kept_count (secondField params)).pos
      simp only [Cmd.interpret, Screen.ansiMoved]
      split_ifs
      · exact ⟨hon.cursor, hon.cursor⟩
      · exact ⟨hon.saved, hon.saved⟩
      · exact ⟨⟨hx0, hx, by dsimp only; omega, by dsimp only; omega⟩, hon.saved⟩
      · exact ⟨⟨hx0, hx, by dsimp only; omega, by dsimp only; omega⟩, hon.saved⟩
      · exact ⟨⟨by dsimp only; omega, by dsimp only; omega, hy0, hy⟩, hon.saved⟩
      · exact ⟨⟨by dsimp only; omega, by dsimp only; omega, hy0, hy⟩, hon.saved⟩
      · exact ⟨⟨by dsimp only; omega, by dsimp only; omega, by dsimp only; omega,
          by dsimp only; omega⟩, hon.saved⟩
      · exact hon

theorem taken_proper (hproper : cmd.Proper scr) (hends : cmd.Ends) : cmd.taken.Proper scr := by
  cases cmd with
  | moveTo row col =>
      by_cases hbracket : row = ascii '['
      · have htaken : (Cmd.moveTo row col).taken = .ansi [] col := if_pos hbracket
        simp only [Cmd.Ends, if_pos hbracket] at hends
        rw [htaken]
        exact ⟨Nat.zero_le 9, List.forall_mem_nil _, hends⟩
      · have htaken : (Cmd.moveTo row col).taken = .moveTo row col := if_neg hbracket
        rw [htaken]
        exact hproper
  | _ => exact hproper

theorem ansi_nil_fits (hon : q.On scr) (letter : UInt8) : (Cmd.ansi [] letter).Fits scr q := by
  have hkept : kept (firstField []) = 1 := rfl
  have hcount : count (firstField []) = 1 := rfl
  have hkept' : kept (secondField []) = 1 := rfl
  have hcount' : count (secondField []) = 1 := rfl
  have hcol := scr.maxCol_bounds
  have hrow := scr.maxRow_bounds
  obtain ⟨hx0, hx, hy0, hy⟩ := hon.cursor
  simp only [Cmd.Fits, hkept, hcount, hkept', hcount']
  split_ifs
  · exact .inl rfl
  · exact ⟨by decide, by omega, .inl rfl⟩
  · exact ⟨by decide, by omega, .inl rfl⟩
  · exact .inl rfl
  · exact ⟨.inl rfl, .inl rfl⟩

theorem interpret_place (hx : q.x = q'.x) (hy : q.y = q'.y)
    (hsaved : ∀ params, cmd ≠ .ansi params (ascii 'u')) :
    (cmd.interpret scr q).x = (cmd.interpret scr q').x ∧
      (cmd.interpret scr q).y = (cmd.interpret scr q').y := by
  cases cmd with
  | ansi params letter =>
      have hu : letter ≠ ascii 'u' := fun hu => hsaved params (by rw [hu])
      simp only [Cmd.interpret, Screen.ansiMoved, if_neg hu]
      split_ifs <;> simp only [hx, hy, and_self]
  | _ => simp only [Cmd.interpret, hx, hy, and_self]

theorem Took.fits (htook : Took scr q cmd.taken C') (hon : q.On scr) (hx : q.x = q'.x)
    (hy : q.y = q'.y)
    (hplace : C'.cx = (cmd.interpret scr q').x ∧ C'.cy = (cmd.interpret scr q').y) :
    cmd.taken.Fits scr q := by
  have hsame (htaken : cmd.taken = cmd) (hsaved : ∀ params, cmd ≠ .ansi params (ascii 'u')) :
      cmd.taken.Fits scr q := by
    refine htook.place.mp ?_
    rw [htaken, (interpret_place hx hy hsaved).1, (interpret_place hx hy hsaved).2]
    exact hplace
  cases cmd with
  | ansi params letter =>
      by_cases hu : letter = ascii 'u'
      · simp [Cmd.taken, Cmd.Fits, hu, ascii_eq_iff]
      · exact hsame rfl fun params' heq => hu (Cmd.ansi.inj heq).2
  | moveTo row col =>
      by_cases hbracket : row = ascii '['
      · have htaken : (Cmd.moveTo row col).taken = .ansi [] col := if_pos hbracket
        rw [htaken]
        exact ansi_nil_fits hon col
      · exact hsame (if_neg hbracket) fun _ heq => Cmd.noConfusion heq
  | _ => exact hsame rfl fun _ heq => Cmd.noConfusion heq

/-- A list of commands that the console follows, by what each is taken for: they are whole,
their numbers fit, and the places are those that the commands mean. -/
structure Understood (scr : Screen) (q : Cursor) (cmds : List Cmd) : Prop where
  ends : ∀ cmd ∈ cmds, cmd.Ends
  fits : ∀ pre cmd, pre ++ [cmd] <+: cmds →
    cmd.taken.Fits scr (interpretAll scr q (pre.map Cmd.taken))
  place : ∀ pre, pre <+: cmds →
    (interpretAll scr q (pre.map Cmd.taken)).x = (interpretAll scr q pre).x ∧
      (interpretAll scr q (pre.map Cmd.taken)).y = (interpretAll scr q pre).y

theorem interpretAll_snoc : interpretAll scr q (pre ++ [cmd]) =
    cmd.interpret scr (interpretAll scr q pre) :=
  List.foldl_concat _ _ _ _

theorem interpretAll_taken_snoc : interpretAll scr q ((pre ++ [cmd]).map Cmd.taken) =
    cmd.taken.interpret scr (interpretAll scr q (pre.map Cmd.taken)) := by
  rw [List.map_append]
  exact interpretAll_snoc

theorem writeChars_command {D : Console}
    (hrun : C.writeChars scr (pre.flatMap Cmd.bytes) = .ok D) (part : List UInt8) :
    C.writeChars scr (pre.flatMap Cmd.bytes ++ part) = D.writeChars scr part := by
  rw [writeChars_append, hrun]
  rfl

theorem flatMap_snoc : (pre ++ [cmd]).flatMap Cmd.bytes = pre.flatMap Cmd.bytes ++ cmd.bytes := by
  rw [List.flatMap_append, List.flatMap_singleton]

/-- What a console is behind commands that it has taken. -/
structure Behind (scr : Screen) (q : Cursor) (pre : List Cmd) (C' : Console) : Prop where
  state : C'.state = .normal
  cursor : C'.cursor = interpretAll scr q (pre.map Cmd.taken)
  on : C'.cursor.On scr

theorem Behind.next (hb : Behind scr q pre C') (hproper : cmd.Proper scr) (hends : cmd.Ends)
    (hfits : cmd.taken.Fits scr (interpretAll scr q (pre.map Cmd.taken))) {D : Console}
    (htook : Took scr C'.cursor cmd.taken D) : Behind scr q (pre ++ [cmd]) D := by
  rw [← hb.cursor] at hfits
  have hplace := htook.place.mpr hfits
  have hcursor : D.cursor = cmd.taken.interpret scr C'.cursor := by
    unfold Console.cursor at hplace htook ⊢
    rw [hplace.1, hplace.2, htook.savex, htook.savey]
  refine ⟨htook.state, ?_, ?_⟩
  · rw [hcursor, hb.cursor, interpretAll_taken_snoc]
  · rw [hcursor]
    exact interpret_on hb.on (taken_proper hproper hends)

theorem Console.Initial.behind (h : C.Initial scr) : Behind scr C.cursor [] C :=
  ⟨h.state, rfl, h.inside.cursor, h.inside.saved⟩

theorem proper_of_initial (hcmds : ∀ cmd ∈ cmds, cmd.Proper scr) (hpre : pre ++ [cmd] <+: cmds) :
    cmd.Proper scr :=
  hcmds cmd (hpre.subset (List.mem_append_right pre List.mem_cons_self))

theorem understood_behind (h : C.Initial scr) (hcmds : ∀ cmd ∈ cmds, cmd.Proper scr)
    (hund : Understood scr C.cursor cmds) (hpre : pre <+: cmds) :
    ∃ C', C.writeChars scr (pre.flatMap Cmd.bytes) = .ok C' ∧ Behind scr C.cursor pre C' := by
  induction pre using List.reverseRecOn with
  | nil => exact ⟨C, rfl, h.behind⟩
  | append_singleton pre cmd ih =>
      obtain ⟨D, hrun, hb⟩ := ih ((List.prefix_append pre [cmd]).trans hpre)
      have hproper := proper_of_initial hcmds hpre
      obtain ⟨E, hrun', hran⟩ := command_ran hb.state hb.on hproper
      have hends := hund.ends cmd (hpre.subset (List.mem_append_right pre List.mem_cons_self))
      refine ⟨E, ?_, hb.next hproper hends (hund.fits pre cmd hpre) (hran.took hends)⟩
      rw [flatMap_snoc, writeChars_command hrun]
      exact hrun'

theorem follows_next (hfollows : Follows scr C cmds) (hproper : cmd.Proper scr)
    (hpre : pre ++ [cmd] <+: cmds) (hrun : C.writeChars scr (pre.flatMap Cmd.bytes) = .ok C')
    (hb : Behind scr C.cursor pre C') :
    cmd.Ends ∧ cmd.taken.Fits scr (interpretAll scr C.cursor (pre.map Cmd.taken)) ∧
      ∃ D, C.writeChars scr ((pre ++ [cmd]).flatMap Cmd.bytes) = .ok D ∧
        Behind scr C.cursor (pre ++ [cmd]) D := by
  obtain ⟨D, hrunD, hran⟩ := command_ran hb.state hb.on hproper
  have hsnoc : C.writeChars scr ((pre ++ [cmd]).flatMap Cmd.bytes) = .ok D := by
    rw [flatMap_snoc, writeChars_command hrun]
    exact hrunD
  obtain ⟨E, hE, hstate, hx, hy⟩ := hfollows.boundary (pre ++ [cmd]) hpre
  obtain rfl := Except.ok.inj (hsnoc.symm.trans hE)
  obtain ⟨F, hF, -, hx', hy'⟩ :=
    hfollows.boundary pre ((List.prefix_append pre [cmd]).trans hpre)
  obtain rfl := Except.ok.inj (hrun.symm.trans hF)
  have hends := hran.ends.mp hstate
  have htook := hran.took hends
  rw [interpretAll_snoc] at hx hy
  have hfits := htook.fits hb.on hx' hy' ⟨hx, hy⟩
  rw [hb.cursor] at hfits
  exact ⟨hends, hfits, D, hsnoc, hb.next hproper hends hfits htook⟩

theorem follows_behind (h : C.Initial scr) (hcmds : ∀ cmd ∈ cmds, cmd.Proper scr)
    (hfollows : Follows scr C cmds) (hpre : pre <+: cmds) :
    ∃ C', C.writeChars scr (pre.flatMap Cmd.bytes) = .ok C' ∧ Behind scr C.cursor pre C' := by
  induction pre using List.reverseRecOn with
  | nil => exact ⟨C, rfl, h.behind⟩
  | append_singleton pre cmd ih =>
      obtain ⟨D, hrun, hb⟩ := ih ((List.prefix_append pre [cmd]).trans hpre)
      exact (follows_next hfollows (proper_of_initial hcmds hpre) hpre hrun hb).2.2

theorem Follows.understood (h : C.Initial scr) (hcmds : ∀ cmd ∈ cmds, cmd.Proper scr)
    (hfollows : Follows scr C cmds) : Understood scr C.cursor cmds := by
  have hnext {pre : List Cmd} {cmd : Cmd} (hpre : pre ++ [cmd] <+: cmds) :
      cmd.Ends ∧ cmd.taken.Fits scr (interpretAll scr C.cursor (pre.map Cmd.taken)) := by
    obtain ⟨D, hrun, hb⟩ :=
      follows_behind h hcmds hfollows ((List.prefix_append pre [cmd]).trans hpre)
    have hstep := follows_next hfollows (proper_of_initial hcmds hpre) hpre hrun hb
    exact ⟨hstep.1, hstep.2.1⟩
  refine ⟨fun cmd hcmd => ?_, fun pre cmd hpre => (hnext hpre).2, fun pre hpre => ?_⟩
  · obtain ⟨pre, post, hsplit⟩ := List.append_of_mem hcmd
    have hpre : pre ++ [cmd] <+: cmds := ⟨post, by rw [hsplit, List.append_assoc]; rfl⟩
    exact (hnext hpre).1
  · obtain ⟨D, hrun, hb⟩ := follows_behind h hcmds hfollows hpre
    obtain ⟨E, hE, -, hx, hy⟩ := hfollows.boundary pre hpre
    obtain rfl := Except.ok.inj (hrun.symm.trans hE)
    rw [← hb.cursor]
    exact ⟨hx, hy⟩

theorem Understood.follows (h : C.Initial scr) (hcmds : ∀ cmd ∈ cmds, cmd.Proper scr)
    (hund : Understood scr C.cursor cmds) : Follows scr C cmds := by
  refine ⟨fun pre hpre => ?_, fun pre cmd hpre part hpart hnil hne => ?_⟩
  · obtain ⟨D, hrun, hb⟩ := understood_behind h hcmds hund hpre
    have hplace := hund.place pre hpre
    rw [← hb.cursor] at hplace
    exact ⟨D, hrun, hb.state, hplace.1, hplace.2⟩
  · obtain ⟨D, hrun, hb⟩ :=
      understood_behind h hcmds hund ((List.prefix_append pre [cmd]).trans hpre)
    obtain ⟨E, hE, hstate⟩ :=
      command_inside hb.state (proper_of_initial hcmds hpre) hpart hnil hne
    refine ⟨E, ?_, hstate⟩
    rw [writeChars_command hrun]
    exact hE

/-- The console follows a list of commands exactly when it understands them. -/
theorem follows_commands_iff (h : C.Initial scr) (hcmds : ∀ cmd ∈ cmds, cmd.Proper scr) :
    Follows scr C cmds ↔ Understood scr C.cursor cmds :=
  ⟨fun hfollows => hfollows.understood h hcmds, fun hund => hund.follows h hcmds⟩

/-- `ESC [ 2 ; 3 H` on a screen of 80 columns and 25 rows. -/
theorem follows_place :
    Follows Screen.vga Console.corner
      [.ansi [ascii '2', ascii ';', ascii '3'] (ascii 'H')] := by
  refine (follows_commands_iff corner_initial ?_).mpr ⟨?_, ?_, ?_⟩
  · intro cmd hcmd
    obtain rfl := List.mem_singleton.mp hcmd
    refine ⟨by decide, ?_, by decide⟩
    intro b hb
    simp only [List.mem_cons, List.not_mem_nil, or_false] at hb
    rcases hb with rfl | rfl | rfl
    · exact .inl (by decide)
    · exact .inr rfl
    · exact .inl (by decide)
  · intro cmd hcmd
    obtain rfl := List.mem_singleton.mp hcmd
    trivial
  · intro pre cmd hpre
    have hlen := hpre.length_le
    obtain rfl : pre = [] := by
      rw [List.length_append, List.length_singleton] at hlen
      exact List.length_eq_zero_iff.mp (Nat.le_zero.mp (Nat.le_of_succ_le_succ hlen))
    obtain ⟨rfl, -⟩ := List.cons_prefix_cons.mp hpre
    have hfits : FitsPlace Screen.vga.maxCol (kept [ascii '3']) (count [ascii '3']) ∧
        FitsPlace Screen.vga.maxRow (kept [ascii '2']) (count [ascii '2']) :=
      ⟨.inl (by decide), .inl (by decide)⟩
    simp only [Cmd.taken, Cmd.Fits, List.map_nil]
    rw [if_neg (by decide), if_neg (by decide), if_neg (by decide), if_neg (by decide),
      if_pos trivial]
    exact hfits
  · intro pre hpre
    cases pre with
    | nil => exact ⟨rfl, rfl⟩
    | cons cmd pre =>
        obtain ⟨rfl, hp⟩ := List.cons_prefix_cons.mp hpre
        obtain rfl := List.prefix_nil.mp hp
        exact ⟨rfl, rfl⟩

/-- `ESC Y` to the first row and column 59, whose byte is `[`. -/
theorem place_not_followed :
    (Cmd.moveTo 32 (ascii '[')).Proper Screen.vga ∧
      ¬Follows Screen.vga Console.corner [.moveTo 32 (ascii '[')] := by
  refine ⟨⟨by decide, by decide, by decide, by decide⟩, fun hfollows => ?_⟩
  obtain ⟨C', hrun, hstate, -⟩ := hfollows.boundary _ List.prefix_rfl
  have hansi : (Console.corner.writeChars Screen.vga
      ([Cmd.moveTo 32 (ascii '[')].flatMap Cmd.bytes)).toOption.map Console.state =
        some .ansi := by
    decide +kernel
  rw [hrun] at hansi
  exact absurd (hstate.symm.trans (Option.some.inj hansi)) ConState.noConfusion

end Runs

end Dircon
end Tty
end Elks
