import Elks.Lib.Machine
import Elks.Tty.QueueCalls

/-!
# The direct console (arch/i86/drivers/char/dircon.c)

`WriteChar` takes the bytes for a console one after the other.  It is in one of seven
states, by what it has seen of a command; the parameters of a command with `ESC [` are
gathered in `params`, ten bytes behind which the memory goes on.  An `int` has 16 bits and
a `char` a sign.

Of the video memory the model keeps what is done to it, in the order in which it is done,
and of the accesses to `params` how far they have gone.  The graphics lock is not held.
The hardware cursor and the bell are left out.

`atoi` (lib/string.c) goes on over every byte up to a `9`, so it is a letter that ends it
here, and not the zero.
-/

namespace Elks
namespace Tty
namespace Dircon

open Lib ChQueue

/-- The byte of a character. -/
def ascii (c : Char) : UInt8 :=
  c.toUInt8

/-- What an `int` keeps. -/
def int16 (n : Int) : Int :=
  (n + 32768) % 65536 - 32768

/-- What an `unsigned int` keeps. -/
def uint16 (n : Int) : Nat :=
  (n % 65536).toNat

def BEL : UInt8 := 7
def BS : UInt8 := 8
def NL : UInt8 := 10
def CR : UInt8 := 13
def ESC : UInt8 := 27
def BLANK : UInt8 := 32

def A_DEFAULT : UInt8 := 0x07
def A_BOLD : UInt8 := 0x08
def A_BLINK : UInt8 := 0x80
def A_REVERSE : UInt8 := 0x70
def A_BLANK : UInt8 := 0x00

def MAXPARMS : Nat := 10

/-- `AttrArry`. -/
def attrArry : List UInt8 :=
  [A_DEFAULT, A_BOLD, A_BLINK, A_REVERSE, A_BLANK]

/-- The states of a console, `ST_NORMAL` to `ST_ESCY2`. -/
inductive ConState
  | normal
  | escSeen
  | ansi
  | escP
  | escQ
  | escY
  | escY2
deriving DecidableEq

/-- What is done to the video memory. -/
inductive Poke
  | pokeb (off : Nat) (b : UInt8)
  | pokew (off : Nat) (w : Nat)
  | farMemmove (rdofs wrofs bytes : Nat)

/-- The offsets of the bytes that are written.  `far_memmove` takes the 16s of the offset
into the segment. -/
def Poke.offsets : Poke → List Nat
  | .pokeb off _ => [off]
  | .pokew off _ => [off, off + 1]
  | .farMemmove _ wrofs bytes =>
      (List.range bytes).map fun i => wrofs / 16 * 16 + (wrofs % 16 + i) % 65536

/-- `Width` and `Height`. -/
structure Screen where
  width : Int
  height : Int
  width_pos : 0 < width
  height_pos : 0 < height
  width_lt : width < 32768
  height_lt : height < 32768

/-- `MaxCol`. -/
def Screen.maxCol (scr : Screen) : Int :=
  scr.width - 1

/-- `MaxRow`. -/
def Screen.maxRow (scr : Screen) : Int :=
  scr.height - 1

/-- A `Console`, with the bytes of the memory from `params` on, what has been done to the
video memory, and one more than the last of the places from `params` on that has been read
or written. -/
structure Console where
  cx : Int
  cy : Int
  state : ConState
  attr : UInt8
  tmp : UInt8
  savex : Int
  savey : Int
  parmptr : Nat
  params : Nat → UInt8
  pokes : List Poke
  reach : Nat

section Numbers

variable (mem : Nat → UInt8)

/-- The first loop of `atoi`: to a zero or to something behind the blanks. -/
def skipBlanks : Nat → Nat → Except Fault Nat
  | 0, _ => .error .endless
  | fuel + 1, i =>
      if signed (mem i) ≤ 32 then
        if mem i = 0 then .ok i else skipBlanks fuel (i + 1)
      else
        .ok i

/-- The second loop of `atoi`, with the place where it ends. -/
def digits : Nat → Nat → Int → Except Fault (Int × Nat)
  | 0, _, _ => .error .endless
  | fuel + 1, i, n =>
      if signed (mem i) - 48 ≤ 9 then
        digits fuel (i + 1) (int16 (n * 10 + (signed (mem i) - 48)))
      else
        .ok (n, i)

/-- The loop of `parm2`. -/
def scanSemicolon : Nat → Nat → Except Fault Nat
  | 0, _ => .error .endless
  | fuel + 1, i =>
      if mem i ≠ ascii ';' ∧ mem i ≠ 0 then scanSemicolon fuel (i + 1) else .ok i

/-- A loop over a segment that does not end in as many rounds does not end. -/
def SEGMENT : Nat := 65536

/-- `atoi`, with the last place that it reads. -/
def atoi (i : Nat) : Except Fault (Int × Nat) := do
  let i ← skipBlanks mem SEGMENT i
  if mem i = 0 then
    return (0, i)
  else
    let start := if mem i = ascii '-' ∨ mem i = ascii '+' then i + 1 else i
    let (n, last) ← digits mem SEGMENT start 0
    return (if mem i = ascii '-' then int16 (-n) else n, last)

/-- `parm1`. -/
def parm1 (i : Nat) : Except Fault (Int × Nat) := do
  let (np, last) ← atoi mem i
  return (if np ≠ 0 then np else 1, last)

/-- `parm2`. -/
def parm2 (i : Nat) : Except Fault (Int × Nat) := do
  let i ← scanSemicolon mem SEGMENT i
  parm1 mem (if mem i ≠ 0 then i + 1 else i)

/-- A digit from `0` to `7`. -/
def isColor (b : UInt8) : Prop :=
  ascii '0' ≤ b ∧ b ≤ ascii '7'

instance (b : UInt8) : Decidable (isColor b) :=
  inferInstanceAs (Decidable (_ ∧ _))

/-- The loop of `AnsiCmd` over the parameters of a color: the attribute, and the last place
that it reads. -/
def colorLoop : Nat → Nat → UInt8 → Except Fault (UInt8 × Nat)
  | 0, _, _ => .error .endless
  | fuel + 1, p, attr =>
      if mem p = ascii 'm' then .ok (if p = 0 then A_DEFAULT else attr, p)
      else if mem p = ascii ';' then colorLoop fuel (p + 1) attr
      else if mem p = ascii '0' then colorLoop fuel (p + 1) A_DEFAULT
      else if mem p = ascii '1' then colorLoop fuel (p + 1) (attr ||| A_BOLD)
      else if mem p = ascii '5' then colorLoop fuel (p + 1) (attr ||| A_BLINK)
      else if mem p = ascii '7' then colorLoop fuel (p + 1) A_REVERSE
      else if mem p = ascii '8' then colorLoop fuel (p + 1) A_BLANK
      else if mem p = ascii '3' then
        if isColor (mem (p + 1)) then
          colorLoop fuel (p + 2) (attr &&& 0xf8 ||| mem (p + 1) &&& 0x07)
        else
          .ok (A_DEFAULT, p + 1)
      else if mem p = ascii '4' then
        if isColor (mem (p + 1)) then
          colorLoop fuel (p + 2) (attr &&& 0x8f ||| mem (p + 1) <<< (4 : UInt8) &&& 0x70)
        else
          .ok (A_DEFAULT, p + 1)
      else .ok (A_DEFAULT, p)

end Numbers

/-- `isalpha`. -/
def isalpha (c : UInt8) : Prop :=
  (c ||| 0x20) - ascii 'a' < 26

instance (c : UInt8) : Decidable (isalpha c) :=
  inferInstanceAs (Decidable ((c ||| 0x20) - ascii 'a' < 26))

section Code

variable (scr : Screen) (C : Console)

/-- An access to a place from `params` on. -/
def Console.touch (i : Nat) : Console :=
  { C with reach := max C.reach (i + 1) }

/-- `*parmptr = c`. -/
def Console.storeParm (c : UInt8) : Console :=
  { C with params := Function.update C.params C.parmptr c }.touch C.parmptr

/-- `ClearRange`. -/
def Console.clearRange (x y xx yy : Int) : Console :=
  let en := uint16 ((xx + yy * scr.width) * 2)
  let ofs := uint16 ((x + y * scr.width) * 2)
  { C with
    pokes := C.pokes ++
      (List.range' ofs ((en - ofs) / 2) 2).map fun off => .pokew off 0x0720 }

/-- `ScrollUp`. -/
def Console.scrollUp (st en : Int) : Console :=
  if 1 ≤ st ∧ st < en then
    let rdofs := uint16 (scr.width * 2 * st)
    let wrofs := uint16 (rdofs - scr.width * 2)
    let bytes := uint16 (scr.width * (en - st) * 2)
    { C with pokes := C.pokes ++ [Poke.farMemmove rdofs wrofs bytes] }.clearRange scr
      0 (en - 1) scr.width (en - 1)
  else
    C

/-- `ScrollDown`. -/
def Console.scrollDown (st en : Int) : Console :=
  if st ≤ en ∧ en ≤ scr.height then
    let rdofs := uint16 (scr.width * 2 * st)
    let wrofs := uint16 (rdofs + scr.width * 2)
    let bytes := uint16 (scr.width * (en - st) * 2)
    { C with pokes := C.pokes ++ [Poke.farMemmove rdofs wrofs bytes] }.clearRange scr
      0 st scr.width st
  else
    C

/-- `Console_gotoxy`. -/
def Console.gotoxy (x y : Int) : Console :=
  { C with
    cx := if scr.maxCol ≤ x then scr.maxCol else if x < 0 then 0 else x
    cy := if scr.maxRow ≤ y then scr.maxRow else if y < 0 then 0 else y }

/-- `AnsiCmd`. -/
def Console.ansiCmd (c : UInt8) : Except Fault Console :=
  let C' := { C with state := .normal }
  if c = ascii 's' then
    .ok { C' with savex := C.cx, savey := C.cy }
  else if c = ascii 'u' then
    .ok { C' with cx := C.savex, cy := C.savey }
  else if c = ascii 'A' then do
    let (n, last) ← parm1 C.params 0
    let cy := int16 (C.cy - n)
    return { C' with cy := if cy < 0 then 0 else cy }.touch last
  else if c = ascii 'B' then do
    let (n, last) ← parm1 C.params 0
    let cy := int16 (C.cy + n)
    return { C' with cy := if scr.maxRow < cy then scr.maxRow else cy }.touch last
  else if c = ascii 'C' then do
    let (n, last) ← parm1 C.params 0
    let cx := int16 (C.cx + n)
    return { C' with cx := if scr.maxCol < cx then scr.maxCol else cx }.touch last
  else if c = ascii 'D' then do
    let (n, last) ← parm1 C.params 0
    let cx := int16 (C.cx - n)
    return { C' with cx := if cx < 0 then 0 else cx }.touch last
  else if c = ascii 'H' then do
    let (x, lastx) ← parm2 C.params 0
    let (y, lasty) ← parm1 C.params 0
    return ((C'.gotoxy scr (int16 (x - 1)) (int16 (y - 1))).touch lastx).touch lasty
  else if c = ascii 'J' then do
    let (n, last) ← parm1 C.params 0
    return (if n = 2 then C'.clearRange scr 0 0 scr.width scr.height else C').touch last
  else if c = ascii 'K' then
    .ok (C'.clearRange scr C.cx C.cy scr.width C.cy)
  else if c = ascii 'm' then do
    let (attr, last) ← colorLoop C.params SEGMENT 0 C.attr
    return { C' with attr := attr }.touch last
  else
    .ok C'

/-- `Vt52CmdEx`. -/
def Console.vt52CmdEx (c : UInt8) : Console :=
  let C' := { C with state := .normal }
  match C.state with
  | .escY => { C with tmp := c - BLANK, state := .escY2 }
  | .escY2 => C'.gotoxy scr (signed c - 32) C.tmp.toNat
  | .escP =>
      if c = ascii 'f' then C'.scrollDown scr C.cy scr.maxRow
      else if c = ascii 'd' then C'.scrollUp scr (int16 (C.cy + 1)) scr.height
      else C'
  | .escQ =>
      let n := signed (c - BLANK)
      let attr := if 0 < n ∧ n < 5 then C.attr ||| attrArry.getD (n - 1).toNat 0 else C.attr
      { C' with attr := if n = 0 then A_DEFAULT else attr }
  | _ => C'

/-- `Vt52Cmd`. -/
def Console.vt52Cmd (c : UInt8) : Console :=
  let C' := { C with state := .normal }
  if C.state ≠ .escSeen then C.vt52CmdEx scr c
  else if c = ascii 'H' then { C' with cx := 0, cy := 0 }
  else if c = ascii 'A' then { C' with cy := if C.cy ≠ 0 then int16 (C.cy - 1) else C.cy }
  else if c = ascii 'B' then
    { C' with cy := if C.cy < scr.maxRow then int16 (C.cy + 1) else C.cy }
  else if c = ascii 'C' then
    { C' with cx := if C.cx < scr.maxCol then int16 (C.cx + 1) else C.cx }
  else if c = ascii 'D' then { C' with cx := if C.cx ≠ 0 then int16 (C.cx - 1) else C.cx }
  else if c = ascii 'K' then C'.clearRange scr C.cx C.cy scr.width C.cy
  else if c = ascii 'J' then C'.clearRange scr 0 0 scr.width scr.height
  else if c = ascii 'I' then C'.scrollDown scr 0 scr.maxRow
  else if c = ascii 'P' then { C with state := .escP }
  else if c = ascii 'Q' then { C with state := .escQ }
  else if c = ascii 'Y' then { C with state := .escY }
  else C'

/-- A byte and its attribute go on the screen, at the cursor. -/
def Console.put (c : UInt8) : Console :=
  let offset := uint16 ((C.cx + C.cy * scr.width) * 2)
  { C with
    pokes := C.pokes ++ [.pokeb offset c, .pokeb (offset + 1) C.attr]
    cx := int16 (C.cx + 1) }

/-- The end of `WriteChar`: autowrap and scroll. -/
def Console.autowrap : Console :=
  let C := if scr.maxCol < C.cx then { C with cx := 0, cy := int16 (C.cy + 1) } else C
  if scr.height ≤ C.cy then
    let C := C.scrollUp scr 1 scr.height
    { C with cy := int16 (C.cy - 1) }
  else
    C

/-- The normal character processing of `WriteChar`. -/
def Console.normalChar (c : UInt8) : Console :=
  if c = BEL then C
  else if c = ESC then { C with state := .escSeen }
  else if c = BS then
    if 0 < C.cx then
      -- `WriteChar` of a blank comes here again, and on to its end
      let C := ({ C with cx := int16 (C.cx - 1) }.put scr BLANK).autowrap scr
      { C with cx := int16 (C.cx - 1) }
    else
      C
  else if c = NL then { C with cy := int16 (C.cy + 1), cx := 0 }.autowrap scr
  else if c = CR then { C with cx := 0 }.autowrap scr
  else (C.put scr c).autowrap scr

/-- A byte goes to the parameters of a command, if there is place. -/
def Console.gather (c : UInt8) : Console :=
  if C.parmptr < MAXPARMS then
    { C.storeParm c with parmptr := C.parmptr + 1 }
  else
    C

/-- `WriteChar`. -/
def Console.writeChar (c : UInt8) : Except Fault Console :=
  match C.state with
  | .normal => .ok (C.normalChar scr c)
  | .ansi =>
      if isalpha c then ((C.gather c).storeParm 0).ansiCmd scr c else .ok (C.gather c)
  | _ =>
      if c = ascii '[' then .ok { C with state := .ansi, parmptr := 0 }
      else .ok (C.vt52Cmd scr c)

/-- The bytes of a stream, one after the other. -/
def Console.writeChars : List UInt8 → Console → Except Fault Console
  | [], C => .ok C
  | c :: cs, C => do
      let C ← C.writeChar scr c
      C.writeChars cs

/-- A console behind `init_console`: somewhere on its screen, with nothing saved. -/
structure Console.Initial : Prop where
  cx_nonneg : 0 ≤ C.cx
  cx_le : C.cx ≤ scr.maxCol
  cy_nonneg : 0 ≤ C.cy
  cy_le : C.cy ≤ scr.maxRow
  state : C.state = .normal
  savex : C.savex = 0
  savey : C.savey = 0
  pokes : C.pokes = []
  reach : C.reach = 0

end Code

end Dircon
end Tty
end Elks
