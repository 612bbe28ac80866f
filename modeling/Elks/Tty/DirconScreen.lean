import Elks.Tty.Dircon

/-!
# The console and its screen (arch/i86/drivers/char/dircon.c)

Each function of the console is described by where it leaves the cursor and by the writes
to the video memory that it adds; `Screen.Spares` says of writes that they stay on the
screen.

**Result.**  `writeChars_inside_iff`: over a stream of bytes the console stays inside its
screen and inside `params` exactly when every byte meets `Console.Meets`.
-/

namespace Elks
namespace Tty
namespace Dircon

open Lib ChQueue

section Geometry

variable (scr : Screen)

/-- A place of the screen. -/
structure Screen.Holds (x y : Int) : Prop where
  x_nonneg : 0 ≤ x
  x_le : x ≤ scr.maxCol
  y_nonneg : 0 ≤ y
  y_le : y ≤ scr.maxRow

/-- Writes that stay on the screen. -/
def Screen.Spares (pokes : List Poke) : Prop :=
  ∀ p ∈ pokes, ∀ o ∈ p.offsets, (o : Int) < 2 * scr.width * scr.height

variable {scr} {x y xx yy st en k : Int} {pokes pokes' : List Poke}

theorem Screen.maxCol_bounds (scr : Screen) : 0 ≤ scr.maxCol ∧ scr.maxCol < 32767 := by
  have hpos := scr.width_pos
  have hlt := scr.width_lt
  unfold Screen.maxCol
  omega

theorem Screen.maxRow_bounds (scr : Screen) : 0 ≤ scr.maxRow ∧ scr.maxRow < 32767 := by
  have hpos := scr.height_pos
  have hlt := scr.height_lt
  unfold Screen.maxRow
  omega

theorem Screen.Spares.append (h : scr.Spares pokes) (h' : scr.Spares pokes') :
    scr.Spares (pokes ++ pokes') := by
  intro p hp
  cases List.mem_append.mp hp with
  | inl hp => exact h p hp
  | inr hp => exact h' p hp

theorem Screen.spares_append :
    scr.Spares (pokes ++ pokes') ↔ scr.Spares pokes ∧ scr.Spares pokes' :=
  ⟨fun h => ⟨fun p hp => h p (List.mem_append_left _ hp),
    fun p hp => h p (List.mem_append_right _ hp)⟩, fun h => h.1.append h.2⟩

theorem Screen.spares_nil : scr.Spares [] :=
  fun _ hp => nomatch hp

theorem Screen.row_le (h0 : 0 ≤ y) (h : y ≤ scr.maxRow) :
    0 ≤ y * scr.width ∧ scr.width + y * scr.width ≤ scr.width * scr.height := by
  have hw := scr.width_pos
  have hy : y + 1 ≤ scr.height := by
    unfold Screen.maxRow at h
    omega
  constructor
  · exact Int.mul_nonneg h0 hw.le
  · calc scr.width + y * scr.width = scr.width * (y + 1) := by ring
      _ ≤ scr.width * scr.height := Int.mul_le_mul_of_nonneg_left hy hw.le

theorem Screen.Holds.cell_lt (h : scr.Holds x y) :
    0 ≤ x + y * scr.width ∧ x + y * scr.width < scr.width * scr.height := by
  have hrow := Screen.row_le h.y_nonneg h.y_le
  have hx := h.x_nonneg
  have hle := h.x_le
  unfold Screen.maxCol at hle
  omega

theorem uint16_le (h : 0 ≤ k) : (uint16 k : Int) ≤ k := by
  unfold uint16
  omega

theorem int16_of_mem (h : -32768 ≤ k) (h' : k < 32768) : int16 k = k := by
  unfold int16
  omega

theorem stepBack_eq (h0 : 0 ≤ k) (hk : k < 32768) :
    (if k ≠ 0 then int16 (k - 1) else k) = max 0 (k - 1) := by
  rw [int16_of_mem (by omega) (by omega)]
  split_ifs <;> omega

theorem stepForth_eq {m : Int} (h0 : 0 ≤ k) (hk : k ≤ m) (hm : m < 32767) :
    (if k < m then int16 (k + 1) else k) = min (k + 1) m := by
  rw [int16_of_mem (by omega) (by omega)]
  split_ifs <;> omega

theorem spares_words (ofs : Nat) {en : Nat} (hen : (en : Int) ≤ 2 * scr.width * scr.height) :
    scr.Spares ((List.range' ofs ((en - ofs) / 2) 2).map fun off => .pokew off 0x0720) := by
  intro p hp o ho
  obtain ⟨off, hoff, rfl⟩ := List.mem_map.mp hp
  obtain ⟨i, hi, rfl⟩ := List.mem_range'.mp hoff
  simp only [Poke.offsets, List.mem_cons, List.not_mem_nil, or_false] at ho
  omega

theorem spares_move {rdofs wrofs bytes : Nat}
    (hle : (wrofs + bytes : Int) ≤ 2 * scr.width * scr.height) :
    scr.Spares [.farMemmove rdofs wrofs bytes] := by
  intro p hp o ho
  rw [List.mem_singleton.mp hp] at ho
  obtain ⟨i, hi, rfl⟩ := List.mem_map.mp ho
  have hi' := List.mem_range.mp hi
  omega

end Geometry

section Drawing

variable {scr : Screen} {C : Console} {x y xx yy st en : Int} {c : UInt8}

theorem clearRange_eq (h0 : 0 ≤ xx + yy * scr.width)
    (hle : xx + yy * scr.width ≤ scr.width * scr.height) :
    ∃ pokes, scr.Spares pokes ∧
      C.clearRange scr x y xx yy = { C with pokes := C.pokes ++ pokes } := by
  refine ⟨_, spares_words _ ?_, rfl⟩
  have hen := uint16_le (k := (xx + yy * scr.width) * 2) (by omega)
  have hcomm : 2 * scr.width * scr.height = 2 * (scr.width * scr.height) := by ring
  omega

theorem clearRow_eq (h0 : 0 ≤ y) (hy : y ≤ scr.maxRow) :
    ∃ pokes, scr.Spares pokes ∧
      C.clearRange scr x y scr.width y = { C with pokes := C.pokes ++ pokes } := by
  have hrow := Screen.row_le h0 hy
  have hw := scr.width_pos
  exact clearRange_eq (by omega) hrow.2

theorem scroll_eq {rdofs : Nat} {target n row : Int} (h0 : 0 ≤ target) (hn : 0 ≤ n)
    (hle : target + n ≤ 2 * scr.width * scr.height) (hrow0 : 0 ≤ row) (hrow : row ≤ scr.maxRow) :
    ∃ pokes, scr.Spares pokes ∧
      { C with
        pokes := C.pokes ++ [Poke.farMemmove rdofs (uint16 target) (uint16 n)] }.clearRange scr
        0 row scr.width row = { C with pokes := C.pokes ++ pokes } := by
  obtain ⟨pokes, hspares, heq⟩ := clearRow_eq
    (C := { C with pokes := C.pokes ++ [Poke.farMemmove rdofs (uint16 target) (uint16 n)] })
    (x := 0) hrow0 hrow
  refine ⟨[Poke.farMemmove rdofs (uint16 target) (uint16 n)] ++ pokes,
    (spares_move ?_).append hspares, ?_⟩
  · have htarget := uint16_le h0
    have hcount := uint16_le hn
    omega
  · rw [heq, List.append_assoc]

theorem uint16_wrap (a b : Int) : uint16 (uint16 a + b) = uint16 (a + b) := by
  unfold uint16
  omega

theorem scrollUp_eq (st : Int) (hen : en ≤ scr.height) :
    ∃ pokes, scr.Spares pokes ∧
      C.scrollUp scr st en = { C with pokes := C.pokes ++ pokes } := by
  unfold Console.scrollUp
  split_ifs with hst
  · have hw := scr.width_pos
    dsimp only
    rw [sub_eq_add_neg, uint16_wrap]
    refine scroll_eq ?_ ?_ ?_ (by omega) ?_
    · nlinarith
    · nlinarith
    · nlinarith
    · unfold Screen.maxRow
      omega
  · exact ⟨[], Screen.spares_nil, by rw [List.append_nil]⟩

theorem scrollDown_eq (h0 : 0 ≤ st) (hen : en ≤ scr.maxRow) :
    ∃ pokes, scr.Spares pokes ∧
      C.scrollDown scr st en = { C with pokes := C.pokes ++ pokes } := by
  unfold Console.scrollDown
  split_ifs with hst
  · have hw := scr.width_pos
    have hrow : st ≤ scr.maxRow := hst.1.trans hen
    unfold Screen.maxRow at hen
    dsimp only
    rw [uint16_wrap]
    refine scroll_eq ?_ ?_ ?_ h0 hrow
    · nlinarith
    · nlinarith
    · nlinarith
  · exact ⟨[], Screen.spares_nil, by rw [List.append_nil]⟩

/-- Where a character other than `ESC` leaves the cursor. -/
def Screen.typed (scr : Screen) (c : UInt8) (x y : Int) : Int × Int :=
  if c = BEL then (x, y)
  else if c = BS then (max 0 (x - 1), y)
  else if c = NL then (0, min (y + 1) scr.maxRow)
  else if c = CR then (0, y)
  else if x < scr.maxCol then (x + 1, y)
  else (0, min (y + 1) scr.maxRow)

theorem autowrap_of_le (hx : C.cx ≤ scr.maxCol) (hy : C.cy ≤ scr.maxRow) : C.autowrap scr = C := by
  have hrow : ¬scr.height ≤ C.cy := by
    unfold Screen.maxRow at hy
    omega
  unfold Console.autowrap
  rw [if_neg (not_lt.mpr hx)]
  dsimp only
  rw [if_neg hrow]

theorem autowrap_below (hx : C.cx ≤ scr.maxCol) (hy : C.cy = scr.maxRow + 1) :
    ∃ pokes, scr.Spares pokes ∧
      C.autowrap scr = { C with cy := scr.maxRow, pokes := C.pokes ++ pokes } := by
  have hbounds := scr.maxRow_bounds
  have hrow : scr.height ≤ C.cy := by
    unfold Screen.maxRow at hy
    omega
  obtain ⟨pokes, hspares, heq⟩ := scrollUp_eq (C := C) 1 (le_refl scr.height)
  refine ⟨pokes, hspares, ?_⟩
  unfold Console.autowrap
  rw [if_neg (not_lt.mpr hx)]
  dsimp only
  rw [if_pos hrow, heq]
  dsimp only
  rw [int16_of_mem (by omega) (by omega), hy, add_sub_cancel_right]

theorem autowrap_next (hx : C.cx ≤ scr.maxCol) (hy0 : 0 ≤ y) (hy : y ≤ scr.maxRow)
    (hnext : C.cy = y + 1) :
    ∃ pokes, scr.Spares pokes ∧
      C.autowrap scr = { C with cy := min (y + 1) scr.maxRow, pokes := C.pokes ++ pokes } := by
  by_cases hlast : y = scr.maxRow
  · subst hlast
    obtain ⟨pokes, hspares, heq⟩ := autowrap_below hx hnext
    refine ⟨pokes, hspares, ?_⟩
    rw [heq, min_eq_right (by omega)]
  · refine ⟨[], Screen.spares_nil, ?_⟩
    rw [autowrap_of_le hx (by omega), min_eq_left (by omega), ← hnext, List.append_nil]

theorem autowrap_wraps (hx : C.cx = scr.maxCol + 1) (hy0 : 0 ≤ C.cy) (hy : C.cy ≤ scr.maxRow) :
    ∃ pokes, scr.Spares pokes ∧
      C.autowrap scr =
        { C with cx := 0, cy := min (C.cy + 1) scr.maxRow, pokes := C.pokes ++ pokes } := by
  have hbounds := scr.maxRow_bounds
  have hcol := scr.maxCol_bounds
  have hwrap : C.autowrap scr = { C with cx := 0, cy := C.cy + 1 }.autowrap scr := by
    have hover : scr.maxCol < C.cx := by omega
    have hstart : ¬scr.maxCol < 0 := by omega
    unfold Console.autowrap
    simp only [if_pos hover, if_neg hstart]
    rw [int16_of_mem (by omega) (by omega)]
  rw [hwrap]
  exact autowrap_next (C := { C with cx := 0, cy := C.cy + 1 }) hcol.1 hy0 hy rfl

theorem put_eq (h : scr.Holds C.cx C.cy) (c : UInt8) :
    ∃ pokes, scr.Spares pokes ∧
      C.put scr c = { C with pokes := C.pokes ++ pokes, cx := C.cx + 1 } := by
  have hcell := h.cell_lt
  have hcol := scr.maxCol_bounds
  have hx := h.x_nonneg
  have hle := h.x_le
  refine ⟨[.pokeb (uint16 ((C.cx + C.cy * scr.width) * 2)) c,
    .pokeb (uint16 ((C.cx + C.cy * scr.width) * 2) + 1) C.attr], ?_, ?_⟩
  · have hoff := uint16_le (k := (C.cx + C.cy * scr.width) * 2) (by omega)
    have hcomm : 2 * scr.width * scr.height = 2 * (scr.width * scr.height) := by ring
    intro p hp o ho
    simp only [List.mem_cons, List.not_mem_nil, or_false] at hp
    cases hp with
    | inl hp =>
        rw [hp] at ho
        rw [List.mem_singleton.mp ho]
        omega
    | inr hp =>
        rw [hp] at ho
        rw [List.mem_singleton.mp ho]
        push_cast
        omega
  · unfold Console.put
    rw [int16_of_mem (by omega) (by omega)]

theorem normalChar_eq (h : scr.Holds C.cx C.cy) (hc : c ≠ ESC) :
    ∃ pokes, scr.Spares pokes ∧
      C.normalChar scr c =
        { C with
          cx := (scr.typed c C.cx C.cy).1
          cy := (scr.typed c C.cx C.cy).2
          pokes := C.pokes ++ pokes } := by
  have hx0 := h.x_nonneg
  have hx := h.x_le
  have hy0 := h.y_nonneg
  have hy := h.y_le
  have hcol := scr.maxCol_bounds
  have hrow := scr.maxRow_bounds
  unfold Console.normalChar Screen.typed
  rw [if_neg hc]
  by_cases hbel : c = BEL
  · rw [if_pos hbel, if_pos hbel]
    exact ⟨[], Screen.spares_nil, by rw [List.append_nil]⟩
  rw [if_neg hbel, if_neg hbel]
  by_cases hbs : c = BS
  · rw [if_pos hbs, if_pos hbs]
    by_cases hpos : 0 < C.cx
    · rw [if_pos hpos, int16_of_mem (by omega) (by omega)]
      obtain ⟨pokes, hspares, hput⟩ := put_eq (C := { C with cx := C.cx - 1 })
        ⟨by dsimp only; omega, by dsimp only; omega, hy0, hy⟩ BLANK
      refine ⟨pokes, hspares, ?_⟩
      rw [hput]
      dsimp only
      rw [sub_add_cancel, autowrap_of_le (C := { C with pokes := C.pokes ++ pokes }) hx hy]
      dsimp only
      rw [int16_of_mem (by omega) (by omega), max_eq_right (by omega)]
    · rw [if_neg hpos]
      refine ⟨[], Screen.spares_nil, ?_⟩
      rw [max_eq_left (by omega), List.append_nil, show (0 : Int) = C.cx by omega]
  rw [if_neg hbs, if_neg hbs]
  by_cases hnl : c = NL
  · rw [if_pos hnl, if_pos hnl, int16_of_mem (by omega) (by omega)]
    exact autowrap_next (C := { C with cy := C.cy + 1, cx := 0 }) hcol.1 hy0 hy rfl
  rw [if_neg hnl, if_neg hnl]
  by_cases hcr : c = CR
  · rw [if_pos hcr, if_pos hcr]
    refine ⟨[], Screen.spares_nil, ?_⟩
    rw [autowrap_of_le (C := { C with cx := 0 }) hcol.1 hy, List.append_nil]
  rw [if_neg hcr, if_neg hcr]
  obtain ⟨pokes, hspares, hput⟩ := put_eq h c
  rw [hput]
  by_cases hlast : C.cx < scr.maxCol
  · rw [if_pos hlast]
    exact ⟨pokes, hspares, autowrap_of_le (by dsimp only; omega) hy⟩
  · rw [if_neg hlast]
    obtain ⟨pokes', hspares', heq⟩ := autowrap_wraps
      (C := { C with pokes := C.pokes ++ pokes, cx := C.cx + 1 }) (by dsimp only; omega) hy0 hy
    refine ⟨pokes ++ pokes', hspares.append hspares', ?_⟩
    rw [heq, List.append_assoc]

/-- The row below the screen lies behind the end of the segment. -/
def Screen.Wraps (scr : Screen) : Prop :=
  32768 ≤ scr.width * (scr.height + 1)

theorem clearScreen_spares_iff :
    scr.Spares ((List.range' 0 (uint16 ((scr.width + scr.height * scr.width) * 2) / 2) 2).map
      fun off => .pokew off 0x0720) ↔ scr.Wraps := by
  have hw := scr.width_pos
  have hlt := scr.width_lt
  have hh := scr.height_pos
  obtain ⟨cells, hcells⟩ : ∃ cells, cells = scr.width * scr.height := ⟨_, rfl⟩
  have hpos : 0 < cells := by
    rw [hcells]
    exact Int.mul_pos hw hh
  have hrows : scr.width * (scr.height + 1) = cells + scr.width := by
    rw [hcells]
    ring
  have hsize : 2 * scr.width * scr.height = 2 * cells := by
    rw [hcells]
    ring
  have hen : (scr.width + scr.height * scr.width) * 2 = (cells + scr.width) * 2 := by
    rw [hcells]
    ring
  obtain ⟨en, heven⟩ : ∃ en, uint16 ((scr.width + scr.height * scr.width) * 2) = 2 * en := by
    rw [hen]
    exact ⟨((cells + scr.width) % 32768).toNat, by unfold uint16; omega⟩
  have hmod : (2 * en : Int) = (cells + scr.width) * 2 % 65536 := by
    have hcast : ((2 * en : Nat) : Int) = (cells + scr.width) * 2 % 65536 := by
      rw [← heven, hen]
      unfold uint16
      omega
    omega
  have hwraps : scr.Wraps ↔ (2 * en : Int) ≤ 2 * cells := by
    unfold Screen.Wraps
    rw [hrows, hmod]
    omega
  rw [hwraps, heven]
  constructor
  · intro h
    by_contra hover
    have hlast : 2 * (en - 1) ∈ List.range' 0 (2 * en / 2) 2 :=
      List.mem_range'.mpr ⟨en - 1, by omega, by omega⟩
    have hbyte := h _ (List.mem_map_of_mem hlast) (2 * (en - 1) + 1)
      (List.mem_cons_of_mem _ (List.mem_singleton.mpr rfl))
    rw [hsize] at hbyte
    omega
  · intro h
    have hcast : ((2 * en : Nat) : Int) ≤ 2 * scr.width * scr.height := by
      push_cast
      omega
    have hspares := spares_words 0 hcast
    rwa [Nat.sub_zero] at hspares

/-- Where a VT52 command of one letter leaves the cursor. -/
def Screen.moved (scr : Screen) (c : UInt8) (x y : Int) : Int × Int :=
  if c = ascii 'H' then (0, 0)
  else if c = ascii 'A' then (x, max 0 (y - 1))
  else if c = ascii 'B' then (x, min (y + 1) scr.maxRow)
  else if c = ascii 'C' then (min (x + 1) scr.maxCol, y)
  else if c = ascii 'D' then (max 0 (x - 1), y)
  else (x, y)

/-- The letters that VT52 commands of more than one letter begin with. -/
def Longer (c : UInt8) : Prop :=
  c = ascii 'P' ∨ c = ascii 'Q' ∨ c = ascii 'Y'

theorem ascii_eq_iff {a b : Char} (ha : a.toNat < 256) (hb : b.toNat < 256) :
    ascii a = ascii b ↔ a = b := by
  constructor
  · intro h
    have hnat : a.toNat % 256 = b.toNat % 256 := congrArg UInt8.toNat h
    rw [Nat.mod_eq_of_lt ha, Nat.mod_eq_of_lt hb] at hnat
    exact Char.toNat_inj.mp hnat
  · exact fun h => h ▸ rfl

theorem vt52Cmd_P (hstate : C.state = .escSeen) :
    C.vt52Cmd scr (ascii 'P') = { C with state := .escP } := by
  simp [Console.vt52Cmd, hstate, ascii_eq_iff]

theorem vt52Cmd_Q (hstate : C.state = .escSeen) :
    C.vt52Cmd scr (ascii 'Q') = { C with state := .escQ } := by
  simp [Console.vt52Cmd, hstate, ascii_eq_iff]

theorem vt52Cmd_Y (hstate : C.state = .escSeen) :
    C.vt52Cmd scr (ascii 'Y') = { C with state := .escY } := by
  simp [Console.vt52Cmd, hstate, ascii_eq_iff]

theorem vt52Cmd_longer (hstate : C.state = .escSeen) (hc : Longer c) :
    ∃ state, C.vt52Cmd scr c = { C with state := state } := by
  rcases hc with rfl | rfl | rfl
  · exact ⟨_, vt52Cmd_P hstate⟩
  · exact ⟨_, vt52Cmd_Q hstate⟩
  · exact ⟨_, vt52Cmd_Y hstate⟩

theorem vt52Cmd_eq (h : scr.Holds C.cx C.cy) (hstate : C.state = .escSeen) (hc : ¬Longer c) :
    ∃ pokes, ((c = ascii 'J' → scr.Wraps) ↔ scr.Spares pokes) ∧
      C.vt52Cmd scr c =
        { C with
          state := .normal
          cx := (scr.moved c C.cx C.cy).1
          cy := (scr.moved c C.cx C.cy).2
          pokes := C.pokes ++ pokes } := by
  have hx0 := h.x_nonneg
  have hx := h.x_le
  have hy0 := h.y_nonneg
  have hy := h.y_le
  have hcol := scr.maxCol_bounds
  have hrow := scr.maxRow_bounds
  have hshort : c ≠ ascii 'P' ∧ c ≠ ascii 'Q' ∧ c ≠ ascii 'Y' := by
    unfold Longer at hc
    tauto
  have hquiet {pokes : List Poke} (hJ : c ≠ ascii 'J') (hspares : scr.Spares pokes) :
      (c = ascii 'J' → scr.Wraps) ↔ scr.Spares pokes :=
    iff_of_true (fun h => absurd h hJ) hspares
  unfold Console.vt52Cmd Screen.moved
  simp only [hstate, ne_eq, not_true_eq_false, if_false, if_neg hshort.1, if_neg hshort.2.1,
    if_neg hshort.2.2]
  by_cases hH : c = ascii 'H'
  · refine ⟨[], hquiet (by rw [hH]; decide) Screen.spares_nil, ?_⟩
    rw [if_pos hH, if_pos hH, List.append_nil]
  rw [if_neg hH, if_neg hH]
  by_cases hA : c = ascii 'A'
  · refine ⟨[], hquiet (by rw [hA]; decide) Screen.spares_nil, ?_⟩
    rw [if_pos hA, if_pos hA, List.append_nil, stepBack_eq hy0 (by omega)]
  rw [if_neg hA, if_neg hA]
  by_cases hB : c = ascii 'B'
  · refine ⟨[], hquiet (by rw [hB]; decide) Screen.spares_nil, ?_⟩
    rw [if_pos hB, if_pos hB, List.append_nil, stepForth_eq hy0 hy hrow.2]
  rw [if_neg hB, if_neg hB]
  by_cases hC : c = ascii 'C'
  · refine ⟨[], hquiet (by rw [hC]; decide) Screen.spares_nil, ?_⟩
    rw [if_pos hC, if_pos hC, List.append_nil, stepForth_eq hx0 hx hcol.2]
  rw [if_neg hC, if_neg hC]
  by_cases hD : c = ascii 'D'
  · refine ⟨[], hquiet (by rw [hD]; decide) Screen.spares_nil, ?_⟩
    rw [if_pos hD, if_pos hD, List.append_nil, stepBack_eq hx0 (by omega)]
  rw [if_neg hD, if_neg hD]
  by_cases hK : c = ascii 'K'
  · obtain ⟨pokes, hspares, heq⟩ :=
      clearRow_eq (C := { C with state := .normal }) (x := C.cx) hy0 hy
    refine ⟨pokes, hquiet (by rw [hK]; decide) hspares, ?_⟩
    rw [if_pos hK, heq]
  rw [if_neg hK]
  by_cases hJ : c = ascii 'J'
  · refine ⟨_, ?_, by rw [if_pos hJ]; rfl⟩
    have hstart : uint16 ((0 + 0 * scr.width) * 2) = 0 := by
      rw [zero_mul]
      rfl
    rw [hstart, Nat.sub_zero, clearScreen_spares_iff]
    exact ⟨fun h => h hJ, fun h _ => h⟩
  rw [if_neg hJ]
  by_cases hI : c = ascii 'I'
  · obtain ⟨pokes, hspares, heq⟩ :=
      scrollDown_eq (C := { C with state := .normal }) (le_refl 0) (le_refl scr.maxRow)
    refine ⟨pokes, hquiet hJ hspares, ?_⟩
    rw [if_pos hI, heq]
  · refine ⟨[], hquiet hJ Screen.spares_nil, ?_⟩
    rw [if_neg hI, List.append_nil]

theorem gotoxy_holds (C : Console) (x y : Int) :
    scr.Holds (C.gotoxy scr x y).cx (C.gotoxy scr x y).cy := by
  have hcol := scr.maxCol_bounds
  have hrow := scr.maxRow_bounds
  unfold Console.gotoxy
  constructor <;> dsimp only <;> split_ifs <;> omega

theorem vt52Cmd_ex (hstate : C.state ≠ .escSeen) (c : UInt8) :
    C.vt52Cmd scr c = C.vt52CmdEx scr c := by
  unfold Console.vt52Cmd
  exact if_pos hstate

theorem lines_eq (h : scr.Holds C.cx C.cy) (hstate : C.state = .escP) (c : UInt8) :
    ∃ pokes, scr.Spares pokes ∧
      C.vt52CmdEx scr c = { C with state := .normal, pokes := C.pokes ++ pokes } := by
  unfold Console.vt52CmdEx
  rw [hstate]
  dsimp only
  split_ifs with hf hd
  · exact scrollDown_eq (C := { C with state := .normal }) h.y_nonneg le_rfl
  · exact scrollUp_eq (C := { C with state := .normal }) _ le_rfl
  · exact ⟨[], Screen.spares_nil, by rw [List.append_nil]⟩

end Drawing

section Numbers

variable {mem : Nat → UInt8} {i k j : Nat} {fuel : Nat} {c : UInt8}

theorem isalpha_bounds (h : isalpha c) : 64 < c.toNat ∧ c.toNat < 123 := by
  have hall : ∀ n < 256, isalpha (UInt8.ofNat n) → 64 < n ∧ n < 123 := by
    decide +kernel
  have hbyte := hall c.toNat c.toNat_lt
  rw [UInt8.ofNat_toNat] at hbyte
  exact hbyte h

theorem signed_of_lt (h : c.toNat < 128) : signed c = c.toNat := by
  unfold signed
  rw [Int.bmod_def]
  omega

theorem skipBlanks_ok (fuel : Nat) (hk : isalpha (mem k)) (hi : i ≤ k) (hfuel : k - i < fuel) :
    ∃ j, skipBlanks mem fuel i = .ok j ∧ j ≤ k ∧ (mem j = 0 ∨ 32 < signed (mem j)) := by
  induction fuel generalizing i with
  | zero => omega
  | succ fuel ih =>
      unfold skipBlanks
      split_ifs with hblank hzero
      · exact ⟨i, rfl, hi, .inl hzero⟩
      · have hne : i ≠ k := by
          rintro rfl
          have hbounds := isalpha_bounds hk
          rw [signed_of_lt (by omega)] at hblank
          omega
        exact ih (by omega) (by omega)
      · exact ⟨i, rfl, hi, .inr (not_le.mp hblank)⟩

theorem digits_ok (fuel : Nat) (n : Int) (hk : isalpha (mem k)) (hi : i ≤ k) (hfuel : k - i < fuel) :
    ∃ m j, digits mem fuel i n = .ok (m, j) ∧ j ≤ k := by
  induction fuel generalizing i n with
  | zero => omega
  | succ fuel ih =>
      unfold digits
      split_ifs with hdigit
      · have hne : i ≠ k := by
          rintro rfl
          have hbounds := isalpha_bounds hk
          rw [signed_of_lt (by omega)] at hdigit
          omega
        exact ih _ (by omega) (by omega)
      · exact ⟨n, i, rfl, hi⟩

theorem atoi_ok (hk : isalpha (mem k)) (hi : i ≤ k) (hfuel : k < SEGMENT) :
    ∃ m j, atoi mem i = .ok (m, j) ∧ j ≤ k := by
  obtain ⟨j, hskip, hj, -⟩ := skipBlanks_ok SEGMENT hk hi (by omega)
  unfold atoi
  rw [hskip]
  by_cases hzero : mem j = 0
  · exact ⟨0, j, by simp only [bind, Except.bind, if_pos hzero]; rfl, hj⟩
  · have hstart : (if mem j = ascii '-' ∨ mem j = ascii '+' then j + 1 else j) ≤ k := by
      split_ifs with hsign
      · have hne : j ≠ k := by
          rintro rfl
          have hbounds := isalpha_bounds hk
          cases hsign with
          | inl hsign =>
              rw [hsign] at hbounds
              exact absurd hbounds.1 (by decide)
          | inr hsign =>
              rw [hsign] at hbounds
              exact absurd hbounds.1 (by decide)
        omega
      · exact hj
    obtain ⟨m, last, hdigits, hlast⟩ := digits_ok SEGMENT 0 hk hstart (by omega)
    refine ⟨if mem j = ascii '-' then int16 (-m) else m, last, ?_, hlast⟩
    simp only [bind, Except.bind, if_neg hzero, hdigits]
    rfl

theorem parm1_ok (hk : isalpha (mem k)) (hi : i ≤ k) (hfuel : k < SEGMENT) :
    ∃ m j, parm1 mem i = .ok (m, j) ∧ j ≤ k := by
  obtain ⟨m, j, hatoi, hj⟩ := atoi_ok hk hi hfuel
  refine ⟨if m ≠ 0 then m else 1, j, ?_, hj⟩
  unfold parm1
  rw [hatoi]
  rfl

theorem scanSemicolon_ok (fuel : Nat) (hk : isalpha (mem k)) (hzero : mem (k + 1) = 0) (hi : i ≤ k + 1)
    (hfuel : k + 1 - i < fuel) :
    ∃ j, scanSemicolon mem fuel i = .ok j ∧ (mem j ≠ 0 → j < k) ∧ j ≤ k + 1 := by
  induction fuel generalizing i with
  | zero => omega
  | succ fuel ih =>
      unfold scanSemicolon
      split_ifs with hother
      · have hne : i ≠ k + 1 := by
          rintro rfl
          exact hother.2 hzero
        exact ih (by omega) (by omega)
      · refine ⟨i, rfl, fun hnot => ?_, hi⟩
        have hsemi : mem i = ascii ';' := by
          by_contra hne
          exact hother ⟨hne, hnot⟩
        have hne : i ≠ k := by
          rintro rfl
          have hbounds := isalpha_bounds hk
          rw [hsemi] at hbounds
          exact absurd hbounds.1 (by decide)
        have hne' : i ≠ k + 1 := by
          rintro rfl
          exact hnot hzero
        omega

theorem parm1_zero (hi : mem i = 0) : parm1 mem i = .ok (1, i) := by
  have hskip : skipBlanks mem SEGMENT i = .ok i := by
    have hsegment : SEGMENT = 65535 + 1 := rfl
    rw [hsegment]
    unfold skipBlanks
    rw [hi, if_pos (by decide), if_pos rfl]
  unfold parm1 atoi
  rw [hskip]
  simp only [bind, Except.bind, if_pos hi]
  rfl

theorem parm2_ok (hk : isalpha (mem k)) (hzero : mem (k + 1) = 0) (hfuel : k + 1 < SEGMENT) :
    ∃ m j, parm2 mem 0 = .ok (m, j) ∧ j ≤ k + 1 := by
  obtain ⟨j, hscan, hbefore, hj⟩ :=
    scanSemicolon_ok SEGMENT hk hzero (i := 0) (by omega) (by omega)
  unfold parm2
  rw [hscan]
  by_cases hnot : mem j = 0
  · refine ⟨1, j, ?_, hj⟩
    simp only [bind, Except.bind, hnot, ne_eq, not_true_eq_false, if_false]
    exact parm1_zero hnot
  · obtain ⟨m, last, hparm, hlast⟩ :=
      parm1_ok hk (i := j + 1) (hbefore hnot) (by omega)
    refine ⟨m, last, ?_, by omega⟩
    simp only [bind, Except.bind, ne_eq, hnot, not_false_eq_true, if_true]
    exact hparm

theorem colorLoop_ok (fuel : Nat) (attr : UInt8) (hk : mem k = ascii 'm') (hi : i ≤ k)
    (hfuel : k - i < fuel) : ∃ a j, colorLoop mem fuel i attr = .ok (a, j) ∧ j ≤ k := by
  induction fuel using Nat.strong_induction_on generalizing i attr with
  | _ fuel ih =>
      cases fuel with
      | zero => omega
      | succ fuel =>
          by_cases hlast : i = k
          · subst hlast
            unfold colorLoop
            rw [if_pos hk]
            exact ⟨_, i, rfl, le_rfl⟩
          · have hnext (attr : UInt8) :
                ∃ a j, colorLoop mem fuel (i + 1) attr = .ok (a, j) ∧ j ≤ k :=
              ih fuel (Nat.lt_succ_self fuel) attr (by omega) (by omega)
            have hcolor (hcolor : isColor (mem (i + 1))) (attr : UInt8) :
                ∃ a j, colorLoop mem fuel (i + 2) attr = .ok (a, j) ∧ j ≤ k := by
              have hne : i + 1 ≠ k := by
                rintro rfl
                rw [hk] at hcolor
                exact absurd hcolor (by decide)
              exact ih fuel (Nat.lt_succ_self fuel) attr (by omega) (by omega)
            unfold colorLoop
            by_cases hm : mem i = ascii 'm'
            · rw [if_pos hm]
              exact ⟨_, i, rfl, hi⟩
            rw [if_neg hm]
            by_cases hsemi : mem i = ascii ';'
            · rw [if_pos hsemi]
              exact hnext _
            rw [if_neg hsemi]
            by_cases h0 : mem i = ascii '0'
            · rw [if_pos h0]
              exact hnext _
            rw [if_neg h0]
            by_cases h1 : mem i = ascii '1'
            · rw [if_pos h1]
              exact hnext _
            rw [if_neg h1]
            by_cases h5 : mem i = ascii '5'
            · rw [if_pos h5]
              exact hnext _
            rw [if_neg h5]
            by_cases h7 : mem i = ascii '7'
            · rw [if_pos h7]
              exact hnext _
            rw [if_neg h7]
            by_cases h8 : mem i = ascii '8'
            · rw [if_pos h8]
              exact hnext _
            rw [if_neg h8]
            by_cases h3 : mem i = ascii '3'
            · rw [if_pos h3]
              by_cases hdigit : isColor (mem (i + 1))
              · rw [if_pos hdigit]
                exact hcolor hdigit _
              · rw [if_neg hdigit]
                exact ⟨_, i + 1, rfl, by omega⟩
            rw [if_neg h3]
            by_cases h4 : mem i = ascii '4'
            · rw [if_pos h4]
              by_cases hdigit : isColor (mem (i + 1))
              · rw [if_pos hdigit]
                exact hcolor hdigit _
              · rw [if_neg hdigit]
                exact ⟨_, i + 1, rfl, by omega⟩
            rw [if_neg h4]
            exact ⟨_, i, rfl, hi⟩

theorem int16_range (n : Int) : -32768 ≤ int16 n ∧ int16 n < 32768 := by
  unfold int16
  omega

theorem digits_range {n m : Int} (hn : -32768 ≤ n ∧ n < 32768)
    (h : digits mem fuel i n = .ok (m, j)) : -32768 ≤ m ∧ m < 32768 := by
  induction fuel generalizing i n with
  | zero => cases h
  | succ fuel ih =>
      unfold digits at h
      split_ifs at h with hdigit
      · exact ih (int16_range _) h
      · cases h
        exact hn

theorem parm1_range {n : Int} (h : parm1 mem i = .ok (n, j)) : -32768 ≤ n ∧ n < 32768 := by
  unfold parm1 at h
  cases hatoi : atoi mem i with
  | error f =>
      rw [hatoi] at h
      cases h
  | ok x =>
      obtain ⟨np, last⟩ := x
      have hnp : -32768 ≤ np ∧ np < 32768 := by
        unfold atoi at hatoi
        cases hskip : skipBlanks mem SEGMENT i with
        | error f =>
            rw [hskip] at hatoi
            cases hatoi
        | ok i' =>
            rw [hskip] at hatoi
            simp only [bind, Except.bind] at hatoi
            by_cases hzero : mem i' = 0
            · rw [if_pos hzero] at hatoi
              cases hatoi
              decide
            · rw [if_neg hzero] at hatoi
              cases hdigits : digits mem SEGMENT
                  (if mem i' = ascii '-' ∨ mem i' = ascii '+' then i' + 1 else i') 0 with
              | error f =>
                  rw [hdigits] at hatoi
                  cases hatoi
              | ok y =>
                  obtain ⟨m, last'⟩ := y
                  rw [hdigits] at hatoi
                  have hm := digits_range (by decide) hdigits
                  cases hatoi
                  split_ifs
                  · exact int16_range _
                  · exact hm
      rw [hatoi] at h
      cases h
      split_ifs
      · exact hnp
      · decide

end Numbers

section Inside

variable (scr : Screen) (C : Console)

/-- Nothing has gone outside: the cursor and what is saved of it are on the screen, and so
are the writes to the video memory, and the accesses to `params` are inside of it. -/
structure Console.Inside : Prop where
  cursor : scr.Holds C.cx C.cy
  saved : scr.Holds C.savex C.savey
  video : scr.Spares C.pokes
  params : C.reach ≤ MAXPARMS

/-- The letters that stay inside with the number `n` before them. -/
def Console.NumberMeets (c : UInt8) (n : Int) : Prop :=
  if c = ascii 'A' then C.cy - n ≤ scr.maxRow ∨ 32767 < C.cy - n
  else if c = ascii 'B' then 0 ≤ C.cy + n ∧ C.cy + n ≤ 32767
  else if c = ascii 'C' then 0 ≤ C.cx + n ∧ C.cx + n ≤ 32767
  else if c = ascii 'D' then C.cx - n ≤ scr.maxCol ∨ 32767 < C.cx - n
  else if c = ascii 'J' then n = 2 → scr.Wraps
  else True

/-- The bytes that leave a console inside: the letter that ends a command with `ESC [` has
at most eight bytes before it, the number that it gets is not too large for the place of
the cursor, and the screen is not cleared unless the row below it lies behind the end of
the segment. -/
def Console.Meets (c : UInt8) : Prop :=
  (C.state = .ansi → isalpha c → C.parmptr + 1 < MAXPARMS ∧
    ∀ n last, parm1 ((C.gather c).storeParm 0).params 0 = .ok (n, last) →
      C.NumberMeets scr c n) ∧
  (C.state = .escSeen → c = ascii 'J' → scr.Wraps)

/-- The letter of a command with `ESC [` is in its place, with a zero behind it. -/
structure Console.Ready (c : UInt8) (k : Nat) : Prop where
  letter : C.params k = c
  alpha : isalpha c
  zero : C.params (k + 1) = 0

end Inside

section Steps

variable {scr : Screen} {C C' : Console} {c : UInt8} {k last : Nat} {v n M x y : Int}

theorem back_iff (hn : -32768 ≤ n ∧ n < 32768) (h0 : 0 ≤ v) (hv : v ≤ M) (hM : M < 32767) :
    (0 ≤ (if int16 (v - n) < 0 then 0 else int16 (v - n)) ∧
      (if int16 (v - n) < 0 then 0 else int16 (v - n)) ≤ M) ↔
      v - n ≤ M ∨ 32767 < v - n := by
  unfold int16
  split_ifs <;> omega

theorem forth_iff (hn : -32768 ≤ n ∧ n < 32768) (h0 : 0 ≤ v) (hv : v ≤ M) (hM : M < 32767) :
    (0 ≤ (if M < int16 (v + n) then M else int16 (v + n)) ∧
      (if M < int16 (v + n) then M else int16 (v + n)) ≤ M) ↔
      0 ≤ v + n ∧ v + n ≤ 32767 := by
  unfold int16
  split_ifs <;> omega

theorem ansiCmd_A (hparm : parm1 C.params 0 = .ok (n, last)) :
    C.ansiCmd scr (ascii 'A') = .ok ({ C with
      state := .normal
      cy := if int16 (C.cy - n) < 0 then 0 else int16 (C.cy - n) }.touch last) := by
  have hcmd : C.ansiCmd scr (ascii 'A') = parm1 C.params 0 >>= fun x => pure ({ C with
      state := .normal
      cy := if int16 (C.cy - x.1) < 0 then 0 else int16 (C.cy - x.1) }.touch x.2) := rfl
  rw [hcmd, hparm]
  rfl

theorem ansiCmd_B (hparm : parm1 C.params 0 = .ok (n, last)) :
    C.ansiCmd scr (ascii 'B') = .ok ({ C with
      state := .normal
      cy := if scr.maxRow < int16 (C.cy + n) then scr.maxRow else int16 (C.cy + n) }.touch
        last) := by
  have hcmd : C.ansiCmd scr (ascii 'B') = parm1 C.params 0 >>= fun x => pure ({ C with
      state := .normal
      cy := if scr.maxRow < int16 (C.cy + x.1) then scr.maxRow else int16 (C.cy + x.1) }.touch
        x.2) := rfl
  rw [hcmd, hparm]
  rfl

theorem ansiCmd_C (hparm : parm1 C.params 0 = .ok (n, last)) :
    C.ansiCmd scr (ascii 'C') = .ok ({ C with
      state := .normal
      cx := if scr.maxCol < int16 (C.cx + n) then scr.maxCol else int16 (C.cx + n) }.touch
        last) := by
  have hcmd : C.ansiCmd scr (ascii 'C') = parm1 C.params 0 >>= fun x => pure ({ C with
      state := .normal
      cx := if scr.maxCol < int16 (C.cx + x.1) then scr.maxCol else int16 (C.cx + x.1) }.touch
        x.2) := rfl
  rw [hcmd, hparm]
  rfl

theorem ansiCmd_D (hparm : parm1 C.params 0 = .ok (n, last)) :
    C.ansiCmd scr (ascii 'D') = .ok ({ C with
      state := .normal
      cx := if int16 (C.cx - n) < 0 then 0 else int16 (C.cx - n) }.touch last) := by
  have hcmd : C.ansiCmd scr (ascii 'D') = parm1 C.params 0 >>= fun x => pure ({ C with
      state := .normal
      cx := if int16 (C.cx - x.1) < 0 then 0 else int16 (C.cx - x.1) }.touch x.2) := rfl
  rw [hcmd, hparm]
  rfl

theorem ansiCmd_H {m : Int} {last lastx : Nat} (hparm2 : parm2 C.params 0 = .ok (m, lastx))
    (hparm : parm1 C.params 0 = .ok (n, last)) :
    C.ansiCmd scr (ascii 'H') =
      .ok ((({ C with state := .normal }.gotoxy scr (int16 (m - 1)) (int16 (n - 1))).touch
        lastx).touch last) := by
  have hcmd : C.ansiCmd scr (ascii 'H') = parm2 C.params 0 >>= fun x => parm1 C.params 0 >>=
      fun y => pure ((({ C with state := .normal }.gotoxy scr (int16 (x.1 - 1))
        (int16 (y.1 - 1))).touch x.2).touch y.2) := rfl
  rw [hcmd, hparm2, hparm]
  rfl

theorem ansiCmd_J (hparm : parm1 C.params 0 = .ok (n, last)) :
    C.ansiCmd scr (ascii 'J') = .ok ((if n = 2 then
        { C with state := .normal }.clearRange scr 0 0 scr.width scr.height
      else { C with state := .normal }).touch last) := by
  have hcmd : C.ansiCmd scr (ascii 'J') = parm1 C.params 0 >>= fun x => pure ((if x.1 = 2 then
        { C with state := .normal }.clearRange scr 0 0 scr.width scr.height
      else { C with state := .normal }).touch x.2) := rfl
  rw [hcmd, hparm]
  rfl

theorem ansiCmd_m {attr : UInt8} (hcolor : colorLoop C.params SEGMENT 0 C.attr = .ok (attr, last)) :
    C.ansiCmd scr (ascii 'm') = .ok ({ C with state := .normal, attr := attr }.touch last) := by
  have hcmd : C.ansiCmd scr (ascii 'm') = colorLoop C.params SEGMENT 0 C.attr >>= fun x =>
      pure ({ C with state := .normal, attr := x.1 }.touch x.2) := rfl
  rw [hcmd, hcolor]
  rfl

theorem ok_inside_iff {D : Console} :
    (∃ C', (.ok D : Except Fault Console) = .ok C' ∧ C'.Inside scr) ↔ D.Inside scr :=
  ⟨fun ⟨_, heq, hin⟩ => Except.ok.inj heq ▸ hin, fun hin => ⟨D, rfl, hin⟩⟩

theorem row_holds_iff (hx0 : 0 ≤ x) (hx : x ≤ scr.maxCol) :
    scr.Holds x y ↔ 0 ≤ y ∧ y ≤ scr.maxRow :=
  ⟨fun h => ⟨h.y_nonneg, h.y_le⟩, fun h => ⟨hx0, hx, h.1, h.2⟩⟩

theorem col_holds_iff (hy0 : 0 ≤ y) (hy : y ≤ scr.maxRow) :
    scr.Holds x y ↔ 0 ≤ x ∧ x ≤ scr.maxCol :=
  ⟨fun h => ⟨h.x_nonneg, h.x_le⟩, fun h => ⟨h.1, h.2, hy0, hy⟩⟩

theorem moved_inside_iff (h : C.Inside scr) {reach : Nat} (hreach : reach ≤ MAXPARMS) :
    ({ C with state := .normal, cx := x, cy := y, reach := reach } : Console).Inside scr ↔
      scr.Holds x y :=
  ⟨fun hin => hin.cursor, fun hholds => ⟨hholds, h.saved, h.video, hreach⟩⟩

theorem ansiCmd_inside_iff (h : C.Inside scr) (hr : C.Ready c k) (hk : k + 1 < MAXPARMS)
    (hparm : parm1 C.params 0 = .ok (n, last)) (hlast : last ≤ k) :
    (∃ C', C.ansiCmd scr c = .ok C' ∧ C'.Inside scr) ↔ C.NumberMeets scr c n := by
  have hplace : k + 1 < 10 := hk
  have hsegment : SEGMENT = 65536 := rfl
  have hcol := scr.maxCol_bounds
  have hrow := scr.maxRow_bounds
  have hx0 := h.cursor.x_nonneg
  have hx := h.cursor.x_le
  have hy0 := h.cursor.y_nonneg
  have hy := h.cursor.y_le
  have halpha : isalpha (C.params k) := by
    rw [hr.letter]
    exact hr.alpha
  have hrange := parm1_range hparm
  have htouch {reach last : Nat} (hreach : reach ≤ MAXPARMS) (hlast : last ≤ k + 1) :
      max reach (last + 1) ≤ MAXPARMS :=
    max_le hreach (by unfold MAXPARMS; omega)
  have hreach := htouch h.params (hlast.trans (Nat.le_succ k))
  by_cases hs : c = ascii 's'
  · subst hs
    exact iff_of_true ⟨_, rfl, ⟨h.cursor, h.cursor, h.video, h.params⟩⟩ trivial
  by_cases hu : c = ascii 'u'
  · subst hu
    exact iff_of_true ⟨_, rfl, ⟨h.saved, h.saved, h.video, h.params⟩⟩ trivial
  by_cases hA : c = ascii 'A'
  · subst hA
    rw [ansiCmd_A hparm, ok_inside_iff]
    exact (moved_inside_iff h hreach).trans
      ((row_holds_iff hx0 hx).trans (back_iff hrange hy0 hy hrow.2))
  by_cases hB : c = ascii 'B'
  · subst hB
    rw [ansiCmd_B hparm, ok_inside_iff]
    exact (moved_inside_iff h hreach).trans
      ((row_holds_iff hx0 hx).trans (forth_iff hrange hy0 hy hrow.2))
  by_cases hC : c = ascii 'C'
  · subst hC
    rw [ansiCmd_C hparm, ok_inside_iff]
    exact (moved_inside_iff h hreach).trans
      ((col_holds_iff hy0 hy).trans (forth_iff hrange hx0 hx hcol.2))
  by_cases hD : c = ascii 'D'
  · subst hD
    rw [ansiCmd_D hparm, ok_inside_iff]
    exact (moved_inside_iff h hreach).trans
      ((col_holds_iff hy0 hy).trans (back_iff hrange hx0 hx hcol.2))
  by_cases hH : c = ascii 'H'
  · subst hH
    obtain ⟨x, lastx, hparm2, hlastx⟩ := parm2_ok halpha hr.zero (by omega)
    rw [ansiCmd_H hparm2 hparm]
    refine iff_of_true ⟨_, rfl, gotoxy_holds { C with state := .normal } _ _, h.saved,
      h.video, ?_⟩ trivial
    exact htouch (htouch h.params hlastx) (hlast.trans (Nat.le_succ k))
  by_cases hJ : c = ascii 'J'
  · subst hJ
    rw [ansiCmd_J hparm, ok_inside_iff]
    by_cases htwo : n = 2
    · have hstart : uint16 ((0 + 0 * scr.width) * 2) = 0 := by
        rw [zero_mul]
        rfl
      rw [if_pos htwo]
      constructor
      · rintro hin -
        have hvideo := (Screen.spares_append.mp hin.video).2
        rw [hstart, Nat.sub_zero] at hvideo
        exact clearScreen_spares_iff.mp hvideo
      · intro hwraps
        refine ⟨h.cursor, h.saved, h.video.append ?_, hreach⟩
        rw [hstart, Nat.sub_zero]
        exact clearScreen_spares_iff.mpr (hwraps htwo)
    · rw [if_neg htwo]
      exact iff_of_true ⟨h.cursor, h.saved, h.video, hreach⟩ fun h => absurd h htwo
  by_cases hK : c = ascii 'K'
  · subst hK
    obtain ⟨pokes, hspares, heq⟩ :=
      clearRow_eq (C := { C with state := .normal }) (x := C.cx) hy0 hy
    refine iff_of_true ⟨_, rfl, ?_⟩ trivial
    rw [heq]
    exact ⟨h.cursor, h.saved, h.video.append hspares, h.params⟩
  by_cases hm : c = ascii 'm'
  · subst hm
    obtain ⟨attr, lastm, hcolor, hlastm⟩ := colorLoop_ok SEGMENT C.attr
      hr.letter (Nat.zero_le k) (by omega)
    rw [ansiCmd_m hcolor]
    exact iff_of_true ⟨_, rfl, h.cursor, h.saved, h.video,
      htouch h.params (hlastm.trans (Nat.le_succ k))⟩ trivial
  · unfold Console.ansiCmd Console.NumberMeets
    dsimp only
    rw [if_neg hs, if_neg hu, if_neg hA, if_neg hA, if_neg hB, if_neg hB, if_neg hC, if_neg hC,
      if_neg hD, if_neg hD, if_neg hH, if_neg hJ, if_neg hJ, if_neg hK, if_neg hm]
    exact iff_of_true ⟨_, rfl, h.cursor, h.saved, h.video, h.params⟩ trivial

theorem ansiCmd_frame (h : C.ansiCmd scr c = .ok C') : C'.state = .normal ∧ C.reach ≤ C'.reach := by
  refine (?_ : Yields (fun C' => C'.state = .normal ∧ C.reach ≤ C'.reach)
    (C.ansiCmd scr c)) C' h
  -- the letters as the code takes them: those that save, move, clear and color
  unfold Console.ansiCmd
  refine .ite (.ok ⟨rfl, le_rfl⟩) <| .ite (.ok ⟨rfl, le_rfl⟩) ?_
  refine .ite (.bind fun _ => .ok ⟨rfl, le_max_left _ _⟩) ?_
  refine .ite (.bind fun _ => .ok ⟨rfl, le_max_left _ _⟩) ?_
  refine .ite (.bind fun _ => .ok ⟨rfl, le_max_left _ _⟩) ?_
  refine .ite (.bind fun _ => .ok ⟨rfl, le_max_left _ _⟩) ?_
  refine .ite (.bind fun _ => .bind fun _ => .ok ?_) ?_
  · exact ⟨rfl, (le_max_left _ _).trans (le_max_left _ _)⟩
  refine .ite (.bind fun x => .ok ?_) ?_
  · split_ifs
    · exact ⟨rfl, le_max_left _ _⟩
    · exact ⟨rfl, le_max_left _ _⟩
  refine .ite (.ok ⟨rfl, le_rfl⟩) ?_
  exact .ite (.bind fun _ => .ok ⟨rfl, le_max_left _ _⟩) (.ok ⟨rfl, le_rfl⟩)

theorem ready_store (halpha : isalpha c) (hp : C.parmptr < MAXPARMS) :
    ((C.gather c).storeParm 0).Ready c C.parmptr := by
  unfold Console.gather
  rw [if_pos hp]
  refine ⟨?_, halpha, ?_⟩
  · have hne : C.parmptr ≠ C.parmptr + 1 := by omega
    exact (Function.update_of_ne hne _ _).trans (Function.update_self _ _ _)
  · exact Function.update_self _ _ _

theorem gather_inside (h : C.Inside scr) : (C.gather c).Inside scr := by
  unfold Console.gather
  split_ifs with hp
  · exact ⟨h.cursor, h.saved, h.video, max_le h.params hp⟩
  · exact h

theorem letter_inside_iff (h : C.Inside scr) (hp : C.parmptr ≤ MAXPARMS) (halpha : isalpha c) :
    (∃ C', ((C.gather c).storeParm 0).ansiCmd scr c = .ok C' ∧ C'.Inside scr) ↔
      C.parmptr + 1 < MAXPARMS ∧
        ∀ n last, parm1 ((C.gather c).storeParm 0).params 0 = .ok (n, last) →
          C.NumberMeets scr c n := by
  have hmax : MAXPARMS = 10 := rfl
  have hgather := gather_inside (c := c) h
  by_cases hplace : C.parmptr + 1 < MAXPARMS
  · have hp' : C.parmptr < MAXPARMS := by omega
    have hready := ready_store halpha hp'
    have hptr : (C.gather c).parmptr = C.parmptr + 1 := by
      unfold Console.gather
      rw [if_pos hp']
    have hinside : ((C.gather c).storeParm 0).Inside scr := by
      refine ⟨hgather.cursor, hgather.saved, hgather.video, max_le hgather.params ?_⟩
      rw [hptr]
      exact hplace
    have hsame (n : Int) : ((C.gather c).storeParm 0).NumberMeets scr c n ↔
        C.NumberMeets scr c n := by
      unfold Console.gather
      rw [if_pos hp']
      rfl
    have hseg : C.parmptr < SEGMENT := by
      unfold SEGMENT
      omega
    obtain ⟨n, last, hparm, hlast⟩ :=
      parm1_ok (hready.letter.symm ▸ halpha) (Nat.zero_le C.parmptr) hseg
    rw [ansiCmd_inside_iff hinside hready hplace hparm hlast, hsame]
    constructor
    · intro hmeets
      refine ⟨hplace, fun n' last' hparm' => ?_⟩
      rw [hparm] at hparm'
      cases hparm'
      exact hmeets
    · intro hmeets
      exact hmeets.2 n last hparm
  · refine iff_of_false ?_ fun h => hplace h.1
    rintro ⟨C', hcmd, hin⟩
    have hreach := (ansiCmd_frame hcmd).2
    have hptr : MAXPARMS ≤ (C.gather c).parmptr := by
      unfold Console.gather
      split_ifs with hp'
      · dsimp only
        omega
      · omega
    have hzero : MAXPARMS < ((C.gather c).storeParm 0).reach :=
      lt_of_lt_of_le (Nat.lt_succ_of_le hptr) (le_max_right _ _)
    have hparams := hin.params
    omega

theorem typed_holds (h : scr.Holds x y) (c : UInt8) :
    scr.Holds (scr.typed c x y).1 (scr.typed c x y).2 := by
  have hx0 := h.x_nonneg
  have hx := h.x_le
  have hy0 := h.y_nonneg
  have hy := h.y_le
  have hcol := scr.maxCol_bounds
  have hrow := scr.maxRow_bounds
  unfold Screen.typed
  split_ifs <;> constructor <;> dsimp only <;> omega

theorem moved_holds (h : scr.Holds x y) (c : UInt8) :
    scr.Holds (scr.moved c x y).1 (scr.moved c x y).2 := by
  have hx0 := h.x_nonneg
  have hx := h.x_le
  have hy0 := h.y_nonneg
  have hy := h.y_le
  have hcol := scr.maxCol_bounds
  have hrow := scr.maxRow_bounds
  unfold Screen.moved
  split_ifs <;> constructor <;> dsimp only <;> omega

theorem gotoxy_inside (h : C.Inside scr) (x y : Int) : (C.gotoxy scr x y).Inside scr :=
  ⟨gotoxy_holds C x y, h.saved, h.video, h.params⟩

theorem normalChar_inside (h : C.Inside scr) : (C.normalChar scr c).Inside scr := by
  by_cases hesc : c = ESC
  · subst hesc
    exact ⟨h.cursor, h.saved, h.video, h.params⟩
  · obtain ⟨pokes, hspares, heq⟩ := normalChar_eq h.cursor hesc
    rw [heq]
    exact ⟨typed_holds h.cursor c, h.saved, h.video.append hspares, h.params⟩

theorem vt52CmdEx_inside (h : C.Inside scr) : (C.vt52CmdEx scr c).Inside scr := by
  cases hstate : C.state with
  | escP =>
      obtain ⟨pokes, hspares, heq⟩ := lines_eq h.cursor hstate c
      rw [heq]
      exact ⟨h.cursor, h.saved, h.video.append hspares, h.params⟩
  | escY2 =>
      unfold Console.vt52CmdEx
      rw [hstate]
      have hnormal : ({ C with state := .normal } : Console).Inside scr :=
        ⟨h.cursor, h.saved, h.video, h.params⟩
      exact gotoxy_inside hnormal (signed c - 32) C.tmp.toNat
  | escY =>
      unfold Console.vt52CmdEx
      rw [hstate]
      exact ⟨h.cursor, h.saved, h.video, h.params⟩
  | _ =>
      unfold Console.vt52CmdEx
      rw [hstate]
      exact ⟨h.cursor, h.saved, h.video, h.params⟩

theorem vt52Cmd_inside_iff (h : C.Inside scr) (hstate : C.state = .escSeen) :
    (C.vt52Cmd scr c).Inside scr ↔ (c = ascii 'J' → scr.Wraps) := by
  by_cases hlong : Longer c
  · have hJ : c ≠ ascii 'J' := by
      rcases hlong with rfl | rfl | rfl
      · decide
      · decide
      · decide
    obtain ⟨state, heq⟩ : ∃ state, C.vt52Cmd scr c = { C with state := state } :=
      vt52Cmd_longer hstate hlong
    rw [heq]
    exact iff_of_true ⟨h.cursor, h.saved, h.video, h.params⟩ fun h => absurd h hJ
  · obtain ⟨pokes, hspares, heq⟩ := vt52Cmd_eq h.cursor hstate hlong
    rw [heq, hspares]
    constructor
    · intro hin
      exact (Screen.spares_append.mp hin.video).2
    · intro hvideo
      exact ⟨moved_holds h.cursor c, h.saved, h.video.append hvideo, h.params⟩

theorem writeChar_inside_iff (h : C.Inside scr) (hp : C.state = .ansi → C.parmptr ≤ MAXPARMS) :
    (∃ C', C.writeChar scr c = .ok C' ∧ C'.Inside scr) ↔ C.Meets scr c := by
  have hopen : ({ C with state := .ansi, parmptr := 0 } : Console).Inside scr :=
    ⟨h.cursor, h.saved, h.video, h.params⟩
  have hlonger (hansi : C.state ≠ .ansi) (hseen : C.state ≠ .escSeen) :
      (∃ C', (if c = ascii '[' then .ok { C with state := .ansi, parmptr := 0 }
        else .ok (C.vt52Cmd scr c) : Except Fault Console) = .ok C' ∧ C'.Inside scr) ↔
        C.Meets scr c := by
    have hmeets : C.Meets scr c := ⟨fun h => absurd h hansi, fun h => absurd h hseen⟩
    split_ifs with hbracket
    · exact iff_of_true (ok_inside_iff.mpr hopen) hmeets
    · rw [vt52Cmd_ex hseen]
      exact iff_of_true (ok_inside_iff.mpr (vt52CmdEx_inside h)) hmeets
  unfold Console.writeChar
  cases hstate : C.state with
  | normal =>
      have hansi : C.state ≠ .ansi := by
        rw [hstate]
        exact ConState.noConfusion
      have hseen : C.state ≠ .escSeen := by
        rw [hstate]
        exact ConState.noConfusion
      exact iff_of_true (ok_inside_iff.mpr (normalChar_inside h))
        ⟨fun h => absurd h hansi, fun h => absurd h hseen⟩
  | ansi =>
      have hseen : C.state ≠ .escSeen := by
        rw [hstate]
        exact ConState.noConfusion
      dsimp only
      by_cases halpha : isalpha c
      · rw [if_pos halpha, letter_inside_iff h (hp hstate) halpha]
        exact ⟨fun hmeets => ⟨fun _ _ => hmeets, fun h => absurd h hseen⟩,
          fun hmeets => hmeets.1 hstate halpha⟩
      · rw [if_neg halpha]
        exact iff_of_true (ok_inside_iff.mpr (gather_inside h))
          ⟨fun _ h => absurd h halpha, fun h => absurd h hseen⟩
  | escSeen =>
      have hansi : C.state ≠ .ansi := by
        rw [hstate]
        exact ConState.noConfusion
      dsimp only
      by_cases hbracket : c = ascii '['
      · rw [if_pos hbracket]
        refine iff_of_true (ok_inside_iff.mpr hopen) ⟨fun h => absurd h hansi, fun _ hJ => ?_⟩
        rw [hbracket] at hJ
        exact absurd hJ (by decide)
      · rw [if_neg hbracket, ok_inside_iff, vt52Cmd_inside_iff h hstate]
        exact ⟨fun hmeets => ⟨fun h => absurd h hansi, fun _ => hmeets⟩,
          fun hmeets => hmeets.2 hstate⟩
  | escP =>
      exact hlonger (hstate ▸ ConState.noConfusion) (hstate ▸ ConState.noConfusion)
  | escQ =>
      exact hlonger (hstate ▸ ConState.noConfusion) (hstate ▸ ConState.noConfusion)
  | escY =>
      exact hlonger (hstate ▸ ConState.noConfusion) (hstate ▸ ConState.noConfusion)
  | escY2 =>
      exact hlonger (hstate ▸ ConState.noConfusion) (hstate ▸ ConState.noConfusion)

/-- Behind a byte the parameters are gathered no further than there is place. -/
theorem writeChar_parmptr (h : C.Inside scr) (hp : C.state = .ansi → C.parmptr ≤ MAXPARMS)
    (hs : C.writeChar scr c = .ok C') (hansi : C'.state = .ansi) : C'.parmptr ≤ MAXPARMS := by
  have hlonger (hbyte : (if c = ascii '[' then .ok { C with state := .ansi, parmptr := 0 }
      else .ok (C.vt52Cmd scr c) : Except Fault Console) = .ok C')
      (hvt : (C.vt52Cmd scr c).state ≠ .ansi) : C'.parmptr ≤ MAXPARMS := by
    split_ifs at hbyte
    · cases hbyte
      exact Nat.zero_le _
    · cases hbyte
      exact absurd hansi hvt
  unfold Console.writeChar at hs
  cases hstate : C.state with
  | normal =>
      rw [hstate] at hs
      cases hs
      by_cases hesc : c = ESC
      · subst hesc
        cases hansi
      · obtain ⟨pokes, -, heq⟩ := normalChar_eq h.cursor hesc
        rw [heq] at hansi
        exact absurd (hstate.symm.trans hansi) ConState.noConfusion
  | ansi =>
      rw [hstate] at hs
      dsimp only at hs
      by_cases halpha : isalpha c
      · rw [if_pos halpha] at hs
        exact absurd ((ansiCmd_frame hs).1.symm.trans hansi) ConState.noConfusion
      · rw [if_neg halpha] at hs
        cases hs
        have hold := hp hstate
        unfold Console.gather
        split_ifs with hplace
        · exact hplace
        · exact hold
  | escSeen =>
      rw [hstate] at hs
      refine hlonger hs ?_
      by_cases hlong : Longer c
      · rcases hlong with rfl | rfl | rfl
        · rw [vt52Cmd_P hstate]
          exact ConState.noConfusion
        · rw [vt52Cmd_Q hstate]
          exact ConState.noConfusion
        · rw [vt52Cmd_Y hstate]
          exact ConState.noConfusion
      · obtain ⟨pokes, -, heq⟩ := vt52Cmd_eq h.cursor hstate hlong
        rw [heq]
        exact ConState.noConfusion
  | escP =>
      rw [hstate] at hs
      refine hlonger hs ?_
      obtain ⟨pokes, -, heq⟩ := lines_eq h.cursor hstate c
      rw [vt52Cmd_ex (hstate ▸ ConState.noConfusion), heq]
      exact ConState.noConfusion
  | _ =>
      rw [hstate] at hs
      refine hlonger hs ?_
      rw [vt52Cmd_ex (hstate ▸ ConState.noConfusion)]
      unfold Console.vt52CmdEx
      rw [hstate]
      exact ConState.noConfusion

theorem writeChars_append (cs cs' : List UInt8) :
    C.writeChars scr (cs ++ cs') =
      C.writeChars scr cs >>= fun C => C.writeChars scr cs' := by
  induction cs generalizing C with
  | nil => rfl
  | cons b cs ih =>
      simp only [List.cons_append, Console.writeChars]
      cases C.writeChar scr b with
      | error f => rfl
      | ok C' => exact ih

theorem writeChars_singleton : C.writeChars scr [c] = C.writeChar scr c := by
  change (C.writeChar scr c >>= fun C => .ok C) = C.writeChar scr c
  cases C.writeChar scr c with
  | error f => rfl
  | ok C' => rfl

theorem writeChars_snoc (cs : List UInt8) :
    C.writeChars scr (cs ++ [c]) = C.writeChars scr cs >>= fun C => C.writeChar scr c := by
  rw [writeChars_append]
  simp only [writeChars_singleton]

end Steps

section Runs

variable {scr : Screen} {C : Console} {cs pre : List UInt8}

theorem Console.Initial.inside (h : C.Initial scr) : C.Inside scr := by
  have hcol := scr.maxCol_bounds
  have hrow := scr.maxRow_bounds
  refine ⟨⟨h.cx_nonneg, h.cx_le, h.cy_nonneg, h.cy_le⟩, ?_, ?_, ?_⟩
  · rw [h.savex, h.savey]
    exact ⟨le_rfl, hcol.1, le_rfl, hrow.1⟩
  · rw [h.pokes]
    exact Screen.spares_nil
  · rw [h.reach]
    exact Nat.zero_le _

theorem writeChars_parmptr {C' : Console} (h : C.Initial scr)
    (hinside : ∀ pre, pre <+: cs → ∃ C', C.writeChars scr pre = .ok C' ∧ C'.Inside scr)
    (hpre : pre <+: cs) (hrun : C.writeChars scr pre = .ok C') :
    C'.state = .ansi → C'.parmptr ≤ MAXPARMS := by
  induction pre using List.reverseRecOn generalizing C' with
  | nil =>
      cases hrun
      intro hansi
      exact absurd (h.state.symm.trans hansi) ConState.noConfusion
  | append_singleton pre c ih =>
      have hpre' := (List.prefix_append pre [c]).trans hpre
      obtain ⟨D, hD, hin⟩ := hinside pre hpre'
      rw [writeChars_snoc, hD] at hrun
      exact writeChar_parmptr hin (ih hpre' hD) hrun

theorem writeChars_inside (h : C.Initial scr)
    (hmeets : ∀ pre c, pre ++ [c] <+: cs →
      ∀ C', C.writeChars scr pre = .ok C' → C'.Meets scr c)
    (hpre : pre <+: cs) :
    ∃ C', C.writeChars scr pre = .ok C' ∧ C'.Inside scr ∧
      (C'.state = .ansi → C'.parmptr ≤ MAXPARMS) := by
  induction pre using List.reverseRecOn with
  | nil =>
      exact ⟨C, rfl, h.inside, fun hansi =>
        absurd (h.state.symm.trans hansi) ConState.noConfusion⟩
  | append_singleton pre c ih =>
      obtain ⟨D, hD, hin, hp⟩ := ih ((List.prefix_append pre [c]).trans hpre)
      obtain ⟨E, hE, hinE⟩ := (writeChar_inside_iff hin hp).mpr (hmeets pre c hpre D hD)
      refine ⟨E, ?_, hinE, writeChar_parmptr hin hp hE⟩
      rw [writeChars_snoc, hD]
      exact hE

/-- Over any stream, a console that starts on its screen stays inside after every byte
exactly when every byte meets the condition where it comes. -/
theorem writeChars_inside_iff (h : C.Initial scr) (cs : List UInt8) :
    (∀ pre, pre <+: cs → ∃ C', C.writeChars scr pre = .ok C' ∧ C'.Inside scr) ↔
      ∀ pre c, pre ++ [c] <+: cs → ∀ C', C.writeChars scr pre = .ok C' → C'.Meets scr c := by
  constructor
  · intro hinside pre c hpre C' hrun
    obtain ⟨D, hD, hin⟩ := hinside pre ((List.prefix_append pre [c]).trans hpre)
    obtain rfl := Except.ok.inj (hD.symm.trans hrun)
    obtain ⟨E, hE, hinE⟩ := hinside (pre ++ [c]) hpre
    rw [writeChars_snoc, hD] at hE
    exact (writeChar_inside_iff hin (writeChars_parmptr h hinside
      ((List.prefix_append pre [c]).trans hpre) hD)).mp ⟨E, hE, hinE⟩
  · intro hmeets pre hpre
    obtain ⟨C', hC', hin, -⟩ := writeChars_inside h hmeets hpre
    exact ⟨C', hC', hin⟩

theorem vga_width_pos : (0 : Int) < 80 := by decide

theorem vga_height_pos : (0 : Int) < 25 := by decide

theorem vga_width_lt : (80 : Int) < 32768 := by decide

theorem vga_height_lt : (25 : Int) < 32768 := by decide

/-- A screen of 25 rows of 80 columns. -/
def Screen.vga : Screen where
  width := 80
  height := 25
  width_pos := vga_width_pos
  height_pos := vga_height_pos
  width_lt := vga_width_lt
  height_lt := vga_height_lt

/-- A console with the cursor in the corner. -/
def Console.corner : Console where
  cx := 0
  cy := 0
  state := .normal
  attr := A_DEFAULT
  tmp := 0
  savex := 0
  savey := 0
  parmptr := 0
  params := fun _ => 0
  pokes := []
  reach := 0

theorem corner_initial : Console.corner.Initial Screen.vga where
  cx_nonneg := le_rfl
  cx_le := by decide
  cy_nonneg := le_rfl
  cy_le := by decide
  state := rfl
  savex := rfl
  savey := rfl
  pokes := rfl
  reach := rfl

theorem bytes_cons {P : List UInt8 → UInt8 → Prop} {b : UInt8} {cs : List UInt8} (hb : P [] b)
    (h : ∀ pre c, pre ++ [c] <+: cs → P (b :: pre) c) :
    ∀ pre c, pre ++ [c] <+: b :: cs → P pre c := by
  intro pre c hpre
  cases pre with
  | nil =>
      obtain ⟨rfl, _⟩ := List.cons_prefix_cons.mp hpre
      exact hb
  | cons b' pre =>
      obtain ⟨rfl, htail⟩ := List.cons_prefix_cons.mp hpre
      exact h pre c htail

/-- `ESC [ 5 C` takes the cursor five columns to the right. -/
theorem writeChars_inside_right :
    ∃ C', Console.corner.writeChars Screen.vga [ESC, ascii '[', ascii '5', ascii 'C'] = .ok C' ∧
      C'.Inside Screen.vga := by
  refine (writeChars_inside_iff corner_initial _).mpr ?_ _ List.prefix_rfl
  refine bytes_cons ?_ <| bytes_cons ?_ <| bytes_cons ?_ <| bytes_cons ?_ fun pre c hpre => ?_
  · rintro _ ⟨⟩
    exact ⟨fun hansi => ConState.noConfusion hansi, fun hseen => ConState.noConfusion hseen⟩
  · rintro _ ⟨⟩
    exact ⟨fun hansi => ConState.noConfusion hansi, fun _ hclear => absurd hclear (by decide)⟩
  · rintro _ ⟨⟩
    exact ⟨fun _ halpha => absurd halpha (by decide), fun hseen => ConState.noConfusion hseen⟩
  · rintro _ ⟨⟩
    refine ⟨fun _ _ => ⟨by decide, fun n last hparm => ?_⟩,
      fun hseen => ConState.noConfusion hseen⟩
    obtain ⟨rfl, _⟩ := Prod.mk.inj (Except.ok.inj (hparm.symm.trans
      (show _ = Except.ok ((5 : Int), 1) by decide +kernel)))
    unfold Console.NumberMeets
    rw [if_neg (by decide), if_neg (by decide), if_pos rfl]
    decide
  · exact absurd hpre.length_le (by simp)

/-- `ESC [ - 9 9 A` takes the cursor 99 rows down. -/
theorem cursor_leaves_screen :
    ¬∀ pre, pre <+: [ESC, ascii '[', ascii '-', ascii '9', ascii '9', ascii 'A'] →
      ∃ C', Console.corner.writeChars Screen.vga pre = .ok C' ∧ C'.Inside Screen.vga := by
  intro hinside
  obtain ⟨C', hrun, hin⟩ := hinside _ List.prefix_rfl
  have hrow : (Console.corner.writeChars Screen.vga
      [ESC, ascii '[', ascii '-', ascii '9', ascii '9', ascii 'A']).toOption.map Console.cy =
        some 99 := by
    decide +kernel
  rw [hrun] at hrow
  have hcy : C'.cy = 99 := Option.some.inj hrow
  have hle := hin.cursor.y_le
  rw [hcy] at hle
  exact absurd hle (by decide)

end Runs

end Dircon
end Tty
end Elks
