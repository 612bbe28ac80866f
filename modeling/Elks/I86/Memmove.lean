import Elks.Lib.I8086

/-!
# Moving far data (arch/i86/lib/memmove.c)

`far_memmove` takes the sixteens of both offsets into the segments, and copies downwards from
the last byte if the destination is behind the source, and else upwards from the first one.
Which is behind is decided by segment and offset; with offsets below sixteen that is the order
of the addresses.

An 8086 has twenty address lines, so a range that passes the end of the first megabyte goes
on at zero; on later processors line twenty may be switched on.

**Results.**  `farMemmove_moves_iff`: for all memories the destination gets the source, unless
one range goes round the end of the megabyte into the beginning of the other one.
-/

namespace Elks
namespace I86

open Lib Lib.I8086

section Code

variable (a20 : Bool) (sseg soff dseg doff bytes : Word) (m : Nat → UInt8)

/-- `blt_back`: after `cld`. -/
def bltBack : Nat → UInt8 :=
  repMovsb a20 false sseg dseg bytes.toNat soff doff m

/-- `blt_forth`: after `std`. -/
def bltForth : Nat → UInt8 :=
  repMovsb a20 true sseg dseg bytes.toNat soff doff m

/-- `far_memmove`; `a20` says whether address line twenty is there and on. -/
def farMemmove : Nat → UInt8 :=
  if bytes ≠ 0#16 then
    let sseg := sseg + soff >>> 4
    let soff := soff &&& 0xf#16
    let dseg := dseg + doff >>> 4
    let doff := doff &&& 0xf#16
    if sseg.toNat < dseg.toNat ∨ sseg = dseg ∧ soff.toNat < doff.toNat then
      let bytes := bytes - 1#16
      bltForth a20 sseg (soff + bytes) dseg (doff + bytes) (bytes + 1#16) m
    else
      bltBack a20 sseg soff dseg doff bytes m
  else
    m

end Code

/-- The address of byte `i` of the range at `seg:off`. -/
def byteAt (a20 : Bool) (seg off : Word) (i : Nat) : Nat :=
  if a20 then seg.toNat * 16 + off.toNat + i else (seg.toNat * 16 + off.toNat + i) % 1048576

/-- One of the ranges goes round the end of the megabyte and into the beginning of the other
one. -/
def GoesRound (sseg soff dseg doff bytes : Word) : Prop :=
  dseg.toNat * 16 + doff.toNat + 1048576 < sseg.toNat * 16 + soff.toNat + bytes.toNat ∨
    sseg.toNat * 16 + soff.toNat + 1048576 < dseg.toNat * 16 + doff.toNat + bytes.toNat

section Addresses

variable {a20 : Bool} {seg off : Word} {n i : Nat}

theorem byteAt_injOn (hn : n ≤ 1048576) : Set.InjOn (byteAt a20 seg off) (Set.Iio n) := by
  intro i hi j hj h
  rw [Set.mem_Iio] at hi hj
  unfold byteAt at h
  split_ifs at h <;> omega

theorem toNat_shiftRight_four (x : Word) : (x >>> 4).toNat = x.toNat / 16 := by
  rw [BitVec.toNat_ushiftRight, Nat.shiftRight_eq_div_pow]

theorem toNat_and_fifteen (x : Word) : (x &&& 0xf#16).toNat = x.toNat % 16 := by
  rw [BitVec.toNat_and]
  exact Nat.and_two_pow_sub_one_eq_mod x.toNat 4

theorem toNat_normalised (h : seg.toNat + off.toNat / 16 < 65536) :
    (seg + off >>> 4).toNat * 16 + (off &&& 0xf#16).toNat = seg.toNat * 16 + off.toNat := by
  rw [BitVec.toNat_add, toNat_shiftRight_four, toNat_and_fifteen, Nat.mod_eq_of_lt h]
  omega

theorem linear_normalised (h : seg.toNat + off.toNat / 16 < 65536) {x : Word}
    (hx : x.toNat = (off &&& 0xf#16).toNat + i) :
    linear a20 (seg + off >>> 4) x = byteAt a20 seg off i := by
  have hsame := toNat_normalised h
  unfold linear byteAt
  rw [hx]
  split_ifs <;> omega

end Addresses

section Result

variable {a20 : Bool} {sseg soff dseg doff bytes : Word} {m : Nat → UInt8}

theorem farMemmove_eq (hs : sseg.toNat + soff.toNat / 16 < 65536)
    (hd : dseg.toNat + doff.toNat / 16 < 65536) (hn : bytes.toNat ≤ 32767) :
    farMemmove a20 sseg soff dseg doff bytes m =
      if sseg.toNat * 16 + soff.toNat < dseg.toNat * 16 + doff.toNat then
        copies m (fun i => byteAt a20 sseg soff (bytes.toNat - 1 - i))
          (fun i => byteAt a20 dseg doff (bytes.toNat - 1 - i)) bytes.toNat
      else
        copies m (byteAt a20 sseg soff) (byteAt a20 dseg doff) bytes.toNat := by
  have hsrc := toNat_normalised hs
  have hdst := toNat_normalised hd
  have hsoff := toNat_and_fifteen soff
  have hdoff := toNat_and_fifteen doff
  unfold farMemmove
  by_cases hzero : bytes = 0#16
  · rw [if_neg (not_not.mpr hzero), hzero]
    exact (ite_self m).symm
  · have hpos : 0 < bytes.toNat := Nat.pos_iff_ne_zero.mpr fun h =>
      hzero (BitVec.eq_of_toNat_eq h)
    have hlast : (bytes - 1#16).toNat = bytes.toNat - 1 :=
      BitVec.toNat_sub_of_le (y := 1#16) hpos
    have horder : (sseg + soff >>> 4).toNat < (dseg + doff >>> 4).toNat ∨
        sseg + soff >>> 4 = dseg + doff >>> 4 ∧
          (soff &&& 0xf#16).toNat < (doff &&& 0xf#16).toNat ↔
        sseg.toNat * 16 + soff.toNat < dseg.toNat * 16 + doff.toNat := by
      rw [← BitVec.toNat_inj]
      omega
    rw [if_pos hzero]
    dsimp only
    by_cases hbehind : sseg.toNat * 16 + soff.toNat < dseg.toNat * 16 + doff.toNat
    · rw [if_pos (horder.mpr hbehind), if_pos hbehind, bltForth, repMovsb_eq_copies,
        BitVec.sub_add_cancel]
      refine copies_congr (fun i hi => ?_) fun i hi => ?_
      · refine linear_normalised hs ?_
        rw [advanced, if_pos rfl, BitVec.toNat_sub, BitVec.toNat_add, BitVec.toNat_ofNat, hlast]
        omega
      · refine linear_normalised hd ?_
        rw [advanced, if_pos rfl, BitVec.toNat_sub, BitVec.toNat_add, BitVec.toNat_ofNat, hlast]
        omega
    · rw [if_neg (mt horder.mp hbehind), if_neg hbehind, bltBack, repMovsb_eq_copies]
      refine copies_congr (fun i hi => ?_) fun i hi => ?_
      · refine linear_normalised hs ?_
        rw [advanced, if_neg Bool.false_ne_true, BitVec.toNat_add, BitVec.toNat_ofNat]
        omega
      · refine linear_normalised hd ?_
        rw [advanced, if_neg Bool.false_ne_true, BitVec.toNat_add, BitVec.toNat_ofNat]
        omega

theorem apart_iff (hle : dseg.toNat * 16 + doff.toNat ≤ sseg.toNat * 16 + soff.toNat)
    (hs : sseg.toNat + soff.toNat / 16 < 65536) (hn : bytes.toNat ≤ 32767) :
    (∀ i j, i < j → j < bytes.toNat → byteAt a20 dseg doff i ≠ byteAt a20 sseg soff j) ↔
      a20 = true ∨ ¬GoesRound sseg soff dseg doff bytes := by
  unfold GoesRound byteAt
  cases a20 with
  | true =>
      refine iff_of_true (fun i j hij hj => ?_) (Or.inl rfl)
      rw [if_pos rfl, if_pos rfl]
      omega
  | false =>
      simp only [Bool.false_eq_true, if_false, false_or]
      constructor
      · intro hapart hround
        -- the first byte of the one is the byte of the other that lies at the same address
        have hmeet := hapart 0
          (dseg.toNat * 16 + doff.toNat + 1048576 - (sseg.toNat * 16 + soff.toNat))
        omega
      · intro hround i j hij hj
        omega

theorem goesRound_comm :
    GoesRound sseg soff dseg doff bytes ↔ GoesRound dseg doff sseg soff bytes :=
  or_comm

theorem farMemmove_moves_iff (hs : sseg.toNat + soff.toNat / 16 < 65536)
    (hd : dseg.toNat + doff.toNat / 16 < 65536) (hn : bytes.toNat ≤ 32767) :
    (∀ m, Moved m (farMemmove a20 sseg soff dseg doff bytes m) (byteAt a20 sseg soff)
        (byteAt a20 dseg doff) bytes.toNat) ↔
      a20 = true ∨ ¬GoesRound sseg soff dseg doff bytes := by
  have hbytes : Nontrivial UInt8 := ⟨0, 1, by decide⟩
  have hsrc : Set.InjOn (byteAt a20 sseg soff) (Set.Iio bytes.toNat) := byteAt_injOn (by omega)
  have hdst : Set.InjOn (byteAt a20 dseg doff) (Set.Iio bytes.toNat) := byteAt_injOn (by omega)
  simp only [farMemmove_eq hs hd hn]
  by_cases hbehind : sseg.toNat * 16 + soff.toNat < dseg.toNat * 16 + doff.toNat
  · simp only [if_pos hbehind]
    have hback {f : Nat → Nat} (hf : Set.InjOn f (Set.Iio bytes.toNat)) :
        Set.InjOn (fun i => f (bytes.toNat - 1 - i)) (Set.Iio bytes.toNat) := by
      intro i hi j hj h
      rw [Set.mem_Iio] at hi hj
      have hsame := hf (Set.mem_Iio.mpr (by omega)) (Set.mem_Iio.mpr (by omega)) h
      omega
    rw [goesRound_comm, ← apart_iff hbehind.le hd hn]
    have hmoved := forall_moved_iff (β := UInt8) (hback hdst) (hback hsrc)
    simp only [moved_reverse] at hmoved
    rw [hmoved]
    constructor
    · intro h i j hij hj he
      refine h (bytes.toNat - 1 - j) (bytes.toNat - 1 - i) (by omega) (by omega) ?_
      rw [(by omega : bytes.toNat - 1 - (bytes.toNat - 1 - j) = j),
        (by omega : bytes.toNat - 1 - (bytes.toNat - 1 - i) = i)]
      exact he.symm
    · intro h i j hij hj he
      exact h (bytes.toNat - 1 - j) (bytes.toNat - 1 - i) (by omega) (by omega) he.symm
  · simp only [if_neg hbehind]
    rw [forall_moved_iff hdst hsrc, apart_iff (not_lt.mp hbehind) hs hn]

/-- A screen of eighty columns goes up by a row. -/
theorem farMemmove_moves_screen :
    ¬GoesRound 0xb800#16 160#16 0xb800#16 0#16 3840#16 ∧
      ∀ m, Moved m (farMemmove false 0xb800#16 160#16 0xb800#16 0#16 3840#16 m)
        (byteAt false 0xb800#16 160#16) (byteAt false 0xb800#16 0#16) 3840 := by
  have hround : ¬GoesRound 0xb800#16 160#16 0xb800#16 0#16 3840#16 := by
    unfold GoesRound
    decide
  exact ⟨hround, (farMemmove_moves_iff (by decide) (by decide) (by decide)).mpr
    (Or.inr hround)⟩

/-- Seventeen bytes from the last sixteen of the first megabyte to its beginning: the last of
them is the byte at zero, which has been written by then. -/
theorem farMemmove_goes_round :
    ¬∀ m, Moved m (farMemmove false 0xffff#16 0#16 0#16 0#16 17#16 m)
      (byteAt false 0xffff#16 0#16) (byteAt false 0#16 0#16) 17 := by
  intro h
  have hcopied := (h fun a => if a = 0 then 1 else 0).copied 16 (by decide)
  exact absurd hcopied (by decide)

end Result

end I86
end Elks
