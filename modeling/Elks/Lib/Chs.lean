import Mathlib

/-!
# Disk addresses by cylinder, head and sector

The disk calls of a BIOS take a sector by its cylinder, head and sector in two
words: the low eight bits of the cylinder over its two high bits and the sector,
and the head over the number of the drive.

* `cylinderOf_pack`, `sectorOf_pack`, `headOf_pack`, `driveOf_pack`: what is decoded
  from the words that shifts and masks build, for any cylinder and head of sixteen
  bits;
* `split_iff`: when the cylinder and the head that a division of sixteen bits with a
  sign makes from the number of a track are those of the track.
-/

namespace Elks
namespace Lib

section Words

/-- The cylinder of a call. -/
def cylinderOf (cx : UInt16) : Nat :=
  (cx >>> 8 ||| (cx &&& 0xc0) <<< 2).toNat

/-- The sector of a call; the sectors of a track are counted from 1. -/
def sectorOf (cx : UInt16) : Nat :=
  (cx &&& 0x3f).toNat

/-- The head of a call. -/
def headOf (dx : UInt16) : Nat :=
  (dx >>> 8).toNat

/-- The drive of a call. -/
def driveOf (dx : UInt16) : UInt8 :=
  dx.toUInt8

/-- The word of a cylinder and a sector. -/
def packCx (cylinder sector : Int16) : UInt16 :=
  (cylinder <<< 8 ||| (cylinder >>> 2 &&& 0xc0) ||| sector).toUInt16

/-- The word of a head and a drive. -/
def packDx (head : Int16) (drive : UInt8) : UInt16 :=
  head.toUInt16 <<< 8 ||| drive.toUInt16

variable {c s : BitVec 16}

/-- A number below 64 has no bits but the low six. -/
theorem getLsbD_of_lt (hs : s.toNat < 64) (i : Nat) (hi : 6 ≤ i) : s.getLsbD i = false := by
  have hle : (64 : Nat) ≤ 2 ^ i := Nat.pow_le_pow_right (n := 2) (by decide) hi
  exact Nat.testBit_lt_two_pow (Nat.lt_of_lt_of_le hs hle)

theorem cylinder_bits (hs : s.toNat < 64) :
    ((c <<< 8 ||| (c.sshiftRight 2 &&& 0xc0#16) ||| s) >>> 8 |||
      ((c <<< 8 ||| (c.sshiftRight 2 &&& 0xc0#16) ||| s) &&& 0xc0#16) <<< 2) =
      c &&& 0x3ff#16 := by
  have hbit := getLsbD_of_lt hs
  ext i hi
  interval_cases i <;>
    simp [BitVec.getLsbD_sshiftRight, ← BitVec.getLsbD_eq_getElem, hbit]

theorem sector_bits (hs : s.toNat < 64) :
    (c <<< 8 ||| (c.sshiftRight 2 &&& 0xc0#16) ||| s) &&& 0x3f#16 = s := by
  have hbit := getLsbD_of_lt hs
  ext i hi
  interval_cases i <;> simp [← BitVec.getLsbD_eq_getElem, hbit]

theorem packCx_toBitVec (cylinder sector : Int16) :
    (packCx cylinder sector).toBitVec =
      cylinder.toBitVec <<< 8 ||| (cylinder.toBitVec.sshiftRight 2 &&& 0xc0#16) |||
        sector.toBitVec := by
  unfold packCx
  simp [Int16.toBitVec_shiftLeft, Int16.toBitVec_shiftRight]

theorem cylinderOf_pack (cylinder sector : Int16) (hs : sector.toBitVec.toNat < 64) :
    cylinderOf (packCx cylinder sector) = cylinder.toBitVec.toNat % 1024 := by
  have h := congrArg BitVec.toNat (cylinder_bits (c := cylinder.toBitVec) hs)
  rw [← packCx_toBitVec, BitVec.toNat_and, BitVec.toNat_ofNat] at h
  refine Eq.trans ?_ (h.trans (Nat.and_two_pow_sub_one_eq_mod _ 10))
  simp [cylinderOf, ← UInt16.toNat_toBitVec]

theorem sectorOf_pack (cylinder sector : Int16) (hs : sector.toBitVec.toNat < 64) :
    sectorOf (packCx cylinder sector) = sector.toBitVec.toNat := by
  have h := congrArg BitVec.toNat (sector_bits (c := cylinder.toBitVec) hs)
  rw [← packCx_toBitVec] at h
  refine Eq.trans ?_ h
  simp [sectorOf, ← UInt16.toNat_toBitVec]

theorem headOf_pack (head : Int16) (drive : UInt8) :
    headOf (packDx head drive) = head.toBitVec.toNat % 256 := by
  have h : ((packDx head drive).toBitVec >>> 8) = head.toBitVec &&& 0xff#16 := by
    unfold packDx
    ext i hi
    interval_cases i <;> simp [← BitVec.getLsbD_eq_getElem]
  have hval := congrArg BitVec.toNat h
  rw [BitVec.toNat_and, BitVec.toNat_ofNat] at hval
  refine Eq.trans ?_ (hval.trans (Nat.and_two_pow_sub_one_eq_mod _ 8))
  simp [headOf, ← UInt16.toNat_toBitVec]

theorem driveOf_pack (head : Int16) (drive : UInt8) : driveOf (packDx head drive) = drive := by
  apply UInt8.toBitVec_inj.mp
  unfold driveOf packDx
  ext i hi
  interval_cases i <;> simp [← BitVec.getLsbD_eq_getElem]

end Words

section Narrowing

/-- A number of 32 bits as a number of sixteen bits with a sign. -/
theorem toInt_narrow (x : UInt32) : x.toUInt16.toInt16.toInt = (x.toNat : Int).bmod (2 ^ 16) := by
  have h : x.toUInt16.toInt16.toBitVec.toNat = x.toNat % 2 ^ 16 := by simp
  have hint : x.toUInt16.toInt16.toInt = x.toUInt16.toInt16.toBitVec.toInt := rfl
  rw [hint, BitVec.toInt_eq_toNat_bmod, h, Int.natCast_emod]
  exact Int.emod_bmod _ (2 ^ 16)

/-- The bits of a number with a sign. -/
theorem toNat_toBitVec (x : Int16) : x.toBitVec.toNat = (x.toInt % 2 ^ 16).toNat := by
  have hint : x.toInt = x.toBitVec.toInt := rfl
  have hlt := x.toBitVec.isLt
  have hmod : x.toInt % 2 ^ 16 = (x.toBitVec.toNat : Int) % 2 ^ 16 := by
    rw [hint, BitVec.toInt_eq_toNat_bmod]
    exact Int.bmod_emod
  rw [hmod]
  omega

theorem toNatClampNeg_eq {x : Int16} (h : 0 ≤ x.toInt) : (x.toNatClampNeg : Int) = x.toInt := by
  rw [← Int16.toNat_toInt]
  omega

/-- The low ten bits of a quotient. -/
theorem toBitVec_div_mod (x y : Int16) :
    (x / y).toBitVec.toNat % 1024 = (x.toInt.tdiv y.toInt % 1024).toNat := by
  have hmod : (x / y).toInt % 2 ^ 16 = x.toInt.tdiv y.toInt % 2 ^ 16 := by
    rw [Int16.toInt_div]
    exact Int.bmod_emod
  rw [toNat_toBitVec, hmod]
  omega

/-- The low eight bits of a remainder. -/
theorem toBitVec_mod_mod (x y : Int16) :
    (x % y).toBitVec.toNat % 256 = (x.toInt.tmod y.toInt % 256).toNat := by
  rw [toNat_toBitVec, Int16.toInt_mod]
  omega

end Narrowing

section Split

/-- The track of number `t` comes out of a division of sixteen bits with a sign: it is
below 2 ^ 15, or it is the first of a cylinder, in the upper half of a round of 2 ^ 16,
and the quotient, which is negative, is right in its low ten bits. -/
def TrackFits (heads t : Nat) : Prop :=
  t < 2 ^ 15 ∨ (2 ^ 15 ≤ t % 2 ^ 16 ∧ heads = 64 * (t / 2 ^ 16 + 1) ∧ t % heads = 0)

instance (heads t : Nat) : Decidable (TrackFits heads t) :=
  inferInstanceAs (Decidable (_ ∨ _))

variable {heads t : Nat}

/-- The number of a track as an `int` of sixteen bits, without its sign. -/
theorem bmod_cases (t : Nat) :
    (t % 2 ^ 16 < 2 ^ 15 ∧ (t : Int).bmod (2 ^ 16) = ((t % 2 ^ 16 : Nat) : Int)) ∨
      (2 ^ 15 ≤ t % 2 ^ 16 ∧
        (t : Int).bmod (2 ^ 16) = -((2 ^ 16 - t % 2 ^ 16 : Nat) : Int)) := by
  rw [Int.bmod_def]
  split <;> omega

/-- The cylinder of a track, in ten bits. -/
def splitCylinder (heads t : Nat) : Nat :=
  ((((t : Int).bmod (2 ^ 16)).tdiv heads) % 1024).toNat

/-- The head of a track, in eight bits. -/
def splitHead (heads t : Nat) : Nat :=
  ((((t : Int).bmod (2 ^ 16)).tmod heads) % 256).toNat

theorem split_of_lt (hle : heads ≤ 255) (hpos : 0 < heads) (ht : t < 1024 * heads)
    (hval : (t : Int).bmod (2 ^ 16) = ((t % 2 ^ 16 : Nat) : Int)) :
    splitCylinder heads t = t % 2 ^ 16 / heads ∧ splitHead heads t = t % 2 ^ 16 % heads := by
  have hq : t % 2 ^ 16 / heads < 1024 := by
    rw [Nat.div_lt_iff_lt_mul hpos]
    exact Nat.lt_of_le_of_lt (Nat.mod_le _ _) ht
  have hr : t % 2 ^ 16 % heads < heads := Nat.mod_lt _ hpos
  unfold splitCylinder splitHead
  rw [hval, ← Int.ofNat_tdiv, ← Int.ofNat_tmod]
  generalize t % 2 ^ 16 / heads = q at hq ⊢
  generalize t % 2 ^ 16 % heads = r at hr ⊢
  omega

theorem split_of_ge {a : Nat} (hle : heads ≤ 255) (hpos : 0 < heads) (hsmall : a / heads < 1024)
    (hval : (t : Int).bmod (2 ^ 16) = -(a : Int)) :
    splitCylinder heads t = (1024 - a / heads) % 1024 ∧
      splitHead heads t = (256 - a % heads) % 256 := by
  have hr : a % heads < heads := Nat.mod_lt _ hpos
  unfold splitCylinder splitHead
  rw [hval, Int.neg_tdiv, Int.neg_tmod, ← Int.ofNat_tdiv, ← Int.ofNat_tmod]
  generalize a / heads = q at hsmall ⊢
  generalize a % heads = r at hr ⊢
  omega

/-- The division gives the cylinder and the head of a track that fits. -/
theorem split_eq (hle : heads ≤ 255) (hpos : 0 < heads) (ht : t < 1024 * heads)
    (hfits : TrackFits heads t) :
    splitCylinder heads t = t / heads ∧ splitHead heads t = t % heads := by
  rcases bmod_cases t with ⟨hlow, hval⟩ | ⟨hhigh, hval⟩
  · obtain ⟨hcylinder, hhead⟩ := split_of_lt hle hpos ht hval
    have hlt : t < 2 ^ 15 := by
      rcases hfits with h | ⟨h, -⟩
      · exact h
      · exact absurd h (Nat.not_le.mpr hlow)
    rw [Nat.mod_eq_of_lt (Nat.lt_trans hlt (by decide))] at hcylinder hhead
    exact ⟨hcylinder, hhead⟩
  · rcases hfits with hlt | ⟨-, hheads, hfirst⟩
    · rw [Nat.mod_eq_of_lt (Nat.lt_trans hlt (by decide))] at hhigh
      exact absurd hlt (Nat.not_lt.mpr hhigh)
    · -- the first track of a cylinder, counted from the end of the round
      obtain ⟨k, hk⟩ : ∃ k, t = heads * k := Nat.dvd_of_mod_eq_zero hfirst
      have hround : t + (2 ^ 16 - t % 2 ^ 16) = heads * 1024 := by omega
      have hk1024 : k < 1024 := by
        rw [hk, Nat.mul_comm] at ht
        exact Nat.lt_of_mul_lt_mul_right ht
      have hback : 2 ^ 16 - t % 2 ^ 16 = heads * (1024 - k) := by
        rw [Nat.mul_sub, ← hk, ← hround, Nat.add_sub_cancel_left]
      have hk0 : 0 < k := by
        rcases Nat.eq_zero_or_pos k with rfl | hk0
        · omega
        · exact hk0
      have hquot : (2 ^ 16 - t % 2 ^ 16) / heads = 1024 - k := by
        rw [hback, Nat.mul_div_cancel_left _ hpos]
      have hrem : (2 ^ 16 - t % 2 ^ 16) % heads = 0 := by
        rw [hback, Nat.mul_mod_right]
      obtain ⟨hcylinder, hhead⟩ := split_of_ge hle hpos (by omega) hval
      rw [hcylinder, hhead, hquot, hrem, hfirst, hk, Nat.mul_div_cancel_left _ hpos]
      exact ⟨by omega, by decide⟩

/-- The cylinder and the head are those of the track exactly if it fits. -/
theorem split_iff (hle : heads ≤ 255) (hpos : 0 < heads) (ht : t < 1024 * heads) :
    splitCylinder heads t * heads + splitHead heads t = t ↔ TrackFits heads t := by
  refine ⟨fun h => ?_, fun hfits => ?_⟩
  · rcases bmod_cases t with ⟨hlow, hval⟩ | ⟨hhigh, hval⟩
    · obtain ⟨hcylinder, hhead⟩ := split_of_lt hle hpos ht hval
      rw [hcylinder, hhead, Nat.div_add_mod'] at h
      exact Or.inl (h ▸ hlow)
    · have hback : 2 ^ 16 - t % 2 ^ 16 ≤ 2 ^ 15 := by omega
      have hround : t + (2 ^ 16 - t % 2 ^ 16) = 2 ^ 16 * (t / 2 ^ 16 + 1) := by omega
      generalize 2 ^ 16 - t % 2 ^ 16 = a at hval hback hround
      have hsmall : a / heads < 1024 := (Nat.div_lt_iff_lt_mul hpos).mpr (by omega)
      have hdiv : heads * (a / heads) + a % heads = a := Nat.div_add_mod a heads
      have hr : a % heads < heads := Nat.mod_lt _ hpos
      obtain ⟨hcylinder, hhead⟩ := split_of_ge hle hpos hsmall hval
      rw [hcylinder, hhead] at h
      rcases Nat.eq_zero_or_pos (a / heads) with hq | hq
      · rw [hq] at h
        omega
      · rw [Nat.mod_eq_of_lt (Nat.sub_lt (by decide) hq), Nat.sub_mul,
          Nat.mul_comm (a / heads)] at h
        have hprod : heads * (a / heads) < 1024 * heads := by
          rw [Nat.mul_comm]
          exact Nat.mul_lt_mul_of_pos_right hsmall hpos
        rcases Nat.eq_zero_or_pos (a % heads) with hzero | hnonzero
        · have hsum : t + a = 1024 * heads := by omega
          refine Or.inr ⟨hhigh, by omega, ?_⟩
          have hdvd : heads ∣ t + a := hsum ▸ Nat.dvd_mul_left heads 1024
          exact Nat.mod_eq_zero_of_dvd
            ((Nat.dvd_add_left (Nat.dvd_of_mod_eq_zero hzero)).mp hdvd)
        · omega
  · obtain ⟨hcylinder, hhead⟩ := split_eq hle hpos ht hfits
    rw [hcylinder, hhead, Nat.div_add_mod']

end Split

end Lib
end Elks
