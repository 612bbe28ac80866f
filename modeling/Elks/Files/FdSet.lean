import Mathlib.Data.Nat.Bitwise

/-!
# Sets of descriptors (include/arch/posix_types.h)

An `fd_set` is a `__u32`, and so is `close_on_exec`.  `FD_ISSET` builds its mask as an
`int`, which has sixteen bits here: the shift leaves nothing of the 1 for a descriptor
from 16 on, and the mask of descriptor 15 is negative and is sign extended.

* `fdIsset_low`, `fdIsset_fifteen` and `fdIsset_high`: what `FD_ISSET` finds.
-/

namespace Elks
namespace Files

/-- `fd_set` and `fd_mask_t`. -/
abbrev FdSet :=
  BitVec 32

/-- `1 << n`, an `int`. -/
def intBit (n : Nat) : BitVec 16 :=
  1#16 <<< n

/-- `FD_ISSET`. -/
def fdIsset (fd : Nat) (set : FdSet) : Bool :=
  set &&& (intBit (fd &&& 0x1f)).signExtend 32 != 0

/-- The `int` of `FD_SET` and `FD_CLR`, stored at the byte `fd >> 4`. -/
def fdMask (fd : Nat) : FdSet :=
  (intBit (fd &&& 0xf)).setWidth 32 <<< (8 * (fd >>> 4))

/-- `FD_SET`. -/
def fdSet (fd : Nat) (set : FdSet) : FdSet :=
  set ||| fdMask fd

/-- `FD_CLR`. -/
def fdClr (fd : Nat) (set : FdSet) : FdSet :=
  set &&& ~~~fdMask fd

/-- The set after `set_bit`. -/
def FdSet.withBit (fd : Nat) (set : FdSet) : FdSet :=
  set ||| BitVec.twoPow 32 fd

/-- The set after `clear_bit`. -/
def FdSet.withoutBit (fd : Nat) (set : FdSet) : FdSet :=
  set &&& ~~~BitVec.twoPow 32 fd

section Bits

variable {fd k : Nat} {set mask : FdSet}

theorem and_ne_zero_iff :
    (set &&& mask != 0) = true ↔ ∃ k, set.getLsbD k = true ∧ mask.getLsbD k = true := by
  rw [bne_iff_ne]
  constructor
  · intro hne
    by_contra hnone
    refine hne (BitVec.eq_of_getLsbD_eq fun k _ => ?_)
    rw [BitVec.getLsbD_and]
    by_contra hbit
    simp only [BitVec.ofNat_eq_ofNat, BitVec.getLsbD_zero, Bool.not_eq_false,
      Bool.and_eq_true] at hbit
    exact hnone ⟨k, hbit⟩
  · rintro ⟨k, hset, hmask⟩ hzero
    have hbit : (set &&& mask).getLsbD k = true := by
      rw [BitVec.getLsbD_and, hset, hmask, Bool.and_true]
    rw [hzero] at hbit
    simp at hbit

theorem intBit_getLsbD (n k : Nat) :
    ((intBit n).signExtend 32).getLsbD k = true ↔
      k < 32 ∧ (n < 16 ∧ k = n ∨ n = 15 ∧ 15 ≤ k) := by
  unfold intBit
  rw [BitVec.getLsbD_signExtend, BitVec.msb_eq_getLsbD_last]
  simp only [BitVec.getLsbD_shiftLeft, BitVec.getLsbD_one]
  split <;> grind

theorem fdIsset_iff (hfd : fd < 32) :
    fdIsset fd set = true ↔
      ∃ k, set.getLsbD k = true ∧ (fd < 16 ∧ k = fd ∨ fd = 15 ∧ 15 ≤ k) := by
  have hmod : fd &&& 0x1f = fd := by
    rw [show 0x1f = 2 ^ 5 - 1 from rfl, Nat.and_two_pow_sub_one_eq_mod, Nat.mod_eq_of_lt hfd]
  unfold fdIsset
  rw [hmod, and_ne_zero_iff]
  simp only [intBit_getLsbD]
  constructor
  · rintro ⟨k, hset, _, hk⟩
    exact ⟨k, hset, hk⟩
  · rintro ⟨k, hset, hk⟩
    exact ⟨k, hset, BitVec.lt_of_getLsbD hset, hk⟩

/-- Below 15 `FD_ISSET` tests the bit of the descriptor. -/
theorem fdIsset_low (hfd : fd < 15) : fdIsset fd set = set.getLsbD fd := by
  rw [Bool.eq_iff_iff, fdIsset_iff (by omega)]
  constructor
  · rintro ⟨k, hset, ⟨_, rfl⟩ | ⟨rfl, _⟩⟩
    · exact hset
    · omega
  · intro hset
    exact ⟨fd, hset, Or.inl ⟨by omega, rfl⟩⟩

/-- For descriptor 15 `FD_ISSET` tests all bits from 15 on. -/
theorem fdIsset_fifteen : fdIsset 15 set = true ↔ ∃ k, 15 ≤ k ∧ set.getLsbD k = true := by
  rw [fdIsset_iff (by decide)]
  constructor
  · rintro ⟨k, hset, ⟨_, rfl⟩ | ⟨_, hk⟩⟩
    · exact ⟨15, le_rfl, hset⟩
    · exact ⟨k, hk, hset⟩
  · rintro ⟨k, hk, hset⟩
    exact ⟨k, hset, Or.inr ⟨rfl, hk⟩⟩

/-- From 16 on `FD_ISSET` finds no descriptor. -/
theorem fdIsset_high (hfd : 16 ≤ fd) (hlt : fd < 32) : fdIsset fd set = false := by
  rw [← Bool.not_eq_true, fdIsset_iff hlt]
  rintro ⟨k, _, hk⟩
  omega

/-- Below 16 `FD_ISSET` finds every descriptor of the set. -/
theorem fdIsset_of_mem (hfd : fd < 16) (hset : set.getLsbD fd = true) :
    fdIsset fd set = true := by
  rw [fdIsset_iff (by omega)]
  exact ⟨fd, hset, Or.inl ⟨hfd, rfl⟩⟩

end Bits

end Files
end Elks
