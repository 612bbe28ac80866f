import Elks.Minix.WriteFail

/-!
# A read that fails (fs/minix/file.c)

The loop of `minix_file_read` stops at a block whose buffer `readbuf` cannot fill.  A
block that `minix_getblk` does not give is a hole for it and reads as zeros.  The
count of the bytes that were copied is returned as an `int` of sixteen bits, and
`-EIO` for none.

`Delivered` says how many bytes come before the first block that is lost, and
`faultyRead_count` that these are the bytes that a read copies.
-/

namespace Elks
namespace Minix

open Lib

section Code

/-- `minix_getblk` without `create` in round `r`. -/
def Faults.find (io : Faults) (r : Nat) (s : Fs) (ino block : Nat) : Option Nat :=
  if io.noBlock r then none else (minixGetblk s ino block false).1

/-- The rounds of the loop of `minix_file_read`, from round `r` on. -/
def faultyReadLoop (io : Faults) (s : Fs) (ino : Nat) :
    Nat → Nat → Nat → Nat → Nat → List UInt8
  | 0, _, _, _, _ => []
  | blocks + 1, r, block, offset, left =>
      let chars := if left < 1024 - offset then left else 1024 - offset
      match io.find r s ino block with
      | some bh =>
          if io.unreadable r then []
          else
            ((List.range chars).map fun k => byteAt (s.block bh) (offset + k)) ++
              faultyReadLoop io s ino blocks (r + 1) (wrap 16 (block + 1)) 0 (left - chars)
      | none =>
          List.replicate chars 0 ++
            faultyReadLoop io s ino blocks (r + 1) (wrap 16 (block + 1)) 0 (left - chars)

/-- What a read returns and leaves; `f_pos` is what `sys_lseek` lets through, not negative. -/
structure FaultyRead where
  ret : Int
  buf : List UInt8
  fPos : Nat

/-- `minix_file_read`. -/
def faultyRead (io : Faults) (s : Fs) (ino fPos icount : Nat) : FaultyRead :=
  let count := icount % 65536
  let size := int32 (s.inode ino).iSize
  let left := if fPos > size then 0 else size - fPos
  let left := if left > count then (count : Int) else left
  if left ≤ 0 then { ret := 0, buf := [], fPos := fPos }
  else if hasFormat sIfreg (s.inode ino).iMode = false then
    { ret := -writeErrno .einval, buf := [], fPos := fPos }
  else
    let left := left.toNat
    let offset := fPos % 1024
    let blocks := wrap 16 ((offset + left + 1023) / 1024)
    let buf := faultyReadLoop io s ino blocks 0 (wrap 16 (fPos / 1024)) offset left
    { ret := if buf.length = 0 then -writeErrno .eio else int16 buf.length
      buf := buf
      fPos := fPos + buf.length }

end Code

section Property

/-- Round `r` finds the buffer of a block and cannot read it. -/
def Faults.lost (io : Faults) (s : Fs) (ino r block : Nat) : Bool :=
  (io.find r s ino (wrap 16 block)).isSome && io.unreadable r

/-- The bytes a read can ask of a file. -/
def Fs.wanted (s : Fs) (ino fPos count : Nat) : Nat :=
  min count ((s.inode ino).iSize - fPos)

/-- The first `n` bytes from `fPos` on: they are there, and no block that begins before
the last of them is lost. -/
def Delivered (io : Faults) (s : Fs) (ino fPos count n : Nat) : Prop :=
  n ≤ s.wanted ino fPos count ∧
    ∀ r, io.lost s ino r (fPos / 1024 + r) = true → n ≤ r * 1024 - fPos % 1024

end Property

section Loop

variable {io : Faults} {s : Fs} {ino : Nat}

theorem faultyReadLoop_lost {r pos : Nat} (blocks left : Nat)
    (h : io.lost s ino r (pos / 1024) = true) :
    faultyReadLoop io s ino (blocks + 1) r (wrap 16 (pos / 1024)) (pos % 1024) left = [] := by
  obtain ⟨hfound, hbad⟩ := Bool.and_eq_true_iff.mp h
  obtain ⟨bh, hbh⟩ := Option.isSome_iff_exists.mp hfound
  unfold faultyReadLoop
  rw [hbh]
  exact if_pos hbad

/-- Any other round copies the bytes up to the end of its block. -/
theorem faultyReadLoop_length {r pos : Nat} (blocks left : Nat)
    (h : io.lost s ino r (pos / 1024) = false) :
    (faultyReadLoop io s ino (blocks + 1) r (wrap 16 (pos / 1024)) (pos % 1024) left).length =
      min left (1024 - pos % 1024) +
        (faultyReadLoop io s ino blocks (r + 1) (wrap 16 (wrap 16 (pos / 1024) + 1)) 0
          (left - min left (1024 - pos % 1024))).length := by
  have hchars : (if left < 1024 - pos % 1024 then left else 1024 - pos % 1024) =
      min left (1024 - pos % 1024) := by
    split <;> omega
  conv_lhs => unfold faultyReadLoop
  rw [hchars]
  dsimp only
  unfold Faults.lost at h
  cases hfind : io.find r s ino (wrap 16 (pos / 1024)) with
  | none =>
      rw [List.length_append, List.length_replicate]
  | some bh =>
      rw [hfind, Option.isSome_some, Bool.true_and] at h
      dsimp only
      rw [if_neg (by simp [h]), List.length_append, List.length_map, List.length_range]

theorem lost_later {r pos chars n : Nat} (hlost : io.lost s ino r (pos / 1024) = false)
    (hchars : 1024 - pos % 1024 = chars) :
    (∀ k, io.lost s ino (r + k) (pos / 1024 + k) = true → n ≤ k * 1024 - pos % 1024) ↔
      ∀ k, io.lost s ino (r + 1 + k) (pos / 1024 + 1 + k) = true → n - chars ≤ k * 1024 := by
  constructor
  · intro h k hk
    have hle := h (k + 1) (by
      rw [Nat.add_comm k 1, ← Nat.add_assoc, ← Nat.add_assoc]
      exact hk)
    omega
  · intro h k hk
    cases k with
    | zero =>
        rw [Nat.add_zero, Nat.add_zero, hlost] at hk
        cases hk
    | succ k =>
        have hle := h k (by
          rw [Nat.add_assoc, Nat.add_assoc, Nat.add_comm 1 k]
          exact hk)
        omega

theorem faultyReadLoop_reaches (blocks r pos left n : Nat)
    (hblocks : blocks = (pos % 1024 + left + 1023) / 1024) :
    n ≤ (faultyReadLoop io s ino blocks r (wrap 16 (pos / 1024)) (pos % 1024) left).length ↔
      n ≤ left ∧
        ∀ k, io.lost s ino (r + k) (pos / 1024 + k) = true → n ≤ k * 1024 - pos % 1024 := by
  induction blocks generalizing r pos left n with
  | zero =>
      obtain rfl : left = 0 := by omega
      constructor
      · intro hn
        obtain rfl : n = 0 := Nat.le_zero.mp hn
        exact ⟨Nat.le_refl 0, fun _ _ => Nat.zero_le _⟩
      · exact fun h => h.1
  | succ blocks ih =>
      cases hlost : io.lost s ino r (pos / 1024) with
      | true =>
          rw [faultyReadLoop_lost blocks left hlost]
          constructor
          · intro hn
            obtain rfl : n = 0 := Nat.le_zero.mp hn
            exact ⟨Nat.zero_le _, fun _ _ => Nat.zero_le _⟩
          · intro h
            have hfirst := h.2 0 hlost
            rw [Nat.zero_mul, Nat.zero_sub] at hfirst
            exact hfirst
      | false =>
          rw [faultyReadLoop_length blocks left hlost]
          by_cases hlast : left < 1024 - pos % 1024
          · -- the bytes end in this block
            have hdone : blocks = 0 := by omega
            rw [hdone, Nat.min_eq_left hlast.le, faultyReadLoop, List.length_nil, Nat.add_zero]
            refine ⟨fun hn => ⟨hn, fun k hk => ?_⟩, fun h => h.1⟩
            cases k with
            | zero =>
                rw [Nat.add_zero, Nat.add_zero, hlost] at hk
                cases hk
            | succ k => omega
          · -- they go on at the start of the next
            rw [Nat.min_eq_right (by omega)]
            generalize hchars : 1024 - pos % 1024 = chars at hlast ⊢
            have hstart : (pos + chars) % 1024 = 0 := by omega
            have hblock : (pos + chars) / 1024 = pos / 1024 + 1 := by omega
            have hnext := ih (r + 1) (pos + chars) (left - chars) (n - chars) (by omega)
            rw [hstart, hblock] at hnext
            have hwrap : wrap 16 (wrap 16 (pos / 1024) + 1) = wrap 16 (pos / 1024 + 1) := by
              unfold wrap
              omega
            rw [hwrap, Nat.add_comm chars, ← Nat.sub_le_iff_le_add, hnext]
            rw [lost_later hlost hchars]
            exact and_congr_left fun _ => by omega

theorem faultyReadLoop_quiet (hio : ∀ r, io.noBlock r = false ∧ io.unreadable r = false)
    (blocks r block offset left : Nat) :
    faultyReadLoop io s ino blocks r block offset left =
      readLoop s ino blocks block offset left := by
  induction blocks generalizing r block offset left with
  | zero => rfl
  | succ blocks ih =>
      have hfind : io.find r s ino block = (minixGetblk s ino block false).1 := by
        unfold Faults.find
        rw [if_neg (by simp [(hio r).1])]
      unfold faultyReadLoop readLoop
      rw [hfind]
      cases (minixGetblk s ino block false).1 with
      | none =>
          dsimp only
          rw [ih]
      | some bh =>
          dsimp only
          rw [if_neg (by simp [(hio r).2]), ih]

end Loop

section Read

variable {io : Faults} {s : Fs} {ino fPos count : Nat}

/-- The bytes that a read of a regular file copies. -/
def Faults.copied (io : Faults) (s : Fs) (ino fPos left : Nat) : List UInt8 :=
  faultyReadLoop io s ino ((fPos % 1024 + left + 1023) / 1024) 0 (wrap 16 (fPos / 1024))
    (fPos % 1024) left

theorem faultyRead_eq (hreg : hasFormat sIfreg (s.inode ino).iMode = true)
    (hsize : (s.inode ino).iSize < 2 ^ 31) (hcount : count < 65536) :
    faultyRead io s ino fPos count =
      let left := s.wanted ino fPos count
      let buf := io.copied s ino fPos left
      if left = 0 then { ret := 0, buf := [], fPos := fPos }
      else
        { ret := if buf.length = 0 then -writeErrno .eio else int16 buf.length
          buf := buf
          fPos := fPos + buf.length } := by
  unfold Fs.wanted Faults.copied faultyRead
  rw [int32_of_lt hsize, Nat.mod_eq_of_lt hcount]
  dsimp only
  have hleft : (if (if (fPos : Int) > (s.inode ino).iSize then (0 : Int)
      else (s.inode ino).iSize - fPos) > count then (count : Int)
      else if (fPos : Int) > (s.inode ino).iSize then 0 else (s.inode ino).iSize - fPos) =
      (min count ((s.inode ino).iSize - fPos) : Nat) := by
    split <;> split <;> omega
  have hle : min count ((s.inode ino).iSize - fPos) < 65536 := by omega
  rw [hleft]
  generalize min count ((s.inode ino).iSize - fPos) = left at hle ⊢
  have hblocks : wrap 16 ((fPos % 1024 + left + 1023) / 1024) =
      (fPos % 1024 + left + 1023) / 1024 :=
    wrap_of_lt (by omega)
  by_cases hnone : left = 0
  · rw [if_pos (by omega), if_pos hnone]
  · rw [if_neg (by omega), if_neg (by simp [hreg]), if_neg hnone, Int.toNat_natCast, hblocks]

theorem faultyRead_huge (hlo : 2 ^ 31 ≤ (s.inode ino).iSize) (hhi : (s.inode ino).iSize < 2 ^ 32) :
    faultyRead io s ino fPos count = { ret := 0, buf := [], fPos := fPos } := by
  have hneg := int32_neg hlo hhi
  have hpast : (fPos : Int) > int32 (s.inode ino).iSize := by omega
  have hnone : ¬(0 : Int) > (count % 65536 : Nat) := by omega
  unfold faultyRead
  dsimp only
  rw [if_pos hpast, if_neg hnone, if_pos (le_refl 0)]

theorem copied_iff (io : Faults) (s : Fs) (ino fPos count n : Nat) :
    n ≤ (io.copied s ino fPos (s.wanted ino fPos count)).length ↔
      Delivered io s ino fPos count n := by
  have hreaches := @faultyReadLoop_reaches io s ino _ 0 fPos (s.wanted ino fPos count) n rfl
  simp only [Nat.zero_add] at hreaches
  exact hreaches

theorem faultyRead_quiet (hio : ∀ r, io.noBlock r = false ∧ io.unreadable r = false) :
    (faultyRead io s ino fPos count).buf = (minixFileRead s ino fPos count).buf ∧
      (faultyRead io s ino fPos count).fPos = (minixFileRead s ino fPos count).fPos := by
  unfold faultyRead minixFileRead
  simp only [faultyReadLoop_quiet hio]
  split_ifs <;> exact ⟨rfl, rfl⟩

end Read

end Minix
end Elks
