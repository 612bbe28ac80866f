import Elks.Romfs.Image

/-!
# romfs_copyfrom on images of any size (fs/romfs/inode.c)

The size of an image has 32 bits; `romfs_copyfrom` compares with its lower sixteen.

**Result.**  `copyfrom_exact_iff`: a run of bytes of the image is copied and any other one
refused, exactly when it lies outside the image, or begins and ends within that remainder
of its size.
-/

namespace Elks
namespace Romfs

open Lib

/-- The blocks of an image can be read, and their numbers fit into sixteen bits. -/
structure Image.NoErrors (img : Image) : Prop where
  le : img.sMaxsize ≤ 2 ^ 26
  block : ∀ b, img.Inside b → ∃ bh, img.block b = some bh

/-- A run of bytes of the image is copied, and any other one refused without a look at
the device. -/
def Image.Exact (img : Image) (offset count : Nat) : Prop :=
  ∀ dest,
    if offset + count ≤ img.sMaxsize then
      Rom.val (romfsCopyfrom img dest offset count) =
        ((count : Int), memcpy dest 0 (fun k => img.byte (offset + k)) count)
    else
      Rom.val (romfsCopyfrom img dest offset count) = (-1, dest) ∧
        Rom.asked (romfsCopyfrom img dest offset count) = []

/-- The image as far as `romfs_copyfrom` sees it. -/
def Image.cut (img : Image) : Image :=
  { img with sMaxsize := wrap 16 img.sMaxsize }

section Sizes

variable {img : Image} {offset count : Nat} {dest : Nat → UInt8}

theorem Image.cut_le (img : Image) : img.cut.sMaxsize ≤ img.sMaxsize :=
  Nat.mod_le _ _

theorem Image.NoErrors.readable (h : img.NoErrors) : Readable img.cut where
  lt := wrap_lt 16 img.sMaxsize
  block b hb := h.block b (lt_of_lt_of_le hb img.cut_le)

theorem copyLoop_cut (n : Nat) (offset : Int) (maxsize res : Nat) (dest : Nat → UInt8) :
    copyLoop img.cut count n offset maxsize res dest =
      copyLoop img count n offset maxsize res dest := by
  induction n generalizing offset maxsize res dest with
  | zero => rfl
  | succ n ih =>
      unfold copyLoop
      simp only [ih]
      rfl

/-- The bytes behind the part that is seen do not matter. -/
theorem romfsCopyfrom_cut (offset : Int) :
    romfsCopyfrom img.cut dest offset count = romfsCopyfrom img dest offset count := by
  have hsize : wrap 16 img.cut.sMaxsize = wrap 16 img.sMaxsize := wrap_wrap 16 img.sMaxsize
  unfold romfsCopyfrom
  simp only [copyLoop_cut, hsize]
  rfl

theorem copyfrom_seen (h : img.NoErrors) (hoffset : offset < wrap 16 img.sMaxsize)
    (hcount : offset + count ≤ wrap 16 img.sMaxsize) :
    Rom.val (romfsCopyfrom img dest offset count) =
      ((count : Int), memcpy dest 0 (fun k => img.byte (offset + k)) count) := by
  have hreads := romfsCopyfrom_reads h.readable hoffset hcount dest
  rw [romfsCopyfrom_cut] at hreads
  exact hreads.val

theorem copyfrom_unseen
    (h : ¬(offset < wrap 16 img.sMaxsize ∧ offset + count ≤ wrap 16 img.sMaxsize)) :
    romfsCopyfrom img dest offset count = pure (-1, dest) := by
  unfold romfsCopyfrom
  exact if_pos (by omega)

/-- `romfs_copyfrom` of `count` bytes, a number that fits an `int`. -/
theorem copyfrom_exact_iff (h : img.NoErrors) :
    img.Exact offset count ↔
      img.sMaxsize < offset + count ∨
        offset < img.sMaxsize % 65536 ∧ offset + count ≤ img.sMaxsize % 65536 := by
  have hcut : wrap 16 img.sMaxsize = img.sMaxsize % 65536 := rfl
  have hle := Nat.mod_le img.sMaxsize 65536
  unfold Image.Exact
  by_cases hin : offset + count ≤ img.sMaxsize
  · simp only [if_pos hin]
    by_cases hseen : offset < img.sMaxsize % 65536 ∧ offset + count ≤ img.sMaxsize % 65536
    · exact iff_of_true (fun dest => copyfrom_seen h hseen.1 hseen.2) (Or.inr hseen)
    · refine iff_of_false (fun hall => ?_) (by omega)
      have hcopied := hall fun _ => 0
      rw [copyfrom_unseen hseen] at hcopied
      have hret : (-1 : Int) = count := congrArg Prod.fst hcopied
      omega
  · simp only [if_neg hin]
    refine iff_of_true (fun dest => ?_) (Or.inl (by omega))
    rw [copyfrom_unseen (by omega)]
    exact ⟨rfl, rfl⟩

end Sizes

section Large

/-- An image of 70000 bytes. -/
def largeImage : Image where
  sMaxsize := 70000
  block _ := some fun _ => 0

theorem copyfrom_exact_start : largeImage.Exact 100 24 :=
  (copyfrom_exact_iff ⟨by decide, fun _ _ => ⟨_, rfl⟩⟩).mpr (Or.inr (by decide))

/-- Its bytes from 5000 on are refused. -/
theorem copyfrom_refuses_large :
    5000 + 16 ≤ largeImage.sMaxsize ∧
      (∀ dest, Rom.val (romfsCopyfrom largeImage dest 5000 16) = (-1, dest)) ∧
      ¬largeImage.Exact 5000 16 := by
  have hrefused : ∀ dest, romfsCopyfrom largeImage dest (5000 : Nat) 16 = pure (-1, dest) :=
    fun dest => copyfrom_unseen (by decide)
  refine ⟨by decide, fun dest => congrArg Rom.val (hrefused dest), fun hexact => ?_⟩
  have hcopied := hexact fun _ => 0
  rw [if_pos (by decide), hrefused] at hcopied
  exact absurd (congrArg Prod.fst hcopied) (by decide)

end Large

end Romfs
end Elks
