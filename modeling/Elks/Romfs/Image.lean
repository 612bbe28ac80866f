import Elks.Minix.Super
import Mathlib.Control.Monad.Writer

/-!
# Reading a romfs image (fs/romfs/inode.c, romfs_fs.h)

`romfs_strnlen` and `romfs_copyfrom` measure and copy a run of bytes of the
image that may lie across several blocks.  An offset is a `loff_t`, a signed
number of 32 bits, a count is a `size_t` of sixteen bits, and a block number is
the offset shifted down and cut to sixteen bits: the block of offset -1 is block
65535.

The code keeps, beside its result, the numbers of the blocks it asks `bread`
for.  Both functions answer what one would read off the flat image, and ask for
blocks of the image only.
-/

namespace Elks
namespace Romfs

open Lib
open Buffer (Block)
open Minix (byteAt)

/-- Code that reads blocks, and writes down the numbers of those it asks for. -/
abbrev Rom := Writer (List Nat)

/-- What a mounted image is to its readers: `s_maxsize`, and the blocks of the
device that can be read. -/
structure Image where
  sMaxsize : Nat
  block : Nat → Option Block

section Code

/-- `bread`. -/
def Image.bread (img : Image) (b : Nat) : Rom (Option Block) := do
  tell [b]
  return img.block b

/-- `(block_t) (offset >> ROMBSBITS)`. -/
def blockOf (offset : Int) : Nat :=
  (offset / 1024 % 65536).toNat

/-- `offset & ROMBMASK`. -/
def offsetIn (offset : Int) : Nat :=
  (offset % 1024).toNat

/-- `strnlen`. -/
def strnlen (s : Nat → UInt8) : Nat → Nat
  | 0 => 0
  | n + 1 => if s 0 = 0 then 0 else strnlen (fun k => s (k + 1)) n + 1

/-- The buffer after `memcpy(dest + k, src, n)`. -/
def memcpy (dest : Nat → UInt8) (k : Nat) (src : Nat → UInt8) (n : Nat) : Nat → UInt8 :=
  fun i => if k ≤ i ∧ i < k + n then src (i - k) else dest i

/-- The rounds of `romfs_strnlen` after the first block; every round measures a
byte at least. -/
def strnlenLoop (img : Image) (count : Nat) : Nat → Int → Nat → Nat → Rom Int
  | 0, _, _, res => pure res
  | n + 1, offset, maxsize, res =>
      if res < count then do
        match ← img.bread (blockOf (offset + maxsize)) with
        | none => return -1
        | some bh =>
            if strnlen (byteAt bh) (min (count - res) 1024) < min (count - res) 1024 then
              return (res + strnlen (byteAt bh) (min (count - res) 1024) : Nat)
            else
              strnlenLoop img count n (offset + maxsize) (min (count - res) 1024)
                (res + strnlen (byteAt bh) (min (count - res) 1024))
      else return res

/-- The count `romfs_strnlen` works with: the image ends somewhere. -/
def clipCount (maxsize : Nat) (offset : Int) (count : Nat) : Nat :=
  if maxsize < count ∨ (maxsize : Int) < offset + count then
    ((maxsize - offset) % 65536).toNat
  else count

/-- `romfs_strnlen`, for the counts of its callers, which fit an `int`. -/
def romfsStrnlen (img : Image) (offset : Int) (count : Nat) : Rom Int :=
  if (wrap 16 img.sMaxsize : Int) ≤ offset then pure (-1)
  else do
    let count := clipCount (wrap 16 img.sMaxsize) offset count
    match ← img.bread (blockOf offset) with
    | none => return -1
    | some bh =>
        let maxsize := min count (1024 - offsetIn offset)
        let res := strnlen (fun k => byteAt bh (offsetIn offset + k)) maxsize
        if res < maxsize then return res
        else strnlenLoop img count count offset maxsize res

/-- The rounds of `romfs_copyfrom` after the first block; every round copies a
byte at least. -/
def copyLoop (img : Image) (count : Nat) :
    Nat → Int → Nat → Nat → (Nat → UInt8) → Rom (Int × (Nat → UInt8))
  | 0, _, _, res, dest => pure (res, dest)
  | n + 1, offset, maxsize, res, dest =>
      if res < count then do
        match ← img.bread (blockOf (offset + maxsize)) with
        | none => return (-1, dest)
        | some bh =>
            copyLoop img count n (offset + maxsize) (min (count - res) 1024)
              (res + min (count - res) 1024)
              (memcpy dest res (byteAt bh) (min (count - res) 1024))
      else return (res, dest)

/-- `romfs_copyfrom`: its result and what is in `dest` then. -/
def romfsCopyfrom (img : Image) (dest : Nat → UInt8) (offset : Int) (count : Nat) :
    Rom (Int × (Nat → UInt8)) :=
  if (wrap 16 img.sMaxsize : Int) ≤ offset ∨ wrap 16 img.sMaxsize < count ∨
      (wrap 16 img.sMaxsize : Int) < offset + count then pure (-1, dest)
  else do
    match ← img.bread (blockOf offset) with
    | none => return (-1, dest)
    | some bh =>
        let maxsize := min count (1024 - offsetIn offset)
        copyLoop img count count offset maxsize maxsize
          (memcpy dest 0 (fun k => byteAt bh (offsetIn offset + k)) maxsize)

end Code

section Buffers

theorem memcpy_append (dest : Nat → UInt8) (src : Nat → UInt8) (n m : Nat) :
    memcpy (memcpy dest 0 src n) n (fun k => src (n + k)) m = memcpy dest 0 src (n + m) := by
  funext i
  unfold memcpy
  by_cases hlo : i < n
  · rw [if_neg (fun h => absurd h.1 (by omega)), if_pos ⟨Nat.zero_le i, by omega⟩,
      if_pos ⟨Nat.zero_le i, by omega⟩]
  · by_cases hhi : i < n + m
    · have he : n + (i - n) = i - 0 := by omega
      rw [if_pos ⟨by omega, hhi⟩, if_pos ⟨Nat.zero_le i, by omega⟩]
      dsimp only
      rw [he]
    · rw [if_neg (fun h => hhi h.2), if_neg (fun h => hlo (by omega)),
        if_neg (fun h => hhi (by omega))]

theorem memcpy_congr {dest src src' : Nat → UInt8} {k n : Nat} (h : ∀ i, i < n → src i = src' i) :
    memcpy dest k src n = memcpy dest k src' n := by
  funext i
  unfold memcpy
  split
  · exact h _ (by omega)
  · rfl

theorem memcpy_apply (dest src : Nat → UInt8) {n i : Nat} (hi : i < n) :
    memcpy dest 0 src n i = src i := by
  unfold memcpy
  rw [if_pos ⟨by omega, by omega⟩, Nat.sub_zero]

theorem strnlen_le (s : Nat → UInt8) (n : Nat) : strnlen s n ≤ n := by
  induction n generalizing s with
  | zero => exact Nat.le_refl 0
  | succ n ih =>
      unfold strnlen
      split
      · exact Nat.zero_le _
      · exact Nat.succ_le_succ (ih _)

theorem strnlen_congr {s t : Nat → UInt8} {n : Nat} (h : ∀ i, i < n → s i = t i) :
    strnlen s n = strnlen t n := by
  induction n generalizing s t with
  | zero => rfl
  | succ n ih =>
      unfold strnlen
      rw [h 0 (Nat.succ_pos n), ih (fun i hi => h (i + 1) (Nat.succ_lt_succ hi))]

/-- A string that does not end among its first bytes is measured on from there. -/
theorem strnlen_add {s : Nat → UInt8} {n : Nat} (m : Nat) (h : strnlen s n = n) :
    strnlen s (n + m) = n + strnlen (fun k => s (n + k)) m := by
  induction n generalizing s with
  | zero => simp
  | succ n ih =>
      unfold strnlen at h
      split at h
      · cases h
      · rename_i h0
        have hrest := ih (Nat.succ.inj h)
        have he : (fun k => s (n + 1 + k)) = fun k => s (n + k + 1) := by
          funext k
          rw [Nat.add_right_comm]
        rw [Nat.succ_add, he]
        conv_lhs => unfold strnlen
        rw [if_neg h0, hrest]
        omega

/-- A string that ends among its first bytes ends there for any longer count. -/
theorem strnlen_of_lt {s : Nat → UInt8} {n m : Nat} (h : strnlen s n < n) (hm : n ≤ m) :
    strnlen s m = strnlen s n := by
  induction n generalizing s m with
  | zero => exact absurd h (Nat.not_lt_zero _)
  | succ n ih =>
      obtain ⟨m, rfl⟩ : ∃ k, m = k + 1 := ⟨m - 1, by omega⟩
      unfold strnlen at h ⊢
      split
      · rfl
      · rename_i h0
        rw [if_neg h0] at h
        rw [ih (by omega) (by omega)]

theorem strnlen_eq {s : Nat → UInt8} {l : Nat} (h : ∀ i, i < l → s i ≠ 0) (h0 : s l = 0) (n : Nat) :
    strnlen s n = min l n := by
  induction n generalizing s l with
  | zero => simp [strnlen]
  | succ n ih =>
      unfold strnlen
      cases l with
      | zero => rw [if_pos h0, Nat.zero_min]
      | succ l =>
          rw [if_neg (h 0 (Nat.succ_pos l)),
            ih (fun i hi => h (i + 1) (Nat.succ_lt_succ hi)) h0]
          omega

end Buffers

section Reads

variable {α β : Type} {P : Nat → Prop}

/-- What the code answers. -/
def Rom.val (m : Rom α) : α :=
  m.run.1

/-- The blocks the code asks for, in order. -/
def Rom.asked (m : Rom α) : List Nat :=
  m.run.2

theorem Rom.asked_bind (m : Rom α) (f : α → Rom β) :
    Rom.asked (m >>= f) = Rom.asked m ++ Rom.asked (f (Rom.val m)) :=
  rfl

/-- The code answers `a` and asks only for blocks that satisfy `P`. -/
structure Reads (P : Nat → Prop) (m : Rom α) (a : α) : Prop where
  val : Rom.val m = a
  asked : ∀ b ∈ Rom.asked m, P b

theorem Reads.pure (a : α) :
    Reads P (pure a) a :=
  ⟨rfl, fun _ hb => absurd hb List.not_mem_nil⟩

theorem Reads.bind {m : Rom α} {f : α → Rom β} {a : α} {b : β} (hm : Reads P m a)
    (hf : Reads P (f a) b) : Reads P (m >>= f) b := by
  refine ⟨?_, fun b hb => ?_⟩
  · rw [← hf.val, ← hm.val]
    rfl
  · rw [Rom.asked_bind, hm.val] at hb
    rcases List.mem_append.mp hb with hb | hb
    · exact hm.asked b hb
    · exact hf.asked b hb

theorem Reads.bread {img : Image} {b : Nat} (hb : P b) :
    Reads P (img.bread b) (img.block b) :=
  ⟨rfl, fun _ hc => List.mem_singleton.mp hc ▸ hb⟩

end Reads

section Flat

/-- Byte `o` of the image. -/
def Image.byte (img : Image) (o : Nat) : UInt8 :=
  (img.block (o / 1024)).elim 0 fun bh => byteAt bh (o % 1024)

/-- The blocks of the image. -/
def Image.Inside (img : Image) (b : Nat) : Prop :=
  b * 1024 < img.sMaxsize

/-- The image is smaller than 64 KiB and can be read. -/
structure Readable (img : Image) : Prop where
  lt : img.sMaxsize < 65536
  block : ∀ b, img.Inside b → ∃ bh, img.block b = some bh

variable {img : Image} {o count : Nat}

theorem blockOf_natCast (h : o < 65536) : blockOf (o : Int) = o / 1024 := by
  unfold blockOf
  omega

theorem offsetIn_natCast (o : Nat) : offsetIn (o : Int) = o % 1024 := by
  unfold offsetIn
  omega

theorem Readable.wrap (h : Readable img) :
    wrap 16 img.sMaxsize = img.sMaxsize :=
  wrap_of_lt h.lt

theorem byte_of_block {bh : Block} {k : Nat} (hbh : img.block (o / 1024) = some bh)
    (hk : o % 1024 + k < 1024) : img.byte (o + k) = byteAt bh (o % 1024 + k) := by
  unfold Image.byte
  rw [show (o + k) / 1024 = o / 1024 by omega, show (o + k) % 1024 = o % 1024 + k by omega, hbh]
  rfl

theorem Readable.bread (h : Readable img) (ho : o < img.sMaxsize) :
    ∃ bh, img.block (o / 1024) = some bh ∧
      Reads img.Inside (img.bread (blockOf (o : Int))) (some bh) := by
  have hin : img.Inside (o / 1024) := by
    unfold Image.Inside
    omega
  obtain ⟨bh, hbh⟩ := h.block _ hin
  refine ⟨bh, hbh, ?_⟩
  rw [blockOf_natCast (Nat.lt_trans ho h.lt), ← hbh]
  exact Reads.bread hin

section Copy

theorem copyLoop_reads (h : Readable img) (hin : o + count ≤ img.sMaxsize) (dest : Nat → UInt8)
    (n : Nat) :
    ∀ (offset : Int) (maxsize res : Nat),
      offset + maxsize = (o + res : Nat) →
      res ≤ count →
      (res < count → (o + res) % 1024 = 0) →
      count - res ≤ n →
      Reads img.Inside
        (copyLoop img count n offset maxsize res (memcpy dest 0 (fun k => img.byte (o + k)) res))
        (count, memcpy dest 0 (fun k => img.byte (o + k)) count) := by
  induction n with
  | zero =>
      intro offset maxsize res _ hle _ hfuel
      obtain rfl : res = count := by omega
      exact Reads.pure _
  | succ n ih =>
      intro offset maxsize res hoff hle hblock hfuel
      unfold copyLoop
      by_cases hlt : res < count
      · rw [if_pos hlt, hoff]
        have h0 : (o + res) % 1024 = 0 := hblock hlt
        obtain ⟨bh, hbh, hread⟩ := h.bread (o := o + res) (by omega)
        refine hread.bind ?_
        have hcopy : memcpy (memcpy dest 0 (fun k => img.byte (o + k)) res) res (byteAt bh)
              (min (count - res) 1024) =
            memcpy dest 0 (fun k => img.byte (o + k)) (res + min (count - res) 1024) := by
          rw [← memcpy_append]
          refine memcpy_congr fun k hk => ?_
          have hb := byte_of_block hbh (k := k) (by omega)
          rw [h0, Nat.zero_add] at hb
          rw [← hb, Nat.add_assoc]
        dsimp only
        rw [hcopy]
        exact ih _ _ _ (by omega) (by omega) (by omega) (by omega)
      · obtain rfl : res = count := by omega
        rw [if_neg hlt]
        exact Reads.pure _

theorem romfsCopyfrom_reads (h : Readable img) (ho : o < img.sMaxsize)
    (hin : o + count ≤ img.sMaxsize) (dest : Nat → UInt8) :
    Reads img.Inside (romfsCopyfrom img dest o count)
      (count, memcpy dest 0 (fun k => img.byte (o + k)) count) := by
  unfold romfsCopyfrom
  rw [h.wrap, if_neg (by omega), offsetIn_natCast]
  obtain ⟨bh, hbh, hread⟩ := h.bread ho
  refine hread.bind ?_
  have hcopy : memcpy dest 0 (fun k => byteAt bh (o % 1024 + k))
        (min count (1024 - o % 1024)) =
      memcpy dest 0 (fun k => img.byte (o + k)) (min count (1024 - o % 1024)) :=
    memcpy_congr fun k hk => (byte_of_block hbh (by omega)).symm
  dsimp only
  rw [hcopy]
  exact copyLoop_reads h hin dest count _ _ _ (by omega) (by omega) (by omega) (by omega)

end Copy

section Measure

/-- The rounds measure what is left, if they start at a block or nothing is
left. -/
theorem strnlenLoop_reads (h : Readable img) (hin : o + count ≤ img.sMaxsize) (n : Nat) :
    ∀ (offset : Int) (maxsize res : Nat),
      offset + maxsize = (o + res : Nat) →
      res ≤ count →
      (res < count → (o + res) % 1024 = 0) →
      count - res ≤ n →
      strnlen (fun k => img.byte (o + k)) res = res →
      Reads img.Inside (strnlenLoop img count n offset maxsize res)
        (strnlen (fun k => img.byte (o + k)) count : Nat) := by
  induction n with
  | zero =>
      intro offset maxsize res _ hle _ hfuel hres
      obtain rfl : res = count := by omega
      rw [hres]
      exact Reads.pure _
  | succ n ih =>
      intro offset maxsize res hoff hle hblock hfuel hres
      unfold strnlenLoop
      by_cases hlt : res < count
      · rw [if_pos hlt, hoff]
        have h0 : (o + res) % 1024 = 0 := hblock hlt
        obtain ⟨bh, hbh, hread⟩ := h.bread (o := o + res) (by omega)
        refine hread.bind ?_
        have hpiece : strnlen (byteAt bh) (min (count - res) 1024) =
            strnlen (fun k => img.byte (o + (res + k))) (min (count - res) 1024) := by
          refine strnlen_congr fun k hk => ?_
          have hb := byte_of_block hbh (k := k) (by omega)
          rw [h0, Nat.zero_add] at hb
          rw [← hb, Nat.add_assoc]
        have hsum := strnlen_add (s := fun k => img.byte (o + k)) (min (count - res) 1024) hres
        rw [← hpiece] at hsum
        dsimp only
        by_cases hend : strnlen (byteAt bh) (min (count - res) 1024) < min (count - res) 1024
        · have hlast : strnlen (fun k => img.byte (o + k)) count =
              res + strnlen (byteAt bh) (min (count - res) 1024) := by
            rw [← hsum]
            exact strnlen_of_lt (by omega) (by omega)
          rw [if_pos hend, hlast]
          exact Reads.pure _
        · have hfull : strnlen (byteAt bh) (min (count - res) 1024) = min (count - res) 1024 := by
            have hle := strnlen_le (byteAt bh) (min (count - res) 1024)
            omega
          rw [if_neg hend, hfull]
          exact ih _ _ _ (by omega) (by omega) (by omega) (by omega) (by rw [hsum, hfull])
      · obtain rfl : res = count := by omega
        rw [if_neg hlt, hres]
        exact Reads.pure _

theorem clipCount_natCast (h : Readable img) (ho : o < img.sMaxsize) :
    clipCount img.sMaxsize o count = min count (img.sMaxsize - o) := by
  have hlt := h.lt
  unfold clipCount
  split
  · omega
  · omega

theorem romfsStrnlen_reads (h : Readable img) (ho : o < img.sMaxsize) (count : Nat) :
    Reads img.Inside (romfsStrnlen img o count)
      (strnlen (fun k => img.byte (o + k)) (min count (img.sMaxsize - o)) : Nat) := by
  unfold romfsStrnlen
  rw [h.wrap, if_neg (by omega), clipCount_natCast h ho, offsetIn_natCast]
  generalize hc : min count (img.sMaxsize - o) = c
  obtain ⟨bh, hbh, hread⟩ := h.bread ho
  refine hread.bind ?_
  have hpiece : strnlen (fun k => byteAt bh (o % 1024 + k)) (min c (1024 - o % 1024)) =
      strnlen (fun k => img.byte (o + k)) (min c (1024 - o % 1024)) :=
    strnlen_congr fun k hk => (byte_of_block hbh (by omega)).symm
  dsimp only
  rw [hpiece]
  by_cases hend : strnlen (fun k => img.byte (o + k)) (min c (1024 - o % 1024)) <
      min c (1024 - o % 1024)
  · have hlast : strnlen (fun k => img.byte (o + k)) c =
        strnlen (fun k => img.byte (o + k)) (min c (1024 - o % 1024)) :=
      strnlen_of_lt hend (by omega)
    rw [if_pos hend, hlast]
    exact Reads.pure _
  · have hfull : strnlen (fun k => img.byte (o + k)) (min c (1024 - o % 1024)) =
        min c (1024 - o % 1024) := by
      have hle := strnlen_le (fun k => img.byte (o + k)) (min c (1024 - o % 1024))
      omega
    rw [if_neg hend, hfull]
    exact strnlenLoop_reads h (by omega) c _ _ _ (by omega) (by omega) (by omega) (by omega) hfull

end Measure

end Flat

end Romfs
end Elks
