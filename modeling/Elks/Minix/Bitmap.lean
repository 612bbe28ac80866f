import Elks.Minix.Super

/-!
# Bit maps of zones and inodes (fs/minix/bitmap.c)

`minix_new_block` and `minix_new_inode` take the first clear bit of the first
eight slots; `minix_free_block` and `minix_free_inode` clear it again.  Zone
`s_firstdatazone` has bit number one, so a zone and its bit differ by
`s_firstdatazone - 1`; bit zero is set when the file system is mounted.

`get_empty_inode` does not come back before it has found a slot of the inode
table, so `minix_new_inode` fails only for want of a bit.  The two panics of
`minix_new_block` test a bit just found clear and a bit just set.
-/

namespace Elks
namespace Minix

open Lib
open Buffer (Block blockSize)

section Maps

variable {maps : Nat → Option Bitmap} {i j : Nat}

/-- The rounds of `find_first_zero_bit` from bit `pi` on. -/
def zeroBitFrom (addr : Bitmap) : Nat → Nat → Nat
  | 0, pi => pi
  | n + 1, pi => if addr pi then zeroBitFrom addr n (pi + 1) else pi

/-- `find_first_zero_bit`. -/
def findFirstZeroBit (addr : Bitmap) (len : Nat) : Nat :=
  zeroBitFrom addr len 0

/-- The loop over the slots of a map: slot and bit of the first clear bit. -/
def firstFreeFrom (maps : Nat → Option Bitmap) : Nat → Nat → Option (Nat × Nat)
  | 0, _ => none
  | n + 1, i =>
      match maps i with
      | none => firstFreeFrom maps n (i + 1)
      | some bh =>
          if findFirstZeroBit bh bitsPerBlock < bitsPerBlock then
            some (i, findFirstZeroBit bh bitsPerBlock)
          else firstFreeFrom maps n (i + 1)

/-- The search of both allocators, over eight slots. -/
def firstFree (maps : Nat → Option Bitmap) : Option (Nat × Nat) :=
  firstFreeFrom maps 8 0

/-- `set_bit` and `clear_bit` in a slot. -/
def putBit (maps : Nat → Option Bitmap) (i j : Nat) (v : Bool) : Nat → Option Bitmap :=
  Function.update maps i ((maps i).map fun bh => Function.update bh j v)

/-- Bit number `n` of a map; a bit of an absent slot is clear. -/
def bitAt (maps : Nat → Option Bitmap) (n : Nat) : Bool :=
  (maps (n / bitsPerBlock)).any fun bh => bh (n % bitsPerBlock)

theorem zeroBitFrom_spec (addr : Bitmap) (n pi : Nat) :
    zeroBitFrom addr n pi ≤ pi + n ∧
      (zeroBitFrom addr n pi < pi + n → addr (zeroBitFrom addr n pi) = false) := by
  induction n generalizing pi with
  | zero => simp [zeroBitFrom]
  | succ n ih =>
      unfold zeroBitFrom
      by_cases h : addr pi = true
      · rw [if_pos h]
        have := ih (pi + 1)
        refine ⟨by omega, fun hlt => this.2 (by omega)⟩
      · rw [if_neg h]
        exact ⟨by omega, fun _ => by simpa using h⟩

theorem findFirstZeroBit_clear {addr : Bitmap} {len : Nat} (h : findFirstZeroBit addr len < len) :
    addr (findFirstZeroBit addr len) = false :=
  (zeroBitFrom_spec addr len 0).2 (by rwa [Nat.zero_add])

theorem firstFreeFrom_spec {n i i' j : Nat} (h : firstFreeFrom maps n i = some (i', j)) :
    i' < i + n ∧ ∃ bh, maps i' = some bh ∧ j < bitsPerBlock ∧ bh j = false := by
  induction n generalizing i with
  | zero => simp [firstFreeFrom] at h
  | succ n ih =>
      unfold firstFreeFrom at h
      split at h
      · obtain ⟨hlt, hbh⟩ := ih h
        exact ⟨by omega, hbh⟩
      · rename_i bh hbh
        split at h
        · rename_i hj
          simp only [Option.some.injEq, Prod.mk.injEq] at h
          obtain ⟨rfl, rfl⟩ := h
          exact ⟨by omega, bh, hbh, hj, findFirstZeroBit_clear hj⟩
        · obtain ⟨hlt, hbh'⟩ := ih h
          exact ⟨by omega, hbh'⟩

theorem bitAt_putBit (maps : Nat → Option Bitmap) (hj : j < bitsPerBlock) (v : Bool) (n : Nat) :
    bitAt (putBit maps i j v) n =
      if n = i * bitsPerBlock + j then v && (maps i).isSome else bitAt maps n := by
  unfold bitAt putBit bitsPerBlock at *
  by_cases hi : n / 8192 = i
  · by_cases hb : n % 8192 = j
    · rw [hi, Function.update_self, if_pos (by omega)]
      cases maps i <;> simp [hb]
    · rw [hi, Function.update_self, if_neg (by omega)]
      cases maps i <;> simp [Function.update_of_ne hb]
  · rw [Function.update_of_ne hi, if_neg (by omega)]

theorem bitAt_of_slot {bh : Bitmap} (hbh : maps i = some bh) (hj : j < bitsPerBlock) :
    bitAt maps (i * bitsPerBlock + j) = bh j := by
  unfold bitAt bitsPerBlock at *
  rw [show (i * 8192 + j) / 8192 = i by omega, show (i * 8192 + j) % 8192 = j by omega, hbh]
  rfl

/-- Every clear bit of the slots searched satisfies `ok`. -/
def MapCovers (maps : Nat → Option Bitmap) (ok : Nat → Prop) : Prop :=
  ∀ i bh j, i < 8 → maps i = some bh → j < bitsPerBlock → bh j = false →
    ok (i * bitsPerBlock + j)

theorem MapCovers.putBit {ok : Nat → Prop} (h : MapCovers maps ok) {v : Bool}
    (hv : v = false → ok (i * bitsPerBlock + j)) : MapCovers (putBit maps i j v) ok := by
  intro i' bh j' hi' hbh hj' hclear
  unfold Minix.putBit at hbh
  by_cases hi : i' = i
  · subst hi
    rw [Function.update_self] at hbh
    cases hm : maps i' with
    | none => simp [hm] at hbh
    | some m =>
        simp only [hm, Option.map_some, Option.some.injEq] at hbh
        subst hbh
        by_cases hjj : j' = j
        · subst hjj
          rw [Function.update_self] at hclear
          exact hv hclear
        · rw [Function.update_of_ne hjj] at hclear
          exact h i' m j' hi' hm hj' hclear
  · rw [Function.update_of_ne hi] at hbh
    exact h i' bh j' hi' hbh hj' hclear

end Maps

section Zones

variable {s : Fs}

/-- The bit number of a zone. -/
def Fs.zoneBit (s : Fs) (block : Nat) : Nat :=
  block - s.sFirstdatazone + 1

/-- The bit of a zone is set. -/
def Fs.zoneTaken (s : Fs) (block : Nat) : Bool :=
  bitAt s.sZmap (s.zoneBit block)

/-- The block numbers of the data area. -/
def Fs.inZones (s : Fs) (block : Nat) : Prop :=
  s.sFirstdatazone ≤ block ∧ block < s.sNzones

/-- `minix_free_block`.  The dropped buffer keeps its bytes: nothing reads them
before `minix_new_block` clears the block. -/
def minixFreeBlock (s : Fs) (block : Nat) : Fs :=
  if block < s.sFirstdatazone ∨ s.sNzones ≤ block then s
  else
    match s.sZmap (s.zoneBit block / bitsPerBlock) with
    | none => s
    | some _ =>
        { s with
          sZmap := putBit s.sZmap (s.zoneBit block / bitsPerBlock)
            (s.zoneBit block % bitsPerBlock) false }

/-- `minix_new_block`, zero when there is no block to be had. -/
def minixNewBlock (s : Fs) : Nat × Fs :=
  match firstFree s.sZmap with
  | none => (0, s)
  | some (i, j) =>
      let s1 := { s with sZmap := putBit s.sZmap i j true }
      let j := wrapSub 16 (j + i * bitsPerBlock + s.sFirstdatazone) 1
      if j < s.sFirstdatazone ∨ s.sNzones ≤ j then (0, s1)
      else (j, s1.putBlock j zeroBlock)

/-- The zone map of a mounted file system: zone zero is no data zone, and the
clear bits are those of data zones. -/
structure ZonesMounted (s : Fs) : Prop where
  first_pos : 0 < s.sFirstdatazone
  nzones_lt : s.sNzones < 65536
  covers : MapCovers s.sZmap fun n =>
    1 ≤ n ∧ s.sFirstdatazone + n - 1 < s.sNzones

theorem zoneBit_inj {w z : Nat} (hw : s.sFirstdatazone ≤ w) (hz : s.sFirstdatazone ≤ z) :
    s.zoneBit w = s.zoneBit z ↔ w = z := by
  unfold Fs.zoneBit
  omega

theorem ZonesMounted.zoneTaken_putBit {z i j w : Nat} {v : Bool} (hj : j < bitsPerBlock)
    (hz : s.sFirstdatazone ≤ z) (hn : s.zoneBit z = i * bitsPerBlock + j)
    (hw : s.sFirstdatazone ≤ w) :
    bitAt (putBit s.sZmap i j v) (s.zoneBit w) =
      if w = z then v && (s.sZmap i).isSome else s.zoneTaken w := by
  rw [bitAt_putBit s.sZmap hj v]
  by_cases hwz : w = z
  · rw [if_pos hwz, if_pos (by rw [hwz, hn])]
  · rw [if_neg hwz, if_neg]
    · rfl
    · intro he
      exact hwz ((zoneBit_inj hw hz).mp (he.trans hn.symm))

/-- What the two results of `minix_new_block` say. -/
inductive NewBlock (s : Fs) : Nat × Fs → Prop
  | full : NewBlock s (0, s)
  | fresh (z : Nat) (maps : Nat → Option Bitmap) :
      s.inZones z →
      s.zoneTaken z = false →
      (∀ w, s.sFirstdatazone ≤ w →
        bitAt maps (s.zoneBit w) = if w = z then true else s.zoneTaken w) →
      ZonesMounted { s with sZmap := maps } →
      NewBlock s (z, { s with sZmap := maps }.putBlock z zeroBlock)

theorem ZonesMounted.newBlock (h : ZonesMounted s) : NewBlock s (minixNewBlock s) := by
  unfold minixNewBlock
  cases hf : firstFree s.sZmap with
  | none => exact NewBlock.full
  | some ij =>
      obtain ⟨i, j⟩ := ij
      obtain ⟨hi, bh, hbh, hj, hclear⟩ := firstFreeFrom_spec hf
      have hcov := h.covers i bh j (by omega) hbh hj hclear
      have hlt := h.nzones_lt
      have hpos := h.first_pos
      have hz : wrapSub 16 (j + i * bitsPerBlock + s.sFirstdatazone) 1 =
          j + i * bitsPerBlock + s.sFirstdatazone - 1 :=
        wrapSub_of_le (by omega) (by omega)
      have hbit : s.zoneBit (j + i * bitsPerBlock + s.sFirstdatazone - 1) =
          i * bitsPerBlock + j := by
        unfold Fs.zoneBit
        omega
      dsimp only
      rw [hz, if_neg (by omega)]
      refine NewBlock.fresh _ _ ⟨by omega, by omega⟩ ?_ ?_ ?_
      · rw [Fs.zoneTaken, hbit, bitAt_of_slot hbh hj, hclear]
      · intro w hw
        rw [zoneTaken_putBit hj (by omega) hbit hw, hbh]
        rfl
      · exact ⟨hpos, hlt, h.covers.putBit (by simp)⟩

theorem ZonesMounted.freeBlock (h : ZonesMounted s) {z : Nat} (hz : s.inZones z) :
    ∃ maps, minixFreeBlock s z = { s with sZmap := maps } ∧
      ZonesMounted { s with sZmap := maps } ∧
      ∀ w, s.sFirstdatazone ≤ w →
        bitAt maps (s.zoneBit w) = if w = z then false else s.zoneTaken w := by
  obtain ⟨hlo, hhi⟩ := hz
  have hdiv : s.zoneBit z =
      s.zoneBit z / bitsPerBlock * bitsPerBlock + s.zoneBit z % bitsPerBlock := by
    unfold bitsPerBlock
    omega
  have hmod : s.zoneBit z % bitsPerBlock < bitsPerBlock := Nat.mod_lt _ (by decide)
  unfold minixFreeBlock
  rw [if_neg (by omega)]
  cases hslot : s.sZmap (s.zoneBit z / bitsPerBlock) with
  | none =>
      refine ⟨s.sZmap, rfl, h, fun w hw => ?_⟩
      by_cases hwz : w = z
      · rw [if_pos hwz, hwz, bitAt, hslot]
        rfl
      · rw [if_neg hwz]
        rfl
  | some bh =>
      refine ⟨_, rfl, ⟨h.first_pos, h.nzones_lt, h.covers.putBit fun _ => ?_⟩, fun w hw => ?_⟩
      · rw [← hdiv]
        unfold Fs.zoneBit
        omega
      · rw [ZonesMounted.zoneTaken_putBit hmod hlo hdiv hw]
        rfl

end Zones

section Inodes

/-- The bit of an inode is set. -/
def Fs.inodeTaken (s : Fs) (ino : Nat) : Bool :=
  bitAt s.sImap ino

/-- The fields of `current` that the file system reads. -/
structure Cred where
  euid : Nat
  egid : Nat
  groups : List Nat
  umask : Nat

/-- `S_ISGID`. -/
def sIsgid : Nat := 0o2000

/-- `minix_free_inode`. -/
def minixFreeInode (s : Fs) (ino : Nat) : Fs :=
  if (s.inode ino).iCount ≠ 1 then s
  else if (s.inode ino).iNlink ≠ 0 then s
  else if ino < 1 then s
  else if s.sNinodes < ino then s
  else
    match s.sImap (ino / bitsPerBlock) with
    | none => s
    | some _ =>
        { s.modInode ino fun _ => blankInode with
          sImap := putBit s.sImap (ino / bitsPerBlock) (ino % bitsPerBlock) false }

/-- The inode `minix_new_inode` returns. -/
def newInodeRecord (cred : Cred) (dir : Inode) : Inode :=
  { blankInode with
    iNlink := 1
    iCount := 1
    iUid := cred.euid
    iGid := if dir.iMode &&& sIsgid ≠ 0 then dir.iGid else wrap 8 cred.egid }

/-- `minix_new_inode`. -/
def minixNewInode (cred : Cred) (s : Fs) (dir : Nat) : Option Nat × Fs :=
  match firstFree s.sImap with
  | none => (none, s)
  | some (i, j) =>
      let s1 := { s with sImap := putBit s.sImap i j true }
      let j := wrap 16 (j + i * bitsPerBlock)
      if j = 0 ∨ s.sNinodes < j then (none, s1)
      else (some j, s1.modInode j fun _ => newInodeRecord cred (s.inode dir))

/-- The inode map of a mounted file system: the clear bits are those of inodes. -/
structure InodesMounted (s : Fs) : Prop where
  ninodes_lt : s.sNinodes < 65536
  covers : MapCovers s.sImap fun n => 1 ≤ n ∧ n ≤ s.sNinodes

/-- What the two results of `minix_new_inode` say. -/
inductive NewInode (cred : Cred) (s : Fs) (dir : Nat) : Option Nat × Fs → Prop
  | full : NewInode cred s dir (none, s)
  | fresh (ino : Nat) (maps : Nat → Option Bitmap) :
      1 ≤ ino → ino ≤ s.sNinodes →
      s.inodeTaken ino = false →
      (∀ i, bitAt maps i = if i = ino then true else s.inodeTaken i) →
      InodesMounted { s with sImap := maps } →
      NewInode cred s dir
        (some ino,
          { s with sImap := maps }.modInode ino fun _ => newInodeRecord cred (s.inode dir))

theorem InodesMounted.newInode {s : Fs} (h : InodesMounted s) (cred : Cred) (dir : Nat) :
    NewInode cred s dir (minixNewInode cred s dir) := by
  unfold minixNewInode
  cases hf : firstFree s.sImap with
  | none => exact NewInode.full
  | some ij =>
      obtain ⟨i, j⟩ := ij
      obtain ⟨hi, bh, hbh, hj, hclear⟩ := firstFreeFrom_spec hf
      have hcov := h.covers i bh j (by omega) hbh hj hclear
      have hlt := h.ninodes_lt
      have hino : wrap 16 (j + i * bitsPerBlock) = i * bitsPerBlock + j := by
        rw [wrap_of_lt (by omega)]
        omega
      dsimp only
      rw [hino, if_neg (by omega)]
      refine NewInode.fresh _ _ hcov.1 hcov.2 ?_ ?_ ?_
      · rw [Fs.inodeTaken, bitAt_of_slot hbh hj, hclear]
      · intro n
        rw [bitAt_putBit s.sImap hj, hbh]
        rfl
      · exact ⟨hlt, h.covers.putBit (by simp)⟩

end Inodes

end Minix
end Elks
