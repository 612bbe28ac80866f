import Elks.Minix.Bitmap
import Elks.Vfs.InodeList

/-!
# Allocating a bit or nothing (fs/minix/bitmap.c)

`Bitmap` has the bit maps; here they come with what the two allocators do
besides: they map the buffers of a map one after the other and unmap them again,
and `minix_new_inode` takes an entry of the inode table first and gives it back
when it fails.

`AllocState` has the counts `b_mapcount` of the buffers of the two maps, sixteen
bits each, and the part of the inode table that `get_empty_inode` and `iput` go
by.  The buffers of a map belong to blocks of different numbers, so a slot of the
map stands for its buffer.

* `minixNewBlock_fs` and `minixNewInode_fs`: on the file system the allocators do
  what those of `Bitmap` do;
* `allocation_atomic_iff`: a call changes one bit for the number it returns, or
  fails and changes nothing, exactly if the lowest clear bit stands for a number
  in range and, should no bit be clear, nothing is unmapped once too often.
-/

namespace Elks
namespace Minix
namespace Alloc

open Lib
open Vfs (InodeRef nrInode)
open Function (update update_of_ne update_self)

/-- A `b_mapcount`. -/
abbrev MapCount := BitVec 16

/-- `map_buffer`, on the count. -/
def mapBuffer (c : MapCount) : MapCount :=
  c + 1

/-- `unmap_buffer`, on the count: a count of zero is reported and stays. -/
def unmapBuffer (c : MapCount) : MapCount :=
  if c = 0 then 0 else c - 1

/-- What the allocation of an inode reads and writes of an entry of the table. -/
structure Entry where
  iCount : Nat
  iNlink : Nat
  iLock : Bool
  iDirt : Bool
deriving DecidableEq

/-- The file system, the counts of the buffers of its two maps, and the inode
table. -/
structure AllocState where
  fs : Fs
  imapCount : Nat → MapCount
  zmapCount : Nat → MapCount
  inodeBlock : InodeRef → Entry
  nrFreeInodes : Int

/-- The loop over the slots of a map.  The buffer with the clear bit is left
mapped. -/
def searchFrom (maps : Nat → Option Bitmap) :
    Nat → Nat → (Nat → MapCount) → Option (Nat × Nat) × (Nat → MapCount)
  | 0, _, counts => (none, counts)
  | n + 1, i, counts =>
      match maps i with
      | none => searchFrom maps n (i + 1) counts
      | some bh =>
          let counts := update counts i (mapBuffer (counts i))
          if findFirstZeroBit bh bitsPerBlock < bitsPerBlock then
            (some (i, findFirstZeroBit bh bitsPerBlock), counts)
          else
            searchFrom maps n (i + 1)
              (update counts i (unmapBuffer (counts i)))

/-- `minix_new_block`, zero when there is no block to be had.  The buffer of the
new block is mapped, cleared and unmapped again. -/
def minixNewBlock (S : AllocState) : Nat × AllocState :=
  match searchFrom S.fs.sZmap 8 0 S.zmapCount with
  | (none, counts) => (0, { S with zmapCount := counts })
  | (some (i, j), counts) =>
      let S₁ :=
        { S with
          fs := { S.fs with sZmap := putBit S.fs.sZmap i j true }
          zmapCount := update counts i (unmapBuffer (counts i)) }
      let j := wrapSub 16 (j + i * bitsPerBlock + S.fs.sFirstdatazone) 1
      if j < S.fs.sFirstdatazone ∨ S.fs.sNzones ≤ j then (0, S₁)
      else (j, { S₁ with fs := S₁.fs.putBlock j zeroBlock })

/-- The entry `get_empty_inode` takes. -/
def AllocState.emptyInode (S : AllocState) : Option InodeRef :=
  (List.finRange nrInode).find? fun e =>
    (S.inodeBlock e).iCount = 0 ∧ (S.inodeBlock e).iLock = false ∧
      (S.inodeBlock e).iDirt = false

/-- `get_empty_inode`.  Without an empty entry it sleeps, and starts again. -/
def getEmptyInode (S : AllocState) : Except Fault (InodeRef × AllocState) :=
  match S.emptyInode with
  | none => .error .sleeps
  | some e =>
      .ok (e,
        { S with
          inodeBlock := update S.inodeBlock e
            { iCount := 1, iNlink := 1, iLock := false, iDirt := false }
          nrFreeInodes :=
            if S.nrFreeInodes - 1 < 0 then 0 else S.nrFreeInodes - 1 })

/-- `iput` of an entry that has a link and is clean: `minix_put_inode` does
nothing then, and nothing is written. -/
def iput (e : InodeRef) (S : AllocState) : AllocState :=
  if (S.inodeBlock e).iCount = 0 then S
  else if 1 < (S.inodeBlock e).iCount then
    { S with
      inodeBlock := update S.inodeBlock e
        { S.inodeBlock e with iCount := (S.inodeBlock e).iCount - 1 } }
  else
    { S with
      inodeBlock := update S.inodeBlock e
        { S.inodeBlock e with iCount := (S.inodeBlock e).iCount - 1 }
      nrFreeInodes := S.nrFreeInodes + 1 }

/-- `unmap_buffer(bh)` behind `iputfail`, after a loop that found no clear bit:
`bh` is what the loop left, the buffer in the last slot of the map. -/
def unmapLast (maps : Nat → Option Bitmap) (counts : Nat → MapCount) :
    Nat → MapCount :=
  match maps 7 with
  | none => counts
  | some _ => update counts 7 (unmapBuffer (counts 7))

/-- `minix_new_inode`. -/
def minixNewInode (cred : Cred) (S : AllocState) (dir : Nat) :
    Except Fault (Option Nat × AllocState) := do
  let (e, S) ← getEmptyInode S
  match searchFrom S.fs.sImap 8 0 S.imapCount with
  | (none, counts) =>
      .ok (none, iput e { S with imapCount := unmapLast S.fs.sImap counts })
  | (some (i, j), counts) =>
      let S₁ :=
        { S with
          fs := { S.fs with sImap := putBit S.fs.sImap i j true }
          imapCount := update counts i (unmapBuffer (counts i)) }
      let j := wrap 16 (j + i * bitsPerBlock)
      if j = 0 ∨ S.fs.sNinodes < j then
        .ok (none, iput e S₁)
      else
        .ok (some j,
          { S₁ with
            fs := S₁.fs.modInode j fun _ => newInodeRecord cred (S.fs.inode dir)
            inodeBlock := update S₁.inodeBlock e
              { S₁.inodeBlock e with iCount := 1, iNlink := 1, iDirt := true } })

section Search

variable {maps : Nat → Option Bitmap} {counts : Nat → MapCount}

theorem searchFrom_fst (maps : Nat → Option Bitmap) (n i : Nat) (counts : Nat → MapCount) :
    (searchFrom maps n i counts).1 = firstFreeFrom maps n i := by
  induction n generalizing i counts with
  | zero => rfl
  | succ n ih =>
      unfold searchFrom firstFreeFrom
      cases maps i with
      | none => exact ih _ _
      | some bh =>
          dsimp only
          split
          · rfl
          · exact ih _ _

theorem searchFrom_counts {n i : Nat} (h : (searchFrom maps n i counts).1 = none) (k : Nat) :
    (searchFrom maps n i counts).2 k =
      if i ≤ k ∧ k < i + n ∧ maps k ≠ none then
        unmapBuffer (mapBuffer (counts k))
      else counts k := by
  induction n generalizing i counts with
  | zero =>
      rw [if_neg (by omega)]
      rfl
  | succ n ih =>
      have hrange : k ≠ i → ((i + 1 ≤ k ∧ k < i + 1 + n ∧ maps k ≠ none) ↔
          (i ≤ k ∧ k < i + (n + 1) ∧ maps k ≠ none)) := by
        intro hk
        constructor
        · rintro ⟨hlo, hhi, hk'⟩
          exact ⟨by omega, by omega, hk'⟩
        · rintro ⟨hlo, hhi, hk'⟩
          exact ⟨by omega, by omega, hk'⟩
      unfold searchFrom at h ⊢
      cases hm : maps i with
      | none =>
          simp only [hm] at h ⊢
          rw [ih h]
          by_cases hk : k = i
          · subst hk
            simp [hm]
          · rw [if_congr (hrange hk) rfl rfl]
      | some bh =>
          simp only [hm] at h ⊢
          split at h
          · cases h
          · rename_i hfull
            rw [if_neg hfull, ih h]
            by_cases hk : k = i
            · subst hk
              simp [hm]
            · simp only [if_congr (hrange hk) rfl rfl, update_of_ne hk]

/-- Bit `n` of the first eight slots is there and clear. -/
def ClearBit (maps : Nat → Option Bitmap) (n : Nat) : Prop :=
  n < 8 * bitsPerBlock ∧
    ∃ bh, maps (n / bitsPerBlock) = some bh ∧ bh (n % bitsPerBlock) = false

/-- Bit `n` is the lowest clear bit. -/
def LowestClear (maps : Nat → Option Bitmap) (n : Nat) : Prop :=
  ClearBit maps n ∧ ∀ m, m < n → ¬ClearBit maps m

theorem zeroBitFrom_below (addr : Bitmap) (n pi b : Nat)
    (hlo : pi ≤ b) (hhi : b < zeroBitFrom addr n pi) : addr b = true := by
  induction n generalizing pi with
  | zero =>
      simp only [zeroBitFrom] at hhi
      omega
  | succ n ih =>
      unfold zeroBitFrom at hhi
      by_cases hset : addr pi = true
      · rw [if_pos hset] at hhi
        rcases Nat.eq_or_lt_of_le hlo with rfl | hlt
        · exact hset
        · exact ih (pi + 1) hlt hhi
      · rw [if_neg hset] at hhi
        omega

theorem findFirstZeroBit_below (addr : Bitmap) (len : Nat) {b : Nat}
    (hb : b < findFirstZeroBit addr len) :
    addr b = true :=
  zeroBitFrom_below addr len 0 b (Nat.zero_le b) hb

theorem firstFreeFrom_below {n i i' j : Nat} (h : firstFreeFrom maps n i = some (i', j)) :
    ∀ k bh b, i ≤ k → maps k = some bh → b < bitsPerBlock →
      k * bitsPerBlock + b < i' * bitsPerBlock + j → bh b = true := by
  induction n generalizing i with
  | zero => simp [firstFreeFrom] at h
  | succ n ih =>
      intro k bh b hk hbh hb hlt
      unfold firstFreeFrom at h
      cases hm : maps i with
      | none =>
          simp only [hm] at h
          have hki : k ≠ i := by
            rintro rfl
            rw [hm] at hbh
            cases hbh
          exact ih h k bh b (by omega) hbh hb hlt
      | some bh' =>
          simp only [hm] at h
          split at h
          · rename_i hfound
            simp only [Option.some.injEq, Prod.mk.injEq] at h
            obtain ⟨rfl, rfl⟩ := h
            unfold bitsPerBlock at *
            have hki : k = i := by omega
            subst hki
            rw [hm] at hbh
            cases hbh
            exact findFirstZeroBit_below bh 8192 (by omega)
          · rename_i hfound
            by_cases hki : k = i
            · subst hki
              rw [hm] at hbh
              cases hbh
              exact findFirstZeroBit_below bh bitsPerBlock (by omega)
            · exact ih h k bh b (by omega) hbh hb hlt

theorem firstFreeFrom_full {n i : Nat} (h : firstFreeFrom maps n i = none) :
    ∀ k bh b, i ≤ k → k < i + n → maps k = some bh → b < bitsPerBlock →
      bh b = true := by
  induction n generalizing i with
  | zero =>
      intro k bh b hlo hhi
      omega
  | succ n ih =>
      intro k bh b hlo hhi hbh hb
      unfold firstFreeFrom at h
      cases hm : maps i with
      | none =>
          simp only [hm] at h
          have hki : k ≠ i := by
            rintro rfl
            rw [hm] at hbh
            cases hbh
          exact ih h k bh b (by omega) (by omega) hbh hb
      | some bh' =>
          simp only [hm] at h
          split at h
          · cases h
          · rename_i hfull
            by_cases hki : k = i
            · subst hki
              rw [hm] at hbh
              cases hbh
              exact findFirstZeroBit_below bh bitsPerBlock (by omega)
            · exact ih h k bh b (by omega) (by omega) hbh hb

theorem firstFree_lowest {i j : Nat} (h : firstFree maps = some (i, j)) :
    LowestClear maps (i * bitsPerBlock + j) := by
  obtain ⟨hi, bh, hbh, hj, hclear⟩ := firstFreeFrom_spec h
  have hbelow := firstFreeFrom_below h
  unfold bitsPerBlock at *
  have hdiv : (i * 8192 + j) / 8192 = i := by omega
  have hmod : (i * 8192 + j) % 8192 = j := by omega
  refine ⟨⟨by unfold bitsPerBlock; omega, bh, ?_, ?_⟩, ?_⟩
  · rw [bitsPerBlock, hdiv]
    exact hbh
  · rw [bitsPerBlock, hmod]
    exact hclear
  · rintro m hm ⟨_, bh', hbh', hclear'⟩
    unfold bitsPerBlock at hbh' hclear'
    have := hbelow (m / 8192) bh' (m % 8192) (Nat.zero_le _) hbh' (by omega)
      (by omega)
    rw [this] at hclear'
    cases hclear'

theorem firstFree_full (h : firstFree maps = none) (n : Nat) : ¬ClearBit maps n := by
  rintro ⟨hn, bh, hbh, hclear⟩
  have hset := firstFreeFrom_full h (n / bitsPerBlock) bh (n % bitsPerBlock)
    (Nat.zero_le _) (by unfold bitsPerBlock at *; omega) hbh
    (Nat.mod_lt _ (by decide))
  rw [hset] at hclear
  cases hclear

theorem LowestClear.unique {n m : Nat} (hn : LowestClear maps n) (hm : LowestClear maps m) :
    n = m := by
  rcases Nat.lt_trichotomy n m with hlt | heq | hgt
  · exact absurd hn.1 (hm.2 n hlt)
  · exact heq
  · exact absurd hm.1 (hn.2 m hgt)

end Search

section Atomic

variable {S : AllocState}

/-- No bit, no count of a buffer and no count of the inode table is different. -/
structure Unchanged (S S' : AllocState) : Prop where
  fs : S'.fs = S.fs
  imapCount : S'.imapCount = S.imapCount
  zmapCount : S'.zmapCount = S.zmapCount
  iCount : ∀ e, (S'.inodeBlock e).iCount = (S.inodeBlock e).iCount
  nrFreeInodes : S'.nrFreeInodes = S.nrFreeInodes

/-- `minix_new_block` has set the clear bit of the zone it returns and no other
bit, or has failed without a trace. -/
def BlockAtomic (S : AllocState) (r : Nat × AllocState) : Prop :=
  (r.1 ≠ 0 ∧ S.fs.inZones r.1 ∧ S.fs.zoneTaken r.1 = false ∧
    r.2.fs.sImap = S.fs.sImap ∧
    ∀ n, bitAt r.2.fs.sZmap n =
      if n = S.fs.zoneBit r.1 then true else bitAt S.fs.sZmap n) ∨
  (r.1 = 0 ∧ Unchanged S r.2)

/-- `minix_new_inode` has set the clear bit of the inode it returns and no other
bit, has failed without a trace, or sleeps because the inode table is full. -/
def InodeAtomic (S : AllocState) : Except Fault (Option Nat × AllocState) → Prop
  | .ok (some ino, S') =>
      1 ≤ ino ∧ ino ≤ S.fs.sNinodes ∧ S.fs.inodeTaken ino = false ∧
        S'.fs.sZmap = S.fs.sZmap ∧
        ∀ n, bitAt S'.fs.sImap n =
          if n = ino then true else bitAt S.fs.sImap n
  | .ok (none, S') => Unchanged S S'
  | .error f => f = .sleeps

/-- No buffer of a map has the largest count. -/
def NoneBrimful (maps : Nat → Option Bitmap) (counts : Nat → MapCount) : Prop :=
  ∀ i, i < 8 → maps i ≠ none → counts i ≠ 65535

/-- The lowest clear bit of the zone map is that of a data zone; if there is
none, no count wraps. -/
def BlockSafe (S : AllocState) : Prop :=
  (∀ n, LowestClear S.fs.sZmap n → 1 ≤ n ∧ 1 < n + S.fs.sFirstdatazone ∧
      n + S.fs.sFirstdatazone - 1 < S.fs.sNzones) ∧
    ((∀ n, ¬ClearBit S.fs.sZmap n) → NoneBrimful S.fs.sZmap S.zmapCount)

/-- The inode table is full; or the lowest clear bit of the inode map is that of
an inode and, if there is none, nobody has the buffer in the last slot mapped,
no count wraps and the count of free inodes is not zero already. -/
def InodeSafe (S : AllocState) : Prop :=
  S.emptyInode = none ∨
    (∀ n, LowestClear S.fs.sImap n → 1 ≤ n ∧ n ≤ S.fs.sNinodes) ∧
      ((∀ n, ¬ClearBit S.fs.sImap n) →
        (S.fs.sImap 7 ≠ none → S.imapCount 7 = 0) ∧
          NoneBrimful S.fs.sImap S.imapCount ∧ 1 ≤ S.nrFreeInodes)

theorem unmap_map_eq_iff (c : MapCount) : unmapBuffer (mapBuffer c) = c ↔ c ≠ 65535 := by
  unfold unmapBuffer mapBuffer
  split <;> bv_omega

theorem searchFrom_counts_eq_iff {maps : Nat → Option Bitmap} {counts : Nat → MapCount}
    (h : (searchFrom maps 8 0 counts).1 = none) :
    (searchFrom maps 8 0 counts).2 = counts ↔ NoneBrimful maps counts := by
  constructor
  · intro heq i hi hm
    have hk := searchFrom_counts h i
    rw [heq, if_pos ⟨Nat.zero_le i, by omega, hm⟩] at hk
    exact (unmap_map_eq_iff _).mp hk.symm
  · intro hall
    funext k
    rw [searchFrom_counts h k]
    split
    · rename_i hk
      exact (unmap_map_eq_iff _).mpr (hall k (by omega) hk.2.2)
    · rfl

theorem putBit_ne {maps : Nat → Option Bitmap} {i j : Nat} {bh : Bitmap}
    (hbh : maps i = some bh) (hj : j < bitsPerBlock) (hclear : bh j = false) :
    putBit maps i j true ≠ maps := by
  intro heq
  have hset := bitAt_putBit maps (i := i) hj true (i * bitsPerBlock + j)
  rw [heq, if_pos rfl, hbh, bitAt_of_slot hbh hj, hclear] at hset
  cases hset

theorem zone_of_bit {n first nzones : Nat}
    (hn : n < 2 ^ 16) (hfirst : first < 2 ^ 16) (hnzones : nzones < 2 ^ 16) :
    (wrapSub 16 (n + first) 1 < first ∨ nzones ≤ wrapSub 16 (n + first) 1) ∨
      wrapSub 16 (n + first) 1 = n + first - 1 ∧ 1 ≤ n ∧
        n + first - 1 < nzones := by
  unfold wrapSub wrap
  omega

theorem zone_of_bit_in_range {n first nzones : Nat} (hnzones : nzones < 2 ^ 16)
    (hlo : 1 ≤ n) (hhi : n + first - 1 < nzones) :
    ¬(wrapSub 16 (n + first) 1 < first ∨ nzones ≤ wrapSub 16 (n + first) 1) ∧
      wrapSub 16 (n + first) 1 = n + first - 1 := by
  rw [wrapSub_of_le (by omega) (by omega)]
  omega

theorem newBlock_atomic_iff (hfirst : S.fs.sFirstdatazone < 2 ^ 16)
    (hnzones : S.fs.sNzones < 2 ^ 16) : BlockAtomic S (minixNewBlock S) ↔ BlockSafe S := by
  have hfst := searchFrom_fst S.fs.sZmap 8 0 S.zmapCount
  have hcounts := @searchFrom_counts_eq_iff S.fs.sZmap S.zmapCount
  unfold minixNewBlock
  cases hs : searchFrom S.fs.sZmap 8 0 S.zmapCount with
  | mk found counts =>
      rw [hs] at hfst hcounts
      cases found with
      | none =>
          have hfull := @firstFree_full S.fs.sZmap hfst.symm
          have hbrim := hcounts rfl
          constructor
          · rintro (⟨hne, _⟩ | ⟨_, hun⟩)
            · exact absurd rfl hne
            · refine ⟨fun n hn => absurd hn.1 (hfull n), fun _ => ?_⟩
              exact hbrim.mp hun.zmapCount
          · rintro ⟨_, hnone⟩
            refine Or.inr ⟨rfl, rfl, rfl, ?_, fun _ => rfl, rfl⟩
            exact hbrim.mpr (hnone hfull)
      | some ij =>
          obtain ⟨i, j⟩ := ij
          have hlow := @firstFree_lowest S.fs.sZmap i j hfst.symm
          obtain ⟨hi, bh, hbh, hj, hclear⟩ := firstFreeFrom_spec hfst.symm
          have hsafe : BlockSafe S ↔
              1 ≤ i * bitsPerBlock + j ∧
                1 < i * bitsPerBlock + j + S.fs.sFirstdatazone ∧
                i * bitsPerBlock + j + S.fs.sFirstdatazone - 1 < S.fs.sNzones := by
            constructor
            · intro h
              exact h.1 _ hlow
            · intro h
              refine ⟨fun n hn => ?_, fun hnone => absurd hlow.1 (hnone _)⟩
              rw [hn.unique hlow]
              exact h
          have hchanged := putBit_ne hbh hj hclear
          have hbits : i * bitsPerBlock + j < 2 ^ 16 := by
            unfold bitsPerBlock at *
            omega
          rw [hsafe]
          simp only [Nat.add_comm j (i * bitsPerBlock)]
          rcases zone_of_bit hbits hfirst hnzones with hout | ⟨hz, hlo, hhi⟩
          · rw [if_pos hout]
            constructor
            · rintro (⟨hne, _⟩ | ⟨_, hun⟩)
              · exact absurd rfl hne
              · exact absurd (congrArg Fs.sZmap hun.fs) hchanged
            · rintro ⟨hlo, _, hhi⟩
              exact absurd hout (zone_of_bit_in_range hnzones hlo hhi).1
          · rw [if_neg (zone_of_bit_in_range hnzones hlo hhi).1, hz]
            constructor
            · rintro (⟨hne, _⟩ | ⟨_, hun⟩)
              · have hne' : i * bitsPerBlock + j + S.fs.sFirstdatazone - 1 ≠ 0 := hne
                exact ⟨hlo, by omega, hhi⟩
              · exact absurd (congrArg Fs.sZmap hun.fs) hchanged
            · rintro ⟨_, hpos, _⟩
              have hbit : S.fs.zoneBit
                  (i * bitsPerBlock + j + S.fs.sFirstdatazone - 1) =
                    i * bitsPerBlock + j := by
                unfold Fs.zoneBit
                omega
              have hne : i * bitsPerBlock + j + S.fs.sFirstdatazone - 1 ≠ 0 := by
                omega
              have hge : S.fs.sFirstdatazone ≤
                  i * bitsPerBlock + j + S.fs.sFirstdatazone - 1 := by
                omega
              refine Or.inl ⟨hne, ⟨hge, hhi⟩, ?_, rfl, ?_⟩
              · rw [Fs.zoneTaken, hbit, bitAt_of_slot hbh hj, hclear]
              · intro n
                rw [hbit]
                exact (bitAt_putBit S.fs.sZmap hj true n).trans (by rw [hbh]; rfl)

theorem unmap_unmap_map_eq_iff (c : MapCount) :
    unmapBuffer (unmapBuffer (mapBuffer c)) = c ↔ c = 0 := by
  by_cases hc : c = 65535
  · rw [hc]
    decide
  · rw [(unmap_map_eq_iff c).mpr hc]
    unfold unmapBuffer
    split <;> bv_omega

theorem unmapLast_eq_iff {maps : Nat → Option Bitmap} {counts : Nat → MapCount}
    (h : (searchFrom maps 8 0 counts).1 = none) :
    unmapLast maps (searchFrom maps 8 0 counts).2 = counts ↔
      (maps 7 ≠ none → counts 7 = 0) ∧ NoneBrimful maps counts := by
  have hcounts := searchFrom_counts h
  unfold unmapLast
  cases hlast : maps 7 with
  | none =>
      rw [searchFrom_counts_eq_iff h]
      simp
  | some bh =>
      have hseven := hcounts 7
      rw [if_pos ⟨Nat.zero_le 7, by decide, by simp [hlast]⟩] at hseven
      dsimp only
      constructor
      · intro heq
        have hzero : counts 7 = 0 := by
          have h7 := congrFun heq 7
          rw [update_self, hseven] at h7
          exact (unmap_unmap_map_eq_iff _).mp h7
        refine ⟨fun _ => hzero, ?_⟩
        intro i hi hm
        by_cases h7 : i = 7
        · rw [h7, hzero]
          decide
        · have hk := congrFun heq i
          rw [update_of_ne h7, hcounts i,
            if_pos ⟨Nat.zero_le i, by omega, hm⟩] at hk
          exact (unmap_map_eq_iff _).mp hk
      · rintro ⟨hzero, hall⟩
        have hzero' := hzero (by simp)
        funext k
        by_cases h7 : k = 7
        · rw [h7, update_self, hseven]
          exact (unmap_unmap_map_eq_iff _).mpr hzero'
        · rw [update_of_ne h7]
          exact congrFun ((searchFrom_counts_eq_iff h).mpr hall) k

theorem iput_fs (e : InodeRef) (T : AllocState) : (iput e T).fs = T.fs := by
  unfold iput
  split
  · rfl
  · split <;> rfl

theorem iput_taken {T : AllocState} {e : InodeRef}
    (he : T.inodeBlock e =
      { iCount := 1, iNlink := 1, iLock := false, iDirt := false }) :
    iput e T =
      { T with
        inodeBlock := update T.inodeBlock e
          { iCount := 0, iNlink := 1, iLock := false, iDirt := false }
        nrFreeInodes := T.nrFreeInodes + 1 } := by
  simp [iput, he]

/-- The state in which `minix_new_inode` searches the map. -/
def AllocState.taken (S : AllocState) (e : InodeRef) : AllocState :=
  { S with
    inodeBlock := update S.inodeBlock e
      { iCount := 1, iNlink := 1, iLock := false, iDirt := false }
    nrFreeInodes := if S.nrFreeInodes - 1 < 0 then 0 else S.nrFreeInodes - 1 }

theorem unchanged_iput_iff {e : InodeRef} (he : S.emptyInode = some e) (counts : Nat → MapCount) :
    Unchanged S (iput e { S.taken e with imapCount := counts }) ↔
      counts = S.imapCount ∧ 1 ≤ S.nrFreeInodes := by
  have hempty : (S.inodeBlock e).iCount = 0 := by
    have := List.find?_some he
    simp only [decide_eq_true_eq] at this
    exact this.1
  rw [iput_taken (by simp [AllocState.taken])]
  constructor
  · intro hun
    refine ⟨hun.imapCount, ?_⟩
    have hfree := hun.nrFreeInodes
    simp only [AllocState.taken] at hfree
    split at hfree <;> omega
  · rintro ⟨hcounts, hfree⟩
    refine ⟨rfl, hcounts, rfl, ?_, ?_⟩
    · intro e'
      by_cases hee : e' = e
      · simp [hee, hempty]
      · simp [AllocState.taken, hee]
    · simp only [AllocState.taken]
      split <;> omega

theorem newInode_atomic_iff (cred : Cred) (dir : Nat) :
    InodeAtomic S (minixNewInode cred S dir) ↔ InodeSafe S := by
  cases he : S.emptyInode with
  | none =>
      simp only [minixNewInode, getEmptyInode, he, bind, Except.bind]
      exact iff_of_true rfl (Or.inl he)
  | some e =>
      have hfst := searchFrom_fst S.fs.sImap 8 0 S.imapCount
      have hfail := @unmapLast_eq_iff S.fs.sImap S.imapCount
      have hcase : InodeSafe S ↔
          (∀ n, LowestClear S.fs.sImap n → 1 ≤ n ∧ n ≤ S.fs.sNinodes) ∧
            ((∀ n, ¬ClearBit S.fs.sImap n) →
              (S.fs.sImap 7 ≠ none → S.imapCount 7 = 0) ∧
                NoneBrimful S.fs.sImap S.imapCount ∧ 1 ≤ S.nrFreeInodes) := by
        simp [InodeSafe, he]
      rw [hcase]
      simp only [minixNewInode, getEmptyInode, he, bind, Except.bind]
      cases hs : searchFrom S.fs.sImap 8 0 S.imapCount with
      | mk found counts =>
          rw [hs] at hfst hfail
          cases found with
          | none =>
              have hfull := @firstFree_full S.fs.sImap hfst.symm
              have hun := unchanged_iput_iff he (unmapLast S.fs.sImap counts)
              have hrest := hfail rfl
              constructor
              · intro hdone
                obtain ⟨hcounts, hfree⟩ := hun.mp hdone
                obtain ⟨hlast, hbrim⟩ := hrest.mp hcounts
                exact ⟨fun n hn => absurd hn.1 (hfull n),
                  fun _ => ⟨hlast, hbrim, hfree⟩⟩
              · rintro ⟨_, hnone⟩
                obtain ⟨hlast, hbrim, hfree⟩ := hnone hfull
                exact hun.mpr ⟨hrest.mpr ⟨hlast, hbrim⟩, hfree⟩
          | some ij =>
              obtain ⟨i, j⟩ := ij
              have hlow := @firstFree_lowest S.fs.sImap i j hfst.symm
              obtain ⟨hi, bh, hbh, hj, hclear⟩ := firstFreeFrom_spec hfst.symm
              have hsafe :
                  ((∀ n, LowestClear S.fs.sImap n → 1 ≤ n ∧ n ≤ S.fs.sNinodes) ∧
                    ((∀ n, ¬ClearBit S.fs.sImap n) →
                      (S.fs.sImap 7 ≠ none → S.imapCount 7 = 0) ∧
                        NoneBrimful S.fs.sImap S.imapCount ∧
                        1 ≤ S.nrFreeInodes)) ↔
                    1 ≤ i * bitsPerBlock + j ∧
                      i * bitsPerBlock + j ≤ S.fs.sNinodes := by
                constructor
                · intro h
                  exact h.1 _ hlow
                · intro h
                  refine ⟨fun n hn => ?_, fun hnone => absurd hlow.1 (hnone _)⟩
                  rw [hn.unique hlow]
                  exact h
              have hino : wrap 16 (j + i * bitsPerBlock) = i * bitsPerBlock + j := by
                unfold bitsPerBlock at *
                rw [wrap_of_lt (by omega)]
                omega
              rw [hsafe]
              dsimp only
              rw [hino]
              by_cases hout : i * bitsPerBlock + j = 0 ∨
                  S.fs.sNinodes < i * bitsPerBlock + j
              · rw [if_pos hout]
                refine iff_of_false ?_ (by omega)
                intro hun
                have hchanged := putBit_ne hbh hj hclear
                have hfs := congrArg Fs.sImap hun.fs
                rw [iput_fs] at hfs
                exact hchanged hfs
              · rw [if_neg hout]
                refine iff_of_true ⟨by omega, by omega, ?_, rfl, ?_⟩ (by omega)
                · rw [Fs.inodeTaken, bitAt_of_slot hbh hj, hclear]
                · intro n
                  exact (bitAt_putBit S.fs.sImap hj true n).trans (by rw [hbh]; rfl)

theorem minixNewBlock_fs (S : AllocState) :
    ((minixNewBlock S).1, (minixNewBlock S).2.fs) = Minix.minixNewBlock S.fs := by
  have hfst := searchFrom_fst S.fs.sZmap 8 0 S.zmapCount
  unfold minixNewBlock Minix.minixNewBlock firstFree
  rw [← hfst]
  cases searchFrom S.fs.sZmap 8 0 S.zmapCount with
  | mk found counts =>
      cases found with
      | none => rfl
      | some ij =>
          dsimp only
          split <;> rfl

theorem minixNewInode_fs {cred : Cred} {dir : Nat} {r : Option Nat} {S' : AllocState}
    (h : minixNewInode cred S dir = .ok (r, S')) :
    (r, S'.fs) = Minix.minixNewInode cred S.fs dir := by
  cases he : S.emptyInode with
  | none => simp [minixNewInode, getEmptyInode, he, bind, Except.bind] at h
  | some e =>
      have hfst := searchFrom_fst S.fs.sImap 8 0 S.imapCount
      simp only [minixNewInode, getEmptyInode, he, bind, Except.bind] at h
      unfold Minix.minixNewInode firstFree
      rw [← hfst]
      cases hs : searchFrom S.fs.sImap 8 0 S.imapCount with
      | mk found counts =>
          rw [hs] at h
          cases found with
          | none =>
              cases h
              rw [iput_fs]
          | some ij =>
              dsimp only at h ⊢
              split at h
              · rename_i hout
                cases h
                rw [iput_fs, if_pos hout]
              · rename_i hin
                cases h
                rw [if_neg hin]

/-- A call of either allocator sets the clear bit of the number it returns and
no other, or fails and leaves every bit and every count alone, exactly if its
state is safe. -/
theorem allocation_atomic_iff
    (S : AllocState) (cred : Cred) (dir : Nat)
    (hfirst : S.fs.sFirstdatazone < 2 ^ 16)
    (hnzones : S.fs.sNzones < 2 ^ 16) :
    (BlockAtomic S (minixNewBlock S) ↔ BlockSafe S) ∧
      (InodeAtomic S (minixNewInode cred S dir) ↔ InodeSafe S) :=
  ⟨newBlock_atomic_iff hfirst hnzones, newInode_atomic_iff cred dir⟩

end Atomic

section Small

/-- A map of one slot whose first `k` bits are set. -/
def oneSlot (k : Nat) : Nat → Option Bitmap :=
  fun i => if i = 0 then some fun n => decide (n < k) else none

theorem lowestClear_oneSlot {k : Nat} (hk : k < bitsPerBlock) : LowestClear (oneSlot k) k := by
  unfold LowestClear ClearBit oneSlot
  unfold bitsPerBlock at *
  refine ⟨⟨by omega, _, if_pos (by omega), ?_⟩, ?_⟩
  · simp only [decide_eq_false_iff_not]
    omega
  · rintro m hm ⟨_, bh, hbh, hclear⟩
    rw [if_pos (by omega)] at hbh
    cases hbh
    simp only [decide_eq_false_iff_not] at hclear
    omega

/-- Two data zones from zone 10 on and two inodes; the first `k` bits of either
map are set, and the inode map has more slots if `full`. -/
def smallState (k : Nat) (full : Bool) : AllocState where
  fs :=
    { sNinodes := 2
      sNzones := 12
      sFirstdatazone := 10
      sFlags := 0
      sImap := if full then fun _ => some fun _ => true else oneSlot k
      sZmap := oneSlot k
      inode := fun _ => blankInode
      block := fun _ => zeroBlock }
  imapCount := fun i => if i = 7 then 1 else 0
  zmapCount := fun _ => 0
  inodeBlock := fun _ => { iCount := 0, iNlink := 0, iLock := false, iDirt := false }
  nrFreeInodes := 96

theorem allocation_atomic_small :
    BlockAtomic (smallState 2 false) (minixNewBlock (smallState 2 false)) ∧
      InodeAtomic (smallState 2 false)
        (minixNewInode ⟨0, 0, [], 0⟩ (smallState 2 false) 1) := by
  have hlow : LowestClear (oneSlot 2) 2 := lowestClear_oneSlot (by decide)
  have h := allocation_atomic_iff (smallState 2 false) ⟨0, 0, [], 0⟩ 1
    (by decide) (by decide)
  refine ⟨h.1.mpr ⟨?_, ?_⟩, h.2.mpr (Or.inr ⟨?_, ?_⟩)⟩
  · intro n hn
    rw [hn.unique hlow]
    decide
  · intro hnone
    exact absurd hlow.1 (hnone 2)
  · intro n hn
    rw [hn.unique hlow]
    decide
  · intro hnone
    exact absurd hlow.1 (hnone 2)

/-- With bit 3 clear, that of zone 12 and of inode 3, both allocators set it and
report failure; with an inode map of eight full blocks `minix_new_inode` unmaps
the last one twice. -/
theorem allocation_leaves_bit :
    ((minixNewBlock (smallState 3 false)).1 = 0 ∧
      ¬BlockAtomic (smallState 3 false) (minixNewBlock (smallState 3 false))) ∧
    ¬InodeAtomic (smallState 3 false)
        (minixNewInode ⟨0, 0, [], 0⟩ (smallState 3 false) 1) ∧
      ¬InodeAtomic (smallState 0 true)
        (minixNewInode ⟨0, 0, [], 0⟩ (smallState 0 true) 1) := by
  have hlow : LowestClear (oneSlot 3) 3 := lowestClear_oneSlot (by decide)
  have hempty : ∀ k b, (smallState k b).emptyInode ≠ none := by
    intro k b hnone
    have := List.find?_eq_none.mp hnone ⟨0, by decide⟩ (List.mem_finRange _)
    simp [smallState] at this
  refine ⟨⟨?_, ?_⟩, ?_, ?_⟩
  · decide +kernel
  · rw [newBlock_atomic_iff (by decide) (by decide)]
    intro h
    have := (h.1 3 hlow).2.2
    revert this
    decide
  · rw [newInode_atomic_iff]
    rintro (hnone | ⟨hlow', _⟩)
    · exact hempty _ _ hnone
    · have := (hlow' 3 hlow).2
      revert this
      decide
  · rw [newInode_atomic_iff]
    rintro (hnone | ⟨_, hfull⟩)
    · exact hempty _ _ hnone
    · have hset : ∀ n, ¬ClearBit (smallState 0 true).fs.sImap n := by
        rintro n ⟨_, bh, hbh, hclear⟩
        cases hbh
        cases hclear
      have := (hfull hset).1 (by simp [smallState])
      revert this
      decide

end Small

end Alloc
end Minix
end Elks
