import Elks.Lib.Loop
import Elks.Minix.TruncExact

/-!
# Giving the blocks of a file back (fs/elksfs/truncate.c)

`elksfs_truncate` is a copy of `minix_truncate` with other types, on the same file system.
Two of the changes matter.

* `V1_trunc_direct` takes the number in `i_zone[i]` for the address of the field: it reads and
  clears the word that lies there in the data segment of the kernel, and frees the block with
  the number that it read.
* `offset` is a `loff_t`, so that the first index of the two other loops is an `unsigned long`.
  Where it ought to be negative no index is large enough, and they start again for ever.

`Kernel` is the file system and the data segment.  The data segment also holds the objects
that are modelled as themselves, the inode and the buffers among them: where these are, and
what a store among them does, is a parameter, `Segment`.  The null pointer is the address of
none.

The operands of `|` are taken from left to right.  A loop that has not ended after `fuel`
rounds has no result.

**Result.**  `elksfs_truncate_agrees`: the two routines do the same to an empty file exactly
when the inode names no blocks and the word at the null pointer names none that is in use.
-/

namespace Elks
namespace Elksfs

open Lib Minix

/-- The file system, and the bytes of the data segment. -/
structure Kernel where
  fs : Fs
  mem : Nat → UInt8

section Memory

/-- The address of the second byte of a word. -/
def second (p : Nat) : Nat :=
  wrap 16 (p + 1)

/-- A word of the data segment. -/
def Kernel.word (k : Kernel) (p : Nat) : Nat :=
  (k.mem p).toNat + 256 * (k.mem (second p)).toNat

/-- `*p = 0`. -/
def Kernel.clear (k : Kernel) (p : Nat) : Kernel :=
  { k with mem := Function.update (Function.update k.mem p 0) (second p) 0 }

/-- The objects of the data segment that are not modelled as bytes: their addresses, what a
word there reads as, and what clearing it does to them. -/
structure Segment where
  object : Nat → Bool
  look : Nat → Kernel → Nat
  hit : Nat → Kernel → Kernel
  null : object 0 = false ∧ object 1 = false

/-- A word that belongs to no object. -/
def Segment.plain (g : Segment) (p : Nat) : Prop :=
  g.object p = false ∧ g.object (second p) = false

instance (g : Segment) (p : Nat) : Decidable (g.plain p) :=
  inferInstanceAs (Decidable (_ ∧ _))

/-- `*p`, wherever it points. -/
def Segment.load (g : Segment) (k : Kernel) (p : Nat) : Nat :=
  if g.plain p then k.word p else g.look p k

/-- `*p = 0`, wherever it points. -/
def Segment.clear (g : Segment) (k : Kernel) (p : Nat) : Kernel :=
  if g.plain p then k.clear p else g.hit p k

end Memory

section Code

/-- `elksfs_free_block`, the steps of which are those of `minix_free_block`. -/
def elksfsFreeBlock (s : Fs) (block : Nat) : Fs :=
  minixFreeBlock s block

/-- `INDIRECT_BLOCK(offset)`, an `unsigned long`. -/
def indirectBlock (s : Fs) (ino : Nat) (offset : Int) : Nat :=
  ((directBlock s ino - offset) % 4294967296).toNat

/-- `DINDIRECT_BLOCK(offset)`. -/
def dindirectBlock (s : Fs) (ino : Nat) (offset : Int) : Nat :=
  indirectBlock s ino offset / 512

variable (g : Segment) (held : Nat → Bool) (ino : Nat)

/-- A round of the loop of `V1_trunc_direct`. -/
def directStep (a : Nat × Bool × Kernel) : Nat × Bool × Kernel ⊕ Bool × Kernel :=
  let (i, retry, k) := a
  if h : i < 7 then
    let p := (k.fs.inode ino).iZone (directZone ⟨i, h⟩)
    let tmp := g.load k p
    if tmp = 0 then .inl (i + 1, retry, k)
    else if i < directBlock k.fs ino then .inl (wrap 16 (directBlock k.fs ino), retry, k)
    else if held tmp then .inl (i + 1, true, k)
    else
      let k := g.clear k p
      .inl (i + 1, retry, { k with fs := elksfsFreeBlock k.fs tmp })
  else
    .inr (retry, k)

/-- `V1_trunc_direct`. -/
def v1TruncDirect (fuel : Nat) (k : Kernel) : Option (Bool × Kernel) :=
  loop (directStep g held ino) fuel (wrap 16 (directBlock k.fs ino), false, k)

/-- A round of the first loop of `V1_trunc_indirect` over the table in block `table`. -/
def indirectStep (offset : Int) (table : Nat) (a : Int × Bool × Fs) :
    Int × Bool × Fs ⊕ Bool × Fs :=
  let (i, retry, s) := a
  if h : i < 512 then
    if i.toNat < indirectBlock s ino offset then
      .inl (int16 (indirectBlock s ino offset), retry, s)
    else
      let r := truncCell held (.word table ⟨i.toNat, by omega⟩) (retry, s)
      .inl (max i 0 + 1, r.1, r.2)
  else
    .inr (retry, s)

/-- `V1_trunc_indirect`. -/
def v1TruncIndirect (fuel : Nat) (s : Fs) (offset : Int) (p : Cell) : Option (Bool × Fs) :=
  let tmp := s.fetch p
  if tmp = 0 then some (false, s)
  else
    (loop (indirectStep held ino offset tmp) fuel
      (int16 (indirectBlock s ino offset), false, s)).map (truncTable held p tmp)

/-- A round of the first loop of `V1_trunc_dindirect`. -/
def dindirectStep (fuel : Nat) (offset : Int) (table : Nat) (a : Int × Bool × Fs) :
    Int × Bool × Fs ⊕ Option (Bool × Fs) :=
  let (i, retry, s) := a
  if h : i < 512 then
    if i.toNat < dindirectBlock s ino offset then
      .inl (int16 (dindirectBlock s ino offset), retry, s)
    else
      match v1TruncIndirect held ino fuel s (offset + int16 (max i 0 * 512))
          (.word table ⟨i.toNat, by omega⟩) with
      | some r => .inl (max i 0 + 1, retry || r.1, r.2)
      | none => .inr none
  else
    .inr (some (retry, s))

/-- `V1_trunc_dindirect`. -/
def v1TruncDindirect (fuel : Nat) (s : Fs) (offset : Int) (p : Cell) : Option (Bool × Fs) :=
  let tmp := s.fetch p
  if tmp = 0 then some (false, s)
  else
    (loop (dindirectStep held ino fuel offset tmp) fuel
      (int16 (dindirectBlock s ino offset), false, s)).join.map (truncTable held p tmp)

/-- One turn of the loop of `elksfs_truncate`. -/
def truncRound (fuel : Nat) (k : Kernel) : Option (Bool × Kernel) := do
  let (retry₁, k) ← v1TruncDirect g held ino fuel k
  let (retry₂, s) ← v1TruncIndirect held ino fuel k.fs 7 (.zone ino indZone)
  let (retry₃, s) ← v1TruncDindirect held ino fuel s (7 + 512) (.zone ino dindZone)
  return (retry₁ || retry₂ || retry₃, { k with fs := s })

/-- The loop of `elksfs_truncate`. -/
def truncRounds (fuel : Nat) : Nat → Kernel → Option Kernel
  | 0, _ => none
  | n + 1, k => do
      let (retry, k) ← truncRound g held ino fuel k
      if retry then truncRounds fuel n k else return k

/-- The modes of the files that are truncated. -/
def truncates (mode : Nat) : Bool :=
  hasFormat sIfreg mode || hasFormat sIfdir mode || hasFormat sIflnk mode

/-- `elksfs_truncate`. -/
def elksfsTruncate (fuel : Nat) (k : Kernel) : Option Kernel :=
  if truncates (k.fs.inode ino).iMode then truncRounds g held ino fuel fuel k else some k

end Code

section Agreement

/-- Both routines come to an end, and leave the same fields of the inode, the same blocks and
the same zones. -/
def Agree (g : Segment) (k : Kernel) (ino : Nat) : Prop :=
  ∃ fuel n k' s', elksfsTruncate g idle ino fuel k = some k' ∧
    minixTruncate (List.replicate n idle) k.fs ino = .ok s' ∧
    (k'.fs.inode ino).iZone = (s'.inode ino).iZone ∧ k'.fs.block = s'.block ∧
    ∀ z, k.fs.inZones z → k'.fs.zoneTaken z = s'.zoneTaken z

/-- A zone that is in use. -/
def InUse (s : Fs) (z : Nat) : Prop :=
  s.inZones z ∧ s.zoneTaken z = true

/-- Nothing is truncated; or there is nothing to truncate, and the word at the null pointer is
zero or not the number of a zone in use. -/
def Harmless (k : Kernel) (ino : Nat) : Prop :=
  truncates (k.fs.inode ino).iMode = false ∨
    (∀ i, (k.fs.inode ino).iZone i = 0) ∧ (k.word 0 = 0 ∨ ¬InUse k.fs (k.word 0))

end Agreement

section Empty

variable {g : Segment} {ino fuel n : Nat} {k k' : Kernel} {s s' : Fs} {retry : Bool} {p : Cell}

theorem directBlock_zero (hsize : (s.inode ino).iSize = 0) : directBlock s ino = 0 := by
  unfold directBlock
  rw [hsize]
  decide

theorem freeBlock_same (s : Fs) (z : Nat) :
    ∃ maps, elksfsFreeBlock s z = { s with sZmap := maps } := by
  unfold elksfsFreeBlock minixFreeBlock
  split
  · exact ⟨s.sZmap, rfl⟩
  · split
    · exact ⟨s.sZmap, rfl⟩
    · exact ⟨_, rfl⟩

theorem freeBlock_inode (s : Fs) (z : Nat) : (elksfsFreeBlock s z).inode = s.inode := by
  obtain ⟨maps, h⟩ := freeBlock_same s z
  rw [h]

theorem freeBlock_block (s : Fs) (z : Nat) : (elksfsFreeBlock s z).block = s.block := by
  obtain ⟨maps, h⟩ := freeBlock_same s z
  rw [h]

theorem Segment.load_of_plain {p : Nat} (h : g.plain p) : g.load k p = k.word p :=
  if_pos h

theorem Segment.clear_of_plain {p : Nat} (h : g.plain p) : g.clear k p = k.clear p :=
  if_pos h

theorem Segment.plain_null (g : Segment) : g.plain 0 :=
  g.null

theorem v1TruncDirect_keeps (hplain : ∀ i : Fin 7, g.plain ((k.fs.inode ino).iZone (directZone i)))
    (h : v1TruncDirect g idle ino fuel k = some (retry, k')) :
    retry = false ∧ k'.fs.inode = k.fs.inode := by
  refine loop_keeps (I := fun a => a.2.1 = false ∧ a.2.2.fs.inode = k.fs.inode)
    (Q := fun r => r.1 = false ∧ r.2.fs.inode = k.fs.inode) ?_ ⟨rfl, rfl⟩ h
  rintro ⟨i, r, l⟩ ⟨hr, hinode⟩
  unfold directStep
  dsimp only
  split_ifs with hi hnone hagain hheld
  · exact Or.inl ⟨_, rfl, hr, hinode⟩
  · exact Or.inl ⟨_, rfl, hr, hinode⟩
  · exact absurd hheld Bool.false_ne_true
  · refine Or.inl ⟨_, rfl, hr, ?_⟩
    have hfree := hplain ⟨i, hi⟩
    rw [← hinode] at hfree
    rw [Segment.clear_of_plain hfree]
    exact (freeBlock_inode _ _).trans hinode
  · exact Or.inr ⟨_, rfl, hr, hinode⟩

/-- A loop of unsigned indices that ought to start below zero starts for ever. -/
theorem v1TruncIndirect_endless (hsize : (s.inode ino).iSize = 0)
    (h : s.fetch p ≠ 0) : v1TruncIndirect idle ino fuel s 7 p = none := by
  have hstart : indirectBlock s ino 7 = 4294967289 := by
    rw [indirectBlock, directBlock_zero hsize]
    rfl
  have hbelow : int16 (4294967289 : Nat) = -7 := by
    decide
  unfold v1TruncIndirect
  dsimp only
  rw [if_neg h, hstart, hbelow, Option.map_eq_none_iff]
  refine Option.eq_none_iff_forall_ne_some.mpr fun r hr => ?_
  refine not_ends_of_stuck ?_ ⟨fuel, hr⟩
  unfold indirectStep
  dsimp only
  rw [dif_pos (by decide), hstart, hbelow, if_pos (by decide)]

theorem v1TruncDindirect_endless (hsize : (s.inode ino).iSize = 0)
    (h : s.fetch p ≠ 0) : v1TruncDindirect idle ino fuel s (7 + 512) p = none := by
  have hstart : dindirectBlock s ino (7 + 512) = 8388606 := by
    rw [dindirectBlock, indirectBlock, directBlock_zero hsize]
    rfl
  have hbelow : int16 (8388606 : Nat) = -2 := by
    decide
  unfold v1TruncDindirect
  dsimp only
  rw [if_neg h, hstart, hbelow, Option.map_eq_none_iff]
  refine Option.eq_none_iff_forall_ne_some.mpr fun r hr => ?_
  refine not_ends_of_stuck ?_ ⟨fuel, Option.join_eq_some_iff.mp hr⟩
  unfold dindirectStep
  dsimp only
  rw [dif_pos (by decide), hstart, hbelow, if_pos (by decide)]

theorem v1TruncIndirect_some (hsize : (s.inode ino).iSize = 0)
    (h : v1TruncIndirect idle ino fuel s 7 p = some (retry, s')) :
    s.fetch p = 0 ∧ retry = false ∧ s' = s := by
  by_cases hzero : s.fetch p = 0
  · unfold v1TruncIndirect at h
    dsimp only at h
    rw [if_pos hzero] at h
    obtain ⟨rfl, rfl⟩ := Prod.mk.inj (Option.some.inj h)
    exact ⟨hzero, rfl, rfl⟩
  · rw [v1TruncIndirect_endless hsize hzero] at h
    cases h

theorem v1TruncDindirect_some (hsize : (s.inode ino).iSize = 0)
    (h : v1TruncDindirect idle ino fuel s (7 + 512) p = some (retry, s')) :
    s.fetch p = 0 ∧ retry = false ∧ s' = s := by
  by_cases hzero : s.fetch p = 0
  · unfold v1TruncDindirect at h
    dsimp only at h
    rw [if_pos hzero] at h
    obtain ⟨rfl, rfl⟩ := Prod.mk.inj (Option.some.inj h)
    exact ⟨hzero, rfl, rfl⟩
  · rw [v1TruncDindirect_endless hsize hzero] at h
    cases h

theorem truncRound_some (hsize : (k.fs.inode ino).iSize = 0)
    (hplain : ∀ i : Fin 7, g.plain ((k.fs.inode ino).iZone (directZone i)))
    (h : truncRound g idle ino fuel k = some (retry, k')) :
    v1TruncDirect g idle ino fuel k = some (false, k') ∧ retry = false ∧
      (k.fs.inode ino).iZone indZone = 0 ∧ (k.fs.inode ino).iZone dindZone = 0 := by
  unfold truncRound at h
  obtain ⟨⟨retry₁, l⟩, hdirect, h⟩ := Option.bind_eq_some_iff.mp h
  obtain ⟨⟨retry₂, s₂⟩, hind, h⟩ := Option.bind_eq_some_iff.mp h
  obtain ⟨⟨retry₃, s₃⟩, hdind, h⟩ := Option.bind_eq_some_iff.mp h
  obtain ⟨rfl, hinode⟩ := v1TruncDirect_keeps hplain hdirect
  have hsize' : (l.fs.inode ino).iSize = 0 := by rwa [hinode]
  obtain ⟨hind0, rfl, rfl⟩ := v1TruncIndirect_some hsize' hind
  obtain ⟨hdind0, rfl, rfl⟩ := v1TruncDindirect_some hsize' hdind
  obtain ⟨rfl, rfl⟩ := Prod.mk.inj (Option.some.inj h)
  rw [Fs.fetch, hinode] at hind0 hdind0
  exact ⟨hdirect, rfl, hind0, hdind0⟩

theorem elksfsTruncate_some (hgate : truncates (k.fs.inode ino).iMode = true)
    (hsize : (k.fs.inode ino).iSize = 0)
    (hplain : ∀ i : Fin 7, g.plain ((k.fs.inode ino).iZone (directZone i)))
    (h : elksfsTruncate g idle ino fuel k = some k') :
    v1TruncDirect g idle ino fuel k = some (false, k') ∧
      (k.fs.inode ino).iZone indZone = 0 ∧ (k.fs.inode ino).iZone dindZone = 0 := by
  unfold elksfsTruncate at h
  rw [if_pos hgate] at h
  obtain _ | n := fuel
  · cases h
  · unfold truncRounds at h
    obtain ⟨⟨retry, l⟩, hround, h⟩ := Option.bind_eq_some_iff.mp h
    obtain ⟨hdirect, rfl, hind, hdind⟩ := truncRound_some hsize hplain hround
    obtain rfl := Option.some.inj h
    exact ⟨hdirect, hind, hdind⟩

end Empty

section Blank

variable {g : Segment} {ino fuel n : Nat} {k k' : Kernel} {s s' : Fs} {p : Cell}

/-- What the direct loop does when the inode names no direct blocks: each of its rounds looks
at the word at the null pointer. -/
def swept (k : Kernel) : Kernel :=
  if k.word 0 = 0 then k else { k.clear 0 with fs := elksfsFreeBlock k.fs (k.word 0) }

theorem swept_inode (k : Kernel) : (swept k).fs.inode = k.fs.inode := by
  unfold swept
  split
  · rfl
  · exact freeBlock_inode _ _

theorem swept_block (k : Kernel) : (swept k).fs.block = k.fs.block := by
  unfold swept
  split
  · rfl
  · exact freeBlock_block _ _

theorem word_clear (k : Kernel) (p : Nat) : (k.clear p).word p = 0 := by
  have hsecond : (k.clear p).mem (second p) = 0 := Function.update_self _ _ _
  have hfirst : (k.clear p).mem p = 0 := by
    unfold Kernel.clear
    dsimp only
    rw [Function.update_apply, Function.update_self]
    exact ite_self _
  rw [Kernel.word, hfirst, hsecond]
  rfl

theorem swept_word (k : Kernel) : (swept k).word 0 = 0 := by
  unfold swept
  split_ifs with hzero
  · exact hzero
  · exact word_clear k 0

theorem swept_swept (k : Kernel) : swept (swept k) = swept k := by
  rw [swept, if_pos (swept_word k)]

/-- The inode names no direct blocks. -/
structure Blank (k : Kernel) (ino : Nat) : Prop where
  size : (k.fs.inode ino).iSize = 0
  zone : ∀ i : Fin 7, (k.fs.inode ino).iZone (directZone i) = 0

theorem Blank.swept (h : Blank k ino) : Blank (swept k) ino := by
  have hinode := swept_inode k
  exact ⟨by rw [hinode]; exact h.size, by rw [hinode]; exact h.zone⟩

theorem Blank.step (h : Blank k ino) {i : Nat} (hi : i < 7) :
    directStep g idle ino (i, false, k) = .inl (i + 1, false, Elksfs.swept k) := by
  unfold directStep Elksfs.swept
  dsimp only
  rw [dif_pos hi, h.zone ⟨i, hi⟩, Segment.load_of_plain g.plain_null,
    Segment.clear_of_plain g.plain_null, directBlock_zero h.size]
  split_ifs with hnone hbelow hheld
  · rfl
  · exact absurd hbelow (Nat.not_lt_zero i)
  · exact absurd hheld Bool.false_ne_true
  · rfl

theorem Blank.v1TruncDirect (h : Blank k ino) :
    v1TruncDirect g idle ino 8 k = some (false, Elksfs.swept k) := by
  have hstart : wrap 16 (directBlock k.fs ino) = 0 := by
    rw [directBlock_zero h.size]
    rfl
  have hend : directStep g idle ino (7, false, Elksfs.swept k) = .inr (false, Elksfs.swept k) := by
    unfold directStep
    dsimp only
    rw [dif_neg (by decide)]
  obtain ⟨r, hr, rfl⟩ : ∃ r, loop (directStep g idle ino) 8 (0, false, k) = some r ∧
      r = (false, Elksfs.swept k) := by
    refine loop_of_variant (I := fun a => a.1 ≤ 7 ∧ a.2.1 = false ∧
      (a.1 = 0 ∧ a.2.2 = k ∨ 0 < a.1 ∧ a.2.2 = Elksfs.swept k)) (v := fun a => 7 - a.1) ?_
      ⟨Nat.zero_le 7, rfl, Or.inl ⟨rfl, rfl⟩⟩ (Nat.lt_succ_self 7)
    rintro ⟨i, r, l⟩ ⟨hle, hr, hl⟩
    dsimp only at hle hr hl
    rcases Nat.eq_or_lt_of_le hle with hi | hi
    · have hl' := (hl.resolve_left fun h0 => by omega).2
      rw [hi, hr, hl']
      exact Or.inr ⟨_, hend, rfl⟩
    · have hless : 7 - (i + 1) < 7 - i := by omega
      rw [hr]
      rcases hl with ⟨-, rfl⟩ | ⟨-, rfl⟩
      · exact Or.inl ⟨_, h.step hi, ⟨hi, rfl, Or.inr ⟨Nat.succ_pos i, rfl⟩⟩, hless⟩
      · exact Or.inl ⟨_, h.swept.step hi,
          ⟨hi, rfl, Or.inr ⟨Nat.succ_pos i, swept_swept k⟩⟩, hless⟩
  unfold Elksfs.v1TruncDirect
  rw [hstart]
  exact hr

theorem v1TruncDirect_unique {r r' : Bool × Kernel} (h : v1TruncDirect g idle ino fuel k = some r)
    (h' : v1TruncDirect g idle ino n k = some r') : r = r' :=
  Ends.unique ⟨fuel, h⟩ ⟨n, h'⟩

/-- An inode that names no blocks at all. -/
structure NoBlocks (s : Fs) (ino : Nat) : Prop where
  size : (s.inode ino).iSize = 0
  zone : ∀ i, (s.inode ino).iZone i = 0

theorem NoBlocks.blank (h : NoBlocks k.fs ino) : Blank k ino :=
  ⟨h.size, fun i => h.zone (directZone i)⟩

theorem NoBlocks.elksfsTruncate (h : NoBlocks k.fs ino)
    (hgate : truncates (k.fs.inode ino).iMode = true) :
    elksfsTruncate g idle ino 8 k = some (swept k) := by
  have hinode := swept_inode k
  have hind : v1TruncIndirect idle ino 8 (swept k).fs 7 (.zone ino indZone) =
      some (false, (swept k).fs) := by
    unfold v1TruncIndirect
    rw [if_pos (by rw [Fs.fetch, hinode]; exact h.zone indZone)]
  have hdind : v1TruncDindirect idle ino 8 (swept k).fs (7 + 512) (.zone ino dindZone) =
      some (false, (swept k).fs) := by
    unfold v1TruncDindirect
    rw [if_pos (by rw [Fs.fetch, hinode]; exact h.zone dindZone)]
  have hround : truncRound g idle ino 8 k = some (false, swept k) := by
    unfold truncRound
    rw [h.blank.v1TruncDirect]
    simp only [Option.bind_eq_bind, Option.bind_some]
    rw [hind]
    simp only [Option.bind_some]
    rw [hdind]
    rfl
  unfold Elksfs.elksfsTruncate truncRounds
  rw [if_pos hgate, hround]
  rfl

theorem truncCell_none {a : Bool × Fs} (h : a.2.fetch p = 0) : truncCell idle p a = a := by
  rw [truncCell, if_pos h]

theorem minixIndirect_none (h : s.fetch p = 0) (offset : Int) :
    Minix.v1TruncIndirect idle s ino offset p = (false, s) := by
  unfold Minix.v1TruncIndirect
  dsimp only
  rw [if_pos h]

theorem minixDindirect_none (h : s.fetch p = 0) (offset : Int) :
    Minix.v1TruncDindirect idle s ino offset p = (false, s) := by
  unfold Minix.v1TruncDindirect
  dsimp only
  rw [if_pos h]

theorem minixTables_none {d : Bool × Fs} {p q : Cell} (hp : d.2.fetch p = 0)
    (hq : d.2.fetch q = 0) :
    orRetry d.1 (orRetry (Minix.v1TruncIndirect idle d.2 ino 7 p).1
      (Minix.v1TruncDindirect idle (Minix.v1TruncIndirect idle d.2 ino 7 p).2 ino (7 + 512) q)) =
      d := by
  rw [minixIndirect_none hp, minixDindirect_none hq]
  simp only [orRetry, Bool.or_false]

theorem minixRound_eq (hind : (Minix.v1TruncDirect idle s ino).2.fetch (.zone ino indZone) = 0)
    (hdind : (Minix.v1TruncDirect idle s ino).2.fetch (.zone ino dindZone) = 0) :
    Minix.truncRound idle s ino = Minix.v1TruncDirect idle s ino := by
  rw [Minix.truncRound]
  exact minixTables_none hind hdind

theorem minixDirect_tables (s : Fs) (ino : Nat) {j : Fin 9} (hj : 7 ≤ j.val) :
    ((Minix.v1TruncDirect idle s ino).2.inode ino).iZone j = (s.inode ino).iZone j := by
  have hloop (L : List (Fin 7)) (a : Bool × Fs) :
      ((L.foldl (fun a i => truncCell idle (.zone ino (directZone i)) a) a).2.inode ino).iZone j =
        (a.2.inode ino).iZone j := by
    induction L generalizing a with
    | nil => rfl
    | cons i L ih =>
        have hne : j ≠ directZone i := by
          rintro rfl
          exact absurd hj (not_le.mpr i.isLt)
        rw [List.foldl_cons, ih, iZone_truncCell_idle a.2 a.1, if_neg hne]
  rw [Minix.v1TruncDirect]
  exact hloop _ _

theorem minixRound_empties (hsize : (s.inode ino).iSize = 0)
    (hind : (s.inode ino).iZone indZone = 0) (hdind : (s.inode ino).iZone dindZone = 0)
    (i : Fin 7) : ((Minix.truncRound idle s ino).2.inode ino).iZone (directZone i) = 0 := by
  rw [minixRound_eq]
  · exact v1TruncDirect_empties hsize i
  · rw [Fs.fetch, minixDirect_tables s ino (by decide), hind]
  · rw [Fs.fetch, minixDirect_tables s ino (by decide), hdind]

theorem NoBlocks.minixRound (h : NoBlocks s ino) : Minix.truncRound idle s ino = (false, s) := by
  have hloop (L : List (Fin 7)) :
      L.foldl (fun a i => truncCell idle (.zone ino (directZone i)) a) (false, s) = (false, s) := by
    induction L with
    | nil => rfl
    | cons i L ih =>
        have hzero : (false, s).2.fetch (.zone ino (directZone i)) = 0 := h.zone (directZone i)
        rw [List.foldl_cons, truncCell_none hzero, ih]
  rw [minixRound_eq, Minix.v1TruncDirect]
  · exact hloop _
  · rw [Fs.fetch, minixDirect_tables s ino (by decide), h.zone indZone]
  · rw [Fs.fetch, minixDirect_tables s ino (by decide), h.zone dindZone]

theorem minixTruncate_of_not (hgate : truncates (s.inode ino).iMode = false)
    (rounds : List (Nat → Bool)) : minixTruncate rounds s ino = .ok s :=
  if_neg (by unfold truncates at hgate; rw [hgate]; exact Bool.false_ne_true)

theorem minixTruncate_some (hgate : truncates (s.inode ino).iMode = true)
    (h : minixTruncate (List.replicate n idle) s ino = .ok s') :
    s' = (Minix.truncRound idle s ino).2 := by
  unfold truncates at hgate
  unfold minixTruncate at h
  rw [if_pos hgate] at h
  obtain _ | n := n
  · cases h
  · rw [List.replicate_succ, Minix.truncRounds, truncRound_idle] at h
    exact (Except.ok.inj h).symm

end Blank

section Result

variable {g : Segment} {ino w : Nat} {k : Kernel} {s : Fs}

theorem zoneTaken_freeBlock (h : ZonesMounted s) (hw : ¬InUse s w) {z : Nat}
    (hz : s.inZones z) : (elksfsFreeBlock s w).zoneTaken z = s.zoneTaken z := by
  by_cases hin : s.inZones w
  · obtain ⟨maps, hfree, -, hbits⟩ := h.freeBlock hin
    have hbit := hbits z hz.1
    have hclear : s.zoneTaken w = false := Bool.eq_false_iff.mpr fun ht => hw ⟨hin, ht⟩
    unfold elksfsFreeBlock
    rw [hfree]
    refine hbit.trans ?_
    split_ifs with heq
    · rw [heq, hclear]
    · rfl
  · unfold elksfsFreeBlock minixFreeBlock
    rw [if_pos]
    unfold Fs.inZones at hin
    omega

theorem zoneTaken_freeBlock_inUse (h : ZonesMounted s) (hw : InUse s w) :
    (elksfsFreeBlock s w).zoneTaken w = false := by
  obtain ⟨maps, hfree, -, hbits⟩ := h.freeBlock hw.1
  have hbit := hbits w hw.1.1
  rw [if_pos rfl] at hbit
  unfold elksfsFreeBlock
  rw [hfree]
  exact hbit

theorem Harmless.agree (h : ZonesMounted k.fs) (hsize : (k.fs.inode ino).iSize = 0)
    (hharmless : Harmless k ino) : Agree g k ino := by
  rcases Bool.eq_false_or_eq_true (truncates (k.fs.inode ino).iMode) with hgate | hgate
  · obtain ⟨hzone, hword⟩ := hharmless.resolve_left (by rw [hgate]; exact Bool.noConfusion)
    have hnone : NoBlocks k.fs ino := ⟨hsize, hzone⟩
    obtain ⟨s', hminix⟩ := minixTruncate_idle k.fs ino
    have hs' : s' = k.fs := by
      rw [minixTruncate_some (n := 1) hgate hminix, hnone.minixRound]
    rw [hs'] at hminix
    refine ⟨8, 1, swept k, k.fs, hnone.elksfsTruncate hgate, hminix, ?_, swept_block k, ?_⟩
    · rw [swept_inode]
    · intro z hz
      unfold swept
      split_ifs with hzero
      · rfl
      · exact zoneTaken_freeBlock h (hword.resolve_left hzero) hz
  · have helksfs : elksfsTruncate g idle ino 0 k = some k := by
      unfold elksfsTruncate
      rw [if_neg (by rw [hgate]; exact Bool.false_ne_true)]
    exact ⟨0, 0, k, k.fs, helksfs, minixTruncate_of_not hgate _, rfl, rfl, fun _ _ => rfl⟩

theorem Agree.harmless (h : ZonesMounted k.fs) (hsize : (k.fs.inode ino).iSize = 0)
    (hplain : ∀ i : Fin 7, g.plain ((k.fs.inode ino).iZone (directZone i)))
    (hagree : Agree g k ino) : Harmless k ino := by
  rcases Bool.eq_false_or_eq_true (truncates (k.fs.inode ino).iMode) with hgate | hgate
  · right
    obtain ⟨fuel, n, k', s', helksfs, hminix, hzones, -, htaken⟩ := hagree
    obtain ⟨hdirect, hind, hdind⟩ := elksfsTruncate_some hgate hsize hplain helksfs
    obtain ⟨-, hinode⟩ := v1TruncDirect_keeps hplain hdirect
    have hs' := minixTruncate_some hgate hminix
    have hzero : ∀ i : Fin 7, (k.fs.inode ino).iZone (directZone i) = 0 := by
      intro i
      rw [← hinode, hzones, hs']
      exact minixRound_empties hsize hind hdind i
    have hnone : NoBlocks k.fs ino := by
      refine ⟨hsize, fun i => ?_⟩
      rcases lt_or_ge i.val 7 with hi | hi
      · exact hzero ⟨i.val, hi⟩
      · rcases (by omega : i.val = 7 ∨ i.val = 8) with h7 | h8
        · rw [(Fin.ext h7 : i = indZone)]
          exact hind
        · rw [(Fin.ext h8 : i = dindZone)]
          exact hdind
    refine ⟨hnone.zone, ?_⟩
    by_contra hword
    rw [not_or, not_not] at hword
    obtain ⟨hne, huse⟩ := hword
    have hswept : k' = swept k :=
      congrArg Prod.snd (v1TruncDirect_unique hdirect hnone.blank.v1TruncDirect)
    have hfreed := htaken (k.word 0) huse.1
    rw [hs', hnone.minixRound, huse.2, hswept, swept, if_neg hne] at hfreed
    rw [zoneTaken_freeBlock_inUse h huse] at hfreed
    exact Bool.false_ne_true hfreed
  · exact Or.inl hgate

/-- On a mounted file system, with nobody at the buffers, the two routines do the same to an
inode of size zero if the condition holds; and, as long as no number of a direct block is the
address of an object, only if it does. -/
theorem elksfs_truncate_agrees (g : Segment) (k : Kernel) (ino : Nat) (h : ZonesMounted k.fs)
    (hsize : (k.fs.inode ino).iSize = 0) :
    (Harmless k ino → Agree g k ino) ∧
      ((∀ i : Fin 7, g.plain ((k.fs.inode ino).iZone (directZone i))) →
        Agree g k ino → Harmless k ino) :=
  ⟨Harmless.agree h hsize, Agree.harmless h hsize⟩

/-- No objects. -/
def bare : Segment where
  object := fun _ => false
  look := fun _ _ => 0
  hit := fun _ k => k
  null := ⟨rfl, rfl⟩

/-- A file with block 519. -/
def oneBlock : Kernel where
  fs := leafFs 0 0
  mem := fun _ => 0

/-- An empty file. -/
def emptyFile : Kernel where
  fs := { leafFs 0 0 with inode := fun _ => { blankInode with iMode := sIfreg } }
  mem := fun _ => 0

theorem elksfs_truncate_agrees_empty : Agree bare emptyFile 1 :=
  have hmounted : ZonesMounted (leafFs 0 0) := (leafFs_owned 0 0).zones
  (elksfs_truncate_agrees bare emptyFile 1
    ⟨hmounted.first_pos, hmounted.nzones_lt, hmounted.covers⟩ rfl).1
    (Or.inr ⟨fun _ => rfl, Or.inl rfl⟩)

/-- `elksfs_truncate` does not come back from the double indirect block of the file. -/
theorem elksfs_truncate_endless :
    (∃ s', minixTruncate [idle] oneBlock.fs 1 = .ok s') ∧
      ∀ fuel, elksfsTruncate bare idle 1 fuel oneBlock = none := by
  refine ⟨minixTruncate_idle _ _, fun fuel => ?_⟩
  refine Option.eq_none_iff_forall_ne_some.mpr fun k' hk' => ?_
  have hplain (i : Fin 7) : bare.plain ((oneBlock.fs.inode 1).iZone (directZone i)) := ⟨rfl, rfl⟩
  obtain ⟨-, -, hdind⟩ := elksfsTruncate_some (by decide) rfl hplain hk'
  exact absurd hdind (by decide)

end Result

end Elksfs
end Elks
