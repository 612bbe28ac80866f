import Elks.Minix.Ownership

/-!
# `_minix_bmap` as a mapping (fs/minix/inode.c)

`_minix_bmap` with `create` may take up to three blocks, and may run out of
blocks after any of them.  The result is that whatever it takes, it moves
nothing:

* the block it answers for is the one it finds from then on,
* that block is named nowhere else in the trees of the file system, and
* every other block of every file is where it was.

What is asked of the file system is only that the trees of its inodes are well
formed.  The zone map may be of any make: `minix_new_block` may find a bit that
stands for no zone, sets it and comes back with nothing, and with
`s_firstdatazone` zero it may even hand out block zero, which names no block.
-/

namespace Elks
namespace Minix

open Lib

section Trees

/-- The inodes that hold zones have well formed trees: every block number in
them is that of a zone that is taken, and no block is named twice. -/
structure TreesOwned (s : Fs) : Prop where
  nzones_lt : s.sNzones < 65536
  exclusive : Exclusive s.live s.ptr s.held

theorem Owned.trees {s : Fs} (h : Owned s) : TreesOwned s :=
  ⟨h.zones.nzones_lt, h.exclusive⟩

variable {s s' s'' : Fs} {d : Place}

theorem TreesOwned.inZones_lt (h : TreesOwned s) {z : Nat} (hz : s.inZones z) :
    z < 65536 :=
  Nat.lt_trans hz.2 h.nzones_lt

theorem TreesOwned.mono (h : TreesOwned s) (hsuper : SameSuper s s')
    (hlive : ∀ q, s'.live q ↔ s.live q) (hptr : ∀ q, s'.ptr q = s.ptr q)
    (htaken : ∀ z, s.inZones z → s.zoneTaken z = true → s'.zoneTaken z = true) : TreesOwned s' := by
  refine ⟨by rw [hsuper.nzones]; exact h.nzones_lt, ?_⟩
  refine h.exclusive.shrink (fun q hq _ => ⟨(hlive q).mp hq, hptr q⟩) ?_
  intro q _ _ hheld
  exact ⟨(hsuper.inZones _).mpr hheld.1, htaken _ hheld.1 hheld.2⟩

/-- Blocks were added to the trees, and of the blocks of files only the one at
`d` may have come to a place. -/
structure Stretched (d : Place) (s s' : Fs) : Prop where
  trees : TreesOwned s'
  live : ∀ q, s'.live q ↔ s.live q
  kept : ∀ q, s.live q → s.ptr q ≠ 0 → s'.ptr q = s.ptr q
  other : ∀ q, s.live q → q.table = false → q ≠ d → s'.ptr q = s.ptr q

theorem Stretched.refl (h : TreesOwned s) (d : Place) : Stretched d s s where
  trees := h
  live := fun _ => Iff.rfl
  kept := fun _ _ _ => rfl
  other := fun _ _ _ _ => rfl

theorem Stretched.trans (h : Stretched d s s') (h' : Stretched d s' s'') :
    Stretched d s s'' where
  trees := h'.trees
  live := fun q => (h'.live q).trans (h.live q)
  kept := fun q hq h0 => by
    have he := h.kept q hq h0
    rw [h'.kept q ((h.live q).mpr hq) (he ▸ h0), he]
  other := fun q hq ht hd => by
    rw [h'.other q ((h.live q).mpr hq) ht hd, h.other q hq ht hd]

theorem Stretched.of_ptr (htrees : TreesOwned s') (hlive : ∀ q, s'.live q ↔ s.live q)
    (hptr : ∀ q, s'.ptr q = s.ptr q) (d : Place) :
    Stretched d s s' where
  trees := htrees
  live := hlive
  kept := fun q _ _ => hptr q
  other := fun q _ _ _ => hptr q

end Trees

section NewBlock

variable {s : Fs}

theorem ptr_putBlock_zero (b : Buffer.Block) (q : Place) : (s.putBlock 0 b).ptr q = s.ptr q := by
  induction q using Place.induct with
  | root i k => rfl
  | child q r j hqr ih =>
      rw [ptr_of_parent _ hqr, ptr_of_parent s hqr, ih]
      unfold Fs.through
      split
      · rfl
      · rename_i h0
        unfold Fs.putBlock
        dsimp only
        rw [Function.update_of_ne h0]

/-- What `minix_new_block` does to the trees: it hands out a zone that was
free, or nothing. -/
inductive Handed (s : Fs) : Nat × Fs → Prop
  | none (s' : Fs) :
      TreesOwned s' →
      (∀ q, s'.live q ↔ s.live q) →
      (∀ q, s'.ptr q = s.ptr q) →
      Handed s (0, s')
  | block (z : Nat) (maps : Nat → Option Bitmap) :
      z ≠ 0 →
      s.inZones z →
      s.zoneTaken z = false →
      (∀ w, s.sFirstdatazone ≤ w →
        bitAt maps (s.zoneBit w) = if w = z then true else s.zoneTaken w) →
      Handed s (z, s.withFresh maps z)

theorem new_block_number {s : Fs} {i j : Nat} (hi : i < 8) (hj : j < bitsPerBlock)
    (hlo : s.sFirstdatazone ≤ wrapSub 16 (j + i * bitsPerBlock + s.sFirstdatazone) 1)
    (hhi : wrapSub 16 (j + i * bitsPerBlock + s.sFirstdatazone) 1 < s.sNzones)
    (hlt : s.sNzones < 65536) :
    s.zoneBit (wrapSub 16 (j + i * bitsPerBlock + s.sFirstdatazone) 1) =
      i * bitsPerBlock + j := by
  unfold Fs.zoneBit
  unfold wrapSub wrap bitsPerBlock at *
  omega

theorem TreesOwned.newBlock (h : TreesOwned s) : Handed s (minixNewBlock s) := by
  unfold minixNewBlock
  cases hf : firstFree s.sZmap with
  | none => exact Handed.none s h (fun _ => Iff.rfl) fun _ => rfl
  | some ij =>
      obtain ⟨i, j⟩ := ij
      obtain ⟨hi, bh, hbh, hj, hclear⟩ := firstFreeFrom_spec hf
      have hset : ∀ n, bitAt (putBit s.sZmap i j true) n =
          if n = i * bitsPerBlock + j then true else bitAt s.sZmap n := by
        intro n
        rw [bitAt_putBit s.sZmap hj, hbh]
        rfl
      have hmore : ∀ z, s.zoneTaken z = true →
          bitAt (putBit s.sZmap i j true) (s.zoneBit z) = true := by
        intro z hz
        rw [hset]
        split
        · rfl
        · exact hz
      dsimp only
      generalize hz : wrapSub 16 (j + i * bitsPerBlock + s.sFirstdatazone) 1 = z
      by_cases hin : z < s.sFirstdatazone ∨ s.sNzones ≤ z
      · -- a bit that stands for no zone
        rw [if_pos hin]
        have hptr : ∀ q, ({ s with sZmap := putBit s.sZmap i j true } : Fs).ptr q = s.ptr q := by
          intro q
          cases q <;> rfl
        exact Handed.none _
          (h.mono ⟨rfl, rfl, rfl, rfl⟩ (fun _ => Iff.rfl) hptr fun w _ hw => hmore w hw)
          (fun _ => Iff.rfl) hptr
      · rw [if_neg hin]
        have hlo : s.sFirstdatazone ≤ z := by omega
        have hhi : z < s.sNzones := by omega
        have hbit : s.zoneBit z = i * bitsPerBlock + j := by
          rw [← hz]
          exact new_block_number (by omega) hj (hz ▸ hlo) (hz ▸ hhi) h.nzones_lt
        by_cases hz0 : z = 0
        · rw [hz0]
          have hptr : ∀ q, (({ s with sZmap := putBit s.sZmap i j true } : Fs).putBlock 0
              zeroBlock).ptr q = s.ptr q := by
            intro q
            rw [ptr_putBlock_zero]
            cases q <;> rfl
          exact Handed.none _
            (h.mono ⟨rfl, rfl, rfl, rfl⟩ (fun _ => Iff.rfl) hptr fun w _ hw => hmore w hw)
            (fun _ => Iff.rfl) hptr
        · refine Handed.block z _ hz0 ⟨hlo, hhi⟩ ?_ fun w hw => ?_
          · rw [Fs.zoneTaken, hbit, bitAt_of_slot hbh hj, hclear]
          · rw [hset, ← hbit]
            by_cases hwz : w = z
            · rw [if_pos hwz, if_pos (by rw [hwz])]
            · rw [if_neg hwz, if_neg (fun he => hwz ((zoneBit_inj hw hlo).mp he))]
              rfl

theorem TreesOwned.stretch (h : TreesOwned s) {d p : Place} (hp : s.live p)
    (hd : p.table = true ∨ p = d) (h0 : s.ptr p = 0)
    (hcell : ∀ q j, p.parent = some (q, j) → s.ptr q ≠ 0) {z : Nat} {maps : Nat → Option Bitmap}
    (hz0 : z ≠ 0) (hz : s.inZones z) (hfree : s.zoneTaken z = false)
    (hmaps : ∀ w, s.sFirstdatazone ≤ w →
      bitAt maps (s.zoneBit w) = if w = z then true else s.zoneTaken w) :
    Stretched d s ((s.withFresh maps z).store (s.cell p) z) ∧
      ((s.withFresh maps z).store (s.cell p) z).ptr p = z := by
  have hnot : ¬ s.held z := by
    simp [Fs.held, hfree]
  have hptr := ptr_fresh maps h.exclusive.unique (fun _ hq => h.exclusive.ne_of_free hz0 hnot hq)
    (h.inZones_lt hz) hp h0 hcell
  have hattrs : SameAttrs s ((s.withFresh maps z).store (s.cell p) z) :=
    sameAttrs_store (s.withFresh maps z) _ _
  have hfresh : SameSuper s (s.withFresh maps z) := ⟨rfl, rfl, rfl, rfl⟩
  have hsuper := hfresh.trans (sameSuper_store (s.withFresh maps z) (s.cell p) z)
  have htaken : ∀ w, s.inZones w →
      ((s.withFresh maps z).store (s.cell p) z).zoneTaken w =
        if w = z then true else s.zoneTaken w := by
    intro w hw
    unfold Fs.zoneTaken Fs.zoneBit
    rw [sZmap_store, hsuper.first]
    exact hmaps w hw.1
  refine ⟨⟨⟨by rw [hsuper.nzones]; exact h.nzones_lt, ?_⟩, hattrs.live, ?_, ?_⟩, ?_⟩
  · have hmore : Exclusive s.live ((s.withFresh maps z).store (s.cell p) z).ptr
        (fun w => s.held w ∨ w = z) :=
      h.exclusive.take hz0 hnot hptr fun w => Iff.rfl
    refine hmore.shrink (fun q hq _ => ⟨(hattrs.live q).mp hq, rfl⟩) ?_
    intro q _ _ hq
    rcases hq with ⟨hin, ht⟩ | hq
    · exact ⟨(hsuper.inZones _).mpr hin, by rw [htaken _ hin, ht]; simp⟩
    · rw [hq]
      exact ⟨(hsuper.inZones _).mpr hz, by rw [htaken z hz]; simp⟩
  · intro q hq hq0
    rw [hptr q hq, Function.update_of_ne]
    rintro rfl
    exact hq0 h0
  · intro q hq hqt hqd
    rw [hptr q hq, Function.update_of_ne]
    rintro rfl
    rcases hd with ht | hd
    · rw [hqt] at ht
      exact absurd ht (by decide)
    · exact hqd hd
  · rw [hptr p hp, Function.update_self]

end NewBlock

section Steps

variable {s : Fs} {d : Place}

theorem TreesOwned.fills (h : TreesOwned s) {p : Place} (hp : s.live p)
    (hd : p.table = true ∨ p = d) (hcell : ∀ q j, p.parent = some (q, j) → s.ptr q ≠ 0)
    (h0 : s.ptr p = 0) : Fills (Stretched d) s p := by
  have hnew := h.newBlock
  unfold Fills
  revert hnew
  generalize minixNewBlock s = r
  intro hnew
  cases hnew with
  | none s' htrees hlive hptr =>
      exact Or.inl ⟨rfl, Stretched.of_ptr htrees hlive hptr d, (hptr p).trans h0⟩
  | block z maps hz0 hz hfree hmaps =>
      exact Or.inr ⟨hz0, h.stretch hp hd h0 hcell hz0 hz hfree hmaps⟩

theorem mapIzone_stretches (h : TreesOwned s) {ino : Nat} (hi : s.holdsZones ino) {k : Fin 9}
    (hd : (Place.zone ino k).table = true ∨ Place.zone ino k = d) :
    Stretched d s (mapIzone s ino k true).2 ∧
      (mapIzone s ino k true).1 = (mapIzone s ino k true).2.ptr (.zone ino k) :=
  mapIzone_fills (Stretched.refl h d)
    (h.fills (p := .zone ino k) hi hd (by simp [Place.parent]))

theorem mapIblock_stretches (h : TreesOwned s) {p q : Place} {j : Fin 512}
    (hpq : p.parent = some (q, j)) (hp : s.live p) (hd : p.table = true ∨ p = d)
    (hq : s.ptr q ≠ 0) :
    Stretched d s (mapIblock s (s.ptr q) j true).2 ∧
      (mapIblock s (s.ptr q) j true).1 = (mapIblock s (s.ptr q) j true).2.ptr p :=
  mapIblock_fills hpq hq (Stretched.refl h d) (h.fills hp hd (cell_named hpq hq))

theorem minixBmap_stretches (h : TreesOwned s) {ino : Nat} (hi : s.holdsZones ino) (n : Nat) :
    Stretched (dataPlace ino n) s (minixBmap s ino n true).2 ∧
      (minixBmap s ino n true).1 = (minixBmap s ino n true).2.zoneOf ino n := by
  refine minixBmap_steps (G := fun a => TreesOwned a ∧ a.holdsZones ino)
    (R := Stretched (dataPlace ino n))
    (fun ha hab => ⟨hab.trees, (hab.live (.zone ino 0)).mpr ha.2⟩) Stretched.trans
    (fun a k ha hk => mapIzone_stretches ha.1 ha.2 hk.2) (fun a p q j ha hp hpq hq => ?_) ⟨h, hi⟩
  have hlive : a.live p := by
    unfold Fs.live
    rw [hp.1]
    exact ha.2
  exact mapIblock_stretches ha.1 hpq hlive hp.2 hq

end Steps

section Mapping

/-- What `_minix_bmap(inode, block, 0)` answers. -/
def Fs.mapped (s : Fs) (ino block : Nat) : Nat :=
  (minixBmap s ino block false).1

theorem mapped_eq (s : Fs) (ino block : Nat) :
    s.mapped ino block = s.ptr (dataPlace ino block) := by
  unfold Fs.mapped
  rw [minixBmap_find]
  rfl

/-- What `_minix_bmap` with `create` leaves, for block `b` of inode `ino`, when
it answers `z` and `s'` is the file system then. -/
structure MapStep (s : Fs) (ino b : Nat) (z : Nat) (s' : Fs) : Prop where
  /-- The trees are well formed, and those of the same inodes. -/
  trees : TreesOwned s'
  holds : ∀ k, s'.holdsZones k ↔ s.holdsZones k
  /-- The answer is what the block is mapped to from then on. -/
  found : s'.mapped ino b = z
  /-- No other block of a file is mapped to it. -/
  apart : z ≠ 0 → ∀ k c, s'.holdsZones k → c < 65536 → (k, c) ≠ (ino, b) → s'.mapped k c ≠ z
  /-- It is no block of block numbers. -/
  notTable : z ≠ 0 → ∀ p, s'.live p → p.table = true → s'.ptr p ≠ z
  /-- Every other block of every file is mapped as before. -/
  stable : ∀ k c, s.holdsZones k → c < 65536 → (k, c) ≠ (ino, b) →
    s'.mapped k c = s.mapped k c
  /-- Without a block for it, so is this one. -/
  failed : z = 0 → s'.mapped ino b = s.mapped ino b

/-- `_minix_bmap` is an injective mapping that a call with `create` extends by
the block it is asked for, or by nothing. -/
theorem minixBmap_stable
    (s : Fs)
    (ino b : Nat)
    (h : TreesOwned s)
    (hi : s.holdsZones ino)
    (hb : b < 65536) :
    MapStep s ino b (minixBmap s ino b true).1 (minixBmap s ino b true).2 := by
  obtain ⟨hst, hr⟩ := minixBmap_stretches h hi b
  revert hst hr
  generalize minixBmap s ino b true = r
  intro hst hr
  obtain ⟨z, s'⟩ := r
  dsimp only at hst hr ⊢
  have hplace : s'.ptr (dataPlace ino b) = z := hr.symm
  have hlive : ∀ {t : Fs} {k : Nat} (c : Nat), t.holdsZones k → t.live (dataPlace k c) := by
    intro t k c hk
    unfold Fs.live
    rwa [dataPlace_ino]
  have hown : s'.live (dataPlace ino b) := hlive b ((hst.live (.zone ino 0)).mpr hi)
  have hne : ∀ k c, c < 65536 → (k, c) ≠ (ino, b) → dataPlace k c ≠ dataPlace ino b := by
    intro k c hc hkc he
    obtain ⟨rfl, rfl⟩ := dataPlace_inj hc hb he
    exact hkc rfl
  refine ⟨hst.trees, fun k => hst.live (.zone k 0), ?_, ?_, ?_, ?_, ?_⟩
  · rw [mapped_eq, hplace]
  · intro hz k c hk hc hkc
    rw [mapped_eq, ← hplace]
    exact hst.trees.exclusive.ptr_ne hown (hlive c hk) (hne k c hc hkc).symm
      (by rw [hplace]; exact hz)
  · intro hz p hp hpt
    rw [← hplace]
    refine hst.trees.exclusive.ptr_ne hown hp ?_ (by rw [hplace]; exact hz)
    rintro rfl
    rw [dataPlace_table] at hpt
    exact absurd hpt (by decide)
  · intro k c hk hc hkc
    rw [mapped_eq, mapped_eq]
    exact hst.other _ (hlive c hk) (dataPlace_table k c) (hne k c hc hkc)
  · intro hz
    rw [mapped_eq, mapped_eq, hplace, hz]
    by_contra h0
    have hkept := hst.kept _ (hlive b hi) (Ne.symm h0)
    rw [hplace, hz] at hkept
    exact h0 hkept

/-- The last block of the indirect block of an empty file. -/
theorem minixBmap_stable_indirect :
    MapStep freshFs 1 518 (minixBmap freshFs 1 518 true).1 (minixBmap freshFs 1 518 true).2 :=
  minixBmap_stable freshFs 1 518 freshFs_owned.trees (by decide) (by decide)

end Mapping

end Minix
end Elks
