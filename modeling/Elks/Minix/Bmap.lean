import Elks.Minix.Tree

/-!
# From the blocks of a file to the blocks of the disk (fs/minix/inode.c)

`_minix_bmap` finds the block number of a block of a file through the fields of
the inode, the indirect block and the double indirect block, and with `create`
fills what is missing on the way.  Without I/O errors `bread` and `getblk` give
a buffer for every block number, so `minix_getblk` and `minix_bread` fail only
when the block number is zero.

The result is that `_minix_bmap` reads the place of the block, and with
`create` it grows the tree of the file and leaves every file as it was read.
-/

namespace Elks
namespace Minix

open Lib
open Buffer (Block blockSize)
open Function (update update_apply update_eq_self update_of_ne update_self)

section Code

/-- `map_izone`. -/
def mapIzone (s : Fs) (ino : Nat) (block : Fin 9) (create : Bool) : Nat × Fs :=
  if create ∧ (s.inode ino).iZone block = 0 then
    let (z, s) := minixNewBlock s
    (z, s.setZone ino block z)
  else ((s.inode ino).iZone block, s)

/-- `map_iblock`. -/
def mapIblock (s : Fs) (i : Nat) (block : Fin 512) (create : Bool) : Nat × Fs :=
  if create ∧ word (s.block i) block = 0 then
    let (z, s) := minixNewBlock s
    if z ≠ 0 then (z, s.putBlock i (putWord (s.block i) block z)) else (0, s)
  else (word (s.block i) block, s)

/-- An index into a block of block numbers. -/
def entryIndex (n : Nat) : Fin 512 :=
  ⟨n % 512, Nat.mod_lt _ (by decide)⟩

/-- `_minix_bmap`, for a block number of sixteen bits. -/
def minixBmap (s : Fs) (ino block : Nat) (create : Bool) : Nat × Fs :=
  if h : block < 7 then mapIzone s ino (directZone ⟨block, h⟩) create
  else if block - 7 < 512 then
    let (i, s) := mapIzone s ino indZone create
    if i ≠ 0 then mapIblock s i (entryIndex (block - 7)) create else (i, s)
  else
    let (i, s) := mapIzone s ino dindZone create
    if i ≠ 0 then
      let (i, s) := mapIblock s i (entryIndex ((block - 7 - 512) / 512)) create
      if i ≠ 0 then mapIblock s i (entryIndex (block - 7 - 512)) create else (i, s)
    else (i, s)

/-- `minix_getblk`: the block number of the buffer, or `NULL`. -/
def minixGetblk (s : Fs) (ino block : Nat) (create : Bool) : Option Nat × Fs :=
  let (blknum, s) := minixBmap s ino block create
  if blknum ≠ 0 then (some blknum, s) else (none, s)

/-- `minix_bread`: the buffer of `minix_getblk`, read in. -/
def minixBread (s : Fs) (ino block : Nat) (create : Bool) : Option Nat × Fs :=
  minixGetblk s ino block create

end Code

section Lookup

variable (s : Fs) (ino : Nat)

@[simp]
theorem mapIzone_find (k : Fin 9) : mapIzone s ino k false = ((s.inode ino).iZone k, s) := by
  simp [mapIzone]

@[simp]
theorem mapIblock_find (i : Nat) (j : Fin 512) :
    mapIblock s i j false = (word (s.block i) j, s) := by
  simp [mapIblock]

theorem minixBmap_find (n : Nat) : minixBmap s ino n false = (s.zoneOf ino n, s) := by
  unfold minixBmap Fs.zoneOf dataPlace
  split
  · rw [mapIzone_find]
    rfl
  · split
    · rename_i h7 h
      have hj : entryIndex (n - 7) = ⟨n - 7, h⟩ := Fin.ext (Nat.mod_eq_of_lt h)
      rw [mapIzone_find, hj]
      by_cases hz : (s.inode ino).iZone indZone = 0
      · simp [hz, Fs.ptr]
      · simp [hz, Fs.ptr, Fs.through]
    · rw [mapIzone_find]
      by_cases hz : (s.inode ino).iZone dindZone = 0
      · simp [hz, Fs.ptr]
      · simp only [hz, ne_eq, not_false_eq_true, if_true, mapIblock_find, Fs.ptr, Fs.through,
          if_false, entryIndex]
        split
        · rfl
        · rename_i h
          rw [not_not.mp h, if_pos rfl]

end Lookup

section Create

variable {s : Fs} {R : Fs → Fs → Prop} {ino z : Nat} {p q : Place} {j : Fin 512} {k : Fin 9}

theorem Owned.inZones_lt (h : Owned s) (hz : s.inZones z) :
    z < 65536 :=
  Nat.lt_trans hz.2 h.zones.nzones_lt

theorem Owned.inZones_ne_zero (h : Owned s) (hz : s.inZones z) : z ≠ 0 := by
  have hpos := h.zones.first_pos
  have hlo := hz.1
  omega

theorem Owned.not_held (h : Owned s) (hz : s.inZones z) (hfree : s.zoneTaken z = false)
    {q : Place} (hq : s.live q) :
    s.ptr q ≠ z :=
  h.exclusive.ne_of_free (h.inZones_ne_zero hz) (by simp [Fs.held, hfree]) hq

/-- The file system after `minix_new_block` took zone `z`. -/
def Fs.withFresh (s : Fs) (maps : Nat → Option Bitmap) (z : Nat) : Fs :=
  { s with sZmap := maps }.putBlock z zeroBlock

section Fresh

variable (maps : Nat → Option Bitmap) {z : Nat} {p : Place}

theorem ptr_withFresh (hout : ∀ q, s.live q → s.ptr q ≠ z) (q : Place) (hq : s.live q) :
    (s.withFresh maps z).ptr q = s.ptr q := by
  have h := ptr_putBlock (s := { s with sZmap := maps }) (b := zeroBlock)
    (fun r hr _ => by cases r <;> exact hout _ hr) q hq
  exact h.trans (by cases q <;> rfl)

theorem cell_withFresh (hout : ∀ q, s.live q → s.ptr q ≠ z) (hp : s.live p) :
    (s.withFresh maps z).cell p = s.cell p := by
  cases hpp : p.parent with
  | none => cases p <;> simp_all [Place.parent, Fs.cell]
  | some qj =>
      obtain ⟨q, j⟩ := qj
      rw [cell_of_parent _ hpp, cell_of_parent s hpp, ptr_withFresh maps hout q (live_parent hpp hp)]

theorem ptr_fresh (huniq : ∀ q r, s.live q → s.live r → s.ptr q ≠ 0 → s.ptr q = s.ptr r → q = r)
    (hout : ∀ q, s.live q → s.ptr q ≠ z) (hlt : z < 65536) (hp : s.live p) (h0 : s.ptr p = 0)
    (hcell : ∀ q j, p.parent = some (q, j) → s.ptr q ≠ 0) (q : Place) (hq : s.live q) :
    ((s.withFresh maps z).store (s.cell p) z).ptr q = update s.ptr p z q := by
  have hold : ∀ q, s.live q → (s.withFresh maps z).ptr q = s.ptr q := ptr_withFresh maps hout
  rw [← cell_withFresh maps hout hp,
    ptr_store (s := s.withFresh maps z) ?_ hp hlt ?_ ?_ ?_ ?_ q hq]
  · by_cases hqp : q = p
    · rw [hqp, update_self, update_self]
    · rw [update_of_ne hqp, update_of_ne hqp, hold q hq]
  · intro a b ha hb ha0 hab
    rw [hold a ha] at ha0 hab
    rw [hold b hb] at hab
    exact huniq a b ha hb ha0 hab
  · intro a j ha
    rw [hold a (live_parent ha hp)]
    exact hcell a j ha
  · intro a j ha
    have hal : s.live a := by
      unfold Fs.live at hp ⊢
      rwa [← Place.parent_ino ha]
    rw [hold a hal, ptr_of_parent s ha, h0, through_zero]
  · intro _ j
    unfold Fs.withFresh Fs.putBlock
    dsimp only
    rw [update_self, word_zeroBlock]
  · intro _ a ha
    rw [hold a ha]
    exact hout a ha

theorem Owned.ptr_grow (h : Owned s) (hp : s.live p) (h0 : s.ptr p = 0)
    (hcell : ∀ q j, p.parent = some (q, j) → s.ptr q ≠ 0) (hz : s.inZones z)
    (hfree : s.zoneTaken z = false) (q : Place) (hq : s.live q) :
    ((s.withFresh maps z).store (s.cell p) z).ptr q = update s.ptr p z q :=
  ptr_fresh maps h.exclusive.unique (fun _ hq => h.not_held hz hfree hq) (h.inZones_lt hz)
    hp h0 hcell q hq

theorem Owned.fileBlock_grow (h : Owned s) (hp : s.live p) (h0 : s.ptr p = 0)
    (hcell : ∀ q j, p.parent = some (q, j) → s.ptr q ≠ 0) (hz : s.inZones z)
    (hfree : s.zoneTaken z = false) {k : Nat} (n : Nat) (hk : s.holdsZones k) :
    ((s.withFresh maps z).store (s.cell p) z).fileBlock k n = s.fileBlock k n := by
  have hout : ∀ q, s.live q → s.ptr q ≠ z := fun q hq => h.not_held hz hfree hq
  have hd : s.live (dataPlace k n) := by
    unfold Fs.live
    rwa [dataPlace_ino]
  have hblock : ∀ w, (∀ q j, p.parent = some (q, j) → s.ptr q ≠ w) →
      ((s.withFresh maps z).store (s.cell p) z).block w =
        if w = z then zeroBlock else s.block w := by
    intro w hw
    rw [← cell_withFresh maps hout hp, block_store_cell]
    · unfold Fs.withFresh Fs.putBlock
      exact update_apply _ _ _ _
    · intro q j hq
      rw [ptr_withFresh maps hout q (live_parent hq hp)]
      exact hw q j hq
  unfold Fs.fileBlock Fs.zoneOf
  rw [h.ptr_grow maps hp h0 hcell hz hfree _ hd]
  by_cases hdp : dataPlace k n = p
  · rw [hdp, update_self, if_neg (h.inZones_ne_zero hz), h0, if_pos rfl,
      hblock z (fun q j hq => hout q (live_parent hq hp)), if_pos rfl]
  · rw [update_of_ne hdp]
    split
    · rfl
    · rename_i hd0
      rw [hblock, if_neg (hout _ hd)]
      intro q j hq he
      have hqd : q = dataPlace k n :=
        (h.exclusive.unique _ _ hd (live_parent hq hp) hd0 he.symm).symm
      have htab := Place.parent_table hq
      rw [hqd, dataPlace_table] at htab
      exact absurd htab (by decide)

theorem Owned.grow (h : Owned s) (hp : s.live p) (h0 : s.ptr p = 0)
    (hcell : ∀ q j, p.parent = some (q, j) → s.ptr q ≠ 0) (hz : s.inZones z)
    (hfree : s.zoneTaken z = false)
    (hmaps : ∀ w, s.sFirstdatazone ≤ w →
      bitAt maps (s.zoneBit w) = if w = z then true else s.zoneTaken w)
    (hmounted : ZonesMounted { s with sZmap := maps }) :
    Grown p.ino s ((s.withFresh maps z).store (s.cell p) z) := by
  have hptr := h.ptr_grow maps hp h0 hcell hz hfree
  have hattrs : SameAttrs s ((s.withFresh maps z).store (s.cell p) z) :=
    sameAttrs_store (s.withFresh maps z) _ _
  have hfreshened : SameSuper s (s.withFresh maps z) := ⟨rfl, rfl, rfl, rfl⟩
  have hsuper := hfreshened.trans (sameSuper_store (s.withFresh maps z) (s.cell p) z)
  have hzmap : ((s.withFresh maps z).store (s.cell p) z).sZmap = maps := sZmap_store _ _ _
  have htaken : ∀ w, s.inZones w →
      ((s.withFresh maps z).store (s.cell p) z).zoneTaken w =
        if w = z then true else s.zoneTaken w := by
    intro w hw
    unfold Fs.zoneTaken Fs.zoneBit
    rw [hzmap, hsuper.first]
    exact hmaps w hw.1
  refine ⟨hsuper, hattrs, ⟨?_, ?_, ?_⟩, ?_, ?_, fun k n hk => ?_, ?_⟩
  · exact hmounted.congr ⟨hsuper.ninodes, hsuper.nzones, hsuper.first, hsuper.flags⟩ hzmap
  · exact h.inodes.congr hsuper hattrs.1
  · have hmore : Exclusive s.live ((s.withFresh maps z).store (s.cell p) z).ptr
        (fun w => s.held w ∨ w = z) :=
      h.exclusive.take (h.inZones_ne_zero hz) (by simp [Fs.held, hfree]) hptr fun w => Iff.rfl
    refine hmore.shrink (fun q hq _ => ⟨(hattrs.live q).mp hq, rfl⟩) ?_
    intro q _ _ hq
    rcases hq with ⟨hin, ht⟩ | hq
    · exact ⟨(hsuper.inZones _).mpr hin, by rw [htaken _ hin, ht]; simp⟩
    · rw [hq]
      exact ⟨(hsuper.inZones _).mpr hz, by rw [htaken z hz]; simp⟩
  · intro q hq hq0
    rw [hptr q hq, update_of_ne]
    rintro rfl
    exact hq0 h0
  · intro q hq hqi
    rw [hptr q hq, update_of_ne]
    rintro rfl
    exact hqi rfl
  · exact h.fileBlock_grow maps hp h0 hcell hz hfree n hk
  · intro w hw hwt
    rw [htaken w hw] at hwt
    by_cases hwz : w = z
    · exact Or.inr ⟨p, hp, rfl, by rw [hptr p hp, update_self, hwz]⟩
    · rw [if_neg hwz] at hwt
      exact Or.inl hwt

end Fresh

theorem setZone_self (h0 : (s.inode ino).iZone k = 0) : s.setZone ino k 0 = s := by
  unfold Fs.setZone Fs.modInode
  dsimp only
  rw [← h0, update_eq_self, update_eq_self]

/-- Both outcomes of `minix_new_block` for a place are steps of `R`: there is no
block to be had and the place stays empty, or the new block goes into it. -/
def Fills (R : Fs → Fs → Prop) (s : Fs) (p : Place) : Prop :=
  (minixNewBlock s).1 = 0 ∧ R s (minixNewBlock s).2 ∧ (minixNewBlock s).2.ptr p = 0 ∨
    (minixNewBlock s).1 ≠ 0 ∧
      R s ((minixNewBlock s).2.store (s.cell p) (minixNewBlock s).1) ∧
      ((minixNewBlock s).2.store (s.cell p) (minixNewBlock s).1).ptr p = (minixNewBlock s).1

theorem mapIzone_fills (hrefl : R s s) (h : s.ptr (.zone ino k) = 0 → Fills R s (.zone ino k)) :
    R s (mapIzone s ino k true).2 ∧
      (mapIzone s ino k true).1 = (mapIzone s ino k true).2.ptr (.zone ino k) := by
  unfold mapIzone
  by_cases h0 : (s.inode ino).iZone k = 0
  · rw [if_pos ⟨rfl, h0⟩]
    rcases h h0 with ⟨hnone, hR, hptr⟩ | ⟨-, hR, hptr⟩
    · dsimp only
      rw [hnone, setZone_self hptr]
      exact ⟨hR, hptr.symm⟩
    · exact ⟨hR, hptr.symm⟩
  · rw [if_neg (fun hc => h0 hc.2)]
    exact ⟨hrefl, rfl⟩

theorem mapIblock_fills (hpq : p.parent = some (q, j)) (hq : s.ptr q ≠ 0) (hrefl : R s s)
    (h : s.ptr p = 0 → Fills R s p) :
    R s (mapIblock s (s.ptr q) j true).2 ∧
      (mapIblock s (s.ptr q) j true).1 = (mapIblock s (s.ptr q) j true).2.ptr p := by
  have hword : s.ptr p = word (s.block (s.ptr q)) j := by
    rw [ptr_of_parent s hpq, Fs.through, if_neg hq]
  unfold mapIblock
  by_cases h0 : word (s.block (s.ptr q)) j = 0
  · rw [if_pos ⟨rfl, h0⟩]
    rcases h (hword.trans h0) with ⟨hnone, hR, hptr⟩ | ⟨hne, hR, hptr⟩
    · dsimp only
      rw [if_neg (not_not.mpr hnone)]
      exact ⟨hR, hptr.symm⟩
    · rw [cell_of_parent s hpq] at hR hptr
      dsimp only
      rw [if_pos hne]
      exact ⟨hR, hptr.symm⟩
  · rw [if_neg (fun hc => h0 hc.2)]
    exact ⟨hrefl, hword.symm⟩

theorem cell_named (hpq : p.parent = some (q, j)) (hq : s.ptr q ≠ 0) (r : Place) (k : Fin 512)
    (hr : p.parent = some (r, k)) : s.ptr r ≠ 0 := by
  rw [hpq, Option.some.injEq, Prod.mk.injEq] at hr
  rw [← hr.1]
  exact hq

/-- A cell that is empty is filled with a new block, if there is one. -/
theorem Owned.fills (h : Owned s) {p : Place} (hp : s.live p)
    (hcell : ∀ q j, p.parent = some (q, j) → s.ptr q ≠ 0) (h0 : s.ptr p = 0) :
    Fills (Grown p.ino) s p := by
  have hnew := h.zones.newBlock
  unfold Fills
  revert hnew
  generalize minixNewBlock s = r
  intro hnew
  cases hnew with
  | full => exact Or.inl ⟨rfl, Grown.refl h p.ino, h0⟩
  | fresh z maps hz hfree hmaps hmounted =>
      refine Or.inr ⟨h.inZones_ne_zero hz, h.grow maps hp h0 hcell hz hfree hmaps hmounted, ?_⟩
      exact (h.ptr_grow maps hp h0 hcell hz hfree p hp).trans (update_self _ _ _)

theorem mapIzone_create (h : Owned s) (hi : s.holdsZones ino) (k : Fin 9) :
    Grown ino s (mapIzone s ino k true).2 ∧
      (mapIzone s ino k true).1 = (mapIzone s ino k true).2.ptr (.zone ino k) :=
  mapIzone_fills (Grown.refl h ino) (h.fills (p := .zone ino k) hi (by simp [Place.parent]))

theorem mapIblock_create (h : Owned s) (hpq : p.parent = some (q, j)) (hp : s.live p)
    (hq : s.ptr q ≠ 0) :
    Grown p.ino s (mapIblock s (s.ptr q) j true).2 ∧
      (mapIblock s (s.ptr q) j true).1 = (mapIblock s (s.ptr q) j true).2.ptr p :=
  mapIblock_fills hpq hq (Grown.refl h p.ino) (h.fills hp (cell_named hpq hq))

/-- The places `_minix_bmap` goes through for block `n`: those of block numbers
and the place of the block. -/
def OnPath (ino n : Nat) (p : Place) : Prop :=
  p.ino = ino ∧ (p.table = true ∨ p = dataPlace ino n)

theorem minixBmap_steps {ino n : Nat} {G : Fs → Prop} (hgood : ∀ {a b}, G a → R a b → G b)
    (htrans : ∀ {a b c}, R a b → R b c → R a c)
    (hzone : ∀ a k, G a → OnPath ino n (.zone ino k) →
      R a (mapIzone a ino k true).2 ∧
        (mapIzone a ino k true).1 = (mapIzone a ino k true).2.ptr (.zone ino k))
    (hblock : ∀ a p q j, G a → OnPath ino n p → p.parent = some (q, j) → a.ptr q ≠ 0 →
      R a (mapIblock a (a.ptr q) j true).2 ∧
        (mapIblock a (a.ptr q) j true).1 = (mapIblock a (a.ptr q) j true).2.ptr p)
    (h : G s) :
    R s (minixBmap s ino n true).2 ∧
      (minixBmap s ino n true).1 = (minixBmap s ino n true).2.zoneOf ino n := by
  have hdata : OnPath ino n (dataPlace ino n) := ⟨dataPlace_ino ino n, Or.inr rfl⟩
  unfold minixBmap Fs.zoneOf
  unfold dataPlace at hdata ⊢
  by_cases h7 : n < 7
  · rw [dif_pos h7] at hdata
    rw [dif_pos h7, dif_pos h7]
    exact hzone s _ h hdata
  · rw [dif_neg h7] at hdata
    rw [dif_neg h7, dif_neg h7]
    by_cases h512 : n - 7 < 512
    · rw [dif_pos h512] at hdata
      rw [if_pos h512, dif_pos h512]
      obtain ⟨hg, hr⟩ := hzone s indZone h ⟨rfl, Or.inl rfl⟩
      have hj : entryIndex (n - 7) = ⟨n - 7, h512⟩ := Fin.ext (Nat.mod_eq_of_lt h512)
      generalize hm : mapIzone s ino indZone true = m at hg hr
      obtain ⟨i, s1⟩ := m
      dsimp only at hg hr ⊢
      by_cases hi0 : i = 0
      · rw [if_neg (not_not.mpr hi0)]
        refine ⟨hg, ?_⟩
        rw [ptr_of_parent s1 (p := .ind ino ⟨n - 7, h512⟩) rfl, ← hr, hi0, through_zero]
      · have hb := hblock s1 _ _ _ (hgood h hg) hdata rfl (by rw [← hr]; exact hi0)
        rw [← hr] at hb
        rw [if_pos hi0, hj]
        exact ⟨htrans hg hb.1, hb.2⟩
    · rw [dif_neg h512] at hdata
      rw [if_neg h512, dif_neg h512]
      obtain ⟨hg, hr⟩ := hzone s dindZone h ⟨rfl, Or.inl rfl⟩
      generalize hm : mapIzone s ino dindZone true = m at hg hr
      obtain ⟨i, s1⟩ := m
      dsimp only at hg hr ⊢
      by_cases hi0 : i = 0
      · rw [if_neg (not_not.mpr hi0)]
        refine ⟨hg, ?_⟩
        rw [ptr_of_parent s1 (p := .leaf ino _ _) rfl,
          ptr_of_parent s1 (p := .dind ino _) rfl, ← hr, hi0, through_zero, through_zero]
      · rw [if_pos hi0]
        have hb := hblock s1 (.dind ino (entryIndex ((n - 7 - 512) / 512))) _ _ (hgood h hg)
          ⟨rfl, Or.inl rfl⟩ rfl (by rw [← hr]; exact hi0)
        rw [← hr] at hb
        obtain ⟨hg', hr'⟩ := hb
        generalize hm' : mapIblock s1 i (entryIndex ((n - 7 - 512) / 512)) true = m' at hg' hr'
        obtain ⟨i', s2⟩ := m'
        dsimp only at hg' hr' ⊢
        by_cases hi0' : i' = 0
        · rw [if_neg (not_not.mpr hi0')]
          refine ⟨htrans hg hg', ?_⟩
          change i' = s2.through
            (s2.ptr (.dind ino (entryIndex ((n - 7 - 512) / 512)))) (entryIndex (n - 7 - 512))
          rw [← hr', hi0', through_zero]
        · rw [if_pos hi0']
          have hb' := hblock s2 _ _ _ (hgood (hgood h hg) hg') hdata rfl
            (by change s2.ptr (.dind ino (entryIndex ((n - 7 - 512) / 512))) ≠ 0
                rw [← hr']
                exact hi0')
          have he : s2.ptr (.dind ino ⟨(n - 7 - 512) / 512 % 512, Nat.mod_lt _ (by decide)⟩) = i' :=
            hr'.symm
          rw [he] at hb'
          exact ⟨htrans (htrans hg hg') hb'.1, hb'.2⟩

theorem minixBmap_create (h : Owned s) (hi : s.holdsZones ino) (n : Nat) :
    Grown ino s (minixBmap s ino n true).2 ∧
      (minixBmap s ino n true).1 = (minixBmap s ino n true).2.zoneOf ino n := by
  refine minixBmap_steps (G := fun a => Owned a ∧ a.holdsZones ino) (R := Grown ino)
    (fun ha hab => ⟨hab.owned, (hab.attrs.holdsZones ino).mpr ha.2⟩) Grown.trans
    (fun a k ha _ => mapIzone_create ha.1 ha.2 k) (fun a p q j ha hp hpq hq => ?_) ⟨h, hi⟩
  have hlive : a.live p := by
    unfold Fs.live
    rw [hp.1]
    exact ha.2
  have hb := mapIblock_create ha.1 hpq hlive hq
  rwa [hp.1] at hb

/-- The buffer of a block number that is in a place. -/
def bufferOf (z : Nat) : Option Nat :=
  if z = 0 then none else some z

theorem bufferOf_eq_none : bufferOf z = none ↔ z = 0 := by
  unfold bufferOf
  split <;> simp_all

theorem bufferOf_eq_some {z bh : Nat} : bufferOf z = some bh ↔ z ≠ 0 ∧ z = bh := by
  unfold bufferOf
  split <;> simp_all

theorem minixGetblk_find (s : Fs) (ino n : Nat) :
    minixGetblk s ino n false = (bufferOf (s.zoneOf ino n), s) := by
  unfold minixGetblk bufferOf
  rw [minixBmap_find]
  dsimp only
  split <;> simp_all

theorem minixGetblk_create (h : Owned s) (hi : s.holdsZones ino) (n : Nat) :
    ∃ s1, Grown ino s s1 ∧ minixGetblk s ino n true = (bufferOf (s1.zoneOf ino n), s1) := by
  obtain ⟨hgrown, hplace⟩ := minixBmap_create h hi n
  refine ⟨(minixBmap s ino n true).2, hgrown, ?_⟩
  unfold minixGetblk bufferOf
  rw [← hplace]
  dsimp only
  split <;> simp_all

end Create

end Minix
end Elks
