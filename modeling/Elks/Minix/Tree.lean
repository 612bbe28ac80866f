import Elks.Minix.Bitmap

/-!
# The block trees of the inodes in use

The places of the inodes in use own the zones of the file system exclusively:
that is `Owned`.  This module says what the writes of the source do to the
places.

* A store through the cell of a place changes that place and no other, when the
  block number taken out names no block of block numbers still in use and the
  one put in names a cleared block that nobody holds.
* A write to a data block changes no place.

`Fs.fileBlock` is what a reader of a file finds: the block a place names, and
zeros where it names none.
-/

namespace Elks
namespace Minix

open Lib
open Buffer (Block blockSize)
open Function (update update_of_ne update_self)

/-- The inodes whose fields `i_zone` are block numbers: those in use that are
not devices. -/
def Fs.holdsZones (s : Fs) (i : Nat) : Prop :=
  s.inodeTaken i = true ∧ hasFormat sIfchr (s.inode i).iMode = false ∧
    hasFormat sIfblk (s.inode i).iMode = false

/-- The places of the inodes that hold zones. -/
def Fs.live (s : Fs) (p : Place) : Prop :=
  s.holdsZones p.ino

/-- The zones that may be held. -/
def Fs.held (s : Fs) (z : Nat) : Prop :=
  s.inZones z ∧ s.zoneTaken z = true

/-- The bit maps are those of a mounted file system and its inodes own their
zones exclusively. -/
structure Owned (s : Fs) : Prop where
  zones : ZonesMounted s
  inodes : InodesMounted s
  exclusive : Exclusive s.live s.ptr s.held

/-- The block number of block `n` of a file. -/
def Fs.zoneOf (s : Fs) (i n : Nat) : Nat :=
  s.ptr (dataPlace i n)

/-- Block `n` of a file as a reader finds it. -/
def Fs.fileBlock (s : Fs) (i n : Nat) : Block :=
  if s.zoneOf i n = 0 then zeroBlock else s.block (s.zoneOf i n)

section Store

variable {s : Fs} {p : Place} {v z : Nat}

theorem fetch_store_word (s : Fs) (z z' : Nat) (j j' : Fin 512) (hv : v < 65536) :
    word ((s.store (.word z j) v).block z') j' =
      if z' = z ∧ j' = j then v else word (s.block z') j' := by
  unfold Fs.store Fs.putBlock
  by_cases hz : z' = z
  · subst hz
    dsimp only
    rw [update_self]
    by_cases hj : j' = j
    · rw [if_pos ⟨rfl, hj⟩, hj, word_putWord_same _ _ hv]
    · rw [if_neg (fun h => hj h.2), word_putWord_ne _ _ hj]
  · dsimp only
    rw [update_of_ne hz, if_neg (fun h => hz h.1)]

theorem ptr_store_zone (s : Fs) (p : Place) (v i : Nat) (k : Fin 9) :
    (s.store (s.cell p) v).ptr (.zone i k) = update s.ptr p v (.zone i k) := by
  cases hp : p.parent with
  | some rj =>
      have hne : Place.zone i k ≠ p := by
        rintro rfl
        simp [Place.parent] at hp
      rw [cell_of_parent s hp, update_of_ne hne]
      rfl
  | none =>
      cases p <;> simp only [Place.parent, reduceCtorEq] at hp
      rename_i i' k'
      simp only [Fs.cell, Fs.store, Fs.setZone, Fs.modInode, Fs.ptr]
      by_cases hi : i = i'
      · subst hi
        rw [update_self]
        dsimp only
        by_cases hk : k = k'
        · rw [hk, update_self, update_self]
        · rw [update_of_ne hk, update_of_ne (by simp [hk])]
          rfl
      · rw [update_of_ne hi, update_of_ne (by simp [hi])]
        rfl

theorem word_store_cell (s : Fs) (hv : v < 65536) (j : Fin 512)
    (hz : ∀ q k, p.parent = some (q, k) → z = s.ptr q → j ≠ k) :
    word ((s.store (s.cell p) v).block z) j = word (s.block z) j := by
  cases hp : p.parent with
  | none =>
      cases p <;> simp only [Place.parent, reduceCtorEq] at hp
      rfl
  | some qk =>
      obtain ⟨q, k⟩ := qk
      rw [cell_of_parent s hp, fetch_store_word _ _ _ _ _ hv,
        if_neg (fun h => hz q k hp h.1 h.2)]

theorem block_store_cell (s : Fs) (hz : ∀ q k, p.parent = some (q, k) → s.ptr q ≠ z) :
    (s.store (s.cell p) v).block z = s.block z := by
  cases hp : p.parent with
  | none =>
      cases p <;> simp only [Place.parent, reduceCtorEq] at hp
      rfl
  | some qk =>
      obtain ⟨q, k⟩ := qk
      rw [cell_of_parent s hp]
      unfold Fs.store Fs.putBlock
      dsimp only
      rw [update_of_ne (hz q k hp).symm]

theorem live_parent {p q : Place} {j : Fin 512} (h : p.parent = some (q, j)) (hp : s.live p) :
    s.live q := by
  unfold Fs.live at hp ⊢
  rwa [Place.parent_ino h]

theorem ptr_store (huniq : ∀ q r, s.live q → s.live r → s.ptr q ≠ 0 → s.ptr q = s.ptr r → q = r)
    (hp : s.live p) (hv : v < 65536) (hcell : ∀ q j, p.parent = some (q, j) → s.ptr q ≠ 0)
    (hempty : ∀ q j, q.parent = some (p, j) → s.ptr q = 0)
    (hblank : v ≠ 0 → ∀ j, word (s.block v) j = 0) (hfresh : v ≠ 0 → ∀ q, s.live q → s.ptr q ≠ v)
    (q : Place) (hq : s.live q) : (s.store (s.cell p) v).ptr q = update s.ptr p v q := by
  induction q using Place.induct with
  | root i k => exact ptr_store_zone s p v i k
  | child q r j hqr ih =>
      have hr : s.live r := live_parent hqr hq
      rw [ptr_of_parent _ hqr, ih hr]
      by_cases hrp : r = p
      · subst hrp
        rw [update_self, update_of_ne (Place.parent_ne hqr).symm,
          hempty q j hqr, Fs.through]
        split
        · rfl
        · rename_i hv0
          rw [word_store_cell s hv j
            (fun t k ht he => absurd he.symm (hfresh hv0 t (live_parent ht hr)))]
          exact hblank hv0 j
      · rw [update_of_ne hrp, Fs.through]
        have hqold := ptr_of_parent s hqr
        rw [Fs.through] at hqold
        split
        · rename_i hr0
          rw [if_pos hr0] at hqold
          rw [update_of_ne (fun he => hcell r j (by rw [← he, hqr]) hr0), hqold]
        · rename_i hr0
          rw [if_neg hr0] at hqold
          by_cases hqp : q = p
          · subst hqp
            rw [update_self, cell_of_parent s hqr, fetch_store_word _ _ _ _ _ hv,
              if_pos ⟨rfl, rfl⟩]
          · rw [update_of_ne hqp, hqold]
            refine word_store_cell s hv j (fun t k ht he hjk => hqp ?_)
            have hrt : r = t := huniq r t hr (live_parent ht hp) hr0 he
            exact Place.parent_inj hqr (by rw [ht, hrt, hjk])

theorem ptr_putBlock {z : Nat} {b : Block} (h : ∀ q, s.live q → q.table = true → s.ptr q ≠ z)
    (q : Place) (hq : s.live q) : (s.putBlock z b).ptr q = s.ptr q := by
  induction q using Place.induct with
  | root i k => rfl
  | child q r j hqr ih =>
      have hr : s.live r := live_parent hqr hq
      rw [ptr_of_parent _ hqr, ptr_of_parent s hqr, ih hr]
      unfold Fs.through Fs.putBlock
      dsimp only
      rw [update_of_ne (h r hr (Place.parent_table hqr))]

end Store

section Steps

variable {s s' s'' : Fs}

/-- The numbers of the file system that no operation changes. -/
structure SameSuper (s s' : Fs) : Prop where
  ninodes : s'.sNinodes = s.sNinodes
  nzones : s'.sNzones = s.sNzones
  first : s'.sFirstdatazone = s.sFirstdatazone
  flags : s'.sFlags = s.sFlags

theorem SameSuper.refl (s : Fs) : SameSuper s s :=
  ⟨rfl, rfl, rfl, rfl⟩

theorem SameSuper.trans (h : SameSuper s s') (h' : SameSuper s' s'') :
    SameSuper s s'' :=
  ⟨h'.ninodes.trans h.ninodes, h'.nzones.trans h.nzones, h'.first.trans h.first,
    h'.flags.trans h.flags⟩

/-- Nothing of the inodes changed but the fields `i_zone`. -/
def SameAttrs (s s' : Fs) : Prop :=
  s'.sImap = s.sImap ∧
    ∀ k, s'.inode k = { s.inode k with iZone := (s'.inode k).iZone }

theorem SameAttrs.refl (s : Fs) : SameAttrs s s :=
  ⟨rfl, fun _ => rfl⟩

theorem SameAttrs.trans (h : SameAttrs s s') (h' : SameAttrs s' s'') : SameAttrs s s'' := by
  refine ⟨h'.1.trans h.1, fun k => ?_⟩
  rw [h'.2 k, h.2 k]

theorem SameAttrs.holdsZones (h : SameAttrs s s') (k : Nat) : s'.holdsZones k ↔ s.holdsZones k := by
  unfold Fs.holdsZones Fs.inodeTaken
  rw [h.1, h.2 k]

theorem SameAttrs.live (h : SameAttrs s s') (p : Place) :
    s'.live p ↔ s.live p :=
  h.holdsZones p.ino

theorem sameAttrs_store (s : Fs) (c : Cell) (v : Nat) : SameAttrs s (s.store c v) := by
  refine ⟨by cases c <;> rfl, fun k => ?_⟩
  cases c with
  | word z j => rfl
  | zone i k' =>
      by_cases hk : k = i
      · subst hk
        simp [Fs.store, Fs.setZone, Fs.modInode]
      · simp [Fs.store, Fs.setZone, Fs.modInode, update_of_ne hk]

theorem sameSuper_store (s : Fs) (c : Cell) (v : Nat) : SameSuper s (s.store c v) := by
  cases c <;> exact ⟨rfl, rfl, rfl, rfl⟩

theorem sZmap_store (s : Fs) (c : Cell) (v : Nat) : (s.store c v).sZmap = s.sZmap := by
  cases c <;> rfl

theorem ZonesMounted.congr (h : ZonesMounted s) (hs : SameSuper s s') (hm : s'.sZmap = s.sZmap) :
    ZonesMounted s' := by
  obtain ⟨hpos, hlt, hcov⟩ := h
  refine ⟨by rw [hs.first]; exact hpos, by rw [hs.nzones]; exact hlt, ?_⟩
  rw [hm, hs.first, hs.nzones]
  exact hcov

theorem InodesMounted.congr (h : InodesMounted s) (hs : SameSuper s s') (hm : s'.sImap = s.sImap) :
    InodesMounted s' := by
  obtain ⟨hlt, hcov⟩ := h
  refine ⟨by rw [hs.ninodes]; exact hlt, ?_⟩
  rw [hm, hs.ninodes]
  exact hcov

theorem SameSuper.inZones (h : SameSuper s s') (z : Nat) : s'.inZones z ↔ s.inZones z := by
  unfold Fs.inZones
  rw [h.first, h.nzones]

/-- Zones were added to inode `i`, all of them cleared, and nothing else
happened: what was held is held still, every file reads as before, and a zone
newly taken is held by `i`. -/
structure Grown (i : Nat) (s s' : Fs) : Prop where
  super : SameSuper s s'
  attrs : SameAttrs s s'
  owned : Owned s'
  ptr_kept : ∀ p, s.live p → s.ptr p ≠ 0 → s'.ptr p = s.ptr p
  ptr_other : ∀ p, s.live p → p.ino ≠ i → s'.ptr p = s.ptr p
  fileBlock : ∀ k n, s.holdsZones k → s'.fileBlock k n = s.fileBlock k n
  taken : ∀ z, s.inZones z → s'.zoneTaken z = true →
    s.zoneTaken z = true ∨ ∃ p, s.live p ∧ p.ino = i ∧ s'.ptr p = z

theorem Grown.refl {s : Fs} (h : Owned s) (i : Nat) : Grown i s s where
  super := SameSuper.refl s
  attrs := SameAttrs.refl s
  owned := h
  ptr_kept := fun _ _ _ => rfl
  ptr_other := fun _ _ _ => rfl
  fileBlock := fun _ _ _ => rfl
  taken := fun _ _ ht => Or.inl ht

theorem Grown.trans {i : Nat} (h : Grown i s s') (h' : Grown i s' s'') :
    Grown i s s'' where
  super := h.super.trans h'.super
  attrs := h.attrs.trans h'.attrs
  owned := h'.owned
  ptr_kept := fun p hp h0 => by
    have he := h.ptr_kept p hp h0
    rw [h'.ptr_kept p ((h.attrs.live p).mpr hp) (he ▸ h0), he]
  ptr_other := fun p hp hne => by
    rw [h'.ptr_other p ((h.attrs.live p).mpr hp) hne, h.ptr_other p hp hne]
  fileBlock := fun k n hk => by
    rw [h'.fileBlock k n ((h.attrs.holdsZones k).mpr hk), h.fileBlock k n hk]
  taken := fun z hz ht => by
    rcases h'.taken z ((h.super.inZones z).mpr hz) ht with ht' | ⟨p, hp, hpi, hpz⟩
    · rcases h.taken z hz ht' with ht'' | ⟨p, hp, hpi, hpz⟩
      · exact Or.inl ht''
      · have hz0 : z ≠ 0 := by
          have hpos := h'.owned.zones.first_pos
          have hfirst := (h.super.trans h'.super).first
          have hlo := hz.1
          omega
        refine Or.inr ⟨p, hp, hpi, ?_⟩
        rw [h'.ptr_kept p ((h.attrs.live p).mpr hp) (hpz ▸ hz0), hpz]
    · exact Or.inr ⟨p, (h.attrs.live p).mp hp, hpi, hpz⟩

end Steps

end Minix
end Elks
