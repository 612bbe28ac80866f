import Elks.Minix.Bmap

/-!
# Giving the blocks of a file back (fs/minix/truncate.c)

`minix_truncate` walks the tree of an inode: first the seven direct blocks,
then the indirect block, then the double indirect block.  A block whose buffer
somebody else still uses is left for another round, and a block of block
numbers goes only when all its entries are zero.  Which buffers are in use may
differ from round to round; `held` says it for one round.

* The arithmetic is that of 16-bit integers, so from the sixty-third entry of
  the double indirect block on `offset + (i << 9)` overflows and the entries of
  some blocks of block numbers are passed over.
* Both callers set `i_size` to zero first.  A size from 32 megabytes on would
  send the first loop to negative indices, which the model leaves out.

The result of each loop is `Shrunk`: places of the inode were emptied and the
zones they held given back, and nothing else happened.
-/

namespace Elks
namespace Minix

open Lib
open Buffer (Block blockSize)

section Code

/-- Conversion to a 16-bit `int`. -/
def int16 (n : Int) : Int :=
  n.bmod 65536

theorem int16_of_lt {k : Nat} (h : k < 32768) : int16 k = k := by
  unfold int16 Int.bmod
  dsimp only
  split <;> omega

theorem int16_eq_natCast {k n : Nat} (hle : k ≤ n) (h : int16 k = n) : k = n := by
  unfold int16 Int.bmod at h
  dsimp only at h
  split at h <;> omega

theorem int16_neg {k : Nat} (hlo : 32768 ≤ k) (hhi : k < 65536) : int16 k < 0 := by
  unfold int16 Int.bmod
  dsimp only
  split <;> omega

/-- `DIRECT_BLOCK`. -/
def directBlock (s : Fs) (ino : Nat) : Nat :=
  wrap 32 ((s.inode ino).iSize + 1023) / 1024

/-- `INDIRECT_BLOCK(offset)`. -/
def indirectBlock (s : Fs) (ino : Nat) (offset : Int) : Int :=
  int16 (int16 (directBlock s ino) - offset)

/-- `DINDIRECT_BLOCK(offset)`. -/
def dindirectBlock (s : Fs) (ino : Nat) (offset : Int) : Int :=
  indirectBlock s ino offset / 512

/-- The body of the loops over block numbers: free the block of one cell. -/
def truncCell (held : Nat → Bool) (p : Cell) (a : Bool × Fs) : Bool × Fs :=
  if a.2.fetch p = 0 then a
  else if held (a.2.fetch p) then (true, a.2)
  else (a.1, minixFreeBlock (a.2.store p 0) (a.2.fetch p))

/-- The indices of a loop `for (i = start; i < n; i++)` below zero none. -/
def indicesFrom (n : Nat) (start : Int) : List (Fin n) :=
  (List.finRange n).filter fun i => start ≤ i.val

/-- The end of both table functions: a block of zeros is freed. -/
def truncTable (held : Nat → Bool) (p : Cell) (tmp : Nat) (a : Bool × Fs) : Bool × Fs :=
  if ∀ j, word (a.2.block tmp) j = 0 then
    if held tmp then (true, a.2)
    else (a.1, minixFreeBlock (a.2.store p 0) (a.2.fetch p))
  else a

/-- `V1_trunc_direct`. -/
def v1TruncDirect (held : Nat → Bool) (s : Fs) (ino : Nat) : Bool × Fs :=
  (indicesFrom 7 (int16 (directBlock s ino))).foldl
    (fun a i => truncCell held (.zone ino (directZone i)) a) (false, s)

/-- `V1_trunc_indirect`. -/
def v1TruncIndirect (held : Nat → Bool) (s : Fs) (ino : Nat) (offset : Int) (p : Cell) :
    Bool × Fs :=
  let tmp := s.fetch p
  if tmp = 0 then (false, s)
  else
    truncTable held p tmp <|
      (indicesFrom 512 (indirectBlock s ino offset)).foldl
        (fun a i => truncCell held (.word tmp i) a) (false, s)

/-- `retry |= f(...)`. -/
def orRetry (retry : Bool) (a : Bool × Fs) : Bool × Fs :=
  (retry || a.1, a.2)

@[simp]
theorem orRetry_snd (retry : Bool) (a : Bool × Fs) :
    (orRetry retry a).2 = a.2 :=
  rfl

/-- `V1_trunc_dindirect`. -/
def v1TruncDindirect (held : Nat → Bool) (s : Fs) (ino : Nat) (offset : Int) (p : Cell) :
    Bool × Fs :=
  let tmp := s.fetch p
  if tmp = 0 then (false, s)
  else
    truncTable held p tmp <|
      (indicesFrom 512 (dindirectBlock s ino offset)).foldl
        (fun a (i : Fin 512) =>
          orRetry a.1
            (v1TruncIndirect held a.2 ino (int16 (offset + int16 (i.val * 512))) (.word tmp i)))
        (false, s)

/-- One turn of the loop of `minix_truncate`. -/
def truncRound (held : Nat → Bool) (s : Fs) (ino : Nat) : Bool × Fs :=
  let direct := v1TruncDirect held s ino
  let indirect := v1TruncIndirect held direct.2 ino 7 (.zone ino indZone)
  orRetry direct.1
    (orRetry indirect.1 (v1TruncDindirect held indirect.2 ino (7 + 512) (.zone ino dindZone)))

/-- The loop of `minix_truncate`: one entry of the list for each turn. -/
def truncRounds (s : Fs) (ino : Nat) : List (Nat → Bool) → Except Fault Fs
  | [] => .error .endless
  | held :: rest =>
      let round := truncRound held s ino
      if round.1 then truncRounds round.2 ino rest else .ok round.2

/-- `minix_truncate`. -/
def minixTruncate (rounds : List (Nat → Bool)) (s : Fs) (ino : Nat) : Except Fault Fs :=
  if hasFormat sIfreg (s.inode ino).iMode || hasFormat sIfdir (s.inode ino).iMode ||
      hasFormat sIflnk (s.inode ino).iMode then
    truncRounds s ino rounds
  else .ok s

end Code

section Shrunk

/-- Some places of `P` were emptied and their zones given back, and nothing else
happened. -/
structure Shrunk (P : Place → Prop) (s s' : Fs) : Prop where
  super : SameSuper s s'
  attrs : SameAttrs s s'
  owned : Owned s'
  ptr_other : ∀ p, s.live p → ¬ P p → s'.ptr p = s.ptr p
  ptr_gone : ∀ p, s.live p → s'.ptr p = 0 ∨ s'.ptr p = s.ptr p
  fileBlock : ∀ k n, s.holdsZones k → ¬ P (dataPlace k n) →
    s'.fileBlock k n = s.fileBlock k n
  taken : ∀ z, s.inZones z → s'.zoneTaken z = true → s.zoneTaken z = true
  freed : ∀ p, s.live p → s.ptr p ≠ 0 → s'.ptr p = 0 → s'.zoneTaken (s.ptr p) = false

variable {P Q : Place → Prop} {s s' s'' : Fs}

theorem Shrunk.refl (h : Owned s) : Shrunk P s s where
  super := SameSuper.refl s
  attrs := SameAttrs.refl s
  owned := h
  ptr_other := fun _ _ _ => rfl
  ptr_gone := fun _ _ => Or.inr rfl
  fileBlock := fun _ _ _ _ => rfl
  taken := fun _ _ ht => ht
  freed := fun _ _ h0 h0' => absurd h0' h0

theorem Shrunk.trans (h0 : Owned s) (h : Shrunk P s s') (h' : Shrunk P s' s'') :
    Shrunk P s s'' where
  super := h.super.trans h'.super
  attrs := h.attrs.trans h'.attrs
  owned := h'.owned
  ptr_other := fun p hp hne => by
    rw [h'.ptr_other p ((h.attrs.live p).mpr hp) hne, h.ptr_other p hp hne]
  ptr_gone := fun p hp => by
    rcases h'.ptr_gone p ((h.attrs.live p).mpr hp) with he | he
    · exact Or.inl he
    · rw [he]
      exact h.ptr_gone p hp
  fileBlock := fun k n hk hne => by
    rw [h'.fileBlock k n ((h.attrs.holdsZones k).mpr hk) hne, h.fileBlock k n hk hne]
  taken := fun z hz ht =>
    h.taken z hz (h'.taken z ((h.super.inZones z).mpr hz) ht)
  freed := fun p hp hp0 hp0'' => by
    have hin : s.inZones (s.ptr p) := (h0.exclusive.taken_of_held p hp hp0).1
    rcases h.ptr_gone p hp with he | he
    · have hfree := h.freed p hp hp0 he
      by_contra hc
      have ht := h'.taken _ ((h.super.inZones _).mpr hin) (by simpa using hc)
      rw [hfree] at ht
      exact absurd ht (by decide)
    · rw [← he]
      exact h'.freed p ((h.attrs.live p).mpr hp) (he ▸ hp0) hp0''

theorem Shrunk.mono (h : Shrunk P s s') (hPQ : ∀ p, P p → Q p) : Shrunk Q s s' :=
  { h with
    ptr_other := fun p hp hne => h.ptr_other p hp fun hc => hne (hPQ p hc)
    fileBlock := fun k n hk hne => h.fileBlock k n hk fun hc => hne (hPQ _ hc) }

theorem Shrunk.cell_eq (h : Shrunk P s s') {q : Place} (hq : s.live q)
    (hparent : ∀ r j, q.parent = some (r, j) → ¬ P r) : s'.cell q = s.cell q := by
  cases hqq : q.parent with
  | none => cases q <;> simp_all [Place.parent, Fs.cell]
  | some rj =>
      obtain ⟨r, j⟩ := rj
      rw [cell_of_parent _ hqq, cell_of_parent s hqq,
        h.ptr_other r (live_parent hqq hq) (hparent r j hqq)]

theorem Owned.zoneTaken_release (h : Owned s) {z w : Nat} (hz : s.inZones z) (c : Cell)
    (hw : s.inZones w) :
    (minixFreeBlock (s.store c 0) z).zoneTaken w = if w = z then false else s.zoneTaken w := by
  have hsup := sameSuper_store s c 0
  have hzm : ZonesMounted (s.store c 0) := h.zones.congr hsup (sZmap_store _ _ _)
  obtain ⟨maps, hfree, -, hbits⟩ := hzm.freeBlock ((hsup.inZones _).mpr hz)
  have hb := hbits w (by rw [hsup.first]; exact hw.1)
  have hold : (s.store c 0).zoneTaken w = s.zoneTaken w := by
    unfold Fs.zoneTaken Fs.zoneBit
    rw [sZmap_store, hsup.first]
  rw [hold] at hb
  rw [hfree, ← hb]
  rfl

theorem Owned.release (h : Owned s) {p : Place} (hp : s.live p) (h0 : s.ptr p ≠ 0)
    (hchild : ∀ q j, q.parent = some (p, j) → s.ptr q = 0) :
    Shrunk (· = p) s (minixFreeBlock (s.store (s.cell p) 0) (s.ptr p)) := by
  have hin : s.inZones (s.ptr p) := (h.exclusive.taken_of_held p hp h0).1
  have hcell : ∀ q j, p.parent = some (q, j) → s.ptr q ≠ 0 := by
    intro q j hq hq0
    rw [ptr_of_parent s hq, hq0, through_zero] at h0
    exact h0 rfl
  have hsup := sameSuper_store s (s.cell p) 0
  have hatt := sameAttrs_store s (s.cell p) 0
  have hzm : ZonesMounted (s.store (s.cell p) 0) := h.zones.congr hsup (sZmap_store _ _ _)
  obtain ⟨maps, hfree, hmounted, -⟩ := hzm.freeBlock ((hsup.inZones _).mpr hin)
  have hptr : ∀ q, s.live q →
      (minixFreeBlock (s.store (s.cell p) 0) (s.ptr p)).ptr q =
        Function.update s.ptr p 0 q := by
    intro q hq
    have hstore := ptr_store h.exclusive.unique hp (by decide : (0 : Nat) < 65536) hcell hchild
      (fun hc => absurd rfl hc) (fun hc => absurd rfl hc) q hq
    rw [hfree, ← hstore]
    cases q <;> rfl
  have hblock : ∀ z, (∀ q j, p.parent = some (q, j) → s.ptr q ≠ z) →
      (minixFreeBlock (s.store (s.cell p) 0) (s.ptr p)).block z = s.block z := by
    intro z hz
    rw [hfree]
    exact block_store_cell s hz
  have hsuper : SameSuper s (minixFreeBlock (s.store (s.cell p) 0) (s.ptr p)) := by
    rw [hfree]
    exact ⟨hsup.ninodes, hsup.nzones, hsup.first, hsup.flags⟩
  have hattrs : SameAttrs s (minixFreeBlock (s.store (s.cell p) 0) (s.ptr p)) := by
    rw [hfree]
    exact hatt
  have htaken := fun w hw => h.zoneTaken_release hin (s.cell p) (w := w) hw
  have hgone : ∀ q, s.live q → q ≠ p →
      (minixFreeBlock (s.store (s.cell p) 0) (s.ptr p)).ptr q = s.ptr q := by
    intro q hq hqp
    rw [hptr q hq, Function.update_of_ne hqp]
  refine ⟨hsuper, hattrs, ⟨?_, ?_, ?_⟩, hgone, ?_, fun k n hk hne => ?_, ?_, ?_⟩
  · rw [hfree]
    exact hmounted
  · exact h.inodes.congr hsuper hattrs.1
  · have hrest : Exclusive s.live
        (minixFreeBlock (s.store (s.cell p) 0) (s.ptr p)).ptr
        (fun w => s.held w ∧ w ≠ s.ptr p) :=
      h.exclusive.release hp h0 hptr fun w hw hne => ⟨hw, hne⟩
    refine hrest.shrink (fun q hq _ => ⟨(hattrs.live q).mp hq, rfl⟩) ?_
    intro q _ _ hq
    obtain ⟨⟨hqin, hqt⟩, hqne⟩ := hq
    exact ⟨(hsuper.inZones _).mpr hqin, by rw [htaken _ hqin, if_neg hqne, hqt]⟩
  · intro q hq
    by_cases hqp : q = p
    · rw [hptr q hq, hqp, Function.update_self]
      exact Or.inl rfl
    · exact Or.inr (hgone q hq hqp)
  · have hd : s.live (dataPlace k n) := by
      unfold Fs.live
      rwa [dataPlace_ino]
    unfold Fs.fileBlock Fs.zoneOf
    rw [hgone _ hd hne]
    split
    · rfl
    · rename_i hd0
      refine hblock _ fun q j hq he => ?_
      have hqd : q = dataPlace k n :=
        (h.exclusive.unique _ _ hd (live_parent hq hp) hd0 he.symm).symm
      have htab := Place.parent_table hq
      rw [hqd, dataPlace_table] at htab
      exact absurd htab (by decide)
  · intro z hz ht
    rw [htaken z hz] at ht
    split at ht
    · exact absurd ht (by decide)
    · exact ht
  · intro q hq hq0 hq0'
    have hqp : q = p := by
      by_contra hqp
      rw [hgone q hq hqp] at hq0'
      exact hq0 hq0'
    rw [hqp, htaken _ hin, if_pos rfl]

end Shrunk

section Loops

variable {s : Fs} (held : Nat → Bool) {ino : Nat} {P : Place → Prop} {q : Place} {c : Cell}

theorem fold_shrunk {ι : Type} {f : Bool × Fs → ι → Bool × Fs} (h : Owned s)
    (hstep : ∀ r s' x, Shrunk P s s' → Shrunk P s' (f (r, s') x).2) (L : List ι) (a : Bool × Fs)
    (ha : Shrunk P s a.2) : Shrunk P s (L.foldl f a).2 := by
  induction L generalizing a with
  | nil => exact ha
  | cons x L ih =>
      exact ih (f a x) (ha.trans h (hstep a.1 a.2 x ha))

theorem truncCell_shrunk (h : Owned s) {p : Place} (hp : s.live p) (hdata : p.table = false)
    (hparent : ∀ q j, p.parent = some (q, j) → s.ptr q ≠ 0) (hc : s.cell p = c) (r : Bool) :
    Shrunk (· = p) s (truncCell held c (r, s)).2 := by
  unfold truncCell
  rw [← hc, fetch_cell hparent]
  split
  · exact Shrunk.refl h
  · rename_i h0
    split
    · exact Shrunk.refl h
    · refine h.release hp h0 fun q j hq => ?_
      rw [Place.parent_table hq] at hdata
      exact absurd hdata (by decide)

theorem truncTable_shrunk (h : Owned s) {tmp : Nat} (hq : s.live q) (hc : s.cell q = c)
    (htmp : s.ptr q = tmp) (h0 : tmp ≠ 0) (r : Bool) :
    Shrunk (· = q) s (truncTable held c tmp (r, s)).2 := by
  unfold truncTable
  rw [← hc, fetch_cell_of_ne (by rw [htmp]; exact h0)]
  split
  · rename_i hblank
    split
    · exact Shrunk.refl h
    · refine h.release hq (by rw [htmp]; exact h0) fun p j hp => ?_
      rw [ptr_of_parent s hp, htmp, Fs.through, if_neg h0]
      exact hblank j
  · exact Shrunk.refl h

theorem table_shrunk (h : Owned s) (hq : s.live q) (hq0 : s.ptr q ≠ 0) (hP : ¬ P q)
    (hPparent : ∀ r j, q.parent = some (r, j) → ¬ P r) {a : Bool × Fs} (ha : Shrunk P s a.2) :
    Shrunk (fun p => p = q ∨ P p) s (truncTable held (s.cell q) (s.ptr q) a).2 := by
  have hcell : a.2.cell q = s.cell q := ha.cell_eq hq hPparent
  have htable := truncTable_shrunk held ha.owned ((ha.attrs.live q).mpr hq) hcell
    (ha.ptr_other q hq hP) hq0 a.1
  exact (ha.mono fun p hp => Or.inr hp).trans h (htable.mono fun p hp => Or.inl hp)

theorem v1TruncDirect_shrunk (h : Owned s) (hi : s.holdsZones ino) :
    Shrunk (fun p => ∃ k : Fin 7, p = .zone ino (directZone k)) s
      (v1TruncDirect held s ino).2 := by
  refine fold_shrunk h ?_ _ _ (Shrunk.refl h)
  intro r s' k hs'
  have hdirect : ∀ k : Fin 7, (directZone k == indZone || directZone k == dindZone) = false := by
    decide
  have hlive : s'.live (.zone ino (directZone k)) := (hs'.attrs.holdsZones ino).mpr hi
  refine (truncCell_shrunk held hs'.owned hlive (hdirect k) ?_ rfl r).mono ?_
  · intro q j hq
    simp [Place.parent] at hq
  · rintro p rfl
    exact ⟨k, rfl⟩

theorem v1TruncIndirect_shrunk (h : Owned s) (hq : s.live q) (htable : q.table = true)
    (hdata : ∀ j, (q.child j).table = false) (hparent : ∀ r j, q.parent = some (r, j) → s.ptr r ≠ 0)
    (ino : Nat) (offset : Int) :
    Shrunk (fun p => p = q ∨ ∃ j, p = q.child j) s
      (v1TruncIndirect held s ino offset (s.cell q)).2 := by
  unfold v1TruncIndirect
  dsimp only
  rw [fetch_cell hparent]
  split
  · exact Shrunk.refl h
  · rename_i hq0
    have hout : ∀ r : Place, r.table = true → ¬ ∃ j, r = q.child j := by
      rintro r hr ⟨j, rfl⟩
      rw [hdata j] at hr
      exact absurd hr (by decide)
    refine table_shrunk held h hq hq0 (hout q htable)
      (fun r j hr => hout r (Place.parent_table hr)) ?_
    refine fold_shrunk h ?_ _ _ (Shrunk.refl h)
    intro r s' j hs'
    have hkept : s'.ptr q = s.ptr q := hs'.ptr_other q hq (hout q htable)
    have hj := Place.parent_child htable j
    have hlive : s.live (q.child j) := by
      unfold Fs.live at hq ⊢
      rwa [← Place.parent_ino hj]
    refine (truncCell_shrunk held hs'.owned ((hs'.attrs.live _).mpr hlive) (hdata j) ?_ ?_ r).mono ?_
    · intro t k ht
      rw [hj, Option.some.injEq, Prod.mk.injEq] at ht
      rw [← ht.1, hkept]
      exact hq0
    · rw [cell_of_parent s' hj, hkept]
    · rintro p rfl
      exact ⟨j, rfl⟩

theorem v1TruncDindirect_shrunk (h : Owned s) (hi : s.holdsZones ino) (offset : Int) :
    Shrunk (fun p => p.ino = ino) s
      (v1TruncDindirect held s ino offset (.zone ino dindZone)).2 := by
  unfold v1TruncDindirect
  dsimp only
  split
  · exact Shrunk.refl h
  · rename_i hq0
    have hlive : s.live (.zone ino dindZone) := hi
    have hmain := table_shrunk held h
      (P := fun p => ∃ j, p = .dind ino j ∨ ∃ l, p = .leaf ino j l) hlive hq0
      (by simp) (by simp [Place.parent])
      (a := (indicesFrom 512 (dindirectBlock s ino offset)).foldl
        (fun a (i : Fin 512) =>
          orRetry a.1 (v1TruncIndirect held a.2 ino (int16 (offset + int16 (i.val * 512)))
            (.word (s.ptr (.zone ino dindZone)) i))) (false, s)) ?_
    · refine hmain.mono ?_
      rintro p (rfl | ⟨j, rfl | ⟨l, rfl⟩⟩) <;> rfl
    · refine fold_shrunk h ?_ _ _ (Shrunk.refl h)
      intro r s' j hs'
      have hkept : s'.ptr (.zone ino dindZone) = s.ptr (.zone ino dindZone) :=
        hs'.ptr_other _ hlive (by simp)
      have hcell : s'.cell (.dind ino j) = .word (s.ptr (.zone ino dindZone)) j := by
        rw [cell_of_parent s' (p := .dind ino j) rfl, hkept]
      have hstep := v1TruncIndirect_shrunk held hs'.owned
        (q := .dind ino j) ((hs'.attrs.live _).mpr hi) rfl (fun l => rfl)
        (by
          intro t k ht
          simp only [Place.parent, Option.some.injEq, Prod.mk.injEq] at ht
          rw [← ht.1, hkept]
          exact hq0)
        ino (int16 (offset + int16 (j.val * 512)))
      rw [hcell] at hstep
      refine hstep.mono ?_
      rintro p (rfl | ⟨l, rfl⟩)
      · exact ⟨j, Or.inl rfl⟩
      · exact ⟨j, Or.inr ⟨l, rfl⟩⟩

/-- One turn of the loop of `minix_truncate` empties places of the inode only. -/
theorem truncRound_shrunk (h : Owned s) (hi : s.holdsZones ino) :
    Shrunk (fun p => p.ino = ino) s (truncRound held s ino).2 := by
  have h1 := (v1TruncDirect_shrunk held h hi).mono
    (Q := fun p => p.ino = ino) (by rintro p ⟨k, rfl⟩; rfl)
  have hi1 := (h1.attrs.holdsZones ino).mpr hi
  have h2 := (v1TruncIndirect_shrunk held h1.owned (q := .zone ino indZone) hi1 rfl (fun j => rfl)
    (by simp [Place.parent]) ino 7).mono
    (Q := fun p => p.ino = ino) (by rintro p (rfl | ⟨j, rfl⟩) <;> rfl)
  rw [cell_zone] at h2
  have hi2 := (h2.attrs.holdsZones ino).mpr hi1
  have h3 := v1TruncDindirect_shrunk held h2.owned hi2 (7 + 512)
  rw [truncRound, orRetry_snd, orRetry_snd]
  exact (h1.trans h h2).trans h h3

theorem minixTruncate_shrunk (h : Owned s) (hi : s.holdsZones ino) {rounds : List (Nat → Bool)}
    {s' : Fs} (hrun : minixTruncate rounds s ino = .ok s') :
    Shrunk (fun p => p.ino = ino) s s' := by
  unfold minixTruncate at hrun
  split at hrun
  · clear * - h hi hrun
    induction rounds generalizing s with
    | nil => cases hrun
    | cons held rest ih =>
        have hround := truncRound_shrunk held h hi
        unfold truncRounds at hrun
        dsimp only at hrun
        split at hrun
        · exact hround.trans h (ih hround.owned ((hround.attrs.holdsZones ino).mpr hi) hrun)
        · rw [← Except.ok.inj hrun]
          exact hround
  · cases hrun
    exact Shrunk.refl h

end Loops

section Idle

/-- No other task has a buffer: the reference a loop just took is the only one. -/
def idle : Nat → Bool :=
  fun _ => false

theorem truncCell_idle (p : Cell) (a : Bool × Fs) : (truncCell idle p a).1 = a.1 := by
  unfold truncCell idle
  split <;> simp

theorem truncTable_idle (p : Cell) (tmp : Nat) (a : Bool × Fs) :
    (truncTable idle p tmp a).1 = a.1 := by
  unfold truncTable idle
  split <;> simp

theorem fold_calm {ι : Type} {f : Bool × Fs → ι → Bool × Fs}
    (hf : ∀ a x, a.1 = false → (f a x).1 = false) (L : List ι) (a : Bool × Fs) (ha : a.1 = false) :
    (L.foldl f a).1 = false := by
  induction L generalizing a with
  | nil => exact ha
  | cons x L ih => exact ih (f a x) (hf a x ha)

theorem v1TruncDirect_idle (s : Fs) (ino : Nat) :
    (v1TruncDirect idle s ino).1 = false :=
  fold_calm (fun a _ ha => (truncCell_idle _ a).trans ha) _ _ rfl

theorem v1TruncIndirect_idle (s : Fs) (ino : Nat) (offset : Int) (p : Cell) :
    (v1TruncIndirect idle s ino offset p).1 = false := by
  unfold v1TruncIndirect
  dsimp only
  split
  · rfl
  · rw [truncTable_idle]
    exact fold_calm (fun a _ ha => (truncCell_idle _ a).trans ha) _ _ rfl

theorem v1TruncDindirect_idle (s : Fs) (ino : Nat) (offset : Int) (p : Cell) :
    (v1TruncDindirect idle s ino offset p).1 = false := by
  unfold v1TruncDindirect
  dsimp only
  split
  · rfl
  · rw [truncTable_idle]
    refine fold_calm (fun a i ha => ?_) _ _ rfl
    rw [orRetry, ha, v1TruncIndirect_idle]
    rfl

theorem truncRound_idle (s : Fs) (ino : Nat) : (truncRound idle s ino).1 = false := by
  rw [truncRound, orRetry, orRetry, v1TruncDirect_idle, v1TruncIndirect_idle,
    v1TruncDindirect_idle]
  rfl

theorem minixTruncate_idle (s : Fs) (ino : Nat) : ∃ s', minixTruncate [idle] s ino = .ok s' := by
  unfold minixTruncate
  split
  · unfold truncRounds
    dsimp only
    rw [truncRound_idle]
    exact ⟨_, rfl⟩
  · exact ⟨s, rfl⟩

theorem iZone_truncCell_idle (s : Fs) (r : Bool) (ino : Nat) (k k' : Fin 9) :
    ((truncCell idle (.zone ino k) (r, s)).2.inode ino).iZone k' =
      if k' = k then 0 else (s.inode ino).iZone k' := by
  have hfree : ∀ (s : Fs) (z : Nat), (minixFreeBlock s z).inode = s.inode := by
    intro s z
    unfold minixFreeBlock
    split
    · rfl
    · split <;> rfl
  unfold truncCell idle
  simp only [Fs.fetch, Bool.false_eq_true, if_false]
  by_cases h0 : (s.inode ino).iZone k = 0
  · rw [if_pos h0]
    split
    · rename_i hk
      rw [hk, h0]
    · rfl
  · rw [if_neg h0]
    simp only [hfree, Fs.store, Fs.setZone, Fs.modInode, Function.update_self,
      Function.update_apply]

theorem v1TruncDirect_empties {s : Fs} {ino : Nat} (hsize : (s.inode ino).iSize = 0) (k : Fin 7) :
    ((v1TruncDirect idle s ino).2.inode ino).iZone (directZone k) = 0 := by
  have hstart : int16 (directBlock s ino) = 0 := by
    unfold directBlock
    rw [hsize]
    decide
  have hmem : k ∈ indicesFrom 7 (int16 (directBlock s ino)) := by
    rw [hstart]
    simp [indicesFrom]
  have hloop : ∀ (L : List (Fin 7)) (a : Bool × Fs),
      (k ∈ L ∨ (a.2.inode ino).iZone (directZone k) = 0) →
      ((L.foldl (fun a i => truncCell idle (.zone ino (directZone i)) a) a).2.inode
        ino).iZone (directZone k) = 0 := by
    intro L
    induction L with
    | nil =>
        intro a ha
        simpa using ha
    | cons i L ih =>
        intro a ha
        refine ih _ ?_
        rw [iZone_truncCell_idle]
        by_cases hki : k = i
        · exact Or.inr (if_pos (by rw [hki]))
        · rcases ha with hmem | h0
          · exact Or.inl ((List.mem_cons.mp hmem).resolve_left hki)
          · right
            split
            · rfl
            · exact h0
  rw [v1TruncDirect]
  exact hloop _ _ (Or.inl hmem)

end Idle

end Minix
end Elks
