import Elks.Minix.Ownership

/-!
# What exactly minix_truncate gives back (fs/minix/truncate.c)

With nobody else at the buffers of a file, one round of `minix_truncate` empties
a set of places that can be written down beforehand: `Gone`.  `Emptied` says of
two states that the places of a set were emptied, that their zones were given
back, and that nothing else was.

* The loop over `i_zone` starts at the number of blocks as an `int`, so from
  32768 blocks on it starts below zero.
* The loop over the entries of block `a` below the double indirect block starts
  at `leafStart`.  The difference it computes leaves the range of an `int` when
  the block begins more than 32768 blocks behind the new end, and then it starts
  too high.

`truncate_exact_iff` says that these two are all that goes wrong.
-/

namespace Elks
namespace Minix

open Lib

section Emptied

variable {p : Place}

/-- The places of `S` were emptied and the zones they held were given back; no
other place changed and no other zone was given back. -/
structure Emptied (S : Place → Prop) (s s' : Fs) : Prop extends Shrunk S s s' where
  gone : ∀ p, s.live p → S p → s'.ptr p = 0
  kept : ∀ z, s.inZones z → s.zoneTaken z = true →
    (∀ p, s.live p → s.ptr p = z → ¬ S p) → s'.zoneTaken z = true

variable {S T : Place → Prop} {s s' s'' : Fs}

theorem Emptied.refl (h : Owned s) : Emptied (fun _ => False) s s :=
  ⟨Shrunk.refl h, fun _ _ hc => hc.elim, fun _ _ ht _ => ht⟩

theorem Emptied.congr (h : Emptied S s s') (hST : ∀ p, s.live p → s.ptr p ≠ 0 → (S p ↔ T p)) :
    Emptied T s s' := by
  have hother : ∀ p, s.live p → ¬ T p → s'.ptr p = s.ptr p := by
    intro p hp hT
    by_cases hS : S p
    · have h0 : s.ptr p = 0 := by
        by_contra h0
        exact hT ((hST p hp h0).mp hS)
      rw [h.gone p hp hS, h0]
    · exact h.ptr_other p hp hS
  refine ⟨{ h.toShrunk with ptr_other := hother, fileBlock := fun k n hk hT => ?_ },
    fun p hp hT => ?_, fun z hz ht hno => ?_⟩
  · have hd : s.live (dataPlace k n) := by
      unfold Fs.live
      rwa [dataPlace_ino]
    by_cases hS : S (dataPlace k n)
    · have h0 : s.zoneOf k n = 0 := by
        by_contra h0
        exact hT ((hST _ hd h0).mp hS)
      have h0' : s'.zoneOf k n = 0 := h.gone _ hd hS
      rw [Fs.fileBlock, if_pos h0', Fs.fileBlock, if_pos h0]
    · exact h.fileBlock k n hk hS
  · by_cases h0 : s.ptr p = 0
    · exact (h.ptr_gone p hp).elim id fun he => he.trans h0
    · exact h.gone p hp ((hST p hp h0).mpr hT)
  · refine h.kept z hz ht fun p hp he hS => hno p hp he ((hST p hp ?_).mp hS)
    have hpos := h.owned.zones.first_pos
    have hlo := hz.1
    have hfirst := h.super.first
    omega

theorem Emptied.trans (h0 : Owned s) (h : Emptied S s s') (h' : Emptied T s' s'') :
    Emptied (fun p => S p ∨ T p) s s'' := by
  have hS := h.toShrunk.mono (Q := fun p => S p ∨ T p) fun p hp => Or.inl hp
  have hT := h'.toShrunk.mono (Q := fun p => S p ∨ T p) fun p hp => Or.inr hp
  refine ⟨hS.trans h0 hT, fun p hp hST => ?_, fun z hz ht hno => ?_⟩
  · have hp' := (h.attrs.live p).mpr hp
    rcases hST with hS | hT
    · exact (h'.ptr_gone p hp').elim id fun he => he.trans (h.gone p hp hS)
    · exact h'.gone p hp' hT
  · have ht' := h.kept z hz ht fun p hp he hS => hno p hp he (Or.inl hS)
    refine h'.kept z ((h.super.inZones z).mpr hz) ht' fun p hp' he hT => ?_
    have hp := (h.attrs.live p).mp hp'
    -- a place that holds a zone after the first step held it before
    rcases h.ptr_gone p hp with hgone | hsame
    · exact h0.inZones_ne_zero hz (he.symm.trans hgone)
    · exact hno p hp (hsame.symm.trans he) (Or.inr hT)

theorem Emptied.ptr_eq_zero (h : Emptied S s s') (hp : s.live p) :
    s'.ptr p = 0 ↔ (s.ptr p ≠ 0 → S p) := by
  constructor
  · intro h0 hne
    by_contra hS
    exact hne (by rw [← h.ptr_other p hp hS, h0])
  · intro hS
    by_cases h0 : s.ptr p = 0
    · exact (h.ptr_gone p hp).elim id fun he => he.trans h0
    · exact h.gone p hp (hS h0)

theorem Emptied.zoneTaken_eq_false (h0 : Owned s) (h : Emptied S s s') (hp : s.live p)
    (hne : s.ptr p ≠ 0) : s'.zoneTaken (s.ptr p) = false ↔ S p := by
  obtain ⟨hin, ht⟩ := h0.exclusive.taken_of_held p hp hne
  constructor
  · intro hfree
    by_contra hS
    have hkept := h.kept _ hin ht fun q hq he hSq => hS ?_
    · rw [hfree] at hkept
      exact absurd hkept (by decide)
    · rwa [h0.exclusive.unique p q hp hq hne he.symm]
  · intro hS
    exact h.freed p hp hne (h.gone p hp hS)

theorem Owned.release_emptied (h : Owned s) (hp : s.live p) (h0 : s.ptr p ≠ 0)
    (hchild : ∀ q j, q.parent = some (p, j) → s.ptr q = 0) :
    Emptied (· = p) s (minixFreeBlock (s.store (s.cell p) 0) (s.ptr p)) := by
  have hin : s.inZones (s.ptr p) := (h.exclusive.taken_of_held p hp h0).1
  have hshrunk := h.release hp h0 hchild
  refine ⟨hshrunk, fun q hq hqp => ?_, fun z hz ht hno => ?_⟩
  · rw [hqp]
    rcases hshrunk.ptr_gone p hp with he | he
    · exact he
    · -- the zone of the place is free, so no live place holds it
      have hfree := h.zoneTaken_release hin (s.cell p) hin
      rw [if_pos rfl] at hfree
      have hin' := (hshrunk.super.inZones _).mpr hin
      exact absurd he (hshrunk.owned.not_held hin' hfree ((hshrunk.attrs.live p).mpr hp))
  · rw [h.zoneTaken_release hin (s.cell p) hz, if_neg, ht]
    rintro rfl
    exact hno p hp rfl rfl

end Emptied

section Loops

variable {s : Fs} {q : Place}

/-- A loop whose turns empty sets that do not depend on one another. -/
theorem fold_emptied {ι : Type} {f : Bool × Fs → ι → Bool × Fs} {S : ι → Place → Prop} (h : Owned s)
    (hstep : ∀ x T r s', Emptied T s s' → (∀ p, T p → ∃ y, y ≠ x ∧ S y p) →
      Emptied (S x) s' (f (r, s') x).2)
    (L : List ι)
    (hL : L.Nodup)
    (T : Place → Prop)
    (hT : ∀ p, T p → ∃ y, y ∉ L ∧ S y p)
    (a : Bool × Fs)
    (ha : Emptied T s a.2) :
    Emptied (fun p => T p ∨ ∃ x ∈ L, S x p) s (L.foldl f a).2 := by
  induction L generalizing T a with
  | nil =>
      refine ha.congr fun p _ _ => ?_
      simp
  | cons x L ih =>
      obtain ⟨hx, hrest⟩ := List.nodup_cons.mp hL
      have hturn : Emptied (S x) a.2 (f (a.1, a.2) x).2 := by
        refine hstep x T a.1 a.2 ha fun p hp => ?_
        obtain ⟨y, hy, hyp⟩ := hT p hp
        exact ⟨y, fun he => hy (by rw [he]; exact List.mem_cons_self), hyp⟩
      have hloop := ih hrest (fun p => T p ∨ S x p) ?_ (f a x) (ha.trans h hturn)
      · refine hloop.congr fun p _ _ => ?_
        simp only [List.mem_cons, exists_eq_or_imp, or_assoc]
      · rintro p (hp | hp)
        · obtain ⟨y, hy, hyp⟩ := hT p hp
          exact ⟨y, fun hc => hy (List.mem_cons_of_mem _ hc), hyp⟩
        · exact ⟨x, hx, hp⟩

theorem loop_emptied {n : Nat} {f : Bool × Fs → Fin n → Bool × Fs} {S : Fin n → Place → Prop}
    (h : Owned s)
    (hstep : ∀ x T r s', Emptied T s s' → (∀ p, T p → ∃ y, y ≠ x ∧ S y p) →
      Emptied (S x) s' (f (r, s') x).2)
    (start : Int) :
    Emptied (fun p => ∃ x : Fin n, start ≤ x.val ∧ S x p) s
      ((indicesFrom n start).foldl f (false, s)).2 := by
  have hloop := fold_emptied h hstep (indicesFrom n start) ((List.nodup_finRange n).filter _)
    (fun _ => False) (fun _ hc => hc.elim) (false, s) (Emptied.refl h)
  refine hloop.congr fun p _ _ => ?_
  simp [indicesFrom]

theorem truncCell_emptied (h : Owned s) {p : Place} {c : Cell} (hp : s.live p)
    (hdata : p.table = false) (hparent : ∀ q j, p.parent = some (q, j) → s.ptr q ≠ 0)
    (hc : s.cell p = c) (r : Bool) : Emptied (· = p) s (truncCell idle c (r, s)).2 := by
  unfold truncCell idle
  rw [← hc, fetch_cell hparent]
  split
  · rename_i h0
    refine (Emptied.refl h).congr fun q _ hq => ?_
    rw [false_iff]
    rintro rfl
    exact hq h0
  · rename_i h0
    refine h.release_emptied hp h0 fun q j hq => ?_
    rw [Place.parent_table hq] at hdata
    exact absurd hdata (by decide)

theorem table_emptied (h : Owned s) {S : Place → Prop} (hq : s.live q) (htable : q.table = true)
    (hq0 : s.ptr q ≠ 0) (hS : ¬ S q) (hSparent : ∀ r j, q.parent = some (r, j) → ¬ S r)
    {a : Bool × Fs} (ha : Emptied S s a.2) :
    Emptied (fun p => S p ∨ p = q ∧ ∀ j, s.ptr (q.child j) ≠ 0 → S (q.child j)) s
      (truncTable idle (s.cell q) (s.ptr q) a).2 := by
  have hcell : a.2.cell q = s.cell q := ha.toShrunk.cell_eq hq hSparent
  have hkept : a.2.ptr q = s.ptr q := ha.ptr_other q hq hS
  have hchild : ∀ j, s.live (q.child j) := by
    intro j
    have hino := Place.parent_ino (Place.parent_child htable j)
    unfold Fs.live at hq ⊢
    rwa [← hino]
  have hword : ∀ j, a.2.ptr (q.child j) = word (a.2.block (s.ptr q)) j := by
    intro j
    rw [ptr_of_parent _ (Place.parent_child htable j), hkept, Fs.through, if_neg hq0]
  have hblank : (∀ j, word (a.2.block (s.ptr q)) j = 0) ↔
      ∀ j, s.ptr (q.child j) ≠ 0 → S (q.child j) := by
    refine forall_congr' fun j => ?_
    rw [← hword j]
    exact ha.ptr_eq_zero (hchild j)
  unfold truncTable idle
  split
  · rename_i hzero
    rw [if_neg (by decide), ← hcell, fetch_cell_of_ne (by rw [hkept]; exact hq0), hkept]
    have hfree := ha.owned.release_emptied ((ha.attrs.live q).mpr hq) (by rw [hkept]; exact hq0)
      fun p j hp => by
        rw [ptr_of_parent _ hp, hkept, Fs.through, if_neg hq0]
        exact hzero j
    rw [hkept] at hfree
    refine (ha.trans h hfree).congr fun p _ _ => ?_
    rw [and_iff_left (hblank.mp hzero)]
  · rename_i hzero
    refine ha.congr fun p _ _ => ?_
    rw [← hblank, or_iff_left fun hc => hzero hc.2]

/-- What `V1_trunc_indirect` empties at the place of a table of data blocks. -/
def Cut (s : Fs) (q : Place) (start : Int) (p : Place) : Prop :=
  (∃ j : Fin 512, start ≤ j.val ∧ p = q.child j) ∨
    p = q ∧ ∀ j : Fin 512, s.ptr (q.child j) ≠ 0 → start ≤ j.val

theorem v1TruncDirect_emptied (h : Owned s) {ino : Nat} (hi : s.holdsZones ino) :
    Emptied (fun p => ∃ k : Fin 7, int16 (directBlock s ino) ≤ k.val ∧
      p = .zone ino (directZone k)) s (v1TruncDirect idle s ino).2 := by
  refine loop_emptied h (fun k T r s' hs' _ => ?_) _
  have hdirect : ∀ k : Fin 7, (directZone k == indZone || directZone k == dindZone) = false := by
    decide
  have hlive : s'.live (.zone ino (directZone k)) := (hs'.attrs.holdsZones ino).mpr hi
  exact truncCell_emptied hs'.owned hlive (hdirect k) (by simp [Place.parent]) rfl r

theorem v1TruncIndirect_emptied (h : Owned s) (hq : s.live q) (htable : q.table = true)
    (hdata : ∀ j, (q.child j).table = false) (hparent : ∀ r j, q.parent = some (r, j) → s.ptr r ≠ 0)
    (ino : Nat) (offset : Int) :
    Emptied (Cut s q (indirectBlock s ino offset)) s
      (v1TruncIndirect idle s ino offset (s.cell q)).2 := by
  have hout : ∀ r : Place, r.table = true → ∀ j, r ≠ q.child j := by
    rintro r hr j rfl
    rw [hdata j] at hr
    exact absurd hr (by decide)
  have hinj : ∀ j k, q.child j = q.child k → j = k := by
    intro j k he
    have hj := Place.parent_child htable j
    rw [he, Place.parent_child htable k, Option.some.injEq, Prod.mk.injEq] at hj
    exact hj.2.symm
  unfold v1TruncIndirect
  dsimp only
  rw [fetch_cell hparent]
  split
  · rename_i hq0
    refine (Emptied.refl h).congr fun p _ hp => ?_
    rw [false_iff]
    rintro (⟨j, -, rfl⟩ | ⟨rfl, -⟩)
    · rw [ptr_of_parent s (Place.parent_child htable j), hq0, through_zero] at hp
      exact hp rfl
    · exact hp hq0
  · rename_i hq0
    have hloop := loop_emptied h (S := fun j p => p = q.child j)
      (f := fun a i => truncCell idle (.word (s.ptr q) i) a) (fun j T r s' hs' hT => ?_)
      (indirectBlock s ino offset)
    · have hself : ¬ ∃ j : Fin 512, indirectBlock s ino offset ≤ j.val ∧ q = q.child j := by
        rintro ⟨j, -, he⟩
        exact hout q htable j he
      have hend := table_emptied h hq htable hq0 hself (fun r j hr => by
        rintro ⟨k, -, he⟩
        exact hout r (Place.parent_table hr) k he) hloop
      refine hend.congr fun p _ _ => ?_
      unfold Cut
      refine or_congr_right (and_congr_right fun _ => forall_congr' fun j => imp_congr_right
        fun _ => ?_)
      constructor
      · rintro ⟨k, hk, he⟩
        rwa [hinj j k he]
      · intro hj
        exact ⟨j, hj, rfl⟩
    · have hkept : s'.ptr q = s.ptr q := by
        refine hs'.ptr_other q hq fun hTq => ?_
        obtain ⟨y, -, he⟩ := hT q hTq
        exact hout q htable y he
      have hj := Place.parent_child htable j
      have hlive : s.live (q.child j) := by
        unfold Fs.live at hq ⊢
        rwa [← Place.parent_ino hj]
      refine truncCell_emptied hs'.owned ((hs'.attrs.live _).mpr hlive) (hdata j) ?_ ?_ r
      · intro t k ht
        rw [hj, Option.some.injEq, Prod.mk.injEq] at ht
        rw [← ht.1, hkept]
        exact hq0
      · rw [cell_of_parent s' hj, hkept]

end Loops

section Round

/-- Where the loop over entry `a` of the double indirect block starts. -/
def leafStart (s : Fs) (ino : Nat) (a : Fin 512) : Int :=
  indirectBlock s ino (int16 (7 + 512 + int16 (a.val * 512)))

/-- The places that one round of `minix_truncate` empties. -/
def Gone (s : Fs) (ino : Nat) : Place → Prop
  | .zone i k =>
      i = ino ∧
        if k = indZone then
          ∀ j : Fin 512, s.ptr (.ind ino j) ≠ 0 → indirectBlock s ino 7 ≤ j.val
        else if k = dindZone then
          ∀ a : Fin 512, s.ptr (.dind ino a) ≠ 0 → dindirectBlock s ino (7 + 512) ≤ a.val ∧
            ∀ l : Fin 512, s.ptr (.leaf ino a l) ≠ 0 → leafStart s ino a ≤ l.val
        else int16 (directBlock s ino) ≤ k.val
  | .ind i j => i = ino ∧ indirectBlock s ino 7 ≤ j.val
  | .dind i a =>
      i = ino ∧ dindirectBlock s ino (7 + 512) ≤ a.val ∧
        ∀ l : Fin 512, s.ptr (.leaf ino a l) ≠ 0 → leafStart s ino a ≤ l.val
  | .leaf i a l =>
      i = ino ∧ dindirectBlock s ino (7 + 512) ≤ a.val ∧ leafStart s ino a ≤ l.val

variable {s s' : Fs} {ino : Nat}

theorem SameAttrs.directBlock (h : SameAttrs s s') (ino : Nat) :
    directBlock s' ino = directBlock s ino := by
  unfold Minix.directBlock
  rw [h.2 ino]

theorem SameAttrs.indirectBlock (h : SameAttrs s s') (ino : Nat) (offset : Int) :
    indirectBlock s' ino offset = indirectBlock s ino offset := by
  unfold Minix.indirectBlock
  rw [h.directBlock]

theorem SameAttrs.dindirectBlock (h : SameAttrs s s') (ino : Nat) (offset : Int) :
    dindirectBlock s' ino offset = dindirectBlock s ino offset := by
  unfold Minix.dindirectBlock
  rw [h.indirectBlock]

theorem SameAttrs.leafStart (h : SameAttrs s s') (ino : Nat) (a : Fin 512) :
    leafStart s' ino a = leafStart s ino a :=
  h.indirectBlock ino _

theorem Cut.congr {q : Place} (hq : ∀ j, s'.ptr (q.child j) = s.ptr (q.child j)) (start : Int) :
    Cut s' q start = Cut s q start := by
  unfold Cut
  simp only [hq]

theorem v1TruncDindirect_emptied (h : Owned s) (hi : s.holdsZones ino) :
    Emptied
      (fun p => (∃ a : Fin 512, dindirectBlock s ino (7 + 512) ≤ a.val ∧
          Cut s (.dind ino a) (leafStart s ino a) p) ∨
        p = .zone ino dindZone ∧ ∀ a : Fin 512, s.ptr (.dind ino a) ≠ 0 →
          dindirectBlock s ino (7 + 512) ≤ a.val ∧
            ∀ l : Fin 512, s.ptr (.leaf ino a l) ≠ 0 → leafStart s ino a ≤ l.val)
      s (v1TruncDindirect idle s ino (7 + 512) (.zone ino dindZone)).2 := by
  have hroot : s.live (.zone ino dindZone) := hi
  have hptr : s.fetch (.zone ino dindZone) = s.ptr (.zone ino dindZone) := rfl
  unfold v1TruncDindirect
  dsimp only
  rw [hptr]
  split
  · rename_i hq0
    have hdind : ∀ a, s.ptr (.dind ino a) = 0 := by
      intro a
      rw [ptr_of_parent s (p := .dind ino a) rfl, hq0, through_zero]
    refine (Emptied.refl h).congr fun p _ hp => ?_
    rw [false_iff]
    rintro (⟨a, -, ⟨l, -, rfl⟩ | ⟨rfl, -⟩⟩ | ⟨rfl, -⟩)
    · rw [ptr_of_parent s (p := (Place.dind ino a).child l) rfl, hdind, through_zero] at hp
      exact hp rfl
    · exact hp (hdind a)
    · exact hp hq0
  · rename_i hq0
    have hloop := loop_emptied h (S := fun a p => Cut s (.dind ino a) (leafStart s ino a) p)
      (f := fun a (i : Fin 512) =>
        orRetry a.1 (v1TruncIndirect idle a.2 ino (int16 (7 + 512 + int16 (i.val * 512)))
          (.word (s.ptr (.zone ino dindZone)) i))) (fun a T r s' hs' hT => ?_)
      (dindirectBlock s ino (7 + 512))
    · have hend := table_emptied h hroot rfl hq0
        (fun hc => by
          obtain ⟨a, -, ⟨l, -, he⟩ | ⟨he, -⟩⟩ := hc
          · cases he
          · cases he)
        (by simp [Place.parent]) hloop
      rw [cell_zone] at hend
      refine hend.congr fun p _ _ => or_congr_right (and_congr_right fun _ =>
        forall_congr' fun a => imp_congr_right fun _ => ?_)
      constructor
      · rintro ⟨b, hb, ⟨l, -, he⟩ | ⟨he, hcut⟩⟩
        · cases he
        · cases he
          exact ⟨hb, hcut⟩
      · rintro ⟨ha, hcut⟩
        exact ⟨a, ha, Or.inr ⟨rfl, hcut⟩⟩
    · have hkept : s'.ptr (.zone ino dindZone) = s.ptr (.zone ino dindZone) := by
        refine hs'.ptr_other _ hroot fun hTq => ?_
        obtain ⟨b, -, ⟨l, -, he⟩ | ⟨he, -⟩⟩ := hT _ hTq
        · cases he
        · cases he
      have hleaf : ∀ l, s'.ptr ((Place.dind ino a).child l) = s.ptr ((Place.dind ino a).child l) := by
        intro l
        refine hs'.ptr_other _ hi fun hTq => ?_
        obtain ⟨b, hb, ⟨k, -, he⟩ | ⟨he, -⟩⟩ := hT _ hTq
        · cases he
          exact hb rfl
        · cases he
      have hcell : s'.cell (.dind ino a) = .word (s.ptr (.zone ino dindZone)) a := by
        rw [cell_of_parent s' (p := .dind ino a) rfl, hkept]
      have hturn := v1TruncIndirect_emptied hs'.owned (q := .dind ino a)
        ((hs'.attrs.live _).mpr hi) rfl (fun l => rfl)
        (by
          intro t k ht
          simp only [Place.parent, Option.some.injEq, Prod.mk.injEq] at ht
          rw [← ht.1, hkept]
          exact hq0)
        ino (int16 (7 + 512 + int16 (a.val * 512)))
      rw [hcell, Cut.congr hleaf, hs'.attrs.indirectBlock] at hturn
      exact hturn

/-- What the three parts of a round empty, taken together. -/
theorem gone_iff (p : Place) :
    ((∃ k : Fin 7, int16 (directBlock s ino) ≤ k.val ∧ p = .zone ino (directZone k)) ∨
        Cut s (.zone ino indZone) (indirectBlock s ino 7) p) ∨
      ((∃ a : Fin 512, dindirectBlock s ino (7 + 512) ≤ a.val ∧
          Cut s (.dind ino a) (leafStart s ino a) p) ∨
        p = .zone ino dindZone ∧ ∀ a : Fin 512, s.ptr (.dind ino a) ≠ 0 →
          dindirectBlock s ino (7 + 512) ≤ a.val ∧
            ∀ l : Fin 512, s.ptr (.leaf ino a l) ≠ 0 → leafStart s ino a ≤ l.val) ↔
      Gone s ino p := by
  have hdirect : ∀ k : Fin 7, directZone k ≠ indZone ∧ directZone k ≠ dindZone := by
    decide
  unfold Cut
  cases p with
  | zone i k =>
      rcases eq_or_ne k indZone with rfl | hind
      · simp [Gone, Place.child, fun k => (hdirect k).1.symm]
      · rcases eq_or_ne k dindZone with rfl | hdind
        · simp [Gone, Place.child, fun k => (hdirect k).2.symm, hind]
        · have hk : k.val < 7 := by
            have hlt := k.2
            have h7 : k.val ≠ 7 := fun he => hind (Fin.ext he)
            have h8 : k.val ≠ 8 := fun he => hdind (Fin.ext he)
            omega
          simp only [Gone, Place.child, hind, hdind]
          constructor
          · rintro ((⟨x, hx, he⟩ | hc) | hc)
            · cases he
              exact ⟨rfl, by simpa [directZone] using hx⟩
            · simp_all
            · simp_all
          · rintro ⟨rfl, hle⟩
            exact Or.inl (Or.inl ⟨⟨k.val, hk⟩, by simpa using hle, rfl⟩)
  | ind i j => simp [Gone, Place.child, and_comm, eq_comm]
  | dind i a => simp [Gone, Place.child, and_left_comm, eq_comm]
  | leaf i a l => simp [Gone, Place.child, and_left_comm, eq_comm]

theorem truncRound_emptied (h : Owned s) (hi : s.holdsZones ino) :
    Emptied (Gone s ino) s (truncRound idle s ino).2 := by
  have h1 := v1TruncDirect_emptied h hi
  generalize hd : v1TruncDirect idle s ino = d at h1
  have hi1 := (h1.attrs.holdsZones ino).mpr hi
  have h2 := v1TruncIndirect_emptied h1.owned (q := .zone ino indZone) hi1 rfl (fun j => rfl)
    (by simp [Place.parent]) ino 7
  rw [cell_zone] at h2
  generalize hind : v1TruncIndirect idle d.2 ino 7 (.zone ino indZone) = e at h2
  have hi2 := (h2.attrs.holdsZones ino).mpr hi1
  have h3 := v1TruncDindirect_emptied h2.owned hi2
  have hround : (truncRound idle s ino).2 =
      (v1TruncDindirect idle e.2 ino (7 + 512) (.zone ino dindZone)).2 := by
    unfold truncRound
    dsimp only
    rw [hd, hind, orRetry_snd, orRetry_snd]
  -- the entries below the two tables are untouched when their loops begin
  have hentry : ∀ j, d.2.ptr ((Place.zone ino indZone).child j) =
      s.ptr ((Place.zone ino indZone).child j) := by
    intro j
    refine h1.ptr_other _ hi ?_
    rintro ⟨k, -, he⟩
    cases he
  have hbelow : ∀ p : Place, p.ino = ino → (∀ k, p ≠ .zone ino k) → (∀ j, p ≠ .ind ino j) →
      e.2.ptr p = s.ptr p := by
    intro p hp hzone hindp
    have hlive : s.live p := by
      unfold Fs.live
      rwa [hp]
    rw [h2.ptr_other p ((h1.attrs.live p).mpr hlive), h1.ptr_other p hlive]
    · rintro ⟨k, -, rfl⟩
      exact hzone _ rfl
    · rintro (⟨j, -, rfl⟩ | ⟨rfl, -⟩)
      · exact hindp j rfl
      · exact hzone _ rfl
  have hdind : ∀ a, e.2.ptr (.dind ino a) = s.ptr (.dind ino a) := fun a =>
    hbelow _ rfl (fun k he => by cases he) (fun j he => by cases he)
  have hleaf : ∀ a l, e.2.ptr (.leaf ino a l) = s.ptr (.leaf ino a l) := fun a l =>
    hbelow _ rfl (fun k he => by cases he) (fun j he => by cases he)
  have hcut : ∀ a, Cut e.2 (.dind ino a) = Cut s (.dind ino a) := fun a =>
    funext (Cut.congr (hleaf a))
  have hattrs := h1.attrs.trans h2.attrs
  rw [Cut.congr hentry, h1.attrs.indirectBlock] at h2
  simp only [hattrs.dindirectBlock, hattrs.leafStart, hdind, hleaf, hcut] at h3
  rw [hround]
  refine ((h1.trans h h2).trans h h3).congr fun p _ _ => gone_iff p

end Round

section Exact

variable {q : Place} {b : Nat}

/-- The number of blocks of a file of the size of the inode. -/
def sizeBlocks (s : Fs) (ino : Nat) : Nat :=
  ((s.inode ino).iSize + 1023) / 1024

/-- The values of `i` in a loop `for (i = start; i < n; i++)`. -/
def loopIndices (start n : Int) : List Int :=
  (List.range (n - start).toNat).map fun (k : Nat) => start + k

/-- The loops index `i_zone` and the blocks of block numbers within their
bounds.  Over blocks of block numbers an index below zero is raised to zero
before it is used. -/
structure InRange (s : Fs) (ino : Nat) : Prop where
  direct : ∀ i ∈ loopIndices (int16 (directBlock s ino)) 7, 0 ≤ i ∧ i < 9
  indirect : ∀ offset, ∀ i ∈ loopIndices (max 0 (indirectBlock s ino offset)) 512,
    0 ≤ i ∧ i < 512
  dindirect : ∀ offset, ∀ i ∈ loopIndices (max 0 (dindirectBlock s ino offset)) 512,
    0 ≤ i ∧ i < 512

/-- The blocks behind the end of the file, and with them the tables that lost
their last entry, were given back, and nothing else of the file was.  Of a table
that held no entry beforehand nothing is said. -/
structure Exact (s : Fs) (ino : Nat) (s' : Fs) : Prop where
  mapped : ∀ b, b < 65536 →
    s'.zoneOf ino b = if b < sizeBlocks s ino then s.zoneOf ino b else 0
  data : ∀ b, b < 65536 → sizeBlocks s ino ≤ b → s.zoneOf ino b ≠ 0 →
    s'.zoneTaken (s.zoneOf ino b) = false
  tables : ∀ q : Place, q.ino = ino → q.table = true → s.ptr q ≠ 0 →
    (∃ j, s.ptr (q.child j) ≠ 0) →
    (∀ j, s.ptr (q.child j) ≠ 0 → s'.zoneTaken (s.ptr (q.child j)) = false) →
    s'.zoneTaken (s.ptr q) = false
  only : ∀ z, s.inZones z → s.zoneTaken z = true → s'.zoneTaken z = false →
    (∃ b, b < 65536 ∧ sizeBlocks s ino ≤ b ∧ s.zoneOf ino b = z) ∨
      ∃ q : Place, q.ino = ino ∧ q.table = true ∧ s.ptr q = z ∧
        ∀ j, s.ptr (q.child j) ≠ 0 → s'.zoneTaken (s.ptr (q.child j)) = false

variable {s s' : Fs} {ino : Nat}

theorem mem_loopIndices {start n i : Int} : i ∈ loopIndices start n ↔ start ≤ i ∧ i < n := by
  simp only [loopIndices, List.mem_map, List.mem_range]
  constructor
  · rintro ⟨k, hk, rfl⟩
    omega
  · rintro ⟨hlo, hhi⟩
    exact ⟨(i - start).toNat, by omega, by omega⟩

theorem mem_indicesFrom {n : Nat} {start i : Int} :
    i ∈ loopIndices (max 0 start) n ↔ ∃ k ∈ indicesFrom n start, (k.val : Int) = i := by
  simp only [mem_loopIndices, indicesFrom, List.mem_filter, List.mem_finRange, true_and,
    decide_eq_true_eq]
  constructor
  · rintro ⟨hlo, hhi⟩
    exact ⟨⟨i.toNat, by omega⟩, by simp only; omega, by simp only; omega⟩
  · rintro ⟨k, hk, rfl⟩
    have hlt := k.2
    omega

theorem table_inRange (start : Int) : ∀ i ∈ loopIndices (max 0 start) 512, 0 ≤ i ∧ i < 512 := by
  intro i hi
  obtain ⟨k, -, rfl⟩ := (mem_indicesFrom (n := 512)).mp hi
  have hlt := k.2
  omega

theorem directBlock_eq (hsize : (s.inode ino).iSize ≤ 65535 * 1024) :
    directBlock s ino = sizeBlocks s ino := by
  unfold directBlock sizeBlocks
  rw [wrap_of_lt (by omega)]

/-- The loop over `i_zone` stays in bounds just if the number of blocks is an
`int`. -/
theorem inRange_iff (hsize : (s.inode ino).iSize ≤ 65535 * 1024) :
    InRange s ino ↔ (s.inode ino).iSize ≤ 32767 * 1024 := by
  have hblocks := directBlock_eq hsize
  unfold sizeBlocks at hblocks
  constructor
  · intro h
    by_contra hlarge
    have hneg := int16_neg (k := directBlock s ino) (by omega) (by omega)
    have hfirst := h.direct _ (mem_loopIndices.mpr ⟨Int.le_refl _, by omega⟩)
    omega
  · intro hsmall
    refine ⟨fun i hi => ?_, fun _ => table_inRange _, fun _ => table_inRange _⟩
    rw [int16_of_lt (by omega), mem_loopIndices] at hi
    omega

theorem int16_of_range {n : Int} (hlo : -32768 ≤ n) (hhi : n < 32768) :
    int16 n = n :=
  Int.bmod_eq_of_le (by omega) (by omega)

theorem leafStart_eq (a : Fin 512) :
    leafStart s ino a = int16 (directBlock s ino - 519 - a.val * 512) := by
  unfold leafStart indirectBlock int16
  rw [Int.bmod_sub_bmod, Int.sub_bmod_bmod, ← Int.sub_sub, Int.sub_bmod_bmod]
  rfl

/-- The table of block `b` begins at most 32768 blocks behind the new end. -/
def WithinReach (s : Fs) (ino b : Nat) : Prop :=
  519 ≤ b → 519 + (b - 519) / 512 * 512 ≤ sizeBlocks s ino + 32768

theorem gone_dataPlace (hsize : (s.inode ino).iSize ≤ 32767 * 1024) (hb : b < 65536) :
    Gone s ino (dataPlace ino b) ↔ sizeBlocks s ino ≤ b ∧ WithinReach s ino b := by
  have hblocks : directBlock s ino = sizeBlocks s ino := directBlock_eq (by omega)
  have hle : sizeBlocks s ino ≤ 32767 := by
    unfold sizeBlocks
    omega
  unfold WithinReach
  rcases lt_or_ge b 7 with h7 | h7
  · have hplace : dataPlace ino b = .zone ino (directZone ⟨b, h7⟩) := dif_pos h7
    have hk : directZone ⟨b, h7⟩ ≠ indZone ∧ directZone ⟨b, h7⟩ ≠ dindZone := by
      simp only [directZone, ne_eq, Fin.ext_iff, Fin.val_castLE]
      exact ⟨by change b ≠ 7; omega, by change b ≠ 8; omega⟩
    rw [hplace, Gone, if_neg hk.1, if_neg hk.2, hblocks, int16_of_lt (by omega),
      and_iff_left fun h519 => absurd h519 (by omega)]
    simp only [directZone, Fin.val_castLE, true_and]
    omega
  · rcases lt_or_ge b 519 with h519 | h519
    · have hplace : dataPlace ino b = .ind ino ⟨b - 7, by omega⟩ := by
        rw [dataPlace, dif_neg (by omega), dif_pos (by omega)]
      rw [hplace, Gone, indirectBlock, hblocks, int16_of_lt (k := sizeBlocks s ino) (by omega),
        int16_of_range (by omega) (by omega), and_iff_left fun h519 => absurd h519 (by omega)]
      simp only [true_and]
      omega
    · have hplace : dataPlace ino b =
          .leaf ino ⟨(b - 519) / 512, by omega⟩ ⟨(b - 519) % 512, by omega⟩ := by
        rw [dataPlace, dif_neg (by omega), dif_neg (by omega)]
        simp only [Place.leaf.injEq, Fin.mk.injEq, true_and]
        omega
      rw [hplace, Gone, leafStart_eq, dindirectBlock, indirectBlock, hblocks,
        int16_of_lt (k := sizeBlocks s ino) (by omega),
        int16_of_range (n := sizeBlocks s ino - (7 + 512)) (by omega) (by omega)]
      simp only [true_and, h519, true_imp_iff]
      rcases le_or_gt (519 + (b - 519) / 512 * 512) (sizeBlocks s ino + 32768) with hreach | hreach
      · rw [int16_of_range (by omega) (by omega)]
        omega
      · -- the difference has wrapped round to at least 505, behind all blocks of the table
        have hover : int16 (sizeBlocks s ino - 519 - ((b - 519) / 512 : Nat) * 512) =
            sizeBlocks s ino - 519 - ((b - 519) / 512 : Nat) * 512 + 65536 := by
          rw [← int16_of_range (n := sizeBlocks s ino - 519 - ((b - 519) / 512 : Nat) * 512 + 65536)
            (by omega) (by omega)]
          exact (Int.add_bmod_right _ 65536).symm
        rw [hover]
        omega

theorem place_cases {p : Place} (hp : p.ino = ino) :
    (∃ b, b < 65536 ∧ p = dataPlace ino b) ∨ p.table = true ∨
      ∃ a l : Fin 512, p = .leaf ino a l ∧ 65536 ≤ 519 + 512 * a.val + l.val := by
  cases p with
  | zone i k =>
      obtain rfl : i = ino := hp
      rcases lt_or_ge k.val 7 with h7 | h7
      · exact Or.inl ⟨k.val, by omega, by rw [dataPlace, dif_pos h7]⟩
      · have hk : k = indZone ∨ k = dindZone := by
          rcases (by omega : k.val = 7 ∨ k.val = 8) with he | he
          · exact Or.inl (Fin.ext he)
          · exact Or.inr (Fin.ext he)
        right; left
        rcases hk with rfl | rfl <;> rfl
  | ind i j =>
      obtain rfl : i = ino := hp
      refine Or.inl ⟨7 + j.val, by omega, ?_⟩
      rw [dataPlace, dif_neg (by omega), dif_pos (by omega)]
      simp
  | dind i a => exact Or.inr (Or.inl rfl)
  | leaf i a l =>
      obtain rfl : i = ino := hp
      rcases lt_or_ge (519 + 512 * a.val + l.val) 65536 with hb | hb
      · refine Or.inl ⟨519 + 512 * a.val + l.val, hb, ?_⟩
        rw [dataPlace, dif_neg (by omega), dif_neg (by omega)]
        simp only [Place.leaf.injEq, Fin.ext_iff, true_and]
        omega
      · exact Or.inr (Or.inr ⟨a, l, rfl, hb⟩)

theorem child_ino (hq : q.ino = ino) (htable : q.table = true) (j : Fin 512) :
    (q.child j).ino = ino := by
  rw [← Place.parent_ino (Place.parent_child htable j), hq]

theorem gone_child (htable : q.table = true) (hgone : Gone s ino q) {j : Fin 512}
    (hj : s.ptr (q.child j) ≠ 0) : Gone s ino (q.child j) := by
  cases q with
  | zone i k =>
      simp only [Place.table, Bool.or_eq_true, beq_iff_eq] at htable
      obtain ⟨rfl, hgone⟩ := hgone
      rcases htable with rfl | rfl
      · exact ⟨rfl, hgone j hj⟩
      · exact ⟨rfl, hgone j hj⟩
  | ind i a => cases htable
  | dind i a =>
      obtain ⟨rfl, ha, hl⟩ := hgone
      exact ⟨rfl, ha, hl j hj⟩
  | leaf i a l => cases htable

/-- A table whose entries the loops empty, and that had one, goes too. -/
theorem gone_table (hq : q.ino = ino) (htable : q.table = true)
    (hentry : ∃ j, s.ptr (q.child j) ≠ 0)
    (hgone : ∀ j, s.ptr (q.child j) ≠ 0 → Gone s ino (q.child j)) : Gone s ino q := by
  cases q with
  | zone i k =>
      obtain rfl : i = ino := hq
      simp only [Place.table, Bool.or_eq_true, beq_iff_eq] at htable
      rcases htable with rfl | rfl
      · exact ⟨rfl, fun j hj => (hgone j hj).2⟩
      · exact ⟨rfl, fun a ha => (hgone a ha).2⟩
  | ind i a => cases htable
  | dind i a =>
      obtain rfl : i = ino := hq
      obtain ⟨j, hj⟩ := hentry
      exact ⟨rfl, (hgone j hj).2.1, fun l hl => (hgone l hl).2.2⟩
  | leaf i a l => cases htable

theorem Emptied.exact (h0 : Owned s) (hi : s.holdsZones ino)
    (hsize : (s.inode ino).iSize ≤ 32767 * 1024)
    (hspan : ∀ a l : Fin 512, 65536 ≤ 519 + 512 * a.val + l.val → s.ptr (.leaf ino a l) = 0)
    (hreach : ∀ b, b < 65536 → s.zoneOf ino b ≠ 0 → WithinReach s ino b)
    (h : Emptied (Gone s ino) s s') : Exact s ino s' := by
  have hlive : ∀ p : Place, p.ino = ino → s.live p := by
    intro p hp
    unfold Fs.live
    rwa [hp]
  have hdata : ∀ b, s.live (dataPlace ino b) := fun b => hlive _ (dataPlace_ino ino b)
  have hgone : ∀ b, b < 65536 → s.zoneOf ino b ≠ 0 →
      (Gone s ino (dataPlace ino b) ↔ sizeBlocks s ino ≤ b) := by
    intro b hb hb0
    rw [gone_dataPlace hsize hb, and_iff_left (hreach b hb hb0)]
  refine ⟨fun b hb => ?_, fun b hb hle hb0 => ?_, fun q hq htable hq0 hentry hfree => ?_,
    fun z hz ht hfree => ?_⟩
  · by_cases hb0 : s.zoneOf ino b = 0
    · have hstill : s'.zoneOf ino b = 0 :=
        (h.ptr_gone _ (hdata b)).elim id fun he => he.trans hb0
      rw [hstill, hb0, ite_self]
    · split
      · rename_i hlt
        exact h.ptr_other _ (hdata b) fun hc => absurd ((hgone b hb hb0).mp hc) (by omega)
      · rename_i hge
        exact h.gone _ (hdata b) ((hgone b hb hb0).mpr (by omega))
  · exact (h.zoneTaken_eq_false h0 (hdata b) hb0).mpr ((hgone b hb hb0).mpr hle)
  · refine (h.zoneTaken_eq_false h0 (hlive q hq) hq0).mpr (gone_table hq htable hentry ?_)
    intro j hj
    exact (h.zoneTaken_eq_false h0 (hlive _ (child_ino hq htable j)) hj).mp (hfree j hj)
  · -- the zone was given back, so a place that the loops empty held it
    have hheld : ∃ p, s.live p ∧ s.ptr p = z ∧ Gone s ino p := by
      by_contra hno
      rw [h.kept z hz ht fun p hp he hg => hno ⟨p, hp, he, hg⟩] at hfree
      exact absurd hfree (by decide)
    obtain ⟨p, hp, rfl, hpgone⟩ := hheld
    have hp0 : s.ptr p ≠ 0 := h0.inZones_ne_zero hz
    have hino : p.ino = ino := by
      cases p <;> exact hpgone.1
    rcases place_cases hino with ⟨b, hb, rfl⟩ | htable | ⟨a, l, rfl, hab⟩
    · exact Or.inl ⟨b, hb, (hgone b hb hp0).mp hpgone, rfl⟩
    · refine Or.inr ⟨p, hino, htable, rfl, fun j hj => ?_⟩
      exact (h.zoneTaken_eq_false h0 (hlive _ (child_ino hino htable j)) hj).mpr
        (gone_child htable hpgone hj)
    · exact absurd (hspan a l hab) hp0

theorem minixTruncate_eq_round
    (hmode : hasFormat sIfreg (s.inode ino).iMode = true ∨
      hasFormat sIfdir (s.inode ino).iMode = true ∨ hasFormat sIflnk (s.inode ino).iMode = true) :
    minixTruncate [idle] s ino = .ok (truncRound idle s ino).2 := by
  have hgate : (hasFormat sIfreg (s.inode ino).iMode || hasFormat sIfdir (s.inode ino).iMode ||
      hasFormat sIflnk (s.inode ino).iMode) = true := by
    simp only [Bool.or_eq_true, or_assoc]
    exact hmode
  unfold minixTruncate truncRounds
  dsimp only
  rw [if_pos hgate, truncRound_idle]
  rfl

theorem Exact.withinReach (h : Emptied (Gone s ino) s s') (hi : s.holdsZones ino)
    (hsize : (s.inode ino).iSize ≤ 32767 * 1024) (hexact : Exact s ino s') (hb : b < 65536)
    (hb0 : s.zoneOf ino b ≠ 0) : WithinReach s ino b := by
  by_contra hfar
  have hlive : s.live (dataPlace ino b) := by
    unfold Fs.live
    rwa [dataPlace_ino]
  have hkept := h.ptr_other _ hlive fun hc => hfar ((gone_dataPlace hsize hb).mp hc).2
  have hmapped := hexact.mapped b hb
  have hbehind : ¬ b < sizeBlocks s ino := by
    unfold WithinReach at hfar
    omega
  rw [if_neg hbehind] at hmapped
  exact hb0 (hkept.symm.trans hmapped)

/-- With nobody else at its buffers, a truncation of a file whose mapped blocks
have numbers of sixteen bits stays within the arrays, comes to an end and gives
back exactly the blocks behind the new end, just if the size is that of at most
32767 blocks and the table of every mapped block begins at most 32768 blocks
behind the new end. -/
theorem truncate_exact_iff
    (s : Fs)
    (ino : Nat)
    (h : Owned s)
    (hi : s.inodeTaken ino = true)
    (hmode : hasFormat sIfreg (s.inode ino).iMode = true ∨
      hasFormat sIfdir (s.inode ino).iMode = true ∨ hasFormat sIflnk (s.inode ino).iMode = true)
    (hsize : (s.inode ino).iSize ≤ 65535 * 1024)
    (hspan : ∀ a l : Fin 512, 65536 ≤ 519 + 512 * a.val + l.val → s.ptr (.leaf ino a l) = 0) :
    (InRange s ino ∧ ∃ s', minixTruncate [idle] s ino = .ok s' ∧ Exact s ino s') ↔
      (s.inode ino).iSize ≤ 32767 * 1024 ∧
        ∀ b, b < 65536 → s.zoneOf ino b ≠ 0 → WithinReach s ino b := by
  have hzones := holdsZones_of_mode hi hmode
  have hrun := minixTruncate_eq_round hmode
  have hround := truncRound_emptied h hzones
  constructor
  · rintro ⟨hin, s', hok, hexact⟩
    have hsmall := (inRange_iff hsize).mp hin
    rw [Except.ok.inj (hrun.symm.trans hok)] at hround
    exact ⟨hsmall, fun b hb hb0 => hexact.withinReach hround hzones hsmall hb hb0⟩
  · rintro ⟨hsmall, hreach⟩
    exact ⟨(inRange_iff hsize).mpr hsmall, _, hrun, hround.exact h hzones hsmall hspan hreach⟩

/-- A file of size zero with one mapped block, entry `l` of block `a` below the
double indirect block, in a file system of three inodes and fifteen zones. -/
def leafFs (a l : Fin 512) : Fs where
  sNinodes := 3
  sNzones := 20
  sFirstdatazone := 5
  sFlags := 0
  sImap := freshMap 2 3
  sZmap := freshMap 4 15
  inode := fun i =>
    if i = 1 then
      { blankInode with
        iMode := sIfreg
        iCount := 1
        iZone := fun k => if k = dindZone then 5 else 0 }
    else blankInode
  block := fun z =>
    if z = 5 then putWord zeroBlock a 6 else if z = 6 then putWord zeroBlock l 7 else zeroBlock

theorem word_single (j k : Fin 512) {v : Nat} (hv : v < 65536) :
    word (putWord zeroBlock j v) k = if k = j then v else 0 := by
  split
  · rename_i hk
    rw [hk, word_putWord_same _ _ hv]
  · rename_i hk
    rw [word_putWord_ne _ _ hk, word_zeroBlock]

theorem leafFs_ptr (a l : Fin 512) (p : Place) :
    (leafFs a l).ptr p =
      if p = .zone 1 dindZone then 5 else if p = .dind 1 a then 6
      else if p = .leaf 1 a l then 7 else 0 := by
  have hdind : ∀ b, word ((leafFs a l).block 5) b = if b = a then 6 else 0 := fun b =>
    word_single a b (by decide)
  have hleaf : ∀ k, word ((leafFs a l).block 6) k = if k = l then 7 else 0 := fun k =>
    word_single l k (by decide)
  have hzone : ∀ i k, ((leafFs a l).inode i).iZone k = if i = 1 ∧ k = dindZone then 5 else 0 := by
    intro i k
    unfold leafFs
    dsimp only
    by_cases hi : i = 1
    · simp [hi]
    · simp [hi, blankInode]
  cases p with
  | zone i k => simp [Fs.ptr, hzone]
  | ind i j => simp [Fs.ptr, Fs.through, hzone]
  | dind i b =>
      by_cases hi : i = 1
      · simp [Fs.ptr, Fs.through, hzone, hdind, hi]
      · simp [Fs.ptr, Fs.through, hzone, hi]
  | leaf i b k =>
      by_cases hi : i = 1
      · by_cases hb : b = a
        · simp [Fs.ptr, Fs.through, hzone, hdind, hleaf, hi, hb]
        · simp [Fs.ptr, Fs.through, hzone, hdind, hi, hb]
      · simp [Fs.ptr, Fs.through, hzone, hi]

theorem leafFs_held (a l : Fin 512) {z : Nat} (hlo : 5 ≤ z) (hhi : z < 8) :
    (leafFs a l).held z := by
  have hbit : z - 5 + 1 < bitsPerBlock := by
    unfold bitsPerBlock
    omega
  have hslot : freshMap 4 15 0 = some fun bit => decide (bit < 4) || decide (15 < bit) := rfl
  refine ⟨⟨hlo, by change z < 20; omega⟩, ?_⟩
  change bitAt (freshMap 4 15) (z - 5 + 1) = true
  rw [bitAt, Nat.div_eq_of_lt hbit, hslot, Nat.mod_eq_of_lt hbit]
  simp only [Option.any_some, Bool.or_eq_true, decide_eq_true_eq]
  omega

theorem leafFs_owned (a l : Fin 512) : Owned (leafFs a l) := by
  refine ⟨⟨Nat.zero_lt_succ 4, (by decide : 20 < 65536), ?_⟩, ⟨(by decide : 3 < 65536), ?_⟩,
    ⟨?_, ?_⟩⟩
  · exact freshMap_covers fun b hlo hhi => ⟨by omega, by change 5 + b - 1 < 20; omega⟩
  · exact freshMap_covers fun b hlo hhi => ⟨by omega, hhi⟩
  · intro p _ h0
    rw [leafFs_ptr] at h0 ⊢
    split_ifs at h0 ⊢
    · exact leafFs_held a l (by decide) (by decide)
    · exact leafFs_held a l (by decide) (by decide)
    · exact leafFs_held a l (by decide) (by decide)
    · exact absurd rfl h0
  · intro p q _ _ h0 he
    rw [leafFs_ptr] at h0 he
    rw [leafFs_ptr] at he
    split_ifs at h0 he <;> simp_all

theorem leafFs_span (a l : Fin 512) (ha : 519 + 512 * a.val + l.val < 65536) (b k : Fin 512)
    (hbk : 65536 ≤ 519 + 512 * b.val + k.val) : (leafFs a l).ptr (.leaf 1 b k) = 0 := by
  rw [leafFs_ptr, if_neg (by simp), if_neg (by simp), if_neg]
  intro he
  simp only [Place.leaf.injEq, true_and] at he
  obtain ⟨rfl, rfl⟩ := he
  omega

/-- Block 519, the first below the double indirect block, goes. -/
theorem truncate_exact_near :
    (InRange (leafFs 0 0) 1 ∧ ∃ s', minixTruncate [idle] (leafFs 0 0) 1 = .ok s' ∧
      Exact (leafFs 0 0) 1 s') ↔
      ((leafFs 0 0).inode 1).iSize ≤ 32767 * 1024 ∧
        ∀ b, b < 65536 → (leafFs 0 0).zoneOf 1 b ≠ 0 → WithinReach (leafFs 0 0) 1 b :=
  truncate_exact_iff (leafFs 0 0) 1 (leafFs_owned 0 0) (by decide) (by decide) (by decide)
    (leafFs_span 0 0 (by decide))

/-- Block 32775, the first below entry 63 of the double indirect block, stays
mapped when the file is cut to size zero. -/
theorem truncate_leaks_far :
    ¬ ∃ s', minixTruncate [idle] (leafFs 63 0) 1 = .ok s' ∧ Exact (leafFs 63 0) 1 s' := by
  rintro ⟨s', hok, hexact⟩
  have hzones : (leafFs 63 0).holdsZones 1 := by
    decide
  have hround := truncRound_emptied (leafFs_owned 63 0) hzones
  rw [Except.ok.inj ((minixTruncate_eq_round (Or.inl (by decide))).symm.trans hok)] at hround
  have hplace : dataPlace 1 32775 = .leaf 1 63 0 := by
    decide
  have hmapped : (leafFs 63 0).zoneOf 1 32775 ≠ 0 := by
    rw [Fs.zoneOf, hplace, leafFs_ptr]
    decide
  have hreach := hexact.withinReach hround hzones (by decide) (by decide) hmapped
  exact absurd (hreach (by decide)) (by decide)

end Exact

end Minix
end Elks
