import Mathlib.Data.List.Chain
import Mathlib.Data.List.Nodup
import Mathlib.Data.Fintype.Card
import Mathlib.Logic.Function.Basic
import Mathlib.Tactic

/-!
# Chains of links in a table, and tilings of an interval

A table of records in which every record names at most one successor is a
common way to keep a list without an allocator.  This module has the two
notions such a table needs:

* `LinksTo next o l o'`: following `next` from `o` visits exactly the indices
  of `l` and arrives at `o'`; `Links next o l` is the case where it ends;
* `Tiles lo hi l`: the extents of `l`, in order, cover `[lo, hi)` with no gap
  and no overlap.

A chain that ends visits no index twice (`Links.nodup`), so it is acyclic and,
over a finite index type, no longer than the table.
-/

namespace Elks
namespace Lib

universe u

section Links

variable {ι : Type u} {l a b m : List ι} {k p : ι}

/-- Following `next` from `o` visits exactly `l` and arrives at `o'`. -/
def LinksTo (next : ι → Option ι) : Option ι → List ι → Option ι → Prop
  | o, [], o' => o = o'
  | o, i :: l, o' => o = some i ∧ LinksTo next (next i) l o'

/-- Following `next` from `o` visits exactly `l` and then ends. -/
def Links (next : ι → Option ι) (o : Option ι) (l : List ι) : Prop :=
  LinksTo next o l none

variable {next next' : ι → Option ι} {o o' : Option ι}

@[simp] theorem linksTo_nil : LinksTo next o [] o' ↔ o = o' := by
  rfl

@[simp] theorem linksTo_cons {i : ι} {l : List ι} :
    LinksTo next o (i :: l) o' ↔
      o = some i ∧ LinksTo next (next i) l o' := by
  rfl

/-- A chain can be cut anywhere. -/
theorem linksTo_append
    :
    LinksTo next o (l ++ m) o' ↔
      ∃ p, LinksTo next o l p ∧ LinksTo next p m o' := by
  induction l generalizing o with
  | nil =>
      simp
  | cons i l ih =>
      simp only [List.cons_append, linksTo_cons, ih]
      constructor
      · rintro ⟨ho, p, hl, hm⟩
        exact ⟨p, ⟨ho, hl⟩, hm⟩
      · rintro ⟨p, ⟨ho, hl⟩, hm⟩
        exact ⟨ho, p, hl, hm⟩

/-- Only the links of the visited indices matter. -/
theorem linksTo_congr (h : ∀ i, i ∈ l → next i = next' i) :
    LinksTo next o l o' ↔ LinksTo next' o l o' := by
  induction l generalizing o with
  | nil =>
      rfl
  | cons i l ih =>
      have hi : next i = next' i := h i (by simp)
      have hl : ∀ j, j ∈ l → next j = next' j :=
        fun j hj => h j (List.mem_cons_of_mem _ hj)
      simp only [linksTo_cons, hi, ih hl]

/-- The visited indices are determined by the starting point. -/
theorem Links.unique (hl : Links next o l) (hm : Links next o m) : l = m := by
  induction l generalizing o m with
  | nil =>
      cases m with
      | nil => rfl
      | cons j m =>
          have h₁ : o = none := hl
          have h₂ : o = some j := hm.1
          rw [h₁] at h₂
          cases h₂
  | cons i l ih =>
      cases m with
      | nil =>
          have h₁ : o = some i := hl.1
          have h₂ : o = none := hm
          rw [h₁] at h₂
          cases h₂
      | cons j m =>
          have hij : i = j := by
            have h := hl.1.symm.trans hm.1
            exact Option.some.inj h
          subst hij
          rw [ih hl.2 hm.2]

/-- A chain that ends visits no index twice. -/
theorem Links.nodup (hl : Links next o l) : l.Nodup := by
  induction l generalizing o with
  | nil =>
      exact List.nodup_nil
  | cons i l ih =>
      have htail : Links next (next i) l := hl.2
      refine List.nodup_cons.mpr ⟨?_, ih htail⟩
      intro hi
      obtain ⟨a, b, hab⟩ := List.append_of_mem hi
      rw [hab] at htail
      obtain ⟨p, _, hp⟩ := linksTo_append.mp htail
      -- the chain from the second visit of `i` is the chain from the first
      have hb : Links next (next i) b := hp.2
      have hall : Links next (next i) (a ++ i :: b) := htail
      have hlen := congrArg List.length (hb.unique hall)
      simp only [List.length_append, List.length_cons] at hlen
      omega

/-- A new last index. -/
theorem Links.snoc [DecidableEq ι] {k j : ι} (hl : Links next o (l ++ [k]))
    (hkeep : ∀ i, i ∈ l → next' i = next i) (hk : next' k = some j) (hend : next' j = none) :
    Links next' o (l ++ [k] ++ [j]) := by
  obtain ⟨p, hp, hpk⟩ := linksTo_append.mp hl
  have hp' : LinksTo next' o l p := (linksTo_congr fun i hi => (hkeep i hi).symm).mp hp
  have hpk' : p = some k := hpk.1
  rw [Links, List.append_assoc, linksTo_append]
  exact ⟨p, hp', hpk', hk, hend⟩

/-- The link of an index that is not visited does not matter. -/
theorem linksTo_update [DecidableEq ι] {v : Option ι} (hk : k ∉ l) :
    LinksTo (Function.update next k v) o l o' ↔ LinksTo next o l o' := by
  refine linksTo_congr ?_
  intro i hi
  have hne : i ≠ k := by
    rintro rfl
    exact hk hi
  exact Function.update_of_ne hne v next

/-- A chain without one of its indices. -/
theorem Links.bypass [DecidableEq ι] (hl : Links next o (a ++ p :: k :: b)) :
    Links (Function.update next p (next k)) o (a ++ p :: b) := by
  have hnodup := hl.nodup
  obtain ⟨q, ha, hp⟩ := linksTo_append.mp hl
  have hpa : p ∉ a := fun h =>
    List.disjoint_of_nodup_append hnodup h List.mem_cons_self
  have hpb : p ∉ b := fun h =>
    (List.nodup_cons.mp (List.nodup_append.mp hnodup).2.1).1 (List.mem_cons_of_mem k h)
  have hb : Links next (next k) b := hp.2.2
  rw [Links, linksTo_append]
  refine ⟨q, (linksTo_update hpa).mpr ha, hp.1, ?_⟩
  rw [Function.update_self]
  exact (linksTo_update hpb).mpr hb

/-- A chain that is cut after one of its indices. -/
theorem Links.cut [DecidableEq ι] (hl : Links next o (a ++ k :: b)) :
    Links (Function.update next k none) o (a ++ [k]) := by
  obtain ⟨q, ha, hk⟩ := linksTo_append.mp hl
  have hka : k ∉ a := fun h =>
    List.disjoint_of_nodup_append hl.nodup h List.mem_cons_self
  rw [Links, linksTo_append]
  refine ⟨q, (linksTo_update hka).mpr ha, hk.1, ?_⟩
  rw [Function.update_self]
  rfl

/-- A new index behind one of a chain. -/
theorem Links.insert [DecidableEq ι] (hl : Links next o (a ++ p :: b)) (hk : k ∉ a ++ p :: b) :
    Links (Function.update (Function.update next k (next p)) p (some k)) o
      (a ++ p :: k :: b) := by
  have hnodup := hl.nodup
  obtain ⟨q, ha, hp⟩ := linksTo_append.mp hl
  have hpa : p ∉ a := fun h =>
    List.disjoint_of_nodup_append hnodup h List.mem_cons_self
  have hpb : p ∉ b := (List.nodup_cons.mp (List.nodup_append.mp hnodup).2.1).1
  have hka : k ∉ a := fun h => hk (List.mem_append_left _ h)
  have hkb : k ∉ b := fun h => hk (List.mem_append_right a (List.mem_cons_of_mem p h))
  have hkp : k ≠ p := by
    rintro rfl
    exact hk (List.mem_append_right a List.mem_cons_self)
  rw [Links, linksTo_append]
  refine ⟨q, (linksTo_update hpa).mpr ((linksTo_update hka).mpr ha), hp.1, ?_, ?_⟩
  · rw [Function.update_self]
  · rw [Function.update_of_ne hkp, Function.update_self]
    exact (linksTo_update hpb).mpr ((linksTo_update hkb).mpr hp.2)

/-- No chain that ends meets an index that links to itself. -/
theorem Links.irrefl (hl : Links next o l) (hk : k ∈ l) : next k ≠ some k := by
  intro hself
  obtain ⟨a, b, hab⟩ := List.append_of_mem hk
  rw [hab] at hl
  obtain ⟨p, _, hp⟩ := linksTo_append.mp hl
  have hb : Links next (next k) b := hp.2
  have hkb : Links next (next k) (k :: b) := ⟨hself, hb⟩
  have hlen := congrArg List.length (hb.unique hkb)
  simp only [List.length_cons] at hlen
  omega

/-- Over a finite table an ending chain is no longer than the table. -/
theorem Links.length_le [Fintype ι] (hl : Links next o l) :
    l.length ≤ Fintype.card ι :=
  hl.nodup.length_le_card

end Links

section Tiles

variable {l : List (Nat × Nat)} {α : Type u} {x y : α}

/-- The extents `(base, size)` of `l`, in order, cover `[lo, hi)` exactly. -/
def Tiles (hi : Nat) : Nat → List (Nat × Nat) → Prop
  | lo, [] => lo = hi
  | lo, x :: l => x.1 = lo ∧ 0 < x.2 ∧ Tiles hi (lo + x.2) l

variable {lo hi : Nat}

@[simp] theorem tiles_nil : Tiles hi lo [] ↔ lo = hi := by
  rfl

@[simp] theorem tiles_cons {x : Nat × Nat} {l : List (Nat × Nat)} :
    Tiles hi lo (x :: l) ↔
      x.1 = lo ∧ 0 < x.2 ∧ Tiles hi (lo + x.2) l := by
  rfl

/-- A tiling can be cut between any two extents. -/
theorem tiles_append {l m : List (Nat × Nat)} :
    Tiles hi lo (l ++ m) ↔
      ∃ mid, Tiles mid lo l ∧ Tiles hi mid m := by
  induction l generalizing lo with
  | nil =>
      constructor
      · intro h
        exact ⟨lo, rfl, h⟩
      · rintro ⟨mid, hmid, h⟩
        have hlo : lo = mid := hmid
        rw [hlo]
        exact h
  | cons x l ih =>
      simp only [List.cons_append, tiles_cons, ih]
      constructor
      · rintro ⟨hx, hpos, mid, hl, hm⟩
        exact ⟨mid, ⟨hx, hpos, hl⟩, hm⟩
      · rintro ⟨mid, ⟨hx, hpos, hl⟩, hm⟩
        exact ⟨hx, hpos, mid, hl, hm⟩

/-- The sizes of a tiling add up to the length of the interval. -/
theorem Tiles.sum_eq (h : Tiles hi lo l) : lo + (l.map Prod.snd).sum = hi := by
  induction l generalizing lo with
  | nil =>
      simpa using h
  | cons x l ih =>
      have htail := ih h.2.2
      simp only [List.map_cons, List.sum_cons]
      omega

/-- A tiling lies inside its interval. -/
theorem Tiles.le (h : Tiles hi lo l) : lo ≤ hi := by
  have hsum := h.sum_eq
  omega

/-- Every extent of a tiling lies inside the interval. -/
theorem Tiles.mem_bounds {x : Nat × Nat} (h : Tiles hi lo l) (hx : x ∈ l) :
    lo ≤ x.1 ∧ 0 < x.2 ∧ x.1 + x.2 ≤ hi := by
  induction l generalizing lo with
  | nil =>
      simp at hx
  | cons y l ih =>
      obtain ⟨hy, hpos, htail⟩ := h
      rcases List.mem_cons.mp hx with rfl | hmem
      · have hle := htail.le
        omega
      · have hb := ih htail hmem
        omega

/-- Two extents of a tiling that start at the same point are the same entry. -/
theorem Tiles.base_injOn {f : α → Nat × Nat} {l : List α}
    (h : Tiles hi lo (l.map f)) (hx : x ∈ l) (hy : y ∈ l) (hxy : (f x).1 = (f y).1) : x = y := by
  induction l generalizing lo with
  | nil =>
      simp at hx
  | cons a l ih =>
      rw [List.map_cons] at h
      obtain ⟨ha, hpos, htail⟩ := h
      have hlater : ∀ z, z ∈ l → (f a).1 < (f z).1 := by
        intro z hz
        have hb := htail.mem_bounds (List.mem_map_of_mem (f := f) hz)
        omega
      rcases List.mem_cons.mp hx with rfl | hx'
      · rcases List.mem_cons.mp hy with rfl | hy'
        · rfl
        · have := hlater y hy'
          omega
      · rcases List.mem_cons.mp hy with rfl | hy'
        · have := hlater x hx'
          omega
        · exact ih htail hx' hy'

/-- Two entries of a tiling do not overlap. -/
theorem Tiles.disjoint {f : α → Nat × Nat} {l : List α}
    (h : Tiles hi lo (l.map f)) (hx : x ∈ l) (hy : y ∈ l) (hne : x ≠ y) :
    (f x).1 + (f x).2 ≤ (f y).1 ∨ (f y).1 + (f y).2 ≤ (f x).1 := by
  induction l generalizing lo with
  | nil =>
      simp at hx
  | cons a l ih =>
      rw [List.map_cons] at h
      obtain ⟨ha, _, htail⟩ := h
      have hlater : ∀ z, z ∈ l → (f a).1 + (f a).2 ≤ (f z).1 := by
        intro z hz
        have hb := htail.mem_bounds (List.mem_map_of_mem (f := f) hz)
        omega
      rcases List.mem_cons.mp hx with rfl | hx'
      · rcases List.mem_cons.mp hy with rfl | hy'
        · exact absurd rfl hne
        · exact Or.inl (hlater y hy')
      · rcases List.mem_cons.mp hy with rfl | hy'
        · exact Or.inr (hlater x hx')
        · exact ih htail hx' hy'

end Tiles

end Lib
end Elks
