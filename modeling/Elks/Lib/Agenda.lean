import Mathlib.Data.List.Sort
import Mathlib.Data.List.Nodup

/-!
# Lists ordered by a key, first in first out among equals

`Agenda key p l` says that `l` holds what was put in and not taken out, `p`, ordered by
`key`, and that records with the same key stand in the order in which they were put in.

`Agenda.insert` puts a record in before the first with a greater key; `Agenda.erase`
takes one out.
-/

namespace Elks
namespace Lib

universe u v

section Agenda

variable {ι : Type u} {κ : Type v} [LinearOrder κ]

/-- `l` is `p` in the order of the keys; equal keys keep the order of `p`. -/
structure Agenda (key : ι → κ) (p l : List ι) : Prop where
  sorted : l.Pairwise fun i j => key i ≤ key j
  stable : ∀ k, l.filter (fun i => key i = k) = p.filter fun i => key i = k

variable {key key' : ι → κ} {p l : List ι} {i j : ι}

theorem Agenda.nil : Agenda key [] [] :=
  ⟨List.Pairwise.nil, fun _ => rfl⟩

theorem Agenda.mem_iff (h : Agenda key p l) : i ∈ l ↔ i ∈ p := by
  have hkey := congrArg (i ∈ ·) (h.stable (key i))
  simpa using hkey

/-- Only the keys of the records matter. -/
theorem Agenda.congr (h : Agenda key p l) (hkey : ∀ i, i ∈ p → key' i = key i) :
    Agenda key' p l := by
  refine ⟨?_, fun k => ?_⟩
  · refine h.sorted.imp_of_mem ?_
    intro i j hi hj hle
    rw [hkey i (h.mem_iff.mp hi), hkey j (h.mem_iff.mp hj)]
    exact hle
  · have hl : l.filter (fun i => key' i = k) = l.filter fun i => key i = k :=
      List.filter_congr fun i hi => by rw [hkey i (h.mem_iff.mp hi)]
    have hp : p.filter (fun i => key' i = k) = p.filter fun i => key i = k :=
      List.filter_congr fun i hi => by rw [hkey i hi]
    rw [hl, hp]
    exact h.stable k

/-- A record goes behind those with its key and before those with a greater one. -/
theorem filter_orderedInsert (k : κ) (hl : l.Pairwise fun i j => key i ≤ key j) :
    (l.orderedInsert (fun i j => key i < key j) i).filter (fun j => key j = k) =
      l.filter (fun j => key j = k) ++ [i].filter fun j => key j = k := by
  induction l with
  | nil => rfl
  | cons j l ih =>
      obtain ⟨hj, hrest⟩ := List.pairwise_cons.mp hl
      by_cases hlt : key i < key j
      · rw [List.orderedInsert_cons, if_pos hlt]
        by_cases hk : key i = k
        · -- everything behind the new record has a greater key
          have hnone : (j :: l).filter (fun m => key m = k) = [] := by
            refine List.filter_eq_nil_iff.mpr fun m hm => ?_
            have hle : key j ≤ key m := by
              rcases List.mem_cons.mp hm with rfl | hm
              · exact le_refl _
              · exact hj m hm
            simpa [← hk] using (hlt.trans_le hle).ne'
          rw [List.filter_cons_of_pos (by simpa using hk), hnone]
          simp [hk]
        · rw [List.filter_cons_of_neg (by simpa using hk)]
          simp [hk]
      · have hcons : ∀ m : List ι, (j :: m).filter (fun j => key j = k) =
            if key j = k then j :: m.filter (fun j => key j = k)
            else m.filter fun j => key j = k := by
          intro m
          simp only [List.filter_cons, decide_eq_true_eq]
        rw [List.orderedInsert_cons, if_neg hlt, hcons, hcons, ih hrest]
        split
        · exact (List.cons_append ..).symm
        · rfl

theorem pairwise_orderedInsert (hl : l.Pairwise fun i j => key i ≤ key j) :
    (l.orderedInsert (fun i j => key i < key j) i).Pairwise fun i j => key i ≤ key j := by
  induction l with
  | nil => exact List.pairwise_singleton _ _
  | cons j l ih =>
      obtain ⟨hj, hrest⟩ := List.pairwise_cons.mp hl
      by_cases hlt : key i < key j
      · rw [List.orderedInsert_cons, if_pos hlt]
        refine List.pairwise_cons.mpr ⟨fun m hm => ?_, hl⟩
        rcases List.mem_cons.mp hm with rfl | hm
        · exact hlt.le
        · exact hlt.le.trans (hj m hm)
      · rw [List.orderedInsert_cons, if_neg hlt]
        refine List.pairwise_cons.mpr ⟨fun m hm => ?_, ih hrest⟩
        rcases (List.mem_orderedInsert _).mp hm with rfl | hm
        · exact not_lt.mp hlt
        · exact hj m hm

theorem Agenda.insert (h : Agenda key p l) :
    Agenda key (p ++ [i]) (l.orderedInsert (fun i j => key i < key j) i) := by
  refine ⟨pairwise_orderedInsert h.sorted, fun k => ?_⟩
  rw [filter_orderedInsert k h.sorted, h.stable k, List.filter_append]

/-- The records with keys below a bound come first. -/
theorem Agenda.head_of_lt {k : κ} (h : Agenda key p (i :: l)) (hj : j ∈ p) (hlt : key j < k) :
    key i < k := by
  rcases List.mem_cons.mp (h.mem_iff.mpr hj) with rfl | hmem
  · exact hlt
  · exact ((List.pairwise_cons.mp h.sorted).1 j hmem).trans_lt hlt

variable [DecidableEq ι]

theorem Agenda.nodup (h : Agenda key p l) (hp : p.Nodup) : l.Nodup := by
  rw [List.nodup_iff_count_le_one] at hp ⊢
  intro i
  have hcount : ∀ m : List ι, (m.filter fun j => key j = key i).count i = m.count i := by
    intro m
    exact List.count_filter (by simp)
  have hi := congrArg (List.count i) (h.stable (key i))
  rw [hcount, hcount] at hi
  rw [hi]
  exact hp i

/-- A record is taken out. -/
theorem Agenda.erase (h : Agenda key p l) (hp : p.Nodup) : Agenda key (p.erase i) (l.erase i) := by
  refine ⟨h.sorted.sublist List.erase_sublist, fun k => ?_⟩
  rw [(h.nodup hp).erase_eq_filter, hp.erase_eq_filter, List.filter_comm, h.stable k,
    List.filter_comm]

end Agenda

end Lib
end Elks
