import Mathlib.Data.Set.Card
import Mathlib.Tactic

/-!
# Counting the keys of a table

A table gives each key a value.  `tally` is the number of keys with a given value.
The lemmas say how it moves when one key is given another value.
-/

namespace Elks
namespace Lib

open Function (update update_of_ne update_self)

universe u v

section Tally

variable {K : Type u} {N : Type v} {f : K → N} {k : K} {b j : N}

/-- The number of keys with value `j`. -/
noncomputable def tally (f : K → N) (j : N) : Nat :=
  Set.ncard {k | f k = j}

/-- Values that are neither the old nor the new one keep their count. -/
theorem tally_update_other [DecidableEq K] (hold : j ≠ f k) (hnew : j ≠ b) :
    tally (update f k b) j = tally f j := by
  unfold tally
  congr 1
  ext k'
  by_cases he : k' = k
  · subst he
    simp only [Set.mem_ofPred_eq, update_self]
    exact ⟨fun hb => absurd hb.symm hnew, fun hf => absurd hf.symm hold⟩
  · simp only [Set.mem_ofPred_eq, update_of_ne he]

/-- A new value is counted once more. -/
theorem tally_gain [DecidableEq K] (h : Set.Finite {k' | f k' = b}) (hk : f k ≠ b) :
    tally (update f k b) b = tally f b + 1 := by
  unfold tally
  rw [← Set.ncard_insert_of_notMem (show k ∉ {k' | f k' = b} from hk) h]
  congr 1
  ext k'
  by_cases he : k' = k
  · subst he
    simp
  · simp [he]

/-- The old value is counted once less. -/
theorem tally_loss [DecidableEq K] (h : Set.Finite {k' | f k' = f k}) (hb : b ≠ f k) :
    tally (update f k b) (f k) + 1 = tally f (f k) := by
  have hback : update (update f k b) k (f k) = f := by
    simp
  have hsub : {k' | update f k b k' = f k} ⊆ {k' | f k' = f k} := by
    intro k' hk'
    rw [Set.mem_ofPred_eq] at hk' ⊢
    by_cases he : k' = k
    · rw [he]
    · rwa [update_of_ne he] at hk'
  have hgain := tally_gain (h.subset hsub) (k := k) (by simpa using hb)
  rw [hback] at hgain
  exact hgain.symm

/-- No value is counted more often than there are keys. -/
theorem tally_le_card [Finite K] (f : K → N) (j : N) : tally f j ≤ Nat.card K := by
  unfold tally
  rw [← Set.ncard_univ]
  exact Set.ncard_le_ncard (Set.subset_univ _)

/-- A value that is given to no key is not counted more often. -/
theorem tally_update_le_of_ne [DecidableEq K] [Finite K] (hb : b ≠ j) :
    tally (update f k b) j ≤ tally f j := by
  refine Set.ncard_le_ncard ?_ (Set.toFinite _)
  intro k' hk'
  rw [Set.mem_ofPred_eq] at hk' ⊢
  by_cases he : k' = k
  · subst he
    rw [update_self] at hk'
    exact absurd hk' hb
  · rwa [update_of_ne he] at hk'

/-- One key counts once at most. -/
theorem tally_update_le [DecidableEq K] [Finite K] :
    tally (update f k b) j ≤ tally f j + 1 := by
  refine le_trans (Set.ncard_le_ncard ?_ (Set.toFinite _)) (Set.ncard_insert_le k _)
  intro k' hk'
  by_cases he : k' = k
  · exact Or.inl he
  · rw [Set.mem_ofPred_eq, update_of_ne he] at hk'
    exact Or.inr hk'

theorem tally_pos_of_finite [Finite K] (hk : f k = j) :
    0 < tally f j :=
  (Set.ncard_pos (Set.toFinite _)).mpr ⟨k, hk⟩

theorem tally_eq_zero_of_finite [Finite K] : tally f j = 0 ↔ ∀ k, f k ≠ j := by
  rw [tally, Set.ncard_eq_zero (Set.toFinite _), Set.eq_empty_iff_forall_notMem]
  rfl

end Tally

end Lib
end Elks
