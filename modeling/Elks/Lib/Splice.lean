import Mathlib.Tactic
import Mathlib.Logic.Function.Basic

/-!
# A range of bytes kept in blocks

A store of blocks of `B` entries is also one long array, entry `p` being entry
`p % B` of block `p / B` (`flatten`).  A copy into an array puts the entries of
another array in a range of it (`splice`).

* `splice_splice`: two copies next to each other are one copy.
* `flatten_update`: a copy into one block is a copy into the long array.
* `splice_moved_iff`: a copy that has gone to another place is the right one
  exactly if what it would have copied was in both places.
-/

namespace Elks
namespace Lib

/-- The array `m` with the first `n` entries of `f` from `a` on. -/
def splice {α : Type} (m : Nat → α) (a n : Nat) (f : Nat → α) : Nat → α :=
  fun x => if a ≤ x ∧ x < a + n then f (x - a) else m x

section Splice

variable {α : Type} {m f g : Nat → α} {a b n k i : Nat}

theorem splice_inside (hi : i < n) : splice m a n f (a + i) = f i := by
  unfold splice
  rw [if_pos (by omega), Nat.add_sub_cancel_left]

theorem splice_outside (h : i < a ∨ a + n ≤ i) : splice m a n f i = m i := by
  unfold splice
  rw [if_neg (by omega)]

@[simp] theorem splice_zero : splice m a 0 f = m := by
  funext x
  exact splice_outside (by omega)

/-- A copy that goes on where the last one ended. -/
theorem splice_splice (hg : ∀ i, i < k → g i = f (n + i)) :
    splice (splice m a n f) (a + n) k g = splice m a (n + k) f := by
  funext x
  rcases Nat.lt_or_ge x a with hlow | hlow
  · rw [splice_outside (by omega), splice_outside (by omega), splice_outside (by omega)]
  · obtain ⟨i, rfl⟩ := Nat.exists_eq_add_of_le hlow
    rcases Nat.lt_or_ge i n with hin | hin
    · rw [splice_outside (by omega), splice_inside hin, splice_inside (by omega)]
    · obtain ⟨j, rfl⟩ := Nat.exists_eq_add_of_le hin
      rcases Nat.lt_or_ge j k with hj | hj
      · rw [← Nat.add_assoc, splice_inside hj, Nat.add_assoc, splice_inside (by omega), hg j hj]
      · rw [splice_outside (by omega), splice_outside (by omega), splice_outside (by omega)]

/-- A copy to `b` does what the copy to `a` should do, where the two ranges do not
meet, exactly if the entries were in both places before. -/
theorem splice_moved_iff (hapart : b + n ≤ a) :
    splice m b n f = splice m a n f ↔ ∀ i, i < n → m (b + i) = f i ∧ m (a + i) = f i := by
  constructor
  · intro h i hi
    have hb := congrFun h (b + i)
    have ha := congrFun h (a + i)
    rw [splice_inside hi, splice_outside (by omega)] at hb
    rw [splice_inside hi, splice_outside (by omega)] at ha
    exact ⟨hb.symm, ha⟩
  · intro h
    have hsame : ∀ c, (∀ i, i < n → m (c + i) = f i) → splice m c n f = m := by
      intro c hc
      funext x
      by_cases hx : c ≤ x ∧ x < c + n
      · obtain ⟨i, rfl⟩ := Nat.exists_eq_add_of_le hx.1
        rw [splice_inside (by omega), hc i (by omega)]
      · exact splice_outside (by omega)
    rw [hsame b fun i hi => (h i hi).1, hsame a fun i hi => (h i hi).2]

end Splice

/-- A store of blocks as one long array. -/
def flatten {α : Type} {B : Nat} [NeZero B] (m : Nat → Fin B → α) : Nat → α :=
  fun p => m (p / B) (Fin.ofNat B p)

/-- A block with some of its entries copied from `f`. -/
def spliceBlock {α : Type} {B : Nat} (b : Fin B → α) (off n : Nat) (f : Nat → α) : Fin B → α :=
  fun j => if off ≤ j.val ∧ j.val < off + n then f (j.val - off) else b j

section Flatten

variable {α : Type} {B : Nat} [NeZero B] {m : Nat → Fin B → α} {k off n : Nat} {f : Nat → α}

theorem flatten_at (hoff : off < B) : flatten m (k * B + off) = m k ⟨off, hoff⟩ := by
  have hdiv : (k * B + off) / B = k := by
    rw [Nat.mul_comm, Nat.mul_add_div (Nat.zero_lt_of_lt hoff), Nat.div_eq_of_lt hoff,
      Nat.add_zero]
  have hmod : Fin.ofNat B (k * B + off) = ⟨off, hoff⟩ := by
    refine Fin.ext ?_
    rw [Fin.val_ofNat, Nat.mul_comm, Nat.mul_add_mod, Nat.mod_eq_of_lt hoff]
  rw [flatten, hdiv, hmod]

/-- Every place of the long array is a place of some block. -/
theorem exists_place (B : Nat) [NeZero B] (p : Nat) : ∃ k off, off < B ∧ p = k * B + off :=
  ⟨p / B, p % B, Nat.mod_lt _ (Nat.pos_of_neZero B), (Nat.div_add_mod' p B).symm⟩

/-- Copying into a block is copying into the long array. -/
theorem flatten_update (hfit : off + n ≤ B) :
    flatten (Function.update m k (spliceBlock (m k) off n f)) =
      splice (flatten m) (k * B + off) n f := by
  funext p
  obtain ⟨l, o, ho, rfl⟩ := exists_place B p
  rw [flatten_at ho]
  rcases Nat.lt_trichotomy l k with hl | rfl | hl
  · have hle : (l + 1) * B ≤ k * B := Nat.mul_le_mul_right B hl
    rw [Nat.succ_mul] at hle
    rw [Function.update_of_ne (Nat.ne_of_lt hl), splice_outside (by omega), flatten_at ho]
  · rw [Function.update_self]
    unfold spliceBlock splice
    rw [flatten_at ho]
    by_cases hin : off ≤ o ∧ o < off + n
    · rw [if_pos hin, if_pos (by omega), Nat.add_sub_add_left]
    · rw [if_neg hin, if_neg (by omega)]
  · have hle : (k + 1) * B ≤ l * B := Nat.mul_le_mul_right B hl
    rw [Nat.succ_mul] at hle
    rw [Function.update_of_ne (Nat.ne_of_gt hl), splice_outside (by omega), flatten_at ho]

end Flatten

end Lib
end Elks
