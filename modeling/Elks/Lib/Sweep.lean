import Mathlib.Data.List.Perm.Basic

/-!
# Sweeps over a queue

An elevator serves its queue in sweeps.  Inside a sweep each entry is in order
with the next one, so a queue has one sweep more than it has breaks.  A new entry
goes behind the first entry `t` that it follows in order, or behind which a new
sweep starts, provided that it is in order with the entry after `t`; else it goes
to the end.

* `sweepInsert` is that insertion.
* `breaks_sweepInsert`: it makes no second break, if the new entry can be
  compared with the others.
-/

namespace Elks
namespace Lib

section Sweep

variable {α : Type} (r : α → α → Bool)

/-- The positions at which an entry is not in order with the next one. -/
def breaks : List α → Nat
  | [] => 0
  | [_] => 0
  | x :: y :: l => (if r x y then 0 else 1) + breaks (y :: l)

/-- Where the elevator puts `x` behind `t`, with `l` the entries after `t`. -/
def sweepInsert (x : α) : α → List α → List α
  | t, [] => [t, x]
  | t, y :: l =>
      if (r t x || !r t y) && r x y then t :: x :: y :: l
      else t :: sweepInsert x y l

variable {r} {x t : α} {l : List α}

/-- The head stays where it is. -/
theorem sweepInsert_head : ∃ m, sweepInsert r x t l = t :: m := by
  cases l with
  | nil => exact ⟨[x], rfl⟩
  | cons y l =>
      rw [sweepInsert]
      split
      · exact ⟨_, rfl⟩
      · exact ⟨_, rfl⟩

/-- The entry is put behind one of the others. -/
theorem sweepInsert_split :
    ∃ a t' b, t :: l = a ++ t' :: b ∧ sweepInsert r x t l = a ++ t' :: x :: b := by
  induction l generalizing t with
  | nil => exact ⟨[], t, [], rfl, rfl⟩
  | cons y l ih =>
      rw [sweepInsert]
      split
      · exact ⟨[], t, y :: l, rfl, rfl⟩
      · obtain ⟨a, t', b, hold, hnew⟩ := ih (t := y)
        refine ⟨t :: a, t', b, ?_, ?_⟩
        · rw [hold, List.cons_append]
        · rw [hnew, List.cons_append]

theorem sweepInsert_perm : (sweepInsert r x t l).Perm (x :: t :: l) := by
  obtain ⟨a, t', b, hold, hnew⟩ := sweepInsert_split (r := r) (x := x) (t := t) (l := l)
  rw [hnew, hold]
  exact ((List.Perm.swap x t' b).append_left a).trans List.perm_middle

/-- A break between the first two entries, and those after them. -/
theorem breaks_cons_sweepInsert {y : α} :
    breaks r (t :: sweepInsert r x y l) =
      (if r t y then 0 else 1) + breaks r (sweepInsert r x y l) := by
  obtain ⟨m, hm⟩ := sweepInsert_head (r := r) (x := x) (t := y) (l := l)
  rw [hm, breaks]

/-- An entry that follows the first one of a single sweep is put into it. -/
theorem breaks_sweepInsert_zero (hl : breaks r (t :: l) = 0) (ht : r t x = true)
    (hx : ∀ y, y ∈ l → r x y = true ∨ r y x = true) : breaks r (sweepInsert r x t l) = 0 := by
  induction l generalizing t with
  | nil => simp [sweepInsert, breaks, ht]
  | cons y l ih =>
      rw [breaks] at hl
      have hrest : breaks r (y :: l) = 0 := by omega
      rw [sweepInsert]
      split
      · rename_i hplace
        have hxy : r x y = true := (Bool.and_eq_true_iff.mp hplace).2
        rw [breaks, breaks, if_pos ht, if_pos hxy, hrest]
      · rename_i hplace
        have hyx : r y x = true := by
          refine (hx y List.mem_cons_self).resolve_left fun hxy => hplace ?_
          rw [ht, hxy]
          rfl
        rw [breaks_cons_sweepInsert, ih hrest hyx fun z hz => hx z (List.mem_cons_of_mem y hz)]
        omega

/-- The insertion makes no second break. -/
theorem breaks_sweepInsert (hl : breaks r (t :: l) ≤ 1)
    (hx : ∀ y, y ∈ l → r x y = true ∨ r y x = true) : breaks r (sweepInsert r x t l) ≤ 1 := by
  induction l generalizing t with
  | nil =>
      simp only [sweepInsert, breaks]
      split <;> omega
  | cons y l ih =>
      rw [breaks] at hl
      have hx' : ∀ z, z ∈ l → r x z = true ∨ r z x = true :=
        fun z hz => hx z (List.mem_cons_of_mem y hz)
      rw [sweepInsert]
      by_cases hty : r t y = true
      · rw [if_pos hty] at hl
        split
        · -- the place is inside a sweep
          rename_i hplace
          obtain ⟨hfront, hxy⟩ := Bool.and_eq_true_iff.mp hplace
          have htx : r t x = true := by simpa [hty] using hfront
          rw [breaks, breaks, if_pos htx, if_pos hxy]
          omega
        · have hrest := ih (t := y) (by omega) hx'
          rw [breaks_cons_sweepInsert, if_pos hty]
          omega
      · rw [if_neg hty] at hl
        have hrest : breaks r (y :: l) = 0 := by omega
        split
        · -- the place is at the start of the second sweep
          rename_i hplace
          have hxy : r x y = true := (Bool.and_eq_true_iff.mp hplace).2
          rw [breaks, breaks, if_pos hxy, hrest]
          split <;> omega
        · rename_i hplace
          have hyx : r y x = true := by
            refine (hx y List.mem_cons_self).resolve_left fun hxy => hplace ?_
            rw [eq_false_of_ne_true hty, hxy]
            simp
          refine Nat.le_of_eq ?_
          rw [breaks_cons_sweepInsert, if_neg hty, breaks_sweepInsert_zero hrest hyx hx']

/-- Only the order of the entries matters. -/
theorem breaks_congr {r' : α → α → Bool} (h : ∀ x, x ∈ l → ∀ y, y ∈ l → r' x y = r x y) :
    breaks r' l = breaks r l := by
  induction l with
  | nil => rfl
  | cons x l ih =>
      cases l with
      | nil => rfl
      | cons y l =>
          rw [breaks, breaks, h x List.mem_cons_self y (by simp), ih]
          exact fun x hx y hy => h x (List.mem_cons_of_mem _ hx) y (List.mem_cons_of_mem _ hy)

/-- Taking the head away makes no break. -/
theorem breaks_tail_le : breaks r l ≤ breaks r (t :: l) := by
  cases l with
  | nil => exact Nat.zero_le _
  | cons y l =>
      rw [breaks]
      omega

/-- A queue with at most one break is one sweep, or two one after the other. -/
theorem sweeps_of_breaks (hl : breaks r l ≤ 1) :
    ∃ a b, l = a ++ b ∧ breaks r a = 0 ∧ breaks r b = 0 := by
  induction l with
  | nil => exact ⟨[], [], rfl, rfl, rfl⟩
  | cons x l ih =>
      obtain ⟨a, b, rfl, ha, hb⟩ := ih (Nat.le_trans breaks_tail_le hl)
      cases a with
      | nil => exact ⟨[x], b, rfl, rfl, hb⟩
      | cons y a =>
          rw [List.cons_append, breaks] at hl
          by_cases hxy : r x y = true
          · refine ⟨x :: y :: a, b, rfl, ?_, hb⟩
            rw [breaks, if_pos hxy, ha]
          · rw [if_neg hxy] at hl
            refine ⟨[x], y :: (a ++ b), rfl, rfl, ?_⟩
            omega

end Sweep

end Lib
end Elks
