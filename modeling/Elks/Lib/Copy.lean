import Mathlib.Data.Set.Function
import Mathlib.Tactic

/-!
# Copying cell by cell

`copies m s d n` makes `n` copies in a memory one after the other, number `i` from cell `s i`
to cell `d i`.  Cells that were written may be read later, so what comes out depends on the
order.  `Moved` is what a copy should do: the cells `d i` hold what the cells `s i` held at
the start.

`forall_moved_iff`: the copies do that in every memory just if none of them reads a cell that
an earlier one has written.
-/

namespace Elks
namespace Lib

universe u v

section Copy

variable {α : Type u} {β : Type v} [DecidableEq α]

/-- `n` copies, number `i` from `s i` to `d i`. -/
def copies (m : α → β) (s d : Nat → α) : Nat → α → β
  | 0 => m
  | n + 1 => Function.update (copies m s d n) (d n) (copies m s d n (s n))

/-- The cells `d i` hold what the cells `s i` held, and the rest is as it was. -/
structure Moved (m m' : α → β) (s d : Nat → α) (n : Nat) : Prop where
  copied : ∀ i, i < n → m' (d i) = m (s i)
  rest : ∀ a, (∀ i, i < n → a ≠ d i) → m' a = m a

variable {m : α → β} {s d : Nat → α} {n i : Nat}

/-- The first copy and the others. -/
theorem copies_succ (m : α → β) (s d : Nat → α) (n : Nat) :
    copies m s d (n + 1) =
      copies (Function.update m (d 0) (m (s 0))) (fun i => s (i + 1)) (fun i => d (i + 1)) n := by
  induction n with
  | zero => rfl
  | succ n ih =>
      rw [copies, ih, copies]

theorem copies_congr {s' d' : Nat → α} (hs : ∀ i, i < n → s i = s' i)
    (hd : ∀ i, i < n → d i = d' i) : copies m s d n = copies m s' d' n := by
  induction n with
  | zero => rfl
  | succ n ih =>
      have hearlier := ih (fun i hi => hs i (Nat.lt_succ_of_lt hi))
        fun i hi => hd i (Nat.lt_succ_of_lt hi)
      rw [copies, copies, hearlier, hs n (Nat.lt_succ_self n), hd n (Nat.lt_succ_self n)]

/-- A cell that no copy writes. -/
theorem copies_of_ne {a : α} (h : ∀ i, i < n → a ≠ d i) : copies m s d n a = m a := by
  induction n with
  | zero => rfl
  | succ n ih =>
      rw [copies, Function.update_of_ne (h n (Nat.lt_succ_self n))]
      exact ih fun i hi => h i (Nat.lt_succ_of_lt hi)

/-- What a copy writes stays, where all of them write different cells. -/
theorem copies_dest (hd : Set.InjOn d (Set.Iio n)) (hi : i < n) :
    copies m s d n (d i) = copies m s d i (s i) := by
  induction n with
  | zero => omega
  | succ n ih =>
      rw [copies]
      by_cases hin : i = n
      · rw [hin, Function.update_self]
      · have hne : d i ≠ d n := fun h => hin (hd hi (Nat.lt_succ_self n) h)
        rw [Function.update_of_ne hne]
        exact ih (hd.mono (Set.Iio_subset_Iio (Nat.le_succ n))) (by omega)

theorem copies_moved (hd : Set.InjOn d (Set.Iio n)) (hapart : ∀ i j, i < j → j < n → d i ≠ s j) :
    Moved m (copies m s d n) s d n where
  copied i hi := by
    rw [copies_dest hd hi]
    exact copies_of_ne fun j hj => (hapart j i hj hi).symm
  rest a ha := copies_of_ne ha

/-- A copy that reads what an earlier one has written spoils some memory. -/
theorem exists_not_moved [Nontrivial β] (hd : Set.InjOn d (Set.Iio n))
    (hs : Set.InjOn s (Set.Iio n)) (h : ∃ i j, i < j ∧ j < n ∧ d i = s j) :
    ∃ m : α → β, ¬Moved m (copies m s d n) s d n := by
  obtain ⟨x, y, hxy⟩ := exists_pair_ne β
  have hex : ∃ j, j < n ∧ ∃ i, i < j ∧ d i = s j := by
    obtain ⟨i, j, hij, hj, he⟩ := h
    exact ⟨j, hj, i, hij, he⟩
  -- the first copy that reads a cell already written
  classical
  obtain ⟨hj, i, hij, he⟩ := Nat.find_spec hex
  have hfirst : ∀ k, k < Nat.find hex → ∀ l, l < k → d l ≠ s k := by
    intro k hk l hl he'
    exact Nat.find_min hex hk ⟨hk.trans hj, l, hl, he'⟩
  refine ⟨fun a => if a = s (Nat.find hex) then x else y, fun hmoved => ?_⟩
  have hcopied := hmoved.copied _ hj
  rw [if_pos rfl, copies_dest hd hj, ← he,
    copies_dest (hd.mono (Set.Iio_subset_Iio hj.le)) hij,
    copies_of_ne fun l hl => (hfirst i hij l hl).symm, if_neg] at hcopied
  · exact hxy hcopied.symm
  · intro hsame
    exact hij.ne (hs (hij.trans hj) hj (hsame.trans he))

theorem forall_moved_iff [Nontrivial β] (hd : Set.InjOn d (Set.Iio n))
    (hs : Set.InjOn s (Set.Iio n)) :
    (∀ m : α → β, Moved m (copies m s d n) s d n) ↔ ∀ i j, i < j → j < n → d i ≠ s j := by
  constructor
  · intro hall i j hij hj he
    obtain ⟨m, hm⟩ := exists_not_moved (β := β) hd hs ⟨i, j, hij, hj, he⟩
    exact hm (hall m)
  · intro hapart m
    exact copies_moved hd hapart

omit [DecidableEq α] in
/-- What a copy should do does not depend on the order. -/
theorem moved_reverse {m' : α → β} :
    Moved m m' (fun i => s (n - 1 - i)) (fun i => d (n - 1 - i)) n ↔ Moved m m' s d n := by
  have hback {i : Nat} (hi : i < n) : n - 1 - (n - 1 - i) = i := by omega
  constructor
  · rintro ⟨hcopied, hrest⟩
    refine ⟨fun i hi => ?_, fun a ha => hrest a fun i hi => ha _ (by omega)⟩
    have h := hcopied (n - 1 - i) (by omega)
    rwa [hback hi] at h
  · rintro ⟨hcopied, hrest⟩
    refine ⟨fun i hi => hcopied _ (by omega), fun a ha => hrest a fun i hi => ?_⟩
    have h := ha (n - 1 - i) (by omega)
    rwa [hback hi] at h

end Copy

end Lib
end Elks
