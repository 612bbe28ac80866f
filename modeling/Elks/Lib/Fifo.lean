import Mathlib.Tactic

/-!
# Circular buffers

A buffer of `n` places holds a queue from place `start` on, going round at the end.
Bytes are moved in pieces that do not go round: `queued_eq_slice_append` takes a
piece off the front, `queued_copyIn` puts one behind the end.
-/

namespace Elks
namespace Lib

universe u

section Fifo

variable {α : Type u} {base : Nat → α} {n start len k : Nat} {xs : List α}

/-- The queue of `len` elements from place `start` on. -/
def queued (n : Nat) (base : Nat → α) (start len : Nat) : List α :=
  (List.range len).map fun i => base ((start + i) % n)

/-- What lies in `k` places in a row. -/
def slice (base : Nat → α) (start k : Nat) : List α :=
  (List.range k).map fun i => base (start + i)

/-- The buffer after a list has been copied to place `start` and those behind. -/
def copyIn (base : Nat → α) (start : Nat) (xs : List α) : Nat → α :=
  fun j => if h : start ≤ j ∧ j - start < xs.length then xs.get ⟨j - start, h.2⟩ else base j

@[simp] theorem queued_length : (queued n base start len).length = len := by
  simp [queued]

@[simp] theorem slice_length : (slice base start k).length = k := by
  simp [slice]

theorem queued_eq_nil : queued n base start len = [] ↔ len = 0 := by
  rw [← List.length_eq_zero_iff, queued_length]

/-- A queue in two parts. -/
theorem queued_add (m : Nat) :
    queued n base start (len + m) =
      queued n base start len ++ queued n base ((start + len) % n) m := by
  unfold queued
  rw [List.range_add, List.map_append, List.map_map]
  congr 1
  refine List.map_congr_left fun i _ => ?_
  simp only [Function.comp_apply]
  rw [Nat.mod_add_mod, Nat.add_assoc]

theorem queued_eq_slice (h : start + k ≤ n) : queued n base start k = slice base start k := by
  refine List.map_congr_left fun i hi => ?_
  have hik := List.mem_range.mp hi
  rw [Nat.mod_eq_of_lt (by omega)]

/-- A piece is taken off the front. -/
theorem queued_eq_slice_append (hk : k ≤ len) (hn : start + k ≤ n) :
    queued n base start len =
      slice base start k ++ queued n base ((start + k) % n) (len - k) := by
  have hsplit : queued n base start (k + (len - k)) = _ := queued_add (len - k)
  rw [Nat.add_sub_cancel' hk] at hsplit
  rw [hsplit, queued_eq_slice hn]

theorem copyIn_of_lt {i : Nat} (hi : i < xs.length) :
    copyIn base start xs (start + i) = xs.get ⟨i, hi⟩ := by
  have hin : start ≤ start + i ∧ start + i - start < xs.length := by
    rw [Nat.add_sub_cancel_left]
    exact ⟨Nat.le_add_right _ _, hi⟩
  unfold copyIn
  rw [dif_pos hin]
  simp

theorem slice_copyIn : slice (copyIn base start xs) start xs.length = xs := by
  refine List.ext_getElem (by simp) ?_
  intro i _ hi
  simp only [slice, List.getElem_map, List.getElem_range, copyIn_of_lt hi]
  rfl

/-- Places outside the copied ones keep what they hold. -/
theorem copyIn_of_not {j : Nat} (h : ¬(start ≤ j ∧ j - start < xs.length)) :
    copyIn base start xs j = base j :=
  dif_neg h

/-- A piece is put behind the end. -/
theorem queued_copyIn (hlen : len + xs.length ≤ n) (hend : (start + len) % n + xs.length ≤ n) :
    queued n (copyIn base ((start + len) % n) xs) start (len + xs.length) =
      queued n base start len ++ xs := by
  rw [queued_add, queued_eq_slice hend, slice_copyIn]
  congr 1
  refine List.map_congr_left fun i hi => copyIn_of_not ?_
  rintro ⟨hle, hlt⟩
  have hil := List.mem_range.mp hi
  -- the place would be both the `i`-th and one behind the end
  have heq : (start + i) % n = (start + len + ((start + i) % n - (start + len) % n)) % n := by
    rw [← Nat.mod_add_mod (start + len), Nat.add_sub_cancel' hle, Nat.mod_mod]
  have hmod : start + i ≡ start + len + ((start + i) % n - (start + len) % n) [MOD n] := heq
  rw [Nat.add_assoc] at hmod
  have hdvd := (Nat.modEq_iff_dvd' (by omega)).mp (Nat.ModEq.add_left_cancel' start hmod)
  have hpos := Nat.le_of_dvd (by omega) hdvd
  omega

end Fifo

end Lib
end Elks
