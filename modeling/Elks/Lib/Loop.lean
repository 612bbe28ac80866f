import Mathlib.Data.Finset.Card
import Mathlib.Logic.Function.Iterate

/-!
# Loops that may not end

`loop step n s` makes at most `n` rounds of a loop whose body goes from a state to
another one, or leaves the loop with a result.  `Ends step s r` says that the loop
leaves with `r` after some number of rounds.

`Ends.unique` says that there is one result, `not_ends_of_stuck` that a round which
changes nothing is repeated for ever, `loop_of_variant` that a loop ends whose rounds
lower a number, `loop_keeps` what it leaves with when its rounds keep something, and
`loop_probe` that a search ends at a candidate that is free;
`exists_free` counts that there is one.
-/

namespace Elks
namespace Lib

universe u v

section Loop

variable {σ : Type u} {ρ : Type v}

/-- At most `n` rounds. -/
def loop (step : σ → σ ⊕ ρ) : Nat → σ → Option ρ
  | 0, _ => none
  | n + 1, s =>
      match step s with
      | .inl s' => loop step n s'
      | .inr r => some r

/-- The loop leaves with `r`. -/
def Ends (step : σ → σ ⊕ ρ) (s : σ) (r : ρ) : Prop :=
  ∃ n, loop step n s = some r

variable {step : σ → σ ⊕ ρ} {s s' : σ} {r r' : ρ} {n m : Nat}

theorem loop_of_inl (h : step s = .inl s') : loop step (n + 1) s = loop step n s' := by
  simp only [loop, h]

theorem loop_of_inr (h : step s = .inr r) : loop step (n + 1) s = some r := by
  simp only [loop, h]

/-- More rounds do not change a result. -/
theorem loop_mono (h : loop step n s = some r) (hle : n ≤ m) : loop step m s = some r := by
  induction n generalizing s m with
  | zero => cases h
  | succ n ih =>
      obtain ⟨m, rfl⟩ : ∃ k, m = k + 1 := ⟨m - 1, by omega⟩
      cases hs : step s with
      | inl s' =>
          rw [loop_of_inl hs] at h ⊢
          exact ih h (by omega)
      | inr r' =>
          rw [loop_of_inr hs] at h ⊢
          exact h

theorem Ends.unique (h : Ends step s r) (h' : Ends step s r') : r = r' := by
  obtain ⟨n, hn⟩ := h
  obtain ⟨m, hm⟩ := h'
  have hmax := loop_mono hn (Nat.le_max_left n m)
  rw [loop_mono hm (Nat.le_max_right n m)] at hmax
  exact (Option.some.inj hmax).symm

theorem ends_of_inr (h : step s = .inr r) : Ends step s r :=
  ⟨1, loop_of_inr h⟩

/-- A loop whose rounds keep `I` and lower `v` ends, with a result that has `Q`. -/
theorem loop_of_variant {I : σ → Prop} {v : σ → Nat} {Q : ρ → Prop}
    (hround : ∀ s, I s →
      (∃ s', step s = .inl s' ∧ I s' ∧ v s' < v s) ∨ ∃ r, step s = .inr r ∧ Q r)
    (h : I s) (hn : v s < n) :
    ∃ r, loop step n s = some r ∧ Q r := by
  induction n generalizing s with
  | zero => omega
  | succ n ih =>
      rcases hround s h with ⟨s', hs', hI, hless⟩ | ⟨r, hr, hQ⟩
      · obtain ⟨r, hr, hQ⟩ := ih hI (by omega)
        exact ⟨r, (loop_of_inl hs').trans hr, hQ⟩
      · exact ⟨r, loop_of_inr hr, hQ⟩

/-- What a loop leaves with, whose rounds keep `I`. -/
theorem loop_keeps {I : σ → Prop} {Q : ρ → Prop}
    (hround : ∀ s, I s → (∃ s', step s = .inl s' ∧ I s') ∨ ∃ r, step s = .inr r ∧ Q r)
    (h : I s) (hr : loop step n s = some r) : Q r := by
  induction n generalizing s with
  | zero => cases hr
  | succ n ih =>
      rcases hround s h with ⟨s', hs', hI⟩ | ⟨r', hr', hQ⟩
      · rw [loop_of_inl hs'] at hr
        exact ih hI hr
      · rw [loop_of_inr hr'] at hr
        rwa [← Option.some.inj hr]

/-- A round that changes nothing is repeated for ever. -/
theorem not_ends_of_stuck (h : step s = .inl s) : ¬Ends step s r := by
  rintro ⟨n, hn⟩
  induction n with
  | zero => cases hn
  | succ n ih =>
      rw [loop_of_inl h] at hn
      exact ih hn

/-- A round that goes on to the next candidate, and leaves with it unless it is taken. -/
def probe (next : σ → σ) (taken : σ → Bool) (s : σ) : σ ⊕ σ :=
  if taken (next s) then .inl (next s) else .inr (next s)

/-- A search ends as soon as it comes to a candidate that is not taken. -/
theorem loop_probe {next : σ → σ} {taken : σ → Bool} {k : Nat}
    (hfree : taken (next^[k + 1] s) = false) :
    ∃ r, loop (probe next taken) (k + 1) s = some r ∧ taken r = false ∧
      ∃ j ≤ k, r = next^[j + 1] s := by
  induction k generalizing s with
  | zero =>
      have hround : probe next taken s = .inr (next s) := by
        rw [probe, if_neg (by simpa using hfree)]
      exact ⟨next s, loop_of_inr hround, hfree, 0, le_refl 0, rfl⟩
  | succ k ih =>
      by_cases htaken : taken (next s) = true
      · have hround : probe next taken s = .inl (next s) := by
          rw [probe, if_pos htaken]
        obtain ⟨r, hr, hr', j, hj, rfl⟩ := ih (s := next s) hfree
        exact ⟨_, (loop_of_inl hround).trans hr, hr', j + 1, by omega, rfl⟩
      · have hround : probe next taken s = .inr (next s) := by
          rw [probe, if_neg htaken]
        exact ⟨next s, loop_of_inr hround, by simpa using htaken, 0, by omega, rfl⟩

/-- Among more candidates than there are values taken, one is free. -/
theorem exists_free [DecidableEq σ] {f : Nat → σ} {S : Finset σ} {n : Nat}
    (hinj : ∀ i < n, ∀ j < n, f i = f j → i = j) (hcard : S.card < n) : ∃ k < n, f k ∉ S := by
  by_contra hall
  have hsub : (Finset.range n).image f ⊆ S := by
    intro x hx
    obtain ⟨k, hk, rfl⟩ := Finset.mem_image.mp hx
    by_contra hfree
    exact hall ⟨k, Finset.mem_range.mp hk, hfree⟩
  have hle := Finset.card_le_card hsub
  rw [Finset.card_image_of_injOn, Finset.card_range] at hle
  · omega
  · intro i hi j hj hij
    exact hinj i (Finset.mem_range.mp hi) j (Finset.mem_range.mp hj) hij

end Loop

end Lib
end Elks
