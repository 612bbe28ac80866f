import Mathlib.Tactic

/-!
# Exclusive ownership by places

A store has places, and a place may hold the name of a unit; zero is the name
of nothing.  A table says which units are taken.  The units are owned
exclusively when

* every name held by a live place is the name of a taken unit, and
* no two live places hold the same name.

The lemmas say that taking a fresh unit into an empty place, giving a unit
back, and a change of the set of live places keep ownership exclusive.
-/

namespace Elks
namespace Lib

universe u v

section Owner

variable {P : Type u} {N : Type v} [Zero N]

/-- Live places hold distinct names of taken units. -/
structure Exclusive
    (live : P → Prop)
    (ptr : P → N)
    (taken : N → Prop) : Prop where
  taken_of_held : ∀ p, live p → ptr p ≠ 0 → taken (ptr p)
  unique : ∀ p q, live p → live q → ptr p ≠ 0 → ptr p = ptr q → p = q

variable {live live' : P → Prop} {ptr ptr' : P → N} {taken taken' : N → Prop}

/-- A unit that is not taken is held by no live place. -/
theorem Exclusive.ne_of_free (h : Exclusive live ptr taken) {z : N} (hz : z ≠ 0) (hfree : ¬ taken z)
    {p : P} (hp : live p) : ptr p ≠ z := by
  intro he
  exact hfree (he ▸ h.taken_of_held p hp (by rw [he]; exact hz))

/-- Distinct live places hold distinct names. -/
theorem Exclusive.ptr_ne (h : Exclusive live ptr taken) {p q : P} (hp : live p) (hq : live q)
    (hpq : p ≠ q) (h0 : ptr p ≠ 0) : ptr q ≠ ptr p := by
  intro he
  exact hpq (h.unique p q hp hq h0 he.symm)

/-- Every held name of the new store was held in the same place before, and
nothing still held was given back. -/
theorem Exclusive.shrink (h : Exclusive live ptr taken)
    (hlive : ∀ p, live' p → ptr' p ≠ 0 → live p ∧ ptr' p = ptr p)
    (htaken : ∀ p, live' p → ptr' p ≠ 0 → taken (ptr p) → taken' (ptr p)) :
    Exclusive live' ptr' taken' := by
  constructor
  · intro p hp h0
    obtain ⟨hl, he⟩ := hlive p hp h0
    rw [he] at h0 ⊢
    exact htaken p hp (he ▸ h0) (h.taken_of_held p hl h0)
  · intro p q hp hq h0 he
    obtain ⟨hlp, hep⟩ := hlive p hp h0
    obtain ⟨hlq, heq⟩ := hlive q hq (he ▸ h0)
    exact h.unique p q hlp hlq (hep ▸ h0) (by rw [← hep, ← heq, he])

variable [DecidableEq P]

/-- A unit that was free goes into one place. -/
theorem Exclusive.take (h : Exclusive live ptr taken) {p : P} {z : N} (hz : z ≠ 0)
    (hfree : ¬ taken z) (hptr : ∀ q, live q → ptr' q = Function.update ptr p z q)
    (htaken : ∀ w, taken' w ↔ taken w ∨ w = z) : Exclusive live ptr' taken' := by
  constructor
  · intro q hq h0
    rw [hptr q hq] at h0 ⊢
    rw [htaken]
    by_cases hqp : q = p
    · subst hqp
      rw [Function.update_self]
      exact Or.inr rfl
    · rw [Function.update_of_ne hqp] at h0 ⊢
      exact Or.inl (h.taken_of_held q hq h0)
  · intro q r hq hr h0 he
    rw [hptr q hq] at h0 he
    rw [hptr r hr] at he
    by_cases hqp : q = p
    · by_cases hrp : r = p
      · rw [hqp, hrp]
      · rw [hqp, Function.update_self, Function.update_of_ne hrp] at he
        exact absurd he.symm (h.ne_of_free hz hfree hr)
    · rw [Function.update_of_ne hqp] at h0 he
      by_cases hrp : r = p
      · rw [hrp, Function.update_self] at he
        exact absurd he (h.ne_of_free hz hfree hq)
      · rw [Function.update_of_ne hrp] at he
        exact h.unique q r hq hr h0 he

/-- The unit of one place is given back and the place is emptied. -/
theorem Exclusive.release (h : Exclusive live ptr taken) {p : P} (hp : live p) (h0 : ptr p ≠ 0)
    (hptr : ∀ q, live q → ptr' q = Function.update ptr p 0 q)
    (htaken : ∀ w, taken w → w ≠ ptr p → taken' w) : Exclusive live ptr' taken' := by
  have hother : ∀ q, live q → ptr' q ≠ 0 → q ≠ p ∧ ptr' q = ptr q := by
    intro q hq hq0
    have hqp : q ≠ p := by
      intro he
      rw [hptr q hq, he, Function.update_self] at hq0
      exact hq0 rfl
    exact ⟨hqp, by rw [hptr q hq, Function.update_of_ne hqp]⟩
  refine h.shrink (fun q hq hq0 => ⟨hq, (hother q hq hq0).2⟩) ?_
  intro q hq hq0 ht
  exact htaken _ ht (h.ptr_ne hp hq (hother q hq hq0).1.symm h0)

end Owner

end Lib
end Elks
