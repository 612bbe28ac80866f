import Mathlib.Tactic

/-!
# Machine words and the ways a kernel routine can fail to return

Unsigned words of width `w` are natural numbers below `2 ^ w`; the operations
that can leave that range are written with an explicit wrap.  A routine that
may stop the machine, follow a null pointer, spin, or go to sleep returns its
value in `Except Fault`.
-/

namespace Elks
namespace Lib

/-- Why a routine does not come back to its caller. -/
inductive Fault
  | panic (message : String)
  | nullPointer
  | endless
  | sleeps
deriving DecidableEq, Repr

/-- The fault of a routine, if it had one. -/
def faultOf {α : Type} : Except Fault α → Option Fault
  | .ok _ => none
  | .error f => some f

theorem faultOf_eq_some {α : Type} {x : Except Fault α} {f : Fault} :
    faultOf x = some f ↔ x = .error f := by
  cases x <;> simp [faultOf]

/-- The first of two steps of a routine that came back. -/
theorem exists_of_bind {ε α β : Type} {x : Except ε α} {f : α → Except ε β} {b : β}
    (h : (x >>= f) = .ok b) : ∃ a, x = .ok a ∧ f a = .ok b := by
  cases x with
  | error e => cases h
  | ok a => exact ⟨a, rfl, h⟩

/-- What a routine returns, if it comes back, has the property `P`. -/
def Yields {ε α : Type} (P : α → Prop) (x : Except ε α) : Prop :=
  ∀ a, x = .ok a → P a

section Yields

variable {ε α β : Type} {P : β → Prop}

theorem Yields.ok {b : β} (h : P b) : Yields P (.ok b : Except ε β) := by
  intro a ha
  rwa [← Except.ok.inj ha]

theorem Yields.bind {x : Except ε α} {f : α → Except ε β} (h : ∀ a, Yields P (f a)) :
    Yields P (x >>= f) := by
  intro b hb
  obtain ⟨a, -, ha⟩ := exists_of_bind hb
  exact h a b ha

theorem Yields.ite {c : Prop} [Decidable c] {x y : Except ε β} (hx : Yields P x) (hy : Yields P y) :
    Yields P (if c then x else y) := by
  by_cases h : c
  · rwa [if_pos h]
  · rwa [if_neg h]

end Yields

theorem ok_of_toOption {ε α : Type} {x : Except ε α} {a : α}
    (h : x.toOption = some a) : x = .ok a := by
  cases x with
  | ok b => exact congrArg Except.ok (Option.some.inj h)
  | error e => cases h

/-- Truncation to an unsigned word of width `w`. -/
def wrap (w n : Nat) : Nat :=
  n % 2 ^ w

/-- `a - b` on unsigned words of width `w`. -/
def wrapSub (w a b : Nat) : Nat :=
  wrap w (a + (2 ^ w - b))

theorem wrap_lt (w n : Nat) :
    wrap w n < 2 ^ w :=
  Nat.mod_lt _ (Nat.two_pow_pos w)

theorem wrapSub_lt (w a b : Nat) :
    wrapSub w a b < 2 ^ w :=
  wrap_lt w _

theorem wrap_of_lt {w n : Nat} (h : n < 2 ^ w) :
    wrap w n = n :=
  Nat.mod_eq_of_lt h

theorem wrap_wrap (w n : Nat) :
    wrap w (wrap w n) = wrap w n :=
  wrap_of_lt (wrap_lt w n)

theorem wrapSub_of_le {w a b : Nat} (hba : b ≤ a) (ha : a < 2 ^ w) : wrapSub w a b = a - b := by
  have he : a + (2 ^ w - b) = (a - b) + 2 ^ w := by omega
  unfold wrapSub wrap
  rw [he, Nat.add_mod_right]
  exact Nat.mod_eq_of_lt (by omega)

end Lib
end Elks
