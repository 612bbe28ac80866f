import Elks.Lib.Machine

/-!
# What a routine does to a state

A routine reads and changes a state and may fail to come back.  `Outcome A m s Q`
says of a routine `m` started in `s` that

* when it comes back, its value and the state satisfy `Q`, and
* when it fails to come back, it does so in a way that `A` allows.

Allowing nothing is total correctness and allowing everything is partial
correctness, so one statement about a routine serves both.  The rules follow the ways a
routine is put together.
-/

namespace Elks
namespace Lib

/-- A routine over states of type `σ` that may stop with a fault of type `ε`. -/
abbrev RoutineOf (ε σ α : Type) :=
  StateT σ (Except ε) α

/-- A routine over states of type `σ`. -/
abbrev Routine (σ α : Type) :=
  RoutineOf Fault σ α

section Outcome

variable {ε σ α β : Type} {m : RoutineOf ε σ α} {f : α → RoutineOf ε σ β} {a : α} {B : ε → Prop}
  {s' : σ} {c : Prop} {e : ε}

theorem run_pure : (pure a : RoutineOf ε σ α) s = .ok (a, s) := by
  rfl

theorem run_throw : (throw e : RoutineOf ε σ α) s = .error e := by
  rfl

theorem run_bind : (m >>= f) s = (m s).bind fun r => f r.1 r.2 := by
  rfl

theorem run_bind_ok (h : m s = .ok (a, s')) : (m >>= f) s = f a s' := by
  rw [run_bind, h]
  rfl

theorem run_bind_error (h : m s = .error e) : (m >>= f) s = .error e := by
  rw [run_bind, h]
  rfl

theorem run_map_ok {f : α → β} {b : β} (h : (f <$> m) s = .ok (b, s')) :
    ∃ a, m s = .ok (a, s') ∧ b = f a := by
  have hrun : (f <$> m) s = (m s).bind fun r => .ok (f r.1, r.2) := rfl
  rw [hrun] at h
  cases hm : m s with
  | ok r =>
      rw [hm] at h
      obtain ⟨rfl, rfl⟩ := Prod.mk.inj (Except.ok.inj h)
      exact ⟨r.1, rfl, rfl⟩
  | error e =>
      rw [hm] at h
      nomatch h

theorem run_get : (get : RoutineOf ε σ σ) s = .ok (s, s) := by
  rfl

theorem run_modify {f : σ → σ} : (modify f : RoutineOf ε σ PUnit) s = .ok (⟨⟩, f s) := by
  rfl

/-- The value and the state after `m` satisfy `Q`, and `m` fails to come back
only in the ways of `A`. -/
def Outcome (A : ε → Prop) (m : RoutineOf ε σ α) (s : σ) (Q : α → σ → Prop) : Prop :=
  match m s with
  | .ok (a, s') => Q a s'
  | .error e => A e

variable {A : ε → Prop} {s : σ} {Q R : α → σ → Prop}

theorem Outcome.mono (h : Outcome A m s Q) (hQ : ∀ a s', Q a s' → R a s') : Outcome A m s R := by
  unfold Outcome at h ⊢
  cases hm : m s with
  | ok r =>
      rw [hm] at h
      exact hQ r.1 r.2 h
  | error f =>
      rw [hm] at h
      exact h

/-- What a routine does, with more ways to fail allowed. -/
theorem Outcome.imp (h : Outcome A m s Q) (hA : ∀ e, A e → B e) (hQ : ∀ a s', Q a s' → R a s') :
    Outcome B m s R := by
  unfold Outcome at h ⊢
  cases hm : m s with
  | ok r =>
      rw [hm] at h
      exact hQ r.1 r.2 h
  | error e =>
      rw [hm] at h
      exact hA e h

theorem Outcome.pure (h : Q a s) :
    Outcome A (pure a) s Q :=
  h

theorem Outcome.throw {f : ε} (h : A f) :
    Outcome A (throw f : RoutineOf ε σ α) s Q :=
  h

theorem Outcome.bind {R : α → σ → Prop} {Q : β → σ → Prop} (h : Outcome A m s R)
    (hf : ∀ a s', R a s' → Outcome A (f a) s' Q) : Outcome A (m >>= f) s Q := by
  unfold Outcome at h
  have hrun : (m >>= f) s = (m s).bind fun r => f r.1 r.2 := rfl
  cases hm : m s with
  | ok r =>
      rw [hm] at h
      unfold Outcome
      rw [hrun, hm]
      exact hf r.1 r.2 h
  | error e =>
      rw [hm] at h
      unfold Outcome
      rw [hrun, hm]
      exact h

theorem Outcome.get {Q : σ → σ → Prop} (h : Q s s) :
    Outcome A (get : RoutineOf ε σ σ) s Q :=
  h

theorem Outcome.modify {f : σ → σ} {Q : PUnit → σ → Prop} (h : Q ⟨⟩ (f s)) :
    Outcome A (modify f : RoutineOf ε σ PUnit) s Q :=
  h

/-- Looking at the state before going on. -/
theorem outcome_get_bind {f : σ → RoutineOf ε σ β} {Q : β → σ → Prop} (h : Outcome A (f s) s Q) :
    Outcome A ((get : RoutineOf ε σ σ) >>= f) s Q :=
  h

/-- Changing the state before going on. -/
theorem outcome_modify_bind {f : σ → σ} {m : PUnit → RoutineOf ε σ β} {Q : β → σ → Prop}
    (h : Outcome A (m ⟨⟩) (f s) Q) :
    Outcome A ((modify f : RoutineOf ε σ PUnit) >>= m) s Q :=
  h

theorem Outcome.ite [Decidable c] {m n : RoutineOf ε σ α} (hm : c → Outcome A m s Q)
    (hn : ¬ c → Outcome A n s Q) : Outcome A (if c then m else n) s Q := by
  by_cases h : c
  · rw [if_pos h]
    exact hm h
  · rw [if_neg h]
    exact hn h

/-- A routine that reads a value of the state. -/
def reads (f : σ → Except ε α) : RoutineOf ε σ α :=
  fun s => (f s).map fun a => (a, s)

theorem Outcome.reads {f : σ → Except ε α} (hok : ∀ a, f s = .ok a → Q a s)
    (herr : ∀ e, f s = .error e → A e) : Outcome A (reads f) s Q := by
  unfold Outcome Lib.reads
  cases hf : f s with
  | ok a => exact hok a hf
  | error e => exact herr e hf

/-- An optional step. -/
def when (c : Prop) [Decidable c] (m : RoutineOf ε σ Unit) : RoutineOf ε σ Unit :=
  if c then m else pure ()

theorem Outcome.when [Decidable c] {m : RoutineOf ε σ Unit} {Q : Unit → σ → Prop}
    (hm : c → Outcome A m s Q) (hn : ¬ c → Q () s) :
    Outcome A (when c m) s Q :=
  Outcome.ite hm fun h => Outcome.pure (hn h)

/-- A step for a pointer that may be null. -/
def forSome (o : Option α) (f : α → RoutineOf ε σ Unit) : RoutineOf ε σ Unit :=
  match o with
  | some a => f a
  | none => pure ()

theorem Outcome.forSome {o : Option α} {f : α → RoutineOf ε σ Unit} {Q : Unit → σ → Prop}
    (hsome : ∀ a, o = some a → Outcome A (f a) s Q) (hnone : o = none → Q () s) :
    Outcome A (forSome o f) s Q := by
  cases o with
  | some a => exact hsome a rfl
  | none => exact Outcome.pure (hnone rfl)

/-- A routine on a part of the state, whose faults are among those of the whole. -/
def zoom {ε' τ : Type} (view : σ → τ) (put : τ → σ → σ) (fault : ε' → ε)
    (m : RoutineOf ε' τ α) : RoutineOf ε σ α :=
  fun s =>
    match m (view s) with
    | .ok (a, t) => .ok (a, put t s)
    | .error e => .error (fault e)

theorem Outcome.zoom {ε' τ : Type} {view : σ → τ} {put : τ → σ → σ} {fault : ε' → ε} {B : ε' → Prop}
    {m : RoutineOf ε' τ α} (h : Outcome B m (view s) fun a t => Q a (put t s))
    (hB : ∀ e, B e → A (fault e)) : Outcome A (zoom view put fault m) s Q := by
  unfold Outcome at h
  unfold Outcome Lib.zoom
  cases hm : m (view s) with
  | ok r =>
      rw [hm] at h
      exact h
  | error e =>
      rw [hm] at h
      exact hB e h

/-- A routine that came back. -/
theorem Outcome.of_ok (h : Outcome A m s Q) {s' : σ} (hm : m s = .ok (a, s')) : Q a s' := by
  unfold Outcome at h
  rw [hm] at h
  exact h

/-- What a routine does, with the run that it makes. -/
theorem Outcome.traced (h : Outcome A m s Q) :
    Outcome A m s fun a s' => m s = .ok (a, s') ∧ Q a s' := by
  unfold Outcome at h ⊢
  cases hm : m s with
  | ok r =>
      rw [hm] at h
      exact ⟨rfl, h⟩
  | error e =>
      rw [hm] at h
      exact h

/-- Of any routine it is known that it makes the run that it makes. -/
theorem outcome_run (m : RoutineOf ε σ α) (s : σ) :
    Outcome (fun _ => True) m s fun a s' => m s = .ok (a, s') := by
  unfold Outcome
  cases m s with
  | ok r => rfl
  | error e => trivial

/-- Two facts about the same run. -/
theorem Outcome.and (h : Outcome A m s Q) (h' : Outcome A m s R) :
    Outcome A m s fun a s' => Q a s' ∧ R a s' := by
  unfold Outcome at h h' ⊢
  cases hm : m s with
  | ok r =>
      rw [hm] at h h'
      exact ⟨h, h'⟩
  | error e =>
      rw [hm] at h
      exact h

/-- A routine that is known to come back does not fail. -/
theorem Outcome.of_returns (h : Outcome A m s Q) (hm : ∃ a s', m s = .ok (a, s')) :
    Outcome B m s Q := by
  obtain ⟨a, s', hok⟩ := hm
  unfold Outcome
  rw [hok]
  exact h.of_ok hok

/-- A routine that cannot fail comes back. -/
theorem Outcome.returns {m : RoutineOf ε σ α} (h : Outcome (fun _ => False) m s Q) :
    ∃ a s', m s = .ok (a, s') ∧ Q a s' := by
  unfold Outcome at h
  cases hm : m s with
  | ok r =>
      rw [hm] at h
      exact ⟨r.1, r.2, rfl, h⟩
  | error f =>
      rw [hm] at h
      exact h.elim

end Outcome

section Keeps

variable {ε σ α β : Type} {A : ε → Prop} {P : σ → Prop} {c : Prop}

/-- A routine that keeps `P` and fails to come back only in the ways of `A`. -/
def Keeps (A : ε → Prop) (P : σ → Prop) (m : RoutineOf ε σ α) : Prop :=
  ∀ s, P s → Outcome A m s fun _ => P

theorem Keeps.pure {a : α} :
    Keeps A P (pure a) :=
  fun _ hs => Outcome.pure hs

theorem Keeps.throw {e : ε} (h : A e) :
    Keeps A P (throw e : RoutineOf ε σ α) :=
  fun _ _ => Outcome.throw h

theorem Keeps.bind {m : RoutineOf ε σ α} {f : α → RoutineOf ε σ β} (hm : Keeps A P m)
    (hf : ∀ a, Keeps A P (f a)) :
    Keeps A P (m >>= f) :=
  fun s hs => (hm s hs).bind fun a s' hs' => hf a s' hs'

theorem Keeps.get :
    Keeps A P (get : RoutineOf ε σ σ) :=
  fun _ hs => Outcome.get hs

theorem Keeps.modify {f : σ → σ} (hf : ∀ s, P s → P (f s)) :
    Keeps A P (modify f) :=
  fun s hs => Outcome.modify (hf s hs)

theorem Keeps.ite [Decidable c] {m n : RoutineOf ε σ α} (hm : Keeps A P m) (hn : Keeps A P n) :
    Keeps A P (if c then m else n) :=
  fun s hs => Outcome.ite (fun _ => hm s hs) fun _ => hn s hs

theorem Keeps.when [Decidable c] {m : RoutineOf ε σ Unit} (hm : Keeps A P m) :
    Keeps A P (when c m) :=
  Keeps.ite hm Keeps.pure

theorem Keeps.forSome {o : Option α} {f : α → RoutineOf ε σ Unit} (hf : ∀ a, Keeps A P (f a)) :
    Keeps A P (forSome o f) := by
  cases o with
  | some a => exact hf a
  | none => exact Keeps.pure

end Keeps

end Lib
end Elks
