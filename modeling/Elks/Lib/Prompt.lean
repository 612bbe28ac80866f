import Elks.Lib.Coop

/-!
# Programs that do not go to sleep

`Prog.Prompt p s Q` says that `p`, started in `s`, does not go to sleep, and that what
it returns satisfies `Q`; it may still end in a fault.  Together with `Prog.Awake`,
which excludes the faults but not the sleep, it gives `Prog.Runs` (`Awake.runs`), so
that what a program does and that it need not wait can be shown apart.
-/

namespace Elks
namespace Lib
namespace Prog

variable {σ ω α β : Type}

/-- `p`, started in `s`, does not sleep, and if it returns then with `Q`. -/
def Prompt (p : Prog σ ω α) (s : σ) (Q : α → σ → Prop) : Prop :=
  match p.run s with
  | .ok r => Q r.1 r.2
  | .error f => f ≠ .sleeps

@[simp] theorem prompt_bind (p : Prog σ ω α) (g : α → Prog σ ω β) (s : σ) (Q : β → σ → Prop) :
    Prompt (p >>= g) s Q ↔
      Prompt p s (fun a s' => Prompt (g a) s' Q) := by
  unfold Prompt
  rw [run_bind]
  cases p.run s <;> rfl

@[simp] theorem prompt_pure (a : α) (s : σ) (Q : α → σ → Prop) :
    Prompt (pure a : Prog σ ω α) s Q ↔ Q a s := by
  rfl

@[simp] theorem prompt_get (s : σ) (Q : σ → σ → Prop) : Prompt (get : Prog σ ω σ) s Q ↔ Q s s := by
  rfl

@[simp] theorem prompt_modify (f : σ → σ) (s : σ) (Q : Unit → σ → Prop) :
    Prompt (modify f : Prog σ ω Unit) s Q ↔ Q () (f s) := by
  rfl

@[simp] theorem prompt_atomically (f : σ → α × σ) (s : σ) (Q : α → σ → Prop) :
    Prompt (atomically f : Prog σ ω α) s Q ↔ Q (f s).1 (f s).2 := by
  rfl

@[simp] theorem prompt_signal (f : σ → σ) (wakes : σ → List ω) (s : σ) (Q : Unit → σ → Prop) :
    Prompt (signal f wakes) s Q ↔ Q () (f s) := by
  rfl

theorem Prompt.fault {f : Fault} {s : σ} {Q : α → σ → Prop} (hf : f ≠ .sleeps) :
    Prompt (.fault f : Prog σ ω α) s Q :=
  hf

variable {w : ω} {p : Prog σ ω α} {s : σ} {Q Q' : α → σ → Prop}

theorem Prompt.mono (h : Prompt p s Q) (hQ : ∀ a s', Q a s' → Q' a s') : Prompt p s Q' := by
  unfold Prompt at h ⊢
  cases hr : p.run s with
  | ok r =>
      rw [hr] at h
      exact hQ _ _ h
  | error f =>
      rw [hr] at h
      exact h

theorem Runs.prompt (h : Runs p s Q) : Prompt p s Q := by
  obtain ⟨a, s', hr, hQ⟩ := h.run_eq
  unfold Prompt
  rw [hr]
  exact hQ

/-- What is known of the value and the state apart from the sleep may be used. -/
theorem Prompt.with_awake (h : Prompt p s Q) (ha : Awake w p s Q') :
    Prompt p s fun a s' => Q' a s' ∧ Q a s' := by
  unfold Prompt Awake at *
  cases hr : p.run s with
  | ok r =>
      rw [hr] at h ha
      exact ⟨ha, h⟩
  | error f =>
      rw [hr] at h
      exact h

/-- A program that returns unless it sleeps, and does not sleep, returns. -/
theorem Awake.runs (ha : Awake w p s Q') (h : Prompt p s Q) :
    Runs p s fun a s' => Q' a s' ∧ Q a s' := by
  unfold Prompt Awake at *
  unfold Runs
  cases hr : p.run s with
  | ok r =>
      rw [hr] at h ha
      exact ⟨ha, h⟩
  | error f =>
      rw [hr] at h ha
      exact h ha.1

end Prog
end Lib
end Elks
