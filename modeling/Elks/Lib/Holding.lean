import Elks.Lib.Coop

/-!
# Tasks that hold something while they sleep

The contracts of cooperative programs know nothing but the invariant once a task
has slept.  A task that goes to sleep with a lock taken, or with an entry of a
table claimed, knows more: nobody else has it.  A protocol says what each task
holds, and its invariant ties what is held to the shared state.

* `Prog.holds` is the rule for the code of one task: each action may change what
  the task itself holds, and a sleep leaves that alone.
* `Prog.Steady` is the code that works whatever anybody holds.
* `Kernel.honoured` is the proof rule for runs: the invariant holds in every
  state reached, and no task is about to fail in a way that is not allowed.
-/

namespace Elks
namespace Lib

open Function (update update_eq_self update_of_ne update_self)

/-- What tasks may hold: the invariant between what each task holds and the
state, what interrupts do between two actions, the failures that may happen, and
what a task holds between two calls. -/
structure Protocol (σ τ G : Type) where
  inv : (τ → G) → σ → Prop
  rely : σ → σ → Prop
  allowed : Fault → Prop
  free : G

section Steady

variable {σ ω τ G α β : Type} {P : Protocol σ τ G}

/-- Every action keeps the invariant whatever anybody holds, and every failure
is an allowed one. -/
def Prog.Steady (P : Protocol σ τ G) : Prog σ ω α → Prop
  | .ret _ => True
  | .act upd _ k => (∀ h s, P.inv h s → P.inv h (upd s)) ∧ ∀ s, Prog.Steady P (k s)
  | .sleep _ k => Prog.Steady P k
  | .fault f => P.allowed f

theorem Prog.steady_bind {p : Prog σ ω α} {g : α → Prog σ ω β} (hp : p.Steady P)
    (hg : ∀ a, (g a).Steady P) : (p >>= g).Steady P := by
  induction p with
  | ret a => exact hg a
  | act upd wakes k ih => exact ⟨hp.1, fun s => ih s (hp.2 s)⟩
  | sleep w k ih => exact ih hp
  | fault f => exact hp

theorem Prog.steady_get : (Prog.get : Prog σ ω σ).Steady P :=
  ⟨fun _ _ hinv => hinv, fun _ => trivial⟩

theorem Prog.steady_act {upd : σ → σ} {wakes : σ → List ω} {f : σ → α}
    (hupd : ∀ h s, P.inv h s → P.inv h (upd s)) :
    (Prog.act upd wakes fun s => .ret (f s)).Steady P :=
  ⟨hupd, fun _ => trivial⟩

end Steady

section Rules

variable {σ ω τ G α β : Type} [DecidableEq τ] {P : Protocol σ τ G} {t : τ}
  {Q : β → (τ → G) → σ → Prop} {h : τ → G} {s : σ} {wakes : σ → List ω} {k : σ → Prog σ ω α}
  {f : σ → σ}

/-- What is left of a call of task `t` keeps the protocol and ends with `Q`, if
`h` says what each task holds. -/
def Prog.holds (P : Protocol σ τ G) (t : τ) :
    Prog σ ω α → (α → (τ → G) → σ → Prop) → (τ → G) → σ → Prop
  | .ret a, Q, h, s => Q a h s
  | .act upd _ k, Q, h, s =>
      ∃ g, P.inv (update h t g) (upd s) ∧
        ∀ s', P.rely (upd s) s' → P.inv (update h t g) s' →
          Prog.holds P t (k s) Q (update h t g) s'
  | .sleep _ k, Q, h, _ =>
      ∀ h' s', h' t = h t → P.inv h' s' → Prog.holds P t k Q h' s'
  | .fault f, _, _, _ => P.allowed f

theorem Prog.holds_mono {Q Q' : α → (τ → G) → σ → Prop} (hQ : ∀ a h s, Q a h s → Q' a h s)
    (p : Prog σ ω α) : ∀ h s, p.holds P t Q h s → p.holds P t Q' h s := by
  induction p with
  | ret a =>
      intro h s hp
      exact hQ a h s hp
  | act upd wakes k ih =>
      rintro h s ⟨g, hinv, hk⟩
      exact ⟨g, hinv, fun s' hrely hinv' => ih s _ s' (hk s' hrely hinv')⟩
  | sleep w k ih =>
      intro h s hp h' s' hsame hinv
      exact ih h' s' (hp h' s' hsame hinv)
  | fault f =>
      intro h s hp
      exact hp

/-- The rule for sequencing. -/
theorem Prog.holds_bind {g : α → Prog σ ω β} (p : Prog σ ω α) :
    ∀ h s, p.holds P t (fun a h' s' => (g a).holds P t Q h' s') h s →
      (p >>= g).holds P t Q h s := by
  induction p with
  | ret a =>
      intro h s hp
      exact hp
  | act upd wakes k ih =>
      rintro h s ⟨g', hinv, hk⟩
      exact ⟨g', hinv, fun s' hrely hinv' => ih s _ s' (hk s' hrely hinv')⟩
  | sleep w k ih =>
      intro h s hp h' s' hsame hinv
      exact ih h' s' (hp h' s' hsame hinv)
  | fault f =>
      intro h s hp
      exact hp

/-- An action that leaves everything held as it is. -/
theorem Prog.holds_act {upd : σ → σ} {Q : α → (τ → G) → σ → Prop} (hinv : P.inv h (upd s))
    (hk : ∀ s', P.rely (upd s) s' → P.inv h s' → (k s).holds P t Q h s') :
    (Prog.act upd wakes k).holds P t Q h s := by
  refine ⟨h t, ?_, ?_⟩
  · rw [update_eq_self]
    exact hinv
  · rw [update_eq_self]
    exact hk

/-- An action after which the task holds `g`. -/
theorem Prog.holds_atomically {f : σ → α × σ} {k : α → Prog σ ω β} (g : G)
    (hinv : P.inv (update h t g) (f s).2)
    (hk : ∀ s', P.rely (f s).2 s' → P.inv (update h t g) s' →
      (k (f s).1).holds P t Q (update h t g) s') :
    (Prog.atomically f >>= k : Prog σ ω β).holds P t Q h s :=
  ⟨g, hinv, hk⟩

/-- A change of the state after which the task holds `g`. -/
theorem Prog.holds_modify {k : Unit → Prog σ ω β} (g : G)
    (hinv : P.inv (update h t g) (f s))
    (hk : ∀ s', P.rely (f s) s' → P.inv (update h t g) s' →
      (k ()).holds P t Q (update h t g) s') :
    (Prog.modify f >>= k : Prog σ ω β).holds P t Q h s :=
  ⟨g, hinv, hk⟩

/-- The last change of the state, after which the task holds `g`. -/
theorem Prog.holds_signal {Q : Unit → (τ → G) → σ → Prop} (g : G)
    (hinv : P.inv (update h t g) (f s))
    (hQ : ∀ s', P.inv (update h t g) s' → Q () (update h t g) s') :
    (Prog.signal f wakes : Prog σ ω Unit).holds P t Q h s :=
  ⟨g, hinv, fun s' _ hinv' => hQ s' hinv'⟩

/-- Looking at the state. -/
theorem Prog.holds_get {Q : α → (τ → G) → σ → Prop} (hinv : P.inv h s)
    (hk : ∀ s', P.rely s s' → P.inv h s' → (k s).holds P t Q h s') :
    (Prog.get >>= k : Prog σ ω α).holds P t Q h s :=
  Prog.holds_bind _ _ _ (Prog.holds_act hinv hk)

/-- Steady code leaves what its task holds alone. -/
theorem Prog.Steady.holds {p : Prog σ ω α} (hp : p.Steady P) {Q : α → (τ → G) → σ → Prop}
    (hinv : P.inv h s) (hQ : ∀ a h' s', h' t = h t → P.inv h' s' → Q a h' s') :
    p.holds P t Q h s := by
  induction p generalizing h s with
  | ret a => exact hQ a h s rfl hinv
  | act upd wakes k ih =>
      exact Prog.holds_act (hp.1 h s hinv) fun s' _ hinv' => ih s (hp.2 s) hinv' hQ
  | sleep w k ih =>
      intro h' s' hsame hinv'
      refine ih hp hinv' fun a h'' s'' hsame' hinv'' => ?_
      exact hQ a h'' s'' (hsame'.trans hsame) hinv''
  | fault f => exact hp

end Rules

section Runs

variable {σ ω π ι τ G : Type} [DecidableEq ω] [DecidableEq τ] {r : Running σ ω π τ}

/-- The code of every call keeps the protocol from any state in which its task
holds nothing yet, and the interrupts do. -/
structure Kernel.Honours (K : Kernel σ ω π ι) (P : Protocol σ τ G) : Prop where
  rely_refl : ∀ s, P.rely s s
  rely_trans : ∀ s s' s'', P.rely s s' → P.rely s' s'' → P.rely s s''
  irq : ∀ i h s, P.inv h s → P.inv h (K.irq i s) ∧ P.rely s (K.irq i s)
  code : ∀ c t h s, h t = P.free → P.inv h s →
    (K.code c).holds P t (fun _ h' _ => h' t = P.free) h s

/-- What is left of the call of a task that does not have the processor. -/
def Task.Holds (P : Protocol σ τ G) (t : τ) (g : G) : Task σ ω π → Prop
  | .idle => True
  | .ready _ p => ∀ h s, h t = g → P.inv h s → p.holds P t (fun _ h' _ => h' t = P.free) h s
  | .asleep _ _ p => ∀ h s, h t = g → P.inv h s → p.holds P t (fun _ h' _ => h' t = P.free) h s

/-- What holds of a system whose tasks keep the protocol, with `h` the things
they hold. -/
structure Sys.Held (P : Protocol σ τ G) (h : τ → G) (S : Sys σ ω π τ) : Prop where
  inv : P.inv h S.st
  idle : ∀ t, S.tasks t = .idle → (∀ r, S.cur = some r → r.task ≠ t) → h t = P.free
  tasks : ∀ t, (S.tasks t).Holds P t (h t)
  away : ∀ r, S.cur = some r → S.tasks r.task = .idle
  cur : ∀ r, S.cur = some r → ∀ s, P.rely S.st s → P.inv h s →
    r.rest.holds P r.task (fun _ h' _ => h' r.task = P.free) h s

variable {K : Kernel σ ω π ι} {P : Protocol σ τ G} {S S' : Sys σ ω π τ} {h : τ → G}

omit [DecidableEq τ] in
theorem wakeAll_idle (ws : List ω) (tasks : τ → Task σ ω π) (t : τ) :
    wakeAll ws tasks t = .idle ↔ tasks t = .idle := by
  unfold wakeAll
  cases tasks t with
  | idle => simp
  | ready c p => simp
  | asleep c w p =>
      dsimp only
      split <;> simp

theorem Task.holds_wakeAll {g : τ → G} (tasks : τ → Task σ ω π)
    (ht : ∀ t, (tasks t).Holds P t (g t)) (ws : List ω) (t : τ) :
    (wakeAll ws tasks t).Holds P t (g t) := by
  have h := ht t
  unfold wakeAll
  cases hx : tasks t with
  | idle => trivial
  | ready c p =>
      rw [hx] at h
      exact h
  | asleep c w p =>
      rw [hx] at h
      dsimp only
      split
      · exact h
      · exact h

omit [DecidableEq ω] in
theorem Sys.held_start {s : σ} (hs : P.inv (fun _ => P.free) s) :
    (Sys.start s : Sys σ ω π τ).Held P fun _ => P.free where
  inv := hs
  idle := fun _ _ _ => rfl
  tasks := fun _ => trivial
  away := by
    intro r hr
    cases hr
  cur := by
    intro r hr
    cases hr

/-- An action of the running task. -/
theorem Sys.Held.act (hK : K.Honours P) (hS : S.Held P h) {l : Label π ι} (hcur : S.cur = some r)
    (hact : S.act r = some (l, S')) : ∃ h', S'.Held P h' := by
  have hp := hS.cur r hcur S.st (hK.rely_refl _) hS.inv
  have hidle := hS.away r hcur
  unfold Sys.act at hact
  cases hrest : r.rest with
  | ret a =>
      rw [hrest] at hact hp
      simp only [Option.some.injEq, Prod.mk.injEq] at hact
      obtain ⟨-, rfl⟩ := hact
      refine ⟨h, hS.inv, fun t ht _ => ?_, hS.tasks, (fun _ hc => by cases hc), fun _ hc => by cases hc⟩
      by_cases htr : r.task = t
      · rw [← htr]
        exact hp
      · exact hS.idle t ht fun r' hr' => by rwa [← Option.some.inj (hcur.symm.trans hr')]
  | act upd wakes k =>
      rw [hrest] at hact hp
      simp only [Option.some.injEq, Prod.mk.injEq] at hact
      obtain ⟨-, rfl⟩ := hact
      obtain ⟨g, hinv, hk⟩ := hp
      refine ⟨update h r.task g, hinv, fun t ht hne => ?_, fun t => ?_, ?_, ?_⟩
      · have htr : r.task ≠ t := hne { r with rest := k S.st } rfl
        rw [update_of_ne htr.symm]
        refine hS.idle t ((wakeAll_idle _ _ t).mp ht) fun r' hr' => ?_
        rwa [← Option.some.inj (hcur.symm.trans hr')]
      · have ht := Task.holds_wakeAll S.tasks hS.tasks (wakes S.st) t
        by_cases htr : t = r.task
        · subst htr
          change Task.Holds P r.task _ (wakeAll (wakes S.st) S.tasks r.task)
          rw [(wakeAll_idle (wakes S.st) S.tasks r.task).mpr hidle]
          trivial
        · rw [update_of_ne htr]
          exact ht
      · rintro r' hr'
        cases hr'
        exact (wakeAll_idle _ _ _).mpr hidle
      · rintro r' hr' s hrely hinv'
        cases hr'
        exact hk s hrely hinv'
  | sleep w k =>
      rw [hrest] at hact hp
      simp only [Option.some.injEq, Prod.mk.injEq] at hact
      obtain ⟨-, rfl⟩ := hact
      refine ⟨h, hS.inv, fun t ht _ => ?_, fun t => ?_, (fun _ hc => by cases hc), fun _ hc => by cases hc⟩
      · dsimp only at ht
        have htr : t ≠ r.task := by
          rintro rfl
          rw [update_self] at ht
          cases ht
        rw [update_of_ne htr] at ht
        exact hS.idle t ht fun r' hr' => by
          rw [← Option.some.inj (hcur.symm.trans hr')]
          exact htr.symm
      · dsimp only
        by_cases htr : t = r.task
        · subst htr
          rw [update_self]
          exact hp
        · rw [update_of_ne htr]
          exact hS.tasks t
  | fault f =>
      rw [hrest] at hact
      cases hact

/-- One step of the system. -/
theorem Sys.Held.move (hK : K.Honours P) (hS : S.Held P h) {m : Move π ι τ} {l : Label π ι}
    (hm : S.move K m = some (l, S')) : ∃ h', S'.Held P h' := by
  cases m with
  | call t c =>
      simp only [Sys.move] at hm
      split at hm
      · rename_i hcur ht
        simp only [Option.some.injEq, Prod.mk.injEq] at hm
        obtain ⟨-, rfl⟩ := hm
        have hfree := hS.idle t ht fun r hr => by
          rw [hcur] at hr
          cases hr
        refine ⟨h, hS.inv, fun t' ht' _ => ?_, hS.tasks, ?_, ?_⟩
        · exact hS.idle t' ht' fun r hr => by
            rw [hcur] at hr
            cases hr
        · rintro r hr
          cases hr
          exact ht
        · rintro r hr s - hinv
          cases hr
          exact hK.code c t h s hfree hinv
      · cases hm
  | resume t =>
      simp only [Sys.move] at hm
      split at hm
      · rename_i c p hcur ht
        simp only [Option.some.injEq, Prod.mk.injEq] at hm
        obtain ⟨-, rfl⟩ := hm
        have hp := hS.tasks t
        rw [ht] at hp
        refine ⟨h, hS.inv, fun t' ht' hne => ?_, fun t' => ?_, ?_, ?_⟩
        · have htt : t ≠ t' := hne ⟨t, c, true, p⟩ rfl
          dsimp only at ht'
          rw [update_of_ne htt.symm] at ht'
          exact hS.idle t' ht' fun r hr => by
            rw [hcur] at hr
            cases hr
        · dsimp only
          by_cases htt : t' = t
          · subst htt
            rw [update_self]
            trivial
          · rw [update_of_ne htt]
            exact hS.tasks t'
        · rintro r hr
          cases hr
          exact update_self _ _ _
        · rintro r hr s - hinv
          cases hr
          exact hp h s rfl hinv
      · cases hm
  | step =>
      simp only [Sys.move] at hm
      split at hm
      · rename_i r hcur
        exact hS.act hK hcur hm
      · cases hm
  | irq i =>
      simp only [Sys.move, Option.some.injEq, Prod.mk.injEq] at hm
      obtain ⟨-, rfl⟩ := hm
      obtain ⟨hinv, hrely⟩ := hK.irq i h S.st hS.inv
      refine ⟨h, hinv, fun t ht hne => ?_, fun t => ?_, fun r hr => ?_, fun r hr s hs hinv' => ?_⟩
      · exact hS.idle t ((wakeAll_idle _ _ t).mp ht) hne
      · exact Task.holds_wakeAll S.tasks hS.tasks _ t
      · exact (wakeAll_idle _ _ _).mpr (hS.away r hr)
      · exact hS.cur r hr s (hK.rely_trans _ _ _ hrely hs) hinv'

/-- Every state that a run reaches keeps the protocol. -/
theorem Kernel.honoured (hK : K.Honours P) (ms : List (Move π ι τ)) :
    ∀ (S : Sys σ ω π τ) (h : τ → G), S.Held P h → ∀ S', S.runs K ms = some S' →
      ∃ h', S'.Held P h' := by
  induction ms with
  | nil =>
      intro S h hS S' hrun
      cases hrun
      exact ⟨h, hS⟩
  | cons m ms ih =>
      intro S h hS S' hrun
      unfold Sys.runs at hrun
      cases hm : S.move K m with
      | none =>
          rw [hm] at hrun
          cases hrun
      | some x =>
          obtain ⟨l, S₁⟩ := x
          rw [hm] at hrun
          obtain ⟨h₁, hS₁⟩ := hS.move hK hm
          exact ih S₁ h₁ hS₁ S' hrun

omit [DecidableEq ω] in
/-- No task is about to fail in a way that is not allowed. -/
theorem Sys.Held.fault (hK : K.Honours P) (hS : S.Held P h) (hcur : S.cur = some r) {f : Fault}
    (hf : r.rest = .fault f) : P.allowed f := by
  have hp := hS.cur r hcur S.st (hK.rely_refl _) hS.inv
  rw [hf] at hp
  exact hp

end Runs

end Lib
end Elks
