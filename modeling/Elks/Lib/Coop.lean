import Elks.Lib.Machine

/-!
# Cooperative programs

Kernel code that is never preempted gives up the processor only where it goes
to sleep.  `Prog σ ω α` is such code over a shared state `σ` and wait queues
`ω`: a tree of atomic actions, sleeps and faults that ends in a value.

There are two ways to run it.

* **One task.**  `Prog.run` runs a program alone; going to sleep is then a
  fault, since nobody is left to wake the task.  `Prog.Awake w p s Q` says that
  `p`, started in `s`, returns with `Q` unless it has to sleep on `w`;
  `Prog.Runs p s Q` that it returns with `Q`.
* **Many tasks.**  `Sys.move` takes one step of a system of tasks, in which
  the running task keeps the processor until it sleeps or returns and
  interrupts may come between any two actions.  `Kernel.sound` is the proof
  rule: a contract that holds of every system call, by `Kernel.wp`, holds along
  every run.
-/

namespace Elks
namespace Lib

/-- A program over the state `σ` that may sleep on the wait queues `ω`. -/
inductive Prog (σ ω α : Type) : Type
  | ret (a : α)
  | act (upd : σ → σ) (wakes : σ → List ω) (k : σ → Prog σ ω α)
  | sleep (w : ω) (k : Prog σ ω α)
  | fault (f : Fault)

namespace Prog

variable {σ ω α β : Type}

/-- Continue with `g` where the program returns. -/
def bind : Prog σ ω α → (α → Prog σ ω β) → Prog σ ω β
  | ret a, g => g a
  | act upd wakes k, g => act upd wakes (fun s => bind (k s) g)
  | sleep w k, g => sleep w (bind k g)
  | fault f, _ => fault f

instance : Monad (Prog σ ω) where
  pure := ret
  bind := bind

/-- Look at the state. -/
def get : Prog σ ω σ :=
  act id (fun _ => []) ret

/-- Change the state in one action. -/
def modify (f : σ → σ) : Prog σ ω Unit :=
  act f (fun _ => []) (fun _ => ret ())

/-- Compute a value and a new state in one action. -/
def atomically (f : σ → α × σ) : Prog σ ω α :=
  act (fun s => (f s).2) (fun _ => []) (fun s => ret (f s).1)

/-- Change the state in one action and make sleepers runnable. -/
def signal (f : σ → σ) (wakes : σ → List ω) : Prog σ ω Unit :=
  act f wakes (fun _ => ret ())

/-- Sleep until somebody wakes the queue `w`. -/
def sleepOn (w : ω) : Prog σ ω Unit :=
  sleep w (ret ())

/-- Run a list of programs in order. -/
def seqAll : List (Prog σ ω Unit) → Prog σ ω Unit
  | [] => ret ()
  | p :: ps => bind p (fun _ => seqAll ps)

/-- Run alone: nobody can wake a task that goes to sleep. -/
def run : Prog σ ω α → σ → Except Fault (α × σ)
  | ret a, s => .ok (a, s)
  | act upd _ k, s => run (k s) (upd s)
  | sleep _ _, _ => .error .sleeps
  | fault f, _ => .error f

/-- The queue on which a task that runs alone goes to sleep. -/
def sleepsOn : Prog σ ω α → σ → Option ω
  | ret _, _ => none
  | act upd _ k, s => sleepsOn (k s) (upd s)
  | sleep w _, _ => some w
  | fault _, _ => none

/-- Unless it has to sleep on `w`, `p` started in `s` returns with `Q`. -/
def Awake (w : ω) (p : Prog σ ω α) (s : σ) (Q : α → σ → Prop) : Prop :=
  match p.run s with
  | .ok r => Q r.1 r.2
  | .error f => f = .sleeps ∧ p.sleepsOn s = some w

theorem run_bind (p : Prog σ ω α) (g : α → Prog σ ω β) (s : σ) :
    (p >>= g).run s =
      match p.run s with
      | .ok r => (g r.1).run r.2
      | .error f => .error f := by
  induction p generalizing s with
  | ret a => rfl
  | act upd wakes k ih => exact ih s (upd s)
  | sleep w k ih => rfl
  | fault f => rfl

theorem sleepsOn_bind (p : Prog σ ω α) (g : α → Prog σ ω β) (s : σ) :
    (p >>= g).sleepsOn s =
      match p.run s with
      | .ok r => (g r.1).sleepsOn r.2
      | .error _ => p.sleepsOn s := by
  induction p generalizing s with
  | ret a => rfl
  | act upd wakes k ih => exact ih s (upd s)
  | sleep w k ih => rfl
  | fault f => rfl

/-- A program that comes back has come through its first part. -/
theorem run_bind_ok {p : Prog σ ω α} {g : α → Prog σ ω β} {s s' : σ} {b : β}
    (h : (p >>= g).run s = .ok (b, s')) :
    ∃ a s₁, p.run s = .ok (a, s₁) ∧ (g a).run s₁ = .ok (b, s') := by
  rw [run_bind] at h
  cases hp : p.run s with
  | error f =>
      rw [hp] at h
      cases h
  | ok r =>
      rw [hp] at h
      exact ⟨r.1, r.2, rfl, h⟩

variable {w : ω}

@[simp] theorem awake_bind (p : Prog σ ω α) (g : α → Prog σ ω β) (s : σ) (Q : β → σ → Prop) :
    Awake w (p >>= g) s Q ↔
      Awake w p s (fun a s' => Awake w (g a) s' Q) := by
  unfold Awake
  rw [run_bind, sleepsOn_bind]
  cases p.run s <;> rfl

@[simp] theorem awake_pure (a : α) (s : σ) (Q : α → σ → Prop) :
    Awake w (pure a : Prog σ ω α) s Q ↔ Q a s := by
  rfl

@[simp] theorem awake_get (s : σ) (Q : σ → σ → Prop) : Awake w (get : Prog σ ω σ) s Q ↔ Q s s := by
  rfl

@[simp] theorem awake_modify (f : σ → σ) (s : σ) (Q : Unit → σ → Prop) :
    Awake w (modify f : Prog σ ω Unit) s Q ↔ Q () (f s) := by
  rfl

@[simp] theorem awake_atomically (f : σ → α × σ) (s : σ) (Q : α → σ → Prop) :
    Awake w (atomically f : Prog σ ω α) s Q ↔ Q (f s).1 (f s).2 := by
  rfl

@[simp] theorem awake_signal (f : σ → σ) (wakes : σ → List ω) (s : σ) (Q : Unit → σ → Prop) :
    Awake w (signal f wakes) s Q ↔ Q () (f s) := by
  rfl

@[simp] theorem awake_sleepOn (s : σ) (Q : Unit → σ → Prop) :
    Awake w (sleepOn w : Prog σ ω Unit) s Q := by
  exact ⟨rfl, rfl⟩

theorem Awake.mono {p : Prog σ ω α} {s : σ} {Q Q' : α → σ → Prop} (h : Awake w p s Q)
    (hQ : ∀ a s', Q a s' → Q' a s') : Awake w p s Q' := by
  unfold Awake at h ⊢
  cases hr : p.run s with
  | ok r =>
      rw [hr] at h
      exact hQ _ _ h
  | error f =>
      rw [hr] at h
      exact h

/-- `p` started in `s` returns with `Q`, and does not sleep on the way. -/
def Runs (p : Prog σ ω α) (s : σ) (Q : α → σ → Prop) : Prop :=
  match p.run s with
  | .ok r => Q r.1 r.2
  | .error _ => False

@[simp] theorem runs_bind (p : Prog σ ω α) (g : α → Prog σ ω β) (s : σ) (Q : β → σ → Prop) :
    Runs (p >>= g) s Q ↔
      Runs p s (fun a s' => Runs (g a) s' Q) := by
  unfold Runs
  rw [run_bind]
  cases p.run s <;> rfl

@[simp] theorem runs_pure (a : α) (s : σ) (Q : α → σ → Prop) :
    Runs (pure a : Prog σ ω α) s Q ↔ Q a s := by
  rfl

@[simp] theorem runs_get (s : σ) (Q : σ → σ → Prop) : Runs (get : Prog σ ω σ) s Q ↔ Q s s := by
  rfl

@[simp] theorem runs_modify (f : σ → σ) (s : σ) (Q : Unit → σ → Prop) :
    Runs (modify f : Prog σ ω Unit) s Q ↔ Q () (f s) := by
  rfl

@[simp] theorem runs_atomically (f : σ → α × σ) (s : σ) (Q : α → σ → Prop) :
    Runs (atomically f : Prog σ ω α) s Q ↔ Q (f s).1 (f s).2 := by
  rfl

@[simp] theorem runs_signal (f : σ → σ) (wakes : σ → List ω) (s : σ) (Q : Unit → σ → Prop) :
    Runs (signal f wakes) s Q ↔ Q () (f s) := by
  rfl

theorem Runs.mono {p : Prog σ ω α} {s : σ} {Q Q' : α → σ → Prop} (h : Runs p s Q)
    (hQ : ∀ a s', Q a s' → Q' a s') : Runs p s Q' := by
  unfold Runs at h ⊢
  cases hr : p.run s with
  | ok r =>
      rw [hr] at h
      exact hQ _ _ h
  | error f =>
      rw [hr] at h
      exact h

theorem Runs.run_eq {p : Prog σ ω α} {s : σ} {Q : α → σ → Prop} (h : Runs p s Q) :
    ∃ a s', p.run s = .ok (a, s') ∧ Q a s' := by
  unfold Runs at h
  cases hr : p.run s with
  | ok r =>
      rw [hr] at h
      exact ⟨r.1, r.2, rfl, h⟩
  | error f =>
      rw [hr] at h
      exact h.elim

end Prog

/-- A kernel: the code of its system calls and its interrupt handlers. -/
structure Kernel (σ ω π ι : Type) where
  code : π → Prog σ ω Unit
  irq : ι → σ → σ
  irqWakes : ι → σ → List ω

/-- A task that does not have the processor. -/
inductive Task (σ ω π : Type)
  | idle
  | ready (c : π) (p : Prog σ ω Unit)
  | asleep (c : π) (w : ω) (p : Prog σ ω Unit)

/-- The task that has the processor, and what is left of its call. -/
structure Running (σ ω π τ : Type) where
  task : τ
  call : π
  slept : Bool
  rest : Prog σ ω Unit

/-- A system of tasks over a shared state. -/
structure Sys (σ ω π τ : Type) where
  st : σ
  tasks : τ → Task σ ω π
  cur : Option (Running σ ω π τ)

/-- What the scheduler and the world can choose. -/
inductive Move (π ι τ : Type)
  | call (t : τ) (c : π)
  | resume (t : τ)
  | step
  | irq (i : ι)

/-- What a step of the system was: a task entered call `c`, was resumed in it,
did an action of it (`slept` says whether after a resumption), or an interrupt. -/
inductive Label (π ι : Type)
  | begun (c : π)
  | resumed (c : π)
  | did (c : π) (slept : Bool)
  | interrupted (i : ι)

/-- Task `t` enters call `c` and takes `n` steps in it. -/
def Move.enters {π ι τ : Type} (t : τ) (c : π) (n : Nat) : List (Move π ι τ) :=
  .call t c :: List.replicate n .step

/-- Task `t` is resumed and takes `n` steps. -/
def Move.resumes {π ι τ : Type} (t : τ) (n : Nat) : List (Move π ι τ) :=
  .resume t :: List.replicate n .step

section System

variable {σ ω π ι τ : Type} [DecidableEq ω] [DecidableEq τ]

/-- `wake_up` on every queue of `ws`. -/
def wakeAll (ws : List ω) (tasks : τ → Task σ ω π) : τ → Task σ ω π :=
  fun t =>
    match tasks t with
    | .asleep c w p => if w ∈ ws then .ready c p else .asleep c w p
    | x => x

/-- The next action of the running task. -/
def Sys.act (S : Sys σ ω π τ) (r : Running σ ω π τ) :
    Option (Label π ι × Sys σ ω π τ) :=
  match r.rest with
  | .ret _ => some (.did r.call r.slept, { S with cur := none })
  | .act upd wakes k =>
      some (.did r.call r.slept,
        { st := upd S.st
          tasks := wakeAll (wakes S.st) S.tasks
          cur := some { r with rest := k S.st } })
  | .sleep w k =>
      some (.did r.call r.slept,
        { S with
          tasks := Function.update S.tasks r.task (.asleep r.call w k)
          cur := none })
  | .fault _ => none

/-- One step of the system; `none` when the chosen step cannot be taken. -/
def Sys.move (K : Kernel σ ω π ι) (S : Sys σ ω π τ) :
    Move π ι τ → Option (Label π ι × Sys σ ω π τ)
  | .call t c =>
      match S.cur, S.tasks t with
      | none, .idle =>
          some (.begun c, { S with cur := some ⟨t, c, false, K.code c⟩ })
      | _, _ => none
  | .resume t =>
      match S.cur, S.tasks t with
      | none, .ready c p =>
          some (.resumed c,
            { S with
              tasks := Function.update S.tasks t .idle
              cur := some ⟨t, c, true, p⟩ })
      | _, _ => none
  | .step =>
      match S.cur with
      | some r => S.act r
      | none => none
  | .irq i =>
      some (.interrupted i,
        { S with
          st := K.irq i S.st
          tasks := wakeAll (K.irqWakes i S.st) S.tasks })

/-- A whole run. -/
def Sys.runs (K : Kernel σ ω π ι) :
    Sys σ ω π τ → List (Move π ι τ) → Option (Sys σ ω π τ)
  | S, [] => some S
  | S, m :: ms =>
      match S.move K m with
      | some (_, S') => S'.runs K ms
      | none => none

/-- Every step of the run meets `P`. -/
def AllSteps (K : Kernel σ ω π ι) (P : Label π ι → σ → σ → Prop) :
    Sys σ ω π τ → List (Move π ι τ) → Prop
  | _, [] => True
  | S, m :: ms =>
      match S.move K m with
      | some (l, S') => P l S.st S'.st ∧ AllSteps K P S' ms
      | none => True

instance decidableAllSteps
    {K : Kernel σ ω π ι} {P : Label π ι → σ → σ → Prop}
    [∀ l s s', Decidable (P l s s')] :
    (S : Sys σ ω π τ) → (ms : List (Move π ι τ)) → Decidable (AllSteps K P S ms)
  | _, [] => inferInstanceAs (Decidable True)
  | S, m :: ms =>
      have : Decidable
          (match S.move K m with
          | some (l, S') => P l S.st S'.st ∧ AllSteps K P S' ms
          | none => True) :=
        match S.move K m with
        | some (_, S') =>
            have := decidableAllSteps (K := K) (P := P) S' ms
            inferInstanceAs (Decidable (_ ∧ _))
        | none => inferInstanceAs (Decidable True)
      this

theorem AllSteps.mono {K : Kernel σ ω π ι} {P P' : Label π ι → σ → σ → Prop}
    (hP : ∀ l s s', P l s s' → P' l s s') (ms : List (Move π ι τ)) :
    ∀ S : Sys σ ω π τ, AllSteps K P S ms → AllSteps K P' S ms := by
  induction ms with
  | nil =>
      intro S _
      trivial
  | cons m ms ih =>
      intro S h
      unfold AllSteps at h ⊢
      cases hm : S.move K m with
      | none => trivial
      | some x =>
          rw [hm] at h
          exact ⟨hP _ _ _ h.1, ih _ h.2⟩

/-- The system before any call, in state `s`. -/
def Sys.start (s : σ) : Sys σ ω π τ :=
  { st := s, tasks := fun _ => .idle, cur := none }

end System

/-- What is promised of every run: an invariant of the state, a guarantee of
each step, both under an assumption on the steps; `rely` bounds what interrupts
do between two actions. -/
structure Contract (σ π ι : Type) where
  inv : σ → Prop
  assume : Label π ι → σ → σ → Prop
  guar : Label π ι → σ → σ → Prop
  rely : σ → σ → Prop

section Logic

variable {σ ω π ι τ α β : Type} {R : σ → σ → Prop} {C : Contract σ π ι} {tasks : τ → Task σ ω π}
  {g : α → Prog σ ω β} {p : Prog σ ω α} {f : σ → σ} {c : π}

/-- The weakest precondition of what is left of call `c`: its actions keep the
contract `C`, and it ends with `Q`.  After a sleep only the invariant is known. -/
def Prog.wp (C : Contract σ π ι) (c : π) :
    Bool → Prog σ ω α → (Bool → α → σ → Prop) → σ → Prop
  | r, .ret a, Q, s => Q r a s
  | r, .act upd _ k, Q, s =>
      C.assume (.did c r) s (upd s) →
        C.inv (upd s) ∧ C.guar (.did c r) s (upd s) ∧
          ∀ s', C.rely (upd s) s' → C.inv s' → Prog.wp C c r (k s) Q s'
  | _, .sleep _ k, Q, _ =>
      ∀ s, C.inv s → C.assume (.resumed c) s s →
        ∀ s', C.rely s s' → C.inv s' → Prog.wp C c true k Q s'
  | _, .fault _, _, _ => True

theorem Prog.wp_mono {Q Q' : Bool → α → σ → Prop} (hQ : ∀ r a s, Q r a s → Q' r a s)
    (p : Prog σ ω α) : ∀ r s, p.wp C c r Q s → p.wp C c r Q' s := by
  induction p with
  | ret a =>
      intro r s h
      exact hQ r a s h
  | act upd wakes k ih =>
      intro r s h hassume
      obtain ⟨hinv, hguar, hk⟩ := h hassume
      exact ⟨hinv, hguar, fun s' hrely hinv' => ih s r s' (hk s' hrely hinv')⟩
  | sleep w k ih =>
      intro r s h s₁ hinv hassume s₂ hrely hinv'
      exact ih true s₂ (h s₁ hinv hassume s₂ hrely hinv')
  | fault f =>
      intro r s _
      trivial

/-- The rule for sequencing. -/
theorem Prog.wp_bind {Q : Bool → β → σ → Prop} (p : Prog σ ω α) :
    ∀ r s, p.wp C c r (fun r' a s' => (g a).wp C c r' Q s') s →
      (p >>= g).wp C c r Q s := by
  induction p with
  | ret a =>
      intro r s h
      exact h
  | act upd wakes k ih =>
      intro r s h hassume
      obtain ⟨hinv, hguar, hk⟩ := h hassume
      exact ⟨hinv, hguar, fun s' hrely hinv' => ih s r s' (hk s' hrely hinv')⟩
  | sleep w k ih =>
      intro r s h s₁ hinv hassume s₂ hrely hinv'
      exact ih true s₂ (h s₁ hinv hassume s₂ hrely hinv')
  | fault f =>
      intro r s _
      trivial

/-- Every action of the program is a step of `R`. -/
def Prog.Keeps (R : σ → σ → Prop) : Prog σ ω α → Prop
  | .ret _ => True
  | .act upd _ k => (∀ s, R s (upd s)) ∧ ∀ s, Prog.Keeps R (k s)
  | .sleep _ k => Prog.Keeps R k
  | .fault _ => True

theorem Prog.keeps_bind (hp : p.Keeps R) (hg : ∀ a, (g a).Keeps R) : (p >>= g).Keeps R := by
  induction p with
  | ret a => exact hg a
  | act upd wakes k ih => exact ⟨hp.1, fun s => ih s (hp.2 s)⟩
  | sleep w k ih => exact ih hp
  | fault f => trivial

theorem Prog.keeps_get (hR : ∀ s, R s s) :
    (Prog.get : Prog σ ω σ).Keeps R :=
  ⟨hR, fun _ => trivial⟩

theorem Prog.keeps_modify (hf : ∀ s, R s (f s)) :
    (Prog.modify f : Prog σ ω Unit).Keeps R :=
  ⟨hf, fun _ => trivial⟩

theorem Prog.keeps_signal {wakes : σ → List ω} (hf : ∀ s, R s (f s)) :
    (Prog.signal f wakes).Keeps R :=
  ⟨hf, fun _ => trivial⟩

theorem Prog.keeps_atomically {f : σ → α × σ} (hf : ∀ s, R s (f s).2) :
    (Prog.atomically f : Prog σ ω α).Keeps R :=
  ⟨hf, fun _ => trivial⟩

theorem Prog.keeps_seqAll {ps : List (Prog σ ω Unit)} (hps : ∀ p ∈ ps, p.Keeps R) :
    (Prog.seqAll ps).Keeps R := by
  induction ps with
  | nil => trivial
  | cons p ps ih =>
      have hp := hps p List.mem_cons_self
      have hrest := ih fun q hq => hps q (List.mem_cons_of_mem _ hq)
      exact Prog.keeps_bind hp fun _ => hrest

/-- Programs whose actions are all steps of a preorder `R` that the contract
allows: until it first sleeps, such a program moves the state along `R`. -/
theorem Prog.Keeps.wp (htrans : ∀ s s' s'', R s s' → R s' s'' → R s s'')
    (hrely : ∀ s s', C.rely s s' → R s s') (hinv : ∀ s s', R s s' → C.inv s → C.inv s')
    (hguar : ∀ l s s', R s s' → C.inv s → C.guar l s s') (hp : p.Keeps R) :
    ∀ r s₀ s, R s₀ s → C.inv s →
      p.wp C c r
        (fun r' _ s' => C.inv s' ∧ (r' = false → r = false ∧ R s₀ s')) s := by
  induction p with
  | ret a =>
      intro r s₀ s hR hs
      exact ⟨hs, fun hr => ⟨hr, hR⟩⟩
  | act upd wakes k ih =>
      intro r s₀ s hR hs _
      have hupd := hp.1 s
      refine ⟨hinv _ _ hupd hs, hguar _ _ _ hupd hs, ?_⟩
      intro s' hs' hs'inv
      have hto : R s₀ s' :=
        htrans _ _ _ hR (htrans _ _ _ hupd (hrely _ _ hs'))
      exact ih s (hp.2 s) r s₀ s' hto hs'inv
  | sleep w k ih =>
      intro r s₀ s hR hs s₁ hs₁ _ s₂ hrel hs₂
      have hk := ih hp true s₁ s₂ (hrely _ _ hrel) hs₂
      refine Prog.wp_mono ?_ k true s₂ hk
      rintro r' a s' ⟨hs', hr⟩
      refine ⟨hs', fun hr' => ?_⟩
      cases (hr hr').1
  | fault f =>
      intro r s₀ s _ _
      trivial

/-- What a kernel has to be shown to do for its runs to keep a contract. -/
structure Kernel.Meets (K : Kernel σ ω π ι) (C : Contract σ π ι) : Prop where
  rely_refl : ∀ s, C.rely s s
  rely_trans : ∀ s s' s'', C.rely s s' → C.rely s' s'' → C.rely s s''
  guar_refl : ∀ l s, C.inv s → C.guar l s s
  irq : ∀ i s, C.inv s →
    C.inv (K.irq i s) ∧ C.guar (.interrupted i) s (K.irq i s) ∧
      C.rely s (K.irq i s)
  code : ∀ c s, C.inv s → (K.code c).wp C c false (fun _ _ _ => True) s

/-- The rest of call `c` keeps the contract whenever it gets the processor. -/
def Resumable (C : Contract σ π ι) (c : π) (p : Prog σ ω Unit) : Prop :=
  ∀ s, C.inv s → C.assume (.resumed c) s s →
    ∀ s', C.rely s s' → C.inv s' → p.wp C c true (fun _ _ _ => True) s'

/-- What is left of a task's call keeps the contract. -/
def TaskOk (C : Contract σ π ι) : Task σ ω π → Prop
  | .idle => True
  | .ready c p => Resumable C c p
  | .asleep c _ p => Resumable C c p

/-- The invariant of a system whose tasks all keep the contract. -/
structure Sys.Ok (C : Contract σ π ι) (S : Sys σ ω π τ) : Prop where
  inv : C.inv S.st
  tasks : ∀ t, TaskOk C (S.tasks t)
  cur : ∀ r, S.cur = some r →
    ∀ s, C.rely S.st s → C.inv s →
      r.rest.wp C r.call r.slept (fun _ _ _ => True) s

theorem taskOk_wakeAll [DecidableEq ω] (h : ∀ t, TaskOk C (tasks t)) (ws : List ω) :
    ∀ t, TaskOk C (wakeAll ws tasks t) := by
  intro t
  have ht := h t
  unfold wakeAll
  cases hx : tasks t with
  | idle => trivial
  | ready c p =>
      rw [hx] at ht
      exact ht
  | asleep c w p =>
      rw [hx] at ht
      dsimp only
      split
      · exact ht
      · exact ht

theorem taskOk_update [DecidableEq τ] (h : ∀ t, TaskOk C (tasks t))
    {t₀ : τ} {x : Task σ ω π} (hx : TaskOk C x) : ∀ t, TaskOk C (Function.update tasks t₀ x t) := by
  intro t
  by_cases ht : t = t₀
  · subst ht
    rw [Function.update_self]
    exact hx
  · rw [Function.update_of_ne ht]
    exact h t

theorem Sys.ok_start (s : σ) (hs : C.inv s) :
    (Sys.start s : Sys σ ω π τ).Ok C where
  inv := hs
  tasks := by
    intro t
    trivial
  cur := by
    intro r hr
    cases hr

section Soundness

variable [DecidableEq ω] [DecidableEq τ]
variable {K : Kernel σ ω π ι} {C : Contract σ π ι}

/-- An action of the running task keeps the contract. -/
theorem Sys.Ok.act {S S' : Sys σ ω π τ} {r : Running σ ω π τ} {l : Label π ι}
    (hK : K.Meets C) (hS : S.Ok C) (hcur : S.cur = some r) (hact : S.act r = some (l, S'))
    (hassume : C.assume l S.st S'.st) : S'.Ok C ∧ C.guar l S.st S'.st := by
  have hwp := hS.cur r hcur S.st (hK.rely_refl _) hS.inv
  unfold Sys.act at hact
  cases hrest : r.rest with
  | ret a =>
      rw [hrest] at hact
      simp only [Option.some.injEq, Prod.mk.injEq] at hact
      obtain ⟨rfl, rfl⟩ := hact
      exact
        ⟨⟨hS.inv, hS.tasks, fun _ h => by cases h⟩,
          hK.guar_refl _ _ hS.inv⟩
  | act upd wakes k =>
      rw [hrest] at hact hwp
      simp only [Option.some.injEq, Prod.mk.injEq] at hact
      obtain ⟨rfl, rfl⟩ := hact
      obtain ⟨hinv, hguar, hk⟩ := hwp hassume
      refine ⟨⟨hinv, taskOk_wakeAll hS.tasks _, ?_⟩, hguar⟩
      intro r' hr' s hrely hinv'
      cases hr'
      exact hk s hrely hinv'
  | sleep w k =>
      rw [hrest] at hact hwp
      simp only [Option.some.injEq, Prod.mk.injEq] at hact
      obtain ⟨rfl, rfl⟩ := hact
      exact
        ⟨⟨hS.inv, taskOk_update hS.tasks hwp, fun _ h => by cases h⟩,
          hK.guar_refl _ _ hS.inv⟩
  | fault f =>
      rw [hrest] at hact
      cases hact

/-- One step of the system keeps the contract. -/
theorem Sys.Ok.move {S S' : Sys σ ω π τ} {m : Move π ι τ} {l : Label π ι}
    (hK : K.Meets C) (hS : S.Ok C) (hm : S.move K m = some (l, S'))
    (hassume : C.assume l S.st S'.st) : S'.Ok C ∧ C.guar l S.st S'.st := by
  cases m with
  | call t c =>
      simp only [Sys.move] at hm
      split at hm
      · simp only [Option.some.injEq, Prod.mk.injEq] at hm
        obtain ⟨rfl, rfl⟩ := hm
        refine ⟨⟨hS.inv, hS.tasks, ?_⟩, hK.guar_refl _ _ hS.inv⟩
        intro r hr s _ hinv
        cases hr
        exact hK.code c s hinv
      · cases hm
  | resume t =>
      simp only [Sys.move] at hm
      split at hm
      · rename_i c p hcur ht
        simp only [Option.some.injEq, Prod.mk.injEq] at hm
        obtain ⟨rfl, rfl⟩ := hm
        have hp : Resumable C c p := by
          have h := hS.tasks t
          rw [ht] at h
          exact h
        refine
          ⟨⟨hS.inv, taskOk_update hS.tasks trivial, ?_⟩,
            hK.guar_refl _ _ hS.inv⟩
        intro r hr s hrely hinv
        cases hr
        exact hp S.st hS.inv hassume s hrely hinv
      · cases hm
  | step =>
      simp only [Sys.move] at hm
      split at hm
      · rename_i r hcur
        exact hS.act hK hcur hm hassume
      · cases hm
  | irq i =>
      simp only [Sys.move, Option.some.injEq, Prod.mk.injEq] at hm
      obtain ⟨rfl, rfl⟩ := hm
      obtain ⟨hinv, hguar, hrely⟩ := hK.irq i S.st hS.inv
      refine ⟨⟨hinv, taskOk_wakeAll hS.tasks _, ?_⟩, hguar⟩
      intro r hr s hs hinv'
      exact hS.cur r hr s (hK.rely_trans _ _ _ hrely hs) hinv'

/-- **Soundness.**  In every run whose steps all meet the assumption of the
contract, every step keeps the invariant and meets the guarantee. -/
theorem Kernel.sound (hK : K.Meets C) (ms : List (Move π ι τ)) :
    ∀ S : Sys σ ω π τ, S.Ok C → AllSteps K C.assume S ms →
      AllSteps K (fun l s s' => C.inv s' ∧ C.guar l s s') S ms := by
  induction ms with
  | nil =>
      intro S _ _
      trivial
  | cons m ms ih =>
      intro S hS hall
      unfold AllSteps at hall ⊢
      cases hm : S.move K m with
      | none => trivial
      | some x =>
          obtain ⟨l, S'⟩ := x
          rw [hm] at hall
          obtain ⟨hassume, hrest⟩ := hall
          obtain ⟨hS', hguar⟩ := hS.move hK hm hassume
          exact ⟨⟨hS'.inv, hguar⟩, ih S' hS' hrest⟩

end Soundness

end Logic

end Lib
end Elks
