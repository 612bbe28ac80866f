import Elks.Sched.RunQueue

/-!
# The idle task, and the run queue in every run

Without a signal the idle task does nothing but call `schedule`.

**Results.**
* `Calm.step`: the idle task stays so as long as no signal is sent to it.
* `run_queue`: the run queue in every run in which no signal is sent to the idle
  task.
-/

namespace Elks
namespace Sched

open Lib

/-- A frame of `schedule` without signals. -/
def Frame.scheduling : Frame → Bool
  | .entry => true
  | .timers _ => true
  | .fire _ _ => true
  | .dequeue _ => true
  | .choose _ _ => true
  | .arm _ _ => true
  | .switch _ _ => true
  | .switched _ => true
  | .disarm _ => true
  | _ => false

/-- The idle task does nothing but call `schedule`. -/
structure Calm (s : State) : Prop where
  signal : (s.task 0).signal = 0
  state : (s.task 0).state = .running
  stack : ∀ f ∈ s.stack 0, f.scheduling = true

section Calm

variable {s s' : State} {l : List TaskRef} {p : TaskRef} {f : Frame} {st rest : List Frame}

theorem Calm.congr (h : Calm s) (htask : s'.task 0 = s.task 0)
    (hstack : s'.stack 0 = s.stack 0) : Calm s' := by
  refine ⟨?_, ?_, ?_⟩
  · rw [htask]
    exact h.signal
  · rw [htask]
    exact h.state
  · rw [hstack]
    exact h.stack

theorem Calm.wake (h : Calm s) : Calm (s.wakeUpProcess p) := by
  refine ⟨?_, ?_, ?_⟩
  · rw [wakeUpProcess_task]
    rcases eq_or_ne 0 p with rfl | hp
    · simpa using h.signal
    · simpa [hp] using h.signal
  · rw [wakeUpProcess_task]
    rcases eq_or_ne 0 p with rfl | hp
    · simp
    · simpa [hp] using h.state
  · rw [wakeUpProcess_stack]
    exact h.stack

theorem Calm.modTask {g : Task → Task}
    (h : Calm s) (hg : p = 0 → (g (s.task p)).signal = (s.task p).signal ∧
      (g (s.task p)).state = (s.task p).state) :
    Calm (s.modTask p g) := by
  rcases eq_or_ne p 0 with rfl | hp
  · obtain ⟨hsignal, hstate⟩ := hg rfl
    have htask : (s.modTask 0 g).task 0 = g (s.task 0) := by
      simp [State.modTask]
    refine ⟨?_, ?_, h.stack⟩
    · rw [htask, hsignal]
      exact h.signal
    · rw [htask, hstate]
      exact h.state
  · exact h.congr (Function.update_of_ne hp.symm _ _) rfl

theorem Calm.setStack (h : Calm s) (hst : s.current = 0 → ∀ f ∈ st, f.scheduling = true) :
    Calm (s.setStack st) := by
  refine ⟨h.signal, h.state, ?_⟩
  rcases eq_or_ne s.current 0 with hc | hc
  · have hself : (s.setStack st).stack 0 = st := by
      rw [← hc]
      exact setStack_self s st
    rw [hself]
    exact hst hc
  · rw [setStack_other s st hc.symm]
    exact h.stack

theorem Calm.next {g : Frame}
    (h : Calm s) (hf : s.stack s.current = f :: rest) (hg : g.scheduling = true) :
    Calm (s.setStack (g :: rest)) := by
  refine h.setStack ?_
  intro hc f' hf'
  rcases List.mem_cons.mp hf' with rfl | hmem
  · exact hg
  · refine h.stack f' ?_
    rw [← hc, hf]
    exact List.mem_cons_of_mem f hmem

theorem Calm.back (h : Calm s) (hf : s.stack s.current = f :: rest) : Calm (s.setStack rest) := by
  refine h.setStack ?_
  intro hc f' hf'
  refine h.stack f' ?_
  rw [← hc, hf]
  exact List.mem_cons_of_mem f hf'

/-- The tasks other than the idle one do not touch it. -/
theorem Calm.takes {turn : Turn} (h : Calm s) (hc : s.current ≠ 0) : Calm (s.takes turn) := by
  cases turn with
  | goes d st =>
      exact h.congr (Function.update_of_ne hc.symm _ _) (Function.update_of_ne hc.symm _ _)
  | halts halt => exact h.congr rfl rfl

theorem Calm.del (h : Calm s) : Calm (s.delFromRunqueue p) :=
  h.congr (congrFun (delFromRunqueue_task s p) 0) (congrFun (delFromRunqueue_stack s p) 0)

theorem Calm.dequeue {next : TaskRef}
    (h : Calm s) (hf : s.stack s.current = .dequeue next :: rest) : Calm (s.dequeue next rest) := by
  refine dequeue_ind s ?_ ?_ fun _ => h.next hf rfl
  · intro g hst _ _
    have hmod : Calm (s.modTask s.current g) := by
      refine h.modTask fun hc => ?_
      rw [hc, h.state] at hst
      cases hst
    exact hmod.next (f := .dequeue next) hf rfl
  · intro timeout _ _
    refine h.del.next (f := .dequeue next) ?_ rfl
    rw [delFromRunqueue_stack, delFromRunqueue_current]
    exact hf

theorem Calm.schedule
    (h : Calm s) (hf : s.stack s.current = f :: rest) (hrun : s.schedule rest f = some s') :
    Calm s' := by
  cases schedule_cases s hrun with
  | exiting | same _ | disarmsNot => exact h.back hf
  | unlinked | idleUnlinked _ _ => exact h.congr rfl rfl
  | linked _ | unexpired _ | skipsIdle _ _ _ | other _ _ | armsNot _ => exact h.next hf rfl
  | expired next tm tl =>
      have h' : Calm { s with tlList := tl } := h.congr rfl rfl
      exact h'.next (f := .timers next) hf rfl
  | fire next p =>
      have h' : Calm ((s.modTask p fun d => { d with timeout := 0 }).wakeUpProcess p) :=
        (h.modTask fun _ => ⟨rfl, rfl⟩).wake
      refine h'.next (f := .fire next p) ?_ rfl
      rw [wakeUpProcess_stack, wakeUpProcess_current]
      exact hf
  | dequeue next => exact h.dequeue hf
  | arms next timeout =>
      have h' : Calm { s with
          tlList := addTimer ⟨s.current, rest.length, timeout, s.current⟩ s.tlList } :=
        h.congr rfl rfl
      exact h'.next (f := .arm next timeout) hf rfl
  | switch next timeout => exact (h.next (g := .switched timeout) hf rfl).congr rfl rfl
  | disarms timeout =>
      have h' : Calm { s with tlList := delTimer s.current rest.length s.tlList } :=
        h.congr rfl rfl
      exact h'.back (f := .disarm timeout) hf

theorem Calm.fork {root memory : Bool} {pid : Nat} (h : Calm s) (hc : s.current ≠ 0) :
    Calm (s.fork root memory pid) := by
  unfold State.fork
  split
  · exact h
  · rename_i n hfind
    have hn : n ≠ 0 := by
      rintro rfl
      have hunused := findEmptyProcess_unused hfind
      rw [h.state] at hunused
      cases hunused
    split
    · exact h.congr rfl rfl
    · cases memory with
      | true =>
          refine h.congr (Function.update_of_ne hn.symm _ _) ?_
          exact (Function.update_of_ne hc.symm _ _).trans (Function.update_of_ne hn.symm _ _)
      | false =>
          exact h.congr (Function.update_of_ne hn.symm _ _) (Function.update_of_ne hn.symm _ _)

theorem scheduling_turn {d : Task} {idle : Bool} {locked : Nat → Bool} {op : Op} {turn : Turn}
    (hf : f.scheduling = true) (hsignal : d.signal = 0)
    (h : d.turn idle locked op f rest = some turn) :
    ∃ timeout, turn = .goes d (.disarm timeout :: rest) := by
  cases f with
  | switched timeout =>
      simp only [Task.turn, hsignal, ne_eq, not_true_eq_false, if_false] at h
      obtain rfl := Option.some.inj h
      exact ⟨timeout, rfl⟩
  | _ => first | (simp only [Task.turn, reduceCtorEq] at h; done) | cases hf

theorem Calm.run {op : Op} (h : Calm s) (hrun : s.run op = some s') : Calm s' := by
  cases run_cases s hrun with
  | fork root memory pid _ hc => exact h.fork hc
  | call turn _ hturn =>
      rcases eq_or_ne s.current 0 with hc | hc
      · have hidle : decide (s.current = 0) = true := by simpa using hc
        rw [hidle] at hturn
        cases turn with
        | halts halt => exact h.congr rfl rfl
        | goes d st =>
            cases op with
            | yield =>
                obtain ⟨rfl, rfl⟩ := Turn.goes.inj (Option.some.inj hturn)
                have hmod : Calm (s.modTask s.current fun _ => s.task s.current) :=
                  h.modTask fun _ => ⟨rfl, rfl⟩
                refine hmod.setStack ?_
                intro _ f hf
                rw [List.mem_singleton.mp hf]
                rfl
            | _ => cases hturn
      · exact h.takes hc
  | forkWake n rest hf =>
      refine h.wake.back (f := .forkWake n) ?_
      rw [wakeUpProcess_stack, wakeUpProcess_current]
      exact hf
  | schedule f rest u hf hsched => exact h.schedule hf hsched
  | turn f rest turn hf hturn =>
      rcases eq_or_ne s.current 0 with hc | hc
      · have hscheduling : f.scheduling = true := by
          refine h.stack f ?_
          rw [← hc, hf]
          exact List.mem_cons_self
        have hsignal : (s.task s.current).signal = 0 := by
          rw [hc]
          exact h.signal
        obtain ⟨timeout, rfl⟩ := scheduling_turn hscheduling hsignal hturn
        have hmod : Calm (s.modTask s.current fun _ => s.task s.current) :=
          h.modTask fun _ => ⟨rfl, rfl⟩
        exact hmod.next (f := f) hf rfl
      · exact h.takes hc

theorem Calm.sendSig {sig : Fin nsig} (h : Calm s) (hp : p ≠ 0) : Calm (s.sendSig sig p) := by
  exact sendSig_ind h (fun _ _ hu => hu.modTask fun hp0 => absurd hp0 hp) fun _ hu _ => hu.wake

theorem Calm.step {a : Act}
    (h : Calm s) (ha : ∀ sig, a ≠ .sendSig sig 0) (hstep : s.step a = some s') : Calm s' := by
  unfold State.step at hstep
  split at hstep
  · cases hstep
  · cases a with
    | tick =>
        obtain rfl := Option.some.inj hstep
        exact h.congr rfl rfl
    | wakeRound addr it p =>
        obtain rfl := Option.some.inj hstep
        unfold State.wakeRound
        split
        · exact h.wake
        · exact h
    | sendSig sig p =>
        obtain rfl := Option.some.inj hstep
        have hp : p ≠ 0 := by
          rintro rfl
          exact ha sig rfl
        exact h.sendSig hp
    | setLock addr value =>
        obtain rfl := Option.some.inj hstep
        exact h.congr rfl rfl
    | run op => exact h.run hstep

end Calm

theorem startKernel_calm : Calm startKernel := by
  refine ⟨rfl, rfl, ?_⟩
  decide

/-- An action that sends no signal to the idle task. -/
def NoIdleSignal (_ : State) (a : Act) : Prop :=
  ∀ sig, a ≠ .sendSig sig 0

/-- The run queue, with `l` the tasks on it behind the idle task. -/
structure RunQueue (s : State) (l : List TaskRef) : Prop where
  ring : Ring s.nextRun s.prevRun (0 :: l)
  members : ∀ t, t ∈ 0 :: l ↔ s.Live t ∧ s.nextRun t ≠ none
  count : s.nrRunning = (0 :: l).length - 1
  running : ∀ t, t ≠ 0 → s.Live t → (s.task t).state = .running → t ∈ l
  /- `schedule` at the end of its loop, and behind it. -/
  chosen : ∀ next timeout rest, s.stack s.current = .choose next timeout :: rest →
    ¬(next = 0 ∧ 0 < s.nrRunning) → next ∈ 0 :: l ∧ (next = 0 → l = [])
  switched : ∀ next timeout rest, s.stack s.current = .switch next timeout :: rest →
    next ∈ 0 :: l
  current : s.current ∈ 0 :: l ∨
    ∃ f rest, s.stack s.current = f :: rest ∧ f.away = true
  linked : s.halted ≠ some .nullPointer

theorem Queued.runQueue {s : State} {l : List TaskRef} (h : Queued s l)
    (hlinked : s.halted ≠ some .nullPointer) : RunQueue s l where
  ring := h.queue.ring
  members := by
    intro t
    rcases eq_or_ne t 0 with rfl | ht
    · exact ⟨fun _ => ⟨Or.inl h.idle, h.queue.idle_next⟩, fun _ => List.mem_cons_self⟩
    · rw [List.mem_cons, or_iff_right ht]
      exact h.queue.mem t ht
  count := h.queue.count
  running := h.queue.running
  chosen := by
    intro next timeout rest hf hend
    refine ⟨(h.frame _ _ hf).1.1, ?_⟩
    intro hnext
    have hcount : s.nrRunning = 0 := by
      by_contra hpos
      exact hend ⟨hnext, Nat.pos_of_ne_zero hpos⟩
    exact List.length_eq_zero_iff.mp (h.queue.count ▸ hcount)
  switched := fun next timeout rest hf => (h.frame _ _ hf).1.1
  current := by
    rcases eq_or_ne s.current 0 with hc | hc
    · rw [hc]
      exact Or.inl List.mem_cons_self
    · exact (h.on hc).imp_left (List.mem_cons_of_mem 0)
  linked := hlinked

/-- The run queue in every state of every run in which no signal is sent to the idle
task.  Such a signal would end it as it ends any other task. -/
theorem run_queue {s : State} (h : Reached NoIdleSignal s) :
    ∃ l, RunQueue s l := by
  have hkept : Calm s ∧ (∃ l, Queued s l) ∧ s.halted ≠ some .nullPointer := by
    induction h with
    | start => exact ⟨startKernel_calm, ⟨[1], startKernel_queued⟩, by simp [startKernel_halted]⟩
    | step _ ha hs ih =>
        obtain ⟨hcalm, ⟨l, hqueued⟩, _⟩ := ih
        have hcalm' := hcalm.step ha hs
        refine ⟨hcalm', hqueued.step hs ?_, hqueued.notNull hs⟩
        rw [hcalm'.state]
        simp
  obtain ⟨_, ⟨l, hqueued⟩, hlinked⟩ := hkept
  exact ⟨l, hqueued.runQueue hlinked⟩

instance {s : State} {a : Act} : Decidable (NoIdleSignal s a) :=
  inferInstanceAs (Decidable (∀ _, _))

/-- The first task runs, forks and wakes its child. -/
def forkedRun : Option State :=
  startKernel.acts NoIdleSignal
    (nexts 6 ++ [.run (.fork true true 2), .run .next])

theorem forkedRun_goes : forkedRun.isSome = true := by
  decide

theorem run_queue_forked : ∃ l, RunQueue (forkedRun.get forkedRun_goes) l :=
  run_queue (Reached.start.acts (Option.some_get forkedRun_goes).symm)

end Sched
end Elks
