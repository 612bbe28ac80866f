import Elks.Sched.Machine

/-!
# Semaphores (kernel/sleepwake.c)

`down` sleeps on the address of the semaphore while its value is negative, and then takes
one off; `up` puts it back, and wakes the sleepers when the value comes to zero.  They all
wake, and test again.

Any number of tasks go round: outside, in `down`, inside, and with `up` outside again.
Outside and inside they may sleep on any queue, by `sleep_on` or in `select`.  A task keeps
the processor until it sleeps, or gives it up outside; a signal may stop it where
`schedule` comes back.  At any time anybody may wake a queue or a task, and write to the
other fields of a task.

**Result.**  `semaphore_run`: over any run at most one task is inside, the value is -1
while there is one and else 0, and while it is 0 nobody who waits in `down` is asleep.
-/

namespace Elks
namespace Semaphore

open Lib Sched
open Function (update update_of_ne update_self)

/-- Where a task is, with the queue it sleeps on for reasons of its own. -/
inductive Place
  | outside (asleep : Option Wait)
  /-- In `sleep_on`, called by `down`. -/
  | waiting
  | inside (asleep : Option Wait)
deriving DecidableEq

/-- The table of tasks, the first of which is the idle task, and one semaphore. -/
structure Tasks (n : Nat) where
  sem : BitVec 16
  task : Fin (n + 1) → Task
  place : Fin (n + 1) → Place
  queued : Fin (n + 1) → Bool
  current : Fin (n + 1)
  halted : Option Halt

section Calls

variable {n : Nat} (s : Tasks n)

/-- The current task gets new fields. -/
def Tasks.setCurrent (d : Task) : Tasks n :=
  { s with task := update s.task s.current d }

/-- The current task goes to another place. -/
def Tasks.goTo (p : Place) : Tasks n :=
  { s with place := update s.place s.current p }

/-- `wake_up_process`. -/
def Tasks.wakeUpProcess (p : Fin (n + 1)) : Tasks n :=
  { s with
    task := update s.task p { s.task p with state := .running }
    queued := update s.queued p true }

/-- One round of the loop of `_wake_up`. -/
def Tasks.wakeRound (addr : Nat) (it : Bool) (p : Fin (n + 1)) : Tasks n :=
  if (s.task p).awaits addr it then s.wakeUpProcess p else s

/-- `_wake_up`. -/
def Tasks.wakeUp (addr : Nat) (it : Bool) : Tasks n :=
  (List.finRange (n + 1)).foldl (fun s p => s.wakeRound addr it p) s

/-- `__sleep_on` as far as the call of `schedule`. -/
def Tasks.sleepOn (w : Wait) (state : TaskState) : Tasks n :=
  if s.current = 0 then
    { s with halted := some .idleSleeps }
  else if (s.task s.current).waitpt = none then
    s.setCurrent { s.task s.current with state := state, waitpt := some w }
  else
    { s with halted := some .doubleWait }

/-- `__sleep_on` from there on: `wait_clear`. -/
def Tasks.sleepBack (w : Wait) : Tasks n :=
  if (s.task s.current).waitpt = some w then
    s.setCurrent { s.task s.current with waitpt := none }
  else
    { s with halted := some .wrongWaitpt }

/-- `schedule`, once `next` is chosen from the run queue. -/
def Tasks.schedule (next : Fin (n + 1)) : Tasks n :=
  { s with
    queued :=
      if (s.task s.current).state = .running ∨ s.current = 0 then
        s.queued
      else
        update s.queued s.current false
    current := next }

/-- `down`, where it tests the semaphore at `addr`. -/
def Tasks.down (addr : Nat) : Tasks n :=
  if s.sem.slt 0 then
    (s.sleepOn (.at addr) .uninterruptible).goTo .waiting
  else
    { s with sem := s.sem - 1 }.goTo (.inside none)

/-- `down`, where `sleep_on` comes back. -/
def Tasks.downAgain (addr : Nat) : Tasks n :=
  if (s.sleepBack (.at addr)).halted = none then
    (s.sleepBack (.at addr)).down addr
  else
    s.sleepBack (.at addr)

/-- `up`. -/
def Tasks.up (addr : Nat) : Tasks n :=
  if s.sem + 1 = 0 then
    ({ s with sem := s.sem + 1 }.wakeUp addr true).goTo (.outside none)
  else
    { s with sem := s.sem + 1 }.goTo (.outside none)

end Calls

/-- What may happen. -/
inductive Event (n : Nat)
  /- The current task calls `down`, goes on in it, and calls `up`. -/
  | down
  | downAgain
  | up
  /- It goes to sleep on a queue of its own, and comes back. -/
  | sleep (w : Wait) (state : TaskState)
  | back (w : Wait)
  /- It is stopped, ends, or waits to be told. -/
  | quit (state : TaskState)
  | schedule (next : Fin (n + 1))
  | wakeUp (addr : Nat) (it : Bool)
  | wakeUpProcess (p : Fin (n + 1))
  | write (p : Fin (n + 1)) (d : Task)

section Runs

variable {n : Nat}

/-- The current task runs code of its own. -/
def Tasks.Runs (s : Tasks n) : Prop :=
  s.current ≠ 0 ∧ (s.task s.current).state = .running

/-- What an event leads to at the semaphore `addr`, as long as nothing has panicked.  Inside,
a task gives up the processor only in its sleep. -/
inductive Step (addr : Nat) (s : Tasks n) : Event n → Tasks n → Prop
  | down (hh : s.halted = none) (hr : s.Runs) (hp : s.place s.current = .outside none) :
      Step addr s .down (s.down addr)
  | downAgain (hh : s.halted = none) (hr : s.Runs) (hp : s.place s.current = .waiting) :
      Step addr s .downAgain (s.downAgain addr)
  | up (hh : s.halted = none) (hr : s.Runs) (hp : s.place s.current = .inside none) :
      Step addr s .up (s.up addr)
  | sleepOutside {w : Wait} {state : TaskState} (hh : s.halted = none) (hr : s.Runs)
      (hp : s.place s.current = .outside none) :
      Step addr s (.sleep w state) ((s.sleepOn w state).goTo (.outside (some w)))
  | sleepInside {w : Wait} {state : TaskState} (hh : s.halted = none) (hr : s.Runs)
      (hp : s.place s.current = .inside none) :
      Step addr s (.sleep w state) ((s.sleepOn w state).goTo (.inside (some w)))
  | backOutside {w : Wait} (hh : s.halted = none) (hr : s.Runs)
      (hp : s.place s.current = .outside (some w)) :
      Step addr s (.back w) ((s.sleepBack w).goTo (.outside none))
  | backInside {w : Wait} (hh : s.halted = none) (hr : s.Runs)
      (hp : s.place s.current = .inside (some w)) :
      Step addr s (.back w) ((s.sleepBack w).goTo (.inside none))
  | quit {state : TaskState} (hh : s.halted = none) (hr : s.Runs)
      (hp : s.place s.current = .outside none ∨
        state = .stopped ∧ s.place s.current ≠ .inside none) :
      Step addr s (.quit state) (s.setCurrent { s.task s.current with state := state })
  | schedule {next : Fin (n + 1)} (hh : s.halted = none)
      (hp : s.place s.current ≠ .inside none) (hq : (s.schedule next).queued next = true) :
      Step addr s (.schedule next) (s.schedule next)
  | wakeUp (a : Nat) (it : Bool) (hh : s.halted = none) :
      Step addr s (.wakeUp a it) (s.wakeUp a it)
  | wakeUpProcess (p : Fin (n + 1)) (hh : s.halted = none) :
      Step addr s (.wakeUpProcess p) (s.wakeUpProcess p)
  | write {p : Fin (n + 1)} {d : Task} (hh : s.halted = none)
      (hstate : d.state = (s.task p).state) (hwait : d.waitpt = (s.task p).waitpt) :
      Step addr s (.write p d) { s with task := update s.task p d }

/-- A run of events. -/
inductive Run (addr : Nat) : Tasks n → List (Event n) → Tasks n → Prop
  | done (s : Tasks n) : Run addr s [] s
  | step {s s' u : Tasks n} {e : Event n} {es : List (Event n)}
      (hs : Step addr s e u) (hrest : Run addr u es s') : Run addr s (e :: es) s'

/-- A task is in its critical section. -/
def Tasks.Inside (s : Tasks n) (t : Fin (n + 1)) : Prop :=
  ∃ o, s.place t = .inside o

/-- The queue that a task has called `wait_set` with. -/
def Place.queue (addr : Nat) : Place → Option Wait
  | .outside o => o
  | .waiting => some (.at addr)
  | .inside o => o

/-- A task that is on the run queue, ready to run. -/
def Tasks.Runnable (s : Tasks n) (t : Fin (n + 1)) : Prop :=
  (s.task t).state = .running ∧ s.queued t = true

/-- The semaphore is zero, and all tasks are outside. -/
structure Tasks.Fresh (s : Tasks n) : Prop where
  sem : s.sem = 0
  place : ∀ t, s.place t = .outside (s.task t).waitpt
  queued : ∀ t, (s.task t).state = .running → s.queued t = true
  halted : s.halted = none

/-- The invariant; `stops` says whether tasks have been stopped. -/
structure Tasks.Guarded (addr : Nat) (stops : Prop) (s : Tasks n) : Prop where
  halted : s.halted = none
  value : s.sem = 0 ∨ s.sem = -1
  held : s.sem = -1 ↔ ∃ t, s.Inside t
  one : ∀ t u, s.Inside t → s.Inside u → t = u
  pointer : ∀ t, (s.task t).waitpt = (s.place t).queue addr
  waits : ∀ t, s.place t = .waiting → (s.task t).state = .running ∨
    (s.task t).state = .uninterruptible ∧ s.sem = -1 ∨ (s.task t).state = .stopped ∧ stops
  queued : ∀ t, (s.task t).state = .running → s.queued t = true

variable {addr a : Nat} {it : Bool} {stops stops' : Prop} {s s' u : Tasks n} {t c : Fin (n + 1)}
  {w : Wait} {state : TaskState} {d : Task} {p : Place}
  {e : Event n} {es : List (Event n)}

/-! ### Waking -/

theorem wakeUpProcess_task (c : Fin (n + 1)) :
    (s.wakeUpProcess c).task t =
      if t = c then { s.task t with state := .running } else s.task t := by
  by_cases htc : t = c
  · subst htc
    simp [Tasks.wakeUpProcess]
  · simp [Tasks.wakeUpProcess, htc]

theorem wakeUpProcess_queued (c : Fin (n + 1)) :
    (s.wakeUpProcess c).queued t = if t = c then true else s.queued t := by
  by_cases htc : t = c
  · subst htc
    simp [Tasks.wakeUpProcess]
  · simp [Tasks.wakeUpProcess, htc]

/-- The fields that waking does not touch. -/
structure Keeps (s s' : Tasks n) : Prop where
  sem : s'.sem = s.sem
  place : s'.place = s.place
  current : s'.current = s.current
  halted : s'.halted = s.halted

theorem Keeps.refl (s : Tasks n) : Keeps s s :=
  ⟨rfl, rfl, rfl, rfl⟩

theorem Keeps.trans (h : Keeps s u) (h' : Keeps u s') : Keeps s s' :=
  ⟨h'.sem.trans h.sem, h'.place.trans h.place, h'.current.trans h.current,
    h'.halted.trans h.halted⟩

theorem wakeRound_keeps (c : Fin (n + 1)) : Keeps s (s.wakeRound a it c) := by
  unfold Tasks.wakeRound
  split
  · exact ⟨rfl, rfl, rfl, rfl⟩
  · exact Keeps.refl s

/-- A task that is woken. -/
def woken (d : Task) (awake : Prop) [Decidable awake] : Task :=
  if awake then { d with state := .running } else d

theorem wakeRound_task (c : Fin (n + 1)) :
    (s.wakeRound a it c).task t = woken (s.task t) (t = c ∧ (s.task t).awaits a it) := by
  unfold Tasks.wakeRound woken
  by_cases htc : t = c
  · subst htc
    by_cases hw : (s.task t).awaits a it
    · rw [if_pos hw, wakeUpProcess_task, if_pos rfl, if_pos ⟨rfl, hw⟩]
    · rw [if_neg hw, if_neg fun h => hw h.2]
  · rw [if_neg (fun h : t = c ∧ _ => htc h.1)]
    split
    · rw [wakeUpProcess_task, if_neg htc]
    · rfl

theorem wakeRound_queued (c : Fin (n + 1)) :
    (s.wakeRound a it c).queued t = true ↔
      s.queued t = true ∨ t = c ∧ (s.task t).awaits a it := by
  unfold Tasks.wakeRound
  by_cases htc : t = c
  · subst htc
    by_cases hw : (s.task t).awaits a it
    · simp [wakeUpProcess_queued, hw]
    · simp [hw]
  · split
    · simp [wakeUpProcess_queued, htc]
    · simp [htc]

theorem wakeRounds (l : List (Fin (n + 1))) (s : Tasks n) :
    Keeps s (l.foldl (fun s p => s.wakeRound a it p) s) ∧
    ∀ t, (l.foldl (fun s p => s.wakeRound a it p) s).task t =
        woken (s.task t) (t ∈ l ∧ (s.task t).awaits a it) ∧
      ((l.foldl (fun s p => s.wakeRound a it p) s).queued t = true ↔
        s.queued t = true ∨ t ∈ l ∧ (s.task t).awaits a it) := by
  induction l generalizing s with
  | nil => exact ⟨Keeps.refl s, fun t => by simp [woken]⟩
  | cons c l ih =>
      obtain ⟨hkeeps, hslots⟩ := ih (s.wakeRound a it c)
      rw [List.foldl_cons]
      refine ⟨(wakeRound_keeps c).trans hkeeps, fun t => ?_⟩
      obtain ⟨htask, hqueued⟩ := hslots t
      rw [htask, hqueued, wakeRound_task, wakeRound_queued]
      unfold woken
      -- a task that has been woken is not meant again
      have hawake : ¬({ s.task t with state := .running } : Task).awaits a it := by
        simp [Task.awaits]
      by_cases hw : (s.task t).awaits a it
      · by_cases htc : t = c
        · subst htc
          simp [hw, hawake]
        · simp [hw, htc]
      · simp [hw]

theorem wakeUp_keeps : Keeps s (s.wakeUp a it) :=
  (wakeRounds _ s).1

theorem wakeUp_task : (s.wakeUp a it).task t = woken (s.task t) ((s.task t).awaits a it) := by
  have h : (s.wakeUp a it).task t =
      woken (s.task t) (t ∈ List.finRange (n + 1) ∧ (s.task t).awaits a it) :=
    ((wakeRounds _ s).2 t).1
  simp only [List.mem_finRange, true_and] at h
  exact h

theorem wakeUp_queued :
    (s.wakeUp a it).queued t = true ↔ s.queued t = true ∨ (s.task t).awaits a it := by
  have h : (s.wakeUp a it).queued t = true ↔
      s.queued t = true ∨ t ∈ List.finRange (n + 1) ∧ (s.task t).awaits a it :=
    ((wakeRounds _ s).2 t).2
  simp only [List.mem_finRange, true_and] at h
  exact h

/-! ### The invariant -/

theorem Keeps.inside (h : Keeps s s') : s'.Inside t ↔ s.Inside t := by
  rw [Tasks.Inside, Tasks.Inside, h.place]

theorem Tasks.Guarded.wakes (h : s.Guarded addr stops) (hkeeps : Keeps s s')
    (htask : ∀ t, (s'.task t).waitpt = (s.task t).waitpt ∧
      ((s'.task t).state = (s.task t).state ∨ (s'.task t).state = .running))
    (hqueued : ∀ t, (s'.task t).state = .running → s'.queued t = true) :
    s'.Guarded addr stops where
  halted := hkeeps.halted.trans h.halted
  value := by
    rw [hkeeps.sem]
    exact h.value
  held := by
    rw [hkeeps.sem, h.held]
    exact exists_congr fun t => hkeeps.inside.symm
  one := fun t u ht hu => h.one t u (hkeeps.inside.mp ht) (hkeeps.inside.mp hu)
  pointer := fun t => by
    rw [(htask t).1, hkeeps.place]
    exact h.pointer t
  waits := fun t ht => by
    rw [hkeeps.place] at ht
    rcases (htask t).2 with hsame | hrun
    · rw [hsame, hkeeps.sem]
      exact h.waits t ht
    · exact Or.inl hrun
  queued := hqueued

theorem Tasks.Guarded.moves (h : s.Guarded addr stops)
    (hin : (∃ o, p = .inside o) ↔ s.Inside s.current) (hptr : d.waitpt = p.queue addr)
    (hwait : p = .waiting → d.state = .running ∨
      d.state = .uninterruptible ∧ s.sem = -1 ∨ d.state = .stopped ∧ stops)
    (hqueued : d.state = .running → s.queued s.current = true) :
    ((s.setCurrent d).goTo p).Guarded addr stops := by
  have hinside : ∀ t, ((s.setCurrent d).goTo p).Inside t ↔ s.Inside t := by
    intro t
    by_cases htc : t = s.current
    · subst htc
      rw [← hin]
      simp [Tasks.Inside, Tasks.goTo, Tasks.setCurrent]
    · simp [Tasks.Inside, Tasks.goTo, Tasks.setCurrent, htc]
  refine ⟨h.halted, h.value, ?_, fun t u ht hu => ?_, fun t => ?_, fun t ht => ?_,
    fun t ht => ?_⟩
  · exact h.held.trans (exists_congr fun t => (hinside t).symm)
  · exact h.one t u ((hinside t).mp ht) ((hinside u).mp hu)
  all_goals by_cases htc : t = s.current
  · subst htc
    simpa [Tasks.goTo, Tasks.setCurrent] using hptr
  · simpa [Tasks.goTo, Tasks.setCurrent, htc] using h.pointer t
  · subst htc
    simp only [Tasks.goTo, Tasks.setCurrent, update_self] at ht ⊢
    exact hwait ht
  · simp only [Tasks.goTo, Tasks.setCurrent, update_of_ne htc] at ht ⊢
    exact h.waits t ht
  · subst htc
    simp only [Tasks.goTo, Tasks.setCurrent, update_self] at ht ⊢
    exact hqueued ht
  · simp only [Tasks.goTo, Tasks.setCurrent, update_of_ne htc] at ht ⊢
    exact h.queued t ht

theorem Tasks.Guarded.wakeUpProcess (h : s.Guarded addr stops) (c : Fin (n + 1)) :
    (s.wakeUpProcess c).Guarded addr stops := by
  refine h.wakes ⟨rfl, rfl, rfl, rfl⟩ (fun t => ?_) fun t ht => ?_
  · rw [wakeUpProcess_task]
    split
    · exact ⟨rfl, Or.inr rfl⟩
    · exact ⟨rfl, Or.inl rfl⟩
  · rw [wakeUpProcess_queued]
    rw [wakeUpProcess_task] at ht
    split
    · rfl
    · rename_i htc
      rw [if_neg htc] at ht
      exact h.queued t ht

theorem woken_waitpt (d : Task) (awake : Prop) [Decidable awake] :
    (woken d awake).waitpt = d.waitpt := by
  unfold woken
  split <;> rfl

theorem woken_state (d : Task) (awake : Prop) [Decidable awake] :
    (woken d awake).state = if awake then .running else d.state := by
  unfold woken
  split <;> rfl

theorem wakeUp_runs_queued (hqueued : ∀ t, (s.task t).state = .running → s.queued t = true)
    (ht : ((s.wakeUp a it).task t).state = .running) : (s.wakeUp a it).queued t = true := by
  rw [wakeUp_task, woken_state] at ht
  rw [wakeUp_queued]
  by_cases hw : (s.task t).awaits a it
  · exact Or.inr hw
  · rw [if_neg hw] at ht
    exact Or.inl (hqueued t ht)

theorem Tasks.Guarded.wakeUp
    (h : s.Guarded addr stops) (a : Nat) (it : Bool) : (s.wakeUp a it).Guarded addr stops := by
  refine h.wakes wakeUp_keeps (fun t => ?_) fun t => wakeUp_runs_queued h.queued
  rw [wakeUp_task, woken_waitpt, woken_state]
  split
  · exact ⟨rfl, Or.inr rfl⟩
  · exact ⟨rfl, Or.inl rfl⟩

theorem Tasks.Guarded.sleepOn
    (h : s.Guarded addr stops) (hr : s.Runs) (hp : (s.place s.current).queue addr = none) :
    s.sleepOn w state =
      s.setCurrent { s.task s.current with state := state, waitpt := some w } := by
  rw [Tasks.sleepOn, if_neg hr.1, if_pos ((h.pointer _).trans hp)]

theorem Tasks.Guarded.sleepBack
    (h : s.Guarded addr stops) (hp : (s.place s.current).queue addr = some w) :
    s.sleepBack w = s.setCurrent { s.task s.current with waitpt := none } := by
  rw [Tasks.sleepBack, if_pos ((h.pointer _).trans hp)]

theorem Tasks.Guarded.down
    (h : s.Guarded addr stops) (hr : s.Runs) (hp : s.place s.current = .outside none) :
    (s.down addr).Guarded addr stops := by
  have hout : ¬s.Inside s.current := by
    rintro ⟨o, ho⟩
    rw [hp] at ho
    cases ho
  unfold Tasks.down
  rcases h.value with hzero | hneg
  · have hnone : ¬∃ t, s.Inside t := by
      rw [← h.held, hzero]
      decide
    rw [hzero, if_neg (by decide)]
    have hinside : ∀ t, ({ s with sem := 0 - 1 }.goTo (.inside none) : Tasks n).Inside t ↔
        t = s.current := by
      intro t
      by_cases htc : t = s.current
      · subst htc
        simp [Tasks.Inside, Tasks.goTo]
      · have hno : ¬∃ o, s.place t = .inside o := fun ho => hnone ⟨t, ho⟩
        simpa [Tasks.Inside, Tasks.goTo, htc] using hno
    refine ⟨h.halted, Or.inr rfl, ?_, fun t u ht hu => ?_, fun t => ?_, fun t ht => ?_,
      h.queued⟩
    · exact iff_of_true rfl ⟨s.current, (hinside _).mpr rfl⟩
    · exact ((hinside t).mp ht).trans ((hinside u).mp hu).symm
    all_goals by_cases htc : t = s.current
    · have hptr := h.pointer s.current
      rw [hp] at hptr
      subst htc
      simpa [Tasks.goTo, Place.queue] using hptr
    · simpa [Tasks.goTo, htc] using h.pointer t
    · subst htc
      simp [Tasks.goTo] at ht
    · simp only [Tasks.goTo, update_of_ne htc] at ht ⊢
      rcases h.waits t ht with hrun | ⟨_, hsem⟩ | hstop
      · exact Or.inl hrun
      · rw [hzero] at hsem
        exact absurd hsem (by decide)
      · exact Or.inr (Or.inr hstop)
  · rw [if_pos (by rw [hneg]; decide), h.sleepOn hr (by rw [hp]; rfl)]
    refine h.moves (iff_of_false ?_ hout) rfl (fun _ => Or.inr (Or.inl ⟨rfl, hneg⟩)) ?_
    · rintro ⟨o, ho⟩
      cases ho
    · intro hrun
      cases hrun

theorem goTo_goTo (p q : Place) : (s.goTo p).goTo q = s.goTo q := by
  simp [Tasks.goTo]

theorem sleepOn_goTo : (s.goTo p).sleepOn w state = (s.sleepOn w state).goTo p := by
  by_cases hidle : s.current = 0
  · simp [Tasks.sleepOn, Tasks.goTo, hidle]
  · by_cases hwait : (s.task s.current).waitpt = none
    · simp [Tasks.sleepOn, Tasks.goTo, Tasks.setCurrent, hidle, hwait]
    · simp [Tasks.sleepOn, Tasks.goTo, hidle, hwait]

theorem down_goTo : (s.goTo p).down addr = s.down addr := by
  unfold Tasks.down
  rw [sleepOn_goTo, goTo_goTo]
  refine if_congr Iff.rfl rfl ?_
  exact goTo_goTo (s := { s with sem := s.sem - 1 }) p (.inside none)

theorem Tasks.Guarded.downAgain
    (h : s.Guarded addr stops) (hr : s.Runs) (hp : s.place s.current = .waiting) :
    (s.downAgain addr).Guarded addr stops := by
  have hback := h.sleepBack (w := .at addr) (by rw [hp]; rfl)
  have hout : ¬s.Inside s.current := by
    rintro ⟨o, ho⟩
    rw [hp] at ho
    cases ho
  have hmoved : ((s.setCurrent { s.task s.current with waitpt := none }).goTo
      (.outside none)).Guarded addr stops := by
    refine h.moves (iff_of_false ?_ hout) rfl (fun hno => ?_) fun _ => h.queued _ hr.2
    · rintro ⟨o, ho⟩
      cases ho
    · cases hno
  have hgoes : (s.setCurrent { s.task s.current with waitpt := none }).halted = none :=
    h.halted
  rw [Tasks.downAgain, hback, if_pos hgoes, ← down_goTo (p := .outside none)]
  refine hmoved.down ⟨hr.1, ?_⟩ ?_
  · simpa [Tasks.goTo, Tasks.setCurrent] using hr.2
  · simp [Tasks.goTo, Tasks.setCurrent]

theorem Tasks.Guarded.up (h : s.Guarded addr stops) (hp : s.place s.current = .inside none) :
    (s.up addr).Guarded addr stops := by
  have hmine : s.Inside s.current := ⟨none, hp⟩
  have hneg : s.sem = -1 := h.held.mpr ⟨_, hmine⟩
  have hup : s.up addr = (({ s with sem := 0 } : Tasks n).wakeUp addr true).goTo
      (.outside none) := by
    rw [Tasks.up, hneg]
    rfl
  obtain ⟨hsem, hplace, hcurrent, hhalted⟩ :
      Keeps { s with sem := 0 } (({ s with sem := 0 } : Tasks n).wakeUp addr true) :=
    wakeUp_keeps
  have htask : ∀ t, (({ s with sem := 0 } : Tasks n).wakeUp addr true).task t =
      woken (s.task t) ((s.task t).awaits addr true) := fun t => wakeUp_task
  have hruns : ∀ t, ((({ s with sem := 0 } : Tasks n).wakeUp addr true).task t).state =
      .running → (({ s with sem := 0 } : Tasks n).wakeUp addr true).queued t = true :=
    fun t => wakeUp_runs_queued h.queued
  rw [hup]
  generalize ({ s with sem := 0 } : Tasks n).wakeUp addr true = u
    at hsem hplace hcurrent hhalted htask hruns ⊢
  have hnone : ∀ t, ¬(u.goTo (.outside none)).Inside t := by
    rintro t ⟨o, ho⟩
    by_cases htc : t = s.current
    · simp [Tasks.goTo, htc, hcurrent] at ho
    · simp only [Tasks.goTo, hcurrent, update_of_ne htc, hplace] at ho
      exact htc (h.one t s.current ⟨o, ho⟩ hmine)
  refine ⟨hhalted.trans h.halted, Or.inl hsem, iff_of_false ?_ ?_, fun t _ ht => ?_,
    fun t => ?_, fun t ht => ?_, hruns⟩
  · change u.sem ≠ -1
    rw [hsem]
    change (0 : BitVec 16) ≠ -1
    decide
  · rintro ⟨t, ht⟩
    exact hnone t ht
  · exact absurd ht (hnone t)
  · change (u.task t).waitpt = _
    rw [htask, woken_waitpt, h.pointer]
    by_cases htc : t = s.current
    · simp [Tasks.goTo, htc, hcurrent, hp, Place.queue]
    · simp only [Tasks.goTo, hcurrent, update_of_ne htc, hplace]
  · have htc : t ≠ s.current := by
      rintro rfl
      simp [Tasks.goTo, hcurrent] at ht
    simp only [Tasks.goTo, hcurrent, update_of_ne htc, hplace] at ht
    change (u.task t).state = _ ∨ (u.task t).state = _ ∧ _ ∨ (u.task t).state = _ ∧ _
    rw [htask, woken_state]
    split
    · exact Or.inl rfl
    · rename_i hawait
      rcases h.waits t ht with hrun | ⟨hsleep, _⟩ | hstop
      · exact Or.inl hrun
      · -- it sleeps on the semaphore, so it is meant
        have hptr := h.pointer t
        rw [ht] at hptr
        exact absurd ⟨Or.inl hptr, Or.inr ⟨rfl, hsleep⟩⟩ hawait
      · exact Or.inr (Or.inr hstop)

theorem Tasks.Guarded.mono (h : s.Guarded addr stops) (himp : stops → stops') :
    s.Guarded addr stops' :=
  ⟨h.halted, h.value, h.held, h.one, h.pointer,
    fun t ht => (h.waits t ht).imp_right fun h => h.imp_right fun h => ⟨h.1, himp h.2⟩,
    h.queued⟩

theorem Tasks.Guarded.away (h : s.Guarded addr stops) {p' : Place} (hp : s.place s.current = p)
    (hin : (∃ o, p' = .inside o) ↔ ∃ o, p = .inside o) (hptr : d.waitpt = p'.queue addr)
    (hwait : p' ≠ .waiting) (hqueued : d.state = .running → s.queued s.current = true) :
    ((s.setCurrent d).goTo p').Guarded addr stops := by
  refine h.moves ?_ hptr (fun hno => absurd hno hwait) hqueued
  rw [hin, Tasks.Inside, hp]

theorem Step.guarded (hs : Step addr s e s') (h : s.Guarded addr stops) :
    s'.Guarded addr (stops ∨ e = .quit .stopped) := by
  cases hs with
  | down _ hr hp => exact (h.down hr hp).mono Or.inl
  | downAgain _ hr hp => exact (h.downAgain hr hp).mono Or.inl
  | up _ _ hp => exact (h.up hp).mono Or.inl
  | sleepOutside _ hr hp =>
      rw [h.sleepOn hr (by rw [hp]; rfl)]
      exact (h.away hp (by simp) rfl (by simp) fun _ => h.queued _ hr.2).mono Or.inl
  | sleepInside _ hr hp =>
      rw [h.sleepOn hr (by rw [hp]; rfl)]
      exact (h.away hp (by simp) rfl (by simp) fun _ => h.queued _ hr.2).mono Or.inl
  | backOutside _ hr hp =>
      rw [h.sleepBack (by rw [hp]; rfl)]
      exact (h.away hp (by simp) rfl (by simp) fun _ => h.queued _ hr.2).mono Or.inl
  | backInside _ hr hp =>
      rw [h.sleepBack (by rw [hp]; rfl)]
      exact (h.away hp (by simp) rfl (by simp) fun _ => h.queued _ hr.2).mono Or.inl
  | @quit state _ hr hp =>
      have hmoves : ((s.setCurrent { s.task s.current with state := state }).goTo
          (s.place s.current)).Guarded addr (stops ∨ (.quit state : Event n) = .quit .stopped) := by
        refine (h.mono Or.inl).moves Iff.rfl (h.pointer _) (fun hwait => ?_)
          fun _ => h.queued _ hr.2
        rcases hp with hout | ⟨rfl, _⟩
        · rw [hout] at hwait
          cases hwait
        · exact Or.inr (Or.inr ⟨rfl, Or.inr rfl⟩)
      have hsame : (s.setCurrent { s.task s.current with state := state }).goTo
          (s.place s.current) = s.setCurrent { s.task s.current with state := state } := by
        simp [Tasks.goTo, Tasks.setCurrent]
      rwa [hsame] at hmoves
  | @schedule next =>
      refine ⟨h.halted, h.value, h.held, h.one, h.pointer, fun t ht => ?_, fun t ht => ?_⟩
      · exact (h.waits t ht).imp_right fun h => h.imp_right fun h => ⟨h.1, Or.inl h.2⟩
      · have hqueued := h.queued t ht
        change (if _ then s.queued else update s.queued s.current false) t = true
        split
        · exact hqueued
        · rename_i hleaves
          have htc : t ≠ s.current := by
            rintro rfl
            exact hleaves (Or.inl ht)
          rw [update_of_ne htc]
          exact hqueued
  | wakeUp a it => exact (h.wakeUp a it).mono Or.inl
  | wakeUpProcess c => exact (h.wakeUpProcess c).mono Or.inl
  | @write c d _ hstate hwait =>
      have hkept : ∀ t, (update s.task c d t).waitpt = (s.task t).waitpt ∧
          (update s.task c d t).state = (s.task t).state := by
        intro t
        by_cases htc : t = c
        · subst htc
          rw [update_self]
          exact ⟨hwait, hstate⟩
        · rw [update_of_ne htc]
          exact ⟨rfl, rfl⟩
      refine (h.mono Or.inl).wakes ⟨rfl, rfl, rfl, rfl⟩ (fun t => ?_) fun t ht => ?_
      · exact ⟨(hkept t).1, Or.inl (hkept t).2⟩
      · exact h.queued t ((hkept t).2.symm.trans ht)

theorem Run.guarded (hrun : Run addr s es s') (h : s.Guarded addr stops) :
    s'.Guarded addr (stops ∨ .quit .stopped ∈ es) := by
  induction hrun generalizing stops with
  | done => exact h.mono Or.inl
  | step hs _ ih =>
      refine (ih (hs.guarded h)).mono fun hstops => ?_
      rw [List.mem_cons, eq_comm]
      tauto

theorem Tasks.Fresh.guarded (h : s.Fresh) : s.Guarded addr False where
  halted := h.halted
  value := Or.inl h.sem
  held := by
    refine iff_of_false ?_ ?_
    · rw [h.sem]
      decide
    · rintro ⟨t, o, ho⟩
      rw [h.place] at ho
      cases ho
  one := fun t u ⟨o, ho⟩ => by
    rw [h.place] at ho
    cases ho
  pointer := fun t => by
    rw [h.place]
    rfl
  waits := fun t ht => by
    rw [h.place] at ht
    cases ht
  queued := h.queued

/-- Over any run of any number of tasks nothing panics, at most one task is inside, the
value is -1 exactly while there is one and else 0, and while it is 0 every task that waits
in `down` can run, unless a signal has stopped it since it was woken. -/
theorem semaphore_run (hs : s.Fresh) (hrun : Run addr s es s') :
    s'.halted = none ∧ (∀ t u, s'.Inside t → s'.Inside u → t = u) ∧
    (s'.sem = 0 ∨ s'.sem = -1) ∧ (s'.sem = -1 ↔ ∃ t, s'.Inside t) ∧
    (s'.sem = 0 → ∀ t, s'.place t = .waiting →
      s'.Runnable t ∨ (s'.task t).state = .stopped ∧ .quit .stopped ∈ es) := by
  have h : s'.Guarded addr (False ∨ .quit .stopped ∈ es) := hrun.guarded hs.guarded
  refine ⟨h.halted, h.one, h.value, h.held, fun hzero t ht => ?_⟩
  rcases h.waits t ht with hrun | ⟨_, hneg⟩ | ⟨hstop, hstops⟩
  · exact Or.inl ⟨hrun, h.queued t hrun⟩
  · rw [hzero] at hneg
    exact absurd hneg (by decide)
  · exact Or.inr ⟨hstop, hstops.resolve_left id⟩

/-- Two tasks, and the idle task. -/
def startTasks : Tasks 2 where
  sem := 0
  task := fun _ => Task.zero .running
  place := fun _ => .outside none
  queued := fun _ => true
  current := 1
  halted := none

/-- The first task goes inside and sleeps there, the second waits, and gets in when the
first has called `up`. -/
def turns : List (Event 2) :=
  [.down, .sleep (.at 0x304) .uninterruptible, .schedule 2, .down, .wakeUp 0x304 true,
    .schedule 1, .back (.at 0x304), .up, .schedule 2, .downAgain]

theorem semaphore_run_turns :
    ∃ s' : Tasks 2, s'.Inside 2 ∧ Run 0x300 startTasks turns s' ∧
      s'.halted = none ∧ (∀ t u, s'.Inside t → s'.Inside u → t = u) ∧
      (s'.sem = 0 ∨ s'.sem = -1) ∧ (s'.sem = -1 ↔ ∃ t, s'.Inside t) ∧
      (s'.sem = 0 → ∀ t, s'.place t = .waiting →
        s'.Runnable t ∨ (s'.task t).state = .stopped ∧ .quit .stopped ∈ turns) := by
  have hstart : startTasks.Fresh := ⟨rfl, fun _ => rfl, fun _ _ => rfl, rfl⟩
  have hrun : ∃ s', Run 0x300 startTasks turns s' ∧ s'.Inside 2 := by
    refine ⟨_, .step (.down rfl ⟨by decide, rfl⟩ rfl) <|
      .step (.sleepInside rfl ⟨by decide, rfl⟩ rfl) <|
      .step (.schedule rfl (by decide) (by decide)) <|
      .step (.down rfl ⟨by decide, rfl⟩ rfl) <|
      .step (.wakeUp _ _ rfl) <|
      .step (.schedule rfl (by decide) (by decide)) <|
      .step (.backInside rfl ⟨by decide, by decide⟩ (by decide)) <|
      .step (.up rfl ⟨by decide, by decide⟩ (by decide)) <|
      .step (.schedule (by decide) (by decide) (by decide)) <|
      .step (.downAgain (by decide) ⟨by decide, by decide⟩ (by decide)) (.done _), ?_⟩
    exact ⟨none, by decide⟩
  obtain ⟨s', hrun, hinside⟩ := hrun
  exact ⟨s', hinside, hrun, semaphore_run hstart hrun⟩

end Runs

end Semaphore
end Elks
