import Elks.Lib.Machine

/-!
# Tasks, the run queue, timers and signals

The scheduler (sched.c), sleeping and waking (sleepwake.c, and the waits of
buffer.c, inode.c, super.c and select.c that set `waitpt` themselves), signals
(both signal.c), `do_fork` and `do_exit`.

**Where a task is.**  A task keeps the processor until it calls `schedule`, and
interrupts may come between any two of its actions.  So the kernel code of a
task is cut into actions, and its kernel stack is a list of frames: the first
says which action comes next, the others where the calls return to.  The code
of system calls themselves is left open: with an empty stack, and in the parts
of `do_exit` that close files and release inodes, the current task may do any
`Op`.

**Interrupts.**  A clock tick, a round of the loop of `_wake_up`, a signal, and
the end of a transfer, which clears a lock, may come at any moment.  The current
task does the same things from its own code.

**The end.**  A panic, a null pointer that is followed, and a timer whose memory
is overwritten stop the machine; `halted` says why.
-/

namespace Elks
namespace Sched

open Lib
open Function (update update_of_ne update_self)

/-- `MAX_TASKS`. -/
def maxTasks : Nat :=
  15

/-- `NSIG`. -/
def nsig : Nat :=
  16

instance : NeZero maxTasks := ⟨by decide⟩
instance : NeZero nsig := ⟨by decide⟩

/-- A pointer into `task`.  The idle task is `task[0]`. -/
abbrev TaskRef :=
  Fin maxTasks

/-- The states of a task. -/
inductive TaskState
  | running
  | interruptible
  | uninterruptible
  | stopped
  | unused
  | exiting
deriving DecidableEq, Repr

/-- A wait queue: `select_poll`, or the one at an address. -/
inductive Wait
  | selectPoll
  | at (addr : Nat)
deriving DecidableEq, Repr

/-- `sa_handler`. -/
inductive Handler
  | dfl
  | ign
  | user (addr : Nat)
deriving DecidableEq, Repr

/-- Which action of the kernel code comes next. -/
inductive Frame
  /- `__sleep_on`: `wait_set`, the call of `schedule`, `wait_clear`. -/
  | sleepSet (addr : Nat)
  | sleepCall (addr : Nat)
  | sleepBack (addr : Nat)
  /- `wait_on_buffer`, `wait_on_inode`, `wait_on_super`, once the lock is seen. -/
  | waitSet (addr : Nat)
  | waitRepeat (addr : Nat)
  | waitTest (addr : Nat)
  | waitClear (addr : Nat)
  | waitDone
  /- `do_select`. -/
  | selectRepeat
  | selectSet
  | selectPoll
  | selectBack
  | selectEnd
  | selectClear
  | selectDone
  /- `schedule`, with its `next` and its `timeout`. -/
  | entry
  | timers (next : TaskRef)
  | fire (next p : TaskRef)
  | dequeue (next : TaskRef)
  | choose (next : TaskRef) (timeout : Nat)
  | arm (next : TaskRef) (timeout : Nat)
  | switch (next : TaskRef) (timeout : Nat)
  | switched (timeout : Nat)
  | signalled (timeout : Nat)
  | disarm (timeout : Nat)
  /- `sig_check` behind `do_signal`, and the loop of `do_signal`. -/
  | checked
  | signal
  /- `do_exit`: files, inodes, the last actions, and behind `schedule`. -/
  | closing
  | freeing
  | dead
  | exited
  /- `do_fork` at `wake_up_process`. -/
  | forkWake (n : TaskRef)
deriving DecidableEq, Repr

/-- The queue that `wait_set` is called with. -/
def Frame.sets : Frame → Option Wait
  | .sleepSet addr => some (.at addr)
  | .waitSet addr => some (.at addr)
  | .selectSet => some .selectPoll
  | _ => none

/-- The queue that `wait_clear` is called with. -/
def Frame.clears : Frame → Option Wait
  | .sleepBack addr => some (.at addr)
  | .waitClear addr => some (.at addr)
  | .selectBack => some .selectPoll
  | .selectClear => some .selectPoll
  | _ => none

/-- `struct task_struct`, without the links of the run queue and the stack. -/
structure Task where
  state : TaskState
  timeout : Nat
  waitpt : Option Wait
  pollhash : Nat
  pid : Nat
  signal : BitVec nsig
  action : Fin nsig → Handler

/-- What `memset` leaves, in the given state. -/
def Task.zero (state : TaskState) : Task where
  state := state
  timeout := 0
  waitpt := none
  pollhash := 0
  pid := 0
  signal := 0
  action := fun _ => .dfl

/-- `struct timer_list`.  It lies in the kernel stack of task `slot`, in the frame
with `depth` frames under it. -/
structure Timer where
  slot : TaskRef
  depth : Nat
  expires : Nat
  data : TaskRef
deriving DecidableEq, Repr

/-- Why the machine stopped. -/
inductive Halt
  | doubleWait
  | wrongWaitpt
  | idleSleeps
  | returnedFromExit
  | nullPointer
  | timerOverwritten
deriving DecidableEq, Repr

/-- The kernel, as far as scheduling goes. -/
structure State where
  task : TaskRef → Task
  stack : TaskRef → List Frame
  nextRun : TaskRef → Option TaskRef
  prevRun : TaskRef → Option TaskRef
  nrRunning : Nat
  current : TaskRef
  jiffies : Nat
  tlList : List Timer
  locked : Nat → Bool
  halted : Option Halt

/-- What the code of a system call may do next; `next` is the only thing to do
where the code leaves no choice. -/
inductive Op
  | next
  /-- `sleep_on`, `interruptible_sleep_on`. -/
  | sleep (addr : Nat) (interruptible : Bool)
  /-- `wait_on_buffer`, `wait_on_inode`, `wait_on_super`. -/
  | wait (addr : Nat)
  /-- `schedule`. -/
  | yield
  | select
  | sigCheck
  | setTimeout (timeout : Nat)
  /-- `sys_signal`. -/
  | setAction (sig : Fin nsig) (handler : Handler)
  | fork (root memory : Bool) (pid : Nat)
  | exit
  /-- A file of `do_select` is asked and put into the hash. -/
  | poll (hash : Nat)
  /-- All files of `do_select` have been asked. -/
  | polled (ready : Bool)
deriving DecidableEq, Repr

/-- What happens next in the machine. -/
inductive Act
  | tick
  | wakeRound (addr : Nat) (it : Bool) (p : TaskRef)
  | sendSig (sig : Fin nsig) (p : TaskRef)
  | setLock (addr : Nat) (value : Bool)
  | run (op : Op)
deriving DecidableEq, Repr

section Queue

variable (s : State)

def State.halt (h : Halt) : State :=
  { s with halted := some h }

def State.modTask (t : TaskRef) (g : Task → Task) : State :=
  { s with task := update s.task t (g (s.task t)) }

/-- The rest of the code of the current task. -/
def State.setStack (l : List Frame) : State :=
  { s with stack := update s.stack s.current l }

def State.setNext (t : TaskRef) (o : Option TaskRef) : State :=
  { s with nextRun := update s.nextRun t o }

def State.setPrev (t : TaskRef) (o : Option TaskRef) : State :=
  { s with prevRun := update s.prevRun t o }

/-- `add_to_runqueue`. -/
def State.addToRunqueue (p : TaskRef) : State :=
  match s.prevRun 0 with
  | none => s.halt .nullPointer
  | some z =>
      let s := { s with nrRunning := wrap 8 (s.nrRunning + 1) }
      (((s.setPrev p (some z)).setNext z (some p)).setNext p (some 0)).setPrev 0 (some p)

/-- `del_from_runqueue`. -/
def State.delFromRunqueue (p : TaskRef) : State :=
  if p = 0 then
    s
  else
    match s.nextRun p, s.prevRun p with
    | some g, some z =>
        let s := { s with nrRunning := wrapSub 8 s.nrRunning 1 }
        (((s.setPrev g (some z)).setNext z (some g)).setNext p none).setPrev p none
    | _, _ => s.halt .nullPointer

/-- `wake_up_process`. -/
def State.wakeUpProcess (p : TaskRef) : State :=
  let s := s.modTask p fun d => { d with state := .running }
  if s.nextRun p = none then s.addToRunqueue p else s

/-- Whether `_wake_up` means a task that is in its loop. -/
def Task.awaits (d : Task) (addr : Nat) (it : Bool) : Prop :=
  (d.waitpt = some (.at addr) ∨
    d.waitpt = some .selectPoll ∧ d.pollhash.testBit (addr >>> 8 &&& 15) = true) ∧
  (d.state = .interruptible ∨ it = true ∧ d.state = .uninterruptible)

instance {d : Task} {addr : Nat} {it : Bool} : Decidable (d.awaits addr it) :=
  inferInstanceAs (Decidable (_ ∧ _))

/-- One round of the loop of `_wake_up`. -/
def State.wakeRound (addr : Nat) (it : Bool) (p : TaskRef) : State :=
  if (s.task p).awaits addr it then s.wakeUpProcess p else s

/-- `_wake_up`. -/
def State.wakeUp (addr : Nat) (it : Bool) : State :=
  (List.finRange maxTasks).foldl (fun s p => s.wakeRound addr it p) s

end Queue

section Wake

variable (s : State) (p : TaskRef)

@[simp] theorem setStack_self (l : List Frame) :
    (s.setStack l).stack s.current = l :=
  update_self _ _ _

theorem setStack_other {t : TaskRef} (l : List Frame) (ht : t ≠ s.current) :
    (s.setStack l).stack t = s.stack t :=
  update_of_ne ht _ _

@[simp] theorem setStack_task (l : List Frame) :
    (s.setStack l).task = s.task :=
  rfl

@[simp] theorem setStack_current (l : List Frame) :
    (s.setStack l).current = s.current :=
  rfl

@[simp] theorem setStack_tlList (l : List Frame) :
    (s.setStack l).tlList = s.tlList :=
  rfl

theorem addToRunqueue_eq :
    s.addToRunqueue p =
      { s with
        nextRun := (s.addToRunqueue p).nextRun
        prevRun := (s.addToRunqueue p).prevRun
        nrRunning := (s.addToRunqueue p).nrRunning
        halted := (s.addToRunqueue p).halted } := by
  unfold State.addToRunqueue
  cases s.prevRun 0 with
  | none => rfl
  | some z => rfl

theorem wakeUpProcess_eq :
    s.wakeUpProcess p =
      { s with
        task := update s.task p { s.task p with state := .running }
        nextRun := (s.wakeUpProcess p).nextRun
        prevRun := (s.wakeUpProcess p).prevRun
        nrRunning := (s.wakeUpProcess p).nrRunning
        halted := (s.wakeUpProcess p).halted } := by
  unfold State.wakeUpProcess
  dsimp only
  split
  · rw [addToRunqueue_eq]
    rfl
  · rfl

@[simp] theorem wakeUpProcess_task :
    (s.wakeUpProcess p).task =
      update s.task p { s.task p with state := .running } := by
  rw [wakeUpProcess_eq]

@[simp] theorem wakeUpProcess_stack : (s.wakeUpProcess p).stack = s.stack := by
  rw [wakeUpProcess_eq]

@[simp] theorem wakeUpProcess_current : (s.wakeUpProcess p).current = s.current := by
  rw [wakeUpProcess_eq]

@[simp] theorem wakeUpProcess_tlList : (s.wakeUpProcess p).tlList = s.tlList := by
  rw [wakeUpProcess_eq]

theorem delFromRunqueue_eq :
    s.delFromRunqueue p =
      { s with
        nextRun := (s.delFromRunqueue p).nextRun
        prevRun := (s.delFromRunqueue p).prevRun
        nrRunning := (s.delFromRunqueue p).nrRunning
        halted := (s.delFromRunqueue p).halted } := by
  unfold State.delFromRunqueue
  split
  · rfl
  · split
    · rfl
    · rfl

@[simp] theorem delFromRunqueue_task : (s.delFromRunqueue p).task = s.task := by
  rw [delFromRunqueue_eq]

@[simp] theorem delFromRunqueue_stack : (s.delFromRunqueue p).stack = s.stack := by
  rw [delFromRunqueue_eq]

@[simp] theorem delFromRunqueue_current : (s.delFromRunqueue p).current = s.current := by
  rw [delFromRunqueue_eq]

@[simp] theorem delFromRunqueue_tlList : (s.delFromRunqueue p).tlList = s.tlList := by
  rw [delFromRunqueue_eq]

end Wake

section Signals

/-- The signal numbers that have a part of their own, less one. -/
def sigwinch : Fin nsig := 3
def sigstop : Fin nsig := 4
def sigtstp : Fin nsig := 6
def sigcont : Fin nsig := 7
def sigkill : Fin nsig := 8
def sigchld : Fin nsig := 11

/-- `((sigset_t) 1) << (sig - 1)`. -/
def mask (sig : Fin nsig) : BitVec nsig :=
  BitVec.ofNat nsig 1 <<< sig.val

/-- Whether `generate` drops a signal. -/
def Task.drops (d : Task) (sig : Fin nsig) : Prop :=
  d.action sig = .ign ∨
    d.action sig = .dfl ∧ (sig = sigcont ∨ sig = sigchld ∨ sig = sigwinch)

instance {d : Task} {sig : Fin nsig} : Decidable (d.drops sig) :=
  inferInstanceAs (Decidable (_ ∨ _))

/-- `generate`. -/
def State.generate (s : State) (sig : Fin nsig) (p : TaskRef) : State :=
  if (s.task p).drops sig then
    s
  else
    let s := s.modTask p fun d => { d with signal := d.signal ||| mask sig }
    if (s.task p).state = .interruptible then s.wakeUpProcess p else s

/-- `send_sig` with the right to send. -/
def State.sendSig (s : State) (sig : Fin nsig) (p : TaskRef) : State :=
  let s :=
    if sig = sigkill ∨ sig = sigcont then
      let s := if (s.task p).state = .stopped then s.wakeUpProcess p else s
      s.modTask p fun d =>
        { d with signal := d.signal &&& ~~~(mask sigstop ||| mask sigtstp) }
    else
      s
  let s :=
    if sig = sigstop ∨ sig = sigtstp then
      s.modTask p fun d => { d with signal := d.signal &&& ~~~mask sigcont }
    else
      s
  s.generate sig p

/-- `find_first_non_zero_bit(&signal, NSIG)`. -/
def Task.firstSignal (d : Task) : Option (Fin nsig) :=
  (List.finRange nsig).find? fun i => d.signal.getLsbD i.val

end Signals

section Turn

variable {halt : Halt} {f : Frame}

/-- What the current task does to itself: its new fields and the rest of its
code, or the end of the machine. -/
inductive Turn
  | goes (d : Task) (stack : List Frame)
  | halts (h : Halt)

/-- `wait_set`. -/
def Task.waitSet (d : Task) (q : Wait) (stack : List Frame) : Turn :=
  if d.waitpt = none then
    .goes { d with waitpt := some q } stack
  else
    .halts .doubleWait

/-- `wait_clear`. -/
def Task.waitClear (d : Task) (q : Wait) (stack : List Frame) : Turn :=
  if d.waitpt = some q then
    .goes { d with waitpt := none } stack
  else
    .halts .wrongWaitpt

/-- What the code of a system call and `do_exit` have in common. -/
def Task.work (d : Task) (idle : Bool) (locked : Nat → Bool) (stack : List Frame) :
    Op → Option Turn
  | .sleep addr interruptible =>
      if idle then
        some (.halts .idleSleeps)
      else
        some (.goes
          { d with state := if interruptible then .interruptible else .uninterruptible }
          (.sleepSet addr :: stack))
  | .wait addr =>
      if locked addr then some (.goes d (.waitSet addr :: stack)) else some (.goes d stack)
  | .yield => some (.goes d (.entry :: stack))
  | _ => none

/-- The code of a system call.  The idle task has none but its loop. -/
def Task.call (d : Task) (idle : Bool) (locked : Nat → Bool) : Op → Option Turn
  | .yield => some (.goes d [.entry])
  | op =>
      if idle then
        none
      else
        match op with
        | .select => some (.goes d [.selectRepeat])
        | .sigCheck =>
            if d.signal ≠ 0 then
              some (.goes d [.signal, .checked])
            else
              some (.goes { d with signal := 0 } [])
        | .setTimeout timeout => some (.goes { d with timeout := timeout } [])
        | .setAction sig handler =>
            if sig = sigkill ∨ sig = sigstop then
              some (.goes d [])
            else
              some (.goes { d with action := update d.action sig handler } [])
        | .exit => some (.goes d [.closing])
        | op => d.work idle locked [] op

/-- One round of the loop of `do_signal`. -/
def Task.doSignal (d : Task) (rest : List Frame) : Turn :=
  match d.firstSignal with
  | none => .goes d rest
  | some sig =>
      match d.action sig with
      | .ign => .goes d (.signal :: rest)
      | .dfl =>
          if d.pid = 1 ∨ sig = sigchld ∨ sig = sigcont ∨ sig = sigwinch then
            .goes d (.signal :: rest)
          else if sig = sigstop ∨ sig = sigtstp then
            .goes { d with state := .stopped } (.entry :: .signal :: rest)
          else
            .goes d (.closing :: .signal :: rest)
      | .user _ =>
          .goes { d with action := update d.action sig .dfl } rest

/-- The actions of the current task that touch nothing but the task. -/
def Task.turn (d : Task) (idle : Bool) (locked : Nat → Bool) (op : Op) :
    Frame → List Frame → Option Turn
  | .sleepSet addr, rest => some (d.waitSet (.at addr) (.sleepCall addr :: rest))
  | .sleepCall addr, rest => some (.goes d (.entry :: .sleepBack addr :: rest))
  | .sleepBack addr, rest => some (d.waitClear (.at addr) rest)
  | .waitSet addr, rest => some (d.waitSet (.at addr) (.waitRepeat addr :: rest))
  | .waitRepeat addr, rest =>
      some (.goes { d with state := .uninterruptible } (.waitTest addr :: rest))
  | .waitTest addr, rest =>
      if locked addr then
        some (.goes d (.entry :: .waitRepeat addr :: rest))
      else
        some (.goes d (.waitClear addr :: rest))
  | .waitClear addr, rest => some (d.waitClear (.at addr) (.waitDone :: rest))
  | .waitDone, rest => some (.goes { d with state := .running } rest)
  | .selectRepeat, rest =>
      some (.goes { d with state := .interruptible, pollhash := 0 } (.selectSet :: rest))
  | .selectSet, rest => some (d.waitSet .selectPoll (.selectPoll :: rest))
  | .selectPoll, rest =>
      match op with
      | .poll hash => some (.goes { d with pollhash := d.pollhash ||| hash }
          (.selectPoll :: rest))
      | .polled ready =>
          if ¬ready ∧ d.timeout ≠ 0 ∧ d.signal = 0 then
            some (.goes d (.entry :: .selectBack :: rest))
          else
            some (.goes d (.selectEnd :: rest))
      | _ => none
  | .selectBack, rest => some (d.waitClear .selectPoll (.selectRepeat :: rest))
  | .selectEnd, rest => some (.goes { d with pollhash := 0 } (.selectClear :: rest))
  | .selectClear, rest => some (d.waitClear .selectPoll (.selectDone :: rest))
  | .selectDone, rest => some (.goes { d with state := .running } rest)
  | .switched timeout, rest =>
      if d.signal ≠ 0 then
        some (.goes d (.signal :: .signalled timeout :: rest))
      else
        some (.goes d (.disarm timeout :: rest))
  | .signalled timeout, rest =>
      some (.goes { d with signal := 0 } (.disarm timeout :: rest))
  | .checked, rest => some (.goes { d with signal := 0 } rest)
  | .signal, rest => some (d.doSignal rest)
  | .closing, rest =>
      match op with
      | .next => some (.goes { d with state := .exiting } (.freeing :: rest))
      | op => d.work idle locked (.closing :: rest) op
  | .freeing, rest =>
      match op with
      | .next => some (.goes { d with state := .unused } (.dead :: rest))
      | op => d.work idle locked (.freeing :: rest) op
  | .dead, rest => some (.goes d (.entry :: .exited :: rest))
  | .exited, _ => some (.halts .returnedFromExit)
  | _, _ => none

/-- The current task takes its turn. -/
def State.takes (s : State) : Turn → State
  | .goes d stack => (s.modTask s.current fun _ => d).setStack stack
  | .halts h => s.halt h

variable {d d' : Task} {q : Wait} {idle : Bool} {locked : Nat → Bool} {op : Op}
  {st st' rest : List Frame}

theorem waitSet_goes (h : d.waitSet q st = .goes d' st') :
    d.waitpt = none ∧ d' = { d with waitpt := some q } ∧ st' = st := by
  unfold Task.waitSet at h
  split at h
  · rename_i hnone
    obtain ⟨rfl, rfl⟩ := Turn.goes.inj h
    exact ⟨hnone, rfl, rfl⟩
  · cases h

theorem waitClear_goes (h : d.waitClear q st = .goes d' st') :
    d.waitpt = some q ∧ d' = { d with waitpt := none } ∧ st' = st := by
  unfold Task.waitClear at h
  split at h
  · rename_i hsome
    obtain ⟨rfl, rfl⟩ := Turn.goes.inj h
    exact ⟨hsome, rfl, rfl⟩
  · cases h

theorem work_goes (h : d.work idle locked st op = some (.goes d' st')) :
    (∃ addr state, (∃ i, op = .sleep addr i) ∧ state ≠ .unused ∧
      d' = { d with state := state } ∧ st' = .sleepSet addr :: st) ∨
    (∃ addr, op = .wait addr ∧ locked addr = true ∧ d' = d ∧
      st' = .waitSet addr :: st) ∨
    d' = d ∧ (st' = st ∨ st' = .entry :: st) := by
  cases op with
  | sleep addr i =>
      simp only [Task.work] at h
      split at h
      · cases h
      · obtain ⟨rfl, rfl⟩ := Turn.goes.inj (Option.some.inj h)
        refine Or.inl ⟨addr, _, ⟨i, rfl⟩, ?_, rfl, rfl⟩
        cases i <;> simp
  | wait addr =>
      simp only [Task.work] at h
      split at h
      · rename_i hlocked
        obtain ⟨rfl, rfl⟩ := Turn.goes.inj (Option.some.inj h)
        exact Or.inr (Or.inl ⟨addr, rfl, hlocked, rfl, rfl⟩)
      · obtain ⟨rfl, rfl⟩ := Turn.goes.inj (Option.some.inj h)
        exact Or.inr (Or.inr ⟨rfl, Or.inl rfl⟩)
  | yield =>
      obtain ⟨rfl, rfl⟩ := Turn.goes.inj (Option.some.inj h)
      exact Or.inr (Or.inr ⟨rfl, Or.inr rfl⟩)
  | _ => cases h

/-- `do_exit` as it closes files or releases inodes does what a system call does,
until it has done. -/
theorem turn_exit (hf : f = .closing ∨ f = .freeing) (hop : op ≠ .next) :
    d.turn idle locked op f rest = d.work idle locked (f :: rest) op := by
  rcases hf with rfl | rfl
  · cases op with
    | next => exact absurd rfl hop
    | _ => rfl
  · cases op with
    | next => exact absurd rfl hop
    | _ => rfl

theorem doSignal_goes (h : d.doSignal rest = .goes d' st') :
    d'.waitpt = d.waitpt ∧
      (d'.state = d.state ∧
        (st' = rest ∨ st' = .signal :: rest ∨ st' = .closing :: .signal :: rest) ∨
      d'.state = .stopped ∧ st' = .entry :: .signal :: rest) := by
  unfold Task.doSignal at h
  split at h
  · obtain ⟨rfl, rfl⟩ := Turn.goes.inj h
    exact ⟨rfl, Or.inl ⟨rfl, Or.inl rfl⟩⟩
  · split at h
    · obtain ⟨rfl, rfl⟩ := Turn.goes.inj h
      exact ⟨rfl, Or.inl ⟨rfl, Or.inr (Or.inl rfl)⟩⟩
    · split at h
      · obtain ⟨rfl, rfl⟩ := Turn.goes.inj h
        exact ⟨rfl, Or.inl ⟨rfl, Or.inr (Or.inl rfl)⟩⟩
      · split at h
        · obtain ⟨rfl, rfl⟩ := Turn.goes.inj h
          exact ⟨rfl, Or.inr ⟨rfl, rfl⟩⟩
        · obtain ⟨rfl, rfl⟩ := Turn.goes.inj h
          exact ⟨rfl, Or.inl ⟨rfl, Or.inr (Or.inr rfl)⟩⟩
    · obtain ⟨rfl, rfl⟩ := Turn.goes.inj h
      exact ⟨rfl, Or.inl ⟨rfl, Or.inl rfl⟩⟩

theorem call_goes (h : d.call idle locked op = some (.goes d' st')) :
    d.work idle locked [] op = some (.goes d' st') ∨
    d'.waitpt = d.waitpt ∧ d'.state = d.state ∧ idle = false ∧
      (st' = [] ∨ st' = [.selectRepeat] ∨ st' = [.signal, .checked] ∨ st' = [.closing]) := by
  cases idle with
  | true =>
      cases op with
      | yield => exact Or.inl h
      | _ => cases h
  | false =>
      cases op with
      | yield | sleep _ _ | wait _ => exact Or.inl h
      | select =>
          obtain ⟨rfl, rfl⟩ := Turn.goes.inj (Option.some.inj h)
          exact Or.inr ⟨rfl, rfl, rfl, Or.inr (Or.inl rfl)⟩
      | sigCheck =>
          simp only [Task.call, Bool.false_eq_true, if_false] at h
          split at h
          · obtain ⟨rfl, rfl⟩ := Turn.goes.inj (Option.some.inj h)
            exact Or.inr ⟨rfl, rfl, rfl, Or.inr (Or.inr (Or.inl rfl))⟩
          · obtain ⟨rfl, rfl⟩ := Turn.goes.inj (Option.some.inj h)
            exact Or.inr ⟨rfl, rfl, rfl, Or.inl rfl⟩
      | setTimeout timeout =>
          obtain ⟨rfl, rfl⟩ := Turn.goes.inj (Option.some.inj h)
          exact Or.inr ⟨rfl, rfl, rfl, Or.inl rfl⟩
      | setAction sig handler =>
          simp only [Task.call, Bool.false_eq_true, if_false] at h
          split at h
          · obtain ⟨rfl, rfl⟩ := Turn.goes.inj (Option.some.inj h)
            exact Or.inr ⟨rfl, rfl, rfl, Or.inl rfl⟩
          · obtain ⟨rfl, rfl⟩ := Turn.goes.inj (Option.some.inj h)
            exact Or.inr ⟨rfl, rfl, rfl, Or.inl rfl⟩
      | exit =>
          obtain ⟨rfl, rfl⟩ := Turn.goes.inj (Option.some.inj h)
          exact Or.inr ⟨rfl, rfl, rfl, Or.inr (Or.inr (Or.inr rfl))⟩
      | _ => cases h

/-- The frames that may take the place of a frame, where that does not depend on the
system call. -/
def Frame.onward : Frame → List (List Frame)
  | .sleepSet addr => [[.sleepCall addr]]
  | .sleepCall addr => [[.entry, .sleepBack addr]]
  | .waitSet addr => [[.waitRepeat addr]]
  | .waitRepeat addr => [[.waitTest addr]]
  | .waitTest addr => [[.entry, .waitRepeat addr], [.waitClear addr]]
  | .waitClear _ => [[.waitDone]]
  | .selectRepeat => [[.selectSet]]
  | .selectSet => [[.selectPoll]]
  | .selectPoll => [[.selectPoll], [.entry, .selectBack], [.selectEnd]]
  | .selectBack => [[.selectRepeat]]
  | .selectEnd => [[.selectClear]]
  | .selectClear => [[.selectDone]]
  | .sleepBack _ | .waitDone | .selectDone | .checked => [[]]
  | .switched timeout => [[.signal, .signalled timeout], [.disarm timeout]]
  | .signalled timeout => [[.disarm timeout]]
  | .signal => [[], [.signal], [.closing, .signal], [.entry, .signal]]
  | .closing => [[.freeing]]
  | .freeing => [[.dead]]
  | .dead => [[.entry, .exited]]
  | _ => []

/-- What a turn does to the task: it calls `wait_set`, `wait_clear` or neither. -/
inductive Stepped (d : Task) (op : Op) (f : Frame) (d' : Task) : Prop
  | set (q : Wait) (hf : f.sets = some q) (hnone : d.waitpt = none)
      (hd : d' = { d with waitpt := some q })
  | clear (q : Wait) (hf : f.clears = some q) (hsome : d.waitpt = some q)
      (hd : d' = { d with waitpt := none })
  | keep (hset : f.sets = none) (hclear : f.clears = none) (hwaitpt : d'.waitpt = d.waitpt)
      (hstate : d'.state = .unused → d.state = .unused ∨ f = .freeing ∧ op = .next)

theorem Stepped.state (h : Stepped d op f d') (hunused : d'.state = .unused) :
    d.state = .unused ∨ f = .freeing ∧ op = .next := by
  cases h with
  | set q _ _ hd => exact Or.inl (by rwa [hd] at hunused)
  | clear q _ _ hd => exact Or.inl (by rwa [hd] at hunused)
  | keep _ _ _ hstate => exact hstate hunused

/-- What the current task can do that touches nothing but the task. -/
theorem turn_goes (h : d.turn idle locked op f rest = some (.goes d' st)) :
    (f = .closing ∨ f = .freeing) ∧ d.work idle locked (f :: rest) op = some (.goes d' st) ∨
    Stepped d op f d' ∧ ∃ m ∈ f.onward, st = m ++ rest := by
  cases f with
  | sleepSet _ | waitSet _ | selectSet =>
      obtain ⟨hnone, hd, rfl⟩ := waitSet_goes (Option.some.inj h)
      exact Or.inr ⟨.set _ rfl hnone hd, _, List.mem_cons_self, rfl⟩
  | sleepBack _ | waitClear _ | selectBack | selectClear =>
      obtain ⟨hsome, hd, rfl⟩ := waitClear_goes (Option.some.inj h)
      exact Or.inr ⟨.clear _ rfl hsome hd, _, List.mem_cons_self, rfl⟩
  | sleepCall _ | waitRepeat _ | waitDone | selectRepeat | selectEnd | selectDone
  | signalled _ | checked | dead =>
      obtain ⟨rfl, rfl⟩ := Turn.goes.inj (Option.some.inj h)
      exact Or.inr ⟨.keep rfl rfl rfl (by simp), _, List.mem_cons_self, rfl⟩
  | waitTest _ | switched _ =>
      simp only [Task.turn] at h
      split at h
      · obtain ⟨rfl, rfl⟩ := Turn.goes.inj (Option.some.inj h)
        exact Or.inr ⟨.keep rfl rfl rfl Or.inl, [_, _], by simp [Frame.onward], rfl⟩
      · obtain ⟨rfl, rfl⟩ := Turn.goes.inj (Option.some.inj h)
        exact Or.inr ⟨.keep rfl rfl rfl Or.inl, [_], by simp [Frame.onward], rfl⟩
  | selectPoll =>
      cases op with
      | poll hash =>
          obtain ⟨rfl, rfl⟩ := Turn.goes.inj (Option.some.inj h)
          exact Or.inr ⟨.keep rfl rfl rfl Or.inl, _, List.mem_cons_self, rfl⟩
      | polled ready =>
          simp only [Task.turn] at h
          split at h
          · obtain ⟨rfl, rfl⟩ := Turn.goes.inj (Option.some.inj h)
            exact Or.inr ⟨.keep rfl rfl rfl Or.inl, [_, _], by simp [Frame.onward], rfl⟩
          · obtain ⟨rfl, rfl⟩ := Turn.goes.inj (Option.some.inj h)
            exact Or.inr ⟨.keep rfl rfl rfl Or.inl, [_], by simp [Frame.onward], rfl⟩
      | _ => cases h
  | signal =>
      obtain ⟨hwaitpt, hgoes⟩ := doSignal_goes (Option.some.inj h)
      refine Or.inr ⟨.keep rfl rfl hwaitpt ?_, ?_⟩
      · rcases hgoes with ⟨hstate, _⟩ | ⟨hstate, _⟩
        · exact fun hu => Or.inl (hstate ▸ hu)
        · simp [hstate]
      · rcases hgoes with ⟨_, rfl | rfl | rfl⟩ | ⟨_, rfl⟩
        · exact ⟨[], by simp [Frame.onward], rfl⟩
        · exact ⟨[_], by simp [Frame.onward], rfl⟩
        · exact ⟨[_, _], by simp [Frame.onward], rfl⟩
        · exact ⟨[_, _], by simp [Frame.onward], rfl⟩
  | closing | freeing =>
      by_cases hop : op = .next
      · subst hop
        obtain ⟨rfl, rfl⟩ := Turn.goes.inj (Option.some.inj h)
        exact Or.inr ⟨.keep rfl rfl rfl (by simp), _, List.mem_cons_self, rfl⟩
      · rw [turn_exit (by simp) hop] at h
        exact Or.inl ⟨by simp, h⟩
  | exited => cases Option.some.inj h
  | _ => cases h

theorem waitSet_halts (h : d.waitSet q st = .halts halt) :
    halt = .doubleWait ∧ d.waitpt ≠ none := by
  unfold Task.waitSet at h
  split at h
  · cases h
  · rename_i hsome
    exact ⟨(Turn.halts.inj h).symm, hsome⟩

theorem waitClear_halts (h : d.waitClear q st = .halts halt) :
    halt = .wrongWaitpt ∧ d.waitpt ≠ some q := by
  unfold Task.waitClear at h
  split at h
  · cases h
  · rename_i hne
    exact ⟨(Turn.halts.inj h).symm, hne⟩

theorem work_halts (h : d.work idle locked st op = some (.halts halt)) : halt = .idleSleeps := by
  cases op with
  | sleep addr i =>
      simp only [Task.work] at h
      split at h
      · exact (Turn.halts.inj (Option.some.inj h)).symm
      · cases h
  | wait addr =>
      simp only [Task.work] at h
      split at h
      · cases h
      · cases h
  | _ => cases h

theorem call_halts (h : d.call idle locked op = some (.halts halt)) : halt = .idleSleeps := by
  cases idle with
  | true => cases op <;> cases h
  | false =>
      cases op with
      | sleep addr i =>
          have hwork : d.work false locked [] (.sleep addr i) = some (.halts halt) := h
          exact work_halts hwork
      | wait addr =>
          have hwork : d.work false locked [] (.wait addr) = some (.halts halt) := h
          exact work_halts hwork
      | sigCheck | setAction _ _ =>
          simp only [Task.call, Bool.false_eq_true, if_false] at h
          split at h
          · cases h
          · cases h
      | _ => cases h

theorem doSignal_halts : d.doSignal rest ≠ .halts halt := by
  intro h
  unfold Task.doSignal at h
  split at h
  · cases h
  · split at h
    · cases h
    · split at h
      · cases h
      · split at h
        · cases h
        · cases h
    · cases h

theorem turn_halts (h : d.turn idle locked op f rest = some (.halts halt)) :
    halt = .doubleWait ∧ f.sets ≠ none ∧ d.waitpt ≠ none ∨
    halt = .wrongWaitpt ∧ f.clears ≠ none ∧ d.waitpt ≠ f.clears ∨
    halt = .idleSleeps ∨ halt = .returnedFromExit := by
  have hset : ∀ {q st}, some (d.waitSet q st) = some (.halts halt) → f.sets ≠ none →
      halt = .doubleWait ∧ f.sets ≠ none ∧ d.waitpt ≠ none := by
    intro q st h hf
    obtain ⟨rfl, hwait⟩ := waitSet_halts (Option.some.inj h)
    exact ⟨rfl, hf, hwait⟩
  have hclear : ∀ {q st}, some (d.waitClear q st) = some (.halts halt) → f.clears = some q →
      halt = .wrongWaitpt ∧ f.clears ≠ none ∧ d.waitpt ≠ f.clears := by
    intro q st h hf
    obtain ⟨rfl, hwait⟩ := waitClear_halts (Option.some.inj h)
    rw [hf]
    exact ⟨rfl, by simp, hwait⟩
  cases f with
  | sleepSet _ | waitSet _ | selectSet => exact Or.inl (hset h (by simp [Frame.sets]))
  | sleepBack _ | waitClear _ | selectBack | selectClear =>
      exact Or.inr (Or.inl (hclear h rfl))
  | waitTest _ | switched _ =>
      simp only [Task.turn] at h
      split at h
      · cases h
      · cases h
  | selectPoll =>
      cases op with
      | polled ready =>
          simp only [Task.turn] at h
          split at h
          · cases h
          · cases h
      | _ => cases h
  | signal => exact absurd (Option.some.inj h) doSignal_halts
  | closing | freeing =>
      by_cases hop : op = .next
      · subst hop
        cases h
      · rw [turn_exit (by simp) hop] at h
        exact Or.inr (Or.inr (Or.inl (work_halts h)))
  | exited => exact Or.inr (Or.inr (Or.inr (Turn.halts.inj (Option.some.inj h)).symm))
  | _ => cases h

end Turn

section Schedule

variable (s : State) {rest : List Frame} {s' : State}

/-- `add_timer`: in the order of expiry, behind those with the same. -/
def addTimer (tm : Timer) : List Timer → List Timer
  | [] => [tm]
  | tm' :: l => if tm.expires < tm'.expires then tm :: tm' :: l else tm' :: addTimer tm l

/-- `del_timer`. -/
def delTimer (slot : TaskRef) (depth : Nat) (l : List Timer) : List Timer :=
  l.filter fun tm => ¬(tm.slot = slot ∧ tm.depth = depth)

/-- The switch over the state in `schedule`. -/
def State.dequeue (next : TaskRef) (rest : List Frame) : State :=
  let d := s.task s.current
  if d.state = .interruptible then
    if d.signal ≠ 0 then
      (s.modTask s.current fun d => { d with state := .running }).setStack
        (.choose next 0 :: rest)
    else if d.timeout ≠ 0 ∧ d.timeout ≤ s.jiffies then
      (s.modTask s.current fun d => { d with timeout := 0, state := .running }).setStack
        (.choose next 0 :: rest)
    else
      (s.delFromRunqueue s.current).setStack (.choose next d.timeout :: rest)
  else if d.state = .running then
    s.setStack (.choose next 0 :: rest)
  else
    (s.delFromRunqueue s.current).setStack (.choose next 0 :: rest)

/-- The actions of `schedule`. -/
def State.schedule (rest : List Frame) : Frame → Option State
  | .entry =>
      if (s.task s.current).state = .exiting then
        some (s.setStack rest)
      else
        match s.nextRun s.current with
        | none => some (s.halt .nullPointer)
        | some next => some (s.setStack (.timers next :: rest))
  | .timers next =>
      -- the link of a timer is cleared before the loop follows it
      match s.tlList with
      | tm :: l =>
          if tm.expires < s.jiffies then
            some ({ s with tlList := l }.setStack (.fire next tm.data :: rest))
          else
            some (s.setStack (.dequeue next :: rest))
      | [] => some (s.setStack (.dequeue next :: rest))
  | .fire next p =>
      -- `process_timeout`
      some (((s.modTask p fun d => { d with timeout := 0 }).wakeUpProcess p).setStack
        (.dequeue next :: rest))
  | .dequeue next => some (s.dequeue next rest)
  | .choose next timeout =>
      if next = 0 ∧ 0 < s.nrRunning then
        match s.nextRun 0 with
        | none => some (s.halt .nullPointer)
        | some next => some (s.setStack (.choose next timeout :: rest))
      else if next = s.current then
        some (s.setStack rest)
      else
        some (s.setStack (.arm next timeout :: rest))
  | .arm next timeout =>
      if timeout ≠ 0 then
        some ({ s with
          tlList := addTimer ⟨s.current, rest.length, timeout, s.current⟩ s.tlList }.setStack
            (.switch next timeout :: rest))
      else
        some (s.setStack (.switch next timeout :: rest))
  | .switch next timeout =>
      some { s.setStack (.switched timeout :: rest) with current := next }
  | .disarm timeout =>
      if timeout ≠ 0 then
        some ({ s with tlList := delTimer s.current rest.length s.tlList }.setStack rest)
      else
        some (s.setStack rest)
  | _ => none

theorem dequeue_ind {P : State → Prop} {next : TaskRef}
    (hwakes : ∀ g : Task → Task, (s.task s.current).state = .interruptible →
      (∀ d, (g d).state = .running) → (∀ d, (g d).waitpt = d.waitpt) →
      P ((s.modTask s.current g).setStack (.choose next 0 :: rest)))
    (hleaves : ∀ timeout, (s.task s.current).state ≠ .running →
      (timeout ≠ 0 → (s.task s.current).state = .interruptible) →
      P ((s.delFromRunqueue s.current).setStack (.choose next timeout :: rest)))
    (hstays : (s.task s.current).state = .running → P (s.setStack (.choose next 0 :: rest))) :
    P (s.dequeue next rest) := by
  unfold State.dequeue
  dsimp only
  split
  · rename_i hst
    split
    · exact hwakes _ hst (fun _ => rfl) fun _ => rfl
    · split
      · exact hwakes _ hst (fun _ => rfl) fun _ => rfl
      · exact hleaves _ (by simp [hst]) fun _ => hst
  · split
    · rename_i hrun
      exact hstays hrun
    · rename_i hrun
      exact hleaves 0 hrun fun h0 => absurd rfl h0

/-- What the actions of `schedule` can do. -/
inductive Scheduled (rest : List Frame) : Frame → State → Prop
  | exiting (h : (s.task s.current).state = .exiting) :
      Scheduled rest .entry (s.setStack rest)
  | unlinked (h : s.nextRun s.current = none) :
      Scheduled rest .entry (s.halt .nullPointer)
  | linked (next : TaskRef) (h : s.nextRun s.current = some next) :
      Scheduled rest .entry (s.setStack (.timers next :: rest))
  | expired (next : TaskRef) (tm : Timer) (tl : List Timer) (h : s.tlList = tm :: tl) :
      Scheduled rest (.timers next) ({ s with tlList := tl }.setStack (.fire next tm.data :: rest))
  | unexpired (next : TaskRef) :
      Scheduled rest (.timers next) (s.setStack (.dequeue next :: rest))
  | fire (next p : TaskRef) :
      Scheduled rest (.fire next p) (((s.modTask p fun d => { d with timeout := 0 }).wakeUpProcess
        p).setStack (.dequeue next :: rest))
  | dequeue (next : TaskRef) :
      Scheduled rest (.dequeue next) (s.dequeue next rest)
  | idleUnlinked (next : TaskRef) (timeout : Nat) (h : s.nextRun 0 = none) :
      Scheduled rest (.choose next timeout) (s.halt .nullPointer)
  | skipsIdle (next : TaskRef) (timeout : Nat) (g : TaskRef) (h : s.nextRun 0 = some g) :
      Scheduled rest (.choose next timeout) (s.setStack (.choose g timeout :: rest))
  | same (timeout : Nat) :
      Scheduled rest (.choose s.current timeout) (s.setStack rest)
  | other (next : TaskRef) (timeout : Nat) :
      Scheduled rest (.choose next timeout) (s.setStack (.arm next timeout :: rest))
  | arms (next : TaskRef) (timeout : Nat) (h : timeout ≠ 0) :
      Scheduled rest (.arm next timeout) ({ s with
        tlList := addTimer ⟨s.current, rest.length, timeout, s.current⟩ s.tlList }.setStack
          (.switch next timeout :: rest))
  | armsNot (next : TaskRef) :
      Scheduled rest (.arm next 0) (s.setStack (.switch next 0 :: rest))
  | switch (next : TaskRef) (timeout : Nat) :
      Scheduled rest (.switch next timeout)
        { s.setStack (.switched timeout :: rest) with current := next }
  | disarms (timeout : Nat) :
      Scheduled rest (.disarm timeout)
        ({ s with tlList := delTimer s.current rest.length s.tlList }.setStack rest)
  | disarmsNot :
      Scheduled rest (.disarm 0) (s.setStack rest)

theorem schedule_cases {f : Frame}
    (h : s.schedule rest f = some s') : Scheduled s rest f s' := by
  cases f with
  | entry =>
      simp only [State.schedule] at h
      split at h
      · rename_i hexiting
        exact Option.some.inj h ▸ .exiting hexiting
      · split at h
        · rename_i hnone
          exact Option.some.inj h ▸ .unlinked hnone
        · rename_i next hnext
          exact Option.some.inj h ▸ .linked next hnext
  | timers next =>
      simp only [State.schedule] at h
      split at h
      · rename_i tm tl htl
        split at h
        · exact Option.some.inj h ▸ .expired next tm tl htl
        · exact Option.some.inj h ▸ .unexpired next
      · exact Option.some.inj h ▸ .unexpired next
  | fire next p => exact Option.some.inj h ▸ .fire next p
  | dequeue next => exact Option.some.inj h ▸ .dequeue next
  | choose next timeout =>
      simp only [State.schedule] at h
      split at h
      · split at h
        · rename_i hnone
          exact Option.some.inj h ▸ .idleUnlinked next timeout hnone
        · rename_i g hg
          exact Option.some.inj h ▸ .skipsIdle next timeout g hg
      · split at h
        · rename_i hsame
          subst hsame
          exact Option.some.inj h ▸ .same timeout
        · exact Option.some.inj h ▸ .other next timeout
  | arm next timeout =>
      simp only [State.schedule] at h
      split at h
      · rename_i htimeout
        exact Option.some.inj h ▸ .arms next timeout htimeout
      · rename_i htimeout
        obtain rfl := not_not.mp htimeout
        exact Option.some.inj h ▸ .armsNot next
  | switch next timeout => exact Option.some.inj h ▸ .switch next timeout
  | disarm timeout =>
      simp only [State.schedule] at h
      split at h
      · exact Option.some.inj h ▸ .disarms timeout
      · rename_i htimeout
        obtain rfl := not_not.mp htimeout
        exact Option.some.inj h ▸ .disarmsNot
  | _ => cases h

/-- `find_empty_process`. -/
def State.findEmptyProcess (root : Bool) : Option TaskRef :=
  let unused := (List.finRange maxTasks).filter fun n => (s.task n).state = .unused
  if unused.length = 0 ∨ unused.length = 1 ∧ root = false then none else unused.getLast?

/-- `do_fork` as far as `wake_up_process`; `memory` says whether `mm_dup` finds
the memory. -/
def State.fork (root memory : Bool) (pid : Nat) : State :=
  match s.findEmptyProcess root with
  | none => s
  | some n =>
      if s.tlList.any fun tm => tm.slot = n then
        -- `*t = *currentp` overwrites the stack of the slot
        s.halt .timerOverwritten
      else
        let parent := s.task s.current
        let s := { s with stack := update s.stack n [] }
        if memory then
          let child := { parent with state := .uninterruptible, pid := pid }
          (((s.modTask n fun _ => child).setNext n none).setPrev n none).setStack
            [.forkWake n]
        else
          ((s.modTask n fun _ => { parent with state := .unused }).setNext n
            (s.nextRun s.current)).setPrev n (s.prevRun s.current)

/-- The next action of the current task. -/
def State.run (op : Op) : Option State :=
  let d := s.task s.current
  let idle := s.current = 0
  match s.stack s.current with
  | [] =>
      match op with
      | .fork root memory pid => if idle then none else some (s.fork root memory pid)
      | op => (d.call idle s.locked op).map s.takes
  | .forkWake n :: rest => some ((s.wakeUpProcess n).setStack rest)
  | f :: rest =>
      match s.schedule rest f with
      | some s' => some s'
      | none => (d.turn idle s.locked op f rest).map s.takes

/-- Which code the current task is in. -/
inductive Ran (op : Op) : State → Prop
  | fork (root memory : Bool) (pid : Nat) (hnil : s.stack s.current = [])
      (hc : s.current ≠ 0) (hop : op = .fork root memory pid) : Ran op (s.fork root memory pid)
  | call (turn : Turn) (hnil : s.stack s.current = [])
      (hturn : (s.task s.current).call (s.current = 0) s.locked op = some turn) :
      Ran op (s.takes turn)
  | forkWake (n : TaskRef) (rest : List Frame) (hf : s.stack s.current = .forkWake n :: rest) :
      Ran op ((s.wakeUpProcess n).setStack rest)
  | schedule (f : Frame) (rest : List Frame) (s' : State)
      (hf : s.stack s.current = f :: rest) (hsched : s.schedule rest f = some s') : Ran op s'
  | turn (f : Frame) (rest : List Frame) (turn : Turn) (hf : s.stack s.current = f :: rest)
      (hturn : (s.task s.current).turn (s.current = 0) s.locked op f rest = some turn) :
      Ran op (s.takes turn)

theorem run_cases {op : Op} (h : s.run op = some s') : Ran s op s' := by
  unfold State.run at h
  dsimp only at h
  split at h
  · rename_i hnil
    split at h
    · rename_i root memory pid
      split at h
      · cases h
      · rename_i hc
        exact Option.some.inj h ▸ .fork root memory pid hnil (by simpa using hc) rfl
    · obtain ⟨turn, hturn, rfl⟩ := Option.map_eq_some_iff.mp h
      exact .call turn hnil hturn
  · rename_i n rest hf
    exact Option.some.inj h ▸ .forkWake n rest hf
  · rename_i f rest _ hf
    split at h
    · rename_i u hsched
      exact Option.some.inj h ▸ .schedule f rest u hf hsched
    · obtain ⟨turn, hturn, rfl⟩ := Option.map_eq_some_iff.mp h
      exact .turn f rest turn hf hturn

/-- What happens next. -/
def State.step : Act → Option State
  | a =>
      if s.halted ≠ none then
        none
      else
        match a with
        | .tick => some { s with jiffies := wrap 32 (s.jiffies + 1) }
        | .wakeRound addr it p => some (s.wakeRound addr it p)
        | .sendSig sig p => some (s.sendSig sig p)
        | .setLock addr value => some { s with locked := update s.locked addr value }
        | .run op => s.run op

end Schedule

section Halts

variable {s s' : State} {p : TaskRef} {halt : Halt} {rest : List Frame} {sig : Fin nsig}

/-- The run queue is touched, and the machine goes on or a null pointer is followed. -/
def State.Follows (s s' : State) : Prop :=
  s'.halted = s.halted ∨ s'.halted = some .nullPointer

theorem wakeUpProcess_follows : s.Follows (s.wakeUpProcess p) := by
  unfold State.wakeUpProcess
  dsimp only
  split
  · unfold State.addToRunqueue
    split
    · exact Or.inr rfl
    · exact Or.inl rfl
  · exact Or.inl rfl

theorem delFromRunqueue_follows : s.Follows (s.delFromRunqueue p) := by
  unfold State.delFromRunqueue
  split
  · exact Or.inl rfl
  · split
    · exact Or.inl rfl
    · exact Or.inr rfl

theorem sendSig_ind {P : State → Prop} (h : P s)
    (hmod : ∀ u (g : BitVec nsig → BitVec nsig), P u →
      P (u.modTask p fun d => { d with signal := g d.signal }))
    (hwake : ∀ u, P u → (u.task p).state ≠ .unused → P (u.wakeUpProcess p)) :
    P (s.sendSig sig p) := by
  have hgenerate : ∀ u, P u → P (u.generate sig p) := by
    intro u hu
    have hpending := hmod u (· ||| mask sig) hu
    unfold State.generate
    split
    · exact hu
    · dsimp only
      split
      · rename_i hst
        exact hwake _ hpending (by simp [hst])
      · exact hpending
  have hcont : ∀ u, P u → P (if sig = sigstop ∨ sig = sigtstp then
      u.modTask p fun d => { d with signal := d.signal &&& ~~~mask sigcont } else u) := by
    intro u hu
    split
    · exact hmod u (· &&& ~~~mask sigcont) hu
    · exact hu
  have hstop : P (if sig = sigkill ∨ sig = sigcont then
      (if (s.task p).state = .stopped then s.wakeUpProcess p else s).modTask p fun d =>
        { d with signal := d.signal &&& ~~~(mask sigstop ||| mask sigtstp) }
      else s) := by
    split
    · refine hmod _ (· &&& ~~~(mask sigstop ||| mask sigtstp)) ?_
      split
      · rename_i hst
        exact hwake s h (by simp [hst])
      · exact h
    · exact h
  exact hgenerate _ (hcont _ hstop)

theorem sendSig_follows : s.Follows (s.sendSig sig p) := by
  refine sendSig_ind (P := s.Follows) (Or.inl rfl) (fun _ _ hu => hu) fun u hu _ => ?_
  rcases wakeUpProcess_follows (s := u) (p := p) with hsame | hnull
  · unfold State.Follows
    rw [hsame]
    exact hu
  · exact Or.inr hnull

theorem dequeue_follows {next : TaskRef} :
    s.Follows (s.dequeue next rest) :=
  dequeue_ind s (fun _ _ _ _ => Or.inl rfl) (fun _ _ _ => delFromRunqueue_follows (s := s))
    fun _ => Or.inl rfl

theorem schedule_follows {f : Frame}
    (h : s.schedule rest f = some s') : s.Follows s' := by
  cases schedule_cases s h with
  | unlinked | idleUnlinked => exact Or.inr rfl
  | fire next p =>
      exact wakeUpProcess_follows (s := s.modTask p fun d => { d with timeout := 0 }) (p := p)
  | dequeue next => exact dequeue_follows
  | _ => exact Or.inl rfl

theorem fork_halts {root memory : Bool} {pid : Nat}
    (h : (s.fork root memory pid).halted = some halt) :
    s.halted = some halt ∨ halt = .timerOverwritten := by
  unfold State.fork at h
  split at h
  · exact Or.inl h
  · split at h
    · exact Or.inr (Option.some.inj h).symm
    · dsimp only at h
      split at h
      · exact Or.inl h
      · exact Or.inl h

theorem step_halts {a : Act} (h : s.step a = some s') (hhalt : s'.halted = some halt) :
    halt = .nullPointer ∨ halt = .idleSleeps ∨ halt = .returnedFromExit ∨
    (halt = .timerOverwritten ∧ s.stack s.current = [] ∧
      ∃ root memory pid, s' = s.fork root memory pid) ∨
    ∃ f rest, s.stack s.current = f :: rest ∧
      (halt = .doubleWait ∧ f.sets ≠ none ∧ (s.task s.current).waitpt ≠ none ∨
        halt = .wrongWaitpt ∧ f.clears ≠ none ∧ (s.task s.current).waitpt ≠ f.clears) := by
  unfold State.step at h
  split at h
  · cases h
  rename_i hgoing
  have hnone : s.halted = none := not_not.mp hgoing
  have hfollows : s.Follows s' → halt = .nullPointer := by
    rintro (hsame | hnull)
    · rw [hsame, hnone] at hhalt
      cases hhalt
    · exact Option.some.inj (hhalt.symm.trans hnull)
  cases a with
  | tick =>
      obtain rfl := Option.some.inj h
      exact Or.inl (hfollows (Or.inl rfl))
  | wakeRound addr it p =>
      obtain rfl := Option.some.inj h
      refine Or.inl (hfollows ?_)
      unfold State.wakeRound
      split
      · exact wakeUpProcess_follows
      · exact Or.inl rfl
  | sendSig sig p =>
      obtain rfl := Option.some.inj h
      exact Or.inl (hfollows sendSig_follows)
  | setLock addr value =>
      obtain rfl := Option.some.inj h
      exact Or.inl (hfollows (Or.inl rfl))
  | run op =>
      have htakes : ∀ {turn : Turn}, s' = s.takes turn → turn = .halts halt := by
        intro turn hs
        subst hs
        cases turn with
        | goes d st => exact absurd (hhalt.symm.trans hnone) (by simp)
        | halts halt' => rw [Option.some.inj hhalt]
      cases run_cases s h with
      | fork root memory pid hnil =>
          rcases fork_halts hhalt with hold | hover
          · exact absurd (hnone.symm.trans hold) (by simp)
          · exact Or.inr (Or.inr (Or.inr (Or.inl ⟨hover, hnil, root, memory, pid, rfl⟩)))
      | call turn hnil hturn =>
          obtain rfl := htakes rfl
          exact Or.inr (Or.inl (call_halts hturn))
      | forkWake n rest => exact Or.inl (hfollows (wakeUpProcess_follows (s := s)))
      | schedule f rest u hf hsched => exact Or.inl (hfollows (schedule_follows hsched))
      | turn f rest turn hf hturn =>
          obtain rfl := htakes rfl
          rcases turn_halts hturn with hdouble | hwrong | hidle | hexit
          · exact Or.inr (Or.inr (Or.inr (Or.inr ⟨f, rest, hf, Or.inl hdouble⟩)))
          · exact Or.inr (Or.inr (Or.inr (Or.inr ⟨f, rest, hf, Or.inr hwrong⟩)))
          · exact Or.inr (Or.inl hidle)
          · exact Or.inr (Or.inr (Or.inl hexit))

end Halts

/-- The tasks as `setup_arch` leaves them. -/
def cleared : State where
  task := fun t => Task.zero (if t = 0 then .running else .unused)
  stack := fun _ => []
  nextRun := fun t => if t = 0 then some 0 else none
  prevRun := fun t => if t = 0 then some 0 else none
  nrRunning := 0
  current := 0
  jiffies := 0
  tlList := []
  locked := fun _ => false
  halted := none

/-- `start_kernel` once `kfork_proc` has made the first task and calls
`schedule`. -/
def startKernel : State :=
  ((cleared.modTask 1 fun _ => { Task.zero .uninterruptible with pid := 1 }).wakeUpProcess
    1).setStack [.entry]

theorem startKernel_tlList : startKernel.tlList = [] := by
  simp [startKernel, State.modTask, cleared]

theorem startKernel_halted : startKernel.halted = none :=
  rfl

section Runs

/-- The states of the runs in which every action meets a condition. -/
inductive Reached (P : State → Act → Prop) : State → Prop
  | start : Reached P startKernel
  | step {s s' : State} {a : Act} (h : Reached P s) (ha : P s a) (hs : s.step a = some s') :
      Reached P s'

variable {P : State → Act → Prop} {s s' : State}

/-- No condition. -/
def Anything (_ : State) (_ : Act) : Prop :=
  True

instance {s : State} {a : Act} : Decidable (Anything s a) :=
  inferInstanceAs (Decidable True)

/-- The end of a run, if all its actions can be done and meet the condition. -/
def State.acts (P : State → Act → Prop) [∀ s a, Decidable (P s a)] (s : State) :
    List Act → Option State
  | [] => some s
  | a :: as => if P s a then (s.step a).bind fun s' => s'.acts P as else none

theorem Reached.acts [∀ s a, Decidable (P s a)] {as : List Act}
    (h : Reached P s) (hacts : s.acts P as = some s') : Reached P s' := by
  induction as generalizing s with
  | nil =>
      obtain rfl := Option.some.inj hacts
      exact h
  | cons a as ih =>
      unfold State.acts at hacts
      split at hacts
      · rename_i ha
        obtain ⟨u, hs, hu⟩ := Option.bind_eq_some_iff.mp hacts
        exact ih (h.step ha hs) hu
      · cases hacts

/-- The kernel goes on where it has no choice. -/
def nexts (n : Nat) : List Act :=
  List.replicate n (.run .next)

end Runs

end Sched
end Elks
