import Elks.Files.FdSet
import Elks.Tty.Chqueue
import Mathlib.Data.Nat.Bitwise

/-!
# Waiting for terminals (fs/select.c, kernel/sleepwake.c, ntty.c, pty.c)

`do_select` tests the queues behind its descriptors one after another, notes the wait
queue of each that is not ready in the sixteen bits of `pollhash`, and sleeps when none
was ready.  Its steps are taken one at a time, and between any two of them interrupts
and other tasks may use the queues.

**Result.**  `select_sleeps`: the task does not sleep with a requested descriptor below 16
ready, as long as no queue becomes ready between its test and the setting of its bit.
The descriptors from 16 on are never tested (`checks_lt`), since `FD_ISSET` does not find
them.
-/

namespace Elks
namespace Tty

open Files (FdSet fdIsset fdIsset_high fdIsset_of_mem)

/-- The queues of the terminals. -/
inductive QueueRef
  | inq (tty : Nat)
  | outq (tty : Nat)
deriving DecidableEq

/-- `SEL_IN`, `SEL_OUT` and `SEL_EX`. -/
inductive SelType
  | selIn
  | selOut
  | selEx
deriving DecidableEq

/-- An open file of a terminal, or of the other side of a pseudo terminal. -/
inductive File
  | tty (t : Nat)
  | pty (t : Nat)
deriving DecidableEq

/-- How a queue is tested. -/
inductive Test
  | peekch
  | notFull
deriving DecidableEq

def Test.passes : Test → ChQueue → Bool
  | peekch, q => q.peekch
  | notFull, q => !q.full

/-- `tty_select`: what is tested before the wait queue is noted. -/
def ttySelect (t : Nat) : SelType → Option (Test × QueueRef)
  | .selIn => some (.peekch, .inq t)
  | .selOut => some (.notFull, .outq t)
  | .selEx => none

/-- `pty_select`, which knows `SEL_IN` only. -/
def ptySelect (t : Nat) : SelType → Option (Test × QueueRef)
  | .selIn => some (.peekch, .outq t)
  | .selOut => none
  | .selEx => none

def File.select : File → SelType → Option (Test × QueueRef)
  | .tty t => ttySelect t
  | .pty t => ptySelect t

/-- One call of `check` for a descriptor. -/
structure Check where
  fd : Nat
  file : File
  type : SelType
deriving DecidableEq

def Check.test (c : Check) : Option (Test × QueueRef) :=
  c.file.select c.type

/-- The arguments of `do_select`, with the open files of the task.  `sys_select` sees to
it that `n` is not above `NR_OPEN`. -/
structure Selection where
  n : Nat
  fds : Nat → Option File
  inp : FdSet
  out : FdSet
  ex : FdSet
  le_open : n ≤ 20

namespace Selection

variable (x : Selection)

/-- The set of one kind. -/
def setOf : SelType → FdSet
  | .selIn => x.inp
  | .selOut => x.out
  | .selEx => x.ex

/-- `set & 1` in the first loop. -/
def asked (pi : Nat) : Bool :=
  (x.inp ||| x.out ||| x.ex).getLsbD pi

/-- A requested descriptor is not open: `-EBADF`. -/
def refused : Bool :=
  (List.range x.n).any fun pi => x.asked pi && (x.fds pi).isNone

/-- `max + 1`, after the descriptors below `n`. -/
def top : Nat → Nat
  | 0 => 0
  | pi + 1 => if x.asked pi then pi + 1 else top pi

/-- The calls of `check` for one descriptor. -/
def checksOf (pi : Nat) : List Check :=
  match x.fds pi with
  | none => []
  | some file =>
      (if fdIsset pi x.inp then [⟨pi, file, .selIn⟩] else []) ++
      (if fdIsset pi x.out then [⟨pi, file, .selOut⟩] else []) ++
      (if fdIsset pi x.ex then [⟨pi, file, .selEx⟩] else [])

/-- The calls of `check` in the order of the loop. -/
def checks : List Check :=
  (List.range (x.top x.n)).flatMap x.checksOf

/-- What the caller asks for: a descriptor below `n` in one of the sets. -/
def Requests (c : Check) : Prop :=
  c.fd < x.n ∧ (x.setOf c.type).getLsbD c.fd = true ∧ x.fds c.fd = some c.file

end Selection

/-- The next step of `do_select`. -/
inductive Pc
  | again
  | clearHash
  | waitSet
  | test (left : List Check)
  | note (c : Check) (left : List Check)
  | decide
  | schedule
  | asleep
  | woken
  | dropHash
  | waitClear
  | run
  | returned

/-- What `state` says of the task. -/
inductive TaskState
  | running
  | interruptible
deriving DecidableEq

/-- The queues and the task in `do_select`.  `queued` says that it is on the run queue
and `waiting` that its `waitpt` is `&select_poll`. -/
structure State where
  queue : QueueRef → ChQueue
  pc : Pc
  state : TaskState
  queued : Bool
  waiting : Bool
  pollhash : Nat
  timeout : Bool
  signal : Bool
  result : List Check

/-- `count`. -/
def State.count (s : State) : Nat :=
  s.result.length

/-- Where the wait queue of a queue is. -/
abbrev Wq := QueueRef → Nat

section Code

variable (wq : Wq) (x : Selection) (s : State)

/-- The bit of a wait queue. -/
def phash (q : QueueRef) : Nat :=
  1 <<< ((wq q >>> 8) &&& 15)

/-- `wake_up_process`. -/
def State.wakeProcess : State :=
  { s with state := .running, queued := true }

/-- `wake_up` of a wait queue. -/
def State.wakeUp (q : QueueRef) : State :=
  if s.waiting = true ∧ s.pollhash &&& phash wq q ≠ 0 ∧ s.state = .interruptible then
    s.wakeProcess
  else
    s

/-- `do_select` begins. -/
def State.Starts : Prop :=
  s.pc = (if x.refused then .returned else .again) ∧ s.state = .running ∧ s.queued = true ∧
    s.waiting = false ∧ s.result = []

/-- One step of `do_select`.  `late` says that `schedule` finds the time out. -/
def State.own (late : Bool) : State :=
  match s.pc with
  | .again => { s with state := .interruptible, pc := .clearHash }
  | .clearHash => { s with pollhash := 0, pc := .waitSet }
  | .waitSet => { s with waiting := true, pc := .test x.checks }
  | .test [] => { s with pc := .decide }
  | .test (c :: left) =>
      match c.test with
      | none => { s with pc := .test left }
      | some (t, q) =>
          if t.passes (s.queue q) then
            { s with result := c :: s.result, pc := .test left }
          else
            { s with pc := .note c left }
  | .note c left =>
      match c.test with
      | none => { s with pc := .test left }
      | some (_, q) => { s with pollhash := s.pollhash ||| phash wq q, pc := .test left }
  | .decide =>
      if s.count = 0 ∧ s.timeout = true ∧ s.signal = false then { s with pc := .schedule }
      else { s with pc := .dropHash }
  | .schedule =>
      match s.state with
      | .running => { s with pc := .woken }
      | .interruptible =>
          if s.signal then
            { s with state := .running, pc := .woken }
          else if s.timeout = true ∧ late = true then
            { s with state := .running, timeout := false, pc := .woken }
          else
            { s with queued := false, pc := .asleep }
  | .asleep => if s.queued then { s with pc := .woken } else s
  | .woken => { s with waiting := false, pc := .again }
  | .dropHash => { s with pollhash := 0, pc := .waitClear }
  | .waitClear => { s with waiting := false, pc := .run }
  | .run => { s with state := .running, pc := .returned }
  | .returned => s

/-- What interrupts and other tasks do. -/
inductive Act
  | addch (q : QueueRef) (c : UInt8)
  | getch (q : QueueRef)
  | expire
  | signal

def State.setQueue (q : QueueRef) (v : ChQueue) : State :=
  { s with queue := Function.update s.queue q v }

/-- One of their actions. -/
def State.act : Act → State
  | .addch q c =>
      match (s.queue q).addch c with
      | none => s
      | some v => (s.setQueue q v).wakeUp wq q
  | .getch q =>
      match (s.queue q).getch with
      | none => s
      | some (_, v) => (s.setQueue q v).wakeUp wq q
  | .expire => { s with timeout := false }.wakeProcess
  | .signal =>
      let s := { s with signal := true }
      if s.state = .interruptible then s.wakeProcess else s

end Code

/-- A requested descriptor is ready. -/
def State.Ready (s : State) (c : Check) : Prop :=
  ∃ t q, c.test = some (t, q) ∧ t.passes (s.queue q) = true

/-- A descriptor that has been tested, but not noted, becomes ready, and neither is its
bit set for another queue nor has the task anything to return with. -/
def Missed (wq : Wq) (s : State) (a : Act) : Prop :=
  ∃ c left t q, s.pc = .note c left ∧ c.test = some (t, q) ∧ (s.act wq a).Ready c ∧
    s.pollhash &&& phash wq q = 0 ∧ s.count = 0 ∧ s.state = .interruptible

/-- The runs of `do_select` among calls of interrupts and other tasks, none of which is
missed. -/
inductive Reached (wq : Wq) (x : Selection) : State → Prop
  | start {s : State} (h : s.Starts x) : Reached wq x s
  | own {s : State} (h : Reached wq x s) (late : Bool) : Reached wq x (s.own wq x late)
  | act {s : State} (h : Reached wq x s) (a : Act) (hseen : ¬ Missed wq s a) :
      Reached wq x (s.act wq a)

section Bits

variable {wq : Wq} {h : Nat} {q q' : QueueRef}

theorem noted_iff : h &&& phash wq q ≠ 0 ↔ h.testBit ((wq q >>> 8) &&& 15) = true := by
  unfold phash
  rw [Nat.one_shiftLeft, Nat.and_two_pow]
  cases h.testBit ((wq q >>> 8) &&& 15) with
  | true => simp
  | false => simp

theorem noted_self : (h ||| phash wq q) &&& phash wq q ≠ 0 := by
  rw [noted_iff, Nat.testBit_or]
  unfold phash
  rw [Nat.one_shiftLeft, Nat.testBit_two_pow_self, Bool.or_true]

theorem noted_mono (hq : h &&& phash wq q ≠ 0) : (h ||| phash wq q') &&& phash wq q ≠ 0 := by
  rw [noted_iff] at hq ⊢
  rw [Nat.testBit_or, hq, Bool.true_or]

end Bits

namespace Selection

variable {x : Selection} {c : Check} {pi n : Nat}

theorem lt_top (hlt : pi < n) (hasked : x.asked pi = true) : pi < x.top n := by
  induction n with
  | zero => exact absurd hlt (Nat.not_lt_zero pi)
  | succ n ih =>
      unfold top
      split
      · exact hlt
      · rename_i hn
        rcases Nat.lt_succ_iff_lt_or_eq.mp hlt with h | rfl
        · exact ih h
        · exact absurd hasked hn

theorem top_le (n : Nat) : x.top n ≤ n := by
  induction n with
  | zero => exact le_rfl
  | succ n ih =>
      unfold top
      split
      · exact le_rfl
      · exact Nat.le_succ_of_le ih

theorem mem_checksOf :
    c ∈ x.checksOf pi ↔
      c.fd = pi ∧ x.fds pi = some c.file ∧ fdIsset pi (x.setOf c.type) = true := by
  obtain ⟨fd, file, type⟩ := c
  unfold checksOf
  cases hfile : x.fds pi with
  | none => simp
  | some file' =>
      cases type <;>
        simp only [List.mem_append, List.mem_ite_nil_right, List.mem_singleton, setOf,
          Check.mk.injEq, reduceCtorEq, and_false, or_false, false_or, and_true,
          Option.some.injEq] <;>
        tauto

/-- Every request for a descriptor below 16 is tested. -/
theorem Requests.tested (h : x.Requests c) (hfd : c.fd < 16) : c ∈ x.checks := by
  obtain ⟨hlt, hset, hfile⟩ := h
  have hasked : x.asked c.fd = true := by
    unfold asked
    rw [BitVec.getLsbD_or, BitVec.getLsbD_or]
    cases htype : c.type with
    | selIn =>
        rw [htype] at hset
        rw [show x.inp.getLsbD c.fd = true from hset]
        rfl
    | selOut =>
        rw [htype] at hset
        rw [show x.out.getLsbD c.fd = true from hset, Bool.or_true]
        rfl
    | selEx =>
        rw [htype] at hset
        rw [show x.ex.getLsbD c.fd = true from hset, Bool.or_true]
  exact List.mem_flatMap.mpr ⟨c.fd, List.mem_range.mpr (lt_top hlt hasked),
    mem_checksOf.mpr ⟨rfl, hfile, fdIsset_of_mem hfd hset⟩⟩

/-- No descriptor from 16 on is tested, whatever the sets ask for. -/
theorem checks_lt (h : c ∈ x.checks) : c.fd < 16 := by
  obtain ⟨pi, hpi, hc⟩ := List.mem_flatMap.mp h
  obtain ⟨rfl, _, hset⟩ := mem_checksOf.mp hc
  by_contra hhigh
  have htop := List.mem_range.mp hpi
  have hn := top_le (x := x) x.n
  have hopen := x.le_open
  rw [fdIsset_high (by omega) (by omega)] at hset
  cases hset

end Selection

section Steps

variable {wq : Wq} {x : Selection} {s s' : State} {c : Check} {a : Act}
  {done left : List Check} {late : Bool}

/-- What other parties leave alone, and when they may use a queue without waking the
task. -/
structure Aside (wq : Wq) (s s' : State) : Prop where
  pc : s'.pc = s.pc
  result : s'.result = s.result
  waiting : s'.waiting = s.waiting
  pollhash : s'.pollhash = s.pollhash
  woken : (s'.state = .running ∧ (s.queued = true → s'.queued = true) ∧
      (s.state = .interruptible → s'.queued = true)) ∨
    (s'.state = s.state ∧ s'.queued = s.queued ∧
      ∀ q, s'.queue q ≠ s.queue q → s.waiting = true → s.pollhash &&& phash wq q = 0)

theorem aside_refl : Aside wq s s := by
  exact ⟨rfl, rfl, rfl, rfl, Or.inr ⟨rfl, rfl, fun q hq => absurd rfl hq⟩⟩

theorem aside_wakeUp (q : QueueRef) (v : ChQueue) : Aside wq s ((s.setQueue q v).wakeUp wq q) := by
  unfold State.wakeUp
  split
  · exact ⟨rfl, rfl, rfl, rfl, Or.inl ⟨rfl, fun _ => rfl, fun _ => rfl⟩⟩
  · rename_i hasleep
    refine ⟨rfl, rfl, rfl, rfl, ?_⟩
    cases hstate : s.state with
    | running =>
        refine Or.inl ⟨hstate, fun h => h, fun h => ?_⟩
        cases h
    | interruptible =>
        refine Or.inr ⟨hstate, rfl, fun q' hq' hwaiting => ?_⟩
        have hqq : q' = q := by
          by_contra hne
          exact hq' (Function.update_of_ne hne _ _)
        by_contra hbit
        rw [hqq] at hbit
        exact hasleep ⟨hwaiting, hbit, hstate⟩

theorem act_aside (a : Act) : Aside wq s (s.act wq a) := by
  cases a with
  | addch q c =>
      unfold State.act
      dsimp only
      split
      · exact aside_refl
      · exact aside_wakeUp q _
  | getch q =>
      unfold State.act
      dsimp only
      split
      · exact aside_refl
      · exact aside_wakeUp q _
  | expire => exact ⟨rfl, rfl, rfl, rfl, Or.inl ⟨rfl, fun _ => rfl, fun _ => rfl⟩⟩
  | signal =>
      unfold State.act
      dsimp only
      split
      · exact ⟨rfl, rfl, rfl, rfl, Or.inl ⟨rfl, fun _ => rfl, fun _ => rfl⟩⟩
      · exact ⟨rfl, rfl, rfl, rfl, Or.inr ⟨rfl, rfl, fun q hq => absurd rfl hq⟩⟩

/-- A descriptor is not ready, and its bit is set. -/
def State.Sure (wq : Wq) (s : State) (c : Check) : Prop :=
  ∀ t q, c.test = some (t, q) → t.passes (s.queue q) = false ∧ s.pollhash &&& phash wq q ≠ 0

/-- The task is on the magic queue, and unless it has been woken or has something to
return with, it is sure of the descriptors that it has dealt with. -/
structure Watches (wq : Wq) (s : State) (done : List Check) : Prop where
  waiting : s.waiting = true
  sure : s.state = .interruptible → s.count = 0 → ∀ c ∈ done, s.Sure wq c

/-- What holds before each step of `do_select`. -/
def Inv (wq : Wq) (x : Selection) (s : State) : Prop :=
  match s.pc with
  | .again | .clearHash | .waitSet | .woken => s.queued = true ∧ s.count = 0
  | .test left =>
      s.queued = true ∧ ∃ done, x.checks = done ++ left ∧ Watches wq s done
  | .note c left =>
      s.queued = true ∧ ∃ done, x.checks = done ++ c :: left ∧ Watches wq s done ∧
        (s.state = .interruptible → s.count = 0 → ¬ s.Ready c)
  | .decide => s.queued = true ∧ Watches wq s x.checks
  | .schedule => s.queued = true ∧ s.count = 0 ∧ Watches wq s x.checks
  | .asleep =>
      s.count = 0 ∧ Watches wq s x.checks ∧ (s.queued = false → s.state = .interruptible)
  | .dropHash | .waitClear | .run | .returned => s.queued = true

theorem Aside.count (h : Aside wq s s') : s'.count = s.count := by
  unfold State.count
  rw [h.result]

theorem Aside.queued (h : Aside wq s s') (hq : s.queued = true) : s'.queued = true := by
  rcases h.woken with ⟨_, hkept, _⟩ | ⟨_, hsame, _⟩
  · exact hkept hq
  · rw [hsame]
    exact hq

/-- Only the queues of descriptors without their bit change under a task that sleeps
on. -/
theorem Aside.watches (h : Aside wq s s') (hw : Watches wq s done) : Watches wq s' done := by
  refine ⟨h.waiting.trans hw.waiting, fun hstate hcount c hc t q ht => ?_⟩
  rcases h.woken with ⟨hrun, _⟩ | ⟨hsame, _, hquiet⟩
  · rw [hrun] at hstate
    cases hstate
  · rw [hsame] at hstate
    rw [h.count] at hcount
    obtain ⟨hnot, hbit⟩ := hw.sure hstate hcount c hc t q ht
    have hqueue : s'.queue q = s.queue q := by
      by_contra hne
      exact hbit (hquiet q hne hw.waiting)
    rw [hqueue, h.pollhash]
    exact ⟨hnot, hbit⟩

theorem act_inv (h : Inv wq x s) (hseen : ¬ Missed wq s a) : Inv wq x (s.act wq a) := by
  have haside : Aside wq s (s.act wq a) := act_aside a
  unfold Inv at h ⊢
  rw [haside.pc]
  cases hpc : s.pc with
  | again | clearHash | waitSet | woken =>
      rw [hpc] at h
      exact ⟨haside.queued h.1, haside.count.trans h.2⟩
  | test left =>
      rw [hpc] at h
      obtain ⟨hq, done, hdone, hw⟩ := h
      exact ⟨haside.queued hq, done, hdone, haside.watches hw⟩
  | note c left =>
      rw [hpc] at h
      obtain ⟨hq, done, hdone, hw, hnot⟩ := h
      refine ⟨haside.queued hq, done, hdone, haside.watches hw, fun hstate hcount hready => ?_⟩
      rcases haside.woken with ⟨hrun, _⟩ | ⟨hsame, _, hquiet⟩
      · rw [hrun] at hstate
        cases hstate
      · rw [hsame] at hstate
        rw [haside.count] at hcount
        obtain ⟨t, q, ht, hpass⟩ := hready
        -- its queue has changed, so its bit is not set
        have hne : (s.act wq a).queue q ≠ s.queue q := by
          intro hqueue
          rw [hqueue] at hpass
          exact hnot hstate hcount ⟨t, q, ht, hpass⟩
        exact hseen ⟨c, left, t, q, hpc, ht, ⟨t, q, ht, hpass⟩, hquiet q hne hw.waiting, hcount,
          hstate⟩
  | decide =>
      rw [hpc] at h
      exact ⟨haside.queued h.1, haside.watches h.2⟩
  | schedule =>
      rw [hpc] at h
      exact ⟨haside.queued h.1, haside.count.trans h.2.1, haside.watches h.2.2⟩
  | asleep =>
      rw [hpc] at h
      obtain ⟨hcount, hw, hsleeps⟩ := h
      refine ⟨haside.count.trans hcount, haside.watches hw, fun hq => ?_⟩
      rcases haside.woken with ⟨_, hkept, hwoken⟩ | ⟨hsame, hqueued, _⟩
      · cases hold : s.queued with
        | true =>
            rw [hkept hold] at hq
            cases hq
        | false =>
            rw [hwoken (hsleeps hold)] at hq
            cases hq
      · rw [hqueued] at hq
        rw [hsame]
        exact hsleeps hq
  | dropHash | waitClear | run | returned =>
      rw [hpc] at h
      exact haside.queued h

theorem own_inv (h : Inv wq x s) : Inv wq x (s.own wq x late) := by
  unfold Inv at h
  unfold State.own
  cases hpc : s.pc with
  | again =>
      rw [hpc] at h
      exact h
  | clearHash =>
      rw [hpc] at h
      exact h
  | waitSet =>
      rw [hpc] at h
      refine ⟨h.1, [], rfl, rfl, fun _ _ c hc => ?_⟩
      cases hc
  | test left =>
      rw [hpc] at h
      obtain ⟨hq, done, hdone, hw⟩ := h
      cases left with
      | nil =>
          rw [List.append_nil] at hdone
          refine ⟨hq, ?_⟩
          rw [hdone]
          exact ⟨hw.waiting, hw.sure⟩
      | cons c left =>
          dsimp only
          cases htest : c.test with
          | none =>
              refine ⟨hq, done ++ [c], by rw [hdone, List.append_assoc]; rfl, hw.waiting, ?_⟩
              intro hstate hcount c' hc'
              rcases List.mem_append.mp hc' with hc' | hc'
              · exact hw.sure hstate hcount c' hc'
              · intro t q ht
                rw [List.mem_singleton.mp hc', htest] at ht
                cases ht
          | some test =>
              obtain ⟨t, q⟩ := test
              dsimp only
              split
              · refine ⟨hq, done ++ [c], by rw [hdone, List.append_assoc]; rfl, hw.waiting, ?_⟩
                intro _ hcount
                cases hcount
              · rename_i hfail
                refine ⟨hq, done, hdone, ⟨hw.waiting, hw.sure⟩, fun _ _ hready => ?_⟩
                obtain ⟨t', q', ht', hpass⟩ := hready
                rw [htest] at ht'
                cases ht'
                exact hfail hpass
  | note c left =>
      rw [hpc] at h
      obtain ⟨hq, done, hdone, hw, hnot⟩ := h
      dsimp only
      cases htest : c.test with
      | none =>
          refine ⟨hq, done ++ [c], by rw [hdone, List.append_assoc]; rfl, hw.waiting, ?_⟩
          intro hstate hcount c' hc'
          rcases List.mem_append.mp hc' with hc' | hc'
          · exact hw.sure hstate hcount c' hc'
          · intro t q ht
            rw [List.mem_singleton.mp hc', htest] at ht
            cases ht
      | some test =>
          obtain ⟨t, q⟩ := test
          refine ⟨hq, done ++ [c], by rw [hdone, List.append_assoc]; rfl, hw.waiting, ?_⟩
          intro hstate hcount c' hc' t' q' ht'
          rcases List.mem_append.mp hc' with hc' | hc'
          · obtain ⟨hfail, hbit⟩ := hw.sure hstate hcount c' hc' t' q' ht'
            exact ⟨hfail, noted_mono hbit⟩
          · rw [List.mem_singleton.mp hc', htest] at ht'
            cases ht'
            refine ⟨?_, noted_self⟩
            by_contra hpass
            exact hnot hstate hcount ⟨t, q, htest, Bool.eq_true_of_not_eq_false hpass⟩
  | decide =>
      rw [hpc] at h
      dsimp only
      split
      · rename_i hsleep
        exact ⟨h.1, hsleep.1, h.2.waiting, h.2.sure⟩
      · exact h.1
  | schedule =>
      rw [hpc] at h
      obtain ⟨hq, hcount, hw⟩ := h
      dsimp only
      cases hstate : s.state with
      | running => exact ⟨hq, hcount⟩
      | interruptible =>
          dsimp only
          split
          · exact ⟨hq, hcount⟩
          · split
            · exact ⟨hq, hcount⟩
            · exact ⟨hcount, ⟨hw.waiting, fun _ => hw.sure hstate⟩, fun _ => rfl⟩
  | asleep =>
      rw [hpc] at h
      dsimp only
      split
      · rename_i hq
        exact ⟨hq, h.1⟩
      · unfold Inv
        rw [hpc]
        exact h
  | woken =>
      rw [hpc] at h
      exact h
  | dropHash =>
      rw [hpc] at h
      exact h
  | waitClear =>
      rw [hpc] at h
      exact h
  | run =>
      rw [hpc] at h
      exact h
  | returned =>
      rw [hpc] at h
      unfold Inv
      rw [hpc]
      exact h

theorem reached_inv (h : Reached wq x s) : Inv wq x s := by
  induction h with
  | @start s h =>
      obtain ⟨hpc, _, hq, _, hresult⟩ := h
      have hcount : s.count = 0 := by
        unfold State.count
        rw [hresult]
        rfl
      unfold Inv
      rw [hpc]
      cases x.refused with
      | true => exact hq
      | false => exact ⟨hq, hcount⟩
  | own _ late ih => exact own_inv ih
  | act _ a hseen ih => exact act_inv ih hseen

theorem checks_not_ready (h : Reached wq x s) (hasleep : s.queued = false) :
    ∀ c ∈ x.checks, ¬ s.Ready c := by
  have hinv := reached_inv h
  unfold Inv at hinv
  have hpc : s.pc = .asleep := by
    cases hpc : s.pc with
    | asleep => rfl
    | again | clearHash | waitSet | woken | test _ | note _ _ | decide | schedule =>
        rw [hpc] at hinv
        rw [hinv.1] at hasleep
        cases hasleep
    | dropHash | waitClear | run | returned =>
        rw [hpc] at hinv
        rw [hinv] at hasleep
        cases hasleep
  rw [hpc] at hinv
  obtain ⟨hcount, hw, hsleeps⟩ := hinv
  rintro c hc ⟨t, q, ht, hpass⟩
  rw [(hw.sure (hsleeps hasleep) hcount c hc t q ht).1] at hpass
  cases hpass

/-- A task that sleeps in `do_select` has no requested descriptor below 16 that is ready,
if no readiness is missed between a test and the note that follows it. -/
theorem select_sleeps (h : Reached wq x s) (hasleep : s.queued = false)
    (hc : x.Requests c) (hfd : c.fd < 16) : ¬ s.Ready c :=
  checks_not_ready h hasleep c (hc.tested hfd)

end Steps

section Runs

/-- `select` of one terminal for reading. -/
def keyboard : Selection where
  n := 1
  fds _ := some (.tty 0)
  inp := 1
  out := 0
  ex := 0
  le_open := by decide

/-- A task that begins, with all queues empty. -/
def beginning : State where
  queue _ := { buf := fun _ => 0, size := 64, tail := 0, len := 0 }
  pc := .again
  state := .running
  queued := true
  waiting := false
  pollhash := 0
  timeout := true
  signal := false
  result := []

theorem beginning_starts : beginning.Starts keyboard := by
  exact ⟨rfl, rfl, rfl, rfl, rfl⟩

/-- Some steps of `do_select` before the time is out. -/
def State.owns (wq : Wq) (x : Selection) : Nat → State → State
  | 0, s => s
  | n + 1, s => State.owns wq x n (s.own wq x false)

theorem owns_reached {wq : Wq} {x : Selection} {s : State} (n : Nat) (h : Reached wq x s) :
    Reached wq x (s.owns wq x n) := by
  induction n generalizing s with
  | zero => exact h
  | succ n ih => exact ih (.own h false)

theorem keyboard_requests : keyboard.Requests ⟨0, .tty 0, .selIn⟩ :=
  ⟨by decide, by decide, rfl⟩

theorem select_sleeps_idle :
    (beginning.owns (fun _ => 0) keyboard 8).queued = false ∧
      ¬ (beginning.owns (fun _ => 0) keyboard 8).Ready ⟨0, .tty 0, .selIn⟩ :=
  ⟨by decide, select_sleeps (owns_reached 8 (.start beginning_starts)) (by decide)
    keyboard_requests (by decide)⟩

/-- A key that is hit between the test and the note: the task sleeps on with something
to read. -/
theorem key_missed :
    beginning.Starts keyboard ∧
      ∃ s, s = (((beginning.owns (fun _ => 0) keyboard 4).act (fun _ => 0)
          (.addch (.inq 0) 97)).owns (fun _ => 0) keyboard 4) ∧
        s.queued = false ∧ s.own (fun _ => 0) keyboard true = s ∧
        ∃ c, keyboard.Requests c ∧ s.Ready c :=
  ⟨beginning_starts, _, rfl, rfl, rfl, _, keyboard_requests, .peekch, .inq 0, rfl, rfl⟩

end Runs

end Tty
end Elks
