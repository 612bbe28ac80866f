import Elks.Lib.Loop
import Elks.Signals.DoSignal

/-!
# Process identifiers (kernel/fork.c)

`get_pid` counts `last_pid` up, from 32767 on to 1, until no slot of the table has the
number as its `pid`, `pgrp` or `session`.  It looks at the slots that are not in use as
well.

A table goes from one state to the next by `do_fork`, with or without memory for the
child, by the end of `do_exit`, by `sys_setsid`, by signals, which may go to slots that are
not in use, and by whatever else is written to the other fields of a live task.

**Results.**
* `getPid_fresh`: after at most forty-six rounds `get_pid` returns a number from 1 to 32767
  that no slot has;
* `getPid_run`: so every `do_fork` comes back, and over any run no two live tasks have the
  same `pid`.
-/

namespace Elks
namespace Pids

open Lib Sched

/-- `struct task_struct`: the fields of the scheduler and the signals, and those that say
whose the task is.  A `pid_t` is a word of sixteen bits. -/
structure Proc extends Sched.Task where
  ppid : Nat
  pgrp : Nat
  session : Nat
  uid : Nat
  euid : Nat
  suid : Nat

/-- `task`, and `last_pid`. -/
structure Procs where
  task : TaskRef → Proc
  lastPid : Nat

/-- `++last_pid`, and 1 where the low fifteen bits are zero. -/
def nextPid (last : Nat) : Nat :=
  if wrap 16 (last + 1) &&& 0x7fff = 0 then 1 else wrap 16 (last + 1)

/-- Some slot has the number. -/
def pidTaken (task : TaskRef → Proc) (n : Nat) : Bool :=
  (List.finRange maxTasks).any fun t =>
    (task t).pid = n ∨ (task t).pgrp = n ∨ (task t).session = n

/-- A round of `get_pid`, from `repeat` on. -/
def getPidRound (task : TaskRef → Proc) (last : Nat) : Nat ⊕ Nat :=
  probe nextPid (pidTaken task) last

/-- The rounds that `get_pid` may need. -/
def pidRounds : Nat :=
  3 * maxTasks + 1

/-- `get_pid`. -/
def getPid (s : Procs) : Option Nat :=
  loop (getPidRound s.task) pidRounds s.lastPid

/-- The numbers that the slots have. -/
def pidsOf (task : TaskRef → Proc) : Finset Nat :=
  Finset.univ.image (fun t => (task t).pid) ∪
    (Finset.univ.image (fun t => (task t).pgrp) ∪
      Finset.univ.image fun t => (task t).session)

/-- `find_empty_process`. -/
def Procs.findEmptyProcess (s : Procs) (c : TaskRef) : Option TaskRef :=
  let unused := (List.finRange maxTasks).filter fun t => (s.task t).state = .unused
  if unused.length ≤ 1 ∧ (unused.length = 0 ∨ (s.task c).uid ≠ 0) then
    none
  else
    unused.getLast?

/-- A slot is given new fields. -/
def Procs.set (s : Procs) (t : TaskRef) (p : Proc) : Procs :=
  { s with task := Function.update s.task t p }

/-- `do_fork`, without a child where it returns an error; `memory` says whether
`mm_dup` finds a segment.  There is no result if `get_pid` does not return. -/
def Procs.doFork (s : Procs) (c : TaskRef) (memory : Bool) : Option (Procs × Option TaskRef) :=
  match s.findEmptyProcess c with
  | none => some (s, none)
  | some t =>
      let s₁ := s.set t (s.task c)
      if memory then
        let s₂ := s₁.set t { s₁.task t with state := .uninterruptible }
        match getPid s₂ with
        | none => none
        | some r =>
            some ({ s₂ with lastPid := r }.set t
              { s₂.task t with pid := r, ppid := (s₂.task c).pid, state := .running }, some t)
      else
        some (s₁.set t { s₁.task t with state := .unused }, none)

/-- `sys_setsid`. -/
def Procs.sysSetsid (s : Procs) (c : TaskRef) : Procs :=
  if (s.task c).session = (s.task c).pid then
    s
  else
    s.set c { s.task c with session := (s.task c).pid, pgrp := (s.task c).pid }

/-- `send_sig` to a slot, once the sender may. -/
def Procs.signal (s : Procs) (t : TaskRef) (sig : Fin nsig) : Procs :=
  s.set t { s.task t with toTask := Signals.sendSig (s.task t).toTask sig }

/-- What may happen to the table: `do_fork`, the end of `do_exit`, `sys_setsid`, a signal,
and other writes to the fields of a live task. -/
inductive TableEvent
  | fork (c : TaskRef) (memory : Bool)
  | exit (c : TaskRef)
  | setsid (c : TaskRef)
  | signal (t : TaskRef) (sig : Fin nsig)
  | write (t : TaskRef) (p : Proc)

/-- Other code leaves the identity of a task alone, and does not end it. -/
def Procs.Writes (s : Procs) (t : TaskRef) (p : Proc) : Prop :=
  p.pid = (s.task t).pid ∧ p.ppid = (s.task t).ppid ∧ p.pgrp = (s.task t).pgrp ∧
    p.session = (s.task t).session ∧ p.state ≠ .unused

/-- What an event leads to; the calls are those of a live task. -/
inductive TableStep (s : Procs) : TableEvent → Procs → Prop
  | fork {c : TaskRef} {memory : Bool} {s' : Procs} {t : Option TaskRef}
      (hc : (s.task c).state ≠ .unused) (h : s.doFork c memory = some (s', t)) :
      TableStep s (.fork c memory) s'
  | exit {c : TaskRef} (hc : (s.task c).state ≠ .unused) :
      TableStep s (.exit c) (s.set c { s.task c with state := .unused })
  | setsid {c : TaskRef} (hc : (s.task c).state ≠ .unused) :
      TableStep s (.setsid c) (s.sysSetsid c)
  | signal (t : TaskRef) (sig : Fin nsig) : TableStep s (.signal t sig) (s.signal t sig)
  | write {t : TaskRef} {p : Proc} (ht : (s.task t).state ≠ .unused) (hp : s.Writes t p) :
      TableStep s (.write t p) (s.set t p)

/-- A run of events. -/
inductive TableRun : Procs → List TableEvent → Procs → Prop
  | done (s : Procs) : TableRun s [] s
  | step {s s' u : Procs} {e : TableEvent} {es : List TableEvent}
      (hs : TableStep s e u) (hrest : TableRun u es s') : TableRun s (e :: es) s'

/-- No two live tasks have the same `pid`. -/
def Distinct (s : Procs) : Prop :=
  ∀ t u, (s.task t).state ≠ .unused → (s.task u).state ≠ .unused →
    (s.task t).pid = (s.task u).pid → t = u

section Numbers

variable {task : TaskRef → Proc} {s s' u : Procs} {n last r : Nat} {t u' c : TaskRef}
  {e : TableEvent} {es : List TableEvent}

theorem pidTaken_eq_false :
    pidTaken task n = false ↔
      ∀ t, (task t).pid ≠ n ∧ (task t).pgrp ≠ n ∧ (task t).session ≠ n := by
  simp [pidTaken, not_or]

theorem pidTaken_of_notMem (h : n ∉ pidsOf task) : pidTaken task n = false := by
  rw [pidTaken_eq_false]
  simpa [pidsOf, not_or, forall_and] using h

theorem card_pidsOf : (pidsOf task).card < pidRounds := by
  have himage : ∀ f : TaskRef → Nat, (Finset.univ.image f).card ≤ maxTasks := by
    intro f
    exact Finset.card_image_le.trans (by simp)
  have hunion := Finset.card_union_le (Finset.univ.image fun t => (task t).pid)
    (Finset.univ.image (fun t => (task t).pgrp) ∪ Finset.univ.image fun t => (task t).session)
  have hunion' := Finset.card_union_le (Finset.univ.image fun t => (task t).pgrp)
    (Finset.univ.image fun t => (task t).session)
  have h₁ := himage fun t => (task t).pid
  have h₂ := himage fun t => (task t).pgrp
  have h₃ := himage fun t => (task t).session
  unfold pidsOf pidRounds
  omega

theorem nextPid_eq (h : last ≤ 32767) : nextPid last = last % 32767 + 1 := by
  have hmask : ∀ m : Nat, m &&& 0x7fff = m % 32768 := fun m =>
    Nat.and_two_pow_sub_one_eq_mod m 15
  unfold nextPid wrap
  rw [hmask]
  split <;> omega

theorem nextPid_iterate (h : last ≤ 32767) (k : Nat) :
    nextPid^[k + 1] last = (last + k) % 32767 + 1 := by
  induction k with
  | zero => exact nextPid_eq h
  | succ k ih =>
      rw [Function.iterate_succ_apply', ih, nextPid_eq (by omega)]
      omega

theorem getPid_fresh (s : Procs) (h : s.lastPid ≤ 32767) :
    ∃ r, getPid s = some r ∧ 1 ≤ r ∧ r ≤ 32767 ∧
      ∀ t, (s.task t).pid ≠ r ∧ (s.task t).pgrp ≠ r ∧ (s.task t).session ≠ r := by
  have hinj : ∀ i < pidRounds, ∀ j < pidRounds,
      nextPid^[i + 1] s.lastPid = nextPid^[j + 1] s.lastPid → i = j := by
    intro i hi j hj hij
    rw [nextPid_iterate h, nextPid_iterate h] at hij
    have hrounds : pidRounds = 46 := rfl
    omega
  obtain ⟨k, hk, hfree⟩ := exists_free hinj (@card_pidsOf s.task)
  obtain ⟨r, hr, hr', j, _, rfl⟩ := loop_probe (pidTaken_of_notMem hfree)
  refine ⟨_, loop_mono hr hk, ?_, ?_, pidTaken_eq_false.mp hr'⟩
  · rw [nextPid_iterate h]
    omega
  · rw [nextPid_iterate h]
    omega

@[simp] theorem set_same {p : Proc} : (s.set t p).task t = p := by
  simp [Procs.set]

theorem set_other {p : Proc} (h : u' ≠ t) : (s.set t p).task u' = s.task u' := by
  simp [Procs.set, h]

theorem Distinct.place {p : Proc} (h : Distinct s)
    (hfree : p.state ≠ .unused → ∀ x, x ≠ t → (s.task x).state ≠ .unused →
      (s.task x).pid ≠ p.pid) :
    Distinct (s.set t p) := by
  intro x y hx hy hxy
  by_cases hxt : x = t
  · by_cases hyt : y = t
    · rw [hxt, hyt]
    · subst hxt
      rw [set_same] at hx hxy
      rw [set_other hyt] at hy hxy
      exact absurd hxy.symm (hfree hx y hyt hy)
  · rw [set_other hxt] at hx hxy
    by_cases hyt : y = t
    · subst hyt
      rw [set_same] at hy hxy
      exact absurd hxy (hfree hy x hxt hx)
    · rw [set_other hyt] at hy hxy
      exact h x y hx hy hxy

/-- A slot that keeps its `pid`, and is live only if it was, shares it with none. -/
theorem Distinct.keep {p : Proc} (h : Distinct s) (hpid : p.pid = (s.task t).pid)
    (hlive : p.state ≠ .unused → (s.task t).state ≠ .unused) : Distinct (s.set t p) := by
  refine h.place fun hp x hxt hx heq => hxt ?_
  rw [hpid] at heq
  exact h x t hx (hlive hp) heq

theorem findEmptyProcess_unused (h : s.findEmptyProcess c = some t) :
    (s.task t).state = .unused := by
  unfold Procs.findEmptyProcess at h
  dsimp only at h
  split at h
  · cases h
  · have hmem := List.mem_of_getLast? h
    simpa using (List.mem_filter.mp hmem).2

@[simp] theorem set_set {p q : Proc} : (s.set t p).set t q = s.set t q := by
  simp [Procs.set]

theorem doFork_spec (hlast : s.lastPid ≤ 32767) (hc : (s.task c).state ≠ .unused) (memory : Bool) :
    s.doFork c memory = some (s, none) ∨
    ∃ t, (s.task t).state = .unused ∧
      (s.doFork c memory = some (s.set t { s.task c with state := .unused }, none) ∨
      ∃ r, r ≤ 32767 ∧ (∀ x, x ≠ t → (s.task x).pid ≠ r) ∧
        s.doFork c memory = some ({ s with lastPid := r }.set t
          { s.task c with pid := r, ppid := (s.task c).pid, state := .running }, some t)) := by
  unfold Procs.doFork
  cases hempty : s.findEmptyProcess c with
  | none => exact Or.inl rfl
  | some t =>
      have ht := findEmptyProcess_unused hempty
      have hct : c ≠ t := by
        rintro rfl
        exact hc ht
      refine Or.inr ⟨t, ht, ?_⟩
      cases memory with
      | false =>
          left
          simp
      | true =>
          right
          obtain ⟨r, hr, _, hle, hfree⟩ := getPid_fresh
            (s.set t { s.task c with state := .uninterruptible }) hlast
          refine ⟨r, hle, fun x hx => ?_, ?_⟩
          · have hx' := (hfree x).1
            rwa [set_other hx] at hx'
          · simp only [if_true, set_same, set_set, hr, set_other hct]
            simp [Procs.set]

/-- Distinct numbers, and a counter that has not wrapped round. -/
structure Numbered (s : Procs) : Prop where
  distinct : Distinct s
  last : s.lastPid ≤ 32767

theorem Numbered.step (h : Numbered s) (hstep : TableStep s e u) : Numbered u := by
  cases hstep with
  | @fork c memory _ t hc hfork =>
      rcases doFork_spec h.last hc memory with hsame | ⟨t', ht', hsome⟩
      · rw [hsame] at hfork
        obtain ⟨rfl, _⟩ := Prod.mk.inj (Option.some.inj hfork)
        exact h
      · rcases hsome with hnone | ⟨r, hle, hfree, hchild⟩
        · rw [hnone] at hfork
          obtain ⟨rfl, _⟩ := Prod.mk.inj (Option.some.inj hfork)
          exact ⟨h.distinct.place fun hne => absurd rfl hne, h.last⟩
        · rw [hchild] at hfork
          obtain ⟨rfl, _⟩ := Prod.mk.inj (Option.some.inj hfork)
          have hdistinct : Distinct { s with lastPid := r } := h.distinct
          exact ⟨hdistinct.place fun _ x hx _ => hfree x hx, hle⟩
  | exit hc => exact ⟨h.distinct.keep rfl (fun hne => absurd rfl hne), h.last⟩
  | @setsid c hc =>
      unfold Procs.sysSetsid
      split
      · exact h
      · exact ⟨h.distinct.keep rfl id, h.last⟩
  | signal t sig =>
      exact ⟨h.distinct.keep Signals.sendSig_pid (mt Signals.sendSig_unused.mpr), h.last⟩
  | write ht hp => exact ⟨h.distinct.keep hp.1 fun _ => ht, h.last⟩

theorem Numbered.run (h : Numbered s) (hrun : TableRun s es s') : Numbered s' := by
  induction hrun with
  | done => exact h
  | step hstep _ ih => exact ih (h.step hstep)

/-- `get_pid` comes back with a fresh number, whatever the table holds; and over any run
every `do_fork` comes back, and no two live tasks have the same `pid`. -/
theorem getPid_run (s : Procs) (h : s.lastPid ≤ 32767) :
    (∃ r, getPid s = some r ∧ 1 ≤ r ∧ r ≤ 32767 ∧
      ∀ t, (s.task t).pid ≠ r ∧ (s.task t).pgrp ≠ r ∧ (s.task t).session ≠ r) ∧
    (Distinct s → ∀ es s', TableRun s es s' → Distinct s' ∧
      ∀ c memory, (s'.task c).state ≠ .unused → ∃ r, s'.doFork c memory = some r) := by
  refine ⟨getPid_fresh s h, fun hdistinct es s' hrun => ?_⟩
  have hs' : Numbered s' := Numbered.run ⟨hdistinct, h⟩ hrun
  refine ⟨hs'.distinct, fun c memory hc => ?_⟩
  rcases doFork_spec hs'.last hc memory with hsame | ⟨t, _, hnone | ⟨r, _, _, hchild⟩⟩
  · exact ⟨_, hsame⟩
  · exact ⟨_, hnone⟩
  · exact ⟨_, hchild⟩

/-- A slot after `memset`. -/
def Proc.zero (state : TaskState) (pid : Nat) : Proc :=
  { toTask := { Sched.Task.zero state with pid := pid }
    ppid := 0
    pgrp := 0
    session := 0
    uid := 0
    euid := 0
    suid := 0 }

/-- The idle task, and `init` with the first number. -/
def startProcs : Procs where
  task := fun t =>
    if t = 0 then .zero .running 0 else if t = 1 then .zero .running 1 else .zero .unused 0
  lastPid := 1

theorem startProcs_distinct : Distinct startProcs := by
  unfold Distinct
  decide

/-- `init` begins a session and forks: the child has the next number. -/
theorem getPid_run_start :
    (∃ r, getPid startProcs = some r ∧ 1 ≤ r ∧ r ≤ 32767 ∧
      ∀ t, (startProcs.task t).pid ≠ r ∧ (startProcs.task t).pgrp ≠ r ∧
        (startProcs.task t).session ≠ r) ∧
    ∃ s' t, TableRun startProcs [.setsid 1, .fork 1 true] s' ∧ (s'.task t).pid = 2 ∧
      Distinct s' := by
  have hboth := getPid_run startProcs (by decide)
  have hforks : (((startProcs.sysSetsid 1).doFork 1 true).any fun r =>
      r.2.any fun t => (r.1.task t).pid == 2) = true := by
    decide +kernel
  obtain ⟨⟨s', child⟩, hfork, hchild⟩ := (Option.any_eq_true _ _).mp hforks
  obtain ⟨t, rfl, hpid⟩ := (Option.any_eq_true _ _).mp hchild
  have hrun : TableRun startProcs [.setsid 1, .fork 1 true] s' :=
    .step (.setsid (by decide)) (.step (.fork (by decide) hfork) (.done s'))
  exact ⟨hboth.1, s', t, hrun, eq_of_beq hpid, (hboth.2 startProcs_distinct _ _ hrun).1⟩

end Numbers

end Pids
end Elks
