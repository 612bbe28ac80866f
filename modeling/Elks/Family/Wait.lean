import Elks.Family.Tree

/-!
# Waiting for children (exit.c, signal.c)

A child that exits or stops writes its pid and its status into one slot of its
parent, and `sys_wait4` takes them out.  What has happened is recorded beside the
tasks, with a number for every process, since slots and pids are used again.

**Result.**  `wait_accounts`: as long as no process exits before its children, what
`sys_wait4` returns are reports of the caller's own children, none twice, and each
time the last one if that has not been returned.
-/

namespace Elks
namespace Family

open Lib
open Sched (TaskRef maxTasks)
open Function (update update_of_ne update_self)

def eintr : Int := 4
def efault : Int := 14

/-- What a process tells its parent. -/
structure Report where
  child : Nat
  pid : Nat
  status : Int
  exits : Bool
deriving DecidableEq

/-- What has happened; processes are numbers here. -/
inductive Event
  | forked (parent child pid : Nat)
  | told (parent : Nat) (r : Report)
  | waited (caller : Nat) (value status : Int)
deriving DecidableEq

/-- A task in `sys_wait4`, or in `do_exit` with its inodes, where it may sleep. -/
inductive Phase
  | asleep
  | woken
  | exiting
deriving DecidableEq

/-- After a `wake_up` of `child_wait`. -/
def Phase.wake : Phase → Phase
  | .asleep => .woken
  | p => p

/-- The tasks, which of them are in `sys_wait4` or in `do_exit`, and what has happened, the
last thing first. -/
structure Sys where
  kernel : State
  waiting : TaskRef → Option Phase
  birth : TaskRef → Nat
  births : Nat
  history : List Event

/-- What a task does; `good` says that the status pointer of `sys_wait4` may be
written through. -/
inductive Deed
  | fork (c : TaskRef) (root memory : Bool) (pid : Nat)
  | exit (c : TaskRef) (status : Int)
  | endExit (c : TaskRef)
  | stop (c : TaskRef) (sig : Nat)
  | wait (c : TaskRef) (nohang good : Bool)
  /-- A signal or another `wake_up` of the queue. -/
  | wake (c : TaskRef)
  | resume (c : TaskRef) (good : Bool)

section Code

variable (s : Sys)

/-- The part of `do_signal` that lets the parent know of a stop. -/
def State.stop (s : State) (c : TaskRef) (sig : Nat) : State :=
  match s.pParent c with
  | none => { s with nullPointer := true }
  | some q =>
      { s with
        childLastend := update s.childLastend q (s.pid c)
        lastendStatus := update s.lastendStatus q sig }

/-- `sys_wait4` behind its sleep. -/
def Sys.finishWait (c : TaskRef) (good : Bool) : Sys :=
  let s := { s with waiting := update s.waiting c none }
  let lastend := s.kernel.childLastend c
  let status := s.kernel.lastendStatus c
  if lastend ≠ 0 then
    if good then
      { s with
        kernel := { s.kernel with
          childLastend := update s.kernel.childLastend c 0 }
        history := .waited (s.birth c) lastend status :: s.history }
    else
      { s with history := .waited (s.birth c) (-efault) 0 :: s.history }
  else
    { s with history := .waited (s.birth c) (-eintr) 0 :: s.history }

/-- `sys_wait4`. -/
def Sys.wait4 (c : TaskRef) (nohang good : Bool) : Sys :=
  if ¬ (nohang = true ∨ s.kernel.childLastend c ≠ 0) then
    { s with waiting := update s.waiting c (some .asleep) }
  else
    s.finishWait c good

/-- Who sleeps in `sys_wait4` is woken. -/
def Sys.wakeUp (q : TaskRef) : Sys :=
  { s with
    waiting := update s.waiting q ((s.waiting q).map Phase.wake) }

/-- A report of `c` to its parent. -/
def Sys.tell (c : TaskRef) (status : Int) (exits : Bool) : List Event :=
  match s.kernel.pParent c with
  | none => s.history
  | some q => .told (s.birth q) ⟨s.birth c, s.kernel.pid c, status, exits⟩ :: s.history

/-- `do_exit` of a task, up to its inodes. -/
def Sys.exit (c : TaskRef) (status : Int) : Sys :=
  match s.kernel.pParent c with
  | none => { s with kernel := s.kernel.leaveFamily c status }
  | some _ =>
      { s with
        kernel := s.kernel.leaveFamily c status
        waiting := update s.waiting c (some .exiting)
        history := s.tell c status true }

/-- The end of `do_exit`: the slot is free, and the parent is woken. -/
def Sys.endExit (c : TaskRef) : Sys :=
  let t : Sys :=
    { s with
      kernel := s.kernel.free c
      waiting := update s.waiting c none }
  match s.kernel.pParent c with
  | none => t
  | some q => t.wakeUp q

/-- `do_fork`. -/
def Sys.fork (c : TaskRef) (root memory : Bool) (pid : Nat) : Sys :=
  let r := s.kernel.doFork c root memory pid
  match r.2.2 with
  | none => { s with kernel := r.1 }
  | some t =>
      { kernel := r.1
        waiting := update s.waiting t none
        birth := update s.birth t s.births
        births := s.births + 1
        history := .forked (s.birth c) s.births pid :: s.history }

/-- What happens next: nothing comes behind a `NULL` that was followed, and a task
that sleeps or exits does not call.  `get_pid` returns a positive number. -/
def Sys.step : Deed → Option Sys
  | .fork c root memory pid =>
      if s.kernel.nullPointer = false ∧ s.kernel.unused c = false ∧ s.waiting c = none ∧
          0 < pid then
        some (s.fork c root memory pid)
      else
        none
  | .exit c status =>
      if s.kernel.nullPointer = false ∧ s.kernel.unused c = false ∧
          s.waiting c ≠ some .exiting then
        some (s.exit c status)
      else
        none
  | .endExit c =>
      if s.kernel.nullPointer = false ∧ s.waiting c = some .exiting then
        some (s.endExit c)
      else
        none
  | .stop c sig =>
      if s.kernel.nullPointer = false ∧ s.kernel.unused c = false ∧
          s.waiting c ≠ some .exiting ∧ s.kernel.pid c ≠ 1 then
        some { s with kernel := s.kernel.stop c sig, history := s.tell c sig false }
      else
        none
  | .wait c nohang good =>
      if s.kernel.nullPointer = false ∧ s.kernel.unused c = false ∧ s.waiting c = none then
        some (s.wait4 c nohang good)
      else
        none
  | .wake c => if s.waiting c = some .asleep then some (s.wakeUp c) else none
  | .resume c good =>
      if s.kernel.nullPointer = false ∧ s.waiting c = some .woken then
        some (s.finishWait c good)
      else
        none

end Code

/-- The idle task and `init`, with the numbers 0 and 1. -/
def Sys.start : Sys where
  kernel := Family.start
  waiting _ := none
  birth t := t
  births := maxTasks
  history := []

/-- No process exits before its children. -/
def Sys.Allows (s : Sys) : Deed → Prop
  | .exit c _ => ∀ i, s.kernel.unused i = false → s.kernel.pParent i ≠ some c
  | _ => True

instance {s : Sys} {d : Deed} : Decidable (s.Allows d) :=
  match d with
  | .fork _ _ _ _ => .isTrue trivial
  | .exit c _ =>
      inferInstanceAs (Decidable (∀ i, s.kernel.unused i = false → s.kernel.pParent i ≠ some c))
  | .endExit _ => .isTrue trivial
  | .stop _ _ => .isTrue trivial
  | .wait _ _ _ => .isTrue trivial
  | .wake _ => .isTrue trivial
  | .resume _ _ => .isTrue trivial

/-- The systems that runs lead to in which no process exits before its children. -/
inductive Reached : Sys → Prop
  | start : Reached Sys.start
  | step {s s' : Sys} {d : Deed} (h : Reached s) (ha : s.Allows d) (hs : s.step d = some s') :
      Reached s'

/-- The last report to process `b`, if it has not been returned. -/
def pending (b : Nat) : List Event → Option Report
  | [] => none
  | .forked _ _ _ :: h => pending b h
  | .told parent r :: h => if parent = b then some r else pending b h
  | .waited caller value _ :: h => if caller = b ∧ 0 < value then none else pending b h

/-- What has been reported to process `b`, the last thing first. -/
def reportsTo (b : Nat) : List Event → List (Int × Int)
  | [] => []
  | .told parent r :: h =>
      if parent = b then ((r.pid : Int), r.status) :: reportsTo b h else reportsTo b h
  | _ :: h => reportsTo b h

/-- The pids that `sys_wait4` has returned to process `b`, with the status. -/
def returnsTo (b : Nat) : List Event → List (Int × Int)
  | [] => []
  | .waited caller value status :: h =>
      if caller = b ∧ 0 < value then (value, status) :: returnsTo b h else returnsTo b h
  | _ :: h => returnsTo b h

/-- How often process `b` has exited. -/
def exitsOf (b : Nat) : List Event → Nat
  | [] => 0
  | .told _ r :: h => if r.child = b ∧ r.exits then exitsOf b h + 1 else exitsOf b h
  | _ :: h => exitsOf b h

section Kernel

variable {s : State} {c q p : TaskRef} {root memory : Bool} {pid : Nat} {status : Int}

theorem leaveFamily_told (status : Int) (hq : s.pParent c = some q) :
    (s.leaveFamily c status).unused = s.unused ∧
    (s.leaveFamily c status).pParent = s.pParent ∧ (s.leaveFamily c status).pid = s.pid ∧
    (s.leaveFamily c status).childLastend = update s.childLastend q (s.pid c) ∧
    (s.leaveFamily c status).lastendStatus = update s.lastendStatus q status := by
  unfold State.leaveFamily State.leaveParent State.leaveSiblings
  dsimp only
  rw [setPrevsib_eq, setNextsib_eq]
  simp only [hq]
  split
  · split
    · exact ⟨rfl, rfl, rfl, rfl, rfl⟩
    · exact ⟨rfl, rfl, rfl, rfl, rfl⟩
  · exact ⟨rfl, rfl, rfl, rfl, rfl⟩

theorem leaveFamily_orphan (status : Int) (hq : s.pParent c = none) :
    ∃ prevsib nextsib, s.leaveFamily c status =
      { s with pPrevsib := prevsib, pNextsib := nextsib, nullPointer := true } := by
  unfold State.leaveFamily State.leaveSiblings
  dsimp only
  rw [setPrevsib_eq, setNextsib_eq]
  simp only [hq]
  exact ⟨_, _, rfl⟩

end Kernel

section History

variable {b n parent caller : Nat} {h : List Event} {r : Report} {value status : Int}
  {e : Event}

/-- The processes of an event are numbered below `n`. -/
def Event.Below (n : Nat) : Event → Prop
  | .forked parent child _ => parent < n ∧ child < n
  | .told parent r => parent < n ∧ r.child < n
  | .waited caller _ _ => caller < n

theorem Event.Below.mono {m : Nat} (he : e.Below n) (hnm : n ≤ m) : e.Below m := by
  cases e with
  | forked parent child pid => exact ⟨lt_of_lt_of_le he.1 hnm, lt_of_lt_of_le he.2 hnm⟩
  | told parent r => exact ⟨lt_of_lt_of_le he.1 hnm, lt_of_lt_of_le he.2 hnm⟩
  | waited caller value status => exact lt_of_lt_of_le he hnm

theorem pending_new (hh : ∀ e ∈ h, e.Below n) : pending n h = none ∧ exitsOf n h = 0 := by
  induction h with
  | nil => exact ⟨rfl, rfl⟩
  | cons e h ih =>
      obtain ⟨hpending, hexits⟩ := ih fun e he => hh e (List.mem_cons_of_mem _ he)
      have he := hh e List.mem_cons_self
      cases e with
      | forked parent child pid => exact ⟨hpending, hexits⟩
      | told parent r =>
          unfold pending exitsOf
          rw [if_neg (Nat.ne_of_lt he.1), if_neg fun hboth => Nat.ne_of_lt he.2 hboth.1]
          exact ⟨hpending, hexits⟩
      | waited caller value status =>
          have hne : caller ≠ n := Nat.ne_of_lt he
          unfold pending exitsOf
          rw [if_neg fun hboth => hne hboth.1]
          exact ⟨hpending, hexits⟩

/-- What has been returned to a process are reports, each at most once, and not the
one that is pending. -/
def Paired (b : Nat) (h : List Event) : Prop :=
  match pending b h with
  | none => (returnsTo b h).Sublist (reportsTo b h)
  | some r => ∃ rest, reportsTo b h = ((r.pid : Int), r.status) :: rest ∧ (returnsTo b h).Sublist rest

theorem Paired.sublist (hp : Paired b h) : (returnsTo b h).Sublist (reportsTo b h) := by
  unfold Paired at hp
  cases hpending : pending b h with
  | none =>
      rw [hpending] at hp
      exact hp
  | some r =>
      rw [hpending] at hp
      obtain ⟨rest, hrest, hsub⟩ := hp
      rw [hrest]
      exact hsub.cons _

theorem Paired.told (hp : Paired b h) : Paired b (.told parent r :: h) := by
  have hsub := hp.sublist
  unfold Paired at hp ⊢
  simp only [pending, reportsTo, returnsTo]
  by_cases hb : parent = b
  · simp only [if_pos hb]
    exact ⟨_, rfl, hsub⟩
  · simp only [if_neg hb]
    exact hp

theorem Paired.waited (hp : Paired b h)
    (hvalue : caller = b → 0 < value →
      ∃ r, pending b h = some r ∧ value = r.pid ∧ status = r.status) :
    Paired b (.waited caller value status :: h) := by
  unfold Paired at hp ⊢
  simp only [pending, reportsTo, returnsTo]
  by_cases hb : caller = b ∧ 0 < value
  · obtain ⟨r, hpending, rfl, rfl⟩ := hvalue hb.1 hb.2
    rw [hpending] at hp
    obtain ⟨rest, hrest, hsub⟩ := hp
    simp only [if_pos hb]
    rw [hrest]
    exact hsub.cons_cons _
  · simp only [if_neg hb]
    exact hp

end History

section Accounts

variable {s s' : Sys} {c q t : TaskRef} {b : Nat} {status : Int} {good nohang : Bool}
  {r : Report} {d : Deed}

/-- The slot of a task holds the report that is pending. -/
def Sys.Holds (s : Sys) (q : TaskRef) : Prop :=
  match pending (s.birth q) s.history with
  | none => s.kernel.childLastend q = 0
  | some r => s.kernel.childLastend q = r.pid ∧ 0 < r.pid ∧ s.kernel.lastendStatus q = r.status

/-- The child of `q` that the report is about is still in `do_exit`. -/
def Sys.Exiting (s : Sys) (q : TaskRef) (r : Report) : Prop :=
  ∃ c, s.waiting c = some .exiting ∧ s.kernel.pParent c = some q ∧ s.birth c = r.child

/-- The invariant of the runs. -/
structure Accounts (s : Sys) : Prop where
  older : ∀ e ∈ s.history, e.Below s.births
  birth : ∀ t, s.birth t < s.births
  distinct : ∀ t u, s.kernel.unused t = false → s.kernel.unused u = false →
    s.birth t = s.birth u → t = u
  parents : ∀ c q, s.kernel.unused c = false → s.kernel.pParent c = some q →
    s.kernel.unused q = false ∧ q ≠ c ∧ 0 < s.kernel.pid c ∧
      .forked (s.birth q) (s.birth c) (s.kernel.pid c) ∈ s.history
  slot : ∀ q, s.kernel.unused q = false → s.Holds q
  asleep : ∀ q, s.waiting q = some .asleep → s.kernel.unused q = false ∧
    ∀ r, pending (s.birth q) s.history = some r → r.exits → s.Exiting q r
  woken : ∀ q, s.waiting q = some .woken → s.kernel.unused q = false
  exiting : ∀ c, s.waiting c = some .exiting → s.kernel.unused c = false ∧
    ∀ i, s.kernel.unused i = false → s.kernel.pParent i ≠ some c
  paired : ∀ b, Paired b s.history
  children : ∀ b r, .told b r ∈ s.history → .forked b r.child r.pid ∈ s.history
  once : ∀ b, exitsOf b s.history ≤ 1
  living : ∀ t, s.kernel.unused t = false → s.waiting t ≠ some .exiting →
    exitsOf (s.birth t) s.history = 0

theorem Sys.Holds.congr (h : s.Holds q) (hbirth : s'.birth q = s.birth q)
    (hpending : pending (s.birth q) s'.history = pending (s.birth q) s.history)
    (hlastend : s'.kernel.childLastend q = s.kernel.childLastend q)
    (hstatus : s'.kernel.lastendStatus q = s.kernel.lastendStatus q) : s'.Holds q := by
  unfold Sys.Holds at h ⊢
  rw [hbirth, hpending, hlastend, hstatus]
  exact h

theorem Sys.Exiting.congr (h : s.Exiting q r)
    (hsame : ∀ c, s.waiting c = some .exiting → s.kernel.pParent c = some q →
      s'.waiting c = some .exiting ∧ s'.kernel.pParent c = some q ∧ s'.birth c = s.birth c) :
    s'.Exiting q r := by
  obtain ⟨c, hc, hq, hbirth⟩ := h
  obtain ⟨hc', hq', hbirth'⟩ := hsame c hc hq
  exact ⟨c, hc', hq', hbirth'.trans hbirth⟩

theorem Accounts.ofWaiting (h : Accounts s)
    (hwaiting : ∀ q p, s'.waiting q = some p → s.waiting q = some p ∨
      p = .woken ∧ s.kernel.unused q = false ∨
      p = .asleep ∧ s.kernel.unused q = false ∧ s.kernel.childLastend q = 0)
    (hexiting : ∀ c, s.waiting c = some .exiting → s'.waiting c = some .exiting)
    (hs : s' = { s with waiting := s'.waiting }) :
    Accounts s' := by
  rw [hs]
  refine ⟨h.older, h.birth, h.distinct, h.parents, h.slot, ?_, ?_, ?_, h.paired, h.children,
    h.once, fun t ht hphase => h.living t ht fun hwas => hphase (hexiting t hwas)⟩
  · intro q hq
    rcases hwaiting q _ hq with hwas | ⟨hp, _⟩ | ⟨_, hthere, hzero⟩
    · obtain ⟨hthere, hreports⟩ := h.asleep q hwas
      refine ⟨hthere, fun r hr hexits => (hreports r hr hexits).congr fun c hc hparent => ?_⟩
      exact ⟨hexiting c hc, hparent, rfl⟩
    · cases hp
    · refine ⟨hthere, ?_⟩
      intro r hr
      have hslot := h.slot q hthere
      unfold Sys.Holds at hslot
      rw [hr] at hslot
      have := hslot.1
      have := hslot.2.1
      omega
  · intro q hq
    rcases hwaiting q _ hq with hwas | ⟨_, hthere⟩ | ⟨hp, _⟩
    · exact h.woken q hwas
    · exact hthere
    · cases hp
  · intro c hc
    rcases hwaiting c _ hc with hwas | ⟨hp, _⟩ | ⟨hp, _⟩
    · exact h.exiting c hwas
    · cases hp
    · cases hp

/-- A `sys_wait4` comes back with nothing, or with the report that is pending. -/
theorem Accounts.waited {lastend : TaskRef → Nat} {value : Int} (h : Accounts s)
    (hc : s.kernel.unused c = false) (hphase : s.waiting c ≠ some .exiting)
    (hvalue : 0 < value →
      ∃ r, pending (s.birth c) s.history = some r ∧ value = r.pid ∧ status = r.status)
    (hown : 0 < value → lastend c = 0)
    (hsame : ∀ q, q = c → ¬ 0 < value → lastend q = s.kernel.childLastend q)
    (hother : ∀ q, q ≠ c → lastend q = s.kernel.childLastend q) :
    Accounts
      { s with
        kernel := { s.kernel with childLastend := lastend }
        waiting := update s.waiting c none
        history := .waited (s.birth c) value status :: s.history } := by
  have hwaiting : ∀ q p, update s.waiting c none q = some p → s.waiting q = some p := by
    intro q p hq
    by_cases hqc : q = c
    · subst hqc
      rw [update_self] at hq
      cases hq
    · rw [update_of_ne hqc] at hq
      exact hq
  have hexiting : ∀ p, s.waiting p = some .exiting →
      update s.waiting c none p = some .exiting := by
    intro p hp
    have hpc : p ≠ c := by
      rintro rfl
      exact hphase hp
    rw [update_of_ne hpc]
    exact hp
  refine ⟨?_, h.birth, h.distinct, ?_, ?_, ?_, ?_, ?_, ?_, ?_, h.once,
    fun t ht hnot => h.living t ht fun hwas => hnot (hexiting t hwas)⟩
  · intro e he
    rcases List.mem_cons.mp he with rfl | he
    · exact h.birth c
    · exact h.older e he
  · intro i q hi hq
    obtain ⟨hthere, hne, hpos, hforked⟩ := h.parents i q hi hq
    exact ⟨hthere, hne, hpos, List.mem_cons_of_mem _ hforked⟩
  · intro q hq
    by_cases hboth : q = c ∧ 0 < value
    · obtain ⟨rfl, hpos⟩ := hboth
      unfold Sys.Holds
      simp only [pending, true_and, if_pos hpos]
      exact hown hpos
    · refine (h.slot q hq).congr rfl ?_ ?_ rfl
      · simp only [pending]
        exact if_neg fun hb => hboth ⟨h.distinct q c hq hc hb.1.symm, hb.2⟩
      · by_cases hqc : q = c
        · exact hsame q hqc fun hpos => hboth ⟨hqc, hpos⟩
        · exact hother q hqc
  · intro q hq
    have hwas := h.asleep q (hwaiting q _ hq)
    refine ⟨hwas.1, ?_⟩
    intro r hr
    simp only [pending] at hr
    split at hr
    · cases hr
    · intro hexits
      refine (hwas.2 r hr hexits).congr fun p hp hparent => ?_
      exact ⟨hexiting p hp, hparent, rfl⟩
  · exact fun q hq => h.woken q (hwaiting q _ hq)
  · exact fun p hp => h.exiting p (hwaiting p _ hp)
  · intro b
    refine (h.paired b).waited ?_
    rintro rfl hpos
    exact hvalue hpos
  · intro b r hr
    rcases List.mem_cons.mp hr with hr | hr
    · cases hr
    · exact List.mem_cons_of_mem _ (h.children b r hr)

theorem Accounts.finishWait (h : Accounts s) (hc : s.kernel.unused c = false)
    (hphase : s.waiting c ≠ some .exiting) :
    Accounts (s.finishWait c good) := by
  have hfails : ∀ value : Int, value ≤ 0 →
      Accounts { s with
        waiting := update s.waiting c none
        history := .waited (s.birth c) value 0 :: s.history } := by
    intro value hvalue
    have hnot : ¬ 0 < value := not_lt.mpr hvalue
    exact h.waited hc hphase (fun hpos => absurd hpos hnot) (fun hpos => absurd hpos hnot)
      (fun _ _ _ => rfl) fun _ _ => rfl
  unfold Sys.finishWait
  dsimp only
  split
  · rename_i hlastend
    split
    · -- the report that is pending is returned
      have hslot := h.slot c hc
      unfold Sys.Holds at hslot
      cases hreport : pending (s.birth c) s.history with
      | none =>
          rw [hreport] at hslot
          exact absurd hslot hlastend
      | some r =>
          rw [hreport] at hslot
          obtain ⟨hpid, hpos, hstatus⟩ := hslot
          refine h.waited hc hphase (fun _ => ⟨r, hreport, by rw [hpid], hstatus⟩)
            (fun _ => update_self _ _ _) ?_ fun q hqc => update_of_ne hqc _ _
          intro _ _ hnot
          rw [hpid] at hnot
          exact absurd (Int.natCast_pos.mpr hpos) hnot
    · exact hfails _ (by norm_num [efault])
  · exact hfails _ (by norm_num [eintr])

theorem Accounts.told {k : State} {w : TaskRef → Option Phase} (exits : Bool) (h : Accounts s)
    (hc : s.kernel.unused c = false) (hphase : s.waiting c ≠ some .exiting)
    (hq : s.kernel.pParent c = some q)
    (hunused : k.unused = s.kernel.unused)
    (hparent : k.pParent = s.kernel.pParent)
    (hpid : k.pid = s.kernel.pid)
    (hlastend : k.childLastend = update s.kernel.childLastend q (s.kernel.pid c))
    (hstatus : k.lastendStatus = update s.kernel.lastendStatus q status)
    (hw : w = if exits then update s.waiting c (some .exiting) else s.waiting)
    (hchildless : exits → ∀ i, s.kernel.unused i = false → s.kernel.pParent i ≠ some c) :
    Accounts
      { s with
        kernel := k
        waiting := w
        history := .told (s.birth q) ⟨s.birth c, s.kernel.pid c, status, exits⟩ ::
          s.history } := by
  obtain ⟨hthere, hqc, hpos, hforked⟩ := h.parents c q hc hq
  have hown : exits → w c = some .exiting := by
    intro hexits
    rw [hw, if_pos hexits, update_self]
  have hwas : ∀ p, w p = s.waiting p ∨ exits ∧ p = c := by
    intro p
    rw [hw]
    split
    · rename_i hexits
      by_cases hpc : p = c
      · exact Or.inr ⟨hexits, hpc⟩
      · exact Or.inl (update_of_ne hpc _ _)
    · exact Or.inl rfl
  have hexiting : ∀ p, s.waiting p = some .exiting → w p = some .exiting := by
    intro p hp
    rcases hwas p with heq | ⟨_, rfl⟩
    · exact heq.trans hp
    · exact absurd hp hphase
  have hsleeps : ∀ {p x}, x ≠ .exiting → w p = some x → s.waiting p = some x := by
    intro p x hx hp
    rcases hwas p with heq | ⟨hexits, rfl⟩
    · exact heq.symm.trans hp
    · exact absurd (Option.some.inj (hp.symm.trans (hown hexits))) hx
  have hother : ∀ b, b ≠ s.birth q →
      pending b (.told (s.birth q) ⟨s.birth c, s.kernel.pid c, status, exits⟩ :: s.history) =
        pending b s.history := by
    intro b hb
    simp only [pending]
    rw [if_neg (Ne.symm hb)]
  have hreport : pending (s.birth q)
      (.told (s.birth q) ⟨s.birth c, s.kernel.pid c, status, exits⟩ :: s.history) =
        some ⟨s.birth c, s.kernel.pid c, status, exits⟩ := by
    simp only [pending, if_true]
  refine ⟨?_, h.birth, ?_, ?_, ?_, ?_, ?_, ?_, ?_, ?_, ?_, ?_⟩
  · intro e he
    rcases List.mem_cons.mp he with rfl | he
    · exact ⟨h.birth q, h.birth c⟩
    · exact h.older e he
  · dsimp only
    rw [hunused]
    exact h.distinct
  · intro i p hi hp
    dsimp only at hi hp ⊢
    rw [hunused] at hi
    rw [hparent] at hp
    obtain ⟨hp', hpi, hpos', hforked'⟩ := h.parents i p hi hp
    rw [hunused, hpid]
    exact ⟨hp', hpi, hpos', List.mem_cons_of_mem _ hforked'⟩
  · intro p hp
    dsimp only at hp
    rw [hunused] at hp
    by_cases hpq : p = q
    · subst hpq
      unfold Sys.Holds
      dsimp only
      rw [hreport, hlastend, hstatus]
      exact ⟨update_self _ _ _, hpos, update_self _ _ _⟩
    · have hne : s.birth p ≠ s.birth q :=
        fun heq => hpq (h.distinct p q hp hthere heq)
      refine (h.slot p hp).congr rfl (hother _ hne) ?_ ?_
      · dsimp only
        rw [hlastend, update_of_ne hpq]
      · dsimp only
        rw [hstatus, update_of_ne hpq]
  · intro p hp
    dsimp only at hp ⊢
    obtain ⟨hpthere, hreports⟩ := h.asleep p (hsleeps (by decide) hp)
    rw [hunused]
    refine ⟨hpthere, ?_⟩
    intro r' hr' hexits
    by_cases hpq : s.birth p = s.birth q
    · -- the task itself has just begun to exit
      rw [hpq, hreport] at hr'
      obtain rfl := Option.some.inj hr'
      obtain rfl := h.distinct p q hpthere hthere hpq
      refine ⟨c, hown hexits, ?_, rfl⟩
      dsimp only
      rw [hparent]
      exact hq
    · rw [hother _ hpq] at hr'
      refine (hreports r' hr' hexits).congr fun i hi hpi => ⟨hexiting i hi, ?_, rfl⟩
      dsimp only
      rw [hparent]
      exact hpi
  · intro p hp
    dsimp only at hp ⊢
    rw [hunused]
    exact h.woken p (hsleeps (by decide) hp)
  · intro p hp
    dsimp only at hp ⊢
    rw [hunused, hparent]
    rcases hwas p with heq | ⟨hexits, rfl⟩
    · exact h.exiting p (heq.symm.trans hp)
    · exact ⟨hc, hchildless hexits⟩
  · exact fun b => (h.paired b).told
  · intro b r' hr'
    rcases List.mem_cons.mp hr' with hr' | hr'
    · obtain ⟨rfl, rfl⟩ := Event.told.inj hr'
      exact List.mem_cons_of_mem _ hforked
    · exact List.mem_cons_of_mem _ (h.children b r' hr')
  · intro b
    simp only [exitsOf]
    split
    · rename_i hboth
      rw [← hboth.1, h.living c hc hphase]
    · exact h.once b
  · intro t ht hnot
    dsimp only at ht hnot
    rw [hunused] at ht
    simp only [exitsOf]
    rw [if_neg]
    · exact h.living t ht fun hp => hnot (hexiting t hp)
    · rintro ⟨hbirth, hexits⟩
      obtain rfl := h.distinct t c ht hc hbirth.symm
      exact hnot (hown hexits)

theorem start_accounts : Accounts Sys.start := by
  refine ⟨?_, fun t => t.isLt, fun t u _ _ hbirth => Fin.ext hbirth, ?_, fun q _ => rfl, ?_, ?_, ?_,
    fun b => List.Sublist.slnil, ?_, fun b => Nat.zero_le 1, fun t _ _ => rfl⟩
  · intro e he
    cases he
  · intro c q _ hq
    cases hq
  · intro q hq
    cases hq
  · intro q hq
    cases hq
  · intro q hq
    cases hq
  · intro b r hr
    cases hr

/-- The kernel changes in what nobody reads here. -/
theorem Accounts.ofKernel {k : State} (h : Accounts s) (hunused : k.unused = s.kernel.unused)
    (hparent : ∀ p, s.kernel.unused p = false → k.pParent p = s.kernel.pParent p)
    (hsame : ∀ p, s.kernel.unused p = false → k.pid p = s.kernel.pid p ∧
      k.childLastend p = s.kernel.childLastend p ∧
      k.lastendStatus p = s.kernel.lastendStatus p) :
    Accounts { s with kernel := k } := by
  have hthere : ∀ {p}, k.unused p = false → s.kernel.unused p = false := by
    intro p hp
    rw [hunused] at hp
    exact hp
  refine ⟨h.older, h.birth, fun t u ht hu => h.distinct t u (hthere ht) (hthere hu), ?_, ?_, ?_,
    ?_, ?_, h.paired, h.children, h.once, fun t ht => h.living t (hthere ht)⟩
  · intro i p hi hp
    dsimp only at hi hp ⊢
    rw [hparent i (hthere hi)] at hp
    rw [hunused, (hsame i (hthere hi)).1]
    exact h.parents i p (hthere hi) hp
  · intro p hp
    obtain ⟨_, hlastend, hstatus⟩ := hsame p (hthere hp)
    exact (h.slot p (hthere hp)).congr rfl rfl hlastend hstatus
  · intro p hp
    dsimp only
    rw [hunused]
    obtain ⟨hpthere, hreports⟩ := h.asleep p hp
    refine ⟨hpthere, fun r hr hexits => (hreports r hr hexits).congr fun i hi hpi => ?_⟩
    exact ⟨hi, (hparent i (h.exiting i hi).1).trans hpi, rfl⟩
  · intro p hp
    dsimp only
    rw [hunused]
    exact h.woken p hp
  · intro p hp
    dsimp only
    rw [hunused]
    refine ⟨(h.exiting p hp).1, fun i hi => ?_⟩
    rw [hparent i hi]
    exact (h.exiting p hp).2 i hi

theorem Accounts.fork {root memory : Bool} {pid : Nat}
    (h : Accounts s) (hc : s.kernel.unused c = false) (hphase : s.waiting c ≠ some .exiting)
    (hpid : 0 < pid) :
    Accounts (s.fork c root memory pid) := by
  unfold Sys.fork
  dsimp only
  rcases doFork_cases root memory pid hc with
    ⟨t, hsome, ht, ⟨_, hunused, hparent, _, _, _⟩, hpids, hlastend, hstatus⟩ |
      ⟨hnone, _, hunused, hlinks, hsame⟩
  case inr =>
    rw [hnone]
    exact h.ofKernel hunused (fun p hp => (hlinks p hp).1) hsame
  case inl =>
    rw [hsome]
    have hct : c ≠ t := by
      rintro rfl
      rw [ht] at hc
      cases hc
    have hbirth : ∀ {p}, p ≠ t → update s.birth t s.births p = s.birth p :=
      fun hp => update_of_ne hp _ _
    have hthere : ∀ {p}, p ≠ t → (s.kernel.doFork c root memory pid).1.unused p = false →
        s.kernel.unused p = false := by
      intro p hpt hp
      rw [hunused, if_neg hpt] at hp
      exact hp
    have hstill : ∀ {p}, s.kernel.unused p = false → p ≠ t ∧
        (s.kernel.doFork c root memory pid).1.unused p = false := by
      intro p hp
      have hpt : p ≠ t := by
        rintro rfl
        rw [ht] at hp
        cases hp
      refine ⟨hpt, ?_⟩
      rw [hunused, if_neg hpt]
      exact hp
    have hnew := pending_new h.older
    have hphases : ∀ {p x}, update s.waiting t none p = some x →
        p ≠ t ∧ s.waiting p = some x := by
      intro p x hp
      by_cases hpt : p = t
      · rw [hpt, update_self] at hp
        cases hp
      · rw [update_of_ne hpt] at hp
        exact ⟨hpt, hp⟩
    refine ⟨?_, ?_, ?_, ?_, ?_, ?_, ?_, ?_, h.paired, ?_, h.once, ?_⟩
    · intro e he
      rcases List.mem_cons.mp he with rfl | he
      · exact ⟨(h.birth c).trans (Nat.lt_succ_self _), Nat.lt_succ_self _⟩
      · exact (h.older e he).mono (Nat.le_succ _)
    · intro u
      dsimp only
      by_cases hu : u = t
      · rw [hu, update_self]
        exact Nat.lt_succ_self _
      · rw [hbirth hu]
        exact (h.birth u).trans (Nat.lt_succ_self _)
    · intro u v hu hv heq
      dsimp only at heq
      by_cases hut : u = t
      · by_cases hvt : v = t
        · rw [hut, hvt]
        · rw [hut, update_self, hbirth hvt] at heq
          exact absurd heq.symm (Nat.ne_of_lt (h.birth v))
      · by_cases hvt : v = t
        · rw [hvt, update_self, hbirth hut] at heq
          exact absurd heq (Nat.ne_of_lt (h.birth u))
        · rw [hbirth hut, hbirth hvt] at heq
          exact h.distinct u v (hthere hut hu) (hthere hvt hv) heq
    · intro i p hi hp
      dsimp only at hi hp ⊢
      rw [hparent] at hp
      rw [hpids]
      by_cases hit : i = t
      · rw [if_pos hit] at hp ⊢
        obtain rfl := Option.some.inj hp
        refine ⟨(hstill hc).2, ?_, hpid, ?_⟩
        · rw [hit]
          exact hct
        · rw [hbirth hct, hit, update_self]
          exact List.mem_cons_self
      · rw [if_neg hit] at hp ⊢
        obtain ⟨hp', hpi, hpos, hforked⟩ := h.parents i p (hthere hit hi) hp
        refine ⟨(hstill hp').2, hpi, hpos, ?_⟩
        rw [hbirth (hstill hp').1, hbirth hit]
        exact List.mem_cons_of_mem _ hforked
    · intro p hp
      by_cases hpt : p = t
      · subst hpt
        unfold Sys.Holds
        dsimp only
        rw [update_self]
        simp only [pending, hnew.1, hlastend, if_true]
      · refine (h.slot p (hthere hpt hp)).congr (hbirth hpt) rfl ?_ (hstatus p hpt)
        dsimp only
        rw [hlastend, if_neg hpt]
    · intro p hp
      obtain ⟨hpt, hp⟩ := hphases hp
      dsimp only
      rw [hbirth hpt]
      obtain ⟨hpthere, hreports⟩ := h.asleep p hp
      refine ⟨(hstill hpthere).2, fun r hr hexits => (hreports r hr hexits).congr fun i hi hpi => ?_⟩
      have hit := (hstill (h.exiting i hi).1).1
      dsimp only
      rw [update_of_ne hit, hparent, if_neg hit]
      exact ⟨hi, hpi, hbirth hit⟩
    · intro p hp
      obtain ⟨_, hp⟩ := hphases hp
      exact (hstill (h.woken p hp)).2
    · intro p hp
      obtain ⟨_, hp⟩ := hphases hp
      refine ⟨(hstill (h.exiting p hp).1).2, fun i hi => ?_⟩
      dsimp only
      rw [hparent]
      by_cases hit : i = t
      · rw [if_pos hit]
        intro heq
        obtain rfl := Option.some.inj heq
        exact hphase hp
      · rw [if_neg hit]
        exact (h.exiting p hp).2 i (hthere hit hi)
    · intro b r hr
      rcases List.mem_cons.mp hr with hr | hr
      · cases hr
      · exact List.mem_cons_of_mem _ (h.children b r hr)
    · intro u hu hnot
      dsimp only at hnot ⊢
      by_cases hut : u = t
      · rw [hut, update_self]
        exact hnew.2
      · rw [hbirth hut]
        rw [update_of_ne hut] at hnot
        exact h.living u (hthere hut hu) hnot

theorem wakeUp_waiting {p : TaskRef} {x : Phase} (hx : (s.wakeUp q).waiting p = some x) :
    s.waiting p = some x ∧ (p = q → x ≠ .asleep) ∨ x = .woken ∧ s.waiting p = some .asleep := by
  unfold Sys.wakeUp at hx
  dsimp only at hx
  by_cases hpq : p = q
  · subst hpq
    rw [update_self] at hx
    obtain ⟨phase, hphase, rfl⟩ := Option.map_eq_some_iff.mp hx
    cases phase with
    | asleep => exact Or.inr ⟨rfl, hphase⟩
    | woken => exact Or.inl ⟨hphase, fun _ => nofun⟩
    | exiting => exact Or.inl ⟨hphase, fun _ => nofun⟩
  · rw [update_of_ne hpq] at hx
    exact Or.inl ⟨hx, fun heq => absurd heq hpq⟩

theorem wakeUp_exiting {p : TaskRef} (hp : s.waiting p = some .exiting) :
    (s.wakeUp q).waiting p = some .exiting := by
  unfold Sys.wakeUp
  dsimp only
  by_cases hpq : p = q
  · subst hpq
    rw [update_self, hp]
    rfl
  · rw [update_of_ne hpq]
    exact hp

theorem Accounts.exit (h : Accounts s) (hc : s.kernel.unused c = false)
    (hphase : s.waiting c ≠ some .exiting)
    (hchildless : ∀ i, s.kernel.unused i = false → s.kernel.pParent i ≠ some c) :
    Accounts (s.exit c status) := by
  unfold Sys.exit Sys.tell
  cases hq : s.kernel.pParent c with
  | some q =>
      obtain ⟨hunused, hparent, hpid, hlastend, hstatus⟩ := leaveFamily_told status hq
      exact h.told true hc hphase hq hunused hparent hpid hlastend hstatus rfl fun _ => hchildless
  | none =>
      obtain ⟨prevsib, nextsib, hleft⟩ := leaveFamily_orphan status hq
      rw [hleft]
      exact h.ofKernel rfl (fun _ _ => rfl) fun _ _ => ⟨rfl, rfl, rfl⟩

/-- The end of `do_exit`: the slot is free, and nobody sleeps over this exit any more. -/
theorem Accounts.freed {w : TaskRef → Option Phase} (h : Accounts s)
    (hc : s.waiting c = some .exiting)
    (hw : ∀ p x, w p = some x →
      p ≠ c ∧ (s.waiting p = some x ∧ (s.kernel.pParent c = some p → x ≠ .asleep) ∨
        x = .woken ∧ s.waiting p = some .asleep))
    (hexiting : ∀ p, p ≠ c → s.waiting p = some .exiting → w p = some .exiting) :
    Accounts { s with kernel := s.kernel.free c, waiting := w } := by
  have hunused : (s.kernel.free c).unused = update s.kernel.unused c true := rfl
  have hlive : ∀ {p}, (s.kernel.free c).unused p = false → s.kernel.unused p = false ∧ p ≠ c := by
    intro p hp
    rw [hunused] at hp
    by_cases hpc : p = c
    · rw [hpc, update_self] at hp
      cases hp
    · rw [update_of_ne hpc] at hp
      exact ⟨hp, hpc⟩
  have hstill : ∀ {p}, s.kernel.unused p = false → p ≠ c → (s.kernel.free c).unused p = false := by
    intro p hp hpc
    rw [hunused, update_of_ne hpc]
    exact hp
  refine ⟨h.older, h.birth, fun t u ht hu => h.distinct t u (hlive ht).1 (hlive hu).1, ?_,
    fun p hp => h.slot p (hlive hp).1, ?_, ?_, ?_, h.paired, h.children, h.once, ?_⟩
  · intro i p hi hp
    obtain ⟨hp', hpi, hpos, hforked⟩ := h.parents i p (hlive hi).1 hp
    refine ⟨hstill hp' ?_, hpi, hpos, hforked⟩
    rintro rfl
    exact (h.exiting p hc).2 i (hlive hi).1 hp
  · intro p hp
    obtain ⟨hpc, ⟨hwas, hnot⟩ | ⟨hx, _⟩⟩ := hw p _ hp
    · obtain ⟨hpthere, hreports⟩ := h.asleep p hwas
      refine ⟨hstill hpthere hpc, fun r hr hexits => (hreports r hr hexits).congr fun i hi hpi => ?_⟩
      refine ⟨hexiting i ?_ hi, hpi, rfl⟩
      rintro rfl
      exact hnot hpi rfl
    · cases hx
  · intro p hp
    obtain ⟨hpc, ⟨hwas, _⟩ | ⟨_, hwas⟩⟩ := hw p _ hp
    · exact hstill (h.woken p hwas) hpc
    · exact hstill (h.asleep p hwas).1 hpc
  · intro p hp
    obtain ⟨hpc, ⟨hwas, _⟩ | ⟨hx, _⟩⟩ := hw p _ hp
    · obtain ⟨hpthere, hchildless⟩ := h.exiting p hwas
      exact ⟨hstill hpthere hpc, fun i hi => hchildless i (hlive hi).1⟩
    · cases hx
  · intro t ht hnot
    obtain ⟨htthere, htc⟩ := hlive ht
    exact h.living t htthere fun hwas => hnot (hexiting t htc hwas)

theorem Accounts.endExit (h : Accounts s) (hc : s.waiting c = some .exiting) :
    Accounts (s.endExit c) := by
  have hleft : ∀ {p x}, update s.waiting c none p = some x →
      p ≠ c ∧ s.waiting p = some x := by
    intro p x hp
    by_cases hpc : p = c
    · rw [hpc, update_self] at hp
      cases hp
    · rw [update_of_ne hpc] at hp
      exact ⟨hpc, hp⟩
  unfold Sys.endExit
  dsimp only
  cases hq : s.kernel.pParent c with
  | none =>
      refine h.freed hc (fun p x hp => ?_) fun p hpc hp => ?_
      · obtain ⟨hpc, hp⟩ := hleft hp
        exact ⟨hpc, Or.inl ⟨hp, fun hparent => nomatch hq.symm.trans hparent⟩⟩
      · exact (update_of_ne hpc _ _).trans hp
  | some q =>
      refine h.freed hc (fun p x hp => ?_) fun p hpc hp => ?_
      · rcases wakeUp_waiting hp with ⟨hp, hnot⟩ | ⟨hx, hp⟩
        · obtain ⟨hpc, hp⟩ := hleft hp
          refine ⟨hpc, Or.inl ⟨hp, fun hparent => hnot ?_⟩⟩
          exact Option.some.inj (hparent.symm.trans hq)
        · obtain ⟨hpc, hp⟩ := hleft hp
          exact ⟨hpc, Or.inr ⟨hx, hp⟩⟩
      · exact wakeUp_exiting ((update_of_ne hpc _ _).trans hp)

theorem Accounts.stop {sig : Nat} (h : Accounts s) (hc : s.kernel.unused c = false)
    (hphase : s.waiting c ≠ some .exiting) :
    Accounts { s with kernel := s.kernel.stop c sig, history := s.tell c sig false } := by
  unfold State.stop Sys.tell
  cases hq : s.kernel.pParent c with
  | none => exact ⟨h.older, h.birth, h.distinct, h.parents, h.slot, h.asleep, h.woken, h.exiting,
      h.paired, h.children, h.once, h.living⟩
  | some q =>
      refine h.told false hc hphase hq rfl rfl rfl rfl rfl rfl fun hexits => ?_
      cases hexits

theorem Accounts.step (h : Accounts s) (ha : s.Allows d) (hs : s.step d = some s') :
    Accounts s' := by
  cases d with
  | fork c root memory pid =>
      simp only [Sys.step] at hs
      split at hs
      · rename_i hcan
        obtain rfl := Option.some.inj hs
        refine h.fork hcan.2.1 ?_ hcan.2.2.2
        rw [hcan.2.2.1]
        nofun
      · cases hs
  | exit c status =>
      simp only [Sys.step] at hs
      split at hs
      · rename_i hcan
        obtain rfl := Option.some.inj hs
        exact h.exit hcan.2.1 hcan.2.2 ha
      · cases hs
  | endExit c =>
      simp only [Sys.step] at hs
      split at hs
      · rename_i hcan
        obtain rfl := Option.some.inj hs
        exact h.endExit hcan.2
      · cases hs
  | stop c sig =>
      simp only [Sys.step] at hs
      split at hs
      · rename_i hcan
        obtain rfl := Option.some.inj hs
        exact h.stop hcan.2.1 hcan.2.2.1
      · cases hs
  | wait c nohang good =>
      simp only [Sys.step] at hs
      split at hs
      · rename_i hcan
        obtain rfl := Option.some.inj hs
        unfold Sys.wait4
        split
        · rename_i hsleeps
          have hzero : s.kernel.childLastend c = 0 := not_not.mp (not_or.mp hsleeps).2
          refine h.ofWaiting ?_ ?_ rfl
          · intro q p hq
            by_cases hqc : q = c
            · subst hqc
              dsimp only at hq
              rw [update_self] at hq
              exact Or.inr (Or.inr ⟨(Option.some.inj hq).symm, hcan.2.1, hzero⟩)
            · dsimp only at hq
              rw [update_of_ne hqc] at hq
              exact Or.inl hq
          · intro p hp
            have hpc : p ≠ c := by
              rintro rfl
              exact nomatch hp.symm.trans hcan.2.2
            exact (update_of_ne hpc _ _).trans hp
        · refine h.finishWait hcan.2.1 ?_
          rw [hcan.2.2]
          nofun
      · cases hs
  | wake c =>
      simp only [Sys.step] at hs
      split at hs
      · obtain rfl := Option.some.inj hs
        refine h.ofWaiting (fun q p hq => ?_) (fun p hp => wakeUp_exiting hp) rfl
        rcases wakeUp_waiting hq with ⟨hwas, _⟩ | ⟨hp, hwas⟩
        · exact Or.inl hwas
        · exact Or.inr (Or.inl ⟨hp, (h.asleep q hwas).1⟩)
      · cases hs
  | resume c good =>
      simp only [Sys.step] at hs
      split at hs
      · rename_i hcan
        obtain rfl := Option.some.inj hs
        refine h.finishWait (h.woken c hcan.2) ?_
        rw [hcan.2]
        nofun
      · cases hs

theorem Reached.accounts (h : Reached s) : Accounts s := by
  induction h with
  | start => exact start_accounts
  | step _ ha hs ih => exact ih.step ha hs

theorem mem_reportsTo {h : List Event} {x : Int × Int} (hx : x ∈ reportsTo b h) :
    ∃ r, .told b r ∈ h ∧ x = ((r.pid : Int), r.status) := by
  induction h with
  | nil => cases hx
  | cons e h ih =>
      have hlater : x ∈ reportsTo b h → ∃ r, .told b r ∈ e :: h ∧ x = ((r.pid : Int), r.status) := by
        intro hx
        obtain ⟨r, hr, heq⟩ := ih hx
        exact ⟨r, List.mem_cons_of_mem _ hr, heq⟩
      cases e with
      | forked parent child pid => exact hlater hx
      | waited caller value status => exact hlater hx
      | told parent r =>
          unfold reportsTo at hx
          split at hx
          · rename_i hb
            subst hb
            rcases List.mem_cons.mp hx with rfl | hx
            · exact ⟨r, List.mem_cons_self, rfl⟩
            · exact hlater hx
          · exact hlater hx

theorem finishWait_history (h : Accounts s) (hq : s.kernel.unused q = false) :
    (s.finishWait q true).history = match pending (s.birth q) s.history with
      | none => .waited (s.birth q) (-eintr) 0 :: s.history
      | some r => .waited (s.birth q) r.pid r.status :: s.history := by
  have hslot := h.slot q hq
  unfold Sys.Holds at hslot
  unfold Sys.finishWait
  dsimp only
  cases hpending : pending (s.birth q) s.history with
  | none =>
      rw [hpending] at hslot
      rw [if_neg (not_not.mpr hslot)]
  | some r =>
      rw [hpending] at hslot
      obtain ⟨hpid, hpos, hstatus⟩ := hslot
      rw [if_pos (by rw [hpid]; exact Nat.ne_of_gt hpos)]
      simp only [if_true, hpid, hstatus]

/-- As long as no process exits before its children: what `sys_wait4` returns to a
process are reports of its own children, none twice; a process exits once; each
`sys_wait4` returns the last report, if that has not been returned; and nobody sleeps
over the exit of a child whose `do_exit` has ended. -/
theorem wait_accounts (h : Reached s) :
    (∀ b, (returnsTo b s.history).Sublist (reportsTo b s.history)) ∧
    (∀ b value status, (value, status) ∈ returnsTo b s.history → ∃ r, .told b r ∈ s.history ∧
      value = r.pid ∧ status = r.status ∧ .forked b r.child r.pid ∈ s.history) ∧
    (∀ b, exitsOf b s.history ≤ 1) ∧
    (∀ q, s.kernel.unused q = false →
      (s.finishWait q true).history = match pending (s.birth q) s.history with
        | none => .waited (s.birth q) (-eintr) 0 :: s.history
        | some r => .waited (s.birth q) r.pid r.status :: s.history) ∧
    ∀ q r, s.waiting q = some .asleep → pending (s.birth q) s.history = some r → r.exits →
      ∃ c, s.waiting c = some .exiting ∧ s.kernel.pParent c = some q ∧ s.birth c = r.child := by
  have hacc := h.accounts
  refine ⟨fun b => (hacc.paired b).sublist, ?_, hacc.once, fun q hq => finishWait_history hacc hq,
    fun q r hq hr => (hacc.asleep q hq).2 r hr⟩
  intro b value status hmem
  obtain ⟨r, hr, heq⟩ := mem_reportsTo ((hacc.paired b).sublist.subset hmem)
  obtain ⟨rfl, rfl⟩ := Prod.mk.inj heq
  exact ⟨r, hr, rfl, rfl, hacc.children b r hr⟩

/-- `init` forks a child, sleeps, and gets its status. -/
theorem wait_accounts_childExits :
    ∃ s, Reached s ∧ returnsTo 1 s.history = [(2, 256)] ∧
      (returnsTo 1 s.history).Sublist (reportsTo 1 s.history) := by
  have hforked := Reached.start.step (d := .fork 1 true true 2) trivial rfl
  have hwaits := hforked.step (d := .wait 1 false true) trivial rfl
  have hexits := hwaits.step (d := .exit 14 256) (by decide) rfl
  have hended := hexits.step (d := .endExit 14) trivial rfl
  have hdone := hended.step (d := .resume 1 true) trivial rfl
  exact ⟨_, hdone, rfl, (wait_accounts hdone).1 1⟩

/-- Two children of `init` exit before it waits: the first is never returned. -/
theorem first_exit_lost :
    ∃ s, Reached s ∧ reportsTo 1 s.history = [(3, 512), (2, 256)] ∧
      returnsTo 1 s.history = [(3, 512)] ∧ pending 1 s.history = none ∧
      (s.finishWait 1 true).history = .waited 1 (-eintr) 0 :: s.history := by
  have hfirst := Reached.start.step (d := .fork 1 true true 2) trivial rfl
  have hsecond := hfirst.step (d := .fork 1 true true 3) trivial rfl
  have hexits := hsecond.step (d := .exit 14 256) (by decide) rfl
  have hended := hexits.step (d := .endExit 14) trivial rfl
  have hexits' := hended.step (d := .exit 13 512) (by decide) rfl
  have hended' := hexits'.step (d := .endExit 13) trivial rfl
  have hwaits := hended'.step (d := .wait 1 false true) trivial rfl
  exact ⟨_, hwaits, rfl, rfl, rfl, rfl⟩

end Accounts

end Family
end Elks
