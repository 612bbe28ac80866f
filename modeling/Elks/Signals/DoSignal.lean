import Elks.Lib.Loop
import Elks.Sched.Machine

/-!
# Signals of one task (kernel/signal.c, arch/i86/kernel/signal.c)

`send_sig` puts a signal into the pending word of a task, unless its disposition drops
it, and `do_signal` acts on the lowest one that is pending.

The loop of `do_signal` is `while (currentp->signal)`, and the loop itself clears no bit
of the word.  Where it goes on with `continue` because the signal is to be ignored, the
next round finds the same signal.

**Results.**
* `doSignal_ends_iff`: the loop ends exactly if the lowest pending signal is not to be
  ignored;
* `round_sched`: a round is the action of a task that the scheduler's machine makes in
  the frame of `do_signal`.
-/

namespace Elks
namespace Signals

open Lib Sched

/-- `SIGUSR1`, less one. -/
def sigusr1 : Fin nsig := 9

/-- `sys_signal`: the handler of `SIGKILL` and `SIGSTOP` stays; the result says whether
the handler was set. -/
def sysSignal (d : Task) (sig : Fin nsig) (handler : Handler) : Task × Bool :=
  if sig = sigkill ∨ sig = sigstop then
    (d, false)
  else
    ({ d with action := Function.update d.action sig handler }, true)

/-- `generate`. -/
def generate (d : Task) (sig : Fin nsig) : Task :=
  if d.drops sig then
    d
  else
    let d := { d with signal := d.signal ||| mask sig }
    if d.state = .interruptible then { d with state := .running } else d

/-- `send_sig`, for a sender who may. -/
def sendSig (d : Task) (sig : Fin nsig) : Task :=
  let d :=
    if sig = sigkill ∨ sig = sigcont then
      let d := if d.state = .stopped then { d with state := .running } else d
      { d with signal := d.signal &&& ~~~(mask sigstop ||| mask sigtstp) }
    else
      d
  let d :=
    if sig = sigstop ∨ sig = sigtstp then
      { d with signal := d.signal &&& ~~~mask sigcont }
    else
      d
  generate d sig

/-- How `do_signal` leaves its loop, or what it calls in it. -/
inductive SignalEnd
  /-- It returns zero. -/
  | drained (d : Task)
  /-- `arch_setup_sighandler_stack` for handler `addr`; it returns one. -/
  | handled (d : Task) (sig : Fin nsig) (addr : Nat)
  /-- `do_exit(signr)`. -/
  | exits (d : Task) (status : Nat)
  /-- The parent is told the process and `signr`, and `schedule` is called. -/
  | stops (d : Task) (childLastend lastendStatus : Nat)
  /-- `panic`. -/
  | panics (message : String)

/-- A round of the loop of `do_signal`. -/
def doSignalRound (d : Task) : Task ⊕ SignalEnd :=
  if d.signal = 0 then
    .inr (.drained d)
  else
    match d.firstSignal with
    | none => .inr (.panics "No signal set!\n")
    | some sig =>
        match d.action sig with
        | .ign => .inl d
        | .dfl =>
            if d.pid = 1 then
              .inl d
            else if sig = sigchld ∨ sig = sigcont ∨ sig = sigwinch then
              .inl d
            else if sig = sigstop ∨ sig = sigtstp then
              .inr (.stops { d with state := .stopped } d.pid (sig.val + 1))
            else
              .inr (.exits d (sig.val + 1))
        | .user addr =>
            .inr (.handled { d with action := Function.update d.action sig .dfl } sig addr)

/-- `do_signal` comes to `r`. -/
def DoSignal (d : Task) (r : SignalEnd) : Prop :=
  Ends doSignalRound d r

/-- The disposition of the signal is to ignore it. -/
def Ignores (d : Task) (sig : Fin nsig) : Prop :=
  d.action sig = .ign ∨
    d.action sig = .dfl ∧ (d.pid = 1 ∨ sig = sigchld ∨ sig = sigcont ∨ sig = sigwinch)

/-- The signal is pending. -/
def Pending (d : Task) (sig : Fin nsig) : Prop :=
  d.signal.getLsbD sig.val = true

/-- The signal is pending, and none with a lower number. -/
def Lowest (d : Task) (sig : Fin nsig) : Prop :=
  Pending d sig ∧ ∀ i, i < sig → ¬Pending d i

section Rounds

variable {d : Task} {sig i : Fin nsig} {r : SignalEnd} {addr : Nat}

instance : Decidable (Ignores d sig) :=
  inferInstanceAs (Decidable (_ ∨ _))

instance : Decidable (Pending d sig) :=
  inferInstanceAs (Decidable (_ = _))

theorem firstSignal_eq_some : d.firstSignal = some sig ↔ Lowest d sig := by
  unfold Task.firstSignal
  rw [List.find?_eq_some_iff_getElem]
  constructor
  · rintro ⟨hsig, k, hk, rfl, hlow⟩
    refine ⟨hsig, fun i hi => ?_⟩
    simp only [List.getElem_finRange, Fin.lt_def, Fin.val_cast] at hi
    have hi' := hlow i.val hi
    simpa [Pending] using hi'
  · rintro ⟨hsig, hlow⟩
    refine ⟨hsig, sig.val, by simp, by simp, fun j hj => ?_⟩
    have hj' := hlow ⟨j, by omega⟩ (by simpa [Fin.lt_def] using hj)
    simpa [Pending] using hj'

theorem exists_lowest (h : d.signal ≠ 0) : ∃ sig, Lowest d sig := by
  obtain ⟨i, hi⟩ : ∃ i : Fin nsig, Pending d i := by
    by_contra hnone
    refine h (BitVec.eq_of_getLsbD_eq fun i hi => ?_)
    have hi' := fun hp => hnone ⟨⟨i, hi⟩, hp⟩
    simpa [Pending] using hi'
  cases hf : d.firstSignal with
  | some sig => exact ⟨sig, firstSignal_eq_some.mp hf⟩
  | none =>
      have hnot := List.find?_eq_none.mp hf i (List.mem_finRange i)
      exact absurd hi hnot

theorem signal_ne_zero (h : Pending d sig) : d.signal ≠ 0 := by
  intro hz
  simp [Pending, hz] at h

theorem round_ignored (hlow : Lowest d sig) (hign : Ignores d sig) : doSignalRound d = .inl d := by
  rw [doSignalRound, if_neg (signal_ne_zero hlow.1), firstSignal_eq_some.mpr hlow]
  rcases hign with hact | ⟨hact, hpid | hsig⟩
  · simp only [hact]
  · simp only [hact, hpid, if_true]
  · simp only [hact, if_pos hsig, ite_self]

theorem round_handled (hlow : Lowest d sig) (hact : d.action sig = .user addr) :
    doSignalRound d =
      .inr (.handled { d with action := Function.update d.action sig .dfl } sig addr) := by
  rw [doSignalRound, if_neg (signal_ne_zero hlow.1), firstSignal_eq_some.mpr hlow]
  simp only [hact]

theorem round_default (hlow : Lowest d sig) (hact : d.action sig = .dfl) (hign : ¬Ignores d sig) :
    doSignalRound d =
      if sig = sigstop ∨ sig = sigtstp then
        .inr (.stops { d with state := .stopped } d.pid (sig.val + 1))
      else
        .inr (.exits d (sig.val + 1)) := by
  have hnot : ¬(d.pid = 1 ∨ sig = sigchld ∨ sig = sigcont ∨ sig = sigwinch) :=
    fun h => hign (Or.inr ⟨hact, h⟩)
  obtain ⟨hpid, hsig⟩ := not_or.mp hnot
  rw [doSignalRound, if_neg (signal_ne_zero hlow.1), firstSignal_eq_some.mpr hlow]
  simp only [hact, if_neg hpid, if_neg hsig]

theorem round_drained (h : d.signal = 0) : doSignalRound d = .inr (.drained d) := by
  rw [doSignalRound, if_pos h]

theorem round_acts (hlow : Lowest d sig) (hign : ¬Ignores d sig) :
    ∃ r, doSignalRound d = .inr r ∧ ∀ message, r ≠ .panics message := by
  cases hact : d.action sig with
  | ign => exact absurd (Or.inl hact) hign
  | user addr => exact ⟨_, round_handled hlow hact, by simp⟩
  | dfl =>
      rw [round_default hlow hact hign]
      split
      · exact ⟨_, rfl, by simp⟩
      · exact ⟨_, rfl, by simp⟩

theorem round_inl {d' : Task} (h : doSignalRound d = .inl d') : d' = d := by
  by_cases hz : d.signal = 0
  · rw [round_drained hz] at h
    cases h
  · obtain ⟨sig, hlow⟩ := exists_lowest hz
    by_cases hign : Ignores d sig
    · rw [round_ignored hlow hign] at h
      exact (Sum.inl.inj h).symm
    · obtain ⟨r, hr, _⟩ := round_acts hlow hign
      rw [hr] at h
      cases h

theorem doSignal_iff : DoSignal d r ↔ doSignalRound d = .inr r := by
  constructor
  · intro h
    cases hround : doSignalRound d with
    | inr r' => rw [h.unique (ends_of_inr hround)]
    | inl d' =>
        obtain rfl := round_inl hround
        exact absurd h (not_ends_of_stuck hround)
  · exact ends_of_inr

/-- `do_signal` comes to an end exactly if the lowest pending signal is not to be
ignored: it then sets up a handler, ends or stops the task, or finds no signal pending. -/
theorem doSignal_ends_iff (d : Task) :
    (∃ r, DoSignal d r ∧ ∀ message, r ≠ .panics message) ↔
      ∀ sig, Lowest d sig → ¬Ignores d sig := by
  constructor
  · rintro ⟨r, hr, _⟩ sig hlow hign
    exact not_ends_of_stuck (round_ignored hlow hign) hr
  · intro hall
    by_cases hz : d.signal = 0
    · exact ⟨.drained d, ends_of_inr (round_drained hz), by simp⟩
    · obtain ⟨sig, hlow⟩ := exists_lowest hz
      obtain ⟨r, hr, hne⟩ := round_acts hlow (hall sig hlow)
      exact ⟨r, ends_of_inr hr, hne⟩

/-- A task with pid 2 that has caught `SIGUSR1`, has been sent it, and then ignores it
before `do_signal` runs. -/
def ignoresLate : Task :=
  (sysSignal (sendSig (sysSignal { Task.zero .running with pid := 2 } sigusr1 (.user 100)).1
    sigusr1) sigusr1 .ign).1

/-- `do_signal` finds `SIGUSR1` in every round. -/
theorem doSignal_hangs : ¬∃ r, DoSignal ignoresLate r := by
  have hlow : Lowest ignoresLate sigusr1 := by
    rw [← firstSignal_eq_some]
    decide
  have hign : Ignores ignoresLate sigusr1 := by
    decide
  rintro ⟨r, hr⟩
  exact not_ends_of_stuck (round_ignored hlow hign) hr

theorem sendSig_action : (sendSig d sig).action = d.action := by
  unfold sendSig generate
  dsimp only
  split_ifs <;> rfl

theorem sendSig_pid : (sendSig d sig).pid = d.pid := by
  unfold sendSig generate
  dsimp only
  split_ifs <;> rfl

theorem sendSig_unused : (sendSig d sig).state = .unused ↔ d.state = .unused := by
  unfold sendSig generate
  dsimp only
  split_ifs <;> simp_all

/-- What a round leaves to do, with the frames `rest` under that of `do_signal`. -/
def turnOf (d : Task) (rest : List Frame) : Task ⊕ SignalEnd → Turn
  | .inl d' => .goes d' (.signal :: rest)
  | .inr (.drained d') => .goes d' rest
  | .inr (.handled d' _ _) => .goes d' rest
  | .inr (.exits d' _) => .goes d' (.closing :: .signal :: rest)
  | .inr (.stops d' _ _) => .goes d' (.entry :: .signal :: rest)
  | .inr (.panics _) => .goes d rest

theorem round_sched (d : Task) (rest : List Frame) :
    d.doSignal rest = turnOf d rest (doSignalRound d) := by
  by_cases hz : d.signal = 0
  · have hnone : d.firstSignal = none :=
      List.find?_eq_none.mpr fun i _ => by simp [hz]
    rw [Task.doSignal, hnone, round_drained hz]
    rfl
  · obtain ⟨sig, hlow⟩ := exists_lowest hz
    rw [Task.doSignal, doSignalRound, if_neg hz, firstSignal_eq_some.mpr hlow]
    dsimp only
    cases d.action sig with
    | ign => rfl
    | user addr => rfl
    | dfl =>
        by_cases hpid : d.pid = 1
        · simp [hpid, turnOf]
        · by_cases hsig : sig = sigchld ∨ sig = sigcont ∨ sig = sigwinch
          · simp [hsig, turnOf]
          · by_cases hstop : sig = sigstop ∨ sig = sigtstp
            · simp [hpid, hsig, hstop, turnOf]
            · simp [hpid, hsig, hstop, turnOf]

theorem modTask_same (s : State) (p : TaskRef) (g : Task → Task) :
    (s.modTask p g).task p = g (s.task p) := by
  simp [State.modTask]

theorem generate_sched (s : State) (p : TaskRef) (sig : Fin nsig) :
    (s.generate sig p).task p = generate (s.task p) sig := by
  unfold State.generate generate
  by_cases hdrop : (s.task p).drops sig
  · rw [if_pos hdrop, if_pos hdrop]
  · rw [if_neg hdrop, if_neg hdrop]
    dsimp only
    rw [modTask_same]
    split
    · rw [wakeUpProcess_task, Function.update_self, modTask_same]
    · exact modTask_same ..

theorem sendSig_sched (s : State) (p : TaskRef) (sig : Fin nsig) :
    (s.sendSig sig p).task p = sendSig (s.task p) sig := by
  unfold State.sendSig sendSig
  rw [generate_sched]
  by_cases hkill : sig = sigkill ∨ sig = sigcont
  · have hstop : ¬(sig = sigstop ∨ sig = sigtstp) := by
      rcases hkill with rfl | rfl <;> decide
    simp only [if_pos hkill, if_neg hstop, modTask_same]
    split
    · rw [wakeUpProcess_task, Function.update_self]
    · rfl
  · simp only [if_neg hkill]
    split
    · rw [modTask_same]
    · rfl

end Rounds

end Signals
end Elks
