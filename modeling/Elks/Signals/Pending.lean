import Elks.Signals.DoSignal

/-!
# Signals between send_sig and their action

`sig_check`, at the end of a system call, and `schedule`, when the task is switched to
again, test the pending word, call `do_signal` and clear the word.  `do_signal` acts on
one signal; if that stops the task, it calls `schedule` and goes on with its loop later.

The model follows one task.  `point` says what it does: other code, the loop of
`do_signal`, the call of `schedule` in it, or the statement that clears the word; `under`
counts the calls of `do_signal` that wait below for a call of `schedule`.  Signals may be
sent at any moment, by other tasks or by interrupts.

`owed` holds the signals that have been sent, or were pending at the start, and have not
been acted upon: no handler has been set up for them, they have not stopped or ended the
task, and they have not been cleared while their disposition was to ignore them.

**Results.**
* `NoneLost`: the signals that are owed are pending;
* `signals_kept`: this holds in every state of a run whose steps are `Careful`, and a
  step that is not loses a signal, by itself or by the clearing that follows.
-/

namespace Elks
namespace Signals

open Lib Sched

/-- What the task does. -/
inductive Point
  | other
  | loop
  | asleep
  | clear
deriving DecidableEq

/-- A task on its way through `do_signal`. -/
structure Signalled where
  task : Task
  point : Point
  under : Nat
  gone : Bool

/-- What may happen next. -/
inductive SignalEvent
  | send (sig : Fin nsig)
  | action (sig : Fin nsig) (handler : Handler)
  | sigCheck
  | scheduled
  | next
  | back (switched : Bool)
deriving DecidableEq

/-- What the loop of `do_signal` leads to. -/
def Signalled.round (s : Signalled) : Signalled :=
  match doSignalRound s.task with
  | .inl d => { s with task := d }
  | .inr (.drained d) => { s with task := d, point := .clear }
  | .inr (.handled d _ _) => { s with task := d, point := .clear }
  | .inr (.exits d _) => { s with task := d, gone := true }
  | .inr (.stops d _ _) => { s with task := d, point := .asleep }
  | .inr (.panics _) => { s with gone := true }

/-- What an event does, if it can happen. -/
def Signalled.step (s : Signalled) : SignalEvent → Option Signalled
  | .send sig =>
      if s.gone then none else some { s with task := sendSig s.task sig }
  | .action sig handler =>
      if s.gone = false ∧ s.point = .other then
        some { s with task := (sysSignal s.task sig handler).1 }
      else
        none
  | .sigCheck =>
      if s.gone = false ∧ s.point = .other then
        some { s with point := if s.task.signal ≠ 0 then .loop else .clear }
      else
        none
  | .scheduled =>
      if s.gone = false ∧ s.point = .other then
        some { s with point := if s.task.signal ≠ 0 then .loop else .other }
      else
        none
  | .next =>
      if s.gone = false ∧ s.point = .loop then
        some s.round
      else if s.gone = false ∧ s.point = .clear then
        some { s with
          task := { s.task with signal := 0 }
          point := if s.under = 0 then .other else .loop
          under := s.under - 1 }
      else
        none
  | .back switched =>
      if s.gone = false ∧ s.point = .asleep ∧ s.task.state ≠ .stopped then
        some { s with
          point := .loop
          under := if switched ∧ s.task.signal ≠ 0 then s.under + 1 else s.under }
      else
        none

/-- The signals that are owed after an event in `s`. -/
def owes (s : Signalled) (owed : Finset (Fin nsig)) : SignalEvent → Finset (Fin nsig)
  | .send sig => if s.task.drops sig then owed else insert sig owed
  | .next =>
      if s.point = .loop then
        owed.filter fun i => ¬(s.task.firstSignal = some i ∧ ¬Ignores s.task i)
      else
        owed.filter fun i => ¬Ignores s.task i
  | _ => owed

/-- Every signal that is owed is pending. -/
def NoneLost (s : Signalled) (owed : Finset (Fin nsig)) : Prop :=
  s.gone = false → ∀ i ∈ owed, Pending s.task i

/-- When a handler is set up, the other signals that are owed are to be ignored; no
signal is sent before the word is cleared; and none is sent that takes back one that is
owed. -/
def Careful (s : Signalled) (owed : Finset (Fin nsig)) : SignalEvent → Prop
  | .next => s.point = .loop → ∀ sig addr, s.task.firstSignal = some sig →
      s.task.action sig = .user addr → ∀ i ∈ owed, i ≠ sig → Ignores s.task i
  | .send sig =>
      (s.point = .clear → Ignores s.task sig) ∧
      (sig = sigkill ∨ sig = sigcont → sigstop ∉ owed ∧ sigtstp ∉ owed) ∧
      (sig = sigstop ∨ sig = sigtstp → sigcont ∉ owed)
  | _ => True

/-- A run of events of kind `A`, with the signals that are owed. -/
inductive SignalRuns (A : Signalled → Finset (Fin nsig) → SignalEvent → Prop) :
    Signalled → Finset (Fin nsig) → List SignalEvent →
      Signalled → Finset (Fin nsig) → Prop
  | done (s : Signalled) (owed : Finset (Fin nsig)) : SignalRuns A s owed [] s owed
  | step {s s' u : Signalled} {owed owed' : Finset (Fin nsig)} {e : SignalEvent}
      {es : List SignalEvent} (ha : A s owed e) (hs : s.step e = some u)
      (hrest : SignalRuns A u (owes s owed e) es s' owed') :
      SignalRuns A s owed (e :: es) s' owed'

/-- A task in other code owes the signals that are pending. -/
structure Starts (s : Signalled) (owed : Finset (Fin nsig)) : Prop where
  point : s.point = .other
  under : s.under = 0
  gone : s.gone = false
  owed : ∀ i, i ∈ owed ↔ Pending s.task i

/-- The signals that are owed are pending, and to be ignored where the word is about to
be cleared. -/
structure Accounted (s : Signalled) (owed : Finset (Fin nsig)) : Prop where
  pending : ∀ i ∈ owed, Pending s.task i
  clear : s.point = .clear → ∀ i ∈ owed, Ignores s.task i

section Sends

variable {d : Task} {sig i : Fin nsig}

theorem mask_getLsbD (sig i : Fin nsig) : (mask sig).getLsbD i.val = decide (i = sig) := by
  revert sig i
  decide

theorem or_mask {w : BitVec nsig} :
    (w ||| mask sig).getLsbD i.val = true ↔ w.getLsbD i.val = true ∨ i = sig := by
  rw [BitVec.getLsbD_or, mask_getLsbD, Bool.or_eq_true, decide_eq_true_iff]

theorem and_not_getLsbD {w m : BitVec nsig} :
    (w &&& ~~~m).getLsbD i.val = true ↔
      w.getLsbD i.val = true ∧ ¬m.getLsbD i.val = true := by
  rw [BitVec.getLsbD_and, BitVec.getLsbD_not, Bool.and_eq_true, Bool.and_eq_true,
    Bool.not_eq_true', decide_eq_true_iff, Bool.not_eq_true]
  exact ⟨fun h => ⟨h.1, h.2.2⟩, fun h => ⟨h.1, i.isLt, h.2⟩⟩

theorem generate_pending : Pending (generate d sig) i ↔ Pending d i ∨ i = sig ∧ ¬d.drops sig := by
  unfold generate Pending
  by_cases hdrop : d.drops sig
  · rw [if_pos hdrop]
    exact ⟨Or.inl, fun h => h.resolve_right fun h => h.2 hdrop⟩
  · rw [if_neg hdrop]
    have hword : (d.signal ||| mask sig).getLsbD i.val = true ↔
        d.signal.getLsbD i.val = true ∨ i = sig ∧ ¬d.drops sig := by
      rw [or_mask, and_iff_left hdrop]
    dsimp only
    split
    · exact hword
    · exact hword

theorem sendSig_pending :
    Pending (sendSig d sig) i ↔
      (Pending d i ∧
        ¬((sig = sigkill ∨ sig = sigcont) ∧ (i = sigstop ∨ i = sigtstp)) ∧
        ¬((sig = sigstop ∨ sig = sigtstp) ∧ i = sigcont)) ∨
      i = sig ∧ ¬d.drops sig := by
  have hdrops : ∀ d' : Task, d'.action = d.action → (d'.drops sig ↔ d.drops sig) := by
    intro d' h
    rw [Task.drops, Task.drops, h]
  unfold sendSig
  rw [generate_pending]
  by_cases hkill : sig = sigkill ∨ sig = sigcont
  · have hstop : ¬(sig = sigstop ∨ sig = sigtstp) := by
      rcases hkill with rfl | rfl <;> decide
    simp only [if_pos hkill, if_neg hstop]
    rw [hdrops _ (by dsimp only; split <;> rfl)]
    refine or_congr_left ?_
    have hword : (d.signal &&& ~~~(mask sigstop ||| mask sigtstp)).getLsbD i.val = true ↔
        d.signal.getLsbD i.val = true ∧ ¬(i = sigstop ∨ i = sigtstp) := by
      rw [and_not_getLsbD, or_mask, mask_getLsbD, decide_eq_true_iff]
    have hsame : (if d.state = .stopped then { d with state := .running } else d).signal =
        d.signal := by
      split <;> rfl
    simp only [Pending, hsame, hword]
    tauto
  · simp only [if_neg hkill]
    by_cases hstop : sig = sigstop ∨ sig = sigtstp
    · simp only [if_pos hstop]
      rw [hdrops _ rfl]
      refine or_congr_left ?_
      have hword : (d.signal &&& ~~~mask sigcont).getLsbD i.val = true ↔
          d.signal.getLsbD i.val = true ∧ ¬i = sigcont := by
        rw [and_not_getLsbD, mask_getLsbD, decide_eq_true_iff]
      simp only [Pending, hword]
      tauto
    · simp only [if_neg hstop]
      tauto

end Sends

section Steps

variable {s s' u : Signalled} {owed owed' : Finset (Fin nsig)} {e : SignalEvent}
  {es : List SignalEvent} {sig i : Fin nsig} {addr : Nat}

theorem ignores_congr {d d' : Task} (hact : d'.action i = d.action i) (hpid : d'.pid = d.pid) :
    Ignores d' i ↔ Ignores d i := by
  rw [Ignores, Ignores, hact, hpid]

theorem ignores_update {d : Task} (hne : i ≠ sig) :
    Ignores { d with action := Function.update d.action sig .dfl } i ↔ Ignores d i :=
  ignores_congr (Function.update_of_ne hne _ _) rfl

theorem not_ignores_of_user {d : Task} (hact : d.action sig = .user addr) : ¬Ignores d sig := by
  simp [Ignores, hact]

theorem ignores_of_drops {d : Task} (h : d.drops sig) : Ignores d sig := by
  rcases h with hign | ⟨hdfl, hsig⟩
  · exact Or.inl hign
  · exact Or.inr ⟨hdfl, by tauto⟩

/-- A round of the loop of `do_signal`. -/
inductive Rounds (s : Signalled) : Signalled → Prop
  | drained (h : s.task.signal = 0) : Rounds s { s with point := .clear }
  | ignored (sig : Fin nsig) (hlow : Lowest s.task sig) (hign : Ignores s.task sig) :
      Rounds s s
  | handled (sig : Fin nsig) (addr : Nat) (hlow : Lowest s.task sig)
      (hact : s.task.action sig = .user addr) :
      Rounds s { s with
        task := { s.task with action := Function.update s.task.action sig .dfl }
        point := .clear }
  | stops (sig : Fin nsig) (hlow : Lowest s.task sig) (hign : ¬Ignores s.task sig)
      (hact : s.task.action sig = .dfl) :
      Rounds s { s with task := { s.task with state := .stopped }, point := .asleep }
  | exits (sig : Fin nsig) (hlow : Lowest s.task sig) (hign : ¬Ignores s.task sig)
      (hact : s.task.action sig = .dfl) :
      Rounds s { s with gone := true }

theorem rounds (s : Signalled) : Rounds s s.round := by
  by_cases hz : s.task.signal = 0
  · have hround : s.round = { s with point := .clear } := by
      rw [Signalled.round, round_drained hz]
    rw [hround]
    exact Rounds.drained hz
  · obtain ⟨sig, hlow⟩ := exists_lowest hz
    by_cases hign : Ignores s.task sig
    · have hround : s.round = s := by
        rw [Signalled.round, round_ignored hlow hign]
      rw [hround]
      exact Rounds.ignored sig hlow hign
    · cases hact : s.task.action sig with
      | ign => exact absurd (Or.inl hact) hign
      | user addr =>
          have hround := round_handled hlow hact
          rw [Signalled.round, hround]
          exact Rounds.handled sig addr hlow hact
      | dfl =>
          have hround := round_default hlow hact hign
          rw [Signalled.round, hround]
          by_cases hstop : sig = sigstop ∨ sig = sigtstp
          · rw [if_pos hstop]
            exact Rounds.stops sig hlow hign hact
          · rw [if_neg hstop]
            exact Rounds.exits sig hlow hign hact

theorem mem_owes_loop (hp : s.point = .loop) :
    i ∈ owes s owed .next ↔ i ∈ owed ∧ ¬(Lowest s.task i ∧ ¬Ignores s.task i) := by
  rw [owes, if_pos hp, Finset.mem_filter, firstSignal_eq_some]

theorem mem_owes_clear (hp : s.point = .clear) :
    i ∈ owes s owed .next ↔ i ∈ owed ∧ ¬Ignores s.task i := by
  rw [owes, if_neg (by simp [hp]), Finset.mem_filter]

theorem mem_owes_send : i ∈ owes s owed (.send sig) ↔ i ∈ owed ∨ i = sig ∧ ¬s.task.drops sig := by
  rw [owes]
  split
  · rename_i hdrop
    exact ⟨Or.inl, fun h => h.resolve_right fun h => h.2 hdrop⟩
  · rename_i hdrop
    rw [Finset.mem_insert, and_iff_left hdrop, or_comm]

theorem Accounted.send (h : Accounted s owed) (hc : Careful s owed (.send sig)) :
    Accounted { s with task := sendSig s.task sig } (owes s owed (.send sig)) := by
  obtain ⟨hclear, hkill, hstop⟩ := hc
  constructor
  · intro i hi
    rw [sendSig_pending]
    rcases mem_owes_send.mp hi with hi | hi
    · refine Or.inl ⟨h.pending i hi, ?_, ?_⟩
      · rintro ⟨hsig, rfl | rfl⟩
        · exact (hkill hsig).1 hi
        · exact (hkill hsig).2 hi
      · rintro ⟨hsig, rfl⟩
        exact hstop hsig hi
    · exact Or.inr hi
  · intro hp i hi
    have hsame : Ignores (sendSig s.task sig) i ↔ Ignores s.task i :=
      ignores_congr (by rw [sendSig_action]) sendSig_pid
    rw [hsame]
    rcases mem_owes_send.mp hi with hi | ⟨rfl, _⟩
    · exact h.clear hp i hi
    · exact hclear hp

theorem Accounted.round (h : Accounted s owed) (hp : s.point = .loop) (hc : Careful s owed .next)
    (hr : Rounds s u) (hgone : u.gone = false) : Accounted u (owes s owed .next) := by
  have howed : ∀ i ∈ owes s owed .next, i ∈ owed := fun i hi =>
    ((mem_owes_loop hp).mp hi).1
  cases hr with
  | drained hz =>
      refine ⟨fun i hi => h.pending i (howed i hi), fun _ i hi => ?_⟩
      exact absurd hz (signal_ne_zero (h.pending i (howed i hi)))
  | ignored sig hlow hign =>
      exact ⟨fun i hi => h.pending i (howed i hi), fun hp' => by rw [hp] at hp'; cases hp'⟩
  | handled sig addr hlow hact =>
      refine ⟨fun i hi => h.pending i (howed i hi), fun _ i hi => ?_⟩
      obtain ⟨hi, hnot⟩ := (mem_owes_loop hp).mp hi
      have hne : i ≠ sig := by
        rintro rfl
        exact hnot ⟨hlow, not_ignores_of_user hact⟩
      exact (ignores_update hne).mpr (hc hp sig addr (firstSignal_eq_some.mpr hlow) hact i hi hne)
  | stops sig hlow hign hact =>
      exact ⟨fun i hi => h.pending i (howed i hi), fun hp' => by cases hp'⟩
  | exits sig hlow hign hact => cases hgone

theorem Accounted.step (h : Accounted s owed) (hc : Careful s owed e) (hstep : s.step e = some u)
    (hgone : u.gone = false) : Accounted u (owes s owed e) := by
  cases e with
  | send sig =>
      simp only [Signalled.step] at hstep
      split at hstep
      · cases hstep
      · obtain rfl := Option.some.inj hstep
        exact h.send hc
  | action sig handler =>
      simp only [Signalled.step] at hstep
      split at hstep
      · rename_i hcond
        obtain rfl := Option.some.inj hstep
        refine ⟨fun i hi => ?_, fun hp => ?_⟩
        · have hsame : (sysSignal s.task sig handler).1.signal = s.task.signal := by
            unfold sysSignal
            split <;> rfl
          rw [Pending, hsame]
          exact h.pending i hi
        · have hp' : s.point = .clear := hp
          rw [hcond.2] at hp'
          cases hp'
      · cases hstep
  | sigCheck =>
      simp only [Signalled.step] at hstep
      split at hstep
      · obtain rfl := Option.some.inj hstep
        refine ⟨h.pending, fun hp i hi => ?_⟩
        have hz : s.task.signal ≠ 0 := signal_ne_zero (h.pending i hi)
        simp only [if_pos hz] at hp
        cases hp
      · cases hstep
  | scheduled =>
      simp only [Signalled.step] at hstep
      split at hstep
      · obtain rfl := Option.some.inj hstep
        refine ⟨h.pending, fun hp => ?_⟩
        dsimp only at hp
        split at hp <;> cases hp
      · cases hstep
  | next =>
      simp only [Signalled.step] at hstep
      split at hstep
      · rename_i hcond
        obtain rfl := Option.some.inj hstep
        exact h.round hcond.2 hc (rounds s) hgone
      · split at hstep
        · rename_i hcond
          obtain rfl := Option.some.inj hstep
          have hnone : ∀ i, i ∉ owes s owed .next := by
            intro i hi
            obtain ⟨hi, hnot⟩ := (mem_owes_clear hcond.2).mp hi
            exact hnot (h.clear hcond.2 i hi)
          exact ⟨fun i hi => absurd hi (hnone i), fun _ i hi => absurd hi (hnone i)⟩
        · cases hstep
  | back switched =>
      simp only [Signalled.step] at hstep
      split at hstep
      · obtain rfl := Option.some.inj hstep
        exact ⟨h.pending, fun hp => by cases hp⟩
      · cases hstep

theorem step_gone (hstep : s.step e = some u) : s.gone = false := by
  cases e <;> simp only [Signalled.step] at hstep <;> split_ifs at hstep <;> simp_all

theorem SignalRuns.accounted
    (h : SignalRuns Careful s owed es s' owed') (hs : s.gone = false → Accounted s owed) :
    s'.gone = false → Accounted s' owed' := by
  induction h with
  | done => exact hs
  | step hc hstep _ ih =>
      exact ih fun hgone => (hs (step_gone hstep)).step hc hstep hgone

theorem ignores_of_cleared (hp : s.point = .clear) (hgone : s.gone = false)
    (hall : ∀ u, s.step .next = some u → NoneLost u (owes s owed .next)) :
    ∀ i ∈ owed, Ignores s.task i := by
  intro i hi
  by_contra hign
  have hstep : s.step .next = some { s with
      task := { s.task with signal := 0 }
      point := if s.under = 0 then .other else .loop
      under := s.under - 1 } := by
    simp [Signalled.step, hp, hgone]
  have hpend := hall _ hstep hgone i ((mem_owes_clear hp).mpr ⟨hi, hign⟩)
  simp [Pending] at hpend

theorem careful_iff (h : Accounted s owed) (hstep : s.step e = some u) :
    Careful s owed e ↔
      NoneLost u (owes s owed e) ∧
      (u.point = .clear → ∀ u', u.step .next = some u' →
        NoneLost u' (owes u (owes s owed e) .next)) := by
  constructor
  · intro hc
    refine ⟨fun hgone => (h.step hc hstep hgone).pending, fun hp u' hu' hgone => ?_⟩
    have hu := h.step hc hstep (step_gone hu')
    have hc' : Careful u (owes s owed e) .next := fun hp' => by
      rw [hp] at hp'
      cases hp'
    exact (hu.step hc' hu' hgone).pending
  · rintro ⟨hnow, hnext⟩
    have hgone := step_gone hstep
    cases e with
    | send sig =>
        simp only [Signalled.step] at hstep
        rw [if_neg (by simp [hgone])] at hstep
        obtain rfl := Option.some.inj hstep
        refine ⟨fun hp => ?_, fun hsig => ?_, fun hsig hcont => ?_⟩
        · by_cases hdrop : s.task.drops sig
          · exact ignores_of_drops hdrop
          · have hign := ignores_of_cleared (s := { s with task := sendSig s.task sig })
              hp hgone (hnext hp) sig (mem_owes_send.mpr (Or.inr ⟨rfl, hdrop⟩))
            exact (ignores_congr (by rw [sendSig_action]) sendSig_pid).mp hign
        · constructor
          · intro hstop
            have hpend := hnow hgone sigstop (mem_owes_send.mpr (Or.inl hstop))
            rw [sendSig_pending] at hpend
            rcases hpend with ⟨_, hnot, _⟩ | ⟨rfl, _⟩
            · exact hnot ⟨hsig, Or.inl rfl⟩
            · rcases hsig with hsig | hsig <;> cases hsig
          · intro hstop
            have hpend := hnow hgone sigtstp (mem_owes_send.mpr (Or.inl hstop))
            rw [sendSig_pending] at hpend
            rcases hpend with ⟨_, hnot, _⟩ | ⟨rfl, _⟩
            · exact hnot ⟨hsig, Or.inr rfl⟩
            · rcases hsig with hsig | hsig <;> cases hsig
        · have hpend := hnow hgone sigcont (mem_owes_send.mpr (Or.inl hcont))
          rw [sendSig_pending] at hpend
          rcases hpend with ⟨_, _, hnot⟩ | ⟨rfl, _⟩
          · exact hnot ⟨hsig, rfl⟩
          · rcases hsig with hsig | hsig <;> cases hsig
    | next =>
        intro hp sig addr hfirst hact i hi hne
        have hlow := firstSignal_eq_some.mp hfirst
        have hround : s.round = { s with
            task := { s.task with action := Function.update s.task.action sig .dfl }
            point := .clear } := by
          rw [Signalled.round, round_handled hlow hact]
        simp only [Signalled.step] at hstep
        rw [if_pos ⟨hgone, hp⟩, hround] at hstep
        obtain rfl := Option.some.inj hstep
        have howes : i ∈ owes s owed .next := by
          refine (mem_owes_loop hp).mpr ⟨hi, fun hboth => hne ?_⟩
          have hfirst' := firstSignal_eq_some.mpr hboth.1
          rw [hfirst] at hfirst'
          exact (Option.some.inj hfirst').symm
        have hign := ignores_of_cleared
          (s := { s with
            task := { s.task with action := Function.update s.task.action sig .dfl }
            point := .clear }) rfl hgone (hnext rfl) i howes
        exact (ignores_update hne).mp hign
    | _ => trivial

theorem Starts.accounted (h : Starts s owed) : Accounted s owed :=
  ⟨fun i hi => (h.owed i).mp hi, fun hp => by rw [h.point] at hp; cases hp⟩

/-- In a careful run no signal is lost: each that was pending at the start or has been sent
is pending until it is acted upon, or cleared while it is to be ignored.  And an event
that is not careful loses one, by itself or by the clearing right after it. -/
theorem signals_kept
    {s₀ : Signalled} {owed₀ : Finset (Fin nsig)}
    (hstart : Starts s₀ owed₀) (hruns : SignalRuns Careful s₀ owed₀ es s owed) :
    NoneLost s owed ∧
    ∀ e u, s.step e = some u →
      (Careful s owed e ↔
        NoneLost u (owes s owed e) ∧
        (u.point = .clear → ∀ u', u.step .next = some u' →
          NoneLost u' (owes u (owes s owed e) .next))) := by
  have hacc := hruns.accounted fun _ => hstart.accounted
  exact ⟨fun hgone => (hacc hgone).pending,
    fun e u hstep => careful_iff (hacc (step_gone hstep)) hstep⟩

end Steps

section Caught

/-- A task that has caught `SIGHUP` and `SIGINT`; the signals of `w` are pending. -/
def caught (w : BitVec nsig) : Signalled where
  task := { Task.zero .running with
    pid := 2
    signal := w
    action := fun sig => if sig.val < 2 then .user 100 else .dfl }
  point := .other
  under := 0
  gone := false

/-- The pending signals. -/
def pendingOf (d : Task) : Finset (Fin nsig) :=
  Finset.univ.filter fun i => d.signal.getLsbD i.val

theorem caught_starts (w : BitVec nsig) : Starts (caught w) (pendingOf (caught w).task) :=
  ⟨rfl, rfl, rfl, fun i => by simp [pendingOf, Pending]⟩

/-- `SIGHUP` is pending, and `sig_check` sets up its handler. -/
theorem signals_kept_one :
    ∃ s owed, SignalRuns Careful (caught 1) (pendingOf (caught 1).task)
        [.sigCheck, .next, .next] s owed ∧ NoneLost s owed := by
  have hfirst : (caught 1).task.firstSignal = some 0 := by decide
  have howed : pendingOf (caught 1).task = {0} := by decide
  obtain ⟨s, owed, hruns⟩ : ∃ s owed, SignalRuns Careful (caught 1)
      (pendingOf (caught 1).task) [.sigCheck, .next, .next] s owed := by
    refine ⟨_, _, .step trivial rfl <| .step ?_ rfl <| .step (fun hp => by cases hp) rfl <|
      .done _ _⟩
    intro _ sig addr hsig _ i hi hne
    obtain rfl := Option.some.inj (hfirst.symm.trans hsig)
    have hi' : i ∈ pendingOf (caught 1).task := hi
    rw [howed] at hi'
    exact absurd (Finset.mem_singleton.mp hi') hne
  exact ⟨s, owed, hruns, (signals_kept (caught_starts 1) hruns).1⟩

/-- `SIGHUP` and `SIGINT` are pending; `sig_check` sets up the handler of the first and
clears both. -/
theorem sigCheck_loses :
    ∃ s owed, SignalRuns (fun _ _ _ => True) (caught 3) (pendingOf (caught 3).task)
        [.sigCheck, .next, .next] s owed ∧ ¬NoneLost s owed := by
  refine ⟨_, _, .step trivial rfl <| .step trivial rfl <| .step trivial rfl <| .done _ _, ?_⟩
  intro h
  have hpend := h rfl 1 (by decide)
  exact absurd hpend (by decide)

end Caught

end Signals
end Elks
