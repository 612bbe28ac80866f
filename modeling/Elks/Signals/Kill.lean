import Elks.Family.Pids
import Elks.Signals.Pending

/-!
# kill (kernel/signal.c)

`kill_process` sends a signal to the first slot with the pid, `kill_pg` to every slot with
the process group, and `sys_kill` to the one or the other, or to all but the sender.  None
of them looks at the state of a slot, and slots that are not in use keep the numbers of
their last task; a child for which there was no memory leaves those of its parent.

**Results.**
* `Reaches`: every live task that is selected and may be sent the signal has got it, no
  slot that is not in use has changed, and the result is `-ESRCH` exactly if no live task
  is selected;
* `kill_reaches_iff`: in every table each of the calls does this exactly if the slots that
  it selects meet `FirstLives` or `SomeLives` before it.
-/

namespace Elks
namespace Kill

open Lib Sched Pids

def eperm : Int := 1
def esrch : Int := 3
def einval : Int := 22

/-- The permission that `send_sig` asks for without `priv`. -/
def mayKill (c p : Proc) (sig : Fin nsig) : Bool :=
  !((sig ≠ sigcont ∨ c.session ≠ p.session) ∧ c.euid ≠ p.suid ∧ c.euid ≠ p.uid ∧
    c.uid ≠ p.suid ∧ c.uid ≠ p.uid ∧ c.euid ≠ 0)

/-- `send_sig` from task `c` to slot `p`. -/
def sendSig (s : Procs) (c : TaskRef) (sig : Fin nsig) (p : TaskRef) (priv : Bool) :
    Procs × Int :=
  if priv = false ∧ mayKill (s.task c) (s.task p) sig = false then
    (s, -eperm)
  else
    (s.signal p sig, 0)

/-- `kill_pg`. -/
def killPg (s : Procs) (c : TaskRef) (pgrp : Nat) (sig : Fin nsig) (priv : Bool) :
    Procs × Int :=
  (List.finRange maxTasks).foldl (fun r p =>
    if (r.1.task p).pgrp = pgrp then sendSig r.1 c sig p priv else r) (s, -esrch)

/-- `kill_process`; `priv` is not passed on. -/
def killProcess (s : Procs) (c : TaskRef) (pid : Nat) (sig : Fin nsig) (_priv : Bool) :
    Procs × Int :=
  match (List.finRange maxTasks).find? fun p => (s.task p).pid = pid with
  | some p => sendSig s c sig p false
  | none => (s, -esrch)

/-- A round of the loop of `sys_kill` for pid -1, with `count` and `retval`. -/
def killAllRound (c : TaskRef) (sig : Fin nsig) (r : Procs × Nat × Int) (p : TaskRef) :
    Procs × Nat × Int :=
  if 1 < (r.1.task p).pid ∧ (r.1.task p).pid < 32768 ∧ p ≠ c then
    let sent := sendSig r.1 c sig p false
    (sent.1, r.2.1 + 1, if sent.2 ≠ -eperm then sent.2 else r.2.2)
  else
    r

/-- `sys_kill`; the pid is a word of sixteen bits with a sign. -/
def sysKill (s : Procs) (c : TaskRef) (pid sig : Nat) : Procs × Int :=
  if h : wrapSub 16 sig 1 < nsig then
    let signal : Fin nsig := ⟨wrapSub 16 sig 1, h⟩
    if pid = 0 then
      killPg s c (s.task c).pgrp signal false
    else if pid = 65535 then
      let r := (List.finRange maxTasks).foldl (killAllRound c signal) (s, 0, 0)
      (r.1, if r.2.1 ≠ 0 then r.2.2 else -esrch)
    else if 32768 ≤ pid then
      killPg s c (wrapSub 16 0 pid) signal false
    else
      killProcess s c pid signal false
  else
    (s, -einval)

/-- The slots that `sys_kill` means. -/
def Selected (s : Procs) (c : TaskRef) (pid : Nat) (p : TaskRef) : Prop :=
  if pid = 0 then
    (s.task p).pgrp = (s.task c).pgrp
  else if pid = 65535 then
    1 < (s.task p).pid ∧ (s.task p).pid < 32768 ∧ p ≠ c
  else if 32768 ≤ pid then
    (s.task p).pgrp = wrapSub 16 0 pid
  else
    (s.task p).pid = pid

instance (s : Procs) (c : TaskRef) (pid : Nat) (p : TaskRef) : Decidable (Selected s c pid p) :=
  inferInstanceAs (Decidable (ite _ _ _))

/-- A task that has not ended. -/
def Lives (s : Procs) (p : TaskRef) : Prop :=
  (s.task p).state ≠ .unused

/-- `c` may send `sig` to `p`. -/
def Granted (s : Procs) (c : TaskRef) (sig : Fin nsig) (priv : Bool) (p : TaskRef) : Prop :=
  priv = true ∨ mayKill (s.task c) (s.task p) sig = true

instance (s : Procs) (c : TaskRef) (sig : Fin nsig) (priv : Bool) (p : TaskRef) :
    Decidable (Granted s c sig priv p) :=
  inferInstanceAs (Decidable (_ ∨ _))

/-- A signal changes nothing in `p`: it is dropped, or pending already with `p` not asleep
for it, and it neither wakes `p` nor takes a pending signal back. -/
def Idle (s : Procs) (sig : Fin nsig) (p : TaskRef) : Prop :=
  ((s.task p).drops sig ∨
    (s.task p).signal.getLsbD sig.val = true ∧ (s.task p).state ≠ .interruptible) ∧
  (sig = sigkill ∨ sig = sigcont → (s.task p).state ≠ .stopped ∧
    (s.task p).signal.getLsbD sigstop.val = false ∧
    (s.task p).signal.getLsbD sigtstp.val = false) ∧
  (sig = sigstop ∨ sig = sigtstp → (s.task p).signal.getLsbD sigcont.val = false)

/-- Every live task that is selected and may be sent the signal has got it, no slot that is
not in use has changed, and the result is `-ESRCH` exactly if no live task is selected. -/
structure Reaches (s : Procs) (c : TaskRef) (sel : TaskRef → Prop) (sig : Fin nsig)
    (priv : Bool) (r : Procs × Int) : Prop where
  delivered : ∀ p, Lives s p → sel p → Granted s c sig priv p →
    r.1.task p = (s.signal p sig).task p
  unused : ∀ p, ¬Lives s p → r.1.task p = s.task p
  result : r.2 = -esrch ↔ ∀ p, Lives s p → ¬sel p

/-- Where a slot that is not in use is selected, a live task is selected too, and the
signal would change nothing in the slot, or may not be sent to it. -/
def SomeLives (s : Procs) (c : TaskRef) (sel : TaskRef → Prop) (sig : Fin nsig)
    (priv : Bool) : Prop :=
  ∀ p, ¬Lives s p → sel p →
    (Granted s c sig priv p → Idle s sig p) ∧ ∃ q, Lives s q ∧ sel q

/-- The first slot with the pid is that of a live task that may be sent the signal without
privilege, as far as this makes a difference: a slot before it that is not in use does no
harm where the signal would change nothing, or may not be sent. -/
def FirstLives (s : Procs) (c : TaskRef) (pid : Nat) (sig : Fin nsig) (priv : Bool) : Prop :=
  ∀ m, ((List.finRange maxTasks).find? fun p => (s.task p).pid = pid) = some m →
    (¬Lives s m → (Granted s c sig false m → Idle s sig m) ∧
      ∃ q, Lives s q ∧ (s.task q).pid = pid) ∧
    ∀ q, Lives s q → (s.task q).pid = pid → Granted s c sig priv q →
      q = m ∧ Granted s c sig false m ∨ Idle s sig q

/-- The slots that `sys_kill` selects are in order. -/
def CallLives (s : Procs) (c : TaskRef) (pid : Nat) (sig : Fin nsig) : Prop :=
  if 0 < pid ∧ pid < 32768 then
    FirstLives s c pid sig false
  else
    SomeLives s c (Selected s c pid) sig false

section Sends

variable {s s' u : Procs} {c p q : TaskRef} {sig : Fin nsig} {priv : Bool} {sel : TaskRef → Prop}
  {r : Procs × Int} {l : List TaskRef} {pid pgrp : Nat} {d : Sched.Task} {β : Type}

/-- The tables agree on who is who. -/
structure SameIds (s s' : Procs) : Prop where
  pid : ∀ p, (s'.task p).pid = (s.task p).pid
  pgrp : ∀ p, (s'.task p).pgrp = (s.task p).pgrp
  may : ∀ c p sig, mayKill (s'.task c) (s'.task p) sig = mayKill (s.task c) (s.task p) sig

theorem SameIds.refl (s : Procs) : SameIds s s :=
  ⟨fun _ => rfl, fun _ => rfl, fun _ _ _ => rfl⟩

theorem SameIds.trans (h : SameIds s u) (h' : SameIds u s') : SameIds s s' :=
  ⟨fun p => (h'.pid p).trans (h.pid p), fun p => (h'.pgrp p).trans (h.pgrp p),
    fun c p sig => (h'.may c p sig).trans (h.may c p sig)⟩

theorem signal_other (h : q ≠ p) : (s.signal p sig).task q = s.task q := by
  rw [Procs.signal, set_other h]

theorem signal_sameIds : SameIds s (s.signal p sig) := by
  have hfields : ∀ q, ((s.signal p sig).task q).pid = (s.task q).pid ∧
      ((s.signal p sig).task q).pgrp = (s.task q).pgrp ∧
      ((s.signal p sig).task q).session = (s.task q).session ∧
      ((s.signal p sig).task q).uid = (s.task q).uid ∧
      ((s.signal p sig).task q).euid = (s.task q).euid ∧
      ((s.signal p sig).task q).suid = (s.task q).suid := by
    intro q
    by_cases hq : q = p
    · subst hq
      rw [Procs.signal, set_same]
      exact ⟨Signals.sendSig_pid, rfl, rfl, rfl, rfl, rfl⟩
    · rw [signal_other hq]
      exact ⟨rfl, rfl, rfl, rfl, rfl, rfl⟩
  refine ⟨fun q => (hfields q).1, fun q => (hfields q).2.1, fun c q sig' => ?_⟩
  obtain ⟨_, _, hcs, hcu, hce, _⟩ := hfields c
  obtain ⟨_, _, hqs, hqu, _, hqv⟩ := hfields q
  unfold mayKill
  rw [hcs, hcu, hce, hqs, hqu, hqv]

theorem sendSig_state :
    (Signals.sendSig d sig).state =
      if (sig = sigkill ∨ sig = sigcont) ∧ d.state = .stopped ∨
        ¬d.drops sig ∧ d.state = .interruptible then .running else d.state := by
  have hgen : ∀ d' : Task, d'.action = d.action → (Signals.generate d' sig).state =
      if ¬d.drops sig ∧ d'.state = .interruptible then .running else d'.state := by
    intro d' hact
    have hdrops : d'.drops sig ↔ d.drops sig := by
      rw [Task.drops, Task.drops, hact]
    unfold Signals.generate
    by_cases hdrop : d.drops sig
    · rw [if_pos (hdrops.mpr hdrop), if_neg fun h => h.1 hdrop]
    · rw [if_neg fun h => hdrop (hdrops.mp h)]
      simp only [hdrop, not_false_eq_true, true_and]
      split
      · rfl
      · rfl
  unfold Signals.sendSig
  by_cases hkill : sig = sigkill ∨ sig = sigcont
  · have hstop : ¬(sig = sigstop ∨ sig = sigtstp) := by
      rcases hkill with rfl | rfl <;> decide
    simp only [if_pos hkill, if_neg hstop]
    rw [hgen _ (by split <;> rfl)]
    by_cases hst : d.state = .stopped
    · simp [hkill, hst]
    · simp [hst]
  · simp only [if_neg hkill]
    rw [hgen _ (by split <;> rfl)]
    have hsame : (if sig = sigstop ∨ sig = sigtstp then
        { d with signal := d.signal &&& ~~~mask sigcont } else d).state = d.state := by
      split <;> rfl
    rw [hsame]
    simp [hkill]

theorem sendSig_eq :
    Signals.sendSig d sig =
      { d with
        signal := (Signals.sendSig d sig).signal
        state := (Signals.sendSig d sig).state } := by
  have hgen : ∀ d' : Task, d' = { d with signal := d'.signal, state := d'.state } →
      Signals.generate d' sig = { d with
        signal := (Signals.generate d' sig).signal
        state := (Signals.generate d' sig).state } := by
    intro d' h
    unfold Signals.generate
    rw [h]
    dsimp only
    split
    · rfl
    · split
      · rfl
      · rfl
  unfold Signals.sendSig
  refine hgen _ ?_
  dsimp only
  split_ifs <;> rfl

theorem pending_ext {a b : Task} :
    a.signal = b.signal ↔ ∀ i, Signals.Pending a i ↔ Signals.Pending b i := by
  constructor
  · intro h i
    rw [Signals.Pending, Signals.Pending, h]
  · intro h
    refine BitVec.eq_of_getLsbD_eq fun i hi => ?_
    exact Bool.eq_iff_iff.mpr (h ⟨i, hi⟩)

theorem sendSig_state_same :
    (Signals.sendSig (s.task p).toTask sig).state = (s.task p).state ↔
      ¬((sig = sigkill ∨ sig = sigcont) ∧ (s.task p).state = .stopped) ∧
        ¬(¬(s.task p).drops sig ∧ (s.task p).state = .interruptible) := by
  rw [sendSig_state, ← not_or]
  split
  · rename_i hwakes
    refine iff_of_false (fun h => ?_) fun h => h hwakes
    rcases hwakes with h' | h'
    · simp [← h] at h'
    · simp [← h] at h'
  · rename_i hstays
    exact iff_of_true rfl hstays

theorem signal_same :
    (s.signal p sig).task p = s.task p ↔
      (Signals.sendSig (s.task p).toTask sig).signal = (s.task p).signal ∧
        (Signals.sendSig (s.task p).toTask sig).state = (s.task p).state := by
  rw [Procs.signal, set_same]
  constructor
  · intro h
    have htask : Signals.sendSig (s.task p).toTask sig = (s.task p).toTask :=
      congrArg Proc.toTask h
    rw [htask]
    exact ⟨rfl, rfl⟩
  · intro h
    rw [sendSig_eq, h.1, h.2]

theorem signal_eq_iff : (s.signal p sig).task p = s.task p ↔ Idle s sig p := by
  rw [signal_same, pending_ext, sendSig_state_same]
  simp only [Signals.sendSig_pending]
  simp only [Signals.Pending, Idle, ← Bool.not_eq_true]
  constructor
  · rintro ⟨hall, hwake, hsleep⟩
    refine ⟨?_, fun hkill => ⟨fun hst => hwake ⟨hkill, hst⟩, fun h => ?_, fun h => ?_⟩,
      fun hstop h => ?_⟩
    · by_cases hdrop : (s.task p).drops sig
      · exact Or.inl hdrop
      · refine Or.inr ⟨(hall sig).mp (Or.inr ⟨rfl, hdrop⟩), fun hst => hsleep ⟨hdrop, hst⟩⟩
    · rcases (hall sigstop).mpr h with ⟨_, hnot, _⟩ | ⟨heq, _⟩
      · exact hnot ⟨hkill, Or.inl rfl⟩
      · rw [← heq] at hkill
        exact absurd hkill (by decide)
    · rcases (hall sigtstp).mpr h with ⟨_, hnot, _⟩ | ⟨heq, _⟩
      · exact hnot ⟨hkill, Or.inr rfl⟩
      · rw [← heq] at hkill
        exact absurd hkill (by decide)
    · rcases (hall sigcont).mpr h with ⟨_, _, hnot⟩ | ⟨heq, _⟩
      · exact hnot ⟨hstop, rfl⟩
      · rw [← heq] at hstop
        exact absurd hstop (by decide)
  · rintro ⟨hgen, hkill, hstop⟩
    refine ⟨fun i => ⟨?_, fun h => Or.inl ⟨h, ?_, ?_⟩⟩, fun h => (hkill h.1).1 h.2, ?_⟩
    · rintro (h | ⟨rfl, hdrop⟩)
      · exact h.1
      · exact (hgen.resolve_left hdrop).1
    · rintro ⟨hk, rfl | rfl⟩
      · exact (hkill hk).2.1 h
      · exact (hkill hk).2.2 h
    · rintro ⟨hs, rfl⟩
      exact hstop hs h
    · rintro ⟨hdrop, hst⟩
      exact (hgen.resolve_left hdrop).2 hst

theorem sendSig_fst :
    (sendSig s c sig p priv).1 = if Granted s c sig priv p then s.signal p sig else s := by
  unfold sendSig Granted
  by_cases hpriv : priv = true
  · simp [hpriv]
  · by_cases hmay : mayKill (s.task c) (s.task p) sig = true
    · simp [hmay]
    · simp [hpriv, hmay]

theorem sendSig_snd_ne : (sendSig s c sig p priv).2 ≠ -esrch := by
  unfold sendSig
  split <;> simp [eperm, esrch]

theorem sendSig_sameIds : SameIds s (sendSig s c sig p priv).1 := by
  rw [sendSig_fst]
  split
  · exact signal_sameIds
  · exact SameIds.refl s

/-- The signal has been sent to the slots of `done` that are selected, and to no other. -/
structure Swept (s : Procs) (c : TaskRef) (sig : Fin nsig) (priv : Bool)
    (sel done : TaskRef → Prop) (u : Procs) : Prop where
  ids : SameIds s u
  sent : ∀ p, done p → sel p → Granted s c sig priv p → u.task p = (s.signal p sig).task p
  kept : ∀ p, ¬(done p ∧ sel p ∧ Granted s c sig priv p) → u.task p = s.task p

theorem signal_congr (h : u.task p = s.task p) :
    (u.signal p sig).task p = (s.signal p sig).task p := by
  rw [Procs.signal, Procs.signal, set_same, set_same, h]

theorem Swept.step {done : TaskRef → Prop} {u : Procs} [Decidable (sel p)]
    (h : Swept s c sig priv sel done u) (hp : ¬done p) :
    Swept s c sig priv sel (fun q => done q ∨ q = p)
      (if sel p then (sendSig u c sig p priv).1 else u) := by
  have hgrant : Granted u c sig priv p ↔ Granted s c sig priv p := by
    rw [Granted, Granted, h.ids.may]
  have hsame : u.task p = s.task p := h.kept p fun hall => hp hall.1
  by_cases hsend : sel p ∧ Granted s c sig priv p
  · have hnew : (if sel p then (sendSig u c sig p priv).1 else u) = u.signal p sig := by
      rw [if_pos hsend.1, sendSig_fst, if_pos (hgrant.mpr hsend.2)]
    rw [hnew]
    refine ⟨h.ids.trans signal_sameIds, fun q hq hsel hgr => ?_, fun q hq => ?_⟩
    · by_cases hqp : q = p
      · rw [hqp]
        exact signal_congr hsame
      · rw [signal_other hqp]
        exact h.sent q (hq.resolve_right hqp) hsel hgr
    · have hqp : q ≠ p := by
        rintro rfl
        exact hq ⟨Or.inr rfl, hsend⟩
      rw [signal_other hqp]
      exact h.kept q fun hall => hq ⟨Or.inl hall.1, hall.2⟩
  · have hnew : (if sel p then (sendSig u c sig p priv).1 else u) = u := by
      split
      · rename_i hsel
        rw [sendSig_fst, if_neg fun hgr => hsend ⟨hsel, hgrant.mp hgr⟩]
      · rfl
    rw [hnew]
    refine ⟨h.ids, fun q hq hsel hgr => ?_, fun q hq => ?_⟩
    · rcases hq with hq | rfl
      · exact h.sent q hq hsel hgr
      · exact absurd ⟨hsel, hgr⟩ hsend
    · exact h.kept q fun hall => hq ⟨Or.inl hall.1, hall.2⟩

theorem Swept.foldl {g : Procs × β → TaskRef → Procs × β} [DecidablePred sel]
    (hg : ∀ r p, SameIds s r.1 →
      (g r p).1 = if sel p then (sendSig r.1 c sig p priv).1 else r.1)
    {done : TaskRef → Prop} {r : Procs × β}
    (h : Swept s c sig priv sel done r.1) (hl : l.Nodup) (hdone : ∀ p ∈ l, ¬done p) :
    Swept s c sig priv sel (fun q => done q ∨ q ∈ l) (l.foldl g r).1 := by
  induction l generalizing r done with
  | nil =>
      refine ⟨h.ids, fun p hp => h.sent p (by simpa using hp), fun p hp => h.kept p ?_⟩
      simpa using hp
  | cons p l ih =>
      obtain ⟨hfresh, hl⟩ := List.nodup_cons.mp hl
      have hstep := h.step (hdone p List.mem_cons_self)
      rw [← hg r p h.ids] at hstep
      have hrest := ih hstep hl fun q hq hor => by
        rcases hor with hq' | rfl
        · exact hdone q (List.mem_cons_of_mem p hq) hq'
        · exact hfresh hq
      rw [List.foldl_cons]
      refine ⟨hrest.ids, fun q hq => hrest.sent q ?_, fun q hq => hrest.kept q ?_⟩
      · simpa [or_assoc] using hq
      · simpa [or_assoc] using hq

theorem Swept.start : Swept s c sig priv sel (fun _ => False) s :=
  ⟨SameIds.refl s, fun _ h => h.elim, fun _ _ => rfl⟩

theorem Swept.all {g : Procs × β → TaskRef → Procs × β} [DecidablePred sel] {b : β}
    (hg : ∀ r p, SameIds s r.1 →
      (g r p).1 = if sel p then (sendSig r.1 c sig p priv).1 else r.1) :
    Swept s c sig priv sel (fun _ => True) ((List.finRange maxTasks).foldl g (s, b)).1 := by
  have hstart : Swept s c sig priv sel (fun _ => False) (s, b).1 := Swept.start
  have h := Swept.foldl hg hstart (List.nodup_finRange maxTasks) fun _ _ => id
  refine ⟨h.ids, fun p _ => h.sent p (Or.inr (List.mem_finRange p)), fun p hp => h.kept p ?_⟩
  exact fun hall => hp ⟨trivial, hall.2⟩

theorem reaches_iff_someLives {ret : Int} (h : Swept s c sig priv sel (fun _ => True) u)
    (hret : ret = -esrch ↔ ∀ p, ¬sel p) :
    Reaches s c sel sig priv (u, ret) ↔ SomeLives s c sel sig priv := by
  constructor
  · intro hr p hp hsel
    constructor
    · intro hgr
      have hsent := h.sent p trivial hsel hgr
      have hkept := hr.unused p hp
      exact signal_eq_iff.mp (hsent.symm.trans hkept)
    · by_contra hnone
      have hres := hr.result.mpr fun q hq hq' => hnone ⟨q, hq, hq'⟩
      exact hret.mp hres p hsel
  · intro hall
    refine ⟨fun p _ hsel hgr => h.sent p trivial hsel hgr, fun p hp => ?_, ?_⟩
    · by_cases hsend : sel p ∧ Granted s c sig priv p
      · have hidle := (hall p hp hsend.1).1 hsend.2
        exact (h.sent p trivial hsend.1 hsend.2).trans (signal_eq_iff.mpr hidle)
      · exact h.kept p fun hboth => hsend hboth.2
    · refine hret.trans ⟨fun hnone p _ => hnone p, fun hnone p hsel => ?_⟩
      by_cases hp : Lives s p
      · exact hnone p hp hsel
      · obtain ⟨q, hq, hq'⟩ := (hall p hp hsel).2
        exact hnone q hq hq'

theorem killPg_result (hids : SameIds s r.1) :
    (l.foldl (fun r p =>
      if (r.1.task p).pgrp = pgrp then sendSig r.1 c sig p priv else r) r).2 = -esrch ↔
      r.2 = -esrch ∧ ∀ p ∈ l, (s.task p).pgrp ≠ pgrp := by
  induction l generalizing r with
  | nil => simp
  | cons p l ih =>
      rw [List.foldl_cons]
      by_cases hsel : (r.1.task p).pgrp = pgrp
      · rw [if_pos hsel, ih (hids.trans sendSig_sameIds)]
        rw [hids.pgrp] at hsel
        refine iff_of_false (fun h => sendSig_snd_ne h.1) fun h => ?_
        exact h.2 p List.mem_cons_self hsel
      · rw [if_neg hsel, ih hids]
        rw [hids.pgrp] at hsel
        simp [hsel]

theorem killPg_reaches_iff (s : Procs) (c : TaskRef) (pgrp : Nat) (sig : Fin nsig) (priv : Bool) :
    Reaches s c (fun p => (s.task p).pgrp = pgrp) sig priv (killPg s c pgrp sig priv) ↔
      SomeLives s c (fun p => (s.task p).pgrp = pgrp) sig priv := by
  have hswept : Swept s c sig priv (fun p => (s.task p).pgrp = pgrp) (fun _ => True)
      (killPg s c pgrp sig priv).1 := by
    rw [killPg]
    refine Swept.all fun r p hids => ?_
    rw [hids.pgrp]
    split <;> rfl
  have hret : (killPg s c pgrp sig priv).2 = -esrch ↔ ∀ p, ¬(s.task p).pgrp = pgrp := by
    rw [killPg, killPg_result (SameIds.refl s)]
    simp
  generalize killPg s c pgrp sig priv = r at hswept hret ⊢
  exact reaches_iff_someLives hswept hret

theorem killAll_result {r : Procs × Nat × Int} (hids : SameIds s r.1) (hret : r.2.2 = 0) :
    let r' := l.foldl (killAllRound c sig) r
    r'.2.2 = 0 ∧
      (r'.2.1 = 0 ↔ r.2.1 = 0 ∧
        ∀ p ∈ l, ¬(1 < (s.task p).pid ∧ (s.task p).pid < 32768 ∧ p ≠ c)) := by
  induction l generalizing r with
  | nil => simpa using hret
  | cons p l ih =>
      dsimp only at ih ⊢
      rw [List.foldl_cons]
      by_cases hsel : 1 < (s.task p).pid ∧ (s.task p).pid < 32768 ∧ p ≠ c
      · have hround : killAllRound c sig r p = ((sendSig r.1 c sig p false).1, r.2.1 + 1, 0) := by
          have herr : (sendSig r.1 c sig p false).2 ≠ -eperm →
              (sendSig r.1 c sig p false).2 = 0 := by
            unfold sendSig
            split
            · exact fun h => absurd rfl h
            · exact fun _ => rfl
          rw [killAllRound, hids.pid, if_pos hsel]
          dsimp only
          split
          · rename_i hne
            rw [herr hne]
          · rw [hret]
        rw [hround]
        obtain ⟨hzero, hcount⟩ := ih (r := ((sendSig r.1 c sig p false).1, r.2.1 + 1, 0))
          (hids.trans sendSig_sameIds) rfl
        refine ⟨hzero, hcount.trans (iff_of_false (by simp) fun h => ?_)⟩
        exact h.2 p List.mem_cons_self hsel
      · have hround : killAllRound c sig r p = r := by
          rw [killAllRound, hids.pid, if_neg hsel]
        rw [hround]
        obtain ⟨hzero, hcount⟩ := ih hids hret
        refine ⟨hzero, hcount.trans (and_congr_right fun _ => ?_)⟩
        rw [List.forall_mem_cons]
        exact (and_iff_right hsel).symm

theorem sentOne_reaches_iff {r : Procs × Int} {m : TaskRef} {sel : TaskRef → Prop} (hm : sel m)
    (hfst : r.1 = if Granted s c sig false m then s.signal m sig else s) (hsnd : r.2 ≠ -esrch) :
    Reaches s c sel sig priv r ↔
      (¬Lives s m → (Granted s c sig false m → Idle s sig m) ∧ ∃ q, Lives s q ∧ sel q) ∧
      ∀ q, Lives s q → sel q → Granted s c sig priv q →
        q = m ∧ Granted s c sig false m ∨ Idle s sig q := by
  constructor
  · intro hr
    refine ⟨fun hdead => ⟨fun hgr => ?_, ?_⟩, fun q hq hsel hgr => ?_⟩
    · have hkept := hr.unused m hdead
      rw [hfst, if_pos hgr] at hkept
      exact signal_eq_iff.mp hkept
    · by_contra hnone
      exact hsnd (hr.result.mpr fun q hq hsel => hnone ⟨q, hq, hsel⟩)
    · have hsent := hr.delivered q hq hsel hgr
      by_cases hmine : q = m ∧ Granted s c sig false m
      · exact Or.inl hmine
      · right
        rw [hfst] at hsent
        split at hsent
        · rename_i hsend
          rw [signal_other fun h => hmine ⟨h, hsend⟩] at hsent
          exact signal_eq_iff.mp hsent.symm
        · exact signal_eq_iff.mp hsent.symm
  · rintro ⟨hdead, hlive⟩
    refine ⟨fun q hq hsel hgr => ?_, fun q hq => ?_, ?_⟩
    · rcases hlive q hq hsel hgr with ⟨rfl, hsend⟩ | hidle
      · rw [hfst, if_pos hsend]
      · have hq' := signal_eq_iff.mpr hidle
        rw [hfst]
        split
        · by_cases hqm : q = m
          · rw [hqm]
          · rw [signal_other hqm, hq']
        · exact hq'.symm
    · rw [hfst]
      split
      · rename_i hsend
        by_cases hqm : q = m
        · subst hqm
          exact signal_eq_iff.mpr ((hdead hq).1 hsend)
        · exact signal_other hqm
      · rfl
    · refine iff_of_false hsnd fun hnone => ?_
      by_cases hm' : Lives s m
      · exact hnone m hm' hm
      · obtain ⟨q, hq, hsel⟩ := (hdead hm').2
        exact hnone q hq hsel

theorem killProcess_reaches_iff (s : Procs) (c : TaskRef) (pid : Nat) (sig : Fin nsig)
    (priv : Bool) :
    Reaches s c (fun p => (s.task p).pid = pid) sig priv (killProcess s c pid sig priv) ↔
      FirstLives s c pid sig priv := by
  cases hfirst : (List.finRange maxTasks).find? fun p => (s.task p).pid = pid with
  | none =>
      have hnone : ∀ p, (s.task p).pid ≠ pid := by
        intro p hp
        have hnot := List.find?_eq_none.mp hfirst p (List.mem_finRange p)
        simp [hp] at hnot
      rw [killProcess, hfirst]
      refine iff_of_true ⟨fun p _ hsel => absurd hsel (hnone p), fun _ _ => rfl, ?_⟩ ?_
      · exact iff_of_true rfl fun p _ => hnone p
      · intro m hm
        rw [hfirst] at hm
        cases hm
  | some m =>
      have hm : (s.task m).pid = pid := by
        simpa using List.find?_some hfirst
      have hkill : killProcess s c pid sig priv = sendSig s c sig m false := by
        rw [killProcess, hfirst]
      rw [hkill, sentOne_reaches_iff hm sendSig_fst sendSig_snd_ne]
      constructor
      · intro h m' hm'
        rw [hfirst] at hm'
        cases hm'
        exact h
      · exact fun h => h m hfirst

theorem sysKill_valid :
    sysKill s c pid (sig.val + 1) =
      if pid = 0 then
        killPg s c (s.task c).pgrp sig false
      else if pid = 65535 then
        (((List.finRange maxTasks).foldl (killAllRound c sig) (s, 0, 0)).1,
          if ((List.finRange maxTasks).foldl (killAllRound c sig) (s, 0, 0)).2.1 ≠ 0 then
            ((List.finRange maxTasks).foldl (killAllRound c sig) (s, 0, 0)).2.2
          else -esrch)
      else if 32768 ≤ pid then
        killPg s c (wrapSub 16 0 pid) sig false
      else
        killProcess s c pid sig false := by
  have hsig : wrapSub 16 (sig.val + 1) 1 = sig.val := by
    have hlt : sig.val < 16 := sig.isLt
    rw [wrapSub_of_le (by omega) (by omega), Nat.add_sub_cancel]
  have hvalid : wrapSub 16 (sig.val + 1) 1 < nsig := by
    rw [hsig]
    exact sig.isLt
  have hmk : (⟨wrapSub 16 (sig.val + 1) 1, hvalid⟩ : Fin nsig) = sig := Fin.ext hsig
  rw [sysKill, dif_pos hvalid]
  simp only [hmk]

theorem killAll_reaches_iff (s : Procs) (c : TaskRef) (sig : Fin nsig) :
    Reaches s c (Selected s c 65535) sig false (sysKill s c 65535 (sig.val + 1)) ↔
      SomeLives s c (Selected s c 65535) sig false := by
  have hsel : ∀ p, Selected s c 65535 p ↔
      1 < (s.task p).pid ∧ (s.task p).pid < 32768 ∧ p ≠ c := fun p => Iff.rfl
  have hswept : Swept s c sig false (Selected s c 65535) (fun _ => True)
      ((List.finRange maxTasks).foldl (killAllRound c sig) (s, 0, 0)).1 := by
    refine Swept.all fun r p hids => ?_
    rw [killAllRound, hids.pid]
    simp only [hsel]
    split
    · rfl
    · rfl
  have hstart : SameIds s ((s, 0, 0) : Procs × Nat × Int).1 := SameIds.refl s
  obtain ⟨hzero, hcount⟩ :
      ((List.finRange maxTasks).foldl (killAllRound c sig) (s, 0, 0)).2.2 = 0 ∧
      (((List.finRange maxTasks).foldl (killAllRound c sig) (s, 0, 0)).2.1 = 0 ↔
        0 = 0 ∧ ∀ p ∈ List.finRange maxTasks,
          ¬(1 < (s.task p).pid ∧ (s.task p).pid < 32768 ∧ p ≠ c)) :=
    killAll_result hstart rfl
  rw [sysKill_valid, if_neg (by decide), if_pos rfl]
  generalize (List.finRange maxTasks).foldl (killAllRound c sig) (s, 0, 0) = r
    at hswept hzero hcount ⊢
  refine reaches_iff_someLives hswept ?_
  rw [hzero]
  simp only [hsel]
  by_cases hnone : r.2.1 = 0
  · rw [if_neg (fun h => h hnone)]
    exact iff_of_true rfl fun p => (hcount.mp hnone).2 p (List.mem_finRange p)
  · rw [if_pos hnone]
    refine iff_of_false (by decide) fun h => ?_
    exact hnone (hcount.mpr ⟨rfl, fun p _ => h p⟩)

theorem sysKill_reaches_iff (s : Procs) (c : TaskRef) (pid : Nat) (sig : Fin nsig) :
    Reaches s c (Selected s c pid) sig false (sysKill s c pid (sig.val + 1)) ↔
      CallLives s c pid sig := by
  by_cases hzero : pid = 0
  · subst hzero
    rw [sysKill_valid, if_pos rfl, CallLives, if_neg (by decide)]
    exact killPg_reaches_iff s c (s.task c).pgrp sig false
  by_cases hall : pid = 65535
  · subst hall
    rw [CallLives, if_neg (by decide)]
    exact killAll_reaches_iff s c sig
  have hcall : sysKill s c pid (sig.val + 1) =
      if 32768 ≤ pid then
        killPg s c (wrapSub 16 0 pid) sig false
      else
        killProcess s c pid sig false := by
    rw [sysKill_valid, if_neg hzero, if_neg hall]
  by_cases hneg : 32768 ≤ pid
  · have hsel : Selected s c pid = fun p => (s.task p).pgrp = wrapSub 16 0 pid := by
      funext p
      rw [Selected, if_neg hzero, if_neg hall, if_pos hneg]
    rw [hcall, if_pos hneg, CallLives, if_neg (by omega), hsel]
    exact killPg_reaches_iff s c (wrapSub 16 0 pid) sig false
  · have hsel : Selected s c pid = fun p => (s.task p).pid = pid := by
      funext p
      rw [Selected, if_neg hzero, if_neg hall, if_neg hneg]
    rw [hcall, if_neg hneg, CallLives, if_pos (by omega), hsel]
    exact killProcess_reaches_iff s c pid sig false

/-- A signal reaches the live tasks that are selected, and them only, exactly if the slots
that the call finds are in order. -/
theorem kill_reaches_iff (s : Procs) (c : TaskRef) (sig : Fin nsig) :
    (∀ pid priv, Reaches s c (fun p => (s.task p).pid = pid) sig priv
      (killProcess s c pid sig priv) ↔ FirstLives s c pid sig priv) ∧
    (∀ pgrp priv, Reaches s c (fun p => (s.task p).pgrp = pgrp) sig priv
      (killPg s c pgrp sig priv) ↔ SomeLives s c (fun p => (s.task p).pgrp = pgrp) sig priv) ∧
    ∀ pid, Reaches s c (Selected s c pid) sig false (sysKill s c pid (sig.val + 1)) ↔
      CallLives s c pid sig :=
  ⟨fun pid priv => killProcess_reaches_iff s c pid sig priv,
    fun pgrp priv => killPg_reaches_iff s c pgrp sig priv,
    fun pid => sysKill_reaches_iff s c pid sig⟩

/-- `SIGTERM`, less one. -/
def sigterm : Fin nsig := 14

/-- `init` has a child, in the last slot. -/
def withChild : Procs :=
  (startProcs.doFork 1 true).elim startProcs Prod.fst

/-- The child has tried to fork, without memory. -/
def withoutMemory : Procs :=
  (withChild.doFork 14 false).elim withChild Prod.fst

/-- The slot before that of the child has its number too, and gets the signal instead. -/
theorem killProcess_misses :
    ∃ s, TableRun startProcs [.fork 1 true, .fork 14 false] s ∧
      ¬Reaches s 1 (fun p => (s.task p).pid = 2) sigterm false
        (killProcess s 1 2 sigterm false) := by
  have hchild : startProcs.doFork 1 true = some (withChild, some 14) := by rfl
  have hmemory : withChild.doFork 14 false = some (withoutMemory, none) := by rfl
  have hrun : TableRun startProcs [.fork 1 true, .fork 14 false] withoutMemory :=
    .step (.fork (by decide) hchild) (.step (.fork (by decide) hmemory) (.done _))
  refine ⟨withoutMemory, hrun, fun h => ?_⟩
  have hdead : ¬Lives withoutMemory 13 := by
    unfold Lives
    decide
  have hkept := congrArg (fun p : Proc => p.signal) (h.unused 13 hdead)
  exact absurd hkept (by decide)

end Sends

end Kill
end Elks
