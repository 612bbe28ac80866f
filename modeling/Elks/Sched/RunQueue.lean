import Elks.Sched.Queue

/-!
# The run queue and the frames of `schedule`

The current task is on the ring, except between the two halves of `schedule`, and
what the frames of `schedule` remember is right (`Frame.Ok`).  `Queued` is kept by
everything the machine does, as long as the idle task is not over: `Queued.step`.
-/

namespace Elks
namespace Sched

open Lib
open Function (update_of_ne update_self)

/-- A frame that only the current task can have, as its first. -/
def Frame.passing : Frame → Bool
  | .timers _ => true
  | .fire _ _ => true
  | .dequeue _ => true
  | .choose _ _ => true
  | .arm _ _ => true
  | .switch _ _ => true
  | .forkWake _ => true
  | _ => false

/-- `schedule` may have taken the current task off the ring. -/
def Frame.away : Frame → Bool
  | .choose _ _ => true
  | .arm _ _ => true
  | .switch _ _ => true
  | _ => false

/-- A frame of the end of `do_exit`. -/
def Frame.last : Frame → Bool
  | .dead => true
  | .exited => true
  | _ => false

/-- A stack that can be left alone. -/
def Resting (l : List Frame) : Prop :=
  ∀ f ∈ l, f.passing = false

/-- `schedule` is called by the end of `do_exit`, or will be. -/
def Ending (l : List Frame) : Prop :=
  .dead ∈ l ∨ .exited ∈ l

/-- If the current task is over, it is off the ring. -/
def State.Removed (s : State) : Prop :=
  s.current ≠ 0 → (s.task s.current).state = .unused → s.nextRun s.current = none

/-- What the first frame remembers is right. -/
def Frame.Ok (s : State) (l : List TaskRef) : Frame → Prop
  | .timers next => next ∈ 0 :: l ∧ (s.current ≠ 0 → next ≠ s.current)
  | .fire next p => next ∈ 0 :: l ∧ (s.current ≠ 0 → next ≠ s.current) ∧ s.Wakeable p
  | .dequeue next => next ∈ 0 :: l ∧ (s.current ≠ 0 → next ≠ s.current)
  | .choose next _ => next ∈ 0 :: l ∧ s.Removed
  | .arm next _ => next ∈ 0 :: l ∧ s.Removed
  | .switch next _ => next ∈ 0 :: l ∧ s.Removed
  | .forkWake n => (s.task n).state ≠ .unused
  | _ => True

/-- The run queue, the frames and the timers are in order. -/
structure Queued (s : State) (l : List TaskRef) : Prop where
  queue : Queue s l
  frame : ∀ f rest, s.stack s.current = f :: rest → f.Ok s l ∧ Resting rest
  parked : ∀ t, t ≠ s.current → Resting (s.stack t)
  on : s.current ≠ 0 → s.current ∈ l ∨
    ∃ f rest, s.stack s.current = f :: rest ∧ f.away = true
  timers : ∀ tm ∈ s.tlList, s.Wakeable tm.data ∧ tm.data = tm.slot
  ending : (s.task s.current).state = .unused → Ending (s.stack s.current)
  idle : (s.task 0).state ≠ .unused

section Frames

variable {s s' : State} {l l' : List TaskRef} {p t : TaskRef} {f : Frame}
  {st rest : List Frame}

theorem Frame.ok_of_not_passing (h : f.passing = false) : f.Ok s l := by
  cases f <;> trivial

theorem Frame.not_away (h : f.passing = false) : f.away = false := by
  cases f <;> first | rfl | cases h

theorem Resting.tail (h : Resting (f :: rest)) : Resting rest :=
  fun g hg => h g (List.mem_cons_of_mem f hg)

theorem Resting.cons (hf : f.passing = false) (h : Resting rest) : Resting (f :: rest) := by
  intro g hg
  rcases List.mem_cons.mp hg with rfl | hg
  · exact hf
  · exact h g hg

theorem Ending.cons (h : Ending rest) : Ending (f :: rest) :=
  h.imp (List.mem_cons_of_mem f) (List.mem_cons_of_mem f)

theorem Ending.tail (h : Ending (f :: rest)) (hlast : f.last = false) : Ending rest := by
  rcases h with h | h
  · refine Or.inl ((List.mem_cons.mp h).resolve_left ?_)
    rintro rfl
    cases hlast
  · refine Or.inr ((List.mem_cons.mp h).resolve_left ?_)
    rintro rfl
    cases hlast

/-- What a frame remembers stays right when the run queue only grows. -/
theorem Frame.Ok.mono (h : f.Ok s l) (hl : ∀ t, t ∈ l → t ∈ l') (hcurrent : s'.current = s.current)
    (hwake : ∀ p, s.Wakeable p → s'.Wakeable p) (hremoved : s.Removed → s'.Removed)
    (hused : ∀ t, (s.task t).state ≠ .unused → (s'.task t).state ≠ .unused) : f.Ok s' l' := by
  have hmem : ∀ t, t ∈ 0 :: l → t ∈ 0 :: l' := by
    intro t ht
    rcases List.mem_cons.mp ht with rfl | ht
    · exact List.mem_cons_self
    · exact List.mem_cons_of_mem 0 (hl t ht)
  cases f with
  | timers next =>
      unfold Frame.Ok
      rw [hcurrent]
      exact ⟨hmem next h.1, h.2⟩
  | fire next p =>
      unfold Frame.Ok
      rw [hcurrent]
      exact ⟨hmem next h.1, h.2.1, hwake p h.2.2⟩
  | dequeue next =>
      unfold Frame.Ok
      rw [hcurrent]
      exact ⟨hmem next h.1, h.2⟩
  | choose next timeout => exact ⟨hmem next h.1, hremoved h.2⟩
  | arm next timeout => exact ⟨hmem next h.1, hremoved h.2⟩
  | switch next timeout => exact ⟨hmem next h.1, hremoved h.2⟩
  | forkWake n => exact hused n h
  | _ => trivial

theorem Queued.congr
    (h : Queued s l) (hnext : s'.nextRun = s.nextRun) (hprev : s'.prevRun = s.prevRun)
    (hcount : s'.nrRunning = s.nrRunning) (hcurrent : s'.current = s.current)
    (hstate : ∀ t, (s'.task t).state = (s.task t).state) (hstack : s'.stack = s.stack)
    (htimers : ∀ tm, tm ∈ s'.tlList → tm ∈ s.tlList) : Queued s' l := by
  have hlive : ∀ t, s'.Live t ↔ s.Live t := by
    intro t
    unfold State.Live
    rw [hstate, hcurrent]
  have hwake : ∀ p, s.Wakeable p → s'.Wakeable p := by
    intro p hp
    unfold State.Wakeable at hp ⊢
    rw [hlive, hnext]
    exact hp
  refine ⟨h.queue.congr hnext hprev hcount hcurrent hstate, ?_, ?_, ?_, ?_, ?_, ?_⟩
  · intro f rest hf
    rw [hstack, hcurrent] at hf
    obtain ⟨hok, hrest⟩ := h.frame f rest hf
    refine ⟨hok.mono (fun _ ht => ht) hcurrent hwake ?_ ?_, hrest⟩
    · intro hremoved
      unfold State.Removed at hremoved ⊢
      rw [hcurrent, hstate, hnext]
      exact hremoved
    · intro t ht
      rw [hstate]
      exact ht
  · intro t ht
    rw [hcurrent] at ht
    rw [hstack]
    exact h.parked t ht
  · rw [hcurrent, hstack]
    exact h.on
  · intro tm htm
    obtain ⟨hw, hslot⟩ := h.timers tm (htimers tm htm)
    exact ⟨hwake _ hw, hslot⟩
  · rw [hcurrent, hstate, hstack]
    exact h.ending
  · rw [hstate]
    exact h.idle

theorem Queued.wake (h : Queued s l) (hp : s.Wakeable p) :
    ∃ l', Queued (s.wakeUpProcess p) l' ∧ ∀ t, t ∈ l → t ∈ l' := by
  obtain ⟨l', hqueue, hl⟩ := h.queue.wake hp
  have hused : ∀ t, (s.task t).state ≠ .unused →
      ((s.wakeUpProcess p).task t).state ≠ .unused := by
    intro t ht
    rcases eq_or_ne t p with rfl | htp
    · simp
    · simpa [htp] using ht
  have hback : ∀ t, ((s.wakeUpProcess p).task t).state = .unused →
      t ≠ p ∧ (s.task t).state = .unused := by
    intro t ht
    rcases eq_or_ne t p with rfl | htp
    · simp at ht
    · exact ⟨htp, by simpa [htp] using ht⟩
  have hlive : ∀ t, s.Live t → (s.wakeUpProcess p).Live t := by
    rintro t (ht | ht)
    · exact Or.inl (hused t ht)
    · exact Or.inr (by simpa using ht)
  have hwake : ∀ q, s.Wakeable q → (s.wakeUpProcess p).Wakeable q := by
    rintro q (hq | hq | hq)
    · exact Or.inl hq
    · exact Or.inr (Or.inl (hlive q hq))
    · rcases eq_or_ne q p with rfl | hqp
      · exact Or.inr (Or.inl (Or.inl (by simp)))
      · exact Or.inr (Or.inr ((h.queue.wake_next hqp).mpr hq))
  refine ⟨l', ⟨hqueue, ?_, ?_, ?_, ?_, ?_, hused 0 h.idle⟩, hl⟩
  · intro f rest hf
    rw [wakeUpProcess_stack, wakeUpProcess_current] at hf
    obtain ⟨hok, hrest⟩ := h.frame f rest hf
    refine ⟨hok.mono hl (wakeUpProcess_current s p) hwake ?_ hused, hrest⟩
    intro hremoved hc hstate
    rw [wakeUpProcess_current] at hc hstate ⊢
    obtain ⟨hne, hold⟩ := hback _ hstate
    exact (h.queue.wake_next hne).mpr (hremoved hc hold)
  · intro t ht
    rw [wakeUpProcess_current] at ht
    rw [wakeUpProcess_stack]
    exact h.parked t ht
  · intro hc
    rw [wakeUpProcess_current] at hc ⊢
    rw [wakeUpProcess_stack]
    exact (h.on hc).imp_left (hl _)
  · intro tm htm
    rw [wakeUpProcess_tlList] at htm
    obtain ⟨hw, hslot⟩ := h.timers tm htm
    exact ⟨hwake _ hw, hslot⟩
  · intro hstate
    rw [wakeUpProcess_current] at hstate ⊢
    rw [wakeUpProcess_stack]
    exact h.ending (hback _ hstate).2

theorem Queued.setStack
    (h : Queued s l) (hframe : ∀ f rest, st = f :: rest → f.Ok s l ∧ Resting rest)
    (hon : s.current ≠ 0 → s.current ∈ l ∨ ∃ f rest, st = f :: rest ∧ f.away = true)
    (hending : (s.task s.current).state = .unused → Ending st) : Queued (s.setStack st) l := by
  have hself : (s.setStack st).stack s.current = st := update_self _ _ _
  have hother : ∀ t, t ≠ s.current → (s.setStack st).stack t = s.stack t :=
    fun t ht => update_of_ne ht _ _
  refine ⟨h.queue.congr rfl rfl rfl rfl fun _ => rfl, ?_, ?_, ?_, h.timers, ?_, h.idle⟩
  · intro f rest hf
    have hf' : st = f :: rest := hself.symm.trans hf
    obtain ⟨hok, hrest⟩ := hframe f rest hf'
    exact ⟨hok.mono (fun _ ht => ht) rfl (fun _ hp => hp) (fun hr => hr) fun _ ht => ht,
      hrest⟩
  · intro t ht
    rw [hother t ht]
    exact h.parked t ht
  · intro hc
    have hs : (s.setStack st).stack (s.setStack st).current = st := hself
    rw [hs]
    exact hon hc
  · intro hstate
    have hs : (s.setStack st).stack (s.setStack st).current = st := hself
    rw [hs]
    exact hending hstate

theorem Queued.takes {d : Task}
    (h : Queued s l) (hon : s.current ≠ 0 → s.current ∈ l) (hst : Resting st)
    (hending : d.state = .unused → Ending st)
    (hidle : ((s.takes (.goes d st)).task 0).state ≠ .unused) :
    Queued (s.takes (.goes d st)) l := by
  have hself : ((s.modTask s.current fun _ => d).setStack st).stack s.current = st :=
    update_self _ _ _
  have htask : ((s.modTask s.current fun _ => d).setStack st).task s.current = d :=
    update_self _ _ _
  have hwake : ∀ p, s.Wakeable p → (s.takes (.goes d st)).Wakeable p := by
    rintro p (hp | hp | hp)
    · exact Or.inl hp
    · rcases eq_or_ne p s.current with rfl | hpc
      · exact Or.inr (Or.inl (Or.inr rfl))
      · refine Or.inr (Or.inl ?_)
        rcases hp with hp | hp
        · left
          simpa [State.takes, State.modTask, State.setStack, hpc] using hp
        · exact absurd hp hpc
    · exact Or.inr (Or.inr hp)
  refine ⟨?_, ?_, ?_, fun hc => Or.inl (hon hc), ?_, ?_, hidle⟩
  · exact (h.queue.modCurrent (g := fun _ => d) hon).congr rfl rfl rfl rfl fun _ => rfl
  · intro f rest hf
    have hf' : st = f :: rest := hself.symm.trans hf
    subst hf'
    exact ⟨Frame.ok_of_not_passing (hst f List.mem_cons_self), hst.tail⟩
  · intro t ht
    have hother : ((s.modTask s.current fun _ => d).setStack st).stack t = s.stack t :=
      update_of_ne ht _ _
    intro g hg
    exact h.parked t ht g (hother ▸ hg)
  · intro tm htm
    obtain ⟨hw, hslot⟩ := h.timers tm htm
    exact ⟨hwake _ hw, hslot⟩
  · intro hstate
    have hs : (s.takes (.goes d st)).stack (s.takes (.goes d st)).current = st := hself
    have ht : (s.takes (.goes d st)).task (s.takes (.goes d st)).current = d := htask
    rw [hs]
    rw [ht] at hstate
    exact hending hstate

end Frames

section Turn

variable {d d' : Task} {idle : Bool} {locked : Nat → Bool} {op : Op} {f : Frame}
  {st rest : List Frame}

/-- The frames under the first are still there, and those above them leave the run
queue alone. -/
structure Grown (d d' : Task) (f : Frame) (rest st : List Frame) : Prop where
  pre : ∃ pre, st = pre ++ rest ∧ Resting pre
  state : d'.state = .unused → d.state = .unused ∨ Ending st
  ending : Ending (f :: rest) → Ending st

theorem resting_nil : Resting [] := by
  intro f hf
  cases hf

theorem Grown.of {m : List Frame} (hst : st = m ++ rest) (hm : Resting m)
    (hstate : d'.state = .unused → d.state = .unused) (hlast : f.last = false) :
    Grown d d' f rest st := by
  refine ⟨⟨m, hst, hm⟩, fun h => Or.inl (hstate h), ?_⟩
  intro h
  rw [hst]
  exact (h.tail hlast).imp (List.mem_append_right m) (List.mem_append_right m)

theorem resting_one (hf : f.passing = false) : Resting [f] :=
  resting_nil.cons hf

theorem resting_two {g : Frame} (hf : f.passing = false) (hg : g.passing = false) :
    Resting [f, g] :=
  (resting_one hg).cons hf

theorem grown_work
    (h : d.work idle locked (f :: rest) op = some (.goes d' st)) (hf : f.passing = false)
    (hlast : f.last = false) : Grown d d' f rest st := by
  rcases work_goes h with ⟨addr, state, _, hstate, rfl, rfl⟩ | ⟨addr, _, _, rfl, rfl⟩ |
    ⟨rfl, rfl | rfl⟩
  · exact Grown.of (m := [.sleepSet addr, f]) rfl (resting_two rfl hf)
      (fun h => absurd h hstate) hlast
  · exact Grown.of (m := [.waitSet addr, f]) rfl (resting_two rfl hf) id hlast
  · exact Grown.of (m := [f]) rfl (resting_one hf) id hlast
  · exact Grown.of (m := [.entry, f]) rfl (resting_two rfl hf) id hlast

theorem onward_resting : ∀ m ∈ f.onward, f.passing = false ∧ Resting m := by
  cases f <;> simp [Frame.onward, Resting, Frame.passing]

theorem onward_ending : ∀ m ∈ f.onward, f.last = true ∨ f = .freeing → Ending (m ++ rest) := by
  cases f <;> simp [Frame.onward, Frame.last, Ending]

theorem grown_turn (h : d.turn idle locked op f rest = some (.goes d' st)) :
    f.passing = false ∧ Grown d d' f rest st := by
  rcases turn_goes h with ⟨rfl | rfl, hwork⟩ | ⟨hstepped, m, hm, rfl⟩
  · exact ⟨rfl, grown_work hwork rfl rfl⟩
  · exact ⟨rfl, grown_work hwork rfl rfl⟩
  · obtain ⟨hpassing, hresting⟩ := onward_resting m hm
    refine ⟨hpassing, ⟨m, rfl, hresting⟩, fun hunused => ?_, fun hend => ?_⟩
    · exact (hstepped.state hunused).imp_right fun hfree =>
        onward_ending m hm (Or.inr hfree.1)
    · cases hlast : f.last with
      | true => exact onward_ending m hm (Or.inl hlast)
      | false =>
          exact (hend.tail hlast).imp (List.mem_append_right m) (List.mem_append_right m)

end Turn

section Schedule

variable {s s' : State} {l : List TaskRef} {f : Frame} {rest : List Frame} {tl : List Timer}
  {timeout : Nat}

theorem Queued.onRing
    (h : Queued s l) (hf : s.stack s.current = f :: rest) (haway : f.away = false) :
    s.current ≠ 0 → s.current ∈ l := by
  intro hc
  rcases h.on hc with hmem | ⟨g, st, hst, hg⟩
  · exact hmem
  · rw [hf] at hst
    obtain ⟨rfl, rfl⟩ := List.cons.inj hst
    rw [haway] at hg
    cases hg

theorem Queued.endingRest
    (h : Queued s l) (hf : s.stack s.current = f :: rest) (hlast : f.last = false) (hstate : (s.task s.current).state = .unused) :
    Ending rest := by
  have hending := h.ending hstate
  rw [hf] at hending
  exact hending.tail hlast

theorem Queued.next {g : Frame}
    (h : Queued s l) (hf : s.stack s.current = f :: rest) (hok : g.Ok s l)
    (hon : s.current ≠ 0 → s.current ∈ l ∨ g.away = true) (hlast : f.last = false) :
    Queued (s.setStack (g :: rest)) l := by
  refine h.setStack ?_ ?_ fun hstate => (h.endingRest hf hlast hstate).cons
  · intro g' rest' hg
    obtain ⟨rfl, rfl⟩ := List.cons.inj hg
    exact ⟨hok, (h.frame f rest hf).2⟩
  · intro hc
    rcases hon hc with hmem | haway
    · exact Or.inl hmem
    · exact Or.inr ⟨g, rest, rfl, haway⟩

theorem Queued.back (h : Queued s l) (hf : s.stack s.current = f :: rest)
    (hon : s.current ≠ 0 → s.current ∈ l) (hlast : f.last = false) :
    Queued (s.setStack rest) l := by
  have hrest := (h.frame f rest hf).2
  refine h.setStack ?_ (fun hc => Or.inl (hon hc)) (h.endingRest hf hlast)
  intro g rest' hg
  subst hg
  exact ⟨Frame.ok_of_not_passing (hrest g List.mem_cons_self), hrest.tail⟩

theorem Queued.del {next : TaskRef}
    (h : Queued s l) (hf : s.stack s.current = .dequeue next :: rest)
    (hstate : (s.task s.current).state ≠ .running) :
    ∃ l', Queued ((s.delFromRunqueue s.current).setStack (.choose next timeout :: rest))
      l' := by
  obtain ⟨⟨hnext, hne⟩, _⟩ := h.frame _ _ hf
  rcases eq_or_ne s.current 0 with hc | hc
  · have hsame : s.delFromRunqueue s.current = s := by
      rw [hc]
      exact if_pos rfl
    rw [hsame]
    refine ⟨l, h.next hf ⟨hnext, fun h => absurd hc h⟩ (fun h => absurd hc h) rfl⟩
  · obtain ⟨l', hqueue, hmem, hlinks⟩ := h.queue.del hc (h.onRing hf rfl hc) hstate
    have htask := delFromRunqueue_task s s.current
    have hstack := delFromRunqueue_stack s s.current
    have hcur := delFromRunqueue_current s s.current
    have htl := delFromRunqueue_tlList s s.current
    generalize s.delFromRunqueue s.current = u at hqueue hlinks htask hstack hcur htl ⊢
    have hremoved : u.nextRun s.current = none := by
      by_contra hsome
      exact ((hlinks s.current).mp hsome).2 rfl
    have hself : (u.setStack (.choose next timeout :: rest)).stack u.current =
        .choose next timeout :: rest := setStack_self u _
    refine ⟨l', ⟨hqueue.congr rfl rfl rfl rfl fun _ => rfl, ?_, ?_, ?_, ?_, ?_, ?_⟩⟩
    · intro g rest' hg
      rw [setStack_current, hself] at hg
      obtain ⟨rfl, rfl⟩ := List.cons.inj hg
      refine ⟨⟨?_, ?_⟩, (h.frame _ _ hf).2⟩
      · rcases List.mem_cons.mp hnext with rfl | hnl
        · exact List.mem_cons_self
        · exact List.mem_cons_of_mem 0 ((hmem next).mpr ⟨hnl, hne hc⟩)
      · intro _ _
        rw [setStack_current, hcur]
        exact hremoved
    · intro t ht
      rw [setStack_current] at ht
      rw [setStack_other u _ ht, hstack]
      exact h.parked t (hcur ▸ ht)
    · intro _
      rw [setStack_current, hself]
      exact Or.inr ⟨_, rest, rfl, rfl⟩
    · intro tm htm
      rw [setStack_tlList, htl] at htm
      obtain ⟨hw, hslot⟩ := h.timers tm htm
      refine ⟨hw.imp_right (Or.imp ?_ ?_), hslot⟩
      · intro hlive
        unfold State.Live at hlive ⊢
        rw [setStack_task, htask, setStack_current, hcur]
        exact hlive
      · intro hnone
        by_contra hsome
        exact ((hlinks _).mp hsome).1 hnone
    · intro hunused
      rw [setStack_current, hself]
      rw [setStack_task, htask, setStack_current, hcur] at hunused
      exact (h.endingRest hf rfl hunused).cons
    · rw [setStack_task, htask]
      exact h.idle

theorem Queued.halt {halt : Halt} (h : Queued s l) : Queued (s.halt halt) l :=
  h.congr rfl rfl rfl rfl (fun _ => rfl) rfl fun _ htm => htm

theorem Queued.makeRunnable {next : TaskRef} {g : Task → Task}
    (h : Queued s l) (hf : s.stack s.current = .dequeue next :: rest)
    (hg : ∀ d, (g d).state = .running) :
    Queued ((s.modTask s.current g).setStack (.choose next 0 :: rest)) l := by
  obtain ⟨⟨hnext, _⟩, hrest⟩ := h.frame _ _ hf
  have hused : ∀ t, ((s.takes (.goes (g (s.task s.current)) rest)).task t).state = .unused →
      t ≠ s.current ∧ (s.task t).state = .unused := by
    intro t ht
    rcases eq_or_ne t s.current with rfl | hne
    · have hself : (s.takes (.goes (g (s.task s.current)) rest)).task s.current =
          g (s.task s.current) := update_self _ _ _
      rw [hself, hg] at ht
      cases ht
    · have hother : (s.takes (.goes (g (s.task s.current)) rest)).task t = s.task t :=
        update_of_ne hne _ _
      rw [hother] at ht
      exact ⟨hne, ht⟩
  have hmod : Queued (s.takes (.goes (g (s.task s.current)) rest)) l := by
    refine h.takes (h.onRing hf rfl) hrest ?_ fun h0 => h.idle (hused 0 h0).2
    intro hunused
    rw [hg] at hunused
    cases hunused
  have hback : (s.takes (.goes (g (s.task s.current)) rest)).setStack
      (.choose next 0 :: rest) =
        (s.modTask s.current g).setStack (.choose next 0 :: rest) := by
    simp [State.takes, State.setStack, State.modTask]
  rw [← hback]
  refine hmod.setStack ?_ (fun _ => Or.inr ⟨_, rest, rfl, rfl⟩) ?_
  · intro f rest' hf'
    obtain ⟨rfl, rfl⟩ := List.cons.inj hf'
    refine ⟨⟨hnext, ?_⟩, hrest⟩
    intro _ hunused
    exact absurd rfl (hused s.current hunused).1
  · intro hunused
    exact absurd rfl (hused s.current hunused).1

theorem Queued.dequeue {next : TaskRef}
    (h : Queued s l) (hf : s.stack s.current = .dequeue next :: rest) :
    ∃ l', Queued (s.dequeue next rest) l' := by
  refine dequeue_ind s (P := fun u => ∃ l', Queued u l') ?_ ?_ ?_
  · exact fun g _ hg _ => ⟨l, h.makeRunnable hf hg⟩
  · exact fun timeout hst _ => h.del hf hst
  · intro hrun
    refine ⟨l, h.next hf ⟨(h.frame _ _ hf).1.1, ?_⟩ (fun _ => Or.inr rfl) rfl⟩
    intro _ hunused
    rw [hrun] at hunused
    cases hunused

theorem Queued.setTimers (h : Queued s l)
    (htl : ∀ tm ∈ tl, tm ∈ s.tlList ∨ tm.slot = s.current ∧ tm.data = s.current) :
    Queued { s with tlList := tl } l := by
  refine ⟨h.queue.congr rfl rfl rfl rfl fun _ => rfl, ?_, h.parked, h.on, ?_, h.ending,
    h.idle⟩
  · intro f rest hf
    obtain ⟨hok, hrest⟩ := h.frame f rest hf
    exact ⟨hok.mono (fun _ ht => ht) rfl (fun _ hp => hp) (fun hr => hr) fun _ ht => ht,
      hrest⟩
  · intro tm htm
    rcases htl tm htm with hold | ⟨hslot, hdata⟩
    · exact h.timers tm hold
    · exact ⟨Or.inr (Or.inl (Or.inr hdata)), hdata.trans hslot.symm⟩

theorem mem_addTimer {tm tm' : Timer} (h : tm' ∈ addTimer tm tl) : tm' = tm ∨ tm' ∈ tl := by
  induction tl with
  | nil => exact Or.inl (List.mem_singleton.mp h)
  | cons tm₀ tl ih =>
      unfold addTimer at h
      split at h
      · exact List.mem_cons.mp h
      · rcases List.mem_cons.mp h with rfl | h
        · exact Or.inr List.mem_cons_self
        · exact (ih h).imp_right (List.mem_cons_of_mem tm₀)

theorem Queued.switch {next : TaskRef}
    (h : Queued s l) (hf : s.stack s.current = .switch next timeout :: rest) :
    Queued { s.setStack (.switched timeout :: rest) with current := next } l := by
  obtain ⟨⟨hnext, hremoved⟩, hrest⟩ := h.frame _ _ hf
  have hresting : Resting (.switched timeout :: rest) := hrest.cons rfl
  have hstack : ∀ t, Resting ((s.setStack (.switched timeout :: rest)).stack t) := by
    intro t
    rcases eq_or_ne t s.current with rfl | ht
    · rw [setStack_self]
      exact hresting
    · rw [setStack_other s _ ht]
      exact h.parked t ht
  have hqueue : Queue (s.setStack (.switched timeout :: rest)) l :=
    h.queue.congr rfl rfl rfl rfl fun _ => rfl
  refine ⟨hqueue.switch hnext hremoved, ?_, fun t _ => hstack t, ?_, ?_, ?_, h.idle⟩
  · intro f rest' hf'
    have hall := hstack next
    have hf'' : (s.setStack (.switched timeout :: rest)).stack next = f :: rest' := hf'
    rw [hf''] at hall
    exact ⟨Frame.ok_of_not_passing (hall f List.mem_cons_self), hall.tail⟩
  · intro hc
    exact Or.inl ((List.mem_cons.mp hnext).resolve_left hc)
  · intro tm htm
    obtain ⟨hw, hslot⟩ := h.timers tm htm
    refine ⟨?_, hslot⟩
    rcases hw with hw | (hw | hw) | hw
    · exact Or.inl hw
    · exact Or.inr (Or.inl (Or.inl hw))
    · by_cases hunused : (s.task tm.data).state = .unused
      · rcases eq_or_ne tm.data 0 with h0 | h0
        · exact Or.inl h0
        · refine Or.inr (Or.inr ?_)
          have hrem := hremoved (hw ▸ h0) (hw ▸ hunused)
          rw [hw]
          exact hrem
      · exact Or.inr (Or.inl (Or.inl hunused))
    · exact Or.inr (Or.inr hw)
  · intro hunused
    have hunused' : (s.task next).state = .unused := hunused
    have hst : Ending ((s.setStack (.switched timeout :: rest)).stack next) := by
      rcases eq_or_ne next s.current with rfl | hne
      · rw [setStack_self]
        exact (h.endingRest hf rfl hunused').cons
      · rcases List.mem_cons.mp hnext with rfl | hmem
        · exact absurd hunused' h.idle
        · have hn0 : next ≠ 0 := by
            rintro rfl
            exact (List.nodup_cons.mp h.queue.ring.nodup).1 hmem
          rcases ((h.queue.mem next hn0).mp hmem).1 with hlive | heq
          · exact absurd hunused' hlive
          · exact absurd heq hne
    exact hst

theorem Queued.current_mem (h : Queued s l) (hf : s.stack s.current = .entry :: rest) :
    s.current ∈ 0 :: l := by
  rcases eq_or_ne s.current 0 with hc | hc
  · rw [hc]
    exact List.mem_cons_self
  · exact List.mem_cons_of_mem 0 (h.onRing hf rfl hc)

theorem Queued.schedule (h : Queued s l) (hf : s.stack s.current = f :: rest)
    (hrun : s.schedule rest f = some s') : ∃ l', Queued s' l' := by
  have hok := (h.frame f rest hf).1
  cases schedule_cases s hrun with
  | exiting => exact ⟨l, h.back hf (h.onRing hf rfl) rfl⟩
  | unlinked hnone =>
      obtain ⟨g, _, hlink, _⟩ := h.queue.ring.exists_next (h.current_mem hf)
      rw [hnone] at hlink
      cases hlink
  | linked next hnext =>
      have hon := h.onRing hf rfl
      obtain ⟨g, hg, hlink, hself⟩ := h.queue.ring.exists_next (h.current_mem hf)
      obtain rfl := Option.some.inj (hlink.symm.trans hnext)
      refine ⟨l, h.next hf ⟨hg, ?_⟩ (fun hc => Or.inl (hon hc)) rfl⟩
      intro hc heq
      have hl := hself heq
      rw [List.cons.injEq] at hl
      exact hc hl.1.symm
  | expired next tm tl htl =>
      have htm : tm ∈ s.tlList := by
        rw [htl]
        exact List.mem_cons_self
      have h' : Queued { s with tlList := tl } l := by
        refine h.setTimers fun tm' htm' => Or.inl ?_
        rw [htl]
        exact List.mem_cons_of_mem tm htm'
      exact ⟨l, h'.next (f := .timers next) hf ⟨hok.1, hok.2, (h.timers tm htm).1⟩
        (fun hc => Or.inl (h.onRing hf rfl hc)) rfl⟩
  | unexpired next => exact ⟨l, h.next hf hok (fun hc => Or.inl (h.onRing hf rfl hc)) rfl⟩
  | fire next p =>
      have hstate : ∀ t, ((s.modTask p fun d => { d with timeout := 0 }).task t).state =
          (s.task t).state := by
        intro t
        rcases eq_or_ne t p with rfl | ht
        · simp [State.modTask]
        · simp [State.modTask, ht]
      have h₁ : Queued (s.modTask p fun d => { d with timeout := 0 }) l :=
        h.congr rfl rfl rfl rfl hstate rfl fun _ htm => htm
      have hwake : (s.modTask p fun d => { d with timeout := 0 }).Wakeable p := by
        refine hok.2.2.imp_right (Or.imp_left ?_)
        unfold State.Live
        rw [hstate]
        exact id
      obtain ⟨l', h₂, hl⟩ := h₁.wake hwake
      have hc := wakeUpProcess_current (s.modTask p fun d => { d with timeout := 0 }) p
      have hst := wakeUpProcess_stack (s.modTask p fun d => { d with timeout := 0 }) p
      generalize (s.modTask p fun d => { d with timeout := 0 }).wakeUpProcess p = u
        at h₂ hc hst ⊢
      have hc' : u.current = s.current := hc
      have hf' : u.stack u.current = .fire next p :: rest := by
        rw [hst, hc']
        exact hf
      refine ⟨l', h₂.next hf' ⟨?_, ?_⟩ (fun hc => Or.inl (h₂.onRing hf' rfl hc)) rfl⟩
      · rcases List.mem_cons.mp hok.1 with h0 | hmem
        · rw [h0]
          exact List.mem_cons_self
        · exact List.mem_cons_of_mem 0 (hl next hmem)
      · rw [hc']
        exact hok.2.1
  | dequeue next => exact h.dequeue hf
  | idleUnlinked _ _ hnone =>
      obtain ⟨g, _, hlink, _⟩ := h.queue.ring.exists_next List.mem_cons_self
      rw [hnone] at hlink
      cases hlink
  | skipsIdle next timeout g hg =>
      obtain ⟨g', hg', hlink, _⟩ := h.queue.ring.exists_next List.mem_cons_self
      obtain rfl := Option.some.inj (hlink.symm.trans hg)
      exact ⟨l, h.next hf ⟨hg', hok.2⟩ (fun _ => Or.inr rfl) rfl⟩
  | same timeout =>
      refine ⟨l, h.back hf ?_ rfl⟩
      intro hc
      exact (List.mem_cons.mp hok.1).resolve_left hc
  | other _ _ | armsNot _ => exact ⟨l, h.next hf hok (fun _ => Or.inr rfl) rfl⟩
  | arms next timeout =>
      have h' : Queued { s with
          tlList := addTimer ⟨s.current, rest.length, timeout, s.current⟩ s.tlList } l := by
        refine h.setTimers fun tm htm => ?_
        rcases mem_addTimer htm with rfl | hold
        · exact Or.inr ⟨rfl, rfl⟩
        · exact Or.inl hold
      exact ⟨l, h'.next (f := .arm next timeout) hf hok (fun _ => Or.inr rfl) rfl⟩
  | switch next timeout => exact ⟨l, h.switch hf⟩
  | disarms timeout =>
      have h' : Queued { s with tlList := delTimer s.current rest.length s.tlList } l :=
        h.setTimers fun tm htm => Or.inl (List.mem_of_mem_filter htm)
      exact ⟨l, h'.back (f := .disarm timeout) hf (h.onRing hf rfl) rfl⟩
  | disarmsNot => exact ⟨l, h.back hf (h.onRing hf rfl) rfl⟩

end Schedule

section Step

variable {s s' : State} {l : List TaskRef} {n p : TaskRef} {rest : List Frame} {op : Op}
  {addr : Nat} {it : Bool} {f : Frame}

theorem Queued.fill {d : Task} {next prev : Option TaskRef}
    (h : Queued s l) (hn : n ≠ 0) (hunused : (s.task n).state = .unused)
    (hc : n ≠ s.current) (hd : d.state ≠ .running)
    (hout : d.state = .unused ∨ next = none) (hfree : ∀ tm ∈ s.tlList, tm.slot ≠ n)
    (hnil : s.stack s.current = []) : Queued (s.fill n d next prev) l := by
  have hl : n ∉ l := by
    intro hmem
    rcases ((h.queue.mem n hn).mp hmem).1 with hlive | heq
    · exact hlive hunused
    · exact hc heq
  have hstack : (s.fill n d next prev).stack s.current = s.stack s.current :=
    update_of_ne hc.symm _ _
  have htask : ∀ t, t ≠ n → (s.fill n d next prev).task t = s.task t :=
    fun t ht => update_of_ne ht _ _
  have hwake : ∀ q, q ≠ n → s.Wakeable q → (s.fill n d next prev).Wakeable q := by
    intro q hq hw
    refine hw.imp_right (Or.imp ?_ ?_)
    · intro hlive
      simpa [State.Live, State.fill, hq] using hlive
    · intro hnone
      simpa [State.fill, hq] using hnone
  refine ⟨h.queue.fill hn hl hc hd hout, ?_, ?_, ?_, ?_, ?_, ?_⟩
  · intro f rest hf
    have hf' : s.stack s.current = f :: rest := hstack.symm.trans hf
    rw [hnil] at hf'
    cases hf'
  · intro t ht
    rcases eq_or_ne t n with rfl | htn
    · have hnil : (s.fill t d next prev).stack t = [] := update_self _ _ _
      rw [hnil]
      exact resting_nil
    · have hother : (s.fill n d next prev).stack t = s.stack t :=
        update_of_ne htn _ _
      rw [hother]
      exact h.parked t ht
  · intro hc0
    have hon := h.on hc0
    rw [← hstack] at hon
    exact hon
  · intro tm htm
    obtain ⟨hw, hslot⟩ := h.timers tm htm
    exact ⟨hwake _ (hslot ▸ hfree tm htm) hw, hslot⟩
  · intro hst
    have hst' : (s.task s.current).state = .unused := by
      rw [← htask _ hc.symm]
      exact hst
    have hending := h.ending hst'
    rw [← hstack] at hending
    exact hending
  · rw [htask 0 hn.symm]
    exact h.idle

theorem findEmptyProcess_unused {root : Bool} (h : s.findEmptyProcess root = some n) :
    (s.task n).state = .unused := by
  unfold State.findEmptyProcess at h
  dsimp only at h
  split at h
  · cases h
  · simpa using List.mem_of_getLast? h

theorem Queued.fork {root memory : Bool} {pid : Nat}
    (h : Queued s l) (hnil : s.stack s.current = []) : Queued (s.fork root memory pid) l := by
  have hcused : (s.task s.current).state ≠ .unused := by
    intro hunused
    have hending := h.ending hunused
    rw [hnil] at hending
    rcases hending with hd | hd
    · cases hd
    · cases hd
  unfold State.fork
  split
  · exact h
  · rename_i n hfind
    have hunused := findEmptyProcess_unused hfind
    have hn0 : n ≠ 0 := by
      rintro rfl
      exact h.idle hunused
    have hnc : n ≠ s.current := by
      rintro rfl
      exact hcused hunused
    split
    · exact h.halt
    · rename_i hany
      have hfree : ∀ tm ∈ s.tlList, tm.slot ≠ n := by
        intro tm htm hslot
        refine hany (List.any_eq_true.mpr ⟨tm, htm, ?_⟩)
        simpa using hslot
      cases memory with
      | true =>
          have h₁ : Queued (s.fill n { s.task s.current with
              state := .uninterruptible, pid := pid } none none) l :=
            h.fill hn0 hunused hnc (by simp) (Or.inr rfl) hfree hnil
          refine h₁.setStack ?_ (fun hc => Or.inl ?_) ?_
          · intro f rest hf
            obtain ⟨rfl, rfl⟩ := List.cons.inj hf
            refine ⟨?_, resting_nil⟩
            unfold Frame.Ok
            simp [State.fill]
          · rcases h₁.on hc with hmem | ⟨f, rest, hf, _⟩
            · exact hmem
            · have hstack : (s.fill n { s.task s.current with
                  state := .uninterruptible, pid := pid } none none).stack s.current =
                  [] := (update_of_ne hnc.symm _ _).trans hnil
              exact absurd (hstack.symm.trans hf) (by simp)
          · intro hst
            have htask : (s.fill n { s.task s.current with
                state := .uninterruptible, pid := pid } none none).task s.current =
                s.task s.current := update_of_ne hnc.symm _ _
            have hst' : (s.task s.current).state = .unused := by
              rw [← htask]
              exact hst
            exact absurd hst' hcused
      | false =>
          exact h.fill hn0 hunused hnc (by simp) (Or.inl rfl) hfree hnil

theorem Queued.modTask {g : Task → Task} (h : Queued s l) (hg : ∀ d, (g d).state = d.state) :
    Queued (s.modTask p g) l := by
  refine h.congr rfl rfl rfl rfl ?_ rfl fun _ htm => htm
  intro t
  rcases eq_or_ne t p with rfl | ht
  · simp [State.modTask, hg]
  · simp [State.modTask, ht]

theorem Queued.wake_halted (h : Queued s l) : (s.wakeUpProcess p).halted = s.halted := by
  obtain ⟨z, _, hprev⟩ := h.queue.ring.exists_prev List.mem_cons_self
  unfold State.wakeUpProcess
  dsimp only
  split
  · unfold State.addToRunqueue
    have hprev' : (s.modTask p fun d => { d with state := .running }).prevRun 0 = some z :=
      hprev
    rw [hprev']
    rfl
  · rfl

theorem Queued.del_halted (h : Queued s l) (hp : p ≠ 0 → p ∈ l) :
    (s.delFromRunqueue p).halted = s.halted := by
  unfold State.delFromRunqueue
  split
  · rfl
  · rename_i hp0
    have hmem : p ∈ 0 :: l := List.mem_cons_of_mem 0 (hp hp0)
    obtain ⟨g, _, hnext, _⟩ := h.queue.ring.exists_next hmem
    obtain ⟨z, _, hprev⟩ := h.queue.ring.exists_prev hmem
    rw [hnext, hprev]
    rfl

theorem Queued.wakeUsed (h : Queued s l) (hp : (s.task p).state ≠ .unused) :
    ∃ l', Queued (s.wakeUpProcess p) l' ∧ (s.wakeUpProcess p).halted = s.halted := by
  obtain ⟨l', h', _⟩ := h.wake (p := p) (Or.inr (Or.inl (Or.inl hp)))
  exact ⟨l', h', h.wake_halted⟩

theorem Queued.wakeRound (h : Queued s l) :
    ∃ l', Queued (s.wakeRound addr it p) l' ∧ (s.wakeRound addr it p).halted = s.halted := by
  unfold State.wakeRound
  split
  · rename_i hawaits
    refine h.wakeUsed ?_
    rcases hawaits.2 with hst | ⟨_, hst⟩
    · rw [hst]
      simp
    · rw [hst]
      simp
  · exact ⟨l, h, rfl⟩

theorem Queued.sendSig {sig : Fin nsig} (h : Queued s l) :
    ∃ l', Queued (s.sendSig sig p) l' ∧ (s.sendSig sig p).halted = s.halted := by
  refine sendSig_ind (P := fun u => ∃ l', Queued u l' ∧ u.halted = s.halted) ⟨l, h, rfl⟩ ?_ ?_
  · rintro u g ⟨l', hu, hsame⟩
    exact ⟨l', hu.modTask fun _ => rfl, hsame⟩
  · rintro u ⟨l', hu, hsame⟩ hp
    obtain ⟨l'', hu', hsame'⟩ := hu.wakeUsed hp
    exact ⟨l'', hu', hsame'.trans hsame⟩

theorem Queued.turn {turn : Turn} (h : Queued s l) (hf : s.stack s.current = f :: rest)
    (hturn : (s.task s.current).turn (s.current = 0) s.locked op f rest = some turn)
    (hidle : ((s.takes turn).task 0).state ≠ .unused) : Queued (s.takes turn) l := by
  cases turn with
  | halts halt => exact h.halt
  | goes d st =>
      obtain ⟨hpassing, hgrown⟩ := grown_turn hturn
      obtain ⟨pre, rfl, hpre⟩ := hgrown.pre
      have hrest := (h.frame f rest hf).2
      refine h.takes (h.onRing hf (Frame.not_away hpassing)) ?_ ?_ hidle
      · intro g hg
        rcases List.mem_append.mp hg with hg | hg
        · exact hpre g hg
        · exact hrest g hg
      · intro hunused
        rcases hgrown.state hunused with hold | hnew
        · have hending := h.ending hold
          rw [hf] at hending
          exact hgrown.ending hending
        · exact hnew

theorem Queued.call {turn : Turn} (h : Queued s l) (hnil : s.stack s.current = [])
    (hturn : (s.task s.current).call (s.current = 0) s.locked op = some turn)
    (hidle : ((s.takes turn).task 0).state ≠ .unused) : Queued (s.takes turn) l := by
  have hon : s.current ≠ 0 → s.current ∈ l := by
    intro hc
    rcases h.on hc with hmem | ⟨f, rest, hf, _⟩
    · exact hmem
    · rw [hnil] at hf
      cases hf
  have hcused : (s.task s.current).state ≠ .unused := by
    intro hunused
    have hending := h.ending hunused
    rw [hnil] at hending
    rcases hending with hd | hd
    · cases hd
    · cases hd
  cases turn with
  | halts halt => exact h.halt
  | goes d st =>
      rcases call_goes hturn with hwork | ⟨_, hstate, _, rfl | rfl | rfl | rfl⟩
      · rcases work_goes hwork with ⟨addr, state, _, hstate, rfl, rfl⟩ |
          ⟨addr, _, _, rfl, rfl⟩ | ⟨rfl, rfl | rfl⟩
        · exact h.takes hon (resting_one rfl) (fun hu => absurd hu hstate) hidle
        · exact h.takes hon (resting_one rfl) (fun hu => absurd hu hcused) hidle
        · exact h.takes hon resting_nil (fun hu => absurd hu hcused) hidle
        · exact h.takes hon (resting_one rfl) (fun hu => absurd hu hcused) hidle
      · exact h.takes hon resting_nil (fun hu => absurd (hstate ▸ hu) hcused) hidle
      · exact h.takes hon (resting_one rfl) (fun hu => absurd (hstate ▸ hu) hcused) hidle
      · exact h.takes hon (resting_two rfl rfl) (fun hu => absurd (hstate ▸ hu) hcused)
          hidle
      · exact h.takes hon (resting_one rfl) (fun hu => absurd (hstate ▸ hu) hcused) hidle

theorem Queued.run (h : Queued s l) (hrun : s.run op = some s')
    (hidle : (s'.task 0).state ≠ .unused) : ∃ l', Queued s' l' := by
  cases run_cases s hrun with
  | fork root memory pid hnil => exact ⟨l, h.fork hnil⟩
  | call turn hnil hturn => exact ⟨l, h.call hnil hturn hidle⟩
  | forkWake n rest hf =>
      have hok := (h.frame _ _ hf).1
      obtain ⟨l', h', hl⟩ := h.wake (p := n) (Or.inr (Or.inl (Or.inl hok)))
      refine ⟨l', h'.back (f := .forkWake n) ?_ ?_ rfl⟩
      · rw [wakeUpProcess_stack, wakeUpProcess_current]
        exact hf
      · rw [wakeUpProcess_current]
        exact fun hc => hl _ (h.onRing hf rfl hc)
  | schedule f rest u hf hsched => exact h.schedule hf hsched
  | turn f rest turn hf hturn => exact ⟨l, h.turn hf hturn hidle⟩

theorem Queued.step {a : Act} (h : Queued s l) (hstep : s.step a = some s')
    (hidle : (s'.task 0).state ≠ .unused) : ∃ l', Queued s' l' := by
  unfold State.step at hstep
  split at hstep
  · cases hstep
  · cases a with
    | tick =>
        obtain rfl := Option.some.inj hstep
        exact ⟨l, h.congr rfl rfl rfl rfl (fun _ => rfl) rfl fun _ htm => htm⟩
    | wakeRound addr it p =>
        obtain rfl := Option.some.inj hstep
        obtain ⟨l', h', _⟩ := h.wakeRound
        exact ⟨l', h'⟩
    | sendSig sig p =>
        obtain rfl := Option.some.inj hstep
        obtain ⟨l', h', _⟩ := h.sendSig
        exact ⟨l', h'⟩
    | setLock addr value =>
        obtain rfl := Option.some.inj hstep
        exact ⟨l, h.congr rfl rfl rfl rfl (fun _ => rfl) rfl fun _ htm => htm⟩
    | run op => exact h.run hstep hidle

theorem Queued.dequeue_halted {next : TaskRef}
    (h : Queued s l) (hf : s.stack s.current = .dequeue next :: rest) :
    (s.dequeue next rest).halted = s.halted :=
  dequeue_ind s (P := fun u => u.halted = s.halted) (fun _ _ _ _ => rfl)
    (fun _ _ _ => h.del_halted (h.onRing hf rfl)) fun _ => rfl

theorem Queued.schedule_halted
    (h : Queued s l) (hf : s.stack s.current = f :: rest) (hrun : s.schedule rest f = some s') :
    s'.halted = s.halted := by
  cases schedule_cases s hrun with
  | unlinked hnone =>
      obtain ⟨g, _, hnext, _⟩ := h.queue.ring.exists_next (h.current_mem hf)
      rw [hnone] at hnext
      cases hnext
  | idleUnlinked _ _ hnone => exact absurd hnone h.queue.idle_next
  | fire next p =>
      have h' : Queued (s.modTask p fun d => { d with timeout := 0 }) l := h.modTask fun _ => rfl
      exact h'.wake_halted
  | dequeue next => exact h.dequeue_halted hf
  | _ => rfl

theorem Queued.notNull {a : Act} (h : Queued s l) (hstep : s.step a = some s') :
    s'.halted ≠ some .nullPointer := by
  unfold State.step at hstep
  split at hstep
  · cases hstep
  rename_i hgoing
  have hnone : s.halted = none := not_not.mp hgoing
  have hsame : ∀ {u : State}, u.halted = s.halted → u.halted ≠ some .nullPointer := by
    intro u hu
    rw [hu, hnone]
    simp
  cases a with
  | tick =>
      obtain rfl := Option.some.inj hstep
      exact hsame rfl
  | wakeRound addr it p =>
      obtain rfl := Option.some.inj hstep
      obtain ⟨_, _, hu⟩ := h.wakeRound
      exact hsame hu
  | sendSig sig p =>
      obtain rfl := Option.some.inj hstep
      obtain ⟨_, _, hu⟩ := h.sendSig
      exact hsame hu
  | setLock addr value =>
      obtain rfl := Option.some.inj hstep
      exact hsame rfl
  | run op =>
      have htakes : ∀ {turn : Turn}, (∀ halt, turn = .halts halt → halt ≠ .nullPointer) →
          (s.takes turn).halted ≠ some .nullPointer := by
        intro turn hturn
        cases turn with
        | goes d st => exact hsame rfl
        | halts halt => exact fun he => hturn halt rfl (Option.some.inj he)
      cases run_cases s hstep with
      | fork root memory pid =>
          intro hhalt
          rcases fork_halts hhalt with hold | hover
          · exact hsame rfl hold
          · cases hover
      | call turn _ hturn =>
          refine htakes fun halt he => ?_
          subst he
          rw [call_halts hturn]
          simp
      | forkWake n rest => exact hsame (h.wake_halted (p := n))
      | schedule f rest u hf hsched => exact hsame (h.schedule_halted hf hsched)
      | turn f rest turn _ hturn =>
          refine htakes fun halt he => ?_
          subst he
          rcases turn_halts hturn with ⟨rfl, _⟩ | ⟨rfl, _⟩ | rfl | rfl
          · simp
          · simp
          · simp
          · simp

theorem Queued.wakeUp (h : Queued s l) (hgoing : s.halted = none) :
    s.acts Anything ((List.finRange maxTasks).map fun p => .wakeRound addr it p) =
      some (s.wakeUp addr it) := by
  unfold State.wakeUp
  generalize List.finRange maxTasks = ps
  induction ps generalizing s l with
  | nil => rfl
  | cons p ps ih =>
      have hround : ∃ l', Queued (s.wakeRound addr it p) l' ∧ _ = s.halted := h.wakeRound
      obtain ⟨l', h', hsame⟩ := hround
      have hstep : s.step (.wakeRound addr it p) = some (s.wakeRound addr it p) :=
        if_neg (not_not.mpr hgoing)
      rw [List.map_cons, List.foldl_cons, ← ih h' (hsame.trans hgoing)]
      simp only [State.acts, hstep, Option.bind_some]
      exact if_pos trivial

theorem startKernel_queued : Queued startKernel [1] := by
  refine ⟨startKernel_queue, ?_, ?_, ?_, by simp [startKernel_tlList], ?_, by decide⟩
  · intro f rest hf
    obtain ⟨rfl, rfl⟩ := List.cons.inj hf.symm
    exact ⟨trivial, resting_nil⟩
  · intro t ht
    have hnil : startKernel.stack t = [] := update_of_ne ht _ _
    rw [hnil]
    exact resting_nil
  · exact fun hc => absurd rfl hc
  · exact fun hunused => absurd hunused (by decide)

end Step

end Sched
end Elks
