import Elks.Sched.RunQueue

/-!
# Timers on kernel stacks

`schedule` keeps its timer in its own frame and takes it off the list when it
comes back.  But behind `tswitch` it calls `do_signal`, which may call `do_exit`,
and that never comes back: the timer stays on the list, and when it fires
`process_timeout` wakes a slot whose task is over.

**Results.**
* `dead_stay_dead`: while no task becomes `TASK_UNUSED` with a timer of its own on
  the list, and the idle task does not, every timer lies in a frame of `schedule` of
  a live task, and only `do_fork` gives an unused slot another state.
* `dead_wakes`: a task that is killed in its sleep runs again after its end.
-/

namespace Elks
namespace Sched

open Lib

/-- A frame of `schedule` whose timer is on the list. -/
def Frame.armed : Frame → Bool
  | .switch _ timeout => timeout ≠ 0
  | .switched timeout => timeout ≠ 0
  | .signalled timeout => timeout ≠ 0
  | .disarm timeout => timeout ≠ 0
  | _ => false

/-- The frame with `depth` frames under it has its timer on the list. -/
def Holds (l : List Frame) (depth : Nat) : Prop :=
  ∃ pre f rest, l = pre ++ f :: rest ∧ rest.length = depth ∧ f.armed = true

/-- A timer lies in a frame of `schedule` of a live task and wakes that task. -/
structure OnStack (s : State) (tm : Timer) : Prop where
  data : tm.data = tm.slot
  live : (s.task tm.slot).state ≠ .unused
  frame : Holds (s.stack tm.slot) tm.depth

/-- A frame of `schedule` before another task gets the processor. -/
def Frame.leaving : Frame → Bool
  | .entry => true
  | .timers _ => true
  | .fire _ _ => true
  | .dequeue _ => true
  | .choose _ _ => true
  | .arm _ _ => true
  | .switch _ _ => true
  | _ => false

/-- `schedule` is about to set a timer. -/
def Frame.arming : Frame → Bool
  | .choose _ timeout => timeout ≠ 0
  | .arm _ timeout => timeout ≠ 0
  | _ => false

/-- The last actions of `do_exit`. -/
inductive Dying : List Frame → Prop
  | dead (rest : List Frame) : Dying (.dead :: rest)
  | leaving {f : Frame} (rest : List Frame) (hf : f.leaving = true) :
      Dying (f :: .exited :: rest)

/-- The timers and the dead tasks are in order. -/
structure Timed (s : State) : Prop where
  timers : ∀ tm ∈ s.tlList, OnStack s tm
  fire : ∀ next p rest, s.stack s.current = .fire next p :: rest →
    (s.task p).state ≠ .unused
  arming : ∀ f rest, s.stack s.current = f :: rest → f.arming = true →
    (s.task s.current).state ≠ .unused
  dying : (s.task s.current).state = .unused → Dying (s.stack s.current)

/-- No task becomes `TASK_UNUSED` with a timer of its own on the list, and the idle
task does not. -/
def Harmless (s : State) (a : Act) : Prop :=
  (s.stack s.current).head? = some .freeing → a = .run .next →
    s.current ≠ 0 ∧ ∀ tm ∈ s.tlList, tm.slot ≠ s.current

section Stacks

variable {d d' : Task} {idle : Bool} {locked : Nat → Bool} {op : Op} {f g : Frame}
  {l st rest : List Frame} {n : Nat}

theorem not_holds_nil : ¬Holds [] n := by
  rintro ⟨pre, f, rest, h, _⟩
  simp at h

theorem holds_cons : Holds (f :: rest) n ↔ rest.length = n ∧ f.armed = true ∨ Holds rest n := by
  constructor
  · rintro ⟨pre, g, rest', h, hlen, hg⟩
    cases pre with
    | nil =>
        obtain ⟨rfl, rfl⟩ := List.cons.inj h
        exact Or.inl ⟨hlen, hg⟩
    | cons f' pre =>
        obtain ⟨rfl, rfl⟩ := List.cons.inj h
        exact Or.inr ⟨pre, g, rest', rfl, hlen, hg⟩
  · rintro (⟨hlen, hf⟩ | ⟨pre, g, rest', rfl, hlen, hg⟩)
    · exact ⟨[], f, rest, rfl, hlen, hf⟩
    · exact ⟨f :: pre, g, rest', rfl, hlen, hg⟩

theorem Holds.cons (h : Holds rest n) : Holds (f :: rest) n :=
  holds_cons.mpr (Or.inr h)

theorem Holds.tail (h : Holds (f :: rest) n) (hf : f.armed = false) : Holds rest n := by
  rcases holds_cons.mp h with ⟨_, harmed⟩ | hrest
  · rw [hf] at harmed
    cases harmed
  · exact hrest

/-- A frame whose timer is on the list gives way to another. -/
theorem Holds.replace (h : Holds (f :: rest) n) (hg : f.armed = true → g.armed = true) :
    Holds (g :: rest) n := by
  rcases holds_cons.mp h with ⟨hlen, hf⟩ | hrest
  · exact holds_cons.mpr (Or.inl ⟨hlen, hg hf⟩)
  · exact hrest.cons

theorem Holds.append {pre : List Frame} (h : Holds rest n) : Holds (pre ++ rest) n := by
  induction pre with
  | nil => exact h
  | cons f pre ih => exact ih.cons

theorem dying_nil : ¬Dying [] := by
  rintro ⟨⟩

/-- An action of the current task that touches nothing but the task leaves the
timers alone, and ends the task in `do_exit` only. -/
structure Timely (d d' : Task) (op : Op) (f : Frame) (rest st : List Frame) : Prop where
  holds : ∀ n, Holds (f :: rest) n → Holds st n
  unused : d'.state = .unused →
    f = .freeing ∧ op = .next ∧ st = .dead :: rest ∨ d.state = .unused

theorem Timely.of (hf : f.armed = false) (hst : ∃ pre, st = pre ++ rest)
    (hunused : d'.state = .unused → d.state = .unused) : Timely d d' op f rest st := by
  obtain ⟨pre, rfl⟩ := hst
  exact ⟨fun n h => (h.tail hf).append, fun h => Or.inr (hunused h)⟩

theorem timely_work
    (h : d.work idle locked (f :: rest) op = some (.goes d' st)) (hf : f.armed = false) :
    Timely d d' op f rest st := by
  rcases work_goes h with ⟨addr, state, _, hstate, rfl, rfl⟩ | ⟨addr, _, _, rfl, rfl⟩ |
    ⟨rfl, rfl | rfl⟩
  · exact Timely.of hf ⟨[_, _], rfl⟩ fun hu => absurd hu hstate
  · exact Timely.of hf ⟨[_, _], rfl⟩ id
  · exact Timely.of hf ⟨[_], rfl⟩ id
  · exact Timely.of hf ⟨[_, _], rfl⟩ id

theorem onward_armed {m : List Frame} (hf : f.armed = true) (hm : m ∈ f.onward) :
    ∃ pre g, m = pre ++ [g] ∧ g.armed = true := by
  cases f with
  | switched timeout =>
      rcases List.mem_cons.mp hm with rfl | hm
      · exact ⟨[.signal], _, rfl, hf⟩
      · obtain rfl := List.mem_singleton.mp hm
        exact ⟨[], _, rfl, hf⟩
  | signalled timeout =>
      obtain rfl := List.mem_singleton.mp hm
      exact ⟨[], _, rfl, hf⟩
  | _ => first | cases hf | cases hm

theorem timely_turn (h : d.turn idle locked op f rest = some (.goes d' st)) :
    Timely d d' op f rest st := by
  rcases turn_goes h with ⟨rfl | rfl, hwork⟩ | ⟨hstepped, m, hm, rfl⟩
  · exact timely_work hwork rfl
  · exact timely_work hwork rfl
  · refine ⟨fun n hold => ?_, fun hunused => ?_⟩
    · cases hf : f.armed with
      | true =>
          obtain ⟨pre, g, rfl, hg⟩ := onward_armed hf hm
          rw [List.append_assoc]
          exact Holds.append (hold.replace fun _ => hg)
      | false => exact (hold.tail hf).append
    · rcases hstepped.state hunused with hold | ⟨rfl, rfl⟩
      · exact Or.inr hold
      · rw [List.mem_singleton.mp hm]
        exact Or.inl ⟨rfl, rfl, rfl⟩

end Stacks

/-- No task that is over is woken, and the idle task does not end. -/
structure Orderly (s s' : State) : Prop where
  timed : Timed s'
  dead : ∀ t, (s.task t).state = .unused → (s'.task t).state = .unused
  idle : (s.task 0).state ≠ .unused → (s'.task 0).state ≠ .unused

section Moves

variable {s s' u : State} {l : List TaskRef} {p n : TaskRef} {f g : Frame}
  {st rest : List Frame} {tm : Timer}

theorem Frame.passing_of_arming (h : f.arming = true) : f.passing = true := by
  cases f <;> first | rfl | cases h

theorem OnStack.of
    (h : OnStack s tm) (hlive : (s.task tm.slot).state ≠ .unused →
      (s'.task tm.slot).state ≠ .unused)
    (hholds : Holds (s.stack tm.slot) tm.depth → Holds (s'.stack tm.slot) tm.depth) :
    OnStack s' tm :=
  ⟨h.data, hlive h.live, hholds h.frame⟩

theorem Orderly.trans (h : Orderly s u) (h' : Orderly u s') : Orderly s s' :=
  ⟨h'.timed, fun t ht => h'.dead t (h.dead t ht), fun h0 => h'.idle (h.idle h0)⟩

theorem Timed.same (h : Timed s) (hstack : s'.stack = s.stack) (hcurrent : s'.current = s.current)
    (htl : ∀ tm ∈ s'.tlList, tm ∈ s.tlList)
    (hstate : ∀ t, (s'.task t).state = .unused ↔ (s.task t).state = .unused) : Orderly s s' := by
  have hused : ∀ t, (s.task t).state ≠ .unused → (s'.task t).state ≠ .unused :=
    fun t ht hu => ht ((hstate t).mp hu)
  refine ⟨⟨?_, ?_, ?_, ?_⟩, fun t ht => (hstate t).mpr ht, hused 0⟩
  · intro tm htm
    refine (h.timers tm (htl tm htm)).of (hused _) ?_
    rw [hstack]
    exact id
  · intro next p rest hf
    rw [hstack, hcurrent] at hf
    exact hused p (h.fire next p rest hf)
  · intro f rest hf hg
    rw [hstack, hcurrent] at hf
    rw [hcurrent]
    exact hused _ (h.arming f rest hf hg)
  · intro hu
    rw [hcurrent] at hu ⊢
    rw [hstack]
    exact h.dying ((hstate _).mp hu)

theorem Timed.wake (h : Timed s) (hp : (s.task p).state ≠ .unused) :
    Orderly s (s.wakeUpProcess p) := by
  refine h.same (wakeUpProcess_stack s p) (wakeUpProcess_current s p) ?_ ?_
  · intro tm htm
    rw [wakeUpProcess_tlList] at htm
    exact htm
  · intro t
    rw [wakeUpProcess_task]
    rcases eq_or_ne t p with rfl | ht
    · simp [hp]
    · simp [ht]

theorem Timed.modTask {g : Task → Task} (h : Timed s)
    (hg : (g (s.task p)).state = .unused ↔ (s.task p).state = .unused) :
    Orderly s (s.modTask p g) := by
  refine h.same rfl rfl (fun _ htm => htm) ?_
  intro t
  rcases eq_or_ne t p with rfl | ht
  · simpa [State.modTask] using hg
  · simp [State.modTask, ht]

theorem Timed.setStack (h : Timed s)
    (hholds : ∀ tm ∈ s.tlList, tm.slot = s.current → Holds (s.stack s.current) tm.depth →
      Holds st tm.depth)
    (hfire : ∀ next p rest, st = .fire next p :: rest → (s.task p).state ≠ .unused)
    (harming : ∀ f rest, st = f :: rest → f.arming = true →
      (s.task s.current).state ≠ .unused)
    (hdying : (s.task s.current).state = .unused → Dying st) :
    Orderly s (s.setStack st) := by
  have hself := setStack_self s st
  refine ⟨⟨?_, ?_, ?_, ?_⟩, fun _ => id, id⟩
  · intro tm htm
    refine (h.timers tm htm).of id ?_
    intro hold
    rcases eq_or_ne tm.slot s.current with hslot | hslot
    · rw [hslot] at hold ⊢
      rw [hself]
      exact hholds tm htm hslot hold
    · rw [setStack_other s st hslot]
      exact hold
  · intro next p rest hf
    exact hfire next p rest (hself.symm.trans hf)
  · intro f rest hf hg
    exact harming f rest (hself.symm.trans hf) hg
  · intro hu
    have hst := hdying hu
    rw [← hself] at hst
    exact hst

theorem Timed.next (h : Timed s) (hf : s.stack s.current = f :: rest)
    (harmed : f.armed = true → g.armed = true) (hleaving : f.leaving = true) (hg : g.leaving = true)
    (hfire : ∀ next p, g = .fire next p → (s.task p).state ≠ .unused)
    (harming : g.arming = true → (s.task s.current).state ≠ .unused) :
    Orderly s (s.setStack (g :: rest)) := by
  refine h.setStack ?_ ?_ ?_ ?_
  · intro tm _ _ hold
    rw [hf] at hold
    exact hold.replace harmed
  · intro next p rest' he
    exact hfire next p (List.cons.inj he).1
  · intro f' rest' he
    obtain ⟨rfl, rfl⟩ := List.cons.inj he
    exact harming
  · intro hu
    have hdying := h.dying hu
    rw [hf] at hdying
    cases hdying with
    | dead => cases hleaving
    | leaving rest' _ => exact Dying.leaving rest' hg

theorem Timed.back (h : Timed s) (hf : s.stack s.current = f :: rest)
    (hrest : Resting rest) (hholds : ∀ tm ∈ s.tlList, tm.slot = s.current →
      Holds (f :: rest) tm.depth → Holds rest tm.depth)
    (hused : (s.task s.current).state ≠ .unused) :
    Orderly s (s.setStack rest) := by
  refine h.setStack ?_ ?_ ?_ fun hu => absurd hu hused
  · intro tm htm hslot hold
    rw [hf] at hold
    exact hholds tm htm hslot hold
  · intro next p rest' he
    have hpassing := hrest (.fire next p) (he ▸ List.mem_cons_self)
    cases hpassing
  · exact fun _ _ _ _ => hused

theorem Timed.takes {d : Task} (h : Timed s) (hst : Resting st)
    (hholds : ∀ n, Holds (s.stack s.current) n → Holds st n)
    (hdead : (s.task s.current).state = .unused → d.state = .unused)
    (hunused : d.state = .unused → Dying st ∧ ((s.task s.current).state = .unused ∨
      s.current ≠ 0 ∧ ∀ tm ∈ s.tlList, tm.slot ≠ s.current)) :
    Orderly s (s.takes (.goes d st)) := by
  have hself : (s.takes (.goes d st)).stack s.current = st := Function.update_self _ _ _
  have hotherStack : ∀ t, t ≠ s.current → (s.takes (.goes d st)).stack t = s.stack t :=
    fun t ht => Function.update_of_ne ht _ _
  have htask : (s.takes (.goes d st)).task s.current = d := Function.update_self _ _ _
  have hother : ∀ t, t ≠ s.current → (s.takes (.goes d st)).task t = s.task t :=
    fun t ht => Function.update_of_ne ht _ _
  have hnot : ∀ f rest, (s.takes (.goes d st)).stack s.current = f :: rest →
      f.passing = false := by
    intro f rest hf
    exact hst f (hself.symm.trans hf ▸ List.mem_cons_self)
  refine ⟨⟨?_, ?_, ?_, ?_⟩, ?_, ?_⟩
  · intro tm htm
    have hon := h.timers tm htm
    rcases eq_or_ne tm.slot s.current with hslot | hslot
    · refine hon.of ?_ ?_
      · intro hlive hu
        rw [hslot] at hlive hu
        rw [htask] at hu
        rcases (hunused hu).2 with hold | ⟨_, hfree⟩
        · exact hlive hold
        · exact hfree tm htm hslot
      · intro hold
        rw [hslot] at hold ⊢
        rw [hself]
        exact hholds _ hold
    · refine hon.of ?_ ?_
      · rw [hother _ hslot]
        exact id
      · rw [hotherStack _ hslot]
        exact id
  · intro next p rest hf
    cases hnot _ _ hf
  · intro f rest hf hg
    have hpassing := hnot f rest hf
    rw [Frame.passing_of_arming hg] at hpassing
    cases hpassing
  · intro hu
    have hu' : d.state = .unused := by
      rw [← htask]
      exact hu
    have hdying := (hunused hu').1
    rw [← hself] at hdying
    exact hdying
  · intro t ht
    rcases eq_or_ne t s.current with rfl | htc
    · rw [htask]
      exact hdead ht
    · rw [hother t htc]
      exact ht
  · intro h0 hu
    rcases eq_or_ne 0 s.current with hc | hc
    · rw [hc] at h0 hu
      rw [htask] at hu
      rcases (hunused hu).2 with hold | ⟨hne, _⟩
      · exact h0 hold
      · exact hne hc.symm
    · rw [hother 0 hc] at hu
      exact h0 hu

end Moves

section Schedule

variable {s s' : State} {l : List TaskRef} {p n next : TaskRef} {f : Frame} {rest : List Frame}

/-- The end of a chain of actions within one step. -/
theorem Orderly.then {u : State}
    (h : Orderly s u) (hnext : Timed u → Orderly u s') : Orderly s s' :=
  h.trans (hnext h.timed)

theorem Timed.dequeue (h : Timed s) (hf : s.stack s.current = .dequeue next :: rest) :
    Orderly s (s.dequeue next rest) := by
  refine dequeue_ind s ?_ ?_ fun _ =>
    h.next hf (by simp [Frame.armed]) rfl rfl (by simp) (by simp [Frame.arming])
  · intro g hst hg _
    have hmod : Orderly s (s.modTask s.current g) := h.modTask (by rw [hg, hst]; simp)
    exact hmod.then fun hu => hu.next (f := .dequeue next) hf (by simp [Frame.armed]) rfl rfl
      (by simp) (by simp [Frame.arming])
  · intro timeout _ harming
    have hsame : Orderly s (s.delFromRunqueue s.current) := by
      refine h.same (delFromRunqueue_stack s _) (delFromRunqueue_current s _) ?_ ?_
      · intro tm htm
        rw [delFromRunqueue_tlList] at htm
        exact htm
      · intro t
        rw [delFromRunqueue_task]
    refine hsame.then fun hu => hu.next (f := .dequeue next) ?_ (by simp [Frame.armed]) rfl rfl
      (by simp) ?_
    · rw [delFromRunqueue_stack, delFromRunqueue_current]
      exact hf
    · intro ha
      rw [delFromRunqueue_task, delFromRunqueue_current,
        harming (by simpa [Frame.arming] using ha)]
      simp

theorem Timed.switch {timeout : Nat}
    (h : Timed s) (hq : Queued s l) (hf : s.stack s.current = .switch next timeout :: rest) :
    Orderly s { s.setStack (.switched timeout :: rest) with current := next } := by
  obtain ⟨⟨hnext, hremoved⟩, hrest⟩ := hq.frame _ _ hf
  have hlive : (s.task next).state ≠ .unused := by
    rcases List.mem_cons.mp hnext with rfl | hmem
    · exact hq.idle
    · rcases eq_or_ne next 0 with rfl | h0
      · exact hq.idle
      · obtain ⟨hl | hl, hlink⟩ := (hq.queue.mem next h0).mp hmem
        · exact hl
        · subst hl
          exact fun hu => hlink (hremoved h0 hu)
  have hresting : ∀ t, Resting ((s.setStack (.switched timeout :: rest)).stack t) := by
    intro t
    rcases eq_or_ne t s.current with rfl | ht
    · rw [setStack_self]
      exact hrest.cons rfl
    · rw [setStack_other s _ ht]
      exact hq.parked t ht
  refine ⟨⟨?_, ?_, fun _ _ _ _ => hlive, fun hu => absurd hu hlive⟩, fun _ => id, id⟩
  · intro tm htm
    refine (h.timers tm htm).of id ?_
    intro hold
    rcases eq_or_ne tm.slot s.current with hslot | hslot
    · rw [hslot, hf] at hold
      have hself := setStack_self s (.switched timeout :: rest)
      have hnew : Holds (.switched timeout :: rest) tm.depth := hold.replace id
      rw [hslot]
      rw [← hself] at hnew
      exact hnew
    · rw [← setStack_other s (.switched timeout :: rest) hslot] at hold
      exact hold
  · intro n p rest' hf'
    have hpassing := hresting next (.fire n p) (hf' ▸ List.mem_cons_self)
    cases hpassing

theorem Timed.schedule (h : Timed s) (hq : Queued s l) (hf : s.stack s.current = f :: rest)
    (hrun : s.schedule rest f = some s') : Orderly s s' := by
  have hrest := (hq.frame f rest hf).2
  have hlive : ∀ timeout, f = .disarm timeout → (s.task s.current).state ≠ .unused := by
    rintro timeout rfl hu
    have hdying := h.dying hu
    rw [hf] at hdying
    cases hdying with
    | leaving _ hleaving => cases hleaving
  cases schedule_cases s hrun with
  | exiting hst =>
      refine h.back hf hrest (fun _ _ _ hold => hold.tail rfl) ?_
      rw [hst]
      simp
  | unlinked | idleUnlinked _ _ => exact h.same rfl rfl (fun _ htm => htm) fun _ => Iff.rfl
  | linked _ | unexpired _ | armsNot _ =>
      exact h.next hf (by simp [Frame.armed]) rfl rfl (by simp) (by simp [Frame.arming])
  | expired next tm tl htl =>
      have hsame : Orderly s { s with tlList := tl } := by
        refine h.same rfl rfl ?_ fun _ => Iff.rfl
        intro tm' htm
        rw [htl]
        exact List.mem_cons_of_mem tm htm
      refine hsame.then fun hu => hu.next (f := .timers next) hf (by simp [Frame.armed]) rfl rfl
        ?_ (by simp [Frame.arming])
      intro next' p he
      obtain ⟨rfl, rfl⟩ := Frame.fire.inj he
      have hon := h.timers tm (htl ▸ List.mem_cons_self)
      rw [hon.data]
      exact hon.live
  | fire next p =>
      have hp := h.fire next p rest hf
      have hmod : Orderly s (s.modTask p fun d => { d with timeout := 0 }) :=
        h.modTask Iff.rfl
      refine hmod.then fun hu => ?_
      have hp' : ((s.modTask p fun d => { d with timeout := 0 }).task p).state ≠ .unused := by
        simpa [State.modTask] using hp
      refine (hu.wake hp').then fun hw => hw.next (f := .fire next p) ?_ (by simp [Frame.armed])
        rfl rfl (by simp) (by simp [Frame.arming])
      rw [wakeUpProcess_stack, wakeUpProcess_current]
      exact hf
  | dequeue next => exact h.dequeue hf
  | skipsIdle _ _ _ | other _ _ =>
      have harming := h.arming _ _ hf
      exact h.next hf (by simp [Frame.armed]) rfl rfl (by simp) harming
  | same timeout =>
      refine h.back hf hrest (fun _ _ _ hold => hold.tail rfl) ?_
      obtain ⟨hmem, hremoved⟩ := (hq.frame _ _ hf).1
      intro hu
      rcases eq_or_ne s.current 0 with hc | hc
      · exact hq.idle (hc ▸ hu)
      · have hl := (List.mem_cons.mp hmem).resolve_left hc
        exact ((hq.queue.mem _ hc).mp hl).2 (hremoved hc hu)
  | arms next timeout htimeout =>
      have hlive := h.arming _ _ hf (by simpa [Frame.arming] using htimeout)
      have hnext : Orderly s (s.setStack (.switch next timeout :: rest)) :=
        h.next hf (by simp [Frame.armed]) rfl rfl (by simp) (by simp [Frame.arming])
      refine hnext.then fun hu => ⟨⟨?_, hu.fire, hu.arming, hu.dying⟩, fun _ => id, id⟩
      intro tm htm
      rcases mem_addTimer htm with rfl | hold
      · refine ⟨rfl, hlive, ?_⟩
        have hself := setStack_self s (.switch next timeout :: rest)
        have hholds : Holds (.switch next timeout :: rest) rest.length :=
          holds_cons.mpr (Or.inl ⟨rfl, by simpa [Frame.armed] using htimeout⟩)
        rw [← hself] at hholds
        exact hholds
      · exact (hu.timers tm hold).of id id
  | switch next timeout => exact h.switch hq hf
  | disarms timeout =>
      have hsame : Orderly s { s with tlList := delTimer s.current rest.length s.tlList } :=
        h.same rfl rfl (fun _ htm => List.mem_of_mem_filter htm) fun _ => Iff.rfl
      refine hsame.then fun hu => hu.back (f := .disarm timeout) hf hrest ?_ (hlive timeout rfl)
      intro tm htm hslot hold
      rcases holds_cons.mp hold with ⟨hlen, _⟩ | hold
      · have hkept := (List.mem_filter.mp htm).2
        simp only [decide_not, Bool.not_eq_eq_eq_not, Bool.not_true, decide_eq_false_iff_not]
          at hkept
        exact absurd ⟨hslot, hlen.symm⟩ hkept
      · exact hold
  | disarmsNot =>
      refine h.back hf hrest (fun _ _ _ hold => hold.tail ?_) (hlive 0 rfl)
      simp [Frame.armed]

end Schedule

section Step

variable {s s' : State} {l : List TaskRef} {p t : TaskRef} {op : Op} {locked : Nat → Bool}
  {rest : List Frame} {f : Frame} {idle : Bool}

theorem leaving_turn {d : Task}
    (hf : f.leaving = true) : d.turn idle locked op f rest = none := by
  cases f <;> first | rfl | cases hf

/-- The last actions of `do_exit` change nothing and go on. -/
theorem dying_turn {d d' : Task} {rest st : List Frame}
    (hd : Dying (f :: rest)) (h : d.turn idle locked op f rest = some (.goes d' st)) :
    d' = d ∧ Dying st := by
  cases hd with
  | dead rest =>
      obtain ⟨rfl, rfl⟩ := Turn.goes.inj (Option.some.inj h)
      exact ⟨rfl, Dying.leaving rest rfl⟩
  | leaving rest hf =>
      rw [leaving_turn hf] at h
      cases h

theorem Timed.turn {turn : Turn}
    (h : Timed s) (hq : Queued s l) (hf : s.stack s.current = f :: rest)
    (hharm : Harmless s (.run op))
    (hturn : (s.task s.current).turn (s.current = 0) s.locked op f rest = some turn) :
    Orderly s (s.takes turn) := by
  cases turn with
  | halts halt => exact h.same rfl rfl (fun _ htm => htm) fun _ => Iff.rfl
  | goes d st =>
      obtain ⟨pre, hst, hpre⟩ := (grown_turn hturn).2.pre
      have htimely := timely_turn hturn
      have hrest := (hq.frame f rest hf).2
      have hdying : (s.task s.current).state = .unused → d = s.task s.current ∧ Dying st := by
        intro hu
        have hold := h.dying hu
        rw [hf] at hold
        exact dying_turn hold hturn
      refine h.takes ?_ ?_ ?_ ?_
      · subst hst
        intro g hg
        rcases List.mem_append.mp hg with hg | hg
        · exact hpre g hg
        · exact hrest g hg
      · rw [hf]
        exact htimely.holds
      · intro hu
        rw [(hdying hu).1]
        exact hu
      · intro hu
        rcases htimely.unused hu with ⟨rfl, rfl, rfl⟩ | hold
        · exact ⟨Dying.dead rest, Or.inr (hharm (by rw [hf]; rfl) rfl)⟩
        · exact ⟨(hdying hold).2, Or.inl hold⟩

theorem Timed.call {turn : Turn} (h : Timed s) (hnil : s.stack s.current = [])
    (hturn : (s.task s.current).call (s.current = 0) s.locked op = some turn) :
    Orderly s (s.takes turn) := by
  cases turn with
  | halts halt => exact h.same rfl rfl (fun _ htm => htm) fun _ => Iff.rfl
  | goes d st =>
      have hlive : (s.task s.current).state ≠ .unused := by
        intro hu
        have hdying := h.dying hu
        rw [hnil] at hdying
        exact dying_nil hdying
      have hd : Resting st ∧ d.state ≠ .unused := by
        rcases call_goes hturn with hwork | ⟨_, hstate, _, rfl | rfl | rfl | rfl⟩
        · rcases work_goes hwork with ⟨addr, state, _, hstate, rfl, rfl⟩ |
            ⟨addr, _, _, rfl, rfl⟩ | ⟨rfl, rfl | rfl⟩
          · exact ⟨resting_one rfl, hstate⟩
          · exact ⟨resting_one rfl, hlive⟩
          · exact ⟨resting_nil, hlive⟩
          · exact ⟨resting_one rfl, hlive⟩
        · exact ⟨resting_nil, hstate ▸ hlive⟩
        · exact ⟨resting_one rfl, hstate ▸ hlive⟩
        · exact ⟨resting_two rfl rfl, hstate ▸ hlive⟩
        · exact ⟨resting_one rfl, hstate ▸ hlive⟩
      refine h.takes hd.1 ?_ (fun hu => absurd hu hlive) fun hu => absurd hu hd.2
      intro n hn
      rw [hnil] at hn
      exact absurd hn not_holds_nil

theorem Timed.fork {root memory : Bool} {pid : Nat}
    (h : Timed s) (hq : Queued s l) (hnil : s.stack s.current = []) :
    Timed (s.fork root memory pid) ∧
      ((s.task 0).state ≠ .unused → ((s.fork root memory pid).task 0).state ≠ .unused) ∧
      (s.fork root memory pid).halted = s.halted := by
  have hlive : (s.task s.current).state ≠ .unused := by
    intro hu
    have hdying := h.dying hu
    rw [hnil] at hdying
    exact dying_nil hdying
  unfold State.fork
  split
  · exact ⟨h, id, rfl⟩
  · rename_i n hfind
    have hunused := findEmptyProcess_unused hfind
    have hfree : ∀ tm ∈ s.tlList, tm.slot ≠ n := by
      rintro tm htm rfl
      exact (h.timers tm htm).live hunused
    have hn0 : n ≠ 0 := by
      rintro rfl
      exact hq.idle hunused
    have hnc : n ≠ s.current := by
      rintro rfl
      exact hlive hunused
    have hany : ¬s.tlList.any (fun tm => tm.slot = n) = true := by
      intro hany
      obtain ⟨tm, htm, hslot⟩ := List.any_eq_true.mp hany
      exact hfree tm htm (by simpa using hslot)
    have hfill : ∀ d next prev, Timed (s.fill n d next prev) ∧
        (s.fill n d next prev).stack s.current = [] ∧
        ((s.fill n d next prev).task s.current).state ≠ .unused := by
      intro d next prev
      have hstack : (s.fill n d next prev).stack s.current = [] :=
        (Function.update_of_ne hnc.symm _ _).trans hnil
      have htask : (s.fill n d next prev).task s.current = s.task s.current :=
        Function.update_of_ne hnc.symm _ _
      have hused : ((s.fill n d next prev).task s.current).state ≠ .unused := by
        rw [htask]
        exact hlive
      refine ⟨⟨?_, ?_, fun _ _ _ _ => hused, fun hu => absurd hu hused⟩, hstack, hused⟩
      · intro tm htm
        have hslot := hfree tm htm
        refine (h.timers tm htm).of ?_ ?_
        · have hother : (s.fill n d next prev).task tm.slot = s.task tm.slot :=
            Function.update_of_ne hslot _ _
          rw [hother]
          exact id
        · have hother : (s.fill n d next prev).stack tm.slot = s.stack tm.slot :=
            Function.update_of_ne hslot _ _
          rw [hother]
          exact id
      · intro next' p rest hf
        exact absurd (hstack.symm.trans hf) (by simp)
    rw [if_neg hany]
    have h0 : ∀ d : Task, (s.task 0).state ≠ .unused →
        (Function.update s.task n d 0).state ≠ .unused := by
      intro d hd
      rw [Function.update_of_ne hn0.symm]
      exact hd
    cases memory with
    | true =>
        obtain ⟨hchild, hstack, hused⟩ := hfill { s.task s.current with
          state := .uninterruptible, pid := pid } none none
        have hnew : Orderly (s.fill n { s.task s.current with
              state := .uninterruptible, pid := pid } none none)
            ((s.fill n { s.task s.current with
              state := .uninterruptible, pid := pid } none none).setStack [.forkWake n]) := by
          refine hchild.setStack ?_ (by simp) ?_ ?_
          · intro tm _ _ hold
            have hnone : Holds [] tm.depth := hstack ▸ hold
            exact absurd hnone not_holds_nil
          · exact fun _ _ _ _ => hused
          · exact fun hu => absurd hu hused
        exact ⟨hnew.timed, h0 _, rfl⟩
    | false =>
        exact ⟨(hfill { s.task s.current with state := .unused } (s.nextRun s.current)
          (s.prevRun s.current)).1, h0 _, rfl⟩

theorem Timed.sendSig {sig : Fin nsig} (h : Timed s) : Orderly s (s.sendSig sig p) := by
  have hrefl : Orderly s s := h.same rfl rfl (fun _ htm => htm) fun _ => Iff.rfl
  refine sendSig_ind hrefl ?_ ?_
  · exact fun _ _ hu => hu.then fun hu => hu.modTask Iff.rfl
  · exact fun _ hu hp => hu.then fun hu => hu.wake hp

theorem Timed.run (h : Timed s) (hq : Queued s l) (hharm : Harmless s (.run op))
    (hrun : s.run op = some s') :
    Orderly s s' ∨ s.stack s.current = [] ∧
      ∃ root memory pid, op = .fork root memory pid ∧ s' = s.fork root memory pid := by
  cases run_cases s hrun with
  | fork root memory pid hnil _ hop => exact Or.inr ⟨hnil, root, memory, pid, hop, rfl⟩
  | call turn hnil hturn => exact Or.inl (h.call hnil hturn)
  | forkWake n rest hf =>
      obtain ⟨hok, hrest⟩ := hq.frame _ _ hf
      refine Or.inl ((h.wake hok).then fun hu => ?_)
      have hf' : (s.wakeUpProcess n).stack (s.wakeUpProcess n).current = .forkWake n :: rest := by
        rw [wakeUpProcess_stack, wakeUpProcess_current]
        exact hf
      refine hu.back hf' hrest (fun _ _ _ hold => hold.tail rfl) ?_
      intro hunused
      have hdying := hu.dying hunused
      rw [hf'] at hdying
      cases hdying with
      | leaving _ hleaving => cases hleaving
  | schedule f rest u hf hsched => exact Or.inl (h.schedule hq hf hsched)
  | turn f rest turn hf hturn => exact Or.inl (h.turn hq hf hharm hturn)

theorem Timed.step {a : Act}
    (h : Timed s) (hq : Queued s l) (hharm : Harmless s a) (hstep : s.step a = some s') :
    Orderly s s' ∨ s.stack s.current = [] ∧
      ∃ root memory pid, a = .run (.fork root memory pid) ∧ s' = s.fork root memory pid := by
  unfold State.step at hstep
  split at hstep
  · cases hstep
  · cases a with
    | tick =>
        obtain rfl := Option.some.inj hstep
        exact Or.inl (h.same rfl rfl (fun _ htm => htm) fun _ => Iff.rfl)
    | wakeRound addr it p =>
        obtain rfl := Option.some.inj hstep
        left
        unfold State.wakeRound
        split
        · rename_i hawaits
          refine h.wake ?_
          rcases hawaits.2 with hst | ⟨_, hst⟩
          · rw [hst]
            simp
          · rw [hst]
            simp
        · exact h.same rfl rfl (fun _ htm => htm) fun _ => Iff.rfl
    | sendSig sig p =>
        obtain rfl := Option.some.inj hstep
        exact Or.inl h.sendSig
    | setLock addr value =>
        obtain rfl := Option.some.inj hstep
        exact Or.inl (h.same rfl rfl (fun _ htm => htm) fun _ => Iff.rfl)
    | run op =>
        rcases h.run hq hharm hstep with horderly | ⟨hnil, root, memory, pid, rfl, hs⟩
        · exact Or.inl horderly
        · exact Or.inr ⟨hnil, root, memory, pid, rfl, hs⟩

theorem startKernel_timed : Timed startKernel := by
  refine ⟨by simp [startKernel_tlList], ?_, ?_, fun hu => absurd hu (by decide)⟩
  · intro next p rest hf
    cases hf
  · intro f rest hf hg
    obtain ⟨rfl, rfl⟩ := List.cons.inj hf.symm
    cases hg

theorem harmless_kept (h : Reached Harmless s) :
    Timed s ∧ (∃ l, Queued s l) ∧ s.halted ≠ some .timerOverwritten := by
  induction h with
  | start => exact ⟨startKernel_timed, ⟨[1], startKernel_queued⟩, by simp [startKernel_halted]⟩
  | @step s s' a _ ha hs ih =>
      obtain ⟨htimed, ⟨l, hq⟩, _⟩ := ih
      have hkept : Timed s' ∧ (s'.task 0).state ≠ .unused := by
        rcases htimed.step hq ha hs with horderly | ⟨hnil, root, memory, pid, _, rfl⟩
        · exact ⟨horderly.timed, horderly.idle hq.idle⟩
        · have hfork : Timed (s.fork root memory pid) ∧ _ ∧ _ := htimed.fork hq hnil
          obtain ⟨htimed', hidle, _⟩ := hfork
          exact ⟨htimed', hidle hq.idle⟩
      refine ⟨hkept.1, hq.step hs hkept.2, fun hhalt => ?_⟩
      rcases step_halts hs hhalt with he | he | he | ⟨_, hnil, root, memory, pid, rfl⟩ |
        ⟨f, rest, hf, ⟨he, _⟩ | ⟨he, _⟩⟩
      · cases he
      · cases he
      · cases he
      · have hfork : Timed (s.fork root memory pid) ∧ _ ∧ _ := htimed.fork hq hnil
        rw [hfork.2.2] at hhalt
        unfold State.step at hs
        rw [hhalt] at hs
        cases hs
      · cases he
      · cases he

/-- While no task ends with a timer of its own on the list, and the idle task does not
end: the timers lie in frames of `schedule` of live tasks, no frame with a timer is
overwritten, and a dead task stays dead until `do_fork` takes its slot. -/
theorem dead_stay_dead (h : Reached Harmless s) :
    (∀ tm ∈ s.tlList, OnStack s tm) ∧ s.halted ≠ some .timerOverwritten ∧
    (∀ next p rest, s.stack s.current = .fire next p :: rest → (s.task p).state ≠ .unused) ∧
    ∀ a s', Harmless s a → s.step a = some s' → ∀ t, (s.task t).state = .unused →
      (s'.task t).state ≠ .unused → ∃ root memory pid, a = .run (.fork root memory pid) := by
  obtain ⟨htimed, ⟨l, hq⟩, hhalt⟩ := harmless_kept h
  refine ⟨htimed.timers, hhalt, htimed.fire, ?_⟩
  intro a s' ha hs t hold hnew
  rcases htimed.step hq ha hs with horderly | ⟨_, root, memory, pid, he, _⟩
  · exact absurd (horderly.dead t hold) hnew
  · exact ⟨root, memory, pid, he⟩

theorem harm_dangles {rest : List Frame} {tm : Timer}
    (hf : s.stack s.current = .freeing :: rest) (htm : tm ∈ s.tlList)
    (hslot : tm.slot = s.current) (hstep : s.step (.run .next) = some s') :
    tm ∈ s'.tlList ∧ ¬OnStack s' tm := by
  unfold State.step at hstep
  split at hstep
  · cases hstep
  · simp only [State.run, hf] at hstep
    obtain rfl := Option.some.inj hstep
    refine ⟨htm, fun hon => hon.live ?_⟩
    rw [hslot]
    simp [State.takes, State.modTask, State.setStack]

instance {s : State} {a : Act} : Decidable (Harmless s a) :=
  inferInstanceAs (Decidable (_ → _ → _))

/-- The first task forks, and the child calls `select` with a timeout. -/
def selectRun : List Act :=
  nexts 6 ++ [.run (.fork true true 2), .run .next, .run .yield] ++ nexts 6 ++
    [.run (.setTimeout 1), .run .select] ++ nexts 2 ++ [.run (.polled false)] ++ nexts 9

/-- The child sleeps, with its timer on the list. -/
def selectSleeps : Option State :=
  startKernel.acts Harmless selectRun

theorem selectSleeps_goes : selectSleeps.isSome = true := by
  decide +kernel

theorem dead_stay_dead_selectSleeps :
    (∀ tm ∈ (selectSleeps.get selectSleeps_goes).tlList,
      OnStack (selectSleeps.get selectSleeps_goes) tm) ∧
    (selectSleeps.get selectSleeps_goes).halted ≠ some .timerOverwritten := by
  obtain ⟨htimers, hhalt, _⟩ :=
    dead_stay_dead (Reached.start.acts (Option.some_get selectSleeps_goes).symm)
  exact ⟨htimers, hhalt⟩

/-- `SIGTERM` wakes the child, and `do_signal` ends it. -/
def killedRun : List Act :=
  selectRun ++ [.sendSig 14 14, .run .yield] ++ nexts 20

/-- The timer of the child goes off. -/
def firedRun : List Act :=
  killedRun ++ [.tick, .tick, .run .yield] ++ nexts 2

/-- A timer is left in a slot that is not used, and `process_timeout` makes the slot
runnable. -/
theorem dead_wakes :
    (∃ s, Reached Anything s ∧ ∃ tm ∈ s.tlList, (s.task tm.slot).state = .unused) ∧
    ∃ s s', Reached Anything s ∧ s.step (.run .next) = some s' ∧
      (s.task 14).state = .unused ∧ (s'.task 14).state = .running := by
  have hkilled : (startKernel.acts Anything killedRun).map (fun s => s.tlList.any fun tm =>
      (s.task tm.slot).state = .unused) = some true := by
    decide +kernel
  have hfired : (startKernel.acts Anything firedRun).bind (fun s =>
      (s.step (.run .next)).map fun s' => ((s.task 14).state, (s'.task 14).state)) =
        some (.unused, .running) := by
    decide +kernel
  obtain ⟨s, hs, hany⟩ := Option.map_eq_some_iff.mp hkilled
  obtain ⟨tm, htm, hunused⟩ := List.any_eq_true.mp hany
  obtain ⟨u, hu, hmap⟩ := Option.bind_eq_some_iff.mp hfired
  obtain ⟨u', hu', hstates⟩ := Option.map_eq_some_iff.mp hmap
  obtain ⟨hold, hnew⟩ := Prod.mk.inj hstates
  exact ⟨⟨s, Reached.start.acts hs, tm, htm, by simpa using hunused⟩,
    u, u', Reached.start.acts hu, hu', hold, hnew⟩

end Step

end Sched
end Elks
