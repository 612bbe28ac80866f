import Elks.Sched.Machine

/-!
# Wait pointers

`wait_set` panics when the task already waits, `wait_clear` when it waits for
something else.  A task that is killed in its sleep goes through `do_exit` with
its wait pointer set, and `do_exit` may wait for a locked inode.

**Results.**
* `waits_paired`: the panics are not reached in a run in which `do_exit` does not
  sleep for a task that still has a wait pointer.
* `exit_waits_twice`: otherwise `wait_set` is called with the pointer set.
-/

namespace Elks
namespace Sched

open Lib
open Function (update update_of_ne update_self)

/-- The queue a frame has put the task on. -/
def Frame.holding : Frame → Option Wait
  | .sleepCall addr => some (.at addr)
  | .sleepBack addr => some (.at addr)
  | .waitRepeat addr => some (.at addr)
  | .waitTest addr => some (.at addr)
  | .waitClear addr => some (.at addr)
  | .selectPoll => some .selectPoll
  | .selectBack => some .selectPoll
  | .selectEnd => some .selectPoll
  | .selectClear => some .selectPoll
  | _ => none

/-- A frame that will call `wait_set`. -/
def Frame.readies : Frame → Bool
  | .sleepSet _ => true
  | .waitSet _ => true
  | .selectRepeat => true
  | .selectSet => true
  | _ => false

/-- The queues that the frames have put the task on. -/
def waits (l : List Frame) : List Wait :=
  l.filterMap Frame.holding

/-- No frame is about to call `wait_set`. -/
def Settled (l : List Frame) : Prop :=
  ∀ f ∈ l, f.readies = false

/-- The wait pointer is the queue that the frames have put the task on, and where
`wait_set` will be called there is none. -/
structure Paired (waitpt : Option Wait) (l : List Frame) : Prop where
  pointer : waits l = waitpt.toList
  ready : Settled l ∨
    ∃ f rest, l = f :: rest ∧ f.readies = true ∧ waitpt = none ∧ Settled rest

/-- Every task has the wait pointer that its frames have set. -/
def Waiting (s : State) : Prop :=
  ∀ t, Paired (s.task t).waitpt (s.stack t)

/-- Whether the code of a system call goes to sleep on a wait queue. -/
def Op.waits (locked : Nat → Bool) : Op → Bool
  | .sleep _ _ => true
  | .wait addr => locked addr
  | _ => false

/-- `do_exit` does not sleep for a task that has a wait pointer. -/
def Unnested (s : State) : Act → Prop
  | .run op =>
      (s.stack s.current).head? = some .closing ∨ (s.stack s.current).head? = some .freeing →
        op.waits s.locked = true → (s.task s.current).waitpt = none
  | _ => True

section Frames

variable {w : Option Wait} {f : Frame} {l m rest : List Frame}

theorem Settled.cons (hf : f.readies = false) (h : Settled rest) : Settled (f :: rest) := by
  intro g hg
  rcases List.mem_cons.mp hg with rfl | hg
  · exact hf
  · exact h g hg

theorem settled_nil : Settled [] := by
  simp [Settled]

theorem settled_one (hf : f.readies = false) : Settled [f] :=
  Settled.cons hf settled_nil

theorem settled_two {g : Frame} (hf : f.readies = false) (hg : g.readies = false) :
    Settled [f, g] :=
  Settled.cons hf (settled_one hg)

theorem Settled.append (hm : Settled m) (h : Settled rest) : Settled (m ++ rest) := by
  intro g hg
  rcases List.mem_append.mp hg with hg | hg
  · exact hm g hg
  · exact h g hg

theorem waits_append : waits (m ++ rest) = waits m ++ waits rest :=
  List.filterMap_append

theorem Frame.not_holding (h : f.readies = true) : f.holding = none := by
  cases f <;> first | rfl | cases h

theorem Paired.nil : Paired none [] :=
  ⟨rfl, Or.inl settled_nil⟩

/-- The frames under the first do not call `wait_set` before it is done. -/
theorem Paired.settled (h : Paired w (f :: rest)) : Settled rest := by
  rcases h.ready with hall | ⟨g, rest', he, _, _, hrest⟩
  · exact fun g hg => hall g (List.mem_cons_of_mem f hg)
  · obtain ⟨rfl, rfl⟩ := List.cons.inj he
    exact hrest

theorem Paired.none_of_readies (h : Paired w (f :: rest)) (hf : f.readies = true) : w = none := by
  rcases h.ready with hall | ⟨_, _, _, _, hw, _⟩
  · rw [hall f List.mem_cons_self] at hf
    cases hf
  · exact hw

theorem Paired.rest_of_readies (h : Paired w (f :: rest)) (hf : f.readies = true) :
    waits rest = [] := by
  have hw := h.none_of_readies hf
  have hall := h.pointer
  subst hw
  simpa [waits, Frame.not_holding hf] using hall

/-- A frame that has put the task on a queue has set its wait pointer. -/
theorem Paired.of_holding {q : Wait} (h : Paired w (f :: rest)) (hf : f.holding = some q) :
    w = some q ∧ waits rest = [] := by
  have hall := h.pointer
  cases w with
  | none => simp [waits, hf] at hall
  | some q' =>
      simp only [waits, List.filterMap_cons, hf, Option.toList_some, List.cons.injEq]
        at hall
      exact ⟨by rw [hall.1], hall.2⟩

/-- Frames that are on the same queue take the place of the first. -/
theorem Paired.keep (h : Paired w (f :: rest)) (hm : Settled m) (hsame : waits m = waits [f]) :
    Paired w (m ++ rest) := by
  refine ⟨?_, Or.inl (hm.append h.settled)⟩
  have hsplit : waits (f :: rest) = waits [f] ++ waits rest :=
    waits_append (m := [f])
  rw [waits_append, hsame, ← hsplit]
  exact h.pointer

theorem Paired.set {g : Frame} {q : Wait}
    (h : Paired w (f :: rest)) (hf : f.readies = true) (hg : g.holding = some q)
    (hready : g.readies = false) : Paired (some q) (g :: rest) := by
  refine ⟨?_, Or.inl (h.settled.cons hready)⟩
  simp only [waits, List.filterMap_cons, hg, Option.toList_some]
  rw [← waits, h.rest_of_readies hf]

theorem Paired.clear {q : Wait}
    (h : Paired w (f :: rest)) (hf : f.holding = some q) (hm : Settled m) (hnone : waits m = []) :
    Paired none (m ++ rest) := by
  refine ⟨?_, Or.inl (hm.append h.settled)⟩
  rw [waits_append, hnone, (h.of_holding hf).2]
  rfl

theorem Paired.push (h : waits rest = []) (hf : f.readies = true) (hrest : Settled rest) :
    Paired none (f :: rest) := by
  refine ⟨?_, Or.inr ⟨f, rest, rfl, hf, rfl, hrest⟩⟩
  simp only [waits, List.filterMap_cons, Frame.not_holding hf]
  exact h

end Frames

section Turn

variable {d d' : Task} {idle : Bool} {locked : Nat → Bool} {op : Op} {f : Frame}
  {l st rest : List Frame}

theorem paired_work (h : Paired d.waitpt l) (hl : Settled l)
    (hunnested : op.waits locked = true → d.waitpt = none)
    (hwork : d.work idle locked l op = some (.goes d' st)) : Paired d'.waitpt st := by
  rcases work_goes hwork with ⟨addr, state, ⟨i, rfl⟩, _, rfl, rfl⟩ |
    ⟨addr, rfl, hlocked, rfl, rfl⟩ | ⟨rfl, rfl | rfl⟩
  · have hnone := hunnested rfl
    have hwaits := h.pointer
    dsimp only
    rw [hnone] at hwaits ⊢
    exact Paired.push hwaits rfl hl
  · have hnone := hunnested hlocked
    have hwaits := h.pointer
    rw [hnone] at hwaits ⊢
    exact Paired.push hwaits rfl hl
  · exact h
  · exact ⟨h.pointer, Or.inl (hl.cons rfl)⟩

theorem onward_set {q : Wait} (hf : f.sets = some q) :
    f.readies = true ∧ ∀ m ∈ f.onward, ∃ g, m = [g] ∧ g.holding = some q ∧ g.readies = false := by
  cases f <;> simp_all [Frame.onward, Frame.sets, Frame.readies, Frame.holding]

theorem onward_clear {q : Wait} (hf : f.clears = some q) :
    f.holding = some q ∧
      ∀ m ∈ f.onward, waits m = [] ∧ Settled m ∨ m = [.selectRepeat] := by
  cases f <;> simp_all [Frame.onward, Frame.clears, Frame.readies, Frame.holding, waits, Settled]

theorem onward_keep (hset : f.sets = none) (hclear : f.clears = none) :
    ∀ m ∈ f.onward, waits m = waits [f] ∧ Settled m ∨ f = .selectRepeat ∧ m = [.selectSet] := by
  cases f <;> simp_all [Frame.onward, Frame.sets, Frame.clears, Frame.readies, Frame.holding,
    waits, Settled, List.filterMap_cons]

/-- An action of the current task that touches nothing but the task. -/
theorem paired_turn (h : Paired d.waitpt (f :: rest))
    (hunnested : f = .closing ∨ f = .freeing → op.waits locked = true → d.waitpt = none)
    (hturn : d.turn idle locked op f rest = some (.goes d' st)) : Paired d'.waitpt st := by
  have hrest := h.settled
  rcases turn_goes hturn with ⟨hexit, hwork⟩ | ⟨hstepped, m, hm, rfl⟩
  · refine paired_work h (hrest.cons ?_) (hunnested hexit) hwork
    rcases hexit with rfl | rfl
    · rfl
    · rfl
  · cases hstepped with
    | set q hf _ hd =>
        obtain ⟨hreadies, hset⟩ := onward_set hf
        obtain ⟨g, rfl, hg, hready⟩ := hset m hm
        rw [hd]
        exact h.set hreadies hg hready
    | clear q hf _ hd =>
        obtain ⟨hholding, hclear⟩ := onward_clear hf
        rw [hd]
        rcases hclear m hm with ⟨hnone, hsettled⟩ | rfl
        · exact h.clear hholding hsettled hnone
        · exact Paired.push (h.of_holding hholding).2 rfl hrest
    | keep hset hclear hwaitpt _ =>
        rw [hwaitpt]
        rcases onward_keep hset hclear m hm with ⟨hsame, hsettled⟩ | ⟨rfl, rfl⟩
        · exact h.keep hsettled hsame
        · rw [h.none_of_readies rfl]
          exact Paired.push (h.rest_of_readies rfl) rfl hrest

end Turn

section Step

variable {s s' : State} {p : TaskRef} {op : Op} {f g : Frame} {st rest : List Frame}

theorem Waiting.same (h : Waiting s) (hstack : s'.stack = s.stack)
    (hwaitpt : ∀ t, (s'.task t).waitpt = (s.task t).waitpt) : Waiting s' := by
  intro t
  rw [hstack, hwaitpt]
  exact h t

theorem Waiting.modTask {g : Task → Task} (h : Waiting s) (hg : ∀ d, (g d).waitpt = d.waitpt) :
    Waiting (s.modTask p g) := by
  refine h.same rfl ?_
  intro t
  rcases eq_or_ne t p with rfl | ht
  · simp [State.modTask, hg]
  · simp [State.modTask, ht]

theorem Waiting.wake (h : Waiting s) : Waiting (s.wakeUpProcess p) := by
  refine h.same (wakeUpProcess_stack s p) ?_
  intro t
  rw [wakeUpProcess_task]
  rcases eq_or_ne t p with rfl | ht
  · simp
  · simp [ht]

theorem Waiting.setStack (h : Waiting s) (hst : Paired (s.task s.current).waitpt st) :
    Waiting (s.setStack st) := by
  intro t
  rcases eq_or_ne t s.current with rfl | ht
  · rw [setStack_self]
    exact hst
  · rw [setStack_other s st ht]
    exact h t

theorem Waiting.next (h : Waiting s) (hf : s.stack s.current = f :: rest) (hg : g.readies = false)
    (hsame : g.holding = f.holding) : Waiting (s.setStack (g :: rest)) := by
  have hpaired := h s.current
  rw [hf] at hpaired
  refine h.setStack (hpaired.keep (m := [g]) (settled_one hg) ?_)
  simp only [waits, List.filterMap_cons, hsame]

theorem Waiting.back
    (h : Waiting s) (hf : s.stack s.current = f :: rest) (hnone : f.holding = none) :
    Waiting (s.setStack rest) := by
  have hpaired := h s.current
  rw [hf] at hpaired
  refine h.setStack (hpaired.keep (m := []) settled_nil ?_)
  simp [waits, hnone]

theorem Waiting.takes {d : Task} (h : Waiting s) (hst : Paired d.waitpt st) :
    Waiting (s.takes (.goes d st)) := by
  intro t
  rcases eq_or_ne t s.current with rfl | ht
  · have hself : (s.takes (.goes d st)).stack s.current = st := update_self _ _ _
    have htask : (s.takes (.goes d st)).task s.current = d := update_self _ _ _
    rw [hself, htask]
    exact hst
  · have hother : (s.takes (.goes d st)).stack t = s.stack t := update_of_ne ht _ _
    have htask : (s.takes (.goes d st)).task t = s.task t := update_of_ne ht _ _
    rw [hother, htask]
    exact h t

theorem Waiting.halt {halt : Halt} (h : Waiting s) : Waiting (s.halt halt) :=
  h.same rfl fun _ => rfl

theorem Waiting.del (h : Waiting s) : Waiting (s.delFromRunqueue p) := by
  refine h.same (delFromRunqueue_stack s p) ?_
  intro t
  rw [delFromRunqueue_task]

theorem Waiting.dequeue {next : TaskRef}
    (h : Waiting s) (hf : s.stack s.current = .dequeue next :: rest) :
    Waiting (s.dequeue next rest) := by
  refine dequeue_ind s ?_ ?_ fun _ => h.next hf rfl rfl
  · intro g _ _ hg
    have hmod : Waiting (s.modTask s.current g) := h.modTask hg
    exact hmod.next (f := .dequeue next) hf rfl rfl
  · intro timeout _ _
    refine h.del.next (f := .dequeue next) ?_ rfl rfl
    rw [delFromRunqueue_stack, delFromRunqueue_current]
    exact hf

theorem Waiting.schedule
    (h : Waiting s) (hf : s.stack s.current = f :: rest) (hrun : s.schedule rest f = some s') :
    Waiting s' := by
  cases schedule_cases s hrun with
  | exiting | same _ | disarmsNot => exact h.back hf rfl
  | unlinked | idleUnlinked _ _ => exact h.halt
  | linked _ | unexpired _ | skipsIdle _ _ _ | other _ _ | armsNot _ => exact h.next hf rfl rfl
  | expired next tm tl =>
      have h' : Waiting { s with tlList := tl } := h.same rfl fun _ => rfl
      exact h'.next (f := .timers next) hf rfl rfl
  | fire next p =>
      have hmod : Waiting (s.modTask p fun d => { d with timeout := 0 }) :=
        h.modTask fun _ => rfl
      refine hmod.wake.next (f := .fire next p) ?_ rfl rfl
      rw [wakeUpProcess_stack, wakeUpProcess_current]
      exact hf
  | dequeue next => exact h.dequeue hf
  | arms next timeout =>
      have h' : Waiting { s with
          tlList := addTimer ⟨s.current, rest.length, timeout, s.current⟩ s.tlList } :=
        h.same rfl fun _ => rfl
      exact h'.next (f := .arm next timeout) hf rfl rfl
  | switch next timeout =>
      have h' : Waiting (s.setStack (.switched timeout :: rest)) := h.next hf rfl rfl
      exact h'.same rfl fun _ => rfl
  | disarms timeout =>
      have h' : Waiting { s with tlList := delTimer s.current rest.length s.tlList } :=
        h.same rfl fun _ => rfl
      exact h'.back (f := .disarm timeout) hf rfl

theorem Waiting.sendSig {sig : Fin nsig} (h : Waiting s) :
    Waiting (s.sendSig sig p) :=
  sendSig_ind h (fun _ _ hu => hu.modTask fun _ => rfl) fun _ hu _ => hu.wake

theorem Waiting.fork {root memory : Bool} {pid : Nat}
    (h : Waiting s) (hnil : s.stack s.current = []) : Waiting (s.fork root memory pid) := by
  have hnone : (s.task s.current).waitpt = none := by
    have hpaired := (h s.current).pointer
    rw [hnil] at hpaired
    exact Option.toList_eq_nil_iff.mp hpaired.symm
  unfold State.fork
  split
  · exact h
  · rename_i n _
    split
    · exact h.halt
    · have hfill : ∀ (d : Task) (u : State), d.waitpt = none →
          u.task = update s.task n d → u.stack = update s.stack n [] →
          Waiting u := by
        intro d u hd htask hstack t
        rw [htask, hstack]
        rcases eq_or_ne t n with rfl | ht
        · simpa [hd] using Paired.nil
        · simpa [ht] using h t
      cases memory with
      | true =>
          have hchild := hfill { s.task s.current with state := .uninterruptible, pid := pid }
            (((({ s with stack := update s.stack n [] } : State).modTask n fun _ =>
              { s.task s.current with state := .uninterruptible, pid := pid }).setNext n
                none).setPrev n none) hnone rfl rfl
          refine hchild.setStack ?_
          have hpaired := hchild s.current
          have hcur : update s.stack n [] s.current = [] := by
            rcases eq_or_ne s.current n with he | he
            · rw [he, update_self]
            · rw [update_of_ne he, hnil]
          have hstack : ((((({ s with stack := update s.stack n [] } : State).modTask n
              fun _ => { s.task s.current with state := .uninterruptible, pid := pid }).setNext n
                none).setPrev n none).stack s.current) = [] := hcur
          rw [hstack] at hpaired
          exact ⟨hpaired.pointer, Or.inl (settled_one rfl)⟩
      | false => exact hfill { s.task s.current with state := .unused } _ hnone rfl rfl

theorem Waiting.run (h : Waiting s) (hunnested : Unnested s (.run op)) (hrun : s.run op = some s') :
    Waiting s' := by
  cases run_cases s hrun with
  | fork root memory pid hnil => exact h.fork hnil
  | call turn hnil hturn =>
      have hnone : Paired (s.task s.current).waitpt [] := hnil ▸ h s.current
      cases turn with
      | halts halt => exact h.halt
      | goes d st =>
          refine h.takes ?_
          have hw : (s.task s.current).waitpt = none :=
            Option.toList_eq_nil_iff.mp hnone.pointer.symm
          rcases call_goes hturn with hwork | ⟨hwaitpt, _, _, hst⟩
          · exact paired_work hnone settled_nil (fun _ => hw) hwork
          · rw [hwaitpt, hw]
            rcases hst with rfl | rfl | rfl | rfl
            · exact Paired.nil
            · exact Paired.push rfl rfl settled_nil
            · exact ⟨rfl, Or.inl (settled_two rfl rfl)⟩
            · exact ⟨rfl, Or.inl (settled_one rfl)⟩
  | forkWake n rest hf =>
      refine h.wake.back (f := .forkWake n) ?_ rfl
      rw [wakeUpProcess_stack, wakeUpProcess_current]
      exact hf
  | schedule f rest u hf hsched => exact h.schedule hf hsched
  | turn f rest turn hf hturn =>
      cases turn with
      | halts halt => exact h.halt
      | goes d st =>
          refine h.takes (paired_turn (hf ▸ h s.current) ?_ hturn)
          intro hexit
          refine hunnested ?_
          rw [hf]
          rcases hexit with rfl | rfl
          · exact Or.inl rfl
          · exact Or.inr rfl

theorem Waiting.step {a : Act}
    (h : Waiting s) (hunnested : Unnested s a) (hstep : s.step a = some s') : Waiting s' := by
  unfold State.step at hstep
  split at hstep
  · cases hstep
  · cases a with
    | tick =>
        obtain rfl := Option.some.inj hstep
        exact h.same rfl fun _ => rfl
    | wakeRound addr it p =>
        obtain rfl := Option.some.inj hstep
        unfold State.wakeRound
        split
        · exact h.wake
        · exact h
    | sendSig sig p =>
        obtain rfl := Option.some.inj hstep
        exact h.sendSig
    | setLock addr value =>
        obtain rfl := Option.some.inj hstep
        exact h.same rfl fun _ => rfl
    | run op => exact h.run hunnested hstep

theorem startKernel_waiting : Waiting startKernel := by
  intro t
  rcases eq_or_ne t 0 with rfl | ht
  · exact ⟨rfl, Or.inl (settled_one rfl)⟩
  · have hnil : startKernel.stack t = [] := update_of_ne ht _ _
    rw [hnil]
    refine ⟨?_, Or.inl settled_nil⟩
    have hnone : ∀ t, (startKernel.task t).waitpt = none := by
      decide
    rw [hnone]
    rfl

theorem Waiting.pointer (h : Waiting s) (hf : s.stack s.current = f :: rest) :
    (f.sets ≠ none → (s.task s.current).waitpt = none) ∧
    (f.clears ≠ none → (s.task s.current).waitpt = f.clears) := by
  have hpaired := h s.current
  rw [hf] at hpaired
  constructor
  · intro hsets
    refine hpaired.none_of_readies ?_
    cases f <;> first | rfl | exact absurd rfl hsets
  · intro hclears
    obtain ⟨q, hq⟩ := Option.ne_none_iff_exists'.mp hclears
    rw [hq]
    refine (hpaired.of_holding ?_).1
    cases f <;> first | exact hq | cases hq

/-- As long as `do_exit` does not sleep for a task that has a wait pointer, `wait_set`
is called without one and `wait_clear` with the right one. -/
theorem waits_paired (h : Reached Unnested s) :
    (∀ f rest, s.stack s.current = f :: rest →
      (f.sets ≠ none → (s.task s.current).waitpt = none) ∧
      (f.clears ≠ none → (s.task s.current).waitpt = f.clears)) ∧
    s.halted ≠ some .doubleWait ∧ s.halted ≠ some .wrongWaitpt := by
  have hkept : Waiting s ∧ s.halted ≠ some .doubleWait ∧ s.halted ≠ some .wrongWaitpt := by
    induction h with
    | start => exact ⟨startKernel_waiting, by simp [startKernel_halted], by simp [startKernel_halted]⟩
    | @step s s' a _ ha hs ih =>
        obtain ⟨hwaiting, _, _⟩ := ih
        have hno : ∀ halt, halt = .doubleWait ∨ halt = .wrongWaitpt →
            s'.halted ≠ some halt := by
          intro halt hpanic hhalt
          rcases step_halts hs hhalt with rfl | rfl | rfl | ⟨rfl, _⟩ |
            ⟨f, rest, hf, ⟨_, hsets, hw⟩ | ⟨_, hclears, hw⟩⟩
          · rcases hpanic with he | he <;> cases he
          · rcases hpanic with he | he <;> cases he
          · rcases hpanic with he | he <;> cases he
          · rcases hpanic with he | he <;> cases he
          · exact hw ((hwaiting.pointer hf).1 hsets)
          · exact hw ((hwaiting.pointer hf).2 hclears)
        exact ⟨hwaiting.step ha hs, hno _ (Or.inl rfl), hno _ (Or.inr rfl)⟩
  exact ⟨fun f rest hf => hkept.1.pointer hf, hkept.2⟩

theorem set_panics
    (hgoing : s.halted = none) (hf : s.stack s.current = f :: rest) (hsets : f.sets ≠ none)
    (hw : (s.task s.current).waitpt ≠ none) (op : Op) :
    (s.step (.run op)).map State.halted = some (some .doubleWait) := by
  have hset : ∀ q st, (s.task s.current).waitSet q st = .halts .doubleWait :=
    fun q st => if_neg hw
  have hnot : ¬s.halted ≠ none := not_not.mpr hgoing
  cases f with
  | sleepSet addr =>
      simp only [State.step, if_neg hnot, State.run, hf, State.schedule, Task.turn, hset]
      rfl
  | waitSet addr =>
      simp only [State.step, if_neg hnot, State.run, hf, State.schedule, Task.turn, hset]
      rfl
  | selectSet =>
      simp only [State.step, if_neg hnot, State.run, hf, State.schedule, Task.turn, hset]
      rfl
  | _ => exact absurd rfl hsets

theorem nested_panics {a : Act}
    (hnested : ¬Unnested s a) (hidle : s.current ≠ 0) (hstep : s.step a = some s') (op' : Op) :
    (s'.step (.run op')).map State.halted = some (some .doubleWait) := by
  cases a with
  | run op =>
      simp only [Unnested, Classical.not_imp] at hnested
      obtain ⟨hhead, hwaits, hw⟩ := hnested
      obtain ⟨f, rest, hf, hexit⟩ : ∃ f rest, s.stack s.current = f :: rest ∧
          (f = .closing ∨ f = .freeing) := by
        cases hstack : s.stack s.current with
        | nil =>
            rw [hstack] at hhead
            rcases hhead with he | he <;> cases he
        | cons f rest =>
            rw [hstack] at hhead
            exact ⟨f, rest, rfl, hhead.imp Option.some.inj Option.some.inj⟩
      unfold State.step at hstep
      split at hstep
      · cases hstep
      rename_i hgoing
      have hrun : s.run op = ((s.task s.current).work (s.current = 0) s.locked (f :: rest)
          op).map s.takes := by
        have hop : op ≠ .next := by
          rintro rfl
          cases hwaits
        rw [← turn_exit hexit hop]
        rcases hexit with rfl | rfl
        · simp only [State.run, hf, State.schedule]
        · simp only [State.run, hf, State.schedule]
      have hbusy : decide (s.current = 0) = false := decide_eq_false hidle
      simp only [hrun, hbusy] at hstep
      obtain ⟨turn, hwork, rfl⟩ := Option.map_eq_some_iff.mp hstep
      have hpanics : ∀ (d : Task) (g : Frame), d.waitpt = (s.task s.current).waitpt →
          g.sets ≠ none → (State.step (s.takes (.goes d (g :: f :: rest)))
            (.run op')).map State.halted = some (some .doubleWait) := by
        intro d g hd hg
        have hstack : (s.takes (.goes d (g :: f :: rest))).stack
            (s.takes (.goes d (g :: f :: rest))).current = g :: f :: rest :=
          update_self _ _ _
        have htask : (s.takes (.goes d (g :: f :: rest))).task
            (s.takes (.goes d (g :: f :: rest))).current = d := update_self _ _ _
        have hgo : (s.takes (.goes d (g :: f :: rest))).halted = none := not_not.mp hgoing
        refine set_panics hgo hstack hg ?_ op'
        rw [htask, hd]
        exact hw
      cases op with
      | sleep addr i =>
          obtain rfl := Option.some.inj hwork
          exact hpanics _ (.sleepSet addr) rfl (by simp [Frame.sets])
      | wait addr =>
          have hlocked : s.locked addr = true := hwaits
          simp only [Task.work, if_pos hlocked] at hwork
          obtain rfl := Option.some.inj hwork
          exact hpanics _ (.waitSet addr) rfl (by simp [Frame.sets])
      | _ => cases hwaits
  | _ => exact absurd trivial hnested

instance {s : State} : {a : Act} → Decidable (Unnested s a)
  | .run _ => inferInstanceAs (Decidable (_ → _ → _))
  | .tick => inferInstanceAs (Decidable True)
  | .wakeRound _ _ _ => inferInstanceAs (Decidable True)
  | .sendSig _ _ => inferInstanceAs (Decidable True)
  | .setLock _ _ => inferInstanceAs (Decidable True)

/-- The first task forks, and the child sleeps on a queue. -/
def sleepRun : List Act :=
  nexts 6 ++ [.run (.fork true true 2), .run .next, .run .yield] ++ nexts 6 ++
    [.run (.sleep 7 true)] ++ nexts 11

/-- The child sleeps, and the first task goes on. -/
def childSleeps : Option State :=
  startKernel.acts Unnested sleepRun

theorem childSleeps_goes : childSleeps.isSome = true := by
  decide +kernel

theorem waits_paired_childSleeps :
    (childSleeps.get childSleeps_goes).halted ≠ some .doubleWait :=
  (waits_paired (Reached.start.acts (Option.some_get childSleeps_goes).symm)).2.1

/-- The child is killed while an inode that it has open is being written, and closes
its files. -/
def exitRun : List Act :=
  sleepRun ++ [.setLock 9 true, .sendSig 14 14, .run .yield] ++ nexts 8 ++
    [.run (.wait 9)]

/-- `wait_on_inode` under `do_exit` calls `wait_set` for a task that still has the wait
pointer of its sleep, and the kernel panics. -/
theorem exit_waits_twice :
    ∃ s s', Reached Anything s ∧ (s.stack s.current).head? = some (.waitSet 9) ∧
      (s.task s.current).waitpt = some (.at 7) ∧ s.step (.run .next) = some s' ∧
      s'.halted = some .doubleWait := by
  have hrun : (startKernel.acts Anything exitRun).bind (fun s =>
      (s.step (.run .next)).map fun s' => ((s.stack s.current).head?,
        (s.task s.current).waitpt, s'.halted)) =
      some (some (.waitSet 9), some (.at 7), some .doubleWait) := by
    decide +kernel
  obtain ⟨s, hs, hmap⟩ := Option.bind_eq_some_iff.mp hrun
  obtain ⟨s', hs', hboth⟩ := Option.map_eq_some_iff.mp hmap
  obtain ⟨hhead, hrest⟩ := Prod.mk.inj hboth
  obtain ⟨hw, hhalt⟩ := Prod.mk.inj hrest
  exact ⟨s, s', Reached.start.acts hs, hhead, hw, hs', hhalt⟩

end Step

end Sched
end Elks
