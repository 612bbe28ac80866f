import Elks.Exec.Image
import Elks.Mm.Ledger
import Elks.Mm.Runs

/-!
# The segments of the tasks (kernel/fork.c, fs/exec.c, kernel/exit.c, CONFIG_SWAP off)

`do_fork`, `sys_execve` and `do_exit` as calls that run one after another.  A task holds
its segments with `mm.cseg` and `mm.dseg`; text is shared with a task that has the same
`t_inode`.

**Result.**  `segments_counted`: as long as no `sys_execve` asks `mm_alloc` for zero
pages, the reference counts are the numbers of fields that hold a base, and no task
holds the base of a free segment.
-/

namespace Elks
namespace Exec

open Lib Mm

/-- A slot of the task table. -/
abbrev TaskRef := Fin maxTasks

/-- What the calls use of a task. -/
structure Task where
  unused : Bool
  cseg : Nat
  dseg : Nat
  inode : Option Nat

/-- The allocator and the task table. -/
structure State where
  arena : Arena
  task : TaskRef → Task

/-- A file to execute, if it can be opened, with the argument block.  The loops over
`argv` and `envp` make at most `fuel` rounds. -/
structure Request where
  inode : Nat
  file : Option ExecFile
  sptr : Nat
  slen : Nat
  fuel : Nat

/-- The calls of a task. -/
inductive Call
  | fork (virtual root : Bool)
  | execve (x : Request)
  | exit

/-- `mm_free` of a segment, unless it is zero. -/
def freeSegment (base : Nat) : Routine Arena Unit :=
  when (base ≠ 0) do
    let _ ← mm (.free base)

/-- The memory of `do_fork`: the data segment of the child, if there is one. -/
def forkSegments (current : Task) (virtual : Bool) : Routine Arena (Option Nat) := do
  let _ ← mm (.realloc current.cseg)
  if virtual then
    let _ ← mm (.realloc current.dseg)
    pure (some current.dseg)
  else
    let dseg ← mm (.dup current.dseg)
    if dseg = 0 then
      let _ ← mm (.free current.cseg)
      pure none
    else
      pure (some dseg)

/-- `sys_execve` with memory for a file: the new segments, if all could be read. -/
def loadSegments (elks : Bool) (file : ExecFile) (x : Request) (current : Task)
    (cseg dseg : Nat) (loadCode : Bool) : Routine Arena (Option (Nat × Nat)) :=
  match accept elks file loadCode with
  | none => do
      let _ ← mm (.free cseg)
      let _ ← mm (.free dseg)
      pure none
  | some b => do
      let a ← get
      match b.load ⟨cseg, dseg, loadCode, current.dseg, x.sptr, x.slen⟩ x.fuel
          ⟨a.memory, []⟩ with
      | none => throw .endless
      | some (out, _) => do
          modify fun a => { a with memory := out.memory }
          freeSegment current.cseg
          freeSegment current.dseg
          pure (some (cseg, dseg))

/-- One more holder of a shared text. -/
def shareText (shared : Option Nat) : Routine Arena Nat :=
  match shared with
  | some base => mm (.realloc base)
  | none => pure 0

/-- Memory for text that is not shared. -/
def ownText (old pages : Nat) : Routine Arena Nat :=
  if old = 0 then mm (.alloc pages) else pure old

/-- `sys_execve` behind the headers.  `shared` is the text of a task with the same inode. -/
def execSegments (elks : Bool) (file : ExecFile) (x : Request) (current : Task)
    (shared : Option Nat) (mh : MinixExecHdr) (stackTop : Nat) :
    Routine Arena (Option (Nat × Nat)) := do
  let old ← shareText shared
  let cseg ← ownText old (codePages mh)
  if cseg = 0 then
    pure none
  else if dataLen mh stackTop > 0x10000 then
    let _ ← mm (.free cseg)
    pure none
  else
    let dseg ← mm (.alloc (dataLen mh stackTop / 16))
    if dseg = 0 then
      let _ ← mm (.free cseg)
      pure none
    else
      loadSegments elks file x current cseg dseg (old = 0)

/-- The memory of `do_exit`. -/
def exitSegments (current : Task) : Routine Arena Unit := do
  freeSegment current.cseg
  freeSegment current.dseg

section Code

variable (elks : Bool) (s : State) (c : TaskRef)

/-- The slots that `find_empty_process` counts. -/
def State.emptySlots : List TaskRef :=
  (List.finRange maxTasks).filter fun t => (s.task t).unused

/-- `find_empty_process`.  The last slot is kept for the super-user. -/
def State.findEmptyProcess (root : Bool) : Option TaskRef :=
  if s.emptySlots.length ≤ 1 ∧ (s.emptySlots = [] ∨ root = false) then
    none
  else
    s.emptySlots.getLast?

/-- The text of the first task that runs the program of this inode. -/
def State.sharedText (inode : Nat) : Option Nat :=
  ((List.finRange maxTasks).find? fun t =>
    !(s.task t).unused && (s.task t).inode == some inode).map fun t => (s.task t).cseg

/-- A task changes, behind a change of the memory. -/
def State.put (a : Arena) (t : TaskRef) (x : Task) : State where
  arena := a
  task := Function.update s.task t x

@[simp] theorem State.put_same (s : State) (a : Arena) (t : TaskRef) (x : Task) :
    (s.put a t x).task t = x :=
  Function.update_self _ _ _

theorem State.put_ne (s : State) (a : Arena) {t i : TaskRef} (x : Task) (h : i ≠ t) :
    (s.put a t x).task i = s.task i :=
  Function.update_of_ne h _ _

/-- `do_fork`. -/
def State.doFork (virtual root : Bool) : Except Fault State :=
  match s.findEmptyProcess root with
  | none => .ok s
  | some t => do
      let (dseg, a) ← forkSegments (s.task c) virtual s.arena
      match dseg with
      | some dseg => .ok (s.put a t { s.task c with dseg := dseg })
      | none => .ok (s.put a t { s.task c with dseg := 0, unused := true })

/-- `sys_execve`. -/
def State.sysExecve (x : Request) : Except Fault State :=
  match x.file with
  | none => .ok s
  | some file =>
      match readHeaders elks file with
      | none => .ok s
      | some (mh, stackTop, _) => do
          let (segs, a) ← execSegments elks file x (s.task c) (s.sharedText x.inode) mh stackTop
            s.arena
          match segs with
          | some (cseg, dseg) =>
              .ok (s.put a c { s.task c with cseg := cseg, dseg := dseg, inode := some x.inode })
          | none => .ok { s with arena := a }

/-- `do_exit`. -/
def State.doExit : Except Fault State := do
  let (_, a) ← exitSegments (s.task c) s.arena
  .ok (s.put a c { s.task c with cseg := 0, dseg := 0, unused := true })

/-- One call of task `c`. -/
def State.call : Call → Except Fault State
  | .fork virtual root => s.doFork c virtual root
  | .execve x => s.sysExecve elks c x
  | .exit => s.doExit c

/-- A task makes calls, and one that runs a program may fork. -/
def State.Calls : Call → Prop
  | .fork _ _ => (s.task c).unused = false ∧ (s.task c).inode.isSome
  | .execve _ => (s.task c).unused = false
  | .exit => (s.task c).unused = false

/-- No `mm_alloc` of a call asks for zero pages.  The first is for text that is not shared;
the one for the data is made unless there is no room for the text. -/
def State.AsksPages : Call → Prop
  | .execve x =>
      ∀ file mh stackTop pos, x.file = some file →
        readHeaders elks file = some (mh, stackTop, pos) →
        (s.sharedText x.inode = none → 0 < codePages mh) ∧
        ((s.sharedText x.inode = none → bestFitHole s.arena (codePages mh) ≠ .ok none) →
          0 < dataLen mh stackTop)
  | _ => True

end Code

/-- The machine before its first program: no task has segments. -/
structure Boot (start stop : Nat) (s : State) : Prop where
  layout : ∃ l, Layout start stop s.arena l
  start : 0 < start
  stop : stop < 2 ^ 16
  tasks : ∀ t, (s.task t).cseg = 0 ∧ (s.task t).dseg = 0 ∧ (s.task t).inode = none

/-- The states after calls that ask for pages. -/
inductive Reached (elks : Bool) (s₀ : State) : State → Prop
  | boot : Reached elks s₀ s₀
  | call {s s' : State} {c : TaskRef} {call : Call}
      (h : Reached elks s₀ s)
      (hcall : s.Calls c call)
      (hpages : s.AsksPages elks call)
      (hstep : s.call elks c call = .ok s') :
      Reached elks s₀ s'

/-- The segment fields of a live task. -/
def Task.fields (t : Task) : Multiset Nat :=
  if t.unused then 0 else {t.cseg, t.dseg}

/-- The segment fields of all live tasks. -/
def State.fields (s : State) : Multiset Nat :=
  ∑ t, (s.task t).fields

section Arenas

variable {elks : Bool} {start stop : Nat} {kernel : Nat → Prop} {a : Arena}
  {held : Multiset Nat} {current : Task} {base cseg dseg : Nat}

/-- How a call may stop the machine: no descriptor is left, or the loops over `argv`
and `envp` go on. -/
def Stops (f : Fault) : Prop :=
  f = tooManyHoles ∨ f = .endless

theorem stops_tooManyHoles : Stops tooManyHoles :=
  Or.inl rfl

theorem count_few (h : held.card ≤ 32) (base : Nat) : held.count base < 255 :=
  lt_of_le_of_lt (Multiset.count_le_card _ _) (by omega)

theorem freeSegment_spec (h : Ledger start stop kernel a (base ::ₘ held)) (hstart : 0 < start)
    (hstop : stop < 2 ^ 16) (hfew : held.card ≤ 32) :
    Outcome Stops (freeSegment base) a fun _ a' => Ledger start stop kernel a' held := by
  unfold freeSegment
  refine Outcome.when (fun hne => ?_) fun hzero => ?_
  · exact Outcome.bind (h.free hstop hne (count_few hfew base)) fun _ _ h => Outcome.pure h
  · rw [not_not.mp hzero] at h
    exact h.of_cons_zero hstart

theorem forkSegments_spec {virtual : Bool}
    (h : Ledger start stop kernel a held) (hstart : 0 < start) (hstop : stop < 2 ^ 16)
    (hfew : held.card ≤ 30) (hcseg : current.cseg ∈ held) (hcode : current.cseg ≠ 0)
    (hdseg : current.dseg ∈ held) (hdata : current.dseg ≠ 0) :
    Outcome Stops (forkSegments current virtual) a fun r a' =>
      match r with
      | some dseg => dseg ≠ 0 ∧ Ledger start stop kernel a' (dseg ::ₘ current.cseg ::ₘ held)
      | none => Ledger start stop kernel a' held := by
  have hmore : (current.cseg ::ₘ held).card ≤ 32 := by
    rw [Multiset.card_cons]
    omega
  unfold forkSegments
  refine Outcome.bind (h.realloc hcseg hcode (count_few (by omega) _)) ?_
  rintro _ a ⟨_, h⟩
  have hdseg' : current.dseg ∈ current.cseg ::ₘ held := Multiset.mem_cons_of_mem hdseg
  cases virtual with
  | true =>
      refine Outcome.bind (h.realloc hdseg' hdata (count_few hmore _)) ?_
      rintro _ a ⟨_, h⟩
      exact Outcome.pure ⟨hdata, h⟩
  | false =>
      refine Outcome.bind (h.dup hstart hstop hdseg' hdata stops_tooManyHoles) ?_
      rintro dseg a (⟨rfl, h⟩ | ⟨hne, h⟩)
      · rw [if_pos rfl]
        refine Outcome.bind (h.free hstop hcode (count_few (by omega) _)) ?_
        intro _ a h
        exact Outcome.pure h
      · rw [if_neg hne]
        exact Outcome.pure ⟨hne, h⟩

theorem exitSegments_spec (h : Ledger start stop kernel a (current.cseg ::ₘ current.dseg ::ₘ held))
    (hstart : 0 < start) (hstop : stop < 2 ^ 16) (hfew : held.card ≤ 31) :
    Outcome Stops (exitSegments current) a fun _ a' => Ledger start stop kernel a' held := by
  unfold exitSegments
  have hmore : (current.dseg ::ₘ held).card ≤ 32 := by
    rw [Multiset.card_cons]
    omega
  refine Outcome.bind (freeSegment_spec h hstart hstop hmore) fun _ a h => ?_
  exact freeSegment_spec h hstart hstop (by omega)

theorem loadSegments_spec {file : ExecFile} {x : Request} {loadCode : Bool}
    (h : Ledger start stop kernel a
      (dseg ::ₘ cseg ::ₘ current.cseg ::ₘ current.dseg ::ₘ held))
    (hstart : 0 < start) (hstop : stop < 2 ^ 16) (hfew : held.card ≤ 28)
    (hcseg : cseg ≠ 0) (hdseg : dseg ≠ 0) :
    Outcome Stops (loadSegments elks file x current cseg dseg loadCode) a fun r a' =>
      match r with
      | some (c, d) => c ≠ 0 ∧ d ≠ 0 ∧ Ledger start stop kernel a' (c ::ₘ d ::ₘ held)
      | none => Ledger start stop kernel a' (current.cseg ::ₘ current.dseg ::ₘ held) := by
  have hcard : (current.cseg ::ₘ current.dseg ::ₘ held).card ≤ 30 := by
    rw [Multiset.card_cons, Multiset.card_cons]
    omega
  have hmore : (dseg ::ₘ current.cseg ::ₘ current.dseg ::ₘ held).card ≤ 32 := by
    rw [Multiset.card_cons]
    omega
  unfold loadSegments
  split
  · rw [Multiset.cons_swap] at h
    refine Outcome.bind (h.free hstop hcseg (count_few hmore _)) fun _ a h => ?_
    refine Outcome.bind (h.free hstop hdseg (count_few (by omega) _)) fun _ a h => ?_
    exact Outcome.pure h
  · refine outcome_get_bind ?_
    split
    · exact Outcome.throw (Or.inr rfl)
    · rename_i out rounds hload
      refine outcome_modify_bind ?_
      have hbag : dseg ::ₘ cseg ::ₘ current.cseg ::ₘ current.dseg ::ₘ held =
          current.cseg ::ₘ current.dseg ::ₘ cseg ::ₘ dseg ::ₘ held := by
        rw [Multiset.cons_swap dseg cseg, Multiset.cons_swap dseg current.cseg,
          Multiset.cons_swap cseg current.cseg, Multiset.cons_swap dseg current.dseg,
          Multiset.cons_swap cseg current.dseg]
      rw [hbag] at h
      have hnew : (cseg ::ₘ dseg ::ₘ held).card ≤ 30 := by
        rw [Multiset.card_cons, Multiset.card_cons]
        omega
      have hmid : (current.dseg ::ₘ cseg ::ₘ dseg ::ₘ held).card ≤ 32 := by
        rw [Multiset.card_cons]
        omega
      refine Outcome.bind (freeSegment_spec (h.writes _) hstart hstop hmid) fun _ a h => ?_
      refine Outcome.bind (freeSegment_spec h hstart hstop (by omega)) fun _ a h => ?_
      exact Outcome.pure ⟨hcseg, hdseg, h⟩

theorem execSegments_spec
    {file : ExecFile} {x : Request} {shared : Option Nat} {mh : MinixExecHdr} {stackTop : Nat}
    (h : Ledger start stop kernel a (current.cseg ::ₘ current.dseg ::ₘ held))
    (hstart : 0 < start) (hstop : stop < 2 ^ 16) (hfew : held.card ≤ 28)
    (hshared : ∀ base, shared = some base →
      base ≠ 0 ∧ base ∈ current.cseg ::ₘ current.dseg ::ₘ held)
    (hcode : shared = none → 0 < codePages mh)
    (hlen : (shared = none → bestFitHole a (codePages mh) ≠ .ok none) → 0 < dataLen mh stackTop) :
    Outcome Stops (execSegments elks file x current shared mh stackTop) a fun r a' =>
      match r with
      | some (c, d) => c ≠ 0 ∧ d ≠ 0 ∧ Ledger start stop kernel a' (c ::ₘ d ::ₘ held)
      | none => Ledger start stop kernel a' (current.cseg ::ₘ current.dseg ::ₘ held) := by
  have hcard : (current.cseg ::ₘ current.dseg ::ₘ held).card ≤ 30 := by
    rw [Multiset.card_cons, Multiset.card_cons]
    omega
  unfold execSegments
  -- the text, shared or new, from here on in the bag unless there is none
  have htext : Outcome Stops (shareText shared) a fun old a' =>
      (old = 0 ∧ shared = none ∧ a' = a) ∨
      (old ≠ 0 ∧ shared ≠ none ∧
        Ledger start stop kernel a' (old ::ₘ current.cseg ::ₘ current.dseg ::ₘ held)) := by
    cases shared with
    | some base =>
        obtain ⟨hne, hmem⟩ := hshared base rfl
        refine (h.realloc hmem hne (count_few (by omega) _)).mono ?_
        rintro _ a ⟨rfl, h⟩
        exact Or.inr ⟨hne, Option.some_ne_none _, h⟩
    | none => exact Outcome.pure (Or.inl ⟨rfl, rfl, rfl⟩)
  refine Outcome.bind htext fun old a₁ hold => ?_
  have hcseg : Outcome Stops (ownText old (codePages mh)) a₁ fun cseg a' =>
      (cseg = 0 ∧ Ledger start stop kernel a' (current.cseg ::ₘ current.dseg ::ₘ held)) ∨
      (cseg ≠ 0 ∧ (shared = none → bestFitHole a (codePages mh) ≠ .ok none) ∧
        Ledger start stop kernel a' (cseg ::ₘ current.cseg ::ₘ current.dseg ::ₘ held)) := by
    unfold ownText
    rcases hold with ⟨rfl, hnone, rfl⟩ | ⟨hne, hsome, h⟩
    · rw [if_pos rfl]
      refine (h.alloc hstart hstop (hcode hnone) stops_tooManyHoles).mono ?_
      rintro cseg a (hno | ⟨hne, hroom, h⟩)
      · exact Or.inl hno
      · exact Or.inr ⟨hne, fun _ => hroom, h⟩
    · rw [if_neg hne]
      exact Outcome.pure (Or.inr ⟨hne, fun hnone => absurd hnone hsome, h⟩)
  refine Outcome.bind hcseg fun cseg a₂ hsegs => ?_
  refine Outcome.ite (fun hzero => ?_) fun hne => ?_
  · rcases hsegs with ⟨_, h⟩ | ⟨hne, _⟩
    · exact Outcome.pure h
    · exact absurd hzero hne
  obtain ⟨_, hroom, h⟩ := hsegs.resolve_left fun hzero => hne hzero.1
  have hpages : 0 < dataLen mh stackTop / 16 := by
    have hpos := hlen hroom
    obtain ⟨pages, hpages⟩ : 16 ∣ dataLen mh stackTop := by
      unfold dataLen
      exact Dvd.intro_left _ rfl
    omega
  have hfree : ∀ {a}, Ledger start stop kernel a (cseg ::ₘ current.cseg ::ₘ current.dseg ::ₘ held) →
      Outcome Stops (mm (.free cseg)) a fun _ a' =>
        Ledger start stop kernel a' (current.cseg ::ₘ current.dseg ::ₘ held) := fun h =>
    h.free hstop hne (count_few (by omega) cseg)
  refine Outcome.ite (fun _ => ?_) fun _ => ?_
  · exact Outcome.bind (hfree h) fun _ a h => Outcome.pure h
  · refine Outcome.bind (h.alloc hstart hstop hpages stops_tooManyHoles) ?_
    rintro dseg a (⟨rfl, h⟩ | ⟨hdseg, _, h⟩)
    · rw [if_pos rfl]
      exact Outcome.bind (hfree h) fun _ a h => Outcome.pure h
    · rw [if_neg hdseg]
      exact loadSegments_spec h hstart hstop hfew hne hdseg

end Arenas

section Tasks

variable {elks : Bool} {start stop : Nat} {s s₀ s' : State} {c t : TaskRef}
  {kernel : Nat → Prop} {a : Arena} {x : Task}

/-- The segment fields of the other tasks. -/
def State.others (s : State) (t : TaskRef) : Multiset Nat :=
  ∑ i ∈ Finset.univ.erase t, (s.task i).fields

theorem fields_eq (s : State) (t : TaskRef) : s.fields = (s.task t).fields + s.others t :=
  (Finset.add_sum_erase _ _ (Finset.mem_univ t)).symm

theorem fields_put : (s.put a t x).fields = x.fields + s.others t := by
  rw [fields_eq _ t, State.put_same]
  unfold State.others
  congr 1
  refine Finset.sum_congr rfl fun i hi => ?_
  rw [State.put_ne _ _ _ (Finset.ne_of_mem_erase hi)]

theorem Task.card_fields (t : Task) : t.fields.card ≤ 2 := by
  unfold Task.fields
  split
  · exact Nat.zero_le _
  · exact le_refl _

theorem Task.fields_live (h : x.unused = false) : x.fields = x.cseg ::ₘ x.dseg ::ₘ 0 := by
  unfold Task.fields
  rw [h]
  rfl

theorem Task.fields_unused (h : x.unused = true) : x.fields = 0 := by
  unfold Task.fields
  rw [h]
  rfl

theorem State.card_others (s : State) (t : TaskRef) : (s.others t).card ≤ 28 := by
  unfold State.others
  rw [Multiset.card_sum]
  calc ∑ i ∈ Finset.univ.erase t, (s.task i).fields.card
      ≤ ∑ i ∈ Finset.univ.erase t, 2 := Finset.sum_le_sum fun i _ => (s.task i).card_fields
    _ = 28 := by
        rw [Finset.sum_const, Finset.card_erase_of_mem (Finset.mem_univ t), Finset.card_univ]
        rfl

theorem fields_of_live (h : (s.task t).unused = false) :
    s.fields = (s.task t).cseg ::ₘ (s.task t).dseg ::ₘ s.others t := by
  rw [fields_eq s t, Task.fields_live h, Multiset.cons_add, Multiset.cons_add, zero_add]

/-- What holds between calls: the counts are those of the tasks' fields, and a task
that runs a program has both segments. -/
structure Owned (start stop : Nat) (kernel : Nat → Prop) (s : State) : Prop where
  ledger : Ledger start stop kernel s.arena s.fields
  programs : ∀ t, (s.task t).unused = false → (s.task t).inode.isSome →
    (s.task t).cseg ≠ 0 ∧ (s.task t).dseg ≠ 0

theorem Owned.put
    (h : Owned start stop kernel s) (hledger : Ledger start stop kernel a (x.fields + s.others t))
    (hx : x.unused = false → x.inode.isSome → x.cseg ≠ 0 ∧ x.dseg ≠ 0) :
    Owned start stop kernel (s.put a t x) := by
  constructor
  · rw [fields_put]
    exact hledger
  · intro i
    by_cases hit : i = t
    · rw [hit, State.put_same]
      exact hx
    · rw [State.put_ne _ _ _ hit]
      exact h.programs i

theorem Owned.put_live (h : Owned start stop kernel s) (hx : x.unused = false)
    (hledger : Ledger start stop kernel a (x.cseg ::ₘ x.dseg ::ₘ s.others t))
    (hcseg : x.cseg ≠ 0) (hdseg : x.dseg ≠ 0) : Owned start stop kernel (s.put a t x) := by
  refine h.put ?_ fun _ _ => ⟨hcseg, hdseg⟩
  rw [Task.fields_live hx, Multiset.cons_add, Multiset.cons_add, zero_add]
  exact hledger

theorem Owned.put_unused (h : Owned start stop kernel s) (hx : x.unused = true)
    (hledger : Ledger start stop kernel a (s.others t)) :
    Owned start stop kernel (s.put a t x) := by
  refine h.put ?_ fun hlive => ?_
  · rw [Task.fields_unused hx, zero_add]
    exact hledger
  · rw [hx] at hlive
    cases hlive

theorem findEmptyProcess_unused {root : Bool} (h : s.findEmptyProcess root = some t) :
    (s.task t).unused = true := by
  unfold State.findEmptyProcess at h
  split at h
  · cases h
  · have hmem := List.mem_of_getLast? h
    unfold State.emptySlots at hmem
    exact (List.mem_filter.mp hmem).2

theorem sharedText_held {inode base : Nat} (h : Owned start stop kernel s)
    (hshared : s.sharedText inode = some base) : base ≠ 0 ∧ base ∈ s.fields := by
  unfold State.sharedText at hshared
  obtain ⟨t, hfound, rfl⟩ := Option.map_eq_some_iff.mp hshared
  have ht := List.find?_some hfound
  rw [Bool.and_eq_true, Bool.not_eq_true', beq_iff_eq] at ht
  obtain ⟨hlive, hinode⟩ := ht
  refine ⟨(h.programs t hlive (by rw [hinode]; rfl)).1, ?_⟩
  rw [fields_of_live hlive]
  exact Multiset.mem_cons_self _ _

/-- A call comes back with everything in order, or stops the machine. -/
def Answers (start stop : Nat) (kernel : Nat → Prop) : Except Fault State → Prop
  | .ok s => Owned start stop kernel s
  | .error f => Stops f

theorem answers_bind {α : Type} {m : Routine Arena α} {Q : α → Arena → Prop}
    {f : α × Arena → Except Fault State} (h : Outcome Stops m a Q)
    (hf : ∀ r a', Q r a' → Answers start stop kernel (f (r, a'))) :
    Answers start stop kernel (m a >>= f) := by
  unfold Outcome at h
  cases hm : m a with
  | ok r =>
      rw [hm] at h
      exact hf r.1 r.2 h
  | error e =>
      rw [hm] at h
      exact h

theorem doFork_answers {virtual root : Bool}
    (h : Owned start stop kernel s) (hstart : 0 < start) (hstop : stop < 2 ^ 16)
    (hlive : (s.task c).unused = false) (hruns : (s.task c).inode.isSome) :
    Answers start stop kernel (s.doFork c virtual root) := by
  unfold State.doFork
  split
  · exact h
  · rename_i t ht
    have hunused := findEmptyProcess_unused ht
    have hothers : s.fields = s.others t := by
      rw [fields_eq s t, Task.fields_unused hunused, zero_add]
    have hfields := fields_of_live hlive
    obtain ⟨hcode, hdata⟩ := h.programs c hlive hruns
    have hfew : s.fields.card ≤ 30 := by
      rw [hothers]
      exact (s.card_others t).trans (by norm_num)
    have hcseg : (s.task c).cseg ∈ s.fields := by
      rw [hfields]
      exact Multiset.mem_cons_self _ _
    have hdseg : (s.task c).dseg ∈ s.fields := by
      rw [hfields]
      exact Multiset.mem_cons_of_mem (Multiset.mem_cons_self _ _)
    refine answers_bind
      (forkSegments_spec h.ledger hstart hstop hfew hcseg hcode hdseg hdata) ?_
    rintro (_ | dseg) a hledger
    · refine h.put_unused rfl ?_
      rw [← hothers]
      exact hledger
    · obtain ⟨hne, hledger⟩ := hledger
      refine h.put_live hlive ?_ hcode hne
      rw [← hothers, Multiset.cons_swap]
      exact hledger

theorem sysExecve_answers {x : Request}
    (h : Owned start stop kernel s) (hstart : 0 < start) (hstop : stop < 2 ^ 16)
    (hlive : (s.task c).unused = false) (hpages : s.AsksPages elks (.execve x)) :
    Answers start stop kernel (s.sysExecve elks c x) := by
  unfold State.sysExecve
  split
  · exact h
  · rename_i file hfile
    split
    · exact h
    · rename_i mh stackTop pos hheaders
      obtain ⟨hcode, hlen⟩ := hpages file mh stackTop pos hfile hheaders
      have hfields := fields_of_live hlive
      have hledger := h.ledger
      rw [hfields] at hledger
      have hshared : ∀ base, s.sharedText x.inode = some base →
          base ≠ 0 ∧ base ∈ (s.task c).cseg ::ₘ (s.task c).dseg ::ₘ s.others c := by
        intro base hbase
        rw [← hfields]
        exact sharedText_held h hbase
      refine answers_bind
        (execSegments_spec hledger hstart hstop (s.card_others c) hshared hcode hlen) ?_
      rintro (_ | ⟨cseg, dseg⟩) a hnew
      · refine ⟨?_, h.programs⟩
        have hsame : ({ s with arena := a } : State).fields = s.fields := rfl
        rw [hsame, hfields]
        exact hnew
      · obtain ⟨hc, hd, hnew⟩ := hnew
        exact h.put_live hlive hnew hc hd

theorem doExit_answers (h : Owned start stop kernel s) (hstart : 0 < start) (hstop : stop < 2 ^ 16)
    (hlive : (s.task c).unused = false) : Answers start stop kernel (s.doExit c) := by
  unfold State.doExit
  have hledger := h.ledger
  rw [fields_of_live hlive] at hledger
  refine answers_bind (exitSegments_spec hledger hstart hstop
    ((s.card_others c).trans (by norm_num))) fun _ a hnew => ?_
  exact h.put_unused rfl hnew

theorem call_answers {call : Call}
    (h : Owned start stop kernel s) (hstart : 0 < start) (hstop : stop < 2 ^ 16)
    (hcall : s.Calls c call) (hpages : s.AsksPages elks call) :
    Answers start stop kernel (s.call elks c call) := by
  cases call with
  | fork virtual root => exact doFork_answers h hstart hstop hcall.1 hcall.2
  | execve x => exact sysExecve_answers h hstart hstop hcall hpages
  | exit => exact doExit_answers h hstart hstop hcall

theorem Boot.owned (h : Boot start stop s) : Owned start stop (Live s.arena) s := by
  have hzero : ∀ base ∈ s.fields, base = 0 := by
    intro base hbase
    obtain ⟨t, _, ht⟩ := Multiset.mem_sum.mp hbase
    obtain ⟨hc, hd, _⟩ := h.tasks t
    unfold Task.fields at ht
    split at ht
    · exact absurd ht (Multiset.notMem_zero base)
    · rw [hc, hd] at ht
      rcases Multiset.mem_cons.mp ht with hbase | hbase
      · exact hbase
      · exact Multiset.mem_singleton.mp hbase
  refine ⟨⟨h.layout, fun i hi hk => absurd ⟨i, hi, rfl⟩ hk,
    fun base hbase hne => absurd (hzero base hbase) hne, fun _ hk => hk⟩, ?_⟩
  intro t _ hinode
  rw [(h.tasks t).2.2] at hinode
  cases hinode

theorem reached_owned (hboot : Boot start stop s₀) (h : Reached elks s₀ s) :
    Owned start stop (Live s₀.arena) s := by
  induction h with
  | boot => exact hboot.owned
  | call h hcall hpages hstep ih =>
      have hanswers := call_answers ih hboot.start hboot.stop hcall hpages
      rw [hstep] at hanswers
      exact hanswers

/-- Outside the segments of the kernel the reference counts are the numbers of fields of
live tasks that hold the base, no live task holds the base of a free segment, and a call
stops the machine only for want of descriptors or in a loop over `argv` and `envp`. -/
theorem segments_counted (hboot : Boot start stop s₀) (h : Reached elks s₀ s) :
    (∀ i, (s.arena.holes i).flags = .used → ¬ Live s₀.arena (s.arena.holes i).pageBase →
      (s.arena.holes i).refcount = s.fields.count (s.arena.holes i).pageBase) ∧
    (∀ t i, (s.task t).unused = false → (s.arena.holes i).flags = .free →
      (s.task t).cseg ≠ (s.arena.holes i).pageBase ∧
        (s.task t).dseg ≠ (s.arena.holes i).pageBase) ∧
    ∀ c call f, s.Calls c call → s.AsksPages elks call → s.call elks c call = .error f →
      f = tooManyHoles ∨ f = .endless := by
  have howned := reached_owned hboot h
  refine ⟨howned.ledger.counts, ?_, ?_⟩
  · intro t i hlive hfree
    have hnot : ∀ base ∈ s.fields, base ≠ (s.arena.holes i).pageBase :=
      fun base hbase => howned.ledger.ne_free hboot.start hfree hbase
    rw [fields_of_live hlive] at hnot
    exact ⟨hnot _ (Multiset.mem_cons_self _ _),
      hnot _ (Multiset.mem_cons_of_mem (Multiset.mem_cons_self _ _))⟩
  · intro c call f hcall hpages hstep
    have hanswers := call_answers howned hboot.start hboot.stop hcall hpages
    rw [hstep] at hanswers
    exact hanswers

end Tasks

section Runs

/-- The task of `init_task`. -/
def initTask : TaskRef :=
  ⟨1, by decide⟩

/-- The machine when `init_task` is about to execute its program. -/
def firstProgram : State where
  arena := mmInit blankArena 0x1000 0x9000
  task t := { unused := decide (1 < t.val), cseg := 0, dseg := 0, inode := none }

theorem boot_firstProgram : Boot 0x1000 0x9000 firstProgram where
  layout := ⟨[firstHole], layout_mmInit blankArena (by norm_num) (by norm_num)⟩
  start := by norm_num
  stop := by norm_num
  tasks _ := ⟨rfl, rfl, rfl⟩

/-- A file to execute without arguments. -/
def request (file : ExecFile) : Request where
  inode := 1
  file := some file
  sptr := 0
  slen := 6
  fuel := 2

/-- A program executed and forked: the text has two holders. -/
theorem segments_counted_fork :
    ∃ s s', firstProgram.call true initTask (.execve (request (bssFile 0))) = .ok s ∧
      s.call true initTask (.fork false true) = .ok s' ∧ s'.fields.count 4096 = 2 ∧
      ∀ i, (s'.arena.holes i).flags = .used → (s'.arena.holes i).pageBase = 4096 →
        (s'.arena.holes i).refcount = 2 := by
  have hrun : ((firstProgram.call true initTask (.execve (request (bssFile 0)))).toOption.any
      fun s => decide ((s.task initTask).unused = false ∧ (s.task initTask).inode.isSome) &&
        (s.call true initTask (.fork false true)).toOption.any fun s' =>
          decide (s'.fields.count 4096 = 2)) = true := by
    decide +kernel
  obtain ⟨s, hs, hrun⟩ := (Option.any_eq_true _ _).mp hrun
  obtain ⟨hruns, hfork⟩ := (Bool.and_eq_true _ _).mp hrun
  obtain ⟨s', hs', hcount⟩ := (Option.any_eq_true _ _).mp hfork
  have hpages : firstProgram.AsksPages true (.execve (request (bssFile 0))) := by
    intro file mh stackTop pos hfile hheaders
    obtain rfl : bssFile 0 = file := Option.some.inj hfile
    have hread : readHeaders true (bssFile 0) = some (⟨0x04200301, 0x20, 1, 0, 1024, 1024⟩, 0, 32) :=
      rfl
    rw [hread] at hheaders
    cases hheaders
    exact ⟨fun _ => by decide, fun _ => by decide⟩
  have hfirst : firstProgram.Calls initTask (.execve (request (bssFile 0))) := by
    rfl
  have hlive := of_decide_eq_true hruns
  have hsecond : s.Calls initTask (.fork false true) := hlive
  have hreached : Reached true firstProgram s' :=
    .call (.call .boot hfirst hpages (ok_of_toOption hs)) hsecond trivial (ok_of_toOption hs')
  have htwo : s'.fields.count 4096 = 2 := of_decide_eq_true hcount
  refine ⟨s, s', ok_of_toOption hs, ok_of_toOption hs', htwo, fun i hi hbase => ?_⟩
  have hcounted := (segments_counted boot_firstProgram hreached).1 i hi
  rw [hbase, htwo] at hcounted
  exact hcounted (by decide)

/-- A program of one byte whose `chmem` is the largest number. -/
def hugeFile : ExecFile :=
  .ofBytes [0x01, 0x03, 0x20, 0x04, 0x20, 0, 0, 0, 1, 0, 0, 0, 0, 0, 0, 0, 0, 0, 0, 0,
    0, 0, 0, 0, 0xff, 0xff, 0xff, 0xff, 0, 0, 0, 0, 0x90]

/-- Its data segment is the base of a free segment. -/
theorem data_in_free_segment :
    Boot 0x1000 0x9000 firstProgram ∧
    ∃ s, firstProgram.call true initTask (.execve (request hugeFile)) = .ok s ∧
      (s.task initTask).unused = false ∧
      ∃ i, (s.arena.holes i).flags = .free ∧
        (s.task initTask).dseg = (s.arena.holes i).pageBase := by
  refine ⟨boot_firstProgram, ?_⟩
  have hrun : ((firstProgram.call true initTask (.execve (request hugeFile))).toOption.any
      fun s => decide ((s.task initTask).unused = false ∧
        ∃ i, (s.arena.holes i).flags = .free ∧
          (s.task initTask).dseg = (s.arena.holes i).pageBase)) = true := by
    decide +kernel
  cases hcall : firstProgram.call true initTask (.execve (request hugeFile)) with
  | ok s =>
      rw [hcall] at hrun
      exact ⟨s, rfl, of_decide_eq_true hrun⟩
  | error f =>
      rw [hcall] at hrun
      cases hrun

end Runs

end Exec
end Elks
