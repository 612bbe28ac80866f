import Elks.Exec.Segments
import Elks.Files.Table
import Elks.Vfs.Namei

/-!
# `sys_execve` as a whole (fs/exec.c)

`Exec.Segments` has the memory of `sys_execve`.  Here is the call from `open_namei` to
its return: the inode and the operations of its file, the two exits, and what a new image
does to the registers, the signal handlers, the descriptors and the identity of the task.

**Purpose.**  `Machine.ExecAtomic`: a call that fails leaves everything as it was, and a
call that succeeds moves the reference of `t_inode` to the new image.

**Results.**

* `execve_outcome`: the three ways in which the call ends.
* `execve_atomic_iff`: the call is atomic exactly when the path names no inode, or the
  task has no `t_inode` yet and the file can be loaded.
* `execve_owned`: the counts of the segments are right however the call ends.
-/

namespace Elks
namespace Exec

open Lib Mm
open Minix (Errno)
open Namei (FileTree TaskStruct Path Halt)
open Files (Fd Filp nrOpen)

/-- `NSIG`. -/
def nsig : Nat :=
  16

/-- `S_ISUID`. -/
def sIsuid : Nat :=
  0o4000

/-- `S_ISGID`. -/
def sIsgid : Nat :=
  0o2000

/-- `struct file`, as far as `close_fp` goes. -/
structure OpenFile where
  fCount : Nat
  fInode : Option Nat

/-- The descriptors of the calling task, the open files, and `i_count` of the inodes. -/
structure Openings where
  fd : Fd → Option Filp
  closeOnExec : Files.FdSet
  fileArray : Filp → OpenFile
  iCount : Nat → Nat

/-- The registers of `t_regs` that a new image sets. -/
structure Registers where
  ss : Nat
  sp : Nat
  cs : Nat
  ds : Nat

/-- The rest of the calling task: `action` has the `sa_handler` of each signal. -/
structure Process where
  tRegs : Registers
  action : Fin nsig → Nat
  root : Nat
  pwd : Nat
  uid : Nat
  gid : Nat
  suid : Nat
  sgid : Nat
  euid : Nat
  egid : Nat
  tBegstack : Nat
  tEnddata : Nat
  tEndbrk : Nat
  tEndseg : Nat

/-- The machine on which a task executes a file. -/
structure Machine where
  segments : State
  process : Process
  files : Openings

/-- The file systems: the tree, what `read` of the file operations of an inode returns, if
there is such an operation, and the flags with which its file system is mounted. -/
structure Disk where
  tree : FileTree Nat
  read : Nat → Option ExecFile
  iFlags : Nat → Nat

/-- The arguments of `sys_execve`.  The loops over `argv` and `envp` make at most `fuel`
rounds. -/
structure ExecCall where
  filename : Path
  sptr : Nat
  slen : Nat
  fuel : Nat

/-- Why `sys_execve` does not come back: `open_namei` or the memory does not, or it goes
through `i_op` or `f_op`, which is `NULL`. -/
inductive Crash
  | halt (h : Halt)
  | fault (f : Fault)
  | nullOps
deriving DecidableEq

/-- The arguments with the file that has been found. -/
def ExecCall.request (x : ExecCall) (inode : Nat) (file : ExecFile) : Request where
  inode := inode
  file := some file
  sptr := x.sptr
  slen := x.slen
  fuel := x.fuel

/-- The task, as the path functions see it. -/
def Process.taskStruct (p : Process) : TaskStruct Nat where
  root := p.root
  pwd := p.pwd
  uid := p.uid
  gid := p.gid
  euid := p.euid
  egid := p.egid
  emptyFilp := true
  unusedFd := true
  closeOnExec := []

section Close

/-- A routine of the inode table. -/
def onCounts {α : Type} (m : Namei.Walk Nat α) : RoutineOf Crash Openings α :=
  zoom Openings.iCount (fun c o => { o with iCount := c }) Crash.halt m

/-- Change an open file. -/
def Openings.setFile (o : Openings) (f : Filp) (d : OpenFile) : Openings :=
  { o with fileArray := Function.update o.fileArray f d }

/-- `close_fp`. -/
def closeFp (f : Filp) : RoutineOf Crash Openings Unit := do
  let d := (← get).fileArray f
  if d.fCount = 0 then
    pure ()
  else if 1 < d.fCount then
    modify fun o => o.setFile f { d with fCount := d.fCount - 1 }
  else do
    modify fun o => o.setFile f { fCount := 0, fInode := none }
    forSome d.fInode fun i => onCounts (Namei.iput i)

/-- `sys_close` of a descriptor. -/
def sysClose (fd : Fd) : RoutineOf Crash Openings Unit := do
  modify fun o => { o with closeOnExec := o.closeOnExec.withoutBit fd }
  forSome ((← get).fd fd) fun f => do
    modify fun o => { o with fd := Function.update o.fd fd none }
    closeFp f

/-- The loop of `sys_execve` over the descriptors. -/
def closeMarked : List Fd → RoutineOf Crash Openings Unit
  | [] => pure ()
  | fd :: rest => do
      let o ← get
      when (Files.fdIsset fd o.closeOnExec) (sysClose fd)
      closeMarked rest

/-- Close the descriptors that an image does not inherit. -/
def closeOnExec : RoutineOf Crash Openings Unit :=
  closeMarked (List.finRange nrOpen).reverse

end Close

section Code

/-- The memory of `sys_execve` behind the headers, with the error of each exit. -/
def newSegments (elks : Bool) (file : ExecFile) (x : Request) (current : Task)
    (shared : Option Nat) (mh : MinixExecHdr) (stackTop : Nat) :
    Routine Arena (Except Errno (Nat × Nat)) := do
  let old ← shareText shared
  let cseg ← ownText old (codePages mh)
  if cseg = 0 then
    pure (.error .enomem)
  else if dataLen mh stackTop > 0x10000 then do
    let _ ← mm (.free cseg)
    pure (.error .enomem)
  else do
    let dseg ← mm (.alloc (dataLen mh stackTop / 16))
    if dseg = 0 then do
      let _ ← mm (.free cseg)
      pure (.error .enomem)
    else do
      match ← loadSegments elks file x current cseg dseg (old = 0) with
      | some segs => pure (.ok segs)
      | none => pure (.error .enoexec)

/-- The new segments of the task. -/
def Machine.setSegments (s : Machine) (c : TaskRef) (cseg dseg : Nat) : Machine :=
  { s with
    segments := s.segments.put s.segments.arena c
      { s.segments.task c with cseg := cseg, dseg := dseg } }

/-- No signal handler is left. -/
def Machine.clearHandlers (s : Machine) : Machine :=
  { s with process := { s.process with action := fun _ => 0 } }

/-- The registers, the bounds of the data segment and `t_inode` of a new image, and the
effective identity that its mode gives. -/
def Machine.start (s : Machine) (c : TaskRef) (inode : Nat) (node : Namei.Node Nat)
    (mh : MinixExecHdr) (stackTop slen cseg dseg : Nat) : Machine :=
  { s with
    segments := s.segments.put s.segments.arena c
      { s.segments.task c with inode := some inode }
    process :=
      { s.process with
        tRegs := ⟨dseg, wrapSub 16 (stackPtr mh stackTop slen) 6, cseg, dseg⟩
        tBegstack := stackPtr mh stackTop slen
        tEndbrk := wrap 16 (mh.dseg + mh.bseg + stackTop)
        tEnddata := wrap 16 (mh.dseg + stackTop)
        tEndseg := wrap 16 (dataLen mh stackTop)
        euid := if node.iMode &&& sIsuid ≠ 0 then node.iUid else s.process.euid
        egid := if node.iMode &&& sIsgid ≠ 0 then node.iGid else s.process.egid } }

variable (elks : Bool) (D : Disk) (c : TaskRef) (x : ExecCall)

/-- A routine of the open files. -/
def onFiles {α : Type} (m : RoutineOf Crash Openings α) : RoutineOf Crash Machine α :=
  zoom Machine.files (fun o s => { s with files := o }) id m

/-- A routine of the memory. -/
def onArena {α : Type} (m : Routine Arena α) : RoutineOf Crash Machine α :=
  zoom (fun s => s.segments.arena)
    (fun a s => { s with segments := { s.segments with arena := a } }) Crash.fault m

/-- `sys_execve` from the memory on. -/
def execImage (inode : Nat) (file : ExecFile) (mh : MinixExecHdr) (stackTop : Nat) :
    RoutineOf Crash Machine (Option Errno) := do
  let s ← get
  match ← onArena (newSegments elks file (x.request inode file) (s.segments.task c)
      (s.segments.sharedText inode) mh stackTop) with
  | .error retval => pure (some retval)
  | .ok (cseg, dseg) => do
      modify fun s => s.setSegments c cseg dseg
      modify Machine.clearHandlers
      onFiles closeOnExec
      modify fun s => s.start c inode (D.tree.inode inode) mh stackTop x.slen cseg dseg
      pure none

/-- `sys_execve`, with its error.  Neither exit drops the inode, and `t_inode` is
overwritten. -/
def execve : RoutineOf Crash Machine (Option Errno) := do
  let s ← get
  match ← onFiles (onCounts
      (Namei.openNamei s.process.taskStruct D.tree x.filename 0)) with
  | .error retval => pure (some retval)
  | .ok inode =>
      -- `i_op` is followed before it is looked at, and `f_op` at `close_readexec`
      if ¬ D.tree.has (·.defaultFileOps) inode then
        throw .nullOps
      else if (D.tree.fopOpen inode).isSome then
        pure (some .enoexec)
      else
        match D.read inode with
        | none => pure (some .enoexec)
        | some file =>
            match readHeaders elks file with
            | none => pure (some .enoexec)
            | some (mh, stackTop, _) => execImage elks D c x inode file mh stackTop

end Code

/-! ## What the call should do -/

section Purpose

variable (elks : Bool) (D : Disk) (c : TaskRef) (x : ExecCall) (s : Machine)

/-- The inode that the path names. -/
def Machine.named : Except Errno Nat :=
  D.tree.openIn s.process.taskStruct (D.tree.follow s.process.taskStruct Namei.linkMax)
    x.filename 0 s.process.pwd

/-- The reference that comes with `t_inode`. -/
def Task.held (t : Task) : Nat → ℕ :=
  t.inode.elim 0 one

/-- The used segments and their reference counts are the same. -/
def SameSegments (a a' : Arena) : Prop :=
  ∀ base n,
    (∃ i, (a.holes i).flags = .used ∧ (a.holes i).pageBase = base ∧
      (a.holes i).refcount = n) ↔
    ∃ i, (a'.holes i).flags = .used ∧ (a'.holes i).pageBase = base ∧
      (a'.holes i).refcount = n

/-- Nothing has changed: the segments and `t_inode` of the tasks, the registers, the
handlers and the identity, the descriptors and the counts of the inodes, the counts of the
segments. -/
structure Machine.Kept (s' : Machine) : Prop where
  task : s'.segments.task = s.segments.task
  process : s'.process = s.process
  files : s'.files = s.files
  segments : SameSegments s.segments.arena s'.segments.arena

/-- The reference of `t_inode` has moved to the image.  The closed descriptors drop
references of their own. -/
structure Machine.HandedOver (inode : Nat) (s' : Machine) : Prop where
  task : (s'.segments.task c).inode = some inode
  counts : ∃ o,
    closeOnExec { s.files with iCount := s.files.iCount + one inode } = .ok ((), o) ∧
      s'.files.iCount + (s.segments.task c).held = o.iCount

/-- A call that fails keeps everything, a call that succeeds hands the reference of
`t_inode` over, and none goes through `NULL`. -/
structure Machine.ExecAtomic : Prop where
  noNull : execve elks D c x s ≠ .error .nullOps
  failed : ∀ retval s', execve elks D c x s = .ok (some retval, s') → s.Kept s'
  done : ∀ s', execve elks D c x s = .ok (none, s') →
    ∃ inode, s.named D x = .ok inode ∧ s.HandedOver c inode s'

/-- The text is shared or `mm_alloc` finds room for it, which is then `fresh`, and in what
is left it finds room for the data. -/
def State.HasRoom (s : State) (inode : Nat) (mh : MinixExecHdr) (stackTop : Nat)
    (fresh : Bool) : Prop :=
  ∃ old a₁ cseg a₂ dseg a₃,
    shareText (s.sharedText inode) s.arena = .ok (old, a₁) ∧ fresh = decide (old = 0) ∧
    ownText old (codePages mh) a₁ = .ok (cseg, a₂) ∧ cseg ≠ 0 ∧
    mm (.alloc (dataLen mh stackTop / 16)) a₂ = .ok (dseg, a₃) ∧ dseg ≠ 0

/-- The file of the inode can be loaded: it has operations, opens and can be read, its
headers are good, there is memory for it, and its text and data are complete. -/
structure Machine.Loads (inode : Nat) : Prop where
  ops : D.tree.has (·.defaultFileOps) inode
  opens : D.tree.fopOpen inode = none
  image : ∃ file mh stackTop pos fresh,
    D.read inode = some file ∧ readHeaders elks file = some (mh, stackTop, pos) ∧
      s.segments.HasRoom inode mh stackTop fresh ∧ (accept elks file fresh).isSome

/-- The machine once `open_namei` has found the inode. -/
def Machine.opened (inode : Nat) : Machine :=
  { s with files := { s.files with iCount := s.files.iCount + one inode } }

/-- The ways in which `sys_execve` ends. -/
inductive Machine.Ends : Option Errno → Machine → Prop
  | unnamed {retval : Errno} (h : s.named D x = .error retval) :
      Ends (some retval) s
  | unread {inode : Nat} (h : s.named D x = .ok inode) (hload : ¬ s.Loads elks D inode) :
      Ends (some .enoexec) (s.opened inode)
  | refused {inode : Nat} {file : ExecFile} {mh : MinixExecHdr} {stackTop pos : Nat}
      {retval : Errno} {a : Arena}
      (h : s.named D x = .ok inode) (hload : ¬ s.Loads elks D inode)
      (hfile : D.read inode = some file)
      (hheaders : readHeaders elks file = some (mh, stackTop, pos))
      (hnew : newSegments elks file (x.request inode file) (s.segments.task c)
        (s.segments.sharedText inode) mh stackTop s.segments.arena = .ok (.error retval, a)) :
      Ends (some retval)
        { s.opened inode with segments := { s.segments with arena := a } }
  | done {inode : Nat} {file : ExecFile} {mh : MinixExecHdr} {stackTop pos : Nat}
      {cseg dseg : Nat} {a : Arena} {o : Openings}
      (h : s.named D x = .ok inode) (hload : s.Loads elks D inode)
      (hfile : D.read inode = some file)
      (hheaders : readHeaders elks file = some (mh, stackTop, pos))
      (hnew : newSegments elks file (x.request inode file) (s.segments.task c)
        (s.segments.sharedText inode) mh stackTop s.segments.arena = .ok (.ok (cseg, dseg), a))
      (hclose : closeOnExec (s.opened inode).files = .ok ((), o)) :
      Ends none
        ((Machine.mk (s.segments.put a c { s.segments.task c with cseg := cseg, dseg := dseg })
          s.clearHandlers.process o).start c inode (D.tree.inode inode) mh stackTop x.slen
            cseg dseg)

end Purpose

/-! ## The memory -/

section Memory

variable {elks fresh : Bool} {file : ExecFile} {x : Request} {current : Task}
  {shared : Option Nat} {mh : MinixExecHdr} {stackTop pos cseg dseg : Nat}
  {start stop : Nat} {kernel : Nat → Prop} {a a' : Arena} {held : Multiset Nat}
  {r : Except Errno (Nat × Nat)}

theorem newSegments_execSegments :
    Except.toOption <$> newSegments elks file x current shared mh stackTop =
      execSegments elks file x current shared mh stackTop := by
  unfold newSegments execSegments
  rw [map_bind]
  refine bind_congr fun old => ?_
  rw [map_bind]
  refine bind_congr fun cseg => ?_
  by_cases hcseg : cseg = 0
  · rw [if_pos hcseg, if_pos hcseg, map_pure]
    rfl
  rw [if_neg hcseg, if_neg hcseg]
  by_cases hlen : dataLen mh stackTop > 0x10000
  · rw [if_pos hlen, if_pos hlen, map_bind]
    exact bind_congr fun _ => map_pure _ _
  rw [if_neg hlen, if_neg hlen, map_bind]
  refine bind_congr fun dseg => ?_
  by_cases hdseg : dseg = 0
  · rw [if_pos hdseg, if_pos hdseg, map_bind]
    exact bind_congr fun _ => map_pure _ _
  rw [if_neg hdseg, if_neg hdseg, map_bind]
  refine (bind_congr fun segs => ?_).trans (bind_pure _)
  cases segs with
  | some segs => exact map_pure _ _
  | none => exact map_pure _ _

theorem execSegments_of_new
    (h : newSegments elks file x current shared mh stackTop a = .ok (r, a')) :
    execSegments elks file x current shared mh stackTop a = .ok (r.toOption, a') := by
  rw [← newSegments_execSegments]
  have hrun : (Except.toOption <$> newSegments elks file x current shared mh stackTop) a =
      (newSegments elks file x current shared mh stackTop a).bind
        fun r => .ok (r.1.toOption, r.2) := rfl
  rw [hrun, h]
  rfl

theorem loadSegments_taken {loadCode : Bool} {r : Option (Nat × Nat)}
    (h : loadSegments elks file x current cseg dseg loadCode a = .ok (r, a')) :
    r.isSome = (accept elks file loadCode).isSome := by
  have hload : Outcome (fun _ => True) (loadSegments elks file x current cseg dseg loadCode) a
      fun r _ => r.isSome = (accept elks file loadCode).isSome := by
    unfold loadSegments
    cases accept elks file loadCode with
    | none =>
        refine (outcome_run _ _).bind fun _ _ _ => (outcome_run _ _).bind fun _ _ _ => ?_
        exact Outcome.pure rfl
    | some b =>
        refine outcome_get_bind ?_
        cases b.load ⟨cseg, dseg, loadCode, current.dseg, x.sptr, x.slen⟩ x.fuel
            ⟨a.memory, []⟩ with
        | none => exact Outcome.throw trivial
        | some out =>
            refine outcome_modify_bind ?_
            refine (outcome_run _ _).bind fun _ _ _ => (outcome_run _ _).bind fun _ _ _ => ?_
            exact Outcome.pure rfl
  exact hload.of_ok h

theorem accept_large (hheaders : readHeaders elks file = some (mh, stackTop, pos))
    (hlen : dataLen mh stackTop > 0x10000) : accept elks file fresh = none := by
  unfold accept
  rw [hheaders]
  exact if_pos hlen

theorem newSegments_taken {s : State} {inode : Nat}
    (hheaders : readHeaders elks file = some (mh, stackTop, pos))
    (h : newSegments elks file x current (s.sharedText inode) mh stackTop s.arena =
      .ok (r, a')) :
    (∃ segs, r = .ok segs) ↔
      ∃ fresh, s.HasRoom inode mh stackTop fresh ∧ (accept elks file fresh).isSome := by
  refine Outcome.of_ok (A := fun _ => True) (Q := fun r _ => (∃ segs, r = .ok segs) ↔
    ∃ fresh, s.HasRoom inode mh stackTop fresh ∧ (accept elks file fresh).isSome) ?_ h
  unfold newSegments
  refine (outcome_run _ _).bind fun old a₁ hold => ?_
  refine (outcome_run _ _).bind fun cseg a₂ hcseg => ?_
  -- what is found does not depend on how it is asked for
  have hroom : ∀ fresh, s.HasRoom inode mh stackTop fresh ↔
      fresh = decide (old = 0) ∧ cseg ≠ 0 ∧
        ∃ dseg a₃, mm (.alloc (dataLen mh stackTop / 16)) a₂ = .ok (dseg, a₃) ∧ dseg ≠ 0 := by
    intro fresh
    constructor
    · rintro ⟨old', a₁', cseg', a₂', dseg, a₃, hold', hfresh, hcseg', hne, hdseg, hdata⟩
      obtain ⟨rfl, rfl⟩ := Prod.mk.inj (Except.ok.inj (hold.symm.trans hold'))
      obtain ⟨rfl, rfl⟩ := Prod.mk.inj (Except.ok.inj (hcseg.symm.trans hcseg'))
      exact ⟨hfresh, hne, dseg, a₃, hdseg, hdata⟩
    · rintro ⟨hfresh, hne, dseg, a₃, hdseg, hdata⟩
      exact ⟨old, a₁, cseg, a₂, dseg, a₃, hold, hfresh, hcseg, hne, hdseg, hdata⟩
  have hfails : ∀ {e : Errno}, (¬ ∃ fresh, s.HasRoom inode mh stackTop fresh ∧
      (accept elks file fresh).isSome) →
      ((∃ segs, (.error e : Except Errno (Nat × Nat)) = .ok segs) ↔
        ∃ fresh, s.HasRoom inode mh stackTop fresh ∧ (accept elks file fresh).isSome) := by
    intro e hno
    refine iff_of_false ?_ hno
    rintro ⟨segs, hsegs⟩
    cases hsegs
  refine Outcome.ite (fun hzero => Outcome.pure (hfails ?_)) fun hne => ?_
  · rintro ⟨fresh, hfresh, _⟩
    exact ((hroom fresh).mp hfresh).2.1 hzero
  refine Outcome.ite (fun hlen => ?_) fun _ => ?_
  · refine (outcome_run _ _).bind fun _ _ _ => Outcome.pure (hfails ?_)
    rintro ⟨fresh, _, haccept⟩
    rw [accept_large hheaders hlen] at haccept
    cases haccept
  refine (outcome_run _ _).bind fun dseg a₃ hdseg => ?_
  refine Outcome.ite (fun hzero => ?_) fun hdata => ?_
  · refine (outcome_run _ _).bind fun _ _ _ => Outcome.pure (hfails ?_)
    rintro ⟨fresh, hfresh, _⟩
    obtain ⟨_, _, dseg', a₃', hdseg', hne'⟩ := (hroom fresh).mp hfresh
    obtain ⟨rfl, _⟩ := Prod.mk.inj (Except.ok.inj (hdseg.symm.trans hdseg'))
    exact hne' hzero
  refine (outcome_run _ _).bind fun segs a₄ hload => ?_
  have htaken := loadSegments_taken hload
  cases segs with
  | some segs =>
      refine Outcome.pure (iff_of_true ⟨segs, rfl⟩ ⟨decide (old = 0), ?_, htaken.symm⟩)
      exact (hroom _).mpr ⟨rfl, hne, dseg, a₃, hdseg, hdata⟩
  | none =>
      refine Outcome.pure (hfails ?_)
      rintro ⟨fresh, hfresh, haccept⟩
      rw [((hroom fresh).mp hfresh).1] at haccept
      rw [haccept] at htaken
      cases htaken

end Memory

/-! ## How the call ends -/

section Ends

variable {elks : Bool} {D : Disk} {c : TaskRef} {x : ExecCall} {s s' : Machine} {inode : Nat}
  {stackTop pos : Nat} {mh : MinixExecHdr} {r : Option Errno} {file : ExecFile}

theorem keeps_closeFp (f : Filp) :
    Keeps (fun e => e ≠ Crash.nullOps) (fun _ => True) (closeFp f) := by
  unfold closeFp
  refine Keeps.get.bind fun o => Keeps.ite Keeps.pure (Keeps.ite ?_ ?_)
  · exact Keeps.modify fun _ _ => trivial
  · refine (Keeps.modify fun _ _ => trivial).bind fun _ => Keeps.forSome fun i => ?_
    exact fun o _ => Outcome.zoom ((outcome_run _ _).mono fun _ _ _ => trivial) fun e _ => nofun

theorem keeps_closeMarked (l : List Fd) :
    Keeps (fun e => e ≠ Crash.nullOps) (fun _ => True) (closeMarked l) := by
  induction l with
  | nil => exact Keeps.pure
  | cons fd rest ih =>
      unfold closeMarked sysClose
      refine Keeps.get.bind fun o => (Keeps.when ?_).bind fun _ => ih
      refine (Keeps.modify fun _ _ => trivial).bind fun _ => Keeps.get.bind fun o => ?_
      refine Keeps.forSome fun f => ?_
      exact (Keeps.modify fun _ _ => trivial).bind fun _ => keeps_closeFp f

theorem openNamei_outcome :
    Outcome (fun e => e ≠ .nullOps)
      (onFiles (onCounts (Namei.openNamei s.process.taskStruct D.tree x.filename 0))) s
      fun r s' => r = s.named D x ∧
        s' = { s with files := { s.files with iCount := s.files.iCount + Namei.hand r } } := by
  have hmoves := Namei.openNamei_moves s.process.taskStruct D.tree x.filename 0 s.files.iCount
  rw [add_zero] at hmoves
  have hcounts : Outcome (fun e => e ≠ Crash.nullOps)
      (onCounts (Namei.openNamei s.process.taskStruct D.tree x.filename 0)) s.files
      fun r o => r = s.named D x ∧
        o = { s.files with iCount := s.files.iCount + Namei.hand r } := by
    refine Outcome.zoom (B := fun _ => True) (hmoves.mono ?_) fun e _ => nofun
    rintro r counts ⟨h, rfl, rfl, hr⟩
    exact ⟨hr rfl, rfl⟩
  refine Outcome.zoom (hcounts.mono ?_) fun e he => he
  rintro r o ⟨hr, rfl⟩
  exact ⟨hr, rfl⟩

theorem execImage_outcome (h : s.named D x = .ok inode) (hops : D.tree.has (·.defaultFileOps) inode)
    (hopens : D.tree.fopOpen inode = none) (hread : D.read inode = some file)
    (hheaders : readHeaders elks file = some (mh, stackTop, pos)) :
    Outcome (fun e => e ≠ .nullOps) (execImage elks D c x inode file mh stackTop)
      (s.opened inode) (s.Ends elks D c x) := by
  unfold execImage
  refine outcome_get_bind ?_
  have hnew : Outcome (fun e => e ≠ Crash.nullOps)
      (onArena (newSegments elks file (x.request inode file) (s.segments.task c)
        (s.segments.sharedText inode) mh stackTop)) (s.opened inode)
      fun r s' => ∃ a, newSegments elks file (x.request inode file) (s.segments.task c)
        (s.segments.sharedText inode) mh stackTop s.segments.arena = .ok (r, a) ∧
        s' = { s.opened inode with segments := { s.segments with arena := a } } := by
    refine Outcome.zoom ((outcome_run _ _).mono ?_) fun e _ => nofun
    exact fun r a hrun => ⟨a, hrun, rfl⟩
  refine hnew.bind ?_
  rintro r _ ⟨a, hrun, rfl⟩
  have htaken := newSegments_taken hheaders hrun
  have hload : s.Loads elks D inode ↔ ∃ segs, r = .ok segs := by
    rw [htaken]
    constructor
    · rintro ⟨_, _, file', mh', stackTop', pos', fresh, hread', hheaders', hroom, haccept⟩
      obtain rfl := Option.some.inj (hread.symm.trans hread')
      obtain ⟨rfl, rest⟩ := Prod.mk.inj (Option.some.inj (hheaders.symm.trans hheaders'))
      obtain ⟨rfl, rfl⟩ := Prod.mk.inj rest
      exact ⟨fresh, hroom, haccept⟩
    · rintro ⟨fresh, hroom, haccept⟩
      exact ⟨hops, hopens, file, mh, stackTop, pos, fresh, hread, hheaders, hroom, haccept⟩
  cases r with
  | error retval =>
      refine Outcome.pure (.refused h (fun hl => ?_) hread hheaders hrun)
      obtain ⟨segs, hsegs⟩ := hload.mp hl
      cases hsegs
  | ok segs =>
      obtain ⟨cseg, dseg⟩ := segs
      refine outcome_modify_bind (outcome_modify_bind ?_)
      have hclose : Outcome (fun e => e ≠ Crash.nullOps) (onFiles closeOnExec)
          (Machine.clearHandlers (Machine.setSegments
            { s.opened inode with segments := { s.segments with arena := a } } c cseg dseg))
          fun _ s' => ∃ o, closeOnExec (s.opened inode).files = .ok ((), o) ∧
            s' = { Machine.clearHandlers (Machine.setSegments
              { s.opened inode with segments := { s.segments with arena := a } } c cseg dseg)
              with files := o } := by
        have hkeeps : Outcome (fun e => e ≠ Crash.nullOps) closeOnExec (s.opened inode).files
            fun _ _ => True := keeps_closeMarked _ _ trivial
        refine Outcome.zoom (hkeeps.traced.mono ?_) fun e he => he
        exact fun _ o ho => ⟨o, ho.1, rfl⟩
      refine hclose.bind ?_
      rintro _ _ ⟨o, hcloses, rfl⟩
      refine outcome_modify_bind (Outcome.pure ?_)
      exact .done h (hload.mpr ⟨_, rfl⟩) hread hheaders hrun hcloses

theorem execve_outcome :
    Outcome (fun e => e = .nullOps → ∃ inode, s.named D x = .ok inode ∧
        ¬ D.tree.has (·.defaultFileOps) inode)
      (execve elks D c x) s (s.Ends elks D c x) := by
  unfold execve
  refine outcome_get_bind (Outcome.bind (openNamei_outcome.imp
    (fun e he hnull => absurd hnull he) fun _ _ h => h) ?_)
  rintro r _ ⟨hr, rfl⟩
  cases r with
  | error retval => exact Outcome.pure (.unnamed hr.symm)
  | ok inode =>
      refine Outcome.ite (fun hops => Outcome.throw fun _ => ⟨inode, hr.symm, hops⟩)
        fun hops => Outcome.ite (fun hopen => Outcome.pure ?_) fun hopen => ?_
      · refine .unread hr.symm fun hload => ?_
        rw [hload.opens] at hopen
        cases hopen
      have hopens : D.tree.fopOpen inode = none := Option.not_isSome_iff_eq_none.mp hopen
      cases hread : D.read inode with
      | none =>
          refine Outcome.pure (.unread hr.symm fun hload => ?_)
          obtain ⟨file, _, _, _, _, hfile, _⟩ := hload.image
          rw [hread] at hfile
          cases hfile
      | some file =>
          cases hheaders : readHeaders elks file with
          | none =>
              dsimp only
              rw [hheaders]
              refine Outcome.pure (.unread hr.symm fun hload => ?_)
              obtain ⟨file', mh, stackTop, pos, _, hfile, hgood, _⟩ := hload.image
              obtain rfl := Option.some.inj (hread.symm.trans hfile)
              rw [hheaders] at hgood
              cases hgood
          | some headers =>
              obtain ⟨mh, stackTop, pos⟩ := headers
              dsimp only
              rw [hheaders]
              exact (execImage_outcome hr.symm (not_not.mp hops) hopens hread hheaders).imp
                (fun e he hnull => absurd hnull he) fun _ _ h => h

theorem State.put_put (s : State) (a a' : Arena) (t : TaskRef) (y z : Task) :
    (s.put a t y).put a' t z = s.put a' t z := by
  unfold State.put
  dsimp only
  rw [Function.update_idem]

theorem sysExecve_run {s : State} {inode : Nat} {r : Except Errno (Nat × Nat)} {a : Arena}
    (hheaders : readHeaders elks file = some (mh, stackTop, pos))
    (hnew : newSegments elks file (x.request inode file) (s.task c) (s.sharedText inode) mh
      stackTop s.arena = .ok (r, a)) :
    (∀ e, r = .error e →
      s.sysExecve elks c (x.request inode file) = .ok { s with arena := a }) ∧
    ∀ cseg dseg, r = .ok (cseg, dseg) →
      s.sysExecve elks c (x.request inode file) = .ok (s.put a c
        { s.task c with cseg := cseg, dseg := dseg, inode := some inode }) := by
  have hrun := execSegments_of_new hnew
  unfold ExecCall.request at hrun
  constructor
  · rintro e rfl
    unfold State.sysExecve ExecCall.request
    dsimp only
    rw [hheaders]
    dsimp only
    rw [hrun]
    rfl
  · rintro cseg dseg rfl
    unfold State.sysExecve ExecCall.request
    dsimp only
    rw [hheaders]
    dsimp only
    rw [hrun]
    rfl

theorem Machine.Ends.segments (h : s.Ends elks D c x r s') :
    s'.segments = s.segments ∨
      ∃ inode file, s.named D x = .ok inode ∧ D.read inode = some file ∧
        s.segments.sysExecve elks c (x.request inode file) = .ok s'.segments := by
  cases h with
  | unnamed h => exact Or.inl rfl
  | unread h hload => exact Or.inl rfl
  | refused h hload hfile hheaders hnew =>
      exact Or.inr ⟨_, _, h, hfile, (sysExecve_run hheaders hnew).1 _ rfl⟩
  | done h hload hfile hheaders hnew hclose =>
      refine Or.inr ⟨_, _, h, hfile, ((sysExecve_run hheaders hnew).2 _ _ rfl).trans ?_⟩
      unfold Machine.start
      dsimp only
      rw [State.put_put, State.put_same]
      rfl

theorem execve_owned {start stop : Nat} {kernel : Nat → Prop}
    (hrun : execve elks D c x s = .ok (r, s'))
    (h : Owned start stop kernel s.segments) (hstart : 0 < start) (hstop : stop < 2 ^ 16)
    (hlive : (s.segments.task c).unused = false)
    (hpages : ∀ inode file, s.named D x = .ok inode → D.read inode = some file →
      s.segments.AsksPages elks (.execve (x.request inode file))) :
    Owned start stop kernel s'.segments := by
  rcases (execve_outcome.of_ok hrun).segments with heq | ⟨inode, file, hnamed, hfile, hexec⟩
  · rw [heq]
    exact h
  · have hanswers := sysExecve_answers h hstart hstop hlive (hpages inode file hnamed hfile)
    rw [hexec] at hanswers
    exact hanswers

theorem Machine.Kept.refl (s : Machine) : s.Kept s where
  task := rfl
  process := rfl
  files := rfl
  segments _ _ := Iff.rfl

/-- The reference that `open_namei` has taken is still there. -/
theorem Machine.Kept.not_opened (h : s.Kept s')
    (hfiles : s'.files = (s.opened inode).files) : False := by
  have hcounts : s.files.iCount + one inode = s.files.iCount :=
    congrArg Openings.iCount (hfiles.symm.trans h.files)
  exact add_one_ne s.files.iCount inode hcounts

theorem Task.held_eq_zero {t : Task} {n : Nat → ℕ} (h : n + t.held = n) : t.inode = none := by
  unfold Task.held at h
  cases hinode : t.inode with
  | none => rfl
  | some old =>
      rw [hinode] at h
      exact absurd h (add_one_ne n old)

/-- `sys_execve` is atomic exactly when the path names no inode, or the task has no
`t_inode` and the file can be loaded.  In all other cases it keeps a reference, or goes
through `NULL`. -/
theorem execve_atomic_iff
    (elks : Bool) (D : Disk) (c : TaskRef) (x : ExecCall) (s : Machine)
    (hback : ∀ e, execve elks D c x s = .error e → e = .nullOps) :
    s.ExecAtomic elks D c x ↔
      ∀ inode, s.named D x = .ok inode →
        (s.segments.task c).inode = none ∧ s.Loads elks D inode := by
  have hends := @execve_outcome elks D c x s
  constructor
  · intro h inode hnamed
    cases hrun : execve elks D c x s with
    | error e =>
        obtain rfl := hback e hrun
        exact absurd hrun h.noNull
    | ok r =>
        obtain ⟨retval, s'⟩ := r
        have hend := hends.of_ok hrun
        cases hend with
        | unnamed herror =>
            rw [hnamed] at herror
            cases herror
        | unread hfound hload => exact ((h.failed _ _ hrun).not_opened rfl).elim
        | refused hfound hload _ hheaders hnew =>
            exact ((h.failed _ _ hrun).not_opened rfl).elim
        | done hfound hload _ hheaders hnew hclose =>
            obtain rfl := Except.ok.inj (hnamed.symm.trans hfound)
            obtain ⟨image, himage, hover⟩ := h.done _ hrun
            obtain rfl := Except.ok.inj (hnamed.symm.trans himage)
            obtain ⟨o, ho, hcounts⟩ := hover.counts
            obtain ⟨_, rfl⟩ := Prod.mk.inj (Except.ok.inj (hclose.symm.trans ho))
            exact ⟨Task.held_eq_zero hcounts, hload⟩
  · intro h
    constructor
    · intro hrun
      unfold Outcome at hends
      rw [hrun] at hends
      obtain ⟨inode, hnamed, hops⟩ := hends rfl
      exact hops (h inode hnamed).2.ops
    · intro retval s' hrun
      have hend := hends.of_ok hrun
      cases hend with
      | unnamed _ => exact Machine.Kept.refl s
      | unread hfound hload => exact absurd (h _ hfound).2 hload
      | refused hfound hload _ hheaders hnew => exact absurd (h _ hfound).2 hload
    · intro s' hrun
      have hend := hends.of_ok hrun
      cases hend with
      | done hfound hload _ hheaders hnew hclose =>
          refine ⟨_, hfound, ⟨?_, _, hclose, ?_⟩⟩
          · exact congrArg Task.inode (State.put_same _ _ _ _)
          · unfold Task.held
            rw [(h _ hfound).1]
            exact add_zero _

end Ends

section Runs

/-- An inode of a file system with a program `/a`. -/
def programNode (mode : Nat) (inode : Nat) : Namei.Node Nat where
  iMode := if inode = 0 then Minix.sIfdir ||| 0o755 else mode
  iUid := 0
  iGid := 0
  iNlink := 1
  iIno := inode + 1
  iDev := 0x100
  iOp := if inode = 0 then some Namei.minixDirInodeOperations
    else some Namei.minixFileInodeOperations
  iMount := none
  isMounted := false
  sCovered := none
  isRdonly := false
  isNodev := false

/-- The name of the program. -/
def programName : Namei.Name :=
  [97]

/-- A file system with a program `/a`.  A directory cannot be read. -/
def programDisk (mode flags : Nat) : Disk where
  tree :=
    { inode := programNode mode
      entry := fun dir name => if dir = 0 ∧ name = programName then some 1 else none
      linkBlock := fun _ => none
      linkPath := fun _ => []
      unused := fun _ => none
      unused_zero := fun _ _ h => nomatch h
      freeIno := false
      freeZone := false
      addEntry := fun _ _ => some .enospc
      emptyDir := fun _ => false
      fopOpen := fun _ => none
      load := fun _ => none }
  read inode := some (if inode = 0 then .ofBytes [] else bssFile 0)
  iFlags _ := flags

/-- A task with the given identity and no handlers. -/
def taskOf (uid : Nat) : Process where
  tRegs := ⟨0, 0, 0, 0⟩
  action _ := 0
  root := 0
  pwd := 0
  uid := uid
  gid := uid
  suid := uid
  sgid := uid
  euid := uid
  egid := uid
  tBegstack := 0
  tEnddata := 0
  tEndbrk := 0
  tEndseg := 0

/-- The machine before the first program, with a reference to the root directory. -/
def machineOf (uid : Nat) : Machine where
  segments := firstProgram
  process := taskOf uid
  files :=
    { fd := fun _ => none
      closeOnExec := 0
      fileArray := fun _ => ⟨0, none⟩
      iCount := fun inode => if inode = 0 then 1 else 0 }

/-- `execve` of a path without arguments. -/
def executes (filename : Path) : ExecCall where
  filename := filename
  sptr := 0
  slen := 6
  fuel := 2

/-- `/a`. -/
def programPath : Path :=
  Namei.slash :: programName

/-- `/`. -/
def rootPath : Path :=
  [Namei.slash]

/-- The first program of a machine. -/
theorem execve_atomic_first :
    (machineOf 0).ExecAtomic true (programDisk 0o100755 0) initTask (executes programPath) := by
  have hrun : ((execve true (programDisk 0o100755 0) initTask (executes programPath)
      (machineOf 0)).toOption.any fun r => r.1.isNone) = true := by
    decide +kernel
  obtain ⟨⟨retval, s'⟩, hs, hnone⟩ := (Option.any_eq_true _ _).mp hrun
  obtain rfl : retval = none := Option.isNone_iff_eq_none.mp hnone
  refine (execve_atomic_iff true (programDisk 0o100755 0) initTask (executes programPath)
    (machineOf 0) fun e he => ?_).mpr fun inode hnamed => ?_
  · rw [ok_of_toOption hs] at he
    cases he
  · have hend := execve_outcome.of_ok (ok_of_toOption hs)
    cases hend with
    | done hfound hload _ hheaders hnew hclose =>
        obtain rfl := Except.ok.inj (hnamed.symm.trans hfound)
        exact ⟨rfl, hload⟩

/-- `execve("/")` fails, and the count of the root directory goes up. -/
theorem execve_keeps_root :
    ¬ (machineOf 0).ExecAtomic true (programDisk 0o100755 0) initTask (executes rootPath) := by
  intro h
  have hrun : ((execve true (programDisk 0o100755 0) initTask (executes rootPath)
      (machineOf 0)).toOption.any
        fun r => r.1.isSome && decide (r.2.files.iCount 0 = 2)) = true := by
    decide +kernel
  obtain ⟨⟨retval, s'⟩, hs, hfails⟩ := (Option.any_eq_true _ _).mp hrun
  obtain ⟨hretval, hcount⟩ := (Bool.and_eq_true _ _).mp hfails
  obtain ⟨e, rfl⟩ := Option.isSome_iff_exists.mp hretval
  have hfiles := (h.failed e s' (ok_of_toOption hs)).files
  have htwo : s'.files.iCount 0 = 2 := of_decide_eq_true hcount
  rw [hfiles] at htwo
  exact absurd htwo (by decide)

end Runs

end Exec
end Elks
