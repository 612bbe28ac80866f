import Elks.Files.FdSet
import Elks.Files.Stat
import Elks.Lib.Tally
import Elks.Vfs.InodeList

/-!
# Open files and descriptors

The table of open files (file_table.c), the descriptors of the tasks that point
into it, and the system calls that change either: those of open.c, fcntl.c and
pipe.c, and what fork.c, exit.c and exec.c do to the descriptors.

**State.**  `Kernel` has the files, the tasks as far as their descriptors go,
the inode table of `Vfs.InodeList`, and the buffers of the pipes.  What a pipe
keeps in its inode is a field of its own, `pipeI`, since only inodes of pipes
have it.

**Files of other kinds.**  `open_namei` is a parameter of `sys_open`: a routine
over the inode table with the inode or the error it returns.  The operations of
a file are those of pipes or others, of which the model knows whether they have
an `open` and a `release` and what their `open` returned.

**History.**  `log` records each time a file with a `release` operation is
handed out and each call of that operation.  No routine reads it.
-/

namespace Elks
namespace Files

open Lib Vfs

/-- `NR_FILE`. -/
def nrFile : Nat :=
  64

/-- `NR_OPEN`, without `CONFIG_SHORT_FILES`. -/
def nrOpen : Nat :=
  20

/-- `MAX_TASKS`. -/
def maxTasks : Nat :=
  15

/-- `MAX_PIPES`. -/
def maxPipes : Nat :=
  8

/-- A pointer into `file_array`. -/
abbrev Filp :=
  Fin nrFile

/-- A pointer into `task`. -/
abbrev TaskRef :=
  Fin maxTasks

/-- A file descriptor. -/
abbrev Fd :=
  Fin nrOpen

/-- A row of `pipe_base`. -/
abbrev PipeRef :=
  Fin maxPipes

instance : NeZero nrInode := ⟨by decide⟩
instance : NeZero nrFile := ⟨by decide⟩
instance : NeZero nrOpen := ⟨by decide⟩
instance : NeZero maxTasks := ⟨by decide⟩
instance : NeZero maxPipes := ⟨by decide⟩

def eagain : Int := 11
def ebadf : Int := 9
def efault : Int := 14
def einval : Int := 22
def emfile : Int := 24
def enfile : Int := 23
def enomem : Int := 12

/-- `struct file_operations`: those of the two ends of a pipe, and others. -/
inductive FileOperations
  | readPipe
  | writePipe
  | rdwrPipe
  | other (opens releases : Bool)
deriving DecidableEq, Repr

/-- Whether there is a `release` operation. -/
def FileOperations.releases : FileOperations → Bool
  | .other _ r => r
  | _ => true

/-- `struct file`. -/
structure File where
  fMode : Nat
  fFlags : Nat
  fCount : Nat
  fInode : Option InodeRef
  fOp : Option FileOperations
deriving DecidableEq, Repr

/-- What `memset(f, 0, sizeof(*f))` leaves. -/
def File.zero : File where
  fMode := 0
  fFlags := 0
  fCount := 0
  fInode := none
  fOp := none

/-- Whether the file has a `release` operation. -/
def File.releases (f : File) : Bool :=
  f.fOp.any FileOperations.releases

/-- How far a task is: it makes calls, it is in `do_exit` with its files closed
(`TASK_EXITING`), or its entry is free (`TASK_UNUSED`). -/
inductive TaskState
  | running
  | exiting
  | unused
deriving DecidableEq, Repr

/-- `struct task_struct`. -/
structure Task where
  state : TaskState
  uid : Nat
  fd : Fd → Option Filp
  closeOnExec : FdSet

/-- Whether the task makes calls. -/
abbrev Task.live (d : Task) : Bool :=
  d.state = .running

/-- `struct pipe_inode_info`, without the queue and the bytes. -/
structure PipeInodeInfo where
  base : Option PipeRef
  start : Nat
  len : Nat
  lock : Nat
  readers : Nat
  writers : Nat
deriving DecidableEq, Repr

/-- The pipe part of an inode that has been cleared. -/
def PipeInodeInfo.zero : PipeInodeInfo where
  base := none
  start := 0
  len := 0
  lock := 0
  readers := 0
  writers := 0

/-- What happened to a file: it was handed out, or its `release` was called. -/
inductive Event
  | opened (f : Filp)
  | released (f : Filp)
deriving DecidableEq, Repr

/-- The kernel, as far as open files go. -/
structure Kernel where
  fileArray : Filp → File
  task : TaskRef → Task
  inodes : Vfs.Table
  pipeI : InodeRef → PipeInodeInfo
  pipeInUse : PipeRef → Bool
  log : List Event

section Code

/-- A routine of the inode table. -/
def onInodes {α : Type} (m : Routine Vfs.Table α) : Routine Kernel α :=
  fun s =>
    match m s.inodes with
    | .ok r => .ok (r.1, { s with inodes := r.2 })
    | .error e => .error e

/-- Change an open file. -/
def modFile (f : Filp) (g : File → File) : Routine Kernel Unit :=
  modify fun s =>
    { s with fileArray := Function.update s.fileArray f (g (s.fileArray f)) }

/-- Change a task. -/
def modTask (t : TaskRef) (g : Task → Task) : Routine Kernel Unit :=
  modify fun s => { s with task := Function.update s.task t (g (s.task t)) }

/-- `fd[fd] = o`. -/
def setFd (t : TaskRef) (fd : Fd) (o : Option Filp) : Routine Kernel Unit :=
  modTask t fun d => { d with fd := Function.update d.fd fd o }

/-- `clear_bit(fd, &close_on_exec)`. -/
def clearBit (t : TaskRef) (fd : Fd) : Routine Kernel Unit :=
  modTask t fun d => { d with closeOnExec := d.closeOnExec.withoutBit fd }

/-- Change what a pipe keeps in its inode. -/
def modPipe (i : InodeRef) (g : PipeInodeInfo → PipeInodeInfo) :
    Routine Kernel Unit :=
  modify fun s =>
    { s with pipeI := Function.update s.pipeI i (g (s.pipeI i)) }

def note (e : Event) : Routine Kernel Unit :=
  modify fun s => { s with log := s.log ++ [e] }

/-- `f->f_count++`. -/
def addCount (f : Filp) : Routine Kernel Unit :=
  modFile f fun d => { d with fCount := wrap 16 (d.fCount + 1) }

/-- `f->f_count--`. -/
def dropCount (f : Filp) : Routine Kernel Unit :=
  modFile f fun d => { d with fCount := wrapSub 16 d.fCount 1 }

/-- `get_empty_filp`. -/
def getEmptyFilp : Routine Kernel (Option Filp) := do
  let s ← get
  match (List.finRange nrFile).find? fun f => (s.fileArray f).fCount = 0 with
  | none => pure none
  | some f => do
      modFile f fun _ => { File.zero with fCount := 1 }
      pure (some f)

/-- `get_unused_fd`. -/
def getUnusedFd (t : TaskRef) : Routine Kernel (Option Fd) := do
  let s ← get
  match (List.finRange nrOpen).find? fun fd => (s.task t).fd fd = none with
  | none => pure none
  | some fd => do
      clearBit t fd
      pure (some fd)

/-- `get_pipe_mem`. -/
def getPipeMem : Routine Kernel (Option PipeRef) := do
  let s ← get
  match (List.finRange maxPipes).find? fun i => ¬s.pipeInUse i with
  | none => pure none
  | some i => do
      modify fun s => { s with pipeInUse := Function.update s.pipeInUse i true }
      pure (some i)

/-- `pipe_read_release`, `pipe_write_release` and `pipe_rdwr_release`. -/
def pipeRelease (op : FileOperations) (i : InodeRef) (mode : Nat) :
    Routine Kernel Unit :=
  match op with
  | .readPipe => modPipe i fun p => { p with readers := wrapSub 16 p.readers 1 }
  | .writePipe => modPipe i fun p => { p with writers := wrapSub 16 p.writers 1 }
  | .rdwrPipe => do
      when (mode &&& 1 ≠ 0)
        (modPipe i fun p => { p with readers := wrapSub 16 p.readers 1 })
      when (mode &&& 2 ≠ 0)
        (modPipe i fun p => { p with writers := wrapSub 16 p.writers 1 })
  | .other _ _ => pure ()

/-- `filp->f_op->release(inode, filp)`, if there is one. -/
def release (f : Filp) : Routine Kernel Unit := do
  let d := (← get).fileArray f
  forSome d.fOp fun op =>
    when op.releases do
      forSome d.fInode fun i => pipeRelease op i d.fMode
      note (.released f)

variable (sb : Fin nrSuper → SuperBlock) (rounds : Nat)

/-- `close_fp`. -/
def closeFp (f : Filp) : Routine Kernel Unit := do
  let d := (← get).fileArray f
  if d.fCount = 0 then
    pure ()
  else if 1 < d.fCount then
    dropCount f
  else do
    release f
    dropCount f
    modFile f fun d => { d with fInode := none }
    forSome d.fInode fun i => onInodes (iput sb rounds i)

/-- `current->files.fd[fd]` with a number from outside. -/
def fileAt (t : TaskRef) (fd : Nat) : Routine Kernel (Option (Fd × Filp)) := do
  let s ← get
  if h : fd < nrOpen then
    pure (((s.task t).fd ⟨fd, h⟩).map fun f => (⟨fd, h⟩, f))
  else
    pure none

/-- `sys_close`. -/
def sysClose (t : TaskRef) (fd : Nat) : Routine Kernel Int := do
  if h : fd < nrOpen then do
    clearBit t ⟨fd, h⟩
    let s ← get
    match (s.task t).fd ⟨fd, h⟩ with
    | none => pure (-ebadf)
    | some f => do
        setFd t ⟨fd, h⟩ none
        closeFp sb rounds f
        pure 0
  else
    pure (-ebadf)

/-- The loop of `_close_allfiles`. -/
def closeFrom (t : TaskRef) : List Fd → Routine Kernel Unit
  | [] => pure ()
  | fd :: rest => do
      let s ← get
      forSome ((s.task t).fd fd) fun f => do
        setFd t fd none
        closeFp sb rounds f
      closeFrom t rest

/-- `_close_allfiles`. -/
def closeAllfiles (t : TaskRef) : Routine Kernel Unit :=
  closeFrom sb rounds t (List.finRange nrOpen)

/-- `do_exit` as far as the files go.  It may sleep before it has dropped its inodes. -/
def doExit (t : TaskRef) : Routine Kernel Int := do
  closeAllfiles sb rounds t
  modTask t fun d => { d with state := .exiting }
  pure 0

/-- The end of `do_exit`, which frees the entry of the task. -/
def endExit (t : TaskRef) : Routine Kernel Int := do
  modTask t fun d => { d with state := .unused }
  pure 0

/-- The loop of `sys_execve` over the descriptors to be closed. -/
def closeMarked (t : TaskRef) : List Fd → Routine Kernel Unit
  | [] => pure ()
  | fd :: rest => do
      let s ← get
      when (fdIsset fd (s.task t).closeOnExec) do
        let _ ← sysClose sb rounds t fd
        pure ()
      closeMarked t rest

/-- `sys_execve` once the new image is in place. -/
def execClose (t : TaskRef) : Routine Kernel Int := do
  closeMarked sb rounds t (List.finRange nrOpen).reverse
  pure 0

/-- `dupfd`. -/
def dupfd (t : TaskRef) (fd arg : Nat) : Routine Kernel Int := do
  match ← fileAt t fd with
  | none => pure (-ebadf)
  | some (_, f) =>
      if nrOpen ≤ arg then
        pure (-einval)
      else do
        let s ← get
        match (List.finRange nrOpen).find? fun n =>
            arg ≤ n.val ∧ (s.task t).fd n = none with
        | none => pure (-emfile)
        | some n => do
            clearBit t n
            setFd t n (some f)
            addCount f
            pure n.val

/-- `sys_dup2`. -/
def sysDup2 (t : TaskRef) (oldfd newfd : Nat) : Routine Kernel Int := do
  match ← fileAt t oldfd with
  | none => pure (-ebadf)
  | some _ =>
      if newfd = oldfd then
        pure newfd
      else if newfd < nrOpen then do
        let _ ← sysClose sb rounds t newfd
        dupfd t oldfd newfd
      else
        pure (-ebadf)

/-- `sys_dup`. -/
def sysDup (t : TaskRef) (fildes : Nat) : Routine Kernel Int :=
  dupfd t fildes 0

/-- `fcntl` with `F_DUPFD`. -/
def fcntlDupfd (t : TaskRef) (fd arg : Nat) : Routine Kernel Int := do
  match ← fileAt t fd with
  | none => pure (-ebadf)
  | some _ => dupfd t fd arg

/-- Change `close_on_exec` on behalf of a descriptor that is open. -/
def markFd (t : TaskRef) (fd : Nat) (g : FdSet → FdSet) : Routine Kernel Int := do
  match ← fileAt t fd with
  | none => pure (-ebadf)
  | some _ => do
      modTask t fun d => { d with closeOnExec := g d.closeOnExec }
      pure 0

/-- `fcntl` with `F_SETFD`. -/
def fcntlSetfd (t : TaskRef) (fd arg : Nat) : Routine Kernel Int :=
  markFd t fd fun set => if arg &&& 1 ≠ 0 then set.withBit fd else set.withoutBit fd

/-- `ioctl` with `FIOCLEX`. -/
def ioctlFioclex (t : TaskRef) (fd : Nat) : Routine Kernel Int :=
  markFd t fd (fdSet fd)

/-- `ioctl` with `FIONCLEX`. -/
def ioctlFionclex (t : TaskRef) (fd : Nat) : Routine Kernel Int :=
  markFd t fd (fdClr fd)

/-- The flags that an open file does not keep. -/
def openOnly : Nat :=
  0o100 ||| 0o200 ||| 0o400 ||| 0o1000

/-- What `open_namei` and the file found had to say: the routine that finds the
inode, its `default_file_ops`, and what their `open` returns. -/
structure Found where
  namei : Routine Vfs.Table (Except Int InodeRef)
  fileOps : Option FileOperations
  openError : Int

/-- `fop->open(inode, f)`. -/
def openFile (i : InodeRef) (mode : Nat) (found : Found) : Routine Kernel Int :=
  match found.fileOps with
  | none => pure 0
  | some .readPipe => do
      modPipe i fun p => { p with readers := wrap 16 (p.readers + 1) }
      pure 0
  | some .writePipe => do
      modPipe i fun p => { p with writers := wrap 16 (p.writers + 1) }
      pure 0
  | some .rdwrPipe => do
      when (mode &&& 1 ≠ 0)
        (modPipe i fun p => { p with readers := wrap 16 (p.readers + 1) })
      when (mode &&& 2 ≠ 0)
        (modPipe i fun p => { p with writers := wrap 16 (p.writers + 1) })
      pure 0
  | some (.other opens _) => pure (if opens then found.openError else 0)

/-- `sys_open` from the inode on. -/
def openInode (t : TaskRef) (f : Filp) (i : InodeRef) (found : Found) :
    Routine Kernel Int := do
  modFile f fun d => { d with fInode := some i, fOp := found.fileOps }
  let mode := ((← get).fileArray f).fMode
  let error ← openFile i mode found
  if error ≠ 0 then do
    onInodes (iput sb rounds i)
    dropCount f
    pure error
  else do
    when (found.fileOps.any FileOperations.releases) (note (.opened f))
    modFile f fun d => { d with fFlags := d.fFlags - (d.fFlags &&& openOnly) }
    match ← getUnusedFd t with
    | some fd => do
        setFd t fd (some f)
        pure fd.val
    | none => do
        release f
        onInodes (iput sb rounds i)
        dropCount f
        pure (-emfile)

/-- `sys_open`. -/
def sysOpen (t : TaskRef) (flags : Nat) (found : Found) : Routine Kernel Int := do
  match ← getEmptyFilp with
  | none => pure (-enfile)
  | some f => do
      modFile f fun d =>
        { d with fFlags := wrap 16 flags, fMode := (flags + 1) &&& 3 }
      match ← onInodes found.namei with
      | .error error => do
          dropCount f
          pure error
      | .ok i => openInode sb rounds t f i found

/-- `get_empty_inode`, of which the pipe part is cleared with the rest. -/
def emptyInode : Routine Kernel InodeRef := do
  let i ← onInodes Vfs.getEmptyInode
  modPipe i fun _ => PipeInodeInfo.zero
  pure i

/-- `get_pipe_inode`. -/
def getPipeInode : Routine Kernel (Option InodeRef) := do
  let i ← emptyInode
  match ← getPipeMem with
  | none => do
      onInodes (iput sb rounds i)
      pure none
  | some base => do
      onInodes (modInode i fun d => { d with iCount := 2 })
      modPipe i fun p =>
        { p with
          base := some base, start := 0, len := 0, readers := 1, writers := 1,
          lock := 0 }
      pure (some i)

/-- `do_pipe` with both descriptors. -/
def exportPipe (t : TaskRef) (f₁ f₂ : Filp) (inode : InodeRef) (i j : Fd) :
    Routine Kernel (Except Int (Fd × Fd)) := do
  modFile f₁ fun d =>
    { d with
      fInode := some inode, fFlags := 0, fOp := some .readPipe, fMode := 1 }
  modFile f₂ fun d =>
    { d with
      fInode := some inode, fFlags := 1, fOp := some .writePipe, fMode := 2 }
  note (.opened f₁)
  note (.opened f₂)
  setFd t j (some f₂)
  pure (.ok (i, j))

/-- The end of `do_pipe` that gives up the inode and both files. -/
def undoPipe (f₁ f₂ : Filp) (inode : InodeRef) : Routine Kernel (Except Int (Fd × Fd)) := do
  onInodes (modInode inode fun d => { d with iCount := wrapSub 16 d.iCount 1 })
  onInodes (iput sb rounds inode)
  dropCount f₂
  dropCount f₁
  pure (.error (-emfile))

/-- `do_pipe`, with what it stores in `fd[0]` and `fd[1]` when it returns 0.  With no
file or no buffer left it returns a positive number. -/
def doPipe (t : TaskRef) : Routine Kernel (Except Int (Fd × Fd)) := do
  match ← getEmptyFilp with
  | none => pure (.error enfile)
  | some f₁ => do
      match ← getEmptyFilp with
      | none => do
          dropCount f₁
          pure (.error enfile)
      | some f₂ => do
          match ← getPipeInode sb rounds with
          | none => do
              dropCount f₂
              dropCount f₁
              pure (.error enfile)
          | some inode => do
              match ← getUnusedFd t with
              | none => undoPipe sb rounds f₁ f₂ inode
              | some i => do
                  setFd t i (some f₁)
                  match ← getUnusedFd t with
                  | none => do
                      setFd t i none
                      undoPipe sb rounds f₁ f₂ inode
                  | some j => exportPipe t f₁ f₂ inode i j

/-- The data segment of the calling task with its end, and the segment of the kernel. -/
structure User where
  kernelDs : UInt16
  ds : UInt16
  endseg : UInt16
  mem : UInt16 → UInt8

/-- `verfy_area`. -/
def User.verfyArea (u : User) (p len : UInt16) : Int :=
  if u.kernelDs = u.ds then 0
  else if u.endseg < p + len then -efault
  else 0

/-- `verified_memcpy_tofs`, with the memory of the task after it. -/
def User.verifiedMemcpyTofs (u : User) (daddr : UInt16) (bytes : List UInt8) :
    Int × (UInt16 → UInt8) :=
  let err := u.verfyArea daddr (UInt16.ofNat bytes.length)
  if err ≠ 0 then (err, u.mem)
  else (0, Stat.memcpyTofs u.mem daddr bytes)

/-- `sys_pipe`, with the memory of the task after it. -/
def sysPipe (t : TaskRef) (u : User) (filedes : UInt16) :
    Routine Kernel (Int × (UInt16 → UInt8)) := do
  match ← doPipe sb rounds t with
  | .error error => pure (error, u.mem)
  | .ok (i, j) => pure (u.verifiedMemcpyTofs filedes (pack [(2, i.val), (2, j.val)]))

/-- `find_empty_process`. -/
def findEmptyProcess (t : TaskRef) (s : Kernel) : Option TaskRef :=
  let unused := (List.finRange maxTasks).filter fun n => (s.task n).state = .unused
  if unused.length = 0 ∨ unused.length = 1 ∧ (s.task t).uid ≠ 0 then
    none
  else
    unused.getLast?

/-- The loop of `do_fork` over the descriptors. -/
def shareFiles (t : TaskRef) : List Fd → Routine Kernel Unit
  | [] => pure ()
  | fd :: rest => do
      let s ← get
      forSome ((s.task t).fd fd) addCount
      shareFiles t rest

/-- `do_fork`; `dup` says whether `mm_dup` finds the memory. -/
def doFork (t : TaskRef) (virtual dup : Bool) : Routine Kernel Int := do
  match findEmptyProcess t (← get) with
  | none => pure (-eagain)
  | some n => do
      let parent := (← get).task t
      modTask n fun _ => parent
      if ¬virtual ∧ ¬dup then do
        modTask n fun d => { d with state := .unused }
        pure (-enomem)
      else do
        shareFiles t (List.finRange nrOpen)
        pure n.val

end Code

end Files
end Elks
