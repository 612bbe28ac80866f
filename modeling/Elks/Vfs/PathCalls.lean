import Elks.Vfs.Namei

/-!
# The path system calls (fs/namei.c, fs/open.c, fs/stat.c, fs/exec.c)

**Code.**  Each call as a routine over the inode table.

**Results.**

* `PathCall.lost` says which reference a call loses: `access` that succeeds,
  `chmod` of a file of someone else, `mknod` of an empty name, `link` and `rename`
  to a directory that does not resolve, and an `execve` that fails after it has
  opened the file.
* `pathCall_balanced_iff`: in every tree and for every path the counts come out
  right exactly when none of these is the case.
-/

namespace Elks
namespace Namei

open Lib
open Minix

section Code

variable {ι : Type} [DecidableEq ι]

/-- The directory operation `run`, if the task may write in the directory and the
operation is there. -/
def inDir
    (t : TaskStruct ι)
    (T : FileTree ι)
    (op : InodeOperations → Bool)
    (run : ι → Name → Walk ι (Option Errno))
    (dirp : ι)
    (basename : Name) :
    Walk ι (Option Errno) :=
  match permission t (T.inode dirp) (mayWrite ||| mayExec) with
  | some error => pure (some error)
  | none =>
      if ¬ T.has op dirp then
        pure (some .eperm)
      else do
        iref dirp
        run dirp basename

/-- `do_mknod`. -/
def doMknod (t : TaskStruct ι) (T : FileTree ι) (filename : Path) :
    Walk ι (Option Errno) := do
  match ← dirNamei t T filename with
  | .error error => pure (some error)
  | .ok (dirp, basename) =>
      -- this return keeps the directory
      if basename = [] then
        pure (some .enoent)
      else do
        let error ← inDir t T (·.mknod) (minixMknod T) dirp basename
        iput dirp
        pure error

/-- What `sys_mknod` says to its mode. -/
def mknodMode (t : TaskStruct ι) (mode : Nat) : Option Errno :=
  if hasFormat sIfdir mode ∨ (¬ hasFormat sIfifo mode ∧ ¬ t.suser) then some .eperm
  else if mode &&& sIfmt ∈ [0, sIfreg, sIfchr, sIfblk, sIfifo, sIfsock] then none
  else some .einval

/-- `sys_mknod`. -/
def sysMknod (t : TaskStruct ι) (T : FileTree ι) (filename : Path) (mode : Nat) :
    Walk ι (Option Errno) :=
  match mknodMode t mode with
  | some error => pure (some error)
  | none => doMknod t T filename

/-- What `sys_mkdir` and `sys_symlink` do with the directory of their path. -/
def makeEntry
    (t : TaskStruct ι)
    (T : FileTree ι)
    (op : InodeOperations → Bool)
    (run : ι → Name → Walk ι (Option Errno))
    (pathname : Path) :
    Walk ι (Option Errno) := do
  match ← dirNamei t T pathname with
  | .error error => pure (some error)
  | .ok (dirp, basename) => do
      let error ← (if basename = [] then pure (some .enoent)
        else inDir t T op run dirp basename : Walk ι (Option Errno))
      iput dirp
      pure error

/-- `sys_mkdir`. -/
def sysMkdir (t : TaskStruct ι) (T : FileTree ι) (pathname : Path) :
    Walk ι (Option Errno) :=
  makeEntry t T (·.mkdir) (minixMkdir T) pathname

/-- `sys_symlink`. -/
def sysSymlink (t : TaskStruct ι) (T : FileTree ι) (newname : Path) :
    Walk ι (Option Errno) :=
  makeEntry t T (·.symlink) (minixSymlink T) newname

/-- `__do_rmthing`. -/
def doRmthing
    (t : TaskStruct ι)
    (T : FileTree ι)
    (op : InodeOperations → Bool)
    (run : ι → Name → Walk ι (Option Errno))
    (pathname : Path) :
    Walk ι (Option Errno) := do
  match ← dirNamei t T pathname with
  | .error error => pure (some error)
  | .ok (dirp, basename) =>
      if basename = [] then do
        iput dirp
        pure (some .enoent)
      else
        match permission t (T.inode dirp) (mayWrite ||| mayExec) with
        | some error => do
            iput dirp
            pure (some error)
        | none =>
            if T.has op dirp then
              run dirp basename
            else do
              iput dirp
              pure (some .eperm)

/-- `sys_rmdir`. -/
def sysRmdir (t : TaskStruct ι) (T : FileTree ι) (pathname : Path) :
    Walk ι (Option Errno) :=
  doRmthing t T (·.rmdir) (minixRmdir t T) pathname

/-- `sys_unlink`. -/
def sysUnlink (t : TaskStruct ι) (T : FileTree ι) (pathname : Path) :
    Walk ι (Option Errno) :=
  doRmthing t T (·.unlink) (minixUnlink t T) pathname

/-- What `sys_link` checks of the new name. -/
def linkCheck (t : TaskStruct ι) (T : FileTree ι) (oldinode dirp : ι) (basename : Name) :
    Option Errno :=
  if basename = [] then some .eperm
  else if (T.inode dirp).iDev ≠ (T.inode oldinode).iDev then some .exdev
  else
    match permission t (T.inode dirp) (mayWrite ||| mayExec) with
    | some error => some error
    | none => if ¬ T.has (·.link) dirp then some .eperm else none

/-- `sys_link`.  When the directory of the new name does not resolve, `iput` is
called on that directory, which is `NULL`, and not on the old inode. -/
def sysLink (t : TaskStruct ι) (T : FileTree ι) (oldname newname : Path) :
    Walk ι (Option Errno) := do
  match ← namei t T oldname .any 0 with
  | .error error => pure (some error)
  | .ok oldinode => do
      match ← dirNamei t T newname with
      | .error error => pure (some error)
      | .ok (dirp, basename) =>
          match linkCheck t T oldinode dirp basename with
          | none => do
              iref dirp
              let error ← minixLink T oldinode dirp basename
              iput dirp
              pure error
          | some error => do
              iput oldinode
              iput dirp
              pure (some error)

/-- `sys_rename`.  The tree `after` is the one that the link leaves. -/
def sysRename (t : TaskStruct ι) (T after : FileTree ι) (oldname newname : Path) :
    Walk ι (Option Errno) := do
  match ← sysLink t T oldname newname with
  | none => sysUnlink t after oldname
  | some err => pure (some err)

/-- `sys_utime`. -/
def sysUtime (t : TaskStruct ι) (T : FileTree ι) (filename : Path) :
    Walk ι (Option Errno) := do
  match ← namei t T filename .any 0 with
  | .error error => pure (some error)
  | .ok inode => do
      iput inode
      pure none

/-- The task with its real identity as the effective one. -/
def TaskStruct.real (t : TaskStruct ι) : TaskStruct ι :=
  { t with euid := t.uid, egid := t.gid }

/-- `sys_access`. -/
def sysAccess (t : TaskStruct ι) (T : FileTree ι) (filename : Path) (mode : Nat) :
    Walk ι (Option Errno) :=
  if mode ≠ mode &&& 7 then
    pure (some .einval)
  else do
    match ← namei t.real T filename .any mode with
    | .error res => pure (some res)
    | .ok _ => pure none

/-- `sys_chdir`, with the task as it is afterwards. -/
def sysChdir (t : TaskStruct ι) (T : FileTree ι) (filename : Path) :
    Walk ι (Except Errno (TaskStruct ι)) := do
  match ← namei t T filename .isDir mayExec with
  | .error error => pure (.error error)
  | .ok inode => do
      iput t.pwd
      pure (.ok { t with pwd := inode })

/-- Whether the task may change the mode or the owner of an inode. -/
def TaskStruct.owns (t : TaskStruct ι) (inode : Node ι) : Bool :=
  t.euid == inode.iUid || t.suser

/-- `sys_chmod`. -/
def sysChmod (t : TaskStruct ι) (T : FileTree ι) (filename : Path) :
    Walk ι (Option Errno) := do
  match ← namei t T filename .any 0 with
  | .error error => pure (some error)
  | .ok inode =>
      if (T.inode inode).isRdonly then do
        iput inode
        pure (some .erofs)
      else if ¬ t.owns (T.inode inode) then
        -- the source asks here whether it should drop the inode
        pure (some .eperm)
      else do
        iput inode
        pure none

/-- `do_chown`. -/
def doChown (t : TaskStruct ι) (inode : Node ι) : Option Errno :=
  if inode.isRdonly then some .erofs
  else if ¬ t.owns inode then some .eperm
  else none

/-- `sys_chown`. -/
def sysChown (t : TaskStruct ι) (T : FileTree ι) (filename : Path) :
    Walk ι (Option Errno) := do
  match ← lnamei t T filename with
  | .error error => pure (some error)
  | .ok inode => do
      iput inode
      pure (doChown t (T.inode inode))

/-- `sys_stat`; `statbuf` is how the copy to the caller comes out. -/
def sysStat (t : TaskStruct ι) (T : FileTree ι) (filename : Path) (statbuf : Option Errno) :
    Walk ι (Option Errno) := do
  match ← namei t T filename .any 0 with
  | .error error => pure (some error)
  | .ok inode => do
      iput inode
      pure statbuf

/-- `sys_lstat`. -/
def sysLstat (t : TaskStruct ι) (T : FileTree ι) (filename : Path) (statbuf : Option Errno) :
    Walk ι (Option Errno) := do
  match ← lnamei t T filename with
  | .error error => pure (some error)
  | .ok inode => do
      iput inode
      pure statbuf

/-- `sys_readlink`; `buf` is the answer of `verify_area`. -/
def sysReadlink
    (t : TaskStruct ι)
    (T : FileTree ι)
    (path : Path)
    (buf : Option Errno)
    (bufsiz : Nat) :
    Walk ι (Except Errno Nat) :=
  if bufsiz = 0 then
    pure (.error .einval)
  else
    match buf with
    | some error => pure (.error error)
    | none => do
        match ← lnamei t T path with
        | .error error => pure (.error error)
        | .ok inode =>
            if ¬ T.has (·.readlink) inode then do
              iput inode
              pure (.error .einval)
            else
              minixReadlink T inode bufsiz

/-- The flag that `sys_open` gives to `open_namei`. -/
def openFlag (flags : Nat) : Nat :=
  let flag := if (flags + 1) &&& 3 ≠ 0 then flags + 1 else flags
  if flag &&& (0o1000 ||| oCreat) ≠ 0 then flag ||| 2 else flag

/-- `sys_open`, with the inode of the file. -/
def sysOpen (t : TaskStruct ι) (T : FileTree ι) (filename : Path) (flags : Nat) :
    Walk ι (Except Errno ι) :=
  if ¬ t.emptyFilp then
    pure (.error .enfile)
  else do
    match ← openNamei t T filename (openFlag flags) with
    | .error error => pure (.error error)
    | .ok inode =>
        match (if T.has (·.defaultFileOps) inode then T.fopOpen inode else none) with
        | some error => do
            iput inode
            pure (.error error)
        | none =>
            if t.unusedFd then
              pure (.ok inode)
            else do
              iput inode
              pure (.error .emfile)

/-- Close the last file of each of these inodes. -/
def closeFiles : List ι → Walk ι Unit
  | [] => pure ()
  | i :: rest => do
      iput i
      closeFiles rest

/-- `sys_execve`.  Its ways out after `open_namei` release the file and keep the
inode; the inode of a program that runs is its `t_inode`. -/
def sysExecve (t : TaskStruct ι) (T : FileTree ι) (filename : Path) :
    Walk ι (Option Errno) := do
  match ← openNamei t T filename 0 with
  | .error error => pure (some error)
  | .ok inode =>
      if ¬ T.has (·.defaultFileOps) inode then
        throw .nullOps
      else
        match T.fopOpen inode with
        | some _ => pure (some .enoexec)
        | none =>
            match T.load inode with
            | some error => pure (some error)
            | none => do
                closeFiles t.closeOnExec
                pure none

/-- A path system call with its arguments. -/
inductive PathCall
  | stat (filename : Path) (statbuf : Option Errno)
  | lstat (filename : Path) (statbuf : Option Errno)
  | readlink (path : Path) (buf : Option Errno) (bufsiz : Nat)
  | access (filename : Path) (mode : Nat)
  | chmod (filename : Path)
  | chown (filename : Path)
  | utime (filename : Path)
  | mkdir (pathname : Path)
  | mknod (filename : Path) (mode : Nat)
  | unlink (pathname : Path)
  | rmdir (pathname : Path)
  | link (oldname newname : Path)
  | symlink (newname : Path)
  | rename (oldname newname : Path)
  | opens (filename : Path) (flags : Nat)
  | chdir (filename : Path)
  | execve (filename : Path)

/-- What a call returns. -/
inductive Reply (ι : Type)
  | error (e : Errno)
  | done
  | opened (inode : ι)
  | moved (t : TaskStruct ι)
  | executed

/-- The reply of a call that returns 0 or an error. -/
def Reply.ofErrno : Option Errno → Reply ι
  | none => .done
  | some e => .error e

/-- A system call.  The tree `after` is the one that `rename` unlinks in. -/
def PathCall.run (t : TaskStruct ι) (T after : FileTree ι) :
    PathCall → Walk ι (Reply ι)
  | .stat filename statbuf => Reply.ofErrno <$> sysStat t T filename statbuf
  | .lstat filename statbuf => Reply.ofErrno <$> sysLstat t T filename statbuf
  | .readlink path buf bufsiz =>
      (fun r => match r with | .ok _ => .done | .error e => .error e) <$>
        sysReadlink t T path buf bufsiz
  | .access filename mode => Reply.ofErrno <$> sysAccess t T filename mode
  | .chmod filename => Reply.ofErrno <$> sysChmod t T filename
  | .chown filename => Reply.ofErrno <$> sysChown t T filename
  | .utime filename => Reply.ofErrno <$> sysUtime t T filename
  | .mkdir pathname => Reply.ofErrno <$> sysMkdir t T pathname
  | .mknod filename mode => Reply.ofErrno <$> sysMknod t T filename mode
  | .unlink pathname => Reply.ofErrno <$> sysUnlink t T pathname
  | .rmdir pathname => Reply.ofErrno <$> sysRmdir t T pathname
  | .link oldname newname => Reply.ofErrno <$> sysLink t T oldname newname
  | .symlink newname => Reply.ofErrno <$> sysSymlink t T newname
  | .rename oldname newname => Reply.ofErrno <$> sysRename t T after oldname newname
  | .opens filename flags =>
      (fun r => match r with | .ok i => .opened i | .error e => .error e) <$>
        sysOpen t T filename flags
  | .chdir filename =>
      (fun r => match r with | .ok t' => .moved t' | .error e => .error e) <$>
        sysChdir t T filename
  | .execve filename =>
      (fun r => match r with | none => .executed | some e => .error e) <$>
        sysExecve t T filename

/-- What a call may do to the counts: `open` adds one reference to the file it has
opened, `chdir` moves one, and no other call changes any count.  Nothing is asked
of an `execve` that succeeds. -/
def Balanced (t : TaskStruct ι) (s : ι → ℕ) : Reply ι → (ι → ℕ) → Prop
  | .opened i, s' => s' = s + one i
  | .moved t', s' => s' + one t.pwd = s + one t'.pwd
  | .executed, _ => True
  | .error _, s' => s' = s
  | .done, s' => s' = s

/-- When a call keeps no reference that it should have dropped. -/
def PathCall.Clean (t : TaskStruct ι) (T : FileTree ι) : PathCall → Prop
  | .access filename mode =>
      mode = mode &&& 7 → ∀ i, T.namei t.real filename .any mode ≠ .ok i
  | .chmod filename =>
      ∀ i, T.namei t filename .any 0 = .ok i →
        (T.inode i).isRdonly ∨ t.owns (T.inode i)
  | .mknod filename mode =>
      mknodMode t mode = none → ∀ dir, T.dirOfPath t filename ≠ .ok (dir, [])
  | .link oldname newname | .rename oldname newname =>
      ∀ i e, T.namei t oldname .any 0 = .ok i → T.dirOfPath t newname ≠ .error e
  | .execve filename =>
      ∀ i, T.openIn t (T.follow t linkMax) filename 0 t.pwd = .ok i →
        T.fopOpen i = none ∧ T.load i = none
  | _ => True

end Code

/-! ## What each call does to the counts -/

section Results

variable {ι : Type} [DecidableEq ι] {t : TaskStruct ι} {T after : FileTree ι}
  {run : ι → Name → Walk ι (Option Errno)} {op : InodeOperations → Bool} {clean : Prop}

/-- Nothing is lost if `clean` holds, and otherwise one reference. -/
def Loses (clean : Prop) (h : ι → ℕ) : Prop :=
  (clean ∧ h = 0) ∨ (¬ clean ∧ ∃ i, h = one i)

theorem Loses.none (hc : clean) :
    Loses clean (0 : ι → ℕ) :=
  .inl ⟨hc, rfl⟩

theorem Loses.one {i : ι} (hc : ¬ clean) :
    Loses clean (one i) :=
  .inr ⟨hc, i, rfl⟩

theorem Loses.clean_of_zero (h : Loses clean (0 : ι → ℕ)) : clean := by
  rcases h with ⟨hc, _⟩ | ⟨_, i, hi⟩
  · exact hc
  · exact absurd hi.symm (by rw [← zero_add (Lib.one i)]; exact add_one_ne 0 i)

theorem Loses.kept_iff {h s : ι → ℕ} (hl : Loses clean h) : s + h = s ↔ clean := by
  rcases hl with ⟨hc, rfl⟩ | ⟨hc, i, rfl⟩
  · exact iff_of_true (add_zero s) hc
  · exact iff_of_false (add_one_ne s i) hc

theorem inDir_moves (hrun : ∀ dir name, Moves (run dir name) (one dir) fun _ h => h = 0) (dir : ι)
    (name : Name) : Moves (inDir t T op run dir name) 0 fun _ h => h = 0 := by
  unfold inDir
  cases permission t (T.inode dir) (mayWrite ||| mayExec) with
  | some error => exact Trades.pure rfl
  | none =>
      refine Trades.ite (fun _ => Trades.pure rfl) fun _ => Moves.iref ?_
      rw [zero_add]
      exact hrun dir name

theorem makeEntry_moves (hrun : ∀ dir name, Moves (run dir name) (one dir) fun _ h => h = 0)
    (path : Path) : Moves (makeEntry t T op run path) 0 fun _ h => h = 0 := by
  refine Trades.bind (dirNamei_moves t T path) ?_
  rintro r h ⟨rfl, rfl⟩
  cases T.dirOfPath t path with
  | error e => exact Trades.pure rfl
  | ok found =>
      obtain ⟨dir, name⟩ := found
      refine Trades.call (h := 0) (R := fun _ k => k = 0) (one dir) (add_zero _).symm ?_ ?_
      · exact Trades.ite (fun _ => Trades.pure rfl) fun _ => inDir_moves hrun dir name
      · rintro a k rfl
        exact Moves.iput (add_comm _ _) (Trades.pure rfl)

theorem doRmthing_moves (hrun : ∀ dir name, Moves (run dir name) (one dir) fun _ h => h = 0)
    (path : Path) : Moves (doRmthing t T op run path) 0 fun _ h => h = 0 := by
  refine Trades.bind (dirNamei_moves t T path) ?_
  rintro r h ⟨rfl, rfl⟩
  cases T.dirOfPath t path with
  | error e => exact Trades.pure rfl
  | ok found =>
      obtain ⟨dir, name⟩ := found
      refine Trades.ite (fun _ => Moves.iputs rfl) fun _ => ?_
      cases permission t (T.inode dir) (mayWrite ||| mayExec) with
      | some error => exact Moves.iputs rfl
      | none => exact Trades.ite (fun _ => hrun dir name) fun _ => Moves.iputs rfl

theorem sysMknod_moves (filename : Path) (mode : Nat) :
    Moves (sysMknod t T filename mode) 0 fun _ h =>
      Loses ((PathCall.mknod filename mode).Clean t T) h := by
  unfold sysMknod
  simp only [PathCall.Clean]
  cases mknodMode t mode with
  | some error => exact Trades.pure (Loses.none fun he => by cases he)
  | none =>
      refine Trades.bind (dirNamei_moves t T filename) ?_
      rintro r h ⟨rfl, rfl⟩
      cases T.dirOfPath t filename with
      | error e => exact Trades.pure (Loses.none fun _ _ he => by cases he)
      | ok found =>
          obtain ⟨dir, name⟩ := found
          refine Trades.ite (fun hname => ?_) fun hname => ?_
          · subst hname
            exact Trades.pure (Loses.one fun hc => hc rfl dir rfl)
          · refine Trades.call (one dir) (add_zero _).symm
              (inDir_moves (minixMknod_moves T) dir name) ?_
            rintro a k rfl
            refine Moves.iput (add_comm _ _) (Trades.pure (Loses.none fun _ _ he => ?_))
            exact hname (Prod.mk.inj (Except.ok.inj he)).2

theorem sysLink_moves (oldname newname : Path) :
    Moves (sysLink t T oldname newname) 0 fun r h =>
      Loses ((PathCall.link oldname newname).Clean t T) h ∧ (r = none → h = 0) := by
  simp only [PathCall.Clean]
  refine Moves.found (zero_add _).symm (namei_moves t T oldname .any 0) ?_ ?_
  · intro oldinode hold
    rw [zero_add]
    refine Trades.call (one oldinode) (add_zero _).symm (dirNamei_moves t T newname) ?_
    rintro r h ⟨rfl, rfl⟩
    cases hdir : T.dirOfPath t newname with
    | error e =>
        refine Trades.pure ⟨?_, fun he => (by cases he)⟩
        exact Loses.one fun hc => hc oldinode e hold rfl
    | ok found =>
        obtain ⟨dir, name⟩ := found
        have hclean : ∀ i e, T.namei t oldname .any 0 = .ok i →
            (.ok (dir, name) : Except Errno (ι × Name)) ≠ .error e :=
          fun _ _ _ he => by cases he
        simp only
        cases linkCheck t T oldinode dir name with
        | some error =>
            refine Moves.iputs_two ?_
            exact ⟨Loses.none hclean, fun _ => rfl⟩
        | none =>
            refine Moves.iref (Trades.call (one dir) ?_ (minixLink_moves T oldinode dir name) ?_)
            · exact (add_right_comm _ _ _).trans (add_comm _ _)
            · rintro a k rfl
              exact Moves.iput (add_comm _ _) (Trades.pure ⟨Loses.none hclean, fun _ => rfl⟩)
  · intro e he
    refine Trades.pure ⟨Loses.none fun i e' hi _ => ?_, fun _ => rfl⟩
    rw [he] at hi
    cases hi

theorem sysRename_moves (oldname newname : Path) :
    Moves (sysRename t T after oldname newname) 0 fun _ h =>
      Loses ((PathCall.rename oldname newname).Clean t T) h := by
  refine Trades.bind (sysLink_moves oldname newname) ?_
  rintro r h ⟨hl, hr⟩
  cases r with
  | some err => exact Trades.pure hl
  | none =>
      obtain rfl := hr rfl
      refine (doRmthing_moves (minixUnlink_moves t after) oldname).mono ?_
      rintro r h rfl
      exact Loses.none hl.clean_of_zero

theorem findsAndDrops_moves {α : Type} {m : Walk ι (Except Errno ι)} {found : Except Errno ι}
    (hm : Moves m 0 (Finds found)) (f : Errno → α) (g : ι → α) :
    Moves
      (do
        match ← m with
        | .error e => pure (f e)
        | .ok i => do
            iput i
            pure (g i))
      0 fun _ h => h = 0 := by
  refine Moves.found (zero_add _).symm hm ?_ ?_
  · intro i _
    exact Moves.iput rfl (Trades.pure rfl)
  · intro e _
    exact Trades.pure rfl

theorem sysAccess_moves (filename : Path) (mode : Nat) :
    Moves (sysAccess t T filename mode) 0 fun _ h =>
      Loses ((PathCall.access filename mode).Clean t T) h := by
  simp only [PathCall.Clean]
  refine Trades.ite (fun hmode => ?_) fun hmode => ?_
  · exact Trades.pure (Loses.none fun he => absurd he hmode)
  · have hmode := not_not.mp hmode
    refine Moves.found (zero_add _).symm (namei_moves t.real T filename .any mode) ?_ ?_
    · intro i hi
      rw [zero_add]
      exact Trades.pure (Loses.one fun hc => hc hmode i hi)
    · intro e he
      refine Trades.pure (Loses.none fun _ i hi => ?_)
      rw [he] at hi
      cases hi

theorem sysChmod_moves (filename : Path) :
    Moves (sysChmod t T filename) 0 fun _ h =>
      Loses ((PathCall.chmod filename).Clean t T) h := by
  simp only [PathCall.Clean]
  refine Moves.found (zero_add _).symm (namei_moves t T filename .any 0) ?_ ?_
  · intro i hi
    have hsame : ∀ j, T.namei t filename .any 0 = .ok j → j = i :=
      fun j hj => Except.ok.inj (hj.symm.trans hi)
    rw [zero_add]
    refine Trades.ite (fun hro => ?_) fun hro => Trades.ite (fun howns => ?_) fun howns => ?_
    · exact Moves.iputs (Loses.none fun j hj => hsame j hj ▸ .inl hro)
    · exact Trades.pure (Loses.one fun hc => (hc i hi).elim hro howns)
    · exact Moves.iputs (Loses.none fun j hj => hsame j hj ▸ .inr (not_not.mp howns))
  · intro e he
    refine Trades.pure (Loses.none fun i hi => ?_)
    rw [he] at hi
    cases hi

theorem sysReadlink_moves (path : Path) (buf : Option Errno) (bufsiz : Nat) :
    Moves (sysReadlink t T path buf bufsiz) 0 fun _ h => h = 0 := by
  refine Trades.ite (fun _ => Trades.pure rfl) fun _ => ?_
  cases buf with
  | some error => exact Trades.pure rfl
  | none =>
      refine Moves.found (zero_add _).symm (innerNamei_moves t T path false) ?_ ?_
      · intro i _
        rw [zero_add]
        exact Trades.ite (fun _ => Moves.iputs rfl) fun _ => minixReadlink_moves T i bufsiz
      · intro e _
        exact Trades.pure rfl

theorem sysOpen_moves (filename : Path) (flags : Nat) :
    Moves (sysOpen t T filename flags) 0 fun r h => h = hand r := by
  refine Trades.ite (fun _ => Trades.pure rfl) fun _ => ?_
  refine Trades.bind (openNamei_moves t T filename (openFlag flags)) ?_
  rintro r h ⟨rfl, _⟩
  cases r with
  | error e => exact Trades.pure rfl
  | ok i =>
      simp only
      cases (if T.has (·.defaultFileOps) i then T.fopOpen i else none) with
      | some error => exact Moves.iputs rfl
      | none => exact Trades.ite (fun _ => Trades.pure rfl) fun _ => Moves.iputs rfl

theorem sysChdir_moves (filename : Path) :
    Moves (sysChdir t T filename) (one t.pwd) fun r h =>
      h = match r with
        | .ok t' => one t'.pwd
        | .error _ => one t.pwd := by
  refine Moves.found (add_zero _).symm (namei_moves t T filename .isDir mayExec) ?_ ?_
  · intro i _
    exact Moves.iput (add_comm _ _) (Trades.pure rfl)
  · intro e _
    exact Trades.pure rfl

theorem sysExecve_outcome (filename : Path) (s : ι → ℕ) :
    Outcome (fun _ => True) (sysExecve t T filename) s fun r s' =>
      (r = none → (PathCall.execve filename).Clean t T) ∧
        ∀ e, r = some e →
          ∃ h, s' = s + h ∧ Loses ((PathCall.execve filename).Clean t T) h := by
  simp only [PathCall.Clean]
  have hopen := openNamei_moves t T filename 0 s
  rw [add_zero] at hopen
  refine hopen.bind ?_
  rintro r s' ⟨h, rfl, rfl, hr⟩
  simp only [← hr rfl]
  cases r with
  | error e =>
      refine Outcome.pure ⟨fun he => (by cases he), fun _ _ => ⟨0, rfl, Loses.none fun i hi => ?_⟩⟩
      cases hi
  | ok i =>
      refine Outcome.ite (fun _ => Outcome.throw trivial) fun _ => ?_
      cases hfop : T.fopOpen i with
      | some e =>
          refine Outcome.pure ⟨fun he => (by cases he), fun _ _ => ⟨one i, rfl, Loses.one fun hc => ?_⟩⟩
          rw [(hc i rfl).1] at hfop
          cases hfop
      | none =>
          cases hload : T.load i with
          | some e =>
              refine Outcome.pure
                ⟨fun he => (by cases he), fun _ _ => ⟨one i, rfl, Loses.one fun hc => ?_⟩⟩
              rw [(hc i rfl).2] at hload
              cases hload
          | none =>
              refine Outcome.bind (R := fun _ _ => True) ?_ fun _ _ _ =>
                Outcome.pure ⟨fun _ j hj => ?_, fun _ he => by cases he⟩
              · unfold Outcome
                cases closeFiles t.closeOnExec (s + hand (.ok i)) with
                | ok r => trivial
                | error e => trivial
              · exact Except.ok.inj hj ▸ ⟨hfop, hload⟩

end Results

/-! ## The counts of every call -/

section Calls

variable {ι : Type} [DecidableEq ι] {t : TaskStruct ι} {T after : FileTree ι}
  {m : Walk ι (Option Errno)} {filename : Path}
variable {s s' : ι → ℕ} {r : Reply ι}

theorem balanced_iff_of_moves {clean : Prop} (hm : Moves m 0 fun _ h => Loses clean h)
    (hrun : (Reply.ofErrno <$> m) s = .ok (r, s')) : Balanced t s r s' ↔ clean := by
  obtain ⟨a, ha, rfl⟩ := run_map_ok hrun
  obtain ⟨h, rfl, hl⟩ := hm.run ha
  rw [← hl.kept_iff (s := s)]
  cases a with
  | none => exact Iff.rfl
  | some e => exact Iff.rfl

theorem balanced_of_moves (hm : Moves m 0 fun _ h => h = 0)
    (hrun : (Reply.ofErrno <$> m) s = .ok (r, s')) : Balanced t s r s' ↔ True := by
  refine balanced_iff_of_moves (hm.mono ?_) hrun
  rintro a h rfl
  exact Loses.none trivial

theorem opens_balanced {flags : Nat}
    (hrun : (PathCall.opens filename flags).run t T after s = .ok (r, s')) : Balanced t s r s' := by
  obtain ⟨a, ha, rfl⟩ := run_map_ok hrun
  obtain ⟨h, rfl, rfl⟩ := (sysOpen_moves filename flags).run ha
  cases a with
  | ok i => exact rfl
  | error e => exact add_zero s

theorem chdir_balanced (hpwd : 0 < s t.pwd)
    (hrun : (PathCall.chdir filename).run t T after s = .ok (r, s')) : Balanced t s r s' := by
  obtain ⟨a, ha, rfl⟩ := run_map_ok hrun
  obtain ⟨b, rfl⟩ := exists_add_one_of_pos hpwd
  obtain ⟨h, rfl, rfl⟩ := (sysChdir_moves filename b).of_ok ha
  cases a with
  | ok t' => exact add_right_comm b (one t'.pwd) (one t.pwd)
  | error e => exact rfl

theorem execve_balanced_iff (hrun : (PathCall.execve filename).run t T after s = .ok (r, s')) :
    Balanced t s r s' ↔ (PathCall.execve filename).Clean t T := by
  obtain ⟨a, ha, rfl⟩ := run_map_ok hrun
  have hs := (sysExecve_outcome filename s).of_ok ha
  cases a with
  | none => exact iff_of_true trivial (hs.1 rfl)
  | some e =>
      obtain ⟨h, rfl, hl⟩ := hs.2 e rfl
      exact hl.kept_iff

theorem readlink_balanced {path : Path} {buf : Option Errno} {bufsiz : Nat}
    (hrun : (PathCall.readlink path buf bufsiz).run t T after s = .ok (r, s')) :
    Balanced t s r s' := by
  obtain ⟨a, ha, rfl⟩ := run_map_ok hrun
  obtain ⟨h, rfl, rfl⟩ := (sysReadlink_moves path buf bufsiz).run ha
  cases a with
  | ok n => exact add_zero s
  | error e => exact add_zero s

/-- A call that returns leaves the counts as it should exactly when it is clean,
for every tree, every path and every outcome. -/
theorem pathCall_balanced_iff
    (t : TaskStruct ι)
    (T after : FileTree ι)
    (call : PathCall)
    (s s' : ι → ℕ)
    (r : Reply ι)
    (hpwd : 0 < s t.pwd)
    (hrun : call.run t T after s = .ok (r, s')) :
    Balanced t s r s' ↔ call.Clean t T := by
  cases call with
  | stat filename statbuf =>
      exact balanced_of_moves
        (findsAndDrops_moves (namei_moves t T filename .any 0) _ _) hrun
  | lstat filename statbuf =>
      exact balanced_of_moves
        (findsAndDrops_moves (innerNamei_moves t T filename false) _ _) hrun
  | readlink path buf bufsiz => exact iff_of_true (readlink_balanced hrun) trivial
  | access filename mode => exact balanced_iff_of_moves (sysAccess_moves filename mode) hrun
  | chmod filename => exact balanced_iff_of_moves (sysChmod_moves filename) hrun
  | chown filename =>
      exact balanced_of_moves
        (findsAndDrops_moves (innerNamei_moves t T filename false) _ _) hrun
  | utime filename =>
      exact balanced_of_moves
        (findsAndDrops_moves (namei_moves t T filename .any 0) _ _) hrun
  | mkdir pathname => exact balanced_of_moves (makeEntry_moves (minixMkdir_moves T) pathname) hrun
  | mknod filename mode => exact balanced_iff_of_moves (sysMknod_moves filename mode) hrun
  | unlink pathname =>
      exact balanced_of_moves (doRmthing_moves (minixUnlink_moves t T) pathname) hrun
  | rmdir pathname =>
      exact balanced_of_moves (doRmthing_moves (minixRmdir_moves t T) pathname) hrun
  | link oldname newname =>
      refine balanced_iff_of_moves ((sysLink_moves oldname newname).mono ?_) hrun
      exact fun _ _ h => h.1
  | symlink newname =>
      exact balanced_of_moves (makeEntry_moves (minixSymlink_moves T) newname) hrun
  | rename oldname newname =>
      exact balanced_iff_of_moves (sysRename_moves oldname newname) hrun
  | opens filename flags => exact iff_of_true (opens_balanced hrun) trivial
  | chdir filename => exact iff_of_true (chdir_balanced hpwd hrun) trivial
  | execve filename => exact execve_balanced_iff hrun

/-- A tree that is one empty directory. -/
def rootTree : FileTree Unit where
  inode _ :=
    { iMode := sIfdir ||| 0o755
      iUid := 0
      iGid := 0
      iNlink := 2
      iIno := 1
      iDev := 0x100
      iOp := some minixDirInodeOperations
      iMount := none
      isMounted := true
      sCovered := none
      isRdonly := false
      isNodev := false }
  entry _ _ := none
  linkBlock _ := none
  linkPath _ := []
  unused _ := none
  unused_zero _ _ h := nomatch h
  freeIno := false
  freeZone := false
  addEntry _ _ := some .enospc
  emptyDir _ := true
  fopOpen _ := none
  load _ := some .enoexec

/-- An ordinary task in the root directory. -/
def rootTask : TaskStruct Unit where
  root := ()
  pwd := ()
  uid := 1
  gid := 1
  euid := 1
  egid := 1
  emptyFilp := true
  unusedFd := true
  closeOnExec := []

theorem stat_balanced_root :
    Balanced rootTask (fun _ => 2) .done (fun _ => 2) ↔
      (PathCall.stat [slash] none).Clean rootTask rootTree :=
  pathCall_balanced_iff rootTask rootTree rootTree (.stat [slash] none)
    (fun _ => 2) (fun _ => 2) .done (by decide) rfl

/-- `access("/", 0)` succeeds and the count of the root goes up. -/
theorem access_unbalanced_root :
    (PathCall.access [slash] 0).run rootTask rootTree rootTree (fun _ => 2) =
        .ok (.done, fun _ => 3) ∧
      ¬ Balanced rootTask (fun _ => 2) .done (fun _ => 3) :=
  ⟨rfl, fun h => absurd (congrFun h ()) (by decide)⟩

end Calls

end Namei
end Elks
