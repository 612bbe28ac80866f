import Elks.Lib.Refs
import Elks.Minix.Super

/-!
# A file tree and its references (fs/namei.c, fs/inode.c, include/linuxmt/fs.h)

What the path system calls read, and the counts they keep.

**Tree.**  `FileTree` is the mounted file systems as the calls see them: the
inodes, what the directories and the symbolic links hold, and how a change of a
directory comes out.  It stands still while one call runs.

**Table.**  The state is `i_count` of every inode, a 16-bit counter.

**Faults.**  A call does not come back when it panics, when `i_count` would wrap,
when it uses an operation table that is `NULL`, when it sleeps for an unused
inode, or when it repeats for ever.
-/

namespace Elks
namespace Namei

open Lib
open Minix (Errno hasFormat sIfdir sIflnk sIfblk sIfchr sIfifo)

/-- A file name, without `/` and without NUL. -/
abbrev Name :=
  List UInt8

/-- A path, up to its NUL. -/
abbrev Path :=
  List UInt8

/-- `'/'`. -/
def slash : UInt8 :=
  47

/-- `".."`. -/
def dotdot : Name :=
  [46, 46]

/-- Why a call does not come back. -/
inductive Halt
  | panic
  | wraps
  | nullOps
  | sleeps
  | spins
deriving DecidableEq, Repr

/-- Which pointers of `struct inode_operations` are set. -/
structure InodeOperations where
  defaultFileOps : Bool
  create : Bool
  lookup : Bool
  link : Bool
  unlink : Bool
  symlink : Bool
  mkdir : Bool
  rmdir : Bool
  mknod : Bool
  readlink : Bool
  followLink : Bool

/-- `minix_file_inode_operations`. -/
def minixFileInodeOperations : InodeOperations where
  defaultFileOps := true
  create := false
  lookup := false
  link := false
  unlink := false
  symlink := false
  mkdir := false
  rmdir := false
  mknod := false
  readlink := false
  followLink := false

/-- `minix_dir_inode_operations`. -/
def minixDirInodeOperations : InodeOperations where
  defaultFileOps := true
  create := true
  lookup := true
  link := true
  unlink := true
  symlink := true
  mkdir := true
  rmdir := true
  mknod := true
  readlink := false
  followLink := false

/-- `minix_symlink_inode_operations`. -/
def minixSymlinkInodeOperations : InodeOperations where
  defaultFileOps := false
  create := false
  lookup := false
  link := false
  unlink := false
  symlink := false
  mkdir := false
  rmdir := false
  mknod := false
  readlink := true
  followLink := true

/-- `struct inode`, as the path calls read it.  `isMounted` says that the inode is
`s_mounted` of its superblock and `sCovered` is then its `s_covered`;
`isRdonly` and `isNodev` are `IS_RDONLY` and `IS_NODEV`. -/
structure Node (ι : Type) where
  iMode : Nat
  iUid : Nat
  iGid : Nat
  iNlink : Nat
  iIno : Nat
  iDev : Nat
  iOp : Option InodeOperations
  iMount : Option ι
  isMounted : Bool
  sCovered : Option ι
  isRdonly : Bool
  isNodev : Bool

/-- The mounted file systems.

* `entry` is `minix_find_entry` followed by a search for the inode of the number
  found; every entry of a tree names an inode that its file system has.
* `linkBlock` is the text in block 0 of a symbolic link, if `minix_bread` returns
  the block, and `linkPath` what `open_namei` reads at the address of that block.
* `unused` is the search of `get_empty_inode`; it finds inodes with count 0 only.
* `freeIno`, `freeZone`, `addEntry` and `emptyDir` say how `minix_new_inode`,
  `minix_bread` of a first block, `minix_add_entry` and `empty_dir` come out.
* `fopOpen` is the driver's answer to `open`, `load` what reading an image and
  making room for it comes to. -/
structure FileTree (ι : Type) where
  inode : ι → Node ι
  entry : ι → Name → Option ι
  linkBlock : ι → Option (List UInt8)
  linkPath : ι → Path
  unused : (ι → ℕ) → Option ι
  unused_zero : ∀ c i, unused c = some i → c i = 0
  freeIno : Bool
  freeZone : Bool
  addEntry : ι → Name → Option Errno
  emptyDir : ι → Bool
  fopOpen : ι → Option Errno
  load : ι → Option Errno

/-- The task that calls. -/
structure TaskStruct (ι : Type) where
  root : ι
  pwd : ι
  uid : Nat
  gid : Nat
  euid : Nat
  egid : Nat
  emptyFilp : Bool
  unusedFd : Bool
  closeOnExec : List ι

/-- A routine over the inode table. -/
abbrev Walk (ι α : Type) :=
  RoutineOf Halt (ι → ℕ) α

section Tree

variable {ι : Type} [DecidableEq ι]

/-- `inode->i_op->op`, where the pointer is set. -/
def FileTree.has (T : FileTree ι) (op : InodeOperations → Bool) (i : ι) : Bool :=
  (T.inode i).iOp.any op

/-- `S_ISDIR(inode->i_mode)` and the other tests. -/
def FileTree.isA (T : FileTree ι) (format : Nat) (i : ι) : Bool :=
  hasFormat format (T.inode i).iMode

/-- `MAY_EXEC`. -/
def mayExec : Nat := 1

/-- `MAY_WRITE`. -/
def mayWrite : Nat := 2

/-- `suser`. -/
def TaskStruct.suser (t : TaskStruct ι) : Bool :=
  t.euid == 0

/-- `permission`. -/
def permission (t : TaskStruct ι) (inode : Node ι) (mask : Nat) : Option Errno :=
  if mask &&& mayWrite ≠ 0 ∧ inode.isRdonly then
    some .erofs
  else
    let mode :=
      if t.euid = inode.iUid then inode.iMode >>> 6
      else if inode.iGid = t.egid then inode.iMode >>> 3
      else inode.iMode
    if mode &&& mask &&& 7 = mask ∨ t.suser then none else some .eacces

/-- `inode->i_count++`. -/
def iref (i : ι) : Walk ι Unit :=
  takeRef 65536 .wraps i

/-- `iput`.  The inode that is dropped for good is written back, or freed if it
has no links; its count is 0 then. -/
def iput (i : ι) : Walk ι Unit :=
  dropRef i

/-- `get_empty_inode`. -/
def getEmptyInode (T : FileTree ι) : Walk ι ι :=
  claimRef T.unused .sleeps

/-- `__iget` of an inode that the tree has: the one mounted on it is returned in
its place. -/
def iget (T : FileTree ι) (i : ι) : Walk ι ι := do
  iref i
  match (T.inode i).iMount with
  | some tmp => do
      iref tmp
      iput i
      pure tmp
  | none => pure i

/-- The inode that `iget` returns. -/
def FileTree.got (T : FileTree ι) (i : ι) : ι :=
  (T.inode i).iMount.getD i

/-- What a directory holds under a name. -/
def FileTree.child (T : FileTree ι) (dir : ι) (name : Name) : Except Errno ι :=
  if T.isA sIfdir dir then
    match T.entry dir name with
    | some ino => .ok (T.got ino)
    | none => .error .enoent
  else .error .enoent

/-- The reference that comes with a result. -/
def hand : Except Errno ι → ι → ℕ
  | .ok i => one i
  | .error _ => 0

/-- How a routine of the table is described: every halt is allowed. -/
abbrev Moves
    {α : Type}
    (m : Walk ι α)
    (h : ι → ℕ)
    (post : α → (ι → ℕ) → Prop) : Prop :=
  Trades (fun _ => True) m h post

/-- The same in a table that counts `b` besides. -/
abbrev MovesIn
    {α : Type}
    (b : ι → ℕ)
    (m : Walk ι α)
    (h : ι → ℕ)
    (post : α → (ι → ℕ) → Prop) : Prop :=
  TradesIn (fun _ => True) b m h post

variable {α : Type} {h : ι → ℕ} {post : α → (ι → ℕ) → Prop} {i : ι}

theorem Moves.iref {f : Unit → Walk ι α} (hf : Moves (f ()) (h + one i) post) :
    Moves (iref i >>= f) h post :=
  Trades.take trivial hf

theorem Moves.iput {k : ι → ℕ} {f : Unit → Walk ι α} (hk : k = h + one i)
    (hf : Moves (f ()) h post) :
    Moves (iput i >>= f) k post :=
  Trades.drop hk hf

theorem Moves.getEmptyInode {T : FileTree ι} {f : ι → Walk ι α}
    (hf : ∀ i, Moves (f i) (h + one i) post) :
    Moves (getEmptyInode T >>= f) h post :=
  Trades.claim T.unused_zero trivial hf

theorem Moves.iget {T : FileTree ι} {f : ι → Walk ι α}
    (hf : Moves (f (T.got i)) (h + one (T.got i)) post) : Moves (iget T i >>= f) h post := by
  refine Trades.bind (R := fun a k => a = T.got i ∧ k = h + one (T.got i)) ?_ ?_
  · refine Moves.iref ?_
    unfold FileTree.got
    cases (T.inode i).iMount with
    | some tmp =>
        refine Moves.iref (Moves.iput (add_right_comm h (one i) (one tmp)) ?_)
        exact Trades.pure ⟨rfl, rfl⟩
    | none => exact Trades.pure ⟨rfl, rfl⟩
  · rintro a k ⟨rfl, rfl⟩
    exact hf

end Tree

end Namei
end Elks
