import Elks.Vfs.Tree

/-!
# The references of the Minix directory code (fs/minix/namei.c, fs/minix/symlink.c)

Each function of the directory code is handed references to inodes and has to
drop them on every one of its exits.

* `minix_lookup` trades the directory for the inode found.
* `minix_create` trades the directory for the new inode.
* The other functions drop what they are handed and keep nothing.
-/

namespace Elks
namespace Namei

open Lib
open Minix (Errno hasFormat sIfdir sIflnk)

section Directory

variable {ι : Type} [DecidableEq ι]

/-- `MINIX_LINK_MAX`. -/
def minixLinkMax : Nat := 250

/-- `S_ISVTX`. -/
def sIsvtx : Nat := 0o1000

/-- `minix_lookup`.  `iget` waits for an inode rather than return `NULL`. -/
def minixLookup (T : FileTree ι) (dir : ι) (name : Name) :
    Walk ι (Except Errno ι) :=
  if T.isA sIfdir dir then
    match T.entry dir name with
    | some ino => do
        let result ← iget T ino
        iput dir
        pure (.ok result)
    | none => do
        iput dir
        pure (.error .enoent)
  else do
    iput dir
    pure (.error .enoent)

/-- `minix_new_inode`. -/
def minixNewInode (T : FileTree ι) : Walk ι (Option ι) := do
  let inode ← getEmptyInode T
  if T.freeIno then
    pure (some inode)
  else do
    iput inode
    pure none

/-- `minix_create`. -/
def minixCreate (T : FileTree ι) (dir : ι) (name : Name) :
    Walk ι (Except Errno ι) := do
  match ← minixNewInode T with
  | none => do
      iput dir
      pure (.error .enospc)
  | some inode =>
      match T.addEntry dir name with
      | some error => do
          iput inode
          iput dir
          pure (.error error)
      | none => do
          iput dir
          pure (.ok inode)

/-- `minix_mknod`. -/
def minixMknod (T : FileTree ι) (dir : ι) (name : Name) :
    Walk ι (Option Errno) :=
  match T.entry dir name with
  | some _ => do
      iput dir
      pure (some .eexist)
  | none => do
      match ← minixNewInode T with
      | none => do
          iput dir
          pure (some .enospc)
      | some inode =>
          match T.addEntry dir name with
          | some error => do
              iput inode
              iput dir
              pure (some error)
          | none => do
              iput dir
              iput inode
              pure none

/-- `minix_mkdir`. -/
def minixMkdir (T : FileTree ι) (dir : ι) (name : Name) :
    Walk ι (Option Errno) :=
  match T.entry dir name with
  | some _ => do
      iput dir
      pure (some .eexist)
  | none =>
      if minixLinkMax ≤ (T.inode dir).iNlink then do
        iput dir
        pure (some .emlink)
      else do
        match ← minixNewInode T with
        | none => do
            iput dir
            pure (some .enospc)
        | some inode =>
            if T.freeZone then
              match T.addEntry dir name with
              | some error => do
                  iput dir
                  iput inode
                  pure (some error)
              | none => do
                  iput dir
                  iput inode
                  pure none
            else do
              iput dir
              iput inode
              pure (some .enospc)

/-- A directory with the sticky bit protects the entries of others. -/
def sticky (t : TaskStruct ι) (dir inode : Node ι) : Bool :=
  dir.iMode &&& sIsvtx ≠ 0 && !t.suser && t.euid ≠ inode.iUid && t.euid ≠ dir.iUid

/-- What `minix_rmdir` finds out about the inode that the entry names, with the
count of that inode. -/
def rmdirCheck (t : TaskStruct ι) (T : FileTree ι) (dir ino inode : ι) (count : ℕ) :
    Option Errno :=
  if sticky t (T.inode dir) (T.inode inode) then some .eperm
  else if (T.inode inode).iDev ≠ (T.inode dir).iDev then some .eperm
  else if inode = dir then some .eperm
  else if ¬ T.isA sIfdir inode then some .enotdir
  else if ¬ T.emptyDir inode then some .enotempty
  else if (T.inode ino).iIno ≠ (T.inode inode).iIno then some .enoent
  else if 1 < count then some .ebusy
  else none

/-- `minix_rmdir`. -/
def minixRmdir (t : TaskStruct ι) (T : FileTree ι) (dir : ι) (name : Name) :
    Walk ι (Option Errno) :=
  match T.entry dir name with
  | none => do
      iput dir
      pure (some .enoent)
  | some ino => do
      let inode ← iget T ino
      let iCount ← get
      iput dir
      iput inode
      pure (rmdirCheck t T dir ino inode (iCount inode))

/-- `minix_unlink`.  An entry whose number is not that of the inode is looked up
again, and nothing changes it meanwhile. -/
def minixUnlink (t : TaskStruct ι) (T : FileTree ι) (dir : ι) (name : Name) :
    Walk ι (Option Errno) :=
  match T.entry dir name with
  | none => do
      iput dir
      pure (some .enoent)
  | some ino => do
      let inode ← iget T ino
      if T.isA sIfdir inode then do
        iput inode
        iput dir
        pure (some .eperm)
      else if (T.inode ino).iIno ≠ (T.inode inode).iIno then do
        iput inode
        throw .spins
      else do
        iput inode
        iput dir
        pure (if sticky t (T.inode dir) (T.inode inode) then some .eperm else none)

/-- `minix_symlink`. -/
def minixSymlink (T : FileTree ι) (dir : ι) (name : Name) :
    Walk ι (Option Errno) := do
  match ← minixNewInode T with
  | none => do
      iput dir
      pure (some .enospc)
  | some inode =>
      if T.freeZone then
        match T.entry dir name with
        | some _ => do
            iput inode
            iput dir
            pure (some .eexist)
        | none =>
            match T.addEntry dir name with
            | some error => do
                iput inode
                iput dir
                pure (some error)
            | none => do
                iput dir
                iput inode
                pure none
      else do
        iput dir
        iput inode
        pure (some .enospc)

/-- `minix_link`. -/
def minixLink (T : FileTree ι) (oldinode dir : ι) (name : Name) :
    Walk ι (Option Errno) :=
  if T.isA sIfdir oldinode then do
    iput oldinode
    iput dir
    pure (some .eperm)
  else if minixLinkMax ≤ (T.inode oldinode).iNlink then do
    iput oldinode
    iput dir
    pure (some .emlink)
  else
    match T.entry dir name with
    | some _ => do
        iput dir
        iput oldinode
        pure (some .eexist)
    | none =>
        match T.addEntry dir name with
        | some error => do
            iput dir
            iput oldinode
            pure (some error)
        | none => do
            iput dir
            iput oldinode
            pure none

/-- `minix_readlink`, with its length or its error. -/
def minixReadlink (T : FileTree ι) (inode : ι) (buflen : Nat) :
    Walk ι (Except Errno Nat) :=
  if T.isA sIflnk inode then do
    iput inode
    pure (.ok (min (min buflen 1023) ((T.linkBlock inode).elim 0 List.length)))
  else do
    iput inode
    pure (.error .einval)

variable {α : Type} {T : FileTree ι} {h : ι → ℕ} {post : α → (ι → ℕ) → Prop}

theorem Moves.iputs {i : ι} {a : α} (hp : post a 0) :
    Moves (do Namei.iput i; pure a) (one i) post :=
  Moves.iput (zero_add _).symm (Trades.pure hp)

theorem Moves.iputs_two {i j : ι} {a : α} (hp : post a 0) :
    Moves (do Namei.iput i; Namei.iput j; pure a) (one i + one j) post :=
  Moves.iput (add_comm _ _) (Moves.iputs hp)

theorem Moves.iputs_swap {i j : ι} {a : α} (hp : post a 0) :
    Moves (do Namei.iput j; Namei.iput i; pure a) (one i + one j) post :=
  Moves.iput rfl (Moves.iputs hp)

theorem Moves.minixNewInode {f : Option ι → Walk ι α}
    (hsome : ∀ i, Moves (f (some i)) (h + one i) post) (hnone : Moves (f none) h post) :
    Moves (minixNewInode T >>= f) h post := by
  refine Trades.bind (R := fun r k => r = none ∧ k = h ∨
    ∃ i, r = some i ∧ k = h + one i) ?_ ?_
  · refine Moves.getEmptyInode fun i => Trades.ite (fun _ => ?_) fun _ => ?_
    · exact Trades.pure (.inr ⟨i, rfl, rfl⟩)
    · exact Moves.iput rfl (Trades.pure (.inl ⟨rfl, rfl⟩))
  · rintro r k (⟨rfl, rfl⟩ | ⟨i, rfl, rfl⟩)
    · exact hnone
    · exact hsome i

theorem minixLookup_moves (T : FileTree ι) (dir : ι) (name : Name) :
    Moves (minixLookup T dir name) (one dir) fun r h =>
      r = T.child dir name ∧ h = hand r := by
  unfold minixLookup FileTree.child
  by_cases hdir : T.isA sIfdir dir
  · rw [if_pos hdir, if_pos hdir]
    cases T.entry dir name with
    | some ino =>
        refine Moves.iget (Moves.iput (add_comm _ _) ?_)
        exact Trades.pure ⟨rfl, rfl⟩
    | none => exact Moves.iputs ⟨rfl, rfl⟩
  · rw [if_neg hdir, if_neg hdir]
    exact Moves.iputs ⟨rfl, rfl⟩

theorem minixCreate_moves (T : FileTree ι) (dir : ι) (name : Name) :
    Moves (minixCreate T dir name) (one dir) fun r h => h = hand r := by
  refine Moves.minixNewInode (fun inode => ?_) (Moves.iputs rfl)
  cases T.addEntry dir name with
  | some error => exact Moves.iputs_swap rfl
  | none => exact Moves.iput (add_comm _ _) (Trades.pure rfl)

theorem minixMknod_moves (T : FileTree ι) (dir : ι) (name : Name) :
    Moves (minixMknod T dir name) (one dir) fun _ h => h = 0 := by
  unfold minixMknod
  cases T.entry dir name with
  | some _ => exact Moves.iputs rfl
  | none =>
      refine Moves.minixNewInode (fun inode => ?_) (Moves.iputs rfl)
      cases T.addEntry dir name with
      | some error => exact Moves.iputs_swap rfl
      | none => exact Moves.iputs_two rfl

theorem minixMkdir_moves (T : FileTree ι) (dir : ι) (name : Name) :
    Moves (minixMkdir T dir name) (one dir) fun _ h => h = 0 := by
  unfold minixMkdir
  cases T.entry dir name with
  | some _ => exact Moves.iputs rfl
  | none =>
      refine Trades.ite (fun _ => Moves.iputs rfl) fun _ => ?_
      refine Moves.minixNewInode (fun inode => ?_) (Moves.iputs rfl)
      refine Trades.ite (fun _ => ?_) fun _ => Moves.iputs_two rfl
      cases T.addEntry dir name with
      | some error => exact Moves.iputs_two rfl
      | none => exact Moves.iputs_two rfl

theorem minixRmdir_moves (t : TaskStruct ι) (T : FileTree ι) (dir : ι) (name : Name) :
    Moves (minixRmdir t T dir name) (one dir) fun _ h => h = 0 := by
  unfold minixRmdir
  cases T.entry dir name with
  | none => exact Moves.iputs rfl
  | some ino => exact Moves.iget (Trades.get fun _ => Moves.iputs_two rfl)

theorem minixUnlink_moves (t : TaskStruct ι) (T : FileTree ι) (dir : ι) (name : Name) :
    Moves (minixUnlink t T dir name) (one dir) fun _ h => h = 0 := by
  unfold minixUnlink
  cases T.entry dir name with
  | none => exact Moves.iputs rfl
  | some ino =>
      refine Moves.iget (Trades.ite (fun _ => Moves.iputs_swap rfl) fun _ => ?_)
      refine Trades.ite (fun _ => ?_) fun _ => Moves.iputs_swap rfl
      exact Moves.iput rfl (Trades.throw trivial)

theorem minixSymlink_moves (T : FileTree ι) (dir : ι) (name : Name) :
    Moves (minixSymlink T dir name) (one dir) fun _ h => h = 0 := by
  refine Moves.minixNewInode (fun inode => ?_) (Moves.iputs rfl)
  refine Trades.ite (fun _ => ?_) fun _ => Moves.iputs_two rfl
  cases T.entry dir name with
  | some _ => exact Moves.iputs_swap rfl
  | none =>
      cases T.addEntry dir name with
      | some error => exact Moves.iputs_swap rfl
      | none => exact Moves.iputs_two rfl

theorem minixLink_moves (T : FileTree ι) (oldinode dir : ι) (name : Name) :
    Moves (minixLink T oldinode dir name) (one oldinode + one dir) fun _ h => h = 0 := by
  refine Trades.ite (fun _ => Moves.iputs_two rfl) fun _ => ?_
  refine Trades.ite (fun _ => Moves.iputs_two rfl) fun _ => ?_
  cases T.entry dir name with
  | some _ => exact Moves.iputs_swap rfl
  | none =>
      cases T.addEntry dir name with
      | some error => exact Moves.iputs_swap rfl
      | none => exact Moves.iputs_swap rfl

theorem minixReadlink_moves (T : FileTree ι) (inode : ι) (buflen : Nat) :
    Moves (minixReadlink T inode buflen) (one inode) fun _ h => h = 0 :=
  Trades.ite (fun _ => Moves.iputs rfl) fun _ => Moves.iputs rfl

end Directory

end Namei
end Elks
