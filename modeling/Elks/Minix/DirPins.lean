import Elks.Lib.Refs
import Elks.Minix.Super

/-!
# The buffer pins of the Minix directory code (fs/minix/namei.c, fs/buffer.c)

**State.**  `b_count` and `b_mapcount` of every buffer head, one table of pins.

**World.**  What the code reads is given from outside: the blocks of the
directories with their entries, the bit maps, the inodes that numbers stand for.
Blocks and inodes that the layers below read, they map and release themselves;
`visit` is what this does to the pins.

**Results.**  `dirCall_pins_iff`: a call leaves every count as it was and maps no
`NULL` head exactly when

* it is no `symlink` that gets as far as the name and does not find it,
* it is no `rmdir` that scans the directory to its end within block 0, or reads
  a further block of it whose buffer somebody else has mapped, and
* it does not fail to find a free inode while the last slot of the inode map is
  full and mapped by somebody else.
-/

namespace Elks
namespace Pins

open Lib
open Minix (Errno)

/-- The two counts of a buffer head. -/
inductive PinKind
  | held
  | mapped
deriving DecidableEq, Repr

/-- A count: `b_count` or `b_mapcount` of a head. -/
abbrev Pin (β : Type) :=
  β × PinKind

/-- How a call can end without returning. -/
inductive PinFault
  | nullHead
  | wraps
  | panic
  | spins
deriving DecidableEq, Repr

/-- A routine over the counts. -/
abbrev Pinning (β α : Type) :=
  RoutineOf PinFault (Pin β → ℕ) α

/-- `struct minix_dir_entry`. -/
structure DirEntry where
  inode : Nat
  name : Nat → UInt8

/-- What the directory code reads.

* `block` and `newBlock` are the results of `minix_bread` without and with
  `create`, and `bmapWork` the buffers that `minix_bmap` uses on the way;
* `entry` is what is read through `b_data` at an offset;
* `imap` is `s_imap`, `zeroBit` says that a block of it has a zero bit, and
  `inoFits` that the number of that bit is an inode number;
* `named` is the inode that `iget` returns for a number, and `inodeWork` the
  buffers that `iget` and `iput` of an inode use. -/
structure DirWorld (ι β : Type) where
  iSize : ι → Nat
  iNlink : ι → Nat
  iIno : ι → Nat
  iDev : ι → Nat
  isDir : ι → Bool
  isBusy : ι → Bool
  sticky : ι → ι → Bool
  block : ι → Nat → Option β
  newBlock : ι → Nat → Option β
  bmapWork : ι → Nat → List β
  entry : β → Nat → DirEntry
  imap : List (Option β)
  zeroBit : β → Bool
  inoFits : Bool
  newIno : ι
  named : Nat → ι
  inodeWork : ι → List β

section Code

variable {ι β : Type} [DecidableEq β]

/-- `s_dirsize`. -/
def sDirsize : Nat := 16

/-- `s_namelen`. -/
def sNamelen : Nat := 14

/-- `MINIX_LINK_MAX`. -/
def linkMax : Nat := 250

/-- `bh->b_count++`. -/
def hold (bh : β) : Pinning β Unit :=
  takeRef 65536 .wraps (bh, .held)

/-- `map_buffer`. -/
def mapBuffer : Option β → Pinning β Unit
  | none => throw .nullHead
  | some bh => takeRef 65536 .wraps (bh, .mapped)

/-- `unmap_buffer`.  A count of 0 is reported and stays. -/
def unmapBuffer : Option β → Pinning β Unit
  | none => pure ()
  | some bh => dropRef (bh, .mapped)

/-- `brelse`. -/
def brelse : Option β → Pinning β Unit
  | none => pure ()
  | some bh => do
      let pins ← get
      if pins (bh, .held) = 0 then
        throw .panic
      else
        dropRef (bh, .held)

/-- `unmap_brelse`. -/
def unmapBrelse (bh : Option β) : Pinning β Unit := do
  unmapBuffer bh
  brelse bh

/-- A buffer that is read, mapped and released again. -/
def visit (bh : β) : Pinning β Unit := do
  hold bh
  mapBuffer (some bh)
  unmapBrelse (some bh)

/-- One buffer after the other. -/
def visits : List β → Pinning β Unit
  | [] => pure ()
  | bh :: rest => do
      visit bh
      visits rest

/-- `minix_bread`, for a result that is known. -/
def bread (work : List β) (bh : Option β) : Pinning β (Option β) := do
  visits work
  match bh with
  | none => pure none
  | some bh => do
      hold bh
      pure (some bh)

/-- `iget`. -/
def iget (W : DirWorld ι β) (ino : Nat) : Pinning β ι := do
  visits (W.inodeWork (W.named ino))
  pure (W.named ino)

/-- `iput`. -/
def iput (W : DirWorld ι β) (inode : ι) : Pinning β Unit :=
  visits (W.inodeWork inode)

/-- `namecompare`, with `s_namelen` as its `max`. -/
def namecompare (name : List UInt8) (buf : Nat → UInt8) : Bool :=
  if sNamelen < name.length ∨ (name.length < sNamelen ∧ buf name.length ≠ 0) then
    false
  else
    (List.range name.length).map buf == name

/-- `minix_match`. -/
def minixMatch (name : List UInt8) (de : DirEntry) : Bool :=
  if de.inode = 0 ∨ sNamelen < name.length then false
  else if name = [] ∧ de.name 0 = 46 ∧ de.name 1 = 0 then true
  else namecompare name de.name

/-- The buffer that a loop goes on with, read if there is none yet. -/
def current (W : DirWorld ι β) (dir : ι) (block : Nat) : Option β → Pinning β (Option β)
  | some bh => pure (some bh)
  | none => bread (W.bmapWork dir block) (W.block dir block)

/-- The loop of `minix_find_entry`.  The product `block * BLOCK_SIZE` has 16
bits. -/
def findLoop (W : DirWorld ι β) (dir : ι) (name : List UInt8) :
    Nat → Nat → Nat → Option β → Pinning β (Option (β × Nat))
  | 0, _, _, _ => throw .spins
  | fuel + 1, block, offset, bh =>
      if block * 1024 % 65536 + offset < W.iSize dir then do
        match ← current W dir block bh with
        | none => findLoop W dir name fuel ((block + 1) % 65536) offset none
        | some bh => do
            mapBuffer (some bh)
            if minixMatch name (W.entry bh offset) then do
              unmapBuffer (some bh)
              pure (some (bh, offset))
            else do
              unmapBuffer (some bh)
              if offset + sDirsize < 1024 then
                findLoop W dir name fuel block (offset + sDirsize) (some bh)
              else do
                brelse (some bh)
                findLoop W dir name fuel ((block + 1) % 65536) 0 none
      else do
        brelse bh
        pure none

/-- `minix_find_entry`: the buffer, held, and the offset of the entry in it. -/
def minixFindEntry (W : DirWorld ι β) (fuel : Nat) (dir : ι) (name : List UInt8) :
    Pinning β (Option (β × Nat)) :=
  findLoop W dir (name.take sNamelen) fuel 0 0 none

/-- The loop of `minix_add_entry`. -/
def addLoop (W : DirWorld ι β) (dir : ι) (name : List UInt8) :
    Nat → Nat → Nat → Option β → Pinning β (Except Errno (β × Nat))
  | 0, _, _, _ => throw .spins
  | fuel + 1, block, offset, none => do
      match ← bread (W.bmapWork dir block) (W.newBlock dir block) with
      | none => pure (.error .enospc)
      | some bh => do
          mapBuffer (some bh)
          addLoop W dir name fuel block offset (some bh)
  | fuel + 1, block, offset, some bh =>
      -- beyond the end of the directory the entry is cleared first
      if block * 1024 + (offset + sDirsize) ≤ W.iSize dir ∧ (W.entry bh offset).inode ≠ 0 then
        if namecompare name (W.entry bh offset).name then do
          unmapBrelse (some bh)
          pure (.error .eexist)
        else if offset + sDirsize < 1024 then
          addLoop W dir name fuel block (offset + sDirsize) (some bh)
        else do
          unmapBrelse (some bh)
          addLoop W dir name fuel ((block + 1) % 65536) 0 none
      else do
        unmapBuffer (some bh)
        pure (.ok (bh, offset))

/-- `minix_add_entry`: the buffer, held and not mapped, and the offset of the
entry in it. -/
def minixAddEntry (W : DirWorld ι β) (fuel : Nat) (dir : ι) (name : List UInt8) :
    Pinning β (Except Errno (β × Nat)) :=
  if name.take sNamelen = [] then
    pure (.error .enoent)
  else
    addLoop W dir (name.take sNamelen) fuel 0 0 none

/-- The search of `minix_new_inode`: the block with a zero bit, mapped, or else the
last value of `bh`. -/
def searchImap (W : DirWorld ι β) :
    List (Option β) → Option β → Pinning β (Bool × Option β)
  | [], bh => pure (false, bh)
  | none :: rest, _ => searchImap W rest none
  | some bh :: rest, _ => do
      mapBuffer (some bh)
      if W.zeroBit bh then
        pure (true, some bh)
      else do
        unmapBuffer (some bh)
        searchImap W rest (some bh)

/-- `minix_new_inode`. -/
def minixNewInode (W : DirWorld ι β) : Pinning β (Option ι) := do
  let (found, bh) ← searchImap W W.imap none
  unmapBuffer bh
  if found ∧ W.inoFits then
    pure (some W.newIno)
  else do
    iput W W.newIno
    pure none

/-- `minix_lookup`. -/
def minixLookup (W : DirWorld ι β) (fuel : Nat) (dir : ι) (name : List UInt8) :
    Pinning β (Option Errno) :=
  if W.isDir dir then do
    match ← minixFindEntry W fuel dir name with
    | some (bh, offset) => do
        mapBuffer (some bh)
        unmapBrelse (some bh)
        let _ ← iget W (W.entry bh offset).inode
        iput W dir
        pure none
    | none => do
        iput W dir
        pure (some .enoent)
  else do
    iput W dir
    pure (some .enoent)

/-- What `minix_create`, `minix_mknod` and `minix_symlink` do with their new
inode. -/
def enterNew (W : DirWorld ι β) (fuel : Nat) (dir : ι) (name : List UInt8) (inode : ι) :
    Pinning β (Option Errno) := do
  match ← minixAddEntry W fuel dir name with
  | .error error => do
      iput W inode
      iput W dir
      pure (some error)
  | .ok (bh, _) => do
      brelse (some bh)
      iput W dir
      iput W inode
      pure none

/-- `minix_create`; the inode it returns stays in use. -/
def minixCreate (W : DirWorld ι β) (fuel : Nat) (dir : ι) (name : List UInt8) :
    Pinning β (Option Errno) := do
  match ← minixNewInode W with
  | none => do
      iput W dir
      pure (some .enospc)
  | some inode => do
      match ← minixAddEntry W fuel dir name with
      | .error error => do
          iput W inode
          iput W dir
          pure (some error)
      | .ok (bh, _) => do
          brelse (some bh)
          iput W dir
          pure none

/-- `minix_mknod`. -/
def minixMknod (W : DirWorld ι β) (fuel : Nat) (dir : ι) (name : List UInt8) :
    Pinning β (Option Errno) := do
  match ← minixFindEntry W fuel dir name with
  | some (bh, _) => do
      brelse (some bh)
      iput W dir
      pure (some .eexist)
  | none => do
      match ← minixNewInode W with
      | none => do
          iput W dir
          pure (some .enospc)
      | some inode => enterNew W fuel dir name inode

/-- Block 0 of a new inode, which `minix_mkdir` and `minix_symlink` read, fill and
release. -/
def fillBlock (W : DirWorld ι β) (inode : ι) : Pinning β Bool := do
  match ← bread (W.bmapWork inode 0) (W.newBlock inode 0) with
  | none => pure false
  | some bh => do
      mapBuffer (some bh)
      unmapBrelse (some bh)
      pure true

/-- `minix_mkdir`. -/
def minixMkdir (W : DirWorld ι β) (fuel : Nat) (dir : ι) (name : List UInt8) :
    Pinning β (Option Errno) := do
  match ← minixFindEntry W fuel dir name with
  | some (bh, _) => do
      brelse (some bh)
      iput W dir
      pure (some .eexist)
  | none =>
      if linkMax ≤ W.iNlink dir then do
        iput W dir
        pure (some .emlink)
      else do
        match ← minixNewInode W with
        | none => do
            iput W dir
            pure (some .enospc)
        | some inode => do
            let filled ← fillBlock W inode
            if ¬ filled then do
              iput W dir
              iput W inode
              pure (some .enospc)
            else do
              match ← minixAddEntry W fuel dir name with
              | .error error => do
                  iput W dir
                  iput W inode
                  pure (some error)
              | .ok (bh, _) => do
                  mapBuffer (some bh)
                  iput W dir
                  iput W inode
                  unmapBrelse (some bh)
                  pure none

/-- The loop of `empty_dir`.  A block other than the first is not mapped before it
is unmapped. -/
def emptyLoop (W : DirWorld ι β) (inode : ι) :
    Nat → Nat → Nat → Option β → Pinning β Bool
  | 0, _, _, _ => throw .spins
  | fuel + 1, block, offset, bh =>
      if block * 1024 + offset < W.iSize inode then do
        match ← current W inode block bh with
        | none => emptyLoop W inode fuel ((block + 1) % 65536) offset none
        | some bh =>
            if (W.entry bh offset).inode ≠ 0 then do
              unmapBrelse (some bh)
              pure false
            else if offset + sDirsize < 1024 then
              emptyLoop W inode fuel block (offset + sDirsize) (some bh)
            else do
              unmapBrelse (some bh)
              emptyLoop W inode fuel ((block + 1) % 65536) 0 none
      else do
        brelse bh
        pure true

/-- `strcmp(de->name, name) == 0`. -/
def isNamed (name : List UInt8) (de : DirEntry) : Bool :=
  (List.range (name.length + 1)).map de.name == name ++ [0]

/-- `empty_dir`. -/
def emptyDir (W : DirWorld ι β) (fuel : Nat) (inode : ι) : Pinning β Bool :=
  if W.iSize inode % sDirsize ≠ 0 ∨ W.iSize inode < 2 * sDirsize then
    pure true
  else do
    match ← bread (W.bmapWork inode 0) (W.block inode 0) with
    | none => pure true
    | some bh => do
        mapBuffer (some bh)
        if (W.entry bh 0).inode ≠ 0 ∧ isNamed [46] (W.entry bh 0) ∧
            (W.entry bh sDirsize).inode ≠ 0 ∧ isNamed [46, 46] (W.entry bh sDirsize) then
          emptyLoop W inode fuel 0 (2 * sDirsize) (some bh)
        else do
          unmapBrelse (some bh)
          pure true

/-- What `minix_rmdir` checks before it looks into the directory. -/
def rmdirCheck [DecidableEq ι] (W : DirWorld ι β) (dir inode : ι) : Option Errno :=
  if W.sticky dir inode then some .eperm
  else if W.iDev inode ≠ W.iDev dir then some .eperm
  else if inode = dir then some .eperm
  else if ¬ W.isDir inode then some .enotdir
  else none

/-- `minix_rmdir`. -/
def minixRmdir [DecidableEq ι] (W : DirWorld ι β) (fuel : Nat) (dir : ι)
    (name : List UInt8) :
    Pinning β (Option Errno) := do
  match ← minixFindEntry W fuel dir name with
  | none => do
      iput W dir
      pure (some .enoent)
  | some (bh, offset) => do
      mapBuffer (some bh)
      let inode ← iget W (W.entry bh offset).inode
      match rmdirCheck W dir inode with
      | some error => do
          iput W dir
          iput W inode
          unmapBrelse (some bh)
          pure (some error)
      | none => do
          let empty ← emptyDir W fuel inode
          iput W dir
          iput W inode
          unmapBrelse (some bh)
          pure (if ¬ empty then some .enotempty
            else if (W.entry bh offset).inode ≠ W.iIno inode then some .enoent
            else if W.isBusy inode then some .ebusy
            else none)

/-- `minix_unlink`. -/
def minixUnlink (W : DirWorld ι β) (fuel : Nat) (dir : ι) (name : List UInt8) :
    Pinning β (Option Errno) := do
  match ← minixFindEntry W fuel dir name with
  | none => do
      iput W dir
      pure (some .enoent)
  | some (bh, offset) => do
      mapBuffer (some bh)
      let inode ← iget W (W.entry bh offset).inode
      if W.isDir inode then do
        unmapBrelse (some bh)
        iput W inode
        iput W dir
        pure (some .eperm)
      else if (W.entry bh offset).inode ≠ W.iIno inode then do
        iput W inode
        unmapBrelse (some bh)
        -- the entry is looked up again, with the same result
        throw .spins
      else do
        unmapBrelse (some bh)
        iput W inode
        iput W dir
        pure (if W.sticky dir inode then some .eperm else none)

/-- `minix_symlink`.  The buffer of the entry is mapped before it is compared with
`NULL`. -/
def minixSymlink (W : DirWorld ι β) (fuel : Nat) (dir : ι) (name : List UInt8) :
    Pinning β (Option Errno) := do
  match ← minixNewInode W with
  | none => do
      iput W dir
      pure (some .enospc)
  | some inode => do
      let filled ← fillBlock W inode
      if ¬ filled then do
        iput W dir
        iput W inode
        pure (some .enospc)
      else do
        let found ← minixFindEntry W fuel dir name
        mapBuffer (found.map Prod.fst)
        match found with
        | some (bh, _) => do
            iput W inode
            unmapBrelse (some bh)
            iput W dir
            pure (some .eexist)
        | none => enterNew W fuel dir name inode

/-- `minix_link`. -/
def minixLink (W : DirWorld ι β) (fuel : Nat) (oldinode dir : ι) (name : List UInt8) :
    Pinning β (Option Errno) :=
  if W.isDir oldinode then do
    iput W oldinode
    iput W dir
    pure (some .eperm)
  else if linkMax ≤ W.iNlink oldinode then do
    iput W oldinode
    iput W dir
    pure (some .emlink)
  else do
    match ← minixFindEntry W fuel dir name with
    | some (bh, _) => do
        brelse (some bh)
        iput W dir
        iput W oldinode
        pure (some .eexist)
    | none => do
        match ← minixAddEntry W fuel dir name with
        | .error error => do
            iput W dir
            iput W oldinode
            pure (some error)
        | .ok (bh, _) => do
            brelse (some bh)
            iput W dir
            iput W oldinode
            pure none

end Code

/-! ## What the routines do to the pins -/

section Pieces

variable {ι β α : Type} [DecidableEq β] {W : DirWorld ι β} {f : Unit → Pinning β α} {bh : Option β}
  {dir : ι}
variable {h k g : Pin β → ℕ} {post : α → (Pin β → ℕ) → Prop}

/-- A routine that maps no `NULL` head and trades `h` as `post` says. -/
abbrev Pinned (m : Pinning β α) (h : Pin β → ℕ) (post : α → (Pin β → ℕ) → Prop) : Prop :=
  Trades (· ≠ .nullHead) m h post

/-- `b_count` of a head is raised. -/
def heldPin (bh : β) : Pin β → ℕ :=
  one (bh, .held)

/-- `b_mapcount` of a head is raised. -/
def mappedPin (bh : β) : Pin β → ℕ :=
  one (bh, .mapped)

/-- The pin of a loop that holds a buffer or none. -/
def heldPins : Option β → Pin β → ℕ
  | none => 0
  | some bh => heldPin bh

/-- A routine that leaves the counts alone. -/
def Quiet (m : Pinning β α) : Prop :=
  Pinned m 0 fun _ h => h = 0

theorem Pinned.hold {bh : β} (hf : Pinned (f ()) (h + heldPin bh) post) :
    Pinned (hold bh >>= f) h post :=
  Trades.take (by decide) hf

theorem Pinned.mapBuffer {bh : β} (hf : Pinned (f ()) (h + mappedPin bh) post) :
    Pinned (mapBuffer (some bh) >>= f) h post :=
  Trades.take (by decide) hf

theorem Pinned.unmapBuffer {bh : β} (hk : k = h + mappedPin bh) (hf : Pinned (f ()) h post) :
    Pinned (unmapBuffer (some bh) >>= f) k post :=
  Trades.drop hk hf

theorem Pinned.brelse {bh : β} (hk : k = h + heldPin bh) (hf : Pinned (f ()) h post) :
    Pinned (brelse (some bh) >>= f) k post := by
  subst hk
  intro b
  have hpos : (b + (h + heldPin bh)) (bh, .held) ≠ 0 := by
    rw [← add_assoc, Pi.add_apply, heldPin, one_self]
    exact Nat.succ_ne_zero _
  refine Outcome.bind (R := fun _ s => s = b + h) ?_ ?_
  · refine Outcome.bind (R := fun pins s => pins = b + (h + heldPin bh) ∧ s = pins)
      (Outcome.get ⟨rfl, rfl⟩) ?_
    rintro pins s ⟨rfl, rfl⟩
    rw [if_neg hpos, ← add_assoc]
    exact drop_one (b + h) (bh, .held)
  · rintro a s rfl
    exact hf b

omit [DecidableEq β] in
/-- Going on after a routine that leaves the counts alone. -/
theorem Pinned.quiet {m : Pinning β Unit} (hm : Quiet m) (hf : Pinned (f ()) h post) :
    Pinned (m >>= f) h post := by
  refine Trades.call h (add_zero h).symm hm ?_
  rintro a h' rfl
  rw [add_zero]
  exact hf

theorem unmapBrelse_pinned (bh : β) :
    Pinned (unmapBrelse (some bh)) (heldPin bh + mappedPin bh) fun _ h => h = 0 := by
  refine Pinned.unmapBuffer rfl ?_
  rw [← bind_pure (Pins.brelse (some bh))]
  exact Pinned.brelse (zero_add _).symm (Trades.pure rfl)

theorem Pinned.unmapBrelse {bh : β} (hk : k = h + (heldPin bh + mappedPin bh))
    (hf : Pinned (f ()) h post) : Pinned (unmapBrelse (some bh) >>= f) k post := by
  refine Trades.call h hk (unmapBrelse_pinned bh) ?_
  rintro a h' rfl
  rw [add_zero]
  exact hf

theorem visit_quiet (bh : β) : Quiet (visit bh) := by
  refine Pinned.hold (Pinned.mapBuffer ?_)
  rw [zero_add]
  exact unmapBrelse_pinned bh

theorem visits_quiet (work : List β) : Quiet (visits work) := by
  induction work with
  | nil => exact Trades.pure rfl
  | cons bh rest ih => exact Pinned.quiet (visit_quiet bh) ih

theorem iput_quiet (inode : ι) : Quiet (iput W inode) :=
  visits_quiet _

theorem Pinned.iput {inode : ι} (hf : Pinned (f ()) h post) :
    Pinned (iput W inode >>= f) h post :=
  Pinned.quiet (iput_quiet inode) hf

theorem Pinned.iget {ino : Nat} {f : ι → Pinning β α} (hf : Pinned (f (W.named ino)) h post) :
    Pinned (iget W ino >>= f) h post := by
  refine Trades.bind (R := fun a h' => a = W.named ino ∧ h' = h) ?_ ?_
  · exact Pinned.quiet (visits_quiet _) (Trades.pure ⟨rfl, rfl⟩)
  · rintro a h' ⟨rfl, rfl⟩
    exact hf

theorem Pinned.bread {work : List β} {f : Option β → Pinning β α}
    (hf : Pinned (f bh) (h + heldPins bh) post) : Pinned (bread work bh >>= f) h post := by
  refine Trades.bind (R := fun a h' => a = bh ∧ h' = h + heldPins bh) ?_ ?_
  · refine Pinned.quiet (visits_quiet work) ?_
    cases bh with
    | none => exact Trades.pure ⟨rfl, (add_zero h).symm⟩
    | some bh => exact Pinned.hold (Trades.pure ⟨rfl, rfl⟩)
  · rintro a h' ⟨rfl, rfl⟩
    exact hf

theorem Pinned.brelsePins (hf : Pinned (f ()) 0 post) :
    Pinned (Pins.brelse bh >>= f) (heldPins bh) post := by
  cases bh with
  | none => exact hf
  | some bh => exact Pinned.brelse (zero_add _).symm hf

theorem Pinned.current {block : Nat} {f : Option β → Pinning β α}
    (hf : Pinned (f (bh.or (W.block dir block))) (heldPins (bh.or (W.block dir block))) post) :
    Pinned (current W dir block bh >>= f) (heldPins bh) post := by
  cases bh with
  | none => exact Pinned.bread (by rw [heldPins, zero_add]; exact hf)
  | some bh => exact hf

/-- Where `minix_find_entry` finds a name, if it comes to an end: the same search
without the pins. -/
def findEntry (W : DirWorld ι β) (dir : ι) (name : List UInt8) :
    Nat → Nat → Nat → Option β → Option (Option (β × Nat))
  | 0, _, _, _ => none
  | fuel + 1, block, offset, bh =>
      if block * 1024 % 65536 + offset < W.iSize dir then
        match bh.or (W.block dir block) with
        | none => findEntry W dir name fuel ((block + 1) % 65536) offset none
        | some bh =>
            if minixMatch name (W.entry bh offset) then some (some (bh, offset))
            else if offset + sDirsize < 1024 then
              findEntry W dir name fuel block (offset + sDirsize) (some bh)
            else
              findEntry W dir name fuel ((block + 1) % 65536) 0 none
      else some none

theorem findLoop_pinned (dir : ι) (name : List UInt8) (fuel : Nat) :
    ∀ block offset bh,
      Pinned (findLoop W dir name fuel block offset bh) (heldPins bh) fun r h =>
        findEntry W dir name fuel block offset bh = some r ∧
          h = heldPins (r.map Prod.fst) := by
  induction fuel with
  | zero => exact fun _ _ _ => Trades.throw (by decide)
  | succ fuel ih =>
      intro block offset bh
      unfold findLoop findEntry
      by_cases hsize : block * 1024 % 65536 + offset < W.iSize dir
      · simp only [if_pos hsize]
        refine Pinned.current ?_
        cases bh.or (W.block dir block) with
        | none => exact ih _ _ none
        | some bh =>
            refine Pinned.mapBuffer ?_
            by_cases hmatch : minixMatch name (W.entry bh offset)
            · simp only [if_pos hmatch]
              exact Pinned.unmapBuffer rfl (Trades.pure ⟨rfl, rfl⟩)
            · simp only [if_neg hmatch]
              refine Pinned.unmapBuffer rfl ?_
              by_cases hoffset : offset + sDirsize < 1024
              · simp only [if_pos hoffset]
                exact ih _ _ (some bh)
              · simp only [if_neg hoffset]
                exact Pinned.brelse (zero_add _).symm (ih _ _ none)
      · simp only [if_neg hsize]
        exact Pinned.brelsePins (Trades.pure ⟨rfl, rfl⟩)

/-- What `minix_find_entry` says of a name. -/
def DirWorld.find (W : DirWorld ι β) (fuel : Nat) (dir : ι) (name : List UInt8) :
    Option (Option (β × Nat)) :=
  findEntry W dir (name.take sNamelen) fuel 0 0 none

theorem Pinned.find {fuel : Nat} {name : List UInt8} {f : Option (β × Nat) → Pinning β α}
    (hsome : ∀ bh offset, W.find fuel dir name = some (some (bh, offset)) →
      Pinned (f (some (bh, offset))) (h + heldPin bh) post)
    (hnone : W.find fuel dir name = some none → Pinned (f none) h post) :
    Pinned (minixFindEntry W fuel dir name >>= f) h post := by
  refine Trades.call h (add_zero h).symm (findLoop_pinned dir _ fuel 0 0 none) ?_
  rintro r h' ⟨hr, rfl⟩
  cases r with
  | none =>
      refine (congrArg (Pinned (f none) · post) (add_zero h)).mpr (hnone hr)
  | some found => exact hsome found.1 found.2 hr

theorem addLoop_pinned (dir : ι) (name : List UInt8) (fuel : Nat) :
    ∀ block offset bh,
      Pinned (addLoop W dir name fuel block offset bh)
        (heldPins bh + (bh.elim 0 mappedPin)) fun r h =>
          h = match r with
            | .ok (bh, _) => heldPin bh
            | .error _ => 0 := by
  induction fuel with
  | zero => exact fun _ _ _ => Trades.throw (by decide)
  | succ fuel ih =>
      intro block offset bh
      cases bh with
      | none =>
          refine Pinned.bread ?_
          simp only [heldPins, Option.elim_none, zero_add]
          cases W.newBlock dir block with
          | none => exact Trades.pure rfl
          | some bh => exact Pinned.mapBuffer (ih _ _ (some bh))
      | some bh =>
          refine Trades.ite (fun _ => ?_) fun _ => Pinned.unmapBuffer rfl (Trades.pure rfl)
          refine Trades.ite (fun _ => ?_) fun _ => ?_
          · exact Pinned.unmapBrelse (zero_add _).symm (Trades.pure rfl)
          · refine Trades.ite (fun _ => ih _ _ (some bh)) fun _ => ?_
            exact Pinned.unmapBrelse (zero_add _).symm (ih _ _ none)

theorem Pinned.add {fuel : Nat} {dir : ι} {name : List UInt8}
    {f : Except Errno (β × Nat) → Pinning β α}
    (hok : ∀ bh offset, Pinned (f (.ok (bh, offset))) (h + heldPin bh) post)
    (herr : ∀ e, Pinned (f (.error e)) h post) :
    Pinned (minixAddEntry W fuel dir name >>= f) h post := by
  refine Trades.call (h := 0) (R := fun r h => h = match r with
    | .ok (bh, _) => heldPin bh
    | .error _ => 0) h (add_zero h).symm ?_ ?_
  · exact Trades.ite (fun _ => Trades.pure rfl) fun _ => addLoop_pinned dir _ fuel 0 0 none
  · rintro r h' rfl
    cases r with
    | ok found => exact hok found.1 found.2
    | error e => exact (congrArg (Pinned (f (.error e)) · post) (add_zero h)).mpr (herr e)

end Pieces

/-! ## The calls that come out even -/

section Even

variable {ι β : Type} [DecidableEq β] {W : DirWorld ι β}

theorem minixLookup_quiet (fuel : Nat) (dir : ι) (name : List UInt8) :
    Quiet (minixLookup W fuel dir name) := by
  have hend : ∀ e : Option Errno,
      Quiet (do Pins.iput W dir; pure e) :=
    fun e => Pinned.iput (Trades.pure rfl)
  refine Trades.ite (fun _ => Pinned.find (fun bh offset _ => ?_) fun _ => hend _) fun _ => hend _
  refine Pinned.mapBuffer ?_
  rw [zero_add]
  exact Pinned.unmapBrelse (zero_add _).symm (Pinned.iget (hend none))

theorem enterNew_quiet (fuel : Nat) (dir : ι) (name : List UInt8) (inode : ι) :
    Quiet (enterNew W fuel dir name inode) := by
  refine Pinned.add (fun bh offset => ?_) fun e => ?_
  · exact Pinned.brelse rfl (Pinned.iput (Pinned.iput (Trades.pure rfl)))
  · exact Pinned.iput (Pinned.iput (Trades.pure rfl))

theorem minixUnlink_quiet (fuel : Nat) (dir : ι) (name : List UInt8) :
    Quiet (minixUnlink W fuel dir name) := by
  refine Pinned.find (fun bh offset _ => ?_) fun _ => Pinned.iput (Trades.pure rfl)
  refine Pinned.mapBuffer (Pinned.iget ?_)
  rw [zero_add]
  refine Trades.ite (fun _ => ?_) fun _ => Trades.ite (fun _ => ?_) fun _ => ?_
  · exact Pinned.unmapBrelse (zero_add _).symm (Pinned.iput (Pinned.iput (Trades.pure rfl)))
  · exact Pinned.iput (Pinned.unmapBrelse (zero_add _).symm (Trades.throw (by decide)))
  · exact Pinned.unmapBrelse (zero_add _).symm (Pinned.iput (Pinned.iput (Trades.pure rfl)))

theorem minixLink_quiet (fuel : Nat) (oldinode dir : ι) (name : List UInt8) :
    Quiet (minixLink W fuel oldinode dir name) := by
  have hend : ∀ (i j : ι) (e : Option Errno),
      Quiet (do Pins.iput W i; Pins.iput W j; pure e) :=
    fun i j e => Pinned.iput (Pinned.iput (Trades.pure rfl))
  refine Trades.ite (fun _ => hend _ _ _) fun _ => Trades.ite (fun _ => hend _ _ _) fun _ => ?_
  refine Pinned.find (fun bh offset _ => ?_) fun _ => Pinned.add (fun bh offset => ?_) fun e => ?_
  · exact Pinned.brelse rfl (hend _ _ _)
  · exact Pinned.brelse rfl (hend _ _ _)
  · exact hend _ _ _

end Even

/-! ## The calls that do not -/

section Uneven

variable {ι β α : Type} [DecidableEq β] {W : DirWorld ι β} {clean : Prop} {d s : Pin β → ℕ}

/-- The search of `minix_new_inode` without the pins. -/
def DirWorld.search (W : DirWorld ι β) : List (Option β) → Option β → Bool × Option β
  | [], bh => (false, bh)
  | none :: rest, _ => W.search rest none
  | some bh :: rest, _ => if W.zeroBit bh then (true, some bh) else W.search rest (some bh)

theorem searchImap_pinned (slots : List (Option β)) :
    ∀ bh, Pinned (searchImap W slots bh) 0 fun r h =>
      r = W.search slots bh ∧ h = if r.1 then r.2.elim 0 mappedPin else 0 := by
  induction slots with
  | nil => exact fun bh => Trades.pure ⟨rfl, rfl⟩
  | cons slot rest ih =>
      intro bh
      cases slot with
      | none => exact ih none
      | some b =>
          unfold searchImap DirWorld.search
          refine Pinned.mapBuffer ?_
          rw [zero_add]
          by_cases hzero : W.zeroBit b
          · simp only [if_pos hzero]
            exact Trades.pure ⟨rfl, rfl⟩
          · simp only [if_neg hzero]
            exact Pinned.unmapBuffer (zero_add _).symm (ih (some b))

/-- The pin that `minix_new_inode` drops without having it: that of the last slot,
when no slot has a zero bit. -/
def DirWorld.stray (W : DirWorld ι β) : Pin β → ℕ :=
  if (W.search W.imap none).1 then 0 else (W.search W.imap none).2.elim 0 mappedPin

/-- Whether `minix_new_inode` returns an inode. -/
def DirWorld.hasInode (W : DirWorld ι β) : Bool :=
  (W.search W.imap none).1 && W.inoFits

/-- A routine that maps no `NULL` head and lowers the counts by `d`, where they are
not 0 already. -/
def Lowers {α : Type} (m : Pinning β α) (d : Pin β → ℕ) (post : α → Prop) : Prop :=
  ∀ s, Outcome (· ≠ .nullHead) m s fun a s' => s' = s - d ∧ post a

omit [DecidableEq β] in
theorem Quiet.lowers {m : Pinning β α} (hm : Quiet m) : Lowers m 0 fun _ => True := by
  intro s
  have hs := hm s
  rw [add_zero] at hs
  refine hs.mono ?_
  rintro a s' ⟨h, rfl, rfl⟩
  exact ⟨rfl, trivial⟩

omit [DecidableEq β] in
/-- A routine that lowers the counts, and then one that leaves them alone. -/
theorem Lowers.bind {α γ : Type} {m : Pinning β α} {f : α → Pinning β γ} {post : α → Prop}
    (hm : Lowers m d post) (hf : ∀ a, post a → Quiet (f a)) : Lowers (m >>= f) d fun _ => True := by
  intro s
  refine (hm s).bind ?_
  rintro a s' ⟨rfl, ha⟩
  exact (hf a ha).lowers (s - d)

theorem drop_sub (s : Pin β → ℕ) (i : Pin β) :
    (if s i = 0 then s else Function.update s i (s i - 1)) = s - one i := by
  funext j
  by_cases h0 : s i = 0
  · rw [if_pos h0]
    by_cases hj : j = i
    · subst hj
      rw [Pi.sub_apply, one_self, h0]
    · rw [Pi.sub_apply, one_ne hj]
      rfl
  · rw [if_neg h0]
    by_cases hj : j = i
    · subst hj
      rw [Function.update_self, Pi.sub_apply, one_self]
    · rw [Function.update_of_ne hj, Pi.sub_apply, one_ne hj]
      rfl

theorem unmapBuffer_lowers (bh : Option β) :
    Lowers (unmapBuffer bh) (bh.elim 0 mappedPin) fun _ => True := by
  intro s
  cases bh with
  | none => exact ⟨rfl, trivial⟩
  | some bh => exact ⟨drop_sub s (bh, .mapped), trivial⟩

theorem minixNewInode_lowers :
    Lowers (minixNewInode W) W.stray fun r => r = if W.hasInode then some W.newIno else none := by
  intro s
  have hsearch := searchImap_pinned (W := W) W.imap none s
  rw [add_zero] at hsearch
  refine hsearch.bind ?_
  rintro r s' ⟨h, rfl, rfl, rfl⟩
  unfold DirWorld.stray DirWorld.hasInode
  rcases W.search W.imap none with ⟨found, bh⟩
  refine Outcome.bind (R := fun _ t => t = s - if found then 0 else bh.elim 0 mappedPin) ?_ ?_
  · refine (unmapBuffer_lowers bh _).mono ?_
    rintro a t ⟨rfl, _⟩
    cases found with
    | true =>
        funext p
        show s p + bh.elim 0 mappedPin p - bh.elim 0 mappedPin p = s p
        exact Nat.add_sub_cancel _ _
    | false => exact congrArg (· - bh.elim 0 mappedPin) (add_zero s)
  · rintro a t rfl
    cases found with
    | false =>
        exact ((iput_quiet W.newIno).lowers _).bind fun a t ht => Outcome.pure ⟨ht.1, rfl⟩
    | true =>
        cases hfits : W.inoFits with
        | true => exact Outcome.pure ⟨rfl, rfl⟩
        | false =>
            exact ((iput_quiet W.newIno).lowers _).bind fun a t ht => Outcome.pure ⟨ht.1, rfl⟩

theorem stray_of_hasInode (h : W.hasInode) : W.stray = 0 := by
  unfold DirWorld.hasInode at h
  exact if_pos (Bool.and_eq_true _ _ ▸ h).1

theorem quiet_iput (dir : ι) (e : Option Errno) :
    Quiet (do Pins.iput W dir; pure e) :=
  Pinned.iput (Trades.pure rfl)

theorem quiet_iput_iput (i j : ι) (e : Option Errno) :
    Quiet (do Pins.iput W i; Pins.iput W j; pure e) :=
  Pinned.iput (Pinned.iput (Trades.pure rfl))

theorem fillBlock_pinned (inode : ι) :
    Pinned (fillBlock W inode) 0 fun r h =>
      r = (W.newBlock inode 0).isSome ∧ h = 0 := by
  refine Pinned.bread ?_
  rw [zero_add]
  cases W.newBlock inode 0 with
  | none => exact Trades.pure ⟨rfl, rfl⟩
  | some bh =>
      refine Pinned.mapBuffer (Pinned.unmapBrelse (zero_add _).symm ?_)
      exact Trades.pure ⟨rfl, rfl⟩

theorem minixCreate_lowers (fuel : Nat) (dir : ι) (name : List UInt8) :
    Lowers (minixCreate W fuel dir name) W.stray fun _ => True := by
  refine minixNewInode_lowers.bind ?_
  rintro r _
  cases r with
  | none => exact quiet_iput dir _
  | some inode =>
      refine Pinned.add (fun bh offset => ?_) fun e => quiet_iput_iput _ _ _
      exact Pinned.brelse rfl (quiet_iput dir _)

/-- A call in state `s` comes back with the counts as they were, or runs into a
`NULL` head, as `clean` says. -/
def Settles {α : Type} (m : Pinning β α) (s : Pin β → ℕ) (clean : Prop) : Prop :=
  Outcome (fun e => e = .nullHead → ¬ clean) m s fun _ s' => s' = s ↔ clean

omit [DecidableEq β] in
theorem sub_eq_self_iff (s d : Pin β → ℕ) : s - d = s ↔ ∀ p, d p = 0 ∨ s p = 0 := by
  constructor
  · intro h p
    have hp := congrFun h p
    rw [Pi.sub_apply] at hp
    omega
  · intro h
    funext p
    have hp := h p
    rw [Pi.sub_apply]
    omega

omit [DecidableEq β] in
theorem sub_zero_pins (s : Pin β → ℕ) : s - 0 = s :=
  rfl

omit [DecidableEq β] in
theorem Lowers.settles {m : Pinning β α} {post : α → Prop} (hm : Lowers m d post)
    (hd : (∀ p, d p = 0 ∨ s p = 0) ↔ clean) : Settles m s clean := by
  refine (hm s).imp (fun e he h => absurd h he) ?_
  rintro a s' ⟨rfl, _⟩
  exact (sub_eq_self_iff s d).trans hd

omit [DecidableEq β] in
theorem Quiet.settles {m : Pinning β α} (hm : Quiet m) (s : Pin β → ℕ) (hclean : clean) :
    Settles m s clean :=
  hm.lowers.settles (iff_of_true (fun _ => .inl rfl) hclean)

theorem Settles.find {fuel : Nat} {dir : ι} {name : List UInt8} {f : Option (β × Nat) → Pinning β α}
    (hsome : ∀ bh offset, W.find fuel dir name = some (some (bh, offset)) →
      Outcome (fun e => e = .nullHead → ¬ clean) (f (some (bh, offset))) (s + heldPin bh)
        fun _ s' => s' = s ↔ clean)
    (hnone : W.find fuel dir name = some none → Settles (f none) s clean) :
    Settles (minixFindEntry W fuel dir name >>= f) s clean := by
  have hfind := findLoop_pinned (W := W) dir (name.take sNamelen) fuel 0 0 none s
  rw [heldPins, add_zero] at hfind
  refine (hfind.imp (fun e he h => absurd h he) fun _ _ h => h).bind ?_
  rintro r s' ⟨h, rfl, hr, rfl⟩
  cases r with
  | none => exact (congrArg (Outcome _ (f none) · _) (add_zero s)).mpr (hnone hr)
  | some found => exact hsome found.1 found.2 hr

omit [DecidableEq β] in
/-- A routine that gives back the pins in its hand. -/
theorem Pinned.settles {m : Pinning β α} {h : Pin β → ℕ} (hm : Pinned m h fun _ h' => h' = 0)
    (s : Pin β → ℕ) (hclean : clean) :
    Outcome (fun e => e = .nullHead → ¬ clean) m (s + h) fun _ s' => s' = s ↔ clean := by
  refine (hm s).imp (fun e he h => absurd h he) ?_
  rintro a s' ⟨h', rfl, rfl⟩
  exact iff_of_true rfl hclean

/-- `minix_new_inode` drops no pin that it does not have. -/
def DirWorld.NoStray (W : DirWorld ι β) (s : Pin β → ℕ) : Prop :=
  ∀ p, W.stray p = 0 ∨ s p = 0

theorem minixMknod_settles (fuel : Nat) (dir : ι) (name : List UInt8) (s : Pin β → ℕ) :
    Settles (minixMknod W fuel dir name) s
      (W.find fuel dir name = some none → W.NoStray s) := by
  refine Settles.find (fun bh offset hfind => ?_) fun hfind => ?_
  · refine Pinned.settles ?_ s fun h => ?_
    · exact Pinned.brelse (zero_add _).symm (quiet_iput dir _)
    · cases hfind.symm.trans h
  · refine (minixNewInode_lowers.bind ?_).settles ⟨fun h _ => h, fun h => h hfind⟩
    rintro r _
    cases r with
    | none => exact quiet_iput dir _
    | some inode => exact enterNew_quiet fuel dir name inode

theorem minixMkdir_settles (fuel : Nat) (dir : ι) (name : List UInt8) (s : Pin β → ℕ) :
    Settles (minixMkdir W fuel dir name) s
      (W.find fuel dir name = some none → W.iNlink dir < linkMax → W.NoStray s) := by
  refine Settles.find (fun bh offset hfind => ?_) fun hfind => ?_
  · refine Pinned.settles ?_ s fun h => ?_
    · exact Pinned.brelse (zero_add _).symm (quiet_iput dir _)
    · cases hfind.symm.trans h
  · refine Outcome.ite (fun hlink => ?_) fun hlink => ?_
    · refine (quiet_iput dir _).settles s fun _ h => ?_
      exact absurd h (Nat.not_lt.mpr hlink)
    · refine (minixNewInode_lowers.bind ?_).settles
        ⟨fun h _ _ => h, fun h => h hfind (Nat.not_le.mp hlink)⟩
      rintro r _
      cases r with
      | none => exact quiet_iput dir _
      | some inode =>
          refine Trades.bind (fillBlock_pinned inode) ?_
          rintro filled h ⟨_, rfl⟩
          refine Trades.ite (fun _ => quiet_iput_iput _ _ _) fun _ => ?_
          refine Pinned.add (fun bh offset => ?_) fun e => quiet_iput_iput _ _ _
          refine Pinned.mapBuffer (Pinned.iput (Pinned.iput ?_))
          rw [zero_add]
          exact Pinned.unmapBrelse (zero_add _).symm (Trades.pure rfl)

theorem minixSymlink_settles (fuel : Nat) (dir : ι) (name : List UInt8) (s : Pin β → ℕ) :
    Settles (minixSymlink W fuel dir name) s
      (W.NoStray s ∧ (W.hasInode → (W.newBlock W.newIno 0).isSome →
        W.find fuel dir name ≠ some none)) := by
  refine ((minixNewInode_lowers s).imp (fun e he h => absurd h he) fun _ _ h => h).bind ?_
  rintro r s' ⟨rfl, rfl⟩
  cases hhas : W.hasInode with
  | false =>
      have hquiet := (quiet_iput (W := W) dir (some .enospc)).lowers (s - W.stray)
      refine hquiet.imp (fun e he h => absurd h he) ?_
      rintro a t ⟨rfl, _⟩
      rw [sub_zero_pins, sub_eq_self_iff]
      exact (and_iff_left fun h => by cases h).symm
  | true =>
      rw [stray_of_hasInode hhas, sub_zero_pins]
      have hfill := fillBlock_pinned (W := W) W.newIno s
      rw [add_zero] at hfill
      refine (hfill.imp (fun e he h => absurd h he) fun _ _ h => h).bind ?_
      rintro filled t ⟨h, rfl, rfl, rfl⟩
      rw [add_zero]
      have hstray : W.NoStray s := fun p => .inl (congrFun (stray_of_hasInode hhas) p)
      refine Outcome.ite (fun hblock => ?_) fun hblock => ?_
      · refine (quiet_iput_iput dir W.newIno _).settles s ⟨hstray, fun _ h => ?_⟩
        exact absurd h hblock
      · refine Settles.find (fun bh offset hfind => ?_) fun hfind => ?_
        · refine Pinned.settles ?_ s ⟨hstray, fun _ _ h => by cases hfind.symm.trans h⟩
          refine Pinned.mapBuffer (Pinned.iput ?_)
          exact Pinned.unmapBrelse (zero_add _).symm (quiet_iput dir _)
        · refine Outcome.throw fun _ h => ?_
          exact h.2 rfl (not_not.mp hblock) hfind

end Uneven

/-! ## Looking into a directory -/

section Empty

variable {ι β : Type} [DecidableEq β] {W : DirWorld ι β} {bhs : List β} {fuel : Nat} {inode : ι}
  {bh : β}

/-- The loop of `empty_dir` without the pins: its answer, and the buffers that it
unmaps. -/
def emptyScan (W : DirWorld ι β) (inode : ι) :
    Nat → Nat → Nat → Option β → Option (Bool × List β)
  | 0, _, _, _ => none
  | fuel + 1, block, offset, bh =>
      if block * 1024 + offset < W.iSize inode then
        match bh.or (W.block inode block) with
        | none => emptyScan W inode fuel ((block + 1) % 65536) offset none
        | some bh =>
            if (W.entry bh offset).inode ≠ 0 then some (false, [bh])
            else if offset + sDirsize < 1024 then
              emptyScan W inode fuel block (offset + sDirsize) (some bh)
            else
              (emptyScan W inode fuel ((block + 1) % 65536) 0 none).map fun r =>
                (r.1, bh :: r.2)
      else some (true, [])

/-- The pins of a list of buffers that are unmapped. -/
def mappedPins : List β → Pin β → ℕ
  | [] => 0
  | bh :: rest => mappedPin bh + mappedPins rest

theorem mappedPins_held (bhs : List β) (bh : β) : mappedPins bhs (bh, .held) = 0 := by
  induction bhs with
  | nil => rfl
  | cons b rest ih =>
      rw [mappedPins, Pi.add_apply, ih, mappedPin, one_ne (by simp)]

theorem mappedPins_mapped_pos : 0 < mappedPins bhs (bh, .mapped) ↔ bh ∈ bhs := by
  induction bhs with
  | nil => exact iff_of_false (Nat.lt_irrefl 0) List.not_mem_nil
  | cons b rest ih =>
      rw [mappedPins, Pi.add_apply, List.mem_cons, ← ih]
      by_cases h : bh = b
      · subst h
        rw [mappedPin, one_self]
        exact iff_of_true (by omega) (.inl rfl)
      · rw [mappedPin, one_ne (by simpa using h), Nat.zero_add]
        exact (or_iff_right h).symm

theorem add_held_sub (s : Pin β → ℕ) (bh : β) (bhs : List β) :
    s + heldPin bh - mappedPins bhs = s - mappedPins bhs + heldPin bh := by
  funext p
  rcases p with ⟨b, kind⟩
  cases kind with
  | held =>
      simp only [Pi.add_apply, Pi.sub_apply, mappedPins_held]
      rfl
  | mapped =>
      have h0 : heldPin bh (b, .mapped) = 0 := one_ne (by simp)
      simp only [Pi.add_apply, Pi.sub_apply, h0]
      rfl

omit [DecidableEq β] in
theorem sub_sub_pins (s d e : Pin β → ℕ) : s - d - e = s - (d + e) := by
  funext p
  exact Nat.sub_sub _ _ _

theorem unmapBrelse_lowers (s : Pin β → ℕ) (bh : β) :
    Outcome (· ≠ .nullHead) (unmapBrelse (some bh)) (s + heldPin bh) fun _ s' =>
      s' = s - mappedPin bh := by
  refine (unmapBuffer_lowers (some bh) _).bind ?_
  rintro a t ⟨rfl, _⟩
  have hmove : s + heldPin bh - mappedPin bh = s - mappedPin bh + heldPin bh := by
    have h := add_held_sub s bh [bh]
    rw [mappedPins, mappedPins, add_zero] at h
    exact h
  have hback : Pinned (brelse (some bh)) (heldPin bh) fun _ h => h = 0 := by
    rw [← bind_pure (brelse (some bh))]
    exact Pinned.brelse (zero_add _).symm (Trades.pure rfl)
  show Outcome _ _ (s + heldPin bh - mappedPin bh) _
  rw [hmove]
  refine (hback _).mono ?_
  rintro a t ⟨h, rfl, rfl⟩
  exact add_zero _

theorem emptyLoop_lowers (inode : ι) (fuel : Nat) :
    ∀ block offset bh (s : Pin β → ℕ),
      Outcome (· ≠ .nullHead) (emptyLoop W inode fuel block offset bh) (s + heldPins bh)
        fun r s' => ∃ bhs, emptyScan W inode fuel block offset bh = some (r, bhs) ∧
          s' = s - mappedPins bhs := by
  induction fuel with
  | zero => exact fun _ _ _ _ => Outcome.throw (by decide)
  | succ fuel ih =>
      intro block offset bh s
      unfold emptyLoop emptyScan
      by_cases hsize : block * 1024 + offset < W.iSize inode
      · simp only [if_pos hsize]
        have hcurrent : Pinned (current W inode block bh) (heldPins bh) fun r h =>
            r = bh.or (W.block inode block) ∧ h = heldPins r := by
          rw [← bind_pure (current W inode block bh)]
          exact Pinned.current (Trades.pure ⟨rfl, rfl⟩)
        refine (hcurrent s).bind ?_
        rintro r t ⟨h, rfl, rfl, rfl⟩
        cases bh.or (W.block inode block) with
        | none => exact ih _ _ none s
        | some b =>
            simp only
            by_cases hlive : (W.entry b offset).inode ≠ 0
            · simp only [if_pos hlive]
              refine (unmapBrelse_lowers s b).bind ?_
              rintro a t rfl
              exact Outcome.pure ⟨[b], rfl, congrArg (s - ·) (add_zero _).symm⟩
            · simp only [if_neg hlive]
              by_cases hoffset : offset + sDirsize < 1024
              · simp only [if_pos hoffset]
                exact ih _ _ (some b) s
              · simp only [if_neg hoffset]
                refine (unmapBrelse_lowers s b).bind ?_
                rintro a t rfl
                have hrest := ih ((block + 1) % 65536) 0 none (s - mappedPin b)
                rw [heldPins, add_zero] at hrest
                refine hrest.mono ?_
                rintro r t ⟨bhs, hscan, rfl⟩
                refine ⟨b :: bhs, by rw [hscan]; rfl, ?_⟩
                exact sub_sub_pins s (mappedPin b) (mappedPins bhs)
      · simp only [if_neg hsize]
        have hback : Pinned (do Pins.brelse bh; pure true) (heldPins bh) fun r h =>
            r = true ∧ h = 0 :=
          Pinned.brelsePins (Trades.pure ⟨rfl, rfl⟩)
        refine (hback s).mono ?_
        rintro r t ⟨h, rfl, rfl, rfl⟩
        exact ⟨[], rfl, add_zero s⟩

omit [DecidableEq β] in
/-- The first buffer that the loop unmaps is the one it starts with. -/
theorem emptyScan_head :
    ∀ {block offset : Nat} {bh : β} {r : Bool} {bhs : List β},
      emptyScan W inode fuel block offset (some bh) = some (r, bhs) →
        bhs = [] ∨ ∃ rest, bhs = bh :: rest := by
  induction fuel with
  | zero => exact fun h => nomatch h
  | succ fuel ih =>
      intro block offset bh r bhs h
      unfold emptyScan at h
      by_cases hsize : block * 1024 + offset < W.iSize inode
      · simp only [if_pos hsize, Option.some_or] at h
        by_cases hlive : (W.entry bh offset).inode ≠ 0
        · rw [if_pos hlive] at h
          obtain ⟨-, rfl⟩ := Prod.mk.inj (Option.some.inj h)
          exact .inr ⟨[], rfl⟩
        · rw [if_neg hlive] at h
          by_cases hoffset : offset + sDirsize < 1024
          · rw [if_pos hoffset] at h
            exact ih h
          · rw [if_neg hoffset] at h
            obtain ⟨⟨r', rest⟩, -, hr⟩ := Option.map_eq_some_iff.mp h
            obtain ⟨-, rfl⟩ := Prod.mk.inj hr
            exact .inr ⟨rest, rfl⟩
      · rw [if_neg hsize] at h
        obtain ⟨-, rfl⟩ := Prod.mk.inj (Option.some.inj h)
        exact .inl rfl

/-- The scan of a directory that `empty_dir` comes to: the buffer of block 0, and
what the loop does. -/
def DirWorld.scan (W : DirWorld ι β) (fuel : Nat) (inode : ι) :
    Option (β × Option (Bool × List β)) :=
  if W.iSize inode % sDirsize ≠ 0 ∨ W.iSize inode < 2 * sDirsize then
    none
  else
    match W.block inode 0 with
    | none => none
    | some bh =>
        if (W.entry bh 0).inode ≠ 0 ∧ isNamed [46] (W.entry bh 0) ∧
            (W.entry bh sDirsize).inode ≠ 0 ∧ isNamed [46, 46] (W.entry bh sDirsize) then
          some (bh, emptyScan W inode fuel 0 (2 * sDirsize) (some bh))
        else
          none

theorem bread_pinned (work : List β) (bh : Option β) :
    Pinned (bread work bh) 0 fun r h => r = bh ∧ h = heldPins bh := by
  rw [← bind_pure (bread work bh)]
  exact Pinned.bread (Trades.pure ⟨rfl, zero_add _⟩)

theorem mapBuffer_pinned (bh : β) : Pinned (mapBuffer (some bh)) 0 fun _ h => h = mappedPin bh := by
  rw [← bind_pure (mapBuffer (some bh))]
  exact Pinned.mapBuffer (Trades.pure (zero_add _))

theorem emptyDir_outcome (fuel : Nat) (inode : ι) (s : Pin β → ℕ) :
    Outcome (· ≠ .nullHead) (emptyDir W fuel inode) s fun _ s' =>
      (W.scan fuel inode = none ∧ s' = s) ∨
        ∃ bh r bhs, W.scan fuel inode = some (bh, some (r, bhs)) ∧
          s' = s + mappedPin bh - mappedPins bhs := by
  unfold emptyDir DirWorld.scan
  by_cases hsize : W.iSize inode % sDirsize ≠ 0 ∨ W.iSize inode < 2 * sDirsize
  · simp only [if_pos hsize]
    exact Outcome.pure (.inl ⟨trivial, rfl⟩)
  · simp only [if_neg hsize]
    have hbread := bread_pinned (W.bmapWork inode 0) (W.block inode 0) s
    rw [add_zero] at hbread
    refine hbread.bind ?_
    rintro r t ⟨h, rfl, rfl, rfl⟩
    cases W.block inode 0 with
    | none => exact Outcome.pure (.inl ⟨rfl, add_zero s⟩)
    | some bh =>
        simp only
        by_cases hdots : (W.entry bh 0).inode ≠ 0 ∧ isNamed [46] (W.entry bh 0) ∧
            (W.entry bh sDirsize).inode ≠ 0 ∧ isNamed [46, 46] (W.entry bh sDirsize)
        · simp only [if_pos hdots]
          have hmap := mapBuffer_pinned bh (s + heldPin bh)
          rw [add_zero] at hmap
          refine hmap.bind ?_
          rintro a t ⟨h, rfl, rfl⟩
          rw [add_right_comm]
          refine (emptyLoop_lowers inode fuel 0 (2 * sDirsize) (some bh) (s + mappedPin bh)).mono ?_
          rintro r t ⟨bhs, hscan, rfl⟩
          exact .inr ⟨bh, r, bhs, by rw [hscan], rfl⟩
        · simp only [if_neg hdots]
          have hback : Pinned (do mapBuffer (some bh); unmapBrelse (some bh); pure true)
              (heldPin bh) fun _ h => h = 0 :=
            Pinned.mapBuffer (Pinned.unmapBrelse (zero_add _).symm (Trades.pure rfl))
          refine (hback s).mono ?_
          rintro r t ⟨h, rfl, rfl⟩
          exact .inl ⟨trivial, add_zero s⟩

/-- The scan of a directory unmaps its block 0, and no further block that somebody
else has mapped. -/
def DirWorld.ScanClean (W : DirWorld ι β) (fuel : Nat) (inode : ι) (s : Pin β → ℕ) : Prop :=
  ∀ bh r bhs, W.scan fuel inode = some (bh, some (r, bhs)) →
    bhs ≠ [] ∧ ∀ b ∈ bhs.tail, s (b, .mapped) = 0

omit [DecidableEq β] in
theorem scan_head {r : Bool} (h : W.scan fuel inode = some (bh, some (r, bhs))) :
    bhs = [] ∨ ∃ rest, bhs = bh :: rest := by
  unfold DirWorld.scan at h
  by_cases hsize : W.iSize inode % sDirsize ≠ 0 ∨ W.iSize inode < 2 * sDirsize
  · rw [if_pos hsize] at h
    cases h
  · rw [if_neg hsize] at h
    cases hblock : W.block inode 0 with
    | none =>
        rw [hblock] at h
        cases h
    | some b =>
        rw [hblock] at h
        by_cases hdots : (W.entry b 0).inode ≠ 0 ∧ isNamed [46] (W.entry b 0) ∧
            (W.entry b sDirsize).inode ≠ 0 ∧ isNamed [46, 46] (W.entry b sDirsize)
        · simp only [if_pos hdots] at h
          obtain ⟨rfl, hscan⟩ := Prod.mk.inj (Option.some.inj h)
          exact emptyScan_head hscan
        · simp only [if_neg hdots] at h
          cases h

theorem scan_even_iff {s : Pin β → ℕ} {bh c : β} (hhead : bhs = [] ∨ ∃ rest, bhs = bh :: rest) :
    s + mappedPin c + mappedPin bh - mappedPins bhs - mappedPin c = s ↔
      bhs ≠ [] ∧ ∀ b ∈ bhs.tail, s (b, .mapped) = 0 := by
  rcases hhead with rfl | ⟨rest, rfl⟩
  · refine iff_of_false (fun h => ?_) fun h => h.1 rfl
    have hp := congrFun h (bh, .mapped)
    have hone : mappedPin bh (bh, .mapped) = 1 := one_self _
    simp only [Pi.add_apply, Pi.sub_apply, mappedPins, Pi.zero_apply, hone] at hp
    omega
  · have hpoint : s + mappedPin c + mappedPin bh - mappedPins (bh :: rest) - mappedPin c = s ↔
        ∀ p, mappedPins rest p = 0 ∨ s p = 0 := by
      rw [funext_iff]
      refine forall_congr' fun p => ?_
      simp only [Pi.add_apply, Pi.sub_apply, mappedPins]
      omega
    rw [hpoint]
    refine ⟨fun h => ⟨List.cons_ne_nil _ _, fun b hb => ?_⟩, fun h p => ?_⟩
    · exact (h (b, .mapped)).resolve_left (Nat.pos_iff_ne_zero.mp (mappedPins_mapped_pos.mpr hb))
    · rcases p with ⟨b, kind⟩
      cases kind with
      | held => exact .inl (mappedPins_held rest b)
      | mapped =>
          rcases Nat.eq_zero_or_pos (mappedPins rest (b, .mapped)) with h0 | hpos
          · exact .inl h0
          · exact .inr (h.2 b (mappedPins_mapped_pos.mp hpos))

theorem minixRmdir_settles [DecidableEq ι] (fuel : Nat) (dir : ι) (name : List UInt8)
    (s : Pin β → ℕ) :
    Settles (minixRmdir W fuel dir name) s
      (∀ bh offset, W.find fuel dir name = some (some (bh, offset)) →
        rmdirCheck W dir (W.named (W.entry bh offset).inode) = none →
          W.ScanClean fuel (W.named (W.entry bh offset).inode) s) := by
  refine Settles.find (fun bh offset hfind => ?_) fun hfind => ?_
  · have hsame : ∀ bh' offset',
        W.find fuel dir name = some (some (bh', offset')) → bh' = bh ∧ offset' = offset :=
      fun bh' offset' h =>
        Prod.mk.inj (Option.some.inj (Option.some.inj (h.symm.trans hfind)))
    have hmap := mapBuffer_pinned bh (s + heldPin bh)
    rw [add_zero] at hmap
    refine (hmap.imp (fun e he h => absurd h he) fun _ _ h => h).bind ?_
    rintro a t ⟨h, rfl, rfl⟩
    have hget : Pinned (iget W (W.entry bh offset).inode) 0 fun a h =>
        a = W.named (W.entry bh offset).inode ∧ h = 0 := by
      rw [← bind_pure (iget W (W.entry bh offset).inode)]
      exact Pinned.iget (Trades.pure ⟨rfl, rfl⟩)
    have hget' := hget (s + heldPin bh + mappedPin bh)
    rw [add_zero] at hget'
    refine (hget'.imp (fun e he h => absurd h he) fun _ _ h => h).bind ?_
    rintro inode t ⟨h, rfl, rfl, rfl⟩
    rw [add_zero]
    cases hcheck : rmdirCheck W dir (W.named (W.entry bh offset).inode) with
    | some error =>
        rw [add_assoc]
        refine Pinned.settles ?_ s fun bh' offset' h hc => ?_
        · refine Pinned.iput (Pinned.iput ?_)
          exact Pinned.unmapBrelse (zero_add _).symm (Trades.pure rfl)
        · obtain ⟨rfl, rfl⟩ := hsame bh' offset' h
          cases hcheck.symm.trans hc
    | none =>
        refine ((emptyDir_outcome fuel _ _).imp (fun e he h => absurd h he) fun _ _ h => h).bind ?_
        rintro empty t (⟨hscan, rfl⟩ | ⟨b, r, bhs, hscan, rfl⟩)
        · rw [add_assoc]
          refine Pinned.settles ?_ s fun bh' offset' h _ b r bhs hs => ?_
          · refine Pinned.iput (Pinned.iput ?_)
            exact Pinned.unmapBrelse (zero_add _).symm (Trades.pure rfl)
          · obtain ⟨rfl, rfl⟩ := hsame bh' offset' h
            cases hscan.symm.trans hs
        · have hmove : s + heldPin bh + mappedPin bh + mappedPin b - mappedPins bhs =
              s + mappedPin bh + mappedPin b - mappedPins bhs + heldPin bh := by
            rw [← add_held_sub, add_right_comm s, add_right_comm (s + mappedPin bh)]
          rw [hmove]
          have hputs : Quiet (do Pins.iput W dir
                                 Pins.iput W (W.named (W.entry bh offset).inode)) :=
            Pinned.iput (iput_quiet _)
          rw [← bind_assoc]
          refine ((hputs.lowers _).imp (fun e he h => absurd h he) fun _ _ h => h).bind ?_
          rintro a t ⟨rfl, _⟩
          rw [sub_zero_pins]
          refine ((unmapBrelse_lowers _ bh).imp (fun e he h => absurd h he) fun _ _ h => h).bind ?_
          rintro a t rfl
          refine Outcome.pure ((scan_even_iff (scan_head hscan)).trans ⟨fun h => ?_, fun h => ?_⟩)
          · intro bh' offset' hf _ b' r' bhs' hs
            obtain ⟨rfl, rfl⟩ := hsame bh' offset' hf
            obtain ⟨-, hr⟩ := Prod.mk.inj (Option.some.inj (hscan.symm.trans hs))
            obtain ⟨-, rfl⟩ := Prod.mk.inj (Option.some.inj hr)
            exact h
          · exact h bh offset hfind hcheck b r bhs hscan
  · refine (quiet_iput dir _).settles s fun bh offset h => ?_
    cases hfind.symm.trans h

end Empty

/-! ## The pins of every call -/

section Calls

variable {ι β : Type} [DecidableEq β] [DecidableEq ι]

/-- A call of the directory code. -/
inductive DirCall (ι : Type)
  | lookup (dir : ι) (name : List UInt8)
  | create (dir : ι) (name : List UInt8)
  | mknod (dir : ι) (name : List UInt8)
  | mkdir (dir : ι) (name : List UInt8)
  | rmdir (dir : ι) (name : List UInt8)
  | unlink (dir : ι) (name : List UInt8)
  | symlink (dir : ι) (name : List UInt8)
  | link (oldinode dir : ι) (name : List UInt8)

/-- The routine of a call. -/
def DirCall.run (W : DirWorld ι β) (fuel : Nat) : DirCall ι → Pinning β (Option Errno)
  | .lookup dir name => minixLookup W fuel dir name
  | .create dir name => minixCreate W fuel dir name
  | .mknod dir name => minixMknod W fuel dir name
  | .mkdir dir name => minixMkdir W fuel dir name
  | .rmdir dir name => minixRmdir W fuel dir name
  | .unlink dir name => minixUnlink W fuel dir name
  | .symlink dir name => minixSymlink W fuel dir name
  | .link oldinode dir name => minixLink W fuel oldinode dir name

/-- The call returns, or ends at a `NULL` head. -/
def Ends : Except PinFault (Option Errno × (Pin β → ℕ)) → Prop
  | .ok _ => True
  | .error e => e = .nullHead

/-- The call returns, with the counts as they were. -/
def Even (s : Pin β → ℕ) : Except PinFault (Option Errno × (Pin β → ℕ)) → Prop
  | .ok (_, s') => s' = s
  | .error _ => False

/-- When a call in state `s` is even. -/
def DirCall.Clean (W : DirWorld ι β) (fuel : Nat) (s : Pin β → ℕ) : DirCall ι → Prop
  | .create _ _ => W.NoStray s
  | .mknod dir name => W.find fuel dir name = some none → W.NoStray s
  | .mkdir dir name =>
      W.find fuel dir name = some none → W.iNlink dir < linkMax → W.NoStray s
  | .rmdir dir name =>
      ∀ bh offset, W.find fuel dir name = some (some (bh, offset)) →
        rmdirCheck W dir (W.named (W.entry bh offset).inode) = none →
          W.ScanClean fuel (W.named (W.entry bh offset).inode) s
  | .symlink dir name =>
      W.NoStray s ∧ (W.hasInode → (W.newBlock W.newIno 0).isSome →
        W.find fuel dir name ≠ some none)
  | _ => True

omit [DecidableEq β] in
theorem Settles.even_iff {m : Pinning β (Option Errno)} {s : Pin β → ℕ} {clean : Prop}
    (hm : Settles m s clean) (hends : Ends (m s)) : Even s (m s) ↔ clean := by
  unfold Settles Outcome at hm
  cases hrun : m s with
  | ok r =>
      rw [hrun] at hm
      exact hm
  | error e =>
      rw [hrun] at hm hends
      exact iff_of_false id (hm hends)

/-- A call that returns or ends at a `NULL` head is even exactly when it is clean,
whatever the directories hold. -/
theorem dirCall_pins_iff
    (W : DirWorld ι β)
    (fuel : Nat)
    (call : DirCall ι)
    (s : Pin β → ℕ)
    (hends : Ends (call.run W fuel s)) :
    Even s (call.run W fuel s) ↔ call.Clean W fuel s := by
  refine Settles.even_iff ?_ hends
  cases call with
  | lookup dir name => exact (minixLookup_quiet fuel dir name).settles s trivial
  | create dir name => exact (minixCreate_lowers fuel dir name).settles Iff.rfl
  | mknod dir name => exact minixMknod_settles fuel dir name s
  | mkdir dir name => exact minixMkdir_settles fuel dir name s
  | rmdir dir name => exact minixRmdir_settles fuel dir name s
  | unlink dir name => exact (minixUnlink_quiet fuel dir name).settles s trivial
  | symlink dir name => exact minixSymlink_settles fuel dir name s
  | link oldinode dir name => exact (minixLink_quiet fuel oldinode dir name).settles s trivial

/-- The name `name` for inode `ino`. -/
def dirEntry (ino : Nat) (name : List UInt8) : DirEntry where
  inode := ino
  name i := name.getD i 0

/-- A directory `false` with one entry, the empty directory `true` of 32 bytes under
the name `d`. -/
def smallWorld : DirWorld Bool Bool where
  iSize i := if i then 32 else 16
  iNlink _ := 2
  iIno i := if i then 2 else 1
  iDev _ := 0x100
  isDir _ := true
  isBusy _ := false
  sticky _ _ := false
  block i n := if n = 0 then some i else none
  newBlock _ _ := none
  bmapWork _ _ := []
  entry b offset :=
    if b then
      if offset = 0 then dirEntry 2 [46] else dirEntry 1 [46, 46]
    else
      dirEntry 2 [100]
  imap := [none]
  zeroBit _ := true
  inoFits := true
  newIno := false
  named n := n == 2
  inodeWork _ := []

theorem lookup_d_even :
    Even (fun _ => 0) ((DirCall.lookup false [100]).run smallWorld 5 fun _ => 0) ↔
      (DirCall.lookup false [100]).Clean smallWorld 5 fun _ : Pin Bool => 0 :=
  dirCall_pins_iff smallWorld 5 (.lookup false [100]) (fun _ => 0) trivial

/-- `rmdir("d")` succeeds and the buffer of the removed directory stays mapped. -/
theorem rmdir_d_uneven :
    (∃ s', (DirCall.rmdir false [100]).run smallWorld 5 (fun _ => 0) = .ok (none, s') ∧
      s' (true, .mapped) = 1) ∧
      ¬ Even (fun _ => 0) ((DirCall.rmdir false [100]).run smallWorld 5 fun _ => 0) := by
  refine ⟨⟨_, rfl, rfl⟩, fun h => ?_⟩
  have hmapped := congrFun h (true, .mapped)
  exact absurd hmapped (by decide)

end Calls

end Pins
end Elks
