import Elks.Romfs.Image

/-!
# Listing and looking up in a romfs directory (fs/romfs/inode.c, fs/readdir.c)

A directory is a chain of headers, each with its name behind it.  `readdir`
keeps the offset of the next header in `f_pos` and marks the end of the chain
with `0xffffffff`, which in a `loff_t` is -1.  The test for the end compares
signed numbers, so a call at the end does not see it there: it goes on to copy a
header from offset -1, and asks for block 65535 of the device.

`romfs_lookup` walks the chain with a test of its own and compares the name with
`strncmp`.  The name was given by a program and lies in its segment; `strncmp`
reads the kernel's.

* `sysReaddir_lists`: from `f_pos` zero the calls deliver the chain in order;
* `sysReaddir_astray`: each call after that asks for block 65535;
* `romfsLookup_finds`: look-up answers for the bytes of the kernel at the address
  of the name;
* `romfs_never_agrees`: so no directory is listed as it should be.
-/

namespace Elks
namespace Romfs

open Lib
open Minix (Errno hasFormat sIfdir)

section Code

/-- The inode of a directory. -/
structure Dir where
  iIno : Nat
  iMode : Nat

/-- `ntohl` of the four bytes from `k` on. -/
def ntohlAt (b : Nat → UInt8) (k : Nat) : Nat :=
  16777216 * (b k).toNat + 65536 * (b (k + 1)).toNat + 256 * (b (k + 2)).toNat +
    (b (k + 3)).toNat

/-- `ntohl(ri.next)`. -/
def riNext (ri : Nat → UInt8) : Nat :=
  ntohlAt ri 0

/-- `ntohl(ri.spec)`. -/
def riSpec (ri : Nat → UInt8) : Nat :=
  ntohlAt ri 4

/-- `& ROMFH_MASK`. -/
def romfhMask (n : Nat) : Nat :=
  n / 16 * 16

/-- `(n & ROMFH_TYPE) == ROMFH_HRD`. -/
def isHardLink (n : Nat) : Bool :=
  n % 8 == 0

/-- `(loff_t) n`. -/
def toLoff (n : Nat) : Int :=
  if n < 2147483648 then n else (n : Int) - 4294967296

/-- `(ino_t) n`. -/
def toIno (n : Int) : Nat :=
  (n % 65536).toNat

/-- `struct linux_dirent`. -/
structure Dirent where
  dIno : Nat
  dOffset : Int
  dNamlen : Nat
  dName : List UInt8
deriving DecidableEq

/-- `struct readdir_callback`. -/
structure Callback where
  count : Nat
  dirent : Option Dirent

/-- `fillonedir`. -/
def fillonedir (buf : Callback) (name : Nat → UInt8) (namlen : Nat) (offset : Int) (ino : Nat) :
    Except Errno Callback :=
  if buf.count ≠ 0 then .error .einval
  else
    .ok {
      count := buf.count + 1
      dirent := some {
        dIno := ino
        dOffset := offset
        dNamlen := namlen
        dName := (List.range namlen).map name } }

/-- The loop of `romfs_readdir`: `f_pos`, `stored` and the callback at its end.
`filldir` refuses the second entry, so it goes round twice at most. -/
def readdirLoop (img : Image) : Nat → (Nat → UInt8) → Int → Int → Nat → Callback →
    Rom (Int × Nat × Callback)
  | 0, _, _, fPos, stored, buf => pure (fPos, stored, buf)
  | n + 1, fsname, offset, _, stored, buf =>
      if offset = 0 ∨ toLoff img.sMaxsize ≤ offset then pure (-1, stored, buf)
      else do
        let ri ← romfsCopyfrom img (fun _ => 0) offset 16
        if ri.1 ≤ 0 then return (offset, stored, buf)
        else
          let j ← romfsStrnlen img (offset + 16) 127
          if j < 0 then return (offset, stored, buf)
          else
            let fsname ← romfsCopyfrom img (Function.update fsname j.toNat 0) (offset + 16) j.toNat
            let ino := if isHardLink (riNext ri.2) then toIno (riSpec ri.2) else toIno offset
            match fillonedir buf fsname.2 j.toNat offset ino with
            | .error _ => return (offset, stored, buf)
            | .ok buf =>
                readdirLoop img n fsname.2 (toLoff (romfhMask (riNext ri.2))) offset (stored + 1) buf

/-- `romfs_readdir`; `fsname` is what the stack holds. -/
def romfsReaddir (img : Image) (fsname : Nat → UInt8) (dir : Dir) (fPos : Int) (buf : Callback) :
    Rom (Except Errno (Int × Nat × Callback)) :=
  if hasFormat sIfdir dir.iMode = false then pure (.error .ebadf)
  else if fPos = 0 then do
    let ri ← romfsCopyfrom img (fun _ => 0) (romfhMask dir.iIno) 16
    if ri.1 ≤ 0 then return .ok (fPos, 0, buf)
    else return .ok (← readdirLoop img 2 fsname (toLoff (romfhMask (riSpec ri.2))) fPos 0 buf)
  else do
    return .ok (← readdirLoop img 2 fsname fPos fPos 0 buf)

/-- What `sys_readdir` leaves: its result, `f_pos`, and the entry if there is
one. -/
structure Listed where
  ret : Except Errno Nat
  fPos : Int
  dirent : Option Dirent

/-- `sys_readdir`, of a descriptor that `fd_check` finds open on the directory. -/
def sysReaddir (img : Image) (fsname : Nat → UInt8) (dir : Dir) (fPos : Int) : Rom Listed := do
  match ← romfsReaddir img fsname dir fPos { count := 0, dirent := none } with
  | .error e => return { ret := .error e, fPos := fPos, dirent := none }
  | .ok (fPos, _, buf) => return { ret := .ok buf.count, fPos := fPos, dirent := buf.dirent }

/-- `strncmp(a, b, n) == 0`. -/
def strncmpEq (a b : Nat → UInt8) : Nat → Bool
  | 0 => true
  | n + 1 =>
      if a 0 ≠ b 0 then false
      else if a 0 = 0 then true
      else strncmpEq (fun k => a (k + 1)) (fun k => b (k + 1)) n

/-- The bytes of a segment from an address on. -/
def bytesFrom (segment : Nat → UInt8) (addr : Nat) (k : Nat) : UInt8 :=
  segment ((addr + k) % 65536)

/-- The loop of `romfs_lookup`: the number of the inode that `iget` is asked for.
The name is compared where `strncmp` finds it, in the segment of the kernel. -/
def lookupLoop (img : Image) (kernel : Nat → UInt8) (name len : Nat) :
    Nat → (Nat → UInt8) → Int → Rom (Option (Except Errno Nat))
  | 0, _, _ => pure none
  | n + 1, fsname, offset =>
      if offset = 0 ∨ toLoff img.sMaxsize ≤ offset then pure (some (.error .enoent))
      else do
        let ri ← romfsCopyfrom img (fun _ => 0) offset 16
        if ri.1 ≤ 0 then return some (.error .enoent)
        else
          let found : Except Errno Nat := .ok (toIno
            (if isHardLink (riNext ri.2) then toLoff (romfhMask (riSpec ri.2)) else offset))
          let next := toLoff (romfhMask (riNext ri.2))
          let fslen := toIno (← romfsStrnlen img (offset + 16) 16)
          if len < 16 then
            if len = fslen then
              let fsname ← romfsCopyfrom img fsname (offset + 16) (len + 1)
              if strncmpEq (bytesFrom kernel name) fsname.2 len then return some found
              else lookupLoop img kernel name len n fsname.2 next
            else lookupLoop img kernel name len n fsname next
          else if 16 ≤ fslen then
            let fslen := toIno (← romfsStrnlen img (offset + 16) 127)
            if len = fslen then
              let fsname ← romfsCopyfrom img fsname (offset + 16) (len + 1)
              if strncmpEq (bytesFrom kernel name) fsname.2 len then return some found
              else lookupLoop img kernel name len n fsname.2 next
            else lookupLoop img kernel name len n fsname next
          else lookupLoop img kernel name len n fsname next

/-- `romfs_lookup`, with a bound on the rounds of its loop. -/
def romfsLookup (img : Image) (kernel fsname : Nat → UInt8) (dir : Dir) (name len n : Nat) :
    Rom (Option (Except Errno Nat)) :=
  if hasFormat sIfdir dir.iMode = false then pure (some (.error .ebadf))
  else do
    let ri ← romfsCopyfrom img (fun _ => 0) (romfhMask dir.iIno) 16
    if ri.1 ≤ 0 then return some (.error .enoent)
    else lookupLoop img kernel name len n fsname (toLoff (romfhMask (riSpec ri.2)))

end Code

section Headers

variable (img : Image)

/-- The field `next` of the header at `o`. -/
def Image.next (o : Nat) : Nat :=
  riNext fun k => img.byte (o + k)

/-- The field `spec` of the header at `o`. -/
def Image.spec (o : Nat) : Nat :=
  riSpec fun k => img.byte (o + k)

/-- The inode that the header at `o` stands for. -/
def Image.target (o : Nat) : Nat :=
  if isHardLink (img.next o) then img.spec o else o

/-- A header of a directory, and its name. -/
structure Entry where
  offset : Nat
  name : List UInt8
deriving DecidableEq

/-- The entry lies in the image, its name is one that `ROMFS_MAXFN` leaves room
for and ends in the image, and a hard link points to a header. -/
structure Entry.WellFormed (e : Entry) : Prop where
  pos : 0 < e.offset
  fits : e.offset + 16 + e.name.length < img.sMaxsize
  short : e.name.length < 128
  bytes : ∀ k (h : k < e.name.length), img.byte (e.offset + 16 + k) = e.name[k]
  noNul : ∀ c ∈ e.name, c ≠ 0
  ends : img.byte (e.offset + 16 + e.name.length) = 0
  link : isHardLink (img.next e.offset) = true →
    img.spec e.offset % 16 = 0 ∧ img.spec e.offset < img.sMaxsize

/-- The chain of headers from `o` on, which ends with zero. -/
inductive Chain : Nat → List Entry → Prop
  | nil : Chain 0 []
  | cons (e : Entry) (rest : List Entry) :
      e.WellFormed img →
      Chain (romfhMask (img.next e.offset)) rest →
      Chain e.offset (e :: rest)

/-- An image smaller than 64 KiB with a directory of well formed entries. -/
structure WellFormed (dir : Dir) (entries : List Entry) : Prop where
  readable : Readable img
  isDir : hasFormat sIfdir dir.iMode = true
  header : romfhMask dir.iIno + 16 ≤ img.sMaxsize
  chain : Chain img (romfhMask (img.spec (romfhMask dir.iIno))) entries

/-- What `readdir` is to say of an entry. -/
def Image.direntOf (e : Entry) : Dirent where
  dIno := img.target e.offset
  dOffset := e.offset
  dNamlen := e.name.length
  dName := e.name

end Headers

section Entries

variable {img : Image} {o n : Nat} {e : Entry} {rest : List Entry}

theorem riNext_memcpy (dest : Nat → UInt8) (o : Nat) :
    riNext (memcpy dest 0 (fun k => img.byte (o + k)) 16) = img.next o := by
  unfold Image.next riNext ntohlAt
  rw [memcpy_apply _ _ (by decide), memcpy_apply _ _ (by decide), memcpy_apply _ _ (by decide),
    memcpy_apply _ _ (by decide)]

theorem riSpec_memcpy (dest : Nat → UInt8) (o : Nat) :
    riSpec (memcpy dest 0 (fun k => img.byte (o + k)) 16) = img.spec o := by
  unfold Image.spec riSpec ntohlAt
  rw [memcpy_apply _ _ (by decide), memcpy_apply _ _ (by decide), memcpy_apply _ _ (by decide),
    memcpy_apply _ _ (by decide)]

theorem toLoff_of_lt (h : n < 65536) : toLoff n = n := by
  unfold toLoff
  rw [if_pos (by omega)]

theorem toIno_natCast (h : n < 65536) : toIno n = n := by
  unfold toIno
  omega

namespace Entry.WellFormed

theorem byte_ne (h : e.WellFormed img) {k : Nat} (hk : k < e.name.length) :
    img.byte (e.offset + 16 + k) ≠ 0 := by
  rw [h.bytes k hk]
  exact h.noNul _ (List.getElem_mem hk)

theorem strnlen_reads (h : e.WellFormed img) (hr : Readable img) (count : Nat) :
    Reads img.Inside (romfsStrnlen img ((e.offset : Int) + 16) count)
      (min e.name.length count : Nat) := by
  have hfits := h.fits
  have hlen := strnlen_eq (s := fun k => img.byte (e.offset + 16 + k))
    (fun i hi => h.byte_ne hi) h.ends (min count (img.sMaxsize - (e.offset + 16)))
  have hread := romfsStrnlen_reads hr (o := e.offset + 16) (by omega) count
  rw [hlen] at hread
  rw [show (e.offset : Int) + 16 = ((e.offset + 16 : Nat) : Int) by omega,
    show min e.name.length count =
      min e.name.length (min count (img.sMaxsize - (e.offset + 16))) by omega]
  exact hread

theorem header_reads (h : e.WellFormed img) (hr : Readable img) (dest : Nat → UInt8) :
    Reads img.Inside (romfsCopyfrom img dest e.offset 16)
      (16, memcpy dest 0 (fun k => img.byte (e.offset + k)) 16) := by
  have hfits := h.fits
  exact romfsCopyfrom_reads hr (by omega) (by omega) dest

theorem name_reads (h : e.WellFormed img) (hr : Readable img) (dest : Nat → UInt8) {n : Nat}
    (hn : n ≤ e.name.length + 1) :
    Reads img.Inside (romfsCopyfrom img dest ((e.offset : Int) + 16) n)
      (n, memcpy dest 0 (fun k => img.byte (e.offset + 16 + k)) n) := by
  have hfits := h.fits
  rw [show (e.offset : Int) + 16 = ((e.offset + 16 : Nat) : Int) by omega]
  exact romfsCopyfrom_reads hr (by omega) (by omega) dest

theorem name_eq (h : e.WellFormed img) (dest : Nat → UInt8) :
    (List.range e.name.length).map
      (memcpy dest 0 (fun k => img.byte (e.offset + 16 + k)) e.name.length) = e.name := by
  refine List.ext_getElem (by simp) fun k hk hk' => ?_
  rw [List.getElem_map, List.getElem_range, memcpy_apply _ _ hk', h.bytes k hk']

theorem not_end (h : e.WellFormed img) (hr : Readable img) :
    ¬((e.offset : Int) = 0 ∨ toLoff img.sMaxsize ≤ (e.offset : Int)) := by
  have hfits := h.fits
  have hpos := h.pos
  rw [toLoff_of_lt hr.lt]
  omega

theorem lt (h : e.WellFormed img) (hr : Readable img) : e.offset < 65536 := by
  have hfits := h.fits
  have hlt := hr.lt
  omega

theorem ino_eq (h : e.WellFormed img) (hr : Readable img) :
    (if isHardLink (img.next e.offset) then toIno (img.spec e.offset) else toIno e.offset) =
      img.target e.offset := by
  unfold Image.target
  split
  · rename_i hlink
    exact toIno_natCast (Nat.lt_trans (h.link hlink).2 hr.lt)
  · exact toIno_natCast (h.lt hr)

theorem found_eq (h : e.WellFormed img) (hr : Readable img) :
    toIno (if isHardLink (img.next e.offset) then toLoff (romfhMask (img.spec e.offset))
      else e.offset) = img.target e.offset := by
  unfold Image.target
  split
  · rename_i hlink
    obtain ⟨halign, hlt⟩ := h.link hlink
    have hlt' := Nat.lt_trans hlt hr.lt
    have hmask : romfhMask (img.spec e.offset) = img.spec e.offset := by
      unfold romfhMask
      omega
    rw [hmask, toLoff_of_lt hlt', toIno_natCast hlt']
  · exact toIno_natCast (h.lt hr)

end Entry.WellFormed

end Entries

section Listing

variable {img : Image} {o : Nat} {e : Entry} {rest entries : List Entry} {a : Int × Nat × Callback}
  {buf : Callback}

theorem Chain.lt (h : Chain img o entries) (hr : Readable img) : o < 65536 := by
  cases h with
  | nil => decide
  | cons e rest he _ => exact he.lt hr

/-- Where `f_pos` is when the entries are still to come. -/
def posOf : List Entry → Int
  | [] => -1
  | e :: _ => e.offset

theorem readdirLoop_refused (hr : Readable img) (h : Chain img o entries) (n : Nat)
    (fsname : Nat → UInt8) (fPos : Int) (stored : Nat) (hbuf : buf.count ≠ 0) :
    Reads img.Inside (readdirLoop img (n + 1) fsname o fPos stored buf)
      (posOf entries, stored, buf) := by
  unfold readdirLoop
  cases h with
  | nil =>
      rw [if_pos (Or.inl Nat.cast_zero)]
      exact Reads.pure _
  | cons e rest he hrest =>
      have hlen : min e.name.length 127 = e.name.length := by
        have hshort := he.short
        omega
      have hname := he.strnlen_reads hr 127
      rw [hlen] at hname
      rw [if_neg (he.not_end hr)]
      refine (he.header_reads hr _).bind ?_
      rw [if_neg (by simp)]
      refine hname.bind ?_
      rw [if_neg (by omega), Int.toNat_natCast]
      refine (he.name_reads hr _ (Nat.le_succ _)).bind ?_
      unfold fillonedir
      dsimp only
      rw [if_pos hbuf]
      exact Reads.pure _

theorem readdirLoop_delivers (hr : Readable img) (he : e.WellFormed img)
    (hrest : Chain img (romfhMask (img.next e.offset)) rest) (n : Nat) (fsname : Nat → UInt8)
    (fPos : Int) (stored : Nat) (hbuf : buf.count = 0) :
    Reads img.Inside (readdirLoop img (n + 2) fsname e.offset fPos stored buf)
      (posOf rest, stored + 1, { count := 1, dirent := some (img.direntOf e) }) := by
  have hlen : min e.name.length 127 = e.name.length := by
    have hshort := he.short
    omega
  have hname := he.strnlen_reads hr 127
  rw [hlen] at hname
  unfold readdirLoop
  rw [if_neg (he.not_end hr)]
  refine (he.header_reads hr _).bind ?_
  rw [if_neg (by simp)]
  refine hname.bind ?_
  rw [if_neg (by omega), Int.toNat_natCast]
  refine (he.name_reads hr _ (Nat.le_succ _)).bind ?_
  unfold fillonedir
  dsimp only
  rw [if_neg (not_not.mpr hbuf)]
  dsimp only
  rw [riNext_memcpy, riSpec_memcpy, he.ino_eq hr, he.name_eq, hbuf, toLoff_of_lt (hrest.lt hr)]
  exact readdirLoop_refused hr hrest n _ _ _ (by simp)

theorem WellFormed.header_reads {dir : Dir} (h : WellFormed img dir entries) :
    Reads img.Inside (romfsCopyfrom img (fun _ => 0) (romfhMask dir.iIno) 16)
      (16, memcpy (fun _ => 0) 0 (fun k => img.byte (romfhMask dir.iIno + k)) 16) := by
  have hin := h.header
  exact romfsCopyfrom_reads h.readable (by omega) hin _

variable {dir : Dir} {fsname : Nat → UInt8}

theorem sysReaddir_start (h : WellFormed img dir entries)
    (hloop : Reads img.Inside
      (readdirLoop img 2 fsname (romfhMask (img.spec (romfhMask dir.iIno)) : Nat) 0 0
        { count := 0, dirent := none }) a) :
    Reads img.Inside (sysReaddir img fsname dir 0)
      { ret := .ok a.2.2.count, fPos := a.1, dirent := a.2.2.dirent } := by
  have hrun : Reads img.Inside
      (romfsReaddir img fsname dir 0 { count := 0, dirent := none }) (.ok a) := by
    unfold romfsReaddir
    rw [if_neg (by simp [h.isDir]), if_pos rfl]
    refine h.header_reads.bind ?_
    rw [if_neg (by simp), riSpec_memcpy, toLoff_of_lt (h.chain.lt h.readable)]
    exact hloop.bind (Reads.pure _)
  exact hrun.bind (Reads.pure _)

theorem sysReaddir_later (h : WellFormed img dir entries) {fPos : Int} (hpos : fPos ≠ 0)
    (hloop : Reads img.Inside
      (readdirLoop img 2 fsname fPos fPos 0 { count := 0, dirent := none }) a) :
    Reads img.Inside (sysReaddir img fsname dir fPos)
      { ret := .ok a.2.2.count, fPos := a.1, dirent := a.2.2.dirent } := by
  have hrun : Reads img.Inside
      (romfsReaddir img fsname dir fPos { count := 0, dirent := none }) (.ok a) := by
    unfold romfsReaddir
    rw [if_neg (by simp [h.isDir]), if_neg hpos]
    exact hloop.bind (Reads.pure _)
  exact hrun.bind (Reads.pure _)

/-- `f_pos` when the entries given are still to come: zero at the start, and
later the offset of the next entry or the mark of the end. -/
inductive Position (img : Image) (dir : Dir) : Int → List Entry → Prop
  | start (entries : List Entry) :
      Chain img (romfhMask (img.spec (romfhMask dir.iIno))) entries →
      Position img dir 0 entries
  | later (o : Nat) (entries : List Entry) :
      Chain img o entries →
      Position img dir (posOf entries) entries

theorem sysReaddir_entry {all : List Entry} (h : WellFormed img dir all) {fPos : Int}
    (hpos : Position img dir fPos (e :: rest)) :
    Reads img.Inside (sysReaddir img fsname dir fPos)
        { ret := .ok 1, fPos := posOf rest, dirent := some (img.direntOf e) } ∧
      Position img dir (posOf rest) rest := by
  cases hpos with
  | start _ hchain =>
      generalize ho : romfhMask (img.spec (romfhMask dir.iIno)) = o at hchain
      cases hchain with
      | cons _ _ he hrest =>
          refine ⟨sysReaddir_start h (a := (posOf rest, 1, ⟨1, some (img.direntOf e)⟩)) ?_,
            Position.later _ _ hrest⟩
          rw [ho]
          exact readdirLoop_delivers h.readable he hrest 0 fsname 0 0 rfl
  | later o _ hchain =>
      cases hchain with
      | cons _ _ he hrest =>
          have hpos := he.pos
          refine ⟨sysReaddir_later h (a := (posOf rest, 1, ⟨1, some (img.direntOf e)⟩))
            (Int.natCast_ne_zero.mpr (by omega)) ?_, Position.later _ _ hrest⟩
          exact readdirLoop_delivers h.readable he hrest 0 fsname _ 0 rfl

theorem sysReaddir_empty {all : List Entry} (h : WellFormed img dir all)
    (hchain : Chain img (romfhMask (img.spec (romfhMask dir.iIno))) []) :
    Reads img.Inside (sysReaddir img fsname dir 0)
      { ret := .ok 0, fPos := -1, dirent := none } := by
  refine sysReaddir_start h (a := (-1, 0, ⟨0, none⟩)) ?_
  generalize romfhMask (img.spec (romfhMask dir.iIno)) = o at hchain
  cases hchain
  unfold readdirLoop
  rw [if_pos (Or.inl Nat.cast_zero)]
  exact Reads.pure _

theorem sysReaddir_astray {all : List Entry} (h : WellFormed img dir all) :
    65535 ∈ (sysReaddir img fsname dir (-1)).asked := by
  have hheader := h.header
  have hlt := h.readable.lt
  unfold sysReaddir romfsReaddir
  rw [if_neg (by simp [h.isDir]), if_neg (by decide), Rom.asked_bind, Rom.asked_bind]
  refine List.mem_append_left _ (List.mem_append_left _ ?_)
  unfold readdirLoop
  rw [if_neg (by rw [toLoff_of_lt hlt]; omega), Rom.asked_bind]
  refine List.mem_append_left _ ?_
  unfold romfsCopyfrom
  rw [h.readable.wrap, if_neg (by omega), Rom.asked_bind]
  exact List.mem_append_left _ (List.mem_singleton.mpr rfl)

end Listing

section Lookup

variable {img : Image} {o n : Nat} {e : Entry} {rest entries : List Entry}

/-- Up to the end of the second string `strncmp` compares every byte. -/
theorem strncmpEq_iff {a b : Nat → UInt8} (h : ∀ k, k < n → b k ≠ 0) :
    strncmpEq a b n = true ↔ ∀ k, k < n → a k = b k := by
  induction n generalizing a b with
  | zero => simp [strncmpEq]
  | succ n ih =>
      unfold strncmpEq
      by_cases h0 : a 0 = b 0
      · have hb : a 0 ≠ 0 := by
          rw [h0]
          exact h 0 (Nat.succ_pos n)
        rw [if_neg (not_not.mpr h0), if_neg hb,
          ih (fun k hk => h (k + 1) (Nat.succ_lt_succ hk))]
        constructor
        · intro hrest k hk
          cases k with
          | zero => exact h0
          | succ k => exact hrest k (by omega)
        · exact fun hall k hk => hall (k + 1) (Nat.succ_lt_succ hk)
      · rw [if_pos h0]
        exact iff_of_false (by simp) fun hall => h0 (hall 0 (Nat.succ_pos n))

/-- The name of `len` bytes at an address of a segment. -/
def nameAt (segment : Nat → UInt8) (name len : Nat) : List UInt8 :=
  (List.range len).map (bytesFrom segment name)

@[simp]
theorem nameAt_length (segment : Nat → UInt8) (name len : Nat) :
    (nameAt segment name len).length = len := by
  simp [nameAt]

/-- What look-up of a name is to answer. -/
def Image.answer (img : Image) (entries : List Entry) (name : List UInt8) : Except Errno Nat :=
  (entries.find? fun e => e.name = name).elim (.error .enoent) fun e => .ok (img.target e.offset)

theorem compare_reads (hr : Readable img) (he : e.WellFormed img) {kernel : Nat → UInt8}
    {name len : Nat} (hlen : e.name.length = len) (fsname : Nat → UInt8) (found : Except Errno Nat)
    {next : (Nat → UInt8) → Rom (Option (Except Errno Nat))} {a : Except Errno Nat}
    (hnext : ∀ fs, Reads img.Inside (next fs) (some a)) :
    Reads img.Inside
      (romfsCopyfrom img fsname ((e.offset : Int) + 16) (len + 1) >>= fun fs =>
        if strncmpEq (bytesFrom kernel name) fs.2 len then pure (some found) else next fs.2)
      (some (if e.name = nameAt kernel name len then found else a)) := by
  subst hlen
  refine (he.name_reads hr fsname (Nat.le_refl _)).bind ?_
  have hbytes : ∀ k (hk : k < e.name.length),
      memcpy fsname 0 (fun k => img.byte (e.offset + 16 + k)) (e.name.length + 1) k =
        e.name[k] := by
    intro k hk
    rw [memcpy_apply _ _ (Nat.lt_succ_of_lt hk), he.bytes k hk]
  dsimp only
  generalize memcpy fsname 0 (fun k => img.byte (e.offset + 16 + k)) (e.name.length + 1) = fs
    at hbytes ⊢
  have hcmp : strncmpEq (bytesFrom kernel name) fs e.name.length = true ↔
      ∀ k, k < e.name.length → bytesFrom kernel name k = fs k := by
    refine strncmpEq_iff fun k hk => ?_
    rw [hbytes k hk]
    exact he.noNul _ (List.getElem_mem hk)
  have hsame : e.name = nameAt kernel name e.name.length ↔
      strncmpEq (bytesFrom kernel name) fs e.name.length = true := by
    rw [hcmp]
    constructor
    · intro heq k hk
      rw [hbytes k hk, List.getElem_of_eq heq]
      simp [nameAt]
    · intro hall
      refine List.ext_getElem (by simp) fun k hk hk' => ?_
      rw [← hbytes k hk, ← hall k hk]
      simp [nameAt]
  by_cases hhit : e.name = nameAt kernel name e.name.length
  · rw [if_pos hhit, if_pos (hsame.mp hhit)]
    exact Reads.pure _
  · rw [if_neg hhit, if_neg (fun h => hhit (hsame.mpr h))]
    exact hnext _

theorem lookupLoop_finds (hr : Readable img) (kernel : Nat → UInt8) (name len : Nat)
    (h : Chain img o entries) (n : Nat) (hn : entries.length < n) (fsname : Nat → UInt8) :
    Reads img.Inside (lookupLoop img kernel name len n fsname o)
      (some (img.answer entries (nameAt kernel name len))) := by
  induction h generalizing n fsname with
  | nil =>
      obtain ⟨n, rfl⟩ : ∃ k, n = k + 1 := ⟨n - 1, by omega⟩
      unfold lookupLoop
      rw [if_pos (Or.inl Nat.cast_zero)]
      exact Reads.pure _
  | cons e rest he hrest ih =>
      obtain ⟨n, rfl⟩ : ∃ k, n = k + 1 := ⟨n - 1, by omega⟩
      rw [List.length_cons] at hn
      have hnext : ∀ fs, Reads img.Inside
          (lookupLoop img kernel name len n fs (toLoff (romfhMask (img.next e.offset))))
          (some (img.answer rest (nameAt kernel name len))) := by
        intro fs
        rw [toLoff_of_lt (hrest.lt hr)]
        exact ih n (by omega) fs
      have hanswer : img.answer (e :: rest) (nameAt kernel name len) =
          if e.name = nameAt kernel name len then .ok (img.target e.offset)
          else img.answer rest (nameAt kernel name len) := by
        unfold Image.answer
        rw [List.find?_cons]
        by_cases hhit : e.name = nameAt kernel name len
        · simp [hhit]
        · simp [hhit]
      have hskip : e.name.length ≠ len → img.answer (e :: rest) (nameAt kernel name len) =
          img.answer rest (nameAt kernel name len) := by
        intro hne
        rw [hanswer, if_neg]
        intro heq
        rw [heq, nameAt_length] at hne
        exact hne rfl
      have hshort := he.short
      unfold lookupLoop
      rw [if_neg (he.not_end hr)]
      refine (he.header_reads hr _).bind ?_
      rw [if_neg (by simp)]
      dsimp only
      rw [riNext_memcpy, riSpec_memcpy, he.found_eq hr]
      refine (he.strnlen_reads hr 16).bind ?_
      rw [toIno_natCast (by omega)]
      by_cases h16 : len < 16
      · rw [if_pos h16]
        by_cases hlen : len = min e.name.length 16
        · rw [if_pos hlen, hanswer]
          exact compare_reads hr he (by omega) fsname _ hnext
        · rw [if_neg hlen, hskip (by omega)]
          exact hnext _
      · rw [if_neg h16]
        by_cases hlong : 16 ≤ min e.name.length 16
        · rw [if_pos hlong]
          refine (he.strnlen_reads hr 127).bind ?_
          rw [toIno_natCast (by omega)]
          by_cases hlen : len = min e.name.length 127
          · rw [if_pos hlen, hanswer]
            exact compare_reads hr he (by omega) fsname _ hnext
          · rw [if_neg hlen, hskip (by omega)]
            exact hnext _
        · rw [if_neg hlong, hskip (by omega)]
          exact hnext _

theorem romfsLookup_finds {dir : Dir} (h : WellFormed img dir entries) (kernel fsname : Nat → UInt8)
    (name len : Nat) (hn : entries.length < n) :
    Reads img.Inside (romfsLookup img kernel fsname dir name len n)
      (some (img.answer entries (nameAt kernel name len))) := by
  unfold romfsLookup
  rw [if_neg (by simp [h.isDir])]
  refine h.header_reads.bind ?_
  rw [if_neg (by simp), riSpec_memcpy, toLoff_of_lt (h.chain.lt h.readable)]
  exact lookupLoop_finds h.readable kernel name len h.chain n hn fsname

end Lookup

section Agreement

variable (img : Image) (dir : Dir) (entries : List Entry)

/-- `f_pos` before call number `i` of `sys_readdir`, from zero on; `stack i` is
what that call finds on the stack. -/
def posAt (stack : Nat → Nat → UInt8) : Nat → Int
  | 0 => 0
  | i + 1 => (sysReaddir img (stack i) dir (posAt stack i)).val.fPos

/-- Call number `i` of `sys_readdir`. -/
def callAt (stack : Nat → Nat → UInt8) (i : Nat) : Rom Listed :=
  sysReaddir img (stack i) dir (posAt img dir stack i)

/-- The calls deliver each entry once, in the order of the chain, then return
zero for ever, and no call asks for a block outside the image. -/
structure Lists (stack : Nat → Nat → UInt8) : Prop where
  delivers : ∀ i (h : i < entries.length),
    (callAt img dir stack i).val.ret = .ok 1 ∧
      (callAt img dir stack i).val.dirent = some (img.direntOf entries[i])
  ends : ∀ i, entries.length ≤ i → (callAt img dir stack i).val.ret = .ok 0
  inside : ∀ i, ∀ b ∈ (callAt img dir stack i).asked, img.Inside b

/-- What look-up of a name is to answer, by the listing. -/
inductive Answers (name : List UInt8) : Except Errno Nat → Prop
  | found (e : Entry) :
      e ∈ entries →
      e.name = name →
      Answers name (.ok (img.target e.offset))
  | absent :
      (∀ e ∈ entries, e.name ≠ name) →
      Answers name (.error .enoent)

/-- `romfs_lookup` of the name that the program has at an address comes back
with what the listing says of it. -/
def LooksUp (kernel user fsname : Nat → UInt8) (name len : Nat) : Prop :=
  ∀ r, (∃ m, ∀ n, m ≤ n → (romfsLookup img kernel fsname dir name len n).val = some r) ↔
    Answers img entries (nameAt user name len) r

variable {img dir entries}

theorem position_at (h : WellFormed img dir entries) (stack : Nat → Nat → UInt8) (i : Nat)
    (hi : i ≤ entries.length) : Position img dir (posAt img dir stack i) (entries.drop i) := by
  induction i with
  | zero => exact Position.start entries h.chain
  | succ i ih =>
      have hprev := ih (by omega)
      rw [List.drop_eq_getElem_cons (by omega)] at hprev
      have hcall := @sysReaddir_entry _ _ _ _ (stack i) _ h _ hprev
      have hpos : posAt img dir stack (i + 1) = posOf (entries.drop (i + 1)) :=
        congrArg Listed.fPos hcall.1.val
      rw [hpos]
      exact hcall.2

/-- The calls deliver the entries in the order of the chain, and ask for blocks
of the image only. -/
theorem sysReaddir_lists
    (h : WellFormed img dir entries)
    (stack : Nat → Nat → UInt8)
    (i : Nat)
    (hi : i < entries.length) :
    Reads img.Inside (callAt img dir stack i)
      { ret := .ok 1, fPos := posOf (entries.drop (i + 1)),
        dirent := some (img.direntOf entries[i]) } := by
  have hpos := position_at h stack i (by omega)
  rw [List.drop_eq_getElem_cons hi] at hpos
  exact (sysReaddir_entry h hpos).1

/-- One of the two calls after the last entry asks for a block that is not in
the image. -/
theorem not_lists (h : WellFormed img dir entries) (stack : Nat → Nat → UInt8) :
    ¬ Lists img dir entries stack := by
  intro hl
  have hout : ¬ img.Inside 65535 := by
    have hlt := h.readable.lt
    unfold Image.Inside
    omega
  have hastray : ∀ i, posAt img dir stack i ≠ -1 := by
    intro i hi
    refine hout (hl.inside i 65535 ?_)
    unfold callAt
    rw [hi]
    exact sysReaddir_astray h
  have hpos := position_at h stack entries.length (Nat.le_refl _)
  rw [List.drop_length] at hpos
  generalize hp : posAt img dir stack entries.length = p at hpos
  generalize hes : ([] : List Entry) = es at hpos
  cases hpos with
  | start _ hchain =>
      subst hes
      refine hastray (entries.length + 1) ?_
      have hcall := (@sysReaddir_empty _ _ (stack entries.length) _ h hchain).val
      change (sysReaddir img (stack entries.length) dir
        (posAt img dir stack entries.length)).val.fPos = -1
      rw [hp, hcall]
  | later o _ _ =>
      subst hes
      exact hastray entries.length hp

theorem answers_iff (hd : ∀ e ∈ entries, ∀ e' ∈ entries, e.name = e'.name → e = e')
    (name : List UInt8) (r : Except Errno Nat) :
    Answers img entries name r ↔ r = img.answer entries name := by
  unfold Image.answer
  cases hfind : entries.find? fun e => e.name = name with
  | none =>
      have hnone : ∀ e ∈ entries, e.name ≠ name := by
        intro e he
        simpa using List.find?_eq_none.mp hfind e he
      constructor
      · intro ha
        cases ha with
        | found e he hname => exact absurd hname (hnone e he)
        | absent _ => rfl
      · rintro rfl
        exact Answers.absent hnone
  | some e =>
      have he : e ∈ entries := List.mem_of_find?_eq_some hfind
      have hname : e.name = name := by simpa using List.find?_some hfind
      constructor
      · intro ha
        cases ha with
        | found e' he' hname' =>
            rw [hd e' he' e he (hname'.trans hname.symm)]
            rfl
        | absent hnone => exact absurd hname (hnone e he)
      · rintro rfl
        exact Answers.found e he hname

theorem romfsLookup_returns_iff (h : WellFormed img dir entries) (kernel fsname : Nat → UInt8)
    (name len : Nat) (r : Except Errno Nat) :
    (∃ m, ∀ n, m ≤ n → (romfsLookup img kernel fsname dir name len n).val = some r) ↔
      r = img.answer entries (nameAt kernel name len) := by
  constructor
  · rintro ⟨m, hm⟩
    have hrun := hm (max m (entries.length + 1)) (Nat.le_max_left _ _)
    rw [(romfsLookup_finds h kernel fsname name len (by omega)).val] at hrun
    exact (Option.some.inj hrun).symm
  · rintro rfl
    exact ⟨entries.length + 1, fun n hn =>
      (romfsLookup_finds h kernel fsname name len (by omega)).val⟩

theorem looksUp_iff (h : WellFormed img dir entries)
    (hd : ∀ e ∈ entries, ∀ e' ∈ entries, e.name = e'.name → e = e')
    (kernel user fsname : Nat → UInt8) (name len : Nat) :
    LooksUp img dir entries kernel user fsname name len ↔
      img.answer entries (nameAt kernel name len) =
        img.answer entries (nameAt user name len) := by
  unfold LooksUp
  simp only [romfsLookup_returns_iff h, answers_iff hd]
  exact ⟨fun hall => (hall _).mp rfl, fun he r => by rw [he]⟩

/-- No directory of a well formed image is listed and looked up as it should
be: every listing ends with calls that ask for block 65535. -/
theorem romfs_never_agrees
    (img : Image) (dir : Dir) (entries : List Entry)
    (h : WellFormed img dir entries)
    (stack : Nat → Nat → UInt8) (kernel user fsname : Nat → UInt8) (name len : Nat) :
    ¬(Lists img dir entries stack ∧ LooksUp img dir entries kernel user fsname name len) :=
  fun hboth => not_lists h stack hboth.1

end Agreement

section Small

/-- An image of 96 bytes: a directory at 32 whose only entry, at 48, is the file
`a`. -/
def smallImage : Image where
  sMaxsize := 96
  block := fun b =>
    if b = 0 then
      some fun k =>
        if k.val = 39 then 48 else if k.val = 51 then 2 else if k.val = 64 then 97 else 0
    else none

def smallDir : Dir where
  iIno := 32
  iMode := sIfdir

def smallEntry : Entry where
  offset := 48
  name := [97]

theorem smallImage_wellFormed : WellFormed smallImage smallDir [smallEntry] := by
  have hentry : smallEntry.WellFormed smallImage :=
    ⟨by decide, by decide, by decide, by decide, by simp [smallEntry], by decide, by decide⟩
  refine ⟨⟨by decide, ?_⟩, by decide, by decide, ?_⟩
  · intro b hb
    have hb0 : b = 0 := by
      unfold Image.Inside smallImage at hb
      dsimp only at hb
      omega
    exact ⟨_, if_pos hb0⟩
  · exact Chain.cons smallEntry [] hentry Chain.nil

theorem sysReaddir_lists_small :
    Reads smallImage.Inside (callAt smallImage smallDir (fun _ _ => 0) 0)
      { ret := .ok 1, fPos := posOf [], dirent := some (smallImage.direntOf smallEntry) } :=
  sysReaddir_lists smallImage_wellFormed (fun _ _ => 0) 0 Nat.one_pos

/-- The segment of a program that has the name `a` at address zero. -/
def smallUser (k : Nat) : UInt8 :=
  if k = 0 then 97 else 0

theorem romfs_never_agrees_small :
    ¬(Lists smallImage smallDir [smallEntry] (fun _ _ => 0) ∧
      LooksUp smallImage smallDir [smallEntry] (fun _ => 0) smallUser (fun _ => 0) 0 1) :=
  romfs_never_agrees smallImage smallDir [smallEntry] smallImage_wellFormed (fun _ _ => 0)
    (fun _ => 0) smallUser (fun _ => 0) 0 1

/-- The second call asks for block 65535, and the file `a` is not found. -/
theorem romfs_lists_astray :
    (callAt smallImage smallDir (fun _ _ => 0) 1).asked = [65535] ∧
      ¬ Lists smallImage smallDir [smallEntry] (fun _ _ => 0) ∧
      ¬ LooksUp smallImage smallDir [smallEntry] (fun _ => 0) smallUser (fun _ => 0) 0 1 := by
  refine ⟨by rfl, not_lists smallImage_wellFormed _, fun hl => ?_⟩
  have he := (looksUp_iff smallImage_wellFormed (by decide) _ _ _ 0 1).mp hl
  exact absurd he (by decide)

end Small

end Romfs
end Elks
