import Elks.Lib.Bytes
import Elks.Minix.Super

/-!
# stat and fstat (fs/stat.c, fs/read_write.c, arch/i86/mm/user.c)

Both calls end in `cp_stat`, which copies a record about an inode to the caller:
`sys_stat` after `namei`, `sys_fstat` after `fd_check`.  `sys_fstat` calls it
exactly when `fd_check` has failed.

* `memcpyTofs_inj`: copies of two records are the same only if the records are;
* `sysFstat_agrees_iff`: when the two calls agree about an open file;
* `sysFstat_closed`: for a descriptor that is not open a file structure is read
  all the same.
-/

namespace Elks
namespace Stat

open Lib
open Minix (Errno)

section Code

/-- `NR_OPEN`. -/
def nrOpen : Nat :=
  20

def fmodeRead : UInt16 := 1
def fmodeWrite : UInt16 := 2

/-- `sizeof(struct stat)`. -/
def statSize : UInt16 := 30

/-- What `cp_stat` looks at of a `struct inode`. -/
structure Inode where
  iMode : UInt16
  iUid : UInt16
  iSize : UInt32
  iMtime : UInt32
  iGid : UInt8
  iNlink : UInt8
  iIno : UInt16
  iDev : UInt16
  iRdev : UInt16
  iAtime : UInt32
  iCtime : UInt32

/-- What the calls look at of a `struct file`: an address of an inode, and whether
there are operations. -/
structure File where
  fMode : UInt16
  fInode : Nat
  fOp : Bool

/-- The descriptors, the data segment and its end of the current task, the segment of
the kernel, and what stands at the addresses of the kernel; a null pointer is zero. -/
structure Kernel where
  fd : Nat → Nat
  ds : UInt16
  endseg : UInt16
  mem : UInt16 → UInt8
  kernelDs : UInt16
  file : Nat → File
  inode : Nat → Inode

/-- What a call returns, what it leaves in the data segment, and the file structures
that it has looked into. -/
structure Reply where
  ret : Option Errno
  mem : UInt16 → UInt8
  reads : List Nat

/-- `verfy_area`. -/
def Kernel.verfyArea (k : Kernel) (p len : UInt16) : Option Errno :=
  if k.kernelDs = k.ds then none
  else if k.endseg < p + len then some .efault
  else none

/-- `memcpy_tofs`; the address in `di` wraps. -/
def memcpyTofs (mem : UInt16 → UInt8) (daddr : UInt16) (bytes : List UInt8) :
    UInt16 → UInt8 :=
  fun a => bytes.getD (a - daddr).toNat (mem a)

/-- The `struct stat` about an inode, by the sizes and values of its members. -/
def Inode.stat (i : Inode) : List (Nat × Nat) :=
  [(2, i.iDev.toNat), (2, i.iIno.toNat), (2, i.iMode.toNat), (2, i.iNlink.toNat),
    (2, i.iUid.toNat), (2, i.iGid.toNat), (2, i.iRdev.toNat), (4, i.iSize.toNat),
    (4, i.iAtime.toNat), (4, i.iMtime.toNat), (4, i.iCtime.toNat)]

/-- The bytes of the record about an inode. -/
def Inode.record (i : Inode) : List UInt8 :=
  pack i.stat

/-- `cp_stat`. -/
def Kernel.cpStat (k : Kernel) (inode : Nat) (statbuf : UInt16) : Reply :=
  match k.verfyArea statbuf statSize with
  | some error => ⟨some error, k.mem, []⟩
  | none => ⟨none, memcpyTofs k.mem statbuf (k.inode inode).record, []⟩

/-- `sys_stat`, with what `namei` makes of a file name. -/
def Kernel.sysStat (k : Kernel) {Path : Type} (namei : Path → Except Errno Nat)
    (filename : Path) (statbuf : UInt16) : Reply :=
  match namei filename with
  | .error error => ⟨some error, k.mem, []⟩
  | .ok inode => k.cpStat inode statbuf

/-- What `fd_check` returns, what is in `*file` then, and where it has looked. -/
structure Check where
  ret : Option Errno
  file : Nat
  reads : List Nat

/-- `fd_check`, with what is in `*file` at the start. -/
def Kernel.fdCheck (k : Kernel) (fd : Nat) (buf count : UInt16) (rw : UInt16) (file : Nat) :
    Check :=
  let tfil := k.fd fd
  if nrOpen ≤ fd ∨ tfil = 0 then ⟨some .ebadf, file, []⟩
  else if (k.file tfil).fInode = 0 ∨ (k.file tfil).fMode &&& rw = 0 then
    ⟨some .ebadf, file, [tfil]⟩
  else if ¬(k.file tfil).fOp then ⟨some .einval, file, [tfil]⟩
  else ⟨if count = 0 then none else k.verfyArea buf count, tfil, [tfil]⟩

/-- `sys_fstat`; `f` is what is in its variable of that name at the start. -/
def Kernel.sysFstat (k : Kernel) (f fd : Nat) (statbuf : UInt16) : Reply :=
  let check := k.fdCheck fd statbuf statSize (fmodeWrite ||| fmodeRead) f
  match check.ret with
  | none => ⟨none, k.mem, check.reads⟩
  | some _ =>
      let reply := k.cpStat (k.file check.file).fInode statbuf
      ⟨reply.ret, reply.mem, check.reads ++ [check.file]⟩

end Code

section Records

variable {mem : UInt16 → UInt8} {p : UInt16} {l l' : List UInt8}

theorem memcpyTofs_at {j : Nat} (hj : j < 2 ^ 16) :
    memcpyTofs mem p l (p + UInt16.ofNat j) = l.getD j (mem (p + UInt16.ofNat j)) := by
  have hoffset : (p + UInt16.ofNat j - p).toNat = j := by
    rw [UInt16.add_comm p, UInt16.add_sub_cancel, UInt16.toNat_ofNat_of_lt' hj]
  rw [memcpyTofs, hoffset]

theorem memcpyTofs_eq_iff (hl : l.length ≤ 2 ^ 16) :
    memcpyTofs mem p l = mem ↔
      ∀ j (hj : j < l.length), mem (p + UInt16.ofNat j) = l[j] := by
  constructor
  · intro h j hj
    have hbyte := congrFun h (p + UInt16.ofNat j)
    rw [memcpyTofs_at (Nat.lt_of_lt_of_le hj hl), List.getD_eq_getElem _ _ hj] at hbyte
    exact hbyte.symm
  · intro h
    funext a
    unfold memcpyTofs
    rcases Nat.lt_or_ge (a - p).toNat l.length with hj | hj
    · have hbyte := h _ hj
      rw [UInt16.ofNat_toNat, UInt16.add_comm p, UInt16.sub_add_cancel] at hbyte
      rw [List.getD_eq_getElem _ _ hj, hbyte]
    · exact List.getD_eq_default _ _ hj

theorem memcpyTofs_inj (hl : l.length ≤ 2 ^ 16) (hlen : l'.length = l.length) :
    memcpyTofs mem p l' = memcpyTofs mem p l ↔ l' = l := by
  refine ⟨fun h => ?_, fun h => by rw [h]⟩
  refine List.ext_getElem hlen fun j hj hj' => ?_
  have hbyte := congrFun h (p + UInt16.ofNat j)
  have hlt : j < 2 ^ 16 := Nat.lt_of_lt_of_le hj' hl
  rw [memcpyTofs_at hlt, memcpyTofs_at hlt, List.getD_eq_getElem _ _ hj,
    List.getD_eq_getElem _ _ hj'] at hbyte
  exact hbyte

@[simp] theorem length_record (i : Inode) : i.record.length = 30 := by
  rw [Inode.record, length_pack]
  rfl

end Records

section Calls

variable {k : Kernel} {f fd ino : Nat} {buf : UInt16} {Path : Type}
  {namei : Path → Except Errno Nat} {path : Path}

/-- The descriptor is open on an inode. -/
structure Kernel.OpenOn (k : Kernel) (fd ino : Nat) : Prop where
  range : fd < nrOpen
  file : k.fd fd ≠ 0
  inode : (k.file (k.fd fd)).fInode = ino
  some : ino ≠ 0

/-- The file may be read or written, and there are operations. -/
def Kernel.Usable (k : Kernel) (fd : Nat) : Prop :=
  (k.file (k.fd fd)).fMode &&& (fmodeWrite ||| fmodeRead) ≠ 0 ∧ (k.file (k.fd fd)).fOp = true

instance (k : Kernel) (fd : Nat) : Decidable (k.Usable fd) :=
  inferInstanceAs (Decidable (_ ∧ _))

/-- The bytes are in the data segment at `p`. -/
def Kernel.Holds (k : Kernel) (p : UInt16) (bytes : List UInt8) : Prop :=
  ∀ j (hj : j < bytes.length), k.mem (p + UInt16.ofNat j) = bytes[j]

theorem cpStat_none (h : k.verfyArea buf statSize = none) :
    k.cpStat ino buf = ⟨none, memcpyTofs k.mem buf (k.inode ino).record, []⟩ := by
  rw [Kernel.cpStat, h]

theorem cpStat_some {error : Errno} (h : k.verfyArea buf statSize = some error) :
    k.cpStat ino buf = ⟨some error, k.mem, []⟩ := by
  rw [Kernel.cpStat, h]

theorem fdCheck_usable (hopen : k.OpenOn fd ino) (husable : k.Usable fd) :
    k.fdCheck fd buf statSize (fmodeWrite ||| fmodeRead) f =
      ⟨k.verfyArea buf statSize, k.fd fd, [k.fd fd]⟩ := by
  have hrange := Nat.not_le.mpr hopen.range
  have hinode : (k.file (k.fd fd)).fInode ≠ 0 := by
    rw [hopen.inode]
    exact hopen.some
  have hcount : statSize ≠ 0 := by decide
  simp only [Kernel.fdCheck, hrange, hopen.file, hinode, husable.1, husable.2, hcount,
    or_self, not_true, if_false]

theorem fdCheck_unusable (hopen : k.OpenOn fd ino) (husable : ¬k.Usable fd) :
    ∃ error, k.fdCheck fd buf statSize (fmodeWrite ||| fmodeRead) f =
      ⟨some error, f, [k.fd fd]⟩ := by
  have hrange := Nat.not_le.mpr hopen.range
  have hinode : (k.file (k.fd fd)).fInode ≠ 0 := by
    rw [hopen.inode]
    exact hopen.some
  by_cases hmode : (k.file (k.fd fd)).fMode &&& (fmodeWrite ||| fmodeRead) = 0
  · refine ⟨.ebadf, ?_⟩
    simp only [Kernel.fdCheck, hrange, hopen.file, hmode, or_self, or_true, if_false, if_true]
  · have hop : ¬(k.file (k.fd fd)).fOp = true := fun h => husable ⟨hmode, h⟩
    refine ⟨.einval, ?_⟩
    simp only [Kernel.fdCheck, hrange, hopen.file, hinode, hmode, or_self, if_false,
      if_pos hop]

/-- The two calls return the same value and leave the same in the data segment. -/
def Agree (k : Kernel) (namei : Path → Except Errno Nat) (path : Path) (f fd : Nat)
    (buf : UInt16) : Prop :=
  (k.sysFstat f fd buf).ret = (k.sysStat namei path buf).ret ∧
    (k.sysFstat f fd buf).mem = (k.sysStat namei path buf).mem

/-- When `fstat` and `stat` agree about an open file. -/
def Kernel.AgreesOn (k : Kernel) (ino f fd : Nat) (buf : UInt16) : Prop :=
  k.verfyArea buf statSize ≠ none ∨
    if k.Usable fd then k.Holds buf (k.inode ino).record
    else (k.inode (k.file f).fInode).record = (k.inode ino).record

theorem agree_iff (hpath : namei path = .ok ino) (hopen : k.OpenOn fd ino) :
    Agree k namei path f fd buf ↔ k.AgreesOn ino f fd buf := by
  have hstat : k.sysStat namei path buf = k.cpStat ino buf := by
    rw [Kernel.sysStat, hpath]
  unfold Agree Kernel.AgreesOn
  rw [hstat]
  by_cases husable : k.Usable fd
  · have hcheck := @fdCheck_usable k f fd ino buf hopen husable
    rw [if_pos husable]
    cases hbuf : k.verfyArea buf statSize with
    | none =>
        rw [hbuf] at hcheck
        simp only [Kernel.sysFstat, hcheck, cpStat_none hbuf, true_and, ne_eq, not_true,
          false_or]
        rw [eq_comm, memcpyTofs_eq_iff (by rw [length_record]; decide)]
        rfl
    | some error =>
        rw [hbuf] at hcheck
        simp [Kernel.sysFstat, hcheck, cpStat_some hbuf]
  · obtain ⟨error, hcheck⟩ := @fdCheck_unusable k f fd ino buf hopen husable
    rw [if_neg husable]
    cases hbuf : k.verfyArea buf statSize with
    | none =>
        simp only [Kernel.sysFstat, hcheck, cpStat_none hbuf, true_and, ne_eq, not_true,
          false_or]
        exact memcpyTofs_inj (by rw [length_record]; decide)
          ((length_record _).trans (length_record _).symm)
    | some error => simp [Kernel.sysFstat, hcheck, cpStat_some hbuf]

theorem sysFstat_closed (hclosed : nrOpen ≤ fd ∨ k.fd fd = 0) :
    (k.sysFstat f fd buf).reads = [f] := by
  have hcheck : k.fdCheck fd buf statSize (fmodeWrite ||| fmodeRead) f =
      ⟨some .ebadf, f, []⟩ := by
    simp only [Kernel.fdCheck, if_pos hclosed]
  simp [Kernel.sysFstat, hcheck]

/-- **`fstat` and `stat`.**  About an open file they agree exactly if the buffer is
refused, or the file can be used and the record is in the buffer already, or it
cannot be used and the inode at which the variable happens to point has the same
record.  For a descriptor that is not open `fstat` never gets by without reading a
file structure. -/
theorem sysFstat_agrees_iff (k : Kernel) (f : Nat) (buf : UInt16) :
    (∀ (Path : Type) (namei : Path → Except Errno Nat) (path : Path) (ino fd : Nat),
      namei path = .ok ino → k.OpenOn fd ino →
        (Agree k namei path f fd buf ↔ k.AgreesOn ino f fd buf)) ∧
    ∀ fd, nrOpen ≤ fd ∨ k.fd fd = 0 →
      ¬((k.sysFstat f fd buf).ret ≠ none ∧ (k.sysFstat f fd buf).reads = []) := by
  refine ⟨fun _ _ _ _ _ hpath hopen => agree_iff hpath hopen, ?_⟩
  rintro fd hclosed ⟨-, hreads⟩
  rw [sysFstat_closed hclosed] at hreads
  cases hreads

/-- A task with one open file, of seven bytes. -/
def oneOpen : Kernel where
  fd := fun fd => if fd = 3 then 100 else 0
  ds := 0x2000
  endseg := 0x4000
  mem := fun _ => 0
  kernelDs := 0x1000
  file := fun _ => ⟨1, 200, true⟩
  inode := fun _ => ⟨0o100644, 0, 7, 0, 0, 1, 5, 0x100, 0, 0, 0⟩

theorem oneOpen_open : oneOpen.OpenOn 3 200 :=
  ⟨by decide, by decide, rfl, by decide⟩

/-- A buffer at the end of the segment is refused by both calls. -/
theorem sysFstat_agrees_refused :
    (fun _ : Unit => Except.ok 200 : Unit → Except Errno Nat) () = .ok 200 ∧
      oneOpen.OpenOn 3 200 ∧
      Agree oneOpen (fun _ : Unit => .ok 200) () 0 3 0x3ff0 ∧
      nrOpen ≤ 20 ∧ ¬((oneOpen.sysFstat 0 20 0x3ff0).ret ≠ none ∧
        (oneOpen.sysFstat 0 20 0x3ff0).reads = []) := by
  have h := sysFstat_agrees_iff oneOpen 0 0x3ff0
  refine ⟨rfl, oneOpen_open, ?_, Nat.le_refl 20, h.2 20 (Or.inl (Nat.le_refl 20))⟩
  exact (h.1 Unit _ () 200 3 rfl oneOpen_open).mpr (Or.inl (by decide))

/-- `fstat` of the open file returns 0 and stores nothing. -/
theorem oneOpen_disagrees :
    oneOpen.OpenOn 3 200 ∧ ¬Agree oneOpen (fun _ : Unit => .ok 200) () 0 3 0x3000 := by
  refine ⟨oneOpen_open, fun h => ?_⟩
  have hbyte := congrFun h.2 0x3001
  exact absurd hbyte (by decide)

end Calls

end Stat
end Elks
