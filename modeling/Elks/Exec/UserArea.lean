import Elks.Exec.Image
import Elks.Minix.Super

/-!
# The addresses of a task (fs/exec.c, arch/i86/mm/user.c)

`sys_execve` notes in the task how far its data segment goes, in sixteen bits.
`verfy_area` adds an address and a length in sixteen bits too, and compares; the verified
copies between the kernel and the task move the bytes only after that.

**Result.**  `userArea_exact_iff`: a task may use just the addresses in its segment,
exactly when the sum of address and length does not come round, or for a full segment,
whose size is noted as zero, when it does.
-/

namespace Elks
namespace Exec

open Lib
open Minix (Errno)

/-- What `sys_execve` leaves in a task about its data segment. -/
structure UserTask where
  dseg : Nat
  ds : Nat
  ss : Nat
  begstack : Nat
  endbrk : Nat
  enddata : Nat
  endseg : Nat

/-- The end of `sys_execve`. -/
def Binary.start (b : Binary) (dseg slen : Nat) : UserTask where
  dseg := dseg
  ds := dseg
  ss := dseg
  begstack := stackPtr b.mh b.stackTop slen
  endbrk := wrap 16 (b.mh.dseg + b.mh.bseg + b.stackTop)
  enddata := wrap 16 (b.mh.dseg + b.stackTop)
  endseg := wrap 16 (dataLen b.mh b.stackTop)

section Code

variable (kernelDs : Nat) (t : UserTask)

/-- `verfy_area`; `kernelDs` is `get_ds()`. -/
def verfyArea (p len : Nat) : Option Errno :=
  if kernelDs = t.ds then none
  else if t.endseg < wrap 16 (p + len) then some .efault
  else none

/-- The offsets that `rep movsb` comes to. -/
def moved (p len : Nat) : List Nat :=
  (List.range len).map fun i => wrap 16 (p + i)

/-- What a copy returns, the memory after it, and the offsets in the data segment of the
task that it has read or written. -/
structure Copied where
  ret : Option Errno
  memory : Nat → UInt8
  touched : List Nat

/-- `memcpy_tofs`. -/
def memcpyTofs (daddr : Nat) (bytes : List UInt8) (memory : Nat → UInt8) : Nat → UInt8 :=
  (Loading.put .data t.ds daddr bytes ⟨memory, []⟩).memory

/-- `memcpy_fromfs` to `daddr` in the segment of the kernel. -/
def memcpyFromfs (daddr saddr len : Nat) (memory : Nat → UInt8) : Nat → UInt8 :=
  (Loading.copy kernelDs t.ds daddr saddr len ⟨memory, []⟩).memory

/-- `verified_memcpy_tofs` of bytes of the kernel. -/
def verifiedMemcpyTofs (daddr : Nat) (bytes : List UInt8) (memory : Nat → UInt8) : Copied :=
  match verfyArea kernelDs t daddr bytes.length with
  | some err => ⟨some err, memory, []⟩
  | none => ⟨none, memcpyTofs t daddr bytes memory, moved daddr bytes.length⟩

/-- `verified_memcpy_fromfs`. -/
def verifiedMemcpyFromfs (daddr saddr len : Nat) (memory : Nat → UInt8) : Copied :=
  match verfyArea kernelDs t saddr len with
  | some err => ⟨some err, memory, []⟩
  | none => ⟨none, memcpyFromfs kernelDs t daddr saddr len memory, moved saddr len⟩

end Code

/-- A copy keeps to a segment of `n` bytes: it is refused exactly if what the task names
does not lie in it, and it does not touch anything else. -/
def Copied.Keeps (c : Copied) (n p len : Nat) : Prop :=
  (c.ret = none ↔ p + len ≤ n) ∧ ∀ o ∈ c.touched, o < n

/-- `verfy_area` and the verified copies know the segment of `n` bytes. -/
structure UserTask.Exact (kernelDs : Nat) (t : UserTask) (n p len : Nat) : Prop where
  verdict : verfyArea kernelDs t p len = none ↔ p + len ≤ n
  tofs : ∀ bytes memory, bytes.length = len →
    (verifiedMemcpyTofs kernelDs t p bytes memory).Keeps n p len
  fromfs : ∀ daddr memory, (verifiedMemcpyFromfs kernelDs t daddr p len memory).Keeps n p len

/-- Where sixteen bits are enough: the sum of address and length does not come round to an
offset in the segment; or if the segment is full it is zero, or does come round. -/
def SumFits (n p len : Nat) : Prop :=
  if n = 0x10000 then
    p + len = 0 ∨ 0x10000 ≤ p + len
  else
    p + len < 0x10000 ∨ n + 0x10000 < p + len

section Areas

variable {elks loadCode : Bool} {file : ExecFile} {b : Binary} {kernelDs dseg n p len : Nat}
  {t : UserTask}

theorem mem_moved {o : Nat} : o ∈ moved p len ↔ ∃ i < len, wrap 16 (p + i) = o := by
  unfold moved
  simp only [List.mem_map, List.mem_range]

theorem moved_inside (hn : n ≤ 0x10000) (h : p + len ≤ n) : ∀ o ∈ moved p len, o < n := by
  intro o ho
  obtain ⟨i, hi, rfl⟩ := mem_moved.mp ho
  rw [wrap_of_lt (by omega)]
  omega

/-- With a right verdict both copies keep to the segment. -/
theorem UserTask.exact_iff (hn : n ≤ 0x10000) :
    t.Exact kernelDs n p len ↔ (verfyArea kernelDs t p len = none ↔ p + len ≤ n) := by
  constructor
  · exact UserTask.Exact.verdict
  · intro hverdict
    refine ⟨hverdict, fun bytes memory hbytes => ?_, fun daddr memory => ?_⟩
    · unfold verifiedMemcpyTofs
      rw [hbytes]
      cases h : verfyArea kernelDs t p len with
      | none =>
          have hin := hverdict.mp h
          exact ⟨iff_of_true rfl hin, moved_inside hn hin⟩
      | some err =>
          rw [h] at hverdict
          exact ⟨hverdict, fun o ho => absurd ho List.not_mem_nil⟩
    · unfold verifiedMemcpyFromfs
      cases h : verfyArea kernelDs t p len with
      | none =>
          have hin := hverdict.mp h
          exact ⟨iff_of_true rfl hin, moved_inside hn hin⟩
      | some err =>
          rw [h] at hverdict
          exact ⟨hverdict, fun o ho => absurd ho List.not_mem_nil⟩

theorem verfyArea_eq_none_iff (huser : kernelDs ≠ t.ds) :
    verfyArea kernelDs t p len = none ↔ wrap 16 (p + len) ≤ t.endseg := by
  unfold verfyArea
  rw [if_neg huser, ← not_lt]
  split <;> simp [*]

theorem verdict_iff (hn : n ≤ 0x10000) (hp : p < 0x10000) (hlen : len < 0x10000) :
    (wrap 16 (p + len) ≤ wrap 16 n ↔ p + len ≤ n) ↔ SumFits n p len := by
  unfold SumFits wrap
  split_ifs with hfull
  · subst hfull
    omega
  · omega

/-- A program that has been loaded, and an address and a length of sixteen bits: the
verdict, and with it the copies, are exact just where the sum fits. -/
theorem userArea_exact_iff (slen : Nat) (haccept : accept elks file loadCode = some b)
    (huser : kernelDs ≠ dseg) (hp : p < 0x10000) (hlen : len < 0x10000) :
    (b.start dseg slen).Exact kernelDs (dataLen b.mh b.stackTop) p len ↔
      SumFits (dataLen b.mh b.stackTop) p len := by
  have hn := (accept_taken haccept).len
  rw [UserTask.exact_iff hn, verfyArea_eq_none_iff huser]
  exact verdict_iff hn hp hlen

end Areas

section Full

/-- A program whose `chmem` asks for a data segment of 64 KiB. -/
def fullFile : ExecFile :=
  .ofBytes [0x01, 0x03, 0x20, 0x04, 0x20, 0, 0, 0, 1, 0, 0, 0, 0, 0, 0, 0, 0, 0, 0, 0,
    0, 0, 0, 0, 0, 0, 1, 0, 0, 0, 0, 0, 0x90]

def fullBinary : Binary :=
  ⟨⟨0x04200301, 0x20, 1, 0, 0, 0x10000⟩, 0, [0x90], []⟩

theorem userArea_exact_small :
    ((bssBinary 1024).start 0x2001 6).Exact 0x100 1024 100 24 ↔ SumFits 1024 100 24 := by
  have haccept : accept true (bssFile 0) true = some (bssBinary 1024) := rfl
  exact userArea_exact_iff 6 haccept (by decide) (by decide) (by decide)

/-- A program with a segment of 64 KiB may not hand over a byte of it, and one with a
segment of 1024 bytes may hand over a byte far behind it. -/
theorem userArea_wrong :
    (accept true fullFile true = some fullBinary ∧ dataLen fullBinary.mh 0 = 0x10000 ∧
      verfyArea 0x100 (fullBinary.start 0x2001 6) 100 24 = some .efault ∧
      ¬(fullBinary.start 0x2001 6).Exact 0x100 0x10000 100 24) ∧
    accept true (bssFile 0) true = some (bssBinary 1024) ∧
      dataLen (bssBinary 1024).mh 0 = 1024 ∧
      verfyArea 0x100 ((bssBinary 1024).start 0x2001 6) 0xffff 2 = none ∧
      ¬((bssBinary 1024).start 0x2001 6).Exact 0x100 1024 0xffff 2 := by
  refine ⟨⟨rfl, rfl, by decide, ?_⟩, rfl, rfl, by decide, ?_⟩
  · intro h
    exact absurd (h.verdict.mpr (by norm_num)) (by decide)
  · intro h
    exact absurd (h.verdict.mp (by decide)) (by norm_num)

end Full

end Exec
end Elks
