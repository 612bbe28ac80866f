import Elks.Lib.I8086

/-!
# The length of a string (arch/i86/lib/string.s, arch/i86/mm/user.c, fs/super.c)

`strlen` and `strlen_fromfs` look for the NUL with `scasb`, the one in the kernel's segment
and the other in that of the user.  The one repeats with `repne`, while the bytes are not
NUL; the other repeats with `rep`, while they are.

With CONFIG_FULL_VFS `sys_mount` takes the name of the file system type from the user with
`strlen_fromfs`.

**Results.**  `strlen_eq`, `strlenFromfs_eq_zero`: what the two routines return.
`strlen_fromfs_never`: they agree on no string, and `sys_mount` has the empty name instead
of any other one.
-/

namespace Elks
namespace I86

open Lib Lib.I8086

section Code

variable (mem : Word → UInt8) (str : Word)

/-- `_strlen` in a segment that holds `mem`. -/
def strlen : Word :=
  repScasb false mem 0 0xffff str - str - 1#16

/-- `strlen_fromfs` in a segment that holds `mem`. -/
def strlenFromfs : Word :=
  repScasb true mem 0 0xffff str - str - 1#16

/-- The memory from `ltype` on when `sys_mount` has the name of the type; `verified` says
whether `verify_area` lets it read the name, and `old` is what was there before. -/
def mountType (verified : Bool) (old : Word → UInt8) : Word → UInt8 :=
  let retval := strlenFromfs mem str
  let retval := if 16 ≤ retval.toInt then 15#16 else retval
  let ltype : Word → UInt8 :=
    if verified then fun i => if i.toNat < retval.toNat then mem (str + i) else old i else old
  Function.update ltype retval 0

end Code

section Result

variable {mem : Word → UInt8} {str : Word} {n : Nat}

theorem length_eq (x : Word) (n : Nat) :
    x + BitVec.ofNat 16 (n + 1) - x - 1#16 = BitVec.ofNat 16 n := by
  rw [BitVec.ofNat_add]
  ring

theorem strlen_eq (hn : n < 65535) (hbefore : ∀ i < n, mem (str + BitVec.ofNat 16 i) ≠ 0)
    (hnul : mem (str + BitVec.ofNat 16 n) = 0) : strlen mem str = BitVec.ofNat 16 n := by
  unfold strlen
  rw [repScasb_found str hn, length_eq]
  · exact fun i hi => decide_eq_false (hbefore i hi).symm
  · rw [hnul]
    exact Bool.noConfusion

theorem strlenFromfs_eq_zero (h : mem str ≠ 0) : strlenFromfs mem str = 0#16 := by
  have hfirst : mem (str + BitVec.ofNat 16 0) ≠ 0 := by
    rwa [(BitVec.add_zero str : str + BitVec.ofNat 16 0 = str)]
  unfold strlenFromfs
  rw [repScasb_found (n := 0) str (by decide) (fun i hi => absurd hi (Nat.not_lt_zero i)),
    length_eq]
  rw [decide_eq_false hfirst.symm]
  exact Bool.noConfusion

theorem mountType_empty (h : mem str ≠ 0) (verified : Bool) (old : Word → UInt8) :
    mountType mem str verified old 0#16 = 0 := by
  unfold mountType
  rw [strlenFromfs_eq_zero h]
  exact Function.update_self _ _ _

/-- The two routines never agree, and a name of a type that is not empty comes to `sys_mount`
as the empty one. -/
theorem strlen_fromfs_never (mem : Word → UInt8) (str : Word) :
    strlenFromfs mem str ≠ strlen mem str ∧
      (mem str ≠ 0 → ∀ verified old, mountType mem str verified old 0#16 = 0) := by
  refine ⟨?_, mountType_empty⟩
  have hlonger {zf : Bool} (h : decide (0 = mem str) = zf) :
      repScasb zf mem 0 0xffff str - str - 1#16 ≠ 0#16 := by
    obtain ⟨k, hk, hle, heq⟩ := repScasb_bounds zf mem 0 (str + 1#16)
      (by decide : 0 < 0xfffe)
    rw [repScasb, if_pos h, heq, add_ofNat_succ, length_eq]
    intro hzero
    have hnat := congrArg BitVec.toNat hzero
    rw [BitVec.toNat_ofNat, BitVec.toNat_zero, Nat.mod_eq_of_lt (by omega)] at hnat
    omega
  by_cases h : mem str = 0
  · have hnone : strlen mem str = 0#16 :=
      strlen_eq (n := 0) (by decide) (fun i hi => absurd hi (Nat.not_lt_zero i))
        (by rwa [(BitVec.add_zero str : str + BitVec.ofNat 16 0 = str)])
    rw [hnone]
    exact hlonger (decide_eq_true h.symm)
  · rw [strlenFromfs_eq_zero h]
    exact (hlonger (decide_eq_false (Ne.symm h))).symm

/-- A segment with the name of a type at its beginning. -/
def minixType : Word → UInt8 :=
  fun i => ([0x6d, 0x69, 0x6e, 0x69, 0x78] : List UInt8).getD i.toNat 0

theorem strlen_fromfs_never_minix :
    strlenFromfs minixType 0#16 ≠ strlen minixType 0#16 ∧
      ∀ verified old, mountType minixType 0#16 verified old 0#16 = 0 :=
  ⟨(strlen_fromfs_never minixType 0#16).1, (strlen_fromfs_never minixType 0#16).2 (by decide)⟩

theorem strlen_fromfs_minix :
    strlen minixType 0#16 = 5#16 ∧ strlenFromfs minixType 0#16 = 0#16 :=
  ⟨strlen_eq (n := 5) (by decide) (by decide) (by decide), strlenFromfs_eq_zero (by decide)⟩

end Result

end I86
end Elks
