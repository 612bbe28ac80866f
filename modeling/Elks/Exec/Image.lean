import Elks.Lib.Machine

/-!
# Loading an executable (fs/exec.c)

`sys_execve` reads the header of a file, and when it has memory for the code and the
data puts text, data, a cleared bss, the argument block and the first stack frame
into it.  Every byte that it writes is recorded with the segment it is meant for.

**Result.**  `exec_inside_iff`: the bytes stay inside their segments, and the loops over
`argv` and `envp` inside the argument block, exactly when the sizes of the header and
the block fit, which nobody checks.
-/

namespace Elks
namespace Exec

open Lib

/-- `struct minix_exec_hdr`. -/
structure MinixExecHdr where
  type : Nat
  hlen : Nat
  tseg : Nat
  dseg : Nat
  bseg : Nat
  chmem : Nat

/-- `MINIX_SPLITID`. -/
def minixSplitid : Nat :=
  0x04200301

/-- `INIT_HEAP`. -/
def initHeap : Nat :=
  0

/-- A little-endian number. -/
def leNat : List UInt8 → Nat
  | [] => 0
  | b :: bs => b.toNat + 256 * leNat bs

/-- A field of four bytes. -/
def long (bytes : List UInt8) (offset : Nat) : Nat :=
  leNat ((bytes.drop offset).take 4)

/-- What `read` leaves: the bytes that it has stored, its result as a `size_t`, and
`f_pos`. -/
structure ReadResult where
  bytes : List UInt8
  result : Nat
  fPos : Nat

/-- `read` from `pos` on has gone through. -/
structure ReadResult.Done (r : ReadResult) (pos : Nat) : Prop where
  result : r.result = r.bytes.length
  fPos : r.fPos = pos + r.bytes.length

/-- `read` of a file, which gets a position and a count of 16 bits and may read less or
return an error, a negative `int`. -/
structure ExecFile where
  read : Nat → Nat → ReadResult
  length_le : ∀ pos count, (read pos count).bytes.length ≤ wrap 16 count
  counted : ∀ pos count, (read pos count).Done pos ∨
    0x8000 ≤ (read pos count).result ∧ (read pos count).result < 0x10000

/-- The file with the given bytes. -/
def ExecFile.ofBytes (bytes : List UInt8) : ExecFile where
  read pos count :=
    let part := (bytes.drop pos).take (wrap 16 count)
    ⟨part, part.length, pos + part.length⟩
  length_le _ _ := List.length_take_le _ _
  counted _ _ := Or.inl ⟨rfl, rfl⟩

/-- The header of a file. -/
def readHeader (file : ExecFile) : Option MinixExecHdr :=
  let got := file.read 0 32
  let mh := got.bytes
  if got.result ≠ 32 ∨ long mh 0 ≠ minixSplitid ∨ long mh 24 < 1024 ∨ long mh 8 = 0 then
    none
  else
    some
      { type := long mh 0
        hlen := long mh 4
        tseg := long mh 8
        dseg := long mh 12
        bseg := long mh 16
        chmem := long mh 24 }

/-- The header, `stack_top`, and the position behind what has been read.  `elks` is
`CONFIG_EXEC_ELKS`. -/
def readHeaders (elks : Bool) (file : ExecFile) : Option (MinixExecHdr × Nat × Nat) :=
  match readHeader file with
  | none => none
  | some mh =>
      if elks then
        if wrap 16 mh.hlen = 0x30 then
          let msuph := file.read 32 16
          let stackTop := wrap 16 (long msuph.bytes 12)
          if msuph.result ≠ 16 ∨ stackTop &&& 0xf ≠ 0 then none else some (mh, stackTop, 48)
        else
          some (mh, 0, 32)
      else if wrap 16 mh.hlen ≠ 0x20 then
        none
      else
        some (mh, 0, 32)

/-- `len`, rounded to pages. -/
def dataLen (mh : MinixExecHdr) (stackTop : Nat) : Nat :=
  let len :=
    if stackTop ≠ 0 then wrap 32 (mh.dseg + mh.bseg + stackTop + initHeap) else mh.chmem
  wrap 32 (len + 15) / 16 * 16

/-- The pages of the code segment. -/
def codePages (mh : MinixExecHdr) : Nat :=
  wrap 16 (wrap 32 (mh.tseg + 15) / 16)

/-- `ptr`: where the argument block goes. -/
def stackPtr (mh : MinixExecHdr) (stackTop slen : Nat) : Nat :=
  wrapSub 16 (if stackTop ≠ 0 then stackTop else wrap 16 (dataLen mh stackTop)) slen

/-- The segment that a byte is meant for. -/
inductive Place
  | text
  | data
deriving DecidableEq

/-- The memory, and the bytes written so far, with their offsets. -/
structure Loading where
  memory : Nat → UInt8
  written : List (Place × Nat)

section Code

variable (s : Loading)

/-- A byte of segment `seg`. -/
def Loading.poke (p : Place) (seg offset : Nat) (b : UInt8) : Loading where
  memory := Function.update s.memory (seg * 16 + wrap 16 offset) b
  written := (p, wrap 16 offset) :: s.written

def Loading.peek (seg offset : Nat) : UInt8 :=
  s.memory (seg * 16 + wrap 16 offset)

/-- `pokew`. -/
def Loading.pokew (p : Place) (seg offset value : Nat) : Loading :=
  (s.poke p seg offset (UInt8.ofNat value)).poke p seg (offset + 1) (UInt8.ofNat (value / 256))

/-- `peekw`. -/
def Loading.peekw (seg offset : Nat) : Nat :=
  (s.peek seg offset).toNat + 256 * (s.peek seg (offset + 1)).toNat

/-- The bytes of a file go to memory. -/
def Loading.put (p : Place) (seg : Nat) : Nat → List UInt8 → Loading → Loading
  | _, [], s => s
  | offset, b :: bs, s => Loading.put p seg (offset + 1) bs (s.poke p seg offset b)

/-- `fmemset` of zeros. -/
def Loading.clear (seg : Nat) : Nat → Nat → Loading → Loading
  | _, 0, s => s
  | offset, n + 1, s => Loading.clear seg (offset + 1) n (s.poke .data seg offset 0)

/-- `fmemcpy`. -/
def Loading.copy (seg sseg : Nat) : Nat → Nat → Nat → Loading → Loading
  | _, _, 0, s => s
  | offset, source, n + 1, s =>
      Loading.copy seg sseg (offset + 1) (source + 1) n
        (s.poke .data seg offset (s.peek sseg source))

/-- The loop over `argv` and `envp`, with the rounds that it makes. -/
def fixArgs (seg ptr : Nat) : Nat → Nat → Nat → Nat → Loading → Option (Loading × Nat)
  | fuel, p, nzero, rounds, s =>
      if nzero < 2 then
        match fuel with
        | 0 => none
        | fuel + 1 =>
            let p := wrap 16 (p + 2)
            let tmp := s.peekw seg p
            if tmp ≠ 0 then
              fixArgs seg ptr fuel p nzero (rounds + 1) (s.pokew .data seg p (wrap 16 (ptr + tmp)))
            else
              fixArgs seg ptr fuel p (nzero + 1) (rounds + 1) s
      else
        some (s, rounds)

/-- `USER_FLAGS`. -/
def userFlags : Nat :=
  0x3200

/-- `arch_setup_kernel_stack`. -/
def Loading.setupKernelStack (cseg dseg sp : Nat) : Loading :=
  ((s.pokew .data dseg (wrapSub 16 sp 2) userFlags).pokew .data dseg (wrapSub 16 sp 4) cseg).pokew
    .data dseg (wrapSub 16 sp 6) 0

end Code

/-- The new segments, whether text has to be loaded, and the argument block. -/
structure Room where
  cseg : Nat
  dseg : Nat
  loadCode : Bool
  userSeg : Nat
  sptr : Nat
  slen : Nat

/-- A file that `sys_execve` takes: its headers, text and data. -/
structure Binary where
  mh : MinixExecHdr
  stackTop : Nat
  text : List UInt8
  data : List UInt8

/-- What `sys_execve` finds in a file, if it goes through with it. -/
def accept (elks : Bool) (file : ExecFile) (loadCode : Bool) : Option Binary :=
  match readHeaders elks file with
  | none => none
  | some (mh, stackTop, pos) =>
      if dataLen mh stackTop > 0x10000 then
        none
      else
        let text :=
          if loadCode then file.read pos mh.tseg else ⟨[], mh.tseg, wrap 32 (pos + mh.tseg)⟩
        let data := file.read text.fPos mh.dseg
        if text.result ≠ mh.tseg ∨ data.result ≠ mh.dseg then
          none
        else
          some ⟨mh, stackTop, text.bytes, data.bytes⟩

/-- Text, data and bss. -/
def Binary.place (b : Binary) (r : Room) (s : Loading) : Loading :=
  let s := s.put .text r.cseg 0 b.text
  let s := s.put .data r.dseg b.stackTop b.data
  s.clear r.dseg (wrap 16 (wrap 16 b.mh.dseg + b.stackTop)) (wrap 16 b.mh.bseg)

/-- The argument block behind them. -/
def Binary.placeArgs (b : Binary) (r : Room) (s : Loading) : Loading :=
  (b.place r s).copy r.dseg r.userSeg (stackPtr b.mh b.stackTop r.slen) r.sptr r.slen

/-- All that is written, with the rounds of the loop over the arguments. -/
def Binary.load (b : Binary) (r : Room) (fuel : Nat) (s : Loading) : Option (Loading × Nat) :=
  let ptr := stackPtr b.mh b.stackTop r.slen
  match fixArgs r.dseg ptr fuel ptr 0 0 (b.placeArgs r s) with
  | none => none
  | some (s, rounds) => some (s.setupKernelStack r.cseg r.dseg ptr, rounds)

/-- The bytes of a segment. -/
def Binary.limit (b : Binary) : Place → Nat
  | .text => 16 * codePages b.mh
  | .data => dataLen b.mh b.stackTop

/-- `n` bytes from `offset` on, of 16 bits, lie in a segment of `len` bytes. -/
def Covered (len offset n : Nat) : Prop :=
  n = 0 ∨ len = 0x10000 ∨ offset + n ≤ len

/-- The data, the bss, the argument block and the first frame fit into the data
segment. -/
structure Binary.Fits (b : Binary) (slen : Nat) : Prop where
  data : Covered (dataLen b.mh b.stackTop) b.stackTop b.data.length
  bss : Covered (dataLen b.mh b.stackTop) (wrap 16 (wrap 16 b.mh.dseg + b.stackTop))
    (wrap 16 b.mh.bseg)
  args : Covered (dataLen b.mh b.stackTop) (stackPtr b.mh b.stackTop slen) slen
  frame : Covered (dataLen b.mh b.stackTop) (wrapSub 16 (stackPtr b.mh b.stackTop slen) 6) 6

/-- Behind `argc`, two words of the argument block as it has been copied are zero. -/
def Binary.TwoNulls (b : Binary) (r : Room) (s : Loading) : Prop :=
  ∃ i k, 0 < i ∧ i < k ∧ 2 * k + 2 ≤ r.slen ∧
    (b.placeArgs r s).peekw r.dseg (stackPtr b.mh b.stackTop r.slen + 2 * i) = 0 ∧
    (b.placeArgs r s).peekw r.dseg (stackPtr b.mh b.stackTop r.slen + 2 * k) = 0

section Writes

variable {s out : Loading} {limit : Place → Nat} {p : Place} {seg sseg offset source n len a : Nat}
  {bs : List UInt8} {v o : Nat} {b : UInt8}

/-- Everything written so far lies in its segment. -/
def Loading.Inside (limit : Place → Nat) (s : Loading) : Prop :=
  ∀ w ∈ s.written, w.2 < limit w.1

theorem inside_poke :
    (s.poke p seg offset b).Inside limit ↔ wrap 16 offset < limit p ∧ s.Inside limit := by
  unfold Loading.Inside Loading.poke
  simp only [List.forall_mem_cons]

theorem inside_pokew :
    (s.pokew p seg offset v).Inside limit ↔
      wrap 16 (offset + 1) < limit p ∧ wrap 16 offset < limit p ∧ s.Inside limit := by
  unfold Loading.pokew
  rw [inside_poke, inside_poke]

theorem forall_positions {P : Nat → Prop} :
    (∀ i < n + 1, P (wrap 16 (offset + i))) ↔
      P (wrap 16 offset) ∧ ∀ i < n, P (wrap 16 (offset + 1 + i)) := by
  constructor
  · intro h
    refine ⟨h 0 (Nat.succ_pos n), fun i hi => ?_⟩
    have hnext := h (i + 1) (Nat.succ_lt_succ hi)
    rwa [← Nat.add_assoc, Nat.add_right_comm] at hnext
  · rintro ⟨hfirst, hrest⟩ i hi
    cases i with
    | zero => exact hfirst
    | succ i =>
        rw [← Nat.add_assoc, Nat.add_right_comm]
        exact hrest i (Nat.lt_of_succ_lt_succ hi)

theorem inside_put :
    (Loading.put p seg offset bs s).Inside limit ↔
      (∀ i < bs.length, wrap 16 (offset + i) < limit p) ∧ s.Inside limit := by
  induction bs generalizing offset s with
  | nil => simp [Loading.put]
  | cons b bs ih =>
      rw [Loading.put, ih, inside_poke, List.length_cons,
        forall_positions (P := fun o => o < limit p)]
      tauto

theorem inside_clear :
    (Loading.clear seg offset n s).Inside limit ↔
      (∀ i < n, wrap 16 (offset + i) < limit .data) ∧ s.Inside limit := by
  induction n generalizing offset s with
  | zero => simp [Loading.clear]
  | succ n ih =>
      rw [Loading.clear, ih, inside_poke, forall_positions (P := fun o => o < limit .data)]
      tauto

theorem inside_copy :
    (Loading.copy seg sseg offset source n s).Inside limit ↔
      (∀ i < n, wrap 16 (offset + i) < limit .data) ∧ s.Inside limit := by
  induction n generalizing offset source s with
  | zero => simp [Loading.copy]
  | succ n ih =>
      rw [Loading.copy, ih, inside_poke, forall_positions (P := fun o => o < limit .data)]
      tauto

theorem covered_iff (hlen : len ≤ 0x10000) (hoffset : offset < 0x10000) :
    (∀ i < n, wrap 16 (offset + i) < len) ↔ Covered len offset n := by
  unfold Covered wrap
  constructor
  · intro h
    by_contra hnot
    have hn : 0 < n := by omega
    by_cases hstart : len ≤ offset
    · have hfirst := h 0 hn
      omega
    · -- the byte at the end of the segment is among them
      have hlast := h (len - offset) (by omega)
      omega
  · intro h i hi
    omega

theorem peek_poke_other (h : wrap 16 o ≠ wrap 16 offset) :
    (s.poke p seg offset b).peek seg o = s.peek seg o := by
  unfold Loading.peek Loading.poke
  refine Function.update_of_ne ?_ _ _
  omega

theorem peek_pokew_other (h : wrap 16 o ≠ wrap 16 offset) (h' : wrap 16 o ≠ wrap 16 (offset + 1)) :
    (s.pokew p seg offset v).peek seg o = s.peek seg o := by
  unfold Loading.pokew
  rw [peek_poke_other h', peek_poke_other h]

theorem put_memory (h : ∀ i < bs.length, seg * 16 + wrap 16 (offset + i) ≠ a) :
    (Loading.put p seg offset bs s).memory a = s.memory a := by
  induction bs generalizing offset s with
  | nil => rfl
  | cons b bs ih =>
      obtain ⟨hfirst, hrest⟩ :=
        (forall_positions (P := fun o => seg * 16 + o ≠ a)).mp h
      rw [Loading.put, ih hrest]
      exact Function.update_of_ne hfirst.symm _ _

theorem clear_memory (h : ∀ i < n, seg * 16 + wrap 16 (offset + i) ≠ a) :
    (Loading.clear seg offset n s).memory a = s.memory a := by
  induction n generalizing offset s with
  | zero => rfl
  | succ n ih =>
      obtain ⟨hfirst, hrest⟩ :=
        (forall_positions (P := fun o => seg * 16 + o ≠ a)).mp h
      rw [Loading.clear, ih hrest]
      exact Function.update_of_ne hfirst.symm _ _

theorem copy_memory (h : ∀ i < n, seg * 16 + wrap 16 (offset + i) ≠ a) :
    (Loading.copy seg sseg offset source n s).memory a = s.memory a := by
  induction n generalizing offset source s with
  | zero => rfl
  | succ n ih =>
      obtain ⟨hfirst, hrest⟩ :=
        (forall_positions (P := fun o => seg * 16 + o ≠ a)).mp h
      rw [Loading.copy, ih hrest]
      exact Function.update_of_ne hfirst.symm _ _

theorem peek_copy {i : Nat} (hi : i < n) (hn : n ≤ 0x10000)
    (happart : ∀ i < n, ∀ j < n,
      seg * 16 + wrap 16 (offset + i) ≠ sseg * 16 + wrap 16 (source + j)) :
    (Loading.copy seg sseg offset source n s).peek seg (offset + i) =
      s.peek sseg (source + i) := by
  induction n generalizing offset source s i with
  | zero => cases hi
  | succ n ih =>
      rw [Loading.copy]
      cases i with
      | zero =>
          refine (copy_memory fun j hj => ?_).trans (Function.update_self _ _ _)
          unfold wrap
          omega
      | succ i =>
          have hrest : ∀ i < n, ∀ j < n,
              seg * 16 + wrap 16 (offset + 1 + i) ≠ sseg * 16 + wrap 16 (source + 1 + j) := by
            intro i hi j hj
            rw [Nat.add_right_comm offset, Nat.add_right_comm source]
            exact happart (i + 1) (Nat.succ_lt_succ hi) (j + 1) (Nat.succ_lt_succ hj)
          have hnext := @ih (s.poke .data seg offset (s.peek sseg source)) (offset + 1)
            (source + 1) i (Nat.lt_of_succ_lt_succ hi) (by omega) hrest
          rw [Nat.add_right_comm offset, Nat.add_right_comm source] at hnext
          refine hnext.trans ?_
          exact Function.update_of_ne (happart 0 (Nat.succ_pos n) (i + 1) hi).symm _ _

end Writes

section Arguments

variable {s s₀ out : Loading} {limit : Place → Nat} {seg ptr fuel nzero rounds k p : Nat}
  {word : Nat → Nat}

/-- The loop over `argv` and `envp` on words that do not change. -/
def scan (word : Nat → Nat) : Nat → Nat → Nat → Option Nat
  | fuel, nzero, rounds =>
      if nzero < 2 then
        match fuel with
        | 0 => none
        | fuel + 1 =>
            if word (rounds + 1) ≠ 0 then scan word fuel nzero (rounds + 1)
            else scan word fuel (nzero + 1) (rounds + 1)
      else
        some rounds

/-- The words behind the one that the loop has come to are as they were. -/
def Ahead (seg ptr rounds : Nat) (s₀ s : Loading) : Prop :=
  ∀ i, 2 * rounds + 2 ≤ i → i < 0x10000 → s.peek seg (ptr + i) = s₀.peek seg (ptr + i)

/-- The loop sees the words of the block as they were copied: it changes only the one
it is at. -/
theorem fixArgs_scan (hahead : Ahead seg ptr rounds s₀ s) (hfuel : rounds + fuel < 0x8000) :
    (fixArgs seg ptr fuel (wrap 16 (ptr + 2 * rounds)) nzero rounds s).map Prod.snd =
      scan (fun j => s₀.peekw seg (ptr + 2 * j)) fuel nzero rounds := by
  induction fuel generalizing nzero rounds s with
  | zero =>
      unfold fixArgs scan
      split
      · rfl
      · rfl
  | succ fuel ih =>
      unfold fixArgs scan
      split
      · have hp : wrap 16 (wrap 16 (ptr + 2 * rounds) + 2) = wrap 16 (ptr + 2 * (rounds + 1)) := by
          unfold wrap
          omega
        have hword : s.peekw seg (wrap 16 (ptr + 2 * (rounds + 1))) =
            s₀.peekw seg (ptr + 2 * (rounds + 1)) := by
          have hlow := hahead (2 * (rounds + 1)) (by omega) (by omega)
          have hhigh := hahead (2 * (rounds + 1) + 1) (by omega) (by omega)
          have hwrap : ∀ o, s.peek seg (wrap 16 o) = s.peek seg o ∧
              s.peek seg (wrap 16 o + 1) = s.peek seg (o + 1) := by
            intro o
            unfold Loading.peek wrap
            constructor
            · rw [Nat.mod_mod]
            · rw [Nat.mod_add_mod]
          unfold Loading.peekw
          rw [(hwrap _).1, (hwrap _).2, hlow, Nat.add_assoc, hhigh]
        dsimp only
        rw [hp, hword]
        have hnext : Ahead seg ptr (rounds + 1) s₀ s :=
          fun i hi hlt => hahead i (by omega) hlt
        split
        · refine ih ?_ (by omega)
          intro i hi hlt
          rw [peek_pokew_other]
          · exact hnext i hi hlt
          · unfold wrap
            omega
          · unfold wrap
            omega
        · exact ih hnext (by omega)
      · rfl

theorem fixArgs_rounds (h : fixArgs seg ptr fuel p nzero rounds s = some (out, k)) :
    rounds ≤ k ∧ fixArgs seg ptr (k - rounds) p nzero rounds s = some (out, k) := by
  induction fuel generalizing p nzero rounds s with
  | zero =>
      unfold fixArgs at h
      split at h
      · cases h
      · rename_i hdone
        obtain ⟨rfl, rfl⟩ := Prod.mk.inj (Option.some.inj h)
        refine ⟨le_refl _, ?_⟩
        unfold fixArgs
        rw [if_neg hdone]
  | succ fuel ih =>
      unfold fixArgs at h
      split at h
      · rename_i hmore
        have hgo : ∀ {nzero' s'}, fixArgs seg ptr fuel (wrap 16 (p + 2)) nzero' (rounds + 1) s' =
            some (out, k) → rounds ≤ k ∧ k - rounds = (k - (rounds + 1)) + 1 ∧
              fixArgs seg ptr (k - (rounds + 1)) (wrap 16 (p + 2)) nzero' (rounds + 1) s' =
                some (out, k) := by
          intro nzero' s' h'
          obtain ⟨hle, hrun⟩ := ih h'
          exact ⟨by omega, by omega, hrun⟩
        dsimp only at h
        split at h
        · rename_i hword
          obtain ⟨hle, hfuel, hrun⟩ := hgo h
          refine ⟨hle, ?_⟩
          rw [hfuel]
          unfold fixArgs
          rw [if_pos hmore]
          dsimp only
          rw [if_pos hword]
          exact hrun
        · rename_i hword
          obtain ⟨hle, hfuel, hrun⟩ := hgo h
          refine ⟨hle, ?_⟩
          rw [hfuel]
          unfold fixArgs
          rw [if_pos hmore]
          dsimp only
          rw [if_neg hword]
          exact hrun
      · rename_i hdone
        obtain ⟨rfl, rfl⟩ := Prod.mk.inj (Option.some.inj h)
        refine ⟨le_refl _, ?_⟩
        unfold fixArgs
        rw [if_neg hdone]

theorem fixArgs_inside_before
    (h : fixArgs seg ptr fuel p nzero rounds s = some (out, k)) (hin : out.Inside limit) :
    s.Inside limit := by
  induction fuel generalizing p nzero rounds s with
  | zero =>
      unfold fixArgs at h
      split at h
      · cases h
      · obtain ⟨rfl, rfl⟩ := Prod.mk.inj (Option.some.inj h)
        exact hin
  | succ fuel ih =>
      unfold fixArgs at h
      split at h
      · dsimp only at h
        split at h
        · exact (inside_pokew.mp (ih h)).2.2
        · exact ih h
      · obtain ⟨rfl, rfl⟩ := Prod.mk.inj (Option.some.inj h)
        exact hin

theorem fixArgs_inside
    (h : fixArgs seg ptr fuel (wrap 16 (ptr + 2 * rounds)) nzero rounds s = some (out, k))
    (hin : s.Inside limit) (hblock : ∀ i < 2 * k + 2, wrap 16 (ptr + i) < limit .data) :
    out.Inside limit := by
  induction fuel generalizing nzero rounds s with
  | zero =>
      unfold fixArgs at h
      split at h
      · cases h
      · obtain ⟨rfl, rfl⟩ := Prod.mk.inj (Option.some.inj h)
        exact hin
  | succ fuel ih =>
      have hk := (fixArgs_rounds h).1
      unfold fixArgs at h
      split at h
      · have hp : wrap 16 (wrap 16 (ptr + 2 * rounds) + 2) = wrap 16 (ptr + 2 * (rounds + 1)) := by
          unfold wrap
          omega
        dsimp only at h
        rw [hp] at h
        split at h
        · have hle := (fixArgs_rounds h).1
          refine ih h (inside_pokew.mpr ⟨?_, ?_, hin⟩)
          · have := hblock (2 * (rounds + 1) + 1) (by omega)
            unfold wrap at this ⊢
            omega
          · have := hblock (2 * (rounds + 1)) (by omega)
            unfold wrap at this ⊢
            omega
        · exact ih h hin
      · obtain ⟨rfl, rfl⟩ := Prod.mk.inj (Option.some.inj h)
        exact hin

theorem scan_one (h : scan word fuel 1 rounds = some k) : rounds < k ∧ word k = 0 := by
  induction fuel generalizing rounds with
  | zero => cases h
  | succ fuel ih =>
      unfold scan at h
      rw [if_pos Nat.one_lt_two] at h
      dsimp only at h
      split at h
      · have := ih h
        exact ⟨by omega, this.2⟩
      · rename_i hzero
        unfold scan at h
        rw [if_neg (lt_irrefl 2)] at h
        obtain rfl := Option.some.inj h
        exact ⟨Nat.lt_succ_self _, not_not.mp hzero⟩

theorem scan_zero (h : scan word fuel 0 rounds = some k) :
    ∃ i, rounds < i ∧ i < k ∧ word i = 0 ∧ word k = 0 := by
  induction fuel generalizing rounds with
  | zero => cases h
  | succ fuel ih =>
      unfold scan at h
      rw [if_pos Nat.zero_lt_two] at h
      dsimp only at h
      split at h
      · obtain ⟨i, hi, hik, hword, hend⟩ := ih h
        exact ⟨i, by omega, hik, hword, hend⟩
      · rename_i hzero
        obtain ⟨hk, hend⟩ := scan_one h
        exact ⟨rounds + 1, Nat.lt_succ_self _, hk, not_not.mp hzero, hend⟩

theorem exists_scan_one (hk : word k = 0) (hrounds : rounds < k) (hfuel : k ≤ rounds + fuel) :
    ∃ k' ≤ k, scan word fuel 1 rounds = some k' := by
  induction fuel generalizing rounds with
  | zero => omega
  | succ fuel ih =>
      unfold scan
      rw [if_pos Nat.one_lt_two]
      dsimp only
      split
      · rename_i hword
        have hne : rounds + 1 ≠ k := by
          rintro rfl
          exact hword hk
        exact ih (by omega) (by omega)
      · refine ⟨rounds + 1, by omega, ?_⟩
        unfold scan
        rw [if_neg (lt_irrefl 2)]

theorem exists_scan_zero {i : Nat} (hi : word i = 0) (hk : word k = 0) (hrounds : rounds < i)
    (hik : i < k) (hfuel : k ≤ rounds + fuel) : ∃ k' ≤ k, scan word fuel 0 rounds = some k' := by
  induction fuel generalizing rounds with
  | zero => omega
  | succ fuel ih =>
      unfold scan
      rw [if_pos Nat.zero_lt_two]
      dsimp only
      split
      · rename_i hword
        have hne : rounds + 1 ≠ i := by
          rintro rfl
          exact hword hi
        exact ih (by omega) (by omega)
      · exact exists_scan_one hk (by omega) (by omega)

end Arguments

section Inside

variable {mh : MinixExecHdr} {loadCode : Bool}

/-- The caller's argument block does not overlap the new segments. -/
def Room.Apart (r : Room) (b : Binary) : Prop :=
  ∀ i < r.slen,
    (∀ o < b.limit .text, r.cseg * 16 + o ≠ r.userSeg * 16 + wrap 16 (r.sptr + i)) ∧
    ∀ o < b.limit .data, r.dseg * 16 + o ≠ r.userSeg * 16 + wrap 16 (r.sptr + i)

variable {elks : Bool} {file : ExecFile} {b : Binary} {r : Room} {s : Loading} {slen : Nat}

theorem ExecFile.result_lt (file : ExecFile) (pos count : Nat) :
    (file.read pos count).result < 0x10000 := by
  rcases file.counted pos count with hdone | ⟨_, hlt⟩
  · rw [hdone.result]
    exact lt_of_le_of_lt (file.length_le pos count) (wrap_lt 16 count)
  · exact hlt

/-- What is known of a file that is taken. -/
structure Binary.Taken (b : Binary) (loadCode : Bool) : Prop where
  noText : loadCode = false → b.text = []
  text : loadCode = true → b.text.length ≤ b.mh.tseg ∧ b.mh.tseg < 0x10000
  stackTop : b.stackTop < 0x10000
  len : dataLen b.mh b.stackTop ≤ 0x10000

theorem readHeaders_stackTop {stackTop pos : Nat}
    (h : readHeaders elks file = some (mh, stackTop, pos)) : stackTop < 0x10000 := by
  unfold readHeaders at h
  split at h
  · cases h
  · rename_i mh' _
    have hsmall : some (mh', (0 : Nat), (32 : Nat)) = some (mh, stackTop, pos) →
        stackTop < 0x10000 := by
      intro hx
      obtain ⟨_, hrest⟩ := Prod.mk.inj (Option.some.inj hx)
      obtain ⟨rfl, _⟩ := Prod.mk.inj hrest
      norm_num
    split at h
    · split at h
      · dsimp only at h
        split at h
        · cases h
        · obtain ⟨_, hrest⟩ := Prod.mk.inj (Option.some.inj h)
          obtain ⟨rfl, _⟩ := Prod.mk.inj hrest
          exact wrap_lt 16 _
      · exact hsmall h
    · split at h
      · cases h
      · exact hsmall h

theorem accept_taken (h : accept elks file loadCode = some b) : b.Taken loadCode := by
  unfold accept at h
  split at h
  · cases h
  · rename_i mh stackTop pos hheaders
    split at h
    · cases h
    · rename_i hlen
      dsimp only at h
      generalize htextOf : (if loadCode then file.read pos mh.tseg else
        ⟨[], mh.tseg, wrap 32 (pos + mh.tseg)⟩) = text at h
      split at h
      · cases h
      · rename_i hreads
        obtain rfl := Option.some.inj h
        obtain ⟨htext, _⟩ := not_or.mp hreads
        rw [not_not] at htext
        refine ⟨?_, ?_, readHeaders_stackTop hheaders, not_lt.mp hlen⟩
        · rintro rfl
          rw [← htextOf]
          rfl
        · rintro rfl
          rw [if_pos rfl] at htextOf
          subst htextOf
          refine ⟨(file.length_le _ _).trans (Nat.mod_le _ _), ?_⟩
          exact lt_of_eq_of_lt htext.symm (file.result_lt _ _)

theorem Binary.Taken.text_fits (h : b.Taken loadCode) :
    ∀ i < b.text.length, wrap 16 (0 + i) < b.limit .text := by
  intro i hi
  cases loadCode with
  | false =>
      rw [h.noText rfl] at hi
      cases hi
  | true =>
      obtain ⟨hle, hlt⟩ := h.text rfl
      have hlimit : b.limit .text = 16 * codePages b.mh := rfl
      rw [hlimit]
      unfold codePages wrap
      omega

theorem setupKernelStack_inside {limit : Place → Nat} {cseg dseg sp : Nat} :
    (s.setupKernelStack cseg dseg sp).Inside limit ↔
      (∀ i < 6, wrap 16 (wrapSub 16 sp 6 + i) < limit .data) ∧ s.Inside limit := by
  unfold Loading.setupKernelStack
  rw [inside_pokew, inside_pokew, inside_pokew]
  have hpos : ∀ i < 6, wrap 16 (wrapSub 16 sp 6 + i) = (sp + 65530 + i) % 65536 := by
    intro i _
    unfold wrapSub wrap
    omega
  have hwords : wrap 16 (wrapSub 16 sp 2) = (sp + 65530 + 4) % 65536 ∧
      wrap 16 (wrapSub 16 sp 2 + 1) = (sp + 65530 + 5) % 65536 ∧
      wrap 16 (wrapSub 16 sp 4) = (sp + 65530 + 2) % 65536 ∧
      wrap 16 (wrapSub 16 sp 4 + 1) = (sp + 65530 + 3) % 65536 ∧
      wrap 16 (wrapSub 16 sp 6) = (sp + 65530 + 0) % 65536 ∧
      wrap 16 (wrapSub 16 sp 6 + 1) = (sp + 65530 + 1) % 65536 := by
    unfold wrapSub wrap
    omega
  obtain ⟨h4, h5, h2, h3, h0, h1⟩ := hwords
  rw [h4, h5, h2, h3, h0, h1]
  constructor
  · rintro ⟨hb1, hb0, hb3, hb2, hb5, hb4, hin⟩
    refine ⟨?_, hin⟩
    intro i hi
    rw [hpos i hi]
    interval_cases i
    · exact hb0
    · exact hb1
    · exact hb2
    · exact hb3
    · exact hb4
    · exact hb5
  · rintro ⟨hall, hin⟩
    have hat : ∀ i < 6, (sp + 65530 + i) % 65536 < limit .data := by
      intro i hi
      rw [← hpos i hi]
      exact hall i hi
    exact ⟨hat 1 (by omega), hat 0 (by omega), hat 3 (by omega), hat 2 (by omega),
      hat 5 (by omega), hat 4 (by omega), hin⟩

theorem stackPtr_lt (mh : MinixExecHdr) (stackTop slen : Nat) :
    stackPtr mh stackTop slen < 0x10000 :=
  wrapSub_lt 16 _ _

theorem placeArgs_inside (h : b.Taken r.loadCode) (hs : s.written = []) :
    (b.placeArgs r s).Inside b.limit ∧
      (∀ i < 6, wrap 16 (wrapSub 16 (stackPtr b.mh b.stackTop r.slen) 6 + i) < b.limit .data) ↔
      b.Fits r.slen := by
  have hempty : s.Inside b.limit := by
    unfold Loading.Inside
    rw [hs]
    intro w hw
    cases hw
  unfold Binary.placeArgs Binary.place
  dsimp only
  rw [inside_copy, inside_clear, inside_put, inside_put]
  have htext := h.text_fits
  unfold Binary.limit at htext ⊢
  dsimp only at htext ⊢
  rw [covered_iff h.len h.stackTop, covered_iff h.len (wrap_lt 16 _),
    covered_iff h.len (stackPtr_lt _ _ _), covered_iff h.len (wrapSub_lt 16 _ _)]
  constructor
  · rintro ⟨⟨hargs, hbss, hdata, _⟩, hframe⟩
    exact ⟨hdata, hbss, hargs, hframe⟩
  · rintro ⟨hdata, hbss, hargs, hframe⟩
    exact ⟨⟨hargs, hbss, hdata, htext, hempty⟩, hframe⟩

theorem twoNulls_iff (h : b.Taken r.loadCode) (hfit : b.Fits r.slen) (happart : r.Apart b)
    (hslen : r.slen < 0x10000) :
    b.TwoNulls r s ↔
      ∃ i k, 0 < i ∧ i < k ∧ 2 * k + 2 ≤ r.slen ∧
        s.peekw r.userSeg (r.sptr + 2 * i) = 0 ∧ s.peekw r.userSeg (r.sptr + 2 * k) = 0 := by
  have htext := h.text_fits
  have hdata := (covered_iff h.len h.stackTop).mpr hfit.data
  have hbss := (covered_iff h.len (wrap_lt 16 _)).mpr hfit.bss
  have hargs := (covered_iff h.len (stackPtr_lt b.mh b.stackTop r.slen)).mpr hfit.args
  have hplace : ∀ i < r.slen, (b.place r s).peek r.userSeg (r.sptr + i) =
      s.peek r.userSeg (r.sptr + i) := by
    intro i hi
    obtain ⟨hcode, hseg⟩ := happart i hi
    refine (clear_memory fun j hj => ?_).trans <| (put_memory fun j hj => ?_).trans <|
      put_memory fun j hj => ?_
    · exact hseg _ (hbss j hj)
    · exact hseg _ (hdata j hj)
    · exact hcode _ (htext j hj)
  have hpeek : ∀ i < r.slen,
      (b.placeArgs r s).peek r.dseg (stackPtr b.mh b.stackTop r.slen + i) =
        s.peek r.userSeg (r.sptr + i) := fun i hi =>
    (peek_copy hi hslen.le fun j hj i hi => (happart i hi).2 _ (hargs j hj)).trans (hplace i hi)
  have hword : ∀ i, 2 * i + 2 ≤ r.slen →
      (b.placeArgs r s).peekw r.dseg (stackPtr b.mh b.stackTop r.slen + 2 * i) =
        s.peekw r.userSeg (r.sptr + 2 * i) := by
    intro i hi
    unfold Loading.peekw
    rw [Nat.add_assoc, Nat.add_assoc, hpeek _ (by omega), hpeek _ (by omega)]
  constructor
  · rintro ⟨i, k, hi, hik, hk, hzero, hend⟩
    exact ⟨i, k, hi, hik, hk, hword i (by omega) ▸ hzero, hword k hk ▸ hend⟩
  · rintro ⟨i, k, hi, hik, hk, hzero, hend⟩
    exact ⟨i, k, hi, hik, hk, (hword i (by omega)).trans hzero, (hword k hk).trans hend⟩

/-- What `sys_execve` writes for a file that it takes stays inside the new segments, and
the loops over `argv` and `envp` inside the argument block, exactly when the data, the
bss, the block and the first frame fit into the data segment and the block has its two
zero words. -/
theorem exec_inside_iff
    {memory : Nat → UInt8}
    (h : accept elks file r.loadCode = some b)
    (hslen : r.slen < 0x10000) :
    (∃ fuel out rounds, b.load r fuel ⟨memory, []⟩ = some (out, rounds) ∧
      (∀ w ∈ out.written, w.2 < b.limit w.1) ∧ 2 * rounds + 2 ≤ r.slen) ↔
    b.Fits r.slen ∧ b.TwoNulls r ⟨memory, []⟩ := by
  have htaken := accept_taken h
  have hptr := stackPtr_lt b.mh b.stackTop r.slen
  have hfits := @placeArgs_inside b r ⟨memory, []⟩ htaken rfl
  have hstart : wrap 16 (stackPtr b.mh b.stackTop r.slen + 2 * 0) =
      stackPtr b.mh b.stackTop r.slen := by
    rw [Nat.mul_zero, Nat.add_zero]
    exact wrap_of_lt hptr
  have hscan : ∀ {fuel}, fuel < 0x8000 →
      (fixArgs r.dseg (stackPtr b.mh b.stackTop r.slen) fuel (stackPtr b.mh b.stackTop r.slen)
        0 0 (b.placeArgs r ⟨memory, []⟩)).map Prod.snd =
      scan (fun j => (b.placeArgs r ⟨memory, []⟩).peekw r.dseg
        (stackPtr b.mh b.stackTop r.slen + 2 * j)) fuel 0 0 := by
    intro fuel hfuel
    have hahead : Ahead r.dseg (stackPtr b.mh b.stackTop r.slen) 0
        (b.placeArgs r ⟨memory, []⟩) (b.placeArgs r ⟨memory, []⟩) := fun _ _ _ => rfl
    have hrun := @fixArgs_scan _ _ _ _ fuel 0 0 hahead (by omega)
    rwa [hstart] at hrun
  constructor
  · rintro ⟨fuel, out, rounds, hload, hin, hblock⟩
    unfold Binary.load at hload
    dsimp only at hload
    split at hload
    · cases hload
    · rename_i s' k hfix
      obtain ⟨rfl, rfl⟩ := Prod.mk.inj (Option.some.inj hload)
      obtain ⟨hframe, hbefore⟩ := setupKernelStack_inside.mp hin
      refine ⟨hfits.mp ⟨fixArgs_inside_before hfix hbefore, hframe⟩, ?_⟩
      have hshort := (fixArgs_rounds hfix).2
      rw [Nat.sub_zero] at hshort
      have hfound := hscan (show k < 0x8000 by omega)
      rw [hshort] at hfound
      obtain ⟨i, hi, hik, hword, hend⟩ := scan_zero hfound.symm
      exact ⟨i, k, hi, hik, hblock, hword, hend⟩
  · rintro ⟨hfit, i, k, hi, hik, hblock, hword, hend⟩
    have hsome : ∃ k' ≤ k, scan (fun j => (b.placeArgs r ⟨memory, []⟩).peekw r.dseg
        (stackPtr b.mh b.stackTop r.slen + 2 * j)) k 0 0 = some k' :=
      exists_scan_zero hword hend hi hik (by omega)
    obtain ⟨k', hk', hfound⟩ := hsome
    rw [← hscan (show k < 0x8000 by omega)] at hfound
    obtain ⟨⟨s', rounds⟩, hfix, hrounds⟩ := Option.map_eq_some_iff.mp hfound
    obtain rfl : rounds = k' := hrounds
    obtain ⟨hplaced, hframe⟩ := hfits.mpr hfit
    have hargs := (covered_iff htaken.len hptr).mpr hfit.args
    have hfix' : fixArgs r.dseg (stackPtr b.mh b.stackTop r.slen) k
        (wrap 16 (stackPtr b.mh b.stackTop r.slen + 2 * 0)) 0 0 (b.placeArgs r ⟨memory, []⟩) =
        some (s', rounds) := by
      rw [hstart]
      exact hfix
    have hfixed := fixArgs_inside hfix' hplaced fun j hj => hargs j (by omega)
    refine ⟨k, s'.setupKernelStack r.cseg r.dseg (stackPtr b.mh b.stackTop r.slen), rounds, ?_,
      setupKernelStack_inside.mpr ⟨hframe, hfixed⟩, by omega⟩
    unfold Binary.load
    dsimp only
    rw [hfix]

end Inside

section Runs

/-- A program of one byte without data, with a bss of `bseg` bytes and 1024 bytes of data
segment. -/
def bssFile (bseg : UInt8) : ExecFile :=
  .ofBytes [0x01, 0x03, 0x20, 0x04, 0x20, 0, 0, 0, 1, 0, 0, 0, 0, 0, 0, 0, bseg, 4, 0, 0,
    0, 0, 0, 0, 0, 4, 0, 0, 0, 0, 0, 0, 0x90]

/-- It in segments of its own, with no arguments. -/
def bssRoom : Room where
  cseg := 0x2000
  dseg := 0x2001
  loadCode := true
  userSeg := 0x1000
  sptr := 0
  slen := 6

def bssBinary (bseg : Nat) : Binary :=
  ⟨⟨0x04200301, 0x20, 1, 0, bseg, 1024⟩, 0, [0x90], []⟩

theorem bssBinary_fits : (bssBinary 1024).Fits 6 := by
  refine ⟨?_, ?_, ?_, ?_⟩ <;> unfold Covered <;> decide

theorem exec_inside_bss :
    ∃ fuel out rounds,
      (bssBinary 1024).load bssRoom fuel ⟨fun _ => 0, []⟩ = some (out, rounds) ∧
        (∀ w ∈ out.written, w.2 < (bssBinary 1024).limit w.1) ∧ 2 * rounds + 2 ≤ 6 := by
  have haccept : accept true (bssFile 0) bssRoom.loadCode = some (bssBinary 1024) := rfl
  have htaken := accept_taken haccept
  refine (exec_inside_iff haccept (by decide)).mpr ⟨bssBinary_fits, ?_⟩
  refine (twoNulls_iff htaken bssBinary_fits ?_ (by decide)).mpr
    ⟨1, 2, by decide, by decide, by decide, rfl, rfl⟩
  intro i hi
  constructor
  · intro o ho
    have hlimit : (bssBinary 1024).limit .text = 16 := by decide
    have hseg : bssRoom.cseg = 0x2000 ∧ bssRoom.userSeg = 0x1000 := ⟨rfl, rfl⟩
    have hwrap := wrap_lt 16 (bssRoom.sptr + i)
    omega
  · intro o ho
    have hlimit : (bssBinary 1024).limit .data = 1024 := by decide
    have hseg : bssRoom.dseg = 0x2001 ∧ bssRoom.userSeg = 0x1000 := ⟨rfl, rfl⟩
    have hwrap := wrap_lt 16 (bssRoom.sptr + i)
    omega

/-- The bss of this file is larger than the data segment that is allocated for it. -/
theorem bss_outside :
    accept true (bssFile 16) true = some (bssBinary 1040) ∧
      ¬ ∃ fuel out rounds,
        (bssBinary 1040).load bssRoom fuel ⟨fun _ => 0, []⟩ = some (out, rounds) ∧
          (∀ w ∈ out.written, w.2 < (bssBinary 1040).limit w.1) ∧ 2 * rounds + 2 ≤ 6 := by
  refine ⟨rfl, ?_⟩
  rintro ⟨fuel, out, rounds, hload, hin, _⟩
  unfold Binary.load at hload
  dsimp only at hload
  split at hload
  · cases hload
  · rename_i s' k hfix
    obtain ⟨rfl, rfl⟩ := Prod.mk.inj (Option.some.inj hload)
    obtain ⟨_, hbefore⟩ := setupKernelStack_inside.mp hin
    have hargs := fixArgs_inside_before hfix hbefore
    unfold Binary.placeArgs Binary.place at hargs
    obtain ⟨hbss, _⟩ := inside_clear.mp (inside_copy.mp hargs).2
    exact absurd (hbss 1024 (by decide)) (by decide)

end Runs

end Exec
end Elks
