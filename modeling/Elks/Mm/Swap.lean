import Elks.Mm.Dup

/-!
# Swapping (arch/i86/mm/malloc.c, CONFIG_SWAP on)

`swap_out` moves a segment of main memory to the swap device, in blocks of a
kilobyte, and `swap_in` moves it back, into a hole whose size is that of the blocks.
The device has a hole list of its own.  Every task that has the segment gets the new
number, and a flag says in which of the two lists it is to be looked up.

A task none of whose segments is on the device any more gets new segment registers,
and the code segment saved on its user stack is set to the new one.

**Results.**
* `swapOut_ok`, `swapIn_ok`: what a call that succeeds has done, from any two tilings
  with segments of at most 64 kilobytes.
-/

namespace Elks
namespace Mm

open Lib

/-- A task as the swapper sees it: `mm`, with the bits `CS_SWAP` and `DS_SWAP` of its
flags, and of `t_regs` the registers that depend on it. -/
structure SwapTask where
  cseg : Nat
  dseg : Nat
  csSwap : Bool
  dsSwap : Bool
  cs : Nat
  ds : Nat
  ss : Nat
  sp : Nat
deriving DecidableEq

/-- Main memory, the swap device with its bytes and its hole list, and the table of tasks. -/
structure Swapper where
  mem : Arena
  swap : Arena
  task : Fin maxTasks → SwapTask

/-- `mm.flags`. -/
def SwapTask.flags (t : SwapTask) : Bool :=
  t.csSwap || t.dsSwap

/-- The task in the loop of `swap_out`. -/
def SwapTask.sentOut (base target : Nat) (t : SwapTask) : SwapTask :=
  { t with
    cseg := if t.cseg = base ∧ t.csSwap = false then target else t.cseg
    csSwap := t.csSwap || decide (t.cseg = base)
    dseg := if t.dseg = base ∧ t.dsSwap = false then target else t.dseg
    dsSwap := t.dsSwap || decide (t.dseg = base) }

/-- The task in the loop of `swap_in`, up to the test of its flags. -/
def SwapTask.broughtIn (base target : Nat) (t : SwapTask) : SwapTask :=
  { t with
    cseg := if t.cseg = base ∧ t.csSwap = true then target else t.cseg
    csSwap := t.csSwap && !decide (t.cseg = base)
    dseg := if t.dseg = base ∧ t.dsSwap = true then target else t.dseg
    dsSwap := t.dsSwap && !decide (t.dseg = base) }

/-- The last segment of the task that was on the device comes in. -/
def SwapTask.Resumes (base target : Nat) (t : SwapTask) : Prop :=
  t.flags = true ∧ (t.broughtIn base target).flags = false

instance (base target : Nat) (t : SwapTask) : Decidable (t.Resumes base target) :=
  inferInstanceAs (Decidable (_ ∧ _))

/-- The segment registers are those of `mm`. -/
def SwapTask.reload (t : SwapTask) : SwapTask :=
  { t with cs := t.cseg, ds := t.dseg, ss := t.dseg }

/-- The task after the loop of `swap_in`. -/
def SwapTask.cameIn (base target : Nat) (t : SwapTask) : SwapTask :=
  if t.Resumes base target then
    (t.broughtIn base target).reload
  else
    t.broughtIn base target

/-- `pokew`. -/
def pokew (memory : Nat → UInt8) (seg offset value : Nat) : Nat → UInt8 :=
  Function.update (Function.update memory (seg * 16 + offset) (UInt8.ofNat value))
    (seg * 16 + wrap 16 (offset + 1)) (UInt8.ofNat (value >>> 8))

/-- `put_ustack`. -/
def putUstack (memory : Nat → UInt8) (t : SwapTask) (off val : Nat) : Nat → UInt8 :=
  pokew memory t.ss (wrap 16 (t.sp + off)) val

/-- `ll_rw_blk(WRITE, &swap_buf)`. -/
def writeBlock (memory device : Nat → UInt8) (blocknr seg data : Nat) : Nat → UInt8 :=
  fun x =>
    if blocknr * 1024 ≤ x ∧ x < blocknr * 1024 + 1024 then
      memory (seg * 16 + data + (x - blocknr * 1024))
    else
      device x

/-- `ll_rw_blk(READ, &swap_buf)`. -/
def readBlock (memory device : Nat → UInt8) (blocknr seg data : Nat) : Nat → UInt8 :=
  fun x =>
    if seg * 16 + data ≤ x ∧ x < seg * 16 + data + 1024 then
      device (blocknr * 1024 + (x - (seg * 16 + data)))
    else
      memory x

/-- The loop of `swap_out` that writes the segment out. -/
def writeBlocks (memory device : Nat → UInt8) (first seg : Nat) : Nat → Nat → UInt8
  | 0 => device
  | ct + 1 =>
      writeBlock memory (writeBlocks memory device first seg ct) (wrap 16 (first + ct)) seg
        (wrap 16 (ct <<< 10))

/-- The loop of `swap_in` that reads the segment in. -/
def readBlocks (memory device : Nat → UInt8) (first seg : Nat) : Nat → Nat → UInt8
  | 0 => memory
  | ct + 1 =>
      readBlock (readBlocks memory device first seg ct) device (wrap 16 (first + ct)) seg
        (wrap 16 (ct <<< 10))

/-- `split_hole`, and the marks that follow it in `swap_out` and `swap_in`. -/
def claimHole (a : Arena) (m : Slot) (len refcount : Nat) : Except Fault Arena := do
  let a₁ ← splitHole a m len
  .ok (a₁.set m { a₁.holes m with flags := .used, refcount := refcount })

/-- The words that `swap_in` puts on the user stacks. -/
def fixStacks (task : Fin maxTasks → SwapTask) (base target : Nat) (memory : Nat → UInt8) :
    Nat → UInt8 :=
  (List.finRange maxTasks).foldl (fun memory t =>
    if (task t).Resumes base target then
      putUstack memory ((task t).cameIn base target) 2 ((task t).cameIn base target).cs
    else
      memory) memory

/-- The blocks that `swap_out` asks for. -/
def blocksOf (extent : Nat) : Nat :=
  wrap 16 (extent + 0x3f) >>> 6

/-- `swap_out`. -/
def swapOut (s : Swapper) (base : Nat) : Except Fault (Swapper × Int) := do
  match ← findHole s.mem base with
  | none => .error .nullPointer
  | some o =>
      let blocks := blocksOf (s.mem.holes o).extent
      match ← bestFitHole s.swap blocks with
      | none => .ok (s, -1)
      | some so =>
          let swap ← claimHole s.swap so blocks (s.mem.holes o).refcount
          let target := (swap.holes so).pageBase
          let device :=
            writeBlocks s.mem.memory swap.memory target (s.mem.holes o).pageBase blocks
          let mem ← sweepHoles (s.mem.set o { s.mem.holes o with flags := .free })
          .ok ({ mem := mem
                 swap := { swap with memory := device }
                 task := fun t => (s.task t).sentOut base target }, 1)

/-- `swap_in`; its `chint` is not used. -/
def swapIn (s : Swapper) (base : Nat) : Except Fault (Swapper × Int) := do
  match ← findHole s.swap base with
  | none => .error .nullPointer
  | some so =>
      let extent := wrap 16 ((s.swap.holes so).extent <<< 6)
      match ← bestFitHole s.mem extent with
      | none => .ok (s, -1)
      | some o =>
          let mem ← claimHole s.mem o extent (s.swap.holes so).refcount
          let target := (mem.holes o).pageBase
          let memory := readBlocks mem.memory s.swap.memory (s.swap.holes so).pageBase target
            (s.swap.holes so).extent
          let swap ← sweepHoles
            (s.swap.set so { s.swap.holes so with refcount := 0, flags := .free })
          .ok ({ mem := { mem with memory := fixStacks s.task base target memory }
                 swap := swap
                 task := fun t => (s.task t).cameIn base target }, 0)

section Transfers

variable {memory device : Nat → UInt8} {first seg n x : Nat}

theorem block_data {ct : Nat} (hct : ct < 64) : wrap 16 (ct <<< 10) = ct * 1024 := by
  rw [Nat.shiftLeft_eq]
  exact wrap_of_lt (by omega)

theorem writeBlocks_eq (hn : n ≤ 64) (hfirst : first + n ≤ 65536) :
    writeBlocks memory device first seg n x =
      if first * 1024 ≤ x ∧ x < (first + n) * 1024 then
        memory (seg * 16 + (x - first * 1024))
      else
        device x := by
  induction n with
  | zero =>
      rw [if_neg (by omega)]
      rfl
  | succ ct ih =>
      rw [writeBlocks, block_data (by omega), wrap_of_lt (by omega), writeBlock]
      have hlast : (first * 1024 ≤ x ∧ x < (first + (ct + 1)) * 1024) ↔
          ((first + ct) * 1024 ≤ x ∧ x < (first + ct) * 1024 + 1024) ∨
            (first * 1024 ≤ x ∧ x < (first + ct) * 1024) := by
        omega
      by_cases hx : (first + ct) * 1024 ≤ x ∧ x < (first + ct) * 1024 + 1024
      · have harg : seg * 16 + ct * 1024 + (x - (first + ct) * 1024) =
            seg * 16 + (x - first * 1024) := by
          omega
        rw [if_pos hx, if_pos (hlast.mpr (Or.inl hx)), harg]
      · rw [if_neg hx, ih (by omega) (by omega)]
        refine if_congr ?_ rfl rfl
        rw [hlast, or_iff_right hx]

theorem readBlocks_eq (hn : n ≤ 64) (hfirst : first + n ≤ 65536) :
    readBlocks memory device first seg n x =
      if seg * 16 ≤ x ∧ x < seg * 16 + n * 1024 then
        device (first * 1024 + (x - seg * 16))
      else
        memory x := by
  induction n with
  | zero =>
      rw [if_neg (by omega)]
      rfl
  | succ ct ih =>
      rw [readBlocks, block_data (by omega), wrap_of_lt (by omega), readBlock]
      have hlast : (seg * 16 ≤ x ∧ x < seg * 16 + (ct + 1) * 1024) ↔
          (seg * 16 + ct * 1024 ≤ x ∧ x < seg * 16 + ct * 1024 + 1024) ∨
            (seg * 16 ≤ x ∧ x < seg * 16 + ct * 1024) := by
        omega
      by_cases hx : seg * 16 + ct * 1024 ≤ x ∧ x < seg * 16 + ct * 1024 + 1024
      · have harg : (first + ct) * 1024 + (x - (seg * 16 + ct * 1024)) =
            first * 1024 + (x - seg * 16) := by
          omega
        rw [if_pos hx, if_pos (hlast.mpr (Or.inl hx)), harg]
      · rw [if_neg hx, ih (by omega) (by omega)]
        refine if_congr ?_ rfl rfl
        rw [hlast, or_iff_right hx]

/-- The bytes of the code segment that is saved on the user stack. -/
def SwapTask.SavedCs (t : SwapTask) (x : Nat) : Prop :=
  x = t.ss * 16 + wrap 16 (t.sp + 2) ∨ x = t.ss * 16 + wrap 16 (wrap 16 (t.sp + 2) + 1)

theorem fixStacks_other {task : Fin maxTasks → SwapTask} {base target : Nat}
    (hx : ∀ t, (task t).Resumes base target → ¬((task t).cameIn base target).SavedCs x) :
    fixStacks task base target memory x = memory x := by
  have hloop : ∀ (l : List (Fin maxTasks)) (memory : Nat → UInt8),
      l.foldl (fun memory t =>
        if (task t).Resumes base target then
          putUstack memory ((task t).cameIn base target) 2 ((task t).cameIn base target).cs
        else
          memory) memory x = memory x := by
    intro l
    induction l with
    | nil => exact fun _ => rfl
    | cons t l ih =>
        intro memory
        rw [List.foldl_cons, ih]
        split
        · rename_i hres
          have hno := hx t hres
          rw [SwapTask.SavedCs, not_or] at hno
          rw [putUstack, pokew, Function.update_of_ne hno.2, Function.update_of_ne hno.1]
        · rfl
  exact hloop _ memory

end Transfers

section Claims

variable {start stop : Nat} {a a' : Arena} {l : List Slot} {m : Slot} {len count : Nat}

/-- Free hole `m` has been cut down to `len` and marked as used, and nothing else. -/
structure Claimed (a a' : Arena) (m : Slot) (len count : Nat) : Prop where
  fits : Fits a len m
  hole : (a'.holes m).flags = .used ∧ (a'.holes m).refcount = count ∧
    (a'.holes m).extent = len ∧ (a'.holes m).pageBase = (a.holes m).pageBase
  others : OthersKept a a' m

theorem claimHole_ok (hok : claimHole a m len count = .ok a') :
    ∃ a₁, takeHole a m len = .ok a₁ ∧
      a' = a₁.set m { a₁.holes m with refcount := count } := by
  unfold claimHole at hok
  unfold takeHole
  cases hs : splitHole a m len with
  | error f =>
      rw [hs] at hok
      cases hok
  | ok a₁ =>
      rw [hs] at hok
      refine ⟨_, rfl, ?_⟩
      have heq : a' = a₁.set m { a₁.holes m with flags := .used, refcount := count } :=
        (Except.ok.inj hok).symm
      rw [heq, Arena.set_same, Arena.set_set]

theorem claimHole_memory (hok : claimHole a m len count = .ok a') : a'.memory = a.memory := by
  obtain ⟨a₁, htake, rfl⟩ := claimHole_ok hok
  have hmemory : a₁.memory = a.memory := takeHole_memory htake
  exact hmemory

theorem Tiled.claim (h : Tiled start stop a l) (hstop : stop < 2 ^ 16) (hlen : 0 < len)
    (hbest : bestFitHole a len = .ok (some m)) (hok : claimHole a m len count = .ok a') :
    Claimed a a' m len count ∧ (∃ l', Tiled start stop a' l') ∧
      (Layout start stop a l → ∃ l', Layout start stop a' l') := by
  obtain ⟨a₁, htake, rfl⟩ := claimHole_ok hok
  have hfit : m ∈ l ∧ Fits a len m := by
    rcases h.bestFitHole_spec len with ⟨hnone, _⟩ | ⟨m', hsome, hmem, hfit, _⟩
    · rw [hbest] at hnone
      cases hnone
    · rw [hbest] at hsome
      cases hsome
      exact ⟨hmem, hfit⟩
  obtain ⟨hmem, hfit⟩ := hfit
  have hset : ∀ i, i ≠ m → (a₁.set m { a₁.holes m with refcount := count }).holes i =
      a₁.holes i := fun i hi => Arena.set_ne _ _ hi
  have hretag : ∀ l', Tiled start stop a₁ l' → m ∈ l' →
      Tiled start stop (a₁.set m { a₁.holes m with refcount := count }) l' := by
    intro l' ht hm
    refine ht.retag hm hset ?_ ?_ ?_
    · simp [MallocHole.seg]
    · simp
    · simpa using ht.onList m hm
  have hlayout : Layout start stop a l → ∃ l', Layout start stop
      (a₁.set m { a₁.holes m with refcount := count }) l' := by
    intro hlay
    rcases hlay.takeHole_spec hstop hlen hmem hfit with
      ⟨herr, _⟩ | ⟨a₂, l', hok', _, hlay', htaken⟩
    · rw [herr] at htake
      cases htake
    · rw [htake] at hok'
      cases hok'
      exact ⟨l', (hlay'.recount_spec htaken.flags count).1⟩
  obtain ⟨p, q, rfl⟩ := List.append_of_mem hmem
  rcases h.takeHole_cases hstop hlen hfit with
    ⟨herr, _⟩ | ⟨a₂, hok', htaken, hext, hcases⟩
  · rw [herr] at htake
    cases htake
  · rw [htake] at hok'
    cases hok'
    refine ⟨⟨hfit, ?_, fun i hi => ?_⟩, ?_, hlayout⟩
    · rw [Arena.set_same]
      exact ⟨htaken.flags, rfl, hext, htaken.pageBase⟩
    · rw [hset i hi]
      exact htaken.others i hi
    · rcases hcases with ⟨_, ht, _⟩ | ⟨_, n, _, ht, _⟩
      · exact ⟨_, hretag _ ht (by simp)⟩
      · exact ⟨_, hretag _ ht (by simp)⟩

theorem sweepFrom_memory {fuel : Nat} {o : Option Slot} (hok : sweepFrom fuel a o = .ok a') :
    a'.memory = a.memory := by
  fun_induction sweepFrom fuel a o with
  | case1 => cases hok; rfl
  | case2 => cases hok; rfl
  | case3 => cases hok
  | case4 _ _ _ _ _ _ ih =>
      rw [ih hok]
      rfl
  | case5 _ _ _ _ _ _ ih => exact ih hok

end Claims

section SwapCalls

variable {start stop lo hi : Nat} {s s' : Swapper} {l : List Slot} {o so : Slot} {a a' : Arena}

/-- Both hole lists tile, no segment is larger than 64 kilobytes, and what a task has on
the device is a segment there. -/
structure Sound (start stop lo hi : Nat) (s : Swapper) : Prop where
  mem : ∃ l, Tiled start stop s.mem l
  swap : ∃ l, Tiled lo hi s.swap l
  pages : ∀ i, (s.mem.holes i).flags = .used → (s.mem.holes i).extent ≤ 4096
  blocks : ∀ i, (s.swap.holes i).flags = .used → (s.swap.holes i).extent ≤ 64
  code : ∀ t, (s.task t).csSwap = true → Live s.swap (s.task t).cseg
  data : ∀ t, (s.task t).dsSwap = true → Live s.swap (s.task t).dseg

/-- Segment `o` has gone out to `so`. -/
structure WentOut (s s' : Swapper) (o so : Slot) : Prop where
  claimed : Claimed s.swap s'.swap so (blocksOf (s.mem.holes o).extent) (s.mem.holes o).refcount
  device : ∀ x, s'.swap.memory x =
    if (s.swap.holes so).pageBase * 1024 ≤ x ∧
        x < ((s.swap.holes so).pageBase + blocksOf (s.mem.holes o).extent) * 1024 then
      s.mem.memory ((s.mem.holes o).pageBase * 16 + (x - (s.swap.holes so).pageBase * 1024))
    else
      s.swap.memory x
  others : OthersKept s.mem s'.mem o
  gone : (s'.mem.holes o).flags ≠ .used
  task : ∀ t, s'.task t =
    (s.task t).sentOut (s.mem.holes o).pageBase (s.swap.holes so).pageBase

/-- Segment `so` has come in to `o`. -/
structure CameIn (s s' : Swapper) (so o : Slot) : Prop where
  claimed : Claimed s.mem s'.mem o ((s.swap.holes so).extent * 64) (s.swap.holes so).refcount
  bytes : ∀ x, (∀ t, (s.task t).Resumes (s.swap.holes so).pageBase (s.mem.holes o).pageBase →
      ¬(s'.task t).SavedCs x) →
    s'.mem.memory x =
      if (s.mem.holes o).pageBase * 16 ≤ x ∧
          x < (s.mem.holes o).pageBase * 16 + (s.swap.holes so).extent * 1024 then
        s.swap.memory ((s.swap.holes so).pageBase * 1024 + (x - (s.mem.holes o).pageBase * 16))
      else
        s.mem.memory x
  others : OthersKept s.swap s'.swap so
  gone : (s'.swap.holes so).flags ≠ .used
  device : s'.swap.memory = s.swap.memory
  task : ∀ t, s'.task t =
    (s.task t).cameIn (s.swap.holes so).pageBase (s.mem.holes o).pageBase

theorem blocksOf_bounds {extent : Nat} (hpos : 0 < extent) (hext : extent ≤ 4096) :
    0 < blocksOf extent ∧ blocksOf extent ≤ 64 ∧ extent ≤ blocksOf extent * 64 := by
  have heq : blocksOf extent = (extent + 63) / 64 := by
    rw [blocksOf, wrap_of_lt (by omega), Nat.shiftRight_eq_div_pow]
  rw [heq]
  omega

/-- A segment of a tiling has a size, and ends within it. -/
theorem Tiled.used_bounds {m : Slot} (h : Tiled start stop a l) (hm : (a.holes m).flags = .used) :
    0 < (a.holes m).extent ∧ (a.holes m).pageBase + (a.holes m).extent ≤ stop := by
  have hbounds := h.tiles.mem_bounds (List.mem_map_of_mem (h.mem_of_used hm))
  exact ⟨hbounds.2.1, hbounds.2.2⟩

theorem OthersKept.extent_le {m : Slot} {n : Nat} (h : OthersKept a a' m)
    (hall : ∀ i, (a.holes i).flags = .used → (a.holes i).extent ≤ n)
    (hm : (a'.holes m).flags = .used → (a'.holes m).extent ≤ n) (i : Slot)
    (hi : (a'.holes i).flags = .used) : (a'.holes i).extent ≤ n := by
  by_cases him : i = m
  · subst him
    exact hm hi
  · have hwas := (h i him).1.mp hi
    rw [(h i him).2 hwas]
    exact hall i hwas

theorem Claimed.live {m : Slot} {len count base : Nat} (h : Claimed a a' m len count)
    (hlive : Live a base ∨ base = (a.holes m).pageBase) : Live a' base := by
  rcases hlive with ⟨i, hi, hib⟩ | rfl
  · have him : i ≠ m := by
      rintro rfl
      rw [h.fits.2] at hi
      cases hi
    refine ⟨i, (h.others i him).1.mpr hi, ?_⟩
    rw [(h.others i him).2 hi]
    exact hib
  · exact ⟨m, h.hole.1, h.hole.2.2.2⟩

theorem cameIn_mm (t : SwapTask) (base target : Nat) :
    (t.cameIn base target).cseg = (t.broughtIn base target).cseg ∧
      (t.cameIn base target).csSwap = (t.broughtIn base target).csSwap ∧
      (t.cameIn base target).dseg = (t.broughtIn base target).dseg ∧
      (t.cameIn base target).dsSwap = (t.broughtIn base target).dsSwap := by
  unfold SwapTask.cameIn
  split
  · exact ⟨rfl, rfl, rfl, rfl⟩
  · exact ⟨rfl, rfl, rfl, rfl⟩

theorem swapOut_ok (h : Sound start stop lo hi s) (hstop : stop < 2 ^ 16) (hhi : hi < 2 ^ 16)
    (ho : (s.mem.holes o).flags = .used) (hok : swapOut s (s.mem.holes o).pageBase = .ok (s', 1)) :
    ∃ so, WentOut s s' o so ∧ Sound start stop lo hi s' ∧
      ∃ l, Layout start stop s'.mem l := by
  obtain ⟨l, hmem⟩ := h.mem
  obtain ⟨k, hswap⟩ := h.swap
  obtain ⟨hpos, _⟩ := hmem.used_bounds ho
  obtain ⟨hbpos, hble, _⟩ := blocksOf_bounds hpos (h.pages o ho)
  simp only [swapOut, hmem.findHole_used ho, bind, Except.bind] at hok
  cases hbest : bestFitHole s.swap (blocksOf (s.mem.holes o).extent) with
  | error f =>
      rw [hbest] at hok
      cases hok
  | ok best =>
    rw [hbest] at hok
    cases best with
    | none =>
        have hres : (-1 : Int) = 1 := congrArg Prod.snd (Except.ok.inj hok)
        exact absurd hres (by decide)
    | some so =>
      cases hclaim : claimHole s.swap so (blocksOf (s.mem.holes o).extent)
          (s.mem.holes o).refcount with
      | error f =>
          simp only [hclaim] at hok
          cases hok
      | ok swap =>
        obtain ⟨mem, l', hsweep, hlay, hkept, hgone⟩ :=
          hmem.release_spec hstop ho (s.mem.holes o).refcount
        obtain ⟨hclaimed, ⟨k', hswap'⟩, _⟩ := hswap.claim hhi hbpos hbest hclaim
        have hsame : ({ s.mem.holes o with
            refcount := (s.mem.holes o).refcount, flags := .free } : MallocHole) =
            { s.mem.holes o with flags := .free } := rfl
        rw [hsame] at hsweep
        simp only [hclaim, hsweep, Except.ok.injEq, Prod.mk.injEq, and_true] at hok
        subst hok
        have hbase := hclaimed.hole.2.2.2
        have hwithin := (hswap'.used_bounds hclaimed.hole.1).2
        rw [hclaimed.hole.2.2.1, hbase] at hwithin
        refine ⟨so, ⟨⟨hclaimed.fits, hclaimed.hole, hclaimed.others⟩, fun x => ?_, hkept,
          hgone, fun t => ?_⟩, ⟨⟨l', hlay.toTiled⟩, ?_, ?_, ?_, fun t ht => ?_,
          fun t ht => ?_⟩, l', hlay⟩
        · change writeBlocks _ _ _ _ _ x = _
          rw [writeBlocks_eq hble (by omega), hbase, claimHole_memory hclaim]
        · change (s.task t).sentOut _ _ = _
          rw [hbase]
        · exact ⟨k', hswap'.links, hswap'.tiles, hswap'.onList, hswap'.offList⟩
        · exact hkept.extent_le h.pages fun hu => absurd hu hgone
        · exact hclaimed.others.extent_le h.blocks fun _ => hclaimed.hole.2.2.1.trans_le hble
        · refine hclaimed.live ?_
          simp only [SwapTask.sentOut] at ht ⊢
          cases hcs : (s.task t).csSwap
          · have hmine : (s.task t).cseg = (s.mem.holes o).pageBase := by
              simpa [hcs] using ht
            right
            rw [if_pos ⟨hmine, rfl⟩, hbase]
          · left
            rw [if_neg (by simp)]
            exact h.code t hcs
        · refine hclaimed.live ?_
          simp only [SwapTask.sentOut] at ht ⊢
          cases hds : (s.task t).dsSwap
          · have hmine : (s.task t).dseg = (s.mem.holes o).pageBase := by
              simpa [hds] using ht
            right
            rw [if_pos ⟨hmine, rfl⟩, hbase]
          · left
            rw [if_neg (by simp)]
            exact h.data t hds

theorem swapIn_ok (h : Sound start stop lo hi s) (hstop : stop < 2 ^ 16) (hhi : hi < 2 ^ 16)
    (hso : (s.swap.holes so).flags = .used)
    (hok : swapIn s (s.swap.holes so).pageBase = .ok (s', 0)) :
    ∃ o, CameIn s s' so o ∧ Sound start stop lo hi s' ∧ (∃ l, Layout lo hi s'.swap l) ∧
      ((∃ l, Layout start stop s.mem l) → ∃ l, Layout start stop s'.mem l) := by
  obtain ⟨l, hmem⟩ := h.mem
  obtain ⟨k, hswap⟩ := h.swap
  obtain ⟨hpos, hwithin⟩ := hswap.used_bounds hso
  have hble := h.blocks so hso
  have hextent : wrap 16 ((s.swap.holes so).extent <<< 6) = (s.swap.holes so).extent * 64 := by
    rw [Nat.shiftLeft_eq]
    exact wrap_of_lt (by omega)
  simp only [swapIn, hswap.findHole_used hso, bind, Except.bind, hextent] at hok
  cases hbest : bestFitHole s.mem ((s.swap.holes so).extent * 64) with
  | error f =>
      rw [hbest] at hok
      cases hok
  | ok best =>
    rw [hbest] at hok
    cases best with
    | none =>
        have hres : (-1 : Int) = 0 := congrArg Prod.snd (Except.ok.inj hok)
        exact absurd hres (by decide)
    | some o =>
      cases hclaim : claimHole s.mem o ((s.swap.holes so).extent * 64)
          (s.swap.holes so).refcount with
      | error f =>
          simp only [hclaim] at hok
          cases hok
      | ok mem =>
        obtain ⟨swap, k', hsweep, hlay, hkept, hgone⟩ := hswap.release_spec hhi hso 0
        obtain ⟨hclaimed, ⟨l', hmem'⟩, hlayout⟩ := hmem.claim hstop (by omega) hbest hclaim
        simp only [hclaim, hsweep, Except.ok.injEq, Prod.mk.injEq, and_true] at hok
        subst hok
        have hbase := hclaimed.hole.2.2.2
        have hdevice : swap.memory = s.swap.memory := by
          have hswept := sweepFrom_memory hsweep
          exact hswept
        refine ⟨o, ⟨⟨hclaimed.fits, hclaimed.hole, hclaimed.others⟩, fun x hx => ?_, hkept,
          hgone, hdevice, fun t => ?_⟩, ⟨?_, ⟨k', hlay.toTiled⟩, ?_, ?_, fun t ht => ?_,
          fun t ht => ?_⟩, ⟨k', hlay⟩, ?_⟩
        · change fixStacks _ _ _ _ x = _
          rw [fixStacks_other, readBlocks_eq hble (by omega), hbase, claimHole_memory hclaim]
          intro t ht
          rw [hbase] at ht
          exact hx t ht
        · change (s.task t).cameIn _ _ = _
          rw [hbase]
        · exact ⟨l', hmem'.links, hmem'.tiles, hmem'.onList, hmem'.offList⟩
        · exact hclaimed.others.extent_le h.pages fun _ => hclaimed.hole.2.2.1.trans_le
            (by omega)
        · exact hkept.extent_le h.blocks fun hu => absurd hu hgone
        · obtain ⟨hcseg, hcs, _, _⟩ := cameIn_mm (s.task t) (s.swap.holes so).pageBase
            (mem.holes o).pageBase
          simp only [hcseg, hcs, SwapTask.broughtIn, Bool.and_eq_true, Bool.not_eq_true',
            decide_eq_false_iff_not] at ht ⊢
          rw [if_neg fun hboth => ht.2 hboth.1]
          exact hkept.live (Ne.symm ht.2) (h.code t ht.1)
        · obtain ⟨_, _, hdseg, hds⟩ := cameIn_mm (s.task t) (s.swap.holes so).pageBase
            (mem.holes o).pageBase
          simp only [hdseg, hds, SwapTask.broughtIn, Bool.and_eq_true, Bool.not_eq_true',
            decide_eq_false_iff_not] at ht ⊢
          rw [if_neg fun hboth => ht.2 hboth.1]
          exact hkept.live (Ne.symm ht.2) (h.data t ht.1)
        · rintro ⟨l₀, hlay₀⟩
          have hl : l₀ = l := hlay₀.links.unique hmem.links
          rw [hl] at hlay₀
          obtain ⟨l₁, hlay₁⟩ := hlayout hlay₀
          exact ⟨l₁, hlay₁.memory _⟩

end SwapCalls

end Mm
end Elks
