import Elks.Mm.Swap

/-!
# A segment on the swap device and back (arch/i86/mm/malloc.c, CONFIG_SWAP on)

While a segment is on the device, other segments go out and come in.  Its blocks are
not touched, and the tasks that have it are told from all others by the number and the
flag together, so `swap_in` finds the bytes, the count and the tasks again.

**Results.**
* `Parked`: what holds of the segment while it is away, through every call on other
  segments;
* `swap_round_trip`: what `swap_in` brings back.
-/

namespace Elks
namespace Mm

open Lib

/-- The task has segment `base` of main memory as its code. -/
def SwapTask.HasCode (base : Nat) (t : SwapTask) : Prop :=
  t.cseg = base ∧ t.csSwap = false

/-- The task has segment `base` of main memory as its data. -/
def SwapTask.HasData (base : Nat) (t : SwapTask) : Prop :=
  t.dseg = base ∧ t.dsSwap = false

/-- From `u` to `v` nothing has changed in `mm` but what names the segment that is `o` in
state `s`. -/
def Spares (s : Swapper) (o : Slot) (u v : Swapper) : Prop :=
  (∀ t, ¬(s.task t).HasCode (s.mem.holes o).pageBase →
    (v.task t).cseg = (u.task t).cseg ∧ (v.task t).csSwap = (u.task t).csSwap) ∧
  ∀ t, ¬(s.task t).HasData (s.mem.holes o).pageBase →
    (v.task t).dseg = (u.task t).dseg ∧ (v.task t).dsSwap = (u.task t).dsSwap

/-- Calls of `swap_out` and `swap_in` that succeed, none of them for the segment that is
at `b` on the device. -/
inductive OtherCalls (b : Nat) : Swapper → Swapper → Prop
  | done (s : Swapper) : OtherCalls b s s
  | swapOut {s u s' : Swapper} {o : Slot} (ho : (s.mem.holes o).flags = .used)
      (h : swapOut s (s.mem.holes o).pageBase = .ok (u, 1)) (hrest : OtherCalls b u s') :
      OtherCalls b s s'
  | swapIn {s u s' : Swapper} {so : Slot} (hso : (s.swap.holes so).flags = .used)
      (hne : (s.swap.holes so).pageBase ≠ b)
      (h : swapIn s (s.swap.holes so).pageBase = .ok (u, 0)) (hrest : OtherCalls b u s') :
      OtherCalls b s s'

/-- The segment that was `o` in state `s` is `so` on the device. -/
structure Parked (start stop lo hi : Nat) (s : Swapper) (o so : Slot) (b : Nat) (u : Swapper) :
    Prop where
  used : (u.swap.holes so).flags = .used
  base : (u.swap.holes so).pageBase = b
  extent : (u.swap.holes so).extent = blocksOf (s.mem.holes o).extent
  fits : (s.mem.holes o).extent ≤ blocksOf (s.mem.holes o).extent * 64
  refcount : (u.swap.holes so).refcount = (s.mem.holes o).refcount
  bytes : ∀ k < (s.mem.holes o).extent * 16, u.swap.memory (b * 1024 + k) = s.mem.byte o k
  code : ∀ t, ((u.task t).cseg = b ∧ (u.task t).csSwap = true) ↔
    (s.task t).HasCode (s.mem.holes o).pageBase
  data : ∀ t, ((u.task t).dseg = b ∧ (u.task t).dsSwap = true) ↔
    (s.task t).HasData (s.mem.holes o).pageBase
  sound : Sound start stop lo hi u
  layout : ∃ l, Layout start stop u.mem l

/-- The segment that was `o` in state `s`, and was on the device in state `u`, is `m`. -/
structure Returned (start stop lo hi : Nat) (s : Swapper) (o : Slot) (u u' : Swapper)
    (m : Slot) : Prop where
  fresh : (u.mem.holes m).flags ≠ .used
  used : (u'.mem.holes m).flags = .used
  refcount : (u'.mem.holes m).refcount = (s.mem.holes o).refcount
  extent : (s.mem.holes o).extent ≤ (u'.mem.holes m).extent
  bytes : ∀ k < (s.mem.holes o).extent * 16,
    (∀ t, (u.task t).flags = true → (u'.task t).flags = false →
      ¬(u'.task t).SavedCs ((u'.mem.holes m).pageBase * 16 + k)) →
    u'.mem.byte m k = s.mem.byte o k
  code : ∀ t, (s.task t).HasCode (s.mem.holes o).pageBase →
    (u'.task t).HasCode (u'.mem.holes m).pageBase
  data : ∀ t, (s.task t).HasData (s.mem.holes o).pageBase →
    (u'.task t).HasData (u'.mem.holes m).pageBase
  others : Spares s o u u'
  mem : ∃ l, Layout start stop u'.mem l
  swap : ∃ l, Layout lo hi u'.swap l

section Trip

variable {start stop lo hi b : Nat} {s u u' : Swapper} {o o' so so' m n : Slot} {a : Arena}
  {l : List Slot} {seg base target : Nat} {swapped : Bool} {t : SwapTask}

theorem Tiled.base_inj (h : Tiled start stop a l) (hm : m ∈ l) (hn : n ∈ l)
    (hbase : (a.holes m).pageBase = (a.holes n).pageBase) : m = n := by
  by_contra hne
  have hapart := h.disjoint hm hn hne
  have hmpos := (h.tiles.mem_bounds (List.mem_map_of_mem hm)).2.1
  have hnpos := (h.tiles.mem_bounds (List.mem_map_of_mem hn)).2.1
  simp only [MallocHole.seg] at hmpos hnpos
  omega

theorem sentOut_at (hne : target ≠ b) :
    ((if seg = base ∧ swapped = false then target else seg) = b ∧
      (swapped || decide (seg = base)) = true) ↔ seg = b ∧ swapped = true := by
  cases swapped
  · by_cases hseg : seg = base
    · simp [hseg, hne]
    · simp [hseg]
  · simp

theorem sentOut_mine (hfresh : swapped = true → seg ≠ b) :
    ((if seg = base ∧ swapped = false then b else seg) = b ∧
      (swapped || decide (seg = base)) = true) ↔ seg = base ∧ swapped = false := by
  cases swapped
  · by_cases hseg : seg = base
    · simp [hseg]
    · simp [hseg]
  · simpa using hfresh rfl

theorem sentOut_keeps (hno : ¬(seg = base ∧ swapped = false)) :
    (if seg = base ∧ swapped = false then target else seg) = seg ∧
      (swapped || decide (seg = base)) = swapped := by
  refine ⟨if_neg hno, ?_⟩
  cases swapped
  · have hne : seg ≠ base := fun heq => hno ⟨heq, rfl⟩
    simp [hne]
  · rfl

theorem broughtIn_at (hne : base ≠ b) :
    ((if seg = base ∧ swapped = true then target else seg) = b ∧
      (swapped && !decide (seg = base)) = true) ↔ seg = b ∧ swapped = true := by
  by_cases hseg : seg = base
  · simp [hseg, hne]
  · simp [hseg]

theorem broughtIn_mine (hmine : seg = base ∧ swapped = true) :
    (if seg = base ∧ swapped = true then target else seg) = target ∧
      (swapped && !decide (seg = base)) = false := by
  refine ⟨if_pos hmine, ?_⟩
  simp [hmine.1]

theorem broughtIn_keeps (hno : ¬(seg = base ∧ swapped = true)) :
    (if seg = base ∧ swapped = true then target else seg) = seg ∧
      (swapped && !decide (seg = base)) = swapped := by
  refine ⟨if_neg hno, ?_⟩
  cases swapped
  · rfl
  · have hne : seg ≠ base := fun heq => hno ⟨heq, rfl⟩
    simp [hne]

theorem cameIn_flags : (t.cameIn base target).flags = (t.broughtIn base target).flags := by
  obtain ⟨_, hcs, _, hds⟩ := cameIn_mm t base target
  rw [SwapTask.flags, SwapTask.flags, hcs, hds]

theorem WentOut.parked
    (h : WentOut s u o so) (hs : Sound start stop lo hi s) (hu : Sound start stop lo hi u)
    (ho : (s.mem.holes o).flags = .used) (hlay : ∃ l, Layout start stop u.mem l) :
    Parked start stop lo hi s o so (s.swap.holes so).pageBase u := by
  obtain ⟨l, hmem⟩ := hs.mem
  obtain ⟨k, hswap⟩ := hs.swap
  obtain ⟨hflags, hcount, hextent, hbase⟩ := h.claimed.hole
  -- no task has anything in the hole that was free
  have hfresh : ∀ b, Live s.swap b → b ≠ (s.swap.holes so).pageBase := by
    rintro b ⟨i, hi, rfl⟩ heq
    have hsame := hswap.base_inj (hswap.mem_of_used hi)
      (hswap.mem_of_free h.claimed.fits.2) heq
    rw [hsame, h.claimed.fits.2] at hi
    cases hi
  have hpos := (hmem.used_bounds ho).1
  have hblocks := (blocksOf_bounds hpos (hs.pages o ho)).2.2
  refine ⟨hflags, hbase, hextent, hblocks, hcount, fun k hk => ?_, fun t => ?_, fun t => ?_, hu, hlay⟩
  · rw [h.device, if_pos (by omega), Nat.add_sub_cancel_left]
    rfl
  · rw [h.task]
    exact sentOut_mine fun hcs => hfresh _ (hs.code t hcs)
  · rw [h.task]
    exact sentOut_mine fun hds => hfresh _ (hs.data t hds)

theorem Parked.wentOut (h : Parked start stop lo hi s o so b u) (hout : WentOut u u' o' so')
    (hu' : Sound start stop lo hi u') (hlay : ∃ l, Layout start stop u'.mem l) :
    Parked start stop lo hi s o so b u' := by
  obtain ⟨k, hswap⟩ := h.sound.swap
  have hne : so ≠ so' := by
    rintro rfl
    have hfree := hout.claimed.fits.2
    rw [h.used] at hfree
    cases hfree
  have hsame := (hout.claimed.others so hne).2 h.used
  have hapart := hswap.disjoint (hswap.mem_of_used h.used)
    (hswap.mem_of_free hout.claimed.fits.2) hne
  have hfits := hout.claimed.fits.1
  have hbase : (u.swap.holes so').pageBase ≠ b := by
    rw [← h.base]
    intro heq
    exact hne (hswap.base_inj (hswap.mem_of_used h.used)
      (hswap.mem_of_free hout.claimed.fits.2) heq.symm)
  rw [h.base, h.extent] at hapart
  refine ⟨(hout.claimed.others so hne).1.mpr h.used, ?_, ?_, h.fits, ?_, fun k hk => ?_, fun t => ?_,
    fun t => ?_, hu', hlay⟩
  · rw [hsame, h.base]
  · rw [hsame, h.extent]
  · rw [hsame, h.refcount]
  · have hsize := h.fits
    rw [hout.device, if_neg (by omega)]
    exact h.bytes k hk
  · rw [hout.task]
    exact (sentOut_at hbase).trans (h.code t)
  · rw [hout.task]
    exact (sentOut_at hbase).trans (h.data t)

theorem Parked.cameIn (h : Parked start stop lo hi s o so b u) (hin : CameIn u u' so' o')
    (hne : (u.swap.holes so').pageBase ≠ b) (hu' : Sound start stop lo hi u')
    (hlay : ∃ l, Layout start stop u'.mem l) : Parked start stop lo hi s o so b u' := by
  have hso : so ≠ so' := by
    rintro rfl
    exact hne h.base
  have hsame := (hin.others so hso).2 h.used
  refine ⟨(hin.others so hso).1.mpr h.used, ?_, ?_, h.fits, ?_, fun k hk => ?_, fun t => ?_,
    fun t => ?_, hu', hlay⟩
  · rw [hsame, h.base]
  · rw [hsame, h.extent]
  · rw [hsame, h.refcount]
  · rw [hin.device]
    exact h.bytes k hk
  · obtain ⟨hcseg, hcs, -, -⟩ :=
      cameIn_mm (u.task t) (u.swap.holes so').pageBase (u.mem.holes o').pageBase
    rw [hin.task, hcseg, hcs]
    exact (broughtIn_at hne).trans (h.code t)
  · obtain ⟨-, -, hdseg, hds⟩ :=
      cameIn_mm (u.task t) (u.swap.holes so').pageBase (u.mem.holes o').pageBase
    rw [hin.task, hdseg, hds]
    exact (broughtIn_at hne).trans (h.data t)

theorem OtherCalls.parked (hstop : stop < 2 ^ 16) (hhi : hi < 2 ^ 16) (hcalls : OtherCalls b u u')
    (h : Parked start stop lo hi s o so b u) : Parked start stop lo hi s o so b u' := by
  induction hcalls with
  | done => exact h
  | swapOut ho hok _ ih =>
      obtain ⟨so', hout, hsound, hlay⟩ := swapOut_ok h.sound hstop hhi ho hok
      exact ih (h.wentOut hout hsound hlay)
  | swapIn hso hne hok _ ih =>
      obtain ⟨o', hin, hsound, _, hlay⟩ := swapIn_ok h.sound hstop hhi hso hok
      exact ih (h.cameIn hin hne hsound (hlay h.layout))

theorem Parked.returned (h : Parked start stop lo hi s o so b u) (hin : CameIn u u' so m)
    (hmem : ∃ l, Layout start stop u'.mem l) (hswap : ∃ l, Layout lo hi u'.swap l) :
    Returned start stop lo hi s o u u' m := by
  have hsize := h.fits
  obtain ⟨hflags, hcount, hextent, hbase⟩ := hin.claimed.hole
  have hfree := hin.claimed.fits.2
  refine ⟨?_, hflags, ?_, ?_, fun k hk hstack => ?_, fun t ht => ?_, fun t ht => ?_,
    ⟨fun t ht => ?_, fun t ht => ?_⟩, hmem, hswap⟩
  · rw [hfree]
    simp
  · rw [hcount, h.refcount]
  · rw [hextent, h.extent]
    exact hsize
  · rw [Arena.byte, hin.bytes, hbase, if_pos, Nat.add_sub_cancel_left, h.base]
    · exact h.bytes k hk
    · rw [h.extent]
      omega
    · intro t ht
      refine hstack t ht.1 ?_
      rw [hin.task, cameIn_flags]
      exact ht.2
  · obtain ⟨hcseg, hcs, -, -⟩ := cameIn_mm (u.task t) b (u.mem.holes m).pageBase
    rw [hin.task, hbase, h.base, SwapTask.HasCode, hcseg, hcs]
    exact broughtIn_mine ((h.code t).mpr ht)
  · obtain ⟨-, -, hdseg, hds⟩ := cameIn_mm (u.task t) b (u.mem.holes m).pageBase
    rw [hin.task, hbase, h.base, SwapTask.HasData, hdseg, hds]
    exact broughtIn_mine ((h.data t).mpr ht)
  · obtain ⟨hcseg, hcs, -, -⟩ := cameIn_mm (u.task t) b (u.mem.holes m).pageBase
    rw [hin.task, h.base, hcseg, hcs]
    exact broughtIn_keeps fun hboth => ht ((h.code t).mp hboth)
  · obtain ⟨-, -, hdseg, hds⟩ := cameIn_mm (u.task t) b (u.mem.holes m).pageBase
    rw [hin.task, h.base, hdseg, hds]
    exact broughtIn_keeps fun hboth => ht ((h.data t).mp hboth)

/-- A segment that `swap_out` sends to the device, and `swap_in` brings back after any
calls for other segments, has its bytes, its count and its tasks again, but for the code
segment saved on the stacks of the tasks that are wholly in memory from then on. -/
theorem swap_round_trip
    (h : Sound start stop lo hi s) (hstop : stop < 2 ^ 16) (hhi : hi < 2 ^ 16)
    (ho : (s.mem.holes o).flags = .used)
    (hout : swapOut s (s.mem.holes o).pageBase = .ok (u, 1)) :
    ∃ so, (s.swap.holes so).flags ≠ .used ∧ (u.swap.holes so).flags = .used ∧
      Spares s o s u ∧ ∀ v w, OtherCalls (u.swap.holes so).pageBase u v →
        swapIn v (u.swap.holes so).pageBase = .ok (w, 0) →
        ∃ m, Returned start stop lo hi s o v w m := by
  obtain ⟨so, hwent, hu, hlay⟩ := swapOut_ok h hstop hhi ho hout
  obtain ⟨hflags, _, _, hbase⟩ := hwent.claimed.hole
  have hfree := hwent.claimed.fits.2
  have hspares : Spares s o s u := by
    refine ⟨fun t ht => ?_, fun t ht => ?_⟩
    · rw [hwent.task]
      exact sentOut_keeps ht
    · rw [hwent.task]
      exact sentOut_keeps ht
  refine ⟨so, by rw [hfree]; simp, hflags, hspares, fun v w hcalls hin => ?_⟩
  have hparked := hwent.parked h hu ho hlay
  rw [hbase] at hcalls hin
  have haway := hcalls.parked hstop hhi hparked
  rw [← haway.base] at hin
  obtain ⟨m, hcame, _, hswap, hmem⟩ := swapIn_ok haway.sound hstop hhi haway.used hin
  exact ⟨m, haway.returned hcame (hmem haway.layout) hswap⟩

/-- A free hole of `gap` pages, and a segment of `n` pages behind it. -/
def gapArena (gap n : Nat) (memory : Nat → UInt8) : Arena where
  holes := fun i =>
    if i = firstHole then
      { pageBase := 4096
        extent := gap
        next := some secondHole
        refcount := 0
        flags := .free }
    else if i = secondHole then
      { pageBase := 4096 + gap
        extent := n
        next := none
        refcount := 1
        flags := .used }
    else
      { pageBase := 0, extent := 0, next := none, refcount := 0, flags := .spare }
  memory := memory

/-- A device with a segment of one block, and a hundred free blocks behind it. -/
def swapDevice : Arena where
  holes := fun i =>
    if i = firstHole then
      { pageBase := 0
        extent := 1
        next := some secondHole
        refcount := 1
        flags := .used }
    else if i = secondHole then
      { pageBase := 1
        extent := 100
        next := none
        refcount := 0
        flags := .free }
    else
      { pageBase := 0, extent := 0, next := none, refcount := 0, flags := .spare }
  memory := fun _ => 0

/-- A task whose data is in main memory and whose code, which was at page 4160, is on
the device. -/
def swapTask (dseg : Nat) : SwapTask where
  cseg := 0
  dseg := dseg
  csSwap := true
  dsSwap := false
  cs := 4160
  ds := dseg
  ss := dseg
  sp := 0

/-- A slot without segments. -/
def noSegments : SwapTask where
  cseg := 0
  dseg := 0
  csSwap := false
  dsSwap := false
  cs := 0
  ds := 0
  ss := 0
  sp := 0

/-- One task, with its data segment of `n` pages behind a hole of `gap` pages. -/
def oneTask (gap n : Nat) (memory : Nat → UInt8) : Swapper where
  mem := gapArena gap n memory
  swap := swapDevice
  task := fun t => if t.val = 1 then swapTask (4096 + gap) else noSegments

theorem theTask_lt : 1 < maxTasks := by
  decide

/-- The slot of that task. -/
def theTask : Fin maxTasks :=
  ⟨1, theTask_lt⟩

/-- The code segment is saved on the user stack. -/
def savedStack (x : Nat) : UInt8 :=
  if x = 4224 * 16 + 2 then 0x40 else if x = 4224 * 16 + 3 then 0x10 else 0

/-- There is a one behind the first 64 kilobytes of the segment. -/
def farByte (x : Nat) : UInt8 :=
  if x = 8256 * 16 + 65536 then 1 else 0

theorem gapArena_tiled {gap n : Nat} {memory : Nat → UInt8} (hgap : 0 < gap) (hn : 0 < n) :
    Tiled 4096 (4096 + gap + n) (gapArena gap n memory) [firstHole, secondHole] where
  links := by
    simp [Links, LinksTo, Arena.link, gapArena, firstHole, secondHole]
  tiles := by
    simp [Tiles, MallocHole.seg, gapArena, hgap, hn, firstHole, secondHole]
  onList := by
    simp [gapArena, firstHole, secondHole]
  offList := fun i hi => by
    simp only [List.mem_cons, List.not_mem_nil, or_false, not_or] at hi
    simp [gapArena, hi.1, hi.2]

theorem swapDevice_tiled : Tiled 0 101 swapDevice [firstHole, secondHole] where
  links := by
    simp [Links, LinksTo, Arena.link, swapDevice, firstHole, secondHole]
  tiles := by
    simp [Tiles, MallocHole.seg, swapDevice, firstHole, secondHole]
  onList := by
    simp [swapDevice, firstHole, secondHole]
  offList := fun i hi => by
    simp only [List.mem_cons, List.not_mem_nil, or_false, not_or] at hi
    simp [swapDevice, hi.1, hi.2]

theorem oneTask_sound : Sound 4096 4288 0 101 (oneTask 128 64 savedStack) where
  mem := ⟨_, gapArena_tiled (Nat.succ_pos 127) (Nat.succ_pos 63)⟩
  swap := ⟨_, swapDevice_tiled⟩
  pages := by decide
  blocks := by decide
  code := by decide
  data := by decide

/-- The data segment has gone out. -/
def dataOut : Swapper :=
  match swapOut (oneTask 128 64 savedStack) 4224 with
  | .ok r => r.1
  | .error _ => oneTask 128 64 savedStack

/-- The data segment goes out, and comes in again. -/
theorem swap_round_trip_one :
    ∃ w m, swapOut (oneTask 128 64 savedStack) 4224 = .ok (dataOut, 1) ∧
      swapIn dataOut 1 = .ok (w, 0) ∧
      Returned 4096 4288 0 101 (oneTask 128 64 savedStack) secondHole dataOut w m := by
  have hout : swapOut (oneTask 128 64 savedStack) 4224 = .ok (dataOut, 1) := rfl
  obtain ⟨so, hfree, hused, _, hback⟩ :=
    swap_round_trip oneTask_sound (by decide) (by decide) (o := secondHole) rfl hout
  have hso : ∀ i, ((oneTask 128 64 savedStack).swap.holes i).flags ≠ .used →
      (dataOut.swap.holes i).flags = .used → (dataOut.swap.holes i).pageBase = 1 := by
    decide +kernel
  have hin : ∃ w, swapIn dataOut 1 = .ok (w, 0) := ⟨_, rfl⟩
  obtain ⟨w, hin⟩ := hin
  rw [hso so hfree hused] at hback
  obtain ⟨m, hm⟩ := hback dataOut w (.done _) hin
  exact ⟨w, m, hout, hin, hm⟩

theorem staleSlot_lt : 2 < maxTasks := by
  decide

/-- A slot that names a hole of the device that is free. -/
def staleSlot : Fin maxTasks :=
  ⟨2, staleSlot_lt⟩

/-- The same task, and such a slot. -/
def oneStale : Swapper :=
  { oneTask 128 64 savedStack with
    task := fun t => if t = staleSlot then { noSegments with cseg := 1, csSwap := true }
      else (oneTask 128 64 savedStack).task t }

/-- Three ways to come back different: where the code segment has moved, the word on the
user stack is the new one; of a segment of more than 64 kilobytes the rest is not
written; and a slot that names a free hole of the device gets the segment too. -/
theorem swap_changes :
    (Sound 4096 4288 0 101 (oneTask 128 64 savedStack) ∧
      ∃ u v w, swapOut (oneTask 128 64 savedStack) 4224 = .ok (u, 1) ∧
        swapIn u 0 = .ok (v, 0) ∧ swapIn v 1 = .ok (w, 0) ∧
        (w.task theTask).dsSwap = false ∧
        w.mem.memory ((w.task theTask).dseg * 16 + 2) ≠ savedStack (4224 * 16 + 2)) ∧
    ((∃ l, Tiled 4096 12353 (oneTask 4160 4097 farByte).mem l) ∧
      (∃ l, Tiled 0 101 (oneTask 4160 4097 farByte).swap l) ∧
      ∃ u v, swapOut (oneTask 4160 4097 farByte) 8256 = .ok (u, 1) ∧
        swapIn u 1 = .ok (v, 0) ∧ (v.task theTask).dsSwap = false ∧
        v.mem.memory ((v.task theTask).dseg * 16 + 65536) ≠ farByte (8256 * 16 + 65536)) ∧
    (∃ l, Tiled 4096 4288 oneStale.mem l) ∧ (∃ l, Tiled 0 101 oneStale.swap l) ∧
    ∃ u v, swapOut oneStale 4224 = .ok (u, 1) ∧ swapIn u 1 = .ok (v, 0) ∧
      (v.task staleSlot).cseg ≠ (u.task staleSlot).cseg := by
  refine ⟨⟨oneTask_sound, _, _, _, rfl, rfl, rfl, by decide +kernel, by decide +kernel⟩,
    ⟨⟨_, gapArena_tiled (Nat.succ_pos 4159) (Nat.succ_pos 4096)⟩, ⟨_, swapDevice_tiled⟩,
      _, _, rfl, rfl, by decide +kernel, by decide +kernel⟩,
    ⟨_, gapArena_tiled (Nat.succ_pos 127) (Nat.succ_pos 63)⟩, ⟨_, swapDevice_tiled⟩,
    _, _, rfl, rfl, by decide +kernel⟩

end Trip

end Mm
end Elks
