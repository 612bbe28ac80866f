import Elks.Lib.Chain
import Elks.Lib.Machine
import Mathlib.Data.Finset.Card

/-!
# The RAM disks (arch/i86/drivers/block/rd.c)

Eight disks share a table of eight segments.  A busy disk names its first
segment, a segment names the next, and `MAX_ENTRIES + 1` ends a chain; a segment
of size zero is free.  The ioctls `RDCREATE` and `RDDESTROY` build and release
such chains, with memory from `mm_alloc`.

A call keeps the books (`Kept`) exactly if it does not create a disk, or creates
one that was never created before, of a size that is not zero, with enough free
segments and memory (`Fits`).  The reasons are slips of the source:

* `rd_dealloc` does not reset `size`, which the next creation adds to;
* the clean-up after a failure walks from an index that may be stale;
* `mm_alloc` returns zero when there is no memory, and the test is for `-1`.
-/

namespace Elks
namespace Block

open Lib
open Function (update update_eq_self update_idem update_of_ne update_self)

section Code

/-- `MAX_ENTRIES`. -/
def maxEntries : Nat := 8

/-- `struct rd_infot`. -/
structure RdInfo where
  index : Nat
  flags : Nat
  size : Nat

/-- `struct rd_segmentt`. -/
structure RdSegment where
  segment : Nat
  next : Nat
  segSize : Nat

/-- The tables of the driver, and the segments it got from `mm_alloc` and has
not freed. -/
structure Rd where
  info : Nat → RdInfo
  segs : Nat → RdSegment
  held : List Nat

/-- The tables as they are compiled, without a preloaded disk. -/
def Rd.boot : Rd where
  info := fun _ => { index := 0, flags := 0, size := 0 }
  segs := fun _ => { segment := 0, next := maxEntries + 1, segSize := 0 }
  held := []

/-- What `mm_alloc` answers during a call: the answer to request number `i` for
`pages`, zero when there is no memory, and else a segment that is not in use. -/
structure MmAlloc where
  alloc : Nat → List Nat → Nat → Nat
  fresh : ∀ i held pages, alloc i held pages ≠ 0 → alloc i held pages ∉ held
  lt : ∀ i held pages, alloc i held pages < 0xFFFF

/-- The errors of `rd_ioctl`. -/
inductive RdError
  | eperm
  | ebusy
  | enomem
  | einval
deriving DecidableEq

/-- `find_free_seg`. -/
def findFreeSeg (rd : Rd) : Option Nat :=
  (List.range maxEntries).find? fun i => (rd.segs i).segSize = 0

/-- The loop of `rd_dealloc`, which clears one segment a turn. -/
def rdDeallocFrom : Nat → Nat → Rd → Rd
  | 0, _, rd => rd
  | n + 1, i, rd =>
      if (rd.segs i).segSize ≠ 0 ∧ i ≠ maxEntries + 1 then
        rdDeallocFrom n (rd.segs i).next
          { rd with
            segs := update rd.segs i
              { segment := 0, next := maxEntries + 1, segSize := 0 }
            held := rd.held.erase (rd.segs i).segment }
      else rd

/-- `rd_dealloc`. -/
def rdDealloc (target : Nat) (rd : Rd) : Rd :=
  let rd := rdDeallocFrom (maxEntries + 1) (rd.info target).index rd
  { rd with info := update rd.info target { rd.info target with flags := 0 } }

/-- `rd_info[target].index = j` in the first turn. -/
def setIndex (target i j : Nat) (rd : Rd) : Rd :=
  if i = 0 then
    { rd with info := update rd.info target { rd.info target with index := j } }
  else rd

/-- The paragraphs that piece `i` of a disk of `arg` kilobytes takes. -/
def pieceSize (arg i : Nat) : Nat :=
  if i = arg / 64 then arg % 64 * 64 else 4096

/-- `rd_segment[j].segment = mm_alloc(size)`. -/
def takeSegment (mm : MmAlloc) (arg i j : Nat) (rd : Rd) : Rd :=
  let segment := mm.alloc i rd.held (pieceSize arg i)
  { rd with
    segs := update rd.segs j { rd.segs j with segment := segment }
    held := if segment = 0 then rd.held else segment :: rd.held }

/-- The sizes are recorded. -/
def recordSize (target arg i j : Nat) (rd : Rd) : Rd :=
  let size := wrap 16 (pieceSize arg i / 32)
  { rd with
    segs := update rd.segs j { rd.segs j with segSize := size }
    info := update rd.info target
      { rd.info target with size := wrap 16 ((rd.info target).size + size) } }

/-- `if (k != -1) rd_segment[k].next = j`. -/
def setLink (k : Option Nat) (j : Nat) (rd : Rd) : Rd :=
  match k with
  | none => rd
  | some k => { rd with segs := update rd.segs k { rd.segs k with next := j } }

/-- The loop of `RDCREATE` from turn `i` on, `n` turns long. -/
def createLoop (mm : MmAlloc) (target arg : Nat) :
    Nat → Nat → Option Nat → Rd → Except RdError Unit × Rd
  | 0, _, _, rd => (.ok (), rd)
  | n + 1, i, k, rd =>
      match findFreeSeg rd with
      | none => (.error .enomem, rdDealloc target rd)
      | some j =>
          let rd := takeSegment mm arg i j (setIndex target i j rd)
          if (rd.segs j).segment = 0xFFFF then (.error .enomem, rdDealloc target rd)
          else createLoop mm target arg n (i + 1) (some j)
            (setLink k j (recordSize target arg i j rd))

/-- The number of turns of the loop of `RDCREATE`. -/
def pieces (arg : Nat) : Nat :=
  wrapSub 16 arg 1 / 64 + 1

/-- `rd_info[target].flags && RD_BUSY`. -/
def Rd.busy (rd : Rd) (t : Nat) : Prop :=
  (rd.info t).flags ≠ 0

instance (rd : Rd) (t : Nat) : Decidable (rd.busy t) :=
  inferInstanceAs (Decidable (_ ≠ _))

/-- `rd_info[target].flags = RD_BUSY`. -/
def setBusy (t : Nat) (rd : Rd) : Rd :=
  { rd with info := update rd.info t { rd.info t with flags := 1 } }

/-- A call of `rd_ioctl`. -/
structure RdCall where
  suser : Bool
  minor : Nat
  cmd : Nat
  arg : Nat
  arg_lt : arg < 65536
  mm : MmAlloc

/-- `DEVICE_NR`. -/
def RdCall.target (c : RdCall) : Nat :=
  c.minor % 8

/-- `RDCREATE`. -/
def rdcreate : Nat := 0

/-- `RDDESTROY`. -/
def rddestroy : Nat := 1

/-- `rd_ioctl`. -/
def rdIoctl (c : RdCall) (rd : Rd) : Except RdError Unit × Rd :=
  if c.suser = false then (.error .eperm, rd)
  else if c.cmd = rdcreate then
    if rd.busy c.target then (.error .ebusy, rd)
    else
      let built := createLoop c.mm c.target c.arg (pieces c.arg) 0 none rd
      match built.1 with
      | .error e => (.error e, built.2)
      | .ok () => (.ok (), setBusy c.target built.2)
  else if c.cmd = rddestroy then
    if rd.busy c.target then (.ok (), rdDealloc c.target rd)
    else (.error .einval, rd)
  else (.error .einval, rd)

/-- A sequence of calls: what each returned, and the tables before and after. -/
def rdRun : List RdCall → Rd → List (RdCall × Rd × Except RdError Unit × Rd)
  | [], _ => []
  | c :: cs, rd => (c, rd, rdIoctl c rd) :: rdRun cs (rdIoctl c rd).2

end Code

section Books

/-- The entry that `next` names. -/
def Rd.nextOf (rd : Rd) (i : Nat) : Option Nat :=
  if (rd.segs i).next = maxEntries + 1 then none else some (rd.segs i).next

/-- The tables agree with each other and with the memory in use: `chain t` are
the segments of disk `t`. -/
structure Rd.BooksWith (rd : Rd) (chain : Nat → List Nat) : Prop where
  finite : ∀ t, t < maxEntries → rd.busy t → Links rd.nextOf (some (rd.info t).index) (chain t)
  idle : ∀ t, t < maxEntries → ¬ rd.busy t → chain t = []
  disjoint : ∀ t u, t < maxEntries → u < maxEntries → t ≠ u → (chain t).Disjoint (chain u)
  held : ∀ t, t < maxEntries → ∀ j ∈ chain t, (rd.segs j).segment ∈ rd.held
  size : ∀ t, t < maxEntries → rd.busy t →
    (rd.info t).size = ((chain t).map fun j => (rd.segs j).segSize).sum
  free : ∀ j, j < maxEntries → ((rd.segs j).segSize = 0 ↔ ∀ t, t < maxEntries → j ∉ chain t)

/-- The books of the driver are in order. -/
def Rd.Books (rd : Rd) : Prop :=
  ∃ chain, rd.BooksWith chain

/-- After a call the books are in order, and a call that failed changed nothing. -/
def Kept (rd : Rd) (after : Except RdError Unit × Rd) : Prop :=
  after.2.Books ∧ ∀ e, after.1 = .error e → after.2 = rd

/-- `mm_alloc` has memory for the pieces of a disk from piece `i` on. -/
def Supplies (mm : MmAlloc) (arg : Nat) : Nat → Nat → List Nat → Prop
  | 0, _, _ => True
  | n + 1, i, held =>
      mm.alloc i held (pieceSize arg i) ≠ 0 ∧
        Supplies mm arg n (i + 1) (mm.alloc i held (pieceSize arg i) :: held)

/-- Number of free entries. -/
def Rd.freeCount (rd : Rd) : Nat :=
  ((Finset.range maxEntries).filter fun i => (rd.segs i).segSize = 0).card

/-- If the call creates a disk, then the disk was not created before, the size
is not zero, and there are entries and memory for all of it. -/
def Fits (rd : Rd) (c : RdCall) : Prop :=
  c.suser = true → c.cmd = rdcreate → ¬ rd.busy c.target →
    (rd.info c.target).size = 0 ∧ c.arg ≠ 0 ∧ pieces c.arg ≤ rd.freeCount ∧
      Supplies c.mm c.arg (pieces c.arg) 0 rd.held

end Books

section Pieces

theorem pieceSize_div_pos {arg i : Nat} (h : i = arg / 64 → arg % 64 ≠ 0) :
    pieceSize arg i / 32 ≠ 0 := by
  unfold pieceSize
  split
  · rename_i hi
    have := h hi
    omega
  · decide

theorem pieceSize_div_le (arg i : Nat) : pieceSize arg i / 32 ≤ 128 := by
  unfold pieceSize
  split <;> omega

theorem wrap_pieceSize (arg i : Nat) :
    wrap 16 (pieceSize arg i / 32) = pieceSize arg i / 32 :=
  wrap_of_lt (by have := pieceSize_div_le arg i; omega)

theorem piece_pos {arg i : Nat} (harg : arg ≠ 0) (hlt : arg < 65536) (hi : i < pieces arg) :
    pieceSize arg i / 32 ≠ 0 := by
  refine pieceSize_div_pos fun he h0 => ?_
  unfold pieces at hi
  rw [wrapSub_of_le (by omega) (by omega)] at hi
  omega

end Pieces

section Entries

variable {rd : Rd}

theorem findFreeSeg_some {j : Nat} (h : findFreeSeg rd = some j) :
    j < maxEntries ∧ (rd.segs j).segSize = 0 := by
  unfold findFreeSeg at h
  exact ⟨List.mem_range.mp (List.mem_of_find?_eq_some h), by
    simpa using List.find?_some h⟩

theorem findFreeSeg_none (h : findFreeSeg rd = none) {j : Nat} (hj : j < maxEntries) :
    (rd.segs j).segSize ≠ 0 := by
  unfold findFreeSeg at h
  simpa using List.find?_eq_none.mp h j (List.mem_range.mpr hj)

theorem freeCount_eq_zero : rd.freeCount = 0 ↔ findFreeSeg rd = none := by
  unfold Rd.freeCount findFreeSeg
  rw [Finset.card_eq_zero, Finset.filter_eq_empty_iff, List.find?_eq_none]
  simp

theorem freeCount_le : rd.freeCount ≤ maxEntries := by
  unfold Rd.freeCount
  exact (Finset.card_filter_le _ _).trans_eq (Finset.card_range _)

theorem freeCount_take {rd' : Rd} {j : Nat} (hj : j < maxEntries) (h0 : (rd.segs j).segSize = 0)
    (h0' : (rd'.segs j).segSize ≠ 0)
    (hother : ∀ i, i ≠ j → (rd'.segs i).segSize = (rd.segs i).segSize) :
    rd'.freeCount + 1 = rd.freeCount := by
  have hset : (Finset.range maxEntries).filter (fun i => (rd'.segs i).segSize = 0) =
      ((Finset.range maxEntries).filter fun i => (rd.segs i).segSize = 0).erase j := by
    ext i
    simp only [Finset.mem_filter, Finset.mem_erase]
    by_cases hi : i = j
    · subst hi
      simp [h0']
    · simp [hi, hother i hi]
  unfold Rd.freeCount
  rw [hset]
  exact Finset.card_erase_add_one (by simp [hj, h0])

/-- One turn of the loop of `RDCREATE`. -/
def createPiece (mm : MmAlloc) (target arg i : Nat) (k : Option Nat) (j : Nat) (rd : Rd) : Rd :=
  setLink k j (recordSize target arg i j (takeSegment mm arg i j (setIndex target i j rd)))

variable {mm : MmAlloc} {t arg i j : Nat} {k : Option Nat}

theorem createLoop_succ (n : Nat) :
    createLoop mm t arg (n + 1) i k rd =
      match findFreeSeg rd with
      | none => (.error .enomem, rdDealloc t rd)
      | some j => createLoop mm t arg n (i + 1) (some j) (createPiece mm t arg i k j rd) := by
  rw [createLoop]
  cases findFreeSeg rd with
  | none => rfl
  | some j =>
      have hne : ((takeSegment mm arg i j (setIndex t i j rd)).segs j).segment ≠ 0xFFFF := by
        have hlt := mm.lt i (setIndex t i j rd).held (pieceSize arg i)
        simp only [takeSegment, update_self]
        omega
      dsimp only
      rw [if_neg hne]
      rfl

@[simp]
theorem setIndex_segs : (setIndex t i j rd).segs = rd.segs := by
  unfold setIndex
  split <;> rfl

@[simp]
theorem setIndex_held : (setIndex t i j rd).held = rd.held := by
  unfold setIndex
  split <;> rfl

theorem setIndex_info :
    (setIndex t i j rd).info = update rd.info t
      { rd.info t with index := if i = 0 then j else (rd.info t).index } := by
  unfold setIndex
  split
  · rfl
  · exact (update_eq_self t rd.info).symm

theorem createPiece_info :
    (createPiece mm t arg i k j rd).info = update rd.info t
      { index := if i = 0 then j else (rd.info t).index
        flags := (rd.info t).flags
        size := wrap 16 ((rd.info t).size + pieceSize arg i / 32) } := by
  have hlink : ∀ rd', (setLink k j rd').info = rd'.info := by
    intro rd'
    cases k <;> rfl
  rw [createPiece, hlink]
  simp only [recordSize, takeSegment, setIndex_info, update_self, update_idem,
    wrap_pieceSize]

theorem createPiece_held (rd : Rd) (mm : MmAlloc) (t arg i j : Nat) (k : Option Nat) :
    (createPiece mm t arg i k j rd).held =
      if mm.alloc i rd.held (pieceSize arg i) = 0 then rd.held
      else mm.alloc i rd.held (pieceSize arg i) :: rd.held := by
  have hlink : ∀ rd', (setLink k j rd').held = rd'.held := by
    intro rd'
    cases k <;> rfl
  rw [createPiece, hlink]
  simp only [recordSize, takeSegment, setIndex_held]

theorem createPiece_segs_self (rd : Rd) (mm : MmAlloc) (t arg i : Nat) (hk : k ≠ some j) :
    (createPiece mm t arg i k j rd).segs j =
      { segment := mm.alloc i rd.held (pieceSize arg i)
        next := (rd.segs j).next
        segSize := pieceSize arg i / 32 } := by
  have hlink : ∀ rd', (setLink k j rd').segs j = rd'.segs j := by
    intro rd'
    cases k with
    | none => rfl
    | some k => exact update_of_ne (fun he => hk (by rw [he])) _ _
  rw [createPiece, hlink]
  simp only [recordSize, takeSegment, setIndex_segs, setIndex_held, update_self,
    wrap_pieceSize]

theorem createPiece_segs_ne {m : Nat} (hm : m ≠ j) :
    (createPiece mm t arg i k j rd).segs m =
      if k = some m then { rd.segs m with next := j } else rd.segs m := by
  have hsame : (recordSize t arg i j (takeSegment mm arg i j (setIndex t i j rd))).segs m =
      rd.segs m := by
    simp only [recordSize, takeSegment, setIndex_segs, update_of_ne hm]
  rw [createPiece]
  cases k with
  | none => simpa [setLink] using hsame
  | some k =>
      by_cases hkm : k = m
      · subst hkm
        simp [setLink, hsame]
      · simp [setLink, update_of_ne (Ne.symm hkm), hsame, hkm]

theorem createPiece_segSize_self :
    ((createPiece mm t arg i k j rd).segs j).segSize = pieceSize arg i / 32 := by
  have hlink : ∀ rd', ((setLink k j rd').segs j).segSize = (rd'.segs j).segSize := by
    intro rd'
    cases k with
    | none => rfl
    | some k =>
        by_cases hkj : k = j
        · simp [setLink, hkj]
        · simp [setLink, update_of_ne (Ne.symm hkj)]
  rw [createPiece, hlink]
  simp only [recordSize, takeSegment, update_self, wrap_pieceSize]

theorem createPiece_segSize_ne {m : Nat} (hm : m ≠ j) :
    ((createPiece mm t arg i k j rd).segs m).segSize = (rd.segs m).segSize := by
  rw [createPiece_segs_ne hm]
  split <;> rfl

end Entries

section Failure

variable {rd : Rd} {mm : MmAlloc} {t arg : Nat}

theorem rdDeallocFrom_info (n i : Nat) (rd : Rd) : (rdDeallocFrom n i rd).info = rd.info := by
  induction n generalizing i rd with
  | zero => rfl
  | succ n ih =>
      unfold rdDeallocFrom
      split
      · rw [ih]
      · rfl

theorem rdDealloc_size (u : Nat) : ((rdDealloc t rd).info u).size = (rd.info u).size := by
  unfold rdDealloc
  simp only [rdDeallocFrom_info]
  by_cases hu : u = t
  · rw [hu, update_self]
  · rw [update_of_ne hu]

theorem rdDeallocFrom_segSize {j : Nat} (n i : Nat) (h : (rd.segs j).segSize = 0) :
    ((rdDeallocFrom n i rd).segs j).segSize = 0 := by
  induction n generalizing i rd with
  | zero => exact h
  | succ n ih =>
      unfold rdDeallocFrom
      split
      · refine ih _ ?_
        dsimp only
        by_cases hj : j = i
        · rw [hj, update_self]
        · rw [update_of_ne hj]
          exact h
      · exact h

/-- The clean-up clears the first segment it is pointed at. -/
theorem rdDealloc_head (rd : Rd) (t : Nat) (h : (rd.info t).index ≠ maxEntries + 1) :
    ((rdDealloc t rd).segs (rd.info t).index).segSize = 0 := by
  unfold rdDealloc
  dsimp only
  by_cases h0 : (rd.segs (rd.info t).index).segSize = 0
  · exact rdDeallocFrom_segSize _ _ h0
  · rw [rdDeallocFrom, if_pos ⟨h0, h⟩]
    refine rdDeallocFrom_segSize _ _ ?_
    dsimp only
    rw [update_self]

theorem createLoop_grows (mm : MmAlloc) (t arg : Nat) (rd : Rd) (n i : Nat) (k : Option Nat)
    (hp : ∀ m, i ≤ m → m < i + n → pieceSize arg m / 32 ≠ 0) (hsize : (rd.info t).size < 65536) :
    ((createLoop mm t arg n i k rd).1 = .ok () ↔ n ≤ rd.freeCount) ∧
      ∃ x, ((createLoop mm t arg n i k rd).2.info t).size = wrap 16 ((rd.info t).size + x) ∧
        x ≤ 128 * rd.freeCount ∧ (0 < n → 0 < rd.freeCount → 0 < x) := by
  induction n generalizing i k rd with
  | zero =>
      refine ⟨by simp [createLoop], 0, ?_, by omega, by omega⟩
      exact (wrap_of_lt (w := 16) hsize).symm
  | succ n ih =>
      rw [createLoop_succ]
      cases hf : findFreeSeg rd with
      | none =>
          have h0 := freeCount_eq_zero.mpr hf
          refine ⟨by simp [h0], 0, ?_, by omega, by omega⟩
          rw [rdDealloc_size, Nat.add_zero, wrap_of_lt (w := 16) hsize]
      | some j =>
          obtain ⟨hj, hj0⟩ := findFreeSeg_some hf
          dsimp only
          have hpi := hp i (le_refl i) (by omega)
          generalize hrd : createPiece mm t arg i k j rd = rd'
          have hself : (rd'.segs j).segSize = pieceSize arg i / 32 := by
            rw [← hrd, createPiece_segSize_self]
          have hother : ∀ m, m ≠ j → (rd'.segs m).segSize = (rd.segs m).segSize := by
            intro m hm
            rw [← hrd, createPiece_segSize_ne hm]
          have hcount := freeCount_take hj hj0 (hself ▸ hpi) hother
          have hgrown : (rd'.info t).size = wrap 16 ((rd.info t).size + pieceSize arg i / 32) := by
            rw [← hrd, createPiece_info, update_self]
          obtain ⟨hok, x, hx, hxle, -⟩ := ih rd' (i + 1) (some j)
            (fun m hm hlt => hp m (by omega) (by omega))
            (by rw [hgrown]; exact wrap_lt 16 _)
          have hple := pieceSize_div_le arg i
          refine ⟨hok.trans (by omega), pieceSize arg i / 32 + x, ?_, by omega, by omega⟩
          rw [hx, hgrown]
          unfold wrap
          rw [Nat.mod_add_mod, Nat.add_assoc]

end Failure

section Creation

/-- The books are in order, and with them what the driver relies on: indices
name entries, free entries end their chain, and no memory is held twice. -/
structure Rd.Sound (rd : Rd) (chain : Nat → List Nat) : Prop where
  books : rd.BooksWith chain
  range : ∀ t, t < maxEntries → ∀ j ∈ chain t, j < maxEntries
  index : ∀ t, (rd.info t).index < maxEntries
  word : ∀ t, (rd.info t).size < 65536
  small : ∀ j, (rd.segs j).segSize ≤ 128
  ended : ∀ j, (rd.segs j).segSize = 0 → (rd.segs j).next = maxEntries + 1
  nodup : rd.held.Nodup
  pos : 0 ∉ rd.held
  inj : ∀ i j, i < maxEntries → j < maxEntries → (rd.segs i).segSize ≠ 0 →
    (rd.segs j).segSize ≠ 0 → (rd.segs i).segment = (rd.segs j).segment → i = j

/-- Disk `t` has got the entries `l` so far, from the tables `rd₀`. -/
structure Building (rd₀ : Rd) (t : Nat) (l : List Nat) (rd : Rd) : Prop where
  info_ne : ∀ u, u ≠ t → rd.info u = rd₀.info u
  flags : (rd.info t).flags = (rd₀.info t).flags
  index : l.head? = some (rd.info t).index ∨ l = [] ∧ (rd.info t).index = (rd₀.info t).index
  size : (rd.info t).size =
    wrap 16 ((rd₀.info t).size + (l.map fun j => (rd.segs j).segSize).sum)
  segs_ne : ∀ j, j ∉ l → rd.segs j = rd₀.segs j
  taken : ∀ j ∈ l, j < maxEntries ∧ (rd₀.segs j).segSize = 0 ∧ (rd.segs j).segSize ≠ 0 ∧
    (rd.segs j).segSize ≤ 128
  links : Links rd.nextOf l.head? l
  kept : ∀ x ∈ rd₀.held, x ∈ rd.held
  nodup : rd.held.Nodup
  pos : 0 ∉ rd.held
  segment : ∀ j ∈ l, (rd.segs j).segment = 0 ∨
    (rd.segs j).segment ∈ rd.held ∧ (rd.segs j).segment ∉ rd₀.held
  inj : ∀ i ∈ l, ∀ j ∈ l, (rd.segs i).segment ≠ 0 →
    (rd.segs i).segment = (rd.segs j).segment → i = j

variable {rd rd₀ : Rd} {chain : Nat → List Nat} {mm : MmAlloc} {t arg i j : Nat} {l : List Nat}

theorem Building.start (h : rd.Sound chain) (t : Nat) : Building rd t [] rd where
  info_ne := fun _ _ => rfl
  flags := rfl
  index := Or.inr ⟨rfl, rfl⟩
  size := (wrap_of_lt (w := 16) (h.word t)).symm
  segs_ne := fun _ _ => rfl
  taken := by simp
  links := rfl
  kept := fun _ hx => hx
  nodup := h.nodup
  pos := h.pos
  segment := by simp
  inj := by simp

theorem Building.free (h : Building rd₀ t l rd) (hj : (rd.segs j).segSize = 0) :
    j ∉ l := fun hl => (h.taken j hl).2.2.1 hj

theorem Building.piece (mm : MmAlloc) (h : Building rd₀ t l rd)
    (hended : ∀ j, (rd₀.segs j).segSize = 0 → (rd₀.segs j).next = maxEntries + 1)
    (hj : j < maxEntries) (hj0 : (rd.segs j).segSize = 0) (hpos : pieceSize arg l.length / 32 ≠ 0) :
    Building rd₀ t (l ++ [j]) (createPiece mm t arg l.length l.getLast? j rd) := by
  have hjl := h.free hj0
  have hlast : l.getLast? ≠ some j := fun he => hjl (List.mem_of_getLast? he)
  have hj₀ : rd.segs j = rd₀.segs j := h.segs_ne j hjl
  have hnext : (rd.segs j).next = maxEntries + 1 := by
    rw [hj₀]
    exact hended j (hj₀ ▸ hj0)
  generalize hrd : createPiece mm t arg l.length l.getLast? j rd = rd'
  have hself : rd'.segs j =
      { segment := mm.alloc l.length rd.held (pieceSize arg l.length)
        next := maxEntries + 1
        segSize := pieceSize arg l.length / 32 } := by
    rw [← hrd, createPiece_segs_self _ _ _ _ _ hlast, hnext]
  have hne : ∀ m, m ≠ j → rd'.segs m =
      if l.getLast? = some m then { rd.segs m with next := j } else rd.segs m := by
    intro m hm
    rw [← hrd, createPiece_segs_ne hm]
  have hmem : ∀ m ∈ l, m ≠ j := fun m hm he => hjl (he ▸ hm)
  have hsegSize : ∀ m ∈ l, (rd'.segs m).segSize = (rd.segs m).segSize := by
    intro m hm
    rw [← hrd, createPiece_segSize_ne (hmem m hm)]
  have hsegment : ∀ m ∈ l, (rd'.segs m).segment = (rd.segs m).segment := by
    intro m hm
    rw [hne m (hmem m hm)]
    split <;> rfl
  have hinfo : rd'.info = update rd.info t
      { index := if l.length = 0 then j else (rd.info t).index
        flags := (rd.info t).flags
        size := wrap 16 ((rd.info t).size + pieceSize arg l.length / 32) } := by
    rw [← hrd, createPiece_info]
  generalize ha : mm.alloc l.length rd.held (pieceSize arg l.length) = a at hself
  have hheld : rd'.held = if a = 0 then rd.held else a :: rd.held := by
    rw [← hrd, createPiece_held, ha]
  have hfresh : a ≠ 0 → a ∉ rd.held := by
    rw [← ha]
    exact mm.fresh _ _ _
  have hsub : ∀ x ∈ rd.held, x ∈ rd'.held := by
    intro x hx
    rw [hheld]
    split
    · exact hx
    · exact List.mem_cons_of_mem _ hx
  constructor
  case info_ne =>
    intro u hu
    rw [hinfo, update_of_ne hu, h.info_ne u hu]
  case flags => rw [hinfo, update_self, h.flags]
  case index =>
    left
    rw [hinfo, update_self]
    cases l with
    | nil => rfl
    | cons m l =>
        rcases h.index with hi | ⟨hnil, -⟩
        · simpa using hi
        · cases hnil
  case size =>
    have hmap : (l.map fun m => (rd'.segs m).segSize) = l.map fun m => (rd.segs m).segSize :=
      List.map_congr_left hsegSize
    rw [hinfo, update_self, List.map_append, List.sum_append, hmap, h.size]
    simp only [List.map_cons, List.map_nil, List.sum_cons, List.sum_nil, hself]
    unfold wrap
    rw [Nat.mod_add_mod]
    congr 1
    omega
  case segs_ne =>
    intro m hm
    simp only [List.mem_append, List.mem_singleton, not_or] at hm
    rw [hne m hm.2, if_neg (fun he => hm.1 (List.mem_of_getLast? he)), h.segs_ne m hm.1]
  case taken =>
    intro m hm
    rw [List.mem_append, List.mem_singleton] at hm
    rcases hm with hm | rfl
    · rw [hsegSize m hm]
      exact h.taken m hm
    · rw [hself]
      exact ⟨hj, hj₀ ▸ hj0, hpos, pieceSize_div_le arg _⟩
  case links =>
    have hend : rd'.nextOf j = none := by
      unfold Rd.nextOf
      rw [hself, if_pos rfl]
    rcases List.eq_nil_or_concat l with rfl | ⟨m, k, rfl⟩
    · exact ⟨rfl, hend⟩
    · rw [List.concat_eq_append] at hmem hne hjl ⊢
      have hl := h.links
      rw [List.concat_eq_append] at hl
      have hlastk : (m ++ [k]).getLast? = some k := by
        rw [List.getLast?_append]
        rfl
      rw [hlastk] at hne
      have hk : rd'.nextOf k = some j := by
        have hkj : k ≠ j := hmem k (by simp)
        have hjend : j ≠ maxEntries + 1 := by
          unfold maxEntries at hj ⊢
          omega
        unfold Rd.nextOf
        rw [hne k hkj, if_pos rfl]
        exact if_neg hjend
      have hhead : (m ++ [k] ++ [j]).head? = (m ++ [k]).head? := by
        cases m <;> rfl
      rw [hhead]
      refine hl.snoc (fun i hi => ?_) hk hend
      have hik : k ≠ i := by
        intro he
        have hnodup := hl.nodup
        rw [List.nodup_append] at hnodup
        exact hnodup.2.2 i hi k (by simp) he.symm
      unfold Rd.nextOf
      rw [hne i (hmem i (by simp [hi])), if_neg (fun he => hik (Option.some.inj he))]
  case kept => exact fun x hx => hsub x (h.kept x hx)
  case nodup =>
    rw [hheld]
    split
    · exact h.nodup
    · rename_i ha0
      exact List.nodup_cons.mpr ⟨hfresh ha0, h.nodup⟩
  case pos =>
    rw [hheld]
    split
    · exact h.pos
    · rename_i ha0
      rw [List.mem_cons, not_or]
      exact ⟨Ne.symm ha0, h.pos⟩
  case segment =>
    intro m hm
    rw [List.mem_append, List.mem_singleton] at hm
    rcases hm with hm | rfl
    · rw [hsegment m hm]
      exact (h.segment m hm).imp_right fun hx => ⟨hsub _ hx.1, hx.2⟩
    · rw [hself]
      by_cases ha0 : a = 0
      · exact Or.inl ha0
      · right
        rw [hheld, if_neg ha0]
        exact ⟨List.mem_cons_self, fun hx => hfresh ha0 (h.kept a hx)⟩
  case inj =>
    -- the new segment was not in use, the old ones are
    have hold : ∀ m ∈ l, (rd.segs m).segment ≠ 0 → (rd.segs m).segment ≠ a := by
      intro m hm h0 he
      rcases h.segment m hm with h0' | hx
      · exact h0 h0'
      · exact hfresh (he ▸ h0) (he ▸ hx.1)
    intro m hm m' hm' h0 he
    rw [List.mem_append, List.mem_singleton] at hm hm'
    rcases hm with hm | rfl
    · rw [hsegment m hm] at h0 he
      rcases hm' with hm' | rfl
      · rw [hsegment m' hm'] at he
        exact h.inj m hm m' hm' h0 he
      · rw [hself] at he
        exact absurd he (hold m hm h0)
    · rcases hm' with hm' | rfl
      · rw [hself] at h0 he
        rw [hsegment m' hm'] at he
        exact absurd he.symm (hold m' hm' (by rw [← he]; exact h0))
      · rfl

theorem createLoop_builds (mm : MmAlloc) (arg : Nat)
    (hended : ∀ j, (rd₀.segs j).segSize = 0 → (rd₀.segs j).next = maxEntries + 1) (n : Nat)
    (h : Building rd₀ t l rd) (hpos : ∀ m, m < l.length + n → pieceSize arg m / 32 ≠ 0)
    (hok : (createLoop mm t arg n l.length l.getLast? rd).1 = .ok ()) :
    ∃ l', Building rd₀ t l' (createLoop mm t arg n l.length l.getLast? rd).2 ∧
      l'.length = l.length + n ∧
      ((∀ j ∈ l', ((createLoop mm t arg n l.length l.getLast? rd).2.segs j).segment ≠ 0) ↔
        (∀ j ∈ l, (rd.segs j).segment ≠ 0) ∧ Supplies mm arg n l.length rd.held) := by
  induction n generalizing l rd with
  | zero =>
      refine ⟨l, h, rfl, ?_⟩
      simp [createLoop, Supplies]
  | succ n ih =>
      rw [createLoop_succ] at hok ⊢
      cases hf : findFreeSeg rd with
      | none =>
          rw [hf] at hok
          cases hok
      | some j =>
          obtain ⟨hj, hj0⟩ := findFreeSeg_some hf
          have hjl := h.free hj0
          have hlast : l.getLast? ≠ some j := fun he => hjl (List.mem_of_getLast? he)
          have hpiece := h.piece mm hended hj hj0 (hpos l.length (by omega))
          have hself := createPiece_segs_self rd mm t arg l.length hlast
          have hsegment : ∀ m ∈ l,
              ((createPiece mm t arg l.length l.getLast? j rd).segs m).segment =
                (rd.segs m).segment := by
            intro m hm
            have hmj : m ≠ j := fun he => hjl (he ▸ hm)
            rw [createPiece_segs_ne hmj]
            split <;> rfl
          have hheld := createPiece_held rd mm t arg l.length j l.getLast?
          rw [hf] at hok
          dsimp only at hok ⊢
          generalize createPiece mm t arg l.length l.getLast? j rd = rd' at *
          have hlen : (l ++ [j]).length = l.length + 1 := List.length_append
          have hend : (l ++ [j]).getLast? = some j := by
            rw [List.getLast?_append]
            rfl
          have hstep := ih hpiece (by rw [hlen]; exact fun m hm => hpos m (by omega))
            (by rw [hlen, hend]; exact hok)
          rw [hlen, hend] at hstep
          obtain ⟨l', hb, hlen', hiff⟩ := hstep
          refine ⟨l', hb, by omega, hiff.trans ?_⟩
          rw [Supplies]
          have hall : (∀ m ∈ l ++ [j], (rd'.segs m).segment ≠ 0) ↔
              (∀ m ∈ l, (rd.segs m).segment ≠ 0) ∧
                mm.alloc l.length rd.held (pieceSize arg l.length) ≠ 0 := by
            simp only [List.mem_append, List.mem_singleton]
            constructor
            · intro hm
              refine ⟨fun m hml => ?_, ?_⟩
              · rw [← hsegment m hml]
                exact hm m (Or.inl hml)
              · have := hm j (Or.inr rfl)
                rwa [hself] at this
            · rintro ⟨hm, ha⟩ m (hml | rfl)
              · rw [hsegment m hml]
                exact hm m hml
              · rw [hself]
                exact ha
          rw [hall, and_assoc]
          refine and_congr_right fun _ => and_congr_right fun ha => ?_
          rw [hheld, if_neg ha]

end Creation

section Release

variable {rd rd' : Rd} {chain : Nat → List Nat} {t i : Nat} {l : List Nat}

/-- The entries of `l` were freed and their memory given back. -/
structure Released (l : List Nat) (rd rd' : Rd) : Prop where
  segs_ne : ∀ j, j ∉ l → rd'.segs j = rd.segs j
  segs_mem : ∀ j ∈ l, rd'.segs j = { segment := 0, next := maxEntries + 1, segSize := 0 }
  nodup : rd'.held.Nodup
  held : ∀ x, x ∈ rd'.held ↔ x ∈ rd.held ∧ ∀ j ∈ l, x ≠ (rd.segs j).segment

theorem rdDeallocFrom_released (n : Nat) (hn : l.length ≤ n) (hnodup : rd.held.Nodup)
    (hlinks : Links rd.nextOf (if i = maxEntries + 1 then none else some i) l)
    (htaken : ∀ j ∈ l, (rd.segs j).segSize ≠ 0) : Released l rd (rdDeallocFrom n i rd) := by
  induction l generalizing n i rd with
  | nil =>
      have hi : i = maxEntries + 1 := by
        by_contra hne
        rw [if_neg hne] at hlinks
        cases hlinks
      have hstop : rdDeallocFrom n i rd = rd := by
        cases n with
        | zero => rfl
        | succ n =>
            unfold rdDeallocFrom
            rw [if_neg (fun hc => hc.2 hi)]
      rw [hstop]
      exact ⟨fun _ _ => rfl, by simp, hnodup, by simp⟩
  | cons j l ih =>
      obtain ⟨hij, htail⟩ := hlinks
      have hi : i ≠ maxEntries + 1 := by
        intro he
        rw [if_pos he] at hij
        cases hij
      rw [if_neg hi, Option.some.injEq] at hij
      subst hij
      have hdistinct : i ∉ l := by
        have hall : Links rd.nextOf (some i) (i :: l) := ⟨rfl, htail⟩
        exact (List.nodup_cons.mp hall.nodup).1
      have hmem : ∀ m ∈ l, m ≠ i := fun m hm he => hdistinct (he ▸ hm)
      cases n with
      | zero => simp at hn
      | succ n =>
          unfold rdDeallocFrom
          rw [if_pos ⟨htaken i List.mem_cons_self, hi⟩]
          generalize hrd : ({ rd with
              segs := update rd.segs i
                { segment := 0, next := maxEntries + 1, segSize := 0 }
              held := rd.held.erase (rd.segs i).segment } : Rd) = rd₁
          have hself : rd₁.segs i = { segment := 0, next := maxEntries + 1, segSize := 0 } := by
            rw [← hrd]
            exact update_self _ _ _
          have hne : ∀ m, m ≠ i → rd₁.segs m = rd.segs m := by
            intro m hm
            rw [← hrd]
            exact update_of_ne hm _ _
          have hheld : rd₁.held = rd.held.erase (rd.segs i).segment := by
            rw [← hrd]
          have hstep := ih (i := (rd.segs i).next) n
            (by simp only [List.length_cons] at hn; omega)
            (by rw [hheld]; exact hnodup.erase _)
            ((linksTo_congr fun m hm => by
              unfold Rd.nextOf
              rw [hne m (hmem m hm)]).mp htail)
            (fun m hm => by
              rw [hne m (hmem m hm)]
              exact htaken m (List.mem_cons_of_mem _ hm))
          constructor
          case segs_ne =>
            intro m hm
            rw [List.mem_cons, not_or] at hm
            rw [hstep.segs_ne m hm.2, hne m hm.1]
          case segs_mem =>
            intro m hm
            rcases List.mem_cons.mp hm with rfl | hm
            · rw [hstep.segs_ne m hdistinct, hself]
            · exact hstep.segs_mem m hm
          case nodup => exact hstep.nodup
          case held =>
            intro x
            rw [hstep.held, hheld, hnodup.mem_erase_iff, List.forall_mem_cons]
            have hsegs : (∀ m ∈ l, x ≠ (rd₁.segs m).segment) ↔
                ∀ m ∈ l, x ≠ (rd.segs m).segment :=
              forall₂_congr fun m hm => by rw [hne m (hmem m hm)]
            rw [hsegs]
            tauto

theorem Rd.Sound.dealloc (h : rd.Sound chain) (ht : t < maxEntries) (hbusy : rd.busy t) :
    (rdDealloc t rd).Sound (update chain t []) := by
  have hlinks := h.books.finite t ht hbusy
  have hindex : (rd.info t).index ≠ maxEntries + 1 := by
    have := h.index t
    omega
  have htaken : ∀ j ∈ chain t, (rd.segs j).segSize ≠ 0 := fun j hj h0 =>
    (h.books.free j (h.range t ht j hj)).mp h0 t ht hj
  have hlen : (chain t).length ≤ maxEntries + 1 := by
    have hsub : (chain t).toFinset ⊆ Finset.range maxEntries := by
      intro j hj
      exact Finset.mem_range.mpr (h.range t ht j (List.mem_toFinset.mp hj))
    have hcard := Finset.card_le_card hsub
    rw [List.toFinset_card_of_nodup hlinks.nodup, Finset.card_range] at hcard
    omega
  have hrel := rdDeallocFrom_released (i := (rd.info t).index) (maxEntries + 1) hlen h.nodup
    (by rwa [if_neg hindex]) htaken
  have hinfo := rdDeallocFrom_info (maxEntries + 1) (rd.info t).index rd
  unfold rdDealloc
  dsimp only
  generalize rdDeallocFrom (maxEntries + 1) (rd.info t).index rd = rd' at hrel hinfo ⊢
  rw [hinfo]
  -- what the books say of another disk does not depend on the freed entries
  have hother : ∀ u, u < maxEntries → u ≠ t → ∀ j ∈ chain u, rd'.segs j = rd.segs j := by
    intro u hu hut j hj
    exact hrel.segs_ne j fun hjt => h.books.disjoint u t hu ht hut hj hjt
  have hidx : ∀ u, (update rd.info t { rd.info t with flags := 0 } u).index =
      (rd.info u).index := by
    intro u
    by_cases hu : u = t
    · rw [hu, update_self]
    · rw [update_of_ne hu]
  have hsz : ∀ u, (update rd.info t { rd.info t with flags := 0 } u).size =
      (rd.info u).size := by
    intro u
    by_cases hu : u = t
    · rw [hu, update_self]
    · rw [update_of_ne hu]
  have hchain : ∀ u, ∀ j ∈ update chain t [] u, u ≠ t ∧ j ∈ chain u := by
    intro u j hj
    by_cases hu : u = t
    · rw [hu, update_self] at hj
      cases hj
    · rw [update_of_ne hu] at hj
      exact ⟨hu, hj⟩
  have hflags : ∀ u, u ≠ t → (update rd.info t { rd.info t with flags := 0 } u).flags =
      (rd.info u).flags := by
    intro u hu
    rw [update_of_ne hu]
  have hold : ∀ j, (rd'.segs j).segSize ≠ 0 → j ∉ chain t ∧ rd'.segs j = rd.segs j := by
    intro j hj
    have hjt : j ∉ chain t := fun hm => hj (by rw [hrel.segs_mem j hm])
    exact ⟨hjt, hrel.segs_ne j hjt⟩
  constructor
  case books =>
    constructor
    case finite =>
      intro u hu hb
      have hut : u ≠ t := by
        rintro rfl
        unfold Rd.busy at hb
        dsimp only at hb
        rw [update_self] at hb
        exact hb rfl
      unfold Rd.busy at hb
      dsimp only at hb ⊢
      rw [update_of_ne hut, update_of_ne hut]
      rw [hflags u hut] at hb
      refine (linksTo_congr fun j hj => ?_).mp (h.books.finite u hu hb)
      unfold Rd.nextOf
      rw [hother u hu hut j hj]
    case idle =>
      intro u hu hb
      by_cases hut : u = t
      · rw [hut, update_self]
      · rw [update_of_ne hut]
        unfold Rd.busy at hb
        dsimp only at hb
        rw [hflags u hut] at hb
        exact h.books.idle u hu hb
    case disjoint =>
      intro u v hu hv huv j hj hj'
      exact h.books.disjoint u v hu hv huv (hchain u j hj).2 (hchain v j hj').2
    case held =>
      intro u hu j hj
      obtain ⟨hut, hj⟩ := hchain u j hj
      dsimp only
      rw [hother u hu hut j hj, hrel.held]
      refine ⟨h.books.held u hu j hj, fun m hm he => ?_⟩
      have hjm := h.inj j m (h.range u hu j hj) (h.range t ht m hm)
        (fun h0 => (h.books.free j (h.range u hu j hj)).mp h0 u hu hj) (htaken m hm) he
      rw [hjm] at hj
      exact h.books.disjoint u t hu ht hut hj hm
    case size =>
      intro u hu hb
      have hut : u ≠ t := by
        rintro rfl
        unfold Rd.busy at hb
        dsimp only at hb
        rw [update_self] at hb
        exact hb rfl
      unfold Rd.busy at hb
      dsimp only at hb ⊢
      rw [hflags u hut] at hb
      rw [update_of_ne hut, update_of_ne hut, h.books.size u hu hb]
      congr 1
      exact List.map_congr_left fun j hj => by rw [hother u hu hut j hj]
    case free =>
      intro j hj
      dsimp only
      by_cases hjt : j ∈ chain t
      · rw [hrel.segs_mem j hjt]
        refine ⟨fun _ u hu hju => ?_, fun _ => rfl⟩
        obtain ⟨hut, hju⟩ := hchain u j hju
        exact h.books.disjoint u t hu ht hut hju hjt
      · rw [hrel.segs_ne j hjt, h.books.free j hj]
        refine ⟨fun hno u hu hju => hno u hu (hchain u j hju).2, fun hno u hu hju => ?_⟩
        have hut : u ≠ t := fun he => hjt (he ▸ hju)
        exact hno u hu (by rwa [update_of_ne hut])
  case range =>
    intro u hu j hj
    exact h.range u hu j (hchain u j hj).2
  case index =>
    intro u
    dsimp only
    rw [hidx]
    exact h.index u
  case word =>
    intro u
    dsimp only
    rw [hsz]
    exact h.word u
  case small =>
    intro j
    dsimp only
    by_cases hjt : j ∈ chain t
    · rw [hrel.segs_mem j hjt]
      exact Nat.zero_le _
    · rw [hrel.segs_ne j hjt]
      exact h.small j
  case ended =>
    intro j hj0
    dsimp only at hj0 ⊢
    by_cases hjt : j ∈ chain t
    · rw [hrel.segs_mem j hjt]
    · rw [hrel.segs_ne j hjt] at hj0 ⊢
      exact h.ended j hj0
  case nodup => exact hrel.nodup
  case pos => exact fun h0 => h.pos ((hrel.held 0).mp h0).1
  case inj =>
    intro j m hj hm hj0 hm0 he
    obtain ⟨-, hsj⟩ := hold j hj0
    obtain ⟨-, hsm⟩ := hold m hm0
    dsimp only at hj0 hm0 he
    rw [hsj] at hj0 he
    rw [hsm] at hm0 he
    exact h.inj j m hj hm hj0 hm0 he

end Release

section Completed

variable {rd rd₀ : Rd} {chain : Nat → List Nat} {t : Nat} {l : List Nat}

theorem setBusy_ne {u : Nat} (hu : u ≠ t) : (setBusy t rd).info u = rd.info u :=
  update_of_ne hu _ _

theorem setBusy_self :
    (setBusy t rd).info t =
      { index := (rd.info t).index, flags := 1, size := (rd.info t).size } :=
  update_self _ _ _

theorem Building.sum_lt (h : Building rd₀ t l rd) :
    (l.map fun j => (rd.segs j).segSize).sum < 65536 := by
  have hlen : l.length ≤ maxEntries := by
    have hsub : l.toFinset ⊆ Finset.range maxEntries := by
      intro j hj
      exact Finset.mem_range.mpr (h.taken j (List.mem_toFinset.mp hj)).1
    have hcard := Finset.card_le_card hsub
    rwa [List.toFinset_card_of_nodup h.links.nodup, Finset.card_range] at hcard
  have hsum := List.sum_le_card_nsmul (l.map fun j => (rd.segs j).segSize) 128 (by
    intro x hx
    obtain ⟨j, hj, rfl⟩ := List.mem_map.mp hx
    exact (h.taken j hj).2.2.2)
  rw [List.length_map, smul_eq_mul] at hsum
  unfold maxEntries at hlen
  omega

/-- The chain that was built is the chain of the new disk. -/
theorem Building.links_index (h : Building rd₀ t l rd) (hl : l ≠ []) :
    Links rd.nextOf (some (rd.info t).index) l := by
  rcases h.index with hi | ⟨hnil, -⟩
  · rw [← hi]
    exact h.links
  · exact absurd hnil hl

/-- The books are in order with the new disk, when it was not created before
and there was memory for it. -/
theorem Building.sound (h : Building rd₀ t l rd) (h₀ : rd₀.Sound chain) (ht : t < maxEntries)
    (hidle : ¬ rd₀.busy t) (hl : l ≠ []) (hsize : (rd₀.info t).size = 0)
    (hsegment : ∀ j ∈ l, (rd.segs j).segment ≠ 0) :
    (setBusy t rd).Sound (update chain t l) := by
  have hfresh : ∀ u, u < maxEntries → ∀ j ∈ chain u, j ∉ l := by
    intro u hu j hj hjl
    exact (h₀.books.free j (h₀.range u hu j hj)).mp (h.taken j hjl).2.1 u hu hj
  have hsame : ∀ u, u < maxEntries → ∀ j ∈ chain u, rd.segs j = rd₀.segs j :=
    fun u hu j hj => h.segs_ne j (hfresh u hu j hj)
  have hnone : chain t = [] := h₀.books.idle t ht hidle
  have hchain : ∀ u j, j ∈ update chain t l u →
      u = t ∧ j ∈ l ∨ u ≠ t ∧ j ∈ chain u := by
    intro u j hj
    by_cases hu : u = t
    · rw [hu, update_self] at hj
      exact Or.inl ⟨hu, hj⟩
    · rw [update_of_ne hu] at hj
      exact Or.inr ⟨hu, hj⟩
  have hbusy : ∀ u, u ≠ t → ((setBusy t rd).busy u ↔ rd₀.busy u) := by
    intro u hu
    unfold Rd.busy
    rw [setBusy_ne hu, h.info_ne u hu]
  have hbuilt : ∀ j ∈ l, (rd.segs j).segment ∈ rd.held ∧ (rd.segs j).segment ∉ rd₀.held :=
    fun j hj => (h.segment j hj).resolve_left (hsegment j hj)
  constructor
  case books =>
    constructor
    case finite =>
      intro u hu hb
      by_cases hut : u = t
      · rw [hut, setBusy_self, update_self]
        exact h.links_index hl
      · rw [setBusy_ne hut, update_of_ne hut, h.info_ne u hut]
        refine (linksTo_congr fun j hj => ?_).mp (h₀.books.finite u hu ((hbusy u hut).mp hb))
        unfold Rd.nextOf
        rw [← hsame u hu j hj]
        rfl
    case idle =>
      intro u hu hb
      have hut : u ≠ t := by
        rintro rfl
        refine hb ?_
        unfold Rd.busy
        rw [setBusy_self]
        exact Nat.one_ne_zero
      rw [update_of_ne hut]
      exact h₀.books.idle u hu fun hc => hb ((hbusy u hut).mpr hc)
    case disjoint =>
      intro u v hu hv huv j hj hj'
      rcases hchain u j hj with ⟨rfl, hjl⟩ | ⟨-, hju⟩
      · rcases hchain v j hj' with ⟨hvu, -⟩ | ⟨-, hjv⟩
        · exact huv hvu.symm
        · exact hfresh v hv j hjv hjl
      · rcases hchain v j hj' with ⟨-, hjl⟩ | ⟨-, hjv⟩
        · exact hfresh u hu j hju hjl
        · exact h₀.books.disjoint u v hu hv huv hju hjv
    case held =>
      intro u hu j hj
      rcases hchain u j hj with ⟨-, hjl⟩ | ⟨-, hju⟩
      · exact (hbuilt j hjl).1
      · have heq : (setBusy t rd).segs j = rd₀.segs j := hsame u hu j hju
        rw [heq]
        exact h.kept _ (h₀.books.held u hu j hju)
    case size =>
      intro u hu hb
      by_cases hut : u = t
      · rw [hut, setBusy_self, update_self]
        have hsz := h.size
        rw [hsize, Nat.zero_add, wrap_of_lt h.sum_lt] at hsz
        exact hsz
      · rw [setBusy_ne hut, update_of_ne hut, h.info_ne u hut,
          h₀.books.size u hu ((hbusy u hut).mp hb)]
        congr 1
        exact List.map_congr_left fun j hj => by rw [← hsame u hu j hj]; rfl
    case free =>
      intro j hj
      by_cases hjl : j ∈ l
      · have hpos : ((setBusy t rd).segs j).segSize ≠ 0 := (h.taken j hjl).2.2.1
        refine ⟨fun h0 => absurd h0 hpos, fun hno => absurd ?_ (hno t ht)⟩
        rw [update_self]
        exact hjl
      · have heq : (setBusy t rd).segs j = rd₀.segs j := h.segs_ne j hjl
        rw [heq, h₀.books.free j hj]
        constructor
        · intro hno u hu hju
          rcases hchain u j hju with ⟨-, hjl'⟩ | ⟨-, hju'⟩
          · exact hjl hjl'
          · exact hno u hu hju'
        · intro hno u hu hju
          have hut : u ≠ t := by
            rintro rfl
            rw [hnone] at hju
            cases hju
          exact hno u hu (by rwa [update_of_ne hut])
  case range =>
    intro u hu j hj
    rcases hchain u j hj with ⟨-, hjl⟩ | ⟨-, hju⟩
    · exact (h.taken j hjl).1
    · exact h₀.range u hu j hju
  case index =>
    intro u
    by_cases hut : u = t
    · rw [hut, setBusy_self]
      rcases h.index with hi | ⟨hnil, -⟩
      · exact (h.taken _ (List.mem_of_head? hi)).1
      · exact absurd hnil hl
    · rw [setBusy_ne hut, h.info_ne u hut]
      exact h₀.index u
  case word =>
    intro u
    by_cases hut : u = t
    · rw [hut, setBusy_self]
      dsimp only
      rw [h.size]
      exact wrap_lt 16 _
    · rw [setBusy_ne hut, h.info_ne u hut]
      exact h₀.word u
  case small =>
    intro j
    by_cases hjl : j ∈ l
    · exact (h.taken j hjl).2.2.2
    · have heq : (setBusy t rd).segs j = rd₀.segs j := h.segs_ne j hjl
      rw [heq]
      exact h₀.small j
  case ended =>
    intro j hj0
    have hjl : j ∉ l := h.free hj0
    have heq : (setBusy t rd).segs j = rd₀.segs j := h.segs_ne j hjl
    rw [heq] at hj0 ⊢
    exact h₀.ended j hj0
  case nodup => exact h.nodup
  case pos => exact h.pos
  case inj =>
    -- a segment of the new disk was not held before, one of another disk was
    have hold : ∀ j, j < maxEntries → j ∉ l → (rd.segs j).segSize ≠ 0 →
        (rd.segs j).segment ∈ rd₀.held := by
      intro j hj hjl hj0
      rw [h.segs_ne j hjl] at hj0 ⊢
      have hex : ∃ u, u < maxEntries ∧ j ∈ chain u := by
        by_contra hno
        push Not at hno
        exact hj0 ((h₀.books.free j hj).mpr hno)
      obtain ⟨u, hu, hju⟩ := hex
      exact h₀.books.held u hu j hju
    intro j m hj hm hj0 hm0 he
    change (rd.segs j).segSize ≠ 0 at hj0
    change (rd.segs m).segSize ≠ 0 at hm0
    change (rd.segs j).segment = (rd.segs m).segment at he
    by_cases hjl : j ∈ l
    · by_cases hml : m ∈ l
      · exact h.inj j hjl m hml (hsegment j hjl) he
      · exact absurd (he ▸ hold m hm hml hm0) (hbuilt j hjl).2
    · by_cases hml : m ∈ l
      · exact absurd (he ▸ hold j hj hjl hj0) (hbuilt m hml).2
      · rw [h.segs_ne j hjl] at hj0 he
        rw [h.segs_ne m hml] at hm0 he
        exact h₀.inj j m hj hm hj0 hm0 he

theorem Building.of_books (h : Building rd₀ t l rd) (h₀ : rd₀.Sound chain) (ht : t < maxEntries)
    (hl : l ≠ []) (hbooks : (setBusy t rd).Books) :
    (rd₀.info t).size = 0 ∧ ∀ j ∈ l, (rd.segs j).segment ≠ 0 := by
  obtain ⟨chain', hb⟩ := hbooks
  have hbusy : (setBusy t rd).busy t := by
    unfold Rd.busy
    rw [setBusy_self]
    exact Nat.one_ne_zero
  have hfin := hb.finite t ht hbusy
  rw [setBusy_self] at hfin
  have hchain : chain' t = l := hfin.unique (h.links_index hl)
  constructor
  · have hsize := hb.size t ht hbusy
    rw [setBusy_self, hchain] at hsize
    have hsum := h.sum_lt
    have hword := h₀.word t
    have hgrown := h.size
    change (rd.info t).size = (l.map fun j => (rd.segs j).segSize).sum at hsize
    unfold wrap at hgrown
    omega
  · intro j hj h0
    have hheld := hb.held t ht j (hchain ▸ hj)
    change (rd.segs j).segment ∈ rd.held at hheld
    rw [h0] at hheld
    exact h.pos hheld

end Completed

section Calls

variable {rd : Rd} {chain : Nat → List Nat} {c : RdCall}

theorem pieces_pos (arg : Nat) : ∃ n, pieces arg = n + 1 :=
  ⟨_, rfl⟩

theorem RdCall.target_lt (c : RdCall) : c.target < maxEntries :=
  Nat.mod_lt _ (by decide)

theorem Rd.Sound.create_error (h : rd.Sound chain) (mm : MmAlloc) {t arg : Nat} (harg : arg < 65536)
    (herr : (createLoop mm t arg (pieces arg) 0 none rd).1 ≠ .ok ()) :
    (createLoop mm t arg (pieces arg) 0 none rd).2 ≠ rd := by
  have hword := h.word t
  have hfew : rd.freeCount ≤ maxEntries := freeCount_le
  unfold maxEntries at hfew
  -- a size that grew by some but not too many sectors is another size
  have hgrew : ∀ (rd' : Rd) (x : Nat), (rd'.info t).size = wrap 16 ((rd.info t).size + x) →
      x ≤ 128 * rd.freeCount → 0 < x → rd' ≠ rd := by
    rintro rd' x hx hle hpos rfl
    unfold wrap at hx
    omega
  obtain ⟨n, hn⟩ := pieces_pos arg
  by_cases h0 : rd.freeCount = 0
  · have hf := freeCount_eq_zero.mp h0
    have hindex := h.index t
    have hhead := rdDealloc_head rd t (by omega)
    rw [hn, createLoop_succ, hf]
    dsimp only
    intro he
    rw [he] at hhead
    exact findFreeSeg_none hf hindex hhead
  · by_cases ha : arg = 0
    · subst ha
      have hfull : pieces 0 = 1023 + 1 := by decide
      rw [hfull, createLoop_succ]
      cases hf : findFreeSeg rd with
      | none => exact absurd (freeCount_eq_zero.mpr hf) h0
      | some j =>
          obtain ⟨hj, hj0⟩ := findFreeSeg_some hf
          dsimp only
          generalize hrd : createPiece mm t 0 0 none j rd = rd'
          have hzero : pieceSize 0 0 / 32 = 0 := by decide
          have hcount : rd'.freeCount = rd.freeCount := by
            have hsame : ∀ m, (rd'.segs m).segSize = (rd.segs m).segSize := by
              intro m
              by_cases hm : m = j
              · rw [← hrd, hm, createPiece_segSize_self, hzero, hj0]
              · rw [← hrd, createPiece_segSize_ne hm]
            unfold Rd.freeCount
            simp only [hsame]
          have hsize : (rd'.info t).size = (rd.info t).size := by
            rw [← hrd, createPiece_info, update_self, hzero]
            exact wrap_of_lt (w := 16) hword
          obtain ⟨-, x, hx, hle, hpos⟩ := createLoop_grows mm t 0 rd'
            1023 1 (some j) (fun m hm _ => pieceSize_div_pos fun he => by omega)
            (by rw [hsize]; exact hword)
          rw [hsize] at hx
          exact hgrew _ x hx (by omega) (hpos (by omega) (by omega))
    · obtain ⟨-, x, hx, hle, hpos⟩ := createLoop_grows mm t arg rd
        (pieces arg) 0 none (fun m _ hm => piece_pos ha harg (by omega)) hword
      exact hgrew _ x hx hle (hpos (by omega) (by omega))

theorem Rd.Sound.create (h : rd.Sound chain) (hsuser : c.suser = true) (hcmd : c.cmd = rdcreate)
    (hidle : ¬ rd.busy c.target) :
    (Kept rd (rdIoctl c rd) ↔ Fits rd c) ∧
      (Fits rd c → ∃ chain', (rdIoctl c rd).2.Sound chain') := by
  have hfits : Fits rd c ↔ (rd.info c.target).size = 0 ∧ c.arg ≠ 0 ∧
      pieces c.arg ≤ rd.freeCount ∧ Supplies c.mm c.arg (pieces c.arg) 0 rd.held :=
    ⟨fun hf => hf hsuser hcmd hidle, fun hf _ _ _ => hf⟩
  have hrun : rdIoctl c rd =
      match (createLoop c.mm c.target c.arg (pieces c.arg) 0 none rd).1 with
      | .error e =>
          (.error e, (createLoop c.mm c.target c.arg (pieces c.arg) 0 none rd).2)
      | .ok () =>
          (.ok (), setBusy c.target (createLoop c.mm c.target c.arg (pieces c.arg) 0 none rd).2) := by
    unfold rdIoctl
    rw [if_neg (by simp [hsuser]), if_pos hcmd, if_neg hidle]
  have hchanged := h.create_error c.mm (t := c.target) c.arg_lt
  have hbuild := createLoop_builds c.mm c.arg h.ended (pieces c.arg)
    (Building.start h c.target)
  rw [hrun]
  cases hres : (createLoop c.mm c.target c.arg (pieces c.arg) 0 none rd).1 with
  | error e =>
      have hno : ¬ Fits rd c := by
        intro hf
        obtain ⟨-, ha, hle, -⟩ := hfits.mp hf
        have hok := (createLoop_grows c.mm c.target c.arg rd (pieces c.arg) 0 none
          (fun m _ hm => piece_pos ha c.arg_lt (by omega)) (h.word c.target)).1.mpr hle
        rw [hres] at hok
        cases hok
      refine ⟨⟨fun hk => ?_, fun hf => absurd hf hno⟩, fun hf => absurd hf hno⟩
      exact absurd (hk.2 e rfl) (hchanged (by rw [hres]; simp))
  | ok u =>
      have hfull : pieces 0 = 1024 := by decide
      have ha : c.arg ≠ 0 := by
        intro ha
        -- a thousand pieces do not fit
        obtain ⟨n, hn⟩ := pieces_pos c.arg
        have hfew : ∀ rd' : Rd, rd'.freeCount ≤ 8 := fun rd' => freeCount_le
        rw [ha, hfull, createLoop_succ] at hres
        cases hf : findFreeSeg rd with
        | none =>
            rw [hf] at hres
            cases hres
        | some j =>
            rw [hf] at hres
            dsimp only at hres
            have hsize : ((createPiece c.mm c.target 0 0 none j rd).info c.target).size < 65536 := by
              rw [createPiece_info, update_self]
              exact wrap_lt 16 _
            have hle := (createLoop_grows c.mm c.target 0 _ 1023 1 (some j)
              (fun m hm _ => pieceSize_div_pos fun he => by omega) hsize).1.mp hres
            have := hfew (createPiece c.mm c.target 0 0 none j rd)
            omega
      have hpos : ∀ m, m < pieces c.arg → pieceSize c.arg m / 32 ≠ 0 :=
        fun m hm => piece_pos ha c.arg_lt hm
      have hle := (createLoop_grows c.mm c.target c.arg rd (pieces c.arg) 0 none
        (fun m _ hm => hpos m (by omega)) (h.word c.target)).1.mp hres
      obtain ⟨l, hb, hlen, hiff⟩ := hbuild
        (by simpa using hpos)
        hres
      have hl : l ≠ [] := by
        rintro rfl
        obtain ⟨n, hn⟩ := pieces_pos c.arg
        simp only [List.length_nil] at hlen
        omega
      have hsupplies : (∀ j ∈ l, ((createLoop c.mm c.target c.arg (pieces c.arg) 0 none
          rd).2.segs j).segment ≠ 0) ↔ Supplies c.mm c.arg (pieces c.arg) 0 rd.held :=
        hiff.trans (by simp)
      have hsound : Fits rd c → ∃ chain', (setBusy c.target
          (createLoop c.mm c.target c.arg (pieces c.arg) 0 none rd).2).Sound chain' := by
        intro hf
        obtain ⟨hsize, -, -, hs⟩ := hfits.mp hf
        exact ⟨_, hb.sound h c.target_lt hidle hl hsize (hsupplies.mpr hs)⟩
      refine ⟨⟨fun hk => ?_, fun hf => ?_⟩, hsound⟩
      · obtain ⟨hsize, hseg⟩ := hb.of_books h c.target_lt hl hk.1
        exact hfits.mpr ⟨hsize, ha, hle, hsupplies.mp hseg⟩
      · obtain ⟨chain', hs⟩ := hsound hf
        exact ⟨⟨chain', hs.books⟩, fun e he => by cases he⟩

/-- A call keeps the books exactly if it is not the creation of a disk that does
not fit. -/
theorem Rd.Sound.ioctl (h : rd.Sound chain) (c : RdCall) :
    (Kept rd (rdIoctl c rd) ↔ Fits rd c) ∧
      (Fits rd c → ∃ chain', (rdIoctl c rd).2.Sound chain') := by
  have hsame : ∀ e, rdIoctl c rd = (.error e, rd) →
      Kept rd (rdIoctl c rd) ∧ (rdIoctl c rd).2.Sound chain := by
    intro e he
    rw [he]
    exact ⟨⟨⟨chain, h.books⟩, fun _ _ => rfl⟩, h⟩
  -- a call that cannot be a creation fits
  have hgood : Fits rd c → Kept rd (rdIoctl c rd) →
      (∃ chain', (rdIoctl c rd).2.Sound chain') →
      (Kept rd (rdIoctl c rd) ↔ Fits rd c) ∧
        (Fits rd c → ∃ chain', (rdIoctl c rd).2.Sound chain') :=
    fun hf hk hs => ⟨⟨fun _ => hf, fun _ => hk⟩, fun _ => hs⟩
  by_cases hsuser : c.suser = true
  · by_cases hcmd : c.cmd = rdcreate
    · by_cases hbusy : rd.busy c.target
      · have hrun : rdIoctl c rd = (.error .ebusy, rd) := by
          unfold rdIoctl
          rw [if_neg (by simp [hsuser]), if_pos hcmd, if_pos hbusy]
        exact hgood (fun _ _ hi => absurd hbusy hi) (hsame _ hrun).1 ⟨chain, (hsame _ hrun).2⟩
      · exact h.create hsuser hcmd hbusy
    · have hfits : Fits rd c := fun _ hc _ => absurd hc hcmd
      by_cases hd : c.cmd = rddestroy ∧ rd.busy c.target
      · have hrun : rdIoctl c rd = (.ok (), rdDealloc c.target rd) := by
          unfold rdIoctl
          rw [if_neg (by simp [hsuser]), if_neg hcmd, if_pos hd.1, if_pos hd.2]
        have hs := h.dealloc c.target_lt hd.2
        refine hgood hfits ?_ ⟨_, by rw [hrun]; exact hs⟩
        rw [hrun]
        exact ⟨⟨_, hs.books⟩, fun e he => by cases he⟩
      · have hrun : rdIoctl c rd = (.error .einval, rd) := by
          unfold rdIoctl
          rw [if_neg (by simp [hsuser]), if_neg hcmd]
          by_cases hcd : c.cmd = rddestroy
          · rw [if_pos hcd, if_neg (fun hb => hd ⟨hcd, hb⟩)]
          · rw [if_neg hcd]
        exact hgood hfits (hsame _ hrun).1 ⟨chain, (hsame _ hrun).2⟩
  · have hrun : rdIoctl c rd = (.error .eperm, rd) := by
      unfold rdIoctl
      rw [if_pos (by simpa using hsuser)]
    exact hgood (fun hs => absurd hs hsuser) (hsame _ hrun).1 ⟨chain, (hsame _ hrun).2⟩

theorem Rd.boot_sound : Rd.boot.Sound fun _ => [] := by
  have hidle : ∀ t, ¬ Rd.boot.busy t := fun t hb => hb rfl
  constructor
  case books =>
    exact ⟨fun t _ hb => absurd hb (hidle t), fun _ _ _ => rfl, fun _ _ _ _ _ => by simp,
      by simp, fun t _ hb => absurd hb (hidle t), fun j _ => by simp [Rd.boot]⟩
  all_goals simp [Rd.boot, maxEntries]

theorem rdRun_iff (h : rd.Sound chain) (cs : List RdCall) :
    (∀ e ∈ rdRun cs rd, Kept e.2.1 e.2.2) ↔ ∀ e ∈ rdRun cs rd, Fits e.2.1 e.1 := by
  induction cs generalizing rd chain with
  | nil => simp [rdRun]
  | cons c cs ih =>
      obtain ⟨hiff, hsound⟩ := h.ioctl c
      simp only [rdRun, List.forall_mem_cons]
      by_cases hf : Fits rd c
      · obtain ⟨chain', hs⟩ := hsound hf
        rw [ih hs, hiff]
      · exact ⟨fun hk => absurd (hiff.mp hk.1) hf, fun hk => absurd hk.1 hf⟩

/-- The books are in order after every call of a run, and failed calls change
nothing, exactly if every disk that is created was not created before, has a
size, and finds entries and memory for all of it. -/
theorem rdRun_kept_iff (cs : List RdCall) :
    (∀ e ∈ rdRun cs Rd.boot, Kept e.2.1 e.2.2) ↔ ∀ e ∈ rdRun cs Rd.boot, Fits e.2.1 e.1 :=
  rdRun_iff Rd.boot_sound cs

/-- A memory manager that hands out segments one after the other. -/
def nextSegment : MmAlloc where
  alloc := fun _ held _ => if held.sum + 1 < 0xFFFF then held.sum + 1 else 0
  fresh := by
    intro _ held _ h hmem
    split at h
    · rename_i hlt
      rw [if_pos hlt] at hmem
      have := List.single_le_sum (by simp) _ hmem
      omega
    · exact h rfl
  lt := by
    intro _ held _
    split <;> omega

/-- A call by the superuser on the first disk, for 64 kilobytes. -/
def firstDisk (cmd : Nat) : RdCall where
  suser := true
  minor := 0
  cmd := cmd
  arg := 64
  arg_lt := by decide
  mm := nextSegment

/-- The second creation of a disk adds to the size of the first. -/
theorem recreated_size_wrong :
    ¬ ∀ e ∈ rdRun [firstDisk rdcreate, firstDisk rddestroy, firstDisk rdcreate] Rd.boot,
      Kept e.2.1 e.2.2 := by
  rw [rdRun_iff Rd.boot_sound]
  intro h
  have hlast := h _ (by
    simp only [rdRun, List.mem_cons]
    exact Or.inr (Or.inr (Or.inl rfl)))
  have hidle : ¬ ((rdIoctl (firstDisk rddestroy)
      (rdIoctl (firstDisk rdcreate) Rd.boot).2).2).busy 0 := by
    decide +kernel
  have hsize : ((rdIoctl (firstDisk rddestroy)
      (rdIoctl (firstDisk rdcreate) Rd.boot).2).2.info 0).size = 128 := by
    decide +kernel
  have hzero := (hlast rfl rfl hidle).1
  exact absurd (hsize.symm.trans hzero) (by decide)

end Calls

end Block
end Elks
