import Elks.Lib.Chain
import Elks.Lib.Machine

/-!
# The segment allocator (arch/i86/mm/malloc.c, CONFIG_SWAP off)

Main memory is handed out in pages of sixteen bytes.  The allocator keeps its
bookkeeping out of user memory, in a fixed table `holes[MAX_SEGMENTS]` of hole
descriptors; those in use are linked through `next` in memory order, starting
at `holes[0]`.

The functions below follow the source one by one.  A loop over the list takes
the table size as a bound on its iterations and stops with `Fault.endless`
beyond it; a panic stops with its text.  `seg_t` and `segext_t` are sixteen
bits wide, `refcount` is eight bits wide.
-/

namespace Elks
namespace Mm

open Lib

/-- `MAX_TASKS` of linuxmt/sched.h. -/
def maxTasks : Nat := 15

/-- `MAX_SEGMENTS`, the size of `holes[]`. -/
def maxSegments : Nat := 8 + maxTasks * 2

/-- An index into `holes[]`; a pointer into the table is `Option Slot`. -/
abbrev Slot := Fin maxSegments

/-- `&holes[0]`, where the list starts. -/
def firstHole : Slot := ⟨0, by decide⟩

/-- The values of `flags` that occur without swapping. -/
inductive HoleFlags
  | used
  | free
  | spare
deriving DecidableEq, Repr

/-- `struct malloc_hole`. -/
structure MallocHole where
  pageBase : Nat
  extent : Nat
  next : Option Slot
  refcount : Nat
  flags : HoleFlags
deriving DecidableEq

/-- The table `holes[]` and the main memory it describes. -/
structure Arena where
  holes : Slot → MallocHole
  memory : Nat → UInt8

namespace Arena

/-- Replace one descriptor. -/
def set (a : Arena) (m : Slot) (h : MallocHole) : Arena :=
  { a with holes := Function.update a.holes m h }

@[simp] theorem set_same (a : Arena) (m : Slot) (h : MallocHole) : (a.set m h).holes m = h := by
  simp [set]

@[simp] theorem set_set (a : Arena) (m : Slot) (h h' : MallocHole) :
    (a.set m h).set m h' = a.set m h' := by
  simp [set]

theorem set_ne (a : Arena) {m i : Slot} (h : MallocHole) (hi : i ≠ m) :
    (a.set m h).holes i = a.holes i := by
  simp [set, hi]

end Arena

/-- `alloc_hole`: the first spare descriptor. -/
def allocHole (a : Arena) : Except Fault Slot :=
  match (List.finRange maxSegments).find?
      (fun m => (a.holes m).flags = .spare) with
  | some m => .ok m
  | none => .error (.panic "mm: too many holes")

/-- `split_hole`: cut hole `m` down to `len`, the rest becoming a free hole. -/
def splitHole (a : Arena) (m : Slot) (len : Nat) : Except Fault Arena :=
  let spare := wrapSub 16 (a.holes m).extent len
  if spare = 0 then
    .ok a
  else do
    let a₁ := a.set m { a.holes m with extent := len }
    let n ← allocHole a₁
    let a₂ := a₁.set n
      { a₁.holes n with
        pageBase := wrap 16 ((a₁.holes m).pageBase + len)
        extent := spare
        next := (a₁.holes m).next
        flags := .free }
    .ok (a₂.set m { a₂.holes m with next := some n })

/-- The merging arm of `sweep_holes`: `m` swallows its successor `k`. -/
def mergeHoles (a : Arena) (m k : Slot) : Arena :=
  let a₁ := a.set m
    { a.holes m with
      extent := wrap 16 ((a.holes m).extent + (a.holes k).extent) }
  let a₂ := a₁.set k { a₁.holes k with flags := .spare }
  a₂.set m { a₂.holes m with next := (a₂.holes k).next }

/-- The loop of `sweep_holes` from `m` on. -/
def sweepFrom : Nat → Arena → Option Slot → Except Fault Arena
  | _, a, none => .ok a
  | fuel, a, some m =>
      match (a.holes m).next, fuel with
      | none, _ => .ok a
      | some _, 0 => .error .endless
      | some k, fuel + 1 =>
          if (a.holes m).flags = .free ∧ (a.holes k).flags = .free ∧
              wrap 16 ((a.holes m).pageBase + (a.holes m).extent) =
                (a.holes k).pageBase then
            sweepFrom fuel (mergeHoles a m k) (some m)
          else
            sweepFrom fuel a (some k)

/-- `sweep_holes`: merge adjacent free holes. -/
def sweepHoles (a : Arena) : Except Fault Arena :=
  sweepFrom maxSegments a (some firstHole)

/-- The update of `best` in `best_fit_hole` at hole `m`. -/
def betterHole (a : Arena) (size : Nat) (best : Option Slot) (m : Slot) :
    Option Slot :=
  if size ≤ (a.holes m).extent ∧ (a.holes m).flags = .free then
    match best with
    | none => some m
    | some b =>
        if (a.holes m).extent < (a.holes b).extent then some m else some b
  else
    best

/-- The loop of `best_fit_hole` from `m` on. -/
def bestFitFrom (a : Arena) (size : Nat) :
    Nat → Option Slot → Option Slot → Except Fault (Option Slot)
  | _, none, best => .ok best
  | 0, some _, _ => .error .endless
  | fuel + 1, some m, best =>
      bestFitFrom a size fuel (a.holes m).next (betterHole a size best m)

/-- `best_fit_hole`: the nearest fitting hole. -/
def bestFitHole (a : Arena) (size : Nat) : Except Fault (Option Slot) :=
  bestFitFrom a size maxSegments (some firstHole) none

/-- The loop of `find_hole` from `m` on. -/
def findHoleFrom (a : Arena) (base : Nat) :
    Nat → Option Slot → Except Fault (Option Slot)
  | _, none => .ok none
  | 0, some _ => .error .endless
  | fuel + 1, some m =>
      if (a.holes m).pageBase ≠ base then
        findHoleFrom a base fuel (a.holes m).next
      else
        .ok (some m)

/-- `find_hole`: the hole starting at a given location. -/
def findHole (a : Arena) (base : Nat) : Except Fault (Option Slot) :=
  findHoleFrom a base maxSegments (some firstHole)

/-- The tail that `mm_alloc` and `mm_dup` share: split and mark as used. -/
def takeHole (a : Arena) (m : Slot) (pages : Nat) : Except Fault Arena := do
  let a₁ ← splitHole a m pages
  .ok (a₁.set m { a₁.holes m with flags := .used, refcount := 1 })

/-- `mm_alloc`: the base of a fresh segment, or `none` for `NULL`. -/
def mmAlloc (a : Arena) (pages : Nat) :
    Except Fault (Arena × Option Nat) := do
  match ← bestFitHole a pages with
  | none => .ok (a, none)
  | some m =>
      let a₁ ← takeHole a m pages
      .ok (a₁, some (a₁.holes m).pageBase)

/-- `mm_realloc`: increase the reference count. -/
def mmRealloc (a : Arena) (base : Nat) :
    Except Fault (Arena × Option Nat) := do
  match ← findHole a base with
  | none => .error .nullPointer
  | some m =>
      let a₁ := a.set m
        { a.holes m with refcount := wrap 8 ((a.holes m).refcount + 1) }
      .ok (a₁, some (a₁.holes m).pageBase)

/-- `mm_free`: drop a reference, and the segment with the last one. -/
def mmFree (a : Arena) (base : Nat) :
    Except Fault (Arena × Option Nat) := do
  match ← findHole a base with
  | none => .error (.panic "mm corruption")
  | some m =>
      if (a.holes m).flags ≠ .used then
        .error (.panic "double free")
      else
        let a₁ := a.set m
          { a.holes m with refcount := wrapSub 8 (a.holes m).refcount 1 }
        if (a₁.holes m).refcount = 0 then do
          let a₂ ← sweepHoles (a₁.set m { a₁.holes m with flags := .free })
          .ok (a₂, none)
        else
          .ok (a₁, none)

/-- `fmemcpy`: `n` bytes upwards, the offsets wrapping inside their segments. -/
def fmemcpy (memory : Nat → UInt8) (dseg dest sseg src : Nat) :
    Nat → Nat → UInt8
  | 0 => memory
  | n + 1 =>
      let earlier := fmemcpy memory dseg dest sseg src n
      Function.update earlier (dseg * 16 + wrap 16 (dest + n))
        (earlier (sseg * 16 + wrap 16 (src + n)))

/-- `mm_dup`: allocate a segment and copy it from another. -/
def mmDup (a : Arena) (base : Nat) :
    Except Fault (Arena × Option Nat) := do
  match ← findHole a base with
  | none => .error .nullPointer
  | some o =>
      if (a.holes o).flags ≠ .used then
        .error (.panic "bad/swapped hole")
      else
        match ← bestFitHole a (a.holes o).extent with
        | none => .ok (a, none)
        | some m =>
            let a₁ ← takeHole a m (a.holes o).extent
            let i := wrap 16 ((a₁.holes o).extent <<< 4)
            let a₂ :=
              { a₁ with
                memory := fmemcpy a₁.memory (a₁.holes m).pageBase 0
                  (a₁.holes o).pageBase 0 i }
            .ok (a₂, some (a₂.holes m).pageBase)

/-- `mm_init`: one free hole with all user memory, the other slots spare. -/
def mmInit (a : Arena) (start stop : Nat) : Arena :=
  { a with
    holes := fun m =>
      if m = firstHole then
        { pageBase := start
          extent := wrapSub 16 stop start
          next := none
          refcount := 0
          flags := .free }
      else
        { a.holes m with flags := .spare } }

/-- The calls other parts of the kernel make. -/
inductive MmCall
  | alloc (pages : Nat)
  | realloc (base : Nat)
  | dup (base : Nat)
  | free (base : Nat)
deriving DecidableEq, Repr

/-- Run one call. -/
def MmCall.exec (a : Arena) : MmCall → Except Fault (Arena × Option Nat)
  | .alloc pages => mmAlloc a pages
  | .realloc base => mmRealloc a base
  | .dup base => mmDup a base
  | .free base => mmFree a base

/-- How many references are out after a call that returned `r`. -/
def MmCall.refs (r : Option Nat) (n : Nat) : MmCall → Nat
  | .free _ => n - 1
  | _ => if r.isSome then n + 1 else n

/-- Run a sequence of calls, counting the references that are out. -/
def runCalls : Arena → Nat → List MmCall → Except Fault (Arena × Nat)
  | a, n, [] => .ok (a, n)
  | a, n, c :: cs => do
      let (a', r) ← c.exec a
      runCalls a' (c.refs r n) cs

end Mm
end Elks
