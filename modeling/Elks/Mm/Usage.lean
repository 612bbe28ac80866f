import Elks.Mm.Runs

/-!
# How much memory is in use (arch/i86/mm/malloc.c)

`mm_get_usage` adds up the extents of one kind and returns kilobytes; for the swap it returns
blocks.

**Result.**  `usage_accounts`: after every run of the allocator the two figures account for
the whole arena.
-/

namespace Elks
namespace Mm

open Lib

section Code

/-- The loop of `mm_get_usage`. -/
def usageFrom (a : Arena) (flag : HoleFlags) : Nat → Option Slot → Nat → Except Fault Nat
  | _, none, ret => .ok ret
  | 0, some _, _ => .error .endless
  | fuel + 1, some m, ret =>
      usageFrom a flag fuel (a.holes m).next
        (if (a.holes m).flags = flag then wrap 16 (ret + (a.holes m).extent) else ret)

/-- `mm_get_usage`; `mem` is for `MM_MEM`. -/
def mmGetUsage (memmap swapmap : Arena) (mem used : Bool) : Except Fault Nat := do
  let ret ← usageFrom (if mem then memmap else swapmap) (if used then .used else .free)
    maxSegments (some firstHole) 0
  return if mem then ret / 64 else ret

end Code

section Result

variable {a : Arena} {flag : HoleFlags} {o : Option Slot} {l : List Slot} {start stop : Nat}

/-- The pages of one kind. -/
def pagesOf (a : Arena) (flag : HoleFlags) (l : List Slot) : Nat :=
  (l.map fun i => if (a.holes i).flags = flag then (a.holes i).extent else 0).sum

theorem usageFrom_eq (hl : Links a.link o l) {fuel ret : Nat} (hfuel : l.length ≤ fuel)
    (hlt : ret + pagesOf a flag l < 2 ^ 16) :
    usageFrom a flag fuel o ret = .ok (ret + pagesOf a flag l) := by
  induction l generalizing o fuel ret with
  | nil =>
      obtain rfl : o = none := hl
      cases fuel <;> rfl
  | cons i l ih =>
      obtain ⟨rfl, htail⟩ := hl
      have hsplit : pagesOf a flag (i :: l) =
          (if (a.holes i).flags = flag then (a.holes i).extent else 0) + pagesOf a flag l :=
        List.sum_cons
      rw [hsplit] at hlt ⊢
      cases fuel with
      | zero => exact absurd hfuel (Nat.not_succ_le_zero _)
      | succ fuel =>
          have hret : (if (a.holes i).flags = flag then wrap 16 (ret + (a.holes i).extent)
              else ret) = ret + if (a.holes i).flags = flag then (a.holes i).extent else 0 := by
            split_ifs at hlt ⊢
            · exact Nat.mod_eq_of_lt (by omega)
            · rfl
          rw [usageFrom, hret, ← Nat.add_assoc]
          exact ih htail (Nat.le_of_succ_le_succ hfuel) (by omega)

theorem Tiled.pagesOf_add (h : Tiled start stop a l) :
    start + (pagesOf a .used l + pagesOf a .free l) = stop := by
  have hkind : ∀ i ∈ l, (a.holes i).extent =
      (if (a.holes i).flags = .used then (a.holes i).extent else 0) +
        if (a.holes i).flags = .free then (a.holes i).extent else 0 := by
    intro i hi
    cases hflags : (a.holes i).flags with
    | spare => exact absurd hflags (h.onList i hi)
    | used | free => simp
  have hsum := h.tiles.sum_eq
  have hsame : l.map (Prod.snd ∘ fun i => (a.holes i).seg) = _ := List.map_congr_left hkind
  rw [List.map_map, hsame, List.sum_map_add] at hsum
  exact hsum

/-- **The figures account for the whole arena**, whatever is allocated and given back: in pages
they add up to it, and the kilobytes that are told are one short of it at most. -/
theorem usage_accounts (h : Layout start stop a l) (hcounted : Counted a) (hstop : stop < 2 ^ 16)
    (swapmap : Arena) (calls : List MmCall)
    (hlegal : AlongCalls (fun a c => c.OnLive a ∧ c.CountFits a) a calls) :
    runCalls a (refTotal a) calls = .error tooManyHoles ∨
    ∃ a' n used free, runCalls a (refTotal a) calls = .ok (a', n) ∧
      start + (used + free) = stop ∧
      mmGetUsage a' swapmap true true = .ok (used / 64) ∧
      mmGetUsage a' swapmap true false = .ok (free / 64) ∧
      (stop - start) / 64 ≤ used / 64 + free / 64 + 1 := by
  rcases runCalls_layout hstop calls h hcounted rfl hlegal with herr | ⟨a', n, l', hok, hlay, -, -⟩
  · exact Or.inl herr
  · have hsum := hlay.pagesOf_add
    have hfigure : ∀ flag, pagesOf a' flag l' < 2 ^ 16 →
        usageFrom a' flag maxSegments (some firstHole) 0 = .ok (pagesOf a' flag l') := by
      intro flag hlt
      have heq := usageFrom_eq hlay.links hlay.length_le
        (by rwa [Nat.zero_add] : 0 + pagesOf a' flag l' < 2 ^ 16)
      rwa [Nat.zero_add] at heq
    refine Or.inr ⟨a', n, _, _, hok, hsum, ?_, ?_, by omega⟩
    · simp only [mmGetUsage, if_true, hfigure .used (by omega)]
      rfl
    · simp only [mmGetUsage, if_true, Bool.false_eq_true, if_false, hfigure .free (by omega)]
      rfl

/-- Three segments, one of them a copy, and one given back. -/
def copied : List MmCall :=
  [.alloc 64, .alloc 32, .dup 4160, .free 4096]

theorem usage_accounts_copied :
    runCalls (mmInit blankArena 4096 40960) (refTotal (mmInit blankArena 4096 40960)) copied =
        .error tooManyHoles ∨
      ∃ a' n used free, runCalls (mmInit blankArena 4096 40960)
          (refTotal (mmInit blankArena 4096 40960)) copied = .ok (a', n) ∧
        4096 + (used + free) = 40960 ∧
        mmGetUsage a' blankArena true true = .ok (used / 64) ∧
        mmGetUsage a' blankArena true false = .ok (free / 64) ∧
        (40960 - 4096) / 64 ≤ used / 64 + free / 64 + 1 :=
  usage_accounts (layout_mmInit blankArena (by decide) (by decide))
    (by unfold Counted; decide) (by decide) blankArena copied (by decide +kernel)

end Result
end Mm
end Elks
