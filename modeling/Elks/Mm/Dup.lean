import Elks.Mm.Resize

/-!
# What mm_dup copies (arch/i86/mm/malloc.c, arch/i86/mm/user.c, CONFIG_SWAP off)

`fork` gives the child its own data segment: `mm_dup` takes the smallest hole
that fits, cuts it down to the extent of the original and copies the bytes over.
The number of bytes is the extent shifted left by four in sixteen bits, so a
segment of 4096 pages, the largest `sys_execve` makes, has none copied.

* `fmemcpy_apart`: a copy between ranges that do not overlap;
* `mmDup_eq`: the call as one step from the arena before it;
* `mmDup_duplicated_iff`: the copy is right exactly below 4096 pages, or where
  the hole already held the bytes.
-/

namespace Elks
namespace Mm

open Lib

/-- The byte at offset `k` of segment `m`. -/
def Arena.byte (a : Arena) (m : Slot) (k : Nat) : UInt8 :=
  a.memory ((a.holes m).pageBase * 16 + k)

/-- Segment `m` of `a'` has the bytes of segment `o` of `a`. -/
def SameBytes (a : Arena) (o : Slot) (a' : Arena) (m : Slot) : Prop :=
  ∀ k < (a.holes o).extent * 16, a'.byte m k = a.byte o k

/-- `base` heads a new segment with the extent and the bytes of `o` and one
reference, and every segment there was is as it was. -/
def Duplicated (a a' : Arena) (o : Slot) (base : Nat) : Prop :=
  ∃ m, findHole a' base = .ok (some m) ∧
    (a.holes m).flags ≠ .used ∧
    (a'.holes m).flags = .used ∧
    (a'.holes m).extent = (a.holes o).extent ∧
    (a'.holes m).refcount = 1 ∧
    SameBytes a o a' m ∧
    ∀ i, (a.holes i).flags = .used →
      a'.holes i = a.holes i ∧ SameBytes a i a' i

/-- The byte count fits sixteen bits, or there is nothing to copy: the smallest
hole already holds the bytes. -/
def Copyable (a : Arena) (o : Slot) : Prop :=
  (a.holes o).extent < 4096 ∨
    ∀ m, bestFitHole a (a.holes o).extent = .ok (some m) → SameBytes a o a m

section Copies

variable {memory : Nat → UInt8} {dseg sseg n x : Nat}

/-- A copy between ranges that do not overlap.  The induction is on the bytes
copied so far; none of them is one that is still to be read. -/
theorem fmemcpy_apart (hn : n ≤ 65536)
    (hapart : dseg * 16 + n ≤ sseg * 16 ∨ sseg * 16 + n ≤ dseg * 16) :
    fmemcpy memory dseg 0 sseg 0 n x =
      if dseg * 16 ≤ x ∧ x < dseg * 16 + n then
        memory (sseg * 16 + (x - dseg * 16))
      else
        memory x := by
  induction n generalizing x with
  | zero =>
      rw [if_neg (by omega)]
      rfl
  | succ n ih =>
      have hsource : ¬(dseg * 16 ≤ sseg * 16 + n ∧
          sseg * 16 + n < dseg * 16 + n) := by
        omega
      have hoff : wrap 16 (0 + n) = n := by
        rw [Nat.zero_add]
        exact wrap_of_lt (by omega)
      simp only [fmemcpy, hoff]
      rw [ih (by omega) (by omega), if_neg hsource]
      by_cases hx : x = dseg * 16 + n
      · subst hx
        rw [Function.update_self, if_pos (by omega), Nat.add_sub_cancel_left]
      · rw [Function.update_of_ne hx, ih (by omega) (by omega)]
        by_cases hin : dseg * 16 ≤ x ∧ x < dseg * 16 + n
        · rw [if_pos hin, if_pos (by omega)]
        · rw [if_neg hin, if_neg (by omega)]

end Copies

section Dup

variable {start stop base : Nat} {a a' : Arena} {l : List Slot} {m o : Slot}

theorem splitHole_memory {pages : Nat} (hok : splitHole a m pages = .ok a') :
    a'.memory = a.memory := by
  unfold splitHole at hok
  by_cases hs : wrapSub 16 (a.holes m).extent pages = 0
  · simp only [hs, if_true, Except.ok.injEq] at hok
    rw [hok]
  · simp only [hs, if_false] at hok
    cases hn : allocHole (a.set m { a.holes m with extent := pages }) with
    | error f =>
        simp [hn, bind, Except.bind] at hok
    | ok n =>
        simp only [hn, bind, Except.bind, Except.ok.injEq] at hok
        rw [← hok]
        rfl

theorem takeHole_memory {pages : Nat} (hok : takeHole a m pages = .ok a') :
    a'.memory = a.memory := by
  unfold takeHole at hok
  cases hs : splitHole a m pages with
  | error f =>
      simp [hs, bind, Except.bind] at hok
  | ok a₁ =>
      simp only [hs, bind, Except.bind, Except.ok.injEq] at hok
      have hm : a₁.memory = a.memory := splitHole_memory hs
      rw [← hok]
      exact hm

theorem Tiled.disjoint (h : Tiled start stop a l) (hm : m ∈ l) (ho : o ∈ l) (hne : m ≠ o) :
    (a.holes m).pageBase + (a.holes m).extent ≤ (a.holes o).pageBase ∨
      (a.holes o).pageBase + (a.holes o).extent ≤ (a.holes m).pageBase :=
  h.tiles.disjoint hm ho hne

theorem mmDup_eq (h : Layout start stop a l) (hstop : stop < 2 ^ 16)
    (ho : (a.holes o).flags = .used) (hok : mmDup a (a.holes o).pageBase = .ok (a', some base)) :
    ∃ m a₁ l₁, bestFitHole a (a.holes o).extent = .ok (some m) ∧
      Fits a (a.holes o).extent m ∧
      Layout start stop a₁ l₁ ∧ Taken a a₁ m ∧
      (a₁.holes m).extent = (a.holes o).extent ∧
      base = (a.holes m).pageBase ∧
      a' = { a₁ with
        memory := fmemcpy a.memory (a.holes m).pageBase 0 (a.holes o).pageBase 0
          (wrap 16 ((a.holes o).extent <<< 4)) } := by
  have hpos := (h.tiles.mem_bounds
    (List.mem_map_of_mem (h.toTiled.mem_of_used ho))).2.1
  simp only [MallocHole.seg] at hpos
  simp only [mmDup, h.toTiled.findHole_used ho, bind, Except.bind, ho, ne_eq,
    not_true_eq_false, if_false] at hok
  rcases h.take_bestFit hstop hpos with
    ⟨hnone, _⟩ | ⟨m, hsome, hfree, ⟨herr, _⟩ | ⟨a₁, l₁, htake, _, hlay, htaken⟩⟩
  · simp [hnone] at hok
  · simp [hsome, herr] at hok
  · have hom : o ≠ m := by
      rintro rfl
      rw [ho] at hfree
      cases hfree
    have hkept := (htaken.others o hom).2 ho
    have hfit : Fits a (a.holes o).extent m := by
      rcases h.toTiled.bestFitHole_spec (a.holes o).extent with
        ⟨hnone, _⟩ | ⟨m', hsome', _, hfit, _⟩
      · rw [hsome] at hnone
        cases hnone
      · rw [hsome] at hsome'
        cases hsome'
        exact hfit
    have hext := h.takeHole_extent hstop hpos (h.toTiled.mem_of_free hfree) hfit htake
    simp only [hsome, htake, hkept, htaken.pageBase, takeHole_memory htake,
      Except.ok.injEq, Prod.mk.injEq, Option.some.injEq] at hok
    exact ⟨m, a₁, l₁, hsome, hfit, hlay, htaken, hext, hok.2.symm, hok.1.symm⟩

theorem dup_count (hext : (a.holes o).extent ≤ 4096) :
    wrap 16 ((a.holes o).extent <<< 4) =
      if (a.holes o).extent < 4096 then (a.holes o).extent * 16 else 0 := by
  rw [Nat.shiftLeft_eq]
  unfold wrap
  split_ifs with hlt
  · omega
  · have hfull : (a.holes o).extent = 4096 := by omega
    norm_num [hfull]

theorem Tiled.copy_kept (h : Tiled start stop a l) {n k : Nat} {j : Slot}
    (hj : (a.holes j).flags = .used) (ho : (a.holes o).flags = .used)
    (hfit : Fits a (a.holes o).extent m) (hn : n ≤ (a.holes o).extent * 16) (hn' : n ≤ 65536)
    (hk : k < (a.holes j).extent * 16) :
    fmemcpy a.memory (a.holes m).pageBase 0 (a.holes o).pageBase 0 n
      ((a.holes j).pageBase * 16 + k) = a.byte j k := by
  have hm := h.mem_of_free hfit.2
  have hfits := hfit.1
  have hne : ∀ i, (a.holes i).flags = .used → m ≠ i := by
    rintro i hi rfl
    rw [hfit.2] at hi
    cases hi
  have hmo := h.disjoint hm (h.mem_of_used ho) (hne o ho)
  have hmj := h.disjoint hm (h.mem_of_used hj) (hne j hj)
  rw [fmemcpy_apart hn' (by omega), if_neg (by omega)]
  rfl

theorem Tiled.copy_new (h : Tiled start stop a l) {n k : Nat} (ho : (a.holes o).flags = .used)
    (hfit : Fits a (a.holes o).extent m) (hn : n ≤ (a.holes o).extent * 16) (hn' : n ≤ 65536) :
    fmemcpy a.memory (a.holes m).pageBase 0 (a.holes o).pageBase 0 n
      ((a.holes m).pageBase * 16 + k) =
        if k < n then a.byte o k else a.byte m k := by
  have hfits := hfit.1
  have hne : m ≠ o := by
    rintro rfl
    rw [hfit.2] at ho
    cases ho
  have hmo := h.disjoint (h.mem_of_free hfit.2) (h.mem_of_used ho) hne
  rw [fmemcpy_apart hn' (by omega)]
  by_cases hk : k < n
  · rw [if_pos (by omega), if_pos hk, Nat.add_sub_cancel_left]
    rfl
  · rw [if_neg (by omega), if_neg hk]
    rfl

theorem mmDup_duplicated (h : Layout start stop a l) (hstop : stop < 2 ^ 16)
    (ho : (a.holes o).flags = .used) (hext : (a.holes o).extent ≤ 4096)
    (hok : mmDup a (a.holes o).pageBase = .ok (a', some base))
    (hbest : bestFitHole a (a.holes o).extent = .ok (some m)) :
    Duplicated a a' o base ↔
      (a.holes o).extent < 4096 ∨ SameBytes a o a m := by
  obtain ⟨m', a₁, l₁, hbest', hfit, hlay, htaken, htext, rfl, rfl⟩ :=
    mmDup_eq h hstop ho hok
  rw [hbest] at hbest'
  cases hbest'
  obtain ⟨n, hn⟩ : ∃ n, n = wrap 16 ((a.holes o).extent <<< 4) := ⟨_, rfl⟩
  have hcount := hn.trans (dup_count hext)
  have hle : n ≤ (a.holes o).extent * 16 := by
    rw [hcount]
    split_ifs <;> omega
  have hle' : n ≤ 65536 := by omega
  rw [← hn]
  have hfind := (hlay.memory (fmemcpy a.memory (a.holes m).pageBase 0
    (a.holes o).pageBase 0 n)).toTiled.findHole_used htaken.flags
  simp only [htaken.pageBase] at hfind
  constructor
  · rintro ⟨i, hfind', _, _, _, _, hsame, _⟩
    have hi : i = m := by
      rw [hfind] at hfind'
      cases hfind'
      rfl
    subst hi
    by_cases hlt : (a.holes o).extent < 4096
    · exact Or.inl hlt
    · right
      intro k hk
      rw [if_neg hlt] at hcount
      have hbyte := hsame k hk
      simp only [Arena.byte, htaken.pageBase] at hbyte
      rw [h.toTiled.copy_new ho hfit hle hle', hcount, if_neg (by omega)] at hbyte
      exact hbyte
  · intro hcond
    refine ⟨m, hfind, by simp [hfit.2], htaken.flags, htext, htaken.refcount, ?_, ?_⟩
    · intro k hk
      simp only [Arena.byte, htaken.pageBase]
      rw [h.toTiled.copy_new ho hfit hle hle']
      by_cases hlt : k < n
      · rw [if_pos hlt]
        rfl
      · rw [if_neg hlt]
        rcases hcond with hsmall | hsame
        · rw [if_pos hsmall] at hcount
          omega
        · exact hsame k hk
    · intro i hi
      have him : i ≠ m := by
        rintro rfl
        rw [hfit.2] at hi
        cases hi
      have hkept := (htaken.others i him).2 hi
      refine ⟨hkept, fun k hk => ?_⟩
      simp only [Arena.byte, hkept]
      exact h.toTiled.copy_kept hi ho hfit hle hle' hk

/-- A successful copy of a segment of at most 4096 pages is right exactly if it has
fewer, or if the hole that is taken already held the bytes. -/
theorem mmDup_duplicated_iff
    (h : Layout start stop a l) (hstop : stop < 2 ^ 16)
    (ho : (a.holes o).flags = .used)
    (hext : (a.holes o).extent ≤ 4096)
    (hok : mmDup a (a.holes o).pageBase = .ok (a', some base)) :
    Duplicated a a' o base ↔ Copyable a o := by
  obtain ⟨m, _, _, hbest, _⟩ := mmDup_eq h hstop ho hok
  rw [mmDup_duplicated h hstop ho hext hok hbest]
  refine or_congr_right ⟨fun hsame m' hm' => ?_, fun hall => hall m hbest⟩
  rw [hbest] at hm'
  cases hm'
  exact hsame

end Dup

section Fork

/-- The descriptor after `firstHole`. -/
def secondHole : Slot := ⟨1, by decide⟩

/-- A segment of `n` pages in the first hole and a free hole of as many behind
it; the segment holds ones. -/
def forkArena (n : Nat) : Arena where
  holes := fun i =>
    if i = firstHole then
      { pageBase := 4096
        extent := n
        next := some secondHole
        refcount := 1
        flags := .used }
    else if i = secondHole then
      { pageBase := 4096 + n
        extent := n
        next := none
        refcount := 0
        flags := .free }
    else
      { pageBase := 0
        extent := 0
        next := none
        refcount := 0
        flags := .spare }
  memory := fun x => if x < (4096 + n) * 16 then 1 else 0

theorem layout_forkArena {n : Nat} (hn : 0 < n) :
    Layout 4096 (4096 + n + n) (forkArena n) [firstHole, secondHole] where
  links := by
    simp [Links, LinksTo, Arena.link, forkArena, firstHole, secondHole]
  tiles := by
    simp [Tiles, MallocHole.seg, forkArena, hn, firstHole, secondHole]
  onList := by
    simp [forkArena, firstHole, secondHole]
  offList := by
    intro i hi
    simp only [List.mem_cons, List.not_mem_nil, or_false, not_or] at hi
    simp [forkArena, hi.1, hi.2]
  apart := by
    simp [Apart, forkArena]

theorem mmDup_duplicated_two :
    ∃ a', mmDup (forkArena 2) 4096 = .ok (a', some 4098) ∧
      Duplicated (forkArena 2) a' firstHole 4098 :=
  ⟨_, rfl, (mmDup_duplicated_iff (layout_forkArena (by decide)) (by decide) rfl
    (by decide) rfl).mpr (Or.inl (by decide))⟩

/-- A segment of 4096 pages full of ones is duplicated into a segment that holds
none. -/
theorem mmDup_copies_nothing :
    Layout 4096 (4096 + 4096 + 4096) (forkArena 4096) [firstHole, secondHole] ∧
      ((forkArena 4096).holes firstHole).flags = .used ∧
      ((forkArena 4096).holes firstHole).extent = 4096 ∧
      ∃ a', mmDup (forkArena 4096) 4096 = .ok (a', some 8192) ∧
        ¬Duplicated (forkArena 4096) a' firstHole 8192 := by
  have hlay := layout_forkArena (n := 4096) (by decide)
  refine ⟨hlay, rfl, rfl, _, rfl, ?_⟩
  rw [mmDup_duplicated hlay (by decide) rfl (Nat.le_refl _) rfl
    (m := secondHole) rfl]
  rintro (hlt | hsame)
  · exact absurd hlt (by decide)
  · exact absurd (hsame 0 (by decide)) (by decide)

end Fork

end Mm
end Elks
