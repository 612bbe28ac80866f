import Elks.Mm.Calls

/-!
# mm_resize (arch/i86/mm/malloc.c, CONFIG_SWAP off)

`mm_resize` makes a used segment larger.  It takes what is missing from the
next hole, if that is free and large enough; with CONFIG_ADVANCED_MM it moves
the segment into a fresh one when the next hole does not do.

* `mmResize_shift`: taking a part of the next hole keeps a layout;
* `mmResize_exact`: taking all of it leaves a free hole off the list, since the
  statement that is to make the descriptor spare is a comparison;
* `mmResize_move`: moving the segment keeps a layout as well, if there is a
  hole to move to;
* `mmResize_sound_iff`: a call on a used segment is right exactly if
  `Resizable` holds before it.

Otherwise the call follows a null pointer: `next` when the segment is the last
hole, and what `find_hole` returns for base zero when `mm_alloc` has failed.
-/

namespace Elks
namespace Mm

open Lib

/-- `mm_resize`; `advanced` is CONFIG_ADVANCED_MM. -/
def mmResize (advanced : Bool) (a : Arena) (m : Slot) (pages : Nat) :
    Except Fault (Arena × Option Slot) :=
  if pages ≤ (a.holes m).extent then
    .ok (a, some m)
  else
    match (a.holes m).next with
    | none => .error .nullPointer
    | some next =>
        let ext := wrapSub 16 pages (a.holes m).extent
        if (a.holes next).flags = .free ∧ ext ≤ (a.holes next).extent then
          let a₁ := a.set m
            { a.holes m with extent := wrap 16 ((a.holes m).extent + ext) }
          let a₂ := a₁.set next
            { a₁.holes next with
              extent := wrapSub 16 (a₁.holes next).extent ext
              pageBase := wrap 16 ((a₁.holes next).pageBase + ext) }
          if (a₂.holes next).extent = 0 then
            -- `next->flags == HOLE_SPARE` stores nothing
            .ok (a₂.set m { a₂.holes m with next := (a₂.holes next).next },
              some m)
          else
            .ok (a₂, some m)
        else if advanced then do
          let (a₁, r) ← mmAlloc a pages
          let base := r.getD 0
          let a₂ :=
            { a₁ with
              memory := fmemcpy a₁.memory base 0 (a₁.holes m).pageBase 0
                (wrap 16 ((a₁.holes m).extent <<< 4)) }
          match ← findHole a₂ base with
          | none => .error .nullPointer
          | some n =>
              let a₃ := a₂.set n
                { a₂.holes n with refcount := (a₂.holes m).refcount }
              let a₄ ← sweepHoles (a₃.set m { a₃.holes m with flags := .free })
              .ok (a₄, some n)
        else
          .ok (a, none)

/-- Segment `m` is now in hole `n`, which is `m` itself or was free before, and
has at least `pages` pages; the other segments are as they were. -/
structure Resized (a a' : Arena) (m n : Slot) (pages : Nat) : Prop where
  used : (a'.holes n).flags = .used
  large : pages ≤ (a'.holes n).extent
  refcount : (a'.holes n).refcount = (a.holes m).refcount
  place : n = m ∧ (a'.holes m).pageBase = (a.holes m).pageBase ∨
    (a.holes n).flags = .free ∧ (a'.holes m).flags ≠ .used
  others : ∀ i, i ≠ m → i ≠ n →
    ((a'.holes i).flags = .used ↔ (a.holes i).flags = .used) ∧
    ((a.holes i).flags = .used → a'.holes i = a.holes i)

/-- What a call of `mm_resize` may come to: a layout with the segment resized,
an unchanged table, or the panic of a table without a spare descriptor. -/
def ResizeSound (start stop : Nat) (a : Arena) (m : Slot) (pages : Nat) :
    Except Fault (Arena × Option Slot) → Prop
  | .ok (a', some n) =>
      (∃ l, Layout start stop a' l) ∧ Resized a a' m n pages
  | .ok (a', none) => a' = a
  | .error f => f = tooManyHoles ∧ ∀ i, (a.holes i).flags ≠ .spare

/-- The next hole is free and has at least what `m` lacks. -/
def NextSuffices (a : Arena) (m : Slot) (pages : Nat) : Prop :=
  ∃ k, (a.holes m).next = some k ∧ (a.holes k).flags = .free ∧
    pages ≤ (a.holes m).extent + (a.holes k).extent

/-- The segment is large enough; or the next hole is free and has more than is
missing; or there is a next hole, it does not have what is missing, and, if the
segment is to be moved, there is a hole to move it to. -/
def Resizable (advanced : Bool) (a : Arena) (m : Slot) (pages : Nat) : Prop :=
  pages ≤ (a.holes m).extent ∨
    (∃ k, (a.holes m).next = some k ∧ (a.holes k).flags = .free ∧
      pages < (a.holes m).extent + (a.holes k).extent) ∨
    (a.holes m).next ≠ none ∧ ¬NextSuffices a m pages ∧
      (advanced = true → ∃ i, Fits a pages i)

section Resize

variable {start stop pages : Nat} {a a' : Arena} {l p q : List Slot}
variable {m k : Slot} (advanced : Bool)

theorem Tiled.mem_of_used (h : Tiled start stop a l) (hm : (a.holes m).flags = .used) : m ∈ l := by
  by_contra hoff
  rw [h.offList m hoff] at hm
  cases hm

theorem Tiled.next_cut (h : Tiled start stop a l) (hm : m ∈ l) (hk : (a.holes m).next = some k) :
    ∃ p q, l = p ++ m :: k :: q := by
  obtain ⟨p, q, rfl⟩ := List.append_of_mem hm
  obtain ⟨_, hq, _⟩ := h.cut
  cases q with
  | nil =>
      have hnone : (a.holes m).next = none := hq
      rw [hk] at hnone
      cases hnone
  | cons x q =>
      have hx : (a.holes m).next = some x := hq.1
      rw [hk] at hx
      cases hx
      exact ⟨p, q, rfl⟩

theorem Tiled.next_bounds (h : Tiled start stop a l) (hm : m ∈ l) (hk : (a.holes m).next = some k) :
    k ∈ l ∧ k ≠ m ∧ 0 < (a.holes k).extent ∧
      (a.holes k).pageBase = (a.holes m).pageBase + (a.holes m).extent ∧
      (a.holes k).pageBase + (a.holes k).extent ≤ stop := by
  obtain ⟨p, q, rfl⟩ := h.next_cut hm hk
  obtain ⟨_, _, _, _, htail⟩ := h.cut
  rw [List.map_cons] at htail
  obtain ⟨hbase, hpos, hrest⟩ := htail
  refine ⟨by simp, ?_, hpos, hbase, ?_⟩
  · rintro rfl
    exact h.cut_notMem.2 (by simp)
  · have hle := hrest.le
    simp only [MallocHole.seg] at hle hbase
    omega

/-- The border between hole `m` and its successor `k` moves upwards. -/
structure Shifted (a a' : Arena) (m k : Slot) (ext : Nat) : Prop where
  lt : ext < (a.holes k).extent
  same : ∀ i, i ≠ m → i ≠ k → a'.holes i = a.holes i
  grown : a'.holes m = { a.holes m with extent := (a.holes m).extent + ext }
  shrunk : a'.holes k = { a.holes k with
    extent := (a.holes k).extent - ext
    pageBase := (a.holes k).pageBase + ext }

theorem Tiled.shift (h : Tiled start stop a (p ++ m :: k :: q))
    {ext : Nat} (hshift : Shifted a a' m k ext) : Tiled start stop a' (p ++ m :: k :: q) := by
  obtain ⟨hext, hsame, hm, hk⟩ := hshift
  obtain ⟨hp, hkq, hpt, hpos, htail⟩ := h.cut
  obtain ⟨hmp, hmkq⟩ := h.cut_notMem
  have h' : Tiled start stop a ((p ++ [m]) ++ k :: q) := by
    simpa using h
  obtain ⟨hkpm, hkq'⟩ := h'.cut_notMem
  have hkp : k ∉ p := fun hk' => hkpm (List.mem_append_left _ hk')
  have hmq : m ∉ q := fun hm' => hmkq (List.mem_cons_of_mem _ hm')
  have hlink : a'.link = a.link := by
    funext i
    simp only [Arena.link]
    by_cases him : i = m
    · rw [him, hm]
    by_cases hik : i = k
    · rw [hik, hk]
    · rw [hsame i him hik]
  have hflags : ∀ i, (a'.holes i).flags = (a.holes i).flags := by
    intro i
    by_cases him : i = m
    · rw [him, hm]
    by_cases hik : i = k
    · rw [hik, hk]
    · rw [hsame i him hik]
  have hsp : ∀ i, i ∈ p → a'.holes i = a.holes i := fun i hi =>
    hsame i (fun e => hmp (e ▸ hi)) (fun e => hkp (e ▸ hi))
  have hsq : ∀ i, i ∈ q → a'.holes i = a.holes i := fun i hi =>
    hsame i (fun e => hmq (e ▸ hi)) (fun e => hkq' (e ▸ hi))
  refine ⟨by rw [hlink]; exact h.links, ?_, ?_, ?_⟩
  · rw [List.map_cons] at htail
    obtain ⟨hbase, _, hrest⟩ := htail
    simp only [MallocHole.seg] at hbase hrest
    rw [List.map_append, List.map_cons, List.map_cons, map_seg_of_same hsp,
      map_seg_of_same hsq, hm, hk]
    refine tiles_append.mpr ⟨_, hpt, rfl, ?_, ?_, ?_, ?_⟩
    · simp only [MallocHole.seg]
      omega
    · simp only [MallocHole.seg]
      omega
    · simp only [MallocHole.seg]
      omega
    · have he : (a.holes m).pageBase + ((a.holes m).extent + ext) +
            ((a.holes k).extent - ext) =
          (a.holes m).pageBase + (a.holes m).extent + (a.holes k).extent := by
        omega
      simp only [MallocHole.seg] at hrest ⊢
      rw [he]
      exact hrest
  · intro i hi
    rw [hflags]
    exact h.onList i hi
  · intro i hi
    rw [hflags]
    exact h.offList i hi

theorem Layout.shift (h : Layout start stop a (p ++ m :: k :: q))
    {ext : Nat} (hshift : Shifted a a' m k ext) : Layout start stop a' (p ++ m :: k :: q) := by
  refine ⟨h.toTiled.shift hshift, ?_⟩
  obtain ⟨_, hsame, hm, hk⟩ := hshift
  refine isChain_apart_mono ?_ h.apart
  intro i _ hi
  by_cases him : i = m
  · rwa [him, hm, ← him] at hi
  by_cases hik : i = k
  · rwa [hik, hk, ← hik] at hi
  · rwa [hsame i him hik] at hi

theorem mmResize_large (h : Layout start stop a l) (hm : (a.holes m).flags = .used)
    (hlarge : pages ≤ (a.holes m).extent) :
    ResizeSound start stop a m pages (mmResize advanced a m pages) := by
  rw [mmResize, if_pos hlarge]
  exact ⟨⟨l, h⟩, hm, hlarge, rfl, Or.inl ⟨rfl, rfl⟩,
    fun _ _ _ => ⟨Iff.rfl, fun _ => rfl⟩⟩

theorem mmResize_last (hsmall : ¬pages ≤ (a.holes m).extent) (hlast : (a.holes m).next = none) :
    mmResize advanced a m pages = .error .nullPointer := by
  rw [mmResize, if_neg hsmall]
  simp only [hlast]

theorem mmResize_grow (hpages : pages < 2 ^ 16) (hk : (a.holes m).next = some k) (hkm : k ≠ m)
    (hfree : (a.holes k).flags = .free) (hstop : (a.holes k).pageBase + (a.holes k).extent < 2 ^ 16)
    {ext : Nat} (hpos : 0 < ext) (hpage : pages = (a.holes m).extent + ext)
    (hext : ext ≤ (a.holes k).extent) :
    ∃ a', mmResize advanced a m pages = .ok (a', some m) ∧
      (∀ i, i ≠ m → i ≠ k → a'.holes i = a.holes i) ∧
      a'.holes m = { a.holes m with
        extent := (a.holes m).extent + ext
        next := if ext < (a.holes k).extent then some k else (a.holes k).next } ∧
      a'.holes k = { a.holes k with
        extent := (a.holes k).extent - ext
        pageBase := (a.holes k).pageBase + ext } := by
  have hsmall : ¬pages ≤ (a.holes m).extent := by omega
  have hsub : wrapSub 16 pages (a.holes m).extent = ext := by
    rw [wrapSub_of_le (by omega) hpages]
    omega
  have hgrown : wrap 16 ((a.holes m).extent + ext) =
      (a.holes m).extent + ext := wrap_of_lt (by omega)
  have hrest : wrapSub 16 (a.holes k).extent ext = (a.holes k).extent - ext :=
    wrapSub_of_le hext (by omega)
  have hmoved : wrap 16 ((a.holes k).pageBase + ext) =
      (a.holes k).pageBase + ext := wrap_of_lt (by omega)
  rw [mmResize, if_neg hsmall]
  simp only [hk, hsub, hfree, hext, and_self, if_true, Arena.set_same,
    Arena.set_ne _ _ hkm, hgrown, hrest, hmoved]
  by_cases hlt : ext < (a.holes k).extent
  · rw [if_neg (by omega), if_pos hlt]
    refine ⟨_, rfl, ?_, ?_, by simp⟩
    · intro i him hik
      rw [Arena.set_ne _ _ hik, Arena.set_ne _ _ him]
    · rw [Arena.set_ne _ _ (Ne.symm hkm), Arena.set_same]
  · rw [if_pos (by omega), if_neg hlt]
    refine ⟨_, rfl, ?_, ?_, ?_⟩
    · intro i him hik
      rw [Arena.set_ne _ _ him, Arena.set_ne _ _ hik, Arena.set_ne _ _ him]
    · rw [Arena.set_same, Arena.set_ne _ _ (Ne.symm hkm), Arena.set_same]
    · rw [Arena.set_ne _ _ hkm, Arena.set_same]

theorem mmResize_shift (h : Layout start stop a l) (hstop : stop < 2 ^ 16) (hpages : pages < 2 ^ 16)
    (hm : (a.holes m).flags = .used) (hk : (a.holes m).next = some k)
    (hfree : (a.holes k).flags = .free) (hsmall : ¬pages ≤ (a.holes m).extent)
    (hroom : pages < (a.holes m).extent + (a.holes k).extent) :
    ResizeSound start stop a m pages (mmResize advanced a m pages) := by
  obtain ⟨ext, hext⟩ : ∃ ext, pages = (a.holes m).extent + ext :=
    ⟨pages - (a.holes m).extent, by omega⟩
  have hmem := h.toTiled.mem_of_used hm
  obtain ⟨_, hkm, _, _, hle⟩ := h.toTiled.next_bounds hmem hk
  obtain ⟨a', hok, hsame, hself, hnext⟩ :=
    mmResize_grow advanced hpages hk hkm hfree (by omega) (by omega) hext (by omega)
  have hlt : ext < (a.holes k).extent := by omega
  have hself' : a'.holes m = { a.holes m with extent := (a.holes m).extent + ext } := by
    rw [hself, if_pos hlt, ← hk]
  obtain ⟨p, q, rfl⟩ := h.toTiled.next_cut hmem hk
  rw [hok]
  refine ⟨⟨_, h.shift ⟨hlt, hsame, hself', hnext⟩⟩, ?_⟩
  constructor
  · rw [hself']
    exact hm
  · rw [hself', hext]
  · rw [hself']
  · exact Or.inl ⟨rfl, by rw [hself']⟩
  · intro i him _
    by_cases hik : i = k
    · rw [hik, hnext, hfree]
      simp
    · rw [hsame i him hik]
      exact ⟨Iff.rfl, fun _ => rfl⟩

theorem mmResize_exact (h : Layout start stop a l) (hstop : stop < 2 ^ 16) (hpages : pages < 2 ^ 16)
    (hm : (a.holes m).flags = .used) (hk : (a.holes m).next = some k)
    (hfree : (a.holes k).flags = .free) (hexact : pages = (a.holes m).extent + (a.holes k).extent) :
    ¬ResizeSound start stop a m pages (mmResize advanced a m pages) := by
  obtain ⟨_, hkm, hpos, _, hle⟩ :=
    h.toTiled.next_bounds (h.toTiled.mem_of_used hm) hk
  obtain ⟨a', hok, _, _, hnext⟩ :=
    mmResize_grow advanced hpages hk hkm hfree (by omega) hpos hexact le_rfl
  rw [hok]
  rintro ⟨⟨l', hlay⟩, _⟩
  have hmem : k ∈ l' := hlay.toTiled.mem_of_free (by rw [hnext]; exact hfree)
  have hpos' := (hlay.tiles.mem_bounds (List.mem_map_of_mem hmem)).2.1
  simp [MallocHole.seg, hnext] at hpos'

theorem Layout.takeHole_extent
    (h : Layout start stop a l) (hstop : stop < 2 ^ 16) (hpages : 0 < pages)
    (hm : m ∈ l) (hfit : Fits a pages m) (hok : takeHole a m pages = .ok a') :
    (a'.holes m).extent = pages := by
  obtain ⟨p, q, rfl⟩ := List.append_of_mem hm
  rcases h.toTiled.takeHole_cases hstop hpages hfit with
    ⟨herr, _⟩ | ⟨a₁, hok₁, _, hext, _⟩
  · rw [herr] at hok
    cases hok
  · rw [hok₁] at hok
    cases hok
    exact hext

theorem Layout.memory (h : Layout start stop a l) (f : Nat → UInt8) :
    Layout start stop { a with memory := f } l :=
  ⟨⟨h.links, h.tiles, h.onList, h.offList⟩, h.apart⟩

theorem Tiled.no_spare (h : Tiled start stop a l) (hroom : ¬RoomToSplit a pages) (i : Slot) :
    (a.holes i).flags ≠ .spare := by
  intro hi
  refine hroom (Or.inl ?_)
  rw [← h.length_eq]
  have hoff : i ∉ l := fun hmem => h.onList i hmem hi
  have hlen : (i :: l).length ≤ Fintype.card Slot :=
    (List.nodup_cons.mpr ⟨hoff, h.links.nodup⟩).length_le_card
  rw [Fintype.card_fin, List.length_cons] at hlen
  omega

theorem Layout.hand_over (h : Layout start stop a l) (hstop : stop < 2 ^ 16)
    {n : Slot} (hn : n ∈ l) (hm : m ∈ l) (r : Nat) :
    ∃ a' l', sweepHoles
        ((a.set n { a.holes n with refcount := r }).set m
          { (a.set n { a.holes n with refcount := r }).holes m with
            flags := .free }) = .ok a' ∧
      Layout start stop a' l' ∧
      (a'.holes m).flags ≠ .used ∧
      (∀ i, i ≠ m →
        ((a'.holes i).flags = .used ↔ (a.holes i).flags = .used)) ∧
      (n ≠ m → (a.holes n).flags = .used →
        a'.holes n = { a.holes n with refcount := r }) ∧
      ∀ i, i ≠ m → i ≠ n → (a.holes i).flags = .used →
        a'.holes i = a.holes i := by
  have hcount : Tiled start stop
      (a.set n { a.holes n with refcount := r }) l :=
    h.toTiled.retag hn (fun i hi => Arena.set_ne _ _ hi)
      (by simp [MallocHole.seg]) (by simp) (by simpa using h.onList n hn)
  have hflags : ∀ i, ((a.set n { a.holes n with refcount := r }).holes i).flags =
      (a.holes i).flags := by
    intro i
    by_cases hi : i = n
    · rw [hi, Arena.set_same]
    · rw [Arena.set_ne _ _ hi]
  obtain ⟨b, hb⟩ : ∃ b, b = a.set n { a.holes n with refcount := r } := ⟨_, rfl⟩
  rw [← hb] at hcount hflags ⊢
  have hfreed : Tiled start stop
      (b.set m { b.holes m with flags := .free }) l :=
    hcount.retag hm (fun i hi => Arena.set_ne _ _ hi)
      (by simp [MallocHole.seg]) (by simp) (by simp)
  obtain ⟨a', l', hok, hlay, hkept⟩ := hfreed.sweepHoles_spec hstop
  have hothers : ∀ i, i ≠ m →
      ((a'.holes i).flags = .used ↔ (a.holes i).flags = .used) ∧
      ((a.holes i).flags = .used → a'.holes i = b.holes i) := by
    intro i hi
    have hk := hkept i
    rw [Arena.set_ne _ _ hi, hflags] at hk
    exact hk
  refine ⟨a', l', hok, hlay, ?_, fun i hi => (hothers i hi).1, ?_, ?_⟩
  · intro hu
    have hfree := (hkept m).1.mp hu
    simp at hfree
  · intro hnm hu
    rw [(hothers n hnm).2 hu, hb, Arena.set_same]
  · intro i him hin hu
    rw [(hothers i him).2 hu, hb, Arena.set_ne _ _ hin]

theorem next_refused (hpages : pages < 2 ^ 16) (hsmall : ¬pages ≤ (a.holes m).extent)
    (hk : (a.holes m).next = some k) (hnext : ¬NextSuffices a m pages) :
    ¬((a.holes k).flags = .free ∧
      wrapSub 16 pages (a.holes m).extent ≤ (a.holes k).extent) := by
  rw [wrapSub_of_le (by omega) hpages]
  rintro ⟨hfree, hle⟩
  exact hnext ⟨k, hk, hfree, by omega⟩

/-- Without CONFIG_ADVANCED_MM the call then returns `NULL`. -/
theorem mmResize_refused (hpages : pages < 2 ^ 16) (hsmall : ¬pages ≤ (a.holes m).extent)
    (hk : (a.holes m).next = some k) (hnext : ¬NextSuffices a m pages) :
    ResizeSound start stop a m pages (mmResize false a m pages) := by
  rw [mmResize, if_neg hsmall]
  simp only [hk, if_neg (next_refused hpages hsmall hk hnext),
    Bool.false_eq_true, if_false]
  rfl

theorem mmResize_stuck (h : Layout start stop a l) (hstop : stop < 2 ^ 16) (hpages : pages < 2 ^ 16)
    (hm : (a.holes m).flags = .used) (hsmall : ¬pages ≤ (a.holes m).extent)
    (hk : (a.holes m).next = some k) (hnext : ¬NextSuffices a m pages)
    (hfit : ¬∃ i, Fits a pages i) :
    ¬ResizeSound start stop a m pages (mmResize true a m pages) := by
  have hcond := next_refused hpages hsmall hk hnext
  have hnone : bestFitHole a pages = .ok none := by
    rcases h.toTiled.bestFitHole_spec pages with ⟨hnone, _⟩ | ⟨i, _, _, hi, _⟩
    · exact hnone
    · exact absurd ⟨i, hi⟩ hfit
  rw [mmResize, if_neg hsmall]
  simp only [hk, if_neg hcond, if_true, mmAlloc, hnone, bind, Except.bind,
    Option.getD_none]
  have hlay := h.memory (fmemcpy a.memory 0 0 (a.holes m).pageBase 0
    (wrap 16 ((a.holes m).extent <<< 4)))
  rw [hlay.toTiled.findHole_eq]
  cases hf : l.find? (fun i => (a.holes i).pageBase = 0) with
  | none =>
      rintro ⟨hfault, _⟩
      cases hfault
  | some n =>
      have hn : n ∈ l := List.mem_of_find?_eq_some hf
      obtain ⟨a', l', hok, _, hgone, hflags, _⟩ :=
        hlay.hand_over hstop hn (h.toTiled.mem_of_used hm) (a.holes m).refcount
      simp only [hok]
      rintro ⟨_, hres⟩
      rcases eq_or_ne n m with rfl | hnm
      · exact hgone hres.used
      · have hu := (hflags n hnm).mp hres.used
        rcases hres.place with ⟨hnm', _⟩ | ⟨hfree, _⟩
        · exact hnm hnm'
        · rw [hfree] at hu
          cases hu

theorem mmResize_move (h : Layout start stop a l) (hstop : stop < 2 ^ 16) (hpages : pages < 2 ^ 16)
    (hm : (a.holes m).flags = .used) (hsmall : ¬pages ≤ (a.holes m).extent)
    (hk : (a.holes m).next = some k) (hnext : ¬NextSuffices a m pages)
    (hfit : ∃ i, Fits a pages i) : ResizeSound start stop a m pages (mmResize true a m pages) := by
  have hcond := next_refused hpages hsmall hk hnext
  have hpos : 0 < pages := by omega
  rw [mmResize, if_neg hsmall]
  simp only [hk, if_neg hcond, if_true, mmAlloc]
  obtain ⟨i, hi⟩ := hfit
  have hsome : ∃ n, bestFitHole a pages = .ok (some n) ∧ n ∈ l ∧
      Fits a pages n := by
    rcases h.toTiled.bestFitHole_spec pages with ⟨_, hall⟩ | ⟨n, hn, hmem, hf, _⟩
    · exact absurd hi (hall i)
    · exact ⟨n, hn, hmem, hf⟩
  obtain ⟨n, hbest, hnl, hnfit⟩ := hsome
  have hnm : n ≠ m := by
    rintro rfl
    have hfree := hnfit.2
    rw [hm] at hfree
    cases hfree
  rcases h.take_bestFit hstop hpos with ⟨hnone, _⟩ | ⟨n', hbest', _, htake⟩
  · rw [hbest] at hnone
    cases hnone
  rw [hbest] at hbest'
  cases hbest'
  rcases htake with ⟨herr, hroom⟩ | ⟨a₁, l₁, hok, _, hlay, htaken⟩
  · simp only [hbest, herr, bind, Except.bind]
    exact ⟨rfl, h.toTiled.no_spare hroom⟩
  · simp only [hbest, hok, bind, Except.bind, Option.getD_some]
    have hlay' := hlay.memory (fmemcpy a₁.memory (a₁.holes n).pageBase 0
      (a₁.holes m).pageBase 0 (wrap 16 ((a₁.holes m).extent <<< 4)))
    have hmkept := htaken.others m (Ne.symm hnm)
    have hm₁ : (a₁.holes m).flags = .used := hmkept.1.mpr hm
    have hfind := hlay'.toTiled.findHole_used htaken.flags
    simp only at hfind
    simp only [hfind]
    obtain ⟨a', l', hsweep, hlast, hgone, hflags, hnew, hothers⟩ :=
      hlay'.hand_over hstop (hlay.toTiled.mem_of_used htaken.flags)
        (hlay.toTiled.mem_of_used hm₁) (a₁.holes m).refcount
    have hnew' := hnew hnm htaken.flags
    simp only [hsweep]
    refine ⟨⟨l', hlast⟩, ?_⟩
    constructor
    · rw [hnew']
      exact htaken.flags
    · rw [hnew']
      exact (h.takeHole_extent hstop hpos hnl hnfit hok).ge
    · rw [hnew', hmkept.2 hm]
    · exact Or.inr ⟨hnfit.2, hgone⟩
    · intro j hjm hjn
      have hj := htaken.others j hjn
      refine ⟨(hflags j hjm).trans hj.1, ?_⟩
      intro hu
      rw [hothers j hjm hjn (hj.1.mpr hu)]
      exact hj.2 hu

/-- A call on a used segment is sound exactly if the segment is large enough,
or the next hole can give what is missing and keep something, or it cannot give
it and the table need not be changed in place. -/
theorem mmResize_sound_iff
    (h : Layout start stop a l) (hstop : stop < 2 ^ 16)
    (hpages : pages < 2 ^ 16)
    (hm : (a.holes m).flags = .used) :
    ResizeSound start stop a m pages (mmResize advanced a m pages) ↔
      Resizable advanced a m pages := by
  by_cases hlarge : pages ≤ (a.holes m).extent
  · exact iff_of_true (mmResize_large advanced h hm hlarge) (Or.inl hlarge)
  cases hk : (a.holes m).next with
  | none =>
      rw [mmResize_last advanced hlarge hk]
      refine iff_of_false ?_ ?_
      · rintro ⟨hfault, _⟩
        cases hfault
      · rintro (hl | ⟨k, hk', _⟩ | ⟨hne, _⟩)
        · exact hlarge hl
        · rw [hk] at hk'
          cases hk'
        · exact hne hk
  | some k =>
      by_cases hnext : NextSuffices a m pages
      · obtain ⟨k', hk', hfree, hle⟩ := hnext
        rw [hk] at hk'
        cases hk'
        rcases Nat.lt_or_eq_of_le hle with hlt | heq
        · exact iff_of_true
            (mmResize_shift advanced h hstop hpages hm hk hfree hlarge hlt)
            (Or.inr (Or.inl ⟨k, hk, hfree, hlt⟩))
        · refine iff_of_false
            (mmResize_exact advanced h hstop hpages hm hk hfree heq) ?_
          rintro (hl | ⟨k', hk', _, hlt⟩ | ⟨_, hno, _⟩)
          · exact hlarge hl
          · rw [hk] at hk'
            cases hk'
            omega
          · exact hno ⟨k, hk, hfree, hle⟩
      · have hres : Resizable advanced a m pages ↔
            (advanced = true → ∃ i, Fits a pages i) := by
          constructor
          · rintro (hl | ⟨k', hk', hfree, hlt⟩ | ⟨_, _, hfit⟩)
            · exact absurd hl hlarge
            · exact absurd ⟨k', hk', hfree, by omega⟩ hnext
            · exact hfit
          · intro hfit
            exact Or.inr (Or.inr ⟨by simp [hk], hnext, hfit⟩)
        rw [hres]
        cases advanced with
        | false =>
            exact iff_of_true (mmResize_refused hpages hlarge hk hnext) (by simp)
        | true =>
            by_cases hfit : ∃ i, Fits a pages i
            · exact iff_of_true
                (mmResize_move h hstop hpages hm hlarge hk hnext hfit)
                fun _ => hfit
            · exact iff_of_false
                (mmResize_stuck h hstop hpages hm hlarge hk hnext hfit)
                fun himp => hfit (himp rfl)

end Resize

section Pair

/-- A segment of ten pages in the first hole, and hole `k` of kind `f` with `n`
pages behind it. -/
def pairArena (k : Slot) (n : Nat) (f : HoleFlags) : Arena where
  holes := fun i =>
    if i = firstHole then
      { pageBase := 4096
        extent := 10
        next := some k
        refcount := 1
        flags := .used }
    else if i = k then
      { pageBase := 4106
        extent := n
        next := none
        refcount := 1
        flags := f }
    else
      { pageBase := 0
        extent := 0
        next := none
        refcount := 0
        flags := .spare }
  memory := fun _ => 0

theorem layout_pairArena {k : Slot} {n : Nat} {f : HoleFlags}
    (hk : k ≠ firstHole) (hn : 0 < n) (hf : f ≠ .spare) :
    Layout 4096 (4106 + n) (pairArena k n f) [firstHole, k] where
  links := by
    simp [Links, LinksTo, Arena.link, pairArena, hk]
  tiles := by
    simp [Tiles, MallocHole.seg, pairArena, hk, hn]
  onList := by
    simp [pairArena, hk, hf]
  offList := by
    intro i hi
    simp only [List.mem_cons, List.not_mem_nil, or_false, not_or] at hi
    simp [pairArena, hi.1, hi.2]
  apart := by
    simp [Apart, pairArena]

theorem mmResize_sound_pair :
    ResizeSound 4096 (4106 + 100) (pairArena ⟨1, by decide⟩ 100 .free) firstHole
      60 (mmResize true (pairArena ⟨1, by decide⟩ 100 .free) firstHole 60) :=
  (mmResize_sound_iff true
    (layout_pairArena (by decide) (by decide) (by decide))
    (by decide) (by decide) rfl).mpr
    (Or.inr (Or.inl ⟨⟨1, by decide⟩, rfl, rfl, by decide⟩))

/-- A segment of ten pages cannot take the fifty pages behind it without losing
their descriptor, and the last segment of the arena cannot grow at all: it has
no `next` to look at. -/
theorem mmResize_loses_hole :
    (Layout 4096 (4106 + 50) (pairArena ⟨1, by decide⟩ 50 .free)
        [firstHole, ⟨1, by decide⟩] ∧
      ((pairArena ⟨1, by decide⟩ 50 .free).holes firstHole).flags = .used ∧
      ¬ResizeSound 4096 (4106 + 50) (pairArena ⟨1, by decide⟩ 50 .free)
        firstHole 60
        (mmResize false (pairArena ⟨1, by decide⟩ 50 .free) firstHole 60)) ∧
    Layout 4096 (4106 + 50) (pairArena ⟨1, by decide⟩ 50 .used)
        [firstHole, ⟨1, by decide⟩] ∧
      ((pairArena ⟨1, by decide⟩ 50 .used).holes ⟨1, by decide⟩).flags = .used ∧
      mmResize false (pairArena ⟨1, by decide⟩ 50 .used) ⟨1, by decide⟩ 51 =
        .error .nullPointer := by
  have hfree := layout_pairArena (k := ⟨1, by decide⟩) (n := 50) (f := .free)
    (by decide) (by decide) (by decide)
  have hused := layout_pairArena (k := ⟨1, by decide⟩) (n := 50) (f := .used)
    (by decide) (by decide) (by decide)
  refine ⟨⟨hfree, rfl, ?_⟩, hused, rfl, rfl⟩
  exact mmResize_exact false hfree (by decide) (by decide) rfl rfl rfl rfl

end Pair

end Mm
end Elks
