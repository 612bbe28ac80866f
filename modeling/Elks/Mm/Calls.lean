import Elks.Mm.Layout
import Mathlib.Algebra.BigOperators.Fin

/-!
# What the allocator's entry points do to a layout

From the layout facts for the single rewrites this module derives one
specification for each entry point.  A call on live segments either runs out
of descriptors, which happens exactly when `RoomToSplit` fails, or it returns
with a layout again and with the contents of every other used descriptor kept.
-/

namespace Elks
namespace Mm

open Lib

section Taking

variable {start stop pages : Nat} {a a' : Arena} {l p q : List Slot} {m n : Slot}

theorem isChain_apart_mono
    (hfree : ∀ i, i ∈ l →
      (a'.holes i).flags = .free → (a.holes i).flags = .free)
    (h : l.IsChain (Apart a)) :
    l.IsChain (Apart a') := by
  refine List.IsChain.imp_of_mem_imp ?_ h
  intro i j hi hj hij hboth
  exact hij ⟨hfree i hi hboth.1, hfree j hj hboth.2⟩

theorem allocHole_congr (hflags : ∀ i, (a'.holes i).flags = (a.holes i).flags) :
    allocHole a' = allocHole a := by
  unfold allocHole
  simp only [hflags]

theorem allocHole_shrunk (a : Arena) (m : Slot) (pages : Nat) :
    allocHole (a.set m { a.holes m with extent := pages }) = allocHole a := by
  refine allocHole_congr ?_
  intro i
  by_cases hi : i = m
  · subst hi
    simp
  · rw [Arena.set_ne _ _ hi]

/-- Hole `m` has been taken, with a first reference, and nothing else. -/
structure Taken (a a' : Arena) (m : Slot) : Prop where
  flags : (a'.holes m).flags = .used
  refcount : (a'.holes m).refcount = 1
  pageBase : (a'.holes m).pageBase = (a.holes m).pageBase
  others : OthersKept a a' m

theorem takeHole_split (hlt : pages < (a.holes m).extent) (hext : (a.holes m).extent < 2 ^ 16)
    (hn : allocHole a = .ok n) (hnm : n ≠ m) :
    ∃ a', takeHole a m pages = .ok a' ∧
      (∀ i, i ≠ m → i ≠ n → a'.holes i = a.holes i) ∧
      a'.holes m =
        { a.holes m with
          extent := pages, next := some n, flags := .used, refcount := 1 } ∧
      a'.holes n =
        { a.holes n with
          pageBase := wrap 16 ((a.holes m).pageBase + pages)
          extent := (a.holes m).extent - pages
          next := (a.holes m).next
          flags := .free } := by
  have hspare : wrapSub 16 (a.holes m).extent pages =
      (a.holes m).extent - pages :=
    wrapSub_of_le (by omega) hext
  have hne : ¬ ((a.holes m).extent - pages = 0) := by omega
  unfold takeHole splitHole
  simp only [hspare, if_neg hne, allocHole_shrunk, hn, bind, Except.bind]
  refine ⟨_, rfl, ?_, ?_, ?_⟩
  · intro i him hin
    simp [Arena.set, him, hin]
  · simp [Arena.set, hnm, Ne.symm hnm]
  · simp [Arena.set, hnm]

theorem Tiled.takeHole_cases (h : Tiled start stop a (p ++ m :: q)) (hstop : stop < 2 ^ 16)
    (hpages : 0 < pages) (hfit : Fits a pages m) :
    (takeHole a m pages = .error (.panic "mm: too many holes") ∧
      pages < (a.holes m).extent ∧ (p ++ m :: q).length = maxSegments) ∨
    ∃ a', takeHole a m pages = .ok a' ∧ Taken a a' m ∧
      (a'.holes m).extent = pages ∧
      ((a.holes m).extent = pages ∧ Tiled start stop a' (p ++ m :: q) ∧
          (∀ i, (a'.holes i).flags = .free → (a.holes i).flags = .free) ∨
        (p ++ m :: q).length < maxSegments ∧ ∃ n, n ∉ p ++ m :: q ∧
          Tiled start stop a' (p ++ m :: n :: q) ∧
          ∀ i, i ≠ n → (a'.holes i).flags = .free → (a.holes i).flags = .free) := by
  obtain ⟨_, _, _, _, hqt⟩ := h.cut
  have hbound := hqt.le
  rcases Nat.eq_or_lt_of_le hfit.1 with heq | hlt
  · right
    have hspare : wrapSub 16 (a.holes m).extent pages = 0 := by
      rw [wrapSub_of_le (by omega) (by omega)]
      omega
    refine ⟨a.set m { a.holes m with flags := .used, refcount := 1 }, ?_,
      ⟨?_, ?_, ?_, ?_⟩, ?_, Or.inl ⟨heq.symm, ?_, ?_⟩⟩
    · unfold takeHole splitHole
      simp only [hspare, if_true, bind, Except.bind]
    · simp
    · simp
    · simp
    · intro i hi
      rw [Arena.set_ne _ _ hi]
      exact ⟨Iff.rfl, fun _ => rfl⟩
    · simpa using heq.symm
    · refine h.retag (by simp) (fun i hi => Arena.set_ne _ _ hi) ?_ ?_ ?_
      · simp [MallocHole.seg]
      · simp
      · simp
    · intro i hi
      by_cases him : i = m
      · subst him
        simp at hi
      · rwa [Arena.set_ne _ _ him] at hi
  · rcases h.allocHole_spec with ⟨n, hoff, halloc, hlen⟩ | ⟨herr, hlen⟩
    · right
      have hnm : n ≠ m := by
        rintro rfl
        exact hoff (by simp)
      obtain ⟨a', hok, hsame, hself, hnew⟩ :=
        takeHole_split hlt (by omega) halloc hnm
      have hwrap : wrap 16 ((a.holes m).pageBase + pages) =
          (a.holes m).pageBase + pages :=
        wrap_of_lt (by omega)
      rw [hwrap] at hnew
      refine ⟨a', hok, ⟨?_, ?_, ?_, ?_⟩, ?_, Or.inr ⟨hlen, n, hoff, ?_, ?_⟩⟩
      · rw [hself]
      · rw [hself]
      · rw [hself]
      · intro i him
        by_cases hin : i = n
        · have hspare : (a.holes n).flags = .spare := h.offList n hoff
          rw [hin, hnew, hspare]
          simp
        · rw [hsame i him hin]
          exact ⟨Iff.rfl, fun _ => rfl⟩
      · rw [hself]
      · refine h.split hoff hpages hlt hsame ?_ ?_ ?_ ?_ ?_ ?_
        · rw [hself]
          rfl
        · rw [hself]
        · rw [hself]
          simp
        · rw [hnew]
          rfl
        · rw [hnew]
        · rw [hnew]
          simp
      · intro i hin hi
        by_cases him : i = m
        · rw [him, hself] at hi
          cases hi
        · rwa [hsame i him hin] at hi
    · left
      refine ⟨?_, hlt, hlen⟩
      have hspare : wrapSub 16 (a.holes m).extent pages =
          (a.holes m).extent - pages :=
        wrapSub_of_le (by omega) (by omega)
      have hne : ¬ ((a.holes m).extent - pages = 0) := by omega
      unfold takeHole splitHole
      simp only [hspare, if_neg hne, allocHole_shrunk, herr, bind, Except.bind]

theorem Layout.takeHole_spec (h : Layout start stop a l) (hstop : stop < 2 ^ 16)
    (hpages : 0 < pages) (hm : m ∈ l) (hfit : Fits a pages m) :
    (takeHole a m pages = .error (.panic "mm: too many holes") ∧
      pages < (a.holes m).extent ∧ l.length = maxSegments) ∨
    (∃ a' l', takeHole a m pages = .ok a' ∧
      ((a.holes m).extent = pages ∨ l.length < maxSegments) ∧
      Layout start stop a' l' ∧ Taken a a' m) := by
  obtain ⟨p, q, rfl⟩ := List.append_of_mem hm
  rcases h.toTiled.takeHole_cases hstop hpages hfit with
    herr | ⟨a', hok, htaken, _, ⟨hexact, htiled, hfree⟩ | ⟨hlen, n, hoff, htiled, hfree⟩⟩
  · exact Or.inl herr
  · exact Or.inr ⟨a', _, hok, Or.inl hexact,
      ⟨htiled, isChain_apart_mono (fun i _ => hfree i) h.apart⟩, htaken⟩
  · refine Or.inr ⟨a', _, hok, Or.inr hlen, ⟨htiled, ?_⟩, htaken⟩
    obtain ⟨hpm, hmq⟩ := List.isChain_split.mp h.apart
    simp only [List.mem_append, List.mem_cons, not_or] at hoff
    obtain ⟨hnp, hnm, hnq⟩ := hoff
    refine List.isChain_append_cons_cons.mpr ⟨?_, ?_, ?_⟩
    · refine isChain_apart_mono (fun i hi => hfree i ?_) hpm
      rintro rfl
      rcases List.mem_append.mp hi with hi | hi
      · exact hnp hi
      · exact hnm (List.mem_singleton.mp hi)
    · rintro ⟨hmf, _⟩
      rw [htaken.flags] at hmf
      cases hmf
    · cases q with
      | nil => exact List.isChain_singleton n
      | cons x q =>
          obtain ⟨hmx, hxq⟩ := List.isChain_cons_cons.mp hmq
          refine List.isChain_cons_cons.mpr ⟨?_, ?_⟩
          · rintro ⟨_, hx⟩
            refine hmx ⟨hfit.2, hfree x ?_ hx⟩
            rintro rfl
            exact hnq (by simp)
          · refine isChain_apart_mono (fun i hi => hfree i ?_) hxq
            rintro rfl
            exact hnq hi

end Taking

section Sweeping

variable {start stop : Nat} {a : Arena}

/-- Used descriptors are exactly kept. -/
def UsedKept (a a' : Arena) : Prop :=
  ∀ i, ((a'.holes i).flags = .used ↔ (a.holes i).flags = .used) ∧
    ((a.holes i).flags = .used → a'.holes i = a.holes i)

theorem UsedKept.trans {a b c : Arena} (hab : UsedKept a b) (hbc : UsedKept b c) :
    UsedKept a c := by
  intro i
  refine ⟨(hbc i).1.trans (hab i).1, ?_⟩
  intro hi
  rw [(hbc i).2 ((hab i).1.mpr hi), (hab i).2 hi]

theorem usedKept_mergeHoles {m k : Slot} (hkm : k ≠ m)
    (hm : (a.holes m).flags = .free) (hk : (a.holes k).flags = .free) :
    UsedKept a (mergeHoles a m k) := by
  intro i
  by_cases him : i = m
  · rw [him, mergeHoles_self hkm, hm]
    simp
  by_cases hik : i = k
  · rw [hik, mergeHoles_swallowed hkm, hk]
    simp
  · rw [mergeHoles_other him hik]
    exact ⟨Iff.rfl, fun _ => rfl⟩

theorem sweepFrom_spec (hstop : stop < 2 ^ 16) {q : List Slot} :
    ∀ {p : List Slot} {m : Slot} {a : Arena} {fuel : Nat},
      Tiled start stop a (p ++ m :: q) →
      (p ++ [m]).IsChain (Apart a) →
      q.length ≤ fuel →
      ∃ a' l', sweepFrom fuel a (some m) = .ok a' ∧
        Layout start stop a' l' ∧ UsedKept a a' := by
  induction q with
  | nil =>
      intro p m a fuel ht hch _
      obtain ⟨_, hend, _, _, _⟩ := ht.cut
      have hnext : (a.holes m).next = none := hend
      refine ⟨a, p ++ [m], ?_, ⟨ht, hch⟩, fun i => ⟨Iff.rfl, fun _ => rfl⟩⟩
      exact sweepFrom.eq_2 a m fuel hnext
  | cons k q ih =>
      intro p m a fuel ht hch hfuel
      obtain ⟨_, ⟨hnext, _⟩, _, _, htail⟩ := ht.cut
      have hnext' : (a.holes m).next = some k := hnext
      have hkm : k ≠ m := by
        rintro rfl
        exact ht.cut_notMem.2 (by simp)
      cases fuel with
      | zero =>
          simp at hfuel
      | succ fuel =>
          have hlen : q.length ≤ fuel := by
            simpa using hfuel
          have hadj : wrap 16 ((a.holes m).pageBase + (a.holes m).extent) =
              (a.holes k).pageBase := by
            rw [List.map_cons] at htail
            obtain ⟨hbase, hpos, hrest⟩ := htail
            have hle := hrest.le
            simp only [MallocHole.seg] at hbase hpos hle
            rw [hbase]
            exact wrap_of_lt (by omega)
          by_cases hfree : (a.holes m).flags = .free ∧
              (a.holes k).flags = .free
          · have hstep : sweepFrom (fuel + 1) a (some m) =
                sweepFrom fuel (mergeHoles a m k) (some m) := by
              rw [sweepFrom.eq_4 a m k fuel hnext']
              exact if_pos ⟨hfree.1, hfree.2, hadj⟩
            have hch' : (p ++ [m]).IsChain (Apart (mergeHoles a m k)) := by
              refine isChain_apart_mono ?_ hch
              intro i _ hi
              by_cases him : i = m
              · rw [him]
                exact hfree.1
              by_cases hik : i = k
              · rw [hik]
                exact hfree.2
              · rwa [mergeHoles_other him hik] at hi
            obtain ⟨a', l', hok, hlay, hkept⟩ :=
              ih (ht.merge hstop) hch' hlen
            exact ⟨a', l', hstep.trans hok, hlay,
              (usedKept_mergeHoles hkm hfree.1 hfree.2).trans hkept⟩
          · have hstep : sweepFrom (fuel + 1) a (some m) =
                sweepFrom fuel a (some k) := by
              rw [sweepFrom.eq_4 a m k fuel hnext']
              refine if_neg ?_
              rintro ⟨hm, hk, _⟩
              exact hfree ⟨hm, hk⟩
            have ht' : Tiled start stop a ((p ++ [m]) ++ k :: q) := by
              simpa using ht
            have hch' : ((p ++ [m]) ++ [k]).IsChain (Apart a) := by
              rw [List.append_assoc]
              exact List.isChain_append_cons_cons.mpr
                ⟨hch, hfree, List.isChain_singleton k⟩
            obtain ⟨a', l', hok, hlay, hkept⟩ := ih ht' hch' hlen
            exact ⟨a', l', hstep.trans hok, hlay, hkept⟩

theorem Tiled.sweepHoles_spec {l : List Slot} (ht : Tiled start stop a l) (hstop : stop < 2 ^ 16) :
    ∃ a' l', sweepHoles a = .ok a' ∧ Layout start stop a' l' ∧
      UsedKept a a' := by
  have hlen := ht.length_le
  cases l with
  | nil =>
      have hend := ht.links
      cases hend
  | cons m q =>
      obtain ⟨hm, _⟩ := ht.links
      have hm' : firstHole = m := Option.some.inj hm
      subst hm'
      refine sweepFrom_spec hstop (p := []) ht
        (List.isChain_singleton _) ?_
      simp only [List.length_cons] at hlen
      omega

end Sweeping

section Entries

variable {m : Slot}

/-- `base` heads a segment in use. -/
def Live (a : Arena) (base : Nat) : Prop :=
  ∃ i, (a.holes i).flags = .used ∧ (a.holes i).pageBase = base

instance (a : Arena) (base : Nat) : Decidable (Live a base) :=
  inferInstanceAs (Decidable (∃ _, _))

theorem OthersKept.live {a a' : Arena} {base : Nat} (h : OthersKept a a' m)
    (hm : (a.holes m).pageBase ≠ base) (hbase : Live a base) : Live a' base := by
  obtain ⟨i, hi, rfl⟩ := hbase
  have him : i ≠ m := by
    rintro rfl
    exact hm rfl
  exact ⟨i, (h i him).1.mpr hi, by rw [(h i him).2 hi]⟩

/-- Number of segments in use. -/
def inUse (a : Arena) : Nat :=
  (Finset.univ.filter fun i => (a.holes i).flags = .used).card

/-- Number of free extents between them. -/
def gaps (a : Arena) : Nat :=
  (Finset.univ.filter fun i => (a.holes i).flags = .free).card

/-- Taking `pages` pages needs no descriptor beyond the table: segments and
gaps together are fewer than the table, or some gap fits exactly, or none fits
at all. -/
def RoomToSplit (a : Arena) (pages : Nat) : Prop :=
  inUse a + gaps a < maxSegments ∨
  (∃ i, (a.holes i).flags = .free ∧ (a.holes i).extent = pages) ∨
  ∀ i, (a.holes i).flags = .free → (a.holes i).extent < pages

instance (a : Arena) (pages : Nat) : Decidable (RoomToSplit a pages) :=
  inferInstanceAs (Decidable (_ ∨ _ ∨ _))

namespace MmCall

/-- The call asks for at least one page, or is made on a live segment. -/
def OnLive (a : Arena) : MmCall → Prop
  | alloc pages => 1 ≤ pages
  | realloc base => Live a base
  | dup base => Live a base
  | free base => Live a base

instance (a : Arena) : DecidablePred (OnLive a)
  | alloc pages => inferInstanceAs (Decidable (1 ≤ pages))
  | realloc base => inferInstanceAs (Decidable (Live a base))
  | dup base => inferInstanceAs (Decidable (Live a base))
  | free base => inferInstanceAs (Decidable (Live a base))

/-- The call finds room to split, where it has to. -/
def Roomy (a : Arena) : MmCall → Prop
  | alloc pages => RoomToSplit a pages
  | dup base =>
      ∀ i, (a.holes i).flags = .used → (a.holes i).pageBase = base →
        RoomToSplit a (a.holes i).extent
  | realloc _ => True
  | free _ => True

/-- What a call that returned `r` did to the segments in use. -/
def Effect (a a' : Arena) (r : Option Nat) : MmCall → Prop
  | alloc _ =>
      (r = none ∧ a' = a) ∨
      (r.isSome ∧ ∃ m, (a.holes m).flags = .free ∧ Taken a a' m)
  | dup _ =>
      (r = none ∧ a' = a) ∨
      (r.isSome ∧ ∃ m, (a.holes m).flags = .free ∧ Taken a a' m)
  | realloc base =>
      r.isSome ∧ ∃ m, (a.holes m).flags = .used ∧
        (a.holes m).pageBase = base ∧ OthersKept a a' m ∧
        (a'.holes m).flags = .used ∧
        (a'.holes m).refcount = wrap 8 ((a.holes m).refcount + 1)
  | free base =>
      ∃ m, (a.holes m).flags = .used ∧
        (a.holes m).pageBase = base ∧ OthersKept a a' m ∧
        if wrapSub 8 (a.holes m).refcount 1 = 0 then
          (a'.holes m).flags ≠ .used
        else
          (a'.holes m).flags = .used ∧
          (a'.holes m).refcount = wrapSub 8 (a.holes m).refcount 1

end MmCall

variable {start stop : Nat} {a : Arena} {l : List Slot}

theorem Tiled.length_eq (h : Tiled start stop a l) : l.length = inUse a + gaps a := by
  have hcard : l.toFinset.card = l.length :=
    List.toFinset_card_of_nodup h.links.nodup
  have hunion : l.toFinset =
      (Finset.univ.filter fun i => (a.holes i).flags = .used) ∪
      (Finset.univ.filter fun i => (a.holes i).flags = .free) := by
    ext i
    simp only [List.mem_toFinset, Finset.mem_union, Finset.mem_filter,
      Finset.mem_univ, true_and]
    constructor
    · intro hi
      have hne := h.onList i hi
      cases hf : (a.holes i).flags with
      | used => exact Or.inl rfl
      | free => exact Or.inr rfl
      | spare => exact absurd hf hne
    · intro hi
      by_contra hoff
      have hs := h.offList i hoff
      rw [hs] at hi
      rcases hi with hi | hi <;> cases hi
  have hdisj : Disjoint
      (Finset.univ.filter fun i => (a.holes i).flags = .used)
      (Finset.univ.filter fun i => (a.holes i).flags = .free) := by
    rw [Finset.disjoint_filter]
    intro i _ hu hf
    rw [hu] at hf
    cases hf
  rw [← hcard, hunion, Finset.card_union_of_disjoint hdisj]
  rfl

theorem Layout.take_bestFit (h : Layout start stop a l) (hstop : stop < 2 ^ 16)
    {pages : Nat} (hpages : 0 < pages) :
    (bestFitHole a pages = .ok none ∧ RoomToSplit a pages) ∨
    ∃ m, bestFitHole a pages = .ok (some m) ∧ (a.holes m).flags = .free ∧
      ((takeHole a m pages = .error (.panic "mm: too many holes") ∧
          ¬ RoomToSplit a pages) ∨
        ∃ a' l', takeHole a m pages = .ok a' ∧ RoomToSplit a pages ∧
          Layout start stop a' l' ∧ Taken a a' m) := by
  have hlen := h.toTiled.length_eq
  rcases h.toTiled.bestFitHole_spec pages with
    ⟨hnone, hall⟩ | ⟨m, hsome, hm, hfit, hmin⟩
  · left
    refine ⟨hnone, Or.inr (Or.inr ?_)⟩
    intro i hi
    by_contra hge
    exact hall i ⟨by omega, hi⟩
  · right
    refine ⟨m, hsome, hfit.2, ?_⟩
    rcases h.takeHole_spec hstop hpages hm hfit with
      ⟨herr, hlt, hfull⟩ | ⟨a', l', hok, hroom, hlay, htaken⟩
    · left
      refine ⟨herr, ?_⟩
      rintro (hfew | ⟨i, hi, hext⟩ | hnofit)
      · omega
      · have := hmin i ⟨by omega, hi⟩
        omega
      · have := hnofit m hfit.2
        omega
    · right
      refine ⟨a', l', hok, ?_, hlay, htaken⟩
      rcases hroom with hexact | hfew
      · exact Or.inr (Or.inl ⟨m, hfit.2, hexact⟩)
      · exact Or.inl (by omega)

theorem Tiled.release_spec (h : Tiled start stop a l) (hstop : stop < 2 ^ 16)
    (hm : (a.holes m).flags = .used) (r : Nat) :
    ∃ a' l', sweepHoles
        (a.set m { a.holes m with refcount := r, flags := .free }) = .ok a' ∧
      Layout start stop a' l' ∧ OthersKept a a' m ∧
      (a'.holes m).flags ≠ .used := by
  have hmem : m ∈ l := by
    by_contra hoff
    rw [h.offList m hoff] at hm
    cases hm
  have ht : Tiled start stop
      (a.set m { a.holes m with refcount := r, flags := .free }) l := by
    refine h.retag hmem (fun i hi => Arena.set_ne _ _ hi) ?_ ?_ ?_
    · simp [MallocHole.seg]
    · simp
    · simp
  obtain ⟨a', l', hok, hlay, hkept⟩ := ht.sweepHoles_spec hstop
  refine ⟨a', l', hok, hlay, ?_, ?_⟩
  · intro i hi
    have hk := hkept i
    rwa [Arena.set_ne _ _ hi] at hk
  · intro hu
    have hfree := (hkept m).1.mp hu
    simp at hfree

theorem Layout.recount_spec (h : Layout start stop a l) (hm : (a.holes m).flags = .used) (r : Nat) :
    Layout start stop (a.set m { a.holes m with refcount := r }) l ∧
      OthersKept a (a.set m { a.holes m with refcount := r }) m := by
  have hmem : m ∈ l := by
    by_contra hoff
    rw [h.offList m hoff] at hm
    cases hm
  refine ⟨⟨?_, ?_⟩, ?_⟩
  · refine h.toTiled.retag hmem (fun i hi => Arena.set_ne _ _ hi) ?_ ?_ ?_
    · simp [MallocHole.seg]
    · simp
    · simp [hm]
  · refine isChain_apart_mono ?_ h.apart
    intro i _ hi
    by_cases him : i = m
    · subst him
      simpa using hi
    · rwa [Arena.set_ne _ _ him] at hi
  · intro i hi
    rw [Arena.set_ne _ _ hi]
    exact ⟨Iff.rfl, fun _ => rfl⟩

/-- The text of `alloc_hole`'s panic. -/
def tooManyHoles : Fault :=
  .panic "mm: too many holes"

theorem Layout.exec_spec (h : Layout start stop a l) (hstop : stop < 2 ^ 16)
    (c : MmCall) (hc : c.OnLive a) :
    (c.exec a = .error tooManyHoles ∧ ¬ c.Roomy a) ∨
    ∃ a' r l', c.exec a = .ok (a', r) ∧ c.Roomy a ∧
      Layout start stop a' l' ∧ c.Effect a a' r := by
  cases c with
  | alloc pages =>
      have hpages : 0 < pages := hc
      rcases h.take_bestFit hstop hpages with
        ⟨hnone, hroom⟩ | ⟨m, hsome, hfree, ⟨herr, hroom⟩ | ⟨a', l', hok, hroom, hlay, htaken⟩⟩
      · right
        refine ⟨a, none, l, ?_, hroom, h, Or.inl ⟨rfl, rfl⟩⟩
        simp [MmCall.exec, mmAlloc, hnone, bind, Except.bind]
      · left
        refine ⟨?_, hroom⟩
        simp [MmCall.exec, mmAlloc, hsome, herr, bind, Except.bind, tooManyHoles]
      · right
        refine ⟨a', some (a'.holes m).pageBase, l', ?_, hroom, hlay,
          Or.inr ⟨rfl, m, hfree, htaken⟩⟩
        simp [MmCall.exec, mmAlloc, hsome, hok, bind, Except.bind]
  | realloc base =>
      right
      obtain ⟨m, hm, hbase⟩ := hc
      have hfind := h.toTiled.findHole_used hm
      rw [hbase] at hfind
      obtain ⟨hlay, hkept⟩ :=
        h.recount_spec hm (wrap 8 ((a.holes m).refcount + 1))
      refine ⟨_, some (a.holes m).pageBase, l, ?_, trivial, hlay,
        rfl, m, hm, hbase, hkept, ?_, ?_⟩
      · simp [MmCall.exec, mmRealloc, hfind, bind, Except.bind]
      · simpa using hm
      · simp
  | dup base =>
      obtain ⟨o, ho, hbase⟩ := hc
      have hfind := h.toTiled.findHole_used ho
      rw [hbase] at hfind
      have hmem : o ∈ l := by
        by_contra hoff
        rw [h.offList o hoff] at ho
        cases ho
      have hpages : 0 < (a.holes o).extent :=
        (h.tiles.mem_bounds (List.mem_map_of_mem hmem)).2.1
      have hroom_iff : (MmCall.dup base).Roomy a ↔
          RoomToSplit a (a.holes o).extent := by
        constructor
        · intro hr
          exact hr o ho hbase
        · intro hr i hi hib
          have hio := h.toTiled.findHole_used hi
          rw [hib, hfind] at hio
          cases hio
          exact hr
      rw [hroom_iff]
      rcases h.take_bestFit hstop hpages with
        ⟨hnone, hroom⟩ | ⟨m, hsome, hfree, ⟨herr, hroom⟩ | ⟨a', l', hok, hroom, hlay, htaken⟩⟩
      · right
        refine ⟨a, none, l, ?_, hroom, h, Or.inl ⟨rfl, rfl⟩⟩
        simp [MmCall.exec, mmDup, hfind, ho, hnone, bind, Except.bind]
      · left
        refine ⟨?_, hroom⟩
        simp [MmCall.exec, mmDup, hfind, ho, hsome, herr, bind, Except.bind,
          tooManyHoles]
      · right
        refine ⟨{ a' with
            memory := fmemcpy a'.memory (a'.holes m).pageBase 0
              (a'.holes o).pageBase 0 (wrap 16 ((a'.holes o).extent <<< 4)) },
          some (a'.holes m).pageBase, l', ?_,
          hroom, ⟨⟨hlay.links, hlay.tiles, hlay.onList, hlay.offList⟩,
            hlay.apart⟩,
          Or.inr ⟨rfl, m, hfree, ⟨htaken.flags, htaken.refcount,
            htaken.pageBase, htaken.others⟩⟩⟩
        simp [MmCall.exec, mmDup, hfind, ho, hsome, hok, bind, Except.bind]
  | free base =>
      right
      obtain ⟨m, hm, hbase⟩ := hc
      have hfind := h.toTiled.findHole_used hm
      rw [hbase] at hfind
      by_cases hlast : wrapSub 8 (a.holes m).refcount 1 = 0
      · obtain ⟨a', l', hok, hlay, hkept, hgone⟩ :=
          h.toTiled.release_spec hstop hm 0
        refine ⟨a', none, l', ?_, trivial, hlay, m, hm, hbase, hkept, ?_⟩
        · simp [MmCall.exec, mmFree, hfind, hm, hlast, hok, bind, Except.bind]
        · rw [if_pos hlast]
          exact hgone
      · obtain ⟨hlay, hkept⟩ :=
          h.recount_spec hm (wrapSub 8 (a.holes m).refcount 1)
        refine ⟨_, none, l, ?_, trivial, hlay, m, hm, hbase, hkept, ?_⟩
        · simp [MmCall.exec, mmFree, hfind, hm, hlast, bind, Except.bind]
        · rw [if_neg hlast]
          simp [hm]

end Entries

end Mm
end Elks
