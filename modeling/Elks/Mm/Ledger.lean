import Elks.Lib.Outcome
import Elks.Mm.Calls

/-!
# Who holds the segments

`Ledger` compares the reference counts of the allocator with a bag of the bases that
are held somewhere, whoever holds them.  Segments of the kernel are left out: nobody
in the bag holds them, and they stay.  Zero stands for no segment.

Each call moves one base into the bag or out of it.  A call that runs out of hole
descriptors stops the machine.
-/

namespace Elks
namespace Mm

open Lib

/-- The reference counts are those of the bag `held`, outside the segments of the kernel
with their bases in `kernel`. -/
structure Ledger (start stop : Nat) (kernel : Nat → Prop) (a : Arena) (held : Multiset Nat) :
    Prop where
  layout : ∃ l, Layout start stop a l
  counts : ∀ i, (a.holes i).flags = .used → ¬ kernel (a.holes i).pageBase →
    (a.holes i).refcount = held.count (a.holes i).pageBase
  live : ∀ base ∈ held, base ≠ 0 → ¬ kernel base ∧ Live a base
  kernelLive : ∀ base, kernel base → Live a base

/-- A call of the allocator, with zero for `NULL`. -/
def mm (c : MmCall) : Routine Arena Nat :=
  fun a => (c.exec a).map fun r => (r.2.getD 0, r.1)

section Calls

variable {start stop : Nat} {kernel : Nat → Prop} {a a' : Arena} {held : Multiset Nat}
  {l : List Slot} {A : Fault → Prop} {base pages : Nat}

theorem Tiled.used_unique {i j : Slot} (h : Tiled start stop a l) (hi : (a.holes i).flags = .used)
    (hj : (a.holes j).flags ≠ .spare) (hbase : (a.holes i).pageBase = (a.holes j).pageBase) :
    i = j := by
  have hmem : ∀ {k}, (a.holes k).flags ≠ .spare → k ∈ l := by
    intro k hk
    by_contra hoff
    exact hk (h.offList k hoff)
  have hused : (a.holes i).flags ≠ .spare := by
    rw [hi]
    simp
  exact h.tiles.base_injOn (hmem hused) (hmem hj) hbase

theorem Layout.base_pos {i : Slot} (h : Layout start stop a l) (hstart : 0 < start)
    (hi : (a.holes i).flags ≠ .spare) : (a.holes i).pageBase ≠ 0 := by
  have hmem : i ∈ l := by
    by_contra hoff
    exact hi (h.offList i hoff)
  have hbound := (h.tiles.mem_bounds (List.mem_map_of_mem hmem)).1
  unfold MallocHole.seg at hbound
  dsimp only at hbound
  omega

theorem Ledger.taken {m : Slot} {l' : List Slot} (h : Ledger start stop kernel a held)
    (hstart : 0 < start) (hlay : Layout start stop a' l') (hfree : (a.holes m).flags = .free)
    (htaken : Taken a a' m) :
    (a'.holes m).pageBase ≠ 0 ∧
      Ledger start stop kernel a' ((a'.holes m).pageBase ::ₘ held) := by
  obtain ⟨l, hl⟩ := h.layout
  have hspare : (a.holes m).flags ≠ .spare := by
    rw [hfree]
    simp
  have hnew : ∀ base, Live a base → base ≠ (a.holes m).pageBase := by
    rintro base ⟨i, hi, rfl⟩ hbase
    have him := hl.toTiled.used_unique hi hspare hbase
    rw [him, hfree] at hi
    cases hi
  have hpos : (a.holes m).pageBase ≠ 0 := hl.base_pos hstart hspare
  have hcount : held.count (a.holes m).pageBase = 0 := by
    rw [Multiset.count_eq_zero]
    intro hheld
    exact hnew _ (h.live _ hheld hpos).2 rfl
  have hkept : ∀ base, Live a base → Live a' base := fun base hbase =>
    htaken.others.live (Ne.symm (hnew base hbase)) hbase
  rw [htaken.pageBase]
  refine ⟨hpos, ⟨l', hlay⟩, ?_, ?_, fun base hk => hkept base (h.kernelLive base hk)⟩
  · intro i hi hk
    by_cases him : i = m
    · rw [him, htaken.pageBase, Multiset.count_cons_self, hcount, htaken.refcount]
    · have hused := (htaken.others i him).1.mp hi
      have hsame := (htaken.others i him).2 hused
      rw [hsame] at hk ⊢
      rw [Multiset.count_cons_of_ne (hnew _ ⟨i, hused, rfl⟩)]
      exact h.counts i hused hk
  · intro base hbase hne
    rcases Multiset.mem_cons.mp hbase with rfl | hheld
    · refine ⟨fun hk => hnew _ (h.kernelLive _ hk) rfl, m, htaken.flags, htaken.pageBase⟩
    · exact ⟨(h.live base hheld hne).1, hkept base (h.live base hheld hne).2⟩

theorem Ledger.writes (h : Ledger start stop kernel a held) (memory : Nat → UInt8) :
    Ledger start stop kernel { a with memory := memory } held := by
  obtain ⟨l, hl⟩ := h.layout
  exact ⟨⟨l, ⟨hl.links, hl.tiles, hl.onList, hl.offList⟩, hl.apart⟩, h.counts, h.live,
    h.kernelLive⟩

theorem Ledger.of_cons_zero (h : Ledger start stop kernel a (0 ::ₘ held)) (hstart : 0 < start) :
    Ledger start stop kernel a held := by
  obtain ⟨l, hl⟩ := h.layout
  refine ⟨⟨l, hl⟩, ?_, fun base hbase => h.live base (Multiset.mem_cons_of_mem hbase),
    h.kernelLive⟩
  intro i hi hk
  have hpos := hl.base_pos hstart (show (a.holes i).flags ≠ .spare by rw [hi]; simp)
  rw [h.counts i hi hk, Multiset.count_cons_of_ne hpos]

theorem Ledger.ne_free {i : Slot} (h : Ledger start stop kernel a held) (hstart : 0 < start)
    (hi : (a.holes i).flags = .free) (hheld : base ∈ held) : base ≠ (a.holes i).pageBase := by
  rintro rfl
  obtain ⟨l, hl⟩ := h.layout
  have hspare : (a.holes i).flags ≠ .spare := by
    rw [hi]
    simp
  obtain ⟨_, j, hj, hbase⟩ := h.live _ hheld (hl.base_pos hstart hspare)
  have hji := hl.toTiled.used_unique hj hspare hbase
  rw [hji, hi] at hj
  cases hj

theorem Ledger.alloc
    (h : Ledger start stop kernel a held) (hstart : 0 < start) (hstop : stop < 2 ^ 16)
    (hpages : 0 < pages) (hA : A tooManyHoles) :
    Outcome A (mm (.alloc pages)) a fun base a' =>
      (base = 0 ∧ Ledger start stop kernel a' held) ∨
        (base ≠ 0 ∧ bestFitHole a pages ≠ .ok none ∧
          Ledger start stop kernel a' (base ::ₘ held)) := by
  obtain ⟨l, hl⟩ := h.layout
  unfold Outcome mm
  rcases hl.take_bestFit hstop hpages with
    ⟨hnone, _⟩ | ⟨m, hsome, hfree, ⟨herr, _⟩ | ⟨a', l', hok, _, hlay, htaken⟩⟩
  · simp only [MmCall.exec, mmAlloc, hnone, bind, Except.bind]
    exact Or.inl ⟨rfl, h⟩
  · simp only [MmCall.exec, mmAlloc, hsome, herr, bind, Except.bind]
    exact hA
  · obtain ⟨hne, hledger⟩ := h.taken hstart hlay hfree htaken
    simp only [MmCall.exec, mmAlloc, hsome, hok, bind, Except.bind]
    exact Or.inr ⟨hne, by simp, hledger⟩

theorem Ledger.dup
    (h : Ledger start stop kernel a held) (hstart : 0 < start) (hstop : stop < 2 ^ 16)
    (hheld : base ∈ held) (hne : base ≠ 0) (hA : A tooManyHoles) :
    Outcome A (mm (.dup base)) a fun base a' =>
      (base = 0 ∧ Ledger start stop kernel a' held) ∨
        (base ≠ 0 ∧ Ledger start stop kernel a' (base ::ₘ held)) := by
  obtain ⟨l, hl⟩ := h.layout
  obtain ⟨_, o, ho, rfl⟩ := h.live base hheld hne
  have hfind := hl.toTiled.findHole_used ho
  have hmem : o ∈ l := by
    by_contra hoff
    rw [hl.offList o hoff] at ho
    cases ho
  have hpages : 0 < (a.holes o).extent :=
    (hl.tiles.mem_bounds (List.mem_map_of_mem hmem)).2.1
  have hused : ¬ (a.holes o).flags ≠ .used := not_not.mpr ho
  unfold Outcome mm
  rcases hl.take_bestFit hstop hpages with
    ⟨hnone, _⟩ | ⟨m, hsome, hfree, ⟨herr, _⟩ | ⟨a', l', hok, _, hlay, htaken⟩⟩
  · simp only [MmCall.exec, mmDup, hfind, if_neg hused, hnone, bind, Except.bind]
    exact Or.inl ⟨rfl, h⟩
  · simp only [MmCall.exec, mmDup, hfind, if_neg hused, hsome, herr, bind, Except.bind]
    exact hA
  · simp only [MmCall.exec, mmDup, hfind, if_neg hused, hsome, hok, bind, Except.bind]
    obtain ⟨hpos, hledger⟩ := h.taken hstart hlay hfree htaken
    exact Or.inr ⟨hpos, hledger.writes _⟩

theorem Ledger.realloc (h : Ledger start stop kernel a held) (hheld : base ∈ held) (hne : base ≠ 0)
    (hfew : held.count base < 255) :
    Outcome A (mm (.realloc base)) a fun r a' =>
      r = base ∧ Ledger start stop kernel a' (base ::ₘ held) := by
  obtain ⟨l, hl⟩ := h.layout
  obtain ⟨hk, m, hm, rfl⟩ := h.live base hheld hne
  have hfind := hl.toTiled.findHole_used hm
  obtain ⟨hlay, hkept⟩ := hl.recount_spec hm (wrap 8 ((a.holes m).refcount + 1))
  have hcount := h.counts m hm hk
  have hstay : ∀ base, Live a base →
      Live (a.set m { a.holes m with refcount := wrap 8 ((a.holes m).refcount + 1) }) base := by
    intro base hbase
    by_cases hself : (a.holes m).pageBase = base
    · refine ⟨m, ?_, ?_⟩
      · rw [Arena.set_same]
        exact hm
      · rw [Arena.set_same]
        exact hself
    · exact hkept.live hself hbase
  unfold Outcome mm
  simp only [MmCall.exec, mmRealloc, hfind, bind, Except.bind]
  refine ⟨?_, ⟨l, hlay⟩, ?_, ?_, fun base hk => hstay base (h.kernelLive base hk)⟩
  · rw [Arena.set_same]
    rfl
  · intro i hi hki
    by_cases him : i = m
    · rw [him, Arena.set_same]
      dsimp only
      rw [Multiset.count_cons_self, hcount]
      exact wrap_of_lt (by omega)
    · rw [Arena.set_ne _ _ him] at hi hki ⊢
      have hother : (a.holes i).pageBase ≠ (a.holes m).pageBase := by
        intro hbase
        exact him (hl.toTiled.used_unique hi (by rw [hm]; simp) hbase)
      rw [Multiset.count_cons_of_ne hother]
      exact h.counts i hi hki
  · intro base hbase hne'
    rcases Multiset.mem_cons.mp hbase with rfl | hold
    · exact ⟨hk, hstay _ ⟨m, hm, rfl⟩⟩
    · exact ⟨(h.live base hold hne').1, hstay base (h.live base hold hne').2⟩

theorem Ledger.free
    (h : Ledger start stop kernel a (base ::ₘ held)) (hstop : stop < 2 ^ 16) (hne : base ≠ 0)
    (hfew : held.count base < 255) :
    Outcome A (mm (.free base)) a fun _ a' => Ledger start stop kernel a' held := by
  obtain ⟨l, hl⟩ := h.layout
  obtain ⟨hk, m, hm, rfl⟩ := h.live base (Multiset.mem_cons_self _ _) hne
  have hfind := hl.toTiled.findHole_used hm
  have hcount := h.counts m hm hk
  rw [Multiset.count_cons_self] at hcount
  have hdown : wrapSub 8 (a.holes m).refcount 1 = held.count (a.holes m).pageBase := by
    rw [wrapSub_of_le (by omega) (by omega)]
    omega
  have hother : ∀ i, (a.holes i).flags = .used → i ≠ m →
      (a.holes i).pageBase ≠ (a.holes m).pageBase := by
    intro i hi him hbase
    exact him (hl.toTiled.used_unique hi (by rw [hm]; simp) hbase)
  -- what both ends of `mm_free` have in common
  have hrest : ∀ {a' l'}, Layout start stop a' l' → OthersKept a a' m →
      ((a'.holes m).flags = .used → (a'.holes m).refcount = held.count (a.holes m).pageBase ∧
        (a'.holes m).pageBase = (a.holes m).pageBase) →
      ((a.holes m).pageBase ∈ held → Live a' (a.holes m).pageBase) →
      Ledger start stop kernel a' held := by
    intro a' l' hlay hkept hself hlive
    have hstay : ∀ base, (a.holes m).pageBase ≠ base → Live a base → Live a' base :=
      fun base hbase => hkept.live hbase
    refine ⟨⟨l', hlay⟩, ?_, ?_, ?_⟩
    · intro i hi hki
      by_cases him : i = m
      · rw [him] at hi ⊢
        rw [(hself hi).1, (hself hi).2]
      · have hused := (hkept i him).1.mp hi
        have hsame := (hkept i him).2 hused
        rw [hsame] at hki ⊢
        rw [h.counts i hused hki, Multiset.count_cons_of_ne (hother i hused him)]
    · intro base hbase hne'
      obtain ⟨hkb, hlb⟩ := h.live base (Multiset.mem_cons_of_mem hbase) hne'
      by_cases hself' : (a.holes m).pageBase = base
      · rw [← hself'] at hbase hkb ⊢
        exact ⟨hkb, hlive hbase⟩
      · exact ⟨hkb, hstay base hself' hlb⟩
    · intro base hkb
      refine hstay base ?_ (h.kernelLive base hkb)
      rintro rfl
      exact hk hkb
  unfold Outcome mm
  by_cases hlast : wrapSub 8 (a.holes m).refcount 1 = 0
  · obtain ⟨a', l', hok, hlay, hkept, hgone⟩ := hl.toTiled.release_spec hstop hm 0
    have hexec : mmFree a (a.holes m).pageBase = .ok (a', none) := by
      simp [mmFree, hfind, hm, hlast, hok, bind, Except.bind]
    simp only [MmCall.exec, hexec]
    refine hrest hlay hkept (fun hu => absurd hu hgone) fun hheld => ?_
    have hzero : held.count (a.holes m).pageBase = 0 := by
      rw [← hdown]
      exact hlast
    exact absurd hheld (Multiset.count_eq_zero.mp hzero)
  · obtain ⟨hlay, hkept⟩ := hl.recount_spec hm (wrapSub 8 (a.holes m).refcount 1)
    have hexec : mmFree a (a.holes m).pageBase =
        .ok (a.set m { a.holes m with refcount := wrapSub 8 (a.holes m).refcount 1 }, none) := by
      simp [mmFree, hfind, hm, hlast, bind, Except.bind]
    simp only [MmCall.exec, hexec]
    refine hrest hlay hkept (fun _ => ?_) fun _ => ⟨m, ?_, ?_⟩
    · rw [Arena.set_same]
      exact ⟨hdown, rfl⟩
    · rw [Arena.set_same]
      exact hm
    · rw [Arena.set_same]

end Calls

end Mm
end Elks
