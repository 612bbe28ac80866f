import Elks.Mm.Calls

/-!
# Runs of the allocator

The results about the allocator as a whole: what holds after any sequence of
calls on live segments from `mm_init` on.

* `runCalls_roomy_iff`: a run ends in the panic of `alloc_hole` exactly when
  one of its calls finds no room to split.
* `runCalls_wellFormed`: a run that stays clear of it, and in which no
  reference count outgrows its eight bits, leaves a well-formed arena, and the
  single free hole again once every reference is dropped.
-/

namespace Elks
namespace Mm

open Lib

/-- `P` holds of every call of the run, in the state the call starts in. -/
def AlongCalls (P : Arena → MmCall → Prop) : Arena → List MmCall → Prop
  | _, [] => True
  | a, c :: cs =>
      P a c ∧
      match c.exec a with
      | .ok (a', _) => AlongCalls P a' cs
      | .error _ => True

instance alongCallsDecidable (P : Arena → MmCall → Prop)
    [∀ a c, Decidable (P a c)] :
    ∀ (a : Arena) (cs : List MmCall), Decidable (AlongCalls P a cs)
  | _, [] => isTrue trivial
  | a, c :: cs =>
      match h : c.exec a with
      | .ok (a', r) =>
          have := alongCallsDecidable P a' cs
          decidable_of_iff (P a c ∧ AlongCalls P a' cs) (by
            simp [AlongCalls, h])
      | .error f =>
          decidable_of_iff (P a c) (by
            simp [AlongCalls, h])

section Init

variable {start stop : Nat}

theorem layout_mmInit (a : Arena) (h : start < stop) (hstop : stop < 2 ^ 16) :
    Layout start stop (mmInit a start stop) [firstHole] := by
  have hext : wrapSub 16 stop start = stop - start :=
    wrapSub_of_le (by omega) hstop
  refine ⟨⟨?_, ?_, ?_, ?_⟩, List.isChain_singleton _⟩
  · exact ⟨rfl, by simp [mmInit, Arena.link]⟩
  · simp only [mmInit, List.map_cons, List.map_nil, if_true,
      MallocHole.seg, hext]
    exact ⟨rfl, by omega, by simp; omega⟩
  · intro i hi
    rw [List.mem_singleton.mp hi]
    simp [mmInit]
  · intro i hi
    have hne : i ≠ firstHole := by
      simpa using hi
    simp [mmInit, hne]

end Init

section Panic

variable {start stop : Nat}

theorem runCalls_panic_of_layout (hstop : stop < 2 ^ 16) (calls : List MmCall) :
    ∀ {a : Arena} {l : List Slot} (n : Nat), Layout start stop a l →
      AlongCalls (fun a c => c.OnLive a) a calls →
      ((runCalls a n calls = .error tooManyHoles ∧
          ¬ AlongCalls (fun a c => c.Roomy a) a calls) ∨
        (∃ a' n', runCalls a n calls = .ok (a', n')) ∧
          AlongCalls (fun a c => c.Roomy a) a calls) := by
  induction calls with
  | nil =>
      intro a l n _ _
      exact Or.inr ⟨⟨a, n, rfl⟩, trivial⟩
  | cons c cs ih =>
      intro a l n hlay hlive
      rcases hlay.exec_spec hstop c hlive.1 with
        ⟨herr, hroom⟩ | ⟨a', r, l', hok, hroom, hlay', _⟩
      · left
        refine ⟨?_, fun hall => hroom hall.1⟩
        simp [runCalls, herr, bind, Except.bind]
      · have hrest : AlongCalls (fun a c => c.OnLive a) a' cs := by
          have htail := hlive.2
          rw [hok] at htail
          exact htail
        have hrun : runCalls a n (c :: cs) = runCalls a' (c.refs r n) cs := by
          simp [runCalls, hok, bind, Except.bind]
        have hroomy : AlongCalls (fun a c => c.Roomy a) a (c :: cs) ↔
            AlongCalls (fun a c => c.Roomy a) a' cs := by
          simp [AlongCalls, hok, hroom]
        rw [hrun, hroomy]
        exact ih (c.refs r n) hlay' hrest

/-- **When the descriptors run out.**  A run of calls on live segments never
reaches the panic of `alloc_hole` if and only if each of its calls finds room
to split: before it, segments in use and gaps together are fewer than the
table, or a gap fits exactly, or none fits. -/
theorem runCalls_roomy_iff
    (a₀ : Arena) (h : start < stop) (hstop : stop < 2 ^ 16)
    (calls : List MmCall)
    (hlive : AlongCalls (fun a c => c.OnLive a) (mmInit a₀ start stop) calls) :
    runCalls (mmInit a₀ start stop) 0 calls ≠ .error tooManyHoles ↔
      AlongCalls (fun a c => c.Roomy a) (mmInit a₀ start stop) calls := by
  rcases runCalls_panic_of_layout hstop calls 0
      (layout_mmInit a₀ h hstop) hlive with
    ⟨herr, hroom⟩ | ⟨⟨a', n', hok⟩, hroom⟩
  · simp [herr, hroom]
  · simp [hok, hroom]

/-- An arena whose static table has not been initialised. -/
def blankArena : Arena where
  holes := fun _ =>
    { pageBase := 0, extent := 0, next := none, refcount := 0, flags := .spare }
  memory := fun _ => 0

/-- Two allocations and a release stay clear of the panic. -/
theorem runCalls_roomy_short :
    runCalls (mmInit blankArena 4096 40960) 0
        [.alloc 64, .alloc 128, .free 4096] ≠ .error tooManyHoles :=
  (runCalls_roomy_iff blankArena (by decide) (by decide) _
    (by decide +kernel)).mpr (by
      refine ⟨Or.inl ?_, Or.inl ?_, trivial, trivial⟩ <;> decide +kernel)

/-- Thirty-one segments of one page, every second one freed, then segments of
two pages: none of the fifteen gaps fits, and the table is full although only
twenty-two segments are in use. -/
def fragmentation : List MmCall :=
  List.replicate 31 (.alloc 1) ++
    (List.range 15).map (fun i => .free (4096 + 2 * i + 1)) ++
    List.replicate 7 (.alloc 2)

/-- The panic is reached by a run that never has more than
`2 * MAX_TASKS + 1` segments in use. -/
theorem tooManyHoles_reached :
    ¬ ∀ (a₀ : Arena) (start stop : Nat) (calls : List MmCall),
      start < stop → stop < 2 ^ 16 →
      AlongCalls (fun a c => c.OnLive a ∧ inUse a ≤ 2 * maxTasks + 1)
        (mmInit a₀ start stop) calls →
      runCalls (mmInit a₀ start stop) 0 calls ≠ .error tooManyHoles := by
  intro hall
  refine hall blankArena 4096 40960 fragmentation (by decide) (by decide) ?_ ?_
  · decide +kernel
  · refine faultOf_eq_some.mp ?_
    decide +kernel

end Panic

section References

variable {start stop : Nat} {a a' : Arena} {l : List Slot} {m : Slot}

/-- What a descriptor contributes to the references that are out. -/
def MallocHole.refs (h : MallocHole) : Nat :=
  if h.flags = .used then h.refcount else 0

/-- All references recorded in the table. -/
def refTotal (a : Arena) : Nat :=
  ∑ i, (a.holes i).refs

/-- Every segment in use is referenced. -/
def Counted (a : Arena) : Prop :=
  ∀ i, (a.holes i).flags = .used →
    1 ≤ (a.holes i).refcount ∧ (a.holes i).refcount < 2 ^ 8

theorem OthersKept.refTotal_eq (h : OthersKept a a' m) :
    refTotal a' + (a.holes m).refs = refTotal a + (a'.holes m).refs := by
  have hrest : ∑ i ∈ Finset.univ.erase m, (a'.holes i).refs =
      ∑ i ∈ Finset.univ.erase m, (a.holes i).refs := by
    refine Finset.sum_congr rfl ?_
    intro i hi
    obtain ⟨hiff, hsame⟩ := h i (Finset.ne_of_mem_erase hi)
    by_cases hu : (a.holes i).flags = .used
    · rw [hsame hu]
    · have hu' : (a'.holes i).flags ≠ .used := fun e => hu (hiff.mp e)
      simp [MallocHole.refs, hu, hu']
  have ha := Finset.add_sum_erase Finset.univ
    (fun i => (a.holes i).refs) (Finset.mem_univ m)
  have ha' := Finset.add_sum_erase Finset.univ
    (fun i => (a'.holes i).refs) (Finset.mem_univ m)
  unfold refTotal
  omega

theorem OthersKept.counted (h : OthersKept a a' m) (hc : Counted a)
    (hm : (a'.holes m).flags = .used →
      1 ≤ (a'.holes m).refcount ∧ (a'.holes m).refcount < 2 ^ 8) :
    Counted a' := by
  intro i hi
  by_cases him : i = m
  · subst him
    exact hm hi
  · obtain ⟨hiff, hsame⟩ := h i him
    have hu := hiff.mp hi
    rw [hsame hu]
    exact hc i hu

/-- No reference count is at its eight-bit maximum when it is increased. -/
def MmCall.CountFits (a : Arena) : MmCall → Prop
  | .realloc base =>
      ∀ i, (a.holes i).flags = .used → (a.holes i).pageBase = base →
        (a.holes i).refcount < 255
  | _ => True

instance (a : Arena) : DecidablePred (MmCall.CountFits a)
  | .alloc _ => isTrue trivial
  | .realloc base =>
      inferInstanceAs (Decidable (∀ i, (a.holes i).flags = .used →
        (a.holes i).pageBase = base → (a.holes i).refcount < 255))
  | .dup _ => isTrue trivial
  | .free _ => isTrue trivial

theorem MmCall.Effect.references {c : MmCall} {r : Option Nat} {n : Nat}
    (he : c.Effect a a' r) (hfit : c.CountFits a) (hc : Counted a) (hn : refTotal a = n) :
    Counted a' ∧ refTotal a' = c.refs r n := by
  have htaken : ∀ m, (a.holes m).flags = .free → Taken a a' m →
      Counted a' ∧ refTotal a' = n + 1 := by
    intro m hfree ht
    have htot := ht.others.refTotal_eq
    refine ⟨ht.others.counted hc ?_, ?_⟩
    · intro _
      rw [ht.refcount]
      decide
    · simp only [MallocHole.refs, hfree, ht.flags, ht.refcount, if_true] at htot
      simp only [reduceCtorEq, if_false] at htot
      omega
  cases c with
  | alloc pages =>
      rcases he with ⟨hr, rfl⟩ | ⟨hr, m, hfree, ht⟩
      · subst hr
        exact ⟨hc, hn⟩
      · simpa [MmCall.refs, hr] using htaken m hfree ht
  | dup base =>
      rcases he with ⟨hr, rfl⟩ | ⟨hr, m, hfree, ht⟩
      · subst hr
        exact ⟨hc, hn⟩
      · simpa [MmCall.refs, hr] using htaken m hfree ht
  | realloc base =>
      obtain ⟨hr, m, hu, hbase, hkept, hu', hcount⟩ := he
      have hlt := hfit m hu hbase
      have hw : wrap 8 ((a.holes m).refcount + 1) = (a.holes m).refcount + 1 :=
        wrap_of_lt (by omega)
      rw [hw] at hcount
      have htot := hkept.refTotal_eq
      refine ⟨hkept.counted hc ?_, ?_⟩
      · intro _
        rw [hcount]
        omega
      · simp only [MallocHole.refs, hu, hu', hcount, if_true] at htot
        simp only [MmCall.refs, hr, if_true]
        omega
  | free base =>
      obtain ⟨m, hu, _, hkept, hcase⟩ := he
      obtain ⟨hpos, hlt⟩ := hc m hu
      have hw : wrapSub 8 (a.holes m).refcount 1 = (a.holes m).refcount - 1 :=
        wrapSub_of_le hpos hlt
      rw [hw] at hcase
      have htot := hkept.refTotal_eq
      by_cases hlast : (a.holes m).refcount - 1 = 0
      · rw [if_pos hlast] at hcase
        refine ⟨hkept.counted hc (fun h => absurd h hcase), ?_⟩
        simp only [MallocHole.refs, hu, hcase, if_true, if_false] at htot
        simp only [MmCall.refs]
        omega
      · rw [if_neg hlast] at hcase
        obtain ⟨hu', hcount⟩ := hcase
        refine ⟨hkept.counted hc ?_, ?_⟩
        · intro _
          rw [hcount]
          omega
        · simp only [MallocHole.refs, hu, hu', hcount, if_true] at htot
          simp only [MmCall.refs]
          omega

end References

section WellFormed

variable {start stop : Nat}

/-- The arena as the allocator's users may rely on it. -/
def WellFormed (start stop : Nat) (a : Arena) : Prop :=
  ∃ l : List Slot,
    Links a.link (some firstHole) l ∧
    Tiles stop start (l.map fun i => (a.holes i).seg) ∧
    (∀ i, i ∈ l →
      ((a.holes i).flags = .used ∧ 1 ≤ (a.holes i).refcount) ∨
      (a.holes i).flags = .free) ∧
    l.IsChain (Apart a) ∧
    ∀ i, i ∉ l → (a.holes i).flags = .spare

/-- The list is the one free hole with all of `[start, stop)`. -/
def SingleHole (start stop : Nat) (a : Arena) : Prop :=
  Links a.link (some firstHole) [firstHole] ∧
  (a.holes firstHole).flags = .free ∧
  (a.holes firstHole).seg = (start, stop - start)

theorem Layout.wellFormed {a : Arena} {l : List Slot} (h : Layout start stop a l) (hc : Counted a) :
    WellFormed start stop a := by
  refine ⟨l, h.links, h.tiles, ?_, h.apart, h.offList⟩
  intro i hi
  cases hf : (a.holes i).flags with
  | used => exact Or.inl ⟨rfl, (hc i hf).1⟩
  | free => exact Or.inr rfl
  | spare => exact absurd hf (h.onList i hi)

theorem Layout.singleHole {a : Arena} {l : List Slot}
    (h : Layout start stop a l) (hc : Counted a) (hzero : refTotal a = 0) :
    SingleHole start stop a := by
  have hfree : ∀ i, i ∈ l → (a.holes i).flags = .free := by
    intro i hi
    have hz : (a.holes i).refs = 0 :=
      Finset.sum_eq_zero_iff.mp hzero i (Finset.mem_univ i)
    cases hf : (a.holes i).flags with
    | used =>
        have hpos := (hc i hf).1
        simp only [MallocHole.refs, hf, if_true] at hz
        omega
    | free => rfl
    | spare => exact absurd hf (h.onList i hi)
  cases l with
  | nil =>
      have hend := h.links
      cases hend
  | cons i l =>
      have hi : firstHole = i := Option.some.inj h.links.1
      subst hi
      cases l with
      | nil =>
          refine ⟨h.links, hfree firstHole List.mem_cons_self, ?_⟩
          obtain ⟨hbase, _, hend⟩ := h.tiles
          simp only [List.map_nil, tiles_nil, MallocHole.seg] at hbase hend
          have hext : (a.holes firstHole).extent = stop - start := by omega
          rw [MallocHole.seg, hbase, hext]
      | cons j l =>
          have hapart := (List.isChain_cons_cons.mp h.apart).1
          have hj : j ∈ firstHole :: j :: l :=
            List.mem_cons_of_mem _ List.mem_cons_self
          exact absurd ⟨hfree firstHole List.mem_cons_self, hfree j hj⟩ hapart

theorem runCalls_layout (hstop : stop < 2 ^ 16) (calls : List MmCall) :
    ∀ {a : Arena} {l : List Slot} {n : Nat}, Layout start stop a l →
      Counted a → refTotal a = n →
      AlongCalls (fun a c => c.OnLive a ∧ c.CountFits a) a calls →
      runCalls a n calls = .error tooManyHoles ∨
      ∃ a' n' l', runCalls a n calls = .ok (a', n') ∧
        Layout start stop a' l' ∧ Counted a' ∧ refTotal a' = n' := by
  induction calls with
  | nil =>
      intro a l n hlay hc hn _
      exact Or.inr ⟨a, n, l, rfl, hlay, hc, hn⟩
  | cons c cs ih =>
      intro a l n hlay hc hn hlegal
      obtain ⟨⟨hlive, hfit⟩, htail⟩ := hlegal
      rcases hlay.exec_spec hstop c hlive with
        ⟨herr, _⟩ | ⟨a', r, l', hok, _, hlay', heff⟩
      · left
        simp [runCalls, herr, bind, Except.bind]
      · rw [hok] at htail
        obtain ⟨hc', hn'⟩ := heff.references hfit hc hn
        have hrun : runCalls a n (c :: cs) = runCalls a' (c.refs r n) cs := by
          simp [runCalls, hok, bind, Except.bind]
        rw [hrun]
        exact ih hlay' hc' hn' htail

/-- **The arena stays well formed.**  From `mm_init(start, stop)`, any run of
calls on live segments that does not run out of descriptors and does not
increase a reference count of 255 ends in a well-formed arena; and if as many
references were dropped as were handed out, in the single free hole. -/
theorem runCalls_wellFormed
    (a₀ : Arena) (h : start < stop) (hstop : stop < 2 ^ 16)
    (calls : List MmCall)
    (hlegal : AlongCalls (fun a c => c.OnLive a ∧ c.CountFits a)
      (mmInit a₀ start stop) calls) :
    runCalls (mmInit a₀ start stop) 0 calls = .error tooManyHoles ∨
    ∃ a n, runCalls (mmInit a₀ start stop) 0 calls = .ok (a, n) ∧
      WellFormed start stop a ∧ (n = 0 → SingleHole start stop a) := by
  have hnone : ∀ i, ((mmInit a₀ start stop).holes i).flags ≠ .used := by
    intro i
    by_cases hi : i = firstHole <;> simp [mmInit, hi]
  have hc : Counted (mmInit a₀ start stop) :=
    fun i hi => absurd hi (hnone i)
  have hn : refTotal (mmInit a₀ start stop) = 0 := by
    refine Finset.sum_eq_zero ?_
    intro i _
    simp [MallocHole.refs, hnone i]
  rcases runCalls_layout hstop calls (layout_mmInit a₀ h hstop) hc hn hlegal with
    herr | ⟨a, n, l, hok, hlay, hca, hna⟩
  · exact Or.inl herr
  · refine Or.inr ⟨a, n, hok, hlay.wellFormed hca, ?_⟩
    intro hzero
    exact hlay.singleHole hca (hna.trans hzero)

/-- Three segments, one of them shared, dropped again out of order. -/
theorem runCalls_wellFormed_short :
    runCalls (mmInit blankArena 4096 40960) 0
        [.alloc 64, .alloc 32, .dup 4160, .realloc 4096,
          .free 4160, .free 4096, .free 4192, .free 4096] =
        .error tooManyHoles ∨
    ∃ a n, runCalls (mmInit blankArena 4096 40960) 0
        [.alloc 64, .alloc 32, .dup 4160, .realloc 4096,
          .free 4160, .free 4096, .free 4192, .free 4096] = .ok (a, n) ∧
      WellFormed 4096 40960 a ∧ (n = 0 → SingleHole 4096 40960 a) :=
  runCalls_wellFormed blankArena (by decide) (by decide) _ (by decide +kernel)

/-- The kind and the count of the first hole after a run. -/
def firstHoleAfter : Except Fault (Arena × Nat) → Option (HoleFlags × Nat)
  | .ok (a, _) => some ((a.holes firstHole).flags, (a.holes firstHole).refcount)
  | .error _ => none

/-- Without the bound on the counts this fails: 255 calls of `mm_realloc`
bring the eight-bit count of a segment in use back to zero. -/
theorem refcount_wraps :
    ¬ ∀ (a₀ : Arena) (start stop : Nat) (calls : List MmCall),
      start < stop → stop < 2 ^ 16 →
      AlongCalls (fun a c => c.OnLive a) (mmInit a₀ start stop) calls →
      ∀ a n, runCalls (mmInit a₀ start stop) 0 calls = .ok (a, n) →
        WellFormed start stop a := by
  intro hall
  have hrun : firstHoleAfter (runCalls (mmInit blankArena 1 2) 0
      (.alloc 1 :: List.replicate 255 (.realloc 1))) = some (.used, 0) := by
    decide +kernel
  cases hr : runCalls (mmInit blankArena 1 2) 0
      (.alloc 1 :: List.replicate 255 (.realloc 1)) with
  | error f =>
      rw [hr] at hrun
      cases hrun
  | ok x =>
      obtain ⟨a, n⟩ := x
      rw [hr] at hrun
      have hfirst := Option.some.inj hrun
      obtain ⟨hu, hz⟩ := Prod.mk.inj hfirst
      obtain ⟨l, hlinks, _, hkinds, _, _⟩ :=
        hall blankArena 1 2 _ (by decide) (by decide) (by decide +kernel) a n hr
      have hmem : firstHole ∈ l := by
        cases l with
        | nil => cases hlinks
        | cons i l =>
            have hi : firstHole = i := Option.some.inj hlinks.1
            simp [hi]
      rcases hkinds firstHole hmem with ⟨_, hpos⟩ | hfree
      · omega
      · rw [hu] at hfree
        cases hfree

end WellFormed

end Mm
end Elks
