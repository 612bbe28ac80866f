import Elks.Buffer.Store

/-!
# The hand of map_buffer

When every L1 block is taken, `map_buffer` looks for a buffer without users to
send back to L2.  It starts one block after the one it emptied last time and
stops when it is back there, so `lastumap` itself is never tried, and the index
at which the loop stopped is also its answer to "found nothing".

* `victim_eq_none_iff`: the search fails exactly if every block but `lastumap`
  has users;
* `mapLoop_evicts`: when it does not fail, one buffer goes out, `bh` comes in,
  and the task does not sleep;
* `mapLoop_sleeps`: when it fails, the task sleeps, whatever block `lastumap`
  holds;
* `hand_skips_last`: the task is put to sleep beside a block it could have
  emptied exactly if that block is `lastumap` and no other.
-/

namespace Elks
namespace Buffer

open Lib

/-- Every L1 block holds a buffer. -/
def Buffers.Full (s : Buffers) : Prop :=
  ∀ i, s.bufmemMap i ≠ none

/-- `bh` came into L1 block `i`, whose buffer had no users and is out. -/
structure Replaced (bh : Bh) (i : Slot) (s s' : Buffers) : Prop where
  free : s.unused i = true
  slot : s'.bufmemMap i = some bh
  others : ∀ j, j ≠ i → s'.bufmemMap j = s.bufmemMap j
  data : (s'.buffers bh).bData = some i
  count : (s'.buffers bh).bMapcount = wrap 16 ((s.buffers bh).bMapcount + 1)
  out : ∀ v, s.bufmemMap i = some v → v ≠ bh → (s'.buffers v).bData = none
  kept : ∀ v, v ≠ bh → (s'.buffers v).bMapcount = (s.buffers v).bMapcount
  hand : s'.lastumap = i

/-- The loop does what it is for: it sleeps only if every L1 block holds a
buffer with users, and otherwise it exchanges a buffer for `bh` at once. -/
structure Patient (bh : Bh) (p : Code Unit) (s : Buffers) : Prop where
  sleeps : p.run s = .error .sleeps → ∀ i, s.unused i = false
  evicts : (∃ i, s.unused i = true) →
    Prog.Runs p s fun _ s' => ∃ i, Replaced bh i s s'

section Hand

variable {s : Buffers} {bh : Bh} {i : Slot}

theorem mem_candidates : ∀ last i : Slot,
    i ∈ Buffers.candidates last ↔ i ≠ last := by
  decide

theorem victim_eq_none_iff : s.victim = none ↔ ∀ i, i ≠ s.lastumap → s.unused i = false := by
  unfold Buffers.victim
  rw [List.find?_eq_none]
  constructor
  · intro h i hi
    simpa using h i ((mem_candidates s.lastumap i).mpr hi)
  · intro h i hi
    simpa using h i ((mem_candidates s.lastumap i).mp hi)

theorem victim_unused (hi : s.victim = some i) :
    s.unused i = true :=
  List.find?_some hi

theorem unused_holds (hi : s.unused i = true) :
    ∃ v, s.bufmemMap i = some v ∧ (s.buffers v).bMapcount = 0 := by
  cases hv : s.bufmemMap i with
  | none => simp [Buffers.unused, hv] at hi
  | some v => exact ⟨v, rfl, by simpa [Buffers.unused, hv] using hi⟩

theorem Buffers.Full.freeSlot (hfull : s.Full) : s.freeSlot = none := by
  unfold Buffers.freeSlot
  rw [List.find?_eq_none]
  intro i _
  simpa using hfull i

theorem Buffers.Full.freeSlot_unmapSlot (hfull : s.Full) (i : Slot) :
    (s.unmapSlot i).freeSlot = some i := by
  obtain ⟨v, hv⟩ := Option.ne_none_iff_exists'.mp (hfull i)
  obtain ⟨j, hj⟩ := Option.ne_none_iff_exists'.mp
    (freeSlot_ne_none (unmapSlot_free s i))
  rw [hj]
  by_contra hji
  have hne : j ≠ i := fun h => hji (congrArg some h)
  have hfree := freeSlot_spec hj
  simp only [Buffers.unmapSlot, hv, Function.update_of_ne hne] at hfree
  exact hfull j hfree

theorem replaced_of_unmapSlot (hi : s.unused i = true) :
    Replaced bh i s ((s.unmapSlot i).mapHere bh i) := by
  obtain ⟨v, hv, hcount⟩ := unused_holds hi
  constructor
  · exact hi
  · simp [Buffers.mapHere]
  · intro j hj
    simp [Buffers.mapHere, Buffers.unmapSlot, hv, hj]
  · simp [Buffers.mapHere]
  · rcases eq_or_ne bh v with rfl | hbh
    · simp [Buffers.mapHere, Buffers.unmapSlot, hv]
    · simp [Buffers.mapHere, Buffers.unmapSlot, hv, hbh]
  · intro w hw hwbh
    rw [hv] at hw
    cases hw
    simp [Buffers.mapHere, Buffers.unmapSlot, hv, hwbh]
  · intro w hwbh
    rcases eq_or_ne w v with rfl | hwv
    · simp [Buffers.mapHere, Buffers.unmapSlot, hv, hwbh]
    · simp [Buffers.mapHere, Buffers.unmapSlot, hv, hwbh, hwv]
  · simp [Buffers.mapHere, Buffers.unmapSlot, hv]

theorem mapLoop_evicts (n : Nat) (hfull : s.Full) (h : ∃ i, i ≠ s.lastumap ∧ s.unused i = true) :
    Prog.Runs (mapLoop bh (n + 2)) s fun _ s' => ∃ i, Replaced bh i s s' := by
  obtain ⟨i, hi⟩ : ∃ i, s.victim = some i := by
    refine Option.ne_none_iff_exists'.mp fun hnone => ?_
    obtain ⟨i, hne, hi⟩ := h
    simp [victim_eq_none_iff.mp hnone i hne] at hi
  rw [mapLoop]
  simp only [Prog.runs_bind, Prog.runs_get, hfull.freeSlot, hi,
    Prog.runs_modify, mapLoop, hfull.freeSlot_unmapSlot]
  exact ⟨i, replaced_of_unmapSlot (victim_unused hi)⟩

theorem mapLoop_sleeps (n : Nat) (hfull : s.Full) (h : ∀ i, i ≠ s.lastumap → s.unused i = false) :
    (mapLoop bh (n + 1)).run s = .error .sleeps := by
  rw [mapLoop, Prog.run_bind]
  simp only [Prog.run, Prog.get, id_eq, hfull.freeSlot,
    victim_eq_none_iff.mpr h]
  rfl

theorem mapLoop_patient_iff (n : Nat) (hfull : s.Full) :
    Patient bh (mapLoop bh (n + 2)) s ↔
      ((∃ i, s.unused i = true) →
        ∃ i, i ≠ s.lastumap ∧ s.unused i = true) := by
  by_cases hother : ∃ i, i ≠ s.lastumap ∧ s.unused i = true
  · have hruns : Prog.Runs (mapLoop bh (n + 2)) s fun _ s' => ∃ i, Replaced bh i s s' :=
      mapLoop_evicts n hfull hother
    refine iff_of_true ⟨?_, fun _ => hruns⟩ fun _ => hother
    intro hsleep
    obtain ⟨a, s', hrun, -⟩ := hruns.run_eq
    simp [hrun] at hsleep
  · have hnone : ∀ i, i ≠ s.lastumap → s.unused i = false := by
      intro i hi
      by_contra hu
      exact hother ⟨i, hi, by simpa using hu⟩
    have hsleep : (mapLoop bh (n + 2)).run s = .error .sleeps :=
      mapLoop_sleeps (n + 1) hfull hnone
    constructor
    · intro hp hex
      obtain ⟨i, hi⟩ := hex
      simp [hp.sleeps hsleep i] at hi
    · intro himp
      have hall : ¬∃ i, s.unused i = true := fun hex => hother (himp hex)
      refine ⟨fun _ i => ?_, fun hex => absurd hex hall⟩
      by_contra hu
      exact hall ⟨i, by simpa using hu⟩

theorem mapBuffer_run_eq (n : Nat) (hdata : (s.buffers bh).bData = none)
    (hseg : (s.buffers bh).bSeg = s.ds) : (mapBuffer n bh).run s = (mapLoop bh n).run s := by
  have hcond : ¬((s.buffers bh).bData ≠ none ∨ (s.buffers bh).bSeg ≠ s.ds) := by
    simp [hdata, hseg]
  rw [mapBuffer, Prog.run_bind]
  simp only [Prog.run, Prog.get, id_eq, if_neg hcond]

/-- `map_buffer` of a buffer that is not in L1, with every L1 block taken, puts
the task to sleep beside a block it could have emptied exactly if the only such
block is the one it emptied last.  The same holds of every round after a wakeup,
whatever the others have done in the meantime. -/
theorem hand_skips_last
    (s : Buffers) (bh : Bh) (n : Nat)
    (hfull : s.Full)
    (hdata : (s.buffers bh).bData = none)
    (hseg : (s.buffers bh).bSeg = s.ds) :
    (Patient bh (mapBuffer (n + 2) bh) s ↔
        ((∃ i, s.unused i = true) →
          ∃ i, i ≠ s.lastumap ∧ s.unused i = true)) ∧
      (Patient bh (mapLoop bh (n + 2)) s ↔
        ((∃ i, s.unused i = true) →
          ∃ i, i ≠ s.lastumap ∧ s.unused i = true)) := by
  have hrun := mapBuffer_run_eq (n + 2) hdata hseg
  have hloop : Patient bh (mapLoop bh (n + 2)) s ↔
      ((∃ i, s.unused i = true) → ∃ i, i ≠ s.lastumap ∧ s.unused i = true) :=
    mapLoop_patient_iff n hfull
  have hsame : Patient bh (mapBuffer (n + 2) bh) s ↔
      Patient bh (mapLoop bh (n + 2)) s := by
    constructor
    · intro h
      refine ⟨?_, ?_⟩
      · rw [← hrun]
        exact h.sleeps
      · simpa only [Prog.Runs, hrun] using h.evicts
    · intro h
      refine ⟨?_, ?_⟩
      · rw [hrun]
        exact h.sleeps
      · simpa only [Prog.Runs, hrun] using h.evicts
  exact ⟨hsame.trans hloop, hloop⟩

end Hand

/-- The first eight buffers are in L1, each at its own index, and all of them
but those of `idle` have a user. -/
def pinned (idle : List Bh) : Buffers :=
  { bufferInit (blankHardware .polled) with
    buffers := fun b =>
      { freshHead b with
        bData := if h : b.val < nrMapbufs then some ⟨b, h⟩ else none
        bSeg := 0x1000
        bMapcount := if b.val < nrMapbufs ∧ b ∉ idle then 1 else 0 }
    bufmemMap := fun i => some ⟨i, Nat.lt_trans i.isLt (by decide)⟩ }

theorem hand_skips_last_two :
    (pinned [0, 5]).Full ∧ Patient 20 (mapBuffer 2 20) (pinned [0, 5]) := by
  have hfull : (pinned [0, 5]).Full := by
    intro i
    simp [pinned]
  refine ⟨hfull, ?_⟩
  exact (hand_skips_last _ _ 0 hfull (by decide) (by decide)).1.mpr
    fun _ => ⟨5, by decide, by decide⟩

/-- Seven L1 blocks have users and the block `lastumap` has none. -/
theorem hand_sleeps_beside_idle :
    ((pinned [0]).buffers 20).bData = none ∧
      ((pinned [0]).buffers 20).bSeg = (pinned [0]).ds ∧
      (pinned [0]).unused 0 = true ∧
      (mapBuffer 2 20).run (pinned [0]) = .error .sleeps ∧
      ¬Patient 20 (mapBuffer 2 20) (pinned [0]) := by
  have hfull : (pinned [0]).Full := by
    intro i
    simp [pinned]
  have hrun : (mapBuffer 2 20).run (pinned [0]) = .error .sleeps := by
    rw [mapBuffer_run_eq 2 (by decide) (by decide)]
    exact mapLoop_sleeps 1 hfull (by decide)
  refine ⟨by decide, by decide, by decide, hrun, ?_⟩
  intro h
  have := h.sleeps hrun 0
  exact absurd this (by decide)

end Buffer
end Elks
