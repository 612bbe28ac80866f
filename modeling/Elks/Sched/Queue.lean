import Elks.Lib.Ring
import Elks.Sched.Machine

/-!
# The ring of the run queue

The links of the tasks form a ring through the idle task.

`Queue s l`: the ring is the idle task and `l`, and `l` are the live tasks with a
link.  A task that exits counts as live as long as it has the processor, since
`schedule` takes it off the ring after its state is `TASK_UNUSED`.  A failed
`do_fork` leaves links in an unused slot, so only a task that is live or has no
link may be woken (`Wakeable`).
-/

namespace Elks
namespace Sched

open Lib
open Function (update update_of_ne update_self)

/-- A task that is not over. -/
def State.Live (s : State) (t : TaskRef) : Prop :=
  (s.task t).state ≠ .unused ∨ t = s.current

instance {s : State} {t : TaskRef} : Decidable (s.Live t) :=
  inferInstanceAs (Decidable (_ ∨ _))

/-- A task that `wake_up_process` may be called for. -/
def State.Wakeable (s : State) (p : TaskRef) : Prop :=
  p = 0 ∨ s.Live p ∨ s.nextRun p = none

/-- The ring of the run queue is the idle task and `l`. -/
structure Queue (s : State) (l : List TaskRef) : Prop where
  ring : Ring s.nextRun s.prevRun (0 :: l)
  count : s.nrRunning = l.length
  mem : ∀ t, t ≠ 0 → (t ∈ l ↔ s.Live t ∧ s.nextRun t ≠ none)
  running : ∀ t, t ≠ 0 → s.Live t → (s.task t).state = .running → t ∈ l

section Queue

variable {s s' : State} {l : List TaskRef} {p t : TaskRef}

theorem Queue.length_lt (h : Queue s l) : l.length < maxTasks := by
  have hlen := h.ring.nodup.length_le_card
  rw [Fintype.card_fin, List.length_cons] at hlen
  exact hlen

theorem Queue.idle_next (h : Queue s l) : s.nextRun 0 ≠ none := by
  obtain ⟨g, _, hg, _⟩ := h.ring.exists_next List.mem_cons_self
  rw [hg]
  simp

theorem Queue.congr
    (h : Queue s l) (hnext : s'.nextRun = s.nextRun) (hprev : s'.prevRun = s.prevRun)
    (hcount : s'.nrRunning = s.nrRunning) (hcurrent : s'.current = s.current)
    (hstate : ∀ t, (s'.task t).state = (s.task t).state) : Queue s' l := by
  have hlive : ∀ t, s'.Live t ↔ s.Live t := by
    intro t
    unfold State.Live
    rw [hstate, hcurrent]
  refine ⟨?_, ?_, ?_, ?_⟩
  · rw [hnext, hprev]
    exact h.ring
  · rw [hcount]
    exact h.count
  · intro t ht
    rw [hlive, hnext]
    exact h.mem t ht
  · intro t ht hl hr
    rw [hstate] at hr
    exact h.running t ht ((hlive t).mp hl) hr

theorem Queue.modTask {g : Task → Task} (h : Queue s l) (hlive : (s.modTask p g).Live p ↔ s.Live p)
    (hon : p ≠ 0 → (g (s.task p)).state = .running → p ∈ l) : Queue (s.modTask p g) l := by
  have hother : ∀ t, t ≠ p → (s.modTask p g).task t = s.task t :=
    fun t ht => update_of_ne ht _ _
  have hlive' : ∀ t, (s.modTask p g).Live t ↔ s.Live t := by
    intro t
    rcases eq_or_ne t p with rfl | ht
    · exact hlive
    · unfold State.Live
      rw [hother t ht]
      rfl
  refine ⟨h.ring, h.count, ?_, ?_⟩
  · intro t ht
    rw [hlive']
    exact h.mem t ht
  · intro t ht hl hr
    rcases eq_or_ne t p with rfl | htp
    · refine hon ht ?_
      have hself : (s.modTask t g).task t = g (s.task t) := update_self _ _ _
      rw [← hself]
      exact hr
    · rw [hother t htp] at hr
      exact h.running t ht ((hlive' t).mp hl) hr

theorem Queue.modCurrent {g : Task → Task} (h : Queue s l) (hon : s.current ≠ 0 → s.current ∈ l) :
    Queue (s.modTask s.current g) l :=
  h.modTask ⟨fun _ => Or.inr rfl, fun _ => Or.inr rfl⟩ fun hp _ => hon hp

theorem Queue.wake_eq (h : Queue s l) (hnone : s.nextRun p = none) :
    ∃ z, z ∈ 0 :: l ∧ z ≠ p ∧ s.prevRun 0 = some z ∧ s.wakeUpProcess p =
      { s with
        task := update s.task p { s.task p with state := .running }
        nextRun := update (update s.nextRun z (some p)) p (some 0)
        prevRun := update (update s.prevRun p (some z)) 0 (some p)
        nrRunning := wrap 8 (s.nrRunning + 1) } := by
  obtain ⟨z, hz, hprev⟩ := h.ring.exists_prev List.mem_cons_self
  refine ⟨z, hz, ?_, hprev, ?_⟩
  · rintro rfl
    obtain ⟨g, _, hg, _⟩ := h.ring.exists_next hz
    rw [hnone] at hg
    cases hg
  · simp [State.wakeUpProcess, State.addToRunqueue, State.modTask, hnone, hprev,
      State.setNext, State.setPrev]

theorem Queue.wake_next (h : Queue s l) (ht : t ≠ p) :
    (s.wakeUpProcess p).nextRun t = none ↔ s.nextRun t = none := by
  cases hnext : s.nextRun p with
  | some g =>
      have hsame : (s.wakeUpProcess p).nextRun = s.nextRun := by
        unfold State.wakeUpProcess
        have hg : (s.modTask p fun d => { d with state := .running }).nextRun p = some g :=
          hnext
        rw [if_neg (by rw [hg]; simp)]
        rfl
      rw [hsame]
  | none =>
      obtain ⟨z, hz, _, _, hrun⟩ := h.wake_eq hnext
      rw [hrun]
      dsimp only
      rw [update_of_ne ht]
      rcases eq_or_ne t z with rfl | htz
      · obtain ⟨g, _, hg, _⟩ := h.ring.exists_next hz
        simp [hg]
      · rw [update_of_ne htz]

theorem Queue.add (h : Queue s l) (hp : p ≠ 0) (hnone : s.nextRun p = none) :
    Queue (s.wakeUpProcess p) (l ++ [p]) := by
  obtain ⟨z, hz, hzp, hprev, hrun⟩ := h.wake_eq hnone
  have hp0 : p ∉ 0 :: l := by
    rw [List.mem_cons, not_or]
    exact ⟨hp, fun hmem => ((h.mem p hp).mp hmem).2 hnone⟩
  obtain ⟨z', _, hz', hring⟩ := h.ring.push_update hp0
  rw [hprev] at hz'
  obtain rfl := Option.some.inj hz'
  have hlive : ∀ t, t ≠ p → ((s.wakeUpProcess p).Live t ↔ s.Live t) := by
    intro t ht
    rw [hrun]
    unfold State.Live
    dsimp only
    rw [update_of_ne ht]
  have hself : (s.wakeUpProcess p).Live p ∧ (s.wakeUpProcess p).nextRun p ≠ none := by
    rw [hrun]
    unfold State.Live
    simp
  constructor
  · rw [hrun]
    dsimp only
    rw [Function.update_comm hzp]
    have hrot := Ring.rotate (l := [p]) (m := 0 :: l) hring
    simpa using hrot
  · rw [hrun]
    have hlen := h.length_lt
    have hmax : maxTasks = 15 := rfl
    dsimp only
    rw [h.count, wrap_of_lt (by omega), List.length_append, List.length_singleton]
  · intro t ht
    rw [List.mem_append, List.mem_singleton]
    rcases eq_or_ne t p with rfl | htp
    · exact ⟨fun _ => hself, fun _ => Or.inr rfl⟩
    · rw [hlive t htp, ne_eq, h.wake_next htp, ← ne_eq, ← h.mem t ht]
      simp [htp]
  · intro t ht hl hr
    rw [List.mem_append, List.mem_singleton]
    rcases eq_or_ne t p with rfl | htp
    · exact Or.inr rfl
    · left
      have hstate : ((s.wakeUpProcess p).task t).state = (s.task t).state := by
        rw [hrun]
        dsimp only
        rw [update_of_ne htp]
      rw [hstate] at hr
      exact h.running t ht ((hlive t htp).mp hl) hr

theorem Queue.wake (h : Queue s l) (hp : s.Wakeable p) :
    ∃ l', Queue (s.wakeUpProcess p) l' ∧ ∀ t, t ∈ l → t ∈ l' := by
  cases hnext : s.nextRun p with
  | none =>
      have hp0 : p ≠ 0 := by
        rintro rfl
        exact h.idle_next hnext
      refine ⟨l ++ [p], h.add hp0 hnext, ?_⟩
      intro t ht
      exact List.mem_append_left _ ht
  | some g =>
      have hrun : s.wakeUpProcess p =
          s.modTask p fun d => { d with state := .running } := by
        unfold State.wakeUpProcess
        have hsame : (s.modTask p fun d => { d with state := .running }).nextRun p =
            some g := hnext
        rw [if_neg (by rw [hsame]; simp)]
      refine ⟨l, ?_, fun _ ht => ht⟩
      rw [hrun]
      have hmem : p ≠ 0 → s.Live p := by
        intro hp0
        rcases hp with rfl | hlive | hnone
        · exact absurd rfl hp0
        · exact hlive
        · rw [hnone] at hnext
          cases hnext
      rcases eq_or_ne p 0 with rfl | hp0
      · refine ⟨h.ring, h.count, ?_, ?_⟩
        · intro t ht
          have hlive : (s.modTask 0 fun d => { d with state := .running }).Live t ↔
              s.Live t := by
            simp [State.Live, State.modTask, ht]
          rw [hlive]
          exact h.mem t ht
        · intro t ht hl hr
          simp only [State.Live, State.modTask, update_of_ne ht] at hl hr
          exact h.running t ht hl hr
      · refine h.modTask ⟨fun _ => hmem hp0, fun _ => Or.inl (by simp [State.modTask])⟩ ?_
        intro _ _
        refine (h.mem p hp0).mpr ⟨hmem hp0, ?_⟩
        rw [hnext]
        simp

theorem Queue.del
    (h : Queue s l) (hp : p ≠ 0) (hmem : p ∈ l) (hstate : (s.task p).state ≠ .running) :
    ∃ l', Queue (s.delFromRunqueue p) l' ∧ (∀ t, t ∈ l' ↔ t ∈ l ∧ t ≠ p) ∧
      ∀ t, (s.delFromRunqueue p).nextRun t ≠ none ↔ s.nextRun t ≠ none ∧ t ≠ p := by
  obtain ⟨a, b, rfl⟩ := List.append_of_mem hmem
  have hring : Ring s.nextRun s.prevRun ((0 :: a) ++ p :: b) := h.ring
  obtain ⟨g, z, hnext, hprev, _, hring'⟩ := hring.erase_update (by simp)
  have hnodup := h.ring.nodup
  have hsplit : ∀ t, t ∈ a ++ b ↔ t ∈ a ++ p :: b ∧ t ≠ p := by
    intro t
    rw [List.nodup_cons, List.nodup_append, List.nodup_cons] at hnodup
    obtain ⟨_, _, ⟨hpb, _⟩, hdisj⟩ := hnodup
    simp only [List.mem_append, List.mem_cons]
    constructor
    · rintro (ht | ht)
      · refine ⟨Or.inl ht, ?_⟩
        rintro rfl
        exact hdisj t ht t List.mem_cons_self rfl
      · refine ⟨Or.inr (Or.inr ht), ?_⟩
        rintro rfl
        exact hpb ht
    · rintro ⟨ht | rfl | ht, hne⟩
      · exact Or.inl ht
      · exact absurd rfl hne
      · exact Or.inr ht
  have hzmem : z ∈ 0 :: (a ++ p :: b) := by
    obtain ⟨z', hz', hprev'⟩ := h.ring.exists_prev (List.mem_cons_of_mem 0 hmem)
    rw [hprev] at hprev'
    obtain rfl := Option.some.inj hprev'
    exact hz'
  have hrun : s.delFromRunqueue p =
      { s with
        nextRun := update (update s.nextRun z (some g)) p none
        prevRun := update (update s.prevRun g (some z)) p none
        nrRunning := wrapSub 8 s.nrRunning 1 } := by
    simp [State.delFromRunqueue, hp, hnext, hprev, State.setNext, State.setPrev]
  have hnext' : ∀ t, (s.delFromRunqueue p).nextRun t ≠ none ↔
      s.nextRun t ≠ none ∧ t ≠ p := by
    intro t
    rw [hrun]
    dsimp only
    rcases eq_or_ne t p with rfl | htp
    · simp
    · rw [update_of_ne htp]
      rcases eq_or_ne t z with rfl | htz
      · obtain ⟨y, _, hy, _⟩ := h.ring.exists_next hzmem
        simp [hy, htp]
      · rw [update_of_ne htz]
        simp [htp]
  refine ⟨a ++ b, ⟨?_, ?_, ?_, ?_⟩, hsplit, hnext'⟩
  · rw [hrun]
    exact hring'
  · rw [hrun]
    have hlen := h.length_lt
    have hcount := h.count
    have hmax : maxTasks = 15 := rfl
    rw [List.length_append, List.length_cons] at hlen hcount
    dsimp only
    rw [hcount, wrapSub_of_le (by omega) (by omega), List.length_append]
    omega
  · intro t ht
    rw [hsplit, hnext', h.mem t ht]
    have hlive : (s.delFromRunqueue p).Live t ↔ s.Live t := by
      rw [hrun]
      exact Iff.rfl
    rw [hlive]
    tauto
  · intro t ht hl hr
    rw [hrun] at hl hr
    rw [hsplit]
    refine ⟨h.running t ht hl hr, ?_⟩
    rintro rfl
    exact hstate hr

theorem Queue.switch {n : TaskRef} (h : Queue s l) (hn : n ∈ 0 :: l)
    (hdead : s.current ≠ 0 → (s.task s.current).state = .unused →
      s.nextRun s.current = none) :
    Queue { s with current := n } l := by
  have hlive : ∀ t, t ≠ 0 → s.nextRun t ≠ none →
      (State.Live { s with current := n } t ↔ s.Live t) := by
    intro t ht hnext
    unfold State.Live
    dsimp only
    constructor
    · rintro (hs | rfl)
      · exact Or.inl hs
      · rcases List.mem_cons.mp hn with rfl | hmem
        · exact absurd rfl ht
        · exact ((h.mem t ht).mp hmem).1
    · rintro (hs | rfl)
      · exact Or.inl hs
      · refine Or.inl fun hunused => hnext ?_
        exact hdead ht hunused
  refine ⟨h.ring, h.count, ?_, ?_⟩
  · intro t ht
    rw [h.mem t ht]
    constructor
    · rintro ⟨hl, hnext⟩
      exact ⟨(hlive t ht hnext).mpr hl, hnext⟩
    · rintro ⟨hl, hnext⟩
      exact ⟨(hlive t ht hnext).mp hl, hnext⟩
  · intro t ht hl hr
    refine h.running t ht (Or.inl ?_) hr
    intro hunused
    exact absurd (hunused.symm.trans hr) (by simp)

variable {n : TaskRef}

/-- A free slot is filled, without links or without a task. -/
def State.fill (s : State) (n : TaskRef) (d : Task) (next prev : Option TaskRef) : State :=
  { s with
    task := update s.task n d
    stack := update s.stack n []
    nextRun := update s.nextRun n next
    prevRun := update s.prevRun n prev }

theorem Queue.fill {d : Task} {next prev : Option TaskRef}
    (h : Queue s l) (hn : n ≠ 0) (hl : n ∉ l) (hc : n ≠ s.current)
    (hd : d.state ≠ .running) (hout : d.state = .unused ∨ next = none) :
    Queue (s.fill n d next prev) l := by
  have hne : ∀ t, t ∈ 0 :: l → t ≠ n := by
    rintro t ht rfl
    exact (List.mem_cons.mp ht).elim hn hl
  have hlive : ∀ t, t ≠ n → ((s.fill n d next prev).Live t ↔ s.Live t) := by
    intro t ht
    simp [State.Live, State.fill, ht]
  have hself : ¬((s.fill n d next prev).Live n ∧ (s.fill n d next prev).nextRun n ≠ none) := by
    rintro ⟨hl | hl, hnext⟩
    · have hd' : d.state ≠ .unused := by
        simpa [State.fill] using hl
      have hnone : next = none := hout.resolve_left hd'
      simp [State.fill, hnone] at hnext
    · exact hc hl
  refine ⟨h.ring.congr ?_ ?_, h.count, ?_, ?_⟩
  · exact fun t ht => update_of_ne (hne t ht) _ _
  · exact fun t ht => update_of_ne (hne t ht) _ _
  · intro t ht
    rcases eq_or_ne t n with rfl | htn
    · exact ⟨fun hmem => absurd hmem hl, fun hboth => absurd hboth hself⟩
    · have hlink : (s.fill n d next prev).nextRun t = s.nextRun t :=
        update_of_ne htn _ _
      rw [hlive t htn, hlink]
      exact h.mem t ht
  · intro t ht hlt hr
    rcases eq_or_ne t n with rfl | htn
    · have hst : ((s.fill t d next prev).task t).state = d.state := by
        simp [State.fill]
      rw [hst] at hr
      exact absurd hr hd
    · have htask : (s.fill n d next prev).task t = s.task t :=
        update_of_ne htn _ _
      rw [htask] at hr
      exact h.running t ht ((hlive t htn).mp hlt) hr

theorem startKernel_queue : Queue startKernel [1] := by
  refine ⟨⟨by decide, ?_⟩, rfl, ?_, ?_⟩
  · exact .cons_cons ⟨rfl, rfl⟩ (.cons_cons ⟨rfl, rfl⟩ (.singleton _))
  · decide
  · decide

end Queue

end Sched
end Elks
