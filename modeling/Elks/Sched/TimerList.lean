import Elks.Lib.Agenda
import Elks.Lib.Dlist
import Elks.Lib.Machine

/-!
# The timer list (kernel/sched.c)

The timers that wait are linked through `tl_next` and `tl_prev`, from the header
`tl_list` on, in the order of `tl_expires`.  `run_timer_list` takes the first one that
has expired off the list, calls its function with interrupts enabled, and goes on with
`timer->tl_next`.

A run is a sequence of events: calls of `init_timer`, `add_timer` and `del_timer`, a
write of the fields of a timer that is not on the list, a clock tick, the entry of
`run_timer_list`, and the return of the function of a timer.  While such a function
runs, the other events may happen as well.

**Results.**
* `Listed`: the links run through exactly the timers that have been added and neither
  deleted nor fired, ordered by `tl_expires`, first in first out among equals;
* `step_listed`: every event keeps this;
* `timers_run_iff`: `run_timer_list` calls the functions of all timers that have expired
  exactly if there is at most one.  The links of a timer are cleared before its
  function is called, and the loop reads them afterwards.
-/

namespace Elks
namespace TimerList

open Lib

universe u v

/-- What `tl_next` and `tl_prev` point to: `tl_list`, or a timer. -/
inductive Node (ι : Type u)
  | tlList
  | timer (t : ι)
deriving DecidableEq

/-- `struct timer_list`. -/
structure Fields (ι : Type u) (φ : Type v) where
  tlNext : Option (Node ι)
  tlPrev : Option (Node ι)
  tlExpires : Nat
  tlData : Int
  tlFunction : φ

/-- The timers, the clock, the timer whose function `run_timer_list` is in, and the
calls it has made. -/
structure Timers (ι : Type u) (φ : Type v) where
  node : Node ι → Fields ι φ
  jiffies : Nat
  calling : Option (Node ι)
  calls : List (φ × Int)

variable {ι : Type u} {φ : Type v}

/-- What may happen next. -/
inductive Event (ι : Type u) (φ : Type v)
  | init (t : ι)
  | set (t : ι) (expires : Nat) (data : Int) (function : φ)
  | add (t : ι)
  | del (t : ι)
  | tick
  | run
  | back

/-- The links of `t` have been cleared. -/
def Clear (s : Timers ι φ) (t : ι) : Prop :=
  (s.node (.timer t)).tlNext = none ∧ (s.node (.timer t)).tlPrev = none

/-- A timer that waits is neither initialised nor written to nor added once more, and
only a timer with links is added or deleted. -/
def Allowed (s : Timers ι φ) (p : List ι) : Event ι φ → Prop
  | .init t => t ∉ p
  | .set t _ _ _ => t ∉ p
  | .add t => t ∉ p ∧ Clear s t
  | .del t => t ∈ p ∨ Clear s t
  | .tick => True
  | .run => s.calling = none
  | .back => s.calling ≠ none

/-- A function returns that has put its own timer back for a time that has passed. -/
def Late (s : Timers ι φ) (p : List ι) : Event ι φ → Prop
  | .back => ∃ t, s.calling = some (.timer t) ∧ t ∈ p ∧
      (s.node (.timer t)).tlExpires < s.jiffies
  | _ => False

/-- The event is allowed, and no function puts its own timer back for a time that has
passed. -/
def Patient (s : Timers ι φ) (p : List ι) (e : Event ι φ) : Prop :=
  Allowed s p e ∧ ¬Late s p e

/-- `tl_list` before the first call; the timers hold anything. -/
structure Initial (s : Timers ι φ) : Prop where
  next : (s.node .tlList).tlNext = none
  prev : (s.node .tlList).tlPrev = none
  calling : s.calling = none

/-- `tl_expires` of a timer. -/
def Timers.expires (s : Timers ι φ) (t : ι) : Nat :=
  (s.node (.timer t)).tlExpires

/-- The links from `tl_list` run through the nodes of `L`, and back. -/
def Linked (s : Timers ι φ) (L : List (Node ι)) : Prop :=
  Dlist (fun n => (s.node n).tlNext) (fun n => (s.node n).tlPrev) (some .tlList) none L

/-- The links from `tl_list` run through `l` and back, and `l` is `p` in order. -/
structure Listed (s : Timers ι φ) (p l : List ι) : Prop where
  links : Linked s (.tlList :: l.map .timer)
  agenda : Agenda s.expires p l
  nodup : p.Nodup

/-- What every run keeps. -/
structure Kept (s : Timers ι φ) (p : List ι) : Prop where
  listed : ∃ l, Listed s p l
  calling : ∀ n, s.calling = some n → ∃ t, n = .timer t ∧ (t ∉ p → Clear s t)

/-- The timers of a list that have expired. -/
def Timers.due (s : Timers ι φ) (l : List ι) : List ι :=
  l.filter fun t => s.expires t < s.jiffies

/-- The function of a timer and its argument. -/
def Timers.call (s : Timers ι φ) (t : ι) : φ × Int :=
  ((s.node (.timer t)).tlFunction, (s.node (.timer t)).tlData)

/-- Since `s`, and during the events `es`, `run_timer_list` has called the functions of
exactly the timers that had expired, once and in the order of the list, and has left the
others on it. -/
def CallsDue (s : Timers ι φ) (p : List ι) (es : List (Event ι φ))
    (s' : Timers ι φ) (p' : List ι) : Prop :=
  (∃ l, Listed s p l ∧ s'.calls = s.calls ++ (s.due l).map s.call) ∧
    ∀ t ∈ p, ¬s.expires t < s.jiffies → .del t ∉ es → t ∈ p'

/-- Nothing but links differs. -/
structure Relinked (s s' : Timers ι φ) : Prop where
  expires : ∀ n, (s'.node n).tlExpires = (s.node n).tlExpires
  data : ∀ n, (s'.node n).tlData = (s.node n).tlData
  function : ∀ n, (s'.node n).tlFunction = (s.node n).tlFunction
  jiffies : s'.jiffies = s.jiffies
  calling : s'.calling = s.calling
  calls : s'.calls = s.calls

section Order

variable {s s' u : Timers ι φ} {p l : List ι} {t : ι}

theorem Relinked.refl (s : Timers ι φ) : Relinked s s :=
  ⟨fun _ => rfl, fun _ => rfl, fun _ => rfl, rfl, rfl, rfl⟩

theorem Relinked.trans (h : Relinked s u) (h' : Relinked u s') : Relinked s s' :=
  ⟨fun n => (h'.expires n).trans (h.expires n), fun n => (h'.data n).trans (h.data n),
    fun n => (h'.function n).trans (h.function n), h'.jiffies.trans h.jiffies,
    h'.calling.trans h.calling, h'.calls.trans h.calls⟩

theorem Relinked.agenda (h : Relinked s s') (hl : Agenda s.expires p l) :
    Agenda s'.expires p l :=
  hl.congr fun i _ => h.expires (.timer i)

theorem timer_mem : Node.timer t ∈ Node.tlList :: l.map .timer ↔ t ∈ l := by
  simp

theorem Listed.mem_iff (h : Listed s p l) : t ∈ l ↔ t ∈ p :=
  h.agenda.mem_iff

theorem Listed.neighbours (h : Listed s p l) (ht : t ∈ l) :
    (∃ k ∈ Node.tlList :: l.map .timer, (s.node (.timer t)).tlPrev = some k) ∧
    ∀ k, (s.node (.timer t)).tlNext = some k → ∃ i ∈ l, k = .timer i := by
  have hmem : Node.timer t ∈ Node.tlList :: l.map .timer := timer_mem.mpr ht
  constructor
  · rcases Dlist.prev_mem h.links hmem with ⟨hfirst, _⟩ | ⟨k, hk, hkmem, _⟩
    · cases hfirst
    · exact ⟨k, hkmem, hk⟩
  · intro k hk
    have hkmem := Dlist.next_mem h.links hmem hk
    rcases List.mem_cons.mp hkmem with rfl | hkmem
    · have hback := Dlist.next_prev h.links hmem hk
      have hnone : (s.node .tlList).tlPrev = none := h.links.2.1
      rw [hnone] at hback
      cases hback
    · obtain ⟨i, hi, rfl⟩ := List.mem_map.mp hkmem
      exact ⟨i, hi, rfl⟩

theorem Listed.first (h : Listed s p l) : (s.node .tlList).tlNext = l.head?.map .timer := by
  have hnext := Dlist.next_eq (l := []) h.links
  rw [List.head?_map] at hnext
  exact hnext

theorem mem_of_head?_map {n : Node ι} (hn : l.head?.map Node.timer = some n) :
    ∃ i ∈ l, n = .timer i := by
  obtain ⟨i, hi, rfl⟩ := Option.map_eq_some_iff.mp hn
  exact ⟨i, List.mem_of_mem_head? hi, rfl⟩

theorem Kept.next (h : Kept s p) (hl : Listed s p l) {n : Node ι} (hn : s.calling = some n) :
    ∀ k, (s.node n).tlNext = some k → ∃ i ∈ l, k = .timer i := by
  obtain ⟨t, rfl, hclear⟩ := h.calling n hn
  intro k hk
  by_cases ht : t ∈ p
  · exact (hl.neighbours (hl.mem_iff.mpr ht)).2 k hk
  · rw [(hclear ht).1] at hk
    cases hk

theorem Initial.kept (h : Initial s) : Kept s [] := by
  refine ⟨⟨[], ⟨rfl, h.prev, h.next⟩, Agenda.nil, List.nodup_nil⟩, ?_⟩
  intro n hn
  rw [h.calling] at hn
  cases hn

theorem Listed.unique {m : List ι} (hl : Listed s p l) (hm : Listed s p m) : l = m := by
  have hnodes := Dlist.unique hl.links hm.links
  exact List.map_injective_iff.mpr (fun i j hij => Node.timer.inj hij)
    (List.cons.inj hnodes).2

end Order

variable [DecidableEq ι]

namespace Timers

/-- `n->tl_next = k`. -/
def setNext (s : Timers ι φ) (n : Node ι) (k : Option (Node ι)) : Timers ι φ :=
  { s with node := Function.update s.node n { s.node n with tlNext := k } }

/-- `n->tl_prev = k`. -/
def setPrev (s : Timers ι φ) (n : Node ι) (k : Option (Node ι)) : Timers ι φ :=
  { s with node := Function.update s.node n { s.node n with tlPrev := k } }

/-- `n->tl_next = n->tl_prev = NULL`. -/
def clear (s : Timers ι φ) (n : Node ι) : Timers ι φ :=
  (s.setPrev n none).setNext n none

/-- `detach_timer`. -/
def detachTimer (s : Timers ι φ) (n : Node ι) : Timers ι φ × Bool :=
  let next := (s.node n).tlNext
  let prev := (s.node n).tlPrev
  let s₁ := match next with
    | some k => s.setPrev k prev
    | none => s
  match prev with
  | some k => (s₁.setNext k next, true)
  | none => (s₁, false)

/-- `del_timer`. -/
def delTimer (s : Timers ι φ) (t : ι) : Timers ι φ × Bool :=
  let (s₁, ret) := s.detachTimer (.timer t)
  (s₁.clear (.timer t), ret)

/-- `init_timer`. -/
def initTimer (s : Timers ι φ) (t : ι) : Timers ι φ :=
  s.clear (.timer t)

/-- The loop of `add_timer`. -/
def addFrom (t : ι) : Nat → Timers ι φ → Option (Node ι) → Node ι →
    Except Fault (Timers ι φ)
  | _, s, none, prev =>
      .ok ((s.setPrev (.timer t) (some prev)).setNext prev (some (.timer t)))
  | 0, _, some _, _ => .error .endless
  | fuel + 1, s, some next, _ =>
      if (s.node (.timer t)).tlExpires < (s.node next).tlExpires then
        let s₁ := s.setPrev (.timer t) (s.node next).tlPrev
        let s₂ := s₁.setNext (.timer t) (some next)
        match (s₂.node (.timer t)).tlPrev with
        | none => .error .nullPointer
        | some k => .ok ((s₂.setNext k (some (.timer t))).setPrev next (some (.timer t)))
      else
        addFrom t fuel s (s.node next).tlNext next

/-- `add_timer`; the number of timers bounds the loop. -/
def addTimer [Fintype ι] (s : Timers ι φ) (t : ι) : Except Fault (Timers ι φ) :=
  addFrom t (Fintype.card ι) s (s.node .tlList).tlNext .tlList

/-- The test of the loop of `run_timer_list`, and its body as far as the call. -/
def runFrom (s : Timers ι φ) (timer : Option (Node ι)) : Timers ι φ :=
  match timer with
  | some n =>
      if (s.node n).tlExpires < s.jiffies then
        let fn := (s.node n).tlFunction
        let data := (s.node n).tlData
        let s₁ := (s.detachTimer n).1.clear n
        { s₁ with calling := some n, calls := s₁.calls ++ [(fn, data)] }
      else
        { s with calling := none }
  | none => { s with calling := none }

end Timers

namespace Timers

/-- What an event does. -/
def step [Fintype ι] (s : Timers ι φ) : Event ι φ → Except Fault (Timers ι φ)
  | .init t => .ok (s.initTimer t)
  | .set t expires data function =>
      .ok { s with
        node := Function.update s.node (.timer t)
          { s.node (.timer t) with
            tlExpires := expires
            tlData := data
            tlFunction := function } }
  | .add t => s.addTimer t
  | .del t => .ok (s.delTimer t).1
  | .tick => .ok { s with jiffies := s.jiffies + 1 }
  | .run => .ok (s.runFrom (s.node .tlList).tlNext)
  | .back =>
      match s.calling with
      | some n => .ok (s.runFrom (s.node n).tlNext)
      | none => .ok s

end Timers

/-- A timer that has been called is no longer waiting. -/
def dropCalled : Option (Node ι) → List ι → List ι
  | some (.timer t), p => p.erase t
  | _, p => p

/-- The timers that wait after an event that led to `s`, in the order in which they
were added. -/
def waiting (s : Timers ι φ) : Event ι φ → List ι → List ι
  | .add t, p => p ++ [t]
  | .del t, p => p.erase t
  | .run, p => dropCalled s.calling p
  | .back, p => dropCalled s.calling p
  | _, p => p

section Runs

variable [Fintype ι]

/-- A run of events of kind `A`, with the timers that wait. -/
inductive Runs (A : Timers ι φ → List ι → Event ι φ → Prop) :
    Timers ι φ → List ι → List (Event ι φ) → Timers ι φ → List ι → Prop
  | done (s : Timers ι φ) (p : List ι) : Runs A s p [] s p
  | step {s s' u : Timers ι φ} {p p' : List ι} {e : Event ι φ} {es : List (Event ι φ)}
      (ha : A s p e) (hs : s.step e = .ok u) (hrest : Runs A u (waiting u e p) es s' p') :
      Runs A s p (e :: es) s' p'

end Runs

section Links

variable {s s' u : Timers ι φ} {n x : Node ι} {k : Option (Node ι)} {p l : List ι} {t : ι}

@[simp] theorem setNext_tlNext :
    ((s.setNext n k).node x).tlNext = if x = n then k else (s.node x).tlNext := by
  by_cases h : x = n
  · simp [Timers.setNext, h]
  · simp [Timers.setNext, h]

@[simp] theorem setNext_tlPrev : ((s.setNext n k).node x).tlPrev = (s.node x).tlPrev := by
  by_cases h : x = n
  · simp [Timers.setNext, h]
  · simp [Timers.setNext, h]

@[simp] theorem setPrev_tlNext : ((s.setPrev n k).node x).tlNext = (s.node x).tlNext := by
  by_cases h : x = n
  · simp [Timers.setPrev, h]
  · simp [Timers.setPrev, h]

@[simp] theorem setPrev_tlPrev :
    ((s.setPrev n k).node x).tlPrev = if x = n then k else (s.node x).tlPrev := by
  by_cases h : x = n
  · simp [Timers.setPrev, h]
  · simp [Timers.setPrev, h]

theorem setNext_relinked : Relinked s (s.setNext n k) := by
  constructor <;> first | rfl | (intro x; by_cases h : x = n <;> simp [Timers.setNext, h])

theorem setPrev_relinked : Relinked s (s.setPrev n k) := by
  constructor <;> first | rfl | (intro x; by_cases h : x = n <;> simp [Timers.setPrev, h])

theorem clear_relinked : Relinked s (s.clear n) :=
  setPrev_relinked.trans setNext_relinked

@[simp] theorem clear_tlNext :
    ((s.clear n).node x).tlNext = if x = n then none else (s.node x).tlNext := by
  simp [Timers.clear]

@[simp] theorem clear_tlPrev :
    ((s.clear n).node x).tlPrev = if x = n then none else (s.node x).tlPrev := by
  simp [Timers.clear]

theorem detachTimer_tlNext :
    ((s.detachTimer n).1.node x).tlNext =
      if (s.node n).tlPrev = some x then (s.node n).tlNext else (s.node x).tlNext := by
  unfold Timers.detachTimer
  cases hnext : (s.node n).tlNext <;> cases hprev : (s.node n).tlPrev <;>
    simp [eq_comm]

theorem detachTimer_tlPrev :
    ((s.detachTimer n).1.node x).tlPrev =
      if (s.node n).tlNext = some x then (s.node n).tlPrev else (s.node x).tlPrev := by
  unfold Timers.detachTimer
  cases hnext : (s.node n).tlNext <;> cases hprev : (s.node n).tlPrev <;>
    simp [eq_comm]

theorem detachTimer_relinked : Relinked s (s.detachTimer n).1 := by
  unfold Timers.detachTimer
  cases (s.node n).tlNext with
  | none =>
      cases (s.node n).tlPrev with
      | none => exact Relinked.refl s
      | some k => exact setNext_relinked
  | some j =>
      cases (s.node n).tlPrev with
      | none => exact setPrev_relinked
      | some k => exact setPrev_relinked.trans setNext_relinked

theorem delTimer_relinked : Relinked s (s.delTimer t).1 :=
  detachTimer_relinked.trans clear_relinked

end Links

section Lists

variable {s s' : Timers ι φ} {p l : List ι} {t i : ι} {n : Node ι}

theorem Listed.nodes_nodup (h : Listed s p l) : (Node.tlList :: l.map .timer).Nodup := by
  refine List.nodup_cons.mpr ⟨by simp, (h.agenda.nodup h.nodup).map ?_⟩
  intro i j hij
  exact Node.timer.inj hij

theorem Listed.del (h : Listed s p l) (ht : t ∈ l) :
    Listed (s.delTimer t).1 (p.erase t) (l.erase t) := by
  have hmem : Node.timer t ∈ Node.tlList :: l.map .timer := timer_mem.mpr ht
  have hinj : Function.Injective (Node.timer : ι → Node ι) := fun i j hij =>
    Node.timer.inj hij
  have herase : Dlist (fun n => ((s.detachTimer (.timer t)).1.node n).tlNext)
      (fun n => ((s.detachTimer (.timer t)).1.node n).tlPrev) _ none
      ((Node.tlList :: l.map .timer).erase (.timer t)) :=
    Dlist.erase h.links h.nodes_nodup (fun z hz => by cases hz) hmem
      (fun k => detachTimer_tlNext) (fun k => detachTimer_tlPrev)
  rw [if_neg (by simp), List.erase_cons_tail (by simp), ← List.map_erase hinj] at herase
  have hfresh : Node.timer t ∉ Node.tlList :: (l.erase t).map .timer := by
    rw [timer_mem]
    exact (h.agenda.nodup h.nodup).not_mem_erase
  refine ⟨Dlist.congr herase ?_ ?_, ?_, h.nodup.erase t⟩
  · intro n hn
    have hne : n ≠ .timer t := fun he => hfresh (he ▸ hn)
    simp [Timers.delTimer, hne]
  · intro n hn
    have hne : n ≠ .timer t := fun he => hfresh (he ▸ hn)
    simp [Timers.delTimer, hne]
  · exact delTimer_relinked.agenda (h.agenda.erase h.nodup)

theorem Listed.del_clear (h : Listed s p l) (ht : t ∈ l) (hi : i ∉ l) (hclear : Clear s i) :
    Clear (s.delTimer t).1 i := by
  obtain ⟨⟨k, hk, hprev⟩, hnext⟩ := h.neighbours ht
  have hkt : k ≠ .timer i := by
    rintro rfl
    exact hi (timer_mem.mp hk)
  have hnt : (s.node (.timer t)).tlNext ≠ some (.timer i) := by
    intro he
    obtain ⟨j, hj, hij⟩ := hnext _ he
    exact hi (Node.timer.inj hij ▸ hj)
  have hne : Node.timer i ≠ Node.timer t := by
    rintro heq
    exact hi (Node.timer.inj heq ▸ ht)
  simp only [Clear, Timers.delTimer, clear_tlNext, clear_tlPrev, if_neg hne]
  rw [detachTimer_tlNext, detachTimer_tlPrev, if_neg hnt, hprev,
    if_neg (by simpa using hkt)]
  exact hclear

theorem delTimer_of_clear (hclear : Clear s t) : (s.delTimer t).1 = s.clear (.timer t) := by
  simp [Timers.delTimer, Timers.detachTimer, hclear.1, hclear.2]

theorem clear_clear : Clear (s.clear (.timer t)) t := by
  simp [Clear]

theorem clear_clear_of (hclear : Clear s i) : Clear (s.clear (.timer t)) i := by
  simp [Clear, hclear.1, hclear.2]

theorem Listed.clear (h : Listed s p l) (ht : t ∉ l) : Listed (s.clear (.timer t)) p l := by
  refine ⟨Dlist.congr h.links ?_ ?_, clear_relinked.agenda h.agenda, h.nodup⟩
  · intro n hn
    have hne : n ≠ .timer t := fun he => ht (timer_mem.mp (he ▸ hn))
    simp [hne]
  · intro n hn
    have hne : n ≠ .timer t := fun he => ht (timer_mem.mp (he ▸ hn))
    simp [hne]

/-- The fields of the nodes that are not in `M` and not those of `t` are kept. -/
def Apart (t : ι) (M : List (Node ι)) (s s' : Timers ι φ) : Prop :=
  ∀ n, n ∉ M → n ≠ .timer t →
    (s'.node n).tlNext = (s.node n).tlNext ∧ (s'.node n).tlPrev = (s.node n).tlPrev

theorem addLast_spec {L : List (Node ι)} {prev : Node ι} (h : Linked s (L ++ [prev]))
    (hnodup : (L ++ [prev]).Nodup) (hfresh : Node.timer t ∉ L ++ [prev]) (hclear : Clear s t) :
    Linked ((s.setPrev (.timer t) (some prev)).setNext prev (some (.timer t)))
        (L ++ [prev] ++ [.timer t]) ∧
      Apart t (L ++ [prev]) s
        ((s.setPrev (.timer t) (some prev)).setNext prev (some (.timer t))) := by
  have hpt : prev ≠ .timer t := by
    rintro rfl
    simp at hfresh
  constructor
  · refine Dlist.snoc h ?_ ?_ ?_ ?_ ?_
    · intro j hj
      have hjp : j ≠ prev := by
        rintro rfl
        exact (List.nodup_append.mp hnodup).2.2 j hj j (by simp) rfl
      simp [hjp]
    · intro j hj
      have hjt : j ≠ .timer t := by
        rintro rfl
        exact hfresh hj
      simp [hjt]
    · simp
    · simp
    · simp [hpt.symm, hclear.1]
  · intro n hn hnt
    have hnp : n ≠ prev := by
      rintro rfl
      simp at hn
    simp [hnt, hnp]

theorem addBetween_spec {L b : List (Node ι)} {prev next : Node ι}
    (h : Linked s (L ++ prev :: next :: b)) (hnodup : (L ++ prev :: next :: b).Nodup)
    (hfresh : Node.timer t ∉ L ++ prev :: next :: b) :
    Linked ((((s.setPrev (.timer t) (some prev)).setNext (.timer t) (some next)).setNext prev
        (some (.timer t))).setPrev next (some (.timer t)))
        (L ++ prev :: .timer t :: next :: b) ∧
      Apart t (L ++ prev :: next :: b) s
        ((((s.setPrev (.timer t) (some prev)).setNext (.timer t) (some next)).setNext prev
          (some (.timer t))).setPrev next (some (.timer t))) := by
  have hout : ∀ x ∈ L ++ prev :: next :: b, x ≠ .timer t := by
    rintro x hx rfl
    exact hfresh hx
  have htp : Node.timer t ≠ prev := (hout prev (by simp)).symm
  have htn : Node.timer t ≠ next := (hout next (by simp)).symm
  obtain ⟨_, hp, hdisj⟩ := List.nodup_append.mp hnodup
  obtain ⟨hprev, hn⟩ := List.nodup_cons.mp hp
  constructor
  · refine Dlist.insert h ?_ ?_ ?_ ?_ ?_ ?_
    · intro x hx
      have hxp : x ≠ prev := by
        rintro rfl
        rcases List.mem_append.mp hx with hx | hx
        · exact hdisj x hx x (by simp) rfl
        · exact hprev hx
      have hxt : x ≠ .timer t := by
        refine hout x ?_
        rcases List.mem_append.mp hx with hx | hx
        · exact List.mem_append_left _ hx
        · exact List.mem_append_right _ (List.mem_cons_of_mem _ hx)
      simp [hxp, hxt]
    · intro x hx
      have hxn : x ≠ next := by
        rintro rfl
        rcases List.mem_append.mp hx with hx | hx
        · exact hdisj x hx x (by simp) rfl
        · rcases List.mem_cons.mp hx with rfl | hx
          · exact hprev List.mem_cons_self
          · exact (List.nodup_cons.mp hn).1 hx
      have hxt : x ≠ .timer t := by
        rcases List.mem_append.mp hx with hx | hx
        · exact hout x (List.mem_append_left _ hx)
        · rcases List.mem_cons.mp hx with rfl | hx
          · exact hout x (by simp)
          · exact hout x (List.mem_append_right _
              (List.mem_cons_of_mem _ (List.mem_cons_of_mem _ hx)))
      simp [hxn, hxt]
    · simp
    · simp [htp]
    · simp [htn]
    · simp
  · intro n hn hnt
    have hnp : n ≠ prev := by
      rintro rfl
      simp at hn
    have hnn : n ≠ next := by
      rintro rfl
      simp at hn
    simp [hnt, hnp, hnn]

theorem addFrom_spec {fuel : Nat} {L : List (Node ι)} {prev : Node ι} {b : List ι}
    (h : Linked s (L ++ prev :: b.map .timer)) (hnodup : (L ++ prev :: b.map .timer).Nodup)
    (hfresh : Node.timer t ∉ L ++ prev :: b.map .timer)
    (hclear : Clear s t) (hfuel : b.length ≤ fuel) :
    ∃ s', Timers.addFrom t fuel s (b.head?.map .timer) prev = .ok s' ∧
      Linked s' (L ++ prev ::
        (b.orderedInsert (fun i j => s.expires i < s.expires j) t).map .timer) ∧
      Relinked s s' ∧ Apart t (L ++ prev :: b.map .timer) s s' := by
  induction b generalizing L prev fuel with
  | nil =>
      have happ : L ++ prev :: [Node.timer t] = L ++ [prev] ++ [.timer t] := by simp
      obtain ⟨hlinked, hapart⟩ := addLast_spec h hnodup hfresh hclear
      refine ⟨(s.setPrev (.timer t) (some prev)).setNext prev (some (.timer t)),
        by cases fuel <;> rfl, ?_, setPrev_relinked.trans setNext_relinked, hapart⟩
      rw [List.orderedInsert_nil, List.map_singleton, happ]
      exact hlinked
  | cons m b ih =>
      cases fuel with
      | zero => simp at hfuel
      | succ fuel =>
          have happ : ∀ c : List (Node ι), L ++ prev :: .timer m :: c =
              (L ++ [prev]) ++ .timer m :: c := fun c => by simp
          have hnext : (s.node (.timer m)).tlNext = b.head?.map .timer := by
            rw [List.map_cons, happ] at h
            exact (Dlist.next_eq h).trans (by simp)
          have hback : (s.node (.timer m)).tlPrev = some prev := Dlist.prev_eq h
          by_cases hlt : s.expires t < s.expires m
          · -- the timer goes in front of `m`
            have hlt' : (s.node (.timer t)).tlExpires < (s.node (.timer m)).tlExpires := hlt
            have hprev : (((s.setPrev (.timer t) (some prev)).setNext (.timer t)
                (some (.timer m))).node (.timer t)).tlPrev = some prev := by
              simp
            obtain ⟨hlinked, hapart⟩ := addBetween_spec h hnodup hfresh
            simp only [List.head?_cons, Option.map_some, Timers.addFrom, if_pos hlt', hback]
            rw [hprev]
            refine ⟨_, rfl, ?_, ?_, hapart⟩
            · rw [List.orderedInsert_cons, if_pos hlt]
              exact hlinked
            · exact ((setPrev_relinked.trans setNext_relinked).trans setNext_relinked).trans
                setPrev_relinked
          · -- the loop goes on behind `m`
            have hlt' : ¬(s.node (.timer t)).tlExpires < (s.node (.timer m)).tlExpires := hlt
            simp only [List.head?_cons, Option.map_some, Timers.addFrom, if_neg hlt', hnext]
            rw [List.orderedInsert_cons, if_neg hlt]
            rw [List.map_cons, happ] at h hnodup hfresh
            obtain ⟨s', hok, hlinked, hrel, hapart⟩ :=
              ih h hnodup hfresh (by simpa using hfuel)
            refine ⟨s', hok, ?_, hrel, ?_⟩
            · rw [List.map_cons, happ]
              exact hlinked
            · rw [List.map_cons, happ]
              exact hapart

theorem Listed.add [Fintype ι] (h : Listed s p l) (ht : t ∉ p) (hclear : Clear s t) :
    ∃ s' l', s.addTimer t = .ok s' ∧ Listed s' (p ++ [t]) l' ∧ Relinked s s' ∧
      ∀ i, i ∉ p → i ≠ t → Clear s i → Clear s' i := by
  have htl : t ∉ l := fun hmem => ht (h.mem_iff.mp hmem)
  obtain ⟨s', hok, hlinked, hrel, hframe⟩ :=
    addFrom_spec (L := []) h.links h.nodes_nodup (fun hmem => htl (timer_mem.mp hmem))
      hclear (h.agenda.nodup h.nodup).length_le_card
  refine ⟨s', _, ?_, ⟨hlinked, hrel.agenda h.agenda.insert, ?_⟩, hrel, ?_⟩
  · rw [Timers.addTimer, h.first]
    exact hok
  · exact List.nodup_append.mpr ⟨h.nodup, List.nodup_singleton t, by
      rintro i hi _ hj rfl
      exact ht (List.mem_singleton.mp hj ▸ hi)⟩
  · intro i hi hit hclear'
    obtain ⟨hnext, hprev⟩ := hframe (.timer i)
      (fun hmem => hi (h.mem_iff.mp (timer_mem.mp hmem))) (by simpa using hit)
    exact ⟨hnext.trans hclear'.1, hprev.trans hclear'.2⟩

theorem runFrom_expired (hlt : s.expires t < s.jiffies) :
    s.runFrom (some (.timer t)) =
      { (s.delTimer t).1 with
        calling := some (.timer t)
        calls := s.calls ++ [s.call t] } := by
  have hlt' : (s.node (.timer t)).tlExpires < s.jiffies := hlt
  have hcalls := (delTimer_relinked (s := s) (t := t)).calls
  rw [← hcalls]
  simp only [Timers.runFrom, if_pos hlt']
  rfl

theorem runFrom_later (hlt : ¬s.expires t < s.jiffies) :
    s.runFrom (some (.timer t)) = { s with calling := none } := by
  have hlt' : ¬(s.node (.timer t)).tlExpires < s.jiffies := hlt
  simp only [Timers.runFrom, if_neg hlt']

theorem clear_delTimer (t : ι) : Clear (s.delTimer t).1 t :=
  clear_clear

theorem Listed.runFrom (h : Listed s p l) {k : Option (Node ι)}
    (hk : ∀ n, k = some n → ∃ i ∈ l, n = .timer i) :
    Kept (s.runFrom k) (dropCalled (s.runFrom k).calling p) := by
  cases k with
  | none => exact ⟨⟨l, h.links, h.agenda, h.nodup⟩, fun n hn => by cases hn⟩
  | some n =>
      obtain ⟨i, hi, rfl⟩ := hk n rfl
      by_cases hlt : s.expires i < s.jiffies
      · rw [runFrom_expired hlt]
        have hdel := h.del hi
        refine ⟨⟨_, hdel.links, hdel.agenda, hdel.nodup⟩, ?_⟩
        intro n hn
        obtain rfl := Option.some.inj hn
        exact ⟨i, rfl, fun _ => clear_delTimer i⟩
      · rw [runFrom_later hlt]
        exact ⟨⟨l, h.links, h.agenda, h.nodup⟩, fun n hn => by cases hn⟩

end Lists

section Step

variable [Fintype ι] {s s' u : Timers ι φ} {p p' l : List ι} {t : ι} {e : Event ι φ}
  {es : List (Event ι φ)}

/-- Every event that is allowed comes to an end and keeps the list in order. -/
theorem Kept.step (h : Kept s p) (ha : Allowed s p e) :
    ∃ u, s.step e = .ok u ∧ Kept u (waiting u e p) := by
  obtain ⟨l, hl⟩ := h.listed
  cases e with
  | init t =>
      have ht : t ∉ l := fun hmem => ha (hl.mem_iff.mp hmem)
      refine ⟨_, rfl, ⟨l, hl.clear ht⟩, ?_⟩
      intro n hn
      obtain ⟨c, rfl, hc⟩ := h.calling n hn
      exact ⟨c, rfl, fun hcp => clear_clear_of (hc hcp)⟩
  | set t expires data function =>
      have ht : t ∉ l := fun hmem => ha (hl.mem_iff.mp hmem)
      have hlinks : ∀ n, ((Function.update s.node (.timer t)
          { s.node (.timer t) with
            tlExpires := expires
            tlData := data
            tlFunction := function }) n).tlNext = (s.node n).tlNext ∧
          ((Function.update s.node (.timer t)
          { s.node (.timer t) with
            tlExpires := expires
            tlData := data
            tlFunction := function }) n).tlPrev = (s.node n).tlPrev := by
        intro n
        by_cases hn : n = .timer t
        · subst hn
          simp
        · simp [hn]
      refine ⟨_, rfl, ⟨l, ?_, ?_, hl.nodup⟩, ?_⟩
      · exact Dlist.congr hl.links (fun n _ => (hlinks n).1) fun n _ => (hlinks n).2
      · refine hl.agenda.congr fun i hi => ?_
        have hit : Node.timer i ≠ Node.timer t := fun he => ha (Node.timer.inj he ▸ hi)
        simp [Timers.expires, hit]
      · intro n hn
        obtain ⟨c, rfl, hc⟩ := h.calling n hn
        exact ⟨c, rfl, fun hcp =>
          ⟨(hlinks _).1.trans (hc hcp).1, (hlinks _).2.trans (hc hcp).2⟩⟩
  | add t =>
      obtain ⟨s', l', hok, hlist, hrel, hkeep⟩ := hl.add ha.1 ha.2
      refine ⟨s', hok, ⟨l', hlist⟩, ?_⟩
      intro n hn
      rw [hrel.calling] at hn
      obtain ⟨c, rfl, hc⟩ := h.calling n hn
      refine ⟨c, rfl, fun hcp => ?_⟩
      simp only [waiting, List.mem_append, List.mem_singleton, not_or] at hcp
      exact hkeep c hcp.1 hcp.2 (hc hcp.1)
  | del t =>
      refine ⟨_, rfl, ?_⟩
      by_cases ht : t ∈ p
      · refine ⟨⟨_, hl.del (hl.mem_iff.mpr ht)⟩, ?_⟩
        intro n hn
        rw [delTimer_relinked.calling] at hn
        obtain ⟨c, rfl, hc⟩ := h.calling n hn
        refine ⟨c, rfl, fun hcp => ?_⟩
        rcases eq_or_ne c t with rfl | hct
        · exact clear_delTimer c
        · have hcp' : c ∉ p := fun hmem => hcp ((List.mem_erase_of_ne hct).mpr hmem)
          exact hl.del_clear (hl.mem_iff.mpr ht)
            (fun hmem => hcp' (hl.mem_iff.mp hmem)) (hc hcp')
      · have hclear : Clear s t := ha.resolve_left ht
        have hp : p.erase t = p := List.erase_of_not_mem ht
        rw [delTimer_of_clear hclear, waiting, hp]
        refine ⟨⟨l, hl.clear fun hmem => ht (hl.mem_iff.mp hmem)⟩, ?_⟩
        intro n hn
        obtain ⟨c, rfl, hc⟩ := h.calling n hn
        exact ⟨c, rfl, fun hcp => clear_clear_of (hc hcp)⟩
  | tick => exact ⟨_, rfl, ⟨l, hl.links, hl.agenda, hl.nodup⟩, h.calling⟩
  | run =>
      refine ⟨_, rfl, hl.runFrom ?_⟩
      rw [hl.first]
      exact fun n => mem_of_head?_map
  | back =>
      obtain ⟨n, hn⟩ := Option.ne_none_iff_exists'.mp ha
      refine ⟨s.runFrom (s.node n).tlNext, by simp [Timers.step, hn], ?_⟩
      exact hl.runFrom (h.next hl hn)

theorem Runs.kept {A : Timers ι φ → List ι → Event ι φ → Prop}
    (hA : ∀ s p e, A s p e → Allowed s p e) (h : Runs A s p es s' p') (hs : Kept s p) :
    Kept s' p' := by
  induction h with
  | done => exact hs
  | step ha hstep _ ih =>
      obtain ⟨u, hu, hkept⟩ := hs.step (hA _ _ _ ha)
      rw [hstep] at hu
      cases hu
      exact ih hkept

/-- The loop stops when the function of a timer returns that has not put its timer back
for a time that has passed. -/
theorem Kept.back (h : Kept s p) (ha : Patient s p .back) :
    s.step .back = .ok { s with calling := none } := by
  obtain ⟨l, hl⟩ := h.listed
  obtain ⟨n, hn⟩ := Option.ne_none_iff_exists'.mp ha.1
  obtain ⟨t, rfl, hclear⟩ := h.calling n hn
  simp only [Timers.step, hn]
  cases hk : (s.node (.timer t)).tlNext with
  | none => rfl
  | some k =>
      obtain ⟨i, hi, rfl⟩ := h.next hl hn k hk
      have ht : t ∈ p := by
        by_contra hoff
        rw [(hclear hoff).1] at hk
        cases hk
      have hexp : ¬s.expires t < s.jiffies := fun hlt => ha.2 ⟨t, hn, ht, hlt⟩
      -- the list is sorted, and `i` stands behind `t`
      obtain ⟨a, b, rfl⟩ := List.append_of_mem (hl.mem_iff.mpr ht)
      have hlinks := hl.links
      rw [List.map_append, List.map_cons, ← List.cons_append] at hlinks
      have hnext := Dlist.next_eq hlinks
      rw [hk] at hnext
      obtain ⟨j, hj, hij⟩ := mem_of_head?_map ((List.head?_map ..).symm.trans hnext.symm)
      obtain rfl := Node.timer.inj hij
      have hle := (List.pairwise_cons.mp (List.pairwise_append.mp hl.agenda.sorted).2.1).1 i hj
      rw [runFrom_later (by omega)]

theorem Runs.quiet (h : Runs Patient s p es s' p') (hs : Kept s p) (hrun : .run ∉ es) :
    s'.calls = s.calls ∧ ∀ t ∈ p, .del t ∉ es → t ∈ p' := by
  induction h with
  | done => exact ⟨rfl, fun _ ht _ => ht⟩
  | @step s s' u p p' e es ha hstep _ ih =>
      obtain ⟨hne, hrest⟩ := not_or.mp (fun h => hrun (List.mem_cons.mpr h))
      obtain ⟨u', hu', hkept⟩ := hs.step ha.1
      rw [hstep] at hu'
      cases hu'
      obtain ⟨hcalls, hwait⟩ := ih hkept hrest
      have hone : u.calls = s.calls ∧ ∀ t ∈ p, e ≠ .del t → t ∈ waiting u e p := by
        cases e with
        | add t =>
            obtain ⟨l, hl⟩ := hs.listed
            obtain ⟨s'', _, hok, _, hrel, _⟩ := hl.add ha.1.1 ha.1.2
            have hstep' : s.addTimer t = .ok u := hstep
            rw [hok] at hstep'
            cases hstep'
            exact ⟨hrel.calls, fun i hi _ => List.mem_append_left _ hi⟩
        | del t =>
            cases hstep
            refine ⟨delTimer_relinked.calls, fun i hi hne' => ?_⟩
            have hit : i ≠ t := by
              rintro rfl
              exact hne' rfl
            exact (List.mem_erase_of_ne hit).mpr hi
        | run => exact absurd rfl hne
        | back =>
            rw [hs.back ha] at hstep
            cases hstep
            exact ⟨rfl, fun i hi _ => hi⟩
        | _ =>
            cases hstep
            exact ⟨rfl, fun i hi _ => hi⟩
      refine ⟨hcalls.trans hone.1, fun t ht hdel => ?_⟩
      obtain ⟨hte, htes⟩ := not_or.mp (fun h => hdel (List.mem_cons.mpr h))
      exact hwait t (hone.2 t ht (Ne.symm hte)) htes

theorem callsDue_iff (hs : Kept s p) (h : Runs Patient s p (.run :: es) s' p') (hrun : .run ∉ es) :
    CallsDue s p es s' p' ↔ (s.due p).length ≤ 1 := by
  obtain ⟨l, hl⟩ := hs.listed
  have hperm : l.Perm p :=
    (List.perm_ext_iff_of_nodup (hl.agenda.nodup hl.nodup) hl.nodup).mpr fun _ => hl.mem_iff
  have hlen : (s.due p).length = (s.due l).length := (hperm.filter _).length_eq.symm
  have hcalls : (∃ l, Listed s p l ∧ s'.calls = s.calls ++ (s.due l).map s.call) ↔
      s'.calls = s.calls ++ (s.due l).map s.call := by
    constructor
    · rintro ⟨m, hm, hcalls⟩
      obtain rfl := hl.unique hm
      exact hcalls
    · exact fun hcalls => ⟨l, hl, hcalls⟩
  cases h with
  | @step _ _ u _ _ _ _ ha hstep hrest =>
      obtain ⟨u', hu', hkept⟩ := hs.step ha.1
      rw [hstep] at hu'
      cases hu'
      have hquiet := hrest.quiet hkept hrun
      have hfirst : s.runFrom (l.head?.map .timer) = u := by
        have hstep' : Except.ok (s.runFrom (s.node .tlList).tlNext) = Except.ok u := hstep
        rw [hl.first] at hstep'
        exact Except.ok.inj hstep'
      rw [CallsDue, hcalls, hlen, hquiet.1]
      have hwait : (∀ t ∈ p, ¬s.expires t < s.jiffies → t ∈ waiting u .run p) →
          ∀ t ∈ p, ¬s.expires t < s.jiffies → .del t ∉ es → t ∈ p' :=
        fun hkeep t ht hlater hdel => hquiet.2 t (hkeep t ht hlater) hdel
      by_cases hdue : ∃ t ∈ l.head?, s.expires t < s.jiffies
      · obtain ⟨t, ht, hlt⟩ := hdue
        obtain ⟨l, rfl⟩ : ∃ l', l = t :: l' := by
          obtain ⟨l', hl'⟩ := List.head?_eq_some_iff.mp ht
          exact ⟨l', hl'⟩
        have hu : u = s.runFrom (some (.timer t)) := hfirst.symm
        rw [runFrom_expired hlt] at hu
        subst hu
        have hcons : s.due (t :: l) = t :: s.due l := by
          simp [Timers.due, hlt]
        rw [hcons, List.map_cons, List.length_cons]
        have hnil : (s.due l).map s.call = [] ↔ (s.due l).length + 1 ≤ 1 := by
          simp
        rw [← hnil]
        constructor
        · rintro ⟨heq, _⟩
          simpa using heq.symm
        · intro he
          refine ⟨by rw [he], hwait fun i hi hlater => ?_⟩
          have hit : i ≠ t := by
            rintro rfl
            exact hlater hlt
          exact (List.mem_erase_of_ne hit).mpr hi
      · have hu : u = { s with calling := none } := by
          rw [← hfirst]
          cases l with
          | nil => rfl
          | cons t l => exact runFrom_later fun hlt => hdue ⟨t, rfl, hlt⟩
        subst hu
        have hnil : s.due l = [] := by
          refine List.filter_eq_nil_iff.mpr fun i hi => ?_
          cases l with
          | nil => cases hi
          | cons t l =>
              have hlt := fun h => hdue ⟨t, rfl, hl.agenda.head_of_lt (hl.mem_iff.mp hi) h⟩
              simpa using hlt
        rw [hnil]
        exact iff_of_true ⟨by simp, hwait fun i hi _ => hi⟩ (Nat.zero_le 1)

/-- In every run the list is in order and every event comes to an end; and a call of
`run_timer_list` is right exactly if at most one timer has expired, as long as no
function puts its own timer back for a time that has passed. -/
theorem timers_run_iff
    {s₀ : Timers ι φ} {es₀ : List (Event ι φ)}
    (hinit : Initial s₀) (hruns : Runs Allowed s₀ [] es₀ s p) :
    (∃ l, Listed s p l) ∧
    (∀ e, Allowed s p e → ∃ u, s.step e = .ok u) ∧
    ∀ es s' p', Runs Patient s p (.run :: es) s' p' → .run ∉ es →
      (CallsDue s p es s' p' ↔ (s.due p).length ≤ 1) := by
  have hkept : Kept s p := hruns.kept (fun _ _ _ h => h) hinit.kept
  refine ⟨hkept.listed, ?_, fun es s' p' h hrun => callsDue_iff hkept h hrun⟩
  intro e he
  obtain ⟨u, hu, _⟩ := hkept.step he
  exact ⟨u, hu⟩

end Step

section Play

variable [Fintype ι] {s s' : Timers ι φ} {p p' : List ι} {es : List (Event ι φ)}

instance (s : Timers ι φ) (t : ι) : Decidable (Clear s t) :=
  inferInstanceAs (Decidable (_ ∧ _))

instance (s : Timers ι φ) (p : List ι) : ∀ e, Decidable (Allowed s p e)
  | .init _ => inferInstanceAs (Decidable (_ ∉ _))
  | .set _ _ _ _ => inferInstanceAs (Decidable (_ ∉ _))
  | .add _ => inferInstanceAs (Decidable (_ ∧ _))
  | .del _ => inferInstanceAs (Decidable (_ ∨ _))
  | .tick => inferInstanceAs (Decidable True)
  | .run => inferInstanceAs (Decidable (_ = _))
  | .back => inferInstanceAs (Decidable (_ ≠ _))

instance (s : Timers ι φ) (p : List ι) : ∀ e, Decidable (Late s p e)
  | .back => inferInstanceAs (Decidable (∃ _, _))
  | .init _ => inferInstanceAs (Decidable False)
  | .set _ _ _ _ => inferInstanceAs (Decidable False)
  | .add _ => inferInstanceAs (Decidable False)
  | .del _ => inferInstanceAs (Decidable False)
  | .tick => inferInstanceAs (Decidable False)
  | .run => inferInstanceAs (Decidable False)

instance (s : Timers ι φ) (p : List ι) (e : Event ι φ) : Decidable (Patient s p e) :=
  inferInstanceAs (Decidable (_ ∧ _))

/-- Where the events lead, if all of them are patient. -/
def Timers.play (s : Timers ι φ) (p : List ι) :
    List (Event ι φ) → Option (Timers ι φ × List ι)
  | [] => some (s, p)
  | e :: es =>
      if Patient s p e then
        match s.step e with
        | .ok u => u.play (waiting u e p) es
        | .error _ => none
      else
        none

theorem play_runs (h : s.play p es = some (s', p')) : Runs Patient s p es s' p' := by
  induction es generalizing s p with
  | nil =>
      obtain ⟨rfl, rfl⟩ := Prod.mk.inj (Option.some.inj h)
      exact Runs.done s p
  | cons e es ih =>
      unfold Timers.play at h
      split at h
      · rename_i hpatient
        split at h
        · rename_i u hu
          exact Runs.step hpatient hu (ih h)
        · cases h
      · cases h

theorem Runs.allowed (h : Runs Patient s p es s' p') : Runs Allowed s p es s' p' := by
  induction h with
  | done => exact Runs.done _ _
  | step ha hs _ ih => exact Runs.step ha.1 hs ih

end Play

section Two

/-- Two timers whose fields hold zeros. -/
def twoTimers : Timers Bool Unit where
  node := fun _ =>
    { tlNext := none
      tlPrev := none
      tlExpires := 0
      tlData := 0
      tlFunction := () }
  jiffies := 5
  calling := none
  calls := []

theorem twoTimers_initial : Initial twoTimers :=
  ⟨rfl, rfl, rfl⟩

/-- Both timers are added, for the times 3 and `e`. -/
def addBoth (e : Nat) : List (Event Bool Unit) :=
  [.init false, .set false 3 7 (), .add false, .init true, .set true e 8 (), .add true]

/-- How many timers have expired when `run_timer_list` is called after that; the call
comes back. -/
def dueThen (e : Nat) : Option Nat :=
  (twoTimers.play [] (addBoth e)).bind fun r =>
    (r.1.play r.2 [.run, .back]).map fun _ => (r.1.due r.2).length

theorem dueThen_runs {e n : Nat} (h : dueThen e = some n) :
    ∃ s p s' p', Runs Patient twoTimers [] (addBoth e) s p ∧
      Runs Patient s p [.run, .back] s' p' ∧ (s.due p).length = n := by
  obtain ⟨⟨s, p⟩, hs, hrest⟩ := Option.bind_eq_some_iff.mp h
  obtain ⟨⟨s', p'⟩, hs', hn⟩ := Option.map_eq_some_iff.mp hrest
  exact ⟨s, p, s', p', play_runs hs, play_runs hs', hn⟩

theorem timers_run_one :
    ∃ s p s' p', Runs Allowed twoTimers [] (addBoth 9) s p ∧
      Runs Patient s p [.run, .back] s' p' ∧ (s.due p).length = 1 ∧
      CallsDue s p [.back] s' p' := by
  have hone : dueThen 9 = some 1 := by decide
  obtain ⟨s, p, s', p', hs, hs', hn⟩ := dueThen_runs hone
  exact ⟨s, p, s', p', hs.allowed, hs', hn,
    ((timers_run_iff twoTimers_initial hs.allowed).2.2 _ _ _ hs' (by simp)).mpr hn.le⟩

/-- Two timers have expired, and `run_timer_list` calls the function of one. -/
theorem run_misses_timer :
    ∃ s p s' p', Runs Allowed twoTimers [] (addBoth 4) s p ∧
      Runs Patient s p [.run, .back] s' p' ∧ (s.due p).length = 2 ∧
      ¬CallsDue s p [.back] s' p' := by
  have htwo : dueThen 4 = some 2 := by decide
  obtain ⟨s, p, s', p', hs, hs', hn⟩ := dueThen_runs htwo
  have hkept : Kept s p := hs.kept (fun _ _ _ h => h.1) twoTimers_initial.kept
  refine ⟨s, p, s', p', hs.allowed, hs', hn, fun hcalls => ?_⟩
  have hle := (callsDue_iff hkept hs' (by simp)).mp hcalls
  omega

end Two

end TimerList
end Elks
