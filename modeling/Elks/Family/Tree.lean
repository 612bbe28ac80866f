import Elks.Lib.Dlist
import Elks.Sched.Machine

/-!
# The family of a task (fork.c, exit.c)

`do_fork` links the new task in at the front of its parent's children, and `do_exit`
takes a task out of the list of its siblings.  The links are pointers into `task`,
whose slots are used again.

**Result.**  `family_tree`: the lists of children are in order in every state of a
run exactly when every task that exits has a brother and no children.  An only child
stays in `p_child` of its parent, and children keep a `p_parent` that has exited.
-/

namespace Elks
namespace Family

open Lib
open Sched (TaskRef maxTasks)
open Function (update update_apply)

/-- `task`, as far as families go.  `unused` says that the state of a task is
`TASK_UNUSED`; `nullPointer`, that a `NULL` was followed. -/
structure State where
  unused : TaskRef → Bool
  pid : TaskRef → Nat
  ppid : TaskRef → Nat
  pParent : TaskRef → Option TaskRef
  pPrevsib : TaskRef → Option TaskRef
  pNextsib : TaskRef → Option TaskRef
  pChild : TaskRef → Option TaskRef
  childLastend : TaskRef → Nat
  lastendStatus : TaskRef → Int
  nullPointer : Bool

def eagain : Int := 11
def enomem : Int := 12

/-- What happens next: `do_fork` with the pid that `get_pid` returns, and
`do_exit`. -/
inductive Act
  | fork (c : TaskRef) (root memory : Bool) (pid : Nat)
  | exit (c : TaskRef) (status : Int)

section Code

variable (s : State)

/-- The slots that `find_empty_process` counts. -/
def State.emptySlots : List TaskRef :=
  (List.finRange maxTasks).filter fun t => s.unused t

/-- `find_empty_process`.  The last slot is kept for the super-user. -/
def State.findEmptyProcess (root : Bool) : Option TaskRef :=
  if s.emptySlots.length ≤ 1 ∧ (s.emptySlots = [] ∨ root = false) then
    none
  else
    s.emptySlots.getLast?

/-- `*t = *currentp`. -/
def State.copyTask (t c : TaskRef) : State :=
  { s with
    unused := update s.unused t (s.unused c)
    pid := update s.pid t (s.pid c)
    ppid := update s.ppid t (s.ppid c)
    pParent := update s.pParent t (s.pParent c)
    pPrevsib := update s.pPrevsib t (s.pPrevsib c)
    pNextsib := update s.pNextsib t (s.pNextsib c)
    pChild := update s.pChild t (s.pChild c)
    childLastend := update s.childLastend t (s.childLastend c)
    lastendStatus := update s.lastendStatus t (s.lastendStatus c) }

/-- `p->p_prevsib = o` for a pointer `p` that may be `NULL`. -/
def State.setPrevsib (p o : Option TaskRef) : State :=
  match p with
  | some p => { s with pPrevsib := update s.pPrevsib p o }
  | none => s

/-- `p->p_nextsib = o` for a pointer `p` that may be `NULL`. -/
def State.setNextsib (p o : Option TaskRef) : State :=
  match p with
  | some p => { s with pNextsib := update s.pNextsib p o }
  | none => s

/-- The family tree of a new task. -/
def State.addChild (t c : TaskRef) : State :=
  let s :=
    { s with
      pParent := update s.pParent t (some c)
      pNextsib := update s.pNextsib t none
      pChild := update s.pChild t none
      childLastend := update s.childLastend t 0
      lastendStatus := update s.lastendStatus t 0
      pPrevsib := update s.pPrevsib t (s.pChild c) }
  let s := s.setNextsib (s.pChild c) (some t)
  { s with pChild := update s.pChild c (some t) }

/-- `do_fork`: what it returns, and the slot of a new task. -/
def State.doFork (c : TaskRef) (root memory : Bool) (pid : Nat) :
    State × Int × Option TaskRef :=
  match s.findEmptyProcess root with
  | none => (s, -eagain, none)
  | some t =>
      let s := s.copyTask t c
      if memory then
        let s :=
          { s with
            unused := update s.unused t false
            pid := update s.pid t pid
            ppid := update s.ppid t (s.pid c) }
        (s.addChild t c, pid, some t)
      else
        ({ s with unused := update s.unused t true }, -enomem, none)

/-- The part of `do_exit` that keeps the family straight. -/
def State.leaveSiblings (c : TaskRef) : State :=
  let s := s.setNextsib (s.pPrevsib c) (s.pNextsib c)
  s.setPrevsib (s.pNextsib c) (s.pPrevsib c)

/-- The part of `do_exit` that looks after `p_child` of the parent. -/
def State.leaveParent (c q : TaskRef) : State :=
  if s.pChild q = some c then
    match (s.pPrevsib c).or (s.pNextsib c) with
    | some t => { s with pChild := update s.pChild q (some t) }
    | none => s
  else
    s

/-- `do_exit`, once the files are closed and up to the inodes. -/
def State.leaveFamily (c : TaskRef) (status : Int) : State :=
  let s := s.leaveSiblings c
  match s.pParent c with
  | none => { s with nullPointer := true }
  | some q =>
      let s := s.leaveParent c q
      { s with
        childLastend := update s.childLastend q (s.pid c)
        lastendStatus := update s.lastendStatus q status }

/-- The slot is `TASK_UNUSED`. -/
def State.free (c : TaskRef) : State :=
  { s with unused := update s.unused c true }

/-- `do_exit`, once the files are closed. -/
def State.doExit (c : TaskRef) (status : Int) : State :=
  if s.pParent c = none then s.leaveFamily c status else (s.leaveFamily c status).free c

/-- What happens next.  Only a task that is there calls. -/
def State.act : Act → State
  | .fork c root memory pid =>
      if s.nullPointer ∨ s.unused c then s else (s.doFork c root memory pid).1
  | .exit c status => if s.nullPointer ∨ s.unused c then s else s.doExit c status

/-- One thing after another. -/
def State.acts (l : List Act) : State :=
  l.foldl State.act s

end Code

/-- The idle task and `init`. -/
def start : State where
  unused t := 1 < t
  pid t := t
  ppid _ := 0
  pParent _ := none
  pPrevsib _ := none
  pNextsib _ := none
  pChild _ := none
  childLastend _ := 0
  lastendStatus _ := 0
  nullPointer := false

/-- A pointer of the family of `t`. -/
inductive State.Link (s : State) (t : TaskRef) : TaskRef → Prop
  | parent {q : TaskRef} (h : s.pParent t = some q) : State.Link s t q
  | prevsib {q : TaskRef} (h : s.pPrevsib t = some q) : State.Link s t q
  | nextsib {q : TaskRef} (h : s.pNextsib t = some q) : State.Link s t q
  | child {q : TaskRef} (h : s.pChild t = some q) : State.Link s t q

/-- `l` are the children of `p`, from the youngest on. -/
structure State.Children (s : State) (p : TaskRef) (l : List TaskRef) : Prop where
  links : Dlist s.pPrevsib s.pNextsib (s.pChild p) none l
  nodup : l.Nodup
  mem : ∀ c, c ∈ l ↔ s.unused c = false ∧ s.pParent c = some p

/-- The families are in order. -/
structure State.InOrder (s : State) : Prop where
  intact : s.nullPointer = false
  children : ∀ p, s.unused p = false → ∃ l, s.Children p l
  links : ∀ t q, s.unused t = false → s.Link t q → s.unused q = false

/-- A task that leaves nothing behind when it exits. -/
def State.MayExit (s : State) (c : TaskRef) : Prop :=
  s.pParent c ≠ none ∧ (s.pPrevsib c ≠ none ∨ s.pNextsib c ≠ none) ∧ s.pChild c = none

section Shapes

variable {s s' : State} {c p q t : TaskRef} {root memory : Bool} {pid : Nat} {status : Int}
  {l : List TaskRef} {p' o : Option TaskRef}

/-- What a new task in slot `t` changes. -/
structure Forked (s s' : State) (c t : TaskRef) : Prop where
  nullPointer : s'.nullPointer = s.nullPointer
  unused : ∀ p, s'.unused p = if p = t then false else s.unused p
  parent : ∀ p, s'.pParent p = if p = t then some c else s.pParent p
  prevsib : ∀ p, s'.pPrevsib p = if p = t then s.pChild c else s.pPrevsib p
  nextsib : ∀ p, s'.pNextsib p =
    if s.pChild c = some p then some t else if p = t then none else s.pNextsib p
  child : ∀ p, s'.pChild p =
    if p = c then some t else if p = t then none else s.pChild p

/-- What the exit of `c`, a child of `q`, changes. -/
structure Exited (s s' : State) (c q : TaskRef) : Prop where
  nullPointer : s'.nullPointer = s.nullPointer
  unused : ∀ p, s'.unused p = if p = c then true else s.unused p
  parent : s'.pParent = s.pParent
  prevsib : ∀ p, s'.pPrevsib p = if s.pNextsib c = some p then s.pPrevsib c else s.pPrevsib p
  nextsib : ∀ p, s'.pNextsib p = if s.pPrevsib c = some p then s.pNextsib c else s.pNextsib p
  child : ∀ p, s'.pChild p =
    if p = q ∧ s.pChild q = some c then ((s.pPrevsib c).or (s.pNextsib c)).or (some c)
    else s.pChild p

theorem update_eq_ite {α : Type} {f : TaskRef → α} {a : α} :
    update f t a p = if p = t then a else f p :=
  update_apply f t a p

theorem findEmptyProcess_unused (h : s.findEmptyProcess root = some t) : s.unused t = true := by
  unfold State.findEmptyProcess at h
  split at h
  · cases h
  · have hmem := List.mem_of_getLast? h
    exact (List.mem_filter.mp hmem).2

theorem setNextsib_pNextsib :
    (s.setNextsib p' o).pNextsib p = if p' = some p then o else s.pNextsib p := by
  cases p' with
  | none => rfl
  | some k =>
      unfold State.setNextsib
      simp only [update_eq_ite, Option.some.injEq, eq_comm]

theorem setPrevsib_pPrevsib :
    (s.setPrevsib p' o).pPrevsib p = if p' = some p then o else s.pPrevsib p := by
  cases p' with
  | none => rfl
  | some k =>
      unfold State.setPrevsib
      simp only [update_eq_ite, Option.some.injEq, eq_comm]

theorem setNextsib_eq :
    s.setNextsib p' o = { s with pNextsib := (s.setNextsib p' o).pNextsib } := by
  cases p' with
  | none => rfl
  | some k => rfl

theorem setPrevsib_eq :
    s.setPrevsib p' o = { s with pPrevsib := (s.setPrevsib p' o).pPrevsib } := by
  cases p' with
  | none => rfl
  | some k => rfl

theorem doFork_cases (root memory : Bool) (pid : Nat) (hc : s.unused c = false) :
    (∃ t, (s.doFork c root memory pid).2.2 = some t ∧ s.unused t = true ∧
      Forked s (s.doFork c root memory pid).1 c t ∧
      (∀ p, (s.doFork c root memory pid).1.pid p = if p = t then pid else s.pid p) ∧
      (∀ p, (s.doFork c root memory pid).1.childLastend p =
        if p = t then 0 else s.childLastend p) ∧
      ∀ p, p ≠ t → (s.doFork c root memory pid).1.lastendStatus p = s.lastendStatus p) ∨
    ((s.doFork c root memory pid).2.2 = none ∧
      (s.doFork c root memory pid).1.nullPointer = s.nullPointer ∧
      (s.doFork c root memory pid).1.unused = s.unused ∧
      (∀ p, s.unused p = false →
        (s.doFork c root memory pid).1.pParent p = s.pParent p ∧
        (s.doFork c root memory pid).1.pPrevsib p = s.pPrevsib p ∧
        (s.doFork c root memory pid).1.pNextsib p = s.pNextsib p ∧
        (s.doFork c root memory pid).1.pChild p = s.pChild p) ∧
      ∀ p, s.unused p = false →
        (s.doFork c root memory pid).1.pid p = s.pid p ∧
        (s.doFork c root memory pid).1.childLastend p = s.childLastend p ∧
        (s.doFork c root memory pid).1.lastendStatus p = s.lastendStatus p) := by
  unfold State.doFork
  cases hempty : s.findEmptyProcess root with
  | none =>
      exact Or.inr ⟨rfl, rfl, rfl, fun p _ => ⟨rfl, rfl, rfl, rfl⟩, fun p _ => ⟨rfl, rfl, rfl⟩⟩
  | some t =>
      have ht := findEmptyProcess_unused hempty
      have hlive : ∀ {p}, s.unused p = false → p ≠ t := by
        rintro p hp rfl
        rw [ht] at hp
        cases hp
      have hct := hlive hc
      cases memory with
      | true =>
          left
          refine ⟨t, rfl, ht, ?_⟩
          simp only [if_true, State.addChild, State.copyTask]
          rw [setNextsib_eq]
          refine ⟨⟨rfl, ?_, ?_, ?_, ?_, ?_⟩, ?_, ?_, ?_⟩
          · intro p
            simp only [update_eq_ite]
            split <;> rfl
          · intro p
            simp only [update_eq_ite]
            split <;> rfl
          · intro p
            simp only [update_eq_ite, if_neg hct]
            split <;> rfl
          · intro p
            simp only [setNextsib_pNextsib, update_eq_ite, if_neg hct]
            split
            · rfl
            · split <;> rfl
          · intro p
            simp only [update_eq_ite]
            split
            · rfl
            · split <;> rfl
          · intro p
            simp only [update_eq_ite]
            split <;> rfl
          · intro p
            simp only [update_eq_ite]
            split <;> rfl
          · intro p hp
            simp only [update_eq_ite, if_neg hp]
      | false =>
          right
          simp only [Bool.false_eq_true, if_false, State.copyTask]
          refine ⟨trivial, trivial, ?_, ?_, ?_⟩
          · funext p
            simp only [update_eq_ite]
            split
            · rename_i hp
              rw [hp, ht]
            · rfl
          · intro p hp
            simp only [update_eq_ite, if_neg (hlive hp), and_self]
          · intro p hp
            simp only [update_eq_ite, if_neg (hlive hp), and_self]

theorem doExit_none (h : s.pParent c = none) : (s.doExit c status).nullPointer = true := by
  unfold State.doExit State.leaveFamily State.leaveSiblings
  rw [if_pos h, setPrevsib_eq, setNextsib_eq]
  simp only [h]

theorem doExit_some (h : s.pParent c = some q) (hprev : s.pPrevsib c ≠ some c)
    (hnext : s.pNextsib c ≠ some c) : Exited s (s.doExit c status) c q := by
  have hsib : s.leaveSiblings c =
      { s with
        pNextsib := (s.setNextsib (s.pPrevsib c) (s.pNextsib c)).pNextsib
        pPrevsib := (s.setPrevsib (s.pNextsib c) (s.pPrevsib c)).pPrevsib } := by
    unfold State.leaveSiblings
    have hown : (s.setNextsib (s.pPrevsib c) (s.pNextsib c)).pNextsib c = s.pNextsib c := by
      rw [setNextsib_pNextsib, if_neg hprev]
    dsimp only
    rw [hown, setPrevsib_eq, setNextsib_eq]
    cases s.pNextsib c with
    | none => rfl
    | some k => rfl
  have hprevsib : (s.leaveSiblings c).pPrevsib c = s.pPrevsib c := by
    rw [hsib]
    simp only [setPrevsib_pPrevsib, if_neg hnext]
  have hnextsib : (s.leaveSiblings c).pNextsib c = s.pNextsib c := by
    rw [hsib]
    simp only [setNextsib_pNextsib, if_neg hprev]
  have hparent : (s.leaveSiblings c).pParent c = some q := by
    rw [hsib]
    exact h
  have hleave : (s.leaveSiblings c).leaveParent c q =
      { s.leaveSiblings c with
        pChild := ((s.leaveSiblings c).leaveParent c q).pChild } := by
    unfold State.leaveParent
    split
    · split
      · rfl
      · rfl
    · rfl
  unfold State.doExit State.leaveFamily State.free
  rw [if_neg (by rw [h]; exact Option.some_ne_none q)]
  simp only [hparent]
  rw [hleave]
  refine ⟨?_, ?_, ?_, ?_, ?_, ?_⟩
  · rw [hsib]
  · intro p
    rw [hsib]
    simp only [update_eq_ite]
  · rw [hsib]
  · intro p
    rw [hsib]
    simp only [setPrevsib_pPrevsib]
  · intro p
    rw [hsib]
    simp only [setNextsib_pNextsib]
  · intro p
    unfold State.leaveParent
    rw [hprevsib, hnextsib]
    have hchild : (s.leaveSiblings c).pChild = s.pChild := by
      rw [hsib]
    rw [hchild]
    by_cases heldest : s.pChild q = some c
    · rw [if_pos heldest]
      cases (s.pPrevsib c).or (s.pNextsib c) with
      | none =>
          simp only [Option.none_or, hchild, heldest, and_true]
          split
          · rename_i hp
            rw [hp, heldest]
          · rfl
      | some t =>
          simp only [update_eq_ite, heldest, and_true, Option.some_or]
    · rw [if_neg heldest, if_neg (fun hboth => heldest hboth.2), hchild]

end Shapes

section Order

variable {s s' : State} {c p q t : TaskRef} {root memory : Bool} {pid : Nat} {status : Int}
  {l : List TaskRef} {a : Act} {acts : List Act}

theorem State.InOrder.congr (h : s.InOrder) (hnull : s'.nullPointer = s.nullPointer)
    (hunused : s'.unused = s.unused)
    (hlinks : ∀ p, s.unused p = false → s'.pParent p = s.pParent p ∧
      s'.pPrevsib p = s.pPrevsib p ∧ s'.pNextsib p = s.pNextsib p ∧ s'.pChild p = s.pChild p) :
    s'.InOrder := by
  refine ⟨hnull.trans h.intact, ?_, ?_⟩
  · intro p hp
    rw [hunused] at hp
    obtain ⟨l, hl⟩ := h.children p hp
    have hthere : ∀ i, i ∈ l → s.unused i = false := fun i hi => ((hl.mem i).mp hi).1
    refine ⟨l, ?_, hl.nodup, ?_⟩
    · rw [(hlinks p hp).2.2.2]
      exact hl.links.congr (fun i hi => (hlinks i (hthere i hi)).2.1)
        fun i hi => (hlinks i (hthere i hi)).2.2.1
    · intro i
      rw [hl.mem, hunused]
      by_cases hi : s.unused i = false
      · rw [(hlinks i hi).1]
      · refine iff_of_false ?_ ?_
        · exact fun hboth => hi hboth.1
        · exact fun hboth => hi hboth.1
  · intro t q ht hlink
    rw [hunused] at ht ⊢
    obtain ⟨hparent, hprev, hnext, hchild⟩ := hlinks t ht
    cases hlink with
    | parent hq => exact h.links t q ht (.parent (hparent ▸ hq))
    | prevsib hq => exact h.links t q ht (.prevsib (hprev ▸ hq))
    | nextsib hq => exact h.links t q ht (.nextsib (hnext ▸ hq))
    | child hq => exact h.links t q ht (.child (hchild ▸ hq))

theorem State.Children.fresh (hl : s.Children p l) (ht : s.unused t = true) : t ∉ l := by
  intro hmem
  rw [((hl.mem t).mp hmem).1] at ht
  cases ht

theorem State.Children.forkedChild (hf : Forked s s' c t) (ht : s.unused t = true) (hct : c ≠ t)
    (hl : s.Children c l) : s'.Children c (t :: l) := by
  have hfresh := hl.fresh ht
  have hhead := hl.links.head_eq
  refine ⟨?_, List.nodup_cons.mpr ⟨hfresh, hl.nodup⟩, ?_⟩
  · rw [hf.child, if_pos rfl]
    refine hl.links.push ?_ ?_ ?_ ?_ ?_
    · rw [hf.prevsib, if_pos rfl]
    · rw [hf.nextsib, if_neg, if_pos rfl]
      intro heldest
      rw [hhead] at heldest
      exact hfresh (List.mem_of_mem_head? heldest)
    · intro k hk
      rw [hf.nextsib, if_pos hk]
    · intro k hk
      rw [hf.prevsib, if_neg]
      rintro rfl
      exact hfresh hk
    · intro k hk
      rw [hf.nextsib, if_neg, if_neg]
      · rintro rfl
        exact hfresh (List.mem_of_mem_tail hk)
      · intro heldest
        rw [hhead] at heldest
        cases l with
        | nil => cases heldest
        | cons j l =>
            obtain rfl := Option.some.inj heldest
            exact (List.nodup_cons.mp hl.nodup).1 hk
  · intro i
    rw [List.mem_cons, hl.mem, hf.unused, hf.parent]
    by_cases hi : i = t
    · simp only [hi, if_true, true_or, and_self]
    · simp only [hi, if_false, false_or]

theorem State.Children.forkedOther
    (h : s.InOrder) (hf : Forked s s' c t) (hc : s.unused c = false) (ht : s.unused t = true)
    (hp : p ≠ c) (hpt : p ≠ t) (hl : s.Children p l) : s'.Children p l := by
  have hfresh := hl.fresh ht
  have hother : ∀ i, i ∈ l → s.pChild c ≠ some i := by
    intro i hi hchild
    obtain ⟨lc, hlc⟩ := h.children c hc
    have hmem : i ∈ lc := by
      have hhead := hlc.links.head_eq
      rw [hchild] at hhead
      exact List.mem_of_mem_head? hhead.symm
    have hparent := ((hlc.mem i).mp hmem).2
    rw [((hl.mem i).mp hi).2] at hparent
    exact hp (Option.some.inj hparent)
  refine ⟨?_, hl.nodup, ?_⟩
  · rw [hf.child, if_neg hp, if_neg hpt]
    refine hl.links.congr ?_ ?_
    · intro i hi
      rw [hf.prevsib, if_neg]
      rintro rfl
      exact hfresh hi
    · intro i hi
      rw [hf.nextsib, if_neg (hother i hi), if_neg]
      rintro rfl
      exact hfresh hi
  · intro i
    rw [hl.mem, hf.unused, hf.parent]
    by_cases hi : i = t
    · simp only [hi, if_true, ht, Option.some.injEq, Ne.symm hp, and_false, Bool.true_eq_false,
        false_and]
    · simp only [hi, if_false]

theorem State.Children.forkedNew
    (h : s.InOrder) (hf : Forked s s' c t) (hct : c ≠ t) (ht : s.unused t = true) :
    s'.Children t [] := by
  refine ⟨?_, List.nodup_nil, ?_⟩
  · rw [hf.child, if_neg (Ne.symm hct), if_pos rfl]
    rfl
  · intro i
    rw [hf.unused, hf.parent]
    by_cases hi : i = t
    · simp only [hi, if_true, Option.some.injEq, hct, and_false, List.not_mem_nil]
    · simp only [hi, if_false, List.not_mem_nil, false_iff, not_and]
      intro hthere hparent
      rw [h.links i t hthere (.parent hparent)] at ht
      cases ht

theorem State.InOrder.forked
    (h : s.InOrder) (hf : Forked s s' c t) (hc : s.unused c = false) (ht : s.unused t = true) :
    s'.InOrder := by
  have hct : c ≠ t := by
    rintro rfl
    rw [ht] at hc
    cases hc
  have hthere : ∀ {q}, s.unused q = false → s'.unused q = false := by
    intro q hq
    rw [hf.unused]
    split
    · rfl
    · exact hq
  have hnew : s'.unused t = false := by
    rw [hf.unused, if_pos rfl]
  refine ⟨hf.nullPointer.trans h.intact, ?_, ?_⟩
  · intro p hp
    by_cases hpc : p = c
    · subst hpc
      obtain ⟨l, hl⟩ := h.children p hc
      exact ⟨t :: l, hl.forkedChild hf ht hct⟩
    · by_cases hpt : p = t
      · subst hpt
        exact ⟨[], State.Children.forkedNew h hf hct ht⟩
      · rw [hf.unused, if_neg hpt] at hp
        obtain ⟨l, hl⟩ := h.children p hp
        exact ⟨l, hl.forkedOther h hf hc ht hpc hpt⟩
  · intro u q hu hlink
    have hold : u ≠ t → s.unused u = false := by
      intro hut
      rw [hf.unused, if_neg hut] at hu
      exact hu
    cases hlink with
    | parent hq =>
        rw [hf.parent] at hq
        split at hq
        · obtain rfl := Option.some.inj hq
          exact hthere hc
        · rename_i hut
          exact hthere (h.links u q (hold hut) (.parent hq))
    | prevsib hq =>
        rw [hf.prevsib] at hq
        split at hq
        · exact hthere (h.links c q hc (.child hq))
        · rename_i hut
          exact hthere (h.links u q (hold hut) (.prevsib hq))
    | nextsib hq =>
        rw [hf.nextsib] at hq
        split at hq
        · obtain rfl := Option.some.inj hq
          exact hnew
        · split at hq
          · cases hq
          · rename_i hut
            exact hthere (h.links u q (hold hut) (.nextsib hq))
    | child hq =>
        rw [hf.child] at hq
        split at hq
        · obtain rfl := Option.some.inj hq
          exact hnew
        · split at hq
          · cases hq
          · rename_i hut
            exact hthere (h.links u q (hold hut) (.child hq))

/-- Who may exit has a parent that is another task, and brothers that are. -/
structure Leaver (s : State) (c q : TaskRef) : Prop where
  parent : s.pParent c = some q
  other : q ≠ c
  there : s.unused q = false
  sibling : s.pPrevsib c ≠ none ∨ s.pNextsib c ≠ none
  childless : ∀ i, s.unused i = false → s.pParent i ≠ some c

theorem State.Children.notSelf (hl : s.Children q l) (hc : c ∈ l) :
    s.pPrevsib c ≠ some c ∧ s.pNextsib c ≠ some c := by
  refine ⟨hl.links.next_ne hl.nodup hc, ?_⟩
  rcases hl.links.prev_mem hc with ⟨_, hback⟩ | ⟨z, hz, _, hnext⟩
  · rw [hback]
    exact (by simp)
  · intro hself
    rw [hz] at hself
    obtain rfl := Option.some.inj hself
    exact hl.links.next_ne hl.nodup hc hnext

theorem State.Children.exitedParent
    (hx : Exited s s' c q) (hv : Leaver s c q) (hl : s.Children q l) (hc : c ∈ l) :
    s'.Children q (l.erase c) := by
  refine ⟨?_, hl.nodup.erase c, ?_⟩
  · have hhead : s'.pChild q = if s.pChild q = some c then s.pPrevsib c else s.pChild q := by
      rw [hx.child]
      by_cases heldest : s.pChild q = some c
      · rw [if_pos ⟨rfl, heldest⟩, if_pos heldest]
        -- the youngest child has an elder brother
        have hfirst : s.pNextsib c = none := by
          rcases hl.links.prev_mem hc with ⟨_, hback⟩ | ⟨z, _, hz, hnext⟩
          · exact hback
          · have hlinks := hl.links
            rw [heldest] at hlinks
            cases l with
            | nil => cases hc
            | cons k l =>
                obtain ⟨hk, hback, _⟩ := hlinks
                obtain rfl := Option.some.inj hk
                exact hback
        rcases hv.sibling with hprev | hnext
        · obtain ⟨k, hk⟩ := Option.ne_none_iff_exists'.mp hprev
          rw [hk]
          rfl
        · exact absurd hfirst hnext
      · rw [if_neg heldest, if_neg fun hboth => heldest hboth.2]
    rw [hhead]
    refine hl.links.erase hl.nodup ?_ hc hx.prevsib hx.nextsib |>.congr ?_ ?_
    · intro z hz
      cases hz
    · exact fun i _ => rfl
    · exact fun i _ => rfl
  · intro i
    rw [hl.nodup.mem_erase_iff, hl.mem, hx.unused, hx.parent]
    by_cases hi : i = c
    · simp only [hi, ne_eq, not_true_eq_false, false_and, if_true, Bool.true_eq_false]
    · simp only [hi, ne_eq, not_false_eq_true, true_and, if_false]

theorem State.Children.exitedOther {lq : List TaskRef}
    (hx : Exited s s' c q) (hv : Leaver s c q) (hlq : s.Children q lq) (hc : c ∈ lq)
    (hp : p ≠ q) (hpc : p ≠ c) (hl : s.Children p l) : s'.Children p l := by
  have hother : ∀ i, i ∈ l → i ∉ lq := by
    intro i hi hi'
    have hparent := ((hlq.mem i).mp hi').2
    rw [((hl.mem i).mp hi).2] at hparent
    exact hp (Option.some.inj hparent)
  refine ⟨?_, hl.nodup, ?_⟩
  · rw [hx.child, if_neg fun hboth => hp hboth.1]
    refine hl.links.congr ?_ ?_
    · intro i hi
      rw [hx.prevsib, if_neg]
      intro hnext
      rcases hlq.links.prev_mem hc with ⟨_, hback⟩ | ⟨z, hz, hmem, _⟩
      · rw [hback] at hnext
        cases hnext
      · rw [hz] at hnext
        obtain rfl := Option.some.inj hnext
        exact hother z hi hmem
    · intro i hi
      rw [hx.nextsib, if_neg]
      intro hprev
      exact hother i hi (hlq.links.next_mem hc hprev)
  · intro i
    rw [hl.mem, hx.unused, hx.parent]
    by_cases hi : i = c
    · subst hi
      refine iff_of_false ?_ ?_
      · rintro ⟨_, hparent⟩
        rw [hv.parent] at hparent
        exact hp (Option.some.inj hparent).symm
      · rintro ⟨hthere, _⟩
        rw [if_pos rfl] at hthere
        cases hthere
    · rw [if_neg hi]

/-- Who has no parent has no brothers. -/
def State.Orphans (s : State) : Prop :=
  ∀ t, s.unused t = false → s.pParent t = none → s.pPrevsib t = none ∧ s.pNextsib t = none

theorem State.InOrder.sibling (h : s.InOrder) (ho : s.Orphans) (ht : s.unused t = false) :
    (∀ q, s.pPrevsib t = some q → s.pNextsib q = some t) ∧
    ∀ q, s.pNextsib t = some q → s.pPrevsib q = some t := by
  cases hparent : s.pParent t with
  | none =>
      obtain ⟨hprev, hnext⟩ := ho t ht hparent
      refine ⟨?_, ?_⟩
      · intro q hq
        rw [hprev] at hq
        cases hq
      · intro q hq
        rw [hnext] at hq
        cases hq
  | some p =>
      obtain ⟨l, hl⟩ := h.children p (h.links t p ht (.parent hparent))
      have hmem := (hl.mem t).mpr ⟨ht, hparent⟩
      refine ⟨?_, ?_⟩
      · exact fun q hq => hl.links.next_prev hmem hq
      · intro q hq
        rcases hl.links.prev_mem hmem with ⟨_, hback⟩ | ⟨z, hz, _, hnext⟩
        · rw [hback] at hq
          cases hq
        · rw [hz] at hq
          obtain rfl := Option.some.inj hq
          exact hnext

theorem State.InOrder.exited
    (h : s.InOrder) (ho : s.Orphans) (hx : Exited s s' c q) (hv : Leaver s c q)
    (hc : s.unused c = false) : s'.InOrder := by
  obtain ⟨lq, hlq⟩ := h.children q hv.there
  have hmem : c ∈ lq := (hlq.mem c).mpr ⟨hc, hv.parent⟩
  obtain ⟨hprevc, hnextc⟩ := hlq.notSelf hmem
  have hthere : ∀ {p}, s'.unused p = false → p ≠ c ∧ s.unused p = false := by
    intro p hp
    rw [hx.unused] at hp
    split at hp
    · cases hp
    · rename_i hpc
      exact ⟨hpc, hp⟩
  have hstill : ∀ {p}, s.unused p = false → p ≠ c → s'.unused p = false := by
    intro p hp hpc
    rw [hx.unused, if_neg hpc]
    exact hp
  refine ⟨hx.nullPointer.trans h.intact, ?_, ?_⟩
  · intro p hp
    obtain ⟨hpc, hold⟩ := hthere hp
    by_cases hpq : p = q
    · subst hpq
      exact ⟨lq.erase c, hlq.exitedParent hx hv hmem⟩
    · obtain ⟨l, hl⟩ := h.children p hold
      exact ⟨l, State.Children.exitedOther hx hv hlq hmem hpq hpc hl⟩
  · intro t r ht hlink
    obtain ⟨htc, hold⟩ := hthere ht
    obtain ⟨hsibprev, hsibnext⟩ := h.sibling ho hold
    cases hlink with
    | parent hr =>
        rw [hx.parent] at hr
        refine hstill (h.links t r hold (.parent hr)) ?_
        rintro rfl
        exact hv.childless t hold hr
    | prevsib hr =>
        rw [hx.prevsib] at hr
        split at hr
        · refine hstill (h.links c r hc (.prevsib hr)) ?_
          rintro rfl
          exact hprevc hr
        · rename_i hnot
          refine hstill (h.links t r hold (.prevsib hr)) ?_
          rintro rfl
          exact hnot (hsibprev r hr)
    | nextsib hr =>
        rw [hx.nextsib] at hr
        split at hr
        · refine hstill (h.links c r hc (.nextsib hr)) ?_
          rintro rfl
          exact hnextc hr
        · rename_i hnot
          refine hstill (h.links t r hold (.nextsib hr)) ?_
          rintro rfl
          exact hnot (hsibnext r hr)
    | child hr =>
        rw [hx.child] at hr
        split at hr
        · rename_i heldest
          rcases hv.sibling with hsib | hsib
          · obtain ⟨k, hk⟩ := Option.ne_none_iff_exists'.mp hsib
            rw [hk] at hr
            obtain rfl := Option.some.inj hr
            refine hstill (h.links c k hc (.prevsib hk)) ?_
            rintro rfl
            exact hprevc hk
          · obtain ⟨k, hk⟩ := Option.ne_none_iff_exists'.mp hsib
            -- a youngest child with a younger brother
            rw [heldest.1] at hold
            have hlinks := hlq.links
            rw [heldest.2] at hlinks
            cases lq with
            | nil => cases hmem
            | cons j l =>
                obtain ⟨hj, hback, _⟩ := hlinks
                obtain rfl := Option.some.inj hj
                rw [hback] at hk
                cases hk
        · rename_i hnot
          refine hstill (h.links t r hold (.child hr)) ?_
          rintro rfl
          obtain ⟨l, hl⟩ := h.children t hold
          have hyoungest : r ∈ l := by
            have hhead := hl.links.head_eq
            rw [hr] at hhead
            exact List.mem_of_mem_head? hhead.symm
          have hparent := ((hl.mem r).mp hyoungest).2
          rw [hv.parent] at hparent
          obtain rfl := Option.some.inj hparent
          exact hnot ⟨rfl, hr⟩

end Order

section Runs

variable {s s' : State} {c p q t : TaskRef} {status : Int} {a : Act} {acts : List Act}

/-- What holds of the tasks in a run, besides the order of the families. -/
structure State.Sane (s : State) : Prop where
  orphans : s.Orphans
  notOwn : ∀ t, s.unused t = false → s.pParent t ≠ some t

theorem State.InOrder.childless_iff (h : s.InOrder) (hc : s.unused c = false) :
    s.pChild c = none ↔ ∀ i, s.unused i = false → s.pParent i ≠ some c := by
  obtain ⟨l, hl⟩ := h.children c hc
  have hhead := hl.links.head_eq
  constructor
  · intro hnone i hi hparent
    rw [hnone] at hhead
    have hmem := (hl.mem i).mpr ⟨hi, hparent⟩
    rw [List.head?_eq_none_iff.mp hhead.symm] at hmem
    cases hmem
  · intro hnone
    rw [hhead, List.head?_eq_none_iff, List.eq_nil_iff_forall_not_mem]
    intro i hi
    exact hnone i ((hl.mem i).mp hi).1 ((hl.mem i).mp hi).2

theorem State.MayExit.leaver
    (hm : s.MayExit c) (h : s.InOrder) (hs : s.Sane) (hc : s.unused c = false) :
    ∃ q, Leaver s c q := by
  obtain ⟨q, hq⟩ := Option.ne_none_iff_exists'.mp hm.1
  refine ⟨q, hq, ?_, h.links c q hc (.parent hq), hm.2.1, (h.childless_iff hc).mp hm.2.2⟩
  rintro rfl
  exact hs.notOwn q hc hq

theorem State.InOrder.exitedOf
    (status : Int) (h : s.InOrder) (hc : s.unused c = false) (hq : s.pParent c = some q) :
    Exited s (s.doExit c status) c q := by
  obtain ⟨l, hl⟩ := h.children q (h.links c q hc (.parent hq))
  obtain ⟨hprev, hnext⟩ := hl.notSelf ((hl.mem c).mpr ⟨hc, hq⟩)
  exact doExit_some hq hprev hnext

theorem State.Sane.forked
    (hs : s.Sane) (hf : Forked s s' c t) (hc : s.unused c = false) (ht : s.unused t = true)
    (h : s.InOrder) : s'.Sane := by
  have hct : c ≠ t := by
    rintro rfl
    rw [ht] at hc
    cases hc
  refine ⟨?_, ?_⟩
  · intro u hu horphan
    rw [hf.parent] at horphan
    split at horphan
    · cases horphan
    · rename_i hut
      rw [hf.unused, if_neg hut] at hu
      rw [hf.prevsib, if_neg hut, hf.nextsib, if_neg hut, if_neg]
      · exact hs.orphans u hu horphan
      · -- a child has a parent
        intro hchild
        obtain ⟨l, hl⟩ := h.children c hc
        have hhead := hl.links.head_eq
        rw [hchild] at hhead
        have hparent := ((hl.mem u).mp (List.mem_of_mem_head? hhead.symm)).2
        rw [horphan] at hparent
        cases hparent
  · intro u hu
    rw [hf.parent]
    split
    · rename_i hut
      rw [hut]
      exact fun heq => hct (Option.some.inj heq)
    · rename_i hut
      rw [hf.unused, if_neg hut] at hu
      exact hs.notOwn u hu

theorem State.Sane.exited
    (hs : s.Sane) (hx : Exited s s' c q) (hc : s.unused c = false) (h : s.InOrder) : s'.Sane := by
  refine ⟨?_, ?_⟩
  · intro u hu horphan
    rw [hx.unused] at hu
    split at hu
    · cases hu
    · rw [hx.parent] at horphan
      obtain ⟨hprev, hnext⟩ := hs.orphans u hu horphan
      obtain ⟨hsibprev, hsibnext⟩ := h.sibling hs.orphans hc
      rw [hx.prevsib, hx.nextsib]
      refine ⟨?_, ?_⟩
      · split
        · rename_i hback
          have := hsibnext u hback
          rw [hprev] at this
          cases this
        · exact hprev
      · split
        · rename_i hback
          have := hsibprev u hback
          rw [hnext] at this
          cases this
        · exact hnext
  · intro u hu
    rw [hx.unused] at hu
    split at hu
    · cases hu
    · rw [hx.parent]
      exact hs.notOwn u hu

/-- What an action needs to leave the families in order. -/
def State.Allows (s : State) : Act → Prop
  | .fork _ _ _ _ => True
  | .exit c _ => s.unused c = false → s.MayExit c

theorem State.InOrder.act (h : s.InOrder) (hs : s.Sane) (ha : s.Allows a) :
    (s.act a).InOrder ∧ (s.act a).Sane := by
  cases a with
  | fork c root memory pid =>
      simp only [State.act]
      split
      · exact ⟨h, hs⟩
      · rename_i hcan
        have hc : s.unused c = false := by simpa using (not_or.mp hcan).2
        rcases doFork_cases root memory pid hc with
          ⟨t, -, ht, hf, -⟩ | ⟨-, hnull, hunused, hlinks, -⟩
        · exact ⟨h.forked hf hc ht, hs.forked hf hc ht h⟩
        · refine ⟨h.congr hnull hunused hlinks, ?_, ?_⟩
          · intro u hu horphan
            rw [hunused] at hu
            rw [(hlinks u hu).1] at horphan
            rw [(hlinks u hu).2.1, (hlinks u hu).2.2.1]
            exact hs.orphans u hu horphan
          · intro u hu
            rw [hunused] at hu
            rw [(hlinks u hu).1]
            exact hs.notOwn u hu
  | exit c status =>
      simp only [State.act]
      split
      · exact ⟨h, hs⟩
      · rename_i hcan
        have hc : s.unused c = false := by simpa using (not_or.mp hcan).2
        obtain ⟨q, hv⟩ := (ha hc).leaver h hs hc
        have hx := h.exitedOf status hc hv.parent
        exact ⟨h.exited hs.orphans hx hv hc, hs.exited hx hc h⟩

theorem State.InOrder.mayExit (h : s.InOrder) (hs : s.Sane) (hc : s.unused c = false)
    (h' : (s.doExit c status).InOrder) : s.MayExit c := by
  have hparent : s.pParent c ≠ none := by
    intro hnone
    have hnull := h'.intact
    rw [doExit_none hnone] at hnull
    cases hnull
  obtain ⟨q, hq⟩ := Option.ne_none_iff_exists'.mp hparent
  have hx := h.exitedOf status hc hq
  have hqc : q ≠ c := by
    rintro rfl
    exact hs.notOwn q hc hq
  have hthere := h.links c q hc (.parent hq)
  have hgone : (s.doExit c status).unused c = true := by
    rw [hx.unused, if_pos rfl]
  have hstill : ∀ {p}, s.unused p = false → p ≠ c → (s.doExit c status).unused p = false := by
    intro p hp hpc
    rw [hx.unused, if_neg hpc]
    exact hp
  refine ⟨hparent, ?_, ?_⟩
  · by_contra hnone
    obtain ⟨hprev, hnext⟩ := not_or.mp hnone
    rw [not_not] at hprev hnext
    obtain ⟨l, hl⟩ := h.children q hthere
    -- an only child is `p_child` of its parent, and stays there
    have hyoungest : s.pChild q = some c := by
      rcases hl.links.prev_mem ((hl.mem c).mpr ⟨hc, hq⟩) with ⟨hfirst, _⟩ | ⟨z, hz, _, _⟩
      · exact hfirst
      · rw [hnext] at hz
        cases hz
    have hstale : (s.doExit c status).pChild q = some c := by
      rw [hx.child, if_pos ⟨rfl, hyoungest⟩, hprev, hnext]
      rfl
    rw [h'.links q c (hstill hthere hqc) (.child hstale)] at hgone
    cases hgone
  · rw [h.childless_iff hc]
    intro i hi hchild
    have hic : i ≠ c := by
      rintro rfl
      exact hs.notOwn i hi hchild
    have hstale : (s.doExit c status).pParent i = some c := by
      rw [hx.parent]
      exact hchild
    rw [h'.links i c (hstill hi hic) (.parent hstale)] at hgone
    cases hgone

theorem start_inOrder : start.InOrder := by
  refine ⟨rfl, ?_, ?_⟩
  · intro p _
    refine ⟨[], rfl, List.nodup_nil, ?_⟩
    intro c
    refine iff_of_false (by simp) ?_
    rintro ⟨_, hparent⟩
    cases hparent
  · intro t q _ hlink
    cases hlink with
    | parent hq => cases hq
    | prevsib hq => cases hq
    | nextsib hq => cases hq
    | child hq => cases hq

theorem start_sane : start.Sane := by
  refine ⟨fun t _ _ => ⟨rfl, rfl⟩, ?_⟩
  intro t _ hparent
  cases hparent

theorem acts_snoc {l : List Act} : s.acts (l ++ [a]) = (s.acts l).act a := by
  unfold State.acts
  rw [List.foldl_append]
  rfl

/-- The families are in order in every state of a run just when every task that exits
in it has a brother and no children. -/
theorem family_tree (acts : List Act) :
    (∀ l, l <+: acts → (start.acts l).InOrder) ↔
      ∀ l c status, l ++ [.exit c status] <+: acts → (start.acts l).unused c = false →
        (start.acts l).MayExit c := by
  constructor
  · intro h l c status hl hc
    -- the families were in order up to the exit, and are behind it
    have hsane : ∀ l, l <+: acts → (start.acts l).Sane := by
      intro l
      induction l using List.reverseRecOn with
      | nil => exact fun _ => start_sane
      | append_singleton l a ih =>
          intro hl
          have hprefix : l <+: acts := (List.prefix_append l [a]).trans hl
          have hl' := h _ hl
          rw [acts_snoc] at hl' ⊢
          refine ((h l hprefix).act (ih hprefix) ?_).2
          cases a with
          | fork c root memory pid => trivial
          | exit c status =>
              intro hc
              have hnull := (h l hprefix).intact
              simp only [State.act, hnull, hc, Bool.false_eq_true, or_self, if_false] at hl'
              exact (h l hprefix).mayExit (ih hprefix) hc hl'
    have hprefix : l <+: acts := (List.prefix_append l _).trans hl
    have hl' := h _ hl
    rw [acts_snoc] at hl'
    have hnull := (h l hprefix).intact
    simp only [State.act, hnull, hc, Bool.false_eq_true, or_self, if_false] at hl'
    exact (h l hprefix).mayExit (hsane l hprefix) hc hl'
  · intro h l hl
    suffices hboth : (start.acts l).InOrder ∧ (start.acts l).Sane from hboth.1
    induction l using List.reverseRecOn with
    | nil => exact ⟨start_inOrder, start_sane⟩
    | append_singleton l a ih =>
        have hprefix : l <+: acts := (List.prefix_append l [a]).trans hl
        obtain ⟨hin, hsane⟩ := ih hprefix
        rw [acts_snoc]
        refine hin.act hsane ?_
        cases a with
        | fork c root memory pid => trivial
        | exit c status => exact fun hc => h l c status hl hc

/-- `init` forks one child, which exits: `p_child` of `init` is an unused slot.  The
next child gets that slot, and is its own brother. -/
theorem only_child_exits :
    ∃ acts, acts = [.fork 1 true true 2, .exit 14 0] ∧ ¬ (start.acts acts).InOrder ∧
      (start.acts acts).pChild 1 = some 14 ∧ (start.acts acts).unused 14 = true ∧
      ((start.acts acts).act (.fork 1 true true 3)).pPrevsib 14 = some 14 := by
  refine ⟨_, rfl, ?_, rfl, rfl, rfl⟩
  intro h
  have hunused := h.links 1 14 rfl (.child rfl)
  cases hunused

end Runs

end Family
end Elks
