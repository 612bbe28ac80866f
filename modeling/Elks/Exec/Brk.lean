import Elks.Exec.UserArea
import Elks.Mm.Strung

/-!
# The heap of a task (fs/exec.c, arch/i86/mm/malloc.c, CONFIG_SWAP off)

`sys_brk` moves the end of the heap of a task.  It compares with what `sys_execve` has
noted about the data segment, in sixteen bits, and with CONFIG_EXEC_ELKS has
`mm_resize` make the segment larger.

**Results.**  `mayBrk_iff`: when one call keeps the heap in the segment and, if the stack
lies above it, away from its end.  `brk_keeps`: a program whose data and bss fit stays in
order over every run of such calls, whatever happens to the rest of the memory between
them.
-/

namespace Elks
namespace Exec

open Lib Mm
open Minix (Errno)

/-- The allocator and the task that calls. -/
structure BrkState where
  arena : Arena
  task : UserTask

/-- `(len + 15) >> 4`. -/
def brkPages (len : Nat) : Nat :=
  wrap 16 (len + 15) / 16

section Code

variable (elks advanced : Bool) (s : BrkState) (len : Nat)

/-- The arm of `sys_brk` that resizes the segment. -/
def BrkState.resize : Except Fault (Option Errno × BrkState) := do
  match ← findHole s.arena s.task.dseg with
  | none => .error .nullPointer
  | some h =>
      let (a, h) ← mmResize advanced s.arena h (brkPages len)
      match h with
      | none => .ok (some .enomem, { s with arena := a })
      | some h =>
          if (a.holes h).refcount ≠ 1 then
            .error (.panic "Relocated shared hole")
          else
            let base := (a.holes h).pageBase
            .ok (none,
              { arena := a
                task :=
                  { s.task with
                    dseg := base
                    ds := base
                    ss := base
                    endseg := len
                    endbrk := len } })

/-- `sys_brk`; `elks` is CONFIG_EXEC_ELKS and `advanced` CONFIG_ADVANCED_MM. -/
def BrkState.sysBrk : Except Fault (Option Errno × BrkState) :=
  if len < s.task.enddata then
    .ok (some .enomem, s)
  else if s.task.endbrk < s.task.begstack ∧ wrapSub 16 s.task.endseg 0x1000 < len then
    .ok (some .enomem, s)
  else if elks = true ∧ s.task.endseg < len then
    s.resize advanced len
  else
    .ok (none, { s with task := { s.task with endbrk := len } })

end Code

/-- The bytes of the segment at `base`. -/
def dataSize (a : Arena) (base : Nat) : Nat :=
  match findHole a base with
  | .ok (some m) => 16 * (a.holes m).extent
  | _ => 0

/-- The bytes of the data segment of the task. -/
def BrkState.size (s : BrkState) : Nat :=
  dataSize s.arena s.task.dseg

/-- The heap ends in the segment, and `t_endseg` is its size where it can be. -/
structure BrkState.Bounded (s : BrkState) : Prop where
  enddata_le : s.task.enddata ≤ s.task.endbrk
  endbrk_le : s.task.endbrk ≤ s.size
  endseg : s.size ≤ 0xffff → s.task.endseg = s.size

/-- The segment of the task is a used hole of the list, of no more than 64 KiB, and
`t_endseg` has sixteen bits. -/
structure BrkState.Housed (start stop : Nat) (s : BrkState) : Prop where
  hole : ∃ l m, Strung start stop s.arena l ∧ m ∈ l ∧ (s.arena.holes m).flags = .used ∧
    (s.arena.holes m).pageBase = s.task.dseg
  size_le : s.size ≤ 0x10000
  endseg_lt : s.task.endseg < 0x10000

/-- A program has been started: its task is as `sys_execve` leaves it, with a segment of
the size that it has asked for. -/
structure Started (elks : Bool) (start stop : Nat) (b : Binary) (s : BrkState) : Prop where
  accepted : ∃ file loadCode, accept elks file loadCode = some b
  housed : s.Housed start stop
  size : s.size = dataLen b.mh b.stackTop
  task : ∃ slen, s.task = b.start s.task.dseg slen

/-- The data and the bss of a program lie in its segment and end where sixteen bits can
say. -/
def Binary.HeapFits (b : Binary) : Prop :=
  b.mh.dseg + b.mh.bseg + b.stackTop ≤ dataLen b.mh b.stackTop ∧
    b.mh.dseg + b.mh.bseg + b.stackTop < 0x10000

section Conditions

variable (elks advanced old : Bool) (s : BrkState) (len : Nat)

/-- `sys_brk` refuses at once. -/
def BrkState.Refuses : Prop :=
  len < s.task.enddata ∨
    s.task.endbrk < s.task.begstack ∧ wrapSub 16 s.task.endseg 0x1000 < len

/-- `mm_resize` finds pages for the segment. -/
def HasRoom (a : Arena) (m : Slot) (pages : Nat) : Prop :=
  pages ≤ (a.holes m).extent ∨ NextSuffices a m pages ∨ advanced = true ∧ ∃ i, Fits a pages i

/-- `sys_brk` asks for pages that are not there. -/
def BrkState.Lacks : Prop :=
  elks = true ∧ s.task.endseg < len ∧
    ∀ m, findHole s.arena s.task.dseg = .ok (some m) → ¬HasRoom advanced s.arena m (brkPages len)

/-- The stack is known to lie above the heap, and 4 KiB below `t_endseg` is not below zero,
unless zero stands for a full segment. -/
def BrkState.Guarded : Prop :=
  s.task.endbrk < s.task.begstack ∧ (s.task.endseg = 0 ∨ 0x1000 ≤ s.task.endseg)

/-- The calls that go right.  `old` is a program with the stack above the heap. -/
def BrkState.MayBrk : Prop :=
  s.Refuses len ∨ s.Lacks elks advanced len ∨
    if old = true then
      s.Guarded ∨ len + 0x1000 ≤ s.size
    else
      s.size = 0x10000 ∨ len ≤ s.size ∨ elks = true ∧ 16 ∣ len

end Conditions

/-- A run of calls of `sys_brk` that go right.  Between them the other tasks may use the
allocator, which leaves the segment of this task alone. -/
inductive BrkReached (elks advanced old : Bool) (start stop : Nat) (s₀ : BrkState) :
    BrkState → Prop
  | start : BrkReached elks advanced old start stop s₀ s₀
  | brk {s s' : BrkState} {len : Nat} {r : Option Errno}
      (h : BrkReached elks advanced old start stop s₀ s)
      (hlen : len < 0x10000)
      (hmay : s.MayBrk elks advanced old len)
      (hstep : s.sysBrk elks advanced len = .ok (r, s')) :
      BrkReached elks advanced old start stop s₀ s'
  | other {s : BrkState} {a : Arena}
      (h : BrkReached elks advanced old start stop s₀ s)
      (hhoused : ({ s with arena := a } : BrkState).Housed start stop)
      (hsize : ({ s with arena := a } : BrkState).size = s.size) :
      BrkReached elks advanced old start stop s₀ { s with arena := a }

section Steps

variable {elks advanced old : Bool} {start stop len : Nat} {s s' : BrkState} {a : Arena}
  {m : Slot} {r : Option Errno}

theorem dataSize_of_findHole {base : Nat} (h : findHole a base = .ok (some m)) :
    dataSize a base = 16 * (a.holes m).extent := by
  unfold dataSize
  rw [h]

theorem BrkState.Housed.found (h : s.Housed start stop) :
    ∃ l m, Strung start stop s.arena l ∧ m ∈ l ∧ (s.arena.holes m).flags = .used ∧
      findHole s.arena s.task.dseg = .ok (some m) ∧ s.size = 16 * (s.arena.holes m).extent ∧
      0 < (s.arena.holes m).extent := by
  obtain ⟨l, m, hstrung, hm, hused, hbase⟩ := h.hole
  have hfind := hstrung.findHole_used hm hused
  rw [hbase] at hfind
  have hpos := (hstrung.tiles.mem_bounds (List.mem_map_of_mem hm)).2.1
  simp only [MallocHole.seg, mend_extent] at hpos
  exact ⟨l, m, hstrung, hm, hused, hfind, dataSize_of_findHole hfind, hpos⟩

theorem brkPages_lt (len : Nat) : brkPages len < 2 ^ 16 :=
  lt_of_le_of_lt (Nat.div_le_self _ _) (wrap_lt 16 _)

theorem mmResize_isSome_iff {pages : Nat} {a' : Arena} {n : Option Slot} {l : List Slot}
    (h : Strung start stop a l) (hstart : 0 < start) (hstop : stop < 2 ^ 16)
    (hpages : pages < 2 ^ 16) (hm : m ∈ l) (hused : (a.holes m).flags = .used)
    (hok : mmResize advanced a m pages = .ok (a', n)) : n.isSome ↔ HasRoom advanced a m pages := by
  unfold HasRoom
  by_cases hsmall : pages ≤ (a.holes m).extent
  · rw [mmResize, if_pos hsmall] at hok
    rw [← (Prod.mk.inj (Except.ok.inj hok)).2]
    exact iff_of_true rfl (Or.inl hsmall)
  · cases hk : (a.holes m).next with
    | none =>
        rw [mmResize_last advanced hsmall hk] at hok
        cases hok
    | some k =>
        have hsuffices : NextSuffices a m pages ↔
            (a.holes k).flags = .free ∧
              wrapSub 16 pages (a.holes m).extent ≤ (a.holes k).extent := by
          rw [wrapSub_of_le (by omega) hpages]
          constructor
          · rintro ⟨k', hk', hfree, hle⟩
            rw [hk] at hk'
            obtain rfl := Option.some.inj hk'
            exact ⟨hfree, by omega⟩
          · rintro ⟨hfree, hle⟩
            exact ⟨k, hk, hfree, by omega⟩
        by_cases hnext : (a.holes k).flags = .free ∧
            wrapSub 16 pages (a.holes m).extent ≤ (a.holes k).extent
        · obtain ⟨a₁, _, hok₁, _⟩ :=
            h.takeNext advanced hstop hpages hm hused hsmall hk hnext.1 hnext.2
          rw [hok] at hok₁
          rw [(Prod.mk.inj (Except.ok.inj hok₁)).2]
          exact iff_of_true rfl (Or.inr (Or.inl (hsuffices.mpr hnext)))
        · cases advanced with
          | false =>
              rw [mmResize, if_neg hsmall] at hok
              simp only [hk, if_neg hnext, Bool.false_eq_true, if_false] at hok
              rw [← (Prod.mk.inj (Except.ok.inj hok)).2]
              refine iff_of_false Bool.false_ne_true ?_
              rintro (hle | hsuff | ⟨htrue, _⟩)
              · exact hsmall hle
              · exact hnext (hsuffices.mp hsuff)
              · cases htrue
          | true =>
              cases n with
              | none => exact absurd hok (mmResize_true_ne_none hsmall hk hnext)
              | some n =>
                  obtain ⟨_, _, _, _, _, hfit⟩ :=
                    h.move hstart hstop hm hused hsmall hk hnext hok
                  exact iff_of_true rfl (Or.inr (Or.inr ⟨rfl, hfit⟩))

theorem resize_cases (hhoused : s.Housed start stop) (hstart : 0 < start)
    (hstop : stop < 2 ^ 16) (hok : s.resize advanced len = .ok (r, s')) :
    ∃ m, findHole s.arena s.task.dseg = .ok (some m) ∧
      ((¬HasRoom advanced s.arena m (brkPages len) ∧ r = some .enomem ∧ s' = s) ∨
        (HasRoom advanced s.arena m (brkPages len) ∧ r = none ∧
          s'.task.enddata = s.task.enddata ∧ s'.task.endbrk = len ∧ s'.task.endseg = len ∧
          s'.size = 16 * grown s.arena m (brkPages len) ∧
          ∃ l n, Strung start stop s'.arena l ∧ n ∈ l ∧ (s'.arena.holes n).flags = .used ∧
            (s'.arena.holes n).pageBase = s'.task.dseg)) := by
  obtain ⟨l, m, hstrung, hm, hused, hfind, -, -⟩ := hhoused.found
  refine ⟨m, hfind, ?_⟩
  unfold BrkState.resize at hok
  simp only [hfind, bind, Except.bind] at hok
  cases hresize : mmResize advanced s.arena m (brkPages len) with
  | error e =>
      simp only [hresize] at hok
      cases hok
  | ok res =>
      obtain ⟨a, h⟩ := res
      simp only [hresize] at hok
      have hroom := mmResize_isSome_iff hstrung hstart hstop (brkPages_lt len) hm hused hresize
      obtain ⟨l', hstrung', hcases⟩ :=
        hstrung.mmResize_spec hstart hstop (brkPages_lt len) hm hused hresize
      cases h with
      | none =>
          obtain ⟨rfl, rfl⟩ := Prod.mk.inj (Except.ok.inj hok)
          rcases hcases with ⟨-, ha⟩ | ⟨n, hn, -⟩
          · refine Or.inl ⟨fun hr => Bool.false_ne_true (hroom.mpr hr), rfl, ?_⟩
            rw [ha]
          · cases hn
      | some n =>
          rcases hcases with ⟨hn, -⟩ | ⟨n', hn, hmem, hflags, hext⟩
          · cases hn
          obtain rfl := Option.some.inj hn
          dsimp only at hok
          split at hok
          · cases hok
          · obtain ⟨rfl, rfl⟩ := Prod.mk.inj (Except.ok.inj hok)
            refine Or.inr ⟨hroom.mp rfl, rfl, rfl, rfl, rfl, ?_, l', n, hstrung', hmem, hflags, rfl⟩
            rw [← hext]
            exact dataSize_of_findHole (hstrung'.findHole_used hmem hflags)

theorem resized_iff {e endseg : Nat} (he : 16 * e ≤ 0x10000)
    (hendseg : 16 * e ≤ 0xffff → endseg = 16 * e) (hlen : len < 0x10000) (hmore : endseg < len) :
    (len ≤ 16 * max e (brkPages len) ∧
        (16 * max e (brkPages len) ≤ 0xffff → len = 16 * max e (brkPages len))) ↔
      16 * e = 0x10000 ∨ len ≤ 16 * e ∨ 16 ∣ len := by
  unfold brkPages wrap
  omega

theorem guarded_below (hhoused : s.Housed start stop) (hbounded : s.Bounded)
    (hguarded : s.Guarded) (haccepted : ¬s.Refuses len) : len + 0x1000 ≤ s.size := by
  obtain ⟨_, _, -, -, -, -, hsize, hpos⟩ := hhoused.found
  have hle := hhoused.size_le
  have hlt := hhoused.endseg_lt
  have hendseg := hbounded.endseg
  obtain ⟨hstack, hend⟩ := hguarded
  unfold BrkState.Refuses at haccepted
  have hbelow : len ≤ wrapSub 16 s.task.endseg 0x1000 := by
    by_contra hlt
    exact haccepted (Or.inr ⟨hstack, not_le.mp hlt⟩)
  have hshort : s.size ≤ 0xffff ∨ s.size = 0x10000 := by omega
  unfold wrapSub wrap at hbelow
  rcases hshort with hshort | hfull
  · rw [hendseg hshort] at hbelow hend
    omega
  · omega

theorem refused_iff {P : Prop} (hP : P) (hbounded : s.Bounded) :
    P ↔ s.Bounded ∧ (old = true → s.size < len + 0x1000 → some Errno.enomem = some .enomem) :=
  iff_of_true hP ⟨hbounded, fun _ _ => rfl⟩

theorem accepted_iff {P : Prop} (hrefuses : ¬s.Refuses len) (hlacks : ¬s.Lacks elks advanced len)
    (hguard : s.Guarded → len + 0x1000 ≤ s.size)
    (hP : P ↔ s.size = 0x10000 ∨ len ≤ s.size ∨ elks = true ∧ 16 ∣ len) :
    s.MayBrk elks advanced old len ↔
      P ∧ (old = true → s.size < len + 0x1000 → (none : Option Errno) = some .enomem) := by
  unfold BrkState.MayBrk
  rw [hP, or_iff_right hrefuses, or_iff_right hlacks]
  cases old with
  | false =>
      rw [if_neg Bool.false_ne_true]
      exact (and_iff_left fun h => absurd h Bool.false_ne_true).symm
  | true =>
      rw [if_pos rfl]
      have hfits : s.Guarded ∨ len + 0x1000 ≤ s.size ↔ len + 0x1000 ≤ s.size :=
        or_iff_right_of_imp hguard
      rw [hfits]
      constructor
      · intro hroom
        exact ⟨Or.inr (Or.inl (by omega)), fun _ hnear => absurd hnear (not_lt.mpr hroom)⟩
      · rintro ⟨-, hnear⟩
        by_contra hroom
        cases hnear rfl (not_le.mp hroom)

theorem bounded_of_resized {m : Slot} (hsmall : ¬len < s.task.enddata)
    (henddata : s'.task.enddata = s.task.enddata) (hendbrk : s'.task.endbrk = len)
    (hendseg : s'.task.endseg = len) (hsize : s'.size = 16 * grown s.arena m (brkPages len)) :
    s'.Bounded ↔ len ≤ 16 * grown s.arena m (brkPages len) ∧
      (16 * grown s.arena m (brkPages len) ≤ 0xffff →
        len = 16 * grown s.arena m (brkPages len)) := by
  constructor
  · rintro ⟨-, hheap, hend⟩
    rw [hendbrk, hsize] at hheap
    rw [hendseg, hsize] at hend
    exact ⟨hheap, hend⟩
  · rintro ⟨hheap, hend⟩
    refine ⟨?_, ?_, ?_⟩
    · rw [henddata, hendbrk]
      exact not_lt.mp hsmall
    · rw [hendbrk, hsize]
      exact hheap
    · rw [hendseg, hsize]
      exact hend

/-- One call: it goes right exactly if the heap is in the segment then, and, with the stack
above it, one that would come near the end of the segment has been refused. -/
theorem mayBrk_iff (hhoused : s.Housed start stop) (hbounded : s.Bounded) (hstart : 0 < start)
    (hstop : stop < 2 ^ 16) (hlen : len < 0x10000)
    (hok : s.sysBrk elks advanced len = .ok (r, s')) :
    s.MayBrk elks advanced old len ↔
      s'.Bounded ∧ (old = true → s.size < len + 0x1000 → r = some .enomem) := by
  unfold BrkState.sysBrk at hok
  split_ifs at hok with hsmall hnear hmore
  · obtain ⟨rfl, rfl⟩ := Prod.mk.inj (Except.ok.inj hok)
    exact refused_iff (Or.inl (Or.inl hsmall)) hbounded
  · obtain ⟨rfl, rfl⟩ := Prod.mk.inj (Except.ok.inj hok)
    exact refused_iff (Or.inl (Or.inr hnear)) hbounded
  · have hrefuses : ¬s.Refuses len := not_or.mpr ⟨hsmall, hnear⟩
    obtain ⟨rfl, hmore⟩ := hmore
    obtain ⟨m, hfind, ⟨hroom, rfl, rfl⟩ | ⟨hroom, rfl, henddata, hendbrk, hendseg, hsize', -⟩⟩ :=
      resize_cases hhoused hstart hstop hok
    · refine refused_iff (Or.inr (Or.inl ⟨rfl, hmore, fun i hi => ?_⟩)) hbounded
      rw [hfind] at hi
      rwa [← Option.some.inj (Except.ok.inj hi)]
    · have hlacks : ¬s.Lacks true advanced len := fun h => h.2.2 m hfind hroom
      have hsize : s.size = 16 * (s.arena.holes m).extent := dataSize_of_findHole hfind
      have hle := hhoused.size_le
      have hold := hbounded.endseg
      refine accepted_iff hrefuses hlacks
        (fun hguarded => guarded_below hhoused hbounded hguarded hrefuses) ?_
      rw [bounded_of_resized hsmall henddata hendbrk hendseg hsize', and_iff_right rfl]
      rw [hsize] at hle hold ⊢
      exact resized_iff hle hold hlen hmore
  · obtain ⟨rfl, rfl⟩ := Prod.mk.inj (Except.ok.inj hok)
    have hrefuses : ¬s.Refuses len := not_or.mpr ⟨hsmall, hnear⟩
    have hlacks : ¬s.Lacks elks advanced len := fun h => hmore ⟨h.1, h.2.1⟩
    have hle := hhoused.size_le
    have hlt := hhoused.endseg_lt
    have hendseg := hbounded.endseg
    have hbounded' :
        ({ s with task := { s.task with endbrk := len } } : BrkState).Bounded ↔ len ≤ s.size :=
      ⟨fun h => h.endbrk_le, fun h => ⟨not_lt.mp hsmall, h, hbounded.endseg⟩⟩
    refine accepted_iff hrefuses hlacks
      (fun hguarded => guarded_below hhoused hbounded hguarded hrefuses) ?_
    rw [hbounded']
    constructor
    · intro hfits
      exact Or.inr (Or.inl hfits)
    · rintro (hfull | hfits | ⟨helks, -⟩)
      · omega
      · exact hfits
      · have hnot : ¬s.task.endseg < len := fun h => hmore ⟨helks, h⟩
        omega

/-- One call leaves the segment of the task a used hole. -/
theorem sysBrk_housed (hhoused : s.Housed start stop) (hstart : 0 < start)
    (hstop : stop < 2 ^ 16) (hlen : len < 0x10000)
    (hok : s.sysBrk elks advanced len = .ok (r, s')) : s'.Housed start stop := by
  unfold BrkState.sysBrk at hok
  split_ifs at hok with hsmall hnear hmore
  · obtain ⟨rfl, rfl⟩ := Prod.mk.inj (Except.ok.inj hok)
    exact hhoused
  · obtain ⟨rfl, rfl⟩ := Prod.mk.inj (Except.ok.inj hok)
    exact hhoused
  · obtain ⟨m, hfind, ⟨-, -, rfl⟩ | ⟨-, -, -, -, hendseg, hsize', l, n, hhole⟩⟩ :=
      resize_cases hhoused hstart hstop hok
    · exact hhoused
    · refine ⟨⟨l, n, hhole⟩, ?_, by rw [hendseg]; exact hlen⟩
      have hsize : s.size = 16 * (s.arena.holes m).extent := dataSize_of_findHole hfind
      have hle := hhoused.size_le
      rw [hsize] at hle
      rw [hsize']
      unfold grown brkPages wrap
      omega
  · obtain ⟨rfl, rfl⟩ := Prod.mk.inj (Except.ok.inj hok)
    exact ⟨hhoused.hole, hhoused.size_le, hhoused.endseg_lt⟩

end Steps

section Runs

variable {elks advanced old : Bool} {start stop len : Nat} {b : Binary} {s₀ s : BrkState}

theorem Started.bounded (h : Started elks start stop b s₀) (hfits : b.HeapFits) : s₀.Bounded := by
  obtain ⟨slen, htask⟩ := h.task
  have hsize := h.size
  have hle := h.housed.size_le
  obtain ⟨hin, hlt⟩ := hfits
  constructor
  · rw [htask]
    simp only [Binary.start, wrap]
    omega
  · rw [htask, hsize]
    simp only [Binary.start, wrap]
    omega
  · intro hsmall
    rw [htask, hsize]
    simp only [Binary.start, wrap]
    omega

theorem brkReached_bounded (hstart : 0 < start) (hstop : stop < 2 ^ 16)
    (hstarted : Started elks start stop b s₀) (hfits : b.HeapFits)
    (h : BrkReached elks advanced old start stop s₀ s) : s.Housed start stop ∧ s.Bounded := by
  induction h with
  | start => exact ⟨hstarted.housed, hstarted.bounded hfits⟩
  | brk h hlen hmay hstep ih =>
      obtain ⟨hhoused, hbounded⟩ := ih
      exact ⟨sysBrk_housed hhoused hstart hstop hlen hstep,
        ((mayBrk_iff hhoused hbounded hstart hstop hlen hstep).mp hmay).1⟩
  | other h hhoused hsize ih =>
      obtain ⟨-, hbounded⟩ := ih
      refine ⟨hhoused, hbounded.enddata_le, ?_, ?_⟩
      · rw [hsize]
        exact hbounded.endbrk_le
      · rw [hsize]
        exact hbounded.endseg

/-- A program whose data and bss fit in its segment: over every run of calls that go right
the heap ends in the segment, and with the stack above the heap the next of them is refused
if it would end less than 4 KiB before the end of the segment. -/
theorem brk_keeps (hstart : 0 < start) (hstop : stop < 2 ^ 16)
    (hstarted : Started elks start stop b s₀) (hfits : b.HeapFits)
    (h : BrkReached elks advanced (decide (b.stackTop = 0)) start stop s₀ s) :
    s.Bounded ∧ ∀ len < 0x10000, ∀ r s',
      s.MayBrk elks advanced (decide (b.stackTop = 0)) len →
      s.sysBrk elks advanced len = .ok (r, s') →
      b.stackTop = 0 → s.size < len + 0x1000 → r = some .enomem := by
  obtain ⟨hhoused, hbounded⟩ := brkReached_bounded hstart hstop hstarted hfits h
  refine ⟨hbounded, fun len hlen r s' hmay hstep hold hnear => ?_⟩
  have hright := (mayBrk_iff hhoused hbounded hstart hstop hlen hstep).mp hmay
  exact hright.2 (decide_eq_true hold) hnear

theorem started_of_alloc {a a' : Arena} {l : List Slot} {base slen : Nat} {file : ExecFile}
    {loadCode : Bool} (haccept : accept elks file loadCode = some b)
    (h : Strung start stop a l) (hstop : stop < 2 ^ 16) (hpos : 0 < dataLen b.mh b.stackTop)
    (halloc : mmAlloc a (dataLen b.mh b.stackTop / 16) = .ok (a', some base)) :
    Started elks start stop b ⟨a', b.start base slen⟩ := by
  have hpages : 16 * (dataLen b.mh b.stackTop / 16) = dataLen b.mh b.stackTop := by
    unfold dataLen
    rw [Nat.mul_div_cancel _ (by norm_num), Nat.mul_comm]
  have hlen := (accept_taken haccept).len
  unfold mmAlloc at halloc
  cases hbest : bestFitHole a (dataLen b.mh b.stackTop / 16) with
  | error e =>
      simp only [hbest, bind, Except.bind] at halloc
      cases halloc
  | ok m =>
      cases m with
      | none =>
          simp only [hbest, bind, Except.bind] at halloc
          cases (Prod.mk.inj (Except.ok.inj halloc)).2
      | some m =>
          obtain ⟨hm, hfit⟩ := h.bestFitHole_some hbest
          cases htake : takeHole a m (dataLen b.mh b.stackTop / 16) with
          | error e =>
              simp only [hbest, htake, bind, Except.bind] at halloc
              cases halloc
          | ok a₁ =>
              simp only [hbest, htake, bind, Except.bind] at halloc
              obtain ⟨rfl, hbase⟩ := Prod.mk.inj (Except.ok.inj halloc)
              have hbase := Option.some.inj hbase
              obtain ⟨l', hstrung, hmem, hused, hext, -, -⟩ :=
                h.takeHole hstop (by omega) hm hfit htake
              have hfind := hstrung.findHole_used (hmem m hm) hused
              rw [hbase] at hfind
              have hsize : dataSize a₁ base = dataLen b.mh b.stackTop := by
                rw [dataSize_of_findHole hfind, hext, hpages]
              refine ⟨⟨file, loadCode, haccept⟩, ⟨⟨l', m, hstrung, hmem m hm, hused, hbase⟩, ?_, ?_⟩,
                hsize, slen, rfl⟩
              · exact hsize.trans_le hlen
              · exact wrap_lt 16 _

end Runs

section House

/-- A used segment of `pages` pages, and nothing else. -/
def houseArena (pages : Nat) : Arena where
  holes i :=
    if i = firstHole then
      { pageBase := 0x2001, extent := pages, next := none, refcount := 1, flags := .used }
    else
      { pageBase := 0, extent := 0, next := none, refcount := 0, flags := .spare }
  memory _ := 0

theorem layout_houseArena {pages : Nat} (hpos : 0 < pages) :
    Layout 0x2001 (0x2001 + pages) (houseArena pages) [firstHole] where
  links := by
    simp [Links, LinksTo, Arena.link, houseArena]
  tiles := by
    simp [Tiles, MallocHole.seg, houseArena, hpos]
  onList := by
    simp [houseArena]
  offList := by
    intro i hi
    simp only [List.mem_singleton] at hi
    simp [houseArena, hi]
  apart := by
    simp

/-- A program in it, with the least arguments. -/
def house (b : Binary) (pages : Nat) : BrkState where
  arena := houseArena pages
  task := b.start 0x2001 6

theorem started_house {elks : Bool} {b : Binary} {pages : Nat} {file : ExecFile}
    (haccept : accept elks file true = some b) (hpos : 0 < pages)
    (hsize : dataLen b.mh b.stackTop = 16 * pages) :
    Started elks 0x2001 (0x2001 + pages) b (house b pages) := by
  have hstrung := (layout_houseArena hpos).toTiled.strung
  have hfound : (house b pages).size = 16 * pages := by
    have hfind := hstrung.findHole_used (List.mem_singleton_self firstHole) (by simp [houseArena])
    have hbase : ((houseArena pages).holes firstHole).pageBase = 0x2001 := by simp [houseArena]
    have hext : ((houseArena pages).holes firstHole).extent = pages := by simp [houseArena]
    rw [hbase] at hfind
    refine (dataSize_of_findHole hfind).trans ?_
    rw [hext]
  have hlen := (accept_taken haccept).len
  refine ⟨⟨file, true, haccept⟩, ⟨⟨[firstHole], firstHole, hstrung, ?_, ?_, ?_⟩, ?_, ?_⟩, ?_, 6, rfl⟩
  · exact List.mem_singleton_self firstHole
  · simp [house, houseArena]
  · simp [house, houseArena, Binary.start]
  · rw [hfound, ← hsize]
    exact hlen
  · exact wrap_lt 16 _
  · rw [hfound, hsize]

/-- A program with a bss of 1024 bytes and 16 KiB of data segment. -/
def heapFile : ExecFile :=
  .ofBytes [0x01, 0x03, 0x20, 0x04, 0x20, 0, 0, 0, 1, 0, 0, 0, 0, 0, 0, 0, 0, 4, 0, 0,
    0, 0, 0, 0, 0, 0x40, 0, 0, 0, 0, 0, 0, 0x90]

def heapBinary : Binary :=
  ⟨⟨0x04200301, 0x20, 1, 0, 1024, 0x4000⟩, 0, [0x90], []⟩

theorem brk_keeps_heap :
    ∃ s, (house heapBinary 1024).sysBrk true true 2000 = .ok (none, s) ∧ s.Bounded := by
  have haccept : accept true heapFile true = some heapBinary := rfl
  have hguarded : (house heapBinary 1024).Guarded := ⟨by decide, Or.inr (by decide)⟩
  have hmay : (house heapBinary 1024).MayBrk true true (decide (heapBinary.stackTop = 0)) 2000 := by
    refine Or.inr (Or.inr ?_)
    rw [if_pos (by decide)]
    exact Or.inl hguarded
  refine ⟨_, rfl, ?_⟩
  exact (brk_keeps (by decide) (by decide) (started_house haccept (by decide) rfl)
    ⟨by decide, by decide⟩ (.brk .start (by decide) hmay rfl)).1

/-- A program with a data segment of 1024 bytes, all of it bss.  Its heap may come up to the
end of the segment; without `mm_resize` it may go on; and with a few bytes of bss more it
begins behind the end. -/
theorem heap_outside :
    (Started true 0x2001 (0x2001 + 64) (bssBinary 1024) (house (bssBinary 1024) 64) ∧
      (house (bssBinary 1024) 64).size < 1020 + 0x1000 ∧
      ∃ s, (house (bssBinary 1024) 64).sysBrk true true 1020 = .ok (none, s)) ∧
    (Started false 0x2001 (0x2001 + 64) (bssBinary 1024) (house (bssBinary 1024) 64) ∧
      ∃ s, (house (bssBinary 1024) 64).sysBrk false false 5000 = .ok (none, s) ∧ ¬s.Bounded) ∧
    Started true 0x2001 (0x2001 + 64) (bssBinary 1040) (house (bssBinary 1040) 64) ∧
      ¬(house (bssBinary 1040) 64).Bounded := by
  have haccept : accept true (bssFile 0) true = some (bssBinary 1024) := rfl
  have haccept' : accept false (bssFile 0) true = some (bssBinary 1024) := rfl
  have hmore : accept true (bssFile 16) true = some (bssBinary 1040) := rfl
  have hstarted := @started_house true (bssBinary 1024) 64 _ haccept (by decide) rfl
  have hstarted' := @started_house false (bssBinary 1024) 64 _ haccept' (by decide) rfl
  have hlarge := @started_house true (bssBinary 1040) 64 _ hmore (by decide) rfl
  have hsize : (house (bssBinary 1024) 64).size = 1024 := hstarted.size
  have hsize' : (house (bssBinary 1040) 64).size = 1024 := hlarge.size
  refine ⟨⟨hstarted, by rw [hsize]; norm_num, _, rfl⟩, ⟨hstarted', _, rfl, fun h => ?_⟩, hlarge,
    fun h => ?_⟩
  · have hle : 5000 ≤ (house (bssBinary 1024) 64).size := h.endbrk_le
    omega
  · have hle : 1040 ≤ (house (bssBinary 1040) 64).size := h.endbrk_le
    omega

end House

end Exec
end Elks
