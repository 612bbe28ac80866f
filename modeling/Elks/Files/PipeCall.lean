import Elks.Files.Pipes

/-!
# `sys_pipe` as a whole (fs/pipe.c)

`do_pipe` takes two files, an inode, a buffer and two descriptors in turn, and gives
back what it has when something is missing.

* `sysPipe_outcome`: the three ways in which a call comes back.  Without two files or
  a buffer the result is positive; without two descriptors the buffer stays taken;
  else the pipe is there, whether the descriptors can be stored or not.
* `stored_pack`: what `verified_memcpy_tofs` leaves at `filedes`.
* `sysPipe_whole_iff`: so a call is all or nothing exactly when nothing is missing,
  and it comes back unless it waits for an inode.
-/

namespace Elks
namespace Files

open Lib Vfs
open Function (update update_of_ne update_self)

/-- An inode that `get_empty_inode` takes. -/
def FreeInode (s : Vfs.Table) : Prop :=
  ∃ i, (s.inodeBlock i).iCount = 0 ∧ (s.inodeBlock i).iLock = false ∧
    (s.inodeBlock i).iDirt = false

/-- A buffer that no pipe has. -/
def FreeBuffer (s : Kernel) : Prop :=
  ∃ b, s.pipeInUse b = false

/-- What a call needs is there, and `verfy_area` lets its results be stored. -/
def Provided (t : TaskRef) (u : User) (filedes : UInt16) (s : Kernel) : Prop :=
  TwoFiles s ∧ FreeBuffer s ∧ TwoFds t s ∧ u.verfyArea filedes 4 = 0

/-- The `int` at an address. -/
def intAt (mem : UInt16 → UInt8) (p : UInt16) : Nat :=
  (mem p).toNat + 256 * (mem (p + 1)).toNat

/-- The descriptors `i` and `j` are stored at `p`, and nothing else. -/
structure Stored (mem : UInt16 → UInt8) (p : UInt16) (i j : Fd) (mem' : UInt16 → UInt8) :
    Prop where
  first : intAt mem' p = i
  second : intAt mem' (p + 2) = j
  others : ∀ a, 4 ≤ (a - p).toNat → mem' a = mem a

/-- The descriptors `i` and `j` are the ends of a new pipe. -/
structure NewPipe (t : TaskRef) (i j : Fd) (f₁ f₂ : Filp) (k : InodeRef) (b : PipeRef)
    (s s' : Kernel) : Prop where
  ne : i ≠ j
  free : (s.task t).fd i = none ∧ (s.task t).fd j = none
  fd : (s'.task t).fd =
    update (update (s.task t).fd i (some f₁)) j (some f₂)
  others : ∀ t', t' ≠ t → (s'.task t').fd = (s.task t').fd
  unused : (s.fileArray f₁).fCount = 0 ∧ (s.fileArray f₂).fCount = 0
  reads : s'.fileArray f₁ =
    { fMode := 1, fFlags := 0, fCount := 1, fInode := some k, fOp := some .readPipe }
  writes : s'.fileArray f₂ =
    { fMode := 2, fFlags := 1, fCount := 1, fInode := some k, fOp := some .writePipe }
  files : ∀ f, f ≠ f₁ → f ≠ f₂ → s'.fileArray f = s.fileArray f
  count : (s.inodes.inodeBlock k).iCount = 0 ∧ (s'.inodes.inodeBlock k).iCount = 2
  inodes : Others k s.inodes.inodeBlock s'.inodes.inodeBlock
  pipe : s'.pipeI k =
    { base := some b, start := 0, len := 0, lock := 0, readers := 1, writers := 1 }
  buffer : s.pipeInUse b = false ∧ s'.pipeInUse = update s.pipeInUse b true

/-- The free descriptors `i` and `j` are opened on a new pipe. -/
def Opened (t : TaskRef) (i j : Fd) (s s' : Kernel) : Prop :=
  ∃ f₁ f₂ k b, NewPipe t i j f₁ f₂ k b s s'

/-- No descriptor, no count and no buffer is changed. -/
structure Untouched (s s' : Kernel) : Prop where
  fd : ∀ t, (s'.task t).fd = (s.task t).fd
  file : ∀ f, (s'.fileArray f).fCount = (s.fileArray f).fCount
  inode : ∀ i, (s'.inodes.inodeBlock i).iCount = (s.inodes.inodeBlock i).iCount
  buffer : s'.pipeInUse = s.pipeInUse

/-- What `sys_pipe` should do: the pipe is opened and its two descriptors are stored, or
there is an error number and nothing has changed. -/
def AllOrNothing (t : TaskRef) (u : User) (filedes : UInt16) (s : Kernel)
    (r : Int × (UInt16 → UInt8)) (s' : Kernel) : Prop :=
  (r.1 = 0 ∧ ∃ i j, Opened t i j s s' ∧ Stored u.mem filedes i j r.2) ∨
    (r.1 < 0 ∧ Untouched s s')

section Memory

variable {u : User} {mem : UInt16 → UInt8} {p : UInt16} {i j : Fd}

theorem pack_fds (i j : Fd) :
    pack [(2, i.val), (2, j.val)] = [UInt8.ofNat i, 0, UInt8.ofNat j, 0] := by
  have hi : i.val / 256 = 0 := Nat.div_eq_of_lt (i.isLt.trans (by decide))
  have hj : j.val / 256 = 0 := Nat.div_eq_of_lt (j.isLt.trans (by decide))
  simp [pack, le, hi, hj]

theorem stored_pack (mem : UInt16 → UInt8) (p : UInt16) (i j : Fd) :
    Stored mem p i j (Stat.memcpyTofs mem p (pack [(2, i.val), (2, j.val)])) := by
  have hbyte : ∀ fd : Fd, (UInt8.ofNat fd.val).toNat = fd := fun fd =>
    Nat.mod_eq_of_lt (fd.isLt.trans (by decide))
  have hback : ∀ n : UInt16, p + n - p = n := fun n => by
    rw [UInt16.add_comm, UInt16.add_sub_cancel]
  rw [pack_fds]
  refine ⟨?_, ?_, fun a ha => ?_⟩
  · have hzero : (p - p).toNat = 0 := by rw [UInt16.sub_self]; rfl
    have hone : (p + 1 - p).toNat = 1 := by rw [hback]; rfl
    unfold intAt Stat.memcpyTofs
    rw [hzero, hone]
    exact (Nat.add_zero _).trans (hbyte i)
  · have htwo : (p + 2 - p).toNat = 2 := by rw [hback]; rfl
    have hthree : (p + 2 + 1 - p).toNat = 3 := by
      rw [UInt16.add_assoc, hback]
      rfl
    unfold intAt Stat.memcpyTofs
    rw [htwo, hthree]
    exact (Nat.add_zero _).trans (hbyte j)
  · exact List.getD_eq_default _ _ ha

theorem verifiedMemcpyTofs_ok (h : u.verfyArea p 4 = 0) :
    u.verifiedMemcpyTofs p (pack [(2, i.val), (2, j.val)]) =
      (0, Stat.memcpyTofs u.mem p (pack [(2, i.val), (2, j.val)])) := by
  unfold User.verifiedMemcpyTofs
  rw [pack_fds]
  exact if_neg (not_not_intro h)

theorem verifiedMemcpyTofs_refused (h : u.verfyArea p 4 ≠ 0) :
    (u.verifiedMemcpyTofs p (pack [(2, i.val), (2, j.val)])).1 ≠ 0 := by
  unfold User.verifiedMemcpyTofs
  rw [pack_fds]
  exact (congrArg Prod.fst (if_pos h)).trans_ne h

end Memory

section Inodes

variable {s u : Vfs.Table} {i : InodeRef} {sb : Fin nrSuper → SuperBlock} {rounds : Nat}

theorem getEmptyInode_returns (hs : Listed s) (hfree : FreeInode s) :
    ∃ i u, Vfs.getEmptyInode s = .ok (i, u) := by
  have hout : Outcome (fun _ => False) Vfs.getEmptyInode s fun _ _ => True := by
    unfold Vfs.getEmptyInode
    refine outcome_get_bind ?_
    split
    · rename_i hnone
      obtain ⟨i, hcount, hlock, hdirt⟩ := hfree
      have hbusy := List.find?_eq_none.mp hnone i (List.mem_finRange i)
      simp [hcount, hlock, hdirt] at hbusy
    · rename_i i hfind
      have hlock : (s.inodeBlock i).iLock = false := by
        have h := List.find?_some hfind
        simp only [decide_eq_true_eq] at h
        exact eq_false_of_ne_true h.2.1
      refine (clearInode_listed hs hlock).bind fun _ s₁ _ => ?_
      refine outcome_modify_bind (outcome_get_bind (outcome_modify_bind
        (outcome_modify_bind (outcome_get_bind ?_))))
      refine Outcome.bind (R := fun _ _ => True)
        (Outcome.when (fun _ => Outcome.modify trivial) fun _ => trivial) ?_
      exact fun _ _ _ => Outcome.pure trivial
  obtain ⟨i, u, hrun, _⟩ := hout.returns
  exact ⟨i, u, hrun⟩

theorem outcome_iput_plain {A : Fault → Prop} (hlock : (u.inodeBlock i).iLock = false)
    (hdirt : (u.inodeBlock i).iDirt = false) (hsb : (u.inodeBlock i).iSb = none)
    (hrounds : rounds = 0 → A .endless) : Outcome A (iput sb rounds i) u fun _ _ => True := by
  unfold iput
  refine Outcome.bind (R := fun _ s => s = u) ?_ ?_
  · exact outcome_get_bind (Outcome.when (fun h => absurd h (by simp [hlock])) fun _ => rfl)
  intro _ s₁ hs₁
  rw [hs₁]
  refine outcome_get_bind (Outcome.when (fun _ => ?_) fun _ => trivial)
  cases rounds with
  | zero => exact Outcome.throw (hrounds rfl)
  | succ k =>
      have hput : putInode sb i u = .ok (false, u) := by
        simp [putInode, sopOf, hsb, run_bind, run_get, run_pure, Except.bind]
      unfold iputRepeat
      refine outcome_get_bind (Outcome.ite (fun _ => Outcome.modify trivial) fun _ => ?_)
      refine Outcome.bind (R := fun done s => done = false ∧ s = u) ?_ ?_
      · unfold Outcome
        rw [hput]
        exact ⟨rfl, rfl⟩
      · rintro _ _ ⟨rfl, rfl⟩
        refine outcome_get_bind (Outcome.ite (fun h => absurd h (by simp [hdirt])) fun _ => ?_)
        exact outcome_modify_bind (Outcome.modify trivial)

end Inodes

section Routines

variable {A : Fault → Prop} {s s₁ : Kernel} {t : TaskRef} {sb : Fin nrSuper → SuperBlock}
  {rounds : Nat} {f₁ f₂ : Filp} {k : InodeRef} {b : PipeRef} {d : File}

theorem outcome_getPipeInode_state
    (hempty : Outcome A Vfs.getEmptyInode s.inodes (NewInode s.inodes))
    (hrounds : rounds = 0 → A .endless) :
    Outcome A (getPipeInode sb rounds) s fun o s' =>
      s'.fileArray = s.fileArray ∧ s'.task = s.task ∧
      (o = none → ∀ b, s.pipeInUse b = true) ∧
      ∀ k, o = some k → ∃ b, s.pipeInUse b = false ∧
        s'.pipeInUse = update s.pipeInUse b true ∧
        (s.inodes.inodeBlock k).iCount = 0 ∧
        Others k s.inodes.inodeBlock s'.inodes.inodeBlock ∧
        (∃ n, s'.inodes.inodeBlock k =
          { Vfs.Inode.zero with iCount := 2, iNlink := 1, iIno := n }) ∧
        s'.pipeI k =
          { base := some b, start := 0, len := 0, lock := 0, readers := 1, writers := 1 } := by
  unfold getPipeInode emptyInode
  simp only [bind_assoc, pure_bind]
  refine (outcome_onInodes hempty).bind ?_
  rintro k s₁ ⟨u, rfl, hnew⟩
  obtain ⟨n, hn⟩ := hnew.inode
  refine outcome_modify_bind ((outcome_getPipeMem_state _).bind ?_)
  rintro o s₂ ⟨hnone, hsome⟩
  cases o with
  | none =>
      obtain ⟨rfl, hall⟩ := hnone rfl
      refine (outcome_onInodes (outcome_iput_plain (i := k) ?_ ?_ ?_ hrounds)).bind ?_
      · dsimp only
        rw [hn]
        rfl
      · dsimp only
        rw [hn]
        rfl
      · dsimp only
        rw [hn]
        rfl
      · rintro _ s₃ ⟨u', rfl, -⟩
        exact Outcome.pure ⟨rfl, rfl, fun _ => hall, fun k hk => by cases hk⟩
  | some b =>
      obtain ⟨hb, rfl⟩ := hsome b rfl
      refine outcome_modify_bind (outcome_modify_bind (Outcome.pure
        ⟨rfl, rfl, fun h => (by cases h), ?_⟩))
      rintro k' hk'
      obtain rfl := Option.some.inj hk'
      refine ⟨b, hb, rfl, hnew.free, fun j hj => ?_, ⟨n, ?_⟩, ?_⟩
      · dsimp only
        rw [update_of_ne hj]
        exact hnew.others j hj
      · dsimp only
        rw [update_self, hn]
      · dsimp only
        rw [update_self]

theorem outcome_undoPipe_state
    (hplain : ∃ n, s.inodes.inodeBlock k =
      { Vfs.Inode.zero with iCount := 2, iNlink := 1, iIno := n })
    (hrounds : rounds = 0 → A .endless) :
    Outcome A (undoPipe sb rounds f₁ f₂ k) s fun r s' =>
      r = .error (-emfile) ∧ s'.pipeInUse = s.pipeInUse := by
  obtain ⟨n, hn⟩ := hplain
  unfold undoPipe
  refine outcome_modify_bind ?_
  refine (outcome_onInodes (outcome_iput_plain (i := k) ?_ ?_ ?_ hrounds)).bind ?_
  · dsimp only
    rw [update_self, hn]
    rfl
  · dsimp only
    rw [update_self, hn]
    rfl
  · dsimp only
    rw [update_self, hn]
    rfl
  · rintro _ s₂ ⟨u', rfl, -⟩
    exact outcome_modify_bind (outcome_modify_bind (Outcome.pure ⟨rfl, rfl⟩))

theorem twoFiles_of_next (hd : d.fCount = 1) (h₁ : (s.fileArray f₁).fCount = 0)
    (h₂ : (update s.fileArray f₁ d f₂).fCount = 0) :
    f₂ ≠ f₁ ∧ (s.fileArray f₂).fCount = 0 := by
  have hne : f₂ ≠ f₁ := by
    rintro rfl
    rw [update_self, hd] at h₂
    cases h₂
  rw [update_of_ne hne] at h₂
  exact ⟨hne, h₂⟩

theorem not_twoFiles {f₁ : Filp} (hall : ∀ f, (update s.fileArray f₁ d f).fCount ≠ 0) :
    ¬TwoFiles s := by
  rintro ⟨f, g, hne, hf, hg⟩
  have hleft : ∀ f, (s.fileArray f).fCount = 0 → f = f₁ := by
    intro f hf
    by_contra hff
    have h := hall f
    rw [update_of_ne hff] at h
    exact h hf
  exact hne ((hleft f hf).trans (hleft g hg).symm)

theorem not_twoFds (fd : Fd) (o : Option Filp)
    (hall : ∀ a, update (s.task t).fd fd o a ≠ none) : ¬TwoFds t s := by
  rintro ⟨a, c, hne, ha, hc⟩
  have hleft : ∀ a, (s.task t).fd a = none → a = fd := by
    intro a ha
    by_contra haf
    refine hall a ?_
    rw [update_of_ne haf]
    exact ha
  exact hne ((hleft a ha).trans (hleft c hc).symm)

/-- The ways in which `do_pipe` comes back. -/
def PipeOutcome (t : TaskRef) (s : Kernel) (r : Except Int (Fd × Fd)) (s' : Kernel) : Prop :=
  r = .error enfile ∧ ¬(TwoFiles s ∧ FreeBuffer s) ∨
    r = .error (-emfile) ∧ ¬TwoFds t s ∧ s'.pipeInUse ≠ s.pipeInUse ∨
    ∃ i j, r = .ok (i, j) ∧ TwoFiles s ∧ FreeBuffer s ∧ TwoFds t s ∧ Opened t i j s s'

/-- `do_pipe` with its two files and its inode in hand. -/
structure InHand (s : Kernel) (f₁ f₂ : Filp) (k : InodeRef) (b : PipeRef) (s₁ : Kernel) :
    Prop where
  ne : f₂ ≠ f₁
  unused : (s.fileArray f₁).fCount = 0 ∧ (s.fileArray f₂).fCount = 0
  files : s₁.fileArray =
    update (update s.fileArray f₁ { File.zero with fCount := 1 }) f₂
      { File.zero with fCount := 1 }
  free : (s.inodes.inodeBlock k).iCount = 0
  inodes : Others k s.inodes.inodeBlock s₁.inodes.inodeBlock
  plain : ∃ n, s₁.inodes.inodeBlock k =
    { Vfs.Inode.zero with iCount := 2, iNlink := 1, iIno := n }
  pipe : s₁.pipeI k =
    { base := some b, start := 0, len := 0, lock := 0, readers := 1, writers := 1 }
  buffer : s.pipeInUse b = false
  taken : s₁.pipeInUse = update s.pipeInUse b true

theorem InHand.of_task {g : TaskRef → Task} (h : InHand s f₁ f₂ k b s₁) :
    InHand s f₁ f₂ k b { s₁ with task := g } :=
  ⟨h.ne, h.unused, h.files, h.free, h.inodes, h.plain, h.pipe, h.buffer, h.taken⟩

theorem InHand.outcome_undo (h : InHand s f₁ f₂ k b s₁) (hfds : ¬TwoFds t s)
    (hrounds : rounds = 0 → A .endless) :
    Outcome A (undoPipe sb rounds f₁ f₂ k) s₁ (PipeOutcome t s) := by
  refine (outcome_undoPipe_state h.plain hrounds).mono ?_
  rintro r s₂ ⟨rfl, huse⟩
  refine Or.inr (Or.inl ⟨rfl, hfds, fun hsame => ?_⟩)
  have hb := congrFun (huse.symm.trans hsame) b
  rw [h.taken, update_self, h.buffer] at hb
  cases hb

theorem InHand.outcome_export {i j : Fd} (h : InHand s f₁ f₂ k b s₁) (hij : j ≠ i)
    (hi : (s.task t).fd i = none) (hj : (s.task t).fd j = none)
    (hfd : (s₁.task t).fd = update (s.task t).fd i (some f₁))
    (hothers : ∀ t', t' ≠ t → (s₁.task t').fd = (s.task t').fd) :
    Outcome A (exportPipe t f₁ f₂ k i j) s₁ (PipeOutcome t s) := by
  unfold exportPipe
  refine outcome_modify_bind (outcome_modify_bind (outcome_modify_bind
    (outcome_modify_bind (outcome_modify_bind (Outcome.pure ?_)))))
  refine Or.inr (Or.inr ⟨i, j, rfl, ⟨f₁, f₂, h.ne.symm, h.unused.1, h.unused.2⟩,
    ⟨b, h.buffer⟩, ⟨i, j, hij.symm, hi, hj⟩, f₁, f₂, k, b, ?_⟩)
  obtain ⟨n, hn⟩ := h.plain
  refine ⟨hij.symm, ⟨hi, hj⟩, ?_, fun t' ht' => ?_, h.unused, ?_, ?_, fun f hf₁ hf₂ => ?_,
    ⟨h.free, ?_⟩, h.inodes, h.pipe, h.buffer, h.taken⟩
  · dsimp only
    rw [update_self]
    dsimp only
    rw [hfd]
  · dsimp only
    rw [update_of_ne ht']
    exact hothers t' ht'
  · dsimp only
    rw [update_of_ne h.ne.symm, update_self, h.files,
      update_of_ne h.ne.symm, update_self]
  · dsimp only
    rw [update_self, update_of_ne h.ne, h.files, update_self]
  · dsimp only
    rw [update_of_ne hf₂, update_of_ne hf₁, h.files,
      update_of_ne hf₂, update_of_ne hf₁]
  · rw [hn]

theorem InHand.outcome_finish (h : InHand s f₁ f₂ k b s₁) (htask : s₁.task = s.task)
    (hrounds : rounds = 0 → A .endless) :
    Outcome A (do
      match ← getUnusedFd t with
      | none => undoPipe sb rounds f₁ f₂ k
      | some i => do
          setFd t i (some f₁)
          match ← getUnusedFd t with
          | none => do
              setFd t i none
              undoPipe sb rounds f₁ f₂ k
          | some j => exportPipe t f₁ f₂ k i j) s₁ (PipeOutcome t s) := by
  refine (outcome_getUnusedFd_state t s₁).bind ?_
  rintro o s₂ ⟨⟨g, rfl⟩, hsame, hnone, hsome⟩
  have hfds : (g t).fd = (s.task t).fd := by
    rw [← htask]
    exact hsame.fd t
  cases o with
  | none =>
      refine h.of_task.outcome_undo ?_ hrounds
      rintro ⟨fd, _, _, hfd, _⟩
      rw [← htask] at hfd
      exact hnone rfl fd hfd
  | some i =>
      have hi : (s.task t).fd i = none := by
        rw [← htask]
        exact hsome i rfl
      refine outcome_modify_bind ((outcome_getUnusedFd_state t _).bind ?_)
      rintro o s₃ ⟨⟨g', rfl⟩, hsame', hnone', hsome'⟩
      have hfds' : (g' t).fd = update (s.task t).fd i (some f₁) := by
        refine (hsame'.fd t).trans ?_
        dsimp only
        rw [update_self]
        dsimp only
        rw [hfds]
      have htable : ∀ a, update (s.task t).fd i (some f₁) a = none ↔
          (g' t).fd a = none := fun a => by rw [hfds']
      cases o with
      | none =>
          refine outcome_modify_bind (h.of_task.outcome_undo ?_ hrounds)
          refine not_twoFds i (some f₁) fun a ha => hnone' rfl a ?_
          rw [← hsame'.fd t]
          exact (htable a).mp ha
      | some j =>
          have hj : update (s.task t).fd i (some f₁) j = none := by
            rw [htable, hsame'.fd t]
            exact hsome' j rfl
          have hij : j ≠ i := by
            rintro rfl
            rw [update_self] at hj
            cases hj
          rw [update_of_ne hij] at hj
          refine h.of_task.outcome_export hij hi hj hfds' fun t' ht' => ?_
          refine (hsame'.fd t').trans ?_
          dsimp only
          rw [update_of_ne ht', ← htask]
          exact hsame.fd t'

theorem doPipe_outcome
    (hempty : TwoFiles s → Outcome A Vfs.getEmptyInode s.inodes (NewInode s.inodes))
    (hrounds : rounds = 0 → A .endless) : Outcome A (doPipe sb rounds t) s (PipeOutcome t s) := by
  unfold doPipe
  refine (outcome_getEmptyFilp_state s).bind ?_
  rintro o s₁ ⟨hnone, hsome⟩
  cases o with
  | none =>
      obtain ⟨rfl, hall⟩ := hnone rfl
      refine Outcome.pure (Or.inl ⟨rfl, ?_⟩)
      rintro ⟨⟨f, _, _, hf, _⟩, _⟩
      exact hall f hf
  | some f₁ =>
      obtain ⟨hfree₁, rfl⟩ := hsome f₁ rfl
      refine (outcome_getEmptyFilp_state _).bind ?_
      rintro o s₂ ⟨hnone₂, hsome₂⟩
      cases o with
      | none =>
          obtain ⟨rfl, hall⟩ := hnone₂ rfl
          exact outcome_modify_bind (Outcome.pure
            (Or.inl ⟨rfl, fun hboth => not_twoFiles hall hboth.1⟩))
      | some f₂ =>
          obtain ⟨hfree₂, rfl⟩ := hsome₂ f₂ rfl
          obtain ⟨hne, hfree₂⟩ := twoFiles_of_next rfl hfree₁ hfree₂
          have htwo : TwoFiles s := ⟨f₁, f₂, hne.symm, hfree₁, hfree₂⟩
          refine Outcome.bind (outcome_getPipeInode_state ?_ hrounds) ?_
          · exact hempty htwo
          rintro o s₃ ⟨hfiles, htask, hnone₃, hsome₃⟩
          cases o with
          | none =>
              refine outcome_modify_bind (outcome_modify_bind (Outcome.pure
                (Or.inl ⟨rfl, ?_⟩)))
              rintro ⟨_, b, hb⟩
              rw [hnone₃ rfl b] at hb
              cases hb
          | some k =>
              obtain ⟨b, hb, huse, hk, hothers, hplain, hpipe⟩ := hsome₃ k rfl
              have hhand : InHand s f₁ f₂ k b s₃ :=
                ⟨hne, ⟨hfree₁, hfree₂⟩, hfiles, hk, hothers, hplain, hpipe, hb, huse⟩
              exact hhand.outcome_finish htask hrounds

theorem sysPipe_outcome {u : User} {filedes : UInt16}
    (hempty : TwoFiles s → Outcome A Vfs.getEmptyInode s.inodes (NewInode s.inodes))
    (hrounds : rounds = 0 → A .endless) :
    Outcome A (sysPipe sb rounds t u filedes) s fun r s' =>
      AllOrNothing t u filedes s r s' ↔ Provided t u filedes s := by
  unfold sysPipe
  refine (doPipe_outcome hempty hrounds).bind ?_
  rintro r s' (⟨rfl, hmissing⟩ | ⟨rfl, hfds, huse⟩ | ⟨i, j, rfl, hfiles, hbuffer, hfds, hopen⟩)
  · refine Outcome.pure ⟨fun h => ?_, fun h => absurd ⟨h.1, h.2.1⟩ hmissing⟩
    rcases h with ⟨hzero, -⟩ | ⟨hneg, -⟩
    · exact absurd (show enfile = 0 from hzero) (by decide)
    · exact absurd (show enfile < 0 from hneg) (by decide)
  · refine Outcome.pure ⟨fun h => ?_, fun h => absurd h.2.2.1 hfds⟩
    rcases h with ⟨hzero, -⟩ | ⟨-, hsame⟩
    · exact absurd (show -emfile = 0 from hzero) (by decide)
    · exact absurd hsame.buffer huse
  · refine Outcome.pure ⟨fun h => ⟨hfiles, hbuffer, hfds, ?_⟩, fun h => Or.inl ?_⟩
    · rcases h with ⟨hzero, -⟩ | ⟨-, hsame⟩
      · by_contra hrefused
        exact verifiedMemcpyTofs_refused hrefused hzero
      · -- the pipe is there, so its buffer was taken
        obtain ⟨f₁, f₂, k, b, hnew⟩ := hopen
        have hb := congrFun (hnew.buffer.2.symm.trans hsame.buffer) b
        rw [update_self, hnew.buffer.1] at hb
        cases hb
    · rw [verifiedMemcpyTofs_ok h.2.2.2]
      exact ⟨rfl, i, j, hopen, stored_pack u.mem filedes i j⟩

end Routines

/-- **`sys_pipe` as a whole.**  A call that comes back is all or nothing exactly when
two files, a buffer and two descriptors are free and the descriptors can be stored.
With the list of inodes in order it comes back, unless it has its files and waits for
an inode. -/
theorem sysPipe_whole_iff
    (sb : Fin nrSuper → SuperBlock) (rounds : Nat) (t : TaskRef) (u : User)
    (filedes : UInt16) (s : Kernel) :
    (∀ r s', sysPipe sb rounds t u filedes s = .ok (r, s') →
        (AllOrNothing t u filedes s r s' ↔ Provided t u filedes s)) ∧
      (Listed s.inodes → 0 < rounds → (TwoFiles s → FreeInode s.inodes) →
        ∃ r s', sysPipe sb rounds t u filedes s = .ok (r, s')) := by
  constructor
  · intro r s' hrun
    have hout : Outcome Any (sysPipe sb rounds t u filedes) s fun r s' =>
        AllOrNothing t u filedes s r s' ↔ Provided t u filedes s :=
      sysPipe_outcome (fun _ => outcome_getEmptyInode s.inodes) fun _ => trivial
    exact hout.of_ok hrun
  · intro hlist hrounds hfree
    have hout : Outcome (fun _ => False) (sysPipe sb rounds t u filedes) s fun r s' =>
        AllOrNothing t u filedes s r s' ↔ Provided t u filedes s :=
      sysPipe_outcome
        (fun htwo => (outcome_getEmptyInode s.inodes).of_returns
          (getEmptyInode_returns hlist (hfree htwo)))
        fun hzero => absurd hzero (Nat.ne_of_gt hrounds)
    obtain ⟨r, s', hrun, _⟩ := hout.returns
    exact ⟨r, s', hrun⟩

/-- The first pipe of a task can be made, and all of it is there. -/
theorem sysPipe_whole_first :
    Provided 1 someUser 100 (freshKernel fun t => t ≤ 1) ∧
      ∃ r s', sysPipe noSuper 1 1 someUser 100 (freshKernel fun t => t ≤ 1) = .ok (r, s') ∧
        r.1 = 0 ∧ AllOrNothing 1 someUser 100 (freshKernel fun t => t ≤ 1) r s' := by
  have hprovided : Provided 1 someUser 100 (freshKernel fun t => t ≤ 1) :=
    ⟨⟨0, 1, by decide, rfl, rfl⟩, ⟨0, rfl⟩, ⟨0, 1, by decide, rfl, rfl⟩, by decide⟩
  have hzero : (sysPipe noSuper 1 1 someUser 100 (freshKernel fun t => t ≤ 1)).map
      (fun r => r.1.1) = .ok 0 := by
    decide +kernel
  refine ⟨hprovided, ?_⟩
  cases hrun : sysPipe noSuper 1 1 someUser 100 (freshKernel fun t => t ≤ 1) with
  | error e =>
      rw [hrun] at hzero
      cases hzero
  | ok r =>
      obtain ⟨r, s'⟩ := r
      rw [hrun] at hzero
      exact ⟨r, s', rfl, Except.ok.inj hzero,
        ((sysPipe_whole_iff noSuper 1 1 someUser 100 (freshKernel fun t => t ≤ 1)).1 r s'
          hrun).mpr hprovided⟩

/-- A kernel whose eight buffers belong to pipes. -/
def noBuffers : Kernel :=
  { freshKernel fun t => t ≤ 1 with pipeInUse := fun _ => true }

/-- Without a buffer the result is the positive number of the error. -/
theorem sysPipe_positive :
    ∃ r s', sysPipe noSuper 1 1 someUser 100 noBuffers = .ok (r, s') ∧ r.1 = enfile ∧
      ¬AllOrNothing 1 someUser 100 noBuffers r s' := by
  have hrun : (sysPipe noSuper 1 1 someUser 100 noBuffers).map (fun r => r.1.1) =
      .ok enfile := by
    decide +kernel
  cases hres : sysPipe noSuper 1 1 someUser 100 noBuffers with
  | error e =>
      rw [hres] at hrun
      cases hrun
  | ok r =>
      obtain ⟨r, s'⟩ := r
      rw [hres] at hrun
      have hr : r.1 = enfile := Except.ok.inj hrun
      refine ⟨r, s', rfl, hr, ?_⟩
      rintro (⟨hzero, -⟩ | ⟨hneg, -⟩)
      · rw [hr] at hzero
        exact absurd hzero (by decide)
      · rw [hr] at hneg
        exact absurd hneg (by decide)

end Files
end Elks
