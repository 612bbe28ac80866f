import Elks.Files.Counts

/-!
# The buffers of pipes

`get_pipe_mem` hands out the rows of `pipe_base`, and nothing takes one back: in
`iput` the place where the memory of a pipe would be freed is empty.  So a
buffer belongs to a live pipe as long as no pipe dies.

**What keeps a pipe alive.**  `Pins k s`: the count of an inode is at least the
number of open files on it and the references `k` in hand.  A file stays open
while it has a descriptor (`Files.Sound`).

**Results.**
* `pipes_recycled`: in a run in which no call takes the last descriptor of a
  pipe and no `sys_pipe` fails for want of descriptors after it has taken a
  buffer, exactly the buffers of live pipes are in use.
* `pipes_exhausted`: after eight pipes have been made and closed, `sys_pipe`
  fails while there is no pipe.
-/

namespace Elks
namespace Files

open Lib Vfs
open Function (update update_eq_self update_idem update_of_ne update_self)

section Inodes

variable {φ : (InodeRef → Inode) → Prop} {s : Vfs.Table} {i : InodeRef}
  {sb : Fin nrSuper → SuperBlock} {rounds : Nat} {o : Option InodeRef}

theorem keeps_links {f : Vfs.Table → Vfs.Table} (hf : ∀ s, (f s).inodeBlock = s.inodeBlock) :
    Keeps Any (fun s => φ s.inodeBlock) (modify f) := by
  refine Keeps.modify fun s hs => ?_
  rw [hf]
  exact hs

theorem keeps_deref : Keeps Any (fun s => φ s.inodeBlock) (deref o) := by
  cases o with
  | none => exact Keeps.throw trivial
  | some i => exact Keeps.pure

theorem keeps_setNext :
    Keeps Any (fun s => φ s.inodeBlock) (setNext i o) :=
  keeps_links fun _ => rfl

theorem keeps_setPrev :
    Keeps Any (fun s => φ s.inodeBlock) (setPrev i o) :=
  keeps_links fun _ => rfl

theorem keeps_setFirst :
    Keeps Any (fun s => φ s.inodeBlock) (setFirst o) :=
  keeps_links fun _ => rfl

theorem keeps_addFree {n : Int} :
    Keeps Any (fun s => φ s.inodeBlock) (addFree n) :=
  keeps_links fun _ => rfl

theorem keeps_waitOnInode :
    Keeps Any (fun s => φ s.inodeBlock) (waitOnInode i) :=
  Keeps.get.bind fun _ => Keeps.when (Keeps.throw trivial)

theorem keeps_insertInodeFree : Keeps Any (fun s => φ s.inodeBlock) (insertInodeFree i) := by
  refine Keeps.get.bind fun _ => keeps_setNext.bind fun _ => ?_
  refine Keeps.get.bind fun _ => keeps_deref.bind fun _ => ?_
  refine Keeps.get.bind fun _ => keeps_setPrev.bind fun _ => ?_
  refine keeps_setPrev.bind fun _ => Keeps.get.bind fun _ => ?_
  exact keeps_deref.bind fun _ => keeps_setNext.bind fun _ => keeps_setFirst

theorem keeps_removeInodeFree : Keeps Any (fun s => φ s.inodeBlock) (removeInodeFree i) := by
  refine Keeps.get.bind fun _ => (Keeps.when keeps_setFirst).bind fun _ => ?_
  refine (Keeps.forSome fun _ => keeps_setPrev).bind fun _ => ?_
  refine Keeps.get.bind fun _ => ?_
  refine (Keeps.forSome fun _ => keeps_setNext).bind fun _ => ?_
  exact keeps_setNext.bind fun _ => keeps_setPrev

theorem outcome_clearInode :
    Outcome Any (clearInode i) s fun _ s' =>
      s'.inodeBlock = update s.inodeBlock i Inode.zero := by
  let old : (InodeRef → Inode) → Prop := (· = s.inodeBlock)
  let new : (InodeRef → Inode) → Prop :=
    (· = update s.inodeBlock i Inode.zero)
  unfold clearInode
  refine (keeps_waitOnInode (φ := old) s rfl).bind fun _ s₁ h₁ => ?_
  refine (keeps_removeInodeFree (φ := old) s₁ h₁).bind fun _ s₂ h₂ => ?_
  refine outcome_get_bind ?_
  refine (Keeps.when (keeps_addFree (φ := old)) s₂ h₂).bind fun _ s₃ h₃ => ?_
  refine Outcome.bind (R := fun _ s₄ => new s₄.inodeBlock) (Outcome.modify ?_) ?_
  · exact congrArg (update · i Inode.zero) h₃
  intro _ s₄ h₄
  refine (keeps_setNext (φ := new) s₄ h₄).bind fun _ s₅ h₅ => ?_
  refine (keeps_setPrev (φ := new) s₅ h₅).bind fun _ s₆ h₆ => ?_
  exact keeps_insertInodeFree (φ := new) s₆ h₆

/-- The contents of the other inodes. -/
def Others (i : InodeRef) (b : InodeRef → Inode) (b' : InodeRef → Inode) : Prop :=
  ∀ j, j ≠ i → b' j = b j

variable {b : InodeRef → Inode}

theorem keeps_modInode {f : Inode → Inode} :
    Keeps Any (fun s => Others i b s.inodeBlock) (modInode i f) := by
  refine Keeps.modify fun s hs j hj => ?_
  dsimp only
  rw [update_of_ne hj]
  exact hs j hj

theorem keeps_clearInode : Keeps Any (fun s => Others i b s.inodeBlock) (clearInode i) := by
  intro s hs
  refine outcome_clearInode.mono ?_
  intro _ s' hs' j hj
  rw [hs', update_of_ne hj]
  exact hs j hj

theorem keeps_writeInode : Keeps Any (fun s => Others i b s.inodeBlock) (writeInode sb i) := by
  refine Keeps.get.bind fun _ => Keeps.when ?_
  refine (keeps_waitOnInode (φ := Others i b)).bind fun _ => Keeps.get.bind fun _ => ?_
  split
  · exact keeps_modInode.bind fun _ => keeps_modInode.bind fun _ => keeps_modInode
  · exact keeps_modInode

theorem keeps_putInode : Keeps Any (fun s => Others i b s.inodeBlock) (putInode sb i) := by
  refine Keeps.get.bind fun _ => ?_
  split
  · refine Keeps.get.bind fun _ => keeps_modInode.bind fun _ => ?_
    refine (Keeps.when keeps_clearInode).bind fun _ => ?_
    exact Keeps.get.bind fun _ => Keeps.pure
  · exact Keeps.pure

theorem keeps_iputRepeat :
    Keeps Any (fun s => Others i b s.inodeBlock) (iputRepeat sb i rounds) := by
  induction rounds with
  | zero => exact Keeps.throw trivial
  | succ k ih =>
      refine Keeps.get.bind fun _ => Keeps.ite keeps_modInode ?_
      refine keeps_putInode.bind fun _ => Keeps.ite Keeps.pure ?_
      refine Keeps.get.bind fun _ => Keeps.ite ?_ ?_
      · exact keeps_writeInode.bind fun _ =>
          (keeps_waitOnInode (φ := Others i b)).bind fun _ => ih
      · exact keeps_modInode.bind fun _ => keeps_addFree (φ := Others i b)

theorem outcome_iput (sb : Fin nrSuper → SuperBlock) (rounds : Nat) (i : InodeRef) (s : Vfs.Table) :
    Outcome Any (iput sb rounds i) s fun _ s' =>
      Others i s.inodeBlock s'.inodeBlock ∧
        (s.inodeBlock i).iCount ≤ (s'.inodeBlock i).iCount + 1 := by
  let old : (InodeRef → Inode) → Prop := (· = s.inodeBlock)
  unfold iput
  refine (keeps_waitOnInode (φ := old) s rfl).bind fun _ s₁ h₁ => ?_
  refine outcome_get_bind (Outcome.when ?_ ?_)
  · intro _
    have hothers : Others i s.inodeBlock s₁.inodeBlock := fun j _ => congrFun h₁ j
    refine (keeps_iputRepeat s₁ hothers).and ?_
    rcases Nat.lt_or_ge 1 (s.inodeBlock i).iCount with hmany | hone
    · -- other references are left: only the count changes
      cases rounds with
      | zero => exact Outcome.throw trivial
      | succ k =>
          unfold iputRepeat
          refine outcome_get_bind ?_
          rw [h₁, if_pos hmany]
          refine Outcome.modify ?_
          dsimp only
          rw [update_self, h₁]
          dsimp only
          omega
    · refine Outcome.mono (keeps_iputRepeat s₁ hothers) ?_
      intro _ s' _
      omega
  · intro _
    rw [h₁]
    exact ⟨fun _ _ => rfl, Nat.le_succ _⟩

/-- An inode that was free, and has been handed out. -/
structure NewInode (s : Vfs.Table) (i : InodeRef) (u : Vfs.Table) : Prop where
  free : (s.inodeBlock i).iCount = 0
  others : Others i s.inodeBlock u.inodeBlock
  inode : ∃ n, u.inodeBlock i = { Inode.zero with iCount := 1, iNlink := 1, iIno := n }

theorem outcome_getEmptyInode (s : Vfs.Table) : Outcome Any Vfs.getEmptyInode s (NewInode s) := by
  unfold Vfs.getEmptyInode
  refine outcome_get_bind ?_
  split
  · exact Outcome.throw trivial
  · rename_i i hfind
    have hfree : (s.inodeBlock i).iCount = 0 := by
      have h := List.find?_some hfind
      simp only [decide_eq_true_eq] at h
      exact h.1
    let new : (InodeRef → Inode) → Prop := fun b =>
      Others i s.inodeBlock b ∧
        ∃ n, b i = { Inode.zero with iCount := 1, iNlink := 1, iIno := n }
    refine outcome_clearInode.bind fun _ s₁ h₁ => ?_
    refine Outcome.bind
      (R := fun _ s₂ => s₂.inodeBlock = update s.inodeBlock i Inode.zero)
      (Outcome.modify h₁) fun _ s₂ h₂ => ?_
    refine outcome_get_bind ?_
    refine Outcome.bind (R := fun _ s₃ => new s₃.inodeBlock)
      (Outcome.modify ⟨fun j hj => ?_, s₂.ino, ?_⟩) fun _ s₃ h₃ => ?_
    · dsimp only
      rw [update_of_ne hj, h₂, update_of_ne hj]
    · dsimp only
      rw [update_self, h₂, update_self]
      rfl
    refine (keeps_addFree (φ := new) s₃ h₃).bind fun _ s₄ h₄ => ?_
    refine outcome_get_bind ?_
    have hclamp : Keeps Any (fun s : Vfs.Table => new s.inodeBlock) _ :=
      Keeps.when (c := s₄.nrFreeInodes < 0)
        (keeps_links (φ := new) (f := fun s => { s with nrFreeInodes := 0 })
          fun _ => rfl)
    refine (hclamp s₄ h₄).bind fun _ s₅ h₅ => ?_
    exact Outcome.pure ⟨hfree, h₅.1, h₅.2⟩

end Inodes

/-- The inode of an open file. -/
def inodeOf (s : Kernel) : Filp → Option InodeRef :=
  fun f => if 0 < (s.fileArray f).fCount then (s.fileArray f).fInode else none

/-- A pipe with references has the buffer `b`. -/
def LivePipe (s : Kernel) (i : InodeRef) (b : PipeRef) : Prop :=
  0 < (s.inodes.inodeBlock i).iCount ∧ (s.pipeI i).base = some b

/-- The count of each inode covers the open files on it and the references `k`,
and every buffer ever taken belongs to one inode. -/
structure Pins (k : InodeRef → ℕ) (s : Kernel) : Prop where
  held : ∀ i, tally (inodeOf s) (some i) + k i ≤ (s.inodes.inodeBlock i).iCount
  based : ∀ i b, (s.pipeI i).base = some b → s.pipeInUse b = true
  distinct : ∀ i j b, (s.pipeI i).base = some b → (s.pipeI j).base = some b → i = j

/-- No count of a file is above `n`. -/
def Small (n : Nat) (s : Kernel) : Prop :=
  ∀ f, (s.fileArray f).fCount ≤ n

/-- Files are closed at most, and no buffer changes hands. -/
structure Shrinks (s s' : Kernel) : Prop where
  files : ∀ f, 0 < (s'.fileArray f).fCount →
    0 < (s.fileArray f).fCount ∧ (s'.fileArray f).fInode = (s.fileArray f).fInode
  base : ∀ i, (s'.pipeI i).base = (s.pipeI i).base
  inUse : s'.pipeInUse = s.pipeInUse

/-- Descriptors that `D` does not name keep pointing to their files. -/
def KeepsFds (D : TaskRef × Fd → Prop) (s s' : Kernel) : Prop :=
  ∀ p, ¬D p → ∀ f, descriptors s p = some f → descriptors s' p = some f

section Shrinks

variable {s s' s'' : Kernel} {k : InodeRef → ℕ} {n : Nat}
  {D : TaskRef × Fd → Prop}

theorem Shrinks.refl (s : Kernel) : Shrinks s s :=
  ⟨fun _ h => ⟨h, rfl⟩, fun _ => rfl, rfl⟩

theorem Shrinks.trans (h : Shrinks s s') (h' : Shrinks s' s'') : Shrinks s s'' where
  files := by
    intro f hf
    obtain ⟨hf', hi'⟩ := h'.files f hf
    obtain ⟨hf'', hi''⟩ := h.files f hf'
    exact ⟨hf'', hi'.trans hi''⟩
  base := fun i => (h'.base i).trans (h.base i)
  inUse := h'.inUse.trans h.inUse

theorem KeepsFds.refl (s : Kernel) : KeepsFds D s s :=
  fun _ _ _ h => h

theorem KeepsFds.trans (h : KeepsFds D s s') (h' : KeepsFds D s' s'') :
    KeepsFds D s s'' :=
  fun p hp f hf => h' p hp f (h p hp f hf)

theorem SameFds.keepsFds (h : SameFds s s') : KeepsFds D s s' := by
  intro p _ f hf
  unfold descriptors at hf ⊢
  rw [h.live, h.fd]
  exact hf

theorem Small.mono {m : Nat} (h : Small n s) (hnm : n ≤ m) : Small m s :=
  fun f => (h f).trans hnm

theorem Sound.small (hs : Sound s) : Small 300 s := by
  intro f
  rw [hs.counted f]
  exact refs_le s f

theorem Pins.of_same (hp : Pins k s) (hfile : inodeOf s' = inodeOf s)
    (hcount : ∀ i, (s'.inodes.inodeBlock i).iCount = (s.inodes.inodeBlock i).iCount)
    (hbase : ∀ i, (s'.pipeI i).base = (s.pipeI i).base) (huse : s'.pipeInUse = s.pipeInUse) :
    Pins k s' where
  held := by
    intro i
    rw [hfile, hcount]
    exact hp.held i
  based := by
    intro i b
    rw [hbase, huse]
    exact hp.based i b
  distinct := by
    intro i j b
    rw [hbase, hbase]
    exact hp.distinct i j b

end Shrinks

/-- What a call that opens nothing keeps. -/
structure Quiet (D : TaskRef × Fd → Prop) (n : Nat) (s s' : Kernel) : Prop where
  pins : Pins 0 s'
  small : Small n s'
  shrinks : Shrinks s s'
  fds : KeepsFds D s s'

section Close

variable {s s' : Kernel} {t : TaskRef} {f : Filp} {n : Nat}
  {D : TaskRef × Fd → Prop} {sb : Fin nrSuper → SuperBlock} {rounds : Nat} {i : InodeRef} {fd : Fd}

theorem Quiet.refl (hp : Pins 0 s) (hs : Small n s) : Quiet D n s s :=
  ⟨hp, hs, Shrinks.refl s, KeepsFds.refl s⟩

theorem Quiet.trans {m : Nat} {s'' : Kernel} (h : Quiet D m s s') (h' : Quiet D n s' s'') :
    Quiet D n s s'' :=
  ⟨h'.pins, h'.small, h.shrinks.trans h'.shrinks, h.fds.trans h'.fds⟩

theorem Quiet.of_task {g : TaskRef → Task}
    (hp : Pins 0 s) (hs : Small n s) (hfds : KeepsFds D s { s with task := g }) :
    Quiet D n s { s with task := g } :=
  ⟨hp.of_same rfl (fun _ => rfl) (fun _ => rfl) rfl, hs,
    ⟨fun _ h => ⟨h, rfl⟩, fun _ => rfl, rfl⟩, hfds⟩

theorem quiet_markBits {g : FdSet → FdSet} (hp : Pins 0 s) (hs : Small n s) :
    Outcome Any (modTask t fun d => { d with closeOnExec := g d.closeOnExec }) s fun _ s' =>
      Quiet D n s s' ∧ SameFds s s' := by
  have hsame : SameFds s { s with
      task := update s.task t
        { s.task t with closeOnExec := g (s.task t).closeOnExec } } := by
    constructor
    all_goals
      intro t'
      rcases eq_or_ne t' t with rfl | ht
      · simp
      · simp [ht]
  exact Outcome.modify ⟨Quiet.of_task hp hs hsame.keepsFds, hsame⟩

theorem quiet_clearBit (hp : Pins 0 s) (hs : Small n s) :
    Outcome Any (clearBit t fd) s fun _ s' => Quiet D n s s' ∧ SameFds s s' :=
  quiet_markBits hp hs

theorem quiet_markFd {fd : Nat} {g : FdSet → FdSet} (hp : Pins 0 s) (hs : Small n s) :
    Outcome Any (markFd t fd g) s fun _ s' => Quiet D n s s' := by
  unfold markFd
  refine (outcome_fileAt t fd s).bind ?_
  rintro o _ ⟨rfl, _⟩
  cases o with
  | none => exact Outcome.pure (Quiet.refl hp hs)
  | some x => exact (quiet_markBits hp hs).bind fun _ _ h => Outcome.pure h.1

theorem quiet_setFd {o : Option Filp} (hp : Pins 0 s) (hs : Small n s) (hD : D (t, fd)) :
    Quiet D n s (s.setFd t fd o) := by
  refine Quiet.of_task hp hs ?_
  rintro ⟨t', fd'⟩ hnot g hg
  unfold descriptors at hg ⊢
  rcases eq_or_ne t' t with rfl | ht
  · have hne : fd' ≠ fd := by
      rintro rfl
      exact hnot hD
    simpa [hne] using hg
  · simpa [ht] using hg

/-- Nothing but counters of pipes and the history is different. -/
structure SameRest (s s' : Kernel) : Prop where
  fileArray : s'.fileArray = s.fileArray
  task : s'.task = s.task
  inodes : s'.inodes = s.inodes
  base : ∀ i, (s'.pipeI i).base = (s.pipeI i).base
  inUse : s'.pipeInUse = s.pipeInUse

theorem keeps_modPipe_rest {g : PipeInodeInfo → PipeInodeInfo} (hg : ∀ p, (g p).base = p.base) :
    Keeps Any (SameRest s) (modPipe i g) := by
  refine Keeps.modify fun s' h => ⟨h.fileArray, h.task, h.inodes, fun j => ?_, h.inUse⟩
  dsimp only
  rcases eq_or_ne j i with rfl | hj
  · rw [update_self, hg]
    exact h.base j
  · rw [update_of_ne hj]
    exact h.base j

theorem keeps_pipeRelease_rest {op : FileOperations} {mode : Nat} :
    Keeps Any (SameRest s) (pipeRelease op i mode) := by
  unfold pipeRelease
  cases op with
  | readPipe => exact keeps_modPipe_rest fun _ => rfl
  | writePipe => exact keeps_modPipe_rest fun _ => rfl
  | rdwrPipe =>
      refine Keeps.bind (Keeps.when ?_) fun _ => Keeps.when ?_
      · exact keeps_modPipe_rest fun _ => rfl
      · exact keeps_modPipe_rest fun _ => rfl
  | other o r => exact Keeps.pure

theorem outcome_release_rest : Outcome Any (release f) s fun _ s' => SameRest s s' := by
  have hnote : Keeps Any (SameRest s) (note (.released f)) :=
    Keeps.modify fun _ h => ⟨h.fileArray, h.task, h.inodes, h.base, h.inUse⟩
  unfold release
  refine outcome_get_bind ?_
  refine Keeps.forSome (fun op => Keeps.when ?_) s ⟨rfl, rfl, rfl, fun _ => rfl, rfl⟩
  exact (Keeps.forSome fun i => keeps_pipeRelease_rest).bind fun _ => hnote

theorem outcome_onInodes
    {A : Fault → Prop} {α : Type} {m : Routine Vfs.Table α} {Q : α → Vfs.Table → Prop}
    (h : Outcome A m s.inodes Q) :
    Outcome A (onInodes m) s fun a s' => ∃ u, s' = { s with inodes := u } ∧ Q a u := by
  unfold Outcome at h
  unfold Outcome onInodes
  cases hm : m s.inodes with
  | error e =>
      rw [hm] at h
      exact h
  | ok r =>
      rw [hm] at h
      exact ⟨r.2, rfl, h⟩

theorem Pins.closed (hp : Pins 0 s) (hf : inodeOf s f = some i)
    (hfile : inodeOf s' = update (inodeOf s) f none)
    (hother : ∀ j, j ≠ i →
      (s'.inodes.inodeBlock j).iCount = (s.inodes.inodeBlock j).iCount)
    (hcount : (s.inodes.inodeBlock i).iCount ≤ (s'.inodes.inodeBlock i).iCount + 1)
    (hbase : ∀ i, (s'.pipeI i).base = (s.pipeI i).base)
    (huse : s'.pipeInUse = s.pipeInUse) :
    Pins 0 s' where
  held := by
    intro j
    have hheld := hp.held j
    rw [hfile]
    rcases eq_or_ne j i with rfl | hj
    · have hloss := tally_loss (f := inodeOf s) (k := f) (b := none)
        (Set.toFinite _) (by rw [hf]; simp)
      rw [hf] at hloss
      omega
    · rw [hother j hj, tally_update_other (by rw [hf]; simpa using hj) (by simp)]
      exact hheld
  based := by
    intro i b
    rw [hbase, huse]
    exact hp.based i b
  distinct := by
    intro i j b
    rw [hbase, hbase]
    exact hp.distinct i j b

theorem quiet_closeFp (hp : Pins 0 s) (hs : Small n s) (hn : n < 2 ^ 16) :
    Outcome Any (closeFp sb rounds f) s fun _ s' =>
      Quiet D n s s' ∧ s'.task = s.task := by
  unfold closeFp
  refine outcome_get_bind (Outcome.ite ?_ fun hzero => Outcome.ite ?_ ?_)
  · exact fun _ => Outcome.pure ⟨Quiet.refl hp hs, rfl⟩
  · intro hmany
    have hsmall := hs f
    have hw : wrapSub 16 (s.fileArray f).fCount 1 = (s.fileArray f).fCount - 1 :=
      wrapSub_of_le (by omega) (by omega)
    refine Outcome.modify ⟨⟨hp.of_same ?_ (fun _ => rfl) (fun _ => rfl) rfl, ?_,
      ⟨?_, fun _ => rfl, rfl⟩, KeepsFds.refl s⟩, rfl⟩
    · funext g
      unfold inodeOf
      dsimp only
      rcases eq_or_ne g f with rfl | hg
      · have hpos : 0 < (s.fileArray g).fCount - 1 := by omega
        simp [hw, hpos, Nat.pos_of_ne_zero hzero]
      · simp [hg]
    · intro g
      dsimp only
      rcases eq_or_ne g f with rfl | hg
      · rw [update_self]
        dsimp only
        omega
      · rw [update_of_ne hg]
        exact hs g
    · intro g hg
      dsimp only at hg ⊢
      rcases eq_or_ne g f with rfl | hne
      · rw [update_self]
        exact ⟨Nat.pos_of_ne_zero hzero, rfl⟩
      · rw [update_of_ne hne] at hg ⊢
        exact ⟨hg, rfl⟩
  · intro hmany
    have hone : (s.fileArray f).fCount = 1 := by omega
    refine outcome_release_rest.bind ?_
    intro _ s₁ h₁
    refine outcome_modify_bind (outcome_modify_bind ?_)
    -- the file is closed now, and its inode is in hand
    let s₂ : Kernel :=
      { s₁ with
        fileArray := update s.fileArray f
          { s.fileArray f with fCount := 0, fInode := none } }
    have hzero' : wrapSub 16 (s.fileArray f).fCount 1 = 0 := by
      rw [hone]
      decide
    have hstate : { { s₁ with
        fileArray := update s₁.fileArray f
          { s₁.fileArray f with fCount := wrapSub 16 (s₁.fileArray f).fCount 1 } } with
        fileArray := update
          (update s₁.fileArray f
            { s₁.fileArray f with fCount := wrapSub 16 (s₁.fileArray f).fCount 1 }) f
          { update s₁.fileArray f
            { s₁.fileArray f with
              fCount := wrapSub 16 (s₁.fileArray f).fCount 1 } f with
            fInode := none } } = s₂ := by
      simp only [h₁.fileArray, update_idem, update_self, hzero', s₂]
    rw [hstate]
    have hinode : inodeOf s₂ = update (inodeOf s) f none := by
      funext g
      unfold inodeOf
      rcases eq_or_ne g f with rfl | hg
      · simp [s₂]
      · simp [s₂, hg]
    have hwas : inodeOf s f = (s.fileArray f).fInode := by
      unfold inodeOf
      rw [if_pos (by omega)]
    have hfile : ∀ g, g ≠ f → s₂.fileArray g = s.fileArray g :=
      fun g hg => update_of_ne hg _ _
    have hclosed : (s₂.fileArray f).fCount = 0 := by
      simp [s₂]
    have hsmall₂ : Small n s₂ := by
      intro g
      rcases eq_or_ne g f with rfl | hg
      · rw [hclosed]
        exact Nat.zero_le n
      · rw [hfile g hg]
        exact hs g
    have hshrinks : Shrinks s s₂ := by
      refine ⟨?_, h₁.base, h₁.inUse⟩
      intro g hpos
      rcases eq_or_ne g f with rfl | hg
      · rw [hclosed] at hpos
        cases hpos
      · rw [hfile g hg] at hpos ⊢
        exact ⟨hpos, rfl⟩
    have hfds : ∀ u, KeepsFds D s { s₂ with inodes := u } := by
      intro u p _ g hg
      unfold descriptors at hg ⊢
      dsimp only [s₂]
      rw [h₁.task]
      exact hg
    refine Outcome.forSome ?_ ?_
    · intro i hi
      refine (outcome_onInodes (outcome_iput sb rounds i s₂.inodes)).mono ?_
      rintro _ s' ⟨u, rfl, hothers, hcount⟩
      refine ⟨⟨?_, hsmall₂, hshrinks.trans ⟨fun _ h => ⟨h, rfl⟩, fun _ => rfl, rfl⟩,
        hfds u⟩, h₁.task⟩
      refine hp.closed (f := f) (i := i) (hwas.trans hi) hinode ?_ ?_ h₁.base h₁.inUse
      · intro j hj
        rw [hothers j hj]
        exact congrArg (fun v : Vfs.Table => (v.inodeBlock j).iCount) h₁.inodes
      · rw [← h₁.inodes]
        exact hcount
    · intro hi
      refine ⟨⟨hp.of_same ?_ ?_ h₁.base h₁.inUse, hsmall₂, hshrinks, hfds _⟩, h₁.task⟩
      · rw [hinode, ← hi, ← hwas]
        exact update_eq_self f _
      · intro i
        exact congrArg (fun v : Vfs.Table => (v.inodeBlock i).iCount) h₁.inodes

theorem quiet_sysClose {fd : Nat} (hp : Pins 0 s) (hs : Small n s) (hn : n < 2 ^ 16)
    (hD : ∀ h : fd < nrOpen, D (t, ⟨fd, h⟩)) :
    Outcome Any (sysClose sb rounds t fd) s fun _ s' => Quiet D n s s' := by
  unfold sysClose
  split
  · rename_i hfd
    refine (quiet_clearBit (D := D) hp hs).bind ?_
    rintro _ s₁ ⟨h₁, _⟩
    refine outcome_get_bind ?_
    split
    · exact Outcome.pure h₁
    · have h₂ : Quiet D n s₁ (s₁.setFd t ⟨fd, hfd⟩ none) :=
        quiet_setFd h₁.pins h₁.small (hD hfd)
      refine outcome_modify_bind ?_
      refine (quiet_closeFp (D := D) h₂.pins h₂.small hn).bind ?_
      rintro _ s₃ ⟨h₃, _⟩
      exact Outcome.pure ((h₁.trans h₂).trans h₃)
  · exact Outcome.pure (Quiet.refl hp hs)

theorem quiet_closeFrom {l : List Fd}
    (hp : Pins 0 s) (hs : Small n s) (hn : n < 2 ^ 16) (hD : ∀ fd, D (t, fd)) :
    Outcome Any (closeFrom sb rounds t l) s fun _ s' => Quiet D n s s' := by
  induction l generalizing s with
  | nil => exact Outcome.pure (Quiet.refl hp hs)
  | cons fd l ih =>
      unfold closeFrom
      refine outcome_get_bind ?_
      refine Outcome.bind (R := fun _ s' => Quiet D n s s') (Outcome.forSome ?_ ?_) ?_
      · intro f _
        have h₁ : Quiet D n s (s.setFd t fd none) := quiet_setFd hp hs (hD fd)
        refine outcome_modify_bind ?_
        refine (quiet_closeFp (D := D) h₁.pins h₁.small hn).mono ?_
        rintro _ s₂ ⟨h₂, _⟩
        exact h₁.trans h₂
      · exact fun _ => Quiet.refl hp hs
      · intro _ s₁ h₁
        refine (ih h₁.pins h₁.small).mono ?_
        intro _ s₂ h₂
        exact h₁.trans h₂

theorem quiet_doExit (hp : Pins 0 s) (hs : Small n s) (hn : n < 2 ^ 16) (hD : ∀ fd, D (t, fd)) :
    Outcome Any (doExit sb rounds t) s fun _ s' => Quiet D n s s' := by
  unfold doExit closeAllfiles
  refine (quiet_closeFrom hp hs hn hD).bind ?_
  intro _ s₁ h₁
  refine outcome_modify_bind (Outcome.pure (h₁.trans (Quiet.of_task h₁.pins h₁.small ?_)))
  rintro ⟨t', fd⟩ hnot g hg
  have ht : t' ≠ t := by
    rintro rfl
    exact hnot (hD fd)
  unfold descriptors at hg ⊢
  simpa [ht] using hg

end Close

section Share

variable {s s' : Kernel} {t : TaskRef} {f : Filp} {n fd arg : Nat}
  {D : TaskRef × Fd → Prop} {sb : Fin nrSuper → SuperBlock} {rounds : Nat}

theorem quiet_addCount (hp : Pins 0 s) (hs : Small n s) (hn : n + 1 < 2 ^ 16)
    (hpos : 0 < (s.fileArray f).fCount) :
    Quiet D (n + 1) s (s.setCount f (wrap 16 ((s.fileArray f).fCount + 1))) := by
  have hsmall := hs f
  have hw : wrap 16 ((s.fileArray f).fCount + 1) = (s.fileArray f).fCount + 1 :=
    wrap_of_lt (by omega)
  rw [hw]
  refine ⟨hp.of_same ?_ (fun _ => rfl) (fun _ => rfl) rfl, ?_,
    ⟨?_, fun _ => rfl, rfl⟩, KeepsFds.refl s⟩
  · funext g
    unfold inodeOf
    rcases eq_or_ne g f with rfl | hg
    · simp [Kernel.setCount, hpos]
    · rw [setCount_ne s _ hg]
  · intro g
    rcases eq_or_ne g f with rfl | hg
    · rw [setCount_self]
      omega
    · rw [setCount_ne s _ hg]
      exact (hs g).trans (Nat.le_succ n)
  · intro g hg
    rcases eq_or_ne g f with rfl | hne
    · exact ⟨hpos, by simp [Kernel.setCount]⟩
    · rw [setCount_ne s _ hne] at hg ⊢
      exact ⟨hg, rfl⟩

theorem quiet_setFd_free {fd : Fd} {o : Option Filp}
    (hp : Pins 0 s) (hs : Small n s) (hfree : (s.task t).fd fd = none) :
    Quiet D n s (s.setFd t fd o) := by
  refine Quiet.of_task hp hs ?_
  rintro ⟨t', fd'⟩ _ g hg
  unfold descriptors at hg ⊢
  rcases eq_or_ne t' t with rfl | ht
  · have hne : fd' ≠ fd := by
      rintro rfl
      simp [hfree] at hg
    simpa [hne] using hg
  · simpa [ht] using hg

theorem quiet_dupfd (hb : Books t 0 ∅ s) (hp : Pins 0 s) (hs : Small n s) (hn : n + 1 < 2 ^ 16) :
    Outcome Any (dupfd t fd arg) s fun _ s' => Quiet D (n + 1) s s' := by
  have hstay : Quiet D (n + 1) s s := Quiet.refl hp (hs.mono (Nat.le_succ n))
  unfold dupfd
  refine (outcome_fileAt t fd s).bind ?_
  rintro o _ ⟨rfl, hfile⟩
  cases o with
  | none => exact Outcome.pure hstay
  | some x =>
      obtain ⟨fd', f⟩ := x
      obtain ⟨_, hfd⟩ := hfile fd' f rfl
      refine Outcome.ite (fun _ => Outcome.pure hstay) fun _ => ?_
      refine outcome_get_bind ?_
      split
      · exact Outcome.pure hstay
      · rename_i j hfind
        have hfree : (s.task t).fd j = none := by
          have h := List.find?_some hfind
          simp only [decide_eq_true_eq] at h
          exact h.2
        have hkeep : Keeps Any (Books t 0 ∅) (clearBit t j) := keeps_clearBit stable_books
        refine ((quiet_clearBit (D := D) hp hs).and (hkeep s hb)).bind ?_
        rintro _ s₁ ⟨⟨h₁, hsame⟩, hb₁⟩
        have h₂ : Quiet D n s₁ (s₁.setFd t j (some f)) := by
          refine quiet_setFd_free h₁.pins h₁.small ?_
          rw [hsame.fd]
          exact hfree
        have hpos : 0 < (s₁.fileArray f).fCount := by
          rw [hb₁.counted f]
          have hfd' : (s₁.task t).fd fd' = some f := by
            rw [hsame.fd]
            exact hfd
          exact Nat.add_pos_left (hb₁.pos_of_fd hfd') _
        have h₃ := quiet_addCount (D := D) h₂.pins h₂.small hn hpos
        exact outcome_modify_bind (outcome_modify_bind (Outcome.pure ((h₁.trans h₂).trans h₃)))

theorem quiet_sysDup2 {oldfd newfd : Nat}
    (hb : Books t 0 ∅ s) (hp : Pins 0 s) (hs : Small n s) (hn : n + 1 < 2 ^ 16)
    (hD : ∀ fd, newfd ≠ oldfd → (s.task t).fd fd ≠ none → fd.val = oldfd →
      ∀ h : newfd < nrOpen, D (t, ⟨newfd, h⟩)) :
    Outcome Any (sysDup2 sb rounds t oldfd newfd) s fun _ s' => Quiet D (n + 1) s s' := by
  have hstay : Quiet D (n + 1) s s := Quiet.refl hp (hs.mono (Nat.le_succ n))
  unfold sysDup2
  refine (outcome_fileAt t oldfd s).bind ?_
  rintro o _ ⟨rfl, hfile⟩
  cases o with
  | none => exact Outcome.pure hstay
  | some x =>
      obtain ⟨fd', f⟩ := x
      obtain ⟨hval, hfd⟩ := hfile fd' f rfl
      refine Outcome.ite (fun _ => Outcome.pure hstay) fun hne => ?_
      refine Outcome.ite (fun _ => ?_) fun _ => Outcome.pure hstay
      have hD' := hD fd' hne (by rw [hfd]; simp) hval
      refine ((quiet_sysClose hp hs (by omega) hD').and (outcome_sysClose hb)).bind ?_
      rintro _ s₁ ⟨h₁, hb₁⟩
      refine (quiet_dupfd (D := D) hb₁ h₁.pins h₁.small hn).mono ?_
      intro _ s₂ h₂
      exact h₁.trans h₂

theorem quiet_fcntlDupfd
    (hb : Books t 0 ∅ s) (hp : Pins 0 s) (hs : Small n s) (hn : n + 1 < 2 ^ 16) :
    Outcome Any (fcntlDupfd t fd arg) s fun _ s' => Quiet D (n + 1) s s' := by
  unfold fcntlDupfd
  refine (outcome_fileAt t fd s).bind ?_
  rintro o _ ⟨rfl, _⟩
  cases o with
  | none => exact Outcome.pure (Quiet.refl hp (hs.mono (Nat.le_succ n)))
  | some x => exact quiet_dupfd hb hp hs hn

theorem quiet_shareFiles {l : List Fd} (hp : Pins 0 s) (hs : Small n s) (hn : n + l.length < 2 ^ 16)
    (hopen : ∀ fd f, (s.task t).fd fd = some f → 0 < (s.fileArray f).fCount) :
    Outcome Any (shareFiles t l) s fun _ s' => Quiet D (n + l.length) s s' := by
  induction l generalizing s n with
  | nil => exact Outcome.pure (Quiet.refl hp hs)
  | cons fd l ih =>
      rw [List.length_cons] at hn ⊢
      unfold shareFiles
      refine outcome_get_bind ?_
      refine Outcome.bind (R := fun _ s' => Quiet D (n + 1) s s' ∧
        ∀ fd f, (s'.task t).fd fd = some f → 0 < (s'.fileArray f).fCount)
        (Outcome.forSome ?_ ?_) ?_
      · intro f hfd
        have hpos := hopen fd f hfd
        refine Outcome.modify ⟨quiet_addCount hp hs (by omega) hpos, ?_⟩
        intro fd' g hg
        have hsmall := hs f
        have hw : wrap 16 ((s.fileArray f).fCount + 1) = (s.fileArray f).fCount + 1 :=
          wrap_of_lt (by omega)
        rcases eq_or_ne g f with rfl | hne
        · simp [hw]
        · simpa [hne] using hopen fd' g hg
      · exact fun _ => ⟨Quiet.refl hp (hs.mono (Nat.le_succ n)), hopen⟩
      · rintro _ s₁ ⟨h₁, hopen₁⟩
        refine (ih h₁.pins h₁.small (by omega) hopen₁).mono ?_
        intro _ s₂ h₂
        rw [Nat.add_right_comm] at h₂
        exact h₁.trans h₂

theorem quiet_doFork {virtual dup : Bool}
    (hb : Books t 0 ∅ s) (hp : Pins 0 s) (hs : Small n s) (hn : n + nrOpen < 2 ^ 16) :
    Outcome Any (doFork t virtual dup) s fun _ s' => Quiet D (n + nrOpen) s s' := by
  have hs' : Small (n + nrOpen) s := hs.mono (Nat.le_add_right _ _)
  unfold doFork
  refine outcome_get_bind ?_
  cases hfind : findEmptyProcess t s with
  | none => exact Outcome.pure (Quiet.refl hp hs')
  | some m =>
      have hdead := findEmptyProcess_dead hfind
      -- the slot had no descriptors that count
      have hslot : ∀ d k, Small k s →
          Quiet D k s { s with task := update s.task m d } := by
        intro d k hk
        refine Quiet.of_task hp hk ?_
        rintro ⟨t', fd⟩ _ g hg
        have hne : t' ≠ m := by
          rintro rfl
          simp [descriptors, hdead] at hg
        unfold descriptors at hg ⊢
        simpa [hne] using hg
      refine outcome_get_bind (outcome_modify_bind (Outcome.ite ?_ ?_))
      · intro _
        refine outcome_modify_bind (Outcome.pure ?_)
        have hq := hslot { s.task t with state := .unused } (n + nrOpen) hs'
        simpa using hq
      · intro _
        have h₁ := hslot (s.task t) n hs
        have hmt : t ≠ m := by
          rintro rfl
          rw [hb.live] at hdead
          cases hdead
        have hlen : (List.finRange nrOpen).length = nrOpen := List.length_finRange
        refine Outcome.bind (R := fun _ s' => Quiet D (n + nrOpen) s s') ?_
          fun _ _ h => Outcome.pure h
        refine (quiet_shareFiles (D := D) (t := t) (l := List.finRange nrOpen)
          h₁.pins h₁.small (by rw [hlen]; exact hn) ?_).mono ?_
        · intro fd f hfd
          dsimp only at hfd ⊢
          rw [update_of_ne hmt] at hfd
          rw [hb.counted f]
          exact Nat.add_pos_left (hb.pos_of_fd hfd) _
        · intro _ s₂ h₂
          rw [hlen] at h₂
          exact h₁.trans h₂

end Share

/-- Two descriptors of a task are free. -/
def TwoFds (t : TaskRef) (s : Kernel) : Prop :=
  ∃ fd fd', fd ≠ fd' ∧ (s.task t).fd fd = none ∧ (s.task t).fd fd' = none

/-- Two files are free. -/
def TwoFiles (s : Kernel) : Prop :=
  ∃ f g, f ≠ g ∧ (s.fileArray f).fCount = 0 ∧ (s.fileArray g).fCount = 0

/-- What was there before a call that opens files is still there. -/
structure Kept (s s' : Kernel) : Prop where
  live : ∀ t, (s'.task t).live = (s.task t).live
  fd : ∀ t fd f, (s.task t).fd fd = some f → (s'.task t).fd fd = some f
  file : ∀ f, 0 < (s.fileArray f).fCount → s'.fileArray f = s.fileArray f
  base : ∀ i, 0 < (s.inodes.inodeBlock i).iCount →
    (s'.pipeI i).base = (s.pipeI i).base

/-- `do_pipe` since `s`, with two files that have no inode yet. -/
structure Making (s : Kernel) (f₁ f₂ : Filp) (k : InodeRef → ℕ) (s' : Kernel) :
    Prop where
  kept : Kept s s'
  pins : Pins k s'
  free : (s.fileArray f₁).fCount = 0 ∧ (s.fileArray f₂).fCount = 0
  bare : (s'.fileArray f₁).fInode = none ∧ (s'.fileArray f₂).fInode = none
  grows : ∀ b, s.pipeInUse b = true → s'.pipeInUse b = true

section Make

variable {s s' : Kernel} {t : TaskRef} {f f₁ f₂ : Filp} {k : InodeRef → ℕ}
  {sb : Fin nrSuper → SuperBlock} {rounds : Nat} {i : InodeRef} {b : PipeRef} {A : Fault → Prop}
  {o : Option Filp} {d : File} {fd : Fd}

theorem Kept.refl (s : Kernel) : Kept s s :=
  ⟨fun _ => rfl, fun _ _ _ h => h, fun _ _ => rfl, fun _ _ => rfl⟩

theorem Kept.keepsFds {D : TaskRef × Fd → Prop} (h : Kept s s') : KeepsFds D s s' := by
  rintro ⟨t, fd⟩ _ f hf
  unfold descriptors at hf ⊢
  rw [h.live]
  split at hf
  · rename_i hlive
    rw [if_pos hlive]
    exact h.fd t fd f hf
  · cases hf

theorem Kept.setFile (h : Kept s s') (hf : (s.fileArray f).fCount = 0) :
    Kept s { s' with fileArray := update s'.fileArray f d } where
  live := h.live
  fd := h.fd
  file := by
    intro g hg
    have hne : g ≠ f := by
      rintro rfl
      omega
    exact (update_of_ne hne _ _).trans (h.file g hg)
  base := h.base

theorem Kept.setFd (h : Kept s s') (hfree : (s.task t).fd fd = none) :
    Kept s (s'.setFd t fd o) where
  live := by
    intro t'
    rw [setFd_live]
    exact h.live t'
  fd := by
    intro t' fd' f hf
    rcases eq_or_ne t' t with rfl | ht
    · have hne : fd' ≠ fd := by
        rintro rfl
        rw [hfree] at hf
        cases hf
      rw [setFd_fd, update_of_ne hne]
      exact h.fd t' fd' f hf
    · simpa [Kernel.setFd, ht] using h.fd t' fd' f hf
  file := h.file
  base := h.base

theorem inodeOf_bare (hbare : inodeOf s f = none) (hd : d.fInode = none) :
    inodeOf { s with fileArray := update s.fileArray f d } = inodeOf s := by
  funext g
  rcases eq_or_ne g f with rfl | hg
  · rw [hbare]
    simp [inodeOf, hd]
  · simp [inodeOf, hg]

theorem inodeOf_none (h : (s.fileArray f).fInode = none) : inodeOf s f = none := by
  simp [inodeOf, h]

theorem Making.setFile (h : Making s f₁ f₂ k s') (hf : f = f₁ ∨ f = f₂) (hd : d.fInode = none) :
    Making s f₁ f₂ k { s' with fileArray := update s'.fileArray f d } := by
  have hfree : (s.fileArray f).fCount = 0 := by
    rcases hf with rfl | rfl
    · exact h.free.1
    · exact h.free.2
  have hbare : (s'.fileArray f).fInode = none := by
    rcases hf with rfl | rfl
    · exact h.bare.1
    · exact h.bare.2
  refine ⟨h.kept.setFile hfree, ?_, h.free, ?_, h.grows⟩
  · exact h.pins.of_same (inodeOf_bare (inodeOf_none hbare) hd) (fun _ => rfl) (fun _ => rfl) rfl
  · have hstill : ∀ g, (s'.fileArray g).fInode = none →
        (update s'.fileArray f d g).fInode = none := by
      intro g hg
      rcases eq_or_ne g f with rfl | hne
      · rw [update_self]
        exact hd
      · rw [update_of_ne hne]
        exact hg
    exact ⟨hstill f₁ h.bare.1, hstill f₂ h.bare.2⟩

theorem Making.outcome_drop {r : Except Int (Fd × Fd)} (h : Making s f₁ f₂ k s') :
    Outcome Any (do
      dropCount f₂
      dropCount f₁
      pure r) s' fun r' s'' => r' = r ∧ Making s f₁ f₂ k s'' := by
  have h₁ := h.setFile
    (d := { s'.fileArray f₂ with fCount := wrapSub 16 (s'.fileArray f₂).fCount 1 })
    (Or.inr rfl) h.bare.2
  have h₂ := h₁.setFile (f := f₁)
    (d := { update s'.fileArray f₂ { s'.fileArray f₂ with
      fCount := wrapSub 16 (s'.fileArray f₂).fCount 1 } f₁ with
        fCount := wrapSub 16 (update s'.fileArray f₂ { s'.fileArray f₂ with
          fCount := wrapSub 16 (s'.fileArray f₂).fCount 1 } f₁).fCount 1 })
    (Or.inl rfl) h₁.bare.1
  exact outcome_modify_bind (outcome_modify_bind (Outcome.pure ⟨rfl, h₂⟩))

theorem Making.setFd (h : Making s f₁ f₂ k s') (hfree : (s.task t).fd fd = none) :
    Making s f₁ f₂ k (s'.setFd t fd o) :=
  ⟨h.kept.setFd hfree,
    h.pins.of_same rfl (fun _ => rfl) (fun _ => rfl) rfl, h.free, h.bare, h.grows⟩

theorem outcome_getEmptyFilp_state (s : Kernel) :
    Outcome A getEmptyFilp s fun o s' =>
      (o = none → s = s' ∧ ∀ f, (s.fileArray f).fCount ≠ 0) ∧
      ∀ f, o = some f → (s.fileArray f).fCount = 0 ∧
        s' = { s with
          fileArray := update s.fileArray f { File.zero with fCount := 1 } } := by
  unfold getEmptyFilp
  refine outcome_get_bind ?_
  cases hfind : (List.finRange nrFile).find? fun f => (s.fileArray f).fCount = 0 with
  | none =>
      refine Outcome.pure ⟨fun _ => ⟨rfl, fun f => ?_⟩, fun f hf => by cases hf⟩
      simpa using List.find?_eq_none.mp hfind f (List.mem_finRange f)
  | some f =>
      refine outcome_modify_bind (Outcome.pure ⟨fun h => (by cases h), ?_⟩)
      rintro g hg
      obtain rfl := Option.some.inj hg
      exact ⟨by simpa using List.find?_some hfind, rfl⟩

theorem outcome_getUnusedFd_state (t : TaskRef) (s : Kernel) :
    Outcome A (getUnusedFd t) s fun o s' =>
      (∃ g, s' = { s with task := g }) ∧ SameFds s s' ∧
      (o = none → ∀ fd, (s.task t).fd fd ≠ none) ∧
      ∀ fd, o = some fd → (s.task t).fd fd = none := by
  unfold getUnusedFd
  refine outcome_get_bind ?_
  cases hfind : (List.finRange nrOpen).find? fun fd => (s.task t).fd fd = none with
  | none =>
      refine Outcome.pure ⟨⟨s.task, rfl⟩, SameFds.refl s, fun _ fd => ?_,
        fun fd hfd => by cases hfd⟩
      have h := List.find?_eq_none.mp hfind fd (List.mem_finRange fd)
      simpa using h
  | some fd =>
      have hkept : Keeps Any (SameFds s) (clearBit t fd) := keeps_clearBit (stable_sameFds s)
      have hsame := (hkept s (SameFds.refl s)).of_ok rfl
      refine Outcome.bind (R := fun _ s' => (∃ g, s' = { s with task := g }) ∧
        SameFds s s') (Outcome.modify ⟨⟨_, rfl⟩, hsame⟩) ?_
      rintro _ s' ⟨hs', hsame'⟩
      refine Outcome.pure ⟨hs', hsame', fun h => (by cases h), ?_⟩
      intro fd' hfd'
      obtain rfl := Option.some.inj hfd'
      simpa using List.find?_some hfind

theorem outcome_getPipeMem_state (s : Kernel) :
    Outcome A getPipeMem s fun o s' =>
      (o = none → s' = s ∧ ∀ b, s.pipeInUse b = true) ∧
      ∀ b, o = some b → s.pipeInUse b = false ∧
        s' = { s with pipeInUse := update s.pipeInUse b true } := by
  unfold getPipeMem
  refine outcome_get_bind ?_
  cases hfind : (List.finRange maxPipes).find? fun b => ¬s.pipeInUse b with
  | none =>
      refine Outcome.pure ⟨fun _ => ⟨rfl, fun b => ?_⟩, fun b hb => by cases hb⟩
      have hb := List.find?_eq_none.mp hfind b (List.mem_finRange b)
      simpa using hb
  | some b =>
      refine outcome_modify_bind (Outcome.pure ⟨fun h => (by cases h), ?_⟩)
      intro b' hb'
      obtain rfl := Option.some.inj hb'
      exact ⟨by simpa using List.find?_some hfind, rfl⟩

theorem Making.outcome_iput (h : Making s f₁ f₂ (k + one i) s') :
    Outcome Any (onInodes (iput sb rounds i)) s' fun _ s'' =>
      Making s f₁ f₂ k s'' := by
  refine (outcome_onInodes (Files.outcome_iput sb rounds i s'.inodes)).mono ?_
  rintro _ s'' ⟨u, rfl, hothers, hcount⟩
  refine ⟨⟨h.kept.live, h.kept.fd, h.kept.file, h.kept.base⟩,
    ⟨?_, h.pins.based, h.pins.distinct⟩, h.free, h.bare, h.grows⟩
  intro j
  have hheld := h.pins.held j
  rw [Pi.add_apply] at hheld
  dsimp only
  rcases eq_or_ne j i with rfl | hj
  · rw [one_self] at hheld
    have hsame : tally (inodeOf { s' with inodes := u }) (some j) =
        tally (inodeOf s') (some j) := rfl
    omega
  · rw [one_ne hj] at hheld
    rw [hothers j hj]
    exact hheld

theorem Making.outcome_emptyInode (h : Making s f₁ f₂ 0 s') (hinodes : s'.inodes = s.inodes) :
    Outcome Any emptyInode s' fun i s'' =>
      Making s f₁ f₂ (0 + one i) s'' ∧ (s.inodes.inodeBlock i).iCount = 0 ∧
        (s''.inodes.inodeBlock i).iCount = 1 ∧ s''.pipeInUse = s'.pipeInUse := by
  unfold emptyInode
  refine (outcome_onInodes (outcome_getEmptyInode s'.inodes)).bind ?_
  rintro i s₁ ⟨u, rfl, hfree, hothers, n, hinode⟩
  have hone : (u.inodeBlock i).iCount = 1 := by
    rw [hinode]
  refine outcome_modify_bind (Outcome.pure ⟨?_, ?_, hone, rfl⟩)
  · have hnone : tally (inodeOf s') (some i) = 0 := by
      have hheld := h.pins.held i
      omega
    have hbase : ∀ j b, (update s'.pipeI i PipeInodeInfo.zero j).base = some b →
        j ≠ i ∧ (s'.pipeI j).base = some b := by
      intro j b hb
      rcases eq_or_ne j i with rfl | hj
      · rw [update_self] at hb
        cases hb
      · rw [update_of_ne hj] at hb
        exact ⟨hj, hb⟩
    refine ⟨⟨h.kept.live, h.kept.fd, h.kept.file, ?_⟩, ⟨?_, ?_, ?_⟩, h.free, h.bare,
      h.grows⟩
    · intro j hj
      have hne : j ≠ i := by
        rintro rfl
        rw [← hinodes] at hj
        omega
      dsimp only
      rw [update_of_ne hne]
      exact h.kept.base j hj
    · intro j
      have hheld := h.pins.held j
      have hsame : ∀ p, tally (inodeOf { s' with inodes := u, pipeI := p }) (some j) =
          tally (inodeOf s') (some j) := fun _ => rfl
      rw [zero_add]
      dsimp only
      rw [hsame]
      rcases eq_or_ne j i with rfl | hj
      · rw [one_self, hone, hnone]
      · rw [one_ne hj, hothers j hj]
        exact hheld
    · exact fun j b hb => h.pins.based j b (hbase j b hb).2
    · intro j j' b hb hb'
      exact h.pins.distinct j j' b (hbase j b hb).2 (hbase j' b hb').2
  · rw [← hinodes]
    exact hfree

/-- `do_pipe` has an inode with two references and the buffer `b`, which is the
only one taken since `s`. -/
structure Piped (s : Kernel) (f₁ f₂ : Filp) (i : InodeRef) (b : PipeRef)
    (s' : Kernel) : Prop where
  making : Making s f₁ f₂ (0 + one i + one i) s'
  count : (s'.inodes.inodeBlock i).iCount = 2
  base : (s'.pipeI i).base = some b
  taken : ∀ b', s'.pipeInUse b' = true → s.pipeInUse b' = true ∨ b' = b

theorem Making.take {d : Inode} {p : PipeInodeInfo} (h : Making s f₁ f₂ (0 + one i) s')
    (hfree : (s.inodes.inodeBlock i).iCount = 0)
    (hone : (s'.inodes.inodeBlock i).iCount = 1) (hnew : s'.pipeInUse b = false)
    (hd : d.iCount = 2) (hp : p.base = some b) :
    Making s f₁ f₂ (0 + one i + one i)
      { s' with
        pipeInUse := update s'.pipeInUse b true,
        inodes := { s'.inodes with
          inodeBlock := update s'.inodes.inodeBlock i d },
        pipeI := update s'.pipeI i p } := by
  have hunused : ∀ j, (s'.pipeI j).base ≠ some b := by
    intro j hj
    rw [h.pins.based j b hj] at hnew
    cases hnew
  refine ⟨⟨h.kept.live, h.kept.fd, h.kept.file, ?_⟩, ⟨?_, ?_, ?_⟩, h.free, h.bare, ?_⟩
  · intro j hj
    have hne : j ≠ i := by
      rintro rfl
      omega
    dsimp only
    rw [update_of_ne hne]
    exact h.kept.base j hj
  · intro j
    have hheld := h.pins.held j
    have hsame : ∀ u v w, tally (inodeOf
        { s' with pipeInUse := u, inodes := v, pipeI := w }) (some j) =
        tally (inodeOf s') (some j) := fun _ _ _ => rfl
    rw [hsame]
    rw [Pi.add_apply] at hheld ⊢
    dsimp only
    rcases eq_or_ne j i with rfl | hj
    · rw [one_self] at hheld ⊢
      rw [Pi.add_apply, one_self, update_self, hd]
      omega
    · rw [one_ne hj] at hheld ⊢
      rw [Pi.add_apply, one_ne hj, update_of_ne hj]
      exact hheld
  · intro j b' hb'
    dsimp only at hb' ⊢
    rcases eq_or_ne b' b with rfl | hne
    · exact update_self _ _ _
    · rw [update_of_ne hne]
      rcases eq_or_ne j i with rfl | hj
      · rw [update_self, hp] at hb'
        exact absurd (Option.some.inj hb').symm hne
      · rw [update_of_ne hj] at hb'
        exact h.pins.based j b' hb'
  · intro j j' b' hb hb'
    dsimp only at hb hb'
    rcases eq_or_ne j i with rfl | hj
    · rcases eq_or_ne j' j with rfl | hj'
      · rfl
      · rw [update_self, hp] at hb
        rw [update_of_ne hj', ← hb] at hb'
        exact absurd hb' (hunused j')
    · rw [update_of_ne hj] at hb
      rcases eq_or_ne j' i with rfl | hj'
      · rw [update_self, hp] at hb'
        rw [← hb'] at hb
        exact absurd hb (hunused j)
      · rw [update_of_ne hj'] at hb'
        exact h.pins.distinct j j' b' hb hb'
  · intro b' hb'
    dsimp only
    rcases eq_or_ne b' b with rfl | hne
    · exact update_self _ _ _
    · rw [update_of_ne hne]
      exact h.grows b' hb'

theorem Making.outcome_getPipeInode (h : Making s f₁ f₂ 0 s') (hinodes : s'.inodes = s.inodes)
    (huse : s'.pipeInUse = s.pipeInUse) :
    Outcome Any (getPipeInode sb rounds) s' fun o s'' =>
      (o = none → Making s f₁ f₂ 0 s'' ∧ ∀ b, s.pipeInUse b = true) ∧
      ∀ i, o = some i → ∃ b, Piped s f₁ f₂ i b s'' := by
  unfold getPipeInode
  refine (h.outcome_emptyInode hinodes).bind ?_
  rintro i s₁ ⟨h₁, hfree, hone, huse₁⟩
  refine (outcome_getPipeMem_state s₁).bind ?_
  rintro o s₂ ⟨hnone, hsome⟩
  cases o with
  | none =>
      obtain ⟨rfl, hall⟩ := hnone rfl
      refine h₁.outcome_iput.bind ?_
      intro _ s₃ h₃
      refine Outcome.pure ⟨fun _ => ⟨h₃, ?_⟩, fun i hi => by cases hi⟩
      rw [← huse, ← huse₁]
      exact hall
  | some b =>
      obtain ⟨hnew, rfl⟩ := hsome b rfl
      refine outcome_modify_bind (outcome_modify_bind (Outcome.pure
        ⟨fun h => (by cases h), ?_⟩))
      intro i' hi'
      obtain rfl := Option.some.inj hi'
      refine ⟨b, ⟨?_, ?_, ?_, ?_⟩⟩
      · exact h₁.take hfree hone hnew rfl rfl
      · simp
      · simp
      · intro b' hb'
        rcases eq_or_ne b' b with rfl | hne
        · exact Or.inr rfl
        · left
          dsimp only at hb'
          rw [update_of_ne hne, huse₁, huse] at hb'
          exact hb'

theorem Piped.of_task {g : TaskRef → Task}
    (h : Piped s f₁ f₂ i b s') (hsame : SameFds s' { s' with task := g }) :
    Piped s f₁ f₂ i b { s' with task := g } := by
  refine ⟨⟨⟨?_, ?_, h.making.kept.file, h.making.kept.base⟩, ?_, h.making.free,
    h.making.bare, h.making.grows⟩, h.count, h.base, h.taken⟩
  · exact fun t => (hsame.live t).trans (h.making.kept.live t)
  · intro t fd f hf
    rw [hsame.fd t]
    exact h.making.kept.fd t fd f hf
  · exact h.making.pins.of_same rfl (fun _ => rfl) (fun _ => rfl) rfl

theorem Piped.withFd (h : Piped s f₁ f₂ i b s') (hfree : (s.task t).fd fd = none) :
    Piped s f₁ f₂ i b (s'.setFd t fd o) :=
  ⟨h.making.setFd hfree, h.count, h.base, h.taken⟩

theorem Piped.outcome_undo (h : Piped s f₁ f₂ i b s') :
    Outcome Any (undoPipe sb rounds f₁ f₂ i) s' fun r s'' =>
      r = .error (-emfile) ∧ Making s f₁ f₂ 0 s'' := by
  unfold undoPipe
  refine outcome_modify_bind ?_
  have h₁ : Making s f₁ f₂ (0 + one i)
      { s' with inodes := { s'.inodes with
        inodeBlock := update s'.inodes.inodeBlock i
          { s'.inodes.inodeBlock i with
            iCount := wrapSub 16 (s'.inodes.inodeBlock i).iCount 1 } } } := by
    refine ⟨⟨h.making.kept.live, h.making.kept.fd, h.making.kept.file,
      h.making.kept.base⟩, ⟨?_, h.making.pins.based, h.making.pins.distinct⟩,
      h.making.free, h.making.bare, h.making.grows⟩
    intro j
    have hheld := h.making.pins.held j
    have hcount := h.count
    have hsame : ∀ u, tally (inodeOf { s' with inodes := u }) (some j) =
        tally (inodeOf s') (some j) := fun _ => rfl
    rw [hsame]
    dsimp only
    rw [Pi.add_apply, Pi.add_apply] at hheld
    rw [Pi.add_apply]
    rcases eq_or_ne j i with rfl | hj
    · have htwo : wrapSub 16 2 1 = 1 := by decide
      rw [one_self] at hheld ⊢
      rw [update_self, hcount, htwo]
      dsimp only
      omega
    · rw [one_ne hj] at hheld ⊢
      rw [update_of_ne hj]
      exact hheld
  refine h₁.outcome_iput.bind ?_
  intro _ s₂ h₂
  exact h₂.outcome_drop

theorem tally_setFile_le {i k : InodeRef} (hd : d.fInode = some i) :
    tally (inodeOf { s with fileArray := update s.fileArray f d }) (some k) ≤
      tally (inodeOf s) (some k) + one i k := by
  have hinode : inodeOf { s with fileArray := update s.fileArray f d } =
      update (inodeOf s) f (if 0 < d.fCount then some i else none) := by
    funext g
    unfold inodeOf
    rcases eq_or_ne g f with rfl | hg
    · simp [hd]
    · simp [hg]
  rw [hinode]
  rcases eq_or_ne k i with rfl | hk
  · rw [one_self]
    exact tally_update_le
  · rw [one_ne hk]
    refine tally_update_le_of_ne ?_
    split
    · simpa using hk.symm
    · simp

theorem Piped.outcome_export {k j : Fd} (h : Piped s f₁ f₂ i b s')
    (hfree : (s.task t).fd j = none) :
    Outcome Any (exportPipe t f₁ f₂ i k j) s' fun r s'' =>
      r = .ok (k, j) ∧ Kept s s'' ∧ Pins 0 s'' ∧ LivePipe s'' i b ∧
        s''.pipeInUse = s'.pipeInUse := by
  unfold exportPipe
  refine outcome_modify_bind (outcome_modify_bind (outcome_modify_bind
    (outcome_modify_bind (outcome_modify_bind (Outcome.pure ⟨rfl, ?_, ?_, ?_, rfl⟩)))))
  · have hk := ((h.making.kept.setFile (f := f₁)
      (d := { s'.fileArray f₁ with
        fInode := some i, fFlags := 0, fOp := some .readPipe, fMode := 1 })
      h.making.free.1).setFile (f := f₂)
      (d := { update s'.fileArray f₁ { s'.fileArray f₁ with
          fInode := some i, fFlags := 0, fOp := some .readPipe, fMode := 1 } f₂ with
        fInode := some i, fFlags := 1, fOp := some .writePipe, fMode := 2 })
      h.making.free.2).setFd (o := some f₂) hfree
    exact ⟨hk.live, hk.fd, hk.file, hk.base⟩
  · refine ⟨?_, h.making.pins.based, h.making.pins.distinct⟩
    intro k
    have hheld := h.making.pins.held k
    -- the two files are the references that were in hand
    have h₁ := tally_setFile_le (s := s') (f := f₁) (k := k) (i := i)
      (d := { s'.fileArray f₁ with
        fInode := some i, fFlags := 0, fOp := some .readPipe, fMode := 1 }) rfl
    have h₂ := tally_setFile_le (f := f₂) (k := k) (i := i)
      (s := { s' with
        fileArray := update s'.fileArray f₁ { s'.fileArray f₁ with
          fInode := some i, fFlags := 0, fOp := some .readPipe, fMode := 1 } })
      (d := { update s'.fileArray f₁ { s'.fileArray f₁ with
          fInode := some i, fFlags := 0, fOp := some .readPipe, fMode := 1 } f₂ with
        fInode := some i, fFlags := 1, fOp := some .writePipe, fMode := 2 }) rfl
    rw [Pi.add_apply, Pi.add_apply] at hheld
    refine le_trans (Nat.add_le_add_right (h₂.trans (Nat.add_le_add_right h₁ _)) _) ?_
    rw [Pi.zero_apply] at hheld ⊢
    dsimp only
    omega
  · refine ⟨?_, h.base⟩
    have hcount := h.count
    dsimp only
    omega

theorem Piped.outcome_finish (h : Piped s f₁ f₂ i b s') (htwo : TwoFiles s) (hsame : SameFds s s') :
    Outcome Any (do
      match ← getUnusedFd t with
      | none => undoPipe sb rounds f₁ f₂ i
      | some fd => do
          setFd t fd (some f₁)
          match ← getUnusedFd t with
          | none => do
              setFd t fd none
              undoPipe sb rounds f₁ f₂ i
          | some j => exportPipe t f₁ f₂ i fd j) s' fun r s'' =>
      Kept s s'' ∧ Pins 0 s'' ∧ (∀ b, s.pipeInUse b = true → s''.pipeInUse b = true) ∧
      (TwoFds t s ∨ ¬TwoFiles s ∨ (∀ b, s.pipeInUse b = true) →
        ∀ b, s''.pipeInUse b = true → s.pipeInUse b = true ∨ ∃ i, LivePipe s'' i b) ∧
      (r = .error enfile → TwoFiles s → ∀ b, s.pipeInUse b = true) := by
  -- giving up is harmless only when no buffer could be taken
  have hundo : ∀ u, Piped s f₁ f₂ i b u → ¬TwoFds t s →
      Outcome Any (undoPipe sb rounds f₁ f₂ i) u fun r s'' =>
        Kept s s'' ∧ Pins 0 s'' ∧
        (∀ b, s.pipeInUse b = true → s''.pipeInUse b = true) ∧
        (TwoFds t s ∨ ¬TwoFiles s ∨ (∀ b, s.pipeInUse b = true) →
          ∀ b, s''.pipeInUse b = true →
            s.pipeInUse b = true ∨ ∃ i, LivePipe s'' i b) ∧
        (r = .error enfile → TwoFiles s → ∀ b, s.pipeInUse b = true) := by
    intro u hu hfds
    refine hu.outcome_undo.mono ?_
    rintro r s'' ⟨rfl, h''⟩
    refine ⟨h''.kept, h''.pins, h''.grows, ?_, fun hr => absurd hr (by decide)⟩
    rintro (hfds' | hfiles | hall) b _
    · exact absurd hfds' hfds
    · exact absurd htwo hfiles
    · exact Or.inl (hall b)
  refine (outcome_getUnusedFd_state t s').bind ?_
  rintro o s₁ ⟨⟨g, rfl⟩, hsame₁, hnone, hsome⟩
  have h₁ := h.of_task hsame₁
  cases o with
  | none =>
      refine hundo _ h₁ ?_
      rintro ⟨fd, _, _, hfd, _⟩
      rw [← hsame.fd t] at hfd
      exact hnone rfl fd hfd
  | some fd =>
      have hfd : (s.task t).fd fd = none := by
        rw [← hsame.fd t]
        exact hsome fd rfl
      have h₂ : Piped s f₁ f₂ i b (Kernel.setFd { s' with task := g } t fd (some f₁)) :=
        h₁.withFd hfd
      have hfds₂ : ((Kernel.setFd { s' with task := g } t fd (some f₁)).task t).fd =
          update (s.task t).fd fd (some f₁) := by
        rw [setFd_fd, hsame₁.fd t, hsame.fd t]
      refine outcome_modify_bind ?_
      refine (outcome_getUnusedFd_state t
        (Kernel.setFd { s' with task := g } t fd (some f₁))).bind ?_
      rintro o s₃ ⟨⟨g', rfl⟩, hsame₃, hnone₃, hsome₃⟩
      have h₃ := h₂.of_task hsame₃
      cases o with
      | none =>
          refine outcome_modify_bind (hundo _ (h₃.withFd hfd) ?_)
          rintro ⟨a, c, hne, ha, hc⟩
          have hleft : ∀ a, (s.task t).fd a = none → a = fd := by
            intro a ha
            by_contra haf
            refine hnone₃ rfl a ?_
            rw [hfds₂, update_of_ne haf]
            exact ha
          exact hne ((hleft a ha).trans (hleft c hc).symm)
      | some j =>
          have hj := hsome₃ j rfl
          have hjfd : j ≠ fd := by
            rintro rfl
            rw [hfds₂, update_self] at hj
            cases hj
          rw [hfds₂, update_of_ne hjfd] at hj
          refine (h₃.outcome_export hj).mono ?_
          rintro r s₄ ⟨rfl, hkept, hpins, hlive, huse⟩
          refine ⟨hkept, hpins, ?_, ?_, fun hr => by cases hr⟩
          · intro b' hb'
            rw [huse]
            exact h₃.making.grows b' hb'
          · intro _ b' hb'
            rw [huse] at hb'
            rcases h₃.taken b' hb' with hold | rfl
            · exact Or.inl hold
            · exact Or.inr ⟨i, hlive⟩

theorem outcome_doPipe_pins (hp : Pins 0 s) :
    Outcome Any (doPipe sb rounds t) s fun r s' =>
      Kept s s' ∧ Pins 0 s' ∧ (∀ b, s.pipeInUse b = true → s'.pipeInUse b = true) ∧
      (TwoFds t s ∨ ¬TwoFiles s ∨ (∀ b, s.pipeInUse b = true) →
        ∀ b, s'.pipeInUse b = true → s.pipeInUse b = true ∨ ∃ i, LivePipe s' i b) ∧
      (r = .error enfile → TwoFiles s → ∀ b, s.pipeInUse b = true) := by
  have hsame : ∀ s', (∀ b, s'.pipeInUse b = true → s.pipeInUse b = true) →
      ∀ b, s'.pipeInUse b = true → s.pipeInUse b = true ∨ ∃ i, LivePipe s' i b :=
    fun _ h b hb => Or.inl (h b hb)
  unfold doPipe
  refine (outcome_getEmptyFilp_state s).bind ?_
  rintro o s₁ ⟨hnone, hsome⟩
  cases o with
  | none =>
      obtain ⟨rfl, hall⟩ := hnone rfl
      refine Outcome.pure ⟨Kept.refl s, hp, fun _ h => h, fun _ => hsame _ fun _ h => h, ?_⟩
      rintro _ ⟨f, _, _, hf, _⟩
      exact absurd hf (hall f)
  | some f₁ =>
      obtain ⟨hfree₁, rfl⟩ := hsome f₁ rfl
      refine (outcome_getEmptyFilp_state _).bind ?_
      rintro o s₂ ⟨hnone₂, hsome₂⟩
      cases o with
      | none =>
          obtain ⟨rfl, hall⟩ := hnone₂ rfl
          refine outcome_modify_bind (Outcome.pure ⟨?_, ?_, fun _ h => h,
            fun _ => hsame _ fun _ h => h, ?_⟩)
          · exact ((Kept.refl s).setFile hfree₁).setFile hfree₁
          · have hbare : inodeOf s f₁ = none := by simp [inodeOf, hfree₁]
            refine hp.of_same ?_ (fun _ => rfl) (fun _ => rfl) rfl
            exact (inodeOf_bare (inodeOf_none (by simp [File.zero])) (by simp [File.zero])).trans
              (inodeOf_bare hbare rfl)
          · rintro _ ⟨f, g, hne, hf, hg⟩
            have hleft : ∀ f, (s.fileArray f).fCount = 0 → f = f₁ := by
              intro f hf
              by_contra hff
              have h := hall f
              simp only [update_of_ne hff] at h
              exact h hf
            exact absurd ((hleft f hf).trans (hleft g hg).symm) hne
      | some f₂ =>
          obtain ⟨hfree₂', rfl⟩ := hsome₂ f₂ rfl
          have hne : f₂ ≠ f₁ := by
            rintro rfl
            simp at hfree₂'
          have hfree₂ : (s.fileArray f₂).fCount = 0 := by
            simpa [hne] using hfree₂'
          have htwo : TwoFiles s := ⟨f₁, f₂, hne.symm, hfree₁, hfree₂⟩
          have hmaking : Making s f₁ f₂ 0
              { s with
                fileArray := update
                  (update s.fileArray f₁ { File.zero with fCount := 1 }) f₂
                  { File.zero with fCount := 1 } } := by
            refine ⟨((Kept.refl s).setFile hfree₁).setFile hfree₂, ?_,
              ⟨hfree₁, hfree₂⟩, ?_, fun _ h => h⟩
            · have hbare₁ : inodeOf s f₁ = none := by simp [inodeOf, hfree₁]
              have hbare₂ : inodeOf { s with
                  fileArray := update s.fileArray f₁
                    { File.zero with fCount := 1 } } f₂ = none := by
                simp [inodeOf, hne, hfree₂]
              exact hp.of_same ((inodeOf_bare hbare₂ rfl).trans (inodeOf_bare hbare₁ rfl))
                (fun _ => rfl) (fun _ => rfl) rfl
            · simp [hne.symm, File.zero]
          have hkeep : Keeps Any (SameFds s) (getPipeInode sb rounds) :=
            keeps_getPipeInode (stable_sameFds s)
          refine ((hmaking.outcome_getPipeInode rfl rfl).and
            (hkeep _ ⟨fun _ => rfl, fun _ => rfl⟩)).bind ?_
          rintro o s₃ ⟨⟨hnone₃, hsome₃⟩, hsame₃⟩
          cases o with
          | none =>
              obtain ⟨h₃, hall⟩ := hnone₃ rfl
              refine h₃.outcome_drop.mono ?_
              rintro r s₄ ⟨rfl, h₄⟩
              exact ⟨h₄.kept, h₄.pins, h₄.grows, fun _ => hsame _ fun b _ => hall b,
                fun _ _ => hall⟩
          | some i =>
              exact (hsome₃ i rfl).elim fun b h₃ => h₃.outcome_finish htwo hsame₃

end Make

/-- A call that works on descriptors and opens nothing but pipes. -/
def Call.OfPipes : Call → Prop
  | .open _ _ => False
  | .exec => False
  | _ => True

/-- The descriptors that a call of task `t` takes away. -/
def Call.Closes (s : Kernel) (t : TaskRef) : Call → TaskRef × Fd → Prop
  | .close fd, p => p.1 = t ∧ p.2.val = fd
  | .dup2 oldfd newfd, p =>
      p.1 = t ∧ p.2.val = newfd ∧ newfd ≠ oldfd ∧
        ∃ fd, fd.val = oldfd ∧ (s.task t).fd fd ≠ none
  | .exit, p => p.1 = t
  | _, _ => False

/-- Every pipe keeps a descriptor, and a new pipe that takes a buffer is given its
two descriptors. -/
structure Call.Harmless (s : Kernel) (t : TaskRef) (c : Call) : Prop where
  ofPipes : c.OfPipes
  keeps : ∀ i b, LivePipe s i b → ∃ p f, ¬c.Closes s t p ∧
    descriptors s p = some f ∧ (s.fileArray f).fInode = some i
  room : (∃ u filedes, c = .pipe u filedes) →
    TwoFds t s ∨ ¬TwoFiles s ∨ ∀ b, s.pipeInUse b = true

/-- Exactly the buffers of live pipes are in use, and no two pipes share one. -/
structure Recycled (s : Kernel) : Prop where
  inUse : ∀ b, s.pipeInUse b = true ↔ ∃ i, LivePipe s i b
  distinct : ∀ i j b, LivePipe s i b → LivePipe s j b → i = j

/-- As many pipes are live as there are buffers. -/
def AllOpen (s : Kernel) : Prop :=
  ∃ pipes : PipeRef → InodeRef, Function.Injective pipes ∧ ∀ b, LivePipe s (pipes b) b

/-- A state with open files but no pipe. -/
structure NoPipes (s : Kernel) : Prop where
  sound : Sound s
  held : ∀ i, tally (inodeOf s) (some i) ≤ (s.inodes.inodeBlock i).iCount
  noBase : ∀ i, (s.pipeI i).base = none
  noUse : ∀ b, s.pipeInUse b = false

section Run

variable {s s' : Kernel} {sb : Fin nrSuper → SuperBlock} {p : TaskRef × Fd} {i : InodeRef}
  {rounds : Nat} {b : PipeRef} {t : TaskRef} {f : Filp}

/-- A live task makes a call of descriptors that comes back. -/
def PipeStep (sb : Fin nrSuper → SuperBlock) (s s' : Kernel) : Prop :=
  ∃ rounds t c r, (s.task t).state = c.by ∧ c.OfPipes ∧
    Call.perform sb rounds t c s = .ok (r, s')

/-- A live task makes a harmless call that comes back. -/
def HarmlessStep (sb : Fin nrSuper → SuperBlock) (s s' : Kernel) : Prop :=
  ∃ rounds t c r, (s.task t).state = c.by ∧ c.Harmless s t ∧
    Call.perform sb rounds t c s = .ok (r, s')

/-- The pins hold and exactly the buffers of live pipes are in use. -/
structure Managed (s : Kernel) : Prop where
  sound : Sound s
  pins : Pins 0 s
  recycled : Recycled s

theorem Pins.live (hp : Pins 0 s) (hs : Sound s) (hfd : descriptors s p = some f)
    (hi : (s.fileArray f).fInode = some i) (hb : (s.pipeI i).base = some b) : LivePipe s i b := by
  have hcount : 0 < (s.fileArray f).fCount := by
    rw [hs.counted f]
    exact tally_pos_of_finite hfd
  have hpin : 0 < tally (inodeOf s) (some i) := by
    refine tally_pos_of_finite (k := f) ?_
    unfold inodeOf
    rw [if_pos hcount]
    exact hi
  exact ⟨hpin.trans_le ((Nat.le_add_right _ _).trans (hp.held i)), hb⟩

theorem Pins.recycled (hp : Pins 0 s) (hlive : ∀ b, s.pipeInUse b = true → ∃ i, LivePipe s i b) :
    Recycled s where
  inUse := by
    refine fun b => ⟨hlive b, ?_⟩
    rintro ⟨i, _, hb⟩
    exact hp.based i b hb
  distinct := fun i j b hi hj => hp.distinct i j b hi.2 hj.2

theorem Quiet.managed {n : Nat} {D : TaskRef × Fd → Prop}
    (hm : Managed s) (hs' : Sound s') (hq : Quiet D n s s')
    (hkeeps : ∀ i b, LivePipe s i b → ∃ p f, ¬D p ∧
      descriptors s p = some f ∧ (s.fileArray f).fInode = some i) :
    Managed s' := by
  refine ⟨hs', hq.pins, hq.pins.recycled ?_⟩
  intro b hb
  rw [hq.shrinks.inUse] at hb
  obtain ⟨i, hi⟩ := (hm.recycled.inUse b).mp hb
  obtain ⟨p, f, hD, hfd, hf⟩ := hkeeps i b hi
  have hfd' := hq.fds p hD f hfd
  have hcount : 0 < (s'.fileArray f).fCount := by
    rw [hs'.counted f]
    exact tally_pos_of_finite hfd'
  refine ⟨i, hq.pins.live hs' hfd' ?_ ?_⟩
  · rw [(hq.shrinks.files f hcount).2]
    exact hf
  · rw [hq.shrinks.base]
    exact hi.2

theorem Kept.outlives (hk : Kept s s') (hs : Sound s) (hs' : Sound s') (hp : Pins 0 s')
    (hi : LivePipe s i b) (hfd : descriptors s p = some f) (hf : (s.fileArray f).fInode = some i) :
    LivePipe s' i b := by
  have hcount : 0 < (s.fileArray f).fCount := by
    rw [hs.counted f]
    exact tally_pos_of_finite hfd
  have hfds : KeepsFds (fun _ => False) s s' := hk.keepsFds
  refine hp.live hs' (hfds p (fun h => h) f hfd) ?_ ?_
  · rw [hk.file f hcount]
    exact hf
  · rw [hk.base i hi.1]
    exact hi.2

theorem outcome_sysPipe_managed {u : User} {filedes : UInt16} (hm : Managed s)
    (hlive : (s.task t).live = true) (hc : (Call.pipe u filedes).Harmless s t) :
    Outcome Any (sysPipe sb rounds t u filedes) s fun _ s' => Managed s' := by
  have hb := hm.sound.books hlive
  unfold sysPipe
  refine Outcome.bind (R := fun _ s' => Managed s') ?_ fun o _ hm' => by
    cases o with
    | error error => exact Outcome.pure hm'
    | ok fd => exact Outcome.pure hm'
  refine ((outcome_doPipe_pins hm.pins).and (outcome_doPipe hb)).mono ?_
  rintro r s' ⟨⟨hkept, hpins, _, huse, _⟩, hb'⟩
  have hs' := hb'.sound
  refine ⟨hs', hpins, hpins.recycled ?_⟩
  intro b hb''
  rcases huse (hc.room ⟨u, filedes, rfl⟩) b hb'' with hold | hnew
  · obtain ⟨i, hi⟩ := (hm.recycled.inUse b).mp hold
    obtain ⟨p, f, _, hfd, hf⟩ := hc.keeps i b hi
    exact ⟨i, hkept.outlives hm.sound hs' hpins hi hfd hf⟩
  · exact hnew

theorem outcome_harmless {c : Call}
    (hm : Managed s) (hstate : (s.task t).state = c.by) (hc : c.Harmless s t) :
    Outcome Any (c.perform sb rounds t) s fun _ s' => Managed s' := by
  have hsmall := hm.sound.small
  have hbooks : c.by = .running → Books t 0 ∅ s := fun hby =>
    hm.sound.books (decide_eq_true (hstate.trans hby))
  have hquiet : ∀ {n}, Outcome Any (c.perform sb rounds t) s (fun _ s' =>
      Quiet (c.Closes s t) n s s') →
      Outcome Any (c.perform sb rounds t) s fun _ s' => Managed s' := by
    intro n hq
    refine (hq.and (outcome_performBy hm.sound hstate)).mono ?_
    rintro _ s' ⟨hq', hs'⟩
    exact hq'.managed hm hs' hc.keeps
  cases c with
  | «open» flags found => exact hc.ofPipes.elim
  | close fd =>
      exact hquiet (quiet_sysClose hm.pins hsmall (by decide) fun _ => ⟨rfl, rfl⟩)
  | dup fd => exact hquiet (quiet_dupfd (hbooks rfl) hm.pins hsmall (by decide))
  | dup2 oldfd newfd =>
      refine hquiet (quiet_sysDup2 (hbooks rfl) hm.pins hsmall (by decide) ?_)
      exact fun fd hne hfd hval _ => ⟨rfl, rfl, hne, fd, hval, hfd⟩
  | fcntlDupfd fd arg =>
      exact hquiet (quiet_fcntlDupfd (hbooks rfl) hm.pins hsmall (by decide))
  | fcntlSetfd fd arg =>
      unfold Call.perform Files.fcntlSetfd at hquiet ⊢
      exact hquiet (quiet_markFd hm.pins hsmall)
  | fioclex fd => exact hquiet (quiet_markFd hm.pins hsmall)
  | fionclex fd => exact hquiet (quiet_markFd hm.pins hsmall)
  | pipe u filedes =>
      exact (outcome_sysPipe_managed hm (decide_eq_true hstate) hc).bind fun _ _ hm' =>
        Outcome.pure hm'
  | fork virtual memory =>
      exact hquiet (quiet_doFork (hbooks rfl) hm.pins hsmall (by decide))
  | exec => exact hc.ofPipes.elim
  | exit => exact hquiet (quiet_doExit hm.pins hsmall (by decide) fun _ => rfl)
  | endExit =>
      refine hquiet (outcome_modify_bind (Outcome.pure (Quiet.of_task hm.pins hsmall ?_)))
      rintro p _ f hf
      rw [descriptors_setTask fun fd => by simp [descriptors, hstate, Call.by]]
      exact hf

theorem NoPipes.managed (h : NoPipes s) : Managed s where
  sound := h.sound
  pins := by
    refine ⟨h.held, ?_, ?_⟩
    · intro i b hb
      rw [h.noBase] at hb
      cases hb
    · intro i j b hb
      rw [h.noBase] at hb
      cases hb
  recycled := by
    refine ⟨fun b => ?_, ?_⟩
    · simp [h.noUse, LivePipe, h.noBase]
    · intro i j b hi
      have hb := hi.2
      rw [h.noBase] at hb
      cases hb

theorem HarmlessStep.managed (h : HarmlessStep sb s s') (hm : Managed s) : Managed s' := by
  obtain ⟨rounds, t, c, r, hstate, hc, hrun⟩ := h
  exact (outcome_harmless hm hstate hc).of_ok hrun

theorem Recycled.allOpen (h : Recycled s) (hall : ∀ b, s.pipeInUse b = true) : AllOpen s := by
  choose pipes hpipes using fun b => (h.inUse b).mp (hall b)
  refine ⟨pipes, ?_, hpipes⟩
  intro b b' hbb'
  have hb := (hpipes b).2
  rw [hbb', (hpipes b').2] at hb
  exact (Option.some.inj hb).symm

/-- **Recycling of pipe buffers.**  In every run of harmless calls by live tasks,
from a state without pipes, exactly the buffers of live pipes are in use, no two
live pipes share a buffer, and a `do_pipe` that finds its two files fails with
`ENFILE` only while there are as many live pipes as buffers. -/
theorem pipes_recycled
    (hs : NoPipes s) (hrun : Relation.ReflTransGen (HarmlessStep sb) s s') :
    Recycled s' ∧ ∀ rounds t s'', TwoFiles s' →
      doPipe sb rounds t s' = .ok (.error enfile, s'') → AllOpen s' := by
  have hm : Managed s' := by
    induction hrun with
    | refl => exact hs.managed
    | tail _ hstep ih => exact hstep.managed ih
  refine ⟨hm.recycled, ?_⟩
  intro rounds t s'' htwo hfail
  obtain ⟨_, _, _, _, hall⟩ := (outcome_doPipe_pins hm.pins).of_ok hfail
  exact hm.recycled.allOpen (hall rfl htwo)

end Run

theorem freshKernel_noPipes (live : TaskRef → Bool) : NoPipes (freshKernel live) where
  sound := (freshKernel_noFiles live).sound
  held := by
    intro i
    have hnone : tally (inodeOf (freshKernel live)) (some i) = 0 := by
      rw [tally_eq_zero_of_finite]
      intro f
      simp [inodeOf, freshKernel, File.zero]
    rw [hnone]
    exact Nat.zero_le _
  noBase := fun _ => rfl
  noUse := fun _ => rfl

/-- A task with a full segment. -/
def someUser : User where
  kernelDs := 0
  ds := 1
  endseg := 65535
  mem := fun _ => 0

/-- The first pipe is made, and it has the first buffer. -/
theorem pipes_recycled_first :
    ∃ s', (Call.pipe someUser 0).perform noSuper 1 1 (freshKernel fun t => t ≤ 1) =
        .ok (0, s') ∧
      s'.pipeInUse 0 = true ∧ Recycled s' := by
  have huse : ((Call.pipe someUser 0).perform noSuper 1 1 (freshKernel fun t => t ≤ 1)).map
      (fun r => (r.1, r.2.pipeInUse 0)) = .ok (0, true) := by
    decide +kernel
  cases hrun : (Call.pipe someUser 0).perform noSuper 1 1 (freshKernel fun t => t ≤ 1) with
  | error e =>
      rw [hrun] at huse
      cases huse
  | ok r =>
      obtain ⟨r, s'⟩ := r
      rw [hrun] at huse
      obtain ⟨rfl, huse'⟩ := Prod.mk.inj (Except.ok.inj huse)
      have hharmless : (Call.pipe someUser 0).Harmless (freshKernel fun t => t ≤ 1) 1 := by
        refine ⟨trivial, ?_, fun _ => Or.inl ⟨0, 1, by decide, rfl, rfl⟩⟩
        rintro i b ⟨hcount, _⟩
        cases hcount
      have hstep : HarmlessStep noSuper (freshKernel fun t => t ≤ 1) s' :=
        ⟨1, 1, .pipe someUser 0, 0, rfl, hharmless, hrun⟩
      exact ⟨s', rfl, huse',
        (pipes_recycled (freshKernel_noPipes _) (.single hstep)).1⟩

/-- A pipe is made and both its descriptors are closed, as often as there are
buffers. -/
def pipeCalls : List (TaskRef × Call) :=
  (List.replicate maxPipes [(1, .pipe someUser 0), (1, .close 0), (1, .close 1)]).flatten

theorem performAll_pipeSteps {sb : Fin nrSuper → SuperBlock} {rounds : Nat} {s s' : Kernel}
    {l : List (TaskRef × Call)}
    (hl : ∀ x ∈ l, x.2.OfPipes) (h : performAll sb rounds l s = .ok ((), s')) :
    Relation.ReflTransGen (PipeStep sb) s s' := by
  induction l generalizing s with
  | nil =>
      obtain ⟨_, rfl⟩ := Prod.mk.inj (Except.ok.inj h)
      exact .refl
  | cons x l ih =>
      obtain ⟨t, c⟩ := x
      rw [performAll, run_bind_ok run_get] at h
      split at h
      · rename_i hstate
        cases hrun : c.perform sb rounds t s with
        | error e =>
            rw [run_bind_error hrun] at h
            cases h
        | ok r =>
            obtain ⟨r, s₁⟩ := r
            rw [run_bind_ok hrun] at h
            have hstep : PipeStep sb s s₁ :=
              ⟨rounds, t, c, r, hstate, hl (t, c) List.mem_cons_self, hrun⟩
            exact .head hstep (ih (fun x hx => hl x (List.mem_cons_of_mem _ hx)) h)
      · cases h

/-- All buffers are in use, there is no pipe, and `sys_pipe` fails. -/
def exhausted (s : Kernel) : Bool :=
  ((List.finRange nrInode).all fun i => (s.inodes.inodeBlock i).iCount = 0) &&
    ((List.finRange maxPipes).all fun b => s.pipeInUse b) &&
    (sysPipe noSuper 1 1 someUser 0 s).map (·.1.1) = .ok enfile

/-- After as many pipes as there are buffers have been made and closed, every
buffer is in use while there is no pipe, and `sys_pipe` fails. -/
theorem pipes_exhausted :
    ∃ s s', NoPipes s ∧ Relation.ReflTransGen (PipeStep noSuper) s s' ∧
      (∀ i b, ¬LivePipe s' i b) ∧ (∀ b, s'.pipeInUse b = true) ∧ ¬Recycled s' ∧
      (sysPipe noSuper 1 1 someUser 0 s').map (·.1.1) = .ok enfile := by
  have hend : (performAll noSuper 1 pipeCalls (freshKernel fun t => t ≤ 1)).map
      (fun r => exhausted r.2) = .ok true := by
    decide +kernel
  cases hrun : performAll noSuper 1 pipeCalls (freshKernel fun t => t ≤ 1) with
  | error e =>
      rw [hrun] at hend
      cases hend
  | ok r =>
      obtain ⟨⟨⟩, s'⟩ := r
      rw [hrun] at hend
      have hall := Except.ok.inj hend
      unfold exhausted at hall
      simp only [Bool.and_eq_true, List.all_eq_true, List.mem_finRange, true_implies,
        decide_eq_true_eq] at hall
      obtain ⟨⟨hcount, huse⟩, hfail⟩ := hall
      have hdead : ∀ i b, ¬LivePipe s' i b := by
        rintro i b ⟨hpos, _⟩
        rw [hcount i] at hpos
        cases hpos
      refine ⟨_, s', freshKernel_noPipes _, performAll_pipeSteps ?_ hrun, hdead, huse,
        ?_, hfail⟩
      · intro x hx
        simp only [pipeCalls, List.mem_flatten, List.mem_replicate] at hx
        obtain ⟨l, ⟨_, rfl⟩, hx⟩ := hx
        simp only [List.mem_cons, List.not_mem_nil, or_false] at hx
        rcases hx with rfl | rfl | rfl
        · trivial
        · trivial
        · trivial
      · intro hrec
        obtain ⟨i, hi⟩ := (hrec.inUse 0).mp (huse 0)
        exact hdead i 0 hi

end Files
end Elks
