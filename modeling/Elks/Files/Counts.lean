import Elks.Files.Table
import Elks.Lib.Refs

/-!
# The counts of open files

**What is counted.**  `refs s f` is the number of descriptors of live tasks that
point to the file `f`.  A call that works on a file holds a reference to it that
is not a descriptor yet, or not any more: `Books t h out s` says that the count
of each file is that of its descriptors and the references `h` in hand.

**Release.**  `history` reads the log as a file that is handed out and then
released, in turns; it is `none` when a file is released twice or handed out
twice.  `out` in `Books` are the files whose count and history do not agree at
the moment.

**Results.**
* `Call.sound`: what one call keeps.
* `files_sound`: in every run of the calls by live tasks the count of each file
  is the number of its descriptors, and each file that has been handed out is
  released once, in the call in which its count becomes zero.
-/

namespace Elks
namespace Files

open Lib Vfs
open Function (update update_eq_self update_idem update_of_ne update_self)

/-- What every descriptor of a live task points to. -/
def descriptors (s : Kernel) : TaskRef × Fd → Option Filp :=
  fun p => if (s.task p.1).live then (s.task p.1).fd p.2 else none

/-- The number of descriptors of live tasks that point to `f`. -/
noncomputable def refs (s : Kernel) (f : Filp) : Nat :=
  tally (descriptors s) (some f)

/-- The file that an event is about. -/
def Event.file : Event → Filp
  | .opened f => f
  | .released f => f

/-- Whether `f` is handed out and not released, after one more event; `none` when
the event is out of turn. -/
def stand (f : Filp) (o : Option Bool) (e : Event) : Option Bool :=
  if e.file = f then
    match e, o with
    | .opened _, some false => some true
    | .released _, some true => some false
    | _, _ => none
  else
    o

/-- Whether `f` is handed out and not released. -/
def history (log : List Event) (f : Filp) : Option Bool :=
  log.foldl (stand f) (some false)

/-- The counts and the history of the open files are right. -/
structure Sound (s : Kernel) : Prop where
  counted : ∀ f, (s.fileArray f).fCount = refs s f
  unused : ∀ f, (s.fileArray f).fCount = 0 →
    ∀ t fd, (s.task t).live = true → (s.task t).fd fd ≠ some f
  released : ∀ f, history s.log f =
    some (decide (0 < (s.fileArray f).fCount) && (s.fileArray f).releases)

/-- The counts while task `t` holds the references `h`; the files of `out` count
as not handed out. -/
structure Books (t : TaskRef) (h : Filp → ℕ) (out : Finset Filp) (s : Kernel) :
    Prop where
  live : (s.task t).live = true
  counted : ∀ f, (s.fileArray f).fCount = refs s f + h f
  standing : ∀ f, history s.log f =
    some (decide (0 < (s.fileArray f).fCount ∧ f ∉ out) &&
      (s.fileArray f).releases)

/-- Nothing that matters to descriptors and counts is different. -/
structure SameFiles (s s' : Kernel) : Prop where
  count : ∀ f, (s'.fileArray f).fCount = (s.fileArray f).fCount
  releases : ∀ f, (s'.fileArray f).releases = (s.fileArray f).releases
  live : ∀ t, (s'.task t).live = (s.task t).live
  fd : ∀ t, (s'.task t).fd = (s.task t).fd
  log : s'.log = s.log

/-- A property of descriptors and counts alone. -/
def Stable (P : Kernel → Prop) : Prop :=
  ∀ s s', SameFiles s s' → P s → P s'

/-- No descriptor of a live task points to `f`. -/
def Private (f : Filp) (s : Kernel) : Prop :=
  refs s f = 0

/-- Routines may fail. -/
abbrev Any : Fault → Prop :=
  fun _ => True

section Refs

variable {s s' : Kernel} {t : TaskRef} {fd : Fd} {f g : Filp}

theorem refs_eq_zero :
    refs s f = 0 ↔ ∀ t fd, (s.task t).live = true → (s.task t).fd fd ≠ some f := by
  unfold refs
  rw [tally_eq_zero_of_finite]
  constructor
  · intro h t fd hlive hfd
    refine h (t, fd) ?_
    unfold descriptors
    rw [if_pos hlive, hfd]
  · rintro h ⟨t, fd⟩
    unfold descriptors
    split
    · exact h t fd ‹_›
    · simp

theorem refs_le (s : Kernel) (f : Filp) : refs s f ≤ 300 := by
  have h := tally_le_card (descriptors s) (some f)
  have hcard : Nat.card (TaskRef × Fd) = 300 := by
    simp [Nat.card_eq_fintype_card, maxTasks, nrOpen]
  rw [hcard] at h
  exact h

theorem refs_congr (h : descriptors s' = descriptors s) : refs s' f = refs s f := by
  unfold refs
  rw [h]

theorem SameFiles.descriptors (h : SameFiles s s') : descriptors s' = descriptors s := by
  funext p
  unfold Files.descriptors
  rw [h.live, h.fd]

theorem descriptors_setFd {o : Option Filp} (hlive : (s.task t).live = true)
    (hs' : s'.task = update s.task t
      { s.task t with fd := update (s.task t).fd fd o }) :
    descriptors s' = update (descriptors s) (t, fd) o := by
  funext p
  obtain ⟨t', fd'⟩ := p
  unfold descriptors
  rw [hs']
  dsimp only
  rcases eq_or_ne t' t with rfl | ht
  · rw [update_self]
    dsimp only
    rw [if_pos hlive]
    rcases eq_or_ne fd' fd with rfl | hfd
    · rw [update_self, update_self]
    · rw [update_of_ne hfd, update_of_ne (by simp [hfd])]
      dsimp only
      rw [if_pos hlive]
  · rw [update_of_ne ht, update_of_ne (by simp [ht])]

theorem descriptors_setTask {d : Task}
    (hd : ∀ fd, (if d.live then d.fd fd else none) = descriptors s (t, fd)) :
    descriptors { s with task := update s.task t d } = descriptors s := by
  funext p
  obtain ⟨t', fd'⟩ := p
  rcases eq_or_ne t' t with rfl | ht
  · rw [← hd fd']
    unfold descriptors
    simp only [update_self]
  · unfold descriptors
    simp only [update_of_ne ht]

theorem Sound.of_same (hs : Sound s) (hd : descriptors s' = descriptors s)
    (hfile : s'.fileArray = s.fileArray) (hlog : s'.log = s.log) : Sound s' where
  counted := by
    intro f
    rw [hfile, refs_congr hd]
    exact hs.counted f
  unused := by
    intro f hzero
    refine refs_eq_zero.mp ?_
    rw [refs_congr hd, ← hs.counted f, ← hfile]
    exact hzero
  released := by
    intro f
    rw [hlog, hfile]
    exact hs.released f

theorem refs_install (hd : descriptors s' = update (descriptors s) (t, fd) (some f))
    (hfree : descriptors s (t, fd) = none) : refs s' g = refs s g + one f g := by
  unfold refs
  rw [hd]
  rcases eq_or_ne g f with rfl | hg
  · rw [one_self]
    exact tally_gain (Set.toFinite _) (by rw [hfree]; simp)
  · rw [one_ne hg, add_zero]
    exact tally_update_other (by rw [hfree]; simp) (by simpa using hg)

theorem refs_remove (hd : descriptors s' = update (descriptors s) (t, fd) none)
    (hf : descriptors s (t, fd) = some f) : refs s g = refs s' g + one f g := by
  unfold refs
  rw [hd]
  rcases eq_or_ne g f with rfl | hg
  · rw [one_self, ← hf]
    exact (tally_loss (Set.toFinite _) (by rw [hf]; simp)).symm
  · rw [one_ne hg, add_zero]
    exact (tally_update_other (by rw [hf]; simpa using hg) (by simp)).symm

end Refs

section History

variable {f g : Filp} {log : List Event} {e : Event}

theorem history_append (log : List Event) (e : Event) (f : Filp) :
    history (log ++ [e]) f = stand f (history log f) e := by
  unfold history
  rw [List.foldl_append]
  rfl

theorem history_other (h : e.file ≠ f) : history (log ++ [e]) f = history log f := by
  rw [history_append]
  exact if_neg h

theorem history_opened (h : history log f = some false) :
    history (log ++ [.opened f]) f = some true := by
  rw [history_append, h]
  simp [stand, Event.file]

theorem history_released (h : history log f = some true) :
    history (log ++ [.released f]) f = some false := by
  rw [history_append, h]
  simp [stand, Event.file]

end History

section Stable

variable {t : TaskRef} {f : Filp} {h : Filp → ℕ} {out : Finset Filp}
  {P Q : Kernel → Prop}

theorem stable_books : Stable (Books t h out) := by
  intro s s' hsame hb
  constructor
  · rw [hsame.live]
    exact hb.live
  · intro f
    rw [hsame.count, refs_congr hsame.descriptors]
    exact hb.counted f
  · intro f
    rw [hsame.count, hsame.releases, hsame.log]
    exact hb.standing f

theorem stable_private : Stable (Private f) := by
  intro s s' hsame hf
  unfold Private
  rw [refs_congr hsame.descriptors]
  exact hf

theorem Stable.and (hP : Stable P) (hQ : Stable Q) : Stable fun s => P s ∧ Q s :=
  fun s s' hsame h => ⟨hP s s' hsame h.1, hQ s s' hsame h.2⟩

end Stable

section Quiet

variable {P : Kernel → Prop} {i : InodeRef} {mode : Nat}

theorem keeps_of_same {f : Kernel → Kernel} (hP : Stable P) (hf : ∀ s, SameFiles s (f s)) :
    Keeps Any P (modify f) :=
  Keeps.modify fun s hs => hP s (f s) (hf s) hs

theorem keeps_onInodes {α : Type} {m : Routine Vfs.Table α} (hP : Stable P) :
    Keeps Any P (onInodes m) := by
  intro s hs
  unfold Outcome onInodes
  cases m s.inodes with
  | ok r => exact hP s _ ⟨fun _ => rfl, fun _ => rfl, fun _ => rfl, fun _ => rfl, rfl⟩ hs
  | error e => trivial

theorem keeps_modPipe {g : PipeInodeInfo → PipeInodeInfo} (hP : Stable P) :
    Keeps Any P (modPipe i g) :=
  keeps_of_same hP fun _ =>
    ⟨fun _ => rfl, fun _ => rfl, fun _ => rfl, fun _ => rfl, rfl⟩

theorem keeps_markBits {t : TaskRef} {g : FdSet → FdSet} (hP : Stable P) :
    Keeps Any P (modTask t fun d => { d with closeOnExec := g d.closeOnExec }) := by
  refine keeps_of_same hP fun s => ⟨fun _ => rfl, fun _ => rfl, ?_, ?_, rfl⟩
  all_goals
    intro t'
    rcases eq_or_ne t' t with rfl | ht
    · simp
    · simp [ht]

theorem keeps_clearBit {t : TaskRef} {fd : Fd} (hP : Stable P) : Keeps Any P (clearBit t fd) :=
  keeps_markBits hP

theorem keeps_modFile {f : Filp} {g : File → File} (hP : Stable P)
    (hcount : ∀ d, (g d).fCount = d.fCount) (hreleases : ∀ d, (g d).releases = d.releases) :
    Keeps Any P (modFile f g) := by
  refine keeps_of_same hP fun s => ⟨?_, ?_, fun _ => rfl, fun _ => rfl, rfl⟩
  all_goals
    intro f'
    rcases eq_or_ne f' f with rfl | hf
    · simp [hcount, hreleases]
    · simp [hf]

theorem keeps_pipeRelease {op : FileOperations} (hP : Stable P) :
    Keeps Any P (pipeRelease op i mode) := by
  unfold pipeRelease
  cases op with
  | readPipe => exact keeps_modPipe hP
  | writePipe => exact keeps_modPipe hP
  | rdwrPipe =>
      exact Keeps.bind (Keeps.when (keeps_modPipe hP)) fun _ =>
        Keeps.when (keeps_modPipe hP)
  | other o r => exact Keeps.pure

theorem keeps_getPipeMem (hP : Stable P) : Keeps Any P getPipeMem := by
  unfold getPipeMem
  refine Keeps.bind Keeps.get fun s => ?_
  split
  · exact Keeps.pure
  · refine Keeps.bind (keeps_of_same hP fun _ => ?_) fun _ => Keeps.pure
    exact ⟨fun _ => rfl, fun _ => rfl, fun _ => rfl, fun _ => rfl, rfl⟩

theorem keeps_emptyInode (hP : Stable P) :
    Keeps Any P emptyInode :=
  Keeps.bind (keeps_onInodes hP) fun _ =>
    Keeps.bind (keeps_modPipe hP) fun _ => Keeps.pure

theorem keeps_getPipeInode {sb : Fin nrSuper → SuperBlock} {rounds : Nat} (hP : Stable P) :
    Keeps Any P (getPipeInode sb rounds) := by
  unfold getPipeInode
  refine Keeps.bind (keeps_emptyInode hP) fun i => ?_
  refine Keeps.bind (keeps_getPipeMem hP) fun o => ?_
  cases o with
  | none => exact Keeps.bind (keeps_onInodes hP) fun _ => Keeps.pure
  | some base =>
      exact Keeps.bind (keeps_onInodes hP) fun _ =>
        Keeps.bind (keeps_modPipe hP) fun _ => Keeps.pure

theorem keeps_openFile {found : Found} (hP : Stable P) : Keeps Any P (openFile i mode found) := by
  unfold openFile
  split
  · exact Keeps.pure
  · exact Keeps.bind (keeps_modPipe hP) fun _ => Keeps.pure
  · exact Keeps.bind (keeps_modPipe hP) fun _ => Keeps.pure
  · exact Keeps.bind (Keeps.when (keeps_modPipe hP)) fun _ =>
      Keeps.bind (Keeps.when (keeps_modPipe hP)) fun _ => Keeps.pure
  · exact Keeps.pure

end Quiet

section Books

variable {s s' : Kernel} {t : TaskRef} {fd : Fd} {f g : Filp} {h : Filp → ℕ}
  {out : Finset Filp}

/-- The count of a file is changed. -/
def Kernel.setCount (s : Kernel) (f : Filp) (n : Nat) : Kernel :=
  { s with
    fileArray :=
      update s.fileArray f { s.fileArray f with fCount := n } }

/-- A descriptor is changed. -/
def Kernel.setFd (s : Kernel) (t : TaskRef) (fd : Fd) (o : Option Filp) : Kernel :=
  { s with
    task := update s.task t
      { s.task t with fd := update (s.task t).fd fd o } }

@[simp] theorem setCount_self (s : Kernel) (f : Filp) (n : Nat) :
    ((s.setCount f n).fileArray f).fCount = n := by
  simp [Kernel.setCount]

@[simp] theorem setCount_ne (s : Kernel) (n : Nat) (hg : g ≠ f) :
    (s.setCount f n).fileArray g = s.fileArray g := by
  simp [Kernel.setCount, hg]

@[simp] theorem setCount_releases (s : Kernel) (f g : Filp) (n : Nat) :
    ((s.setCount f n).fileArray g).releases = (s.fileArray g).releases := by
  rcases eq_or_ne g f with rfl | hg
  · simp [Kernel.setCount, File.releases]
  · simp [hg]

@[simp] theorem setFd_live (s : Kernel) (t t' : TaskRef) (fd : Fd) (o : Option Filp) :
    ((s.setFd t fd o).task t').live = (s.task t').live := by
  rcases eq_or_ne t' t with rfl | ht
  · simp [Kernel.setFd]
  · simp [Kernel.setFd, ht]

@[simp] theorem setFd_fd (s : Kernel) (t : TaskRef) (fd : Fd) (o : Option Filp) :
    ((s.setFd t fd o).task t).fd = update (s.task t).fd fd o := by
  simp [Kernel.setFd]

theorem descriptors_at (hlive : (s.task t).live = true) :
    descriptors s (t, fd) = (s.task t).fd fd := by
  unfold descriptors
  rw [if_pos hlive]

theorem Books.setCount {k : Filp → ℕ} {n : Nat} (hb : Books t h out s)
    (hn : n = refs s f + k f) (hk : ∀ g, g ≠ f → k g = h g)
    (hpos : 0 < n ↔ 0 < (s.fileArray f).fCount) :
    Books t k out (s.setCount f n) where
  live := hb.live
  counted := by
    intro g
    have hrefs : refs (s.setCount f n) g = refs s g := refs_congr rfl
    rw [hrefs]
    rcases eq_or_ne g f with rfl | hg
    · rw [setCount_self, hn]
    · rw [setCount_ne s n hg, hk g hg]
      exact hb.counted g
  standing := by
    intro g
    have hlog : (s.setCount f n).log = s.log := rfl
    rw [hlog, setCount_releases, hb.standing g]
    rcases eq_or_ne g f with rfl | hg
    · rw [setCount_self]
      simp only [hpos]
    · rw [setCount_ne s n hg]

theorem Books.install (hb : Books t (h + one f) out s) (hfree : (s.task t).fd fd = none) :
    Books t h out (s.setFd t fd (some f)) where
  live := by
    rw [setFd_live]
    exact hb.live
  counted := by
    intro g
    have hfree' : descriptors s (t, fd) = none := by
      rw [descriptors_at hb.live]
      exact hfree
    rw [refs_install (descriptors_setFd hb.live rfl) hfree', add_right_comm,
      add_assoc]
    exact hb.counted g
  standing := hb.standing

theorem Books.remove (hb : Books t h out s) (hfd : (s.task t).fd fd = some f) :
    Books t (h + one f) out (s.setFd t fd none) where
  live := by
    rw [setFd_live]
    exact hb.live
  counted := by
    intro g
    have hfd' : descriptors s (t, fd) = some f := by
      rw [descriptors_at hb.live]
      exact hfd
    have hd : descriptors (s.setFd t fd none) =
        update (descriptors s) (t, fd) none :=
      descriptors_setFd hb.live rfl
    have hrefs := refs_remove (g := g) hd hfd'
    rw [Pi.add_apply, ← add_assoc, add_right_comm, ← hrefs]
    exact hb.counted g
  standing := hb.standing

theorem Books.pos_of_fd (hb : Books t h out s) (hfd : (s.task t).fd fd = some f) :
    0 < refs s f := by
  refine tally_pos_of_finite (k := (t, fd)) ?_
  rw [descriptors_at hb.live]
  exact hfd

theorem Books.addCount (hb : Books t h out s) (hpos : 0 < refs s f) (hh : h f = 0) :
    Books t (h + one f) out
      (s.setCount f (wrap 16 ((s.fileArray f).fCount + 1))) := by
  have hc := hb.counted f
  have hle := refs_le s f
  rw [wrap_of_lt (by omega)]
  refine hb.setCount ?_ ?_ ?_
  · rw [Pi.add_apply, one_self]
    omega
  · intro g hg
    rw [Pi.add_apply, one_ne hg, add_zero]
  · omega

theorem Books.dropCount (hb : Books t (h + one f) out s) (hmany : 1 < (s.fileArray f).fCount)
    (hh : h f = 0) : Books t h out (s.setCount f (wrapSub 16 (s.fileArray f).fCount 1)) := by
  have hc := hb.counted f
  have hle := refs_le s f
  rw [Pi.add_apply, one_self] at hc
  rw [wrapSub_of_le (by omega) (by omega)]
  refine hb.setCount ?_ ?_ ?_
  · omega
  · intro g hg
    rw [Pi.add_apply, one_ne hg, add_zero]
  · omega

theorem Books.dropLast (hb : Books t (h + one f) out s) (hprivate : Private f s) (hh : h f = 0)
    (hclosed : history s.log f = some false) :
    Books t h (out.erase f)
      (s.setCount f (wrapSub 16 (s.fileArray f).fCount 1)) where
  live := hb.live
  counted := by
    intro g
    have hrefs : ∀ n, refs (s.setCount f n) g = refs s g := fun _ => refs_congr rfl
    have hc := hb.counted g
    rw [hrefs]
    rcases eq_or_ne g f with rfl | hg
    · rw [Pi.add_apply, one_self] at hc
      unfold Private at hprivate
      rw [setCount_self, hc, hprivate, hh]
      decide
    · rw [Pi.add_apply, one_ne hg, add_zero] at hc
      rw [setCount_ne s _ hg]
      exact hc
  standing := by
    intro g
    have hlog : ∀ n, (s.setCount f n).log = s.log := fun _ => rfl
    rw [hlog, setCount_releases]
    rcases eq_or_ne g f with rfl | hg
    · have hc := hb.counted g
      unfold Private at hprivate
      rw [Pi.add_apply, one_self, hprivate, hh] at hc
      rw [setCount_self, hc, hclosed]
      simp [wrapSub, wrap]
    · rw [setCount_ne s _ hg, hb.standing g]
      simp [hg]

end Books

/-- The descriptors of all tasks are the same. -/
structure SameFds (s s' : Kernel) : Prop where
  live : ∀ t, (s'.task t).live = (s.task t).live
  fd : ∀ t, (s'.task t).fd = (s.task t).fd

section Routines

variable {s s' s'' : Kernel} {t : TaskRef} {fd : Fd} {f : Filp} {h : Filp → ℕ}
  {out : Finset Filp}

theorem SameFds.refl (s : Kernel) : SameFds s s :=
  ⟨fun _ => rfl, fun _ => rfl⟩

theorem SameFds.trans (h : SameFds s s') (h' : SameFds s' s'') : SameFds s s'' :=
  ⟨fun t => (h'.live t).trans (h.live t), fun t => (h'.fd t).trans (h.fd t)⟩

theorem SameFds.private (h : SameFds s s') (hf : Private f s) : Private f s' := by
  have hd : descriptors s' = descriptors s := by
    funext p
    unfold descriptors
    rw [h.live, h.fd]
  unfold Private
  rw [refs_congr hd]
  exact hf

theorem stable_sameFds (s : Kernel) : Stable (SameFds s) :=
  fun _ _ hsame h => h.trans ⟨hsame.live, hsame.fd⟩

theorem Books.closed_of_releases (hb : Books t h out s) (hf : (s.fileArray f).releases = false) :
    history s.log f = some false := by
  rw [hb.standing f, hf, Bool.and_false]

theorem Books.closed_of_out (hb : Books t h out s) (hf : f ∈ out) :
    history s.log f = some false := by
  rw [hb.standing f]
  simp [hf]

theorem Books.reout {out' : Finset Filp}
    (hb : Books t h out s) (hf : (s.fileArray f).releases = false)
    (hout : ∀ g, g ≠ f → (g ∈ out' ↔ g ∈ out)) :
    Books t h out' s where
  live := hb.live
  counted := hb.counted
  standing := by
    intro g
    rcases eq_or_ne g f with rfl | hg
    · rw [hb.closed_of_releases hf, hf, Bool.and_false]
    · rw [hb.standing g]
      simp [hout g hg]

theorem outcome_getEmptyFilp (hb : Books t h out s) :
    Outcome Any getEmptyFilp s fun o s' =>
      (o = none → s = s') ∧
      ∀ f, o = some f → Books t (h + one f) out s' ∧ h f = 0 ∧ Private f s' ∧
        (s'.fileArray f).releases = false ∧ SameFds s s' ∧ s'.log = s.log ∧
        ∀ g, g ≠ f → s'.fileArray g = s.fileArray g := by
  unfold getEmptyFilp
  refine outcome_get_bind ?_
  cases hfind : (List.finRange nrFile).find? fun f => (s.fileArray f).fCount = 0 with
  | none =>
      refine Outcome.pure ⟨fun _ => rfl, ?_⟩
      intro f hf
      cases hf
  | some f =>
      have hzero : (s.fileArray f).fCount = 0 := by
        simpa using List.find?_some hfind
      have hc := hb.counted f
      refine outcome_modify_bind (Outcome.pure ⟨?_, ?_⟩)
      · intro hnone
        cases hnone
      intro f' hf'
      obtain rfl := Option.some.inj hf'
      have hreleases : File.releases { File.zero with fCount := 1 } = false := rfl
      refine ⟨⟨hb.live, ?_, ?_⟩, by omega, ?_, ?_, ⟨fun _ => rfl, fun _ => rfl⟩,
        rfl, ?_⟩
      · intro g
        have hrefs : ∀ a, refs { s with fileArray := a } g = refs s g :=
          fun _ => refs_congr rfl
        dsimp only
        rw [hrefs]
        rcases eq_or_ne g f with rfl | hg
        · rw [update_self, Pi.add_apply, one_self]
          dsimp only
          omega
        · rw [update_of_ne hg, Pi.add_apply, one_ne hg]
          exact hb.counted g
      · intro g
        dsimp only
        rw [hb.standing g]
        rcases eq_or_ne g f with rfl | hg
        · simp only [update_self]
          rw [hreleases, Bool.and_false]
          simp [hzero]
        · simp only [update_of_ne hg]
      · have hrefs : ∀ a, refs { s with fileArray := a } f = refs s f :=
          fun _ => refs_congr rfl
        unfold Private
        rw [hrefs]
        omega
      · dsimp only
        rw [update_self]
        exact hreleases
      · intro g hg
        exact update_of_ne hg _ _

theorem outcome_getUnusedFd {P : Kernel → Prop} (hP : Stable P) (hs : P s) :
    Outcome Any (getUnusedFd t) s fun o s' =>
      P s' ∧ SameFds s s' ∧ ∀ fd, o = some fd → (s'.task t).fd fd = none := by
  unfold getUnusedFd
  refine outcome_get_bind ?_
  cases hfind : (List.finRange nrOpen).find? fun fd => (s.task t).fd fd = none with
  | none =>
      refine Outcome.pure ⟨hs, SameFds.refl s, ?_⟩
      intro fd hfd
      cases hfd
  | some fd =>
      have hfree : (s.task t).fd fd = none := by
        simpa using List.find?_some hfind
      have hkept : Keeps Any (fun s' => P s' ∧ SameFds s s') (clearBit t fd) :=
        keeps_clearBit (hP.and (stable_sameFds s))
      have hkeep := hkept s ⟨hs, SameFds.refl s⟩
      refine hkeep.bind ?_
      rintro _ s' ⟨hs', hsame⟩
      refine Outcome.pure ⟨hs', hsame, ?_⟩
      intro fd' hfd'
      obtain rfl := Option.some.inj hfd'
      rw [hsame.fd t]
      exact hfree

theorem outcome_release (hb : Books t h ∅ s) (hpos : 0 < (s.fileArray f).fCount) :
    Outcome Any (release f) s fun _ s' =>
      Books t h {f} s' ∧ SameFds s s' ∧
        (s'.fileArray f).fCount = (s.fileArray f).fCount := by
  have hnone : (s.fileArray f).releases = false → Books t h {f} s := by
    intro hr
    exact hb.reout hr fun g hg => by simp [hg]
  unfold release
  refine outcome_get_bind (Outcome.forSome ?_ ?_)
  · intro op hop
    refine Outcome.when ?_ ?_
    · intro hreleases
      have hstable : Stable fun s' => Books t h ∅ s' ∧ SameFds s s' ∧
          (s'.fileArray f).fCount = (s.fileArray f).fCount ∧
          (s'.fileArray f).releases = true := by
        refine stable_books.and ((stable_sameFds s).and ?_)
        intro s₁ s₂ hsame hs₁
        rw [hsame.count, hsame.releases]
        exact hs₁
      have hr : (s.fileArray f).releases = true := by
        rw [File.releases, hop]
        exact hreleases
      have hkeep : Keeps Any _ (forSome (s.fileArray f).fInode fun i =>
          pipeRelease op i (s.fileArray f).fMode) :=
        Keeps.forSome fun i => keeps_pipeRelease hstable
      refine (hkeep s ⟨hb, SameFds.refl s, rfl, hr⟩).bind ?_
      rintro _ s₁ ⟨hb₁, hsame₁, hcount₁, hr₁⟩
      refine Outcome.modify ⟨⟨hb₁.live, hb₁.counted, ?_⟩, ⟨hsame₁.live, hsame₁.fd⟩,
        hcount₁⟩
      intro g
      dsimp only
      rcases eq_or_ne g f with rfl | hg
      · have hopen : history s₁.log g = some true := by
          rw [hb₁.standing g, hcount₁, hr₁]
          simp [hpos]
        rw [history_released hopen]
        simp
      · rw [history_other (by simpa [Event.file] using hg.symm), hb₁.standing g]
        simp [hg]
    · intro hreleases
      refine ⟨hnone ?_, SameFds.refl s, rfl⟩
      rw [File.releases, hop]
      simpa using hreleases
  · intro hop
    refine ⟨hnone ?_, SameFds.refl s, rfl⟩
    rw [File.releases, hop]
    rfl

variable {sb : Fin nrSuper → SuperBlock} {rounds : Nat}

theorem outcome_closeFp (hb : Books t (one f) ∅ s) :
    Outcome Any (closeFp sb rounds f) s fun _ s' => Books t 0 ∅ s' ∧ SameFds s s' := by
  have hb' : Books t (0 + one f) ∅ s := by
    rw [zero_add]
    exact hb
  have hc := hb.counted f
  rw [one_self] at hc
  unfold closeFp
  refine outcome_get_bind (Outcome.ite ?_ fun _ => Outcome.ite ?_ ?_)
  · intro hzero
    omega
  · intro hmany
    exact Outcome.modify ⟨hb'.dropCount hmany rfl, fun _ => rfl, fun _ => rfl⟩
  · intro hmany
    have hlast : Private f s := by
      unfold Private
      omega
    refine (outcome_release hb (by omega)).bind ?_
    rintro _ s₁ ⟨hb₁, hsame₁, hcount₁⟩
    have hb₁' : Books t (0 + one f) {f} s₁ := by
      rw [zero_add]
      exact hb₁
    have hclosed := hb₁.closed_of_out (Finset.mem_singleton_self f)
    have hb₂ := hb₁'.dropLast (hsame₁.private hlast) rfl hclosed
    rw [Finset.erase_singleton] at hb₂
    have hstable : Stable fun s' => Books t 0 ∅ s' ∧ SameFds s s' :=
      stable_books.and (stable_sameFds s)
    refine Outcome.bind (R := fun _ s' => Books t 0 ∅ s' ∧ SameFds s s')
      (Outcome.modify ⟨hb₂, hsame₁.live, hsame₁.fd⟩) ?_
    rintro _ s₂ hs₂
    have hfile : Keeps Any _ (modFile f fun d => { d with fInode := none }) :=
      keeps_modFile hstable (fun _ => rfl) fun _ => rfl
    have hkeep : Keeps Any _ (do
        modFile f fun d => { d with fInode := none }
        forSome (s.fileArray f).fInode fun i => onInodes (iput sb rounds i)) :=
      hfile.bind fun _ => Keeps.forSome fun i => keeps_onInodes hstable
    exact hkeep s₂ hs₂

end Routines

theorem Sound.books {s : Kernel} {t : TaskRef} (hs : Sound s) (hlive : (s.task t).live = true) :
    Books t 0 ∅ s where
  live := hlive
  counted := hs.counted
  standing := by
    intro f
    rw [hs.released f]
    simp

theorem Books.sound {s : Kernel} {t : TaskRef} (hb : Books t 0 ∅ s) :
    Sound s where
  counted := hb.counted
  unused := by
    intro f hzero
    have hc := hb.counted f
    rw [hzero] at hc
    exact refs_eq_zero.mp hc.symm
  released := by
    intro f
    rw [hb.standing f]
    simp

section Close

variable {s : Kernel} {t : TaskRef} {sb : Fin nrSuper → SuperBlock} {rounds : Nat} {l : List Fd}

theorem outcome_sysClose {fd : Nat} (hb : Books t 0 ∅ s) :
    Outcome Any (sysClose sb rounds t fd) s fun _ s' => Books t 0 ∅ s' := by
  unfold sysClose
  split
  · refine (keeps_clearBit stable_books s hb).bind ?_
    rintro _ s₁ hb₁
    refine outcome_get_bind ?_
    cases hfd : (s₁.task t).fd ⟨fd, ‹_›⟩ with
    | none => exact Outcome.pure hb₁
    | some f =>
        have hb₂ := hb₁.remove hfd
        rw [zero_add] at hb₂
        refine outcome_modify_bind ((outcome_closeFp hb₂).bind ?_)
        rintro _ s₃ ⟨hb₃, _⟩
        exact Outcome.pure hb₃
  · exact Outcome.pure hb

theorem outcome_closeFrom (hb : Books t 0 ∅ s) :
    Outcome Any (closeFrom sb rounds t l) s fun _ s' => Books t 0 ∅ s' ∧
      ∀ fd, fd ∈ l ∨ (s.task t).fd fd = none → (s'.task t).fd fd = none := by
  induction l generalizing s with
  | nil =>
      refine Outcome.pure ⟨hb, ?_⟩
      intro fd h
      exact h.resolve_left List.not_mem_nil
  | cons fd l ih =>
      unfold closeFrom
      refine outcome_get_bind ?_
      refine Outcome.bind (R := fun _ s₁ => Books t 0 ∅ s₁ ∧
        (s₁.task t).fd fd = none ∧
        ∀ fd', (s.task t).fd fd' = none → (s₁.task t).fd fd' = none)
        (Outcome.forSome ?_ ?_) ?_
      · intro f hfd
        have hb₁ := hb.remove hfd
        rw [zero_add] at hb₁
        refine outcome_modify_bind ((outcome_closeFp hb₁).mono ?_)
        rintro _ s₂ ⟨hb₂, hsame⟩
        have hfds : (s₂.task t).fd = update (s.task t).fd fd none :=
          (hsame.fd t).trans (setFd_fd s t fd none)
        refine ⟨hb₂, ?_, ?_⟩
        · rw [hfds, update_self]
        · intro fd' hnone
          rw [hfds]
          rcases eq_or_ne fd' fd with rfl | hne
          · exact update_self _ _ _
          · rw [update_of_ne hne]
            exact hnone
      · intro hnone
        exact ⟨hb, hnone, fun _ h => h⟩
      · rintro _ s₁ ⟨hb₁, hfd, hrest⟩
        refine (ih hb₁).mono ?_
        rintro _ s₂ ⟨hb₂, hall⟩
        refine ⟨hb₂, ?_⟩
        rintro fd' (hmem | hnone)
        · rcases List.mem_cons.mp hmem with rfl | hmem
          · exact hall fd' (Or.inr hfd)
          · exact hall fd' (Or.inl hmem)
        · exact hall fd' (Or.inr (hrest fd' hnone))

theorem outcome_doExit (hb : Books t 0 ∅ s) :
    Outcome Any (doExit sb rounds t) s fun _ s' => Sound s' := by
  unfold doExit closeAllfiles
  refine (outcome_closeFrom hb).bind ?_
  rintro _ s₁ ⟨hb₁, hall⟩
  refine outcome_modify_bind (Outcome.pure ?_)
  have hfds : ∀ fd, (s₁.task t).fd fd = none := fun fd =>
    hall fd (Or.inl (List.mem_finRange fd))
  refine hb₁.sound.of_same (descriptors_setTask fun fd => ?_) rfl rfl
  rw [descriptors_at hb₁.live, hfds fd]
  simp

theorem outcome_closeMarked (hb : Books t 0 ∅ s) :
    Outcome Any (closeMarked sb rounds t l) s fun _ s' => Books t 0 ∅ s' := by
  induction l generalizing s with
  | nil => exact Outcome.pure hb
  | cons fd l ih =>
      unfold closeMarked
      refine outcome_get_bind ?_
      refine Outcome.bind (R := fun _ s₁ => Books t 0 ∅ s₁) (Outcome.when ?_ ?_) ?_
      · intro _
        exact (outcome_sysClose hb).bind fun _ _ hb₁ => Outcome.pure hb₁
      · exact fun _ => hb
      · exact fun _ s₁ hb₁ => ih hb₁

end Close

section Dup

variable {s : Kernel} {t : TaskRef} {sb : Fin nrSuper → SuperBlock} {rounds : Nat}
  {fd arg : Nat}

theorem outcome_fileAt (t : TaskRef) (fd : Nat) (s : Kernel) :
    Outcome Any (fileAt t fd) s fun o s' => s = s' ∧
      ∀ fd' f, o = some (fd', f) → fd'.val = fd ∧ (s.task t).fd fd' = some f := by
  unfold fileAt
  refine outcome_get_bind ?_
  split
  · refine Outcome.pure ⟨rfl, ?_⟩
    intro fd' f h
    obtain ⟨g, hg, heq⟩ := Option.map_eq_some_iff.mp h
    obtain ⟨rfl, rfl⟩ := Prod.mk.inj heq
    exact ⟨rfl, hg⟩
  · refine Outcome.pure ⟨rfl, ?_⟩
    intro fd' f h
    cases h

theorem outcome_dupfd (hb : Books t 0 ∅ s) :
    Outcome Any (dupfd t fd arg) s fun _ s' => Books t 0 ∅ s' := by
  unfold dupfd
  refine (outcome_fileAt t fd s).bind ?_
  rintro o _ ⟨rfl, hfile⟩
  cases o with
  | none => exact Outcome.pure hb
  | some x =>
      obtain ⟨fd', f⟩ := x
      obtain ⟨_, hfd⟩ := hfile fd' f rfl
      refine Outcome.ite (fun _ => Outcome.pure hb) fun _ => ?_
      refine outcome_get_bind ?_
      cases hfind : (List.finRange nrOpen).find? fun n =>
          arg ≤ n.val ∧ (s.task t).fd n = none with
      | none => exact Outcome.pure hb
      | some n =>
          have hfree : (s.task t).fd n = none := by
            have h := List.find?_some hfind
            simp only [decide_eq_true_eq] at h
            exact h.2
          have hstable : Stable fun s' => Books t 0 ∅ s' ∧ SameFds s s' :=
            stable_books.and (stable_sameFds s)
          refine (keeps_clearBit hstable s ⟨hb, SameFds.refl s⟩).bind ?_
          rintro _ s₁ ⟨hb₁, hsame⟩
          have hfd₁ : (s₁.task t).fd fd' = some f := by
            rw [hsame.fd t]
            exact hfd
          have hfree₁ : (s₁.task t).fd n = none := by
            rw [hsame.fd t]
            exact hfree
          -- taking the reference and storing it commute
          have hb₂ := hb₁.addCount (hb₁.pos_of_fd hfd₁) rfl
          have hb₃ := hb₂.install hfree₁
          exact outcome_modify_bind (outcome_modify_bind (Outcome.pure hb₃))

theorem outcome_sysDup2 {oldfd newfd : Nat} (hb : Books t 0 ∅ s) :
    Outcome Any (sysDup2 sb rounds t oldfd newfd) s fun _ s' => Books t 0 ∅ s' := by
  unfold sysDup2
  refine (outcome_fileAt t oldfd s).bind ?_
  rintro o _ ⟨rfl, _⟩
  cases o with
  | none => exact Outcome.pure hb
  | some x =>
      refine Outcome.ite (fun _ => Outcome.pure hb) fun _ => ?_
      refine Outcome.ite (fun _ => ?_) fun _ => Outcome.pure hb
      exact (outcome_sysClose hb).bind fun _ _ hb₁ => outcome_dupfd hb₁

theorem outcome_markFd {g : FdSet → FdSet} (hb : Books t 0 ∅ s) :
    Outcome Any (markFd t fd g) s fun _ s' => Books t 0 ∅ s' := by
  unfold markFd
  refine (outcome_fileAt t fd s).bind ?_
  rintro o _ ⟨rfl, _⟩
  cases o with
  | none => exact Outcome.pure hb
  | some x => exact (keeps_markBits stable_books s hb).bind fun _ _ hb' => Outcome.pure hb'

theorem outcome_fcntlDupfd (hb : Books t 0 ∅ s) :
    Outcome Any (fcntlDupfd t fd arg) s fun _ s' => Books t 0 ∅ s' := by
  unfold fcntlDupfd
  refine (outcome_fileAt t fd s).bind ?_
  rintro o _ ⟨rfl, _⟩
  cases o with
  | none => exact Outcome.pure hb
  | some x => exact outcome_dupfd hb

end Dup

section Open

variable {s : Kernel} {t : TaskRef} {f : Filp} {h : Filp → ℕ} {out : Finset Filp} {d : File}

/-- A file that is still in the hands of `t` alone and does not stand open. -/
structure Fresh (t : TaskRef) (h : Filp → ℕ) (out : Finset Filp) (f : Filp)
    (s : Kernel) : Prop where
  books : Books t (h + one f) out s
  hand : h f = 0
  alone : Private f s
  closed : history s.log f = some false

theorem stable_fresh : Stable (Fresh t h out f) := by
  intro s s' hsame hf
  refine ⟨stable_books s s' hsame hf.books, hf.hand,
    stable_private s s' hsame hf.alone, ?_⟩
  rw [hsame.log]
  exact hf.closed

theorem Books.setFile (hb : Books t h out s) (hclosed : history s.log f = some false)
    (hcount : d.fCount = (s.fileArray f).fCount) :
    Books t h (insert f out)
      { s with fileArray := update s.fileArray f d } := by
  refine ⟨hb.live, ?_, ?_⟩
  · intro g
    have hrefs : ∀ a, refs { s with fileArray := a } g = refs s g :=
      fun _ => refs_congr rfl
    have hc := hb.counted g
    rw [hrefs]
    dsimp only
    rcases eq_or_ne g f with rfl | hg
    · rw [update_self, hcount]
      exact hc
    · rw [update_of_ne hg]
      exact hc
  · intro g
    dsimp only
    rcases eq_or_ne g f with rfl | hg
    · rw [hclosed]
      simp
    · simp only [update_of_ne hg]
      rw [hb.standing g]
      simp [hg]

theorem Books.opened (hb : Books t h out s) (hf : f ∈ out)
    (hpos : 0 < (s.fileArray f).fCount) (hreleases : (s.fileArray f).releases = true) :
    Books t h (out.erase f) { s with log := s.log ++ [.opened f] } := by
  refine ⟨hb.live, hb.counted, ?_⟩
  intro g
  dsimp only
  rcases eq_or_ne g f with rfl | hg
  · rw [history_opened (hb.closed_of_out hf), hreleases]
    simp [hpos]
  · rw [history_other (by simpa [Event.file] using hg.symm), hb.standing g]
    simp [hg]

theorem Fresh.setFile (hf : Fresh t h out f s) (hcount : d.fCount = (s.fileArray f).fCount) :
    Fresh t h (insert f out) f
      { s with fileArray := update s.fileArray f d } :=
  ⟨hf.books.setFile hf.closed hcount, hf.hand, hf.alone, hf.closed⟩

theorem Fresh.outcome_drop (hf : Fresh t h out f s) :
    Outcome Any (dropCount f) s fun _ s' => Books t h (out.erase f) s' ∧
      SameFds s s' ∧ s'.log = s.log ∧
      ∀ g, g ≠ f → s'.fileArray g = s.fileArray g :=
  Outcome.modify ⟨hf.books.dropLast hf.alone hf.hand hf.closed,
    ⟨fun _ => rfl, fun _ => rfl⟩, rfl, fun _ hg => update_of_ne hg _ _⟩

theorem Fresh.pos (hf : Fresh t h out f s) : 0 < (s.fileArray f).fCount := by
  rw [hf.books.counted f, Pi.add_apply, one_self]
  omega

theorem Fresh.outcome_note {b : Bool}
    (hf : Fresh t h {f} f s) (hreleases : (s.fileArray f).releases = b) :
    Outcome Any (when b (note (.opened f))) s fun _ s' =>
      Books t (h + one f) ∅ s' ∧ Private f s' := by
  refine Outcome.when ?_ ?_
  · intro hb
    have hopened := hf.books.opened (Finset.mem_singleton_self f) hf.pos
      (hreleases.trans hb)
    rw [Finset.erase_singleton] at hopened
    exact Outcome.modify ⟨hopened, hf.alone⟩
  · intro hb
    have hfalse : (s.fileArray f).releases = false := by
      rw [hreleases]
      simpa using hb
    exact ⟨hf.books.reout hfalse fun g hg => by simp [hg], hf.alone⟩

variable {sb : Fin nrSuper → SuperBlock} {rounds flags : Nat} {i : InodeRef}
  {found : Found}

theorem outcome_openInode (hf : Fresh t 0 ∅ f s) :
    Outcome Any (openInode sb rounds t f i found) s fun _ s' => Books t 0 ∅ s' := by
  unfold openInode
  have hf₁ := hf.setFile
    (d := { s.fileArray f with fInode := some i, fOp := found.fileOps }) rfl
  refine outcome_modify_bind (outcome_get_bind ?_)
  have hstable : Stable fun s' => Fresh t 0 {f} f s' ∧
      (s'.fileArray f).releases = found.fileOps.any FileOperations.releases := by
    refine stable_fresh.and ?_
    intro s₁ s₂ hsame h
    rw [hsame.releases]
    exact h
  refine (keeps_openFile hstable _ ⟨hf₁, ?_⟩).bind ?_
  · dsimp only
    rw [update_self]
    rfl
  rintro error s₂ ⟨hf₂, hreleases₂⟩
  have hnew : Stable fun s' => Fresh t 0 {f} f s' := stable_fresh
  refine Outcome.ite ?_ ?_
  · intro _
    refine (keeps_onInodes hnew s₂ hf₂).bind ?_
    intro _ s₃ hf₃
    refine hf₃.outcome_drop.bind ?_
    rintro _ s₄ ⟨hb₄, _⟩
    rw [Finset.erase_singleton] at hb₄
    exact Outcome.pure hb₄
  · intro _
    refine (hf₂.outcome_note hreleases₂).bind ?_
    rintro _ s₃ hs₃
    have hopen : Stable fun s' => Books t (0 + one f) ∅ s' ∧ Private f s' :=
      stable_books.and stable_private
    have hflags : Keeps Any _ (modFile f fun d =>
        { d with fFlags := d.fFlags - (d.fFlags &&& openOnly) }) :=
      keeps_modFile hopen (fun _ => rfl) fun _ => rfl
    refine (hflags s₃ hs₃).bind ?_
    rintro _ s₄ hs₄
    refine (outcome_getUnusedFd hopen hs₄).bind ?_
    rintro o s₅ ⟨⟨hb₅, halone₅⟩, _, hfree⟩
    cases o with
    | some fd =>
        exact outcome_modify_bind (Outcome.pure (hb₅.install (hfree fd rfl)))
    | none =>
        have hpos : 0 < (s₅.fileArray f).fCount := by
          rw [hb₅.counted f, Pi.add_apply, one_self]
          omega
        refine (outcome_release hb₅ hpos).bind ?_
        rintro _ s₆ ⟨hb₆, hsame₆, _⟩
        have hf₆ : Fresh t 0 {f} f s₆ :=
          ⟨hb₆, rfl, hsame₆.private halone₅,
            hb₆.closed_of_out (Finset.mem_singleton_self f)⟩
        refine (keeps_onInodes hnew s₆ hf₆).bind ?_
        intro _ s₇ hf₇
        refine hf₇.outcome_drop.bind ?_
        rintro _ s₈ ⟨hb₈, _⟩
        rw [Finset.erase_singleton] at hb₈
        exact Outcome.pure hb₈

theorem outcome_freshFilp (hb : Books t h out s) :
    Outcome Any getEmptyFilp s fun o s' =>
      (o = none → s = s') ∧
      ∀ f, o = some f → Fresh t h out f s' ∧ SameFds s s' ∧ s'.log = s.log ∧
        ∀ g, g ≠ f → s'.fileArray g = s.fileArray g := by
  refine (outcome_getEmptyFilp hb).mono ?_
  rintro o s' ⟨hnone, hsome⟩
  refine ⟨hnone, ?_⟩
  intro f hf
  obtain ⟨hb', hand, halone, hreleases, hsame, hlog, hrest⟩ := hsome f hf
  exact ⟨⟨hb', hand, halone, hb'.closed_of_releases hreleases⟩, hsame, hlog, hrest⟩

theorem outcome_sysOpen (hb : Books t 0 ∅ s) :
    Outcome Any (sysOpen sb rounds t flags found) s fun _ s' => Books t 0 ∅ s' := by
  unfold sysOpen
  refine (outcome_freshFilp hb).bind ?_
  rintro o s₁ ⟨hnone, hsome⟩
  cases o with
  | none =>
      obtain rfl := hnone rfl
      exact Outcome.pure hb
  | some f =>
      obtain ⟨hf₁, _⟩ := hsome f rfl
      have hstable : Stable fun s' => Fresh t 0 ∅ f s' := stable_fresh
      have hflags : Keeps Any _ (modFile f fun d =>
          { d with fFlags := wrap 16 flags, fMode := (flags + 1) &&& 3 }) :=
        keeps_modFile hstable (fun _ => rfl) fun _ => rfl
      refine (hflags s₁ hf₁).bind ?_
      intro _ s₂ hf₂
      refine (keeps_onInodes hstable s₂ hf₂).bind ?_
      intro r s₃ hf₃
      cases r with
      | error error =>
          refine hf₃.outcome_drop.bind ?_
          rintro _ s₄ ⟨hb₄, _⟩
          rw [Finset.erase_empty] at hb₄
          exact Outcome.pure hb₄
      | ok i => exact outcome_openInode hf₃

end Open

section Pipe

variable {s : Kernel} {t : TaskRef} {f₁ f₂ : Filp} {sb : Fin nrSuper → SuperBlock}
  {rounds : Nat} {inode : InodeRef} {i : Fd}

/-- Two files in the hands of `t`. -/
structure FreshPair (t : TaskRef) (f₁ f₂ : Filp) (s : Kernel) : Prop where
  fst : Fresh t (one f₂) ∅ f₁ s
  snd : Fresh t (one f₁) ∅ f₂ s

theorem stable_freshPair : Stable (FreshPair t f₁ f₂) :=
  fun s s' hsame h =>
    ⟨stable_fresh s s' hsame h.fst, stable_fresh s s' hsame h.snd⟩

theorem Fresh.pair {s' : Kernel} (hf : Fresh t 0 ∅ f₁ s) (hf' : Fresh t (0 + one f₁) ∅ f₂ s')
    (hsame : SameFds s s') (hlog : s'.log = s.log) : FreshPair t f₁ f₂ s' := by
  rw [zero_add] at hf'
  have hne : f₂ ≠ f₁ := by
    rintro rfl
    have hhand := hf'.hand
    rw [one_self] at hhand
    cases hhand
  refine ⟨⟨?_, one_ne hne.symm, hsame.private hf.alone, ?_⟩, hf'⟩
  · rw [add_comm]
    exact hf'.books
  · rw [hlog]
    exact hf.closed

theorem FreshPair.ne (h : FreshPair t f₁ f₂ s) : f₁ ≠ f₂ := by
  rintro rfl
  have hhand := h.fst.hand
  rw [one_self] at hhand
  cases hhand

theorem Fresh.count {h : Filp → ℕ} {out : Finset Filp} {f : Filp} (hf : Fresh t h out f s) :
    (s.fileArray f).fCount = 1 := by
  have halone := hf.alone
  unfold Private at halone
  rw [hf.books.counted f, Pi.add_apply, one_self, halone, hf.hand]

theorem FreshPair.outcome_drop {r : Except Int (Fd × Fd)} (h : FreshPair t f₁ f₂ s) :
    Outcome Any (do
      dropCount f₂
      dropCount f₁
      pure r) s fun _ s' => Books t 0 ∅ s' := by
  refine h.snd.outcome_drop.bind ?_
  rintro _ s₁ ⟨hb₁, hsame, hlog, _⟩
  have hf₁ : Fresh t 0 ∅ f₁ s₁ := by
    refine ⟨?_, rfl, hsame.private h.fst.alone, ?_⟩
    · rw [zero_add]
      exact hb₁
    · rw [hlog]
      exact h.fst.closed
  refine hf₁.outcome_drop.bind ?_
  rintro _ s₂ ⟨hb₂, _⟩
  exact Outcome.pure hb₂

/-- Two files of which the first has its descriptor. -/
structure HalfPair (t : TaskRef) (f₁ f₂ : Filp) (i : Fd) (s : Kernel) : Prop where
  books : Books t (one f₂) ∅ s
  ne : f₁ ≠ f₂
  closed : history s.log f₁ = some false
  closed' : history s.log f₂ = some false
  count : (s.fileArray f₁).fCount = 1
  count' : (s.fileArray f₂).fCount = 1
  fd : (s.task t).fd i = some f₁

theorem stable_halfPair : Stable (HalfPair t f₁ f₂ i) := by
  intro s s' hsame h
  refine ⟨stable_books s s' hsame h.books, h.ne, ?_, ?_, ?_, ?_, ?_⟩
  · rw [hsame.log]
    exact h.closed
  · rw [hsame.log]
    exact h.closed'
  · rw [hsame.count]
    exact h.count
  · rw [hsame.count]
    exact h.count'
  · rw [hsame.fd]
    exact h.fd

theorem FreshPair.half (h : FreshPair t f₁ f₂ s) (hfree : (s.task t).fd i = none) :
    HalfPair t f₁ f₂ i (s.setFd t i (some f₁)) where
  books := h.fst.books.install hfree
  ne := h.ne
  closed := h.fst.closed
  closed' := h.snd.closed
  count := h.fst.count
  count' := h.snd.count
  fd := by
    rw [setFd_fd, update_self]

theorem HalfPair.back (h : HalfPair t f₁ f₂ i s) : FreshPair t f₁ f₂ (s.setFd t i none) := by
  have hb := h.books.remove h.fd
  have hc₁ := hb.counted f₁
  have hc₂ := hb.counted f₂
  have hcount : ∀ f, ((s.setFd t i none).fileArray f).fCount =
      (s.fileArray f).fCount := fun _ => rfl
  rw [hcount, h.count, Pi.add_apply, one_self, one_ne h.ne] at hc₁
  rw [hcount, h.count', Pi.add_apply, one_self, one_ne h.ne.symm] at hc₂
  refine ⟨⟨hb, one_ne h.ne, ?_, h.closed⟩, ⟨?_, one_ne h.ne.symm, ?_, h.closed'⟩⟩
  · unfold Private
    omega
  · rw [add_comm]
    exact hb
  · unfold Private
    omega

theorem FreshPair.outcome_undo (h : FreshPair t f₁ f₂ s) :
    Outcome Any (undoPipe sb rounds f₁ f₂ inode) s fun _ s' => Books t 0 ∅ s' := by
  unfold undoPipe
  refine (keeps_onInodes stable_freshPair s h).bind ?_
  intro _ s₁ h₁
  refine (keeps_onInodes stable_freshPair s₁ h₁).bind ?_
  intro _ s₂ h₂
  exact h₂.outcome_drop

theorem outcome_exportPipe {j : Fd} (hb : Books t (one f₂) ∅ s) (hne : f₁ ≠ f₂)
    (hclosed₁ : history s.log f₁ = some false) (hclosed₂ : history s.log f₂ = some false)
    (hpos : 0 < (s.fileArray f₁).fCount) (hfree : (s.task t).fd j = none) :
    Outcome Any (exportPipe t f₁ f₂ inode i j) s fun _ s' => Books t 0 ∅ s' := by
  have hpos₂ : 0 < (s.fileArray f₂).fCount := by
    rw [hb.counted f₂, one_self]
    omega
  have hb₁ := hb.setFile
    (d := { s.fileArray f₁ with
      fInode := some inode, fFlags := 0, fOp := some .readPipe, fMode := 1 })
    hclosed₁ rfl
  have hb₂ := hb₁.setFile
    (d := { update s.fileArray f₁ { s.fileArray f₁ with
        fInode := some inode, fFlags := 0, fOp := some .readPipe, fMode := 1 } f₂ with
      fInode := some inode, fFlags := 1, fOp := some .writePipe, fMode := 2 })
    hclosed₂ rfl
  have hb₃ := hb₂.opened (f := f₁) (by simp)
    (by
      dsimp only
      rw [update_of_ne hne, update_self]
      exact hpos)
    (by
      dsimp only
      rw [update_of_ne hne, update_self]
      rfl)
  have hb₄ := hb₃.opened (f := f₂) (by simp [hne.symm])
    (by
      dsimp only
      rw [update_self]
      dsimp only
      rw [update_of_ne hne.symm]
      exact hpos₂)
    (by
      dsimp only
      rw [update_self]
      rfl)
  have hout : ((insert f₂ (insert f₁ (∅ : Finset Filp))).erase f₁).erase f₂ = ∅ := by
    ext g
    simp only [Finset.mem_erase, Finset.mem_insert]
    simp
    tauto
  rw [hout, ← zero_add (one f₂)] at hb₄
  unfold exportPipe
  refine outcome_modify_bind (outcome_modify_bind (outcome_modify_bind
    (outcome_modify_bind (outcome_modify_bind (Outcome.pure ?_)))))
  exact hb₄.install hfree

theorem outcome_doPipe (hb : Books t 0 ∅ s) :
    Outcome Any (doPipe sb rounds t) s fun _ s' => Books t 0 ∅ s' := by
  unfold doPipe
  refine (outcome_freshFilp hb).bind ?_
  rintro o s₁ ⟨hnone, hsome⟩
  cases o with
  | none =>
      obtain rfl := hnone rfl
      exact Outcome.pure hb
  | some f₁ =>
      obtain ⟨hf₁, _⟩ := hsome f₁ rfl
      refine (outcome_freshFilp hf₁.books).bind ?_
      rintro o s₂ ⟨hnone₂, hsome₂⟩
      cases o with
      | none =>
          obtain rfl := hnone₂ rfl
          refine hf₁.outcome_drop.bind ?_
          rintro _ s₃ ⟨hb₃, _⟩
          exact Outcome.pure hb₃
      | some f₂ =>
          obtain ⟨hf₂, hsame, hlog, _⟩ := hsome₂ f₂ rfl
          have hpair := hf₁.pair hf₂ hsame hlog
          refine (keeps_getPipeInode stable_freshPair s₂ hpair).bind ?_
          intro o s₃ hpair₃
          cases o with
          | none => exact hpair₃.outcome_drop
          | some inode =>
              refine (outcome_getUnusedFd stable_freshPair hpair₃).bind ?_
              rintro o s₄ ⟨hpair₄, _, hfree₄⟩
              cases o with
              | none => exact hpair₄.outcome_undo
              | some i =>
                  have hhalf := hpair₄.half (hfree₄ i rfl)
                  refine Outcome.bind (R := fun _ s₅ => HalfPair t f₁ f₂ i s₅)
                    (Outcome.modify hhalf) ?_
                  intro _ s₅ hhalf₅
                  refine (outcome_getUnusedFd stable_halfPair hhalf₅).bind ?_
                  rintro o s₆ ⟨hhalf₆, _, hfree₆⟩
                  cases o with
                  | none =>
                      refine Outcome.bind (R := fun _ s₇ => FreshPair t f₁ f₂ s₇)
                        (Outcome.modify hhalf₆.back) ?_
                      exact fun _ s₇ hpair₇ => hpair₇.outcome_undo
                  | some j =>
                      exact outcome_exportPipe hhalf₆.books hhalf₆.ne hhalf₆.closed
                        hhalf₆.closed' (by rw [hhalf₆.count]; exact Nat.one_pos)
                        (hfree₆ j rfl)

end Pipe

section Fork

variable {s s' : Kernel} {t n : TaskRef} {done : Finset Fd} {fd : Fd} {f : Filp}

theorem findEmptyProcess_dead (h : findEmptyProcess t s = some n) : (s.task n).live = false := by
  unfold findEmptyProcess at h
  dsimp only at h
  split at h
  · cases h
  · have hmem := List.mem_of_getLast? h
    simp only [List.mem_filter, List.mem_finRange, decide_eq_true_eq, true_and] at hmem
    rw [Task.live, hmem]
    rfl

/-- The descriptors, with those of `done` of task `t` shared with `n`. -/
def shared (s : Kernel) (t n : TaskRef) (done : Finset Fd) :
    TaskRef × Fd → Option Filp :=
  fun p =>
    if p.1 = n then
      if p.2 ∈ done then (s.task t).fd p.2 else none
    else
      descriptors s p

/-- The loop of `do_fork` has come past the descriptors of `done`. -/
structure Sharing (t n : TaskRef) (done : Finset Fd) (s s' : Kernel) : Prop where
  task : s'.task = update s.task n (s.task t)
  log : s'.log = s.log
  releases : ∀ f, (s'.fileArray f).releases = (s.fileArray f).releases
  counted : ∀ f, (s'.fileArray f).fCount = tally (shared s t n done) (some f)
  positive : ∀ f, 0 < (s'.fileArray f).fCount ↔ 0 < (s.fileArray f).fCount

theorem shared_empty (hdead : (s.task n).live = false) : shared s t n ∅ = descriptors s := by
  funext p
  unfold shared descriptors
  split
  · rename_i hp
    rw [hp, hdead]
    simp
  · rfl

theorem shared_insert (hfd : fd ∉ done) :
    shared s t n (insert fd done) =
      update (shared s t n done) (n, fd) ((s.task t).fd fd) := by
  funext p
  obtain ⟨t', fd'⟩ := p
  unfold shared
  dsimp only
  rcases eq_or_ne t' n with rfl | ht
  · rw [if_pos rfl]
    rcases eq_or_ne fd' fd with rfl | hne
    · rw [update_self, if_pos (Finset.mem_insert_self _ _)]
    · rw [update_of_ne (by simp [hne])]
      simp [hne]
  · rw [if_neg ht, update_of_ne (by simp [ht])]
    dsimp only
    rw [if_neg ht]

theorem shared_new (hfd : fd ∉ done) : shared s t n done (n, fd) = none := by
  simp [shared, hfd]

theorem Sharing.step (hs : Books t 0 ∅ s) (h : Sharing t n done s s') (hfd : fd ∉ done)
    (hnt : t ≠ n) :
    Outcome Any (forSome ((s'.task t).fd fd) addCount) s' fun _ s'' =>
      Sharing t n (insert fd done) s s'' := by
  have htask : (s'.task t).fd fd = (s.task t).fd fd := by
    rw [h.task, update_of_ne hnt]
  rw [htask]
  cases hpar : (s.task t).fd fd with
  | none =>
      refine Outcome.pure ⟨h.task, h.log, h.releases, ?_, h.positive⟩
      intro f
      have hsame : update (shared s t n done) (n, fd) none =
          shared s t n done := by
        rw [← shared_new hfd]
        exact update_eq_self _ _
      rw [shared_insert hfd, hpar, hsame]
      exact h.counted f
  | some f =>
      have hle : tally (shared s t n done) (some f) ≤ 300 := by
        have h := tally_le_card (shared s t n done) (some f)
        have hcard : Nat.card (TaskRef × Fd) = 300 := by
          simp [Nat.card_eq_fintype_card, maxTasks, nrOpen]
        rw [hcard] at h
        exact h
      have hc := h.counted f
      have hpos : 0 < (s.fileArray f).fCount := by
        rw [hs.counted f]
        exact Nat.add_pos_left (hs.pos_of_fd hpar) _
      refine Outcome.modify ⟨h.task, h.log, ?_, ?_, ?_⟩
      · intro g
        have hr := setCount_releases s' f g (wrap 16 ((s'.fileArray f).fCount + 1))
        exact hr.trans (h.releases g)
      · intro g
        rw [shared_insert hfd, hpar]
        rcases eq_or_ne g f with rfl | hg
        · rw [tally_gain (Set.toFinite _) (by rw [shared_new hfd]; simp), ← hc]
          exact (setCount_self s' g _).trans (wrap_of_lt (by omega))
        · rw [tally_update_other (by rw [shared_new hfd]; simp) (by simpa using hg)]
          exact (congrArg File.fCount (setCount_ne s' _ hg)).trans (h.counted g)
      · intro g
        rcases eq_or_ne g f with rfl | hg
        · have hcount : ∀ m, ((s'.setCount g m).fileArray g).fCount = m :=
            setCount_self s' g
          have hw : wrap 16 ((s'.fileArray g).fCount + 1) =
              (s'.fileArray g).fCount + 1 := wrap_of_lt (by omega)
          refine (iff_of_eq (congrArg (0 < ·) (hcount _))).trans ?_
          rw [hw]
          omega
        · refine (iff_of_eq (congrArg (fun d : File => 0 < d.fCount)
            (setCount_ne s' (wrap 16 ((s'.fileArray f).fCount + 1)) hg))).trans ?_
          exact h.positive g

theorem Sharing.loop {l : List Fd} (hs : Books t 0 ∅ s) (h : Sharing t n done s s') (hnt : t ≠ n)
    (hl : l.Nodup) (hdone : ∀ fd ∈ l, fd ∉ done) :
    Outcome Any (shareFiles t l) s' fun _ s'' =>
      ∃ all : Finset Fd, (∀ fd, fd ∈ all ↔ fd ∈ done ∨ fd ∈ l) ∧
        Sharing t n all s s'' := by
  induction l generalizing done s' with
  | nil =>
      refine Outcome.pure ⟨done, ?_, h⟩
      simp
  | cons fd l ih =>
      unfold shareFiles
      refine outcome_get_bind ?_
      refine (h.step hs (hdone fd List.mem_cons_self) hnt).bind ?_
      intro _ s₁ h₁
      obtain ⟨hfd, hl'⟩ := List.nodup_cons.mp hl
      refine (ih h₁ hl' ?_).mono ?_
      · intro fd' hfd'
        simp only [Finset.mem_insert, not_or]
        refine ⟨?_, hdone fd' (List.mem_cons_of_mem _ hfd')⟩
        rintro rfl
        exact hfd hfd'
      · rintro _ s₂ ⟨all, hall, h₂⟩
        refine ⟨all, ?_, h₂⟩
        intro fd'
        rw [hall fd', Finset.mem_insert, List.mem_cons]
        tauto

theorem Sharing.sound (hs : Books t 0 ∅ s) (h : Sharing t n done s s') (hall : ∀ fd, fd ∈ done)
    (hnt : t ≠ n) : Books t 0 ∅ s' := by
  have hd : descriptors s' = shared s t n done := by
    funext p
    unfold descriptors shared
    rw [h.task]
    rcases eq_or_ne p.1 n with hp | hp
    · simp [hp, hall, hs.live]
    · simp [hp, descriptors]
  refine ⟨?_, ?_, ?_⟩
  · rw [h.task, update_of_ne hnt]
    exact hs.live
  · intro f
    unfold refs
    rw [h.counted f, hd]
    rfl
  · intro f
    rw [h.log, h.releases f, hs.standing f]
    simp [h.positive f]

theorem outcome_doFork {virtual dup : Bool} (hb : Books t 0 ∅ s) :
    Outcome Any (doFork t virtual dup) s fun _ s' => Books t 0 ∅ s' := by
  unfold doFork
  refine outcome_get_bind ?_
  cases hn : findEmptyProcess t s with
  | none => exact Outcome.pure hb
  | some n =>
      have hdead := findEmptyProcess_dead hn
      have hnt : t ≠ n := by
        rintro rfl
        rw [hb.live] at hdead
        cases hdead
      refine outcome_get_bind (outcome_modify_bind (Outcome.ite ?_ ?_))
      · intro _
        refine outcome_modify_bind (Outcome.pure ?_)
        have htask : ∀ d : Task, d.live = false →
            descriptors { s with task := update s.task n d } =
              descriptors s := by
          intro d hd
          refine descriptors_setTask fun fd => ?_
          simp [descriptors, hd, hdead]
        refine ⟨?_, ?_, hb.standing⟩
        · simp [hnt, hb.live]
        · intro f
          rw [hb.counted f]
          refine congrArg (· + _) (refs_congr ?_).symm
          dsimp only
          rw [update_idem]
          exact htask _ rfl
      · intro _
        have hstart : Sharing t n ∅ s
            { s with task := update s.task n (s.task t) } := by
          refine ⟨rfl, rfl, fun _ => rfl, ?_, fun _ => Iff.rfl⟩
          intro f
          rw [shared_empty hdead]
          exact hb.counted f
        refine (hstart.loop hb hnt (List.nodup_finRange nrOpen)
          fun fd _ => Finset.notMem_empty fd).bind ?_
        rintro _ s₁ ⟨all, hall, h₁⟩
        refine Outcome.pure (h₁.sound hb ?_ hnt)
        intro fd
        exact (hall fd).mpr (Or.inr (List.mem_finRange fd))

end Fork

/-- A call that works on descriptors. -/
inductive Call
  | open (flags : Nat) (found : Found)
  | close (fd : Nat)
  | dup (fd : Nat)
  | dup2 (oldfd newfd : Nat)
  | fcntlDupfd (fd arg : Nat)
  | fcntlSetfd (fd arg : Nat)
  | fioclex (fd : Nat)
  | fionclex (fd : Nat)
  | pipe (u : User) (filedes : UInt16)
  | fork (virtual memory : Bool)
  | exec
  | exit
  | endExit

/-- How far a task is that goes on with a call. -/
def Call.by : Call → TaskState
  | .endExit => .exiting
  | _ => .running

section Run

variable (sb : Fin nrSuper → SuperBlock) {rounds : Nat}

/-- What task `t` does in a call; the number bounds the rounds of `iput`. -/
def Call.perform (rounds : Nat) (t : TaskRef) : Call → Routine Kernel Int
  | .open flags found => sysOpen sb rounds t flags found
  | .close fd => sysClose sb rounds t fd
  | .dup fd => sysDup t fd
  | .dup2 oldfd newfd => sysDup2 sb rounds t oldfd newfd
  | .fcntlDupfd fd arg => Files.fcntlDupfd t fd arg
  | .fcntlSetfd fd arg => Files.fcntlSetfd t fd arg
  | .fioclex fd => ioctlFioclex t fd
  | .fionclex fd => ioctlFionclex t fd
  | .pipe u filedes => Prod.fst <$> sysPipe sb rounds t u filedes
  | .fork virtual memory => doFork t virtual memory
  | .exec => execClose sb rounds t
  | .exit => doExit sb rounds t
  | .endExit => Files.endExit t

/-- A live task makes a call that comes back, or an exiting one comes to its end. -/
def Step (s s' : Kernel) : Prop :=
  ∃ rounds t c r, (s.task t).state = c.by ∧
    Call.perform sb rounds t c s = .ok (r, s')

/-- Calls one after the other, by tasks that are as far as the call needs. -/
def performAll (rounds : Nat) : List (TaskRef × Call) → Routine Kernel Unit
  | [] => pure ()
  | (t, c) :: rest => do
      let s ← get
      if (s.task t).state = c.by then do
        let _ ← c.perform sb rounds t
        performAll rounds rest
      else
        throw .nullPointer

/-- A state in which no file is open. -/
structure NoFiles (s : Kernel) : Prop where
  files : ∀ f, (s.fileArray f).fCount = 0
  fds : ∀ t fd, (s.task t).fd fd = none
  log : s.log = []

variable {sb} {s s' : Kernel}

theorem outcome_sysPipe {t : TaskRef} {u : User} {filedes : UInt16} (hb : Books t 0 ∅ s) :
    Outcome Any (sysPipe sb rounds t u filedes) s fun _ s' => Books t 0 ∅ s' := by
  refine (outcome_doPipe hb).bind ?_
  intro o s' hb'
  cases o with
  | error error => exact Outcome.pure hb'
  | ok fd => exact Outcome.pure hb'

theorem outcome_perform {t : TaskRef} {c : Call} (hc : c ≠ .endExit) (hb : Books t 0 ∅ s) :
    Outcome Any (Call.perform sb rounds t c) s fun _ s' => Sound s' := by
  have hsound : ∀ (_ : Int) s', Books t 0 ∅ s' → Sound s' :=
    fun _ _ hb' => hb'.sound
  cases c with
  | «open» flags found => exact (outcome_sysOpen hb).mono hsound
  | close fd => exact (outcome_sysClose hb).mono hsound
  | dup fd => exact (outcome_dupfd hb).mono hsound
  | dup2 oldfd newfd => exact (outcome_sysDup2 hb).mono hsound
  | fcntlDupfd fd arg => exact (outcome_fcntlDupfd hb).mono hsound
  | fcntlSetfd fd arg =>
      unfold Call.perform Files.fcntlSetfd
      exact (outcome_markFd hb).mono hsound
  | fioclex fd => exact (outcome_markFd hb).mono hsound
  | fionclex fd => exact (outcome_markFd hb).mono hsound
  | pipe u filedes =>
      exact (outcome_sysPipe hb).bind fun _ _ hb' => Outcome.pure hb'.sound
  | fork virtual memory => exact (outcome_doFork hb).mono hsound
  | exec =>
      exact (outcome_closeMarked hb).bind fun _ s' hb' => Outcome.pure hb'.sound
  | exit => exact outcome_doExit hb
  | endExit => exact absurd rfl hc

theorem endExit_sound {t : TaskRef} (hs : Sound s) (ht : (s.task t).state = .exiting) :
    Outcome Any (endExit t) s fun _ s' => Sound s' := by
  refine outcome_modify_bind (Outcome.pure (hs.of_same (descriptors_setTask fun fd => ?_) rfl rfl))
  simp [descriptors, ht]

theorem Call.by_of_ne {c : Call} (h : c ≠ .endExit) : c.by = .running := by
  cases c with
  | endExit => exact absurd rfl h
  | _ => rfl

theorem outcome_performBy {t : TaskRef} {c : Call} (hs : Sound s)
    (hstate : (s.task t).state = c.by) :
    Outcome Any (Call.perform sb rounds t c) s fun _ s' => Sound s' := by
  by_cases hc : c = .endExit
  · subst hc
    exact endExit_sound hs hstate
  · rw [Call.by_of_ne hc] at hstate
    exact outcome_perform hc (hs.books (decide_eq_true hstate))

theorem Step.sound (h : Step sb s s') (hs : Sound s) : Sound s' := by
  obtain ⟨rounds, t, c, r, hstate, hrun⟩ := h
  exact (outcome_performBy hs hstate).of_ok hrun

theorem NoFiles.sound (h : NoFiles s) : Sound s := by
  have hrefs : ∀ f, refs s f = 0 := by
    intro f
    rw [refs_eq_zero]
    intro t fd _ hfd
    rw [h.fds] at hfd
    cases hfd
  refine ⟨?_, ?_, ?_⟩
  · intro f
    rw [h.files, hrefs]
  · intro f _ t fd _ hfd
    rw [h.fds] at hfd
    cases hfd
  · intro f
    rw [h.log, h.files]
    rfl

end Run

/-- An inode table whose list is in order, with nothing in it. -/
def emptyInodes : Vfs.Table where
  inodeBlock := fun _ => Inode.zero
  iNext := fun i => some (i + 1)
  iPrev := fun i => some (i - 1)
  firstInode := some 0
  nrInodes := nrInode
  nrFreeInodes := nrInode
  ino := 0

/-- The first tasks are running, and no file has ever been open. -/
def freshKernel (live : TaskRef → Bool) : Kernel where
  fileArray := fun _ => File.zero
  task := fun t => ⟨if live t then .running else .unused, 0, fun _ => none, 0⟩
  inodes := emptyInodes
  pipeI := fun _ => PipeInodeInfo.zero
  pipeInUse := fun _ => false
  log := []

theorem freshKernel_noFiles (live : TaskRef → Bool) : NoFiles (freshKernel live) :=
  ⟨fun _ => rfl, fun _ _ => rfl, rfl⟩

/-- No inode belongs to a mounted file system. -/
def noSuper : Fin nrSuper → SuperBlock :=
  fun _ => ⟨0, 0, none⟩

end Files
end Elks
