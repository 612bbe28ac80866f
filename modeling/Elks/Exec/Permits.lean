import Elks.Exec.Execve

/-!
# Who may execute a file (fs/exec.c, fs/namei.c, include/linuxmt/fs.h)

`sys_execve` leaves the check of the file to `open_namei`, with the flag 0, which
`ACC_MODE` turns into no permission at all.  The mount flags that forbid execution and
that take the set-id bits away are not looked at.

**Purpose.**  `Disk.Permits` says which files a task may execute, `Disk.GivesUser` and
`Disk.GivesGroup` when the identity of the file is to be taken.

**Result.**  `execve_permitted_iff`: a call keeps to this exactly when the file that the
path names, if it can be loaded, happens to be one that the task may execute, and its
set-id bits change nothing on a file system without them.
-/

namespace Elks
namespace Exec

open Lib
open Namei (TaskStruct permission mayExec accMode)
open Minix (sIfreg sIfblk sIfchr)

/-- `MS_NOSUID`. -/
def msNosuid : Nat :=
  2

/-- `MS_NOEXEC`. -/
def msNoexec : Nat :=
  8

section Purpose

variable (elks : Bool) (D : Disk) (c : TaskRef) (x : ExecCall) (s : Machine)

/-- `IS_NOSUID`. -/
def Disk.isNosuid (inode : Nat) : Bool :=
  D.iFlags inode &&& msNosuid ≠ 0

/-- `IS_NOEXEC`. -/
def Disk.isNoexec (inode : Nat) : Bool :=
  D.iFlags inode &&& msNoexec ≠ 0

/-- The task may execute the file: it is a regular file, the mode allows it, and so does
the file system. -/
structure Disk.Permits (t : TaskStruct Nat) (inode : Nat) : Prop where
  regular : D.tree.isA sIfreg inode
  perm : permission t (D.tree.inode inode) mayExec = none
  noexec : ¬ D.isNoexec inode

/-- The file gives its owner to those who execute it. -/
def Disk.GivesUser (inode : Nat) : Prop :=
  (D.tree.inode inode).iMode &&& sIsuid ≠ 0 ∧ ¬ D.isNosuid inode

/-- The file gives its group to those who execute it. -/
def Disk.GivesGroup (inode : Nat) : Prop :=
  (D.tree.inode inode).iMode &&& sIsgid ≠ 0 ∧ ¬ D.isNosuid inode

/-- An image is replaced by a file that the task may execute only, and the identity changes
only if the file gives it. -/
def Machine.ExecPermitted : Prop :=
  ∀ s', execve elks D c x s = .ok (none, s') →
    ∃ inode, s.named D x = .ok inode ∧ D.Permits s.process.taskStruct inode ∧
      (s'.process.euid ≠ s.process.euid → D.GivesUser inode) ∧
      (s'.process.egid ≠ s.process.egid → D.GivesGroup inode)

/-- On a file system without set-id bits, those of the file name the identity that the task
has already. -/
structure Disk.Harmless (p : Process) (inode : Nat) : Prop where
  user : D.isNosuid inode → (D.tree.inode inode).iMode &&& sIsuid ≠ 0 →
    (D.tree.inode inode).iUid = p.euid
  group : D.isNosuid inode → (D.tree.inode inode).iMode &&& sIsgid ≠ 0 →
    (D.tree.inode inode).iGid = p.egid

end Purpose

section Results

variable {elks : Bool} {D : Disk} {c : TaskRef} {x : ExecCall} {s : Machine} {inode : Nat}

theorem permission_zero (t : TaskStruct Nat) (node : Namei.Node Nat) :
    permission t node 0 = none := by
  unfold permission
  dsimp only
  rw [if_neg fun h => h.1 (Nat.zero_and _), Nat.and_zero, Nat.zero_and]
  exact if_pos (Or.inl rfl)

theorem openCheck_zero (t : TaskStruct Nat) (T : Namei.FileTree Nat) (inode : Nat) :
    Namei.openCheck t T 0 inode =
      if (T.isA sIfblk inode ∨ T.isA sIfchr inode) ∧ (T.inode inode).isNodev then
        some .eacces
      else
        none := by
  have hflag : accMode 0 = 0 := rfl
  unfold Namei.openCheck
  rw [if_neg fun h => h.2 (Nat.zero_and _), hflag, permission_zero]

theorem taken_changes {mode bit taken own : Nat} :
    (if mode &&& bit ≠ 0 then taken else own) ≠ own ↔ mode &&& bit ≠ 0 ∧ taken ≠ own := by
  by_cases hbit : mode &&& bit ≠ 0
  · rw [if_pos hbit]
    exact (and_iff_right hbit).symm
  · rw [if_neg hbit]
    exact iff_of_false (fun h => h rfl) fun h => hbit h.1

theorem Disk.givesUser_of_harmless {p : Process} (h : D.Harmless p inode)
    (hbit : (D.tree.inode inode).iMode &&& sIsuid ≠ 0)
    (hne : (D.tree.inode inode).iUid ≠ p.euid) : D.GivesUser inode :=
  ⟨hbit, fun hnosuid => hne (h.user hnosuid hbit)⟩

theorem Disk.givesGroup_of_harmless {p : Process} (h : D.Harmless p inode)
    (hbit : (D.tree.inode inode).iMode &&& sIsgid ≠ 0)
    (hne : (D.tree.inode inode).iGid ≠ p.egid) : D.GivesGroup inode :=
  ⟨hbit, fun hnosuid => hne (h.group hnosuid hbit)⟩

/-- No step of `sys_execve` checks the file: it keeps to the permissions exactly when the
file that can be loaded has them anyway. -/
theorem execve_permitted_iff
    (elks : Bool) (D : Disk) (c : TaskRef) (x : ExecCall) (s : Machine)
    (hback : ∀ e, execve elks D c x s = .error e → e = .nullOps) :
    s.ExecPermitted elks D c x ↔
      ∀ inode, s.named D x = .ok inode → s.Loads elks D inode →
        D.Permits s.process.taskStruct inode ∧ D.Harmless s.process inode := by
  have hends := @execve_outcome elks D c x s
  constructor
  · intro h inode hnamed hload
    cases hrun : execve elks D c x s with
    | error e =>
        obtain rfl := hback e hrun
        unfold Outcome at hends
        rw [hrun] at hends
        obtain ⟨inode', hnamed', hops⟩ := hends rfl
        obtain rfl := Except.ok.inj (hnamed.symm.trans hnamed')
        exact absurd hload.ops hops
    | ok r =>
        obtain ⟨retval, s'⟩ := r
        have hend := hends.of_ok hrun
        cases hend with
        | unnamed herror =>
            rw [hnamed] at herror
            cases herror
        | unread hfound hno | refused hfound hno _ _ _ =>
            obtain rfl := Except.ok.inj (hnamed.symm.trans hfound)
            exact absurd hload hno
        | done hfound _ _ hheaders hnew hclose =>
            obtain rfl := Except.ok.inj (hnamed.symm.trans hfound)
            obtain ⟨image, himage, hpermits, huser, hgroup⟩ := h _ hrun
            obtain rfl := Except.ok.inj (hnamed.symm.trans himage)
            refine ⟨hpermits, ⟨fun hnosuid hbit => ?_, fun hnosuid hbit => ?_⟩⟩
            · by_contra hne
              exact (huser (taken_changes.mpr ⟨hbit, hne⟩)).2 hnosuid
            · by_contra hne
              exact (hgroup (taken_changes.mpr ⟨hbit, hne⟩)).2 hnosuid
  · intro h s' hrun
    have hend := hends.of_ok hrun
    cases hend with
    | done hfound hload _ hheaders hnew hclose =>
        obtain ⟨hpermits, hharmless⟩ := h _ hfound hload
        refine ⟨_, hfound, hpermits, fun hne => ?_, fun hne => ?_⟩
        · obtain ⟨hbit, hne⟩ := taken_changes.mp hne
          exact Disk.givesUser_of_harmless hharmless hbit hne
        · obtain ⟨hbit, hne⟩ := taken_changes.mp hne
          exact Disk.givesGroup_of_harmless hharmless hbit hne

/-- A program that all may execute, by a task that is not the super-user. -/
theorem execve_permitted_all :
    (machineOf 1).ExecPermitted true (programDisk 0o100755 0) initTask
        (executes programPath) ∧
      ∃ s', execve true (programDisk 0o100755 0) initTask (executes programPath)
        (machineOf 1) = .ok (none, s') := by
  have hrun : ((execve true (programDisk 0o100755 0) initTask (executes programPath)
      (machineOf 1)).toOption.any fun r => r.1.isNone) = true := by
    decide +kernel
  obtain ⟨⟨retval, s'⟩, hs, hnone⟩ := (Option.any_eq_true _ _).mp hrun
  obtain rfl : retval = none := Option.isNone_iff_eq_none.mp hnone
  refine ⟨(execve_permitted_iff true (programDisk 0o100755 0) initTask (executes programPath)
    (machineOf 1) fun e he => ?_).mpr fun inode hnamed _ => ?_, s', ok_of_toOption hs⟩
  · rw [ok_of_toOption hs] at he
    cases he
  · have hone : (machineOf 1).named (programDisk 0o100755 0) (executes programPath) = .ok 1 := rfl
    obtain rfl := Except.ok.inj (hone.symm.trans hnamed)
    exact ⟨⟨rfl, rfl, by decide⟩, ⟨fun h => (nomatch h), fun h => (nomatch h)⟩⟩

/-- A program that nobody may execute: a task that is not the super-user executes it and
becomes the super-user. -/
theorem execve_takes_root :
    ¬ (machineOf 1).ExecPermitted true (programDisk 0o104000 0) initTask
        (executes programPath) ∧
      ∃ s', execve true (programDisk 0o104000 0) initTask (executes programPath)
        (machineOf 1) = .ok (none, s') ∧ s'.process.euid = 0 := by
  have hrun : ((execve true (programDisk 0o104000 0) initTask (executes programPath)
      (machineOf 1)).toOption.any
        fun r => r.1.isNone && decide (r.2.process.euid = 0)) = true := by
    decide +kernel
  obtain ⟨⟨retval, s'⟩, hs, hends⟩ := (Option.any_eq_true _ _).mp hrun
  obtain ⟨hnone, heuid⟩ := (Bool.and_eq_true _ _).mp hends
  obtain rfl : retval = none := Option.isNone_iff_eq_none.mp hnone
  refine ⟨fun h => ?_, s', ok_of_toOption hs, of_decide_eq_true heuid⟩
  obtain ⟨inode, hnamed, hpermits, _⟩ := h s' (ok_of_toOption hs)
  have hone : (machineOf 1).named (programDisk 0o104000 0) (executes programPath) = .ok 1 := rfl
  obtain rfl := Except.ok.inj (hone.symm.trans hnamed)
  have hdenied : permission (machineOf 1).process.taskStruct
      ((programDisk 0o104000 0).tree.inode 1) mayExec ≠ none := by
    decide
  exact hdenied hpermits.perm

end Results

end Exec
end Elks
