import Elks.Exec.Execve
import Elks.Vfs.PathCalls
import Mathlib.Logic.Relation

/-!
# The identities of the tasks (kernel/sys.c, fs/exec.c, fs/open.c, fs/read_write.c)

`sys_setuid` is "implemented like SysV w/ SAVED_IDS": a task may go back to the identity that
was saved.  `sys_execve` gives it the owner of a file as effective identity, and saves nothing.
Which files do so changes with `sys_chmod`, `sys_chown`, writes and new files.

**Results.**
* `identities_saved`: in every run the saved identity of a task is its real one, so nobody but
  the superuser gets another one from `setuid` and `setgid` than that.
* `family_confined`: what a user starts never becomes the superuser, unless the superuser gives
  a file of his own the set-uid bit.
-/

namespace Elks
namespace Exec

open Lib Mm
open Minix (Errno)

section Code

variable (p : Process) (node : Namei.Node Nat)

/-- The test that `sys_setuid` and `sys_setgid` share, with what they leave of the task of the
superuser and of another one. -/
def setId (real saved id : Nat) (all own : Process) : Except Errno Process :=
  if p.euid = 0 then .ok all
  else if id = real ∨ id = saved then .ok own
  else .error .eperm

/-- `sys_setuid`. -/
def Process.sysSetuid (uid : Nat) : Except Errno Process :=
  setId p p.uid p.suid uid { p with uid := uid, euid := uid, suid := uid } { p with euid := uid }

/-- `sys_setgid`. -/
def Process.sysSetgid (gid : Nat) : Except Errno Process :=
  setId p p.gid p.sgid gid { p with gid := gid, egid := gid, sgid := gid } { p with egid := gid }

/-- `S_IALLUGO`. -/
def sIallugo : Nat :=
  0o7777

/-- `mode & ~bits`. -/
def without (mode bits : Nat) : Nat :=
  mode ^^^ (mode &&& bits)

/-- The mode that `sys_chmod` sets. -/
def chmodMode (mode : Nat) : Nat :=
  let mode := (if mode = 65535 then node.iMode else mode) &&& sIallugo |||
    without node.iMode sIallugo
  if p.euid ≠ 0 ∧ p.egid ≠ node.iGid then without mode sIsgid else mode

/-- What `sys_chmod` makes of the inode that it has found. -/
def chmodNode (mode : Nat) : Except Errno (Namei.Node Nat) :=
  if node.isRdonly then .error .erofs
  else if ¬ p.taskStruct.owns node then .error .eperm
  else .ok { node with iMode := chmodMode p node mode }

/-- `do_chown`. -/
def chownNode (user group : Nat) : Except Errno (Namei.Node Nat) :=
  match Namei.doChown p.taskStruct node with
  | some error => .error error
  | none =>
      let node := if group = 65535 then node
        else { node with iGid := wrap 8 group, iMode := without node.iMode sIsgid }
      .ok (if user = 65535 then node
        else { node with iUid := user, iMode := without node.iMode sIsuid })

/-- What `sys_write` does to the mode before it writes. -/
def writeNode : Namei.Node Nat :=
  if p.euid ≠ 0 ∧ node.iMode &&& (sIsuid ||| sIsgid) ≠ 0 then
    { node with iMode := without node.iMode (sIsuid ||| sIsgid) }
  else node

/-- What a task may do to an inode; a new one is its own. -/
inductive Edit : Namei.Node Nat → Prop
  | chmod (mode : Nat) {node' : Namei.Node Nat} (h : chmodNode p node mode = .ok node') :
      Edit node'
  | chown (user group : Nat) {node' : Namei.Node Nat}
      (h : chownNode p node user group = .ok node') : Edit node'
  | write : Edit (writeNode p node)
  | create {node' : Namei.Node Nat} (h : node'.iUid = p.euid) : Edit node'

/-- The disk after a change of an inode. -/
def Disk.setNode (D : Disk) (i : Nat) (node : Namei.Node Nat) : Disk :=
  { D with tree := { D.tree with inode := Function.update D.tree.inode i node } }

/-- The superuser gives no file of his own the set-uid bit. -/
def Careful (node' : Namei.Node Nat) : Prop :=
  p.euid = 0 → node'.iMode &&& sIsuid ≠ 0 → node'.iUid ≠ 0

/-- The identities of the tasks, the slots of a family and of all that it starts, and the
disk. -/
structure Identities where
  task : TaskRef → Process
  family : Set TaskRef
  disk : Disk

/-- What changes an identity, or the file of one, where a task makes of an inode only what it
`may`. -/
inductive Identities.Step (elks : Bool) (may : Process → Namei.Node Nat → Prop)
    (t : Identities) : Identities → Prop
  | setuid (c : TaskRef) (uid : Nat) {p : Process} (h : (t.task c).sysSetuid uid = .ok p) :
      Step elks may t { t with task := Function.update t.task c p }
  | setgid (c : TaskRef) (gid : Nat) {p : Process} (h : (t.task c).sysSetgid gid = .ok p) :
      Step elks may t { t with task := Function.update t.task c p }
  | execve (c : TaskRef) (x : ExecCall) {s s' : Machine} {r : Option Errno}
      (hprocess : s.process = t.task c) (h : execve elks t.disk c x s = .ok (r, s')) :
      Step elks may t { t with task := Function.update t.task c s'.process }
  | fork (c d : TaskRef) :
      Step elks may t
        { t with
          task := Function.update t.task d (t.task c)
          family := { q | if q = d then c ∈ t.family else q ∈ t.family } }
  | edit (c : TaskRef) (i : Nat) {node : Namei.Node Nat}
      (h : Edit (t.task c) (t.disk.tree.inode i) node) (hmay : may (t.task c) node) :
      Step elks may t { t with disk := t.disk.setNode i node }

end Code

section Results

variable {elks : Bool} {D : Disk} {c : TaskRef} {x : ExecCall} {s s' : Machine}
  {t t' : Identities} {p p' all own : Process} {real saved id m b k : Nat} {r : Option Errno}
  {node node' : Namei.Node Nat} {may : Process → Namei.Node Nat → Prop} {safe : Disk → Prop}
  {good : Process → Prop}

/-- What a file that is executed gives to a task. -/
structure Given (D : Disk) (p p' : Process) : Prop where
  uid : p'.uid = p.uid
  suid : p'.suid = p.suid
  gid : p'.gid = p.gid
  sgid : p'.sgid = p.sgid
  euid : p'.euid = p.euid ∨ ∃ inode, (D.tree.inode inode).iMode &&& sIsuid ≠ 0 ∧
    p'.euid = (D.tree.inode inode).iUid

theorem execve_given (h : execve elks D c x s = .ok (r, s')) : Given D s.process s'.process := by
  cases execve_outcome.of_ok h with
  | unnamed | unread | refused => exact ⟨rfl, rfl, rfl, rfl, Or.inl rfl⟩
  | @done inode =>
      refine ⟨rfl, rfl, rfl, rfl, ?_⟩
      by_cases hbit : (D.tree.inode inode).iMode &&& sIsuid ≠ 0
      · exact Or.inr ⟨inode, hbit, if_pos hbit⟩
      · exact Or.inl (if_neg hbit)

/-- What the calls keep of the identity of the task that makes them, and of the disk. -/
structure Lasting (may : Process → Namei.Node Nat → Prop) (safe : Disk → Prop)
    (good : Process → Prop) : Prop where
  setuid : ∀ {p p' uid}, good p → p.sysSetuid uid = .ok p' → good p'
  setgid : ∀ {p p' gid}, good p → p.sysSetgid gid = .ok p' → good p'
  given : ∀ {D p p'}, safe D → good p → Given D p p' → good p'
  edit : ∀ {D p i node}, safe D → Edit p (D.tree.inode i) node → may p node →
    safe (D.setNode i node)

/-- All is well with a family and the disk. -/
def Identities.Are (safe : Disk → Prop) (good : Process → Prop) (t : Identities) : Prop :=
  safe t.disk ∧ ∀ q ∈ t.family, good (t.task q)

theorem Lasting.step (hl : Lasting may safe good) (hstep : t.Step elks may t')
    (h : t.Are safe good) : t'.Are safe good := by
  obtain ⟨hdisk, h⟩ := h
  have hupdate : ∀ {c p'}, (good (t.task c) → good p') →
      ∀ q ∈ t.family, good (Function.update t.task c p' q) := by
    intro c p' hp q hq
    by_cases hqc : q = c
    · subst hqc
      rw [Function.update_self]
      exact hp (h q hq)
    · rw [Function.update_of_ne hqc]
      exact h q hq
  cases hstep with
  | setuid c uid hset => exact ⟨hdisk, hupdate fun hp => hl.setuid hp hset⟩
  | setgid c gid hset => exact ⟨hdisk, hupdate fun hp => hl.setgid hp hset⟩
  | execve c x hprocess hrun =>
      exact ⟨hdisk, hupdate fun hp => hl.given hdisk (hprocess ▸ hp) (execve_given hrun)⟩
  | fork c d =>
      refine ⟨hdisk, fun q hq => ?_⟩
      by_cases hqd : q = d
      · have hc : c ∈ t.family := by simpa [hqd] using hq
        simpa [hqd] using h c hc
      · have hq : q ∈ t.family := by simpa [hqd] using hq
        simpa [hqd] using h q hq
  | edit c i hedit hmay => exact ⟨hl.edit hdisk hedit hmay, h⟩

theorem Lasting.run (hl : Lasting may safe good)
    (hrun : Relation.ReflTransGen (Identities.Step elks may) t t') (h : t.Are safe good) :
    t'.Are safe good := by
  induction hrun with
  | refl => exact h
  | tail _ hstep ih => exact hl.step hstep ih

theorem setId_isOk_iff : (setId p real saved id all own).isOk ↔
    p.euid = 0 ∨ id = real ∨ id = saved := by
  unfold setId
  split_ifs with hroot hown
  · exact iff_of_true rfl (Or.inl hroot)
  · exact iff_of_true rfl (Or.inr hown)
  · exact iff_of_false Bool.false_ne_true (not_or.mpr ⟨hroot, hown⟩)

theorem setId_cases (h : setId p real saved id all own = .ok p') :
    p.euid = 0 ∧ p' = all ∨ (id = real ∨ id = saved) ∧ p' = own := by
  unfold setId at h
  split_ifs at h with hroot hown
  · exact Or.inl ⟨hroot, (Except.ok.inj h).symm⟩
  · exact Or.inr ⟨hown, (Except.ok.inj h).symm⟩

/-- The saved identity is the real one. -/
def Process.Saved (p : Process) : Prop :=
  p.suid = p.uid ∧ p.sgid = p.gid

theorem saved_lasting : Lasting (fun _ _ => True) (fun _ => True) Process.Saved where
  setuid hp h := by
    rcases setId_cases h with ⟨-, rfl⟩ | ⟨-, rfl⟩
    · exact ⟨rfl, hp.2⟩
    · exact hp
  setgid hp h := by
    rcases setId_cases h with ⟨-, rfl⟩ | ⟨-, rfl⟩
    · exact ⟨hp.1, rfl⟩
    · exact hp
  given _ hp h := ⟨h.suid.trans (hp.1.trans h.uid.symm), h.sgid.trans (hp.2.trans h.gid.symm)⟩
  edit _ _ _ := trivial

/-- **The saved identities save nothing**, in a family that starts with its real ones and
whatever all tasks of the system call. -/
theorem identities_saved
    (hrun : Relation.ReflTransGen (Identities.Step elks fun _ _ => True) t t')
    (h : ∀ q ∈ t.family, (t.task q).Saved) :
    ∀ q ∈ t'.family, (t'.task q).Saved ∧
      (∀ uid, ((t'.task q).sysSetuid uid).isOk ↔
        (t'.task q).euid = 0 ∨ uid = (t'.task q).uid) ∧
      ∀ gid, ((t'.task q).sysSetgid gid).isOk ↔
        (t'.task q).euid = 0 ∨ gid = (t'.task q).gid := by
  intro q hq
  have hsaved := (saved_lasting.run hrun ⟨trivial, h⟩).2 q hq
  refine ⟨hsaved, fun uid => ?_, fun gid => ?_⟩
  · rw [Process.sysSetuid, setId_isOk_iff, hsaved.1, or_self]
  · rw [Process.sysSetgid, setId_isOk_iff, hsaved.2, or_self]

/-- Every slot belongs to the family of a user. -/
def loggedIn (user : Nat) : Identities where
  task _ := taskOf user
  family := Set.univ
  disk := programDisk 0o100755 0

/-- The superuser becomes user 5. -/
theorem identities_saved_five :
    ∃ t', (loggedIn 0).Step true (fun _ _ => True) t' ∧ (t'.task initTask).Saved := by
  have hstep : (loggedIn 0).Step true (fun _ _ => True) _ := .setuid initTask 5 rfl
  exact ⟨_, hstep, (identities_saved (.single hstep) (fun _ _ => ⟨rfl, rfl⟩) initTask trivial).1⟩

/-- The files that give somebody their owner do not belong to the superuser. -/
def Disk.Safe (D : Disk) : Prop :=
  ∀ i, (D.tree.inode i).iMode &&& sIsuid ≠ 0 → (D.tree.inode i).iUid ≠ 0

theorem without_and_self : without m b &&& b = 0 := by
  refine Nat.eq_of_testBit_eq fun i => ?_
  simp [without]

theorem and_of_without (h : without m b &&& k ≠ 0) : m &&& k ≠ 0 := by
  refine fun hzero => h (Nat.eq_of_testBit_eq fun i => ?_)
  have hbit := congrArg (·.testBit i) hzero
  simp only [Nat.testBit_and, Nat.zero_testBit, Bool.and_eq_false_iff] at hbit
  rcases hbit with hbit | hbit
  · simp [without, hbit]
  · simp [without, hbit]

theorem edit_safe (hedit : Edit p node node') (hcareful : Careful p node')
    (h : node.iMode &&& sIsuid ≠ 0 → node.iUid ≠ 0) (hbit : node'.iMode &&& sIsuid ≠ 0) :
    node'.iUid ≠ 0 := by
  by_cases hroot : p.euid = 0
  · exact hcareful hroot hbit
  cases hedit with
  | chmod mode hset =>
      unfold chmodNode at hset
      split_ifs at hset with hrdonly howns
      obtain rfl := Except.ok.inj hset
      obtain heq | hsuper := (Bool.or_eq_true _ _).mp howns
      · exact eq_of_beq heq ▸ hroot
      · exact absurd (of_decide_eq_true hsuper) hroot
  | chown user group hset =>
      unfold chownNode at hset
      cases hown : Namei.doChown p.taskStruct node with
      | some error =>
          rw [hown] at hset
          cases hset
      | none =>
          rw [hown] at hset
          obtain rfl := Except.ok.inj hset
          split_ifs at hbit ⊢
          · exact h hbit
          · exact h (and_of_without hbit)
          · exact absurd without_and_self hbit
          · exact absurd without_and_self hbit
  | write =>
      unfold writeNode at hbit ⊢
      split_ifs at hbit ⊢
      · exact h (and_of_without hbit)
      · exact h hbit
  | create heq =>
      rw [heq]
      exact hroot

/-- A task of a user with the identity of somebody who is not the superuser. -/
def Process.Of (user : Nat) (p : Process) : Prop :=
  p.uid = user ∧ p.suid = user ∧ p.euid ≠ 0

theorem of_lasting {user : Nat} (huser : user ≠ 0) :
    Lasting Careful Disk.Safe (Process.Of user) where
  setuid hp h := by
    rcases setId_cases h with ⟨hroot, -⟩ | ⟨hown, rfl⟩
    · exact absurd hroot hp.2.2
    · exact ⟨hp.1, hp.2.1, (hown.elim (·.trans hp.1) (·.trans hp.2.1)).trans_ne huser⟩
  setgid hp h := by
    rcases setId_cases h with ⟨hroot, -⟩ | ⟨-, rfl⟩
    · exact absurd hroot hp.2.2
    · exact hp
  given hsafe hp h := by
    refine ⟨h.uid.trans hp.1, h.suid.trans hp.2.1, ?_⟩
    rcases h.euid with heq | ⟨inode, hbit, heq⟩
    · exact heq ▸ hp.2.2
    · exact heq ▸ hsafe inode hbit
  edit {D p i node} hsafe hedit hcareful j hbit := by
    by_cases hj : j = i
    · subst hj
      simp only [Disk.setNode, Function.update_self] at hbit ⊢
      exact edit_safe hedit hcareful (hsafe j) hbit
    · simp only [Disk.setNode, Function.update_of_ne hj] at hbit ⊢
      exact hsafe j hbit

/-- **What a user starts never becomes the superuser**, whatever all tasks of the system call,
as long as the superuser gives no file of his own the set-uid bit. -/
theorem family_confined {user : Nat}
    (hrun : Relation.ReflTransGen (Identities.Step elks Careful) t t') (huser : user ≠ 0)
    (hdisk : t.disk.Safe) (h : ∀ q ∈ t.family, (t.task q).Of user) :
    ∀ q ∈ t'.family, (t'.task q).Of user :=
  ((of_lasting huser).run hrun ⟨hdisk, h⟩).2

theorem family_confined_program : ∃ t', (loggedIn 1).Step true Careful t' ∧
    ∀ q ∈ t'.family, (t'.task q).Of 1 := by
  have hrun : ((execve true (programDisk 0o100755 0) initTask (executes programPath)
      (machineOf 1)).toOption).isSome = true := by
    decide +kernel
  obtain ⟨⟨r, s'⟩, hs⟩ := Option.isSome_iff_exists.mp hrun
  have hstep : (loggedIn 1).Step true Careful _ :=
    .execve initTask (executes programPath) rfl (ok_of_toOption hs)
  have hdisk : (programDisk 0o100755 0).Safe := by
    intro i hbit
    refine absurd ?_ hbit
    by_cases hroot : i = 0
    · subst hroot
      decide
    · exact congrArg (· &&& sIsuid) (if_neg hroot)
  exact ⟨_, hstep, family_confined (.single hstep) one_ne_zero hdisk
    fun _ _ => ⟨rfl, rfl, one_ne_zero⟩⟩

end Results
end Exec
end Elks
