import Elks.Vfs.Namei
import Mathlib.Logic.Relation

/-!
# Path names do not leave the root of a task (fs/namei.c)

`lookup` treats `..` in three ways: at the root of the task it stays, at the root of
a mounted file system it goes on from the covered directory, and elsewhere the
directory itself says where it leads.

**Purpose.**  `FileTree.Below` is the subtree of a directory: what its entries name,
what is mounted there, and so on.  `FileTree.IsTree` says that the file systems are
trees and that the mounts fit together.

**Result.**  `path_confined`: from a directory below the root of the task, which is
not covered itself, every path leads to something below that root.
-/

namespace Elks
namespace Namei

open Lib
open Minix

section Subtree

variable {ι : Type}

/-- `"."`. -/
def dot : Name :=
  [46]

/-- `s_namelen`. -/
def sNamelen : Nat :=
  14

/-- An entry of `dir` other than `.` and `..` names `ino`. -/
def FileTree.Holds (T : FileTree ι) (dir ino : ι) : Prop :=
  ∃ name, name ≠ [] ∧ name ≠ dot ∧ name ≠ dotdot ∧ name.length ≤ sNamelen ∧
    T.entry dir name = some ino

/-- One step down: into an entry, or from a covered directory to what is mounted. -/
def FileTree.Down (T : FileTree ι) (dir i : ι) : Prop :=
  T.Holds dir i ∨ (T.inode dir).iMount = some i

/-- `i` lies in the subtree of `root`. -/
def FileTree.Below (T : FileTree ι) (root i : ι) : Prop :=
  Relation.ReflTransGen T.Down root i

/-- The file systems are trees, and `i_mount`, `s_mounted` and `s_covered` fit
together.  Of a name, `minix_find_entry` looks at the first `s_namelen` characters. -/
structure FileTree.IsTree (T : FileTree ι) : Prop where
  truncated : ∀ dir name, T.entry dir name = T.entry dir (name.take sNamelen)
  self : ∀ {dir ino}, T.entry dir dot = some ino → ino = dir
  parent : ∀ {dir ino p}, T.entry dir dotdot = some ino → T.isA sIfdir dir → T.Holds p dir →
    ino = p
  top : ∀ {dir ino}, (T.inode dir).isMounted → T.entry dir dotdot = some ino → ino = dir
  unnamed : ∀ {dir p}, (T.inode dir).isMounted → ¬ T.Holds p dir
  mount : ∀ {dir i}, (T.inode dir).iMount = some i →
    (T.inode i).isMounted ∧ (T.inode i).sCovered = some dir
  covered : ∀ {dir i}, (T.inode i).isMounted → (T.inode i).sCovered = some dir →
    (T.inode dir).iMount = some i

variable {T : FileTree ι} {root dir i : ι} {name : Name} {perm : Option Errno}

theorem FileTree.Below.got (h : T.Below root i) : T.Below root (T.got i) := by
  unfold FileTree.got
  cases hmount : (T.inode i).iMount with
  | some tmp => exact h.tail (Or.inr hmount)
  | none => exact h

theorem FileTree.IsTree.child_below (hT : T.IsTree) (hdir : T.Below root dir) (hname : name ≠ [])
    (hup : name ≠ dotdot) (h : T.child dir name = .ok i) : T.Below root i := by
  unfold FileTree.child at h
  split at h
  · split at h
    · rename_i ino hino
      obtain rfl := Except.ok.inj h
      refine FileTree.Below.got ?_
      by_cases hdot : name = dot
      · subst hdot
        obtain rfl := hT.self hino
        exact hdir
      · refine hdir.tail (Or.inl ?_)
        by_cases hlen : name.length ≤ sNamelen
        · exact ⟨name, hname, hdot, hup, hlen, hino⟩
        · -- an over-long name is cut to one that is neither `.` nor `..`
          have hcut : (name.take sNamelen).length = sNamelen := by
            rw [List.length_take]
            omega
          have hother : ∀ short : Name, short.length < sNamelen →
              name.take sNamelen ≠ short := by
            rintro short hshort rfl
            omega
          rw [hT.truncated] at hino
          exact ⟨name.take sNamelen, hother [] (by decide), hother dot (by decide),
            hother dotdot (by decide), hcut.le, hino⟩
    · cases h
  · cases h

theorem FileTree.IsTree.up_below (hT : T.IsTree) (hdir : T.Below root dir) (hroot : dir ≠ root)
    (h : T.child dir dotdot = .ok i) : T.Below root i := by
  unfold FileTree.child at h
  split at h
  · rename_i hisdir
    split at h
    · rename_i ino hino
      obtain rfl := Except.ok.inj h
      refine FileTree.Below.got ?_
      by_cases htop : (T.inode dir).isMounted
      · obtain rfl := hT.top htop hino
        exact hdir
      · rcases Relation.ReflTransGen.cases_tail hdir with heq | ⟨p, hp, hdown⟩
        · exact absurd heq hroot
        · rcases hdown with hholds | hmount
          · obtain rfl := hT.parent hino hisdir hholds
            exact hp
          · exact absurd (hT.mount hmount).1 htop
    · cases h
  · cases h

theorem FileTree.IsTree.covered_below {covered : ι} (hT : T.IsTree) (hdir : T.Below root dir)
    (hroot : dir ≠ root) (hmounted : (T.inode dir).isMounted)
    (hcovered : (T.inode dir).sCovered = some covered) : T.Below root covered := by
  rcases Relation.ReflTransGen.cases_tail hdir with heq | ⟨p, hp, hdown⟩
  · exact absurd heq hroot
  · rcases hdown with hholds | hmount
    · exact absurd hholds (hT.unnamed hmounted)
    · obtain rfl := Option.some.inj ((hT.mount hmount).2.symm.trans hcovered)
      exact hp

theorem within_ok (h : T.within perm dir name = .ok i) :
    name = [] ∧ i = dir ∨ name ≠ [] ∧ T.child dir name = .ok i := by
  unfold FileTree.within at h
  cases perm with
  | some perm => cases h
  | none =>
      by_cases hname : name = []
      · simp only [if_pos hname] at h
        exact Or.inl ⟨hname, (Except.ok.inj h).symm⟩
      · simp only [if_neg hname] at h
        exact Or.inr ⟨hname, h⟩

end Subtree

section Walks

variable {ι : Type} [DecidableEq ι] {T : FileTree ι} {t : TaskStruct ι} {dir base i : ι}
  {name : Name} {path : Path} {links flag : Nat}

theorem find_below (hT : T.IsTree) (hroot : (T.inode t.root).iMount = none)
    (hdir : T.Below t.root dir) (h : T.find t dir name = .ok i) : T.Below t.root i := by
  unfold FileTree.find at h
  by_cases hname : name = dotdot
  · simp only [if_pos hname] at h
    by_cases htop : dir = t.root
    · simp only [if_pos htop] at h
      obtain rfl := Except.ok.inj h
      exact hdir
    · simp only [if_neg htop] at h
      by_cases hmounted : (T.inode dir).isMounted
      · simp only [if_pos hmounted] at h
        cases hcovered : (T.inode dir).sCovered with
        | none =>
            rw [hcovered] at h
            cases h
        | some covered =>
            rw [hcovered] at h
            have hbelow := hT.covered_below hdir htop hmounted hcovered
            have hother : covered ≠ t.root := by
              rintro rfl
              rw [hT.covered hmounted hcovered] at hroot
              cases hroot
            rcases within_ok h with ⟨hnil, _⟩ | ⟨_, hchild⟩
            · rw [hname] at hnil
              cases hnil
            · rw [hname] at hchild
              exact hT.up_below hbelow hother hchild
      · simp only [if_neg hmounted] at h
        rcases within_ok h with ⟨hnil, _⟩ | ⟨_, hchild⟩
        · rw [hname] at hnil
          cases hnil
        · rw [hname] at hchild
          exact hT.up_below hdir htop hchild
  · simp only [if_neg hname] at h
    rcases within_ok h with ⟨_, rfl⟩ | ⟨hne, hchild⟩
    · exact hdir
    · exact hT.child_below hdir hne hname hchild

/-- What follows links from below the root to below the root. -/
def Confines (T : FileTree ι) (root : ι) (follow : ι → ι → Except Errno ι) : Prop :=
  ∀ {dir inode i}, T.Below root dir → T.Below root inode → follow dir inode = .ok i →
    T.Below root i

theorem descend_below {follow : ι → ι → Except Errno ι} {names : List Name} (hT : T.IsTree)
    (hroot : (T.inode t.root).iMount = none) (hfollow : Confines T t.root follow)
    (hbase : T.Below t.root base) (h : T.descend t follow names base = .ok dir) :
    T.Below t.root dir := by
  induction names generalizing base with
  | nil =>
      obtain rfl := Except.ok.inj h
      exact hbase
  | cons name rest ih =>
      unfold FileTree.descend at h
      cases hfind : T.find t base name with
      | error e =>
          simp only [hfind] at h
          cases h
      | ok inode =>
          simp only [hfind] at h
          cases hnext : follow base inode with
          | error e =>
              simp only [hnext] at h
              cases h
          | ok next =>
              simp only [hnext] at h
              exact ih (hfollow hbase (find_below hT hroot hbase hfind) hnext) h

theorem dirOf_below {follow : ι → ι → Except Errno ι} (hT : T.IsTree)
    (hroot : (T.inode t.root).iMount = none) (hfollow : Confines T t.root follow)
    (hbase : T.Below t.root base) (h : T.dirOf t follow path base = .ok (dir, name)) :
    T.Below t.root dir := by
  unfold FileTree.dirOf at h
  have hstart : T.Below t.root (if path.head? = some slash then t.root else base) := by
    split
    · exact Relation.ReflTransGen.refl
    · exact hbase
  cases hdescend : T.descend t follow
      (components (if path.head? = some slash then path.tail else path)).1
      (if path.head? = some slash then t.root else base) with
  | error e =>
      simp only [hdescend] at h
      cases h
  | ok found =>
      simp only [hdescend] at h
      split at h
      · obtain ⟨rfl, _⟩ := Prod.mk.inj (Except.ok.inj h)
        exact descend_below hT hroot hfollow hstart hdescend
      · cases h

theorem openIn_below {follow : Nat → ι → ι → Except Errno ι} (hT : T.IsTree)
    (hroot : (T.inode t.root).iMount = none) (hfollow : ∀ flag, Confines T t.root (follow flag))
    (hbase : T.Below t.root base) (h : T.openIn t follow path flag base = .ok i) :
    T.Below t.root i := by
  unfold FileTree.openIn at h
  split at h
  · cases h
  · rename_i dir name hdirOf
    have hdir := dirOf_below hT hroot (hfollow 0) hbase hdirOf
    split at h
    · split at h
      · cases h
      · split at h
        · cases h
        · obtain rfl := Except.ok.inj h
          exact hdir
    · split at h
      · cases h
      · rename_i inode hfind
        have hinode := find_below hT hroot hdir hfind
        split at h
        · cases h
        · rename_i target htarget
          split at h
          · cases h
          · obtain rfl := Except.ok.inj h
            exact hfollow flag hdir hinode htarget

theorem follow_confines (hT : T.IsTree) (hroot : (T.inode t.root).iMount = none)
    (links flag : Nat) : Confines T t.root (T.follow t links flag) := by
  induction links generalizing flag with
  | zero =>
      intro dir inode i _ hinode h
      unfold FileTree.follow at h
      split at h
      · obtain rfl := Except.ok.inj h
        exact hinode
      · cases h
  | succ links ih =>
      intro dir inode i hdir hinode h
      unfold FileTree.follow at h
      split at h
      · obtain rfl := Except.ok.inj h
        exact hinode
      · dsimp only at h
        split at h
        · cases h
        · exact openIn_below hT hroot (fun flag => ih flag) hdir h

theorem named_below {followLinks : Bool} (hT : T.IsTree) (hroot : (T.inode t.root).iMount = none)
    (hpwd : T.Below t.root t.pwd) (h : T.named t path followLinks = .ok i) : T.Below t.root i := by
  unfold FileTree.named FileTree.dirOfPath at h
  split at h
  · cases h
  · rename_i dir name hdirOf
    have hdir := dirOf_below hT hroot (follow_confines hT hroot linkMax 0) hpwd hdirOf
    split at h
    · cases h
    · rename_i inode hfind
      have hinode := find_below hT hroot hdir hfind
      split at h
      · exact follow_confines hT hroot linkMax 0 hdir hinode h
      · obtain rfl := Except.ok.inj h
        exact hinode

/-- `minix_create` makes `i` in a directory of the subtree, under a name that the directory
does not have, when the table counts `b` and the two references of the call to the
directory. -/
def FileTree.Made (T : FileTree ι) (t : TaskStruct ι) (b : ι → ℕ) (i : ι) : Prop :=
  ∃ dir name e, T.Below t.root dir ∧ T.find t dir name = .error e ∧
    minixCreate T dir name (b + one dir + one dir) = .ok (.ok i, b + one dir + one i)

/-- What an open hands back when the table counts `b` besides: an inode of the subtree,
or one that it has made there. -/
def Lands (T : FileTree ι) (t : TaskStruct ι) (flag : Nat) (b : ι → ℕ) (r : Except Errno ι)
    (h : ι → ℕ) : Prop :=
  h = hand r ∧ ∀ i, r = .ok i → T.Below t.root i ∨ flag &&& oCreat ≠ 0 ∧ T.Made t b i

variable {b : ι → ℕ}

theorem Lands.error {e : Errno} : Lands T t flag b (.error e) 0 := by
  refine ⟨rfl, ?_⟩
  intro i hi
  cases hi

theorem Lands.below (h : T.Below t.root i) : Lands T t flag b (.ok i) (one i) := by
  refine ⟨rfl, ?_⟩
  intro j hj
  obtain rfl := Except.ok.inj hj
  exact Or.inl h

theorem openCreate_lands {e : Errno} (hdir : T.Below t.root dir)
    (hfind : T.find t dir name = .error e) (hflag : flag &&& oCreat ≠ 0) :
    MovesIn b (openCreate t T dir name) (one dir) (Lands T t flag b) := by
  unfold openCreate
  cases permission t (T.inode dir) (mayWrite ||| mayExec) with
  | some error => exact Moves.iputs Lands.error b
  | none =>
      by_cases hcreate : ¬ T.has (·.create) dir
      · simp only [if_pos hcreate]
        exact Moves.iputs Lands.error b
      · simp only [if_neg hcreate]
        refine TradesIn.take trivial ?_
        -- the reference that is kept counts in the table of the call
        have hmade : MovesIn (b + one dir) (minixCreate T dir name) (one dir)
            fun r h => h = hand r := minixCreate_moves T dir name (b + one dir)
        refine TradesIn.call (one dir) rfl hmade.traced ?_
        rintro r h ⟨rfl, hrun⟩
        refine TradesIn.drop (add_comm _ _) (Trades.pure ⟨rfl, ?_⟩ b)
        rintro i rfl
        exact Or.inr ⟨hflag, dir, name, e, hdir, hfind, hrun⟩

theorem openFound_lands {follow : Nat → ι → ι → Walk ι (Except Errno ι)} {inode : ι}
    (hlands : MovesIn b (follow flag dir inode) (one dir + one inode) (Lands T t flag b)) :
    MovesIn b (openFound t T follow flag dir inode) (one dir + one inode)
      (Lands T t flag b) := by
  unfold openFound
  refine TradesIn.bind hlands ?_
  rintro r h ⟨rfl, hr⟩
  cases r with
  | error e => exact Trades.pure Lands.error b
  | ok target =>
      simp only
      cases openCheck t T flag target with
      | some error => exact Moves.iputs Lands.error b
      | none => exact Trades.pure ⟨rfl, hr⟩ b

theorem openNameiAt_lands {follow : Nat → ι → ι → Walk ι (Except Errno ι)}
    {found : Nat → ι → ι → Except Errno ι} (hT : T.IsTree) (hroot : (T.inode t.root).iMount = none)
    (hfollow : Follows follow found) (hfound : Confines T t.root (found 0))
    (hlands : ∀ {dir inode}, T.Below t.root dir → T.Below t.root inode →
      MovesIn b (follow flag dir inode) (one dir + one inode) (Lands T t flag b))
    (hbase : T.Below t.root base) :
    MovesIn b (openNameiAt t T follow path flag base) (one base) (Lands T t flag b) := by
  unfold openNameiAt
  refine TradesIn.bind (dirNameiAt_moves hfollow path base b) ?_
  rintro r h ⟨rfl, rfl⟩
  cases hdirOf : T.dirOf t (found 0) path base with
  | error e => exact Trades.pure Lands.error b
  | ok place =>
      obtain ⟨dir, name⟩ := place
      have hdir := dirOf_below hT hroot hfound hbase hdirOf
      by_cases hname : name = []
      · simp only [if_pos hname]
        by_cases hwrite : flag &&& 2 ≠ 0
        · simp only [if_pos hwrite]
          exact Moves.iputs Lands.error b
        · simp only [if_neg hwrite]
          cases permission t (T.inode dir) (accMode flag) with
          | some e => exact Moves.iputs Lands.error b
          | none => exact Trades.pure (Lands.below hdir) b
      · simp only [if_neg hname]
        refine TradesIn.take trivial ?_
        refine TradesIn.call (one dir) rfl (lookup_moves t T dir name (b + one dir)) ?_
        rintro r h ⟨rfl, rfl⟩
        cases hfind : T.find t dir name with
        | ok inode =>
            have hbelow := find_below hT hroot hdir hfind
            simp only
            split
            · exact Moves.iputs_swap Lands.error b
            · exact openFound_lands (hlands hdir hbelow)
        | error e =>
            have hkept : (one dir + hand (.error e : Except Errno ι) : ι → ℕ) = one dir :=
              add_zero _
            simp only [hkept]
            split
            · rename_i hflag
              exact openCreate_lands hdir hfind hflag
            · exact Moves.iputs Lands.error b

theorem followLink_lands {inode : ι} (hT : T.IsTree) (hroot : (T.inode t.root).iMount = none)
    (hdir : T.Below t.root dir) (hinode : T.Below t.root inode) :
    MovesIn b (followLink t T links flag dir inode) (one dir + one inode)
      (Lands T t flag b) := by
  induction links generalizing dir inode with
  | zero =>
      by_cases h : T.has (·.followLink) inode ∧ T.isA sIflnk inode
      · unfold followLink minixFollowLink
        rw [if_neg (not_not_intro h.1)]
        simp only [if_neg (not_not_intro h.2)]
        exact Moves.iputs_swap Lands.error b
      · rw [followLink_plain h]
        exact TradesIn.drop (add_comm _ _) (Trades.pure (Lands.below hinode) b)
  | succ links ih =>
      by_cases h : T.has (·.followLink) inode ∧ T.isA sIflnk inode
      · unfold followLink minixFollowLink
        rw [if_neg (not_not_intro h.1)]
        simp only [if_neg (not_not_intro h.2)]
        cases T.linkBlock inode with
        | none => exact Moves.iputs_swap Lands.error b
        | some _ =>
            exact TradesIn.drop rfl (openNameiAt_lands hT hroot (followLink_moves t T links)
              (follow_confines hT hroot links 0) ih hdir)
      · rw [followLink_plain h]
        exact TradesIn.drop (add_comm _ _) (Trades.pure (Lands.below hinode) b)

/-- A path leads nowhere outside the root of the task: not to the directory of a name,
not to an inode that is looked up, and not to one that is opened.  A file that an open
with `O_CREAT` makes is the one that `minix_create` makes at that moment in a directory
below the root; `b` is what the table counts apart from the reference to `base`. -/
theorem path_confined
    (hT : T.IsTree)
    (hroot : (T.inode t.root).iMount = none)
    (hpwd : T.Below t.root t.pwd)
    (hbase : T.Below t.root base)
    (b : ι → ℕ) :
    (∀ links path dir name s', dirNameiAt t T (followLink t T links 0) path base (b + one base) =
      .ok (.ok (dir, name), s') → T.Below t.root dir) ∧
    (∀ path followLinks s i s', innerNamei t T path followLinks s = .ok (.ok i, s') →
      T.Below t.root i) ∧
    ∀ links path flag i s', openNameiAt t T (followLink t T links) path flag base
        (b + one base) = .ok (.ok i, s') →
      T.Below t.root i ∨ flag &&& oCreat ≠ 0 ∧ T.Made t b i := by
  refine ⟨?_, ?_, ?_⟩
  · intro links path dir name s' hrun
    obtain ⟨_, _, hfound, _⟩ :=
      (dirNameiAt_moves (followLink_moves t T links) path base b).of_ok hrun
    exact dirOf_below hT hroot (follow_confines hT hroot links 0) hbase hfound.symm
  · intro path followLinks s i s' hrun
    obtain ⟨_, _, hfound, _⟩ := (innerNamei_moves t T path followLinks).run hrun
    exact named_below hT hroot hpwd hfound.symm
  · intro links path flag i s' hrun
    obtain ⟨_, _, _, hlands⟩ :=
      (openNameiAt_lands hT hroot (followLink_moves t T links)
        (follow_confines hT hroot links 0) (followLink_lands hT hroot) hbase).of_ok hrun
    exact hlands i rfl

end Walks

section Jail

/-- `/` and `/a`. -/
def jailTree : FileTree Bool where
  inode i :=
    { iMode := sIfdir + 0o755
      iUid := 0
      iGid := 0
      iNlink := 2
      iIno := 1 + i.toNat
      iDev := 1
      iOp := some minixDirInodeOperations
      iMount := none
      isMounted := !i
      sCovered := none
      isRdonly := false
      isNodev := false }
  entry dir name :=
    let name := name.take sNamelen
    if name = dot then some dir
    else if name = dotdot then some false
    else if name = [97] ∧ dir = false then some true
    else none
  linkBlock _ := none
  linkPath _ := []
  unused _ := none
  unused_zero _ _ h := by cases h
  freeIno := false
  freeZone := false
  addEntry _ _ := none
  emptyDir _ := false
  fopOpen _ := none
  load _ := none

/-- A task whose root is `/a`. -/
def jailed : TaskStruct Bool where
  root := true
  pwd := true
  uid := 0
  gid := 0
  euid := 0
  egid := 0
  emptyFilp := true
  unusedFd := true
  closeOnExec := []

theorem jailTree_isTree : jailTree.IsTree where
  truncated dir name := by
    unfold jailTree
    simp only [List.take_take, min_self]
  self {dir ino} h := by
    have hino : some dir = some ino := h
    exact (Option.some.inj hino).symm
  parent {dir ino p} h _ hholds := by
    obtain ⟨name, _, hdot, hup, hlen, hname⟩ := hholds
    have hino : some false = some ino := h
    unfold jailTree at hname
    simp only [List.take_of_length_le hlen, if_neg hdot, if_neg hup] at hname
    split at hname
    · rename_i hentry
      rw [← Option.some.inj hino, hentry.2]
    · cases hname
  top {dir ino} hmounted h := by
    have hino : some false = some ino := h
    cases dir with
    | false => exact (Option.some.inj hino).symm
    | true => cases hmounted
  unnamed {dir p} hmounted hholds := by
    obtain ⟨name, _, hdot, hup, hlen, hname⟩ := hholds
    unfold jailTree at hname
    simp only [List.take_of_length_le hlen, if_neg hdot, if_neg hup] at hname
    split at hname
    · cases dir with
      | false => cases hname
      | true => cases hmounted
    · cases hname
  mount {dir i} h := by cases h
  covered {dir i} _ h := by cases h

/-- A jailed task opens `..`, and gets its own root. -/
theorem path_confined_jailed :
    ∃ s', openNameiAt jailed jailTree (followLink jailed jailTree 6) [46, 46] 0 true
      (0 + one true) = .ok (.ok true, s') ∧ jailTree.Below jailed.root true := by
  have hrun : ∃ s', openNameiAt jailed jailTree (followLink jailed jailTree 6) [46, 46] 0 true
      (0 + one true) = .ok (.ok true, s') := ⟨_, rfl⟩
  obtain ⟨s', hrun⟩ := hrun
  have hroot : jailTree.Below jailed.root true := Relation.ReflTransGen.refl
  have hopened := (path_confined jailTree_isTree rfl hroot hroot 0).2.2 6 [46, 46] 0 true s' hrun
  exact ⟨s', hrun, hopened.resolve_right fun hmade => hmade.1 rfl⟩

end Jail

end Namei
end Elks
