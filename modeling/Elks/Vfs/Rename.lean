import Elks.Vfs.Carry
import Elks.Vfs.Confine
import Elks.Vfs.PathCalls

/-!
# The tree that `link`, `unlink` and `rename` leave (fs/namei.c, fs/minix/namei.c)

`sys_rename` is a `sys_link` and then a `sys_unlink`.  The first follows a symbolic
link at the end of the old name and the second does not, and the second may be refused
when the first has been carried out.

* `sysLinkIn`, `sysUnlinkIn`, `sysRenameIn`: the calls with the tree that they leave;
* `sysRenameIn_returns`: what they return, in terms of the look-ups of names;
* `sysRename_atomic_iff`: the calls that rename, or leave everything as it was.
-/

namespace Elks
namespace Namei

open Lib
open Minix

section Code

variable {ι : Type} [DecidableEq ι]

/-- The entry of a name, of which `s_namelen` characters count. -/
def FileTree.setEntry (T : FileTree ι) (dir : ι) (name : Name) (ino : Option ι) : FileTree ι :=
  { T with
    entry := fun d n =>
      if d = dir ∧ n.take sNamelen = name.take sNamelen then ino else T.entry d n }

/-- `i_nlink`. -/
def FileTree.setNlink (T : FileTree ι) (i : ι) (n : Nat) : FileTree ι :=
  { T with inode := Function.update T.inode i { T.inode i with iNlink := n } }

/-- The end of `minix_link`. -/
def FileTree.linked (T : FileTree ι) (oldinode dir : ι) (name : Name) : FileTree ι :=
  (T.setEntry dir name (some oldinode)).setNlink oldinode ((T.inode oldinode).iNlink + 1)

/-- The end of `minix_unlink`; a count of 0 is made 1 before. -/
def FileTree.unlinked (T : FileTree ι) (inode dir : ι) (name : Name) : FileTree ι :=
  (T.setEntry dir name none).setNlink inode ((T.inode inode).iNlink - 1)

/-- `minix_link`, with the tree that it leaves. -/
def minixLinkIn (T : FileTree ι) (oldinode dir : ι) (name : Name) :
    Walk ι (Option Errno × FileTree ι) := do
  match ← minixLink T oldinode dir name with
  | none => pure (none, T.linked oldinode dir name)
  | some error => pure (some error, T)

/-- `minix_unlink`, with the tree that it leaves. -/
def minixUnlinkIn (t : TaskStruct ι) (T : FileTree ι) (dir : ι) (name : Name) :
    Walk ι (Option Errno × FileTree ι) := do
  match ← minixUnlink t T dir name with
  | none =>
      match T.entry dir name with
      | some ino => pure (none, T.unlinked (T.got ino) dir name)
      | none => pure (none, T)
  | some error => pure (some error, T)

/-- `sys_link`, with the tree that it leaves. -/
def sysLinkIn (t : TaskStruct ι) (T : FileTree ι) (oldname newname : Path) :
    Walk ι (Option Errno × FileTree ι) := do
  match ← namei t T oldname .any 0 with
  | .error error => pure (some error, T)
  | .ok oldinode => do
      match ← dirNamei t T newname with
      | .error error => pure (some error, T)
      | .ok (dirp, basename) =>
          match linkCheck t T oldinode dirp basename with
          | none => do
              iref dirp
              let error ← minixLinkIn T oldinode dirp basename
              iput dirp
              pure error
          | some error => do
              iput oldinode
              iput dirp
              pure (some error, T)

/-- `sys_unlink`, with the tree that it leaves; what `__do_rmthing` returns is
returned. -/
def sysUnlinkIn (t : TaskStruct ι) (T : FileTree ι) (pathname : Path) :
    Walk ι (Option Errno × FileTree ι) := do
  match ← dirNamei t T pathname with
  | .error error => pure (some error, T)
  | .ok (dirp, basename) =>
      if basename = [] then do
        iput dirp
        pure (some .enoent, T)
      else
        match permission t (T.inode dirp) (mayWrite ||| mayExec) with
        | some error => do
            iput dirp
            pure (some error, T)
        | none =>
            if T.has (·.unlink) dirp then
              minixUnlinkIn t T dirp basename
            else do
              iput dirp
              pure (some .eperm, T)

/-- `sys_rename`, with the tree that it leaves. -/
def sysRenameIn (t : TaskStruct ι) (T : FileTree ι) (oldname newname : Path) :
    Walk ι (Option Errno × FileTree ι) := do
  match ← sysLinkIn t T oldname newname with
  | (none, after) => sysUnlinkIn t after oldname
  | (some err, after) => pure (some err, after)

end Code

section Purpose

variable {ι : Type} [DecidableEq ι]

/-- A path names an inode, itself if that is a symbolic link. -/
def FileTree.Names (T : FileTree ι) (t : TaskStruct ι) (path : Path) (i : ι) : Prop :=
  T.named t path false = .ok i

/-- The inode of the old name is the one of the new name now. -/
def Moved (t : TaskStruct ι) (oldname newname : Path) (T T' : FileTree ι) : Prop :=
  ∃ i, T.Names t oldname i ∧ T'.Names t newname i ∧ ∀ j, ¬ T'.Names t oldname j

/-- Every name is resolved as before, for every task, and every link count is what it
was. -/
def Untouched (T T' : FileTree ι) : Prop :=
  (∀ (t : TaskStruct ι) (path : Path) (followLinks : Bool),
    T'.named t path followLinks = T.named t path followLinks) ∧
  ∀ i, (T'.inode i).iNlink = (T.inode i).iNlink

/-- What an atomic `rename` that returns `r` leaves. -/
def Atomic (t : TaskStruct ι) (oldname newname : Path) (T : FileTree ι) :
    Option Errno × FileTree ι → Prop
  | (none, T') => Moved t oldname newname T T'
  | (some _, T') => Untouched T T'

/-- The file systems are in order: what an inode is and what can be done with it fit
together, a directory has a parent, and mounts are on and of directories. -/
structure FileTree.Regular (T : FileTree ι) : Prop where
  truncated : ∀ dir name, T.entry dir name = T.entry dir (name.take sNamelen)
  lookup : ∀ i, T.has (·.lookup) i ↔ T.isA sIfdir i
  unlink : ∀ i, T.isA sIfdir i → T.has (·.unlink) i
  followLink : ∀ i, T.isA sIflnk i → T.has (·.followLink) i
  parent : ∀ i, T.isA sIfdir i → ∃ p, T.entry i dotdot = some p ∧ T.isA sIfdir p
  mountedOn : ∀ {i j}, (T.inode i).iMount = some j → T.isA sIfdir i
  mounted : ∀ {i j}, (T.inode i).iMount = some j → T.isA sIfdir j
  top : ∀ {i}, (T.inode i).isMounted → T.isA sIfdir i

/-- The directories of a task are directories. -/
structure TaskStruct.In (t : TaskStruct ι) (T : FileTree ι) : Prop where
  root : T.isA sIfdir t.root
  pwd : T.isA sIfdir t.pwd

/-- How `minix_link` comes out. -/
def FileTree.linkError (T : FileTree ι) (oldinode dir : ι) (name : Name) : Option Errno :=
  if T.isA sIfdir oldinode then some .eperm
  else if minixLinkMax ≤ (T.inode oldinode).iNlink then some .emlink
  else
    match T.entry dir name with
    | some _ => some .eexist
    | none => T.addEntry dir name

/-- `sys_link` is carried out: the inode, the directory and the name of the new
entry. -/
structure Links (t : TaskStruct ι) (T : FileTree ι) (oldname newname : Path)
    (oldinode dir : ι) (name : Name) : Prop where
  old : T.namei t oldname .any 0 = .ok oldinode
  new : T.dirOfPath t newname = .ok (dir, name)
  check : linkCheck t T oldinode dir name = none
  error : T.linkError oldinode dir name = none

/-- `sys_unlink` is carried out: the directory, the name and the inode of the entry. -/
structure Unlinks (t : TaskStruct ι) (T : FileTree ι) (path : Path) (dir : ι) (name : Name)
    (ino : ι) : Prop where
  dirOf : T.dirOfPath t path = .ok (dir, name)
  named : name ≠ []
  allowed : permission t (T.inode dir) (mayWrite ||| mayExec) = none
  unlink : T.has (·.unlink) dir
  entry : T.entry dir name = some ino
  file : ¬ T.isA sIfdir (T.got ino)
  owned : sticky t (T.inode dir) (T.inode (T.got ino)) = false

/-- The old name can be taken away, and it is no symbolic link. -/
structure Removable (t : TaskStruct ι) (T : FileTree ι) (oldname : Path) (dir : ι) (name : Name)
    (i : ι) : Prop where
  dirOf : T.dirOfPath t oldname = .ok (dir, name)
  find : T.find t dir name = .ok i
  plain : ¬ T.isA sIflnk i
  allowed : permission t (T.inode dir) (mayWrite ||| mayExec) = none
  owned : sticky t (T.inode dir) (T.inode i) = false

end Purpose

section Returns

variable {ι : Type} [DecidableEq ι] {t : TaskStruct ι} {T : FileTree ι}
  {oldinode dir : ι} {name : Name} {oldname newname path : Path} {r : Option Errno × FileTree ι}
  {c c' : ι → ℕ}

theorem minixLinkIn_moves :
    Moves (minixLinkIn T oldinode dir name) (one oldinode + one dir) fun r h =>
      h = 0 ∧ (r = (none, T.linked oldinode dir name) ∧ T.linkError oldinode dir name = none ∨
        ∃ e, r = (some e, T) ∧ T.linkError oldinode dir name ≠ none) := by
  refine Trades.bind (R := fun r h => h = 0 ∧ r = T.linkError oldinode dir name) ?_ ?_
  · unfold minixLink FileTree.linkError
    refine Trades.ite (fun hdir => ?_) fun hdir => ?_
    · rw [if_pos hdir]
      exact Moves.iputs_two ⟨rfl, rfl⟩
    · rw [if_neg hdir]
      refine Trades.ite (fun hmax => ?_) fun hmax => ?_
      · rw [if_pos hmax]
        exact Moves.iputs_two ⟨rfl, rfl⟩
      · rw [if_neg hmax]
        cases T.entry dir name with
        | some _ => exact Moves.iputs_swap ⟨rfl, rfl⟩
        | none =>
            dsimp only
            cases T.addEntry dir name with
            | some error => exact Moves.iputs_swap ⟨rfl, rfl⟩
            | none => exact Moves.iputs_swap ⟨rfl, rfl⟩
  · rintro r h ⟨rfl, hr⟩
    rw [← hr]
    cases r with
    | none => exact Trades.pure ⟨rfl, Or.inl ⟨rfl, rfl⟩⟩
    | some e => exact Trades.pure ⟨rfl, Or.inr ⟨e, rfl, Option.some_ne_none e⟩⟩

theorem sysLinkIn_moves :
    Moves (sysLinkIn t T oldname newname) 0 fun r _ =>
      (∃ o d n, Links t T oldname newname o d n ∧ r = (none, T.linked o d n)) ∨
        ∃ e, r = (some e, T) ∧ ∀ o d n, ¬ Links t T oldname newname o d n := by
  refine Moves.found (zero_add _).symm (namei_moves t T oldname .any 0) ?_ ?_
  · intro oldinode hold
    rw [zero_add]
    refine Trades.call (one oldinode) (add_zero _).symm (dirNamei_moves t T newname) ?_
    rintro r h ⟨rfl, rfl⟩
    cases hdir : T.dirOfPath t newname with
    | error e =>
        refine Trades.pure (Or.inr ⟨e, rfl, fun o d n hlinks => ?_⟩)
        rw [hlinks.new] at hdir
        cases hdir
    | ok found =>
        obtain ⟨dir, name⟩ := found
        have hsame : ∀ {o d n}, Links t T oldname newname o d n →
            o = oldinode ∧ d = dir ∧ n = name := by
          intro o d n hlinks
          have hpair := Except.ok.inj (hlinks.new.symm.trans hdir)
          exact ⟨Except.ok.inj (hlinks.old.symm.trans hold), (Prod.mk.inj hpair).1,
            (Prod.mk.inj hpair).2⟩
        dsimp only
        cases hcheck : linkCheck t T oldinode dir name with
        | some error =>
            refine Moves.iputs_two (Or.inr ⟨error, rfl, fun o d n hlinks => ?_⟩)
            obtain ⟨rfl, rfl, rfl⟩ := hsame hlinks
            rw [hlinks.check] at hcheck
            cases hcheck
        | none =>
            refine Moves.iref (Trades.call (one dir) ?_ minixLinkIn_moves ?_)
            · exact (add_right_comm _ _ _).trans (add_comm _ _)
            · rintro r k ⟨rfl, ⟨rfl, herror⟩ | ⟨e, rfl, herror⟩⟩
              · refine Moves.iput (add_comm _ _) (Trades.pure (Or.inl ?_))
                exact ⟨oldinode, dir, name, ⟨hold, hdir, hcheck, herror⟩, rfl⟩
              · refine Moves.iput (add_comm _ _) (Trades.pure (Or.inr ⟨e, rfl, ?_⟩))
                intro o d n hlinks
                obtain ⟨rfl, rfl, rfl⟩ := hsame hlinks
                exact herror hlinks.error
  · intro e he
    refine Trades.pure (Or.inr ⟨e, rfl, fun o d n hlinks => ?_⟩)
    rw [hlinks.old] at he
    cases he

theorem minixUnlinkIn_moves :
    Moves (minixUnlinkIn t T dir name) (one dir) fun r _ =>
      (∃ ino, T.entry dir name = some ino ∧ ¬ T.isA sIfdir (T.got ino) ∧
        sticky t (T.inode dir) (T.inode (T.got ino)) = false ∧
        r = (none, T.unlinked (T.got ino) dir name)) ∨
      ∃ e, r = (some e, T) ∧ ∀ ino, T.entry dir name = some ino →
        T.isA sIfdir (T.got ino) ∨ sticky t (T.inode dir) (T.inode (T.got ino)) = true := by
  unfold minixUnlinkIn minixUnlink
  cases hentry : T.entry dir name with
  | none =>
      refine Trades.bind (R := fun r _ => r = some .enoent) (Moves.iputs rfl) ?_
      rintro r h rfl
      exact Trades.pure (Or.inr ⟨_, rfl, fun ino hino => nomatch hino⟩)
  | some ino =>
      refine Trades.bind (R := fun r _ => T.isA sIfdir (T.got ino) ∧ r = some .eperm ∨
        ¬ T.isA sIfdir (T.got ino) ∧
          r = if sticky t (T.inode dir) (T.inode (T.got ino)) then some .eperm else none) ?_ ?_
      · refine Moves.iget (Trades.ite (fun hdir => ?_) fun hdir => ?_)
        · exact Moves.iputs_swap (Or.inl ⟨hdir, rfl⟩)
        · refine Trades.ite (fun _ => ?_) fun _ => Moves.iputs_swap (Or.inr ⟨hdir, rfl⟩)
          exact Moves.iput rfl (Trades.throw trivial)
      · rintro r h (⟨hdir, rfl⟩ | ⟨hdir, rfl⟩)
        · refine Trades.pure (Or.inr ⟨_, rfl, fun i hi => Or.inl ?_⟩)
          exact Option.some.inj hi ▸ hdir
        · cases hsticky : sticky t (T.inode dir) (T.inode (T.got ino)) with
          | true =>
              refine Trades.pure (Or.inr ⟨_, rfl, fun i hi => Or.inr ?_⟩)
              exact Option.some.inj hi ▸ hsticky
          | false => exact Trades.pure (Or.inl ⟨ino, rfl, hdir, hsticky, rfl⟩)

theorem sysUnlinkIn_moves :
    Moves (sysUnlinkIn t T path) 0 fun r _ =>
      (∃ d n ino, Unlinks t T path d n ino ∧ r = (none, T.unlinked (T.got ino) d n)) ∨
        ∃ e, r = (some e, T) ∧ ∀ d n ino, ¬ Unlinks t T path d n ino := by
  refine Trades.bind (dirNamei_moves t T path) ?_
  rintro r h ⟨rfl, rfl⟩
  cases hdir : T.dirOfPath t path with
  | error e =>
      refine Trades.pure (Or.inr ⟨e, rfl, fun d n ino hunlinks => ?_⟩)
      rw [hunlinks.dirOf] at hdir
      cases hdir
  | ok found =>
      obtain ⟨dir, name⟩ := found
      have hsame : ∀ {d n ino}, Unlinks t T path d n ino → d = dir ∧ n = name := by
        intro d n ino hunlinks
        exact Prod.mk.inj (Except.ok.inj (hunlinks.dirOf.symm.trans hdir))
      dsimp only
      refine Trades.ite (fun hname => ?_) fun hname => ?_
      · refine Moves.iputs (Or.inr ⟨_, rfl, fun d n ino hunlinks => ?_⟩)
        obtain ⟨rfl, rfl⟩ := hsame hunlinks
        exact hunlinks.named hname
      · cases hallowed : permission t (T.inode dir) (mayWrite ||| mayExec) with
        | some error =>
            refine Moves.iputs (Or.inr ⟨error, rfl, fun d n ino hunlinks => ?_⟩)
            obtain ⟨rfl, rfl⟩ := hsame hunlinks
            rw [hunlinks.allowed] at hallowed
            cases hallowed
        | none =>
            dsimp only
            refine Trades.ite (fun hop => ?_) fun hop => ?_
            · refine minixUnlinkIn_moves.mono ?_
              rintro r h (⟨ino, hentry, hfile, howned, rfl⟩ | ⟨e, rfl, hrefused⟩)
              · exact Or.inl ⟨dir, name, ino, ⟨hdir, hname, hallowed, hop, hentry, hfile,
                  howned⟩, rfl⟩
              · refine Or.inr ⟨e, rfl, fun d n ino hunlinks => ?_⟩
                obtain ⟨rfl, rfl⟩ := hsame hunlinks
                rcases hrefused ino hunlinks.entry with hisdir | hsticky
                · exact hunlinks.file hisdir
                · exact absurd (hunlinks.owned.symm.trans hsticky) Bool.false_ne_true
            · refine Moves.iputs (Or.inr ⟨_, rfl, fun d n ino hunlinks => ?_⟩)
              obtain ⟨rfl, rfl⟩ := hsame hunlinks
              exact hop hunlinks.unlink

theorem sysRenameIn_run (hrun : sysRenameIn t T oldname newname c = .ok (r, c')) :
    (∃ e, r = (some e, T) ∧ ∀ o d n, ¬ Links t T oldname newname o d n) ∨
      ∃ o d n, Links t T oldname newname o d n ∧
        ((∃ d' n' ino, Unlinks t (T.linked o d n) oldname d' n' ino ∧
            r = (none, (T.linked o d n).unlinked ((T.linked o d n).got ino) d' n')) ∨
          ∃ e, r = (some e, T.linked o d n) ∧
            ∀ d' n' ino, ¬ Unlinks t (T.linked o d n) oldname d' n' ino) := by
  unfold sysRenameIn at hrun
  cases hlink : sysLinkIn t T oldname newname c with
  | error e =>
      rw [run_bind_error hlink] at hrun
      cases hrun
  | ok result =>
      obtain ⟨r₁, c₁⟩ := result
      rw [run_bind_ok hlink] at hrun
      obtain ⟨_, -, ⟨o, d, n, hlinks, rfl⟩ | ⟨e, rfl, hnone⟩⟩ := sysLinkIn_moves.run hlink
      · obtain ⟨_, -, hpost⟩ := sysUnlinkIn_moves.run hrun
        exact Or.inr ⟨o, d, n, hlinks, hpost⟩
      · obtain ⟨rfl, -⟩ := Prod.mk.inj (Except.ok.inj hrun)
        exact Or.inl ⟨e, rfl, hnone⟩

theorem minixLinkIn_fst :
    Prod.fst <$> minixLinkIn T oldinode dir name = minixLink T oldinode dir name := by
  unfold minixLinkIn
  rw [map_bind]
  conv_rhs => rw [← bind_pure (minixLink T oldinode dir name)]
  congr 1
  funext r
  cases r <;> rfl

theorem minixUnlinkIn_fst : Prod.fst <$> minixUnlinkIn t T dir name = minixUnlink t T dir name := by
  unfold minixUnlinkIn
  rw [map_bind]
  conv_rhs => rw [← bind_pure (minixUnlink t T dir name)]
  congr 1
  funext r
  cases r
  · cases T.entry dir name <;> rfl
  · rfl

theorem sysLinkIn_fst :
    Prod.fst <$> sysLinkIn t T oldname newname = sysLink t T oldname newname := by
  unfold sysLinkIn sysLink
  rw [map_bind]
  congr 1
  funext r
  cases r with
  | error e => rfl
  | ok oldinode =>
      dsimp only
      rw [map_bind]
      congr 1
      funext r
      cases r with
      | error e => rfl
      | ok found =>
          obtain ⟨dirp, basename⟩ := found
          dsimp only
          cases linkCheck t T oldinode dirp basename with
          | some e => rfl
          | none =>
              dsimp only
              rw [← minixLinkIn_fst]
              simp only [map_bind, bind_map_left, map_pure]

theorem sysUnlinkIn_fst : Prod.fst <$> sysUnlinkIn t T path = sysUnlink t T path := by
  unfold sysUnlinkIn sysUnlink doRmthing
  rw [map_bind]
  congr 1
  funext r
  cases r with
  | error e => rfl
  | ok found =>
      obtain ⟨dirp, basename⟩ := found
      dsimp only
      by_cases hname : basename = []
      · rw [if_pos hname, if_pos hname]
        rfl
      · rw [if_neg hname, if_neg hname]
        cases permission t (T.inode dirp) (mayWrite ||| mayExec) with
        | some e => rfl
        | none =>
            dsimp only
            by_cases hop : T.has (·.unlink) dirp
            · rw [if_pos hop, if_pos hop, minixUnlinkIn_fst]
            · rw [if_neg hop, if_neg hop]
              rfl

/-- A call of `rename` is one of the model of the counts, with the tree that its link
leaves. -/
theorem sysRename_of_in (hrun : sysRenameIn t T oldname newname c = .ok (r, c')) :
    ∃ after, sysRename t T after oldname newname c = .ok (r.1, c') := by
  unfold sysRenameIn at hrun
  unfold sysRename
  rw [← sysLinkIn_fst]
  cases hlink : sysLinkIn t T oldname newname c with
  | error e =>
      rw [run_bind_error hlink] at hrun
      cases hrun
  | ok result =>
      obtain ⟨⟨e, after⟩, c₁⟩ := result
      rw [run_bind_ok hlink] at hrun
      refine ⟨after, ?_⟩
      rw [bind_map_left, run_bind_ok hlink]
      cases e with
      | none =>
          dsimp only at hrun ⊢
          rw [← sysUnlinkIn_fst]
          have hmap : (Prod.fst <$> sysUnlinkIn t after oldname) c₁ =
            (sysUnlinkIn t after oldname c₁).bind fun r => .ok (r.1.1, r.2) := rfl
          rw [hmap, hrun]
          rfl
      | some e =>
          obtain ⟨rfl, rfl⟩ := Prod.mk.inj (Except.ok.inj hrun)
          rfl

end Returns

section Mounts

variable {ι : Type} {t : TaskStruct ι} {T : FileTree ι} {dir i ino d : ι} {n : Name}

theorem permission_search {inode : Node ι} (h : permission t inode (mayWrite ||| mayExec) = none) :
    permission t inode mayExec = none := by
  have hbits : ∀ mode : Nat, mode &&& 3 &&& 7 = 3 → mode &&& 1 &&& 7 = 1 := by
    intro mode hmode
    have hlow : ∀ k : Nat, k < 8 → k &&& 3 &&& 7 = 3 → k &&& 1 &&& 7 = 1 := by decide
    have hmask : ∀ m : Nat, m < 8 → mode &&& m &&& 7 = mode % 8 &&& m &&& 7 := by
      intro m hm
      rw [← Nat.and_two_pow_sub_one_eq_mod mode 3, Nat.and_assoc, Nat.and_assoc, Nat.and_assoc,
        Nat.and_comm m 7, ← Nat.and_assoc 7 7]
      simp
    rw [hmask 1 (by decide)]
    rw [hmask 3 (by decide)] at hmode
    exact hlow (mode % 8) (Nat.mod_lt _ (by decide)) hmode
  unfold permission at h ⊢
  rw [if_neg fun hwrite => absurd hwrite.1 (by decide)]
  split at h
  · cases h
  · dsimp only at h ⊢
    generalize (if t.euid = inode.iUid then inode.iMode >>> 6
      else if inode.iGid = t.egid then inode.iMode >>> 3 else inode.iMode) = mode at h ⊢
    by_cases hallowed : mode &&& (mayWrite ||| mayExec) &&& 7 = mayWrite ||| mayExec ∨ t.suser
    · exact if_pos (hallowed.imp_left (hbits mode))
    · rw [if_neg hallowed] at h
      cases h

theorem FileTree.not_dir_of_link (h : T.isA sIflnk i) : ¬ T.isA sIfdir i := by
  unfold FileTree.isA hasFormat at h ⊢
  rw [beq_iff_eq] at h ⊢
  rw [h]
  decide

namespace FileTree.Regular

theorem got_self (hT : T.Regular) (h : ¬ T.isA sIfdir i) : T.got i = i := by
  unfold FileTree.got
  cases hmount : (T.inode i).iMount with
  | some j => exact absurd (hT.mountedOn hmount) h
  | none => rfl

theorem eq_got (hT : T.Regular) (h : ¬ T.isA sIfdir (T.got ino)) : T.got ino = ino := by
  unfold FileTree.got at h ⊢
  cases hmount : (T.inode ino).iMount with
  | some j =>
      rw [hmount] at h
      exact absurd (hT.mounted hmount) h
  | none => rfl

theorem child_dotdot (hT : T.Regular) (h : T.child dir dotdot = .ok i) : T.isA sIfdir i := by
  unfold FileTree.child at h
  split at h
  · rename_i hdir
    obtain ⟨p, hp, hparent⟩ := hT.parent dir hdir
    rw [hp] at h
    obtain rfl := Except.ok.inj h
    by_contra hfile
    rw [hT.eq_got hfile] at hfile
    exact hfile hparent
  · cases h

end FileTree.Regular

theorem child_ok (h : T.child d n = .ok i) :
    T.isA sIfdir d ∧ ∃ ino, T.entry d n = some ino ∧ i = T.got ino := by
  unfold FileTree.child at h
  split at h
  · rename_i hdir
    split at h
    · rename_i ino hino
      exact ⟨hdir, ino, hino, (Except.ok.inj h).symm⟩
    · cases h
  · cases h

theorem child_of_entry (hdir : T.isA sIfdir d)
    (hentry : T.entry d n = some ino) : T.child d n = .ok (T.got ino) := by
  unfold FileTree.child
  rw [if_pos hdir, hentry]

end Mounts

section Regular

variable {ι : Type} [DecidableEq ι] {t : TaskStruct ι} {T : FileTree ι} {dir base i x : ι}
  {name : Name} {path : Path}

theorem dirOf_lookup {follow : ι → ι → Except Errno ι}
    (h : T.dirOf t follow path base = .ok (dir, name)) : T.has (·.lookup) dir := by
  unfold FileTree.dirOf at h
  dsimp only at h
  split at h
  · cases h
  · split at h
    · rename_i hlookup
      obtain ⟨rfl, rfl⟩ := Prod.mk.inj (Except.ok.inj h)
      exact hlookup
    · cases h

namespace FileTree.Regular

theorem find_file (hT : T.Regular) (hlookup : T.has (·.lookup) dir)
    (h : T.find t dir name = .ok i) (hfile : ¬ T.isA sIfdir i) :
    name ≠ [] ∧ name ≠ dotdot ∧ permission t (T.inode dir) mayExec = none ∧
      T.isA sIfdir dir ∧ T.entry dir name = some i := by
  have hdir := (hT.lookup dir).mp hlookup
  unfold FileTree.find at h
  by_cases hname : name = dotdot
  · exfalso
    subst hname
    simp only [if_true] at h
    by_cases hroot : dir = t.root
    · rw [if_pos hroot] at h
      exact hfile (Except.ok.inj h ▸ hdir)
    · rw [if_neg hroot] at h
      by_cases hmounted : (T.inode dir).isMounted
      · rw [if_pos hmounted] at h
        cases hcovered : (T.inode dir).sCovered with
        | none =>
            rw [hcovered] at h
            cases h
        | some covered =>
            rw [hcovered] at h
            rcases within_ok h with ⟨hnil, -⟩ | ⟨-, hchild⟩
            · cases hnil
            · exact hfile (hT.child_dotdot hchild)
      · rw [if_neg hmounted] at h
        rcases within_ok h with ⟨hnil, -⟩ | ⟨-, hchild⟩
        · cases hnil
        · exact hfile (hT.child_dotdot hchild)
  · simp only [if_neg hname] at h
    unfold FileTree.within at h
    cases hexec : permission t (T.inode dir) mayExec with
    | some e =>
        rw [hexec] at h
        cases h
    | none =>
        rw [hexec] at h
        dsimp only at h
        by_cases hnil : name = []
        · rw [if_pos hnil] at h
          exact absurd (Except.ok.inj h ▸ hdir) hfile
        · rw [if_neg hnil] at h
          unfold FileTree.child at h
          rw [if_pos hdir] at h
          cases hentry : T.entry dir name with
          | none =>
              rw [hentry] at h
              cases h
          | some ino =>
              rw [hentry] at h
              obtain rfl := Except.ok.inj h
              exact ⟨hnil, hname, rfl, hdir, congrArg some (hT.eq_got hfile).symm⟩

theorem follow_plain (hT : T.Regular) (links : Nat) :
    ∀ {flag dir inode i}, T.follow t links flag dir inode = .ok i → ¬ T.isA sIflnk i := by
  have hplain : ∀ {inode}, ¬ (T.has (·.followLink) inode ∧ T.isA sIflnk inode) →
      ¬ T.isA sIflnk inode := fun h hlink => h ⟨hT.followLink _ hlink, hlink⟩
  induction links with
  | zero =>
      intro flag dir inode i h
      unfold FileTree.follow at h
      split at h
      · rename_i hnot
        obtain rfl := Except.ok.inj h
        exact hplain hnot
      · cases h
  | succ links ih =>
      intro flag dir inode i h
      unfold FileTree.follow at h
      split at h
      · rename_i hnot
        obtain rfl := Except.ok.inj h
        exact hplain hnot
      · dsimp only at h
        cases hblock : T.linkBlock inode with
        | none =>
            rw [hblock] at h
            cases h
        | some block =>
            rw [hblock] at h
            dsimp only at h
            unfold FileTree.openIn at h
            cases hdir : T.dirOf t (T.follow t links 0) (T.linkPath inode) dir with
            | error e =>
                rw [hdir] at h
                cases h
            | ok found =>
                obtain ⟨d, name⟩ := found
                rw [hdir] at h
                dsimp only at h
                split at h
                · split at h
                  · cases h
                  · split at h
                    · cases h
                    · obtain rfl := Except.ok.inj h
                      intro hlink
                      exact FileTree.not_dir_of_link hlink ((hT.lookup d).mp (dirOf_lookup hdir))
                · split at h
                  · cases h
                  · rename_i inode' hfind
                    split at h
                    · cases h
                    · rename_i target hfollow
                      split at h
                      · cases h
                      · obtain rfl := Except.ok.inj h
                        exact ih hfollow

end FileTree.Regular

theorem find_stuck (hfile : ¬ T.isA sIfdir x) (hroot : x ≠ t.root)
    (hmounted : ¬ (T.inode x).isMounted) (h : T.find t x name = .ok i) : i = x := by
  unfold FileTree.find at h
  have hwithin : T.within (permission t (T.inode x) mayExec) x name = .ok i := by
    by_cases hname : name = dotdot
    · simp only [if_pos hname, if_neg hroot, if_neg hmounted] at h
      exact h
    · simp only [if_neg hname] at h
      exact h
  rcases within_ok hwithin with ⟨-, rfl⟩ | ⟨-, hchild⟩
  · rfl
  · unfold FileTree.child at hchild
    rw [if_neg hfile] at hchild
    cases hchild

end Regular

section Changes

variable {ι : Type} [DecidableEq ι] {t : TaskStruct ι} {T T' : FileTree ι} {dir i ino x : ι}
  {name : Name}

theorem setNlink_alike (T : FileTree ι) (i : ι) (k : Nat) : T.Alike (T.setNlink i k) where
  inode j := by
    unfold FileTree.setNlink
    dsimp only
    by_cases hj : j = i
    · subst hj
      rw [Function.update_self]
    · rw [Function.update_of_ne hj]
  linkBlock := rfl
  linkPath := rfl

theorem linked_alike (T : FileTree ι) (i dir : ι) (name : Name) :
    T.Alike (T.linked i dir name) :=
  ⟨(setNlink_alike (T.setEntry dir name (some i)) i _).inode, rfl, rfl⟩

theorem unlinked_alike (T : FileTree ι) (i dir : ι) (name : Name) :
    T.Alike (T.unlinked i dir name) :=
  ⟨(setNlink_alike (T.setEntry dir name none) i _).inode, rfl, rfl⟩

/-- All look-ups are carried over to a tree with more entries. -/
theorem carries_all (halike : T.Alike T')
    (hentry : ∀ d n ino, T.entry d n = some ino → T'.entry d n = some ino) :
    Carries t (fun _ => True) T T' where
  alike := halike
  child := by
    intro d n i hchild _
    obtain ⟨hdir, ino, hino, rfl⟩ := child_ok hchild
    rw [← halike.got_eq]
    exact child_of_entry (halike.isA_eq _ ▸ hdir) (hentry d n ino hino)
  dirs := fun _ => trivial
  plain := fun hbad => absurd trivial hbad
  stuck := fun hbad => absurd trivial hbad

theorem carries_linked (hT : T.Regular) (hnone : T.entry dir name = none) :
    Carries t (fun _ => True) T (T.linked i dir name) := by
  refine carries_all (linked_alike T i dir name) fun d n ino hino => ?_
  show (if d = dir ∧ n.take sNamelen = name.take sNamelen then some i else T.entry d n) = _
  rw [if_neg]
  · exact hino
  · rintro ⟨rfl, hsame⟩
    rw [hT.truncated, hsame, ← hT.truncated, hnone] at hino
    cases hino

/-- The look-ups after an entry was taken away are those that there were. -/
theorem carries_back : Carries t (fun _ => True) (T.unlinked i dir name) T := by
  refine carries_all (unlinked_alike T i dir name).symm fun d n ino hino => ?_
  have hif : (if d = dir ∧ n.take sNamelen = name.take sNamelen then none else T.entry d n) =
      some ino := hino
  split at hif
  · cases hif
  · exact hif

theorem carries_unlinked
    (hentry : ∀ n, n.take sNamelen = name.take sNamelen → T.entry dir n = some ino)
    (hgot : T.got ino = x) (hfile : ¬ T.isA sIfdir x) (hplain : ¬ T.isA sIflnk x)
    (hlookup : ¬ T.has (·.lookup) x) (hroot : x ≠ t.root) (hmounted : ¬ (T.inode x).isMounted) :
    Carries t (fun i => i ≠ x) T (T.unlinked x dir name) where
  alike := unlinked_alike T x dir name
  child := by
    intro d n i hchild hgood
    have halike := unlinked_alike T x dir name
    obtain ⟨hdir, ino', hino, rfl⟩ := child_ok hchild
    rw [← halike.got_eq]
    refine child_of_entry (halike.isA_eq _ ▸ hdir) ?_
    show (if d = dir ∧ n.take sNamelen = name.take sNamelen then none else T.entry d n) = _
    rw [if_neg]
    · exact hino
    · rintro ⟨rfl, hsame⟩
      rw [hentry n hsame] at hino
      obtain rfl := Option.some.inj hino
      exact hgood hgot
  dirs := by
    rintro i hhas rfl
    exact hlookup hhas
  plain := by
    intro i hbad hlink
    obtain rfl := not_not.mp hbad
    exact hplain hlink.2
  stuck := by
    intro d n i hbad hfind hgood
    obtain rfl := not_not.mp hbad
    exact hgood (find_stuck hfile hroot hmounted hfind)

end Changes

section Calls

variable {ι : Type} [DecidableEq ι] {t : TaskStruct ι} {T : FileTree ι} {o d : ι} {n : Name}
  {oldname newname : Path}

theorem Links.oldEntry (hlinks : Links t T oldname newname o d n) :
    ∃ dir name i, T.dirOfPath t oldname = .ok (dir, name) ∧ T.find t dir name = .ok i ∧
      T.follow t linkMax 0 dir i = .ok o := by
  have hold := hlinks.old
  unfold FileTree.namei FileTree.named at hold
  cases hdir : T.dirOfPath t oldname with
  | error e =>
      rw [hdir] at hold
      cases hold
  | ok found =>
      obtain ⟨dir, name⟩ := found
      rw [hdir] at hold
      dsimp only at hold
      cases hfind : T.find t dir name with
      | error e =>
          rw [hfind] at hold
          cases hold
      | ok i =>
          rw [hfind] at hold
          dsimp only at hold
          cases hfollow : T.follow t linkMax 0 dir i with
          | error e =>
              rw [if_pos rfl, hfollow] at hold
              cases hold
          | ok target =>
              rw [if_pos rfl, hfollow] at hold
              dsimp only at hold
              have hcheck : nameiCheck t T .any 0 target = none := rfl
              rw [hcheck] at hold
              obtain rfl := Except.ok.inj hold
              exact ⟨dir, name, i, rfl, hfind, hfollow⟩

theorem Links.checked (hlinks : Links t T oldname newname o d n) :
    n ≠ [] ∧ permission t (T.inode d) (mayWrite ||| mayExec) = none ∧
      ¬ T.isA sIfdir o ∧ T.entry d n = none := by
  have hcheck := hlinks.check
  have herror := hlinks.error
  unfold linkCheck at hcheck
  unfold FileTree.linkError at herror
  have hname : n ≠ [] := by
    intro hnil
    rw [if_pos hnil] at hcheck
    cases hcheck
  rw [if_neg hname] at hcheck
  split at hcheck
  · cases hcheck
  · have hallowed : permission t (T.inode d) (mayWrite ||| mayExec) = none := by
      cases hperm : permission t (T.inode d) (mayWrite ||| mayExec) with
      | none => rfl
      | some e =>
          rw [hperm] at hcheck
          cases hcheck
    have hfile : ¬ T.isA sIfdir o := by
      intro hdir
      rw [if_pos hdir] at herror
      cases herror
    rw [if_neg hfile] at herror
    split at herror
    · cases herror
    · cases hentry : T.entry d n with
      | none => exact ⟨hname, hallowed, hfile, rfl⟩
      | some i =>
          rw [hentry] at herror
          cases herror

/-- The file that the old path names, and its entry. -/
structure OldFile (t : TaskStruct ι) (T : FileTree ι) (oldname : Path) (dir : ι) (name : Name)
    (i : ι) : Prop where
  dirOf : T.dirOfPath t oldname = .ok (dir, name)
  find : T.find t dir name = .ok i
  named : name ≠ []
  ordinary : name ≠ dotdot
  search : permission t (T.inode dir) mayExec = none
  isDir : T.isA sIfdir dir
  unlink : T.has (·.unlink) dir
  entry : ∀ n, n.take sNamelen = name.take sNamelen → T.entry dir n = some i
  self : T.got i = i
  file : ¬ T.isA sIfdir i
  closed : ¬ T.has (·.lookup) i
  root : i ≠ t.root
  unmounted : ¬ (T.inode i).isMounted

variable {dir i : ι} {name : Name}

theorem Links.oldFile (hT : T.Regular) (ht : t.In T) (hlinks : Links t T oldname newname o d n) :
    ∃ dir name i, OldFile t T oldname dir name i ∧ (¬ T.isA sIflnk i → i = o) := by
  obtain ⟨dir, name, i, hdir, hfind, hfollow⟩ := hlinks.oldEntry
  obtain ⟨-, -, hfile, -⟩ := hlinks.checked
  have hsame : ¬ T.isA sIflnk i → i = o := by
    intro hplain
    have hstays : T.follow t linkMax 0 dir i = .ok i := if_pos fun h => hplain h.2
    exact Except.ok.inj (hstays.symm.trans hfollow)
  have hold : ¬ T.isA sIfdir i := by
    by_cases hlink : T.isA sIflnk i
    · exact FileTree.not_dir_of_link hlink
    · exact hsame hlink ▸ hfile
  obtain ⟨hnamed, hordinary, hsearch, hisdir, hentry⟩ :=
    hT.find_file (dirOf_lookup hdir) hfind hold
  refine ⟨dir, name, i, ?_, hsame⟩
  exact
    { dirOf := hdir
      find := hfind
      named := hnamed
      ordinary := hordinary
      search := hsearch
      isDir := hisdir
      unlink := hT.unlink dir hisdir
      entry := fun n hn => by rw [hT.truncated, hn, ← hT.truncated, hentry]
      self := hT.got_self hold
      file := hold
      closed := mt (hT.lookup i).mp hold
      root := fun he => hold (he ▸ ht.root)
      unmounted := mt hT.top hold }

theorem OldFile.linked (hT : T.Regular) (hold : OldFile t T oldname dir name i)
    (hlinks : Links t T oldname newname o d n) : OldFile t (T.linked o d n) oldname dir name i := by
  obtain ⟨-, -, -, hnone⟩ := hlinks.checked
  have hcarries := carries_linked (t := t) (i := o) hT hnone
  have halike := hcarries.alike
  exact
    { dirOf := hcarries.dirOfPath hold.dirOf
      find := hcarries.find hold.find trivial
      named := hold.named
      ordinary := hold.ordinary
      search := (halike.permission_eq _).trans hold.search
      isDir := (halike.isA_eq _).trans hold.isDir
      unlink := (halike.has_eq _).trans hold.unlink
      entry := fun n' hn' => by
        show (if dir = d ∧ n'.take sNamelen = n.take sNamelen then some o
          else T.entry dir n') = _
        rw [if_neg]
        · exact hold.entry n' hn'
        · rintro ⟨rfl, hsame⟩
          have hentry := hold.entry n' hn'
          rw [hT.truncated, hsame, ← hT.truncated, hnone] at hentry
          cases hentry
      self := halike.got_eq.trans hold.self
      file := halike.isA_eq sIfdir ▸ hold.file
      closed := halike.has_eq (·.lookup) ▸ hold.closed
      root := hold.root
      unmounted := by
        rw [halike.inode i]
        exact hold.unmounted }

theorem OldFile.unlinks (hold : OldFile t T oldname dir name i)
    (hallowed : permission t (T.inode dir) (mayWrite ||| mayExec) = none)
    (howned : sticky t (T.inode dir) (T.inode i) = false) :
    Unlinks t T oldname dir name i where
  dirOf := hold.dirOf
  named := hold.named
  allowed := hallowed
  unlink := hold.unlink
  entry := hold.entry name rfl
  file := hold.self.symm ▸ hold.file
  owned := hold.self.symm ▸ howned

theorem OldFile.of_unlinks (hold : OldFile t T oldname dir name i) {d' ino : ι} {n' : Name}
    (h : Unlinks t T oldname d' n' ino) : d' = dir ∧ n' = name ∧ ino = i := by
  obtain ⟨rfl, rfl⟩ := Prod.mk.inj (Except.ok.inj (h.dirOf.symm.trans hold.dirOf))
  exact ⟨rfl, rfl, Option.some.inj (h.entry.symm.trans (hold.entry n' rfl))⟩

theorem OldFile.carries (hold : OldFile t T oldname dir name i) (hplain : ¬ T.isA sIflnk i) :
    Carries t (fun j => j ≠ i) T (T.unlinked i dir name) :=
  carries_unlinked hold.entry hold.self hold.file hplain hold.closed hold.root hold.unmounted

theorem OldFile.gone (hold : OldFile t T oldname dir name i) (hplain : ¬ T.isA sIflnk i)
    (j : ι) : ¬ (T.unlinked i dir name).Names t oldname j := by
  have hcarries := hold.carries hplain
  have hdir := hcarries.dirOfPath hold.dirOf
  have halike := hcarries.alike
  have hnone : (T.unlinked i dir name).entry dir name = none := if_pos ⟨rfl, rfl⟩
  intro hnames
  unfold FileTree.Names FileTree.named at hnames
  rw [hdir] at hnames
  dsimp only at hnames
  have hfind : (T.unlinked i dir name).find t dir name = .error .enoent := by
    unfold FileTree.find FileTree.within FileTree.child
    rw [halike.permission_eq, hold.search]
    simp only [if_neg hold.ordinary, if_neg hold.named]
    rw [halike.isA_eq, if_pos hold.isDir, hnone]
  rw [hfind] at hnames
  cases hnames

theorem names_of_entry (hdir : T.dirOfPath t newname = .ok (d, n)) (hname : n ≠ [])
    (hordinary : n ≠ dotdot) (hsearch : permission t (T.inode d) mayExec = none)
    (hisdir : T.isA sIfdir d) (hentry : T.entry d n = some o) (hself : T.got o = o) :
    T.Names t newname o := by
  have hfind : T.find t d n = .ok o := by
    unfold FileTree.find FileTree.within
    rw [hsearch]
    simp only [if_neg hordinary, if_neg hname]
    rw [child_of_entry hisdir hentry, hself]
  unfold FileTree.Names FileTree.named
  rw [hdir]
  dsimp only
  rw [hfind]
  rfl

theorem Links.newNames (hT : T.Regular) (hlinks : Links t T oldname newname o d n) :
    (T.linked o d n).Names t newname o ∧
      ∀ {i dir name}, OldFile t T oldname dir name i → ¬ T.isA sIflnk i →
        ((T.linked o d n).unlinked i dir name).Names t newname o := by
  obtain ⟨hname, hallowed, hfile, hnone⟩ := hlinks.checked
  have hcarries := carries_linked (t := t) (i := o) hT hnone
  have halike := hcarries.alike
  have hisdir : T.isA sIfdir d := (hT.lookup d).mp (dirOf_lookup hlinks.new)
  have hordinary : n ≠ dotdot := by
    rintro rfl
    obtain ⟨p, hp, -⟩ := hT.parent d hisdir
    rw [hnone] at hp
    cases hp
  have hentry : (T.linked o d n).entry d n = some o := if_pos ⟨rfl, rfl⟩
  constructor
  · exact names_of_entry (hcarries.dirOfPath hlinks.new) hname hordinary
      ((halike.permission_eq _).trans (permission_search hallowed))
      ((halike.isA_eq _).trans hisdir) hentry (halike.got_eq.trans (hT.got_self hfile))
  · intro i dir name hold hplain
    have hcarries' := (hold.linked hT hlinks).carries (halike.isA_eq sIflnk ▸ hplain)
    have halike' := halike.trans hcarries'.alike
    refine names_of_entry (hcarries'.dirOfPath (hcarries.dirOfPath hlinks.new)) hname hordinary
      ((halike'.permission_eq _).trans (permission_search hallowed))
      ((halike'.isA_eq _).trans hisdir) ?_ (halike'.got_eq.trans (hT.got_self hfile))
    show (if d = dir ∧ n.take sNamelen = name.take sNamelen then none
      else (T.linked o d n).entry d n) = _
    rw [if_neg]
    · exact hentry
    · rintro ⟨rfl, hsame⟩
      have hsome := hold.entry n hsame
      rw [hnone] at hsome
      cases hsome

theorem linked_touched : ¬ Untouched T (T.linked o d n) := by
  intro h
  have hcount := h.2 o
  unfold FileTree.linked FileTree.setNlink at hcount
  dsimp only at hcount
  rw [Function.update_self] at hcount
  exact absurd hcount (Nat.succ_ne_self _)

theorem untouched_self : Untouched T T :=
  ⟨fun _ _ _ => rfl, fun _ => rfl⟩

theorem OldFile.names (hold : OldFile t T oldname dir name i) : T.Names t oldname i := by
  unfold FileTree.Names FileTree.named
  rw [hold.dirOf]
  dsimp only
  rw [hold.find]
  rfl

theorem Links.moved_iff (hT : T.Regular) (hlinks : Links t T oldname newname o d n)
    (hold : OldFile t T oldname dir name i) (hsame : ¬ T.isA sIflnk i → i = o) :
    Moved t oldname newname T ((T.linked o d n).unlinked i dir name) ↔ ¬ T.isA sIflnk i := by
  obtain ⟨hnew, hnew'⟩ := hlinks.newNames hT
  obtain ⟨hname, hallowed, hfile, hnone⟩ := hlinks.checked
  have halike := linked_alike T o d n
  constructor
  · rintro ⟨j, hj, hj', -⟩ hlink
    obtain rfl := Except.ok.inj (hj.symm.trans hold.names)
    -- the new name names what the link leads to, which is no link
    have hback := carries_back.named hj' trivial
    obtain rfl := Except.ok.inj (hback.symm.trans hnew)
    obtain ⟨dir', name', i', -, -, hfollow⟩ := hlinks.oldEntry
    exact hT.follow_plain linkMax hfollow hlink
  · intro hplain
    refine ⟨i, hold.names, ?_, ?_⟩
    · have hnames := hnew' hold hplain
      rw [← hsame hplain] at hnames ⊢
      exact hnames
    · exact (hold.linked hT hlinks).gone (halike.isA_eq sIflnk ▸ hplain)

/-- A call of `rename` that returns is atomic exactly if no link is made, or the old name
is no symbolic link and the task may take it out of its directory. -/
theorem sysRename_atomic_iff
    (hT : T.Regular)
    (ht : t.In T)
    {c c' : ι → ℕ}
    {r : Option Errno × FileTree ι}
    (hrun : sysRenameIn t T oldname newname c = .ok (r, c')) :
    Atomic t oldname newname T r ↔
      (∀ o d n, ¬ Links t T oldname newname o d n) ∨
        ∃ dir name i, Removable t T oldname dir name i := by
  rcases sysRenameIn_run hrun with ⟨e, rfl, hnone⟩ | ⟨o, d, n, hlinks, hunlink⟩
  · exact iff_of_true untouched_self (Or.inl hnone)
  · obtain ⟨dir, name, i, hold, hsame⟩ := hlinks.oldFile hT ht
    have halike := linked_alike T o d n
    have hold' := hold.linked hT hlinks
    have hsticky : sticky t ((T.linked o d n).inode dir) ((T.linked o d n).inode i) =
        sticky t (T.inode dir) (T.inode i) := by
      rw [halike.inode dir, halike.inode i]
      rfl
    have hremovable : (∃ dir name i, Removable t T oldname dir name i) ↔
        Removable t T oldname dir name i := by
      refine ⟨?_, fun h => ⟨dir, name, i, h⟩⟩
      rintro ⟨dir', name', i', h⟩
      obtain ⟨rfl, rfl⟩ := Prod.mk.inj (Except.ok.inj (h.dirOf.symm.trans hold.dirOf))
      obtain rfl := Except.ok.inj (h.find.symm.trans hold.find)
      exact h
    rw [hremovable]
    rcases hunlink with ⟨d', n', ino, hunlinks, rfl⟩ | ⟨e, rfl, hrefused⟩
    · obtain ⟨rfl, rfl, rfl⟩ := hold'.of_unlinks hunlinks
      have hmoved := hlinks.moved_iff hT hold hsame
      rw [hold'.self]
      have hallowed := (halike.permission_eq (t := t) (i := d') _).symm.trans hunlinks.allowed
      have howned := hunlinks.owned
      rw [hold'.self, hsticky] at howned
      constructor
      · intro hatomic
        exact Or.inr ⟨hold.dirOf, hold.find, hmoved.mp hatomic, hallowed, howned⟩
      · rintro (hnone | hremove)
        · exact absurd hlinks (hnone o d n)
        · exact hmoved.mpr hremove.plain
    · refine iff_of_false linked_touched ?_
      rintro (hnone | hremove)
      · exact hnone o d n hlinks
      · refine hrefused dir name i (hold'.unlinks ?_ ?_)
        · rw [halike.permission_eq]
          exact hremove.allowed
        · rw [hsticky]
          exact hremove.owned

end Calls

section Trees

/-- A root directory that everyone may write, with one file, `a`, of someone else; the
sticky bit is set or not. -/
def oneFile (isSticky : Bool) : FileTree (Fin 2) where
  inode i :=
    { iMode :=
        if i = 0 then (if isSticky then sIfdir ||| 0o1777 else sIfdir ||| 0o777)
        else sIfreg ||| 0o644
      iUid := if i = 0 then 0 else 2
      iGid := 0
      iNlink := if i = 0 then 2 else 1
      iIno := i + 1
      iDev := 0x100
      iOp := some (if i = 0 then minixDirInodeOperations else minixFileInodeOperations)
      iMount := none
      isMounted := i = 0
      sCovered := none
      isRdonly := false
      isNodev := false }
  entry dir name :=
    if dir = 0 then
      if name.take sNamelen = dot ∨ name.take sNamelen = dotdot then some 0
      else if name.take sNamelen = [97] then some 1
      else none
    else none
  linkBlock _ := none
  linkPath _ := []
  unused _ := none
  unused_zero _ _ h := nomatch h
  freeIno := true
  freeZone := true
  addEntry _ _ := none
  emptyDir _ := true
  fopOpen _ := none
  load _ := some .enoexec

/-- An ordinary task in the root directory. -/
def plainTask : TaskStruct (Fin 2) where
  root := 0
  pwd := 0
  uid := 1
  gid := 1
  euid := 1
  egid := 1
  emptyFilp := true
  unusedFd := true
  closeOnExec := []

theorem oneFile_regular (isSticky : Bool) : (oneFile isSticky).Regular where
  truncated dir name := by
    show (if dir = 0 then _ else none) = (if dir = 0 then _ else none)
    rw [List.take_take, Nat.min_self]
  lookup := by cases isSticky <;> decide
  unlink := by cases isSticky <;> decide
  followLink := by cases isSticky <;> decide
  parent := by cases isSticky <;> decide
  mountedOn h := nomatch h
  mounted h := nomatch h
  top {i} h := by
    have hroot : i = 0 := of_decide_eq_true h
    subst hroot
    cases isSticky <;> decide

theorem plainTask_in (isSticky : Bool) : plainTask.In (oneFile isSticky) := by
  cases isSticky <;> exact ⟨by decide, by decide⟩

theorem run_of_reply {ι : Type} {m : Walk ι (Option Errno × FileTree ι)} {c : ι → ℕ}
    {e : Option Errno} (h : ((m c).toOption.map fun r => r.1.1) = some e) :
    ∃ T' c', m c = .ok ((e, T'), c') := by
  cases hm : m c with
  | error e =>
      rw [hm] at h
      cases h
  | ok result =>
      obtain ⟨⟨e', T'⟩, c'⟩ := result
      rw [hm] at h
      obtain rfl := Option.some.inj h
      exact ⟨T', c', rfl⟩

theorem rename_removable : Removable plainTask (oneFile false) [slash, 97] 0 [97] 1 :=
  ⟨rfl, rfl, by decide, rfl, rfl⟩

/-- `rename("/a", "/b")`. -/
theorem sysRename_atomic_plain :
    ∃ T' c', sysRenameIn plainTask (oneFile false) [slash, 97] [slash, 98] (fun _ => 2) =
      .ok ((none, T'), c') ∧
        Atomic plainTask [slash, 97] [slash, 98] (oneFile false) (none, T') := by
  obtain ⟨T', c', hrun⟩ := run_of_reply (e := none) (c := fun _ => 2)
    (m := sysRenameIn plainTask (oneFile false) [slash, 97] [slash, 98]) (by decide +kernel)
  refine ⟨T', c', hrun, ?_⟩
  exact (sysRename_atomic_iff (oneFile_regular false) (plainTask_in false) hrun).mpr
    (Or.inr ⟨0, [97], 1, rename_removable⟩)

/-- The same in a directory with the sticky bit. -/
theorem stickyDirectory_not_atomic :
    ∃ T' c', sysRenameIn plainTask (oneFile true) [slash, 97] [slash, 98] (fun _ => 2) =
      .ok ((some .eperm, T'), c') ∧
        ¬ Atomic plainTask [slash, 97] [slash, 98] (oneFile true) (some .eperm, T') := by
  obtain ⟨T', c', hrun⟩ := run_of_reply (e := some .eperm) (c := fun _ => 2)
    (m := sysRenameIn plainTask (oneFile true) [slash, 97] [slash, 98]) (by decide +kernel)
  refine ⟨T', c', hrun, ?_⟩
  have hlinks : Links plainTask (oneFile true) [slash, 97] [slash, 98] 1 0 [98] :=
    ⟨rfl, rfl, rfl, rfl⟩
  rcases sysRenameIn_run hrun with ⟨e, -, hnone⟩ | ⟨o, d, n, -, ⟨_, _, _, -, h⟩ | ⟨e, h, -⟩⟩
  · exact absurd hlinks (hnone 1 0 [98])
  · cases h
  · obtain ⟨-, rfl⟩ := Prod.mk.inj h
    exact linked_touched

end Trees

end Namei
end Elks
