import Elks.Vfs.Namei

/-!
# Look-ups in a tree that was changed (fs/namei.c)

Two trees that differ in some entries and in link counts.  A look-up in the one that
is successful is so in the other, if the inode that it leads to is one of the good
ones, no way leads from the others back to these, and names for the good ones are
carried over.

* `Carries.follow`, `Carries.dirOfPath`, `Carries.named`: the look-ups of a path, by
  induction on the links that may be followed and on the names of the path.
-/

namespace Elks
namespace Namei

open Lib
open Minix

section Alike

variable {ι : Type} {T T' : FileTree ι} {t : TaskStruct ι} {i : ι}

/-- The trees have the same inodes but for their link counts, and the same links. -/
structure FileTree.Alike (T T' : FileTree ι) : Prop where
  inode : ∀ i, T'.inode i = { T.inode i with iNlink := (T'.inode i).iNlink }
  linkBlock : T'.linkBlock = T.linkBlock
  linkPath : T'.linkPath = T.linkPath

theorem FileTree.Alike.permission_eq (h : T.Alike T') (mask : Nat) :
    permission t (T'.inode i) mask = permission t (T.inode i) mask := by
  rw [h.inode i]
  rfl

theorem FileTree.Alike.has_eq (h : T.Alike T') (op : InodeOperations → Bool) :
    T'.has op i = T.has op i := by
  unfold FileTree.has
  rw [h.inode i]

theorem FileTree.Alike.isA_eq (h : T.Alike T') (format : Nat) :
    T'.isA format i = T.isA format i := by
  unfold FileTree.isA
  rw [h.inode i]

theorem FileTree.Alike.got_eq (h : T.Alike T') : T'.got i = T.got i := by
  unfold FileTree.got
  rw [h.inode i]

theorem FileTree.Alike.openCheck_eq (h : T.Alike T') (flag : Nat) :
    openCheck t T' flag i = openCheck t T flag i := by
  unfold openCheck
  rw [h.isA_eq, h.isA_eq, h.isA_eq, h.permission_eq, h.inode i]

theorem FileTree.Alike.symm (h : T.Alike T') : T'.Alike T where
  inode i := by
    rw [h.inode i]
  linkBlock := h.linkBlock.symm
  linkPath := h.linkPath.symm

theorem FileTree.Alike.trans {T'' : FileTree ι} (h : T.Alike T') (h' : T'.Alike T'') :
    T.Alike T'' where
  inode i := by
    rw [h'.inode i, h.inode i]
  linkBlock := h'.linkBlock.trans h.linkBlock
  linkPath := h'.linkPath.trans h.linkPath

end Alike

section Carries

variable {ι : Type} [DecidableEq ι] {T T' : FileTree ι} {t : TaskStruct ι} {good : ι → Prop}
  {dir base inode i : ι} {name : Name} {path : Path} {links flag : Nat}

/-- What is found in `T` is found in `T'`, if it is good. -/
structure Carries (t : TaskStruct ι) (good : ι → Prop) (T T' : FileTree ι) : Prop where
  alike : T.Alike T'
  child : ∀ {dir name i}, T.child dir name = .ok i → good i → T'.child dir name = .ok i
  dirs : ∀ {i}, T.has (·.lookup) i → good i
  plain : ∀ {i}, ¬ good i → ¬ (T.has (·.followLink) i ∧ T.isA sIflnk i)
  stuck : ∀ {dir name i}, ¬ good dir → T.find t dir name = .ok i → ¬ good i

namespace Carries

theorem within (h : Carries t good T T') {perm : Option Errno}
    (hfind : T.within perm dir name = .ok i) (hgood : good i) :
    T'.within perm dir name = .ok i := by
  unfold FileTree.within at hfind ⊢
  cases perm with
  | some perm => exact hfind
  | none =>
      by_cases hname : name = []
      · simp only [if_pos hname] at hfind ⊢
        exact hfind
      · simp only [if_neg hname] at hfind ⊢
        exact h.child hfind hgood

theorem find (h : Carries t good T T') (hfind : T.find t dir name = .ok i) (hgood : good i) :
    T'.find t dir name = .ok i := by
  have hmounted : (T'.inode dir).isMounted = (T.inode dir).isMounted := by
    rw [h.alike.inode dir]
  have hcovered : (T'.inode dir).sCovered = (T.inode dir).sCovered := by
    rw [h.alike.inode dir]
  unfold FileTree.find at hfind ⊢
  simp only [h.alike.permission_eq, hmounted, hcovered]
  by_cases hname : name = dotdot
  · simp only [if_pos hname] at hfind ⊢
    by_cases hroot : dir = t.root
    · simp only [if_pos hroot] at hfind ⊢
      exact hfind
    · simp only [if_neg hroot] at hfind ⊢
      by_cases hmount : (T.inode dir).isMounted
      · simp only [if_pos hmount] at hfind ⊢
        cases hsome : (T.inode dir).sCovered with
        | none =>
            rw [hsome] at hfind
            cases hfind
        | some covered =>
            rw [hsome] at hfind
            exact h.within hfind hgood
      · simp only [if_neg hmount] at hfind ⊢
        exact h.within hfind hgood
  · simp only [if_neg hname] at hfind ⊢
    exact h.within hfind hgood

/-- What `follow` does in `T` to good inodes, it does in `T'`. -/
def Keeps (good : ι → Prop) (follow follow' : ι → ι → Except Errno ι) : Prop :=
  ∀ {dir inode i}, follow dir inode = .ok i → good i → follow' dir inode = .ok i

/-- What is no link is not followed. -/
def Stays (good : ι → Prop) (follow : ι → ι → Except Errno ι) : Prop :=
  ∀ {dir inode}, ¬ good inode → follow dir inode = .ok inode

theorem descend_stuck (h : Carries t good T T') {follow : ι → ι → Except Errno ι}
    (hstays : Stays good follow) {names : List Name} :
    ∀ {base}, ¬ good base → T.descend t follow names base = .ok dir → ¬ good dir := by
  induction names with
  | nil =>
      intro base hbad hdescend
      obtain rfl := Except.ok.inj hdescend
      exact hbad
  | cons name rest ih =>
      intro base hbad hdescend
      unfold FileTree.descend at hdescend
      cases hfind : T.find t base name with
      | error e =>
          rw [hfind] at hdescend
          cases hdescend
      | ok inode =>
          have hinode := h.stuck hbad hfind
          rw [hfind] at hdescend
          dsimp only at hdescend
          rw [hstays hinode] at hdescend
          exact ih hinode hdescend

theorem descend (h : Carries t good T T') {follow follow' : ι → ι → Except Errno ι}
    (hkeeps : Keeps good follow follow') (hstays : Stays good follow) {names : List Name} :
    ∀ {base}, T.descend t follow names base = .ok dir → good dir →
      T'.descend t follow' names base = .ok dir := by
  induction names with
  | nil =>
      intro base hdescend _
      exact hdescend
  | cons name rest ih =>
      intro base hdescend hgood
      unfold FileTree.descend at hdescend ⊢
      cases hfind : T.find t base name with
      | error e =>
          rw [hfind] at hdescend
          cases hdescend
      | ok inode =>
          rw [hfind] at hdescend
          dsimp only at hdescend
          cases hnext : follow base inode with
          | error e =>
              rw [hnext] at hdescend
              cases hdescend
          | ok next =>
              rw [hnext] at hdescend
              dsimp only at hdescend
              -- no way leads on to a good directory from an inode that is not good
              have hgoodNext : good next := by
                by_contra hbad
                exact h.descend_stuck hstays hbad hdescend hgood
              have hgoodInode : good inode := by
                by_contra hbad
                rw [hstays hbad] at hnext
                exact hbad (Except.ok.inj hnext ▸ hgoodNext)
              rw [h.find hfind hgoodInode]
              dsimp only
              rw [hkeeps hnext hgoodNext]
              exact ih hdescend hgood

theorem dirOf (h : Carries t good T T') {follow follow' : ι → ι → Except Errno ι}
    (hkeeps : Keeps good follow follow') (hstays : Stays good follow)
    (hdir : T.dirOf t follow path base = .ok (dir, name)) :
    T'.dirOf t follow' path base = .ok (dir, name) := by
  unfold FileTree.dirOf at hdir ⊢
  dsimp only at hdir ⊢
  split at hdir
  · cases hdir
  · rename_i d hdescend
    split at hdir
    · rename_i hlookup
      obtain ⟨rfl, rfl⟩ := Prod.mk.inj (Except.ok.inj hdir)
      rw [h.descend hkeeps hstays hdescend (h.dirs hlookup)]
      dsimp only
      rw [h.alike.has_eq, if_pos hlookup]
    · cases hdir

theorem openIn (h : Carries t good T T') {follow follow' : Nat → ι → ι → Except Errno ι}
    (hkeeps : ∀ flag, Keeps good (follow flag) (follow' flag))
    (hstays : ∀ flag, Stays good (follow flag))
    (hopen : T.openIn t follow path flag base = .ok i) (hgood : good i) :
    T'.openIn t follow' path flag base = .ok i := by
  unfold FileTree.openIn at hopen ⊢
  cases hdir : T.dirOf t (follow 0) path base with
  | error e =>
      rw [hdir] at hopen
      cases hopen
  | ok found =>
      obtain ⟨dir, name⟩ := found
      rw [hdir] at hopen
      rw [h.dirOf (hkeeps 0) (hstays 0) hdir]
      dsimp only at hopen ⊢
      rw [h.alike.permission_eq]
      split
      · rename_i hname
        rw [if_pos hname] at hopen
        exact hopen
      · rename_i hname
        rw [if_neg hname] at hopen
        cases hfind : T.find t dir name with
        | error e =>
            rw [hfind] at hopen
            cases hopen
        | ok inode =>
            rw [hfind] at hopen
            dsimp only at hopen
            cases hnext : follow flag dir inode with
            | error e =>
                rw [hnext] at hopen
                cases hopen
            | ok next =>
                rw [hnext] at hopen
                dsimp only at hopen
                cases hcheck : openCheck t T flag next with
                | some e =>
                    rw [hcheck] at hopen
                    cases hopen
                | none =>
                    rw [hcheck] at hopen
                    obtain rfl := Except.ok.inj hopen
                    have hgoodInode : good inode := by
                      by_contra hbad
                      rw [hstays flag hbad] at hnext
                      exact hbad (Except.ok.inj hnext ▸ hgood)
                    rw [h.find hfind hgoodInode]
                    dsimp only
                    rw [hkeeps flag hnext hgood]
                    dsimp only
                    rw [h.alike.openCheck_eq, hcheck]

theorem follow_stays (h : Carries t good T T') : Stays good (T.follow t links flag) := by
  intro dir inode hbad
  cases links with
  | zero => exact if_pos (h.plain hbad)
  | succ links => exact if_pos (h.plain hbad)

theorem follow (h : Carries t good T T') (links : Nat) :
    ∀ flag, Keeps good (T.follow t links flag) (T'.follow t links flag) := by
  induction links with
  | zero =>
      intro flag dir inode i hfollow _
      unfold FileTree.follow at hfollow ⊢
      rw [h.alike.has_eq, h.alike.isA_eq]
      exact hfollow
  | succ links ih =>
      intro flag dir inode i hfollow hgood
      unfold FileTree.follow at hfollow ⊢
      rw [h.alike.has_eq, h.alike.isA_eq, h.alike.linkBlock, h.alike.linkPath]
      split
      · rename_i hplain
        rw [if_pos hplain] at hfollow
        exact hfollow
      · rename_i hlink
        rw [if_neg hlink] at hfollow
        cases hblock : T.linkBlock inode with
        | none =>
            rw [hblock] at hfollow
            cases hfollow
        | some block =>
            rw [hblock] at hfollow
            exact h.openIn ih (fun flag => h.follow_stays) hfollow hgood

theorem dirOfPath (h : Carries t good T T') (hdir : T.dirOfPath t path = .ok (dir, name)) :
    T'.dirOfPath t path = .ok (dir, name) :=
  h.dirOf (h.follow linkMax 0) h.follow_stays hdir

theorem named (h : Carries t good T T') (hnamed : T.named t path false = .ok i) (hgood : good i) :
    T'.named t path false = .ok i := by
  unfold FileTree.named at hnamed ⊢
  cases hdir : T.dirOfPath t path with
  | error e =>
      rw [hdir] at hnamed
      cases hnamed
  | ok found =>
      obtain ⟨dir, name⟩ := found
      rw [hdir] at hnamed
      rw [h.dirOfPath hdir]
      dsimp only at hnamed ⊢
      cases hfind : T.find t dir name with
      | error e =>
          rw [hfind] at hnamed
          cases hnamed
      | ok inode =>
          rw [hfind] at hnamed
          obtain rfl := Except.ok.inj hnamed
          rw [h.find hfind hgood]
          rfl

end Carries

end Carries

end Namei
end Elks
