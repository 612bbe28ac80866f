import Elks.Vfs.InodeList
import Mathlib.Algebra.BigOperators.Fin
import Mathlib.Logic.Relation

/-!
# The mount table (fs/super.c, fs/inode.c)

A mounted device has an entry of `super_blocks`, which points to the directory it covers and to
its own root; the directory points to that root.  The entry holds a reference to either inode.

`do_mount` gets the directory from `namei` and `do_umount` the device, and either may be refused
at several places.  In between tasks look inodes up and put them back; `held` counts their
references.  An `iput` of the last reference is that of a Minix file system.

**Result.**  `mounts_sound`: from `mount_root` on every run keeps the two sides of every mount
together, and every count is that of the references.
-/

namespace Elks
namespace Vfs

open Lib
open Function (update update_apply update_eq_self update_of_ne update_self)

section Code

/-- The part of `struct super_block` that mounting goes by. -/
structure MountEntry where
  sDev : Nat
  sCovered : Option InodeRef
  sMounted : Option InodeRef
deriving DecidableEq

/-- `super_blocks` and the inodes. -/
structure Mounts where
  super : Fin nrSuper → MountEntry
  inode : InodeRef → Inode

namespace Mounts

variable (s : Mounts)

def setSuper (k : Fin nrSuper) (e : MountEntry) : Mounts :=
  { s with super := update s.super k e }

def modInode (i : InodeRef) (f : Inode → Inode) : Mounts :=
  { s with inode := update s.inode i (f (s.inode i)) }

/-- Entry `k` and the directory it covers are given what they keep of a mount. -/
def link (k : Fin nrSuper) (e : MountEntry) (d : InodeRef) (o : Option InodeRef) : Mounts :=
  (s.setSuper k e).modInode d fun i => { i with iMount := o }

/-- `get_super`. -/
def getSuper (dev : Nat) : Option (Fin nrSuper) :=
  if dev = 0 then none else (List.finRange nrSuper).find? fun k => (s.super k).sDev = dev

/-- What the last `iput` leaves: `minix_put_inode` clears an inode without links, and another
one is written. -/
def released (d : Inode) : Inode :=
  if d.iSb ≠ none ∧ d.iNlink = 0 then Inode.zero else { d with iCount := 0, iDirt := false }

/-- `iput`. -/
def iput (i : InodeRef) : Mounts :=
  if (s.inode i).iCount = 0 then s
  else s.modInode i fun d =>
    if 1 < d.iCount then { d with iCount := d.iCount - 1 } else released d

/-- An unused inode that `__iget` has taken and read. -/
def claimed (k : Fin nrSuper) (dev inr nlink : Nat) : Inode :=
  { Inode.zero with iDev := dev, iIno := inr, iCount := 1, iNlink := nlink, iSb := some k }

/-- `__iget`; it waits if there is no free inode. -/
def iget (k : Fin nrSuper) (inr nlink : Nat) : Option (InodeRef × Mounts) :=
  let grab (d : Inode) : Inode := { d with iCount := wrap 16 (d.iCount + 1) }
  match (List.finRange nrInode).find? fun i =>
      (s.inode i).iDev = (s.super k).sDev ∧ (s.inode i).iIno = inr with
  | some i =>
      match (s.inode i).iMount with
      | some m => some (m, ((s.modInode i grab).modInode m grab).iput i)
      | none => some (i, s.modInode i grab)
  | none =>
      ((List.finRange nrInode).find? fun i =>
          (s.inode i).iCount = 0 ∧ ¬ (s.inode i).iLock ∧ ¬ (s.inode i).iDirt).map fun i =>
        (i, s.modInode i fun _ => claimed k (s.super k).sDev inr nlink)

/-- The loop of `fs_may_mount` over the list of the inodes. -/
def fsMayMount (dev : Nat) : List InodeRef → Mounts → Bool × Mounts
  | [], s => (true, s)
  | i :: l, s =>
      if (s.inode i).iDev ≠ dev then fsMayMount dev l s
      else if (s.inode i).iCount ≠ 0 ∨ (s.inode i).iDirt ∨ (s.inode i).iLock then (false, s)
      else fsMayMount dev l (s.modInode i fun _ => Inode.zero)

/-- `read_super`; `good` says whether the file system takes the device. -/
def readSuper (dev : Nat) (good : Bool) (nlink : Nat) :
    Option (Option (Fin nrSuper) × Mounts) :=
  if dev = 0 then some (none, s)
  else
    match s.getSuper dev with
    | some k => some (some k, s)
    | none =>
        match (List.finRange nrSuper).find? fun k => (s.super k).sDev = 0 with
        | none => some (none, s)
        | some k =>
            let s' := s.setSuper k { s.super k with sDev := dev }
            if good then
              (s'.iget k 1 nlink).map fun r => (some k, r.2.setSuper k ⟨dev, none, some r.1⟩)
            else some (none, s'.setSuper k { s.super k with sDev := 0 })

/-- `do_mount` on the directory that `namei` has found. -/
def doMount (order : List InodeRef) (dirp : InodeRef) (dev : Nat) (good : Bool) (nlink : Nat) :
    Option (Int × Mounts) :=
  if (s.inode dirp).iCount ≠ 1 ∨ (s.inode dirp).iMount ≠ none then some (-16, s.iput dirp)
  else
    let may := fsMayMount dev order s
    if may.1 = false then some (-16, may.2.iput dirp)
    else
      (may.2.readSuper dev good nlink).map fun r =>
        match r.1 with
        | none => (-22, r.2.iput dirp)
        | some k =>
            if (r.2.super k).sCovered ≠ none then (-16, r.2.iput dirp)
            else
              (0, r.2.link k { r.2.super k with sCovered := some dirp } dirp
                (r.2.super k).sMounted)

/-- `put_super`, and `minix_put_super`. -/
def putSuper (dev : Nat) : Mounts :=
  match s.getSuper dev with
  | none => s
  | some k =>
      if (s.super k).sCovered ≠ none then s else s.setSuper k { s.super k with sDev := 0 }

/-- What `fs_may_umount` answers after a walk through every inode. -/
def MayUmount (dev : Nat) (mountRooti : Option InodeRef) : Prop :=
  ∀ i, (s.inode i).iDev = dev → 0 < (s.inode i).iCount →
    mountRooti = some i ∧ (s.inode i).iCount = 1

instance (dev : Nat) (mountRooti : Option InodeRef) : Decidable (s.MayUmount dev mountRooti) :=
  inferInstanceAs (Decidable (∀ _, _ → _ → _))

/-- `mount_root`, at the start of the kernel. -/
def mountRoot (dev nlink : Nat) : Option (Fin nrSuper × InodeRef × Mounts) :=
  match s.readSuper dev true nlink with
  | some (some k, s) =>
      (s.super k).sMounted.map fun i =>
        (k, i, (s.modInode i fun d => { d with iCount := d.iCount + 3 }).setSuper k
          { s.super k with sCovered := some i })
  | _ => none

end Mounts

end Code

section Property

/-- The references that an entry holds to an inode. -/
def MountEntry.refs (e : MountEntry) (i : InodeRef) : Nat :=
  if e.sDev = 0 then 0
  else (if e.sCovered = some i then 1 else 0) + if e.sMounted = some i then 1 else 0

def Mounts.refs (s : Mounts) (i : InodeRef) : Nat :=
  ∑ k, (s.super k).refs i

/-- The root `m` of the device of entry `k` is mounted on `d`. -/
structure Mounts.Joins (s : Mounts) (k : Fin nrSuper) (d m : InodeRef) : Prop where
  sDev : (s.super k).sDev ≠ 0
  sCovered : (s.super k).sCovered = some d
  sMounted : (s.super k).sMounted = some m
  iMount : (s.inode d).iMount = some m
  inside : (s.inode m).iDev = (s.super k).sDev
  outside : (s.inode d).iDev ≠ (s.super k).sDev

/-- The mount table is sound, with `root` for the entry of `ROOT_DEV`. -/
structure Mounts.Sound (s : Mounts) (root : Fin nrSuper) (held : InodeRef → Nat) : Prop where
  counts : ∀ i, (s.inode i).iCount = held i + s.refs i
  distinct : ∀ k k', (s.super k).sDev ≠ 0 → (s.super k).sDev = (s.super k').sDev → k = k'
  mounted : ∀ k ≠ root, (s.super k).sDev ≠ 0 → ∃ d m, s.Joins k d m
  covered : ∀ d m, (s.inode d).iMount = some m → ∃ k ≠ root, s.Joins k d m
  rooted : ∃ i, s.super root = ⟨(s.inode i).iDev, some i, some i⟩ ∧ (s.inode i).iDev ≠ 0

end Property

namespace Mounts

section Inodes

variable {s s' s₁ : Mounts} {root k : Fin nrSuper} {held held' : InodeRef → Nat}
  {i j d m : InodeRef} {f : Inode → Inode} {dev n : Nat} {order : List InodeRef}

@[simp] theorem modInode_self : (s.modInode i f).inode i = f (s.inode i) :=
  update_self ..

theorem modInode_ne (h : j ≠ i) : (s.modInode i f).inode j = s.inode j :=
  update_of_ne h ..

theorem iput_super : (s.iput i).super = s.super := by
  unfold iput
  split <;> rfl

theorem iput_ne (h : j ≠ i) : (s.iput i).inode j = s.inode j := by
  unfold iput
  split
  · rfl
  · exact modInode_ne h

theorem iput_self (i : InodeRef) :
    ((s.iput i).inode i).iCount = (s.inode i).iCount - 1 ∧
      if 1 < (s.inode i).iCount then
        ((s.iput i).inode i).iDev = (s.inode i).iDev ∧
          ((s.iput i).inode i).iMount = (s.inode i).iMount
      else (s.inode i).iMount = none → ((s.iput i).inode i).iMount = none := by
  unfold iput
  by_cases hmore : 1 < (s.inode i).iCount
  · rw [if_pos hmore, if_neg (by omega), modInode_self, if_pos hmore]
    exact ⟨rfl, rfl, rfl⟩
  · rw [if_neg hmore]
    split
    · exact ⟨by omega, id⟩
    · rw [modInode_self, if_neg hmore]
      unfold released
      split
      · exact ⟨by change 0 = _; omega, fun _ => rfl⟩
      · exact ⟨by change 0 = _; omega, id⟩

theorem refs_le (s : Mounts) (k : Fin nrSuper) (i : InodeRef) :
    (s.super k).refs i ≤ s.refs i :=
  Finset.single_le_sum (f := fun k => (s.super k).refs i) (fun _ _ => Nat.zero_le _)
    (Finset.mem_univ k)

theorem refs_setSuper (s : Mounts) (k : Fin nrSuper) (e : MountEntry) (i : InodeRef) :
    (s.setSuper k e).refs i + (s.super k).refs i = s.refs i + e.refs i := by
  have hsplit : ∀ t : Mounts, t.refs i = (t.super k).refs i +
      ∑ k' ∈ Finset.univ.erase k, (t.super k').refs i :=
    fun t => (Finset.add_sum_erase _ (fun k' => (t.super k').refs i) (Finset.mem_univ k)).symm
  have hrest : ∑ k' ∈ Finset.univ.erase k, ((s.setSuper k e).super k').refs i =
      ∑ k' ∈ Finset.univ.erase k, (s.super k').refs i := by
    refine Finset.sum_congr rfl fun k' hk' => ?_
    exact congrArg (MountEntry.refs · i) (update_of_ne (Finset.ne_of_mem_erase hk') ..)
  have hself : (s.setSuper k e).super k = e := update_self ..
  rw [hsplit, hsplit s, hrest, hself]
  omega

theorem Joins.refs_pos (h : s.Joins k d m) : 0 < s.refs d ∧ 0 < s.refs m := by
  have hd : 0 < (s.super k).refs d := by simp [MountEntry.refs, h.sDev, h.sCovered]
  have hm : 0 < (s.super k).refs m := by simp [MountEntry.refs, h.sDev, h.sMounted]
  exact ⟨hd.trans_le (s.refs_le k d), hm.trans_le (s.refs_le k m)⟩

theorem Joins.ne (h : s.Joins k d m) : d ≠ m := by
  rintro rfl
  exact h.outside h.inside

namespace Sound

variable (h : s.Sound root held)

include h

theorem iMount_none (h0 : s.refs i = 0) : (s.inode i).iMount = none := by
  by_contra hmount
  obtain ⟨m, hm⟩ := Option.ne_none_iff_exists'.mp hmount
  obtain ⟨k, -, hj⟩ := h.covered i m hm
  exact hj.refs_pos.1.ne' h0

theorem frame (hsuper : s'.super = s.super)
    (hkept : ∀ i, if s.refs i = 0 then (s'.inode i).iMount = none else
      (s'.inode i).iDev = (s.inode i).iDev ∧ (s'.inode i).iMount = (s.inode i).iMount)
    (hcounts : ∀ i, (s'.inode i).iCount = held' i + s.refs i) : s'.Sound root held' := by
  have hrefs : s'.refs = s.refs := by
    unfold refs
    rw [hsuper]
  have hused : ∀ {i}, 0 < s.refs i → (s'.inode i).iDev = (s.inode i).iDev ∧
      (s'.inode i).iMount = (s.inode i).iMount := fun {i} hi => by
    have hi' := hkept i
    rwa [if_neg hi.ne'] at hi'
  have hjoins : ∀ {k d m}, s.Joins k d m → s'.Joins k d m := by
    intro k d m hj
    obtain ⟨hd, hm⟩ := hj.refs_pos
    refine ⟨hsuper ▸ hj.sDev, hsuper ▸ hj.sCovered, hsuper ▸ hj.sMounted, ?_, ?_, ?_⟩
    · rw [(hused hd).2, hj.iMount]
    · rw [(hused hm).1, hsuper, hj.inside]
    · rw [(hused hd).1, hsuper]
      exact hj.outside
  refine ⟨fun i => by rw [hcounts, hrefs], hsuper ▸ h.distinct, fun k hk hdev => ?_,
    fun d m hm => ?_, ?_⟩
  · obtain ⟨d, m, hj⟩ := h.mounted k hk (hsuper ▸ hdev)
    exact ⟨d, m, hjoins hj⟩
  · have hd := hkept d
    split_ifs at hd
    · rw [hd] at hm
      cases hm
    · obtain ⟨k, hk, hj⟩ := h.covered d m (hd.2 ▸ hm)
      exact ⟨k, hk, hjoins hj⟩
  · obtain ⟨i, hroot, hdev⟩ := h.rooted
    have hpos : 0 < (s.super root).refs i := by simp [MountEntry.refs, hroot, hdev]
    rw [hsuper]
    exact ⟨i, (hused (hpos.trans_le (s.refs_le root i))).1 ▸ ⟨hroot, hdev⟩⟩

theorem change (hsuper : s'.super = s.super) (hne : ∀ j ≠ i, s'.inode j = s.inode j)
    (hcount : (s'.inode i).iCount = n + s.refs i)
    (hkept : if s.refs i = 0 then (s'.inode i).iMount = none else
      (s'.inode i).iDev = (s.inode i).iDev ∧ (s'.inode i).iMount = (s.inode i).iMount) :
    s'.Sound root (update held i n) := by
  refine h.frame hsuper (fun j => ?_) fun j => ?_ <;> by_cases hij : j = i
  · exact hij ▸ hkept
  · rw [hne j hij]
    split
    · exact h.iMount_none ‹_›
    · exact ⟨rfl, rfl⟩
  · rw [hij, update_self, hcount]
  · rw [hne j hij, update_of_ne hij, h.counts j]

theorem modify (hcount : (f (s.inode i)).iCount = n + s.refs i)
    (hdev : (f (s.inode i)).iDev = (s.inode i).iDev)
    (hmount : (f (s.inode i)).iMount = (s.inode i).iMount) :
    (s.modInode i f).Sound root (update held i n) := by
  refine h.change rfl (fun j hj => modInode_ne hj) (by rwa [modInode_self]) ?_
  rw [modInode_self, hmount]
  split
  · exact h.iMount_none ‹_›
  · exact ⟨hdev, rfl⟩

theorem grab (hroom : (s.inode i).iCount < 65535) :
    (s.modInode i fun d => { d with iCount := wrap 16 (d.iCount + 1) }).Sound root
      (update held i (held i + 1)) := by
  have hcount := h.counts i
  exact h.modify ((wrap_of_lt (by omega)).trans (by omega)) rfl rfl

theorem renew (hi : (s.inode i).iCount = 0) (hn : (f (s.inode i)).iCount = n)
    (hmount : (f (s.inode i)).iMount = none) :
    (s.modInode i f).Sound root (update held i n) := by
  have hcount := h.counts i
  have hrefs : s.refs i = 0 := by omega
  refine h.change rfl (fun j hj => modInode_ne hj) ?_ ?_ <;> rw [modInode_self, hrefs]
  · exact hn
  · rwa [if_pos rfl]

theorem iput (hi : 0 < held i) :
    (s.iput i).Sound root (update held i (held i - 1)) := by
  have hcount := h.counts i
  obtain ⟨hless, hkept⟩ := s.iput_self i
  refine h.change iput_super (fun j hj => iput_ne hj) (by omega) ?_
  by_cases hmore : 1 < (s.inode i).iCount
  · rw [if_pos hmore] at hkept
    split
    · rw [hkept.2, h.iMount_none ‹_›]
    · exact hkept
  · rw [if_neg hmore] at hkept
    rw [if_pos (by omega)]
    exact hkept (h.iMount_none (by omega))

theorem iget {inr nlink : Nat} (hroom : ∀ j, (s.inode j).iCount < 65535)
    (hget : s.iget k inr nlink = some (i, s')) :
    s'.Sound root (update held i (held i + 1)) := by
  unfold Mounts.iget at hget
  split at hget
  · rename_i j hj
    split at hget
    · -- the inode is a mount point, so that of the mounted root is taken in its place
      rename_i m hm
      obtain ⟨rfl, rfl⟩ := Prod.mk.inj (Option.some.inj hget)
      obtain ⟨k, -, hjoin⟩ := h.covered j m hm
      have hne := hjoin.ne
      have hmroom := hroom m
      rw [← modInode_ne hne.symm] at hmroom
      have hboth := ((h.grab (hroom j)).grab hmroom).iput (i := j) (by
        rw [update_of_ne hne, update_self]
        omega)
      convert hboth using 1
      funext x
      simp only [update_apply]
      split_ifs <;> simp_all
    · obtain ⟨rfl, rfl⟩ := Prod.mk.inj (Option.some.inj hget)
      exact h.grab (hroom _)
  · obtain ⟨i', hi', heq⟩ := Option.map_eq_some_iff.mp hget
    obtain ⟨rfl, rfl⟩ := Prod.mk.inj heq
    have hfree := List.find?_some hi'
    simp at hfree
    have hcount := h.counts i'
    rw [show held i' + 1 = 1 by omega]
    exact h.renew hfree.1 rfl rfl

end Sound

/-- Some unused inodes have been cleared. -/
structure Swept (s s₁ : Mounts) : Prop where
  super : s₁.super = s.super
  inode : ∀ i, s₁.inode i = s.inode i ∨ s₁.inode i = Inode.zero ∧ (s.inode i).iCount = 0

theorem fsMayMount_swept (s : Mounts) : Swept s (fsMayMount dev order s).2 := by
  induction order generalizing s with
  | nil => exact ⟨rfl, fun _ => Or.inl rfl⟩
  | cons i l ih =>
      unfold fsMayMount
      split_ifs with hdev hbusy
      · exact ih s
      · exact ⟨rfl, fun _ => Or.inl rfl⟩
      · obtain ⟨hsuper, hinode⟩ := ih (s.modInode i fun _ => Inode.zero)
        push Not at hbusy
        refine ⟨hsuper, fun j => ?_⟩
        have hj := hinode j
        by_cases hij : j = i
        · subst hij
          rw [modInode_self, and_comm] at hj
          exact Or.inr ⟨hj.elim id And.right, hbusy.1⟩
        · rwa [modInode_ne hij] at hj

theorem fsMayMount_true (hdev : dev ≠ 0) (h : (fsMayMount dev order s).1 = true)
    (hi : i ∈ order) : ((fsMayMount dev order s).2.inode i).iDev ≠ dev := by
  have hkeeps : ∀ (t : Mounts) (l : List InodeRef), (t.inode i).iDev ≠ dev →
      ((fsMayMount dev l t).2.inode i).iDev ≠ dev := by
    intro t l ht
    rcases (fsMayMount_swept t).inode i with heq | ⟨heq, -⟩ <;> rw [heq]
    · exact ht
    · exact hdev.symm
  induction order generalizing s with
  | nil => cases hi
  | cons j l ih =>
      unfold fsMayMount at h ⊢
      split_ifs at h ⊢ with hother hbusy
      · rcases List.mem_cons.mp hi with rfl | hl
        · exact hkeeps _ l hother
        · exact ih h hl
      · rcases List.mem_cons.mp hi with rfl | hl
        · exact hkeeps _ l (by rw [modInode_self]; exact hdev.symm)
        · exact ih h hl

theorem Sound.swept (h : s.Sound root held) (hs : Swept s s₁) :
    s₁.Sound root held ∧ ∀ i, (s₁.inode i).iMount = (s.inode i).iMount ∧
      (s₁.inode i).iCount = (s.inode i).iCount := by
  have hsame : ∀ i, (s₁.inode i).iMount = (s.inode i).iMount ∧
      (s₁.inode i).iCount = (s.inode i).iCount := by
    intro i
    have hcount := h.counts i
    rcases hs.inode i with heq | ⟨heq, hzero⟩ <;> rw [heq]
    · exact ⟨rfl, rfl⟩
    · exact ⟨(h.iMount_none (by omega)).symm, hzero.symm⟩
  refine ⟨h.frame hs.super (fun i => ?_) fun i => ?_, hsame⟩
  · rw [(hsame i).1]
    have hcount := h.counts i
    split
    · exact h.iMount_none ‹_›
    · rcases hs.inode i with heq | ⟨-, hzero⟩
      · exact ⟨by rw [heq], rfl⟩
      · omega
  · rw [(hsame i).2, h.counts i]

theorem fsMayUmount_eq_mayUmount {t : Table} {mountRooti : InodeRef} (h : Listed t)
    (ht : t.inodeBlock = s.inode) :
    fsMayUmount dev mountRooti t = .ok (decide (s.MayUmount dev (some mountRooti))) := by
  rw [fsMayUmount_eq h]
  simp only [Unused, MayUmount, ht, Option.some.injEq, eq_comm]

end Inodes

section Links

variable {s s' : Mounts} {root k : Fin nrSuper} {held held' : InodeRef → Nat}
  {d m : InodeRef} {e : MountEntry} {o : Option InodeRef} {dev nlink : Nat}
  {order : List InodeRef}

theorem link_inode (i : InodeRef) : (s.link k e d o).inode i =
    { s.inode i with iMount := if i = d then o else (s.inode i).iMount } := by
  unfold link
  by_cases hi : i = d
  · rw [hi, modInode_self, if_pos rfl]
    rfl
  · rw [modInode_ne hi, if_neg hi]
    rfl

theorem Joins.link (hj : s.Joins k d m) {k' : Fin nrSuper} {d' : InodeRef} (hk : k ≠ k')
    (hd : d ≠ d') : (s.link k' e d' o).Joins k d m := by
  have hsuper : (s.link k' e d' o).super k = s.super k := update_of_ne hk ..
  refine ⟨?_, ?_, ?_, ?_, ?_, ?_⟩ <;> simp only [hsuper, link_inode, if_neg hd]
  exacts [hj.sDev, hj.sCovered, hj.sMounted, hj.iMount, hj.inside, hj.outside]

/-- An entry that covers at most `d` is linked to it, or let go. -/
theorem Sound.link (h : s.Sound root held) (hk : k ≠ root)
    (hold : ∀ k' d' m', s.Joins k' d' m' → (k' = k ↔ d' = d))
    (hnew : if e.sDev = 0 then o = none else ∃ m, o = some m ∧ (s.link k e d o).Joins k d m)
    (hfresh : e.sDev ≠ 0 → ∀ k', (s.super k').sDev ≠ e.sDev)
    (hcounts : ∀ i, (s.inode i).iCount + (s.super k).refs i = held' i + s.refs i + e.refs i) :
    (s.link k e d o).Sound root held' := by
  have hself : (s.link k e d o).super k = e := update_self ..
  have hother : ∀ k' ≠ k, (s.link k e d o).super k' = s.super k' := fun k' hk' =>
    update_of_ne hk' ..
  refine ⟨fun i => ?_, fun k₁ k₂ hdev heq => ?_, fun k' hk' hdev => ?_, fun d' m hm => ?_, ?_⟩
  · have hrefs := s.refs_setSuper k e i
    have hi := hcounts i
    rw [link_inode]
    change (s.inode i).iCount = held' i + (s.setSuper k e).refs i
    omega
  · by_cases h₁ : k₁ = k <;> by_cases h₂ : k₂ = k
    · rw [h₁, h₂]
    · rw [h₁, hself] at hdev heq
      exact absurd (heq.trans (by rw [hother k₂ h₂])).symm (hfresh hdev k₂)
    · rw [h₂, hself, hother k₁ h₁] at heq
      rw [hother k₁ h₁, heq] at hdev
      exact absurd heq (hfresh hdev k₁)
    · rw [hother k₁ h₁] at hdev heq
      exact h.distinct k₁ k₂ hdev (heq.trans (by rw [hother k₂ h₂]))
  · by_cases hkk : k' = k
    · rw [hkk, hself] at hdev
      rw [if_neg hdev] at hnew
      obtain ⟨m, -, hj⟩ := hnew
      exact ⟨d, m, hkk ▸ hj⟩
    · rw [hother k' hkk] at hdev
      obtain ⟨d', m, hj⟩ := h.mounted k' hk' hdev
      exact ⟨d', m, hj.link hkk fun hd => hkk ((hold k' d' m hj).mpr hd)⟩
  · rw [link_inode] at hm
    dsimp only at hm
    split_ifs at hm with hd
    · subst hm hd
      split_ifs at hnew
      obtain ⟨m', hm', hj⟩ := hnew
      cases hm'
      exact ⟨k, hk, hj⟩
    · obtain ⟨k', hk', hj⟩ := h.covered d' m hm
      exact ⟨k', hk', hj.link (fun hkk => hd ((hold k' d' m hj).mp hkk)) hd⟩
  · obtain ⟨i, hroot, hdev⟩ := h.rooted
    exact ⟨i, by rw [hother root hk.symm, link_inode]; exact ⟨hroot, hdev⟩⟩

theorem Sound.busy (h : s.Sound root held) (hk : (s.super k).sDev ≠ 0) :
    ∃ i, (s.inode i).iDev = (s.super k).sDev := by
  by_cases hroot : k = root
  · obtain ⟨i, hi, -⟩ := h.rooted
    exact ⟨i, by rw [hroot, hi]⟩
  · obtain ⟨d, m, hj⟩ := h.mounted k hroot hk
    exact ⟨m, hj.inside⟩

theorem getSuper_some (h : s.getSuper dev = some k) : dev ≠ 0 ∧ (s.super k).sDev = dev := by
  unfold getSuper at h
  split at h
  · cases h
  · exact ⟨‹_›, by simpa using List.find?_some h⟩

theorem readSuper_cases {good : Bool} {r : Option (Fin nrSuper)}
    (hnone : dev ≠ 0 → ∀ i, (s.inode i).iDev ≠ dev)
    (hfresh : dev ≠ 0 → ∀ k, (s.super k).sDev ≠ dev)
    (hrun : s.readSuper dev good nlink = some (r, s')) :
    r = none ∧ s' = s ∨ ∃ k j, r = some k ∧ dev ≠ 0 ∧ (s.super k).sDev = 0 ∧
      (s.inode j).iCount = 0 ∧
      s' = (s.modInode j fun _ => claimed k dev 1 nlink).setSuper k ⟨dev, none, some j⟩ := by
  unfold readSuper at hrun
  split at hrun
  · cases hrun
    exact Or.inl ⟨rfl, rfl⟩
  rename_i hdev
  split at hrun
  · exact absurd (getSuper_some ‹_›).2 (hfresh hdev _)
  split at hrun
  · cases hrun
    exact Or.inl ⟨rfl, rfl⟩
  rename_i k hk
  have hzero : (s.super k).sDev = 0 := by simpa using List.find?_some hk
  split at hrun
  · obtain ⟨t, ht, heq⟩ := Option.map_eq_some_iff.mp hrun
    cases heq
    have hnot : ∀ i, (s.inode i).iDev = dev → ¬(s.inode i).iIno = 1 := fun i hi =>
      absurd hi (hnone hdev i)
    simp only [Mounts.iget, setSuper, update_self] at ht
    rw [List.find?_eq_none.mpr (by simpa using hnot)] at ht
    obtain ⟨j, hj, rfl⟩ := Option.map_eq_some_iff.mp ht
    have hfree := List.find?_some hj
    simp at hfree
    exact Or.inr ⟨k, j, rfl, hdev, hzero, hfree.1, by simp [setSuper, modInode]⟩
  · cases hrun
    have hsame : { s.super k with sDev := 0 } = s.super k := by rw [← hzero]
    exact Or.inl ⟨rfl, by simp [setSuper, hsame]⟩

theorem Sound.join (h : s.Sound root held) (hk : (s.super k).sDev = 0) (hdev : dev ≠ 0)
    (hnone : ∀ i, (s.inode i).iDev ≠ dev) (hd : 0 < held d) (hone : (s.inode d).iCount = 1)
    (hm : (s.inode m).iCount = 0) (nlink : Nat) :
    ((s.modInode m fun _ => claimed k dev 1 nlink).link k ⟨dev, some d, some m⟩ d
      (some m)).Sound root (update held d (held d - 1)) := by
  have hne : d ≠ m := by
    rintro rfl
    omega
  have hcd := h.counts d
  have hcm := h.counts m
  have hc := h.renew (f := fun _ => claimed k dev 1 nlink) (n := 1) hm rfl rfl
  refine hc.link ?_ ?_ ?_ ?_ ?_
  · rintro rfl
    obtain ⟨i, hi, hdev'⟩ := h.rooted
    rw [hi] at hk
    exact hdev' hk
  · refine fun k' d' m' hj => iff_of_false ?_ ?_
    · rintro rfl
      exact hj.sDev hk
    · rintro rfl
      have hpos : 0 < s.refs d' := hj.refs_pos.1
      omega
  · rw [if_neg hdev]
    refine ⟨m, rfl, ?_⟩
    constructor <;>
      simp [Mounts.link, setSuper, modInode, hdev, hne, hne.symm, claimed, hnone d]
  · intro _ k' hk'
    have hk' : (s.super k').sDev = dev := hk'
    obtain ⟨i, hi⟩ := h.busy (hk'.trans_ne hdev)
    exact hnone i (hi.trans hk')
  · intro i
    have hi := hc.counts i
    have hold : ((s.modInode m fun _ => claimed k dev 1 nlink).super k).refs i = 0 := if_pos hk
    have hentry : (⟨dev, some d, some m⟩ : MountEntry).refs i =
        (if i = d then 1 else 0) + if i = m then 1 else 0 := by
      simp [MountEntry.refs, hdev, eq_comm]
    rw [hi, hold, hentry]
    simp only [update_apply]
    split_ifs with h₁ h₂ h₂ <;> subst_vars <;> omega

theorem Sound.doMount {good : Bool} {dirp : InodeRef} {ret : Int} (h : s.Sound root held)
    (hall : ∀ i, i ∈ order) (hdirp : 0 < held dirp)
    (hrun : s.doMount order dirp dev good nlink = some (ret, s')) :
    s'.Sound root (update held dirp (held dirp - 1)) := by
  unfold Mounts.doMount at hrun
  split at hrun
  · cases hrun
    exact h.iput hdirp
  rename_i hfirst
  push Not at hfirst
  have hswept : Swept s (fsMayMount dev order s).2 := fsMayMount_swept s
  obtain ⟨h₁, hsame⟩ := h.swept hswept
  dsimp only at hrun
  split at hrun
  · cases hrun
    exact h₁.iput hdirp
  rename_i hmay
  rw [Bool.not_eq_false] at hmay
  have hnone : dev ≠ 0 → ∀ i, ((fsMayMount dev order s).2.inode i).iDev ≠ dev :=
    fun hdev i => fsMayMount_true hdev hmay (hall i)
  have hone := (hsame dirp).2.trans hfirst.1
  clear hswept hsame
  generalize (fsMayMount dev order s).2 = s₁ at h₁ hnone hone hrun
  obtain ⟨⟨r, s₂⟩, hread, heq⟩ := Option.map_eq_some_iff.mp hrun
  have hfresh : dev ≠ 0 → ∀ k, (s₁.super k).sDev ≠ dev := by
    rintro hdev k rfl
    obtain ⟨i, hi⟩ := h₁.busy hdev
    exact hnone hdev i hi
  rcases readSuper_cases hnone hfresh hread with ⟨rfl, rfl⟩ |
    ⟨k, j, rfl, hdev, hzero, hfree, rfl⟩
  · cases heq
    exact h₁.iput hdirp
  · have hjoin := h₁.join hzero hdev (hnone hdev) hdirp hone hfree nlink
    simp only [setSuper, update_self] at heq
    cases heq
    simpa [Mounts.link, setSuper] using hjoin

end Links

section Runs

variable {order : List InodeRef} {root : Fin nrSuper} {t t' : Mounts × (InodeRef → Nat)}

/-- The kernel's data at its start. -/
def blank : Mounts where
  super := fun _ => ⟨0, none, none⟩
  inode := fun _ => Inode.zero

/-- Device 1 has the root, a directory of it is looked up, and device 2 is mounted there. -/
def rooted : Fin nrSuper × InodeRef × Mounts :=
  (blank.mountRoot 1 2).get (by decide +kernel)

def lookedUp : InodeRef × Mounts :=
  (rooted.2.2.iget rooted.1 5 2).get (by decide +kernel)

def mountedOn : Int × Mounts :=
  (lookedUp.2.doMount (List.finRange nrInode) lookedUp.1 2 true 2).get (by decide +kernel)

end Runs

end Mounts
end Vfs
end Elks
