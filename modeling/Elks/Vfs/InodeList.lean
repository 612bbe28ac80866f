import Elks.Lib.Outcome
import Elks.Lib.Ring

/-!
# The inode table and its list

`fs/inode.c` keeps the `NR_INODE` inodes of the kernel in a static table and
links them by `i_next` and `i_prev` into a list that starts at `first_inode`.
The walks over the table (`sync_inodes`, `fs_may_umount`) follow `i_next` and
count, so they rely on the list being a ring through every entry.

**State.**  `Table` has the contents of the entries and the links apart, since
the routines that work on an inode never touch the links and the list routines
touch nothing else.

**File systems.**  What a file system does with an inode is a parameter: the
functions of its `super_operations`, over the contents of one inode.

**Results.**
* `clearInode_listed`: an entry that is cleared goes off the ring and comes back.
* `fsMayUmount_eq`: over a ring `fs_may_umount` sees every entry.
* `bootAndPerform_unsound`: `inode_init` does not make one.  It inserts the
  first inode into an empty list, and `insert_inode_free` follows `first_inode`
  without a test.
-/

namespace Elks
namespace Vfs

open Lib
open Function (update update_apply update_eq_self update_self)

/-- `NR_INODE`. -/
def nrInode : Nat :=
  96

/-- `NR_SUPER`. -/
def nrSuper : Nat :=
  4

/-- A pointer into `inode_block`. -/
abbrev InodeRef :=
  Fin nrInode

/-- The contents of an inode. -/
structure Inode where
  iDev : Nat
  iIno : Nat
  iCount : Nat
  iNlink : Nat
  iFlags : Nat
  iSem : Nat
  iLock : Bool
  iDirt : Bool
  iMount : Option InodeRef
  iSb : Option (Fin nrSuper)
deriving DecidableEq, Repr

/-- What `memset(inode, 0, sizeof(*inode))` leaves. -/
def Inode.zero : Inode where
  iDev := 0
  iIno := 0
  iCount := 0
  iNlink := 0
  iFlags := 0
  iSem := 0
  iLock := false
  iDirt := false
  iMount := none
  iSb := none

/-- `struct super_operations`: what the routines of a file system do to the
contents of an inode.  `putInode` also says whether it calls `clear_inode`. -/
structure SuperOperations where
  readInode : Option (Inode → Inode)
  writeInode : Option (Inode → Inode)
  putInode : Option (Inode → Inode × Bool)

/-- The part of `struct super_block` that the inode routines read. -/
structure SuperBlock where
  sDev : Nat
  sFlags : Nat
  sOp : Option SuperOperations

/-- The static data of `fs/inode.c`. -/
structure Table where
  inodeBlock : InodeRef → Inode
  iNext : InodeRef → Option InodeRef
  iPrev : InodeRef → Option InodeRef
  firstInode : Option InodeRef
  nrInodes : Nat
  nrFreeInodes : Int
  ino : Nat

/-- The table before `inode_init`. -/
def Table.bss : Table where
  inodeBlock := fun _ => Inode.zero
  iNext := fun _ => none
  iPrev := fun _ => none
  firstInode := none
  nrInodes := 0
  nrFreeInodes := 0
  ino := 0

section Code

/-- A pointer that is followed. -/
def deref (o : Option InodeRef) : Routine Table InodeRef :=
  match o with
  | some i => pure i
  | none => throw .nullPointer

def setNext (inode : InodeRef) (o : Option InodeRef) : Routine Table Unit :=
  modify fun s => { s with iNext := update s.iNext inode o }

def setPrev (inode : InodeRef) (o : Option InodeRef) : Routine Table Unit :=
  modify fun s => { s with iPrev := update s.iPrev inode o }

def setFirst (o : Option InodeRef) : Routine Table Unit :=
  modify fun s => { s with firstInode := o }

/-- Change the contents of an inode. -/
def modInode (inode : InodeRef) (f : Inode → Inode) : Routine Table Unit :=
  modify fun s =>
    { s with inodeBlock := update s.inodeBlock inode (f (s.inodeBlock inode)) }

def addFree (n : Int) : Routine Table Unit :=
  modify fun s => { s with nrFreeInodes := s.nrFreeInodes + n }

def insertInodeFree (inode : InodeRef) : Routine Table Unit := do
  setNext inode (← get).firstInode
  let first ← deref (← get).firstInode
  setPrev inode ((← get).iPrev first)
  setPrev first (some inode)
  let prev ← deref ((← get).iPrev inode)
  setNext prev (some inode)
  setFirst (some inode)

def removeInodeFree (inode : InodeRef) : Routine Table Unit := do
  let s ← get
  when (s.firstInode = some inode) do
    setFirst (s.iNext inode)
  forSome (s.iNext inode) fun next => setPrev next (s.iPrev inode)
  let s ← get
  forSome (s.iPrev inode) fun prev => setNext prev (s.iNext inode)
  setNext inode none
  setPrev inode none

/-- The first half of `put_last_free`: the last entry becomes the predecessor. -/
def linkBehindLast (inode : InodeRef) : Routine Table Unit := do
  match (← get).firstInode with
  | some first => do
      setPrev inode ((← get).iPrev first)
      let prev ← deref ((← get).iPrev inode)
      setNext prev (some inode)
  | none => setPrev inode none

def putLastFree (inode : InodeRef) : Routine Table Unit := do
  removeInodeFree inode
  linkBehindLast inode
  setNext inode (← get).firstInode
  let next ← deref ((← get).iNext inode)
  setPrev next (some inode)

/-- The loop of `setup_inodes`. -/
def insertAll : List InodeRef → Routine Table Unit
  | [] => pure ()
  | inode :: l => do
      insertInodeFree inode
      insertAll l

def setupInodes : Routine Table Unit := do
  modify fun s => { s with nrInodes := nrInode, nrFreeInodes := nrInode }
  insertAll (List.finRange nrInode)

def inodeInit : Routine Table Unit := do
  setFirst none
  setupInodes

/-- A locked inode is waited for, so the call sleeps. -/
def waitOnInode (inode : InodeRef) : Routine Table Unit := do
  when ((← get).inodeBlock inode).iLock (throw .sleeps)

def lockInode (inode : InodeRef) : Routine Table Unit := do
  waitOnInode inode
  modInode inode fun d => { d with iLock := true }

def unlockInode (inode : InodeRef) : Routine Table Unit :=
  modInode inode fun d => { d with iLock := false }

def clearInode (inode : InodeRef) : Routine Table Unit := do
  waitOnInode inode
  removeInodeFree inode
  when (((← get).inodeBlock inode).iCount ≠ 0) (addFree 1)
  modInode inode fun _ => Inode.zero
  setNext inode none
  setPrev inode none
  insertInodeFree inode

variable (sb : Fin nrSuper → SuperBlock)

/-- `inode->i_sb->s_op`, where there is one. -/
def sopOf (d : Inode) : Option SuperOperations :=
  d.iSb.bind fun b => (sb b).sOp

def readInode (inode : InodeRef) : Routine Table Unit := do
  lockInode inode
  forSome ((sopOf sb ((← get).inodeBlock inode)).bind SuperOperations.readInode) fun read =>
    modInode inode read
  unlockInode inode

def writeInode (inode : InodeRef) : Routine Table Unit := do
  when ((← get).inodeBlock inode).iDirt do
    waitOnInode inode
    match (sopOf sb ((← get).inodeBlock inode)).bind SuperOperations.writeInode with
    | some write => do
        modInode inode fun d => { d with iLock := true }
        modInode inode write
        unlockInode inode
    | none => modInode inode fun d => { d with iDirt := false }

/-- The call of `put_inode` in `iput`; the value says whether `iput` is then
done because no link is left. -/
def putInode (inode : InodeRef) : Routine Table Bool := do
  match (sopOf sb ((← get).inodeBlock inode)).bind SuperOperations.putInode with
  | some put => do
      let d := (← get).inodeBlock inode
      modInode inode fun _ => (put d).1
      when (put d).2 (clearInode inode)
      return ((← get).inodeBlock inode).iNlink = 0
  | none => return false

/-- `iput` from its label `repeat` on; the number bounds the rounds. -/
def iputRepeat (inode : InodeRef) : Nat → Routine Table Unit
  | 0 => throw .endless
  | k + 1 => do
      if 1 < ((← get).inodeBlock inode).iCount then
        modInode inode fun d => { d with iCount := d.iCount - 1 }
      else
        let done ← putInode sb inode
        if done then
          return
        else
          if ((← get).inodeBlock inode).iDirt then
            writeInode sb inode
            waitOnInode inode
            iputRepeat inode k
          else
            modInode inode fun d => { d with iCount := wrapSub 16 d.iCount 1 }
            addFree 1

def iput (rounds : Nat) (inode : InodeRef) : Routine Table Unit := do
  waitOnInode inode
  when (((← get).inodeBlock inode).iCount ≠ 0) (iputRepeat sb inode rounds)

/-- With no free entry the call waits for one. -/
def getEmptyInode : Routine Table InodeRef := do
  let s ← get
  match (List.finRange nrInode).find? fun i =>
      (s.inodeBlock i).iCount = 0 ∧ ¬ (s.inodeBlock i).iLock ∧ ¬ (s.inodeBlock i).iDirt with
  | none => throw .sleeps
  | some inode => do
      clearInode inode
      modify fun s => { s with ino := wrap 16 (s.ino + 1) }
      let ino := (← get).ino
      modInode inode fun d =>
        { d with iCount := 1, iNlink := 1, iSem := 0, iIno := ino, iDev := 0 }
      addFree (-1)
      when ((← get).nrFreeInodes < 0) do
        modify fun s => { s with nrFreeInodes := 0 }
      return inode

/-- `__iget` from its label `found_it` on.  Nothing runs between the search and
the test that the inode is still the one looked for, so the test holds. -/
def foundIt (rounds : Nat) (inode : InodeRef) (empty : Option InodeRef) :
    Routine Table InodeRef := do
  when (((← get).inodeBlock inode).iCount = 0) (addFree (-1))
  modInode inode fun d => { d with iCount := wrap 16 (d.iCount + 1) }
  waitOnInode inode
  let mounted := ((← get).inodeBlock inode).iMount
  forSome mounted fun tmp => do
    modInode tmp fun d => { d with iCount := wrap 16 (d.iCount + 1) }
    iput sb rounds inode
    waitOnInode tmp
  forSome empty fun e => iput sb rounds e
  return mounted.getD inode

/-- The search at the label `repeat` of `__iget`. -/
def searchInode (dev inr : Nat) (s : Table) : Option InodeRef :=
  (List.finRange nrInode).find? fun i =>
    (s.inodeBlock i).iDev = dev ∧ (s.inodeBlock i).iIno = inr

/-- `__iget`. -/
def iget (rounds : Nat) (b : Option (Fin nrSuper)) (inr : Nat) :
    Routine Table InodeRef := do
  match b with
  | none => throw (.panic "VFS: iget with sb==NULL")
  | some b => do
      match searchInode (sb b).sDev inr (← get) with
      | some inode => foundIt sb rounds inode none
      | none => do
          let empty ← getEmptyInode
          match searchInode (sb b).sDev inr (← get) with
          | some inode => foundIt sb rounds inode (some empty)
          | none => do
              modInode empty fun d =>
                { d with
                  iSb := some b, iDev := (sb b).sDev, iIno := inr, iFlags := (sb b).sFlags }
              putLastFree empty
              readInode sb empty
              return empty

/-- The loop of `sync_inodes`; the value lists the inodes it looked at. -/
def syncWalk (dev : Nat) : Nat → Option InodeRef → Routine Table (List InodeRef)
  | 0, _ => return []
  | k + 1, o => do
      let inode ← deref o
      when (dev = 0 ∨ ((← get).inodeBlock inode).iDev = dev) do
        waitOnInode inode
        when ((← get).inodeBlock inode).iDirt (writeInode sb inode)
      let seen ← syncWalk dev k ((← get).iNext inode)
      return inode :: seen

/-- `sync_inodes`: the counter is a `char *`, so the loop runs twice `nr_inodes`
times. -/
def syncInodes (dev : Nat) : Routine Table (List InodeRef) := do
  let s ← get
  syncWalk sb dev (s.nrInodes * 2) s.firstInode

/-- The loop of `fs_may_umount`. -/
def umountWalk (dev : Nat) (mountRooti : InodeRef) (s : Table) :
    Nat → Option InodeRef → Except Fault Bool
  | 0, _ => .ok true
  | _ + 1, none => .error .nullPointer
  | k + 1, some inode =>
      let d := s.inodeBlock inode
      if d.iDev ≠ dev ∨ d.iCount = 0 then
        umountWalk dev mountRooti s k (s.iNext inode)
      else if inode = mountRooti ∧ d.iCount = 1 then
        umountWalk dev mountRooti s k (s.iNext inode)
      else
        .ok false

def fsMayUmount (dev : Nat) (mountRooti : InodeRef) (s : Table) : Except Fault Bool :=
  umountWalk dev mountRooti s s.nrInodes s.firstInode

/-- A call of one of the inode routines. -/
inductive InodeCall
  | getEmptyInode
  | iget (b : Option (Fin nrSuper)) (inr : Nat)
  | iput (inode : InodeRef)
  | clearInode (inode : InodeRef)
  | putLastFree (inode : InodeRef)
deriving DecidableEq, Repr

/-- What a call does. -/
def InodeCall.perform (rounds : Nat) : InodeCall → Routine Table Unit
  | .getEmptyInode => do
      let _ ← Vfs.getEmptyInode
  | .iget b inr => do
      let _ ← Vfs.iget sb rounds b inr
  | .iput inode => Vfs.iput sb rounds inode
  | .clearInode inode => Vfs.clearInode inode
  | .putLastFree inode => Vfs.putLastFree inode

/-- A sequence of calls. -/
def performAll (rounds : Nat) : List InodeCall → Routine Table Unit
  | [] => pure ()
  | c :: cs => do
      c.perform sb rounds
      performAll rounds cs

/-- A sequence of calls from the start of the kernel. -/
def bootAndPerform (rounds : Nat) (calls : List InodeCall) : Routine Table Unit := do
  inodeInit
  performAll sb rounds calls

end Code

section Links

variable {s : Table} {inode : InodeRef} {o : Option InodeRef}

theorem run_setNext :
    setNext inode o s =
      .ok (⟨⟩, { s with iNext := update s.iNext inode o }) := by
  rfl

theorem run_setPrev :
    setPrev inode o s =
      .ok (⟨⟩, { s with iPrev := update s.iPrev inode o }) := by
  rfl

theorem run_setFirst : setFirst o s = .ok (⟨⟩, { s with firstInode := o }) := by
  rfl

theorem run_deref_some : deref (some inode) s = .ok (inode, s) := by
  rfl

theorem run_deref_none : deref none s = .error .nullPointer := by
  rfl

theorem removeInodeFree_eq {next prev : InodeRef} (hnext : s.iNext inode = some next)
    (hprev : s.iPrev inode = some prev) :
    removeInodeFree inode s = .ok (⟨⟩,
      { s with
        firstInode := if s.firstInode = some inode then some next else s.firstInode
        iNext := update (update s.iNext prev (some next)) inode none
        iPrev := update (update s.iPrev next (some prev)) inode none }) := by
  have hprev' : update s.iPrev next (some prev) inode = some prev := by
    rw [update_apply]
    split
    · rfl
    · exact hprev
  by_cases hfirst : s.firstInode = some inode
  · simp [removeInodeFree, when, forSome, hfirst, hnext, hprev, hprev', run_bind, run_get, run_setFirst,
      run_setNext, run_setPrev, Except.bind]
  · simp [removeInodeFree, when, forSome, hfirst, hnext, hprev, hprev', run_bind, run_get,
      run_pure, run_setNext, run_setPrev, Except.bind]

theorem insertInodeFree_eq {first last : InodeRef} (hfirst : s.firstInode = some first)
    (hlast : s.iPrev first = some last) (hne : inode ≠ first) :
    insertInodeFree inode s = .ok (⟨⟩,
      { s with
        firstInode := some inode
        iNext := update (update s.iNext inode (some first)) last (some inode)
        iPrev := update (update s.iPrev inode (some last)) first
          (some inode) }) := by
  simp [insertInodeFree, hfirst, hlast, hne, run_bind, run_get, run_deref_some, run_setFirst,
      run_setNext, run_setPrev, Except.bind]

theorem insertInodeFree_null (hfirst : s.firstInode = none) :
    insertInodeFree inode s = .error .nullPointer := by
  simp [insertInodeFree, hfirst, run_bind, run_get, run_deref_none, run_setNext, Except.bind]

end Links

section Ring

/-- The links run through every entry of the table, from `first_inode` on. -/
structure Listed (s : Table) : Prop where
  nrInodes_eq : s.nrInodes = nrInode
  ring : ∃ l, Ring s.iNext s.iPrev l ∧ (∀ i, i ∈ l) ∧ s.firstInode = l.head?

/-- The links run through every entry but `inode`. -/
structure Unlisted (inode : InodeRef) (s : Table) : Prop where
  nrInodes_eq : s.nrInodes = nrInode
  next_eq : s.iNext inode = none
  prev_eq : s.iPrev inode = none
  ring : ∃ f t, Ring s.iNext s.iPrev (f :: t) ∧ inode ∉ f :: t ∧
    (∀ i, i ≠ inode → i ∈ f :: t) ∧ s.firstInode = some f

variable {s : Table} {inode : InodeRef}

theorem rest_ne_nil {a b : List InodeRef} (hall : ∀ i, i ∈ a ++ inode :: b) : b ++ a ≠ [] := by
  intro hnil
  obtain ⟨hb, ha⟩ := List.append_eq_nil_iff.mp hnil
  have hone : ∀ i, i = inode := by
    intro i
    simpa [ha, hb] using hall i
  have h := (hone ⟨0, by decide⟩).trans (hone ⟨1, by decide⟩).symm
  exact absurd h (by decide)

theorem removeInodeFree_listed (inode : InodeRef) (h : Listed s) :
    ∃ s', removeInodeFree inode s = .ok (⟨⟩, s') ∧ Unlisted inode s' := by
  obtain ⟨l, hring, hall, hfirst⟩ := h.ring
  obtain ⟨a, b, rfl⟩ := List.append_of_mem (hall inode)
  obtain ⟨g, z, hnext, hprev, hhead, hout⟩ := hring.erase_update (rest_ne_nil hall)
  refine ⟨_, removeInodeFree_eq hnext hprev, h.nrInodes_eq, update_self ..,
    update_self .., ?_⟩
  have hnodup := hring.nodup
  rw [List.nodup_middle, List.nodup_cons] at hnodup
  have hrest : ∀ i, i ≠ inode → i ∈ a ++ b := by
    intro i hi
    have hmem := hall i
    rw [List.mem_append, List.mem_cons] at hmem
    rcases hmem with hmem | hmem | hmem
    · exact List.mem_append_left b hmem
    · exact absurd hmem hi
    · exact List.mem_append_right a hmem
  cases a with
  | nil =>
      cases b with
      | nil =>
          cases hhead
      | cons c b =>
          have hcg : c = g := Option.some.inj hhead
          refine ⟨c, b, hout, hnodup.1, hrest, ?_⟩
          simp [hfirst, hcg]
  | cons c a =>
      have hci : c ≠ inode := by
        rintro rfl
        exact hnodup.1 (by simp)
      refine ⟨c, a ++ b, hout, hnodup.1, hrest, ?_⟩
      simp [hfirst, hci]

theorem insertInodeFree_listed (h : Unlisted inode s) :
    ∃ s', insertInodeFree inode s = .ok (⟨⟩, s') ∧ Listed s' := by
  obtain ⟨f, t, hring, hi, hrest, hfirst⟩ := h.ring
  obtain ⟨z, _, hprev, hout⟩ := hring.push_update hi
  have hne : inode ≠ f := by
    rintro rfl
    exact hi (by simp)
  refine ⟨_, insertInodeFree_eq hfirst hprev hne, h.nrInodes_eq, inode :: f :: t, hout, ?_, rfl⟩
  intro i
  by_cases hii : i = inode
  · rw [hii]
    exact List.mem_cons_self
  · exact List.mem_cons_of_mem inode (hrest i hii)

end Ring

section Clear

variable {inode : InodeRef}

/-- The faults that are no null pointer. -/
def NonNull (e : Fault) : Prop :=
  e ≠ .nullPointer

/-- Clearing an entry that is not locked takes it off the list and puts it back. -/
theorem clearInode_listed {s : Table} (hs : Listed s) (hlock : (s.inodeBlock inode).iLock = false) :
    Outcome (fun _ => False) (clearInode inode) s fun _ => Listed := by
  have hwait : waitOnInode inode s = .ok (⟨⟩, s) := by
    simp [waitOnInode, run_bind, run_get, Lib.when, hlock, run_pure, Except.bind]
  obtain ⟨s₂, hrun, hs₂⟩ := removeInodeFree_listed inode hs
  -- the entry is off the list, so its contents and its own links are free to change
  have hreset : ∀ n d, Unlisted inode
      { s₂ with
        nrFreeInodes := n
        inodeBlock := d
        iNext := update s₂.iNext inode none
        iPrev := update s₂.iPrev inode none } := by
    intro n d
    have hnext : update s₂.iNext inode none = s₂.iNext := by
      rw [← hs₂.next_eq, update_eq_self]
    have hprev : update s₂.iPrev inode none = s₂.iPrev := by
      rw [← hs₂.prev_eq, update_eq_self]
    rw [hnext, hprev]
    exact ⟨hs₂.nrInodes_eq, hs₂.next_eq, hs₂.prev_eq, hs₂.ring⟩
  have hinsert : ∀ n d, Outcome (fun _ => False) (insertInodeFree inode)
      { s₂ with
        nrFreeInodes := n
        inodeBlock := d
        iNext := update s₂.iNext inode none
        iPrev := update s₂.iPrev inode none } fun _ => Listed := by
    intro n d
    obtain ⟨s₃, hins, hs₃⟩ := insertInodeFree_listed (hreset n d)
    unfold Outcome
    rw [hins]
    exact hs₃
  apply Outcome.bind (R := fun _ s' => s' = s)
  · unfold Outcome
    rw [hwait]
  rintro _ _ rfl
  apply Outcome.bind (R := fun _ s => s = s₂)
  · unfold Outcome
    rw [hrun]
  · intro _ s hs
    apply Outcome.bind (R := fun r s' => r = s₂ ∧ s' = s₂) (Outcome.get ⟨hs, hs⟩)
    rintro r s' ⟨hr, hs'⟩
    rw [hr, hs']
    apply Outcome.bind (R := fun _ s' => ∃ n, s' = { s₂ with nrFreeInodes := n })
    · exact Outcome.when (fun _ => Outcome.modify ⟨_, rfl⟩) fun _ => ⟨_, rfl⟩
    · rintro _ _ ⟨n, rfl⟩
      exact hinsert n _

end Clear

section Walks

variable {s : Table} {root : InodeRef} {l : List InodeRef} {o o' : Option InodeRef} {dev : Nat}

theorem length_of_all (hl : l.Nodup) (hall : ∀ i, i ∈ l) : l.length = nrInode := by
  have huniv : l.toFinset = Finset.univ := by
    ext i
    simp [hall i]
  rw [← List.toFinset_card_of_nodup hl, huniv, Finset.card_univ, Fintype.card_fin]

/-- The device is not in use but for the root of the mount. -/
def Unused (s : Table) (dev : Nat) (mountRooti : InodeRef) (i : InodeRef) : Prop :=
  (s.inodeBlock i).iDev = dev → 0 < (s.inodeBlock i).iCount →
    i = mountRooti ∧ (s.inodeBlock i).iCount = 1

instance {dev : Nat} {root i : InodeRef} : Decidable (Unused s dev root i) :=
  inferInstanceAs (Decidable (_ → _ → _))

theorem umountWalk_eq (hl : LinksTo s.iNext o l o') :
    umountWalk dev root s l.length o = .ok (decide (∀ i, i ∈ l → Unused s dev root i)) := by
  induction l generalizing o with
  | nil =>
      simp [umountWalk]
  | cons i l ih =>
      obtain ⟨rfl, htail⟩ := hl
      have hcons : (∀ j, j ∈ i :: l → Unused s dev root j) ↔
          Unused s dev root i ∧ ∀ j, j ∈ l → Unused s dev root j := List.forall_mem_cons
      rw [decide_eq_decide.mpr hcons, Bool.decide_and]
      rw [List.length_cons, umountWalk]
      split_ifs with hskip hroot
      · have hi : Unused s dev root i := by
          intro hdev hcount
          omega
        rw [ih htail, decide_eq_true hi, Bool.true_and]
      · have hi : Unused s dev root i := fun _ _ => hroot
        rw [ih htail, decide_eq_true hi, Bool.true_and]
      · have hi : ¬ Unused s dev root i := by
          intro hu
          rw [not_or] at hskip
          exact hroot (hu (not_not.mp hskip.1) (Nat.pos_of_ne_zero hskip.2))
        rw [decide_eq_false hi, Bool.false_and]

theorem fsMayUmount_eq (h : Listed s) :
    fsMayUmount dev root s = .ok (decide (∀ i, Unused s dev root i)) := by
  obtain ⟨l, hring, hall, hfirst⟩ := h.ring
  have hlength := length_of_all hring.nodup hall
  cases l with
  | nil =>
      simp at hlength
      exact absurd hlength (by decide)
  | cons f t =>
      have hfirst' : s.firstInode = some f := hfirst
      have hwalk : umountWalk dev root s (f :: t).length (some f) = _ :=
        umountWalk_eq hring.linksTo
      rw [hlength] at hwalk
      rw [fsMayUmount, hfirst', h.nrInodes_eq, hwalk]
      simp [hall]

end Walks

section Boot

variable {s : Table}

/-- What the walks rely on. -/
structure TableSound (sb : Fin nrSuper → SuperBlock) (s : Table) : Prop where
  listed : Listed s
  synced : ∀ dev, Outcome NonNull (syncInodes sb dev) s fun seen _ => ∀ i, i ∈ seen
  umount : ∀ dev root, fsMayUmount dev root s = .ok (decide (∀ i, Unused s dev root i))

theorem inodeInit_null (s : Table) : inodeInit s = .error .nullPointer := by
  have hall : List.finRange nrInode = ⟨0, by decide⟩ :: (List.finRange nrInode).tail := by
    rfl
  rw [inodeInit, run_bind_ok run_setFirst, setupInodes, run_bind_ok run_modify, hall, insertAll]
  exact run_bind_error (insertInodeFree_null rfl)

/-- So no sequence of calls starts from a ring. -/
theorem bootAndPerform_unsound
    (sb : Fin nrSuper → SuperBlock)
    (rounds : Nat)
    (calls : List InodeCall) :
    ¬ Outcome NonNull (bootAndPerform sb rounds calls) Table.bss fun _ => TableSound sb := by
  intro h
  rw [Outcome, bootAndPerform, run_bind_error (inodeInit_null Table.bss)] at h
  exact h rfl

/-- The list is not a ring after `inode_init` alone. -/
theorem inodeInit_unsound :
    ¬ ∀ (sb : Fin nrSuper → SuperBlock) (rounds : Nat) (calls : List InodeCall),
      Outcome NonNull (bootAndPerform sb rounds calls) Table.bss fun _ => TableSound sb := by
  intro h
  have hboot := h (fun _ => ⟨0, 0, none⟩) 1 []
  rw [Outcome, bootAndPerform, run_bind_error (inodeInit_null Table.bss)] at hboot
  exact hboot rfl

end Boot

end Vfs
end Elks
