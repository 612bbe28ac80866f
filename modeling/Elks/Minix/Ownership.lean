import Elks.Minix.Truncate

/-!
# Every block has one owner

The operations that allocate and free blocks keep `Owned`: the inodes in use
own their zones exclusively.  They are

* `minix_getblk` and `minix_bread` with `create`, followed by whatever the
  caller writes into the buffer,
* `minix_truncate` after `i_size` was set to zero, as `open_namei` does it,
* `minix_put_inode`, as `iput` calls it, and
* `minix_new_inode`, which brings a new inode into use.

A run is a list of such calls; a call on an inode that is not in use is not
made.
-/

namespace Elks
namespace Minix

open Lib
open Buffer (Block blockSize)

section PutInode

variable {f : Inode → Inode} {rounds : List (Nat → Bool)} {ino i : Nat}

/-- `minix_put_inode`. -/
def minixPutInode (rounds : List (Nat → Bool)) (s : Fs) (ino : Nat) : Except Fault Fs :=
  if (s.inode ino).iNlink = 0 then do
    let s ← minixTruncate rounds (s.modInode ino fun i => { i with iSize := 0 }) ino
    return minixFreeInode s ino
  else .ok s

variable {s s' : Fs}

/-- Ownership depends on the maps of zones and on what the live places hold. -/
theorem Owned.congr (h : Owned s) (hsuper : SameSuper s s') (hzmap : s'.sZmap = s.sZmap)
    (hinodes : InodesMounted s')
    (hlive : ∀ p, s'.live p → s'.ptr p ≠ 0 → s.live p ∧ s'.ptr p = s.ptr p) : Owned s' := by
  refine ⟨h.zones.congr hsuper hzmap, hinodes, h.exclusive.shrink hlive ?_⟩
  intro p hp h0 hheld
  obtain ⟨hin, ht⟩ := hheld
  refine ⟨(hsuper.inZones _).mpr hin, ?_⟩
  unfold Fs.zoneTaken Fs.zoneBit at ht ⊢
  rwa [hzmap, hsuper.first]

theorem sameSuper_modInode (s : Fs) (i : Nat) (f : Inode → Inode) :
    SameSuper s (s.modInode i f) :=
  ⟨rfl, rfl, rfl, rfl⟩

@[simp]
theorem inode_modInode_self (s : Fs) (i : Nat) (f : Inode → Inode) :
    (s.modInode i f).inode i = f (s.inode i) :=
  Function.update_self _ _ _

theorem inode_modInode_ne (s : Fs) {i k : Nat} (f : Inode → Inode) (h : k ≠ i) :
    (s.modInode i f).inode k = s.inode k :=
  Function.update_of_ne h _ _

theorem ptr_congr (p : Place) (hz : (s'.inode p.ino).iZone = (s.inode p.ino).iZone)
    (hb : s'.block = s.block) : s'.ptr p = s.ptr p := by
  cases p <;> simp only [Place.ino] at hz <;> simp [Fs.ptr, Fs.through, hz, hb]

theorem ptr_modInode (s : Fs) (hf : (f (s.inode i)).iZone = (s.inode i).iZone) (p : Place) :
    (s.modInode i f).ptr p = s.ptr p := by
  refine ptr_congr p ?_ rfl
  by_cases hp : p.ino = i
  · rw [hp, inode_modInode_self, hf]
  · rw [inode_modInode_ne s f hp]

theorem holdsZones_modInode (s : Fs) (hf : (f (s.inode i)).iMode = (s.inode i).iMode) (k : Nat) :
    (s.modInode i f).holdsZones k ↔ s.holdsZones k := by
  unfold Fs.holdsZones
  by_cases hk : k = i
  · rw [hk, inode_modInode_self, hf]
    rfl
  · rw [inode_modInode_ne s f hk]
    rfl

theorem Owned.modInode (h : Owned s) (hz : (f (s.inode i)).iZone = (s.inode i).iZone)
    (hm : (f (s.inode i)).iMode = (s.inode i).iMode) :
    Owned (s.modInode i f) :=
  h.congr (sameSuper_modInode s i f) rfl (h.inodes.congr (sameSuper_modInode s i f) rfl)
    fun p hp _ => ⟨(holdsZones_modInode s hm p.ino).mp hp, ptr_modInode s hz p⟩

theorem minixFreeInode_owned (h : Owned s) (ino : Nat) : Owned (minixFreeInode s ino) := by
  unfold minixFreeInode
  split
  · exact h
  · split
    · exact h
    · split
      · exact h
      · split
        · exact h
        · split
          · exact h
          · rename_i hlo hhi _ bh hslot
            have hdiv : ino = ino / bitsPerBlock * bitsPerBlock + ino % bitsPerBlock := by
              unfold bitsPerBlock
              omega
            refine h.congr ⟨rfl, rfl, rfl, rfl⟩ rfl ⟨h.inodes.ninodes_lt, ?_⟩ ?_
            · refine h.inodes.covers.putBit fun _ => ?_
              rw [← hdiv]
              exact ⟨by omega, by omega⟩
            · intro p hp h0
              unfold Fs.live Fs.holdsZones Fs.inodeTaken at hp
              rw [bitAt_putBit s.sImap (Nat.mod_lt _ (by decide)), ← hdiv] at hp
              have hpi : p.ino ≠ ino := by
                intro he
                simp [he] at hp
              rw [if_neg hpi] at hp
              have hrec := inode_modInode_ne s (fun _ => blankInode) hpi
              refine ⟨⟨hp.1, ?_⟩, ptr_congr p (congrArg Inode.iZone hrec) rfl⟩
              have hmode := hp.2
              dsimp only at hmode
              rwa [hrec] at hmode

theorem minixNewInode_owned (h : Owned s) (cred : Cred) (dir : Nat) :
    Owned (minixNewInode cred s dir).2 := by
  have hnew := h.inodes.newInode cred dir
  revert hnew
  generalize minixNewInode cred s dir = r
  intro hnew
  cases hnew with
  | full => exact h
  | fresh ino maps hlo hhi hfree hmaps hmounted =>
      refine h.congr ⟨rfl, rfl, rfl, rfl⟩ rfl (hmounted.congr ⟨rfl, rfl, rfl, rfl⟩ rfl) ?_
      intro p hp h0
      have hpi : p.ino ≠ ino := by
        intro he
        refine h0 (ptr_blank ?_)
        rw [he, inode_modInode_self]
        rfl
      have hrec := inode_modInode_ne { s with sImap := maps }
        (fun _ => newInodeRecord cred (s.inode dir)) hpi
      refine ⟨?_, ptr_congr p (congrArg Inode.iZone hrec) rfl⟩
      unfold Fs.live Fs.holdsZones at hp ⊢
      rw [hrec] at hp
      refine ⟨?_, hp.2⟩
      have hbit : bitAt maps p.ino = true := hp.1
      rw [hmaps, if_neg hpi] at hbit
      exact hbit

theorem holdsZones_of_mode (hi : s.inodeTaken ino = true)
    (hmode : hasFormat sIfreg (s.inode ino).iMode = true ∨
      hasFormat sIfdir (s.inode ino).iMode = true ∨ hasFormat sIflnk (s.inode ino).iMode = true) :
    s.holdsZones ino := by
  simp only [hasFormat, beq_iff_eq] at hmode
  refine ⟨hi, ?_, ?_⟩
  · rcases hmode with hm | hm | hm <;> simp only [hasFormat, hm] <;> decide
  · rcases hmode with hm | hm | hm <;> simp only [hasFormat, hm] <;> decide

theorem minixTruncate_owned (h : Owned s) (hi : s.inodeTaken ino = true)
    (hrun : minixTruncate rounds s ino = .ok s') : Owned s' := by
  by_cases hz : s.holdsZones ino
  · exact (minixTruncate_shrunk h hz hrun).owned
  · unfold minixTruncate at hrun
    split at hrun
    · rename_i hmode
      rw [Bool.or_eq_true, Bool.or_eq_true, or_assoc] at hmode
      exact absurd (holdsZones_of_mode hi hmode) hz
    · cases hrun
      exact h

theorem minixPutInode_owned (h : Owned s) (hi : s.inodeTaken ino = true)
    (hrun : minixPutInode rounds s ino = .ok s') : Owned s' := by
  unfold minixPutInode at hrun
  split at hrun
  · cases ht : minixTruncate rounds (s.modInode ino fun i => { i with iSize := 0 }) ino with
    | error f =>
        rw [ht] at hrun
        cases hrun
    | ok s1 =>
        rw [ht] at hrun
        cases hrun
        have hsized : Owned (s.modInode ino fun i => { i with iSize := 0 }) :=
          h.modInode rfl rfl
        exact minixFreeInode_owned (minixTruncate_owned hsized hi ht) ino
  · cases hrun
    exact h

end PutInode

section Runs

variable {ops : List BlockOp} {i n : Nat}

/-- The calls that allocate and free blocks. -/
inductive BlockOp
  | newInode (cred : Cred) (dir : Nat)
  | getblk (ino block : Nat)
  | fill (ino block : Nat) (data : Block)
  | truncate (rounds : List (Nat → Bool)) (ino : Nat)
  | putInode (rounds : List (Nat → Bool)) (ino : Nat)

instance (s : Fs) (i : Nat) : Decidable (s.holdsZones i) :=
  inferInstanceAs (Decidable (_ ∧ _ ∧ _))

/-- One call. -/
def BlockOp.exec (s : Fs) : BlockOp → Except Fault Fs
  | newInode cred dir => .ok (minixNewInode cred s dir).2
  | getblk ino block =>
      if s.holdsZones ino then .ok (minixGetblk s ino (wrap 16 block) true).2 else .ok s
  | fill ino block data =>
      if s.holdsZones ino then
        match minixBread s ino (wrap 16 block) true with
        | (none, s) => .ok s
        | (some bh, s) => .ok (s.putBlock bh data)
      else .ok s
  | truncate rounds ino =>
      if s.inodeTaken ino then
        minixTruncate rounds (s.modInode ino fun i => { i with iSize := 0 }) ino
      else .ok s
  | putInode rounds ino =>
      if s.inodeTaken ino then minixPutInode rounds s ino else .ok s

/-- A run of calls, one after the other. -/
def runBlocks (s : Fs) : List BlockOp → Except Fault Fs
  | [] => .ok s
  | op :: ops => do
      let s ← op.exec s
      runBlocks s ops

variable {s s' : Fs}

theorem Owned.putBlock (h : Owned s) (hi : s.holdsZones i) (h0 : s.zoneOf i n ≠ 0) (b : Block) :
    Owned (s.putBlock (s.zoneOf i n) b) ∧
      ∀ p, s.live p → (s.putBlock (s.zoneOf i n) b).ptr p = s.ptr p := by
  have hd : s.live (dataPlace i n) := by
    unfold Fs.live
    rwa [dataPlace_ino]
  have hptr : ∀ p, s.live p → (s.putBlock (s.zoneOf i n) b).ptr p = s.ptr p := by
    refine ptr_putBlock fun q hq htab he => ?_
    have hqd := h.exclusive.unique q _ hq hd (by rw [he]; exact h0) he
    rw [hqd, dataPlace_table] at htab
    exact absurd htab (by decide)
  have hsuper : SameSuper s (s.putBlock (s.zoneOf i n) b) := ⟨rfl, rfl, rfl, rfl⟩
  exact ⟨h.congr hsuper rfl (h.inodes.congr hsuper rfl) fun p hp _ => ⟨hp, hptr p hp⟩, hptr⟩

theorem Owned.fileBlock_putBlock (h : Owned s) (hi : s.holdsZones i) (hn : n < 65536)
    (h0 : s.zoneOf i n ≠ 0) (b : Block) {k m : Nat} (hk : s.holdsZones k) (hm : m < 65536) :
    (s.putBlock (s.zoneOf i n) b).fileBlock k m =
      if k = i ∧ m = n then b else s.fileBlock k m := by
  have hptr := (h.putBlock hi h0 b).2
  have hdk : s.live (dataPlace k m) := by
    unfold Fs.live
    rwa [dataPlace_ino]
  have hdi : s.live (dataPlace i n) := by
    unfold Fs.live
    rwa [dataPlace_ino]
  unfold Fs.fileBlock
  have hzone : (s.putBlock (s.zoneOf i n) b).zoneOf k m = s.zoneOf k m := hptr _ hdk
  rw [hzone]
  by_cases hsame : k = i ∧ m = n
  · obtain ⟨rfl, rfl⟩ := hsame
    rw [if_neg h0, if_pos ⟨rfl, rfl⟩]
    exact Function.update_self _ _ _
  · rw [if_neg hsame]
    split
    · rfl
    · rename_i hk0
      refine Function.update_of_ne ?_ _ _
      intro he
      exact hsame (dataPlace_inj hm hn (h.exclusive.unique _ _ hdk hdi hk0 he))

theorem BlockOp.exec_owned (h : Owned s) {op : BlockOp} (hrun : op.exec s = .ok s') : Owned s' := by
  cases op with
  | newInode cred dir =>
      cases hrun
      exact minixNewInode_owned h cred dir
  | getblk ino block =>
      simp only [exec] at hrun
      split at hrun
      · rename_i hi
        cases hrun
        obtain ⟨s1, hgrown, hget⟩ := minixGetblk_create h hi (wrap 16 block)
        rw [hget]
        exact hgrown.owned
      · cases hrun
        exact h
  | fill ino block data =>
      simp only [exec] at hrun
      split at hrun
      · rename_i hi
        obtain ⟨s1, hgrown, hget⟩ := minixGetblk_create h hi (wrap 16 block)
        rw [minixBread, hget] at hrun
        cases hbh : bufferOf (s1.zoneOf ino (wrap 16 block)) with
        | none =>
            rw [hbh] at hrun
            cases hrun
            exact hgrown.owned
        | some bh =>
            rw [hbh] at hrun
            cases hrun
            obtain ⟨h0, rfl⟩ := bufferOf_eq_some.mp hbh
            exact (hgrown.owned.putBlock ((hgrown.attrs.holdsZones ino).mpr hi) h0 data).1
      · cases hrun
        exact h
  | truncate rounds ino =>
      simp only [exec] at hrun
      split at hrun
      · rename_i hi
        exact minixTruncate_owned (h.modInode rfl rfl) hi hrun
      · cases hrun
        exact h
  | putInode rounds ino =>
      simp only [exec] at hrun
      split at hrun
      · rename_i hi
        exact minixPutInode_owned h hi hrun
      · cases hrun
        exact h

theorem runBlocks_owned (h : Owned s) (hrun : runBlocks s ops = .ok s') : Owned s' := by
  induction ops generalizing s with
  | nil =>
      cases hrun
      exact h
  | cons op ops ih =>
      unfold runBlocks at hrun
      cases hop : op.exec s with
      | error f =>
          rw [hop] at hrun
          cases hrun
      | ok s1 =>
          rw [hop] at hrun
          exact ih (op.exec_owned h hop) hrun

/-- The calls of a run during which no other task holds a buffer. -/
def BlockOp.alone : BlockOp → Prop
  | truncate rounds _ => rounds = [idle]
  | putInode rounds _ => rounds = [idle]
  | _ => True

theorem runBlocks_returns (h : ∀ op ∈ ops, op.alone) : ∃ s', runBlocks s ops = .ok s' := by
  induction ops generalizing s with
  | nil => exact ⟨s, rfl⟩
  | cons op ops ih =>
      have hop : ∃ s1, op.exec s = .ok s1 := by
        have halone := h op List.mem_cons_self
        cases op with
        | newInode cred dir => exact ⟨_, rfl⟩
        | getblk ino block =>
            simp only [BlockOp.exec]
            split <;> exact ⟨_, rfl⟩
        | fill ino block data =>
            simp only [BlockOp.exec]
            split
            · split <;> exact ⟨_, rfl⟩
            · exact ⟨_, rfl⟩
        | truncate rounds ino =>
            simp only [BlockOp.alone] at halone
            simp only [BlockOp.exec, halone]
            split
            · exact minixTruncate_idle _ ino
            · exact ⟨_, rfl⟩
        | putInode rounds ino =>
            simp only [BlockOp.alone] at halone
            simp only [BlockOp.exec, halone, minixPutInode]
            split
            · split
              · obtain ⟨s1, hs1⟩ :=
                  minixTruncate_idle (s.modInode ino fun i => { i with iSize := 0 }) ino
                rw [hs1]
                exact ⟨_, rfl⟩
              · exact ⟨_, rfl⟩
            · exact ⟨_, rfl⟩
      obtain ⟨s1, hs1⟩ := hop
      obtain ⟨s', hs'⟩ := ih (s := s1) fun op hop => h op (List.mem_cons_of_mem _ hop)
      exact ⟨s', by rw [runBlocks, hs1]; exact hs'⟩

/-- After every run of calls the block numbers stored in inodes in use and in
their tables are taken zones, each stored in one place; so `minix_new_block`
never hands out a block that some file still uses. -/
theorem runBlocks_exclusive
    (s s' : Fs)
    (h : Owned s)
    (ops : List BlockOp)
    (hrun : runBlocks s ops = .ok s') :
    (∀ p, s'.live p → s'.ptr p ≠ 0 →
      s'.sFirstdatazone ≤ s'.ptr p ∧ s'.ptr p < s'.sNzones ∧ s'.zoneTaken (s'.ptr p) = true ∧
        ∀ q, s'.live q → s'.ptr q = s'.ptr p → q = p) ∧
      ∀ p, s'.live p → (minixNewBlock s').1 ≠ 0 → s'.ptr p ≠ (minixNewBlock s').1 := by
  have howned := runBlocks_owned h hrun
  refine ⟨?_, ?_⟩
  · intro p hp h0
    obtain ⟨⟨hlo, hhi⟩, htaken⟩ := howned.exclusive.taken_of_held p hp h0
    refine ⟨hlo, hhi, htaken, fun q hq he => ?_⟩
    exact (howned.exclusive.unique p q hp hq h0 he.symm).symm
  · intro p hp hne
    have hnew := howned.zones.newBlock
    revert hnew hne
    generalize minixNewBlock s' = r
    intro hne hnew
    cases hnew with
    | full => exact absurd rfl hne
    | fresh z maps hz hfree hmaps hmounted => exact howned.not_held hz hfree hp

/-- A map block whose bits from `lo` to `n` are clear. -/
def freshMap (lo n : Nat) : Nat → Option Bitmap :=
  fun slot => if slot = 0 then some fun bit => decide (bit < lo) || decide (n < bit) else none

theorem freshMap_covers {lo n : Nat} {ok : Nat → Prop} (h : ∀ b, lo ≤ b → b ≤ n → ok b) :
    MapCovers (freshMap lo n) ok := by
  intro i bh j _ hbh _ hclear
  unfold freshMap at hbh
  split at hbh
  · rename_i hi
    rw [Option.some.injEq] at hbh
    subst hbh
    simp only [Bool.or_eq_false_iff, decide_eq_false_iff_not] at hclear
    rw [hi]
    exact h _ (by omega) (by omega)
  · cases hbh

/-- A file system of three inodes and fifteen zones.  The zones are free; inode
one is an empty file that is open and has no name any more. -/
def freshFs : Fs where
  sNinodes := 3
  sNzones := 20
  sFirstdatazone := 5
  sFlags := 0
  sImap := freshMap 2 3
  sZmap := freshMap 1 15
  inode := fun i => if i = 1 then { blankInode with iMode := sIfreg, iCount := 1 } else blankInode
  block := fun _ => zeroBlock

theorem freshFs_owned : Owned freshFs := by
  have hblank : ∀ p, freshFs.ptr p = 0 := by
    intro p
    refine ptr_blank ?_
    unfold freshFs
    dsimp only
    split <;> rfl
  refine ⟨⟨by decide, by decide, ?_⟩, ⟨by decide, ?_⟩, ⟨?_, ?_⟩⟩
  · exact freshMap_covers fun b hlo hhi => ⟨hlo, by change 5 + b - 1 < 20; omega⟩
  · exact freshMap_covers fun b hlo hhi => ⟨by omega, hhi⟩
  · intro p _ h0
    exact absurd (hblank p) h0
  · intro p q _ _ h0 _
    exact absurd (hblank p) h0

/-- The credentials of the superuser. -/
def rootCred : Cred where
  euid := 0
  egid := 0
  groups := []
  umask := 0

/-- A run that fills a direct block, a block of the indirect block and one of the
double indirect block, truncates the file and removes it. -/
def shortBlockRun : List BlockOp :=
  [.fill 1 0 (fun _ => 1), .fill 1 7 (fun _ => 2), .getblk 1 600,
    .truncate [idle] 1, .getblk 1 3, .putInode [idle] 1, .newInode rootCred 0]

theorem runBlocks_exclusive_short :
    ∃ s', runBlocks freshFs shortBlockRun = .ok s' ∧
      (∀ p, s'.live p → s'.ptr p ≠ 0 →
        s'.sFirstdatazone ≤ s'.ptr p ∧ s'.ptr p < s'.sNzones ∧ s'.zoneTaken (s'.ptr p) = true ∧
          ∀ q, s'.live q → s'.ptr q = s'.ptr p → q = p) ∧
        ∀ p, s'.live p → (minixNewBlock s').1 ≠ 0 → s'.ptr p ≠ (minixNewBlock s').1 := by
  have halone : ∀ op ∈ shortBlockRun, op.alone := by
    simp [shortBlockRun, BlockOp.alone]
  obtain ⟨s', hrun⟩ := runBlocks_returns (s := freshFs) halone
  exact ⟨s', hrun, runBlocks_exclusive freshFs s' freshFs_owned shortBlockRun hrun⟩

end Runs

end Minix
end Elks
