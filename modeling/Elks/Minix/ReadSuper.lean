import Elks.Lib.Outcome
import Elks.Minix.SuperState

/-!
# Mounting a Minix file system (fs/minix/inode.c)

`minix_read_super` reads block 1 and the two bit maps of a device and keeps
their buffers for the time of the mount.

**World.**  What the buffer cache does is given from outside: the outcome of
every `bread`, and which buffers are in L1 after it.  Of the cache the model
keeps what the caller answers for, the counts `b_count` and `b_mapcount`; a
buffer that is counted as mapped stays in L1, any other may be sent back.

**Faults.**  An index beyond `s_imap` or `s_zmap`, an access through a `NULL`
head, and an access to the data of a buffer that is not in L1 end the call with
a fault.

`readSuper_safe_iff` says for every content of block 1 and every world when the
call is safe.
-/

namespace Elks
namespace Minix

open Lib
open Buffer (Bh Block)
open Function (update)

/-- `MINIX_SUPER_MAGIC`. -/
def minixSuperMagic : Nat :=
  0x137f

/-- `MINIX_I_MAP_SLOTS`. -/
def minixIMapSlots : Nat :=
  8

/-- `MINIX_Z_MAP_SLOTS`. -/
def minixZMapSlots : Nat :=
  64

/-- How `minix_read_super` can go wrong. -/
inductive MountFault
  | badIndex
  | nullHead
  | unmapped
  | panic
deriving DecidableEq, Repr

/-- The two bit maps. -/
inductive MapKind
  | imap
  | zmap
deriving DecidableEq

/-- `struct minix_sb_info`.  The pointer `s_ms` is the data of `s_sbh`. -/
structure MinixSbInfo where
  sNinodes : Nat
  sNzones : Nat
  sImapBlocks : Nat
  sZmapBlocks : Nat
  sFirstdatazone : Nat
  sLogZoneSize : Nat
  sMaxSize : Nat
  sImap : List (Option Bh)
  sZmap : List (Option Bh)
  sDirsize : Nat
  sNamelen : Nat
  sSbh : Option Bh
  sMountState : Nat
  sVersion : Nat

/-- The superblock that is filled in, and the heads of the cache. -/
structure Loading where
  bCount : Bh → Nat
  bMapcount : Bh → Nat
  inL1 : Bh → Bool
  bDirty : Bh → Bool
  calls : Nat
  sDev : Nat
  sFlags : Nat
  sLock : Bool
  sDirt : Bool
  sOp : Bool
  sMounted : Bool
  info : MinixSbInfo

/-- What one `bread` does: the buffer it returns, and the buffers in L1
afterwards. -/
structure Read where
  found : Option Bh
  inL1 : Bh → Bool

/-- Block 1, the outcome of each `bread` by its number and block, and the
buffers in L1 after `map_buffer` and after `iget`. -/
structure World where
  block : Block
  reads : Nat → Nat → Read
  mapped : Bh → Bool
  igot : Bh → Bool

/-- A routine of the mount. -/
abbrev Mounting (α : Type) :=
  RoutineOf MountFault Loading α

/-- `f` says which unmapped buffers are left in L1. -/
def Loading.settle (f : Bh → Bool) (s : Loading) : Loading :=
  { s with inL1 := fun b => f b || decide (0 < s.bMapcount b) }

/-- The slots of a bit map. -/
def Loading.slots (s : Loading) : MapKind → List (Option Bh)
  | .imap => s.info.sImap
  | .zmap => s.info.sZmap

/-- `s_imap[i] = bh` or `s_zmap[i] = bh`. -/
def Loading.setSlot (s : Loading) (kind : MapKind) (i : Nat) (bh : Option Bh) : Loading :=
  match kind with
  | .imap => { s with info := { s.info with sImap := s.info.sImap.set i bh } }
  | .zmap => { s with info := { s.info with sZmap := s.info.sZmap.set i bh } }

/-- The declared length of a bit map. -/
def MapKind.size : MapKind → Nat
  | .imap => minixIMapSlots
  | .zmap => minixZMapSlots

section Code

variable (w : World)

/-- `bread`. -/
def bread (block : Nat) : Mounting (Option Bh) := do
  let s ← get
  let r := w.reads s.calls block
  modify fun s =>
    match r.found with
    | some bh =>
        { s.settle r.inL1 with
          calls := s.calls + 1
          bCount := update s.bCount bh (s.bCount bh + 1) }
    | none => { s.settle r.inL1 with calls := s.calls + 1 }
  return r.found

/-- `map_buffer`. -/
def mapBuffer (bh : Bh) : Mounting Unit :=
  modify fun s =>
    { s with bMapcount := update s.bMapcount bh (s.bMapcount bh + 1) }.settle w.mapped

/-- `unmap_buffer`. -/
def unmapBuffer (bh : Bh) : Mounting Unit :=
  modify fun s => { s with bMapcount := update s.bMapcount bh (s.bMapcount bh - 1) }

/-- `__brelse`. -/
def brelse (bh : Bh) : Mounting Unit := do
  let s ← get
  if s.bCount bh = 0 then
    throw .panic
  else
    modify fun s => { s with bCount := update s.bCount bh (s.bCount bh - 1) }

/-- `unmap_brelse`. -/
def unmapBrelse (bh : Bh) : Mounting Unit := do
  unmapBuffer bh
  brelse bh

/-- An access through `b_data`. -/
def data (bh : Bh) : Mounting Unit := do
  let s ← get
  if s.inL1 bh then
    pure ()
  else
    throw .unmapped

def lockSuper : Mounting Unit :=
  modify fun s => { s with sLock := true }

def unlockSuper : Mounting Unit :=
  modify fun s => { s with sLock := false }

def setDev (dev : Nat) : Mounting Unit :=
  modify fun s => { s with sDev := dev }

/-- The loops that read the bit maps: the slot `pi`, the next block, and the
number of blocks to go. -/
def loadMap (kind : MapKind) : Nat → Nat → Nat → Mounting Nat
  | 0, _, block => return block
  | n + 1, pi, block => do
      let bh ← bread w block
      if pi < kind.size then
        modify fun s => s.setSlot kind pi bh
        match bh with
        | some _ => loadMap kind n (pi + 1) (block + 1)
        | none => return block
      else
        throw .badIndex

/-- The loops that release the bit maps. -/
def releaseAll : List (Option Bh) → Mounting Unit
  | [] => pure ()
  | none :: l => releaseAll l
  | some bh :: l => do
      brelse bh
      releaseAll l

/-- `set_bit(0, map[0]->b_data)`. -/
def setBitZero (kind : MapKind) : Mounting Unit := do
  match (← get).slots kind with
  | some bh :: _ => data bh
  | _ => throw .nullHead

/-- The exits that give up: the device is cleared and block 1 released. -/
def giveUp (bh : Bh) : Mounting Bool := do
  setDev 0
  unlockSuper
  unmapBrelse bh
  return false

/-- `minix_read_super` once the bit maps are read.  `iget` always finds an
inode; it releases what it takes. -/
def finish (dev : Nat) (bh : Bh) : Mounting Bool := do
  setBitZero .imap
  setBitZero .zmap
  unlockSuper
  setDev dev
  modify fun s => { s with sOp := true, sMounted := true }.settle w.igot
  let s ← get
  when (hasFlag s.sFlags msRdonly = false) do
    data bh
    modify fun s => { s with bDirty := update s.bDirty bh true, sDirt := true }
  unmapBuffer bh
  return true

/-- The loops that clear the slots. -/
def clearSlots (info : MinixSbInfo) : MinixSbInfo :=
  { info with
    sImap := List.replicate minixIMapSlots none
    sZmap := List.replicate minixZMapSlots none }

/-- `minix_read_super` once the slots are clear. -/
def loadMaps (dev : Nat) (bh : Bh) : Mounting Bool := do
  let s ← get
  let block ← loadMap w .imap s.info.sImapBlocks 0 2
  let block ← loadMap w .zmap s.info.sZmapBlocks 0 block
  let s ← get
  if block ≠ wrap 16 (2 + s.info.sImapBlocks + s.info.sZmapBlocks) then
    releaseAll s.info.sImap
    releaseAll s.info.sZmap
    giveUp bh
  else
    finish w dev bh

/-- The words of block 1, as `struct minix_super_block` names them. -/
def fillInfo (b : Block) (bh : Bh) (info : MinixSbInfo) : MinixSbInfo :=
  { info with
    sSbh := some bh
    sMountState := word b sState
    sNinodes := word b ⟨0, by decide⟩
    sImapBlocks := word b ⟨2, by decide⟩
    sZmapBlocks := word b ⟨3, by decide⟩
    sFirstdatazone := word b ⟨4, by decide⟩
    sLogZoneSize := word b ⟨5, by decide⟩
    sMaxSize := word b ⟨6, by decide⟩ + 2 ^ 16 * word b ⟨7, by decide⟩ }

def sMagic (b : Block) : Nat :=
  word b ⟨8, by decide⟩

/-- What follows the test of the magic number. -/
def minixInfo (b : Block) (info : MinixSbInfo) : MinixSbInfo :=
  { info with
    sVersion := 1
    sNzones := word b ⟨1, by decide⟩
    sDirsize := 16
    sNamelen := 14 }

/-- `minix_read_super`; the value says whether `s` is returned. -/
def minixReadSuper : Mounting Bool := do
  let s ← get
  let dev := s.sDev
  lockSuper
  match ← bread w 1 with
  | none => do
      setDev 0
      unlockSuper
      return false
  | some bh => do
      mapBuffer w bh
      data bh
      modify fun s => { s with info := fillInfo w.block bh s.info }
      if sMagic w.block = minixSuperMagic then
        modify fun s => { s with info := clearSlots (minixInfo w.block s.info) }
        loadMaps w dev bh
      else
        giveUp bh

end Code

/-- A call is safe: it comes back without a fault, and

* if it fails, the device is cleared, the superblock unlocked and every buffer
  counted as before;
* if it succeeds, both bit maps have their first block. -/
def SafeMount (w : World) (s : Loading) : Prop :=
  match minixReadSuper w s with
  | .error _ => False
  | .ok (false, s') =>
      s'.sDev = 0 ∧ s'.sLock = false ∧ s'.bCount = s.bCount ∧ s'.bMapcount = s.bMapcount
  | .ok (true, s') =>
      (∃ b l, s'.info.sImap = some b :: l) ∧ ∃ b l, s'.info.sZmap = some b :: l

/-- The number of reads that succeed before the first that fails, from a call
and a block on. -/
def successes (w : World) (call block : Nat) : Nat → Nat
  | 0 => 0
  | n + 1 =>
      if (w.reads call block).found.isSome then
        successes w (call + 1) (block + 1) n + 1
      else
        0

/-- The number of reads made, which is one more if the last one fails. -/
def attempts (w : World) (call block n : Nat) : Nat :=
  min n (successes w call block n + 1)

/-- Whether a buffer is in L1 after a read, block 1 being mapped in `bh`. -/
def leftInL1 (w : World) (s : Loading) (bh : Bh) (call block : Nat) (m : Bh) : Bool :=
  (w.reads call block).inL1 m || decide (0 < update s.bMapcount bh (s.bMapcount bh + 1) m)

/-- What makes the reading of the bit maps safe, with `p` blocks of the inode
map read in `a` reads and `q` blocks of the zone map in `z` reads. -/
structure MapsSafe (w : World) (s : Loading) (bh : Bh) (imapBlocks zmapBlocks p a q z : Nat) :
    Prop where
  imapFits : a ≤ minixIMapSlots
  zmapFits : z ≤ minixZMapSlots
  first : 2 + p + q = wrap 16 (2 + imapBlocks + zmapBlocks) →
    0 < p ∧ 0 < q ∧
      (∀ m ∈ (w.reads (s.calls + 1) 2).found,
        leftInL1 w s bh (s.calls + a + z) (1 + p + z) m) ∧
      ∀ m ∈ (w.reads (s.calls + 1 + a) (2 + p)).found,
        leftInL1 w s bh (s.calls + a + z) (1 + p + z) m

/-- Block 1 cannot be read or has another magic number; or the reads of the bit
maps stay within the slots and, where the numbers agree, leave the first block
of each map in L1. -/
def MountsSafely (w : World) (s : Loading) : Prop :=
  ∀ bh ∈ (w.reads s.calls 1).found, sMagic w.block = minixSuperMagic →
    let imapBlocks := word w.block ⟨2, by decide⟩
    let zmapBlocks := word w.block ⟨3, by decide⟩
    let p := successes w (s.calls + 1) 2 imapBlocks
    let a := attempts w (s.calls + 1) 2 imapBlocks
    MapsSafe w s bh imapBlocks zmapBlocks p a
      (successes w (s.calls + 1 + a) (2 + p) zmapBlocks)
      (attempts w (s.calls + 1 + a) (2 + p) zmapBlocks)

section Load

variable {w : World} {kind : MapKind} {s s' : Loading} {n pi block call : Nat}

theorem successes_le (w : World) (call block n : Nat) : successes w call block n ≤ n := by
  induction n generalizing call block with
  | zero => exact Nat.le_refl 0
  | succ n ih =>
      unfold successes
      split_ifs
      · exact Nat.succ_le_succ (ih (call + 1) (block + 1))
      · exact Nat.zero_le _

/-- What the reading of a bit map leaves, from slot `pi` on. -/
structure Loaded (w : World) (kind : MapKind) (n pi block : Nat) (s s' : Loading) : Prop where
  calls : s'.calls = s.calls + attempts w s.calls block n
  length : (s'.slots kind).length = (s.slots kind).length
  others : ∀ kind', kind' ≠ kind → s'.slots kind' = s.slots kind'
  count : ∀ b, s'.bCount b + (s.slots kind).count (some b) =
    s.bCount b + (s'.slots kind).count (some b)
  before : ∀ j, j < pi → (s'.slots kind)[j]? = (s.slots kind)[j]?
  first : 0 < successes w s.calls block n → (s'.slots kind)[pi]? = some (w.reads s.calls block).found
  unread : successes w s.calls block n = 0 → (s'.slots kind)[pi]? = (s.slots kind)[pi]?
  idle : attempts w s.calls block n = 0 → s'.inL1 = s.inL1
  inL1 : 0 < attempts w s.calls block n → ∀ b, s'.inL1 b =
    ((w.reads (s.calls + attempts w s.calls block n - 1)
      (block + attempts w s.calls block n - 1)).inL1 b || decide (0 < s.bMapcount b))
  rest : s' =
    { s with
      bCount := s'.bCount
      inL1 := s'.inL1
      calls := s'.calls
      info := { s.info with sImap := s'.info.sImap, sZmap := s'.info.sZmap } }

theorem attempts_zero (call : Nat) :
    attempts w call block 0 = 0 :=
  Nat.zero_min _

theorem successes_some (h : (w.reads call block).found.isSome) :
    successes w call block (n + 1) = successes w (call + 1) (block + 1) n + 1 := by
  rw [successes, if_pos h]

theorem attempts_some (h : (w.reads call block).found.isSome) :
    attempts w call block (n + 1) = attempts w (call + 1) (block + 1) n + 1 := by
  rw [attempts, successes_some h, attempts, Nat.succ_min_succ]

theorem successes_none (h : (w.reads call block).found = none) :
    successes w call block (n + 1) = 0 := by
  rw [successes, h]
  rfl

theorem attempts_none (h : (w.reads call block).found = none) :
    attempts w call block (n + 1) = 1 := by
  rw [attempts, successes_none h]
  omega

/-- The state after one read into slot `pi`. -/
def readInto (w : World) (kind : MapKind) (pi block : Nat) (s : Loading) : Loading :=
  let r := w.reads s.calls block
  ({ s.settle r.inL1 with
    calls := s.calls + 1
    bCount := fun b => s.bCount b + if r.found = some b then 1 else 0 } : Loading).setSlot kind pi
      r.found

theorem run_bread :
    bread w block s = .ok ((w.reads s.calls block).found,
      { s.settle (w.reads s.calls block).inL1 with
        calls := s.calls + 1
        bCount := fun b =>
          s.bCount b + if (w.reads s.calls block).found = some b then 1 else 0 }) := by
  rw [bread, run_bind_ok run_get]
  rw [run_bind_ok run_modify, run_pure]
  cases hf : (w.reads s.calls block).found with
  | none =>
      simp only [reduceCtorEq, if_false, Nat.add_zero]
      rfl
  | some bh =>
      have hcount : update s.bCount bh (s.bCount bh + 1) =
          fun b => s.bCount b + if bh = b then 1 else 0 := by
        funext b
        by_cases hb : b = bh
        · simp [hb]
        · simp [hb, Ne.symm hb]
      simp [hcount]

theorem run_loadMap_succ (hpi : pi < kind.size) :
    loadMap w kind (n + 1) pi block s =
      match (w.reads s.calls block).found with
      | some _ => loadMap w kind n (pi + 1) (block + 1) (readInto w kind pi block s)
      | none => .ok (block, readInto w kind pi block s) := by
  rw [loadMap, run_bind_ok run_bread, if_pos hpi, run_bind_ok run_modify]
  cases hf : (w.reads s.calls block).found <;> simp [readInto, hf, run_pure]

theorem slots_readInto :
    (readInto w kind pi block s).slots kind =
      (s.slots kind).set pi (w.reads s.calls block).found := by
  cases kind <;> rfl

theorem slots_readInto_ne {kind' : MapKind} (h : kind' ≠ kind) :
    (readInto w kind pi block s).slots kind' = s.slots kind' := by
  cases kind <;> cases kind' <;> first | rfl | exact absurd rfl h

theorem count_readInto (w : World) (block : Nat) (hpi : (s.slots kind)[pi]? = some none) (b : Bh) :
    (readInto w kind pi block s).bCount b + (s.slots kind).count (some b) =
      s.bCount b + ((readInto w kind pi block s).slots kind).count (some b) := by
  obtain ⟨hlt, hget⟩ := List.getElem?_eq_some_iff.mp hpi
  have hcount : (readInto w kind pi block s).bCount b =
      s.bCount b + if (w.reads s.calls block).found = some b then 1 else 0 := by
    cases kind <;> rfl
  rw [hcount, slots_readInto, List.count_set hlt, hget]
  simp
  omega

theorem loaded_refl :
    Loaded w kind 0 pi block s s where
  calls := by
    rw [attempts_zero, Nat.add_zero]
  length := rfl
  others := fun _ _ => rfl
  count := fun _ => rfl
  before := fun _ _ => rfl
  first := fun h => absurd h (Nat.lt_irrefl 0)
  unread := fun _ => rfl
  idle := fun _ => rfl
  inL1 := by
    intro h
    rw [attempts_zero] at h
    exact absurd h (Nat.lt_irrefl 0)
  rest := rfl

theorem loaded_readInto_none (hpi : (s.slots kind)[pi]? = some none)
    (hf : (w.reads s.calls block).found = none) :
    Loaded w kind (n + 1) pi block s (readInto w kind pi block s) where
  calls := by
    rw [attempts_none hf]
    cases kind <;> rfl
  length := by
    rw [slots_readInto, List.length_set]
  others := fun _ h => slots_readInto_ne h
  count := count_readInto w block hpi
  before := by
    intro j hj
    rw [slots_readInto, List.getElem?_set_ne (by omega)]
  first := by
    rw [successes_none hf]
    exact fun h => absurd h (Nat.lt_irrefl 0)
  unread := by
    intro _
    obtain ⟨hlt, _⟩ := List.getElem?_eq_some_iff.mp hpi
    rw [slots_readInto, List.getElem?_set_self hlt, hpi, hf]
  idle := by
    rw [attempts_none hf]
    exact fun h => absurd h (Nat.succ_ne_zero 0)
  inL1 := by
    intro _ b
    rw [attempts_none hf, Nat.add_sub_cancel, Nat.add_sub_cancel]
    cases kind <;> rfl
  rest := by
    cases kind <;> rfl

theorem Loaded.cons (hpi : (s.slots kind)[pi]? = some none)
    (hf : (w.reads s.calls block).found.isSome)
    (h : Loaded w kind n (pi + 1) (block + 1) (readInto w kind pi block s) s') :
    Loaded w kind (n + 1) pi block s s' := by
  have hcalls : (readInto w kind pi block s).calls = s.calls + 1 := by
    cases kind <;> rfl
  have hmap : (readInto w kind pi block s).bMapcount = s.bMapcount := by
    cases kind <;> rfl
  have hatt : attempts w s.calls block (n + 1) =
      attempts w (readInto w kind pi block s).calls (block + 1) n + 1 := by
    rw [attempts_some hf, hcalls]
  obtain ⟨hlt, _⟩ := List.getElem?_eq_some_iff.mp hpi
  constructor
  · rw [h.calls, hatt, hcalls]
    omega
  · rw [h.length, slots_readInto, List.length_set]
  · intro kind' hne
    rw [h.others kind' hne, slots_readInto_ne hne]
  · intro b
    have h₁ := h.count b
    have h₂ := count_readInto w block hpi b
    omega
  · intro j hj
    rw [h.before j (by omega), slots_readInto, List.getElem?_set_ne (by omega)]
  · intro _
    rw [h.before pi (Nat.lt_succ_self pi), slots_readInto, List.getElem?_set_self hlt]
  · rw [successes_some hf]
    exact fun h => absurd h (Nat.succ_ne_zero _)
  · rw [hatt]
    exact fun h => absurd h (Nat.succ_ne_zero _)
  · intro _ b
    rcases Nat.eq_zero_or_pos (attempts w (readInto w kind pi block s).calls (block + 1) n) with
      hzero | hpos
    · rw [h.idle hzero, hatt, hzero]
      cases kind <;> rfl
    · rw [h.inL1 hpos b, hatt, hcalls, hmap]
      have hcall : ∀ x y : Nat, 0 < y → x + 1 + y - 1 = x + (y + 1) - 1 := by omega
      rw [hcalls] at hpos
      rw [hcall _ _ hpos, hcall _ _ hpos]
  · rw [h.rest]
    cases kind <;> rfl

theorem run_loadMap (hlen : (s.slots kind).length = kind.size)
    (hempty : ∀ j, pi ≤ j → j < kind.size → (s.slots kind)[j]? = some none)
    (hfits : pi + attempts w s.calls block n ≤ kind.size) :
    ∃ s', loadMap w kind n pi block s = .ok (block + successes w s.calls block n, s') ∧
      Loaded w kind n pi block s s' := by
  induction n generalizing s pi block with
  | zero =>
      exact ⟨s, rfl, loaded_refl⟩
  | succ n ih =>
      have hcalls : (readInto w kind pi block s).calls = s.calls + 1 := by
        cases kind <;> rfl
      cases hf : (w.reads s.calls block).found with
      | none =>
          rw [attempts_none hf] at hfits
          refine ⟨readInto w kind pi block s, ?_,
            loaded_readInto_none (hempty pi (Nat.le_refl pi) hfits) hf⟩
          rw [run_loadMap_succ hfits, hf, successes_none hf]
          rfl
      | some bh =>
          have hsome : (w.reads s.calls block).found.isSome := by
            rw [hf]
            rfl
          rw [attempts_some hsome] at hfits
          have hpi : pi < kind.size := by omega
          have hrest : ∃ s', loadMap w kind n (pi + 1) (block + 1) (readInto w kind pi block s) =
              .ok (block + 1 + successes w (s.calls + 1) (block + 1) n, s') ∧
              Loaded w kind n (pi + 1) (block + 1) (readInto w kind pi block s) s' := by
            rw [← hcalls]
            apply ih
            · rw [slots_readInto, List.length_set, hlen]
            · intro j hj hlt
              rw [slots_readInto, List.getElem?_set_ne (by omega)]
              exact hempty j (by omega) hlt
            · rw [hcalls]
              omega
          obtain ⟨s', hrun, hload⟩ := hrest
          refine ⟨s', ?_, hload.cons (hempty pi (Nat.le_refl pi) hpi) hsome⟩
          have hblock : block + (successes w (s.calls + 1) (block + 1) n + 1) =
              block + 1 + successes w (s.calls + 1) (block + 1) n := by omega
          rw [run_loadMap_succ hpi, hf, successes_some hsome, hblock]
          exact hrun

theorem run_loadMap_badIndex (hpi : pi ≤ kind.size)
    (hover : kind.size < pi + attempts w s.calls block n) :
    loadMap w kind n pi block s = .error .badIndex := by
  induction n generalizing s pi block with
  | zero =>
      rw [attempts_zero] at hover
      omega
  | succ n ih =>
      rcases Nat.lt_or_ge pi kind.size with hlt | hge
      · cases hf : (w.reads s.calls block).found with
        | none =>
            rw [attempts_none hf] at hover
            omega
        | some bh =>
            have hsome : (w.reads s.calls block).found.isSome := by
              rw [hf]
              rfl
            have hcalls : (readInto w kind pi block s).calls = s.calls + 1 := by
              cases kind <;> rfl
            rw [attempts_some hsome] at hover
            rw [run_loadMap_succ hlt, hf]
            apply ih hlt
            rw [hcalls]
            omega
      · rw [loadMap, run_bind_ok run_bread, if_neg (by omega), run_throw]

end Load

section Exits

variable {w : World} {s : Loading} {bh : Bh} {kind : MapKind}

theorem run_brelse_held (h : s.bCount bh ≠ 0) :
    brelse bh s = .ok ((),
      { s with bCount := fun b => s.bCount b - if bh = b then 1 else 0 }) := by
  rw [brelse, run_bind_ok run_get, if_neg h, run_modify]
  have hcount : update s.bCount bh (s.bCount bh - 1) =
      fun b => s.bCount b - if bh = b then 1 else 0 := by
    funext b
    by_cases hb : b = bh
    · simp [hb]
    · simp [hb, Ne.symm hb]
  rw [hcount]

theorem run_releaseAll (l : List (Option Bh)) (h : ∀ b, l.count (some b) ≤ s.bCount b) :
    releaseAll l s = .ok ((), { s with bCount := fun b => s.bCount b - l.count (some b) }) := by
  induction l generalizing s with
  | nil =>
      rfl
  | cons o l ih =>
      cases o with
      | none =>
          rw [releaseAll, ih]
          · simp
          · intro b
            simpa using h b
      | some bh =>
          have hbh := h bh
          rw [List.count_cons_self] at hbh
          rw [releaseAll, run_bind_ok (run_brelse_held (by omega)), ih]
          · congr 3
            funext b
            rw [List.count_cons]
            simp only [beq_iff_eq, Option.some.injEq]
            omega
          · intro b
            have hb := h b
            rw [List.count_cons] at hb
            simp only [beq_iff_eq, Option.some.injEq] at hb
            show l.count (some b) ≤ s.bCount b - if bh = b then 1 else 0
            omega

theorem run_setDev {dev : Nat} : setDev dev s = .ok ((), { s with sDev := dev }) := by
  rfl

theorem run_unlockSuper : unlockSuper s = .ok ((), { s with sLock := false }) := by
  rfl

theorem run_unmapBuffer :
    unmapBuffer bh s = .ok ((),
      { s with bMapcount := update s.bMapcount bh (s.bMapcount bh - 1) }) := by
  rfl

theorem run_giveUp (h : s.bCount bh ≠ 0) :
    giveUp bh s = .ok (false,
      { s with
        sDev := 0
        sLock := false
        bMapcount := update s.bMapcount bh (s.bMapcount bh - 1)
        bCount := fun b => s.bCount b - if bh = b then 1 else 0 }) := by
  have hrelease : ∀ s₁ : Loading, s₁.bCount = s.bCount → unmapBrelse bh s₁ = .ok ((),
      { s₁ with
        bMapcount := update s₁.bMapcount bh (s₁.bMapcount bh - 1)
        bCount := fun b => s.bCount b - if bh = b then 1 else 0 }) := by
    intro s₁ hs₁
    rw [unmapBrelse, run_bind_ok run_unmapBuffer, run_brelse_held]
    · rw [← hs₁]
    · rw [← hs₁] at h
      exact h
  rw [giveUp, run_bind_ok run_setDev, run_bind_ok run_unlockSuper]
  exact run_bind_ok (hrelease { s with sDev := 0, sLock := false } rfl)

theorem run_data (h : s.inL1 bh = true) : data bh s = .ok ((), s) := by
  rw [data, run_bind_ok run_get, if_pos h, run_pure]

theorem run_data_unmapped (h : s.inL1 bh = false) : data bh s = .error .unmapped := by
  rw [data, run_bind_ok run_get, if_neg (by simp [h]), run_throw]

theorem run_setBitZero {m : Bh} (h : (s.slots kind)[0]? = some (some m)) :
    setBitZero kind s = if s.inL1 m then .ok ((), s) else .error .unmapped := by
  cases hl : s.slots kind with
  | nil =>
      rw [hl] at h
      cases h
  | cons o l =>
      rw [hl] at h
      obtain rfl : o = some m := Option.some.inj h
      rw [setBitZero, run_bind_ok run_get, hl]
      split_ifs with hm
      · exact run_data hm
      · exact run_data_unmapped (by simpa using hm)

theorem run_setBitZero_null (h : (s.slots kind)[0]? = some none) :
    setBitZero kind s = .error .nullHead := by
  cases hl : s.slots kind with
  | nil =>
      rw [hl] at h
      cases h
  | cons o l =>
      rw [hl] at h
      obtain rfl : o = none := Option.some.inj h
      rw [setBitZero, run_bind_ok run_get, hl]
      rfl

theorem run_finish (w : World) (dev : Nat) (himap : setBitZero .imap s = .ok ((), s))
    (hzmap : setBitZero .zmap s = .ok ((), s)) (hbh : 0 < s.bMapcount bh) :
    ∃ s', finish w dev bh s = .ok (true, s') ∧
      s'.info.sImap = s.info.sImap ∧ s'.info.sZmap = s.info.sZmap := by
  rw [finish, run_bind_ok himap, run_bind_ok hzmap, run_bind_ok run_unlockSuper,
    run_bind_ok run_setDev, run_bind_ok run_modify, run_bind_ok run_get]
  by_cases hro : hasFlag s.sFlags msRdonly = false
  · simp only [Loading.settle, when, hro, data, hbh, run_bind, run_get, run_pure, run_modify,
      decide_true, Bool.or_true, if_true, Except.bind]
    exact ⟨_, rfl, rfl, rfl⟩
  · simp only [Loading.settle, when, hro, run_bind, run_pure, Except.bind]
    exact ⟨_, rfl, rfl, rfl⟩

end Exits

section Mount

variable {w : World} {s s' : Loading} {bh : Bh} {I Z p a q z : Nat}

/-- The state once block 1 is read and mapped. -/
def opened (w : World) (bh : Bh) (s : Loading) : Loading :=
  { s with
    sLock := true
    calls := s.calls + 1
    bCount := fun b => s.bCount b + if bh = b then 1 else 0
    bMapcount := update s.bMapcount bh (s.bMapcount bh + 1)
    inL1 := fun b => w.mapped b || decide (0 < update s.bMapcount bh
      (s.bMapcount bh + 1) b)
    info := fillInfo w.block bh s.info }

/-- The state once block 1 is found to be a superblock. -/
def ready (w : World) (bh : Bh) (s : Loading) : Loading :=
  { opened w bh s with info := clearSlots (minixInfo w.block (fillInfo w.block bh s.info)) }

theorem run_minixReadSuper (hf : (w.reads s.calls 1).found = some bh) :
    minixReadSuper w s =
      if sMagic w.block = minixSuperMagic then loadMaps w s.sDev bh (ready w bh s)
      else giveUp bh (opened w bh s) := by
  have hread : bread w 1 { s with sLock := true } = .ok (some bh,
      { s.settle (w.reads s.calls 1).inL1 with
        sLock := true
        calls := s.calls + 1
        bCount := fun b => s.bCount b + if bh = b then 1 else 0 }) := by
    rw [run_bread]
    simp [hf, Loading.settle]
  have hlock : lockSuper s = .ok ((), { s with sLock := true }) := rfl
  rw [minixReadSuper, run_bind_ok run_get, run_bind_ok hlock, run_bind_ok hread]
  have hmap : mapBuffer w bh
      { s.settle (w.reads s.calls 1).inL1 with
        sLock := true
        calls := s.calls + 1
        bCount := fun b => s.bCount b + if bh = b then 1 else 0 } =
      .ok ((), { opened w bh s with info := s.info }) := rfl
  have hdata : data bh { opened w bh s with info := s.info } =
      .ok ((), { opened w bh s with info := s.info }) := by
    apply run_data
    simp [opened]
  simp only [run_bind_ok hmap, run_bind_ok hdata, run_bind_ok run_modify]
  split_ifs <;> rfl

theorem safeMount_unreadable (hf : (w.reads s.calls 1).found = none) : SafeMount w s := by
  have hread : bread w 1 { s with sLock := true } = .ok (none,
      { s.settle (w.reads s.calls 1).inL1 with sLock := true, calls := s.calls + 1 }) := by
    rw [run_bread]
    simp [hf, Loading.settle]
  have hlock : lockSuper s = .ok ((), { s with sLock := true }) := rfl
  rw [SafeMount, minixReadSuper, run_bind_ok run_get, run_bind_ok hlock, run_bind_ok hread]
  exact ⟨rfl, rfl, rfl, rfl⟩

theorem run_giveUp_opened (w : World) (s : Loading) (bh : Bh)
    (hcount : s'.bCount = (opened w bh s).bCount)
    (hmap : s'.bMapcount = (opened w bh s).bMapcount) :
    ∃ s₁, giveUp bh s' = .ok (false, s₁) ∧ s₁.sDev = 0 ∧ s₁.sLock = false ∧
      s₁.bCount = s.bCount ∧ s₁.bMapcount = s.bMapcount := by
  have hone : s'.bCount bh = s.bCount bh + 1 := by
    rw [hcount]
    simp [opened]
  refine ⟨_, run_giveUp (by omega), rfl, rfl, ?_, ?_⟩
  · funext b
    show s'.bCount b - (if bh = b then 1 else 0) = s.bCount b
    rw [hcount]
    exact Nat.add_sub_cancel ..
  · show update s'.bMapcount bh (s'.bMapcount bh - 1) = s.bMapcount
    rw [hmap]
    simp [opened]

theorem safeMount_other (hf : (w.reads s.calls 1).found = some bh)
    (hm : sMagic w.block ≠ minixSuperMagic) : SafeMount w s := by
  obtain ⟨s₁, hrun, hsafe⟩ := run_giveUp_opened w s bh rfl rfl
  rw [SafeMount, run_minixReadSuper hf, if_neg hm, hrun]
  exact hsafe

/-- The state once the bit maps are read. -/
structure MapsRead (w : World) (s : Loading) (bh : Bh) (I Z p a q z : Nat) (s' : Loading) :
    Prop where
  imapBlocks : s'.info.sImapBlocks = I
  zmapBlocks : s'.info.sZmapBlocks = Z
  count : ∀ b, s'.bCount b =
    (opened w bh s).bCount b + s'.info.sImap.count (some b) + s'.info.sZmap.count (some b)
  bMapcount : s'.bMapcount = (opened w bh s).bMapcount
  imap : 0 < p → s'.info.sImap[0]? = some (w.reads (s.calls + 1) 2).found
  noImap : p = 0 → s'.info.sImap[0]? = some none
  zmap : 0 < q → s'.info.sZmap[0]? = some (w.reads (s.calls + 1 + a) (2 + p)).found
  noZmap : q = 0 → s'.info.sZmap[0]? = some none
  inL1 : 0 < z → ∀ b, s'.inL1 b = leftInL1 w s bh (s.calls + a + z) (1 + p + z) b

theorem Loaded.mapsRead {s₁ s₂ : Loading} (h₁ : Loaded w .imap I 0 2 (ready w bh s) s₁)
    (h₂ : Loaded w .zmap Z 0 (2 + p) s₁ s₂) (hI : I = word w.block ⟨2, by decide⟩)
    (hZ : Z = word w.block ⟨3, by decide⟩) (hp : p = successes w (s.calls + 1) 2 I)
    (ha : a = attempts w (s.calls + 1) 2 I) (hq : q = successes w (s.calls + 1 + a) (2 + p) Z)
    (hz : z = attempts w (s.calls + 1 + a) (2 + p) Z) : MapsRead w s bh I Z p a q z s₂ := by
  have hcalls₁ : s₁.calls = s.calls + 1 + a := by
    rw [h₁.calls, ha]
    rfl
  have himap : s₂.info.sImap = s₁.info.sImap := h₂.others .imap (by decide)
  have hzmap : s₁.info.sZmap = List.replicate minixZMapSlots none := h₁.others .zmap (by decide)
  have hmap : s₁.bMapcount = (opened w bh s).bMapcount := by
    rw [h₁.rest]
    rfl
  have hp' : successes w (ready w bh s).calls 2 I = p := hp.symm
  constructor
  · rw [h₂.rest, h₁.rest, hI]
    rfl
  · rw [h₂.rest, h₁.rest, hZ]
    rfl
  · intro b
    have hc₁ : s₁.bCount b + (List.replicate minixIMapSlots none).count (some b) =
        (opened w bh s).bCount b + s₁.info.sImap.count (some b) := h₁.count b
    have hc₂ : s₂.bCount b + s₁.info.sZmap.count (some b) =
        s₁.bCount b + s₂.info.sZmap.count (some b) := h₂.count b
    rw [hzmap] at hc₂
    rw [List.count_replicate] at hc₁ hc₂
    simp only [beq_iff_eq, reduceCtorEq, if_false] at hc₁ hc₂
    rw [himap]
    omega
  · rw [h₂.rest]
    exact hmap
  · intro hpos
    rw [himap]
    exact h₁.first (by rw [hp']; exact hpos)
  · intro hzero
    rw [himap]
    exact h₁.unread (by rw [hp']; exact hzero)
  · intro hpos
    rw [← hcalls₁]
    apply h₂.first
    rw [hcalls₁, ← hq]
    exact hpos
  · intro hzero
    have hslot : (s₂.slots .zmap)[0]? = (s₁.slots .zmap)[0]? := by
      apply h₂.unread
      rw [hcalls₁, ← hq]
      exact hzero
    have hempty : s₁.info.sZmap[0]? = some none := by
      rw [hzmap]
      rfl
    exact hslot.trans hempty
  · intro hpos b
    have hlast := h₂.inL1 (by rw [hcalls₁, ← hz]; exact hpos) b
    rw [hcalls₁, ← hz, hmap] at hlast
    have hcall : s.calls + 1 + a + z - 1 = s.calls + a + z := by omega
    have hblock : 2 + p + z - 1 = 1 + p + z := by omega
    rw [hcall, hblock] at hlast
    exact hlast

theorem MapsRead.release (h : MapsRead w s bh I Z p a q z s') :
    ∃ s₁, (do
        releaseAll s'.info.sImap
        releaseAll s'.info.sZmap
        giveUp bh : Mounting Bool) s' = .ok (false, s₁) ∧
      s₁.sDev = 0 ∧ s₁.sLock = false ∧ s₁.bCount = s.bCount ∧ s₁.bMapcount = s.bMapcount := by
  have himap : ∀ b, s'.info.sImap.count (some b) ≤ s'.bCount b := by
    intro b
    have := h.count b
    omega
  rw [run_bind_ok (run_releaseAll _ himap)]
  have hzmap : ∀ b, s'.info.sZmap.count (some b) ≤
      s'.bCount b - s'.info.sImap.count (some b) := by
    intro b
    have := h.count b
    omega
  rw [run_bind_ok (run_releaseAll _ hzmap)]
  apply run_giveUp_opened w s bh
  · funext b
    have := h.count b
    show s'.bCount b - s'.info.sImap.count (some b) - s'.info.sZmap.count (some b) = _
    omega
  · exact h.bMapcount

theorem successes_pos {call block n : Nat} (h : 0 < successes w call block n) :
    ∃ m, (w.reads call block).found = some m := by
  cases n with
  | zero => exact absurd h (Nat.lt_irrefl 0)
  | succ n =>
      cases hf : (w.reads call block).found with
      | none =>
          rw [successes_none hf] at h
          exact absurd h (Nat.lt_irrefl 0)
      | some m => exact ⟨m, rfl⟩

theorem MapsRead.ends (h : MapsRead w s bh I Z p a q z s')
    (hp : 0 < p → ∃ m, (w.reads (s.calls + 1) 2).found = some m)
    (hq : 0 < q → ∃ m, (w.reads (s.calls + 1 + a) (2 + p)).found = some m) (hqz : q ≤ z)
    (dev : Nat) :
    (match finish w dev bh s' with
      | .error _ => False
      | .ok (false, s₁) =>
          s₁.sDev = 0 ∧ s₁.sLock = false ∧ s₁.bCount = s.bCount ∧ s₁.bMapcount = s.bMapcount
      | .ok (true, s₁) =>
          (∃ b l, s₁.info.sImap = some b :: l) ∧ ∃ b l, s₁.info.sZmap = some b :: l) ↔
      0 < p ∧ 0 < q ∧
        (∀ m ∈ (w.reads (s.calls + 1) 2).found,
          leftInL1 w s bh (s.calls + a + z) (1 + p + z) m) ∧
        ∀ m ∈ (w.reads (s.calls + 1 + a) (2 + p)).found,
          leftInL1 w s bh (s.calls + a + z) (1 + p + z) m := by
  have hpinned : 0 < s'.bMapcount bh := by
    rw [h.bMapcount]
    simp [opened]
  rcases Nat.eq_zero_or_pos p with hp0 | hpos
  · have hnull : setBitZero .imap s' = .error .nullHead := run_setBitZero_null (h.noImap hp0)
    rw [finish, run_bind_error hnull]
    constructor
    · exact False.elim
    · intro hall
      exact absurd hall.1 (by omega)
  · obtain ⟨m, hm⟩ := hp hpos
    have himap : setBitZero .imap s' = if s'.inL1 m then .ok ((), s') else .error .unmapped := by
      apply run_setBitZero
      rw [← hm]
      exact h.imap hpos
    by_cases hm₁ : s'.inL1 m = true
    · rw [if_pos hm₁] at himap
      rcases Nat.eq_zero_or_pos q with hq0 | hqpos
      · have hnull : setBitZero .zmap s' = .error .nullHead := run_setBitZero_null (h.noZmap hq0)
        rw [finish, run_bind_ok himap, run_bind_error hnull]
        constructor
        · exact False.elim
        · intro hall
          exact absurd hall.2.1 (by omega)
      · obtain ⟨n, hn⟩ := hq hqpos
        have hin := h.inL1 (by omega)
        have hzmap : setBitZero .zmap s' =
            if s'.inL1 n then .ok ((), s') else .error .unmapped := by
          apply run_setBitZero
          rw [← hn]
          exact h.zmap hqpos
        by_cases hn₁ : s'.inL1 n = true
        · rw [if_pos hn₁] at hzmap
          obtain ⟨s₁, hrun, hi, hz⟩ := run_finish w dev himap hzmap hpinned
          rw [hrun]
          have hlist : ∀ (l : List (Option Bh)) (b : Bh), l[0]? = some (some b) →
              ∃ b t, l = some b :: t := by
            intro l b hl
            cases l with
            | nil => cases hl
            | cons o t => exact ⟨b, t, by rw [Option.some.inj hl]⟩
          constructor
          · intro _
            refine ⟨hpos, hqpos, ?_, ?_⟩
            · intro m' hm'
              obtain rfl : m = m' := Option.some.inj (hm.symm.trans hm')
              rw [← hin m]
              exact hm₁
            · intro n' hn'
              obtain rfl : n = n' := Option.some.inj (hn.symm.trans hn')
              rw [← hin n]
              exact hn₁
          · intro _
            constructor
            · apply hlist s₁.info.sImap m
              rw [hi, h.imap hpos, hm]
            · apply hlist s₁.info.sZmap n
              rw [hz, h.zmap hqpos, hn]
        · rw [if_neg hn₁] at hzmap
          rw [finish, run_bind_ok himap, run_bind_error hzmap]
          constructor
          · exact False.elim
          · intro hall
            have := hall.2.2.2 n hn
            rw [← hin n] at this
            exact absurd this hn₁
    · rw [if_neg hm₁] at himap
      rw [finish, run_bind_error himap]
      constructor
      · exact False.elim
      · intro hall
        have hin := h.inL1 (by omega) m
        have := hall.2.2.1 m hm
        rw [← hin] at this
        exact absurd this hm₁

theorem safeMount_iff (hf : (w.reads s.calls 1).found = some bh)
    (hm : sMagic w.block = minixSuperMagic) (hI : I = word w.block ⟨2, by decide⟩)
    (hZ : Z = word w.block ⟨3, by decide⟩) (hp : p = successes w (s.calls + 1) 2 I)
    (ha : a = attempts w (s.calls + 1) 2 I) (hq : q = successes w (s.calls + 1 + a) (2 + p) Z)
    (hz : z = attempts w (s.calls + 1 + a) (2 + p) Z) :
    SafeMount w s ↔ MapsSafe w s bh I Z p a q z := by
  have hcalls : (ready w bh s).calls = s.calls + 1 := rfl
  have hstart : minixReadSuper w s = loadMaps w s.sDev bh (ready w bh s) := by
    rw [run_minixReadSuper hf, if_pos hm]
  have hloads : loadMaps w s.sDev bh (ready w bh s) =
      ((loadMap w .imap I 0 2 >>= fun block => loadMap w .zmap Z 0 block >>= fun block => do
        let s' ← get
        if block ≠ wrap 16 (2 + s'.info.sImapBlocks + s'.info.sZmapBlocks) then
          releaseAll s'.info.sImap
          releaseAll s'.info.sZmap
          giveUp bh
        else
          finish w s.sDev bh) : Mounting Bool) (ready w bh s) := by
    rw [hI, hZ]
    rfl
  rw [SafeMount, hstart, hloads]
  by_cases hia : a ≤ minixIMapSlots
  · obtain ⟨s₁, hrun₁, h₁⟩ : ∃ s₁, loadMap w .imap I 0 2 (ready w bh s) = .ok (2 + p, s₁) ∧
        Loaded w .imap I 0 2 (ready w bh s) s₁ := by
      rw [hp, ← hcalls]
      apply run_loadMap
      · rfl
      · intro j _ hj
        exact List.getElem?_replicate_of_lt hj
      · rw [hcalls, ← ha, Nat.zero_add]
        exact hia
    rw [run_bind_ok hrun₁]
    have hcalls₁ : s₁.calls = s.calls + 1 + a := by
      rw [h₁.calls, hcalls, ← ha]
    have hz₁ : s₁.slots .zmap = List.replicate minixZMapSlots none := h₁.others .zmap (by decide)
    by_cases hza : z ≤ minixZMapSlots
    · obtain ⟨s₂, hrun₂, h₂⟩ : ∃ s₂, loadMap w .zmap Z 0 (2 + p) s₁ = .ok (2 + p + q, s₂) ∧
          Loaded w .zmap Z 0 (2 + p) s₁ s₂ := by
        rw [hq, ← hcalls₁]
        apply run_loadMap
        · rw [hz₁]
          rfl
        · intro j _ hj
          rw [hz₁]
          exact List.getElem?_replicate_of_lt hj
        · rw [hcalls₁, ← hz, Nat.zero_add]
          exact hza
      rw [run_bind_ok hrun₂, run_bind_ok run_get]
      have hread := h₁.mapsRead h₂ hI hZ hp ha hq hz
      rw [hread.imapBlocks, hread.zmapBlocks]
      by_cases hsum : 2 + p + q = wrap 16 (2 + I + Z)
      · rw [if_neg (by simpa using hsum)]
        have hqz : q ≤ z := by
          have hle := successes_le w (s.calls + 1 + a) (2 + p) Z
          rw [hq, hz, attempts]
          omega
        rw [hread.ends (fun h => successes_pos (hp ▸ h)) (fun h => successes_pos (hq ▸ h)) hqz]
        constructor
        · intro h
          exact ⟨hia, hza, fun _ => h⟩
        · intro h
          exact h.first hsum
      · rw [if_pos hsum]
        obtain ⟨s₃, hrun₃, hsafe⟩ := hread.release
        rw [hrun₃]
        constructor
        · intro _
          exact ⟨hia, hza, fun h => absurd h hsum⟩
        · intro _
          exact hsafe
    · have hbad : loadMap w .zmap Z 0 (2 + p) s₁ = .error .badIndex := by
        apply run_loadMap_badIndex (Nat.zero_le _)
        rw [hcalls₁, ← hz, Nat.zero_add]
        exact Nat.lt_of_not_le hza
      rw [run_bind_error hbad]
      constructor
      · exact False.elim
      · intro h
        exact hza h.zmapFits
  · have hbad : loadMap w .imap I 0 2 (ready w bh s) = .error .badIndex := by
      apply run_loadMap_badIndex (Nat.zero_le _)
      rw [hcalls, ← ha, Nat.zero_add]
      exact Nat.lt_of_not_le hia
    rw [run_bind_error hbad]
    constructor
    · exact False.elim
    · intro h
      exact hia h.imapFits

/-- **When mounting is safe.**  For every content of block 1, every outcome of
the reads and every state of the counts. -/
theorem readSuper_safe_iff
    (w : World)
    (s : Loading) :
    SafeMount w s ↔ MountsSafely w s := by
  cases hf : (w.reads s.calls 1).found with
  | none =>
      constructor
      · intro _ bh hbh
        rw [hf] at hbh
        cases hbh
      · intro _
        exact safeMount_unreadable hf
  | some bh =>
      by_cases hm : sMagic w.block = minixSuperMagic
      · rw [safeMount_iff hf hm rfl rfl rfl rfl rfl rfl]
        constructor
        · intro h bh' hbh' _
          obtain rfl : bh = bh' := Option.some.inj (hf.symm.trans hbh')
          exact h
        · intro h
          exact h bh hf hm
      · constructor
        · intro _ _ _ hm'
          exact absurd hm' hm
        · intro _
          exact safeMount_other hf hm

/-- A superblock with the right magic number and no bit maps. -/
def noMaps : World where
  block := putWord zeroBlock ⟨8, by decide⟩ minixSuperMagic
  reads := fun _ _ => ⟨some ⟨0, by decide⟩, fun _ => true⟩
  mapped := fun _ => true
  igot := fun _ => true

/-- A cache that nobody uses, and a fresh superblock for device `0x300`. -/
def freshLoading : Loading where
  bCount := fun _ => 0
  bMapcount := fun _ => 0
  inL1 := fun _ => false
  bDirty := fun _ => false
  calls := 0
  sDev := 0x300
  sFlags := 0
  sLock := false
  sDirt := false
  sOp := false
  sMounted := false
  info :=
    { sNinodes := 0
      sNzones := 0
      sImapBlocks := 0
      sZmapBlocks := 0
      sFirstdatazone := 0
      sLogZoneSize := 0
      sMaxSize := 0
      sImap := []
      sZmap := []
      sDirsize := 0
      sNamelen := 0
      sSbh := none
      sMountState := 0
      sVersion := 0 }

/-- Mounting it sets a bit through a null head. -/
theorem readSuper_noMaps :
    ¬ ∀ (w : World) (s : Loading), SafeMount w s := by
  intro h
  have hnull : (match minixReadSuper noMaps freshLoading with
    | .error f => decide (f = .nullHead)
    | .ok _ => false) = true := by decide +kernel
  have hsafe := h noMaps freshLoading
  unfold SafeMount at hsafe
  cases hr : minixReadSuper noMaps freshLoading with
  | error f =>
      rw [hr] at hsafe
      exact hsafe
  | ok r =>
      rw [hr] at hnull
      cases hnull

end Mount

end Minix
end Elks
