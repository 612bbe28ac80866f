import Mathlib.Data.List.ReduceOption
import Elks.Buffer.Cache
import Elks.Buffer.Store
import Elks.Minix.Super

/-!
# The state field of a mounted superblock (fs/minix/inode.c)

`minix_read_super` keeps two things of block 1 for the time of the mount: the
buffer head `s_sbh`, and `s_ms`, a pointer into the L1 block where that buffer
was mapped.  The buffer is unmapped before the call returns, so that a later
`map_buffer` of any other buffer may take its L1 block; `s_ms` is not told.

`minix_write_super`, `minix_put_super` and `minix_remount` store `s_state`
through `s_ms` without mapping `s_sbh` again.  `superRun_kept_iff` says for
every run of these updates and of uses of other buffers when they change the
superblock and nothing else.
-/

namespace Elks
namespace Minix

open Lib
open Buffer (Bh Slot Block Buffers Code StoreOp TwoLevel)

/-- `MS_RDONLY`, which is all of `MS_RMT_MASK`. -/
def msRdonly : Nat :=
  1

/-- `MINIX_VALID_FS`. -/
def minixValidFs : Nat :=
  0x0001

/-- `~MINIX_VALID_FS` on a word. -/
def notValidFs : Nat :=
  0xfffe

/-- The word of block 1 in which `s_state` is. -/
def sState : Fin 512 :=
  ⟨9, by decide⟩

/-- `struct super_block` with its `struct minix_sb_info`, as far as the updates
read it. -/
structure MinixSuper where
  sFlags : Nat
  sDirt : Bool
  sLock : Bool
  sDev : Nat
  sImap : Fin 8 → Option Bh
  sZmap : Fin 64 → Option Bh
  sSbh : Bh
  sMs : Slot
  sMountState : Nat

/-- The loops over `s_imap[]` and `s_zmap[]`. -/
def MinixSuper.imapHeads (sb : MinixSuper) : List (Option Bh) :=
  List.ofFn sb.sImap

def MinixSuper.zmapHeads (sb : MinixSuper) : List (Option Bh) :=
  List.ofFn sb.sZmap

/-- The test of a bit. -/
def hasFlag (flags flag : Nat) : Bool :=
  flags &&& flag != 0

section Code

variable (fuel : Nat) (sb : MinixSuper)

/-- `ms->s_state = v`. -/
def putState (v : Nat) : Code Unit :=
  Prog.modify fun s => s.store (some sb.sMs) (putWord (s.bufmem sb.sMs) sState v)

/-- `if (ms->s_state & MINIX_VALID_FS) ms->s_state &= ~MINIX_VALID_FS`. -/
def clearValid : Code Unit := do
  let s ← Prog.get
  let state := word (s.bufmem sb.sMs) sState
  if hasFlag state minixValidFs then
    putState sb (state &&& notValidFs)
  else
    pure ()

def minixCommitSuper : Code MinixSuper := do
  Buffer.markBufferDirty sb.sSbh
  return { sb with sDirt := false }

def minixWriteSuper : Code MinixSuper := do
  if hasFlag sb.sFlags msRdonly then
    return { sb with sDirt := false }
  else
    clearValid sb
    minixCommitSuper sb

/-- `brelse`, which does nothing to `NULL`. -/
def brelseIf (bh : Option Bh) : Code Unit :=
  match bh with
  | some bh => Buffer.brelse fuel bh
  | none => pure ()

/-- The first statement of `minix_put_super` after the lock. -/
def putMountState : Code Unit :=
  if hasFlag sb.sFlags msRdonly then
    pure ()
  else do
    putState sb sb.sMountState
    Buffer.markBufferDirty sb.sSbh

def minixPutSuper : Code MinixSuper := do
  if sb.sLock then
    .fault .sleeps
  else
    putMountState sb
    Prog.seqAll (sb.imapHeads.map (brelseIf fuel))
    Prog.seqAll (sb.zmapHeads.map (brelseIf fuel))
    Buffer.brelse fuel sb.sSbh
    return { sb with sDev := 0 }

def minixRemount (flags : Nat) : Code MinixSuper := do
  let s ← Prog.get
  let state := word (s.bufmem sb.sMs) sState
  if hasFlag flags msRdonly = hasFlag sb.sFlags msRdonly then
    return sb
  else if hasFlag flags msRdonly then
    if hasFlag state minixValidFs ∨ hasFlag sb.sMountState minixValidFs = false then
      return sb
    else
      putState sb sb.sMountState
      minixCommitSuper sb
  else
    putState sb (state &&& notValidFs)
    Buffer.markBufferDirty sb.sSbh
    return { sb with sMountState := state, sDirt := true }

/-- The updates of the superblock. -/
inductive SuperUpdate
  | writeSuper
  | putSuper
  | remount (flags : Nat)
deriving DecidableEq

/-- The code of an update.  After a remount its caller takes over the flag. -/
def SuperUpdate.code : SuperUpdate → Code MinixSuper
  | .writeSuper => minixWriteSuper sb
  | .putSuper => minixPutSuper fuel sb
  | .remount flags => do
      let sb' ← minixRemount sb flags
      return { sb' with sFlags := (sb'.sFlags &&& 0xfffe) ||| (flags &&& msRdonly) }

end Code

/-- The buffers the mount holds. -/
def MinixSuper.heads (sb : MinixSuper) : List (Option Bh) :=
  sb.imapHeads ++ (sb.zmapHeads ++ [some sb.sSbh])

/-- What lasts as long as the mount. -/
structure InUse (sb : MinixSuper) (s : Buffers) : Prop where
  twoLevel : TwoLevel s
  backed : Buffer.Backed s
  unlocked : ∀ b, (s.buffers b).bLock = false
  free : sb.sLock = false
  state_lt : sb.sMountState < 65536
  nodup : sb.heads.reduceOption.Nodup
  held : ∀ b, b ∈ sb.heads.reduceOption → (s.buffers b).bCount ≠ 0

/-- What `minix_read_super` leaves: `s_ms` points into the L1 block of
`s_sbh`. -/
structure Mounted (sb : MinixSuper) (s : Buffers) : Prop extends InUse sb s where
  pointer : s.bufmemMap sb.sMs = some sb.sSbh

/-- The buffer a use of the store is about. -/
def StoreOp.target : StoreOp → Bh
  | .handOut bh => bh
  | .map bh => bh
  | .unmap bh => bh
  | .write bh _ _ => bh

/-- One thing that happens while the file system is mounted. -/
inductive SuperEvent
  | use (op : StoreOp)
  | update (u : SuperUpdate)

section Runs

variable (fuel : Nat)

/-- `P` holds at every update of the run, up to and including the unmounting.
The uses in between are legal ones of other buffers. -/
def AtUpdates (P : SuperUpdate → MinixSuper → Buffers → Prop) :
    MinixSuper → Buffers → List SuperEvent → Prop
  | _, _, [] => True
  | sb, s, .use op :: events =>
      op.Legal s → StoreOp.target op ≠ sb.sSbh →
        match (op.code fuel).run s with
        | .ok r => AtUpdates P sb r.2 events
        | .error _ => True
  | sb, s, .update u :: events =>
      P u sb s ∧
        (u ≠ .putSuper →
          match (u.code fuel sb).run s with
          | .ok r => AtUpdates P r.1 r.2 events
          | .error _ => True)

/-- The update returns, changes no buffer but `s_sbh` and of that no word but
`s_state`, and on the unmounting of a writable file system leaves
`s_mount_state` there. -/
def KeepsRest (u : SuperUpdate) (sb : MinixSuper) (s : Buffers) : Prop :=
  ∃ sb' s', (u.code fuel sb).run s = .ok (sb', s') ∧
    (∀ b, b ≠ sb.sSbh → s'.content b = s.content b) ∧
    (∃ v, s'.content sb.sSbh = putWord (s.content sb.sSbh) sState v) ∧
    (u = .putSuper → hasFlag sb.sFlags msRdonly = false →
      word (s'.content sb.sSbh) sState = sb.sMountState)

end Runs

/-- The value an update stores through `s_ms`, if it stores one. -/
def SuperUpdate.stored (sb : MinixSuper) (state : Nat) : SuperUpdate → Option Nat
  | .writeSuper =>
      if hasFlag sb.sFlags msRdonly then none
      else if hasFlag state minixValidFs then some (state &&& notValidFs)
      else none
  | .putSuper =>
      if hasFlag sb.sFlags msRdonly then none else some sb.sMountState
  | .remount flags =>
      if hasFlag flags msRdonly = hasFlag sb.sFlags msRdonly then none
      else if hasFlag flags msRdonly then
        if hasFlag state minixValidFs ∨ hasFlag sb.sMountState minixValidFs = false then none
        else some sb.sMountState
      else some (state &&& notValidFs)

/-- The L1 block of `s_ms` still holds `s_sbh`, or nothing is stored, or the
store is not seen: the L1 block is unused or has the value already, and on the
unmounting so has `s_sbh`. -/
def PointsHome (u : SuperUpdate) (sb : MinixSuper) (s : Buffers) : Prop :=
  s.bufmemMap sb.sMs = some sb.sSbh ∨
    ∀ v ∈ u.stored sb (word (s.bufmem sb.sMs) sState),
      (s.bufmemMap sb.sMs = none ∨ word (s.bufmem sb.sMs) sState = v) ∧
        (u = .putSuper → word (s.content sb.sSbh) sState = v)

instance (u : SuperUpdate) (sb : MinixSuper) (s : Buffers) : Decidable (PointsHome u sb s) :=
  inferInstanceAs (Decidable (_ ∨ _))

instance decidableAtUpdates (fuel : Nat)
    {P : SuperUpdate → MinixSuper → Buffers → Prop}
    [∀ u sb s, Decidable (P u sb s)] :
    (sb : MinixSuper) → (s : Buffers) → (events : List SuperEvent) →
      Decidable (AtUpdates fuel P sb s events)
  | _, _, [] => inferInstanceAs (Decidable True)
  | sb, s, .use op :: events =>
      have : Decidable
          (match (op.code fuel).run s with
          | .ok r => AtUpdates fuel P sb r.2 events
          | .error _ => True) :=
        match (op.code fuel).run s with
        | .ok r => decidableAtUpdates fuel sb r.2 events
        | .error _ => inferInstanceAs (Decidable True)
      inferInstanceAs (Decidable (_ → _ → _))
  | sb, s, .update u :: events =>
      have : Decidable
          (match (u.code fuel sb).run s with
          | .ok r => AtUpdates fuel P r.1 r.2 events
          | .error _ => True) :=
        match (u.code fuel sb).run s with
        | .ok r => decidableAtUpdates fuel r.1 r.2 events
        | .error _ => inferInstanceAs (Decidable True)
      inferInstanceAs (Decidable (_ ∧ (_ → _)))

section Store

variable {s s' : Buffers}

theorem putWord_word (b : Block) (j : Fin 512) : putWord b j (word b j) = b := by
  funext k
  unfold putWord word
  have hlo := (b (loByte j)).toNat_lt
  by_cases hhi : k = hiByte j
  · subst hhi
    rw [Function.update_self]
    apply UInt8.toNat_inj.mp
    rw [UInt8.toNat_ofNat']
    have := (b (hiByte j)).toNat_lt
    omega
  · rw [Function.update_of_ne hhi]
    by_cases hk : k = loByte j
    · subst hk
      rw [Function.update_self]
      apply UInt8.toNat_inj.mp
      rw [UInt8.toNat_ofNat']
      omega
    · rw [Function.update_of_ne hk]

theorem putWord_eq_self_iff {b : Block} {j : Fin 512} {v : Nat} (hv : v < 65536) :
    putWord b j v = b ↔ word b j = v := by
  constructor
  · intro h
    rw [← h]
    exact word_putWord_same b j hv
  · rintro rfl
    exact putWord_word b j

theorem content_store (hs : TwoLevel s) (i : Slot) (b : Block) (bh : Bh) :
    (s.store (some i) b).content bh = if s.bufmemMap i = some bh then b else s.content bh := by
  have hs' : TwoLevel (s.store (some i) b) := ⟨hs.map_iff, hs.num⟩
  rw [hs'.content_eq]
  have hdata : ((s.store (some i) b).buffers bh).bData = (s.buffers bh).bData := rfl
  rw [hdata]
  split_ifs with h
  · rw [(hs.map_iff i bh).mp h]
    exact Function.update_self ..
  · rw [hs.content_eq]
    cases hd : (s.buffers bh).bData with
    | none => rfl
    | some j =>
        have hj : j ≠ i := by
          rintro rfl
          exact h ((hs.map_iff j bh).mpr hd)
        exact Function.update_of_ne hj ..

end Store

section Effect

variable {sb : MinixSuper} {s s' : Buffers} {f : Buffer.BufferHead → Buffer.BufferHead} {bh b : Bh}
  {u : SuperUpdate}

/-- `s` with `v` stored through `s_ms`, if there is one. -/
def withState (sb : MinixSuper) (s : Buffers) : Option Nat → Buffers
  | none => s
  | some v => s.store (some sb.sMs) (putWord (s.bufmem sb.sMs) sState v)

/-- `s'` is `s` up to flags and counts of references. -/
structure Rearranged (s s' : Buffers) : Prop where
  store : Buffer.SameStore s s'
  bLock : ∀ b, (s'.buffers b).bLock = (s.buffers b).bLock
  bMapcount : ∀ b, (s'.buffers b).bMapcount = (s.buffers b).bMapcount

theorem Rearranged.refl (s : Buffers) : Rearranged s s :=
  ⟨⟨rfl, rfl, rfl, fun _ => rfl, fun _ => rfl⟩, fun _ => rfl, fun _ => rfl⟩

theorem Rearranged.trans {s'' : Buffers} (h : Rearranged s s') (h' : Rearranged s' s'') :
    Rearranged s s'' where
  store :=
    { bufmem := h'.store.bufmem.trans h.store.bufmem
      bufmemMap := h'.store.bufmemMap.trans h.store.bufmemMap
      bufDs := h'.store.bufDs.trans h.store.bufDs
      bData := fun b => (h'.store.bData b).trans (h.store.bData b)
      bNum := fun b => (h'.store.bNum b).trans (h.store.bNum b) }
  bLock := fun b => (h'.bLock b).trans (h.bLock b)
  bMapcount := fun b => (h'.bMapcount b).trans (h.bMapcount b)

theorem rearranged_modHead (hdata : ∀ h, (f h).bData = h.bData) (hnum : ∀ h, (f h).bNum = h.bNum)
    (hlock : ∀ h, (f h).bLock = h.bLock) (hmap : ∀ h, (f h).bMapcount = h.bMapcount) :
    Rearranged s (s.modHead bh f) where
  store := Buffer.sameStore_modHead s bh f hdata hnum
  bLock := by
    intro b
    by_cases hb : b = bh
    · subst hb
      simp [Buffers.modHead, Buffers.setHead, hlock]
    · simp [Buffers.modHead, Buffers.setHead, hb]
  bMapcount := by
    intro b
    by_cases hb : b = bh
    · subst hb
      simp [Buffers.modHead, Buffers.setHead, hmap]
    · simp [Buffers.modHead, Buffers.setHead, hb]

theorem bCount_modHead_ne (hb : b ≠ bh) :
    ((s.modHead bh f).buffers b).bCount = (s.buffers b).bCount := by
  simp [Buffers.modHead, Buffers.setHead, hb]

theorem bCount_markDirty
    :
    ((s.modHead bh fun h => { h with bDirty := true }).buffers b).bCount =
      (s.buffers b).bCount := by
  by_cases hb : b = bh
  · subst hb
    simp [Buffers.modHead, Buffers.setHead]
  · exact bCount_modHead_ne hb

/-- A reference to `bh` is given up. -/
def dropRef (bh : Bh) (s : Buffers) : Buffers :=
  s.modHead bh fun h => { h with bCount := wrapSub 16 h.bCount 1 }

theorem rearranged_dropRef :
    Rearranged s (dropRef bh s) :=
  rearranged_modHead (fun _ => rfl) (fun _ => rfl) (fun _ => rfl) fun _ => rfl

theorem run_brelse (fuel : Nat) (hlock : (s.buffers bh).bLock = false)
    (hcount : (s.buffers bh).bCount ≠ 0) :
    (Buffer.brelse fuel bh).run s = .ok ((), dropRef bh s) := by
  unfold Buffer.brelse Buffer.waitOnBuffer
  simp only [Prog.run_bind, Prog.get, Prog.run, id, hlock, Bool.false_eq_true, if_false, hcount,
    pure]
  rfl

theorem run_brelseAll (fuel : Nat) {l : List (Option Bh)} (hlock : ∀ b, (s.buffers b).bLock = false)
    (hnodup : l.reduceOption.Nodup) (hheld : ∀ b, b ∈ l.reduceOption → (s.buffers b).bCount ≠ 0) :
    ∃ s', (Prog.seqAll (l.map (brelseIf fuel))).run s = .ok ((), s') ∧
      Rearranged s s' ∧
      ∀ b, b ∉ l.reduceOption → (s'.buffers b).bCount = (s.buffers b).bCount := by
  induction l generalizing s with
  | nil =>
      exact ⟨s, rfl, Rearranged.refl s, fun _ _ => rfl⟩
  | cons o l ih =>
      cases o with
      | none =>
          exact ih hlock hnodup hheld
      | some bh =>
          have hcons : (some bh :: l).reduceOption = bh :: l.reduceOption := rfl
          rw [hcons] at hnodup hheld
          obtain ⟨hbh, hnodup'⟩ := List.nodup_cons.mp hnodup
          have hlock' : ∀ b, ((dropRef bh s).buffers b).bLock = false :=
            fun b => (rearranged_dropRef.bLock b).trans (hlock b)
          have hheld' : ∀ b, b ∈ l.reduceOption → ((dropRef bh s).buffers b).bCount ≠ 0 := by
            intro b hb
            have hne : b ≠ bh := by
              rintro rfl
              exact hbh hb
            rw [dropRef, bCount_modHead_ne hne]
            exact hheld b (List.mem_cons_of_mem bh hb)
          obtain ⟨s', hrest, hsame, hcount⟩ := ih hlock' hnodup' hheld'
          refine ⟨s', ?_, rearranged_dropRef.trans hsame, ?_⟩
          · show (Buffer.brelse fuel bh >>= fun _ =>
              Prog.seqAll (l.map (brelseIf fuel))).run s = _
            rw [Prog.run_bind, run_brelse fuel (hlock bh) (hheld bh (by simp))]
            exact hrest
          · intro b hb
            rw [hcons, List.mem_cons, not_or] at hb
            rw [hcount b hb.2, dropRef, bCount_modHead_ne hb.1]

theorem inUse_withState (h : InUse sb s) (o : Option Nat) : InUse sb (withState sb s o) := by
  cases o with
  | none => exact h
  | some v =>
      exact ⟨⟨h.twoLevel.map_iff, h.twoLevel.num⟩, h.backed, h.unlocked, h.free, h.state_lt,
        h.nodup, h.held⟩

theorem InUse.rearranged (h : InUse sb s) (hs : Rearranged s s')
    (hcount : ∀ b, (s'.buffers b).bCount = (s.buffers b).bCount) :
    InUse sb s' where
  twoLevel := hs.store.twoLevel h.twoLevel
  backed := by
    intro b hb
    rw [hs.bMapcount b] at hb
    rw [hs.store.bData b]
    exact h.backed b hb
  unlocked := fun b => (hs.bLock b).trans (h.unlocked b)
  free := h.free
  state_lt := h.state_lt
  nodup := h.nodup
  held := by
    intro b hb
    rw [hcount b]
    exact h.held b hb

/-- What an update does: the store through `s_ms`, and changes of flags and
counts. -/
structure Updated (u : SuperUpdate) (sb : MinixSuper) (s : Buffers) (sb' : MinixSuper)
    (s' : Buffers) : Prop where
  effect : Rearranged (withState sb s (u.stored sb (word (s.bufmem sb.sMs) sState))) s'
  inUse : u ≠ .putSuper → InUse sb' s'
  sSbh : sb'.sSbh = sb.sSbh

theorem run_markBufferDirty
    :
    (Buffer.markBufferDirty bh).run s =
      .ok ((), s.modHead bh fun h => { h with bDirty := true }) := by
  rfl

theorem rearranged_markDirty
    :
    Rearranged s (s.modHead bh fun h => { h with bDirty := true }) :=
  rearranged_modHead (fun _ => rfl) (fun _ => rfl) (fun _ => rfl) fun _ => rfl

theorem InUse.markDirty (h : InUse sb s) (bh : Bh) :
    InUse sb (s.modHead bh fun h => { h with bDirty := true }) :=
  h.rearranged rearranged_markDirty fun _ => bCount_markDirty

theorem run_putState {v : Nat} : (putState sb v).run s = .ok ((), withState sb s (some v)) := by
  rfl

theorem run_clearValid :
    (clearValid sb).run s = .ok ((), withState sb s
      (if hasFlag (word (s.bufmem sb.sMs) sState) minixValidFs then
        some (word (s.bufmem sb.sMs) sState &&& notValidFs) else none)) := by
  simp only [clearValid, Prog.run_bind, Prog.get, Prog.run, id]
  split_ifs
  · exact run_putState
  · rfl

theorem run_minixCommitSuper :
    (minixCommitSuper sb).run s = .ok ({ sb with sDirt := false },
      s.modHead sb.sSbh fun h => { h with bDirty := true }) := by
  rfl

theorem InUse.flags (h : InUse sb s) (flags : Nat) (dirt : Bool) :
    InUse { sb with sFlags := flags, sDirt := dirt } s :=
  ⟨h.twoLevel, h.backed, h.unlocked, h.free, h.state_lt, h.nodup, h.held⟩

theorem writeSuper_updated (fuel : Nat) (h : InUse sb s) :
    ∃ sb' s', (SuperUpdate.writeSuper.code fuel sb).run s = .ok (sb', s') ∧
      Updated .writeSuper sb s sb' s' := by
  cases hro : hasFlag sb.sFlags msRdonly with
  | true =>
      refine ⟨{ sb with sDirt := false }, s, ?_, ?_, fun _ => h.flags _ _, rfl⟩
      · simp [SuperUpdate.code, minixWriteSuper, hro, Prog.run, pure]
      · simp [SuperUpdate.stored, hro, withState, Rearranged.refl]
  | false =>
      have hstored := inUse_withState h
        (SuperUpdate.writeSuper.stored sb (word (s.bufmem sb.sMs) sState))
      refine ⟨{ sb with sDirt := false }, _, ?_, rearranged_markDirty,
        fun _ => (hstored.markDirty sb.sSbh).flags _ _, rfl⟩
      simp [SuperUpdate.code, minixWriteSuper, hro, Prog.run_bind, run_clearValid,
        run_minixCommitSuper, SuperUpdate.stored]

theorem putSuper_updated (fuel : Nat) (h : InUse sb s) :
    ∃ sb' s', (SuperUpdate.putSuper.code fuel sb).run s = .ok (sb', s') ∧
      Updated .putSuper sb s sb' s' := by
  have hput : ∃ s₁, (putMountState sb).run s = .ok ((), s₁) ∧
      Rearranged (withState sb s
        (SuperUpdate.putSuper.stored sb (word (s.bufmem sb.sMs) sState))) s₁ ∧ InUse sb s₁ := by
    cases hro : hasFlag sb.sFlags msRdonly with
    | true =>
        refine ⟨s, ?_, ?_, h⟩
        · simp [putMountState, hro, Prog.run, pure]
        · simp [SuperUpdate.stored, hro, withState, Rearranged.refl]
    | false =>
        have hstored := inUse_withState h (some sb.sMountState)
        refine ⟨_, ?_, ?_, hstored.markDirty sb.sSbh⟩
        · simp [putMountState, hro, Prog.run_bind, run_putState, run_markBufferDirty]
        · simp [SuperUpdate.stored, hro, rearranged_markDirty]
  obtain ⟨s₁, hrun₁, hsame₁, h₁⟩ := hput
  have hnodup := h₁.nodup
  have hheld := h₁.held
  rw [MinixSuper.heads, List.reduceOption_append, List.reduceOption_append] at hnodup hheld
  obtain ⟨hi, hz, hiz⟩ := List.nodup_append.mp hnodup
  obtain ⟨hz', _, hzs⟩ := List.nodup_append.mp hz
  -- each of the three parts is released in turn, and the others stay held
  obtain ⟨s₂, hrun₂, hsame₂, hcount₂⟩ := run_brelseAll fuel h₁.unlocked hi fun b hb =>
    hheld b (List.mem_append_left _ hb)
  have hlock₂ : ∀ b, (s₂.buffers b).bLock = false :=
    fun b => (hsame₂.bLock b).trans (h₁.unlocked b)
  have hheld₂ : ∀ b, b ∈ sb.zmapHeads.reduceOption ++ [sb.sSbh] →
      (s₂.buffers b).bCount ≠ 0 := by
    intro b hb
    rw [hcount₂ b fun hb' => hiz b hb' b hb rfl]
    exact hheld b (List.mem_append_right _ hb)
  obtain ⟨s₃, hrun₃, hsame₃, hcount₃⟩ := run_brelseAll fuel hlock₂ hz' fun b hb =>
    hheld₂ b (List.mem_append_left _ hb)
  have hlast : (s₃.buffers sb.sSbh).bCount ≠ 0 := by
    rw [hcount₃ _ fun hb => hzs _ hb sb.sSbh (List.mem_singleton_self _) rfl]
    exact hheld₂ _ (List.mem_append_right _ (List.mem_singleton_self _))
  have hrun₄ := run_brelse fuel ((hsame₃.bLock sb.sSbh).trans (hlock₂ sb.sSbh)) hlast
  refine ⟨{ sb with sDev := 0 }, dropRef sb.sSbh s₃, ?_, ((hsame₁.trans hsame₂).trans hsame₃).trans
    rearranged_dropRef, fun hne => absurd rfl hne, rfl⟩
  simp [SuperUpdate.code, minixPutSuper, h.free, Prog.run_bind, hrun₁, hrun₂, hrun₃, hrun₄,
    Prog.run, pure]

theorem remount_updated (fuel : Nat) (flags : Nat) (h : InUse sb s) :
    ∃ sb' s', ((SuperUpdate.remount flags).code fuel sb).run s = .ok (sb', s') ∧
      Updated (.remount flags) sb s sb' s' := by
  have hremount : ∃ sb' s', (minixRemount sb flags).run s = .ok (sb', s') ∧
      Rearranged (withState sb s
        ((SuperUpdate.remount flags).stored sb (word (s.bufmem sb.sMs) sState))) s' ∧
      InUse sb' s' ∧ sb'.sSbh = sb.sSbh := by
    have hold : (SuperUpdate.remount flags).stored sb (word (s.bufmem sb.sMs) sState) = none →
        (minixRemount sb flags).run s = .ok (sb, s) →
        ∃ sb' s', (minixRemount sb flags).run s = .ok (sb', s') ∧
          Rearranged (withState sb s
            ((SuperUpdate.remount flags).stored sb (word (s.bufmem sb.sMs) sState))) s' ∧
          InUse sb' s' ∧ sb'.sSbh = sb.sSbh := by
      intro hnone hrun
      rw [hnone]
      exact ⟨sb, s, hrun, Rearranged.refl s, h, rfl⟩
    by_cases hsame : hasFlag flags msRdonly = hasFlag sb.sFlags msRdonly
    · apply hold
      · simp [SuperUpdate.stored, hsame]
      · simp [minixRemount, hsame, Prog.run_bind, Prog.get, Prog.run, pure]
    · cases hro : hasFlag flags msRdonly with
      | true =>
          rw [hro] at hsame
          by_cases hclean : hasFlag (word (s.bufmem sb.sMs) sState) minixValidFs ∨
              hasFlag sb.sMountState minixValidFs = false
          · apply hold
            · simp [SuperUpdate.stored, hro, hsame, hclean]
            · simp [minixRemount, hro, hsame, hclean, Prog.run_bind, Prog.get, Prog.run, pure]
          · have hstored := inUse_withState h (some sb.sMountState)
            refine ⟨{ sb with sDirt := false }, _, ?_, ?_,
              (hstored.markDirty sb.sSbh).flags _ _, rfl⟩
            · simp [minixRemount, hro, hsame, hclean, Prog.run_bind, Prog.get, Prog.run,
                run_putState, run_minixCommitSuper]
            · simp [SuperUpdate.stored, hro, hsame, hclean, rearranged_markDirty]
      | false =>
          rw [hro] at hsame
          have hstored := inUse_withState h
            (some (word (s.bufmem sb.sMs) sState &&& notValidFs))
          have hdirty := hstored.markDirty sb.sSbh
          refine ⟨{ sb with sMountState := word (s.bufmem sb.sMs) sState, sDirt := true }, _,
            ?_, ?_, ⟨hdirty.twoLevel, hdirty.backed, hdirty.unlocked, hdirty.free,
              word_lt _ _, hdirty.nodup, hdirty.held⟩, rfl⟩
          · simp [minixRemount, hro, hsame, Prog.run_bind, Prog.get, Prog.run, run_putState,
              run_markBufferDirty, pure]
          · simp [SuperUpdate.stored, hro, hsame, rearranged_markDirty]
  obtain ⟨sb', s', hrun, hsame, hin, hsbh⟩ := hremount
  refine ⟨{ sb' with sFlags := (sb'.sFlags &&& 0xfffe) ||| (flags &&& msRdonly) }, s', ?_,
    hsame, fun _ => hin.flags _ sb'.sDirt, hsbh⟩
  simp [SuperUpdate.code, Prog.run_bind, hrun, Prog.run, pure]

theorem update_updated (fuel : Nat) (u : SuperUpdate) (h : InUse sb s) :
    ∃ sb' s', (u.code fuel sb).run s = .ok (sb', s') ∧ Updated u sb s sb' s' := by
  cases u with
  | writeSuper => exact writeSuper_updated fuel h
  | putSuper => exact putSuper_updated fuel h
  | remount flags => exact remount_updated fuel flags h

theorem stored_lt {state v : Nat} (h : InUse sb s) (hstate : state < 65536)
    (hv : u.stored sb state = some v) : v < 65536 := by
  have hmount := h.state_lt
  have hand : state &&& notValidFs ≤ state := Nat.and_le_left
  cases u with
  | writeSuper =>
      simp only [SuperUpdate.stored] at hv
      split_ifs at hv
      have := Option.some.inj hv
      omega
  | putSuper =>
      simp only [SuperUpdate.stored] at hv
      split_ifs at hv
      have := Option.some.inj hv
      omega
  | remount flags =>
      simp only [SuperUpdate.stored] at hv
      split_ifs at hv <;>
      · have := Option.some.inj hv
        omega

theorem keepsRest_iff (fuel : Nat) (h : InUse sb s) :
    KeepsRest fuel u sb s ↔ PointsHome u sb s := by
  obtain ⟨sb', s', hrun, hup⟩ := update_updated fuel u h
  have hcontent : ∀ b, s'.content b = (withState sb s
      (u.stored sb (word (s.bufmem sb.sMs) sState))).content b := hup.effect.store.content
  have hrest : KeepsRest fuel u sb s ↔
      (∀ b, b ≠ sb.sSbh → s'.content b = s.content b) ∧
        (∃ v, s'.content sb.sSbh = putWord (s.content sb.sSbh) sState v) ∧
        (u = .putSuper → hasFlag sb.sFlags msRdonly = false →
          word (s'.content sb.sSbh) sState = sb.sMountState) := by
    constructor
    · rintro ⟨sb₂, s₂, hrun₂, hkeep⟩
      rw [hrun] at hrun₂
      cases hrun₂
      exact hkeep
    · intro hkeep
      exact ⟨sb', s', hrun, hkeep⟩
  rw [hrest]
  cases hst : u.stored sb (word (s.bufmem sb.sMs) sState) with
  | none =>
      rw [hst] at hcontent
      constructor
      · intro _
        right
        intro v hv
        rw [hst] at hv
        cases hv
      · intro _
        constructor
        · intro b _
          exact hcontent b
        · constructor
          · exact ⟨_, (hcontent sb.sSbh).trans (putWord_word _ sState).symm⟩
          · rintro rfl hrw
            simp [SuperUpdate.stored, hrw] at hst
  | some v =>
      have hv := stored_lt h (word_lt _ _) hst
      rw [hst] at hcontent
      simp only [withState, content_store h.twoLevel] at hcontent
      have hheld : ∀ b, s.bufmemMap sb.sMs = some b → s.content b = s.bufmem sb.sMs :=
        fun b hb => h.twoLevel.content_of_mapped ((h.twoLevel.map_iff _ _).mp hb)
      have hput : u = .putSuper → hasFlag sb.sFlags msRdonly = false ∧ v = sb.sMountState := by
        rintro rfl
        simp only [SuperUpdate.stored] at hst
        split_ifs at hst with hro
        exact ⟨by simpa using hro, (Option.some.inj hst).symm⟩
      constructor
      · rintro ⟨hframe, _, hcarry⟩
        by_cases hhome : s.bufmemMap sb.sMs = some sb.sSbh
        · exact Or.inl hhome
        · right
          intro v' hv'
          obtain rfl : v = v' := Option.some.inj (hst.symm.trans hv')
          constructor
          · cases hmap : s.bufmemMap sb.sMs with
            | none => exact Or.inl rfl
            | some w =>
                right
                have hw : w ≠ sb.sSbh := by
                  rintro rfl
                  exact hhome hmap
                have hsame := hframe w hw
                rw [hcontent w, if_pos hmap, hheld w hmap] at hsame
                exact (putWord_eq_self_iff hv).mp hsame
          · intro hu
            have hword := hcarry hu (hput hu).1
            rw [hcontent, if_neg hhome] at hword
            rw [hword, (hput hu).2]
      · intro hpoint
        by_cases hhome : s.bufmemMap sb.sMs = some sb.sSbh
        · constructor
          · intro b hb
            rw [hcontent b, if_neg]
            intro hmap
            exact hb (Option.some.inj (hmap.symm.trans hhome))
          · constructor
            · refine ⟨v, ?_⟩
              rw [hcontent, if_pos hhome, hheld _ hhome]
            · intro hu _
              rw [hcontent, if_pos hhome, word_putWord_same _ _ hv, (hput hu).2]
        · obtain ⟨hunseen, hcarry⟩ := (hpoint.resolve_left hhome) v hst
          constructor
          · intro b _
            rw [hcontent b]
            split_ifs with hmap
            · have hword := hunseen.resolve_left (by rw [hmap]; simp)
              rw [(putWord_eq_self_iff hv).mpr hword, hheld b hmap]
            · rfl
          · constructor
            · refine ⟨word (s.content sb.sSbh) sState, ?_⟩
              rw [hcontent, if_neg hhome, putWord_word]
            · intro hu _
              rw [hcontent, if_neg hhome, hcarry hu, (hput hu).2]

end Effect

section Uses

variable {sb : MinixSuper} {s : Buffers} {fuel : Nat}

theorem use_heads (op : StoreOp) (hfuel : 2 ≤ fuel) (hs : TwoLevel s) :
    Prog.Awake .bufmapwait (op.code fuel) s fun _ s' =>
      ∀ b, (s'.buffers b).bLock = (s.buffers b).bLock ∧
        (s'.buffers b).bCount = (s.buffers b).bCount := by
  cases op with
  | handOut bh =>
      intro b
      by_cases hb : b = bh
      · subst hb
        simp [Buffers.modHead, Buffers.setHead]
      · simp [Buffers.modHead, Buffers.setHead, hb]
  | map bh =>
      apply (Buffer.mapBuffer_awake hfuel hs).mono
      intro _ s' hstep b
      rw [hstep.step.head b]
      exact ⟨rfl, rfl⟩
  | unmap bh =>
      intro b
      have hhead := (Buffer.unmapBuffer_storeStep hs bh).head b
      show ((s.unmapBuffer bh).buffers b).bLock = _ ∧ ((s.unmapBuffer bh).buffers b).bCount = _
      rw [hhead]
      exact ⟨rfl, rfl⟩
  | write bh k v =>
      intro b
      have hbuffers : (s.writeByte bh k v).buffers = s.buffers := by
        unfold Buffers.writeByte Buffers.store
        cases (s.buffers bh).bData <;> rfl
      show ((s.writeByte bh k v).buffers b).bLock = _ ∧ ((s.writeByte bh k v).buffers b).bCount = _
      rw [hbuffers]
      exact ⟨rfl, rfl⟩

theorem InUse.use (op : StoreOp) (hfuel : 2 ≤ fuel) (h : InUse sb s) (hlegal : op.Legal s) :
    Prog.Awake .bufmapwait (op.code fuel) s fun _ s' => InUse sb s' := by
  have hstore := StoreOp.awake hfuel h.twoLevel h.backed hlegal
  have hheads := use_heads op hfuel h.twoLevel
  unfold Prog.Awake at hstore hheads ⊢
  cases hr : (op.code fuel).run s with
  | error f =>
      rw [hr] at hstore
      exact hstore
  | ok r =>
      rw [hr] at hstore hheads
      constructor
      · exact hstore.1
      · exact hstore.2.1
      · intro b
        rw [(hheads b).1]
        exact h.unlocked b
      · exact h.free
      · exact h.state_lt
      · exact h.nodup
      · intro b hb
        rw [(hheads b).2]
        exact h.held b hb

end Uses

theorem atUpdates_kept_iff {fuel : Nat} (hfuel : 2 ≤ fuel) {sb : MinixSuper} {s : Buffers}
    (h : InUse sb s) (events : List SuperEvent) :
    AtUpdates fuel (KeepsRest fuel) sb s events ↔ AtUpdates fuel PointsHome sb s events := by
  induction events generalizing sb s with
  | nil =>
      rfl
  | cons event events ih =>
      cases event with
      | use op =>
          have huse := InUse.use op hfuel h
          unfold AtUpdates
          apply forall_congr'
          intro hlegal
          apply imp_congr_right
          intro _
          have hafter := huse hlegal
          unfold Prog.Awake at hafter
          cases hr : (op.code fuel).run s with
          | error f => rfl
          | ok r =>
              rw [hr] at hafter
              exact ih hafter
      | update u =>
          obtain ⟨sb', s', hrun, hup⟩ := update_updated fuel u h
          unfold AtUpdates
          rw [keepsRest_iff fuel h, hrun]
          apply and_congr_right
          intro _
          apply imp_congr_right
          intro hu
          exact ih (hup.inUse hu)

/-- **Where the updates of a superblock land.**  In every run of uses of other
buffers and of updates from the mount on, every update keeps the rest exactly
when every update finds its pointer at home or stores nothing that is seen. -/
theorem superRun_kept_iff
    {fuel : Nat}
    (hfuel : 2 ≤ fuel)
    {sb : MinixSuper}
    {s : Buffers}
    (h : Mounted sb s)
    (events : List SuperEvent) :
    AtUpdates fuel (KeepsRest fuel) sb s events ↔ AtUpdates fuel PointsHome sb s events :=
  atUpdates_kept_iff hfuel h.toInUse events

section Recycled

/-- A writable mount whose superblock is in buffer 0. -/
def smallSuper : MinixSuper where
  sFlags := 0
  sDirt := true
  sLock := false
  sDev := 0x100
  sImap := fun _ => none
  sZmap := fun _ => none
  sSbh := 0
  sMs := 0
  sMountState := 1

/-- The store after that mount: buffer 0 is held, unmapped, and in L1 block 0. -/
def smallStore : Buffers :=
  let s := Buffer.bufferInit (Buffer.blankHardware .polled)
  { s with
    buffers := Function.update s.buffers 0
      { s.buffers 0 with bData := some 0, bCount := 1, bUptodate := true, bSeg := s.ds }
    bufmemMap := Function.update s.bufmemMap 0 (some 0) }

theorem smallSuper_mounted :
    Mounted smallSuper smallStore where
  twoLevel := ⟨by decide +kernel, by decide +kernel⟩
  backed := by
    unfold Buffer.Backed
    decide +kernel
  unlocked := by decide +kernel
  free := rfl
  state_lt := by decide
  nodup := by decide +kernel
  held := by decide +kernel
  pointer := rfl

/-- A buffer is handed out and mapped. -/
def handAndMap (bh : Bh) : List SuperEvent :=
  [.use (.handOut bh), .use (.map bh)]

/-- Nine other buffers are mapped and all but one stay so; the ninth takes the
L1 block of the superblock, gets a byte, and the superblock is written. -/
def recycled : List SuperEvent :=
  [1, 2, 3, 4, 5, 6, 7].flatMap handAndMap ++ [.use (.unmap 1)] ++ handAndMap 8 ++
    handAndMap 9 ++ [.use (.write 9 18 1), .update .writeSuper]

theorem superRun_kept_iff_recycled :
    AtUpdates 2 (KeepsRest 2) smallSuper smallStore recycled ↔
      AtUpdates 2 PointsHome smallSuper smallStore recycled :=
  superRun_kept_iff (by decide) smallSuper_mounted recycled

/-- There the update changes buffer 9 and leaves the superblock alone. -/
theorem superRun_recycled :
    ¬ ∀ (fuel : Nat) (sb : MinixSuper) (s : Buffers) (events : List SuperEvent),
      2 ≤ fuel → Mounted sb s → AtUpdates fuel (KeepsRest fuel) sb s events := by
  intro hall
  have h := hall 2 smallSuper smallStore recycled (by decide) smallSuper_mounted
  have hhome := (atUpdates_kept_iff (by decide) smallSuper_mounted.toInUse recycled).mp h
  exact absurd hhome (by decide +kernel)

end Recycled

end Minix
end Elks
