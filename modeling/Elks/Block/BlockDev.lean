import Elks.Buffer.Prompt
import Elks.Lib.Splice

/-!
# Raw reads and writes of block devices (fs/block_dev.c)

`blk_rw` goes through a range of a device block by block.  The number of the first
block is taken from the low 16 bits of the position.

* `blkRwRound_reads`, `blkRwRound_writes`: a round of the loop moves the bytes of
  one block.
* `blkRwLoop_reads`, `blkRwLoop_writes`: the loop moves the bytes of a range, which
  begins at the position modulo `2 ^ 16`.
* `blockIo_iff`: so a read or a write is right for the first 64 KiB of a device, and
  elsewhere only where the bytes there agree.
-/

namespace Elks
namespace BlockDev

open Lib
open Buffer

section Code

def eio : Int := 5
def enospc : Int := 28

/-- Conversion to a 16-bit `int`. -/
def int16 (n : Nat) : Int :=
  (n : Int).bmod 65536

/-- The variables of `blk_rw`, with `filp->f_pos` and the memory of the caller from
`buf` on. -/
structure Xfer where
  block : Nat
  offset : Nat
  count : Nat
  written : Nat
  buf : Nat
  fPos : Nat
  user : Nat → UInt8

namespace Xfer

variable (x : Xfer)

/-- `chars`. -/
def chars : Nat :=
  if x.count < blockSize - x.offset then x.count else blockSize - x.offset

/-- The variables at the end of a round. -/
def moveOn : Xfer where
  block := wrap 16 (x.block + 1)
  offset := 0
  count := x.count - x.chars
  written := wrap 16 (x.written + x.chars)
  buf := x.buf + x.chars
  fPos := wrap 32 (x.fPos + x.chars)
  user := x.user

/-- What `memcpy_fromfs` makes of the block. -/
def memcpyFromfs (b : Block) : Block :=
  spliceBlock b x.offset x.chars fun i => x.user (x.buf + i)

/-- What `memcpy_tofs` makes of the memory of the caller. -/
def memcpyTofs (b : Block) : Nat → UInt8 :=
  splice x.user x.buf x.chars fun i => b (Fin.ofNat blockSize (x.offset + i))

end Xfer

/-- The buffer for a round: a whole block that is written need not be read. -/
def blockFor (fuel dev : Nat) (wr : Rw) (x : Xfer) : Code (Option Bh) :=
  if wr = .write ∧ x.chars = blockSize then do
    let bh ← getblk fuel dev x.block
    pure (some bh)
  else
    bread fuel dev x.block

/-- A round of the loop of `blk_rw`, with the value if the function returns there. -/
def blkRwRound (fuel dev : Nat) (wr : Rw) (x : Xfer) : Code (Option Int × Xfer) := do
  let found ← blockFor fuel dev wr x
  match found with
  | none =>
      pure (some (if x.written ≠ 0 then int16 x.written else -eio),
        { x with block := wrap 16 (x.block + 1) })
  | some bh =>
      match wr with
      | .write => do
          editBytes fuel bh x.memcpyFromfs
          updHead bh fun h => { h with bUptodate := true, bDirty := true }
          llRwBlk fuel .write bh
          waitOnBuffer fuel bh
          let s ← Prog.get
          unmapBrelse fuel bh
          pure (if (s.buffers bh).bUptodate then none else some (-eio), x.moveOn)
      | .read => do
          mapBuffer fuel bh
          let s ← Prog.get
          unmapBrelse fuel bh
          pure (none, { x.moveOn with user := x.memcpyTofs (s.deref (s.buffers bh).bData) })

/-- The loop of `blk_rw`; every round moves at least one byte. -/
def blkRwLoop (fuel dev : Nat) (wr : Rw) : Nat → Xfer → Code (Int × Xfer)
  | 0, _ => .fault .endless
  | n + 1, x =>
      if 0 < x.count then do
        let r ← blkRwRound fuel dev wr x
        match r.1 with
        | some value => pure (value, r.2)
        | none => blkRwLoop fuel dev wr n r.2
      else
        pure (if wr = .write ∧ x.written = 0 then -enospc else int16 x.written, x)

/-- The variables at the start of `blk_rw`. -/
def Xfer.start (fPos : Nat) (user : Nat → UInt8) (count : Nat) : Xfer where
  block := wrap 16 fPos / 1024
  offset := fPos % 1024
  count := count
  written := 0
  buf := 0
  fPos := fPos
  user := user

/-- `blk_rw` on the device of the inode. -/
def blkRw (fuel dev fPos : Nat) (user : Nat → UInt8) (count : Nat) (wr : Rw) :
    Code (Int × Xfer) :=
  blkRwLoop fuel dev wr (count + 1) (Xfer.start fPos user count)

/-- `block_read`. -/
def blockRead (fuel dev fPos : Nat) (user : Nat → UInt8) (count : Nat) : Code (Int × Xfer) :=
  blkRw fuel dev fPos user count .read

/-- `block_write`. -/
def blockWrite (fuel dev fPos : Nat) (user : Nat → UInt8) (count : Nat) : Code (Int × Xfer) :=
  blkRw fuel dev fPos user count .write

end Code

section Device

/-- The bytes of a block as the cache and the disk have them. -/
def blockOf (s : Buffers) (dev block : Nat) : Block :=
  match s.findBuffer dev block with
  | some bh => if (s.buffers bh).bUptodate then s.content bh else s.disk dev block
  | none => s.disk dev block

/-- The bytes of a device. -/
def deviceBytes (s : Buffers) (dev : Nat) : Nat → UInt8 :=
  flatten (blockOf s dev)

variable {good : Nat → Prop} {flat : Flat} {s : Buffers} {dev : Nat}

theorem blockOf_eq (hc : Coherent good flat s.core) (hdev : dev ≠ 0) (block : Nat) :
    blockOf s dev block = flat dev block := by
  unfold blockOf
  cases hf : s.findBuffer dev block with
  | none =>
      refine hc.disk dev block hdev fun b hd hb => ?_
      exact absurd ⟨hd, hb⟩ (findBuffer_none_iff.mp hf b)
  | some bh =>
      obtain ⟨rfl, rfl⟩ := findBuffer_some hf
      dsimp only
      split
      · rename_i hup
        exact hc.content bh hdev hup
      · rename_i hup
        refine hc.disk_of_clean hdev ?_
        by_contra hdirty
        exact hup (hc.dirty bh (by simpa using hdirty)).1

theorem deviceBytes_eq (hc : Coherent good flat s.core) (hdev : dev ≠ 0) :
    deviceBytes s dev = flatten (flat dev) :=
  congrArg flatten (funext (blockOf_eq hc hdev))

/-- Store and queues are at rest, the cache holds `flat`, and there is room for one
call. -/
structure Idle (good : Nat → Prop) (flat : Flat) (s : Buffers) : Prop where
  quiet : Quiet s
  coherent : Coherent good flat s.core
  roomy : s.uses.Roomy

end Device

section Round

variable {good : Nat → Prop} {flat : Flat} {s s₀ : Buffers} {fuel dev : Nat} {bh : Bh}
  {x : Xfer}

/-- The buffer of a block in the hands of the call that began in `s₀`. -/
structure InHand (good : Nat → Prop) (flat : Flat) (dev block : Nat) (bh : Bh)
    (s₀ s : Buffers) : Prop where
  quiet : Quiet s
  coherent : Coherent good flat s.core
  tag : (s.buffers bh).bDev = dev ∧ (s.buffers bh).bBlocknr = block
  uses : s.uses = s₀.uses.take bh

theorem blockFor_runs (wr : Rw) (hfuel : 2 ≤ fuel) (hs : Idle good flat s)
    (hdev : dev ≠ 0) (hgood : good dev) :
    Prog.Runs (blockFor fuel dev wr x) s fun found s' =>
      ∃ bh, found = some bh ∧ InHand good flat dev x.block bh s s' ∧
        (¬(wr = .write ∧ x.chars = blockSize) → s'.content bh = flat dev x.block) := by
  unfold blockFor
  split
  · rename_i hwhole
    rw [Prog.runs_bind]
    refine ((getblk_quietly hfuel hs.quiet hs.coherent hs.roomy.held_card hgood).runs
      (getblk_prompt hfuel hs.quiet hs.coherent hs.roomy)).mono ?_
    rintro bh s' ⟨⟨hquiet, hcoherent, htag⟩, huses⟩
    exact ⟨bh, rfl, ⟨hquiet, hcoherent, htag, huses⟩, fun h => absurd hwhole h⟩
  · refine ((bread_quietly hfuel hs.quiet hs.coherent hs.roomy.held_card hdev hgood).runs
      (bread_prompt hfuel hs.quiet hs.coherent hs.roomy hdev hgood)).mono ?_
    rintro found s' ⟨⟨hquiet, hcoherent, bh, hfound, hd, hb, -, hcontent⟩, huses⟩
    exact ⟨bh, hfound, ⟨hquiet, hcoherent, ⟨hd, hb⟩, huses bh hfound⟩, fun _ => hcontent⟩

theorem mapBuffer_inHand {block : Nat} (hfuel : 2 ≤ fuel) (hroom : s₀.uses.Roomy)
    (hs : InHand good flat dev block bh s₀ s) :
    Prog.Runs (mapBuffer fuel bh) s fun _ s' =>
      MapFrame bh s s' ∧ s'.uses = (s₀.uses.take bh).pin bh := by
  obtain ⟨n, rfl⟩ := Nat.exists_eq_add_of_le' hfuel
  have hfew : s.uses.Few := by
    rw [hs.uses]
    exact hroom.few
  have hmapped : s.uses.mapped bh + 1 < 2 ^ 16 := by
    rw [hs.uses]
    exact Nat.lt_of_succ_lt (hroom.mapped_lt bh)
  refine (mapBuffer_runs n hs.quiet.twoLevel hfew).mono ?_
  intro _ s' hmap
  refine ⟨hmap, ?_⟩
  rw [hmap.uses hmapped, hs.uses]

theorem unmapBrelse_inHand (hroom : s₀.uses.Roomy) (hquiet : Quiet s)
    (hcoherent : Coherent good flat s.core) (huses : s.uses = (s₀.uses.take bh).pin bh) :
    Prog.Runs (unmapBrelse fuel bh) s fun _ s' =>
      Idle good flat s' ∧ s'.uses = s₀.uses := by
  have hheld : s.uses.held bh = s₀.uses.held bh + 1 := by
    rw [huses]
    simp [Uses.take, Uses.pin]
  have hpos : 0 < s.uses.held bh := by omega
  have hlt : s.uses.held bh < 2 ^ 16 := by
    rw [hheld]
    exact hroom.held_lt bh
  have hquietly : Quietly (unmapBrelse fuel bh) s fun _ c => Coherent good flat c := by
    refine Quietly.bind (unmapBuffer_quietly hquiet) ?_
    intro _ s₁ hs₁ hcore₁
    refine brelse_quietly hs₁ (hcore₁ ▸ hcoherent) ?_
    have hcount : (s₁.core.heads bh).bCount = (s.core.heads bh).bCount := by
      rw [hcore₁]
    rw [← core_bCount, hcount]
    exact hpos
  refine (hquietly.runs (unmapBrelse_prompt (hcoherent.unlocked bh) hpos hlt)).mono ?_
  rintro _ s' ⟨⟨hquiet', hcoherent'⟩, huses'⟩
  have hback : s'.uses = s₀.uses := by
    rw [huses', huses, Uses.unpin_pin, Uses.drop_take]
  exact ⟨⟨hquiet', hcoherent', hback ▸ hroom⟩, hback⟩

theorem blkRwRound_reads (hfuel : 2 ≤ fuel) (hs : Idle good flat s)
    (hdev : dev ≠ 0) (hgood : good dev) :
    Prog.Runs (blkRwRound fuel dev .read x) s fun r s' =>
      r = (none, { x.moveOn with user := x.memcpyTofs (flat dev x.block) }) ∧
        Idle good flat s' := by
  unfold blkRwRound
  rw [Prog.runs_bind]
  refine (blockFor_runs .read hfuel hs hdev hgood).mono ?_
  rintro _ s₁ ⟨bh, rfl, h₁, hcontent⟩
  have hbytes : s₁.content bh = flat dev x.block := hcontent (by simp)
  obtain ⟨hd, -⟩ := h₁.tag
  have hseg : (s₁.buffers bh).bSeg = s₁.ds :=
    h₁.coherent.seg bh (by rw [core_bDev, hd]; exact hdev)
  simp only [Prog.runs_bind]
  refine (mapBuffer_inHand hfuel hs.roomy h₁).mono ?_
  rintro _ s₂ ⟨hmap, huses₂⟩
  have hquiet₂ := hmap.step.quiet h₁.quiet
  have hcoherent₂ : Coherent good flat s₂.core := by
    rw [hmap.step.core_eq]
    exact h₁.coherent
  obtain ⟨i, hi⟩ := Option.ne_none_iff_exists'.mp (hmap.mapped hseg)
  have hderef : s₂.deref (s₂.buffers bh).bData = flat dev x.block := by
    rw [hi, ← hbytes, ← hmap.step.content bh, hquiet₂.twoLevel.content_of_mapped hi]
    rfl
  simp only [Prog.runs_get, hderef]
  refine (unmapBrelse_inHand hs.roomy hquiet₂ hcoherent₂ huses₂).mono ?_
  rintro _ s₃ ⟨hidle, -⟩
  exact ⟨rfl, hidle⟩

theorem memcpyFromfs_whole {b b' : Block} (hoff : x.offset < blockSize)
    (hwhole : x.chars = blockSize) : x.memcpyFromfs b = x.memcpyFromfs b' := by
  have hzero : x.offset = 0 := by
    unfold Xfer.chars at hwhole
    split at hwhole <;> omega
  funext k
  have hk : x.offset ≤ k.val ∧ k.val < x.offset + x.chars := by
    have := k.isLt
    omega
  simp only [Xfer.memcpyFromfs, spliceBlock, if_pos hk]

theorem blkRwRound_writes (hfuel : 2 ≤ fuel) (hs : Idle good flat s)
    (hdev : dev ≠ 0) (hgood : good dev) (hoff : x.offset < blockSize) :
    Prog.Runs (blkRwRound fuel dev .write x) s fun r s' =>
      r = (none, x.moveOn) ∧
        Idle good (flat.put dev x.block (x.memcpyFromfs (flat dev x.block))) s' := by
  unfold blkRwRound
  rw [Prog.runs_bind]
  refine (blockFor_runs .write hfuel hs hdev hgood).mono ?_
  rintro _ s₁ ⟨bh, rfl, h₁, hcontent⟩
  have hnew : x.memcpyFromfs (s₁.content bh) = x.memcpyFromfs (flat dev x.block) := by
    by_cases hwhole : x.chars = blockSize
    · exact memcpyFromfs_whole hoff hwhole
    · rw [hcontent fun h => hwhole h.2]
  obtain ⟨hd, hb⟩ := h₁.tag
  have hdev₁ : (s₁.core.heads bh).bDev ≠ 0 := by
    rw [core_bDev, hd]
    exact hdev
  -- the bytes are copied into the mapped buffer
  have hedit : Prog.Runs (editBytes fuel bh x.memcpyFromfs) s₁ fun _ s₂ =>
      (Quiet s₂ ∧ s₂.core = s₁.core.putContent bh (x.memcpyFromfs (s₁.content bh))) ∧
        s₂.uses = (s.uses.take bh).pin bh := by
    refine (editBytes_quietly hfuel h₁.quiet (h₁.coherent.seg bh hdev₁)).runs ?_
    simp only [editBytes, Prog.prompt_bind]
    refine (mapBuffer_inHand hfuel hs.roomy h₁).prompt.mono ?_
    rintro _ s₂ ⟨-, huses₂⟩
    simp only [Prog.prompt_modify]
    rw [← huses₂]
    cases (s₂.buffers bh).bData <;> rfl
  simp only [Prog.runs_bind]
  refine hedit.mono ?_
  rintro _ s₂ ⟨⟨hquiet₂, hcore₂⟩, huses₂⟩
  -- it is marked valid and dirty
  simp only [updHead, Prog.runs_modify]
  have hplain : Plain fun h => { h with bUptodate := true, bDirty := true } :=
    ⟨fun _ => rfl, fun _ => rfl, fun _ => rfl⟩
  let s₃ := s₂.modHead bh fun h => { h with bUptodate := true, bDirty := true }
  have hquiet₃ : Quiet s₃ := quiet_modHead hplain hquiet₂
  have huses₃ : s₃.uses = (s.uses.take bh).pin bh := by
    have h : s₃.uses = s₂.uses := uses_modHead (fun _ => rfl) (fun _ => rfl)
    rw [h, huses₂]
  let flat' := flat.put dev x.block (x.memcpyFromfs (flat dev x.block))
  have hcoherent₃ : Coherent good flat' s₃.core := by
    have h := h₁.coherent.edit (b := x.memcpyFromfs (s₁.content bh)) hdev₁
    rw [core_bDev, core_bBlocknr, hd, hb, hnew] at h
    have hcore₃ : s₃.core = (s₁.core.putContent bh (x.memcpyFromfs (flat dev x.block))).setHead
        bh fun h => { h with bUptodate := true, bDirty := true } := by
      rw [← hnew, ← hcore₂]
      exact core_modHead hplain
    rw [hcore₃]
    exact h
  have hflags : (s₃.core.heads bh).bDirty = true ∧ (s₃.core.heads bh).bDev ≠ 0 := by
    have hown : s₃.core.heads bh =
        { s₂.core.heads bh with bUptodate := true, bDirty := true } := by
      rw [core_modHead hplain]
      simp [Core.setHead]
    have hsame : (s₂.core.heads bh).bDev = (s₁.core.heads bh).bDev := by
      rw [hcore₂]
      rfl
    rw [hown]
    exact ⟨rfl, hsame.trans_ne hdev₁⟩
  obtain ⟨hdirty₃, hdev₃⟩ := hflags
  have hgood₃ := hcoherent₃.devices _ (hcoherent₃.good bh hdev₃)
  have hfew₃ : s₃.uses.Few := by
    rw [huses₃]
    exact hs.roomy.few_pin bh
  have hmapped₃ : s₃.uses.mapped bh + 1 < 2 ^ 16 := by
    rw [huses₃]
    simpa [Uses.pin, Uses.take] using hs.roomy.mapped_lt bh
  -- and written to the device at once
  obtain ⟨hcoherent₄, -, -⟩ := hcoherent₃.flush hdirty₃
  obtain ⟨-, hhead₄⟩ := hcoherent₃.oneBuffer_serve bh .write
  have hwrite : Quietly (llRwBlk fuel .write bh) s₃ fun _ c => c = s₃.core.serve .write bh :=
    llRwBlk_quietly hfuel hquiet₃ (hcoherent₃.unlocked bh) (hcoherent₃.seg bh hdev₃) hdirty₃
      hgood₃
  refine (hwrite.runs (llRwBlk_prompt .write hfuel hquiet₃ (hcoherent₃.unlocked bh) hdirty₃
    hgood₃ hfew₃ hmapped₃)).mono ?_
  rintro _ s₄ ⟨⟨hquiet₄, hcore₄⟩, huses₄⟩
  rw [← hcore₄] at hcoherent₄ hhead₄
  have hup₄ : (s₄.buffers bh).bUptodate = true := by
    rw [← core_bUptodate, hhead₄]
  have hlock₄ : (s₄.buffers bh).bLock = false := hcoherent₄.unlocked bh
  rw [waitOnBuffer]
  simp only [Prog.runs_bind, Prog.runs_get]
  rw [if_neg (by rw [hlock₄]; decide)]
  simp only [Prog.runs_pure]
  refine (unmapBrelse_inHand hs.roomy hquiet₄ hcoherent₄ (huses₄.trans huses₃)).mono ?_
  rintro _ s₅ ⟨hidle, -⟩
  rw [if_pos hup₄]
  exact ⟨rfl, hidle⟩

end Round

section Loop

variable {good : Nat → Prop} {flat : Flat} {s : Buffers} {fuel dev : Nat} {x : Xfer}

theorem Xfer.chars_le (x : Xfer) : x.chars ≤ x.count ∧ x.chars ≤ blockSize - x.offset := by
  unfold Xfer.chars
  split <;> omega

theorem Xfer.chars_pos (hcount : 0 < x.count) (hoff : x.offset < blockSize) : 0 < x.chars := by
  unfold Xfer.chars
  split <;> omega

theorem Xfer.chars_full (hleft : 0 < x.count - x.chars) : x.chars = blockSize - x.offset := by
  unfold Xfer.chars at *
  split at hleft
  · omega
  · rename_i h
    rw [if_neg h]

/-- Where the next byte to move is on the device. -/
def Xfer.place (x : Xfer) : Nat :=
  x.block * blockSize + x.offset

/-- The variables of a call are in range. -/
structure Xfer.Sound (x : Xfer) : Prop where
  offset : x.offset < blockSize
  fits : x.block + x.count < 2 ^ 16

theorem Xfer.Sound.moveOn (hx : x.Sound) (hcount : 0 < x.count) : x.moveOn.Sound where
  offset := by
    change 0 < blockSize
    decide
  fits := by
    have hpos := Xfer.chars_pos hcount hx.offset
    have hfits := hx.fits
    have hwrap : wrap 16 (x.block + 1) = x.block + 1 := wrap_of_lt (by omega)
    change wrap 16 (x.block + 1) + (x.count - x.chars) < 2 ^ 16
    rw [hwrap]
    omega

/-- Where the next round begins, if there is one. -/
theorem Xfer.Sound.place_moveOn
    (hx : x.Sound) (hcount : 0 < x.count) (hleft : 0 < x.count - x.chars) :
    x.moveOn.place = x.place + x.chars := by
  have hfits := hx.fits
  have hoff := hx.offset
  have hwrap : wrap 16 (x.block + 1) = x.block + 1 := wrap_of_lt (by omega)
  have hfull := Xfer.chars_full hleft
  change wrap 16 (x.block + 1) * blockSize + 0 = x.block * blockSize + x.offset + x.chars
  rw [hwrap, hfull, Nat.succ_mul]
  omega

theorem memcpyTofs_eq (hoff : x.offset < blockSize) :
    x.memcpyTofs (flat dev x.block) =
      splice x.user x.buf x.chars fun i => flatten (flat dev) (x.place + i) := by
  funext a
  unfold Xfer.memcpyTofs splice
  split
  · rename_i h
    have hle := x.chars_le.2
    have hin : x.offset + (a - x.buf) < blockSize := by omega
    have hplace : x.place + (a - x.buf) = x.block * blockSize + (x.offset + (a - x.buf)) :=
      Nat.add_assoc _ _ _
    have hfin : Fin.ofNat blockSize (x.offset + (a - x.buf)) = ⟨_, hin⟩ :=
      Fin.ext (Nat.mod_eq_of_lt hin)
    dsimp only
    rw [hplace, flatten_at hin, hfin]
  · rfl

theorem flatten_put (hoff : x.offset < blockSize) :
    flatten (flat.put dev x.block (x.memcpyFromfs (flat dev x.block)) dev) =
      splice (flatten (flat dev)) x.place x.chars fun i => x.user (x.buf + i) := by
  have hle := x.chars_le.2
  unfold Flat.put
  rw [Function.update_self]
  exact flatten_update (by omega)

/-- How the loop ends. -/
def Xfer.final (x : Xfer) : Nat × Nat :=
  (wrap 16 (x.written + x.count), wrap 32 (x.fPos + x.count))

theorem Xfer.final_moveOn : x.moveOn.final = x.final := by
  have hle := x.chars_le.1
  have hsum : x.chars + (x.count - x.chars) = x.count := Nat.add_sub_cancel' hle
  unfold Xfer.final Xfer.moveOn wrap
  dsimp only
  rw [Nat.mod_add_mod, Nat.mod_add_mod, Nat.add_assoc, Nat.add_assoc, hsum]

theorem Xfer.final_of_zero
    (hzero : x.count = 0) (hwritten : x.written < 2 ^ 16) (hpos : x.fPos < 2 ^ 32) :
    x.final = (x.written, x.fPos) := by
  rw [Xfer.final, hzero, Nat.add_zero, Nat.add_zero, wrap_of_lt hwritten, wrap_of_lt hpos]

theorem blkRwLoop_reads (hfuel : 2 ≤ fuel) (hdev : dev ≠ 0) (hgood : good dev) (n : Nat) :
    ∀ s x, Idle good flat s → x.Sound → x.count < n → x.written < 2 ^ 16 → x.fPos < 2 ^ 32 →
      Prog.Runs (blkRwLoop fuel dev .read n x) s fun r s' =>
        r.1 = int16 x.final.1 ∧ r.2.fPos = x.final.2 ∧
          r.2.user = (splice x.user x.buf x.count fun i => flatten (flat dev) (x.place + i)) ∧
            Idle good flat s' := by
  induction n with
  | zero =>
      intro _ x _ _ hlt
      exact absurd hlt (Nat.not_lt_zero _)
  | succ n ih =>
      intro s x hs hx hlt hwritten hpos
      unfold blkRwLoop
      by_cases hcount : 0 < x.count
      · rw [if_pos hcount, Prog.runs_bind]
        refine (blkRwRound_reads hfuel hs hdev hgood).mono ?_
        rintro _ s₁ ⟨rfl, hs₁⟩
        have hchars := Xfer.chars_pos hcount hx.offset
        let y := { x.moveOn with user := x.memcpyTofs (flat dev x.block) }
        have hy : y.Sound := ⟨(hx.moveOn hcount).offset, (hx.moveOn hcount).fits⟩
        have hlt' : y.count < n := by
          change x.count - x.chars < n
          omega
        refine (ih s₁ y hs₁ hy hlt' (wrap_lt 16 _) (wrap_lt 32 _)).mono ?_
        rintro r s₂ ⟨hret, hfpos, huser, hs₂⟩
        have hfinal : y.final = x.final := Xfer.final_moveOn
        refine ⟨hret.trans (by rw [hfinal]), hfpos.trans (by rw [hfinal]), ?_, hs₂⟩
        have hle := x.chars_le.1
        have hsplice := splice_splice (m := x.user) (a := x.buf) (n := x.chars)
          (k := x.count - x.chars) (f := fun i => flatten (flat dev) (x.place + i))
          (g := fun i => flatten (flat dev) (x.moveOn.place + i)) ?_
        · rw [Nat.add_sub_cancel' hle] at hsplice
          rw [huser, ← hsplice, ← memcpyTofs_eq hx.offset]
          rfl
        · intro i hi
          rw [hx.place_moveOn hcount (Nat.zero_lt_of_lt hi), Nat.add_assoc]
      · have hzero : x.count = 0 := Nat.eq_zero_of_not_pos hcount
        rw [if_neg hcount, Prog.runs_pure, Xfer.final_of_zero hzero hwritten hpos, hzero,
          splice_zero]
        have hread : ¬(Rw.read = Rw.write ∧ x.written = 0) := by simp
        simp only [if_neg hread, true_and]
        exact hs

theorem blkRwLoop_writes (hfuel : 2 ≤ fuel) (hdev : dev ≠ 0) (hgood : good dev) (n : Nat) :
    ∀ s flat x, Idle good flat s → x.Sound → x.count < n → x.written < 2 ^ 16 →
      x.fPos < 2 ^ 32 →
      Prog.Runs (blkRwLoop fuel dev .write n x) s fun r s' =>
        r.1 = (if x.final.1 = 0 then -enospc else int16 x.final.1) ∧ r.2.fPos = x.final.2 ∧
          ∃ flat', Idle good flat' s' ∧
            flatten (flat' dev) =
              (splice (flatten (flat dev)) x.place x.count fun i => x.user (x.buf + i)) ∧
            ∀ d, d ≠ dev → flat' d = flat d := by
  induction n with
  | zero =>
      intro _ _ x _ _ hlt
      exact absurd hlt (Nat.not_lt_zero _)
  | succ n ih =>
      intro s flat x hs hx hlt hwritten hpos
      unfold blkRwLoop
      by_cases hcount : 0 < x.count
      · rw [if_pos hcount, Prog.runs_bind]
        refine (blkRwRound_writes hfuel hs hdev hgood hx.offset).mono ?_
        rintro _ s₁ ⟨rfl, hs₁⟩
        have hchars := Xfer.chars_pos hcount hx.offset
        have hlt' : x.moveOn.count < n := by
          change x.count - x.chars < n
          omega
        refine (ih s₁ _ x.moveOn hs₁ (hx.moveOn hcount) hlt' (wrap_lt 16 _)
          (wrap_lt 32 _)).mono ?_
        rintro r s₂ ⟨hret, hfpos, flat', hs₂, hbytes, hothers⟩
        have hfinal : x.moveOn.final = x.final := Xfer.final_moveOn
        refine ⟨hret.trans (by rw [hfinal]), hfpos.trans (by rw [hfinal]), flat', hs₂, ?_, ?_⟩
        · have hle := x.chars_le.1
          have hsplice := splice_splice (m := flatten (flat dev)) (a := x.place)
            (n := x.chars) (k := x.count - x.chars) (f := fun i => x.user (x.buf + i))
            (g := fun i => x.user (x.buf + x.chars + i)) ?_
          · rw [Nat.add_sub_cancel' hle, ← flatten_put hx.offset] at hsplice
            rw [hbytes, ← hsplice]
            rcases Nat.eq_zero_or_pos (x.count - x.chars) with hdone | hleft
            · have hnone : x.moveOn.count = 0 := hdone
              rw [hnone, hdone, splice_zero, splice_zero]
            · rw [hx.place_moveOn hcount hleft]
              rfl
          · intro i _
            rw [Nat.add_assoc]
        · intro d hd
          rw [hothers d hd]
          exact Function.update_of_ne hd _ _
      · have hzero : x.count = 0 := Nat.eq_zero_of_not_pos hcount
        rw [if_neg hcount, Prog.runs_pure, Xfer.final_of_zero hzero hwritten hpos, hzero,
          splice_zero]
        exact ⟨by simp only [true_and], rfl, flat, hs, rfl, fun _ _ => rfl⟩

end Loop

section Calls

variable {good : Nat → Prop} {flat : Flat} {s : Buffers} {fuel dev fPos count : Nat}
  {user : Nat → UInt8}

theorem start_sound (hcount : count ≤ 32767) : (Xfer.start fPos user count).Sound where
  offset := Nat.mod_lt fPos (by decide)
  fits := by
    have hlow := wrap_lt 16 fPos
    change wrap 16 fPos / 1024 + count < 2 ^ 16
    omega

theorem start_place : (Xfer.start fPos user count).place = fPos % 65536 := by
  change fPos % 65536 / 1024 * 1024 + fPos % 1024 = fPos % 65536
  omega

theorem start_final (hcount : count ≤ 32767) (hfit : fPos + count ≤ 65536 * 1024) :
    (Xfer.start fPos user count).final = (count, fPos + count) := by
  have hret : wrap 16 (0 + count) = count := by
    rw [Nat.zero_add]
    exact wrap_of_lt (by omega)
  have hpos : wrap 32 (fPos + count) = fPos + count := wrap_of_lt (by omega)
  exact Prod.ext hret hpos

theorem int16_of_le (hcount : count ≤ 32767) : int16 count = count :=
  Int.bmod_eq_of_le (by omega) (by omega)

theorem blockRead_runs (hfuel : 2 ≤ fuel) (hs : Idle good flat s)
    (hdev : dev ≠ 0) (hgood : good dev)
    (hcount : count ≤ 32767) (hfit : fPos + count ≤ 65536 * 1024) :
    Prog.Runs (blockRead fuel dev fPos user count) s fun r s' =>
      r.1 = count ∧ r.2.fPos = fPos + count ∧
        (∀ i, i < count → r.2.user i = deviceBytes s dev (fPos % 65536 + i)) ∧
          Idle good flat s' := by
  have hpos : fPos < 2 ^ 32 := by omega
  refine (blkRwLoop_reads hfuel hdev hgood (count + 1) s (Xfer.start fPos user count) hs
    (start_sound hcount) (Nat.lt_succ_self count) (Nat.two_pow_pos 16) hpos).mono ?_
  rintro r s' ⟨hret, hfpos, huser, hs'⟩
  rw [start_final hcount hfit] at hret hfpos
  refine ⟨hret.trans (int16_of_le hcount), hfpos, fun i hi => ?_, hs'⟩
  have hbyte := splice_inside (m := user) (a := 0) (n := count)
    (f := fun i => flatten (flat dev) (fPos % 65536 + i)) hi
  rw [Nat.zero_add] at hbyte
  rw [huser, start_place, deviceBytes_eq hs.coherent hdev]
  exact hbyte

theorem blockWrite_runs (hfuel : 2 ≤ fuel) (hs : Idle good flat s)
    (hdev : dev ≠ 0) (hgood : good dev)
    (hcount : count ≤ 32767) (hfit : fPos + count ≤ 65536 * 1024) :
    Prog.Runs (blockWrite fuel dev fPos user count) s fun r s' =>
      r.2.fPos = fPos + count ∧
        deviceBytes s' dev = splice (deviceBytes s dev) (fPos % 65536) count user ∧
        (∀ d, d ≠ 0 → d ≠ dev → deviceBytes s' d = deviceBytes s d) ∧
          ∃ flat', Idle good flat' s' := by
  have hpos : fPos < 2 ^ 32 := by omega
  refine (blkRwLoop_writes hfuel hdev hgood (count + 1) s flat (Xfer.start fPos user count) hs
    (start_sound hcount) (Nat.lt_succ_self count) (Nat.two_pow_pos 16) hpos).mono ?_
  rintro r s' ⟨-, hfpos, flat', hs', hbytes, hothers⟩
  rw [start_final hcount hfit] at hfpos
  refine ⟨hfpos, ?_, fun d hd hne => ?_, flat', hs'⟩
  · have huser : (fun i => (Xfer.start fPos user count).user
        ((Xfer.start fPos user count).buf + i)) = user :=
      funext fun i => congrArg user (Nat.zero_add i)
    rw [deviceBytes_eq hs'.coherent hdev, deviceBytes_eq hs.coherent hdev, hbytes, start_place,
      huser]
    rfl
  · rw [deviceBytes_eq hs'.coherent hd, deviceBytes_eq hs.coherent hd, hothers d hne]

/-- `block_read` returns the count, delivers the bytes of the device from the
position on, and moves the position. -/
def ReadsDevice (fuel : Nat) (s : Buffers) (dev fPos count : Nat) (user : Nat → UInt8) : Prop :=
  ∃ r s', (blockRead fuel dev fPos user count).run s = .ok (r, s') ∧
    r.1 = count ∧ r.2.fPos = fPos + count ∧
      ∀ i, i < count → r.2.user i = deviceBytes s dev (fPos + i)

/-- `block_write` stores the bytes at the position and no others, and moves the
position. -/
def WritesDevice (fuel : Nat) (s : Buffers) (dev fPos count : Nat) (user : Nat → UInt8) : Prop :=
  ∃ r s', (blockWrite fuel dev fPos user count).run s = .ok (r, s') ∧
    r.2.fPos = fPos + count ∧ deviceBytes s' dev = splice (deviceBytes s dev) fPos count user ∧
      ∀ d, d ≠ 0 → d ≠ dev → deviceBytes s' d = deviceBytes s d

/-- **Raw block I/O.**  Within the first 64 KiB of a device a read and a write are
right.  Behind them a read is right exactly if the bytes it delivers, those at the
position modulo 64 KiB, are the same, and a write exactly if it changes nothing and
would have changed nothing. -/
theorem blockIo_iff
    (hfuel : 2 ≤ fuel)
    (hs : Idle good flat s)
    (hdev : dev ≠ 0) (hgood : good dev)
    (hcount : count ≤ 32767) (hfit : fPos + count ≤ 65536 * 1024) :
    (ReadsDevice fuel s dev fPos count user ↔
      fPos < 65536 ∨
        ∀ i, i < count →
          deviceBytes s dev (fPos % 65536 + i) = deviceBytes s dev (fPos + i)) ∧
    (WritesDevice fuel s dev fPos count user ↔
      fPos < 65536 ∨
        ∀ i, i < count →
          deviceBytes s dev (fPos % 65536 + i) = user i ∧
            deviceBytes s dev (fPos + i) = user i) := by
  constructor
  · have hread := @blockRead_runs _ _ _ _ _ _ _ user hfuel hs hdev hgood hcount hfit
    obtain ⟨r, s', hrun, hret, hfpos, huser, -⟩ := hread.run_eq
    constructor
    · rintro ⟨_, _, hagain, -, -, hright⟩
      obtain ⟨rfl, rfl⟩ := Prod.mk.inj (Except.ok.inj (hrun.symm.trans hagain))
      refine Or.inr fun i hi => ?_
      rw [← huser i hi, hright i hi]
    · rintro (hlow | hsame)
      · rw [Nat.mod_eq_of_lt hlow] at huser
        exact ⟨r, s', hrun, hret, hfpos, huser⟩
      · exact ⟨r, s', hrun, hret, hfpos, fun i hi => (huser i hi).trans (hsame i hi)⟩
  · have hwrite := @blockWrite_runs _ _ _ _ _ _ _ user hfuel hs hdev hgood hcount hfit
    obtain ⟨r, s', hrun, hfpos, hbytes, hothers, -⟩ := hwrite.run_eq
    rcases Nat.lt_or_ge fPos 65536 with hlow | hhigh
    · rw [Nat.mod_eq_of_lt hlow] at hbytes
      exact ⟨fun _ => Or.inl hlow, fun _ => ⟨r, s', hrun, hfpos, hbytes, hothers⟩⟩
    · have hapart : fPos % 65536 + count ≤ fPos := by omega
      have hmoved : splice (deviceBytes s dev) (fPos % 65536) count user =
            splice (deviceBytes s dev) fPos count user ↔
          ∀ i, i < count → deviceBytes s dev (fPos % 65536 + i) = user i ∧
            deviceBytes s dev (fPos + i) = user i :=
        splice_moved_iff hapart
      rw [← hmoved, ← hbytes]
      constructor
      · rintro ⟨_, _, hagain, -, hright, -⟩
        obtain ⟨rfl, rfl⟩ := Prod.mk.inj (Except.ok.inj (hrun.symm.trans hagain))
        exact Or.inr hright
      · rintro (hlow | hsame)
        · omega
        · exact ⟨r, s', hrun, hfpos, hsame, hothers⟩

end Calls

section Boot

theorem bufferInit_idle (hw : Hardware) : Idle hw.Good hw.disk (bufferInit hw) where
  quiet := bufferInit_quiet hw
  coherent := bufferInit_coherent hw
  roomy := bufferInit_roomy hw

/-- A disk whose block `k` is filled with the low byte of `k`. -/
def numberedHardware : Hardware :=
  { blankHardware .polled with disk := fun _ block _ => UInt8.ofNat block }

theorem numberedHardware_good : numberedHardware.Good 0x100 :=
  ⟨by decide, by decide, rfl, fun _ => rfl⟩

theorem numberedHardware_bytes (p : Nat) :
    deviceBytes (bufferInit numberedHardware) 0x100 p = UInt8.ofNat (p / 1024) :=
  congrFun (deviceBytes_eq (bufferInit_coherent numberedHardware) (by decide)) p

/-- A hundred bytes across the border of the blocks 1 and 2 are read and written at the
right place. -/
theorem blockIo_iff_low :
    2 ≤ 2 ∧ numberedHardware.Good 0x100 ∧
      ReadsDevice 2 (bufferInit numberedHardware) 0x100 2000 100 (fun _ => 0) ∧
      WritesDevice 2 (bufferInit numberedHardware) 0x100 2000 100 (fun _ => 7) := by
  have hfit : 2000 + 100 ≤ 65536 * 1024 := by norm_num
  have hread := @blockIo_iff _ _ _ 2 0x100 2000 100 (fun _ => 0) (le_refl 2)
    (bufferInit_idle numberedHardware) (by decide) numberedHardware_good (by decide) hfit
  have hwrite := @blockIo_iff _ _ _ 2 0x100 2000 100 (fun _ => 7) (le_refl 2)
    (bufferInit_idle numberedHardware) (by decide) numberedHardware_good (by decide) hfit
  have hlow : 2000 < 65536 := by decide
  exact ⟨le_refl 2, numberedHardware_good, hread.1.mpr (Or.inl hlow),
    hwrite.2.mpr (Or.inl hlow)⟩

/-- The byte at 65536 cannot be read: the first byte of the disk is delivered. -/
theorem readsDevice_high_fails :
    ¬ReadsDevice 2 (bufferInit numberedHardware) 0x100 65536 1 (fun _ => 0) := by
  rintro ⟨r, s', hrun, -, -, hright⟩
  have hread := @blockRead_runs _ _ _ 2 0x100 65536 1 (fun _ => 0) (le_refl 2)
    (bufferInit_idle numberedHardware) (by decide) numberedHardware_good (by decide)
    (by norm_num)
  obtain ⟨_, _, hagain, -, -, huser, -⟩ := hread.run_eq
  obtain ⟨rfl, rfl⟩ := Prod.mk.inj (Except.ok.inj (hrun.symm.trans hagain))
  have hbyte := huser 0 Nat.one_pos
  rw [hright 0 Nat.one_pos, numberedHardware_bytes, numberedHardware_bytes] at hbyte
  exact absurd hbyte (by decide)

end Boot

end BlockDev
end Elks
