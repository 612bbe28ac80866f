import Elks.Block.Partial
import Elks.Minix.ReadFail
import Elks.Pipe.Whole

/-!
# What `sys_read` and `sys_write` report (fs/read_write.c)

The value of `sys_read` and `sys_write` is that of the method of the file, as an `int` of
sixteen bits.  A report is clear if the caller can tell by its sign whether it is a
count or an error.

The methods of regular files, block devices and pipes reach counts from 32768 on in
different ways: files and devices move the bytes and return a negative number, and
pipes take the count for a negative one.  Besides, `blk_rw` forgets the bytes it has moved
when a block cannot be written.

* `Transfer.clear_iff`: when the report of a call is clear.
-/

namespace Elks
namespace Files

open Lib

section Code

/-- What `sys_read` and `sys_write` return, where `fd_check` returned `check` and the method of the
file returns `method`, if there is one. -/
def sysTransfer (check : Int) (count : Nat) (method : Option Int) : Int :=
  if check = 0 ∧ count ≠ 0 then method.getD (-22) else check

/-- `sys_read`. -/
def sysRead (check : Int) (count : Nat) (read : Option Int) : Int :=
  sysTransfer check count read

/-- `sys_write`. -/
def sysWrite (check : Int) (count : Nat) (write : Option Int) : Int :=
  sysTransfer check count write

/-- `S_ISUID | S_ISGID`. -/
def setIdBits : Nat :=
  0o6000

/-- What `sys_write` makes of `i_mode` before it calls the method. -/
def dropSetId (suser : Bool) (mode : Nat) : Nat :=
  if suser = false ∧ mode &&& setIdBits ≠ 0 then mode &&& (0xffff - setIdBits) else mode

/-- The file system behind that. -/
def dropSetIdOf (suser : Bool) (s : Minix.Fs) (ino : Nat) : Minix.Fs :=
  s.modInode ino fun i => { i with iMode := dropSetId suser i.iMode }

end Code

section Property

/-- What a caller is told, and what has happened: the value, the bytes that were moved,
whether an error occurred, whether the file was at its end, and for a file with a
position where the transfer began and where it left it. -/
structure Report where
  ret : Int
  moved : Nat
  error : Prop
  atEnd : Prop
  fPos : Option (Nat × Nat)

/-- The value is negative exactly if nothing was moved for an error, and else it is the number of
bytes, by which the position advanced and which is positive unless the file was at
its end. -/
structure Report.Clear (t : Report) : Prop where
  negative : t.ret < 0 ↔ t.moved = 0 ∧ t.error
  count : 0 ≤ t.ret → t.ret = t.moved
  some : 0 ≤ t.ret → 1 ≤ t.moved ∨ t.atEnd
  advance : ∀ start stop, t.fPos = .some (start, stop) → wrap 32 stop = wrap 32 (start + t.moved)

end Property

section Reports

/-- `sys_read` of a regular file. -/
def minixReadReport (io : Minix.Faults) (s : Minix.Fs) (ino fPos count : Nat) : Report :=
  let read := Minix.faultyRead io s ino fPos count
  { ret := sysRead 0 count (some read.ret)
    moved := read.buf.length
    error := ∃ r, io.lost s ino r (fPos / 1024 + r) = true ∧
      r * 1024 - fPos % 1024 < s.wanted ino fPos count
    atEnd := (s.inode ino).iSize ≤ fPos
    fPos := some (fPos, read.fPos) }

/-- `sys_write` to a regular file. -/
def minixWriteReport (io : Minix.Faults) (s : Minix.Fs) (bCount : Nat → Nat) (ino : Nat)
    (file : Minix.WriteFile) (suser : Bool) (buf : List UInt8) : Report :=
  let s := dropSetIdOf suser s ino
  let write := Minix.faultyWrite io s bCount ino file buf
  { ret := sysWrite 0 buf.length (some write.ret)
    moved := (Minix.faultyLoop io ino buf.length 0 s bCount (file.start s ino) buf).written
    error := ¬Minix.Served io ino 0 s (file.start s ino) buf buf.length
    atEnd := False
    fPos := some (file.start s ino, write.fPos) }

/-- `sys_read` or `sys_write` of a block device. -/
def blockReport (wr : Buffer.Rw) (io : Nat → BlockDev.Round) (fPos : Nat) (user : Nat → UInt8)
    (count : Nat) : Report :=
  let done := BlockDev.blkLoop wr (count + 1) io (BlockDev.Xfer.start fPos user count)
  { ret := sysTransfer 0 count (some done.1)
    moved := count - done.2.count
    error := BlockDev.WriteFails wr io (fPos % 1024) count ∨
      ∃ r, (io r).found = none ∧ r * 1024 - fPos % 1024 < count
    atEnd := False
    fPos := some (fPos, done.2.fPos) }

/-- `sys_read` of a pipe that returned `v` after `n` bytes, and whose last turn found the
pipe `p`. -/
def pipeReadReport (p : Pipe.PipeInodeInfo) (count : Nat) (v : Int) (n : Nat) : Report where
  ret := sysRead 0 count (some v)
  moved := n
  error := p.len = 0 ∧ p.writers ≠ 0
  atEnd := p.len = 0 ∧ p.writers = 0
  fPos := none

/-- `sys_write` to a pipe that returned `v` after `n` bytes of the data. -/
def pipeWriteReport (data : List UInt8) (v : Int) (n : Nat) : Report where
  ret := sysWrite 0 data.length (some v)
  moved := n
  error := n < data.length
  atEnd := False
  fPos := none

/-- A call that has passed `fd_check`, with what it meets. -/
inductive Transfer
  | minixRead (io : Minix.Faults) (s : Minix.Fs) (ino fPos count : Nat)
  | minixWrite (io : Minix.Faults) (s : Minix.Fs) (bCount : Nat → Nat) (ino : Nat)
      (file : Minix.WriteFile) (suser : Bool) (buf : List UInt8)
  | blockRead (io : Nat → BlockDev.Round) (fPos : Nat) (user : Nat → UInt8) (count : Nat)
  | blockWrite (io : Nat → BlockDev.Round) (fPos : Nat) (user : Nat → UInt8) (count : Nat)
  | pipeRead (first last : Pipe.Visit) (nonblock : Bool) (count : Nat)
  | pipeWrite (first last : Pipe.Visit) (nonblock : Bool) (data : List UInt8)

/-- The count of the call. -/
def Transfer.count : Transfer → Nat
  | minixRead _ _ _ _ count => count
  | minixWrite _ _ _ _ _ _ buf => buf.length
  | blockRead _ _ _ count => count
  | blockWrite _ _ _ count => count
  | pipeRead _ _ _ count => count
  | pipeWrite _ _ _ data => data.length

/-- The file is one of those described: a regular file with a size of 32 bits, a block device, or a
pipe between two turns. -/
def Transfer.Proper : Transfer → Prop
  | minixRead _ s ino _ _ =>
      Minix.hasFormat Minix.sIfreg (s.inode ino).iMode = true ∧ (s.inode ino).iSize < 2 ^ 32
  | minixWrite _ s _ ino _ _ _ => Minix.hasFormat Minix.sIfreg (s.inode ino).iMode = true
  | blockRead _ _ _ _ => True
  | blockWrite _ _ _ _ => True
  | pipeRead first _ _ _ => first.AtRest
  | pipeWrite first _ _ _ => first.AtRest

/-- The calls and what they report.  A call at a pipe may sleep and go on; it begins at
`first` and returns at `last`. -/
inductive Transfer.Reports : Transfer → Report → Prop
  | minixRead (io : Minix.Faults) (s : Minix.Fs) (ino fPos count : Nat) :
      Reports (.minixRead io s ino fPos count) (minixReadReport io s ino fPos count)
  | minixWrite (io : Minix.Faults) (s : Minix.Fs) (bCount : Nat → Nat) (ino : Nat)
      (file : Minix.WriteFile) (suser : Bool) (buf : List UInt8) :
      Reports (.minixWrite io s bCount ino file suser buf)
        (minixWriteReport io s bCount ino file suser buf)
  | blockRead (io : Nat → BlockDev.Round) (fPos : Nat) (user : Nat → UInt8) (count : Nat) :
      Reports (.blockRead io fPos user count) (blockReport .read io fPos user count)
  | blockWrite (io : Nat → BlockDev.Round) (fPos : Nat) (user : Nat → UInt8) (count : Nat) :
      Reports (.blockWrite io fPos user count) (blockReport .write io fPos user count)
  | pipeRead {first last : Pipe.Visit} {nonblock : Bool} {count : Nat} {turn : Pipe.Turn}
      {v : Int} {n : Nat} :
      first.pipeRead nonblock count = .ok turn → Pipe.Ends first turn last v n →
      Reports (.pipeRead first last nonblock count) (pipeReadReport last.pipe count v n)
  | pipeWrite {first last : Pipe.Visit} {nonblock : Bool} {data : List UInt8} {turn : Pipe.Turn}
      {v : Int} {n : Nat} :
      first.pipeWrite nonblock data = .ok turn → Pipe.Ends first turn last v n →
      Reports (.pipeWrite first last nonblock data) (pipeWriteReport data v n)

/-- What keeps a report clear.  Of a file or a device fewer than 32768 bytes can be moved: the file
ends before, or a block cannot be had; and every block that a write of a device
reaches is written.  At a pipe the count is below 32768, or there are no bytes to read, or no
readers to write to.  A file whose size is no `loff_t` reads as empty. -/
def Transfer.Fits : Transfer → Prop
  | minixRead io s ino fPos count =>
      (s.inode ino).iSize ≤ fPos ∨
        (s.inode ino).iSize < 2 ^ 31 ∧ ¬Minix.Delivered io s ino fPos count 32768
  | minixWrite io s _ ino file suser buf =>
      ¬Minix.Served io ino 0 (dropSetIdOf suser s ino) (file.start (dropSetIdOf suser s ino) ino)
        buf 32768
  | blockRead io fPos _ count => ¬BlockDev.Found io (fPos % 1024) count 32768
  | blockWrite io fPos _ count =>
      ¬BlockDev.WriteFails .write io (fPos % 1024) count ∧
        ¬BlockDev.Found io (fPos % 1024) count 32768
  | pipeRead _ last _ count => count < 32768 ∨ last.pipe.len = 0
  | pipeWrite first _ _ data => data.length < 32768 ∨ first.pipe.readers = 0

end Reports

section Clear

variable {t : Report}

theorem sysTransfer_passed {count : Nat} (hcount : count ≠ 0) (v : Int) :
    sysTransfer 0 count (some v) = v :=
  if_pos ⟨rfl, hcount⟩

theorem Report.clear_iff_small (hnone : t.moved = 0 → t.ret < 0 ∧ t.error)
    (hsome : t.moved ≠ 0 → t.ret = Minix.int16 t.moved) (hlt : t.moved < 65536)
    (hadvance : ∀ start stop, t.fPos = .some (start, stop) →
      wrap 32 stop = wrap 32 (start + t.moved)) :
    t.Clear ↔ t.moved < 32768 := by
  constructor
  · intro h
    by_contra hlarge
    have hneg : t.ret < 0 := by
      rw [hsome (by omega)]
      exact Minix.int16_neg (by omega) hlt
    have hzero := (h.negative.mp hneg).1
    omega
  · intro hsmall
    have hvalue : t.moved ≠ 0 → t.ret = t.moved := by
      intro hmoved
      rw [hsome hmoved]
      exact Minix.int16_of_lt hsmall
    have hmoved : 0 ≤ t.ret → t.moved ≠ 0 := by
      intro hret hzero
      have hneg := (hnone hzero).1
      omega
    refine ⟨⟨fun hneg => ?_, fun h => (hnone h.1).1⟩, fun hret => hvalue (hmoved hret),
      fun hret => Or.inl (Nat.pos_of_ne_zero (hmoved hret)), hadvance⟩
    have hzero : t.moved = 0 := by
      by_contra hmoved
      have hpos := hvalue hmoved
      omega
    exact ⟨hzero, (hnone hzero).2⟩

theorem Report.clear_iff_atEnd
    (hret : t.ret = 0) (hmoved : t.moved = 0) (herror : t.atEnd → ¬t.error)
    (hadvance : ∀ start stop, t.fPos = .some (start, stop) → stop = start) : t.Clear ↔ t.atEnd := by
  constructor
  · intro h
    refine (h.some hret.ge).resolve_left ?_
    rw [hmoved]
    decide
  · intro hend
    refine ⟨⟨fun hneg => ?_, fun h => absurd h.2 (herror hend)⟩, fun _ => ?_, fun _ => Or.inr hend,
      fun start stop hpos => ?_⟩
    · rw [hret] at hneg
      cases hneg
    · rw [hret, hmoved]
      rfl
    · rw [hadvance start stop hpos, hmoved, Nat.add_zero]

end Clear

section Minix

open Minix

variable {io : Minix.Faults} {s : Fs} {ino fPos count : Nat} {bCount : Nat → Nat}
  {file : WriteFile} {suser : Bool} {buf : List UInt8}

theorem minixReadReport_empty (hcount : 0 < count)
    (hread : faultyRead io s ino fPos count = { ret := 0, buf := [], fPos := fPos }) :
    (minixReadReport io s ino fPos count).Clear ↔ (s.inode ino).iSize ≤ fPos := by
  refine Report.clear_iff_atEnd ?_ ?_ ?_ ?_
  · unfold minixReadReport sysRead
    rw [hread]
    exact sysTransfer_passed hcount.ne' 0
  · unfold minixReadReport
    rw [hread]
    rfl
  · rintro hend ⟨r, -, hr⟩
    have hle : (s.inode ino).iSize ≤ fPos := hend
    unfold Fs.wanted at hr
    omega
  · intro start stop hpos
    have hpair : (fPos, (faultyRead io s ino fPos count).fPos) = (start, stop) :=
      Option.some.inj hpos
    rw [hread] at hpair
    obtain ⟨rfl, rfl⟩ := Prod.mk.inj hpair
    rfl

theorem minixReadReport_within (hreg : hasFormat sIfreg (s.inode ino).iMode = true)
    (hsize : (s.inode ino).iSize < 2 ^ 31) (hcount : 0 < count) (hlt : count < 65536)
    (hwanted : s.wanted ino fPos count ≠ 0) :
    (minixReadReport io s ino fPos count).Clear ↔ ¬Delivered io s ino fPos count 32768 := by
  have hread := @faultyRead_eq io s ino fPos count hreg hsize hlt
  dsimp only at hread
  rw [if_neg hwanted] at hread
  have hdelivered := copied_iff io s ino fPos count
  have hwants : s.wanted ino fPos count ≤ count := Nat.min_le_left _ _
  generalize io.copied s ino fPos (s.wanted ino fPos count) = copied at hread hdelivered
  have hlen := ((hdelivered copied.length).mp (le_refl _)).1
  have hmoved : (minixReadReport io s ino fPos count).moved = copied.length := by
    unfold minixReadReport
    rw [hread]
  have hret : (minixReadReport io s ino fPos count).ret =
      if copied.length = 0 then -writeErrno .eio else int16 copied.length := by
    unfold minixReadReport sysRead
    rw [hread]
    exact sysTransfer_passed hcount.ne' _
  rw [Report.clear_iff_small, hmoved, ← hdelivered]
  · exact Nat.not_le.symm
  · intro hnone
    rw [hmoved] at hnone
    refine ⟨?_, ?_⟩
    · rw [hret, if_pos hnone]
      decide
    · -- the first byte is missing, so the block it lies in is lost
      have hfirst : ¬Delivered io s ino fPos count 1 := by
        rw [← hdelivered]
        omega
      by_contra hfine
      refine hfirst ⟨Nat.pos_of_ne_zero hwanted, fun r hr => ?_⟩
      by_contra hbefore
      exact hfine ⟨r, hr, by omega⟩
  · intro hsome
    rw [hmoved] at hsome ⊢
    rw [hret, if_neg hsome]
  · rw [hmoved]
    omega
  · intro start stop hpos
    have hpair : (fPos, (faultyRead io s ino fPos count).fPos) = (start, stop) :=
      Option.some.inj hpos
    rw [hread] at hpair
    obtain ⟨rfl, rfl⟩ := Prod.mk.inj hpair
    rw [hmoved]

theorem minixReadReport_clear_iff (hreg : hasFormat sIfreg (s.inode ino).iMode = true)
    (hword : (s.inode ino).iSize < 2 ^ 32) (hcount : 0 < count) (hlt : count < 65536) :
    (minixReadReport io s ino fPos count).Clear ↔
      (Transfer.minixRead io s ino fPos count).Fits := by
  have hfits : (Transfer.minixRead io s ino fPos count).Fits ↔ (s.inode ino).iSize ≤ fPos ∨
      (s.inode ino).iSize < 2 ^ 31 ∧ ¬Delivered io s ino fPos count 32768 :=
    Iff.rfl
  rw [hfits]
  by_cases hsize : (s.inode ino).iSize < 2 ^ 31
  · by_cases hwanted : s.wanted ino fPos count = 0
    · have hread := @faultyRead_eq io s ino fPos count hreg hsize hlt
      dsimp only at hread
      rw [if_pos hwanted] at hread
      have hend : (s.inode ino).iSize ≤ fPos := by
        unfold Fs.wanted at hwanted
        omega
      rw [minixReadReport_empty hcount hread]
      exact iff_of_true hend (Or.inl hend)
    · have hopen : ¬(s.inode ino).iSize ≤ fPos := by
        unfold Fs.wanted at hwanted
        omega
      rw [minixReadReport_within hreg hsize hcount hlt hwanted]
      exact ⟨fun h => Or.inr ⟨hsize, h⟩, fun h => (h.resolve_left hopen).2⟩
  · have hread := @faultyRead_huge io s ino fPos count (by omega) hword
    rw [minixReadReport_empty hcount hread]
    exact ⟨Or.inl, fun h => h.resolve_right fun hsmall => hsize hsmall.1⟩

theorem hasFormat_dropSetId (mode : Nat) :
    hasFormat sIfreg (dropSetId suser mode) = hasFormat sIfreg mode := by
  unfold dropSetId
  split
  · have hmask : (0xffff - setIdBits) &&& sIfmt = sIfmt := by decide
    unfold hasFormat
    rw [Nat.and_assoc, hmask]
  · rfl

theorem minixWriteReport_clear_iff (hreg : hasFormat sIfreg (s.inode ino).iMode = true)
    (hcount : 0 < buf.length) (hlt : buf.length < 65536) :
    (minixWriteReport io s bCount ino file suser buf).Clear ↔
      (Transfer.minixWrite io s bCount ino file suser buf).Fits := by
  have hfits : (Transfer.minixWrite io s bCount ino file suser buf).Fits ↔
      ¬Served io ino 0 (dropSetIdOf suser s ino) (file.start (dropSetIdOf suser s ino) ino)
        buf 32768 :=
    Iff.rfl
  have hreg' : hasFormat sIfreg ((dropSetIdOf suser s ino).inode ino).iMode = true := by
    unfold dropSetIdOf
    rw [inode_modInode_self]
    exact (hasFormat_dropSetId _).trans hreg
  rw [hfits]
  unfold minixWriteReport
  dsimp only
  generalize dropSetIdOf suser s ino = s' at hreg' ⊢
  have hserved := fun n => @served_iff io s' ino buf.length buf (le_refl _) 0 bCount
    (file.start s' ino) n
  obtain ⟨hle, hwhy⟩ := @faultyLoop_count io s' ino buf.length buf (le_refl _) 0 bCount
    (file.start s' ino)
  have hwrite : faultyWrite io s' bCount ino file buf = _ := if_neg (by simp [hreg'])
  rw [hwrite]
  simp only [hserved]
  generalize faultyLoop io ino buf.length 0 s' bCount (file.start s' ino) buf = loop at hle hwhy ⊢
  have hret := fun v => sysTransfer_passed hcount.ne' v
  rw [Report.clear_iff_small]
  · exact Nat.not_le.symm
  · intro hnone
    have hmoved : loop.written = 0 := hnone
    refine ⟨?_, Nat.not_le.mpr (by omega)⟩
    dsimp only
    rw [sysWrite, hret, if_pos hmoved]
    rcases hwhy (by omega) with he | he <;> rw [he] <;> decide
  · intro hsome
    dsimp only
    rw [sysWrite, hret]
    exact if_neg hsome
  · exact lt_of_le_of_lt hle hlt
  · intro start stop hpos
    obtain ⟨rfl, rfl⟩ := Prod.mk.inj (Option.some.inj hpos)
    rfl

end Minix

section Devices

open BlockDev

variable {wr : Buffer.Rw} {io : Nat → Round} {fPos count : Nat} {user : Nat → UInt8}

theorem blockReport_clear_iff (hcount : 0 < count) (hlt : count < 65536) :
    (blockReport wr io fPos user count).Clear ↔
      ¬WriteFails wr io (fPos % 1024) count ∧ ¬Found io (fPos % 1024) count 32768 := by
  have hstart : (Xfer.start fPos user count).written = 0 := rfl
  have hspec := @blkLoop_spec wr (count + 1) io (Xfer.start fPos user count)
    (Nat.le_succ count) (Nat.mod_lt fPos (by decide)) (Nat.add_pos_right 0 hcount)
    (by rw [hstart, Nat.zero_add]; exact hlt)
  have hvalue := sysTransfer_passed hcount.ne'
  unfold blockReport
  dsimp only
  generalize blkLoop wr (count + 1) io (Xfer.start fPos user count) = y at hspec ⊢
  obtain ⟨hle, hwritten, hfPos, hfailed, hreturned⟩ := hspec
  change y.2.count ≤ count at hle
  change y.2.written = 0 + (count - y.2.count) at hwritten
  change wrap 32 y.2.fPos = wrap 32 (fPos + (count - y.2.count)) at hfPos
  change WriteFails wr io (fPos % 1024) count → y.1 = -eio ∧ 0 < count - y.2.count at hfailed
  change ¬WriteFails wr io (fPos % 1024) count → _ ∧
    ∀ n, n ≤ count - y.2.count ↔ Found io (fPos % 1024) count n at hreturned
  rw [Nat.zero_add] at hwritten
  by_cases hfails : WriteFails wr io (fPos % 1024) count
  · -- the bytes of the block that cannot be written have been moved
    obtain ⟨hret, hmoved⟩ := hfailed hfails
    refine iff_of_false (fun h => ?_) fun h => h.1 hfails
    have hneg : sysTransfer 0 count (some y.1) < 0 := by
      rw [hvalue, hret]
      decide
    have hnone : count - y.2.count = 0 := (h.negative.mp hneg).1
    omega
  · obtain ⟨hret, hfound⟩ := hreturned hfails
    rw [Report.clear_iff_small, ← hfound]
    · dsimp only
      exact ⟨fun hsmall => ⟨hfails, by omega⟩, fun h => by omega⟩
    · intro hnone
      have hmoved : count - y.2.count = 0 := hnone
      refine ⟨?_, Or.inr ?_⟩
      · dsimp only
        rw [hvalue, hret, if_neg (by omega)]
        decide
      · -- the first byte is missing, so its block has no buffer
        have hfirst : ¬Found io (fPos % 1024) count 1 := by
          rw [← hfound]
          omega
        by_contra hfine
        refine hfirst ⟨hcount, fun r hr => ?_⟩
        by_contra hbefore
        change ¬1 ≤ r * 1024 - fPos % 1024 at hbefore
        exact hfine ⟨r, hr, by omega⟩
    · intro hsome
      have hmoved : count - y.2.count ≠ 0 := hsome
      dsimp only
      rw [hvalue, hret, if_pos (by omega), hwritten]
      rfl
    · dsimp only
      omega
    · intro start stop hpos
      obtain ⟨rfl, rfl⟩ := Prod.mk.inj (Option.some.inj hpos)
      exact hfPos

end Devices

section Pipes

open Pipe

variable {first last : Visit} {nonblock : Bool} {count n : Nat} {data : List UInt8}
  {turn : Turn} {v : Int}

theorem pipeReadReport_clear_iff (hfirst : first.AtRest) (hcount : 0 < count) (hlt : count < 65536)
    (hrun : first.pipeRead nonblock count = .ok turn) (hends : Ends first turn last v n) :
    (pipeReadReport last.pipe count v n).Clear ↔ count < 32768 ∨ last.pipe.len = 0 := by
  obtain ⟨turn', hrun', hturn⟩ := @pipeRead_ends first.pipe (intCount count) nonblock
    first.signal hfirst.ok hfirst.lock
  obtain rfl := Except.ok.inj (hrun'.symm.trans hrun)
  have hend := hends.reads hturn
  have hret : (pipeReadReport last.pipe count v n).ret = v := sysTransfer_passed hcount.ne' v
  have hpos : ∀ {start stop : Nat}, (pipeReadReport last.pipe count v n).fPos =
      some (start, stop) → wrap 32 stop = wrap 32 (start + n) := by
    intro start stop hnone
    cases hnone
  cases hend with
  | atEnd hlen hwriters =>
      refine iff_of_true ⟨⟨fun hneg => ?_, fun h => absurd hwriters h.2.2⟩, fun _ => hret,
        fun _ => Or.inr ⟨hlen, hwriters⟩, fun _ _ => hpos⟩ (Or.inr hlen)
      rw [hret] at hneg
      cases hneg
  | refused hlen hwriters hneg =>
      refine iff_of_true ⟨⟨fun _ => ⟨rfl, hlen, hwriters⟩, fun _ => by rw [hret]; exact hneg⟩,
        fun h => ?_, fun h => ?_, fun _ _ => hpos⟩ (Or.inr hlen)
      · rw [hret] at h
        omega
      · rw [hret] at h
        omega
  | bytes hlen hint hn =>
      refine iff_of_true ⟨⟨fun hneg => ?_, fun h => ?_⟩, fun _ => hret, fun _ => Or.inl hn,
        fun _ _ => hpos⟩ (Or.inl ?_)
      · rw [hret] at hneg
        omega
      · exact absurd h.2.1 hlen
      · by_contra hlarge
        rw [intCount_large (by omega) hlt] at hint
        exact absurd hint (Nat.lt_irrefl 0)
  | blind hlen hint =>
      have hlarge : ¬count < 32768 := by
        intro hsmall
        rw [intCount_small hsmall] at hint
        omega
      refine iff_of_false (fun h => ?_) (not_or.mpr ⟨hlarge, hlen⟩)
      by_cases hwriters : last.pipe.writers ≠ 0
      · have hneg : (pipeReadReport last.pipe count
            (if last.pipe.writers ≠ 0 then -eagain else 0) 0).ret < 0 := by
          rw [hret, if_pos hwriters]
          decide
        exact hlen (h.negative.mp hneg).2.1
      · have hzero : 0 ≤ (pipeReadReport last.pipe count
            (if last.pipe.writers ≠ 0 then -eagain else 0) 0).ret := by
          rw [hret, if_neg hwriters]
        rcases h.some hzero with hsome | hend
        · exact absurd hsome (Nat.not_succ_le_zero 0)
        · exact hlen hend.1

theorem pipeWriteReport_clear_iff (hfirst : first.AtRest) (hcount : 0 < data.length)
    (hlt : data.length < 65536) (hrun : first.pipeWrite nonblock data = .ok turn)
    (hends : Ends first turn last v n) :
    (pipeWriteReport data v n).Clear ↔ data.length < 32768 ∨ first.pipe.readers = 0 := by
  have hret : (pipeWriteReport data v n).ret = v := sysTransfer_passed hcount.ne' v
  have hpos : ∀ {start stop : Nat}, (pipeWriteReport data v n).fPos = some (start, stop) →
      wrap 32 stop = wrap 32 (start + n) := by
    intro start stop hnone
    cases hnone
  unfold Visit.pipeWrite at hrun
  by_cases hsmall : data.length < 32768
  · rw [intCount_small hsmall, List.take_length] at hrun
    obtain ⟨turn', hrun', hturn⟩ := @pipeWrite_ends first.pipe nonblock first.signal data
      hfirst.ok hfirst.lock (List.ne_nil_of_length_pos hcount)
    obtain rfl := Except.ok.inj (hrun'.symm.trans hrun)
    obtain ⟨hv, hle, hnonneg, hneg⟩ := hends.writes hturn
    rw [List.length_nil, Nat.zero_add] at hneg
    have hmoved : 0 ≤ v → v = n := fun h => by
      simpa using hnonneg h
    refine iff_of_true ⟨⟨fun h => ?_, fun h => ?_⟩, fun h => ?_, fun h => ?_, fun _ _ => hpos⟩
      (Or.inl hsmall)
    · rw [hret] at h
      have hzero := hneg h
      exact ⟨hzero, lt_of_eq_of_lt hzero hcount⟩
    · have hzero : n = 0 := h.1
      rw [hret]
      by_contra hge
      have hvalue := hmoved (by omega)
      omega
    · rw [hret] at h ⊢
      exact hmoved h
    · rw [hret] at h
      have hvalue := hmoved h
      refine Or.inl ?_
      change 1 ≤ n
      omega
  · rw [intCount_large (by omega) hlt, List.take_zero] at hrun
    obtain ⟨rfl, rfl⟩ := hends.writesNothing hrun
    by_cases hreaders : first.pipe.readers = 0
    · refine iff_of_true ?_ (Or.inr hreaders)
      rw [if_pos hreaders] at hret ⊢
      refine ⟨⟨fun _ => ⟨rfl, hcount⟩, fun _ => ?_⟩, fun h => ?_, fun h => ?_, fun _ _ hp => ?_⟩
      · rw [hret]
        decide
      · rw [hret] at h
        exact absurd h (by decide)
      · rw [hret] at h
        exact absurd h (by decide)
      · cases hp
    · refine iff_of_false (fun h => ?_) (not_or.mpr ⟨hsmall, hreaders⟩)
      rw [if_neg hreaders] at hret h
      rcases h.some hret.ge with hsome | hend
      · exact absurd hsome (Nat.not_succ_le_zero 0)
      · exact hend

end Pipes

section Calls

open Pipe BlockDev

/-- **Byte counts.**  The report of a call of `sys_read` or `sys_write` that has passed `fd_check` is
clear exactly if the call fits. -/
theorem Transfer.clear_iff
    (t : Transfer) (r : Report)
    (hproper : t.Proper)
    (hcount : 1 ≤ t.count ∧ t.count ≤ 65535)
    (hr : t.Reports r) :
    r.Clear ↔ t.Fits := by
  obtain ⟨hpos, hle⟩ := hcount
  have hlt := Nat.lt_succ_of_le hle
  cases hr with
  | minixRead io s ino fPos count =>
      exact minixReadReport_clear_iff hproper.1 hproper.2 hpos hlt
  | minixWrite io s bCount ino file suser buf =>
      exact minixWriteReport_clear_iff hproper hpos hlt
  | blockRead io fPos user count =>
      exact (blockReport_clear_iff hpos hlt).trans (and_iff_right fun h => nomatch h.1)
  | blockWrite io fPos user count =>
      exact blockReport_clear_iff hpos hlt
  | pipeRead hrun hends =>
      exact pipeReadReport_clear_iff hproper hpos hlt hrun hends
  | pipeWrite hrun hends =>
      exact pipeWriteReport_clear_iff hproper hpos hlt hrun hends

/-- A pipe that holds one byte, with its writer. -/
def oneByte : Visit where
  pipe := { PipeInodeInfo.fresh (fun _ => 7) with len := 1 }
  signal := false

theorem oneByte_atRest : oneByte.AtRest :=
  ⟨⟨by decide, by decide⟩, rfl⟩

/-- A device whose blocks are all found and written. -/
def soundDevice : Nat → Round :=
  fun _ => ⟨some fun _ => 0, true⟩

/-- A device whose second block cannot be written. -/
def worn : Nat → Round :=
  fun r => ⟨some fun _ => 0, decide (r ≠ 1)⟩

/-- A read of a hundred bytes of a device is reported clearly, and one of a byte that lies in a
pipe. -/
theorem Transfer.clear_iff_hundred :
    (blockReport .read soundDevice 2000 (fun _ => 0) 100).Clear ∧
      (pipeReadReport oneByte.pipe 1 1 1).Clear := by
  have hread : (Transfer.pipeRead oneByte oneByte true 1).Reports
      (pipeReadReport oneByte.pipe 1 1 1) :=
    Transfer.Reports.pipeRead rfl (Ends.returns rfl)
  exact ⟨(Transfer.clear_iff (.blockRead soundDevice 2000 (fun _ => 0) 100) _ trivial (by decide)
      (Transfer.Reports.blockRead _ _ _ _)).mpr fun h => absurd h.1 (by decide),
    (Transfer.clear_iff (.pipeRead oneByte oneByte true 1) _ oneByte_atRest (by decide) hread).mpr (Or.inl (by decide))⟩

/-- A read of 32768 bytes of a device that delivers them all, a write of two blocks of which the
second cannot be written, and a read of 32768 bytes from a pipe that holds one. -/
theorem transfers_unclear :
    ¬(blockReport .read soundDevice 0 (fun _ => 0) 32768).Clear ∧
      ¬(blockReport .write worn 0 (fun _ => 0) 2048).Clear ∧
      (Transfer.pipeRead oneByte oneByte true 32768).Reports
        (pipeReadReport oneByte.pipe 32768 (-11) 0) ∧
      ¬(pipeReadReport oneByte.pipe 32768 (-11) 0).Clear := by
  have hread : (Transfer.pipeRead oneByte oneByte true 32768).Reports
      (pipeReadReport oneByte.pipe 32768 (-11) 0) :=
    Transfer.Reports.pipeRead rfl (Ends.returns rfl)
  refine ⟨fun h => ?_, fun h => ?_, hread, fun h => ?_⟩
  · refine ((blockReport_clear_iff (by decide) (by decide)).mp h).2 ⟨le_refl _, fun r hr => ?_⟩
    cases hr
  · refine ((blockReport_clear_iff (by decide) (by decide)).mp h).1
      ⟨rfl, 1, by decide, fun k _ hk => ?_, rfl⟩
    cases hk
  · exact absurd (h.negative.mp (by decide)).2.1 (by decide)

end Calls

end Files
end Elks
