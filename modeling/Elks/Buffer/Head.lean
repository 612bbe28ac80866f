import Elks.Lib.Coop

/-!
# Buffer heads and the two-level buffer store (fs/buffer.c)

With CONFIG_FS_EXTERNAL_BUFFER the sixty-four buffers live in a segment of
their own, the L2 area `_buf_ds`, sixty-four kilobytes long.  A buffer can be
read and written only while it is in one of the eight blocks `bufmem[]` of the
kernel data segment, the L1 area; `map_buffer` brings it there, sending another
buffer back to L2 if it has to.

This module has the state of the buffer cache and the functions that move
buffers between the two levels.  A pointer `b_data` is the index of its L1
block; `NULL` is offset zero of the kernel data segment, whose bytes are
`nullPage`.  The chain `bh_chain` is never relinked after `buffer_init`, so it
is the order of the table; the doubly linked LRU list is the list of its
members.  Loops that may go round again take a bound on the number of rounds.
-/

namespace Elks
namespace Buffer

open Lib

/-- `NR_BUFFERS`, which is `NR_EXT_BUFFERS`. -/
def nrBuffers : Nat := 64

/-- `NR_MAPBUFS`. -/
def nrMapbufs : Nat := 8

/-- `BLOCK_SIZE`. -/
def blockSize : Nat := 1024

/-- `NR_REQUEST` of ll_rw_blk.c. -/
def nrRequest : Nat := 20

/-- `MAX_BLKDEV`. -/
def maxBlkdev : Nat := 8

instance : NeZero nrBuffers := ⟨by decide⟩

instance : NeZero nrMapbufs := ⟨by decide⟩

instance : NeZero blockSize := ⟨by decide⟩

/-- A `struct buffer_head *` into `buffers[]`. -/
abbrev Bh := Fin nrBuffers

/-- An L1 block, that is an index into `bufmem[]`. -/
abbrev Slot := Fin nrMapbufs

/-- The bytes of one block. -/
abbrev Block := Fin blockSize → UInt8

/-- `struct buffer_head`. -/
structure BufferHead where
  bData : Option Slot
  bBlocknr : Nat
  bDev : Nat
  bCount : Nat
  bUptodate : Bool
  bDirty : Bool
  bLock : Bool
  bSeg : Nat
  bNum : Nat
  bMapcount : Nat
deriving DecidableEq

/-- `READ` and `WRITE`. -/
inductive Rw
  | read
  | write
deriving DecidableEq

/-- The value of the command code. -/
def Rw.code : Rw → Nat
  | read => 0
  | write => 1

/-- `struct request`. -/
structure Request where
  rqDev : Nat
  rqCmd : Rw
  rqActive : Bool
  rqSector : Nat
  rqBuffer : Option Slot
  rqSeg : Nat
  rqBh : Bh

/-- What `request_fn` of a major device number is: no driver, a driver that
does the transfer before it returns, or one that ends it in an interrupt. -/
inductive Driver
  | absent
  | polled
  | interrupt
deriving DecidableEq

/-- The wait queues `bufmapwait` and `b_wait`. -/
inductive Wait
  | bufmapwait
  | bWait (bh : Bh)
deriving DecidableEq

/-- The buffer cache, the request queues and the disks behind them. -/
structure Buffers where
  buffers : Bh → BufferHead
  bufmem : Slot → Block
  bufmemMap : Slot → Option Bh
  bufDs : Nat → UInt8
  lastumap : Slot
  ds : Nat
  nullPage : Block
  lru : List Bh
  allRequests : Nat → Request
  prevFound : Nat
  prevLimit : Nat
  queue : Nat → List Nat
  requestFn : Nat → Driver
  ioError : Nat → Nat → Bool
  disk : Nat → Nat → Block

/-- Code of the buffer cache. -/
abbrev Code := Prog Buffers Wait

/-- The block at offset `a` of a segment. -/
def blockAt (m : Nat → UInt8) (a : Nat) : Block :=
  fun k => m (a + k)

/-- `fmemcpy` of a block to offset `a` of a segment. -/
def putBlock (m : Nat → UInt8) (a : Nat) (b : Block) : Nat → UInt8 :=
  fun x => if h : a ≤ x ∧ x - a < blockSize then b ⟨x - a, h.2⟩ else m x

theorem blockAt_putBlock_same (m : Nat → UInt8) (a : Nat) (b : Block) :
    blockAt (putBlock m a b) a = b := by
  funext k
  have hk : a ≤ a + k ∧ a + k - a < blockSize := by
    have := k.isLt
    omega
  simp only [blockAt, putBlock, hk, and_self, dite_true]
  congr 1
  exact Fin.ext (by simp)

theorem blockAt_putBlock_ne (m : Nat → UInt8) {i j : Nat} (b : Block) (hij : i ≠ j) :
    blockAt (putBlock m (i * 0x400) b) (j * 0x400) =
      blockAt m (j * 0x400) := by
  funext k
  have hk : ¬(i * 0x400 ≤ j * 0x400 + k ∧
      j * 0x400 + k - i * 0x400 < blockSize) := by
    have hlt := k.isLt
    unfold blockSize at *
    omega
  simp only [blockAt, putBlock, hk, dite_false]

namespace Buffers

/-- Replace one buffer head. -/
def setHead (s : Buffers) (bh : Bh) (h : BufferHead) : Buffers :=
  { s with buffers := Function.update s.buffers bh h }

/-- Change one buffer head. -/
def modHead (s : Buffers) (bh : Bh) (f : BufferHead → BufferHead) : Buffers :=
  s.setHead bh (f (s.buffers bh))

/-- The block a data pointer designates. -/
def deref (s : Buffers) : Option Slot → Block
  | some i => s.bufmem i
  | none => s.nullPage

/-- Store a block through a data pointer. -/
def store (s : Buffers) (d : Option Slot) (b : Block) : Buffers :=
  match d with
  | some i => { s with bufmem := Function.update s.bufmem i b }
  | none => { s with nullPage := b }

/-- The bytes of a buffer: its L1 block if the map has it, else its L2 block. -/
def content (s : Buffers) (bh : Bh) : Block :=
  match (List.finRange nrMapbufs).find? (fun i => s.bufmemMap i = some bh) with
  | some i => s.bufmem i
  | none => blockAt s.bufDs ((s.buffers bh).bNum * 0x400)

/-- `map_buffer`, the trivial case: the first free L1 block. -/
def freeSlot (s : Buffers) : Option Slot :=
  (List.finRange nrMapbufs).find? (fun i => s.bufmemMap i = none)

/-- The L1 blocks in the order in which `map_buffer` tries to empty them. -/
def candidates (last : Slot) : List Slot :=
  (List.range (nrMapbufs - 1)).map fun k =>
    ⟨(last + (k + 1)) % nrMapbufs, Nat.mod_lt _ (by decide)⟩

/-- Whether the buffer in L1 block `i` has no users. -/
def unused (s : Buffers) (i : Slot) : Bool :=
  match s.bufmemMap i with
  | some v => (s.buffers v).bMapcount = 0
  | none => false

/-- The L1 block that `map_buffer` empties. -/
def victim (s : Buffers) : Option Slot :=
  (candidates s.lastumap).find? (fun i => s.unused i)

/-- Bring `bh` into the free L1 block `i`. -/
def mapHere (bh : Bh) (i : Slot) (s : Buffers) : Buffers :=
  { s with
    bufmemMap := Function.update s.bufmemMap i (some bh)
    buffers := Function.update s.buffers bh
      { s.buffers bh with
        bData := some i
        bMapcount := wrap 16 ((s.buffers bh).bMapcount + 1) }
    bufmem := Function.update s.bufmem i
      (blockAt s.bufDs ((s.buffers bh).bNum * 0x400)) }

/-- Send the buffer in L1 block `i` back to L2. -/
def unmapSlot (i : Slot) (s : Buffers) : Buffers :=
  match s.bufmemMap i with
  | some v =>
      { s with
        bufDs := putBlock s.bufDs ((s.buffers v).bNum * 0x400)
          (s.deref (s.buffers v).bData)
        buffers := Function.update s.buffers v
          { s.buffers v with bData := none }
        bufmemMap := Function.update s.bufmemMap i none
        lastumap := i }
  | none => s

/-- `unmap_buffer`. -/
def unmapBuffer (bh : Bh) (s : Buffers) : Buffers :=
  if (s.buffers bh).bMapcount = 0 then
    s.modHead bh fun h => { h with bMapcount := 0 }
  else
    s.modHead bh fun h => { h with bMapcount := h.bMapcount - 1 }

/-- The queue `unmap_buffer` wakes: somebody may wait for this L1 block. -/
def unmapWakes (bh : Bh) (s : Buffers) : List Wait :=
  if (s.buffers bh).bMapcount = 1 then [.bufmapwait] else []

end Buffers

/-- The loop of `map_buffer`. -/
def mapLoop (bh : Bh) : Nat → Code Unit
  | 0 => .fault .endless
  | n + 1 => do
      let s ← Prog.get
      match s.freeSlot with
      | some i => Prog.modify (Buffers.mapHere bh i)
      | none =>
          match s.victim with
          | some i => do
              Prog.modify (Buffers.unmapSlot i)
              mapLoop bh n
          | none => do
              Prog.sleepOn .bufmapwait
              mapLoop bh n

/-- `map_buffer`. -/
def mapBuffer (fuel : Nat) (bh : Bh) : Code Unit := do
  let s ← Prog.get
  if (s.buffers bh).bData ≠ none ∨ (s.buffers bh).bSeg ≠ s.ds then
    Prog.modify fun s =>
      s.modHead bh fun h => { h with bMapcount := wrap 16 (h.bMapcount + 1) }
  else
    mapLoop bh fuel

/-- `unmap_buffer`, as a step of a program. -/
def unmapBuffer (bh : Bh) : Code Unit :=
  Prog.signal (Buffers.unmapBuffer bh) (Buffers.unmapWakes bh)

/-- A head as `buffer_init` leaves it. -/
def freshHead (i : Bh) : BufferHead where
  bData := none
  bBlocknr := 0
  bDev := 0
  bCount := 0
  bUptodate := false
  bDirty := false
  bLock := false
  bSeg := 0
  bNum := i
  bMapcount := 0

/-- A request as `blk_dev_init` leaves it. -/
def freshRequest : Request where
  rqDev := 0
  rqCmd := .read
  rqActive := false
  rqSector := 0
  rqBuffer := none
  rqSeg := 0
  rqBh := 0

/-- The machine on which `buffer_init` starts: the kernel data segment, the
memory that becomes the two buffer areas, the drivers and the disks. -/
structure Hardware where
  ds : Nat
  nullPage : Block
  bufmem : Slot → Block
  bufDs : Nat → UInt8
  requestFn : Nat → Driver
  ioError : Nat → Nat → Bool
  disk : Nat → Nat → Block

/-- `buffer_init`, after `blk_dev_init`. -/
def bufferInit (hw : Hardware) : Buffers where
  buffers := freshHead
  bufmem := hw.bufmem
  bufmemMap := fun _ => none
  bufDs := hw.bufDs
  lastumap := 0
  ds := hw.ds
  nullPage := hw.nullPage
  lru := List.finRange nrBuffers
  allRequests := fun _ => freshRequest
  prevFound := 0
  prevLimit := 0
  queue := fun _ => []
  requestFn := hw.requestFn
  ioError := hw.ioError
  disk := hw.disk

end Buffer
end Elks
