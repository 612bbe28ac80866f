import Elks.Buffer.Read
import Elks.Lib.Outcome

/-!
# The partition scan (genhd.c)

`check_partition` reads the partition table of a drive and enters the
partitions into `hd->part[]`; `extended_partition` follows the chain of
extended records.  The records are read through the buffer cache, from block 0
of the minor device whose place is that of the record, and it is the table
itself that tells the driver where a minor device begins: `Drives.view` is the
cache with its driver as the table stands.

All drives are those of the BIOS driver of doshd.c, the only one for which the
scan is compiled.  A call of the cache writes nothing here, since it never finds
a dirty buffer.

`fuel` bounds the rounds of the loops.
-/

namespace Elks
namespace Genhd

open Lib Buffer

/-- `sector_t`. -/
abbrev SectorT := UInt32

/-- `struct partition`: what the scan reads of it. -/
structure Partition where
  sysInd : UInt8
  startSect : SectorT
  nrSects : SectorT
deriving DecidableEq

/-- `struct hd_struct`. -/
structure HdStruct where
  startSect : SectorT
  nrSects : SectorT
deriving DecidableEq

/-- `struct gendisk`: what does not change. -/
structure Gendisk where
  major : Nat
  minorShift : Nat

/-- `bioshd_gendisk`. -/
def bioshdGendisk : Gendisk where
  major := 3
  minorShift := 6

/-- `DOS_EXTENDED_PARTITION`. -/
def dosExtendedPartition : UInt8 := 5

/-- `LINUX_EXTENDED_PARTITION`. -/
def linuxExtendedPartition : UInt8 := 0x85

/-- `MKDEV`. -/
def mkdev (major minor : Nat) : Nat :=
  major * 2 ^ 8 + minor

/-- `MINOR`. -/
def minorOf (dev : Nat) : Nat :=
  dev % 2 ^ 8

/-- Byte `k` of a block. -/
def byteAt (b : Block) (k : Nat) : UInt8 :=
  b (Fin.ofNat blockSize k)

/-- The `n` bytes at offset `k` as a little-endian number. -/
def leWord (b : Block) (k : Nat) : Nat → Nat
  | 0 => 0
  | n + 1 => (byteAt b k).toNat + 256 * leWord b (k + 1) n

/-- Entry `i` of the partition table at offset 0x1BE. -/
def partitionAt (b : Block) (i : Nat) : Partition where
  sysInd := byteAt b (0x1BE + 16 * i + 4)
  startSect := UInt32.ofNat (leWord b (0x1BE + 16 * i + 8) 4)
  nrSects := UInt32.ofNat (leWord b (0x1BE + 16 * i + 12) 4)

/-- The four entries of the partition table. -/
def partitions (b : Block) : List Partition :=
  (List.range 4).map (partitionAt b)

/-- `*(unsigned short *) (bh->b_data + 510)` is 0xAA55. -/
def magicOk (b : Block) : Bool :=
  leWord b 510 2 = 0xAA55

/-- `is_extended_partition`. -/
def Partition.isExtended (p : Partition) : Bool :=
  p.sysInd = dosExtendedPartition || p.sysInd = linuxExtendedPartition

/-- The test on the 3rd and 4th entries of an extended record. -/
def Partition.garbage (p : Partition)
    (thisSize thisSector firstSector firstSize : SectorT) : Bool :=
  p.startSect + p.nrSects > thisSize &&
    (thisSector + p.startSect < firstSector ||
      thisSector + p.startSect + p.nrSects > firstSector + firstSize)

/-- The tables, the cache and the bytes of the drives. -/
structure Drives where
  cache : Buffers
  drive : Nat → Nat → UInt8
  part : Nat → HdStruct
  sizes : Nat → Nat
  currentMinor : Nat

/-- The two sectors from `start`. -/
def blockFrom (bytes : Nat → UInt8) (start : SectorT) : Block :=
  fun k => bytes (start.toNat * 512 + k)

/-- `do_bioshd_request` turning down a request: "bad partition".  An `int` has
sixteen bits. -/
def refuses (h : HdStruct) (sector : Nat) : Bool :=
  h.startSect.toNat % 2 ^ 16 = 2 ^ 16 - 1 || h.nrSects.toNat ≤ sector

/-- The cache, with the drives as the partition table shows them. -/
def Drives.view (g : Drives) : Buffers :=
  { g.cache with
    disk := fun dev block =>
      if major dev = bioshdGendisk.major then
        blockFrom (g.drive (minorOf dev / 2 ^ bioshdGendisk.minorShift))
          ((g.part (minorOf dev)).startSect + UInt32.ofNat (2 * block))
      else
        g.cache.disk dev block
    ioError := fun dev block =>
      if major dev = bioshdGendisk.major then
        refuses (g.part (minorOf dev)) (2 * block)
      else
        g.cache.ioError dev block }

/-- A step of the partition scan. -/
abbrev Scan := Routine Drives

/-- A call of the buffer cache. -/
def cacheCall {α : Type} (p : Code α) : Scan α :=
  fun g =>
    match p.run g.view with
    | .ok r => .ok (r.1, { g with cache := r.2 })
    | .error f => .error f

/-- `*bh->b_data`. -/
def bData (bh : Bh) : Scan Block :=
  reads fun g => .ok (g.cache.deref (g.cache.buffers bh).bData)

/-- Read block 0 of a minor device and map it: the buffer and its bytes. -/
def readRecord (fuel dev : Nat) : Scan (Option (Bh × Block)) := do
  let found ← cacheCall (bread (fuel + 2) dev 0)
  match found with
  | none => pure none
  | some bh => do
      cacheCall (mapBuffer (fuel + 2) bh)
      let data ← bData bh
      pure (some (bh, data))

/-- Write an entry of `hd->part[]`. -/
def setPart (minor : Nat) (h : HdStruct) : Scan Unit :=
  modify fun g => { g with part := Function.update g.part minor h }

/-- `add_partition`. -/
def addPartition (minor : Nat) (start size : SectorT) : Scan Unit :=
  setPart minor ⟨start, size⟩

section Code

variable (hd : Gendisk)

/-- Whether a minor number is the last one of its drive plus one. -/
def lastMinor (minor : Nat) : Bool :=
  minor % 2 ^ hd.minorShift = 0

/-- `extended_partition` processing the data partitions of a record; `true` when
the minor numbers are used up. -/
def dataPartitions (thisSize thisSector firstSector firstSize : SectorT) :
    List (Nat × Partition) → Scan Bool
  | [] => pure false
  | (i, p) :: rest =>
      if p.nrSects = 0 ∨ p.isExtended then
        dataPartitions thisSize thisSector firstSector firstSize rest
      else if 2 ≤ i ∧ p.garbage thisSize thisSector firstSector firstSize then
        dataPartitions thisSize thisSector firstSector firstSize rest
      else do
        let g ← get
        addPartition g.currentMinor (thisSector + p.startSect) p.nrSects
        modify fun g => { g with currentMinor := g.currentMinor + 1 }
        if lastMinor hd (g.currentMinor + 1) then
          pure true
        else
          dataPartitions thisSize thisSector firstSector firstSize rest

/-- One extended record: its data partitions, and the sector of the record it
links to. -/
def extendedRecord (hdp : Nat) (firstSector firstSize thisSector : SectorT)
    (data : Block) : Scan (Option SectorT) :=
  if !magicOk data then
    pure none
  else do
    let g ← get
    let full ← dataPartitions hd (g.part hdp).nrSects thisSector firstSector
      firstSize ((List.range 4).zip (partitions data))
    if full then
      pure none
    else
      match (partitions data).find? fun p => p.nrSects ≠ 0 && p.isExtended with
      | none => pure none
      | some p => do
          let g ← get
          setPart g.currentMinor ⟨firstSector + p.startSect, p.nrSects⟩
          pure (some (firstSector + p.startSect))

variable (fuel : Nat)

/-- The loop of `extended_partition`. -/
def extendedLoop (hdp : Nat) (firstSector firstSize : SectorT) :
    Nat → Nat → SectorT → Scan Unit
  | 0, _, _ => throw .endless
  | rounds + 1, dev, thisSector => do
      let g ← get
      if lastMinor hd g.currentMinor then
        pure ()
      else
        let found ← readRecord fuel dev
        match found with
        | none => pure ()
        | some (bh, data) => do
            let next ← extendedRecord hd hdp firstSector firstSize thisSector data
            cacheCall (unmapBrelse (fuel + 2) bh)
            match next with
            | none => pure ()
            | some sector => do
                let g ← get
                extendedLoop hdp firstSector firstSize rounds
                  (mkdev hd.major g.currentMinor) sector

/-- `extended_partition`. -/
def extendedPartition (dev : Nat) : Scan Unit := do
  let g ← get
  let h := g.part (minorOf dev)
  extendedLoop hd fuel (minorOf dev) h.startSect h.nrSects fuel dev h.startSect

/-- `msdos_partition` with an extended partition. -/
def extendedEntry (minor : Nat) : Scan Unit := do
  modify fun g =>
    { g with
      sizes := Function.update g.sizes minor
        (wrap 16 ((g.part minor).nrSects.toNat / 2)) }
  extendedPartition hd fuel (mkdev hd.major minor)
  -- leave room for the boot loader only
  modify fun g =>
    { g with
      part := Function.update g.part minor
        { g.part minor with nrSects := min (g.part minor).nrSects 2 } }

/-- The loop of `msdos_partition` over the primary partitions. -/
def primaryPartitions (firstSector : SectorT) : Nat → List Partition → Scan Unit
  | _, [] => pure ()
  | minor, p :: rest =>
      if p.nrSects = 0 then
        primaryPartitions firstSector (minor + 1) rest
      else do
        addPartition minor (firstSector + p.startSect) p.nrSects
        when p.isExtended (extendedEntry hd fuel minor)
        primaryPartitions firstSector (minor + 1) rest

/-- `msdos_partition`. -/
def msdosPartition (dev : Nat) (firstSector : SectorT) : Scan Int := do
  let g ← get
  let minor := g.currentMinor
  let found ← readRecord fuel dev
  match found with
  | none => pure (-1)
  | some (bh, data) =>
      if !magicOk data then do
        cacheCall (unmapBrelse (fuel + 2) bh)
        pure 0
      else do
        modify fun g => { g with currentMinor := g.currentMinor + 4 }
        primaryPartitions hd fuel firstSector minor (partitions data)
        cacheCall (unmapBrelse (fuel + 2) bh)
        pure 1

/-- `check_partition`. -/
def checkPartition (dev : Nat) : Scan Unit := do
  let g ← get
  let firstSector := (g.part (minorOf dev)).startSect
  let _ ← msdosPartition hd fuel dev firstSector
  pure ()

end Code

end Genhd
end Elks
