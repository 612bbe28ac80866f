import Elks.Block.Genhd
import Elks.Lib.Chs

/-!
# Requests of the BIOS driver (arch/i86/drivers/block/doshd.c)

`do_bioshd_request` turns the two sectors of a request into calls of the BIOS.  The
number of a track goes through an `int` of sixteen bits on its way to a cylinder and a
head, and the end of the partition is only asked about for the first sector.

* `Geometry.transfer_run`: the passes for a request, one within a track or two over the
  end of one;
* `doBioshdRequest_addresses_iff`: when the calls are for the sectors of the request.
-/

namespace Elks
namespace Doshd

open Lib Genhd
open Buffer (Rw)

section Code

/-- `struct drive_infot`, without the type of a floppy drive. -/
structure DriveInfot where
  cylinders : Int16
  sectors : Int16
  heads : Int16

/-- `struct biosparms`: the registers that the driver sets. -/
structure Biosparms where
  irq : UInt16
  ax : UInt16
  bx : UInt16
  cx : UInt16
  dx : UInt16
  es : UInt16
  fl : UInt16
deriving DecidableEq

/-- A request of the queue, and whether its buffer is locked. -/
structure BioshdRequest where
  rqDev : UInt16
  rqCmd : Rw
  rqSector : SectorT
  rqBuffer : UInt16
  rqSeg : UInt16
  bhLocked : Bool

/-- The tables of the driver, with `bioshd_initialized` and `dma_avail`, which a pass
leaves as they were. -/
structure Driver where
  bioshdInitialized : Bool
  dmaAvail : Bool
  driveInfo : Nat → DriveInfot
  hd : Nat → HdStruct
  hdDriveMap : Nat → UInt8

/-- What the driver does. -/
inductive Action
  | fmemcpy (dseg doff sseg soff length : UInt16)
  | callBios (bd : Biosparms)
  | endRequest (uptodate : Bool)
deriving DecidableEq

/-- The BIOS: whether it sets the carry flag, after all that was done. -/
abbrev Bios :=
  List Action → Bool

/-- How the work on a request or on the queue comes to an end. -/
inductive Ending
  | finished
  | panicked
  | asleep
  | outOfRounds

/-- `BUFSEG`. -/
def bufseg : UInt16 := 0x800

/-- `BIOSHD_INT`. -/
def bioshdInt : UInt16 := 0x13

/-- `BIOSHD_READ`. -/
def bioshdRead : UInt16 := 0x200

/-- `BIOSHD_WRITE`. -/
def bioshdWrite : UInt16 := 0x300

/-- The function of the BIOS for a command. -/
def bioshdCmd : Rw → UInt16
  | .write => bioshdWrite
  | .read => bioshdRead

/-- `BIOSHD_RESET`. -/
def bioshdReset : UInt16 := 0

/-- `MAX_ERRS`. -/
def maxErrs : Nat := 5

/-- An `int` as a `sector_t`. -/
def toSector (x : Int16) : SectorT :=
  x.toInt32.toUInt32

/-- `sector`. -/
def DriveInfot.sector (p : DriveInfot) (start : SectorT) : Int16 :=
  (start % toSector p.sectors + 1).toUInt16.toInt16

/-- `tmp`. -/
def DriveInfot.tmp (p : DriveInfot) (start : SectorT) : Int16 :=
  (start / toSector p.sectors).toUInt16.toInt16

/-- `head`. -/
def DriveInfot.head (p : DriveInfot) (start : SectorT) : Int16 :=
  p.tmp start % p.heads

/-- `cylinder`. -/
def DriveInfot.cylinder (p : DriveInfot) (start : SectorT) : Int16 :=
  p.tmp start / p.heads

/-- `this_pass`. -/
def DriveInfot.thisPass (p : DriveInfot) (count start : SectorT) : SectorT :=
  if count ≤ toSector (p.sectors - p.sector start + 1) then count
  else toSector (p.sectors - p.sector start + 1)

/-- The registers of a pass. -/
def DriveInfot.call (p : DriveInfot) (drive : UInt8) (cmd : Rw) (count start : SectorT) :
    Biosparms where
  irq := bioshdInt
  ax := bioshdCmd cmd ||| (p.thisPass count start).toUInt16
  bx := 0
  cx := packCx (p.cylinder start) (p.sector start)
  dx := packDx (p.head start) drive
  es := bufseg
  fl := 0

/-- `reset_bioshd`: the other registers are as the call before set them. -/
def Biosparms.reset (bd : Biosparms) (drive : UInt8) : Biosparms :=
  { bd with irq := bioshdInt, ax := bioshdReset, dx := drive.toUInt16 }

/-- The loop over the passes of a request; the number bounds the rounds. -/
def transfer (d : Driver) (carry : Bios) (req : BioshdRequest) (drive : Nat) :
    Nat → Nat → SectorT → SectorT → UInt16 → List Action → Ending × List Action
  | 0, _, _, _, _, done => (.outOfRounds, done)
  | rounds + 1, errs, count, start, buff, done =>
      if count = 0 then (.finished, done ++ [.endRequest true])
      else if d.dmaAvail = false then (.asleep, done)
      else
        let p := d.driveInfo drive
        let thisPass := p.thisPass count start
        let length := thisPass.toUInt16 * 512
        let bd := p.call (d.hdDriveMap drive) req.rqCmd count start
        let done :=
          if req.rqCmd = .write then done ++ [.fmemcpy bufseg 0 req.rqSeg buff length]
          else done
        let done := done ++ [.callBios bd]
        if carry done then
          let done := done ++ [.callBios (bd.reset (d.hdDriveMap drive))]
          if maxErrs < errs + 1 then (.finished, done ++ [.endRequest false])
          else transfer d carry req drive rounds (errs + 1) count start buff done
        else
          let done :=
            if req.rqCmd = .read then done ++ [.fmemcpy req.rqSeg buff bufseg 0 length]
            else done
          transfer d carry req drive rounds errs (count - thisPass) (start + thisPass)
            (buff + length) done

/-- The rounds of a request of two sectors: a pass either moves a sector or is an
error. -/
def maxRounds : Nat :=
  2 + maxErrs + 2

/-- The loop body of `do_bioshd_request`, for a request with a valid sector. -/
def bioshdRequest (d : Driver) (carry : Bios) (req : BioshdRequest) (done : List Action) :
    Ending × List Action :=
  if d.bioshdInitialized = false then (.finished, done ++ [.endRequest false])
  else
    let minor := minorOf req.rqDev.toNat
    let drive := minor / 2 ^ 6
    if 3 < drive ∨ (d.driveInfo drive).heads = 0 then
      (.finished, done ++ [.endRequest false])
    else if ((d.hd minor).startSect.toUInt16.toInt16 = -1) ∨ (d.hd minor).nrSects ≤ req.rqSector
      then (.finished, done ++ [.endRequest false])
    else
      transfer d carry req drive maxRounds 0 2 (req.rqSector + (d.hd minor).startSect)
        req.rqBuffer done

/-- `do_bioshd_request` on a queue. -/
def doBioshdRequest (d : Driver) (carry : Bios) :
    List BioshdRequest → List Action → Ending × List Action
  | [], done => (.finished, done)
  | req :: queue, done =>
      if Buffer.major req.rqDev.toNat ≠ bioshdGendisk.major ∨ req.bhLocked = false then
        (.panicked, done)
      else if req.rqSector.toUInt16.toInt16 = -1 then (.finished, done)
      else
        match bioshdRequest d carry req done with
        | (.finished, done) => doBioshdRequest d carry queue done
        | stuck => stuck

end Code

section Addresses

/-- The geometries of a drive. -/
structure Geometry (p : DriveInfot) : Prop where
  cylinders : 1 ≤ p.cylinders.toInt ∧ p.cylinders.toInt ≤ 1024
  heads : 1 ≤ p.heads.toInt ∧ p.heads.toInt ≤ 255
  sectors : 1 ≤ p.sectors.toInt ∧ p.sectors.toInt ≤ 63

/-- The number of sectors of a drive. -/
def DriveInfot.capacity (p : DriveInfot) : Nat :=
  p.cylinders.toNatClampNeg * p.heads.toNatClampNeg * p.sectors.toNatClampNeg

/-- A call of the BIOS for some sectors, and where they are in the buffer. -/
structure Pass where
  bd : Biosparms
  buff : UInt16

/-- The number of sectors of a call. -/
def Pass.count (x : Pass) : UInt16 :=
  x.bd.ax &&& 0xff

/-- The call, and the copy from or to the buffer. -/
def Pass.actions (req : BioshdRequest) (x : Pass) : List Action :=
  match req.rqCmd with
  | .write => [.fmemcpy bufseg 0 req.rqSeg x.buff (x.count * 512), .callBios x.bd]
  | .read => [.callBios x.bd, .fmemcpy req.rqSeg x.buff bufseg 0 (x.count * 512)]

/-- The first sector of a call, counted from the beginning of the drive. -/
def Pass.first (p : DriveInfot) (x : Pass) : Nat :=
  (cylinderOf x.bd.cx * p.heads.toNatClampNeg + headOf x.bd.dx) * p.sectors.toNatClampNeg +
    (sectorOf x.bd.cx - 1)

/-- The sectors of a call, each with its place in the buffer. -/
def Pass.moves (p : DriveInfot) (x : Pass) : List (Nat × UInt16) :=
  (List.range x.count.toNat).map fun i => (x.first p + i, x.buff + 512 * UInt16.ofNat i)

/-- The BIOS can carry out a call: it is for sectors of one track. -/
structure Pass.Valid (p : DriveInfot) (drive : UInt8) (cmd : Rw) (x : Pass) : Prop where
  irq : x.bd.irq = bioshdInt
  command : x.bd.ax >>> 8 = bioshdCmd cmd >>> 8
  buffer : x.bd.es = bufseg ∧ x.bd.bx = 0
  drive : driveOf x.bd.dx = drive
  cylinder : cylinderOf x.bd.cx < p.cylinders.toNatClampNeg
  head : headOf x.bd.dx < p.heads.toNatClampNeg
  sector : 1 ≤ sectorOf x.bd.cx
  track : sectorOf x.bd.cx - 1 + x.count.toNat ≤ p.sectors.toNatClampNeg

/-- A request was served: the calls are for the two sectors from `s` on, in order. -/
def Served (p : DriveInfot) (drive : UInt8) (req : BioshdRequest) (s : Nat)
    (done : List Action) : Prop :=
  ∃ (passes : List Pass) (later : List Action),
    done = passes.flatMap (Pass.actions req) ++ .endRequest true :: later ∧
      (∀ x, x ∈ passes → x.Valid p drive req.rqCmd) ∧
      passes.flatMap (Pass.moves p) = [(s, req.rqBuffer), (s + 1, req.rqBuffer + 512)]

/-- A request was ended with an error, and nothing was done for it. -/
def EndedInError (done : List Action) : Prop :=
  ∃ later, done = .endRequest false :: later

/-- The minor number of a request. -/
def BioshdRequest.minor (req : BioshdRequest) : Nat :=
  minorOf req.rqDev.toNat

/-- The drive of a request. -/
def BioshdRequest.drive (req : BioshdRequest) : Nat :=
  req.minor / 2 ^ 6

/-- A request for two sectors of its partition is served, and any other one is ended
with an error. -/
def Addresses (d : Driver) (req : BioshdRequest) (done : List Action) : Prop :=
  if req.rqSector.toNat + 1 < (d.hd req.minor).nrSects.toNat then
    Served (d.driveInfo req.drive) (d.hdDriveMap req.drive) req
      ((d.hd req.minor).startSect.toNat + req.rqSector.toNat) done
  else EndedInError done

/-- When a request is served or refused as it ought to be. -/
def Reaches (p : DriveInfot) (h : HdStruct) (sector : SectorT) : Prop :=
  sector.toNat % 2 ^ 16 ≠ 2 ^ 16 - 1 ∧
    if sector.toNat + 1 < h.nrSects.toNat then
      h.startSect.toNat % 2 ^ 16 ≠ 2 ^ 16 - 1 ∧
        TrackFits p.heads.toNatClampNeg
          ((h.startSect.toNat + sector.toNat) / p.sectors.toNatClampNeg) ∧
        TrackFits p.heads.toNatClampNeg
          ((h.startSect.toNat + sector.toNat + 1) / p.sectors.toNatClampNeg)
    else
      sector.toNat + 1 = h.nrSects.toNat → h.startSect.toNat % 2 ^ 16 = 2 ^ 16 - 1

instance (p : DriveInfot) (h : HdStruct) (sector : SectorT) :
    Decidable (Reaches p h sector) := by
  unfold Reaches
  infer_instance

end Addresses

section Passes

variable {p : DriveInfot} {start count : SectorT} {drive : UInt8} {cmd : Rw} {buff : UInt16}
  {n : Nat}

theorem toSector_toNat {x : Int16} (h : 0 ≤ x.toInt) : (toSector x).toNat = x.toNatClampNeg := by
  have hint : x.toInt = x.toBitVec.toInt := rfl
  have hmsb : x.toBitVec.msb = false := by
    rw [hint] at h
    rw [BitVec.msb_eq_toInt]
    simpa using h
  have hlt := x.toBitVec.isLt
  rw [← UInt32.toNat_toBitVec, ← Int16.toNat_toInt]
  unfold toSector
  rw [Int32.toBitVec_toUInt32, Int16.toBitVec_toInt32, BitVec.toNat_signExtend, hmsb, hint,
    BitVec.toInt_eq_toNat_of_msb hmsb, BitVec.toNat_setWidth]
  simp only [Bool.false_eq_true, if_false, Int.toNat_natCast]
  omega

theorem Geometry.sectors_pos (hp : Geometry p) : 0 < p.sectors.toNatClampNeg := by
  have hb := hp.sectors
  rw [← Int16.toNat_toInt]
  omega

theorem Geometry.sectors_le (hp : Geometry p) : p.sectors.toNatClampNeg ≤ 63 := by
  have hb := hp.sectors
  rw [← Int16.toNat_toInt]
  omega

theorem Geometry.heads_pos (hp : Geometry p) : 0 < p.heads.toNatClampNeg := by
  have hb := hp.heads
  rw [← Int16.toNat_toInt]
  omega

theorem Geometry.heads_le (hp : Geometry p) : p.heads.toNatClampNeg ≤ 255 := by
  have hb := hp.heads
  rw [← Int16.toNat_toInt]
  omega

theorem Geometry.cylinders_le (hp : Geometry p) : p.cylinders.toNatClampNeg ≤ 1024 := by
  have hb := hp.cylinders
  rw [← Int16.toNat_toInt]
  omega

theorem Geometry.toSector_sectors (hp : Geometry p) :
    (toSector p.sectors).toNat = p.sectors.toNatClampNeg :=
  toSector_toNat (Int.le_trans (by decide) hp.sectors.1)

theorem Geometry.sector_toInt (hp : Geometry p) :
    (p.sector start).toInt = ((start.toNat % p.sectors.toNatClampNeg + 1 : Nat) : Int) := by
  have hle := hp.sectors_le
  have hlt : start.toNat % p.sectors.toNatClampNeg < p.sectors.toNatClampNeg :=
    Nat.mod_lt _ hp.sectors_pos
  unfold DriveInfot.sector
  rw [toInt_narrow, UInt32.toNat_add, UInt32.toNat_mod, hp.toSector_sectors]
  generalize start.toNat % p.sectors.toNatClampNeg = x at hlt
  have hsmall : x + UInt32.toNat 1 < 2 ^ 32 := by
    rw [UInt32.toNat_one]
    omega
  rw [Nat.mod_eq_of_lt hsmall, UInt32.toNat_one]
  exact Int.bmod_eq_of_le (by omega) (by omega)

theorem Geometry.sector_toNat (hp : Geometry p) :
    (p.sector start).toBitVec.toNat = start.toNat % p.sectors.toNatClampNeg + 1 := by
  have hle := hp.sectors_le
  have hlt : start.toNat % p.sectors.toNatClampNeg < p.sectors.toNatClampNeg :=
    Nat.mod_lt _ hp.sectors_pos
  rw [toNat_toBitVec, hp.sector_toInt]
  omega

theorem Geometry.tmp_toInt (hp : Geometry p) :
    (p.tmp start).toInt =
      ((start.toNat / p.sectors.toNatClampNeg : Nat) : Int).bmod (2 ^ 16) := by
  unfold DriveInfot.tmp
  rw [toInt_narrow, UInt32.toNat_div, hp.toSector_sectors]

theorem Geometry.left_toNat (hp : Geometry p) :
    (toSector (p.sectors - p.sector start + 1)).toNat =
      p.sectors.toNatClampNeg - start.toNat % p.sectors.toNatClampNeg := by
  have hle := hp.sectors_le
  have hlt : start.toNat % p.sectors.toNatClampNeg < p.sectors.toNatClampNeg :=
    Nat.mod_lt _ hp.sectors_pos
  have hk := toNatClampNeg_eq (x := p.sectors) (Int.le_trans (by decide) hp.sectors.1)
  have hleft : (p.sectors - p.sector start + 1).toInt =
      ((p.sectors.toNatClampNeg - start.toNat % p.sectors.toNatClampNeg : Nat) : Int) := by
    rw [Int16.toInt_add, Int16.toInt_sub, Int.bmod_add_bmod, hp.sector_toInt, ← hk]
    generalize start.toNat % p.sectors.toNatClampNeg = x at hlt
    have hone : (1 : Int16).toInt = 1 := rfl
    rw [hone, Int.bmod_eq_of_le (by omega) (by omega)]
    omega
  rw [toSector_toNat (hleft ▸ Int.natCast_nonneg _), ← Int16.toNat_toInt, hleft,
    Int.toNat_natCast]

theorem Geometry.thisPass_toNat (hp : Geometry p) :
    (p.thisPass count start).toNat =
      min count.toNat (p.sectors.toNatClampNeg - start.toNat % p.sectors.toNatClampNeg) := by
  unfold DriveInfot.thisPass
  split
  · rename_i hle
    have hnat := UInt32.le_iff_toNat_le.mp hle
    rw [hp.left_toNat] at hnat
    exact (min_eq_left hnat).symm
  · rename_i hle
    have hnat := mt UInt32.le_iff_toNat_le.mpr hle
    rw [hp.left_toNat] at hnat
    rw [hp.left_toNat, min_eq_right (Nat.le_of_not_le hnat)]

/-- The pass that begins at sector `start`. -/
def DriveInfot.pass (p : DriveInfot) (drive : UInt8) (cmd : Rw) (count start : SectorT)
    (buff : UInt16) : Pass where
  bd := p.call drive cmd count start
  buff := buff

theorem Geometry.cylinderOf_call (hp : Geometry p) :
    cylinderOf (p.call drive cmd count start).cx =
      splitCylinder p.heads.toNatClampNeg (start.toNat / p.sectors.toNatClampNeg) := by
  have hsector : (p.sector start).toBitVec.toNat < 64 := by
    have hle := hp.sectors_le
    have hlt := Nat.mod_lt start.toNat hp.sectors_pos
    rw [hp.sector_toNat]
    omega
  have hheads := toNatClampNeg_eq (x := p.heads) (Int.le_trans (by decide) hp.heads.1)
  show cylinderOf (packCx (p.tmp start / p.heads) (p.sector start)) = _
  rw [cylinderOf_pack _ _ hsector, toBitVec_div_mod, hp.tmp_toInt, ← hheads]
  rfl

theorem Geometry.sectorOf_call (hp : Geometry p) :
    sectorOf (p.call drive cmd count start).cx =
      start.toNat % p.sectors.toNatClampNeg + 1 := by
  have hle := hp.sectors_le
  have hlt := Nat.mod_lt start.toNat hp.sectors_pos
  show sectorOf (packCx (p.cylinder start) (p.sector start)) = _
  rw [sectorOf_pack _ _ (by rw [hp.sector_toNat]; omega), hp.sector_toNat]

theorem Geometry.headOf_call (hp : Geometry p) :
    headOf (p.call drive cmd count start).dx =
      splitHead p.heads.toNatClampNeg (start.toNat / p.sectors.toNatClampNeg) := by
  have hheads := toNatClampNeg_eq (x := p.heads) (Int.le_trans (by decide) hp.heads.1)
  show headOf (packDx (p.tmp start % p.heads) drive) = _
  rw [headOf_pack, toBitVec_mod_mod, hp.tmp_toInt, ← hheads]
  rfl

theorem Geometry.first_pass_iff (hp : Geometry p)
    (hin : start.toNat / p.sectors.toNatClampNeg < 1024 * p.heads.toNatClampNeg)
    :
    (p.pass drive cmd count start buff).first p = start.toNat ↔
      TrackFits p.heads.toNatClampNeg (start.toNat / p.sectors.toNatClampNeg) := by
  have hdiv : start.toNat / p.sectors.toNatClampNeg * p.sectors.toNatClampNeg +
      start.toNat % p.sectors.toNatClampNeg = start.toNat := Nat.div_add_mod' _ _
  have hfirst : (p.pass drive cmd count start buff).first p =
      (splitCylinder p.heads.toNatClampNeg (start.toNat / p.sectors.toNatClampNeg) *
          p.heads.toNatClampNeg +
        splitHead p.heads.toNatClampNeg (start.toNat / p.sectors.toNatClampNeg)) *
          p.sectors.toNatClampNeg + start.toNat % p.sectors.toNatClampNeg := by
    unfold Pass.first DriveInfot.pass
    rw [hp.cylinderOf_call, hp.headOf_call, hp.sectorOf_call, Nat.add_sub_cancel]
  rw [hfirst, ← split_iff hp.heads_le hp.heads_pos hin]
  constructor
  · intro h
    exact Nat.eq_of_mul_eq_mul_right hp.sectors_pos (Nat.add_right_cancel (h.trans hdiv.symm))
  · intro h
    rw [h, hdiv]

theorem pass_count (drive : UInt8) (cmd : Rw) (buff : UInt16) (hn : n = 1 ∨ n = 2)
    (h : (p.thisPass count start).toNat = n) :
    (p.pass drive cmd count start buff).count.toNat = n ∧
      (p.pass drive cmd count start buff).count = (p.thisPass count start).toUInt16 ∧
      (p.pass drive cmd count start buff).bd.ax >>> 8 = bioshdCmd cmd >>> 8 := by
  have heq : p.thisPass count start = UInt32.ofNat n := by
    rw [← h, UInt32.ofNat_toNat]
  unfold Pass.count DriveInfot.pass DriveInfot.call
  dsimp only
  rw [heq]
  rcases hn with rfl | rfl <;> cases cmd <;> decide

theorem Geometry.valid_pass (hp : Geometry p) (hn : n = 1 ∨ n = 2)
    (hcount : (p.thisPass count start).toNat = n)
    (htrack : start.toNat % p.sectors.toNatClampNeg + n ≤ p.sectors.toNatClampNeg)
    (hin : start.toNat / p.sectors.toNatClampNeg <
      p.cylinders.toNatClampNeg * p.heads.toNatClampNeg)
    (hfits : TrackFits p.heads.toNatClampNeg (start.toNat / p.sectors.toNatClampNeg)) :
    (p.pass drive cmd count start buff).Valid p drive cmd := by
  have hin' : start.toNat / p.sectors.toNatClampNeg < 1024 * p.heads.toNatClampNeg :=
    Nat.lt_of_lt_of_le hin (Nat.mul_le_mul_right _ hp.cylinders_le)
  obtain ⟨hcylinder, hhead⟩ := split_eq hp.heads_le hp.heads_pos hin' hfits
  obtain ⟨hval, -, hcommand⟩ := pass_count drive cmd buff hn hcount
  refine ⟨rfl, hcommand, ⟨rfl, rfl⟩, driveOf_pack _ _, ?_, ?_, ?_, ?_⟩
  · show cylinderOf (p.call drive cmd count start).cx < _
    rw [hp.cylinderOf_call, hcylinder, Nat.div_lt_iff_lt_mul hp.heads_pos]
    exact hin
  · show headOf (p.call drive cmd count start).dx < _
    rw [hp.headOf_call, hhead]
    exact Nat.mod_lt _ hp.heads_pos
  · show 1 ≤ sectorOf (p.call drive cmd count start).cx
    rw [hp.sectorOf_call]
    exact Nat.le_add_left 1 _
  · show sectorOf (p.call drive cmd count start).cx - 1 + _ ≤ _
    rw [hp.sectorOf_call, hval, Nat.add_sub_cancel]
    exact htrack

end Passes

section Transfers

variable {d : Driver} {carry : Bios} {req : BioshdRequest} {drive rounds errs : Nat}
  {count start : SectorT} {buff : UInt16} {done : List Action} {p : DriveInfot} {x : Pass}

/-- The passes for two sectors: one within a track, or two over the end of one. -/
def DriveInfot.passes (p : DriveInfot) (drive : UInt8) (cmd : Rw) (start : SectorT)
    (buff : UInt16) : List Pass :=
  if start.toNat % p.sectors.toNatClampNeg + 2 ≤ p.sectors.toNatClampNeg then
    [p.pass drive cmd 2 start buff]
  else [p.pass drive cmd 2 start buff, p.pass drive cmd 1 (start + 1) (buff + 512)]

theorem transfer_step {n : Nat} (hn : n = 1 ∨ n = 2)
    (hdma : d.dmaAvail = true) (hbios : ∀ done, carry done = false)
    (hpass : ((d.driveInfo drive).thisPass count start).toNat = n) (hcount : count ≠ 0) :
    transfer d carry req drive (rounds + 1) errs count start buff done =
      transfer d carry req drive rounds errs (count - UInt32.ofNat n) (start + UInt32.ofNat n)
        (buff + UInt16.ofNat n * 512)
        (done ++ ((d.driveInfo drive).pass (d.hdDriveMap drive) req.rqCmd count start
          buff).actions req) := by
  obtain ⟨-, hval, -⟩ := pass_count (d.hdDriveMap drive) req.rqCmd buff hn hpass
  have heq : (d.driveInfo drive).thisPass count start = UInt32.ofNat n := by
    rw [← hpass, UInt32.ofNat_toNat]
  have hsmall : (UInt32.ofNat n).toUInt16 = UInt16.ofNat n := by
    rcases hn with rfl | rfl <;> rfl
  rw [heq, hsmall] at hval
  rw [transfer, if_neg hcount, hdma]
  dsimp only
  rw [if_neg (by decide), hbios, if_neg (by decide), heq, hsmall]
  congr 1
  unfold Pass.actions
  rw [hval]
  unfold DriveInfot.pass
  cases req.rqCmd <;> simp

theorem transfer_done :
    transfer d carry req drive (rounds + 1) errs 0 start buff done =
      (.finished, done ++ [.endRequest true]) := by
  rw [transfer, if_pos rfl]

theorem Geometry.transfer_run (hp : Geometry (d.driveInfo drive))
    (hdma : d.dmaAvail = true) (hbios : ∀ done, carry done = false) :
    transfer d carry req drive (rounds + 3) errs 2 start buff done =
      (.finished, done ++ (((d.driveInfo drive).passes (d.hdDriveMap drive) req.rqCmd start
        buff).flatMap (Pass.actions req) ++ [.endRequest true])) := by
  have hlt := Nat.mod_lt start.toNat hp.sectors_pos
  have htwo : UInt32.toNat 2 = 2 := rfl
  have hone : UInt32.toNat 1 = 1 := rfl
  unfold DriveInfot.passes
  split
  · rename_i htrack
    have hpass : ((d.driveInfo drive).thisPass 2 start).toNat = 2 := by
      rw [hp.thisPass_toNat, htwo]
      omega
    rw [transfer_step (Or.inr rfl) hdma hbios hpass (by decide)]
    show transfer d carry req drive (rounds + 2) errs 0 _ _ _ = _
    rw [transfer_done, List.flatMap_cons, List.flatMap_nil, List.append_nil, List.append_assoc]
  · rename_i htrack
    have hpass : ((d.driveInfo drive).thisPass 2 start).toNat = 1 := by
      rw [hp.thisPass_toNat, htwo]
      omega
    have hnext : ((d.driveInfo drive).thisPass 1 (start + 1)).toNat = 1 := by
      have hlt' := Nat.mod_lt (start + 1).toNat hp.sectors_pos
      rw [hp.thisPass_toNat, hone]
      omega
    rw [transfer_step (Or.inl rfl) hdma hbios hpass (by decide)]
    show transfer d carry req drive (rounds + 2) errs 1 (start + 1) (buff + 512) _ = _
    rw [transfer_step (Or.inl rfl) hdma hbios hnext (by decide)]
    show transfer d carry req drive (rounds + 1) errs 0 _ _ _ = _
    rw [transfer_done, List.flatMap_cons, List.flatMap_cons, List.flatMap_nil, List.append_nil,
      List.append_assoc, List.append_assoc, List.append_assoc]

theorem moves_one (h : x.count.toNat = 1) : x.moves p = [(x.first p, x.buff)] := by
  unfold Pass.moves
  rw [h]
  simp

theorem moves_two (h : x.count.toNat = 2) :
    x.moves p = [(x.first p, x.buff), (x.first p + 1, x.buff + 512)] := by
  unfold Pass.moves
  rw [h]
  simp [List.range_succ]

theorem Geometry.track_lt (hp : Geometry p) {x : Nat} (hin : x < p.capacity) :
    x / p.sectors.toNatClampNeg < p.cylinders.toNatClampNeg * p.heads.toNatClampNeg ∧
      x / p.sectors.toNatClampNeg < 1024 * p.heads.toNatClampNeg := by
  have hlt : x / p.sectors.toNatClampNeg <
      p.cylinders.toNatClampNeg * p.heads.toNatClampNeg :=
    (Nat.div_lt_iff_lt_mul hp.sectors_pos).mpr hin
  exact ⟨hlt, Nat.lt_of_lt_of_le hlt (Nat.mul_le_mul_right _ hp.cylinders_le)⟩

theorem Geometry.capacity_lt (hp : Geometry p) : p.capacity < 2 ^ 31 := by
  have hle : p.capacity ≤ 1024 * 255 * 63 :=
    Nat.mul_le_mul (Nat.mul_le_mul hp.cylinders_le hp.heads_le) hp.sectors_le
  exact Nat.lt_of_le_of_lt hle (by decide)

theorem Geometry.passes_iff (hp : Geometry p) {drive : UInt8} {cmd : Rw}
    (hwrap : start.toNat + 1 < 2 ^ 32) (hin : start.toNat + 1 < p.capacity) :
    ((∀ x, x ∈ p.passes drive cmd start buff → x.Valid p drive cmd) ∧
      (p.passes drive cmd start buff).flatMap (Pass.moves p) =
        [(start.toNat, buff), (start.toNat + 1, buff + 512)]) ↔
      TrackFits p.heads.toNatClampNeg (start.toNat / p.sectors.toNatClampNeg) ∧
        TrackFits p.heads.toNatClampNeg ((start.toNat + 1) / p.sectors.toNatClampNeg) := by
  have hlt := Nat.mod_lt start.toNat hp.sectors_pos
  have htwo : UInt32.toNat 2 = 2 := rfl
  have hone : UInt32.toNat 1 = 1 := rfl
  have hnext : (start + 1).toNat = start.toNat + 1 := by
    rw [UInt32.toNat_add, hone, Nat.mod_eq_of_lt hwrap]
  obtain ⟨htrack, htrack'⟩ := hp.track_lt (Nat.lt_of_succ_lt hin)
  unfold DriveInfot.passes
  split
  · rename_i hroom
    have hsame : (start.toNat + 1) / p.sectors.toNatClampNeg =
        start.toNat / p.sectors.toNatClampNeg := by
      have hbig : 1 < p.sectors.toNatClampNeg := by omega
      rw [Nat.add_div_eq_of_add_mod_lt, Nat.div_eq_of_lt hbig, Nat.add_zero]
      rw [Nat.mod_eq_of_lt hbig]
      exact hroom
    have hcount : (p.thisPass 2 start).toNat = 2 := by
      rw [hp.thisPass_toNat, htwo]
      omega
    obtain ⟨hval, -, -⟩ := pass_count drive cmd buff
      (Or.inr rfl) hcount
    rw [hsame, and_self, List.flatMap_cons, List.flatMap_nil, List.append_nil, moves_two hval]
    constructor
    · rintro ⟨-, hmoves⟩
      have hfirst : (p.pass drive cmd 2 start buff).first p = start.toNat := by
        simp only [List.cons.injEq, Prod.mk.injEq] at hmoves
        exact hmoves.1.1
      exact (hp.first_pass_iff htrack').mp hfirst
    · intro hfits
      rw [(hp.first_pass_iff htrack').mpr hfits]
      refine ⟨fun x hx => ?_, rfl⟩
      rw [List.mem_singleton.mp hx]
      exact hp.valid_pass (Or.inr rfl) hcount hroom htrack hfits
  · rename_i hroom
    obtain ⟨hother, hother'⟩ := hp.track_lt hin
    rw [← hnext] at hother hother'
    have hcount : (p.thisPass 2 start).toNat = 1 := by
      rw [hp.thisPass_toNat, htwo]
      omega
    have hcount' : (p.thisPass 1 (start + 1)).toNat = 1 := by
      have hlt' := Nat.mod_lt (start + 1).toNat hp.sectors_pos
      rw [hp.thisPass_toNat, hone]
      omega
    obtain ⟨hval, -, -⟩ := pass_count drive cmd buff
      (Or.inl rfl) hcount
    obtain ⟨hval', -, -⟩ := pass_count drive cmd (buff + 512)
      (Or.inl rfl) hcount'
    rw [← hnext, List.flatMap_cons, List.flatMap_cons, List.flatMap_nil, List.append_nil,
      moves_one hval, moves_one hval']
    constructor
    · rintro ⟨-, hmoves⟩
      simp only [List.cons_append, List.nil_append, List.cons.injEq, Prod.mk.injEq] at hmoves
      exact ⟨(hp.first_pass_iff htrack').mp hmoves.1.1,
        (hp.first_pass_iff hother').mp hmoves.2.1.1⟩
    · rintro ⟨hfits, hfits'⟩
      rw [(hp.first_pass_iff htrack').mpr hfits, (hp.first_pass_iff hother').mpr hfits']
      refine ⟨fun x hx => ?_, rfl⟩
      have hlt' := Nat.mod_lt (start + 1).toNat hp.sectors_pos
      rcases List.mem_cons.mp hx with rfl | hx
      · exact hp.valid_pass (Or.inl rfl) hcount (Nat.succ_le_of_lt hlt) htrack hfits
      · rw [List.mem_singleton.mp hx]
        exact hp.valid_pass (Or.inl rfl) hcount' (Nat.succ_le_of_lt hlt') hother hfits'

theorem actions_two (req : BioshdRequest) (x : Pass) :
    ∃ a a', x.actions req = [a, a'] ∧ ∀ b, a ≠ .endRequest b := by
  unfold Pass.actions
  cases req.rqCmd
  · exact ⟨_, _, rfl, fun _ => Action.noConfusion⟩
  · exact ⟨_, _, rfl, fun _ => Action.noConfusion⟩

theorem actions_inj {x y : Pass} (h : x.actions req = y.actions req) : x = y := by
  have hfields : x.bd = y.bd ∧ x.buff = y.buff := by
    unfold Pass.actions at h
    cases hcmd : req.rqCmd
    · rw [hcmd] at h
      simp only [List.cons.injEq, Action.fmemcpy.injEq, Action.callBios.injEq] at h
      exact ⟨h.1, h.2.1.2.1⟩
    · rw [hcmd] at h
      simp only [List.cons.injEq, Action.fmemcpy.injEq, Action.callBios.injEq] at h
      exact ⟨h.2.1, h.1.2.2.2.1⟩
  cases x
  cases y
  obtain ⟨rfl, rfl⟩ := hfields
  rfl

theorem flatMap_actions_inj {b b' : Bool} {later later' : List Action} {l l' : List Pass}
    (h : l.flatMap (Pass.actions req) ++ .endRequest b :: later =
      l'.flatMap (Pass.actions req) ++ .endRequest b' :: later') :
    l = l' ∧ b = b' := by
  induction l generalizing l' with
  | nil =>
      cases l' with
      | nil =>
          simp only [List.flatMap_nil, List.nil_append, List.cons.injEq,
            Action.endRequest.injEq] at h
          exact ⟨rfl, h.1⟩
      | cons y l' =>
          obtain ⟨a, a', hactions, hne⟩ := actions_two req y
          rw [List.flatMap_cons, hactions] at h
          exact absurd (List.cons.inj h).1.symm (hne b)
  | cons x l ih =>
      obtain ⟨a, a', hactions, hne⟩ := actions_two req x
      cases l' with
      | nil =>
          rw [List.flatMap_cons, hactions] at h
          exact absurd (List.cons.inj h).1 (hne b')
      | cons y l' =>
          obtain ⟨c, c', hactions', -⟩ := actions_two req y
          rw [List.flatMap_cons, List.flatMap_cons, List.append_assoc, List.append_assoc] at h
          have hlength : (x.actions req).length = (y.actions req).length := by
            rw [hactions, hactions']
            rfl
          obtain ⟨hpass, hrest⟩ := List.append_inj h hlength
          obtain ⟨rfl, rfl⟩ := ih hrest
          exact ⟨congrArg (· :: l) (actions_inj hpass), rfl⟩

end Transfers

section Requests

variable {d : Driver} {carry : Bios} {req : BioshdRequest} {queue : List BioshdRequest}
  {done : List Action}

theorem narrow_eq_neg_one (x : UInt32) :
    x.toUInt16.toInt16 = -1 ↔ x.toNat % 2 ^ 16 = 2 ^ 16 - 1 := by
  have hone : (-1 : Int16).toInt = -1 := rfl
  rw [← Int16.toInt_inj, toInt_narrow, hone]
  rcases bmod_cases x.toNat with ⟨hlow, hval⟩ | ⟨hhigh, hval⟩
  · rw [hval]
    omega
  · rw [hval]
    omega

theorem transfer_extends {drive : Nat} :
    ∀ (rounds errs : Nat) (count start : SectorT) (buff : UInt16) (done : List Action),
      done <+: (transfer d carry req drive rounds errs count start buff done).2 := by
  intro rounds
  induction rounds with
  | zero =>
      intro errs count start buff done
      exact List.prefix_refl done
  | succ rounds ih =>
      intro errs count start buff done
      have hcopy : ∀ (c : Prop) [Decidable c] (done : List Action) (x : Action),
          done <+: (if c then done ++ [x] else done) := by
        intro c _ done x
        split
        · exact List.prefix_append done _
        · exact List.prefix_refl done
      rw [transfer]
      split
      · exact List.prefix_append done _
      · split
        · exact List.prefix_refl done
        · dsimp only
          refine (hcopy (req.rqCmd = .write) done (.fmemcpy bufseg 0 req.rqSeg buff
            (((d.driveInfo drive).thisPass count start).toUInt16 * 512))).trans ?_
          generalize (if req.rqCmd = .write then done ++ [Action.fmemcpy bufseg 0 req.rqSeg buff
            (((d.driveInfo drive).thisPass count start).toUInt16 * 512)] else done) = copied
          refine (List.prefix_append copied [.callBios
            ((d.driveInfo drive).call (d.hdDriveMap drive) req.rqCmd count start)]).trans ?_
          split
          · split
            · exact (List.prefix_append _ _).trans (List.prefix_append _ _)
            · exact (List.prefix_append _ _).trans (ih _ _ _ _ _)
          · exact (hcopy (req.rqCmd = .read) _ _).trans (ih _ _ _ _ _)

theorem bioshdRequest_extends (done : List Action) :
    done <+: (bioshdRequest d carry req done).2 := by
  unfold bioshdRequest
  dsimp only
  split
  · exact List.prefix_append done _
  · split
    · exact List.prefix_append done _
    · split
      · exact List.prefix_append done _
      · exact transfer_extends _ _ _ _ _ _

theorem doBioshdRequest_extends (queue : List BioshdRequest) :
    ∀ done : List Action, done <+: (doBioshdRequest d carry queue done).2 := by
  induction queue with
  | nil =>
      intro done
      exact List.prefix_refl done
  | cons req queue ih =>
      intro done
      rw [doBioshdRequest]
      split
      · exact List.prefix_refl done
      · split
        · exact List.prefix_refl done
        · have hstep := @bioshdRequest_extends d carry req done
          revert hstep
          generalize bioshdRequest d carry req done = r
          intro hstep
          obtain ⟨how, done'⟩ := r
          cases how with
          | finished => exact hstep.trans (ih done')
          | panicked => exact hstep
          | asleep => exact hstep
          | outOfRounds => exact hstep

/-- The first request of the queue, when the driver works on it. -/
structure Accepted (d : Driver) (req : BioshdRequest) : Prop where
  initialized : d.bioshdInitialized = true
  dma : d.dmaAvail = true
  major : Buffer.major req.rqDev.toNat = bioshdGendisk.major
  locked : req.bhLocked = true
  geometry : Geometry (d.driveInfo req.drive)

theorem Accepted.doBioshdRequest_eq (h : Accepted d req)
    (hvalid : req.rqSector.toNat % 2 ^ 16 ≠ 2 ^ 16 - 1)
    (hdone : bioshdRequest d carry req [] = (.finished, done)) :
    doBioshdRequest d carry (req :: queue) [] = doBioshdRequest d carry queue done := by
  rw [doBioshdRequest, if_neg, if_neg (mt (narrow_eq_neg_one _).mp hvalid), hdone]
  rw [h.major, h.locked]
  decide

theorem Accepted.doBioshdRequest_ignored (h : Accepted d req)
    (hsector : req.rqSector.toNat % 2 ^ 16 = 2 ^ 16 - 1) :
    doBioshdRequest d carry (req :: queue) [] = (.finished, []) := by
  rw [doBioshdRequest, if_neg, if_pos ((narrow_eq_neg_one _).mpr hsector)]
  rw [h.major, h.locked]
  decide

theorem drive_le (req : BioshdRequest) : ¬ 3 < req.drive := by
  unfold BioshdRequest.drive BioshdRequest.minor minorOf
  omega

theorem Accepted.bioshdRequest_eq (h : Accepted d req) (done : List Action) :
    bioshdRequest d carry req done =
      if (d.hd req.minor).startSect.toNat % 2 ^ 16 = 2 ^ 16 - 1 ∨
          (d.hd req.minor).nrSects.toNat ≤ req.rqSector.toNat then
        (.finished, done ++ [.endRequest false])
      else transfer d carry req req.drive maxRounds 0 2
        (req.rqSector + (d.hd req.minor).startSect) req.rqBuffer done := by
  have hheads : (d.driveInfo req.drive).heads ≠ 0 := by
    intro hzero
    have hpos := h.geometry.heads.1
    rw [hzero] at hpos
    exact absurd hpos (by decide)
  unfold bioshdRequest
  rw [h.initialized]
  dsimp only
  rw [if_neg (by decide)]
  show (if 3 < req.drive ∨ (d.driveInfo req.drive).heads = 0 then _ else _) = _
  rw [if_neg (not_or.mpr ⟨drive_le req, hheads⟩)]
  show (if (d.hd req.minor).startSect.toUInt16.toInt16 = -1 ∨
    (d.hd req.minor).nrSects ≤ req.rqSector then _ else _) = _
  simp only [narrow_eq_neg_one, UInt32.le_iff_toNat_le]
  rfl

theorem Accepted.doBioshdRequest_refused (h : Accepted d req)
    (hvalid : req.rqSector.toNat % 2 ^ 16 ≠ 2 ^ 16 - 1)
    (hrefused : (d.hd req.minor).startSect.toNat % 2 ^ 16 = 2 ^ 16 - 1 ∨
      (d.hd req.minor).nrSects.toNat ≤ req.rqSector.toNat) :
    EndedInError (doBioshdRequest d carry (req :: queue) []).2 := by
  have hone : bioshdRequest d carry req [] = (.finished, [.endRequest false]) := by
    rw [h.bioshdRequest_eq, if_pos hrefused]
    rfl
  rw [h.doBioshdRequest_eq hvalid hone]
  obtain ⟨later, hlater⟩ := doBioshdRequest_extends queue [.endRequest false]
  exact ⟨later, hlater.symm⟩

theorem Accepted.doBioshdRequest_passes (h : Accepted d req) (hbios : ∀ done, carry done = false)
    (hvalid : req.rqSector.toNat % 2 ^ 16 ≠ 2 ^ 16 - 1)
    (hstart : (d.hd req.minor).startSect.toNat % 2 ^ 16 ≠ 2 ^ 16 - 1)
    (hin : req.rqSector.toNat < (d.hd req.minor).nrSects.toNat) :
    ∃ later, (doBioshdRequest d carry (req :: queue) []).2 =
      ((d.driveInfo req.drive).passes (d.hdDriveMap req.drive) req.rqCmd
        (req.rqSector + (d.hd req.minor).startSect) req.rqBuffer).flatMap (Pass.actions req) ++
          .endRequest true :: later := by
  have hone := @Geometry.transfer_run d carry req req.drive 6 0
    (req.rqSector + (d.hd req.minor).startSect) req.rqBuffer [] h.geometry h.dma hbios
  have hrequest := @Accepted.bioshdRequest_eq d carry req h []
  rw [if_neg (not_or.mpr ⟨hstart, Nat.not_le.mpr hin⟩)] at hrequest
  rw [h.doBioshdRequest_eq hvalid (hrequest.trans hone)]
  obtain ⟨later, hlater⟩ := @doBioshdRequest_extends d carry queue
    ([] ++ (((d.driveInfo req.drive).passes (d.hdDriveMap req.drive) req.rqCmd
      (req.rqSector + (d.hd req.minor).startSect) req.rqBuffer).flatMap (Pass.actions req) ++
        [.endRequest true]))
  refine ⟨later, hlater.symm.trans ?_⟩
  rw [List.nil_append, List.append_assoc, List.singleton_append]

theorem addresses_nil : ¬ Addresses d req [] := by
  unfold Addresses
  split
  · rintro ⟨passes, later, h, -⟩
    exact absurd h (by simp)
  · rintro ⟨later, h⟩
    exact absurd h (by simp)

theorem EndedInError.not_served (h : EndedInError done)
    (p : DriveInfot) (drive : UInt8) (req : BioshdRequest) (s : Nat) :
    ¬ Served p drive req s done := by
  rintro ⟨passes, later, hdone, -⟩
  obtain ⟨later', herror⟩ := h
  have hsame := @flatMap_actions_inj req _ _ _ _ passes [] (hdone.symm.trans herror)
  exact absurd hsame.2 (by decide)

theorem Accepted.not_endedInError (h : Accepted d req) (hbios : ∀ done, carry done = false)
    (hvalid : req.rqSector.toNat % 2 ^ 16 ≠ 2 ^ 16 - 1)
    (hstart : (d.hd req.minor).startSect.toNat % 2 ^ 16 ≠ 2 ^ 16 - 1)
    (hin : req.rqSector.toNat < (d.hd req.minor).nrSects.toNat) :
    ¬ EndedInError (doBioshdRequest d carry (req :: queue) []).2 := by
  obtain ⟨later, hdone⟩ := @Accepted.doBioshdRequest_passes d carry req queue h hbios hvalid hstart hin
  rintro ⟨later', herror⟩
  have hsame := @flatMap_actions_inj req _ _ _ _ _ [] (hdone.symm.trans herror)
  exact absurd hsame.2 (by decide)

theorem Accepted.served_iff (h : Accepted d req) (hbios : ∀ done, carry done = false)
    (hinside : (d.hd req.minor).startSect.toNat + (d.hd req.minor).nrSects.toNat ≤
      (d.driveInfo req.drive).capacity)
    (hvalid : req.rqSector.toNat % 2 ^ 16 ≠ 2 ^ 16 - 1)
    (hstart : (d.hd req.minor).startSect.toNat % 2 ^ 16 ≠ 2 ^ 16 - 1)
    (hin : req.rqSector.toNat + 1 < (d.hd req.minor).nrSects.toNat) :
    Served (d.driveInfo req.drive) (d.hdDriveMap req.drive) req
        ((d.hd req.minor).startSect.toNat + req.rqSector.toNat)
        (doBioshdRequest d carry (req :: queue) []).2 ↔
      TrackFits (d.driveInfo req.drive).heads.toNatClampNeg
          (((d.hd req.minor).startSect.toNat + req.rqSector.toNat) /
            (d.driveInfo req.drive).sectors.toNatClampNeg) ∧
        TrackFits (d.driveInfo req.drive).heads.toNatClampNeg
          (((d.hd req.minor).startSect.toNat + req.rqSector.toNat + 1) /
            (d.driveInfo req.drive).sectors.toNatClampNeg) := by
  have hcapacity := h.geometry.capacity_lt
  have hsum : (req.rqSector + (d.hd req.minor).startSect).toNat =
      (d.hd req.minor).startSect.toNat + req.rqSector.toNat := by
    rw [UInt32.toNat_add, Nat.add_comm, Nat.mod_eq_of_lt]
    omega
  obtain ⟨later, hdone⟩ := @Accepted.doBioshdRequest_passes d carry req queue h hbios hvalid hstart
    (Nat.lt_of_succ_lt hin)
  have hiff := @Geometry.passes_iff (req.rqSector + (d.hd req.minor).startSect) req.rqBuffer
    (d.driveInfo req.drive) h.geometry (d.hdDriveMap req.drive) req.rqCmd
    (by rw [hsum]; omega) (by rw [hsum]; omega)
  rw [hsum] at hiff
  rw [hdone, ← hiff]
  constructor
  · rintro ⟨passes, later', hsame, hvalid, hmoves⟩
    obtain ⟨rfl, -⟩ := flatMap_actions_inj hsame
    exact ⟨hvalid, hmoves⟩
  · rintro ⟨hvalid, hmoves⟩
    exact ⟨_, later, rfl, hvalid, hmoves⟩

/-- The calls for a request are for its two sectors exactly if their tracks fit, and a
request that does not end in its partition is refused unless only its second sector is
behind the end. -/
theorem doBioshdRequest_addresses_iff
    (h : Accepted d req)
    (hbios : ∀ done, carry done = false)
    (hinside : (d.hd req.minor).startSect.toNat + (d.hd req.minor).nrSects.toNat ≤
      (d.driveInfo req.drive).capacity) :
    Addresses d req (doBioshdRequest d carry (req :: queue) []).2 ↔
      Reaches (d.driveInfo req.drive) (d.hd req.minor) req.rqSector := by
  unfold Reaches
  by_cases hsector : req.rqSector.toNat % 2 ^ 16 = 2 ^ 16 - 1
  · rw [h.doBioshdRequest_ignored hsector]
    exact iff_of_false addresses_nil fun hreaches => hreaches.1 hsector
  · rw [and_iff_right hsector]
    unfold Addresses
    split
    · rename_i hin
      by_cases hstart : (d.hd req.minor).startSect.toNat % 2 ^ 16 = 2 ^ 16 - 1
      · have hrefused := @Accepted.doBioshdRequest_refused d carry req queue h hsector
          (Or.inl hstart)
        exact iff_of_false (hrefused.not_served _ _ _ _) fun hreaches => hreaches.1 hstart
      · rw [and_iff_right hstart]
        exact h.served_iff hbios hinside hsector hstart hin
    · rename_i hout
      by_cases hrefused : (d.hd req.minor).startSect.toNat % 2 ^ 16 = 2 ^ 16 - 1 ∨
          (d.hd req.minor).nrSects.toNat ≤ req.rqSector.toNat
      · refine iff_of_true (h.doBioshdRequest_refused hsector hrefused) fun hlast => ?_
        rcases hrefused with hstart | hle
        · exact hstart
        · omega
      · obtain ⟨hstart, hlt⟩ := not_or.mp hrefused
        refine iff_of_false ?_ fun hreaches => hstart (hreaches (by omega))
        exact h.not_endedInError hbios hsector hstart (Nat.lt_of_not_le hlt)

/-- A disk of 1024 cylinders, 64 heads and 63 sectors, with one partition. -/
def largeDisk (start nr : SectorT) : Driver where
  bioshdInitialized := true
  dmaAvail := true
  driveInfo := fun _ => { cylinders := 1024, sectors := 63, heads := 64 }
  hd := fun _ => { startSect := start, nrSects := nr }
  hdDriveMap := fun _ => 0x80

/-- A read of block 0 of its first partition. -/
def firstBlock : BioshdRequest where
  rqDev := 0x301
  rqCmd := .read
  rqSector := 0
  rqBuffer := 0x4000
  rqSeg := 0x2000
  bhLocked := true

theorem largeDisk_geometry : Geometry { cylinders := 1024, sectors := 63, heads := 64 } :=
  ⟨by decide, by decide, by decide⟩

theorem largeDisk_accepted (start nr : SectorT) : Accepted (largeDisk start nr) firstBlock :=
  ⟨rfl, rfl, rfl, rfl, largeDisk_geometry⟩

theorem doBioshdRequest_addresses_first :
    Addresses (largeDisk 63 1000) firstBlock
      (doBioshdRequest (largeDisk 63 1000) (fun _ => false) [firstBlock] []).2 :=
  (doBioshdRequest_addresses_iff (largeDisk_accepted 63 1000) (fun _ => rfl)
    (by decide)).mpr (by decide)

/-- The first block of a partition that begins on track 32769. -/
theorem track32769_not_addresses :
    ¬ Addresses (largeDisk 2064447 1000) firstBlock
      (doBioshdRequest (largeDisk 2064447 1000) (fun _ => false) [firstBlock] []).2 := by
  have hiff := @Accepted.served_iff _ (fun _ => false) _ [] (largeDisk_accepted 2064447 1000)
    (fun _ => rfl) (by decide) (by decide) (by decide) (by decide)
  unfold Addresses
  rw [if_pos (by decide), hiff]
  decide

end Requests

end Doshd
end Elks
