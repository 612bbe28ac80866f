import Elks.Block.Scan

/-!
# What the partition scan registers, and what it leaves in the cache

A disk in order has a partition table with at most one extended partition, and
from there a chain of extended records that ends, each with at most one data
partition and one link (`OnDisk`).  `follow` says what the scan makes of such a
chain: what it enters into `hd->part[]` and which sectors it leaves in the cache
as block 0 of which minor device; or that it goes on for ever.

A record other than the first is read as block 0 of the very minor that its data
partition gets afterwards, and nobody takes the buffer away.
-/

namespace Elks
namespace Genhd

open Lib Buffer
open Function (update update_eq_self update_idem update_of_ne update_self)

/-- The entry `p` of a table at `base`. -/
def Partition.place (p : Partition) (base : SectorT) : HdStruct :=
  ⟨base + p.startSect, p.nrSects⟩

/-- Whether an entry of a table is an extended partition. -/
def Partition.isLink (p : Partition) : Bool :=
  p.nrSects ≠ 0 && p.isExtended

/-- The data partition that an entry of the record at `this` describes. -/
def dataEntry (this : SectorT) (p : Partition) : Option HdStruct :=
  if p.nrSects = 0 ∨ p.isExtended then none else some (p.place this)

/-- The data partitions of the record at `this`. -/
def dataEntries (this : SectorT) (data : Block) : List HdStruct :=
  (partitions data).filterMap (dataEntry this)

/-- The links of a record. -/
def links (box : HdStruct) (data : Block) : List HdStruct :=
  ((partitions data).filter Partition.isLink).map (·.place box.startSect)

/-- A data partition in the 3rd or 4th entry of the record at `this` is not taken
for garbage. -/
def Plausible (box : HdStruct) (this : SectorT) (e : Nat × Partition) : Prop :=
  2 ≤ e.1 → dataEntry this e.2 ≠ none →
    e.2.garbage box.nrSects this box.startSect box.nrSects = false

instance (box : HdStruct) (this : SectorT) (e : Nat × Partition) :
    Decidable (Plausible box this e) :=
  inferInstanceAs (Decidable (_ → _ → _))

section Disk

variable (bytes : Nat → UInt8)

/-- The data partition of the record at `h`. -/
def dataOf (h : HdStruct) : Option HdStruct :=
  (dataEntries h.startSect (blockFrom bytes h.startSect)).head?

variable (box : HdStruct)

/-- The record that the one at `h` links to. -/
def nextOf (h : HdStruct) : Option HdStruct :=
  (links box (blockFrom bytes h.startSect)).head?

/-- The record at `h` has at most one data partition and one link. -/
structure ValidRecord (h : HdStruct) : Prop where
  magic : magicOk (blockFrom bytes h.startSect) = true
  data : (dataEntries h.startSect (blockFrom bytes h.startSect)).length ≤ 1
  credible : ∀ e ∈ (List.range 4).zip (partitions (blockFrom bytes h.startSect)),
    Plausible box h.startSect e
  link : (links box (blockFrom bytes h.startSect)).length ≤ 1

/-- The records after the one at `h`, to the end of the chain. -/
inductive Chain : HdStruct → List HdStruct → Prop
  | last {h : HdStruct}
      (hrecord : ValidRecord bytes box h)
      (hend : nextOf bytes box h = none) :
      Chain h []
  | link {h h' : HdStruct} {rest : List HdStruct}
      (hrecord : ValidRecord bytes box h)
      (hnext : nextOf bytes box h = some h')
      (hchain : Chain h' rest) :
      Chain h (h' :: rest)

/-- The partition table of a drive. -/
def table : Block :=
  blockFrom bytes 0

/-- The disk has a partition table, and `records` are its extended records. -/
inductive OnDisk : List HdStruct → Prop
  | plain
      (hmagic : magicOk (table bytes) = true)
      (hnone : ∀ p ∈ partitions (table bytes), p.isLink = false) :
      OnDisk []
  | extended {e : Nat} {p : Partition} {rest : List HdStruct}
      (hmagic : magicOk (table bytes) = true)
      (hentry : (partitions (table bytes))[e]? = some p)
      (hlink : p.isLink = true)
      (honly : ∀ e' p', (partitions (table bytes))[e']? = some p' →
        p'.isLink = true → e' = e)
      (hchain : Chain bytes (p.place 0) (p.place 0) rest) :
      OnDisk (p.place 0 :: rest)

/-- The logical partitions, in the order of the chain. -/
def logicals (records : List HdStruct) : List HdStruct :=
  records.filterMap (dataOf bytes)

end Disk

/-- How many minors of a drive are left for logical partitions. -/
def minorLimit : Nat := 2 ^ 6 - 5

/-- What becomes of a primary partition: of an extended one the scan leaves room
for the boot loader. -/
def primaryEntry (p : Partition) : HdStruct :=
  if p.isExtended then ⟨p.startSect, min p.nrSects 2⟩ else ⟨p.startSect, p.nrSects⟩

/-- Drive `u` has been registered: its primary partitions, then its logical
ones, and nothing else. -/
structure Registered (u : Nat) (bytes : Nat → UInt8) (records : List HdStruct)
    (part : Nat → HdStruct) : Prop where
  primary : ∀ i p, (partitions (table bytes))[i]? = some p → p.nrSects ≠ 0 →
    part (u * 2 ^ 6 + 1 + i) = primaryEntry p
  unused : ∀ i p, (partitions (table bytes))[i]? = some p → p.nrSects = 0 →
    (part (u * 2 ^ 6 + 1 + i)).nrSects = 0
  logical : ∀ k h, ((logicals bytes records).take minorLimit)[k]? = some h →
    part (u * 2 ^ 6 + 5 + k) = h
  free : ∀ k, k < minorLimit →
    ((logicals bytes records).take minorLimit)[k]? = none →
    (part (u * 2 ^ 6 + 5 + k)).nrSects = 0

/-- Every valid buffer of drive `u` holds what is on the disk, where its minor
begins. -/
def Agrees (u : Nat) (bytes : Nat → UInt8) (g : Drives) : Prop :=
  ∀ b m, m / 2 ^ 6 = u → (g.cache.buffers b).bDev = mkdev 3 m →
    (g.cache.buffers b).bUptodate = true →
    g.cache.content b = blockFrom bytes
      ((g.part m).startSect + UInt32.ofNat (2 * (g.cache.buffers b).bBlocknr))

/-- The state in which `setup_dev` calls `check_partition` for drive `u`. -/
structure Entry (u : Nat) (bytes : Nat → UInt8) (g : Drives) : Prop where
  unit : u < 4
  drive : g.drive u = bytes
  steady : Steady ∅ ∅ g.cache
  polled : g.cache.requestFn 3 = .polled
  unseen : ∀ b, ¬OfDrive u (g.cache.buffers b).bDev
  current : g.currentMinor = u * 2 ^ 6 + 1
  whole : (g.part (u * 2 ^ 6)).startSect = 0 ∧ (g.part (u * 2 ^ 6)).nrSects ≠ 0
  empty : ∀ m, m / 2 ^ 6 = u → m ≠ u * 2 ^ 6 → (g.part m).nrSects = 0

/-- The scan of drive `u` returns, the table has the partitions of the disk, and
the cache agrees with the disk. -/
def Correct (u : Nat) (bytes : Nat → UInt8) (records : List HdStruct)
    (g : Drives) : Prop :=
  ∃ fuel g', checkPartition bioshdGendisk fuel (mkdev 3 (u * 2 ^ 6)) g =
      .ok ((), g') ∧
    Registered u bytes records g'.part ∧ Agrees u bytes g'

section Follow

variable (bytes : Nat → UInt8)

/-- What the scan makes of records that it follows links to, from minor `c` on:
the entries it leaves in the table from `c` on and the sectors it leaves in the
cache as block 0 of a minor; nothing if it reads one record for ever. -/
def follow : Nat → List HdStruct →
    Option (List HdStruct × List (Nat × SectorT))
  | _, [] => some ([], [])
  | c, h :: rest =>
      if refuses h 0 then
        some ([h], [])
      else
        match dataOf bytes h with
        | none =>
            if rest = [] then some ([h], [(c, h.startSect)]) else none
        | some d =>
            if lastMinor bioshdGendisk (c + 1) then
              some ([d], [(c, h.startSect)])
            else
              (follow (c + 1) rest).map fun r =>
                (d :: r.1, (c, h.startSect) :: r.2)

/-- The same for the whole chain, whose first record is read through the minor
`e` of the extended partition. -/
def scanChain (box : HdStruct) (e c : Nat) (rest : List HdStruct) :
    Option (List HdStruct × List (Nat × SectorT)) :=
  if refuses box 0 then
    some ([], [])
  else
    match dataOf bytes box with
    | none =>
        (follow bytes c rest).map fun r => (r.1, (e, box.startSect) :: r.2)
    | some d =>
        if lastMinor bioshdGendisk (c + 1) then
          some ([d], [(e, box.startSect)])
        else
          (follow bytes (c + 1) rest).map fun r =>
            (d :: r.1, (e, box.startSect) :: r.2)

end Follow

/-- The tables after a data partition has been entered. -/
def Drives.enter (g : Drives) (d : HdStruct) : Drives :=
  { g with
    part := update g.part g.currentMinor d
    currentMinor := g.currentMinor + 1 }

/-- The tables with the current minor put on the next record. -/
def Drives.aim (g : Drives) (h : HdStruct) : Drives :=
  { g with part := update g.part g.currentMinor h }

section Record

variable {box d h : HdStruct} {this : SectorT} {data : Block} {g : Drives}
  {hd : Gendisk} {hdp : Nat} {l : List (Nat × Partition)}

theorem dataPartitions_skip {e : Nat × Partition} (he : dataEntry this e.2 = none) :
    dataPartitions hd box.nrSects this box.startSect box.nrSects (e :: l) g =
      dataPartitions hd box.nrSects this box.startSect box.nrSects l g := by
  unfold dataEntry at he
  split at he
  · rename_i hskip
    rw [dataPartitions, if_pos hskip]
  · cases he

theorem dataPartitions_none (hl : l.filterMap (dataEntry this ·.2) = []) :
    dataPartitions hd box.nrSects this box.startSect box.nrSects l g =
      .ok (false, g) := by
  induction l with
  | nil => rfl
  | cons e l ih =>
      rw [List.filterMap_cons] at hl
      cases he : dataEntry this e.2 with
      | none =>
          rw [he] at hl
          rw [dataPartitions_skip he]
          exact ih hl
      | some d =>
          rw [he] at hl
          cases hl

theorem dataPartitions_one (hl : l.filterMap (dataEntry this ·.2) = [d])
    (hok : ∀ e ∈ l, Plausible box this e) :
    dataPartitions hd box.nrSects this box.startSect box.nrSects l g =
      .ok (lastMinor hd (g.currentMinor + 1), g.enter d) := by
  induction l with
  | nil => cases hl
  | cons e l ih =>
      rw [List.filterMap_cons] at hl
      have hrest : ∀ e ∈ l, Plausible box this e :=
        fun e he => hok e (List.mem_cons_of_mem _ he)
      cases he : dataEntry this e.2 with
      | none =>
          rw [he] at hl
          rw [dataPartitions_skip he]
          exact ih hl hrest
      | some d' =>
          rw [he] at hl
          obtain ⟨rfl, hnone⟩ := List.cons.inj hl
          have hplausible : ¬(2 ≤ e.1 ∧
              e.2.garbage box.nrSects this box.startSect box.nrSects) := by
            rintro ⟨hi, hbad⟩
            have hgood := hok e List.mem_cons_self hi (by rw [he]; simp)
            rw [hgood] at hbad
            cases hbad
          unfold dataEntry at he
          split at he
          · cases he
          · rename_i hdata
            obtain rfl := Option.some.inj he
            rw [dataPartitions, if_neg hdata, if_neg hplausible,
              run_bind_ok run_get, addPartition, setPart, run_bind_ok run_modify,
              run_bind_ok run_modify]
            cases hlast : lastMinor hd (g.currentMinor + 1) with
            | true => rfl
            | false =>
                rw [if_neg Bool.false_ne_true, dataPartitions_none hnone]
                rfl

theorem filterMap_zip (data : Block) :
    ((List.range 4).zip (partitions data)).filterMap (dataEntry this ·.2) =
      dataEntries this data :=
  rfl

theorem find_link (box : HdStruct) (data : Block) :
    ((partitions data).find? Partition.isLink).map (·.place box.startSect) =
      (links box data).head? := by
  unfold links
  rw [List.head?_map, List.head?_filter]

theorem extendedRecord_link (hmagic : magicOk data = true)
    (hsize : (g.part hdp).nrSects = box.nrSects) {g' : Drives}
    (hparts : dataPartitions hd box.nrSects this box.startSect box.nrSects
      ((List.range 4).zip (partitions data)) g = .ok (false, g')) :
    extendedRecord hd hdp box.startSect box.nrSects this data g =
      .ok (((links box data).head?).elim (none, g') fun h =>
        (some h.startSect, g'.aim h)) := by
  unfold extendedRecord
  rw [if_neg (by simp [hmagic]), run_bind_ok run_get, hsize,
    run_bind_ok hparts, ← find_link]
  have hpred : (fun p : Partition => decide (p.nrSects ≠ 0) && p.isExtended) =
      Partition.isLink := rfl
  rw [if_neg Bool.false_ne_true, hpred]
  cases (partitions data).find? Partition.isLink with
  | none => rfl
  | some p => rfl

theorem extendedRecord_empty (hmagic : magicOk data = true)
    (hsize : (g.part hdp).nrSects = box.nrSects) (hdata : dataEntries this data = []) :
    extendedRecord hd hdp box.startSect box.nrSects this data g =
      .ok (((links box data).head?).elim (none, g) fun h =>
        (some h.startSect, g.aim h)) :=
  extendedRecord_link hmagic hsize
    (dataPartitions_none ((filterMap_zip data).trans hdata))

theorem extendedRecord_data (hmagic : magicOk data = true)
    (hsize : (g.part hdp).nrSects = box.nrSects) (hdata : dataEntries this data = [d])
    (hok : ∀ e ∈ (List.range 4).zip (partitions data), Plausible box this e) :
    extendedRecord hd hdp box.startSect box.nrSects this data g =
      .ok (if lastMinor hd (g.currentMinor + 1) then
          (none, g.enter d)
        else
          ((links box data).head?).elim (none, g.enter d) fun h =>
            (some h.startSect, (g.enter d).aim h)) := by
  have hparts : dataPartitions hd box.nrSects this box.startSect box.nrSects
      ((List.range 4).zip (partitions data)) g =
        .ok (lastMinor hd (g.currentMinor + 1), g.enter d) :=
    dataPartitions_one ((filterMap_zip data).trans hdata) hok
  cases hlast : lastMinor hd (g.currentMinor + 1) with
  | true =>
      rw [hlast] at hparts
      unfold extendedRecord
      rw [if_neg (by simp [hmagic]), run_bind_ok run_get, hsize,
        run_bind_ok hparts]
      rfl
  | false =>
      rw [hlast] at hparts
      rw [if_neg Bool.false_ne_true]
      exact extendedRecord_link hmagic hsize hparts

end Record

/-- The state in which the loop comes to a record: `held` are the buffers in
use, `e` is the minor of the extended partition and `c` the current one. -/
structure AtRecord (u : Nat) (bytes : Nat → UInt8) (held : Finset Bh)
    (e : Nat) (box : HdStruct) (c : Nat) (L : List (Nat × SectorT))
    (g : Drives) : Prop where
  scanning : ∃ bound ≤ c, Scanning u bytes held bound L g
  unit : u < 4
  few : held.card < nrMapbufs - 1
  below : e < c
  range : c / 2 ^ 6 = u
  inside : c % 2 ^ 6 ≠ 0
  current : g.currentMinor = c
  box : (g.part e).nrSects = box.nrSects

section Loop

variable {u e c n fuel rounds bound : Nat} {bytes : Nat → UInt8} {held : Finset Bh}
  {box h h' : HdStruct} {L L' : List (Nat × SectorT)} {g g' : Drives} {A : Fault → Prop}
  {Q : Unit → Drives → Prop} {rest ps : List HdStruct} {r : List HdStruct × List (Nat × SectorT)}
  {c' : Buffers} {x : Nat × SectorT}

/-- What the loop does after a record. -/
def afterRecord (fuel e : Nat) (box : HdStruct) (rounds : Nat) :
    Option SectorT → Scan Unit
  | none => pure ()
  | some sector => do
      let g ← get
      extendedLoop bioshdGendisk fuel e box.startSect box.nrSects rounds
        (mkdev 3 g.currentMinor) sector

theorem extendedLoop_succ (fuel e : Nat) (box : HdStruct) (rounds dev : Nat) (this : SectorT)
    (hlast : lastMinor bioshdGendisk g.currentMinor = false) :
    extendedLoop bioshdGendisk fuel e box.startSect box.nrSects (rounds + 1) dev
        this g =
      (do
        let found ← readRecord fuel dev
        match found with
        | none => pure ()
        | some (bh, data) => do
            let next ← extendedRecord bioshdGendisk e box.startSect box.nrSects
              this data
            cacheCall (unmapBrelse (fuel + 2) bh)
            afterRecord fuel e box rounds next) g := by
  rw [extendedLoop, run_bind_ok run_get, hlast, if_neg Bool.false_ne_true]
  rfl

theorem outcome_round {m bound : Nat} (next : Option SectorT) (g' : Drives)
    (hg : Scanning u bytes held bound L g) (hu : u < 4) (hm : m / 2 ^ 6 = u) (hbound : bound ≤ m)
    (hcard : held.card < nrMapbufs - 1) (hlast : lastMinor bioshdGendisk g.currentMinor = false)
    (hdrive : g'.drive = g.drive)
    (hrecord : refuses (g.part m) 0 = false → ∀ c,
      extendedRecord bioshdGendisk e box.startSect box.nrSects
          (g.part m).startSect (blockFrom bytes (g.part m).startSect)
          { g with cache := c } =
        .ok (next, { g' with cache := c }))
    (hnone : refuses (g.part m) 0 = true → ∀ c,
      Scanning u bytes held (m + 1) L { g with cache := c } →
      (∀ k, Kept bytes (k + 1) L g.cache → Kept bytes k L c) →
      Q () { g with cache := c })
    (hsome : refuses (g.part m) 0 = false → ∀ bh c, bh ∉ held →
      Scanning u bytes held (m + 1) (L ++ [(m, (g.part m).startSect)])
        { g' with cache := c } →
      Cell bytes m (g.part m).startSect c bh →
      (∀ k, Kept bytes (k + 1) L g.cache →
        Kept bytes k (L ++ [(m, (g.part m).startSect)]) c) →
      Outcome A (afterRecord fuel e box rounds next) { g' with cache := c } Q) :
    Outcome A (extendedLoop bioshdGendisk fuel e box.startSect box.nrSects
      (rounds + 1) (mkdev 3 m) (g.part m).startSect) g Q := by
  have hstep := extendedLoop_succ fuel e box rounds (mkdev 3 m)
    (g.part m).startSect hlast
  unfold Outcome
  rw [hstep]
  refine Outcome.bind (R := fun found g₁ =>
      (found = none ∧ Q () g₁) ∨
      ∃ bh c, found = some (bh, blockFrom bytes (g.part m).startSect) ∧
        g₁ = { g with cache := c } ∧ refuses (g.part m) 0 = false ∧ bh ∉ held ∧
        Scanning u bytes (insert bh held) (m + 1)
          (L ++ [(m, (g.part m).startSect)]) g₁ ∧
        Cell bytes m (g.part m).startSect c bh ∧
        ∀ k, Kept bytes (k + 1) L g.cache →
          Kept bytes k (L ++ [(m, (g.part m).startSect)]) c)
    (outcome_read hg hm hu hbound hcard ?_ ?_) ?_
  · intro hrefused c hscan hkept
    exact Or.inl ⟨rfl, hnone hrefused c hscan hkept⟩
  · intro hread bh c hbh hscan hcell hkept
    exact Or.inr ⟨bh, c, rfl, rfl, hread, hbh, hscan, hcell, hkept⟩
  · rintro found g₁ (⟨rfl, hQ⟩ | ⟨bh, c, rfl, rfl, hread, hbh, hscan, hcell, hkept⟩)
    · exact Outcome.pure hQ
    · have hrun := run_bind_ok (f := fun next => do
          cacheCall (unmapBrelse (fuel + 2) bh)
          afterRecord fuel e box rounds next) (hrecord hread c)
      dsimp only
      unfold Outcome
      rw [hrun]
      have hscan' : Scanning u bytes (insert bh held) (m + 1)
          (L ++ [(m, (g.part m).startSect)]) { g' with cache := c } :=
        ⟨hscan.steady, hscan.polled, by rw [hdrive]; exact hg.drive, hscan.cells⟩
      refine Outcome.bind (R := fun _ g₂ => ∃ c', g₂ = { g' with cache := c' } ∧
          Scanning u bytes held (m + 1) (L ++ [(m, (g.part m).startSect)]) g₂ ∧
          Cell bytes m (g.part m).startSect c' bh ∧
          ∀ k, Kept bytes (k + 1) L g.cache →
            Kept bytes k (L ++ [(m, (g.part m).startSect)]) c')
        (outcome_release hscan' hbh ?_) ?_
      · intro c' hscan'' hsame hkept'
        exact ⟨c', rfl, hscan'', hsame _ _ _ hcell,
          fun k hk => hkept' k _ (hkept k hk)⟩
      · rintro _ g₂ ⟨c', rfl, hscan'', hcell', hkept'⟩
        exact hsome hread bh c' hbh hscan'' hcell' hkept'

/-- The table with `hs` entered from minor `c` on. -/
def setFrom (part : Nat → HdStruct) : Nat → List HdStruct → Nat → HdStruct
  | _, [] => part
  | c, h :: hs => setFrom (update part c h) (c + 1) hs

theorem setFrom_update {part : Nat → HdStruct} {hs : List HdStruct} (hne : hs ≠ []) :
    setFrom (update part c h) c hs = setFrom part c hs := by
  cases hs with
  | nil => exact absurd rfl hne
  | cons h' hs =>
      rw [setFrom, setFrom, update_idem]

theorem follow_ne_nil (hr : follow bytes c (h :: rest) = some r) : r.1 ≠ [] := by
  rw [follow] at hr
  split at hr
  · obtain rfl := Option.some.inj hr
    simp
  · split at hr
    · split at hr
      · obtain rfl := Option.some.inj hr
        simp
      · cases hr
    · split at hr
      · obtain rfl := Option.some.inj hr
        simp
      · obtain ⟨r', -, rfl⟩ := Option.map_eq_some_iff.mp hr
        simp

theorem dataEntries_nil {this : SectorT} {data : Block}
    (hnil : dataEntries this data = []) (this' : SectorT) : dataEntries this' data = [] := by
  rw [dataEntries, List.filterMap_eq_nil_iff] at hnil ⊢
  intro p hp
  have hnone := hnil p hp
  unfold dataEntry at hnone ⊢
  split at hnone
  · rename_i hskip
    rw [if_pos hskip]
  · cases hnone

theorem ValidRecord.entries (hrecord : ValidRecord bytes box h) :
    dataEntries h.startSect (blockFrom bytes h.startSect) =
      (dataOf bytes h).toList := by
  have hlen := hrecord.data
  unfold dataOf
  generalize dataEntries h.startSect (blockFrom bytes h.startSect) = l at hlen ⊢
  cases l with
  | nil => rfl
  | cons d l =>
      cases l with
      | nil => rfl
      | cons d' l => simp at hlen

/-- What the scan of the rest of a chain leaves, from minor `c` on. -/
structure Followed (u : Nat) (bytes : Nat → UInt8) (held : Finset Bh) (c : Nat)
    (L : List (Nat × SectorT)) (r : List HdStruct × List (Nat × SectorT))
    (g g' : Drives) : Prop where
  part : g'.part = setFrom g.part c r.1
  scanning : ∃ bound, Scanning u bytes held bound (L ++ r.2) g'
  kept : ∀ k, Kept bytes (k + ((u + 1) * 2 ^ 6 - c)) L g.cache →
    Kept bytes k (L ++ r.2) g'.cache

theorem lastMinor_eq_false :
    lastMinor bioshdGendisk c = false ↔ c % 2 ^ 6 ≠ 0 :=
  decide_eq_false_iff_not

theorem AtRecord.notLast (hg : AtRecord u bytes held e box c L g) :
    lastMinor bioshdGendisk g.currentMinor = false := by
  rw [hg.current]
  exact lastMinor_eq_false.mpr hg.inside

theorem AtRecord.room (hg : AtRecord u bytes held e box c L g) : c < (u + 1) * 2 ^ 6 := by
  have hrange := hg.range
  omega

theorem AtRecord.followed (hg : AtRecord u bytes held e box c L g)
    (hscan : Scanning u bytes held bound (L ++ L') { g' with cache := c' })
    (hkept : ∀ k, Kept bytes (k + 1) L g.cache → Kept bytes k (L ++ L') c')
    (hpart : g'.part = setFrom g.part c ps) :
    Followed u bytes held c L (ps, L') g { g' with cache := c' } where
  part := hpart
  scanning := ⟨bound, hscan⟩
  kept := by
    intro k hk
    have hroom := hg.room
    exact hkept k (hk.mono (by omega))

theorem AtRecord.next {d h' : HdStruct} (hg : AtRecord u bytes held e box c L g)
    (hbound : bound ≤ c + 1) (hlast : lastMinor bioshdGendisk (c + 1) = false)
    (hscan : Scanning u bytes held bound L'
      { (g.enter d).aim h' with cache := c' }) :
    AtRecord u bytes held e box (c + 1) L'
      { (g.enter d).aim h' with cache := c' } := by
  have hinside : (c + 1) % 2 ^ 6 ≠ 0 := lastMinor_eq_false.mp hlast
  have hrange := hg.range
  have hbelow := hg.below
  refine ⟨⟨bound, hbound, hscan⟩, hg.unit, hg.few, by omega, by omega, hinside,
    congrArg (· + 1) hg.current, ?_⟩
  simp only [Drives.aim, Drives.enter, hg.current]
  rw [update_of_ne (by omega), update_of_ne (by omega)]
  exact hg.box

theorem afterRecord_some (fuel e : Nat) (box : HdStruct) (rounds : Nat) (sector : SectorT)
    (hcurrent : g.currentMinor = c) :
    afterRecord fuel e box rounds (some sector) g =
      extendedLoop bioshdGendisk fuel e box.startSect box.nrSects rounds
        (mkdev 3 c) sector g := by
  rw [afterRecord, run_bind_ok run_get, hcurrent]

theorem outcome_refused (hg : AtRecord u bytes held e box c L g)
    (hrefused : refuses (g.part c) 0 = true) :
    Outcome A (extendedLoop bioshdGendisk fuel e box.startSect box.nrSects
      (rounds + 1) (mkdev 3 c) (g.part c).startSect) g fun _ =>
        Followed u bytes held c L ([g.part c], []) g := by
  obtain ⟨bound, hbound, hscan⟩ := hg.scanning
  have hself : g.part = setFrom g.part c [g.part c] :=
    (update_eq_self c g.part).symm
  refine outcome_round none g hscan hg.unit hg.range hbound hg.few hg.notLast
    rfl ?_ ?_ ?_
  · intro hread
    rw [hrefused] at hread
    cases hread
  · intro _ c' hscan' hkept
    have hscan'' : Scanning u bytes held (c + 1) (L ++ []) { g with cache := c' } := by
      rw [List.append_nil]
      exact hscan'
    refine hg.followed hscan'' ?_ hself
    rw [List.append_nil]
    exact hkept
  · intro hread
    rw [hrefused] at hread
    cases hread

theorem outcome_lastRecord (ps : List HdStruct) (g' : Drives)
    (hg : AtRecord u bytes held e box c L g) (hread : refuses (g.part c) 0 = false)
    (hdrive : g'.drive = g.drive) (hpart : g'.part = setFrom g.part c ps)
    (hrecord : ∀ c', extendedRecord bioshdGendisk e box.startSect box.nrSects
        (g.part c).startSect (blockFrom bytes (g.part c).startSect)
        { g with cache := c' } =
      .ok (none, { g' with cache := c' })) :
    Outcome A (extendedLoop bioshdGendisk fuel e box.startSect box.nrSects
      (rounds + 1) (mkdev 3 c) (g.part c).startSect) g fun _ =>
        Followed u bytes held c L (ps, [(c, (g.part c).startSect)]) g := by
  obtain ⟨bound, hbound, hscan⟩ := hg.scanning
  refine outcome_round none g' hscan hg.unit hg.range hbound hg.few hg.notLast
    hdrive (fun _ => hrecord) ?_ ?_
  · intro hrefused
    rw [hread] at hrefused
    cases hrefused
  · intro _ bh c' _ hscan' _ hkept
    exact Outcome.pure (hg.followed hscan' hkept hpart)

theorem outcome_dataRound {d h' : HdStruct} (hg : AtRecord u bytes held e box c L g)
    (hread : refuses (g.part c) 0 = false) (hlast : lastMinor bioshdGendisk (c + 1) = false)
    (hrecord : ValidRecord bytes box (g.part c)) (hdata : dataOf bytes (g.part c) = some d)
    (hnext : nextOf bytes box (g.part c) = some h')
    (hloop : ∀ c', AtRecord u bytes held e box (c + 1)
        (L ++ [(c, (g.part c).startSect)]) { (g.enter d).aim h' with cache := c' } →
      (∀ k, Kept bytes (k + 1) L g.cache →
        Kept bytes k (L ++ [(c, (g.part c).startSect)]) c') →
      Outcome A (extendedLoop bioshdGendisk fuel e box.startSect box.nrSects
        rounds (mkdev 3 (c + 1)) h'.startSect)
        { (g.enter d).aim h' with cache := c' } Q) :
    Outcome A (extendedLoop bioshdGendisk fuel e box.startSect box.nrSects
      (rounds + 1) (mkdev 3 c) (g.part c).startSect) g Q := by
  obtain ⟨bound, hbound, hscan⟩ := hg.scanning
  have hcurrent : (g.enter d).currentMinor = c + 1 := congrArg (· + 1) hg.current
  refine outcome_round (some h'.startSect) ((g.enter d).aim h') hscan hg.unit
    hg.range hbound hg.few hg.notLast rfl ?_ ?_ ?_
  · intro _ c'
    have hentries := hrecord.entries
    rw [hdata, Option.toList_some] at hentries
    have hlinks : (links box (blockFrom bytes (g.part c).startSect)).head? = some h' := hnext
    have hsize : (({ g with cache := c' } : Drives).part e).nrSects = box.nrSects := hg.box
    rw [extendedRecord_data hrecord.magic hsize hentries hrecord.credible, hlinks]
    have hnow := hg.current
    subst hnow
    dsimp only
    rw [hlast]
    rfl
  · intro hrefused
    rw [hread] at hrefused
    cases hrefused
  · intro _ bh c' _ hscan' _ hkept
    have hrun := afterRecord_some (g := { (g.enter d).aim h' with cache := c' })
      fuel e box rounds h'.startSect hcurrent
    unfold Outcome
    rw [hrun]
    exact hloop c' (hg.next le_rfl hlast hscan') hkept

theorem Followed.cons {d h' : HdStruct} {g₂ : Drives} (hg : AtRecord u bytes held e box c L g)
    (hne : ps ≠ [])
    (hkept : ∀ k, Kept bytes (k + 1) L g.cache →
      Kept bytes k (L ++ [(c, (g.part c).startSect)]) c')
    (hf : Followed u bytes held (c + 1) (L ++ [(c, (g.part c).startSect)]) (ps, L')
      { (g.enter d).aim h' with cache := c' } g₂) :
    Followed u bytes held c L (d :: ps, (c, (g.part c).startSect) :: L') g g₂ := by
  have hroom := hg.room
  constructor
  · rw [hf.part, setFrom]
    simp only [Drives.aim, Drives.enter, hg.current]
    exact setFrom_update hne
  · obtain ⟨bound', hs⟩ := hf.scanning
    rw [List.append_assoc] at hs
    exact ⟨bound', hs⟩
  · intro k hk
    have hk' : Kept bytes ((k + ((u + 1) * 2 ^ 6 - (c + 1))) + 1) L g.cache :=
      hk.mono (by omega)
    have hend := hf.kept k (hkept _ hk')
    rw [List.append_assoc] at hend
    exact hend

theorem outcome_endRecord {d : HdStruct} (hg : AtRecord u bytes held e box c L g)
    (hread : refuses (g.part c) 0 = false) (hrecord : ValidRecord bytes box (g.part c))
    (hdata : dataOf bytes (g.part c) = some d)
    (hend : lastMinor bioshdGendisk (c + 1) = true ∨
      nextOf bytes box (g.part c) = none) :
    Outcome A (extendedLoop bioshdGendisk fuel e box.startSect box.nrSects
      (rounds + 1) (mkdev 3 c) (g.part c).startSect) g fun _ =>
        Followed u bytes held c L ([d], [(c, (g.part c).startSect)]) g := by
  have hentries := hrecord.entries
  rw [hdata, Option.toList_some] at hentries
  refine outcome_lastRecord [d] (g.enter d) hg hread rfl ?_ ?_
  · simp only [Drives.enter, hg.current]
    rfl
  · intro c'
    have hsize : (({ g with cache := c' } : Drives).part e).nrSects = box.nrSects :=
      hg.box
    rw [extendedRecord_data hrecord.magic hsize hentries hrecord.credible]
    have hcurrent := hg.current
    subst hcurrent
    dsimp only
    rcases hend with hlast | hnone
    · rw [hlast]
      rfl
    · have hlinks : (links box
          (blockFrom bytes (g.part g.currentMinor).startSect)).head? = none := hnone
      rw [hlinks]
      split <;> rfl

/-- **The loop follows the chain.**  From a record that has been linked to, the
scan enters and caches what `follow` says. -/
theorem outcome_follow (hchain : Chain bytes box h rest) :
    ∀ {c L g rounds r}, AtRecord u bytes held e box c L g → g.part c = h →
      follow bytes c (h :: rest) = some r →
      rest.length < rounds ∨ A .endless →
      Outcome A (extendedLoop bioshdGendisk fuel e box.startSect box.nrSects
        rounds (mkdev 3 c) h.startSect) g fun _ => Followed u bytes held c L r g := by
  -- induction along the chain; the minor and the cache grow with it
  induction hchain with
  | @last h hrecord hend =>
      intro c L g rounds r hg hpart hr hrounds
      obtain _ | n := rounds
      · exact hrounds.resolve_left (Nat.not_lt_zero _)
      subst hpart
      rw [follow] at hr
      cases hrefused : refuses (g.part c) 0 with
      | true =>
          rw [hrefused, if_pos rfl] at hr
          obtain rfl := Option.some.inj hr
          exact outcome_refused hg hrefused
      | false =>
          rw [hrefused, if_neg Bool.false_ne_true] at hr
          cases hdata : dataOf bytes (g.part c) with
          | none =>
              rw [hdata] at hr
              obtain rfl := Option.some.inj hr
              have hentries := hrecord.entries
              rw [hdata, Option.toList_none] at hentries
              have hlinks :
                  (links box (blockFrom bytes (g.part c).startSect)).head? =
                    none := hend
              refine outcome_lastRecord [g.part c] g hg hrefused rfl
                (update_eq_self c g.part).symm ?_
              intro c'
              have hsize : (({ g with cache := c' } : Drives).part e).nrSects =
                  box.nrSects := hg.box
              rw [extendedRecord_empty hrecord.magic hsize hentries, hlinks]
              rfl
          | some d =>
              rw [hdata] at hr
              have hr' : r = ([d], [(c, (g.part c).startSect)]) := by
                cases hlast : lastMinor bioshdGendisk (c + 1) with
                | true =>
                    rw [hlast] at hr
                    exact (Option.some.inj hr).symm
                | false =>
                    rw [hlast] at hr
                    exact (Option.some.inj hr).symm
              subst hr'
              exact outcome_endRecord hg hrefused hrecord hdata (Or.inr hend)
  | @link h h' rest hrecord hnext hchain ih =>
      intro c L g rounds r hg hpart hr hrounds
      obtain _ | n := rounds
      · exact hrounds.resolve_left (Nat.not_lt_zero _)
      subst hpart
      rw [follow] at hr
      cases hrefused : refuses (g.part c) 0 with
      | true =>
          rw [hrefused, if_pos rfl] at hr
          obtain rfl := Option.some.inj hr
          exact outcome_refused hg hrefused
      | false =>
          rw [hrefused, if_neg Bool.false_ne_true] at hr
          cases hdata : dataOf bytes (g.part c) with
          | none =>
              rw [hdata] at hr
              cases hr
          | some d =>
              rw [hdata] at hr
              cases hlast : lastMinor bioshdGendisk (c + 1) with
              | true =>
                  rw [hlast] at hr
                  obtain rfl := Option.some.inj hr
                  exact outcome_endRecord hg hrefused hrecord hdata
                    (Or.inl hlast)
              | false =>
                  rw [hlast] at hr
                  obtain ⟨r', hr', rfl⟩ := Option.map_eq_some_iff.mp hr
                  refine outcome_dataRound hg hrefused hlast hrecord hdata hnext ?_
                  intro c' hat hkept
                  have haimed : ((g.enter d).aim h').part (c + 1) = h' := by
                    simp [Drives.aim, Drives.enter, hg.current]
                  refine (ih hat haimed hr' (hrounds.imp_left Nat.lt_of_succ_lt_succ)).mono ?_
                  exact fun _ _ hf => hf.cons hg (follow_ne_nil hr') hkept

theorem outcome_endless {s : SectorT} {bh : Bh} (hmagic : magicOk (blockFrom bytes s) = true)
    (hdata : ∀ this, dataEntries this (blockFrom bytes s) = [])
    (hlink : (links box (blockFrom bytes s)).head? = some h') (hrange : c / 2 ^ 6 = u) (hne : e ≠ c)
    (hlast : lastMinor bioshdGendisk c = false) (hcard : held.card < nrMapbufs - 1)
    (hbh : bh ∉ held) :
    ∀ rounds g this, Scanning u bytes held bound L g →
      Cell bytes c s g.cache bh → g.currentMinor = c →
      (g.part e).nrSects = box.nrSects →
      Outcome (fun _ => True) (extendedLoop bioshdGendisk fuel e box.startSect
        box.nrSects rounds (mkdev 3 c) this) g fun _ _ => False := by
  intro rounds
  induction rounds with
  | zero =>
      intro g this _ _ _ _
      exact trivial
  | succ rounds ih =>
      intro g this hg hcell hcurrent hsize
      have hstep := extendedLoop_succ (g := g) fuel e box rounds (mkdev 3 c) this
        (by rw [hcurrent]; exact hlast)
      unfold Outcome
      rw [hstep]
      refine Outcome.bind (R := fun found g₁ => ∃ c₁,
          found = some (bh, blockFrom bytes s) ∧ g₁ = { g with cache := c₁ } ∧
          Scanning u bytes (insert bh held) bound L g₁ ∧ Cell bytes c s c₁ bh)
        (outcome_reread hg hrange hcard hbh hcell ?_) ?_
      · intro c₁ hscan hcell₁
        exact ⟨c₁, rfl, rfl, hscan, hcell₁⟩
      · rintro found g₁ ⟨c₁, rfl, rfl, hscan, hcell₁⟩
        have hrecord : extendedRecord bioshdGendisk e box.startSect box.nrSects
            this (blockFrom bytes s) { g with cache := c₁ } =
              .ok (some h'.startSect, { g.aim h' with cache := c₁ }) := by
          have hsize' : (({ g with cache := c₁ } : Drives).part e).nrSects =
              box.nrSects := hsize
          rw [extendedRecord_empty hmagic hsize' (hdata this), hlink]
          rfl
        have hrun := run_bind_ok (f := fun next => do
          cacheCall (unmapBrelse (fuel + 2) bh)
          afterRecord fuel e box rounds next) hrecord
        dsimp only
        unfold Outcome
        rw [hrun]
        refine Outcome.bind (R := fun _ g₂ => ∃ c₂,
            g₂ = { g.aim h' with cache := c₂ } ∧
            Scanning u bytes held bound L g₂ ∧ Cell bytes c s c₂ bh)
          (outcome_release (g := { g.aim h' with cache := c₁ })
            ⟨hscan.steady, hscan.polled, hg.drive, hscan.cells⟩ hbh ?_) ?_
        · intro c₂ hscan₂ hsame _
          exact ⟨c₂, rfl, hscan₂, hsame _ _ _ hcell₁⟩
        · rintro _ g₂ ⟨c₂, rfl, hscan₂, hcell₂⟩
          have hloop := ih { g.aim h' with cache := c₂ } h'.startSect hscan₂
            hcell₂ hcurrent (by
              simp only [Drives.aim, hcurrent, update_of_ne hne]
              exact hsize)
          have hafter := afterRecord_some (g := { g.aim h' with cache := c₂ })
            fuel e box rounds h'.startSect hcurrent
          unfold Outcome
          rw [hafter]
          exact hloop

/-- **The loop never ends** where `follow` says so. -/
theorem outcome_follow_none (hchain : Chain bytes box h rest) :
    ∀ {c L g rounds}, AtRecord u bytes held e box c L g → g.part c = h →
      follow bytes c (h :: rest) = none →
      Outcome (fun _ => True) (extendedLoop bioshdGendisk fuel e box.startSect
        box.nrSects rounds (mkdev 3 c) h.startSect) g fun _ _ => False := by
  induction hchain with
  | @last h hrecord hend =>
      intro c L g rounds hg hpart hr
      rw [follow] at hr
      split at hr
      · cases hr
      · split at hr
        · cases hr
        · split at hr <;> cases hr
  | @link h h' rest hrecord hnext hchain ih =>
      intro c L g rounds hg hpart hr
      subst hpart
      cases rounds with
      | zero => exact trivial
      | succ rounds =>
          obtain ⟨bound, hbound, hscan⟩ := hg.scanning
          have hlinks : (links box (blockFrom bytes (g.part c).startSect)).head? =
              some h' := hnext
          rw [follow] at hr
          cases hrefused : refuses (g.part c) 0 with
          | true =>
              rw [hrefused, if_pos rfl] at hr
              cases hr
          | false =>
              rw [hrefused, if_neg Bool.false_ne_true] at hr
              have hnone : refuses (g.part c) 0 = true → ∀ c',
                  Scanning u bytes held (c + 1) L { g with cache := c' } →
                  (∀ k, Kept bytes (k + 1) L g.cache → Kept bytes k L c') →
                  False := by
                intro htrue
                rw [hrefused] at htrue
                cases htrue
              have hentries := hrecord.entries
              cases hdata : dataOf bytes (g.part c) with
              | none =>
                  rw [hdata, Option.toList_none] at hentries
                  refine outcome_round (some h'.startSect) (g.aim h') hscan hg.unit
                    hg.range hbound hg.few hg.notLast rfl ?_ hnone ?_
                  · intro _ c'
                    have hsize : (({ g with cache := c' } : Drives).part e).nrSects =
                        box.nrSects := hg.box
                    rw [extendedRecord_empty hrecord.magic hsize hentries, hlinks]
                    rfl
                  · intro _ bh c' hbh hscan' hcell _
                    have hne : e ≠ c := Nat.ne_of_lt hg.below
                    have hafter := afterRecord_some
                      (g := { g.aim h' with cache := c' }) fuel e box rounds
                      h'.startSect hg.current
                    unfold Outcome
                    rw [hafter]
                    refine outcome_endless hrecord.magic (dataEntries_nil hentries)
                      hlinks hg.range hne (lastMinor_eq_false.mpr hg.inside)
                      hg.few hbh rounds _ _ hscan' hcell hg.current ?_
                    simp only [Drives.aim, hg.current, update_of_ne hne]
                    exact hg.box
              | some d =>
                  rw [hdata] at hr
                  cases hlast : lastMinor bioshdGendisk (c + 1) with
                  | true =>
                      rw [hlast] at hr
                      cases hr
                  | false =>
                      rw [hlast] at hr
                      have hr' : follow bytes (c + 1) (h' :: rest) = none :=
                        Option.map_eq_none_iff.mp hr
                      refine outcome_dataRound hg hrefused hlast hrecord hdata hnext ?_
                      intro c' hat _
                      refine ih hat ?_ hr'
                      simp [Drives.aim, Drives.enter, hg.current]

/-- The state at the first link, when the first record has no data partition. -/
theorem AtRecord.aimed (hg : AtRecord u bytes held e box c L g) (hbound : bound ≤ c)
    (hscan : Scanning u bytes held bound L' { g.aim h' with cache := c' }) :
    AtRecord u bytes held e box c L' { g.aim h' with cache := c' } := by
  refine ⟨⟨bound, hbound, hscan⟩, hg.unit, hg.few, hg.below, hg.range, hg.inside,
    hg.current, ?_⟩
  have hne : e ≠ c := Nat.ne_of_lt hg.below
  simp only [Drives.aim, hg.current, update_of_ne hne]
  exact hg.box

/-- What the scan of a whole chain leaves. -/
structure Scanned (u : Nat) (bytes : Nat → UInt8) (held : Finset Bh) (c : Nat)
    (L : List (Nat × SectorT)) (r : List HdStruct × List (Nat × SectorT))
    (g g' : Drives) : Prop where
  part : g'.part = setFrom g.part c r.1
  scanning : ∃ bound, Scanning u bytes held bound (L ++ r.2) g'
  kept : ∀ k, Kept bytes (k + ((u + 1) * 2 ^ 6 - c) + 1) L g.cache →
    Kept bytes k (L ++ r.2) g'.cache

/-- After the first record, the rest of the chain. -/
theorem Followed.scanned {c' : Nat} {g₁ g₂ : Drives}
    (hf : Followed u bytes held c' (L ++ [x]) r g₁ g₂) (hc : c ≤ c')
    (hpart : setFrom g₁.part c' r.1 = setFrom g.part c ps)
    (hkept : ∀ k, Kept bytes (k + 1) L g.cache →
      Kept bytes k (L ++ [x]) g₁.cache) :
    Scanned u bytes held c L (ps, x :: r.2) g g₂ where
  part := hf.part.trans hpart
  scanning := by
    obtain ⟨bound, hscan⟩ := hf.scanning
    rw [List.append_assoc] at hscan
    exact ⟨bound, hscan⟩
  kept := by
    intro k hk
    have hk' := hf.kept k ((hkept _ hk).mono (by omega))
    rw [List.append_assoc] at hk'
    exact hk'

theorem Chain.head (hchain : Chain bytes box h rest) :
    ValidRecord bytes box h ∧ nextOf bytes box h = rest.head? := by
  cases hchain with
  | last hrecord hend => exact ⟨hrecord, hend⟩
  | link hrecord hnext _ => exact ⟨hrecord, hnext⟩

theorem Chain.tail (hchain : Chain bytes box h (h' :: rest)) : Chain bytes box h' rest := by
  cases hchain with
  | link _ _ hchain => exact hchain

theorem AtRecord.scanned (hscan : Scanning u bytes held bound (L ++ L') { g' with cache := c' })
    (hkept : ∀ k, Kept bytes (k + 1) L g.cache → Kept bytes k (L ++ L') c')
    (hpart : g'.part = setFrom g.part c ps) :
    Scanned u bytes held c L (ps, L') g { g' with cache := c' } where
  part := hpart
  scanning := ⟨bound, hscan⟩
  kept := fun k hk => hkept k (hk.mono (by omega))

theorem outcome_rest {c' : Nat} {g₁ : Drives} (pre : List HdStruct)
    (hchain : Chain bytes box h' rest) (hat : AtRecord u bytes held e box c' (L ++ [x]) g₁)
    (hpart : g₁.part c' = h') (hc : c ≤ c')
    (hpre : ∀ hs, hs ≠ [] → setFrom g₁.part c' hs = setFrom g.part c (pre ++ hs))
    (hkept : ∀ k, Kept bytes (k + 1) L g.cache → Kept bytes k (L ++ [x]) g₁.cache)
    (hrounds : rest.length < rounds ∨ A .endless)
    (hnone : follow bytes c' (h' :: rest) = none → ∀ f, A f) :
    Outcome A (afterRecord fuel e box rounds (some h'.startSect)) g₁ fun _ g₂ =>
      ∃ r, (follow bytes c' (h' :: rest)).map (fun r => (pre ++ r.1, x :: r.2)) = some r ∧
        Scanned u bytes held c L r g g₂ := by
  unfold Outcome
  rw [afterRecord_some fuel e box rounds h'.startSect hat.current]
  cases hfollow : follow bytes c' (h' :: rest) with
  | none =>
      refine Outcome.imp (outcome_follow_none hchain hat hpart hfollow) ?_ ?_
      · exact fun f _ => hnone hfollow f
      · exact fun _ _ h => h.elim
  | some r =>
      refine Outcome.mono (outcome_follow hchain hat hpart hfollow hrounds) ?_
      intro _ g₂ hf
      exact ⟨_, rfl, hf.scanned hc (hpre r.1 (follow_ne_nil hfollow)) hkept⟩

/-- **The scan of a chain**, from its first record on. -/
theorem outcome_scanChain (hg : AtRecord u bytes held e box c L g)
    (hscan : Scanning u bytes held bound L g) (hbound : bound ≤ e) (he : e / 2 ^ 6 = u)
    (hbox : g.part e = box) (hchain : Chain bytes box box rest)
    (hrounds : rest.length < rounds ∨ A .endless)
    (hnone : scanChain bytes box e c rest = none → ∀ f, A f) :
    Outcome A (extendedLoop bioshdGendisk fuel e box.startSect box.nrSects
      rounds (mkdev 3 e) box.startSect) g fun _ g' =>
        ∃ r, scanChain bytes box e c rest = some r ∧
          Scanned u bytes held c L r g g' := by
  obtain _ | n := rounds
  · exact hrounds.resolve_left (Nat.not_lt_zero _)
  subst hbox
  have hbelow := hg.below
  have hcurrent := hg.current
  obtain ⟨hrecord, hnext⟩ := hchain.head
  have hentries := hrecord.entries
  have hsize : ∀ c' : Buffers,
      (({ g with cache := c' } : Drives).part e).nrSects = (g.part e).nrSects :=
    fun _ => rfl
  have hlinks : (links (g.part e) (blockFrom bytes (g.part e).startSect)).head? =
      rest.head? := hnext
  rw [scanChain] at hnone ⊢
  cases hrefused : refuses (g.part e) 0 with
  | true =>
      rw [if_pos rfl]
      refine outcome_round none g hscan hg.unit he hbound hg.few hg.notLast rfl
        ?_ ?_ ?_
      · intro hread
        rw [hrefused] at hread
        cases hread
      · intro _ c' hscan' hkept
        have hscan'' : Scanning u bytes held (e + 1) (L ++ [])
            { g with cache := c' } := by
          rw [List.append_nil]
          exact hscan'
        refine ⟨_, rfl, AtRecord.scanned hscan'' ?_ rfl⟩
        rw [List.append_nil]
        exact hkept
      · intro hread
        rw [hrefused] at hread
        cases hread
  | false =>
      rw [hrefused, if_neg Bool.false_ne_true] at hnone
      rw [if_neg Bool.false_ne_true]
      have hread : ∀ c', refuses (g.part e) 0 = true →
          Scanning u bytes held (e + 1) L { g with cache := c' } → False := by
        intro c' htrue
        rw [hrefused] at htrue
        cases htrue
      cases hdata : dataOf bytes (g.part e) with
      | none =>
          rw [hdata] at hnone
          rw [hdata, Option.toList_none] at hentries
          cases rest with
          | nil =>
              refine outcome_round none g hscan hg.unit he hbound hg.few
                hg.notLast rfl ?_ (fun ht c' hs _ => (hread c' ht hs).elim) ?_
              · intro _ c'
                rw [extendedRecord_empty hrecord.magic (hsize c') hentries, hlinks]
                rfl
              · intro _ bh c' _ hscan' _ hkept
                exact Outcome.pure ⟨_, rfl, AtRecord.scanned hscan' hkept rfl⟩
          | cons h' rest =>
              refine outcome_round (some h'.startSect) (g.aim h') hscan hg.unit he
                hbound hg.few hg.notLast rfl ?_
                (fun ht c' hs _ => (hread c' ht hs).elim) ?_
              · intro _ c'
                rw [extendedRecord_empty hrecord.magic (hsize c') hentries, hlinks]
                rfl
              · intro _ bh c' _ hscan' _ hkept
                have hat := hg.aimed (by omega) hscan'
                refine outcome_rest [] hchain.tail hat ?_ le_rfl ?_ hkept
                  (hrounds.imp_left Nat.lt_of_succ_lt_succ) ?_
                · simp [Drives.aim, hcurrent]
                · intro hs hne
                  simp only [Drives.aim, hcurrent, List.nil_append]
                  exact setFrom_update hne
                · intro hfollow
                  rw [hfollow] at hnone
                  exact hnone rfl
      | some d =>
          rw [hdata] at hnone
          rw [hdata, Option.toList_some] at hentries
          have hdatas : ∀ c' : Buffers, extendedRecord bioshdGendisk e _ _ _ _
              { g with cache := c' } = _ := fun c' =>
            extendedRecord_data hrecord.magic (hsize c') hentries
              hrecord.credible
          have henter : (g.enter d).part = setFrom g.part c [d] := by
            simp only [Drives.enter, hcurrent]
            rfl
          subst hcurrent
          cases hlast : lastMinor bioshdGendisk (g.currentMinor + 1) with
          | true =>
              refine outcome_round none (g.enter d) hscan hg.unit he hbound
                hg.few hg.notLast rfl ?_
                (fun ht c' hs _ => (hread c' ht hs).elim) ?_
              · intro _ c'
                rw [hdatas c']
                dsimp only
                rw [hlast]
                rfl
              · intro _ bh c' _ hscan' _ hkept
                exact Outcome.pure ⟨_, rfl, AtRecord.scanned hscan' hkept henter⟩
          | false =>
              rw [hlast] at hnone
              cases rest with
              | nil =>
                  refine outcome_round none (g.enter d) hscan hg.unit he hbound
                    hg.few hg.notLast rfl ?_
                    (fun ht c' hs _ => (hread c' ht hs).elim) ?_
                  · intro _ c'
                    rw [hdatas c', hlinks]
                    dsimp only
                    rw [hlast]
                    rfl
                  · intro _ bh c' _ hscan' _ hkept
                    exact Outcome.pure
                      ⟨_, rfl, AtRecord.scanned hscan' hkept henter⟩
              | cons h' rest =>
                  refine outcome_round (some h'.startSect) ((g.enter d).aim h')
                    hscan hg.unit he hbound hg.few hg.notLast rfl ?_
                    (fun ht c' hs _ => (hread c' ht hs).elim) ?_
                  · intro _ c'
                    rw [hdatas c', hlinks]
                    dsimp only
                    rw [hlast]
                    rfl
                  · intro _ bh c' _ hscan' _ hkept
                    have hat := hg.next (by omega) hlast hscan'
                    refine outcome_rest [d] hchain.tail hat ?_ (Nat.le_succ _) ?_ hkept
                      (hrounds.imp_left Nat.lt_of_succ_lt_succ) ?_
                    · simp [Drives.aim, Drives.enter]
                    · intro hs hne
                      simp only [Drives.aim, Drives.enter]
                      exact setFrom_update hne
                    · intro hfollow
                      rw [hfollow] at hnone
                      exact hnone rfl

end Loop

/-- Enter primary partitions from minor `m` on. -/
def enterAll (part : Nat → HdStruct) : Nat → List Partition → Nat → HdStruct
  | _, [] => part
  | m, p :: ps =>
      enterAll (if p.nrSects = 0 then part else update part m (primaryEntry p))
        (m + 1) ps

section Table

variable {m c i : Nat} {part : Nat → HdStruct}

theorem setFrom_outside (hs : List HdStruct) (k : Nat) (hk : k < c ∨ c + hs.length ≤ k) :
    setFrom part c hs k = part k := by
  induction hs generalizing part c with
  | nil => rfl
  | cons h hs ih =>
      simp only [List.length_cons] at hk
      rw [setFrom, ih (by omega), update_of_ne (by omega)]

theorem setFrom_get {hs : List HdStruct} {h : HdStruct} (hi : hs[i]? = some h) :
    setFrom part c hs (c + i) = h := by
  induction hs generalizing part c i with
  | nil => cases hi
  | cons h' hs ih =>
      cases i with
      | zero =>
          obtain rfl := Option.some.inj hi
          have hout : setFrom (update part c h') (c + 1) hs c =
              update part c h' c :=
            setFrom_outside hs c (Or.inl (Nat.lt_succ_self c))
          exact hout.trans (update_self c h' part)
      | succ i =>
          have hstep : c + (i + 1) = c + 1 + i := by omega
          rw [setFrom, hstep]
          exact ih hi

theorem enterAll_outside (ps : List Partition) (k : Nat) (hk : k < m ∨ m + ps.length ≤ k) :
    enterAll part m ps k = part k := by
  induction ps generalizing part m with
  | nil => rfl
  | cons p ps ih =>
      simp only [List.length_cons] at hk
      rw [enterAll, ih (by omega)]
      split
      · rfl
      · rw [update_of_ne (by omega)]

theorem enterAll_get {ps : List Partition} {p : Partition} (hi : ps[i]? = some p) :
    enterAll part m ps (m + i) =
      if p.nrSects = 0 then part (m + i) else primaryEntry p := by
  induction ps generalizing part m i with
  | nil => cases hi
  | cons p' ps ih =>
      cases i with
      | zero =>
          obtain rfl := Option.some.inj hi
          rw [enterAll, enterAll_outside ps _ (Or.inl (by omega))]
          split
          · rfl
          · exact update_self m _ part
      | succ i =>
          have hstep : m + (i + 1) = m + 1 + i := by omega
          rw [enterAll, hstep, ih hi]
          split
          · split
            · rfl
            · rw [update_of_ne (by omega)]
          · rfl

end Table

section Primary

variable {m fuel : Nat} {g : Drives}

theorem primaryPartitions_plain {ps : List Partition} (hps : ∀ p ∈ ps, p.isLink = false) :
    primaryPartitions bioshdGendisk fuel 0 m ps g =
      .ok ((), { g with part := enterAll g.part m ps }) := by
  induction ps generalizing g m with
  | nil => rfl
  | cons p ps ih =>
      have hrest : ∀ p ∈ ps, p.isLink = false :=
        fun p hp => hps p (List.mem_cons_of_mem _ hp)
      rw [primaryPartitions]
      cases hzero : decide (p.nrSects = 0) with
      | true =>
          have hz := of_decide_eq_true hzero
          rw [if_pos hz, ih hrest, enterAll, if_pos hz]
      | false =>
          have hz := of_decide_eq_false hzero
          have hext : p.isExtended = false := by
            have hlink := hps p List.mem_cons_self
            simpa [Partition.isLink, hz] using hlink
          have hentry : primaryEntry p = ⟨0 + p.startSect, p.nrSects⟩ := by
            simp [primaryEntry, hext]
          rw [if_neg hz, addPartition, setPart, run_bind_ok run_modify, Lib.when,
            if_neg (by simp [hext]), run_bind_ok run_pure, ih hrest, enterAll,
            if_neg hz, hentry]

theorem primaryPartitions_append (ps ps' : List Partition) :
    primaryPartitions bioshdGendisk fuel 0 m (ps ++ ps') =
      (do
        primaryPartitions bioshdGendisk fuel 0 m ps
        primaryPartitions bioshdGendisk fuel 0 (m + ps.length) ps') := by
  induction ps generalizing m with
  | nil => rfl
  | cons p ps ih =>
      have hlen : m + (p :: ps).length = m + 1 + ps.length := by
        rw [List.length_cons]
        omega
      rw [List.cons_append, primaryPartitions, primaryPartitions, ih, hlen]
      split
      · rfl
      · simp only [bind_assoc]

end Primary

/-- The table after the scan: `ps` entered from minor `m` on, and `hs` from the
minor `c` behind them. -/
structure Entered (m : Nat) (ps : List Partition) (c : Nat) (hs : List HdStruct)
    (part part' : Nat → HdStruct) : Prop where
  used : ∀ i p, ps[i]? = some p → p.nrSects ≠ 0 → part' (m + i) = primaryEntry p
  unused : ∀ i p, ps[i]? = some p → p.nrSects = 0 → part' (m + i) = part (m + i)
  logical : ∀ i h, hs[i]? = some h → part' (c + i) = h
  rest : ∀ k, k < m ∨ c + hs.length ≤ k → part' k = part k

theorem entered_plain {m c : Nat} {ps : List Partition} {part : Nat → HdStruct}
    (hc : c = m + ps.length) : Entered m ps c [] part (enterAll part m ps) := by
  constructor
  · intro i p hi hne
    rw [enterAll_get hi, if_neg hne]
  · intro i p hi hz
    rw [enterAll_get hi, if_pos hz]
  · intro i h hi
    cases hi
  · intro k hk
    refine enterAll_outside ps k ?_
    simpa [hc] using hk

theorem entered_extended {m c e : Nat} {ps : List Partition} {p : Partition} {hs : List HdStruct}
    {part : Nat → HdStruct} {box : HdStruct} (hc : c = m + ps.length)
    (he : ps[e]? = some p) (hne : p.nrSects ≠ 0) :
    Entered m ps c hs part
      (enterAll
        (update
          (setFrom
            (update (enterAll part m (ps.take e)) (m + e) box) c hs)
          (m + e) (primaryEntry p))
        (m + e + 1) (ps.drop (e + 1))) := by
  have hlt : e < ps.length := (List.getElem?_eq_some_iff.mp he).1
  have hbefore : ∀ i q, i < e → ps[i]? = some q → (ps.take e)[i]? = some q := by
    intro i q hi hq
    rw [List.getElem?_take_of_lt hi]
    exact hq
  have hafter : ∀ i q, e < i → ps[i]? = some q →
      (ps.drop (e + 1))[i - (e + 1)]? = some q := by
    intro i q hi hq
    rw [List.getElem?_drop, Nat.add_sub_cancel' hi]
    exact hq
  have hbound : ∀ i q, ps[i]? = some q → i < ps.length :=
    fun i q hq => (List.getElem?_eq_some_iff.mp hq).1
  have hlow : ∀ i q, i < e → ps[i]? = some q →
      enterAll
        (update
          (setFrom
            (update (enterAll part m (ps.take e)) (m + e) box) c hs)
          (m + e) (primaryEntry p))
        (m + e + 1) (ps.drop (e + 1)) (m + i) =
          if q.nrSects = 0 then part (m + i) else primaryEntry q := by
    intro i q hi hq
    rw [enterAll_outside _ _ (Or.inl (by omega)),
      update_of_ne (by omega), setFrom_outside _ _ (Or.inl (by omega)),
      update_of_ne (by omega), enterAll_get (hbefore i q hi hq)]
  have hhigh : ∀ i q, e < i → ps[i]? = some q →
      enterAll
        (update
          (setFrom
            (update (enterAll part m (ps.take e)) (m + e) box) c hs)
          (m + e) (primaryEntry p))
        (m + e + 1) (ps.drop (e + 1)) (m + i) =
          if q.nrSects = 0 then part (m + i) else primaryEntry q := by
    intro i q hi hq
    have hstep : m + i = m + e + 1 + (i - (e + 1)) := by omega
    have hlen := hbound i q hq
    have htake : m + (ps.take e).length ≤ m + i := by
      rw [List.length_take]
      omega
    rw [hstep, enterAll_get (hafter i q hi hq), ← hstep,
      update_of_ne (by omega), setFrom_outside _ _ (Or.inl (by omega)),
      update_of_ne (by omega), enterAll_outside _ _ (Or.inr htake)]
  have hown : ∀ q, ps[e]? = some q → q = p := by
    intro q hq
    rw [he] at hq
    exact (Option.some.inj hq).symm
  have hat : enterAll
        (update
          (setFrom
            (update (enterAll part m (ps.take e)) (m + e) box) c hs)
          (m + e) (primaryEntry p))
        (m + e + 1) (ps.drop (e + 1)) (m + e) = primaryEntry p := by
    rw [enterAll_outside _ _ (Or.inl (by omega)), update_self]
  constructor
  · intro i q hq hq0
    rcases lt_trichotomy i e with hi | rfl | hi
    · rw [hlow i q hi hq, if_neg hq0]
    · rw [hown q hq]
      exact hat
    · rw [hhigh i q hi hq, if_neg hq0]
  · intro i q hq hq0
    rcases lt_trichotomy i e with hi | rfl | hi
    · rw [hlow i q hi hq, if_pos hq0]
    · rw [hown q hq] at hq0
      exact absurd hq0 hne
    · rw [hhigh i q hi hq, if_pos hq0]
  · intro i h hi
    have hdrop : m + e + 1 + (ps.drop (e + 1)).length ≤ c + i := by
      rw [List.length_drop]
      omega
    rw [enterAll_outside _ _ (Or.inr hdrop), update_of_ne (by omega),
      setFrom_get hi]
  · intro k hk
    have hdrop : k < m + e + 1 ∨ m + e + 1 + (ps.drop (e + 1)).length ≤ k := by
      rw [List.length_drop]
      omega
    have htake : k < m ∨ m + (ps.take e).length ≤ k := by
      rw [List.length_take]
      omega
    rw [enterAll_outside _ _ hdrop, update_of_ne (by omega),
      setFrom_outside _ _ (by omega), update_of_ne (by omega),
      enterAll_outside _ _ htake]

section Extended

variable {u e c fuel : Nat} {bytes : Nat → UInt8} {held : Finset Bh}
  {box : HdStruct} {L : List (Nat × SectorT)} {g : Drives} {A : Fault → Prop}

theorem outcome_extendedEntry {rest : List HdStruct} {bound : Nat}
    (hg : AtRecord u bytes held e box c L g) (hscan : Scanning u bytes held bound L g)
    (hbound : bound ≤ e) (he : e / 2 ^ 6 = u) (hbox : g.part e = box)
    (hchain : Chain bytes box box rest) (hrounds : rest.length < fuel ∨ A .endless)
    (hnone : scanChain bytes box e c rest = none → ∀ f, A f) :
    Outcome A (extendedEntry bioshdGendisk fuel e) g fun _ g' =>
      ∃ r, scanChain bytes box e c rest = some r ∧
        g'.part = update (setFrom g.part c r.1) e
          { box with nrSects := min box.nrSects 2 } ∧
        (∃ bound, Scanning u bytes held bound (L ++ r.2) g') ∧
        ∀ k, Kept bytes (k + ((u + 1) * 2 ^ 6 - c) + 1) L g.cache →
          Kept bytes k (L ++ r.2) g'.cache := by
  have hunit := hg.unit
  have hminor : minorOf (mkdev 3 e) = e := minorOf_mkdev (by omega)
  have hbelow := hg.below
  unfold extendedEntry
  refine outcome_modify_bind ?_
  unfold extendedPartition
  refine Outcome.bind (R := fun _ g₂ => ∃ r,
      scanChain bytes box e c rest = some r ∧
      Scanned u bytes held c L r g g₂) ?_ ?_
  · have hmajor : mkdev bioshdGendisk.major e = mkdev 3 e := rfl
    rw [hmajor, hminor]
    refine outcome_get_bind ?_
    dsimp only
    rw [hbox]
    obtain ⟨bound', hle, hscan'⟩ := hg.scanning
    refine Outcome.mono (outcome_scanChain
      ⟨⟨bound', hle, hscan'.steady, hscan'.polled, hscan'.drive, hscan'.cells⟩,
        hg.unit, hg.few, hg.below, hg.range, hg.inside, hg.current, hg.box⟩
      ⟨hscan.steady, hscan.polled, hscan.drive, hscan.cells⟩ hbound he hbox hchain
      hrounds hnone) ?_
    rintro _ g₂ ⟨r, hr, hs⟩
    exact ⟨r, hr, hs.part, hs.scanning, hs.kept⟩
  · rintro _ g₂ ⟨r, hr, hs⟩
    refine Outcome.modify ⟨r, hr, ?_, ?_, hs.kept⟩
    · have hat : g₂.part e = box := by
        rw [hs.part, setFrom_outside _ _ (Or.inl hbelow), hbox]
      simp only [hat]
      rw [hs.part]
    · obtain ⟨bound', hscan'⟩ := hs.scanning
      exact ⟨bound', hscan'.steady, hscan'.polled, hscan'.drive, hscan'.cells⟩

end Extended

section Check

variable {u fuel : Nat} {bytes : Nat → UInt8} {g : Drives} {A : Fault → Prop}

/-- What the scan of drive `u` leaves: the logical partitions `r.1`, and block 0
of the minors of `r.2` beside that of the whole drive. -/
structure Checked (u : Nat) (bytes : Nat → UInt8)
    (r : List HdStruct × List (Nat × SectorT)) (g g' : Drives) : Prop where
  entered : Entered (u * 2 ^ 6 + 1) (partitions (table bytes)) (u * 2 ^ 6 + 5) r.1
    g.part g'.part
  cells : ∃ bound, Cells u bytes bound ((u * 2 ^ 6, 0) :: r.2) g'.cache
  kept : Kept bytes 62 [] g.cache →
    ∀ x ∈ (u * 2 ^ 6, 0) :: r.2, ∃ b, Cell bytes x.1 x.2 g'.cache b

/-- What the loop over the primary partitions is to leave. -/
structure Looped (u : Nat) (bytes : Nat → UInt8) (held : Finset Bh)
    (r : List HdStruct × List (Nat × SectorT)) (g g' : Drives) : Prop where
  entered : Entered (u * 2 ^ 6 + 1) (partitions (table bytes)) (u * 2 ^ 6 + 5) r.1
    g.part g'.part
  scanning : ∃ bound, Scanning u bytes held bound ([(u * 2 ^ 6, 0)] ++ r.2) g'
  kept : Kept bytes 61 [(u * 2 ^ 6, 0)] g.cache →
    Kept bytes 0 ([(u * 2 ^ 6, 0)] ++ r.2) g'.cache

theorem Entry.scanning (hg : Entry u bytes g) :
    Scanning u bytes ∅ 0 [] g where
  steady := hg.steady
  polled := hg.polled
  drive := hg.drive
  cells :=
    { blocknr := fun b hb => absurd hb (hg.unseen b)
      below := fun b hb => absurd hb (hg.unseen b)
      unique := fun b _ hb => absurd hb (hg.unseen b)
      seg := fun b hb => absurd hb (hg.unseen b)
      valid := fun b hb => absurd hb (hg.unseen b) }

theorem outcome_checkPartition {R : List HdStruct × List (Nat × SectorT) → Prop}
    (hg : Entry u bytes g) (hmagic : magicOk (table bytes) = true)
    (hloop : ∀ bh c, Scanning u bytes {bh} (u * 2 ^ 6 + 1) [(u * 2 ^ 6, 0)]
        { g with cache := c } →
      Outcome A (primaryPartitions bioshdGendisk fuel 0 (u * 2 ^ 6 + 1)
          (partitions (table bytes)))
        { g with cache := c, currentMinor := u * 2 ^ 6 + 5 } fun _ g' =>
          ∃ r, R r ∧ Looped u bytes {bh} r
            { g with cache := c, currentMinor := u * 2 ^ 6 + 5 } g') :
    Outcome A (checkPartition bioshdGendisk fuel (mkdev 3 (u * 2 ^ 6))) g fun _ g' =>
      ∃ r, R r ∧ Checked u bytes r g g' := by
  have hunit := hg.unit
  have hminor : minorOf (mkdev 3 (u * 2 ^ 6)) = u * 2 ^ 6 :=
    minorOf_mkdev (by omega)
  obtain ⟨hstart, hsize⟩ := hg.whole
  have hread : refuses (g.part (u * 2 ^ 6)) 0 = false := by
    have hne : (g.part (u * 2 ^ 6)).nrSects.toNat ≠ 0 := by
      intro h
      exact hsize (UInt32.toNat_inj.mp h)
    simp only [refuses, hstart, Bool.or_eq_false_iff, decide_eq_false_iff_not]
    exact ⟨by decide, by omega⟩
  unfold checkPartition
  refine outcome_get_bind ?_
  dsimp only
  rw [hminor, hstart]
  refine Outcome.bind (R := fun _ g₁ => ∃ r, R r ∧ Checked u bytes r g g₁) ?_
    fun _ _ h => Outcome.pure h
  unfold msdosPartition
  refine outcome_get_bind ?_
  dsimp only
  refine Outcome.bind (R := fun found g₁ => ∃ bh c,
      found = some (bh, table bytes) ∧ g₁ = { g with cache := c } ∧
      Scanning u bytes {bh} (u * 2 ^ 6 + 1) [(u * 2 ^ 6, 0)] g₁ ∧
      (Kept bytes 62 [] g.cache → Kept bytes 61 [(u * 2 ^ 6, 0)] c))
    (outcome_read hg.scanning (by omega) hg.unit (Nat.zero_le _) (by decide) ?_ ?_)
    ?_
  · intro hrefused
    rw [hread] at hrefused
    cases hrefused
  · intro _ bh c _ hscan _ hkept
    rw [hstart] at hscan hkept ⊢
    exact ⟨bh, c, rfl, rfl, hscan, hkept 61⟩
  · rintro found g₁ ⟨bh, c, rfl, rfl, hscan, hkept⟩
    dsimp only
    rw [if_neg (by simp [hmagic])]
    refine outcome_modify_bind ?_
    dsimp only
    rw [hg.current]
    refine Outcome.bind (hloop bh c hscan) ?_
    rintro _ g₃ ⟨r, hR, hr⟩
    obtain ⟨bound, hscan₃⟩ := hr.scanning
    refine Outcome.bind (R := fun _ g₄ => ∃ r, R r ∧ Checked u bytes r g g₄)
      (outcome_release hscan₃ (Finset.notMem_empty bh) ?_)
      fun _ _ h => Outcome.pure h
    intro c' hscan₄ _ hkept₄
    refine ⟨r, hR, hr.entered, ⟨bound, hscan₄.cells⟩, ?_⟩
    intro hk
    exact (hkept₄ 0 _ (hr.kept (hkept hk))).present

theorem outcome_plain (hg : Entry u bytes g) (hmagic : magicOk (table bytes) = true)
    (hnone : ∀ p ∈ partitions (table bytes), p.isLink = false) :
    Outcome A (checkPartition bioshdGendisk fuel (mkdev 3 (u * 2 ^ 6))) g fun _ g' =>
      Checked u bytes ([], []) g g' := by
  refine Outcome.mono (outcome_checkPartition (R := fun r => r = ([], [])) hg
    hmagic ?_) ?_
  · intro bh c hscan
    unfold Outcome
    rw [primaryPartitions_plain hnone]
    refine ⟨_, rfl, ?_, ?_, ?_⟩
    · exact entered_plain rfl
    · exact ⟨_, hscan.steady, hscan.polled, hscan.drive, hscan.cells⟩
    · intro hk
      exact hk.mono (Nat.zero_le _)
  · rintro _ g' ⟨_, rfl, h⟩
    exact h

theorem outcome_extended {e : Nat} {p : Partition} {rest : List HdStruct} (hg : Entry u bytes g)
    (hmagic : magicOk (table bytes) = true) (hentry : (partitions (table bytes))[e]? = some p)
    (hlink : p.isLink = true)
    (honly : ∀ e' p', (partitions (table bytes))[e']? = some p' →
      p'.isLink = true → e' = e)
    (hchain : Chain bytes (p.place 0) (p.place 0) rest)
    (hrounds : rest.length < fuel ∨ A .endless)
    (hnone : scanChain bytes (p.place 0) (u * 2 ^ 6 + 1 + e) (u * 2 ^ 6 + 5) rest =
      none → ∀ f, A f) :
    Outcome A (checkPartition bioshdGendisk fuel (mkdev 3 (u * 2 ^ 6))) g fun _ g' =>
      ∃ r, scanChain bytes (p.place 0) (u * 2 ^ 6 + 1 + e) (u * 2 ^ 6 + 5) rest =
        some r ∧ Checked u bytes r g g' := by
  have hunit := hg.unit
  have hlen : (partitions (table bytes)).length = 4 := rfl
  have he : e < 4 := by
    rw [← hlen]
    exact (List.getElem?_eq_some_iff.mp hentry).1
  have hne : p.nrSects ≠ 0 ∧ p.isExtended = true := by
    simpa [Partition.isLink] using hlink
  refine outcome_checkPartition hg hmagic ?_
  intro bh c hscan
  have hdrop : (partitions (table bytes)).drop e =
      p :: (partitions (table bytes)).drop (e + 1) := by
    obtain ⟨h, hp⟩ := List.getElem?_eq_some_iff.mp hentry
    rw [List.drop_eq_getElem_cons h, hp]
  have hsplit : partitions (table bytes) =
      (partitions (table bytes)).take e ++
        p :: (partitions (table bytes)).drop (e + 1) := by
    rw [← hdrop, List.take_append_drop]
  have htake : ∀ q ∈ (partitions (table bytes)).take e, q.isLink = false := by
    intro q hq
    obtain ⟨i, hi⟩ := List.mem_iff_getElem?.mp hq
    have hie : i < e := by
      have h := (List.getElem?_eq_some_iff.mp hi).1
      rw [List.length_take] at h
      omega
    rw [List.getElem?_take_of_lt hie] at hi
    by_contra hq'
    have := honly i q hi (by simpa using hq')
    omega
  have hrest : ∀ q ∈ (partitions (table bytes)).drop (e + 1), q.isLink = false := by
    intro q hq
    obtain ⟨i, hi⟩ := List.mem_iff_getElem?.mp hq
    rw [List.getElem?_drop] at hi
    by_contra hq'
    have := honly _ q hi (by simpa using hq')
    omega
  have htakelen : ((partitions (table bytes)).take e).length = e := by
    rw [List.length_take, hlen]
    omega
  have hprimary : primaryEntry p =
      { p.place 0 with nrSects := min (p.place 0).nrSects 2 } := by
    simp [primaryEntry, hne.2, Partition.place]
  -- the tables when the extended partition has just been entered
  let g₂ : Drives :=
    { g with
      cache := c
      currentMinor := u * 2 ^ 6 + 5
      part := update
        (enterAll g.part (u * 2 ^ 6 + 1) ((partitions (table bytes)).take e))
        (u * 2 ^ 6 + 1 + e) (p.place 0) }
  have hscan₂ : Scanning u bytes {bh} (u * 2 ^ 6 + 1) [(u * 2 ^ 6, 0)] g₂ :=
    ⟨hscan.steady, hscan.polled, hscan.drive, hscan.cells⟩
  have hbox : g₂.part (u * 2 ^ 6 + 1 + e) = p.place 0 :=
    update_self _ _ _
  have hat : AtRecord u bytes {bh} (u * 2 ^ 6 + 1 + e) (p.place 0)
      (u * 2 ^ 6 + 5) [(u * 2 ^ 6, 0)] g₂ := by
    have hfew : ({bh} : Finset Bh).card < nrMapbufs - 1 := by
      rw [Finset.card_singleton]
      decide
    refine ⟨⟨_, by omega, hscan₂⟩, hunit, hfew, by omega, by omega, by omega,
      rfl, ?_⟩
    rw [hbox]
  unfold Outcome
  rw [hsplit, primaryPartitions_append, run_bind_ok (primaryPartitions_plain htake),
    htakelen, primaryPartitions, if_neg hne.1, Lib.when, if_pos hne.2]
  refine outcome_modify_bind ?_
  refine Outcome.bind (outcome_extendedEntry hat hscan₂ (by omega) (by omega) hbox
    hchain hrounds hnone) ?_
  rintro _ g₃ ⟨r, hr, hpart, ⟨bound, hscan₃⟩, hkept⟩
  unfold Outcome
  rw [primaryPartitions_plain hrest]
  refine ⟨r, hr, ?_, ⟨bound, hscan₃.steady, hscan₃.polled, hscan₃.drive,
    hscan₃.cells⟩, ?_⟩
  · dsimp only
    rw [hpart, ← hprimary]
    exact entered_extended rfl hentry hne.1
  · intro hk
    exact hkept 0 (hk.mono (by omega))

end Check

end Genhd
end Elks
