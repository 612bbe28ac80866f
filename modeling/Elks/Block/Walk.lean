import Elks.Block.Agreement

/-!
# What the partition scan makes of any disk

`accepted` are the data partitions that `extended_partition` enters of a record,
and `turn` is what one record does to the number of minors left and to the block
that the cache has for the current minor.  `walk` follows the links from there.

A record is read through the current minor, and stays in the cache as its block 0.
When none of its data partitions is entered, the current minor is put on the next
record, but it is the same record that comes out of the cache again, read this time
as if it were at the place of the next one.  When then again nothing is entered the
loop has come back to where it was: `walk` says `none`.

* `dataPartitions_run`, `extendedRecord_run`: what the code does with a record.
-/

namespace Elks
namespace Genhd

open Lib Buffer

/-- The data partition that the loop enters for an entry of the record at
`this`. -/
def acceptedEntry (box : HdStruct) (this : SectorT) (e : Nat × Partition) :
    Option HdStruct :=
  if 2 ≤ e.1 ∧ e.2.garbage box.nrSects this box.startSect box.nrSects then none
  else dataEntry this e.2

/-- The data partitions that are entered for the record at `this`, if there is
room. -/
def accepted (box : HdStruct) (this : SectorT) (data : Block) : List HdStruct :=
  ((List.range 4).zip (partitions data)).filterMap (acceptedEntry box this)

/-- What is left of a drive: its minors, and the sector whose bytes are in the cache
as block 0 of the current one. -/
structure Left where
  minors : Nat
  cached : Option SectorT
deriving DecidableEq

/-- What is left when `n` more minors are in use. -/
def Left.use (l : Left) (n : Nat) : Left where
  minors := l.minors - n
  cached := if n = 0 then l.cached else none

section Walk

variable (bytes : Nat → UInt8) (box : HdStruct)

/-- What the record in sector `s` does, read as the one at `this`, and the record it
links to. -/
def turn (l : Left) (s this : SectorT) : Left × Option HdStruct :=
  let data := blockFrom bytes s
  if !magicOk data then
    (l, none)
  else
    let n := (accepted box this data).length
    if l.minors ≤ n then (⟨0, none⟩, none)
    else (l.use n, (links box data).head?)

/-- What is left when the loop ends that comes by a link to the record `h`; `none`
if it never does.  Each round but the first uses up a minor, so that `k` rounds do
for `k` of them. -/
def walk : Nat → Left → HdStruct → Option Left
  | 0, l, _ => some l
  | k + 1, l, h =>
      if l.cached = none ∧ refuses h 0 then
        some l
      else
        let s := l.cached.getD h.startSect
        match turn bytes box ⟨l.minors, some s⟩ s h.startSect with
        | (l₁, none) => some l₁
        | (l₁, some h₁) =>
            if l₁.minors < l.minors then
              walk k l₁ h₁
            else
              match turn bytes box ⟨l.minors, some s⟩ s h₁.startSect with
              | (l₂, none) => some l₂
              | (l₂, some h₂) =>
                  if l₂.minors < l.minors then walk k l₂ h₂ else none

/-- The same for an extended partition, whose first record is read through its own
minor. -/
def walkBox (l : Left) : Option Left :=
  if l.minors = 0 ∨ refuses box 0 then
    some l
  else
    match turn bytes box l box.startSect box.startSect with
    | (l₁, none) => some l₁
    | (l₁, some h₁) => walk bytes box l₁.minors l₁ h₁

/-- The same for the entries of a partition table. -/
def walkTable (firstSector : SectorT) : List Partition → Left → Option Left
  | [], l => some l
  | p :: ps, l =>
      if p.isLink then
        (walkBox bytes (p.place firstSector) l).bind (walkTable firstSector ps)
      else
        walkTable firstSector ps l

/-- No chain of extended records of the drive `whole` comes back to where it was. -/
def NoDeadLink (whole : HdStruct) : Prop :=
  refuses whole 0 = true ∨ magicOk (blockFrom bytes whole.startSect) = false ∨
    walkTable bytes whole.startSect (partitions (blockFrom bytes whole.startSect))
      ⟨minorLimit, none⟩ ≠ none

instance (whole : HdStruct) : Decidable (NoDeadLink bytes whole) :=
  inferInstanceAs (Decidable (_ ∨ _ ∨ _))

/-- The record `h` that is linked to comes from sector `s`. -/
def Reads (l : Left) (h : HdStruct) (s : SectorT) : Prop :=
  l.cached = some s ∨
    l.cached = none ∧ refuses h 0 = false ∧ s = h.startSect

section Rounds

variable {bytes box} {k : Nat} {l l₁ l₂ : Left} {h h₁ h₂ : HdStruct} {s : SectorT}

theorem Reads.read (hs : Reads l h s) :
    ¬(l.cached = none ∧ refuses h 0 = true) ∧ l.cached.getD h.startSect = s := by
  rcases hs with hs | ⟨hs, hread, rfl⟩
  · rw [hs]
    exact ⟨fun h => (nomatch h.1), rfl⟩
  · rw [hs, hread]
    exact ⟨fun h => (nomatch h.2), rfl⟩

theorem Reads.walk_end (hs : Reads l h s)
    (ht : turn bytes box ⟨l.minors, some s⟩ s h.startSect = (l₁, none)) :
    walk bytes box (k + 1) l h = some l₁ := by
  rw [walk, if_neg hs.read.1, hs.read.2]
  dsimp only
  rw [ht]

theorem Reads.walk_on (hs : Reads l h s)
    (ht : turn bytes box ⟨l.minors, some s⟩ s h.startSect = (l₁, some h₁))
    (hless : l₁.minors < l.minors) : walk bytes box (k + 1) l h = walk bytes box k l₁ h₁ := by
  rw [walk, if_neg hs.read.1, hs.read.2]
  dsimp only
  rw [ht]
  exact if_pos hless

theorem Reads.walk_again_end (hs : Reads l h s)
    (ht : turn bytes box ⟨l.minors, some s⟩ s h.startSect = (l₁, some h₁))
    (hless : ¬l₁.minors < l.minors)
    (ht' : turn bytes box ⟨l.minors, some s⟩ s h₁.startSect = (l₂, none)) :
    walk bytes box (k + 1) l h = some l₂ := by
  rw [walk, if_neg hs.read.1, hs.read.2]
  dsimp only
  rw [ht]
  dsimp only
  rw [if_neg hless, ht']

theorem Reads.walk_again (hs : Reads l h s)
    (ht : turn bytes box ⟨l.minors, some s⟩ s h.startSect = (l₁, some h₁))
    (hless : ¬l₁.minors < l.minors)
    (ht' : turn bytes box ⟨l.minors, some s⟩ s h₁.startSect = (l₂, some h₂)) :
    walk bytes box (k + 1) l h =
      if l₂.minors < l.minors then walk bytes box k l₂ h₂ else none := by
  rw [walk, if_neg hs.read.1, hs.read.2]
  dsimp only
  rw [ht]
  dsimp only
  rw [if_neg hless, ht']

end Rounds

end Walk

/-- The tables after the data partitions `ds` have been entered. -/
def Drives.enterAll (g : Drives) (ds : List HdStruct) : Drives :=
  ds.foldl Drives.enter g

section Record

variable {u e n : Nat} {box : HdStruct} {this : SectorT} {data : Block}
  {g : Drives}

@[simp] theorem enterAll_cache (g : Drives) (ds : List HdStruct) :
    (g.enterAll ds).cache = g.cache := by
  induction ds generalizing g with
  | nil => rfl
  | cons d ds ih => exact ih (g.enter d)

@[simp] theorem enterAll_drive (g : Drives) (ds : List HdStruct) :
    (g.enterAll ds).drive = g.drive := by
  induction ds generalizing g with
  | nil => rfl
  | cons d ds ih => exact ih (g.enter d)

@[simp] theorem enterAll_sizes (g : Drives) (ds : List HdStruct) :
    (g.enterAll ds).sizes = g.sizes := by
  induction ds generalizing g with
  | nil => rfl
  | cons d ds ih => exact ih (g.enter d)

@[simp] theorem enterAll_currentMinor (g : Drives) (ds : List HdStruct) :
    (g.enterAll ds).currentMinor = g.currentMinor + ds.length := by
  induction ds generalizing g with
  | nil => rfl
  | cons d ds ih =>
      have h : ((g.enter d).enterAll ds).currentMinor =
          (g.enter d).currentMinor + ds.length := ih (g.enter d)
      have hstep : (g.enter d).currentMinor = g.currentMinor + 1 := rfl
      rw [List.length_cons]
      rw [hstep] at h
      calc
        _ = g.currentMinor + 1 + ds.length := h
        _ = g.currentMinor + (ds.length + 1) := by omega

theorem enterAll_part {ds : List HdStruct} {m : Nat}
    (hm : m < g.currentMinor ∨ g.currentMinor + ds.length ≤ m) :
    (g.enterAll ds).part m = g.part m := by
  induction ds generalizing g with
  | nil => rfl
  | cons d ds ih =>
      rw [List.length_cons] at hm
      have hstep : (g.enter d).currentMinor = g.currentMinor + 1 := rfl
      have hrest : ((g.enter d).enterAll ds).part m = (g.enter d).part m := by
        refine ih ?_
        rw [hstep]
        omega
      have hne : m ≠ g.currentMinor := by omega
      rw [Drives.enterAll, List.foldl_cons]
      refine hrest.trans ?_
      simp only [Drives.enter, Function.update_of_ne hne]

theorem dataPartitions_run {l : List (Nat × Partition)}
    (hc : g.currentMinor + n = (u + 1) * 2 ^ 6) (hn : 0 < n) (hn' : n ≤ minorLimit) :
    dataPartitions bioshdGendisk box.nrSects this box.startSect box.nrSects l g =
      .ok (decide (n ≤ (l.filterMap (acceptedEntry box this)).length),
        g.enterAll ((l.filterMap (acceptedEntry box this)).take n)) := by
  induction l generalizing g n with
  | nil =>
      have h : ¬n ≤ ([] : List HdStruct).length := by simp only [List.length_nil]; omega
      rw [List.filterMap_nil, List.take_nil, decide_eq_false h]
      rfl
  | cons e l ih =>
      obtain ⟨i, p⟩ := e
      rw [dataPartitions]
      by_cases hskip : p.nrSects = 0 ∨ p.isExtended
      · have hnone : acceptedEntry box this (i, p) = none := by
          unfold acceptedEntry dataEntry
          rw [if_pos hskip, ite_self]
        rw [if_pos hskip, List.filterMap_cons_none hnone]
        exact ih hc hn hn'
      · rw [if_neg hskip]
        by_cases hbad : 2 ≤ i ∧ p.garbage box.nrSects this box.startSect box.nrSects
        · have hnone : acceptedEntry box this (i, p) = none := if_pos hbad
          rw [if_pos hbad, List.filterMap_cons_none hnone]
          exact ih hc hn hn'
        · have hsome : acceptedEntry box this (i, p) = some (p.place this) := by
            unfold acceptedEntry dataEntry
            rw [if_neg hbad, if_neg hskip]
          rw [if_neg hbad, List.filterMap_cons_some hsome, run_bind_ok run_get,
            addPartition, setPart, run_bind_ok run_modify, run_bind_ok run_modify]
          obtain ⟨n, rfl⟩ : ∃ k, n = k + 1 := ⟨n - 1, by omega⟩
          rw [List.take_succ_cons, List.length_cons]
          cases hlast : lastMinor bioshdGendisk (g.currentMinor + 1) with
          | true =>
              obtain rfl : n = 0 := by
                have := (lastMinor_succ hc hn hn').mp hlast
                omega
              rw [if_pos rfl, List.take_zero, decide_eq_true (by omega)]
              rfl
          | false =>
              have hone : n ≠ 0 := by
                intro h
                have := (lastMinor_succ hc hn hn').mpr (by omega)
                rw [hlast] at this
                cases this
              have hnext : (g.enter (p.place this)).currentMinor + n =
                  (u + 1) * 2 ^ 6 := by
                have hstep : (g.enter (p.place this)).currentMinor =
                    g.currentMinor + 1 := rfl
                rw [hstep]
                omega
              have hrun := ih hnext (by omega) (by omega)
              rw [if_neg Bool.false_ne_true]
              refine hrun.trans ?_
              simp only [Nat.add_le_add_iff_right]
              rfl

theorem extendedRecord_run {bytes : Nat → UInt8} {s : SectorT} {l : Left}
    (hc : g.currentMinor + l.minors = (u + 1) * 2 ^ 6)
    (hl : 0 < l.minors) (hl' : l.minors ≤ minorLimit) (hsize : (g.part e).nrSects = box.nrSects) :
    ∃ ds, (turn bytes box l s this).1.minors = l.minors - ds.length ∧
      (ds = [] → ((turn bytes box l s this).1 = l)) ∧
      (ds ≠ [] → (turn bytes box l s this).1.cached = none) ∧
      ds.length ≤ l.minors ∧
      ((turn bytes box l s this).2 ≠ none → ds.length < l.minors) ∧
      extendedRecord bioshdGendisk e box.startSect box.nrSects this
          (blockFrom bytes s) g =
        .ok ((turn bytes box l s this).2.elim (none, g.enterAll ds) fun h =>
          (some h.startSect, (g.enterAll ds).aim h)) := by
  unfold turn
  dsimp only
  cases hmagic : magicOk (blockFrom bytes s) with
  | false =>
      refine ⟨[], ?_, ?_, ?_, ?_, ?_, ?_⟩
      · rfl
      · intro _
        rfl
      · intro h
        exact absurd rfl h
      · exact Nat.zero_le _
      · intro h
        exact absurd rfl h
      · unfold extendedRecord
        rw [hmagic]
        rfl
  | true =>
      have hparts : dataPartitions bioshdGendisk box.nrSects this box.startSect
          box.nrSects ((List.range 4).zip (partitions (blockFrom bytes s))) g =
            .ok (decide (l.minors ≤ (accepted box this (blockFrom bytes s)).length),
              g.enterAll ((accepted box this (blockFrom bytes s)).take l.minors)) :=
        dataPartitions_run hc hl hl'
      generalize accepted box this (blockFrom bytes s) = ds at hparts ⊢
      rw [Bool.not_true, if_neg Bool.false_ne_true]
      by_cases hfull : l.minors ≤ ds.length
      · rw [decide_eq_true hfull] at hparts
        have hlen : (ds.take l.minors).length = l.minors := by
          rw [List.length_take]
          omega
        rw [if_pos hfull]
        refine ⟨ds.take l.minors, ?_, ?_, ?_, ?_, ?_, ?_⟩
        · rw [hlen, Nat.sub_self]
        · intro h
          rw [h] at hlen
          exact absurd hlen (by simpa using hl.ne)
        · intro _
          rfl
        · exact hlen.le
        · intro h
          exact absurd rfl h
        · unfold extendedRecord
          rw [if_neg (by simp [hmagic]), run_bind_ok run_get, hsize,
            run_bind_ok hparts]
          rfl
      · rw [decide_eq_false hfull, List.take_of_length_le (by omega)] at hparts
        rw [if_neg hfull]
        refine ⟨ds, rfl, ?_, ?_, by omega, ?_, ?_⟩
        · rintro rfl
          rfl
        · intro h
          exact if_neg fun h' => h (List.length_eq_zero_iff.mp h')
        · intro _
          omega
        · exact extendedRecord_link hmagic hsize hparts

end Record

end Genhd
end Elks
