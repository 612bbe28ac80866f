import Elks.Block.Rd
import Elks.Buffer.Head

/-!
# What a RAM disk keeps (arch/i86/drivers/block/rd.c)

`do_rd_request` looks for the segment of a block by taking away the sizes of the
segments, and goes on while the offset is greater than the size.  A block that
begins where a segment ends is so looked for in that segment, behind its end.

* `RamDisk.walk`: the walk never leaves the chain, and where it stops;
* `rd_stores_iff`: a disk keeps its blocks exactly if it has one segment, and every
  disk does so for requests that leave the ends of its segments alone.
-/

namespace Elks
namespace Block

open Lib
open Buffer (Rw blockSize)

section Code

/-- The memory of the machine, by linear addresses. -/
abbrev Memory :=
  Nat → UInt8

/-- A request of the queue, with a locked buffer and the major number of the RAM
disks, which `INIT_REQUEST` asks for. -/
structure RdRequest where
  rqDev : Nat
  rqCmd : Rw
  rqSector : Nat
  rqData : Buffer.Block

/-- How a request was ended: with an error, or with the bytes that were read. -/
inductive RdReply
  | failed
  | written
  | read (data : Buffer.Block)

/-- `fmemcpy` of a block from offset `a` of a segment; the offset has sixteen bits. -/
def fmemcpyFrom (m : Memory) (segment a : Nat) : Buffer.Block :=
  fun k => m (16 * segment + wrap 16 (a + k))

/-- `fmemcpy` of a block to offset `a` of a segment. -/
def fmemcpyTo (m : Memory) (segment a : Nat) (b : Buffer.Block) : Memory :=
  (List.finRange blockSize).foldl
    (fun m k => Function.update m (16 * segment + wrap 16 (a + k.val)) (b k)) m

/-- The walk along the chain; the number bounds the rounds. -/
def findSegment (rd : Rd) : Nat → Nat → Nat → Option (Nat × Nat)
  | 0, _, _ => none
  | rounds + 1, offset, segnum =>
      if (rd.segs segnum).segSize < offset then
        findSegment rd rounds (offset - (rd.segs segnum).segSize) (rd.segs segnum).next
      else some (segnum, offset)

/-- The segment and the sector in it at which a request begins. -/
def Rd.place (rd : Rd) (target start : Nat) : Option (Nat × Nat) :=
  findSegment rd (maxEntries + 1) start (rd.info target).index

/-- One round of `do_rd_request`; `none`: the walk does not end. -/
def rdRequest (rd : Rd) (initialised : Bool) (r : RdRequest) (m : Memory) :
    Option (RdReply × Memory) :=
  if initialised = false then some (.failed, m)
  else
    let start := wrap 16 r.rqSector
    let target := r.rqDev % 8
    if (rd.info target).flags ≠ 1 ∨ (rd.info target).size ≤ start then some (.failed, m)
    else
      match rd.place target start with
      | none => none
      | some (segnum, offset) =>
          match r.rqCmd with
          | .write =>
              some (.written, fmemcpyTo m (rd.segs segnum).segment (offset * 512) r.rqData)
          | .read =>
              some (.read (fmemcpyFrom m (rd.segs segnum).segment (offset * 512)), m)

/-- `do_rd_request` on a queue. -/
def doRdRequest (rd : Rd) (initialised : Bool) :
    List RdRequest → Memory → Option (List RdReply × Memory)
  | [], m => some ([], m)
  | r :: queue, m =>
      if r.rqSector = 2 ^ 32 - 1 then some ([], m)
      else do
        let (reply, m) ← rdRequest rd initialised r m
        let (replies, m) ← doRdRequest rd initialised queue m
        return (reply :: replies, m)

end Code

section Disk

/-- The number of sectors of some segments. -/
def Rd.sectors (rd : Rd) (l : List Nat) : Nat :=
  (l.map fun j => (rd.segs j).segSize).sum

/-- Disk `t` has the segments of `chain`, which have memory of their own. -/
structure RamDisk (rd : Rd) (t : Nat) (chain : List Nat) : Prop where
  busy : (rd.info t).flags = 1
  links : Links rd.nextOf (some (rd.info t).index) chain
  entry : ∀ j, j ∈ chain → j < maxEntries
  small : ∀ j, j ∈ chain → 2 ≤ (rd.segs j).segSize ∧ (rd.segs j).segSize ≤ 128
  even : ∀ j, j ∈ chain → (rd.segs j).segSize % 2 = 0
  size : (rd.info t).size = rd.sectors chain
  apart : ∀ i, i ∈ chain → ∀ j, j ∈ chain → i ≠ j →
    16 * (rd.segs i).segment + (rd.segs i).segSize * 512 ≤ 16 * (rd.segs j).segment ∨
      16 * (rd.segs j).segment + (rd.segs j).segSize * 512 ≤ 16 * (rd.segs i).segment

/-- The first sectors of the blocks of a disk. -/
def Rd.Starts (rd : Rd) (t s : Nat) : Prop :=
  s % 2 = 0 ∧ s < (rd.info t).size

instance (rd : Rd) (t s : Nat) : Decidable (rd.Starts t s) :=
  inferInstanceAs (Decidable (_ ∧ _))

/-- A segment ends at sector `s`, and there is another one behind it. -/
def Rd.EndsAt (rd : Rd) (chain : List Nat) (s : Nat) : Prop :=
  ∃ a b, chain = a ++ b ∧ a ≠ [] ∧ b ≠ [] ∧ s = rd.sectors a

/-- The address at which a block that was looked for is. -/
def Rd.address (rd : Rd) (p : Nat × Nat) : Nat :=
  16 * (rd.segs p.1).segment + wrap 16 (p.2 * 512)

/-- The bytes of the segments are zero. -/
def Rd.Cleared (rd : Rd) (chain : List Nat) (m : Memory) : Prop :=
  ∀ j, j ∈ chain → ∀ k, k < (rd.segs j).segSize * 512 → m (16 * (rd.segs j).segment + k) = 0

/-- A request for a block of disk `t`. -/
def RdRequest.On (r : RdRequest) (rd : Rd) (t : Nat) : Prop :=
  r.rqDev % 8 = t ∧ rd.Starts t r.rqSector

/-- The replies of a store of blocks. -/
def plainReplies : List RdRequest → (Nat → Buffer.Block) → List RdReply
  | [], _ => []
  | r :: queue, f =>
      match r.rqCmd with
      | .write => .written :: plainReplies queue (Function.update f r.rqSector r.rqData)
      | .read => .read (f r.rqSector) :: plainReplies queue f

/-- The replies are those of a store of blocks that are zero. -/
def Answers (rd : Rd) (m : Memory) (queue : List RdRequest) : Prop :=
  ∃ m', doRdRequest rd true queue m = some (plainReplies queue fun _ _ => 0, m')

/-- A disk keeps its blocks: each is in a segment, no two share a byte, and requests
are answered. -/
structure KeepsBlocks (rd : Rd) (t : Nat) (chain : List Nat) : Prop where
  inside : ∀ s, rd.Starts t s → ∃ p, rd.place t s = some p ∧ p.1 ∈ chain ∧
    wrap 16 (p.2 * 512) + 1024 ≤ (rd.segs p.1).segSize * 512
  distinct : ∀ s s' p p', rd.Starts t s → rd.Starts t s' → s ≠ s' →
    rd.place t s = some p → rd.place t s' = some p' →
      rd.address p + 1024 ≤ rd.address p' ∨ rd.address p' + 1024 ≤ rd.address p
  answers : ∀ m, rd.Cleared chain m → ∀ queue : List RdRequest,
    (∀ r, r ∈ queue → r.On rd t) → Answers rd m queue

end Disk

section Copies

variable {m : Memory} {segment a segment' a' : Nat} {b : Buffer.Block}

/-- The bytes that a copy leaves behind, byte for byte. -/
theorem foldl_update {base : Nat} {l : List (Fin blockSize)} (hl : l.Nodup) :
    (∀ k, k ∈ l → l.foldl (fun m k => Function.update m (base + k.val) (b k)) m (base + k.val) =
        b k) ∧
      ∀ x, (∀ k, k ∈ l → x ≠ base + k.val) →
        l.foldl (fun m k => Function.update m (base + k.val) (b k)) m x = m x := by
  induction l generalizing m with
  | nil => exact ⟨fun k hk => absurd hk List.not_mem_nil, fun x _ => rfl⟩
  | cons i l ih =>
      obtain ⟨hout, hnodup⟩ := List.nodup_cons.mp hl
      obtain ⟨hin, hother⟩ := ih (m := Function.update m (base + i.val) (b i)) hnodup
      refine ⟨fun k hk => ?_, fun x hx => ?_⟩
      · rw [List.foldl_cons]
        rcases List.mem_cons.mp hk with rfl | hmem
        · rw [hother, Function.update_self]
          intro j hj he
          have hval : k.val = j.val := Nat.add_left_cancel he
          exact hout (Fin.ext hval ▸ hj)
        · exact hin k hmem
      · rw [List.foldl_cons, hother x fun k hk => hx k (List.mem_cons_of_mem i hk),
          Function.update_of_ne (hx i List.mem_cons_self)]

/-- A copy that does not reach the end of the 64 kilobytes. -/
theorem wrap_add (ha : wrap 16 a + 1024 ≤ 65536) (k : Fin blockSize) :
    16 * segment + wrap 16 (a + k) = 16 * segment + wrap 16 a + k := by
  have hk : k.val < 1024 := k.isLt
  unfold wrap at ha ⊢
  omega

theorem fmemcpyTo_eq (ha : wrap 16 a + 1024 ≤ 65536) :
    fmemcpyTo m segment a b = (List.finRange blockSize).foldl
      (fun m k => Function.update m (16 * segment + wrap 16 a + k.val) (b k)) m := by
  unfold fmemcpyTo
  congr 1
  funext m k
  rw [wrap_add ha]

theorem fmemcpy_same (ha : wrap 16 a + 1024 ≤ 65536) :
    fmemcpyFrom (fmemcpyTo m segment a b) segment a = b := by
  funext k
  rw [fmemcpyFrom, fmemcpyTo_eq ha, wrap_add ha]
  exact (foldl_update (List.nodup_finRange _)).1 k (List.mem_finRange k)

theorem fmemcpy_apart (ha : wrap 16 a + 1024 ≤ 65536) (ha' : wrap 16 a' + 1024 ≤ 65536)
    (hapart : 16 * segment + wrap 16 a + 1024 ≤ 16 * segment' + wrap 16 a' ∨
      16 * segment' + wrap 16 a' + 1024 ≤ 16 * segment + wrap 16 a) :
    fmemcpyFrom (fmemcpyTo m segment a b) segment' a' = fmemcpyFrom m segment' a' := by
  funext k
  have hk : k.val < 1024 := k.isLt
  rw [fmemcpyFrom, fmemcpyFrom, fmemcpyTo_eq ha, wrap_add ha']
  refine (foldl_update (List.nodup_finRange _)).2 _ fun i _ => ?_
  have hi : i.val < 1024 := i.isLt
  omega

end Copies

section Walk

variable {rd : Rd} {t s : Nat} {chain : List Nat}

theorem sectors_cons (j : Nat) (l : List Nat) :
    rd.sectors (j :: l) = (rd.segs j).segSize + rd.sectors l := by
  rw [Rd.sectors, List.map_cons, List.sum_cons]
  rfl

theorem sectors_append (a b : List Nat) : rd.sectors (a ++ b) = rd.sectors a + rd.sectors b := by
  rw [Rd.sectors, List.map_append, List.sum_append]
  rfl

/-- Sector `s` was looked for in segment `j` of the chain. -/
structure Found (rd : Rd) (l : List Nat) (s j offset : Nat) (a b : List Nat) : Prop where
  split : l = a ++ j :: b
  start : s = rd.sectors a + offset
  le : offset ≤ (rd.segs j).segSize
  pos : a ≠ [] → 0 < offset
  more : offset = (rd.segs j).segSize → b ≠ []

theorem findSegment_found {rounds i : Nat} {l : List Nat} (hl : Links rd.nextOf (some i) (i :: l))
    (hrounds : l.length < rounds) (hs : s < rd.sectors (i :: l)) :
    ∃ j offset a b, findSegment rd rounds s i = some (j, offset) ∧
      Found rd (i :: l) s j offset a b := by
  induction l generalizing i s rounds with
  | nil =>
      obtain ⟨k, rfl⟩ : ∃ k, rounds = k + 1 :=
        Nat.exists_eq_succ_of_ne_zero (Nat.ne_of_gt hrounds)
      rw [sectors_cons] at hs
      have hlt : s < (rd.segs i).segSize := hs
      refine ⟨i, s, [], [], ?_, rfl, (Nat.zero_add s).symm, hlt.le, fun h => absurd rfl h, ?_⟩
      · rw [findSegment, if_neg (Nat.not_lt.mpr hlt.le)]
      · intro he
        omega
  | cons i' l ih =>
      obtain ⟨k, rfl⟩ : ∃ k, rounds = k + 1 :=
        Nat.exists_eq_succ_of_ne_zero (Nat.ne_of_gt (Nat.zero_lt_of_lt hrounds))
      have hnext : rd.nextOf i = some i' := hl.2.1
      rw [findSegment]
      by_cases hlt : (rd.segs i).segSize < s
      · have hindex : (rd.segs i).next = i' := by
          unfold Rd.nextOf at hnext
          split at hnext
          · cases hnext
          · exact Option.some.inj hnext
        rw [sectors_cons] at hs
        obtain ⟨j, offset, a, b, hfind, hfound⟩ :=
          ih (s := s - (rd.segs i).segSize) (hnext ▸ hl.2) (Nat.lt_of_succ_lt_succ hrounds)
            (by omega)
        rw [if_pos hlt, hindex]
        refine ⟨j, offset, i :: a, b, hfind, ?_, ?_, hfound.le, fun _ => ?_, hfound.more⟩
        · rw [hfound.split, List.cons_append]
        · have hstart := hfound.start
          rw [sectors_cons]
          omega
        · have hstart := hfound.start
          cases a with
          | nil =>
              have hzero : rd.sectors [] = 0 := rfl
              omega
          | cons c a => exact hfound.pos (List.cons_ne_nil c a)
      · rw [if_neg hlt]
        refine ⟨i, s, [], i' :: l, rfl, rfl, (Nat.zero_add s).symm, Nat.not_lt.mp hlt,
          fun h => absurd rfl h, fun _ => List.cons_ne_nil i' l⟩

/-- A block that does not begin at the end of a segment begins inside one. -/
theorem Found.lt {j offset : Nat} {a b : List Nat} (h : Found rd chain s j offset a b)
    (hend : ¬rd.EndsAt chain s) : offset < (rd.segs j).segSize := by
  refine Nat.lt_of_le_of_ne h.le fun he => hend ⟨a ++ [j], b, ?_, ?_, h.more he, ?_⟩
  · rw [h.split, List.append_assoc]
    rfl
  · simp
  · have hone : rd.sectors [j] = (rd.segs j).segSize := by
      rw [sectors_cons]
      rfl
    rw [sectors_append, hone, h.start, he]

end Walk

section Disk

variable {rd : Rd} {t s : Nat} {chain : List Nat} {f : Nat → Buffer.Block} {m : Memory}
  {p : Nat × Nat}

theorem RamDisk.length_le (h : RamDisk rd t chain) : chain.length ≤ maxEntries := by
  have hsub : chain ⊆ List.range maxEntries := fun j hj => List.mem_range.mpr (h.entry j hj)
  have hle := (List.subperm_of_subset h.links.nodup hsub).length_le
  rwa [List.length_range] at hle

theorem RamDisk.sectors_le (h : RamDisk rd t chain) : rd.sectors chain ≤ 1024 := by
  have hsum : rd.sectors chain ≤ chain.length * 128 := by
    unfold Rd.sectors
    refine (List.sum_le_card_nsmul _ 128 fun n hn => ?_).trans_eq (by simp)
    obtain ⟨j, hj, rfl⟩ := List.mem_map.mp hn
    exact (h.small j hj).2
  have hlength := h.length_le
  unfold maxEntries at hlength
  omega

theorem RamDisk.walk (h : RamDisk rd t chain) (hs : s < (rd.info t).size) :
    ∃ j offset a b, rd.place t s = some (j, offset) ∧ Found rd chain s j offset a b := by
  have hlinks := h.links
  have hlength := h.length_le
  rw [h.size] at hs
  cases chain with
  | nil => exact absurd hs (Nat.not_lt_zero s)
  | cons i l =>
      have hfirst : (rd.info t).index = i := Option.some.inj hlinks.1
      rw [hfirst] at hlinks
      rw [List.length_cons] at hlength
      unfold Rd.place
      rw [hfirst]
      exact findSegment_found hlinks (by omega) hs

theorem RamDisk.sectors_even (h : RamDisk rd t chain) {a : List Nat} (ha : a ⊆ chain) :
    rd.sectors a % 2 = 0 := by
  induction a with
  | nil => rfl
  | cons j a ih =>
      have hj := h.even j (ha List.mem_cons_self)
      have hrest := ih fun i hi => ha (List.mem_cons_of_mem j hi)
      rw [sectors_cons]
      omega

/-- A block that does not begin at the end of a segment is in its segment. -/
theorem RamDisk.inside {j offset : Nat} {a b : List Nat} (h : RamDisk rd t chain) (hs : s % 2 = 0)
    (hend : ¬rd.EndsAt chain s) (hfound : Found rd chain s j offset a b) :
    j ∈ chain ∧ wrap 16 (offset * 512) = offset * 512 ∧
      offset * 512 + 1024 ≤ (rd.segs j).segSize * 512 ∧ offset % 2 = 0 ∧
      wrap 16 (offset * 512) + 1024 ≤ 65536 := by
  have hj : j ∈ chain := by
    rw [hfound.split]
    simp
  have ha : a ⊆ chain := by
    rw [hfound.split]
    exact List.subset_append_left a _
  have hlt := hfound.lt hend
  have hstart := hfound.start
  have heven := h.sectors_even ha
  have hsize := h.even j hj
  have hsmall := (h.small j hj).2
  have hwrap : wrap 16 (offset * 512) = offset * 512 := wrap_of_lt (by omega)
  refine ⟨hj, hwrap, ?_, ?_, ?_⟩
  · omega
  · omega
  · rw [hwrap]
    omega

theorem RamDisk.blocks_apart {s' j offset j' offset' : Nat} {a b a' b' : List Nat}
    (h : RamDisk rd t chain) (hs : s % 2 = 0) (hs' : s' % 2 = 0) (hend : ¬rd.EndsAt chain s)
    (hend' : ¬rd.EndsAt chain s') (hne : s ≠ s') (hfound : Found rd chain s j offset a b)
    (hfound' : Found rd chain s' j' offset' a' b') :
    rd.address (j, offset) + 1024 ≤ rd.address (j', offset') ∨
      rd.address (j', offset') + 1024 ≤ rd.address (j, offset) := by
  obtain ⟨hj, hwrap, hin, heven, -⟩ := h.inside hs hend hfound
  obtain ⟨hj', hwrap', hin', heven', -⟩ := h.inside hs' hend' hfound'
  unfold Rd.address
  dsimp only
  rw [hwrap, hwrap']
  by_cases hjj : j = j'
  · subst hjj
    -- the same segment: what is before it is the same, so the offsets differ
    have hnodup := h.links.nodup
    have hout : j ∉ a ∧ j ∉ b := by
      rw [hfound.split] at hnodup
      have hmiddle := List.nodup_middle.mp hnodup
      have hnot := (List.nodup_cons.mp hmiddle).1
      rw [List.mem_append, not_or] at hnot
      exact hnot
    have hsame : a = a' :=
      ((List.append_cons_inj_of_notMem hout.1 hout.2).mp
        (hfound.split.symm.trans hfound'.split)).1
    have hstart := hfound.start
    have hstart' := hfound'.start
    rw [← hsame] at hstart'
    omega
  · have hapart := h.apart j hj j' hj' hjj
    omega

/-- The blocks that do not begin at the end of a segment are those of `f`. -/
def Holds (rd : Rd) (t : Nat) (chain : List Nat) (f : Nat → Buffer.Block) (m : Memory) : Prop :=
  ∀ s p, rd.Starts t s → ¬rd.EndsAt chain s → rd.place t s = some p →
    fmemcpyFrom m (rd.segs p.1).segment (p.2 * 512) = f s

theorem RamDisk.found_of_place (h : RamDisk rd t chain) (hs : s < (rd.info t).size)
    (hp : rd.place t s = some p) : ∃ a b, Found rd chain s p.1 p.2 a b := by
  obtain ⟨j, offset, a, b, hplace, hfound⟩ := h.walk hs
  obtain rfl := Option.some.inj (hplace.symm.trans hp)
  exact ⟨a, b, hfound⟩

theorem RamDisk.holds_cleared (h : RamDisk rd t chain) (hm : rd.Cleared chain m) :
    Holds rd t chain (fun _ _ => 0) m := by
  intro s p hs hend hp
  obtain ⟨a, b, hfound⟩ := h.found_of_place hs.2 hp
  obtain ⟨hj, hwrap, hin, -, hroom⟩ := h.inside hs.1 hend hfound
  funext k
  have hk : k.val < 1024 := k.isLt
  rw [fmemcpyFrom, wrap_add hroom, hwrap, Nat.add_assoc]
  exact hm p.1 hj _ (by omega)

theorem RamDisk.holds_write {b : Buffer.Block} (h : RamDisk rd t chain) (hm : Holds rd t chain f m)
    (hs : rd.Starts t s) (hend : ¬rd.EndsAt chain s) (hp : rd.place t s = some p) :
    Holds rd t chain (Function.update f s b)
      (fmemcpyTo m (rd.segs p.1).segment (p.2 * 512) b) := by
  obtain ⟨a, c, hfound⟩ := h.found_of_place hs.2 hp
  obtain ⟨-, -, -, -, hroom⟩ := h.inside hs.1 hend hfound
  intro s' p' hs' hend' hp'
  by_cases hss : s' = s
  · subst hss
    obtain rfl := Option.some.inj (hp.symm.trans hp')
    rw [Function.update_self]
    exact fmemcpy_same hroom
  · obtain ⟨a', c', hfound'⟩ := h.found_of_place hs'.2 hp'
    obtain ⟨-, -, -, -, hroom'⟩ := h.inside hs'.1 hend' hfound'
    have hapart := h.blocks_apart hs.1 hs'.1 hend hend' (Ne.symm hss) hfound hfound'
    unfold Rd.address at hapart
    rw [Function.update_of_ne hss, fmemcpy_apart hroom hroom' hapart]
    exact hm s' p' hs' hend' hp'

theorem RamDisk.answers {queue : List RdRequest} (h : RamDisk rd t chain)
    (hm : Holds rd t chain f m) (hon : ∀ r, r ∈ queue → r.On rd t)
    (hend : ∀ r, r ∈ queue → ¬rd.EndsAt chain r.rqSector) :
    ∃ m', doRdRequest rd true queue m = some (plainReplies queue f, m') := by
  induction queue generalizing m f with
  | nil => exact ⟨m, rfl⟩
  | cons r queue ih =>
      obtain ⟨htarget, hs⟩ := hon r List.mem_cons_self
      have hrest := fun q hq => hon q (List.mem_cons_of_mem r hq)
      have hrest' := fun q hq => hend q (List.mem_cons_of_mem r hq)
      have hends := hend r List.mem_cons_self
      have hlt : r.rqSector < 1024 := by
        have hle := h.sectors_le
        rw [← h.size] at hle
        exact Nat.lt_of_lt_of_le hs.2 hle
      have hwrap : wrap 16 r.rqSector = r.rqSector := wrap_of_lt (by omega)
      obtain ⟨j, offset, a, b, hplace, hfound⟩ := h.walk hs.2
      have hgood : ¬((rd.info t).flags ≠ 1 ∨ (rd.info t).size ≤ r.rqSector) := by
        rintro (hflags | hsize)
        · exact hflags h.busy
        · exact absurd hs.2 (Nat.not_lt.mpr hsize)
      rw [doRdRequest, if_neg (by omega)]
      simp only [rdRequest, Bool.true_eq_false, if_false, htarget, hwrap, if_neg hgood, hplace,
        plainReplies]
      cases r.rqCmd with
      | write =>
          obtain ⟨m', hrun⟩ := ih (h.holds_write (b := r.rqData) hm hs hends hplace) hrest hrest'
          refine ⟨m', ?_⟩
          dsimp only at hrun ⊢
          simp only [Option.bind_eq_bind, Option.bind_some, hrun]
          rfl
      | read =>
          obtain ⟨m', hrun⟩ := ih hm hrest hrest'
          refine ⟨m', ?_⟩
          dsimp only
          simp only [Option.bind_eq_bind, Option.bind_some, hrun]
          rw [hm _ _ hs hends hplace]
          rfl

theorem RamDisk.not_keeps {i i' : Nat} {l : List Nat} (h : RamDisk rd t (i :: i' :: l)) :
    ¬KeepsBlocks rd t (i :: i' :: l) := by
  intro hkeeps
  have hlinks := h.links
  have hfirst : (rd.info t).index = i := Option.some.inj hlinks.1
  have hsmall := h.small i List.mem_cons_self
  have hsmall' := h.small i' (by simp)
  have hsize : (rd.info t).size = (rd.segs i).segSize + ((rd.segs i').segSize + rd.sectors l) := by
    rw [h.size, sectors_cons, sectors_cons]
  have hplace : ∀ s, s ≤ (rd.segs i).segSize → rd.place t s = some (i, s) := by
    intro s hs
    rw [Rd.place, hfirst, findSegment, if_neg (Nat.not_lt.mpr hs)]
  have hstarts : rd.Starts t (rd.segs i).segSize :=
    ⟨h.even i List.mem_cons_self, by omega⟩
  by_cases hfull : (rd.segs i).segSize = 128
  · have hzero : rd.Starts t 0 := ⟨rfl, by omega⟩
    have hapart := hkeeps.distinct 0 (rd.segs i).segSize (i, 0) (i, (rd.segs i).segSize) hzero
      hstarts (by omega) (hplace 0 (Nat.zero_le _)) (hplace _ (Nat.le_refl _))
    simp only [Rd.address, hfull, wrap] at hapart
    omega
  · obtain ⟨p, hp, -, hin⟩ := hkeeps.inside _ hstarts
    obtain rfl := Option.some.inj ((hplace _ (Nat.le_refl _)).symm.trans hp)
    simp only [wrap] at hin
    omega

end Disk

/-- **RAM disks.**  The walk for a block of a disk ends in the chain of the disk.  The
disk keeps its blocks exactly if it has one segment.  With more segments, requests
are answered as by a store of blocks in every queue without a request for the block
at the end of a segment. -/
theorem rd_stores_iff
    {rd : Rd} {t : Nat} {chain : List Nat}
    (h : RamDisk rd t chain) :
    (∀ s, rd.Starts t s → ∃ p, rd.place t s = some p ∧ p.1 ∈ chain) ∧
      (KeepsBlocks rd t chain ↔ chain.length = 1) ∧
      ∀ m, rd.Cleared chain m → ∀ queue : List RdRequest,
        (∀ r, r ∈ queue → r.On rd t ∧ ¬rd.EndsAt chain r.rqSector) → Answers rd m queue := by
  have hwalk : ∀ s, rd.Starts t s → ∃ p, rd.place t s = some p ∧ p.1 ∈ chain := by
    intro s hs
    obtain ⟨j, offset, a, b, hplace, hfound⟩ := h.walk hs.2
    refine ⟨(j, offset), hplace, ?_⟩
    rw [hfound.split]
    simp
  refine ⟨hwalk, ⟨fun hkeeps => ?_, fun hone => ?_⟩, fun m hm queue hqueue => ?_⟩
  · cases chain with
    | nil => cases h.links
    | cons i l =>
        cases l with
        | nil => rfl
        | cons i' l => exact absurd hkeeps h.not_keeps
  · -- with one segment no other one is behind an end
    have hends : ∀ s, ¬rd.EndsAt chain s := by
      rintro s ⟨a, b, rfl, ha, hb, -⟩
      have ha' := List.length_pos_iff.mpr ha
      have hb' := List.length_pos_iff.mpr hb
      rw [List.length_append] at hone
      omega
    refine ⟨fun s hs => ?_, fun s s' p p' hs hs' hne hp hp' => ?_, fun m hm queue hqueue => ?_⟩
    · obtain ⟨p, hp, -⟩ := hwalk s hs
      obtain ⟨a, b, hfound⟩ := h.found_of_place hs.2 hp
      obtain ⟨hj, hwrap, hin, -⟩ := h.inside hs.1 (hends s) hfound
      refine ⟨p, hp, hj, ?_⟩
      rw [hwrap]
      exact hin
    · obtain ⟨a, b, hfound⟩ := h.found_of_place hs.2 hp
      obtain ⟨a', b', hfound'⟩ := h.found_of_place hs'.2 hp'
      exact h.blocks_apart hs.1 hs'.1 (hends s) (hends s') hne hfound hfound'
    · exact h.answers (h.holds_cleared hm) hqueue fun r _ => hends r.rqSector
  · exact h.answers (h.holds_cleared hm) (fun r hr => (hqueue r hr).1) fun r hr => (hqueue r hr).2

/-- The preloaded disk, which has two full segments. -/
def preloaded : Rd where
  info := fun t => if t = 0 then { index := 0, flags := 1, size := 256 }
    else { index := 0, flags := 0, size := 0 }
  segs := fun j =>
    if j = 0 then { segment := 0x6000, next := 1, segSize := 128 }
    else if j = 1 then { segment := 0x7000, next := maxEntries + 1, segSize := 128 }
    else { segment := 0, next := maxEntries + 1, segSize := 0 }
  held := [0x6000, 0x7000]

theorem preloaded_disk : RamDisk preloaded 0 [0, 1] where
  busy := rfl
  links := ⟨rfl, rfl, rfl⟩
  entry := by decide
  small := by decide
  even := by decide
  size := rfl
  apart := by decide

/-- Its blocks are kept in queues that leave sector 128 alone. -/
theorem rd_stores_preloaded :
    RamDisk preloaded 0 [0, 1] ∧
      (∀ s, preloaded.Starts 0 s → ∃ p, preloaded.place 0 s = some p ∧ p.1 ∈ [0, 1]) ∧
      (KeepsBlocks preloaded 0 [0, 1] ↔ [0, 1].length = 1) ∧
      ∀ m, preloaded.Cleared [0, 1] m → ∀ queue : List RdRequest,
        (∀ r, r ∈ queue → r.On preloaded 0 ∧ ¬preloaded.EndsAt [0, 1] r.rqSector) →
          Answers preloaded m queue :=
  ⟨preloaded_disk, rd_stores_iff preloaded_disk⟩

/-- The block at sector 128 of the preloaded disk is the one at sector 0: what is
written to one is read from the other. -/
theorem preloaded_aliased :
    RamDisk preloaded 0 [0, 1] ∧ preloaded.Starts 0 0 ∧ preloaded.Starts 0 128 ∧
      ¬KeepsBlocks preloaded 0 [0, 1] ∧
      ∀ m b, ∃ m', doRdRequest preloaded true
        [{ rqDev := 0x100, rqCmd := .write, rqSector := 0, rqData := b },
          { rqDev := 0x100, rqCmd := .read, rqSector := 128, rqData := b }] m =
        some ([.written, .read b], m') := by
  refine ⟨preloaded_disk, by decide, by decide, preloaded_disk.not_keeps, fun m b => ?_⟩
  have hsame : fmemcpyFrom (fmemcpyTo m 0x6000 0 b) 0x6000 65536 = b := by
    have hwrap : ∀ k, wrap 16 (65536 + k) = wrap 16 (0 + k) := by
      intro k
      unfold wrap
      omega
    calc fmemcpyFrom (fmemcpyTo m 0x6000 0 b) 0x6000 65536
        = fmemcpyFrom (fmemcpyTo m 0x6000 0 b) 0x6000 0 := by
          funext k
          rw [fmemcpyFrom, fmemcpyFrom, hwrap]
      _ = b := fmemcpy_same (by decide)
  have hgood : ∀ s, s ≤ 128 → ¬((preloaded.info 0).flags ≠ 1 ∨ (preloaded.info 0).size ≤ s) := by
    rintro s hs (hflags | hsize)
    · exact hflags rfl
    · exact absurd (Nat.le_trans hsize hs) (by decide)
  have hfirst : preloaded.place 0 0 = some (0, 0) := by decide
  have hsecond : preloaded.place 0 128 = some (0, 128) := by decide
  have hzero : wrap 16 0 = 0 := rfl
  have hmiddle : wrap 16 128 = 128 := rfl
  have htarget : 0x100 % 8 = 0 := rfl
  have hsegment : (preloaded.segs 0).segment = 0x6000 := rfl
  refine ⟨fmemcpyTo m 0x6000 0 b, ?_⟩
  simp only [doRdRequest, rdRequest, Bool.true_eq_false, if_false, htarget, hzero, hmiddle,
    if_neg (hgood 0 (by decide)), if_neg (hgood 128 (by decide)), hfirst, hsecond]
  simp [hsegment, hsame]

end Block
end Elks
