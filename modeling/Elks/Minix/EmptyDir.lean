import Elks.Minix.DirScan

/-!
# Which directories minix_rmdir removes (fs/minix/namei.c)

`empty_dir` maps the first block of the directory into L1 and reads "." and ".."
there.  Its loop starts in that block; the further blocks it reads with
`minix_bread` only, so `b_data` is `NULL` if the buffer is in L2, and what is
then read are the first bytes of the kernel data segment.

`Levels` says which blocks of a directory are in L1 when they are read, and what
is read through `NULL`.  The functions below are those of `DirPins` without the
counts of the buffers, with what is read and from where.

* `emptyReads_resident`: with every block in L1 the loop answers what it answers
  in `DirPins`;
* `emptyDir_safe_iff`: when `empty_dir` calls a directory empty, it is, and was
  read from L1, exactly if `DirSafe` holds of it;
* `rmdir_safe_iff`: the same of `minix_rmdir`, which removes what `empty_dir`
  calls empty.
-/

namespace Elks
namespace Pins

open Minix (Errno)

/-- Where the blocks of the directories are when `minix_bread` has returned them,
and what is read through `NULL` at an offset. -/
structure Levels (ι : Type) where
  inL1 : ι → Nat → Bool
  nullEntry : Nat → DirEntry

section Code

variable {ι β : Type}

/-- The entry read at an offset of `b_data`, which is `NULL` outside L1. -/
def entryThrough (W : DirWorld ι β) (L : Levels ι) (bh : β) (inL1 : Bool)
    (offset : Nat) : DirEntry :=
  if inL1 then W.entry bh offset else L.nullEntry offset

/-- The loop of `empty_dir`: its answer, and for each entry it reads whether the
buffer is in L1.  The buffer kept by the loop comes with that information. -/
def emptyReads (W : DirWorld ι β) (L : Levels ι) (inode : ι) :
    Nat → Nat → Nat → Option (β × Bool) → Option (Bool × List Bool)
  | 0, _, _, _ => none
  | fuel + 1, block, offset, bh =>
      if block * 1024 + offset < W.iSize inode then
        match bh.or ((W.block inode block).map fun bh => (bh, L.inL1 inode block)) with
        | none => emptyReads W L inode fuel ((block + 1) % 65536) offset none
        | some (bh, inL1) =>
            if (entryThrough W L bh inL1 offset).inode ≠ 0 then
              some (false, [inL1])
            else if offset + sDirsize < 1024 then
              (emptyReads W L inode fuel block (offset + sDirsize)
                (some (bh, inL1))).map fun r => (r.1, inL1 :: r.2)
            else
              (emptyReads W L inode fuel ((block + 1) % 65536) 0 none).map
                fun r => (r.1, inL1 :: r.2)
      else some (true, [])

/-- The first block has "." and ".." in their places. -/
def HasDots (W : DirWorld ι β) (bh : β) : Prop :=
  (W.entry bh 0).inode ≠ 0 ∧ isNamed [46] (W.entry bh 0) ∧
    (W.entry bh sDirsize).inode ≠ 0 ∧ isNamed [46, 46] (W.entry bh sDirsize)

instance (W : DirWorld ι β) (bh : β) : Decidable (HasDots W bh) :=
  inferInstanceAs (Decidable (_ ∧ _))

/-- `empty_dir`.  The first block is mapped; a directory that looks bad counts as
empty. -/
def emptyDirReads (W : DirWorld ι β) (L : Levels ι) (fuel : Nat) (inode : ι) :
    Option (Bool × List Bool) :=
  if W.iSize inode % sDirsize ≠ 0 ∨ W.iSize inode < 2 * sDirsize then
    some (true, [])
  else
    match W.block inode 0 with
    | none => some (true, [])
    | some bh =>
        if HasDots W bh then
          (emptyReads W L inode fuel 0 (2 * sDirsize) (some (bh, true))).map
            fun r => (r.1, true :: true :: r.2)
        else
          some (true, [true, true])

/-- `minix_rmdir`: its result, and from where `empty_dir` has read. -/
def rmdirReads [DecidableEq ι] (W : DirWorld ι β) (L : Levels ι)
    (fuel fuel' : Nat) (dir : ι) (name : List UInt8) :
    Option (Option Errno × List Bool) :=
  match W.find fuel dir name with
  | none => none
  | some none => some (some .enoent, [])
  | some (some (bh, offset)) =>
      let inode := W.named (W.entry bh offset).inode
      match rmdirCheck W dir inode with
      | some error => some (some error, [])
      | none =>
          (emptyDirReads W L fuel' inode).map fun r =>
            (if ¬r.1 then some .enotempty
              else if (W.entry bh offset).inode ≠ W.iIno inode then some .enoent
              else if W.isBusy inode then some .ebusy
              else none, r.2)

end Code

section Walk

variable {ι β : Type} {W : DirWorld ι β} {L : Levels ι} {inode : ι}

theorem emptyReads_resident (hall : ∀ b, L.inL1 inode b = true) (fuel : Nat) :
    ∀ block offset (bh : Option β),
      (emptyReads W L inode fuel block offset (bh.map (·, true))).map Prod.fst =
        (emptyScan W inode fuel block offset bh).map Prod.fst := by
  induction fuel with
  | zero => exact fun _ _ _ => rfl
  | succ fuel ih =>
      intro block offset bh
      have hread : ∀ b : β, entryThrough W L b true offset = W.entry b offset :=
        fun b => if_pos rfl
      unfold emptyReads emptyScan
      by_cases hsize : block * 1024 + offset < W.iSize inode
      · simp only [if_pos hsize, hall]
        have hor : (bh.map (·, true)).or ((W.block inode block).map (·, true)) =
            (bh.or (W.block inode block)).map (·, true) := by
          cases bh <;> rfl
        rw [hor]
        cases bh.or (W.block inode block) with
        | none => exact ih _ _ none
        | some b =>
            simp only [Option.map_some, hread]
            by_cases hlive : (W.entry b offset).inode ≠ 0
            · simp only [if_pos hlive]
              rfl
            · simp only [if_neg hlive]
              by_cases hoffset : offset + sDirsize < 1024
              · simp only [if_pos hoffset, Option.map_map]
                exact ih _ _ (some b)
              · simp only [if_neg hoffset, Option.map_map]
                exact ih _ _ none
      · simp only [if_neg hsize]
        rfl

/-- The reads of block `b` are from L1. -/
def readInL1 (L : Levels ι) (inode : ι) (b : Nat) : Bool :=
  b = 0 || L.inL1 inode b

/-- The loop of `empty_dir` as a walk, as long as the block numbers do not
wrap. -/
def emptyWalk (W : DirWorld ι β) (L : Levels ι) (inode : ι) : EntryWalk where
  there := fun b => (W.block inode b).isSome
  atEnd := fun n => W.iSize inode ≤ n * 16
  hit := fun n =>
    (W.block inode (n / 64)).any fun bh =>
      (entryThrough W L bh (readInL1 L inode (n / 64)) (n % 64 * 16)).inode ≠ 0

/-- The walk comes to the end of the directory before the block numbers wrap. -/
def EntryWalk.Inside (w : EntryWalk) : Prop :=
  ∀ n, n < entryLimit → w.Visited n → ¬w.atEnd n = true → w.next n < entryLimit

theorem emptyReads_eq_run (hinside : (emptyWalk W L inode).Inside) (fuel : Nat) :
    ∀ {n : Nat} {bh : Option (β × Bool)}, n < entryLimit →
      (emptyWalk W L inode).Visited n →
      bh.or ((W.block inode (n / 64)).map fun b => (b, L.inL1 inode (n / 64))) =
        (W.block inode (n / 64)).map (fun b => (b, readInL1 L inode (n / 64))) →
      emptyReads W L inode fuel (n / 64) (n % 64 * 16) bh =
        ((emptyWalk W L inode).run fuel n).map fun r =>
          (r.2.isNone, r.1.map fun p => readInL1 L inode (p / 64)) := by
  induction fuel with
  | zero =>
      intro n bh _ _ _
      rfl
  | succ fuel ih =>
      intro n bh hn hv hbh
      have hpos : n / 64 * 1024 + n % 64 * 16 = n * 16 := by omega
      rw [emptyReads, EntryWalk.run, hpos]
      by_cases hsize : n * 16 < W.iSize inode
      · have hatEnd : ¬(emptyWalk W L inode).atEnd n = true := by
          simp only [emptyWalk, decide_eq_true_eq]
          omega
        have hnext := hinside n hn hv hatEnd
        have hv' := hv.next hn
        rw [Nat.mod_eq_of_lt hnext] at hv'
        have hlater : ∀ m, 1 ≤ m → readInL1 L inode m = L.inL1 inode m := by
          intro m hm
          have : m ≠ 0 := by omega
          simp [readInL1, this]
        simp only [if_pos hsize, if_neg hatEnd, hbh]
        unfold entryLimit at *
        cases hb : W.block inode (n / 64) with
        | none =>
            have hthere : ¬(emptyWalk W L inode).there (n / 64) = true := by
              simp [emptyWalk, hb]
            have h0 : n % 64 = 0 := hv.resolve_right hthere
            simp only [EntryWalk.next, if_neg hthere] at hv' hnext
            have hrest := @ih _ none hnext hv' (by
              rw [hlater ((n + 64) / 64) (by omega)]
              rfl)
            simp only [Option.map_none, if_neg hthere]
            rw [Nat.mod_eq_of_lt hnext, ← hrest,
              show (n + 64) / 64 = (n / 64 + 1) % 65536 by omega,
              show (n + 64) % 64 = n % 64 by omega]
        | some b =>
            have hthere : (emptyWalk W L inode).there (n / 64) = true := by
              simp [emptyWalk, hb]
            have hhit : (emptyWalk W L inode).hit n =
                decide ((entryThrough W L b (readInL1 L inode (n / 64))
                  (n % 64 * 16)).inode ≠ 0) := by
              simp [emptyWalk, hb]
            simp only [Option.map_some, if_pos hthere, hhit, decide_eq_true_eq]
            simp only [EntryWalk.next, if_pos hthere] at hv' hnext
            rw [Nat.mod_eq_of_lt hnext]
            by_cases hlive : (entryThrough W L b (readInL1 L inode (n / 64))
                (n % 64 * 16)).inode ≠ 0
            · simp [if_pos hlive]
            · simp only [if_neg hlive, Option.map_map]
              by_cases hlast : n % 64 = 63
              · have hoffset : ¬n % 64 * 16 + sDirsize < 1024 := by
                  rw [hlast]
                  decide
                have hrest := @ih _ none hnext hv' (by
                  rw [hlater ((n + 1) / 64) (by omega)]
                  rfl)
                rw [show (n + 1) / 64 = (n / 64 + 1) % 65536 by omega,
                  show (n + 1) % 64 = 0 by omega] at hrest
                simp only [if_neg hoffset]
                rw [hrest, Option.map_map]
                rfl
              · have hoffset : n % 64 * 16 + sDirsize < 1024 := by
                  unfold sDirsize
                  omega
                have hblock : (n + 1) / 64 = n / 64 := by omega
                have hrest := @ih _ (some (b, readInL1 L inode (n / 64)))
                  hnext hv' (by rw [hblock, hb]; rfl)
                rw [hblock, show (n + 1) % 64 = n % 64 + 1 by omega,
                  Nat.add_mul] at hrest
                simp only [if_pos hoffset]
                rw [show n % 64 * 16 + sDirsize = n % 64 * 16 + 1 * 16 from rfl,
                  hrest, Option.map_map]
                rfl
      · have hatEnd : (emptyWalk W L inode).atEnd n = true := by
          simp only [emptyWalk, decide_eq_true_eq]
          omega
        simp only [if_neg hsize, if_pos hatEnd]
        rfl

end Walk

section Safe

variable {ι β : Type} {W : DirWorld ι β} {L : Levels ι} {inode : ι}

/-- Some live entry below `i_size` is neither "." nor "..". -/
def HasOther (W : DirWorld ι β) (inode : ι) : Prop :=
  ∃ b k bh, b < 65536 ∧ k < 64 ∧ b * 1024 + k * 16 < W.iSize inode ∧
    W.block inode b = some bh ∧ (W.entry bh (k * 16)).inode ≠ 0 ∧
    ¬isNamed [46] (W.entry bh (k * 16)) ∧ ¬isNamed [46, 46] (W.entry bh (k * 16))

/-- The directory looks as `empty_dir` wants it: whole entries, at least two, and
"." and ".." in the first block. -/
def Headed (W : DirWorld ι β) (inode : ι) : Prop :=
  W.iSize inode % 16 = 0 ∧ 32 ≤ W.iSize inode ∧
    ∃ bh, W.block inode 0 = some bh ∧ HasDots W bh

/-- The directory reaches into the last block that there can be, and the loop does
not come to its end there. -/
def Endless (W : DirWorld ι β) (inode : ι) : Prop :=
  65535 * 1024 < W.iSize inode ∧
    (W.block inode 65535 = none ∨ 65536 * 1024 ≤ W.iSize inode)

/-- Some entry behind the first two reads as a live one. -/
def ReadsLive (W : DirWorld ι β) (L : Levels ι) (inode : ι) : Prop :=
  ∃ b k bh, 2 ≤ b * 64 + k ∧ b < 65536 ∧ k < 64 ∧
    b * 1024 + k * 16 < W.iSize inode ∧ W.block inode b = some bh ∧
    (entryThrough W L bh (readInL1 L inode b) (k * 16)).inode ≠ 0

/-- A directory that looks bad has no other entry; one that looks well is too
large for the loop to end, or has an entry that reads as live, or has all its
further blocks in L1. -/
def DirSafe (W : DirWorld ι β) (L : Levels ι) (inode : ι) : Prop :=
  (¬Headed W inode ∧ ¬HasOther W inode) ∨
    Headed W inode ∧
      (Endless W inode ∨ ReadsLive W L inode ∨
        ∀ b, 1 ≤ b → b < 65536 → b * 1024 < W.iSize inode →
          W.block inode b ≠ none → L.inL1 inode b = true)

/-- When `empty_dir` calls the directory empty, it has no other entry, and all it
has read was in L1. -/
def EmptySound (W : DirWorld ι β) (L : Levels ι) (inode : ι) : Prop :=
  ∀ fuel reads, emptyDirReads W L fuel inode = some (true, reads) →
    ¬HasOther W inode ∧ ∀ m, m ∈ reads → m = true

theorem emptyWalk_there {b : Nat} :
    (emptyWalk W L inode).there b = true ↔ W.block inode b ≠ none := by
  simp [emptyWalk, Option.isSome_iff_ne_none]

theorem emptyWalk_atEnd {n : Nat} :
    (emptyWalk W L inode).atEnd n = true ↔ W.iSize inode ≤ n * 16 := by
  simp [emptyWalk]

theorem index_position (n : Nat) : n / 64 * 1024 + n % 64 * 16 = n * 16 := by
  omega

theorem emptyWalk_inside (hsize : W.iSize inode % 16 = 0) (hends : ¬Endless W inode) :
    (emptyWalk W L inode).Inside := by
  intro n hn hv hatEnd
  rw [emptyWalk_atEnd] at hatEnd
  have hlast : 65535 * 1024 < W.iSize inode →
      W.block inode 65535 ≠ none ∧ W.iSize inode < 65536 * 1024 := by
    intro hlt
    constructor
    · exact fun hnone => hends ⟨hlt, Or.inl hnone⟩
    · by_contra hge
      exact hends ⟨hlt, Or.inr (by omega)⟩
  unfold EntryWalk.next entryLimit at *
  split
  · by_contra hwrap
    have := hlast (by omega)
    omega
  · rename_i hmissing
    have h0 : n % 64 = 0 := hv.resolve_right hmissing
    by_contra hwrap
    have hblock : n / 64 = 65535 := by omega
    rw [emptyWalk_there, hblock] at hmissing
    exact hmissing (hlast (by omega)).1

theorem emptyWalk_ends (hsize : W.iSize inode % 16 = 0) (hlow : 32 ≤ W.iSize inode)
    (hends : ¬Endless W inode) :
    ∃ m, 2 ≤ m ∧ m < entryLimit ∧ (emptyWalk W L inode).Visited m ∧
      (emptyWalk W L inode).StopsAt m := by
  unfold entryLimit
  by_cases hbig : 65535 * 1024 < W.iSize inode
  · refine ⟨65536 * 64 - 1, by omega, by omega, Or.inr ?_, Or.inl ?_⟩
    · rw [emptyWalk_there, show (65536 * 64 - 1) / 64 = 65535 by omega]
      exact fun hnone => hends ⟨hbig, Or.inl hnone⟩
    · rw [emptyWalk_atEnd]
      by_contra hlt
      exact hends ⟨hbig, Or.inr (by omega)⟩
  · refine ⟨(W.iSize inode + 1023) / 1024 * 64, by omega, by omega,
      Or.inl (by omega), Or.inl ?_⟩
    rw [emptyWalk_atEnd]
    omega

theorem emptyReads_endless (hends : Endless W inode) (fuel : Nat) :
    ∀ {block offset : Nat} {bh : Option (β × Bool)} {reads : List Bool},
      block < 65536 → offset < 1024 →
      (offset = 0 ∧ bh = none ∨ W.block inode block ≠ none) →
      emptyReads W L inode fuel block offset bh ≠ some (true, reads) := by
  induction fuel with
  | zero =>
      intro block offset bh reads _ _ _ h
      cases h
  | succ fuel ih =>
      intro block offset bh reads hblock hoffset hthere h
      have hmod : (block + 1) % 65536 < 65536 := Nat.mod_lt _ (by decide)
      have hsize : block * 1024 + offset < W.iSize inode := by
        obtain ⟨hlt, hnone | hge⟩ := hends
        · by_cases h5 : block = 65535
          · have h0 := (hthere.resolve_right (by rw [h5]; simp [hnone])).1
            omega
          · omega
        · omega
      rw [emptyReads, if_pos hsize] at h
      cases hb : W.block inode block with
      | none =>
          obtain ⟨h0, hbh⟩ := hthere.resolve_right (by simp [hb])
          simp only [hb, hbh, Option.map_none, Option.or_none] at h
          exact ih hmod hoffset (Or.inl ⟨h0, rfl⟩) h
      | some b =>
          have hsome : ∃ x, bh.or ((W.block inode block).map
              fun b => (b, L.inL1 inode block)) = some x := by
            rw [hb]
            cases bh <;> simp
          obtain ⟨x, hx⟩ := hsome
          simp only [hx] at h
          split at h
          · cases h
          · split at h
            · rename_i hlt
              obtain ⟨r, hr, he⟩ := Option.map_eq_some_iff.mp h
              have hrest : emptyReads W L inode fuel block (offset + sDirsize)
                  (some (x.1, x.2)) = some (true, r.2) :=
                hr.trans (congrArg some (Prod.ext (Prod.mk.inj he).1 rfl))
              exact ih hblock hlt (Or.inr (by simp [hb])) hrest
            · obtain ⟨r, hr, he⟩ := Option.map_eq_some_iff.mp h
              have hrest : emptyReads W L inode fuel ((block + 1) % 65536) 0 none =
                  some (true, r.2) :=
                hr.trans (congrArg some (Prod.ext (Prod.mk.inj he).1 rfl))
              exact ih hmod (by omega) (Or.inl ⟨rfl, rfl⟩) hrest

theorem emptyReads_headed (hsize : W.iSize inode % 16 = 0) (hends : ¬Endless W inode)
    {bh : β} (hbh : W.block inode 0 = some bh) (fuel : Nat) :
    emptyReads W L inode fuel 0 (2 * sDirsize) (some (bh, true)) =
      ((emptyWalk W L inode).run fuel 2).map fun r =>
        (r.2.isNone, r.1.map fun p => readInL1 L inode (p / 64)) := by
  have hv : (emptyWalk W L inode).Visited 2 := by
    refine Or.inr ?_
    rw [emptyWalk_there]
    simp [hbh]
  exact @emptyReads_eq_run ι β W L inode (emptyWalk_inside hsize hends) fuel
    2 (some (bh, true)) (by decide) hv (by simp [hbh, readInL1])

theorem readsLive_stops {b k : Nat} {bh : β} (hk : k < 64) (hbh : W.block inode b = some bh)
    (hlive : (entryThrough W L bh (readInL1 L inode b) (k * 16)).inode ≠ 0) :
    (emptyWalk W L inode).Visited (b * 64 + k) ∧
      (emptyWalk W L inode).StopsAt (b * 64 + k) := by
  have hdiv : (b * 64 + k) / 64 = b := by omega
  have hmod : (b * 64 + k) % 64 = k := by omega
  have hthere : (emptyWalk W L inode).there ((b * 64 + k) / 64) = true := by
    rw [emptyWalk_there, hdiv]
    simp [hbh]
  refine ⟨Or.inr hthere, Or.inr ⟨hthere, ?_⟩⟩
  simp only [emptyWalk, hdiv, hmod, hbh, Option.any_some]
  exact decide_eq_true hlive

theorem emptySound_headed (hhead : Headed W inode) :
    EmptySound W L inode ↔
      Endless W inode ∨ ReadsLive W L inode ∨
        ∀ b, 1 ≤ b → b < 65536 → b * 1024 < W.iSize inode →
          W.block inode b ≠ none → L.inL1 inode b = true := by
  obtain ⟨hsize, hlow, bh, hbh, hdots⟩ := hhead
  have hwell : ¬(W.iSize inode % sDirsize ≠ 0 ∨ W.iSize inode < 2 * sDirsize) := by
    unfold sDirsize
    omega
  have hrun : ∀ fuel, emptyDirReads W L fuel inode =
      (emptyReads W L inode fuel 0 (2 * sDirsize) (some (bh, true))).map
        fun r => (r.1, true :: true :: r.2) := by
    intro fuel
    rw [emptyDirReads, if_neg hwell]
    simp only [hbh, if_pos hdots]
  by_cases hends : Endless W inode
  · refine iff_of_true ?_ (Or.inl hends)
    intro fuel reads h
    rw [hrun] at h
    obtain ⟨r, hr, he⟩ := Option.map_eq_some_iff.mp h
    have hrest := hr.trans
      (congrArg some (Prod.ext (Prod.mk.inj he).1 rfl : r = (true, r.2)))
    exact absurd hrest (emptyReads_endless hends fuel (by decide) (by decide)
      (Or.inr (by simp [hbh])))
  obtain ⟨m, hm2, hm, hvm, hsm⟩ := emptyWalk_ends (L := L) hsize hlow hends
  have hv : (emptyWalk W L inode).Visited 2 := by
    refine Or.inr ?_
    rw [emptyWalk_there]
    simp [hbh]
  obtain ⟨seen, r, hwalk, hended⟩ :=
    EntryWalk.run_ends (m + 1) hm2 hm (by omega) hv hvm hsm
  have hfinal : ∀ fuel reads, emptyDirReads W L fuel inode = some (true, reads) →
      r = none ∧
        reads = true :: true :: seen.map fun p => readInL1 L inode (p / 64) := by
    intro fuel reads h
    rw [hrun, emptyReads_headed hsize hends hbh, Option.map_map] at h
    obtain ⟨x, hx, he⟩ := Option.map_eq_some_iff.mp h
    have hsame := EntryWalk.run_unique hx hwalk
    subst hsame
    obtain ⟨hnone, hreads⟩ := Prod.mk.inj he
    exact ⟨by simpa using hnone, hreads.symm⟩
  rw [or_iff_right hends]
  constructor
  · intro hsound
    by_contra hno
    push Not at hno
    obtain ⟨hdead, b, hb1, hb, hlt, hthere, hl1⟩ := hno
    have hnone : r = none := by
      cases r with
      | none => rfl
      | some h =>
          obtain ⟨hmem, hhit⟩ := hended.hit h rfl
          obtain ⟨hlim, _, hatEnd⟩ := hended.inside h hmem
          have hge := hended.low h hmem
          unfold entryLimit at hlim
          simp only [emptyWalk, decide_eq_false_iff_not] at hatEnd
          simp only [emptyWalk, Option.any_eq_true, decide_eq_true_eq] at hhit
          obtain ⟨bh', hbh', hlive⟩ := hhit
          have hge' : 2 ≤ h / 64 * 64 + h % 64 := by omega
          have hblock : h / 64 < 65536 := by omega
          have hlt' : h / 64 * 1024 + h % 64 * 16 < W.iSize inode := by
            rw [index_position]
            exact Nat.lt_of_not_le hatEnd
          exact absurd ⟨h / 64, h % 64, bh', hge', hblock,
            Nat.mod_lt _ (by decide), hlt', hbh', hlive⟩ hdead
    have hrun' := hrun (m + 1)
    rw [emptyReads_headed hsize hends hbh, hwalk, hnone] at hrun'
    obtain ⟨_, hreads⟩ := hsound _ _ hrun'
    obtain ⟨e, he, hall⟩ := hended.all hnone
    rw [emptyWalk_atEnd] at he
    have hdiv : b * 64 / 64 = b := by omega
    have hmem := (hall (b * 64) (by omega) (by omega) (Or.inl (by omega))).2
      (by rw [hdiv, emptyWalk_there]; exact hthere)
    have htrue := hreads (readInL1 L inode b) (by
      refine List.mem_cons_of_mem _ (List.mem_cons_of_mem _ ?_)
      refine List.mem_map.mpr ⟨b * 64, hmem, by rw [hdiv]⟩)
    have hb0 : b ≠ 0 := by omega
    simp only [readInL1, hb0, decide_false, Bool.false_or] at htrue
    exact hl1 htrue
  · rintro hcase fuel reads h
    obtain ⟨hnone, hreads⟩ := hfinal fuel reads h
    obtain ⟨e, he, hall⟩ := hended.all hnone
    rw [emptyWalk_atEnd] at he
    have hdead : ¬ReadsLive W L inode := by
      rintro ⟨b, k, bh', hge, hb, hk, hlt, hbh', hlive⟩
      obtain ⟨hvis, hstop⟩ := readsLive_stops hk hbh' hlive
      exact (hall (b * 64 + k) hge (by omega) hvis).1 hstop
    have hl1 := hcase.resolve_left hdead
    have hread : ∀ b, b < 65536 → b * 1024 < W.iSize inode →
        W.block inode b ≠ none → readInL1 L inode b = true := by
      intro b hb hlt hthere
      by_cases hb0 : b = 0
      · simp [readInL1, hb0]
      · simp [readInL1, hl1 b (by omega) hb hlt hthere]
    constructor
    · rintro ⟨b, k, bh', hb, hk, hlt, hbh', hlive, hdot, hdotdot⟩
      by_cases hge : 2 ≤ b * 64 + k
      · refine hdead ⟨b, k, bh', hge, hb, hk, hlt, hbh', ?_⟩
        have hlt' : b * 1024 < W.iSize inode :=
          Nat.lt_of_le_of_lt (Nat.le_add_right _ _) hlt
        rw [entryThrough, if_pos (hread b hb hlt' (by simp [hbh']))]
        exact hlive
      · have hb0 : b = 0 := by omega
        subst hb0
        rw [hbh] at hbh'
        cases hbh'
        rcases Nat.le_one_iff_eq_zero_or_eq_one.mp (by omega : k ≤ 1) with rfl | rfl
        · exact hdot hdots.2.1
        · exact hdotdot hdots.2.2.2
    · intro x hx
      rw [hreads] at hx
      rcases List.mem_cons.mp hx with rfl | hx
      · rfl
      rcases List.mem_cons.mp hx with rfl | hx
      · rfl
      obtain ⟨p, hp, rfl⟩ := List.mem_map.mp hx
      obtain ⟨hlim, hthere, hatEnd⟩ := hended.inside p hp
      unfold entryLimit at hlim
      simp only [emptyWalk, decide_eq_false_iff_not] at hatEnd
      exact hread (p / 64) (by omega) (by omega) (emptyWalk_there.mp hthere)

theorem emptyDir_safe_iff (W : DirWorld ι β) (L : Levels ι) (inode : ι) :
    EmptySound W L inode ↔ DirSafe W L inode := by
  by_cases hhead : Headed W inode
  · rw [emptySound_headed hhead]
    simp [DirSafe, hhead]
  · have hbad : ∀ fuel, ∃ reads, emptyDirReads W L fuel inode = some (true, reads) ∧
        ∀ m, m ∈ reads → m = true := by
      intro fuel
      unfold emptyDirReads
      by_cases hsize : W.iSize inode % sDirsize ≠ 0 ∨ W.iSize inode < 2 * sDirsize
      · exact ⟨[], if_pos hsize, by simp⟩
      · rw [if_neg hsize]
        cases hbh : W.block inode 0 with
        | none => exact ⟨[], rfl, by simp⟩
        | some bh =>
            have hdots : ¬HasDots W bh := by
              intro hdots
              unfold sDirsize at hsize
              exact hhead ⟨by omega, by omega, bh, hbh, hdots⟩
            exact ⟨[true, true], if_neg hdots, by simp⟩
    have hsafe : DirSafe W L inode ↔ ¬HasOther W inode := by
      simp [DirSafe, hhead]
    rw [hsafe]
    constructor
    · intro hsound
      obtain ⟨reads, hreads, _⟩ := hbad 0
      exact (hsound 0 reads hreads).1
    · intro hother fuel reads h
      obtain ⟨reads', hreads', htrue⟩ := hbad fuel
      rw [hreads'] at h
      cases h
      exact ⟨hother, htrue⟩

variable [DecidableEq ι]

/-- When `minix_rmdir` succeeds, the directory it has removed had no other entry,
and all that was read of it was in L1. -/
def RmdirSound (W : DirWorld ι β) (L : Levels ι) (dir : ι) (name : List UInt8) :
    Prop :=
  ∀ fuel fuel' bh offset reads,
    W.find fuel dir name = some (some (bh, offset)) →
    rmdirReads W L fuel fuel' dir name = some (none, reads) →
    ¬HasOther W (W.named (W.entry bh offset).inode) ∧ ∀ m, m ∈ reads → m = true

/-- All that `minix_rmdir` checks besides the contents of the directory. -/
def Removable (W : DirWorld ι β) (dir : ι) (de : DirEntry) : Prop :=
  rmdirCheck W dir (W.named de.inode) = none ∧
    de.inode = W.iIno (W.named de.inode) ∧ ¬W.isBusy (W.named de.inode) = true

theorem rmdirReads_removable {fuel fuel' offset : Nat} {dir : ι} {name : List UInt8} {bh : β}
    (hfind : W.find fuel dir name = some (some (bh, offset))) (reads : List Bool) :
    rmdirReads W L fuel fuel' dir name = some (none, reads) ↔
      Removable W dir (W.entry bh offset) ∧
        emptyDirReads W L fuel' (W.named (W.entry bh offset).inode) =
          some (true, reads) := by
  unfold rmdirReads Removable
  simp only [hfind]
  cases hcheck : rmdirCheck W dir (W.named (W.entry bh offset).inode) with
  | some error => simp
  | none =>
      cases emptyDirReads W L fuel' (W.named (W.entry bh offset).inode) with
      | none => simp
      | some r =>
          obtain ⟨empty, seen⟩ := r
          cases empty with
          | false => simp
          | true =>
              simp only [Option.map_some, Option.some.injEq, Prod.mk.injEq,
                not_true_eq_false, if_false, true_and]
              constructor
              · rintro ⟨hret, rfl⟩
                split at hret
                · cases hret
                · rename_i hino
                  split at hret
                  · cases hret
                  · rename_i hbusy
                    exact ⟨⟨not_not.mp hino, hbusy⟩, rfl⟩
              · rintro ⟨⟨hino, hbusy⟩, rfl⟩
                exact ⟨by rw [if_neg (not_not.mpr hino), if_neg hbusy], rfl⟩

/-- `minix_rmdir` removes only directories without other entries, after having
read them from L1, exactly if every directory that passes its other checks is
safe. -/
theorem rmdir_safe_iff
    (W : DirWorld ι β) (L : Levels ι) (dir : ι) (name : List UInt8) :
    RmdirSound W L dir name ↔
      ∀ fuel bh offset, W.find fuel dir name = some (some (bh, offset)) →
        Removable W dir (W.entry bh offset) →
        DirSafe W L (W.named (W.entry bh offset).inode) := by
  constructor
  · intro hsound fuel bh offset hfind hok
    rw [← emptyDir_safe_iff]
    intro fuel' reads hempty
    exact hsound fuel fuel' bh offset reads hfind
      ((rmdirReads_removable hfind reads).mpr ⟨hok, hempty⟩)
  · intro hsafe fuel fuel' bh offset reads hfind hret
    obtain ⟨hok, hempty⟩ := (rmdirReads_removable hfind reads).mp hret
    exact (emptyDir_safe_iff W L _).mpr (hsafe fuel bh offset hfind hok)
      fuel' reads hempty

end Safe

section Full

/-- A directory "d" of `size` bytes, with "." and ".." in its first block and one
live entry, the first of its second block. -/
def twoBlocks (size : Nat) : DirWorld Bool Nat where
  iSize := fun inode => if inode then size else 48
  iNlink := fun _ => 2
  iIno := fun inode => if inode then 5 else 1
  iDev := fun _ => 1
  isDir := fun _ => true
  isBusy := fun _ => false
  sticky := fun _ _ => false
  block := fun inode b =>
    if inode then if b < 2 then some (b + 1) else none
    else if b = 0 then some 0 else none
  newBlock := fun _ _ => none
  bmapWork := fun _ _ => []
  entry := fun bh offset =>
    if bh = 0 ∧ offset = 32 then dirEntry 5 [100]
    else if bh = 1 ∧ offset = 0 then dirEntry 5 [46]
    else if bh = 1 ∧ offset = 16 then dirEntry 1 [46, 46]
    else if bh = 2 ∧ offset = 0 then dirEntry 7 [102]
    else dirEntry 0 []
  imap := []
  zeroBit := fun _ => false
  inoFits := false
  newIno := true
  named := fun ino => ino = 5
  inodeWork := fun _ => []

/-- Only the first blocks are in L1, and the kernel data segment starts with
zeros. -/
def secondAway : Levels Bool where
  inL1 := fun _ b => b = 0
  nullEntry := fun _ => dirEntry 0 []

/-- A directory with a live entry in its second block is removed, if that block
is in L2 or if the size of the directory is no multiple of an entry. -/
theorem rmdir_removes_full :
    (HasOther (twoBlocks 1040) true ∧
      (rmdirReads (twoBlocks 1040) secondAway 100 100 false [100]).map Prod.fst =
        some none ∧
      ¬RmdirSound (twoBlocks 1040) secondAway false [100]) ∧
    HasOther (twoBlocks 1041) true ∧
      rmdirReads (twoBlocks 1041) secondAway 100 100 false [100] =
        some (none, []) ∧
      ¬RmdirSound (twoBlocks 1041) secondAway false [100] := by
  have hother : ∀ size, 1024 < size → HasOther (twoBlocks size) true := by
    intro size hsize
    have hentry : (twoBlocks size).entry 2 (0 * 16) = dirEntry 7 [102] := rfl
    refine ⟨1, 0, 2, by decide, by decide, hsize, rfl, ?_⟩
    rw [hentry]
    decide
  have hfind : ∀ size, (twoBlocks size).find 100 false [100] =
      some (some (0, 32)) := by
    intro size
    rfl
  have hfirst : (rmdirReads (twoBlocks 1040) secondAway 100 100 false [100]).map
      Prod.fst = some none := by
    decide +kernel
  have hsecond : rmdirReads (twoBlocks 1041) secondAway 100 100 false [100] =
      some (none, []) := by
    decide +kernel
  refine ⟨⟨hother _ (by decide), hfirst, ?_⟩, hother _ (by decide), hsecond, ?_⟩
  · intro hsound
    obtain ⟨r, hr, hnone⟩ := Option.map_eq_some_iff.mp hfirst
    have hret : rmdirReads (twoBlocks 1040) secondAway 100 100 false [100] =
        some (none, r.2) := hr.trans (congrArg some (Prod.ext hnone rfl))
    exact (hsound 100 100 0 32 r.2 (hfind _) hret).1 (hother _ (by decide))
  · intro hsound
    exact (hsound 100 100 0 32 [] (hfind _) hsecond).1 (hother _ (by decide))

end Full

end Pins
end Elks
