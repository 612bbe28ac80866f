import Elks.Minix.DirPins

/-!
# How far minix_find_entry gets (fs/minix/namei.c)

The search of a directory counts its blocks in sixteen bits and multiplies that
count by `BLOCK_SIZE` in sixteen bits too, so the position it compares with
`i_size` starts again from zero at block 64.  `minix_add_entry` computes the same
position with `1024L` and lets a directory grow to 65536 blocks.

`searchTrace` is the search with the positions of the entries it looks at.  An
entry has an index, sixty-four to a block; an `EntryWalk` goes through the
indices in order, over a block that is not there in one step.

* `EntryWalk.run_ends`: up to the first index at which it stops, a walk looks at
  every entry once, in order;
* `EntryWalk.run_spins`: if it stops at no index, it goes round for ever;
* `searchTrace_eq_run`: the search is such a walk;
* `search_complete_iff`: it ends, and finds what is there, exactly if `SearchEnds`
  holds of the directory and the name.
-/

namespace Elks
namespace Pins

section Trace

variable {ι β : Type}

/-- `minix_find_entry` with the positions in the directory of the entries that
it looks at. -/
def searchTrace (W : DirWorld ι β) (dir : ι) (name : List UInt8) :
    Nat → Nat → Nat → Option β → Option (List Nat × Option (β × Nat))
  | 0, _, _, _ => none
  | fuel + 1, block, offset, bh =>
      if block * 1024 % 65536 + offset < W.iSize dir then
        match bh.or (W.block dir block) with
        | none => searchTrace W dir name fuel ((block + 1) % 65536) offset none
        | some bh =>
            if minixMatch name (W.entry bh offset) then
              some ([block * 1024 + offset], some (bh, offset))
            else if offset + sDirsize < 1024 then
              (searchTrace W dir name fuel block (offset + sDirsize) (some bh)).map
                fun r => ((block * 1024 + offset) :: r.1, r.2)
            else
              (searchTrace W dir name fuel ((block + 1) % 65536) 0 none).map
                fun r => ((block * 1024 + offset) :: r.1, r.2)
      else some ([], none)

theorem searchTrace_result (W : DirWorld ι β) (dir : ι) (name : List UInt8) (fuel : Nat) :
    ∀ block offset bh,
      (searchTrace W dir name fuel block offset bh).map Prod.snd =
        findEntry W dir name fuel block offset bh := by
  induction fuel with
  | zero => exact fun _ _ _ => rfl
  | succ fuel ih =>
      intro block offset bh
      unfold searchTrace findEntry
      by_cases hsize : block * 1024 % 65536 + offset < W.iSize dir
      · simp only [if_pos hsize]
        cases bh.or (W.block dir block) with
        | none => exact ih _ _ _
        | some bh =>
            by_cases hmatch : minixMatch name (W.entry bh offset)
            · simp only [if_pos hmatch]
              rfl
            · simp only [if_neg hmatch]
              by_cases hoffset : offset + sDirsize < 1024
              · simp only [if_pos hoffset, Option.map_map, ← ih]
                rfl
              · simp only [if_neg hoffset, Option.map_map, ← ih]
                rfl
      · simp only [if_neg hsize]
        rfl

end Trace

section Walk

/-- The number of entries that sixteen bits of block numbers can address. -/
def entryLimit : Nat := 65536 * 64

/-- A walk over the entries of a directory by their index, sixty-four to a block:
which blocks exist, at which indices the position computed is the end of the
directory, and which entries end the walk. -/
structure EntryWalk where
  there : Nat → Bool
  atEnd : Nat → Bool
  hit : Nat → Bool

namespace EntryWalk

variable {w : EntryWalk} {n m : Nat}

/-- The walk from index `n` on: the indices looked at, and where it was hit. -/
def run (w : EntryWalk) : Nat → Nat → Option (List Nat × Option Nat)
  | 0, _ => none
  | fuel + 1, n =>
      if w.atEnd n then some ([], none)
      else if w.there (n / 64) then
        if w.hit n then some ([n], some n)
        else (w.run fuel ((n + 1) % entryLimit)).map fun r => (n :: r.1, r.2)
      else w.run fuel ((n + 64) % entryLimit)

/-- The walk comes by index `n`: a block is entered at its first entry, and left
there if it does not exist. -/
def Visited (w : EntryWalk) (n : Nat) : Prop :=
  n % 64 = 0 ∨ w.there (n / 64) = true

/-- The walk stops at index `n`. -/
def StopsAt (w : EntryWalk) (n : Nat) : Prop :=
  w.atEnd n = true ∨ w.there (n / 64) = true ∧ w.hit n = true

/-- The index after `n`. -/
def next (w : EntryWalk) (n : Nat) : Nat :=
  if w.there (n / 64) then n + 1 else n + 64

theorem lt_next (n : Nat) : n < w.next n := by
  unfold next
  split <;> omega

/-- The walk comes to the next index, round the end of the block numbers. -/
theorem Visited.next (hn : n < entryLimit) (hv : w.Visited n) :
    w.Visited (w.next n % entryLimit) := by
  unfold EntryWalk.next
  unfold entryLimit at *
  split
  · rename_i hthere
    by_cases hlast : (n + 1) % 64 = 0
    · exact Or.inl (by omega)
    · right
      have hwrap : (n + 1) % (65536 * 64) = n + 1 := by omega
      have hblock : (n + 1) / 64 = n / 64 := by omega
      rw [hwrap, hblock]
      exact hthere
  · rename_i hmissing
    have h0 : n % 64 = 0 := hv.resolve_right hmissing
    exact Or.inl (by omega)

theorem next_le (hv : w.Visited n) (hvm : w.Visited m) (hnm : n < m) : w.next n ≤ m := by
  unfold next
  split
  · omega
  · rename_i hmissing
    have h0 : n % 64 = 0 := hv.resolve_right hmissing
    by_contra hlt
    rcases hvm with h64 | hthere
    · omega
    · have hblock : m / 64 = n / 64 := by omega
      rw [hblock] at hthere
      exact hmissing hthere

theorem run_next (fuel : Nat) (hs : ¬w.StopsAt n) :
    w.run (fuel + 1) n =
      (w.run fuel (w.next n % entryLimit)).map fun r =>
        (if w.there (n / 64) then n :: r.1 else r.1, r.2) := by
  have hatEnd : ¬w.atEnd n = true := fun h => hs (Or.inl h)
  rw [run, if_neg hatEnd]
  by_cases hthere : w.there (n / 64) = true
  · have hhit : ¬w.hit n = true := fun h => hs (Or.inr ⟨hthere, h⟩)
    simp only [if_pos hthere, if_neg hhit, next]
  · simp only [if_neg hthere, next]
    simp

/-- What a walk from index `n` that has come to an end has seen: entries of
blocks that exist, in order; if it was not hit, all of them up to the end of the
directory. -/
structure Ended (w : EntryWalk) (n : Nat) (seen : List Nat) (r : Option Nat) :
    Prop where
  sorted : seen.Pairwise (· < ·)
  low : ∀ p, p ∈ seen → n ≤ p
  inside : ∀ p, p ∈ seen →
    p < entryLimit ∧ w.there (p / 64) = true ∧ w.atEnd p = false
  hit : ∀ h, r = some h → h ∈ seen ∧ w.hit h = true
  all : r = none → ∃ e, w.atEnd e = true ∧ ∀ j, n ≤ j → j < e → w.Visited j →
    ¬w.StopsAt j ∧ (w.there (j / 64) = true → j ∈ seen)

theorem run_stop (fuel : Nat) (hn : n < entryLimit) (hs : w.StopsAt n) :
    ∃ seen r, w.run (fuel + 1) n = some (seen, r) ∧ w.Ended n seen r := by
  rw [run]
  by_cases hatEnd : w.atEnd n = true
  · rw [if_pos hatEnd]
    refine ⟨[], none, rfl, by simp, by simp, by simp, by simp,
      fun _ => ⟨n, hatEnd, ?_⟩⟩
    intro j hnj hjn
    omega
  · obtain ⟨hthere, hhit⟩ := hs.resolve_left hatEnd
    rw [if_neg hatEnd, if_pos hthere, if_pos hhit]
    refine ⟨[n], some n, rfl, by simp, by simp, ?_, ?_, by simp⟩
    · intro p hp
      rw [List.mem_singleton.mp hp]
      exact ⟨hn, hthere, by simpa using hatEnd⟩
    · intro h hh
      cases hh
      exact ⟨by simp, hhit⟩

/-- One more entry, or one more block that does not exist, before a walk that has
come to an end. -/
theorem Ended.cons {seen : List Nat} {r : Option Nat} (hn : n < entryLimit) (hv : w.Visited n)
    (hs : ¬w.StopsAt n) (h : w.Ended (w.next n) seen r) :
    w.Ended n (if w.there (n / 64) then n :: seen else seen) r := by
  have hgt := lt_next (w := w) n
  have hlow : ∀ p, p ∈ seen → n < p := by
    intro p hp
    have := h.low p hp
    omega
  by_cases hthere : w.there (n / 64) = true
  · rw [if_pos hthere]
    refine ⟨List.pairwise_cons.mpr ⟨hlow, h.sorted⟩, ?_, ?_, ?_, ?_⟩
    · intro p hp
      rcases List.mem_cons.mp hp with rfl | hp
      · exact le_rfl
      · exact (hlow p hp).le
    · intro p hp
      rcases List.mem_cons.mp hp with rfl | hp
      · refine ⟨hn, hthere, ?_⟩
        by_contra hatEnd
        exact hs (Or.inl (by simpa using hatEnd))
      · exact h.inside p hp
    · intro x hx
      exact ⟨List.mem_cons_of_mem _ (h.hit x hx).1, (h.hit x hx).2⟩
    · intro hr
      obtain ⟨e, he, hall⟩ := h.all hr
      refine ⟨e, he, ?_⟩
      intro j hnj hje hvj
      rcases Nat.eq_or_lt_of_le hnj with rfl | hlt
      · exact ⟨hs, fun _ => by simp⟩
      · obtain ⟨hsj, hmem⟩ := hall j (next_le hv hvj hlt) hje hvj
        exact ⟨hsj, fun hj => List.mem_cons_of_mem _ (hmem hj)⟩
  · rw [if_neg hthere]
    refine ⟨h.sorted, fun p hp => (hlow p hp).le, h.inside, h.hit, ?_⟩
    intro hr
    obtain ⟨e, he, hall⟩ := h.all hr
    refine ⟨e, he, ?_⟩
    intro j hnj hje hvj
    rcases Nat.eq_or_lt_of_le hnj with rfl | hlt
    · exact ⟨hs, fun hj => absurd hj hthere⟩
    · exact hall j (next_le hv hvj hlt) hje hvj

theorem run_mono {x : List Nat × Option Nat} {fuel : Nat} (h : w.run fuel n = some x) :
    w.run (fuel + 1) n = some x := by
  induction fuel generalizing n x with
  | zero => cases h
  | succ fuel ih =>
      rw [run] at h ⊢
      split
      · rename_i hatEnd
        rwa [if_pos hatEnd] at h
      · rename_i hatEnd
        rw [if_neg hatEnd] at h
        split
        · rename_i hthere
          rw [if_pos hthere] at h
          split
          · rename_i hhit
            rwa [if_pos hhit] at h
          · rename_i hhit
            rw [if_neg hhit] at h
            obtain ⟨y, hy, hxy⟩ := Option.map_eq_some_iff.mp h
            rw [ih hy, ← hxy]
            rfl
        · rename_i hthere
          rw [if_neg hthere] at h
          exact ih h

theorem run_unique {x y : List Nat × Option Nat} {fuel fuel' : Nat}
    (hx : w.run fuel n = some x) (hy : w.run fuel' n = some y) : x = y := by
  have hmono : ∀ {z : List Nat × Option Nat} {f : Nat} (k : Nat),
      w.run f n = some z → w.run (f + k) n = some z := by
    intro z f k hz
    induction k with
    | zero => exact hz
    | succ k ih => exact run_mono ih
  have hx' := hmono fuel' hx
  have hy' := hmono fuel hy
  rw [Nat.add_comm, hy'] at hx'
  exact (Option.some.inj hx').symm

/-- A walk that comes by an index at which it stops comes to an end before the
block numbers wrap. -/
theorem run_ends (fuel : Nat) :
    ∀ {n m : Nat}, n ≤ m → m < entryLimit → m < n + fuel →
      w.Visited n → w.Visited m → w.StopsAt m →
      ∃ seen r, w.run fuel n = some (seen, r) ∧ w.Ended n seen r := by
  induction fuel with
  | zero =>
      intro n m hnm _ hfuel
      omega
  | succ fuel ih =>
      intro n m hnm hm hfuel hv hvm hsm
      by_cases hs : w.StopsAt n
      · exact run_stop fuel (Nat.lt_of_le_of_lt hnm hm) hs
      · have hlt : n < m := by
          rcases Nat.eq_or_lt_of_le hnm with rfl | hlt
          · exact absurd hsm hs
          · exact hlt
        have hle := next_le hv hvm hlt
        have hgt := lt_next (w := w) n
        have hv' := hv.next (Nat.lt_trans hlt hm)
        have hmod : w.next n % entryLimit = w.next n :=
          Nat.mod_eq_of_lt (Nat.lt_of_le_of_lt hle hm)
        rw [hmod] at hv'
        obtain ⟨seen, r, hrest, hend⟩ := ih hle hm (by omega) hv' hvm hsm
        rw [run_next fuel hs, hmod, hrest]
        exact ⟨_, r, rfl, hend.cons (Nat.lt_trans hlt hm) hv hs⟩

/-- A walk that stops at no index it comes by goes round for ever. -/
theorem run_spins (hnever : ∀ m, m < entryLimit → w.Visited m → ¬w.StopsAt m) (fuel : Nat) :
    ∀ {n : Nat}, n < entryLimit → w.Visited n → w.run fuel n = none := by
  induction fuel with
  | zero =>
      intro n _ _
      rw [run]
  | succ fuel ih =>
      intro n hn hv
      rw [run_next fuel (hnever n hn hv),
        ih (Nat.mod_lt _ (by decide)) (hv.next hn)]
      rfl

end EntryWalk

end Walk

section Search

variable {ι β : Type}
variable {W : DirWorld ι β} {dir : ι} {name : List UInt8}

/-- The search of a directory for a name as a walk. -/
def searchWalk (W : DirWorld ι β) (dir : ι) (name : List UInt8) : EntryWalk where
  there := fun b => (W.block dir b).isSome
  atEnd := fun n => W.iSize dir ≤ n / 64 * 1024 % 65536 + n % 64 * 16
  hit := fun n =>
    (W.block dir (n / 64)).any fun bh => minixMatch name (W.entry bh (n % 64 * 16))

/-- What the code returns for the entry with an index. -/
def found (W : DirWorld ι β) (dir : ι) (n : Nat) : Option (β × Nat) :=
  (W.block dir (n / 64)).map fun bh => (bh, n % 64 * 16)

theorem searchTrace_eq_run (fuel : Nat) :
    ∀ {n : Nat} {bh : Option β}, n < entryLimit →
      (searchWalk W dir name).Visited n →
      bh.or (W.block dir (n / 64)) = W.block dir (n / 64) →
      searchTrace W dir name fuel (n / 64) (n % 64 * 16) bh =
        ((searchWalk W dir name).run fuel n).map fun r =>
          (r.1.map (· * 16), r.2.bind (found W dir)) := by
  induction fuel with
  | zero =>
      intro n bh _ _ _
      rfl
  | succ fuel ih =>
      intro n bh hn hv hbh
      have hpos : n / 64 * 1024 + n % 64 * 16 = n * 16 := by omega
      have hv' := hv.next hn
      have hn' : (searchWalk W dir name).next n % entryLimit < entryLimit :=
        Nat.mod_lt _ (by decide)
      rw [searchTrace, EntryWalk.run]
      by_cases hsize : n / 64 * 1024 % 65536 + n % 64 * 16 < W.iSize dir
      · have hatEnd : ¬(searchWalk W dir name).atEnd n = true := by
          simp only [searchWalk, decide_eq_true_eq]
          omega
        simp only [if_pos hsize, if_neg hatEnd, hbh]
        unfold entryLimit at *
        cases hb : W.block dir (n / 64) with
        | none =>
            have hthere : ¬(searchWalk W dir name).there (n / 64) = true := by
              simp [searchWalk, hb]
            have h0 : n % 64 = 0 := hv.resolve_right hthere
            simp only [EntryWalk.next, if_neg hthere] at hv' hn'
            have hrest := @ih _ none hn' hv' (by simp)
            rw [if_neg hthere, ← hrest,
              show (n + 64) % (65536 * 64) / 64 = (n / 64 + 1) % 65536 by omega,
              show (n + 64) % (65536 * 64) % 64 = n % 64 by omega]
        | some b =>
            have hthere : (searchWalk W dir name).there (n / 64) = true := by
              simp [searchWalk, hb]
            have hhit : (searchWalk W dir name).hit n =
                minixMatch name (W.entry b (n % 64 * 16)) := by
              simp [searchWalk, hb]
            rw [if_pos hthere, hhit]
            simp only [EntryWalk.next, if_pos hthere] at hv' hn'
            by_cases hmatch : minixMatch name (W.entry b (n % 64 * 16)) = true
            · simp [if_pos hmatch, hpos, found, hb]
            · simp only [if_neg hmatch, hpos, Option.map_map]
              by_cases hlast : n % 64 = 63
              · have hoffset : ¬n % 64 * 16 + sDirsize < 1024 := by
                  rw [hlast]
                  decide
                have hrest := @ih _ none hn' hv' (by simp)
                rw [show (n + 1) % (65536 * 64) / 64 = (n / 64 + 1) % 65536 by omega,
                  show (n + 1) % (65536 * 64) % 64 = 0 by omega] at hrest
                simp only [if_neg hoffset]
                rw [hrest, Option.map_map]
                rfl
              · have hoffset : n % 64 * 16 + sDirsize < 1024 := by
                  unfold sDirsize
                  omega
                have hwrap : (n + 1) % (65536 * 64) = n + 1 := by omega
                have hblock : (n + 1) / 64 = n / 64 := by omega
                rw [hwrap] at hv' hn' ⊢
                have hrest := @ih _ (some b) hn' hv' (by rw [hblock, hb]; rfl)
                rw [hblock, show (n + 1) % 64 = n % 64 + 1 by omega,
                  Nat.add_mul] at hrest
                simp only [if_pos hoffset]
                rw [show n % 64 * 16 + sDirsize = n % 64 * 16 + 1 * 16 from rfl,
                  hrest, Option.map_map]
                rfl
      · have hatEnd : (searchWalk W dir name).atEnd n = true := by
          simp only [searchWalk, decide_eq_true_eq]
          omega
        simp only [if_neg hsize, if_pos hatEnd]
        rfl

/-- The entry with index `k` of block `b` is live and has the name. -/
def Matches (W : DirWorld ι β) (dir : ι) (name : List UInt8) (b k : Nat) : Prop :=
  ∃ bh, W.block dir b = some bh ∧
    minixMatch (name.take sNamelen) (W.entry bh (k * 16)) = true

/-- The search comes to an end, on the way it looks at each entry at most once
and in the order of the directory, and it returns `NULL` only if no entry below
`i_size` is live and has the name. -/
def SearchComplete (W : DirWorld ι β) (dir : ι) (name : List UInt8) : Prop :=
  ∃ fuel seen r,
    searchTrace W dir (name.take sNamelen) fuel 0 0 none = some (seen, r) ∧
    W.find fuel dir name = some r ∧
    seen.Pairwise (· < ·) ∧
    (r = none → ∀ b k, b < 65536 → k < 64 →
      b * 1024 + k * 16 < W.iSize dir → ¬Matches W dir name b k)

/-- The directory has at most 63 blocks; or at most 64 blocks less an entry, and
one of its blocks 63, 127, 191 and so on exists; or some entry has the name. -/
def SearchEnds (W : DirWorld ι β) (dir : ι) (name : List UInt8) : Prop :=
  W.iSize dir ≤ 63 * 1024 ∨
    (W.iSize dir ≤ 64 * 1024 - 16 ∧
      ∃ b, b < 65536 ∧ b % 64 = 63 ∧ W.block dir b ≠ none) ∨
    ∃ b k, b < 65536 ∧ k < 64 ∧ Matches W dir name b k

theorem searchWalk_visited {n : Nat} :
    (searchWalk W dir name).Visited n ↔
      n % 64 = 0 ∨ W.block dir (n / 64) ≠ none := by
  simp [EntryWalk.Visited, searchWalk, Option.isSome_iff_ne_none]

theorem searchWalk_stopsAt {n : Nat} :
    (searchWalk W dir name).StopsAt n ↔
      W.iSize dir ≤ n / 64 * 1024 % 65536 + n % 64 * 16 ∨
        ∃ bh, W.block dir (n / 64) = some bh ∧
          minixMatch name (W.entry bh (n % 64 * 16)) = true := by
  cases hb : W.block dir (n / 64) with
  | none => simp [EntryWalk.StopsAt, searchWalk, hb]
  | some bh => simp [EntryWalk.StopsAt, searchWalk, hb]

theorem searchEnds_iff :
    SearchEnds W dir name ↔
      ∃ m, m < entryLimit ∧ (searchWalk W dir (name.take sNamelen)).Visited m ∧
        (searchWalk W dir (name.take sNamelen)).StopsAt m := by
  simp only [searchWalk_visited, searchWalk_stopsAt]
  unfold entryLimit
  constructor
  · rintro (hsmall | ⟨hsize, b, hb, h63, hblock⟩ | ⟨b, k, hb, hk, bh, hbh, hmatch⟩)
    · exact ⟨63 * 64, by omega, Or.inl (by omega), Or.inl (by omega)⟩
    · have hdiv : (b * 64 + 63) / 64 = b := by omega
      refine ⟨b * 64 + 63, by omega, Or.inr (by rw [hdiv]; exact hblock),
        Or.inl ?_⟩
      omega
    · have hdiv : (b * 64 + k) / 64 = b := by omega
      have hmod : (b * 64 + k) % 64 = k := by omega
      refine ⟨b * 64 + k, by omega, Or.inr ?_, Or.inr ⟨bh, ?_, ?_⟩⟩
      · rw [hdiv, hbh]
        simp
      · rw [hdiv, hbh]
      · rw [hmod]
        exact hmatch
  · rintro ⟨m, hm, hv, hend | ⟨bh, hbh, hmatch⟩⟩
    · rcases hv with h0 | hblock
      · exact Or.inl (by omega)
      · by_cases hsmall : W.iSize dir ≤ 63 * 1024
        · exact Or.inl hsmall
        · exact Or.inr (Or.inl ⟨by omega, m / 64, by omega, by omega, hblock⟩)
    · exact Or.inr (Or.inr ⟨m / 64, m % 64, by omega, Nat.mod_lt _ (by decide),
        bh, hbh, hmatch⟩)

/-- `minix_find_entry` ends, and finds a name that is there, exactly if the
directory is small, or ends in the middle of a block 63 that it can come to, or
has an entry of that name. -/
theorem search_complete_iff
    (W : DirWorld ι β) (dir : ι) (name : List UInt8) :
    SearchComplete W dir name ↔ SearchEnds W dir name := by
  rw [searchEnds_iff]
  have hstart : (searchWalk W dir (name.take sNamelen)).Visited 0 := Or.inl rfl
  have heq : ∀ fuel, searchTrace W dir (name.take sNamelen) fuel 0 0 none = _ :=
    fun fuel => searchTrace_eq_run fuel (by decide) hstart (by simp)
  constructor
  · rintro ⟨fuel, seen, r, hrun, _⟩
    by_contra hnever
    push Not at hnever
    have hspin := EntryWalk.run_spins hnever fuel (by decide) hstart
    rw [heq fuel, hspin] at hrun
    cases hrun
  · rintro ⟨m, hm, hv, hs⟩
    obtain ⟨seen, r, hrun, hend⟩ :=
      EntryWalk.run_ends (m + 1) (Nat.zero_le m) hm (by omega) hstart hv hs
    have htrace := heq (m + 1)
    rw [hrun, Option.map_some] at htrace
    refine ⟨m + 1, _, _, htrace, ?_, ?_, ?_⟩
    · rw [DirWorld.find, ← searchTrace_result, htrace]
      rfl
    · refine List.pairwise_map.mpr (hend.sorted.imp ?_)
      intro p q hpq
      omega
    · rintro hr b k hb hk hlt ⟨bh, hbh, hmatch⟩
      have hnone : r = none := by
        cases r with
        | none => rfl
        | some h =>
            have hthere := (hend.inside h (hend.hit h rfl).1).2.1
            rw [searchWalk, Option.isSome_iff_exists] at hthere
            obtain ⟨bh', hbh'⟩ := hthere
            simp [found, hbh'] at hr
      obtain ⟨e, he, hall⟩ := hend.all hnone
      simp only [searchWalk, decide_eq_true_eq] at he
      have hdiv : (b * 64 + k) / 64 = b := by omega
      have hmod : (b * 64 + k) % 64 = k := by omega
      refine (hall (b * 64 + k) (Nat.zero_le _) (by omega) ?_).1 ?_
      · rw [searchWalk_visited, hdiv, hbh]
        simp
      · rw [searchWalk_stopsAt, hdiv, hmod]
        exact Or.inr ⟨bh, hbh, hmatch⟩

end Search

/-- A directory of `n` full blocks, whose entries all have the name "b". -/
def fullDirectory (n : Nat) : DirWorld Unit Nat where
  iSize := fun _ => n * 1024
  iNlink := fun _ => 2
  iIno := fun _ => 2
  iDev := fun _ => 1
  isDir := fun _ => true
  isBusy := fun _ => false
  sticky := fun _ _ => false
  block := fun _ b => if b < n then some b else none
  newBlock := fun _ b => some b
  bmapWork := fun _ _ => []
  entry := fun _ _ =>
    { inode := 3
      name := fun i => if i = 0 then 98 else 0 }
  imap := []
  zeroBit := fun _ => false
  inoFits := false
  newIno := ()
  named := fun _ => ()
  inodeWork := fun _ => []

/-- With sixty-four full blocks a search for a name that is not there does not
end. -/
theorem search_spins_full :
    (fullDirectory 64).iSize () = 65536 ∧
      ¬SearchComplete (fullDirectory 64) () [97] := by
  refine ⟨rfl, ?_⟩
  rw [search_complete_iff]
  rintro (hsmall | ⟨hsize, _⟩ | ⟨b, k, _, _, bh, _, hmatch⟩)
  · simp [fullDirectory] at hsmall
  · simp [fullDirectory] at hsize
  · simp [fullDirectory, minixMatch, namecompare, sNamelen] at hmatch

end Pins
end Elks
