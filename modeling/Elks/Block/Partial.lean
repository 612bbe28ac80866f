import Elks.Block.BlockDev

/-!
# Raw reads and writes that fail (fs/block_dev.c)

In a round of `blk_rw` there may be no buffer for the block, and a block may not be up
to date behind its write.  The position and the counts have moved on by then, if a
buffer was found.

* `blkRwLoop_follows`: whatever the cache and the disks do in a run of `blk_rw`, it is
  one of these rounds after the other.
* `blkLoop_spec`: what they return and leave.
-/

namespace Elks
namespace BlockDev

open Lib
open Buffer

section Code

/-- What a round meets: the bytes of the buffer that `getblk` or `bread` gives, and
whether the block is up to date behind the write. -/
structure Round where
  found : Option Block
  stored : Bool

/-- A round, and others behind it. -/
def Round.before (round : Round) (io : Nat → Round) : Nat → Round
  | 0 => round
  | r + 1 => io r

/-- The variables behind a round that found a buffer with these bytes. -/
def Xfer.through (x : Xfer) (wr : Rw) (b : Block) : Xfer :=
  match wr with
  | .read => { x.moveOn with user := x.memcpyTofs b }
  | .write => x.moveOn

/-- The loop of `blk_rw` over the rounds `io`; every round moves at least one byte. -/
def blkLoop (wr : Rw) : Nat → (Nat → Round) → Xfer → Int × Xfer
  | 0, _, x => (if wr = .write ∧ x.written = 0 then -enospc else int16 x.written, x)
  | n + 1, io, x =>
      if 0 < x.count then
        match (io 0).found with
        | none =>
            (if x.written ≠ 0 then int16 x.written else -eio,
              { x with block := wrap 16 (x.block + 1) })
        | some b =>
            if wr = .write ∧ (io 0).stored = false then (-eio, x.through wr b)
            else blkLoop wr n (fun r => io (r + 1)) (x.through wr b)
      else
        (if wr = .write ∧ x.written = 0 then -enospc else int16 x.written, x)

end Code

section Follows

variable {s s' : Buffers} {fuel dev : Nat} {wr : Rw} {x : Xfer}

theorem blkRwRound_follows {r : Option Int × Xfer}
    (h : (blkRwRound fuel dev wr x).run s = .ok (r, s')) :
    ∃ round : Round,
      (round.found = none ∧
          r = (some (if x.written ≠ 0 then int16 x.written else -eio),
            { x with block := wrap 16 (x.block + 1) })) ∨
        ∃ b, round.found = some b ∧
          r = (if wr = .write ∧ round.stored = false then some (-eio) else none,
            x.through wr b) := by
  unfold blkRwRound at h
  obtain ⟨found, s₁, -, h⟩ := Prog.run_bind_ok h
  cases found with
  | none =>
      obtain ⟨hr, -⟩ := Prod.mk.inj (Except.ok.inj h)
      exact ⟨⟨none, true⟩, Or.inl ⟨rfl, hr.symm⟩⟩
  | some bh =>
      cases wr with
      | read =>
          obtain ⟨_, s₂, -, h⟩ := Prog.run_bind_ok h
          obtain ⟨t, s₃, -, h⟩ := Prog.run_bind_ok h
          obtain ⟨_, s₄, -, h⟩ := Prog.run_bind_ok h
          obtain ⟨hr, -⟩ := Prod.mk.inj (Except.ok.inj h)
          exact ⟨⟨some (t.deref (t.buffers bh).bData), true⟩, Or.inr ⟨_, rfl, hr.symm⟩⟩
      | write =>
          obtain ⟨_, s₂, -, h⟩ := Prog.run_bind_ok h
          obtain ⟨_, s₃, -, h⟩ := Prog.run_bind_ok h
          obtain ⟨_, s₄, -, h⟩ := Prog.run_bind_ok h
          obtain ⟨_, s₅, -, h⟩ := Prog.run_bind_ok h
          obtain ⟨t, s₆, -, h⟩ := Prog.run_bind_ok h
          obtain ⟨_, s₇, -, h⟩ := Prog.run_bind_ok h
          obtain ⟨hr, -⟩ := Prod.mk.inj (Except.ok.inj h)
          refine ⟨⟨some (t.content bh), (t.buffers bh).bUptodate⟩, Or.inr ⟨_, rfl, ?_⟩⟩
          rw [← hr]
          cases (t.buffers bh).bUptodate <;> rfl

theorem blkRwLoop_follows {n : Nat} {v : Int × Xfer}
    (h : (blkRwLoop fuel dev wr n x).run s = .ok (v, s')) : ∃ io, blkLoop wr n io x = v := by
  induction n generalizing s x with
  | zero => cases h
  | succ n ih =>
      unfold blkRwLoop at h
      by_cases hcount : 0 < x.count
      · rw [if_pos hcount] at h
        obtain ⟨r, s₁, hround, h⟩ := Prog.run_bind_ok h
        obtain ⟨round, ⟨hfound, rfl⟩ | ⟨b, hfound, rfl⟩⟩ := blkRwRound_follows hround
        · obtain ⟨hv, -⟩ := Prod.mk.inj (Except.ok.inj h)
          refine ⟨fun _ => round, ?_⟩
          unfold blkLoop
          rw [if_pos hcount, hfound, ← hv]
        · by_cases hfail : wr = .write ∧ round.stored = false
          · rw [if_pos hfail] at h
            obtain ⟨hv, -⟩ := Prod.mk.inj (Except.ok.inj h)
            refine ⟨fun _ => round, ?_⟩
            unfold blkLoop
            rw [if_pos hcount, hfound, ← hv]
            exact if_pos hfail
          · rw [if_neg hfail] at h
            obtain ⟨io, hio⟩ := ih h
            have hfirst : round.before io 0 = round := rfl
            have hrest : (fun r => round.before io (r + 1)) = io := rfl
            refine ⟨round.before io, ?_⟩
            unfold blkLoop
            rw [hfirst, hrest, if_pos hcount, hfound, ← hio]
            exact if_neg hfail
      · rw [if_neg hcount] at h
        obtain ⟨hv, -⟩ := Prod.mk.inj (Except.ok.inj h)
        refine ⟨fun _ => ⟨none, true⟩, ?_⟩
        unfold blkLoop
        rw [if_neg hcount, ← hv]

theorem blkRw_follows {fPos count : Nat} {user : Nat → UInt8} {v : Int × Xfer}
    (h : (blkRw fuel dev fPos user count wr).run s = .ok (v, s')) :
    ∃ io, blkLoop wr (count + 1) io (Xfer.start fPos user count) = v :=
  blkRwLoop_follows h

end Follows

section Property

/-- A block of the range cannot be written: it and those before it find their buffers, and
it is not up to date behind its write. -/
def WriteFails (wr : Rw) (io : Nat → Round) (offset count : Nat) : Prop :=
  wr = .write ∧ ∃ r, r * blockSize - offset < count ∧
    (∀ k, k ≤ r → (io k).found ≠ none) ∧ (io r).stored = false

/-- The blocks that begin before the `n`-th byte of the range find their buffers. -/
def Found (io : Nat → Round) (offset count n : Nat) : Prop :=
  n ≤ count ∧ ∀ r, (io r).found = none → n ≤ r * blockSize - offset

end Property

section Loop

variable {wr : Rw} {io : Nat → Round} {x : Xfer} {offset count : Nat}

theorem found_none (h : (io 0).found = none) (n : Nat) : Found io offset count n ↔ n ≤ 0 := by
  constructor
  · intro hn
    have hfirst := hn.2 0 h
    rw [Nat.zero_mul, Nat.zero_sub] at hfirst
    exact hfirst
  · intro hn
    obtain rfl : n = 0 := Nat.le_zero.mp hn
    exact ⟨Nat.zero_le _, fun _ _ => Nat.zero_le _⟩

/-- The rounds behind the first: `chars` bytes of the range lie in its block, and what is left
begins with the next. -/
structure Split (offset count chars : Nat) : Prop where
  le : chars ≤ count
  fits : chars ≤ blockSize - offset
  full : chars < count → chars = blockSize - offset
  offset : offset < blockSize

theorem Xfer.split (hoff : x.offset < blockSize) : Split x.offset x.count x.chars where
  le := x.chars_le.1
  fits := x.chars_le.2
  full := fun h => x.chars_full (by omega)
  offset := hoff

variable {chars : Nat}

theorem Split.found (h : Split offset count chars) (hsome : (io 0).found ≠ none) (n : Nat) :
    Found io offset count n ↔ Found (fun r => io (r + 1)) 0 (count - chars) (n - chars) := by
  have hle := h.le
  have hfits := h.fits
  have hoff := h.offset
  constructor
  · rintro ⟨hn, hrounds⟩
    refine ⟨by omega, fun r hr => ?_⟩
    have hround := hrounds (r + 1) hr
    rw [Nat.succ_mul] at hround
    by_cases hmore : chars < count
    · have hfull := h.full hmore
      omega
    · omega
  · rintro ⟨hn, hrounds⟩
    refine ⟨by omega, fun r hr => ?_⟩
    cases r with
    | zero => exact absurd hr hsome
    | succ r =>
        have hround := hrounds r hr
        rw [Nat.succ_mul]
        omega

theorem Split.writeFails (h : Split offset count chars) (hsome : (io 0).found ≠ none)
    (hstored : ¬(wr = .write ∧ (io 0).stored = false)) :
    WriteFails wr io offset count ↔
      WriteFails wr (fun r => io (r + 1)) 0 (count - chars) := by
  have hle := h.le
  have hfits := h.fits
  have hoff := h.offset
  constructor
  · rintro ⟨hwr, r, hr, hfound, hfail⟩
    cases r with
    | zero => exact absurd ⟨hwr, hfail⟩ hstored
    | succ r =>
        refine ⟨hwr, r, ?_, fun k hk => hfound (k + 1) (by omega), hfail⟩
        rw [Nat.succ_mul] at hr
        by_cases hmore : chars < count
        · have hfull := h.full hmore
          omega
        · omega
  · rintro ⟨hwr, r, hr, hfound, hfail⟩
    refine ⟨hwr, r + 1, ?_, fun k hk => ?_, hfail⟩
    · have hfull := h.full (by omega)
      rw [Nat.succ_mul]
      omega
    · cases k with
      | zero => exact hsome
      | succ k => exact hfound k (by omega)

/-- What the loop returns and leaves of the variables `x`. -/
structure LoopEnd (wr : Rw) (io : Nat → Round) (x : Xfer) (v : Int) (y : Xfer) : Prop where
  le : y.count ≤ x.count
  written : y.written = x.written + (x.count - y.count)
  fPos : wrap 32 y.fPos = wrap 32 (x.fPos + (x.count - y.count))
  failed : WriteFails wr io x.offset x.count → v = -eio ∧ 0 < x.count - y.count
  returned : ¬WriteFails wr io x.offset x.count →
    v = (if y.written ≠ 0 then int16 y.written else -eio) ∧
      ∀ n, n ≤ x.count - y.count ↔ Found io x.offset x.count n

theorem loopEnd_here {v : Int} {y : Xfer} (hcount : y.count = x.count)
    (hwritten : y.written = x.written) (hpos : y.fPos = x.fPos)
    (hv : v = if x.written ≠ 0 then int16 x.written else -eio)
    (hnone : x.count = 0 ∨ (io 0).found = none) : LoopEnd wr io x v y := by
  have hzero : x.count - y.count = 0 := by omega
  refine ⟨by omega, by omega, by rw [hpos, hzero, Nat.add_zero], fun hfail => ?_, fun _ => ?_⟩
  · obtain ⟨-, r, hr, hfound, -⟩ := hfail
    rcases hnone with hnone | hnone
    · omega
    · exact absurd hnone (hfound 0 (Nat.zero_le r))
  · refine ⟨by rw [hv, hwritten], fun n => ?_⟩
    rw [hzero]
    rcases hnone with hnone | hnone
    · rw [hnone]
      constructor
      · intro hn
        obtain rfl : n = 0 := Nat.le_zero.mp hn
        exact ⟨Nat.le_refl 0, fun _ _ => Nat.zero_le _⟩
      · exact fun h => h.1
    · exact (found_none hnone n).symm

theorem Xfer.through_counts (wr : Rw) (b : Block) (hlt : x.written + x.chars < 2 ^ 16) :
    (x.through wr b).count = x.count - x.chars ∧
      (x.through wr b).written = x.written + x.chars ∧
      (x.through wr b).fPos = wrap 32 (x.fPos + x.chars) ∧ (x.through wr b).offset = 0 := by
  have hwrap : wrap 16 (x.written + x.chars) = x.written + x.chars :=
    wrap_of_lt hlt
  cases wr with
  | read => exact ⟨rfl, hwrap, rfl, rfl⟩
  | write => exact ⟨rfl, hwrap, rfl, rfl⟩

theorem loopEnd_failed {b : Block} (hoff : x.offset < blockSize) (hcount : 0 < x.count)
    (hlt : x.written + x.count < 2 ^ 16) (hsome : (io 0).found ≠ none)
    (hstored : wr = .write ∧ (io 0).stored = false) : LoopEnd wr io x (-eio) (x.through wr b) := by
  have hchars := Xfer.chars_pos hcount hoff
  have hle := x.chars_le.1
  obtain ⟨hcount', hwritten', hfPos', -⟩ := Xfer.through_counts (x := x) wr b (by omega)
  have hfails : WriteFails wr io x.offset x.count := by
    refine ⟨hstored.1, 0, by omega, fun k hk => ?_, hstored.2⟩
    obtain rfl : k = 0 := Nat.le_zero.mp hk
    exact hsome
  refine ⟨by omega, by omega, ?_, fun _ => ⟨rfl, by omega⟩, fun h => absurd hfails h⟩
  rw [hfPos', hcount', Nat.sub_sub_self hle]
  exact Nat.mod_mod _ _

/-- What the loop makes of the range behind the first round, it makes of the whole range. -/
theorem LoopEnd.before {b : Block} {v : Int} {y : Xfer} (hoff : x.offset < blockSize)
    (hlt : x.written + x.count < 2 ^ 16) (hsome : (io 0).found ≠ none)
    (hstored : ¬(wr = .write ∧ (io 0).stored = false))
    (h : LoopEnd wr (fun r => io (r + 1)) (x.through wr b) v y) : LoopEnd wr io x v y := by
  have hsplit := Xfer.split hoff
  have hle := hsplit.le
  obtain ⟨hcount', hwritten', hfPos', hoff'⟩ := Xfer.through_counts (x := x) wr b (by omega)
  obtain ⟨hyle, hywritten, hyfPos, hyfailed, hyreturned⟩ := h
  rw [hoff', hcount', ← hsplit.writeFails hsome hstored] at hyfailed hyreturned
  rw [hcount'] at hyle hywritten hyfPos
  refine ⟨by omega, by omega, ?_, fun h => ?_, fun h => ?_⟩
  · have hsum : x.chars + (x.count - x.chars - y.count) = x.count - y.count := by omega
    rw [hyfPos, hfPos']
    unfold wrap
    rw [Nat.mod_add_mod, Nat.add_assoc, hsum]
  · obtain ⟨hv, hmoved⟩ := hyfailed h
    exact ⟨hv, by omega⟩
  · obtain ⟨hv, hmoved⟩ := hyreturned h
    refine ⟨hv, fun m => ?_⟩
    rw [hsplit.found hsome m, ← hmoved]
    omega

theorem blkLoop_spec (n : Nat) (io : Nat → Round) (x : Xfer) (hn : x.count ≤ n)
    (hoff : x.offset < blockSize) (hpos : 0 < x.written + x.count)
    (hlt : x.written + x.count < 2 ^ 16) :
    LoopEnd wr io x (blkLoop wr n io x).1 (blkLoop wr n io x).2 := by
  induction n generalizing io x with
  | zero =>
      have hzero : x.count = 0 := Nat.le_zero.mp hn
      have hwritten : x.written ≠ 0 := by omega
      unfold blkLoop
      refine loopEnd_here rfl rfl rfl ?_ (Or.inl hzero)
      rw [if_neg fun h => hwritten h.2, if_pos hwritten]
  | succ n ih =>
      unfold blkLoop
      by_cases hcount : 0 < x.count
      · rw [if_pos hcount]
        cases hfound : (io 0).found with
        | none => exact loopEnd_here rfl rfl rfl rfl (Or.inr hfound)
        | some b =>
            have hsome : (io 0).found ≠ none := by
              rw [hfound]
              exact Option.some_ne_none b
            dsimp only
            by_cases hstored : wr = .write ∧ (io 0).stored = false
            · rw [if_pos hstored]
              exact loopEnd_failed hoff hcount hlt hsome hstored
            · rw [if_neg hstored]
              have hchars := Xfer.chars_pos hcount hoff
              have hle := x.chars_le.1
              obtain ⟨hcount', hwritten', -, hoff'⟩ :=
                Xfer.through_counts (x := x) wr b (by omega)
              refine LoopEnd.before hoff hlt hsome hstored (ih _ _ (by omega) ?_ (by omega)
                (by omega))
              rw [hoff']
              decide
      · rw [if_neg hcount]
        have hzero : x.count = 0 := Nat.eq_zero_of_not_pos hcount
        have hwritten : x.written ≠ 0 := by omega
        refine loopEnd_here rfl rfl rfl ?_ (Or.inl hzero)
        dsimp only
        rw [if_neg fun h => hwritten h.2, if_pos hwritten]

end Loop

end BlockDev
end Elks
