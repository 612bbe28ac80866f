import Elks.Minix.File

/-!
# A write that fails (fs/minix/file.c, fs/minix/inode.c, fs/buffer.c)

The loop of `minix_file_write` stops at a block that `minix_getblk` does not
give, or that must be read first and cannot be.  What follows the loop sets
`i_size` and `f_pos` to the position reached, for an error too, and returns the
count as an `int` of sixteen bits.

Here the loop may be stopped in any round for either reason, and the counts
`b_count` of the buffers are kept.  `Served` says how many bytes find their
blocks, and `write_harmless_iff` says with it when a write that fails has done no
harm.
-/

namespace Elks
namespace Minix

open Lib

section Code

/-- What goes wrong in the rounds of a write, beside a disk that is full:
`minix_getblk` gives nothing since a block of block numbers cannot be read, or
the buffer is not up to date and `readbuf` cannot read it. -/
structure Faults where
  noBlock : Nat → Bool
  unreadable : Nat → Bool

/-- The `struct file` of a write.  No `f_pos` is negative: `sys_lseek` refuses it, and
`write_harmless_iff` is about writes that end below `2 ^ 31`. -/
structure WriteFile where
  fPos : Nat
  append : Bool

/-- `minix_getblk` in round `r`. -/
def Faults.getblk (io : Faults) (r : Nat) (s : Fs) (ino block : Nat) : Option Nat × Fs :=
  if io.noBlock r then (none, s) else minixGetblk s ino block true

/-- `getblk` of a block: the `b_count` of its buffer goes up. -/
def holdBuffer (bCount : Nat → Nat) (bh : Nat) : Nat → Nat :=
  Function.update bCount bh (bCount bh + 1)

/-- `brelse`. -/
def dropBuffer (bCount : Nat → Nat) (bh : Nat) : Nat → Nat :=
  Function.update bCount bh (bCount bh - 1)

/-- The bytes a round is to write. -/
def pieceOf (pos : Nat) (buf : List UInt8) : Nat :=
  min (1024 - pos % 1024) buf.length

/-- A buffer that is written in part must be read first. -/
def Faults.stuck (io : Faults) (r pos : Nat) (buf : List UInt8) : Bool :=
  decide (pieceOf pos buf ≠ 1024) && io.unreadable r

/-- The buffer of a round after the bytes have been copied in. -/
def Fs.putPiece (s : Fs) (bh pos : Nat) (buf : List UInt8) : Fs :=
  s.putBlock bh (patch (s.block bh) (pos % 1024) (buf.take (pieceOf pos buf)))

/-- What the loop of `minix_file_write` leaves: the count, what stopped it, the
file system and the counts of the buffers. -/
structure WriteLoop where
  written : Nat
  why : Option Errno
  fs : Fs
  bCount : Nat → Nat

/-- The rounds of the loop of `minix_file_write`, from round `r` on.  `minix_getblk`
holds the buffer it gives; `readbuf` drops it when it fails. -/
def faultyLoop (io : Faults) (ino : Nat) : Nat → Nat → Fs → (Nat → Nat) → Nat → List UInt8 →
    WriteLoop
  | 0, _, s, bCount, _, _ => { written := 0, why := none, fs := s, bCount := bCount }
  | rounds + 1, r, s, bCount, pos, buf =>
      if buf = [] then { written := 0, why := none, fs := s, bCount := bCount }
      else
        match io.getblk r s ino (wrap 16 (pos / 1024)) with
        | (none, s) => { written := 0, why := some .enospc, fs := s, bCount := bCount }
        | (some bh, s) =>
            let bCount := holdBuffer bCount bh
            if io.stuck r pos buf then
              { written := 0, why := some .eio, fs := s, bCount := dropBuffer bCount bh }
            else
              let rest :=
                faultyLoop io ino rounds (r + 1) (s.putPiece bh pos buf) (dropBuffer bCount bh)
                  (pos + pieceOf pos buf) (buf.drop (pieceOf pos buf))
              { rest with written := pieceOf pos buf + rest.written }

/-- The errors of a write (errno.h). -/
def writeErrno : Errno → Int
  | .eio => 5
  | .einval => 22
  | .enospc => 28
  | _ => 0

/-- What a write returns and leaves. -/
structure FaultyWrite where
  ret : Int
  fPos : Nat
  fs : Fs
  bCount : Nat → Nat

/-- Where a write starts. -/
def WriteFile.start (file : WriteFile) (s : Fs) (ino : Nat) : Nat :=
  if file.append then (s.inode ino).iSize else file.fPos

/-- `minix_file_write`.  The count of bytes written gives way to an error only
while it is zero. -/
def faultyWrite (io : Faults) (s : Fs) (bCount : Nat → Nat) (ino : Nat) (file : WriteFile)
    (buf : List UInt8) : FaultyWrite :=
  if hasFormat sIfreg (s.inode ino).iMode = false then
    { ret := -writeErrno .einval, fPos := file.fPos, fs := s, bCount := bCount }
  else
    let loop := faultyLoop io ino buf.length 0 s bCount (file.start s ino) buf
    let pos := file.start s ino + loop.written
    { ret :=
        if loop.written = 0 then loop.why.elim 0 fun e => -writeErrno e
        else int16 loop.written
      fPos := pos
      fs := loop.fs.modInode ino fun i =>
        { i with iSize := if int32 i.iSize < pos then pos else i.iSize }
      bCount := loop.bCount }

end Code

section Property

/-- The first `n` bytes find their blocks, from round `r` on: `minix_getblk` gives
each, and those that must be read can be. -/
inductive Served (io : Faults) (ino : Nat) : Nat → Fs → Nat → List UInt8 → Nat → Prop
  | none (r : Nat) (s : Fs) (pos : Nat) (buf : List UInt8) : Served io ino r s pos buf 0
  | block (r : Nat) (s s' : Fs) (pos : Nat) (buf : List UInt8) (n bh : Nat) :
      buf ≠ [] →
      io.getblk r s ino (wrap 16 (pos / 1024)) = (some bh, s') →
      io.stuck r pos buf = false →
      Served io ino (r + 1) (s'.putPiece bh pos buf) (pos + pieceOf pos buf)
        (buf.drop (pieceOf pos buf)) (n - pieceOf pos buf) →
      Served io ino r s pos buf n

/-- A write that returns an error has changed nothing, one that returns less than
it was given stored just that and set the position and the size by it, and every
buffer is held as before. -/
structure Harmless (s : Fs) (bCount : Nat → Nat) (ino : Nat) (file : WriteFile)
    (buf : List UInt8) (w : FaultyWrite) : Prop where
  failed : w.ret < 0 →
    (w.fs.inode ino).iSize = (s.inode ino).iSize ∧ w.fPos = file.fPos ∧
      ∀ off, w.fs.stored ino off = s.stored ino off
  short : 0 ≤ w.ret → w.ret < buf.length →
    (∀ off, w.fs.stored ino off =
      (buf.take w.ret.toNat).getD (behind (file.start s ino) off) (s.stored ino off)) ∧
      w.fPos = file.start s ino + w.ret.toNat ∧
      (0 < w.ret →
        (w.fs.inode ino).iSize = max (s.inode ino).iSize (file.start s ino + w.ret.toNat))
  balanced : w.bCount = bCount

/-- What spares a write from doing harm: if its first block is refused it starts at
`f_pos` and not behind the end of the file, if any is refused the size is one that a
`loff_t` can hold, and fewer than 32768 bytes find their blocks. -/
structure Spared (io : Faults) (s : Fs) (ino : Nat) (file : WriteFile) (buf : List UInt8) :
    Prop where
  first : ¬ Served io ino 0 s (file.start s ino) buf 1 →
    file.start s ino = file.fPos ∧ file.start s ino ≤ (s.inode ino).iSize
  size : ¬ Served io ino 0 s (file.start s ino) buf buf.length →
    (s.inode ino).iSize < 2 ^ 31
  half : ¬ Served io ino 0 s (file.start s ino) buf 32768

end Property

section Loop

variable {io : Faults} {s : Fs} {ino : Nat} {buf : List UInt8}

theorem pieceOf_pos {pos : Nat} (h : buf ≠ []) : 0 < pieceOf pos buf := by
  have hlen : 0 < buf.length := List.length_pos_iff.mpr h
  unfold pieceOf
  omega

@[simp]
theorem dropBuffer_holdBuffer (bCount : Nat → Nat) (bh : Nat) :
    dropBuffer (holdBuffer bCount bh) bh = bCount := by
  unfold dropBuffer holdBuffer
  rw [Function.update_self, Function.update_idem, Nat.add_sub_cancel, Function.update_eq_self]

theorem getblk_grows (h : Owned s) (hi : s.holdsZones ino) (r n : Nat) :
    Grown ino s (io.getblk r s ino n).2 ∧
      ∀ bh, (io.getblk r s ino n).1 = some bh →
        (io.getblk r s ino n).2.zoneOf ino n = bh ∧ bh ≠ 0 := by
  unfold Faults.getblk
  split
  · exact ⟨Grown.refl h ino, fun bh hbh => by cases hbh⟩
  · obtain ⟨s1, hgrown, hget⟩ := minixGetblk_create h hi n
    rw [hget]
    refine ⟨hgrown, fun bh hbh => ?_⟩
    obtain ⟨h0, he⟩ := bufferOf_eq_some.mp hbh
    exact ⟨he, he ▸ h0⟩

theorem faultyLoop_count {rounds : Nat} {buf : List UInt8} (hrounds : buf.length ≤ rounds) (r : Nat)
    (bCount : Nat → Nat) (pos : Nat) :
    (faultyLoop io ino rounds r s bCount pos buf).written ≤ buf.length ∧
      ((faultyLoop io ino rounds r s bCount pos buf).written < buf.length →
        (faultyLoop io ino rounds r s bCount pos buf).why = some .enospc ∨
          (faultyLoop io ino rounds r s bCount pos buf).why = some .eio) := by
  induction rounds generalizing r s bCount pos buf with
  | zero => exact ⟨Nat.zero_le _, fun hlt => absurd hlt (by omega)⟩
  | succ rounds ih =>
      unfold faultyLoop
      split
      · rename_i hnil
        subst hnil
        exact ⟨Nat.zero_le _, fun hlt => absurd hlt (Nat.lt_irrefl 0)⟩
      · rename_i hne
        have hpiece : 0 < pieceOf pos buf := pieceOf_pos hne
        have hshort : pieceOf pos buf ≤ buf.length := Nat.min_le_right _ _
        split
        · exact ⟨Nat.zero_le _, fun _ => Or.inl rfl⟩
        · rename_i bh s1 _
          dsimp only
          split
          · exact ⟨Nat.zero_le _, fun _ => Or.inr rfl⟩
          · have hdrop : (buf.drop (pieceOf pos buf)).length = buf.length - pieceOf pos buf :=
              List.length_drop
            obtain ⟨hle, hwhy⟩ := @ih (s1.putPiece bh pos buf) (buf.drop (pieceOf pos buf))
              (hdrop.trans_le (by omega)) (r + 1) (dropBuffer (holdBuffer bCount bh) bh)
              (pos + pieceOf pos buf)
            generalize faultyLoop io ino rounds (r + 1) _ _ (pos + pieceOf pos buf)
              (buf.drop (pieceOf pos buf)) = rest at hle hwhy ⊢
            dsimp only
            exact ⟨by omega, fun hlt => hwhy (by omega)⟩

theorem faultyLoop_spec (h : Owned s) (hi : s.holdsZones ino) {rounds : Nat} {buf : List UInt8}
    (hrounds : buf.length ≤ rounds) (hlen : buf.length ≤ span) (r : Nat) (bCount : Nat → Nat)
    (pos : Nat) :
    Written ino pos (buf.take (faultyLoop io ino rounds r s bCount pos buf).written) s
        (faultyLoop io ino rounds r s bCount pos buf).fs ∧
      (faultyLoop io ino rounds r s bCount pos buf).bCount = bCount := by
  induction rounds generalizing r s bCount pos buf with
  | zero => exact ⟨written_nil h, rfl⟩
  | succ rounds ih =>
      unfold faultyLoop
      split
      · rename_i hnil
        subst hnil
        exact ⟨written_nil h, rfl⟩
      · rename_i hne
        have hpiece : 0 < pieceOf pos buf := pieceOf_pos hne
        have hfit : pieceOf pos buf ≤ 1024 - pos % 1024 := Nat.min_le_left _ _
        have hshort : pieceOf pos buf ≤ buf.length := Nat.min_le_right _ _
        obtain ⟨hgrown, hgiven⟩ := @getblk_grows io s ino h hi r (wrap 16 (pos / 1024))
        generalize io.getblk r s ino (wrap 16 (pos / 1024)) = g at hgrown hgiven
        obtain ⟨bh, s1⟩ := g
        have hi1 := (hgrown.attrs.holdsZones ino).mpr hi
        cases bh with
        | none => exact ⟨hgrown.written hi (written_nil hgrown.owned), rfl⟩
        | some bh =>
            obtain ⟨hzone, h0⟩ := hgiven bh rfl
            dsimp only
            split
            · exact ⟨hgrown.written hi (written_nil hgrown.owned), dropBuffer_holdBuffer _ _⟩
            · rw [dropBuffer_holdBuffer]
              have htake : (buf.take (pieceOf pos buf)).length = pieceOf pos buf := by
                rw [List.length_take]
                omega
              have hchunk := @written_patch _ _ pos (buf.take (pieceOf pos buf))
                hgrown.owned hi1 (by rw [hzone]; exact h0) (by omega)
              rw [hzone] at hchunk
              have hdrop : (buf.drop (pieceOf pos buf)).length = buf.length - pieceOf pos buf :=
                List.length_drop
              obtain ⟨hrest, hcount⟩ := ih hchunk.owned
                ((hchunk.attrs.holdsZones ino).mpr hi1) (hdrop.trans_le (by omega)) (by omega)
                (r + 1) bCount (pos + pieceOf pos buf)
              unfold Fs.putPiece
              generalize faultyLoop io ino rounds (r + 1) _ bCount (pos + pieceOf pos buf)
                (buf.drop (pieceOf pos buf)) = rest at hrest hcount ⊢
              dsimp only
              refine ⟨?_, hcount⟩
              rw [List.take_add]
              refine hgrown.written hi (hchunk.append ?_ ?_)
              · rwa [htake]
              · rw [htake, List.length_take]
                omega

theorem served_refused {r pos n : Nat}
    (h : buf = [] ∨ (io.getblk r s ino (wrap 16 (pos / 1024))).1 = none ∨
      io.stuck r pos buf = true) :
    Served io ino r s pos buf n ↔ n ≤ 0 := by
  constructor
  · intro hs
    cases hs with
    | none => exact Nat.le_refl 0
    | block _ _ s' _ _ _ bh hne hgiven hfree _ =>
        rcases h with hnil | hnone | hstuck
        · exact absurd hnil hne
        · rw [hgiven] at hnone
          cases hnone
        · rw [hstuck] at hfree
          cases hfree
  · intro hle
    obtain rfl : n = 0 := Nat.le_zero.mp hle
    exact Served.none r s pos buf

theorem served_given {r pos n bh : Nat} {s1 : Fs} (hne : buf ≠ [])
    (hget : io.getblk r s ino (wrap 16 (pos / 1024)) = (some bh, s1))
    (hfree : io.stuck r pos buf = false) :
    Served io ino r s pos buf n ↔
      Served io ino (r + 1) (s1.putPiece bh pos buf) (pos + pieceOf pos buf)
        (buf.drop (pieceOf pos buf)) (n - pieceOf pos buf) := by
  constructor
  · intro hs
    cases hs with
    | none =>
        rw [Nat.zero_sub]
        exact Served.none _ _ _ _
    | block _ _ s' _ _ _ bh' _ hgiven _ hserved =>
        rw [hget] at hgiven
        obtain ⟨hbh, rfl⟩ := Prod.mk.inj hgiven
        obtain rfl := Option.some.inj hbh
        exact hserved
  · exact Served.block r s s1 pos buf n bh hne hget hfree

/-- The bytes that find their blocks are those that the loop writes. -/
theorem served_iff {rounds : Nat} {buf : List UInt8} (hrounds : buf.length ≤ rounds) (r : Nat)
    (bCount : Nat → Nat) (pos n : Nat) :
    Served io ino r s pos buf n ↔
      n ≤ (faultyLoop io ino rounds r s bCount pos buf).written := by
  induction rounds generalizing r s bCount pos buf n with
  | zero =>
      exact served_refused (Or.inl (List.eq_nil_of_length_eq_zero (by omega)))
  | succ rounds ih =>
      unfold faultyLoop
      split
      · rename_i hnil
        exact served_refused (Or.inl hnil)
      · rename_i hne
        have hpiece : 0 < pieceOf pos buf := pieceOf_pos hne
        split
        · rename_i s1 hget
          exact served_refused (Or.inr (Or.inl (by rw [hget])))
        · rename_i bh s1 hget
          dsimp only
          by_cases hstuck : io.stuck r pos buf = true
          · rw [if_pos hstuck]
            exact served_refused (Or.inr (Or.inr hstuck))
          · rw [if_neg hstuck, dropBuffer_holdBuffer,
              served_given hne hget (by simpa using hstuck),
              ih (by rw [List.length_drop]; omega) (r + 1) bCount]
            exact Nat.sub_le_iff_le_add'

theorem faultyLoop_quiet (hio : ∀ r, io.noBlock r = false ∧ io.unreadable r = false)
    (rounds r : Nat) (bCount : Nat → Nat) (pos : Nat) (buf : List UInt8) :
    ((faultyLoop io ino rounds r s bCount pos buf).written,
      (faultyLoop io ino rounds r s bCount pos buf).fs) = writeLoop ino rounds s pos buf := by
  induction rounds generalizing r s bCount pos buf with
  | zero => rfl
  | succ rounds ih =>
      have hget : io.getblk r s ino (wrap 16 (pos / 1024)) =
          minixGetblk s ino (wrap 16 (pos / 1024)) true := by
        unfold Faults.getblk
        rw [if_neg (by simp [(hio r).1])]
      have hfree : io.stuck r pos buf = false := by
        unfold Faults.stuck
        rw [(hio r).2, Bool.and_false]
      unfold faultyLoop writeLoop
      by_cases hnil : buf = []
      · rw [if_pos hnil, if_pos hnil]
      · rw [if_neg hnil, if_neg hnil, hget, hfree]
        cases minixGetblk s ino (wrap 16 (pos / 1024)) true with
        | mk bh s1 =>
            cases bh with
            | none => rfl
            | some bh =>
                have hrest := ih (s := s1.putPiece bh pos buf) (r + 1)
                  (dropBuffer (holdBuffer bCount bh) bh) (pos + pieceOf pos buf)
                  (buf.drop (pieceOf pos buf))
                dsimp only
                rw [if_neg (by decide)]
                unfold Fs.putPiece pieceOf at hrest ⊢
                rw [← hrest]

end Loop

section Write

variable {io : Faults} {s : Fs} {bCount : Nat → Nat} {ino n k : Nat} {file : WriteFile}
  {buf : List UInt8} {w : FaultyWrite}

theorem int32_of_lt (h : n < 2 ^ 31) :
    int32 n = n :=
  Int.bmod_eq_of_le (by omega) (by omega)

theorem int32_neg (hlo : 2 ^ 31 ≤ n) (hhi : n < 2 ^ 32) : int32 n < 0 := by
  unfold int32 Int.bmod
  dsimp only
  split <;> omega

/-- What a write of a regular file that stored `k` bytes leaves. -/
structure Left (s : Fs) (bCount : Nat → Nat) (ino : Nat) (file : WriteFile) (buf : List UInt8)
    (k : Nat) (w : FaultyWrite) : Prop where
  le : k ≤ buf.length
  error : k = 0 → buf ≠ [] → w.ret < 0
  count : 0 < k → w.ret = int16 k
  fPos : w.fPos = file.start s ino + k
  iSize : (w.fs.inode ino).iSize =
    if int32 (s.inode ino).iSize < (file.start s ino + k : Nat) then file.start s ino + k
    else (s.inode ino).iSize
  stored : ∀ off, w.fs.stored ino off =
    (buf.take k).getD (behind (file.start s ino) off) (s.stored ino off)
  bCount : w.bCount = bCount

theorem faultyWrite_left (h : Owned s) (hi : s.holdsZones ino)
    (hreg : hasFormat sIfreg (s.inode ino).iMode = true) (hlen : buf.length < 65536) :
    ∃ k, Left s bCount ino file buf k (faultyWrite io s bCount ino file buf) ∧
      ∀ n, Served io ino 0 s (file.start s ino) buf n ↔ n ≤ k := by
  obtain ⟨hw, hcount⟩ := @faultyLoop_spec io s ino h hi buf.length buf
    (Nat.le_refl buf.length) (by unfold span; omega) 0 bCount (file.start s ino)
  obtain ⟨hle, hwhy⟩ := @faultyLoop_count io s ino buf.length buf (Nat.le_refl buf.length) 0
    bCount (file.start s ino)
  have hserved := fun n => @served_iff io s ino buf.length buf (Nat.le_refl buf.length) 0
    bCount (file.start s ino) n
  unfold faultyWrite
  rw [if_neg (by simp [hreg])]
  generalize faultyLoop io ino buf.length 0 s bCount (file.start s ino) buf = r
    at hle hw hcount hwhy hserved ⊢
  refine ⟨r.written, ⟨hle, fun h0 hne => ?_, fun hpos => if_neg (by omega), rfl, ?_, fun off => ?_,
    hcount⟩, hserved⟩
  · have hlt : r.written < buf.length := by
      have hpos := List.length_pos_iff.mpr hne
      omega
    dsimp only
    rw [if_pos h0]
    rcases hwhy hlt with he | he <;> rw [he] <;> decide
  · dsimp only
    rw [inode_modInode_self, hw.attrs.2 ino]
  · rw [← hw.stored off]
    unfold Fs.stored Fs.fileBlock Fs.zoneOf
    rw [ptr_modInode _ rfl]
    rfl

theorem harmless_of_spared (hw : Left s bCount ino file buf k w)
    (hserved : ∀ n, Served io ino 0 s (file.start s ino) buf n ↔ n ≤ k) (hne : buf ≠ [])
    (hspared : Spared io s ino file buf) : Harmless s bCount ino file buf w := by
  have hhalf : k < 32768 := by
    have hnot := hspared.half
    rw [hserved] at hnot
    omega
  have hsize : k < buf.length → (s.inode ino).iSize < 2 ^ 31 := by
    intro hlt
    refine hspared.size ?_
    rw [hserved]
    omega
  refine ⟨fun hret => ?_, fun hret hlt => ?_, hw.bCount⟩
  · have h0 : k = 0 := by
      by_contra hk
      rw [hw.count (Nat.pos_of_ne_zero hk), int16_of_lt hhalf] at hret
      omega
    subst h0
    obtain ⟨hstart, hin⟩ := hspared.first (by rw [hserved]; omega)
    have hlt := hsize (List.length_pos_iff.mpr hne)
    refine ⟨?_, by rw [hw.fPos, hstart, Nat.add_zero], fun off => ?_⟩
    · rw [hw.iSize, int32_of_lt hlt, if_neg (by omega)]
    · rw [hw.stored]
      simp
  · have hk : 0 < k := by
      by_contra hk
      have herr := hw.error (by omega) hne
      omega
    have hcount := hw.count hk
    rw [int16_of_lt hhalf] at hcount
    rw [hcount] at hlt ⊢
    rw [Int.toNat_natCast]
    refine ⟨hw.stored, hw.fPos, fun _ => ?_⟩
    rw [hw.iSize, int32_of_lt (hsize (by omega))]
    split <;> omega

theorem spared_of_harmless (hw : Left s bCount ino file buf k w)
    (hserved : ∀ n, Served io ino 0 s (file.start s ino) buf n ↔ n ≤ k) (hne : buf ≠ [])
    (hlen : buf.length < 65536) (hrange : file.start s ino + buf.length < 2 ^ 31)
    (hword : (s.inode ino).iSize < 2 ^ 32) (hharmless : Harmless s bCount ino file buf w) :
    Spared io s ino file buf := by
  have hle := hw.le
  have hneg : 32768 ≤ k → w.ret < 0 := by
    intro hk
    rw [hw.count (by omega)]
    exact int16_neg hk (by omega)
  refine ⟨fun hnot => ?_, fun hnot => ?_, fun hhalf => ?_⟩
  · rw [hserved] at hnot
    obtain rfl : k = 0 := by omega
    obtain ⟨hiSize, hfPos, -⟩ := hharmless.failed (hw.error rfl hne)
    rw [hw.fPos] at hfPos
    rw [hw.iSize] at hiSize
    refine ⟨hfPos, ?_⟩
    by_cases hlt : (s.inode ino).iSize < 2 ^ 31
    · rw [int32_of_lt hlt] at hiSize
      split at hiSize <;> omega
    · omega
  · rw [hserved] at hnot
    by_contra hbig
    have hset : (w.fs.inode ino).iSize = file.start s ino + k := by
      rw [hw.iSize, if_pos]
      have hnegative := int32_neg (by omega) hword
      omega
    by_cases hret : w.ret < 0
    · have hkept := (hharmless.failed hret).1
      omega
    · have hk : 0 < k := by
        by_contra hk
        exact hret (hw.error (by omega) hne)
      have hhalf : k < 32768 := by
        by_contra hhalf
        exact hret (hneg (by omega))
      have hcount := hw.count hk
      rw [int16_of_lt hhalf] at hcount
      have hmax := (hharmless.short (by omega) (by omega)).2.2 (by omega)
      omega
  · have hk := (hserved _).mp hhalf
    obtain ⟨hiSize, hfPos, -⟩ := hharmless.failed (hneg hk)
    rw [hw.fPos] at hfPos
    rw [hw.iSize] at hiSize
    unfold WriteFile.start at hfPos hiSize hrange
    split at hfPos
    · rename_i happend
      rw [if_pos happend] at hiSize hrange
      rw [int32_of_lt (by omega), if_pos (by omega)] at hiSize
      omega
    · omega

/-- A write of fewer than 65536 bytes that ends where a `loff_t` reaches does no harm
exactly if the inode is no regular file, there is nothing to write, or `Spared`. -/
theorem write_harmless_iff
    (io : Faults) (s : Fs) (bCount : Nat → Nat) (ino : Nat) (file : WriteFile) (buf : List UInt8)
    (h : Owned s)
    (hi : s.holdsZones ino)
    (hlen : buf.length < 65536)
    (hrange : file.start s ino + buf.length < 2 ^ 31)
    (hword : (s.inode ino).iSize < 2 ^ 32) :
    Harmless s bCount ino file buf (faultyWrite io s bCount ino file buf) ↔
      hasFormat sIfreg (s.inode ino).iMode = false ∨ buf = [] ∨ Spared io s ino file buf := by
  by_cases hreg : hasFormat sIfreg (s.inode ino).iMode = true
  · obtain ⟨k, hw, hserved⟩ := @faultyWrite_left io s bCount ino file buf h hi hreg hlen
    by_cases hne : buf = []
    · refine iff_of_true ?_ (Or.inr (Or.inl hne))
      have hret : (faultyWrite io s bCount ino file buf).ret = 0 := by
        subst hne
        unfold faultyWrite
        rw [if_neg (by simp [hreg])]
        rfl
      refine ⟨fun hneg => ?_, fun _ hlt => ?_, hw.bCount⟩
      · rw [hret] at hneg
        cases hneg
      · rw [hret, hne] at hlt
        cases hlt
    · constructor
      · exact fun hharmless => Or.inr (Or.inr
          (spared_of_harmless hw hserved hne hlen hrange hword hharmless))
      · rintro (hnot | hnil | hspared)
        · rw [hreg] at hnot
          cases hnot
        · exact absurd hnil hne
        · exact harmless_of_spared hw hserved hne hspared
  · have hnot : hasFormat sIfreg (s.inode ino).iMode = false := by simpa using hreg
    refine iff_of_true ?_ (Or.inl hnot)
    unfold faultyWrite
    rw [if_pos hnot]
    have hneg : -writeErrno .einval < 0 := by decide
    exact ⟨fun _ => ⟨rfl, rfl, fun _ => rfl⟩, fun h0 => absurd h0 (Int.not_le.mpr hneg), rfl⟩

/-- `minix_getblk` gives no block. -/
def noBlockAtAll : Faults where
  noBlock := fun _ => true
  unreadable := fun _ => false

/-- A write at the start of an empty file that finds no block does no harm. -/
theorem write_harmless_start :
    Harmless freshFs (fun _ => 0) 1 ⟨0, false⟩ [1, 2, 3]
      (faultyWrite noBlockAtAll freshFs (fun _ => 0) 1 ⟨0, false⟩ [1, 2, 3]) := by
  refine (write_harmless_iff noBlockAtAll freshFs (fun _ => 0) 1 ⟨0, false⟩ [1, 2, 3]
    freshFs_owned (by decide +kernel) (by decide) (by decide) (by decide)).mpr
    (Or.inr (Or.inr ⟨fun _ => ⟨rfl, by decide⟩, fun _ => by decide, fun hs => ?_⟩))
  exact absurd ((served_iff (Nat.le_refl 3) 0 (fun _ => 0) 0 32768).mp hs) (by decide)

/-- A write at position five of an empty file that returns an error for its first
block makes the file five bytes long. -/
theorem write_harms_size :
    ¬ Harmless freshFs (fun _ => 0) 1 ⟨5, false⟩ [1]
      (faultyWrite noBlockAtAll freshFs (fun _ => 0) 1 ⟨5, false⟩ [1]) := by
  intro h
  have hsize := (h.failed (by decide)).1
  exact absurd hsize (by decide)

end Write

end Minix
end Elks
