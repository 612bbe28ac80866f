import Elks.Minix.Ownership
import Mathlib.Data.List.GetD

/-!
# Regular files as sparse arrays of bytes (fs/minix/file.c)

`minix_file_read` and `minix_file_write` turn a position into a block number of
the file by `(unsigned short) (pos >> BLOCK_SIZE_BITS)`, so positions that
differ by `2 ^ 26` fall on the same stored byte.

* A read returns the bytes stored for its positions, whatever they are.
* A write changes the bytes stored for its positions, and with them those of
  all positions that differ from one of its own by a multiple of `2 ^ 26`.

So a write behaves as a write to a sparse array exactly when it ends at or
below `2 ^ 26` and the file does not reach `2 ^ 26` bytes past its start.
-/

namespace Elks
namespace Minix

open Lib
open Buffer (Block blockSize)

section Code

/-- Conversion to a 32-bit `loff_t`. -/
def int32 (n : Int) : Int :=
  n.bmod 4294967296

/-- What a call leaves in the caller's buffer and in `filp->f_pos`. -/
structure FileRead where
  ret : Except Errno Int
  buf : List UInt8
  fPos : Nat

/-- The rounds of the loop of `minix_file_read`. -/
def readLoop (s : Fs) (ino : Nat) : Nat → Nat → Nat → Nat → List UInt8
  | 0, _, _, _ => []
  | blocks + 1, block, offset, left =>
      let chars := if left < 1024 - offset then left else 1024 - offset
      let copied :=
        match (minixGetblk s ino block false).1 with
        | some bh => (List.range chars).map fun k => byteAt (s.block bh) (offset + k)
        | none => List.replicate chars 0
      copied ++ readLoop s ino blocks (wrap 16 (block + 1)) 0 (left - chars)

/-- `minix_file_read` at position `fPos`. -/
def minixFileRead (s : Fs) (ino fPos icount : Nat) : FileRead :=
  let count := icount % 65536
  let size := int32 (s.inode ino).iSize
  let left := if fPos > size then 0 else size - fPos
  let left := if left > count then (count : Int) else left
  if left ≤ 0 then { ret := .ok 0, buf := [], fPos := fPos }
  else if hasFormat sIfreg (s.inode ino).iMode = false then
    { ret := .error .einval, buf := [], fPos := fPos }
  else
    let left := left.toNat
    let offset := fPos % 1024
    let blocks := wrap 16 ((offset + left + 1023) / 1024)
    let buf := readLoop s ino blocks (wrap 16 (fPos / 1024)) offset left
    { ret := if buf.length = 0 then .error .eio else .ok (int16 buf.length)
      buf := buf
      fPos := fPos + buf.length }

/-- The rounds of the loop of `minix_file_write`: how many bytes were written,
and the file system after it. -/
def writeLoop (ino : Nat) : Nat → Fs → Nat → List UInt8 → Nat × Fs
  | 0, s, _, _ => (0, s)
  | rounds + 1, s, pos, buf =>
      if buf = [] then (0, s)
      else
        match minixGetblk s ino (wrap 16 (pos / 1024)) true with
        | (none, s) => (0, s)
        | (some bh, s) =>
            let c := min (1024 - pos % 1024) buf.length
            let rest :=
              writeLoop ino rounds (s.putBlock bh (patch (s.block bh) (pos % 1024) (buf.take c)))
                (pos + c) (buf.drop c)
            (c + rest.1, rest.2)

/-- What a write returns and leaves. -/
structure FileWrite where
  ret : Except Errno Int
  fPos : Nat
  fs : Fs

/-- `minix_file_write`; every round writes at least one byte. -/
def minixFileWrite (s : Fs) (ino fPos : Nat) (append : Bool) (buf : List UInt8) : FileWrite :=
  if hasFormat sIfreg (s.inode ino).iMode = false then
    { ret := .error .einval, fPos := fPos, fs := s }
  else
    let pos := if append then (s.inode ino).iSize else fPos
    let written := writeLoop ino buf.length s pos buf
    let pos := pos + written.1
    { ret := if written.1 = 0 ∧ buf ≠ [] then .error .enospc else .ok (int16 written.1)
      fPos := pos
      fs := written.2.modInode ino fun i =>
        { i with iSize := if int32 i.iSize < pos then pos else i.iSize } }

end Code

section Model

/-- Positions that differ by a multiple of this fall on the same byte. -/
def span : Nat :=
  65536 * 1024

/-- The byte stored for a position. -/
def Fs.stored (s : Fs) (ino off : Nat) : UInt8 :=
  byteAt (s.fileBlock ino (off / 1024 % 65536)) (off % 1024)

/-- The content of a file: the stored bytes, and zero at the positions past its
end that have no byte of their own. -/
def Fs.content (s : Fs) (ino off : Nat) : UInt8 :=
  if off < span ∨ off < (s.inode ino).iSize then s.stored ino off else 0

/-- An array of bytes after a write. -/
def overwrite (f : Nat → UInt8) (p : Nat) (data : List UInt8) : Nat → UInt8 :=
  fun off => if p ≤ off then data.getD (off - p) (f off) else f off

/-- How far `off` lies behind `p` on the ring of stored bytes. -/
def behind (p off : Nat) : Nat :=
  (off + (span - p % span)) % span

/-- A later read at any position returns the bytes of the content up to the end
of the file. -/
def ReadsContent (s : Fs) (ino : Nat) : Prop :=
  ∀ q c, q < 2 ^ 31 → c ≤ 32767 →
    minixFileRead s ino q c =
      { ret := .ok ((min c ((s.inode ino).iSize - q) : Nat) : Int)
        buf := (List.range (min c ((s.inode ino).iSize - q))).map fun k => s.content ino (q + k)
        fPos := q + min c ((s.inode ino).iSize - q) }

/-- The write of `data` at `p` behaves as a write to a sparse array of bytes. -/
def WriteMeets (s : Fs) (ino p : Nat) (data : List UInt8) : Prop :=
  (minixFileWrite s ino p false data).ret = .ok data.length →
    ((minixFileWrite s ino p false data).fs.inode ino).iSize =
        max (s.inode ino).iSize (p + data.length) ∧
      (∀ off, (minixFileWrite s ino p false data).fs.content ino off =
        overwrite (s.content ino) p data off) ∧
      ReadsContent (minixFileWrite s ino p false data).fs ino

end Model

section Read

variable {s : Fs} {ino : Nat}

theorem readLoop_spec (s : Fs) (ino : Nat) (blocks pos left : Nat)
    (h : blocks = (pos % 1024 + left + 1023) / 1024) :
    readLoop s ino blocks (wrap 16 (pos / 1024)) (pos % 1024) left =
      (List.range left).map fun k => s.stored ino (pos + k) := by
  induction blocks generalizing pos left with
  | zero =>
      have hleft : left = 0 := by omega
      rw [hleft]
      rfl
  | succ blocks ih =>
      unfold readLoop
      rw [minixGetblk_find]
      dsimp only
      generalize hc : (if left < 1024 - pos % 1024 then left else 1024 - pos % 1024) = chars
      have hcopied : (match bufferOf (s.zoneOf ino (wrap 16 (pos / 1024))) with
          | some bh => (List.range chars).map fun k => byteAt (s.block bh) (pos % 1024 + k)
          | none => List.replicate chars 0) =
          (List.range chars).map fun k => s.stored ino (pos + k) := by
        have hk : ∀ k ∈ List.range chars, s.stored ino (pos + k) =
            byteAt (s.fileBlock ino (wrap 16 (pos / 1024))) (pos % 1024 + k) := by
          intro k hk
          rw [List.mem_range] at hk
          have hlt : k < 1024 - pos % 1024 := by
            split at hc <;> omega
          unfold Fs.stored wrap
          rw [show (pos + k) / 1024 = pos / 1024 by omega,
            show (pos + k) % 1024 = pos % 1024 + k by omega]
          rfl
        rw [List.map_congr_left hk]
        unfold Fs.fileBlock
        cases hb : bufferOf (s.zoneOf ino (wrap 16 (pos / 1024))) with
        | none =>
            rw [bufferOf_eq_none.mp hb, if_pos rfl]
            simp [byteAt_zeroBlock]
        | some bh =>
            obtain ⟨h0, rfl⟩ := bufferOf_eq_some.mp hb
            rw [if_neg h0]
      rw [hcopied]
      by_cases hlt : left < 1024 - pos % 1024
      · rw [if_pos hlt] at hc
        have hblocks : blocks = 0 := by omega
        subst hc hblocks
        simp [readLoop]
      · rw [if_neg hlt] at hc
        have hnext := ih (pos + chars) (left - chars) (by omega)
        rw [show (pos + chars) % 1024 = 0 by omega,
          show wrap 16 ((pos + chars) / 1024) = wrap 16 (wrap 16 (pos / 1024) + 1) by
            unfold wrap
            omega] at hnext
        rw [hnext]
        have hsplit : left = chars + (left - chars) := by omega
        conv_rhs => rw [hsplit, List.range_add, List.map_append, List.map_map]
        congr 2
        funext k
        simp [Nat.add_assoc]

theorem readsContent (hreg : hasFormat sIfreg (s.inode ino).iMode = true)
    (hsize : (s.inode ino).iSize < 2 ^ 31) : ReadsContent s ino := by
  intro q c hq hc
  have hint : int32 (s.inode ino).iSize = (s.inode ino).iSize := by
    exact Int.bmod_eq_of_le (by omega) (by omega)
  unfold minixFileRead
  rw [hint, Nat.mod_eq_of_lt (by omega : c < 65536)]
  dsimp only
  have hleft : (if (if (q : Int) > (s.inode ino).iSize then (0 : Int)
      else (s.inode ino).iSize - q) > c then (c : Int)
      else if (q : Int) > (s.inode ino).iSize then 0 else (s.inode ino).iSize - q) =
      (min c ((s.inode ino).iSize - q) : Nat) := by
    split <;> split <;> omega
  rw [hleft]
  generalize hm : min c ((s.inode ino).iSize - q) = m
  by_cases hm0 : m = 0
  · rw [if_pos (by omega), hm0]
    rfl
  · have hblocks : wrap 16 ((q % 1024 + m + 1023) / 1024) = (q % 1024 + m + 1023) / 1024 :=
      wrap_of_lt (by omega)
    rw [if_neg (by omega), if_neg (by simp [hreg]), Int.toNat_natCast, hblocks,
      readLoop_spec s ino _ q m rfl]
    have hcontent : (List.range m).map (fun k => s.stored ino (q + k)) =
        (List.range m).map fun k => s.content ino (q + k) := by
      refine List.map_congr_left fun k hk => ?_
      rw [List.mem_range] at hk
      unfold Fs.content
      rw [if_pos (Or.inr (by omega))]
    have hret : int16 m = m := int16_of_lt (by omega)
    rw [hcontent]
    simp [hm0, hret]

end Read

section Write

variable {s s' s'' : Fs} {ino p : Nat} {a b data : List UInt8}

/-- The bytes `data` were stored from position `p` on, and no other byte of any
file changed. -/
structure Written (ino p : Nat) (data : List UInt8) (s s' : Fs) : Prop where
  attrs : SameAttrs s s'
  owned : Owned s'
  stored : ∀ off, s'.stored ino off = data.getD (behind p off) (s.stored ino off)
  other : ∀ k n, s.holdsZones k → k ≠ ino → n < 65536 →
    s'.fileBlock k n = s.fileBlock k n

theorem Written.append (ha : Written ino p a s s') (hb : Written ino (p + a.length) b s' s'')
    (hlen : a.length + b.length ≤ span) :
    Written ino p (a ++ b) s s'' where
  attrs := ha.attrs.trans hb.attrs
  owned := hb.owned
  stored := fun off => by
    rw [hb.stored, ha.stored]
    unfold span at hlen
    by_cases hd : behind p off < a.length
    · have hpast : b.length ≤ behind (p + a.length) off := by
        unfold behind span at *
        omega
      rw [List.getD_append _ _ _ _ hd, List.getD_eq_default _ _ hpast]
    · have hback : behind (p + a.length) off = behind p off - a.length := by
        unfold behind span at *
        omega
      rw [List.getD_append_right _ _ _ _ (by omega), hback,
        List.getD_eq_default a _ (by omega)]
  other := fun k n hk hne hn => by
    rw [hb.other k n ((ha.attrs.holdsZones k).mpr hk) hne hn, ha.other k n hk hne hn]

theorem Grown.stored (hi : s.holdsZones ino) (h : Grown ino s s') (off : Nat) :
    s'.stored ino off = s.stored ino off := by
  unfold Fs.stored
  rw [h.fileBlock ino _ hi]

/-- Bytes copied into the block of a position are stored at that position. -/
theorem written_patch (h : Owned s) (hi : s.holdsZones ino)
    (h0 : s.zoneOf ino (wrap 16 (p / 1024)) ≠ 0) (hfit : data.length ≤ 1024 - p % 1024) :
    Written ino p data s
      (s.putBlock (s.zoneOf ino (wrap 16 (p / 1024)))
        (patch (s.block (s.zoneOf ino (wrap 16 (p / 1024)))) (p % 1024) data)) := by
  have hw : wrap 16 (p / 1024) < 65536 := wrap_lt 16 _
  refine ⟨SameAttrs.refl s, (h.putBlock hi h0 _).1, fun off => ?_, fun k n hk hne hn => ?_⟩
  · unfold Fs.stored
    rw [h.fileBlock_putBlock hi hw h0 _ hi (Nat.mod_lt _ (by decide))]
    have hold : s.block (s.zoneOf ino (wrap 16 (p / 1024))) =
        s.fileBlock ino (wrap 16 (p / 1024)) := by
      rw [Fs.fileBlock, if_neg h0]
    rw [hold]
    have hval : (Fin.ofNat blockSize (off % 1024)).val = off % 1024 := by
      change off % 1024 % 1024 = off % 1024
      omega
    by_cases hb : off / 1024 % 65536 = wrap 16 (p / 1024)
    · rw [if_pos ⟨rfl, hb⟩, hb, byteAt, patch, hval]
      have hwrap : wrap 16 (p / 1024) = p / 1024 % 65536 := rfl
      rw [hwrap] at hb
      split
      · have hd : behind p off = off % 1024 - p % 1024 := by
          unfold behind span
          omega
        rw [hd]
        rfl
      · have hd : data.length ≤ behind p off := by
          unfold behind span
          omega
        rw [List.getD_eq_default _ _ hd]
        rfl
    · have hwrap : wrap 16 (p / 1024) = p / 1024 % 65536 := rfl
      rw [hwrap] at hb
      have hd : data.length ≤ behind p off := by
        unfold behind span
        omega
      rw [if_neg (fun hc => hb hc.2), List.getD_eq_default _ _ hd]
  · rw [h.fileBlock_putBlock hi hw h0 _ hk hn, if_neg (fun hc => hne hc.1)]

theorem written_nil (h : Owned s) : Written ino p [] s s :=
  ⟨SameAttrs.refl s, h, fun _ => rfl, fun _ _ _ _ _ => rfl⟩

theorem Grown.written (hi : s.holdsZones ino) (hg : Grown ino s s')
    (h : Written ino p data s' s'') :
    Written ino p data s s'' where
  attrs := hg.attrs.trans h.attrs
  owned := h.owned
  stored := fun off => by rw [h.stored, hg.stored hi]
  other := fun k n hk hne hn => by
    rw [h.other k n ((hg.attrs.holdsZones k).mpr hk) hne hn, hg.fileBlock k n hk]

theorem writeLoop_spec (h : Owned s) (hi : s.holdsZones ino) {rounds : Nat} {buf : List UInt8}
    (hrounds : buf.length ≤ rounds) (hlen : buf.length ≤ span) (pos : Nat) :
    (writeLoop ino rounds s pos buf).1 ≤ buf.length ∧
      Written ino pos (buf.take (writeLoop ino rounds s pos buf).1) s
        (writeLoop ino rounds s pos buf).2 := by
  induction rounds generalizing s pos buf with
  | zero => exact ⟨Nat.zero_le _, written_nil h⟩
  | succ rounds ih =>
      unfold writeLoop
      split
      · exact ⟨Nat.zero_le _, written_nil h⟩
      · rename_i hne
        have hpos : 0 < buf.length := List.length_pos_iff.mpr hne
        obtain ⟨s1, hgrown, hget⟩ := minixGetblk_create h hi (wrap 16 (pos / 1024))
        have hi1 := (hgrown.attrs.holdsZones ino).mpr hi
        rw [hget]
        cases hbh : bufferOf (s1.zoneOf ino (wrap 16 (pos / 1024))) with
        | none => exact ⟨Nat.zero_le _, hgrown.written hi (written_nil hgrown.owned)⟩
        | some bh =>
            obtain ⟨h0, rfl⟩ := bufferOf_eq_some.mp hbh
            dsimp only
            generalize hc : min (1024 - pos % 1024) buf.length = c
            have htake : (buf.take c).length = c := by
              rw [List.length_take]
              omega
            have hchunk := written_patch hgrown.owned hi1 h0
              (show (buf.take c).length ≤ 1024 - pos % 1024 by omega)
            have hdrop : (buf.drop c).length = buf.length - c := List.length_drop
            obtain ⟨hle, hrest⟩ := ih hchunk.owned ((hchunk.attrs.holdsZones ino).mpr hi1)
              (hdrop.trans_le (by omega)) (by omega) (pos + c)
            generalize writeLoop ino rounds _ (pos + c) (buf.drop c) = r at hle hrest ⊢
            refine ⟨by omega, ?_⟩
            rw [List.take_add]
            refine hgrown.written hi (hchunk.append ?_ ?_)
            · rwa [htake]
            · rw [htake, List.length_take]
              omega

theorem minixFileWrite_spec (h : Owned s) (hi : s.holdsZones ino)
    (hreg : hasFormat sIfreg (s.inode ino).iMode = true) (hlen : data.length ≤ span)
    (hret : (minixFileWrite s ino p false data).ret = .ok data.length) :
    (∀ off, (minixFileWrite s ino p false data).fs.stored ino off =
      data.getD (behind p off) (s.stored ino off)) ∧
    ((minixFileWrite s ino p false data).fs.inode ino).iMode = (s.inode ino).iMode ∧
    ((minixFileWrite s ino p false data).fs.inode ino).iSize =
      if int32 (s.inode ino).iSize < (p + data.length : Nat) then p + data.length
      else (s.inode ino).iSize := by
  obtain ⟨hle, hw⟩ := writeLoop_spec h hi (Nat.le_refl data.length) hlen p
  unfold minixFileWrite at hret ⊢
  rw [if_neg (by simp [hreg])] at hret ⊢
  simp only [Bool.false_eq_true, if_false] at hret ⊢
  generalize writeLoop ino data.length s p data = r at hle hw hret ⊢
  have hr : r.1 = data.length := by
    split at hret
    · cases hret
    · exact int16_eq_natCast hle (Except.ok.inj hret)
  rw [hr, List.take_length] at hw
  refine ⟨fun off => ?_, ?_, ?_⟩
  · rw [← hw.stored off]
    unfold Fs.stored Fs.fileBlock Fs.zoneOf
    rw [ptr_modInode _ rfl]
    rfl
  · rw [inode_modInode_self, hw.attrs.2 ino]
  · rw [inode_modInode_self, hw.attrs.2 ino, hr]

theorem writeMeets_of_short (h : Owned s) (hi : s.holdsZones ino)
    (hreg : hasFormat sIfreg (s.inode ino).iMode = true) (hend : p + data.length ≤ span)
    (hsize : (s.inode ino).iSize ≤ p + span) : WriteMeets s ino p data := by
  intro hret
  obtain ⟨hstored, hmode, hnew⟩ := minixFileWrite_spec h hi hreg (by omega) hret
  have hint : int32 (s.inode ino).iSize = (s.inode ino).iSize := by
    unfold span at *
    exact Int.bmod_eq_of_le (by omega) (by omega)
  have hmax : ((minixFileWrite s ino p false data).fs.inode ino).iSize =
      max (s.inode ino).iSize (p + data.length) := by
    rw [hnew, hint]
    split <;> omega
  refine ⟨hmax, fun off => ?_, readsContent (by rw [hmode]; exact hreg) ?_⟩
  · unfold overwrite Fs.content
    rw [hmax, hstored]
    by_cases hvis : off < span ∨ off < (s.inode ino).iSize
    · rw [if_pos (by omega), if_pos hvis]
      by_cases hpo : p ≤ off
      · rw [if_pos hpo]
        by_cases hin : off < span
        · have hb : behind p off = off - p := by
            unfold behind span at *
            omega
          rw [hb]
        · have hb : data.length ≤ behind p off := by
            unfold behind span at *
            omega
          rw [List.getD_eq_default _ _ hb, List.getD_eq_default _ _ (by omega)]
      · have hb : data.length ≤ behind p off := by
          unfold behind span at *
          omega
        rw [if_neg hpo, List.getD_eq_default _ _ hb]
    · rw [if_neg (by omega), if_neg hvis]
      split
      · rw [List.getD_eq_default _ _ (by omega)]
      · rfl
  · rw [hmax]
    unfold span at *
    omega

/-- A position that counts, is not written and falls on a written byte shows a
byte it should not. -/
theorem not_writeMeets_of_alias (h : Owned s) (hi : s.holdsZones ino)
    (hreg : hasFormat sIfreg (s.inode ino).iMode = true) {n off : Nat} (hn : n ≤ span)
    (hspace : ∀ data, data.length = n → (minixFileWrite s ino p false data).ret = .ok n)
    (hvis : off < span ∨ off < (s.inode ino).iSize) (hout : off < p ∨ p + n ≤ off)
    (halias : behind p off < n) : ∃ data, data.length = n ∧ ¬ WriteMeets s ino p data := by
  have hlen : (List.replicate n (s.stored ino off + 1)).length = n := List.length_replicate
  have hret := hspace _ hlen
  refine ⟨_, hlen, fun hmeets => ?_⟩
  obtain ⟨hmax, hcontent, -⟩ := hmeets (by rw [hret, hlen])
  have hstored := (minixFileWrite_spec h hi hreg (hlen.trans_le hn) (by rw [hret, hlen])).1 off
  have hoff := hcontent off
  rw [List.getD_replicate _ halias] at hstored
  unfold overwrite Fs.content at hoff
  rw [if_pos (by omega), if_pos hvis, hstored] at hoff
  have hsame : s.stored ino off + 1 = s.stored ino off := by
    split at hoff
    · rwa [List.getD_eq_default _ _ (by omega)] at hoff
    · exact hoff
  have hval := congrArg UInt8.toNat hsame
  rw [UInt8.toNat_add] at hval
  have hone : (1 : UInt8).toNat = 1 := rfl
  omega

/-- For a file, a position and a length at which a write succeeds: every such
write behaves as a write to a sparse array exactly when it ends at or below
`span` and the file does not reach `span` bytes past its start. -/
theorem writeMeets_iff
    (s : Fs)
    (h : Owned s)
    (ino p n : Nat)
    (hi : s.holdsZones ino)
    (hreg : hasFormat sIfreg (s.inode ino).iMode = true)
    (hn : 0 < n ∧ n ≤ 32767)
    (hpn : p + n < 2 ^ 31)
    (hspace : ∀ data, data.length = n → (minixFileWrite s ino p false data).ret = .ok n) :
    (∀ data, data.length = n → WriteMeets s ino p data) ↔
      p + n ≤ span ∧ (s.inode ino).iSize ≤ p + span := by
  have hspan : n ≤ span := by
    unfold span
    omega
  constructor
  · intro hall
    have hno : ∀ off, (off < span ∨ off < (s.inode ino).iSize) → (off < p ∨ p + n ≤ off) →
        ¬ behind p off < n := by
      intro off hvis hout halias
      obtain ⟨data, hlen, hnot⟩ := not_writeMeets_of_alias h hi hreg hspan hspace hvis hout halias
      exact hnot (hall data hlen)
    by_contra hcond
    by_cases hend : p + n ≤ span
    · refine hno (p + span) (by omega) (by omega) ?_
      unfold behind span at *
      omega
    · refine hno ((p + n - 1) % span) (Or.inl (Nat.mod_lt _ (by decide))) ?_ ?_
      · unfold span at *
        omega
      · unfold behind span at *
        omega
  · rintro ⟨hend, hsize⟩ data hlen
    exact writeMeets_of_short h hi hreg (by omega) hsize

/-- A small write to an empty file is such a write. -/
theorem writeMeets_iff_small :
    (∀ data, data.length = 3 → (minixFileWrite freshFs 1 5 false data).ret = .ok 3) ∧
      ((∀ data, data.length = 3 → WriteMeets freshFs 1 5 data) ↔
        5 + 3 ≤ span ∧ (freshFs.inode 1).iSize ≤ 5 + span) := by
  have hspace : ∀ data : List UInt8, data.length = 3 →
      (minixFileWrite freshFs 1 5 false data).ret = .ok 3 := by
    intro data hlen
    obtain ⟨a, b, c, rfl⟩ := List.length_eq_three.mp hlen
    have hret : (minixFileWrite freshFs 1 5 false [a, b, c]).ret = .ok (int16 3) := rfl
    have hthree : int16 3 = 3 := by decide
    rwa [hthree] at hret
  have hi : freshFs.holdsZones 1 := by decide +kernel
  exact ⟨hspace, writeMeets_iff freshFs freshFs_owned 1 5 3 hi (by decide) (by decide)
    (by decide) hspace⟩

/-- One byte written at position `2 ^ 26` of an empty file is also the byte at
position zero. -/
theorem write_wraps :
    ¬ WriteMeets freshFs 1 (2 ^ 26) [1] := by
  intro h
  have hret : (minixFileWrite freshFs 1 (2 ^ 26) false [1]).ret = .ok 1 := by decide +kernel
  have hzero := (h hret).2.1 0
  exact absurd hzero (by decide +kernel)

end Write

end Minix
end Elks
