import Elks.Minix.File

/-!
# Regular files as arrays of bytes, over runs (fs/minix/file.c, fs/read_write.c)

Reads, writes and seeks on open regular files, in any order.  A file is an array of bytes with
a length, and an open file a position in it.

**Result.**  `files_are_arrays`: as long as no write ends behind `2 ^ 26`, every run of calls
answers as the arrays do.  A write may find room for a part of its bytes only; behind the end of
the file it moves the end even so.
-/

namespace Elks
namespace Minix

open Lib
open Function (update update_of_ne update_self)

section Code

/-- An open regular file. -/
structure OpenFile where
  ino : Nat
  append : Bool

/-- The file system, and `f_pos` of the open files. -/
structure Session (ι : Type) where
  fs : Fs
  fPos : ι → Nat

inductive FileCall (ι : Type)
  | read (f : ι) (count : Nat)
  | write (f : ι) (data : List UInt8)
  | lseek (f : ι) (offset : Int) (origin : Nat)

/-- What a call returns or stores as a number, and the bytes that it stores. -/
structure Answer where
  ret : Except Errno Int
  buf : List UInt8
deriving DecidableEq

/-- The position that `sys_lseek` computes. -/
def sysLseek (size pos : Nat) (offset : Int) (origin : Nat) : Except Errno Nat :=
  if 2 < origin then .error .einval
  else
    let tmp := int32
      (if origin = 2 then size + offset else if origin = 0 then offset else pos + offset)
    if tmp < 0 then .error .einval else .ok tmp.toNat

variable {ι : Type} [DecidableEq ι] (file : ι → OpenFile)

def Session.call (s : Session ι) : FileCall ι → Answer × Session ι
  | .read f count =>
      let r := minixFileRead s.fs (file f).ino (s.fPos f) count
      (⟨r.ret, r.buf⟩, { s with fPos := update s.fPos f r.fPos })
  | .write f data =>
      let r := minixFileWrite s.fs (file f).ino (s.fPos f) (file f).append data
      (⟨r.ret, []⟩, ⟨r.fs, update s.fPos f r.fPos⟩)
  | .lseek f offset origin =>
      match sysLseek (s.fs.inode (file f).ino).iSize (s.fPos f) offset origin with
      | .error error => (⟨.error error, []⟩, s)
      | .ok pos => (⟨.ok pos, []⟩, { s with fPos := update s.fPos f pos })

/-- The answers to calls, and the state behind them. -/
def Session.calls : Session ι → List (FileCall ι) → List Answer × Session ι
  | s, [] => ([], s)
  | s, c :: cs =>
      let rest := Session.calls (s.call file c).2 cs
      ((s.call file c).1 :: rest.1, rest.2)

end Code

section Purpose

/-- Arrays of bytes with their lengths, and positions in them. -/
structure Arrays (ι : Type) where
  size : Nat → Nat
  byte : Nat → Nat → UInt8
  pos : ι → Nat

variable {ι : Type} [DecidableEq ι] (file : ι → OpenFile)

/-- A call on the arrays; there is room for `n` bytes of a write. -/
inductive Arrays.Call (a : Arrays ι) : FileCall ι → Answer → Arrays ι → Prop
  | read (f : ι) (count : Nat) {m : Nat}
      (hm : m = min count (a.size (file f).ino - a.pos f)) :
      Call a (.read f count)
        ⟨.ok m, (List.range m).map fun k => a.byte (file f).ino (a.pos f + k)⟩
        { a with pos := update a.pos f (a.pos f + m) }
  | write (f : ι) (data : List UInt8) {p n : Nat} (hn : n ≤ data.length)
      (hp : p = if (file f).append then a.size (file f).ino else a.pos f) :
      Call a (.write f data)
        ⟨if n = 0 ∧ data ≠ [] then .error .enospc else .ok n, []⟩
        { size := update a.size (file f).ino (max (a.size (file f).ino) (p + n))
          byte := update a.byte (file f).ino
            (overwrite (a.byte (file f).ino) p (data.take n))
          pos := update a.pos f (p + n) }
  | lseek (f : ι) (offset : Int) (origin : Nat) {pos : Nat}
      (h : sysLseek (a.size (file f).ino) (a.pos f) offset origin = .ok pos) :
      Call a (.lseek f offset origin) ⟨.ok pos, []⟩
        { a with pos := update a.pos f pos }
  | stay (f : ι) (offset : Int) (origin : Nat) {error : Errno}
      (h : sysLseek (a.size (file f).ino) (a.pos f) offset origin = .error error) :
      Call a (.lseek f offset origin) ⟨.error error, []⟩ a

inductive Arrays.Calls : Arrays ι → List (FileCall ι) → List Answer → Arrays ι → Prop
  | nil (a : Arrays ι) : Calls a [] [] a
  | cons {a a' a'' : Arrays ι} {c : FileCall ι} {cs : List (FileCall ι)} {r : Answer}
      {rs : List Answer} (h : a.Call file c r a') (hrest : Calls a' cs rs a'') :
      Calls a (c :: cs) (r :: rs) a''

/-- There are zeros behind the ends, as in files that have been empty. -/
def Arrays.Blank (a : Arrays ι) : Prop :=
  ∀ ino off, a.size ino ≤ off → a.byte ino off = 0

/-- The files that are open show the arrays. -/
structure Session.Shows (s : Session ι) (a : Arrays ι) : Prop where
  owned : Owned s.fs
  zones : ∀ f, s.fs.holdsZones (file f).ino
  regular : ∀ f, hasFormat sIfreg (s.fs.inode (file f).ino).iMode = true
  size : ∀ f, a.size (file f).ino = (s.fs.inode (file f).ino).iSize
  short : ∀ f, (s.fs.inode (file f).ino).iSize ≤ span
  byte : ∀ f off, off < span → a.byte (file f).ino off = s.fs.stored (file f).ino off
  pos : a.pos = s.fPos
  near : ∀ f, s.fPos f < 2 ^ 31

/-- A write ends at or below `span`, and the counts are those of an `int`. -/
def Session.Fits (s : Session ι) : FileCall ι → Prop
  | .read _ count => count ≤ 32767
  | .write f data => data.length ≤ 32767 ∧
      (if (file f).append then (s.fs.inode (file f).ino).iSize else s.fPos f) + data.length ≤ span
  | .lseek _ _ _ => True

instance (s : Session ι) : (c : FileCall ι) → Decidable (s.Fits file c)
  | .read _ count => Nat.decLe count 32767
  | .write _ data => inferInstanceAs (Decidable (data.length ≤ 32767 ∧ _))
  | .lseek _ _ _ => .isTrue trivial

def Session.AllFit : Session ι → List (FileCall ι) → Prop
  | _, [] => True
  | s, c :: cs => s.Fits file c ∧ Session.AllFit (s.call file c).2 cs

instance Session.decidableAllFit :
    (s : Session ι) → (calls : List (FileCall ι)) → Decidable (s.AllFit file calls)
  | _, [] => .isTrue trivial
  | s, c :: cs =>
      have := Session.decidableAllFit (s.call file c).2 cs
      inferInstanceAs (Decidable (s.Fits file c ∧ Session.AllFit file (s.call file c).2 cs))

end Purpose

section Result

variable {ι : Type} [DecidableEq ι] {file : ι → OpenFile} {s : Session ι} {a : Arrays ι}
  {fs fs' : Fs} {ino p n : Nat} {data : List UInt8}

theorem minixFileWrite_prefix (h : Owned fs) (hi : fs.holdsZones ino)
    (hreg : hasFormat sIfreg (fs.inode ino).iMode = true) (hlen : data.length ≤ span)
    (append : Bool) (fPos : Nat) (hp : p = if append then (fs.inode ino).iSize else fPos) :
    ∃ n fs', n ≤ data.length ∧ Written ino p (data.take n) fs fs' ∧
      minixFileWrite fs ino fPos append data =
        { ret := if n = 0 ∧ data ≠ [] then .error .enospc else .ok (int16 n)
          fPos := p + n
          fs := fs'.modInode ino fun i =>
            { i with iSize := if int32 i.iSize < (p + n : Nat) then p + n else i.iSize } } := by
  obtain ⟨hle, hw⟩ := writeLoop_spec h hi (Nat.le_refl data.length) hlen p
  refine ⟨_, _, hle, hw, ?_⟩
  unfold minixFileWrite
  rw [if_neg (by simp [hreg]), ← hp]

/-- No byte of such a write comes round to the beginning. -/
theorem getD_behind {f : Nat → UInt8} {off : Nat} (hend : p + data.length ≤ span)
    (hoff : off < span) : data.getD (behind p off) (f off) = overwrite f p data off := by
  unfold overwrite
  split_ifs with hpo
  · have hbehind : behind p off = off - p := by
      unfold behind span at *
      omega
    rw [hbehind]
  · refine List.getD_eq_default _ _ ?_
    unfold behind span at *
    omega

theorem stored_modInode {f : Inode → Inode} (hf : (f (fs.inode ino)).iZone = (fs.inode ino).iZone)
    (k off : Nat) : (fs.modInode ino f).stored k off = fs.stored k off := by
  unfold Fs.stored Fs.fileBlock Fs.zoneOf
  rw [ptr_modInode fs hf]
  rfl

theorem grown_size {size : Nat} (h : size ≤ span) (pos : Nat) :
    (if int32 size < pos then pos else size) = max size pos := by
  have hint : int32 size = size := Int.bmod_eq_of_le (by omega) (by unfold span at h; omega)
  rw [hint]
  split <;> omega

theorem sysLseek_lt {size pos pos' : Nat} {offset : Int} {origin : Nat}
    (h : sysLseek size pos offset origin = .ok pos') : pos' < 2 ^ 31 := by
  unfold sysLseek at h
  split at h
  · cases h
  · dsimp only at h
    generalize hn : (if origin = 2 then (size : Int) + offset else if origin = 0 then offset
      else pos + offset) = n at h
    have hlt : int32 n < 2147483648 := Int.bmod_lt (by decide)
    split at h
    · cases h
    · cases h
      omega

theorem Session.Shows.write (h : s.Shows file a) (f : ι)
    (hend : p + data.length ≤ span) (hw : Written (file f).ino p data s.fs fs') :
    Session.Shows file
      ⟨fs'.modInode (file f).ino fun i =>
          { i with iSize := if int32 i.iSize < (p + data.length : Nat) then p + data.length
              else i.iSize },
        update s.fPos f (p + data.length)⟩
      { size := update a.size (file f).ino
          (max (a.size (file f).ino) (p + data.length))
        byte := update a.byte (file f).ino (overwrite (a.byte (file f).ino) p data)
        pos := update a.pos f (p + data.length) } where
  owned := by
    dsimp only
    exact hw.owned.modInode rfl rfl
  zones q := (holdsZones_modInode fs' rfl _).mpr ((hw.attrs.holdsZones _).mpr (h.zones q))
  regular q := by
    by_cases hq : (file q).ino = (file f).ino
    · rw [hq, inode_modInode_self, hw.attrs.2]
      exact h.regular f
    · rw [inode_modInode_ne fs' _ hq, hw.attrs.2]
      exact h.regular q
  size q := by
    dsimp only
    by_cases hq : (file q).ino = (file f).ino
    · rw [hq, update_self, inode_modInode_self, hw.attrs.2, h.size f]
      rw [grown_size (h.short f)]
    · rw [update_of_ne hq, inode_modInode_ne fs' _ hq, hw.attrs.2]
      exact h.size q
  short q := by
    dsimp only
    by_cases hq : (file q).ino = (file f).ino
    · rw [hq, inode_modInode_self, hw.attrs.2]
      rw [grown_size (h.short f)]
      exact Nat.max_le.mpr ⟨h.short f, hend⟩
    · rw [inode_modInode_ne fs' _ hq, hw.attrs.2]
      exact h.short q
  byte q off hoff := by
    dsimp only
    rw [stored_modInode rfl]
    by_cases hq : (file q).ino = (file f).ino
    · rw [hq, update_self, hw.stored, getD_behind hend hoff]
      unfold overwrite
      rw [h.byte f off hoff]
    · rw [update_of_ne hq, h.byte q off hoff]
      unfold Fs.stored
      rw [hw.other _ _ (h.zones q) hq (Nat.mod_lt _ (by decide))]
  pos := congrArg (update · f (p + data.length)) h.pos
  near q := by
    dsimp only
    by_cases hq : q = f
    · rw [hq, update_self]
      unfold span at hend
      omega
    · rw [update_of_ne hq]
      exact h.near q

theorem call_shows (h : s.Shows file a) (c : FileCall ι) (hfits : s.Fits file c) :
    ∃ a', a.Call file c (s.call file c).1 a' ∧ (s.call file c).2.Shows file a' := by
  cases c with
  | read f count =>
      have hshort := h.short f
      have hnear := h.near f
      unfold span at hshort
      have hread := readsContent (h.regular f) (by omega) (s.fPos f) count hnear hfits
      obtain ⟨m, hm⟩ : ∃ m, m = min count (a.size (file f).ino - a.pos f) := ⟨_, rfl⟩
      have hcount : min count ((s.fs.inode (file f).ino).iSize - s.fPos f) = m := by
        rw [hm, h.size, h.pos]
      have hbuf : (List.range m).map (fun k => s.fs.content (file f).ino (s.fPos f + k)) =
          (List.range m).map fun k => a.byte (file f).ino (a.pos f + k) := by
        refine List.map_congr_left fun k hk => ?_
        have hlt := List.mem_range.mp hk
        rw [h.pos, h.byte f _ (by unfold span; omega), Fs.content, if_pos (Or.inr (by omega))]
      have hcall : s.call file (.read f count) =
          (⟨.ok m, (List.range m).map fun k => a.byte (file f).ino (a.pos f + k)⟩,
            { s with fPos := update s.fPos f (s.fPos f + m) }) := by
        simp only [Session.call, hread, hcount, hbuf]
      rw [hcall]
      refine ⟨_, .read f count hm, ⟨h.owned, h.zones, h.regular, h.size, h.short, h.byte, ?_,
        fun q => ?_⟩⟩
      · rw [h.pos]
      · by_cases hq : q = f
        · subst hq
          simp only [update_self]
          omega
        · simp only [update_of_ne hq]
          exact h.near q
  | write f data =>
      obtain ⟨p, hp⟩ : ∃ p, p = if (file f).append then (s.fs.inode (file f).ino).iSize
        else s.fPos f := ⟨_, rfl⟩
      have hend : p + data.length ≤ span := hp ▸ hfits.2
      obtain ⟨n, fs', hn, hw, hwrite⟩ := minixFileWrite_prefix h.owned (h.zones f) (h.regular f)
        ((Nat.le_add_left _ _).trans hend) (file f).append (s.fPos f) hp
      have htake : (data.take n).length = n := List.length_take_of_le hn
      have hpart : p + (data.take n).length ≤ span := by
        rw [htake]
        omega
      have hshows := h.write f hpart hw
      rw [htake] at hshows
      have hret : int16 n = n := int16_of_lt (lt_of_le_of_lt (hn.trans hfits.1) (by norm_num))
      unfold Session.call
      simp only [hwrite, hret]
      exact ⟨_, .write f data hn (by rw [hp, h.size, h.pos]), hshows⟩
  | lseek f offset origin =>
      have harray : sysLseek (a.size (file f).ino) (a.pos f) offset origin =
          sysLseek (s.fs.inode (file f).ino).iSize (s.fPos f) offset origin := by
        rw [h.size, h.pos]
      unfold Session.call
      cases hseek : sysLseek (s.fs.inode (file f).ino).iSize (s.fPos f) offset origin with
      | error e =>
          simp only [hseek]
          exact ⟨a, .stay f offset origin (harray.trans hseek), h⟩
      | ok pos =>
          simp only [hseek]
          refine ⟨_, .lseek f offset origin (harray.trans hseek),
            ⟨h.owned, h.zones, h.regular, h.size, h.short, h.byte, ?_, fun q => ?_⟩⟩
          · rw [h.pos]
          · dsimp only
            by_cases hq : q = f
            · rw [hq, update_self]
              exact sysLseek_lt hseek
            · rw [update_of_ne hq]
              exact h.near q

theorem Arrays.Call.blank {a' : Arrays ι} {c : FileCall ι} {r : Answer}
    (hcall : a.Call file c r a') (h : a.Blank) : a'.Blank := by
  cases hcall with
  | read f count hm => exact h
  | write f data hn hp =>
      rename_i p n
      intro ino off hoff
      dsimp only at hoff ⊢
      by_cases hino : ino = (file f).ino
      · subst hino
        rw [update_self] at hoff ⊢
        have hpast : (data.take n).length ≤ off - p := by
          rw [List.length_take]
          omega
        unfold overwrite
        rw [List.getD_eq_default _ _ hpast, ite_self]
        exact h _ off (by omega)
      · rw [update_of_ne hino] at hoff ⊢
        exact h ino off hoff
  | lseek f offset origin hseek => exact h
  | stay f offset origin hseek => exact h

/-- **Open regular files are arrays of bytes**, over every run of calls. -/
theorem files_are_arrays (h : s.Shows file a) (calls : List (FileCall ι))
    (hfit : s.AllFit file calls) :
    ∃ a', a.Calls file calls (s.calls file calls).1 a' ∧
      (s.calls file calls).2.Shows file a' ∧ (a.Blank → a'.Blank) := by
  induction calls generalizing s a with
  | nil => exact ⟨a, .nil a, h, id⟩
  | cons c cs ih =>
      obtain ⟨a₁, hcall, h₁⟩ := call_shows h c hfit.1
      obtain ⟨a', hcalls, h', hblank⟩ := ih h₁ hfit.2
      exact ⟨a', .cons hcall hcalls, h', fun h₀ => hblank (hcall.blank h₀)⟩

/-- An open file appends three bytes, and another one writes behind a gap and reads. -/
def shortSession : List (FileCall Bool) :=
  [.write true [1, 2, 3], .lseek false 2 2, .write false [7], .lseek false (-5) 1,
    .read false 9]

theorem files_are_arrays_short :
    ∃ a a' : Arrays Bool,
      a.Calls (fun append => ⟨1, append⟩) shortSession
        [⟨.ok 3, []⟩, ⟨.ok 5, []⟩, ⟨.ok 1, []⟩, ⟨.ok 1, []⟩, ⟨.ok 5, [2, 3, 0, 0, 7]⟩] a' := by
  let s : Session Bool := ⟨freshFs, fun _ => 0⟩
  let a : Arrays Bool :=
    { size := fun ino => (freshFs.inode ino).iSize, byte := freshFs.stored, pos := fun _ => 0 }
  have hi : freshFs.holdsZones 1 := by decide +kernel
  have hreg : hasFormat sIfreg (freshFs.inode 1).iMode = true := by decide
  have hshows : s.Shows (fun append => ⟨1, append⟩) a :=
    ⟨freshFs_owned, fun _ => hi, fun _ => hreg, fun _ => rfl, fun _ => Nat.zero_le _,
      fun _ _ _ => rfl, rfl, fun _ => by change 0 < 2 ^ 31; decide⟩
  have hanswers : (s.calls (fun append => ⟨1, append⟩) shortSession).1 =
      [⟨.ok 3, []⟩, ⟨.ok 5, []⟩, ⟨.ok 1, []⟩, ⟨.ok 1, []⟩, ⟨.ok 5, [2, 3, 0, 0, 7]⟩] := by
    decide +kernel
  obtain ⟨a', hcalls, -⟩ := files_are_arrays hshows shortSession (by decide +kernel)
  exact ⟨a, a', hanswers ▸ hcalls⟩

end Result
end Minix
end Elks
