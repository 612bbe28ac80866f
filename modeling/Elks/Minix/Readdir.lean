import Elks.Minix.DirPins
import Elks.Romfs.Dir

/-!
# Listing a Minix directory (fs/minix/dir.c, fs/readdir.c)

`minix_readdir` goes through the entries of a directory from `f_pos` on, over a block
that is not there in one step, and hands each entry in use to `fillonedir`, which
takes one in a call of `sys_readdir` and refuses the next.  `f_pos` is then left at
the entry that was refused.

* `liveFrom`: the entries in use from a slot on, sixty-four slots to a block.
* `readdirEntries_takes`, `readdirBlocks_takes`: of these the loops take the first,
  and leave `f_pos` at the slot where the others begin.
* `sysReaddir_next`: so a call of `sys_readdir` delivers the next one.
* `listAll_lists`: the calls, until one delivers nothing, deliver all of them.
-/

namespace Elks
namespace Readdir

open Minix (Errno)
open Pins (DirWorld DirEntry sDirsize sNamelen)
open Romfs (Callback Dirent Listed fillonedir strnlen)

section Code

variable {ι β : Type} (W : DirWorld ι β)

/-- The inner loop of `minix_readdir`, over the entries of a block: whether
`filldir` has refused one, `f_pos`, and the callback. -/
def readdirEntries (inode : ι) (bh : β) :
    Nat → Nat → Int → Callback → Option (Bool × Int × Callback)
  | 0, _, _, _ => none
  | fuel + 1, offset, fPos, buf =>
      let next (buf : Callback) :=
        if offset + sDirsize < 1024 ∧ fPos + sDirsize < W.iSize inode then
          readdirEntries inode bh fuel (offset + sDirsize) (fPos + sDirsize) buf
        else some (false, fPos + sDirsize, buf)
      let de := W.entry bh offset
      if de.inode ≠ 0 then
        let size := strnlen de.name sNamelen
        match fillonedir buf de.name size fPos de.inode with
        | .error _ => some (true, fPos, buf)
        | .ok buf => next buf
      else next buf

/-- The outer loop of `minix_readdir`: `f_pos` and the callback.  `block_t` has
sixteen bits, and a block has sixty-four entries. -/
def readdirBlocks (inode : ι) : Nat → Int → Callback → Option (Int × Callback)
  | 0, _, _ => none
  | fuel + 1, fPos, buf =>
      if fPos < W.iSize inode then
        let offset := (fPos % 1024).toNat
        match W.block inode (fPos / 1024 % 65536).toNat with
        | none => readdirBlocks inode fuel (fPos + (1024 - offset)) buf
        | some bh =>
            match readdirEntries W inode bh 64 offset fPos buf with
            | none => none
            | some (true, fPos, buf) => some (fPos, buf)
            | some (false, fPos, buf) => readdirBlocks inode fuel fPos buf
      else some (fPos, buf)

/-- `minix_readdir`, of an inode with a superblock. -/
def minixReaddir (fuel : Nat) (inode : ι) (fPos : Int) (buf : Callback) :
    Option (Except Errno (Int × Callback)) :=
  if W.isDir inode = false ∨ fPos % sDirsize ≠ 0 then some (.error .ebadf)
  else (readdirBlocks W inode fuel fPos buf).map .ok

/-- `sys_readdir`, of a descriptor that `fd_check` finds open on the directory. -/
def sysReaddir (fuel : Nat) (inode : ι) (fPos : Int) : Option Listed :=
  (minixReaddir W fuel inode fPos { count := 0, dirent := none }).map fun r =>
    match r with
    | .error e => { ret := .error e, fPos := fPos, dirent := none }
    | .ok (fPos, buf) => { ret := .ok buf.count, fPos := fPos, dirent := buf.dirent }

/-- A program that calls `sys_readdir` until it returns zero: the entries it gets. -/
def listAll (fuel : Nat) (inode : ι) : Nat → Int → Option (List Dirent)
  | 0, _ => none
  | calls + 1, fPos =>
      match sysReaddir W fuel inode fPos with
      | none => none
      | some r =>
          match r.ret with
          | .error _ => none
          | .ok count =>
              if count = 0 then some []
              else
                r.dirent.bind fun d => (listAll fuel inode calls r.fPos).map (d :: ·)

end Code

section Live

variable {ι β : Type} (W : DirWorld ι β) (inode : ι)

/-- The name of an entry: its bytes before the first zero, fourteen at most. -/
def nameOf (de : DirEntry) : List UInt8 :=
  ((List.range sNamelen).map de.name).takeWhile (· ≠ 0)

/-- The entry in slot `k`, if the slot is in use. -/
def live (k : Nat) : Option Dirent :=
  if sDirsize * k < W.iSize inode then
    (W.block inode (k / 64)).bind fun bh =>
      let de := W.entry bh (sDirsize * (k % 64))
      if de.inode = 0 then none
      else
        some {
          dIno := de.inode
          dOffset := (sDirsize * k : Nat)
          dNamlen := (nameOf de).length
          dName := nameOf de }
  else none

/-- The entries in use of the `n` slots from `k` on. -/
def liveSlots : Nat → Nat → List Dirent
  | 0, _ => []
  | n + 1, k => (live W inode k).toList ++ liveSlots n (k + 1)

/-- The entries in use from slot `k` on. -/
def liveFrom (k : Nat) : List Dirent :=
  liveSlots W inode (W.iSize inode - k) k

variable {W inode} {k j : Nat} {d : Dirent}

theorem live_none_of_end (hend : W.iSize inode ≤ sDirsize * k) :
    live W inode k = none :=
  if_neg (by omega)

theorem live_none_of_hole (hhole : W.block inode (k / 64) = none) : live W inode k = none := by
  unfold live
  rw [hhole]
  simp

theorem liveFrom_succ (k : Nat) :
    liveFrom W inode k = (live W inode k).toList ++ liveFrom W inode (k + 1) := by
  unfold liveFrom
  by_cases hk : k < W.iSize inode
  · obtain ⟨n, hn⟩ : ∃ n, W.iSize inode - k = n + 1 := ⟨_, (Nat.succ_pred (by omega)).symm⟩
    rw [hn, liveSlots, show W.iSize inode - (k + 1) = n by omega]
  · have hend : W.iSize inode ≤ sDirsize * k := by
      unfold sDirsize
      omega
    rw [live_none_of_end hend, show W.iSize inode - k = 0 by omega,
      show W.iSize inode - (k + 1) = 0 by omega]
    rfl

theorem liveFrom_skip (hkj : k ≤ j) (hnone : ∀ i, k ≤ i → i < j → live W inode i = none) :
    liveFrom W inode k = liveFrom W inode j := by
  induction j, hkj using Nat.le_induction with
  | base => rfl
  | succ j hkj ih =>
      rw [ih fun i hi hij => hnone i hi (by omega), liveFrom_succ,
        hnone j hkj (Nat.lt_succ_self j)]
      rfl

theorem liveFrom_end (hend : W.iSize inode ≤ sDirsize * k) : liveFrom W inode k = [] := by
  have hslots : ∀ n k, W.iSize inode ≤ sDirsize * k →
      liveSlots W inode n k = [] := by
    intro n
    induction n with
    | zero => exact fun _ _ => rfl
    | succ n ih =>
        intro k hk
        have hk' : W.iSize inode ≤ sDirsize * (k + 1) := by
          unfold sDirsize at *
          omega
        rw [liveSlots, live_none_of_end hk, ih (k + 1) hk']
        rfl
  exact hslots _ k hend

theorem mem_liveFrom : d ∈ liveFrom W inode k ↔ ∃ i, k ≤ i ∧ live W inode i = some d := by
  have hslots : ∀ n k, d ∈ liveSlots W inode n k ↔
      ∃ i, k ≤ i ∧ i < k + n ∧ live W inode i = some d := by
    intro n
    induction n with
    | zero =>
        intro k
        constructor
        · intro h
          cases h
        · rintro ⟨i, hk, hi, -⟩
          omega
    | succ n ih =>
        intro k
        rw [liveSlots, List.mem_append, Option.mem_toList, ih (k + 1)]
        constructor
        · rintro (h | ⟨i, hk, hi, h⟩)
          · exact ⟨k, le_rfl, by omega, h⟩
          · exact ⟨i, by omega, by omega, h⟩
        · rintro ⟨i, hk, hi, h⟩
          rcases eq_or_lt_of_le hk with rfl | hlt
          · exact Or.inl h
          · exact Or.inr ⟨i, hlt, by omega, h⟩
  unfold liveFrom
  rw [hslots]
  constructor
  · rintro ⟨i, hk, -, h⟩
    exact ⟨i, hk, h⟩
  · rintro ⟨i, hk, h⟩
    refine ⟨i, hk, ?_, h⟩
    by_contra hi
    have hend : W.iSize inode ≤ sDirsize * i := by
      unfold sDirsize
      omega
    rw [live_none_of_end hend] at h
    cases h

theorem live_offset (h : live W inode k = some d) : d.dOffset = (sDirsize * k : Nat) := by
  unfold live at h
  split at h
  · obtain ⟨bh, -, h⟩ := Option.bind_eq_some_iff.mp h
    dsimp only at h
    split at h
    · cases h
    · rw [← Option.some.inj h]
  · cases h

theorem liveSlots_pairwise (n k : Nat) :
    (liveSlots W inode n k).Pairwise (fun d d' => d.dOffset < d'.dOffset) ∧
      ∀ d ∈ liveSlots W inode n k, (sDirsize * k : Nat) ≤ d.dOffset := by
  induction n generalizing k with
  | zero => exact ⟨List.Pairwise.nil, fun d hd => (nomatch hd)⟩
  | succ n ih =>
      obtain ⟨hsorted, hlow⟩ := ih (k + 1)
      unfold sDirsize at hlow
      rw [liveSlots]
      cases hk : live W inode k with
      | none =>
          refine ⟨hsorted, fun d hd => ?_⟩
          have := hlow d hd
          unfold sDirsize
          omega
      | some d =>
          have hd := live_offset hk
          unfold sDirsize at hd ⊢
          refine ⟨List.pairwise_cons.mpr ⟨?_, hsorted⟩, ?_⟩
          · intro d' hd'
            have := hlow d' hd'
            omega
          · intro d' hd'
            rcases List.mem_cons.mp hd' with rfl | hd'
            · omega
            · have := hlow d' hd'
              omega

end Live

section Loops

variable {ι β : Type} {W : DirWorld ι β} {inode : ι} {bh : β} {k : Nat}
  {buf buf' buf'' : Callback} {l l' : List Dirent}

theorem map_range_strnlen (s : Nat → UInt8) (n : Nat) :
    (List.range (strnlen s n)).map s = ((List.range n).map s).takeWhile (· ≠ 0) := by
  induction n generalizing s with
  | zero => rfl
  | succ n ih =>
      rw [strnlen, List.range_succ_eq_map, List.map_cons]
      by_cases h : s 0 = 0
      · rw [if_pos h, List.takeWhile_cons_of_neg (by simpa using h)]
        rfl
      · have hrest := ih fun k => s (k + 1)
        rw [if_neg h, List.takeWhile_cons_of_pos (by simpa using h),
          List.range_succ_eq_map, List.map_cons, List.map_map, List.map_map]
        exact congrArg (s 0 :: ·) hrest

/-- What `fillonedir` takes of the entries `l`. -/
inductive Taken (buf : Callback) : List Dirent → Callback → Prop
  | none : Taken buf [] buf
  | one (d : Dirent) (hempty : buf.count = 0) : Taken buf [d] ⟨1, some d⟩

theorem Taken.trans (h : Taken buf l buf') (h' : Taken buf' l' buf'') :
    Taken buf (l ++ l') buf'' := by
  cases h with
  | none => exact h'
  | one d hempty =>
      cases h' with
      | none => exact .one d hempty
      | one d' hempty' => cases hempty'

/-- From slot `k` the loops have come to slot `j`, and `fillonedir` has taken the
entries between. -/
structure Progress (W : DirWorld ι β) (inode : ι) (k j : Nat)
    (buf buf' : Callback) : Prop where
  le : k ≤ j
  taken : ∃ l, liveFrom W inode k = l ++ liveFrom W inode j ∧ Taken buf l buf'

theorem Progress.refl : Progress W inode k k buf buf :=
  ⟨le_rfl, [], rfl, .none⟩

theorem Progress.trans {i j : Nat}
    (h : Progress W inode i k buf buf') (h' : Progress W inode k j buf' buf'') :
    Progress W inode i j buf buf'' := by
  obtain ⟨l, hl, htaken⟩ := h.taken
  obtain ⟨l', hl', htaken'⟩ := h'.taken
  exact ⟨h.le.trans h'.le, l ++ l', by rw [hl, hl', List.append_assoc],
    htaken.trans htaken'⟩

/-- At slot `j` an entry has been refused. -/
def Refused (W : DirWorld ι β) (inode : ι) (j : Nat) (buf : Callback) : Prop :=
  sDirsize * j < W.iSize inode ∧ live W inode j ≠ none ∧ buf.count ≠ 0

theorem readdirEntries_takes (fuel : Nat) :
    ∀ k buf, W.block inode (k / 64) = some bh → sDirsize * k < W.iSize inode →
      64 ≤ fuel + k % 64 →
      ∃ refused j buf',
        readdirEntries W inode bh fuel (sDirsize * (k % 64)) (sDirsize * k : Nat)
          buf = some (refused, ((sDirsize * j : Nat) : Int), buf') ∧
        Progress W inode k j buf buf' ∧
        (refused = true → Refused W inode j buf') ∧
        (refused = false → k / 64 < j / 64 ∨ W.iSize inode ≤ sDirsize * j) := by
  induction fuel with
  | zero =>
      intro k buf _ _ hfuel
      omega
  | succ fuel ih =>
      intro k buf hblock hin hfuel
      -- what follows an entry that has not been refused
      have hnext : ∀ buf₁ : Callback, ∃ refused j buf',
          (if sDirsize * (k % 64) + sDirsize < 1024 ∧
              ((sDirsize * k : Nat) : Int) + sDirsize < W.iSize inode then
            readdirEntries W inode bh fuel (sDirsize * (k % 64) + sDirsize)
              ((sDirsize * k : Nat) + sDirsize) buf₁
          else some (false, ((sDirsize * k : Nat) : Int) + sDirsize, buf₁)) =
            some (refused, ((sDirsize * j : Nat) : Int), buf') ∧
          Progress W inode (k + 1) j buf₁ buf' ∧
          (refused = true → Refused W inode j buf') ∧
          (refused = false → k / 64 < j / 64 ∨ W.iSize inode ≤ sDirsize * j) := by
        intro buf₁
        have hpos : ((sDirsize * k : Nat) : Int) + sDirsize =
            (sDirsize * (k + 1) : Nat) := by
          push_cast
          ring
        rw [hpos]
        unfold sDirsize at *
        by_cases hmore : 16 * (k % 64) + 16 < 1024 ∧
            ((16 * (k + 1) : Nat) : Int) < W.iSize inode
        · have hmod : (k + 1) % 64 = k % 64 + 1 := by omega
          have hdiv : (k + 1) / 64 = k / 64 := by omega
          have hoffset : 16 * (k % 64) + 16 = 16 * ((k + 1) % 64) := by omega
          obtain ⟨refused, j, buf', hrun, hprogress, hyes, hno⟩ :=
            ih (k + 1) buf₁ (by rw [hdiv]; exact hblock) (by omega) (by omega)
          rw [if_pos hmore, hoffset]
          refine ⟨refused, j, buf', hrun, hprogress, hyes, ?_⟩
          rw [← hdiv]
          exact hno
        · rw [if_neg hmore]
          refine ⟨false, k + 1, buf₁, rfl, Progress.refl, ?_, ?_⟩
          · intro h
            cases h
          · intro _
            omega
      rw [readdirEntries]
      dsimp only
      have hlive : live W inode k =
          if (W.entry bh (sDirsize * (k % 64))).inode = 0 then none
          else some {
            dIno := (W.entry bh (sDirsize * (k % 64))).inode
            dOffset := (sDirsize * k : Nat)
            dNamlen := (nameOf (W.entry bh (sDirsize * (k % 64)))).length
            dName := nameOf (W.entry bh (sDirsize * (k % 64))) } := by
        unfold live
        rw [if_pos hin, hblock]
        rfl
      by_cases hzero : (W.entry bh (sDirsize * (k % 64))).inode = 0
      · rw [if_neg (by simpa using hzero)]
        rw [if_pos hzero] at hlive
        have hstep : Progress W inode k (k + 1) buf buf := by
          refine ⟨Nat.le_succ k, [], ?_, .none⟩
          rw [liveFrom_succ, hlive]
          rfl
        obtain ⟨refused, j, buf', hrun, hprogress, hrest⟩ := hnext buf
        exact ⟨refused, j, buf', hrun, hstep.trans hprogress, hrest⟩
      · rw [if_pos hzero]
        rw [if_neg hzero] at hlive
        unfold fillonedir
        by_cases hcount : buf.count = 0
        · rw [if_neg (not_not.mpr hcount)]
          dsimp only
          have hname : (List.range (strnlen
              (W.entry bh (sDirsize * (k % 64))).name sNamelen)).map
                (W.entry bh (sDirsize * (k % 64))).name =
              nameOf (W.entry bh (sDirsize * (k % 64))) :=
            map_range_strnlen _ _
          have hlen : strnlen (W.entry bh (sDirsize * (k % 64))).name sNamelen =
              (nameOf (W.entry bh (sDirsize * (k % 64)))).length := by
            rw [← hname, List.length_map, List.length_range]
          rw [hname, hlen, hcount]
          have hstep := Progress.mk (W := W) (Nat.le_succ k)
            ⟨_, liveFrom_succ k, by
              rw [hlive]
              exact Taken.one _ hcount⟩
          obtain ⟨refused, j, buf', hrun, hprogress, hrest⟩ := hnext _
          exact ⟨refused, j, buf', hrun, hstep.trans hprogress, hrest⟩
        · rw [if_pos hcount]
          refine ⟨true, k, buf, rfl, Progress.refl, fun _ => ?_, fun h => (nomatch h)⟩
          refine ⟨hin, ?_, hcount⟩
          rw [hlive]
          simp

theorem readdirBlocks_end {fuel : Nat} {fPos : Int}
    (hfuel : 0 < fuel) (hend : W.iSize inode ≤ fPos) :
    readdirBlocks W inode fuel fPos buf = some (fPos, buf) := by
  obtain ⟨n, rfl⟩ : ∃ n, fuel = n + 1 := ⟨fuel - 1, by omega⟩
  rw [readdirBlocks, if_neg (by omega)]

theorem readdirBlocks_takes (hsize : W.iSize inode < 2 ^ 26) (fuel : Nat) :
    ∀ k buf, 0 < fuel → W.iSize inode + 1024 ≤ 1024 * (k / 64 + fuel) →
      ∃ j buf', readdirBlocks W inode fuel (sDirsize * k : Nat) buf =
          some (((sDirsize * j : Nat) : Int), buf') ∧
        Progress W inode k j buf buf' ∧
        (Refused W inode j buf' ∨ W.iSize inode ≤ sDirsize * j) := by
  induction fuel with
  | zero =>
      intro k buf hfuel
      omega
  | succ fuel ih =>
      intro k buf _ hfuel
      by_cases hin : sDirsize * k < W.iSize inode
      · have hmore : ((sDirsize * k : Nat) : Int) < W.iSize inode := by omega
        have hoffset : (((sDirsize * k : Nat) : Int) % 1024).toNat =
            sDirsize * (k % 64) := by
          unfold sDirsize
          omega
        have hblock : (((sDirsize * k : Nat) : Int) / 1024 % 65536).toNat =
            k / 64 := by
          unfold sDirsize at *
          omega
        have hleft : 0 < fuel := by
          unfold sDirsize at hin
          omega
        rw [readdirBlocks, if_pos hmore]
        dsimp only
        rw [hoffset, hblock]
        cases hread : W.block inode (k / 64) with
        | none =>
            have hpos : ((sDirsize * k : Nat) : Int) +
                (1024 - ((sDirsize * (k % 64) : Nat) : Int)) =
                  ((sDirsize * ((k / 64 + 1) * 64) : Nat) : Int) := by
              unfold sDirsize
              omega
            have hskip : Progress W inode k ((k / 64 + 1) * 64) buf buf := by
              refine ⟨by omega, [], liveFrom_skip (by omega) ?_, .none⟩
              intro i hki hij
              refine live_none_of_hole ?_
              have hdiv : i / 64 = k / 64 := by omega
              rw [hdiv]
              exact hread
            obtain ⟨j, buf', hrun, hprogress, hstop⟩ :=
              ih ((k / 64 + 1) * 64) buf hleft (by omega)
            dsimp only
            rw [hpos]
            exact ⟨j, buf', hrun, hskip.trans hprogress, hstop⟩
        | some bh =>
            obtain ⟨refused, j, buf', hrun, hprogress, hyes, hno⟩ :=
              readdirEntries_takes 64 k buf hread hin (by omega)
            dsimp only
            rw [hrun]
            cases refused with
            | true => exact ⟨j, buf', rfl, hprogress, Or.inl (hyes rfl)⟩
            | false =>
                dsimp only
                rcases hno rfl with hnext | hend
                · obtain ⟨i, buf'', hrun', hprogress', hstop⟩ :=
                    ih j buf' hleft (by omega)
                  exact ⟨i, buf'', hrun', hprogress.trans hprogress', hstop⟩
                · exact ⟨j, buf', readdirBlocks_end hleft (by omega), hprogress,
                    Or.inr hend⟩
      · exact ⟨k, buf, readdirBlocks_end (Nat.succ_pos fuel) (by omega), Progress.refl,
          Or.inr (by omega)⟩

end Loops

section Calls

variable {ι β : Type} {W : DirWorld ι β} {inode : ι} {fuel k : Nat}

/-- **A call of `sys_readdir` delivers the next entry**, or nothing if there is
none. -/
theorem sysReaddir_next (hdir : W.isDir inode = true) (hsize : W.iSize inode < 2 ^ 26)
    (hfuel : W.iSize inode / 1024 + 2 ≤ fuel) (k : Nat) :
    ∃ (j : Nat) (buf : Callback), sysReaddir W fuel inode (sDirsize * k : Nat) =
        some { ret := .ok buf.count, fPos := (sDirsize * j : Nat),
               dirent := buf.dirent } ∧
      ((liveFrom W inode k = [] ∧ buf.count = 0) ∨
        ∃ d, liveFrom W inode k = d :: liveFrom W inode j ∧ buf = ⟨1, some d⟩) := by
  obtain ⟨j, buf, hrun, hprogress, hstop⟩ :=
    readdirBlocks_takes hsize fuel k { count := 0, dirent := none } (by omega)
      (by omega)
  have hok : ¬(W.isDir inode = false ∨
      ((sDirsize * k : Nat) : Int) % sDirsize ≠ 0) := by
    unfold sDirsize
    rw [hdir]
    rintro (h | h)
    · cases h
    · omega
  refine ⟨j, buf, ?_, ?_⟩
  · rw [sysReaddir, minixReaddir, if_neg hok, hrun]
    rfl
  · obtain ⟨l, hl, htaken⟩ := hprogress.taken
    cases htaken with
    | none =>
        have hend := hstop.resolve_left fun h => h.2.2 rfl
        rw [liveFrom_end hend] at hl
        exact Or.inl ⟨hl, rfl⟩
    | one d _ => exact Or.inr ⟨d, hl, rfl⟩

theorem listAll_from (hdir : W.isDir inode = true) (hsize : W.iSize inode < 2 ^ 26)
    (hfuel : W.iSize inode / 1024 + 2 ≤ fuel) (l : List Dirent) :
    ∀ k, liveFrom W inode k = l →
      listAll W fuel inode (l.length + 1) (sDirsize * k : Nat) = some l := by
  induction l with
  | nil =>
      intro k hl
      obtain ⟨j, buf, hrun, ⟨-, hcount⟩ | ⟨d, hd, -⟩⟩ :=
        sysReaddir_next hdir hsize hfuel k
      · rw [listAll, hrun]
        exact if_pos hcount
      · rw [hl] at hd
        cases hd
  | cons d l ih =>
      intro k hl
      obtain ⟨j, buf, hrun, ⟨hnil, -⟩ | ⟨d', hd', rfl⟩⟩ :=
        sysReaddir_next hdir hsize hfuel k
      · rw [hl] at hnil
        cases hnil
      · rw [hl] at hd'
        obtain ⟨rfl, hrest⟩ := List.cons.inj hd'
        rw [List.length_cons, listAll, hrun]
        dsimp only
        rw [if_neg Nat.one_ne_zero, ih j hrest.symm]
        rfl

end Calls

/-- **A listing is complete.**  The calls of `sys_readdir` from position zero on end,
and deliver each entry in use once, in the order of the offsets, with its inode
number and its name. -/
theorem listAll_lists
    {ι β : Type} {W : DirWorld ι β} {inode : ι}
    (hdir : W.isDir inode = true) (hsize : W.iSize inode < 2 ^ 26) :
    ∃ fuel calls entries, listAll W fuel inode calls 0 = some entries ∧
      entries.Pairwise (fun d d' => d.dOffset < d'.dOffset) ∧
      ∀ d, d ∈ entries ↔ ∃ k, live W inode k = some d := by
  refine ⟨W.iSize inode / 1024 + 2, (liveFrom W inode 0).length + 1,
    liveFrom W inode 0, ?_, (liveSlots_pairwise _ 0).1, ?_⟩
  · exact listAll_from hdir hsize le_rfl _ 0 rfl
  · intro d
    rw [mem_liveFrom]
    simp

/-- A directory of three blocks, the second of which is not there, with a free slot
in the first. -/
def sparseDir : DirWorld Unit Nat where
  iSize _ := 2080
  iNlink _ := 2
  iIno _ := 1
  iDev _ := 0x100
  isDir _ := true
  isBusy _ := false
  sticky _ _ := false
  block _ n := if n = 1 then none else some n
  newBlock _ _ := none
  bmapWork _ _ := []
  entry b offset :=
    if b = 0 ∧ (offset = 0 ∨ offset = 32) then Pins.dirEntry (7 + offset) [97, 98]
    else if b = 2 ∧ offset = 16 then Pins.dirEntry 9 [99]
    else Pins.dirEntry 0 []
  imap := []
  zeroBit _ := false
  inoFits := true
  newIno := ()
  named _ := ()
  inodeWork _ := []

example : listAll sparseDir 5 () 4 0 =
    some [⟨7, 0, 2, [97, 98]⟩, ⟨39, 32, 2, [97, 98]⟩, ⟨9, 2064, 1, [99]⟩] := by
  decide +kernel

theorem listAll_lists_sparse :
    ∃ fuel calls entries, listAll sparseDir fuel () calls 0 = some entries ∧
      entries.Pairwise (fun d d' => d.dOffset < d'.dOffset) ∧
      ∀ d, d ∈ entries ↔ ∃ k, live sparseDir () k = some d :=
  listAll_lists rfl (by decide)

end Readdir
end Elks
