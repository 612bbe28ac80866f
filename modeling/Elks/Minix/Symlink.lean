import Elks.Vfs.PathCalls
import Mathlib.Data.List.GetD

/-!
# The text of a symbolic link (fs/minix/namei.c, fs/minix/symlink.c)

A pointer is an offset in one of two segments, the data segment of the task and
that of the kernel.

* `minix_symlink` copies its target through a plain pointer, from the kernel.
* `minix_readlink` copies the text to the task with `memcpy_tofs`.
* `minix_follow_link` hands the address of the buffer to `open_namei`, which reads
  its path with `get_fs_byte`, from the task.

`readlink_exact_iff` says when the text comes back, and
`symlink_round_trip_fails` that no symbolic link can be followed as its target.
-/

namespace Elks
namespace Namei

open Lib
open Minix

section Text

variable {path : Path}

/-- A data segment. -/
abbrev Segment :=
  Fin 65536 → UInt8

/-- The byte at an offset, which wraps. -/
def Segment.byte (m : Segment) (p : Nat) : UInt8 :=
  m ⟨p % 65536, Nat.mod_lt p (by decide)⟩

/-- The bytes from `p` up to a NUL, at most `n` of them. -/
def stringAt (byte : Nat → UInt8) : Nat → Nat → List UInt8
  | _, 0 => []
  | p, n + 1 => if byte p = 0 then [] else byte p :: stringAt byte (p + 1) n

/-- The string that `get_fs_byte` reads from `p` on; a segment without NUL is
read for ever. -/
def pathAt (user : Segment) (p : Nat) : Option Path :=
  let path := stringAt user.byte p 65536
  if path.length < 65536 then some path else none

/-- `memcpy_tofs`. -/
def memcpyTofs (user : Segment) (daddr : Nat) (bytes : List UInt8) : Segment :=
  fun a => bytes.getD ((a.val + 65536 - daddr % 65536) % 65536) (user a)

/-- What `minix_symlink` copies from `symname`, a pointer it reads in the kernel's
segment. -/
def symlinkText (kernel : Segment) (symname : Nat) : List UInt8 :=
  stringAt kernel.byte symname 1023

/-- `name_block->b_data` after `minix_symlink`. -/
def symlinkData (kernel : Segment) (symname : Nat) (data : Nat → UInt8) : Nat → UInt8 :=
  fun i => (symlinkText kernel symname ++ [0]).getD i (data i)

/-- `minix_readlink`: its value, and the task's segment afterwards. -/
def readlinkCopy (data : Nat → UInt8) (user : Segment) (buffer buflen : Nat) :
    Nat × Segment :=
  let text := stringAt data 0 (min buflen 1023)
  (text.length, memcpyTofs user buffer text)

theorem stringAt_length_le (byte : Nat → UInt8) (n : Nat) :
    ∀ p, (stringAt byte p n).length ≤ n := by
  induction n with
  | zero => exact fun p => Nat.le_refl 0
  | succ n ih =>
      intro p
      unfold stringAt
      by_cases h : byte p = 0
      · rw [if_pos h]
        exact Nat.zero_le _
      · rw [if_neg h]
        exact Nat.succ_le_succ (ih (p + 1))

theorem ne_zero_of_mem_stringAt (byte : Nat → UInt8) (n : Nat) :
    ∀ p, ∀ c ∈ stringAt byte p n, c ≠ 0 := by
  induction n with
  | zero => exact fun p c hc => nomatch hc
  | succ n ih =>
      intro p c hc
      unfold stringAt at hc
      by_cases h : byte p = 0
      · rw [if_pos h] at hc
        nomatch hc
      · rw [if_neg h] at hc
        rcases List.mem_cons.mp hc with rfl | hc
        · exact h
        · exact ih (p + 1) c hc

theorem stringAt_eq_take (byte : Nat → UInt8) (n : Nat) :
    ∀ p (text : List UInt8),
      (∀ c ∈ text, c ≠ 0) →
      (∀ i, i ≤ text.length → byte (p + i) = (text ++ [0]).getD i 0) →
      stringAt byte p n = text.take n := by
  induction n with
  | zero => exact fun p text _ _ => rfl
  | succ n ih =>
      intro p text hne hbytes
      unfold stringAt
      cases text with
      | nil => exact if_pos (hbytes 0 (Nat.le_refl 0))
      | cons c rest =>
          have hp : byte p = c := hbytes 0 (Nat.zero_le _)
          rw [hp, if_neg (hne c List.mem_cons_self), List.take_succ_cons]
          refine congrArg (c :: ·) (ih (p + 1) rest ?_ ?_)
          · exact fun d hd => hne d (List.mem_cons_of_mem c hd)
          · intro i hi
            have hi' := hbytes (i + 1) (Nat.succ_le_succ hi)
            rw [show p + (i + 1) = p + 1 + i by omega] at hi'
            exact hi'

theorem memcpyTofs_byte (user : Segment) (daddr : Nat) (bytes : List UInt8) {i : Nat}
    (hi : i < 65536) :
    (memcpyTofs user daddr bytes).byte (daddr + i) = bytes.getD i (user.byte (daddr + i)) := by
  unfold Segment.byte memcpyTofs
  have hindex : ((daddr + i) % 65536 + 65536 - daddr % 65536) % 65536 = i := by omega
  rw [hindex]

theorem exists_pathAt (hne : ∀ c ∈ path, c ≠ 0) (hlen : path.length < 65536) :
    ∃ user : Segment, pathAt user 0 = some path := by
  refine ⟨memcpyTofs (fun _ => 0) 0 path, ?_⟩
  have hread : stringAt (memcpyTofs (fun _ => 0) 0 path).byte 0 65536 = path := by
    rw [stringAt_eq_take _ 65536 0 path hne, List.take_of_length_le (by omega)]
    intro i hi
    rw [memcpyTofs_byte _ 0 path (by omega)]
    rcases Nat.lt_or_eq_of_le hi with hi | rfl
    · rw [List.getD_eq_getElem _ _ hi, List.getD_eq_getElem _ _ (by simp; omega),
        List.getElem_append_left hi]
    · rw [List.getD_eq_default _ _ (Nat.le_refl _), List.getD_eq_getElem _ _ (by simp),
        List.getElem_concat_length rfl]
      rfl
  unfold pathAt
  simp only [hread, if_pos hlen]

theorem pathAt_ne_zero {user : Segment} {p : Nat} (h : pathAt user p = some path) :
    (∀ c ∈ path, c ≠ 0) ∧ path.length < 65536 := by
  unfold pathAt at h
  by_cases hlen : (stringAt user.byte p 65536).length < 65536
  · simp only [if_pos hlen] at h
    obtain rfl := Option.some.inj h
    exact ⟨ne_zero_of_mem_stringAt _ 65536 p, hlen⟩
  · simp only [if_neg hlen] at h
    nomatch h

theorem stringAt_symlinkData (kernel : Segment) (symname : Nat) (data : Nat → UInt8) (n : Nat) :
    stringAt (symlinkData kernel symname data) 0 n = (symlinkText kernel symname).take n := by
  refine stringAt_eq_take _ n 0 _ (ne_zero_of_mem_stringAt _ 1023 symname) ?_
  intro i hi
  unfold symlinkData
  rw [Nat.zero_add, List.getD_eq_getElem _ _ (by simp; omega),
    List.getD_eq_getElem _ _ (by simp; omega)]

/-- `readlink` into a buffer that is large enough returns the length of `target`
and stores `target`. -/
def ReadsBack (data : Nat → UInt8) (target : Path) : Prop :=
  ∀ (user : Segment) (buffer buflen : Nat), target.length ≤ buflen →
    (readlinkCopy data user buffer buflen).1 = target.length ∧
      ∀ i (hi : i < target.length),
        (readlinkCopy data user buffer buflen).2.byte (buffer + i) = target[i]

/-- The target comes back exactly when the kernel's segment happens to hold it at
the task's pointer. -/
theorem readlink_exact_iff
    (kernel : Segment)
    (symname : Nat)
    (data : Nat → UInt8)
    {target : Path}
    (hlen : target.length ≤ 1022) :
    ReadsBack (symlinkData kernel symname data) target ↔
      symlinkText kernel symname = target := by
  have htext : (symlinkText kernel symname).length ≤ 1023 :=
    stringAt_length_le _ 1023 symname
  unfold ReadsBack readlinkCopy
  simp only [stringAt_symlinkData]
  constructor
  · intro h
    -- a buffer of 1023 bytes shows the whole text
    obtain ⟨hl, hb⟩ := h (fun _ => 0) 0 1023 (by omega)
    rw [min_self, List.take_of_length_le htext] at hl hb
    refine List.ext_getElem hl fun i hi hi' => ?_
    rw [← hb i hi', memcpyTofs_byte _ 0 _ (by omega), List.getD_eq_getElem _ _ hi]
  · rintro rfl user buffer buflen hbuf
    have htake : (symlinkText kernel symname).take (min buflen 1023) =
        symlinkText kernel symname :=
      List.take_of_length_le (by omega)
    rw [htake]
    refine ⟨rfl, fun i hi => ?_⟩
    rw [memcpyTofs_byte _ buffer _ (by omega), List.getD_eq_getElem _ _ hi]

theorem readlink_exact_iff_blank :
    ReadsBack (symlinkData (fun _ => 0) 0 fun _ => 0) [97] ↔
      symlinkText (fun _ => 0) 0 = [97] :=
  readlink_exact_iff (fun _ => 0) 0 (fun _ => 0) (by decide)

end Text

section Follow

variable {ι : Type} [DecidableEq ι] {t : TaskStruct ι} {T : FileTree ι}
  {follow : ι → ι → Except Errno ι} {path : Path} {name : Name} {text : List UInt8} {dir n base : ι}

/-- The tree after `minix_symlink` has made `n` under `name` in `dir`, with names
compared up to `namelen` bytes. -/
def FileTree.symlinked
    (T : FileTree ι)
    (namelen : Nat)
    (dir : ι)
    (name : Name)
    (n : ι)
    (text : List UInt8) :
    FileTree ι :=
  { T with
    inode := Function.update T.inode n
      { T.inode n with
        iMode := sIflnk ||| 0o777
        iNlink := 1
        iOp := some minixSymlinkInodeOperations
        iMount := none }
    entry := fun d x =>
      if d = dir ∧ x.take namelen = name.take namelen then some n else T.entry d x
    linkBlock := Function.update T.linkBlock n (some text) }

/-- The tree as a task sees it in whose segment the address of the buffer of `n`
holds `path`. -/
def FileTree.readAs (T : FileTree ι) (n : ι) (path : Path) : FileTree ι :=
  { T with linkPath := Function.update T.linkPath n path }

/-- A symbolic link `n` in `dir`, with `data` in its block, is as good as its
target: it reads back, and for every task, whatever its segment holds, following
it gives what the target gives from `dir`. -/
structure RoundTrip
    (T : FileTree ι)
    (dir n : ι)
    (data : Nat → UInt8)
    (target : Path) : Prop where
  reads : ReadsBack data target
  resolves :
    ∀ (user : Segment) (address : Nat) (path : Path), pathAt user address = some path →
      ∀ (t : TaskStruct ι) (links flag : Nat), links < linkMax →
        (T.readAs n path).follow t (links + 1) flag dir n =
          (T.readAs n path).openIn t ((T.readAs n path).follow t links) target flag dir

theorem components_of_no_slash (h : ∀ c ∈ path, c ≠ slash) : components path = ([], path) := by
  induction path with
  | nil => rfl
  | cons c rest ih =>
      unfold components
      rw [if_neg (h c List.mem_cons_self), ih fun d hd => h d (List.mem_cons_of_mem c hd)]

theorem mem_components_last : ∀ c ∈ (components path).2, c ≠ slash ∧ c ∈ path := by
  induction path with
  | nil => exact fun c hc => nomatch hc
  | cons d rest ih =>
      intro c hc
      have hrest : c ∈ (components rest).2 → c ≠ slash ∧ c ∈ d :: rest :=
        fun h => ⟨(ih c h).1, List.mem_cons_of_mem d (ih c h).2⟩
      unfold components at hc
      by_cases hd : d = slash
      · rw [if_pos hd] at hc
        exact hrest hc
      · rw [if_neg hd] at hc
        cases hnames : (components rest).1 with
        | nil =>
            rw [hnames] at hc
            rcases List.mem_cons.mp hc with rfl | hc
            · exact ⟨hd, List.mem_cons_self⟩
            · exact hrest hc
        | cons n names =>
            rw [hnames] at hc
            exact hrest hc

theorem length_components_last_le (path : Path) : (components path).2.length ≤ path.length := by
  induction path with
  | nil => exact Nat.le_refl 0
  | cons d rest ih =>
      unfold components
      by_cases hd : d = slash
      · rw [if_pos hd]
        exact Nat.le_succ_of_le ih
      · rw [if_neg hd]
        cases (components rest).1 with
        | nil => exact Nat.succ_le_succ ih
        | cons n names => exact Nat.le_succ_of_le ih

theorem dirOf_ok (h : T.dirOf t follow path base = .ok (dir, name)) :
    T.has (·.lookup) dir ∧
      name = (components (if path.head? = some slash then path.tail else path)).2 := by
  unfold FileTree.dirOf at h
  simp only at h
  cases hdir : T.descend t follow
      (components (if path.head? = some slash then path.tail else path)).1
      (if path.head? = some slash then t.root else base) with
  | error e =>
      rw [hdir] at h
      cases h
  | ok d =>
      rw [hdir] at h
      by_cases hlookup : T.has (·.lookup) d
      · simp only [if_pos hlookup] at h
        obtain ⟨rfl, rfl⟩ := Prod.mk.inj (Except.ok.inj h)
        exact ⟨hlookup, rfl⟩
      · simp only [if_neg hlookup] at h
        cases h

theorem dirOf_name (h : T.dirOf t follow path base = .ok (dir, name)) :
    (∀ c ∈ name, c ≠ slash ∧ c ∈ path) ∧ name.length ≤ path.length := by
  rw [(dirOf_ok h).2]
  by_cases hhead : path.head? = some slash
  · rw [if_pos hhead]
    refine ⟨fun c hc => ?_, ?_⟩
    · exact ⟨(mem_components_last c hc).1, List.mem_of_mem_tail (mem_components_last c hc).2⟩
    · refine (length_components_last_le _).trans ?_
      rw [List.length_tail]
      exact Nat.sub_le _ _
  · rw [if_neg hhead]
    exact ⟨mem_components_last, length_components_last_le path⟩

omit [DecidableEq ι] in
theorem permission_zero (t : TaskStruct ι) (inode : Node ι) : permission t inode 0 = none := by
  simp [permission]

/-- A link whose path reads as empty stands for the directory it is in. -/
theorem openIn_nil (hdir : T.has (·.lookup) dir) (follow : Nat → ι → ι → Except Errno ι) :
    T.openIn t follow [] 0 dir = .ok dir := by
  have hname : T.dirOf t (follow 0) [] dir = .ok (dir, []) := by
    simp [FileTree.dirOf, FileTree.descend, components, hdir]
  unfold FileTree.openIn
  rw [hname]
  simp [accMode, permission_zero]

theorem follow_last {flag : Nat} (hop : T.has (·.followLink) n) (hlink : T.isA sIflnk n) :
    T.follow t 0 flag dir n = .error .eloop := by
  unfold FileTree.follow
  exact if_neg (not_not_intro ⟨hop, hlink⟩)

theorem openIn_self (hslash : ∀ c ∈ name, c ≠ slash) (hne : name ≠ []) (hdots : name ≠ dotdot)
    (hentry : T.entry dir name = some n) (hgot : T.got n = n) (hop : T.has (·.followLink) n)
    (hlink : T.isA sIflnk n) : ∃ e, T.openIn t (T.follow t 0) name 0 dir = .error e := by
  have hhead : name.head? ≠ some slash := by
    intro h
    exact hslash slash (List.mem_of_mem_head? h) rfl
  unfold FileTree.openIn FileTree.dirOf
  simp only [if_neg hhead, components_of_no_slash hslash, FileTree.descend]
  by_cases hlookup : T.has (·.lookup) dir
  · simp only [if_pos hlookup, if_neg hne, FileTree.find, if_neg hdots, FileTree.within]
    cases permission t (T.inode dir) mayExec with
    | some e => exact ⟨e, rfl⟩
    | none =>
        unfold FileTree.child
        by_cases hdir : T.isA sIfdir dir
        · simp only [if_pos hdir, hentry, hgot, follow_last hop hlink]
          exact ⟨.eloop, rfl⟩
        · simp only [if_neg hdir]
          exact ⟨.enoent, rfl⟩
  · simp only [if_neg hlookup]
    exact ⟨.enotdir, rfl⟩

theorem descend_congr {T U : FileTree ι} {follow follow' : ι → ι → Except Errno ι}
    (hfind : ∀ dir name, T.find t dir name = U.find t dir name)
    (hfollow : ∀ dir inode, follow dir inode = follow' dir inode) (names : List Name) :
    ∀ base, T.descend t follow names base = U.descend t follow' names base := by
  induction names with
  | nil => exact fun base => rfl
  | cons name rest ih =>
      intro base
      unfold FileTree.descend
      rw [hfind]
      cases U.find t base name with
      | error e => rfl
      | ok inode =>
          simp only [hfollow]
          cases follow' base inode with
          | error e => rfl
          | ok next => exact ih next

theorem openIn_readAs (T : FileTree ι) (t : TaskStruct ι) (n : ι) (p q target : Path) (flag : Nat)
    (dir : ι) :
    (T.readAs n p).openIn t ((T.readAs n p).follow t 0) target flag dir =
      (T.readAs n q).openIn t ((T.readAs n q).follow t 0) target flag dir := by
  have hdescend : ∀ names base,
      (T.readAs n p).descend t ((T.readAs n p).follow t 0 0) names base =
        (T.readAs n q).descend t ((T.readAs n q).follow t 0 0) names base :=
    descend_congr (fun _ _ => rfl) fun _ _ => rfl
  have hdirOf : (T.readAs n p).dirOf t ((T.readAs n p).follow t 0 0) target dir =
      (T.readAs n q).dirOf t ((T.readAs n q).follow t 0 0) target dir := by
    unfold FileTree.dirOf
    simp only [hdescend]
    rfl
  unfold FileTree.openIn
  rw [hdirOf]
  rfl

theorem sysSymlink_name_ne_nil {s s' : ι → ℕ} (hrun : sysSymlink t T path s = .ok (none, s'))
    (hdir : T.dirOfPath t path = .ok (dir, name)) : name ≠ [] := by
  have hm : Moves (sysSymlink t T path) 0 fun r _ => r = none → name ≠ [] := by
    refine Trades.bind (dirNamei_moves t T path) ?_
    rintro r h ⟨rfl, rfl⟩
    rw [hdir]
    refine Trades.call (h := 0) (R := fun r k => k = 0 ∧ (r = none → name ≠ []))
      (one dir) (add_zero _).symm ?_ ?_
    · refine Trades.ite (fun _ => Trades.pure ⟨rfl, fun h => by cases h⟩) fun hname => ?_
      exact (inDir_moves (minixSymlink_moves T) dir name).mono fun _ _ h => ⟨h, fun _ => hname⟩
    · rintro a k ⟨rfl, hname⟩
      exact Moves.iput (add_comm _ _) (Trades.pure hname)
  obtain ⟨h, _, hname⟩ := hm.run hrun
  exact hname rfl

theorem follow_readAs {n : ι} (hop : T.has (·.followLink) n) (hlink : T.isA sIflnk n)
    (hblock : T.linkBlock n = some text) (path : Path) (dir : ι) :
    (T.readAs n path).follow t 1 0 dir n =
      (T.readAs n path).openIn t ((T.readAs n path).follow t 0) path 0 dir := by
  have hread : (T.readAs n path).linkPath n = path := Function.update_self _ _ _
  have hb : (T.readAs n path).linkBlock n = some text := hblock
  rw [FileTree.follow]
  refine (if_neg (not_not_intro ⟨hop, hlink⟩)).trans ?_
  rw [hb, hread]

theorem not_resolves {target : Path} (hlookup : T.has (·.lookup) dir) (hop : T.has (·.followLink) n)
    (hlink : T.isA sIflnk n) (hblock : T.linkBlock n = some text)
    (hentry : T.entry dir name = some n) (hgot : T.got n = n) (hslash : ∀ c ∈ name, c ≠ slash)
    (hne : name ≠ []) (hdots : name ≠ dotdot)
    (hempty : (T.readAs n []).follow t 1 0 dir n =
      (T.readAs n []).openIn t ((T.readAs n []).follow t 0) target 0 dir)
    (hname : (T.readAs n name).follow t 1 0 dir n =
      (T.readAs n name).openIn t ((T.readAs n name).follow t 0) target 0 dir) :
    False := by
  obtain ⟨e, he⟩ := openIn_self (T := T.readAs n name) (t := t)
    hslash hne hdots hentry hgot hop hlink
  have hnil := openIn_nil (T := T.readAs n []) (t := t) hlookup ((T.readAs n []).follow t 0)
  rw [follow_readAs hop hlink hblock, openIn_readAs T t n [] name target] at hempty
  rw [follow_readAs hop hlink hblock, ← hempty, he, hnil] at hname
  cases hname

section Symlinked

variable {T : FileTree ι} {namelen : Nat} {dir n : ι} {name : Name} {text : List UInt8}

theorem symlinked_has_lookup (hne : dir ≠ n) (h : T.has (·.lookup) dir) :
    (T.symlinked namelen dir name n text).has (·.lookup) dir := by
  have hinode : (T.symlinked namelen dir name n text).inode dir = T.inode dir :=
    Function.update_of_ne hne _ _
  unfold FileTree.has at h ⊢
  rw [hinode]
  exact h

theorem symlinked_inode :
    (T.symlinked namelen dir name n text).inode n =
      { T.inode n with
        iMode := sIflnk ||| 0o777
        iNlink := 1
        iOp := some minixSymlinkInodeOperations
        iMount := none } :=
  Function.update_self _ _ _

theorem symlinked_has_followLink : (T.symlinked namelen dir name n text).has (·.followLink) n := by
  unfold FileTree.has
  rw [symlinked_inode]
  rfl

theorem symlinked_isA : (T.symlinked namelen dir name n text).isA sIflnk n := by
  unfold FileTree.isA
  rw [symlinked_inode]
  show hasFormat sIflnk (sIflnk ||| 0o777)
  decide

theorem symlinked_got : (T.symlinked namelen dir name n text).got n = n := by
  unfold FileTree.got
  rw [symlinked_inode]
  rfl

theorem symlinked_entry :
    (T.symlinked namelen dir name n text).entry dir name = some n :=
  if_pos ⟨rfl, rfl⟩

theorem symlinked_linkBlock :
    (T.symlinked namelen dir name n text).linkBlock n = some text :=
  Function.update_self _ _ _

end Symlinked

/-- No symbolic link makes the round trip: the task that follows it decides what
it reads as. -/
theorem symlink_round_trip_fails
    (t : TaskStruct ι)
    (T : FileTree ι)
    (user kernel : Segment)
    (symname newname namelen : Nat)
    (path target : Path)
    (dir n : ι)
    (name : Name)
    (data : Nat → UInt8)
    (s s' c : ι → ℕ)
    (hnew : pathAt user newname = some path)
    (hrun : sysSymlink t T path s = .ok (none, s'))
    (hdir : T.dirOfPath t path = .ok (dir, name))
    (hdots : name ≠ dotdot)
    (hcount : 0 < c dir)
    (hn : T.unused c = some n) :
    ¬ RoundTrip (T.symlinked namelen dir name n (symlinkText kernel symname)) dir n
      (symlinkData kernel symname data) target := by
  intro hround
  have hne : dir ≠ n := by
    rintro rfl
    exact absurd (T.unused_zero c dir hn) (by omega)
  obtain ⟨hzero, hlen⟩ := pathAt_ne_zero hnew
  obtain ⟨hbytes, hshort⟩ := dirOf_name hdir
  obtain ⟨v, hv⟩ := exists_pathAt (fun d hd => hzero d (hbytes d hd).2)
    (Nat.lt_of_le_of_lt hshort hlen)
  exact not_resolves (symlinked_has_lookup hne (dirOf_ok hdir).1) symlinked_has_followLink
    symlinked_isA symlinked_linkBlock symlinked_entry symlinked_got
    (fun d hd => (hbytes d hd).1) (sysSymlink_name_ne_nil hrun hdir) hdots
    (hround.resolves (fun _ => 0) 0 [] rfl t 0 0 (by decide))
    (hround.resolves v 0 name hv t 0 0 (by decide))

/-- A tree with one directory, `false`, and room for one more inode. -/
def roomyTree : FileTree Bool where
  inode i :=
    { iMode := if i then 0 else sIfdir ||| 0o755
      iUid := 0
      iGid := 0
      iNlink := 2
      iIno := if i then 2 else 1
      iDev := 0x100
      iOp := if i then none else some minixDirInodeOperations
      iMount := none
      isMounted := !i
      sCovered := none
      isRdonly := false
      isNodev := false }
  entry _ _ := none
  linkBlock _ := none
  linkPath _ := []
  unused c := if c true = 0 then some true else none
  unused_zero c i h := by
    by_cases hc : c true = 0
    · rw [if_pos hc] at h
      exact Option.some.inj h ▸ hc
    · rw [if_neg hc] at h
      cases h
  freeIno := true
  freeZone := true
  addEntry _ _ := none
  emptyDir _ := true
  fopOpen _ := none
  load _ := some .enoexec

/-- The superuser in the root directory. -/
def superTask : TaskStruct Bool where
  root := false
  pwd := false
  uid := 0
  gid := 0
  euid := 0
  egid := 0
  emptyFilp := true
  unusedFd := true
  closeOnExec := []

/-- A task with the target `x` at 16 and the name `l` at 32. -/
def linkerSegment : Segment :=
  fun a => if a.val = 16 then 120 else if a.val = 32 then 108 else 0

/-- The kernel has a NUL at 16. -/
def blankKernel : Segment :=
  fun _ => 0

theorem symlink_l_fails :
    ¬ RoundTrip
      (roomyTree.symlinked 14 false [108] true (symlinkText blankKernel 16)) false true
      (symlinkData blankKernel 16 fun _ => 0) [120] :=
  symlink_round_trip_fails superTask roomyTree linkerSegment blankKernel 16 32 14 [108] [120]
    false true [108] (fun _ => 0) (fun i => if i then 0 else 2) _
    (fun i => if i then 0 else 3) (by decide +kernel) rfl rfl (by decide) (by decide) rfl

/-- `symlink("x", "l")` succeeds, and the link reads back as the empty string. -/
theorem symlink_x_reads_empty :
    pathAt linkerSegment 16 = some [120] ∧
      (∃ s', sysSymlink superTask roomyTree [108] (fun i => if i then 0 else 2) =
        .ok (none, s')) ∧
      (readlinkCopy (symlinkData blankKernel 16 fun _ => 0) linkerSegment 64 100).1 = 0 ∧
      ¬ RoundTrip
        (roomyTree.symlinked 14 false [108] true (symlinkText blankKernel 16)) false true
        (symlinkData blankKernel 16 fun _ => 0) [120] := by
  have hzero : (readlinkCopy (symlinkData blankKernel 16 fun _ => 0) linkerSegment 64 100).1 =
      0 := by
    decide +kernel
  refine ⟨by decide +kernel, ⟨_, rfl⟩, hzero, fun h => ?_⟩
  have hone := (h.reads linkerSegment 64 100 (by decide)).1
  rw [hzero] at hone
  cases hone

end Follow

end Namei
end Elks
