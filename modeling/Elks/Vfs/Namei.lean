import Elks.Minix.Namei

/-!
# Path names and the references on the way (fs/namei.c)

`dir_namei` walks a path to the directory of its last name, `_namei` and
`open_namei` go on to the inode.  A symbolic link on the way calls `open_namei`
again, at most six deep.

**Purpose.**  `FileTree.find`, `FileTree.follow`, `FileTree.dirOf` and
`FileTree.openIn` say which inode a path names, without any counting.

**Results.**  `dirNamei_moves`, `innerNamei_moves`, `namei_moves` and
`openNamei_moves`: each routine returns the inode that the path names, holds
exactly one reference to it, and holds nothing when it fails.
-/

namespace Elks
namespace Namei

open Lib
open Minix

section Code

variable {ι : Type} [DecidableEq ι]

/-- `O_CREAT`. -/
def oCreat : Nat := 0o100

/-- `O_EXCL`. -/
def oExcl : Nat := 0o200

/-- `ACC_MODE`. -/
def accMode (flag : Nat) : Nat :=
  match flag &&& 3 with
  | 0 => 0
  | 1 => 4
  | 2 => 2
  | _ => 6

/-- How many links may be followed: `link_count` is 0 when a call starts, and a
link is refused once it is greater than 5. -/
def linkMax : Nat := 6

/-- The names of a path that end in a slash, and the name after the last slash. -/
def components : Path → List Name × Name
  | [] => ([], [])
  | c :: cs =>
      if c = slash then
        ([] :: (components cs).1, (components cs).2)
      else
        match (components cs).1 with
        | [] => ([], c :: (components cs).2)
        | d :: ds => ((c :: d) :: ds, (components cs).2)

/-- `lookup`, after the treatment of `..`. -/
def lookupIn (T : FileTree ι) (perm : Option Errno) (dir : ι) (name : Name) :
    Walk ι (Except Errno ι) :=
  if ¬ T.has (·.lookup) dir then
    throw .panic
  else
    match perm with
    | some perm => do
        iput dir
        pure (.error perm)
    | none =>
        if name = [] then
          pure (.ok dir)
        else
          minixLookup T dir name

/-- `lookup`. -/
def lookup (t : TaskStruct ι) (T : FileTree ι) (dir : ι) (name : Name) :
    Walk ι (Except Errno ι) :=
  -- the permission is that of the directory below the mount point
  let perm := permission t (T.inode dir) mayExec
  if name = dotdot then
    if dir = t.root then
      pure (.ok dir)
    else if (T.inode dir).isMounted then do
      iput dir
      match (T.inode dir).sCovered with
      | none => pure (.error .enoent)
      | some covered => do
          iref covered
          lookupIn T perm covered name
    else
      lookupIn T perm dir name
  else
    lookupIn T perm dir name

/-- The loop of `dir_namei`, with `follow` for its calls of `follow_link`. -/
def walkNames
    (t : TaskStruct ι)
    (T : FileTree ι)
    (follow : ι → ι → Walk ι (Except Errno ι)) :
    List Name → ι → Walk ι (Except Errno ι)
  | [], base => pure (.ok base)
  | thisname :: rest, base => do
      iref base
      match ← lookup t T base thisname with
      | .error error => do
          iput base
          pure (.error error)
      | .ok inode => do
          match ← follow base inode with
          | .error error => pure (.error error)
          | .ok base => walkNames t T follow rest base

/-- `dir_namei`, once its starting point is known. -/
def dirNameiFrom
    (t : TaskStruct ι)
    (T : FileTree ι)
    (follow : ι → ι → Walk ι (Except Errno ι))
    (pathname : Path)
    (base : ι) :
    Walk ι (Except Errno (ι × Name)) := do
  match ← walkNames t T follow (components pathname).1 base with
  | .error error => pure (.error error)
  | .ok base =>
      if ¬ T.has (·.lookup) base then do
        iput base
        pure (.error .enotdir)
      else
        pure (.ok (base, (components pathname).2))

/-- `dir_namei`, from the directory `base` whose reference it is handed. -/
def dirNameiAt
    (t : TaskStruct ι)
    (T : FileTree ι)
    (follow : ι → ι → Walk ι (Except Errno ι))
    (pathname : Path)
    (base : ι) :
    Walk ι (Except Errno (ι × Name)) :=
  if pathname.head? = some slash then do
    iput base
    iref t.root
    dirNameiFrom t T follow pathname.tail t.root
  else
    dirNameiFrom t T follow pathname base

/-- The part of `open_namei` that makes a new file. -/
def openCreate (t : TaskStruct ι) (T : FileTree ι) (dir : ι) (basename : Name) :
    Walk ι (Except Errno ι) :=
  match permission t (T.inode dir) (mayWrite ||| mayExec) with
  | some error => do
      iput dir
      pure (.error error)
  | none =>
      if ¬ T.has (·.create) dir then do
        iput dir
        pure (.error .eacces)
      else do
        iref dir
        let error ← minixCreate T dir basename
        iput dir
        pure error

/-- What `open_namei` checks of the inode it has found. -/
def openCheck (t : TaskStruct ι) (T : FileTree ι) (flag : Nat) (inode : ι) :
    Option Errno :=
  if T.isA sIfdir inode ∧ flag &&& 2 ≠ 0 then
    some .eisdir
  else
    match permission t (T.inode inode) (accMode flag) with
    | some error => some error
    | none =>
        if (T.isA sIfblk inode ∨ T.isA sIfchr inode) ∧ (T.inode inode).isNodev then
          some .eacces
        else
          none

/-- The part of `open_namei` after its look-up. -/
def openFound
    (t : TaskStruct ι)
    (T : FileTree ι)
    (follow : Nat → ι → ι → Walk ι (Except Errno ι))
    (flag : Nat)
    (dir inode : ι) :
    Walk ι (Except Errno ι) := do
  match ← follow flag dir inode with
  | .error error => pure (.error error)
  | .ok inode =>
      match openCheck t T flag inode with
      | some error => do
          iput inode
          pure (.error error)
      | none => pure (.ok inode)

/-- `open_namei`, from the directory `base` whose reference it is handed. -/
def openNameiAt
    (t : TaskStruct ι)
    (T : FileTree ι)
    (follow : Nat → ι → ι → Walk ι (Except Errno ι))
    (pathname : Path)
    (flag : Nat)
    (base : ι) :
    Walk ι (Except Errno ι) := do
  match ← dirNameiAt t T (follow 0) pathname base with
  | .error error => pure (.error error)
  | .ok (dir, basename) =>
      if basename = [] then
        if flag &&& 2 ≠ 0 then do
          iput dir
          pure (.error .eisdir)
        else
          match permission t (T.inode dir) (accMode flag) with
          | some error => do
              iput dir
              pure (.error error)
          | none => pure (.ok dir)
      else do
        iref dir
        match ← lookup t T dir basename with
        | .ok inode =>
            if flag &&& oCreat ≠ 0 ∧ flag &&& oExcl ≠ 0 then do
              iput inode
              iput dir
              pure (.error .eexist)
            else
              openFound t T follow flag dir inode
        | .error error =>
            if flag &&& oCreat ≠ 0 then
              openCreate t T dir basename
            else do
              iput dir
              pure (.error error)

/-- `minix_follow_link`.  `opens` is `open_namei`, as long as a link may be
followed. -/
def minixFollowLink
    (T : FileTree ι)
    (opens : Option (Path → Nat → ι → Walk ι (Except Errno ι)))
    (flag : Nat)
    (dir inode : ι) :
    Walk ι (Except Errno ι) :=
  if ¬ T.isA sIflnk inode then do
    iput dir
    pure (.ok inode)
  else
    match opens with
    | none => do
        iput inode
        iput dir
        pure (.error .eloop)
    | some openNamei =>
        match T.linkBlock inode with
        | none => do
            iput inode
            iput dir
            pure (.error .eio)
        | some _ => do
            iput inode
            openNamei (T.linkPath inode) flag dir

/-- `follow_link`, when `links` more links may be followed. -/
def followLink (t : TaskStruct ι) (T : FileTree ι) (links : Nat) :
    Nat → ι → ι → Walk ι (Except Errno ι) :=
  fun flag dir inode =>
    if ¬ T.has (·.followLink) inode then do
      iput dir
      pure (.ok inode)
    else
      match links with
      | 0 => minixFollowLink T none flag dir inode
      | links + 1 =>
          minixFollowLink T (some (openNameiAt t T (followLink t T links))) flag dir inode

/-- `dir_namei` of a system call. -/
def dirNamei (t : TaskStruct ι) (T : FileTree ι) (pathname : Path) :
    Walk ι (Except Errno (ι × Name)) := do
  iref t.pwd
  dirNameiAt t T (followLink t T linkMax 0) pathname t.pwd

/-- `open_namei` of a system call. -/
def openNamei (t : TaskStruct ι) (T : FileTree ι) (pathname : Path) (flag : Nat) :
    Walk ι (Except Errno ι) := do
  iref t.pwd
  openNameiAt t T (followLink t T linkMax) pathname flag t.pwd

/-- `_namei` from the working directory. -/
def innerNamei (t : TaskStruct ι) (T : FileTree ι) (pathname : Path) (followLinks : Bool) :
    Walk ι (Except Errno ι) := do
  match ← dirNamei t T pathname with
  | .error error => pure (.error error)
  | .ok (base, basename) => do
      iref base
      match ← lookup t T base basename with
      | .error error => do
          iput base
          pure (.error error)
      | .ok inode =>
          if followLinks then
            followLink t T linkMax 0 base inode
          else do
            iput base
            pure (.ok inode)

/-- `lnamei`. -/
def lnamei (t : TaskStruct ι) (T : FileTree ι) (pathname : Path) :
    Walk ι (Except Errno ι) :=
  innerNamei t T pathname false

/-- What a caller of `namei` asks of the inode. -/
inductive Kind
  | any
  | isDir
  | notDir
deriving DecidableEq

/-- What `namei` checks of the inode it has found. -/
def nameiCheck (t : TaskStruct ι) (T : FileTree ι) (dir : Kind) (perm : Nat) (inode : ι) :
    Option Errno :=
  if dir = .notDir ∧ T.isA sIfdir inode then some .eisdir
  else if dir = .isDir ∧ ¬ T.isA sIfdir inode then some .enotdir
  else if perm ≠ 0 then permission t (T.inode inode) perm
  else none

/-- `namei`. -/
def namei (t : TaskStruct ι) (T : FileTree ι) (pathname : Path) (dir : Kind) (perm : Nat) :
    Walk ι (Except Errno ι) := do
  match ← innerNamei t T pathname true with
  | .error error => pure (.error error)
  | .ok inode =>
      match nameiCheck t T dir perm inode with
      | some error => do
          iput inode
          pure (.error error)
      | none => pure (.ok inode)

end Code

/-! ## Which inode a path names -/

section Purpose

variable {ι : Type} [DecidableEq ι]

/-- Under a directory that may be searched. -/
def FileTree.within (T : FileTree ι) (perm : Option Errno) (dir : ι) (name : Name) :
    Except Errno ι :=
  match perm with
  | some perm => .error perm
  | none => if name = [] then .ok dir else T.child dir name

/-- One name under a directory. -/
def FileTree.find (T : FileTree ι) (t : TaskStruct ι) (dir : ι) (name : Name) :
    Except Errno ι :=
  let perm := permission t (T.inode dir) mayExec
  if name = dotdot then
    if dir = t.root then .ok dir
    else if (T.inode dir).isMounted then
      match (T.inode dir).sCovered with
      | none => .error .enoent
      | some covered => T.within perm covered name
    else T.within perm dir name
  else T.within perm dir name

/-- The directory that a list of names leads to. -/
def FileTree.descend
    (T : FileTree ι)
    (t : TaskStruct ι)
    (follow : ι → ι → Except Errno ι) :
    List Name → ι → Except Errno ι
  | [], base => .ok base
  | name :: rest, base =>
      match T.find t base name with
      | .error e => .error e
      | .ok inode =>
          match follow base inode with
          | .error e => .error e
          | .ok base => T.descend t follow rest base

/-- The directory of a path, and the name in it. -/
def FileTree.dirOf
    (T : FileTree ι)
    (t : TaskStruct ι)
    (follow : ι → ι → Except Errno ι)
    (path : Path)
    (base : ι) :
    Except Errno (ι × Name) :=
  let names := components (if path.head? = some slash then path.tail else path)
  match T.descend t follow names.1 (if path.head? = some slash then t.root else base) with
  | .error e => .error e
  | .ok dir => if T.has (·.lookup) dir then .ok (dir, names.2) else .error .enotdir

/-- The inode that a path names, as it is opened without creating it. -/
def FileTree.openIn
    (T : FileTree ι)
    (t : TaskStruct ι)
    (follow : Nat → ι → ι → Except Errno ι)
    (path : Path)
    (flag : Nat)
    (base : ι) :
    Except Errno ι :=
  match T.dirOf t (follow 0) path base with
  | .error e => .error e
  | .ok (dir, name) =>
      if name = [] then
        if flag &&& 2 ≠ 0 then .error .eisdir
        else
          match permission t (T.inode dir) (accMode flag) with
          | some e => .error e
          | none => .ok dir
      else
        match T.find t dir name with
        | .error e => .error e
        | .ok inode =>
            match follow flag dir inode with
            | .error e => .error e
            | .ok inode =>
                match openCheck t T flag inode with
                | some e => .error e
                | none => .ok inode

/-- What an inode stands for, when `links` more links may be followed. -/
def FileTree.follow (T : FileTree ι) (t : TaskStruct ι) (links : Nat) :
    Nat → ι → ι → Except Errno ι :=
  fun flag dir inode =>
    if ¬ (T.has (·.followLink) inode ∧ T.isA sIflnk inode) then
      .ok inode
    else
      match links with
      | 0 => .error .eloop
      | links + 1 =>
          match T.linkBlock inode with
          | none => .error .eio
          | some _ => T.openIn t (T.follow t links) (T.linkPath inode) flag dir

/-- The directory of a path of the calling task. -/
def FileTree.dirOfPath (T : FileTree ι) (t : TaskStruct ι) (path : Path) :
    Except Errno (ι × Name) :=
  T.dirOf t (T.follow t linkMax 0) path t.pwd

/-- The inode that a path of the calling task names. -/
def FileTree.named (T : FileTree ι) (t : TaskStruct ι) (path : Path) (followLinks : Bool) :
    Except Errno ι :=
  match T.dirOfPath t path with
  | .error e => .error e
  | .ok (dir, name) =>
      match T.find t dir name with
      | .error e => .error e
      | .ok inode => if followLinks then T.follow t linkMax 0 dir inode else .ok inode

/-- The inode that `namei` answers with. -/
def FileTree.namei (T : FileTree ι) (t : TaskStruct ι) (path : Path) (dir : Kind) (perm : Nat) :
    Except Errno ι :=
  match T.named t path true with
  | .error e => .error e
  | .ok inode =>
      match nameiCheck t T dir perm inode with
      | some e => .error e
      | none => .ok inode

end Purpose

/-! ## The routines find what the path names -/

section Results

variable {ι : Type} [DecidableEq ι] {α : Type}

/-- The reference that comes with a directory. -/
def handDir : Except Errno (ι × Name) → ι → ℕ
  | .ok (dir, _) => one dir
  | .error _ => 0

/-- The result `r` is `found`, with its reference in hand. -/
def Finds (found : Except Errno ι) (r : Except Errno ι) (h : ι → ℕ) : Prop :=
  r = found ∧ h = hand r

/-- The result of an `open_namei`, which is `found` unless it creates a file. -/
def Opens (flag : Nat) (found : Except Errno ι) (r : Except Errno ι) (h : ι → ℕ) : Prop :=
  h = hand r ∧ (flag &&& oCreat = 0 → r = found)

/-- A routine that follows links as `found` says. -/
def Follows
    (follow : Nat → ι → ι → Walk ι (Except Errno ι))
    (found : Nat → ι → ι → Except Errno ι) : Prop :=
  ∀ flag dir inode,
    Moves (follow flag dir inode) (one dir + one inode) (Opens flag (found flag dir inode))

theorem Moves.found {m : Walk ι (Except Errno ι)} {f : Except Errno ι → Walk ι α}
    {post : α → (ι → ℕ) → Prop} {h k g : ι → ℕ} {found : Except Errno ι} (hk : k = g + h)
    (hm : Moves m h (Finds found)) (hok : ∀ i, found = .ok i → Moves (f (.ok i)) (g + one i) post)
    (herr : ∀ e, found = .error e → Moves (f (.error e)) g post) : Moves (m >>= f) k post := by
  refine Trades.call g hk hm ?_
  rintro r h' ⟨rfl, rfl⟩
  cases r with
  | ok i => exact hok i rfl
  | error e => exact herr e rfl

theorem lookupIn_moves (T : FileTree ι) (perm : Option Errno) (dir : ι) (name : Name) :
    Moves (lookupIn T perm dir name) (one dir) (Finds (T.within perm dir name)) := by
  unfold lookupIn FileTree.within
  refine Trades.ite (fun _ => Trades.throw trivial) fun _ => ?_
  cases perm with
  | some perm => exact Moves.iputs ⟨rfl, rfl⟩
  | none =>
      by_cases hname : name = []
      · simp only [if_pos hname]
        exact Trades.pure ⟨rfl, rfl⟩
      · simp only [if_neg hname]
        exact minixLookup_moves T dir name

theorem lookup_moves (t : TaskStruct ι) (T : FileTree ι) (dir : ι) (name : Name) :
    Moves (lookup t T dir name) (one dir) (Finds (T.find t dir name)) := by
  unfold lookup FileTree.find
  by_cases hname : name = dotdot
  · simp only [if_pos hname]
    by_cases hroot : dir = t.root
    · simp only [if_pos hroot]
      exact Trades.pure ⟨rfl, rfl⟩
    · simp only [if_neg hroot]
      by_cases hmounted : (T.inode dir).isMounted
      · simp only [if_pos hmounted]
        refine Moves.iput (zero_add _).symm ?_
        cases (T.inode dir).sCovered with
        | none => exact Trades.pure ⟨rfl, rfl⟩
        | some covered =>
            refine Moves.iref ?_
            rw [zero_add]
            exact lookupIn_moves T _ covered name
      · simp only [if_neg hmounted]
        exact lookupIn_moves T _ dir name
  · simp only [if_neg hname]
    exact lookupIn_moves T _ dir name

section Walks

variable {t : TaskStruct ι} {T : FileTree ι} {follow : Nat → ι → ι → Walk ι (Except Errno ι)}
  {found : Nat → ι → ι → Except Errno ι}

theorem walkNames_moves (hfollow : Follows follow found) (names : List Name) :
    ∀ base, Moves (walkNames t T (follow 0) names base) (one base)
      (Finds (T.descend t (found 0) names base)) := by
  induction names with
  | nil => exact fun base => Trades.pure ⟨rfl, rfl⟩
  | cons name rest ih =>
      intro base
      unfold walkNames FileTree.descend
      refine Moves.iref (Moves.found rfl (lookup_moves t T base name) ?_ ?_)
      · intro inode hinode
        rw [hinode]
        refine Trades.bind (hfollow 0 base inode) ?_
        rintro r h ⟨rfl, hr⟩
        simp only [← hr rfl]
        cases r with
        | error e => exact Trades.pure ⟨rfl, rfl⟩
        | ok next => exact ih next
      · intro e he
        rw [he]
        exact Moves.iputs ⟨rfl, rfl⟩

theorem dirNameiFrom_moves (hfollow : Follows follow found) (path : Path) (base : ι) :
    Moves (dirNameiFrom t T (follow 0) path base) (one base) fun r h =>
      r = (match T.descend t (found 0) (components path).1 base with
        | .error e => .error e
        | .ok dir =>
            if T.has (·.lookup) dir then .ok (dir, (components path).2)
            else .error .enotdir) ∧
      h = handDir r := by
  refine Moves.found (zero_add _).symm
    (walkNames_moves hfollow (components path).1 base) ?_ ?_
  · intro dir hdir
    rw [hdir, zero_add]
    by_cases hlookup : T.has (·.lookup) dir
    · simp only [if_pos hlookup, if_neg (not_not_intro hlookup)]
      exact Trades.pure ⟨rfl, rfl⟩
    · simp only [if_neg hlookup, if_pos hlookup]
      exact Moves.iputs ⟨rfl, rfl⟩
  · intro e he
    rw [he]
    exact Trades.pure ⟨rfl, rfl⟩

theorem dirNameiAt_moves (hfollow : Follows follow found) (path : Path) (base : ι) :
    Moves (dirNameiAt t T (follow 0) path base) (one base) fun r h =>
      r = T.dirOf t (found 0) path base ∧ h = handDir r := by
  unfold dirNameiAt FileTree.dirOf
  by_cases hroot : path.head? = some slash
  · simp only [if_pos hroot]
    refine Moves.iput (zero_add _).symm (Moves.iref ?_)
    rw [zero_add]
    exact dirNameiFrom_moves hfollow path.tail t.root
  · simp only [if_neg hroot]
    exact dirNameiFrom_moves hfollow path base

theorem openCreate_moves (t : TaskStruct ι) (T : FileTree ι) (dir : ι) (name : Name) :
    Moves (openCreate t T dir name) (one dir) fun r h => h = hand r := by
  unfold openCreate
  cases permission t (T.inode dir) (mayWrite ||| mayExec) with
  | some error => exact Moves.iputs rfl
  | none =>
      refine Trades.ite (fun _ => Moves.iputs rfl) fun _ => Moves.iref ?_
      refine Trades.call (one dir) rfl (minixCreate_moves T dir name) ?_
      rintro r h rfl
      exact Moves.iput (add_comm _ _) (Trades.pure rfl)

theorem openFound_moves (hfollow : Follows follow found) (flag : Nat) (dir inode : ι) :
    Moves (openFound t T follow flag dir inode) (one dir + one inode)
      (Opens flag
        (match found flag dir inode with
        | .error e => .error e
        | .ok inode =>
            match openCheck t T flag inode with
            | some e => .error e
            | none => .ok inode)) := by
  refine Trades.bind (hfollow flag dir inode) ?_
  rintro r h ⟨rfl, hr⟩
  cases r with
  | error e => exact Trades.pure ⟨rfl, fun hflag => by rw [← hr hflag]⟩
  | ok target =>
      simp only
      cases hcheck : openCheck t T flag target with
      | some error =>
          refine Moves.iputs ⟨rfl, fun hflag => ?_⟩
          simp only [← hr hflag, hcheck]
      | none =>
          refine Trades.pure ⟨rfl, fun hflag => ?_⟩
          simp only [← hr hflag, hcheck]

theorem openNameiAt_moves (hfollow : Follows follow found) (path : Path) (flag : Nat) (base : ι) :
    Moves (openNameiAt t T follow path flag base) (one base)
      (Opens flag (T.openIn t found path flag base)) := by
  unfold openNameiAt FileTree.openIn
  refine Trades.bind (dirNameiAt_moves hfollow path base) ?_
  rintro r h ⟨rfl, rfl⟩
  cases T.dirOf t (found 0) path base with
  | error e => exact Trades.pure ⟨rfl, fun _ => rfl⟩
  | ok found' =>
      obtain ⟨dir, name⟩ := found'
      by_cases hname : name = []
      · simp only [if_pos hname]
        by_cases hwrite : flag &&& 2 ≠ 0
        · simp only [if_pos hwrite]
          exact Moves.iputs ⟨rfl, fun _ => rfl⟩
        · simp only [if_neg hwrite]
          cases permission t (T.inode dir) (accMode flag) with
          | some e => exact Moves.iputs ⟨rfl, fun _ => rfl⟩
          | none => exact Trades.pure ⟨rfl, fun _ => rfl⟩
      · simp only [if_neg hname]
        refine Moves.iref (Moves.found rfl (lookup_moves t T dir name) ?_ ?_)
        · intro inode hinode
          rw [hinode]
          refine Trades.ite (fun hflag => ?_) fun _ => openFound_moves hfollow flag dir inode
          exact Moves.iputs_swap ⟨rfl, fun h0 => absurd h0 hflag.1⟩
        · intro e he
          rw [he]
          refine Trades.ite (fun hflag => ?_) fun _ => Moves.iputs ⟨rfl, fun _ => rfl⟩
          refine (openCreate_moves t T dir name).mono ?_
          exact fun r h hr => ⟨hr, fun h0 => absurd h0 hflag⟩

end Walks

theorem followLink_plain {t : TaskStruct ι} {T : FileTree ι} {links flag : Nat} {dir inode : ι}
    (h : ¬ (T.has (·.followLink) inode ∧ T.isA sIflnk inode)) :
    followLink t T links flag dir inode =
      (do iput dir; pure (.ok inode)) := by
  unfold followLink minixFollowLink
  by_cases hop : T.has (·.followLink) inode
  · have hlink : ¬ T.isA sIflnk inode := fun hlink => h ⟨hop, hlink⟩
    rw [if_neg (not_not_intro hop)]
    cases links with
    | zero => exact if_pos hlink
    | succ links => exact if_pos hlink
  · rw [if_pos hop]

theorem followLink_moves (t : TaskStruct ι) (T : FileTree ι) (links : Nat) :
    Follows (followLink t T links) (T.follow t links) := by
  induction links with
  | zero =>
      intro flag dir inode
      by_cases h : T.has (·.followLink) inode ∧ T.isA sIflnk inode
      · unfold followLink FileTree.follow minixFollowLink
        rw [if_neg (not_not_intro h), if_neg (not_not_intro h.1)]
        simp only [if_neg (not_not_intro h.2)]
        exact Moves.iputs_swap ⟨rfl, fun _ => rfl⟩
      · rw [followLink_plain h]
        refine Moves.iput (add_comm _ _) (Trades.pure ⟨rfl, fun _ => Eq.symm ?_⟩)
        exact if_pos h
  | succ links ih =>
      intro flag dir inode
      by_cases h : T.has (·.followLink) inode ∧ T.isA sIflnk inode
      · unfold followLink FileTree.follow minixFollowLink
        rw [if_neg (not_not_intro h), if_neg (not_not_intro h.1)]
        simp only [if_neg (not_not_intro h.2)]
        cases T.linkBlock inode with
        | none => exact Moves.iputs_swap ⟨rfl, fun _ => rfl⟩
        | some _ => exact Moves.iput rfl (openNameiAt_moves ih (T.linkPath inode) flag dir)
      · rw [followLink_plain h]
        refine Moves.iput (add_comm _ _) (Trades.pure ⟨rfl, fun _ => Eq.symm ?_⟩)
        exact if_pos h

theorem dirNamei_moves (t : TaskStruct ι) (T : FileTree ι) (path : Path) :
    Moves (dirNamei t T path) 0 fun r h => r = T.dirOfPath t path ∧ h = handDir r := by
  refine Moves.iref ?_
  rw [zero_add]
  exact dirNameiAt_moves (followLink_moves t T linkMax) path t.pwd

theorem openNamei_moves (t : TaskStruct ι) (T : FileTree ι) (path : Path) (flag : Nat) :
    Moves (openNamei t T path flag) 0
      (Opens flag (T.openIn t (T.follow t linkMax) path flag t.pwd)) := by
  refine Moves.iref ?_
  rw [zero_add]
  exact openNameiAt_moves (followLink_moves t T linkMax) path flag t.pwd

theorem innerNamei_moves (t : TaskStruct ι) (T : FileTree ι) (path : Path) (followLinks : Bool) :
    Moves (innerNamei t T path followLinks) 0 (Finds (T.named t path followLinks)) := by
  unfold FileTree.named
  refine Trades.bind (dirNamei_moves t T path) ?_
  rintro r h ⟨rfl, rfl⟩
  cases T.dirOfPath t path with
  | error e => exact Trades.pure ⟨rfl, rfl⟩
  | ok found =>
      obtain ⟨dir, name⟩ := found
      refine Moves.iref (Moves.found rfl (lookup_moves t T dir name) ?_ ?_)
      · intro inode hinode
        simp only [hinode]
        cases followLinks with
        | true =>
            refine (followLink_moves t T linkMax 0 dir inode).mono ?_
            exact fun r h hr => ⟨hr.2 rfl, hr.1⟩
        | false => exact Moves.iput (add_comm _ _) (Trades.pure ⟨rfl, rfl⟩)
      · intro e he
        simp only [he]
        exact Moves.iputs ⟨rfl, rfl⟩

theorem namei_moves (t : TaskStruct ι) (T : FileTree ι) (path : Path) (dir : Kind) (perm : Nat) :
    Moves (namei t T path dir perm) 0 (Finds (T.namei t path dir perm)) := by
  unfold FileTree.namei
  refine Moves.found (zero_add _).symm (innerNamei_moves t T path true) ?_ ?_
  · intro inode hinode
    rw [hinode, zero_add]
    simp only
    cases nameiCheck t T dir perm inode with
    | some e => exact Moves.iputs ⟨rfl, rfl⟩
    | none => exact Trades.pure ⟨rfl, rfl⟩
  · intro e he
    rw [he]
    exact Trades.pure ⟨rfl, rfl⟩

end Results

end Namei
end Elks
