import Elks.Buffer.Head
import Elks.Lib.Owner

/-!
# A mounted Minix file system (minix_fs.h, minix_fs_sb.h, fs.h)

The state of one mounted file system as the kernel sees it between two calls.

* The bit maps are the blocks that `minix_read_super` keeps in `s_imap[]` and
  `s_zmap[]`; a slot that holds no buffer is `none`.
* The inodes are those of the inode table laid over those on the disk: an inode
  is written back before its slot is given away, so each number has one record.
* The blocks are what the buffer cache answers for a block number, which by the
  results on the cache is one flat store.

A block number is kept in a field of an inode or in a word of an indirect
block.  The source passes pointers to such cells; here a cell is named by what
it is.  Above the cells are the places of the tree of a file, which do not move
when an indirect block does: `Fs.ptr` is what a place holds.
-/

namespace Elks
namespace Minix

open Lib
open Buffer (Block blockSize)
open Function (update update_of_ne update_self)

/-- The error numbers the file system returns (errno.h). -/
inductive Errno
  | eperm
  | enoent
  | eio
  | ebadf
  | eacces
  | ebusy
  | eexist
  | exdev
  | enotdir
  | eisdir
  | einval
  | enfile
  | emfile
  | enospc
  | erofs
  | emlink
  | enotempty
  | eloop
  | efault
  | enoexec
  | enomem
deriving DecidableEq

/-- One block of a bit map. -/
abbrev Bitmap := Nat → Bool

/-- Number of bits in a block of a bit map. -/
def bitsPerBlock : Nat := 8192

/-- `S_IFMT`. -/
def sIfmt : Nat := 0o170000

/-- `S_IFSOCK`. -/
def sIfsock : Nat := 0o140000

/-- `S_IFLNK`. -/
def sIflnk : Nat := 0o120000

/-- `S_IFREG`. -/
def sIfreg : Nat := 0o100000

/-- `S_IFBLK`. -/
def sIfblk : Nat := 0o060000

/-- `S_IFDIR`. -/
def sIfdir : Nat := 0o040000

/-- `S_IFCHR`. -/
def sIfchr : Nat := 0o020000

/-- `S_IFIFO`. -/
def sIfifo : Nat := 0o010000

/-- The tests `S_ISLNK`, `S_ISREG` and so on, each with its own format. -/
def hasFormat (format mode : Nat) : Bool :=
  mode &&& sIfmt == format

/-- `struct inode`, without its times and the fields of the inode table. -/
structure Inode where
  iMode : Nat
  iUid : Nat
  iSize : Nat
  iGid : Nat
  iNlink : Nat
  iZone : Fin 9 → Nat
  iRdev : Nat
  iCount : Nat

/-- What `clear_inode` leaves. -/
def blankInode : Inode where
  iMode := 0
  iUid := 0
  iSize := 0
  iGid := 0
  iNlink := 0
  iZone := fun _ => 0
  iRdev := 0
  iCount := 0

/-- A mounted file system. -/
structure Fs where
  sNinodes : Nat
  sNzones : Nat
  sFirstdatazone : Nat
  sFlags : Nat
  sImap : Nat → Option Bitmap
  sZmap : Nat → Option Bitmap
  inode : Nat → Inode
  block : Nat → Block

/-- What `memset(bh->b_data, 0, BLOCK_SIZE)` leaves. -/
def zeroBlock : Block :=
  fun _ => 0

section Words

variable {j k : Fin 512}

/-- The lower byte of word `j` of a block. -/
def loByte (j : Fin 512) : Fin blockSize :=
  ⟨2 * j, by have := j.2; unfold blockSize; omega⟩

/-- The upper byte of word `j` of a block. -/
def hiByte (j : Fin 512) : Fin blockSize :=
  ⟨2 * j + 1, by have := j.2; unfold blockSize; omega⟩

/-- `((unsigned short *) bh->b_data)[j]`. -/
def word (b : Block) (j : Fin 512) : Nat :=
  (b (loByte j)).toNat + 256 * (b (hiByte j)).toNat

/-- `((unsigned short *) bh->b_data)[j] = v`. -/
def putWord (b : Block) (j : Fin 512) (v : Nat) : Block :=
  update (update b (loByte j) (UInt8.ofNat v)) (hiByte j)
    (UInt8.ofNat (v / 256))

theorem loByte_ne_hiByte (j k : Fin 512) : loByte j ≠ hiByte k := by
  intro h
  have := congrArg Fin.val h
  simp only [loByte, hiByte] at this
  omega

theorem loByte_inj : loByte j = loByte k ↔ j = k := by
  simp [loByte, Fin.ext_iff]

theorem hiByte_inj : hiByte j = hiByte k ↔ j = k := by
  simp [hiByte, Fin.ext_iff]

@[simp]
theorem word_zeroBlock (j : Fin 512) :
    word zeroBlock j = 0 :=
  rfl

theorem word_lt (b : Block) (j : Fin 512) : word b j < 65536 := by
  have hlo := (b (loByte j)).toNat_lt
  have hhi := (b (hiByte j)).toNat_lt
  unfold word
  omega

theorem word_putWord_same (b : Block) (j : Fin 512) {v : Nat} (hv : v < 65536) :
    word (putWord b j v) j = v := by
  unfold word putWord
  rw [update_of_ne (loByte_ne_hiByte j j), update_self,
    update_self, UInt8.toNat_ofNat', UInt8.toNat_ofNat']
  omega

theorem word_putWord_ne (b : Block) (v : Nat) (hjk : k ≠ j) :
    word (putWord b j v) k = word b k := by
  unfold word putWord
  rw [update_of_ne (loByte_ne_hiByte k j),
    update_of_ne (fun h => hjk (loByte_inj.mp h)),
    update_of_ne (fun h => hjk (hiByte_inj.mp h)),
    update_of_ne (loByte_ne_hiByte j k).symm]

end Words

section Bytes

/-- Byte `k` of a block. -/
def byteAt (b : Block) (k : Nat) : UInt8 :=
  b (Fin.ofNat blockSize k)

/-- The bytes a copy into a block leaves there. -/
def patch (b : Block) (offset : Nat) (buf : List UInt8) : Block :=
  fun k => if offset ≤ k.val then buf.getD (k.val - offset) (b k) else b k

@[simp]
theorem byteAt_zeroBlock (k : Nat) :
    byteAt zeroBlock k = 0 :=
  rfl

end Bytes

section Cells

/-- The index of a direct block in `i_zone`. -/
def directZone (i : Fin 7) : Fin 9 :=
  i.castLE (by decide)

/-- The field of an inode that names the indirect block. -/
abbrev indZone : Fin 9 := 7

/-- The field of an inode that names the double indirect block. -/
abbrev dindZone : Fin 9 := 8

@[simp]
theorem indZone_ne_dindZone : indZone ≠ dindZone := by
  decide

/-- Where a block number is kept: a field of an inode or a word of a block. -/
inductive Cell
  | zone (ino : Nat) (k : Fin 9)
  | word (z : Nat) (j : Fin 512)
deriving DecidableEq

/-- Change one inode. -/
def Fs.modInode (s : Fs) (ino : Nat) (f : Inode → Inode) : Fs :=
  { s with inode := update s.inode ino (f (s.inode ino)) }

/-- Change one block. -/
def Fs.putBlock (s : Fs) (z : Nat) (b : Block) : Fs :=
  { s with block := update s.block z b }

/-- `inode->i_zone[k] = v`. -/
def Fs.setZone (s : Fs) (ino : Nat) (k : Fin 9) (v : Nat) : Fs :=
  s.modInode ino fun i => { i with iZone := update i.iZone k v }

/-- `*p`. -/
def Fs.fetch (s : Fs) : Cell → Nat
  | .zone ino k => (s.inode ino).iZone k
  | .word z j => word (s.block z) j

/-- `*p = v`. -/
def Fs.store (s : Fs) (p : Cell) (v : Nat) : Fs :=
  match p with
  | .zone ino k => s.setZone ino k v
  | .word z j => s.putBlock z (putWord (s.block z) j v)

end Cells

section Places

variable {p q : Place} {j : Fin 512} {s : Fs}

/-- A place of the block tree of an inode: a field, an entry of the indirect
block or of the double indirect block, or an entry of a block named by an entry
of the double indirect block. -/
inductive Place
  | zone (ino : Nat) (k : Fin 9)
  | ind (ino : Nat) (j : Fin 512)
  | dind (ino : Nat) (j : Fin 512)
  | leaf (ino : Nat) (j l : Fin 512)
deriving DecidableEq

namespace Place

/-- The inode a place belongs to. -/
def ino : Place → Nat
  | zone i _ => i
  | ind i _ => i
  | dind i _ => i
  | leaf i _ _ => i

/-- The place that names the block a place is in, and its index there. -/
def parent : Place → Option (Place × Fin 512)
  | zone _ _ => none
  | ind i j => some (zone i indZone, j)
  | dind i j => some (zone i dindZone, j)
  | leaf i j l => some (dind i j, l)

/-- Places that name blocks of block numbers. -/
def table : Place → Bool
  | zone _ k => k == indZone || k == dindZone
  | dind _ _ => true
  | _ => false

theorem parent_ino {p q : Place} {j : Fin 512} (h : p.parent = some (q, j)) : q.ino = p.ino := by
  cases p <;> simp only [parent, Option.some.injEq, Prod.mk.injEq, reduceCtorEq] at h <;>
    rw [← h.1] <;> rfl

theorem parent_table {p q : Place} {j : Fin 512} (h : p.parent = some (q, j)) : q.table = true := by
  cases p <;> simp only [parent, Option.some.injEq, Prod.mk.injEq, reduceCtorEq] at h <;>
    rw [← h.1] <;> rfl

theorem parent_inj {p p' q : Place} {j : Fin 512} (h : p.parent = some (q, j))
    (h' : p'.parent = some (q, j)) : p = p' := by
  have he : p.parent = p'.parent := h.trans h'.symm
  cases p with
  | zone _ _ => simp [parent] at h
  | _ =>
      clear h
      cases p' with
      | zone _ _ => simp [parent] at h'
      | _ =>
          clear h'
          simp_all [parent, and_assoc, indZone_ne_dindZone.symm]

theorem parent_ne {p q : Place} {j : Fin 512} (h : p.parent = some (q, j)) : q ≠ p := by
  rintro rfl
  cases q <;> simp [parent] at h

/-- The place of entry `j` of the block a table place names. -/
def child : Place → Fin 512 → Place
  | zone i k, j => if k = indZone then ind i j else dind i j
  | dind i a, j => leaf i a j
  | p, _ => p

theorem parent_child {p : Place} (h : p.table = true) (j : Fin 512) :
    (p.child j).parent = some (p, j) := by
  cases p with
  | zone i k =>
      simp only [table, Bool.or_eq_true, beq_iff_eq] at h
      rcases h with rfl | rfl <;> rfl
  | ind i a => simp [table] at h
  | dind i a => rfl
  | leaf i a l => simp [table] at h

theorem induct {motive : Place → Prop} (root : ∀ i k, motive (zone i k))
    (child : ∀ p q j, p.parent = some (q, j) → motive q → motive p) (p : Place) : motive p := by
  cases p with
  | zone i k => exact root i k
  | ind i j => exact child _ _ j rfl (root i indZone)
  | dind i j => exact child _ _ j rfl (root i dindZone)
  | leaf i j l => exact child _ _ l rfl (child _ _ j rfl (root i dindZone))

end Place

/-- Entry `j` of the block of block numbers `z`, and nothing if there is no such
block. -/
def Fs.through (s : Fs) (z : Nat) (j : Fin 512) : Nat :=
  if z = 0 then 0 else word (s.block z) j

/-- The block number held in a place. -/
def Fs.ptr (s : Fs) : Place → Nat
  | .zone i k => (s.inode i).iZone k
  | .ind i j => s.through ((s.inode i).iZone indZone) j
  | .dind i j => s.through ((s.inode i).iZone dindZone) j
  | .leaf i j l => s.through (s.through ((s.inode i).iZone dindZone) j) l

/-- The cell a place is kept in. -/
def Fs.cell (s : Fs) (p : Place) : Cell :=
  match p with
  | .zone i k => .zone i k
  | .ind i j => .word (s.ptr (.zone i indZone)) j
  | .dind i j => .word (s.ptr (.zone i dindZone)) j
  | .leaf i j l => .word (s.ptr (.dind i j)) l

theorem ptr_of_parent (s : Fs) (h : p.parent = some (q, j)) : s.ptr p = s.through (s.ptr q) j := by
  cases p <;> simp only [Place.parent, Option.some.injEq, Prod.mk.injEq, reduceCtorEq] at h <;>
    rw [← h.1, ← h.2] <;> rfl

theorem cell_of_parent (s : Fs) (h : p.parent = some (q, j)) : s.cell p = .word (s.ptr q) j := by
  cases p <;> simp only [Place.parent, Option.some.injEq, Prod.mk.injEq, reduceCtorEq] at h <;>
    rw [← h.1, ← h.2] <;> rfl

theorem cell_zone (s : Fs) (i : Nat) (k : Fin 9) :
    s.cell (.zone i k) = .zone i k :=
  rfl

@[simp]
theorem through_zero (s : Fs) (j : Fin 512) : s.through 0 j = 0 := by
  simp [Fs.through]

theorem ptr_blank (h : (s.inode p.ino).iZone = fun _ => 0) : s.ptr p = 0 := by
  cases p <;> simp only [Place.ino] at h <;> simp [Fs.ptr, h]

theorem fetch_cell (h : ∀ q j, p.parent = some (q, j) → s.ptr q ≠ 0) :
    s.fetch (s.cell p) = s.ptr p := by
  cases hp : p.parent with
  | none => cases p <;> simp_all [Place.parent, Fs.cell, Fs.fetch, Fs.ptr]
  | some qj =>
      obtain ⟨q, j⟩ := qj
      rw [cell_of_parent s hp, ptr_of_parent s hp, Fs.through, if_neg (h q j hp)]
      rfl

theorem fetch_cell_of_ne (h : s.ptr p ≠ 0) : s.fetch (s.cell p) = s.ptr p := by
  refine fetch_cell fun q j hq hq0 => h ?_
  rw [ptr_of_parent s hq, hq0, through_zero]

/-- The place of block `n` of the file, for the block numbers of sixteen bits
that `_minix_bmap` takes. -/
def dataPlace (i n : Nat) : Place :=
  if h : n < 7 then .zone i ⟨n, by omega⟩
  else if h : n - 7 < 512 then .ind i ⟨n - 7, h⟩
  else .leaf i ⟨(n - 7 - 512) / 512 % 512, Nat.mod_lt _ (by decide)⟩
    ⟨(n - 7 - 512) % 512, Nat.mod_lt _ (by decide)⟩

@[simp]
theorem dataPlace_ino (i n : Nat) : (dataPlace i n).ino = i := by
  unfold dataPlace
  split
  · rfl
  · split <;> rfl

theorem dataPlace_table (i n : Nat) : (dataPlace i n).table = false := by
  unfold dataPlace
  split
  · rename_i h
    simp only [Place.table, Bool.or_eq_false_iff, beq_eq_false_iff_ne, ne_eq, Fin.ext_iff]
    refine ⟨?_, ?_⟩
    · change n ≠ 7
      omega
    · change n ≠ 8
      omega
  · split <;> rfl

theorem dataPlace_inj {i i' n n' : Nat} (hn : n < 65536) (hn' : n' < 65536)
    (h : dataPlace i n = dataPlace i' n') : i = i' ∧ n = n' := by
  refine ⟨by rw [← dataPlace_ino i n, h, dataPlace_ino], ?_⟩
  unfold dataPlace at h
  split at h <;> split at h <;> (try split at h) <;> (try split at h) <;>
    simp only [Place.zone.injEq, Place.ind.injEq, Place.leaf.injEq, Fin.mk.injEq,
      reduceCtorEq] at h <;> omega

end Places

end Minix
end Elks
