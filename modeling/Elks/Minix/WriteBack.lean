import Elks.Buffer.Transparent
import Elks.Lib.Bytes
import Elks.Minix.Super

/-!
# Inodes on the disk and in core (fs/minix/inode.c)

`struct inode` begins with the members that a Minix inode has on the disk, so that
`memcpy` takes them over both ways.  The device number of a special file is kept
apart in core, and in the first zone on the disk.

* `inode_written_back`: what `minix_update_inode` stores, `minix_read_inode` reads,
  and the other inodes keep their bytes;
* `modify_stores`: the store that is changed here is the one behind the cache.
-/

namespace Elks
namespace Minix
namespace WriteBack

open Lib
open Buffer (Block Bh Buffers CacheOp Flat blockSize)

/-- The sizes of the members of `struct inode` that are on the disk. -/
def inodeSizes : List Nat :=
  [2, 2, 4, 4, 1, 1] ++ List.replicate 9 2

/-- The sizes of the members of `struct minix_inode`. -/
def minixInodeSizes : List Nat :=
  [2, 2, 4, 4, 1, 1] ++ List.replicate 9 2

/-- `sizeof(struct minix_inode)`. -/
def minixInodeSize : Nat :=
  minixInodeSizes.sum

/-- `MINIX_INODES_PER_BLOCK`. -/
def minixInodesPerBlock : UInt16 :=
  UInt16.ofNat (blockSize / minixInodeSize)

/-- What is read of `struct minix_sb_info`. -/
structure MinixSbInfo where
  sNinodes : UInt16
  sImapBlocks : UInt16
  sZmapBlocks : UInt16
deriving DecidableEq

/-- The values of `i_op`. -/
inductive InodeOperations
  | file
  | dir
  | symlink
  | chrdev
  | blkdev
deriving DecidableEq

/-- `struct inode`, as far as it is read and written here. -/
structure Inode where
  iMode : UInt16
  iUid : UInt16
  iSize : UInt32
  iMtime : UInt32
  iGid : UInt8
  iNlink : UInt8
  iZone : Fin 9 → UInt16
  iIno : UInt16
  iDev : UInt16
  iRdev : UInt16
  iAtime : UInt32
  iCtime : UInt32
  iOp : Option InodeOperations
  iSb : MinixSbInfo
  iDirt : Bool

/-- The blocks of all devices, and those that cannot be read. -/
structure Disks where
  flat : Flat
  ioError : Nat → Nat → Bool

/-- `bread`. -/
def Disks.bread (d : Disks) (dev block : UInt16) : Option Block :=
  if d.ioError dev.toNat block.toNat then none else some (d.flat dev.toNat block.toNat)

/-- The bytes of a block, by their offsets. -/
def bData (b : Block) : Nat → UInt8 :=
  fun k => if h : k < blockSize then b ⟨k, h⟩ else 0

/-- A block after bytes have been copied to offset `a`. -/
def copyTo (a : Nat) (l : List UInt8) (b : Block) : Block :=
  fun k => overlay (bData b) a l k

/-- The number of the block of an inode. -/
def inodeBlock (sb : MinixSbInfo) (ino : UInt16) : UInt16 :=
  sb.sImapBlocks + 2 + sb.sZmapBlocks + (ino - 1) / minixInodesPerBlock

/-- The offset of `raw_inode` in the block. -/
def rawInode (ino : UInt16) : Nat :=
  ((ino - 1) % minixInodesPerBlock).toNat * minixInodeSize

/-- `S_ISCHR(mode) || S_ISBLK(mode)`. -/
def isDevice (mode : UInt16) : Bool :=
  hasFormat sIfchr mode.toNat || hasFormat sIfblk mode.toNat

/-- `minix_set_ops`. -/
def minixSetOps (inode : Inode) : Inode :=
  if hasFormat sIfreg inode.iMode.toNat then { inode with iOp := some .file }
  else if hasFormat sIfdir inode.iMode.toNat then { inode with iOp := some .dir }
  else if hasFormat sIflnk inode.iMode.toNat then { inode with iOp := some .symlink }
  else if hasFormat sIfchr inode.iMode.toNat then { inode with iOp := some .chrdev }
  else if hasFormat sIfblk inode.iMode.toNat then { inode with iOp := some .blkdev }
  else inode

/-- The values of the first members of an inode. -/
def Inode.values (i : Inode) : List Nat :=
  [i.iMode.toNat, i.iUid.toNat, i.iSize.toNat, i.iMtime.toNat, i.iGid.toNat,
      i.iNlink.toNat] ++
    List.ofFn fun k => (i.iZone k).toNat

/-- The bytes of these members. -/
def Inode.image (i : Inode) : List UInt8 :=
  pack (inodeSizes.zip i.values)

/-- `memcpy(inode, m + a, sizeof(struct minix_inode))`. -/
def Inode.copyFrom (i : Inode) (m : Nat → UInt8) (a : Nat) : Inode :=
  { i with
    iMode := UInt16.ofNat (member inodeSizes 0 m a)
    iUid := UInt16.ofNat (member inodeSizes 1 m a)
    iSize := UInt32.ofNat (member inodeSizes 2 m a)
    iMtime := UInt32.ofNat (member inodeSizes 3 m a)
    iGid := UInt8.ofNat (member inodeSizes 4 m a)
    iNlink := UInt8.ofNat (member inodeSizes 5 m a)
    iZone := fun k => UInt16.ofNat (member inodeSizes (6 + k) m a) }

/-- `raw_inode->i_zone[k]`. -/
def rawZone (m : Nat → UInt8) (a : Nat) (k : Fin 9) : UInt16 :=
  UInt16.ofNat (member minixInodeSizes (6 + k) m a)

theorem deviceZone_lt : 0 < 9 := by
  decide

/-- The first zone, where the device number of a special file is kept. -/
def deviceZone : Fin 9 :=
  ⟨0, deviceZone_lt⟩

/-- `minix_read_inode`. -/
def minixReadInode (inode : Inode) (d : Disks) : Inode :=
  let ino := inode.iIno
  let inode := { inode with iOp := none, iMode := 0 }
  if ino = 0 ∨ inode.iSb.sNinodes < ino then inode
  else
    match d.bread inode.iDev (inodeBlock inode.iSb ino) with
    | none => inode
    | some bh =>
        let inode := inode.copyFrom (bData bh) (rawInode ino)
        let inode := { inode with iAtime := inode.iMtime, iCtime := inode.iMtime }
        let inode :=
          if isDevice inode.iMode then
            { inode with iRdev := rawZone (bData bh) (rawInode ino) deviceZone }
          else
            { inode with iZone := rawZone (bData bh) (rawInode ino) }
        minixSetOps inode

/-- What `minix_update_inode` does to the bytes of the block. -/
def putInode (inode : Inode) (b : Block) : Block :=
  let b := copyTo (rawInode inode.iIno) (inode.image.take minixInodeSize) b
  if isDevice inode.iMode then
    copyTo (rawInode inode.iIno + offsetOf minixInodeSizes 6) (le 2 inode.iRdev.toNat) b
  else b

/-- `minix_update_inode`; the first value is whether it returns a buffer. -/
def minixUpdateInode (inode : Inode) (d : Disks) : Bool × Inode × Disks :=
  if inode.iIno = 0 ∨ inode.iSb.sNinodes < inode.iIno then
    (false, { inode with iDirt := false }, d)
  else
    let block := inodeBlock inode.iSb inode.iIno
    match d.bread inode.iDev block with
    | none => (false, { inode with iDirt := false }, d)
    | some bh =>
        (true, { inode with iDirt := false },
          { d with flat := d.flat.put inode.iDev.toNat block.toNat (putInode inode bh) })

/-- The stored bytes of inode `ino` of a file system. -/
def storedInode (d : Disks) (dev : UInt16) (sb : MinixSbInfo) (ino : UInt16) : Fin 32 → UInt8 :=
  fun k => bData (d.flat dev.toNat (inodeBlock sb ino).toNat) (rawInode ino + k)

/-- An inode is as another one was, as far as it was on the disk. -/
structure Restored (i r : Inode) : Prop where
  mode : r.iMode = i.iMode
  uid : r.iUid = i.iUid
  size : r.iSize = i.iSize
  mtime : r.iMtime = i.iMtime
  gid : r.iGid = i.iGid
  nlink : r.iNlink = i.iNlink
  zone : isDevice i.iMode = false → r.iZone = i.iZone
  rdev : isDevice i.iMode = true → r.iRdev = i.iRdev

section Place

variable {sb : MinixSbInfo} {ino n : UInt16}

theorem rawInode_le (ino : UInt16) : rawInode ino + minixInodeSize ≤ blockSize := by
  have hmod : ((ino - 1) % minixInodesPerBlock).toNat < 32 := by
    rw [UInt16.toNat_mod]
    exact Nat.mod_lt _ (by decide)
  have hsize : minixInodeSize = 32 := by decide
  unfold rawInode blockSize
  rw [hsize]
  omega

theorem place_inj (hblock : inodeBlock sb n = inodeBlock sb ino)
    (hslot : rawInode n < rawInode ino + minixInodeSize)
    (hslot' : rawInode ino < rawInode n + minixInodeSize) : n = ino := by
  have hquot : (n - 1) / minixInodesPerBlock = (ino - 1) / minixInodesPerBlock :=
    UInt16.add_right_inj _ |>.mp hblock
  have hsize : minixInodeSize = 32 := by decide
  have hper : minixInodesPerBlock.toNat = 32 := by decide
  have hquot' := congrArg UInt16.toNat hquot
  simp only [rawInode, hsize, UInt16.toNat_mod, UInt16.toNat_div, hper] at hslot hslot' hquot'
  have hval : (n - 1).toNat = (ino - 1).toNat := by omega
  exact UInt16.sub_left_inj 1 |>.mp (UInt16.toNat_inj.mp hval)

end Place

section Bytes

variable {b : Block} {a : Nat} {l : List UInt8}

theorem bData_copyTo {k : Nat} (hk : k < blockSize) :
    bData (copyTo a l b) k = overlay (bData b) a l k := by
  rw [bData, dif_pos hk]
  rfl

theorem member_copyTo_other {sizes : List Nat} {j c : Nat}
    (hblock : c + offsetOf sizes j + sizes.getD j 0 ≤ blockSize)
    (hother : c + offsetOf sizes j + sizes.getD j 0 ≤ a ∨
      a + l.length ≤ c + offsetOf sizes j) :
    member sizes j (bData (copyTo a l b)) c = member sizes j (bData b) c := by
  refine leAt_congr fun x hx hx' => ?_
  rw [bData_copyTo (by omega)]
  exact overlay_other (by omega)

end Bytes

section Members

variable {i : Inode} {b : Block}

theorem length_values (i : Inode) : i.values.length = inodeSizes.length := by
  simp [Inode.values, inodeSizes]

theorem zip_values_fst (i : Inode) : (inodeSizes.zip i.values).map Prod.fst = inodeSizes :=
  List.map_fst_zip (length_values i).ge

/-- The members on the disk are all that `memcpy` takes over. -/
theorem image_take (i : Inode) : i.image.take minixInodeSize = i.image := by
  refine List.take_of_length_le ?_
  rw [Inode.image, length_pack, zip_values_fst]
  exact Nat.le_refl _

theorem length_image (i : Inode) : i.image.length = minixInodeSize := by
  rw [Inode.image, length_pack, zip_values_fst]
  rfl

theorem offsetOf_le {j : Nat} (hj : j < inodeSizes.length) :
    offsetOf inodeSizes j + inodeSizes.getD j 0 ≤ minixInodeSize := by
  have hall : ∀ j < 15, offsetOf inodeSizes j + inodeSizes.getD j 0 ≤ minixInodeSize := by
    decide
  exact hall j hj

theorem member_image {j v : Nat} (hj : j < inodeSizes.length) (hv : i.values[j]? = some v)
    (hlt : v < 256 ^ inodeSizes.getD j 0) :
    member inodeSizes j (bData (copyTo (rawInode i.iIno) i.image b)) (rawInode i.iIno) = v := by
  have hend := offsetOf_le hj
  have hplace := rawInode_le i.iIno
  have hzip : j < (inodeSizes.zip i.values).length := by
    rw [List.length_zip, length_values, Nat.min_self]
    exact hj
  have hget : (inodeSizes.zip i.values)[j] = (inodeSizes.getD j 0, v) := by
    obtain ⟨hj', hvj⟩ := List.getElem?_eq_some_iff.mp hv
    rw [List.getElem_zip, hvj, List.getD_eq_getElem?_getD, List.getElem?_eq_getElem hj,
      Option.getD_some]
  calc member inodeSizes j (bData (copyTo (rawInode i.iIno) i.image b)) (rawInode i.iIno)
      = member inodeSizes j (overlay (bData b) (rawInode i.iIno) i.image) (rawInode i.iIno) :=
        leAt_congr fun x _ hx => bData_copyTo (by omega)
    _ = (inodeSizes.zip i.values)[j].2 % 256 ^ (inodeSizes.zip i.values)[j].1 := by
        have hmember := member_overlay_pack (m := bData b) (a := rawInode i.iIno) hzip
        rw [zip_values_fst] at hmember
        exact hmember
    _ = v := by
        rw [hget]
        exact Nat.mod_eq_of_lt hlt

theorem member_putInode {j v : Nat} (hj : j < inodeSizes.length)
    (hzone : isDevice i.iMode = false ∨ j ≠ 6) (hv : i.values[j]? = some v)
    (hlt : v < 256 ^ inodeSizes.getD j 0) :
    member inodeSizes j (bData (putInode i b)) (rawInode i.iIno) = v := by
  have hend := offsetOf_le hj
  have hplace := rawInode_le i.iIno
  rw [putInode, image_take]
  split
  · rename_i hdevice
    have hne : j ≠ 6 := hzone.resolve_left (by simp [hdevice])
    have hapart : ∀ j < 15, j ≠ 6 →
        offsetOf inodeSizes j + inodeSizes.getD j 0 ≤ offsetOf minixInodeSizes 6 ∨
          offsetOf minixInodeSizes 6 + 2 ≤ offsetOf inodeSizes j := by
      decide
    rw [member_copyTo_other (by omega)]
    · exact member_image hj hv hlt
    · rw [length_le]
      rcases hapart j hj hne with h | h <;> omega
  · exact member_image hj hv hlt

theorem rawZone_putInode (hdevice : isDevice i.iMode = true) :
    rawZone (bData (putInode i b)) (rawInode i.iIno) 0 = i.iRdev := by
  have hplace := rawInode_le i.iIno
  have hoff : offsetOf minixInodeSizes 6 + 2 ≤ minixInodeSize := by decide
  have hvalue : member minixInodeSizes 6 (bData (putInode i b)) (rawInode i.iIno) =
      i.iRdev.toNat % 256 ^ 2 := by
    refine leAt_of_le _ fun k hk => ?_
    have hk' : k < 2 := hk
    rw [putInode, if_pos hdevice, bData_copyTo (by omega)]
    exact overlay_get (by simpa using hk')
  rw [rawZone]
  change UInt16.ofNat (member minixInodeSizes 6 _ _) = _
  have hlt : i.iRdev.toNat < 256 ^ 2 := UInt16.toNat_lt _
  rw [hvalue, Nat.mod_eq_of_lt hlt, UInt16.ofNat_toNat]

theorem zone_putInode (k : Fin 9) (hdevice : isDevice i.iMode = false) :
    rawZone (bData (putInode i b)) (rawInode i.iIno) k = i.iZone k := by
  have hj : 6 + k.val < inodeSizes.length := by
    have hk := k.isLt
    change 6 + k.val < 15
    omega
  have hsizes : ∀ k : Fin 9, inodeSizes.getD (6 + k) 0 = 2 := by decide
  have hv : i.values[6 + k.val]? = some (i.iZone k).toNat := by
    rw [Inode.values, List.getElem?_append_right (Nat.le_add_right 6 k)]
    change (List.ofFn fun k => (i.iZone k).toNat)[6 + k.val - 6]? = _
    rw [Nat.add_sub_cancel_left, List.getElem?_ofFn, dif_pos k.isLt]
  have hvalue := member_putInode (b := b) hj (Or.inl hdevice) hv
    (by rw [hsizes]; exact UInt16.toNat_lt _)
  change UInt16.ofNat (member inodeSizes (6 + k.val) _ _) = _
  rw [hvalue, UInt16.ofNat_toNat]

theorem copyFrom_putInode (r : Inode) :
    let r' := r.copyFrom (bData (putInode i b)) (rawInode i.iIno)
    r'.iMode = i.iMode ∧ r'.iUid = i.iUid ∧ r'.iSize = i.iSize ∧ r'.iMtime = i.iMtime ∧
      r'.iGid = i.iGid ∧ r'.iNlink = i.iNlink := by
  have hmember := fun j hj hne v hv hlt =>
    member_putInode (i := i) (b := b) (j := j) (v := v) hj (Or.inr hne) hv hlt
  simp only [Inode.copyFrom]
  rw [hmember 0 (by decide) (by decide) _ rfl (UInt16.toNat_lt _),
    hmember 1 (by decide) (by decide) _ rfl (UInt16.toNat_lt _),
    hmember 2 (by decide) (by decide) _ rfl (UInt32.toNat_lt _),
    hmember 3 (by decide) (by decide) _ rfl (UInt32.toNat_lt _),
    hmember 4 (by decide) (by decide) _ rfl (UInt8.toNat_lt _),
    hmember 5 (by decide) (by decide) _ rfl (UInt8.toNat_lt _)]
  simp

end Members

section Calls

variable {i j : Inode} {d : Disks}

theorem in_range (hino : i.iIno ≠ 0) (hle : i.iIno ≤ i.iSb.sNinodes) :
    ¬(i.iIno = 0 ∨ i.iSb.sNinodes < i.iIno) := by
  rintro (h | h)
  · exact hino h
  · exact absurd hle (UInt16.not_le.mpr h)

theorem minixUpdateInode_block (hino : i.iIno ≠ 0) (hle : i.iIno ≤ i.iSb.sNinodes)
    (hread : d.ioError i.iDev.toNat (inodeBlock i.iSb i.iIno).toNat = false) :
    ∃ b, (minixUpdateInode i d).2.2.bread i.iDev (inodeBlock i.iSb i.iIno) =
      some (putInode i b) := by
  have hbad := in_range hino hle
  have hbread : d.bread i.iDev (inodeBlock i.iSb i.iIno) =
      some (d.flat i.iDev.toNat (inodeBlock i.iSb i.iIno).toNat) := by
    rw [Disks.bread, hread]
    rfl
  refine ⟨d.flat i.iDev.toNat (inodeBlock i.iSb i.iIno).toNat, ?_⟩
  simp only [minixUpdateInode, if_neg hbad, hbread]
  rw [Disks.bread]
  dsimp only
  rw [hread, Flat.put_same]
  rfl

theorem minixSetOps_eq (i : Inode) : ∃ op, minixSetOps i = { i with iOp := op } := by
  unfold minixSetOps
  split
  · exact ⟨_, rfl⟩
  split
  · exact ⟨_, rfl⟩
  split
  · exact ⟨_, rfl⟩
  split
  · exact ⟨_, rfl⟩
  split
  · exact ⟨_, rfl⟩
  · exact ⟨i.iOp, rfl⟩

theorem Restored.setOps {r : Inode} (h : Restored i r) : Restored i (minixSetOps r) := by
  obtain ⟨op, hop⟩ := minixSetOps_eq r
  rw [hop]
  exact ⟨h.mode, h.uid, h.size, h.mtime, h.gid, h.nlink, h.zone, h.rdev⟩

theorem minixReadInode_restored {b : Block} (hino : i.iIno ≠ 0) (hle : i.iIno ≤ i.iSb.sNinodes)
    (hj : j.iIno = i.iIno) (hdev : j.iDev = i.iDev) (hsb : j.iSb = i.iSb)
    (hread : d.bread i.iDev (inodeBlock i.iSb i.iIno) = some (putInode i b)) :
    Restored i (minixReadInode j d) := by
  have hbad := in_range hino hle
  obtain ⟨hmode, huid, hsize, hmtime, hgid, hnlink⟩ :=
    copyFrom_putInode (i := i) (b := b) { j with iOp := none, iMode := 0 }
  rw [minixReadInode]
  simp only [hj, hdev, hsb, if_neg hbad, hread]
  refine Restored.setOps ?_
  split
  · rename_i hdevice
    have hdevice' : isDevice i.iMode = true := hmode ▸ hdevice
    refine ⟨hmode, huid, hsize, hmtime, hgid, hnlink, fun hfalse => ?_, fun _ => ?_⟩
    · rw [hdevice'] at hfalse
      cases hfalse
    · exact rawZone_putInode hdevice'
  · rename_i hdevice
    have hdevice' : isDevice i.iMode = false := hmode ▸ eq_false_of_ne_true hdevice
    refine ⟨hmode, huid, hsize, hmtime, hgid, hnlink, fun _ => ?_, fun htrue => ?_⟩
    · funext k
      exact zone_putInode k hdevice'
    · rw [hdevice'] at htrue
      cases htrue

theorem putInode_other {b : Block} {k : Nat} (hk : k < blockSize)
    (hother : k < rawInode i.iIno ∨ rawInode i.iIno + minixInodeSize ≤ k) :
    bData (putInode i b) k = bData b k := by
  have hoff : offsetOf minixInodeSizes 6 + 2 ≤ minixInodeSize := by decide
  have himage : bData (copyTo (rawInode i.iIno) i.image b) k = bData b k := by
    rw [bData_copyTo hk]
    refine overlay_other ?_
    rw [length_image]
    exact hother
  rw [putInode, image_take]
  split
  · rw [bData_copyTo hk, overlay_other]
    · exact himage
    · rw [length_le]
      omega
  · exact himage

theorem minixUpdateInode_other {dev : UInt16} {sb : MinixSbInfo} {n : UInt16}
    (h : dev = i.iDev → sb = i.iSb ∧ n ≠ i.iIno) :
    storedInode (minixUpdateInode i d).2.2 dev sb n = storedInode d dev sb n := by
  funext k
  have hk := k.isLt
  have hplace := rawInode_le n
  have hsize : minixInodeSize = 32 := by decide
  rw [minixUpdateInode]
  split
  · rfl
  dsimp only
  cases hread : d.bread i.iDev (inodeBlock i.iSb i.iIno) with
  | none => rfl
  | some bh =>
      have hbh : d.flat i.iDev.toNat (inodeBlock i.iSb i.iIno).toNat = bh := by
        rw [Disks.bread] at hread
        split at hread
        · cases hread
        · exact Option.some.inj hread
      rw [storedInode, storedInode]
      dsimp only
      by_cases hblock : dev.toNat = i.iDev.toNat ∧
          (inodeBlock sb n).toNat = (inodeBlock i.iSb i.iIno).toNat
      · -- the block of the inode: the two places are apart
        obtain ⟨hdev, hblk⟩ := hblock
        obtain ⟨rfl, hne⟩ := h (UInt16.toNat_inj.mp hdev)
        have hapart : ¬(rawInode n < rawInode i.iIno + minixInodeSize ∧
            rawInode i.iIno < rawInode n + minixInodeSize) := fun hboth =>
          hne (place_inj (UInt16.toNat_inj.mp hblk) hboth.1 hboth.2)
        rw [hdev, hblk, Flat.put_same, hbh]
        exact putInode_other (by omega) (by omega)
      · rw [Flat.put_ne _ _ hblock]

end Calls

theorem modify_stores {s : Buffers} {flat : Flat} {bh : Bh} {i : Inode} (hino : i.iIno ≠ 0)
    (hle : i.iIno ≤ i.iSb.sNinodes) (hdev : (s.buffers bh).bDev = i.iDev.toNat)
    (hblock : (s.buffers bh).bBlocknr = (inodeBlock i.iSb i.iIno).toNat) :
    (CacheOp.modify bh (putInode i)).stores s flat =
      (minixUpdateInode i { flat := flat, ioError := fun _ _ => false }).2.2.flat := by
  have hbad := in_range hino hle
  rw [minixUpdateInode, if_neg hbad, CacheOp.stores, hdev, hblock]
  rfl

/-- **An inode is written back.**  When the block of an inode can be read, what
`minix_update_inode` stores is what `minix_read_inode` reads into any inode of that
number: the members on the disk, and for a special file the number of the device in
place of the zones.  The bytes of every other inode, on any device, stay. -/
theorem inode_written_back
    {i : Inode} {d : Disks}
    (hino : i.iIno ≠ 0)
    (hle : i.iIno ≤ i.iSb.sNinodes)
    (hread : d.ioError i.iDev.toNat (inodeBlock i.iSb i.iIno).toNat = false) :
    (∀ j : Inode, j.iIno = i.iIno → j.iDev = i.iDev → j.iSb = i.iSb →
        Restored i (minixReadInode j (minixUpdateInode i d).2.2)) ∧
      ∀ dev sb n, (dev = i.iDev → sb = i.iSb ∧ n ≠ i.iIno) →
        storedInode (minixUpdateInode i d).2.2 dev sb n = storedInode d dev sb n := by
  refine ⟨fun j hj hdev hsb => ?_, fun dev sb n h => minixUpdateInode_other h⟩
  obtain ⟨b, hb⟩ := minixUpdateInode_block hino hle hread
  exact minixReadInode_restored hino hle hj hdev hsb hb

/-- Inode 33 of a small file system, a terminal. -/
def terminalInode : Inode where
  iMode := 0o020620
  iUid := 0
  iSize := 0
  iMtime := 1000000
  iGid := 4
  iNlink := 1
  iZone := fun _ => 0
  iIno := 33
  iDev := 0x380
  iRdev := 0x400
  iAtime := 0
  iCtime := 0
  iOp := some .chrdev
  iSb := { sNinodes := 96, sImapBlocks := 1, sZmapBlocks := 1 }
  iDirt := true

/-- Its block is on an empty disk. -/
theorem inode_written_back_terminal :
    (∀ j : Inode, j.iIno = 33 → j.iDev = 0x380 →
        j.iSb = { sNinodes := 96, sImapBlocks := 1, sZmapBlocks := 1 } →
        Restored terminalInode (minixReadInode j
          (minixUpdateInode terminalInode
            { flat := fun _ _ => zeroBlock, ioError := fun _ _ => false }).2.2)) ∧
      ∀ dev sb n, (dev = 0x380 →
          sb = { sNinodes := 96, sImapBlocks := 1, sZmapBlocks := 1 } ∧ n ≠ 33) →
        storedInode (minixUpdateInode terminalInode
            { flat := fun _ _ => zeroBlock, ioError := fun _ _ => false }).2.2 dev sb n =
          storedInode { flat := fun _ _ => zeroBlock, ioError := fun _ _ => false } dev sb n :=
  inode_written_back (i := terminalInode) (by decide) (by decide) rfl

end WriteBack
end Minix
end Elks
