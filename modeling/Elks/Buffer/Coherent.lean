import Elks.Buffer.Core

/-!
# When the cache holds a block store

`Coherent good flat c` relates the core of the cache to a plain store of
blocks: valid buffers hold the bytes of the store, and so does every disk block
that no dirty buffer covers.

`Coherent.change` is the one argument behind everything that happens to a
single buffer: it is enough to look at that buffer's own block.  Counting
references, writing back, reading in and storing new bytes are its instances;
`Coherent.tag` is the reuse of a spare head for another block.
-/

namespace Elks
namespace Buffer

open Lib

/-- A plain store of blocks, by device and block number. -/
abbrev Flat := Nat → Nat → Block

/-- Store a block. -/
def Flat.put (flat : Flat) (dev block : Nat) (b : Block) : Flat :=
  Function.update flat dev (Function.update (flat dev) block b)

theorem Flat.put_same (flat : Flat) (dev block : Nat) (b : Block) :
    flat.put dev block b dev block = b := by
  simp [Flat.put]

theorem Flat.put_ne (flat : Flat) {dev block d k : Nat} (b : Block) (h : ¬(d = dev ∧ k = block)) :
    flat.put dev block b d k = flat d k := by
  unfold Flat.put
  by_cases hd : d = dev
  · subst hd
    have hk : k ≠ block := fun hk => h ⟨rfl, hk⟩
    rw [Function.update_self, Function.update_of_ne hk]
  · rw [Function.update_of_ne hd]

/-- The cache and its disks together hold the block store `flat`; the devices
in use are `good`. -/
structure Coherent (good : Nat → Prop) (flat : Flat) (c : Core) : Prop where
  devices : ∀ dev, good dev → c.Good dev
  unlocked : ∀ bh, (c.heads bh).bLock = false
  count_lt : ∀ bh, (c.heads bh).bCount < 2 ^ 16
  unique : ∀ b b', (c.heads b).bDev ≠ 0 →
    (c.heads b).bDev = (c.heads b').bDev →
    (c.heads b).bBlocknr = (c.heads b').bBlocknr → b = b'
  seg : ∀ bh, (c.heads bh).bDev ≠ 0 → (c.heads bh).bSeg = c.ds
  good : ∀ bh, (c.heads bh).bDev ≠ 0 → good (c.heads bh).bDev
  used : ∀ bh, (c.heads bh).bUptodate = true → (c.heads bh).bDev ≠ 0
  dirty : ∀ bh, (c.heads bh).bDirty = true →
    (c.heads bh).bUptodate = true ∧ (c.heads bh).bDev ≠ 0
  content : ∀ bh, (c.heads bh).bDev ≠ 0 → (c.heads bh).bUptodate = true →
    c.content bh = flat (c.heads bh).bDev (c.heads bh).bBlocknr
  disk : ∀ dev block, dev ≠ 0 →
    (∀ bh, (c.heads bh).bDev = dev → (c.heads bh).bBlocknr = block →
      (c.heads bh).bDirty = false) →
    c.disk dev block = flat dev block

/-- `c'` is `c` with some heads clean that were dirty. -/
structure Cleaner (c c' : Core) : Prop where
  heads : ∀ bh, c'.heads bh =
    { c.heads bh with bDirty := (c'.heads bh).bDirty }
  clean : ∀ bh, (c.heads bh).bDirty = false → (c'.heads bh).bDirty = false
  ds : c'.ds = c.ds
  requestFn : c'.requestFn = c.requestFn
  ioError : c'.ioError = c.ioError

theorem Cleaner.refl (c : Core) : Cleaner c c :=
  ⟨fun _ => rfl, fun _ h => h, rfl, rfl, rfl⟩

theorem Cleaner.trans {c c' c'' : Core} (h : Cleaner c c') (h' : Cleaner c' c'') :
    Cleaner c c'' where
  heads := by
    intro bh
    have h₁ := h'.heads bh
    rw [h.heads bh] at h₁
    exact h₁
  clean := fun bh hc => h'.clean bh (h.clean bh hc)
  ds := h'.ds.trans h.ds
  requestFn := h'.requestFn.trans h.requestFn
  ioError := h'.ioError.trans h.ioError

section Steps

variable {good : Nat → Prop} {flat : Flat} {c : Core} {bh : Bh}

theorem Coherent.disk_of_clean (hc : Coherent good flat c) (hdev : (c.heads bh).bDev ≠ 0)
    (hclean : (c.heads bh).bDirty = false) :
    c.disk (c.heads bh).bDev (c.heads bh).bBlocknr =
      flat (c.heads bh).bDev (c.heads bh).bBlocknr := by
  refine hc.disk _ _ hdev ?_
  intro b hd hb
  have hbb : bh = b := hc.unique bh b hdev hd.symm hb.symm
  rw [← hbb]
  exact hclean

/-- `c'` is `c` but for the flags, the count and the bytes of one buffer and
the disk block behind it. -/
structure OneBuffer (bh : Bh) (c c' : Core) : Prop where
  others : ∀ b, b ≠ bh → c'.heads b = c.heads b
  contents : ∀ b, b ≠ bh → c'.content b = c.content b
  dev : (c'.heads bh).bDev = (c.heads bh).bDev
  blocknr : (c'.heads bh).bBlocknr = (c.heads bh).bBlocknr
  seg : (c'.heads bh).bSeg = (c.heads bh).bSeg
  unlocked : (c'.heads bh).bLock = false
  count_lt : (c'.heads bh).bCount < 2 ^ 16
  disk : ∀ d k, ¬(d = (c.heads bh).bDev ∧ k = (c.heads bh).bBlocknr) →
    c'.disk d k = c.disk d k
  ds : c'.ds = c.ds
  requestFn : c'.requestFn = c.requestFn
  ioError : c'.ioError = c.ioError

theorem Coherent.change {flat' : Flat} {c' : Core}
    (hc : Coherent good flat c) (h : OneBuffer bh c c')
    (hflat : ∀ d k, ¬(d = (c.heads bh).bDev ∧ k = (c.heads bh).bBlocknr) →
      flat' d k = flat d k)
    (hused : (c'.heads bh).bUptodate = true → (c.heads bh).bDev ≠ 0)
    (hdirty : (c'.heads bh).bDirty = true →
      (c'.heads bh).bUptodate = true ∧ (c.heads bh).bDev ≠ 0)
    (hcontent : (c.heads bh).bDev ≠ 0 → (c'.heads bh).bUptodate = true →
      c'.content bh = flat' (c.heads bh).bDev (c.heads bh).bBlocknr)
    (hdisk : (c.heads bh).bDev ≠ 0 → (c'.heads bh).bDirty = false →
      c'.disk (c.heads bh).bDev (c.heads bh).bBlocknr =
        flat' (c.heads bh).bDev (c.heads bh).bBlocknr) :
    Coherent good flat' c' := by
  have hdevs : ∀ b, (c'.heads b).bDev = (c.heads b).bDev := by
    intro b
    by_cases hb : b = bh
    · rw [hb, h.dev]
    · rw [h.others b hb]
  have hblks : ∀ b, (c'.heads b).bBlocknr = (c.heads b).bBlocknr := by
    intro b
    by_cases hb : b = bh
    · rw [hb, h.blocknr]
    · rw [h.others b hb]
  constructor
  · intro d hd
    have hgood := hc.devices d hd
    unfold Core.Good at hgood ⊢
    rw [h.requestFn, h.ioError]
    exact hgood
  · intro b
    by_cases hb : b = bh
    · rw [hb]
      exact h.unlocked
    · rw [h.others b hb]
      exact hc.unlocked b
  · intro b
    by_cases hb : b = bh
    · rw [hb]
      exact h.count_lt
    · rw [h.others b hb]
      exact hc.count_lt b
  · intro b b'
    rw [hdevs, hdevs, hblks, hblks]
    exact hc.unique b b'
  · intro b hne
    rw [hdevs] at hne
    rw [h.ds]
    by_cases hb : b = bh
    · rw [hb, h.seg]
      exact hc.seg bh (hb ▸ hne)
    · rw [h.others b hb]
      exact hc.seg b hne
  · intro b
    rw [hdevs]
    exact hc.good b
  · intro b hup
    rw [hdevs]
    by_cases hb : b = bh
    · subst hb
      exact hused hup
    · rw [h.others b hb] at hup
      exact hc.used b hup
  · intro b hd
    rw [hdevs]
    by_cases hb : b = bh
    · subst hb
      exact hdirty hd
    · rw [h.others b hb] at hd ⊢
      exact hc.dirty b hd
  · intro b hne hup
    rw [hdevs] at hne
    rw [hdevs, hblks]
    by_cases hb : b = bh
    · subst hb
      exact hcontent hne hup
    · have hother : ¬((c.heads b).bDev = (c.heads bh).bDev ∧
          (c.heads b).bBlocknr = (c.heads bh).bBlocknr) := by
        rintro ⟨h₁, h₂⟩
        exact hb (hc.unique b bh hne h₁ h₂)
      rw [h.others b hb] at hup
      rw [h.contents b hb, hflat _ _ hother]
      exact hc.content b hne hup
  · intro d k hne hall
    by_cases hblock : d = (c.heads bh).bDev ∧ k = (c.heads bh).bBlocknr
    · obtain ⟨rfl, rfl⟩ := hblock
      exact hdisk hne (hall bh h.dev h.blocknr)
    · rw [h.disk d k hblock, hflat d k hblock]
      refine hc.disk d k hne ?_
      intro b hd hk
      have hb : b ≠ bh := by
        rintro rfl
        exact hblock ⟨hd.symm, hk.symm⟩
      have hclean := hall b
      rw [h.others b hb] at hclean
      exact hclean hd hk

theorem Coherent.setCount (hc : Coherent good flat c) {f : Nat → Nat} (hf : ∀ n, f n < 2 ^ 16) :
    Coherent good flat (c.setHead bh fun h => { h with bCount := f h.bCount }) := by
  have hself :
      (c.setHead bh fun h => { h with bCount := f h.bCount }).heads bh =
        { c.heads bh with bCount := f (c.heads bh).bCount } := by
    simp [Core.setHead]
  have hone : OneBuffer bh c
      (c.setHead bh fun h => { h with bCount := f h.bCount }) := by
    refine ⟨?_, fun _ _ => rfl, ?_, ?_, ?_, ?_, ?_, fun _ _ _ => rfl, rfl, rfl,
      rfl⟩
    · intro b hb
      simp [Core.setHead, hb]
    · rw [hself]
    · rw [hself]
    · rw [hself]
    · rw [hself]
      exact hc.unlocked bh
    · rw [hself]
      exact hf _
  refine hc.change hone (fun _ _ _ => rfl) ?_ ?_ ?_ ?_
  · rw [hself]
    exact hc.used bh
  · rw [hself]
    exact hc.dirty bh
  · rw [hself]
    exact hc.content bh
  · rw [hself]
    exact hc.disk_of_clean

theorem Coherent.oneBuffer_serve (hc : Coherent good flat c) (bh : Bh) (rw : Rw) :
    OneBuffer bh c (c.serve rw bh) ∧
      (c.serve rw bh).heads bh =
        { c.heads bh with bDirty := false, bUptodate := true } := by
  have hself : (c.serve rw bh).heads bh =
      { c.heads bh with bDirty := false, bUptodate := true } := by
    cases rw <;>
      simp [Core.serve, Core.setHead, Core.putDisk, Core.putContent,
        hc.unlocked bh]
  refine ⟨?_, hself⟩
  refine
    { others := ?_
      contents := ?_
      dev := by rw [hself]
      blocknr := by rw [hself]
      seg := by rw [hself]
      unlocked := by rw [hself]; exact hc.unlocked bh
      count_lt := by rw [hself]; exact hc.count_lt bh
      disk := ?_
      ds := by cases rw <;> rfl
      requestFn := by cases rw <;> rfl
      ioError := by cases rw <;> rfl }
  · intro b hb
    cases rw <;>
      simp [Core.serve, Core.setHead, Core.putDisk, Core.putContent, hb]
  · intro b hb
    cases rw with
    | read => simp [Core.serve, Core.setHead, Core.putContent, hb]
    | write => rfl
  · intro d k hblock
    cases rw with
    | read => rfl
    | write => exact Flat.put_ne c.disk (c.content bh) hblock

theorem Coherent.flush (hc : Coherent good flat c) (hdirty : (c.heads bh).bDirty = true) :
    Coherent good flat (c.serve .write bh) ∧ Cleaner c (c.serve .write bh) ∧
      ((c.serve .write bh).heads bh).bDirty = false := by
  obtain ⟨hup, hdev⟩ := hc.dirty bh hdirty
  obtain ⟨hone, hself⟩ := hc.oneBuffer_serve bh .write
  have hclean : ((c.serve .write bh).heads bh).bDirty = false := by
    rw [hself]
  refine ⟨?_, ?_, hclean⟩
  · refine hc.change hone (fun _ _ _ => rfl) (fun _ => hdev) ?_ ?_ ?_
    · intro h
      rw [hclean] at h
      cases h
    · intro _ _
      exact hc.content bh hdev hup
    · intro _ _
      exact (Flat.put_same c.disk _ _ _).trans (hc.content bh hdev hup)
  · refine ⟨?_, ?_, hone.ds, hone.requestFn, hone.ioError⟩
    · intro b
      by_cases hb : b = bh
      · subst hb
        rw [hself, ← hup]
      · rw [hone.others b hb]
    · intro b h
      by_cases hb : b = bh
      · subst hb
        exact hclean
      · rw [hone.others b hb]
        exact h

theorem Coherent.readIn (hc : Coherent good flat c) (hdev : (c.heads bh).bDev ≠ 0)
    (hup : (c.heads bh).bUptodate = false) :
    Coherent good flat (c.serve .read bh) ∧
      (c.serve .read bh).content bh =
        flat (c.heads bh).bDev (c.heads bh).bBlocknr ∧
      (c.serve .read bh).heads bh = { c.heads bh with bUptodate := true } := by
  obtain ⟨hone, hself⟩ := hc.oneBuffer_serve bh .read
  have hclean : (c.heads bh).bDirty = false := by
    by_contra hd
    have h := (hc.dirty bh (by simpa using hd)).1
    rw [hup] at h
    cases h
  have hdisk := hc.disk_of_clean hdev hclean
  have hcontent : (c.serve .read bh).content bh =
      flat (c.heads bh).bDev (c.heads bh).bBlocknr := by
    simpa [Core.serve, Core.setHead, Core.putContent] using hdisk
  refine ⟨?_, hcontent, ?_⟩
  · refine hc.change hone (fun _ _ _ => rfl) (fun _ => hdev) ?_
      (fun _ _ => hcontent) (fun _ _ => hdisk)
    intro h
    rw [hself] at h
    cases h
  · rw [hself, ← hclean]

theorem Coherent.edit {b : Block} (hc : Coherent good flat c) (hdev : (c.heads bh).bDev ≠ 0) :
    Coherent good (flat.put (c.heads bh).bDev (c.heads bh).bBlocknr b)
      ((c.putContent bh b).setHead bh
        fun h => { h with bUptodate := true, bDirty := true }) := by
  let c' := (c.putContent bh b).setHead bh
    fun h => { h with bUptodate := true, bDirty := true }
  have hself : c'.heads bh =
      { c.heads bh with bUptodate := true, bDirty := true } := by
    simp [c', Core.setHead, Core.putContent]
  have hone : OneBuffer bh c c' := by
    refine ⟨?_, ?_, ?_, ?_, ?_, ?_, ?_, fun _ _ _ => rfl, rfl, rfl, rfl⟩
    · intro b' hb
      simp [c', Core.setHead, Core.putContent, hb]
    · intro b' hb
      simp [c', Core.setHead, Core.putContent, hb]
    · rw [hself]
    · rw [hself]
    · rw [hself]
    · rw [hself]
      exact hc.unlocked bh
    · rw [hself]
      exact hc.count_lt bh
  refine hc.change hone (fun d k hblock => Flat.put_ne flat b hblock)
    (fun _ => hdev) ?_ ?_ ?_
  · intro _
    rw [hself]
    exact ⟨rfl, hdev⟩
  · intro _ _
    rw [Flat.put_same]
    simp [Core.setHead, Core.putContent]
  · intro _ h
    rw [hself] at h
    cases h

/-- What `get_free_buffer` returns. -/
structure Spare (h : BufferHead) : Prop where
  count : h.bCount = 0
  clean : h.bDirty = false

/-- What the end of `getblk` does to the core. -/
def Core.tag (c : Core) (bh : Bh) (dev block : Nat) : Core :=
  c.setHead bh fun h =>
    { h with
      bCount := 1
      bDirty := false
      bLock := false
      bUptodate := false
      bDev := dev
      bBlocknr := block
      bSeg := c.ds }

theorem Coherent.tag {dev block : Nat} (hc : Coherent good flat c) (hspare : Spare (c.heads bh))
    (hgood : good dev) (hnew : ∀ b, ¬((c.heads b).bDev = dev ∧ (c.heads b).bBlocknr = block)) :
    Coherent good flat (c.tag bh dev block) := by
  have hself : (c.tag bh dev block).heads bh =
      { c.heads bh with
        bCount := 1
        bDirty := false
        bLock := false
        bUptodate := false
        bDev := dev
        bBlocknr := block
        bSeg := c.ds } := by
    simp [Core.tag, Core.setHead]
  have hother : ∀ b, b ≠ bh → (c.tag bh dev block).heads b = c.heads b := by
    intro b hb
    simp [Core.tag, Core.setHead, hb]
  constructor
  · exact hc.devices
  · intro b
    by_cases hb : b = bh
    · subst hb
      rw [hself]
    · rw [hother b hb]
      exact hc.unlocked b
  · intro b
    by_cases hb : b = bh
    · subst hb
      rw [hself]
      exact (by decide : 1 < 2 ^ 16)
    · rw [hother b hb]
      exact hc.count_lt b
  · intro b b' hne hdev hblk
    by_cases hb : b = bh <;> by_cases hb' : b' = bh
    · rw [hb, hb']
    · subst hb
      rw [hself, hother b' hb'] at hdev hblk
      exact absurd ⟨hdev.symm, hblk.symm⟩ (hnew b')
    · subst hb'
      rw [hself, hother b hb] at hdev hblk
      exact absurd ⟨hdev, hblk⟩ (hnew b)
    · rw [hother b hb] at hne hdev hblk
      rw [hother b' hb'] at hdev hblk
      exact hc.unique b b' hne hdev hblk
  · intro b hne
    by_cases hb : b = bh
    · subst hb
      rw [hself]
      rfl
    · rw [hother b hb] at hne ⊢
      exact hc.seg b hne
  · intro b hne
    by_cases hb : b = bh
    · subst hb
      rw [hself]
      exact hgood
    · rw [hother b hb] at hne ⊢
      exact hc.good b hne
  · intro b hup
    by_cases hb : b = bh
    · subst hb
      rw [hself] at hup
      cases hup
    · rw [hother b hb] at hup ⊢
      exact hc.used b hup
  · intro b hdirty
    by_cases hb : b = bh
    · subst hb
      rw [hself] at hdirty
      cases hdirty
    · rw [hother b hb] at hdirty ⊢
      exact hc.dirty b hdirty
  · intro b hne hup
    by_cases hb : b = bh
    · subst hb
      rw [hself] at hup
      cases hup
    · rw [hother b hb] at hne hup ⊢
      exact hc.content b hne hup
  · intro d k hne hall
    refine hc.disk d k hne ?_
    intro b hd hk
    by_cases hb : b = bh
    · subst hb
      exact hspare.clean
    · have h := hall b
      rw [hother b hb] at h
      exact h hd hk

end Steps

end Buffer
end Elks
