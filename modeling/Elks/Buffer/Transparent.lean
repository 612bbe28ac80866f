import Elks.Buffer.Coherent
import Mathlib.Data.Finset.Card
import Mathlib.Data.Fintype.Card

/-!
# The buffer cache is transparent

One task on devices that do their transfers at once sees the cache as a plain
store of blocks.

* Each function of the cache keeps the cache coherent with that store
  (`syncBuffers_quietly`, `getFreeBuffer_quietly`, `getblk_quietly`,
  `bread_quietly`).
* A free head can always be found: once the dirty buffers are flushed, fewer
  than `NR_BUFFERS - NR_MAPBUFS` heads are held and at most `NR_MAPBUFS` are in
  L1 (`exists_free`).
* `cacheRun_transparent` puts this together for whole sequences of calls.
-/

namespace Elks
namespace Buffer

open Lib

theorem wrapSub_wrap_succ {n : Nat} (hn : n < 2 ^ 16) : wrapSub 16 (wrap 16 (n + 1)) 1 = n := by
  unfold wrapSub wrap
  omega

section Sync

variable {good : Nat → Prop} {flat : Flat} {s : Buffers} {bh : Bh} {fuel dev : Nat} {wait : Bool}

theorem incCount_quietly (hs : Quiet s) :
    Quietly (incCount bh) s fun _ c =>
      c = s.core.setHead bh fun h => { h with bCount := wrap 16 (h.bCount + 1) } :=
  updHead_quietly ⟨fun _ => rfl, fun _ => rfl, fun _ => rfl⟩ hs

theorem decCount_quietly (hs : Quiet s) :
    Quietly (decCount bh) s fun _ c =>
      c = s.core.setHead bh fun h => { h with bCount := wrapSub 16 h.bCount 1 } :=
  updHead_quietly ⟨fun _ => rfl, fun _ => rfl, fun _ => rfl⟩ hs

theorem serve_between_counts {c : Core} (hn : (c.heads bh).bCount < 2 ^ 16) :
    (((c.setHead bh fun h => { h with bCount := wrap 16 (h.bCount + 1) }).serve
        .write bh).setHead bh
        fun h => { h with bCount := wrapSub 16 h.bCount 1 }) =
      c.serve .write bh := by
  simp [Core.serve, Core.setHead, Core.putDisk, wrapSub_wrap_succ hn]

theorem syncBuffer_quietly (hfuel : 2 ≤ fuel) (hs : Quiet s) (hc : Coherent good flat s.core) :
    Quietly (syncBuffer fuel dev wait bh) s fun _ c =>
      Coherent good flat c ∧ Cleaner s.core c ∧
        (dev = 0 → (c.heads bh).bDirty = false) := by
  refine quietly_get_bind ?_
  split
  · rename_i hskip
    exact quietly_pure hs ⟨hc, Cleaner.refl _, fun h => absurd h hskip.1⟩
  · split
    · rename_i hclean
      have hdirty : (s.core.heads bh).bDirty = false := by simpa using hclean
      exact quietly_pure hs ⟨hc, Cleaner.refl _, fun _ => hdirty⟩
    · rename_i hclean
      have hdirty : (s.core.heads bh).bDirty = true := by simpa using hclean
      have hlock : (s.buffers bh).bLock = false := hc.unlocked bh
      rw [if_neg (by simp [hlock])]
      refine Quietly.bind (waitOnBuffer_quietly hs (hc.unlocked bh)) ?_
      intro _ s₀ hs₀ h₀
      refine Quietly.bind (incCount_quietly hs₀) ?_
      intro _ s₁ hs₁ h₁
      rw [h₀] at h₁
      have hc₁ : Coherent good flat s₁.core := by
        rw [h₁]
        exact hc.setCount fun _ => wrap_lt 16 _
      have hdirty₁ : (s₁.core.heads bh).bDirty = true := by
        rw [h₁]
        simpa [Core.setHead] using hdirty
      have hdev₁ := (hc₁.dirty bh hdirty₁).2
      refine Quietly.bind
        (llRwBlk_quietly hfuel hs₁ (hc₁.unlocked bh) (hc₁.seg bh hdev₁)
          hdirty₁ (hc₁.devices _ (hc₁.good bh hdev₁))) ?_
      intro _ s₂ hs₂ h₂
      refine Quietly.mono (decCount_quietly hs₂) ?_
      intro _ c h
      have hserve : c = s.core.serve .write bh := by
        rw [h, h₂, h₁]
        exact serve_between_counts (hc.count_lt bh)
      obtain ⟨hc', hcleaner, hclean'⟩ := hc.flush hdirty
      rw [hserve]
      exact ⟨hc', hcleaner, fun _ => hclean'⟩

theorem syncList_quietly (hfuel : 2 ≤ fuel) (l : List Bh) :
    ∀ s, Quiet s → Coherent good flat s.core →
      Quietly (Prog.seqAll (l.map (syncBuffer fuel dev wait))) s fun _ c =>
        Coherent good flat c ∧ Cleaner s.core c ∧
          (dev = 0 → ∀ b ∈ l, (c.heads b).bDirty = false) := by
  induction l with
  | nil =>
      intro s hs hc
      exact quietly_pure hs ⟨hc, Cleaner.refl _, fun _ b hb => by cases hb⟩
  | cons b l ih =>
      intro s hs hc
      refine Quietly.bind (syncBuffer_quietly hfuel hs hc) ?_
      rintro _ s₁ hs₁ ⟨hc₁, hcl₁, hb₁⟩
      refine Quietly.mono (ih s₁ hs₁ hc₁) ?_
      rintro _ c ⟨hc₂, hcl₂, hl₂⟩
      refine ⟨hc₂, hcl₁.trans hcl₂, ?_⟩
      intro hdev b' hb'
      rcases List.mem_cons.mp hb' with rfl | hmem
      · exact hcl₂.clean _ (hb₁ hdev)
      · exact hl₂ hdev b' hmem

theorem syncBuffers_quietly (dev : Nat) (wait : Bool) (hfuel : 2 ≤ fuel)
    (hs : Quiet s) (hc : Coherent good flat s.core) :
    Quietly (syncBuffers fuel dev wait) s fun _ c =>
      Coherent good flat c ∧ Cleaner s.core c ∧
        (dev = 0 → ∀ b, (c.heads b).bDirty = false) :=
  Quietly.mono (syncList_quietly hfuel _ s hs hc) fun _ _ h =>
    ⟨h.1, h.2.1, fun hdev b => h.2.2 hdev b (List.mem_finRange b)⟩

end Sync

/-- The heads that somebody holds. -/
def held (heads : Bh → BufferHead) : Finset Bh :=
  Finset.univ.filter fun bh => 0 < (heads bh).bCount

@[simp] theorem mem_held {heads : Bh → BufferHead} {bh : Bh} :
    bh ∈ held heads ↔ 0 < (heads bh).bCount := by
  simp [held]

section Free

variable {good : Nat → Prop} {flat : Flat} {s : Buffers} {fuel : Nat}

theorem card_mapped_le (hs : TwoLevel s) :
    (Finset.univ.filter fun bh => (s.buffers bh).bData ≠ none).card ≤
      nrMapbufs := by
  have hinj : Set.InjOn (fun bh => ((s.buffers bh).bData).getD 0)
      (Finset.univ.filter fun bh => (s.buffers bh).bData ≠ none) := by
    intro b hb b' hb' heq
    simp only [Finset.coe_filter, Finset.mem_univ, true_and,
      Set.mem_ofPred_eq] at hb hb'
    obtain ⟨i, hi⟩ := Option.ne_none_iff_exists'.mp hb
    obtain ⟨j, hj⟩ := Option.ne_none_iff_exists'.mp hb'
    simp only [hi, hj, Option.getD_some] at heq
    subst heq
    have h₁ := (hs.map_iff i b).mpr hi
    rw [(hs.map_iff i b').mpr hj] at h₁
    exact (Option.some.inj h₁).symm
  have hcard := Finset.card_le_card_of_injOn
    (t := (Finset.univ : Finset Slot)) _ (fun _ _ => Finset.mem_univ _) hinj
  simpa using hcard

theorem exists_free (hs : Quiet s) (hc : Coherent good flat s.core)
    (hclean : ∀ b, (s.core.heads b).bDirty = false)
    (hheld : (held s.core.heads).card < nrBuffers - nrMapbufs) : ∃ bh, s.free bh = true := by
  by_contra hnone
  have hcover : (Finset.univ : Finset Bh) ⊆
      held s.core.heads ∪
        Finset.univ.filter fun bh => (s.buffers bh).bData ≠ none := by
    intro b _
    by_contra hb
    rw [Finset.mem_union, not_or, mem_held, Finset.mem_filter] at hb
    have hcount : (s.buffers b).bCount = 0 := Nat.eq_zero_of_not_pos hb.1
    have hdata : (s.buffers b).bData = none := by
      by_contra h
      exact hb.2 ⟨Finset.mem_univ b, h⟩
    have hdirty : (s.buffers b).bDirty = false := hclean b
    have hlock : (s.buffers b).bLock = false := hc.unlocked b
    exact hnone ⟨b, by simp [Buffers.free, hcount, hdata, hdirty, hlock]⟩
  have hcard := Finset.card_le_card hcover
  have hunion := Finset.card_union_le (held s.core.heads)
    (Finset.univ.filter fun bh => (s.buffers bh).bData ≠ none)
  have hmapped := card_mapped_le hs.twoLevel
  rw [Finset.card_univ, Fintype.card_fin] at hcard
  unfold nrBuffers nrMapbufs at *
  omega

theorem putLastLru_quiet (hs : Quiet s) (bh : Bh) :
    Quiet (s.putLastLru bh) ∧ (s.putLastLru bh).core = s.core := by
  unfold Buffers.putLastLru
  split
  · exact ⟨hs, rfl⟩
  · refine ⟨⟨⟨hs.twoLevel.map_iff, hs.twoLevel.num⟩, hs.queue, hs.inactive, ?_⟩,
      rfl⟩
    intro b
    by_cases hb : b = bh
    · subst hb
      simp
    · refine List.mem_append_left _ ?_
      exact (List.mem_erase_of_ne hb).mpr (hs.lru b)

theorem free_spare {bh : Bh} (h : s.free bh = true) : Spare (s.core.heads bh) := by
  simp only [Buffers.free, decide_eq_true_eq] at h
  exact ⟨h.1, by simpa using h.2.1⟩

theorem takeFree_quietly (hs : Quiet s) :
    Quietly (Prog.atomically Buffers.takeFree) s fun found c =>
      c = s.core ∧
        match found with
        | some bh => Spare (s.core.heads bh)
        | none => ∀ bh, s.free bh = false := by
  simp only [Quietly, Prog.awake_atomically, Buffers.takeFree]
  cases hf : s.lru.find? s.free with
  | some bh =>
      have hfree : s.free bh = true := List.find?_some hf
      obtain ⟨hq, hcore⟩ := putLastLru_quiet hs bh
      exact ⟨hq, hcore, free_spare hfree⟩
  | none =>
      refine ⟨hs, rfl, ?_⟩
      intro bh
      simpa using List.find?_eq_none.mp hf bh (hs.lru bh)

theorem Cleaner.held_eq {c c' : Core} (h : Cleaner c c') : held c'.heads = held c.heads := by
  ext b
  rw [mem_held, mem_held, h.heads b]

theorem getFreeBuffer_quietly {n : Nat} (hfuel : 2 ≤ fuel)
    (hs : Quiet s) (hc : Coherent good flat s.core)
    (hheld : (held s.core.heads).card < nrBuffers - nrMapbufs) :
    Quietly (getFreeBuffer fuel (n + 2)) s fun bh c =>
      Coherent good flat c ∧ Cleaner s.core c ∧ Spare (c.heads bh) := by
  rw [getFreeBuffer]
  refine Quietly.bind (takeFree_quietly hs) ?_
  rintro found s₁ hs₁ ⟨hcore₁, hfound⟩
  have hc₁ : Coherent good flat s₁.core := by
    rw [hcore₁]
    exact hc
  cases found with
  | some bh =>
      refine quietly_pure hs₁ ⟨hc₁, ?_, ?_⟩
      · rw [hcore₁]
        exact Cleaner.refl _
      · rw [hcore₁]
        exact hfound
  | none =>
      refine Quietly.bind (syncBuffers_quietly 0 false hfuel hs₁ hc₁) ?_
      rintro _ s₂ hs₂ ⟨hc₂, hcl₂, hclean₂⟩
      rw [hcore₁] at hcl₂
      rw [getFreeBuffer]
      refine Quietly.bind (takeFree_quietly hs₂) ?_
      rintro found s₃ hs₃ ⟨hcore₃, hfound₃⟩
      cases found with
      | some bh =>
          refine quietly_pure hs₃ ?_
          rw [hcore₃]
          exact ⟨hc₂, hcl₂, hfound₃⟩
      | none =>
          exfalso
          rw [← hcl₂.held_eq] at hheld
          obtain ⟨bh, hfree⟩ := exists_free hs₂ hc₂ (hclean₂ rfl) hheld
          have hbusy := hfound₃ bh
          rw [hfree] at hbusy
          cases hbusy

end Free

section Getblk

variable {good : Nat → Prop} {flat : Flat} {s : Buffers} {fuel dev block : Nat}

theorem findBuffer_some {bh : Bh} (h : s.findBuffer dev block = some bh) :
    (s.core.heads bh).bDev = dev ∧ (s.core.heads bh).bBlocknr = block := by
  have := List.find?_some h
  simp only [decide_eq_true_eq] at this
  exact ⟨this.2, this.1⟩

theorem findBuffer_none_iff :
    s.findBuffer dev block = none ↔
      ∀ b, ¬((s.core.heads b).bDev = dev ∧ (s.core.heads b).bBlocknr = block) := by
  unfold Buffers.findBuffer
  rw [List.find?_eq_none]
  constructor
  · intro h b hb
    have hb' := h b (List.mem_finRange b)
    simp only [decide_eq_true_eq] at hb'
    exact hb' ⟨hb.2, hb.1⟩
  · intro h b _ hb
    simp only [decide_eq_true_eq] at hb
    exact h b ⟨hb.2, hb.1⟩

theorem lookup_quietly {n : Nat} (hs : Quiet s) (hc : Coherent good flat s.core) :
    Quietly (lookup (fuel + 1) dev block (n + 1)) s fun found c =>
      Coherent good flat c ∧
        match found with
        | some bh =>
            (c.heads bh).bDev = dev ∧ (c.heads bh).bBlocknr = block
        | none =>
            c = s.core ∧ ∀ b, ¬((s.core.heads b).bDev = dev ∧
              (s.core.heads b).bBlocknr = block) := by
  rw [lookup]
  cases hf : s.findBuffer dev block with
  | none =>
      have hget : Quietly (getHashTable (fuel + 1) dev block (fuel + 1)) s
          fun found c => found = none ∧ c = s.core := by
        rw [getHashTable]
        refine quietly_get_bind ?_
        rw [hf]
        exact quietly_pure hs ⟨rfl, rfl⟩
      refine Quietly.bind hget ?_
      rintro found s₁ hs₁ ⟨rfl, hcore₁⟩
      refine quietly_get_bind ?_
      have hf₁ : s₁.findBuffer dev block = none := by
        rw [findBuffer_none_iff, hcore₁]
        exact findBuffer_none_iff.mp hf
      rw [hf₁]
      refine quietly_pure hs₁ ?_
      rw [hcore₁]
      exact ⟨hc, rfl, findBuffer_none_iff.mp hf⟩
  | some bh =>
      obtain ⟨hdev, hblk⟩ := findBuffer_some hf
      have hget : Quietly (getHashTable (fuel + 1) dev block (fuel + 1)) s
          fun found c => found = some bh ∧ Coherent good flat c ∧
            (c.heads bh).bDev = dev ∧ (c.heads bh).bBlocknr = block := by
        rw [getHashTable]
        refine quietly_get_bind ?_
        rw [hf]
        refine Quietly.bind (incCount_quietly hs) ?_
        intro _ s₁ hs₁ h₁
        have hc₁ : Coherent good flat s₁.core := by
          rw [h₁]
          exact hc.setCount fun _ => wrap_lt 16 _
        have htag : (s₁.core.heads bh).bDev = dev ∧
            (s₁.core.heads bh).bBlocknr = block := by
          rw [h₁]
          simpa [Core.setHead] using And.intro hdev hblk
        refine Quietly.bind (waitOnBuffer_quietly hs₁ (hc₁.unlocked bh)) ?_
        intro _ s₂ hs₂ h₂
        refine quietly_get_bind ?_
        have htag₂ : (s₂.buffers bh).bDev = dev ∧
            (s₂.buffers bh).bBlocknr = block := by
          rw [← core_bDev, ← core_bBlocknr, h₂]
          exact htag
        rw [if_pos htag₂]
        refine quietly_pure hs₂ ⟨rfl, ?_, htag₂⟩
        rw [h₂]
        exact hc₁
      refine Quietly.bind hget ?_
      rintro found s₁ hs₁ ⟨rfl, hc₁, htag₁⟩
      have htouch : Quietly (touchLru bh) s₁ fun _ c => c = s₁.core := by
        refine quietly_get_bind ?_
        split
        · exact putLastLru_quiet hs₁ bh
        · exact quietly_pure hs₁ rfl
      refine Quietly.bind htouch ?_
      intro _ s₂ hs₂ h₂
      refine quietly_pure hs₂ ?_
      rw [h₂]
      exact ⟨hc₁, htag₁⟩

theorem getblk_quietly (hfuel : 2 ≤ fuel) (hs : Quiet s) (hc : Coherent good flat s.core)
    (hheld : (held s.core.heads).card < nrBuffers - nrMapbufs) (hgood : good dev) :
    Quietly (getblk fuel dev block) s fun bh c =>
      Coherent good flat c ∧ (c.heads bh).bDev = dev ∧
        (c.heads bh).bBlocknr = block := by
  obtain ⟨n, rfl⟩ := Nat.exists_eq_add_of_le' hfuel
  refine Quietly.bind (lookup_quietly hs hc) ?_
  rintro found s₁ hs₁ ⟨hc₁, hfound⟩
  cases found with
  | some bh => exact quietly_pure hs₁ ⟨hc₁, hfound⟩
  | none =>
      obtain ⟨hcore₁, hnew⟩ := hfound
      rw [← hcore₁] at hheld hnew
      refine Quietly.bind (getFreeBuffer_quietly hfuel hs₁ hc₁ hheld) ?_
      rintro bh s₂ hs₂ ⟨hc₂, hcl₂, hspare⟩
      have hnew₂ : ∀ b, ¬((s₂.core.heads b).bDev = dev ∧
          (s₂.core.heads b).bBlocknr = block) := by
        intro b
        rw [hcl₂.heads b]
        exact hnew b
      have htag := hc₂.tag hspare hgood hnew₂
      have hplain : Plain fun h =>
          { h with
            bCount := 1
            bDirty := false
            bLock := false
            bUptodate := false
            bDev := dev
            bBlocknr := block
            bSeg := s₂.ds } :=
        ⟨fun _ => rfl, fun _ => rfl, fun _ => rfl⟩
      have hcore₃ : (s₂.tagHead bh dev block).core = s₂.core.tag bh dev block :=
        core_modHead hplain
      refine Quietly.bind (Q := fun _ c => c = s₂.core.tag bh dev block)
        ⟨quiet_modHead hplain hs₂, hcore₃⟩ ?_
      intro _ s₃ hs₃ h₃
      refine quietly_pure hs₃ ?_
      rw [h₃]
      refine ⟨htag, ?_, ?_⟩
      · simp [Core.tag, Core.setHead]
      · simp [Core.tag, Core.setHead]

end Getblk

section Bread

variable {good : Nat → Prop} {flat : Flat} {s : Buffers} {bh : Bh} {fuel dev block : Nat}

theorem bread_quietly (hfuel : 2 ≤ fuel) (hs : Quiet s) (hc : Coherent good flat s.core)
    (hheld : (held s.core.heads).card < nrBuffers - nrMapbufs) (hdev : dev ≠ 0) (hgood : good dev) :
    Quietly (bread fuel dev block) s fun found c =>
      Coherent good flat c ∧ ∃ bh, found = some bh ∧
        (c.heads bh).bDev = dev ∧ (c.heads bh).bBlocknr = block ∧
        (c.heads bh).bUptodate = true ∧ c.content bh = flat dev block := by
  refine Quietly.bind (getblk_quietly hfuel hs hc hheld hgood) ?_
  rintro bh s₁ hs₁ ⟨hc₁, rfl, rfl⟩
  refine quietly_get_bind ?_
  split
  · rename_i hup
    have hup₁ : (s₁.core.heads bh).bUptodate = true := hup
    exact quietly_pure hs₁
      ⟨hc₁, bh, rfl, rfl, rfl, hup₁, hc₁.content bh hdev hup₁⟩
  · rename_i hup
    have hup₁ : (s₁.core.heads bh).bUptodate = false := by simpa using hup
    obtain ⟨hc₂, hcontent, hhead⟩ := hc₁.readIn hdev hup₁
    have hneeded : Needed (s₁.core.heads bh) .read := hup₁
    refine Quietly.bind
      (llRwBlk_quietly hfuel hs₁ (hc₁.unlocked bh) (hc₁.seg bh hdev)
        hneeded (hc₁.devices _ (hc₁.good bh hdev))) ?_
    intro _ s₂ hs₂ h₂
    rw [← h₂] at hc₂ hcontent hhead
    refine Quietly.bind (waitOnBuffer_quietly hs₂ (hc₂.unlocked bh)) ?_
    intro _ s₃ hs₃ h₃
    rw [← h₃] at hc₂ hcontent hhead
    have hup₃ : (s₃.buffers bh).bUptodate = true := by
      rw [← core_bUptodate, hhead]
    refine quietly_get_bind ?_
    rw [if_pos hup₃]
    refine quietly_pure hs₃ ⟨hc₂, bh, rfl, ?_, ?_, hup₃, hcontent⟩
    · rw [hhead]
    · rw [hhead]

end Bread

/-- Map a buffer and change its bytes through `b_data`. -/
def editBytes (fuel : Nat) (bh : Bh) (f : Block → Block) : Code Unit := do
  mapBuffer fuel bh
  Prog.modify fun s =>
    let d := (s.buffers bh).bData
    s.store d (f (s.deref d))

/-- The calls of the task: reading a block, getblk and a whole-block overwrite,
changing a buffer in place, releasing it, mapping and unmapping it, and
`sync_buffers`. -/
inductive CacheOp
  | bread (dev block : Nat)
  | overwrite (dev block : Nat) (b : Block)
  | modify (bh : Bh) (f : Block → Block)
  | brelse (bh : Bh)
  | mapBuffer (bh : Bh)
  | unmapBuffer (bh : Bh)
  | syncBuffers (dev : Nat) (wait : Bool)

namespace CacheOp

/-- `sync_dev`, with what `sync_supers` and `sync_inodes` do to the cache. -/
def syncDev (dev : Nat) (inner : List CacheOp) : List CacheOp :=
  syncBuffers dev false :: inner ++ [syncBuffers dev false]

/-- `fsync_dev`, with what `sync_supers` and `sync_inodes` do to the cache. -/
def fsyncDev (dev : Nat) (inner : List CacheOp) : List CacheOp :=
  syncBuffers dev false :: inner ++ [syncBuffers dev true]

/-- The code of a call, with the buffer `bread` returns. -/
def code (fuel : Nat) : CacheOp → Code (Option Bh)
  | bread dev block => Buffer.bread fuel dev block
  | overwrite dev block b => do
      let bh ← getblk fuel dev block
      editBytes fuel bh fun _ => b
      markBufferUptodate bh
      markBufferDirty bh
      Buffer.unmapBuffer bh
      pure none
  | modify bh f => do
      editBytes fuel bh f
      markBufferDirty bh
      Buffer.unmapBuffer bh
      pure none
  | brelse bh => do
      Buffer.brelse fuel bh
      pure none
  | mapBuffer bh => do
      Buffer.mapBuffer fuel bh
      pure none
  | unmapBuffer bh => do
      Buffer.unmapBuffer bh
      pure none
  | syncBuffers dev wait => do
      Buffer.syncBuffers fuel dev wait
      pure none

/-- The devices a call names are good. -/
def OnGood (good : Nat → Prop) : CacheOp → Prop
  | bread dev _ => good dev
  | overwrite dev _ _ => good dev
  | _ => True

/-- What the caller keeps to: few buffers are held, and only a buffer that is
held is released or, if it is valid, changed. -/
def Legal (s : Buffers) (op : CacheOp) : Prop :=
  (held s.buffers).card < nrBuffers - nrMapbufs ∧
    match op with
    | modify bh _ => 0 < (s.buffers bh).bCount ∧ (s.buffers bh).bUptodate = true
    | brelse bh => 0 < (s.buffers bh).bCount
    | _ => True

/-- What the call stores in a plain block store. -/
def stores (s : Buffers) (flat : Flat) : CacheOp → Flat
  | overwrite dev block b => flat.put dev block b
  | modify bh f =>
      let h := s.buffers bh
      flat.put h.bDev h.bBlocknr (f (flat h.bDev h.bBlocknr))
  | _ => flat

/-- A `bread` returns a buffer of the block that holds the bytes of the store. -/
def Answers (flat : Flat) (found : Option Bh) (s : Buffers) : CacheOp → Prop
  | bread dev block =>
      ∃ bh, found = some bh ∧ (s.buffers bh).bDev = dev ∧
        (s.buffers bh).bBlocknr = block ∧ s.content bh = flat dev block
  | _ => True

instance (s : Buffers) (op : CacheOp) : Decidable (op.Legal s) :=
  match op with
  | modify _ _ => inferInstanceAs (Decidable (_ ∧ _ ∧ _))
  | brelse _ => inferInstanceAs (Decidable (_ ∧ _))
  | bread _ _ => inferInstanceAs (Decidable (_ ∧ True))
  | overwrite _ _ _ => inferInstanceAs (Decidable (_ ∧ True))
  | mapBuffer _ => inferInstanceAs (Decidable (_ ∧ True))
  | unmapBuffer _ => inferInstanceAs (Decidable (_ ∧ True))
  | syncBuffers _ _ => inferInstanceAs (Decidable (_ ∧ True))

end CacheOp

/-- Every call of the sequence is legal where it is made. -/
def LegalCalls (fuel : Nat) : Buffers → List CacheOp → Prop
  | _, [] => True
  | s, op :: ops =>
      op.Legal s ∧
        match (op.code fuel).run s with
        | .ok r => LegalCalls fuel r.2 ops
        | .error _ => True

instance decidableLegalCalls (fuel : Nat) :
    (s : Buffers) → (ops : List CacheOp) → Decidable (LegalCalls fuel s ops)
  | _, [] => inferInstanceAs (Decidable True)
  | s, op :: ops =>
      have : Decidable
          (match (op.code fuel).run s with
          | .ok r => LegalCalls fuel r.2 ops
          | .error _ => True) :=
        match (op.code fuel).run s with
        | .ok r => decidableLegalCalls fuel r.2 ops
        | .error _ => inferInstanceAs (Decidable True)
      inferInstanceAs (Decidable (_ ∧ _))

/-- Along the sequence every call returns, unless it has to sleep in `map_buffer`, and every
`bread` answers as the plain block store does. -/
def Transparent (fuel : Nat) : Buffers → Flat → List CacheOp → Prop
  | _, _, [] => True
  | s, flat, op :: ops =>
      match (op.code fuel).run s with
      | .ok r =>
          op.Answers flat r.1 r.2 ∧
            Transparent fuel r.2 (op.stores s flat) ops
      | .error f => f = .sleeps ∧ (op.code fuel).sleepsOn s = some .bufmapwait

section Ops

variable {good : Nat → Prop} {flat : Flat} {s : Buffers} {bh : Bh} {fuel : Nat}

theorem editBytes_quietly {f : Block → Block} (hfuel : 2 ≤ fuel) (hs : Quiet s)
    (hseg : (s.core.heads bh).bSeg = s.core.ds) :
    Quietly (editBytes fuel bh f) s fun _ c =>
      c = s.core.putContent bh (f (s.core.content bh)) := by
  simp only [Quietly, editBytes, Prog.awake_bind]
  refine Prog.Awake.mono (mapBuffer_awake hfuel hs.twoLevel) ?_
  intro _ s₁ hstep
  have hs₁ := hstep.step.quiet hs
  obtain ⟨i, hi⟩ := Option.ne_none_iff_exists'.mp (hstep.data hseg)
  have hcontent : s₁.bufmem i = s.core.content bh := by
    rw [← hs₁.twoLevel.content_of_mapped hi]
    exact hstep.step.content bh
  obtain ⟨htwo, hput⟩ :=
    store_content hs₁.twoLevel hi (f (s.core.content bh))
  simp only [Prog.awake_modify, hi, Buffers.deref, hcontent]
  refine ⟨⟨htwo, hs₁.queue, hs₁.inactive, hs₁.lru⟩, ?_⟩
  have hcore : (s₁.store (some i) (f (s.core.content bh))).core =
      s₁.core.putContent bh (f (s.core.content bh)) := by
    ext1
    · rfl
    · exact hput
    · rfl
    · rfl
    · rfl
    · rfl
  rw [hcore, hstep.step.core_eq]

theorem markBufferUptodate_quietly (hs : Quiet s) :
    Quietly (markBufferUptodate bh) s fun _ c =>
      c = s.core.setHead bh fun h => { h with bUptodate := true } :=
  updHead_quietly ⟨fun _ => rfl, fun _ => rfl, fun _ => rfl⟩ hs

theorem markBufferDirty_quietly (hs : Quiet s) :
    Quietly (markBufferDirty bh) s fun _ c =>
      c = s.core.setHead bh fun h => { h with bDirty := true } :=
  updHead_quietly ⟨fun _ => rfl, fun _ => rfl, fun _ => rfl⟩ hs

theorem brelse_quietly (hs : Quiet s) (hc : Coherent good flat s.core)
    (hcount : 0 < (s.buffers bh).bCount) :
    Quietly (brelse fuel bh) s fun _ c => Coherent good flat c := by
  refine Quietly.bind (waitOnBuffer_quietly hs (hc.unlocked bh)) ?_
  intro _ s₁ hs₁ h₁
  refine quietly_get_bind ?_
  have hcount₁ : (s₁.buffers bh).bCount ≠ 0 := by
    rw [← core_bCount, h₁]
    exact Nat.ne_of_gt hcount
  rw [if_neg hcount₁]
  refine Quietly.mono (decCount_quietly hs₁) ?_
  intro _ c h
  rw [h, h₁]
  exact hc.setCount (f := fun n => wrapSub 16 n 1) fun n => wrapSub_lt 16 n 1

theorem overwrite_quietly {dev block : Nat} {b : Block} (hfuel : 2 ≤ fuel)
    (hs : Quiet s) (hc : Coherent good flat s.core)
    (hheld : (held s.core.heads).card < nrBuffers - nrMapbufs) (hdev : dev ≠ 0) (hgood : good dev) :
    Quietly ((CacheOp.overwrite dev block b).code fuel) s fun _ c =>
      Coherent good (flat.put dev block b) c := by
  refine Quietly.bind (getblk_quietly hfuel hs hc hheld hgood) ?_
  rintro bh s₁ hs₁ ⟨hc₁, rfl, rfl⟩
  refine Quietly.bind (editBytes_quietly hfuel hs₁ (hc₁.seg bh hdev)) ?_
  intro _ s₂ hs₂ h₂
  refine Quietly.bind (markBufferUptodate_quietly hs₂) ?_
  intro _ s₃ hs₃ h₃
  refine Quietly.bind (markBufferDirty_quietly hs₃) ?_
  intro _ s₄ hs₄ h₄
  refine Quietly.bind (unmapBuffer_quietly hs₄) ?_
  intro _ s₅ hs₅ h₅
  refine quietly_pure hs₅ ?_
  have hcore : s₅.core = (s₁.core.putContent bh b).setHead bh
      fun h => { h with bUptodate := true, bDirty := true } := by
    rw [h₅, h₄, h₃, h₂]
    simp [Core.setHead]
  rw [hcore]
  exact hc₁.edit hdev

theorem modify_quietly {f : Block → Block} (hfuel : 2 ≤ fuel)
    (hs : Quiet s) (hc : Coherent good flat s.core) (hup : (s.buffers bh).bUptodate = true) :
    Quietly ((CacheOp.modify bh f).code fuel) s fun _ c =>
      Coherent good ((CacheOp.modify bh f).stores s flat) c := by
  have hdev := hc.used bh hup
  refine Quietly.bind (editBytes_quietly hfuel hs (hc.seg bh hdev)) ?_
  intro _ s₁ hs₁ h₁
  refine Quietly.bind (markBufferDirty_quietly hs₁) ?_
  intro _ s₂ hs₂ h₂
  refine Quietly.bind (unmapBuffer_quietly hs₂) ?_
  intro _ s₃ hs₃ h₃
  refine quietly_pure hs₃ ?_
  have hcore : s₃.core =
      (s.core.putContent bh (f (s.core.content bh))).setHead bh
        fun h => { h with bUptodate := true, bDirty := true } := by
    have hup' : (s.core.heads bh).bUptodate = true := hup
    rw [h₃, h₂, h₁]
    simp [Core.setHead, Core.putContent, ← hup']
  have hbytes := hc.content bh hdev hup
  rw [hcore, hbytes]
  exact hc.edit hdev

theorem CacheOp.quietly {op : CacheOp} (hgood : ∀ dev, good dev → dev ≠ 0) (hfuel : 2 ≤ fuel)
    (hs : Quiet s) (hc : Coherent good flat s.core) (hop : op.OnGood good) (hlegal : op.Legal s) :
    Prog.Awake .bufmapwait (op.code fuel) s fun found s' =>
      Quiet s' ∧ Coherent good (op.stores s flat) s'.core ∧
        op.Answers flat found s' := by
  obtain ⟨hheld, hlegal⟩ := hlegal
  have drop : ∀ {p : Code Unit} {Q : Core → Prop},
      Quietly p s (fun _ c => Q c) →
      Quietly (p >>= fun _ => pure (none : Option Bh)) s fun _ c => Q c :=
    fun hp => hp.bind fun _ s' hs' hQ => quietly_pure hs' hQ
  cases op with
  | bread dev block =>
      refine Prog.Awake.mono
        (bread_quietly hfuel hs hc hheld (hgood dev hop) hop) ?_
      rintro found s' ⟨hs', hc', bh, hfound, hdev, hblk, -, hcontent⟩
      exact ⟨hs', hc', bh, hfound, hdev, hblk, hcontent⟩
  | overwrite dev block b =>
      exact Prog.Awake.mono
        (overwrite_quietly hfuel hs hc hheld (hgood dev hop) hop)
        fun _ _ h => ⟨h.1, h.2, trivial⟩
  | modify bh f =>
      exact Prog.Awake.mono (modify_quietly hfuel hs hc hlegal.2)
        fun _ _ h => ⟨h.1, h.2, trivial⟩
  | brelse bh =>
      exact Prog.Awake.mono (drop (brelse_quietly hs hc hlegal))
        fun _ _ h => ⟨h.1, h.2, trivial⟩
  | mapBuffer bh =>
      refine Prog.Awake.mono (drop (mapBuffer_quietly hfuel hs)) ?_
      rintro _ s' ⟨hs', hcore⟩
      exact ⟨hs', hcore ▸ hc, trivial⟩
  | unmapBuffer bh =>
      refine Prog.Awake.mono (drop (unmapBuffer_quietly hs)) ?_
      rintro _ s' ⟨hs', hcore⟩
      exact ⟨hs', hcore ▸ hc, trivial⟩
  | syncBuffers dev wait =>
      exact Prog.Awake.mono (drop (syncBuffers_quietly dev wait hfuel hs hc))
        fun _ _ h => ⟨h.1, h.2.1, trivial⟩

theorem transparent_of_coherent (hgood : ∀ dev, good dev → dev ≠ 0)
    (hfuel : 2 ≤ fuel) (ops : List CacheOp) :
    ∀ s flat, Quiet s → Coherent good flat s.core →
      (∀ op ∈ ops, op.OnGood good) → LegalCalls fuel s ops →
        Transparent fuel s flat ops := by
  induction ops with
  | nil =>
      intro s flat _ _ _ _
      trivial
  | cons op ops ih =>
      intro s flat hs hc hops hlegal
      obtain ⟨hop, hrest⟩ := hlegal
      have hone := CacheOp.quietly hgood hfuel hs hc
        (hops op List.mem_cons_self) hop
      unfold Prog.Awake at hone
      unfold Transparent
      cases hr : (op.code fuel).run s with
      | error f =>
          rw [hr] at hone
          exact hone
      | ok r =>
          rw [hr] at hone hrest
          obtain ⟨hs', hc', hans⟩ := hone
          exact ⟨hans, ih r.2 _ hs' hc'
            (fun op hop => hops op (List.mem_cons_of_mem _ hop)) hrest⟩

end Ops

/-- Device `dev` exists, does its transfers at once and never fails. -/
def Hardware.Good (hw : Hardware) (dev : Nat) : Prop :=
  dev ≠ 0 ∧ major dev < maxBlkdev ∧ hw.requestFn (major dev) = .polled ∧
    ∀ block, hw.ioError dev block = false

theorem bufferInit_quiet (hw : Hardware) : Quiet (bufferInit hw) where
  twoLevel := bufferInit_twoLevel hw
  queue := fun _ => rfl
  inactive := fun _ => rfl
  lru := List.mem_finRange

theorem bufferInit_coherent (hw : Hardware) :
    Coherent hw.Good hw.disk (bufferInit hw).core where
  devices := fun _ h => h.2
  unlocked := fun _ => rfl
  count_lt := fun _ => Nat.two_pow_pos 16
  unique := fun _ _ h => absurd rfl h
  seg := fun _ h => absurd rfl h
  good := fun _ h => absurd rfl h
  used := fun _ h => by cases h
  dirty := fun _ h => by cases h
  content := fun _ h => absurd rfl h
  disk := fun _ _ _ _ => rfl

/-- **The cache is transparent.**  For one task on devices that do their
transfers at once and without error, and any sequence of calls that never has
to sleep and holds fewer than `NR_BUFFERS - NR_MAPBUFS` buffers, every call
returns and every `bread` returns a buffer holding the bytes last stored for its
block, or those the device had at the start. -/
theorem cacheRun_transparent
    (hw : Hardware) {fuel : Nat} (ops : List CacheOp)
    (hfuel : 2 ≤ fuel)
    (hops : ∀ op ∈ ops, op.OnGood hw.Good)
    (hlegal : LegalCalls fuel (bufferInit hw) ops) :
    Transparent fuel (bufferInit hw) hw.disk ops :=
  transparent_of_coherent (fun _ h => h.1) hfuel ops _ _
    (bufferInit_quiet hw) (bufferInit_coherent hw) hops hlegal

theorem blankHardware_good {dev : Nat} (h₀ : dev ≠ 0) (h : major dev < maxBlkdev) :
    (blankHardware .polled).Good dev :=
  ⟨h₀, h, rfl, fun _ => rfl⟩

/-- Two blocks are written, one is changed in place, everything is flushed and
both are read again. -/
def shortCalls : List CacheOp :=
  [.overwrite 0x100 7 (fun _ => 1), .overwrite 0x100 8 (fun _ => 2),
      .modify 0 (fun b => Function.update b 3 9), .brelse 0, .brelse 1] ++
    CacheOp.fsyncDev 0x100 [.bread 0x100 9] ++
    [.bread 0x100 7, .bread 0x100 8]

theorem cacheRun_transparent_short :
    LegalCalls 2 (bufferInit (blankHardware .polled)) shortCalls ∧
      Transparent 2 (bufferInit (blankHardware .polled))
        (blankHardware .polled).disk shortCalls := by
  have h : LegalCalls 2 (bufferInit (blankHardware .polled)) shortCalls := by
    decide +kernel
  have hgood : (blankHardware .polled).Good 0x100 :=
    blankHardware_good (by decide) (by decide)
  have hops : ∀ op ∈ shortCalls, op.OnGood (blankHardware .polled).Good := by
    simp [shortCalls, CacheOp.fsyncDev, CacheOp.OnGood, hgood]
  exact ⟨h, cacheRun_transparent _ _ (by decide) hops h⟩

end Buffer
end Elks
