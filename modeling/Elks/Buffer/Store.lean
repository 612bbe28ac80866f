import Elks.Buffer.Head

/-!
# The two-level store is a flat array of blocks

`TwoLevel` is the invariant of the L1 map: the map and the data pointers say
the same, and every buffer has its own L2 block.  Under it the content of a
buffer can be read off its data pointer, and

* `mapHere_spec` and `unmapSlot_spec` say that bringing a buffer into L1 and
  sending one back move bytes around but change no buffer's content;
* `mapBuffer_awake` lifts this to `map_buffer` with its retries;
* `storeRun_refines` says that any sequence of calls behaves as a flat array
  that only the writes change.
-/

namespace Elks
namespace Buffer

open Lib
open Function (update update_of_ne update_self)

/-- The L1 map and the data pointers agree, and no two buffers share L2. -/
structure TwoLevel (s : Buffers) : Prop where
  map_iff : ∀ i bh, s.bufmemMap i = some bh ↔ (s.buffers bh).bData = some i
  num : ∀ bh, (s.buffers bh).bNum = bh

/-- Every counted mapping is backed by an L1 block. -/
def Backed (s : Buffers) : Prop :=
  ∀ bh, 0 < (s.buffers bh).bMapcount → (s.buffers bh).bData ≠ none

/-- The store of `s'` is that of `s`: same areas, same map, same pointers. -/
structure SameStore (s s' : Buffers) : Prop where
  bufmem : s'.bufmem = s.bufmem
  bufmemMap : s'.bufmemMap = s.bufmemMap
  bufDs : s'.bufDs = s.bufDs
  bData : ∀ bh, (s'.buffers bh).bData = (s.buffers bh).bData
  bNum : ∀ bh, (s'.buffers bh).bNum = (s.buffers bh).bNum

section Content

variable {s s' : Buffers}

theorem TwoLevel.content_eq (hs : TwoLevel s) (bh : Bh) :
    s.content bh =
      match (s.buffers bh).bData with
      | some i => s.bufmem i
      | none => blockAt s.bufDs (bh * 0x400) := by
  unfold Buffers.content
  cases hf : (List.finRange nrMapbufs).find?
      (fun i => s.bufmemMap i = some bh) with
  | some i =>
      have hi : s.bufmemMap i = some bh := by
        simpa using List.find?_some hf
      rw [(hs.map_iff i bh).mp hi]
  | none =>
      have hnone : (s.buffers bh).bData = none := by
        cases hd : (s.buffers bh).bData with
        | none => rfl
        | some i =>
            have hi := (hs.map_iff i bh).mpr hd
            have := List.find?_eq_none.mp hf i (List.mem_finRange i)
            simp [hi] at this
      rw [hnone, hs.num bh]

theorem SameStore.twoLevel (h : SameStore s s') (hs : TwoLevel s) :
    TwoLevel s' where
  map_iff := by
    intro i bh
    rw [h.bufmemMap, h.bData]
    exact hs.map_iff i bh
  num := by
    intro bh
    rw [h.bNum]
    exact hs.num bh

theorem SameStore.content (h : SameStore s s') (bh : Bh) : s'.content bh = s.content bh := by
  unfold Buffers.content
  rw [h.bufmemMap, h.bufmem, h.bufDs, h.bNum]

theorem TwoLevel.slot_unique (hs : TwoLevel s) {i j : Slot} {bh : Bh}
    (hi : s.bufmemMap i = some bh) (hj : s.bufmemMap j = some bh) : i = j := by
  have h₁ := (hs.map_iff i bh).mp hi
  have h₂ := (hs.map_iff j bh).mp hj
  exact Option.some.inj (h₁.symm.trans h₂)

theorem sameStore_modHead (s : Buffers) (bh : Bh) (f : BufferHead → BufferHead)
    (hdata : ∀ h, (f h).bData = h.bData) (hnum : ∀ h, (f h).bNum = h.bNum) :
    SameStore s (s.modHead bh f) where
  bufmem := rfl
  bufmemMap := rfl
  bufDs := rfl
  bData := by
    intro b
    by_cases hb : b = bh
    · subst hb
      simp [Buffers.modHead, Buffers.setHead, hdata]
    · simp [Buffers.modHead, Buffers.setHead, hb]
  bNum := by
    intro b
    by_cases hb : b = bh
    · subst hb
      simp [Buffers.modHead, Buffers.setHead, hnum]
    · simp [Buffers.modHead, Buffers.setHead, hb]

end Content

section Moves

variable {s : Buffers} {bh : Bh} {i : Slot}

theorem mapHere_twoLevel (hs : TwoLevel s) (hi : s.bufmemMap i = none)
    (hbh : (s.buffers bh).bData = none) :
    TwoLevel (s.mapHere bh i) where
  map_iff := by
    intro j b
    have hfree : (s.buffers b).bData ≠ some i := by
      intro h
      have := (hs.map_iff i b).mpr h
      rw [hi] at this
      cases this
    have hunmapped : s.bufmemMap j ≠ some bh := by
      intro h
      have := (hs.map_iff j bh).mp h
      rw [hbh] at this
      cases this
    have hold := hs.map_iff j b
    by_cases hj : j = i <;> by_cases hb : b = bh
    · subst hj hb
      simp [Buffers.mapHere]
    · subst hj
      simp only [Buffers.mapHere, update_self,
        update_of_ne hb, Option.some.injEq]
      constructor
      · intro h
        exact absurd h.symm hb
      · intro h
        exact absurd h hfree
    · subst hb
      simp only [Buffers.mapHere, update_self,
        update_of_ne hj, Option.some.injEq]
      constructor
      · intro h
        exact absurd h hunmapped
      · intro h
        exact absurd h.symm hj
    · simpa [Buffers.mapHere, hj, hb] using hold
  num := by
    intro b
    by_cases hb : b = bh
    · subst hb
      simpa [Buffers.mapHere] using hs.num b
    · simpa [Buffers.mapHere, hb] using hs.num b

theorem mapHere_content (hs : TwoLevel s) (hi : s.bufmemMap i = none)
    (hbh : (s.buffers bh).bData = none) (b : Bh) : (s.mapHere bh i).content b = s.content b := by
  rw [(mapHere_twoLevel hs hi hbh).content_eq, hs.content_eq]
  by_cases hb : b = bh
  · subst hb
    simp [Buffers.mapHere, hbh, hs.num]
  · cases hd : (s.buffers b).bData with
    | none => simp [Buffers.mapHere, hb, hd]
    | some j =>
        have hj : j ≠ i := by
          intro h
          subst h
          rw [(hs.map_iff j b).mpr hd] at hi
          cases hi
        simp [Buffers.mapHere, hb, hd, hj]

theorem unmapSlot_twoLevel (hs : TwoLevel s) : TwoLevel (s.unmapSlot i) := by
  cases hv : s.bufmemMap i with
  | none =>
      simpa [Buffers.unmapSlot, hv] using hs
  | some v =>
      have hdata := (hs.map_iff i v).mp hv
      constructor
      · intro j b
        simp only [Buffers.unmapSlot, hv]
        have hold := hs.map_iff j b
        by_cases hb : b = v
        · subst hb
          by_cases hj : j = i
          · subst hj
            simp
          · have hne : s.bufmemMap j ≠ some b := by
              intro h
              exact hj (hs.slot_unique h hv)
            simp [hj, hne]
        · by_cases hj : j = i
          · subst hj
            have hne : (s.buffers b).bData ≠ some j := by
              intro h
              have := (hs.map_iff j b).mpr h
              rw [hv] at this
              exact hb (Option.some.inj this).symm
            simp [hb, hne]
          · simpa [hb, hj] using hold
      · intro b
        simp only [Buffers.unmapSlot, hv]
        by_cases hb : b = v
        · subst hb
          simpa using hs.num b
        · simpa [hb] using hs.num b

theorem unmapSlot_content (hs : TwoLevel s) (b : Bh) : (s.unmapSlot i).content b = s.content b := by
  rw [(unmapSlot_twoLevel hs).content_eq, hs.content_eq]
  cases hv : s.bufmemMap i with
  | none =>
      simp [Buffers.unmapSlot, hv]
  | some v =>
      have hdata := (hs.map_iff i v).mp hv
      by_cases hb : b = v
      · subst hb
        simp only [Buffers.unmapSlot, hv, update_self, hs.num, hdata,
          Buffers.deref]
        exact blockAt_putBlock_same _ _ _
      · cases hd : (s.buffers b).bData with
        | none =>
            have hne : (v : Nat) ≠ b := fun h => hb (Fin.ext h.symm)
            simp only [Buffers.unmapSlot, hv, update_of_ne hb, hs.num,
              hd]
            exact blockAt_putBlock_ne _ _ hne
        | some j =>
            simp [Buffers.unmapSlot, hv, hb, hd]

theorem unmapSlot_free (s : Buffers) (i : Slot) : (s.unmapSlot i).bufmemMap i = none := by
  cases hv : s.bufmemMap i with
  | none => simp [Buffers.unmapSlot, hv]
  | some v => simp [Buffers.unmapSlot, hv]

end Moves

/-- `s'` is `s` up to where its buffers are and how often they are mapped; the
content of every buffer is the same. -/
structure StoreStep (s s' : Buffers) : Prop where
  twoLevel : TwoLevel s'
  content : ∀ bh, s'.content bh = s.content bh
  head : ∀ bh, s'.buffers bh =
    { s.buffers bh with
      bData := (s'.buffers bh).bData
      bMapcount := (s'.buffers bh).bMapcount }
  rest : s' =
    { s with
      buffers := s'.buffers
      bufmem := s'.bufmem
      bufmemMap := s'.bufmemMap
      bufDs := s'.bufDs
      lastumap := s'.lastumap }

section Steps

variable {s s' s'' : Buffers} {bh : Bh} {i : Slot}

theorem TwoLevel.storeStep (hs : TwoLevel s) : StoreStep s s where
  twoLevel := hs
  content := fun _ => rfl
  head := fun _ => rfl
  rest := rfl

theorem StoreStep.trans (h : StoreStep s s') (h' : StoreStep s' s'') :
    StoreStep s s'' where
  twoLevel := h'.twoLevel
  content := fun b => (h'.content b).trans (h.content b)
  head := by
    intro b
    have h₁ := h'.head b
    rw [h.head b] at h₁
    exact h₁
  rest := by
    have h₁ := h'.rest
    rw [h.rest] at h₁
    exact h₁

theorem mapHere_storeStep (hs : TwoLevel s) (hi : s.bufmemMap i = none)
    (hbh : (s.buffers bh).bData = none) :
    StoreStep s (s.mapHere bh i) where
  twoLevel := mapHere_twoLevel hs hi hbh
  content := mapHere_content hs hi hbh
  head := by
    intro b
    by_cases hb : b = bh
    · subst hb
      simp [Buffers.mapHere]
    · simp [Buffers.mapHere, hb]
  rest := rfl

theorem unmapSlot_storeStep (hs : TwoLevel s) :
    StoreStep s (s.unmapSlot i) where
  twoLevel := unmapSlot_twoLevel hs
  content := unmapSlot_content hs
  head := by
    intro b
    cases hv : s.bufmemMap i with
    | none => simp [Buffers.unmapSlot, hv]
    | some v =>
        by_cases hb : b = v
        · subst hb
          simp [Buffers.unmapSlot, hv]
        · simp [Buffers.unmapSlot, hv, hb]
  rest := by
    cases hv : s.bufmemMap i with
    | none => simp [Buffers.unmapSlot, hv]
    | some v => simp [Buffers.unmapSlot, hv]

theorem mapcount_storeStep (hs : TwoLevel s) (f : Nat → Nat) :
    StoreStep s
      (s.modHead bh fun h => { h with bMapcount := f h.bMapcount }) := by
  have hsame := sameStore_modHead s bh
    (fun h => { h with bMapcount := f h.bMapcount })
    (fun _ => rfl) (fun _ => rfl)
  exact
    { twoLevel := hsame.twoLevel hs
      content := hsame.content
      head := by
        intro b
        by_cases hb : b = bh
        · subst hb
          simp [Buffers.modHead, Buffers.setHead]
        · simp [Buffers.modHead, Buffers.setHead, hb]
      rest := rfl }

theorem unmapBuffer_storeStep (hs : TwoLevel s) (bh : Bh) : StoreStep s (s.unmapBuffer bh) := by
  unfold Buffers.unmapBuffer
  split
  · exact mapcount_storeStep hs fun _ => 0
  · exact mapcount_storeStep hs fun n => n - 1

theorem victim_spec (h : s.victim = some i) :
    ∃ v, s.bufmemMap i = some v ∧ (s.buffers v).bMapcount = 0 := by
  have hu : s.unused i = true := by
    simpa using List.find?_some h
  unfold Buffers.unused at hu
  cases hv : s.bufmemMap i with
  | none =>
      rw [hv] at hu
      cases hu
  | some v =>
      rw [hv] at hu
      exact ⟨v, rfl, by simpa using hu⟩

theorem freeSlot_spec (h : s.freeSlot = some i) : s.bufmemMap i = none := by
  simpa using List.find?_some h

theorem freeSlot_ne_none (h : s.bufmemMap i = none) : s.freeSlot ≠ none := by
  intro hn
  have := List.find?_eq_none.mp hn i (List.mem_finRange i)
  simp [h] at this

theorem unmapSlot_backed (hb : Backed s) (hi : s.victim = some i) : Backed (s.unmapSlot i) := by
  obtain ⟨v, hv, hcount⟩ := victim_spec hi
  intro b hpos
  by_cases h : b = v
  · subst h
    simp [Buffers.unmapSlot, hv, hcount] at hpos
  · simp only [Buffers.unmapSlot, hv, update_of_ne h] at hpos ⊢
    exact hb b hpos

theorem mapHere_backed (hb : Backed s) : Backed (s.mapHere bh i) := by
  intro b hpos
  by_cases h : b = bh
  · subst h
    simp [Buffers.mapHere]
  · simp only [Buffers.mapHere, update_of_ne h] at hpos ⊢
    exact hb b hpos

end Steps

/-- What `map_buffer` does to a buffer that getblk has handed out. -/
structure MapStep (bh : Bh) (s s' : Buffers) : Prop where
  step : StoreStep s s'
  data : (s.buffers bh).bSeg = s.ds → (s'.buffers bh).bData ≠ none
  backed : (s.buffers bh).bSeg = s.ds → Backed s → Backed s'

section MapBuffer

variable {s : Buffers} {bh : Bh} {i : Slot} {n : Nat}

theorem mapHere_mapStep (hs : TwoLevel s) (hi : s.freeSlot = some i)
    (hbh : (s.buffers bh).bData = none) :
    MapStep bh s (s.mapHere bh i) where
  step := mapHere_storeStep hs (freeSlot_spec hi) hbh
  data := by
    intro _
    simp [Buffers.mapHere]
  backed := fun _ => mapHere_backed

theorem MapStep.after_unmapSlot {s' : Buffers} (hs : TwoLevel s) (hi : s.victim = some i)
    (h : MapStep bh (s.unmapSlot i) s') : MapStep bh s s' := by
  have hstep := unmapSlot_storeStep (i := i) hs
  have hseg : ((s.unmapSlot i).buffers bh).bSeg = (s.buffers bh).bSeg := by
    rw [hstep.head bh]
  have hds : (s.unmapSlot i).ds = s.ds := by
    rw [hstep.rest]
  exact
    { step := hstep.trans h.step
      data := by
        intro he
        exact h.data (by rw [hseg, hds, he])
      backed := by
        intro he hb
        exact h.backed (by rw [hseg, hds, he]) (unmapSlot_backed hb hi) }

theorem unmapSlot_bData (hbh : (s.buffers bh).bData = none) :
    ((s.unmapSlot i).buffers bh).bData = none := by
  cases hv : s.bufmemMap i with
  | none => simpa [Buffers.unmapSlot, hv] using hbh
  | some v =>
      by_cases hb : bh = v
      · subst hb
        simp [Buffers.unmapSlot, hv]
      · simpa [Buffers.unmapSlot, hv, hb] using hbh

theorem mapLoop_free (hs : TwoLevel s) (hbh : (s.buffers bh).bData = none)
    (hfree : s.freeSlot ≠ none) :
    Prog.Awake .bufmapwait (mapLoop bh (n + 1)) s fun _ s' => MapStep bh s s' := by
  obtain ⟨i, hi⟩ := Option.ne_none_iff_exists'.mp hfree
  simp only [mapLoop, Prog.awake_bind, Prog.awake_get, hi,
    Prog.awake_modify]
  exact mapHere_mapStep hs hi hbh

theorem mapLoop_awake (hs : TwoLevel s) (hbh : (s.buffers bh).bData = none) :
    Prog.Awake .bufmapwait (mapLoop bh (n + 2)) s fun _ s' => MapStep bh s s' := by
  cases hf : s.freeSlot with
  | some i =>
      exact mapLoop_free hs hbh (by simp [hf])
  | none =>
      rw [mapLoop]
      simp only [Prog.awake_bind, Prog.awake_get, hf]
      cases hv : s.victim with
      | none =>
          simp only [Prog.awake_bind]
          exact Prog.awake_sleepOn _ _
      | some i =>
          simp only [Prog.awake_bind, Prog.awake_modify]
          have hfree := freeSlot_ne_none (unmapSlot_free s i)
          have hloop := mapLoop_free (n := n) (unmapSlot_twoLevel hs)
            (unmapSlot_bData hbh) hfree
          exact hloop.mono fun _ s' h => h.after_unmapSlot hs hv

theorem mapBuffer_awake {fuel : Nat} (hfuel : 2 ≤ fuel) (hs : TwoLevel s) :
    Prog.Awake .bufmapwait (mapBuffer fuel bh) s fun _ s' => MapStep bh s s' := by
  simp only [mapBuffer, Prog.awake_bind, Prog.awake_get]
  split
  · rename_i hmapped
    simp only [Prog.awake_modify]
    have hdata : (s.buffers bh).bSeg = s.ds → (s.buffers bh).bData ≠ none := by
      intro he
      rcases hmapped with h | h
      · exact h
      · exact absurd he h
    refine
      { step := mapcount_storeStep hs fun n => wrap 16 (n + 1)
        data := ?_
        backed := ?_ }
    · intro he
      simpa [Buffers.modHead, Buffers.setHead] using hdata he
    · intro he hb b hpos
      by_cases h : b = bh
      · subst h
        simpa [Buffers.modHead, Buffers.setHead] using hdata he
      · simp only [Buffers.modHead, Buffers.setHead,
          update_of_ne h] at hpos ⊢
        exact hb b hpos
  · rename_i hmapped
    have hbh : (s.buffers bh).bData = none := by
      by_contra h
      exact hmapped (Or.inl h)
    obtain ⟨n, rfl⟩ := Nat.exists_eq_add_of_le' hfuel
    exact mapLoop_awake hs hbh

end MapBuffer

/-- The uses a task makes of the store: getblk hands out a head that is not in
L1, and its user maps it, unmaps it and writes through `b_data`. -/
inductive StoreOp
  | handOut (bh : Bh)
  | map (bh : Bh)
  | unmap (bh : Bh)
  | write (bh : Bh) (k : Fin blockSize) (v : UInt8)

/-- Store one byte through `b_data`. -/
def Buffers.writeByte (bh : Bh) (k : Fin blockSize) (v : UInt8) (s : Buffers) :
    Buffers :=
  let d := (s.buffers bh).bData
  s.store d (update (s.deref d) k v)

namespace StoreOp

/-- What the callers keep to: get_free_buffer takes no head that is in L1, only
heads from getblk are mapped, and writes need the buffer mapped. -/
def Legal (s : Buffers) : StoreOp → Prop
  | handOut bh => (s.buffers bh).bData = none
  | map bh => (s.buffers bh).bSeg = s.ds
  | unmap _ => True
  | write bh _ _ => 0 < (s.buffers bh).bMapcount

instance (s : Buffers) (op : StoreOp) : Decidable (op.Legal s) :=
  match op with
  | handOut bh => inferInstanceAs (Decidable ((s.buffers bh).bData = none))
  | map bh => inferInstanceAs (Decidable ((s.buffers bh).bSeg = s.ds))
  | unmap _ => inferInstanceAs (Decidable True)
  | write bh _ _ => inferInstanceAs (Decidable (0 < (s.buffers bh).bMapcount))

/-- The code of one use. -/
def code (fuel : Nat) : StoreOp → Code Unit
  | handOut bh =>
      Prog.modify fun s => s.modHead bh fun h => { h with bSeg := s.ds }
  | map bh => mapBuffer fuel bh
  | unmap bh => unmapBuffer bh
  | write bh k v => Prog.modify (Buffers.writeByte bh k v)

/-- The same use on a flat array of blocks: only writes do anything. -/
def flat (m : Bh → Block) : StoreOp → Bh → Block
  | write bh k v => update m bh (update (m bh) k v)
  | _ => m

end StoreOp

/-- A sequence of uses by one task. -/
def storeRun (fuel : Nat) : Buffers → List StoreOp → Except Fault Buffers
  | s, [] => .ok s
  | s, op :: ops =>
      match (op.code fuel).run s with
      | .ok r => storeRun fuel r.2 ops
      | .error f => .error f

/-- Every use of the sequence is legal where it is made. -/
def LegalRun (fuel : Nat) : Buffers → List StoreOp → Prop
  | _, [] => True
  | s, op :: ops =>
      op.Legal s ∧
        match (op.code fuel).run s with
        | .ok r => LegalRun fuel r.2 ops
        | .error _ => True

instance decidableLegalRun (fuel : Nat) :
    (s : Buffers) → (ops : List StoreOp) → Decidable (LegalRun fuel s ops)
  | _, [] => inferInstanceAs (Decidable True)
  | s, op :: ops =>
      have : Decidable
          (match (op.code fuel).run s with
          | .ok r => LegalRun fuel r.2 ops
          | .error _ => True) :=
        match (op.code fuel).run s with
        | .ok r => decidableLegalRun fuel r.2 ops
        | .error _ => inferInstanceAs (Decidable True)
      inferInstanceAs (Decidable (_ ∧ _))

section Runs

variable {s : Buffers} {fuel : Nat} {bh : Bh} {i : Slot}

theorem store_content (hs : TwoLevel s) (hi : (s.buffers bh).bData = some i) (b : Block) :
    TwoLevel (s.store (some i) b) ∧
      (s.store (some i) b).content = update s.content bh b := by
  have hs' : TwoLevel (s.store (some i) b) := ⟨hs.map_iff, hs.num⟩
  refine ⟨hs', ?_⟩
  funext b'
  rw [hs'.content_eq]
  by_cases hb : b' = bh
  · subst hb
    simp [Buffers.store, hi]
  · rw [update_of_ne hb, hs.content_eq]
    cases hd : (s.buffers b').bData with
    | none => simp [Buffers.store, hd]
    | some j =>
        have hj : j ≠ i := by
          intro h
          subst h
          have h₁ := (hs.map_iff j b').mpr hd
          have h₂ := (hs.map_iff j bh).mpr hi
          rw [h₁] at h₂
          exact hb (Option.some.inj h₂)
        simp [Buffers.store, hd, hj]

theorem TwoLevel.content_of_mapped (hs : TwoLevel s) (hi : (s.buffers bh).bData = some i) :
    s.content bh = s.bufmem i := by
  rw [hs.content_eq, hi]

theorem writeByte_content {k : Fin blockSize} {v : UInt8} (hs : TwoLevel s)
    (hdata : (s.buffers bh).bData ≠ none) :
    TwoLevel (s.writeByte bh k v) ∧
      (s.writeByte bh k v).content =
        update s.content bh (update (s.content bh) k v) := by
  obtain ⟨i, hi⟩ := Option.ne_none_iff_exists'.mp hdata
  have hw : s.writeByte bh k v =
      s.store (some i) (update (s.content bh) k v) := by
    simp [Buffers.writeByte, hi, Buffers.deref, hs.content_of_mapped hi]
  rw [hw]
  exact store_content hs hi _

theorem unmapBuffer_backed (hb : Backed s) : Backed (s.unmapBuffer bh) := by
  intro b hpos
  unfold Buffers.unmapBuffer at hpos ⊢
  by_cases h : b = bh
  · subst h
    split at hpos
    · simp [Buffers.modHead, Buffers.setHead] at hpos
    · rename_i hcount
      simp only [hcount, if_false, Buffers.modHead, Buffers.setHead,
        update_self]
      exact hb b (Nat.pos_of_ne_zero hcount)
  · split at hpos <;>
      (rename_i hcount
       simp only [hcount, if_true, if_false, Buffers.modHead, Buffers.setHead,
         update_of_ne h] at hpos ⊢
       exact hb b hpos)

theorem StoreOp.awake {op : StoreOp} (hfuel : 2 ≤ fuel) (hs : TwoLevel s) (hb : Backed s)
    (hlegal : op.Legal s) :
    Prog.Awake .bufmapwait (op.code fuel) s fun _ s' =>
      TwoLevel s' ∧ Backed s' ∧ s'.content = op.flat s.content := by
  cases op with
  | handOut bh =>
      have hsame := sameStore_modHead s bh (fun h => { h with bSeg := s.ds })
        (fun _ => rfl) (fun _ => rfl)
      have hb' : Backed (s.modHead bh fun h => { h with bSeg := s.ds }) := by
        intro b hpos
        rw [hsame.bData b]
        by_cases h : b = bh
        · subst h
          simp only [Buffers.modHead, Buffers.setHead,
            update_self] at hpos
          exact hb b hpos
        · simp only [Buffers.modHead, Buffers.setHead,
            update_of_ne h] at hpos
          exact hb b hpos
      exact ⟨hsame.twoLevel hs, hb', funext hsame.content⟩
  | map bh =>
      exact (mapBuffer_awake hfuel hs).mono fun _ s' h =>
        ⟨h.step.twoLevel, h.backed hlegal hb, funext h.step.content⟩
  | unmap bh =>
      have hstep := unmapBuffer_storeStep hs bh
      exact ⟨hstep.twoLevel, unmapBuffer_backed hb, funext hstep.content⟩
  | write bh k v =>
      have hdata := hb bh hlegal
      obtain ⟨hs', hcontent⟩ := writeByte_content (k := k) (v := v) hs hdata
      refine ⟨hs', ?_, hcontent⟩
      obtain ⟨i, hi⟩ := Option.ne_none_iff_exists'.mp hdata
      intro b hpos
      simp only [Buffers.writeByte, hi, Buffers.store] at hpos ⊢
      exact hb b hpos

theorem storeRun_keeps (hfuel : 2 ≤ fuel) (ops : List StoreOp) :
    ∀ s : Buffers, TwoLevel s → Backed s → LegalRun fuel s ops →
      match storeRun fuel s ops with
      | .ok s' => TwoLevel s' ∧ s'.content = ops.foldl StoreOp.flat s.content
      | .error f => f = .sleeps := by
  induction ops with
  | nil =>
      intro s hs _ _
      exact ⟨hs, rfl⟩
  | cons op ops ih =>
      intro s hs hb hlegal
      obtain ⟨hop, hrest⟩ := hlegal
      have hone := StoreOp.awake hfuel hs hb hop
      unfold Prog.Awake at hone
      unfold storeRun
      cases hr : (op.code fuel).run s with
      | error f =>
          rw [hr] at hone
          exact hone.1
      | ok r =>
          rw [hr] at hone hrest
          obtain ⟨hs', hb', hcontent⟩ := hone
          have h := ih r.2 hs' hb' hrest
          rw [hcontent] at h
          exact h

theorem bufferInit_twoLevel (hw : Hardware) : TwoLevel (bufferInit hw) where
  map_iff := by
    intro i bh
    simp [bufferInit, freshHead]
  num := by
    intro bh
    rfl

/-- **The store is a flat array.**  A sequence of legal uses that never has to
sleep ends with the map and the data pointers in agreement, each buffer in at
most one L1 block and each block holding at most one buffer, and with every
buffer containing exactly what was last written through it. -/
theorem storeRun_refines
    (hw : Hardware) (ops : List StoreOp)
    (hfuel : 2 ≤ fuel)
    (hlegal : LegalRun fuel (bufferInit hw) ops) :
    match storeRun fuel (bufferInit hw) ops with
    | .ok s =>
        (∀ i bh, s.bufmemMap i = some bh ↔ (s.buffers bh).bData = some i) ∧
          (∀ i j bh, s.bufmemMap i = some bh → s.bufmemMap j = some bh →
            i = j) ∧
          ∀ bh, s.content bh =
            ops.foldl StoreOp.flat (bufferInit hw).content bh
    | .error f => f = .sleeps := by
  have hinit := bufferInit_twoLevel hw
  have hb : Backed (bufferInit hw) := by
    intro bh hpos
    exact absurd hpos (Nat.lt_irrefl 0)
  have h := storeRun_keeps hfuel ops _ hinit hb hlegal
  cases hr : storeRun fuel (bufferInit hw) ops with
  | error f =>
      rw [hr] at h
      exact h
  | ok s =>
      rw [hr] at h
      obtain ⟨hs, hcontent⟩ := h
      exact
        ⟨hs.map_iff, fun i j bh hi hj => hs.slot_unique hi hj,
          fun bh => congrFun hcontent bh⟩

end Runs

/-- A machine with empty memory and disks, one driver for all devices. -/
def blankHardware (d : Driver) : Hardware where
  ds := 0x1000
  nullPage := fun _ => 0
  bufmem := fun _ _ => 0
  bufDs := fun _ => 0
  requestFn := fun _ => d
  ioError := fun _ _ => false
  disk := fun _ _ _ => 0

/-- Hand out, map, write and unmap one buffer. -/
def writeOnce (bh : Bh) : List StoreOp :=
  [.handOut bh, .map bh, .write bh 3 (UInt8.ofNat (bh + 1)),
    .unmap bh]

/-- Ten buffers pass through the eight L1 blocks. -/
def tenWrites : List StoreOp :=
  ((List.finRange nrBuffers).take 10).flatMap writeOnce

theorem storeRun_refines_ten :
    LegalRun 2 (bufferInit (blankHardware .polled)) tenWrites ∧
      faultOf (storeRun 2 (bufferInit (blankHardware .polled)) tenWrites) =
        none ∧
      match storeRun 2 (bufferInit (blankHardware .polled)) tenWrites with
      | .ok s =>
          (∀ i bh, s.bufmemMap i = some bh ↔ (s.buffers bh).bData = some i) ∧
            (∀ i j bh, s.bufmemMap i = some bh → s.bufmemMap j = some bh →
              i = j) ∧
            ∀ bh, s.content bh =
              tenWrites.foldl StoreOp.flat
                (bufferInit (blankHardware .polled)).content bh
      | .error f => f = .sleeps := by
  have h : LegalRun 2 (bufferInit (blankHardware .polled)) tenWrites := by
    decide +kernel
  exact ⟨h, by decide +kernel, storeRun_refines _ _ (by decide) h⟩

/-- A buffer that getblk has not handed out is mapped from the start: its count is 1, a
byte is written through `b_data`, which is `NULL`, and the buffer does not change. -/
theorem unhanded_write_lost :
    match storeRun 2 (bufferInit (blankHardware .polled)) [.map 0] with
    | .ok s =>
        0 < (s.buffers 0).bMapcount ∧
          match storeRun 2 s [.write 0 3 7] with
          | .ok s' => s'.content 0 ≠ [StoreOp.write 0 3 7].foldl StoreOp.flat s.content 0
          | .error _ => False
    | .error _ => False :=
  ⟨by decide, fun h => absurd (congrFun h 3) (by decide)⟩

end Buffer
end Elks
