import Elks.Buffer.Store

/-!
# Several tasks in the two-level store

A task can lose the processor only where `map_buffer` sleeps on `bufmapwait`.
It looks whether its buffer is already in L1 before the loop that may sleep,
and not again after it has been woken; a second task waiting for the same
buffer may have mapped it meanwhile.

* `twoSleepers_map_twice` is a run of three tasks in which one buffer ends up
  in two L1 blocks and a write to it is lost.
* `storeKernel_race_free` says that this is the only way: in every run in which
  a woken task never finds its buffer elsewhere in L1, no buffer is ever in two
  blocks and no `map_buffer` or `unmap_buffer` changes any buffer's content.
-/

namespace Elks
namespace Buffer

open Lib Lib.Move

/-- Tasks that use the store, without interrupts. -/
def storeKernel (fuel : Nat) : Kernel Buffers Wait StoreOp Empty where
  code := StoreOp.code fuel
  irq := fun i => i.elim
  irqWakes := fun i => i.elim

/-- No buffer is in two L1 blocks. -/
def NoTwin (s : Buffers) : Prop :=
  ∀ i j bh, s.bufmemMap i = some bh → s.bufmemMap j = some bh → i = j

/-- Only a write changes content, and only that of its own buffer. -/
def KeepsContent : Label StoreOp Empty → Buffers → Buffers → Prop
  | .did (.write bh _ _) _, s, s' => ∀ b, b ≠ bh → s'.content b = s.content b
  | _, s, s' => ∀ b, s'.content b = s.content b

/-- The L1 block into which a retry of `map_buffer` would bring its buffer. -/
def Buffers.nextSlot (s : Buffers) : Option Slot :=
  match s.freeSlot with
  | some i => some i
  | none => s.victim

/-- The L1 block that a retry would use for `bh` is the only one that may hold
`bh` already. -/
def RetryClear (bh : Bh) (s : Buffers) : Prop :=
  ∀ i, s.nextSlot = some i →
    (s.buffers bh).bData = none ∨ s.bufmemMap i = some bh

/-- Whenever a task is woken in `map_buffer`, its retry is clear. -/
def WokenClear : Label StoreOp Empty → Buffers → Buffers → Prop
  | .resumed (.map bh), s, _ => RetryClear bh s
  | _, _, _ => True

instance (bh : Bh) (s : Buffers) : Decidable (RetryClear bh s) :=
  inferInstanceAs (Decidable (∀ _, _))

instance (l : Label StoreOp Empty) (s s' : Buffers) :
    Decidable (WokenClear l s s') :=
  match l with
  | .resumed (.map bh) => inferInstanceAs (Decidable (RetryClear bh s))
  | .resumed (.handOut _) => inferInstanceAs (Decidable True)
  | .resumed (.unmap _) => inferInstanceAs (Decidable True)
  | .resumed (.write _ _ _) => inferInstanceAs (Decidable True)
  | .begun _ => inferInstanceAs (Decidable True)
  | .did _ _ => inferInstanceAs (Decidable True)
  | .interrupted _ => inferInstanceAs (Decidable True)

/-- What the tasks promise each other. -/
def storeContract : Contract Buffers StoreOp Empty where
  inv := TwoLevel
  assume := WokenClear
  guar := KeepsContent
  rely := fun s s' => s = s'

section Wp

variable {s : Buffers} {bh : Bh} {r : Bool}

theorem StoreStep.keepsContent {s' : Buffers} (h : StoreStep s s') (l : Label StoreOp Empty) :
    KeepsContent l s s' := by
  unfold KeepsContent
  split
  · intro b _
    exact h.content b
  · exact h.content

theorem wp_get_store {α : Type} {c : StoreOp} {k : Buffers → Code α} {Q : Bool → α → Buffers → Prop}
    (hs : TwoLevel s) (h : (k s).wp storeContract c r Q s) :
    (Prog.get >>= k : Code α).wp storeContract c r Q s := by
  refine Prog.wp_bind _ _ _ ?_
  intro _
  refine ⟨hs, hs.storeStep.keepsContent _, ?_⟩
  intro s' hrely _
  cases hrely
  exact h

theorem wp_modify_store {c : StoreOp} {f : Buffers → Buffers} {Q : Bool → Unit → Buffers → Prop}
    (h : StoreStep s (f s)) (hQ : Q r () (f s)) :
    (Prog.modify f : Code Unit).wp storeContract c r Q s := by
  intro _
  refine ⟨h.twoLevel, h.keepsContent _, ?_⟩
  intro s' hrely _
  cases hrely
  exact hQ

theorem retryClear_of_unmapped (h : (s.buffers bh).bData = none) :
    RetryClear bh s :=
  fun _ _ => Or.inl h

theorem wp_mapLoop (n : Nat) :
    ∀ r s, TwoLevel s → RetryClear bh s →
      (mapLoop bh n).wp storeContract (.map bh) r (fun _ _ _ => True) s := by
  induction n with
  | zero =>
      intro r s _ _
      trivial
  | succ n ih =>
      intro r s hs hclear
      rw [mapLoop]
      refine wp_get_store hs ?_
      cases hf : s.freeSlot with
      | some i =>
          have hi := freeSlot_spec hf
          have hbh : (s.buffers bh).bData = none := by
            rcases hclear i (by simp [Buffers.nextSlot, hf]) with h | h
            · exact h
            · rw [hi] at h
              cases h
          exact wp_modify_store (mapHere_storeStep hs hi hbh) trivial
      | none =>
          cases hv : s.victim with
          | some i =>
              have hstep := unmapSlot_storeStep (i := i) hs
              have hbh : ((s.unmapSlot i).buffers bh).bData = none := by
                rcases hclear i (by simp [Buffers.nextSlot, hf, hv]) with h | h
                · exact unmapSlot_bData h
                · simp [Buffers.unmapSlot, h]
              refine Prog.wp_bind _ _ _ (wp_modify_store hstep ?_)
              exact ih r _ hstep.twoLevel (retryClear_of_unmapped hbh)
          | none =>
              refine Prog.wp_bind _ _ _ ?_
              intro s₁ hs₁ hassume s₂ hrely _
              cases hrely
              exact ih true s₁ hs₁ hassume

theorem wp_mapBuffer {fuel : Nat} (hs : TwoLevel s) :
    (mapBuffer fuel bh).wp storeContract (.map bh) r (fun _ _ _ => True) s := by
  refine wp_get_store hs ?_
  split
  · exact wp_modify_store (mapcount_storeStep hs fun n => wrap 16 (n + 1))
      trivial
  · rename_i hmapped
    have hbh : (s.buffers bh).bData = none := by
      by_contra h
      exact hmapped (Or.inl h)
    exact wp_mapLoop fuel r s hs (retryClear_of_unmapped hbh)

theorem writeByte_others (hs : TwoLevel s) (bh : Bh) (k : Fin blockSize) (v : UInt8) :
    TwoLevel (s.writeByte bh k v) ∧
      ∀ b, b ≠ bh → (s.writeByte bh k v).content b = s.content b := by
  cases hd : (s.buffers bh).bData with
  | none =>
      have hsame : SameStore s (s.writeByte bh k v) := by
        constructor <;> simp [Buffers.writeByte, hd, Buffers.store]
      exact ⟨hsame.twoLevel hs, fun b _ => hsame.content b⟩
  | some i =>
      have hdata : (s.buffers bh).bData ≠ none := by simp [hd]
      obtain ⟨hs', hcontent⟩ := writeByte_content (k := k) (v := v) hs hdata
      refine ⟨hs', ?_⟩
      intro b hb
      rw [hcontent, Function.update_of_ne hb]

end Wp

theorem storeKernel_meets (fuel : Nat) :
    (storeKernel fuel).Meets storeContract where
  rely_refl := fun _ => rfl
  rely_trans := fun _ _ _ h h' => h.trans h'
  guar_refl := fun l _ hs => (TwoLevel.storeStep hs).keepsContent l
  irq := fun i => i.elim
  code := by
    intro c s hs
    cases c with
    | handOut bh =>
        have hsame := sameStore_modHead s bh (fun h => { h with bSeg := s.ds })
          (fun _ => rfl) (fun _ => rfl)
        intro _
        exact ⟨hsame.twoLevel hs, hsame.content, fun _ _ _ => trivial⟩
    | map bh =>
        exact wp_mapBuffer hs
    | unmap bh =>
        have hstep := unmapBuffer_storeStep hs bh
        intro _
        exact ⟨hstep.twoLevel, hstep.content, fun _ _ _ => trivial⟩
    | write bh k v =>
        obtain ⟨hs', hothers⟩ := writeByte_others hs bh k v
        intro _
        exact ⟨hs', hothers, fun _ _ _ => trivial⟩

section Race

variable {τ : Type} [DecidableEq τ]

/-- **Tasks that wait apart do not collide.**  In every run, by any number of
tasks, in which a task woken in `map_buffer` never finds its buffer in another
L1 block than the one it is about to use, no buffer is ever in two L1 blocks,
and no step but a write changes the content of any buffer. -/
theorem storeKernel_race_free
    (hw : Hardware) (fuel : Nat) (ms : List (Move StoreOp Empty τ))
    (hclear : AllSteps (storeKernel fuel) WokenClear
      (Sys.start (bufferInit hw)) ms) :
    AllSteps (storeKernel fuel)
      (fun l s s' => NoTwin s' ∧ KeepsContent l s s')
      (Sys.start (bufferInit hw)) ms := by
  have hok : (Sys.start (bufferInit hw) : Sys Buffers Wait StoreOp τ).Ok
      storeContract :=
    Sys.ok_start _ (bufferInit_twoLevel hw)
  have hall := Kernel.sound (storeKernel_meets fuel) ms _ hok hclear
  refine AllSteps.mono ?_ ms _ hall
  rintro l s s' ⟨hinv, hguar⟩
  exact ⟨fun i j bh hi hj => TwoLevel.slot_unique hinv hi hj, hguar⟩

end Race

/-- The first task hands out the first ten buffers and maps eight of them, so that L1
is full; then the others wait to map `b` and `c`, and the first lets go of the
buffers 0 and 1. -/
def crowd (b c : Bh) : List (Move StoreOp Empty Nat) :=
  ((List.finRange nrBuffers).take 10).flatMap (fun bh => enters 0 (.handOut bh) 2) ++
    ((List.finRange nrBuffers).take 8).flatMap (fun bh => enters 0 (.map bh) 4) ++
    enters 1 (.map b) 3 ++ enters 2 (.map c) 3 ++
    enters 0 (.unmap 0) 2 ++ enters 0 (.unmap 1) 2

/-- Tasks waiting for different buffers map them both. -/
theorem storeKernel_race_free_crowd :
    AllSteps (storeKernel 4) WokenClear
        (Sys.start (bufferInit (blankHardware .polled)))
        (crowd 8 9 ++ resumes 1 5 ++ resumes 2 5) ∧
      AllSteps (storeKernel 4)
        (fun l s s' => NoTwin s' ∧ KeepsContent l s s')
        (Sys.start (bufferInit (blankHardware .polled)))
        (crowd 8 9 ++ resumes 1 5 ++ resumes 2 5) := by
  have h : AllSteps (storeKernel 4) WokenClear
      (Sys.start (bufferInit (blankHardware .polled)))
      (crowd 8 9 ++ resumes 1 5 ++ resumes 2 5) := by
    decide +kernel
  exact ⟨h, storeKernel_race_free _ _ _ h⟩

/-- Two tasks wait to map buffer 8.  The first one woken maps it into L1 block 1
and writes the byte 7; the second maps it again, into L1 block 0, from the old
copy in L2, and the byte is gone. -/
theorem twoSleepers_map_twice :
    (Sys.runs (storeKernel 4) (Sys.start (bufferInit (blankHardware .polled)))
        (crowd 8 8 ++ resumes 1 5 ++ enters 1 (.write 8 3 7) 2)).map
          (fun S => (S.st.bufmemMap 1, S.st.deref (S.st.buffers 8).bData 3)) =
        some (some 8, 7) ∧
      (Sys.runs (storeKernel 4) (Sys.start (bufferInit (blankHardware .polled)))
        (crowd 8 8 ++ resumes 1 5 ++ enters 1 (.write 8 3 7) 2 ++
          resumes 2 5)).map
          (fun S => (S.st.bufmemMap 0, S.st.bufmemMap 1,
            S.st.deref (S.st.buffers 8).bData 3, S.cur.isNone)) =
        some (some 8, some 8, 0, true) := by
  decide +kernel

end Buffer
end Elks
