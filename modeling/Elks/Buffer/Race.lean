import Elks.Buffer.Cache
import Elks.Buffer.Store

/-!
# Whether a block can have two buffers

`getblk` looks its block up, finds a free head and gives it the block's tag.
Finding a free head may flush dirty buffers and so sleep, and nothing is looked
up again afterwards.

* `SameTags` is what every action but the tagging keeps; each function of the
  cache up to `get_free_buffer` consists of such actions (`keeps_*`).
* `cacheKernel_unique` says that tags stay unique in every run in which a
  `getblk` that slept never gives a tag that another head has by then.
* `lateTag_duplicates` is a run of three tasks in which it does.
-/

namespace Elks
namespace Buffer

open Lib Lib.Move

/-- `s'` has the tags of `s`. -/
def SameTags (s s' : Buffers) : Prop :=
  ∀ bh, (s'.buffers bh).bDev = (s.buffers bh).bDev ∧
    (s'.buffers bh).bBlocknr = (s.buffers bh).bBlocknr

/-- No two heads carry the same device and block number. -/
def UniqueTags (s : Buffers) : Prop :=
  ∀ b b', (s.buffers b).bDev ≠ 0 →
    (s.buffers b).bDev = (s.buffers b').bDev →
    (s.buffers b).bBlocknr = (s.buffers b').bBlocknr → b = b'

/-- No head carries the tag. -/
def NoTag (s : Buffers) (dev block : Nat) : Prop :=
  ∀ b, ¬((s.buffers b).bDev = dev ∧ (s.buffers b).bBlocknr = block)

section Tags

variable {s s' s'' : Buffers} {bh : Bh}

theorem SameTags.refl (s : Buffers) : SameTags s s :=
  fun _ => ⟨rfl, rfl⟩

theorem SameTags.trans (h : SameTags s s') (h' : SameTags s' s'') :
    SameTags s s'' :=
  fun b => ⟨(h' b).1.trans (h b).1, (h' b).2.trans (h b).2⟩

theorem SameTags.of_buffers (h : s'.buffers = s.buffers) : SameTags s s' := by
  intro b
  rw [h]
  exact ⟨rfl, rfl⟩

theorem SameTags.uniqueTags (h : SameTags s s') (hs : UniqueTags s) : UniqueTags s' := by
  intro b b' hdev hd hb
  rw [(h b).1] at hdev hd
  rw [(h b').1] at hd
  rw [(h b).2, (h b').2] at hb
  exact hs b b' hdev hd hb

theorem SameTags.noTag {dev block : Nat} (h : SameTags s s') (hs : NoTag s dev block) :
    NoTag s' dev block := by
  intro b hb
  rw [(h b).1, (h b).2] at hb
  exact hs b hb

theorem findBuffer_none {dev block : Nat} (h : s.findBuffer dev block = none) :
    NoTag s dev block := by
  intro b hb
  have := List.find?_eq_none.mp h b (List.mem_finRange b)
  simp [hb.1, hb.2] at this

theorem sameTags_modHead {f : BufferHead → BufferHead} (hdev : ∀ h, (f h).bDev = h.bDev)
    (hblk : ∀ h, (f h).bBlocknr = h.bBlocknr) : SameTags s (s.modHead bh f) := by
  intro b
  by_cases hb : b = bh
  · subst hb
    simp [Buffers.modHead, Buffers.setHead, hdev, hblk]
  · simp [Buffers.modHead, Buffers.setHead, hb]

theorem sameTags_mapHere {i : Slot} : SameTags s (s.mapHere bh i) := by
  intro b
  by_cases hb : b = bh
  · subst hb
    simp [Buffers.mapHere]
  · simp [Buffers.mapHere, hb]

theorem sameTags_unmapSlot {i : Slot} : SameTags s (s.unmapSlot i) := by
  intro b
  cases hv : s.bufmemMap i with
  | none => simp [Buffers.unmapSlot, hv]
  | some v =>
      by_cases hb : b = v
      · subst hb
        simp [Buffers.unmapSlot, hv]
      · simp [Buffers.unmapSlot, hv, hb]

theorem sameTags_unmapBuffer : SameTags s (s.unmapBuffer bh) := by
  unfold Buffers.unmapBuffer
  split
  · exact sameTags_modHead (fun _ => rfl) (fun _ => rfl)
  · exact sameTags_modHead (fun _ => rfl) (fun _ => rfl)

theorem sameTags_unlockBuffer (s : Buffers) (bh : Bh) : SameTags s (s.unlockBuffer bh) := by
  have hflag : SameTags s (s.modHead bh fun h => { h with bLock := false }) :=
    sameTags_modHead (fun _ => rfl) (fun _ => rfl)
  exact hflag.trans sameTags_unmapBuffer

theorem sameTags_transfer {r : Request} : SameTags s (s.transfer r) := by
  apply SameTags.of_buffers
  unfold Buffers.transfer Buffers.store
  split
  · split <;> rfl
  · rfl

theorem sameTags_endRequest {m : Nat} {uptodate : Bool} : SameTags s (s.endRequest m uptodate) := by
  unfold Buffers.endRequest
  split
  · exact SameTags.refl s
  · rename_i r rest _
    have hflag : SameTags s
        (s.modHead (s.allRequests r).rqBh
          fun h => { h with bUptodate := uptodate }) :=
      sameTags_modHead (fun _ => rfl) (fun _ => rfl)
    have hunlock := hflag.trans (sameTags_unlockBuffer _ (s.allRequests r).rqBh)
    exact hunlock.trans (SameTags.of_buffers rfl)

theorem sameTags_ioInterrupt {m : Nat} {uptodate : Bool} :
    SameTags s (s.ioInterrupt m uptodate) := by
  unfold Buffers.ioInterrupt
  split
  · split
    · exact sameTags_transfer.trans sameTags_endRequest
    · exact sameTags_endRequest
  · exact SameTags.refl s

theorem sameTags_getRequest {n dev : Nat} : SameTags s (s.getRequest n dev).2 := by
  apply SameTags.of_buffers
  unfold Buffers.getRequest
  by_cases h : s.prevLimit = n
  · simp only [h, if_true]
    split <;> rfl
  · simp only [h, if_false]
    split <;> rfl

theorem sameTags_enqueue {m req : Nat} : SameTags s (s.enqueue m req).2 := by
  have hflag : SameTags s
      (s.modHead (s.allRequests req).rqBh fun h => { h with bDirty := false }) :=
    sameTags_modHead (fun _ => rfl) (fun _ => rfl)
  unfold Buffers.enqueue
  dsimp only
  split
  · exact hflag.trans (SameTags.of_buffers rfl)
  · exact hflag.trans (SameTags.of_buffers rfl)

theorem sameTags_putLastLru : SameTags s (s.putLastLru bh) := by
  apply SameTags.of_buffers
  unfold Buffers.putLastLru
  split <;> rfl

theorem sameTags_takeFree : SameTags s s.takeFree.2 := by
  unfold Buffers.takeFree
  split
  · exact sameTags_putLastLru
  · exact SameTags.refl s

end Tags

section Keeps

variable {fuel : Nat} {bh : Bh}

theorem keeps_get : (Prog.get : Code Buffers).Keeps SameTags :=
  Prog.keeps_get SameTags.refl

theorem keeps_updHead {f : BufferHead → BufferHead} (hdev : ∀ h, (f h).bDev = h.bDev)
    (hblk : ∀ h, (f h).bBlocknr = h.bBlocknr) :
    (updHead bh f).Keeps SameTags :=
  Prog.keeps_modify fun _ => sameTags_modHead hdev hblk

theorem keeps_unlockBuffer : (unlockBuffer bh).Keeps SameTags :=
  Prog.keeps_signal fun s => sameTags_unlockBuffer s bh

theorem keeps_endRequest {m : Nat} {uptodate : Bool} :
    (endRequest m uptodate).Keeps SameTags :=
  Prog.keeps_signal fun _ => sameTags_endRequest

theorem keeps_mapLoop (n : Nat) : (mapLoop bh n).Keeps SameTags := by
  induction n with
  | zero => trivial
  | succ n ih =>
      refine Prog.keeps_bind keeps_get fun s => ?_
      cases s.freeSlot with
      | some i => exact Prog.keeps_modify fun _ => sameTags_mapHere
      | none =>
          cases s.victim with
          | some i =>
              exact Prog.keeps_bind
                (Prog.keeps_modify fun _ => sameTags_unmapSlot) fun _ => ih
          | none => exact ih

theorem keeps_mapBuffer : (mapBuffer fuel bh).Keeps SameTags := by
  refine Prog.keeps_bind keeps_get fun s => ?_
  split
  · exact keeps_updHead (fun _ => rfl) (fun _ => rfl)
  · exact keeps_mapLoop fuel

theorem keeps_waitUnlocked (n : Nat) : (waitUnlocked bh n).Keeps SameTags := by
  induction n with
  | zero => trivial
  | succ n ih =>
      refine Prog.keeps_bind keeps_get fun s => ?_
      split
      · exact ih
      · trivial

theorem keeps_waitOnBuffer : (waitOnBuffer fuel bh).Keeps SameTags := by
  refine Prog.keeps_bind keeps_get fun s => ?_
  split
  · refine Prog.keeps_bind (keeps_updHead (fun _ => rfl) (fun _ => rfl)) ?_
    intro _
    refine Prog.keeps_bind (keeps_waitUnlocked fuel) ?_
    intro _
    exact keeps_updHead (fun _ => rfl) (fun _ => rfl)
  · trivial

theorem keeps_polledRequest {m : Nat} (n : Nat) : (polledRequest m n).Keeps SameTags := by
  induction n with
  | zero => trivial
  | succ n ih =>
      refine Prog.keeps_bind keeps_get fun s => ?_
      split
      · trivial
      · dsimp only
        split
        · trivial
        · split
          · trivial
          · split
            · exact Prog.keeps_bind keeps_endRequest fun _ => ih
            · refine Prog.keeps_bind
                (Prog.keeps_modify fun _ => sameTags_transfer) ?_
              intro _
              exact Prog.keeps_bind keeps_endRequest fun _ => ih

theorem keeps_addRequest {m req : Nat} : (addRequest fuel m req).Keeps SameTags := by
  refine Prog.keeps_bind
    (Prog.keeps_atomically fun _ => sameTags_enqueue) fun idle => ?_
  split
  · refine Prog.keeps_bind keeps_get fun s => ?_
    split
    · exact keeps_polledRequest fuel
    · trivial
    · trivial
  · trivial

theorem keeps_submit {m maxReq sector : Nat} {rw : Rw} :
    (submit fuel m maxReq rw sector bh).Keeps SameTags := by
  refine Prog.keeps_bind
    (Prog.keeps_atomically fun _ => sameTags_getRequest) fun req => ?_
  cases req with
  | none => trivial
  | some req =>
      exact Prog.keeps_bind
        (Prog.keeps_modify fun _ => SameTags.of_buffers rfl)
        fun _ => keeps_addRequest

theorem keeps_makeRequest {m : Nat} {rw : Rw} : (makeRequest fuel m rw bh).Keeps SameTags := by
  refine Prog.keeps_bind keeps_get fun s => ?_
  split
  · trivial
  · refine Prog.keeps_bind (keeps_updHead (fun _ => rfl) (fun _ => rfl)) ?_
    intro _
    refine Prog.keeps_bind keeps_mapBuffer ?_
    intro _
    refine Prog.keeps_bind keeps_get fun s => ?_
    cases rw with
    | read =>
        dsimp only
        split
        · exact keeps_unlockBuffer
        · exact keeps_submit
    | write =>
        dsimp only
        split
        · exact keeps_unlockBuffer
        · exact keeps_submit

theorem keeps_llRwBlk {rw : Rw} : (llRwBlk fuel rw bh).Keeps SameTags := by
  refine Prog.keeps_bind keeps_get fun s => ?_
  dsimp only
  split
  · exact keeps_makeRequest
  · exact keeps_updHead (fun _ => rfl) (fun _ => rfl)

theorem keeps_syncBuffers {dev : Nat} {wait : Bool} :
    (syncBuffers fuel dev wait).Keeps SameTags := by
  apply Prog.keeps_seqAll
  intro p hp
  obtain ⟨bh, _, rfl⟩ := List.mem_map.mp hp
  refine Prog.keeps_bind keeps_get fun s => ?_
  split
  · trivial
  · split
    · trivial
    · split
      · trivial
      · refine Prog.keeps_bind keeps_waitOnBuffer ?_
        intro _
        refine Prog.keeps_bind (keeps_updHead (fun _ => rfl) (fun _ => rfl)) ?_
        intro _
        refine Prog.keeps_bind keeps_llRwBlk ?_
        intro _
        exact keeps_updHead (fun _ => rfl) (fun _ => rfl)

theorem keeps_getFreeBuffer (n : Nat) : (getFreeBuffer fuel n).Keeps SameTags := by
  induction n with
  | zero => trivial
  | succ n ih =>
      refine Prog.keeps_bind
        (Prog.keeps_atomically fun _ => sameTags_takeFree) fun found => ?_
      cases found with
      | some bh => trivial
      | none => exact Prog.keeps_bind keeps_syncBuffers fun _ => ih

theorem keeps_getHashTable {dev block : Nat} (n : Nat) :
    (getHashTable fuel dev block n).Keeps SameTags := by
  induction n with
  | zero => trivial
  | succ n ih =>
      refine Prog.keeps_bind keeps_get fun s => ?_
      split
      · trivial
      · refine Prog.keeps_bind (keeps_updHead (fun _ => rfl) (fun _ => rfl)) ?_
        intro _
        refine Prog.keeps_bind keeps_waitOnBuffer ?_
        intro _
        refine Prog.keeps_bind keeps_get fun s => ?_
        split
        · trivial
        · exact Prog.keeps_bind (keeps_updHead (fun _ => rfl) (fun _ => rfl))
            fun _ => ih

theorem keeps_touchLru : (touchLru bh).Keeps SameTags := by
  refine Prog.keeps_bind keeps_get fun s => ?_
  split
  · exact Prog.keeps_modify fun _ => sameTags_putLastLru
  · trivial

theorem keeps_brelse : (brelse fuel bh).Keeps SameTags := by
  refine Prog.keeps_bind keeps_waitOnBuffer fun _ => ?_
  refine Prog.keeps_bind keeps_get fun s => ?_
  split
  · trivial
  · exact keeps_updHead (fun _ => rfl) (fun _ => rfl)

theorem keeps_readbuf : (readbuf fuel bh).Keeps SameTags := by
  refine Prog.keeps_bind keeps_get fun s => ?_
  split
  · trivial
  · refine Prog.keeps_bind keeps_llRwBlk fun _ => ?_
    refine Prog.keeps_bind keeps_waitOnBuffer fun _ => ?_
    refine Prog.keeps_bind keeps_get fun s => ?_
    split
    · trivial
    · exact Prog.keeps_bind keeps_brelse fun _ => trivial

end Keeps

/-- The calls tasks make on the cache. -/
inductive CacheCall
  | getblk (dev block : Nat)
  | bread (dev block : Nat)
  | brelse (bh : Bh)
  | mapBuffer (bh : Bh)
  | unmapBuffer (bh : Bh)
  | markBufferDirty (bh : Bh)
  | markBufferUptodate (bh : Bh)
  | llRwBlk (rw : Rw) (bh : Bh)
  | syncBuffers (dev : Nat) (wait : Bool)

/-- The code of a call. -/
def CacheCall.code (fuel : Nat) : CacheCall → Code Unit
  | .getblk dev block => do
      let _ ← Buffer.getblk fuel dev block
      pure ()
  | .bread dev block => do
      let _ ← Buffer.bread fuel dev block
      pure ()
  | .brelse bh => Buffer.brelse fuel bh
  | .mapBuffer bh => Buffer.mapBuffer fuel bh
  | .unmapBuffer bh => Buffer.unmapBuffer bh
  | .markBufferDirty bh => Buffer.markBufferDirty bh
  | .markBufferUptodate bh => Buffer.markBufferUptodate bh
  | .llRwBlk rw bh => Buffer.llRwBlk fuel rw bh
  | .syncBuffers dev wait => Buffer.syncBuffers fuel dev wait

/-- Tasks on the cache, and the interrupts that end transfers. -/
def cacheKernel (fuel : Nat) : Kernel Buffers Wait CacheCall (Nat × Bool) where
  code := CacheCall.code fuel
  irq := fun i s => s.ioInterrupt i.1 i.2
  irqWakes := fun i s => s.ioWakes i.1

/-- A task that has slept during its call gives a head a new tag only if no
head has that tag already. -/
def LateTagClear : Label CacheCall (Nat × Bool) → Buffers → Buffers → Prop
  | .did _ true, s, s' =>
      ∀ bh, (s'.buffers bh).bDev ≠ (s.buffers bh).bDev ∨
          (s'.buffers bh).bBlocknr ≠ (s.buffers bh).bBlocknr →
        s.findBuffer (s'.buffers bh).bDev (s'.buffers bh).bBlocknr = none
  | _, _, _ => True

instance (l : Label CacheCall (Nat × Bool)) (s s' : Buffers) :
    Decidable (LateTagClear l s s') :=
  match l with
  | .did _ true => inferInstanceAs (Decidable (∀ _, _))
  | .did _ false => inferInstanceAs (Decidable True)
  | .begun _ => inferInstanceAs (Decidable True)
  | .resumed _ => inferInstanceAs (Decidable True)
  | .interrupted _ => inferInstanceAs (Decidable True)

/-- What the tasks promise each other. -/
def cacheContract : Contract Buffers CacheCall (Nat × Bool) where
  inv := UniqueTags
  assume := LateTagClear
  guar := fun _ _ _ => True
  rely := SameTags

section Wp

variable {fuel : Nat} {c : CacheCall} {s : Buffers} {bh : Bh}
variable {dev block : Nat}

theorem wp_of_keeps {α : Type} {p : Code α} (hp : p.Keeps SameTags) (r : Bool) (hs : UniqueTags s) :
    p.wp cacheContract c r
      (fun r' _ s' => UniqueTags s' ∧ (r' = false → r = false ∧ SameTags s s'))
      s :=
  Prog.Keeps.wp (C := cacheContract) (R := SameTags)
    (fun _ _ _ => SameTags.trans) (fun _ _ h => h)
    (fun _ _ => SameTags.uniqueTags) (fun _ _ _ _ _ => trivial)
    hp r s s (SameTags.refl s) hs

theorem uniqueTags_tagHead (hs : UniqueTags s) (hnew : NoTag s dev block) :
    UniqueTags (s.tagHead bh dev block) := by
  intro b b' hdev hd hb
  simp only [Buffers.tagHead, Buffers.modHead, Buffers.setHead] at hdev hd hb
  by_cases h : b = bh <;> by_cases h' : b' = bh
  · rw [h, h']
  · subst h
    rw [Function.update_self, Function.update_of_ne h'] at hd hb
    exact absurd ⟨hd.symm, hb.symm⟩ (hnew b')
  · subst h'
    rw [Function.update_self, Function.update_of_ne h] at hd hb
    exact absurd ⟨hd, hb⟩ (hnew b)
  · rw [Function.update_of_ne h] at hdev hd hb
    rw [Function.update_of_ne h'] at hd hb
    exact hs b b' hdev hd hb

theorem uniqueTags_tagHead_late (hs : UniqueTags s)
    (hlate : LateTagClear (.did c true) s (s.tagHead bh dev block)) :
    UniqueTags (s.tagHead bh dev block) := by
  by_cases hsame : (s.buffers bh).bDev = dev ∧ (s.buffers bh).bBlocknr = block
  · have htags : SameTags s (s.tagHead bh dev block) := by
      intro b
      by_cases hb : b = bh
      · subst hb
        simp [Buffers.tagHead, Buffers.modHead, Buffers.setHead, hsame]
      · simp [Buffers.tagHead, Buffers.modHead, Buffers.setHead, hb]
    exact htags.uniqueTags hs
  · have hnone := hlate bh
    simp only [Buffers.tagHead, Buffers.modHead, Buffers.setHead,
      Function.update_self] at hnone
    refine uniqueTags_tagHead hs (findBuffer_none (hnone ?_))
    by_contra hc
    rw [not_or, not_not, not_not] at hc
    exact hsame ⟨hc.1.symm, hc.2.symm⟩

/-- When the loop of `getblk` decides to create a head, nobody has the tag. -/
theorem wp_lookup (n : Nat) :
    ∀ r s, UniqueTags s →
      (lookup fuel dev block n).wp cacheContract c r
        (fun _ found s' =>
          UniqueTags s' ∧ (found = none → NoTag s' dev block)) s := by
  induction n with
  | zero =>
      intro r s _
      trivial
  | succ n ih =>
      intro r s hs
      refine Prog.wp_bind _ _ _ ?_
      refine Prog.wp_mono ?_ _ _ _ (wp_of_keeps (keeps_getHashTable fuel) r hs)
      rintro r₁ found s₁ ⟨hs₁, -⟩
      cases found with
      | some bh =>
          refine Prog.wp_bind _ _ _ ?_
          refine Prog.wp_mono ?_ _ _ _ (wp_of_keeps keeps_touchLru r₁ hs₁)
          rintro r₂ _ s₂ ⟨hs₂, -⟩
          exact ⟨hs₂, fun h => by cases h⟩
      | none =>
          refine Prog.wp_bind _ _ _ ?_
          intro _
          refine ⟨hs₁, trivial, ?_⟩
          intro s₂ htags hs₂
          rw [Prog.wp]
          cases hf : s₁.findBuffer dev block with
          | none =>
              exact ⟨hs₂, fun _ => SameTags.noTag htags (findBuffer_none hf)⟩
          | some b =>
              exact ih r₁ s₂ hs₂

theorem wp_getblk (r : Bool) (hs : UniqueTags s) :
    (getblk fuel dev block).wp cacheContract c r
      (fun _ _ s' => UniqueTags s') s := by
  refine Prog.wp_bind _ _ _ ?_
  refine Prog.wp_mono ?_ _ _ _ (wp_lookup fuel r s hs)
  rintro r₁ found s₁ ⟨hs₁, hnone⟩
  cases found with
  | some bh => exact hs₁
  | none =>
      have htag := hnone rfl
      refine Prog.wp_bind _ _ _ ?_
      refine Prog.wp_mono ?_ _ _ _ (wp_of_keeps (keeps_getFreeBuffer fuel) r₁ hs₁)
      rintro r₂ bh s₂ ⟨hs₂, hsame⟩
      refine Prog.wp_bind _ _ _ ?_
      intro hlate
      have hunique : UniqueTags (s₂.tagHead bh dev block) := by
        cases r₂ with
        | false => exact uniqueTags_tagHead hs₂ ((hsame rfl).2.noTag htag)
        | true => exact uniqueTags_tagHead_late (c := c) hs₂ hlate
      exact ⟨hunique, trivial, fun s₃ _ hs₃ => hs₃⟩

theorem wp_call_of_keeps {p : Code Unit} (hp : p.Keeps SameTags) (hs : UniqueTags s) :
    p.wp cacheContract c false (fun _ _ _ => True) s :=
  Prog.wp_mono (fun _ _ _ _ => trivial) _ _ _ (wp_of_keeps hp false hs)

end Wp

theorem cacheKernel_meets (fuel : Nat) :
    (cacheKernel fuel).Meets cacheContract where
  rely_refl := SameTags.refl
  rely_trans := fun _ _ _ => SameTags.trans
  guar_refl := fun _ _ _ => trivial
  irq := by
    intro i s hs
    have htags : SameTags s (s.ioInterrupt i.1 i.2) := sameTags_ioInterrupt
    exact ⟨htags.uniqueTags hs, trivial, htags⟩
  code := by
    intro c s hs
    cases c with
    | getblk dev block =>
        refine Prog.wp_bind _ _ _ ?_
        exact Prog.wp_mono (fun _ _ _ _ => trivial) _ _ _ (wp_getblk false hs)
    | bread dev block =>
        refine Prog.wp_bind _ _ _ (Prog.wp_bind _ _ _ ?_)
        refine Prog.wp_mono ?_ _ _ _ (wp_getblk false hs)
        intro r bh s' hs'
        exact Prog.wp_mono (fun _ _ _ _ => trivial) _ _ _
          (wp_of_keeps keeps_readbuf r hs')
    | brelse bh => exact wp_call_of_keeps keeps_brelse hs
    | mapBuffer bh => exact wp_call_of_keeps keeps_mapBuffer hs
    | unmapBuffer bh =>
        exact wp_call_of_keeps
          (Prog.keeps_signal fun _ => sameTags_unmapBuffer) hs
    | markBufferDirty bh =>
        exact wp_call_of_keeps (keeps_updHead (fun _ => rfl) (fun _ => rfl)) hs
    | markBufferUptodate bh =>
        exact wp_call_of_keeps (keeps_updHead (fun _ => rfl) (fun _ => rfl)) hs
    | llRwBlk rw bh => exact wp_call_of_keeps keeps_llRwBlk hs
    | syncBuffers dev wait => exact wp_call_of_keeps keeps_syncBuffers hs

section Unique

variable {τ : Type} [DecidableEq τ]

/-- **One buffer for a block.**  In every run, by any number of tasks and with
interrupts at any time, in which a task that has slept since it entered `getblk`
never gives a head a tag that some head has by then, no two heads ever carry
the same device and block. -/
theorem cacheKernel_unique
    (hw : Hardware) (fuel : Nat) (ms : List (Move CacheCall (Nat × Bool) τ))
    (hclear : AllSteps (cacheKernel fuel) LateTagClear
      (Sys.start (bufferInit hw)) ms) :
    AllSteps (cacheKernel fuel) (fun _ _ s' => UniqueTags s')
      (Sys.start (bufferInit hw)) ms := by
  have hinit : UniqueTags (bufferInit hw) := by
    intro b b' hdev
    exact absurd rfl hdev
  have hok : (Sys.start (bufferInit hw) : Sys Buffers Wait CacheCall τ).Ok
      cacheContract :=
    Sys.ok_start _ hinit
  have hall := Kernel.sound (cacheKernel_meets fuel) ms _ hok hclear
  exact AllSteps.mono (fun _ _ _ h => h.1) ms _ hall

end Unique

/-- The first task holds all heads, one of them dirty again while its write-back
is under way.  The second asks for block 100, finds no free head and sleeps
flushing.  The first releases two heads, the third asks for block `b`, the
write-back ends, and the second goes on. -/
def lateRun (b : Nat) : List (Move CacheCall (Nat × Bool) Nat) :=
  (List.range nrBuffers).flatMap (fun k => enters 0 (.getblk 0x200 k) 5) ++
    enters 0 (.markBufferDirty 0) 2 ++ enters 0 (.llRwBlk .write 0) 12 ++
    enters 0 (.markBufferDirty 0) 2 ++ enters 1 (.getblk 0x200 100) 8 ++
    enters 0 (.brelse 1) 4 ++ enters 0 (.brelse 2) 4 ++
    enters 2 (.getblk 0x200 b) 5 ++ [.irq (2, true)] ++ resumes 1 80

/-- Asking for different blocks, the tasks get different heads. -/
theorem cacheKernel_unique_lateRun :
    AllSteps (cacheKernel 3) LateTagClear
        (Sys.start (bufferInit (blankHardware .interrupt))) (lateRun 101) ∧
      AllSteps (cacheKernel 3) (fun _ _ s' => UniqueTags s')
        (Sys.start (bufferInit (blankHardware .interrupt))) (lateRun 101) := by
  have h : AllSteps (cacheKernel 3) LateTagClear
      (Sys.start (bufferInit (blankHardware .interrupt))) (lateRun 101) := by
    decide +kernel
  exact ⟨h, cacheKernel_unique _ _ _ h⟩

/-- Asking for the same block, they give its tag to two heads. -/
theorem lateTag_duplicates :
    (Sys.runs (cacheKernel 3)
        (Sys.start (bufferInit (blankHardware .interrupt))) (lateRun 100)).map
        (fun S =>
          (((S.st.buffers 1).bDev, (S.st.buffers 1).bBlocknr),
            ((S.st.buffers 2).bDev, (S.st.buffers 2).bBlocknr))) =
      some ((0x200, 100), (0x200, 100)) := by
  decide +kernel

end Buffer
end Elks
