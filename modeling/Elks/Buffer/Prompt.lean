import Elks.Buffer.Read
import Elks.Lib.Prompt

/-!
# The cache does not wait

Where few buffers are mapped and the devices do their transfers at once, no
function of the cache has to wait for another task.  `Buffers.uses` is how often
each buffer is mapped and held; for each function it is said what is done to it.

* `llRwBlk_prompt`: a transfer maps its buffer and unmaps it again.
* `syncBuffers_prompt`, `getFreeBuffer_prompt`: nothing is mapped or held more
  than before.
* `getblk_prompt`, `bread_prompt`: the buffer returned is held once more.
-/

namespace Elks
namespace Buffer

open Lib

/-- How often each buffer is mapped, and how often it is held. -/
@[ext] structure Uses where
  mapped : Bh → Nat
  held : Bh → Nat

namespace Uses

variable (u : Uses) (bh : Bh)

/-- After a `map_buffer`. -/
def pin : Uses :=
  { u with mapped := Function.update u.mapped bh (u.mapped bh + 1) }

/-- After an `unmap_buffer`. -/
def unpin : Uses :=
  { u with mapped := Function.update u.mapped bh (u.mapped bh - 1) }

/-- After `b_count` has gone up. -/
def take : Uses :=
  { u with held := Function.update u.held bh (u.held bh + 1) }

/-- After `b_count` has gone down. -/
def drop : Uses :=
  { u with held := Function.update u.held bh (u.held bh - 1) }

@[simp] theorem unpin_pin : (u.pin bh).unpin bh = u := by
  simp [pin, unpin]

@[simp] theorem drop_take : (u.take bh).drop bh = u := by
  simp [take, drop]

/-- L1 has a block that nobody uses. -/
def Few : Prop :=
  (Finset.univ.filter fun b => u.mapped b ≠ 0).card < nrMapbufs - 1

/-- There is room for one call: another buffer can be mapped, twice, and another
one held. -/
structure Roomy : Prop where
  card : (Finset.univ.filter fun b => u.mapped b ≠ 0).card + 1 < nrMapbufs - 1
  mapped_lt : ∀ b, u.mapped b + 2 < 2 ^ 16
  held_lt : ∀ b, u.held b + 1 < 2 ^ 16
  held_card : (Finset.univ.filter fun b => 0 < u.held b).card < nrBuffers - nrMapbufs

variable {u}

theorem Roomy.few (h : u.Roomy) : u.Few :=
  Nat.lt_of_succ_lt h.card

theorem Roomy.few_pin (h : u.Roomy) : (u.pin bh).Few := by
  have hsub : (Finset.univ.filter fun b => (u.pin bh).mapped b ≠ 0) ⊆
      insert bh (Finset.univ.filter fun b => u.mapped b ≠ 0) := by
    intro b hb
    rcases eq_or_ne b bh with rfl | hne
    · exact Finset.mem_insert_self _ _
    · have hmapped : Function.update u.mapped bh (u.mapped bh + 1) b ≠ 0 :=
        (Finset.mem_filter.mp hb).2
      rw [Function.update_of_ne hne] at hmapped
      exact Finset.mem_insert_of_mem (Finset.mem_filter.mpr ⟨Finset.mem_univ b, hmapped⟩)
  exact lt_of_le_of_lt ((Finset.card_le_card hsub).trans (Finset.card_insert_le _ _)) h.card

end Uses

/-- How often the buffers are mapped and held. -/
def Buffers.uses (s : Buffers) : Uses where
  mapped := fun b => (s.buffers b).bMapcount
  held := fun b => (s.buffers b).bCount

section Changes

variable {s : Buffers} {bh : Bh}

theorem uses_modHead {f : BufferHead → BufferHead} (hmap : ∀ h, (f h).bMapcount = h.bMapcount)
    (hcount : ∀ h, (f h).bCount = h.bCount) : (s.modHead bh f).uses = s.uses := by
  refine Uses.ext (funext fun b => ?_) (funext fun b => ?_)
  · rcases eq_or_ne b bh with rfl | hb
    · simp [Buffers.uses, Buffers.modHead, Buffers.setHead, hmap]
    · simp [Buffers.uses, Buffers.modHead, Buffers.setHead, hb]
  · rcases eq_or_ne b bh with rfl | hb
    · simp [Buffers.uses, Buffers.modHead, Buffers.setHead, hcount]
    · simp [Buffers.uses, Buffers.modHead, Buffers.setHead, hb]

theorem uses_count (g : Nat → Nat) :
    (s.modHead bh fun h => { h with bCount := g h.bCount }).uses =
      { s.uses with held := Function.update s.uses.held bh (g (s.uses.held bh)) } := by
  refine Uses.ext (funext fun b => ?_) (funext fun b => ?_)
  · rcases eq_or_ne b bh with rfl | hb
    · simp [Buffers.uses, Buffers.modHead, Buffers.setHead]
    · simp [Buffers.uses, Buffers.modHead, Buffers.setHead, hb]
  · rcases eq_or_ne b bh with rfl | hb
    · simp [Buffers.uses, Buffers.modHead, Buffers.setHead]
    · simp [Buffers.uses, Buffers.modHead, Buffers.setHead, hb]

theorem uses_incCount (hcount : s.uses.held bh + 1 < 2 ^ 16) :
    (s.modHead bh fun h => { h with bCount := wrap 16 (h.bCount + 1) }).uses =
      s.uses.take bh := by
  have hwrap : wrap 16 (s.uses.held bh + 1) = s.uses.held bh + 1 := Nat.mod_eq_of_lt hcount
  rw [uses_count fun n => wrap 16 (n + 1), hwrap, Uses.take]

theorem uses_decCount (hpos : 0 < s.uses.held bh) (hcount : s.uses.held bh < 2 ^ 16) :
    (s.modHead bh fun h => { h with bCount := wrapSub 16 h.bCount 1 }).uses =
      s.uses.drop bh := by
  have hwrap : wrapSub 16 (s.uses.held bh) 1 = s.uses.held bh - 1 := by
    unfold wrapSub wrap
    omega
  rw [uses_count fun n => wrapSub 16 n 1, hwrap, Uses.drop]

theorem uses_putLastLru : (s.putLastLru bh).uses = s.uses := by
  unfold Buffers.putLastLru
  split <;> rfl

theorem uses_unmapBuffer : (s.unmapBuffer bh).uses = s.uses.unpin bh := by
  have hminus : s.unmapBuffer bh =
      s.modHead bh fun h => { h with bMapcount := h.bMapcount - 1 } := by
    unfold Buffers.unmapBuffer
    split
    · rename_i hzero
      simp only [Buffers.modHead, hzero]
    · rfl
  rw [hminus]
  refine Uses.ext (funext fun b => ?_) (funext fun b => ?_)
  · rcases eq_or_ne b bh with rfl | hb
    · simp [Buffers.uses, Uses.unpin, Buffers.modHead, Buffers.setHead]
    · simp [Buffers.uses, Uses.unpin, Buffers.modHead, Buffers.setHead, hb]
  · rcases eq_or_ne b bh with rfl | hb
    · simp [Buffers.uses, Uses.unpin, Buffers.modHead, Buffers.setHead]
    · simp [Buffers.uses, Uses.unpin, Buffers.modHead, Buffers.setHead, hb]

theorem MapFrame.uses {s' : Buffers} (h : MapFrame bh s s')
    (hmapped : (s.buffers bh).bMapcount + 1 < 2 ^ 16) : s'.uses = s.uses.pin bh := by
  have hcore := h.step.core_eq
  refine Uses.ext (funext fun b => ?_) (funext fun b => ?_)
  · rcases eq_or_ne b bh with rfl | hb
    · have hwrap : wrap 16 ((s.buffers b).bMapcount + 1) = (s.buffers b).bMapcount + 1 :=
        Nat.mod_eq_of_lt hmapped
      simp only [Buffers.uses, Uses.pin, Function.update_self, h.own, hwrap]
    · simp only [Buffers.uses, Uses.pin, Function.update_of_ne hb, h.others b hb]
  · have hcount : (s'.core.heads b).bCount = (s.core.heads b).bCount := by
      rw [hcore]
    exact hcount

end Changes

section Transfer

variable {s : Buffers} {bh : Bh} {req m fuel : Nat}

theorem uses_endRequest (uptodate : Bool) (hqueue : s.queue m = [req])
    (hbh : (s.allRequests req).rqBh = bh) : (s.endRequest m uptodate).uses = s.uses.unpin bh := by
  let s₁ := s.modHead bh fun h => { h with bUptodate := uptodate }
  let s₂ := s₁.modHead bh fun h => { h with bLock := false }
  have hend : (s.endRequest m uptodate).uses = (s₂.unmapBuffer bh).uses := by
    simp only [Buffers.endRequest, hqueue, hbh, Buffers.unlockBuffer]
    rfl
  have h₁ : s₁.uses = s.uses := uses_modHead (fun _ => rfl) (fun _ => rfl)
  have h₂ : s₂.uses = s₁.uses := uses_modHead (fun _ => rfl) (fun _ => rfl)
  rw [hend, uses_unmapBuffer, h₂, h₁]

theorem addRequest_prompt (n : Nat) (hqueue : s.queue m = []) (hbh : (s.allRequests req).rqBh = bh)
    (hdev : major (s.allRequests req).rqDev = m) (hlock : (s.buffers bh).bLock = true)
    (hpolled : s.requestFn m = .polled) :
    Prog.Prompt (addRequest (n + 2) m req) s fun _ s' => s'.uses = s.uses.unpin bh := by
  have hqueue₁ : (s.started m req bh).queue m = [req] := by
    simp [Buffers.started]
  have hreq₁ : (s.started m req bh).allRequests req = s.allRequests req := rfl
  have hlock₁ : ((s.started m req bh).buffers bh).bLock = true :=
    (started_buffers bh).2.2.trans hlock
  have hfn : (s.started m req bh).requestFn m = .polled := hpolled
  have huses : (s.started m req bh).uses = s.uses :=
    uses_modHead (s := s) (f := fun h => { h with bDirty := false }) (fun _ => rfl)
      (fun _ => rfl)
  have hserve := (polledRequest_runs n hqueue₁ (by rw [hreq₁]; exact hdev)
    (by rw [hreq₁, hbh]; exact hlock₁)).prompt
  simp only [addRequest, Prog.prompt_bind, Prog.prompt_atomically, enqueue_idle hqueue hbh,
    if_true, requestFn, Prog.prompt_get, hfn]
  refine hserve.mono ?_
  rintro _ s' rfl
  split
  · rw [uses_endRequest false hqueue₁ hbh, huses]
  · obtain ⟨hbuf, hq, hreqs, -⟩ := transfer_frame (s.started m req bh) (s.allRequests req)
    have hsame : ((s.started m req bh).transfer (s.allRequests req)).uses = s.uses := by
      rw [← huses]
      unfold Buffers.uses
      rw [hbuf]
    have hqueue₂ : ((s.started m req bh).transfer (s.allRequests req)).queue m = [req] := by
      rw [hq]
      exact hqueue₁
    have hbh₂ : (((s.started m req bh).transfer (s.allRequests req)).allRequests req).rqBh =
        bh := by
      rw [hreqs]
      exact hbh
    rw [hreq₁, uses_endRequest true hqueue₂ hbh₂, hsame]

theorem submit_prompt (n : Nat) {maxReq : Nat} (rw : Rw) (sector : Nat) (hmax : 0 < maxReq)
    (hs : Quiet s) (hlock : (s.buffers bh).bLock = true) (hm : major (s.buffers bh).bDev = m)
    (hpolled : s.requestFn m = .polled) :
    Prog.Prompt (submit (n + 2) m maxReq rw sector bh) s fun _ s' =>
      s'.uses = s.uses.unpin bh := by
  obtain ⟨req, found, limit, hget⟩ :=
    getRequest_spec (s.buffers bh).bDev hmax hs.inactive
  simp only [submit, Prog.prompt_bind, Prog.prompt_atomically, hget, Prog.prompt_modify]
  generalize ht : Buffers.fillRequest req rw sector bh _ = t
  have hrest : t.queue = s.queue ∧ t.buffers = s.buffers ∧ t.requestFn = s.requestFn ∧
      t.uses = s.uses := by
    rw [← ht]
    exact ⟨rfl, rfl, rfl, rfl⟩
  obtain ⟨hqueue, hbuf, hfn, huses⟩ := hrest
  have hreq : (t.allRequests req).rqBh = bh ∧
      (t.allRequests req).rqDev = (s.buffers bh).bDev := by
    rw [← ht]
    simp [Buffers.fillRequest]
  rw [← huses]
  refine addRequest_prompt n ?_ hreq.1 ?_ ?_ ?_
  · rw [hqueue]
    exact hs.queue m
  · rw [hreq.2]
    exact hm
  · rw [hbuf]
    exact hlock
  · rw [hfn]
    exact hpolled

theorem llRwBlk_prompt (rw : Rw) (hfuel : 2 ≤ fuel) (hs : Quiet s)
    (hlock : (s.buffers bh).bLock = false) (hneeded : Needed (s.core.heads bh) rw)
    (hgood : s.core.Good (s.buffers bh).bDev) (hfew : s.uses.Few)
    (hmapped : (s.buffers bh).bMapcount + 1 < 2 ^ 16) :
    Prog.Prompt (llRwBlk fuel rw bh) s fun _ s' => s'.uses = s.uses := by
  obtain ⟨n, rfl⟩ := Nat.exists_eq_add_of_le' hfuel
  have hpolled : s.requestFn (major (s.buffers bh).bDev) = .polled := hgood.2.1
  have hcond : major (s.buffers bh).bDev < maxBlkdev ∧
      s.requestFn (major (s.buffers bh).bDev) ≠ .absent :=
    ⟨hgood.1, by simp [hpolled]⟩
  have hplain : Plain fun h => { h with bLock := true } :=
    ⟨fun _ => rfl, fun _ => rfl, fun _ => rfl⟩
  let s₁ := s.modHead bh fun h => { h with bLock := true }
  have hs₁ : Quiet s₁ := quiet_modHead hplain hs
  have huses₁ : s₁.uses = s.uses := uses_modHead (fun _ => rfl) (fun _ => rfl)
  have hown₁ : s₁.buffers bh = { s.buffers bh with bLock := true } := by
    simp [s₁, Buffers.modHead, Buffers.setHead]
  have hfew₁ : (Finset.univ.filter fun b => (s₁.buffers b).bMapcount ≠ 0).card <
      nrMapbufs - 1 := by
    have h := hfew
    rw [← huses₁] at h
    exact h
  simp only [llRwBlk, Prog.prompt_bind, Prog.prompt_get, if_pos hcond, makeRequest, hlock,
    Bool.false_eq_true, if_false, updHead, Prog.prompt_modify]
  refine (mapBuffer_runs n hs₁.twoLevel hfew₁).prompt.mono ?_
  intro _ s₂ hmap
  have hs₂ : Quiet s₂ := hmap.step.quiet hs₁
  have hhead : s₂.core.heads bh = { s.core.heads bh with bLock := true } := by
    rw [hmap.step.core_eq, core_modHead hplain]
    simp [Core.setHead]
  have hlock₂ : (s₂.buffers bh).bLock = true := by
    rw [← core_bLock, hhead]
  have hdev₂ : (s₂.buffers bh).bDev = (s.buffers bh).bDev := by
    rw [← core_bDev, hhead]
    rfl
  have hfn₂ : s₂.requestFn (major (s.buffers bh).bDev) = .polled := by
    have h : s₂.core.requestFn = s.core.requestFn := by
      rw [hmap.step.core_eq, core_modHead hplain]
      rfl
    exact (congrFun h _).trans hpolled
  have huses₂ : s₂.uses.unpin bh = s.uses := by
    rw [hmap.uses (by rw [hown₁]; exact hmapped), Uses.unpin_pin, huses₁]
  have hsubmit : ∀ maxReq, 0 < maxReq →
      Prog.Prompt (submit (n + 2) (major (s.buffers bh).bDev) maxReq rw
        ((s.buffers bh).bBlocknr * 2) bh) s₂ fun _ s' => s'.uses = s.uses := by
    intro maxReq hmax
    rw [← huses₂]
    exact submit_prompt n rw _ hmax hs₂ hlock₂ (congrArg major hdev₂) hfn₂
  cases rw with
  | read =>
      have hup : (s₂.buffers bh).bUptodate = false := by
        rw [← core_bUptodate, hhead]
        exact hneeded
      simp only [hup, Bool.false_eq_true, if_false]
      exact hsubmit _ (by decide)
  | write =>
      have hdirty : (s₂.buffers bh).bDirty = true := by
        rw [← core_bDirty, hhead]
        exact hneeded
      simp only [hdirty, Bool.not_true, Bool.false_eq_true, if_false]
      exact hsubmit _ (by decide)

end Transfer

section Calls

variable {good : Nat → Prop} {flat : Flat} {s : Buffers} {bh : Bh} {fuel dev block : Nat}

theorem waitOnBuffer_prompt (hlock : (s.buffers bh).bLock = false) :
    Prog.Prompt (waitOnBuffer fuel bh) s fun _ s' => s = s' := by
  simp [waitOnBuffer, hlock]

theorem syncBuffer_prompt (dev : Nat) (wait : Bool) (bh : Bh) (hfuel : 2 ≤ fuel)
    (hs : Quiet s) (hc : Coherent good flat s.core) (hroom : s.uses.Roomy) :
    Prog.Prompt (syncBuffer fuel dev wait bh) s fun _ s' => s'.uses = s.uses := by
  simp only [syncBuffer, Prog.prompt_bind, Prog.prompt_get]
  split
  · rfl
  · split
    · rfl
    · rename_i hclean
      have hdirty : (s.buffers bh).bDirty = true := by simpa using hclean
      have hlock : (s.buffers bh).bLock = false := hc.unlocked bh
      rw [if_neg (by simp [hlock])]
      have hdev := (hc.dirty bh hdirty).2
      have hplain : Plain fun h => { h with bCount := wrap 16 (h.bCount + 1) } :=
        ⟨fun _ => rfl, fun _ => rfl, fun _ => rfl⟩
      let s₁ := s.modHead bh fun h => { h with bCount := wrap 16 (h.bCount + 1) }
      have hs₁ : Quiet s₁ := quiet_modHead hplain hs
      have huses₁ : s₁.uses = s.uses.take bh := uses_incCount (hroom.held_lt bh)
      have hcore₁ : s₁.core =
          s.core.setHead bh fun h => { h with bCount := wrap 16 (h.bCount + 1) } :=
        core_modHead hplain
      have hhead₁ : s₁.core.heads bh =
          { s.core.heads bh with bCount := wrap 16 ((s.core.heads bh).bCount + 1) } := by
        rw [hcore₁]
        simp [Core.setHead]
      have hgood₁ : s₁.core.Good (s₁.buffers bh).bDev := by
        rw [← core_bDev, hhead₁, hcore₁]
        exact hc.devices _ (hc.good bh hdev)
      simp only [Prog.prompt_bind]
      refine (waitOnBuffer_prompt hlock).mono ?_
      rintro _ _ rfl
      simp only [incCount, updHead, Prog.prompt_modify]
      refine (llRwBlk_prompt .write hfuel hs₁ ?_ ?_ hgood₁ ?_ ?_).mono ?_
      · rw [← core_bLock, hhead₁]
        exact hlock
      · rw [hhead₁]
        exact hdirty
      · rw [huses₁]
        exact hroom.few
      · have hmapped : s₁.uses.mapped bh + 1 < 2 ^ 16 := by
          rw [huses₁]
          exact Nat.lt_of_succ_lt (hroom.mapped_lt bh)
        exact hmapped
      · intro _ s₂ huses₂
        rw [huses₁] at huses₂
        have hheld : s₂.uses.held bh = s.uses.held bh + 1 := by
          rw [huses₂]
          simp [Uses.take]
        simp only [decCount, updHead, Prog.prompt_modify]
        rw [uses_decCount (by omega) (by rw [hheld]; exact hroom.held_lt bh), huses₂,
          Uses.drop_take]

theorem syncList_prompt (dev : Nat) (wait : Bool) (l : List Bh) (hfuel : 2 ≤ fuel) :
    ∀ s, Quiet s → Coherent good flat s.core → s.uses.Roomy →
      Prog.Prompt (Prog.seqAll (l.map (syncBuffer fuel dev wait))) s fun _ s' =>
        s'.uses = s.uses := by
  induction l with
  | nil =>
      intro s _ _ _
      rfl
  | cons b l ih =>
      intro s hs hc hroom
      refine (Prog.prompt_bind _ _ _ _).mpr ?_
      refine ((syncBuffer_prompt dev wait b hfuel hs hc hroom).with_awake
        (syncBuffer_quietly hfuel hs hc)).mono ?_
      rintro _ s₁ ⟨⟨hs₁, hc₁, -⟩, huses₁⟩
      rw [← huses₁] at hroom ⊢
      exact ih s₁ hs₁ hc₁ hroom

theorem syncBuffers_prompt (dev : Nat) (wait : Bool) (hfuel : 2 ≤ fuel)
    (hs : Quiet s) (hc : Coherent good flat s.core) (hroom : s.uses.Roomy) :
    Prog.Prompt (syncBuffers fuel dev wait) s fun _ s' => s'.uses = s.uses :=
  syncList_prompt dev wait _ hfuel s hs hc hroom

theorem getFreeBuffer_prompt (n : Nat) (hfuel : 2 ≤ fuel) :
    ∀ s, Quiet s → Coherent good flat s.core → s.uses.Roomy →
      Prog.Prompt (getFreeBuffer fuel n) s fun bh s' =>
        s'.uses = s.uses ∧ s'.uses.held bh = 0 := by
  induction n with
  | zero =>
      intro s _ _ _
      exact Prog.Prompt.fault (by decide)
  | succ n ih =>
      intro s hs hc hroom
      simp only [getFreeBuffer, Prog.prompt_bind, Prog.prompt_atomically, Buffers.takeFree]
      cases hfind : s.lru.find? s.free with
      | some bh =>
          have hfree : s.free bh = true := List.find?_some hfind
          have hcount : (s.buffers bh).bCount = 0 := (free_spare hfree).count
          refine ⟨uses_putLastLru, ?_⟩
          rw [uses_putLastLru]
          exact hcount
      | none =>
          simp only [Prog.prompt_bind]
          refine ((syncBuffers_prompt 0 false hfuel hs hc hroom).with_awake
            (syncBuffers_quietly 0 false hfuel hs hc)).mono ?_
          rintro _ s₁ ⟨⟨hs₁, hc₁, -⟩, huses₁⟩
          rw [← huses₁] at hroom ⊢
          exact ih s₁ hs₁ hc₁ hroom

theorem lookup_prompt {n : Nat} (hc : Coherent good flat s.core) (hroom : s.uses.Roomy) :
    Prog.Prompt (lookup (fuel + 1) dev block (n + 1)) s fun found s' =>
      s'.uses = found.elim s.uses s.uses.take := by
  rw [lookup]
  simp only [Prog.prompt_bind, getHashTable, Prog.prompt_get]
  cases hf : s.findBuffer dev block with
  | none =>
      simp only [Prog.prompt_pure, Prog.prompt_bind, Prog.prompt_get, hf]
      rfl
  | some bh =>
      obtain ⟨hdev, hblk⟩ := findBuffer_some hf
      let s₁ := s.modHead bh fun h => { h with bCount := wrap 16 (h.bCount + 1) }
      have huses₁ : s₁.uses = s.uses.take bh := uses_incCount (hroom.held_lt bh)
      have hown₁ : (s₁.buffers bh).bLock = false ∧ (s₁.buffers bh).bDev = dev ∧
          (s₁.buffers bh).bBlocknr = block := by
        simp only [s₁, Buffers.modHead, Buffers.setHead, Function.update_self]
        exact ⟨hc.unlocked bh, hdev, hblk⟩
      simp only [Prog.prompt_bind, incCount, updHead, Prog.prompt_modify]
      refine (waitOnBuffer_prompt hown₁.1).mono ?_
      rintro _ _ rfl
      simp only [Prog.prompt_get]
      rw [if_pos hown₁.2]
      simp only [Prog.prompt_pure, Prog.prompt_bind, touchLru, Prog.prompt_get]
      split
      · simp only [Prog.prompt_modify]
        exact uses_putLastLru.trans huses₁
      · simp only [Prog.prompt_pure]
        exact huses₁

theorem uses_tagHead (hfree : s.uses.held bh = 0) :
    (s.tagHead bh dev block).uses = s.uses.take bh := by
  refine Uses.ext (funext fun b => ?_) (funext fun b => ?_)
  · rcases eq_or_ne b bh with rfl | hb
    · simp [Buffers.uses, Uses.take, Buffers.tagHead, Buffers.modHead, Buffers.setHead]
    · simp [Buffers.uses, Uses.take, Buffers.tagHead, Buffers.modHead, Buffers.setHead, hb]
  · rcases eq_or_ne b bh with rfl | hb
    · have hcount : (s.buffers b).bCount = 0 := hfree
      simp [Buffers.uses, Uses.take, Buffers.tagHead, Buffers.modHead, Buffers.setHead, hcount]
    · simp [Buffers.uses, Uses.take, Buffers.tagHead, Buffers.modHead, Buffers.setHead, hb]

theorem getblk_prompt (hfuel : 2 ≤ fuel) (hs : Quiet s) (hc : Coherent good flat s.core)
    (hroom : s.uses.Roomy) :
    Prog.Prompt (getblk fuel dev block) s fun bh s' => s'.uses = s.uses.take bh := by
  obtain ⟨n, rfl⟩ := Nat.exists_eq_add_of_le' hfuel
  simp only [getblk, Prog.prompt_bind]
  refine ((lookup_prompt hc hroom).with_awake (lookup_quietly hs hc)).mono ?_
  rintro found s₁ ⟨⟨hs₁, hc₁, -⟩, huses₁⟩
  cases found with
  | some bh => exact huses₁
  | none =>
      have hroom₁ : s₁.uses.Roomy := by
        rw [huses₁]
        exact hroom
      simp only [Prog.prompt_bind]
      refine (getFreeBuffer_prompt (n + 2) hfuel s₁ hs₁ hc₁ hroom₁).mono ?_
      rintro bh s₂ ⟨huses₂, hfree₂⟩
      simp only [Prog.prompt_modify, Prog.prompt_pure]
      rw [uses_tagHead hfree₂, huses₂, huses₁]
      rfl

theorem bread_prompt (hfuel : 2 ≤ fuel) (hs : Quiet s) (hc : Coherent good flat s.core)
    (hroom : s.uses.Roomy) (hdev : dev ≠ 0) (hgood : good dev) :
    Prog.Prompt (bread fuel dev block) s fun found s' =>
      ∀ bh, found = some bh → s'.uses = s.uses.take bh := by
  simp only [bread, Prog.prompt_bind]
  refine ((getblk_prompt hfuel hs hc hroom).with_awake
    (getblk_quietly hfuel hs hc hroom.held_card hgood)).mono ?_
  rintro bh s₁ ⟨⟨hs₁, hc₁, rfl, rfl⟩, huses₁⟩
  simp only [readbuf, Prog.prompt_bind, Prog.prompt_get]
  split
  · simp only [Prog.prompt_pure]
    rintro _ h
    obtain rfl := Option.some.inj h
    exact huses₁
  · rename_i hup
    have hup₁ : (s₁.core.heads bh).bUptodate = false := by simpa using hup
    have hgood₁ := hc₁.devices _ (hc₁.good bh hdev)
    have hfew₁ : s₁.uses.Few := by
      rw [huses₁]
      exact hroom.few
    have hmapped₁ : s₁.uses.mapped bh + 1 < 2 ^ 16 := by
      rw [huses₁]
      exact Nat.lt_of_succ_lt (hroom.mapped_lt bh)
    obtain ⟨hc₂, -, hhead₂⟩ := hc₁.readIn hdev hup₁
    simp only [Prog.prompt_bind]
    refine ((llRwBlk_prompt .read hfuel hs₁ (hc₁.unlocked bh) hup₁ hgood₁ hfew₁
      hmapped₁).with_awake (llRwBlk_quietly hfuel hs₁ (hc₁.unlocked bh) (hc₁.seg bh hdev)
        hup₁ hgood₁)).mono ?_
    rintro _ s₂ ⟨⟨-, hcore₂⟩, huses₂⟩
    have hlock₂ : (s₂.buffers bh).bLock = false := by
      rw [← core_bLock, hcore₂, hhead₂]
      exact hc₁.unlocked bh
    have hup₂ : (s₂.buffers bh).bUptodate = true := by
      rw [← core_bUptodate, hcore₂, hhead₂]
    refine (waitOnBuffer_prompt hlock₂).mono ?_
    rintro _ _ rfl
    simp only [Prog.prompt_get]
    rw [if_pos hup₂]
    simp only [Prog.prompt_pure]
    rintro _ h
    obtain rfl := Option.some.inj h
    exact huses₂.trans huses₁

theorem unmapBrelse_prompt (hlock : (s.buffers bh).bLock = false) (hpos : 0 < s.uses.held bh)
    (hcount : s.uses.held bh < 2 ^ 16) :
    Prog.Prompt (unmapBrelse fuel bh) s fun _ s' => s'.uses = (s.uses.unpin bh).drop bh := by
  have huses₁ : (s.unmapBuffer bh).uses = s.uses.unpin bh := uses_unmapBuffer
  have hlock₁ : ((s.unmapBuffer bh).buffers bh).bLock = false := by
    unfold Buffers.unmapBuffer
    split <;> simpa [Buffers.modHead, Buffers.setHead] using hlock
  have hheld₁ : (s.unmapBuffer bh).uses.held bh = s.uses.held bh := by
    rw [huses₁]
    rfl
  simp only [unmapBrelse, unmapBuffer, Prog.prompt_bind, Prog.prompt_signal, brelse]
  refine (waitOnBuffer_prompt hlock₁).mono ?_
  rintro _ _ rfl
  rw [← hheld₁] at hpos hcount
  have hne : ((s.unmapBuffer bh).buffers bh).bCount ≠ 0 := Nat.ne_of_gt hpos
  simp only [Prog.prompt_get]
  rw [if_neg hne]
  simp only [decCount, updHead, Prog.prompt_modify]
  rw [uses_decCount hpos hcount, huses₁]

end Calls

theorem bufferInit_roomy (hw : Hardware) : (bufferInit hw).uses.Roomy := by
  have huses : (bufferInit hw).uses = ⟨fun _ => 0, fun _ => 0⟩ := rfl
  rw [huses]
  exact ⟨by simp [nrMapbufs], fun _ => by simp, fun _ => by simp, by simp [nrBuffers, nrMapbufs]⟩

end Buffer
end Elks
