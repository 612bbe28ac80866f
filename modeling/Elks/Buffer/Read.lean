import Elks.Buffer.Transparent

/-!
# Reading blocks alone

For one task on devices that do their transfers at once, with all buffers
clean and few of them in use, `bread` never sleeps, and what it does to the
cache can be said exactly.

* `Steady held mapped s`: the cache is at rest, the buffers of `held` are held
  once, those of `mapped` are mapped once, the others not at all.
* `bread_new`: a block without a buffer goes into the first free buffer of the
  LRU list, which is filled from the disk; if the device refuses the block the
  buffer stays behind, not up to date.
* `bread_cached`: a block with a valid buffer is answered from that buffer.
* `bread_stale`: one with a buffer that is not up to date is read into that buffer.
* `unmapBrelse_runs`: releasing a buffer changes its counters.
-/

namespace Elks
namespace Buffer

open Lib

/-- `unmap_brelse`. -/
def unmapBrelse (fuel : Nat) (bh : Bh) : Code Unit := do
  unmapBuffer bh
  brelse fuel bh

/-- The cache at rest: `held` are the buffers held, `mapped` the mapped ones. -/
structure Steady (held mapped : Finset Bh) (s : Buffers) : Prop where
  quiet : Quiet s
  clean : ∀ b, (s.buffers b).bDirty = false
  unlocked : ∀ b, (s.buffers b).bLock = false
  count : ∀ b, (s.buffers b).bCount = if b ∈ held then 1 else 0
  mapcount : ∀ b, (s.buffers b).bMapcount = if b ∈ mapped then 1 else 0

/-- What a read of the block of `bh` does to the core. -/
def Core.fetch (c : Core) (bh : Bh) : Core :=
  if c.ioError (c.heads bh).bDev (c.heads bh).bBlocknr then
    c.setHead bh fun h =>
      { h with bDirty := false, bUptodate := false, bLock := false }
  else
    c.serve .read bh

/-- What mapping `bh` does to the counters and to the other buffers. -/
structure MapFrame (bh : Bh) (s s' : Buffers) : Prop where
  step : StoreStep s s'
  mapped : (s.buffers bh).bSeg = s.ds → (s'.buffers bh).bData ≠ none
  own : (s'.buffers bh).bMapcount = wrap 16 ((s.buffers bh).bMapcount + 1)
  others : ∀ b, b ≠ bh → (s'.buffers b).bMapcount = (s.buffers b).bMapcount
  away : ∀ b, b ≠ bh → (s.buffers b).bData = none → (s'.buffers b).bData = none

section Map

variable {s s' : Buffers} {bh : Bh}

theorem unmapSlot_away (s : Buffers) (i : Slot) (b : Bh) :
    ((s.unmapSlot i).buffers b).bMapcount = (s.buffers b).bMapcount ∧
      ((s.buffers b).bData = none → ((s.unmapSlot i).buffers b).bData = none) := by
  refine ⟨?_, unmapSlot_bData⟩
  cases hv : s.bufmemMap i with
  | none => simp [Buffers.unmapSlot, hv]
  | some v =>
      rcases eq_or_ne b v with rfl | hb
      · simp [Buffers.unmapSlot, hv]
      · simp [Buffers.unmapSlot, hv, hb]

theorem mapHere_frame {i : Slot} (hs : TwoLevel s) (hi : s.freeSlot = some i)
    (hbh : (s.buffers bh).bData = none) :
    MapFrame bh s (s.mapHere bh i) where
  step := mapHere_storeStep hs (freeSlot_spec hi) hbh
  mapped := fun _ => by simp [Buffers.mapHere]
  own := by simp [Buffers.mapHere]
  others := by
    intro b hb
    simp [Buffers.mapHere, hb]
  away := by
    intro b hb hdata
    simpa [Buffers.mapHere, hb] using hdata

theorem MapFrame.after_unmapSlot {i : Slot} (hs : TwoLevel s) (h : MapFrame bh (s.unmapSlot i) s') :
    MapFrame bh s s' := by
  have hstep := unmapSlot_storeStep (i := i) hs
  have hseg : ((s.unmapSlot i).buffers bh).bSeg = (s.buffers bh).bSeg := by
    rw [hstep.head bh]
  have hds : (s.unmapSlot i).ds = s.ds := by
    rw [hstep.rest]
  constructor
  · exact hstep.trans h.step
  · intro he
    exact h.mapped (by rw [hseg, hds, he])
  · rw [h.own, (unmapSlot_away s i bh).1]
  · intro b hb
    rw [h.others b hb, (unmapSlot_away s i b).1]
  · intro b hb hdata
    exact h.away b hb ((unmapSlot_away s i b).2 hdata)

theorem exists_victim (hs : TwoLevel s) (hfull : s.freeSlot = none)
    (hfew : (Finset.univ.filter fun b => (s.buffers b).bMapcount ≠ 0).card <
      nrMapbufs - 1) :
    ∃ i, s.victim = some i := by
  have hmap : ∀ i, ∃ v, s.bufmemMap i = some v := by
    intro i
    refine Option.ne_none_iff_exists'.mp ?_
    intro h
    exact freeSlot_ne_none h hfull
  choose v hv using hmap
  have hinj : Function.Injective v := by
    intro i j hij
    exact hs.slot_unique (hv i) (hij ▸ hv j)
  by_contra hnone
  push Not at hnone
  have hvictim : s.victim = none := by
    cases h : s.victim with
    | none => rfl
    | some i => exact absurd h (hnone i)
  have hused : ∀ i ∈ (Buffers.candidates s.lastumap).toFinset,
      v i ∈ Finset.univ.filter fun b => (s.buffers b).bMapcount ≠ 0 := by
    intro i hi
    have h := List.find?_eq_none.mp hvictim i (List.mem_toFinset.mp hi)
    simpa [Buffers.unused, hv i] using h
  have hcard := Finset.card_le_card_of_injOn v hused hinj.injOn
  have hsize : ∀ l : Slot, (Buffers.candidates l).toFinset.card = nrMapbufs - 1 := by
    decide
  rw [hsize] at hcard
  exact absurd hfew (Nat.not_lt.mpr hcard)

theorem mapBuffer_runs (n : Nat) (hs : TwoLevel s)
    (hfew : (Finset.univ.filter fun b => (s.buffers b).bMapcount ≠ 0).card <
      nrMapbufs - 1) :
    Prog.Runs (mapBuffer (n + 2) bh) s fun _ s' => MapFrame bh s s' := by
  simp only [mapBuffer, Prog.runs_bind, Prog.runs_get]
  split
  · rename_i hmapped
    simp only [Prog.runs_modify]
    constructor
    · exact mapcount_storeStep hs fun n => wrap 16 (n + 1)
    · intro he
      have hdata : (s.buffers bh).bData ≠ none := by
        rcases hmapped with h | h
        · exact h
        · exact absurd he h
      simpa [Buffers.modHead, Buffers.setHead] using hdata
    · simp [Buffers.modHead, Buffers.setHead]
    · intro b hb
      simp [Buffers.modHead, Buffers.setHead, hb]
    · intro b hb hdata
      simpa [Buffers.modHead, Buffers.setHead, hb] using hdata
  · rename_i hmapped
    have hbh : (s.buffers bh).bData = none := by
      by_contra h
      exact hmapped (Or.inl h)
    rw [mapLoop]
    simp only [Prog.runs_bind, Prog.runs_get]
    cases hf : s.freeSlot with
    | some i => exact mapHere_frame hs hf hbh
    | none =>
        obtain ⟨i, hi⟩ := exists_victim hs hf hfew
        have hfree : (s.unmapSlot i).freeSlot ≠ none :=
          freeSlot_ne_none (unmapSlot_free s i)
        obtain ⟨j, hj⟩ := Option.ne_none_iff_exists'.mp hfree
        simp only [hi, Prog.runs_bind, Prog.runs_modify, mapLoop,
          Prog.runs_get, hj]
        exact (mapHere_frame (unmapSlot_twoLevel hs) hj
          (unmapSlot_bData hbh)).after_unmapSlot hs

end Map

section Serve

variable {s : Buffers} {bh : Bh} {req m : Nat}

theorem endRequest_frame (uptodate : Bool) (hqueue : s.queue m = [req])
    (hbh : (s.allRequests req).rqBh = bh) :
    (s.endRequest m uptodate).lru = s.lru ∧
      (∀ b, ((s.endRequest m uptodate).buffers b).bData = (s.buffers b).bData) ∧
      (∀ b, b ≠ bh → ((s.endRequest m uptodate).buffers b).bMapcount =
        (s.buffers b).bMapcount) ∧
      ((s.endRequest m uptodate).buffers bh).bMapcount =
        (s.buffers bh).bMapcount - 1 := by
  simp only [Buffers.endRequest, hqueue, hbh, Buffers.unlockBuffer,
    Buffers.unmapBuffer, Buffers.modHead, Buffers.setHead,
    Function.update_self]
  split
  · rename_i hzero
    refine ⟨rfl, ?_, ?_, ?_⟩
    · intro b
      rcases eq_or_ne b bh with rfl | hb
      · simp
      · simp [hb]
    · intro b hb
      simp [hb]
    · simp [hzero]
  · refine ⟨rfl, ?_, ?_, ?_⟩
    · intro b
      rcases eq_or_ne b bh with rfl | hb
      · simp
      · simp [hb]
    · intro b hb
      simp [hb]
    · simp

theorem polledRequest_runs (n : Nat) (hqueue : s.queue m = [req])
    (hmajor : major (s.allRequests req).rqDev = m)
    (hlock : (s.buffers (s.allRequests req).rqBh).bLock = true) :
    Prog.Runs (polledRequest m (n + 2)) s fun _ s' =>
      s' =
        if s.ioError (s.allRequests req).rqDev (s.allRequests req).block then
          s.endRequest m false
        else
          (s.transfer (s.allRequests req)).endRequest m true := by
  have htransfer : (s.transfer (s.allRequests req)).queue m = [req] := by
    rw [(transfer_frame s _).2.1]
    exact hqueue
  have hrefused : (s.endRequest m false).queue m = [] := by
    simp [Buffers.endRequest, hqueue]
  have hserved :
      ((s.transfer (s.allRequests req)).endRequest m true).queue m = [] := by
    simp [Buffers.endRequest, htransfer]
  rw [polledRequest]
  simp only [Prog.runs_bind, Prog.runs_get, hqueue]
  rw [if_neg (by simp [hmajor]), if_neg (by simp [hlock])]
  split
  · simp only [Prog.runs_bind, endRequest, Prog.runs_signal]
    rw [polledRequest]
    simp only [Prog.runs_bind, Prog.runs_get, hrefused, Prog.runs_pure]
  · simp only [Prog.runs_bind, Prog.runs_modify, endRequest, Prog.runs_signal]
    rw [polledRequest]
    simp only [Prog.runs_bind, Prog.runs_get, hserved, Prog.runs_pure]

/-- What a finished read of the block of `bh` leaves. -/
structure Fetched (bh : Bh) (s s' : Buffers) : Prop where
  quiet : Quiet s'
  core : s'.core = s.core.fetch bh
  lru : s'.lru = s.lru
  data : ∀ b, (s'.buffers b).bData = (s.buffers b).bData
  own : (s'.buffers bh).bMapcount = (s.buffers bh).bMapcount - 1
  others : ∀ b, b ≠ bh → (s'.buffers b).bMapcount = (s.buffers b).bMapcount

/-- `add_request` queueing a request on an idle device. -/
def Buffers.started (s : Buffers) (m req : Nat) (bh : Bh) : Buffers :=
  { s.modHead bh (fun h => { h with bDirty := false }) with
    queue := Function.update s.queue m [req] }

theorem enqueue_idle (hqueue : s.queue m = []) (hbh : (s.allRequests req).rqBh = bh) :
    s.enqueue m req = (true, s.started m req bh) := by
  have hq : (s.modHead bh fun h => { h with bDirty := false }).queue m = [] :=
    hqueue
  simp only [Buffers.enqueue, hbh, hq]
  rfl

theorem started_buffers (b : Bh) :
    (((s.started m req bh).buffers b).bData = (s.buffers b).bData ∧
      ((s.started m req bh).buffers b).bMapcount = (s.buffers b).bMapcount ∧
      ((s.started m req bh).buffers b).bLock = (s.buffers b).bLock) := by
  rcases eq_or_ne b bh with rfl | hb
  · simp [Buffers.started, Buffers.modHead, Buffers.setHead]
  · simp [Buffers.started, Buffers.modHead, Buffers.setHead, hb]

theorem Submitted.started {rw : Rw} (hs : Submitted s req rw bh) :
    TwoLevel (s.started m req bh) ∧
      (s.started m req bh).core =
        s.core.setHead bh fun h => { h with bDirty := false } := by
  have hplain : Plain fun h => { h with bDirty := false } :=
    ⟨fun _ => rfl, fun _ => rfl, fun _ => rfl⟩
  have h := (sameStore_modHead s bh _ hplain.data hplain.num).twoLevel hs.twoLevel
  exact ⟨⟨h.map_iff, h.num⟩, core_modHead hplain⟩

theorem addRequest_reads (n : Nat) (hs : Submitted s req .read bh)
    (hm : major (s.buffers bh).bDev = m) (hpolled : s.requestFn m = .polled) :
    Prog.Runs (addRequest (n + 2) m req) s fun _ s' => Fetched bh s s' := by
  obtain ⟨i, hi⟩ := Option.ne_none_iff_exists'.mp hs.data
  obtain ⟨htwo, hcore⟩ := hs.started (m := m)
  have hreq : (s.started m req bh).allRequests req = s.allRequests req := rfl
  have hqueue : (s.started m req bh).queue m = [req] := by
    simp [Buffers.started]
  have hlocked : ((s.started m req bh).buffers bh).bLock = true := by
    rw [(started_buffers bh).2.2]
    exact hs.locked
  have hdata : ((s.started m req bh).buffers bh).bData = some i := by
    rw [(started_buffers bh).1]
    exact hi
  have hothers : ∀ k, k ≠ m → (s.started m req bh).queue k = [] := by
    intro k hk
    simpa [Buffers.started, hk] using hs.queue k
  have hserve := polledRequest_runs n hqueue
    (by rw [hreq, hs.dev, hm]) (by rw [hreq, hs.head]; exact hlocked)
  have hfn : (s.started m req bh).requestFn m = .polled := hpolled
  simp only [addRequest, Prog.runs_bind, Prog.runs_atomically,
    enqueue_idle (hs.queue m) hs.head, if_true, requestFn, Prog.runs_get, hfn]
  refine hserve.mono ?_
  rintro _ s' rfl
  have hio : (s.started m req bh).ioError
        ((s.started m req bh).allRequests req).rqDev
        ((s.started m req bh).allRequests req).block =
      s.core.ioError (s.core.heads bh).bDev (s.core.heads bh).bBlocknr := by
    rw [hreq, hs.dev, hs.block]
    rfl
  rw [hio]
  split
  · -- the device refuses the block
    rename_i hbad
    obtain ⟨hquiet, hend⟩ := endRequest_quiet false htwo hqueue hothers
      hs.inactive hs.lru hs.head
    obtain ⟨hlru, hdatas, hmaps, hmap⟩ := endRequest_frame false hqueue hs.head
    refine ⟨hquiet, ?_, hlru, ?_, ?_, ?_⟩
    · unfold Core.fetch
      rw [if_pos hbad, hend, hcore]
      simp [Core.setHead]
    · intro b
      rw [hdatas b, (started_buffers b).1]
    · rw [hmap, (started_buffers bh).2.1]
    · intro b hb
      rw [hmaps b hb, (started_buffers b).2.1]
  · -- the bytes of the block are copied into the buffer
    rename_i hgood
    have hbuffer : (s.allRequests req).rqBuffer = some i := by
      rw [hs.buffer, hi]
    obtain ⟨htwo', hcore'⟩ := core_transfer_read htwo hdata hs.cmd hbuffer
    obtain ⟨hbuf, hq, hreqs, hlrus⟩ :=
      transfer_frame (s.started m req bh) (s.allRequests req)
    let t := (s.started m req bh).transfer (s.allRequests req)
    have hqueue' : t.queue m = [req] := by
      rw [hq]
      exact hqueue
    have hothers' : ∀ k, k ≠ m → t.queue k = [] := by
      rw [hq]
      exact hothers
    have hinactive' : ∀ r, r ≠ req → (t.allRequests r).rqActive = false := by
      rw [hreqs]
      exact hs.inactive
    have hlru' : ∀ b, b ∈ t.lru := by
      rw [hlrus]
      exact hs.lru
    have hhead' : (t.allRequests req).rqBh = bh := by
      rw [hreqs]
      exact hs.head
    obtain ⟨hquiet, hend⟩ := endRequest_quiet true htwo' hqueue' hothers'
      hinactive' hlru' hhead'
    obtain ⟨hlru, hdatas, hmaps, hmap⟩ := endRequest_frame true hqueue' hhead'
    refine ⟨hquiet, ?_, ?_, ?_, ?_, ?_⟩
    · unfold Core.fetch
      rw [if_neg hgood]
      refine hend.trans ?_
      rw [hcore', hcore, hs.dev, hs.block]
      simp [Core.setHead, Core.putContent, Core.serve]
    · exact hlru.trans hlrus
    · intro b
      refine (hdatas b).trans ?_
      rw [hbuf, (started_buffers b).1]
    · refine hmap.trans ?_
      rw [hbuf, (started_buffers bh).2.1]
    · intro b hb
      refine (hmaps b hb).trans ?_
      rw [hbuf, (started_buffers b).2.1]

end Serve

/-- What a read of the block of `bh` leaves of the cache. -/
structure ReadIn (bh : Bh) (s s' : Buffers) : Prop where
  quiet : Quiet s'
  core : s'.core = s.core.fetch bh
  lru : s'.lru = s.lru
  away : ∀ b, b ≠ bh → (s.buffers b).bData = none → (s'.buffers b).bData = none
  mapcount : ∀ b, (s'.buffers b).bMapcount = (s.buffers b).bMapcount

section Request

variable {s : Buffers} {bh : Bh} {m : Nat}

theorem Core.fetch_locked (c : Core) :
    (c.setHead bh fun h => { h with bLock := true }).fetch bh = c.fetch bh := by
  unfold Core.fetch
  rw [Core.serve_locked]
  simp [Core.setHead]

theorem submit_reads (n : Nat) (hs : Quiet s) (hlock : (s.buffers bh).bLock = true)
    (hdata : (s.buffers bh).bData ≠ none) (hm : major (s.buffers bh).bDev = m)
    (hpolled : s.requestFn m = .polled) :
    Prog.Runs (submit (n + 2) m nrRequest .read ((s.buffers bh).bBlocknr * 2) bh)
      s fun _ s' => Fetched bh s s' := by
  obtain ⟨req, found, limit, hget⟩ :=
    getRequest_spec (s.buffers bh).bDev (by decide : 0 < nrRequest) hs.inactive
  simp only [submit, Prog.runs_bind, Prog.runs_atomically, hget,
    Prog.runs_modify]
  generalize ht : Buffers.fillRequest req _ _ bh _ = t
  have hrest : TwoLevel t ∧ t.queue = s.queue ∧ t.lru = s.lru ∧
      t.buffers = s.buffers ∧ t.core = s.core ∧ t.requestFn = s.requestFn := by
    rw [← ht]
    exact ⟨⟨hs.twoLevel.map_iff, hs.twoLevel.num⟩, rfl, rfl, rfl, rfl, rfl⟩
  obtain ⟨htwo, hqueue, hlru, hbuf, hcore, hfn⟩ := hrest
  have hsub : Submitted t req .read bh := by
    constructor
    · exact htwo
    · rw [hqueue]
      exact hs.queue
    · intro r hr
      rw [← ht]
      simpa [Buffers.fillRequest, hr] using hs.inactive r
    · rw [hlru]
      exact hs.lru
    · rw [hbuf]
      exact hlock
    · rw [hbuf]
      exact hdata
    all_goals
      rw [← ht]
      simp [Buffers.fillRequest, Request.block]
  refine (addRequest_reads n hsub (by rw [hbuf]; exact hm)
    (by rw [hfn]; exact hpolled)).mono ?_
  intro _ s' h
  constructor
  · exact h.quiet
  · rw [h.core, hcore]
  · rw [h.lru, hlru]
  · rw [← hbuf]
    exact h.data
  · rw [← hbuf]
    exact h.own
  · rw [← hbuf]
    exact h.others

theorem llRwBlk_reads (n : Nat) (hs : Quiet s) (hlock : (s.buffers bh).bLock = false)
    (hup : (s.buffers bh).bUptodate = false) (hseg : (s.buffers bh).bSeg = s.ds)
    (hunmapped : (s.buffers bh).bMapcount = 0) (hpresent : major (s.buffers bh).bDev < maxBlkdev)
    (hpolled : s.requestFn (major (s.buffers bh).bDev) = .polled)
    (hfew : (Finset.univ.filter fun b => (s.buffers b).bMapcount ≠ 0).card <
      nrMapbufs - 1) :
    Prog.Runs (llRwBlk (n + 2) .read bh) s fun _ s' => ReadIn bh s s' := by
  have hplain : Plain fun h => { h with bLock := true } :=
    ⟨fun _ => rfl, fun _ => rfl, fun _ => rfl⟩
  let s₁ := s.modHead bh fun h => { h with bLock := true }
  have hs₁ : Quiet s₁ := quiet_modHead hplain hs
  have hcore₁ : s₁.core = s.core.setHead bh fun h => { h with bLock := true } :=
    core_modHead hplain
  have hsame : ∀ b, (s₁.buffers b).bMapcount = (s.buffers b).bMapcount ∧
      (s₁.buffers b).bData = (s.buffers b).bData := by
    intro b
    rcases eq_or_ne b bh with rfl | hb
    · simp [s₁, Buffers.modHead, Buffers.setHead]
    · simp [s₁, Buffers.modHead, Buffers.setHead, hb]
  have hseg₁ : (s₁.buffers bh).bSeg = s₁.ds := by
    simpa [s₁, Buffers.modHead, Buffers.setHead] using hseg
  have hfew₁ : (Finset.univ.filter fun b => (s₁.buffers b).bMapcount ≠ 0).card <
      nrMapbufs - 1 := by
    simpa only [hsame] using hfew
  have hcond : major (s.buffers bh).bDev < maxBlkdev ∧
      s.requestFn (major (s.buffers bh).bDev) ≠ .absent := by
    exact ⟨hpresent, by simp [hpolled]⟩
  simp only [llRwBlk, Prog.runs_bind, Prog.runs_get, if_pos hcond, makeRequest,
    hlock, Bool.false_eq_true, if_false, updHead, Prog.runs_modify]
  refine (mapBuffer_runs n hs₁.twoLevel hfew₁).mono ?_
  intro _ s₂ hmap
  have hs₂ : Quiet s₂ := hmap.step.quiet hs₁
  have hhead : s₂.core.heads bh = { s.core.heads bh with bLock := true } := by
    rw [hmap.step.core_eq, hcore₁]
    simp [Core.setHead]
  have hup₂ : (s₂.buffers bh).bUptodate = false := by
    rw [← core_bUptodate, hhead]
    exact hup
  have hdev₂ : (s₂.buffers bh).bDev = (s.buffers bh).bDev := by
    rw [← core_bDev, hhead]
    rfl
  have hlock₂ : (s₂.buffers bh).bLock = true := by
    rw [← core_bLock, hhead]
  have hblk₂ : (s₂.buffers bh).bBlocknr = (s.buffers bh).bBlocknr := by
    rw [← core_bBlocknr, hhead]
    rfl
  have hfn₂ : s₂.requestFn (major (s.buffers bh).bDev) = .polled := by
    have h : s₂.core.requestFn = s.core.requestFn := by
      rw [hmap.step.core_eq, hcore₁]
      rfl
    exact (congrFun h _).trans hpolled
  have hread := submit_reads n hs₂ hlock₂ (hmap.mapped hseg₁)
    (congrArg major hdev₂) hfn₂
  rw [hblk₂] at hread
  simp only [hup₂, Bool.false_eq_true, if_false]
  refine hread.mono ?_
  intro _ s₃ h
  constructor
  · exact h.quiet
  · rw [h.core, hmap.step.core_eq, hcore₁, Core.fetch_locked]
  · rw [h.lru, hmap.step.rest]
    rfl
  · intro b hb hdata
    rw [h.data b]
    exact hmap.away b hb ((hsame b).2.trans hdata)
  · intro b
    rcases eq_or_ne b bh with rfl | hb
    · rw [h.own, hmap.own, (hsame b).1, hunmapped]
      rfl
    · rw [h.others b hb, hmap.others b hb, (hsame b).1]

end Request

/-- `s'` is `s` but for the buffer `bh` and for where the buffers are. -/
structure Besides (bh : Bh) (s s' : Buffers) : Prop where
  bare : ∀ b, b ≠ bh → (s'.buffers b).bare = (s.buffers b).bare
  content : ∀ b, b ≠ bh → s'.content b = s.content b
  away : ∀ b, b ≠ bh → (s.buffers b).bData = none → (s'.buffers b).bData = none
  ds : s'.ds = s.ds
  requestFn : s'.requestFn = s.requestFn
  ioError : s'.ioError = s.ioError
  disk : s'.disk = s.disk

section Besides

variable {s s' s'' : Buffers} {bh : Bh}

theorem Besides.trans (h : Besides bh s s') (h' : Besides bh s' s'') :
    Besides bh s s'' where
  bare := fun b hb => (h'.bare b hb).trans (h.bare b hb)
  content := fun b hb => (h'.content b hb).trans (h.content b hb)
  away := fun b hb hdata => h'.away b hb (h.away b hb hdata)
  ds := h'.ds.trans h.ds
  requestFn := h'.requestFn.trans h.requestFn
  ioError := h'.ioError.trans h.ioError
  disk := h'.disk.trans h.disk

theorem besides_of_core {c : Core} (hcore : s'.core = c)
    (hheads : ∀ b, b ≠ bh → c.heads b = s.core.heads b)
    (hcontent : ∀ b, b ≠ bh → c.content b = s.content b)
    (hrest : c.ds = s.ds ∧ c.requestFn = s.requestFn ∧
      c.ioError = s.ioError ∧ c.disk = s.disk)
    (haway : ∀ b, b ≠ bh → (s.buffers b).bData = none →
      (s'.buffers b).bData = none) :
    Besides bh s s' where
  bare := by
    intro b hb
    have h : s'.core.heads b = s.core.heads b := by
      rw [hcore]
      exact hheads b hb
    exact h
  content := by
    intro b hb
    have h : s'.core.content b = s.content b := by
      rw [hcore]
      exact hcontent b hb
    exact h
  away := haway
  ds := by
    have h : s'.core.ds = s.ds := by rw [hcore, hrest.1]
    exact h
  requestFn := by
    have h : s'.core.requestFn = s.requestFn := by rw [hcore, hrest.2.1]
    exact h
  ioError := by
    have h : s'.core.ioError = s.ioError := by rw [hcore, hrest.2.2.1]
    exact h
  disk := by
    have h : s'.core.disk = s.disk := by rw [hcore, hrest.2.2.2]
    exact h

end Besides

section Steady

variable {s : Buffers} {bh : Bh} {held mapped : Finset Bh}

/-- Heads that agree but for their place in the store. -/
structure SameFlags (h h' : BufferHead) : Prop where
  dev : h'.bDev = h.bDev
  blocknr : h'.bBlocknr = h.bBlocknr
  uptodate : h'.bUptodate = h.bUptodate
  dirty : h'.bDirty = h.bDirty
  lock : h'.bLock = h.bLock
  count : h'.bCount = h.bCount
  seg : h'.bSeg = h.bSeg

theorem sameFlags_of_bare {h h' : BufferHead} (heq : h'.bare = h.bare) : SameFlags h h' := by
  cases h
  cases h'
  simp only [BufferHead.bare, BufferHead.mk.injEq] at heq
  obtain ⟨-, hblk, hdev, hcount, hup, hdirty, hlock, hseg, -, -⟩ := heq
  exact ⟨hdev, hblk, hup, hdirty, hlock, hcount, hseg⟩

theorem Besides.flags {s' : Buffers} (h : Besides bh s s') {b : Bh} (hb : b ≠ bh) :
    SameFlags (s.buffers b) (s'.buffers b) :=
  sameFlags_of_bare (h.bare b hb)

theorem Steady.besides {s' : Buffers} {held' mapped' : Finset Bh} (hs : Steady held mapped s)
    (h : Besides bh s s') (hquiet : Quiet s')
    (hmapcount : ∀ b, b ≠ bh → (s'.buffers b).bMapcount = (s.buffers b).bMapcount)
    (hheld : ∀ b, b ≠ bh → (b ∈ held' ↔ b ∈ held))
    (hmapped : ∀ b, b ≠ bh → (b ∈ mapped' ↔ b ∈ mapped))
    (hown : (s'.buffers bh).bDirty = false ∧ (s'.buffers bh).bLock = false ∧
      (s'.buffers bh).bCount = (if bh ∈ held' then 1 else 0) ∧
      (s'.buffers bh).bMapcount = (if bh ∈ mapped' then 1 else 0)) :
    Steady held' mapped' s' := by
  obtain ⟨hdirty, hlock, hcount, hmap⟩ := hown
  constructor
  · exact hquiet
  · intro b
    rcases eq_or_ne b bh with rfl | hb
    · exact hdirty
    · rw [(h.flags hb).dirty]
      exact hs.clean b
  · intro b
    rcases eq_or_ne b bh with rfl | hb
    · exact hlock
    · rw [(h.flags hb).lock]
      exact hs.unlocked b
  · intro b
    rcases eq_or_ne b bh with rfl | hb
    · exact hcount
    · rw [(h.flags hb).count, hs.count b]
      simp only [hheld b hb]
  · intro b
    rcases eq_or_ne b bh with rfl | hb
    · exact hmap
    · rw [hmapcount b hb, hs.mapcount b]
      simp only [hmapped b hb]

theorem Steady.few (hs : Steady held mapped s) (hcard : mapped.card < nrMapbufs - 1) :
    (Finset.univ.filter fun b => (s.buffers b).bMapcount ≠ 0).card <
      nrMapbufs - 1 := by
  refine lt_of_le_of_lt (Finset.card_le_card ?_) hcard
  intro b hb
  rw [Finset.mem_filter, hs.mapcount b] at hb
  by_contra hnot
  exact hb.2 (if_neg hnot)

theorem Steady.exists_free (hs : Steady held mapped s) (hcard : held.card < nrBuffers - nrMapbufs) :
    ∃ bh, s.lru.find? s.free = some bh ∧ bh ∉ held := by
  have hfree : ∀ b, s.free b = true ↔ b ∉ held ∧ (s.buffers b).bData = none := by
    intro b
    simp only [Buffers.free, hs.clean b, hs.unlocked b, hs.count b,
      decide_eq_true_eq]
    split <;> simp_all
  have hsome : ∃ b, s.free b = true := by
    by_contra hnone
    have hcover : (Finset.univ : Finset Bh) ⊆
        held ∪ Finset.univ.filter fun b => (s.buffers b).bData ≠ none := by
      intro b _
      by_contra hb
      rw [Finset.mem_union, not_or, Finset.mem_filter] at hb
      refine hnone ⟨b, (hfree b).mpr ⟨hb.1, ?_⟩⟩
      by_contra hdata
      exact hb.2 ⟨Finset.mem_univ b, hdata⟩
    have hle := Finset.card_le_card hcover
    have hunion := Finset.card_union_le held
      (Finset.univ.filter fun b => (s.buffers b).bData ≠ none)
    have hmappedle := card_mapped_le hs.quiet.twoLevel
    rw [Finset.card_univ, Fintype.card_fin] at hle
    unfold nrBuffers nrMapbufs at *
    omega
  obtain ⟨b, hb⟩ := hsome
  cases hfind : s.lru.find? s.free with
  | none =>
      have hbusy := List.find?_eq_none.mp hfind b (hs.quiet.lru b)
      exact absurd hb hbusy
  | some bh => exact ⟨bh, rfl, ((hfree bh).mp (List.find?_some hfind)).1⟩

theorem mapBuffer_steady (n : Nat) (hs : Steady held mapped s) (hcard : mapped.card < nrMapbufs - 1)
    (hseg : (s.buffers bh).bSeg = s.ds) (hbh : bh ∉ mapped) :
    Prog.Runs (mapBuffer (n + 2) bh) s fun _ s' =>
      Steady held (insert bh mapped) s' ∧ Besides bh s s' ∧ s'.core = s.core ∧
        s'.lru = s.lru ∧ s'.deref (s'.buffers bh).bData = s.content bh := by
  refine (mapBuffer_runs n hs.quiet.twoLevel (hs.few hcard)).mono ?_
  intro _ s' h
  have hquiet := h.step.quiet hs.quiet
  have hcore := h.step.core_eq
  have hbesides : Besides bh s s' :=
    besides_of_core hcore (fun _ _ => rfl) (fun _ _ => rfl)
      ⟨rfl, rfl, rfl, rfl⟩ h.away
  have hbare : SameFlags (s.buffers bh) (s'.buffers bh) :=
    sameFlags_of_bare (congrFun (congrArg Core.heads hcore) bh)
  obtain ⟨i, hi⟩ := Option.ne_none_iff_exists'.mp (h.mapped hseg)
  refine ⟨?_, hbesides, hcore, ?_, ?_⟩
  · refine hs.besides hbesides hquiet h.others (fun _ _ => Iff.rfl) ?_ ?_
    · intro b hb
      simp [hb]
    · refine ⟨?_, ?_, ?_, ?_⟩
      · exact hbare.dirty.trans (hs.clean bh)
      · exact hbare.lock.trans (hs.unlocked bh)
      · exact hbare.count.trans (hs.count bh)
      · rw [h.own, hs.mapcount bh, if_neg hbh, if_pos (Finset.mem_insert_self _ _)]
        rfl
  · rw [h.step.rest]
  · rw [hi, ← h.step.content bh, hquiet.twoLevel.content_of_mapped hi]
    rfl

end Steady

section Brelse

variable {s : Buffers} {bh : Bh} {held mapped : Finset Bh}

theorem brelse_runs (fuel : Nat) (hs : Steady held mapped s) (hbh : bh ∈ held) :
    Prog.Runs (brelse fuel bh) s fun _ s' =>
      Steady (held.erase bh) mapped s' ∧ Besides bh s s' ∧ s'.lru = s.lru ∧
        s'.core = s.core.setHead bh fun h => { h with bCount := 0 } := by
  have hcount : (s.buffers bh).bCount = 1 := by
    rw [hs.count bh, if_pos hbh]
  have hplain : Plain fun h => { h with bCount := wrapSub 16 h.bCount 1 } :=
    ⟨fun _ => rfl, fun _ => rfl, fun _ => rfl⟩
  simp only [brelse, waitOnBuffer, Prog.runs_bind, Prog.runs_get,
    hs.unlocked bh, Bool.false_eq_true, if_false, Prog.runs_pure, hcount,
    one_ne_zero, decCount, updHead, Prog.runs_modify]
  let s' := s.modHead bh fun h => { h with bCount := wrapSub 16 h.bCount 1 }
  have hquiet : Quiet s' := quiet_modHead hplain hs.quiet
  have hcore : s'.core =
      s.core.setHead bh fun h => { h with bCount := wrapSub 16 h.bCount 1 } :=
    core_modHead hplain
  have hzero : s'.core = s.core.setHead bh fun h => { h with bCount := 0 } := by
    rw [hcore]
    simp only [Core.setHead, core_bCount, hcount]
    rfl
  have hothers : ∀ b, b ≠ bh → s'.buffers b = s.buffers b := by
    intro b hb
    simp [s', Buffers.modHead, Buffers.setHead, hb]
  have hbesides : Besides bh s s' := by
    refine besides_of_core hzero ?_ (fun _ _ => rfl) ⟨rfl, rfl, rfl, rfl⟩ ?_
    · intro b hb
      simp [Core.setHead, hb]
    · intro b hb hdata
      rw [hothers b hb]
      exact hdata
  refine ⟨?_, hbesides, rfl, hzero⟩
  refine hs.besides hbesides hquiet ?_ ?_ (fun _ _ => Iff.rfl) ?_
  · intro b hb
    rw [hothers b hb]
  · intro b hb
    simp [hb]
  · simp only [Buffers.modHead, Buffers.setHead, Function.update_self]
    refine ⟨hs.clean bh, hs.unlocked bh, ?_, hs.mapcount bh⟩
    rw [hcount, if_neg (Finset.notMem_erase bh held)]
    rfl

theorem unmapBrelse_runs (fuel : Nat) (hs : Steady held mapped s)
    (hheld : bh ∈ held) (hmapped : bh ∈ mapped) :
    Prog.Runs (unmapBrelse fuel bh) s fun _ s' =>
      Steady (held.erase bh) (mapped.erase bh) s' ∧ Besides bh s s' ∧
        s'.lru = s.lru ∧
        s'.core = s.core.setHead bh fun h => { h with bCount := 0 } := by
  have hstep := unmapBuffer_storeStep hs.quiet.twoLevel bh
  have hcount : (s.buffers bh).bMapcount = 1 := by
    rw [hs.mapcount bh, if_pos hmapped]
  have hunmap : s.unmapBuffer bh =
      s.modHead bh fun h => { h with bMapcount := h.bMapcount - 1 } := by
    rw [Buffers.unmapBuffer, if_neg (by rw [hcount]; exact one_ne_zero)]
  have hothers : ∀ b, b ≠ bh →
      (s.unmapBuffer bh).buffers b = s.buffers b := by
    intro b hb
    rw [hunmap]
    simp [Buffers.modHead, Buffers.setHead, hb]
  have hcore := hstep.core_eq
  have hbesides : Besides bh s (s.unmapBuffer bh) := by
    refine besides_of_core hcore (fun _ _ => rfl) (fun _ _ => rfl)
      ⟨rfl, rfl, rfl, rfl⟩ ?_
    intro b hb hdata
    rw [hothers b hb]
    exact hdata
  have hsteady : Steady held (mapped.erase bh) (s.unmapBuffer bh) := by
    refine hs.besides hbesides (hstep.quiet hs.quiet) ?_ (fun _ _ => Iff.rfl)
      ?_ ?_
    · intro b hb
      rw [hothers b hb]
    · intro b hb
      simp [hb]
    · rw [hunmap]
      simp only [Buffers.modHead, Buffers.setHead, Function.update_self]
      refine ⟨hs.clean bh, hs.unlocked bh, hs.count bh, ?_⟩
      rw [hcount, if_neg (Finset.notMem_erase bh mapped)]
  simp only [unmapBrelse, unmapBuffer, Prog.runs_bind, Prog.runs_signal]
  refine (brelse_runs fuel hsteady hheld).mono ?_
  rintro _ s' ⟨hs', hb', hlru', hcore'⟩
  refine ⟨hs', hbesides.trans hb', ?_, ?_⟩
  · rw [hlru', hstep.rest]
  · rw [hcore', hcore]

end Brelse

section Bread

variable {s : Buffers} {bh : Bh} {held mapped : Finset Bh} {dev block : Nat}

theorem findBuffer_unique (hbh : (s.buffers bh).bDev = dev ∧ (s.buffers bh).bBlocknr = block)
    (huniq : ∀ b, (s.buffers b).bDev = dev → (s.buffers b).bBlocknr = block →
      b = bh) :
    s.findBuffer dev block = some bh := by
  cases h : s.findBuffer dev block with
  | none => exact absurd hbh (findBuffer_none_iff.mp h bh)
  | some b =>
      obtain ⟨hdev, hblk⟩ := findBuffer_some h
      rw [huniq b hdev hblk]

theorem putLastLru_lru (s : Buffers) (bh : Bh) :
    (s.putLastLru bh).lru =
      if s.lru.getLast? = some bh then s.lru else s.lru.erase bh ++ [bh] := by
  unfold Buffers.putLastLru
  split <;> rfl

theorem Steady.hold {s' : Buffers} (hs : Steady held mapped s) (hfree : bh ∉ held)
    (hs' : s' = s.modHead bh fun h => { h with bCount := wrap 16 (h.bCount + 1) }) :
    Steady (insert bh held) mapped s' ∧ Besides bh s s' ∧
      s'.core = (s.core.setHead bh fun h => { h with bCount := 1 }) ∧
      s'.buffers bh = { s.buffers bh with bCount := 1 } := by
  subst hs'
  have hcount : (s.buffers bh).bCount = 0 := by
    rw [hs.count bh, if_neg hfree]
  have hplain : Plain fun h => { h with bCount := wrap 16 (h.bCount + 1) } :=
    ⟨fun _ => rfl, fun _ => rfl, fun _ => rfl⟩
  let s₁ := s.modHead bh fun h => { h with bCount := wrap 16 (h.bCount + 1) }
  have hown : s₁.buffers bh = { s.buffers bh with bCount := 1 } := by
    simp only [s₁, Buffers.modHead, Buffers.setHead, Function.update_self,
      hcount]
    rfl
  have hothers : ∀ b, b ≠ bh → s₁.buffers b = s.buffers b := by
    intro b hb
    simp [s₁, Buffers.modHead, Buffers.setHead, hb]
  have hcore : s₁.core = s.core.setHead bh fun h => { h with bCount := 1 } := by
    have h : s₁.core =
        s.core.setHead bh fun h => { h with bCount := wrap 16 (h.bCount + 1) } :=
      core_modHead hplain
    rw [h]
    simp only [Core.setHead, core_bCount, hcount]
    rfl
  have hbesides : Besides bh s s₁ := by
    refine besides_of_core hcore ?_ (fun _ _ => rfl) ⟨rfl, rfl, rfl, rfl⟩ ?_
    · intro b hb
      simp [Core.setHead, hb]
    · intro b hb hdata
      rw [hothers b hb]
      exact hdata
  refine ⟨hs.besides hbesides (quiet_modHead hplain hs.quiet) ?_ ?_
    (fun _ _ => Iff.rfl) ?_, hbesides, hcore, hown⟩
  · intro b hb
    rw [hothers b hb]
  · intro b hb
    simp [hb]
  · rw [hown]
    exact ⟨hs.clean bh, hs.unlocked bh,
      (if_pos (Finset.mem_insert_self bh held)).symm, hs.mapcount bh⟩

theorem bread_cached (n : Nat) (hs : Steady held mapped s)
    (hbh : (s.buffers bh).bDev = dev ∧ (s.buffers bh).bBlocknr = block)
    (huniq : ∀ b, (s.buffers b).bDev = dev → (s.buffers b).bBlocknr = block →
      b = bh)
    (hup : (s.buffers bh).bUptodate = true)
    (hfree : bh ∉ held) :
    Prog.Runs (bread (n + 2) dev block) s fun found s' =>
      found = some bh ∧ Steady (insert bh held) mapped s' ∧ Besides bh s s' ∧
        s'.core = (s.core.setHead bh fun h => { h with bCount := 1 }) ∧
        s'.lru = (s.putLastLru bh).lru := by
  have hfind := findBuffer_unique hbh huniq
  let s₁ := s.modHead bh fun h => { h with bCount := wrap 16 (h.bCount + 1) }
  obtain ⟨hsteady, hbesides, hcore, hown⟩ :=
    hs.hold hfree (Eq.refl s₁)
  obtain ⟨hquiet₂, hcore₂⟩ := putLastLru_quiet hsteady.quiet bh
  have hbuf₂ : (s₁.putLastLru bh).buffers = s₁.buffers := by
    unfold Buffers.putLastLru
    split <;> rfl
  have hlock₁ : (s₁.buffers bh).bLock = false := by
    rw [hown]
    exact hs.unlocked bh
  have htag₁ : (s₁.buffers bh).bDev = dev ∧ (s₁.buffers bh).bBlocknr = block := by
    rw [hown]
    exact hbh
  have hclean₁ : (!(s₁.buffers bh).bDirty ∧ (s₁.buffers bh).bUptodate) := by
    rw [hown]
    exact ⟨by simp [hs.clean bh], hup⟩
  have hup₂ : ((s₁.putLastLru bh).buffers bh).bUptodate = true := by
    rw [hbuf₂, hown]
    exact hup
  simp only [bread, getblk, lookup, getHashTable, Prog.runs_bind, Prog.runs_get,
    hfind, incCount, updHead, Prog.runs_modify]
  rw [waitOnBuffer]
  simp only [Prog.runs_bind, Prog.runs_get]
  rw [if_neg (by rw [hlock₁]; decide)]
  simp only [Prog.runs_pure]
  rw [if_pos htag₁]
  simp only [Prog.runs_pure, touchLru, Prog.runs_bind, Prog.runs_get]
  rw [if_pos hclean₁]
  simp only [Prog.runs_modify, readbuf, Prog.runs_bind, Prog.runs_get]
  rw [if_pos hup₂]
  simp only [Prog.runs_pure]
  have hbesides₂ : Besides bh s (s₁.putLastLru bh) := by
    refine besides_of_core (hcore₂.trans hcore) ?_ (fun _ _ => rfl)
      ⟨rfl, rfl, rfl, rfl⟩ ?_
    · intro b hb
      simp [Core.setHead, hb]
    · rw [hbuf₂]
      exact hbesides.away
  have hlru₂ : (s₁.putLastLru bh).lru = (s.putLastLru bh).lru := by
    rw [putLastLru_lru, putLastLru_lru]
    rfl
  refine ⟨trivial, ⟨hquiet₂, ?_, ?_, ?_, ?_⟩, hbesides₂, hcore₂.trans hcore,
    hlru₂⟩
  · rw [hbuf₂]
    exact hsteady.clean
  · rw [hbuf₂]
    exact hsteady.unlocked
  · rw [hbuf₂]
    exact hsteady.count
  · rw [hbuf₂]
    exact hsteady.mapcount

end Bread

/-- What the end of `getblk` makes of a head. -/
def BufferHead.tagged (h : BufferHead) (dev block ds : Nat) : BufferHead :=
  { h with
    bCount := 1
    bDirty := false
    bLock := false
    bUptodate := false
    bDev := dev
    bBlocknr := block
    bSeg := ds }

/-- What the read of a block leaves of its head. -/
def BufferHead.fetched (h : BufferHead) (refused : Bool) : BufferHead :=
  { h with bDirty := false, bLock := false, bUptodate := !refused }

/-- What `bread` leaves in the buffer `bh` of a block: its head, and the bytes if
the device has not refused them. -/
structure Filled (dev block : Nat) (bh : Bh) (s s' : Buffers) : Prop where
  besides : Besides bh s s'
  tag : (s'.buffers bh).bDev = dev ∧ (s'.buffers bh).bBlocknr = block
  seg : (s'.buffers bh).bSeg = s.ds
  uptodate : (s'.buffers bh).bUptodate = !s.ioError dev block
  content : s.ioError dev block = false → s'.content bh = s.disk dev block

/-- The same for a block that had no buffer. -/
structure Loaded (dev block : Nat) (bh : Bh) (s s' : Buffers) : Prop
    extends Filled dev block bh s s' where
  lru : s'.lru = (s.putLastLru bh).lru

section Fill

variable {s : Buffers} {bh : Bh} {held mapped : Finset Bh} {dev block : Nat}

theorem Core.fetch_spec (c : Core) (bh : Bh) :
    (c.fetch bh).heads = Function.update c.heads bh ((c.heads bh).fetched
        (c.ioError (c.heads bh).bDev (c.heads bh).bBlocknr)) ∧
      (∀ b, b ≠ bh → (c.fetch bh).content b = c.content b) ∧
      (c.ioError (c.heads bh).bDev (c.heads bh).bBlocknr = false →
        (c.fetch bh).content bh = c.disk (c.heads bh).bDev (c.heads bh).bBlocknr) ∧
      (c.fetch bh).ds = c.ds ∧ (c.fetch bh).requestFn = c.requestFn ∧
      (c.fetch bh).ioError = c.ioError ∧ (c.fetch bh).disk = c.disk := by
  unfold Core.fetch
  cases hrefused : c.ioError (c.heads bh).bDev (c.heads bh).bBlocknr with
  | true =>
      rw [if_pos rfl]
      refine ⟨?_, fun _ _ => rfl, ?_, rfl, rfl, rfl, rfl⟩
      · simp [Core.setHead, BufferHead.fetched]
      · intro h
        cases h
  | false =>
      rw [if_neg Bool.false_ne_true]
      refine ⟨?_, ?_, ?_, rfl, rfl, rfl, rfl⟩
      · simp [Core.setHead, Core.serve, Core.putContent, BufferHead.fetched]
      · intro b hb
        simp [Core.setHead, Core.serve, Core.putContent, hb]
      · intro _
        simp [Core.setHead, Core.serve, Core.putContent]

theorem readbuf_runs (n : Nat) (hs : Steady (insert bh held) mapped s) (hbh : bh ∉ held)
    (hmap : bh ∉ mapped) (hmapped : mapped.card < nrMapbufs - 1)
    (htag : (s.buffers bh).bDev = dev ∧ (s.buffers bh).bBlocknr = block)
    (hup : (s.buffers bh).bUptodate = false) (hseg : (s.buffers bh).bSeg = s.ds)
    (hpresent : major dev < maxBlkdev) (hpolled : s.requestFn (major dev) = .polled) :
    Prog.Runs (readbuf (n + 2) bh) s fun found s' =>
      found = (if s.ioError dev block then none else some bh) ∧
        Steady (if s.ioError dev block then held else insert bh held) mapped s' ∧
        Filled dev block bh s s' ∧ s'.lru = s.lru := by
  obtain ⟨hdev, hblock⟩ := htag
  have hread : Prog.Runs (llRwBlk (n + 2) .read bh) s fun _ s' =>
      ReadIn bh s s' := by
    refine llRwBlk_reads n hs.quiet (hs.unlocked bh) hup hseg ?_ ?_ ?_
      (hs.few hmapped)
    · rw [hs.mapcount bh, if_neg hmap]
    · rw [hdev]
      exact hpresent
    · rw [hdev]
      exact hpolled
  obtain ⟨hheads, hcontents, hbytes, hrest⟩ := Core.fetch_spec s.core bh
  rw [core_bDev, core_bBlocknr, hdev, hblock] at hheads hbytes
  simp only [readbuf, Prog.runs_bind, Prog.runs_get]
  rw [if_neg (by rw [hup]; decide)]
  simp only [Prog.runs_bind]
  refine hread.mono ?_
  intro _ s₁ h
  have hbesides : Besides bh s s₁ := by
    refine besides_of_core h.core ?_ hcontents hrest h.away
    intro b hb
    rw [hheads, Function.update_of_ne hb]
  have hflags : SameFlags ((s.buffers bh).fetched (s.ioError dev block))
      (s₁.buffers bh) := by
    refine sameFlags_of_bare ?_
    have hhead : (s₁.buffers bh).bare = s₁.core.heads bh := rfl
    rw [hhead, h.core, hheads, Function.update_self]
    rfl
  have hfilled : Filled dev block bh s s₁ := by
    refine ⟨hbesides, ⟨hflags.dev.trans hdev, hflags.blocknr.trans hblock⟩,
      hflags.seg.trans hseg, hflags.uptodate, ?_⟩
    intro hio
    have hb := hbytes hio
    rw [← h.core] at hb
    exact hb
  have hsteady : Steady (insert bh held) mapped s₁ := by
    refine hs.besides hbesides h.quiet (fun b _ => h.mapcount b)
      (fun _ _ => Iff.rfl) (fun _ _ => Iff.rfl) ?_
    exact ⟨hflags.dirty, hflags.lock, hflags.count.trans (hs.count bh),
      (h.mapcount bh).trans (hs.mapcount bh)⟩
  rw [waitOnBuffer]
  simp only [Prog.runs_bind, Prog.runs_get]
  rw [if_neg (by rw [hsteady.unlocked bh]; decide)]
  simp only [Prog.runs_pure]
  cases hio : s.ioError dev block with
  | false =>
      have hup₁ : (s₁.buffers bh).bUptodate = true := by
        rw [hfilled.uptodate, hio]
        rfl
      rw [if_pos hup₁]
      exact ⟨rfl, hsteady, hfilled, h.lru⟩
  | true =>
      have hup₁ : (s₁.buffers bh).bUptodate = false := by
        rw [hfilled.uptodate, hio]
        rfl
      rw [if_neg (by rw [hup₁]; decide)]
      simp only [Prog.runs_bind]
      refine (brelse_runs _ hsteady (Finset.mem_insert_self bh held)).mono ?_
      rintro _ s₂ ⟨hs₂, hb₂, hlru₂, hcore₂⟩
      simp only [Prog.runs_pure]
      have hflags₂ : SameFlags { s₁.buffers bh with bCount := 0 } (s₂.buffers bh) := by
        refine sameFlags_of_bare ?_
        have hhead : (s₂.buffers bh).bare = s₂.core.heads bh := rfl
        rw [hhead, hcore₂]
        simp [Core.setHead, Buffers.core, BufferHead.bare]
      rw [Finset.erase_insert hbh] at hs₂
      refine ⟨rfl, hs₂, ⟨hbesides.trans hb₂, ?_, ?_, ?_, ?_⟩, hlru₂.trans h.lru⟩
      · exact ⟨hflags₂.dev.trans hfilled.tag.1, hflags₂.blocknr.trans hfilled.tag.2⟩
      · exact hflags₂.seg.trans hfilled.seg
      · exact hflags₂.uptodate.trans hfilled.uptodate
      · intro hread
        rw [hio] at hread
        cases hread

theorem bread_stale (n : Nat) (hs : Steady held mapped s) (hsub : mapped ⊆ held)
    (hmapped : mapped.card < nrMapbufs - 1)
    (hbh : (s.buffers bh).bDev = dev ∧ (s.buffers bh).bBlocknr = block)
    (huniq : ∀ b, (s.buffers b).bDev = dev → (s.buffers b).bBlocknr = block →
      b = bh)
    (hup : (s.buffers bh).bUptodate = false)
    (hseg : (s.buffers bh).bSeg = s.ds)
    (hfree : bh ∉ held)
    (hpresent : major dev < maxBlkdev)
    (hpolled : s.requestFn (major dev) = .polled) :
    Prog.Runs (bread (n + 2) dev block) s fun found s' =>
      found = (if s.ioError dev block then none else some bh) ∧
        Steady (if s.ioError dev block then held else insert bh held) mapped s' ∧
        Filled dev block bh s s' ∧ s'.lru = s.lru := by
  have hfind := findBuffer_unique hbh huniq
  let s₁ := s.modHead bh fun h => { h with bCount := wrap 16 (h.bCount + 1) }
  obtain ⟨hsteady, hbesides, -, hown⟩ :=
    hs.hold hfree (Eq.refl s₁)
  have htag₁ : (s₁.buffers bh).bDev = dev ∧ (s₁.buffers bh).bBlocknr = block := by
    rw [hown]
    exact hbh
  have hup₁ : (s₁.buffers bh).bUptodate = false := by
    rw [hown]
    exact hup
  have hseg₁ : (s₁.buffers bh).bSeg = s₁.ds := by
    rw [hown]
    exact hseg
  have hread := readbuf_runs n hsteady hfree (fun h => hfree (hsub h)) hmapped
    htag₁ hup₁ hseg₁ hpresent hpolled
  simp only [bread, getblk, lookup, getHashTable, Prog.runs_bind, Prog.runs_get,
    hfind, incCount, updHead, Prog.runs_modify]
  rw [waitOnBuffer]
  simp only [Prog.runs_bind, Prog.runs_get]
  rw [if_neg (by rw [hsteady.unlocked bh]; decide)]
  simp only [Prog.runs_pure]
  rw [if_pos htag₁]
  simp only [Prog.runs_pure, touchLru, Prog.runs_bind, Prog.runs_get]
  rw [if_neg (by rw [hup₁]; simp)]
  simp only [Prog.runs_pure]
  refine hread.mono ?_
  rintro found s₂ ⟨rfl, hsteady₂, hfilled, hlru⟩
  exact ⟨rfl, hsteady₂, ⟨hbesides.trans hfilled.besides, hfilled.tag, hfilled.seg,
    hfilled.uptodate, hfilled.content⟩, hlru⟩

theorem bread_new (n : Nat) (hs : Steady held mapped s) (hsub : mapped ⊆ held)
    (hheld : held.card < nrBuffers - nrMapbufs) (hmapped : mapped.card < nrMapbufs - 1)
    (hnew : ∀ b, ¬((s.buffers b).bDev = dev ∧ (s.buffers b).bBlocknr = block))
    (hpresent : major dev < maxBlkdev) (hpolled : s.requestFn (major dev) = .polled) :
    Prog.Runs (bread (n + 2) dev block) s fun found s' =>
      ∃ bh, s.lru.find? s.free = some bh ∧ bh ∉ held ∧
        found = (if s.ioError dev block then none else some bh) ∧
        Steady (if s.ioError dev block then held else insert bh held) mapped s' ∧
        Loaded dev block bh s s' := by
  obtain ⟨bh, hfree, hbh⟩ := hs.exists_free hheld
  have hnone : s.findBuffer dev block = none := findBuffer_none_iff.mpr hnew
  have htake : s.takeFree = (some bh, s.putLastLru bh) := by
    simp only [Buffers.takeFree, hfree]
  let s₁ := s.putLastLru bh
  let s₂ := s₁.tagHead bh dev block
  obtain ⟨hquiet₁, hcore₁⟩ := putLastLru_quiet hs.quiet bh
  have hsame₁ : s₁.buffers = s.buffers ∧ s₁.ds = s.ds := by
    simp only [s₁, Buffers.putLastLru]
    split <;> exact ⟨rfl, rfl⟩
  have hplain : Plain fun h => h.tagged dev block s₁.ds :=
    ⟨fun _ => rfl, fun _ => rfl, fun _ => rfl⟩
  have hquiet₂ : Quiet s₂ := quiet_modHead hplain hquiet₁
  have hcore₂ : s₂.core = s.core.setHead bh fun h => h.tagged dev block s₁.ds := by
    have h : s₂.core = s₁.core.setHead bh fun h => h.tagged dev block s₁.ds :=
      core_modHead hplain
    rw [h, hcore₁]
  have hown₂ : s₂.buffers bh = (s.buffers bh).tagged dev block s₁.ds := by
    simp only [s₂, Buffers.tagHead, Buffers.modHead, Buffers.setHead,
      Function.update_self, hsame₁.1]
    rfl
  have hothers₂ : ∀ b, b ≠ bh → s₂.buffers b = s.buffers b := by
    intro b hb
    simp [s₂, Buffers.tagHead, Buffers.modHead, Buffers.setHead, hb, hsame₁.1]
  have hbesides₂ : Besides bh s s₂ := by
    refine besides_of_core hcore₂ ?_ (fun _ _ => rfl) ⟨rfl, rfl, rfl, rfl⟩ ?_
    · intro b hb
      simp [Core.setHead, hb]
    · intro b hb hdata
      rw [hothers₂ b hb]
      exact hdata
  have hsteady₂ : Steady (insert bh held) mapped s₂ := by
    refine hs.besides hbesides₂ hquiet₂ ?_ ?_ (fun _ _ => Iff.rfl) ?_
    · intro b hb
      rw [hothers₂ b hb]
    · intro b hb
      simp [hb]
    · rw [hown₂]
      exact ⟨rfl, rfl, (if_pos (Finset.mem_insert_self bh held)).symm,
        hs.mapcount bh⟩
  have hread := @readbuf_runs _ _ _ _ dev block n hsteady₂ hbh
    (fun h => hbh (hsub h)) hmapped (by rw [hown₂]; exact ⟨rfl, rfl⟩)
    (by rw [hown₂]; rfl) (by rw [hown₂, hbesides₂.ds]; exact hsame₁.2) hpresent
    (by rw [hbesides₂.requestFn]; exact hpolled)
  rw [hbesides₂.ioError] at hread
  simp only [bread, getblk, lookup, getHashTable, Prog.runs_bind, Prog.runs_get,
    hnone, Prog.runs_pure, getFreeBuffer, Prog.runs_atomically, htake,
    Prog.runs_modify]
  refine hread.mono ?_
  rintro found s₃ ⟨rfl, hsteady, hfilled, hlru⟩
  refine ⟨bh, hfree, hbh, rfl, hsteady, ⟨?_, hfilled.tag, ?_, ?_, ?_⟩, hlru⟩
  · exact hbesides₂.trans hfilled.besides
  · rw [hfilled.seg, hbesides₂.ds]
  · rw [hfilled.uptodate, hbesides₂.ioError]
  · intro hio
    rw [← hbesides₂.ioError] at hio
    rw [hfilled.content hio, hbesides₂.disk]

end Fill

end Buffer
end Elks
