import Elks.Buffer.Cache
import Elks.Buffer.Store

/-!
# The cache without its store and its queues

For one task on devices that do their transfers at once, the two-level store
and the request queue are invisible between calls.  `Buffers.core` forgets
them: what remains are the flags and tags of the heads, the content of every
buffer and the disks.  `Quiet` says that they are at rest.

The functions of the cache act on the core as pure functions do:

* changing a head (`updHead_quietly`) and moving buffers between the levels
  (`mapBuffer_quietly`) are what they look like;
* a transfer (`llRwBlk_quietly`) copies the buffer to the disk or the disk to
  the buffer, and leaves the head clean and valid.
-/

namespace Elks
namespace Buffer

open Lib

/-- A head without its place in the store. -/
def BufferHead.bare (h : BufferHead) : BufferHead :=
  { h with bData := none, bMapcount := 0 }

/-- Heads, contents and disks. -/
@[ext] structure Core where
  heads : Bh → BufferHead
  content : Bh → Block
  disk : Nat → Nat → Block
  ds : Nat
  requestFn : Nat → Driver
  ioError : Nat → Nat → Bool

namespace Core

/-- Change one head. -/
def setHead (c : Core) (bh : Bh) (f : BufferHead → BufferHead) : Core :=
  { c with heads := Function.update c.heads bh (f (c.heads bh)) }

/-- The bytes of a disk block. -/
def putDisk (c : Core) (dev block : Nat) (b : Block) : Core :=
  { c with
    disk := Function.update c.disk dev (Function.update (c.disk dev) block b) }

/-- The bytes of a buffer. -/
def putContent (c : Core) (bh : Bh) (b : Block) : Core :=
  { c with content := Function.update c.content bh b }

/-- Device `dev` exists, does its transfers at once and never fails. -/
def Good (c : Core) (dev : Nat) : Prop :=
  major dev < maxBlkdev ∧ c.requestFn (major dev) = .polled ∧
    ∀ block, c.ioError dev block = false

end Core

/-- The state of the cache without its store and its queues. -/
def Buffers.core (s : Buffers) : Core where
  heads := fun bh => (s.buffers bh).bare
  content := s.content
  disk := s.disk
  ds := s.ds
  requestFn := s.requestFn
  ioError := s.ioError

section Fields

variable (s : Buffers) (bh : Bh)

@[simp] theorem core_bDev : (s.core.heads bh).bDev = (s.buffers bh).bDev :=
  rfl

@[simp] theorem core_bBlocknr :
    (s.core.heads bh).bBlocknr = (s.buffers bh).bBlocknr :=
  rfl

@[simp] theorem core_bCount : (s.core.heads bh).bCount = (s.buffers bh).bCount :=
  rfl

@[simp] theorem core_bUptodate :
    (s.core.heads bh).bUptodate = (s.buffers bh).bUptodate :=
  rfl

@[simp] theorem core_bDirty : (s.core.heads bh).bDirty = (s.buffers bh).bDirty :=
  rfl

@[simp] theorem core_bLock : (s.core.heads bh).bLock = (s.buffers bh).bLock :=
  rfl

end Fields

/-- Store and queues are at rest, and the LRU list has every head. -/
structure Quiet (s : Buffers) : Prop where
  twoLevel : TwoLevel s
  queue : ∀ m, s.queue m = []
  inactive : ∀ r, (s.allRequests r).rqActive = false
  lru : ∀ bh, bh ∈ s.lru

/-- Unless it sleeps in `map_buffer`, `p` returns with store and queues at rest and `Q`. -/
def Quietly {α : Type} (p : Code α) (s : Buffers) (Q : α → Core → Prop) : Prop :=
  Prog.Awake .bufmapwait p s fun a s' => Quiet s' ∧ Q a s'.core

section Rules

variable {α β : Type} {s : Buffers} {Q : α → Core → Prop} {p : Code α}

theorem Quietly.bind {g : α → Code β} {Q' : β → Core → Prop} (hp : Quietly p s Q)
    (hg : ∀ a s', Quiet s' → Q a s'.core → Quietly (g a) s' Q') :
    Quietly (p >>= g) s Q' :=
  (Prog.awake_bind p g s _).mpr
    (Prog.Awake.mono hp fun a s' h => hg a s' h.1 h.2)

theorem Quietly.mono {Q Q' : α → Core → Prop} (hp : Quietly p s Q) (hQ : ∀ a c, Q a c → Q' a c) :
    Quietly p s Q' :=
  Prog.Awake.mono hp fun a s' h => ⟨h.1, hQ a s'.core h.2⟩

theorem quietly_get_bind {g : Buffers → Code β} {Q : β → Core → Prop} (h : Quietly (g s) s Q) :
    Quietly (Prog.get >>= g) s Q :=
  h

theorem quietly_pure {a : α} (hs : Quiet s) (hQ : Q a s.core) :
    Quietly (pure a) s Q :=
  ⟨hs, hQ⟩

end Rules

section Heads

variable {s s' : Buffers} {bh : Bh} {f : BufferHead → BufferHead} {fuel : Nat}

theorem StoreStep.core_eq (h : StoreStep s s') : s'.core = s.core := by
  have hrest := h.rest
  ext1
  · funext b
    change (s'.buffers b).bare = (s.buffers b).bare
    rw [h.head b]
    rfl
  · exact funext h.content
  · rw [hrest]
    rfl
  · rw [hrest]
    rfl
  · rw [hrest]
    rfl
  · rw [hrest]
    rfl

theorem StoreStep.quiet (h : StoreStep s s') (hs : Quiet s) : Quiet s' := by
  have hrest := h.rest
  constructor
  · exact h.twoLevel
  · rw [hrest]
    exact hs.queue
  · rw [hrest]
    exact hs.inactive
  · rw [hrest]
    exact hs.lru

/-- A change of a head that has nothing to do with the store. -/
structure Plain (f : BufferHead → BufferHead) : Prop where
  data : ∀ h, (f h).bData = h.bData
  num : ∀ h, (f h).bNum = h.bNum
  bare : ∀ h, (f h).bare = f h.bare

theorem core_modHead (hf : Plain f) : (s.modHead bh f).core = s.core.setHead bh f := by
  have hsame := sameStore_modHead s bh f hf.data hf.num
  ext1
  · funext b
    change ((s.modHead bh f).buffers b).bare = _
    by_cases hb : b = bh
    · subst hb
      simp [Buffers.modHead, Buffers.setHead, Core.setHead, Buffers.core,
        hf.bare]
    · simp [Buffers.modHead, Buffers.setHead, Core.setHead, Buffers.core, hb]
  · exact funext hsame.content
  · rfl
  · rfl
  · rfl
  · rfl

theorem quiet_modHead (hf : Plain f) (hs : Quiet s) :
    Quiet (s.modHead bh f) where
  twoLevel := (sameStore_modHead s bh f hf.data hf.num).twoLevel hs.twoLevel
  queue := hs.queue
  inactive := hs.inactive
  lru := hs.lru

theorem updHead_quietly (hf : Plain f) (hs : Quiet s) :
    Quietly (updHead bh f) s fun _ c => c = s.core.setHead bh f :=
  ⟨quiet_modHead hf hs, core_modHead hf⟩

theorem mapBuffer_quietly (hfuel : 2 ≤ fuel) (hs : Quiet s) :
    Quietly (mapBuffer fuel bh) s fun _ c => c = s.core :=
  Prog.Awake.mono (mapBuffer_awake hfuel hs.twoLevel) fun _ _ h =>
    ⟨h.step.quiet hs, h.step.core_eq⟩

theorem unmapBuffer_quietly (hs : Quiet s) : Quietly (unmapBuffer bh) s fun _ c => c = s.core := by
  have hstep := unmapBuffer_storeStep hs.twoLevel bh
  exact ⟨hstep.quiet hs, hstep.core_eq⟩

theorem waitOnBuffer_quietly (hs : Quiet s) (hlock : (s.core.heads bh).bLock = false) :
    Quietly (waitOnBuffer fuel bh) s fun _ c => c = s.core := by
  refine quietly_get_bind ?_
  have h : (s.buffers bh).bLock = false := hlock
  rw [if_neg (by simp [h])]
  exact quietly_pure hs rfl

end Heads

section Transfer

variable {s : Buffers} {bh : Bh} {i : Slot} {r : Request}

theorem core_transfer_write (hs : TwoLevel s) (hi : (s.buffers bh).bData = some i)
    (hcmd : r.rqCmd = .write) (hbuf : r.rqBuffer = some i) :
    TwoLevel (s.transfer r) ∧
      (s.transfer r).core =
        s.core.putDisk r.rqDev r.block (s.core.content bh) := by
  have hcontent : s.core.content bh = s.bufmem i := hs.content_of_mapped hi
  simp only [Buffers.transfer, hcmd, hbuf, Buffers.deref]
  refine ⟨⟨hs.map_iff, hs.num⟩, ?_⟩
  rw [hcontent]
  rfl

theorem core_transfer_read (hs : TwoLevel s) (hi : (s.buffers bh).bData = some i)
    (hcmd : r.rqCmd = .read) (hbuf : r.rqBuffer = some i) :
    TwoLevel (s.transfer r) ∧
      (s.transfer r).core =
        s.core.putContent bh (s.core.disk r.rqDev r.block) := by
  simp only [Buffers.transfer, hcmd, hbuf]
  obtain ⟨hs', hcontent⟩ := store_content hs hi (s.disk r.rqDev r.block)
  refine ⟨hs', ?_⟩
  ext1
  · rfl
  · exact hcontent
  · rfl
  · rfl
  · rfl
  · rfl

end Transfer

/-- What a request does to the core: the transfer, and the flags `add_request`
and `end_request` set. -/
def Core.serve (c : Core) (rw : Rw) (bh : Bh) : Core :=
  let h := c.heads bh
  let c₁ :=
    match rw with
    | .read => c.putContent bh (c.disk h.bDev h.bBlocknr)
    | .write => c.putDisk h.bDev h.bBlocknr (c.content bh)
  c₁.setHead bh fun h =>
    { h with bDirty := false, bUptodate := true, bLock := false }

/-- The state in which `make_request` calls `add_request`. -/
structure Submitted (s : Buffers) (req : Nat) (rw : Rw) (bh : Bh) : Prop where
  twoLevel : TwoLevel s
  queue : ∀ m, s.queue m = []
  inactive : ∀ r, r ≠ req → (s.allRequests r).rqActive = false
  lru : ∀ bh, bh ∈ s.lru
  locked : (s.buffers bh).bLock = true
  data : (s.buffers bh).bData ≠ none
  dev : (s.allRequests req).rqDev = (s.buffers bh).bDev
  cmd : (s.allRequests req).rqCmd = rw
  block : (s.allRequests req).block = (s.buffers bh).bBlocknr
  buffer : (s.allRequests req).rqBuffer = (s.buffers bh).bData
  head : (s.allRequests req).rqBh = bh

section Serve

variable {s : Buffers} {bh : Bh} {req m fuel n : Nat} {rw : Rw}

theorem polledRequest_awake (hqueue : s.queue m = [req])
    (hmajor : major (s.allRequests req).rqDev = m)
    (hlock : (s.buffers (s.allRequests req).rqBh).bLock = true)
    (hok : s.ioError (s.allRequests req).rqDev (s.allRequests req).block = false) :
    Prog.Awake .bufmapwait (polledRequest m (n + 2)) s fun _ s' =>
      s' = (s.transfer (s.allRequests req)).endRequest m true := by
  have htransfer : (s.transfer (s.allRequests req)).queue m = [req] := by
    unfold Buffers.transfer Buffers.store
    split
    · split <;> exact hqueue
    · exact hqueue
  have hdone : ((s.transfer (s.allRequests req)).endRequest m true).queue m = [] := by
    simp [Buffers.endRequest, htransfer]
  rw [polledRequest]
  simp only [Prog.awake_bind, Prog.awake_get, hqueue]
  rw [if_neg (by simp [hmajor]), if_neg (by simp [hlock]), if_neg (by simp [hok])]
  simp only [Prog.awake_bind, Prog.awake_modify, endRequest, Prog.awake_signal]
  rw [polledRequest]
  simp only [Prog.awake_bind, Prog.awake_get, hdone, Prog.awake_pure]

theorem transfer_frame (s : Buffers) (r : Request) :
    (s.transfer r).buffers = s.buffers ∧ (s.transfer r).queue = s.queue ∧
      (s.transfer r).allRequests = s.allRequests ∧
      (s.transfer r).lru = s.lru := by
  unfold Buffers.transfer Buffers.store
  split
  · split <;> exact ⟨rfl, rfl, rfl, rfl⟩
  · exact ⟨rfl, rfl, rfl, rfl⟩

theorem endRequest_quiet (uptodate : Bool) (htwo : TwoLevel s) (hqueue : s.queue m = [req])
    (hothers : ∀ k, k ≠ m → s.queue k = [])
    (hinactive : ∀ r, r ≠ req → (s.allRequests r).rqActive = false) (hlru : ∀ bh, bh ∈ s.lru)
    (hbh : (s.allRequests req).rqBh = bh) :
    Quiet (s.endRequest m uptodate) ∧
      (s.endRequest m uptodate).core =
        s.core.setHead bh fun h =>
          { h with bUptodate := uptodate, bLock := false } := by
  have hplain : Plain fun h => { h with bUptodate := uptodate } :=
    ⟨fun _ => rfl, fun _ => rfl, fun _ => rfl⟩
  have hplain' : Plain fun h => { h with bLock := false } :=
    ⟨fun _ => rfl, fun _ => rfl, fun _ => rfl⟩
  let s₁ := s.modHead bh fun h => { h with bUptodate := uptodate }
  let s₂ := s₁.modHead bh fun h => { h with bLock := false }
  have htwo₁ : TwoLevel s₁ :=
    (sameStore_modHead s bh _ hplain.data hplain.num).twoLevel htwo
  have htwo₂ : TwoLevel s₂ :=
    (sameStore_modHead s₁ bh _ hplain'.data hplain'.num).twoLevel htwo₁
  have hstep : StoreStep s₂ (s₂.unmapBuffer bh) := unmapBuffer_storeStep htwo₂ bh
  have hend : s.endRequest m uptodate =
      { s₂.unmapBuffer bh with
        queue := Function.update s.queue m []
        allRequests := Function.update s.allRequests req
          { s.allRequests req with rqDev := 2 ^ 16 - 1, rqActive := false } } := by
    simp only [Buffers.endRequest, hqueue, hbh]
    rfl
  have hcore : s₂.core =
      s.core.setHead bh fun h =>
        { h with bUptodate := uptodate, bLock := false } := by
    rw [core_modHead hplain', core_modHead hplain]
    simp [Core.setHead]
  rw [hend]
  refine ⟨⟨⟨hstep.twoLevel.map_iff, hstep.twoLevel.num⟩, ?_, ?_, ?_⟩, ?_⟩
  · intro k
    by_cases hk : k = m
    · subst hk
      simp
    · simpa [hk] using hothers k hk
  · intro r
    by_cases hr : r = req
    · subst hr
      simp
    · simpa [hr] using hinactive r hr
  · rw [hstep.rest]
    exact hlru
  · rw [← hcore, ← hstep.core_eq]
    rfl

theorem addRequest_quietly (hfuel : 2 ≤ fuel) (hs : Submitted s req rw bh)
    (hm : major (s.buffers bh).bDev = m) (hgood : s.core.Good (s.buffers bh).bDev) :
    Quietly (addRequest fuel m req) s fun _ c => c = s.core.serve rw bh := by
  obtain ⟨n, rfl⟩ := Nat.exists_eq_add_of_le' hfuel
  obtain ⟨i, hi⟩ := Option.ne_none_iff_exists'.mp hs.data
  obtain ⟨-, hpolled, hio⟩ := hgood
  have hplain : Plain fun h => { h with bDirty := false } :=
    ⟨fun _ => rfl, fun _ => rfl, fun _ => rfl⟩
  let s₁ : Buffers :=
    { s.modHead bh (fun h => { h with bDirty := false }) with
      queue := Function.update s.queue m [req] }
  have henq : s.enqueue m req = (true, s₁) := by
    have hq : (s.modHead bh fun h => { h with bDirty := false }).queue m = [] :=
      hs.queue m
    simp only [Buffers.enqueue, hs.head, hq]
    rfl
  have htwo₁ : TwoLevel s₁ := by
    have h := (sameStore_modHead s bh _ hplain.data hplain.num).twoLevel hs.twoLevel
    exact ⟨h.map_iff, h.num⟩
  have hcore₁ : s₁.core = s.core.setHead bh fun h => { h with bDirty := false } :=
    core_modHead hplain
  have hi₁ : (s₁.buffers bh).bData = some i := by
    simp [s₁, Buffers.modHead, Buffers.setHead, hi]
  have hlock₁ : (s₁.buffers bh).bLock = true := by
    simp [s₁, Buffers.modHead, Buffers.setHead, hs.locked]
  have hreq₁ : s₁.allRequests req = s.allRequests req := rfl
  have hserve : Prog.Awake .bufmapwait (polledRequest m (n + 2)) s₁ fun _ s' =>
      s' = (s₁.transfer (s₁.allRequests req)).endRequest m true := by
    apply polledRequest_awake
    · simp [s₁]
    · rw [hreq₁, hs.dev, hm]
    · rw [hreq₁, hs.head]
      exact hlock₁
    · rw [hreq₁, hs.dev]
      exact hio _
  have hfn : s₁.requestFn m = .polled := by
    rw [← hm]
    exact hpolled
  simp only [Quietly, addRequest, Prog.awake_bind, Prog.awake_atomically, henq,
    if_true, requestFn, Prog.awake_get, hfn]
  refine hserve.mono ?_
  rintro _ s' rfl
  obtain ⟨hbuf, hqueue, hreqs, hlru⟩ := transfer_frame s₁ (s₁.allRequests req)
  have htransfer : TwoLevel (s₁.transfer (s₁.allRequests req)) ∧
      ((s₁.transfer (s₁.allRequests req)).core.setHead bh fun h =>
        { h with bUptodate := true, bLock := false }) = s.core.serve rw bh := by
    have hbuffer : (s₁.allRequests req).rqBuffer = some i := by
      rw [hreq₁, hs.buffer, hi]
    cases rw with
    | read =>
        obtain ⟨htwo, hcore⟩ :=
          core_transfer_read htwo₁ hi₁ (hreq₁ ▸ hs.cmd) hbuffer
        refine ⟨htwo, ?_⟩
        rw [hcore, hcore₁, hreq₁, hs.dev, hs.block]
        simp [Core.setHead, Core.putContent, Core.serve]
    | write =>
        obtain ⟨htwo, hcore⟩ :=
          core_transfer_write htwo₁ hi₁ (hreq₁ ▸ hs.cmd) hbuffer
        refine ⟨htwo, ?_⟩
        rw [hcore, hcore₁, hreq₁, hs.dev, hs.block]
        simp [Core.setHead, Core.putDisk, Core.serve]
  have hqueue₂ : (s₁.transfer (s₁.allRequests req)).queue m = [req] := by
    rw [hqueue]
    simp [s₁]
  have hothers₂ : ∀ k, k ≠ m →
      (s₁.transfer (s₁.allRequests req)).queue k = [] := by
    intro k hk
    rw [hqueue]
    simpa [s₁, hk] using hs.queue k
  have hinactive₂ : ∀ r, r ≠ req →
      ((s₁.transfer (s₁.allRequests req)).allRequests r).rqActive = false := by
    intro r hr
    rw [hreqs]
    exact hs.inactive r hr
  have hlru₂ : ∀ b, b ∈ (s₁.transfer (s₁.allRequests req)).lru := by
    intro b
    rw [hlru]
    exact hs.lru b
  have hhead₂ :
      ((s₁.transfer (s₁.allRequests req)).allRequests req).rqBh = bh := by
    rw [hreqs]
    exact hs.head
  have hend := endRequest_quiet true htransfer.1 hqueue₂ hothers₂ hinactive₂ hlru₂
    hhead₂
  exact ⟨hend.1, hend.2.trans htransfer.2⟩

theorem getRequest_spec (dev : Nat) (hn : 0 < n)
    (hinactive : ∀ r, (s.allRequests r).rqActive = false) :
    ∃ req found limit, s.getRequest n dev =
      (some req,
        { s with
          prevFound := found
          prevLimit := limit
          allRequests := Function.update s.allRequests req
            { s.allRequests req with rqActive := true, rqDev := dev } }) := by
  have hfind : ∀ t : Buffers, t.allRequests = s.allRequests →
      ∀ start, ∃ req, t.findRequest n n start = some req := by
    intro t ht start
    obtain ⟨k, rfl⟩ : ∃ k, n = k + 1 := ⟨n - 1, by omega⟩
    exact ⟨_, by simp only [Buffers.findRequest, ht, hinactive]; rfl⟩
  unfold Buffers.getRequest
  by_cases hlimit : s.prevLimit = n
  · obtain ⟨req, hreq⟩ := hfind s rfl s.prevFound
    simp only [hlimit, if_true, hreq]
    exact ⟨req, req, n, by rw [← hlimit]⟩
  · obtain ⟨req, hreq⟩ :=
      hfind { s with prevLimit := n, prevFound := 0 } rfl 0
    simp only [hlimit, if_false, hreq]
    exact ⟨req, req, n, rfl⟩

theorem submit_quietly {maxReq : Nat} (rw : Rw) (hfuel : 2 ≤ fuel) (hmax : 0 < maxReq)
    (hs : Quiet s) (hlock : (s.buffers bh).bLock = true) (hdata : (s.buffers bh).bData ≠ none)
    (hm : major (s.buffers bh).bDev = m) (hgood : s.core.Good (s.buffers bh).bDev) :
    Quietly (submit fuel m maxReq rw ((s.buffers bh).bBlocknr * 2) bh) s
      fun _ c => c = s.core.serve rw bh := by
  obtain ⟨req, found, limit, hget⟩ :=
    getRequest_spec (s.buffers bh).bDev hmax hs.inactive
  simp only [Quietly, submit, Prog.awake_bind, Prog.awake_atomically, hget,
    Prog.awake_modify]
  refine addRequest_quietly hfuel
    { twoLevel := ⟨hs.twoLevel.map_iff, hs.twoLevel.num⟩
      queue := hs.queue
      inactive := ?_
      lru := hs.lru
      locked := hlock
      data := hdata
      dev := ?_
      cmd := ?_
      block := ?_
      buffer := ?_
      head := ?_ } hm hgood
  · intro r hr
    simpa [Buffers.fillRequest, hr] using hs.inactive r
  · simp [Buffers.fillRequest]
  · simp [Buffers.fillRequest]
  · simp [Buffers.fillRequest, Request.block]
  · simp [Buffers.fillRequest]
  · simp [Buffers.fillRequest]

/-- A transfer is needed: a buffer to read is not valid, one to write is
dirty. -/
def Needed (h : BufferHead) : Rw → Prop
  | .read => h.bUptodate = false
  | .write => h.bDirty = true

theorem Core.serve_locked (c : Core) :
    (c.setHead bh fun h => { h with bLock := true }).serve rw bh =
      c.serve rw bh := by
  cases rw <;>
    simp [Core.setHead, Core.serve, Core.putContent, Core.putDisk]

theorem makeRequest_quietly (hfuel : 2 ≤ fuel) (hs : Quiet s)
    (hlock : (s.core.heads bh).bLock = false) (hseg : (s.core.heads bh).bSeg = s.core.ds)
    (hneeded : Needed (s.core.heads bh) rw) (hgood : s.core.Good (s.core.heads bh).bDev) :
    Quietly (makeRequest fuel (major (s.core.heads bh).bDev) rw bh) s
      fun _ c => c = s.core.serve rw bh := by
  have hplain : Plain fun h => { h with bLock := true } :=
    ⟨fun _ => rfl, fun _ => rfl, fun _ => rfl⟩
  have hlock' : (s.buffers bh).bLock = false := hlock
  refine quietly_get_bind ?_
  dsimp only
  rw [if_neg (by simp [hlock'])]
  let s₁ := s.modHead bh fun h => { h with bLock := true }
  have hs₁ : Quiet s₁ := quiet_modHead hplain hs
  have hcore₁ : s₁.core = s.core.setHead bh fun h => { h with bLock := true } :=
    core_modHead hplain
  have hmap : Prog.Awake .bufmapwait (mapBuffer fuel bh) s₁ fun _ s' => MapStep bh s₁ s' :=
    mapBuffer_awake hfuel hs₁.twoLevel
  simp only [Quietly, Prog.awake_bind, updHead, Prog.awake_modify]
  refine Prog.Awake.mono hmap ?_
  intro _ s₂ hstep
  have hs₂ : Quiet s₂ := hstep.step.quiet hs₁
  have hhead : s₂.core.heads bh =
      { s.core.heads bh with bLock := true } := by
    rw [hstep.step.core_eq, hcore₁]
    simp [Core.setHead]
  have hdata : (s₂.buffers bh).bData ≠ none := by
    refine hstep.data ?_
    have hseg' : (s.buffers bh).bSeg = s.ds := hseg
    simpa [s₁, Buffers.modHead, Buffers.setHead] using hseg'
  have hfields : (s₂.buffers bh).bDev = (s.core.heads bh).bDev ∧
      (s₂.buffers bh).bBlocknr = (s.buffers bh).bBlocknr ∧
      (s₂.buffers bh).bLock = true ∧
      (s₂.buffers bh).bUptodate = (s.core.heads bh).bUptodate ∧
      (s₂.buffers bh).bDirty = (s.core.heads bh).bDirty := by
    simp only [← core_bDev, ← core_bBlocknr, ← core_bLock, ← core_bUptodate,
      ← core_bDirty, hhead, and_self]
  obtain ⟨hdev, hblk, hlock₂, hup, hdirty⟩ := hfields
  have hsubmit : ∀ maxReq, 0 < maxReq →
      Quietly (submit fuel (major (s.core.heads bh).bDev) maxReq rw
        ((s.buffers bh).bBlocknr * 2) bh) s₂
        fun _ c => c = s.core.serve rw bh := by
    intro maxReq hmax
    have hgood₂ : s₂.core.Good (s₂.buffers bh).bDev := by
      rw [hstep.step.core_eq, hcore₁, hdev]
      exact hgood
    have h := submit_quietly rw hfuel hmax hs₂ hlock₂ hdata
      (congrArg major hdev) hgood₂
    rw [hblk, hstep.step.core_eq, hcore₁, Core.serve_locked] at h
    exact h
  simp only [Prog.awake_get]
  cases rw with
  | read =>
      have hinvalid : (s₂.buffers bh).bUptodate = false := hup.trans hneeded
      dsimp only
      rw [if_neg (by simp [hinvalid])]
      exact hsubmit _ (by decide)
  | write =>
      have hneeds : (s₂.buffers bh).bDirty = true := hdirty.trans hneeded
      dsimp only
      rw [if_neg (by simp [hneeds])]
      exact hsubmit _ (by decide)

theorem llRwBlk_quietly (hfuel : 2 ≤ fuel) (hs : Quiet s) (hlock : (s.core.heads bh).bLock = false)
    (hseg : (s.core.heads bh).bSeg = s.core.ds) (hneeded : Needed (s.core.heads bh) rw)
    (hgood : s.core.Good (s.core.heads bh).bDev) :
    Quietly (llRwBlk fuel rw bh) s fun _ c => c = s.core.serve rw bh := by
  refine quietly_get_bind ?_
  dsimp only
  have hpresent : major (s.buffers bh).bDev < maxBlkdev ∧
      s.requestFn (major (s.buffers bh).bDev) ≠ .absent := by
    refine ⟨hgood.1, ?_⟩
    have h : s.requestFn (major (s.buffers bh).bDev) = .polled := hgood.2.1
    simp [h]
  rw [if_pos hpresent]
  exact makeRequest_quietly hfuel hs hlock hseg hneeded hgood

end Serve

end Buffer
end Elks
