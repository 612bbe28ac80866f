import Elks.Lib.Holding
import Elks.Buffer.Requests
import Elks.Buffer.Store

/-!
# Tasks in the block layer (fs/buffer.c, ll_rw_blk.c)

Tasks call the functions of the buffer cache, also while they have buffers
mapped for their own use, and the drivers end requests in their interrupts.
`protocol` says what tasks hold while they sleep, and one lemma for each
function says that it gives back what it took (`GivesBack`).

`getRequest_never_fails` is about all runs: no more than eight requests are
active, `get_request` fails only if all it looks at are active, and so
`make_request` never panics for want of a request.
-/

namespace Elks
namespace Buffer

open Lib
open Function (update update_eq_self update_of_ne update_self)

/-- A call of a task.  The file systems map only buffers that `getblk` has given
out, which are in the kernel's segment, and unmap what they have mapped. -/
inductive BlockCall
  | getblk (dev block : Nat)
  | bread (dev block : Nat)
  | brelse (bh : Bh)
  | markBufferDirty (bh : Bh)
  | markBufferUptodate (bh : Bh)
  | llRwBlk (rw : Rw) (bh : Bh)
  | syncBuffers (dev : Nat) (wait : Bool)
  | sleepOn (w : Wait)
  | wakeUp (w : Wait)
  | andThen (c c' : BlockCall)
  | mapped (bh : Bh) (c : BlockCall)

namespace BlockCall

/-- How many buffers the call has mapped at once. -/
def depth : BlockCall → Nat
  | getblk _ _ => 1
  | bread _ _ => 1
  | brelse _ => 0
  | markBufferDirty _ => 0
  | markBufferUptodate _ => 0
  | llRwBlk _ _ => 1
  | syncBuffers _ _ => 1
  | sleepOn _ => 0
  | wakeUp _ => 0
  | andThen c c' => max c.depth c'.depth
  | mapped _ c => c.depth + 1

/-- The code of a call. -/
def code (fuel : Nat) : BlockCall → Code Unit
  | getblk dev block => do
      let _ ← Buffer.getblk fuel dev block
      pure ()
  | bread dev block => do
      let _ ← Buffer.bread fuel dev block
      pure ()
  | brelse bh => Buffer.brelse fuel bh
  | markBufferDirty bh => Buffer.markBufferDirty bh
  | markBufferUptodate bh => Buffer.markBufferUptodate bh
  | llRwBlk rw bh => Buffer.llRwBlk fuel rw bh
  | syncBuffers dev wait => Buffer.syncBuffers fuel dev wait
  | sleepOn w => Prog.sleepOn w
  | wakeUp w => Prog.signal id fun _ => [w]
  | andThen c c' => do
      c.code fuel
      c'.code fuel
  | mapped bh c => do
      let s ← Prog.get
      if (s.buffers bh).bSeg = s.ds then
        mapBuffer fuel bh
        c.code fuel
        unmapBuffer bh
      else
        pure ()

end BlockCall

/-- Tasks that have at most `width` buffers mapped at once, and the interrupts of
the drivers. -/
def blockKernel (fuel width : Nat) :
    Kernel Buffers Wait { c : BlockCall // c.depth ≤ width } (Nat × Bool) where
  code := fun c => c.1.code fuel
  irq := fun i => Buffers.ioInterrupt i.1 i.2
  irqWakes := fun i => Buffers.ioWakes i.1

/-- What interrupts leave alone. -/
structure Undisturbed (b b' : Books) : Prop where
  ds : b'.ds = b.ds
  slots : b'.slots = b.slots
  data : b'.data = b.data
  seg : b'.seg = b.seg
  lock : ∀ bh, b.lock bh = false → b'.lock bh = false
  count : ∀ bh, b.count bh = 0 → b'.count bh = 0

theorem Undisturbed.refl (b : Books) : Undisturbed b b :=
  ⟨rfl, rfl, rfl, rfl, fun _ hb => hb, fun _ hb => hb⟩

theorem Undisturbed.trans {b₁ b₂ b₃ : Books} (h : Undisturbed b₁ b₂) (h' : Undisturbed b₂ b₃) :
    Undisturbed b₁ b₃ where
  ds := h'.ds.trans h.ds
  slots := h'.slots.trans h.slots
  data := h'.data.trans h.data
  seg := h'.seg.trans h.seg
  lock := fun bh hb => h'.lock bh (h.lock bh hb)
  count := fun bh hb => h'.count bh (h.count bh hb)

theorem Undisturbed.finish (b : Books) (m r : Nat) (rest : List Nat) :
    Undisturbed b (b.finish m r rest) where
  ds := rfl
  slots := rfl
  data := rfl
  seg := rfl
  lock := by
    intro bh hb
    change update b.lock (b.about r) false bh = false
    by_cases he : bh = b.about r
    · rw [he, update_self]
    · rwa [update_of_ne he]
  count := by
    intro bh hb
    change (b.unpin (b.about r)).count bh = 0
    rw [Books.unpin_count, hb, Nat.zero_sub]

/-- What `n` tasks may hold of the cache: the books are right, and the only
failure that may not happen is that of `make_request`. -/
def protocol (n width : Nat) : Protocol Buffers (Fin n) Hold where
  inv := fun h s => Booked width h s.books
  rely := fun s s' => Undisturbed s.books s'.books
  allowed := fun f => f ≠ .panic "Can't get request."
  free := ⟨[], .idle⟩

theorem ioInterrupt_books (m : Nat) (uptodate : Bool) (s : Buffers) :
    (s.ioInterrupt m uptodate).books = s.books ∨
      ∃ r rest, s.books.queue m = r :: rest ∧
        (s.ioInterrupt m uptodate).books = s.books.finish m r rest := by
  unfold Buffers.ioInterrupt
  split
  · rename_i r rest _ hq
    refine Or.inr ⟨r, rest, hq, ?_⟩
    split
    · have hq' : (s.transfer (s.allRequests r)).queue m = r :: rest :=
        (congrFun (congrArg Books.queue (books_transfer s _)) m).trans hq
      rw [books_finish true hq', books_transfer]
    · exact books_finish false hq
  · exact Or.inl rfl

section Steady

variable {n width fuel : Nat} {bh : Bh}

theorem steady_books {f : Buffers → Buffers} {wakes : Buffers → List Wait}
    (hf : ∀ s, (f s).books = s.books) :
    (Prog.signal f wakes : Code Unit).Steady (protocol n width) :=
  Prog.steady_act fun h s hs => by
    change Booked width h (f s).books
    rw [hf]
    exact hs

theorem steady_updHead {f : BufferHead → BufferHead} (hf : Minor f) :
    (updHead bh f).Steady (protocol n width) :=
  steady_books fun s => hf.books s bh

theorem steady_incCount : (incCount bh).Steady (protocol n width) :=
  steady_updHead ⟨fun _ => rfl, fun _ => rfl, fun _ => rfl, fun _ => rfl, fun _ => rfl⟩

theorem steady_decCount : (decCount bh).Steady (protocol n width) :=
  steady_updHead ⟨fun _ => rfl, fun _ => rfl, fun _ => rfl, fun _ => rfl, fun _ => rfl⟩

theorem steady_waitUnlocked (k : Nat) : (waitUnlocked bh k).Steady (protocol n width) := by
  induction k with
  | zero => exact Fault.noConfusion
  | succ k ih =>
      refine Prog.steady_bind Prog.steady_get fun s => ?_
      split
      · exact ih
      · trivial

theorem steady_waitOnBuffer : (waitOnBuffer fuel bh).Steady (protocol n width) := by
  refine Prog.steady_bind Prog.steady_get fun s => ?_
  split
  · refine Prog.steady_bind steady_incCount fun _ => ?_
    exact Prog.steady_bind (steady_waitUnlocked fuel) fun _ => steady_decCount
  · trivial

theorem steady_brelse : (brelse fuel bh).Steady (protocol n width) := by
  refine Prog.steady_bind steady_waitOnBuffer fun _ => ?_
  refine Prog.steady_bind Prog.steady_get fun s => ?_
  split
  · intro hc
    exact absurd (Fault.panic.inj hc) (by decide)
  · exact steady_decCount

theorem steady_touchLru : (touchLru bh).Steady (protocol n width) := by
  refine Prog.steady_bind Prog.steady_get fun s => ?_
  split
  · exact steady_books fun s => books_putLastLru s bh
  · trivial

theorem steady_endRequest (m : Nat) (uptodate : Bool) :
    (endRequest m uptodate).Steady (protocol n width) := by
  refine Prog.steady_act fun h s hs => ?_
  change Booked width h (s.endRequest m uptodate).books
  cases hq : s.queue m with
  | nil =>
      have hnone : s.endRequest m uptodate = s := by
        unfold Buffers.endRequest
        rw [hq]
      rw [hnone]
      exact hs
  | cons r rest =>
      rw [books_finish uptodate hq]
      exact Booked.finish hs hq

theorem steady_polledRequest (m : Nat) (k : Nat) :
    (polledRequest m k).Steady (protocol n width) := by
  induction k with
  | zero => exact Fault.noConfusion
  | succ k ih =>
      refine Prog.steady_bind Prog.steady_get fun s => ?_
      split
      · trivial
      · dsimp only
        split
        · intro hc
          exact absurd (Fault.panic.inj hc) (by decide)
        · split
          · intro hc
            exact absurd (Fault.panic.inj hc) (by decide)
          · split
            · exact Prog.steady_bind (steady_endRequest m false) fun _ => ih
            · refine Prog.steady_bind (steady_books fun s => books_transfer s _) fun _ => ?_
              exact Prog.steady_bind (steady_endRequest m true) fun _ => ih

theorem steady_requestFn (m : Nat) : (requestFn fuel m).Steady (protocol n width) := by
  refine Prog.steady_bind Prog.steady_get fun s => ?_
  split
  · exact steady_polledRequest m fuel
  · trivial
  · exact Fault.noConfusion

end Steady

/-- The program gives back what it takes: the task holds the same mappings
after it, and nothing else. -/
def GivesBack {α : Type} (n width : Nat) (l : List Bh) (p : Code α) : Prop :=
  ∀ (t : Fin n) h s, h t = ⟨l, .idle⟩ → Booked width h s.books →
    p.holds (protocol n width) t
      (fun _ h' s' => h' t = ⟨l, .idle⟩ ∧ Booked width h' s'.books) h s

section GivesBack

variable {α β : Type} {n width : Nat} {l : List Bh}

theorem givesBack_steady {p : Code α} (hp : p.Steady (protocol n width)) :
    GivesBack n width l p := fun _ _ _ hheld hs =>
  hp.holds hs fun _ _ _ hsame hs' => ⟨hsame.trans hheld, hs'⟩

theorem givesBack_pure (a : α) : GivesBack n width l (pure a : Code α) :=
  givesBack_steady (p := .ret a) trivial

theorem givesBack_bind {p : Code α} {k : α → Code β} (hp : GivesBack n width l p)
    (hk : ∀ a, GivesBack n width l (k a)) : GivesBack n width l (p >>= k) := by
  intro t h s hheld hs
  refine Prog.holds_bind p h s ?_
  refine Prog.holds_mono ?_ p h s (hp t h s hheld hs)
  rintro a h' s' ⟨hheld', hs'⟩
  exact hk a t h' s' hheld' hs'

theorem givesBack_get {k : Buffers → Code α} (hk : ∀ s, GivesBack n width l (k s)) :
    GivesBack n width l (Prog.get >>= k) :=
  givesBack_bind (givesBack_steady Prog.steady_get) hk

end GivesBack

section Transfers

variable {n width fuel : Nat} {t : Fin n} {h : Fin n → Hold} {s : Buffers} {bh : Bh} {l : List Bh}

theorem holds_mapLoop (hfit : n * width + 1 < 2 ^ 16) {g g' : Hold} (hgain : Hold.Gains bh g g')
    (hwidth : g'.maps.length ≤ width) (k : Nat) :
    ∀ h s, h t = g → Booked width h s.books →
      (mapLoop bh k).holds (protocol n width) t
        (fun _ h' s' => h' t = g' ∧ Booked width h' s'.books) h s := by
  induction k with
  | zero =>
      intro h s _ _
      exact Fault.noConfusion
  | succ k ih =>
      intro h s hheld hs
      rw [mapLoop]
      refine Prog.holds_get hs fun s₁ hrely hs₁ => ?_
      cases hfree : s.freeSlot with
      | some i =>
          have hi : s₁.books.slots i = none := by
            rw [hrely.slots]
            exact freeSlot_spec hfree
          have hgain' : Hold.Gains bh (h t) g' := by
            rwa [hheld]
          refine Prog.holds_signal g' ?_ fun s₂ hs₂ => ⟨update_self _ _ _, hs₂⟩
          change Booked width _ (s₁.mapHere bh i).books
          rw [books_bring (hs₁.room hfit hgain' hwidth)]
          refine hs₁.gain hgain' hwidth fun b hb => ?_
          by_cases he : b = bh
          · exact ⟨i, by rw [he, update_self]⟩
          · rw [update_of_ne he] at hb
            obtain ⟨j, hj⟩ := hs₁.slot b (hb.resolve_left he)
            have hji : j ≠ i := by
              rintro rfl
              rw [hi] at hj
              cases hj
            exact ⟨j, by rwa [update_of_ne hji]⟩
      | none =>
          cases hvictim : s.victim with
          | some i =>
              obtain ⟨v, hi, hunused⟩ := victim_spec hvictim
              have hi₁ : s₁.bufmemMap i = some v :=
                (congrFun hrely.slots i).trans hi
              refine Prog.holds_bind _ _ _ (Prog.holds_act ?_ fun s₂ _ hs₂ => ih h s₂ hheld hs₂)
              change Booked width _ (s₁.unmapSlot i).books
              rw [books_evict hi₁]
              exact hs₁.evict hi₁ (hrely.count v hunused)
          | none =>
              intro h' s' hsame hs'
              exact ih h' s' (hsame.trans hheld) hs'

theorem holds_mapBuffer (hfit : n * width + 1 < 2 ^ 16) {g g' : Hold} (hgain : Hold.Gains bh g g')
    (hwidth : g'.maps.length ≤ width) (hheld : h t = g) (hs : Booked width h s.books)
    (hseg : s.books.seg bh = s.books.ds) :
    (mapBuffer fuel bh).holds (protocol n width) t
      (fun _ h' s' => h' t = g' ∧ Booked width h' s'.books) h s := by
  refine Prog.holds_get hs fun s₁ hrely hs₁ => ?_
  split
  · rename_i hmapped
    have hdata : s₁.books.data bh ≠ none := by
      rw [hrely.data]
      exact hmapped.resolve_right fun hne => hne hseg
    have hgain' : Hold.Gains bh (h t) g' := by
      rwa [hheld]
    refine Prog.holds_signal g' ?_ fun s₂ hs₂ => ⟨update_self _ _ _, hs₂⟩
    change Booked width _ (s₁.modHead bh fun h =>
      { h with bMapcount := wrap 16 (h.bMapcount + 1) }).books
    rw [books_pin (hs₁.room hfit hgain' hwidth)]
    refine hs₁.gain hgain' hwidth fun b hb => ?_
    rcases hb with rfl | hold
    · exact hs₁.slot b (Or.inr hdata)
    · exact hs₁.slot b hold
  · exact holds_mapLoop hfit hgain hwidth fuel h s₁ hheld hs₁

theorem holds_addRequest {r : Nat} (hheld : h t = ⟨l, .filled bh r⟩) (hs : Booked width h s.books)
    (m : Nat) :
    (addRequest fuel m r).holds (protocol n width) t
      (fun _ h' s' => h' t = ⟨l, .idle⟩ ∧ Booked width h' s'.books) h s := by
  obtain ⟨q, hq, hbooks⟩ := books_enqueue s m r
  refine Prog.holds_atomically ⟨l, .idle⟩ ?_ fun s₁ _ hs₁ => ?_
  · change Booked width _ (s.enqueue m r).2.books
    rw [hbooks]
    exact hs.line hheld hq
  · have hheld₁ : update h t ⟨l, .idle⟩ t = ⟨l, .idle⟩ := update_self _ _ _
    split
    · exact givesBack_steady (steady_requestFn m) t _ s₁ hheld₁ hs₁
    · exact ⟨hheld₁, hs₁⟩

theorem Booked.free_request (hs : Booked width h s.books) {k : Nat} (hk : nrMapbufs < k) :
    ∃ r, r < k ∧ (s.allRequests r).rqActive = false := by
  by_contra hnone
  push Not at hnone
  have hall : ((Finset.range k).filter fun r => s.books.active r = true) = Finset.range k := by
    refine Finset.filter_true_of_mem fun r hr => ?_
    exact eq_true_of_ne_false (hnone r (Finset.mem_range.mp hr))
  have hle := hs.active_le k
  rw [hall, Finset.card_range] at hle
  omega

theorem Booked.getRequest (hs : Booked width h s.books) {k : Nat} (hk : nrMapbufs < k) (dev : Nat) :
    ∃ r, r < k ∧ (s.allRequests r).rqActive = false ∧
      s.getRequest k dev =
        (some r,
          { s with
            prevLimit := k
            prevFound := r
            allRequests := update s.allRequests r
              { s.allRequests r with rqActive := true, rqDev := dev } }) := by
  rcases getRequest_cases hs.found (Nat.zero_lt_of_lt hk) dev with hsome | ⟨-, hall⟩
  · exact hsome
  · obtain ⟨r, hr, hfree⟩ := hs.free_request hk
    rw [hall r hr] at hfree
    cases hfree

theorem holds_submit {maxReq : Nat} (hmax : nrMapbufs < maxReq) (hle : maxReq ≤ nrRequest)
    (hheld : h t = ⟨l, .mapped bh⟩) (hs : Booked width h s.books) (m : Nat) (rw : Rw)
    (sector : Nat) :
    (submit fuel m maxReq rw sector bh).holds (protocol n width) t
      (fun _ h' s' => h' t = ⟨l, .idle⟩ ∧ Booked width h' s'.books) h s := by
  obtain ⟨r, hr, hfree, hget⟩ := hs.getRequest hmax (s.buffers bh).bDev
  refine Prog.holds_atomically ⟨l, .claimed bh r⟩ ?_ fun s₁ _ hs₁ => ?_
  · change Booked width _ (s.getRequest maxReq (s.buffers bh).bDev).2.books
    rw [hget, books_claim]
    exact hs.claim hheld (Nat.lt_of_lt_of_le hr hle) hfree hr
  · rw [hget]
    have hheld₁ : update h t ⟨l, .claimed bh r⟩ t = ⟨l, .claimed bh r⟩ :=
      update_self _ _ _
    refine Prog.holds_modify ⟨l, .filled bh r⟩ ?_ fun s₂ _ hs₂ => ?_
    · change Booked width _ (s₁.fillRequest r rw sector bh).books
      rw [books_fill]
      exact hs₁.fill hheld₁
    · exact holds_addRequest (update_self _ _ _) hs₂ m

theorem holds_unlockBuffer (hheld : h t = ⟨l, .mapped bh⟩) (hs : Booked width h s.books) :
    (unlockBuffer bh).holds (protocol n width) t
      (fun _ h' s' => h' t = ⟨l, .idle⟩ ∧ Booked width h' s'.books) h s := by
  refine Prog.holds_signal ⟨l, .idle⟩ ?_ fun s₁ hs₁ => ⟨update_self _ _ _, hs₁⟩
  change Booked width _ (s.unlockBuffer bh).books
  rw [books_dropLock]
  exact hs.dropLock hheld

theorem holds_makeRequest (hfit : n * width + 1 < 2 ^ 16) (hwidth : l.length < width)
    (hheld : h t = ⟨l, .idle⟩) (hs : Booked width h s.books) (hseg : s.books.seg bh = s.books.ds)
    (m : Nat) (rw : Rw) :
    (makeRequest fuel m rw bh).holds (protocol n width) t
      (fun _ h' s' => h' t = ⟨l, .idle⟩ ∧ Booked width h' s'.books) h s := by
  refine Prog.holds_get hs fun s₁ hrely₁ hs₁ => ?_
  split
  · exact ⟨hheld, hs₁⟩
  · rename_i hlock
    have hfree : s₁.books.lock bh = false := hrely₁.lock bh (eq_false_of_ne_true hlock)
    refine Prog.holds_modify ⟨l, .locked bh⟩ ?_ fun s₂ hrely₂ hs₂ => ?_
    · change Booked width _ (s₁.modHead bh fun h => { h with bLock := true }).books
      rw [books_takeLock]
      exact hs₁.takeLock hheld hfree
    · have hlocked : Undisturbed (s₁.books.takeLock bh) s₂.books := by
        rw [← books_takeLock]
        exact hrely₂
      have hseg₂ : s₂.books.seg bh = s₂.books.ds := by
        rw [hlocked.seg, hlocked.ds]
        exact (congrFun hrely₁.seg bh).trans (hseg.trans hrely₁.ds.symm)
      refine Prog.holds_bind (mapBuffer fuel bh) _ _ (Prog.holds_mono ?_ _ _ _
        (holds_mapBuffer hfit (Hold.gains_locked bh l) hwidth (update_self _ _ _) hs₂
          hseg₂))
      rintro - h₃ s₃ ⟨hheld₃, hs₃⟩
      refine Prog.holds_get hs₃ fun s₄ _ hs₄ => ?_
      cases rw with
      | read =>
          dsimp only
          split
          · exact holds_unlockBuffer hheld₃ hs₄
          · exact holds_submit (by decide) (by decide) hheld₃ hs₄ m .read _
      | write =>
          dsimp only
          split
          · exact holds_unlockBuffer hheld₃ hs₄
          · exact holds_submit (by decide) (by decide) hheld₃ hs₄ m .write _

theorem givesBack_llRwBlk (hfit : n * width + 1 < 2 ^ 16) (hwidth : l.length < width) (rw : Rw)
    (bh : Bh) : GivesBack n width l (llRwBlk fuel rw bh) := by
  intro t h s hheld hs
  refine Prog.holds_get hs fun s₁ hrely hs₁ => ?_
  dsimp only
  split
  · rename_i hdriver
    have hseg : s₁.books.seg bh = s₁.books.ds := by
      rw [hrely.seg, hrely.ds]
      by_contra hne
      have hdev : (s.buffers bh).bDev = 0 := hs.seg bh hne
      rw [hdev] at hdriver
      exact hdriver.2 hs.absent
    exact holds_makeRequest hfit hwidth hheld hs₁ hseg _ rw
  · have hminor : Minor fun h => { h with bDirty := false, bUptodate := false } :=
      ⟨fun _ => rfl, fun _ => rfl, fun _ => rfl, fun _ => rfl, fun _ => rfl⟩
    exact givesBack_steady (steady_updHead hminor) t h s₁ hheld hs₁

theorem givesBack_seqAll {ps : List (Code Unit)} (hps : ∀ p ∈ ps, GivesBack n width l p) :
    GivesBack n width l (Prog.seqAll ps) := by
  induction ps with
  | nil => exact givesBack_pure ()
  | cons p ps ih =>
      refine givesBack_bind (hps p List.mem_cons_self) fun _ => ih fun q hq => ?_
      exact hps q (List.mem_cons_of_mem p hq)

theorem givesBack_syncBuffers (hfit : n * width + 1 < 2 ^ 16) (hwidth : l.length < width)
    (dev : Nat) (wait : Bool) : GivesBack n width l (syncBuffers fuel dev wait) := by
  refine givesBack_seqAll fun p hp => ?_
  obtain ⟨bh, -, rfl⟩ := List.mem_map.mp hp
  refine givesBack_get fun s => ?_
  split
  · exact givesBack_pure ()
  · split
    · exact givesBack_pure ()
    · split
      · exact givesBack_pure ()
      · refine givesBack_bind (givesBack_steady steady_waitOnBuffer) fun _ => ?_
        refine givesBack_bind (givesBack_steady steady_incCount) fun _ => ?_
        refine givesBack_bind (givesBack_llRwBlk hfit hwidth .write bh) fun _ => ?_
        exact givesBack_steady steady_decCount

theorem holds_getFreeBuffer (hfit : n * width + 1 < 2 ^ 16) (hwidth : l.length < width) (k : Nat) :
    ∀ h s, h t = ⟨l, .idle⟩ → Booked width h s.books →
      (getFreeBuffer fuel k).holds (protocol n width) t
        (fun bh h' s' => h' t = ⟨l, .idle⟩ ∧ Booked width h' s'.books ∧
          s'.books.lock bh = false) h s := by
  induction k with
  | zero =>
      intro h s _ _
      exact Fault.noConfusion
  | succ k ih =>
      intro h s hheld hs
      rw [getFreeBuffer]
      have hsame : update h t ⟨l, .idle⟩ = h := by
        rw [← hheld, update_eq_self]
      refine Prog.holds_atomically ⟨l, .idle⟩ ?_ ?_
      · rw [hsame]
        change Booked width h s.takeFree.2.books
        unfold Buffers.takeFree
        split
        · rw [books_putLastLru]
          exact hs
        · exact hs
      · rw [hsame]
        intro s₁ hrely hs₁
        unfold Buffers.takeFree at hrely ⊢
        cases hfind : s.lru.find? s.free with
        | some bh =>
            rw [hfind] at hrely
            have hfree : (s.buffers bh).bLock = false := by
              have hbh := List.find?_some hfind
              simp only [Buffers.free, decide_eq_true_eq] at hbh
              simpa using hbh.2.2.1
            refine ⟨hheld, hs₁, hrely.lock bh ?_⟩
            change (s.putLastLru bh).books.lock bh = false
            rw [books_putLastLru]
            exact hfree
        | none =>
            refine Prog.holds_bind (syncBuffers fuel 0 false) h s₁ ?_
            refine Prog.holds_mono ?_ _ h s₁
              (givesBack_syncBuffers hfit hwidth 0 false t h s₁ hheld hs₁)
            rintro - h' s' ⟨hheld', hs'⟩
            exact ih h' s' hheld' hs'

theorem givesBack_getHashTable (dev block : Nat) (k : Nat) :
    GivesBack n width l (getHashTable fuel dev block k) := by
  induction k with
  | zero => exact givesBack_steady Fault.noConfusion
  | succ k ih =>
      refine givesBack_get fun s => ?_
      split
      · exact givesBack_pure none
      · refine givesBack_bind (givesBack_steady steady_incCount) fun _ => ?_
        refine givesBack_bind (givesBack_steady steady_waitOnBuffer) fun _ => ?_
        refine givesBack_get fun s' => ?_
        split
        · exact givesBack_pure _
        · exact givesBack_bind (givesBack_steady steady_decCount) fun _ => ih

theorem givesBack_lookup (dev block : Nat) (k : Nat) :
    GivesBack n width l (lookup fuel dev block k) := by
  induction k with
  | zero => exact givesBack_steady Fault.noConfusion
  | succ k ih =>
      refine givesBack_bind (givesBack_getHashTable dev block fuel) fun found => ?_
      cases found with
      | some bh =>
          exact givesBack_bind (givesBack_steady steady_touchLru) fun _ => givesBack_pure _
      | none =>
          refine givesBack_get fun s => ?_
          split
          · exact givesBack_pure none
          · exact ih

theorem givesBack_getblk (hfit : n * width + 1 < 2 ^ 16) (hwidth : l.length < width)
    (dev block : Nat) : GivesBack n width l (getblk fuel dev block) := by
  refine givesBack_bind (givesBack_lookup dev block fuel) fun found => ?_
  cases found with
  | some bh => exact givesBack_pure bh
  | none =>
      intro t h s hheld hs
      refine Prog.holds_bind (getFreeBuffer fuel fuel) h s ?_
      refine Prog.holds_mono ?_ _ h s (holds_getFreeBuffer hfit hwidth fuel h s hheld hs)
      rintro bh h₁ s₁ ⟨hheld₁, hs₁, hlock⟩
      refine Prog.holds_act ?_ fun s₂ _ hs₂ => ⟨hheld₁, hs₂⟩
      change Booked width h₁ (s₁.tagHead bh dev block).books
      rw [books_tag]
      exact hs₁.tag hlock dev

theorem givesBack_bread (hfit : n * width + 1 < 2 ^ 16) (hwidth : l.length < width)
    (dev block : Nat) : GivesBack n width l (bread fuel dev block) := by
  refine givesBack_bind (givesBack_getblk hfit hwidth dev block) fun bh => ?_
  refine givesBack_get fun s => ?_
  split
  · exact givesBack_pure _
  · refine givesBack_bind (givesBack_llRwBlk hfit hwidth .read bh) fun _ => ?_
    refine givesBack_bind (givesBack_steady steady_waitOnBuffer) fun _ => ?_
    refine givesBack_get fun s' => ?_
    split
    · exact givesBack_pure _
    · exact givesBack_bind (givesBack_steady steady_brelse) fun _ => givesBack_pure none

theorem givesBack_code (hfit : n * width + 1 < 2 ^ 16) (c : BlockCall) :
    ∀ l, l.length + c.depth ≤ width → GivesBack n width l (c.code fuel) := by
  induction c with
  | getblk dev block =>
      intro l hwidth
      exact givesBack_bind (givesBack_getblk hfit hwidth dev block) fun _ => givesBack_pure ()
  | bread dev block =>
      intro l hwidth
      exact givesBack_bind (givesBack_bread hfit hwidth dev block) fun _ => givesBack_pure ()
  | brelse bh =>
      intro l _
      exact givesBack_steady steady_brelse
  | markBufferDirty bh =>
      intro l _
      exact givesBack_steady (steady_updHead
        ⟨fun _ => rfl, fun _ => rfl, fun _ => rfl, fun _ => rfl, fun _ => rfl⟩)
  | markBufferUptodate bh =>
      intro l _
      exact givesBack_steady (steady_updHead
        ⟨fun _ => rfl, fun _ => rfl, fun _ => rfl, fun _ => rfl, fun _ => rfl⟩)
  | llRwBlk rw bh =>
      intro l hwidth
      exact givesBack_llRwBlk hfit hwidth rw bh
  | syncBuffers dev wait =>
      intro l hwidth
      exact givesBack_syncBuffers hfit hwidth dev wait
  | sleepOn w =>
      intro l _
      exact givesBack_steady trivial
  | wakeUp w =>
      intro l _
      exact givesBack_steady (steady_books fun _ => rfl)
  | andThen c c' ih ih' =>
      intro l hwidth
      have hle := Nat.le_max_left c.depth c'.depth
      have hle' := Nat.le_max_right c.depth c'.depth
      simp only [BlockCall.depth] at hwidth
      exact givesBack_bind (ih l (by omega)) fun _ => ih' l (by omega)
  | mapped bh c ih =>
      intro l hwidth t h s hheld hs
      simp only [BlockCall.depth] at hwidth
      have hwidth' : (bh :: l).length + c.depth ≤ width := by
        rw [List.length_cons]
        omega
      refine Prog.holds_get hs fun s₁ hrely hs₁ => ?_
      split
      · rename_i hseg
        have hseg₁ : s₁.books.seg bh = s₁.books.ds := by
          rw [hrely.seg, hrely.ds]
          exact hseg
        refine Prog.holds_bind (mapBuffer fuel bh) h s₁ (Prog.holds_mono ?_ _ h s₁
          (holds_mapBuffer hfit (Hold.gains_pin bh l) (Nat.le_of_add_right_le hwidth') hheld hs₁
            hseg₁))
        rintro - h₂ s₂ ⟨hheld₂, hs₂⟩
        refine Prog.holds_bind (c.code fuel) h₂ s₂ (Prog.holds_mono ?_ _ h₂ s₂
          (ih (bh :: l) hwidth' t h₂ s₂ hheld₂ hs₂))
        rintro - h₃ s₃ ⟨hheld₃, hs₃⟩
        refine Prog.holds_signal ⟨l, .idle⟩ ?_ fun s₄ hs₄ => ⟨update_self _ _ _, hs₄⟩
        change Booked width _ (s₃.unmapBuffer bh).books
        rw [books_unpin]
        exact hs₃.unpin hheld₃
      · exact ⟨hheld, hs₁⟩

end Transfers

section Runs

variable {n width : Nat}

theorem blockKernel_honours (hfit : n * width + 1 < 2 ^ 16) (fuel : Nat) :
    (blockKernel fuel width).Honours (protocol n width) where
  rely_refl := fun s => Undisturbed.refl s.books
  rely_trans := fun _ _ _ h h' => Undisturbed.trans h h'
  irq := by
    rintro ⟨m, uptodate⟩ h s hs
    change Booked width h (s.ioInterrupt m uptodate).books ∧
      Undisturbed s.books (s.ioInterrupt m uptodate).books
    rcases ioInterrupt_books m uptodate s with hsame | ⟨r, rest, hq, hfinish⟩
    · rw [hsame]
      exact ⟨hs, Undisturbed.refl s.books⟩
    · rw [hfinish]
      exact ⟨Booked.finish hs hq, Undisturbed.finish s.books m r rest⟩
  code := by
    intro c t h s hheld hs
    have hdepth : ([] : List Bh).length + c.1.depth ≤ width := by
      simpa using c.2
    refine Prog.holds_mono ?_ (c.1.code fuel) h s
      (givesBack_code hfit c.1 [] hdepth t h s hheld hs)
    rintro - h' s' ⟨hheld', -⟩
    exact hheld'

theorem bufferInit_booked (hw : Hardware) (hunnamed : hw.requestFn 0 = .absent) :
    Booked width (fun _ : Fin n => ⟨[], .idle⟩) (bufferInit hw).books where
  absent := hunnamed
  seg := fun _ _ => rfl
  slot := by
    rintro bh (hpos | hdata)
    · exact absurd hpos (Nat.lt_irrefl 0)
    · exact absurd rfl hdata
  counted := by
    rintro bh ⟨m, r, hr, -⟩
    cases hr
  uncounted := by
    intro bh _
    exact (Finset.sum_eq_zero fun t _ => rfl).symm
  queued := by
    intro m r hr
    cases hr
  apart := by
    intro m m' r r' hr
    cases hr
  nodup := fun _ => List.nodup_nil
  narrow := fun _ => Nat.zero_le _
  locks := by
    intro t bh ht
    cases ht
  locksApart := by
    intro t t' bh ht
    cases ht
  claims := by
    intro t r ht
    cases ht
  claimsApart := by
    intro t t' r ht
    cases ht
  filled := by
    intro t bh r ht
    cases ht
  active := by
    intro r hr
    cases hr
  found := Or.inl rfl

/-- **Requests never run out.**  Let any number of tasks call the block layer,
with at most `width` buffers mapped each, and the drivers end requests, in any
order.  No more than `NR_MAPBUFS` requests are ever active.  Wherever the two
pointers of `get_request` have been left, it fails only if all the requests it
may give are active; so it does not fail, and `make_request` does not panic.

`b_mapcount` has sixteen bits, which `hfit` leaves room in, and no driver has the
major number `UNNAMED_MAJOR`. -/
theorem getRequest_never_fails
    (hfit : n * width + 1 < 2 ^ 16)
    (hw : Hardware)
    (hunnamed : hw.requestFn 0 = .absent)
    (fuel : Nat)
    (ms : List (Move { c : BlockCall // c.depth ≤ width } (Nat × Bool) (Fin n)))
    (S : Sys Buffers Wait { c : BlockCall // c.depth ≤ width } (Fin n))
    (hrun : (Sys.start (bufferInit hw)).runs (blockKernel fuel width) ms = some S) :
    ((Finset.range nrRequest).filter fun r => (S.st.allRequests r).rqActive).card ≤ nrMapbufs ∧
      (∀ k, k = nrRequest ∨ k = nrRequest * 2 / 3 → ∀ dev,
        (∀ table, ({ S.st with allRequests := table }.getRequest k dev).1 = none →
          ∀ r, r < k → (table r).rqActive = true) ∧
        (S.st.getRequest k dev).1 ≠ none) ∧
      ∀ r, S.cur = some r → r.rest ≠ .fault (.panic "Can't get request.") := by
  have hK := blockKernel_honours (n := n) hfit fuel
  obtain ⟨h, hS⟩ := Kernel.honoured hK ms _ _
    (Sys.held_start (P := protocol n width) (bufferInit_booked hw hunnamed)) S hrun
  have hs : Booked width h S.st.books := hS.inv
  refine ⟨hs.active_le nrRequest, fun k hk dev => ⟨fun table hnone r hr => ?_, ?_⟩, ?_⟩
  · have hpos : 0 < k := Nat.zero_lt_of_lt hr
    have hsearched : { S.st with allRequests := table : Buffers }.Searched := hs.found
    rcases getRequest_cases hsearched hpos dev with ⟨r', -, -, hget⟩ | ⟨-, hall⟩
    · rw [hget] at hnone
      cases hnone
    · exact hall r hr
  · have hmax : nrMapbufs < k := by
      rcases hk with rfl | rfl <;> decide
    obtain ⟨r, -, -, hget⟩ := hs.getRequest hmax dev
    rw [hget]
    exact Option.some_ne_none r
  · intro r hr hfault
    exact hS.fault hK hr hfault rfl

/-- Disks that end their requests in interrupts. -/
def interruptDisks : Hardware :=
  { blankHardware .interrupt with
    requestFn := fun m => if m = 0 then .absent else .interrupt }

/-- Two of the fifteen tasks read a block each, and wait for it. -/
def twoReads (t t' : Fin 15) :
    List (Move { c : BlockCall // c.depth ≤ 1 } (Nat × Bool) (Fin 15)) :=
  Move.enters t ⟨.bread 0x300 5, le_rfl⟩ 20 ++ Move.enters t' ⟨.bread 0x300 7, le_rfl⟩ 19

/-- Two requests are active then. -/
theorem getRequest_never_fails_twoReads :
    ∃ S, (Sys.start (bufferInit interruptDisks)).runs (blockKernel 3 1) (twoReads 0 1) = some S ∧
      ((Finset.range nrRequest).filter fun r => (S.st.allRequests r).rqActive).card = 2 ∧
      (((Finset.range nrRequest).filter fun r =>
          (S.st.allRequests r).rqActive).card ≤ nrMapbufs ∧
        (∀ k, k = nrRequest ∨ k = nrRequest * 2 / 3 → ∀ dev,
          (∀ table, ({ S.st with allRequests := table }.getRequest k dev).1 = none →
            ∀ r, r < k → (table r).rqActive = true) ∧
          (S.st.getRequest k dev).1 ≠ none) ∧
        ∀ r, S.cur = some r → r.rest ≠ .fault (.panic "Can't get request.")) := by
  have hrun : ((Sys.start (bufferInit interruptDisks)).runs (blockKernel 3 1) (twoReads 0 1)).any
      (fun S => ((Finset.range nrRequest).filter fun r =>
        (S.st.allRequests r).rqActive).card = 2) = true := by
    decide +kernel
  obtain ⟨S, hS, hcard⟩ := (Option.any_eq_true _ _).mp hrun
  refine ⟨S, hS, by simpa using hcard, ?_⟩
  exact getRequest_never_fails (by decide) interruptDisks rfl 3 (twoReads 0 1) S hS

end Runs

end Buffer
end Elks
