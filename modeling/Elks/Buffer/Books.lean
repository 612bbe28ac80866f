import Elks.Buffer.Cache
import Mathlib.Algebra.BigOperators.Fin
import Mathlib.Algebra.Order.BigOperators.Group.Finset

/-!
# The books of the block layer (fs/buffer.c, ll_rw_blk.c, blk.h)

A request is made for a buffer that the task has locked and mapped, and its end
unlocks and unmaps the buffer.  `Booked` says of any state what that comes to:
each active request is about a buffer of its own, that buffer is locked and has
a mapping for the request, and a buffer with a mapping is in one of the blocks of
L1.  What a task holds while it sleeps in `map_buffer`, and between taking a
request and queueing it, is written down as `Hold`.

* `Books` are the parts of the state that this is about.
* One lemma for each action says that `Booked` is kept.
* `Booked.active_le`: no more requests are active than L1 has blocks.
-/

namespace Elks
namespace Buffer

open Lib
open Function (update update_eq_self update_of_ne update_self)

/-- How far a task is in `make_request`: it has locked its buffer, also mapped
it, taken a request for it, and filled in the request. -/
inductive Work
  | idle
  | locked (bh : Bh)
  | mapped (bh : Bh)
  | claimed (bh : Bh) (r : Nat)
  | filled (bh : Bh) (r : Nat)

namespace Work

/-- The buffer whose `b_lock` the task has set. -/
def lock : Work → Option Bh
  | idle => none
  | locked bh => some bh
  | mapped bh => some bh
  | claimed bh _ => some bh
  | filled bh _ => some bh

/-- The buffer the task has mapped. -/
def map : Work → Option Bh
  | mapped bh => some bh
  | claimed bh _ => some bh
  | filled bh _ => some bh
  | _ => none

/-- The request the task has taken and not queued yet. -/
def req : Work → Option Nat
  | claimed _ r => some r
  | filled _ r => some r
  | _ => none

end Work

/-- What a task holds of the block layer: the buffers it has mapped for its own
use, the last one first, and what `make_request` has of it. -/
structure Hold where
  pins : List Bh
  work : Work

/-- The mappings a task holds. -/
def Hold.maps (g : Hold) : List Bh :=
  g.work.map.toList ++ g.pins

/-- The task with `g` that maps a buffer then has `g'`. -/
structure Hold.Gains (bh : Bh) (g g' : Hold) : Prop where
  maps : g'.maps = bh :: g.maps
  lock : g'.work.lock = g.work.lock
  req : g'.work.req = g.work.req
  none : g'.work.req = none

theorem Hold.gains_locked (bh : Bh) (l : List Bh) :
    Hold.Gains bh ⟨l, .locked bh⟩ ⟨l, .mapped bh⟩ :=
  ⟨rfl, rfl, rfl, rfl⟩

theorem Hold.gains_pin (bh : Bh) (l : List Bh) :
    Hold.Gains bh ⟨l, .idle⟩ ⟨bh :: l, .idle⟩ :=
  ⟨rfl, rfl, rfl, rfl⟩

theorem Work.of_req {k : Work} {r : Nat} (hr : k.req = some r) :
    ∃ bh, k.lock = some bh ∧ k.map = some bh := by
  cases k with
  | idle => cases hr
  | locked bh => cases hr
  | mapped bh => cases hr
  | claimed bh r' => exact ⟨bh, rfl, rfl⟩
  | filled bh r' => exact ⟨bh, rfl, rfl⟩

/-- What the block layer keeps books on: the heads, the map of L1, the drivers
and the requests. -/
@[ext] structure Books where
  lock : Bh → Bool
  count : Bh → Nat
  data : Bh → Option Slot
  seg : Bh → Nat
  dev : Bh → Nat
  slots : Slot → Option Bh
  ds : Nat
  driver : Nat → Driver
  about : Nat → Bh
  active : Nat → Bool
  queue : Nat → List Nat
  limit : Nat
  found : Nat

/-- The books of a state. -/
def Buffers.books (s : Buffers) : Books where
  lock := fun bh => (s.buffers bh).bLock
  count := fun bh => (s.buffers bh).bMapcount
  data := fun bh => (s.buffers bh).bData
  seg := fun bh => (s.buffers bh).bSeg
  dev := fun bh => (s.buffers bh).bDev
  slots := s.bufmemMap
  ds := s.ds
  driver := s.requestFn
  about := fun r => (s.allRequests r).rqBh
  active := fun r => (s.allRequests r).rqActive
  queue := s.queue
  limit := s.prevLimit
  found := s.prevFound

/-- A request in a queue is about the buffer. -/
def Books.Queued (b : Books) (bh : Bh) : Prop :=
  ∃ m r, r ∈ b.queue m ∧ b.about r = bh

/-- The number of mappings of a buffer that tasks hold. -/
def mapsOf {n : Nat} (h : Fin n → Hold) (bh : Bh) : Nat :=
  ∑ t, (h t).maps.count bh

/-- The books agree with what the tasks hold, which is at most `width` mappings
each. -/
structure Booked {n : Nat} (width : Nat) (h : Fin n → Hold) (b : Books) : Prop where
  absent : b.driver 0 = .absent
  seg : ∀ bh, b.seg bh ≠ b.ds → b.dev bh = 0
  slot : ∀ bh, 0 < b.count bh ∨ b.data bh ≠ none → ∃ i, b.slots i = some bh
  counted : ∀ bh, b.Queued bh → b.count bh = mapsOf h bh + 1
  uncounted : ∀ bh, ¬ b.Queued bh → b.count bh = mapsOf h bh
  queued : ∀ m r, r ∈ b.queue m → r < nrRequest ∧ b.active r = true ∧ b.lock (b.about r) = true
  apart : ∀ m m' r r', r ∈ b.queue m → r' ∈ b.queue m' → b.about r = b.about r' →
    m = m' ∧ r = r'
  nodup : ∀ m, (b.queue m).Nodup
  narrow : ∀ t, (h t).maps.length ≤ width
  locks : ∀ t bh, (h t).work.lock = some bh → b.lock bh = true ∧ ¬ b.Queued bh
  locksApart : ∀ t t' bh, (h t).work.lock = some bh → (h t').work.lock = some bh → t = t'
  claims : ∀ t r, (h t).work.req = some r →
    r < nrRequest ∧ b.active r = true ∧ ∀ m, r ∉ b.queue m
  claimsApart : ∀ t t' r, (h t).work.req = some r → (h t').work.req = some r → t = t'
  filled : ∀ t bh r, (h t).work = .filled bh r → b.about r = bh
  active : ∀ r, b.active r = true → (∃ m, r ∈ b.queue m) ∨ ∃ t, (h t).work.req = some r
  found : b.limit = 0 ∨ b.found < b.limit

section Holds

variable {n : Nat} {h : Fin n → Hold} {t : Fin n} {g : Hold} {bh : Bh} {α : Type}

theorem forall_held {C : Fin n → Hold → Prop} (hself : C t g)
    (hother : ∀ t', t' ≠ t → C t' (h t')) :
    ∀ t', C t' (update h t g t') :=
  (Function.forall_update_iff h C).mpr ⟨hself, hother⟩

theorem update_same {f : Hold → α} (hsame : f g = f (h t)) (t' : Fin n) :
    f (update h t g t') = f (h t') := by
  by_cases ht : t' = t
  · rw [ht, update_self, hsame]
  · rw [update_of_ne ht]

theorem apart_update {f : Hold → Option α}
    (hs : ∀ t t' x, f (h t) = some x → f (h t') = some x → t = t')
    (hnew : ∀ x, f g = some x → ∀ t', t' ≠ t → f (h t') ≠ some x) :
    ∀ t₁ t₂ x, f (update h t g t₁) = some x →
      f (update h t g t₂) = some x → t₁ = t₂ := by
  intro t₁ t₂ x h₁ h₂
  by_cases ht₁ : t₁ = t
  · subst ht₁
    rw [update_self] at h₁
    by_contra hne
    rw [update_of_ne (Ne.symm hne)] at h₂
    exact hnew x h₁ t₂ (Ne.symm hne) h₂
  · rw [update_of_ne ht₁] at h₁
    by_cases ht₂ : t₂ = t
    · subst ht₂
      rw [update_self] at h₂
      exact absurd h₁ (hnew x h₂ t₁ ht₁)
    · rw [update_of_ne ht₂] at h₂
      exact hs t₁ t₂ x h₁ h₂

theorem mapsOf_update (h : Fin n → Hold) (t : Fin n) (g : Hold) (bh : Bh) :
    mapsOf (update h t g) bh + (h t).maps.count bh =
      mapsOf h bh + g.maps.count bh := by
  have hcount : (fun t' => (update h t g t').maps.count bh) =
      update (fun t' => (h t').maps.count bh) t (g.maps.count bh) :=
    Function.comp_update (fun g' : Hold => g'.maps.count bh) h t g
  have hnew := Finset.sum_update_of_mem (Finset.mem_univ t)
    (fun t' => (h t').maps.count bh) (g.maps.count bh)
  have hold := Finset.sum_eq_add_sum_sdiff_singleton_of_mem (Finset.mem_univ t)
    (fun t' => (h t').maps.count bh)
  unfold mapsOf
  rw [hcount, hnew, hold]
  omega

theorem mapsOf_same (hsame : g.maps = (h t).maps) (bh : Bh) :
    mapsOf (update h t g) bh = mapsOf h bh := by
  have hupd := mapsOf_update h t g bh
  rw [hsame] at hupd
  exact Nat.add_right_cancel hupd

theorem mapsOf_gain (hgain : g.maps = bh :: (h t).maps) (b : Bh) :
    mapsOf (update h t g) b = mapsOf h b + if b = bh then 1 else 0 := by
  have hupd := mapsOf_update h t g b
  rw [hgain, List.count_cons] at hupd
  simp only [beq_iff_eq, eq_comm (a := bh)] at hupd
  omega

theorem mapsOf_drop (hdrop : (h t).maps = bh :: g.maps) (b : Bh) :
    mapsOf h b = mapsOf (update h t g) b + if b = bh then 1 else 0 := by
  have hupd := mapsOf_update h t g b
  rw [hdrop, List.count_cons] at hupd
  simp only [beq_iff_eq, eq_comm (a := bh)] at hupd
  omega

theorem mapsOf_pos (hmem : bh ∈ (h t).maps) : 0 < mapsOf h bh :=
  Nat.lt_of_lt_of_le (List.count_pos_iff.mpr hmem)
    (Finset.single_le_sum (f := fun t' => (h t').maps.count bh) (fun _ _ => Nat.zero_le _)
      (Finset.mem_univ t))

theorem mapsOf_le {width : Nat} (hnarrow : ∀ t, (h t).maps.length ≤ width) (bh : Bh) :
    mapsOf h bh ≤ n * width := by
  have hle : mapsOf h bh ≤ ∑ _t : Fin n, width :=
    Finset.sum_le_sum fun t _ => List.count_le_length.trans (hnarrow t)
  simpa using hle

end Holds

namespace Books

/-- Set `b_lock`. -/
def takeLock (b : Books) (bh : Bh) : Books :=
  { b with lock := update b.lock bh true }

/-- Drop a mapping. -/
def unpin (b : Books) (bh : Bh) : Books :=
  { b with count := update b.count bh (b.count bh - 1) }

/-- Clear `b_lock` and drop a mapping. -/
def dropLock (b : Books) (bh : Bh) : Books :=
  { b.unpin bh with lock := update b.lock bh false }

/-- One more mapping of a buffer. -/
def pin (b : Books) (bh : Bh) : Books :=
  { b with count := update b.count bh (b.count bh + 1) }

/-- One more mapping of a buffer, which goes into a block of L1. -/
def bring (b : Books) (bh : Bh) (i : Slot) : Books :=
  { b.pin bh with
    data := update b.data bh (some i)
    slots := update b.slots i (some bh) }

/-- A buffer leaves its block of L1. -/
def evict (b : Books) (i : Slot) (v : Bh) : Books :=
  { b with
    data := update b.data v none
    slots := update b.slots i none }

/-- Take a request. -/
def claim (b : Books) (limit r : Nat) : Books :=
  { b with
    limit := limit
    found := r
    active := update b.active r true }

/-- Say what a request is about. -/
def fill (b : Books) (r : Nat) (bh : Bh) : Books :=
  { b with about := update b.about r bh }

/-- The queue of a device is `q`. -/
def line (b : Books) (m : Nat) (q : List Nat) : Books :=
  { b with queue := update b.queue m q }

/-- The first request of a device has been carried out. -/
def finish (b : Books) (m r : Nat) (rest : List Nat) : Books :=
  { b.dropLock (b.about r) with
    queue := update b.queue m rest
    active := update b.active r false }

/-- A head is given the tag of a block of `dev`. -/
def tag (b : Books) (bh : Bh) (dev : Nat) : Books :=
  { b with
    lock := update b.lock bh false
    seg := update b.seg bh b.ds
    dev := update b.dev bh dev }

end Books

section Steps

variable {n width m r : Nat} {h : Fin n → Hold} {b : Books} {t : Fin n} {bh : Bh} {l : List Bh}
  {g : Hold}

theorem Booked.count_le (hs : Booked width h b) (bh : Bh) : b.count bh ≤ mapsOf h bh + 1 := by
  by_cases hq : b.Queued bh
  · exact (hs.counted bh hq).le
  · exact (hs.uncounted bh hq).le.trans (Nat.le_succ _)

theorem Booked.unlocked (hs : Booked width h b) (hlock : b.lock bh = false) :
    ¬ b.Queued bh ∧ ∀ t, (h t).work.lock ≠ some bh := by
  constructor
  · rintro ⟨m, r, hr, rfl⟩
    rw [(hs.queued m r hr).2.2] at hlock
    exact absurd hlock (by decide)
  · intro t ht
    rw [(hs.locks t bh ht).1] at hlock
    exact absurd hlock (by decide)

theorem Booked.takeLock (hs : Booked width h b) (ht : h t = ⟨l, .idle⟩)
    (hlock : b.lock bh = false) :
    Booked width (update h t ⟨l, .locked bh⟩) (b.takeLock bh) := by
  obtain ⟨hnot, hother⟩ := hs.unlocked hlock
  have hset : ∀ b', b.lock b' = true → (b.takeLock bh).lock b' = true := by
    intro b' hb'
    change update b.lock bh true b' = true
    by_cases he : b' = bh
    · rw [he, update_self]
    · rwa [update_of_ne he]
  have hsame : (⟨l, .locked bh⟩ : Hold).maps = (h t).maps := by
    rw [ht]
    rfl
  have hmaps := mapsOf_same hsame
  have hreq := update_same (h := h) (t := t) (g := ⟨l, .locked bh⟩)
    (f := fun g => g.work.req) (by rw [ht]; rfl)
  exact
    { hs with
      counted := fun b' hq => by
        rw [hmaps]
        exact hs.counted b' hq
      uncounted := fun b' hq => by
        rw [hmaps]
        exact hs.uncounted b' hq
      queued := fun m r hr =>
        ⟨(hs.queued m r hr).1, (hs.queued m r hr).2.1, hset _ (hs.queued m r hr).2.2⟩
      narrow := forall_held (C := fun _ g => g.maps.length ≤ width)
        (by rw [hsame]; exact hs.narrow t) fun t' _ => hs.narrow t'
      locks := forall_held
        (C := fun _ g => ∀ b', g.work.lock = some b' →
          (b.takeLock bh).lock b' = true ∧ ¬ (b.takeLock bh).Queued b')
        (fun b' hb' => by
          obtain rfl := Option.some.inj hb'
          exact ⟨update_self _ _ _, hnot⟩)
        fun t' _ b' hb' => ⟨hset b' (hs.locks t' b' hb').1, (hs.locks t' b' hb').2⟩
      locksApart := apart_update (f := fun g => g.work.lock) hs.locksApart fun x hx t' _ => by
        obtain rfl := Option.some.inj hx
        exact hother t'
      claims := by
        simp only [hreq]
        exact hs.claims
      claimsApart := by
        simp only [hreq]
        exact hs.claimsApart
      filled := forall_held
        (C := fun _ g => ∀ b' r, g.work = .filled b' r → (b.takeLock bh).about r = b')
        (fun _ _ hc => by cases hc) fun t' _ => hs.filled t'
      active := by
        simp only [hreq]
        exact hs.active }

theorem Booked.room (hs : Booked width h b) (hfit : n * width + 1 < 2 ^ 16)
    (hgain : Hold.Gains bh (h t) g) (hwidth : g.maps.length ≤ width) : b.count bh + 1 < 2 ^ 16 := by
  have hmaps := mapsOf_gain hgain.maps bh
  have hle := mapsOf_le (h := update h t g)
    (forall_held (C := fun _ g => g.maps.length ≤ width) hwidth fun t' _ => hs.narrow t') bh
  have hcount := hs.count_le bh
  rw [if_pos rfl] at hmaps
  omega

theorem Booked.gain (hs : Booked width h b) (hgain : Hold.Gains bh (h t) g)
    (hwidth : g.maps.length ≤ width) {data : Bh → Option Slot} {slots : Slot → Option Bh}
    (hslot : ∀ b', b' = bh ∨ 0 < b.count b' ∨ data b' ≠ none → ∃ i, slots i = some b') :
    Booked width (update h t g) { b.pin bh with data := data, slots := slots } := by
  have hmaps := mapsOf_gain hgain.maps
  have hcount : ∀ b', update b.count bh (b.count bh + 1) b' =
      b.count b' + if b' = bh then 1 else 0 := by
    intro b'
    by_cases hb : b' = bh
    · rw [hb, update_self, if_pos rfl]
    · rw [update_of_ne hb, if_neg hb, Nat.add_zero]
  have hreq' := update_same (f := fun g => g.work.req) hgain.req
  have hlock' := update_same (f := fun g => g.work.lock) hgain.lock
  have hnone := hgain.none
  exact
    { hs with
      slot := fun b' hb' => by
        refine hslot b' ?_
        rcases hb' with hpos | hdata
        · by_cases hb : b' = bh
          · exact Or.inl hb
          · change 0 < update b.count bh (b.count bh + 1) b' at hpos
            rw [update_of_ne hb] at hpos
            exact Or.inr (Or.inl hpos)
        · exact Or.inr (Or.inr hdata)
      counted := fun b' hq => by
        change update b.count bh (b.count bh + 1) b' = _
        have hold' := hs.counted b' hq
        rw [hcount, hmaps]
        omega
      uncounted := fun b' hq => by
        change update b.count bh (b.count bh + 1) b' = _
        have hold' := hs.uncounted b' hq
        rw [hcount, hmaps]
        omega
      narrow := forall_held (C := fun _ g => g.maps.length ≤ width) hwidth
        fun t' _ => hs.narrow t'
      locks := by
        simp only [hlock']
        exact hs.locks
      locksApart := by
        simp only [hlock']
        exact hs.locksApart
      claims := by
        simp only [hreq']
        exact hs.claims
      claimsApart := by
        simp only [hreq']
        exact hs.claimsApart
      filled := forall_held
        (C := fun _ g => ∀ b' r, g.work = .filled b' r → b.about r = b')
        (fun _ _ hc => by
          rw [hc] at hnone
          cases hnone) fun t' _ => hs.filled t'
      active := by
        simp only [hreq']
        exact hs.active }

theorem Books.unpin_count (b : Books) (bh b' : Bh) :
    (b.unpin bh).count b' = b.count b' - if b' = bh then 1 else 0 := by
  change update b.count bh (b.count bh - 1) b' = _
  by_cases hb : b' = bh
  · rw [hb, update_self, if_pos rfl]
  · rw [update_of_ne hb, if_neg hb, Nat.sub_zero]

theorem Booked.slot_unpin (hs : Booked width h b) (bh b' : Bh)
    (hb' : 0 < (b.unpin bh).count b' ∨ b.data b' ≠ none) : ∃ i, b.slots i = some b' := by
  refine hs.slot b' (hb'.imp_left fun hpos => ?_)
  rw [Books.unpin_count] at hpos
  exact Nat.lt_of_lt_of_le hpos (Nat.sub_le _ _)

theorem Booked.counts_unpin (hs : Booked width h b) (hdrop : (h t).maps = bh :: g.maps) (b' : Bh) :
    (b.Queued b' → (b.unpin bh).count b' = mapsOf (update h t g) b' + 1) ∧
      (¬ b.Queued b' → (b.unpin bh).count b' = mapsOf (update h t g) b') := by
  have hmaps := mapsOf_drop hdrop b'
  rw [Books.unpin_count]
  constructor
  · intro hq
    have hold := hs.counted b' hq
    omega
  · intro hq
    have hold := hs.uncounted b' hq
    omega

theorem Booked.unpin (hs : Booked width h b) (ht : h t = ⟨bh :: l, .idle⟩) :
    Booked width (update h t ⟨l, .idle⟩) (b.unpin bh) := by
  have hdrop : (h t).maps = bh :: (⟨l, .idle⟩ : Hold).maps := by
    rw [ht]
    rfl
  have hcounts := hs.counts_unpin hdrop
  have hwork := update_same (h := h) (t := t) (g := ⟨l, .idle⟩)
    (f := fun g => g.work) (by rw [ht])
  have hwidth : l.length + 1 ≤ width := by
    have hnarrow := hs.narrow t
    rwa [ht] at hnarrow
  exact
    { hs with
      slot := hs.slot_unpin bh
      counted := fun b' => (hcounts b').1
      uncounted := fun b' => (hcounts b').2
      narrow := forall_held (C := fun _ g => g.maps.length ≤ width) (Nat.le_of_succ_le hwidth)
        fun t' _ => hs.narrow t'
      locks := by
        simp only [hwork]
        exact hs.locks
      locksApart := by
        simp only [hwork]
        exact hs.locksApart
      claims := by
        simp only [hwork]
        exact hs.claims
      claimsApart := by
        simp only [hwork]
        exact hs.claimsApart
      filled := by
        simp only [hwork]
        exact hs.filled
      active := by
        simp only [hwork]
        exact hs.active }

theorem Books.dropLock_lock {b' : Bh} (hne : b' ≠ bh) :
    (b.dropLock bh).lock b' = b.lock b' :=
  update_of_ne hne _ _

theorem Booked.dropLock (hs : Booked width h b) (ht : h t = ⟨l, .mapped bh⟩) :
    Booked width (update h t ⟨l, .idle⟩) (b.dropLock bh) := by
  have hdrop : (h t).maps = bh :: (⟨l, .idle⟩ : Hold).maps := by
    rw [ht]
    rfl
  have hcounts := hs.counts_unpin hdrop
  have hreq := update_same (h := h) (t := t) (g := ⟨l, .idle⟩)
    (f := fun g => g.work.req) (by rw [ht]; rfl)
  have hmine : (h t).work.lock = some bh := by
    rw [ht]
    rfl
  have hnot : ¬ b.Queued bh := (hs.locks t bh hmine).2
  have hwidth : l.length + 1 ≤ width := by
    have hnarrow := hs.narrow t
    rwa [ht] at hnarrow
  exact
    { hs with
      slot := hs.slot_unpin bh
      counted := fun b' => (hcounts b').1
      uncounted := fun b' => (hcounts b').2
      queued := fun m r hr => by
        obtain ⟨hlt, hact, hlock⟩ := hs.queued m r hr
        have hne : b.about r ≠ bh := fun he => hnot ⟨m, r, hr, he⟩
        exact ⟨hlt, hact, (Books.dropLock_lock hne).trans hlock⟩
      narrow := forall_held (C := fun _ g => g.maps.length ≤ width) (Nat.le_of_succ_le hwidth)
        fun t' _ => hs.narrow t'
      locks := forall_held
        (C := fun _ g => ∀ b', g.work.lock = some b' →
          (b.dropLock bh).lock b' = true ∧ ¬ (b.dropLock bh).Queued b')
        (fun _ hb' => by cases hb')
        fun t' htt b' hb' => by
          have hne : b' ≠ bh := by
            rintro rfl
            exact htt (hs.locksApart t' t b' hb' hmine)
          obtain ⟨hlock, hq⟩ := hs.locks t' b' hb'
          exact ⟨(Books.dropLock_lock hne).trans hlock, hq⟩
      locksApart := apart_update (f := fun g => g.work.lock) hs.locksApart
        fun x hx => by cases hx
      claims := by
        simp only [hreq]
        exact hs.claims
      claimsApart := by
        simp only [hreq]
        exact hs.claimsApart
      filled := forall_held
        (C := fun _ g => ∀ b' r, g.work = .filled b' r → b.about r = b')
        (fun _ _ hc => by cases hc) fun t' _ => hs.filled t'
      active := by
        simp only [hreq]
        exact hs.active }

theorem Booked.evict (hs : Booked width h b) {i : Slot} {v : Bh} (hi : b.slots i = some v)
    (hcount : b.count v = 0) :
    Booked width h (b.evict i v) where
  absent := hs.absent
  seg := hs.seg
  slot := by
    intro b' hb'
    have hne : b' ≠ v := by
      rintro rfl
      rcases hb' with hpos | hdata
      · exact absurd hpos (by rw [show (b.evict i b').count b' = 0 from hcount]; decide)
      · exact hdata (update_self _ _ _)
    obtain ⟨j, hj⟩ : ∃ j, b.slots j = some b' := by
      refine hs.slot b' (hb'.imp_right fun hdata => ?_)
      change update b.data v none b' ≠ none at hdata
      rwa [update_of_ne hne] at hdata
    have hji : j ≠ i := by
      rintro rfl
      exact hne (Option.some.inj (hj.symm.trans hi))
    exact ⟨j, (update_of_ne hji _ _).trans hj⟩
  counted := hs.counted
  uncounted := hs.uncounted
  queued := hs.queued
  apart := hs.apart
  nodup := hs.nodup
  narrow := hs.narrow
  locks := hs.locks
  locksApart := hs.locksApart
  claims := hs.claims
  claimsApart := hs.claimsApart
  filled := hs.filled
  active := hs.active
  found := hs.found

theorem Booked.tag (hs : Booked width h b) (hlock : b.lock bh = false) (dev : Nat) :
    Booked width h (b.tag bh dev) := by
  have hsame : (b.tag bh dev).lock = b.lock := by
    change update b.lock bh false = b.lock
    rw [← hlock, update_eq_self]
  exact
    { hs with
      seg := fun b' hb' => by
        change update b.seg bh b.ds b' ≠ b.ds at hb'
        change update b.dev bh dev b' = 0
        by_cases hb : b' = bh
        · rw [hb, update_self] at hb'
          exact absurd rfl hb'
        · rw [update_of_ne hb] at hb' ⊢
          exact hs.seg b' hb'
      queued := by
        rw [hsame]
        exact hs.queued
      locks := by
        rw [hsame]
        exact hs.locks }

theorem Booked.claim (hs : Booked width h b) (ht : h t = ⟨l, .mapped bh⟩) {limit r : Nat}
    (hr : r < nrRequest) (hfree : b.active r = false) (hfound : r < limit) :
    Booked width (update h t ⟨l, .claimed bh r⟩) (b.claim limit r) := by
  have hother : ∀ r', b.active r' = true → r' ≠ r ∧ (b.claim limit r).active r' = true := by
    intro r' hact
    have hne : r' ≠ r := by
      rintro rfl
      rw [hfree] at hact
      exact absurd hact (by decide)
    exact ⟨hne, (update_of_ne hne _ _).trans hact⟩
  have hnowhere : ∀ m, r ∉ b.queue m := fun m hm => (hother r (hs.queued m r hm).2.1).1 rfl
  have hmaps := mapsOf_same (h := h) (t := t) (g := ⟨l, .claimed bh r⟩) (by rw [ht]; rfl)
  have hlock := update_same (h := h) (t := t) (g := ⟨l, .claimed bh r⟩)
    (f := fun g => g.work.lock) (by rw [ht]; rfl)
  exact
    { hs with
      counted := fun b' hq => by
        rw [hmaps]
        exact hs.counted b' hq
      uncounted := fun b' hq => by
        rw [hmaps]
        exact hs.uncounted b' hq
      queued := fun m r' hr' => by
        obtain ⟨hlt, hact, hb'⟩ := hs.queued m r' hr'
        exact ⟨hlt, (hother r' hact).2, hb'⟩
      narrow := forall_held (C := fun _ g => g.maps.length ≤ width)
        (by
          have hnarrow := hs.narrow t
          rwa [ht] at hnarrow)
        fun t' _ => hs.narrow t'
      locks := by
        simp only [hlock]
        exact hs.locks
      locksApart := by
        simp only [hlock]
        exact hs.locksApart
      claims := forall_held
        (C := fun _ g => ∀ r', g.work.req = some r' →
          r' < nrRequest ∧ (b.claim limit r).active r' = true ∧ ∀ m, r' ∉ b.queue m)
        (fun r' hr' => by
          obtain rfl := Option.some.inj hr'
          exact ⟨hr, update_self _ _ _, hnowhere⟩)
        fun t' _ r' hr' => by
          obtain ⟨hlt, hact, hq⟩ := hs.claims t' r' hr'
          exact ⟨hlt, (hother r' hact).2, hq⟩
      claimsApart := apart_update (f := fun g => g.work.req) hs.claimsApart fun x hx t' _ hc => by
        obtain rfl := Option.some.inj hx
        exact (hother r (hs.claims t' r hc).2.1).1 rfl
      filled := forall_held
        (C := fun _ g => ∀ b' r, g.work = .filled b' r → b.about r = b')
        (fun _ _ hc => by cases hc) fun t' _ => hs.filled t'
      active := fun r' hr' => by
        by_cases he : r' = r
        · rw [he]
          exact Or.inr ⟨t, by rw [update_self]; rfl⟩
        · have hact : b.active r' = true := (update_of_ne he _ _).symm.trans hr'
          refine (hs.active r' hact).imp_right fun hex => ?_
          obtain ⟨t', ht'⟩ := hex
          have htt : t' ≠ t := by
            rintro rfl
            rw [ht] at ht'
            cases ht'
          exact ⟨t', by rwa [update_of_ne htt]⟩
      found := Or.inr hfound }

theorem Booked.fill (hs : Booked width h b) {r : Nat} (ht : h t = ⟨l, .claimed bh r⟩) :
    Booked width (update h t ⟨l, .filled bh r⟩) (b.fill r bh) := by
  have hnowhere : ∀ m, r ∉ b.queue m := (hs.claims t r (by rw [ht]; rfl)).2.2
  have hmine : (h t).work.req = some r := by
    rw [ht]
    rfl
  have habout : ∀ m r', r' ∈ b.queue m → (b.fill r bh).about r' = b.about r' := by
    intro m r' hr'
    refine update_of_ne ?_ _ _
    rintro rfl
    exact hnowhere m hr'
  have hqueued : ∀ b', (b.fill r bh).Queued b' ↔ b.Queued b' := by
    intro b'
    constructor
    · rintro ⟨m, r', hr', he⟩
      exact ⟨m, r', hr', (habout m r' hr').symm.trans he⟩
    · rintro ⟨m, r', hr', he⟩
      exact ⟨m, r', hr', (habout m r' hr').trans he⟩
  have hmaps := mapsOf_same (h := h) (t := t) (g := ⟨l, .filled bh r⟩) (by rw [ht]; rfl)
  have hlock := update_same (h := h) (t := t) (g := ⟨l, .filled bh r⟩)
    (f := fun g => g.work.lock) (by rw [ht]; rfl)
  have hreq := update_same (h := h) (t := t) (g := ⟨l, .filled bh r⟩)
    (f := fun g => g.work.req) (by rw [ht]; rfl)
  exact
    { hs with
      counted := fun b' hq => by
        rw [hmaps]
        exact hs.counted b' ((hqueued b').mp hq)
      uncounted := fun b' hq => by
        rw [hmaps]
        exact hs.uncounted b' fun hq' => hq ((hqueued b').mpr hq')
      queued := fun m r' hr' => by
        rw [habout m r' hr']
        exact hs.queued m r' hr'
      apart := fun m m' r₁ r₂ h₁ h₂ he => by
        rw [habout m r₁ h₁, habout m' r₂ h₂] at he
        exact hs.apart m m' r₁ r₂ h₁ h₂ he
      narrow := forall_held (C := fun _ g => g.maps.length ≤ width)
        (by
          have hnarrow := hs.narrow t
          rwa [ht] at hnarrow)
        fun t' _ => hs.narrow t'
      locks := by
        simp only [hlock, hqueued]
        exact hs.locks
      locksApart := by
        simp only [hlock]
        exact hs.locksApart
      claims := by
        simp only [hreq]
        exact hs.claims
      claimsApart := by
        simp only [hreq]
        exact hs.claimsApart
      filled := forall_held
        (C := fun _ g => ∀ b' r', g.work = .filled b' r' → (b.fill r bh).about r' = b')
        (fun b' r' hc => by
          cases hc
          exact update_self _ _ _)
        fun t' htt b' r' hc => by
          have hne : r' ≠ r := by
            rintro rfl
            exact htt (hs.claimsApart t' t r' (by rw [hc]; rfl) hmine)
          exact (update_of_ne hne _ _).trans (hs.filled t' b' r' hc)
      active := by
        simp only [hreq]
        exact hs.active }

theorem Booked.line (hs : Booked width h b) {q : List Nat} (ht : h t = ⟨l, .filled bh r⟩)
    (hq : q.Perm (r :: b.queue m)) :
    Booked width (update h t ⟨l, .idle⟩) (b.line m q) := by
  have hmine : (h t).work.req = some r := by
    rw [ht]
    rfl
  have hlocked : (h t).work.lock = some bh := by
    rw [ht]
    rfl
  have habout : b.about r = bh := hs.filled t bh r (by rw [ht])
  obtain ⟨hr, hact, hnowhere⟩ := hs.claims t r hmine
  obtain ⟨hlock, hnot⟩ := hs.locks t bh hlocked
  have hmem : ∀ m' r', r' ∈ (b.line m q).queue m' ↔ m' = m ∧ r' = r ∨ r' ∈ b.queue m' := by
    intro m' r'
    change r' ∈ update b.queue m q m' ↔ _
    by_cases hm : m' = m
    · subst hm
      rw [update_self, hq.mem_iff, List.mem_cons]
      simp
    · simp [hm]
  have hqueued : ∀ b', (b.line m q).Queued b' ↔ b' = bh ∨ b.Queued b' := by
    intro b'
    constructor
    · rintro ⟨m', r', hr', he⟩
      rcases (hmem m' r').mp hr' with ⟨-, rfl⟩ | hold
      · exact Or.inl (he.symm.trans habout)
      · exact Or.inr ⟨m', r', hold, he⟩
    · rintro (rfl | ⟨m', r', hr', he⟩)
      · exact ⟨m, r, (hmem m r).mpr (Or.inl ⟨rfl, rfl⟩), habout⟩
      · exact ⟨m', r', (hmem m' r').mpr (Or.inr hr'), he⟩
  have hdrop : (h t).maps = bh :: (⟨l, .idle⟩ : Hold).maps := by
    rw [ht]
    rfl
  have hmaps := mapsOf_drop hdrop
  have hwidth : l.length + 1 ≤ width := by
    have hnarrow := hs.narrow t
    rwa [ht] at hnarrow
  exact
    { hs with
      counted := fun b' hb' => by
        have hdrop := hmaps b'
        change b.count b' = _
        by_cases hb : b' = bh
        · subst hb
          rw [if_pos rfl] at hdrop
          rw [hs.uncounted b' hnot, hdrop]
        · rw [if_neg hb, Nat.add_zero] at hdrop
          rw [hs.counted b' (((hqueued b').mp hb').resolve_left hb), hdrop]
      uncounted := fun b' hb' => by
        have hdrop := hmaps b'
        have hb : b' ≠ bh := fun he => hb' ((hqueued b').mpr (Or.inl he))
        change b.count b' = _
        rw [if_neg hb, Nat.add_zero] at hdrop
        rw [hs.uncounted b' fun hold => hb' ((hqueued b').mpr (Or.inr hold)), hdrop]
      queued := fun m' r' hr' => by
        rcases (hmem m' r').mp hr' with ⟨-, rfl⟩ | hold
        · refine ⟨hr, hact, ?_⟩
          change b.lock (b.about r') = true
          rwa [habout]
        · exact hs.queued m' r' hold
      apart := fun m₁ m₂ r₁ r₂ h₁ h₂ he => by
        rcases (hmem m₁ r₁).mp h₁ with ⟨rfl, rfl⟩ | hold₁
        · rcases (hmem m₂ r₂).mp h₂ with ⟨rfl, rfl⟩ | hold₂
          · exact ⟨rfl, rfl⟩
          · exact absurd ⟨m₂, r₂, hold₂, he.symm.trans habout⟩ hnot
        · rcases (hmem m₂ r₂).mp h₂ with ⟨rfl, rfl⟩ | hold₂
          · exact absurd ⟨m₁, r₁, hold₁, he.trans habout⟩ hnot
          · exact hs.apart m₁ m₂ r₁ r₂ hold₁ hold₂ he
      nodup := fun m' => by
        change (update b.queue m q m').Nodup
        by_cases hm : m' = m
        · subst hm
          rw [update_self, hq.nodup_iff]
          exact List.nodup_cons.mpr ⟨hnowhere m', hs.nodup m'⟩
        · rw [update_of_ne hm]
          exact hs.nodup m'
      narrow := forall_held (C := fun _ g => g.maps.length ≤ width) (Nat.le_of_succ_le hwidth)
        fun t' _ => hs.narrow t'
      locks := forall_held
        (C := fun _ g => ∀ b', g.work.lock = some b' →
          b.lock b' = true ∧ ¬ (b.line m q).Queued b')
        (fun _ hb' => by cases hb')
        fun t' htt b' hb' => by
          refine ⟨(hs.locks t' b' hb').1, fun hq' => ?_⟩
          rcases (hqueued b').mp hq' with rfl | hold
          · exact htt (hs.locksApart t' t b' hb' hlocked)
          · exact (hs.locks t' b' hb').2 hold
      locksApart := apart_update (f := fun g => g.work.lock) hs.locksApart
        fun x hx => by cases hx
      claims := forall_held
        (C := fun _ g => ∀ r', g.work.req = some r' →
          r' < nrRequest ∧ b.active r' = true ∧ ∀ m', r' ∉ (b.line m q).queue m')
        (fun _ hr' => by cases hr')
        fun t' htt r' hr' => by
          obtain ⟨hlt, hact', hq'⟩ := hs.claims t' r' hr'
          refine ⟨hlt, hact', fun m' hm' => ?_⟩
          rcases (hmem m' r').mp hm' with ⟨-, rfl⟩ | hold
          · exact htt (hs.claimsApart t' t r' hr' hmine)
          · exact hq' m' hold
      claimsApart := apart_update (f := fun g => g.work.req) hs.claimsApart
        fun x hx => by cases hx
      filled := forall_held
        (C := fun _ g => ∀ b' r', g.work = .filled b' r' → b.about r' = b')
        (fun _ _ hc => by cases hc) fun t' _ => hs.filled t'
      active := fun r' hr' => by
        rcases hs.active r' hr' with ⟨m', hm'⟩ | ⟨t', ht'⟩
        · exact Or.inl ⟨m', (hmem m' r').mpr (Or.inr hm')⟩
        · by_cases htt : t' = t
          · subst htt
            obtain rfl := Option.some.inj (hmine.symm.trans ht')
            exact Or.inl ⟨m, (hmem m r).mpr (Or.inl ⟨rfl, rfl⟩)⟩
          · exact Or.inr ⟨t', by rwa [update_of_ne htt]⟩ }

theorem Booked.finish (hs : Booked width h b) {rest : List Nat} (hq : b.queue m = r :: rest) :
    Booked width h (b.finish m r rest) := by
  have hhead : r ∈ b.queue m := by
    rw [hq]
    exact List.mem_cons_self
  have hfirst : r ∉ rest := by
    have hnodup := hs.nodup m
    rw [hq] at hnodup
    exact (List.nodup_cons.mp hnodup).1
  have hmem : ∀ m' r', r' ∈ (b.finish m r rest).queue m' ↔ r' ∈ b.queue m' ∧ r' ≠ r := by
    intro m' r'
    change r' ∈ update b.queue m rest m' ↔ _
    by_cases hm : m' = m
    · subst hm
      rw [update_self, hq, List.mem_cons]
      constructor
      · intro hr'
        exact ⟨Or.inr hr', fun he => hfirst (he ▸ hr')⟩
      · rintro ⟨hr', hne⟩
        exact hr'.resolve_left hne
    · rw [update_of_ne hm]
      refine ⟨fun hr' => ⟨hr', ?_⟩, fun hr' => hr'.1⟩
      rintro rfl
      exact hm (hs.apart m' m r' r' hr' hhead rfl).1
  have hqueued : ∀ b', (b.finish m r rest).Queued b' ↔ b.Queued b' ∧ b' ≠ b.about r := by
    intro b'
    constructor
    · rintro ⟨m', r', hr', rfl⟩
      obtain ⟨hold, hne⟩ := (hmem m' r').mp hr'
      exact ⟨⟨m', r', hold, rfl⟩, fun he => hne (hs.apart m' m r' r hold hhead he).2⟩
    · rintro ⟨⟨m', r', hr', rfl⟩, hne⟩
      exact ⟨m', r', (hmem m' r').mpr ⟨hr', fun he => hne (he ▸ rfl)⟩, rfl⟩
  have hactive : ∀ r', r' ≠ r → (b.finish m r rest).active r' = b.active r' :=
    fun r' hne => update_of_ne hne _ _
  have hclaimed : ∀ t' r', (h t').work.req = some r' → r' ≠ r := by
    rintro t' r' hr' rfl
    exact (hs.claims t' r' hr').2.2 m hhead
  exact
    { hs with
      slot := hs.slot_unpin (b.about r)
      counted := fun b' hb' => by
        obtain ⟨hold, hne⟩ := (hqueued b').mp hb'
        change (b.unpin (b.about r)).count b' = _
        rw [Books.unpin_count, if_neg hne, hs.counted b' hold]
        rfl
      uncounted := fun b' hb' => by
        change (b.unpin (b.about r)).count b' = _
        rw [Books.unpin_count]
        by_cases hb : b' = b.about r
        · subst hb
          rw [if_pos rfl, hs.counted _ ⟨m, r, hhead, rfl⟩]
          rfl
        · rw [if_neg hb, hs.uncounted b' fun hold => hb' ((hqueued b').mpr ⟨hold, hb⟩)]
          rfl
      queued := fun m' r' hr' => by
        obtain ⟨hold, hne⟩ := (hmem m' r').mp hr'
        obtain ⟨hlt, hact, hlock⟩ := hs.queued m' r' hold
        refine ⟨hlt, (hactive r' hne).trans hact, ?_⟩
        refine (Books.dropLock_lock fun he => ?_).trans hlock
        exact hne (hs.apart m' m r' r hold hhead he).2
      apart := fun m₁ m₂ r₁ r₂ h₁ h₂ he =>
        hs.apart m₁ m₂ r₁ r₂ ((hmem m₁ r₁).mp h₁).1 ((hmem m₂ r₂).mp h₂).1 he
      nodup := fun m' => by
        change (update b.queue m rest m').Nodup
        by_cases hm : m' = m
        · subst hm
          rw [update_self]
          have hnodup := hs.nodup m'
          rw [hq] at hnodup
          exact (List.nodup_cons.mp hnodup).2
        · rw [update_of_ne hm]
          exact hs.nodup m'
      locks := fun t' b' hb' => by
        obtain ⟨hlock, hnot⟩ := hs.locks t' b' hb'
        refine ⟨?_, fun hq' => hnot ((hqueued b').mp hq').1⟩
        refine (Books.dropLock_lock ?_).trans hlock
        rintro rfl
        exact hnot ⟨m, r, hhead, rfl⟩
      claims := fun t' r' hr' => by
        obtain ⟨hlt, hact, hnowhere⟩ := hs.claims t' r' hr'
        refine ⟨hlt, (hactive r' (hclaimed t' r' hr')).trans hact, fun m' hm' => ?_⟩
        exact hnowhere m' ((hmem m' r').mp hm').1
      active := fun r' hr' => by
        have hne : r' ≠ r := by
          rintro rfl
          exact absurd (hr'.symm.trans (update_self _ _ _)) (by decide)
        refine (hs.active r' ((hactive r' hne).symm.trans hr')).imp_left fun hex => ?_
        obtain ⟨m', hm'⟩ := hex
        exact ⟨m', (hmem m' r').mpr ⟨hm', hne⟩⟩ }

end Steps

section Bound

variable {n width r : Nat} {h : Fin n → Hold} {b : Books} {bh : Bh}

/-- The buffer of an active request: the one it is about, or the one for which a
task has just taken it. -/
def Books.Serves (b : Books) (h : Fin n → Hold) (r : Nat) (bh : Bh) : Prop :=
  (∃ m, r ∈ b.queue m ∧ b.about r = bh) ∨
    ∃ t, (h t).work.req = some r ∧ (h t).work.lock = some bh ∧ (h t).work.map = some bh

theorem Booked.serves (hs : Booked width h b) (hr : b.active r = true) : ∃ bh, b.Serves h r bh := by
  rcases hs.active r hr with ⟨m, hm⟩ | ⟨t, ht⟩
  · exact ⟨b.about r, Or.inl ⟨m, hm, rfl⟩⟩
  · obtain ⟨bh, hlock, hmap⟩ := Work.of_req ht
    exact ⟨bh, Or.inr ⟨t, ht, hlock, hmap⟩⟩

theorem Booked.serves_unique (hs : Booked width h b) {r r' : Nat} (hr : b.Serves h r bh)
    (hr' : b.Serves h r' bh) : r = r' := by
  rcases hr with ⟨m, hm, ha⟩ | ⟨t, ht, hlock, -⟩
  · rcases hr' with ⟨m', hm', ha'⟩ | ⟨t', -, hlock', -⟩
    · exact (hs.apart m m' r r' hm hm' (ha.trans ha'.symm)).2
    · exact absurd ⟨m, r, hm, ha⟩ (hs.locks t' bh hlock').2
  · rcases hr' with ⟨m', hm', ha'⟩ | ⟨t', ht', hlock', -⟩
    · exact absurd ⟨m', r', hm', ha'⟩ (hs.locks t bh hlock).2
    · obtain rfl := hs.locksApart t t' bh hlock hlock'
      exact Option.some.inj (ht.symm.trans ht')

theorem Booked.serves_slot (hs : Booked width h b) (hr : b.Serves h r bh) :
    ∃ i, b.slots i = some bh := by
  refine hs.slot bh (Or.inl ?_)
  rcases hr with ⟨m, hm, ha⟩ | ⟨t, -, hlock, hmap⟩
  · rw [hs.counted bh ⟨m, r, hm, ha⟩]
    exact Nat.succ_pos _
  · rw [hs.uncounted bh (hs.locks t bh hlock).2]
    refine mapsOf_pos (t := t) ?_
    simp [Hold.maps, hmap]

theorem Booked.active_le (hs : Booked width h b) (k : Nat) :
    ((Finset.range k).filter fun r => b.active r = true).card ≤ nrMapbufs := by
  have hex : ∀ r : Nat, ∃ i : Slot, b.active r = true →
      ∃ bh, b.slots i = some bh ∧ b.Serves h r bh := by
    intro r
    by_cases hr : b.active r = true
    · obtain ⟨bh, hbh⟩ := hs.serves hr
      obtain ⟨i, hi⟩ := hs.serves_slot hbh
      exact ⟨i, fun _ => ⟨bh, hi, hbh⟩⟩
    · exact ⟨0, fun hr' => absurd hr' hr⟩
  choose f hf using hex
  have hinj : Set.InjOn f ((Finset.range k).filter fun r => b.active r = true) := by
    intro r hr r' hr' he
    rw [Finset.mem_coe, Finset.mem_filter] at hr hr'
    obtain ⟨bh, hi, hbh⟩ := hf r hr.2
    obtain ⟨bh', hi', hbh'⟩ := hf r' hr'.2
    rw [← he, hi] at hi'
    cases hi'
    exact hs.serves_unique hbh hbh'
  have hcard := Finset.card_le_card_of_injOn f (fun r _ => Finset.mem_univ (f r)) hinj
  rwa [Finset.card_univ, Fintype.card_fin] at hcard

end Bound

end Buffer
end Elks
