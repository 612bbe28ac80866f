import Elks.Buffer.Books

/-!
# Requests and their books (ll_rw_blk.c, blk.h)

`get_request` looks at all of the first `n` requests, wherever its two pointers
have been left (`getRequest_cases`), and `add_request` puts a request somewhere
in the queue of its device (`elevate_perm`).

What each function that changes a head, the map of L1 or a request does to the
books is an equation (`books_modHead` and those after it).
-/

namespace Elks
namespace Buffer

open Lib
open Function (update update_eq_self)

section Search

variable {s : Buffers} {n : Nat}

theorem findRequest_above (rounds : Nat) :
    ∀ req, s.prevFound < req → req ≤ n → req - s.prevFound ≤ rounds →
      s.findRequest n rounds req = none →
      ∀ r, s.prevFound ≤ r → r < req → (s.allRequests r).rqActive = true := by
  induction rounds with
  | zero =>
      intro req hlt _ hrounds
      omega
  | succ rounds ih =>
      intro req hlt hle hrounds hnone r hfound hr
      have hpos : 0 < req := by omega
      simp only [Buffers.findRequest, if_pos hpos] at hnone
      split at hnone
      · rename_i hact
        by_cases hr' : r = req - 1
        · rw [hr']
          exact hact
        · rw [if_neg (by omega)] at hnone
          exact ih (req - 1) (by omega) (by omega) (by omega) hnone r hfound (by omega)
      · cases hnone

theorem findRequest_below (hfound : s.prevFound < n) (rounds : Nat) :
    ∀ req, req ≤ s.prevFound → req + (n - s.prevFound) ≤ rounds →
      s.findRequest n rounds req = none →
      ∀ r, r < req ∨ s.prevFound ≤ r ∧ r < n → (s.allRequests r).rqActive = true := by
  induction rounds with
  | zero =>
      intro req _ hrounds
      omega
  | succ rounds ih =>
      intro req hle hrounds hnone r hr
      by_cases hpos : 0 < req
      · simp only [Buffers.findRequest, if_pos hpos] at hnone
        split at hnone
        · rename_i hact
          rw [if_neg (by omega)] at hnone
          by_cases hr' : r = req - 1
          · rw [hr']
            exact hact
          · exact ih (req - 1) (by omega) (by omega) hnone r (by omega)
        · cases hnone
      · simp only [Buffers.findRequest, if_neg hpos] at hnone
        split at hnone
        · rename_i hact
          by_cases hr' : r = n - 1
          · rw [hr']
            exact hact
          · rw [if_neg (by omega)] at hnone
            exact findRequest_above rounds (n - 1) (by omega) (by omega) (by omega) hnone r
              (by omega) (by omega)
        · cases hnone

theorem findRequest_some (rounds : Nat) :
    ∀ req, (if 0 < req then req else n) - 1 < n →
      ∀ r, s.findRequest n rounds req = some r →
        r < n ∧ (s.allRequests r).rqActive = false := by
  induction rounds with
  | zero =>
      intro req _ r hr
      cases hr
  | succ rounds ih =>
      intro req hlt r hr
      unfold Buffers.findRequest at hr
      generalize (if 0 < req then req else n) - 1 = req' at hlt hr
      dsimp only at hr
      by_cases hact : (s.allRequests req').rqActive = true
      · rw [if_pos hact] at hr
        by_cases hfound : req' = s.prevFound
        · rw [if_pos hfound] at hr
          cases hr
        · rw [if_neg hfound] at hr
          refine ih req' ?_ r hr
          split <;> omega
      · rw [if_neg hact] at hr
        obtain rfl := Option.some.inj hr
        exact ⟨hlt, by simpa using hact⟩

theorem findRequest_cases (hfound : s.prevFound < n) :
    (∃ r, r < n ∧ (s.allRequests r).rqActive = false ∧
        s.findRequest n n s.prevFound = some r) ∨
      s.findRequest n n s.prevFound = none ∧
        ∀ r, r < n → (s.allRequests r).rqActive = true := by
  cases hfind : s.findRequest n n s.prevFound with
  | none =>
      refine Or.inr ⟨rfl, fun r hr => ?_⟩
      exact findRequest_below hfound n s.prevFound le_rfl (by omega) hfind r (by omega)
  | some r =>
      obtain ⟨hr, hfree⟩ := findRequest_some n s.prevFound (by split <;> omega) r hfind
      exact Or.inl ⟨r, hr, hfree, rfl⟩

/-- The pointers of `get_request` are where it leaves them. -/
def Buffers.Searched (s : Buffers) : Prop :=
  s.prevLimit = 0 ∨ s.prevFound < s.prevLimit

theorem getRequest_cases (hs : s.Searched) (hn : 0 < n) (dev : Nat) :
    (∃ r, r < n ∧ (s.allRequests r).rqActive = false ∧
        s.getRequest n dev =
          (some r,
            { s with
              prevLimit := n
              prevFound := r
              allRequests := update s.allRequests r
                { s.allRequests r with rqActive := true, rqDev := dev } })) ∨
      (s.getRequest n dev).1 = none ∧ ∀ r, r < n → (s.allRequests r).rqActive = true := by
  unfold Buffers.getRequest
  by_cases hlimit : s.prevLimit = n
  · have hfound : s.prevFound < n := by
      rcases hs with hzero | hlt
      · omega
      · rwa [hlimit] at hlt
    simp only [if_pos hlimit]
    rcases findRequest_cases hfound with ⟨r, hr, hfree, hfind⟩ | ⟨hfind, hall⟩
    · exact Or.inl ⟨r, hr, hfree, by rw [hfind, ← hlimit]⟩
    · exact Or.inr ⟨by rw [hfind], hall⟩
  · simp only [if_neg hlimit]
    rcases findRequest_cases (s := { s with prevLimit := n, prevFound := 0 }) hn with
      ⟨r, hr, hfree, hfind⟩ | ⟨hfind, hall⟩
    · exact Or.inl ⟨r, hr, hfree, by rw [hfind]⟩
    · exact Or.inr ⟨by rw [hfind], hall⟩

end Search

theorem elevate_perm (s : Buffers) (req : Nat) :
    ∀ tmp rest, (s.elevate req tmp rest).Perm (req :: tmp :: rest)
  | tmp, [] => List.Perm.swap req tmp []
  | tmp, next :: rest => by
      unfold Buffers.elevate
      split
      · exact List.Perm.swap req tmp (next :: rest)
      · exact ((elevate_perm s req next rest).cons tmp).trans (List.Perm.swap req tmp _)

section Equations

variable {s : Buffers} {bh : Bh}

theorem headField_modHead {α : Type} (p : BufferHead → α) (s : Buffers) (bh : Bh)
    (f : BufferHead → BufferHead) :
    (fun b => p ((s.modHead bh f).buffers b)) =
      update (fun b => p (s.buffers b)) bh (p (f (s.buffers bh))) :=
  Function.comp_update p s.buffers bh (f (s.buffers bh))

theorem books_modHead (s : Buffers) (bh : Bh) (f : BufferHead → BufferHead) :
    (s.modHead bh f).books =
      { s.books with
        lock := update s.books.lock bh (f (s.buffers bh)).bLock
        count := update s.books.count bh (f (s.buffers bh)).bMapcount
        data := update s.books.data bh (f (s.buffers bh)).bData
        seg := update s.books.seg bh (f (s.buffers bh)).bSeg
        dev := update s.books.dev bh (f (s.buffers bh)).bDev } :=
  Books.ext (headField_modHead BufferHead.bLock s bh f)
    (headField_modHead BufferHead.bMapcount s bh f) (headField_modHead BufferHead.bData s bh f)
    (headField_modHead BufferHead.bSeg s bh f) (headField_modHead BufferHead.bDev s bh f)
    rfl rfl rfl rfl rfl rfl rfl rfl

/-- A change of the flags and counts of a head that the books do not have. -/
structure Minor (f : BufferHead → BufferHead) : Prop where
  lock : ∀ h, (f h).bLock = h.bLock
  count : ∀ h, (f h).bMapcount = h.bMapcount
  data : ∀ h, (f h).bData = h.bData
  seg : ∀ h, (f h).bSeg = h.bSeg
  dev : ∀ h, (f h).bDev = h.bDev

theorem Minor.books {f : BufferHead → BufferHead} (hf : Minor f) (s : Buffers) (bh : Bh) :
    (s.modHead bh f).books = s.books := by
  rw [books_modHead, hf.lock, hf.count, hf.data, hf.seg, hf.dev]
  exact Books.ext (update_eq_self _ _) (update_eq_self _ _)
    (update_eq_self _ _) (update_eq_self _ _) (update_eq_self _ _)
    rfl rfl rfl rfl rfl rfl rfl rfl

theorem books_takeLock (s : Buffers) (bh : Bh) :
    (s.modHead bh fun h => { h with bLock := true }).books = s.books.takeLock bh := by
  rw [books_modHead]
  exact Books.ext rfl (update_eq_self _ _) (update_eq_self _ _)
    (update_eq_self _ _) (update_eq_self _ _) rfl rfl rfl rfl rfl rfl rfl rfl

theorem wrap_succ {k : Nat} (hk : k + 1 < 2 ^ 16) : wrap 16 (k + 1) = k + 1 :=
  Nat.mod_eq_of_lt hk

theorem books_pin (hwrap : (s.buffers bh).bMapcount + 1 < 2 ^ 16) :
    (s.modHead bh fun h => { h with bMapcount := wrap 16 (h.bMapcount + 1) }).books =
      s.books.pin bh := by
  rw [books_modHead]
  refine Books.ext (update_eq_self _ _) ?_ (update_eq_self _ _)
    (update_eq_self _ _) (update_eq_self _ _) rfl rfl rfl rfl rfl rfl rfl rfl
  change update s.books.count bh (wrap 16 ((s.buffers bh).bMapcount + 1)) = _
  rw [wrap_succ hwrap]
  rfl

theorem books_unpin (s : Buffers) (bh : Bh) : (s.unmapBuffer bh).books = s.books.unpin bh := by
  have hminus : (s.unmapBuffer bh).books =
      (s.modHead bh fun h => { h with bMapcount := h.bMapcount - 1 }).books := by
    unfold Buffers.unmapBuffer
    split
    · rename_i hzero
      simp only [books_modHead, hzero]
    · rfl
  rw [hminus, books_modHead]
  exact Books.ext (update_eq_self _ _) rfl (update_eq_self _ _)
    (update_eq_self _ _) (update_eq_self _ _) rfl rfl rfl rfl rfl rfl rfl rfl

theorem books_dropLock (s : Buffers) (bh : Bh) :
    (s.unlockBuffer bh).books = s.books.dropLock bh := by
  unfold Buffers.unlockBuffer
  rw [books_unpin, books_modHead]
  have hcount : update s.books.count bh (s.buffers bh).bMapcount = s.books.count :=
    update_eq_self _ _
  refine Books.ext rfl ?_ (update_eq_self _ _) (update_eq_self _ _)
    (update_eq_self _ _) rfl rfl rfl rfl rfl rfl rfl rfl
  simp only [Books.unpin, Books.dropLock, hcount]

theorem books_tag (s : Buffers) (bh : Bh) (dev block : Nat) :
    (s.tagHead bh dev block).books = s.books.tag bh dev := by
  unfold Buffers.tagHead
  rw [books_modHead]
  exact Books.ext rfl (update_eq_self _ _) (update_eq_self _ _) rfl rfl
    rfl rfl rfl rfl rfl rfl rfl rfl

theorem books_bring {i : Slot} (hwrap : (s.buffers bh).bMapcount + 1 < 2 ^ 16) :
    (s.mapHere bh i).books = s.books.bring bh i := by
  have hhead : (s.mapHere bh i).books =
      { (s.modHead bh fun h =>
          { h with bData := some i, bMapcount := wrap 16 (h.bMapcount + 1) }).books with
        slots := update s.bufmemMap i (some bh) } := rfl
  rw [hhead, books_modHead]
  refine Books.ext (update_eq_self _ _) ?_ rfl
    (update_eq_self _ _) (update_eq_self _ _) rfl rfl rfl rfl rfl rfl rfl rfl
  change update s.books.count bh (wrap 16 ((s.buffers bh).bMapcount + 1)) = _
  rw [wrap_succ hwrap]
  rfl

theorem books_evict {i : Slot} {v : Bh} (hi : s.bufmemMap i = some v) :
    (s.unmapSlot i).books = s.books.evict i v := by
  have hhead : (s.unmapSlot i).books =
      { (s.modHead v fun h => { h with bData := none }).books with
        slots := update s.bufmemMap i none } := by
    unfold Buffers.unmapSlot
    rw [hi]
    rfl
  rw [hhead, books_modHead]
  exact Books.ext (update_eq_self _ _) (update_eq_self _ _) rfl
    (update_eq_self _ _) (update_eq_self _ _) rfl rfl rfl rfl rfl rfl rfl rfl

theorem books_transfer (s : Buffers) (r : Request) : (s.transfer r).books = s.books := by
  unfold Buffers.transfer Buffers.store
  split
  · split <;> rfl
  · rfl

theorem books_putLastLru (s : Buffers) (bh : Bh) : (s.putLastLru bh).books = s.books := by
  unfold Buffers.putLastLru
  split <;> rfl

theorem requestField_update {α : Type} (p : Request → α) (s : Buffers) (r : Nat) (x : Request) :
    (fun r' => p (update s.allRequests r x r')) =
      update (fun r' => p (s.allRequests r')) r (p x) :=
  Function.comp_update p s.allRequests r x

theorem books_claim (s : Buffers) (n r dev : Nat) :
    { s with
      prevLimit := n
      prevFound := r
      allRequests := update s.allRequests r
        { s.allRequests r with rqActive := true, rqDev := dev } : Buffers }.books =
      s.books.claim n r :=
  Books.ext rfl rfl rfl rfl rfl rfl rfl rfl
    ((requestField_update Request.rqBh s r _).trans (update_eq_self _ _))
    (requestField_update Request.rqActive s r _) rfl rfl rfl

theorem books_fill (s : Buffers) (r : Nat) (rw : Rw) (sector : Nat) (bh : Bh) :
    (s.fillRequest r rw sector bh).books = s.books.fill r bh :=
  Books.ext rfl rfl rfl rfl rfl rfl rfl rfl
    (requestField_update Request.rqBh s r _)
    ((requestField_update Request.rqActive s r _).trans (update_eq_self _ _))
    rfl rfl rfl

theorem books_enqueue (s : Buffers) (m r : Nat) :
    ∃ q, q.Perm (r :: s.queue m) ∧ (s.enqueue m r).2.books = s.books.line m q := by
  have hminor : Minor fun h => { h with bDirty := false } :=
    ⟨fun _ => rfl, fun _ => rfl, fun _ => rfl, fun _ => rfl, fun _ => rfl⟩
  have hbooks := hminor.books s (s.allRequests r).rqBh
  have hline : ∀ (s₁ : Buffers) (q : List Nat), s₁.books = s.books →
      { s₁ with queue := update s₁.queue m q }.books = s.books.line m q := by
    intro s₁ q h₁
    change s₁.books.line m q = _
    rw [h₁]
  unfold Buffers.enqueue
  dsimp only
  split
  · rename_i hq
    refine ⟨[r], ?_, hline _ _ hbooks⟩
    rw [show s.queue m = [] from hq]
  · rename_i tmp rest hq
    refine ⟨_, ?_, hline _ _ hbooks⟩
    rw [show s.queue m = tmp :: rest from hq]
    exact elevate_perm _ r tmp rest

theorem books_finish {m r : Nat} {rest : List Nat} (uptodate : Bool) (hq : s.queue m = r :: rest) :
    (s.endRequest m uptodate).books = s.books.finish m r rest := by
  have hminor : Minor fun h => { h with bUptodate := uptodate } :=
    ⟨fun _ => rfl, fun _ => rfl, fun _ => rfl, fun _ => rfl, fun _ => rfl⟩
  have hdrop : ((s.modHead (s.allRequests r).rqBh fun h =>
      { h with bUptodate := uptodate }).unlockBuffer (s.allRequests r).rqBh).books =
      s.books.dropLock (s.allRequests r).rqBh := by
    rw [books_dropLock, hminor.books]
  have hhead : (s.endRequest m uptodate).books =
      { s.books.dropLock (s.allRequests r).rqBh with
        queue := update s.queue m rest
        about := fun r' => (update s.allRequests r
          { s.allRequests r with rqDev := 2 ^ 16 - 1, rqActive := false } r').rqBh
        active := fun r' => (update s.allRequests r
          { s.allRequests r with rqDev := 2 ^ 16 - 1, rqActive := false } r').rqActive } := by
    rw [← hdrop]
    unfold Buffers.endRequest
    rw [hq]
    rfl
  rw [hhead]
  exact Books.ext rfl rfl rfl rfl rfl rfl rfl rfl
    ((requestField_update Request.rqBh s r _).trans (update_eq_self _ _))
    (requestField_update Request.rqActive s r _) rfl rfl rfl

end Equations

end Buffer
end Elks
