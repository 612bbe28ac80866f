import Elks.Buffer.Cache
import Elks.Lib.Chain
import Elks.Lib.Sweep

/-!
# The elevator (ll_rw_blk.c, blk.h)

The requests of a device are linked through `rq_next`, from `current_request`.
`add_request` walks along the links to the place of a new request, and
`end_request` takes the first one away.

* `Queued`: the links run through the requests that have been added and have not
  been completed, and the list has at most one break (`Lib.Sweep`).
* `elevator_sweeps`: it is so in every queue that these functions build, and an
  insertion does not change the head.
-/

namespace Elks
namespace Buffer

open Lib
open Function (update update_of_ne update_self)

instance : NeZero nrRequest := ⟨by decide⟩

/-- A `struct request *` into `all_requests[]`. -/
abbrev RequestRef := Fin nrRequest

/-- `struct blk_dev_struct`, and the requests it has. -/
structure BlkDev where
  currentRequest : Option RequestRef
  rqNext : RequestRef → Option RequestRef
  requests : RequestRef → Request

/-- What tells two requests apart. -/
def Request.key (x : Request) : Rw × Nat × Nat :=
  (x.rqCmd, x.rqDev, x.rqSector)

namespace BlkDev

/-- `IN_ORDER`. -/
def inOrder (d : BlkDev) (r r' : RequestRef) : Bool :=
  Buffer.inOrder (d.requests r) (d.requests r')

/-- The loop of `add_request` from `tmp` on; the number bounds the rounds. -/
def findPlace (d : BlkDev) (req : RequestRef) : Nat → RequestRef → Option RequestRef
  | 0, _ => none
  | rounds + 1, tmp =>
      match d.rqNext tmp with
      | none => some tmp
      | some next =>
          if (d.inOrder tmp req || !d.inOrder tmp next) && d.inOrder req next then
            some tmp
          else
            d.findPlace req rounds next

/-- `add_request` as far as the queue goes: the buffer is marked clean, and the
driver is called for a first request, outside it. -/
def addRequest (req : RequestRef) (d : BlkDev) : Option BlkDev :=
  match d.currentRequest with
  | none => some { d with currentRequest := some req }
  | some tmp =>
      (d.findPlace req nrRequest tmp).map fun tmp =>
        { d with
          rqNext :=
            update (update d.rqNext req (d.rqNext tmp)) tmp (some req) }

/-- The end of `make_request`: the request is filled in and added. -/
def makeRequest (req : RequestRef) (x : Request) (d : BlkDev) : Option BlkDev :=
  addRequest req
    { d with
      requests := update d.requests req x
      rqNext := update d.rqNext req none }

/-- `end_request` on the current request; its buffer is unlocked outside the queue. -/
def endRequest (req : RequestRef) (d : BlkDev) : BlkDev :=
  { d with
    currentRequest := d.rqNext req
    requests := update d.requests req
      { d.requests req with rqDev := 2 ^ 16 - 1, rqActive := false } }

end BlkDev

/-- The queues that begin empty, and the requests that have been added and not
been completed. -/
inductive Built : BlkDev → Finset RequestRef → Prop
  | empty {d : BlkDev} (hempty : d.currentRequest = none) : Built d ∅
  | add {d d' : BlkDev} {p : Finset RequestRef} {req : RequestRef} {x : Request}
      (built : Built d p)
      (hfree : req ∉ p)
      (hdistinct : ∀ q, q ∈ p → (d.requests q).key ≠ x.key)
      (hadd : d.makeRequest req x = some d') :
      Built d' (insert req p)
  | finish {d : BlkDev} {p : Finset RequestRef} {req : RequestRef}
      (built : Built d p)
      (hcurrent : d.currentRequest = some req) :
      Built (d.endRequest req) (p.erase req)

/-- The queue has exactly the requests of `p`, in one sweep or two. -/
structure QueuedAs (d : BlkDev) (p : Finset RequestRef) (l : List RequestRef) : Prop where
  links : Links d.rqNext d.currentRequest l
  mem : ∀ r, r ∈ l ↔ r ∈ p
  sweeps : breaks d.inOrder l ≤ 1

theorem inOrder_total {x y : Request} (h : x.key ≠ y.key) :
    inOrder x y = true ∨ inOrder y x = true := by
  simp only [Request.key, ne_eq, Prod.mk.injEq, not_and] at h
  simp only [inOrder, Bool.or_eq_true, Bool.and_eq_true, decide_eq_true_eq, beq_iff_eq]
  have hcode : x.rqCmd.code = y.rqCmd.code → x.rqCmd = y.rqCmd := by
    cases x.rqCmd <;> cases y.rqCmd <;> decide
  by_cases hcmd : x.rqCmd.code = y.rqCmd.code
  · have hne := h (hcode hcmd)
    by_cases hdev : x.rqDev = y.rqDev
    · have hsector := hne hdev
      omega
    · omega
  · omega

section Places

variable {d : BlkDev} {req t : RequestRef} {l : List RequestRef} {rounds : Nat}

theorem findPlace_spec (req : RequestRef) (hl : Links d.rqNext (some t) (t :: l))
    (hrounds : l.length < rounds) :
    ∃ a t' b, d.findPlace req rounds t = some t' ∧ t :: l = a ++ t' :: b ∧
      sweepInsert d.inOrder req t l = a ++ t' :: req :: b := by
  induction l generalizing t rounds with
  | nil =>
      obtain ⟨k, rfl⟩ : ∃ k, rounds = k + 1 := Nat.exists_eq_succ_of_ne_zero (Nat.ne_of_gt hrounds)
      have hend : d.rqNext t = none := hl.2
      refine ⟨[], t, [], ?_, rfl, rfl⟩
      unfold BlkDev.findPlace
      rw [hend]
  | cons y l ih =>
      obtain ⟨k, rfl⟩ : ∃ k, rounds = k + 1 :=
        Nat.exists_eq_succ_of_ne_zero (Nat.ne_of_gt (Nat.zero_lt_of_lt hrounds))
      have hnext : d.rqNext t = some y := hl.2.1
      rw [List.length_cons] at hrounds
      rw [BlkDev.findPlace, hnext, sweepInsert]
      dsimp only
      split
      · exact ⟨[], t, y :: l, rfl, rfl, rfl⟩
      · have hrest : Links d.rqNext (some y) (y :: l) := hnext ▸ hl.2
        obtain ⟨a, t', b, hfind, hold, hnew⟩ := ih hrest (Nat.lt_of_succ_lt_succ hrounds)
        refine ⟨t :: a, t', b, hfind, ?_, ?_⟩
        · rw [hold, List.cons_append]
        · rw [hnew, List.cons_append]

end Places

section Queue

variable {d : BlkDev} {p : Finset RequestRef} {l : List RequestRef} {req : RequestRef}

theorem QueuedAs.fill (h : QueuedAs d p l) (hfree : req ∉ p) (x : Request) :
    QueuedAs
      { d with
        requests := update d.requests req x
        rqNext := update d.rqNext req none } p l := by
  have hout : req ∉ l := fun hreq => hfree ((h.mem req).mp hreq)
  refine ⟨(linksTo_update hout).mpr h.links, h.mem, ?_⟩
  rw [breaks_congr (r := d.inOrder)]
  · exact h.sweeps
  · intro r hr r' hr'
    have hne : r ≠ req := fun he => hout (he ▸ hr)
    have hne' : r' ≠ req := fun he => hout (he ▸ hr')
    unfold BlkDev.inOrder
    dsimp only
    rw [update_of_ne hne, update_of_ne hne']

theorem QueuedAs.addRequest (h : QueuedAs d p l) (hfree : req ∉ p) (hend : d.rqNext req = none)
    (hdistinct : ∀ q, q ∈ p → (d.requests q).key ≠ (d.requests req).key) :
    ∃ d' l', d.addRequest req = some d' ∧ QueuedAs d' (insert req p) l' ∧
      (d.currentRequest ≠ none → d'.currentRequest = d.currentRequest) := by
  have hout : req ∉ l := fun hreq => hfree ((h.mem req).mp hreq)
  unfold BlkDev.addRequest
  cases l with
  | nil =>
      have hempty : d.currentRequest = none := h.links
      rw [hempty]
      refine ⟨_, [req], rfl, ⟨⟨rfl, hend⟩, fun r => ?_, Nat.zero_le _⟩, fun hne => ?_⟩
      · have hnone : r ∉ p := fun hr => by
          have hmem := (h.mem r).mpr hr
          cases hmem
        simp [hnone]
      · exact absurd rfl hne
  | cons t l =>
      have hcurrent : d.currentRequest = some t := h.links.1
      have hlinks : Links d.rqNext (some t) (t :: l) := hcurrent ▸ h.links
      have hlength : (t :: l).length ≤ nrRequest := by
        have hle := hlinks.length_le
        rwa [Fintype.card_fin] at hle
      obtain ⟨a, t', b, hfind, hold, hnew⟩ :=
        findPlace_spec req hlinks (Nat.lt_of_succ_le hlength)
      rw [hcurrent]
      dsimp only
      rw [hfind]
      refine ⟨_, a ++ t' :: req :: b, rfl, ⟨?_, fun r => ?_, ?_⟩, fun _ => rfl⟩
      · rw [hold] at hlinks hout
        exact hlinks.insert hout
      · rw [← hnew, sweepInsert_perm.mem_iff, List.mem_cons, h.mem r, Finset.mem_insert]
      · change breaks d.inOrder (a ++ t' :: req :: b) ≤ 1
        rw [← hnew]
        refine breaks_sweepInsert h.sweeps fun q hq => ?_
        have hq' : q ∈ p := (h.mem q).mp (List.mem_cons_of_mem t hq)
        exact (inOrder_total (hdistinct q hq')).symm

theorem QueuedAs.endRequest (h : QueuedAs d p l) (hcurrent : d.currentRequest = some req) :
    ∃ l', QueuedAs (d.endRequest req) (p.erase req) l' := by
  cases l with
  | nil =>
      have hempty : d.currentRequest = none := h.links
      rw [hempty] at hcurrent
      cases hcurrent
  | cons t l =>
      obtain rfl : t = req := Option.some.inj (h.links.1.symm.trans hcurrent)
      have hout : t ∉ l := (List.nodup_cons.mp h.links.nodup).1
      refine ⟨l, h.links.2, fun r => ?_, ?_⟩
      · have hmem := h.mem r
        rw [List.mem_cons] at hmem
        rw [Finset.mem_erase, ← hmem]
        constructor
        · intro hr
          exact ⟨fun he => hout (he ▸ hr), Or.inr hr⟩
        · rintro ⟨hne, hr⟩
          exact hr.resolve_left hne
      · rw [breaks_congr (r := d.inOrder)]
        · exact Nat.le_trans breaks_tail_le h.sweeps
        · intro r hr r' hr'
          have hne : r ≠ t := fun he => hout (he ▸ hr)
          have hne' : r' ≠ t := fun he => hout (he ▸ hr')
          unfold BlkDev.inOrder BlkDev.endRequest
          dsimp only
          rw [update_of_ne hne, update_of_ne hne']

theorem QueuedAs.makeRequest (h : QueuedAs d p l) (hfree : req ∉ p) {x : Request}
    (hdistinct : ∀ q, q ∈ p → (d.requests q).key ≠ x.key) :
    ∃ d' l', d.makeRequest req x = some d' ∧ QueuedAs d' (insert req p) l' ∧
      (d.currentRequest ≠ none → d'.currentRequest = d.currentRequest) := by
  refine (h.fill hfree x).addRequest hfree (update_self _ _ _) fun q hq => ?_
  have hne : q ≠ req := fun he => hfree (he ▸ hq)
  dsimp only
  rw [update_of_ne hne, update_self]
  exact hdistinct q hq

theorem Built.queuedAs (h : Built d p) : ∃ l, QueuedAs d p l := by
  induction h with
  | empty hempty => exact ⟨[], hempty, by simp, Nat.zero_le _⟩
  | add built hfree hdistinct hadd ih =>
      obtain ⟨l, hl⟩ := ih
      obtain ⟨d', l', hadd', hl', -⟩ := hl.makeRequest hfree hdistinct
      obtain rfl := Option.some.inj (hadd'.symm.trans hadd)
      exact ⟨l', hl'⟩
  | finish built hcurrent ih =>
      obtain ⟨l, hl⟩ := ih
      exact hl.endRequest hcurrent

end Queue

/-- **The elevator.**  The links of a queue that `add_request` and `end_request`
build from an empty one run through the requests that have been added and not
been completed, each once, and at most one of them is not in order with the next:
the list is one sweep, or one followed by a second one.  A request with another key
can always be added, and does not change the head of a queue that is not empty. -/
theorem elevator_sweeps {d : BlkDev} {p : Finset RequestRef} (h : Built d p) :
    (∃ l, Links d.rqNext d.currentRequest l ∧ l.Nodup ∧ (∀ r, r ∈ l ↔ r ∈ p) ∧
        breaks d.inOrder l ≤ 1 ∧
        ∃ a b, l = a ++ b ∧ breaks d.inOrder a = 0 ∧ breaks d.inOrder b = 0) ∧
      ∀ req x, req ∉ p → (∀ q, q ∈ p → (d.requests q).key ≠ x.key) →
        ∃ d', d.makeRequest req x = some d' ∧
          (d.currentRequest ≠ none → d'.currentRequest = d.currentRequest) := by
  obtain ⟨l, hl⟩ := h.queuedAs
  refine ⟨⟨l, hl.links, hl.links.nodup, hl.mem, hl.sweeps, sweeps_of_breaks hl.sweeps⟩,
    fun req x hfree hdistinct => ?_⟩
  obtain ⟨d', -, hadd, -, hhead⟩ := hl.makeRequest hfree hdistinct
  exact ⟨d', hadd, hhead⟩

/-- A request of device 3 for a sector. -/
def sectorRequest (rw : Rw) (sector : Nat) : Request :=
  { freshRequest with rqDev := 0x300, rqCmd := rw, rqActive := true, rqSector := sector }

/-- A device without requests. -/
def idleDev : BlkDev where
  currentRequest := none
  rqNext := fun _ => none
  requests := fun _ => freshRequest

/-- Two writes in order, and a read behind them. -/
theorem elevator_sweeps_three :
    ∃ d, Built d {2, 1, 0} ∧ Links d.rqNext d.currentRequest [0, 2, 1] ∧
      ((∃ l, Links d.rqNext d.currentRequest l ∧ l.Nodup ∧
          (∀ r, r ∈ l ↔ r ∈ ({2, 1, 0} : Finset RequestRef)) ∧ breaks d.inOrder l ≤ 1 ∧
          ∃ a b, l = a ++ b ∧ breaks d.inOrder a = 0 ∧ breaks d.inOrder b = 0) ∧
        ∀ req x, req ∉ ({2, 1, 0} : Finset RequestRef) →
          (∀ q, q ∈ ({2, 1, 0} : Finset RequestRef) → (d.requests q).key ≠ x.key) →
            ∃ d', d.makeRequest req x = some d' ∧
              (d.currentRequest ≠ none → d'.currentRequest = d.currentRequest)) := by
  have h₀ : Built idleDev ∅ := .empty rfl
  have h₁ := @Built.add _ _ _ 0 (sectorRequest .write 20) h₀ (by decide) (by decide) rfl
  have h₂ := @Built.add _ _ _ 1 (sectorRequest .read 4) h₁ (by decide) (by decide) rfl
  have h₃ := @Built.add _ _ _ 2 (sectorRequest .write 30) h₂ (by decide) (by decide) rfl
  exact ⟨_, h₃, ⟨rfl, rfl, rfl, rfl⟩, elevator_sweeps h₃⟩

end Buffer
end Elks
