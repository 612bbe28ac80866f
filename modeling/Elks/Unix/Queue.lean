import Elks.Lib.Chain
import Elks.Unix.Sockets

/-!
# The queue of a listening socket (net/socket.c, net/unix/af_unix.c)

`sock_awaitconn` puts a socket at the end of the queue of the server, and `unix_accept`
takes the socket at the head.

* `Net.Queue` says what the links from `iconn` through `next` should be;
* `enqueue_links`, `unlink_links` and `releasePeers_links` run the three loops over it;
* `Net.Queues` has every pending connection on the queue of its server, and is kept by
  each way in which the sockets change.
-/

namespace Elks
namespace Unix

open Lib
open Function (update update_eq_self update_of_ne update_self)

section Definitions

/-- An open socket that is connecting. -/
def Net.Pending (n : Net) (k : Sock) : Prop :=
  n.opened k = true ∧ n.state k = .connecting

/-- An open socket that is listening. -/
def Net.Listening (n : Net) (k : Sock) : Prop :=
  n.opened k = true ∧ n.acceptcon k = true

/-- The queue of `S` is `l`: it ends, and has exactly the sockets that are connecting to
`S`, in the order in which they came. -/
structure Net.Queue (n : Net) (S : Sock) (l : List Sock) : Prop where
  links : Links n.next (n.iconn S) l
  mem : ∀ k, k ∈ l ↔ n.Pending k ∧ n.conn k = some S
  order : l.Pairwise fun i j => n.stamp i < n.stamp j

end Definitions

section Loops

variable {s : State} {k serv : Sock} {l a b : List Sock} {o : Option Sock} {n : Nat}

theorem lastOf_links {a : List Sock} {i j : Sock} (hl : Links s.next (some i) (a ++ [j]))
    (hn : (a ++ [j]).length ≤ n) : s.lastOf n i = some j := by
  induction a generalizing i n with
  | nil =>
      obtain ⟨hi, hend⟩ := hl
      have hnone : s.next j = none := hend
      cases n with
      | zero => simp at hn
      | succ n =>
          rw [Option.some.inj hi, State.lastOf, hnone]
  | cons x a ih =>
      obtain ⟨hi, htail⟩ := hl
      have hx : i = x := Option.some.inj hi
      subst hx
      cases n with
      | zero => simp at hn
      | succ n =>
          have hlen : (a ++ [j]).length ≤ n := by
            simp only [List.cons_append, List.length_cons] at hn
            omega
          rw [State.lastOf]
          cases hnext : s.next i with
          | none =>
              rw [hnext] at htail
              cases a with
              | nil => exact absurd htail.1 (by simp)
              | cons y a => exact absurd htail.1 (by simp)
          | some y =>
              rw [hnext] at htail
              exact ih htail hlen

theorem prevOf_links {p : Sock} (hl : Links s.next o (a ++ p :: k :: b))
    (hn : (a ++ [p]).length ≤ n) : s.prevOf k n o = some p := by
  induction a generalizing o n with
  | nil =>
      obtain ⟨ho, hp, _⟩ := hl
      cases n with
      | zero => simp at hn
      | succ n => rw [ho, State.prevOf, if_pos hp]
  | cons x a ih =>
      have hnodup := hl.nodup
      obtain ⟨ho, htail⟩ := hl
      cases n with
      | zero => simp at hn
      | succ n =>
          have hlen : (a ++ [p]).length ≤ n := by
            simp only [List.cons_append, List.length_cons] at hn
            omega
          have hne : s.next x ≠ some k := by
            intro hx
            rw [hx] at htail
            -- `k` would be the first socket after `x` as well as the one after `p`
            cases a with
            | nil =>
                have hkp : k = p := Option.some.inj htail.1
                subst hkp
                simp at hnodup
            | cons y a =>
                have hky : k = y := Option.some.inj htail.1
                subst hky
                simp at hnodup
          rw [ho, State.prevOf, if_neg hne]
          exact ih htail hlen

theorem links_length (hl : Links s.next o l) : l.length ≤ NR_INODE := by
  have hle := hl.length_le
  rwa [Fintype.card_fin] at hle

theorem releasePeers_links (hl : Links s.next o l) (hn : l.length ≤ n) :
    ∃ aw, s.releasePeers n o =
      some { s with
        state := fun i => if i ∈ l then .disconnecting else s.state i
        awake := aw } := by
  induction l generalizing s o n with
  | nil =>
      have ho : o = none := hl
      refine ⟨s.awake, ?_⟩
      rw [ho]
      cases n with
      | zero => simp [State.releasePeers]
      | succ n => simp [State.releasePeers]
  | cons p l ih =>
      obtain ⟨ho, htail⟩ := hl
      cases n with
      | zero => simp at hn
      | succ n =>
          have hlen : l.length ≤ n := by
            simp only [List.length_cons] at hn
            omega
          obtain ⟨aw, hrest⟩ := ih (s := s.releasePeer p) htail hlen
          refine ⟨aw, ?_⟩
          have hstate : (fun i => if i ∈ l then SockState.disconnecting
              else (s.releasePeer p).state i) =
              fun i => if i ∈ p :: l then .disconnecting else s.state i := by
            funext i
            by_cases hi : i ∈ l
            · rw [if_pos hi, if_pos (List.mem_cons_of_mem p hi)]
            · rw [if_neg hi]
              by_cases hp : i = p
              · subst hp
                rw [if_pos List.mem_cons_self]
                exact update_self i _ s.state
              · rw [if_neg (by simp [hp, hi])]
                exact update_of_ne hp _ s.state
          rw [ho, State.releasePeers, hrest, hstate]
          rfl

theorem enqueue_links (hl : Links s.next (s.iconn serv) l) (hk : k ∉ l) :
    ∃ nx ic, s.enqueue k serv = some { s with next := nx, iconn := ic } ∧
      Links nx (ic serv) (l ++ [k]) ∧ (∀ S, S ≠ serv → ic S = s.iconn S) ∧
      ∀ i, i ∉ l → i ≠ k → nx i = s.next i := by
  have hnone : Links (update s.next k none) (s.iconn serv) l :=
    (linksTo_update hk).mpr hl
  have hlen := links_length hl
  rcases List.eq_nil_or_concat' l with rfl | ⟨a, j, rfl⟩
  · have hempty : s.iconn serv = none := hl
    refine ⟨update s.next k none, update s.iconn serv (some k), ?_, ?_, ?_, ?_⟩
    · rw [State.enqueue]
      dsimp only
      rw [hempty]
    · rw [update_self]
      refine ⟨rfl, ?_⟩
      rw [update_self]
      rfl
    · exact fun S hS => update_of_ne hS _ s.iconn
    · exact fun i _ hi => update_of_ne hi none s.next
  · have hj : j ≠ k := by
      rintro rfl
      exact hk (by simp)
    obtain ⟨first, hfirst⟩ : ∃ first, s.iconn serv = some first := by
      cases a with
      | nil => exact ⟨j, hl.1⟩
      | cons x a => exact ⟨x, hl.1⟩
    have hlast : State.lastOf { s with next := update s.next k none } NR_INODE first =
        some j := by
      rw [hfirst] at hnone
      exact lastOf_links hnone hlen
    have hja : j ∉ a := fun h => List.disjoint_of_nodup_append hl.nodup h (by simp)
    refine ⟨update (update s.next k none) j (some k), s.iconn, ?_, ?_, ?_, ?_⟩
    · rw [State.enqueue]
      dsimp only
      rw [hfirst]
      dsimp only
      rw [hlast]
    · refine hnone.snoc ?_ (update_self j _ _) ?_
      · intro i hi
        have hij : i ≠ j := by
          rintro rfl
          exact hja hi
        exact update_of_ne hij _ _
      · rw [update_of_ne (Ne.symm hj)]
        exact update_self k none s.next
    · exact fun S _ => rfl
    · intro i hi hik
      have hij : i ≠ j := by
        rintro rfl
        exact hi (by simp)
      rw [update_of_ne hij, update_of_ne hik]

theorem unlink_links (hl : Links s.next (s.iconn serv) (a ++ k :: b)) :
    ∃ nx ic, s.unlink k serv = some { s with next := nx, iconn := ic } ∧
      Links nx (ic serv) (a ++ b) := by
  have hlen := links_length hl
  rcases List.eq_nil_or_concat' a with rfl | ⟨a, p, rfl⟩
  · have hfirst : s.iconn serv = some k := hl.1
    refine ⟨s.next, update s.iconn serv (s.next k), ?_, ?_⟩
    · rw [State.unlink, if_pos hfirst]
    · rw [update_self]
      exact hl.2
  · have hl' : Links s.next (s.iconn serv) (a ++ p :: k :: b) := by
      simpa using hl
    have hfirst : s.iconn serv ≠ some k := by
      intro hfirst
      have hnodup := hl'.nodup
      cases a with
      | nil =>
          have hkp : k = p := Option.some.inj (hfirst.symm.trans hl'.1)
          subst hkp
          simp at hnodup
      | cons x a =>
          have hkx : k = x := Option.some.inj (hfirst.symm.trans hl'.1)
          subst hkx
          simp at hnodup
    have hlast : s.prevOf k NR_INODE (s.iconn serv) = some p := by
      refine prevOf_links hl' ?_
      simp only [List.length_append, List.length_cons, List.length_nil] at hlen ⊢
      omega
    refine ⟨update s.next p (s.next k), s.iconn, ?_, ?_⟩
    · rw [State.unlink, if_neg hfirst, hlast]
    · have hby := hl'.bypass
      simpa using hby

end Loops

section Queues

/-- Every pending connection is on the queue of its server. -/
structure Net.Queues (n : Net) : Prop where
  opened : ∀ k, n.opened k = true → n.live k = true
  queue : ∀ S, n.Listening S → ∃ l, n.Queue S l
  served : ∀ k, n.Pending k → ∃ S, n.conn k = some S ∧ n.Listening S
  fresh : ∀ k, n.live k = true → n.acceptcon k = false → n.iconn k = none
  clock : ∀ k, n.stamp k ≤ n.clock

variable {n n' : Net} {S k : Sock} {l l' : List Sock}

theorem Net.Queue.congr (h : n.Queue S l) (hfirst : n'.iconn S = n.iconn S)
    (hnext : ∀ i, i ∈ l → n'.next i = n.next i)
    (hmem : ∀ i, n'.Pending i ∧ n'.conn i = some S ↔ n.Pending i ∧ n.conn i = some S)
    (hstamp : ∀ i, i ∈ l → n'.stamp i = n.stamp i) :
    n'.Queue S l where
  links := by
    rw [hfirst]
    exact (linksTo_congr fun i hi => (hnext i hi).symm).mp h.links
  mem i := (h.mem i).trans (hmem i).symm
  order := by
    refine h.order.imp_of_mem ?_
    intro i j hi hj hlt
    rw [hstamp i hi, hstamp j hj]
    exact hlt

theorem Net.Queues.frame (h : n.Queues) (hopened : ∀ k, n'.opened k = true → n'.live k = true)
    (hlisten : ∀ S, n'.Listening S → n.Listening S ∧ n'.iconn S = n.iconn S ∧
      ∀ k, n.Pending k → n.conn k = some S → n'.Pending k)
    (hpend : ∀ k, n'.Pending k → n.Pending k)
    (hkeep : ∀ k, n.Pending k →
      n'.conn k = n.conn k ∧ n'.next k = n.next k ∧ n'.stamp k = n.stamp k)
    (hserv : ∀ k S, n'.Pending k → n.conn k = some S → n.Listening S → n'.Listening S)
    (hfresh : ∀ k, n'.live k = true → n'.acceptcon k = false → n'.iconn k = none)
    (hclock : ∀ k, n'.stamp k ≤ n'.clock) :
    n'.Queues where
  opened := hopened
  queue S hS := by
    obtain ⟨hold, hfirst, hstay⟩ := hlisten S hS
    obtain ⟨l, hl⟩ := h.queue S hold
    refine ⟨l, hl.congr hfirst ?_ ?_ ?_⟩
    · exact fun i hi => (hkeep i ((hl.mem i).mp hi).1).2.1
    · intro i
      constructor
      · rintro ⟨hi, hconn⟩
        rw [(hkeep i (hpend i hi)).1] at hconn
        exact ⟨hpend i hi, hconn⟩
      · rintro ⟨hi, hconn⟩
        refine ⟨hstay i hi hconn, ?_⟩
        rw [(hkeep i hi).1]
        exact hconn
    · exact fun i hi => (hkeep i ((hl.mem i).mp hi).1).2.2
  served k hk := by
    obtain ⟨S, hconn, hS⟩ := h.served k (hpend k hk)
    refine ⟨S, ?_, hserv k S hk hconn hS⟩
    rw [(hkeep k (hpend k hk)).1]
    exact hconn
  fresh := hfresh
  clock := hclock

theorem Net.Queues.refill (h : n.Queues) (hfree : n.live k = false) (hopened : n'.opened = n.opened)
    (hstamp : n'.stamp = n.stamp) (hclock : n'.clock = n.clock)
    (hlive : ∀ i, i ≠ k → n'.live i = n.live i)
    (hfields : ∀ i, i ≠ k → n'.state i = n.state i ∧ n'.acceptcon i = n.acceptcon i ∧
      n'.conn i = n.conn i ∧ n'.iconn i = n.iconn i ∧ n'.next i = n.next i)
    (hfresh : n'.live k = true → n'.iconn k = none) :
    n'.Queues := by
  have hne : ∀ i, n.opened i = true → i ≠ k := by
    rintro i hi rfl
    rw [h.opened i hi] at hfree
    cases hfree
  have hpend : ∀ i, n'.Pending i ↔ n.Pending i := by
    intro i
    unfold Net.Pending
    rw [hopened]
    constructor
    · rintro ⟨hi, hst⟩
      rw [(hfields i (hne i hi)).1] at hst
      exact ⟨hi, hst⟩
    · rintro ⟨hi, hst⟩
      refine ⟨hi, ?_⟩
      rw [(hfields i (hne i hi)).1]
      exact hst
  have hlisten : ∀ i, n'.Listening i ↔ n.Listening i := by
    intro i
    unfold Net.Listening
    rw [hopened]
    constructor
    · rintro ⟨hi, hacc⟩
      rw [(hfields i (hne i hi)).2.1] at hacc
      exact ⟨hi, hacc⟩
    · rintro ⟨hi, hacc⟩
      refine ⟨hi, ?_⟩
      rw [(hfields i (hne i hi)).2.1]
      exact hacc
  refine h.frame ?_ ?_ ?_ ?_ ?_ ?_ ?_
  · intro i hi
    rw [hopened] at hi
    rw [hlive i (hne i hi)]
    exact h.opened i hi
  · intro S hS
    have hold := (hlisten S).mp hS
    exact ⟨hold, (hfields S (hne S hold.1)).2.2.2.1, fun i hi _ => (hpend i).mpr hi⟩
  · exact fun i => (hpend i).mp
  · intro i hi
    obtain ⟨_, _, hconn, _, hnext⟩ := hfields i (hne i hi.1)
    exact ⟨hconn, hnext, congrFun hstamp i⟩
  · exact fun i S _ _ hS => (hlisten S).mpr hS
  · intro i hi hacc
    by_cases hik : i = k
    · subst hik
      exact hfresh hi
    · obtain ⟨_, hacc', _, hfirst, _⟩ := hfields i hik
      rw [hlive i hik] at hi
      rw [hacc'] at hacc
      rw [hfirst]
      exact h.fresh i hi hacc
  · intro i
    rw [hstamp, hclock]
    exact h.clock i

theorem Net.Queues.part (h : n.Queues) (hk : ¬ n.Pending k) :
    Net.Queues { n with state := update n.state k .disconnecting } := by
  have hpend : ∀ i, Net.Pending { n with state := update n.state k .disconnecting } i ↔
      n.Pending i := by
    intro i
    unfold Net.Pending
    by_cases hik : i = k
    · subst hik
      simp only [update_self]
      exact ⟨fun hi => by simp at hi, fun hi => absurd hi hk⟩
    · simp only [update_of_ne hik]
  exact h.frame h.opened (fun S hS => ⟨hS, rfl, fun i hi _ => (hpend i).mpr hi⟩)
    (fun i => (hpend i).mp) (fun i _ => ⟨rfl, rfl, rfl⟩) (fun i S _ _ hS => hS) h.fresh h.clock

theorem Net.Queues.free (h : n.Queues) (hk : n.opened k = false) :
    Net.Queues { n with live := update n.live k false } := by
  refine h.frame ?_ (fun S hS => ⟨hS, rfl, fun i hi _ => hi⟩) (fun i hi => hi)
    (fun i _ => ⟨rfl, rfl, rfl⟩) (fun i S _ _ hS => hS) ?_ h.clock
  · intro i hi
    have hik : i ≠ k := by
      rintro rfl
      rw [hk] at hi
      cases hi
    exact (update_of_ne hik _ _).trans (h.opened i hi)
  · intro i hi
    by_cases hik : i = k
    · subst hik
      simp at hi
    · exact h.fresh i ((update_of_ne hik _ _).symm.trans hi)

theorem Net.Queues.open (h : n.Queues) (hlive : n.live k = true) (hstate : n.state k ≠ .connecting)
    (hacc : n.acceptcon k = false) :
    Net.Queues { n with opened := update n.opened k true } := by
  have hpend : ∀ i, Net.Pending { n with opened := update n.opened k true } i →
      n.Pending i := by
    rintro i ⟨hi, hst⟩
    have hik : i ≠ k := by
      rintro rfl
      exact hstate hst
    exact ⟨(update_of_ne hik _ _).symm.trans hi, hst⟩
  have hopen : ∀ i, n.opened i = true → update n.opened k true i = true := by
    intro i hi
    by_cases hik : i = k
    · subst hik
      exact update_self i true n.opened
    · exact (update_of_ne hik _ _).trans hi
  refine h.frame ?_ ?_ hpend (fun i _ => ⟨rfl, rfl, rfl⟩) ?_ h.fresh h.clock
  · intro i hi
    by_cases hik : i = k
    · subst hik
      exact hlive
    · exact h.opened i ((update_of_ne hik _ _).symm.trans hi)
  · rintro S ⟨hS, hSacc⟩
    have hSk : S ≠ k := by
      rintro rfl
      exact absurd hSacc (by simp [hacc])
    exact ⟨⟨(update_of_ne hSk _ _).symm.trans hS, hSacc⟩, rfl,
      fun i hi _ => ⟨hopen i hi.1, hi.2⟩⟩
  · exact fun i S _ _ hS => ⟨hopen S hS.1, hS.2⟩

theorem Net.Queues.listen (h : n.Queues) (hk : n.opened k = true) :
    Net.Queues { n with acceptcon := update n.acceptcon k true } := by
  by_cases hacc : n.acceptcon k = true
  · have hsame : update n.acceptcon k true = n.acceptcon := by
      rw [← hacc]
      exact update_eq_self k n.acceptcon
    rw [hsame]
    exact h
  · have hacc' : n.acceptcon k = false := by simpa using hacc
    have hnone : ∀ i, n.Pending i → n.conn i ≠ some k := by
      intro i hi hconn
      obtain ⟨S, hS, hlist⟩ := h.served i hi
      have hSk : S = k := Option.some.inj (hS.symm.trans hconn)
      subst hSk
      exact hacc hlist.2
    refine ⟨h.opened, ?_, ?_, ?_, h.clock⟩
    · rintro S ⟨hS, hSacc⟩
      by_cases hSk : S = k
      · subst hSk
        refine ⟨[], ?_, ?_, List.Pairwise.nil⟩
        · exact h.fresh S (h.opened S hk) hacc'
        · exact fun i => ⟨fun hi => by simp at hi, fun hi => absurd hi.2 (hnone i hi.1)⟩
      · have hSacc' : n.acceptcon S = true := (update_of_ne hSk _ _).symm.trans hSacc
        obtain ⟨l, hl⟩ := h.queue S ⟨hS, hSacc'⟩
        exact ⟨l, hl.congr rfl (fun i _ => rfl) (fun i => Iff.rfl) fun i _ => rfl⟩
    · intro i hi
      obtain ⟨S, hS, hlist⟩ := h.served i hi
      refine ⟨S, hS, hlist.1, ?_⟩
      by_cases hSk : S = k
      · subst hSk
        exact update_self S true n.acceptcon
      · exact (update_of_ne hSk _ _).trans hlist.2
    · intro i hi hi'
      have hik : i ≠ k := by
        rintro rfl
        simp at hi'
      exact h.fresh i hi ((update_of_ne hik _ _).symm.trans hi')

theorem Net.Queues.enqueue {nx ic : Sock → Option Sock} (h : n.Queues) (hk : n.opened k = true)
    (hnot : ¬ n.Pending k) (hS : n.Listening S) (hl : n.Queue S l)
    (hlinks : Links nx (ic S) (l ++ [k])) (hic : ∀ S', S' ≠ S → ic S' = n.iconn S')
    (hnx : ∀ i, i ∉ l → i ≠ k → nx i = n.next i) :
    Net.Queues { n with
      next := nx
      iconn := ic
      state := update n.state k .connecting
      conn := update n.conn k (some S)
      clock := n.clock + 1
      stamp := update n.stamp k (n.clock + 1) } := by
  set n' : Net := { n with
    next := nx
    iconn := ic
    state := update n.state k .connecting
    conn := update n.conn k (some S)
    clock := n.clock + 1
    stamp := update n.stamp k (n.clock + 1) } with hn'
  have hself : n'.Pending k := ⟨hk, update_self k _ n.state⟩
  have hpend : ∀ i, i ≠ k → (n'.Pending i ↔ n.Pending i) := by
    intro i hik
    refine and_congr_right fun _ => ?_
    rw [hn']
    dsimp only
    rw [update_of_ne hik]
  have hconn : ∀ i, i ≠ k → n'.conn i = n.conn i := fun i hik => update_of_ne hik _ _
  have hkl : ∀ S' l', n.Queue S' l' → k ∉ l' := fun S' l' hq hmem => hnot ((hq.mem k).mp hmem).1
  refine ⟨h.opened, ?_, ?_, ?_, ?_⟩
  · intro S' hS'
    by_cases hSS : S' = S
    · subst hSS
      refine ⟨l ++ [k], hlinks, ?_, ?_⟩
      · intro i
        rw [List.mem_append, List.mem_singleton]
        by_cases hik : i = k
        · subst hik
          exact ⟨fun _ => ⟨hself, update_self i _ n.conn⟩, fun _ => Or.inr rfl⟩
        · rw [hpend i hik, hconn i hik, hl.mem i]
          exact or_iff_left hik
      · refine List.pairwise_append.mpr ⟨?_, List.pairwise_singleton _ _, ?_⟩
        · refine hl.order.imp_of_mem ?_
          intro i j hi hj hlt
          have hik : i ≠ k := fun he => hkl S' l hl (he ▸ hi)
          have hjk : j ≠ k := fun he => hkl S' l hl (he ▸ hj)
          rw [hn']
          dsimp only
          rw [update_of_ne hik, update_of_ne hjk]
          exact hlt
        · intro i hi j hj
          have hik : i ≠ k := fun he => hkl S' l hl (he ▸ hi)
          rw [List.mem_singleton.mp hj, hn']
          dsimp only
          rw [update_of_ne hik, update_self]
          exact Nat.lt_succ_of_le (h.clock i)
    · obtain ⟨l', hl'⟩ := h.queue S' hS'
      have hik : ∀ i, i ∈ l' → i ≠ k := fun i hi he => hkl S' l' hl' (he ▸ hi)
      refine ⟨l', hl'.congr (hic S' hSS) ?_ ?_ ?_⟩
      · intro i hi
        refine hnx i ?_ (hik i hi)
        intro hil
        have h₁ := ((hl.mem i).mp hil).2
        have h₂ := ((hl'.mem i).mp hi).2
        exact hSS (Option.some.inj (h₂.symm.trans h₁))
      · intro i
        by_cases he : i = k
        · subst he
          refine ⟨fun hi => ?_, fun hi => absurd hi.1 hnot⟩
          have hSi : some S = some S' := (update_self i (some S) n.conn).symm.trans hi.2
          exact absurd (Option.some.inj hSi).symm hSS
        · rw [hpend i he, hconn i he]
      · exact fun i hi => update_of_ne (hik i hi) _ _
  · intro i hi
    by_cases hik : i = k
    · subst hik
      exact ⟨S, update_self i _ n.conn, hS⟩
    · obtain ⟨S', hS', hlist⟩ := h.served i ((hpend i hik).mp hi)
      exact ⟨S', (hconn i hik).trans hS', hlist⟩
  · intro i hi hacc
    have hiS : i ≠ S := by
      rintro rfl
      exact absurd hS.2 (by simp [show n.acceptcon i = false from hacc])
    exact (hic i hiS).trans (h.fresh i hi hacc)
  · intro i
    rw [hn']
    dsimp only
    by_cases hik : i = k
    · rw [hik, update_self]
    · rw [update_of_ne hik]
      exact Nat.le_succ_of_le (h.clock i)

theorem Net.Queues.accept {c new : Sock} (h : n.Queues) (hS : n.Listening S)
    (hl : n.Queue S (c :: l)) (hnew : n.opened new = false) :
    Net.Queues { n with
      iconn := update n.iconn S (n.next c)
      next := update n.next c none
      conn := update (update n.conn new (some c)) c (some new)
      state := update (update n.state c .connected) new .connected } := by
  set n' : Net := { n with
    iconn := update n.iconn S (n.next c)
    next := update n.next c none
    conn := update (update n.conn new (some c)) c (some new)
    state := update (update n.state c .connected) new .connected } with hn'
  have hc := (hl.mem c).mp List.mem_cons_self
  have hcn : c ≠ new := by
    rintro rfl
    rw [hc.1.1] at hnew
    cases hnew
  have hnewn : ∀ i, n.opened i = true → i ≠ new := by
    rintro i hi rfl
    rw [hi] at hnew
    cases hnew
  have hcgone : ¬ n'.Pending c := by
    rintro ⟨_, hst⟩
    rw [hn'] at hst
    dsimp only at hst
    rw [update_of_ne hcn, update_self] at hst
    cases hst
  have hpend : ∀ i, i ≠ c → (n'.Pending i ↔ n.Pending i) := by
    intro i hic
    refine and_congr_right fun hi => ?_
    rw [hn']
    dsimp only
    rw [update_of_ne (hnewn i hi), update_of_ne hic]
  have hconn : ∀ i, i ≠ c → n.Pending i → n'.conn i = n.conn i := by
    intro i hic hi
    rw [hn']
    dsimp only
    rw [update_of_ne hic, update_of_ne (hnewn i hi.1)]
  have hmem : ∀ S' i, i ≠ c →
      (n'.Pending i ∧ n'.conn i = some S' ↔ n.Pending i ∧ n.conn i = some S') := by
    intro S' i hic
    rw [hpend i hic]
    exact and_congr_right fun hi => by rw [hconn i hic hi]
  have hcl : c ∉ l := (List.nodup_cons.mp hl.links.nodup).1
  refine ⟨h.opened, ?_, ?_, ?_, h.clock⟩
  · intro S' hS'
    by_cases hSS : S' = S
    · subst hSS
      refine ⟨l, ?_, ?_, (List.pairwise_cons.mp hl.order).2⟩
      · rw [hn']
        dsimp only
        rw [update_self]
        exact (linksTo_update hcl).mpr hl.links.2
      · intro i
        by_cases hic : i = c
        · subst hic
          exact ⟨fun hi => absurd hi hcl, fun hi => absurd hi.1 hcgone⟩
        · rw [hmem S' i hic, ← hl.mem i, List.mem_cons]
          exact (or_iff_right hic).symm
    · obtain ⟨l', hl'⟩ := h.queue S' hS'
      have hcl' : c ∉ l' := by
        intro hmem'
        have h₁ := ((hl'.mem c).mp hmem').2
        exact hSS (Option.some.inj (h₁.symm.trans hc.2))
      refine ⟨l', hl'.congr (update_of_ne hSS _ _) ?_ ?_ fun i _ => rfl⟩
      · intro i hi
        have hic : i ≠ c := fun he => hcl' (he ▸ hi)
        exact update_of_ne hic _ _
      · intro i
        by_cases hic : i = c
        · subst hic
          refine ⟨fun hi => absurd hi.1 hcgone, fun hi => ?_⟩
          exact absurd ((hl'.mem i).mpr hi) hcl'
        · exact hmem S' i hic
  · intro i hi
    have hic : i ≠ c := fun he => hcgone (he ▸ hi)
    have hi' := (hpend i hic).mp hi
    obtain ⟨S', hS', hlist⟩ := h.served i hi'
    exact ⟨S', (hconn i hic hi').trans hS', hlist⟩
  · intro i hi hacc
    have hiS : i ≠ S := by
      rintro rfl
      exact absurd hS.2 (by simp [show n.acceptcon i = false from hacc])
    exact (update_of_ne hiS _ _).trans (h.fresh i hi hacc)

theorem Net.Queues.close (st : Sock → SockState) (h : n.Queues)
    (hl : ∀ i, i ∈ l ↔ n.Pending i ∧ n.conn i = some k) (hk : n.Pending k → n.conn k = some k)
    (hst : ∀ i, i ∈ l → st i ≠ .connecting) (hkeep : ∀ i, i ∉ l → i ≠ k → st i = n.state i) :
    Net.Queues { n with opened := update n.opened k false, state := st } := by
  set n' : Net := { n with opened := update n.opened k false, state := st } with hn'
  have hopen : ∀ i, n'.opened i = true ↔ i ≠ k ∧ n.opened i = true := by
    intro i
    rw [hn']
    dsimp only
    by_cases hik : i = k
    · subst hik
      simp
    · rw [update_of_ne hik]
      exact (and_iff_right hik).symm
  have hpend : ∀ i, n'.Pending i ↔ n.Pending i ∧ i ≠ k ∧ i ∉ l := by
    intro i
    constructor
    · rintro ⟨hi, hsti⟩
      obtain ⟨hik, hi⟩ := (hopen i).mp hi
      have hil : i ∉ l := fun hmem => hst i hmem hsti
      exact ⟨⟨hi, (hkeep i hil hik).symm.trans hsti⟩, hik, hil⟩
    · rintro ⟨⟨hi, hsti⟩, hik, hil⟩
      exact ⟨(hopen i).mpr ⟨hik, hi⟩, (hkeep i hil hik).trans hsti⟩
  refine h.frame ?_ ?_ (fun i hi => ((hpend i).mp hi).1) (fun i _ => ⟨rfl, rfl, rfl⟩) ?_ h.fresh
    h.clock
  · exact fun i hi => h.opened i ((hopen i).mp hi).2
  · rintro S ⟨hS, hacc⟩
    obtain ⟨hSk, hSopen⟩ := (hopen S).mp hS
    refine ⟨⟨hSopen, hacc⟩, rfl, ?_⟩
    intro i hi hconn
    refine (hpend i).mpr ⟨hi, ?_, ?_⟩
    · rintro rfl
      exact hSk (Option.some.inj (hconn.symm.trans (hk hi)))
    · intro hil
      exact hSk (Option.some.inj (hconn.symm.trans ((hl i).mp hil).2))
  · intro i S hi hconn hS
    obtain ⟨hpi, hik, hil⟩ := (hpend i).mp hi
    have hSk : S ≠ k := by
      rintro rfl
      exact hil ((hl i).mpr ⟨hpi, hconn⟩)
    exact ⟨(hopen S).mpr ⟨hSk, hS.1⟩, hS.2⟩

end Queues

end Unix
end Elks
