import Elks.Unix.Pairs
import Elks.Unix.Pending

/-!
# Connected sockets (net/socket.c, net/unix/af_unix.c)

Between `unix_accept` and the end of `unix_connect` the client is connected and its
`peerupd` is still `NULL`.  A client that does not block never comes to the end of
`unix_connect`, and a client whose server is closed comes to it with nobody at the other
end.

**Result.**  `peers_linked`: in a run whose steps are careful, the connected sockets refer to
each other in exactly the states in which no accepted client has yet to go on; the
reference counts are right in all of them.
-/

namespace Elks
namespace Unix

open Lib
open Function (update update_eq_self update_of_ne update_self)

section Statement

/-- A task waits in a connect of the socket. -/
def State.Waiting (s : State) (k : Sock) : Prop :=
  ∃ t serv n, s.pc t = .connect k serv n

/-- `peerupd` of the socket is the data of its peer. -/
def State.Mated (s : State) (k : Sock) : Prop :=
  ∃ p u v, s.conn k = some p ∧ s.data k = some u ∧ s.peerupd u = some v ∧ s.data p = some v

/-- The references are counted, an entry without any is referred to by nobody, and only
attempts that a server has accepted have returned 0. -/
structure State.Counted (s : State) : Prop where
  count : ∀ u, s.refcnt u ≠ 0 →
    s.refcnt u = (if s.socket u = none then 0 else 1) + s.holders u
  unused : ∀ u, s.refcnt u = 0 → s.socket u = none ∧ (∀ v, s.holding v ≠ some u) ∧
    ∀ k, s.live k = true → s.data k ≠ some u
  honest : ∀ n ∈ s.returned, n ∈ s.accepted

/-- Besides, connected sockets refer to each other. -/
structure State.Linked (s : State) : Prop extends s.Counted where
  joined : ∀ k, s.live k = true → s.state k = .connected → s.Mated k

/-- No accepted client has yet to go on. -/
def State.Settled (s : State) : Prop :=
  ∀ k, s.state k = .connected → ¬ s.Waiting k

/-- A server may take the client at the head of its queue though no task waits there. -/
def State.TakesAbsent (s : State) (k : Sock) : Prop :=
  ∃ c, s.iconn k = some c ∧ ¬ s.Waiting c

/-- The steps that leave a connection with one end, or touch one that is not theirs. -/
def State.Severs (s : State) (l : Label) : Prop :=
  s.fault = none ∧
    match l with
    | .inode t slot _ =>
        -- a client that does not block is accepted
        ∃ k nonblock, s.pc t = .allocating k nonblock ∧ s.live slot = false ∧
          s.unixDataAlloc ≠ none ∧ s.TakesAbsent k
    | .run t _ =>
        (∃ k new, s.pc t = .accept k new ∧ s.awake t = true ∧ s.signal t = false ∧
          s.TakesAbsent k) ∨
        -- the server has been closed, and the connect comes to its end all the same
        (∃ k serv n, s.pc t = .connect k serv n ∧ s.awake t = true ∧
          s.state k = .disconnecting ∧ n ∉ s.accepted) ∨
        -- the socket has been connected by another task meanwhile
        (∃ k u nonblock serv, s.pc t = .found k u nonblock ∧ s.socket u = some serv ∧
          s.acceptcon serv = true ∧ s.state k ≠ .unconnected) ∨
        -- the slot of the peer serves for another socket
        ∃ k u p r, s.pc t = .release k u (some p) r ∧ s.live p = true ∧ s.conn p ≠ some k
    | _ => False

/-- A run without such a step, and without one that disturbs the queues. -/
def State.Careful : State → List Label → Prop
  | _, [] => True
  | s, l :: ls => ¬ s.Disturbs l ∧ ¬ s.Severs l ∧ (s.step l).Careful ls

end Statement

section Operations

variable {s s' : State} {t : Task} {k : Sock} {q : Pc} {nonblock fd : Bool} {size n : Nat} {r : Int}
  {peer : Option Sock} {serv new : Sock} {upd : Option Upd} {len protocol : Int} {family : Nat}

/-- The references are counted, and connected sockets are in pairs. -/
structure State.Ends (s : State) : Prop where
  books : s.Books
  pairs : s.Pairs none none

theorem ends_plain (hb : s.Books) (h : s.Pairs (some t) none) (hs : s.Same s')
    (hsocket : s'.socket = s.socket) (hrefcnt : s'.refcnt = s.refcnt)
    (hpc : s'.pc = update s.pc t q) (hq : q.plain = true) :
    s'.Ends where
  books := hb.congr hs.live hs.data hsocket hrefcnt hs.peerupd
  pairs := h.move hs hpc (brings_plain hq)

theorem finish_ends (hb : s.Books) (h : s.Pairs (some t) none) :
    (s.finish t r).Ends :=
  ends_plain hb h ⟨rfl, rfl, rfl, rfl, rfl, rfl, rfl, rfl, rfl⟩ rfl rfl rfl rfl

/-- The two halves of the end of `sock_release` touch different fields. -/
theorem release_comm :
    (s.unixRelease k upd).releaseConn peer = (s.releaseConn peer).unixRelease k upd := by
  cases upd with
  | none => rfl
  | some u =>
      cases peer with
      | none => rfl
      | some p =>
          have hsame : (s.releasePeer p).peerupd u = s.peerupd u := rfl
          cases hp : s.peerupd u with
          | none =>
              rw [hp] at hsame
              simp only [State.releaseConn, State.unixRelease, hp, hsame]
              rfl
          | some v =>
              rw [hp] at hsame
              simp only [State.releaseConn, State.unixRelease, hp, hsame]
              rfl

theorem releaseTail_ends (hb : s.Books) (h : s.Pairs (some t) (peer.map fun p => (k, p)))
    (hlive : s.live k = true) (hclosed : s.opened k = false) (hstate : s.state k ≠ .connected)
    (hidle : ∀ t', t' ≠ t → (s.pc t').own ≠ some k ∧ (s.pc t').sock ≠ some k)
    (hpeer : ∀ p, peer = some p → s.live p = true → s.conn p = some k) (hupd : upd = s.data k) :
    (s.releaseTail t k upd peer r).Ends := by
  have hmine : ∀ i, s.live i = true → s.state i = .connected → s.conn i = some k →
      peer = some i := by
    intro i hi hsi hci
    obtain ⟨p, hp, _, hback, hcase⟩ := h.paired i hi hsi
    have hpk : p = k := Option.some.inj (hp.symm.trans hci)
    subst hpk
    rcases hcase with hcp | he | ⟨t', u, r', hne, hrel⟩
    · exact absurd hcp hstate
    · cases peer with
      | none => cases he
      | some j =>
          have hji : j = i := congrArg Prod.snd (Option.some.inj he)
          rw [hji]
    · have ht : t' ≠ t := fun ht => hne (congrArg some ht)
      exact absurd (by rw [hrel]; rfl) (hidle t' ht).1
  have h₁ := releaseConn_pairs h hpeer hstate
  have hrest : (s.releaseConn peer).live = s.live ∧ (s.releaseConn peer).data = s.data ∧
      (s.releaseConn peer).conn = s.conn ∧ (s.releaseConn peer).socket = s.socket ∧
      (s.releaseConn peer).refcnt = s.refcnt ∧ (s.releaseConn peer).peerupd = s.peerupd ∧
      ∀ i, (s.releaseConn peer).state i = .connected →
        s.state i = .connected ∧ peer ≠ some i := by
    cases peer with
    | none => exact ⟨rfl, rfl, rfl, rfl, rfl, rfl, fun i hi => ⟨hi, by simp⟩⟩
    | some p =>
        refine ⟨rfl, rfl, rfl, rfl, rfl, rfl, ?_⟩
        intro i hi
        by_cases hip : i = p
        · rw [hip] at hi
          have hdis : SockState.disconnecting = .connected :=
            (update_self p _ s.state).symm.trans hi
          cases hdis
        · refine ⟨(update_of_ne hip _ s.state).symm.trans hi, ?_⟩
          simpa using Ne.symm hip
  obtain ⟨hli, hda, hco, hso, hre, hpu, hcon⟩ := hrest
  obtain ⟨hopen, hpc, _⟩ := releaseConn_rest (s := s) peer
  have hno : ∀ i, (s.releaseConn peer).live i = true →
      (s.releaseConn peer).state i = .connected → (s.releaseConn peer).conn i ≠ some k := by
    intro i hi hsi hci
    obtain ⟨hsi', hpi⟩ := hcon i hsi
    rw [hli] at hi
    rw [hco] at hci
    exact hpi (hmine i hi hsi' hci)
  have h₂ : ((s.releaseConn peer).unixRelease k upd).Pairs (some t) none := by
    refine unixRelease_pairs h₁ ?_ ?_ ?_ hno
    · rw [hopen]
      exact hclosed
    · exact fun hsi => hstate (hcon k hsi).1
    · rw [hpc]
      exact fun t' ht => (hidle t' ht).1
  have hb₁ : (s.releaseConn peer).Books := hb.congr hli hda hso hre hpu
  have hb₂ : ((s.releaseConn peer).unixRelease k upd).Books ∧
      ((s.releaseConn peer).unixRelease k upd).data k = none := by
    cases hu : s.data k with
    | none =>
        rw [hupd, hu]
        exact ⟨hb₁, (congrFun hda k).trans hu⟩
    | some u =>
        rw [hupd, hu]
        refine ⟨release_books hb₁ ((congrFun hli k).trans hlive) ((congrFun hda k).trans hu), ?_⟩
        rw [unixRelease_fields.2.1, update_self]
  have haside : (s.releaseConn peer).Aside ((s.releaseConn peer).unixRelease k upd) :=
    unixRelease_aside
  unfold State.releaseTail
  rw [release_comm]
  refine finish_ends (free_books hb₂.1 hb₂.2) (free_pairs h₂ ?_ ?_)
  · rw [haside.pc, hpc]
    exact hidle
  · rw [haside.net]
    exact hno

theorem sockRelease_ends {l : List Sock} (hb : s.Books) (h : s.Pairs (some t) none)
    (hl : Links s.next (s.iconn k) l) (hqueue : ∀ i, i ∈ l → s.state i = .connecting)
    (hk : s.Holds t k) (hidle : ∀ t', t' ≠ t → (s.pc t').sock ≠ some k) :
    (s.sockRelease t k r).Ends := by
  have hpeer : ∀ p, (if s.state k = .connected then s.conn k else none) = some p →
      s.live p = true → s.conn p = some k := by
    intro p hp _
    by_cases hcon : s.state k = .connected
    · rw [if_pos hcon] at hp
      obtain ⟨p', hp', _, hback, _⟩ := h.paired k hk.1 hcon
      rw [Option.some.inj (hp.symm.trans hp')]
      exact hback
    · rw [if_neg hcon] at hp
      cases hp
  have hmap : (if s.state k = .connected then (s.conn k).map fun p => (k, p) else none) =
      (if s.state k = .connected then s.conn k else none).map fun p => (k, p) := by
    split <;> rfl
  obtain ⟨aw, ⟨u, i, hu, _, _, he⟩ | ⟨_, he⟩⟩ := sockRelease_cases (t := t) (r := r) hl
  all_goals
    have hparted := parted_pairs aw h hqueue hk.2.2
    have hbooks : (s.parted k l aw).Books := hb.congr rfl rfl rfl rfl rfl
    have hstate : (s.parted k l aw).state k ≠ .connected := by
      unfold State.parted
      dsimp only
      split
      · exact fun hc => by cases hc
      · rename_i hnot
        push Not at hnot
        rw [hnot.2 rfl]
        exact fun hc => by cases hc
    rw [hmap] at hparted
    rw [he]
  · refine ⟨hbooks.congr rfl rfl rfl rfl rfl, ?_⟩
    refine hparted.move ⟨rfl, rfl, rfl, rfl, rfl, rfl, rfl, rfl, rfl⟩ rfl ⟨?_, ?_, ?_, ?_⟩
    · intro p k' hp
      cases hpeer' : (if s.state k = .connected then s.conn k else none) with
      | none =>
          rw [hpeer'] at hp
          cases hp
      | some j =>
          rw [hpeer'] at hp
          cases hp
          exact ⟨u, r, rfl⟩
    · exact fun k' serv n hp => by cases hp
    · exact fun k' new hp => by cases hp
    · intro k' u' p r' hp
      cases hp
      exact ⟨hk.1, hu, hstate⟩
  · refine releaseTail_ends hbooks hparted hk.1 hk.2.1 hstate ?_ hpeer ?_
    · exact fun t' ht => ⟨hk.2.2 t' ht, hidle t' ht⟩
    · change _ = s.data k
      cases hu : s.data k with
      | none => rfl
      | some u =>
          have hsock := hb.data k u hk.1 hu
          simp [hsock]

theorem getFd_ends (hb : s.Books) (h : s.Pairs (some t) none) (hk : s.Holds t k)
    (hidle : ∀ t', t' ≠ t → (s.pc t').sock ≠ some k) (hfirst : s.iconn k = none)
    (hdata : s.data k ≠ none) : (s.getFd t k fd).Ends := by
  unfold State.getFd
  split
  · exact finish_ends (hb.congr rfl rfl rfl rfl rfl) (open_pairs h hdata)
  · exact sockRelease_ends (l := []) hb h hfirst (by simp) hk hidle

theorem sockAlloc_holds (hq : s.Queues) (hc : s.Calls (some t)) (hfree : s.live k = false) :
    (s.sockAlloc k).Holds t k ∧ (∀ t', t' ≠ t → ((s.sockAlloc k).pc t').sock ≠ some k) ∧
      s.opened k = false := by
  have hdead : ∀ i, s.live i = true → i ≠ k := by
    rintro i hi rfl
    rw [hfree] at hi
    cases hi
  refine ⟨(sockAlloc_kept hq hc hfree).2.2, ?_, ?_⟩
  · intro t' ht hk
    exact hdead k (hq.opened k (hc.sock t' k (fun he => ht (Option.some.inj he)) hk)) rfl
  · by_contra hopen
    exact hdead k (hq.opened k (by simpa using hopen)) rfl

theorem create_ends (protocol : Int) (hb : s.Books) (h : s.Pairs (some t) none) (hq : s.Queues)
    (hc : s.Calls (some t)) (hfree : s.live k = false) :
    ((s.sockAlloc k).unixCreate k protocol).1.Books ∧
      ((s.sockAlloc k).unixCreate k protocol).1.Pairs (some t) none := by
  obtain ⟨hk, hidle, _⟩ := sockAlloc_holds hq hc hfree
  have hstate : (s.sockAlloc k).state k ≠ .connected := by
    simp [State.sockAlloc]
  refine ⟨create_books (alloc_books hb hfree) hk.1 (by simp [State.sockAlloc]), ?_⟩
  refine create_pairs (alloc_pairs h hq hfree) (alloc_books hb hfree) hk ?_ hstate
  intro t' ht serv n hcon
  exact hidle t' ht (by rw [hcon]; rfl)

theorem unixCreate_data (hr : ¬ (s.unixCreate k protocol).2 < 0) :
    (s.unixCreate k protocol).1.data k ≠ none := by
  unfold State.unixCreate at hr ⊢
  split
  · rename_i hp
    rw [if_pos hp] at hr
    simp [EINVAL] at hr
  · rename_i hp
    rw [if_neg hp] at hr
    cases halloc : s.unixDataAlloc with
    | none =>
        rw [halloc] at hr
        simp [ENOMEM] at hr
    | some u => simp

theorem sysSocket_ends (hb : s.Books) (h : s.Pairs (some t) none) (hq : s.Queues)
    (hc : s.Calls (some t)) (hfree : s.live k = false) : (s.sysSocket t k protocol fd).Ends := by
  obtain ⟨hk, hidle, _⟩ := sockAlloc_holds hq hc hfree
  obtain ⟨hb₁, h₁⟩ := create_ends protocol hb h hq hc hfree
  have haside : (s.sockAlloc k).Aside ((s.sockAlloc k).unixCreate k protocol).1 :=
    unixCreate_aside
  have hfirst : ((s.sockAlloc k).unixCreate k protocol).1.iconn k = none := by
    rw [haside.net]
    simp [State.sockAlloc]
  have hidle₁ : ∀ t', t' ≠ t →
      (((s.sockAlloc k).unixCreate k protocol).1.pc t').sock ≠ some k := by
    rw [haside.pc]
    exact hidle
  unfold State.sysSocket
  dsimp only
  split
  · exact sockRelease_ends (l := []) hb₁ h₁ hfirst (by simp) (haside.holds hk) hidle₁
  · rename_i hr
    exact getFd_ends hb₁ h₁ (haside.holds hk) hidle₁ hfirst (unixCreate_data hr)

theorem acceptTurn_ends (hb : s.Books) (h : s.Pairs (some t) none) (hq : s.Queues)
    (hc : s.Calls (some t)) (hS : s.Listening k) (hnew : s.Holds t new)
    (hidle : ∀ t', t' ≠ t → (s.pc t').sock ≠ some new) (hacc : s.acceptcon new = false)
    (hstate : s.state new = .unconnected) (hconn : s.conn new = none) (hdata : s.data new ≠ none)
    (hwait : ∀ c, s.iconn k = some c → ∃ t' serv n, t' ≠ t ∧ s.pc t' = .connect c serv n) :
    (s.acceptTurn t k new nonblock fd).Ends := by
  have hfirst := hq.fresh new hnew.1 hacc
  unfold State.acceptTurn
  split
  · rename_i c hhead
    obtain ⟨l, hl⟩ := hq.queue k hS
    have hcl : s.Pending c := by
      have hlinks := hl.links
      rw [hhead] at hlinks
      cases l with
      | nil => cases hlinks
      | cons x l =>
          rw [Option.some.inj hlinks.1]
          exact ((hl.mem x).mp List.mem_cons_self).1
    obtain ⟨w, hw⟩ := Option.ne_none_iff_exists'.mp hdata
    obtain ⟨u, hu⟩ := Option.ne_none_iff_exists'.mp (h.opened k hS.1)
    have hlivec := hq.opened c hcl.1
    have hkn : new ≠ k := by
      rintro rfl
      exact absurd hS.1 (by simp [hnew.2.1])
    have hpeer : s.peerupd w = none := by
      have hm := h.early new hnew.1 (Or.inl hstate)
      unfold State.mate at hm
      rw [hw] at hm
      exact hm
    have hpairs := accept_pairs (update s.iconn k (s.next c))
      (update s.next c none) h hb hc hcl hlivec (hwait c hhead) hnew hstate hconn hw
    set s₁ : State := { s with
      iconn := update s.iconn k (s.next c)
      next := update s.next c none
      conn := update (update s.conn new (some c)) c (some new)
      state := update (update s.state c .connected) new .connected
      accepted := s.stamp c :: s.accepted } with hs₁
    have hb₁ : s₁.Books := hb.congr rfl rfl rfl rfl rfl
    have hsockw : s₁.socket w ≠ none := by
      have hsw := hb.data new w hnew.1 hw
      have hsw₁ : s₁.socket w = some new := hsw
      rw [hsw₁]
      simp
    have hb₂ := tie_books (p := s.data c) hb₁ hsockw hpeer
    set s₂ : State := State.wake { s₁.unixDataRef (s.data c) with
      peerupd := update (s₁.unixDataRef (s.data c)).peerupd w
        ((s₁.unixDataRef (s.data c)).data c)
      sunFamily := update (s₁.unixDataRef (s.data c)).sunFamily w
        ((s₁.unixDataRef (s.data c)).sunFamily u)
      sockaddrLen := update (s₁.unixDataRef (s.data c)).sockaddrLen w
        ((s₁.unixDataRef (s.data c)).sockaddrLen u) } c with hs₂
    have he : s.acceptEnd t k new c fd = s₂.getFd t new fd := by
      unfold State.acceptEnd
      dsimp only
      rw [← hs₁, hs₂]
      have hd : (s₁.unixDataRef (s.data c)).data = s.data := unixDataRef_data
      simp only [hd, hw, hu]
    have hfields : s₂.toNet = s₁.toNet ∧ s₂.data = s.data ∧ s₂.socket = s.socket ∧
        s₂.refcnt = (s₁.unixDataRef (s.data c)).refcnt ∧ s₂.pc = s.pc ∧
        s₂.accepted = s.stamp c :: s.accepted ∧ s₂.returned = s.returned ∧
        s₂.peerupd = update s.peerupd w (s.data c) := by
      rw [hs₂, unixDataRef_data]
      cases s.data c <;> exact ⟨rfl, rfl, rfl, rfl, rfl, rfl, rfl, rfl⟩
    obtain ⟨hnet, hda, hso, hre, hpc, hac, hret, hpu⟩ := hfields
    have hb₃ : s₂.Books := by
      refine hb₂.congr ?_ ?_ ?_ hre ?_
      · rw [hnet]
        cases s.data c <;> rfl
      · rw [hda]
        cases s.data c <;> rfl
      · rw [hso]
        cases s.data c <;> rfl
      · rw [hpu]
        cases s.data c <;> rfl
    have hpairs₂ : s₂.Pairs (some t) none := by
      refine hpairs.congr ⟨?_, ?_, ?_, ?_, ?_, hda, hpu, hac, hret⟩ hpc
      all_goals rw [hnet]
    rw [he]
    refine getFd_ends hb₃ hpairs₂ ?_ ?_ ?_ ?_
    · unfold State.Holds
      rw [hnet, hpc]
      exact hnew
    · rw [hpc]
      exact hidle
    · rw [hnet]
      exact (update_of_ne hkn _ _).trans hfirst
    · rw [hda]
      exact hdata
  · split
    · exact sockRelease_ends (l := []) hb h hfirst (by simp) hnew hidle
    · refine ⟨hb.congr rfl rfl rfl rfl rfl, ?_⟩
      refine h.move ⟨rfl, rfl, rfl, rfl, rfl, rfl, rfl, rfl, rfl⟩ rfl ⟨?_, ?_, ?_, ?_⟩
      · exact fun p k' hp => by cases hp
      · exact fun k' serv n hp => by cases hp
      · intro k' new' hp
        cases hp
        exact ⟨hnew.1, hstate, hconn, hdata⟩
      · exact fun k' u p r hp => by cases hp

theorem acceptStart_ends (hb : s.Books) (h : s.Pairs (some t) none) (hq : s.Queues)
    (hc : s.Calls (some t)) (hS : s.Listening k) (hfree : s.live new = false)
    (hwait : s.unixDataAlloc ≠ none → ∀ c, s.iconn k = some c →
      ∃ t' serv n, t' ≠ t ∧ s.pc t' = .connect c serv n) :
    (s.acceptStart t k new nonblock fd).Ends := by
  obtain ⟨hk, hidle, hclosed⟩ := sockAlloc_holds hq hc hfree
  obtain ⟨hb₁, h₁⟩ := create_ends 0 hb h hq hc hfree
  obtain ⟨hq₁, hc₁, _⟩ := sockAlloc_kept hq hc hfree
  have haside : (s.sockAlloc new).Aside ((s.sockAlloc new).unixCreate new 0).1 :=
    unixCreate_aside
  have hne : k ≠ new := by
    rintro rfl
    cases hclosed.symm.trans hS.1
  have hfirst : ((s.sockAlloc new).unixCreate new 0).1.iconn new = none := by
    rw [haside.net]
    simp [State.sockAlloc]
  have hidle₁ : ∀ t', t' ≠ t →
      (((s.sockAlloc new).unixCreate new 0).1.pc t').sock ≠ some new := by
    rw [haside.pc]
    exact hidle
  unfold State.acceptStart
  dsimp only
  split
  · exact sockRelease_ends (l := []) hb₁ h₁ hfirst (by simp) (haside.holds hk) hidle₁
  · rename_i hr
    refine acceptTurn_ends hb₁ h₁ (haside.queues hq₁) (haside.calls hc₁) ?_ (haside.holds hk)
      hidle₁ ?_ ?_ ?_ (unixCreate_data hr) ?_
    · rw [haside.net]
      exact ⟨hS.1, (update_of_ne hne _ _).trans hS.2⟩
    · rw [haside.net]
      simp [State.sockAlloc]
    · rw [haside.net]
      simp [State.sockAlloc]
    · rw [haside.net]
      simp [State.sockAlloc]
    · rw [haside.net, haside.pc]
      intro c hhead
      refine hwait ?_ c ((update_of_ne hne _ _).symm.trans hhead)
      intro hnone
      refine hr ?_
      have hnone' : (s.sockAlloc new).unixDataAlloc = none := hnone
      unfold State.unixCreate
      rw [if_neg (by simp), hnone']
      simp [ENOMEM]

theorem awaitconn_ends (hb : s.Books) (h : s.Pairs (some t) none) (hq : s.Queues)
    (hc : s.Calls (some t)) (hk : s.opened k = true)
    (hserv : s.acceptcon serv = true → s.opened serv = true)
    (hstate : s.acceptcon serv = true → s.state k = .unconnected) :
    (s.awaitconn t k serv nonblock).Ends := by
  unfold State.awaitconn
  split
  · exact finish_ends hb h
  · rename_i hacc
    have hacc' : s.acceptcon serv = true := by simpa using hacc
    have hun := hstate hacc'
    have hlive := hq.opened k hk
    obtain ⟨l, hl⟩ := hq.queue serv ⟨hserv hacc', hacc'⟩
    have hkl : k ∉ l := by
      intro hmem
      have hst := ((hl.mem k).mp hmem).1.2
      rw [hun] at hst
      cases hst
    obtain ⟨nx, ic, henq, _, _, _⟩ := enqueue_links hl.links hkl
    rw [henq]
    dsimp only
    have h₁ := enqueue_pairs serv nx ic h hc hk hlive hun
    have hmate := h.early k hlive (Or.inl hun)
    set s₁ : State := State.wake { s with
      next := nx
      iconn := ic
      state := update s.state k .connecting
      conn := update s.conn k (some serv)
      clock := s.clock + 1
      stamp := update s.stamp k (s.clock + 1) } serv with hs₁
    have h₁' : s₁.Pairs (some t) none :=
      h₁.congr ⟨rfl, rfl, rfl, rfl, rfl, rfl, rfl, rfl, rfl⟩ rfl
    have hb₁ : s₁.Books := hb.congr rfl rfl rfl rfl rfl
    have hst : s₁.state k = .connecting := update_self k _ s.state
    have hconn : s₁.conn k = some serv := update_self k _ s.conn
    have hstamp : s₁.stamp k = s.clock + 1 := update_self k _ s.stamp
    rw [if_neg (by rw [hst]; exact fun he => by cases he)]
    split
    · exact finish_ends hb₁ h₁'
    · refine ⟨hb₁.congr rfl rfl rfl rfl rfl, ?_⟩
      refine h₁'.move ⟨rfl, rfl, rfl, rfl, rfl, rfl, rfl, rfl, rfl⟩ rfl ⟨?_, ?_, ?_, ?_⟩
      · exact fun p k' hp => by cases hp
      · intro k' serv' n hp
        cases hp
        refine ⟨hlive, hstamp, hconn, hst, hmate, ?_⟩
        intro t' serv' n' ht hcon
        have hcon' : s.pc t' = .connect k serv' n' := hcon
        exact hc.joins t' k serv' n' (fun he => ht (Option.some.inj he)) hcon' hun
      · exact fun k' new hp => by cases hp
      · exact fun k' u p r hp => by cases hp

theorem sockClose_ends (hb : s.Books) (h : s.Pairs (some t) none) (hq : s.Queues)
    (hc : s.Calls (some t)) (hk : s.opened k = true) (hfree : ∀ t', (s.pc t').sock ≠ some k) :
    (s.sockClose t k).Ends := by
  obtain ⟨l, hl⟩ := hq.links hk
  have hqueue : ∀ i, i ∈ l → s.state i = .connecting := by
    intro i hi
    by_cases hacc : s.acceptcon k = true
    · obtain ⟨l', hl'⟩ := hq.queue k ⟨hk, hacc⟩
      rw [hl.unique hl'.links] at hi
      exact ((hl'.mem i).mp hi).1.2
    · have hfirst := hq.fresh k (hq.opened k hk) (by simpa using hacc)
      rw [hfirst] at hl
      cases l with
      | nil => simp at hi
      | cons x l => cases hl.1
  unfold State.sockClose
  refine sockRelease_ends (hb.congr rfl rfl rfl rfl rfl) (close_pairs h) hl hqueue ?_ ?_
  · refine ⟨hq.opened k hk, update_self k false s.opened, ?_⟩
    intro t' ht hown
    have hclosed := (hc.own t' k (fun he => ht (Option.some.inj he)) hown).2
    rw [hk] at hclosed
    cases hclosed
  · exact fun t' _ => hfree t'

theorem leave_pairs (h : s.Pairs none none) (hpc : s.pc t = .connect k serv n)
    (hstate : s.state k = .disconnecting) :
    s.Pairs (some t) none where
  entry := h.entry
  opened := h.opened
  paired i hi hsi := by
    obtain ⟨p, hp, hlive, hback, hcase⟩ := h.paired i hi hsi
    refine ⟨p, hp, hlive, hback, ?_⟩
    rcases hcase with hcon | he | ⟨t', u, r, _, hrel⟩
    · exact Or.inl hcon
    · exact Or.inr (Or.inl he)
    · refine Or.inr (Or.inr ⟨t', u, r, ?_, hrel⟩)
      intro ht
      rw [Option.some.inj ht, hpc] at hrel
      cases hrel
  early := h.early
  joined i p hi hsi hp hnot := by
    refine h.joined i p hi hsi hp ?_
    intro t' serv' n' _ hcon
    by_cases ht : t' = t
    · rw [ht, hpc] at hcon
      cases hcon
      rw [hstate] at hsi
      cases hsi
    · exact hnot t' serv' n' (by simpa using ht) hcon
  waits t' i serv' n' _ := h.waits t' i serv' n' (by simp)
  single t₁ t₂ i serv₁ serv₂ n₁ n₂ _ _ := h.single t₁ t₂ i serv₁ serv₂ n₁ n₂ (by simp) (by simp)
  fresh t' i new _ := h.fresh t' i new (by simp)
  release t' i u p r _ := h.release t' i u p r (by simp)
  honest := h.honest

theorem connectTurn_ends (h : s.Ends) (hc : s.Calls none) (hpc : s.pc t = .connect k serv n)
    (hpend : ¬ (s.Pending k ∧ s.conn k = some serv))
    (hgone : s.state k = .disconnecting → n ∈ s.accepted) : (s.connectTurn t k serv n).Ends := by
  have hopen := hc.sock t k (by simp) (by rw [hpc]; rfl)
  obtain ⟨hlive, _, hserv, hacc, _⟩ := h.pairs.waits t k serv n (by simp) hpc
  have hstate : s.state k = .connected ∨ s.state k = .disconnecting := by
    cases hst : s.state k with
    | unconnected => exact absurd hst (hc.joins t k serv n (by simp) hpc)
    | connecting => exact absurd ⟨⟨hopen, hst⟩, hserv hst⟩ hpend
    | connected => exact Or.inl rfl
    | disconnecting => exact Or.inr rfl
  have haccepted : n ∈ s.accepted := by
    rcases hstate with hst | hst
    · exact hacc hst
    · exact hgone hst
  have hnot : ¬ (s.state k ≠ .connected ∧ s.state k ≠ .disconnecting) := by
    rintro ⟨h₁, h₂⟩
    rcases hstate with hst | hst
    · exact h₁ hst
    · exact h₂ hst
  unfold State.connectTurn
  rw [if_neg hnot]
  cases hp : s.conn k with
  | some p =>
      obtain ⟨hpairs, hbooks⟩ :=
        connectEnd_pairs h.pairs h.books hpc hopen hstate haccepted hp
      exact ⟨hbooks, hpairs⟩
  | none =>
      have hst : s.state k = .disconnecting := by
        rcases hstate with hst | hst
        · obtain ⟨p, hp', _⟩ := h.pairs.paired k hlive hst
          cases hp.symm.trans hp'
        · exact hst
      have hleft := leave_pairs h.pairs hpc hst
      have hreturned : State.Pairs { s with returned := n :: s.returned } (some t) none := by
        refine ⟨hleft.entry, hleft.opened, hleft.paired, hleft.early, hleft.joined, hleft.waits,
          hleft.single, hleft.fresh, hleft.release, ?_⟩
        intro m hm
        rcases List.mem_cons.mp hm with rfl | hm
        · exact haccepted
        · exact hleft.honest m hm
      have he : s.connectEnd t k n = State.finish { s with returned := n :: s.returned } t 0 := by
        unfold State.connectEnd
        rw [hp]
      rw [he]
      exact finish_ends (h.books.congr rfl rfl rfl rfl rfl) hreturned

/-- A step that leaves both ends of every connection alone. -/
structure State.Plain (s s' : State) (t : Task) : Prop where
  same : s.Same s'
  socket : s'.socket = s.socket
  refcnt : s'.refcnt = s.refcnt
  pc : ∃ q, q.plain = true ∧ s'.pc = update s.pc t q

theorem State.Plain.ends (h : s.Plain s' t) (he : s.Ends) (ht : (s.pc t).plain = true) :
    s'.Ends := by
  obtain ⟨q, hq, hpc⟩ := h.pc
  exact ends_plain he.books (he.pairs.plain ht) h.same h.socket h.refcnt hpc hq

theorem finish_plain : s.Plain (s.finish t r) t :=
  ⟨⟨rfl, rfl, rfl, rfl, rfl, rfl, rfl, rfl, rfl⟩, rfl, rfl, .idle, rfl, rfl⟩

theorem goto_plain (hq : q.plain = true) : s.Plain (s.goto t q) t :=
  ⟨⟨rfl, rfl, rfl, rfl, rfl, rfl, rfl, rfl, rfl⟩, rfl, rfl, q, hq, rfl⟩

theorem sleepOn_plain (hq : q.plain = true) : s.Plain (s.sleepOn t q) t :=
  ⟨⟨rfl, rfl, rfl, rfl, rfl, rfl, rfl, rfl, rfl⟩, rfl, rfl, q, hq, rfl⟩

theorem fail_plain {f : Fault} (ht : (s.pc t).plain = true) : s.Plain (s.fail f) t :=
  ⟨⟨rfl, rfl, rfl, rfl, rfl, rfl, rfl, rfl, rfl⟩, rfl, rfl, s.pc t, ht,
    (update_eq_self t s.pc).symm⟩

theorem sysBind_plain (ht : (s.pc t).plain = true) : s.Plain (s.sysBind t k len family) t := by
  unfold State.sysBind
  split
  · exact finish_plain
  split
  · exact finish_plain
  split
  · exact fail_plain ht
  split
  · exact finish_plain
  dsimp only
  split
  · exact ⟨⟨rfl, rfl, rfl, rfl, rfl, rfl, rfl, rfl, rfl⟩, rfl, rfl, .idle, rfl, rfl⟩
  · exact ⟨⟨rfl, rfl, rfl, rfl, rfl, rfl, rfl, rfl, rfl⟩, rfl, rfl, .bind k _ len, rfl, rfl⟩

theorem bindEnd_plain {u : Upd} {r : Except ℕ+ Inode} : s.Plain (s.bindEnd t u len r) t := by
  cases r with
  | error e => exact finish_plain
  | ok i => exact ⟨⟨rfl, rfl, rfl, rfl, rfl, rfl, rfl, rfl, rfl⟩, rfl, rfl, .idle, rfl, rfl⟩

theorem sysListen_plain : s.Plain (s.sysListen t k) t := by
  unfold State.sysListen
  split
  · exact finish_plain
  · exact ⟨⟨rfl, rfl, rfl, rfl, rfl, rfl, rfl, rfl, rfl⟩, rfl, rfl, .idle, rfl, rfl⟩

theorem sysAccept_plain : s.Plain (s.sysAccept t k nonblock) t := by
  unfold State.sysAccept
  split
  · exact finish_plain
  split
  · exact finish_plain
  · exact goto_plain rfl

theorem sysConnect_plain : s.Plain (s.sysConnect t k len family nonblock) t := by
  unfold State.sysConnect
  split
  · exact finish_plain
  split
  · exact finish_plain
  · exact finish_plain
  · split
    · exact finish_plain
    · exact finish_plain
  · split
    · exact finish_plain
    split
    · exact finish_plain
    · exact goto_plain rfl

theorem connectLookup_plain {r : Except ℕ+ Inode} : s.Plain (s.connectLookup t k nonblock r) t := by
  cases r with
  | error e => exact finish_plain
  | ok i =>
      unfold State.connectLookup
      dsimp only
      split
      · exact finish_plain
      · exact goto_plain rfl

theorem wakeConn_plain : s.Plain ((s.wakeConn k).finish t r) t := by
  unfold State.wakeConn
  split
  · split
    · exact ⟨⟨rfl, rfl, rfl, rfl, rfl, rfl, rfl, rfl, rfl⟩, rfl, rfl, .idle, rfl, rfl⟩
    · exact ⟨⟨rfl, rfl, rfl, rfl, rfl, rfl, rfl, rfl, rfl⟩, rfl, rfl, .idle, rfl, rfl⟩
  · exact finish_plain

theorem State.Plain.buffers {head tail : Upd → Nat}
    (h : State.Plain { s with bpHead := head, bpTail := tail } s' t) : s.Plain s' t where
  same :=
    ⟨h.same.state, h.same.conn, h.same.live, h.same.opened, h.same.stamp, h.same.data,
      h.same.peerupd, h.same.accepted, h.same.returned⟩
  socket := h.socket
  refcnt := h.refcnt
  pc := h.pc

theorem readTurn_plain (ht : (s.pc t).plain = true) : s.Plain (s.readTurn t k size nonblock) t := by
  unfold State.readTurn
  split
  · exact fail_plain ht
  split
  · split
    · exact finish_plain
    split
    · exact finish_plain
    · exact sleepOn_plain rfl
  · exact State.Plain.buffers wakeConn_plain

theorem sockRead_plain (ht : (s.pc t).plain = true) : s.Plain (s.sockRead t k size nonblock) t := by
  unfold State.sockRead
  split
  · exact finish_plain
  split
  · exact finish_plain
  · exact readTurn_plain ht

theorem sigpipe_plain : s.Plain (s.sigpipe t) t :=
  ⟨⟨rfl, rfl, rfl, rfl, rfl, rfl, rfl, rfl, rfl⟩, rfl, rfl, .idle, rfl, rfl⟩

theorem writeTurn_plain {p : Upd} : s.Plain (s.writeTurn t k p size nonblock) t := by
  unfold State.writeTurn
  split
  · split
    · exact finish_plain
    · exact sleepOn_plain rfl
  split
  · exact sigpipe_plain
  · exact State.Plain.buffers wakeConn_plain

theorem sockWrite_plain (ht : (s.pc t).plain = true) :
    s.Plain (s.sockWrite t k size nonblock) t := by
  unfold State.sockWrite
  split
  · exact finish_plain
  split
  · exact finish_plain
  split
  · exact sigpipe_plain
  · exact finish_plain
  · exact finish_plain
  split
  · exact fail_plain ht
  split
  · exact fail_plain ht
  · exact writeTurn_plain

end Operations

section Steps

variable {s : State} {t : Task} {k : Sock} {l : Label} {ls : List Label} {fd : Bool}

theorem release_pairs {u : Upd} {peer : Option Sock} {r : Int} (h : s.Pairs none none)
    (hpc : s.pc t = .release k u peer r) :
    s.Pairs (some t) (peer.map fun p => (k, p)) where
  entry := h.entry
  opened := h.opened
  paired i hi hsi := by
    obtain ⟨p, hp, hlive, hback, hcase⟩ := h.paired i hi hsi
    refine ⟨p, hp, hlive, hback, ?_⟩
    rcases hcase with hcon | he | ⟨t', u', r', _, hrel⟩
    · exact Or.inl hcon
    · cases he
    · by_cases ht : t' = t
      · rw [ht, hpc] at hrel
        cases hrel
        exact Or.inr (Or.inl rfl)
      · exact Or.inr (Or.inr ⟨t', u', r', by simpa using ht, hrel⟩)
  early := h.early
  joined i p hi hsi hp hnot := by
    refine h.joined i p hi hsi hp ?_
    intro t' serv n _ hcon
    by_cases ht : t' = t
    · rw [ht, hpc] at hcon
      cases hcon
    · exact hnot t' serv n (by simpa using ht) hcon
  waits t' i serv n _ := h.waits t' i serv n (by simp)
  single t₁ t₂ i serv serv' n n' _ _ := h.single t₁ t₂ i serv serv' n n' (by simp) (by simp)
  fresh t' i new _ := h.fresh t' i new (by simp)
  release t' i v p r' _ := h.release t' i v p r' (by simp)
  honest := h.honest

theorem answer_ends {r : Except ℕ+ Inode} (h : s.Ends) : (s.answer t r).Ends := by
  unfold State.answer
  split
  · rename_i k u len hpc
    exact bindEnd_plain.ends h (by rw [hpc]; rfl)
  · rename_i k nonblock hpc
    exact connectLookup_plain.ends h (by rw [hpc]; rfl)
  · exact h

theorem State.Waiting.other (h : s.Waiting k) (hself : ∀ serv n, s.pc t ≠ .connect k serv n) :
    ∃ t' serv n, t' ≠ t ∧ s.pc t' = .connect k serv n := by
  obtain ⟨t', serv, n, hcon⟩ := h
  refine ⟨t', serv, n, ?_, hcon⟩
  rintro rfl
  exact hself serv n hcon

theorem gotInode_ends {slot : Sock} (h : s.Ends) (hk : s.Kept) (hnone : s.fault = none)
    (hsafe : ¬ s.Severs (.inode t slot fd)) : (s.gotInode t slot fd).Ends := by
  have hc := hk.calls hnone
  unfold State.gotInode
  split
  · rename_i k nonblock hpc
    split
    · exact h
    · rename_i hlive
      have hfree : s.live slot = false := by simpa using hlive
      have hS : s.Listening k :=
        ⟨hc.sock t k (by simp) (by rw [hpc]; rfl), hc.listens t k (by simp) (by rw [hpc]; rfl)⟩
      refine acceptStart_ends h.books (h.pairs.plain (by rw [hpc]; rfl)) hk.queues hc.but hS
        hfree ?_
      intro halloc c hhead
      have hwait : s.Waiting c := by
        by_contra hnot
        exact hsafe ⟨hnone, k, nonblock, hpc, hfree, halloc, c, hhead, hnot⟩
      exact hwait.other fun serv n hcon => by cases hpc.symm.trans hcon
  · exact h

theorem runTask_ends (h : s.Ends) (hk : s.Kept) (hnone : s.fault = none)
    (hcalm : ¬ s.Disturbs (.run t fd)) (hsafe : ¬ s.Severs (.run t fd)) :
    (s.runTask t fd).Ends := by
  have hc := hk.calls hnone
  have hq := hk.queues
  unfold State.runTask
  split
  · rename_i k u nonblock hpc
    split
    · rename_i hu
      exact absurd ⟨hnone, Or.inr (Or.inl ⟨k, u, nonblock, hpc, Or.inl hu⟩)⟩ hcalm
    · rename_i serv hu
      refine awaitconn_ends h.books (h.pairs.plain (by rw [hpc]; rfl)) hq hc.but
        (hc.sock t k (by simp) (by rw [hpc]; rfl)) ?_ ?_
      · intro hacc
        by_contra hclosed
        exact hcalm ⟨hnone, Or.inr (Or.inl ⟨k, u, nonblock, hpc,
          Or.inr ⟨serv, hu, hacc, Or.inl (by simpa using hclosed)⟩⟩)⟩
      · intro hacc
        by_contra hst
        exact hsafe ⟨hnone, Or.inr (Or.inr (Or.inl ⟨k, u, nonblock, serv, hpc, hu, hacc, hst⟩))⟩
  · rename_i k serv n hpc
    split
    · rename_i hawake
      refine connectTurn_ends h hc hpc ?_ ?_
      · rintro ⟨hpend, hconn⟩
        exact hcalm ⟨hnone, Or.inl ⟨k, serv, n, hpc, hawake, hpend, hconn⟩⟩
      · intro hst
        by_contra hacc
        exact hsafe ⟨hnone, Or.inr (Or.inl ⟨k, serv, n, hpc, hawake, hst, hacc⟩)⟩
    · exact h
  · rename_i k new hpc
    split
    · rename_i hawake
      obtain ⟨hacc, _⟩ := hc.fresh t k new (by simp) hpc
      obtain ⟨_, hst, hconn, hdata⟩ := h.pairs.fresh t k new (by simp) hpc
      have hholds : s.Holds t new := hc.holds (by rw [hpc]; rfl)
      have hidle : ∀ t', t' ≠ t → (s.pc t').sock ≠ some new :=
        fun t' _ => hc.sock_ne hholds.2.1 t'
      have hbut : s.Pairs (some t) none := by
        refine h.pairs.but ?_ ?_
        · exact fun i serv n hcon => by cases hpc.symm.trans hcon
        · exact fun i u p r hrel => by cases hpc.symm.trans hrel
      split
      · exact sockRelease_ends (l := []) h.books hbut (hq.fresh new hholds.1 hacc) (by simp)
          hholds hidle
      · rename_i hsig
        refine acceptTurn_ends h.books hbut hq hc.but ⟨hc.sock t k (by simp) (by rw [hpc]; rfl),
          hc.listens t k (by simp) (by rw [hpc]; rfl)⟩ hholds hidle hacc hst hconn hdata ?_
        intro c hhead
        have hwait : s.Waiting c := by
          by_contra hnot
          exact hsafe ⟨hnone, Or.inl ⟨k, new, hpc, hawake, by simpa using hsig, c, hhead, hnot⟩⟩
        exact hwait.other fun serv n hcon => by cases hpc.symm.trans hcon
    · exact h
  · rename_i k size hpc
    have hplain : (s.pc t).plain = true := by rw [hpc]; rfl
    split
    · split
      · exact finish_plain.ends h hplain
      · exact (readTurn_plain hplain).ends h hplain
    · exact h
  · rename_i k pupd size hpc
    have hplain : (s.pc t).plain = true := by rw [hpc]; rfl
    split
    · split
      · exact finish_plain.ends h hplain
      split
      · exact sigpipe_plain.ends h hplain
      · exact writeTurn_plain.ends h hplain
    · exact h
  · rename_i k u peer r hpc
    have hholds : s.Holds t k := hc.holds (by rw [hpc]; rfl)
    obtain ⟨hlive, hdata, hst⟩ := h.pairs.release t k u peer r (by simp) hpc
    refine releaseTail_ends h.books (release_pairs h.pairs hpc) hlive hholds.2.1 hst ?_ ?_
      hdata.symm
    · exact fun t' hne => ⟨hholds.2.2 t' hne, hc.sock_ne hholds.2.1 t'⟩
    · rintro p rfl hlp
      by_contra hconn
      exact hsafe ⟨hnone, Or.inr (Or.inr (Or.inr ⟨k, u, p, r, hpc, hlp, hconn⟩))⟩
  · exact h

theorem step_ends (h : s.Ends) (hk : s.Kept) (hcalm : ¬ s.Disturbs l) (hsafe : ¬ s.Severs l) :
    (s.step l).Ends := by
  unfold State.step
  split
  · exact h
  rename_i hfault
  have hnone : s.fault = none := by simpa using hfault
  have hc := hk.calls hnone
  have hq := hk.queues
  have hidle : ∀ {t}, s.pc t = .idle → (s.pc t).plain = true := by
    intro t ht
    rw [ht]
    rfl
  cases l with
  | socket t slot protocol fd =>
      dsimp only
      split
      · rename_i hgo
        exact sysSocket_ends h.books (h.pairs.plain (hidle hgo.1)) hq hc.but hgo.2
      · exact h
  | bind t k len family =>
      dsimp only
      split
      · rename_i hgo
        exact (sysBind_plain (hidle hgo.1)).ends h (hidle hgo.1)
      · exact h
  | listen t k =>
      dsimp only
      split
      · rename_i hgo
        exact sysListen_plain.ends h (hidle hgo.1)
      · exact h
  | accept t k nonblock =>
      dsimp only
      split
      · rename_i hgo
        exact sysAccept_plain.ends h (hidle hgo.1)
      · exact h
  | connect t k len family nonblock =>
      dsimp only
      split
      · rename_i hgo
        exact sysConnect_plain.ends h (hidle hgo.1)
      · exact h
  | read t k size nonblock =>
      dsimp only
      split
      · rename_i hgo
        exact (sockRead_plain (hidle hgo.1)).ends h (hidle hgo.1)
      · exact h
  | write t k size nonblock =>
      dsimp only
      split
      · rename_i hgo
        exact (sockWrite_plain (hidle hgo.1)).ends h (hidle hgo.1)
      · exact h
  | close t k =>
      dsimp only
      split
      · rename_i hgo
        exact sockClose_ends h.books (h.pairs.plain (hidle hgo.1.1)) hq hc.but hgo.1.2 hgo.2
      · exact h
  | answer t r => exact answer_ends h
  | inode t slot fd => exact gotInode_ends h hk hnone hsafe
  | run t fd => exact runTask_ends h hk hnone hcalm hsafe
  | signal t =>
      exact ⟨h.books.congr rfl rfl rfl rfl rfl,
        h.pairs.congr ⟨rfl, rfl, rfl, rfl, rfl, rfl, rfl, rfl, rfl⟩ rfl⟩
  | deliver t =>
      dsimp only
      split
      · exact ⟨h.books.congr rfl rfl rfl rfl rfl,
          h.pairs.congr ⟨rfl, rfl, rfl, rfl, rfl, rfl, rfl, rfl, rfl⟩ rfl⟩
      · exact h
  | reuse k c =>
      dsimp only
      split
      · exact h
      · rename_i hlive
        have hfree : s.live k = false := by simpa using hlive
        exact ⟨reuse_books h.books hfree, reuse_pairs h.pairs hq hfree⟩

theorem State.Init.ends (h : s.Init) : s.Ends where
  books := by
    refine ⟨?_, ?_, ?_⟩
    · intro k u hk
      rw [h.live k] at hk
      cases hk
    · intro u k hu
      rw [h.socket u] at hu
      cases hu
    · intro u
      have hnone : s.holders u = 0 := by
        refine tally_eq_zero_of_finite.mpr ?_
        intro v hv
        unfold UnixDatas.holding at hv
        rw [if_pos (h.socket v)] at hv
        cases hv
      rw [h.refcnt u, h.socket u, hnone]
      rfl
  pairs := by
    have hdead : ∀ k, s.live k ≠ true := by simp [h.live]
    have hidle := h.pc
    refine ⟨?_, ?_, ?_, ?_, ?_, ?_, ?_, ?_, ?_, ?_⟩
    · exact fun k hk => absurd hk (hdead k)
    · exact fun k hk => absurd hk (by simp [h.opened])
    · exact fun k hk => absurd hk (hdead k)
    · exact fun k hk => absurd hk (hdead k)
    · exact fun k p hk => absurd hk (hdead k)
    · exact fun t k serv n _ hcon => by cases (hidle t).symm.trans hcon
    · exact fun t t' k serv serv' n n' _ _ hcon => by cases (hidle t).symm.trans hcon
    · exact fun t k new _ hacc => by cases (hidle t).symm.trans hacc
    · exact fun t k u p r _ hrel => by cases (hidle t).symm.trans hrel
    · rw [h.returned]
      simp

theorem careful_run (h : s.Ends) (hk : s.Kept) (hls : s.Careful ls) :
    (s.run ls).Ends ∧ (s.run ls).Kept := by
  induction ls generalizing s with
  | nil => exact ⟨h, hk⟩
  | cons l ls ih =>
      obtain ⟨hcalm, hsafe, hrest⟩ := hls
      exact ih (step_ends h hk hcalm hsafe) (step_kept hk hcalm) hrest

theorem careful_take (n : Nat) (h : s.Careful ls) : s.Careful (ls.take n) := by
  induction ls generalizing s n with
  | nil => simpa using h
  | cons l ls ih =>
      cases n with
      | zero => trivial
      | succ n => exact ⟨h.1, h.2.1, ih n h.2.2⟩

end Steps

section Result

variable {s : State} {k : Sock}

theorem State.Ends.mated (h : s.Ends) (hk : s.live k = true) (hst : s.state k = .connected)
    (hwait : ¬ s.Waiting k) : s.Mated k := by
  obtain ⟨u, hu⟩ := Option.ne_none_iff_exists'.mp (h.pairs.entry k hk hst)
  obtain ⟨p, hp, hlive, _, hcase⟩ := h.pairs.paired k hk hst
  have hmate : s.mate k = s.data p :=
    h.pairs.joined k p hk hst hp fun t serv n _ hcon => hwait ⟨t, serv, n, hcon⟩
  have hdata : s.data p ≠ none := by
    rcases hcase with hcon | he | ⟨t, v, r, _, hrel⟩
    · exact h.pairs.entry p hlive hcon
    · cases he
    · rw [(h.pairs.release t p v (some k) r (by simp) hrel).2.1]
      simp
  obtain ⟨v, hv⟩ := Option.ne_none_iff_exists'.mp hdata
  refine ⟨p, u, v, hp, hu, ?_, hv⟩
  unfold State.mate at hmate
  rw [hu, hv] at hmate
  exact hmate

theorem State.Ends.unmated (h : s.Ends) (hwait : s.Waiting k) : ¬ s.Mated k := by
  rintro ⟨p, u, v, _, hu, hv, _⟩
  obtain ⟨t, serv, n, hcon⟩ := hwait
  have hmate := (h.pairs.waits t k serv n (by simp) hcon).2.2.2.2
  unfold State.mate at hmate
  rw [hu] at hmate
  cases hv.symm.trans hmate

theorem State.Ends.counted (h : s.Ends) : s.Counted where
  count u _ := h.books.count u
  unused u hu := by
    obtain ⟨hsock, hzero⟩ := h.books.unused hu
    refine ⟨hsock, holders_zero hzero, ?_⟩
    intro k hk hdata
    cases hsock.symm.trans (h.books.data k u hk hdata)
  honest := h.pairs.honest

theorem State.Ends.linked_iff (h : s.Ends) : s.Linked ↔ s.Settled := by
  constructor
  · intro hl k hst hwait
    obtain ⟨t, serv, n, hcon⟩ := hwait
    have hlive := (h.pairs.waits t k serv n (by simp) hcon).1
    exact h.unmated ⟨t, serv, n, hcon⟩ (hl.joined k hlive hst)
  · exact fun hs => ⟨h.counted, fun k hk hst => h.mated hk hst (hs k hst)⟩

/-- **The two ends of a connection.** -/
theorem peers_linked (h : s.Init) {ls : List Label} (hls : s.Careful ls) :
    (∀ n, (s.run (ls.take n)).Linked ↔ (s.run (ls.take n)).Settled) ∧
      (∀ n, (s.run (ls.take n)).Counted) ∧
      ∀ n k, (s.run (ls.take n)).live k = true → (s.run (ls.take n)).state k = .connected →
        ((s.run (ls.take n)).Mated k ↔ ¬ (s.run (ls.take n)).Waiting k) := by
  have hends : ∀ n, (s.run (ls.take n)).Ends :=
    fun n => (careful_run h.ends h.kept (careful_take n hls)).1
  refine ⟨fun n => (hends n).linked_iff, fun n => (hends n).counted, ?_⟩
  intro n k hk hst
  constructor
  · exact fun hm hwait => (hends n).unmated hwait hm
  · exact fun hwait => (hends n).mated hk hst hwait

theorem careful_append {ls ms : List Label} :
    s.Careful (ls ++ ms) ↔ s.Careful ls ∧ (s.run ls).Careful ms := by
  induction ls generalizing s with
  | nil => exact ⟨fun h => ⟨trivial, h⟩, fun h => h.2⟩
  | cons l ls ih =>
      constructor
      · rintro ⟨hcalm, hsafe, hrest⟩
        exact ⟨⟨hcalm, hsafe, (ih.mp hrest).1⟩, (ih.mp hrest).2⟩
      · rintro ⟨⟨hcalm, hsafe, hrest⟩, hms⟩
        exact ⟨hcalm, hsafe, ih.mpr ⟨hrest, hms⟩⟩

/-- A server accepts the client that waits for it, and the client goes on. -/
def handshake (server client : Task) (k new : Sock) : List Label :=
  [.accept server k false, .inode server new true, .run client true]

theorem handshake_careful :
    blank.Careful (approach false ++ [.run 1 true] ++ handshake 0 1 0 2) := by
  have harrive := (undisturbed_append.mp (arrival_undisturbed false)).2.1
  refine careful_append.mpr ⟨careful_append.mpr ⟨?_, harrive, ?_, trivial⟩, ?_⟩
  · exact ⟨fun h => h.2, fun h => h.2, fun h => h.2, fun h => h.2, fun h => h.2, fun h => h.2,
      fun h => h.2, fun h => h.2, fun h => h.2, fun h => h.2, fun h => h.2, fun h => h.2,
      fun h => h.2, fun h => h.2, trivial⟩
  · have hpc : (blank.run (approach false)).pc 1 = .found 1 0 false := by decide
    rintro ⟨_, ⟨k, new, h, _⟩ | ⟨k, serv, n, h, _⟩ | ⟨k, u, b, serv, h, _, _, hst⟩ |
      ⟨k, u, p, r, h, _⟩⟩
    · cases hpc.symm.trans h
    · cases hpc.symm.trans h
    · cases hpc.symm.trans h
      exact hst (by decide)
    · cases hpc.symm.trans h
  · refine ⟨fun h => h.2, fun h => h.2, fun h => h.2, ?_, ?_, ?_, trivial⟩
    · rintro ⟨_, k, b, h, _, _, c, hhead, hnot⟩
      have hpc : ((blank.run (approach false ++ [.run 1 true])).step (.accept 0 0 false)).pc 0 =
          .allocating 0 false := by decide
      cases hpc.symm.trans h
      have hfirst : ((blank.run (approach false ++ [.run 1 true])).step
          (.accept 0 0 false)).iconn 0 = some 1 := by decide
      cases hfirst.symm.trans hhead
      exact hnot ⟨1, 0, 1, by decide⟩
    all_goals
      have hpc : (((blank.run (approach false ++ [.run 1 true])).step (.accept 0 0 false)).step
          (.inode 0 2 true)).pc 1 = .connect 1 0 1 := by decide
      have hst : (((blank.run (approach false ++ [.run 1 true])).step (.accept 0 0 false)).step
          (.inode 0 2 true)).state 1 = .connected := by decide
    · rintro ⟨_, ⟨k, serv, n, h, _, hpend, _⟩ | ⟨k, u, b, h, _⟩ | ⟨k, u, p, r, h, _⟩⟩
      · cases hpc.symm.trans h
        cases hst.symm.trans hpend.2
      · cases hpc.symm.trans h
      · cases hpc.symm.trans h
    · rintro ⟨_, ⟨k, new, h, _⟩ | ⟨k, serv, n, h, _, hgone, _⟩ | ⟨k, u, b, serv, h, _⟩ |
        ⟨k, u, p, r, h, _⟩⟩
      · cases hpc.symm.trans h
      · cases hpc.symm.trans h
        cases hst.symm.trans hgone
      · cases hpc.symm.trans h
      · cases hpc.symm.trans h

/-- Both sockets of a connection that has been set up. -/
theorem peers_linked_handshake :
    blank.Careful (approach false ++ [.run 1 true] ++ handshake 0 1 0 2) ∧
      (blank.run (approach false ++ [.run 1 true] ++ handshake 0 1 0 2)).state 1 = .connected ∧
      (blank.run ((approach false ++ [Label.run 1 true] ++ handshake 0 1 0 2).take 11)).Mated 1 := by
  refine ⟨handshake_careful, by decide, ?_⟩
  refine ((peers_linked blank_init handshake_careful).2.2 11 1 (by decide) (by decide)).mpr ?_
  have hidle : ∀ t, (blank.run ((approach false ++ [Label.run 1 true] ++
      handshake 0 1 0 2).take 11)).pc t = .idle := by decide
  rintro ⟨t, serv, n, hcon⟩
  cases (hidle t).symm.trans hcon

/-- Without care it fails: a client that does not block is accepted, and nobody sets its
`peerupd`; when it writes, the code follows the `NULL`. -/
theorem accepted_unlinked :
    blank.Init ∧
      (blank.run (approach true ++ [.run 1 true, .accept 0 0 false, .inode 0 2 true])).state 1 =
        .connected ∧
      (blank.run (approach true ++ [.run 1 true, .accept 0 0 false, .inode 0 2 true])).peerupd 1 =
        none ∧
      (blank.run (approach true ++ [.run 1 true, .accept 0 0 false, .inode 0 2 true,
        .write 1 1 1 false])).fault = some .noPeer ∧
      ¬ (blank.run (approach true ++
        [.run 1 true, .accept 0 0 false, .inode 0 2 true])).Linked := by
  have hdata : (blank.run (approach true ++
      [.run 1 true, .accept 0 0 false, .inode 0 2 true])).data 1 = some 1 := by decide
  have hpeer : (blank.run (approach true ++
      [.run 1 true, .accept 0 0 false, .inode 0 2 true])).peerupd 1 = none := by decide
  refine ⟨blank_init, by decide, hpeer, by decide, ?_⟩
  intro hl
  obtain ⟨p, u, v, _, hu, hv, _⟩ := hl.joined 1 (by decide) (by decide)
  cases hdata.symm.trans hu
  cases hpeer.symm.trans hv

end Result

end Unix
end Elks
