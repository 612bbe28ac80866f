import Elks.Unix.Queue

/-!
# The calls on Unix-domain sockets and the queues (net/socket.c, net/unix/af_unix.c)

`State.Calls` says which sockets the calls that are under way hold on to.  With
`Net.Queues` it is kept by every system call, from one sleep to the next, that does not
release a pending socket, queue one twice or leave one on no queue.
-/

namespace Elks
namespace Unix

open Lib
open Function (update update_eq_self update_of_ne update_self)

section Calls

/-- The listening socket of an accept. -/
def Pc.server : Pc → Option Sock
  | allocating k _ => some k
  | accept k _ => some k
  | _ => none

/-- The calls of all tasks but one hold on to the sockets that they are about. -/
structure State.Calls (s : State) (o : Option Task) : Prop where
  sock : ∀ t k, some t ≠ o → (s.pc t).sock = some k → s.opened k = true
  own : ∀ t k, some t ≠ o → (s.pc t).own = some k → s.live k = true ∧ s.opened k = false
  sole : ∀ t t' k, some t ≠ o → some t' ≠ o → (s.pc t).own = some k → (s.pc t').own = some k →
    t = t'
  listens : ∀ t k, some t ≠ o → (s.pc t).server = some k → s.acceptcon k = true
  fresh : ∀ t k new, some t ≠ o → s.pc t = .accept k new →
    s.acceptcon new = false ∧ s.state new ≠ .connected
  joins : ∀ t k serv n, some t ≠ o → s.pc t = .connect k serv n → s.state k ≠ .unconnected

/-- No loop over a queue has gone wrong. -/
def State.Harmless (s : State) : Prop :=
  ∀ f, s.fault = some f → f ≠ .endless ∧ f ≠ .lost ∧ f ≠ .noServer

/-- What is kept by every step that does not disturb the queues. -/
structure State.Kept (s : State) : Prop where
  queues : s.Queues
  harmless : s.Harmless
  calls : s.fault = none → s.Calls none

/-- A socket without a file that no other call has in hand. -/
def State.Holds (s : State) (t : Task) (k : Sock) : Prop :=
  s.live k = true ∧ s.opened k = false ∧ ∀ t', t' ≠ t → (s.pc t').own ≠ some k

/-- A task may go on to `p`. -/
structure State.Fits (s : State) (t : Task) (p : Pc) : Prop where
  sock : ∀ k, p.sock = some k → s.opened k = true
  own : ∀ k, p.own = some k → s.Holds t k
  listens : ∀ k, p.server = some k → s.acceptcon k = true
  fresh : ∀ k new, p = .accept k new → s.acceptcon new = false ∧ s.state new ≠ .connected
  joins : ∀ k serv n, p = .connect k serv n → s.state k ≠ .unconnected

variable {s s' : State} {t : Task} {o : Option Task} {k : Sock} {p : Pc}

theorem State.Calls.but (h : s.Calls none) : s.Calls (some t) where
  sock t' k _ := h.sock t' k (by simp)
  own t' k _ := h.own t' k (by simp)
  sole t' t'' k _ _ := h.sole t' t'' k (by simp) (by simp)
  listens t' k _ := h.listens t' k (by simp)
  fresh t' k new _ := h.fresh t' k new (by simp)
  joins t' k serv n _ := h.joins t' k serv n (by simp)

theorem State.Calls.holds (h : s.Calls none) (hown : (s.pc t).own = some k) : s.Holds t k := by
  obtain ⟨hlive, hopen⟩ := h.own t k (by simp) hown
  refine ⟨hlive, hopen, ?_⟩
  intro t' hne hown'
  exact hne (h.sole t' t k (by simp) (by simp) hown' hown)

theorem State.Calls.sock_ne (h : s.Calls none) (hclosed : s.opened k = false) (t : Task) :
    (s.pc t).sock ≠ some k := by
  intro hsock
  have hopen := h.sock t k (by simp) hsock
  rw [hclosed] at hopen
  cases hopen

theorem State.Calls.move (h : s.Calls (some t)) (hnet : s'.toNet = s.toNet)
    (hpc : s'.pc = update s.pc t p) (hp : s.Fits t p) : s'.Calls none := by
  have hself : s'.pc t = p := by
    rw [hpc, update_self]
  have hother : ∀ t', t' ≠ t → s'.pc t' = s.pc t' := by
    intro t' hne
    rw [hpc, update_of_ne hne]
  have hsome : ∀ t', t' ≠ t → some t' ≠ some t := fun t' hne he => hne (Option.some.inj he)
  refine ⟨?_, ?_, ?_, ?_, ?_, ?_⟩
  · intro t' k _ hk
    rw [hnet]
    by_cases hne : t' = t
    · subst hne
      rw [hself] at hk
      exact hp.sock k hk
    · rw [hother t' hne] at hk
      exact h.sock t' k (hsome t' hne) hk
  · intro t' k _ hk
    rw [hnet]
    by_cases hne : t' = t
    · subst hne
      rw [hself] at hk
      exact ⟨(hp.own k hk).1, (hp.own k hk).2.1⟩
    · rw [hother t' hne] at hk
      exact h.own t' k (hsome t' hne) hk
  · intro t' t'' k _ _ hk hk'
    by_cases hne : t' = t
    · subst hne
      by_cases hne' : t'' = t'
      · exact hne'.symm
      · rw [hself] at hk
        rw [hother t'' hne'] at hk'
        exact absurd hk' ((hp.own k hk).2.2 t'' hne')
    · by_cases hne' : t'' = t
      · subst hne'
        rw [hself] at hk'
        rw [hother t' hne] at hk
        exact absurd hk ((hp.own k hk').2.2 t' hne)
      · rw [hother t' hne] at hk
        rw [hother t'' hne'] at hk'
        exact h.sole t' t'' k (hsome t' hne) (hsome t'' hne') hk hk'
  · intro t' k _ hk
    rw [hnet]
    by_cases hne : t' = t
    · subst hne
      rw [hself] at hk
      exact hp.listens k hk
    · rw [hother t' hne] at hk
      exact h.listens t' k (hsome t' hne) hk
  · intro t' k new _ hk
    rw [hnet]
    by_cases hne : t' = t
    · subst hne
      rw [hself] at hk
      exact hp.fresh k new hk
    · rw [hother t' hne] at hk
      exact h.fresh t' k new (hsome t' hne) hk
  · intro t' k serv n _ hk
    rw [hnet]
    by_cases hne : t' = t
    · subst hne
      rw [hself] at hk
      exact hp.joins k serv n hk
    · rw [hother t' hne] at hk
      exact h.joins t' k serv n (hsome t' hne) hk

theorem fits_idle : s.Fits t .idle where
  sock _ h := by cases h
  own _ h := by cases h
  listens _ h := by cases h
  fresh _ _ h := by cases h
  joins _ _ _ h := by cases h

theorem fits_on (hk : s.opened k = true) (hsock : p.sock = some k) (hown : p.own = none)
    (hserver : p.server = none) (hjoin : ∀ i serv n, p ≠ .connect i serv n) :
    s.Fits t p where
  sock i hi := by
    have hki : k = i := Option.some.inj (hsock.symm.trans hi)
    rw [← hki]
    exact hk
  own i hi := by
    rw [hown] at hi
    cases hi
  listens i hi := by
    rw [hserver] at hi
    cases hi
  fresh i new hp := by
    rw [hp] at hserver
    cases hserver
  joins i serv n hp := absurd hp (hjoin i serv n)

theorem State.Calls.change (h : s.Calls o) (hpc : s'.pc = s.pc)
    (hsock : ∀ t' k, some t' ≠ o → (s.pc t').sock = some k → s'.opened k = true)
    (hown : ∀ t' k, some t' ≠ o → (s.pc t').own = some k →
      s'.live k = true ∧ s'.opened k = false)
    (hlistens : ∀ k, s.opened k = true → s.acceptcon k = true → s'.acceptcon k = true)
    (hfresh : ∀ t' k new, some t' ≠ o → s.pc t' = .accept k new →
      s'.acceptcon new = false ∧ s'.state new ≠ .connected)
    (hjoins : ∀ k, s.opened k = true → s.state k ≠ .unconnected → s'.state k ≠ .unconnected) :
    s'.Calls o := by
  have hserver : ∀ q k, Pc.server q = some k → q.sock = some k := by
    intro q k hq
    cases q <;> simp_all [Pc.server, Pc.sock]
  refine ⟨?_, ?_, ?_, ?_, ?_, ?_⟩
  · intro t' k hne hk
    rw [hpc] at hk
    exact hsock t' k hne hk
  · intro t' k hne hk
    rw [hpc] at hk
    exact hown t' k hne hk
  · intro t' t'' k hne hne' hk hk'
    rw [hpc] at hk hk'
    exact h.sole t' t'' k hne hne' hk hk'
  · intro t' k hne hk
    rw [hpc] at hk
    exact hlistens k (h.sock t' k hne (hserver _ k hk)) (h.listens t' k hne hk)
  · intro t' k new hne hk
    rw [hpc] at hk
    exact hfresh t' k new hne hk
  · intro t' k serv n hne hk
    rw [hpc] at hk
    exact hjoins k (h.sock t' k hne (by rw [hk]; rfl)) (h.joins t' k serv n hne hk)

/-- A step that touches neither the sockets nor the calls. -/
structure State.Aside (s s' : State) : Prop where
  net : s'.toNet = s.toNet
  pc : s'.pc = s.pc
  fault : s'.fault = s.fault

theorem State.Aside.queues (h : s.Aside s') (hq : s.Queues) : s'.Queues := by
  rw [h.net]
  exact hq

theorem State.Aside.calls (h : s.Aside s') (hc : s.Calls o) : s'.Calls o := by
  refine hc.change h.pc ?_ ?_ ?_ ?_ ?_
  · rw [h.net]
    exact hc.sock
  · rw [h.net]
    exact hc.own
  · rw [h.net]
    exact fun _ _ hk => hk
  · rw [h.net]
    exact hc.fresh
  · rw [h.net]
    exact fun _ _ hk => hk

theorem State.Aside.trans {s'' : State} (h : s.Aside s') (h' : s'.Aside s'') : s.Aside s'' :=
  ⟨h'.net.trans h.net, h'.pc.trans h.pc, h'.fault.trans h.fault⟩

theorem wake_aside : s.Aside (s.wake k) :=
  ⟨rfl, rfl, rfl⟩

theorem unixDataRef_aside {u : Option Upd} : s.Aside (s.unixDataRef u) := by
  cases u <;> exact ⟨rfl, rfl, rfl⟩

theorem unixRelease_aside {upd : Option Upd} : s.Aside (s.unixRelease k upd) := by
  cases upd with
  | none => exact ⟨rfl, rfl, rfl⟩
  | some u =>
      unfold State.unixRelease
      dsimp only
      split
      · exact ⟨rfl, rfl, rfl⟩
      · exact ⟨rfl, rfl, rfl⟩

theorem unixCreate_aside {protocol : Int} : s.Aside (s.unixCreate k protocol).1 := by
  unfold State.unixCreate
  split
  · exact ⟨rfl, rfl, rfl⟩
  · split
    · exact ⟨rfl, rfl, rfl⟩
    · exact ⟨rfl, rfl, rfl⟩

end Calls

section Operations

variable {s : State} {t : Task} {k p serv : Sock} {nonblock fd : Bool} {l : List Sock} {r len : Int}
  {o : Option Task} {size attempt family : Nat} {peer : Option Sock} {aw : Task → Bool} {s' : State}
  {new : Sock}

theorem harmless_of_none (h : s.fault = none) : s.Harmless := by
  intro f hf
  rw [h] at hf
  cases hf

theorem goto_kept {q : Pc} (hq : s.Queues) (hc : s.Calls (some t)) (hnone : s.fault = none)
    (hp : s.Fits t q) (hnet : s'.toNet = s.toNet) (hpc : s'.pc = update s.pc t q)
    (hfault : s'.fault = s.fault) :
    s'.Kept where
  queues := by
    rw [hnet]
    exact hq
  harmless := harmless_of_none (hfault.trans hnone)
  calls _ := hc.move hnet hpc hp

theorem finish_kept (hq : s.Queues) (hc : s.Calls (some t)) (hnone : s.fault = none) :
    (s.finish t r).Kept :=
  goto_kept hq hc hnone fits_idle rfl rfl rfl

theorem fail_kept {f : Fault} (hq : s.Queues) (hf : f ≠ .endless ∧ f ≠ .lost ∧ f ≠ .noServer) :
    (s.fail f).Kept where
  queues := hq
  harmless g hg := by
    rw [← Option.some.inj hg]
    exact hf
  calls h := by cases h

theorem releasePeer_calls {q : Sock} (hc : s.Calls o) : (s.releasePeer q).Calls o := by
  have hstate : ∀ i, (s.releasePeer q).state i = .disconnecting ∨
      (s.releasePeer q).state i = s.state i := by
    intro i
    by_cases hiq : i = q
    · exact Or.inl (by rw [hiq]; exact update_self q _ s.state)
    · exact Or.inr (update_of_ne hiq _ s.state)
  refine hc.change rfl hc.sock hc.own (fun _ _ h => h) ?_ ?_
  · intro t' k new hne hk
    obtain ⟨hacc, hst⟩ := hc.fresh t' k new hne hk
    refine ⟨hacc, ?_⟩
    rcases hstate new with h | h
    · rw [h]
      exact fun he => by cases he
    · rw [h]
      exact hst
  · intro i _ hi
    rcases hstate i with h | h
    · rw [h]
      exact fun he => by cases he
    · rw [h]
      exact hi

theorem releaseConn_kept
    (hq : s.Queues) (hc : s.Calls o) (hpeer : ∀ p, peer = some p → ¬ s.Pending p) :
    (s.releaseConn peer).Queues ∧ (s.releaseConn peer).Calls o := by
  cases peer with
  | none => exact ⟨hq, hc⟩
  | some p => exact ⟨Net.Queues.part hq (hpeer p rfl), releasePeer_calls hc⟩

theorem releaseConn_rest (peer : Option Sock) :
    (s.releaseConn peer).opened = s.opened ∧ (s.releaseConn peer).pc = s.pc ∧
      (s.releaseConn peer).fault = s.fault := by
  cases peer <;> exact ⟨rfl, rfl, rfl⟩

theorem releaseTail_kept {upd : Option Upd} (hq : s.Queues) (hc : s.Calls (some t))
    (hnone : s.fault = none) (hk : s.opened k = false)
    (hsole : ∀ t', t' ≠ t → (s.pc t').own ≠ some k) (hpeer : ∀ p, peer = some p → ¬ s.Pending p) :
    (s.releaseTail t k upd peer r).Kept := by
  have haside : s.Aside (s.unixRelease k upd) := unixRelease_aside
  have hpeer' : ∀ p, peer = some p → ¬ (s.unixRelease k upd).Pending p := by
    rw [haside.net]
    exact hpeer
  obtain ⟨hq₁, hc₁⟩ := releaseConn_kept (haside.queues hq) (haside.calls hc) hpeer'
  obtain ⟨hopened, hpc, hfault⟩ := releaseConn_rest (s := s.unixRelease k upd) peer
  refine finish_kept (Net.Queues.free hq₁ ?_) ?_ (hfault.trans (haside.fault.trans hnone))
  · rw [hopened, haside.net]
    exact hk
  · refine hc₁.change rfl hc₁.sock ?_ (fun _ _ h => h) hc₁.fresh (fun _ _ h => h)
    intro t' i hne hi
    obtain ⟨hlive, hopen⟩ := hc₁.own t' i hne hi
    have hik : i ≠ k := by
      rintro rfl
      rw [hpc, haside.pc] at hi
      exact hsole t' (fun he => hne (congrArg some he)) hi
    exact ⟨(update_of_ne hik _ _).trans hlive, hopen⟩

/-- The state after the loop of `sock_release` over the queue `l`. -/
def State.parted (s : State) (k : Sock) (l : List Sock) (aw : Task → Bool) : State :=
  { s with
    state := fun i => if i ∈ l ∨ i = k ∧ s.state k ≠ .unconnected then .disconnecting
      else s.state i
    awake := aw }

theorem sockRelease_cases (hl : Links s.next (s.iconn k) l) :
    ∃ aw, (∃ u i, s.data k = some u ∧ s.socket u = some k ∧ s.inode u = some i ∧
        s.sockRelease t k r = (s.parted k l aw).goto t
          (.release k u (if s.state k = .connected then s.conn k else none) r)) ∨
      ((∀ u i, s.data k = some u → s.socket u = some k → s.inode u ≠ some i) ∧
        s.sockRelease t k r = (s.parted k l aw).releaseTail t k
          ((s.data k).filter fun u => s.socket u = some k)
          (if s.state k = .connected then s.conn k else none) r) := by
  have hloop : ∃ aw, State.releasePeers NR_INODE (s.iconn k) (if s.state k = .unconnected then s
      else { s with state := update s.state k .disconnecting }) =
        some (s.parted k l aw) := by
    have hlen := links_length hl
    split
    · rename_i hun
      obtain ⟨aw, haw⟩ := releasePeers_links hl hlen
      refine ⟨aw, haw.trans (congrArg some ?_)⟩
      unfold State.parted
      simp only [hun, ne_eq, not_true_eq_false, and_false, or_false]
    · rename_i hun
      obtain ⟨aw, haw⟩ := releasePeers_links
        (s := { s with state := update s.state k .disconnecting }) hl hlen
      refine ⟨aw, haw.trans (congrArg some ?_)⟩
      have hst : (fun i => if i ∈ l then SockState.disconnecting
          else update s.state k .disconnecting i) =
          fun i => if i ∈ l ∨ i = k ∧ s.state k ≠ .unconnected then .disconnecting
            else s.state i := by
        funext i
        by_cases hi : i ∈ l
        · simp [hi]
        · by_cases hik : i = k
          · subst hik
            simp [hi, hun]
          · simp [hi, hik]
      unfold State.parted
      dsimp only
      rw [hst]
  obtain ⟨aw, haw⟩ := hloop
  have hfirst : (if s.state k = .unconnected then s
      else { s with state := update s.state k .disconnecting }).iconn k = s.iconn k := by
    split <;> rfl
  have hdata' : (s.parted k l aw).data = s.data := rfl
  have hsocket' : (s.parted k l aw).socket = s.socket := rfl
  have hconn' : (s.parted k l aw).conn = s.conn := rfl
  have hinode' : (s.parted k l aw).inode = s.inode := rfl
  cases hdata : s.data k with
  | none =>
      refine ⟨aw, Or.inr ⟨fun u i hu => by simp at hu, ?_⟩⟩
      unfold State.sockRelease
      dsimp only
      rw [hfirst, haw]
      simp only [hdata', hdata, hconn', Option.filter_none]
  | some u =>
      by_cases hsock : s.socket u = some k
      · have hmine : (some u).filter (fun u => s.socket u = some k) = some u := by
          simp [hsock]
        cases hino : s.inode u with
        | none =>
            refine ⟨aw, Or.inr ⟨?_, ?_⟩⟩
            · intro v i hv _ hi
              rw [← Option.some.inj hv, hino] at hi
              cases hi
            · rw [hmine]
              unfold State.sockRelease
              dsimp only
              rw [hfirst, haw]
              simp only [hdata', hdata, hconn', hsocket', hsock, hinode', hino, ne_eq,
                not_true_eq_false, if_false]
        | some i =>
            refine ⟨aw, Or.inl ⟨u, i, rfl, hsock, hino, ?_⟩⟩
            unfold State.sockRelease
            dsimp only
            rw [hfirst, haw]
            simp only [hdata', hdata, hconn', hsocket', hsock, hinode', hino, ne_eq,
              not_true_eq_false, if_false]
      · have hother : (some u).filter (fun u => s.socket u = some k) = none := by
          simp [hsock]
        refine ⟨aw, Or.inr ⟨?_, ?_⟩⟩
        · intro v i hv hvs
          rw [← Option.some.inj hv] at hvs
          exact absurd hvs hsock
        · rw [hother]
          unfold State.sockRelease
          dsimp only
          rw [hfirst, haw]
          simp only [hdata', hdata, hconn', hsocket', hsock, ne_eq, not_false_eq_true, if_true]

theorem parted_calls (hc : s.Calls o) : (s.parted k l aw).Calls o := by
  have hstate : ∀ i, (s.parted k l aw).state i = .disconnecting ∨
      (s.parted k l aw).state i = s.state i := by
    intro i
    unfold State.parted
    dsimp only
    split
    · exact Or.inl rfl
    · exact Or.inr rfl
  refine hc.change rfl hc.sock hc.own (fun _ _ h => h) ?_ ?_
  · intro t' i new hne hi
    obtain ⟨hacc, hst⟩ := hc.fresh t' i new hne hi
    refine ⟨hacc, ?_⟩
    rcases hstate new with h | h
    · rw [h]
      exact fun he => by cases he
    · rw [h]
      exact hst
  · intro i _ hi
    rcases hstate i with h | h
    · rw [h]
      exact fun he => by cases he
    · rw [h]
      exact hi

theorem parted_pending (hp : (s.parted k l aw).Pending p) : s.Pending p ∧ p ∉ l := by
  obtain ⟨hopen, hst⟩ := hp
  unfold State.parted at hst
  dsimp only at hst
  split at hst
  · cases hst
  · rename_i hnot
    exact ⟨⟨hopen, hst⟩, fun hmem => hnot (Or.inl hmem)⟩

theorem release_ends (hl : Links s.next (s.iconn k) l) (hq : ∀ aw, (s.parted k l aw).Queues)
    (hc : s.Calls (some t)) (hnone : s.fault = none) (hk : s.Holds t k)
    (hpeer : (∀ u i, s.data k = some u → s.socket u = some k → s.inode u ≠ some i) →
      s.state k = .connected → ∀ p aw, s.conn k = some p → ¬ (s.parted k l aw).Pending p) :
    (s.sockRelease t k r).Kept := by
  obtain ⟨aw, ⟨u, i, _, _, _, he⟩ | ⟨hdirect, he⟩⟩ :=
    sockRelease_cases (t := t) (r := r) hl
  · rw [he]
    refine goto_kept (hq aw) (parted_calls hc) hnone ⟨?_, ?_, ?_, ?_, ?_⟩ rfl rfl rfl
    · exact fun j hj => by cases hj
    · intro j hj
      have hkj : k = j := Option.some.inj hj
      rw [← hkj]
      exact hk
    · exact fun j hj => by cases hj
    · exact fun j new hj => by cases hj
    · exact fun j serv n hj => by cases hj
  · rw [he]
    refine releaseTail_kept (hq aw) (parted_calls hc) hnone hk.2.1 hk.2.2 ?_
    intro p hp
    by_cases hcon : s.state k = .connected
    · rw [if_pos hcon] at hp
      exact hpeer hdirect hcon p aw hp
    · rw [if_neg hcon] at hp
      cases hp

theorem sockRelease_kept (hq : s.Queues) (hc : s.Calls (some t)) (hnone : s.fault = none)
    (hk : s.Holds t k) (hfirst : s.iconn k = none)
    (hpeer : s.state k = .connected → ∀ p, s.conn k = some p → ¬ s.Pending p) :
    (s.sockRelease t k r).Kept := by
  have hl : Links s.next (s.iconn k) [] := hfirst
  have hsame : update s.opened k false = s.opened := by
    rw [← hk.2.1]
    exact update_eq_self k s.opened
  have hparted : ∀ aw, (s.parted k [] aw).Queues := by
    intro aw
    have hclose := Net.Queues.close (n := s.toNet) (k := k) (l := [])
      (s.parted k [] aw).state hq ?_ ?_ ?_ ?_
    · rw [hsame] at hclose
      exact hclose
    · intro i
      refine ⟨fun hi => by simp at hi, ?_⟩
      rintro ⟨hi, hconn⟩
      obtain ⟨S, hS, hlist⟩ := hq.served i hi
      have hSk : S = k := Option.some.inj (hS.symm.trans hconn)
      subst hSk
      exact absurd hlist.1 (by simp [hk.2.1])
    · exact fun hi => absurd hi.1 (by simp [hk.2.1])
    · exact fun i hi => by simp at hi
    · intro i _ hik
      unfold State.parted
      simp [hik]
  refine release_ends hl hparted hc hnone hk ?_
  intro _ hcon p aw hp hpend
  exact hpeer hcon p hp (parted_pending hpend).1

/-- The close of a connected socket would disconnect a peer that is connecting elsewhere
by now. -/
def State.HitsPeer (s : State) (k : Sock) : Prop :=
  s.state k = .connected ∧ ∃ p, s.conn k = some p ∧ s.Pending p ∧ s.conn p ≠ some k ∧
    ∀ u i, s.data k = some u → s.socket u = some k → s.inode u ≠ some i

theorem sockClose_kept (hq : s.Queues) (hc : s.Calls (some t)) (hnone : s.fault = none)
    (hk : s.opened k = true) (hfree : ∀ t', (s.pc t').sock ≠ some k)
    (hown : s.Pending k → s.conn k = some k) (hhit : ¬ s.HitsPeer k) : (s.sockClose t k).Kept := by
  set s₁ : State := { s with opened := update s.opened k false } with hs₁
  have hlive := hq.opened k hk
  have hqueue : ∃ l, Links s.next (s.iconn k) l ∧
      ∀ i, i ∈ l ↔ s.Pending i ∧ s.conn i = some k := by
    by_cases hacc : s.acceptcon k = true
    · obtain ⟨l, hl⟩ := hq.queue k ⟨hk, hacc⟩
      exact ⟨l, hl.links, hl.mem⟩
    · have hfirst := hq.fresh k hlive (by simpa using hacc)
      refine ⟨[], hfirst, fun i => ⟨fun hi => by simp at hi, ?_⟩⟩
      rintro ⟨hi, hconn⟩
      obtain ⟨S, hS, hlist⟩ := hq.served i hi
      have hSk : S = k := Option.some.inj (hS.symm.trans hconn)
      subst hSk
      exact absurd hlist.2 hacc
  obtain ⟨l, hl, hmem⟩ := hqueue
  have hl₁ : Links s₁.next (s₁.iconn k) l := hl
  have hc₁ : s₁.Calls (some t) := by
    refine hc.change rfl ?_ ?_ (fun _ _ h => h) hc.fresh (fun _ _ h => h)
    · intro t' i hne hi
      have hik : i ≠ k := by
        rintro rfl
        exact hfree t' hi
      exact (update_of_ne hik _ _).trans (hc.sock t' i hne hi)
    · intro t' i hne hi
      obtain ⟨hli, hoi⟩ := hc.own t' i hne hi
      refine ⟨hli, ?_⟩
      by_cases hik : i = k
      · rw [hik]
        exact update_self k false s.opened
      · exact (update_of_ne hik _ _).trans hoi
  have hholds : s₁.Holds t k := by
    refine ⟨hlive, update_self k false s.opened, ?_⟩
    intro t' hne hi
    have hclosed := (hc.own t' k (fun he => hne (Option.some.inj he)) hi).2
    rw [hk] at hclosed
    cases hclosed
  have hparted : ∀ aw, (s₁.parted k l aw).Queues := by
    intro aw
    refine Net.Queues.close (n := s.toNet) (k := k) (l := l)
      (s₁.parted k l aw).state hq hmem hown ?_ ?_
    · intro i hi
      unfold State.parted
      simp [hi]
    · intro i hi hik
      unfold State.parted
      simp [hi, hik, hs₁]
  refine release_ends hl₁ hparted hc₁ hnone hholds ?_
  intro hdirect hcon p aw hp hpend
  obtain ⟨⟨hopen, hst⟩, hpl⟩ := parted_pending hpend
  have hpk : p ≠ k := by
    rintro rfl
    have hclosed : true = false := hopen.symm.trans (update_self p false s.opened)
    cases hclosed
  have hp' : s.Pending p := ⟨(update_of_ne hpk _ _).symm.trans hopen, hst⟩
  exact hhit ⟨hcon, p, hp, hp', fun hconn => hpl ((hmem p).mpr ⟨hp', hconn⟩), hdirect⟩

theorem getFd_kept (hq : s.Queues) (hc : s.Calls (some t)) (hnone : s.fault = none)
    (hk : s.Holds t k) (hacc : s.acceptcon k = false) (hstate : s.state k ≠ .connecting)
    (hpeer : s.state k = .connected → ∀ p, s.conn k = some p → ¬ s.Pending p) :
    (s.getFd t k fd).Kept := by
  unfold State.getFd
  split
  · refine finish_kept (Net.Queues.open hq hk.1 hstate hacc) ?_ hnone
    have hopen : ∀ i, s.opened i = true → update s.opened k true i = true := by
      intro i hi
      by_cases hik : i = k
      · subst hik
        exact update_self i true s.opened
      · exact (update_of_ne hik _ _).trans hi
    refine hc.change rfl (fun t' i hne hi => hopen i (hc.sock t' i hne hi)) ?_
      (fun _ _ h => h) hc.fresh (fun _ _ h => h)
    intro t' i hne hi
    have hik : i ≠ k := by
      rintro rfl
      exact hk.2.2 t' (fun he => hne (congrArg some he)) hi
    obtain ⟨hlive, hclosed⟩ := hc.own t' i hne hi
    exact ⟨hlive, (update_of_ne hik _ _).trans hclosed⟩
  · exact sockRelease_kept hq hc hnone hk (hq.fresh k hk.1 hacc) hpeer

theorem sockAlloc_kept (hq : s.Queues) (hc : s.Calls (some t)) (hfree : s.live k = false) :
    (s.sockAlloc k).Queues ∧ (s.sockAlloc k).Calls (some t) ∧ (s.sockAlloc k).Holds t k := by
  have hclosed : s.opened k = false := by
    by_contra hopen
    have hlive := hq.opened k (by simpa using hopen)
    rw [hfree] at hlive
    cases hlive
  have hne : ∀ i, s.live i = true → i ≠ k := by
    rintro i hi rfl
    rw [hfree] at hi
    cases hi
  refine ⟨?_, ?_, by simp [State.sockAlloc], hclosed, ?_⟩
  · refine Net.Queues.refill hq hfree rfl rfl rfl (fun i hi => update_of_ne hi _ _) ?_
      (fun _ => by simp [State.sockAlloc])
    intro i hi
    exact ⟨update_of_ne hi _ _, update_of_ne hi _ _,
      update_of_ne hi _ _, update_of_ne hi _ _, update_of_ne hi _ _⟩
  · refine hc.change rfl hc.sock ?_ ?_ ?_ ?_
    · intro t' i hi hown
      obtain ⟨hlive, hopen⟩ := hc.own t' i hi hown
      exact ⟨(update_of_ne (hne i hlive) _ _).trans hlive, hopen⟩
    · intro i hi hacc
      exact (update_of_ne (hne i (hq.opened i hi)) _ _).trans hacc
    · intro t' i new hi hpc
      have hown := hc.own t' new hi (by rw [hpc]; rfl)
      obtain ⟨hacc, hst⟩ := hc.fresh t' i new hi hpc
      have hnk := hne new hown.1
      refine ⟨(update_of_ne hnk _ _).trans hacc, ?_⟩
      intro hcon
      exact hst ((update_of_ne hnk _ s.state).symm.trans hcon)
    · intro i hi hst hun
      exact hst ((update_of_ne (hne i (hq.opened i hi)) _ s.state).symm.trans hun)
  · intro t' ht' hown
    exact hne k (hc.own t' k (fun he => ht' (Option.some.inj he)) hown).1 rfl

theorem State.Aside.holds (h : s.Aside s') (hk : s.Holds t k) : s'.Holds t k := by
  unfold State.Holds
  rw [h.net, h.pc]
  exact hk

theorem sysSocket_kept {protocol : Int} (hq : s.Queues) (hc : s.Calls (some t))
    (hnone : s.fault = none) (hfree : s.live k = false) : (s.sysSocket t k protocol fd).Kept := by
  obtain ⟨hq₁, hc₁, hk₁⟩ := sockAlloc_kept hq hc hfree
  have haside : (s.sockAlloc k).Aside ((s.sockAlloc k).unixCreate k protocol).1 :=
    unixCreate_aside
  have hq₂ := haside.queues hq₁
  have hc₂ := haside.calls hc₁
  have hk₂ := haside.holds hk₁
  have hstate : ((s.sockAlloc k).unixCreate k protocol).1.state k = .unconnected := by
    rw [haside.net]
    exact update_self k _ s.state
  have hacc : ((s.sockAlloc k).unixCreate k protocol).1.acceptcon k = false := by
    rw [haside.net]
    exact update_self k _ s.acceptcon
  have hnone₂ := haside.fault.trans hnone
  unfold State.sysSocket
  dsimp only
  split
  · refine sockRelease_kept hq₂ hc₂ hnone₂ hk₂ (hq₂.fresh k hk₂.1 hacc) ?_
    intro hcon
    rw [hstate] at hcon
    cases hcon
  · refine getFd_kept hq₂ hc₂ hnone₂ hk₂ hacc ?_ ?_
    · rw [hstate]
      exact fun h => by cases h
    · intro hcon
      rw [hstate] at hcon
      cases hcon

theorem acceptTurn_kept (hq : s.Queues) (hc : s.Calls (some t)) (hnone : s.fault = none)
    (hS : s.Listening k) (hnew : s.Holds t new) (hacc : s.acceptcon new = false)
    (hstate : s.state new ≠ .connected) : (s.acceptTurn t k new nonblock fd).Kept := by
  unfold State.acceptTurn
  split
  · rename_i c hfirst
    obtain ⟨l, hl⟩ := hq.queue k hS
    obtain ⟨l, rfl⟩ : ∃ l', l = c :: l' := by
      have hlinks := hl.links
      cases l with
      | nil =>
          have hempty : s.iconn k = none := hlinks
          rw [hfirst] at hempty
          cases hempty
      | cons x l =>
          have hx : x = c := Option.some.inj (hlinks.1.symm.trans hfirst)
          exact ⟨l, by rw [hx]⟩
    have hcl := (hl.mem c).mp List.mem_cons_self
    have hcn : c ≠ new := by
      rintro rfl
      exact absurd hcl.1.1 (by simp [hnew.2.1])
    have hq₁ := Net.Queues.accept hq hS hl hnew.2.1
    set s₁ : State := { s with
      iconn := update s.iconn k (s.next c)
      next := update s.next c none
      conn := update (update s.conn new (some c)) c (some new)
      state := update (update s.state c .connected) new .connected
      accepted := s.stamp c :: s.accepted } with hs₁
    have hc₁ : s₁.Calls (some t) := by
      refine hc.change rfl hc.sock hc.own (fun _ _ h => h) ?_ ?_
      · intro t' i new' hi hpc
        have hown := hc.own t' new' hi (by rw [hpc]; rfl)
        obtain ⟨hacc', hst'⟩ := hc.fresh t' i new' hi hpc
        refine ⟨hacc', ?_⟩
        have hnn : new' ≠ new := by
          rintro rfl
          exact hnew.2.2 t' (fun he => hi (congrArg some he)) (by rw [hpc]; rfl)
        have hnc : new' ≠ c := by
          rintro rfl
          exact absurd hcl.1.1 (by simp [hown.2])
        intro hcon
        rw [hs₁] at hcon
        dsimp only at hcon
        rw [update_of_ne hnn, update_of_ne hnc] at hcon
        exact hst' hcon
      · intro i hi hst
        have hin : i ≠ new := by
          rintro rfl
          exact absurd hi (by simp [hnew.2.1])
        rw [hs₁]
        dsimp only
        rw [update_of_ne hin]
        by_cases hic : i = c
        · rw [hic, update_self]
          exact fun he => by cases he
        · rw [update_of_ne hic]
          exact hst
    have hstc : s₁.state c = .connected := by
      rw [hs₁]
      dsimp only
      rw [update_of_ne hcn, update_self]
    have hstn : s₁.state new = .connected := update_self new _ _
    have hconn : s₁.conn new = some c := by
      rw [hs₁]
      dsimp only
      rw [update_of_ne (Ne.symm hcn), update_self]
    unfold State.acceptEnd
    dsimp only
    rw [← hs₁]
    have haside : s₁.Aside (s₁.unixDataRef (s.data c)) := unixDataRef_aside
    split
    · rename_i w u _ _
      have haside' : s₁.Aside (State.wake { s₁.unixDataRef (s.data c) with
          peerupd := update (s₁.unixDataRef (s.data c)).peerupd w
            ((s₁.unixDataRef (s.data c)).data c)
          sunFamily := update (s₁.unixDataRef (s.data c)).sunFamily w
            ((s₁.unixDataRef (s.data c)).sunFamily u)
          sockaddrLen := update (s₁.unixDataRef (s.data c)).sockaddrLen w
            ((s₁.unixDataRef (s.data c)).sockaddrLen u) } c) :=
        haside.trans ⟨rfl, rfl, rfl⟩
      refine getFd_kept (haside'.queues hq₁) (haside'.calls hc₁) (haside'.fault.trans hnone)
        (haside'.holds hnew) ?_ ?_ ?_
      · rw [haside'.net]
        exact hacc
      · rw [haside'.net, hstn]
        exact fun h => by cases h
      · intro _ p hp hpend
        rw [haside'.net] at hp hpend
        rw [hconn] at hp
        rw [← Option.some.inj hp] at hpend
        rw [hpend.2] at hstc
        cases hstc
    · exact fail_kept (haside.queues hq₁) (by simp)
  · rename_i hempty
    split
    · refine sockRelease_kept hq hc hnone hnew (hq.fresh new hnew.1 hacc) ?_
      exact fun hcon => absurd hcon hstate
    · refine goto_kept hq hc hnone ⟨?_, ?_, ?_, ?_, ?_⟩ rfl rfl rfl
      · intro i hi
        have hik : k = i := Option.some.inj hi
        rw [← hik]
        exact hS.1
      · intro i hi
        have hin : new = i := Option.some.inj hi
        rw [← hin]
        exact hnew
      · intro i hi
        have hik : k = i := Option.some.inj hi
        rw [← hik]
        exact hS.2
      · intro i new' hi
        cases hi
        exact ⟨hacc, hstate⟩
      · exact fun i serv n hi => by cases hi

theorem acceptStart_kept (hq : s.Queues) (hc : s.Calls (some t)) (hnone : s.fault = none)
    (hS : s.Listening k) (hfree : s.live new = false) :
    (s.acceptStart t k new nonblock fd).Kept := by
  obtain ⟨hq₁, hc₁, hk₁⟩ := sockAlloc_kept hq hc hfree
  have haside : (s.sockAlloc new).Aside ((s.sockAlloc new).unixCreate new 0).1 :=
    unixCreate_aside
  have hq₂ := haside.queues hq₁
  have hc₂ := haside.calls hc₁
  have hk₂ := haside.holds hk₁
  have hstate : ((s.sockAlloc new).unixCreate new 0).1.state new = .unconnected := by
    rw [haside.net]
    exact update_self new _ s.state
  have hacc : ((s.sockAlloc new).unixCreate new 0).1.acceptcon new = false := by
    rw [haside.net]
    exact update_self new _ s.acceptcon
  have hne : k ≠ new := by
    rintro rfl
    have hlive := hq.opened k hS.1
    rw [hfree] at hlive
    cases hlive
  have hS₂ : ((s.sockAlloc new).unixCreate new 0).1.Listening k := by
    rw [haside.net]
    exact ⟨hS.1, (update_of_ne hne _ _).trans hS.2⟩
  have hnone₂ := haside.fault.trans hnone
  unfold State.acceptStart
  dsimp only
  split
  · refine sockRelease_kept hq₂ hc₂ hnone₂ hk₂ (hq₂.fresh new hk₂.1 hacc) ?_
    intro hcon
    rw [hstate] at hcon
    cases hcon
  · refine acceptTurn_kept hq₂ hc₂ hnone₂ hS₂ hk₂ hacc ?_
    rw [hstate]
    exact fun h => by cases h

theorem connectEnd_kept (hq : s.Queues) (hc : s.Calls (some t)) (hnone : s.fault = none) :
    (s.connectEnd t k attempt).Kept := by
  unfold State.connectEnd
  split
  · have haside : s.Aside { s with returned := attempt :: s.returned } := ⟨rfl, rfl, rfl⟩
    exact finish_kept (haside.queues hq) (haside.calls hc) hnone
  · rename_i c _
    split
    · exact fail_kept hq (by simp)
    · rename_i u _
      have haside : s.Aside { s.unixDataRef (s.data c) with
          peerupd := update (s.unixDataRef (s.data c)).peerupd u
            ((s.unixDataRef (s.data c)).data c)
          returned := attempt :: (s.unixDataRef (s.data c)).returned } :=
        unixDataRef_aside.trans ⟨rfl, rfl, rfl⟩
      exact finish_kept (haside.queues hq) (haside.calls hc) (haside.fault.trans hnone)

theorem awaitconn_kept (hq : s.Queues) (hc : s.Calls (some t)) (hnone : s.fault = none)
    (hk : s.opened k = true)
    (hbad : s.acceptcon serv = true → s.opened serv = true ∧ ¬ s.Pending k) :
    (s.awaitconn t k serv nonblock).Kept := by
  unfold State.awaitconn
  split
  · exact finish_kept hq hc hnone
  · rename_i hacc
    have hacc' : s.acceptcon serv = true := by simpa using hacc
    obtain ⟨hserv, hnot⟩ := hbad hacc'
    obtain ⟨l, hl⟩ := hq.queue serv ⟨hserv, hacc'⟩
    have hkl : k ∉ l := fun hmem => hnot ((hl.mem k).mp hmem).1
    obtain ⟨nx, ic, henq, hlinks, hic, hnx⟩ := enqueue_links hl.links hkl
    rw [henq]
    dsimp only
    have hq₁ := Net.Queues.enqueue hq hk hnot ⟨hserv, hacc'⟩ hl hlinks hic hnx
    set s₁ : State := State.wake { s with
      next := nx
      iconn := ic
      state := update s.state k .connecting
      conn := update s.conn k (some serv)
      clock := s.clock + 1
      stamp := update s.stamp k (s.clock + 1) } serv with hs₁
    have hc₁ : s₁.Calls (some t) := by
      refine hc.change rfl hc.sock hc.own (fun _ _ h => h) ?_ ?_
      · intro t' i new hi hpc
        have hown := hc.own t' new hi (by rw [hpc]; rfl)
        obtain ⟨hacc, hst⟩ := hc.fresh t' i new hi hpc
        refine ⟨hacc, ?_⟩
        have hnk : new ≠ k := by
          rintro rfl
          rw [hown.2] at hk
          cases hk
        intro hcon
        exact hst ((update_of_ne hnk _ s.state).symm.trans hcon)
      · intro i _ hst
        rw [hs₁]
        unfold State.wake
        dsimp only
        by_cases hik : i = k
        · rw [hik, update_self]
          exact fun he => by cases he
        · rw [update_of_ne hik]
          exact hst
    have hq₁' : s₁.Queues := hq₁
    split
    · exact connectEnd_kept hq₁' hc₁ hnone
    · split
      · exact finish_kept hq₁' hc₁ hnone
      · refine goto_kept hq₁' hc₁ hnone ⟨?_, ?_, ?_, ?_, ?_⟩ rfl rfl rfl
        · intro i hi
          have hik : k = i := Option.some.inj hi
          rw [← hik]
          exact hk
        · exact fun i hi => by cases hi
        · exact fun i hi => by cases hi
        · exact fun i new hi => by cases hi
        · intro i serv' n hi
          cases hi
          rw [hs₁]
          unfold State.wake
          dsimp only
          rw [update_self]
          exact fun he => by cases he

theorem connectTurn_kept (hq : s.Queues) (hc : s.Calls (some t)) (hnone : s.fault = none)
    (hk : s.opened k = true) (hjoin : s.state k ≠ .unconnected)
    (hbad : s.Pending k → s.conn k ≠ some serv) : (s.connectTurn t k serv attempt).Kept := by
  unfold State.connectTurn
  split
  · rename_i hst
    have hpend : s.Pending k := by
      refine ⟨hk, ?_⟩
      cases hs : s.state k with
      | unconnected => exact absurd hs hjoin
      | connecting => rfl
      | connected => exact absurd hs hst.1
      | disconnecting => exact absurd hs hst.2
    split
    · rename_i hconn
      exact absurd hconn (hbad hpend)
    · split
      · exact finish_kept hq hc hnone
      · exact finish_kept hq hc hnone
  · exact connectEnd_kept hq hc hnone

theorem sysBind_kept (hq : s.Queues) (hc : s.Calls (some t)) (hnone : s.fault = none)
    (hk : s.opened k = true) : (s.sysBind t k len family).Kept := by
  unfold State.sysBind
  split
  · exact finish_kept hq hc hnone
  split
  · exact finish_kept hq hc hnone
  split
  · exact fail_kept hq (by simp)
  split
  · exact finish_kept hq hc hnone
  rename_i u _ _
  have haside : s.Aside { s with sunFamily := update s.sunFamily u family } :=
    ⟨rfl, rfl, rfl⟩
  dsimp only
  split
  · exact finish_kept (haside.queues hq) (haside.calls hc) hnone
  · exact goto_kept hq hc hnone (fits_on hk rfl rfl rfl (by simp)) rfl rfl rfl

theorem bindEnd_kept {u : Upd} {r : Except ℕ+ Inode}
    (hq : s.Queues) (hc : s.Calls (some t)) (hnone : s.fault = none) :
    (s.bindEnd t u len r).Kept := by
  cases r with
  | error e => exact finish_kept hq hc hnone
  | ok i =>
      have haside : s.Aside { s with
          inode := update s.inode u (some i)
          sockaddrLen := update s.sockaddrLen u len } := ⟨rfl, rfl, rfl⟩
      exact finish_kept (haside.queues hq) (haside.calls hc) hnone

theorem sysListen_kept (hq : s.Queues) (hc : s.Calls (some t)) (hnone : s.fault = none)
    (hk : s.opened k = true) : (s.sysListen t k).Kept := by
  unfold State.sysListen
  split
  · exact finish_kept hq hc hnone
  · refine finish_kept (Net.Queues.listen hq hk) ?_ hnone
    refine hc.change rfl hc.sock hc.own ?_ ?_ (fun _ _ h => h)
    · intro i _ hi
      by_cases hik : i = k
      · subst hik
        exact update_self i true s.acceptcon
      · exact (update_of_ne hik _ _).trans hi
    · intro t' i new hne hpc
      have hown := hc.own t' new hne (by rw [hpc]; rfl)
      obtain ⟨hacc, hst⟩ := hc.fresh t' i new hne hpc
      have hnk : new ≠ k := by
        rintro rfl
        rw [hown.2] at hk
        cases hk
      exact ⟨(update_of_ne hnk _ _).trans hacc, hst⟩

theorem sysAccept_kept (hq : s.Queues) (hc : s.Calls (some t)) (hnone : s.fault = none)
    (hk : s.opened k = true) : (s.sysAccept t k nonblock).Kept := by
  unfold State.sysAccept
  split
  · exact finish_kept hq hc hnone
  split
  · exact finish_kept hq hc hnone
  · rename_i hacc
    refine goto_kept hq hc hnone ⟨?_, ?_, ?_, ?_, ?_⟩ rfl rfl rfl
    · intro i hi
      have hik : k = i := Option.some.inj hi
      rw [← hik]
      exact hk
    · exact fun i hi => by cases hi
    · intro i hi
      have hik : k = i := Option.some.inj hi
      rw [← hik]
      simpa using hacc
    · exact fun i new hi => by cases hi
    · exact fun i serv n hi => by cases hi

theorem sysConnect_kept (hq : s.Queues) (hc : s.Calls (some t)) (hnone : s.fault = none)
    (hk : s.opened k = true) : (s.sysConnect t k len family nonblock).Kept := by
  unfold State.sysConnect
  split
  · exact finish_kept hq hc hnone
  split
  · exact finish_kept hq hc hnone
  · exact finish_kept hq hc hnone
  · split <;> exact finish_kept hq hc hnone
  split
  · exact finish_kept hq hc hnone
  split
  · exact finish_kept hq hc hnone
  · exact goto_kept hq hc hnone (fits_on hk rfl rfl rfl (by simp)) rfl rfl rfl

theorem connectLookup_kept {r : Except ℕ+ Inode}
    (hq : s.Queues) (hc : s.Calls (some t)) (hnone : s.fault = none) (hk : s.opened k = true) :
    (s.connectLookup t k nonblock r).Kept := by
  cases r with
  | error e => exact finish_kept hq hc hnone
  | ok i =>
      cases hlook : s.unixDataLookup AF_UNIX i with
      | none =>
          have he : s.connectLookup t k nonblock (.ok i) = s.finish t (-EINVAL) := by
            simp only [State.connectLookup, hlook]
          rw [he]
          exact finish_kept hq hc hnone
      | some u =>
          have he : s.connectLookup t k nonblock (.ok i) = s.goto t (.found k u nonblock) := by
            simp only [State.connectLookup, hlook]
          rw [he]
          exact goto_kept hq hc hnone (fits_on hk rfl rfl rfl (by simp)) rfl rfl rfl

theorem wakeConn_kept (hq : s.Queues) (hc : s.Calls (some t)) (hnone : s.fault = none) :
    ((s.wakeConn k).finish t r).Kept := by
  unfold State.wakeConn
  split
  · split
    · refine ⟨hq, ?_, fun h => by cases h⟩
      intro f hf
      rw [← Option.some.inj hf]
      simp
    · rename_i c _
      have haside : s.Aside (s.wake c) := wake_aside
      exact finish_kept (haside.queues hq) (haside.calls hc) hnone
  · exact finish_kept hq hc hnone

theorem readTurn_kept (hq : s.Queues) (hc : s.Calls (some t)) (hnone : s.fault = none)
    (hk : s.opened k = true) : (s.readTurn t k size nonblock).Kept := by
  unfold State.readTurn
  split
  · exact fail_kept hq (by simp)
  rename_i u _
  split
  · split
    · exact finish_kept hq hc hnone
    split
    · exact finish_kept hq hc hnone
    · exact goto_kept hq hc hnone (fits_on hk rfl rfl rfl (by simp)) rfl rfl rfl
  · have haside : s.Aside { s with
        bpTail := update s.bpTail u
          (readLoop (s.bpHead u) size (s.bpTail u) size).1 } := ⟨rfl, rfl, rfl⟩
    exact wakeConn_kept (haside.queues hq) (haside.calls hc) hnone

theorem sockRead_kept (hq : s.Queues) (hc : s.Calls (some t)) (hnone : s.fault = none)
    (hk : s.opened k = true) : (s.sockRead t k size nonblock).Kept := by
  unfold State.sockRead
  split
  · exact finish_kept hq hc hnone
  split
  · exact finish_kept hq hc hnone
  · exact readTurn_kept hq hc hnone hk

theorem sigpipe_kept (hq : s.Queues) (hc : s.Calls (some t)) (hnone : s.fault = none) :
    (s.sigpipe t).Kept := by
  have haside : s.Aside { s with signal := update s.signal t true } := ⟨rfl, rfl, rfl⟩
  exact finish_kept (haside.queues hq) (haside.calls hc) hnone

theorem writeTurn_kept {pupd : Upd} (hq : s.Queues) (hc : s.Calls (some t)) (hnone : s.fault = none)
    (hk : s.opened k = true) : (s.writeTurn t k pupd size nonblock).Kept := by
  unfold State.writeTurn
  split
  · split
    · exact finish_kept hq hc hnone
    · exact goto_kept hq hc hnone (fits_on hk rfl rfl rfl (by simp)) rfl rfl rfl
  split
  · exact sigpipe_kept hq hc hnone
  · have haside : s.Aside { s with
        bpHead := update s.bpHead pupd
          (writeLoop (s.bpTail pupd) size (s.bpHead pupd) size).1 } := ⟨rfl, rfl, rfl⟩
    exact wakeConn_kept (haside.queues hq) (haside.calls hc) hnone

theorem sockWrite_kept (hq : s.Queues) (hc : s.Calls (some t)) (hnone : s.fault = none)
    (hk : s.opened k = true) : (s.sockWrite t k size nonblock).Kept := by
  unfold State.sockWrite
  split
  · exact finish_kept hq hc hnone
  split
  · exact finish_kept hq hc hnone
  split
  · exact sigpipe_kept hq hc hnone
  · exact finish_kept hq hc hnone
  · exact finish_kept hq hc hnone
  split
  · exact fail_kept hq (by simp)
  split
  · exact fail_kept hq (by simp)
  · exact writeTurn_kept hq hc hnone hk

end Operations

end Unix
end Elks
