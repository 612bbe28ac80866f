import Elks.Unix.Calls

/-!
# Pending connections (net/socket.c, net/unix/af_unix.c)

An interrupted connect takes its socket from the queue but leaves it connecting,
`sock_release` takes no socket from a queue at all, and a connect may find a server that
is being closed, or its own socket on a queue.

**Result.**  `pending_queues`: the queues are in order in every state of a run if and
only if no step of it disturbs them.
-/

namespace Elks
namespace Unix

open Lib
open Function (update update_of_ne update_self)

section Statement

/-- The pending connections are where they belong, and the code has not gone wrong over
a queue. -/
structure State.Orderly (s : State) : Prop where
  queue : ∀ S, s.Listening S → ∃ l, s.Queue S l
  one : ∀ k, s.Pending k → ∃! S, s.Listening S ∧ ∃ l, s.Queue S l ∧ k ∈ l
  fault : ∀ f, s.fault = some f → f ≠ .endless ∧ f ≠ .lost ∧ f ≠ .noServer

/-- The steps that bring the queues out of order. -/
def State.Disturbs (s : State) (l : Label) : Prop :=
  s.fault = none ∧
    match l with
    | .run t _ =>
        -- a connect is interrupted while its socket is still connecting
        (∃ k serv n, s.pc t = .connect k serv n ∧ s.awake t = true ∧ s.Pending k ∧
          s.conn k = some serv) ∨
        -- the server has been closed meanwhile, or the socket is on a queue already
        (∃ k u nonblock, s.pc t = .found k u nonblock ∧
          (s.socket u = none ∨ ∃ serv, s.socket u = some serv ∧ s.acceptcon serv = true ∧
            (s.opened serv = false ∨ s.Pending k))) ∨
        ∃ k u p r, s.pc t = .release k u (some p) r ∧ s.Pending p
    | .close t k =>
        s.Ready t k ∧ (∀ t', (s.pc t').sock ≠ some k) ∧
          ((s.Pending k ∧ s.conn k ≠ some k) ∨ s.HitsPeer k)
    | _ => False

/-- A run without such a step. -/
def State.Undisturbed : State → List Label → Prop
  | _, [] => True
  | s, l :: ls => ¬ s.Disturbs l ∧ (s.step l).Undisturbed ls

end Statement

section Runs

variable {s : State} {t : Task} {k : Sock} {l : Label}

theorem State.Aside.kept {s' : State} (h : s.Aside s') (hk : s.Kept) : s'.Kept where
  queues := h.queues hk.queues
  harmless f hf := hk.harmless f (h.fault.symm.trans hf)
  calls hnone := h.calls (hk.calls (h.fault.symm.trans hnone))

theorem answer_kept {r : Except ℕ+ Inode} (h : s.Kept) (hnone : s.fault = none) :
    (s.answer t r).Kept := by
  have hc := h.calls hnone
  unfold State.answer
  split
  · exact bindEnd_kept h.queues hc.but hnone
  · rename_i k nonblock hpc
    exact connectLookup_kept h.queues hc.but hnone (hc.sock t k (by simp) (by rw [hpc]; rfl))
  · exact h

theorem gotInode_kept {slot : Sock} {fd : Bool} (h : s.Kept) (hnone : s.fault = none) :
    (s.gotInode t slot fd).Kept := by
  have hc := h.calls hnone
  unfold State.gotInode
  split
  · rename_i k nonblock hpc
    split
    · exact h
    · rename_i hlive
      have hS : s.Listening k :=
        ⟨hc.sock t k (by simp) (by rw [hpc]; rfl), hc.listens t k (by simp) (by rw [hpc]; rfl)⟩
      exact acceptStart_kept h.queues hc.but hnone hS (by simpa using hlive)
  · exact h

theorem runTask_kept {fd : Bool} (h : s.Kept) (hnone : s.fault = none)
    (hcalm : ¬ s.Disturbs (.run t fd)) : (s.runTask t fd).Kept := by
  have hc := h.calls hnone
  have hq := h.queues
  have hsock : ∀ k, (s.pc t).sock = some k → s.opened k = true :=
    fun k hk => hc.sock t k (by simp) hk
  unfold State.runTask
  split
  · rename_i k u nonblock hpc
    have hk := hsock k (by rw [hpc]; rfl)
    split
    · rename_i hu
      exact absurd ⟨hnone, Or.inr (Or.inl ⟨k, u, nonblock, hpc, Or.inl hu⟩)⟩ hcalm
    · rename_i serv hu
      refine awaitconn_kept hq hc.but hnone hk ?_
      intro hacc
      constructor
      · by_contra hclosed
        have hclosed' : s.opened serv = false := by simpa using hclosed
        exact hcalm ⟨hnone, Or.inr (Or.inl ⟨k, u, nonblock, hpc,
          Or.inr ⟨serv, hu, hacc, Or.inl hclosed'⟩⟩)⟩
      · intro hpend
        exact hcalm ⟨hnone, Or.inr (Or.inl ⟨k, u, nonblock, hpc,
          Or.inr ⟨serv, hu, hacc, Or.inr hpend⟩⟩)⟩
  · rename_i k serv n hpc
    split
    · rename_i hawake
      refine connectTurn_kept hq hc.but hnone (hsock k (by rw [hpc]; rfl))
        (hc.joins t k serv n (by simp) hpc) ?_
      intro hpend hconn
      exact hcalm ⟨hnone, Or.inl ⟨k, serv, n, hpc, hawake, hpend, hconn⟩⟩
    · exact h
  · rename_i k new hpc
    obtain ⟨hacc, hst⟩ := hc.fresh t k new (by simp) hpc
    have hholds : s.Holds t new := hc.holds (by rw [hpc]; rfl)
    split
    · split
      · exact sockRelease_kept hq hc.but hnone hholds (hq.fresh new hholds.1 hacc)
          fun hcon => absurd hcon hst
      · exact acceptTurn_kept hq hc.but hnone ⟨hsock k (by rw [hpc]; rfl),
          hc.listens t k (by simp) (by rw [hpc]; rfl)⟩ hholds hacc hst
    · exact h
  · rename_i k size hpc
    split
    · split
      · exact finish_kept hq hc.but hnone
      · exact readTurn_kept hq hc.but hnone (hsock k (by rw [hpc]; rfl))
    · exact h
  · rename_i k pupd size hpc
    split
    · split
      · exact finish_kept hq hc.but hnone
      split
      · exact sigpipe_kept hq hc.but hnone
      · exact writeTurn_kept hq hc.but hnone (hsock k (by rw [hpc]; rfl))
    · exact h
  · rename_i k u peer r hpc
    have hholds : s.Holds t k := hc.holds (by rw [hpc]; rfl)
    refine releaseTail_kept hq hc.but hnone hholds.2.1 hholds.2.2 ?_
    rintro p rfl hpend
    exact hcalm ⟨hnone, Or.inr (Or.inr ⟨k, u, p, r, hpc, hpend⟩)⟩
  · exact h

theorem reuse_kept {c : Content} (h : s.Kept) (hfree : s.live k = false) : (s.reuse k c).Kept := by
  have hne : ∀ i, s.live i = true → i ≠ k := by
    rintro i hi rfl
    rw [hfree] at hi
    cases hi
  refine ⟨?_, h.harmless, ?_⟩
  · refine Net.Queues.refill h.queues hfree rfl rfl rfl (fun _ _ => rfl) ?_ ?_
    · intro i hi
      exact ⟨update_of_ne hi _ _, update_of_ne hi _ _,
        update_of_ne hi _ _, update_of_ne hi _ _, update_of_ne hi _ _⟩
    · intro hlive
      exact absurd (hfree.symm.trans hlive) (by simp)
  · intro hnone
    have hc := h.calls hnone
    refine hc.change rfl hc.sock hc.own ?_ ?_ ?_
    · intro i hi hacc
      exact (update_of_ne (hne i (h.queues.opened i hi)) _ _).trans hacc
    · intro t' i new hi hpc
      have hown := hc.own t' new hi (by rw [hpc]; rfl)
      obtain ⟨hacc, hst⟩ := hc.fresh t' i new hi hpc
      have hnk := hne new hown.1
      refine ⟨(update_of_ne hnk _ _).trans hacc, ?_⟩
      intro hcon
      exact hst ((update_of_ne hnk _ s.state).symm.trans hcon)
    · intro i hi hst hun
      exact hst ((update_of_ne (hne i (h.queues.opened i hi)) _ s.state).symm.trans hun)

theorem step_kept (h : s.Kept) (hcalm : ¬ s.Disturbs l) : (s.step l).Kept := by
  unfold State.step
  split
  · exact h
  rename_i hfault
  have hnone : s.fault = none := by simpa using hfault
  have hc := (h.calls hnone)
  have hq := h.queues
  cases l with
  | socket t slot protocol fd =>
      dsimp only
      split
      · rename_i hgo
        exact sysSocket_kept hq hc.but hnone hgo.2
      · exact h
  | bind t k len family =>
      dsimp only
      split
      · rename_i hgo
        exact sysBind_kept hq hc.but hnone hgo.2
      · exact h
  | listen t k =>
      dsimp only
      split
      · rename_i hgo
        exact sysListen_kept hq hc.but hnone hgo.2
      · exact h
  | accept t k nonblock =>
      dsimp only
      split
      · rename_i hgo
        exact sysAccept_kept hq hc.but hnone hgo.2
      · exact h
  | connect t k len family nonblock =>
      dsimp only
      split
      · rename_i hgo
        exact sysConnect_kept hq hc.but hnone hgo.2
      · exact h
  | read t k size nonblock =>
      dsimp only
      split
      · rename_i hgo
        exact sockRead_kept hq hc.but hnone hgo.2
      · exact h
  | write t k size nonblock =>
      dsimp only
      split
      · rename_i hgo
        exact sockWrite_kept hq hc.but hnone hgo.2
      · exact h
  | close t k =>
      dsimp only
      split
      · rename_i hgo
        refine sockClose_kept hq hc.but hnone hgo.1.2 hgo.2 ?_ ?_
        · intro hpend
          by_contra hconn
          exact hcalm ⟨hnone, hgo.1, hgo.2, Or.inl ⟨hpend, hconn⟩⟩
        · intro hhit
          exact hcalm ⟨hnone, hgo.1, hgo.2, Or.inr hhit⟩
      · exact h
  | answer t r => exact answer_kept h hnone
  | inode t slot fd => exact gotInode_kept h hnone
  | run t fd => exact runTask_kept h hnone hcalm
  | signal t =>
      have haside : s.Aside { s with
          signal := update s.signal t true
          awake := update s.awake t true } := ⟨rfl, rfl, rfl⟩
      exact haside.kept h
  | deliver t =>
      dsimp only
      split
      · have haside : s.Aside { s with signal := update s.signal t false } :=
          ⟨rfl, rfl, rfl⟩
        exact haside.kept h
      · exact h
  | reuse k c =>
      dsimp only
      split
      · exact h
      · rename_i hlive
        exact reuse_kept h (by simpa using hlive)

theorem State.Init.kept (h : s.Init) : s.Kept where
  queues := by
    have hclosed : ∀ k, s.opened k ≠ true := by simp [h.opened]
    refine ⟨?_, ?_, ?_, ?_, ?_⟩
    · exact fun k hk => absurd hk (hclosed k)
    · exact fun S hS => absurd hS.1 (hclosed S)
    · exact fun k hk => absurd hk.1 (hclosed k)
    · exact fun k hk => absurd hk (by simp [h.live k])
    · intro k
      rw [h.stamp k]
      exact Nat.zero_le _
  harmless := harmless_of_none h.fault
  calls _ := by
    have hidle := h.pc
    refine ⟨?_, ?_, ?_, ?_, ?_, ?_⟩
    · exact fun t k _ hk => by rw [hidle t] at hk; cases hk
    · exact fun t k _ hk => by rw [hidle t] at hk; cases hk
    · exact fun t t' k _ _ hk => by rw [hidle t] at hk; cases hk
    · exact fun t k _ hk => by rw [hidle t] at hk; cases hk
    · exact fun t k new _ hk => by rw [hidle t] at hk; cases hk
    · exact fun t k serv n _ hk => by rw [hidle t] at hk; cases hk

theorem State.Kept.orderly (h : s.Kept) : s.Orderly where
  queue := h.queues.queue
  one k hk := by
    obtain ⟨S, hconn, hS⟩ := h.queues.served k hk
    obtain ⟨l, hl⟩ := h.queues.queue S hS
    refine ⟨S, ⟨hS, l, hl, (hl.mem k).mpr ⟨hk, hconn⟩⟩, ?_⟩
    rintro S' ⟨_, l', hl', hmem⟩
    exact Option.some.inj (((hl'.mem k).mp hmem).2.symm.trans hconn)
  fault := h.harmless

theorem run_kept {ls : List Label} (h : s.Kept) (hcalm : s.Undisturbed ls) : (s.run ls).Kept := by
  induction ls generalizing s with
  | nil => exact h
  | cons l ls ih => exact ih (step_kept h hcalm.1) hcalm.2

end Runs

section Disturbed

variable {s s' : State} {t : Task} {k p S : Sock} {l : List Sock}

theorem State.Orderly.stays (ho : s'.Orderly) (hl : s.Queue S l) (hnext : s'.next = s.next)
    (hfirst : s'.iconn S = s.iconn S) (hS : s'.Listening S) (hp : p ∈ l) : s'.Pending p := by
  obtain ⟨l', hl'⟩ := ho.queue S hS
  have hlinks := hl'.links
  rw [hnext, hfirst] at hlinks
  rw [hl.links.unique hlinks] at hp
  exact ((hl'.mem p).mp hp).1

theorem Net.Queues.links {n : Net} (h : n.Queues) (hk : n.opened k = true) :
    ∃ l, Links n.next (n.iconn k) l := by
  by_cases hacc : n.acceptcon k = true
  · obtain ⟨l, hl⟩ := h.queue k ⟨hk, hacc⟩
    exact ⟨l, hl.links⟩
  · exact ⟨[], h.fresh k (h.opened k hk) (by simpa using hacc)⟩

theorem releaseTail_net (upd : Option Upd) (peer : Option Sock) (r : Int) :
    (s.releaseTail t k upd peer r).next = s.next ∧
      (s.releaseTail t k upd peer r).iconn = s.iconn ∧
      (s.releaseTail t k upd peer r).acceptcon = s.acceptcon ∧
      (s.releaseTail t k upd peer r).opened = s.opened ∧
      (s.releaseTail t k upd peer r).fault = s.fault ∧
      ∀ p, peer = some p → (s.releaseTail t k upd peer r).state p = .disconnecting := by
  have haside : s.Aside (s.unixRelease k upd) := unixRelease_aside
  have hnext : (s.unixRelease k upd).next = s.next := by rw [haside.net]
  have hic : (s.unixRelease k upd).iconn = s.iconn := by rw [haside.net]
  have hacc : (s.unixRelease k upd).acceptcon = s.acceptcon := by rw [haside.net]
  have hopen : (s.unixRelease k upd).opened = s.opened := by rw [haside.net]
  cases peer with
  | none => exact ⟨hnext, hic, hacc, hopen, haside.fault, fun p hp => by cases hp⟩
  | some q =>
      refine ⟨hnext, hic, hacc, hopen, haside.fault, ?_⟩
      rintro p ⟨⟩
      exact update_self q _ _

theorem interrupted_disturbs {serv : Sock} {n : Nat} (hq : s.Queues) (hk : s.Pending k)
    (hconn : s.conn k = some serv) :
    ¬ (s.connectTurn t k serv n).Orderly ∧
      (s.connectTurn t k serv n).fault = s.fault := by
  obtain ⟨S, hS, hlist⟩ := hq.served k hk
  have hSs : S = serv := Option.some.inj (hS.symm.trans hconn)
  subst hSs
  obtain ⟨l, hl⟩ := hq.queue S hlist
  obtain ⟨a, b, rfl⟩ := List.append_of_mem ((hl.mem k).mpr ⟨hk, hconn⟩)
  obtain ⟨nx, ic, hun, hlinks⟩ := unlink_links hl.links
  have hst : s.state k ≠ .connected ∧ s.state k ≠ .disconnecting := by
    rw [hk.2]
    exact ⟨by simp, by simp⟩
  have he : s.connectTurn t k S n =
      State.finish { s with next := nx, iconn := ic } t (-EINTR) := by
    unfold State.connectTurn
    rw [if_pos hst, if_pos hconn, hun]
  rw [he]
  refine ⟨?_, rfl⟩
  intro ho
  obtain ⟨S', ⟨_, l', hl', hmem⟩, _⟩ := ho.one k hk
  have hSS : S' = S := Option.some.inj (((hl'.mem k).mp hmem).2.symm.trans hconn)
  subst hSS
  have hsame : l' = a ++ b := Links.unique hl'.links hlinks
  rw [hsame] at hmem
  have hnodup := hl.links.nodup
  have hnot : k ∉ a ++ b := by
    have hperm : (k :: (a ++ b)).Nodup := List.perm_middle.nodup_iff.mp hnodup
    exact (List.nodup_cons.mp hperm).1
  exact hnot hmem

theorem closed_disturbs (hq : s.Queues) (hk : s.Pending k) (hconn : s.conn k ≠ some k) :
    ¬ (s.sockClose t k).Orderly := by
  intro ho
  obtain ⟨S, hS, hlist⟩ := hq.served k hk
  obtain ⟨l, hl⟩ := hq.queue S hlist
  have hSk : S ≠ k := by
    rintro rfl
    exact hconn hS
  obtain ⟨l₀, hl₀⟩ := hq.links hk.1
  set s₁ : State := { s with opened := update s.opened k false } with hs₁
  have hrest : (s.sockClose t k).next = s.next ∧ (s.sockClose t k).iconn = s.iconn ∧
      (s.sockClose t k).acceptcon = s.acceptcon ∧
      (s.sockClose t k).opened = update s.opened k false := by
    obtain ⟨aw, ⟨u, i, _, _, _, he⟩ | ⟨_, he⟩⟩ :=
      sockRelease_cases (s := s₁) (t := t) (r := 0) hl₀
    · unfold State.sockClose
      rw [← hs₁, he]
      exact ⟨rfl, rfl, rfl, rfl⟩
    · unfold State.sockClose
      rw [← hs₁, he]
      have hnet := releaseTail_net (s := s₁.parted k l₀ aw) (t := t) (k := k)
        ((s₁.data k).filter fun u => s₁.socket u = some k)
        (if s₁.state k = .connected then s₁.conn k else none) 0
      exact ⟨hnet.1, hnet.2.1, hnet.2.2.1, hnet.2.2.2.1⟩
  obtain ⟨hnext, hic, hacc, hopen⟩ := hrest
  have hlis : (s.sockClose t k).Listening S := by
    refine ⟨?_, ?_⟩
    · rw [hopen, update_of_ne hSk]
      exact hlist.1
    · rw [hacc]
      exact hlist.2
  have hpend := ho.stays hl hnext (congrFun hic S) hlis ((hl.mem k).mpr ⟨hk, hS⟩)
  have hclosed := hpend.1
  rw [hopen, update_self] at hclosed
  cases hclosed

theorem parted_disturbs (hq : s.Queues) (hp : s.Pending p) (hnext : s'.next = s.next)
    (hic : s'.iconn = s.iconn) (hacc : s'.acceptcon = s.acceptcon)
    (hopen : ∀ S, s.conn p = some S → s.opened S = true → s'.opened S = true)
    (hstate : s'.state p = .disconnecting) : ¬ s'.Orderly := by
  intro ho
  obtain ⟨S, hS, hlist⟩ := hq.served p hp
  obtain ⟨l, hl⟩ := hq.queue S hlist
  have hlis : s'.Listening S := by
    refine ⟨hopen S hS hlist.1, ?_⟩
    rw [hacc]
    exact hlist.2
  have hpend := ho.stays hl hnext (congrFun hic S) hlis ((hl.mem p).mpr ⟨hp, hS⟩)
  have hst := hpend.2
  rw [hstate] at hst
  cases hst

theorem sockClose_fault (hq : s.Queues) (hk : s.opened k = true) :
    (s.sockClose t k).fault = s.fault := by
  obtain ⟨l₀, hl₀⟩ := hq.links hk
  obtain ⟨aw, ⟨u, i, _, _, _, he⟩ | ⟨_, he⟩⟩ :=
    sockRelease_cases (s := { s with opened := update s.opened k false }) (t := t)
      (r := 0) hl₀
  · unfold State.sockClose
    rw [he]
    rfl
  · unfold State.sockClose
    rw [he]
    exact (releaseTail_net _ _ 0).2.2.2.2.1

theorem hit_disturbs (hq : s.Queues) (hk : s.opened k = true) (hhit : s.HitsPeer k) :
    ¬ (s.sockClose t k).Orderly := by
  obtain ⟨hcon, p, hp, hpend, hpk, hdirect⟩ := hhit
  obtain ⟨l₀, hl₀⟩ := hq.links hk
  set s₁ : State := { s with opened := update s.opened k false } with hs₁
  obtain ⟨aw, ⟨u, i, hdata, hsock, hino, _⟩ | ⟨_, he⟩⟩ :=
    sockRelease_cases (s := s₁) (t := t) (r := 0) hl₀
  · exact absurd hino (hdirect u i hdata hsock)
  · have hclose : s.sockClose t k = (s₁.parted k l₀ aw).releaseTail t k
        ((s₁.data k).filter fun u => s₁.socket u = some k) (some p) 0 := by
      unfold State.sockClose
      rw [← hs₁, he, if_pos hcon, ← hp]
    obtain ⟨hnext, hic, hacc, hopen, _, hstate⟩ := releaseTail_net (s := s₁.parted k l₀ aw)
      (t := t) (k := k) ((s₁.data k).filter fun u => s₁.socket u = some k) (some p) 0
    rw [hclose]
    refine parted_disturbs hq hpend hnext hic hacc ?_ (hstate p rfl)
    intro S hS hSopen
    have hSk : S ≠ k := by
      rintro rfl
      exact hpk hS
    rw [hopen]
    exact (update_of_ne hSk _ _).trans hSopen

theorem linksTo_mem {next : Sock → Option Sock} {o : Option Sock} {a m : List Sock}
    (ha : LinksTo next o a (some k)) (hm : Links next o m) : k ∈ m := by
  induction a generalizing o m with
  | nil =>
      have ho : o = some k := ha
      cases m with
      | nil =>
          have hnil : o = none := hm
          rw [ho] at hnil
          cases hnil
      | cons x m =>
          have hkx : k = x := Option.some.inj (ho.symm.trans hm.1)
          rw [hkx]
          exact List.mem_cons_self
  | cons y a ih =>
      cases m with
      | nil =>
          have hnil : o = none := hm
          have hsome := ha.1
          rw [hnil] at hsome
          cases hsome
      | cons x m =>
          have hyx : y = x := Option.some.inj (ha.1.symm.trans hm.1)
          subst hyx
          exact List.mem_cons_of_mem y (ih ha.2 hm.2)

theorem awaitconn_net {serv : Sock} (nonblock : Bool) (hacc : s.acceptcon serv = true) :
    (s.enqueue k serv = none ∧ (s.awaitconn t k serv nonblock).fault = some .endless) ∨
    ∃ nx ic, s.enqueue k serv = some { s with next := nx, iconn := ic } ∧
      (s.awaitconn t k serv nonblock).next = nx ∧ (s.awaitconn t k serv nonblock).iconn = ic ∧
      (s.awaitconn t k serv nonblock).opened = s.opened ∧
      (s.awaitconn t k serv nonblock).acceptcon = s.acceptcon ∧
      (s.awaitconn t k serv nonblock).conn = update s.conn k (some serv) ∧
      (s.awaitconn t k serv nonblock).state k = .connecting ∧
      (s.awaitconn t k serv nonblock).fault = s.fault := by
  have hacc' : ¬ s.acceptcon serv = false := by simp [hacc]
  cases henq : s.enqueue k serv with
  | none =>
      refine Or.inl ⟨rfl, ?_⟩
      unfold State.awaitconn
      rw [if_neg hacc', henq]
      rfl
  | some s₁ =>
      obtain ⟨nx, ic, hs₁⟩ : ∃ nx ic, s₁ = { s with next := nx, iconn := ic } := by
        unfold State.enqueue at henq
        dsimp only at henq
        split at henq
        · exact ⟨_, _, (Option.some.inj henq).symm⟩
        · split at henq
          · cases henq
          · exact ⟨_, _, (Option.some.inj henq).symm⟩
      subst hs₁
      refine Or.inr ⟨nx, ic, rfl, ?_⟩
      have hst : (State.wake { s with
          next := nx
          iconn := ic
          state := update s.state k .connecting
          conn := update s.conn k (some serv)
          clock := s.clock + 1
          stamp := update s.stamp k (s.clock + 1) } serv).state k = .connecting :=
        update_self k _ s.state
      have hne : ¬ (State.wake { s with
          next := nx
          iconn := ic
          state := update s.state k .connecting
          conn := update s.conn k (some serv)
          clock := s.clock + 1
          stamp := update s.stamp k (s.clock + 1) } serv).state k = .connected := by
        rw [hst]
        exact fun h => by cases h
      unfold State.awaitconn
      rw [if_neg hacc', henq]
      dsimp only
      rw [if_neg hne]
      cases nonblock with
      | true => exact ⟨rfl, rfl, rfl, rfl, rfl, hst, rfl⟩
      | false => exact ⟨rfl, rfl, rfl, rfl, rfl, hst, rfl⟩

theorem queued_disturbs {serv : Sock} {nonblock : Bool} (hq : s.Queues) (hk : s.opened k = true)
    (hacc : s.acceptcon serv = true) (hbad : s.opened serv = false ∨ s.Pending k) :
    ¬ (s.awaitconn t k serv nonblock).Orderly := by
  intro ho
  rcases awaitconn_net (s := s) (t := t) (k := k) nonblock hacc with
    ⟨_, hfault⟩ | ⟨nx, ic, henq, hnext, hiconn, hopen, hacc', hconn, hstate, _⟩
  · exact (ho.fault _ hfault).1 rfl
  · have hpend : (s.awaitconn t k serv nonblock).Pending k := by
      refine ⟨?_, hstate⟩
      rw [hopen]
      exact hk
    have hconnk : (s.awaitconn t k serv nonblock).conn k = some serv := by
      rw [hconn, update_self]
    obtain ⟨S', ⟨hS', l', hl', hmem⟩, _⟩ := ho.one k hpend
    have hSS : S' = serv := Option.some.inj (((hl'.mem k).mp hmem).2.symm.trans hconnk)
    subst hSS
    rcases hbad with hclosed | hpk
    · have hlis := hS'.1
      rw [hopen, hclosed] at hlis
      cases hlis
    · have hS'open : s.opened S' = true := by
        rw [← hopen]
        exact hS'.1
      obtain ⟨S, hS, hlist⟩ := hq.served k hpk
      obtain ⟨l, hl⟩ := hq.queue S hlist
      obtain ⟨a, b, rfl⟩ := List.append_of_mem ((hl.mem k).mpr ⟨hpk, hS⟩)
      by_cases hSS : S = S'
      · subst hSS
        -- the socket was the last of its queue once the links were cut behind it
        have hcut := hl.links.cut
        have hlen : (a ++ [k]).length ≤ NR_INODE := by
          have hle := hcut.length_le
          rwa [Fintype.card_fin] at hle
        obtain ⟨first, hfirst⟩ : ∃ first, s.iconn S = some first := by
          cases a with
          | nil => exact ⟨k, hl.links.1⟩
          | cons x a => exact ⟨x, hl.links.1⟩
        have hlast : State.lastOf { s with next := update s.next k none } NR_INODE
            first = some k := by
          rw [hfirst] at hcut
          exact lastOf_links hcut hlen
        have hself : s.enqueue k S = some { s with
            next := update (update s.next k none) k (some k) } := by
          rw [State.enqueue]
          dsimp only
          rw [hfirst]
          dsimp only
          rw [hlast]
        have hnx : nx k = some k := by
          have he := congrArg (fun o => o.map fun s : State => s.next k) (henq.symm.trans hself)
          have he' : nx k = update (update s.next k none) k (some k) k :=
            Option.some.inj he
          rw [he', update_self]
        refine hl'.links.irrefl hmem ?_
        rw [hnext]
        exact hnx
      · obtain ⟨m, hm⟩ := hq.queue S' ⟨hS'open, hacc⟩
        have hkm : k ∉ m := by
          intro hkm
          exact hSS (Option.some.inj (hS.symm.trans ((hm.mem k).mp hkm).2))
        obtain ⟨nx', ic', henq', _, hic', hnx'⟩ := enqueue_links hm.links hkm
        have he := Option.some.inj (henq.symm.trans henq')
        have hnxe : nx = nx' := congrArg (fun s : State => s.next) he
        have hice : ic = ic' := congrArg (fun s : State => s.iconn) he
        obtain ⟨q, ha, hka⟩ := linksTo_append.mp hl.links
        have hnodup := hl.links.nodup
        have hreach : LinksTo nx (ic S) a (some k) := by
          rw [hice, hic' S hSS, hnxe]
          have ha' : LinksTo s.next (s.iconn S) a (some k) := by
            rw [hka.1] at ha
            exact ha
          refine (linksTo_congr ?_).mp ha'
          intro i hi
          have hil := (hl.mem i).mp (List.mem_append_left _ hi)
          refine (hnx' i ?_ ?_).symm
          · intro him
            exact hSS (Option.some.inj (hil.2.symm.trans ((hm.mem i).mp him).2))
          · rintro rfl
            exact List.disjoint_of_nodup_append hnodup hi List.mem_cons_self
        have hSlis : (s.awaitconn t k S' nonblock).Listening S := by
          refine ⟨?_, ?_⟩
          · rw [hopen]
            exact hlist.1
          · rw [hacc']
            exact hlist.2
        obtain ⟨m', hm'⟩ := ho.queue S hSlis
        have hlinks := hm'.links
        rw [hnext, hiconn] at hlinks
        have hkS := ((hm'.mem k).mp (linksTo_mem hreach hlinks)).2
        exact hSS (Option.some.inj (hkS.symm.trans hconnk))

theorem step_disturbed {l : Label} (h : s.Kept) (hdis : s.Disturbs l) :
    ¬ (s.step l).Orderly ∧ (s.step l).fault ≠ some .lost := by
  obtain ⟨hnone, hdis⟩ := hdis
  have hc := h.calls hnone
  have hq := h.queues
  have hgo : ¬ (s.fault ≠ none) := by simp [hnone]
  have hfine : s.fault ≠ some .lost := by simp [hnone]
  cases l with
  | run t fd =>
      have hstep : s.step (.run t fd) = s.runTask t fd := by
        unfold State.step
        rw [if_neg hgo]
      rw [hstep]
      rcases hdis with ⟨k, serv, n, hpc, hawake, hpend, hconn⟩ |
        ⟨k, u, nonblock, hpc, hu | ⟨serv, hu, hacc, hbad⟩⟩ | ⟨k, u, p, r, hpc, hpend⟩
      · have hrun : s.runTask t fd = s.connectTurn t k serv n := by
          simp only [State.runTask, hpc, hawake, if_true]
        obtain ⟨hout, hfault⟩ := interrupted_disturbs (t := t) (n := n) hq hpend hconn
        rw [hrun, hfault]
        exact ⟨hout, hfine⟩
      · have hrun : s.runTask t fd = s.fail .noServer := by
          simp only [State.runTask, hpc, hu]
        rw [hrun]
        exact ⟨fun ho => (ho.fault .noServer rfl).2.2 rfl, by simp [State.fail]⟩
      · have hrun : s.runTask t fd = s.awaitconn t k serv nonblock := by
          simp only [State.runTask, hpc, hu]
        rw [hrun]
        refine ⟨queued_disturbs hq (hc.sock t k (by simp) (by rw [hpc]; rfl)) hacc hbad, ?_⟩
        rcases awaitconn_net (s := s) (t := t) (k := k) nonblock hacc with
          ⟨_, hfault⟩ | ⟨_, _, _, _, _, _, _, _, _, hfault⟩
        · rw [hfault]
          simp
        · rw [hfault]
          exact hfine
      · have hrun : s.runTask t fd = s.releaseTail t k (some u) (some p) r := by
          simp only [State.runTask, hpc]
        obtain ⟨hnext, hic, hacc, hopen, hfault, hstate⟩ := releaseTail_net (s := s) (t := t)
          (k := k) (some u) (some p) r
        rw [hrun, hfault]
        refine ⟨parted_disturbs hq hpend hnext hic hacc ?_ (hstate p rfl), hfine⟩
        intro S _ hS
        rw [hopen]
        exact hS
  | close t k =>
      obtain ⟨hready, hfree, hbad⟩ := hdis
      have hstep : s.step (.close t k) = s.sockClose t k := by
        unfold State.step
        rw [if_neg hgo]
        exact if_pos ⟨hready, hfree⟩
      rw [hstep, sockClose_fault hq hready.2]
      refine ⟨?_, hfine⟩
      rcases hbad with ⟨hpend, hconn⟩ | hhit
      · exact closed_disturbs hq hpend hconn
      · exact hit_disturbs hq hready.2 hhit
  | socket t slot protocol fd => exact hdis.elim
  | bind t k len family => exact hdis.elim
  | listen t k => exact hdis.elim
  | accept t k nonblock => exact hdis.elim
  | connect t k len family nonblock => exact hdis.elim
  | read t k size nonblock => exact hdis.elim
  | write t k size nonblock => exact hdis.elim
  | answer t r => exact hdis.elim
  | inode t slot fd => exact hdis.elim
  | signal t => exact hdis.elim
  | deliver t => exact hdis.elim
  | reuse k c => exact hdis.elim

end Disturbed

section Result

variable {s : State}

theorem step_not_lost (h : s.Kept) (l : Label) : (s.step l).fault ≠ some .lost := by
  by_cases hdis : s.Disturbs l
  · exact (step_disturbed h hdis).2
  · exact fun hf => ((step_kept h hdis).harmless .lost hf).2.1 rfl

/-- Queues that are in order after every step have been disturbed by none. -/
theorem undisturbed_of_orderly {ls : List Label} (h : s.Kept)
    (hall : ∀ n, (s.run (ls.take n)).Orderly) : s.Undisturbed ls := by
  induction ls generalizing s with
  | nil => trivial
  | cons l ls ih =>
      have hcalm : ¬ s.Disturbs l := fun hdis => (step_disturbed h hdis).1 (hall 1)
      exact ⟨hcalm, ih (step_kept h hcalm) fun n => hall (n + 1)⟩

theorem undisturbed_take {ls : List Label} (n : Nat) (h : s.Undisturbed ls) :
    s.Undisturbed (ls.take n) := by
  induction ls generalizing s n with
  | nil => simpa using h
  | cons l ls ih =>
      cases n with
      | zero => trivial
      | succ n => exact ⟨h.1, ih n h.2⟩

/-- **The queue of pending connections.** -/
theorem pending_queues (h : s.Init) (ls : List Label) :
    ((∀ n, (s.run (ls.take n)).Orderly) ↔ s.Undisturbed ls) ∧
      (s.Undisturbed ls →
        (∀ t k c, (s.run ls).fault = none → ((s.run ls).pc t).server = some k →
          (s.run ls).iconn k = some c → (s.run ls).Pending c) ∧
        ∀ l, ((s.run ls).step l).fault ≠ some .lost) := by
  have hkept := h.kept
  refine ⟨⟨undisturbed_of_orderly hkept, ?_⟩, ?_⟩
  · exact fun hcalm n => (run_kept hkept (undisturbed_take n hcalm)).orderly
  · intro hcalm
    have hrun := run_kept hkept hcalm
    refine ⟨?_, step_not_lost hrun⟩
    intro t k c hnone hserver hfirst
    have hc := hrun.calls hnone
    have hsock : ((s.run ls).pc t).sock = some k := by
      cases hpc : (s.run ls).pc t <;> simp_all [Pc.server, Pc.sock]
    have hS : (s.run ls).Listening k :=
      ⟨hc.sock t k (by simp) hsock, hc.listens t k (by simp) hserver⟩
    obtain ⟨l, hl⟩ := hrun.queues.queue k hS
    have hlinks := hl.links
    rw [hfirst] at hlinks
    cases l with
    | nil => cases hlinks
    | cons x l =>
        have hcx : c = x := Option.some.inj hlinks.1
        rw [hcx]
        exact ((hl.mem x).mp List.mem_cons_self).1

/-- No socket has been made yet. -/
def blank : State where
  state _ := .unconnected
  acceptcon _ := false
  conn _ := none
  iconn _ := none
  next _ := none
  live _ := false
  opened _ := false
  clock := 0
  stamp _ := 0
  refcnt _ := 0
  socket _ := none
  inode _ := none
  sockaddrLen _ := 0
  sunFamily _ := 0
  peerupd _ := none
  bpHead _ := 0
  bpTail _ := 0
  data _ := none
  pc _ := .idle
  awake _ := false
  signal _ := false
  ret _ := 0
  fault := none
  accepted := []
  returned := []

theorem blank_init : blank.Init := by
  constructor <;> intros <;> rfl

/-- A server listens, and a client is about to connect to it. -/
def approach (nonblock : Bool) : List Label :=
  [.socket 0 0 0 true, .bind 0 0 3 AF_UNIX, .answer 0 (.ok 7), .listen 0 0,
    .socket 1 1 0 true, .connect 1 1 3 AF_UNIX nonblock, .answer 1 (.ok 7)]

theorem undisturbed_append {ls ms : List Label} :
    s.Undisturbed (ls ++ ms) ↔ s.Undisturbed ls ∧ (s.run ls).Undisturbed ms := by
  induction ls generalizing s with
  | nil => exact ⟨fun h => ⟨trivial, h⟩, fun h => h.2⟩
  | cons l ls ih => exact (and_congr_right fun _ => ih).trans and_assoc.symm

theorem approach_undisturbed (nonblock : Bool) : blank.Undisturbed (approach nonblock) :=
  ⟨fun h => h.2, fun h => h.2, fun h => h.2, fun h => h.2, fun h => h.2, fun h => h.2,
    fun h => h.2, trivial⟩

theorem arrival_undisturbed (nonblock : Bool) :
    blank.Undisturbed (approach nonblock ++ [.run 1 true]) := by
  refine undisturbed_append.mpr ⟨approach_undisturbed nonblock, ?_, trivial⟩
  have hpc : (blank.run (approach nonblock)).pc 1 = .found 1 0 nonblock := by
    cases nonblock <;> decide
  have hserv : (blank.run (approach nonblock)).socket 0 = some 0 := by
    cases nonblock <;> decide
  rintro ⟨_, ⟨k, serv, n, h, _⟩ | ⟨k, u, b, h, hbad⟩ | ⟨k, u, p, r, h, _⟩⟩
  · rw [hpc] at h
    cases h
  · rw [hpc] at h
    cases h
    rw [hserv] at hbad
    rcases hbad with hnone | ⟨serv, hserv', _, hclosed | hpend⟩
    · cases hnone
    · cases hserv'
      cases nonblock <;> exact absurd hclosed (by decide)
    · cases nonblock <;> exact absurd hpend.2 (by decide)
  · rw [hpc] at h
    cases h

/-- A client that waits for its server: its socket is the queue. -/
theorem pending_queues_client :
    (∀ n, (blank.run ((approach false ++ [Label.run 1 true]).take n)).Orderly) ∧
      (blank.run (approach false ++ [.run 1 true])).iconn 0 = some 1 :=
  ⟨(pending_queues blank_init (approach false ++ [Label.run 1 true])).1.mpr
    (arrival_undisturbed false), by decide⟩

/-- It is not so in every run: a client closes its socket while the connection is pending, and the
closed socket stays at the head of the queue of the server. -/
theorem closed_in_queue :
    blank.Init ∧
      ((blank.run (approach true ++ [.run 1 true, .close 1 1])).Listening 0 ∧
        (blank.run (approach true ++ [.run 1 true, .close 1 1])).iconn 0 = some 1 ∧
        (blank.run (approach true ++ [.run 1 true, .close 1 1])).live 1 = false) ∧
      ¬ (blank.run (approach true ++ [.run 1 true, .close 1 1])).Orderly := by
  have hS : (blank.run (approach true ++ [.run 1 true, .close 1 1])).Listening 0 := by
    unfold Net.Listening
    decide
  have hfirst : (blank.run (approach true ++ [.run 1 true, .close 1 1])).iconn 0 = some 1 := by
    decide
  refine ⟨blank_init, ⟨hS, hfirst, by decide⟩, ?_⟩
  intro ho
  obtain ⟨l, hl⟩ := ho.queue 0 hS
  have hlinks := hl.links
  rw [hfirst] at hlinks
  cases l with
  | nil => cases hlinks
  | cons x l =>
      have hx : 1 = x := Option.some.inj hlinks.1
      have hopen := ((hl.mem x).mp List.mem_cons_self).1.1
      rw [← hx] at hopen
      have hclosed : (blank.run (approach true ++ [.run 1 true, .close 1 1])).opened 1 = false := by
        decide
      rw [hclosed] at hopen
      cases hopen

end Result

end Unix
end Elks
