import Elks.Unix.Calls
import Elks.Unix.Entries

/-!
# The two ends of a connection (net/socket.c, net/unix/af_unix.c)

`unix_accept` connects both sockets and sets `peerupd` of the one it returns; `peerupd` of
the client is set by `unix_connect` when the client goes on.  `State.Pairs` describes both
ends, and the time between, while every accepted client has a task that waits in its
connect.
-/

namespace Elks
namespace Unix

open Lib
open Function (update update_of_ne update_self)

section Definitions

/-- `peerupd` of the entry of a socket. -/
def State.mate (s : State) (k : Sock) : Option Upd :=
  (s.data k).bind s.peerupd

/-- Connected sockets are in pairs.  The calls of all tasks but `o` are taken into
account, and `e` is a pair that is about to be parted: the socket that is released and its
peer. -/
structure State.Pairs (s : State) (o : Option Task) (e : Option (Sock × Sock)) : Prop where
  entry : ∀ k, s.live k = true → s.state k = .connected → s.data k ≠ none
  opened : ∀ k, s.opened k = true → s.data k ≠ none
  paired : ∀ k, s.live k = true → s.state k = .connected → ∃ p, s.conn k = some p ∧
    s.live p = true ∧ s.conn p = some k ∧ (s.state p = .connected ∨ e = some (p, k) ∨
      ∃ t u r, some t ≠ o ∧ s.pc t = .release p u (some k) r)
  early : ∀ k, s.live k = true → s.state k = .unconnected ∨ s.state k = .connecting →
    s.mate k = none
  joined : ∀ k p, s.live k = true → s.state k = .connected → s.conn k = some p →
    (∀ t serv n, some t ≠ o → s.pc t ≠ .connect k serv n) → s.mate k = s.data p
  waits : ∀ t k serv n, some t ≠ o → s.pc t = .connect k serv n →
    s.live k = true ∧ s.stamp k = n ∧ (s.state k = .connecting → s.conn k = some serv) ∧
      (s.state k = .connected → n ∈ s.accepted) ∧ s.mate k = none
  single : ∀ t t' k serv serv' n n', some t ≠ o → some t' ≠ o → s.pc t = .connect k serv n →
    s.pc t' = .connect k serv' n' → t = t'
  fresh : ∀ t k new, some t ≠ o → s.pc t = .accept k new →
    s.live new = true ∧ s.state new = .unconnected ∧ s.conn new = none ∧ s.data new ≠ none
  release : ∀ t k u p r, some t ≠ o → s.pc t = .release k u p r →
    s.live k = true ∧ s.data k = some u ∧ s.state k ≠ .connected
  honest : ∀ n ∈ s.returned, n ∈ s.accepted

end Definitions

section Keeping

variable {s s' : State} {t : Task} {o : Option Task} {e : Option (Sock × Sock)} {k p : Sock}
  {q : Pc}

theorem unixDataRef_data {u : Option Upd} : (s.unixDataRef u).data = s.data := by
  cases u <;> rfl

theorem mate_congr (hdata : s'.data k = s.data k) (hpeer : s'.peerupd = s.peerupd) :
    s'.mate k = s.mate k := by
  unfold State.mate
  rw [hdata, hpeer]

/-- The fields that the pairs depend on. -/
structure State.Same (s s' : State) : Prop where
  state : s'.state = s.state
  conn : s'.conn = s.conn
  live : s'.live = s.live
  opened : s'.opened = s.opened
  stamp : s'.stamp = s.stamp
  data : s'.data = s.data
  peerupd : s'.peerupd = s.peerupd
  accepted : s'.accepted = s.accepted
  returned : s'.returned = s.returned

theorem State.Same.mate (h : s.Same s') (k : Sock) : s'.mate k = s.mate k :=
  mate_congr (congrFun h.data k) h.peerupd

theorem State.Pairs.congr (h : s.Pairs o e) (hs : s.Same s') (hpc : s'.pc = s.pc) :
    s'.Pairs o e where
  entry := by
    rw [hs.live, hs.state, hs.data]
    exact h.entry
  opened := by
    rw [hs.opened, hs.data]
    exact h.opened
  paired := by
    rw [hs.live, hs.state, hs.conn, hpc]
    exact h.paired
  early k := by
    rw [hs.live, hs.state, hs.mate]
    exact h.early k
  joined k p := by
    rw [hs.live, hs.state, hs.conn, hs.mate, hs.data, hpc]
    exact h.joined k p
  waits t k serv n := by
    rw [hs.live, hs.state, hs.conn, hs.stamp, hs.accepted, hs.mate, hpc]
    exact h.waits t k serv n
  single := by
    rw [hpc]
    exact h.single
  fresh := by
    rw [hs.live, hs.state, hs.conn, hs.data, hpc]
    exact h.fresh
  release := by
    rw [hs.live, hs.state, hs.data, hpc]
    exact h.release
  honest := by
    rw [hs.returned, hs.accepted]
    exact h.honest

theorem State.Pairs.but (h : s.Pairs none e) (hconnect : ∀ k serv n, s.pc t ≠ .connect k serv n)
    (hrelease : ∀ k u p r, s.pc t ≠ .release k u p r) :
    s.Pairs (some t) e where
  entry := h.entry
  opened := h.opened
  paired k hk hst := by
    obtain ⟨p, hp, hlive, hback, hcase⟩ := h.paired k hk hst
    refine ⟨p, hp, hlive, hback, ?_⟩
    rcases hcase with hcon | he | ⟨t', u, r, _, hpc⟩
    · exact Or.inl hcon
    · exact Or.inr (Or.inl he)
    · refine Or.inr (Or.inr ⟨t', u, r, ?_, hpc⟩)
      intro ht
      rw [Option.some.inj ht] at hpc
      exact hrelease p u (some k) r hpc
  early := h.early
  joined k p hk hst hp hnot := by
    refine h.joined k p hk hst hp ?_
    intro t' serv n _
    by_cases ht : t' = t
    · rw [ht]
      exact hconnect k serv n
    · exact hnot t' serv n (by simpa using ht)
  waits t' k serv n _ := h.waits t' k serv n (by simp)
  single t₁ t₂ k serv serv' n n' _ _ := h.single t₁ t₂ k serv serv' n n' (by simp) (by simp)
  fresh t' k new _ := h.fresh t' k new (by simp)
  release t' k u p r _ := h.release t' k u p r (by simp)
  honest := h.honest

/-- What a task must bring along to go on to `q`. -/
structure State.Brings (s : State) (t : Task) (e : Option (Sock × Sock)) (q : Pc) : Prop where
  parted : ∀ p k, e = some (p, k) → ∃ u r, q = .release p u (some k) r
  connect : ∀ k serv n, q = .connect k serv n → s.live k = true ∧ s.stamp k = n ∧
    s.conn k = some serv ∧ s.state k = .connecting ∧ s.mate k = none ∧
      ∀ t' serv' n', t' ≠ t → s.pc t' ≠ .connect k serv' n'
  accept : ∀ k new, q = .accept k new →
    s.live new = true ∧ s.state new = .unconnected ∧ s.conn new = none ∧ s.data new ≠ none
  release : ∀ k u p r, q = .release k u p r →
    s.live k = true ∧ s.data k = some u ∧ s.state k ≠ .connected

theorem State.Pairs.move (h : s.Pairs (some t) e) (hs : s.Same s')
    (hpc : s'.pc = update s.pc t q) (hq : s.Brings t e q) : s'.Pairs none none := by
  have hself : s'.pc t = q := by
    rw [hpc, update_self]
  have hother : ∀ t', t' ≠ t → s'.pc t' = s.pc t' := by
    intro t' hne
    rw [hpc, update_of_ne hne]
  have hsome : ∀ t', t' ≠ t → some t' ≠ some t := fun t' hne he => hne (Option.some.inj he)
  refine ⟨?_, ?_, ?_, ?_, ?_, ?_, ?_, ?_, ?_, ?_⟩
  · rw [hs.live, hs.state, hs.data]
    exact h.entry
  · rw [hs.opened, hs.data]
    exact h.opened
  · intro k hk hst
    rw [hs.live] at hk
    rw [hs.state] at hst
    obtain ⟨p, hp, hlive, hback, hcase⟩ := h.paired k hk hst
    rw [hs.conn, hs.live, hs.state]
    refine ⟨p, hp, hlive, hback, ?_⟩
    rcases hcase with hcon | he | ⟨t', u, r, hne, hrel⟩
    · exact Or.inl hcon
    · obtain ⟨u, r, hqr⟩ := hq.parted p k he
      exact Or.inr (Or.inr ⟨t, u, r, by simp, hself.trans hqr⟩)
    · have hne' : t' ≠ t := fun ht => hne (congrArg some ht)
      exact Or.inr (Or.inr ⟨t', u, r, by simp, (hother t' hne').trans hrel⟩)
  · intro k
    rw [hs.live, hs.state, hs.mate]
    exact h.early k
  · intro k p hk hst hp hnot
    rw [hs.live] at hk
    rw [hs.state] at hst
    rw [hs.conn] at hp
    rw [hs.mate, hs.data]
    refine h.joined k p hk hst hp ?_
    intro t' serv n hne hcon
    have hne' : t' ≠ t := fun ht => hne (congrArg some ht)
    exact hnot t' serv n (by simp) ((hother t' hne').trans hcon)
  · intro t' k serv n _ hcon
    rw [hs.live, hs.stamp, hs.state, hs.conn, hs.accepted, hs.mate]
    by_cases ht : t' = t
    · rw [ht, hself] at hcon
      obtain ⟨hlive, hstamp, hconn, hst, hmate, _⟩ := hq.connect k serv n hcon
      refine ⟨hlive, hstamp, fun _ => hconn, ?_, hmate⟩
      intro hst'
      rw [hst] at hst'
      cases hst'
    · rw [hother t' ht] at hcon
      exact h.waits t' k serv n (hsome t' ht) hcon
  · intro t₁ t₂ k serv serv' n n' _ _ h₁ h₂
    by_cases ht₁ : t₁ = t
    · by_cases ht₂ : t₂ = t
      · rw [ht₁, ht₂]
      · rw [ht₁, hself] at h₁
        rw [hother t₂ ht₂] at h₂
        exact absurd h₂ ((hq.connect k serv n h₁).2.2.2.2.2 t₂ serv' n' ht₂)
    · rw [hother t₁ ht₁] at h₁
      by_cases ht₂ : t₂ = t
      · rw [ht₂, hself] at h₂
        exact absurd h₁ ((hq.connect k serv' n' h₂).2.2.2.2.2 t₁ serv n ht₁)
      · rw [hother t₂ ht₂] at h₂
        exact h.single t₁ t₂ k serv serv' n n' (hsome t₁ ht₁) (hsome t₂ ht₂) h₁ h₂
  · intro t' k new _ hacc
    rw [hs.live, hs.state, hs.conn, hs.data]
    by_cases ht : t' = t
    · rw [ht, hself] at hacc
      exact hq.accept k new hacc
    · rw [hother t' ht] at hacc
      exact h.fresh t' k new (hsome t' ht) hacc
  · intro t' k u p r _ hrel
    rw [hs.live, hs.data, hs.state]
    by_cases ht : t' = t
    · rw [ht, hself] at hrel
      exact hq.release k u p r hrel
    · rw [hother t' ht] at hrel
      exact h.release t' k u p r (hsome t' ht) hrel
  · rw [hs.returned, hs.accepted]
    exact h.honest

/-- A place in a call that asks nothing of the pairs. -/
def Pc.plain : Pc → Bool
  | connect _ _ _ => false
  | accept _ _ => false
  | release _ _ _ _ => false
  | _ => true

theorem brings_plain (hq : q.plain = true) : s.Brings t none q where
  parted p k he := by cases he
  connect k serv n he := by rw [he] at hq; cases hq
  accept k new he := by rw [he] at hq; cases hq
  release k u p r he := by rw [he] at hq; cases hq

theorem State.Pairs.plain (h : s.Pairs none e) (hp : (s.pc t).plain = true) :
    s.Pairs (some t) e := by
  refine h.but ?_ ?_
  · intro k serv n he
    rw [he] at hp
    cases hp
  · intro k u p r he
    rw [he] at hp
    cases hp

end Keeping

section Changes

variable {s s' : State} {t : Task} {o : Option Task} {k p : Sock} {l : List Sock}

theorem State.Pairs.local (h : s.Pairs o none) (hbefore : s.live k = true → s.state k ≠ .connected)
    (hafter : s'.live k = true → s'.state k ≠ .connected)
    (hopen : s'.opened k = true → s'.data k ≠ none) (hearly : s'.live k = true → s'.mate k = none)
    (hpc : s'.pc = s.pc)
    (hidle : ∀ t, some t ≠ o → (∀ serv n, s.pc t ≠ .connect k serv n) ∧
      (∀ j, s.pc t ≠ .accept j k) ∧ ∀ u q r, s.pc t ≠ .release k u q r)
    (hother : ∀ i, i ≠ k → s'.live i = s.live i ∧ s'.opened i = s.opened i ∧
      s'.stamp i = s.stamp i ∧ (s.live i = true → s'.state i = s.state i ∧
        s'.conn i = s.conn i ∧ s'.data i = s.data i ∧ s'.mate i = s.mate i))
    (hdata : ∀ i, i ≠ k → s.opened i = true → s'.data i = s.data i)
    (haccepted : s'.accepted = s.accepted)
    (hreturned : s'.returned = s.returned) :
    s'.Pairs o none := by
  have halive : ∀ i, i ≠ k → s'.live i = true → s.live i = true := by
    intro i hi hlive
    rw [← (hother i hi).1]
    exact hlive
  have hpair : ∀ i, s.live i = true → s.state i = .connected → i ≠ k ∧ ∃ p, s.conn i = some p ∧
      p ≠ k ∧ s.live p = true ∧ s.conn p = some i ∧ (s.state p = .connected ∨
        ∃ t u r, some t ≠ o ∧ s.pc t = .release p u (some i) r) := by
    intro i hi hst
    obtain ⟨p, hp, hlive, hback, hcase⟩ := h.paired i hi hst
    have hik : i ≠ k := by
      rintro rfl
      exact hbefore hi hst
    have hpk : p ≠ k := by
      rintro rfl
      rcases hcase with hcon | he | ⟨t, u, r, hne, hrel⟩
      · exact hbefore hlive hcon
      · cases he
      · exact (hidle t hne).2.2 u (some i) r hrel
    refine ⟨hik, p, hp, hpk, hlive, hback, ?_⟩
    rcases hcase with hcon | he | hrel
    · exact Or.inl hcon
    · cases he
    · exact Or.inr hrel
  refine ⟨?_, ?_, ?_, ?_, ?_, ?_, ?_, ?_, ?_, ?_⟩
  · intro i hi hst
    by_cases hik : i = k
    · subst hik
      exact absurd hst (hafter hi)
    · have hli := halive i hik hi
      obtain ⟨hs, _, hd, _⟩ := (hother i hik).2.2.2 hli
      rw [hs] at hst
      rw [hd]
      exact h.entry i hli hst
  · intro i hi
    by_cases hik : i = k
    · subst hik
      exact hopen hi
    · rw [(hother i hik).2.1] at hi
      rw [hdata i hik hi]
      exact h.opened i hi
  · intro i hi hst
    by_cases hik : i = k
    · subst hik
      exact absurd hst (hafter hi)
    · have hli := halive i hik hi
      obtain ⟨hs, hc, _, _⟩ := (hother i hik).2.2.2 hli
      rw [hs] at hst
      obtain ⟨_, p, hp, hpk, hlp, hback, hcase⟩ := hpair i hli hst
      obtain ⟨hsp, hcp, _, _⟩ := (hother p hpk).2.2.2 hlp
      refine ⟨p, hc.trans hp, (hother p hpk).1.trans hlp, hcp.trans hback, ?_⟩
      rcases hcase with hcon | ⟨t, u, r, hne, hrel⟩
      · exact Or.inl (hsp.trans hcon)
      · exact Or.inr (Or.inr ⟨t, u, r, hne, (congrFun hpc t).trans hrel⟩)
  · intro i hi hst
    by_cases hik : i = k
    · subst hik
      exact hearly hi
    · have hli := halive i hik hi
      obtain ⟨hs, _, _, hm⟩ := (hother i hik).2.2.2 hli
      rw [hs] at hst
      rw [hm]
      exact h.early i hli hst
  · intro i p hi hst hp hnot
    by_cases hik : i = k
    · subst hik
      exact absurd hst (hafter hi)
    · have hli := halive i hik hi
      obtain ⟨hs, hc, _, hm⟩ := (hother i hik).2.2.2 hli
      rw [hs] at hst
      rw [hc] at hp
      obtain ⟨_, p', hp', hpk, hlp, _, _⟩ := hpair i hli hst
      have hpp : p' = p := Option.some.inj (hp'.symm.trans hp)
      subst hpp
      rw [hm, ((hother p' hpk).2.2.2 hlp).2.2.1]
      refine h.joined i p' hli hst hp ?_
      intro t serv n hne hcon
      exact hnot t serv n hne ((congrFun hpc t).trans hcon)
  · intro t i serv n hne hcon
    rw [hpc] at hcon
    have hik : i ≠ k := by
      rintro rfl
      exact (hidle t hne).1 serv n hcon
    obtain ⟨hli, hstamp, hserv, hacc, hmate⟩ := h.waits t i serv n hne hcon
    obtain ⟨hs, hc, _, hm⟩ := (hother i hik).2.2.2 hli
    rw [(hother i hik).1, (hother i hik).2.2.1, hs, hc, hm, haccepted]
    exact ⟨hli, hstamp, hserv, hacc, hmate⟩
  · intro t₁ t₂ i serv serv' n n' hne₁ hne₂ h₁ h₂
    rw [hpc] at h₁ h₂
    exact h.single t₁ t₂ i serv serv' n n' hne₁ hne₂ h₁ h₂
  · intro t j new hne hacc
    rw [hpc] at hacc
    have hnk : new ≠ k := by
      rintro rfl
      exact (hidle t hne).2.1 j hacc
    obtain ⟨hln, hst, hc, hd⟩ := h.fresh t j new hne hacc
    obtain ⟨hs, hc', hd', _⟩ := (hother new hnk).2.2.2 hln
    rw [(hother new hnk).1, hs, hc', hd']
    exact ⟨hln, hst, hc, hd⟩
  · intro t i u q r hne hrel
    rw [hpc] at hrel
    have hik : i ≠ k := by
      rintro rfl
      exact (hidle t hne).2.2 u q r hrel
    obtain ⟨hli, hd, hst⟩ := h.release t i u q r hne hrel
    obtain ⟨hs, _, hd', _⟩ := (hother i hik).2.2.2 hli
    rw [(hother i hik).1, hs, hd']
    exact ⟨hli, hd, hst⟩
  · rw [hreturned, haccepted]
    exact h.honest

theorem alloc_pairs (h : s.Pairs (some t) none) (hq : s.Queues) (hk : s.live k = false) :
    (s.sockAlloc k).Pairs (some t) none := by
  have hdead : ∀ i, s.live i = true → i ≠ k := by
    rintro i hi rfl
    rw [hk] at hi
    cases hi
  refine h.local (fun hlive => absurd rfl (hdead k hlive)) ?_ ?_ ?_ rfl ?_ ?_ ?_ rfl rfl
  · intro _
    simp [State.sockAlloc]
  · exact fun hi => absurd rfl (hdead k (hq.opened k hi))
  · intro _
    simp [State.mate, State.sockAlloc]
  · intro t' hne
    refine ⟨?_, ?_, ?_⟩
    · exact fun serv n hcon => hdead k (h.waits t' k serv n hne hcon).1 rfl
    · exact fun j hacc => hdead k (h.fresh t' j k hne hacc).1 rfl
    · exact fun u q r hrel => hdead k (h.release t' k u q r hne hrel).1 rfl
  · intro i hik
    refine ⟨update_of_ne hik _ _, rfl, rfl, fun _ => ?_⟩
    have hdata : (s.sockAlloc k).data i = s.data i := update_of_ne hik _ _
    exact ⟨update_of_ne hik _ _, update_of_ne hik _ _, hdata,
      mate_congr hdata rfl⟩
  · exact fun i hik _ => update_of_ne hik _ _

theorem reuse_pairs {c : Content} (h : s.Pairs none none) (hq : s.Queues) (hk : s.live k = false) :
    (s.reuse k c).Pairs none none := by
  have hdead : ∀ i, s.live i = true → i ≠ k := by
    rintro i hi rfl
    rw [hk] at hi
    cases hi
  refine h.local (fun hlive => absurd rfl (hdead k hlive)) (fun hlive => absurd rfl (hdead k hlive))
    ?_ (fun hlive => absurd rfl (hdead k hlive)) rfl ?_ ?_ ?_ rfl rfl
  · exact fun hi => absurd rfl (hdead k (hq.opened k hi))
  · intro t' hne
    refine ⟨?_, ?_, ?_⟩
    · exact fun serv n hcon => hdead k (h.waits t' k serv n hne hcon).1 rfl
    · exact fun j hacc => hdead k (h.fresh t' j k hne hacc).1 rfl
    · exact fun u q r hrel => hdead k (h.release t' k u q r hne hrel).1 rfl
  · intro i hik
    refine ⟨rfl, rfl, rfl, fun _ => ?_⟩
    have hdata : (s.reuse k c).data i = s.data i := update_of_ne hik _ _
    exact ⟨update_of_ne hik _ _, update_of_ne hik _ _, hdata,
      mate_congr hdata rfl⟩
  · exact fun i hik _ => update_of_ne hik _ _

theorem create_pairs {protocol : Int} (h : s.Pairs (some t) none) (hb : s.Books) (hk : s.Holds t k)
    (hlive : ∀ t', t' ≠ t → ∀ serv n, s.pc t' ≠ .connect k serv n)
    (hstate : s.state k ≠ .connected) : (s.unixCreate k protocol).1.Pairs (some t) none := by
  have hsame : ∀ t', some t' ≠ some t → t' ≠ t := fun t' hne he => hne (congrArg some he)
  unfold State.unixCreate
  split
  · exact h
  cases halloc : s.unixDataAlloc with
  | none => exact h
  | some u =>
      have hu : s.refcnt u = 0 := by
        have hfound := List.find?_some halloc
        simpa using hfound
      have hsock := (hb.unused hu).1
      dsimp only
      refine h.local (fun _ => hstate) (fun _ => hstate) ?_ ?_ rfl ?_ ?_ ?_ rfl rfl
      · intro _
        simp
      · intro _
        simp [State.mate]
      · intro t' hne
        have hown := hk.2.2 t' (hsame t' hne)
        refine ⟨hlive t' (hsame t' hne), ?_, ?_⟩
        · exact fun j hacc => hown (by rw [hacc]; rfl)
        · exact fun v q r hrel => hown (by rw [hrel]; rfl)
      · intro i hik
        refine ⟨rfl, rfl, rfl, fun hi => ⟨rfl, rfl, ?_, ?_⟩⟩
        · exact update_of_ne hik _ _
        · unfold State.mate
          dsimp only
          rw [update_of_ne hik]
          cases hd : s.data i with
          | none => rfl
          | some v =>
              have hvu : v ≠ u := by
                rintro rfl
                have hsv := hb.data i v hi hd
                rw [hsock] at hsv
                cases hsv
              exact update_of_ne hvu _ _
      · exact fun i hik _ => update_of_ne hik _ _

theorem enqueue_pairs (serv : Sock) (nx ic : Sock → Option Sock) (h : s.Pairs (some t) none)
    (hc : s.Calls (some t)) (hk : s.opened k = true) (hlive : s.live k = true)
    (hstate : s.state k = .unconnected) :
    State.Pairs { s with
      next := nx
      iconn := ic
      state := update s.state k .connecting
      conn := update s.conn k (some serv)
      clock := s.clock + 1
      stamp := update s.stamp k (s.clock + 1) } (some t) none := by
  have hmate := h.early k hlive (Or.inl hstate)
  refine h.local ?_ ?_ (fun _ => h.opened k hk) (fun _ => hmate) rfl ?_ ?_ (fun _ _ _ => rfl)
    rfl rfl
  · rw [hstate]
    exact fun _ he => by cases he
  · intro _
    dsimp only
    rw [update_self]
    exact fun he => by cases he
  · intro t' hne
    refine ⟨?_, ?_, ?_⟩
    · exact fun serv' n hcon => hc.joins t' k serv' n hne hcon hstate
    · intro j hacc
      have hown := (hc.own t' k hne (by rw [hacc]; rfl)).2
      rw [hk] at hown
      cases hown
    · intro u q r hrel
      have hown := (hc.own t' k hne (by rw [hrel]; rfl)).2
      rw [hk] at hown
      cases hown
  · intro i hik
    exact ⟨rfl, rfl, update_of_ne hik _ _, fun _ =>
      ⟨update_of_ne hik _ _, update_of_ne hik _ _, rfl, rfl⟩⟩

theorem parted_pairs (aw : Task → Bool) (h : s.Pairs (some t) none)
    (hl : ∀ i, i ∈ l → s.state i = .connecting) (hidle : ∀ t', t' ≠ t → (s.pc t').own ≠ some k) :
    (s.parted k l aw).Pairs (some t)
      (if s.state k = .connected then (s.conn k).map fun p => (k, p) else none) := by
  have hstate : ∀ i, (s.parted k l aw).state i ≠ .disconnecting →
      s.state i = (s.parted k l aw).state i ∧ i ∉ l ∧ (i = k → s.state k = .unconnected) := by
    intro i hi
    unfold State.parted at hi ⊢
    dsimp only at hi ⊢
    split at hi
    · exact absurd rfl hi
    · rename_i hnot
      push Not at hnot
      rw [if_neg (by push Not; exact hnot)]
      exact ⟨rfl, hnot.1, hnot.2⟩
  have hcon : ∀ i, (s.parted k l aw).state i = .connected →
      s.state i = .connected ∧ i ∉ l ∧ i ≠ k := by
    intro i hi
    obtain ⟨hs, hil, hun⟩ := hstate i (by rw [hi]; exact fun he => by cases he)
    rw [hi] at hs
    refine ⟨hs, hil, ?_⟩
    intro hik
    rw [hik, hun hik] at hs
    cases hs
  have hsame : ∀ t', some t' ≠ some t → t' ≠ t := fun t' hne he => hne (congrArg some he)
  refine ⟨?_, h.opened, ?_, ?_, ?_, ?_, h.single, ?_, ?_, h.honest⟩
  · exact fun i hi hst => h.entry i hi (hcon i hst).1
  · intro i hi hst
    obtain ⟨hs, _, _⟩ := hcon i hst
    obtain ⟨p, hp, hlp, hback, hcase⟩ := h.paired i hi hs
    refine ⟨p, hp, hlp, hback, ?_⟩
    rcases hcase with hcp | he | hrel
    · by_cases hpk : p = k
      · subst hpk
        rw [if_pos hcp, hback]
        exact Or.inr (Or.inl rfl)
      · refine Or.inl ?_
        have hpl : p ∉ l := by
          intro hmem
          rw [hl p hmem] at hcp
          cases hcp
        unfold State.parted
        dsimp only
        rw [if_neg (by simp [hpl, hpk])]
        exact hcp
    · cases he
    · exact Or.inr (Or.inr hrel)
  · intro i hi hst
    have hne : (s.parted k l aw).state i ≠ .disconnecting := by
      rcases hst with hst | hst
      · rw [hst]
        exact fun he => by cases he
      · rw [hst]
        exact fun he => by cases he
    rw [← (hstate i hne).1] at hst
    exact h.early i hi hst
  · exact fun i p hi hst hp hnot => h.joined i p hi (hcon i hst).1 hp hnot
  · intro t' i serv n hne hpc
    obtain ⟨hli, hstamp, hserv, hacc, hmate⟩ := h.waits t' i serv n hne hpc
    refine ⟨hli, hstamp, ?_, fun hst => hacc (hcon i hst).1, hmate⟩
    intro hst
    have hs := (hstate i (by rw [hst]; exact fun he => by cases he)).1
    exact hserv (hs.trans hst)
  · intro t' i new hne hpc
    obtain ⟨hln, hst, hc, hd⟩ := h.fresh t' i new hne hpc
    refine ⟨hln, ?_, hc, hd⟩
    have hpc' : s.pc t' = .accept i new := hpc
    have hnk : new ≠ k := by
      rintro rfl
      exact hidle t' (hsame t' hne) (by rw [hpc']; rfl)
    have hnl : new ∉ l := by
      intro hmem
      rw [hl new hmem] at hst
      cases hst
    unfold State.parted
    dsimp only
    rw [if_neg (by simp [hnl, hnk])]
    exact hst
  · intro t' i u q r hne hpc
    obtain ⟨hli, hd, hst⟩ := h.release t' i u q r hne hpc
    exact ⟨hli, hd, fun hst' => hst (hcon i hst').1⟩

theorem unixRelease_pairs {upd : Option Upd} {e : Option (Sock × Sock)} (h : s.Pairs (some t) e)
    (hclosed : s.opened k = false) (hstate : s.state k ≠ .connected)
    (hidle : ∀ t', t' ≠ t → (s.pc t').own ≠ some k)
    (hpeer : ∀ i, s.live i = true → s.state i = .connected → s.conn i ≠ some k) :
    (s.unixRelease k upd).Pairs (some t) e := by
  have haside : s.Aside (s.unixRelease k upd) := unixRelease_aside
  have hsame : ∀ t', some t' ≠ some t → t' ≠ t := fun t' hne he => hne (congrArg some he)
  have hhist : (s.unixRelease k upd).accepted = s.accepted ∧
      (s.unixRelease k upd).returned = s.returned := by
    cases upd with
    | none => exact ⟨rfl, rfl⟩
    | some u =>
        unfold State.unixRelease
        dsimp only
        split <;> exact ⟨rfl, rfl⟩
  have hdata : ∀ i, i ≠ k → (s.unixRelease k upd).data i = s.data i := by
    intro i hik
    cases upd with
    | none => rfl
    | some u =>
        rw [unixRelease_fields.2.1]
        exact update_of_ne hik _ _
  have hpeerupd : (s.unixRelease k upd).peerupd = s.peerupd := by
    cases upd with
    | none => rfl
    | some u => exact unixRelease_fields.2.2.2.1
  have hmate : ∀ i, i ≠ k → (s.unixRelease k upd).mate i = s.mate i :=
    fun i hik => mate_congr (hdata i hik) hpeerupd
  have hmatek : s.mate k = none → (s.unixRelease k upd).mate k = none := by
    intro hm
    cases upd with
    | none => exact hm
    | some u =>
        unfold State.mate
        rw [unixRelease_fields.2.1, update_self]
        rfl
  have hst : (s.unixRelease k upd).state = s.state := by rw [haside.net]
  have hli : (s.unixRelease k upd).live = s.live := by rw [haside.net]
  have hco : (s.unixRelease k upd).conn = s.conn := by rw [haside.net]
  have hop : (s.unixRelease k upd).opened = s.opened := by rw [haside.net]
  have hsta : (s.unixRelease k upd).stamp = s.stamp := by rw [haside.net]
  refine ⟨?_, ?_, ?_, ?_, ?_, ?_, ?_, ?_, ?_, ?_⟩
  · intro i hi hsi
    rw [hli] at hi
    rw [hst] at hsi
    have hik : i ≠ k := by
      rintro rfl
      exact hstate hsi
    rw [hdata i hik]
    exact h.entry i hi hsi
  · intro i hi
    rw [hop] at hi
    have hik : i ≠ k := by
      rintro rfl
      rw [hclosed] at hi
      cases hi
    rw [hdata i hik]
    exact h.opened i hi
  · rw [hli, hst, hco, haside.pc]
    exact h.paired
  · intro i hi hsi
    rw [hli] at hi
    rw [hst] at hsi
    have hold := h.early i hi hsi
    by_cases hik : i = k
    · subst hik
      exact hmatek hold
    · rw [hmate i hik]
      exact hold
  · intro i p hi hsi hp hnot
    rw [hli] at hi
    rw [hst] at hsi
    rw [hco] at hp
    rw [haside.pc] at hnot
    have hik : i ≠ k := by
      rintro rfl
      exact hstate hsi
    have hpk : p ≠ k := by
      rintro rfl
      exact hpeer i hi hsi hp
    rw [hmate i hik, hdata p hpk]
    exact h.joined i p hi hsi hp hnot
  · intro t' i serv n hne hpc
    rw [haside.pc] at hpc
    obtain ⟨hlive, hstamp, hserv, hacc, hm⟩ := h.waits t' i serv n hne hpc
    rw [hli, hsta, hst, hco, hhist.1]
    refine ⟨hlive, hstamp, hserv, hacc, ?_⟩
    by_cases hik : i = k
    · subst hik
      exact hmatek hm
    · rw [hmate i hik]
      exact hm
  · rw [haside.pc]
    exact h.single
  · intro t' i new hne hpc
    rw [haside.pc] at hpc
    have hnk : new ≠ k := by
      rintro rfl
      exact hidle t' (hsame t' hne) (by rw [hpc]; rfl)
    rw [hli, hst, hco, hdata new hnk]
    exact h.fresh t' i new hne hpc
  · intro t' i u q r hne hpc
    rw [haside.pc] at hpc
    have hik : i ≠ k := by
      rintro rfl
      exact hidle t' (hsame t' hne) (by rw [hpc]; rfl)
    rw [hli, hst, hdata i hik]
    exact h.release t' i u q r hne hpc
  · rw [hhist.1, hhist.2]
    exact h.honest

theorem releaseConn_pairs {peer : Option Sock} (h : s.Pairs (some t) (peer.map fun p => (k, p)))
    (hpeer : ∀ p, peer = some p → s.live p = true → s.conn p = some k)
    (hstate : s.state k ≠ .connected) : (s.releaseConn peer).Pairs (some t) none := by
  cases peer with
  | none => exact h
  | some p =>
      have hconn : ∀ i, (s.releasePeer p).state i = .connected → s.state i = .connected ∧ i ≠ p := by
        intro i hi
        by_cases hip : i = p
        · rw [hip] at hi
          have hdis : SockState.disconnecting = .connected :=
            (update_self p _ s.state).symm.trans hi
          cases hdis
        · exact ⟨(update_of_ne hip _ s.state).symm.trans hi, hip⟩
      have hkeep : ∀ i, i ≠ p → (s.releasePeer p).state i = s.state i :=
        fun i hip => update_of_ne hip _ s.state
      have hdis : (s.releasePeer p).state p = .disconnecting := update_self p _ s.state
      refine ⟨?_, h.opened, ?_, ?_, ?_, ?_, h.single, ?_, ?_, h.honest⟩
      · exact fun i hi hsi => h.entry i hi (hconn i hsi).1
      · intro i hi hsi
        obtain ⟨hs, hip⟩ := hconn i hsi
        obtain ⟨q, hq, hlq, hback, hcase⟩ := h.paired i hi hs
        refine ⟨q, hq, hlq, hback, ?_⟩
        rcases hcase with hcq | he | hrel
        · by_cases hqp : q = p
          · -- the peer belongs to `k` alone
            subst hqp
            have hki := (hpeer q rfl hlq).symm.trans hback
            rw [← Option.some.inj hki] at hs
            exact absurd hs hstate
          · exact Or.inl ((hkeep q hqp).trans hcq)
        · have hpi : p = i := congrArg Prod.snd (Option.some.inj he)
          exact absurd hpi.symm hip
        · exact Or.inr (Or.inr hrel)
      · intro i hi hsi
        have hip : i ≠ p := by
          rintro rfl
          rcases hsi with hsi | hsi
          · cases hdis.symm.trans hsi
          · cases hdis.symm.trans hsi
        change (s.releasePeer p).state i = _ ∨ (s.releasePeer p).state i = _ at hsi
        rw [hkeep i hip] at hsi
        exact h.early i hi hsi
      · exact fun i q hi hsi hq hnot => h.joined i q hi (hconn i hsi).1 hq hnot
      · intro t' i serv n hne hpc
        obtain ⟨hli, hstamp, hserv, hacc, hm⟩ := h.waits t' i serv n hne hpc
        refine ⟨hli, hstamp, ?_, fun hsi => hacc (hconn i hsi).1, hm⟩
        intro hsi
        by_cases hip : i = p
        · rw [hip] at hsi
          cases hdis.symm.trans hsi
        · exact hserv ((hkeep i hip).symm.trans hsi)
      · intro t' i new hne hpc
        obtain ⟨hln, hst, hc, hd⟩ := h.fresh t' i new hne hpc
        have hnp : new ≠ p := by
          rintro rfl
          have hback := hpeer new rfl hln
          rw [hc] at hback
          cases hback
        exact ⟨hln, (hkeep new hnp).trans hst, hc, hd⟩
      · intro t' i u q r hne hpc
        obtain ⟨hli, hd, hst⟩ := h.release t' i u q r hne hpc
        exact ⟨hli, hd, fun hsi => hst (hconn i hsi).1⟩

theorem free_pairs (h : s.Pairs (some t) none)
    (hidle : ∀ t', t' ≠ t → (s.pc t').own ≠ some k ∧ (s.pc t').sock ≠ some k)
    (hpeer : ∀ i, s.live i = true → s.state i = .connected → s.conn i ≠ some k) :
    State.Pairs { s with live := update s.live k false } (some t) none := by
  have hsame : ∀ t', some t' ≠ some t → t' ≠ t := fun t' hne he => hne (congrArg some he)
  have hold : ∀ i, update s.live k false i = true → i ≠ k ∧ s.live i = true := by
    intro i hi
    have hik : i ≠ k := by
      rintro rfl
      simp at hi
    exact ⟨hik, (update_of_ne hik _ _).symm.trans hi⟩
  have hnew : ∀ i, i ≠ k → s.live i = true → update s.live k false i = true :=
    fun i hik hi => (update_of_ne hik _ _).trans hi
  refine ⟨?_, h.opened, ?_, ?_, ?_, ?_, h.single, ?_, ?_, h.honest⟩
  · exact fun i hi => h.entry i (hold i hi).2
  · intro i hi hsi
    have hli := (hold i hi).2
    obtain ⟨p, hp, hlp, hback, hcase⟩ := h.paired i hli hsi
    refine ⟨p, hp, hnew p ?_ hlp, hback, hcase⟩
    rintro rfl
    exact hpeer i hli hsi hp
  · exact fun i hi => h.early i (hold i hi).2
  · exact fun i p hi => h.joined i p (hold i hi).2
  · intro t' i serv n hne hpc
    obtain ⟨hli, hrest⟩ := h.waits t' i serv n hne hpc
    have hik : i ≠ k := by
      rintro rfl
      exact (hidle t' (hsame t' hne)).2 (by rw [hpc]; rfl)
    exact ⟨hnew i hik hli, hrest⟩
  · intro t' i new hne hpc
    obtain ⟨hln, hrest⟩ := h.fresh t' i new hne hpc
    have hnk : new ≠ k := by
      rintro rfl
      exact (hidle t' (hsame t' hne)).1 (by rw [hpc]; rfl)
    exact ⟨hnew new hnk hln, hrest⟩
  · intro t' i u q r hne hpc
    obtain ⟨hli, hrest⟩ := h.release t' i u q r hne hpc
    have hik : i ≠ k := by
      rintro rfl
      exact (hidle t' (hsame t' hne)).1 (by rw [hpc]; rfl)
    exact ⟨hnew i hik hli, hrest⟩

theorem accept_pairs {c new : Sock} {w : Upd} (ic nx : Sock → Option Sock)
    (h : s.Pairs (some t) none) (hb : s.Books) (hc : s.Calls (some t)) (hclient : s.Pending c)
    (hlive : s.live c = true) (hwait : ∃ t' serv n, t' ≠ t ∧ s.pc t' = .connect c serv n)
    (hnew : s.Holds t new) (hstate : s.state new = .unconnected) (hconn : s.conn new = none)
    (hw : s.data new = some w) :
    State.Pairs { s with
      iconn := ic
      next := nx
      conn := update (update s.conn new (some c)) c (some new)
      state := update (update s.state c .connected) new .connected
      accepted := s.stamp c :: s.accepted
      peerupd := update s.peerupd w (s.data c) } (some t) none := by
  set s₁ : State := { s with
    iconn := ic
    next := nx
    conn := update (update s.conn new (some c)) c (some new)
    state := update (update s.state c .connected) new .connected
    accepted := s.stamp c :: s.accepted
    peerupd := update s.peerupd w (s.data c) } with hs₁
  have hsame : ∀ t', some t' ≠ some t → t' ≠ t := fun t' hne he => hne (congrArg some he)
  have hcn : c ≠ new := by
    rintro rfl
    exact absurd hclient.1 (by simp [hnew.2.1])
  have hst : ∀ i, i ≠ c → i ≠ new → s₁.state i = s.state i := by
    intro i hic hin
    exact (update_of_ne hin _ _).trans (update_of_ne hic _ _)
  have hstc : s₁.state c = .connected :=
    (update_of_ne hcn _ _).trans (update_self c _ s.state)
  have hstn : s₁.state new = .connected := update_self new _ _
  have hco : ∀ i, i ≠ c → i ≠ new → s₁.conn i = s.conn i := by
    intro i hic hin
    exact (update_of_ne hic _ _).trans (update_of_ne hin _ _)
  have hcoc : s₁.conn c = some new := update_self c _ _
  have hcon : s₁.conn new = some c :=
    (update_of_ne (Ne.symm hcn) _ _).trans (update_self new _ s.conn)
  have hmate : ∀ i, s.live i = true → i ≠ new → s₁.mate i = s.mate i := by
    intro i hi hin
    unfold State.mate
    cases hd : s.data i with
    | none => rfl
    | some v =>
        have hvw : v ≠ w := by
          rintro rfl
          have h₁ := hb.data i v hi hd
          have h₂ := hb.data new v hnew.1 hw
          exact hin (Option.some.inj (h₁.symm.trans h₂))
        exact update_of_ne hvw _ _
  have hmaten : s₁.mate new = s.data c := by
    unfold State.mate
    have hd₁ : s₁.data new = some w := hw
    rw [hd₁]
    exact update_self w _ _
  have hnorel : ∀ t' u p r, some t' ≠ some t → s.pc t' ≠ .release c u p r := by
    intro t' u p r hne hpc
    have hown := (hc.own t' c hne (by rw [hpc]; rfl)).2
    rw [hclient.1] at hown
    cases hown
  have hpair : ∀ i, s.live i = true → s.state i = .connected → i ≠ c ∧ i ≠ new ∧
      ∃ p, s.conn i = some p ∧ p ≠ c ∧ p ≠ new ∧ s.live p = true ∧ s.conn p = some i ∧
        (s.state p = .connected ∨ ∃ t' u r, some t' ≠ some t ∧
          s.pc t' = .release p u (some i) r) := by
    intro i hi hsi
    obtain ⟨p, hp, hlp, hback, hcase⟩ := h.paired i hi hsi
    have hic : i ≠ c := by
      rintro rfl
      rw [hclient.2] at hsi
      cases hsi
    have hin : i ≠ new := by
      rintro rfl
      rw [hstate] at hsi
      cases hsi
    have hpc : p ≠ c := by
      rintro rfl
      rcases hcase with hcp | he | ⟨t', u, r, hne, hrel⟩
      · rw [hclient.2] at hcp
        cases hcp
      · cases he
      · exact hnorel t' u (some i) r hne hrel
    have hpn : p ≠ new := by
      rintro rfl
      rw [hconn] at hback
      cases hback
    refine ⟨hic, hin, p, hp, hpc, hpn, hlp, hback, ?_⟩
    rcases hcase with hcp | he | hrel
    · exact Or.inl hcp
    · cases he
    · exact Or.inr hrel
  refine ⟨?_, h.opened, ?_, ?_, ?_, ?_, h.single, ?_, ?_, ?_⟩
  · intro i hi hsi
    by_cases hin : i = new
    · rw [hin]
      have hd₁ : s₁.data new = some w := hw
      rw [hd₁]
      simp
    · by_cases hic : i = c
      · rw [hic]
        exact h.opened c hclient.1
      · exact h.entry i hi ((hst i hic hin).symm.trans hsi)
  · intro i hi hsi
    by_cases hin : i = new
    · rw [hin]
      exact ⟨c, hcon, hlive, hcoc, Or.inl hstc⟩
    · by_cases hic : i = c
      · rw [hic]
        exact ⟨new, hcoc, hnew.1, hcon, Or.inl hstn⟩
      · obtain ⟨_, _, p, hp, hpc, hpn, hlp, hback, hcase⟩ :=
          hpair i hi ((hst i hic hin).symm.trans hsi)
        refine ⟨p, (hco i hic hin).trans hp, hlp, (hco p hpc hpn).trans hback, ?_⟩
        rcases hcase with hcp | hrel
        · exact Or.inl ((hst p hpc hpn).trans hcp)
        · exact Or.inr (Or.inr hrel)
  · intro i hi hsi
    have hin : i ≠ new := by
      rintro rfl
      rcases hsi with hsi | hsi
      · cases hstn.symm.trans hsi
      · cases hstn.symm.trans hsi
    have hic : i ≠ c := by
      rintro rfl
      rcases hsi with hsi | hsi
      · cases hstc.symm.trans hsi
      · cases hstc.symm.trans hsi
    rw [hst i hic hin] at hsi
    rw [hmate i hi hin]
    exact h.early i hi hsi
  · intro i p hi hsi hp hnot
    by_cases hin : i = new
    · subst hin
      have hpc : p = c := Option.some.inj (hp.symm.trans hcon)
      rw [hpc]
      exact hmaten
    · by_cases hic : i = c
      · subst hic
        obtain ⟨t', serv, n, hne, hpc⟩ := hwait
        exact absurd hpc (hnot t' serv n (by simpa using hne))
      · rw [hmate i hi hin]
        exact h.joined i p hi ((hst i hic hin).symm.trans hsi) ((hco i hic hin).symm.trans hp) hnot
  · intro t' i serv n hne hpc
    obtain ⟨hli, hstamp, hserv, hacc, hm⟩ := h.waits t' i serv n hne hpc
    have hin : i ≠ new := by
      rintro rfl
      have hopen := hc.sock t' i hne (by rw [show s.pc t' = .connect i serv n from hpc]; rfl)
      rw [hnew.2.1] at hopen
      cases hopen
    rw [hmate i hli hin]
    by_cases hic : i = c
    · subst hic
      refine ⟨hli, hstamp, ?_, fun _ => ?_, hm⟩
      · intro hsi
        cases hstc.symm.trans hsi
      · rw [← hstamp]
        exact List.mem_cons_self
    · rw [hst i hic hin, hco i hic hin]
      exact ⟨hli, hstamp, hserv, fun hsi => List.mem_cons_of_mem _ (hacc hsi), hm⟩
  · intro t' i new' hne hpc
    have hpc' : s.pc t' = .accept i new' := hpc
    obtain ⟨hln, hsn, hcn', hd⟩ := h.fresh t' i new' hne hpc
    have hnn : new' ≠ new := by
      rintro rfl
      exact hnew.2.2 t' (hsame t' hne) (by rw [hpc']; rfl)
    have hnc : new' ≠ c := by
      rintro rfl
      have hown := (hc.own t' new' hne (by rw [hpc']; rfl)).2
      rw [hclient.1] at hown
      cases hown
    rw [hst new' hnc hnn, hco new' hnc hnn]
    exact ⟨hln, hsn, hcn', hd⟩
  · intro t' i u q r hne hpc
    have hpc' : s.pc t' = .release i u q r := hpc
    obtain ⟨hli, hd, hsi⟩ := h.release t' i u q r hne hpc
    have hin : i ≠ new := by
      rintro rfl
      exact hnew.2.2 t' (hsame t' hne) (by rw [hpc']; rfl)
    have hic : i ≠ c := by
      rintro rfl
      exact hnorel t' u q r hne hpc'
    rw [hst i hic hin]
    exact ⟨hli, hd, hsi⟩
  · exact fun n hn => List.mem_cons_of_mem _ (h.honest n hn)

theorem open_pairs (h : s.Pairs (some t) none) (hk : s.data k ≠ none) :
    State.Pairs { s with opened := update s.opened k true } (some t) none := by
  refine ⟨h.entry, ?_, h.paired, h.early, h.joined, h.waits, h.single, h.fresh, h.release,
    h.honest⟩
  intro i hi
  by_cases hik : i = k
  · rw [hik]
    exact hk
  · exact h.opened i ((update_of_ne hik _ _).symm.trans hi)

theorem close_pairs (h : s.Pairs (some t) none) :
    State.Pairs { s with opened := update s.opened k false } (some t) none := by
  refine ⟨h.entry, ?_, h.paired, h.early, h.joined, h.waits, h.single, h.fresh, h.release,
    h.honest⟩
  intro i hi
  have hik : i ≠ k := by
    rintro rfl
    simp at hi
  exact h.opened i ((update_of_ne hik _ _).symm.trans hi)

theorem connectEnd_pairs {serv : Sock} {n : Nat} (h : s.Pairs none none) (hb : s.Books)
    (hpc : s.pc t = .connect k serv n) (hopen : s.opened k = true)
    (hstate : s.state k = .connected ∨ s.state k = .disconnecting) (hacc : n ∈ s.accepted)
    (hp : s.conn k = some p) :
    (s.connectEnd t k n).Pairs none none ∧ (s.connectEnd t k n).Books := by
  obtain ⟨hlive, hstamp, _, _, hm⟩ := h.waits t k serv n (by simp) hpc
  obtain ⟨u, hu⟩ : ∃ u, s.data k = some u := Option.ne_none_iff_exists'.mp (h.opened k hopen)
  have hpeer : s.peerupd u = none := by
    unfold State.mate at hm
    rw [hu] at hm
    exact hm
  have hsock := hb.data k u hlive hu
  set s₂ : State := s.connectEnd t k n with hs₂
  have he : s₂ = State.finish { s.unixDataRef (s.data p) with
      peerupd := update (s.unixDataRef (s.data p)).peerupd u (s.data p)
      returned := n :: (s.unixDataRef (s.data p)).returned } t 0 := by
    rw [hs₂]
    unfold State.connectEnd
    rw [hp, hu]
    dsimp only
    rw [unixDataRef_data]
  have hfields : s₂.state = s.state ∧ s₂.conn = s.conn ∧ s₂.live = s.live ∧
      s₂.opened = s.opened ∧ s₂.stamp = s.stamp ∧ s₂.data = s.data ∧
      s₂.accepted = s.accepted ∧ s₂.returned = n :: s.returned ∧
      s₂.peerupd = update s.peerupd u (s.data p) ∧
      s₂.pc = update s.pc t .idle := by
    rw [he]
    cases s.data p <;> exact ⟨rfl, rfl, rfl, rfl, rfl, rfl, rfl, rfl, rfl, rfl⟩
  obtain ⟨hst, hco, hli, hop, hsta, hda, hac, hre, hpu, hpc'⟩ := hfields
  have hother : ∀ t', t' ≠ t → s₂.pc t' = s.pc t' := by
    intro t' hne
    rw [hpc', update_of_ne hne]
  have hmine : ∀ t' i serv' n', s₂.pc t' = .connect i serv' n' →
      t' ≠ t ∧ s.pc t' = .connect i serv' n' := by
    intro t' i serv' n' hcon
    have hne : t' ≠ t := by
      rintro rfl
      rw [hpc', update_self] at hcon
      cases hcon
    exact ⟨hne, (hother t' hne).symm.trans hcon⟩
  have hmate : ∀ i, s.live i = true → i ≠ k → s₂.mate i = s.mate i := by
    intro i hi hik
    unfold State.mate
    rw [hda]
    cases hd : s.data i with
    | none => rfl
    | some v =>
        have hvu : v ≠ u := by
          rintro rfl
          exact hik (Option.some.inj ((hb.data i v hi hd).symm.trans hsock))
        change s₂.peerupd v = s.peerupd v
        rw [hpu, update_of_ne hvu]
  have hmatek : s₂.mate k = s.data p := by
    unfold State.mate
    rw [hda, hu]
    change s₂.peerupd u = s.data p
    rw [hpu, update_self]
  constructor
  · refine ⟨?_, ?_, ?_, ?_, ?_, ?_, ?_, ?_, ?_, ?_⟩
    · rw [hli, hst, hda]
      exact h.entry
    · rw [hop, hda]
      exact h.opened
    · rw [hli, hst, hco]
      intro i hi hsi
      obtain ⟨q, hq, hlq, hqback, hqcase⟩ := h.paired i hi hsi
      refine ⟨q, hq, hlq, hqback, ?_⟩
      rcases hqcase with hcq | he' | ⟨t', v, r, hne, hrel⟩
      · exact Or.inl hcq
      · cases he'
      · have ht : t' ≠ t := by
          rintro rfl
          rw [hpc] at hrel
          cases hrel
        exact Or.inr (Or.inr ⟨t', v, r, by simp, (hother t' ht).trans hrel⟩)
    · intro i hi hsi
      rw [hli] at hi
      rw [hst] at hsi
      have hik : i ≠ k := by
        rintro rfl
        rcases hstate with hst' | hst' <;> rw [hst'] at hsi <;> rcases hsi with hsi | hsi <;>
          cases hsi
      rw [hmate i hi hik]
      exact h.early i hi hsi
    · intro i q hi hsi hq hnot
      rw [hli] at hi
      rw [hst] at hsi
      rw [hco] at hq
      rw [hda]
      by_cases hik : i = k
      · subst hik
        rw [hmatek, Option.some.inj (hp.symm.trans hq)]
      · rw [hmate i hi hik]
        refine h.joined i q hi hsi hq ?_
        intro t' serv' n' _ hcon
        have ht : t' ≠ t := by
          rintro rfl
          rw [hpc] at hcon
          cases hcon
          exact hik rfl
        exact hnot t' serv' n' (by simp) ((hother t' ht).trans hcon)
    · intro t' i serv' n' _ hcon
      obtain ⟨ht, hold⟩ := hmine t' i serv' n' hcon
      have hik : i ≠ k := by
        rintro rfl
        exact ht (h.single t' t i serv' serv n' n (by simp) (by simp) hold hpc)
      obtain ⟨hwl, hws, hwc, hwa, hwm⟩ := h.waits t' i serv' n' (by simp) hold
      rw [hli, hsta, hst, hco, hac, hmate i hwl hik]
      exact ⟨hwl, hws, hwc, hwa, hwm⟩
    · intro t₁ t₂ i serv₁ serv₂ n₁ n₂ _ _ h₁ h₂
      exact h.single t₁ t₂ i serv₁ serv₂ n₁ n₂ (by simp) (by simp) (hmine _ _ _ _ h₁).2
        (hmine _ _ _ _ h₂).2
    · intro t' i new _ hacc'
      have ht : t' ≠ t := by
        rintro rfl
        rw [hpc', update_self] at hacc'
        cases hacc'
      rw [hother t' ht] at hacc'
      rw [hli, hst, hco, hda]
      exact h.fresh t' i new (by simp) hacc'
    · intro t' i v q r _ hrel
      have ht : t' ≠ t := by
        rintro rfl
        rw [hpc', update_self] at hrel
        cases hrel
      rw [hother t' ht] at hrel
      rw [hli, hda, hst]
      exact h.release t' i v q r (by simp) hrel
    · rw [hre, hac]
      intro m hm'
      rcases List.mem_cons.mp hm' with rfl | hm'
      · exact hacc
      · exact h.honest m hm'
  · have htie := tie_books (p := s.data p) hb (u := u) (by rw [hsock]; simp) hpeer
    rw [he]
    exact htie.congr rfl rfl rfl rfl rfl

end Changes

end Unix
end Elks
