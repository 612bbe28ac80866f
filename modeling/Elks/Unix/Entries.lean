import Elks.Lib.Tally
import Elks.Unix.Sockets

/-!
# The entries of `unix_datas` and their reference counts (net/unix/af_unix.c)

An entry is referred to by its socket and by the entries of other sockets that have it as
`peerupd`.  `unix_release` drops both references of an entry but leaves its `peerupd` as it
is, so only the entries that still have a socket count.

`State.Books` says that the counts are right; every operation on the entries keeps it.
-/

namespace Elks
namespace Unix

open Lib
open Function (update update_eq_self update_of_ne update_self)

section Definitions

/-- The entry that an entry refers to while it has a socket. -/
def UnixDatas.holding (d : UnixDatas) (v : Upd) : Option Upd :=
  if d.socket v = none then none else d.peerupd v

/-- How many entries with a socket have `u` as `peerupd`. -/
noncomputable def UnixDatas.holders (d : UnixDatas) (u : Upd) : Nat :=
  tally d.holding (some u)

/-- Sockets and entries belong together, and the reference counts are right. -/
structure State.Books (s : State) : Prop where
  data : ∀ k u, s.live k = true → s.data k = some u → s.socket u = some k
  socket : ∀ u k, s.socket u = some k → s.live k = true ∧ s.data k = some u
  count : ∀ u, s.refcnt u = (if s.socket u = none then 0 else 1) + s.holders u

end Definitions

section Keeping

variable {s s' : State} {k : Sock} {u v : Upd}

theorem State.Books.congr (h : s.Books) (hlive : s'.live = s.live) (hdata : s'.data = s.data)
    (hsocket : s'.socket = s.socket) (hrefcnt : s'.refcnt = s.refcnt)
    (hpeer : s'.peerupd = s.peerupd) :
    s'.Books where
  data := by
    rw [hlive, hdata, hsocket]
    exact h.data
  socket := by
    rw [hlive, hdata, hsocket]
    exact h.socket
  count u := by
    have hholding : s'.holding = s.holding := by
      funext v
      unfold UnixDatas.holding
      rw [hsocket, hpeer]
    unfold UnixDatas.holders
    rw [hholding, hrefcnt, hsocket]
    exact h.count u

theorem State.Books.unused (h : s.Books) (hu : s.refcnt u = 0) :
    s.socket u = none ∧ s.holders u = 0 := by
  have hcount := h.count u
  rw [hu] at hcount
  split at hcount
  · rename_i hnone
    exact ⟨hnone, by omega⟩
  · omega

theorem holders_zero (hz : s.holders u = 0) (v : Upd) : s.holding v ≠ some u :=
  tally_eq_zero_of_finite.mp hz v

theorem alloc_books (h : s.Books) (hk : s.live k = false) : (s.sockAlloc k).Books where
  data i u hi hu := by
    have hik : i ≠ k := by
      rintro rfl
      simp [State.sockAlloc] at hu
    refine h.data i u ((update_of_ne hik _ _).symm.trans hi) ?_
    exact (update_of_ne hik _ _).symm.trans hu
  socket u i hu := by
    obtain ⟨hi, hdata⟩ := h.socket u i hu
    have hik : i ≠ k := by
      rintro rfl
      rw [hk] at hi
      cases hi
    exact ⟨(update_of_ne hik _ _).trans hi, (update_of_ne hik _ _).trans hdata⟩
  count := h.count

theorem reuse_books {c : Content} (h : s.Books) (hk : s.live k = false) :
    (s.reuse k c).Books where
  data i u hi hu := by
    have hik : i ≠ k := by
      rintro rfl
      have hlive : s.live i = true := hi
      rw [hk] at hlive
      cases hlive
    exact h.data i u hi ((update_of_ne hik _ _).symm.trans hu)
  socket u i hu := by
    obtain ⟨hi, hdata⟩ := h.socket u i hu
    have hik : i ≠ k := by
      rintro rfl
      rw [hk] at hi
      cases hi
    exact ⟨hi, (update_of_ne hik _ _).trans hdata⟩
  count := h.count

theorem free_books (h : s.Books) (hk : s.data k = none) :
    State.Books { s with live := update s.live k false } where
  data i u hi hu := by
    have hik : i ≠ k := by
      rintro rfl
      simp at hi
    exact h.data i u ((update_of_ne hik _ _).symm.trans hi) hu
  socket u i hu := by
    obtain ⟨hi, hdata⟩ := h.socket u i hu
    have hik : i ≠ k := by
      rintro rfl
      rw [hk] at hdata
      cases hdata
    exact ⟨(update_of_ne hik _ _).trans hi, hdata⟩
  count := h.count

theorem create_books {protocol : Int} (h : s.Books) (hlive : s.live k = true)
    (hk : s.data k = none) : (s.unixCreate k protocol).1.Books := by
  unfold State.unixCreate
  split
  · exact h
  cases halloc : s.unixDataAlloc with
  | none => exact h
  | some u =>
      have hu : s.refcnt u = 0 := by
        have hfound := List.find?_some halloc
        simpa using hfound
      obtain ⟨hsock, hzero⟩ := h.unused hu
      have hnone : ∀ w, s.socket w ≠ some k := by
        intro w hw
        have hdata := (h.socket w k hw).2
        rw [hk] at hdata
        cases hdata
      dsimp only
      refine ⟨?_, ?_, ?_⟩
      · intro i w hi hw
        by_cases hik : i = k
        · subst hik
          have huw : u = w := by
            have he : some u = some w := (update_self i (some u) s.data).symm.trans hw
            exact Option.some.inj he
          rw [← huw]
          exact update_self u (some i) s.socket
        · have hw' := (update_of_ne hik _ _).symm.trans hw
          have hsw := h.data i w hi hw'
          have hwu : w ≠ u := by
            rintro rfl
            rw [hsock] at hsw
            cases hsw
          exact (update_of_ne hwu _ _).trans hsw
      · intro w i hw
        by_cases hwu : w = u
        · subst hwu
          have hki : k = i := by
            have he : some k = some i := (update_self w (some k) s.socket).symm.trans hw
            exact Option.some.inj he
          rw [← hki]
          exact ⟨hlive, update_self k (some w) s.data⟩
        · have hw' := (update_of_ne hwu _ _).symm.trans hw
          obtain ⟨hi, hdata⟩ := h.socket w i hw'
          have hik : i ≠ k := by
            rintro rfl
            exact hnone w hw'
          exact ⟨hi, (update_of_ne hik _ _).trans hdata⟩
      · intro w
        have hholding : (fun x => if update s.socket u (some k) x = none then none
            else update s.peerupd u none x) = s.holding := by
          funext x
          unfold UnixDatas.holding
          by_cases hxu : x = u
          · subst hxu
            simp [hsock]
          · simp [hxu]
        have hcount := h.count w
        change update s.refcnt u 1 w =
          (if update s.socket u (some k) w = none then 0 else 1) +
            (tally (fun x => if update s.socket u (some k) x = none then none
              else update s.peerupd u none x) (some w) : Int)
        rw [hholding]
        by_cases hwu : w = u
        · subst hwu
          have hz : (tally s.holding (some w) : Int) = 0 := by
            exact_mod_cast hzero
          simp [hz]
        · rw [update_of_ne hwu, update_of_ne hwu]
          exact hcount

theorem tie_books {p : Option Upd} (h : s.Books) (hsock : s.socket u ≠ none)
    (hu : s.peerupd u = none) :
    State.Books { s.unixDataRef p with
      peerupd := update (s.unixDataRef p).peerupd u p } := by
  have hold : s.holding u = none := by
    unfold UnixDatas.holding
    rw [if_neg hsock]
    exact hu
  cases p with
  | none =>
      have hsame : update s.peerupd u none = s.peerupd := by
        rw [← hu]
        exact update_eq_self u s.peerupd
      refine h.congr rfl rfl rfl rfl hsame
  | some v =>
      refine ⟨h.data, h.socket, ?_⟩
      intro w
      have hholding : (fun x => if s.socket x = none then none
          else update s.peerupd u (some v) x) =
          update s.holding u (some v) := by
        funext x
        by_cases hxu : x = u
        · subst hxu
          simp [hsock]
        · simp [hxu, UnixDatas.holding]
      have hcount := h.count w
      change update s.refcnt v (s.refcnt v + 1) w =
        (if s.socket w = none then 0 else 1) +
          (tally (fun x => if s.socket x = none then none
            else update s.peerupd u (some v) x) (some w) : Int)
      rw [hholding]
      by_cases hwv : w = v
      · subst hwv
        have hgain : tally (update s.holding u (some w)) (some w) =
            tally s.holding (some w) + 1 :=
          tally_gain (Set.toFinite _) (by rw [hold]; simp)
        rw [update_self, hgain, hcount]
        unfold UnixDatas.holders
        push_cast
        omega
      · have hother : tally (update s.holding u (some v)) (some w) =
            tally s.holding (some w) :=
          tally_update_other (by rw [hold]; simp) (by simpa using hwv)
        rw [update_of_ne hwv, hother]
        exact hcount

theorem unixRelease_fields :
    (s.unixRelease k (some u)).live = s.live ∧
      (s.unixRelease k (some u)).data = update s.data k none ∧
      (s.unixRelease k (some u)).socket = update s.socket u none ∧
      (s.unixRelease k (some u)).peerupd = s.peerupd ∧
      ∀ w, (s.unixRelease k (some u)).refcnt w =
        s.refcnt w - (if s.peerupd u = some w then 1 else 0) - (if w = u then 1 else 0) := by
  unfold State.unixRelease
  dsimp only
  cases hp : s.peerupd u with
  | none =>
      refine ⟨rfl, rfl, rfl, rfl, ?_⟩
      intro w
      unfold State.unixDataDeref
      dsimp only
      by_cases hw : w = u
      · rw [hw, update_self]
        simp
      · rw [update_of_ne hw]
        simp [hw]
  | some v =>
      refine ⟨rfl, rfl, rfl, rfl, ?_⟩
      intro w
      unfold State.unixDataDeref
      dsimp only
      by_cases hw : w = u
      · subst hw
        rw [update_self]
        by_cases hwv : w = v
        · subst hwv
          rw [update_self]
          simp
        · rw [update_of_ne hwv]
          have hvw : ¬ v = w := fun he => hwv he.symm
          simp [hvw]
      · rw [update_of_ne hw]
        by_cases hwv : w = v
        · subst hwv
          rw [update_self]
          simp [hw]
        · rw [update_of_ne hwv]
          have hvw : ¬ v = w := fun he => hwv he.symm
          simp [hw, hvw]

theorem release_books (h : s.Books) (hlive : s.live k = true) (hu : s.data k = some u) :
    (s.unixRelease k (some u)).Books := by
  obtain ⟨hlives, hdata, hsocket, hpeer, hrefcnt⟩ := unixRelease_fields (s := s) (k := k) (u := u)
  have hsock := h.data k u hlive hu
  have hold : s.holding u = s.peerupd u := by
    unfold UnixDatas.holding
    rw [hsock]
    simp
  refine ⟨?_, ?_, ?_⟩
  · intro i w hi hw
    rw [hlives] at hi
    rw [hdata] at hw
    have hik : i ≠ k := by
      rintro rfl
      rw [update_self] at hw
      cases hw
    rw [update_of_ne hik] at hw
    have hsw := h.data i w hi hw
    have hwu : w ≠ u := by
      rintro rfl
      exact hik (Option.some.inj (hsw.symm.trans hsock))
    rw [hsocket, update_of_ne hwu]
    exact hsw
  · intro w i hw
    rw [hsocket] at hw
    have hwu : w ≠ u := by
      rintro rfl
      rw [update_self] at hw
      cases hw
    rw [update_of_ne hwu] at hw
    obtain ⟨hi, hdi⟩ := h.socket w i hw
    have hik : i ≠ k := by
      rintro rfl
      exact hwu (Option.some.inj (hdi.symm.trans hu))
    rw [hlives, hdata, update_of_ne hik]
    exact ⟨hi, hdi⟩
  · intro w
    have hholding : (s.unixRelease k (some u)).holding = update s.holding u none := by
      funext x
      unfold UnixDatas.holding
      rw [hsocket, hpeer]
      by_cases hxu : x = u
      · subst hxu
        simp
      · simp [hxu]
    have hcount := h.count w
    unfold UnixDatas.holders at hcount ⊢
    rw [hrefcnt w, hholding, hsocket, hcount]
    have htally : (tally (update s.holding u none) (some w) : Int) +
        (if s.peerupd u = some w then 1 else 0) = tally s.holding (some w) := by
      by_cases hp : s.peerupd u = some w
      · have hloss := tally_loss (f := s.holding) (k := u) (b := none) (Set.toFinite _)
          (by rw [hold, hp]; simp)
        rw [hold, hp] at hloss
        rw [if_pos hp]
        exact_mod_cast hloss
      · have hother : tally (update s.holding u none) (some w) =
            tally s.holding (some w) :=
          tally_update_other (by rw [hold]; exact fun he => hp he.symm) (by simp)
        rw [if_neg hp, hother, add_zero]
    by_cases hwu : w = u
    · subst hwu
      rw [update_self, hsock]
      simp only [if_true, reduceCtorEq, if_false]
      omega
    · rw [update_of_ne hwu, if_neg hwu]
      omega

end Keeping

end Unix
end Elks
