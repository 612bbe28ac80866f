import Elks.Lib.Chain

/-!
# Doubly linked rings in a table

Every record of a table names at most one successor and one predecessor.
`Ring next prev l` says that these links close up through exactly the records
of `l`: successive entries are neighbours, and so are the last and the first.

A ring has no distinguished start (`Ring.rotate`), so the changes a list
routine makes are stated at the front: `Ring.push` links a record in before the
first one and `Ring.pop` takes the first one out.
-/

namespace Elks
namespace Lib

open Function (update update_of_ne update_self)

universe u

section Ring

variable {ι : Type u} {l t : List ι} {i f : ι}

/-- `b` follows `a` in both directions. -/
def Joined (next prev : ι → Option ι) (a b : ι) : Prop :=
  next a = some b ∧ prev b = some a

/-- The links run through exactly the records of `l` and close up. -/
structure Ring (next prev : ι → Option ι) (l : List ι) : Prop where
  nodup : l.Nodup
  joined : (l ++ l.head?.toList).IsChain (Joined next prev)

variable {next next' prev prev' : ι → Option ι}

/-- Only the successors of all but the last and the predecessors of all but the
first matter to a chain of neighbours. -/
theorem isChain_joined_congr (hl : l.IsChain (Joined next prev))
    (hnext : ∀ a, a ∈ l.dropLast → next' a = next a) (hprev : ∀ b, b ∈ l.tail → prev' b = prev b) :
    l.IsChain (Joined next' prev') := by
  induction l with
  | nil =>
      exact List.IsChain.nil
  | cons a l ih =>
      cases l with
      | nil =>
          exact List.IsChain.singleton a
      | cons b l =>
          rw [List.isChain_cons_cons] at hl ⊢
          obtain ⟨⟨hab, hba⟩, htail⟩ := hl
          constructor
          · constructor
            · rw [hnext a (by simp)]
              exact hab
            · rw [hprev b (by simp)]
              exact hba
          · apply ih htail
            · intro c hc
              exact hnext c (List.mem_cons_of_mem a hc)
            · intro c hc
              exact hprev c (List.mem_cons_of_mem b hc)

/-- Links of other records do not matter to a ring. -/
theorem Ring.congr (h : Ring next prev l) (hnext : ∀ a, a ∈ l → next' a = next a)
    (hprev : ∀ b, b ∈ l → prev' b = prev b) : Ring next' prev' l := by
  refine ⟨h.nodup, isChain_joined_congr h.joined ?_ ?_⟩
  · intro a ha
    refine hnext a ?_
    rcases List.mem_append.mp (List.mem_of_mem_dropLast ha) with hl | hl
    · exact hl
    · exact List.mem_of_mem_head? (Option.mem_toList.mp hl)
  · intro b hb
    refine hprev b ?_
    rcases List.mem_append.mp (List.mem_of_mem_tail hb) with hl | hl
    · exact hl
    · exact List.mem_of_mem_head? (Option.mem_toList.mp hl)

/-- The last record of a list without repetitions occurs nowhere else. -/
theorem ne_getLast_of_mem_dropLast {a : ι} (hl : l.Nodup) (hne : l ≠ []) (ha : a ∈ l.dropLast) :
    a ≠ l.getLast hne := by
  intro heq
  have hsplit := List.dropLast_append_getLast hne
  rw [← hsplit, List.nodup_append] at hl
  exact hl.2.2 a ha (l.getLast hne) (by simp) heq

theorem ring_cons_iff
    :
    Ring next prev (f :: t) ↔
      (f :: t).Nodup ∧ (f :: t).IsChain (Joined next prev) ∧
        Joined next prev ((f :: t).getLast (by simp)) f := by
  constructor
  · rintro ⟨hnodup, hchain⟩
    obtain ⟨hl, _, hclose⟩ := List.isChain_append.mp hchain
    have hlast := hclose _ (List.getLast?_eq_some_getLast (by simp)) f (by simp)
    exact ⟨hnodup, hl, hlast⟩
  · rintro ⟨hnodup, hl, hclose⟩
    constructor
    · exact hnodup
    · apply List.isChain_append.mpr
      constructor
      · exact hl
      · constructor
        · exact List.IsChain.singleton f
        · intro x hx y hy
          rw [List.getLast?_eq_some_getLast (by simp)] at hx
          obtain rfl := Option.some.inj hx
          obtain rfl := Option.some.inj hy
          exact hclose

/-- Any record of a ring may be taken as its first. -/
theorem Ring.rotate {l m : List ι} (h : Ring next prev (l ++ m)) : Ring next prev (m ++ l) := by
  cases l with
  | nil =>
      simpa using h
  | cons a l =>
      cases m with
      | nil =>
          simpa using h
      | cons b m =>
          rw [List.cons_append] at h
          obtain ⟨hnodup, hchain, hclose⟩ := ring_cons_iff.mp h
          rw [← List.cons_append] at hnodup hchain
          obtain ⟨hl, hm, hmid⟩ := List.isChain_append.mp hchain
          rw [List.cons_append, ring_cons_iff]
          constructor
          · rw [← List.cons_append]
            exact List.nodup_append_comm.mp hnodup
          · constructor
            · rw [← List.cons_append]
              apply List.isChain_append.mpr
              constructor
              · exact hm
              · constructor
                · exact hl
                · intro x hx y hy
                  have hend : (a :: (l ++ b :: m)).getLast (by simp) = x := by
                    rw [List.getLast?_eq_some_getLast (by simp)] at hx
                    obtain rfl := Option.some.inj hx
                    simp
                  obtain rfl := Option.some.inj hy
                  rw [hend] at hclose
                  exact hclose
            · have hend : (b :: (m ++ a :: l)).getLast (by simp) =
                  (a :: l).getLast (by simp) := by simp
              rw [hend]
              exact hmid _ (List.getLast?_eq_some_getLast (by simp)) b (by simp)

/-- Every record of a ring has a successor in it, which is another one if there is
any. -/
theorem Ring.exists_next (h : Ring next prev l) (hi : i ∈ l) :
    ∃ g, g ∈ l ∧ next i = some g ∧ (g = i → l = [i]) := by
  obtain ⟨a, b, rfl⟩ := List.append_of_mem hi
  have hrot : Ring next prev (i :: (b ++ a)) := by
    simpa using h.rotate
  obtain ⟨hnodup, hchain, hclose⟩ := ring_cons_iff.mp hrot
  cases hba : b ++ a with
  | nil =>
      simp only [hba, List.getLast_singleton] at hclose
      obtain ⟨rfl, rfl⟩ := List.append_eq_nil_iff.mp hba
      exact ⟨i, hi, hclose.1, fun _ => rfl⟩
  | cons g u =>
      rw [hba] at hchain hnodup
      have hg : g ∈ b ++ a := by
        rw [hba]
        exact List.mem_cons_self
      refine ⟨g, ?_, (List.isChain_cons_cons.mp hchain).1.1, ?_⟩
      · rw [List.mem_append] at hg
        rw [List.mem_append, List.mem_cons]
        tauto
      · rintro rfl
        exact absurd List.mem_cons_self (List.nodup_cons.mp hnodup).1

/-- Every record of a ring has a predecessor in it. -/
theorem Ring.exists_prev (h : Ring next prev l) (hi : i ∈ l) : ∃ z, z ∈ l ∧ prev i = some z := by
  obtain ⟨a, b, rfl⟩ := List.append_of_mem hi
  have hrot : Ring next prev (i :: (b ++ a)) := by
    simpa using h.rotate
  obtain ⟨_, _, hclose⟩ := ring_cons_iff.mp hrot
  refine ⟨_, ?_, hclose.2⟩
  have hz := List.getLast_mem (l := i :: (b ++ a)) (by simp)
  rw [List.mem_cons, List.mem_append] at hz
  rw [List.mem_append, List.mem_cons]
  tauto

/-- A new record is linked in before the first one. -/
theorem Ring.push (h : Ring next prev (f :: t)) (hi : i ∉ f :: t)
    (hnext : ∀ a, a ≠ i → a ≠ (f :: t).getLast (by simp) → next' a = next a)
    (hprev : ∀ b, b ≠ i → b ≠ f → prev' b = prev b) (hif : Joined next' prev' i f)
    (hclose : Joined next' prev' ((f :: t).getLast (by simp)) i) :
    Ring next' prev' (i :: f :: t) := by
  obtain ⟨hnodup, hchain, _⟩ := ring_cons_iff.mp h
  rw [ring_cons_iff]
  constructor
  · exact List.nodup_cons.mpr ⟨hi, hnodup⟩
  · constructor
    · rw [List.isChain_cons_cons]
      constructor
      · exact hif
      · apply isChain_joined_congr hchain
        · intro a ha
          apply hnext a
          · rintro rfl
            exact hi (List.mem_of_mem_dropLast ha)
          · exact ne_getLast_of_mem_dropLast hnodup (by simp) ha
        · intro b hb
          apply hprev b
          · rintro rfl
            exact hi (List.mem_of_mem_tail hb)
          · rintro rfl
            exact (List.nodup_cons.mp hnodup).1 hb
    · rw [List.getLast_cons (by simp)]
      exact hclose

/-- The first record is taken out of a ring of at least two. -/
theorem Ring.pop (h : Ring next prev (i :: f :: t))
    (hnext : ∀ a, a ≠ i → a ≠ (f :: t).getLast (by simp) → next' a = next a)
    (hprev : ∀ b, b ≠ i → b ≠ f → prev' b = prev b)
    (hclose : Joined next' prev' ((f :: t).getLast (by simp)) f) : Ring next' prev' (f :: t) := by
  obtain ⟨hnodup, hchain, _⟩ := ring_cons_iff.mp h
  obtain ⟨hi, hnodup'⟩ := List.nodup_cons.mp hnodup
  rw [ring_cons_iff]
  constructor
  · exact hnodup'
  · constructor
    · apply isChain_joined_congr (List.isChain_cons_cons.mp hchain).2
      · intro a ha
        apply hnext a
        · rintro rfl
          exact hi (List.mem_of_mem_dropLast ha)
        · exact ne_getLast_of_mem_dropLast hnodup' (by simp) ha
      · intro b hb
        apply hprev b
        · rintro rfl
          exact hi (List.mem_of_mem_tail hb)
        · rintro rfl
          exact (List.nodup_cons.mp hnodup').1 hb
    · exact hclose

/-- A chain of neighbours is a chain of successors. -/
theorem linksTo_of_isChain {a e : ι} (h : (a :: l ++ [e]).IsChain (Joined next prev)) :
    LinksTo next (some a) (a :: l) (some e) := by
  induction l generalizing a with
  | nil =>
      have hae : Joined next prev a e := (List.isChain_cons_cons.mp h).1
      exact ⟨rfl, hae.1⟩
  | cons b l ih =>
      obtain ⟨hab, htail⟩ := List.isChain_cons_cons.mp h
      constructor
      · rfl
      · rw [hab.1]
        exact ih htail

/-- Following the successors once around visits the records of the ring. -/
theorem Ring.linksTo (h : Ring next prev (f :: t)) :
    LinksTo next (some f) (f :: t) (some f) :=
  linksTo_of_isChain h.joined

section Update

variable [DecidableEq ι]

/-- Linking `i` in before the first record, as link updates. -/
theorem Ring.push_update {i f : ι} {t : List ι} (h : Ring next prev (f :: t)) (hi : i ∉ f :: t) :
    ∃ z, z ≠ i ∧ prev f = some z ∧
      Ring (update (update next i (some f)) z (some i))
        (update (update prev i (some z)) f (some i)) (i :: f :: t) := by
  obtain ⟨_, _, hclose⟩ := ring_cons_iff.mp h
  have hz : (f :: t).getLast (by simp) ≠ i := by
    intro heq
    exact hi (heq ▸ List.getLast_mem (by simp))
  have hf : f ≠ i := by
    rintro rfl
    exact hi (by simp)
  refine ⟨(f :: t).getLast (by simp), hz, hclose.2, ?_⟩
  apply h.push hi
  · intro a ha haz
    rw [update_of_ne haz, update_of_ne ha]
  · intro b hb hbf
    rw [update_of_ne hbf, update_of_ne hb]
  · constructor
    · rw [update_of_ne hz.symm, update_self]
    · rw [update_self]
  · constructor
    · rw [update_self]
    · rw [update_of_ne hf.symm, update_self]

/-- Taking `i` out of a ring that has another record, as link updates. -/
theorem Ring.erase_update {i : ι} {a b : List ι} (h : Ring next prev (a ++ i :: b))
    (hne : b ++ a ≠ []) :
    ∃ g z, next i = some g ∧ prev i = some z ∧ (b ++ a).head? = some g ∧
      Ring (update (update next z (some g)) i none)
        (update (update prev g (some z)) i none) (a ++ b) := by
  have hrot : Ring next prev (i :: (b ++ a)) := by
    simpa using h.rotate
  cases hba : b ++ a with
  | nil =>
      exact absurd hba hne
  | cons g u =>
      rw [hba] at hrot
      obtain ⟨hnodup, hchain, hclose⟩ := ring_cons_iff.mp hrot
      obtain ⟨⟨hig, hgi⟩, _⟩ := List.isChain_cons_cons.mp hchain
      rw [List.getLast_cons (by simp)] at hclose
      have hi : i ∉ g :: u := (List.nodup_cons.mp hnodup).1
      have hg : g ≠ i := by
        rintro rfl
        exact hi (by simp)
      have hz : (g :: u).getLast (by simp) ≠ i := by
        intro heq
        exact hi (heq ▸ List.getLast_mem (by simp))
      refine ⟨g, (g :: u).getLast (by simp), hig, hclose.2, rfl, ?_⟩
      have hout : Ring
          (update (update next ((g :: u).getLast (by simp)) (some g)) i none)
          (update (update prev g (some ((g :: u).getLast (by simp)))) i none)
          (g :: u) := by
        apply hrot.pop
        · intro c hc hcz
          rw [update_of_ne hc, update_of_ne hcz]
        · intro c hc hcg
          rw [update_of_ne hc, update_of_ne hcg]
        · constructor
          · rw [update_of_ne hz, update_self]
          · rw [update_of_ne hg, update_self]
      apply Ring.rotate
      rw [hba]
      exact hout

end Update

end Ring

end Lib
end Elks
