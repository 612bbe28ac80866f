import Elks.Buffer.Read
import Mathlib.Data.List.TakeWhile

/-!
# How soon a buffer is taken

`get_free_buffer` takes the first free buffer of the LRU list, so a buffer stays
what it is as long as there are free ones ahead of it.  `Buffers.ahead` is their
number.

* `ahead_besides`, `ahead_touch`: what is done to a buffer that is not ahead does
  not lower it.
* `ahead_load`: a new block costs one of them.
* `ahead_loaded`: behind a new block there is none, and nearly all of the free ones
  are ahead of it.
-/

namespace Elks
namespace Buffer

/-- How many free buffers are ahead of `b` in the LRU list. -/
def Buffers.ahead (s : Buffers) (b : Bh) : Nat :=
  (s.lru.takeWhile (· ≠ b)).countP s.free

section Lists

variable {α : Type} [DecidableEq α] {l : List α} {a b : α}

theorem takeWhile_ne_erase (hab : a ≠ b) (hb : b ∈ l) :
    (l.erase a ++ [a]).takeWhile (· ≠ b) = (l.takeWhile (· ≠ b)).erase a := by
  induction l with
  | nil => cases hb
  | cons x l ih =>
      rcases eq_or_ne x a with rfl | hxa
      · rw [List.erase_cons_head, List.takeWhile_cons_of_pos (by simpa using hab),
          List.erase_cons_head]
        have hb' : b ∈ l := (List.mem_cons.mp hb).resolve_left fun h => hab h.symm
        rw [List.takeWhile_append, if_neg]
        intro hlen
        have hall : l.takeWhile (· ≠ b) = l :=
          (List.takeWhile_prefix _).eq_of_length hlen
        rw [← hall] at hb'
        simpa using List.mem_takeWhile_imp hb'
      · rw [List.erase_cons_tail (by simpa using hxa), List.cons_append]
        rcases eq_or_ne x b with rfl | hxb
        · simp
        · have hb' : b ∈ l := (List.mem_cons.mp hb).resolve_left fun h => hxb h.symm
          rw [List.takeWhile_cons_of_pos (by simpa using hxb),
            List.takeWhile_cons_of_pos (by simpa using hxb), ih hb',
            List.erase_cons_tail (by simpa using hxa)]

theorem takeWhile_ne_self (hl : l.Nodup) : (l.erase a ++ [a]).takeWhile (· ≠ a) = l.erase a := by
  have hnot : ∀ x ∈ l.erase a, x ≠ a :=
    fun x hx => (hl.mem_erase_iff.mp hx).1
  rw [List.takeWhile_append_of_pos (by simpa using hnot)]
  simp

theorem countP_le_erase (p : α → Bool) (l : List α) (a : α) :
    l.countP p ≤ (l.erase a).countP p + 1 := by
  by_cases ha : a ∈ l
  · rw [(List.perm_cons_erase ha).countP_eq, List.countP_cons]
    split <;> omega
  · rw [List.erase_of_not_mem ha]
    omega

end Lists

section Ahead

variable {s s' : Buffers} {bh b : Bh} {held mapped : Finset Bh}

theorem putLastLru_nodup (hl : s.lru.Nodup) : (s.putLastLru bh).lru = s.lru.erase bh ++ [bh] := by
  rw [putLastLru_lru]
  split
  · rename_i hlast
    obtain ⟨m, hm⟩ := List.getLast?_eq_some_iff.mp hlast
    rw [hm] at hl ⊢
    have hnot : bh ∉ m := by
      intro h
      exact (List.nodup_append.mp hl).2.2 bh h bh List.mem_cons_self rfl
    rw [List.erase_append_right _ hnot, List.erase_cons_head, List.append_nil]
  · rfl

theorem nodup_putLastLru (hl : s.lru.Nodup) : (s.putLastLru bh).lru.Nodup := by
  rw [putLastLru_nodup hl]
  refine (hl.erase bh).append (List.nodup_singleton bh) ?_
  intro x hx hx'
  rw [List.mem_singleton.mp hx'] at hx
  exact (hl.mem_erase_iff.mp hx).1 rfl

theorem Besides.free (h : Besides bh s s') (hb : b ≠ bh) (hfree : s.free b = true) :
    s'.free b = true := by
  have hflags := h.flags hb
  simp only [Buffers.free, decide_eq_true_eq] at hfree ⊢
  rw [hflags.count, hflags.dirty, hflags.lock]
  exact ⟨hfree.1, hfree.2.1, hfree.2.2.1, h.away b hb hfree.2.2.2⟩

theorem ahead_besides (h : Besides bh s s') (hlru : s'.lru = s.lru)
    (hown : bh = b ∨ s.free bh = false) : s.ahead b ≤ s'.ahead b := by
  unfold Buffers.ahead
  rw [hlru]
  refine List.countP_mono_left ?_
  intro x hx hfree
  have hxb : x ≠ b := by simpa using List.mem_takeWhile_imp hx
  refine h.free ?_ hfree
  rintro rfl
  rcases hown with rfl | hbusy
  · exact hxb rfl
  · rw [hbusy] at hfree
    cases hfree

theorem ahead_touch (h : Besides b s s') (hlru : s'.lru = (s.putLastLru b).lru) (hl : s.lru.Nodup) :
    s.ahead b ≤ s'.ahead b := by
  unfold Buffers.ahead
  rw [hlru, putLastLru_nodup hl, takeWhile_ne_self hl]
  have hsub : (s.lru.takeWhile (· ≠ b)).Sublist (s.lru.erase b) := by
    have hmem' : b ∉ s.lru.takeWhile (· ≠ b) := by
      intro hb
      simpa using List.mem_takeWhile_imp hb
    rw [← List.erase_of_not_mem hmem']
    exact (List.takeWhile_sublist _).erase b
  refine le_trans (List.Sublist.countP_le hsub) (List.countP_mono_left ?_)
  intro x hx hfree
  exact h.free (hl.mem_erase_iff.mp hx).1 hfree

theorem taken_ne (htake : s.lru.find? s.free = some bh) (hb : 0 < s.ahead b) : bh ≠ b := by
  rintro rfl
  obtain ⟨x, hx, hfree⟩ := List.countP_pos_iff.mp hb
  obtain ⟨-, as, bs, hl, hbusy⟩ := List.find?_eq_some_iff_append.mp htake
  have hnot : x ∈ as := by
    rw [hl, List.takeWhile_append] at hx
    split at hx
    · simpa using hx
    · exact (List.takeWhile_subset _) hx
  have := hbusy x hnot
  rw [hfree] at this
  cases this

theorem ahead_load (h : Besides bh s s') (hlru : s'.lru = (s.putLastLru bh).lru)
    (hl : s.lru.Nodup) (hall : ∀ x, x ∈ s.lru) (hne : bh ≠ b) : s.ahead b ≤ s'.ahead b + 1 := by
  unfold Buffers.ahead
  rw [hlru, putLastLru_nodup hl, takeWhile_ne_erase hne (hall b)]
  have hmono : ((s.lru.takeWhile (· ≠ b)).erase bh).countP s.free ≤
      ((s.lru.takeWhile (· ≠ b)).erase bh).countP s'.free := by
    refine List.countP_mono_left ?_
    intro x hx hfree
    have hnodup : (s.lru.takeWhile (· ≠ b)).Nodup :=
      hl.sublist (List.takeWhile_sublist _)
    exact h.free (hnodup.mem_erase_iff.mp hx).1 hfree
  have herase := countP_le_erase s.free (s.lru.takeWhile (· ≠ b)) bh
  omega

theorem Steady.busy (hs : Steady held mapped s) (hb : b ∈ held) : s.free b = false := by
  simp [Buffers.free, hs.count b, hb]

theorem Steady.countP_free (hs : Steady held mapped s) (hl : s.lru.Nodup) :
    nrBuffers ≤ s.lru.countP s.free + held.card + nrMapbufs := by
  have hfree : ∀ b, s.free b = true ↔ b ∉ held ∧ (s.buffers b).bData = none := by
    intro b
    simp only [Buffers.free, hs.clean b, hs.unlocked b, hs.count b,
      decide_eq_true_eq]
    split <;> simp_all
  have hcover : (Finset.univ : Finset Bh) ⊆ (s.lru.filter s.free).toFinset ∪
      (held ∪ Finset.univ.filter fun b => (s.buffers b).bData ≠ none) := by
    intro b _
    by_cases hb : s.free b = true
    · simp [hs.quiet.lru b, hb]
    · by_cases hheld : b ∈ held
      · simp [hheld]
      · have hdata : (s.buffers b).bData ≠ none :=
          fun h => hb ((hfree b).mpr ⟨hheld, h⟩)
        simp [hdata]
  have hle := Finset.card_le_card hcover
  have h₁ := Finset.card_union_le (s.lru.filter s.free).toFinset
    (held ∪ Finset.univ.filter fun b => (s.buffers b).bData ≠ none)
  have h₂ := Finset.card_union_le held
    (Finset.univ.filter fun b => (s.buffers b).bData ≠ none)
  have h₃ := card_mapped_le hs.quiet.twoLevel
  rw [List.toFinset_card_of_nodup (hl.filter _), ← List.countP_eq_length_filter]
    at h₁
  rw [Finset.card_univ, Fintype.card_fin] at hle
  omega

theorem ahead_loaded (h : Besides bh s s') (hlru : s'.lru = (s.putLastLru bh).lru)
    (hs : Steady held mapped s) (hl : s.lru.Nodup) :
    nrBuffers ≤ s'.ahead bh + held.card + nrMapbufs + 1 := by
  have hmono : (s.lru.erase bh).countP s.free ≤ (s.lru.erase bh).countP s'.free := by
    refine List.countP_mono_left ?_
    intro x hx hfree
    exact h.free (hl.mem_erase_iff.mp hx).1 hfree
  have herase := countP_le_erase s.free s.lru bh
  have hfree := hs.countP_free hl
  unfold Buffers.ahead
  rw [hlru, putLastLru_nodup hl, takeWhile_ne_self hl]
  omega

end Ahead

end Buffer
end Elks
