import Mathlib.Data.List.Nodup
import Mathlib.Logic.Function.Basic
import Mathlib.Tactic

/-!
# Doubly linked lists in a table

Every record of a table names at most one successor and one predecessor.
`Dlist next prev h b l` says that the links from `h` run through exactly the records
of `l` and end there, and that every record names the one before it; the first
names `b`.

`Dlist.push` links a record in at the front, `Dlist.snoc` one at the end, and
`Dlist.erase` takes one out from anywhere.
-/

namespace Elks
namespace Lib

universe u

section Dlist

variable {ι : Type u}

/-- The links from `h` run through the records of `l`, and back to `b`. -/
def Dlist (next prev : ι → Option ι) : Option ι → Option ι → List ι → Prop
  | h, _, [] => h = none
  | h, b, i :: l => h = some i ∧ prev i = b ∧ Dlist next prev (next i) (some i) l

variable {next next' prev prev' : ι → Option ι} {h b : Option ι} {l : List ι} {i z : ι}

/-- Only the links of the records of the list matter. -/
theorem Dlist.congr (hl : Dlist next prev h b l) (hnext : ∀ i, i ∈ l → next' i = next i)
    (hprev : ∀ i, i ∈ l → prev' i = prev i) : Dlist next' prev' h b l := by
  induction l generalizing h b with
  | nil => exact hl
  | cons i l ih =>
      obtain ⟨rfl, hi, hrest⟩ := hl
      refine ⟨rfl, ?_, ?_⟩
      · rw [hprev i List.mem_cons_self]
        exact hi
      · rw [hnext i List.mem_cons_self]
        exact ih hrest (fun j hj => hnext j (List.mem_cons_of_mem i hj))
          fun j hj => hprev j (List.mem_cons_of_mem i hj)

theorem Dlist.head_eq (hl : Dlist next prev h b l) : h = l.head? := by
  cases l with
  | nil => exact hl
  | cons i l => exact hl.1

/-- The list is determined by where it starts. -/
theorem Dlist.unique {m : List ι} {b' : Option ι}
    (hl : Dlist next prev h b l) (hm : Dlist next prev h b' m) : l = m := by
  induction l generalizing h b b' m with
  | nil =>
      have hnone : h = none := hl
      have hhead := hm.head_eq
      rw [hnone] at hhead
      exact (List.head?_eq_none_iff.mp hhead.symm).symm
  | cons i l ih =>
      cases m with
      | nil =>
          have hnone : h = none := hm
          have hsome := hl.1
          rw [hnone] at hsome
          cases hsome
      | cons j m =>
          obtain rfl := Option.some.inj (hl.1.symm.trans hm.1)
          rw [ih hl.2.2 hm.2.2]

/-- The successor of a record of the list is in its rest. -/
theorem Dlist.next_mem (hl : Dlist next prev h b l) (hi : i ∈ l) (hz : next i = some z) :
    z ∈ l := by
  induction l generalizing h b with
  | nil => cases hi
  | cons k l ih =>
      obtain ⟨_, _, hrest⟩ := hl
      rcases List.mem_cons.mp hi with rfl | hmem
      · have hhead := hrest.head_eq
        rw [hz] at hhead
        exact List.mem_cons_of_mem _ (List.mem_of_mem_head? hhead.symm)
      · exact List.mem_cons_of_mem k (ih hrest hmem)

/-- A record is the successor of the one it names, if it is not the first. -/
theorem Dlist.prev_mem (hl : Dlist next prev h b l) (hi : i ∈ l) :
    h = some i ∧ prev i = b ∨ ∃ z, prev i = some z ∧ z ∈ l ∧ next z = some i := by
  induction l generalizing h b with
  | nil => cases hi
  | cons k l ih =>
      obtain ⟨rfl, hk, hrest⟩ := hl
      rcases List.mem_cons.mp hi with rfl | hmem
      · exact Or.inl ⟨rfl, hk⟩
      · rcases ih hrest hmem with ⟨hfirst, hback⟩ | ⟨z, hz, hmem', hnext⟩
        · exact Or.inr ⟨k, hback, List.mem_cons_self, hfirst⟩
        · exact Or.inr ⟨z, hz, List.mem_cons_of_mem k hmem', hnext⟩

/-- The successor of a record names it. -/
theorem Dlist.next_prev (hl : Dlist next prev h b l) (hi : i ∈ l) (hz : next i = some z) :
    prev z = some i := by
  induction l generalizing h b with
  | nil => cases hi
  | cons k l ih =>
      obtain ⟨_, _, hrest⟩ := hl
      rcases List.mem_cons.mp hi with rfl | hmem
      · have hhead := hrest.head_eq
        rw [hz] at hhead
        cases l with
        | nil => cases hhead
        | cons j l =>
            obtain rfl := Option.some.inj hhead
            exact hrest.2.1
      · exact ih hrest hmem

/-- No record of the list is its own successor. -/
theorem Dlist.next_ne (hl : Dlist next prev h b l) (hnodup : l.Nodup) (hi : i ∈ l) :
    next i ≠ some i := by
  induction l generalizing h b with
  | nil => cases hi
  | cons k l ih =>
      obtain ⟨_, _, hrest⟩ := hl
      obtain ⟨hfresh, hnodup'⟩ := List.nodup_cons.mp hnodup
      rcases List.mem_cons.mp hi with rfl | hmem
      · intro hself
        have hhead := hrest.head_eq
        rw [hself] at hhead
        exact hfresh (List.mem_of_mem_head? hhead.symm)
      · exact ih hrest hnodup' hmem

/-- A record is linked in at the front. -/
theorem Dlist.push (hl : Dlist next prev h none l) (hnext : next' i = h) (hprev : prev' i = none)
    (hhead : ∀ k, h = some k → prev' k = some i) (hnext' : ∀ k, k ∈ l → next' k = next k)
    (hprev' : ∀ k, k ∈ l.tail → prev' k = prev k) : Dlist next' prev' (some i) none (i :: l) := by
  refine ⟨rfl, hprev, ?_⟩
  rw [hnext]
  cases l with
  | nil => exact hl
  | cons k l =>
      obtain ⟨rfl, _, hrest⟩ := hl
      refine ⟨rfl, hhead k rfl, ?_⟩
      rw [hnext' k List.mem_cons_self]
      exact hrest.congr (fun j hj => hnext' j (List.mem_cons_of_mem k hj)) hprev'

/-- A record is linked in behind the last one. -/
theorem Dlist.snoc {k : ι} (hl : Dlist next prev h b (l ++ [k]))
    (hnext : ∀ j, j ∈ l → next' j = next j) (hprev : ∀ j, j ∈ l ++ [k] → prev' j = prev j)
    (hk : next' k = some i) (hback : prev' i = some k) (hend : next' i = none) :
    Dlist next' prev' h b (l ++ [k] ++ [i]) := by
  induction l generalizing h b with
  | nil =>
      obtain ⟨rfl, hb, _⟩ := hl
      refine ⟨rfl, ?_, hk, hback, hend⟩
      rw [hprev k List.mem_cons_self]
      exact hb
  | cons j l ih =>
      obtain ⟨rfl, hb, hrest⟩ := hl
      refine ⟨rfl, ?_, ?_⟩
      · rw [hprev j List.mem_cons_self]
        exact hb
      · rw [hnext j List.mem_cons_self]
        exact ih hrest (fun m hm => hnext m (List.mem_cons_of_mem j hm))
          fun m hm => hprev m (List.mem_cons_of_mem j hm)

/-- The successor of a record stands behind it. -/
theorem Dlist.next_eq {m : List ι} (hl : Dlist next prev h b (l ++ i :: m)) : next i = m.head? := by
  induction l generalizing h b with
  | nil => exact hl.2.2.head_eq
  | cons j l ih => exact ih hl.2.2

/-- A record names the one that stands before it. -/
theorem Dlist.prev_eq {m : List ι} {j : ι} (hl : Dlist next prev h b (l ++ j :: i :: m)) :
    prev i = some j := by
  induction l generalizing h b with
  | nil => exact hl.2.2.2.1
  | cons k l ih => exact ih hl.2.2

/-- A record is linked in between two others. -/
theorem Dlist.insert {m : List ι} {j k : ι} (hl : Dlist next prev h b (l ++ j :: k :: m))
    (hnext : ∀ x, x ∈ l ++ k :: m → next' x = next x)
    (hprev : ∀ x, x ∈ l ++ j :: m → prev' x = prev x)
    (hj : next' j = some i) (hi : next' i = some k)
    (hback : prev' i = some j) (hk : prev' k = some i) :
    Dlist next' prev' h b (l ++ j :: i :: k :: m) := by
  induction l generalizing h b with
  | nil =>
      obtain ⟨rfl, hb, _, _, hrest⟩ := hl
      refine ⟨rfl, ?_, hj, hback, hi, hk, ?_⟩
      · rw [hprev j List.mem_cons_self]
        exact hb
      · rw [hnext k List.mem_cons_self]
        exact hrest.congr (fun x hx => hnext x (List.mem_cons_of_mem k hx))
          fun x hx => hprev x (List.mem_cons_of_mem j hx)
  | cons y l ih =>
      obtain ⟨rfl, hb, hrest⟩ := hl
      refine ⟨rfl, ?_, ?_⟩
      · rw [hprev y List.mem_cons_self]
        exact hb
      · rw [hnext y List.mem_cons_self]
        exact ih hrest (fun x hx => hnext x (List.mem_cons_of_mem y hx))
          fun x hx => hprev x (List.mem_cons_of_mem y hx)

/-- The links of a table that holds the list in order. -/
theorem Dlist.of_getElem? (hhead : h = l[0]?) (hfirst : ∀ i, l[0]? = some i → prev i = b)
    (hnext : ∀ k i, l[k]? = some i → next i = l[k + 1]?)
    (hprev : ∀ k i j, l[k]? = some i → l[k + 1]? = some j → prev j = some i) :
    Dlist next prev h b l := by
  induction l generalizing h b with
  | nil => exact hhead
  | cons i l ih =>
      refine ⟨hhead, hfirst i rfl, ih (hnext 0 i rfl) ?_ ?_ ?_⟩
      · exact fun j hj => hprev 0 i j rfl hj
      · exact fun k j hj => hnext (k + 1) j hj
      · exact fun k j m hj hm => hprev (k + 1) j m hj hm

/-- The last record has no successor. -/
theorem Dlist.next_last {k : ι} (hl : Dlist next prev h b l) (hk : l.getLast? = some k) :
    next k = none := by
  induction l generalizing h b with
  | nil => cases hk
  | cons j l ih =>
      cases l with
      | nil =>
          obtain rfl : j = k := Option.some.inj hk
          exact hl.2.2
      | cons m l =>
          rw [List.getLast?_cons_cons] at hk
          exact ih hl.2.2 hk

/-- In a list of all records, successors and predecessors are inverse to each
other. -/
theorem Dlist.inverse {a c : ι} (hl : Dlist next prev h none l) (hall : ∀ j, j ∈ l) :
    next a = some c ↔ prev c = some a := by
  constructor
  · exact hl.next_prev (hall a)
  · intro hc
    rcases hl.prev_mem (hall c) with ⟨_, hnone⟩ | ⟨z, hz, _, hnext⟩
    · rw [hc] at hnone
      cases hnone
    · obtain rfl := Option.some.inj (hz.symm.trans hc)
      exact hnext

variable [DecidableEq ι]

/-- A record is taken out: its neighbours are linked to each other. -/
theorem Dlist.erase (hl : Dlist next prev h b l) (hnodup : l.Nodup) (hb : ∀ z, b = some z → z ∉ l)
    (hi : i ∈ l) (hnext : ∀ k, next' k = if prev i = some k then next i else next k)
    (hprev : ∀ k, prev' k = if next i = some k then prev i else prev k) :
    Dlist next' prev' (if h = some i then next i else h) b (l.erase i) := by
  induction l generalizing h b with
  | nil => cases hi
  | cons k l ih =>
      obtain ⟨rfl, hk, hrest⟩ := hl
      obtain ⟨hfresh, hnodup'⟩ := List.nodup_cons.mp hnodup
      by_cases hik : i = k
      · subst hik
        rw [if_pos rfl, List.erase_cons_head]
        -- the record before the list is no record of it
        have hsame : ∀ j, j ∈ l → next' j = next j := by
          intro j hj
          rw [hnext, if_neg]
          intro hback
          exact hb j (hk.symm.trans hback) (List.mem_cons_of_mem i hj)
        cases l with
        | nil => exact hrest
        | cons j l =>
            obtain ⟨hnextj, hj, hrest'⟩ := hrest
            obtain ⟨hfresh', _⟩ := List.nodup_cons.mp hnodup'
            refine ⟨hnextj, ?_, ?_⟩
            · rw [hprev, if_pos hnextj]
              exact hk
            · rw [hsame j List.mem_cons_self]
              refine hrest'.congr (fun m hm => hsame m (List.mem_cons_of_mem j hm)) ?_
              intro m hm
              rw [hprev, if_neg]
              rw [hnextj]
              intro heq
              obtain rfl := Option.some.inj heq
              exact hfresh' hm
      · have hmem : i ∈ l := (List.mem_cons.mp hi).resolve_left hik
        have hne : (some k : Option ι) ≠ some i := fun heq => hik (Option.some.inj heq).symm
        rw [if_neg hne, List.erase_cons_tail (by simpa using Ne.symm hik)]
        refine ⟨rfl, ?_, ?_⟩
        · rw [hprev, if_neg]
          · exact hk
          · intro hout
            exact hfresh (hrest.next_mem hmem hout)
        · have hstart : next' k = if next k = some i then next i else next k := by
            rw [hnext]
            rcases hrest.prev_mem hmem with ⟨hfirst, hback⟩ | ⟨z, hz, hzl, _⟩
            · rw [if_pos hback, if_pos hfirst]
            · have hzk : prev i ≠ some k := by
                rw [hz]
                rintro heq
                obtain rfl := Option.some.inj heq
                exact hfresh hzl
              rw [if_neg hzk]
              split
              · rename_i hfirst
                have hhead := hrest.head_eq
                rw [hfirst] at hhead
                cases l with
                | nil => cases hhead
                | cons j l =>
                    obtain rfl := Option.some.inj hhead
                    exact absurd hrest.2.1 hzk
              · rfl
          rw [hstart]
          refine ih hrest hnodup' ?_ hmem
          rintro z heq
          obtain rfl := Option.some.inj heq
          exact hfresh

end Dlist

end Lib
end Elks
