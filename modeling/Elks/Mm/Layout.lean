import Elks.Mm.Malloc

/-!
# The layout of the arena and what each allocator routine does to it

`Layout start stop a l` says that the list from `holes[0]` is `l`, that its
holes tile `[start, stop)`, that no two neighbours are both free, and that a
descriptor is spare exactly when it is off the list.

Each routine gets one specification over a layout.  The three that rewrite the
table (`takeHole`, `mmRealloc`, `sweepHoles`) also come with a frame: every
used descriptor other than the one they work on keeps its contents.
-/

namespace Elks
namespace Mm

open Lib

/-- The pages a descriptor stands for. -/
def MallocHole.seg (h : MallocHole) : Nat × Nat :=
  (h.pageBase, h.extent)

/-- The link field of the table. -/
def Arena.link (a : Arena) (i : Slot) : Option Slot :=
  (a.holes i).next

/-- Neighbours that are not both free. -/
def Apart (a : Arena) (i j : Slot) : Prop :=
  ¬ ((a.holes i).flags = .free ∧ (a.holes j).flags = .free)

/-- The list from `holes[0]` is `l` and tiles `[start, stop)`; exactly the
descriptors off the list are spare. -/
structure Tiled (start stop : Nat) (a : Arena) (l : List Slot) : Prop where
  links : Links a.link (some firstHole) l
  tiles : Tiles stop start (l.map fun i => (a.holes i).seg)
  onList : ∀ i, i ∈ l → (a.holes i).flags ≠ .spare
  offList : ∀ i, i ∉ l → (a.holes i).flags = .spare

/-- A tiling without neighbouring free holes. -/
structure Layout (start stop : Nat) (a : Arena) (l : List Slot) : Prop
    extends Tiled start stop a l where
  apart : l.IsChain (Apart a)

/-- Every used descriptor other than `m` stays used and unchanged, and no
descriptor other than `m` becomes used. -/
def OthersKept (a a' : Arena) (m : Slot) : Prop :=
  ∀ i, i ≠ m →
    ((a'.holes i).flags = .used ↔ (a.holes i).flags = .used) ∧
    ((a.holes i).flags = .used → a'.holes i = a.holes i)

section Walks

variable {a : Arena} {o : Option Slot} {l : List Slot}

theorem findHoleFrom_eq (base fuel : Nat) (hl : Links a.link o l) (hfuel : l.length ≤ fuel) :
    findHoleFrom a base fuel o =
      .ok (l.find? fun i => (a.holes i).pageBase = base) := by
  induction l generalizing o fuel with
  | nil =>
      have ho : o = none := hl
      subst ho
      cases fuel <;> rfl
  | cons i l ih =>
      obtain ⟨ho, htail⟩ := hl
      subst ho
      cases fuel with
      | zero =>
          simp at hfuel
      | succ fuel =>
          have hlen : l.length ≤ fuel := by
            simpa using hfuel
          by_cases hb : (a.holes i).pageBase = base
          · simp [findHoleFrom, hb]
          · simp only [findHoleFrom, ne_eq, hb, not_false_eq_true, if_true,
              List.find?_cons, decide_false]
            exact ih fuel htail hlen

theorem bestFitFrom_eq (size fuel : Nat) (best : Option Slot)
    (hl : Links a.link o l) (hfuel : l.length ≤ fuel) :
    bestFitFrom a size fuel o best =
      .ok (l.foldl (betterHole a size) best) := by
  induction l generalizing o fuel best with
  | nil =>
      have ho : o = none := hl
      subst ho
      cases fuel <;> rfl
  | cons i l ih =>
      obtain ⟨ho, htail⟩ := hl
      subst ho
      cases fuel with
      | zero =>
          simp at hfuel
      | succ fuel =>
          exact ih fuel _ htail (by simpa using hfuel)

end Walks

section Spec

variable {start stop : Nat} {a : Arena} {l : List Slot}

theorem Tiled.length_le (h : Tiled start stop a l) : l.length ≤ maxSegments := by
  simpa using h.links.length_le

theorem Tiled.findHole_eq (h : Tiled start stop a l) (base : Nat) :
    findHole a base =
      .ok (l.find? fun i => (a.holes i).pageBase = base) :=
  findHoleFrom_eq base _ h.links h.length_le

theorem Tiled.findHole_used (h : Tiled start stop a l) {m : Slot} (hm : (a.holes m).flags = .used) :
    findHole a (a.holes m).pageBase = .ok (some m) := by
  have hmem : m ∈ l := by
    by_contra hoff
    rw [h.offList m hoff] at hm
    cases hm
  rw [h.findHole_eq]
  obtain ⟨j, hj⟩ : ∃ j, l.find?
      (fun i => (a.holes i).pageBase = (a.holes m).pageBase) = some j := by
    rw [← Option.isSome_iff_exists, List.find?_isSome]
    exact ⟨m, hmem, by simp⟩
  have hjl : j ∈ l := List.mem_of_find?_eq_some hj
  have hjb : (a.holes j).pageBase = (a.holes m).pageBase := by
    simpa using List.find?_some hj
  have hjm : j = m :=
    h.tiles.base_injOn hjl hmem hjb
  rw [hj, hjm]

/-- What `best_fit_hole` may return: a free hole of at least `size` pages. -/
def Fits (a : Arena) (size : Nat) (i : Slot) : Prop :=
  size ≤ (a.holes i).extent ∧ (a.holes i).flags = .free

/-- `b` is a smallest fitting hole among those of `l` and the earlier `best`. -/
def BestAmong (a : Arena) (size : Nat) (best : Option Slot) (l : List Slot) :
    Option Slot → Prop
  | none => best = none ∧ ∀ i, i ∈ l → ¬ Fits a size i
  | some m =>
      (m ∈ l ∨ best = some m) ∧ Fits a size m ∧
      (∀ i, i ∈ l → Fits a size i →
        (a.holes m).extent ≤ (a.holes i).extent) ∧
      ∀ b, best = some b → (a.holes m).extent ≤ (a.holes b).extent

theorem betterHole_best (size : Nat) (best : Option Slot) (i : Slot)
    (hbest : ∀ b, best = some b → Fits a size b) :
    BestAmong a size best [i] (betterHole a size best i) := by
  by_cases hfit : Fits a size i
  · cases best with
    | none =>
        have hstep : betterHole a size none i = some i := by
          simp [betterHole, hfit.1, hfit.2]
        rw [hstep]
        exact ⟨by simp, hfit, by simp, by simp⟩
    | some b =>
        by_cases hlt : (a.holes i).extent < (a.holes b).extent
        · have hstep : betterHole a size (some b) i = some i := by
            simp [betterHole, hfit.1, hfit.2, hlt]
          rw [hstep]
          refine ⟨by simp, hfit, by simp, ?_⟩
          intro b' hb'
          cases hb'
          omega
        · have hstep : betterHole a size (some b) i = some b := by
            simp [betterHole, hfit.1, hfit.2, hlt]
          rw [hstep]
          refine ⟨by simp, hbest b rfl, ?_, by simp⟩
          intro j hj _
          rw [List.mem_singleton.mp hj]
          omega
  · have hstep : betterHole a size best i = best := if_neg hfit
    rw [hstep]
    cases best with
    | none =>
        exact ⟨rfl, by simpa using hfit⟩
    | some b =>
        refine ⟨by simp, hbest b rfl, ?_, by simp⟩
        intro j hj hfj
        rw [List.mem_singleton.mp hj] at hfj
        exact absurd hfj hfit

theorem foldl_betterHole (size : Nat) (best : Option Slot)
    (hbest : ∀ b, best = some b → Fits a size b) :
    BestAmong a size best l (l.foldl (betterHole a size) best) := by
  induction l generalizing best with
  | nil =>
      cases best with
      | none => exact ⟨rfl, by simp⟩
      | some b => exact ⟨Or.inr rfl, hbest b rfl, by simp, by simp⟩
  | cons i l ih =>
      have hstep := betterHole_best (a := a) size best i hbest
      rw [List.foldl_cons]
      cases hb : betterHole a size best i with
      | none =>
          rw [hb] at hstep
          have hrest := ih none (by simp)
          cases hr : l.foldl (betterHole a size) none with
          | none =>
              rw [hr] at hrest
              refine ⟨hstep.1, ?_⟩
              simpa using ⟨hstep.2 i (by simp), hrest.2⟩
          | some m =>
              rw [hr] at hrest
              obtain ⟨hmem, hfm, hmin, _⟩ := hrest
              refine ⟨Or.inl ?_, hfm, ?_, ?_⟩
              · simpa using Or.inr hmem
              · intro j hj hfj
                rcases List.mem_cons.mp hj with rfl | hj
                · exact absurd hfj (hstep.2 _ (by simp))
                · exact hmin j hj hfj
              · intro b hb'
                rw [hstep.1] at hb'
                cases hb'
      | some b =>
          rw [hb] at hstep
          obtain ⟨hbmem, hfb, hbi, hbb⟩ := hstep
          have hrest := ih (some b) (by intro c hc; cases hc; exact hfb)
          cases hr : l.foldl (betterHole a size) (some b) with
          | none =>
              rw [hr] at hrest
              cases hrest.1
          | some m =>
              rw [hr] at hrest
              obtain ⟨hmem, hfm, hmin, hmb⟩ := hrest
              have hle := hmb b rfl
              refine ⟨?_, hfm, ?_, ?_⟩
              · rcases hmem with hmem | hmem
                · exact Or.inl (List.mem_cons_of_mem _ hmem)
                · cases hmem
                  exact hbmem.imp_left
                    (fun h => by rw [List.mem_singleton.mp h]; simp)
              · intro j hj hfj
                rcases List.mem_cons.mp hj with rfl | hj
                · exact le_trans hle (hbi _ (by simp) hfj)
                · exact hmin j hj hfj
              · intro c hc
                exact le_trans hle (hbb c hc)

theorem Tiled.mem_of_free (h : Tiled start stop a l) {i : Slot} (hi : (a.holes i).flags = .free) :
    i ∈ l := by
  by_contra hoff
  rw [h.offList i hoff] at hi
  cases hi

theorem Tiled.bestFitHole_spec (h : Tiled start stop a l) (size : Nat) :
    (bestFitHole a size = .ok none ∧ ∀ i, ¬ Fits a size i) ∨
    ∃ m, bestFitHole a size = .ok (some m) ∧ m ∈ l ∧ Fits a size m ∧
      ∀ i, Fits a size i → (a.holes m).extent ≤ (a.holes i).extent := by
  have heq : bestFitHole a size =
      .ok (l.foldl (betterHole a size) none) :=
    bestFitFrom_eq size _ none h.links h.length_le
  have hbest := foldl_betterHole (a := a) (l := l) size none (by simp)
  cases hr : l.foldl (betterHole a size) none with
  | none =>
      left
      rw [hr] at hbest
      refine ⟨by rw [heq, hr], ?_⟩
      intro i hi
      exact hbest.2 i (h.mem_of_free hi.2) hi
  | some m =>
      right
      rw [hr] at hbest
      obtain ⟨hmem, hfit, hmin, _⟩ := hbest
      refine ⟨m, by rw [heq, hr], ?_, hfit, ?_⟩
      · simpa using hmem
      · intro i hi
        exact hmin i (h.mem_of_free hi.2) hi

/-- A spare descriptor is found exactly when the list leaves one over. -/
theorem Tiled.allocHole_spec (h : Tiled start stop a l) :
    (∃ n, n ∉ l ∧ allocHole a = .ok n ∧ l.length < maxSegments) ∨
    (allocHole a = .error (.panic "mm: too many holes") ∧
      l.length = maxSegments) := by
  unfold allocHole
  cases hf : (List.finRange maxSegments).find?
      (fun m => decide ((a.holes m).flags = .spare)) with
  | some n =>
      left
      have hn : (a.holes n).flags = .spare := by
        simpa using List.find?_some hf
      have hoff : n ∉ l := fun hmem => h.onList n hmem hn
      refine ⟨n, hoff, rfl, ?_⟩
      have hlen : (n :: l).length ≤ Fintype.card Slot :=
        (List.nodup_cons.mpr ⟨hoff, h.links.nodup⟩).length_le_card
      rw [Fintype.card_fin, List.length_cons] at hlen
      omega
  | none =>
      right
      refine ⟨rfl, ?_⟩
      have hall : ∀ i : Slot, i ∈ l := by
        intro i
        by_contra hoff
        have hi := h.offList i hoff
        exact List.find?_eq_none.mp hf i (List.mem_finRange i)
          (decide_eq_true hi)
      have hle : Fintype.card Slot ≤ l.length := by
        have hsub : (Finset.univ : Finset Slot) ⊆ l.toFinset := by
          intro i _
          simpa using hall i
        calc Fintype.card Slot = (Finset.univ : Finset Slot).card := rfl
          _ ≤ l.toFinset.card := Finset.card_le_card hsub
          _ ≤ l.length := List.toFinset_card_le l
      have hge := h.length_le
      rw [Fintype.card_fin] at hle
      omega

end Spec

section Rewrites

variable {start stop : Nat} {a a' : Arena} {l p q : List Slot} {m n k : Slot}

theorem linksTo_of_same {o o' : Option Slot} (hsame : ∀ i, i ∈ l → a'.holes i = a.holes i)
    (h : LinksTo a.link o l o') : LinksTo a'.link o l o' := by
  refine (linksTo_congr ?_).mp h
  intro i hi
  simp only [Arena.link, hsame i hi]

theorem map_seg_of_same (hsame : ∀ i, i ∈ l → a'.holes i = a.holes i) :
    (l.map fun i => (a'.holes i).seg) = l.map fun i => (a.holes i).seg := by
  refine List.map_congr_left ?_
  intro i hi
  simp only [hsame i hi]

theorem Tiled.cut (h : Tiled start stop a (p ++ m :: q)) :
    LinksTo a.link (some firstHole) p (some m) ∧
    LinksTo a.link (a.link m) q none ∧
    Tiles (a.holes m).pageBase start (p.map fun i => (a.holes i).seg) ∧
    0 < (a.holes m).extent ∧
    Tiles stop ((a.holes m).pageBase + (a.holes m).extent)
      (q.map fun i => (a.holes i).seg) := by
  obtain ⟨o, hp, ho, hq⟩ := linksTo_append.mp h.links
  subst ho
  have htiles := h.tiles
  rw [List.map_append, List.map_cons] at htiles
  obtain ⟨mid, hpt, hbase, hpos, hqt⟩ := tiles_append.mp htiles
  subst hbase
  exact ⟨hp, hq, hpt, hpos, hqt⟩

theorem Tiled.cut_notMem (h : Tiled start stop a (p ++ m :: q)) : m ∉ p ∧ m ∉ q := by
  have hnd := h.links.nodup
  rw [List.nodup_append] at hnd
  obtain ⟨_, hmq, hdisj⟩ := hnd
  refine ⟨?_, (List.nodup_cons.mp hmq).1⟩
  intro hm
  exact hdisj m hm m (by simp) rfl

/-- Changing only the count or the kind of a hole keeps the tiling. -/
theorem Tiled.retag (h : Tiled start stop a l) (hm : m ∈ l)
    (hsame : ∀ i, i ≠ m → a'.holes i = a.holes i) (hseg : (a'.holes m).seg = (a.holes m).seg)
    (hnext : (a'.holes m).next = (a.holes m).next) (hflags : (a'.holes m).flags ≠ .spare) :
    Tiled start stop a' l := by
  have hlink : a'.link = a.link := by
    funext i
    by_cases hi : i = m
    · subst hi
      exact hnext
    · simp only [Arena.link, hsame i hi]
  have hmap : (fun i => (a'.holes i).seg) = fun i => (a.holes i).seg := by
    funext i
    by_cases hi : i = m
    · subst hi
      exact hseg
    · simp only [hsame i hi]
  refine ⟨by rw [hlink]; exact h.links, by rw [hmap]; exact h.tiles, ?_, ?_⟩
  · intro i hi
    by_cases him : i = m
    · subst him
      exact hflags
    · rw [hsame i him]
      exact h.onList i hi
  · intro i hi
    have him : i ≠ m := by
      rintro rfl
      exact hi hm
    rw [hsame i him]
    exact h.offList i hi

theorem Tiled.split (h : Tiled start stop a (p ++ m :: q)) (hn : n ∉ p ++ m :: q)
    {len : Nat} (hpos : 0 < len) (hlen : len < (a.holes m).extent)
    (hsame : ∀ i, i ≠ m → i ≠ n → a'.holes i = a.holes i)
    (hmseg : (a'.holes m).seg = ((a.holes m).pageBase, len)) (hmnext : (a'.holes m).next = some n)
    (hmflags : (a'.holes m).flags ≠ .spare)
    (hnseg : (a'.holes n).seg =
      ((a.holes m).pageBase + len, (a.holes m).extent - len))
    (hnnext : (a'.holes n).next = (a.holes m).next)
    (hnflags : (a'.holes n).flags ≠ .spare) :
    Tiled start stop a' (p ++ m :: n :: q) := by
  obtain ⟨hp, hq, hpt, _, hqt⟩ := h.cut
  obtain ⟨hmp, hmq⟩ := h.cut_notMem
  simp only [List.mem_append, List.mem_cons, not_or] at hn
  obtain ⟨hnp, hnm, hnq⟩ := hn
  have hsp : ∀ i, i ∈ p → a'.holes i = a.holes i := fun i hi =>
    hsame i (fun e => hmp (e ▸ hi)) (fun e => hnp (e ▸ hi))
  have hsq : ∀ i, i ∈ q → a'.holes i = a.holes i := fun i hi =>
    hsame i (fun e => hmq (e ▸ hi)) (fun e => hnq (e ▸ hi))
  refine ⟨?_, ?_, ?_, ?_⟩
  · refine linksTo_append.mpr ⟨some m, linksTo_of_same hsp hp, rfl, ?_⟩
    refine ⟨hmnext, ?_⟩
    have hlink : a'.link n = a.link m := hnnext
    rw [hlink]
    exact linksTo_of_same hsq hq
  · rw [List.map_append, List.map_cons, List.map_cons,
      map_seg_of_same hsp, map_seg_of_same hsq, hmseg, hnseg]
    refine tiles_append.mpr ⟨_, hpt, rfl, hpos, rfl, ?_, ?_⟩
    · omega
    · have he : (a.holes m).pageBase + len + ((a.holes m).extent - len) =
          (a.holes m).pageBase + (a.holes m).extent := by
        omega
      rw [he]
      exact hqt
  · intro i hi
    by_cases him : i = m
    · rw [him]
      exact hmflags
    by_cases hin : i = n
    · rw [hin]
      exact hnflags
    · rw [hsame i him hin]
      refine h.onList i ?_
      simpa [him, hin] using hi
  · intro i hi
    simp only [List.mem_append, List.mem_cons, not_or] at hi
    obtain ⟨hip, him, hin, hiq⟩ := hi
    rw [hsame i him hin]
    refine h.offList i ?_
    simp [hip, him, hiq]

theorem mergeHoles_self (hkm : k ≠ m) :
    (mergeHoles a m k).holes m =
      { a.holes m with
        extent := wrap 16 ((a.holes m).extent + (a.holes k).extent)
        next := (a.holes k).next } := by
  simp [mergeHoles, Arena.set, hkm, Ne.symm hkm]

theorem mergeHoles_swallowed (hkm : k ≠ m) :
    (mergeHoles a m k).holes k = { a.holes k with flags := .spare } := by
  simp [mergeHoles, Arena.set, hkm]

theorem mergeHoles_other {i : Slot} (him : i ≠ m) (hik : i ≠ k) :
    (mergeHoles a m k).holes i = a.holes i := by
  simp [mergeHoles, Arena.set, him, hik]

theorem Tiled.merge (h : Tiled start stop a (p ++ m :: k :: q)) (hstop : stop < 2 ^ 16) :
    Tiled start stop (mergeHoles a m k) (p ++ m :: q) := by
  obtain ⟨hp, ⟨hk, hq⟩, hpt, hmpos, hkq⟩ := h.cut
  obtain ⟨hmp, hmkq⟩ := h.cut_notMem
  have hkm : k ≠ m := by
    rintro rfl
    exact hmkq (by simp)
  have hmq : m ∉ q := fun hm => hmkq (List.mem_cons_of_mem _ hm)
  have h' : Tiled start stop a ((p ++ [m]) ++ k :: q) := by
    simpa using h
  obtain ⟨hkpm, hkq'⟩ := h'.cut_notMem
  have hkp : k ∉ p := fun hk' => hkpm (List.mem_append_left _ hk')
  rw [List.map_cons] at hkq
  obtain ⟨hkbase, hkpos, hqt⟩ := hkq
  have hext : wrap 16 ((a.holes m).extent + (a.holes k).extent) =
      (a.holes m).extent + (a.holes k).extent := by
    have hle := hqt.le
    simp only [MallocHole.seg] at hle
    exact wrap_of_lt (by omega)
  have hself := mergeHoles_self (a := a) hkm
  rw [hext] at hself
  have hsp : ∀ i, i ∈ p → (mergeHoles a m k).holes i = a.holes i :=
    fun i hi => mergeHoles_other
      (fun e => hmp (e ▸ hi)) (fun e => hkp (e ▸ hi))
  have hsq : ∀ i, i ∈ q → (mergeHoles a m k).holes i = a.holes i :=
    fun i hi => mergeHoles_other
      (fun e => hmq (e ▸ hi)) (fun e => hkq' (e ▸ hi))
  refine ⟨?_, ?_, ?_, ?_⟩
  · refine linksTo_append.mpr ⟨some m, linksTo_of_same hsp hp, rfl, ?_⟩
    have hlink : (mergeHoles a m k).link m = a.link k := by
      simp only [Arena.link, hself]
    rw [hlink]
    exact linksTo_of_same hsq hq
  · rw [List.map_append, List.map_cons, map_seg_of_same hsp,
      map_seg_of_same hsq, hself]
    refine tiles_append.mpr ⟨_, hpt, rfl, ?_, ?_⟩
    · simp only [MallocHole.seg]
      omega
    · simp only [MallocHole.seg, ← Nat.add_assoc] at hqt ⊢
      exact hqt
  · intro i hi
    by_cases him : i = m
    · rw [him, hself]
      exact h.onList m (by simp)
    · have hik : i ≠ k := by
        rintro rfl
        rcases List.mem_append.mp hi with hi | hi
        · exact hkp hi
        · rcases List.mem_cons.mp hi with hi | hi
          · exact hkm hi
          · exact hkq' hi
      rw [mergeHoles_other him hik]
      refine h.onList i ?_
      simp only [List.mem_append, List.mem_cons] at hi ⊢
      tauto
  · intro i hi
    by_cases hik : i = k
    · rw [hik, mergeHoles_swallowed hkm]
    · have him : i ≠ m := by
        rintro rfl
        exact hi (by simp)
      rw [mergeHoles_other him hik]
      refine h.offList i ?_
      simp only [List.mem_append, List.mem_cons] at hi ⊢
      tauto

end Rewrites

end Mm
end Elks
