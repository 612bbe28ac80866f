import Elks.Mm.Resize

/-!
# The list of holes on its own (arch/i86/mm/malloc.c, CONFIG_SWAP off)

`mm_resize` may leave a descriptor off the list that is not spare.  What the list itself
describes is still right then: its holes tile the memory, and none of them is spare.
`mend` writes off such descriptors, so that the facts about a full layout apply.

* `Strung.shift`, `Strung.drop`: what `mm_resize` does to the next hole;
* `Strung.takeHole`, `Strung.sweepHoles`: what is left of `mm_alloc` and `mm_free`.
-/

namespace Elks
namespace Mm

open Lib

/-- The table with every descriptor off the list made spare. -/
def Arena.mend (a : Arena) (l : List Slot) : Arena :=
  { a with holes := fun i => if i ∈ l then a.holes i else { a.holes i with flags := .spare } }

/-- The list tiles the memory, whatever is off it. -/
def Strung (start stop : Nat) (a : Arena) (l : List Slot) : Prop :=
  Tiled start stop (a.mend l) l

section Mend

variable {start stop : Nat} {a a' : Arena} {l l' : List Slot} {i : Slot}

theorem mend_on (hi : i ∈ l) : (a.mend l).holes i = a.holes i :=
  if_pos hi

theorem mend_off (hi : i ∉ l) :
    (a.mend l).holes i = { a.holes i with flags := .spare } :=
  if_neg hi

@[simp] theorem mend_pageBase : ((a.mend l).holes i).pageBase = (a.holes i).pageBase := by
  by_cases hi : i ∈ l
  · rw [mend_on hi]
  · rw [mend_off hi]

@[simp] theorem mend_extent : ((a.mend l).holes i).extent = (a.holes i).extent := by
  by_cases hi : i ∈ l
  · rw [mend_on hi]
  · rw [mend_off hi]

@[simp] theorem mend_next : ((a.mend l).holes i).next = (a.holes i).next := by
  by_cases hi : i ∈ l
  · rw [mend_on hi]
  · rw [mend_off hi]

theorem Tiled.strung (h : Tiled start stop a l) : Strung start stop a l := by
  have hmend : a.mend l = a := by
    unfold Arena.mend
    congr 1
    funext i
    by_cases hi : i ∈ l
    · rw [if_pos hi]
    · rw [if_neg hi, ← h.offList i hi]
  unfold Strung
  rw [hmend]
  exact h

theorem Strung.onList (h : Strung start stop a l) (hi : i ∈ l) : (a.holes i).flags ≠ .spare := by
  rw [← mend_on (a := a) hi]
  exact Tiled.onList h i hi

theorem mend_same (hmem : i ∈ l' ↔ i ∈ l) (hsame : a'.holes i = a.holes i) :
    (a'.mend l').holes i = (a.mend l).holes i := by
  by_cases hi : i ∈ l
  · rw [mend_on hi, mend_on (hmem.mpr hi), hsame]
  · rw [mend_off hi, mend_off (mt hmem.mp hi), hsame]

theorem findHoleFrom_mend (base fuel : Nat) (o : Option Slot) :
    findHoleFrom (a.mend l) base fuel o = findHoleFrom a base fuel o := by
  induction fuel generalizing o with
  | zero => cases o <;> rfl
  | succ fuel ih =>
      cases o with
      | none => rfl
      | some m => simp only [findHoleFrom, mend_pageBase, mend_next, ih]

theorem findHole_mend (base : Nat) : findHole (a.mend l) base = findHole a base :=
  findHoleFrom_mend base maxSegments (some firstHole)

theorem Strung.findHole_used (h : Strung start stop a l) (hi : i ∈ l)
    (hused : (a.holes i).flags = .used) : findHole a (a.holes i).pageBase = .ok (some i) := by
  rw [← findHole_mend (l := l), ← mend_pageBase (l := l)]
  refine Tiled.findHole_used h ?_
  rwa [mend_on hi]

theorem Strung.mem_of_findHole (h : Strung start stop a l) {base : Nat}
    (hfind : findHole a base = .ok (some i)) : i ∈ l ∧ (a.holes i).pageBase = base := by
  rw [← findHole_mend (l := l), Tiled.findHole_eq h] at hfind
  have hfound := Except.ok.inj hfind
  refine ⟨List.mem_of_find?_eq_some hfound, ?_⟩
  have hbase := List.find?_some hfound
  rw [decide_eq_true_eq, mend_pageBase] at hbase
  exact hbase

theorem Strung.bestFitHole_some (h : Strung start stop a l) {size : Nat}
    (hbest : bestFitHole a size = .ok (some i)) : i ∈ l ∧ Fits a size i := by
  have hfold : bestFitHole a size = .ok (l.foldl (betterHole a size) none) := by
    refine bestFitFrom_eq size _ none ?_ (Tiled.length_le h)
    have hlink : (a.mend l).link = a.link := funext fun _ => mend_next
    rw [← hlink]
    exact h.links
  have hspec := foldl_betterHole (a := a) (l := l) size none (by simp)
  rw [hfold] at hbest
  rw [Except.ok.inj hbest] at hspec
  obtain ⟨hmem, hfit, _, _⟩ := hspec
  exact ⟨by simpa using hmem, hfit⟩

end Mend

section Rewrites

variable {start stop : Nat} {a a' : Arena} {l p q : List Slot} {m n k : Slot}

theorem Strung.retag (h : Strung start stop a l) (hm : m ∈ l)
    (hsame : ∀ i, i ≠ m → a'.holes i = a.holes i) (hseg : (a'.holes m).seg = (a.holes m).seg)
    (hnext : (a'.holes m).next = (a.holes m).next) (hflags : (a'.holes m).flags ≠ .spare) :
    Strung start stop a' l := by
  refine Tiled.retag h hm (fun i hi => mend_same Iff.rfl (hsame i hi)) ?_ ?_ ?_
  · rw [mend_on hm, mend_on hm]
    exact hseg
  · rw [mend_on hm, mend_on hm]
    exact hnext
  · rw [mend_on hm]
    exact hflags

theorem Strung.split (h : Strung start stop a (p ++ m :: q)) (hn : n ∉ p ++ m :: q)
    {len : Nat} (hpos : 0 < len) (hlen : len < (a.holes m).extent)
    (hsame : ∀ i, i ≠ m → i ≠ n → a'.holes i = a.holes i)
    (hmseg : (a'.holes m).seg = ((a.holes m).pageBase, len)) (hmnext : (a'.holes m).next = some n)
    (hmflags : (a'.holes m).flags ≠ .spare)
    (hnseg : (a'.holes n).seg =
      ((a.holes m).pageBase + len, (a.holes m).extent - len))
    (hnnext : (a'.holes n).next = (a.holes m).next)
    (hnflags : (a'.holes n).flags ≠ .spare) :
    Strung start stop a' (p ++ m :: n :: q) := by
  have hm : m ∈ p ++ m :: q := by simp
  have hm' : m ∈ p ++ m :: n :: q := by simp
  have hn' : n ∈ p ++ m :: n :: q := by simp
  have hold := mend_on (a := a) hm
  have hself := mend_on (a := a') hm'
  have hnew := mend_on (a := a') hn'
  refine Tiled.split h hn hpos (by rwa [hold]) (fun i him hin => ?_) ?_ ?_ ?_ ?_ ?_ ?_
  · refine mend_same ?_ (hsame i him hin)
    simp [him, hin]
  · rw [hself, hold]
    exact hmseg
  · rw [hself]
    exact hmnext
  · rw [hself]
    exact hmflags
  · rw [hnew, hold]
    exact hnseg
  · rw [hnew, hold]
    exact hnnext
  · rw [hnew]
    exact hnflags

/-- The border between a hole and its successor moves upwards. -/
theorem Strung.shift (h : Strung start stop a (p ++ m :: k :: q))
    {ext : Nat} (hshift : Shifted a a' m k ext) : Strung start stop a' (p ++ m :: k :: q) := by
  obtain ⟨hext, hsame, hm, hk⟩ := hshift
  have hmem : m ∈ p ++ m :: k :: q := by simp
  have hkmem : k ∈ p ++ m :: k :: q := by simp
  refine Tiled.shift h ⟨by rwa [mend_on hkmem],
    fun i him hik => mend_same Iff.rfl (hsame i him hik), ?_, ?_⟩
  · rw [mend_on hmem, mend_on hmem]
    exact hm
  · rw [mend_on hkmem, mend_on hkmem]
    exact hk

/-- A hole and its successor have fewer pages together than a number can hold. -/
theorem Strung.successor_extent
    (h : Strung start stop a (p ++ m :: k :: q)) (hstop : stop < 2 ^ 16) :
    wrap 16 ((a.holes m).extent + (a.holes k).extent) =
      (a.holes m).extent + (a.holes k).extent := by
  obtain ⟨_, _, _, _, htail⟩ := Tiled.cut h
  rw [List.map_cons] at htail
  obtain ⟨hbase, _, hrest⟩ := htail
  have hle := hrest.le
  simp only [MallocHole.seg, mend_pageBase, mend_extent] at hbase hle
  exact wrap_of_lt (by omega)

/-- What is left when a hole has swallowed its successor, whatever the latter's
descriptor says then. -/
theorem Strung.drop (h : Strung start stop a (p ++ m :: k :: q)) (hstop : stop < 2 ^ 16)
    (hsame : ∀ i, i ≠ m → i ≠ k → a'.holes i = a.holes i)
    (hm : a'.holes m =
      { a.holes m with
        extent := (a.holes m).extent + (a.holes k).extent
        next := (a.holes k).next }) :
    Strung start stop a' (p ++ m :: q) := by
  have hmem : m ∈ p ++ m :: k :: q := by simp
  have hkmem : k ∈ p ++ m :: k :: q := by simp
  have hmem' : m ∈ p ++ m :: q := by simp
  have hkm : k ≠ m := by
    rintro rfl
    exact (Tiled.cut_notMem h).2 (by simp)
  have hmerged := Tiled.merge h hstop
  have hkoff : k ∉ p ++ m :: q := by
    have hbig : Strung start stop a ((p ++ [m]) ++ k :: q) := by simpa using h
    obtain ⟨hkp, hkq⟩ := Tiled.cut_notMem hbig
    simp only [List.mem_append, List.mem_cons, List.not_mem_nil, or_false, not_or] at hkp ⊢
    exact ⟨hkp.1, hkp.2, hkq⟩
  have hext := h.successor_extent hstop
  have hon : ∀ i ∈ p ++ m :: q,
      (a'.mend (p ++ m :: q)).holes i = (mergeHoles (a.mend (p ++ m :: k :: q)) m k).holes i := by
    intro i hi
    rw [mend_on hi]
    by_cases him : i = m
    · rw [him, mergeHoles_self hkm, mend_on hmem, mend_on hkmem, hext, hm]
    · have hik : i ≠ k := by
        rintro rfl
        exact hkoff hi
      have hbig : i ∈ p ++ m :: k :: q := by
        simp only [List.mem_append, List.mem_cons] at hi ⊢
        tauto
      rw [mergeHoles_other him hik, mend_on hbig, hsame i him hik]
  refine ⟨?_, ?_, ?_, ?_⟩
  · refine (linksTo_congr fun i hi => ?_).mp hmerged.links
    simp only [Arena.link, hon i hi]
  · rw [map_seg_of_same hon]
    exact hmerged.tiles
  · intro i hi
    rw [hon i hi]
    exact hmerged.onList i hi
  · intro i hi
    rw [mend_off hi]

theorem Strung.merge (h : Strung start stop a (p ++ m :: k :: q)) (hstop : stop < 2 ^ 16) :
    Strung start stop (mergeHoles a m k) (p ++ m :: q) := by
  have hkm : k ≠ m := by
    rintro rfl
    exact (Tiled.cut_notMem h).2 (by simp)
  refine h.drop hstop (fun i him hik => mergeHoles_other him hik) ?_
  rw [mergeHoles_self hkm, h.successor_extent hstop]

theorem Strung.takeHole
    (h : Strung start stop a l) (hstop : stop < 2 ^ 16) {pages : Nat} (hpages : 0 < pages)
    (hm : m ∈ l) (hfit : Fits a pages m) (hok : takeHole a m pages = .ok a') :
    ∃ l', Strung start stop a' l' ∧ (∀ i ∈ l, i ∈ l') ∧
      (a'.holes m).flags = .used ∧ (a'.holes m).extent = pages ∧
      (a'.holes m).refcount = 1 ∧ ∀ i ∈ l, i ≠ m → a'.holes i = a.holes i := by
  obtain ⟨p, q, rfl⟩ := List.append_of_mem hm
  obtain ⟨_, _, _, _, htail⟩ := Tiled.cut h
  have hbound := htail.le
  rw [mend_pageBase, mend_extent] at hbound
  rcases Nat.eq_or_lt_of_le hfit.1 with heq | hlt
  · -- the fit is exact
    have hspare : wrapSub 16 (a.holes m).extent pages = 0 := by
      rw [wrapSub_of_le (by omega) (by omega)]
      omega
    unfold Mm.takeHole splitHole at hok
    simp only [hspare, if_true, bind, Except.bind, Except.ok.injEq] at hok
    subst hok
    refine ⟨_, h.retag hm (fun i hi => Arena.set_ne _ _ hi) ?_ ?_ ?_, fun i hi => hi, ?_, ?_, ?_,
      fun i _ hi => Arena.set_ne _ _ hi⟩ <;> simp [MallocHole.seg, heq]
  · cases halloc : allocHole a with
    | error e =>
        have hspare : wrapSub 16 (a.holes m).extent pages = (a.holes m).extent - pages :=
          wrapSub_of_le (by omega) (by omega)
        have hne : ¬(a.holes m).extent - pages = 0 := by omega
        unfold Mm.takeHole splitHole at hok
        simp only [hspare, if_neg hne, allocHole_shrunk, halloc, bind, Except.bind] at hok
        cases hok
    | ok n =>
        have hnspare : (a.holes n).flags = .spare := by
          unfold allocHole at halloc
          split at halloc
          · rename_i j hj
            rw [← Except.ok.inj halloc]
            simpa using List.find?_some hj
          · cases halloc
        have hoff : n ∉ p ++ m :: q := fun hmem => h.onList hmem hnspare
        have hnm : n ≠ m := by
          rintro rfl
          exact hoff hm
        obtain ⟨a₁, hok₁, hsame, hself, hnew⟩ := takeHole_split hlt (by omega) halloc hnm
        rw [hok] at hok₁
        obtain rfl := Except.ok.inj hok₁
        rw [wrap_of_lt (by omega)] at hnew
        refine ⟨p ++ m :: n :: q, ?_, fun i hi => ?_, ?_, ?_, ?_, fun i hi him => ?_⟩
        · refine h.split hoff hpages hlt hsame ?_ ?_ ?_ ?_ ?_ ?_ <;>
            simp [hself, hnew, MallocHole.seg]
        · simp only [List.mem_append, List.mem_cons] at hi ⊢
          tauto
        · rw [hself]
        · rw [hself]
        · rw [hself]
        · refine hsame i him ?_
          rintro rfl
          exact hoff hi

theorem Strung.sweepFrom (hstop : stop < 2 ^ 16) {q : List Slot} :
    ∀ {p : List Slot} {m : Slot} {a : Arena} {fuel : Nat},
      Strung start stop a (p ++ m :: q) → q.length ≤ fuel →
      ∃ a' l', sweepFrom fuel a (some m) = .ok a' ∧ Strung start stop a' l' ∧
        ∀ i ∈ p ++ m :: q, (a.holes i).flags = .used →
          i ∈ l' ∧ a'.holes i = a.holes i := by
  induction q with
  | nil =>
      intro p m a fuel h _
      obtain ⟨_, hend, _⟩ := Tiled.cut h
      have hnext : (a.holes m).next = none := by
        rw [← mend_next (l := p ++ [m])]
        exact hend
      exact ⟨a, p ++ [m], sweepFrom.eq_2 a m fuel hnext, h, fun i hi _ => ⟨hi, rfl⟩⟩
  | cons k q ih =>
      intro p m a fuel h hfuel
      obtain ⟨_, ⟨hlink, _⟩, _⟩ := Tiled.cut h
      have hnext : (a.holes m).next = some k := by
        rw [← mend_next (l := p ++ m :: k :: q)]
        exact hlink
      have hkm : k ≠ m := by
        rintro rfl
        exact (Tiled.cut_notMem h).2 (by simp)
      cases fuel with
      | zero => simp at hfuel
      | succ fuel =>
          have hlen : q.length ≤ fuel := by simpa using hfuel
          have hstep := sweepFrom.eq_4 a m k fuel hnext
          by_cases hfree : (a.holes m).flags = .free ∧ (a.holes k).flags = .free ∧
              wrap 16 ((a.holes m).pageBase + (a.holes m).extent) = (a.holes k).pageBase
          · rw [if_pos hfree] at hstep
            obtain ⟨a', l', hok, hstrung, hkept⟩ := ih (h.merge hstop) hlen
            refine ⟨a', l', hstep.trans hok, hstrung, fun i hi hused => ?_⟩
            have him : i ≠ m := by
              rintro rfl
              rw [hfree.1] at hused
              cases hused
            have hik : i ≠ k := by
              rintro rfl
              rw [hfree.2.1] at hused
              cases hused
            have hother := mergeHoles_other (a := a) him hik
            rw [← hother]
            refine hkept i ?_ (by rwa [hother])
            simp only [List.mem_append, List.mem_cons] at hi ⊢
            tauto
          · rw [if_neg hfree] at hstep
            have h' : Strung start stop a ((p ++ [m]) ++ k :: q) := by simpa using h
            obtain ⟨a', l', hok, hstrung, hkept⟩ := ih h' hlen
            refine ⟨a', l', hstep.trans hok, hstrung, fun i hi => hkept i ?_⟩
            simpa using hi

theorem Strung.sweepHoles (h : Strung start stop a l) (hstop : stop < 2 ^ 16) :
    ∃ a' l', sweepHoles a = .ok a' ∧ Strung start stop a' l' ∧
      ∀ i ∈ l, (a.holes i).flags = .used → i ∈ l' ∧ a'.holes i = a.holes i := by
  have hlen := Tiled.length_le h
  cases l with
  | nil => cases h.links
  | cons m q =>
      obtain ⟨hm, _⟩ := h.links
      obtain rfl : firstHole = m := Option.some.inj hm
      refine Strung.sweepFrom (p := []) hstop h ?_
      rw [List.length_cons] at hlen
      omega

end Rewrites

section Resize

variable {start stop pages : Nat} {a a' : Arena} {l : List Slot} {m n k : Slot}
  {advanced : Bool}

/-- The pages of a hole after `mm_resize`, which does not make it smaller. -/
def grown (a : Arena) (m : Slot) (pages : Nat) : Nat :=
  max (a.holes m).extent pages

theorem Strung.start_le (h : Strung start stop a l) (hm : m ∈ l) :
    start ≤ (a.holes m).pageBase := by
  have hbounds := h.tiles.mem_bounds (List.mem_map_of_mem hm)
  simp only [MallocHole.seg, mend_pageBase] at hbounds
  exact hbounds.1

theorem Strung.memory (h : Strung start stop a l) (f : Nat → UInt8) :
    Strung start stop { a with memory := f } l := by
  have ht : Tiled start stop (a.mend l) l := h
  exact ⟨ht.links, ht.tiles, ht.onList, ht.offList⟩

theorem Strung.takeNext (advanced : Bool) (h : Strung start stop a l) (hstop : stop < 2 ^ 16)
    (hpages : pages < 2 ^ 16) (hm : m ∈ l) (hused : (a.holes m).flags = .used)
    (hsmall : ¬pages ≤ (a.holes m).extent) (hk : (a.holes m).next = some k)
    (hfree : (a.holes k).flags = .free)
    (hroom : wrapSub 16 pages (a.holes m).extent ≤ (a.holes k).extent) :
    ∃ a' l', mmResize advanced a m pages = .ok (a', some m) ∧ Strung start stop a' l' ∧
      m ∈ l' ∧ (a'.holes m).flags = .used ∧ (a'.holes m).extent = pages ∧
      (a'.holes m).pageBase = (a.holes m).pageBase := by
  have hk' : ((a.mend l).holes m).next = some k := by
    rw [mend_next]
    exact hk
  obtain ⟨p, q, rfl⟩ := Tiled.next_cut h hm hk'
  obtain ⟨_, hkm, _, hbase, hle⟩ := Tiled.next_bounds h hm hk'
  simp only [mend_pageBase, mend_extent] at hbase hle
  obtain ⟨ext, hext⟩ : ∃ ext, pages = (a.holes m).extent + ext :=
    ⟨pages - (a.holes m).extent, by omega⟩
  have hsub : wrapSub 16 pages (a.holes m).extent = ext := by
    rw [wrapSub_of_le (by omega) hpages]
    omega
  rw [hsub] at hroom
  obtain ⟨a', hok, hsame, hself, hnext⟩ :=
    mmResize_grow advanced hpages hk hkm hfree (by omega) (by omega) hext hroom
  have hflags : (a'.holes m).flags = .used := by
    rw [hself]
    exact hused
  have hpages' : (a'.holes m).extent = pages := by rw [hself, hext]
  have hbase' : (a'.holes m).pageBase = (a.holes m).pageBase := by rw [hself]
  by_cases hlt : ext < (a.holes k).extent
  · -- the border moves
    rw [if_pos hlt, ← hk] at hself
    exact ⟨a', _, hok, h.shift ⟨hlt, hsame, hself, hnext⟩, hm, hflags, hpages', hbase'⟩
  · -- nothing is left of the next hole
    have hall : ext = (a.holes k).extent := by omega
    rw [if_neg hlt, hall] at hself
    exact ⟨a', _, hok, h.drop hstop hsame hself, by simp, hflags, hpages', hbase'⟩

theorem Strung.handOver (h : Strung start stop a l) (hstop : stop < 2 ^ 16)
    (hn : n ∈ l) (hused : (a.holes n).flags = .used) (hm : m ∈ l) (hnm : n ≠ m) (r : Nat)
    (hok : Mm.sweepHoles
      ((a.set n { a.holes n with refcount := r }).set m
        { (a.set n { a.holes n with refcount := r }).holes m with flags := .free }) = .ok a') :
    ∃ l', Strung start stop a' l' ∧ n ∈ l' ∧ a'.holes n = { a.holes n with refcount := r } := by
  have hcount : Strung start stop (a.set n { a.holes n with refcount := r }) l := by
    refine h.retag hn (fun i hi => Arena.set_ne _ _ hi) ?_ ?_ ?_
    · rw [Arena.set_same]
      rfl
    · rw [Arena.set_same]
    · rw [Arena.set_same]
      exact h.onList hn
  generalize hb : a.set n { a.holes n with refcount := r } = b at hok hcount
  have hfreed : Strung start stop (b.set m { b.holes m with flags := .free }) l := by
    refine hcount.retag hm (fun i hi => Arena.set_ne _ _ hi) ?_ ?_ ?_
    · rw [Arena.set_same]
      rfl
    · rw [Arena.set_same]
    · rw [Arena.set_same]
      exact HoleFlags.noConfusion
  have hself : (b.set m { b.holes m with flags := .free }).holes n =
      { a.holes n with refcount := r } := by
    rw [Arena.set_ne _ _ hnm, ← hb, Arena.set_same]
  obtain ⟨a₁, l', hok₁, hstrung, hkept⟩ := hfreed.sweepHoles hstop
  rw [hok] at hok₁
  obtain rfl := Except.ok.inj hok₁
  obtain ⟨hmem, hsame⟩ := hkept n hn (by rw [hself]; exact hused)
  exact ⟨l', hstrung, hmem, hsame.trans hself⟩

theorem Strung.move (h : Strung start stop a l) (hstart : 0 < start) (hstop : stop < 2 ^ 16)
    (hm : m ∈ l) (hused : (a.holes m).flags = .used) (hsmall : ¬pages ≤ (a.holes m).extent)
    (hk : (a.holes m).next = some k)
    (hnext : ¬((a.holes k).flags = .free ∧
      wrapSub 16 pages (a.holes m).extent ≤ (a.holes k).extent))
    (hok : mmResize true a m pages = .ok (a', some n)) :
    ∃ l', Strung start stop a' l' ∧ n ∈ l' ∧ (a'.holes n).flags = .used ∧
      (a'.holes n).extent = pages ∧ ∃ i, Fits a pages i := by
  rw [mmResize, if_neg hsmall] at hok
  simp only [hk, if_neg hnext, if_true, mmAlloc] at hok
  cases hbest : bestFitHole a pages with
  | error e =>
      simp only [hbest, bind, Except.bind] at hok
      cases hok
  | ok b =>
      cases b with
      | none =>
          -- no hole lies at address zero
          simp only [hbest, bind, Except.bind, Option.getD_none] at hok
          have hlay := h.memory (fmemcpy a.memory 0 0 (a.holes m).pageBase 0
            (wrap 16 ((a.holes m).extent <<< 4)))
          split at hok
          · cases hok
          · rename_i r hfind
            cases r with
            | none => cases hok
            | some i =>
                obtain ⟨hi, hbase⟩ := hlay.mem_of_findHole hfind
                have hge := hlay.start_le hi
                omega
      | some b =>
          obtain ⟨hb, hfit⟩ := h.bestFitHole_some hbest
          have hbm : b ≠ m := by
            rintro rfl
            have hfree := hfit.2
            rw [hused] at hfree
            cases hfree
          cases htake : Mm.takeHole a b pages with
          | error e =>
              simp only [hbest, htake, bind, Except.bind] at hok
              cases hok
          | ok a₁ =>
              obtain ⟨l₁, hstrung, hmem, hbused, hext, _, hkept⟩ :=
                h.takeHole hstop (by omega) hb hfit htake
              simp only [hbest, htake, bind, Except.bind, Option.getD_some] at hok
              have hmoved := hstrung.memory (fmemcpy a₁.memory (a₁.holes b).pageBase 0
                (a₁.holes m).pageBase 0 (wrap 16 ((a₁.holes m).extent <<< 4)))
              have hfind := hmoved.findHole_used (hmem b hb) hbused
              simp only at hfind
              simp only [hfind] at hok
              split at hok
              · cases hok
              · rename_i a₂ hsweep
                obtain ⟨rfl, hn⟩ := Prod.mk.inj (Except.ok.inj hok)
                obtain rfl := Option.some.inj hn
                obtain ⟨l', hlast, hmem', hself⟩ :=
                  hmoved.handOver hstop (hmem b hb) hbused (hmem m hm) hbm _ hsweep
                refine ⟨l', hlast, hmem', ?_, ?_, b, hfit⟩
                · rw [hself]
                  exact hbused
                · rw [hself]
                  exact hext

theorem mmResize_true_ne_none (hsmall : ¬pages ≤ (a.holes m).extent)
    (hk : (a.holes m).next = some k)
    (hnext : ¬((a.holes k).flags = .free ∧
      wrapSub 16 pages (a.holes m).extent ≤ (a.holes k).extent)) :
    mmResize true a m pages ≠ .ok (a', none) := by
  intro hok
  rw [mmResize, if_neg hsmall] at hok
  simp only [hk, if_neg hnext, if_true] at hok
  cases halloc : mmAlloc a pages with
  | error e =>
      simp only [halloc, bind, Except.bind] at hok
      cases hok
  | ok b =>
      simp only [halloc, bind, Except.bind] at hok
      split at hok
      · cases hok
      · split at hok
        · cases hok
        · split at hok
          · cases hok
          · cases (Prod.mk.inj (Except.ok.inj hok)).2

theorem Strung.mmResize_spec {r : Option Slot} (h : Strung start stop a l) (hstart : 0 < start)
    (hstop : stop < 2 ^ 16) (hpages : pages < 2 ^ 16) (hm : m ∈ l)
    (hused : (a.holes m).flags = .used) (hok : mmResize advanced a m pages = .ok (a', r)) :
    ∃ l', Strung start stop a' l' ∧
      (r = none ∧ a' = a ∨
        ∃ n, r = some n ∧ n ∈ l' ∧ (a'.holes n).flags = .used ∧
          (a'.holes n).extent = grown a m pages) := by
  unfold grown
  by_cases hsmall : pages ≤ (a.holes m).extent
  · rw [mmResize, if_pos hsmall] at hok
    obtain ⟨rfl, rfl⟩ := Prod.mk.inj (Except.ok.inj hok)
    exact ⟨l, h, Or.inr ⟨m, rfl, hm, hused, (max_eq_left hsmall).symm⟩⟩
  · have hmax : max (a.holes m).extent pages = pages := max_eq_right (by omega)
    rw [hmax]
    cases hk : (a.holes m).next with
    | none =>
        rw [mmResize_last advanced hsmall hk] at hok
        cases hok
    | some k =>
        by_cases hnext : (a.holes k).flags = .free ∧
            wrapSub 16 pages (a.holes m).extent ≤ (a.holes k).extent
        · obtain ⟨a₁, l', hok₁, hstrung, hmem, hflags, hext, _⟩ :=
            h.takeNext advanced hstop hpages hm hused hsmall hk hnext.1 hnext.2
          rw [hok] at hok₁
          obtain ⟨rfl, rfl⟩ := Prod.mk.inj (Except.ok.inj hok₁)
          exact ⟨l', hstrung, Or.inr ⟨m, rfl, hmem, hflags, hext⟩⟩
        · cases advanced with
          | false =>
              rw [mmResize, if_neg hsmall] at hok
              simp only [hk, if_neg hnext, Bool.false_eq_true, if_false] at hok
              obtain ⟨rfl, rfl⟩ := Prod.mk.inj (Except.ok.inj hok)
              exact ⟨l, h, Or.inl ⟨rfl, rfl⟩⟩
          | true =>
              cases r with
              | none => exact absurd hok (mmResize_true_ne_none hsmall hk hnext)
              | some n =>
                  obtain ⟨l', hstrung, hmem, hflags, hext, _⟩ :=
                    h.move hstart hstop hm hused hsmall hk hnext hok
                  exact ⟨l', hstrung, Or.inr ⟨n, rfl, hmem, hflags, hext⟩⟩

end Resize

end Mm
end Elks
