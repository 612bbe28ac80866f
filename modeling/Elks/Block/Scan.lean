import Elks.Block.Genhd

/-!
# The cache during the partition scan

What the scan reads through the cache, drive by drive.  `Cell` is a valid buffer
of block 0 of a minor device, with the bytes of some sector; `Cells` says that the
cache has no others, and `Kept` that it has lost none of them, which holds as
long as there are buffers nobody has used (`Plenty`).

* `outcome_read`: a record is read through a minor not yet used; or the driver
  refuses to.
* `outcome_reread`: a record is read through a minor that has a valid buffer, and
  comes out of the cache.
* `outcome_release`: the end of a record.
-/

namespace Elks
namespace Genhd

open Lib Buffer

/-- `dev` is a minor device of drive `u`. -/
def OfDrive (u dev : Nat) : Prop :=
  dev / 2 ^ 6 = 12 + u

theorem ofDrive_mkdev {u m : Nat} (hm : m / 2 ^ 6 = u) : OfDrive u (mkdev 3 m) := by
  unfold OfDrive mkdev
  omega

theorem mkdev_inj {m m' : Nat} (h : mkdev 3 m = mkdev 3 m') : m = m' := by
  unfold mkdev at h
  omega

theorem minorOf_mkdev {m : Nat} (hm : m < 2 ^ 8) : minorOf (mkdev 3 m) = m := by
  unfold minorOf mkdev
  omega

theorem major_mkdev {m : Nat} (hm : m < 2 ^ 8) : major (mkdev 3 m) = 3 := by
  unfold major mkdev
  omega

/-- Buffer `b` is up to date for block 0 of minor `m`, with the bytes at sector
`s`. -/
structure Cell (bytes : Nat → UInt8) (m : Nat) (s : SectorT) (c : Buffers)
    (b : Bh) : Prop where
  dev : (c.buffers b).bDev = mkdev 3 m
  blocknr : (c.buffers b).bBlocknr = 0
  uptodate : (c.buffers b).bUptodate = true
  content : c.content b = blockFrom bytes s

/-- The buffers of drive `u` are for block 0 of minors below `bound`, and those
up to date are in `L`. -/
structure Cells (u : Nat) (bytes : Nat → UInt8) (bound : Nat)
    (L : List (Nat × SectorT)) (c : Buffers) : Prop where
  blocknr : ∀ b, OfDrive u (c.buffers b).bDev → (c.buffers b).bBlocknr = 0
  below : ∀ b, OfDrive u (c.buffers b).bDev →
    (c.buffers b).bDev < mkdev 3 bound
  unique : ∀ b b', OfDrive u (c.buffers b).bDev →
    (c.buffers b).bDev = (c.buffers b').bDev → b = b'
  seg : ∀ b, OfDrive u (c.buffers b).bDev → (c.buffers b).bSeg = c.ds
  valid : ∀ b, OfDrive u (c.buffers b).bDev → (c.buffers b).bUptodate = true →
    ∃ x ∈ L, Cell bytes x.1 x.2 c b

/-- A buffer that has not been used since `buffer_init`. -/
structure Fresh (c : Buffers) (b : Bh) : Prop where
  bare : (c.buffers b).bare = (freshHead b).bare
  unmapped : (c.buffers b).bData = none

/-- The LRU list begins with `n` buffers nobody has used. -/
def Plenty (n : Nat) (c : Buffers) : Prop :=
  c.lru.Nodup ∧ ∃ F O, c.lru = F ++ O ∧ n ≤ F.length ∧ ∀ b ∈ F, Fresh c b

/-- Everything in `L` is in the cache, with `n` buffers to go. -/
structure Kept (bytes : Nat → UInt8) (n : Nat) (L : List (Nat × SectorT))
    (c : Buffers) : Prop where
  plenty : Plenty n c
  present : ∀ x ∈ L, ∃ b, Cell bytes x.1 x.2 c b

section Same

variable {u bound n : Nat} {bytes : Nat → UInt8} {L : List (Nat × SectorT)}
  {c c' : Buffers} {held mapped : Finset Bh} {bh b : Bh}

/-- Tags and contents are the same. -/
structure SameCells (c c' : Buffers) : Prop where
  dev : ∀ b, (c'.buffers b).bDev = (c.buffers b).bDev
  blocknr : ∀ b, (c'.buffers b).bBlocknr = (c.buffers b).bBlocknr
  uptodate : ∀ b, (c'.buffers b).bUptodate = (c.buffers b).bUptodate
  seg : ∀ b, (c'.buffers b).bSeg = (c.buffers b).bSeg
  content : ∀ b, c'.content b = c.content b
  ds : c'.ds = c.ds

theorem SameCells.cell (h : SameCells c c') {m : Nat} {s : SectorT} {b : Bh}
    (hb : Cell bytes m s c b) :
    Cell bytes m s c' b where
  dev := (h.dev b).trans hb.dev
  blocknr := (h.blocknr b).trans hb.blocknr
  uptodate := (h.uptodate b).trans hb.uptodate
  content := (h.content b).trans hb.content

theorem SameCells.cells (h : SameCells c c') (hc : Cells u bytes bound L c) :
    Cells u bytes bound L c' where
  blocknr := by
    intro b hb
    rw [h.dev] at hb
    rw [h.blocknr]
    exact hc.blocknr b hb
  below := by
    intro b hb
    rw [h.dev] at hb ⊢
    exact hc.below b hb
  unique := by
    intro b b' hb hbb
    rw [h.dev] at hb hbb
    rw [h.dev] at hbb
    exact hc.unique b b' hb hbb
  seg := by
    intro b hb
    rw [h.dev] at hb
    rw [h.seg, h.ds]
    exact hc.seg b hb
  valid := by
    intro b hb hup
    rw [h.dev] at hb
    rw [h.uptodate] at hup
    obtain ⟨x, hx, hcell⟩ := hc.valid b hb hup
    exact ⟨x, hx, h.cell hcell⟩

theorem sameCells_of_flags
    (hflags : ∀ b, ∃ k,
      SameFlags { c.buffers b with bCount := k } (c'.buffers b))
    (hcontent : ∀ b, c'.content b = c.content b)
    (hds : c'.ds = c.ds) :
    SameCells c c' := by
  refine ⟨?_, ?_, ?_, ?_, hcontent, hds⟩
  all_goals
    intro b
    obtain ⟨k, hk⟩ := hflags b
  · exact hk.dev
  · exact hk.blocknr
  · exact hk.uptodate
  · exact hk.seg

theorem sameCells_of_core_eq (h : c'.core = c.core) : SameCells c c' := by
  refine sameCells_of_flags ?_ ?_ (congrArg Core.ds h)
  · intro b
    exact ⟨(c.buffers b).bCount,
      sameFlags_of_bare (congrFun (congrArg Core.heads h) b)⟩
  · exact congrFun (congrArg Core.content h)

theorem sameCells_of_core {k : Nat}
    (h : c'.core = c.core.setHead bh fun h => { h with bCount := k }) : SameCells c c' := by
  refine sameCells_of_flags ?_ ?_ (congrArg Core.ds h)
  · intro b
    have hhead := congrFun (congrArg Core.heads h) b
    rcases eq_or_ne b bh with rfl | hb
    · simp only [Core.setHead, Function.update_self] at hhead
      exact ⟨k, sameFlags_of_bare hhead⟩
    · simp only [Core.setHead, Function.update_of_ne hb] at hhead
      exact ⟨(c.buffers b).bCount, sameFlags_of_bare hhead⟩
  · exact congrFun (congrArg Core.content h)

theorem SameCells.trans {c'' : Buffers} (h : SameCells c c') (h' : SameCells c' c'') :
    SameCells c c'' where
  dev := fun b => (h'.dev b).trans (h.dev b)
  blocknr := fun b => (h'.blocknr b).trans (h.blocknr b)
  uptodate := fun b => (h'.uptodate b).trans (h.uptodate b)
  seg := fun b => (h'.seg b).trans (h.seg b)
  content := fun b => (h'.content b).trans (h.content b)
  ds := h'.ds.trans h.ds

theorem fresh_besides (h : Besides bh c c') (hb : b ≠ bh) (hfresh : Fresh c b) :
    Fresh c' b :=
  ⟨(h.bare b hb).trans hfresh.bare, h.away b hb hfresh.unmapped⟩

theorem Fresh.ne_held (hs : Steady held mapped c) (hbh : bh ∈ held) (hfresh : Fresh c b) :
    b ≠ bh := by
  rintro rfl
  have hcount := hs.count b
  rw [(sameFlags_of_bare hfresh.bare).count, if_pos hbh] at hcount
  cases hcount

theorem Kept.sameCells (hk : Kept bytes n L c) (hs : Steady held mapped c) (hbh : bh ∈ held)
    (h : Besides bh c c') (hcells : SameCells c c') (hlru : c'.lru = c.lru) :
    Kept bytes n L c' := by
  obtain ⟨⟨hnodup, F, O, hl, hn, hF⟩, hpresent⟩ := hk
  refine ⟨⟨hlru ▸ hnodup, F, O, hlru.trans hl, hn, ?_⟩, ?_⟩
  · intro b hb
    exact fresh_besides h ((hF b hb).ne_held hs hbh) (hF b hb)
  · intro x hx
    obtain ⟨b, hb⟩ := hpresent x hx
    exact ⟨b, hcells.cell hb⟩

end Same

section Load

variable {u bound m n : Nat} {bytes : Nat → UInt8} {L : List (Nat × SectorT)}
  {c c' : Buffers} {bh b : Bh} {s : SectorT}

theorem Cell.besides {m' : Nat} {s' : SectorT}
    (hb : Cell bytes m' s' c b) (h : Besides bh c c') (hne : b ≠ bh) : Cell bytes m' s' c' b := by
  have hflags := h.flags hne
  exact ⟨hflags.dev.trans hb.dev, hflags.blocknr.trans hb.blocknr,
    hflags.uptodate.trans hb.uptodate, (h.content b hne).trans hb.content⟩

theorem cell_loaded (h : Loaded (mkdev 3 m) 0 bh c c') (hio : c.ioError (mkdev 3 m) 0 = false)
    (hdisk : c.disk (mkdev 3 m) 0 = blockFrom bytes s) :
    Cell bytes m s c' bh where
  dev := h.tag.1
  blocknr := h.tag.2
  uptodate := by
    rw [h.uptodate, hio]
    rfl
  content := (h.content hio).trans hdisk

theorem Cells.load {L' : List (Nat × SectorT)} (hc : Cells u bytes bound L c) (hbound : bound ≤ m)
    (h : Loaded (mkdev 3 m) 0 bh c c') (hsub : L ⊆ L')
    (hown : (c'.buffers bh).bUptodate = true →
      ∃ x ∈ L', Cell bytes x.1 x.2 c' bh) :
    Cells u bytes (m + 1) L' c' := by
  have hb := h.besides
  have hlow : ∀ b, OfDrive u (c.buffers b).bDev →
      (c.buffers b).bDev ≠ mkdev 3 m := by
    intro b hdrive heq
    have hlt := hc.below b hdrive
    rw [heq] at hlt
    unfold mkdev at hlt
    omega
  constructor
  · intro b hdrive
    rcases eq_or_ne b bh with rfl | hne
    · exact h.tag.2
    · rw [(hb.flags hne).dev] at hdrive
      rw [(hb.flags hne).blocknr]
      exact hc.blocknr b hdrive
  · intro b hdrive
    rcases eq_or_ne b bh with rfl | hne
    · rw [h.tag.1]
      unfold mkdev
      omega
    · rw [(hb.flags hne).dev] at hdrive ⊢
      have hlt := hc.below b hdrive
      unfold mkdev at hlt ⊢
      omega
  · intro b b' hdrive heq
    rcases eq_or_ne b bh with rfl | hne <;> rcases eq_or_ne b' b with rfl | hne'
    · rfl
    · rw [(hb.flags hne').dev, h.tag.1] at heq
      have hdrive' : OfDrive u (c.buffers b').bDev := by
        rw [← heq, ← h.tag.1]
        exact hdrive
      exact absurd heq.symm (hlow b' hdrive')
    · rfl
    · rw [(hb.flags hne).dev] at hdrive heq
      rcases eq_or_ne b' bh with rfl | hne''
      · rw [h.tag.1] at heq
        exact absurd heq (hlow b hdrive)
      · rw [(hb.flags hne'').dev] at heq
        exact hc.unique b b' hdrive heq
  · intro b hdrive
    rcases eq_or_ne b bh with rfl | hne
    · rw [h.seg, hb.ds]
    · rw [(hb.flags hne).dev] at hdrive
      rw [(hb.flags hne).seg, hb.ds]
      exact hc.seg b hdrive
  · intro b hdrive hup
    rcases eq_or_ne b bh with rfl | hne
    · exact hown hup
    · rw [(hb.flags hne).dev] at hdrive
      rw [(hb.flags hne).uptodate] at hup
      obtain ⟨x, hx, hcell⟩ := hc.valid b hdrive hup
      exact ⟨x, hsub hx, hcell.besides hb hne⟩

theorem putLastLru_head {l : List Bh} (hl : c.lru = bh :: l) (hnodup : c.lru.Nodup) :
    (c.putLastLru bh).lru = l ++ [bh] := by
  unfold Buffers.putLastLru
  rw [hl] at hnodup
  rw [hl]
  cases l with
  | nil => simp [hl]
  | cons a l =>
      have hnot : bh ∉ a :: l := (List.nodup_cons.mp hnodup).1
      have hlast : (bh :: a :: l).getLast? ≠ some bh := by
        rw [List.getLast?_cons_cons]
        intro h
        exact hnot (List.mem_of_getLast? h)
      rw [if_neg hlast]
      simp

theorem Fresh.free (h : Fresh c b) : c.free b = true := by
  have hflags := sameFlags_of_bare h.bare
  simp [Buffers.free, hflags.count, hflags.dirty, hflags.lock, h.unmapped,
    freshHead]

theorem Kept.load {dev block : Nat} (hk : Kept bytes (n + 1) L c)
    (hfree : c.lru.find? c.free = some bh) (h : Loaded dev block bh c c') : Kept bytes n L c' := by
  obtain ⟨⟨hnodup, F, O, hl, hn, hF⟩, hpresent⟩ := hk
  obtain ⟨f, F, rfl⟩ : ∃ f F', F = f :: F' := by
    cases F with
    | nil => cases hn
    | cons f F => exact ⟨f, F, rfl⟩
  have hfresh := hF f List.mem_cons_self
  have hbh : bh = f := by
    rw [hl, List.cons_append, List.find?_cons_of_pos hfresh.free] at hfree
    exact (Option.some.inj hfree).symm
  subst hbh
  have hhead : (c.putLastLru bh).lru = F ++ O ++ [bh] :=
    putLastLru_head hl hnodup
  have hlru : c'.lru = F ++ (O ++ [bh]) := by
    rw [h.lru, hhead, List.append_assoc]
  have hnot : bh ∉ F ++ O := by
    rw [hl] at hnodup
    exact (List.nodup_cons.mp hnodup).1
  refine ⟨⟨?_, F, O ++ [bh], hlru, ?_, ?_⟩, ?_⟩
  · rw [hlru, ← List.append_assoc]
    rw [hl] at hnodup
    have hrest : (F ++ O).Nodup := (List.nodup_cons.mp hnodup).2
    exact hrest.append (List.nodup_singleton bh) (by simpa using hnot)
  · simpa using hn
  · intro b hb
    have hne : b ≠ bh := by
      rintro rfl
      exact hnot (List.mem_append_left O hb)
    exact fresh_besides h.besides hne (hF b (List.mem_cons_of_mem _ hb))
  · intro x hx
    obtain ⟨b, hb⟩ := hpresent x hx
    have hne : b ≠ bh := by
      rintro rfl
      have hup := hb.uptodate
      rw [(sameFlags_of_bare hfresh.bare).uptodate] at hup
      cases hup
    exact ⟨b, hb.besides h.besides hne⟩

theorem Kept.mono {k : Nat} (hk : Kept bytes n L c) (hkn : k ≤ n) : Kept bytes k L c := by
  obtain ⟨⟨hnodup, F, O, hl, hn, hF⟩, hpresent⟩ := hk
  exact ⟨⟨hnodup, F, O, hl, hkn.trans hn, hF⟩, hpresent⟩

theorem Kept.push (hk : Kept bytes n L c) (hcell : Cell bytes m s c bh) :
    Kept bytes n (L ++ [(m, s)]) c := by
  refine ⟨hk.plenty, ?_⟩
  intro x hx
  rcases List.mem_append.mp hx with hx | hx
  · exact hk.present x hx
  · rw [List.mem_singleton.mp hx]
    exact ⟨bh, hcell⟩

end Load

/-- The state between two records: `held` are the buffers in use. -/
structure Scanning (u : Nat) (bytes : Nat → UInt8) (held : Finset Bh)
    (bound : Nat) (L : List (Nat × SectorT)) (g : Drives) : Prop where
  steady : Steady held held g.cache
  polled : g.cache.requestFn 3 = .polled
  drive : g.drive u = bytes
  cells : Cells u bytes bound L g.cache

section Calls

variable {u bound m n fuel : Nat} {bytes : Nat → UInt8}
  {L : List (Nat × SectorT)} {g : Drives} {held mapped : Finset Bh} {bh : Bh}
  {Q : Option (Bh × Block) → Drives → Prop} {A : Fault → Prop} {c : Buffers} {s : SectorT}

theorem view_sameCells (g : Drives) : SameCells g.cache g.view where
  dev := fun _ => rfl
  blocknr := fun _ => rfl
  uptodate := fun _ => rfl
  seg := fun _ => rfl
  content := fun _ => rfl
  ds := rfl

theorem view_steady (h : Steady held mapped g.cache) :
    Steady held mapped g.view where
  quiet := ⟨⟨h.quiet.twoLevel.map_iff, h.quiet.twoLevel.num⟩, h.quiet.queue,
    h.quiet.inactive, h.quiet.lru⟩
  clean := h.clean
  unlocked := h.unlocked
  count := h.count
  mapcount := h.mapcount

theorem view_kept (h : Kept bytes n L g.cache) : Kept bytes n L g.view := by
  obtain ⟨⟨hnodup, F, O, hl, hn, hF⟩, hpresent⟩ := h
  refine ⟨⟨hnodup, F, O, hl, hn, fun b hb => ?_⟩, fun x hx => ?_⟩
  · exact ⟨(hF b hb).bare, (hF b hb).unmapped⟩
  · obtain ⟨b, hb⟩ := hpresent x hx
    exact ⟨b, (view_sameCells g).cell hb⟩

theorem view_block (hm : m / 2 ^ 6 = u) (hu : u < 4) (hdrive : g.drive u = bytes) :
    g.view.ioError (mkdev 3 m) 0 = refuses (g.part m) 0 ∧
      g.view.disk (mkdev 3 m) 0 = blockFrom bytes (g.part m).startSect := by
  have hlt : m < 2 ^ 8 := by omega
  constructor
  · simp [Drives.view, major_mkdev hlt, minorOf_mkdev hlt, bioshdGendisk]
  · have hunit : m / 64 = u := hm
    simp [Drives.view, major_mkdev hlt, minorOf_mkdev hlt, bioshdGendisk, hunit,
      hdrive]

theorem outcome_cacheCall {α : Type} {p : Code α} {R : α → Buffers → Prop} {Q : α → Drives → Prop}
    (hp : Prog.Runs p g.view R) (hQ : ∀ a c, R a c → Q a { g with cache := c }) :
    Outcome A (cacheCall p) g Q := by
  obtain ⟨a, c, hrun, hR⟩ := hp.run_eq
  unfold Outcome cacheCall
  rw [hrun]
  exact hQ a c hR

/-- What mapping a buffer of the drives leaves of the cache. -/
structure MappedIn (held : Finset Bh) (bh : Bh) (g : Drives) (c : Buffers) : Prop where
  steady : Steady (insert bh held) (insert bh held) c
  besides : Besides bh g.view c
  same : SameCells g.view c
  lru : c.lru = g.cache.lru

theorem outcome_map (hs : Steady (insert bh held) held g.cache)
    (hseg : (g.cache.buffers bh).bSeg = g.cache.ds)
    (hbh : bh ∉ held) (hcard : held.card < nrMapbufs - 1)
    (hQ : ∀ c, MappedIn held bh g c →
      Q (some (bh, g.cache.content bh)) { g with cache := c }) :
    Outcome A (do
      cacheCall (mapBuffer (fuel + 2) bh)
      let data ← bData bh
      pure (some (bh, data))) g Q := by
  have hseg' : (g.view.buffers bh).bSeg = g.view.ds := hseg
  refine Outcome.bind (R := fun _ g' => ∃ c, g' = { g with cache := c } ∧
      MappedIn held bh g c ∧
      c.deref (c.buffers bh).bData = g.cache.content bh)
    (outcome_cacheCall (mapBuffer_steady fuel (view_steady hs) hcard hseg' hbh) ?_) ?_
  · rintro _ c ⟨hsteady, hbesides, hcore, hlru, hbytes⟩
    exact ⟨c, rfl, ⟨hsteady, hbesides, sameCells_of_core_eq hcore, hlru⟩, hbytes⟩
  · rintro _ g' ⟨c, rfl, hmapped, hbytes⟩
    unfold bData
    refine Outcome.bind (R := fun b g' => b = c.deref (c.buffers bh).bData ∧
      g' = { g with cache := c }) (Outcome.reads ?_ ?_) ?_
    · intro b hb
      exact ⟨(Except.ok.inj hb).symm, rfl⟩
    · intro e he
      cases he
    · rintro b g' ⟨rfl, rfl⟩
      rw [hbytes]
      exact Outcome.pure (hQ c hmapped)

theorem MappedIn.sameCells (h : MappedIn held bh g c) :
    SameCells g.cache c :=
  (view_sameCells g).trans h.same

theorem MappedIn.kept {k : Nat} {L' : List (Nat × SectorT)} (h : MappedIn held bh g c)
    (hs : Steady (insert bh held) held g.cache) (hk : Kept bytes k L' g.cache) :
    Kept bytes k L' c :=
  (view_kept hk).sameCells (view_steady hs) (Finset.mem_insert_self bh held)
    h.besides h.same h.lru

theorem outcome_mapRecord (hs : Steady (insert bh held) held g.cache)
    (hpolled : g.cache.requestFn 3 = .polled) (hdrive : g.drive u = bytes)
    (hcells : Cells u bytes bound L g.cache) (hm : m / 2 ^ 6 = u)
    (hbh : bh ∉ held) (hcard : held.card < nrMapbufs - 1) (hcell : Cell bytes m s g.cache bh)
    (hQ : ∀ c, Scanning u bytes (insert bh held) bound L { g with cache := c } →
      (∀ m' s' b, Cell bytes m' s' g.cache b → Cell bytes m' s' c b) →
      (∀ k L', Kept bytes k L' g.cache → Kept bytes k L' c) →
      Q (some (bh, blockFrom bytes s)) { g with cache := c }) :
    Outcome A (do
      cacheCall (mapBuffer (fuel + 2) bh)
      let data ← bData bh
      pure (some (bh, data))) g Q := by
  have hown : OfDrive u (g.cache.buffers bh).bDev := by
    rw [hcell.dev]
    exact ofDrive_mkdev hm
  refine outcome_map hs (hcells.seg bh hown) hbh hcard ?_
  intro c hmapped
  rw [hcell.content]
  refine hQ c ⟨hmapped.steady, ?_, hdrive, hmapped.sameCells.cells hcells⟩ ?_ ?_
  · exact (congrFun hmapped.besides.requestFn 3).trans hpolled
  · intro m' s' b hb
    exact hmapped.sameCells.cell hb
  · intro k L' hk
    exact hmapped.kept hs hk

theorem outcome_readNew (hs : Steady held held g.cache) (hpolled : g.cache.requestFn 3 = .polled)
    (hdrive : g.drive u = bytes) (hm : m / 2 ^ 6 = u) (hu : u < 4)
    (hcard : held.card < nrMapbufs - 1) (hnew : ∀ b, (g.cache.buffers b).bDev ≠ mkdev 3 m)
    (hnone : refuses (g.part m) 0 = true → ∀ bh c,
      g.cache.lru.find? g.cache.free = some bh → bh ∉ held → Steady held held c →
      Loaded (mkdev 3 m) 0 bh g.view c → Q none { g with cache := c })
    (hsome : refuses (g.part m) 0 = false → ∀ bh c c',
      g.cache.lru.find? g.cache.free = some bh → bh ∉ held →
      Steady (insert bh held) held c →
      Loaded (mkdev 3 m) 0 bh g.view c →
      Cell bytes m (g.part m).startSect c bh →
      MappedIn held bh { g with cache := c } c' →
      Q (some (bh, blockFrom bytes (g.part m).startSect))
        { g with cache := c' }) :
    Outcome A (readRecord fuel (mkdev 3 m)) g Q := by
  obtain ⟨hio, hdisk⟩ := view_block hm hu hdrive
  have hmajor : major (mkdev 3 m) = 3 := major_mkdev (by omega)
  have hheld : held.card < nrBuffers - nrMapbufs :=
    hcard.trans (by decide)
  have hnew' : ∀ b, ¬((g.view.buffers b).bDev = mkdev 3 m ∧
      (g.view.buffers b).bBlocknr = 0) := fun b h => hnew b h.1
  have hbread := bread_new fuel (view_steady hs) (Finset.Subset.refl held)
    hheld hcard hnew' (by rw [hmajor]; decide) (by rw [hmajor]; exact hpolled)
  unfold readRecord
  rw [hio] at hbread
  cases hrefused : refuses (g.part m) 0 with
  | true =>
      rw [hrefused] at hbread
      refine Outcome.bind (R := fun found g' => found = none ∧
        Q none g') (outcome_cacheCall hbread ?_) ?_
      · rintro found c ⟨bh, hfree, hbh, rfl, hsteady, hload⟩
        exact ⟨rfl, hnone hrefused bh c hfree hbh hsteady hload⟩
      · rintro found g' ⟨rfl, hQ⟩
        exact Outcome.pure hQ
  | false =>
      rw [hrefused] at hbread
      refine Outcome.bind (R := fun found g' => ∃ bh c, found = some bh ∧
        g' = { g with cache := c } ∧ g.cache.lru.find? g.cache.free = some bh ∧
        bh ∉ held ∧ Steady (insert bh held) held c ∧
        Loaded (mkdev 3 m) 0 bh g.view c) (outcome_cacheCall hbread ?_) ?_
      · rintro found c ⟨bh, hfree, hbh, rfl, hsteady, hload⟩
        exact ⟨bh, c, rfl, rfl, hfree, hbh, hsteady, hload⟩
      · rintro found g' ⟨bh, c, rfl, rfl, hfree, hbh, hsteady, hload⟩
        have hcell : Cell bytes m (g.part m).startSect c bh :=
          cell_loaded hload (hio.trans hrefused) hdisk
        refine outcome_map (g := { g with cache := c }) hsteady
          (hload.seg.trans hload.besides.ds.symm) hbh hcard ?_
        intro c' hmapped
        rw [hcell.content]
        exact hsome hrefused bh c c' hfree hbh hsteady hload hcell hmapped

theorem outcome_read (hg : Scanning u bytes held bound L g)
    (hm : m / 2 ^ 6 = u) (hu : u < 4) (hbound : bound ≤ m) (hcard : held.card < nrMapbufs - 1)
    (hnone : refuses (g.part m) 0 = true → ∀ c,
      Scanning u bytes held (m + 1) L { g with cache := c } →
      (∀ k, Kept bytes (k + 1) L g.cache → Kept bytes k L c) →
      Q none { g with cache := c })
    (hsome : refuses (g.part m) 0 = false → ∀ bh c, bh ∉ held →
      Scanning u bytes (insert bh held) (m + 1)
        (L ++ [(m, (g.part m).startSect)]) { g with cache := c } →
      Cell bytes m (g.part m).startSect c bh →
      (∀ k, Kept bytes (k + 1) L g.cache →
        Kept bytes k (L ++ [(m, (g.part m).startSect)]) c) →
      Q (some (bh, blockFrom bytes (g.part m).startSect))
        { g with cache := c }) :
    Outcome A (readRecord fuel (mkdev 3 m)) g Q := by
  have hio := (view_block (g := g) hm hu rfl).1
  have hnew : ∀ b, (g.cache.buffers b).bDev ≠ mkdev 3 m := by
    intro b hdev
    have hown : OfDrive u (g.cache.buffers b).bDev := by
      rw [hdev]
      exact ofDrive_mkdev hm
    have hlt := hg.cells.below b hown
    rw [hdev] at hlt
    unfold mkdev at hlt
    omega
  refine outcome_readNew hg.steady hg.polled hg.drive hm hu hcard hnew ?_ ?_
  · intro hrefused bh c hfree _ hsteady hload
    refine hnone hrefused c ⟨hsteady, ?_, hg.drive, ?_⟩ ?_
    · exact (congrFun hload.besides.requestFn 3).trans hg.polled
    · refine ((view_sameCells g).cells hg.cells).load hbound hload
        (List.Subset.refl L) ?_
      intro hup
      rw [hload.uptodate, hio, hrefused] at hup
      cases hup
    · intro k hk
      exact (view_kept hk).load hfree hload
  · intro hread bh c c' hfree hbh hsteady hload hcell hmapped
    have hcells : Cells u bytes (m + 1) (L ++ [(m, (g.part m).startSect)]) c := by
      refine ((view_sameCells g).cells hg.cells).load hbound hload
        (List.subset_append_left L _) ?_
      intro _
      exact ⟨(m, (g.part m).startSect), by simp, hcell⟩
    have hpolled : c.requestFn 3 = .polled :=
      (congrFun hload.besides.requestFn 3).trans hg.polled
    refine hsome hread bh c' hbh ⟨hmapped.steady, ?_, hg.drive,
      hmapped.sameCells.cells hcells⟩ (hmapped.sameCells.cell hcell) ?_
    · exact (congrFun hmapped.besides.requestFn 3).trans hpolled
    · intro k hk
      have hkept : Kept bytes k (L ++ [(m, (g.part m).startSect)]) c :=
        ((view_kept hk).load hfree hload).push hcell
      exact hmapped.kept hsteady hkept

theorem outcome_reread (hg : Scanning u bytes held bound L g) (hm : m / 2 ^ 6 = u)
    (hcard : held.card < nrMapbufs - 1) (hbh : bh ∉ held) (hcell : Cell bytes m s g.cache bh)
    (hQ : ∀ c, Scanning u bytes (insert bh held) bound L { g with cache := c } →
      Cell bytes m s c bh →
      Q (some (bh, blockFrom bytes s)) { g with cache := c }) :
    Outcome A (readRecord fuel (mkdev 3 m)) g Q := by
  have hown : OfDrive u (g.cache.buffers bh).bDev := by
    rw [hcell.dev]
    exact ofDrive_mkdev hm
  have huniq : ∀ b, (g.view.buffers b).bDev = mkdev 3 m →
      (g.view.buffers b).bBlocknr = 0 → b = bh := by
    intro b hdev _
    exact (hg.cells.unique bh b hown (hcell.dev.trans hdev.symm)).symm
  have hbread := bread_cached fuel (view_steady hg.steady)
    ⟨hcell.dev, hcell.blocknr⟩ huniq hcell.uptodate hbh
  unfold readRecord
  refine Outcome.bind (R := fun found g' => ∃ c, found = some bh ∧
    g' = { g with cache := c } ∧ Steady (insert bh held) held c ∧
    Besides bh g.view c ∧ SameCells g.cache c) (outcome_cacheCall hbread ?_) ?_
  · rintro found c ⟨rfl, hsteady, hbesides, hcore, -⟩
    exact ⟨c, rfl, rfl, hsteady, hbesides,
      (view_sameCells g).trans (sameCells_of_core hcore)⟩
  · rintro found g' ⟨c, rfl, rfl, hsteady, hbesides, hsame⟩
    refine outcome_mapRecord (g := { g with cache := c }) hsteady
      ((congrFun hbesides.requestFn 3).trans hg.polled) hg.drive
      (hsame.cells hg.cells) hm hbh hcard (hsame.cell hcell) ?_
    intro c' hscan hcells _
    exact hQ c' hscan (hcells _ _ _ (hsame.cell hcell))

theorem outcome_release {Q : Unit → Drives → Prop}
    (hg : Scanning u bytes (insert bh held) bound L g) (hbh : bh ∉ held)
    (hQ : ∀ c, Scanning u bytes held bound L { g with cache := c } →
      (∀ m' s' b, Cell bytes m' s' g.cache b → Cell bytes m' s' c b) →
      (∀ k L', Kept bytes k L' g.cache → Kept bytes k L' c) →
      Q () { g with cache := c }) :
    Outcome A (cacheCall (unmapBrelse (fuel + 2) bh)) g Q := by
  have hmem : bh ∈ insert bh held := Finset.mem_insert_self bh held
  refine outcome_cacheCall
    (unmapBrelse_runs (fuel + 2) (view_steady hg.steady) hmem hmem) ?_
  rintro _ c ⟨hsteady, hbesides, hlru, hcore⟩
  rw [Finset.erase_insert hbh] at hsteady
  have hcells : SameCells g.view c := sameCells_of_core hcore
  have hsame : SameCells g.cache c := (view_sameCells g).trans hcells
  refine hQ c ⟨hsteady, ?_, hg.drive, hsame.cells hg.cells⟩ ?_ ?_
  · exact (congrFun hbesides.requestFn 3).trans hg.polled
  · intro m' s' b hb
    exact hsame.cell hb
  · intro k L' hk
    exact (view_kept hk).sameCells (view_steady hg.steady) hmem hbesides hcells
      hlru

end Calls

end Genhd
end Elks
