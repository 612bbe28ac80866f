import Elks.Block.Walk
import Elks.Buffer.Ahead

/-!
# The partition scan between two records

`Ready` is the state of the scan of a drive on any disk.  The scan of a chain may
leave its last record in the cache as block 0 of the current minor, and a later chain
then gets that record instead of its own; the buffer is not taken away meanwhile,
since there are free ones ahead of it in the LRU list.

* `outcome_readPrimary`, `outcome_readCurrent`: a record is read through the minor of
  an extended partition, or through the current one.
* `outcome_record`: what the loop does with a record, to its release.
* `outcome_linked`: a round of the loop.
-/

namespace Elks
namespace Genhd

open Lib Buffer

/-- The buffers of drive `u` are for block 0, one of a minor, of the minors below
`bound` and of those of logical partitions up to `c`. -/
structure Tags (u bound c : Nat) (s : Buffers) : Prop where
  blocknr : ∀ b, OfDrive u (s.buffers b).bDev → (s.buffers b).bBlocknr = 0
  unique : ∀ b b', OfDrive u (s.buffers b).bDev →
    (s.buffers b).bDev = (s.buffers b').bDev → b = b'
  seg : ∀ b, OfDrive u (s.buffers b).bDev → (s.buffers b).bSeg = s.ds
  used : ∀ b m, m / 2 ^ 6 = u → (s.buffers b).bDev = mkdev 3 m →
    m < bound ∨ u * 2 ^ 6 + 5 ≤ m ∧ m ≤ c

/-- What the cache has for block 0 of minor `c`, with `guard` free buffers ahead; it
is in none of the buffers of `base`. -/
structure Current (bytes : Nat → UInt8) (base : Finset Bh) (c guard : Nat)
    (cached : Option SectorT) (s : Buffers) : Prop where
  apart : ∀ b, (s.buffers b).bDev = mkdev 3 c → b ∉ base
  ahead : ∀ b, (s.buffers b).bDev = mkdev 3 c → guard ≤ s.ahead b
  valid : ∀ sector, cached = some sector → ∃ b, Cell bytes c sector s b
  stale : cached = none → ∀ b, (s.buffers b).bDev = mkdev 3 c →
    (s.buffers b).bUptodate = false

/-- The state of the scan: `held` are the buffers in use, `mapped` the mapped ones,
`base` those in use between two records, and the primary minors from `bound` on have
not been read. -/
structure Ready (u : Nat) (bytes : Nat → UInt8) (base held mapped : Finset Bh)
    (bound guard : Nat) (l : Left) (g : Drives) : Prop where
  steady : Steady held mapped g.cache
  nodup : g.cache.lru.Nodup
  polled : g.cache.requestFn 3 = .polled
  drive : g.drive u = bytes
  minors : g.currentMinor + l.minors = (u + 1) * 2 ^ 6
  tags : Tags u bound g.currentMinor g.cache
  current : 0 < l.minors →
    Current bytes base g.currentMinor guard l.cached g.cache

section Cache

variable {u bound c m guard fuel : Nat} {bytes : Nat → UInt8}
  {base held mapped : Finset Bh} {l : Left} {g : Drives} {s s' : Buffers} {bh : Bh} {cached : Option SectorT}
  {A : Fault → Prop}

theorem Tags.same (h : Tags u bound c s) (hsame : SameCells s s') :
    Tags u bound c s' where
  blocknr := by
    intro b hb
    rw [hsame.dev] at hb
    rw [hsame.blocknr]
    exact h.blocknr b hb
  unique := by
    intro b b' hb heq
    rw [hsame.dev] at hb heq
    rw [hsame.dev] at heq
    exact h.unique b b' hb heq
  seg := by
    intro b hb
    rw [hsame.dev] at hb
    rw [hsame.seg, hsame.ds]
    exact h.seg b hb
  used := by
    intro b m hm hb
    rw [hsame.dev] at hb
    exact h.used b m hm hb

theorem Current.same (h : Current bytes base c guard cached s) (hsame : SameCells s s')
    (hahead : ∀ b, (s.buffers b).bDev = mkdev 3 c → s.ahead b ≤ s'.ahead b) :
    Current bytes base c guard cached s' where
  apart := by
    intro b hb
    rw [hsame.dev] at hb
    exact h.apart b hb
  ahead := by
    intro b hb
    rw [hsame.dev] at hb
    exact (h.ahead b hb).trans (hahead b hb)
  valid := by
    intro sector hs
    obtain ⟨b, hb⟩ := h.valid sector hs
    exact ⟨b, hsame.cell hb⟩
  stale := by
    intro hs b hb
    rw [hsame.dev] at hb
    rw [hsame.uptodate]
    exact h.stale hs b hb

theorem Tags.filled (h : Tags u bound c s) (hfill : Filled (mkdev 3 m) 0 bh s s')
    (hother : ∀ b, b ≠ bh → (s.buffers b).bDev ≠ mkdev 3 m) {bound' : Nat} (hbound : bound ≤ bound')
    (hused : m < bound' ∨ u * 2 ^ 6 + 5 ≤ m ∧ m ≤ c) : Tags u bound' c s' := by
  have hb := hfill.besides
  constructor
  · intro b hdrive
    rcases eq_or_ne b bh with rfl | hne
    · exact hfill.tag.2
    · rw [(hb.flags hne).dev] at hdrive
      rw [(hb.flags hne).blocknr]
      exact h.blocknr b hdrive
  · intro b b' hdrive heq
    rcases eq_or_ne b bh with rfl | hne
    · by_contra hbb
      rw [(hb.flags (Ne.symm hbb)).dev, hfill.tag.1] at heq
      exact hother b' (Ne.symm hbb) heq.symm
    · rw [(hb.flags hne).dev] at hdrive heq
      rcases eq_or_ne b' bh with rfl | hne'
      · rw [hfill.tag.1] at heq
        exact absurd heq (hother b hne)
      · rw [(hb.flags hne').dev] at heq
        exact h.unique b b' hdrive heq
  · intro b hdrive
    rcases eq_or_ne b bh with rfl | hne
    · rw [hfill.seg, hb.ds]
    · rw [(hb.flags hne).dev] at hdrive
      rw [(hb.flags hne).seg, hb.ds]
      exact h.seg b hdrive
  · intro b m' hm' hdev
    rcases eq_or_ne b bh with rfl | hne
    · rw [hfill.tag.1] at hdev
      rw [← mkdev_inj hdev]
      exact hused
    · rw [(hb.flags hne).dev] at hdev
      have hold := h.used b m' hm' hdev
      omega

theorem Current.filled (hfill : Filled (mkdev 3 c) 0 bh s s')
    (hother : ∀ b, b ≠ bh → (s.buffers b).bDev ≠ mkdev 3 c) (hbase : bh ∉ base)
    (hahead : guard ≤ s'.ahead bh)
    (hvalid : ∀ sector, cached = some sector → Cell bytes c sector s' bh)
    (hstale : cached = none → s.ioError (mkdev 3 c) 0 = true) :
    Current bytes base c guard cached s' := by
  have hown : ∀ b, (s'.buffers b).bDev = mkdev 3 c → b = bh := by
    intro b hdev
    by_contra hne
    rw [(hfill.besides.flags hne).dev] at hdev
    exact hother b hne hdev
  constructor
  · intro b hdev
    rw [hown b hdev]
    exact hbase
  · intro b hdev
    rw [hown b hdev]
    exact hahead
  · intro sector hs
    exact ⟨bh, hvalid sector hs⟩
  · intro hs b hdev
    rw [hown b hdev, hfill.uptodate, hstale hs]
    rfl

theorem Current.load (h : Current bytes base c (guard + 1) cached s)
    (hload : Loaded (mkdev 3 m) 0 bh s s') (hmc : m ≠ c) (hfree : s.lru.find? s.free = some bh)
    (hl : s.lru.Nodup) (hall : ∀ b, b ∈ s.lru) : Current bytes base c guard cached s' := by
  have hne : ∀ b, (s.buffers b).bDev = mkdev 3 c → b ≠ bh := by
    intro b hdev
    have hahead := h.ahead b hdev
    exact (taken_ne hfree (by omega)).symm
  have hdev : ∀ b, (s'.buffers b).bDev = mkdev 3 c →
      b ≠ bh ∧ (s.buffers b).bDev = mkdev 3 c := by
    intro b hb
    have hbh : b ≠ bh := by
      rintro rfl
      rw [hload.tag.1] at hb
      exact hmc (mkdev_inj hb)
    rw [(hload.besides.flags hbh).dev] at hb
    exact ⟨hbh, hb⟩
  constructor
  · intro b hb
    exact h.apart b (hdev b hb).2
  · intro b hb
    obtain ⟨hbh, hb⟩ := hdev b hb
    have hlow := h.ahead b hb
    have hstep := ahead_load hload.besides hload.lru hl hall hbh.symm
    omega
  · intro sector hs
    obtain ⟨b, hcell⟩ := h.valid sector hs
    exact ⟨b, hcell.besides hload.besides (hne b hcell.dev)⟩
  · intro hs b hb
    obtain ⟨hbh, hb⟩ := hdev b hb
    rw [(hload.besides.flags hbh).uptodate]
    exact h.stale hs b hb

theorem Ready.step {held' mapped' : Finset Bh} (hg : Ready u bytes base held mapped bound guard l g)
    (hsteady : Steady held' mapped' s) (hsame : SameCells g.cache s)
    (hbesides : Besides bh g.view s) (hl : s.lru.Nodup)
    (hahead : ∀ b, (g.cache.buffers b).bDev = mkdev 3 g.currentMinor →
      g.view.ahead b ≤ s.ahead b) :
    Ready u bytes base held' mapped' bound guard l { g with cache := s } where
  steady := hsteady
  nodup := hl
  polled := (congrFun hbesides.requestFn 3).trans hg.polled
  drive := hg.drive
  minors := hg.minors
  tags := hg.tags.same hsame
  current := fun h => (hg.current h).same hsame hahead

theorem outcome_unmapBrelse {Q : Unit → Drives → Prop}
    (hg : Ready u bytes base (insert bh held) (insert bh held) bound guard l g) (hbh : bh ∉ held)
    (hQ : ∀ s, Ready u bytes base held held bound guard l { g with cache := s } →
      Q () { g with cache := s }) :
    Outcome A (cacheCall (unmapBrelse (fuel + 2) bh)) g Q := by
  have hmem : bh ∈ insert bh held := Finset.mem_insert_self bh held
  have hview := view_steady hg.steady
  refine outcome_cacheCall (unmapBrelse_runs (fuel + 2) hview hmem hmem) ?_
  rintro _ s ⟨hsteady, hbesides, hlru, hcore⟩
  rw [Finset.erase_insert hbh] at hsteady
  refine hQ s (hg.step hsteady ((view_sameCells g).trans (sameCells_of_core hcore))
    hbesides ?_ ?_)
  · rw [hlru]
    exact hg.nodup
  · intro b _
    exact ahead_besides hbesides hlru (Or.inr (hview.busy hmem))

theorem Ready.map (hg : Ready u bytes base (insert bh held) held bound guard l g)
    (hmapped : MappedIn held bh g s) :
    Ready u bytes base (insert bh held) (insert bh held) bound guard l
      { g with cache := s } := by
  refine hg.step hmapped.steady hmapped.sameCells hmapped.besides ?_ ?_
  · rw [hmapped.lru]
    exact hg.nodup
  · intro b _
    exact ahead_besides hmapped.besides hmapped.lru
      (Or.inr ((view_steady hg.steady).busy (Finset.mem_insert_self bh held)))

theorem Ready.fill {held' : Finset Bh} {bound' guard' : Nat} {l' : Left}
    (hg : Ready u bytes base held held bound guard l g) (hsteady : Steady held' held s)
    (hfill : Filled (mkdev 3 m) 0 bh g.view s) (hl : s.lru.Nodup)
    (hother : ∀ b, b ≠ bh → (g.cache.buffers b).bDev ≠ mkdev 3 m) (hbound : bound ≤ bound')
    (hused : m < bound' ∨ u * 2 ^ 6 + 5 ≤ m ∧ m ≤ g.currentMinor) (hleft : l'.minors = l.minors)
    (hcurrent : 0 < l.minors →
      Current bytes base g.currentMinor guard' l'.cached s) :
    Ready u bytes base held' held bound' guard' l' { g with cache := s } where
  steady := hsteady
  nodup := hl
  polled := (congrFun hfill.besides.requestFn 3).trans hg.polled
  drive := hg.drive
  minors := by
    rw [hleft]
    exact hg.minors
  tags := (hg.tags.same (view_sameCells g)).filled hfill hother hbound hused
  current := by
    intro h
    rw [hleft] at h
    exact hcurrent h

theorem outcome_readPrimary {Q : Option (Bh × Block) → Drives → Prop}
    (hg : Ready u bytes base held held bound (guard + 1) l g)
    (hm : m / 2 ^ 6 = u) (hu : u < 4) (hbound : bound ≤ m) (hprimary : m < u * 2 ^ 6 + 5)
    (hbelow : m < g.currentMinor) (hcard : held.card < nrMapbufs - 1)
    (hnone : refuses (g.part m) 0 = true → ∀ s,
      Ready u bytes base held held (m + 1) guard l { g with cache := s } →
      Q none { g with cache := s })
    (hsome : refuses (g.part m) 0 = false → ∀ bh s, bh ∉ held →
      Ready u bytes base (insert bh held) (insert bh held) (m + 1) guard l
        { g with cache := s } →
      Q (some (bh, blockFrom bytes (g.part m).startSect)) { g with cache := s }) :
    Outcome A (readRecord fuel (mkdev 3 m)) g Q := by
  have hnew : ∀ b, (g.cache.buffers b).bDev ≠ mkdev 3 m := by
    intro b hdev
    have := hg.tags.used b m hm hdev
    omega
  have hload : ∀ bh s held', g.cache.lru.find? g.cache.free = some bh →
      Steady held' held s → Loaded (mkdev 3 m) 0 bh g.view s →
      Ready u bytes base held' held (m + 1) guard l { g with cache := s } := by
    intro bh s held' hfree hsteady hload
    refine hg.fill hsteady hload.toFilled ?_ (fun b _ => hnew b) (by omega)
      (Or.inl (by omega)) rfl ?_
    · rw [hload.lru]
      exact nodup_putLastLru hg.nodup
    intro h
    have hcurrent : Current bytes base g.currentMinor (guard + 1) l.cached g.view :=
      (hg.current h).same (view_sameCells g) fun _ _ => le_rfl
    exact hcurrent.load hload (by omega) hfree hg.nodup hg.steady.quiet.lru
  refine outcome_readNew hg.steady hg.polled hg.drive hm hu hcard hnew ?_ ?_
  · intro hrefused bh s hfree _ hsteady hl
    exact hnone hrefused s (hload bh s held hfree hsteady hl)
  · intro hread bh s s' hfree hbh hsteady hl _ hmapped
    exact hsome hread bh s' hbh ((hload bh s _ hfree hsteady hl).map hmapped)

theorem outcome_readCurrent {Q : Option (Bh × Block) → Drives → Prop}
    (hg : Ready u bytes base base base bound guard l g)
    (hu : u < 4) (hl : 0 < l.minors) (hlow : u * 2 ^ 6 + 5 ≤ g.currentMinor) (hguard : guard ≤ 4)
    (hcard : base.card < nrMapbufs - 1)
    (hnone : l.cached = none → refuses (g.part g.currentMinor) 0 = true → ∀ s,
      Ready u bytes base base base bound guard l { g with cache := s } →
      Q none { g with cache := s })
    (hsome : ∀ sector, Reads l (g.part g.currentMinor) sector →
      ∀ bh s, bh ∉ base →
      Ready u bytes base (insert bh base) (insert bh base) bound guard
        ⟨l.minors, some sector⟩ { g with cache := s } →
      Q (some (bh, blockFrom bytes sector)) { g with cache := s }) :
    Outcome A (readRecord fuel (mkdev 3 g.currentMinor)) g Q := by
  have hminors := hg.minors
  have hm : g.currentMinor / 2 ^ 6 = u := by omega
  have hcurrent := hg.current hl
  have hown : ∀ b, (g.cache.buffers b).bDev = mkdev 3 g.currentMinor →
      OfDrive u (g.cache.buffers b).bDev := by
    intro b hdev
    rw [hdev]
    exact ofDrive_mkdev hm
  obtain ⟨hio, hdisk⟩ := view_block hm hu hg.drive
  have hmajor : major (mkdev 3 g.currentMinor) = 3 := major_mkdev (by omega)
  cases hcached : l.cached with
  | some sector =>
      obtain ⟨bh, hcell⟩ := hcurrent.valid sector hcached
      have hbh : bh ∉ base := hcurrent.apart bh hcell.dev
      have huniq : ∀ b, (g.view.buffers b).bDev = mkdev 3 g.currentMinor →
          (g.view.buffers b).bBlocknr = 0 → b = bh := by
        intro b hdev _
        exact (hg.tags.unique bh b (hown bh hcell.dev)
          (hcell.dev.trans hdev.symm)).symm
      have hbread := bread_cached fuel (view_steady hg.steady)
        ⟨hcell.dev, hcell.blocknr⟩ huniq hcell.uptodate hbh
      unfold readRecord
      refine Outcome.bind (R := fun found g' => ∃ s, found = some bh ∧
        g' = { g with cache := s } ∧ Cell bytes g.currentMinor sector s bh ∧
        Ready u bytes base (insert bh base) base bound guard l g')
        (outcome_cacheCall hbread ?_) ?_
      · rintro found s ⟨rfl, hsteady, hbesides, hcore, hlru⟩
        have hsame := (view_sameCells g).trans (sameCells_of_core hcore)
        refine ⟨s, rfl, rfl, hsame.cell hcell, hg.step hsteady hsame hbesides ?_ ?_⟩
        · rw [hlru]
          exact nodup_putLastLru hg.nodup
        · intro b hdev
          rw [huniq b hdev (hg.tags.blocknr b (hown b hdev))]
          exact ahead_touch hbesides hlru hg.nodup
      · rintro found g' ⟨s, rfl, rfl, hcell', hs⟩
        refine outcome_map hs.steady (hs.tags.seg bh ?_) hbh hcard ?_
        · rw [hcell'.dev]
          exact ofDrive_mkdev hm
        · intro s' hmapped
          rw [hcell'.content]
          have hleft : (⟨l.minors, some sector⟩ : Left) = l := by
            rw [← hcached]
          have hready := hs.map hmapped
          rw [← hleft] at hready
          exact hsome sector (Or.inl hcached) bh s' hbh hready
  | none =>
      by_cases hexists : ∃ b, (g.cache.buffers b).bDev = mkdev 3 g.currentMinor
      · obtain ⟨bh, hdev⟩ := hexists
        have hbh : bh ∉ base := hcurrent.apart bh hdev
        have huniq : ∀ b, (g.view.buffers b).bDev = mkdev 3 g.currentMinor →
            b = bh := by
          intro b hb
          exact (hg.tags.unique bh b (hown bh hdev) (hdev.trans hb.symm)).symm
        have hother : ∀ b, b ≠ bh →
            (g.view.buffers b).bDev ≠ mkdev 3 g.currentMinor :=
          fun b hne hb => hne (huniq b hb)
        have hbread := bread_stale fuel (view_steady hg.steady)
          (Finset.Subset.refl base) hcard
          ⟨hdev, hg.tags.blocknr bh (hown bh hdev)⟩ (fun b hb _ => huniq b hb)
          (hcurrent.stale hcached bh hdev) (hg.tags.seg bh (hown bh hdev)) hbh
          (by rw [hmajor]; decide) (by rw [hmajor]; exact hg.polled)
        have hahead : ∀ s, Besides bh g.view s → s.lru = g.view.lru →
            guard ≤ s.ahead bh := by
          intro s hbesides hlru
          have h : g.view.ahead bh ≤ s.ahead bh :=
            ahead_besides hbesides hlru (Or.inl rfl)
          exact (hcurrent.ahead bh hdev).trans h
        rw [hio] at hbread
        unfold readRecord
        cases hrefused : refuses (g.part g.currentMinor) 0 with
        | true =>
            rw [hrefused] at hbread
            refine Outcome.bind (R := fun found g' => found = none ∧ Q none g')
              (outcome_cacheCall hbread ?_) ?_
            · rintro found s ⟨rfl, hsteady, hfill, hlru⟩
              refine ⟨rfl, hnone hcached hrefused s ?_⟩
              refine hg.fill hsteady hfill ?_ hother le_rfl
                (Or.inr ⟨hlow, le_rfl⟩) rfl ?_
              · rw [hlru]
                exact hg.nodup
              · intro _
                refine Current.filled hfill hother hbh
                  (hahead s hfill.besides hlru) ?_ fun _ => hio.trans hrefused
                intro sector hsector
                rw [hcached] at hsector
                cases hsector
            · rintro found g' ⟨rfl, hQ⟩
              exact Outcome.pure hQ
        | false =>
            rw [hrefused] at hbread
            refine Outcome.bind (R := fun found g' => ∃ s, found = some bh ∧
              g' = { g with cache := s } ∧
              s.content bh = blockFrom bytes (g.part g.currentMinor).startSect ∧
              (s.buffers bh).bSeg = s.ds ∧
              Ready u bytes base (insert bh base) base bound guard
                ⟨l.minors, some (g.part g.currentMinor).startSect⟩ g')
              (outcome_cacheCall hbread ?_) ?_
            · rintro found s ⟨rfl, hsteady, hfill, hlru⟩
              have hcontent := (hfill.content (hio.trans hrefused)).trans hdisk
              refine ⟨s, rfl, rfl, hcontent, hfill.seg.trans hfill.besides.ds.symm,
                ?_⟩
              refine hg.fill hsteady hfill ?_ hother le_rfl
                (Or.inr ⟨hlow, le_rfl⟩) rfl ?_
              · rw [hlru]
                exact hg.nodup
              · intro _
                refine Current.filled hfill hother hbh
                  (hahead s hfill.besides hlru) ?_ ?_
                · intro sector hsector
                  obtain rfl := Option.some.inj hsector
                  refine ⟨hfill.tag.1, hfill.tag.2, ?_, hcontent⟩
                  rw [hfill.uptodate, hio, hrefused]
                  rfl
                · intro h
                  cases h
            · rintro found g' ⟨s, rfl, rfl, hcontent, hseg, hs⟩
              refine outcome_map hs.steady hseg hbh hcard ?_
              intro s' hmapped
              rw [hcontent]
              exact hsome _ (Or.inr ⟨hcached, hrefused, rfl⟩) bh s' hbh
                (hs.map hmapped)
      · have hnew : ∀ b, (g.cache.buffers b).bDev ≠ mkdev 3 g.currentMinor :=
          fun b hb => hexists ⟨b, hb⟩
        have hload : ∀ bh s held' cached, bh ∉ base →
            Steady held' base s →
            Loaded (mkdev 3 g.currentMinor) 0 bh g.view s →
            (∀ sector, cached = some sector →
              Cell bytes g.currentMinor sector s bh) →
            (cached = none → refuses (g.part g.currentMinor) 0 = true) →
            Ready u bytes base held' base bound guard ⟨l.minors, cached⟩
              { g with cache := s } := by
          intro bh s held' cached hbh hsteady hload hvalid hstale
          refine hg.fill hsteady hload.toFilled ?_ (fun b _ => hnew b) le_rfl
            (Or.inr ⟨hlow, le_rfl⟩) rfl ?_
          · rw [hload.lru]
            exact nodup_putLastLru hg.nodup
          · intro _
            have hahead := ahead_loaded hload.besides hload.lru
              (view_steady hg.steady) hg.nodup
            refine Current.filled hload.toFilled (fun b _ => hnew b) hbh ?_ hvalid
              fun h => hio.trans (hstale h)
            unfold nrBuffers nrMapbufs at *
            omega
        refine outcome_readNew hg.steady hg.polled hg.drive hm hu hcard hnew ?_ ?_
        · intro hrefused bh s _ hbh hsteady hl
          have hready := hload bh s base l.cached hbh hsteady hl ?_ fun _ => hrefused
          · exact hnone hcached hrefused s hready
          · intro sector hsector
            rw [hcached] at hsector
            cases hsector
        · intro hread bh s s' _ hbh hsteady hl hcell hmapped
          refine hsome _ (Or.inr ⟨hcached, hread, rfl⟩) bh s' hbh
            ((hload bh s _ _ hbh hsteady hl ?_ ?_).map hmapped)
          · intro sector hsector
            obtain rfl := Option.some.inj hsector
            exact hcell
          · intro h
            cases h

end Cache

/-- Only the entries of logical partitions of drive `u` may have changed. -/
structure Grown (u : Nat) (g g' : Drives) : Prop where
  part : ∀ m, m < u * 2 ^ 6 + 5 ∨ (u + 1) * 2 ^ 6 ≤ m → g'.part m = g.part m
  sizes : g'.sizes = g.sizes

theorem Grown.trans {u : Nat} {g g' g'' : Drives} (h : Grown u g g') (h' : Grown u g' g'') :
    Grown u g g'' where
  part := fun m hm => (h'.part m hm).trans (h.part m hm)
  sizes := h'.sizes.trans h.sizes

section Turn

variable {bytes : Nat → UInt8} {box h h' : HdStruct} {l l₁ : Left}
  {s this this' : SectorT} {next : Option HdStruct}

theorem turn_left (ht : turn bytes box l s this = (l₁, next))
    (hl : 0 < l.minors) (hless : ¬l₁.minors < l.minors) : l₁ = l := by
  unfold turn at ht
  dsimp only at ht
  split at ht
  · exact (Prod.mk.inj ht).1.symm
  · split at ht
    · obtain rfl := (Prod.mk.inj ht).1
      exact absurd hl hless
    · rename_i hfull
      obtain rfl := (Prod.mk.inj ht).1
      have hzero : (accepted box this (blockFrom bytes s)).length = 0 := by
        unfold Left.use at hless
        dsimp only at hless
        omega
      rw [hzero]
      rfl

theorem turn_le (ht : turn bytes box l s this = (l₁, next)) : l₁.minors ≤ l.minors := by
  unfold turn at ht
  dsimp only at ht
  split at ht
  · rw [(Prod.mk.inj ht).1]
  · split at ht
    · rw [← (Prod.mk.inj ht).1]
      exact Nat.zero_le _
    · rw [← (Prod.mk.inj ht).1]
      exact Nat.sub_le _ _

theorem turn_link {l₂ : Left} (ht : turn bytes box l s this = (l₁, some h))
    (ht' : turn bytes box l s this' = (l₂, some h')) : h = h' := by
  have hlink : ∀ t l' k, turn bytes box l s t = (l', some k) →
      (links box (blockFrom bytes s)).head? = some k := by
    intro t l' k hk
    unfold turn at hk
    dsimp only at hk
    split at hk
    · cases (Prod.mk.inj hk).2
    · split at hk
      · cases (Prod.mk.inj hk).2
      · exact (Prod.mk.inj hk).2
  exact Option.some.inj ((hlink _ _ _ ht).symm.trans (hlink _ _ _ ht'))

end Turn

section Chain

variable {u bound e guard fuel rounds : Nat} {bytes : Nat → UInt8}
  {base held mapped : Finset Bh} {l : Left} {g : Drives} {bh : Bh}
  {box h : HdStruct} {A : Fault → Prop} {Q : Unit → Drives → Prop}

theorem Ready.tables {g' : Drives} (hg : Ready u bytes base held mapped bound guard l g)
    (hcache : g'.cache = g.cache) (hdrive : g'.drive = g.drive)
    (hcurrent : g'.currentMinor = g.currentMinor) :
    Ready u bytes base held mapped bound guard l g' where
  steady := hcache ▸ hg.steady
  nodup := hcache ▸ hg.nodup
  polled := hcache ▸ hg.polled
  drive := hdrive ▸ hg.drive
  minors := hcurrent ▸ hg.minors
  tags := by
    rw [hcache, hcurrent]
    exact hg.tags
  current := by
    rw [hcache, hcurrent]
    exact hg.current

theorem Ready.mono {bound' guard' : Nat} (hg : Ready u bytes base held mapped bound guard l g)
    (hbound : bound ≤ bound') (hguard : guard' ≤ guard) :
    Ready u bytes base held mapped bound' guard' l g where
  steady := hg.steady
  nodup := hg.nodup
  polled := hg.polled
  drive := hg.drive
  minors := hg.minors
  tags := by
    refine ⟨hg.tags.blocknr, hg.tags.unique, hg.tags.seg, ?_⟩
    intro b m hm hdev
    have := hg.tags.used b m hm hdev
    omega
  current := by
    intro hl
    have hold := hg.current hl
    exact ⟨hold.apart, fun b hb => hguard.trans (hold.ahead b hb), hold.valid,
      hold.stale⟩

theorem Ready.enterAll {l' : Left} {ds : List HdStruct}
    (hg : Ready u bytes base held mapped bound guard l g)
    (hbound : bound ≤ u * 2 ^ 6 + 5) (hlow : u * 2 ^ 6 + 5 ≤ g.currentMinor)
    (hminors : l'.minors = l.minors - ds.length)
    (hsame : ds = [] → l' = l) (hcached : ds ≠ [] → l'.cached = none)
    (hlen : ds.length ≤ l.minors) :
    Ready u bytes base held mapped bound guard l' (g.enterAll ds) := by
  rcases ds with _ | ⟨d, ds⟩
  · rw [hsame rfl]
    exact hg
  · have hold := hg.minors
    refine ⟨?_, ?_, ?_, ?_, ?_, ?_, ?_⟩
    · rw [enterAll_cache]
      exact hg.steady
    · rw [enterAll_cache]
      exact hg.nodup
    · rw [enterAll_cache]
      exact hg.polled
    · rw [enterAll_drive]
      exact hg.drive
    · rw [enterAll_currentMinor, hminors]
      omega
    · rw [enterAll_cache, enterAll_currentMinor]
      refine ⟨hg.tags.blocknr, hg.tags.unique, hg.tags.seg, ?_⟩
      intro b m hm hdev
      have := hg.tags.used b m hm hdev
      omega
    · intro hl'
      rw [enterAll_cache, enterAll_currentMinor, hcached (List.cons_ne_nil _ _)]
      -- nothing has been read through the minors that are left
      have hnew : ∀ b, (g.cache.buffers b).bDev ≠
          mkdev 3 (g.currentMinor + (d :: ds).length) := by
        intro b hdev
        have hused := hg.tags.used b _ (by omega) hdev
        rw [List.length_cons] at hused
        omega
      constructor
      · intro b hdev
        exact absurd hdev (hnew b)
      · intro b hdev
        exact absurd hdev (hnew b)
      · intro sector hsector
        cases hsector
      · intro _ b hdev
        exact absurd hdev (hnew b)

theorem enterAll_grown {ds : List HdStruct} (hlow : u * 2 ^ 6 + 5 ≤ g.currentMinor)
    (hhigh : g.currentMinor + ds.length ≤ (u + 1) * 2 ^ 6) :
    Grown u g (g.enterAll ds) where
  part := by
    intro m hm
    exact enterAll_part (by omega)
  sizes := enterAll_sizes g ds

theorem aim_grown (hlow : u * 2 ^ 6 + 5 ≤ g.currentMinor)
    (hhigh : g.currentMinor < (u + 1) * 2 ^ 6) :
    Grown u g (g.aim h) where
  part := by
    intro m hm
    have hne : m ≠ g.currentMinor := by omega
    simp only [Drives.aim, Function.update_of_ne hne]
  sizes := rfl

theorem outcome_record {s this : SectorT}
    (hg : Ready u bytes base (insert bh base) (insert bh base) bound guard l g)
    (hbh : bh ∉ base) (hbound : bound ≤ u * 2 ^ 6 + 5)
    (hl : 0 < l.minors) (hl' : l.minors ≤ minorLimit) (hbox : (g.part e).nrSects = box.nrSects)
    (hQ : ∀ g', Ready u bytes base base base bound guard
        (turn bytes box l s this).1 g' → Grown u g g' →
      (∀ h, (turn bytes box l s this).2 = some h →
        0 < (turn bytes box l s this).1.minors ∧ g'.part g'.currentMinor = h) →
      Outcome A (afterRecord fuel e box rounds
        ((turn bytes box l s this).2.map (·.startSect))) g' Q) :
    Outcome A (do
      let next ← extendedRecord bioshdGendisk e box.startSect box.nrSects this
        (blockFrom bytes s)
      cacheCall (unmapBrelse (fuel + 2) bh)
      afterRecord fuel e box rounds next) g Q := by
  have hminors := hg.minors
  have hlimit : minorLimit = 59 := rfl
  have hlow : u * 2 ^ 6 + 5 ≤ g.currentMinor := by omega
  obtain ⟨ds, hleft, hsame, hcached, hlen, hroom, hrun⟩ :=
    extendedRecord_run (e := e) (s := s) (u := u) hminors hl hl' hbox
  have hready := hg.enterAll hbound hlow hleft hsame hcached hlen
  have hgrown : Grown u g (g.enterAll ds) := enterAll_grown hlow (by omega)
  unfold Outcome
  rw [run_bind_ok hrun]
  generalize turn bytes box l s this = t at *
  obtain ⟨l₁, _ | h⟩ := t
  · refine Outcome.bind (R := fun _ g' => ∃ c,
        g' = { g.enterAll ds with cache := c } ∧
        Ready u bytes base base base bound guard l₁ g')
      (outcome_unmapBrelse hready hbh fun c hc => ⟨c, rfl, hc⟩) ?_
    rintro _ g' ⟨c, rfl, hc⟩
    refine hQ _ hc ⟨hgrown.part, hgrown.sizes⟩ ?_
    intro h hh
    cases hh
  · have hmore : ds.length < l.minors := hroom (by simp)
    have hcurrent : (g.enterAll ds).currentMinor = g.currentMinor + ds.length :=
      enterAll_currentMinor g ds
    have haim : Grown u (g.enterAll ds) ((g.enterAll ds).aim h) :=
      aim_grown (by omega) (by omega)
    have hready' : Ready u bytes base (insert bh base) (insert bh base) bound guard
        l₁ ((g.enterAll ds).aim h) := hready.tables rfl rfl rfl
    refine Outcome.bind (R := fun _ g' => ∃ c,
        g' = { (g.enterAll ds).aim h with cache := c } ∧
        Ready u bytes base base base bound guard l₁ g')
      (outcome_unmapBrelse hready' hbh fun c hc => ⟨c, rfl, hc⟩) ?_
    rintro _ g' ⟨c, rfl, hc⟩
    have hall := hgrown.trans haim
    refine hQ _ hc ⟨hall.part, hall.sizes⟩ ?_
    intro h' hh'
    obtain rfl := Option.some.inj hh'
    refine ⟨?_, Function.update_self _ _ _⟩
    dsimp only at hleft ⊢
    omega

theorem outcome_linked (hg : Ready u bytes base base base bound guard l g)
    (hu : u < 4) (hbound : bound ≤ u * 2 ^ 6 + 5) (hguard : guard ≤ 4)
    (hcard : base.card < nrMapbufs - 1) (hl : 0 < l.minors) (hl' : l.minors ≤ minorLimit)
    (hpart : g.part g.currentMinor = h) (hbox : (g.part e).nrSects = box.nrSects)
    (hnone : l.cached = none → refuses h 0 = true → ∀ g',
      Ready u bytes base base base bound guard l g' → Grown u g g' → Q () g')
    (hsome : ∀ s, Reads l h s → ∀ g',
      Ready u bytes base base base bound guard
        (turn bytes box ⟨l.minors, some s⟩ s h.startSect).1 g' → Grown u g g' →
      (∀ h', (turn bytes box ⟨l.minors, some s⟩ s h.startSect).2 = some h' →
        0 < (turn bytes box ⟨l.minors, some s⟩ s h.startSect).1.minors ∧
          g'.part g'.currentMinor = h') →
      Outcome A (afterRecord fuel e box rounds
        ((turn bytes box ⟨l.minors, some s⟩ s h.startSect).2.map (·.startSect)))
        g' Q) :
    Outcome A (extendedLoop bioshdGendisk fuel e box.startSect box.nrSects
      (rounds + 1) (mkdev 3 g.currentMinor) h.startSect) g Q := by
  subst hpart
  have hminors := hg.minors
  have hlimit : minorLimit = 59 := rfl
  have hlast : lastMinor bioshdGendisk g.currentMinor = false :=
    lastMinor_eq_false.mpr (by omega)
  unfold Outcome
  rw [extendedLoop_succ fuel e box rounds _ _ hlast]
  refine Outcome.bind (R := fun found g₁ =>
      (found = none ∧ Q () g₁) ∨
      ∃ s bh c, found = some (bh, blockFrom bytes s) ∧ g₁ = { g with cache := c } ∧
        Reads l (g.part g.currentMinor) s ∧ bh ∉ base ∧
        Ready u bytes base (insert bh base) (insert bh base) bound guard
          ⟨l.minors, some s⟩ g₁)
    (outcome_readCurrent hg hu hl (by omega) hguard hcard ?_ ?_) ?_
  · intro hcached hrefused c hc
    exact Or.inl ⟨rfl, hnone hcached hrefused _ hc ⟨fun _ _ => rfl, rfl⟩⟩
  · intro s hs bh c hbh hc
    exact Or.inr ⟨s, bh, c, rfl, rfl, hs, hbh, hc⟩
  · rintro found g₁ (⟨rfl, hQ⟩ | ⟨s, bh, c, rfl, rfl, hs, hbh, hc⟩)
    · exact Outcome.pure hQ
    · refine outcome_record hc hbh hbound hl hl' hbox ?_
      intro g' hg' hgrown hnext
      exact hsome s hs g' hg' ⟨hgrown.part, hgrown.sizes⟩ hnext

end Chain

end Genhd
end Elks
