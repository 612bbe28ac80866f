import Elks.Block.Ready

/-!
# When the partition scan ends

The scan of a drive ends exactly on disks on which no chain of extended records comes
back to where it was (`NoDeadLink`), and what it writes is in the drive's own part of
the tables (`msdosPartition_settles_iff`).

* `outcome_stuck`: the loop reads a record without end that uses up no minor.
* `outcome_walk`: the loop does what `walk` says.
* `outcome_walkBox`, `outcome_walkTable`: the same for an extended partition, and for
  the entries of a table.
-/

namespace Elks
namespace Genhd

open Lib Buffer

section Chain

variable {u bound e guard fuel rounds k : Nat} {bytes : Nat → UInt8}
  {base : Finset Bh} {l : Left} {g : Drives} {box h : HdStruct}
  {A : Fault → Prop}

/-- A record that uses up no minor, once it has been read as the one it links to, is
read again and again. -/
theorem outcome_stuck {s : SectorT}
    (hu : u < 4) (hbound : bound ≤ u * 2 ^ 6 + 5) (hguard : guard ≤ 4)
    (hcard : base.card < nrMapbufs - 1) (he : e < u * 2 ^ 6 + 5)
    (hl : 0 < l.minors) (hl' : l.minors ≤ minorLimit) (hcached : l.cached = some s)
    (hturn : turn bytes box l s h.startSect = (l, some h)) :
    ∀ rounds g, Ready u bytes base base base bound guard l g →
      g.part g.currentMinor = h → (g.part e).nrSects = box.nrSects →
      Outcome (fun _ => True) (extendedLoop bioshdGendisk fuel e box.startSect
        box.nrSects rounds (mkdev 3 g.currentMinor) h.startSect) g
        fun _ _ => False := by
  intro rounds
  induction rounds with
  | zero =>
      intro g _ _ _
      exact trivial
  | succ rounds ih =>
      intro g hg hpart hbox
      have hself : (⟨l.minors, some s⟩ : Left) = l := by
        rw [← hcached]
      refine outcome_linked hg hu hbound hguard hcard hl hl' hpart hbox ?_ ?_
      · intro hnone
        rw [hcached] at hnone
        cases hnone
      · intro s' hs' g' hg' hgrown hnext
        obtain rfl : s = s' := by
          rcases hs' with hs' | ⟨hs', -⟩
          · exact Option.some.inj (hcached.symm.trans hs')
          · rw [hcached] at hs'
            cases hs'
        rw [hself, hturn] at hg' hnext ⊢
        have hafter := afterRecord_some (g := g') fuel e box rounds h.startSect rfl
        unfold Outcome
        rw [Option.map_some, hafter]
        refine ih g' hg' (hnext h rfl).2 ?_
        rw [hgrown.part e (Or.inl he)]
        exact hbox

/-- **The loop does what `walk` says.** -/
theorem outcome_walk (hu : u < 4) (hbound : bound ≤ u * 2 ^ 6 + 5) (hguard : guard ≤ 4)
    (hcard : base.card < nrMapbufs - 1) (he : e < u * 2 ^ 6 + 5) :
    ∀ k l h g rounds, Ready u bytes base base base bound guard l g →
      0 < l.minors → l.minors ≤ minorLimit → l.minors ≤ k →
      g.part g.currentMinor = h → (g.part e).nrSects = box.nrSects →
      (2 * l.minors ≤ rounds ∨ A .endless) →
      (walk bytes box k l h = none → ∀ f, A f) →
      Outcome A (extendedLoop bioshdGendisk fuel e box.startSect box.nrSects rounds
        (mkdev 3 g.currentMinor) h.startSect) g fun _ g' =>
          ∃ r, walk bytes box k l h = some r ∧ r.minors ≤ l.minors ∧
            Ready u bytes base base base bound guard r g' ∧ Grown u g g' := by
  intro k
  induction k with
  | zero =>
      intro l h g rounds _ hl _ hk
      omega
  | succ k ih =>
      intro l h g rounds hg hl hl' hk hpart hbox hrounds hnone
      obtain _ | rounds := rounds
      · exact hrounds.resolve_left (by omega)
      refine outcome_linked hg hu hbound hguard hcard hl hl' hpart hbox ?_ ?_
      · intro hcached hrefused g' hg' hgrown
        refine ⟨l, ?_, le_rfl, hg', hgrown⟩
        rw [walk, if_pos ⟨hcached, hrefused⟩]
      · intro s hs g₁ hg₁ hgrown₁ hnext₁
        have hbox₁ : (g₁.part e).nrSects = box.nrSects := by
          rw [hgrown₁.part e (Or.inl he)]
          exact hbox
        rcases ht : turn bytes box ⟨l.minors, some s⟩ s h.startSect with
          ⟨l₁, _ | h₁⟩
        · rw [ht] at hg₁
          have hle : l₁.minors ≤ (⟨l.minors, some s⟩ : Left).minors := turn_le ht
          exact Outcome.pure ⟨l₁, hs.walk_end ht, hle, hg₁, hgrown₁⟩
        · rw [ht] at hg₁ hnext₁
          obtain ⟨hl₁, hpart₁⟩ := hnext₁ h₁ rfl
          dsimp only at hg₁ hl₁
          rw [Option.map_some]
          unfold Outcome
          rw [afterRecord_some fuel e box rounds _ rfl]
          by_cases hless : l₁.minors < l.minors
          · rw [hs.walk_on ht hless] at hnone
            refine Outcome.mono (ih l₁ h₁ g₁ rounds hg₁ hl₁ (by omega) (by omega)
              hpart₁ hbox₁ (hrounds.imp_left (by omega)) hnone) ?_
            rintro _ g' ⟨r, hr, hle, hg', hgrown⟩
            exact ⟨r, (hs.walk_on ht hless).trans hr, by omega, hg',
              hgrown₁.trans hgrown⟩
          · -- the same record again, as the one it links to
            obtain rfl := turn_left ht hl hless
            obtain _ | rounds := rounds
            · exact hrounds.resolve_left (by omega)
            refine outcome_linked hg₁ hu hbound hguard hcard hl hl' hpart₁ hbox₁ ?_ ?_
            · intro hcached
              cases hcached
            · intro s' hs' g₂ hg₂ hgrown₂ hnext₂
              obtain rfl : s = s' := by
                rcases hs' with hs' | ⟨hs', -⟩
                · exact Option.some.inj hs'
                · cases hs'
              have hgrown := hgrown₁.trans hgrown₂
              have hbox₂ : (g₂.part e).nrSects = box.nrSects := by
                rw [hgrown.part e (Or.inl he)]
                exact hbox
              rcases ht' : turn bytes box ⟨l.minors, some s⟩ s h₁.startSect with
                ⟨l₂, _ | h₂⟩
              · dsimp only at hg₂
                rw [ht'] at hg₂
                have hle : l₂.minors ≤ (⟨l.minors, some s⟩ : Left).minors :=
                  turn_le ht'
                exact Outcome.pure
                  ⟨l₂, hs.walk_again_end ht hless ht', hle, hg₂, hgrown⟩
              · dsimp only at hg₂ hnext₂
                rw [ht'] at hg₂ hnext₂
                obtain ⟨hl₂, hpart₂⟩ := hnext₂ h₂ rfl
                dsimp only at hg₂ hl₂
                rw [Option.map_some]
                unfold Outcome
                rw [afterRecord_some fuel e box rounds _ rfl]
                have hwalk := hs.walk_again (k := k) ht hless ht'
                by_cases hless' : l₂.minors < l.minors
                · rw [if_pos hless'] at hwalk
                  rw [hwalk] at hnone
                  refine Outcome.mono (ih l₂ h₂ g₂ rounds hg₂ hl₂ (by omega)
                    (by omega) hpart₂ hbox₂ (hrounds.imp_left (by omega)) hnone) ?_
                  rintro _ g' ⟨r, hr, hle, hg', hgrown'⟩
                  exact ⟨r, hwalk.trans hr, by omega, hg', hgrown.trans hgrown'⟩
                · rw [if_neg hless'] at hwalk
                  obtain rfl := turn_left ht' hl hless'
                  obtain rfl := turn_link ht ht'
                  exact Outcome.imp (outcome_stuck (l := ⟨l.minors, some s⟩) hu hbound
                    hguard hcard he hl hl' rfl ht' rounds g₂ hg₂ hpart₂ hbox₂)
                    (fun f _ => hnone hwalk f) fun _ _ h => h.elim

theorem outcome_walkBox (hg : Ready u bytes base base base bound (guard + 1) l g)
    (hu : u < 4) (hbound : bound ≤ e) (hguard : guard ≤ 4) (hcard : base.card < nrMapbufs - 1)
    (hm : e / 2 ^ 6 = u) (he : e < u * 2 ^ 6 + 5) (hl' : l.minors ≤ minorLimit)
    (hbox : g.part e = box) (hrounds : 2 ^ 7 ≤ fuel ∨ A .endless)
    (hnone : walkBox bytes box l = none → ∀ f, A f) :
    Outcome A (extendedPartition bioshdGendisk fuel (mkdev 3 e)) g fun _ g' =>
      ∃ r, walkBox bytes box l = some r ∧ r.minors ≤ l.minors ∧
        Ready u bytes base base base (e + 1) guard r g' ∧ Grown u g g' := by
  subst hbox
  have hminors := hg.minors
  have hlimit : minorLimit = 59 := rfl
  have hrest : Ready u bytes base base base (e + 1) guard l g :=
    hg.mono (by omega) (by omega)
  unfold extendedPartition
  refine outcome_get_bind ?_
  dsimp only
  rw [minorOf_mkdev (by omega)]
  obtain _ | rounds := fuel
  · exact hrounds.resolve_left (by decide)
  by_cases hzero : l.minors = 0
  · have hwalk : walkBox bytes (g.part e) l = some l := if_pos (Or.inl hzero)
    have hlast : lastMinor bioshdGendisk g.currentMinor = true := by
      have h : g.currentMinor % 2 ^ 6 = 0 := by omega
      exact decide_eq_true h
    rw [extendedLoop]
    refine outcome_get_bind ?_
    rw [if_pos hlast]
    exact Outcome.pure ⟨l, hwalk, le_rfl, hrest, fun _ _ => rfl, rfl⟩
  · have hlast : lastMinor bioshdGendisk g.currentMinor = false :=
      lastMinor_eq_false.mpr (by omega)
    unfold Outcome
    rw [extendedLoop_succ (rounds + 1) e (g.part e) rounds _ _ hlast]
    refine Outcome.bind (R := fun found g₁ => ∃ c, g₁ = { g with cache := c } ∧
        (found = none ∧ refuses (g.part e) 0 = true ∧
            Ready u bytes base base base (e + 1) guard l g₁ ∨
          refuses (g.part e) 0 = false ∧
            ∃ bh, found = some (bh, blockFrom bytes (g.part e).startSect) ∧
              bh ∉ base ∧
              Ready u bytes base (insert bh base) (insert bh base) (e + 1) guard l
                g₁))
      (outcome_readPrimary hg hm hu hbound he (by omega) hcard ?_ ?_) ?_
    · intro hrefused c hc
      exact ⟨c, rfl, Or.inl ⟨rfl, hrefused, hc⟩⟩
    · intro hread bh c hbh hc
      exact ⟨c, rfl, Or.inr ⟨hread, bh, rfl, hbh, hc⟩⟩
    · rintro found g₁ ⟨c, rfl, ⟨rfl, hrefused, hc⟩ | ⟨hread, bh, rfl, hbh, hc⟩⟩
      · have hwalk : walkBox bytes (g.part e) l = some l := if_pos (Or.inr hrefused)
        exact Outcome.pure ⟨l, hwalk, le_rfl, hc, fun _ _ => rfl, rfl⟩
      · refine outcome_record hc hbh (by omega) (by omega) hl' rfl ?_
        intro g₂ hg₂ hgrown₂ hnext
        have hgrown : Grown u g g₂ := ⟨hgrown₂.part, hgrown₂.sizes⟩
        have hopen : ¬(l.minors = 0 ∨ refuses (g.part e) 0 = true) := by
          rintro (h | h)
          · exact hzero h
          · rw [hread] at h
            cases h
        rcases ht : turn bytes (g.part e) l (g.part e).startSect
          (g.part e).startSect with ⟨l₁, _ | h₁⟩
        · rw [ht] at hg₂
          have hwalk : walkBox bytes (g.part e) l = some l₁ := by
            rw [walkBox, if_neg hopen, ht]
          exact Outcome.pure ⟨l₁, hwalk, turn_le ht, hg₂, hgrown⟩
        · rw [ht] at hg₂ hnext
          obtain ⟨hl₁, hpart₁⟩ := hnext h₁ rfl
          have hle := turn_le ht
          have hwalk : walkBox bytes (g.part e) l =
              walk bytes (g.part e) l₁.minors l₁ h₁ := by
            rw [walkBox, if_neg hopen, ht]
          rw [hwalk] at hnone
          rw [Option.map_some]
          unfold Outcome
          rw [afterRecord_some (rounds + 1) e _ rounds _ rfl]
          refine Outcome.mono (outcome_walk hu (by omega) hguard hcard he l₁.minors l₁
            h₁ g₂ rounds hg₂ hl₁ (by omega) le_rfl hpart₁ ?_
            (hrounds.imp_left (by omega)) hnone) ?_
          · rw [hgrown.part e (Or.inl he)]
          · rintro _ g' ⟨r, hr, hle', hg', hgrown'⟩
            exact ⟨r, hwalk.trans hr, hle'.trans hle, hg', hgrown.trans hgrown'⟩

end Chain

/-- Only entries of drive `u` may have changed. -/
def Within (u : Nat) (g g' : Drives) : Prop :=
  ∀ m, m / 2 ^ 6 ≠ u → g'.part m = g.part m ∧ g'.sizes m = g.sizes m

section Table

variable {u e guard fuel bound : Nat} {bytes : Nat → UInt8} {base : Finset Bh}
  {l : Left} {g g' g'' : Drives} {p : Partition} {first : SectorT}
  {A : Fault → Prop}

theorem Within.trans (h : Within u g g') (h' : Within u g' g'') : Within u g g'' :=
  fun m hm => ⟨(h' m hm).1.trans (h m hm).1, (h' m hm).2.trans (h m hm).2⟩

theorem Grown.within (h : Grown u g g') : Within u g g' :=
  fun m hm => ⟨h.part m (by omega), congrFun h.sizes m⟩

theorem within_update (hm : e / 2 ^ 6 = u) (hpart : ∀ m, m ≠ e → g'.part m = g.part m)
    (hsizes : ∀ m, m ≠ e → g'.sizes m = g.sizes m) : Within u g g' := by
  intro m hu
  have hne : m ≠ e := by
    rintro rfl
    exact hu hm
  exact ⟨hpart m hne, hsizes m hne⟩

theorem within_setPart {h : HdStruct} (hm : e / 2 ^ 6 = u) :
    Within u g { g with part := Function.update g.part e h } :=
  within_update hm (fun _ hne => Function.update_of_ne hne _ _) fun _ _ => rfl

theorem outcome_walkEntry (hg : Ready u bytes base base base bound (guard + 1) l g)
    (hu : u < 4) (hbound : bound ≤ e) (hguard : guard ≤ 4) (hcard : base.card < nrMapbufs - 1)
    (hm : e / 2 ^ 6 = u) (he : e < u * 2 ^ 6 + 5) (hl' : l.minors ≤ minorLimit)
    (hbox : g.part e = p.place first) (hrounds : 2 ^ 7 ≤ fuel ∨ A .endless)
    (hnone : walkBox bytes (p.place first) l = none → ∀ f, A f) :
    Outcome A (extendedEntry bioshdGendisk fuel e) g fun _ g' =>
      ∃ r, walkBox bytes (p.place first) l = some r ∧ r.minors ≤ l.minors ∧
        Ready u bytes base base base (e + 1) guard r g' ∧ Within u g g' := by
  unfold extendedEntry
  refine outcome_modify_bind ?_
  refine Outcome.bind (outcome_walkBox (hg.tables rfl rfl rfl) hu hbound hguard hcard
    hm he hl' hbox hrounds hnone) ?_
  rintro _ g₁ ⟨r, hr, hle, hg₁, hgrown⟩
  have hsizes : Within u g
      { g with
        sizes := Function.update g.sizes e
          (wrap 16 ((g.part e).nrSects.toNat / 2)) } :=
    within_update hm (fun _ _ => rfl) fun _ hne => Function.update_of_ne hne _ _
  exact Outcome.modify ⟨r, hr, hle, hg₁.tables rfl rfl rfl,
    (hsizes.trans hgrown.within).trans (within_setPart hm)⟩

theorem outcome_walkTable (hu : u < 4) (hcard : base.card < nrMapbufs - 1)
    (hrounds : 2 ^ 7 ≤ fuel ∨ A .endless) :
    ∀ ps m l g, Ready u bytes base base base m ps.length l g →
      m + ps.length = u * 2 ^ 6 + 5 → u * 2 ^ 6 < m → l.minors ≤ minorLimit →
      (walkTable bytes first ps l = none → ∀ f, A f) →
      Outcome A (primaryPartitions bioshdGendisk fuel first m ps) g fun _ g' =>
        ∃ r, walkTable bytes first ps l = some r ∧
          Ready u bytes base base base (u * 2 ^ 6 + 5) 0 r g' ∧ Within u g g' := by
  intro ps
  induction ps with
  | nil =>
      intro m l g hg hm _ _ _
      rw [List.length_nil] at hg hm
      exact Outcome.pure ⟨l, rfl, hg.mono (by omega) le_rfl, fun _ _ => ⟨rfl, rfl⟩⟩
  | cons p ps ih =>
      intro m l g hg hm hlow hl' hnone
      rw [List.length_cons] at hg hm
      have hunit : m / 2 ^ 6 = u := by omega
      rw [primaryPartitions]
      by_cases hzero : p.nrSects = 0
      · have hwalk : walkTable bytes first (p :: ps) l = walkTable bytes first ps l := by
          rw [walkTable, if_neg (by simp [Partition.isLink, hzero])]
        rw [if_pos hzero]
        rw [hwalk] at hnone ⊢
        exact ih (m + 1) l g (hg.mono (by omega) (by omega)) (by omega) (by omega) hl'
          hnone
      · rw [if_neg hzero, addPartition, setPart]
        refine outcome_modify_bind ?_
        have hown : Within u g
            { g with part := Function.update g.part m (p.place first) } :=
          within_setPart hunit
        have hg₁ : Ready u bytes base base base m (ps.length + 1) l
            { g with part := Function.update g.part m (p.place first) } :=
          hg.tables rfl rfl rfl
        by_cases hext : p.isExtended = true
        · have hwalk : walkTable bytes first (p :: ps) l =
              (walkBox bytes (p.place first) l).bind (walkTable bytes first ps) := by
            rw [walkTable, if_pos (by simp [Partition.isLink, hzero, hext])]
          rw [hwalk] at hnone ⊢
          rw [Lib.when, if_pos hext]
          refine Outcome.bind (outcome_walkEntry hg₁ hu le_rfl (by omega) hcard hunit
            (by omega) hl' (Function.update_self _ _ _) hrounds ?_) ?_
          · intro hbox
            rw [hbox] at hnone
            exact hnone rfl
          · rintro _ g₂ ⟨r, hr, hle, hg₂, hwithin⟩
            rw [hr] at hnone ⊢
            refine Outcome.mono (ih (m + 1) r g₂ hg₂ (by omega) (by omega)
              (hle.trans hl') hnone) ?_
            rintro _ g₃ ⟨r', hr', hg₃, hwithin'⟩
            exact ⟨r', hr', hg₃, (hown.trans hwithin).trans hwithin'⟩
        · have hwalk : walkTable bytes first (p :: ps) l =
              walkTable bytes first ps l := by
            rw [walkTable, if_neg (by simp [Partition.isLink, hext])]
          rw [hwalk] at hnone ⊢
          rw [Lib.when, if_neg hext]
          refine Outcome.mono (ih (m + 1) l _ (hg₁.mono (by omega) (by omega))
            (by omega) (by omega) hl' hnone) ?_
          rintro _ g₃ ⟨r', hr', hg₃, hwithin'⟩
          exact ⟨r', hr', hg₃, hown.trans hwithin'⟩

end Table

/-- The state in which `check_partition` calls `msdos_partition` for drive `u`, which
is registered as `whole`. -/
structure AtDrive (u : Nat) (bytes : Nat → UInt8) (whole : HdStruct) (g : Drives) :
    Prop where
  unit : u < 4
  drive : g.drive u = bytes
  whole : g.part (u * 2 ^ 6) = whole
  current : g.currentMinor = u * 2 ^ 6 + 1
  steady : Steady ∅ ∅ g.cache
  nodup : g.cache.lru.Nodup
  polled : g.cache.requestFn 3 = .polled
  unseen : ∀ b, ¬OfDrive u (g.cache.buffers b).bDev

/-- The scan of drive `u` ends, and has written nothing but entries of the drive. -/
def Settles (u : Nat) (whole : HdStruct) (g : Drives) : Prop :=
  ∃ fuel r g', msdosPartition bioshdGendisk fuel (mkdev 3 (u * 2 ^ 6))
      whole.startSect g = .ok (r, g') ∧ Within u g g'

section Msdos

variable {u fuel : Nat} {bytes : Nat → UInt8} {whole : HdStruct} {g : Drives}
  {A : Fault → Prop}

theorem AtDrive.ready (hg : AtDrive u bytes whole g) :
    Ready u bytes ∅ ∅ ∅ (u * 2 ^ 6) 5 ⟨63, none⟩ g where
  steady := hg.steady
  nodup := hg.nodup
  polled := hg.polled
  drive := hg.drive
  minors := by
    rw [hg.current]
    dsimp only
    omega
  tags :=
    { blocknr := fun b hb => absurd hb (hg.unseen b)
      unique := fun b _ hb => absurd hb (hg.unseen b)
      seg := fun b hb => absurd hb (hg.unseen b)
      used := by
        intro b m hm hdev
        refine absurd ?_ (hg.unseen b)
        rw [hdev]
        exact ofDrive_mkdev hm }
  current := by
    intro _
    have hnew : ∀ b, (g.cache.buffers b).bDev ≠ mkdev 3 g.currentMinor := by
      intro b hdev
      refine hg.unseen b ?_
      rw [hdev, hg.current]
      exact ofDrive_mkdev (by omega)
    exact ⟨fun b hb => absurd hb (hnew b), fun b hb => absurd hb (hnew b),
      fun _ h => (nomatch h), fun _ b hb => absurd hb (hnew b)⟩

theorem Ready.primary {held : Finset Bh}
    (hg : Ready u bytes ∅ held held (u * 2 ^ 6 + 1) 4 ⟨63, none⟩ g)
    (hcurrent : g.currentMinor = u * 2 ^ 6 + 1) :
    Ready u bytes held held held (u * 2 ^ 6 + 1) 4 ⟨minorLimit, none⟩
      { g with currentMinor := g.currentMinor + 4 } where
  steady := hg.steady
  nodup := hg.nodup
  polled := hg.polled
  drive := hg.drive
  minors := by
    have hlimit : minorLimit = 59 := rfl
    dsimp only
    omega
  tags := by
    refine ⟨hg.tags.blocknr, hg.tags.unique, hg.tags.seg, ?_⟩
    intro b m hm hdev
    have := hg.tags.used b m hm hdev
    dsimp only
    omega
  current := by
    intro _
    have hnew : ∀ b, (g.cache.buffers b).bDev ≠ mkdev 3 (g.currentMinor + 4) := by
      intro b hdev
      have := hg.tags.used b _ (by omega) hdev
      omega
    exact ⟨fun b hb => absurd hb (hnew b), fun b hb => absurd hb (hnew b),
      fun _ h => (nomatch h), fun _ b hb => absurd hb (hnew b)⟩

/-- **The whole scan does what `walkTable` says.** -/
theorem outcome_msdosPartition (hg : AtDrive u bytes whole g) (hrounds : 2 ^ 7 ≤ fuel ∨ A .endless)
    (hdead : ¬NoDeadLink bytes whole → ∀ f, A f) :
    Outcome A (msdosPartition bioshdGendisk fuel (mkdev 3 (u * 2 ^ 6))
      whole.startSect) g fun _ g' => NoDeadLink bytes whole ∧ Within u g g' := by
  have hunit := hg.unit
  have hcurrent := hg.current
  have hwhole := hg.whole
  subst hwhole
  unfold msdosPartition
  refine outcome_get_bind ?_
  dsimp only
  refine Outcome.bind (R := fun found g₁ => ∃ c, g₁ = { g with cache := c } ∧
      (found = none ∧ refuses (g.part (u * 2 ^ 6)) 0 = true ∨
        refuses (g.part (u * 2 ^ 6)) 0 = false ∧
          ∃ bh, found = some (bh, blockFrom bytes (g.part (u * 2 ^ 6)).startSect) ∧
            Ready u bytes ∅ (insert bh ∅) (insert bh ∅) (u * 2 ^ 6 + 1) 4
              ⟨63, none⟩ g₁))
    (outcome_readPrimary hg.ready (by omega) hunit le_rfl (by omega) (by omega)
      (by decide) ?_ ?_) ?_
  · intro hrefused c _
    exact ⟨c, rfl, Or.inl ⟨rfl, hrefused⟩⟩
  · intro hread bh c _ hc
    exact ⟨c, rfl, Or.inr ⟨hread, bh, rfl, hc⟩⟩
  · rintro found g₁ ⟨c, rfl, ⟨rfl, hrefused⟩ | ⟨hread, bh, rfl, hc⟩⟩
    · exact Outcome.pure ⟨Or.inl hrefused, fun _ _ => ⟨rfl, rfl⟩⟩
    · dsimp only
      cases hmagic : magicOk (blockFrom bytes (g.part (u * 2 ^ 6)).startSect) with
      | false =>
          rw [Bool.not_false, if_pos rfl]
          refine Outcome.bind (R := fun _ g' => Within u g g')
            (outcome_unmapBrelse hc (Finset.notMem_empty bh) ?_) ?_
          · intro _ _ _ _
            exact ⟨rfl, rfl⟩
          · intro _ g' hwithin
            exact Outcome.pure ⟨Or.inr (Or.inl hmagic), hwithin⟩
      | true =>
          have hopen : NoDeadLink bytes (g.part (u * 2 ^ 6)) ↔
              walkTable bytes (g.part (u * 2 ^ 6)).startSect
                (partitions (blockFrom bytes (g.part (u * 2 ^ 6)).startSect))
                ⟨minorLimit, none⟩ ≠ none := by
            unfold NoDeadLink
            rw [hread, hmagic]
            simp
          rw [Bool.not_true, if_neg Bool.false_ne_true]
          refine outcome_modify_bind ?_
          have hready := hc.primary hcurrent
          have hcard : (insert bh ∅ : Finset Bh).card < nrMapbufs - 1 := by
            rw [Finset.card_insert_of_notMem (Finset.notMem_empty bh)]
            decide
          rw [← hcurrent] at hready
          refine Outcome.bind (outcome_walkTable hunit hcard hrounds
            (partitions (blockFrom bytes (g.part (u * 2 ^ 6)).startSect))
            g.currentMinor ⟨minorLimit, none⟩ _ hready ?_ (by omega) le_rfl ?_) ?_
          · rw [hcurrent]
            rfl
          · intro hnone
            exact hdead fun h => hopen.mp h hnone
          · rintro _ g₂ ⟨r, hr, hg₂, hwithin⟩
            have hends : NoDeadLink bytes (g.part (u * 2 ^ 6)) := by
              rw [hopen, hr]
              simp
            refine Outcome.bind (R := fun _ g' => Within u g g')
              (outcome_unmapBrelse hg₂ (Finset.notMem_empty bh) ?_) ?_
            · intro _ _
              exact hwithin
            · intro _ g' hwithin'
              exact Outcome.pure ⟨hends, hwithin'⟩

theorem settles_of_noDeadLink (hg : AtDrive u bytes whole g) (h : NoDeadLink bytes whole) :
    Settles u whole g := by
  have hrun : Outcome (fun _ => False) (msdosPartition bioshdGendisk (2 ^ 7)
      (mkdev 3 (u * 2 ^ 6)) whole.startSect) g fun _ g' =>
        NoDeadLink bytes whole ∧ Within u g g' :=
    outcome_msdosPartition hg (Or.inl le_rfl) fun hdead => absurd h hdead
  obtain ⟨r, g', hok, -, hwithin⟩ := hrun.returns
  exact ⟨2 ^ 7, r, g', hok, hwithin⟩

theorem noDeadLink_of_settles (hg : AtDrive u bytes whole g) (h : Settles u whole g) :
    NoDeadLink bytes whole := by
  obtain ⟨fuel, r, g', hok, -⟩ := h
  have hrun : Outcome (fun _ => True) (msdosPartition bioshdGendisk fuel
      (mkdev 3 (u * 2 ^ 6)) whole.startSect) g fun _ g' =>
        NoDeadLink bytes whole ∧ Within u g g' :=
    outcome_msdosPartition hg (Or.inr trivial) fun _ _ => trivial
  exact (hrun.of_ok hok).1

end Msdos

/-- **When the partition scan ends.**  Whatever is on the disk, `msdos_partition` ends
and writes nothing but entries of its drive exactly when no chain of extended records
comes to a record that has a link but uses up no minor, neither at its own place nor
at that of the record it links to. -/
theorem msdosPartition_settles_iff
    {u : Nat} {bytes : Nat → UInt8} {whole : HdStruct} {g : Drives}
    (hg : AtDrive u bytes whole g) :
    Settles u whole g ↔ NoDeadLink bytes whole :=
  ⟨noDeadLink_of_settles hg, settles_of_noDeadLink hg⟩

theorem bootDrives_atDrive (bytes : Nat → UInt8) :
    AtDrive 0 bytes ⟨0, 1000⟩ (bootDrives bytes) where
  unit := by decide
  drive := rfl
  whole := rfl
  current := rfl
  steady := (bootDrives_entry bytes).steady
  nodup := (bootDrives_kept bytes).plenty.1
  polled := rfl
  unseen := (bootDrives_entry bytes).unseen

theorem msdosPartition_settles_two :
    AtDrive 0 (twoRecords 0) ⟨0, 1000⟩ (bootDrives (twoRecords 0)) ∧
      Settles 0 ⟨0, 1000⟩ (bootDrives (twoRecords 0)) := by
  have hg := bootDrives_atDrive (twoRecords 0)
  exact ⟨hg, (msdosPartition_settles_iff hg).mpr (by decide +kernel)⟩

/-- A table with an extended partition, whose first record links to one that links to
itself. -/
def linkToItself (a : Nat) : UInt8 :=
  (([(450, 5), (454, 2), (458, 100), (510, 0x55), (511, 0xAA),
    (1474, 5), (1478, 2), (1482, 10), (1534, 0x55), (1535, 0xAA),
    (2498, 5), (2502, 2), (2506, 10), (2558, 0x55),
    (2559, 0xAA)] : List (Nat × UInt8)).lookup a).getD 0

/-- The second record is read for ever. -/
theorem linkToItself_not_settles :
    AtDrive 0 linkToItself ⟨0, 1000⟩ (bootDrives linkToItself) ∧
      ¬Settles 0 ⟨0, 1000⟩ (bootDrives linkToItself) := by
  have hg := bootDrives_atDrive linkToItself
  have hdead : ¬NoDeadLink linkToItself ⟨0, 1000⟩ := by decide +kernel
  exact ⟨hg, fun h => hdead (noDeadLink_of_settles hg h)⟩

end Genhd
end Elks
