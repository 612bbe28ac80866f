import Elks.Block.Partitions

/-!
# Disks on which the table and the cache agree

A record other than the first is read as block 0 of the minor that its data
partition gets afterwards, and the buffer stays.  So the cache agrees with the
table exactly on disks whose records repeat the first block of their data
partition (`checkPartition_correct_iff`).
-/

namespace Elks
namespace Genhd

open Lib Buffer

/-- Records that the scan follows links to, with `n` minors left: the driver
reads each, and it repeats the first block of its data partition.  A record that
the driver refuses does no harm only if its link passes for the one partition
that is left. -/
def FollowedWell (bytes : Nat → UInt8) : Nat → List HdStruct → Prop
  | _, [] => True
  | n, h :: rest =>
      if refuses h 0 then
        (logicals bytes (h :: rest)).take n = [h]
      else
        ∃ d, dataOf bytes h = some d ∧
          blockFrom bytes d.startSect = blockFrom bytes h.startSect ∧
          (n = 1 ∨ FollowedWell bytes (n - 1) rest)

/-- A disk on which the scan does what it should. -/
def Sound (bytes : Nat → UInt8) : List HdStruct → Prop
  | [] => True
  | box :: rest =>
      if refuses box 0 then
        logicals bytes (box :: rest) = []
      else
        FollowedWell bytes (minorLimit - (dataOf bytes box).toList.length) rest

section Sound

variable {u e c n : Nat} {bytes : Nat → UInt8} {box h : HdStruct}
  {rest : List HdStruct} {r : List HdStruct × List (Nat × SectorT)}

theorem dataOf_nrSects {d : HdStruct} (hd : dataOf bytes h = some d) : d.nrSects ≠ 0 := by
  have hmem : d ∈ dataEntries h.startSect (blockFrom bytes h.startSect) :=
    List.mem_of_head? hd
  obtain ⟨p, -, hp⟩ := List.mem_filterMap.mp hmem
  unfold dataEntry at hp
  split at hp
  · cases hp
  · rename_i hdata
    obtain rfl := Option.some.inj hp
    exact fun h => hdata (Or.inl h)

theorem nextOf_nrSects {h' : HdStruct} (hnext : nextOf bytes box h = some h') : h'.nrSects ≠ 0 := by
  have hmem : h' ∈ links box (blockFrom bytes h.startSect) :=
    List.mem_of_head? hnext
  obtain ⟨p, hp, rfl⟩ := List.mem_map.mp hmem
  have hlink := (List.mem_filter.mp hp).2
  have hne : p.nrSects ≠ 0 ∧ p.isExtended = true := by
    simpa [Partition.isLink] using hlink
  exact hne.1

theorem Chain.nrSects (hchain : Chain bytes box h rest) : ∀ h' ∈ rest, h'.nrSects ≠ 0 := by
  induction hchain with
  | last _ _ =>
      intro h' hh'
      cases hh'
  | link _ hnext _ ih =>
      intro h' hh'
      rcases List.mem_cons.mp hh' with rfl | hh'
      · exact nextOf_nrSects hnext
      · exact ih h' hh'

theorem logicals_cons (h : HdStruct) (rest : List HdStruct) :
    logicals bytes (h :: rest) = (dataOf bytes h).toList ++ logicals bytes rest := by
  unfold logicals
  cases hd : dataOf bytes h with
  | none => rw [List.filterMap_cons_none hd]; rfl
  | some d => rw [List.filterMap_cons_some hd]; rfl

theorem lastMinor_succ (hc : c + n = (u + 1) * 2 ^ 6) (hn : 0 < n) (hn' : n ≤ minorLimit) :
    lastMinor bioshdGendisk (c + 1) = true ↔ n = 1 := by
  have h : lastMinor bioshdGendisk (c + 1) = true ↔ (c + 1) % 2 ^ 6 = 0 :=
    decide_eq_true_iff
  rw [h]
  unfold minorLimit at hn'
  omega

theorem follow_bounds (hr : follow bytes c rest = some r)
    (hc : c + n = (u + 1) * 2 ^ 6) (hn : 0 < n) (hn' : n ≤ minorLimit)
    (hrest : ∀ h ∈ rest, h.nrSects ≠ 0) :
    r.1.length ≤ n ∧ (∀ h ∈ r.1, h.nrSects ≠ 0) ∧
      ∀ x ∈ r.2, c ≤ x.1 ∧ x.1 < c + r.1.length := by
  induction rest generalizing c n r with
  | nil =>
      obtain rfl := Option.some.inj hr
      simp
  | cons h rest ih =>
      have hh := hrest h List.mem_cons_self
      rw [follow] at hr
      split at hr
      · obtain rfl := Option.some.inj hr
        refine ⟨hn, ?_, ?_⟩
        · simpa using hh
        · simp
      · split at hr
        · split at hr
          · obtain rfl := Option.some.inj hr
            refine ⟨hn, ?_, ?_⟩
            · simpa using hh
            · simp
          · cases hr
        · rename_i d hd
          have hd' := dataOf_nrSects hd
          split at hr
          · obtain rfl := Option.some.inj hr
            refine ⟨hn, ?_, ?_⟩
            · simpa using hd'
            · simp
          · rename_i hlast
            obtain ⟨r', hr', rfl⟩ := Option.map_eq_some_iff.mp hr
            have hone : n ≠ 1 := fun h => hlast ((lastMinor_succ hc hn hn').mpr h)
            obtain ⟨hlen, hne, hcells⟩ := ih (n := n - 1) hr' (by omega) (by omega)
              (by omega) fun h hh => hrest h (List.mem_cons_of_mem _ hh)
            refine ⟨?_, ?_, ?_⟩
            · simp only [List.length_cons]
              omega
            · intro h' hh'
              rcases List.mem_cons.mp hh' with rfl | hh'
              · exact hd'
              · exact hne h' hh'
            · intro x hx
              simp only [List.length_cons]
              rcases List.mem_cons.mp hx with rfl | hx
              · exact ⟨le_rfl, by simp⟩
              · have := hcells x hx
                omega

theorem FollowedWell.follow (hw : FollowedWell bytes n rest)
    (hc : c + n = (u + 1) * 2 ^ 6) (hn : 0 < n) (hn' : n ≤ minorLimit) :
    ∃ r, Genhd.follow bytes c rest = some r ∧ r.1 = (logicals bytes rest).take n ∧
      ∀ part : Nat → HdStruct, ∀ x ∈ r.2, blockFrom bytes x.2 =
        blockFrom bytes (setFrom part c r.1 x.1).startSect := by
  induction rest generalizing c n with
  | nil =>
      refine ⟨_, rfl, ?_, ?_⟩
      · simp [logicals]
      · intro _ x hx
        cases hx
  | cons h rest ih =>
      rw [FollowedWell] at hw
      rw [Genhd.follow]
      split at hw
      · rename_i hrefused
        rw [if_pos hrefused]
        refine ⟨_, rfl, hw.symm, ?_⟩
        intro _ x hx
        cases hx
      · rename_i hread
        obtain ⟨d, hd, hblock, hnext⟩ := hw
        rw [if_neg hread, hd, logicals_cons, hd, Option.toList_some]
        have hfirst : ∀ (part : Nat → HdStruct) ps,
            blockFrom bytes h.startSect =
              blockFrom bytes (setFrom part c (d :: ps) c).startSect := by
          intro part ps
          have hget : setFrom part c (d :: ps) (c + 0) = d := setFrom_get rfl
          rw [Nat.add_zero] at hget
          rw [hget, hblock]
        rcases Nat.eq_or_lt_of_le hn with hone | hmore
        · have hone' : n = 1 := hone.symm
          refine ⟨([d], [(c, h.startSect)]), ?_, ?_, ?_⟩
          · dsimp only
            rw [if_pos ((lastMinor_succ hc hn hn').mpr hone')]
          · subst hone'
            rfl
          · intro part x hx
            obtain rfl := List.mem_singleton.mp hx
            exact hfirst part []
        · have hone' : n ≠ 1 := Nat.ne_of_gt hmore
          obtain ⟨r', hr', hps, hcells⟩ := ih (c := c + 1)
            (hnext.resolve_left hone') (by omega) (by omega) (by omega)
          refine ⟨(d :: r'.1, (c, h.startSect) :: r'.2), ?_, ?_, ?_⟩
          · dsimp only
            rw [if_neg fun h => hone' ((lastMinor_succ hc hn hn').mp h), hr']
            rfl
          · obtain ⟨k, rfl⟩ : ∃ k, n = k + 1 := ⟨n - 1, by omega⟩
            rw [hps]
            rfl
          · intro part x hx
            rcases List.mem_cons.mp hx with rfl | hx
            · exact hfirst part r'.1
            · exact hcells (Function.update part c d) x hx

theorem followedWell_of_follow {part : Nat → HdStruct} (hr : follow bytes c rest = some r)
    (hc : c + n = (u + 1) * 2 ^ 6) (hn : 0 < n) (hn' : n ≤ minorLimit)
    (hps : r.1 = (logicals bytes rest).take n)
    (hcells : ∀ x ∈ r.2, blockFrom bytes x.2 =
      blockFrom bytes (setFrom part c r.1 x.1).startSect) :
    FollowedWell bytes n rest := by
  induction rest generalizing c n r part with
  | nil => exact trivial
  | cons h rest ih =>
      rw [FollowedWell]
      rw [follow] at hr
      split at hr
      · rename_i hrefused
        obtain rfl := Option.some.inj hr
        rw [if_pos hrefused]
        exact hps.symm
      · rename_i hread
        rw [if_neg hread]
        cases hd : dataOf bytes h with
        | none =>
            rw [hd] at hr
            dsimp only at hr
            split at hr
            · rename_i hnil
              obtain rfl := Option.some.inj hr
              rw [logicals_cons, hd, hnil] at hps
              simp [logicals] at hps
            · cases hr
        | some d =>
            rw [hd] at hr
            dsimp only at hr
            rw [logicals_cons, hd, Option.toList_some] at hps
            refine ⟨d, rfl, ?_⟩
            have hfirst : ∀ ps, blockFrom bytes h.startSect =
                  blockFrom bytes (setFrom part c (d :: ps) c).startSect →
                blockFrom bytes d.startSect = blockFrom bytes h.startSect := by
              intro ps hx
              have hget : setFrom part c (d :: ps) (c + 0) = d := setFrom_get rfl
              rw [Nat.add_zero] at hget
              rw [hget] at hx
              exact hx.symm
            split at hr
            · rename_i hlast
              obtain rfl := Option.some.inj hr
              have hx := hcells (c, h.startSect) List.mem_cons_self
              exact ⟨hfirst [] hx, Or.inl ((lastMinor_succ hc hn hn').mp hlast)⟩
            · rename_i hlast
              obtain ⟨r', hr', rfl⟩ := Option.map_eq_some_iff.mp hr
              have hone : n ≠ 1 :=
                fun h => hlast ((lastMinor_succ hc hn hn').mpr h)
              obtain ⟨k, rfl⟩ : ∃ k, n = k + 1 := ⟨n - 1, by omega⟩
              have hx := hcells (c, h.startSect) List.mem_cons_self
              have hcells' : ∀ x ∈ r'.2, blockFrom bytes x.2 = blockFrom bytes
                  (setFrom (Function.update part c d) (c + 1) r'.1 x.1).startSect :=
                fun x hx => hcells x (List.mem_cons_of_mem _ hx)
              exact ⟨hfirst r'.1 hx, Or.inr (ih hr' (by omega) (by omega) (by omega)
                (List.cons.inj hps).2 hcells')⟩

end Sound

section Whole

variable {u e : Nat} {bytes : Nat → UInt8} {box : HdStruct}
  {rest records : List HdStruct} {r : List HdStruct × List (Nat × SectorT)}
  {g g' : Drives}

theorem scanChain_eq (hread : refuses box 0 = false) :
    scanChain bytes box e (u * 2 ^ 6 + 5) rest =
      (follow bytes (u * 2 ^ 6 + 5 + (dataOf bytes box).toList.length) rest).map
        fun r => ((dataOf bytes box).toList ++ r.1, (e, box.startSect) :: r.2) := by
  rw [scanChain, hread, if_neg Bool.false_ne_true]
  cases hd : dataOf bytes box with
  | none => rfl
  | some d =>
      have hlast : lastMinor bioshdGendisk (u * 2 ^ 6 + 5 + 1) = false :=
        lastMinor_eq_false.mpr (by omega)
      dsimp only
      rw [hlast, if_neg Bool.false_ne_true]
      rfl

theorem toList_length_le (o : Option HdStruct) : o.toList.length ≤ 1 := by
  cases o <;> simp

theorem take_toList_append (o : Option HdStruct) (l : List HdStruct) {n : Nat} (hn : 0 < n) :
    (o.toList ++ l).take n = o.toList ++ l.take (n - o.toList.length) := by
  obtain ⟨k, rfl⟩ : ∃ k, n = k + 1 := ⟨n - 1, by omega⟩
  cases o with
  | none => rfl
  | some d => rfl

theorem setFrom_toList
    (o : Option HdStruct) (ps : List HdStruct) (part : Nat → HdStruct) (c : Nat) :
    setFrom part c (o.toList ++ ps) =
      setFrom (o.elim part (Function.update part c)) (c + o.toList.length) ps := by
  cases o with
  | none => rfl
  | some d => rfl

theorem Sound.scanChain (hs : Sound bytes (box :: rest)) :
    ∃ r, Genhd.scanChain bytes box e (u * 2 ^ 6 + 5) rest = some r ∧
      r.1 = (logicals bytes (box :: rest)).take minorLimit ∧
      ∀ part : Nat → HdStruct, ∀ x ∈ r.2, x = (e, box.startSect) ∨
        blockFrom bytes x.2 =
          blockFrom bytes (setFrom part (u * 2 ^ 6 + 5) r.1 x.1).startSect := by
  rw [Sound] at hs
  cases hrefused : refuses box 0 with
  | true =>
      rw [hrefused, if_pos rfl] at hs
      refine ⟨([], []), ?_, ?_, ?_⟩
      · rw [Genhd.scanChain, hrefused, if_pos rfl]
      · rw [hs, List.take_nil]
      · intro _ x hx
        cases hx
  | false =>
      rw [hrefused, if_neg Bool.false_ne_true] at hs
      have hle := toList_length_le (dataOf bytes box)
      have hlimit : minorLimit = 59 := rfl
      obtain ⟨r, hr, hps, hcells⟩ := hs.follow
        (c := u * 2 ^ 6 + 5 + (dataOf bytes box).toList.length) (u := u)
        (by omega) (by omega) (by omega)
      refine ⟨((dataOf bytes box).toList ++ r.1, (e, box.startSect) :: r.2), ?_, ?_, ?_⟩
      · rw [scanChain_eq hrefused, hr]
        rfl
      · rw [logicals_cons, take_toList_append _ _ (by omega), hps]
      · intro part x hx
        rcases List.mem_cons.mp hx with rfl | hx
        · exact Or.inl rfl
        · refine Or.inr ?_
          dsimp only
          rw [setFrom_toList]
          exact hcells _ x hx

theorem sound_of_scanChain {part : Nat → HdStruct}
    (hr : Genhd.scanChain bytes box e (u * 2 ^ 6 + 5) rest = some r)
    (hps : r.1 = (logicals bytes (box :: rest)).take minorLimit)
    (hcells : ∀ x ∈ r.2, u * 2 ^ 6 + 5 ≤ x.1 → blockFrom bytes x.2 =
      blockFrom bytes (setFrom part (u * 2 ^ 6 + 5) r.1 x.1).startSect)
    (hrest : ∀ h ∈ rest, h.nrSects ≠ 0) :
    Sound bytes (box :: rest) := by
  rw [Sound]
  have hlimit : minorLimit = 59 := rfl
  cases hrefused : refuses box 0 with
  | true =>
      rw [Genhd.scanChain, hrefused, if_pos rfl] at hr
      obtain rfl := Option.some.inj hr
      rw [if_pos rfl]
      exact (List.take_eq_nil_iff.mp hps.symm).resolve_left (by omega)
  | false =>
      rw [if_neg Bool.false_ne_true]
      rw [scanChain_eq hrefused] at hr
      obtain ⟨r', hr', rfl⟩ := Option.map_eq_some_iff.mp hr
      have hle := toList_length_le (dataOf bytes box)
      rw [logicals_cons, take_toList_append _ _ (by omega)] at hps
      have hbounds := follow_bounds (u := u)
        (n := minorLimit - (dataOf bytes box).toList.length) hr'
        (by omega) (by omega) (by omega) hrest
      have hagree : ∀ x ∈ r'.2, blockFrom bytes x.2 =
          blockFrom bytes (setFrom
            ((dataOf bytes box).elim part (Function.update part (u * 2 ^ 6 + 5)))
            (u * 2 ^ 6 + 5 + (dataOf bytes box).toList.length) r'.1 x.1).startSect := by
        intro x hx
        have hlow := (hbounds.2.2 x hx).1
        have h := hcells x (List.mem_cons_of_mem _ hx) (by omega)
        dsimp only at h
        rw [setFrom_toList] at h
        exact h
      exact followedWell_of_follow (u := u) hr' (by omega) (by omega) (by omega)
        (List.append_cancel_left hps) hagree

end Whole

section Correct

variable {u : Nat} {bytes : Nat → UInt8} {records : List HdStruct}
  {r : List HdStruct × List (Nat × SectorT)} {g g' : Drives}

theorem setFrom_self {part : Nat → HdStruct} {c : Nat} {hs : List HdStruct}
    (h : ∀ i d, hs[i]? = some d → part (c + i) = d) : setFrom part c hs = part := by
  funext m
  by_cases hm : m < c ∨ c + hs.length ≤ m
  · exact setFrom_outside hs m hm
  · obtain ⟨i, rfl⟩ : ∃ i, m = c + i := ⟨m - c, by omega⟩
    have hi : i < hs.length := by omega
    rw [setFrom_get (List.getElem?_eq_getElem hi),
      h i hs[i] (List.getElem?_eq_getElem hi)]

theorem place_zero_start (p : Partition) : (p.place 0).startSect = p.startSect := by
  simp [Partition.place]

theorem primaryEntry_start (p : Partition) : (primaryEntry p).startSect = p.startSect := by
  unfold primaryEntry
  split <;> rfl

theorem Checked.registered (hg : Entry u bytes g) (h : Checked u bytes r g g')
    (hps : r.1 = (logicals bytes records).take minorLimit) :
    Registered u bytes records g'.part where
  primary := h.entered.used
  unused := by
    intro i p hp hz
    have hlen : i < 4 := (List.getElem?_eq_some_iff.mp hp).1
    rw [h.entered.unused i p hp hz]
    exact hg.empty _ (by omega) (by omega)
  logical := by
    intro k d hk
    exact h.entered.logical k d (hps ▸ hk)
  free := by
    intro k hk hnone
    have hlimit : minorLimit = 59 := rfl
    have hlen : r.1.length ≤ k := by
      rw [hps]
      exact List.getElem?_eq_none_iff.mp hnone
    rw [h.entered.rest _ (Or.inr (by omega))]
    exact hg.empty _ (by omega) (by omega)

/-- The cache of a drive, when each sector read is where its minor begins. -/
theorem Checked.agrees (hg : Entry u bytes g) (h : Checked u bytes r g g')
    (hcells : ∀ x ∈ r.2,
      blockFrom bytes x.2 = blockFrom bytes (g'.part x.1).startSect) :
    Agrees u bytes g' := by
  intro b m hm hdev hup
  obtain ⟨bound, hc⟩ := h.cells
  have hdrive : OfDrive u (g'.cache.buffers b).bDev := by
    rw [hdev]
    exact ofDrive_mkdev hm
  obtain ⟨x, hx, hcell⟩ := hc.valid b hdrive hup
  have hxm : x.1 = m := mkdev_inj (hcell.dev.symm.trans hdev)
  rw [hcell.content, hcell.blocknr, ← hxm]
  rcases List.mem_cons.mp hx with rfl | hx
  · -- block 0 of the whole drive
    dsimp only
    rw [h.entered.rest _ (Or.inl (by omega)), hg.whole.1]
    rfl
  · rw [hcells x hx]
    simp

theorem correct_of_sound (hdisk : OnDisk bytes records) (hs : Sound bytes records)
    (hg : Entry u bytes g) : Correct u bytes records g := by
  cases hdisk with
  | plain hmagic hnone =>
      have h : Outcome (fun _ => False)
          (checkPartition bioshdGendisk 0 (mkdev 3 (u * 2 ^ 6))) g fun _ g' =>
            Checked u bytes ([], []) g g' :=
        outcome_plain hg hmagic hnone
      obtain ⟨_, g', hrun, hr⟩ := Outcome.returns h
      refine ⟨0, g', hrun, hr.registered hg rfl, hr.agrees hg ?_⟩
      intro x hx
      cases hx
  | @extended e p rest hmagic hentry hlink honly hchain =>
      obtain ⟨r, hscan, hps, hcells⟩ := hs.scanChain
        (u := u) (e := u * 2 ^ 6 + 1 + e)
      have h : Outcome (fun _ => False)
          (checkPartition bioshdGendisk (rest.length + 1) (mkdev 3 (u * 2 ^ 6))) g
            fun _ g' => ∃ r, scanChain bytes (p.place 0) (u * 2 ^ 6 + 1 + e)
              (u * 2 ^ 6 + 5) rest = some r ∧ Checked u bytes r g g' :=
        outcome_extended hg hmagic hentry hlink honly hchain
          (Or.inl (Nat.lt_succ_self _)) fun hnone => by
            rw [hscan] at hnone
            cases hnone
      obtain ⟨_, g', hrun, r', hr', hchecked⟩ := Outcome.returns h
      obtain rfl := Option.some.inj (hscan.symm.trans hr')
      refine ⟨_, g', hrun, hchecked.registered hg hps, hchecked.agrees hg ?_⟩
      intro x hx
      rcases hcells g'.part x hx with rfl | hagree
      · have hne : p.nrSects ≠ 0 := by
          simp only [Partition.isLink, Bool.and_eq_true, decide_eq_true_eq] at hlink
          exact hlink.1
        dsimp only
        rw [hchecked.entered.used e p hentry hne, primaryEntry_start,
          place_zero_start]
      · rw [setFrom_self hchecked.entered.logical] at hagree
        exact hagree

theorem scanChain_bounds {box : HdStruct} {rest : List HdStruct} {e : Nat}
    (hr : scanChain bytes box e (u * 2 ^ 6 + 5) rest = some r) (hrest : ∀ h ∈ rest, h.nrSects ≠ 0) :
    r.1.length ≤ minorLimit ∧ (∀ h ∈ r.1, h.nrSects ≠ 0) ∧
      ∀ x ∈ r.2, x.1 = e ∨ x.1 < u * 2 ^ 6 + 5 + r.1.length := by
  have hlimit : minorLimit = 59 := rfl
  cases hrefused : refuses box 0 with
  | true =>
      rw [scanChain, hrefused, if_pos rfl] at hr
      obtain rfl := Option.some.inj hr
      simp
  | false =>
      rw [scanChain_eq hrefused] at hr
      obtain ⟨r', hr', rfl⟩ := Option.map_eq_some_iff.mp hr
      have hle := toList_length_le (dataOf bytes box)
      obtain ⟨hlen, hne, hcells⟩ := follow_bounds (u := u)
        (n := minorLimit - (dataOf bytes box).toList.length) hr'
        (by omega) (by omega) (by omega) hrest
      refine ⟨?_, ?_, ?_⟩
      · rw [List.length_append]
        omega
      · intro d hd
        rcases List.mem_append.mp hd with hd | hd
        · exact dataOf_nrSects (Option.mem_toList.mp hd)
        · exact hne d hd
      · intro x hx
        rcases List.mem_cons.mp hx with rfl | hx
        · exact Or.inl rfl
        · have := hcells x hx
          rw [List.length_append]
          exact Or.inr (by omega)

theorem entered_eq (hg : Entry u bytes g) (hregistered : Registered u bytes records g'.part)
    (h : Checked u bytes r g g') (hlen : r.1.length ≤ minorLimit) (hne : ∀ d ∈ r.1, d.nrSects ≠ 0)
    (hne' : ∀ d ∈ logicals bytes records, d.nrSects ≠ 0) :
    r.1 = (logicals bytes records).take minorLimit := by
  have hlimit : minorLimit = 59 := rfl
  refine List.ext_getElem? fun k => ?_
  cases hk : ((logicals bytes records).take minorLimit)[k]? with
  | some d =>
      have hkl : k < minorLimit :=
        (List.getElem?_eq_some_iff.mp hk).1.trans_le (List.length_take_le _ _)
      have hpart := hregistered.logical k d hk
      have hd : d.nrSects ≠ 0 :=
        hne' d (List.mem_of_mem_take (List.mem_of_getElem? hk))
      cases hrk : r.1[k]? with
      | some d' => rw [← h.entered.logical k d' hrk, hpart]
      | none =>
          have hout := List.getElem?_eq_none_iff.mp hrk
          rw [h.entered.rest _ (Or.inr (by omega))] at hpart
          have hzero := hg.empty (u * 2 ^ 6 + 5 + k) (by omega) (by omega)
          rw [hpart] at hzero
          exact absurd hzero hd
  | none =>
      rcases Nat.lt_or_ge k minorLimit with hkl | hkl
      · cases hrk : r.1[k]? with
        | some d' =>
            have hzero := hregistered.free k hkl hk
            rw [h.entered.logical k d' hrk] at hzero
            exact absurd hzero (hne d' (List.mem_of_getElem? hrk))
        | none => rfl
      · exact List.getElem?_eq_none (hlen.trans hkl)

theorem logicals_nrSects : ∀ d ∈ logicals bytes records, d.nrSects ≠ 0 := by
  intro d hd
  obtain ⟨h, _, hd⟩ := List.mem_filterMap.mp hd
  exact dataOf_nrSects hd

theorem sound_of_correct (hdisk : OnDisk bytes records)
    (hg : Entry u bytes g) (hkept : Kept bytes 62 [] g.cache)
    (hcorrect : Correct u bytes records g) : Sound bytes records := by
  have hunit := hg.unit
  cases hdisk with
  | plain => exact trivial
  | @extended e p rest hmagic hentry hlink honly hchain =>
      obtain ⟨fuel, g', hrun, hregistered, hagrees⟩ := hcorrect
      have h : Outcome (fun _ => True)
          (checkPartition bioshdGendisk fuel (mkdev 3 (u * 2 ^ 6))) g
            fun _ g' => ∃ r, scanChain bytes (p.place 0) (u * 2 ^ 6 + 1 + e)
              (u * 2 ^ 6 + 5) rest = some r ∧ Checked u bytes r g g' :=
        outcome_extended hg hmagic hentry hlink honly hchain (Or.inr trivial)
          fun _ _ => trivial
      obtain ⟨r, hscan, hchecked⟩ := h.of_ok hrun
      have hrest : ∀ h ∈ rest, h.nrSects ≠ 0 := hchain.nrSects
      have he : e < 4 := (List.getElem?_eq_some_iff.mp hentry).1
      have hlimit : minorLimit = 59 := rfl
      obtain ⟨hlen, hne, hbounds⟩ := scanChain_bounds hscan hrest
      have hcells : ∀ x ∈ r.2, u * 2 ^ 6 + 5 ≤ x.1 → blockFrom bytes x.2 =
          blockFrom bytes (setFrom g'.part (u * 2 ^ 6 + 5) r.1 x.1).startSect := by
        intro x hx hlow
        rw [setFrom_self hchecked.entered.logical]
        obtain ⟨b, hcell⟩ := hchecked.kept hkept x (List.mem_cons_of_mem _ hx)
        have hxu : x.1 / 2 ^ 6 = u := by
          have := hbounds x hx
          omega
        have hagree := hagrees b x.1 hxu hcell.dev hcell.uptodate
        rw [hcell.content, hcell.blocknr] at hagree
        simpa using hagree
      exact sound_of_scanChain hscan
        (entered_eq hg hregistered hchecked hlen hne logicals_nrSects) hcells hrest

end Correct

section Boot

/-- The machine at boot, with a polled driver for the drives. -/
def bootDrives (bytes : Nat → UInt8) : Drives where
  cache := bufferInit (blankHardware .polled)
  drive := fun _ => bytes
  part := fun m => if m % 2 ^ 6 = 0 then ⟨0, 1000⟩ else ⟨0, 0⟩
  sizes := fun _ => 0
  currentMinor := 1

theorem bootDrives_entry (bytes : Nat → UInt8) :
    Entry 0 bytes (bootDrives bytes) where
  unit := by decide
  drive := rfl
  steady :=
    { quiet := bufferInit_quiet _
      clean := fun _ => rfl
      unlocked := fun _ => rfl
      count := fun _ => rfl
      mapcount := fun _ => rfl }
  polled := rfl
  unseen := by
    intro b hb
    have hdev : ((bootDrives bytes).cache.buffers b).bDev = 0 := rfl
    rw [OfDrive, hdev] at hb
    omega
  current := rfl
  whole := by
    simp [bootDrives]
  empty := by
    intro m hm hne
    have hmod : m % 2 ^ 6 ≠ 0 := by omega
    simp only [bootDrives, if_neg hmod]

theorem bootDrives_kept (bytes : Nat → UInt8) :
    Kept bytes 62 [] (bootDrives bytes).cache where
  plenty := by
    refine ⟨List.nodup_finRange _, List.finRange nrBuffers, [], ?_, ?_, ?_⟩
    · rw [List.append_nil]
      rfl
    · rw [List.length_finRange]
      decide
    · intro b _
      exact ⟨rfl, rfl⟩
  present := by
    intro x hx
    cases hx

end Boot

/-- **When the partition scan and the cache agree with the disk.**  For a disk
with a partition table and a chain of extended records, `check_partition`
enters what it should and leaves only buffers with the bytes of their minor
exactly when every record that it follows a link to is read, has a data
partition, and repeats its first block. -/
theorem checkPartition_correct_iff
    {bytes : Nat → UInt8} {records : List HdStruct}
    (hdisk : OnDisk bytes records) :
    (∀ u g, Entry u bytes g → Correct u bytes records g) ↔
      Sound bytes records := by
  constructor
  · intro h
    exact sound_of_correct hdisk (bootDrives_entry bytes) (bootDrives_kept bytes)
      (h 0 (bootDrives bytes) (bootDrives_entry bytes))
  · intro hs u g hg
    exact correct_of_sound hdisk hs hg

/-- A table with an extended partition in its first entry; there a record with a
link, to a record with the data partition that begins `start` sectors on. -/
def twoRecords (start : UInt8) (a : Nat) : UInt8 :=
  (([(450, 5), (454, 2), (458, 100), (510, 0x55), (511, 0xAA),
    (1474, 5), (1478, 2), (1482, 10), (1534, 0x55), (1535, 0xAA),
    (2498, 0x83), (2502, start), (2506, 8), (2558, 0x55),
    (2559, 0xAA)] : List (Nat × UInt8)).lookup a).getD 0

theorem twoRecords_record {start : UInt8} (hstart : start = 0 ∨ start = 2) :
    (ValidRecord (twoRecords start) ⟨2, 100⟩ ⟨2, 100⟩ ∧
      nextOf (twoRecords start) ⟨2, 100⟩ ⟨2, 100⟩ = some ⟨4, 10⟩) ∧
    (ValidRecord (twoRecords start) ⟨2, 100⟩ ⟨4, 10⟩ ∧
      nextOf (twoRecords start) ⟨2, 100⟩ ⟨4, 10⟩ = none) := by
  rcases hstart with rfl | rfl
  all_goals
    refine ⟨⟨⟨?_, ?_, ?_, ?_⟩, ?_⟩, ⟨?_, ?_, ?_, ?_⟩, ?_⟩
  all_goals decide +kernel

theorem twoRecords_onDisk {start : UInt8} (hstart : start = 0 ∨ start = 2) :
    OnDisk (twoRecords start) [⟨2, 100⟩, ⟨4, 10⟩] := by
  obtain ⟨⟨hfirst, hnext⟩, hsecond, hend⟩ := twoRecords_record hstart
  have hparts : partitions (table (twoRecords start)) =
      [⟨5, 2, 100⟩, ⟨0, 0, 0⟩, ⟨0, 0, 0⟩, ⟨0, 0, 0⟩] := by
    rcases hstart with rfl | rfl <;> decide +kernel
  have hmagic : magicOk (table (twoRecords start)) = true := by
    rcases hstart with rfl | rfl <;> decide +kernel
  refine OnDisk.extended (e := 0) (p := ⟨5, 2, 100⟩) hmagic ?_ rfl ?_
    (.link hfirst hnext (.last hsecond hend))
  · rw [hparts]
    rfl
  · intro e p hp hlink
    rw [hparts] at hp
    rcases e with _ | e
    · rfl
    · have hmem := List.mem_of_getElem? (show
        [(⟨0, 0, 0⟩ : Partition), ⟨0, 0, 0⟩, ⟨0, 0, 0⟩][e]? = some p from hp)
      have hp' : p = ⟨0, 0, 0⟩ := by simpa using hmem
      rw [hp'] at hlink
      cases hlink

theorem checkPartition_correct_iff_two :
    OnDisk (twoRecords 0) [⟨2, 100⟩, ⟨4, 10⟩] ∧
      ∀ u g, Entry u (twoRecords 0) g →
        Correct u (twoRecords 0) [⟨2, 100⟩, ⟨4, 10⟩] g := by
  have hdisk := twoRecords_onDisk (Or.inl (Eq.refl (0 : UInt8)))
  have hfirst : refuses ⟨2, 100⟩ 0 = false ∧ refuses ⟨4, 10⟩ 0 = false := by decide
  have hdata : dataOf (twoRecords 0) ⟨4, 10⟩ = some ⟨4, 8⟩ := by decide +kernel
  have hs : Sound (twoRecords 0) [⟨2, 100⟩, ⟨4, 10⟩] := by
    rw [Sound, hfirst.1, if_neg Bool.false_ne_true, FollowedWell, hfirst.2,
      if_neg Bool.false_ne_true]
    exact ⟨⟨4, 8⟩, hdata, rfl, Or.inr trivial⟩
  exact ⟨hdisk, (checkPartition_correct_iff hdisk).mpr hs⟩

/-- The second record is left in the cache as the first block of the data
partition. -/
theorem twoRecords_not_correct :
    OnDisk (twoRecords 2) [⟨2, 100⟩, ⟨4, 10⟩] ∧
      ¬Correct 0 (twoRecords 2) [⟨2, 100⟩, ⟨4, 10⟩] (bootDrives (twoRecords 2)) := by
  have hdisk := twoRecords_onDisk (Or.inr (Eq.refl (2 : UInt8)))
  refine ⟨hdisk, fun hcorrect => ?_⟩
  have hs := sound_of_correct hdisk (bootDrives_entry _) (bootDrives_kept _) hcorrect
  have hfirst : refuses ⟨2, 100⟩ 0 = false ∧ refuses ⟨4, 10⟩ 0 = false := by decide
  have hdata : dataOf (twoRecords 2) ⟨4, 10⟩ = some ⟨6, 8⟩ := by decide +kernel
  rw [Sound, hfirst.1, if_neg Bool.false_ne_true, FollowedWell, hfirst.2,
    if_neg Bool.false_ne_true] at hs
  obtain ⟨d, hd, hsame, _⟩ := hs
  obtain rfl := Option.some.inj (hdata.symm.trans hd)
  have hbyte := congrFun hsame 510
  revert hbyte
  decide +kernel

end Genhd
end Elks
