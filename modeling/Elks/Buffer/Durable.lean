import Elks.Buffer.Prompt
import Elks.Minix.WriteBack

/-!
# What is on the disks after a sync (fs/buffer.c, fs/minix/inode.c)

The block store behind the cache is what all calls so far have stored.  `sync` brings it to
the disks, and a machine that starts again knows nothing else.

**Results.**
* `stored_survives`: a block is read as it was stored.
* `inode_survives`: `minix_read_inode` reads what `minix_update_inode` has written through the
  cache.
-/

namespace Elks
namespace Buffer

open Lib
open Minix.WriteBack

section Calls

/-- The calls one after the other, and what the block store holds then; `none` when one of
them does not return. -/
def afterCalls (fuel : Nat) : Buffers → Flat → List CacheOp → Option (Buffers × Flat)
  | s, flat, [] => some (s, flat)
  | s, flat, op :: ops =>
      match (op.code fuel).run s with
      | .ok r => afterCalls fuel r.2 (op.stores s flat) ops
      | .error _ => none

/-- `sync`, and the hardware that the machine then starts with. -/
def afterSync (hw : Hardware) (fuel : Nat) (wait : Bool) (s : Buffers) : Option Hardware :=
  match (syncBuffers fuel 0 wait).run s with
  | .ok r => some { hw with disk := r.2.disk }
  | .error _ => none

end Calls

section Durable

variable {good : Nat → Prop} {flat flat' : Flat} {s s' : Buffers} {fuel : Nat}
  {ops later : List CacheOp} {hw hw' : Hardware} {wait : Bool} {bh : Bh} {i j : Inode}

theorem afterCalls_coherent (hgood : ∀ dev, good dev → dev ≠ 0) (hfuel : 2 ≤ fuel)
    (hs : Quiet s) (hc : Coherent good flat s.core)
    (hops : ∀ op ∈ ops, op.OnGood good) (hlegal : LegalCalls fuel s ops)
    (h : afterCalls fuel s flat ops = some (s', flat')) :
    Quiet s' ∧ Coherent good flat' s'.core := by
  induction ops generalizing s flat with
  | nil =>
      obtain ⟨rfl, rfl⟩ := Prod.mk.inj (Option.some.inj h)
      exact ⟨hs, hc⟩
  | cons op ops ih =>
      have hone := CacheOp.quietly hgood hfuel hs hc (hops op List.mem_cons_self) hlegal.1
      have hrest := hlegal.2
      unfold Prog.Awake at hone
      unfold afterCalls at h
      cases hr : (op.code fuel).run s with
      | error f =>
          rw [hr] at h
          cases h
      | ok r =>
          rw [hr] at hone hrest h
          exact ih hone.1 hone.2.1 (fun op hop => hops op (List.mem_cons_of_mem _ hop)) hrest h

theorem afterSync_disk (hfuel : 2 ≤ fuel) (hs : Quiet s) (hc : Coherent good flat s.core)
    (hsync : afterSync hw fuel wait s = some hw') {dev : Nat} (hdev : dev ≠ 0) (block : Nat) :
    hw'.disk dev block = flat dev block := by
  have hquiet := syncBuffers_quietly 0 wait hfuel hs hc
  unfold Quietly Prog.Awake at hquiet
  unfold afterSync at hsync
  cases hr : (syncBuffers fuel 0 wait).run s with
  | error f =>
      rw [hr] at hsync
      cases hsync
  | ok r =>
      rw [hr] at hquiet hsync
      obtain ⟨-, hc', -, hclean⟩ := hquiet
      obtain rfl := Option.some.inj hsync
      exact hc'.disk dev block hdev fun b _ _ => hclean rfl b

theorem afterSync_good
    (hsync : afterSync hw fuel wait s = some hw') {dev : Nat} (hdev : hw.Good dev) :
    hw'.Good dev := by
  unfold afterSync at hsync
  split at hsync
  · obtain rfl := Option.some.inj hsync
    exact hdev
  · cases hsync

/-- **What was stored is there after the machine has started again.**  Any calls from
`buffer_init` on and a `sync` leave the block store on the disks, and a cache that starts
with these disks reads every block, without a sleep, as it was stored. -/
theorem stored_survives
    (hfuel : 2 ≤ fuel)
    (hops : ∀ op ∈ ops, op.OnGood hw.Good)
    (hlegal : LegalCalls fuel (bufferInit hw) ops)
    (h : afterCalls fuel (bufferInit hw) hw.disk ops = some (s, flat))
    (hsync : afterSync hw fuel wait s = some hw')
    {dev : Nat} (hdev : hw.Good dev) (block : Nat) :
    Prog.Runs (bread fuel dev block) (bufferInit hw')
      fun found s' => ∃ bh, found = some bh ∧ s'.content bh = flat dev block := by
  obtain ⟨hs, hc⟩ := afterCalls_coherent (fun _ h => h.1) hfuel (bufferInit_quiet hw)
    (bufferInit_coherent hw) hops hlegal h
  have hdisk := afterSync_disk hfuel hs hc hsync hdev.1 block
  have hgood := afterSync_good hsync hdev
  have hroom := bufferInit_roomy hw'
  have hbread : Prog.Awake .bufmapwait (bread fuel dev block) (bufferInit hw') _ :=
    bread_quietly hfuel (bufferInit_quiet hw') (bufferInit_coherent hw') hroom.held_card hdev.1
      hgood
  refine (hbread.runs (bread_prompt hfuel (bufferInit_quiet hw') (bufferInit_coherent hw') hroom
    hdev.1 hgood)).mono ?_
  rintro found s' ⟨⟨-, -, bh, hfound, -, -, -, hcontent⟩, -⟩
  exact ⟨bh, hfound, hcontent.trans hdisk⟩

theorem stored_survives_short :
    ∃ s flat hw', afterCalls 2 (bufferInit (blankHardware .polled))
        (blankHardware .polled).disk shortCalls = some (s, flat) ∧
      afterSync (blankHardware .polled) 2 true s = some hw' ∧
      Prog.Runs (bread 2 0x100 7) (bufferInit hw')
        fun found s' => ∃ bh, found = some bh ∧ s'.content bh = flat 0x100 7 := by
  have hruns : ((afterCalls 2 (bufferInit (blankHardware .polled)) (blankHardware .polled).disk
      shortCalls).bind fun r => afterSync (blankHardware .polled) 2 true r.1).isSome = true := by
    decide +kernel
  obtain ⟨hw', hruns⟩ := Option.isSome_iff_exists.mp hruns
  obtain ⟨⟨s, flat⟩, hcalls, hsync⟩ := Option.bind_eq_some_iff.mp hruns
  have hgood : (blankHardware .polled).Good 0x100 := blankHardware_good (by decide) (by decide)
  have hops : ∀ op ∈ shortCalls, op.OnGood (blankHardware .polled).Good := by
    simp [shortCalls, CacheOp.fsyncDev, CacheOp.OnGood, hgood]
  exact ⟨s, flat, hw', hcalls, hsync,
    stored_survives (Nat.le_refl 2) hops (by decide +kernel) hcalls hsync hgood 7⟩

/-- **An inode that was written through the cache is read after the machine has started
again**, as long as no later call stores anything else in its block. -/
theorem inode_survives
    (hfuel : 2 ≤ fuel)
    (hino : i.iIno ≠ 0) (hle : i.iIno ≤ i.iSb.sNinodes)
    (hj : j.iIno = i.iIno) (hdev : j.iDev = i.iDev) (hsb : j.iSb = i.iSb)
    (hops : ∀ op ∈ ops ++ later, op.OnGood hw.Good)
    (hlegal : LegalCalls fuel (bufferInit hw) ops)
    (h : afterCalls fuel (bufferInit hw) hw.disk ops = some (s, flat))
    (hbDev : (s.buffers bh).bDev = i.iDev.toNat)
    (hbBlocknr : (s.buffers bh).bBlocknr = (inodeBlock i.iSb i.iIno).toNat)
    (hlegal' : LegalCalls fuel s (.modify bh (putInode i) :: later))
    (h' : afterCalls fuel s flat (.modify bh (putInode i) :: later) = some (s', flat'))
    (hlater : flat' i.iDev.toNat (inodeBlock i.iSb i.iIno).toNat =
      (CacheOp.modify bh (putInode i)).stores s flat i.iDev.toNat
        (inodeBlock i.iSb i.iIno).toNat)
    (hsync : afterSync hw fuel wait s' = some hw') :
    Restored i (minixReadInode j { flat := hw'.disk, ioError := fun _ _ => false }) := by
  obtain ⟨hs, hc⟩ := afterCalls_coherent (fun _ h => h.1) hfuel (bufferInit_quiet hw)
    (bufferInit_coherent hw) (fun op hop => hops op (List.mem_append_left _ hop)) hlegal h
  have hused : i.iDev.toNat ≠ 0 := hbDev ▸ hc.used bh hlegal'.1.2.2
  have hcalls : ∀ op ∈ CacheOp.modify bh (putInode i) :: later, op.OnGood hw.Good := by
    intro op hop
    rcases List.mem_cons.mp hop with rfl | hop
    · trivial
    · exact hops op (List.mem_append_right _ hop)
  obtain ⟨hs', hc'⟩ := afterCalls_coherent (fun _ h => h.1) hfuel hs hc hcalls hlegal' h'
  have hdisk := afterSync_disk hfuel hs' hc' hsync hused (inodeBlock i.iSb i.iIno).toNat
  rw [hlater, CacheOp.stores, hbDev, hbBlocknr, Flat.put_same] at hdisk
  refine minixReadInode_restored hino hle hj hdev hsb
    (b := flat i.iDev.toNat (inodeBlock i.iSb i.iIno).toNat) ?_
  rw [Disks.bread, if_neg Bool.false_ne_true]
  exact congrArg some hdisk

/-- The terminal is read into the first buffer, changed there and released. -/
theorem inode_survives_terminal :
    ∃ hw' : Hardware, Restored terminalInode (minixReadInode terminalInode
      { flat := hw'.disk, ioError := fun _ _ => false }) := by
  have hruns : ((afterCalls 2 (bufferInit (blankHardware .polled)) (blankHardware .polled).disk
      [.bread 0x380 5]).bind fun r =>
        (afterCalls 2 r.1 r.2 [.modify 0 (putInode terminalInode), .brelse 0]).bind fun r' =>
          if (r.1.buffers 0).bDev = 0x380 ∧ (r.1.buffers 0).bBlocknr = 5 ∧
              LegalCalls 2 r.1 [.modify 0 (putInode terminalInode), .brelse 0] then
            afterSync (blankHardware .polled) 2 true r'.1
          else none).isSome = true := by
    decide +kernel
  obtain ⟨hw', hruns⟩ := Option.isSome_iff_exists.mp hruns
  obtain ⟨⟨s, flat⟩, hcalls, hruns⟩ := Option.bind_eq_some_iff.mp hruns
  obtain ⟨⟨s', flat'⟩, hcalls', hruns⟩ := Option.bind_eq_some_iff.mp hruns
  split at hruns
  · rename_i hwhere
    obtain ⟨hdev, hblock, hlegal⟩ := hwhere
    have hgood : (blankHardware .polled).Good 0x380 := blankHardware_good (by decide) (by decide)
    have hops : ∀ op ∈ [CacheOp.bread 0x380 5] ++ [CacheOp.brelse 0],
        op.OnGood (blankHardware .polled).Good := by
      simp [CacheOp.OnGood, hgood]
    refine ⟨hw', inode_survives (Nat.le_refl 2) (by decide) (by decide) rfl rfl rfl hops
      (by decide +kernel) hcalls hdev hblock hlegal hcalls' ?_ hruns⟩
    unfold afterCalls at hcalls'
    split at hcalls'
    · unfold afterCalls at hcalls'
      split at hcalls'
      · obtain ⟨-, rfl⟩ := Prod.mk.inj (Option.some.inj hcalls')
        rfl
      · cases hcalls'
    · cases hcalls'
  · cases hruns

end Durable
end Buffer
end Elks
