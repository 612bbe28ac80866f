import Elks.Buffer.Cache
import Elks.Lib.Dlist

/-!
# The LRU list (fs/buffer.c)

The heads of the buffers are linked both ways, from `bh_lru`, which has been left
alone the longest, to `bh_llru`.  `put_last_lru` moves a head to the end, and
`get_free_buffer` takes the first one that it can.

* `LruList`: the links run through all heads, each once.
* `lru_intact`: it is so after `buffer_init` and any calls of `put_last_lru`; a
  further call moves one head, and `get_free_buffer` takes the first free one.
* `lru_refines`: the list that the model of the cache keeps is the list of these
  links, over every run.

`NR_BUFFERS` is sixty-four with `CONFIG_FS_EXTERNAL_BUFFER`, and eight without; here
it is a parameter.
-/

namespace Elks
namespace Buffer

open Lib
open Function (update update_of_ne update_self)

/-- The links `b_next_lru` and `b_prev_lru` of the heads, and the two ends. -/
structure LruLinks (n : Nat) where
  bNextLru : Fin n → Option (Fin n)
  bPrevLru : Fin n → Option (Fin n)
  bhLru : Option (Fin n)
  bhLlru : Option (Fin n)

namespace LruLinks

variable {n : Nat}

/-- What a round of the loop of `buffer_init` does to the links. -/
def initHead (s : LruLinks n) (i : Fin n) : LruLinks n where
  bhLru := if i.val = 0 then some i else s.bhLru
  bPrevLru :=
    update s.bPrevLru i
      (if i.val = 0 then none else some ⟨i - 1, Nat.lt_of_le_of_lt (Nat.sub_le i 1) i.isLt⟩)
  bNextLru :=
    update s.bNextLru i
      (if h : i.val = n - 1 then none else some ⟨i + 1, by omega⟩)
  bhLlru := if i.val = n - 1 then some i else s.bhLlru

/-- `buffer_init`. -/
def bufferInit (s : LruLinks n) : LruLinks n :=
  (List.finRange n).foldl initHead s

/-- `if (bhn) bhn->b_prev_lru = x`. -/
def setPrev (bhn : Option (Fin n)) (x : Option (Fin n)) (s : LruLinks n) :
    LruLinks n :=
  match bhn with
  | none => s
  | some bhn => { s with bPrevLru := update s.bPrevLru bhn x }

/-- `if (bhp) bhp->b_next_lru = x`. -/
def setNext (bhp : Option (Fin n)) (x : Option (Fin n)) (s : LruLinks n) :
    LruLinks n :=
  match bhp with
  | none => s
  | some bhp => { s with bNextLru := update s.bNextLru bhp x }

/-- The part of `put_last_lru` that takes a head out. -/
def unhook (s : LruLinks n) (bh : Fin n) : LruLinks n :=
  let bhn := s.bNextLru bh
  let s := s.setPrev bhn (s.bPrevLru bh)
  let s := s.setNext (s.bPrevLru bh) bhn
  { s with bhLru := if s.bhLru = some bh then bhn else s.bhLru }

/-- The part of `put_last_lru` that puts it on the end; `none`: a null pointer is
followed. -/
def putEnd (s : LruLinks n) (bh : Fin n) : Option (LruLinks n) :=
  let s := { s with bNextLru := update s.bNextLru bh none }
  let s := { s with bPrevLru := update s.bPrevLru bh s.bhLlru }
  match s.bhLlru with
  | none => none
  | some llru =>
      some
        { s with
          bNextLru := update s.bNextLru llru (some bh)
          bhLlru := some bh }

/-- `put_last_lru`. -/
def putLastLru (s : LruLinks n) (bh : Fin n) : Option (LruLinks n) :=
  if s.bhLlru = some bh then some s else (s.unhook bh).putEnd bh

/-- The inner loop of `get_free_buffer` from `bh` on; the number bounds the rounds. -/
def search (s : LruLinks n) (free : Fin n → Bool) :
    Nat → Option (Fin n) → Option (Option (Fin n))
  | 0, _ => none
  | _ + 1, none => some none
  | rounds + 1, some bh =>
      if free bh then some (some bh) else s.search free rounds (s.bNextLru bh)

/-- `get_free_buffer` up to the call of `sync_buffers`, which is made if there is no
buffer to return. -/
def getFreeBuffer (s : LruLinks n) (free : Fin n → Bool) :
    Option (Option (Fin n) × LruLinks n) :=
  match s.search free (n + 1) s.bhLru with
  | none => none
  | some none => some (none, s)
  | some (some bh) => (s.putLastLru bh).map fun s => (some bh, s)

end LruLinks

/-- The test of `get_free_buffer`, with external buffers or without. -/
def BufferHead.reusable (external : Bool) (h : BufferHead) : Bool :=
  h.bCount = 0 && !h.bDirty && !h.bLock && (!external || h.bData.isNone)

/-- The links run through the heads of `l`, which are all heads. -/
structure LruList {n : Nat} (s : LruLinks n) (l : List (Fin n)) : Prop where
  links : Dlist s.bNextLru s.bPrevLru s.bhLru none l
  nodup : l.Nodup
  all : ∀ bh, bh ∈ l
  last : s.bhLlru = l.getLast?

section Init

variable {n : Nat} {i : Fin (n + 1)} {s : LruLinks (n + 1)} {l : List (Fin (n + 1))}

theorem foldl_initHead :
    (l.foldl LruLinks.initHead s).bNextLru i =
        (if i ∈ l then
          (if h : i.val = n then none else some ⟨i + 1, by omega⟩)
        else s.bNextLru i) ∧
      (l.foldl LruLinks.initHead s).bPrevLru i =
        (if i ∈ l then
          (if i.val = 0 then none else some ⟨i - 1, by omega⟩)
        else s.bPrevLru i) ∧
      (l.foldl LruLinks.initHead s).bhLru =
        (if 0 ∈ l then some 0 else s.bhLru) ∧
      (l.foldl LruLinks.initHead s).bhLlru =
        (if Fin.last n ∈ l then some (Fin.last n) else s.bhLlru) := by
  induction l generalizing s with
  | nil => exact ⟨rfl, rfl, rfl, rfl⟩
  | cons j l ih =>
      obtain ⟨hnext, hprev, hfirst, hlast⟩ := ih (s := s.initHead j)
      rw [List.foldl_cons]
      refine ⟨?_, ?_, ?_, ?_⟩
      · rw [hnext]
        by_cases hij : i = j
        · subst hij
          simp [LruLinks.initHead]
        · simp [LruLinks.initHead, hij]
      · rw [hprev]
        by_cases hij : i = j
        · subst hij
          simp [LruLinks.initHead]
        · simp [LruLinks.initHead, hij]
      · rw [hfirst]
        by_cases hj : j = 0
        · subst hj
          simp [LruLinks.initHead]
        · simp [LruLinks.initHead, hj, Ne.symm hj]
      · rw [hlast]
        by_cases hj : j = Fin.last n
        · subst hj
          simp [LruLinks.initHead]
        · have hval : j.val ≠ n := fun he => hj (Fin.ext he)
          simp [LruLinks.initHead, hval, Ne.symm hj]

theorem finRange_getElem? {k : Nat} :
    (List.finRange (n + 1))[k]? = if h : k < n + 1 then some ⟨k, h⟩ else none := by
  split
  · rename_i h
    rw [List.getElem?_eq_getElem (by simpa using h), List.getElem_finRange]
    rfl
  · rename_i h
    exact List.getElem?_eq_none (by simpa using h)

theorem index_of_getElem? {k : Nat} (h : (List.finRange (n + 1))[k]? = some i) : i.val = k := by
  rw [finRange_getElem?] at h
  obtain ⟨hk, hi⟩ := Option.dite_none_right_eq_some.mp h
  rw [← Option.some.inj hi]

theorem bufferInit_fields (s : LruLinks (n + 1)) (i : Fin (n + 1)) :
    s.bufferInit.bNextLru i = (if h : i.val = n then none else some ⟨i + 1, by omega⟩) ∧
      s.bufferInit.bPrevLru i = (if i.val = 0 then none else some ⟨i - 1, by omega⟩) ∧
      s.bufferInit.bhLru = some 0 ∧ s.bufferInit.bhLlru = some (Fin.last n) := by
  have hfold := foldl_initHead (i := i) (s := s) (l := List.finRange (n + 1))
  have hall : ∀ i : Fin (n + 1), i ∈ List.finRange (n + 1) := List.mem_finRange
  rw [if_pos (hall i), if_pos (hall i), if_pos (hall 0), if_pos (hall (Fin.last n))] at hfold
  exact hfold

theorem bufferInit_lruList (s : LruLinks (n + 1)) :
    LruList s.bufferInit (List.finRange (n + 1)) where
  links := by
    refine .of_getElem? ?_ (fun i hi => ?_) (fun k i hi => ?_) fun k i j hi hj => ?_
    · rw [(bufferInit_fields s 0).2.2.1, finRange_getElem?, dif_pos (Nat.succ_pos n)]
      rfl
    · rw [(bufferInit_fields s i).2.1, if_pos (index_of_getElem? hi)]
    · have hk := index_of_getElem? hi
      rw [(bufferInit_fields s i).1, finRange_getElem?]
      by_cases hlast : i.val = n
      · rw [dif_pos hlast, dif_neg (by omega)]
      · rw [dif_neg hlast, dif_pos (by omega)]
        simp only [hk]
    · have hk := index_of_getElem? hi
      have hk' := index_of_getElem? hj
      rw [(bufferInit_fields s j).2.1, if_neg (by omega)]
      have hval : j.val - 1 = i.val := by omega
      simp only [hval]
  nodup := List.nodup_finRange _
  all := List.mem_finRange
  last := by
    rw [(bufferInit_fields s 0).2.2.2, List.getLast?_eq_getElem?, finRange_getElem?]
    simp [Fin.last]

end Init

section Put

variable {n : Nat} {bh : Fin n} {s : LruLinks n} {l : List (Fin n)}

@[simp] theorem setPrev_bNextLru (o x : Option (Fin n)) :
    (s.setPrev o x).bNextLru = s.bNextLru := by
  cases o <;> rfl

@[simp] theorem setPrev_bPrevLru (o x : Option (Fin n)) (k : Fin n) :
    (s.setPrev o x).bPrevLru k = if o = some k then x else s.bPrevLru k := by
  cases o with
  | none => rfl
  | some m =>
      rw [LruLinks.setPrev]
      by_cases hk : m = k
      · subst hk
        simp
      · simp [hk, Ne.symm hk]

@[simp] theorem setPrev_bhLru (o x : Option (Fin n)) : (s.setPrev o x).bhLru = s.bhLru := by
  cases o <;> rfl

@[simp] theorem setPrev_bhLlru (o x : Option (Fin n)) : (s.setPrev o x).bhLlru = s.bhLlru := by
  cases o <;> rfl

@[simp] theorem setNext_bNextLru (o x : Option (Fin n)) (k : Fin n) :
    (s.setNext o x).bNextLru k = if o = some k then x else s.bNextLru k := by
  cases o with
  | none => rfl
  | some m =>
      rw [LruLinks.setNext]
      by_cases hk : m = k
      · subst hk
        simp
      · simp [hk, Ne.symm hk]

@[simp] theorem setNext_bPrevLru (o x : Option (Fin n)) :
    (s.setNext o x).bPrevLru = s.bPrevLru := by
  cases o <;> rfl

@[simp] theorem setNext_bhLru (o x : Option (Fin n)) : (s.setNext o x).bhLru = s.bhLru := by
  cases o <;> rfl

@[simp] theorem setNext_bhLlru (o x : Option (Fin n)) : (s.setNext o x).bhLlru = s.bhLlru := by
  cases o <;> rfl

theorem LruList.unhook (h : LruList s l) (bh : Fin n) :
    Dlist (s.unhook bh).bNextLru (s.unhook bh).bPrevLru (s.unhook bh).bhLru none (l.erase bh) ∧
      (s.unhook bh).bhLlru = s.bhLlru := by
  have hself : s.bNextLru bh ≠ some bh := h.links.next_ne h.nodup (h.all bh)
  refine ⟨?_, by simp [LruLinks.unhook]⟩
  have hhead : (s.unhook bh).bhLru = if s.bhLru = some bh then s.bNextLru bh else s.bhLru := by
    simp [LruLinks.unhook]
  rw [hhead]
  refine h.links.erase h.nodup (fun z hz => by cases hz) (h.all bh) (fun k => ?_) fun k => ?_
  · simp [LruLinks.unhook, hself]
  · simp [LruLinks.unhook]

theorem LruList.putLastLru (h : LruList s l) (bh : Fin n) :
    ∃ s', s.putLastLru bh = some s' ∧ LruList s' (l.erase bh ++ [bh]) := by
  unfold LruLinks.putLastLru
  by_cases hbh : s.bhLlru = some bh
  · rw [if_pos hbh]
    rw [h.last] at hbh
    obtain ⟨m, rfl⟩ := List.getLast?_eq_some_iff.mp hbh
    have hout : bh ∉ m := fun hm =>
      (List.nodup_append.mp h.nodup).2.2 bh hm bh List.mem_cons_self rfl
    refine ⟨s, rfl, ?_⟩
    rw [List.erase_append_right _ hout, List.erase_cons_head, List.append_nil]
    exact h
  · rw [if_neg hbh]
    obtain ⟨hlinks, hlast⟩ := h.unhook bh
    -- the last head is another one, and it stays
    obtain ⟨k, hk⟩ : ∃ k, l.getLast? = some k := by
      cases hl : l.getLast? with
      | some k => exact ⟨k, rfl⟩
      | none =>
          have hmem := h.all bh
          rw [List.getLast?_eq_none_iff.mp hl] at hmem
          cases hmem
    obtain ⟨m, rfl⟩ := List.getLast?_eq_some_iff.mp hk
    have hne : bh ≠ k := fun he => hbh (h.last.trans (he ▸ hk))
    have hm : bh ∈ m := by
      have hmem := h.all bh
      rw [List.mem_append, List.mem_singleton] at hmem
      exact hmem.resolve_right hne
    have hnodup := h.nodup.erase bh
    have hout : bh ∉ (m ++ [k]).erase bh := h.nodup.not_mem_erase
    rw [List.erase_append_left _ hm] at hlinks hnodup hout ⊢
    have hout' : bh ∉ m.erase bh := fun hmem => hout (List.mem_append_left _ hmem)
    have hk' : k ∉ m.erase bh := fun hmem =>
      (List.nodup_append.mp hnodup).2.2 k hmem k List.mem_cons_self rfl
    unfold LruLinks.putEnd
    dsimp only
    rw [hlast, h.last, hk]
    refine ⟨_, rfl, ?_, ?_, fun c => ?_, ?_⟩
    · refine hlinks.snoc ?_ ?_ ?_ ?_ ?_
      · intro j hj
        dsimp only
        rw [update_of_ne (fun he : j = k => hk' (he ▸ hj)),
          update_of_ne (fun he : j = bh => hout' (he ▸ hj))]
      · intro j hj
        dsimp only
        rw [update_of_ne (fun he : j = bh => hout (he ▸ hj))]
      · exact update_self _ _ _
      · exact update_self _ _ _
      · dsimp only
        rw [update_of_ne hne, update_self]
    · exact List.nodup_append.mpr ⟨hnodup, List.nodup_singleton bh, fun a ha c hc he =>
        hout (by rw [List.mem_singleton.mp hc] at he; exact he ▸ ha)⟩
    · rcases eq_or_ne c bh with rfl | hc
      · simp
      · have hmem := List.mem_erase_of_ne hc |>.mpr (h.all c)
        rw [List.erase_append_left _ hm] at hmem
        exact List.mem_append_left _ hmem
    · simp

theorem search_eq {free : Fin n → Bool} {rounds : Nat} {h b : Option (Fin n)}
    (hl : Dlist s.bNextLru s.bPrevLru h b l) (hrounds : l.length < rounds) :
    s.search free rounds h = some (l.find? free) := by
  induction l generalizing h b rounds with
  | nil =>
      obtain ⟨k, rfl⟩ : ∃ k, rounds = k + 1 :=
        Nat.exists_eq_succ_of_ne_zero (Nat.ne_of_gt hrounds)
      obtain rfl : h = none := hl
      rfl
  | cons bh l ih =>
      obtain ⟨k, rfl⟩ : ∃ k, rounds = k + 1 :=
        Nat.exists_eq_succ_of_ne_zero (Nat.ne_of_gt (Nat.zero_lt_of_lt hrounds))
      obtain ⟨rfl, _, hrest⟩ := hl
      rw [LruLinks.search, List.find?_cons]
      cases free bh with
      | true => rfl
      | false => exact ih hrest (Nat.lt_of_succ_lt_succ hrounds)

theorem LruList.length (h : LruList s l) : l.length = n := by
  have hcard : l.toFinset = Finset.univ := by
    ext bh
    simpa using h.all bh
  rw [← List.toFinset_card_of_nodup h.nodup, hcard, Finset.card_univ, Fintype.card_fin]

theorem LruList.getFreeBuffer (h : LruList s l) (free : Fin n → Bool) :
    (l.find? free = none → s.getFreeBuffer free = some (none, s)) ∧
      ∀ bh, l.find? free = some bh →
        ∃ s', s.getFreeBuffer free = some (some bh, s') ∧ s.putLastLru bh = some s' ∧
          LruList s' (l.erase bh ++ [bh]) := by
  have hsearch : s.search free (n + 1) s.bhLru = some (l.find? free) :=
    search_eq h.links (Nat.lt_succ_of_le h.length.le)
  unfold LruLinks.getFreeBuffer
  rw [hsearch]
  refine ⟨fun hnone => ?_, fun bh hbh => ?_⟩
  · rw [hnone]
  · obtain ⟨s', hput, hs'⟩ := h.putLastLru bh
    refine ⟨s', ?_, hput, hs'⟩
    rw [hbh]
    dsimp only
    rw [hput, Option.map_some]

theorem LruList.run (h : LruList s l) (calls : List (Fin n)) :
    ∃ s' l', calls.foldlM LruLinks.putLastLru s = some s' ∧ LruList s' l' := by
  induction calls generalizing s l with
  | nil => exact ⟨s, l, rfl, h⟩
  | cons bh calls ih =>
      obtain ⟨s₁, hput, h₁⟩ := h.putLastLru bh
      obtain ⟨s', l', hrun, h'⟩ := ih h₁
      refine ⟨s', l', ?_, h'⟩
      rw [List.foldlM_cons, hput]
      exact hrun

end Put

section Cache

variable {c : Buffers} {s : LruLinks nrBuffers}

theorem LruList.putLastLru_refines (h : LruList s c.lru) (bh : Bh) :
    ∃ s', s.putLastLru bh = some s' ∧ LruList s' (c.putLastLru bh).lru := by
  obtain ⟨s', hput, hs'⟩ := h.putLastLru bh
  refine ⟨s', hput, ?_⟩
  unfold Buffers.putLastLru
  split
  · rename_i hlast
    have hbh : s.bhLlru = some bh := h.last.trans hlast
    rw [LruLinks.putLastLru, if_pos hbh] at hput
    exact Option.some.inj hput ▸ h
  · exact hs'

theorem LruList.getFreeBuffer_refines (h : LruList s c.lru) :
    ∃ s', s.getFreeBuffer (fun bh => (c.buffers bh).reusable true) = some (c.takeFree.1, s') ∧
      LruList s' c.takeFree.2.lru := by
  have hfree : (fun bh => (c.buffers bh).reusable true) = c.free := by
    funext bh
    have hdata : (c.buffers bh).bData.isNone = decide ((c.buffers bh).bData = none) := by
      cases (c.buffers bh).bData <;> rfl
    simp [BufferHead.reusable, Buffers.free, Bool.and_assoc, hdata]
  obtain ⟨hnone, hsome⟩ := h.getFreeBuffer c.free
  rw [hfree]
  unfold Buffers.takeFree
  cases hfind : c.lru.find? c.free with
  | none => exact ⟨s, hnone hfind, h⟩
  | some bh =>
      obtain ⟨s', hget, hput, -⟩ := hsome bh hfind
      obtain ⟨s₁, hput₁, h₁⟩ := h.putLastLru_refines bh
      obtain rfl := Option.some.inj (hput.symm.trans hput₁)
      exact ⟨s', hget, h₁⟩

/-- What the cache does with its list; `edit` is all that it does with the heads besides. -/
inductive LruCall
  | put (bh : Bh)
  | free
  | edit (heads : Bh → BufferHead)

def LruCall.onCache (c : Buffers) : LruCall → Buffers
  | .put bh => c.putLastLru bh
  | .free => c.takeFree.2
  | .edit heads => { c with buffers := heads }

/-- The same calls on the links, which look at the heads of the cache. -/
def LruCall.onLinks : List LruCall → Buffers → LruLinks nrBuffers → Option (LruLinks nrBuffers)
  | [], _, s => some s
  | .put bh :: calls, c, s => (s.putLastLru bh).bind (onLinks calls (c.putLastLru bh))
  | .free :: calls, c, s =>
      (s.getFreeBuffer fun bh => (c.buffers bh).reusable true).bind fun r =>
        onLinks calls c.takeFree.2 r.2
  | .edit heads :: calls, c, s => onLinks calls { c with buffers := heads } s

theorem LruList.onLinks (h : LruList s c.lru) (calls : List LruCall) :
    ∃ s', LruCall.onLinks calls c s = some s' ∧
      LruList s' (calls.foldl LruCall.onCache c).lru := by
  induction calls generalizing c s with
  | nil => exact ⟨s, rfl, h⟩
  | cons call calls ih =>
      cases call with
      | put bh =>
          obtain ⟨s', hput, h'⟩ := h.putLastLru_refines bh
          rw [LruCall.onLinks, hput]
          exact ih h'
      | free =>
          obtain ⟨s', hget, h'⟩ := h.getFreeBuffer_refines
          rw [LruCall.onLinks, hget]
          exact ih h'
      | edit heads =>
          have hsame : LruList s { c with buffers := heads }.lru := h
          exact ih hsame

/-- **The cache's list is the list of the links**, from `buffer_init` on, whatever happens to
the heads; and the next free buffer is the same for both. -/
theorem lru_refines (hw : Hardware) (s₀ : LruLinks nrBuffers) (calls : List LruCall) :
    ∃ s, LruCall.onLinks calls (Buffer.bufferInit hw) s₀.bufferInit = some s ∧
      LruList s (calls.foldl LruCall.onCache (Buffer.bufferInit hw)).lru ∧
      ∃ s', s.getFreeBuffer (fun bh =>
          ((calls.foldl LruCall.onCache (Buffer.bufferInit hw)).buffers bh).reusable true) =
        some ((calls.foldl LruCall.onCache (Buffer.bufferInit hw)).takeFree.1, s') := by
  have hinit : LruList s₀.bufferInit (Buffer.bufferInit hw).lru := bufferInit_lruList s₀
  obtain ⟨s, hrun, h⟩ := hinit.onLinks calls
  obtain ⟨s', hget, -⟩ := h.getFreeBuffer_refines
  exact ⟨s, hrun, h, s', hget⟩

end Cache

/-- **The LRU list.**  After `buffer_init` and any calls of `put_last_lru`, the links
run from `bh_lru` to `bh_llru` through all heads, each once, and successors and
predecessors are inverse to each other.  One more call moves the head to the end and
leaves the order of the others.  `get_free_buffer` moves and returns the first head
that has no users, is clean and not locked, and is not in L1, if there is one. -/
theorem lru_intact {n : Nat} (s₀ : LruLinks (n + 1)) (calls : List (Fin (n + 1))) :
    ∃ s l, calls.foldlM LruLinks.putLastLru s₀.bufferInit = some s ∧
      l.Perm (List.finRange (n + 1)) ∧ Dlist s.bNextLru s.bPrevLru s.bhLru none l ∧
      (∀ a b, s.bNextLru a = some b ↔ s.bPrevLru b = some a) ∧
      (∃ a, s.bhLru = some a ∧ s.bPrevLru a = none) ∧
      (∃ a, s.bhLlru = some a ∧ s.bNextLru a = none) ∧
      (∀ bh, ∃ s', s.putLastLru bh = some s' ∧ LruList s' (l.erase bh ++ [bh])) ∧
      ∀ (external : Bool) (heads : Fin (n + 1) → BufferHead),
        (∃ bh, (heads bh).reusable external = true) →
          ∃ bh s', l.find? (fun bh => (heads bh).reusable external) = some bh ∧
            s.getFreeBuffer (fun bh => (heads bh).reusable external) = some (some bh, s') ∧
            s.putLastLru bh = some s' := by
  obtain ⟨s, l, hrun, h⟩ := (bufferInit_lruList s₀).run calls
  have hperm : l.Perm (List.finRange (n + 1)) :=
    (List.perm_ext_iff_of_nodup h.nodup (List.nodup_finRange _)).mpr fun a => by
      simp [h.all a]
  refine ⟨s, l, hrun, hperm, h.links, fun a b => h.links.inverse h.all, ?_, ?_,
    h.putLastLru, fun external heads ⟨bh, hbh⟩ => ?_⟩
  · cases l with
    | nil => exact absurd (h.all 0) List.not_mem_nil
    | cons a l => exact ⟨a, h.links.1, h.links.2.1⟩
  · cases hlast : l.getLast? with
    | none =>
        have hmem := h.all 0
        rw [List.getLast?_eq_none_iff.mp hlast] at hmem
        cases hmem
    | some a => exact ⟨a, h.last.trans hlast, h.links.next_last hlast⟩
  · cases hfind : l.find? fun bh => (heads bh).reusable external with
    | none => exact absurd hbh (List.find?_eq_none.mp hfind bh (h.all bh))
    | some first =>
        obtain ⟨s', hget, hput, -⟩ := (h.getFreeBuffer _).2 first hfind
        exact ⟨first, s', rfl, hget, hput⟩

end Buffer
end Elks
