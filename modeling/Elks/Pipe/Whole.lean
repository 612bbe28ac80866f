import Elks.Pipe.Tasks

/-!
# Whole calls of `pipe_read` and `pipe_write`

A call takes a turn whenever its task goes on, with the pipe as the others have left
it, until it returns.  `sys_read` and `sys_write` hand their `size_t` to an `int count`,
which is negative from 32768 on.

* `Ends.reads`: how a call of `pipe_read` ends, by the pipe that its last turn finds.
* `Ends.writes`: a call of `pipe_write` returns what it has put into the pipe in all its
  turns, or an error if that is nothing.
-/

namespace Elks
namespace Pipe

open Lib

section Code

/-- The count that the loops of `pipe_read` and `pipe_write` see: they ask for
`count > 0` first, so a negative `int` is as good as zero. -/
def intCount (count : Nat) : Nat :=
  ((count : Int).bmod 65536).toNat

/-- What a task finds where it goes on: the pipe, and whether a signal is pending. -/
structure Visit where
  pipe : PipeInodeInfo
  signal : Bool

/-- `pipe_read` for a count of `sys_read`. -/
def Visit.pipeRead (w : Visit) (nonblock : Bool) (count : Nat) : Except Fault Turn :=
  w.pipe.pipeRead nonblock w.signal (intCount count)

/-- `pipe_write` for the bytes of `sys_write`. -/
def Visit.pipeWrite (w : Visit) (nonblock : Bool) (data : List UInt8) : Except Fault Turn :=
  w.pipe.pipeWrite nonblock w.signal (data.take (intCount data.length))

/-- The pipe between turns. -/
structure Visit.AtRest (w : Visit) : Prop where
  ok : w.pipe.Ok
  lock : w.pipe.lock = 0

/-- A call whose turn at `w` was `turn` returns `v` at `last`, and has moved `n` bytes from
this turn on. -/
inductive Ends : Visit → Turn → Visit → Int → Nat → Prop
  | returns {w : Visit} {turn : Turn} {v : Int} :
      turn.leave = .returns v → Ends w turn w v turn.chunk.length
  | sleeps {w w' last : Visit} {turn turn' : Turn} {c : Call} {v : Int} {n : Nat} :
      turn.leave = .sleeps c → w'.AtRest → c.resume w'.signal w'.pipe = .ok turn' →
      Ends w' turn' last v n → Ends w turn last v (turn.chunk.length + n)

end Code

section Property

/-- How a call of `pipe_read` ends. -/
inductive ReadEnd (p : PipeInodeInfo) (count : Nat) : Int → Nat → Prop
  | atEnd : p.len = 0 → p.writers = 0 → ReadEnd p count 0 0
  | refused {v : Int} : p.len = 0 → p.writers ≠ 0 → v < 0 → ReadEnd p count v 0
  | bytes {n : Nat} : p.len ≠ 0 → 0 < count → 0 < n → ReadEnd p count n n
  | blind : p.len ≠ 0 → count = 0 → ReadEnd p count (if p.writers ≠ 0 then -eagain else 0) 0

/-- A turn of a reader goes back to sleep or ends the call. -/
def ReadsOn (p : PipeInodeInfo) (count : Nat) (turn : Turn) : Prop :=
  turn.leave = .sleeps (.read count) ∧ turn.chunk = [] ∨
    ∃ v, turn.leave = .returns v ∧ ReadEnd p count v turn.chunk.length

/-- A turn of a writer with something to write. -/
structure WritesOn (p : PipeInodeInfo) (done rest : List UInt8) (nonblock : Bool)
    (turn : Turn) : Prop where
  moves : WriteTurn p done rest nonblock turn
  rest : rest ≠ []
  value : turn.leave ≠ .returns 0

end Property

section Counts

theorem intCount_small {count : Nat} (h : count < 32768) : intCount count = count := by
  have hsame : (count : Int).bmod 65536 = count := Int.bmod_eq_of_le (by omega) (by omega)
  unfold intCount
  rw [hsame]
  exact Int.toNat_natCast count

theorem intCount_large {count : Nat} (hlo : 32768 ≤ count) (hhi : count < 65536) :
    intCount count = 0 := by
  have hneg : (count : Int).bmod 65536 ≤ 0 := by
    unfold Int.bmod
    dsimp only
    split <;> omega
  exact Int.toNat_of_nonpos hneg

end Counts

section Readers

variable {p : PipeInodeInfo} {w last : Visit} {count n : Nat} {nonblock signal : Bool}
  {turn : Turn} {v : Int}

theorem readBytes_ends (h : p.Ok) (hlen : p.len ≠ 0) :
    ∃ turn, p.readBytes count = .ok turn ∧ ReadsOn p count turn := by
  rcases Nat.eq_zero_or_pos count with rfl | hcount
  · refine ⟨_, rfl, Or.inr ⟨_, rfl, ?_⟩⟩
    have hwriters : p.lockUp.writers = p.writers := p.setLock_writers _
    simp only [List.length_nil, ne_eq, not_true, if_false, hwriters]
    exact ReadEnd.blind hlen rfl
  · obtain ⟨q, hrun, -, -, -⟩ := copyOut_spec [] (h.setLock _) (Nat.lt_add_one count)
    rw [PipeInodeInfo.setLock_queue] at hrun
    have hsome : (p.queue.take count).length ≠ 0 := by
      rw [List.length_take, p.queue_length]
      omega
    unfold PipeInodeInfo.readBytes PipeInodeInfo.lockUp
    rw [hrun]
    simp only [List.nil_append, if_pos hsome]
    exact ⟨_, rfl, Or.inr ⟨_, rfl, ReadEnd.bytes hlen hcount (Nat.pos_of_ne_zero hsome)⟩⟩

theorem readsOn_refused {t : Turn} (hlen : p.len = 0) (hwriters : p.writers ≠ 0) (hv : v < 0)
    (hleave : t.leave = .returns v) (hchunk : t.chunk = []) : ReadsOn p count t := by
  refine Or.inr ⟨v, hleave, ?_⟩
  rw [hchunk]
  exact ReadEnd.refused hlen hwriters hv

theorem readOn_ends (h : p.Ok) (hlock : p.lock = 0) :
    ∃ turn, p.readOn signal count = .ok turn ∧ ReadsOn p count turn := by
  unfold PipeInodeInfo.readOn
  split
  · rename_i hwait
    have hempty : p.len = 0 := hwait.resolve_right (not_not.mpr hlock)
    split
    · rename_i heof
      exact ⟨_, rfl, Or.inr ⟨0, rfl, ReadEnd.atEnd heof.1 heof.2⟩⟩
    · rename_i hopen
      have hwriters : p.writers ≠ 0 := fun hnone => hopen ⟨hempty, hnone⟩
      split
      · have hneg : -erestartsys < 0 := by
          have hpos := erestartsys_pos
          omega
        exact ⟨_, rfl, readsOn_refused hempty hwriters hneg rfl rfl⟩
      · exact ⟨_, rfl, Or.inl ⟨rfl, rfl⟩⟩
  · rename_i hready
    exact readBytes_ends h fun hempty => hready (Or.inl hempty)

theorem pipeRead_ends (h : p.Ok) (hlock : p.lock = 0) :
    ∃ turn, p.pipeRead nonblock signal count = .ok turn ∧ ReadsOn p count turn := by
  unfold PipeInodeInfo.pipeRead
  split
  · rw [if_neg (not_not.mpr hlock)]
    split
    · rename_i hempty
      by_cases hwriters : p.writers ≠ 0
      · have hneg : -eagain < 0 := by
          have hpos := eagain_pos
          omega
        rw [if_pos hwriters]
        exact ⟨_, rfl, readsOn_refused hempty hwriters hneg rfl rfl⟩
      · rw [if_neg hwriters]
        exact ⟨_, rfl, Or.inr ⟨0, rfl, ReadEnd.atEnd hempty (not_not.mp hwriters)⟩⟩
    · rename_i hlen
      exact readBytes_ends h hlen
  · exact readOn_ends h hlock

theorem Ends.reads (h : Ends w turn last v n) (hturn : ReadsOn w.pipe count turn) :
    ReadEnd last.pipe count v n := by
  induction h with
  | returns hleave =>
      rcases hturn with ⟨hsleeps, -⟩ | ⟨v', hreturns, hend⟩
      · rw [hleave] at hsleeps
        cases hsleeps
      · rw [hleave] at hreturns
        obtain rfl := Leave.returns.inj hreturns
        exact hend
  | sleeps hleave hrest hrun _ ih =>
      rcases hturn with ⟨hsleeps, hchunk⟩ | ⟨v', hreturns, -⟩
      · rw [hleave] at hsleeps
        obtain rfl := Leave.sleeps.inj hsleeps
        obtain ⟨turn, hrun', hturn⟩ := readOn_ends hrest.ok hrest.lock
        obtain rfl := Except.ok.inj (hrun'.symm.trans hrun)
        rw [hchunk, List.length_nil, Nat.zero_add]
        exact ih hturn
      · rw [hleave] at hreturns
        cases hreturns

end Readers

section Writers

variable {p : PipeInodeInfo} {w last : Visit} {n fuel free : Nat} {nonblock signal : Bool}
  {turn : Turn} {v : Int} {done rest data : List UInt8}

theorem broken_ne_zero {error : Int} (herror : 0 < error) :
    PipeInodeInfo.broken done error ≠ .returns 0 := by
  intro h
  have hvalue := Leave.returns.inj h
  split at hvalue <;> omega

theorem writeOn_value (h : PipeInodeInfo.writeOn nonblock signal fuel done rest free p = .ok turn)
    (hzero : turn.leave = .returns 0) : done = [] ∧ rest = [] := by
  induction fuel generalizing done rest free p turn with
  | zero => cases h
  | succ fuel ih =>
      unfold PipeInodeInfo.writeOn at h
      split at h
      · split at h
        · split at h
          · obtain rfl := Except.ok.inj h
            exact absurd hzero (broken_ne_zero epipe_pos)
          · split at h
            · obtain rfl := Except.ok.inj h
              exact absurd hzero (broken_ne_zero erestartsys_pos)
            · split at h
              · obtain rfl := Except.ok.inj h
                exact absurd hzero (broken_ne_zero eagain_pos)
              · obtain rfl := Except.ok.inj h
                cases hzero
        · split at h
          · cases h
          · rename_i rest' q _
            dsimp only at h
            split at h
            · cases h
            · rename_i t hrun
              obtain rfl := Except.ok.inj h
              obtain ⟨hdone, hrest⟩ := ih hrun hzero
              obtain ⟨rfl, hchunk⟩ := List.append_eq_nil_iff.mp hdone
              rw [hrest, List.length_nil, Nat.sub_zero, List.take_length] at hchunk
              exact ⟨rfl, hchunk⟩
      · rename_i hnone
        obtain rfl := Except.ok.inj h
        have hvalue : (done.length : Int) = 0 := Leave.returns.inj hzero
        exact ⟨List.length_eq_zero_iff.mp (by omega), List.length_eq_zero_iff.mp (by omega)⟩

theorem writeOn_ends
    (h : p.Ok) (hlock : p.lock = 0) (hw : Writer done rest free) (hrest : rest ≠ []) :
    ∃ turn, PipeInodeInfo.writeOn nonblock signal (rest.length + 1) done rest free p = .ok turn ∧
      WritesOn p done rest nonblock turn := by
  obtain ⟨turn, hrun, hturn⟩ :=
    @writeOn_spec p free _ done rest nonblock signal h hlock hw (Nat.lt_succ_self rest.length)
  exact ⟨turn, hrun, hturn, hrest, fun hzero => hrest (writeOn_value hrun hzero).2⟩

theorem pipeWrite_ends (h : p.Ok) (hlock : p.lock = 0) (hdata : data ≠ []) :
    ∃ turn, p.pipeWrite nonblock signal data = .ok turn ∧
      WritesOn p [] data nonblock turn := by
  have hpos := List.length_pos_of_ne_nil hdata
  obtain ⟨turn, hrun, hturn⟩ := @pipeWrite_spec p nonblock signal data h hlock hpos
  refine ⟨turn, hrun, hturn, hdata, fun hzero => ?_⟩
  unfold PipeInodeInfo.pipeWrite at hrun
  split at hrun
  · obtain rfl := Except.ok.inj hrun
    have hvalue : -epipe = 0 := Leave.returns.inj hzero
    have hpos := epipe_pos
    omega
  · exact hdata (writeOn_value hrun hzero).2

theorem Ends.writes (h : Ends w turn last v n) (hturn : WritesOn w.pipe done rest nonblock turn) :
    v ≠ 0 ∧ n ≤ rest.length ∧ (0 ≤ v → v = done.length + n) ∧ (v < 0 → done.length + n = 0) := by
  induction h generalizing done rest with
  | @returns w turn v hleave =>
      obtain ⟨hpos, hneg⟩ := hturn.moves.returns v hleave
      refine ⟨fun hzero => hturn.value (hzero ▸ hleave), hturn.moves.begins.length_le,
        fun hv => ?_, fun hv => ?_⟩
      · rw [hpos hv, List.length_append]
        exact Nat.cast_add _ _
      · rw [← List.length_append, hneg hv]
        rfl
  | @sleeps w w' last turn turn' c v n hleave hrest hrun _ ih =>
      obtain ⟨rest', free, rfl, hsplit, hne, hwriter, -⟩ := hturn.moves.sleeps c hleave
      obtain ⟨turn'', hrun', hturn'⟩ :=
        @writeOn_ends w'.pipe free nonblock w'.signal _ _ hrest.ok hrest.lock hwriter hne
      obtain rfl := Except.ok.inj (hrun'.symm.trans hrun)
      obtain ⟨hv, hle, hpos, hneg⟩ := ih hturn'
      have hlen : rest.length = turn.chunk.length + rest'.length := by
        rw [hsplit, List.length_append]
      rw [List.length_append] at hpos hneg
      refine ⟨hv, by omega, fun h => ?_, fun h => ?_⟩
      · have hsum := hpos h
        omega
      · have hsum := hneg h
        omega

theorem Ends.writesNothing (hrun : p.pipeWrite nonblock signal [] = .ok turn)
    (h : Ends w turn last v n) : n = 0 ∧ v = if p.readers = 0 then -epipe else 0 := by
  have hturn : turn.chunk = [] ∧
      turn.leave = .returns (if p.readers = 0 then -epipe else 0) := by
    unfold PipeInodeInfo.pipeWrite at hrun
    split at hrun
    · rename_i hnone
      obtain rfl := Except.ok.inj hrun
      rw [if_pos hnone]
      exact ⟨rfl, rfl⟩
    · rename_i hsome
      obtain rfl := Except.ok.inj hrun
      rw [if_neg hsome]
      exact ⟨rfl, rfl⟩
  obtain ⟨hchunk, hleave⟩ := hturn
  cases h with
  | returns hv =>
      rw [hleave] at hv
      exact ⟨by rw [hchunk]; rfl, (Leave.returns.inj hv).symm⟩
  | sleeps hc =>
      rw [hleave] at hc
      cases hc

end Writers

end Pipe
end Elks
