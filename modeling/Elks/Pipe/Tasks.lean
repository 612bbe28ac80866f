import Elks.Pipe.Io

/-!
# Tasks at a pipe

Any number of tasks read and write one pipe.  A task keeps the processor until it
goes to sleep in `interruptible_sleep_on` or returns, so a run is a sequence of
turns, and between them tasks are woken, stopped or killed by signals, and ends of
the pipe are opened and released.  The bytes accepted from writers and returned to
readers are recorded beside the pipe.

**Result.**  `pipe_streams`: in every run what has been returned is a prefix of what
has been accepted, small writes are in one piece, the lock is free between turns, and
nobody sleeps who could go on.
-/

namespace Elks
namespace Pipe

open Lib

/-- What has become of a task that went to sleep. -/
inductive Status
  | asleep
  | runnable
  | stopped
deriving DecidableEq

/-- One pipe, the tasks that are in `pipe_read` or `pipe_write`, and the bytes that
have gone in and out. -/
structure Sys (τ : Type) where
  pipe : PipeInodeInfo
  tasks : τ → Option (Status × Call)
  accepted : List UInt8
  returned : List UInt8
  fault : Option Fault

/-- What can happen next. -/
inductive Act (τ : Type)
  /- A task calls `pipe_read` or `pipe_write`, or goes on in it. -/
  | read (t : τ) (nonblock signal : Bool) (count : Nat)
  | write (t : τ) (nonblock signal : Bool) (data : List UInt8)
  | resume (t : τ) (signal : Bool)
  /- A signal or a timeout, `SIGSTOP`, and a signal that kills. -/
  | wake (t : τ)
  | stop (t : τ)
  | kill (t : τ)
  /- Ends of the pipe are opened and released. -/
  | opens (reader writer : Bool)
  | releases (reader writer : Bool)

/-- A task goes on behind `interruptible_sleep_on`. -/
def Call.resume (signal : Bool) (p : PipeInodeInfo) : Call → Except Fault Turn
  | .read count => p.readOn signal count
  | .write done rest free nonblock =>
      PipeInodeInfo.writeOn nonblock signal (rest.length + 1) done rest free p

/-- The bytes of a turn that were put into the pipe. -/
def Call.puts (chunk : List UInt8) : Call → List UInt8
  | .read _ => []
  | .write _ _ _ _ => chunk

/-- The bytes of a turn that were taken from the pipe. -/
def Call.takes (chunk : List UInt8) : Call → List UInt8
  | .read _ => chunk
  | .write _ _ _ _ => []

/-- `wake_up_interruptible`. -/
def wakeUp {τ : Type} (tasks : τ → Option (Status × Call)) : τ → Option (Status × Call) :=
  fun t => (tasks t).map fun x => (if x.1 = .asleep then .runnable else x.1, x.2)

section Step

variable {τ : Type} [DecidableEq τ]

/-- The turn that an action is, and whose. -/
def Sys.turn (s : Sys τ) : Act τ → Option (τ × Call × Except Fault Turn)
  | .read t nonblock signal count =>
      if (s.tasks t).isNone ∧ 0 < count ∧ count ≤ 32767 then
        some (t, .read count, s.pipe.pipeRead nonblock signal count)
      else
        none
  | .write t nonblock signal data =>
      if (s.tasks t).isNone ∧ 0 < data.length ∧ data.length ≤ 32767 then
        some (t, .write [] data (PipeInodeInfo.firstFree data) nonblock,
          s.pipe.pipeWrite nonblock signal data)
      else
        none
  | .resume t signal =>
      match s.tasks t with
      | some (.runnable, c) => some (t, c, c.resume signal s.pipe)
      | _ => none
  | _ => none

/-- Where a turn leaves its task. -/
def Leave.task : Leave → Option (Status × Call)
  | .sleeps c => some (.asleep, c)
  | .returns _ => none

/-- The system behind a turn of task `t` in call `c`. -/
def Sys.behind (s : Sys τ) (t : τ) (c : Call) : Except Fault Turn → Sys τ
  | .error f => { s with fault := some f }
  | .ok turn =>
      { s with
        pipe := turn.pipe
        tasks := Function.update (if turn.wakes then wakeUp s.tasks else s.tasks) t
          turn.leave.task
        accepted := s.accepted ++ c.puts turn.chunk
        returned := s.returned ++ c.takes turn.chunk }

/-- A task that is not the next to run changes. -/
def Sys.setTask (s : Sys τ) (t : τ) (x : Option (Status × Call)) : Sys τ :=
  { s with tasks := Function.update s.tasks t x }

/-- What happens between turns. -/
def Sys.between (s : Sys τ) : Act τ → Option (Sys τ)
  | .wake t =>
      match s.tasks t with
      | some (.asleep, c) => some (s.setTask t (some (.runnable, c)))
      | some (.stopped, c) => some (s.setTask t (some (.runnable, c)))
      | _ => none
  | .stop t =>
      match s.tasks t with
      | some (.runnable, c) => some (s.setTask t (some (.stopped, c)))
      | _ => none
  | .kill t =>
      match s.tasks t with
      | some (.runnable, _) => some (s.setTask t none)
      | _ => none
  | .opens reader writer =>
      some { s with pipe := { s.pipe with
        readers := wrap 16 (s.pipe.readers + reader.toNat)
        writers := wrap 16 (s.pipe.writers + writer.toNat) } }
  | .releases reader writer =>
      some { s with
        pipe := { s.pipe with
          readers := wrapSub 16 s.pipe.readers reader.toNat
          writers := wrapSub 16 s.pipe.writers writer.toNat }
        tasks := wakeUp s.tasks }
  | _ => none

/-- What happens next. -/
def Sys.step (s : Sys τ) (a : Act τ) : Option (Sys τ) :=
  if s.fault.isSome then
    none
  else
    match s.turn a with
    | some (t, c, r) => some (s.behind t c r)
    | none => s.between a

/-- A new pipe, and nobody at it. -/
def Sys.start (base : Nat → UInt8) : Sys τ where
  pipe := PipeInodeInfo.fresh base
  tasks := fun _ => none
  accepted := []
  returned := []
  fault := none

/-- The systems that runs lead to. -/
inductive Reached (base : Nat → UInt8) : Sys τ → Prop
  | start : Reached base (Sys.start base)
  | step {s s' : Sys τ} {a : Act τ} (h : Reached base s) (hs : s.step a = some s') :
      Reached base s'

end Step

/-- A call that may go on: something is left to do. -/
def Call.Ok : Call → Prop
  | .read count => 0 < count
  | .write done rest free _ => rest ≠ [] ∧ Writer done rest free

/-- What a sleeper waits for has not come. -/
def Call.Waits (p : PipeInodeInfo) : Call → Prop
  | .read _ => p.len = 0
  | .write _ _ free _ => pipeBuf - p.len < free

/-- What a turn of a call does. -/
def Call.Turned (p : PipeInodeInfo) (turn : Turn) : Call → Prop
  | .read count => ReadTurn p count turn
  | .write done rest _ nonblock => WriteTurn p done rest nonblock turn

/-- The invariant of the runs. -/
structure Streams {τ : Type} (s : Sys τ) : Prop where
  ok : s.pipe.Ok
  lock : s.pipe.lock = 0
  bytes : s.accepted = s.returned ++ s.pipe.queue
  calls : ∀ t st c, s.tasks t = some (st, c) → c.Ok
  asleep : ∀ t c, s.tasks t = some (.asleep, c) → c.Waits s.pipe
  fault : s.fault = none

section Runs

variable {τ : Type} {s s' : Sys τ} {t : τ} {a : Act τ} {c : Call} {p q : PipeInodeInfo}
  {turn : Turn} {nonblock signal : Bool} {data : List UInt8} {base : Nat → UInt8}
  {tasks : τ → Option (Status × Call)} {st : Status}

theorem Call.Waits.congr (h : c.Waits p) (hlen : q.len = p.len) : c.Waits q := by
  cases c with
  | read count => exact hlen.trans h
  | write done rest free nonblock =>
      unfold Call.Waits
      rw [hlen]
      exact h

theorem wakeUp_eq_some (h : wakeUp tasks t = some (st, c)) :
    st ≠ .asleep ∧ ∃ st', tasks t = some (st', c) := by
  obtain ⟨⟨st', c'⟩, ht, hx⟩ := Option.map_eq_some_iff.mp h
  obtain ⟨hst, rfl⟩ := Prod.mk.inj hx
  refine ⟨?_, st', ht⟩
  rintro rfl
  split at hst
  · cases hst
  · rename_i hne
    exact hne hst

theorem writer_first (hdata : 0 < data.length) : Writer [] data (PipeInodeInfo.firstFree data) := by
  unfold PipeInodeInfo.firstFree
  refine ⟨?_, ?_⟩
  · split
    · exact hdata
    · exact Nat.one_pos
  · intro hle _
    exact ⟨rfl, if_pos hle⟩

theorem pipeWrite_spec (h : p.Ok) (hlock : p.lock = 0) (hdata : 0 < data.length) :
    ∃ turn, p.pipeWrite nonblock signal data = .ok turn ∧
      WriteTurn p [] data nonblock turn := by
  unfold PipeInodeInfo.pipeWrite
  split
  · refine ⟨_, rfl, ⟨h, SameEnds.refl p, ?_, fun _ => rfl, fun _ => Or.inl rfl,
      List.nil_prefix, ?_, ?_⟩⟩
    · rw [List.append_nil]
    · intro c hc
      cases hc
    · intro v hv
      have hvalue : -epipe = v := Leave.returns.inj hv
      have hpos := epipe_pos
      refine ⟨?_, fun _ => rfl⟩
      intro hle
      omega
  · exact writeOn_spec h hlock (writer_first hdata) (Nat.lt_succ_self _)

theorem resume_spec (h : p.Ok) (hlock : p.lock = 0) (hc : c.Ok) :
    ∃ turn, c.resume signal p = .ok turn ∧ c.Turned p turn := by
  cases c with
  | read count => exact readOn_spec h hlock hc
  | write done rest free nonblock => exact writeOn_spec h hlock hc.2 (Nat.lt_succ_self _)

section Turned

variable (hc : c.Ok) (h : c.Turned p turn)

include h in
theorem Call.Turned.pipe_ok : turn.pipe.Ok ∧ SameEnds p turn.pipe ∧
    (turn.wakes = false → turn.pipe = p) := by
  cases c with
  | read count => exact ⟨h.ok, h.same, h.quiet⟩
  | write done rest free nonblock => exact ⟨h.ok, h.same, h.quiet⟩

include h in
/-- What goes in goes behind the end, and what comes out comes off the front. -/
theorem Call.Turned.bytes : p.queue ++ c.puts turn.chunk = c.takes turn.chunk ++ turn.pipe.queue := by
  cases c with
  | read count =>
      rw [h.bytes]
      exact List.append_nil _
  | write done rest free nonblock => exact h.bytes.symm

include hc h in
theorem Call.Turned.goesToSleep {c' : Call} (hleave : turn.leave = .sleeps c') :
    c'.Ok ∧ c'.Waits turn.pipe := by
  cases c with
  | read count =>
      have hread : ReadTurn p count turn := h
      obtain ⟨rfl, hchunk, hlen⟩ := hread.sleeps c' hleave
      refine ⟨hc, ?_⟩
      have hbytes := hread.bytes
      rw [hchunk, List.nil_append] at hbytes
      have hsame : turn.pipe.len = p.len := by
        rw [← PipeInodeInfo.queue_length, ← hbytes, PipeInodeInfo.queue_length]
      exact hsame.trans hlen
  | write done rest free nonblock =>
      have hwrite : WriteTurn p done rest nonblock turn := h
      obtain ⟨rest', free', rfl, _, hne, hw, hfull⟩ := hwrite.sleeps c' hleave
      exact ⟨⟨hne, hw⟩, hfull⟩

end Turned

theorem Streams.turned {r : Except Fault Turn} (h : Streams s) (hturn : s.turn a = some (t, c, r)) :
    c.Ok ∧ ∃ turn, r = .ok turn ∧ c.Turned s.pipe turn := by
  cases a with
  | read t' nonblock signal count =>
      simp only [Sys.turn] at hturn
      split at hturn
      · rename_i hcan
        obtain ⟨_, hrest⟩ := Prod.mk.inj (Option.some.inj hturn)
        obtain ⟨rfl, rfl⟩ := Prod.mk.inj hrest
        exact ⟨hcan.2.1, pipeRead_spec h.ok h.lock hcan.2.1⟩
      · cases hturn
  | write t' nonblock signal data =>
      simp only [Sys.turn] at hturn
      split at hturn
      · rename_i hcan
        obtain ⟨_, hrest⟩ := Prod.mk.inj (Option.some.inj hturn)
        obtain ⟨rfl, rfl⟩ := Prod.mk.inj hrest
        have hdata := hcan.2.1
        exact ⟨⟨List.ne_nil_of_length_pos hdata, writer_first hdata⟩,
          pipeWrite_spec h.ok h.lock hdata⟩
      · cases hturn
  | resume t' signal =>
      simp only [Sys.turn] at hturn
      split at hturn
      · rename_i c' ht
        obtain ⟨_, hrest⟩ := Prod.mk.inj (Option.some.inj hturn)
        obtain ⟨rfl, rfl⟩ := Prod.mk.inj hrest
        have hc := h.calls _ _ _ ht
        exact ⟨hc, resume_spec h.ok h.lock hc⟩
      · cases hturn
  | _ => cases hturn

theorem others_eq_some {wakes : Bool}
    (h : (if wakes then wakeUp tasks else tasks) t = some (st, c)) :
    (st = .asleep → wakes = false ∧ tasks t = some (.asleep, c)) ∧
      ∃ st', tasks t = some (st', c) := by
  cases wakes with
  | true =>
      obtain ⟨hne, hwas⟩ := wakeUp_eq_some h
      exact ⟨fun hst => absurd hst hne, hwas⟩
  | false =>
      refine ⟨?_, st, h⟩
      rintro rfl
      exact ⟨rfl, h⟩

variable [DecidableEq τ]

theorem behind_tasks {u : τ} {d : Call} (h : (s.behind t c (.ok turn)).tasks u = some (st, d)) :
    turn.leave = .sleeps d ∨
      (if turn.wakes then wakeUp s.tasks else s.tasks) u = some (st, d) := by
  have hupdate : Function.update (if turn.wakes then wakeUp s.tasks else s.tasks) t
      turn.leave.task u = some (st, d) := h
  by_cases hut : u = t
  · subst hut
    rw [Function.update_self] at hupdate
    cases hleave : turn.leave with
    | sleeps c' =>
        rw [hleave] at hupdate
        obtain ⟨_, rfl⟩ := Prod.mk.inj (Option.some.inj hupdate)
        exact Or.inl rfl
    | returns v =>
        rw [hleave] at hupdate
        cases hupdate
  · rw [Function.update_of_ne hut] at hupdate
    exact Or.inr hupdate

theorem Streams.behind (h : Streams s) (hc : c.Ok) (hturn : c.Turned s.pipe turn) :
    Streams (s.behind t c (.ok turn)) := by
  obtain ⟨hok, hsame, hquiet⟩ := hturn.pipe_ok
  refine ⟨hok, hsame.lock.trans h.lock, ?_, ?_, ?_, h.fault⟩
  · calc s.accepted ++ c.puts turn.chunk
        = s.returned ++ (s.pipe.queue ++ c.puts turn.chunk) := by
          rw [h.bytes, List.append_assoc]
      _ = s.returned ++ c.takes turn.chunk ++ turn.pipe.queue := by
          rw [hturn.bytes, List.append_assoc]
  · intro u st d hu
    rcases behind_tasks hu with hleave | hother
    · exact (hturn.goesToSleep hc hleave).1
    · obtain ⟨_, st', hwas⟩ := others_eq_some hother
      exact h.calls u st' d hwas
  · intro u d hu
    rcases behind_tasks hu with hleave | hother
    · exact (hturn.goesToSleep hc hleave).2
    · obtain ⟨hwakes, hstill⟩ := (others_eq_some hother).1 rfl
      exact (h.asleep u d hstill).congr (congrArg PipeInodeInfo.len (hquiet hwakes))

theorem Streams.setTask {x : Option (Status × Call)} (h : Streams s)
    (hx : ∀ st c, x = some (st, c) → c.Ok ∧ st ≠ .asleep) : Streams (s.setTask t x) := by
  have hcases : ∀ {u : τ} {st d}, (s.setTask t x).tasks u = some (st, d) →
      (d.Ok ∧ st ≠ .asleep) ∨ s.tasks u = some (st, d) := by
    intro u st d hu
    have hupdate : Function.update s.tasks t x u = some (st, d) := hu
    by_cases hut : u = t
    · subst hut
      rw [Function.update_self] at hupdate
      exact Or.inl (hx st d hupdate)
    · rw [Function.update_of_ne hut] at hupdate
      exact Or.inr hupdate
  refine ⟨h.ok, h.lock, h.bytes, ?_, ?_, h.fault⟩
  · intro u st d hu
    rcases hcases hu with hnew | hwas
    · exact hnew.1
    · exact h.calls u st d hwas
  · intro u d hu
    rcases hcases hu with hnew | hwas
    · exact absurd rfl hnew.2
    · exact h.asleep u d hwas

theorem Streams.setStatus {st st' : Status} (h : Streams s) (ht : s.tasks t = some (st, c))
    (hst : st' ≠ .asleep) : Streams (s.setTask t (some (st', c))) := by
  refine h.setTask ?_
  intro st'' d hx
  obtain ⟨rfl, rfl⟩ := Prod.mk.inj (Option.some.inj hx)
  exact ⟨h.calls t st c ht, hst⟩

theorem Streams.between (h : Streams s) (hs : s.between a = some s') : Streams s' := by
  cases a with
  | wake u =>
      simp only [Sys.between] at hs
      split at hs
      · rename_i c ht
        obtain rfl := Option.some.inj hs
        exact h.setStatus ht (by simp)
      · rename_i c ht
        obtain rfl := Option.some.inj hs
        exact h.setStatus ht (by simp)
      · cases hs
  | stop u =>
      simp only [Sys.between] at hs
      split at hs
      · rename_i c ht
        obtain rfl := Option.some.inj hs
        exact h.setStatus ht (by simp)
      · cases hs
  | kill u =>
      simp only [Sys.between] at hs
      split at hs
      · obtain rfl := Option.some.inj hs
        exact h.setTask fun st c hx => by cases hx
      · cases hs
  | opens reader writer =>
      obtain rfl := Option.some.inj hs
      refine ⟨h.ok.congr rfl rfl, h.lock, h.bytes, h.calls, ?_, h.fault⟩
      intro u d hu
      exact (h.asleep u d hu).congr rfl
  | releases reader writer =>
      obtain rfl := Option.some.inj hs
      refine ⟨h.ok.congr rfl rfl, h.lock, h.bytes, ?_, ?_, h.fault⟩
      · intro u st d hu
        obtain ⟨_, st', hwas⟩ := wakeUp_eq_some hu
        exact h.calls u st' d hwas
      · intro u d hu
        exact absurd rfl (wakeUp_eq_some hu).1
  | read | write | resume => cases hs

theorem Streams.step (h : Streams s) (hs : s.step a = some s') : Streams s' := by
  unfold Sys.step at hs
  split at hs
  · cases hs
  · split at hs
    · rename_i t c r hturn
      obtain rfl := Option.some.inj hs
      obtain ⟨hc, turn, rfl, hturned⟩ := h.turned hturn
      exact h.behind hc hturned
    · exact h.between hs

omit [DecidableEq τ] in
theorem Streams.start : Streams (Sys.start base : Sys τ) := by
  refine ⟨⟨Nat.zero_le _, by norm_num [Sys.start, PipeInodeInfo.fresh, pipeBuf]⟩, rfl, ?_,
    ?_, ?_, rfl⟩
  · rfl
  · intro t st c ht
    cases ht
  · intro t c ht
    cases ht

theorem Reached.streams (h : Reached base s) : Streams s := by
  induction h with
  | start => exact Streams.start
  | step _ hs ih => exact ih.step hs

/-- A pipe is a stream of bytes, whatever the schedule. -/
theorem pipe_streams (h : Reached base s) :
    s.returned <+: s.accepted ∧ s.pipe.len ≤ pipeBuf ∧ s.pipe.start < pipeBuf ∧
    s.pipe.lock = 0 ∧ s.fault = none ∧
    (∀ t count, s.tasks t = some (.asleep, .read count) → s.pipe.len = 0) ∧
    (∀ t done rest free nonblock,
      s.tasks t = some (.asleep, .write done rest free nonblock) →
        pipeBuf - s.pipe.len < free) ∧
    ∀ a t c r, s.turn a = some (t, c, r) → ∃ turn, r = .ok turn ∧ turn.pipe.lock = 0 ∧
      (∀ count, c = .read count →
        (∀ c', turn.leave = .sleeps c' → turn.chunk = []) ∧
        (∀ v, turn.leave = .returns v → (0 < v → v = turn.chunk.length) ∧
          (v ≤ 0 → turn.chunk = []) ∧ (v = 0 → s.pipe.len = 0 ∧ s.pipe.writers = 0))) ∧
      (∀ done rest free nonblock, c = .write done rest free nonblock →
        (∀ v, turn.leave = .returns v → 0 ≤ v → v = (done ++ turn.chunk).length) ∧
        ((done ++ rest).length ≤ pipeBuf →
          turn.chunk = [] ∨ done = [] ∧ turn.chunk = rest)) := by
  have hstreams := h.streams
  refine ⟨⟨s.pipe.queue, hstreams.bytes.symm⟩, hstreams.ok.len, hstreams.ok.start,
    hstreams.lock, hstreams.fault, fun t count ht => hstreams.asleep t _ ht,
    fun t done rest free nonblock ht => hstreams.asleep t _ ht, ?_⟩
  intro a t c r hturn
  obtain ⟨_, turn, hr, hturned⟩ := hstreams.turned hturn
  have hlock := hturned.pipe_ok.2.1.lock.trans hstreams.lock
  refine ⟨turn, hr, hlock, ?_, ?_⟩
  · rintro count rfl
    have hread : ReadTurn s.pipe count turn := hturned
    exact ⟨fun c' hc' => (hread.sleeps c' hc').2.1, hread.returns⟩
  · rintro done rest free nonblock rfl
    have hwrite : WriteTurn s.pipe done rest nonblock turn := hturned
    exact ⟨fun v hv => (hwrite.returns v hv).1, hwrite.whole⟩

/-- A reader sleeps, is woken by a writer, and gets its bytes. -/
theorem pipe_streams_readerWoken :
    ∃ s : Sys Bool, Reached (fun _ => 0) s ∧ s.returned = [7, 8] ∧
      s.returned <+: s.accepted ∧ s.accepted = [7, 8, 9] := by
  have hsleeps := Reached.step (a := .read true false false 2)
    (Reached.start : Reached (fun _ => 0) (Sys.start (fun _ => 0) : Sys Bool)) rfl
  have hwoken := hsleeps.step (a := .write false false false [7, 8, 9]) rfl
  have hdone := hwoken.step (a := .resume true false) rfl
  exact ⟨_, hdone, rfl, (pipe_streams hdone).1, rfl⟩

end Runs

end Pipe
end Elks
