import Elks.Lib.Fifo
import Elks.Lib.Machine

/-!
# Reading and writing a pipe

`pipe_read` and `pipe_write` over the circular buffer of a pipe, up to the point
where the task returns or goes to sleep.  In between nothing else touches the
pipe, so what a task does is a function of the pipe: its turn.

**Results.**
* `readOn_spec`: a turn of a reader takes bytes off the front.
* `writeOn_spec`: a turn of a writer puts bytes behind the end, a write of at most
  `PIPE_BUF` bytes all at once.
-/

namespace Elks
namespace Pipe

open Lib

/-- `PIPE_BUF`. -/
def pipeBuf : Nat :=
  512

def eagain : Int := 11
def epipe : Int := 32
def erestartsys : Int := 512

theorem eagain_pos : 0 < eagain := by
  norm_num [eagain]

theorem epipe_pos : 0 < epipe := by
  norm_num [epipe]

theorem erestartsys_pos : 0 < erestartsys := by
  norm_num [erestartsys]

/-- `struct pipe_inode_info`, with the memory behind `base`. -/
structure PipeInodeInfo where
  base : Nat → UInt8
  start : Nat
  len : Nat
  lock : Nat
  readers : Nat
  writers : Nat

/-- `get_pipe_inode` over the given memory. -/
def PipeInodeInfo.fresh (base : Nat → UInt8) : PipeInodeInfo where
  base := base
  start := 0
  len := 0
  lock := 0
  readers := 1
  writers := 1

/-- A task in `pipe_read` with the bytes it still wants, or in `pipe_write` with the
bytes written, those to write, `free`, and `O_NONBLOCK`. -/
inductive Call
  | read (count : Nat)
  | write (done rest : List UInt8) (free : Nat) (nonblock : Bool)

/-- How a turn ends. -/
inductive Leave
  | sleeps (c : Call)
  | returns (value : Int)

/-- A turn of a task: the pipe behind it, how it ends, the bytes moved, and whether
it wakes the others and sends `SIGPIPE`. -/
structure Turn where
  pipe : PipeInodeInfo
  leave : Leave
  chunk : List UInt8
  wakes : Bool
  sigpipe : Bool

namespace PipeInodeInfo

variable (p : PipeInodeInfo)

/-- The bytes in the pipe. -/
def queue : List UInt8 :=
  queued pipeBuf p.base p.start p.len

/-- `PIPE_END`. -/
def tail : Nat :=
  wrap 16 (p.start + p.len) &&& (pipeBuf - 1)

/-- `PIPE_FREE`. -/
def space : Nat :=
  wrapSub 16 pipeBuf p.len

def setLock (lock : Nat) : PipeInodeInfo :=
  { p with lock := lock }

def lockUp : PipeInodeInfo :=
  p.setLock (wrap 16 (p.lock + 1))

def lockDown : PipeInodeInfo :=
  p.setLock (wrapSub 16 p.lock 1)

@[simp] theorem setLock_lock (lock : Nat) : (p.setLock lock).lock = lock := by
  cases p
  rfl

@[simp] theorem setLock_len (lock : Nat) : (p.setLock lock).len = p.len := by
  cases p
  rfl

@[simp] theorem setLock_start (lock : Nat) : (p.setLock lock).start = p.start := by
  cases p
  rfl

@[simp] theorem setLock_readers (lock : Nat) : (p.setLock lock).readers = p.readers := by
  cases p
  rfl

@[simp] theorem setLock_writers (lock : Nat) : (p.setLock lock).writers = p.writers := by
  cases p
  rfl

@[simp] theorem setLock_queue (lock : Nat) : (p.setLock lock).queue = p.queue := by
  cases p
  rfl

/-- `chars` in `pipe_read`. -/
def readChars (count : Nat) : Nat :=
  let chars := wrapSub 16 pipeBuf p.start
  let chars := if count < chars then count else chars
  if p.len < chars then p.len else chars

/-- `chars` in `pipe_write`. -/
def writeChars (count free : Nat) : Nat :=
  let chars := wrap 16 (wrapSub 16 0 p.tail + pipeBuf)
  let chars := if count < chars then count else chars
  if free < chars then free else chars

/-- The inner loop of `pipe_read`. -/
def copyOut : Nat → Nat → List UInt8 → PipeInodeInfo →
    Except Fault (List UInt8 × PipeInodeInfo)
  | 0, _, _, _ => .error .endless
  | fuel + 1, count, read, p =>
      if 0 < count ∧ p.len ≠ 0 then
        let chars := p.readChars count
        copyOut fuel (count - chars) (read ++ slice p.base p.start chars)
          { p with
            start := wrap 16 (p.start + chars) &&& (pipeBuf - 1)
            len := wrapSub 16 p.len chars }
      else
        .ok (read, p)

/-- The inner loop of `pipe_write`. -/
def fill : Nat → List UInt8 → PipeInodeInfo → Except Fault (List UInt8 × PipeInodeInfo)
  | 0, _, _ => .error .endless
  | fuel + 1, rest, p =>
      if 0 < rest.length ∧ p.space ≠ 0 then
        let chars := p.writeChars rest.length p.space
        fill fuel (rest.drop chars)
          { p with
            base := copyIn p.base p.tail (rest.take chars)
            len := wrap 16 (p.len + chars) }
      else
        .ok (rest, p)

/-- `pipe_read` behind its waiting loop. -/
def readBytes (count : Nat) : Except Fault Turn :=
  match copyOut (count + 1) count [] p.lockUp with
  | .error f => .error f
  | .ok (read, q) =>
      let value : Int :=
        if read.length ≠ 0 then read.length else if q.writers ≠ 0 then -eagain else 0
      .ok ⟨q.lockDown, .returns value, read, true, false⟩

/-- The waiting loop of `pipe_read`, and what comes behind it. -/
def readOn (signal : Bool) (count : Nat) : Except Fault Turn :=
  if p.len = 0 ∨ p.lock ≠ 0 then
    if p.len = 0 ∧ p.writers = 0 then
      .ok ⟨p, .returns 0, [], false, false⟩
    else if signal then
      .ok ⟨p, .returns (-erestartsys), [], false, false⟩
    else
      .ok ⟨p, .sleeps (.read count), [], false, false⟩
  else
    p.readBytes count

/-- `pipe_read`. -/
def pipeRead (nonblock signal : Bool) (count : Nat) : Except Fault Turn :=
  if nonblock then
    if p.lock ≠ 0 then
      .ok ⟨p, .returns (-eagain), [], false, false⟩
    else if p.len = 0 then
      .ok ⟨p, .returns (if p.writers ≠ 0 then -eagain else 0), [], false, false⟩
    else
      p.readBytes count
  else
    p.readOn signal count

/-- What `pipe_write` returns when it breaks off. -/
def broken (done : List UInt8) (error : Int) : Leave :=
  .returns (if done.length ≠ 0 then done.length else -error)

/-- The outer loop of `pipe_write`. -/
def writeOn (nonblock signal : Bool) :
    Nat → List UInt8 → List UInt8 → Nat → PipeInodeInfo → Except Fault Turn
  | 0, _, _, _, _ => .error .endless
  | fuel + 1, done, rest, free, p =>
      if 0 < rest.length then
        if p.space < free ∨ p.lock ≠ 0 then
          if p.readers = 0 then
            .ok ⟨p, broken done epipe, [], false, true⟩
          else if signal then
            .ok ⟨p, broken done erestartsys, [], false, false⟩
          else if nonblock then
            .ok ⟨p, broken done eagain, [], false, false⟩
          else
            .ok ⟨p, .sleeps (.write done rest free nonblock), [], false, false⟩
        else
          match fill (rest.length + 1) rest p.lockUp with
          | .error f => .error f
          | .ok (rest', q) =>
              let chunk := rest.take (rest.length - rest'.length)
              match writeOn nonblock signal fuel (done ++ chunk) rest' 1 q.lockDown with
              | .error f => .error f
              | .ok t => .ok { t with chunk := chunk ++ t.chunk, wakes := true }
      else
        .ok ⟨p, .returns done.length, [], false, false⟩

/-- `free` at the start of `pipe_write`. -/
def firstFree (data : List UInt8) : Nat :=
  if data.length ≤ pipeBuf then data.length else 1

/-- `pipe_write`. -/
def pipeWrite (nonblock signal : Bool) (data : List UInt8) : Except Fault Turn :=
  if p.readers = 0 then
    .ok ⟨p, .returns (-epipe), [], false, true⟩
  else
    writeOn nonblock signal (data.length + 1) [] data (firstFree data) p

end PipeInodeInfo

/-- The indices of a pipe are in range. -/
structure PipeInodeInfo.Ok (p : PipeInodeInfo) : Prop where
  len : p.len ≤ pipeBuf
  start : p.start < pipeBuf

/-- The counts of readers and writers, and the lock. -/
structure SameEnds (p q : PipeInodeInfo) : Prop where
  lock : q.lock = p.lock
  readers : q.readers = p.readers
  writers : q.writers = p.writers

section Loops

variable {p q r : PipeInodeInfo} {count free fuel : Nat} {rest : List UInt8}

theorem SameEnds.refl (p : PipeInodeInfo) : SameEnds p p :=
  ⟨rfl, rfl, rfl⟩

theorem SameEnds.trans (h : SameEnds p q) (h' : SameEnds q r) : SameEnds p r :=
  ⟨h'.lock.trans h.lock, h'.readers.trans h.readers, h'.writers.trans h.writers⟩

theorem and_pipeBuf (n : Nat) : n &&& (pipeBuf - 1) = n % pipeBuf :=
  Nat.and_two_pow_sub_one_eq_mod n 9

theorem PipeInodeInfo.Ok.tail_eq (h : p.Ok) : p.tail = (p.start + p.len) % pipeBuf := by
  have hsum : p.start + p.len < 2 ^ 16 := by
    have := h.len
    have := h.start
    simp only [pipeBuf] at *
    omega
  unfold PipeInodeInfo.tail
  rw [wrap_of_lt hsum, and_pipeBuf]

theorem PipeInodeInfo.Ok.space_eq (h : p.Ok) : p.space = pipeBuf - p.len :=
  wrapSub_of_le h.len (by decide)

theorem PipeInodeInfo.Ok.readChars_eq (h : p.Ok) :
    p.readChars count = min (min (pipeBuf - p.start) count) p.len := by
  have hstart : wrapSub 16 pipeBuf p.start = pipeBuf - p.start :=
    wrapSub_of_le h.start.le (by decide)
  unfold PipeInodeInfo.readChars
  simp only [hstart]
  grind

theorem PipeInodeInfo.Ok.writeChars_eq (h : p.Ok) :
    p.writeChars count free = min (min (pipeBuf - p.tail) count) free := by
  have htail : p.tail < pipeBuf := by
    rw [h.tail_eq]
    exact Nat.mod_lt _ (by decide)
  have hend : wrap 16 (wrapSub 16 0 p.tail + pipeBuf) = pipeBuf - p.tail := by
    simp only [wrap, wrapSub, pipeBuf] at *
    omega
  unfold PipeInodeInfo.writeChars
  simp only [hend]
  grind

theorem PipeInodeInfo.Ok.readRound (h : p.Ok) (hcount : 0 < count) (hlen : p.len ≠ 0) :
    ∃ chars, p.readChars count = chars ∧ 0 < chars ∧ chars ≤ count ∧ chars ≤ p.len ∧
      ∀ q, q = { p with
          start := wrap 16 (p.start + chars) &&& (pipeBuf - 1)
          len := wrapSub 16 p.len chars } →
        q.Ok ∧ SameEnds p q ∧ p.queue = slice p.base p.start chars ++ q.queue := by
  have hstart := h.start
  have hle := h.len
  refine ⟨_, rfl, ?_, ?_, ?_, ?_⟩
  · rw [h.readChars_eq]
    omega
  · rw [h.readChars_eq]
    omega
  · rw [h.readChars_eq]
    omega
  · rintro q rfl
    rw [h.readChars_eq]
    generalize hchars : min (min (pipeBuf - p.start) count) p.len = chars
    have hlow : p.start + chars ≤ pipeBuf := by omega
    have hmax : chars ≤ p.len := by omega
    have hwrap : wrap 16 (p.start + chars) = p.start + chars :=
      wrap_of_lt (by simp only [pipeBuf] at *; omega)
    have hsub : wrapSub 16 p.len chars = p.len - chars :=
      wrapSub_of_le hmax (by simp only [pipeBuf] at *; omega)
    refine ⟨⟨?_, ?_⟩, ⟨rfl, rfl, rfl⟩, ?_⟩
    · simp only [hsub]
      omega
    · simp only [hwrap, and_pipeBuf]
      exact Nat.mod_lt _ (by decide)
    · simp only [PipeInodeInfo.queue, hsub, hwrap, and_pipeBuf]
      exact queued_eq_slice_append hmax hlow

theorem copyOut_spec (read : List UInt8) (h : p.Ok) (hfuel : count < fuel) :
    ∃ q, PipeInodeInfo.copyOut fuel count read p = .ok (read ++ p.queue.take count, q) ∧
      q.queue = p.queue.drop count ∧ q.Ok ∧ SameEnds p q := by
  induction fuel generalizing count read p with
  | zero => omega
  | succ fuel ih =>
      unfold PipeInodeInfo.copyOut
      split
      · rename_i hmore
        obtain ⟨chars, hchars, hpos, hcount, hlen, hround⟩ := h.readRound hmore.1 hmore.2
        obtain ⟨hq, hsame, hqueue⟩ := hround _ rfl
        have hless : count - chars < fuel := by omega
        obtain ⟨r, hrun, hrest, hr, hsame'⟩ :=
          ih (read ++ slice p.base p.start chars) hq hless
        dsimp only
        rw [hchars, hrun]
        refine ⟨r, ?_, ?_, hr, hsame.trans hsame'⟩
        · rw [hqueue, List.take_append, slice_length,
            List.take_of_length_le (l := slice p.base p.start chars) (by simpa using hcount),
            List.append_assoc]
        · rw [hrest, hqueue, List.drop_append, slice_length,
            List.drop_of_length_le (l := slice p.base p.start chars) (by simpa using hcount)]
          rfl
      · rename_i hdone
        have hnothing : count = 0 ∨ p.queue = [] := by
          rw [PipeInodeInfo.queue, queued_eq_nil]
          omega
        refine ⟨p, ?_, ?_, h, SameEnds.refl p⟩
        · rcases hnothing with rfl | hnil
          · simp
          · simp [hnil]
        · rcases hnothing with rfl | hnil
          · simp
          · simp [hnil]

theorem PipeInodeInfo.Ok.writeRound (h : p.Ok) (hrest : 0 < rest.length) (hspace : p.space ≠ 0) :
    ∃ chars, p.writeChars rest.length p.space = chars ∧ 0 < chars ∧ chars ≤ rest.length ∧
      p.len + chars ≤ pipeBuf ∧
      ∀ q, q = { p with
          base := copyIn p.base p.tail (rest.take chars)
          len := wrap 16 (p.len + chars) } →
        q.Ok ∧ SameEnds p q ∧ q.len = p.len + chars ∧
          q.queue = p.queue ++ rest.take chars := by
  have htail : p.tail < pipeBuf := by
    rw [h.tail_eq]
    exact Nat.mod_lt _ (by decide)
  have hle := h.len
  rw [h.space_eq] at hspace ⊢
  refine ⟨_, rfl, ?_, ?_, ?_, ?_⟩
  · rw [h.writeChars_eq]
    omega
  · rw [h.writeChars_eq]
    omega
  · rw [h.writeChars_eq]
    omega
  · rintro q rfl
    rw [h.writeChars_eq]
    generalize hchars : min (min (pipeBuf - p.tail) rest.length) (pipeBuf - p.len) = chars
    have hlow : p.tail + chars ≤ pipeBuf := by omega
    have hroom : p.len + chars ≤ pipeBuf := by omega
    have htake : (rest.take chars).length = chars := by
      rw [List.length_take]
      omega
    have hwrap : wrap 16 (p.len + chars) = p.len + chars :=
      wrap_of_lt (by simp only [pipeBuf] at *; omega)
    refine ⟨⟨?_, h.start⟩, ⟨rfl, rfl, rfl⟩, hwrap, ?_⟩
    · simp only [hwrap]
      exact hroom
    · have hput : queued pipeBuf (copyIn p.base ((p.start + p.len) % pipeBuf)
          (rest.take chars)) p.start (p.len + (rest.take chars).length) =
          queued pipeBuf p.base p.start p.len ++ rest.take chars := by
        refine queued_copyIn ?_ ?_
        · rw [htake]
          exact hroom
        · rw [htake, ← h.tail_eq]
          exact hlow
      rw [htake] at hput
      simp only [PipeInodeInfo.queue, hwrap, h.tail_eq]
      exact hput

theorem fill_spec (h : p.Ok) (hfuel : rest.length < fuel) :
    ∃ q, PipeInodeInfo.fill fuel rest p = .ok (rest.drop (pipeBuf - p.len), q) ∧
      q.queue = p.queue ++ rest.take (pipeBuf - p.len) ∧
      q.len = p.len + min rest.length (pipeBuf - p.len) ∧ q.Ok ∧ SameEnds p q := by
  induction fuel generalizing rest p with
  | zero => omega
  | succ fuel ih =>
      unfold PipeInodeInfo.fill
      split
      · rename_i hmore
        obtain ⟨chars, hchars, hpos, hcount, hroom, hround⟩ := h.writeRound hmore.1 hmore.2
        obtain ⟨hq, hsame, hlen, hqueue⟩ := hround _ rfl
        have hless : (rest.drop chars).length < fuel := by
          rw [List.length_drop]
          omega
        obtain ⟨r, hrun, hrest, hlen', hr, hsame'⟩ := ih hq hless
        have hsum : pipeBuf - (p.len + chars) + chars = pipeBuf - p.len := by omega
        have hsum' : chars + (pipeBuf - (p.len + chars)) = pipeBuf - p.len := by omega
        dsimp only
        rw [hchars, hrun, hlen]
        refine ⟨r, ?_, ?_, ?_, hr, hsame.trans hsame'⟩
        · rw [List.drop_drop, hsum']
        · rw [hrest, hqueue, hlen, List.append_assoc, ← List.take_add, hsum']
        · rw [hlen', hlen, List.length_drop]
          omega
      · rename_i hdone
        have hnothing : rest = [] ∨ pipeBuf - p.len = 0 := by
          rw [h.space_eq] at hdone
          rw [← List.length_eq_zero_iff]
          omega
        refine ⟨p, ?_, ?_, ?_, h, SameEnds.refl p⟩
        · rcases hnothing with rfl | hfull
          · simp
          · simp [hfull]
        · rcases hnothing with rfl | hfull
          · simp
          · simp [hfull]
        · rcases hnothing with rfl | hfull
          · simp
          · simp [hfull]

end Loops

/-- What a turn of a reader does. -/
structure ReadTurn (p : PipeInodeInfo) (count : Nat) (t : Turn) : Prop where
  ok : t.pipe.Ok
  same : SameEnds p t.pipe
  bytes : p.queue = t.chunk ++ t.pipe.queue
  quiet : t.wakes = false → t.pipe = p
  sleeps : ∀ c, t.leave = .sleeps c → c = .read count ∧ t.chunk = [] ∧ p.len = 0
  returns : ∀ v, t.leave = .returns v → (0 < v → v = t.chunk.length) ∧
    (v ≤ 0 → t.chunk = []) ∧ (v = 0 → p.len = 0 ∧ p.writers = 0)

/-- Where a task is in `pipe_write`: a small write has not begun, and waits until all
of it fits. -/
structure Writer (done rest : List UInt8) (free : Nat) : Prop where
  pos : 0 < free
  small : (done ++ rest).length ≤ pipeBuf → rest ≠ [] → done = [] ∧ free = rest.length

/-- What a turn of a writer does. -/
structure WriteTurn (p : PipeInodeInfo) (done rest : List UInt8) (nonblock : Bool)
    (t : Turn) : Prop where
  ok : t.pipe.Ok
  same : SameEnds p t.pipe
  bytes : t.pipe.queue = p.queue ++ t.chunk
  quiet : t.wakes = false → t.pipe = p
  whole : (done ++ rest).length ≤ pipeBuf → t.chunk = [] ∨ done = [] ∧ t.chunk = rest
  begins : t.chunk <+: rest
  sleeps : ∀ c, t.leave = .sleeps c → ∃ rest' free,
    c = .write (done ++ t.chunk) rest' free nonblock ∧ rest = t.chunk ++ rest' ∧
      rest' ≠ [] ∧ Writer (done ++ t.chunk) rest' free ∧ pipeBuf - t.pipe.len < free
  returns : ∀ v, t.leave = .returns v → (0 ≤ v → v = (done ++ t.chunk).length) ∧
    (v < 0 → done ++ t.chunk = [])

section Turns

variable {p q : PipeInodeInfo} {count free fuel : Nat} {done rest : List UInt8}
  {nonblock signal : Bool}

theorem PipeInodeInfo.queue_length : p.queue.length = p.len :=
  queued_length

theorem PipeInodeInfo.Ok.congr (h : p.Ok) (hlen : q.len = p.len) (hstart : q.start = p.start) :
    q.Ok := by
  refine ⟨?_, ?_⟩
  · rw [hlen]
    exact h.len
  · rw [hstart]
    exact h.start

theorem PipeInodeInfo.Ok.setLock (lock : Nat) (h : p.Ok) : (p.setLock lock).Ok :=
  h.congr (p.setLock_len lock) (p.setLock_start lock)

theorem SameEnds.unlock (hlock : p.lock = 0) (h : SameEnds p.lockUp q) : SameEnds p q.lockDown := by
  have hup : q.lock = 1 := by
    rw [h.lock, PipeInodeInfo.lockUp, PipeInodeInfo.setLock_lock, hlock]
    rfl
  refine ⟨?_, ?_, ?_⟩
  · rw [PipeInodeInfo.lockDown, PipeInodeInfo.setLock_lock, hup, hlock]
    rfl
  · rw [PipeInodeInfo.lockDown, PipeInodeInfo.setLock_readers, h.readers,
      PipeInodeInfo.lockUp, PipeInodeInfo.setLock_readers]
  · rw [PipeInodeInfo.lockDown, PipeInodeInfo.setLock_writers, h.writers,
      PipeInodeInfo.lockUp, PipeInodeInfo.setLock_writers]

theorem readBytes_spec (h : p.Ok) (hlock : p.lock = 0) (hcount : 0 < count) (hlen : p.len ≠ 0) :
    ∃ t, p.readBytes count = .ok t ∧ ReadTurn p count t := by
  obtain ⟨q, hrun, hrest, hq, hsame⟩ := copyOut_spec [] (h.setLock _) (Nat.lt_add_one count)
  rw [PipeInodeInfo.setLock_queue] at hrun hrest
  have hsome : (p.queue.take count).length ≠ 0 := by
    rw [List.length_take, p.queue_length]
    omega
  unfold PipeInodeInfo.readBytes PipeInodeInfo.lockUp
  rw [hrun]
  simp only [List.nil_append, if_pos hsome]
  refine ⟨_, rfl, ⟨hq.setLock _, SameEnds.unlock hlock hsame, ?_, ?_, ?_, ?_⟩⟩
  · simp only [PipeInodeInfo.lockDown, PipeInodeInfo.setLock_queue, hrest]
    exact (List.take_append_drop count p.queue).symm
  · intro hquiet
    cases hquiet
  · intro c hc
    cases hc
  · intro v hv
    obtain rfl := Leave.returns.inj hv
    refine ⟨fun _ => rfl, ?_, ?_⟩
    · intro hnone
      omega
    · intro hzero
      omega

theorem readTurn_same {t : Turn} (h : p.Ok) (hpipe : t.pipe = p) (hchunk : t.chunk = [])
    (hsleeps : ∀ c, t.leave = .sleeps c → c = .read count ∧ p.len = 0)
    (hreturns : ∀ v, t.leave = .returns v → v ≤ 0 ∧ (v = 0 → p.len = 0 ∧ p.writers = 0)) :
    ReadTurn p count t := by
  refine ⟨?_, ?_, ?_, fun _ => hpipe, ?_, ?_⟩
  · rw [hpipe]
    exact h
  · rw [hpipe]
    exact SameEnds.refl p
  · rw [hpipe, hchunk]
    rfl
  · intro c hc
    exact ⟨(hsleeps c hc).1, hchunk, (hsleeps c hc).2⟩
  · intro v hv
    obtain ⟨hle, hzero⟩ := hreturns v hv
    refine ⟨?_, fun _ => hchunk, hzero⟩
    intro hpos
    omega

theorem readOn_spec (h : p.Ok) (hlock : p.lock = 0) (hcount : 0 < count) :
    ∃ t, p.readOn signal count = .ok t ∧ ReadTurn p count t := by
  unfold PipeInodeInfo.readOn
  split
  · rename_i hwait
    have hempty : p.len = 0 := hwait.resolve_right (not_not.mpr hlock)
    split
    · rename_i heof
      refine ⟨_, rfl, readTurn_same h rfl rfl ?_ ?_⟩
      · intro c hc
        cases hc
      · intro v hv
        obtain rfl := Leave.returns.inj hv
        exact ⟨le_refl 0, fun _ => heof⟩
    · split
      · refine ⟨_, rfl, readTurn_same h rfl rfl ?_ ?_⟩
        · intro c hc
          cases hc
        · intro v hv
          have hvalue : -erestartsys = v := Leave.returns.inj hv
          have hpos := erestartsys_pos
          refine ⟨by omega, fun hzero => ?_⟩
          omega
      · refine ⟨_, rfl, readTurn_same h rfl rfl ?_ ?_⟩
        · intro c hc
          exact ⟨(Leave.sleeps.inj hc).symm, hempty⟩
        · intro v hv
          cases hv
  · rename_i hready
    exact readBytes_spec h hlock hcount fun hempty => hready (Or.inl hempty)

theorem pipeRead_spec (h : p.Ok) (hlock : p.lock = 0) (hcount : 0 < count) :
    ∃ t, p.pipeRead nonblock signal count = .ok t ∧ ReadTurn p count t := by
  unfold PipeInodeInfo.pipeRead
  split
  · split
    · rename_i hlocked
      exact absurd hlock hlocked
    · split
      · rename_i hempty
        refine ⟨_, rfl, readTurn_same h rfl rfl ?_ ?_⟩
        · intro c hc
          cases hc
        · intro v hv
          obtain rfl := Leave.returns.inj hv
          have hpos := eagain_pos
          split
          · refine ⟨by omega, fun hzero => ?_⟩
            omega
          · rename_i hnone
            exact ⟨le_refl 0, fun _ => ⟨hempty, not_not.mp hnone⟩⟩
      · rename_i hlen
        exact readBytes_spec h hlock hcount hlen
  · exact readOn_spec h hlock hcount

theorem writeTurn_same {t : Turn} (h : p.Ok) (hpipe : t.pipe = p) (hchunk : t.chunk = [])
    (hsleeps : ∀ c, t.leave = .sleeps c → c = .write done rest free nonblock)
    (hwriter : Writer done rest free) (hrest : rest ≠ []) (hfull : p.space < free)
    (hreturns : ∀ v, t.leave = .returns v → (0 ≤ v → v = done.length) ∧ (v < 0 → done = [])) :
    WriteTurn p done rest nonblock t := by
  refine ⟨?_, ?_, ?_, fun _ => hpipe, fun _ => Or.inl hchunk, ?_, ?_, ?_⟩
  · rw [hpipe]
    exact h
  · rw [hpipe]
    exact SameEnds.refl p
  · rw [hpipe, hchunk, List.append_nil]
  · rw [hchunk]
    exact List.nil_prefix
  · intro c hc
    rw [hchunk, hpipe, List.append_nil, ← h.space_eq]
    exact ⟨rest, free, hsleeps c hc, rfl, hrest, hwriter, hfull⟩
  · intro v hv
    rw [hchunk, List.append_nil]
    exact hreturns v hv

theorem broken_spec {error v : Int} (herror : 0 < error)
    (h : PipeInodeInfo.broken done error = .returns v) :
    (0 ≤ v → v = done.length) ∧ (v < 0 → done = []) := by
  obtain rfl := Leave.returns.inj h
  split
  · rename_i hsome
    refine ⟨fun _ => rfl, ?_⟩
    intro hneg
    omega
  · rename_i hnone
    refine ⟨?_, fun _ => List.length_eq_zero_iff.mp (not_not.mp hnone)⟩
    intro hpos
    omega

theorem PipeInodeInfo.Ok.writeFill
    (h : p.Ok) (hlock : p.lock = 0) (hw : Writer done rest free) (hrest : rest ≠ [])
    (hspace : free ≤ pipeBuf - p.len)
    (hnext : ∀ {q : PipeInodeInfo} {done' rest' : List UInt8}, q.Ok → q.lock = 0 →
      Writer done' rest' 1 → rest'.length < rest.length →
      ∃ t, PipeInodeInfo.writeOn nonblock signal fuel done' rest' 1 q = .ok t ∧
        WriteTurn q done' rest' nonblock t) :
    ∃ t, (match PipeInodeInfo.fill (rest.length + 1) rest p.lockUp with
      | .error f => .error f
      | .ok (rest', q) =>
          match PipeInodeInfo.writeOn nonblock signal fuel
            (done ++ rest.take (rest.length - rest'.length)) rest' 1 q.lockDown with
          | .error f => .error f
          | .ok t => .ok { t with
              chunk := rest.take (rest.length - rest'.length) ++ t.chunk, wakes := true }) =
        Except.ok t ∧ WriteTurn p done rest nonblock t := by
  obtain ⟨q, hrun, hqueue, hlen, hq, hsame⟩ :=
    fill_spec (h.setLock _) (Nat.lt_add_one rest.length)
  have hends := SameEnds.unlock hlock hsame
  rw [PipeInodeInfo.setLock_len] at hrun hqueue hlen
  rw [PipeInodeInfo.setLock_queue] at hqueue
  generalize hk : pipeBuf - p.len = k at hspace hrun hqueue hlen
  have hpos := hw.pos
  have htake : rest.take (rest.length - (rest.drop k).length) = rest.take k := by
    rw [List.take_eq_take_iff, List.length_drop]
    omega
  have hsplit : rest.take k ++ rest.drop k = rest := List.take_append_drop k rest
  have hsmall : (done ++ rest).length ≤ pipeBuf → done = [] ∧ rest.drop k = [] := by
    intro hle
    obtain ⟨hdone, hfree⟩ := hw.small hle hrest
    refine ⟨hdone, List.drop_of_length_le ?_⟩
    omega
  have hw' : Writer (done ++ rest.take k) (rest.drop k) 1 := by
    refine ⟨Nat.one_pos, ?_⟩
    intro hle hmore
    rw [List.append_assoc, hsplit] at hle
    exact absurd (hsmall hle).2 hmore
  have hless : (rest.drop k).length < rest.length := by
    have hrest' := List.length_pos_of_ne_nil hrest
    rw [List.length_drop]
    omega
  obtain ⟨t, hrun', ht⟩ := hnext (hq.setLock _) (hends.lock.trans hlock) hw' hless
  have hrun₁ : PipeInodeInfo.fill (rest.length + 1) rest p.lockUp = .ok (rest.drop k, q) := hrun
  rw [hrun₁]
  simp only [htake, PipeInodeInfo.lockDown, hrun']
  refine ⟨_, rfl, ⟨ht.ok, hends.trans ht.same, ?_, ?_, ?_, ?_, ?_, ?_⟩⟩
  · rw [ht.bytes, PipeInodeInfo.setLock_queue, hqueue, List.append_assoc]
  · intro hquiet
    cases hquiet
  · intro hle
    obtain ⟨hdone, hnone⟩ := hsmall hle
    have hchunk : t.chunk = [] := by
      have hprefix := ht.begins
      rw [hnone] at hprefix
      exact List.prefix_nil.mp hprefix
    refine Or.inr ⟨hdone, ?_⟩
    rw [hnone, List.append_nil] at hsplit
    simpa only [hchunk, List.append_nil] using hsplit
  · obtain ⟨more, hmore⟩ := ht.begins
    exact ⟨more, by rw [List.append_assoc, hmore, hsplit]⟩
  · intro c hc
    obtain ⟨rest', free', hcall, hparts, hne, hwriter, hfull⟩ := ht.sleeps c hc
    refine ⟨rest', free', ?_, ?_, hne, ?_, hfull⟩
    · rw [hcall, List.append_assoc]
    · rw [List.append_assoc, ← hparts, hsplit]
    · rw [← List.append_assoc]
      exact hwriter
  · intro v hv
    have hret := ht.returns v hv
    rw [List.append_assoc] at hret
    exact hret

theorem writeOn_spec
    (h : p.Ok) (hlock : p.lock = 0) (hw : Writer done rest free) (hfuel : rest.length < fuel) :
    ∃ t, PipeInodeInfo.writeOn nonblock signal fuel done rest free p = .ok t ∧
      WriteTurn p done rest nonblock t := by
  induction fuel generalizing done rest free p with
  | zero => omega
  | succ fuel ih =>
      unfold PipeInodeInfo.writeOn
      split
      · rename_i hmore
        have hrest : rest ≠ [] := List.ne_nil_of_length_pos hmore
        split
        · rename_i hwait
          have hfull : p.space < free := hwait.resolve_right (not_not.mpr hlock)
          split
          · refine ⟨_, rfl, writeTurn_same h rfl rfl ?_ hw hrest hfull ?_⟩
            · intro c hc
              cases hc
            · exact fun v hv => broken_spec epipe_pos hv
          · split
            · refine ⟨_, rfl, writeTurn_same h rfl rfl ?_ hw hrest hfull ?_⟩
              · intro c hc
                cases hc
              · exact fun v hv => broken_spec erestartsys_pos hv
            · split
              · refine ⟨_, rfl, writeTurn_same h rfl rfl ?_ hw hrest hfull ?_⟩
                · intro c hc
                  cases hc
                · exact fun v hv => broken_spec eagain_pos hv
              · refine ⟨_, rfl, writeTurn_same h rfl rfl ?_ hw hrest hfull ?_⟩
                · exact fun c hc => (Leave.sleeps.inj hc).symm
                · intro v hv
                  cases hv
        · rename_i hroom
          have hspace : free ≤ pipeBuf - p.len := by
            rw [← h.space_eq]
            omega
          exact h.writeFill hlock hw hrest hspace fun hq hlock' hw' hless =>
            ih hq hlock' hw' (by omega)
      · rename_i hdone
        have hnil : rest = [] := List.length_eq_zero_iff.mp (Nat.eq_zero_of_not_pos hdone)
        subst hnil
        refine ⟨_, rfl, ⟨h, SameEnds.refl p, ?_, fun _ => rfl, fun _ => Or.inl rfl,
          List.nil_prefix, ?_, ?_⟩⟩
        · rw [List.append_nil]
        · intro c hc
          cases hc
        · intro v hv
          obtain rfl := Leave.returns.inj hv
          rw [List.append_nil]
          refine ⟨fun _ => rfl, ?_⟩
          intro hneg
          omega

end Turns

end Pipe
end Elks
