import Elks.Lib.Fifo
import Elks.Lib.Machine
import Elks.Unix.Sockets

/-!
# The bytes between two connected sockets (net/unix/af_unix.c)

`unix_write` puts bytes into the ring of the socket at the other end, and `unix_read`
takes them out of the ring of its own.  Either looks how much there is before it takes
the semaphore of the ring, and works with that number in its first round.

Any number of tasks read at one end and write at the other.  A task keeps the processor
until it sleeps, on the queue of its socket or in `down`, or returns.  Between such turns
any sleeper may come back, with a signal or without, and either socket may be
disconnected.  The bytes that the writers are told to have gone and those that the readers
are told to have come are recorded beside the ring.

**Result.**  `unix_streams`: over any run the bytes that have been read are the first of
those that have been written, and the others are in the ring; the ring stays in bounds and
is never found with a negative number of bytes or of places.
-/

namespace Elks
namespace Unix
namespace Stream

open Lib

/-- What the calls use of a `struct unix_proto_data`. -/
structure UnixData where
  buf : Nat → UInt8
  bpHead : Nat
  bpTail : Nat
  sem : Int

/-- Where a task sleeps in a call: in the first loop, or in `down` with the number that it
has found. -/
inductive Call
  | read (size : Nat)
  | readDown (size : Nat) (avail : Int)
  | write (data : List UInt8)
  | writeDown (data : List UInt8) (space : Int)

/-- How a turn of a task ends. -/
inductive Leave
  | sleeps (c : Call)
  | returns (ret : Int)

/-- The ring after a turn, what a reader has in its buffer, and whether the turn came to
one of the complaints about a negative number. -/
structure Turn where
  upd : UnixData
  leave : Leave
  stored : List UInt8
  negative : Bool

section Code

variable (u : UnixData)

/-- `UN_BUF_AVAIL`. -/
def UnixData.avail : Int :=
  ((u.bpHead : Int) - u.bpTail) % UN_BUF_SIZE

/-- `UN_BUF_SPACE`. -/
def UnixData.space : Int :=
  UN_BUF_SIZE - 1 - u.avail

/-- A turn that leaves the ring alone. -/
def UnixData.quits (leave : Leave) : Turn :=
  ⟨u, leave, [], false⟩

/-- The second loop of `unix_read`, behind `down`: `size` bytes are asked for, `todo` of them
still, and `stored` are in the buffer of the caller. -/
def readLoop (size : Nat) : Nat → Nat → Int → UnixData → List UInt8 → Except Fault Turn
  | 0, _, _, _, _ => .error .endless
  | fuel + 1, todo, avail, u, stored =>
      if avail ≤ 0 then
        .ok ⟨u, .returns (-EPIPE), stored, true⟩
      else
        let cando := (min (min (todo : Int) avail) (UN_BUF_SIZE - u.bpTail)).toNat
        let stored := stored ++ slice u.buf u.bpTail cando
        let u := { u with bpTail := (u.bpTail + cando) % UN_BUF_SIZE }
        let todo := todo - cando
        if todo ≠ 0 ∧ u.avail ≠ 0 then
          readLoop size fuel todo u.avail u stored
        else
          .ok ⟨{ u with sem := u.sem + 1 }, .returns (size - todo), stored, false⟩

/-- `unix_read` from `down` on. -/
def UnixData.readDown (size : Nat) (avail : Int) : Except Fault Turn :=
  if u.sem < 0 then
    .ok (u.quits (.sleeps (.readDown size avail)))
  else
    readLoop size size size avail { u with sem := u.sem - 1 } []

/-- `unix_read` from the first loop on. -/
def UnixData.readOn (state : SockState) (nonblock : Bool) (size : Nat) : Except Fault Turn :=
  if u.avail = 0 then
    if state ≠ .connected then
      .ok (u.quits (.returns (if state = .disconnecting then 0 else -EINVAL)))
    else if nonblock then
      .ok (u.quits (.returns (-EAGAIN)))
    else
      .ok (u.quits (.sleeps (.read size)))
  else
    u.readDown size u.avail

/-- `unix_read`. -/
def UnixData.unixRead (state : SockState) (nonblock : Bool) (size : Nat) : Except Fault Turn :=
  if size = 0 then .ok (u.quits (.returns 0)) else u.readOn state nonblock size

/-- The second loop of `unix_write`, behind `down`: `size` bytes are to be written, `rest` of
them still. -/
def writeLoop (state : SockState) (size : Nat) :
    Nat → List UInt8 → Int → UnixData → Except Fault Turn
  | 0, _, _, _ => .error .endless
  | fuel + 1, rest, space, u =>
      if space ≤ 0 then
        .ok ⟨u, .returns (-EPIPE), [], true⟩
      else if state = .disconnecting then
        .ok ⟨{ u with sem := u.sem + 1 }, .returns (-EPIPE), [], false⟩
      else
        let cando := (min (min (rest.length : Int) space) (UN_BUF_SIZE - u.bpHead)).toNat
        let u :=
          { u with
            buf := copyIn u.buf u.bpHead (rest.take cando)
            bpHead := (u.bpHead + cando) % UN_BUF_SIZE }
        let rest := rest.drop cando
        if rest ≠ [] ∧ u.space ≠ 0 then
          writeLoop state size fuel rest u.space u
        else
          .ok ⟨{ u with sem := u.sem + 1 }, .returns (size - rest.length), [], false⟩

/-- `unix_write` from `down` on. -/
def UnixData.writeDown (state : SockState) (data : List UInt8) (space : Int) :
    Except Fault Turn :=
  if u.sem < 0 then
    .ok (u.quits (.sleeps (.writeDown data space)))
  else
    writeLoop state data.length data.length data space { u with sem := u.sem - 1 }

/-- `unix_write` from the first loop on. -/
def UnixData.writeOn (state : SockState) (nonblock : Bool) (data : List UInt8) :
    Except Fault Turn :=
  if u.space = 0 then
    if nonblock then .ok (u.quits (.returns (-EAGAIN)))
    else .ok (u.quits (.sleeps (.write data)))
  else
    u.writeDown state data u.space

/-- `unix_write`. -/
def UnixData.unixWrite (state : SockState) (nonblock : Bool) (data : List UInt8) :
    Except Fault Turn :=
  if data = [] then
    .ok (u.quits (.returns 0))
  else if state ≠ .connected then
    .ok (u.quits (.returns (if state = .disconnecting then -EPIPE else -EINVAL)))
  else
    u.writeOn state nonblock data

/-- A task goes on where it slept, at an end in the given state. -/
def Call.resume (u : UnixData) (state : SockState) (signal : Bool) : Call → Except Fault Turn
  | .read size =>
      if signal then .ok (u.quits (.returns (-ERESTARTSYS))) else u.readOn state false size
  | .readDown size avail => u.readDown size avail
  | .write data =>
      if signal then
        .ok (u.quits (.returns (-ERESTARTSYS)))
      else if state = .disconnecting then
        .ok (u.quits (.returns (-EPIPE)))
      else
        u.writeOn state false data
  | .writeDown data space => u.writeDown state data space

end Code

/-- The ring at the end that reads, the states of the two sockets, the tasks that sleep in
a call, the bytes that the writers and the readers know to have gone, and whether one of
the complaints has been made. -/
structure Sys (τ : Type) where
  upd : UnixData
  reader : SockState
  writer : SockState
  tasks : τ → Option Call
  accepted : List UInt8
  returned : List UInt8
  negative : Bool
  fault : Option Fault

/-- What can happen next. -/
inductive Act (τ : Type)
  /- A task calls `unix_read` or `unix_write`, or goes on in it. -/
  | read (t : τ) (nonblock : Bool) (size : Nat)
  | write (t : τ) (nonblock : Bool) (data : List UInt8)
  | resume (t : τ) (signal : Bool)
  /- One of the sockets is disconnected. -/
  | disconnect (reader : Bool)

/-- The data of a call that writes. -/
def Call.data : Call → List UInt8
  | .write data => data
  | .writeDown data _ => data
  | _ => []

section Step

variable {τ : Type} [DecidableEq τ]

/-- The state of the end that a call is made at. -/
def Sys.stateOf (s : Sys τ) : Call → SockState
  | .read _ => s.reader
  | .readDown _ _ => s.reader
  | .write _ => s.writer
  | .writeDown _ _ => s.writer

/-- The turn that an action is, whose it is, and the data of its call. -/
def Sys.turn (s : Sys τ) : Act τ → Option (τ × List UInt8 × Except Fault Turn)
  | .read t nonblock size =>
      if (s.tasks t).isNone ∧ size ≤ 32767 then
        some (t, [], s.upd.unixRead s.reader nonblock size)
      else
        none
  | .write t nonblock data =>
      if (s.tasks t).isNone ∧ data.length ≤ 32767 then
        some (t, data, s.upd.unixWrite s.writer nonblock data)
      else
        none
  | .resume t signal =>
      match s.tasks t with
      | some c => some (t, c.data, c.resume s.upd (s.stateOf c) signal)
      | none => none
  | .disconnect _ => none

/-- Where a turn leaves its task. -/
def Leave.task : Leave → Option Call
  | .sleeps c => some c
  | .returns _ => none

/-- What a turn returns, if it returns bytes. -/
def Leave.count : Leave → Nat
  | .sleeps _ => 0
  | .returns ret => ret.toNat

/-- The system behind a turn. -/
def Sys.behind (s : Sys τ) (t : τ) (data : List UInt8) : Except Fault Turn → Sys τ
  | .error f => { s with fault := some f }
  | .ok turn =>
      { s with
        upd := turn.upd
        tasks := Function.update s.tasks t turn.leave.task
        accepted := s.accepted ++ data.take turn.leave.count
        returned := s.returned ++ turn.stored.take turn.leave.count
        negative := s.negative || turn.negative }

/-- What happens next. -/
def Sys.step (s : Sys τ) (a : Act τ) : Option (Sys τ) :=
  if s.fault.isSome then
    none
  else
    match s.turn a with
    | some (t, data, r) => some (s.behind t data r)
    | none =>
        match a with
        | .disconnect true => some { s with reader := .disconnecting }
        | .disconnect false => some { s with writer := .disconnecting }
        | _ => none

/-- Two sockets that have been connected. -/
def Sys.start (buf : Nat → UInt8) : Sys τ where
  upd := ⟨buf, 0, 0, 0⟩
  reader := .connected
  writer := .connected
  tasks := fun _ => none
  accepted := []
  returned := []
  negative := false
  fault := none

/-- The systems that runs lead to. -/
inductive Reached (buf : Nat → UInt8) : Sys τ → Prop
  | start : Reached buf (Sys.start buf)
  | step {s s' : Sys τ} {a : Act τ} (h : Reached buf s) (hs : s.step a = some s') :
      Reached buf s'

end Step

/-- The indices are places of the ring. -/
structure UnixData.Ok (u : UnixData) : Prop where
  head_lt : u.bpHead < UN_BUF_SIZE
  tail_lt : u.bpTail < UN_BUF_SIZE

/-- The bytes in the ring. -/
def UnixData.queue (u : UnixData) : List UInt8 :=
  queued UN_BUF_SIZE u.buf u.bpTail u.avail.toNat

/-- A task that sleeps with something left to do, on the queue of its socket. -/
def Call.Waits : Call → Prop
  | .read size => 0 < size
  | .write data => data ≠ []
  | _ => False

/-- What a turn with data to write does to a ring whose semaphore is free. -/
structure Moves (u : UnixData) (data : List UInt8) (turn : Turn) : Prop where
  ok : turn.upd.Ok
  sem : turn.upd.sem = 0
  quiet : turn.negative = false
  bytes : u.queue ++ data.take turn.leave.count =
    turn.stored.take turn.leave.count ++ turn.upd.queue
  call : ∀ c, turn.leave = .sleeps c → c.Waits ∧ c.data = data

/-- What holds between turns. -/
structure Streams {τ : Type} (s : Sys τ) : Prop where
  ok : s.upd.Ok
  sem : s.upd.sem = 0
  bytes : s.accepted = s.returned ++ s.upd.queue
  calls : ∀ t c, s.tasks t = some c → c.Waits
  quiet : s.negative = false
  fault : s.fault = none

section Rings

variable {u : UnixData} {todo fuel : Nat} {rest : List UInt8} {state : SockState}

theorem UnixData.avail_nonneg (u : UnixData) : 0 ≤ u.avail :=
  Int.emod_nonneg _ (by decide)

theorem UnixData.avail_lt (u : UnixData) : u.avail < 64 :=
  Int.emod_lt_of_pos _ (by decide)

theorem UnixData.Ok.head_eq (h : u.Ok) : u.bpHead = (u.bpTail + u.avail.toNat) % UN_BUF_SIZE := by
  obtain ⟨hhead, htail⟩ := h
  unfold UnixData.avail UN_BUF_SIZE at *
  omega

theorem UnixData.Ok.takePiece (h : u.Ok) {c : Nat} (hc : c ≤ u.avail.toNat)
    (hpart : u.bpTail + c ≤ UN_BUF_SIZE) :
    ({ u with bpTail := (u.bpTail + c) % UN_BUF_SIZE } : UnixData).Ok ∧
      ({ u with bpTail := (u.bpTail + c) % UN_BUF_SIZE } : UnixData).avail = u.avail - c ∧
      u.queue = slice u.buf u.bpTail c ++
        ({ u with bpTail := (u.bpTail + c) % UN_BUF_SIZE } : UnixData).queue := by
  have havail : ({ u with bpTail := (u.bpTail + c) % UN_BUF_SIZE } : UnixData).avail =
      u.avail - c := by
    obtain ⟨hhead, htail⟩ := h
    unfold UnixData.avail UN_BUF_SIZE at *
    dsimp only
    omega
  refine ⟨⟨h.head_lt, Nat.mod_lt _ (by decide)⟩, havail, ?_⟩
  have hpiece : queued UN_BUF_SIZE u.buf u.bpTail u.avail.toNat =
      slice u.buf u.bpTail c ++
        queued UN_BUF_SIZE u.buf ((u.bpTail + c) % UN_BUF_SIZE) (u.avail.toNat - c) :=
    queued_eq_slice_append hc hpart
  have hnat : (u.avail - c).toNat = u.avail.toNat - c := by omega
  unfold UnixData.queue
  rw [havail, hnat]
  exact hpiece

theorem UnixData.Ok.putPiece (h : u.Ok) (xs : List UInt8)
    (hspace : u.avail.toNat + xs.length < UN_BUF_SIZE)
    (hpart : u.bpHead + xs.length ≤ UN_BUF_SIZE) :
    ({ u with
        buf := copyIn u.buf u.bpHead xs
        bpHead := (u.bpHead + xs.length) % UN_BUF_SIZE } : UnixData).Ok ∧
      ({ u with
        buf := copyIn u.buf u.bpHead xs
        bpHead := (u.bpHead + xs.length) % UN_BUF_SIZE } : UnixData).avail =
          u.avail + xs.length ∧
      ({ u with
        buf := copyIn u.buf u.bpHead xs
        bpHead := (u.bpHead + xs.length) % UN_BUF_SIZE } : UnixData).queue =
          u.queue ++ xs := by
  have hnonneg := u.avail_nonneg
  have havail : ({ u with
      buf := copyIn u.buf u.bpHead xs
      bpHead := (u.bpHead + xs.length) % UN_BUF_SIZE } : UnixData).avail =
        u.avail + xs.length := by
    obtain ⟨hhead, htail⟩ := h
    unfold UnixData.avail UN_BUF_SIZE at *
    dsimp only
    omega
  refine ⟨⟨Nat.mod_lt _ (by decide), h.tail_lt⟩, havail, ?_⟩
  have hnat : (u.avail + xs.length).toNat = u.avail.toNat + xs.length := by omega
  have hput := @queued_copyIn _ u.buf UN_BUF_SIZE u.bpTail u.avail.toNat xs hspace.le
  rw [← h.head_eq] at hput
  unfold UnixData.queue
  rw [havail, hnat]
  exact hput hpart

/-- The loop of a reader takes what it still wants off the front of the ring. -/
theorem readLoop_spec (size : Nat) (stored : List UInt8) (h : u.Ok) (htodo : 0 < todo)
    (hfuel : todo ≤ fuel) (hpos : 0 < u.avail) :
    ∃ u', readLoop size fuel todo u.avail u stored =
        .ok ⟨u', .returns (size - (todo - min todo u.avail.toNat : Nat)),
          stored ++ u.queue.take todo, false⟩ ∧
      u'.Ok ∧ u'.sem = u.sem + 1 ∧ u'.queue = u.queue.drop todo := by
  induction fuel generalizing todo u stored with
  | zero => omega
  | succ fuel ih =>
      have htail := h.tail_lt
      have hlen : u.queue.length = u.avail.toNat := queued_length
      obtain ⟨c, hc⟩ : ∃ c, c = (min (min (todo : Int) u.avail) (UN_BUF_SIZE - u.bpTail)).toNat :=
        ⟨_, rfl⟩
      have hbounds : 0 < c ∧ c ≤ todo ∧ c ≤ u.avail.toNat ∧ u.bpTail + c ≤ UN_BUF_SIZE := by
        omega
      obtain ⟨hcpos, hctodo, hcavail, hcpart⟩ := hbounds
      obtain ⟨hok', havail', hqueue⟩ := h.takePiece hcavail hcpart
      have hslice : (slice u.buf u.bpTail c).length = c := slice_length
      unfold readLoop
      rw [if_neg (not_le.mpr hpos)]
      simp only [← hc]
      generalize hu' : ({ u with bpTail := (u.bpTail + c) % UN_BUF_SIZE } : UnixData) = u' at *
      have hsem' : u'.sem = u.sem := by rw [← hu']
      by_cases hmore : todo - c ≠ 0 ∧ u'.avail ≠ 0
      · rw [if_pos hmore]
        have hpos' : 0 < u'.avail := lt_of_le_of_ne u'.avail_nonneg (Ne.symm hmore.2)
        obtain ⟨u₁, hrun, hok₁, hsem₁, hqueue₁⟩ :=
          ih (stored ++ slice u.buf u.bpTail c) hok' (Nat.pos_of_ne_zero hmore.1)
            (by omega) hpos'
        have hfirst : (slice u.buf u.bpTail c).take todo = slice u.buf u.bpTail c :=
          List.take_of_length_le (by omega)
        have hgone : (slice u.buf u.bpTail c).drop todo = [] :=
          List.drop_of_length_le (by omega)
        refine ⟨u₁, ?_, hok₁, by rw [hsem₁, hsem'], ?_⟩
        · rw [hrun, hqueue, List.take_append, hslice, hfirst, List.append_assoc]
          have hret : todo - c - min (todo - c) u'.avail.toNat =
              todo - min todo u.avail.toNat := by
            omega
          rw [hret]
        · rw [hqueue₁, hqueue, List.drop_append, hslice, hgone, List.nil_append]
      · rw [if_neg hmore]
        have hend : todo = c ∨ u'.avail = 0 := by
          by_contra hnot
          exact hmore ⟨by omega, fun h0 => hnot (Or.inr h0)⟩
        refine ⟨{ u' with sem := u'.sem + 1 }, ?_, ⟨hok'.head_lt, hok'.tail_lt⟩, by rw [hsem'], ?_⟩
        · have hret : todo - c = todo - min todo u.avail.toNat := by omega
          have htake : slice u.buf u.bpTail c = u.queue.take todo := by
            rcases hend with heq | hzero
            · rw [hqueue, heq, List.take_append, hslice, Nat.sub_self, List.take_zero,
                List.append_nil, List.take_of_length_le hslice.le]
            · have hnil : u'.queue = [] := queued_eq_nil.mpr (by omega)
              rw [hqueue, hnil, List.append_nil, List.take_of_length_le (by omega)]
          rw [htake, hret, ← hu']
        · have hkeep : ({ u' with sem := u'.sem + 1 } : UnixData).queue = u'.queue := rfl
          rw [hkeep]
          rcases hend with heq | hzero
          · rw [hqueue, heq, List.drop_append, hslice, Nat.sub_self, List.drop_zero,
              List.drop_of_length_le hslice.le, List.nil_append]
          · have hnil : u'.queue = [] := queued_eq_nil.mpr (by omega)
            rw [hnil]
            refine (List.drop_of_length_le ?_).symm
            omega

theorem UnixData.space_eq (u : UnixData) : u.space = 63 - u.avail :=
  rfl

theorem writeLoop_spec (size : Nat) (h : u.Ok) (hstate : state ≠ .disconnecting) (hrest : rest ≠ [])
    (hfuel : rest.length ≤ fuel) (hpos : 0 < u.space) :
    ∃ u', writeLoop state size fuel rest u.space u =
        .ok ⟨u', .returns (size - (rest.length - min rest.length u.space.toNat : Nat)), [],
          false⟩ ∧
      u'.Ok ∧ u'.sem = u.sem + 1 ∧ u'.queue = u.queue ++ rest.take u.space.toNat := by
  induction fuel generalizing rest u with
  | zero =>
      have hlen := List.length_pos_iff.mpr hrest
      omega
  | succ fuel ih =>
      have hlen := List.length_pos_iff.mpr hrest
      have hhead := h.head_lt
      have hspace := u.space_eq
      have hnonneg := u.avail_nonneg
      have hsize : UN_BUF_SIZE = 64 := rfl
      obtain ⟨c, hc⟩ :
          ∃ c, c = (min (min (rest.length : Int) u.space) (UN_BUF_SIZE - u.bpHead)).toNat :=
        ⟨_, rfl⟩
      have hbounds : 0 < c ∧ c ≤ rest.length ∧ c ≤ u.space.toNat ∧
          u.bpHead + c ≤ UN_BUF_SIZE := by
        omega
      obtain ⟨hcpos, hcrest, hcspace, hcpart⟩ := hbounds
      have htaken : (rest.take c).length = c := List.length_take_of_le hcrest
      obtain ⟨hok', havail', hqueue⟩ := h.putPiece (rest.take c) (by omega) (by omega)
      rw [htaken] at hok' havail' hqueue
      unfold writeLoop
      rw [if_neg (not_le.mpr hpos), if_neg hstate]
      simp only [← hc]
      generalize hu' : ({ u with
        buf := copyIn u.buf u.bpHead (rest.take c)
        bpHead := (u.bpHead + c) % UN_BUF_SIZE } : UnixData) = u' at *
      have hsem' : u'.sem = u.sem := by rw [← hu']
      have hspace' := u'.space_eq
      have hleft : (rest.drop c).length = rest.length - c := List.length_drop
      by_cases hmore : rest.drop c ≠ [] ∧ u'.space ≠ 0
      · rw [if_pos hmore]
        have hpos' : 0 < u'.space := by
          have hlt := u'.avail_lt
          have hne := hmore.2
          omega
        obtain ⟨u₁, hrun, hok₁, hsem₁, hqueue₁⟩ := ih hok' hmore.1 (by omega) hpos'
        refine ⟨u₁, ?_, hok₁, by rw [hsem₁, hsem'], ?_⟩
        · rw [hrun, hleft]
          have hret : rest.length - c - min (rest.length - c) u'.space.toNat =
              rest.length - min rest.length u.space.toNat := by
            omega
          rw [hret]
        · have hsplit : u.space.toNat = c + u'.space.toNat := by omega
          rw [hqueue₁, hqueue, List.append_assoc, hsplit, List.take_add]
      · rw [if_neg hmore]
        have hend : rest.length = c ∨ u'.space = 0 := by
          by_contra hnot
          obtain ⟨hne, hne'⟩ := not_or.mp hnot
          refine hmore ⟨fun hnil => ?_, hne'⟩
          rw [hnil, List.length_nil] at hleft
          omega
        refine ⟨{ u' with sem := u'.sem + 1 }, ?_, ⟨hok'.head_lt, hok'.tail_lt⟩, by rw [hsem'], ?_⟩
        · have hret : rest.length - c = rest.length - min rest.length u.space.toNat := by omega
          rw [hleft, hret, ← hu']
        · have hkeep : ({ u' with sem := u'.sem + 1 } : UnixData).queue = u'.queue := rfl
          have htake : rest.take c = rest.take u.space.toNat := by
            rcases hend with heq | hzero
            · rw [List.take_of_length_le heq.le, List.take_of_length_le (by omega)]
            · have hsame : c = u.space.toNat := by omega
              rw [hsame]
          rw [hkeep, hqueue, htake]

end Rings

section Turns

variable {u : UnixData} {size : Nat} {data : List UInt8} {state : SockState}
  {nonblock signal : Bool} {c : Call}

theorem quits_moves (h : u.Ok) (hsem : u.sem = 0) {leave : Leave} (hcount : leave.count = 0)
    (hcall : ∀ c, leave = .sleeps c → c.Waits ∧ c.data = data) : Moves u data (u.quits leave) := by
  refine ⟨h, hsem, rfl, ?_, hcall⟩
  have hleave : (u.quits leave).leave = leave := rfl
  rw [hleave, hcount, List.take_zero, List.take_zero, List.append_nil]
  rfl

theorem returns_moves (h : u.Ok) (hsem : u.sem = 0) {ret : Int} (hret : ret ≤ 0) :
    Moves u data (u.quits (.returns ret)) :=
  quits_moves h hsem (Int.toNat_of_nonpos hret) fun _ hc => Leave.noConfusion hc

theorem readOn_moves (h : u.Ok) (hsem : u.sem = 0) (hsize : 0 < size) :
    ∃ turn, u.readOn state nonblock size = .ok turn ∧ Moves u [] turn := by
  unfold UnixData.readOn
  split_ifs with hempty hstate hdisc hblock
  · exact ⟨_, rfl, returns_moves h hsem le_rfl⟩
  · exact ⟨_, rfl, returns_moves h hsem (by decide)⟩
  · exact ⟨_, rfl, returns_moves h hsem (by decide)⟩
  · refine ⟨_, rfl, quits_moves h hsem rfl fun c hc => ?_⟩
    obtain rfl := Leave.sleeps.inj hc
    exact ⟨hsize, rfl⟩
  · have hpos : 0 < u.avail := lt_of_le_of_ne u.avail_nonneg (Ne.symm hempty)
    have hfree : ¬u.sem < 0 := by omega
    unfold UnixData.readDown
    rw [if_neg hfree]
    have hheld : ({ u with sem := u.sem - 1 } : UnixData).Ok := ⟨h.head_lt, h.tail_lt⟩
    obtain ⟨u', hrun, hok, hsem', hqueue⟩ :=
      readLoop_spec size [] hheld hsize le_rfl hpos
    refine ⟨_, hrun, hok, ?_, rfl, ?_, fun c hc => Leave.noConfusion hc⟩
    · dsimp only at hsem' ⊢
      omega
    · have hlen : u.queue.length = u.avail.toNat := queued_length
      have hkeep : ({ u with sem := u.sem - 1 } : UnixData).queue = u.queue := rfl
      have havail : ({ u with sem := u.sem - 1 } : UnixData).avail = u.avail := rfl
      rw [hkeep] at hqueue ⊢
      have hcount : (Leave.returns ((size : Int) -
          (size - min size u.avail.toNat : Nat))).count = (u.queue.take size).length := by
        rw [List.length_take, hlen]
        simp only [Leave.count]
        omega
      rw [havail, hcount, List.nil_append, List.take_length, hqueue, List.take_append_drop,
        List.take_nil, List.append_nil]

theorem writeOn_moves (h : u.Ok) (hsem : u.sem = 0) (hstate : state ≠ .disconnecting)
    (hdata : data ≠ []) : ∃ turn, u.writeOn state nonblock data = .ok turn ∧ Moves u data turn := by
  unfold UnixData.writeOn
  split_ifs with hfull hblock
  · exact ⟨_, rfl, returns_moves h hsem (by decide)⟩
  · refine ⟨_, rfl, quits_moves h hsem rfl fun c hc => ?_⟩
    obtain rfl := Leave.sleeps.inj hc
    exact ⟨hdata, rfl⟩
  · have hpos : 0 < u.space := by
      have hlt := u.avail_lt
      have heq := u.space_eq
      omega
    have hfree : ¬u.sem < 0 := by omega
    unfold UnixData.writeDown
    rw [if_neg hfree]
    have hheld : ({ u with sem := u.sem - 1 } : UnixData).Ok := ⟨h.head_lt, h.tail_lt⟩
    obtain ⟨u', hrun, hok, hsem', hqueue⟩ :=
      writeLoop_spec data.length hheld hstate hdata le_rfl hpos
    refine ⟨_, hrun, hok, ?_, rfl, ?_, fun c hc => Leave.noConfusion hc⟩
    · dsimp only at hsem' ⊢
      omega
    · have hkeep : ({ u with sem := u.sem - 1 } : UnixData).queue = u.queue := rfl
      have hspace : ({ u with sem := u.sem - 1 } : UnixData).space = u.space := rfl
      rw [hkeep, hspace] at hqueue
      have hcount : (Leave.returns ((data.length : Int) -
          (data.length - min data.length u.space.toNat : Nat))).count =
            min data.length u.space.toNat := by
        simp only [Leave.count]
        omega
      have htake : data.take (min data.length u.space.toNat) = data.take u.space.toNat := by
        rw [Nat.min_comm, ← List.take_take, List.take_length]
      rw [hspace, hcount, hqueue, htake, List.take_nil, List.nil_append]

theorem unixRead_moves (state : SockState) (nonblock : Bool) (size : Nat) (h : u.Ok)
    (hsem : u.sem = 0) : ∃ turn, u.unixRead state nonblock size = .ok turn ∧ Moves u [] turn := by
  unfold UnixData.unixRead
  split_ifs with hzero
  · exact ⟨_, rfl, returns_moves h hsem le_rfl⟩
  · exact readOn_moves h hsem (Nat.pos_of_ne_zero hzero)

theorem unixWrite_moves (state : SockState) (nonblock : Bool) (data : List UInt8) (h : u.Ok)
    (hsem : u.sem = 0) :
    ∃ turn, u.unixWrite state nonblock data = .ok turn ∧ Moves u data turn := by
  unfold UnixData.unixWrite
  split_ifs with hnil hstate hdisc
  · exact ⟨_, rfl, returns_moves h hsem le_rfl⟩
  · exact ⟨_, rfl, returns_moves h hsem (by decide)⟩
  · exact ⟨_, rfl, returns_moves h hsem (by decide)⟩
  · refine writeOn_moves h hsem ?_ hnil
    rw [not_not.mp hstate]
    exact SockState.noConfusion

theorem resume_moves (state : SockState) (signal : Bool) (h : u.Ok) (hsem : u.sem = 0)
    (hc : c.Waits) : ∃ turn, c.resume u state signal = .ok turn ∧ Moves u c.data turn := by
  cases c with
  | read size =>
      simp only [Call.resume]
      split_ifs
      · exact ⟨_, rfl, returns_moves h hsem (by decide)⟩
      · exact readOn_moves h hsem hc
  | readDown size avail => exact hc.elim
  | write data =>
      simp only [Call.resume]
      split_ifs with hsignal hdisc
      · exact ⟨_, rfl, returns_moves h hsem (by decide)⟩
      · exact ⟨_, rfl, returns_moves h hsem (by decide)⟩
      · exact writeOn_moves h hsem hdisc hc
  | writeDown data space => exact hc.elim

end Turns

section Runs

variable {τ : Type} {s s' : Sys τ} {a : Act τ} {t : τ} {data : List UInt8}
  {r : Except Fault Turn} {buf : Nat → UInt8}

theorem Streams.turn (h : Streams s) (hturn : s.turn a = some (t, data, r)) :
    ∃ turn, r = .ok turn ∧ Moves s.upd data turn := by
  cases a with
  | read t nonblock size =>
      simp only [Sys.turn] at hturn
      split_ifs at hturn
      obtain ⟨turn, hrun, hmoves⟩ := unixRead_moves s.reader nonblock size h.ok h.sem
      obtain ⟨rfl, rfl, rfl⟩ := Option.some.inj hturn
      exact ⟨turn, hrun, hmoves⟩
  | write t nonblock data =>
      simp only [Sys.turn] at hturn
      split_ifs at hturn
      obtain ⟨turn, hrun, hmoves⟩ := unixWrite_moves s.writer nonblock data h.ok h.sem
      obtain ⟨rfl, rfl, rfl⟩ := Option.some.inj hturn
      exact ⟨turn, hrun, hmoves⟩
  | resume t signal =>
      simp only [Sys.turn] at hturn
      split at hturn
      · rename_i c hc
        obtain ⟨turn, hrun, hmoves⟩ :=
          resume_moves (s.stateOf c) signal h.ok h.sem (h.calls t c hc)
        obtain ⟨rfl, rfl, rfl⟩ := Option.some.inj hturn
        exact ⟨turn, hrun, hmoves⟩
      · cases hturn
  | disconnect reader => cases hturn

theorem streams_start (buf : Nat → UInt8) : Streams (Sys.start buf : Sys τ) where
  ok := ⟨Nat.zero_lt_succ 63, Nat.zero_lt_succ 63⟩
  sem := rfl
  bytes := rfl
  calls _ _ hc := by cases hc
  quiet := rfl
  fault := rfl

variable [DecidableEq τ]

theorem Streams.behind (h : Streams s) {turn : Turn} (hmoves : Moves s.upd data turn) (t : τ) :
    Streams (s.behind t data (.ok turn)) where
  ok := hmoves.ok
  sem := hmoves.sem
  bytes := by
    have hbytes := hmoves.bytes
    have hold := h.bytes
    unfold Sys.behind
    dsimp only
    rw [hold, List.append_assoc, hbytes, List.append_assoc]
  calls := by
    intro t' c hc
    have hset : Function.update s.tasks t turn.leave.task t' = some c := hc
    by_cases ht : t' = t
    · subst ht
      have htask : turn.leave.task = some c := by
        rwa [Function.update_self] at hset
      cases hleave : turn.leave with
      | sleeps c' =>
          rw [hleave] at htask
          rw [← Option.some.inj htask]
          exact (hmoves.call c' hleave).1
      | returns ret =>
          rw [hleave] at htask
          cases htask
    · rw [Function.update_of_ne ht] at hset
      exact h.calls t' c hset
  quiet := by
    unfold Sys.behind
    dsimp only
    rw [h.quiet, hmoves.quiet]
    rfl
  fault := h.fault

theorem Streams.step (h : Streams s) (hs : s.step a = some s') : Streams s' := by
  unfold Sys.step at hs
  rw [h.fault] at hs
  simp only [Option.isSome_none, Bool.false_eq_true, if_false] at hs
  cases hturn : s.turn a with
  | some x =>
      obtain ⟨t, data, r⟩ := x
      rw [hturn] at hs
      obtain ⟨turn, rfl, hmoves⟩ := h.turn hturn
      rw [← Option.some.inj hs]
      exact h.behind hmoves t
  | none =>
      rw [hturn] at hs
      cases a with
      | disconnect reader =>
          cases reader with
          | true =>
              rw [← Option.some.inj hs]
              exact ⟨h.ok, h.sem, h.bytes, h.calls, h.quiet, rfl⟩
          | false =>
              rw [← Option.some.inj hs]
              exact ⟨h.ok, h.sem, h.bytes, h.calls, h.quiet, rfl⟩
      | read t nonblock size => cases hs
      | write t nonblock data => cases hs
      | resume t signal => cases hs

theorem reached_streams (h : Reached buf s) : Streams s := by
  induction h with
  | start => exact streams_start buf
  | step h hs ih => exact ih.step hs

/-- Over any run of readers at one end and writers at the other, what has been read is the
beginning of what has been written, the rest is in the ring, at most 63 bytes, the indices
are places of the ring, and no call finds it with a negative number of bytes or places, or
goes wrong otherwise. -/
theorem unix_streams (h : Reached buf s) :
    s.returned <+: s.accepted ∧ s.accepted = s.returned ++ s.upd.queue ∧
      s.upd.queue.length ≤ UN_BUF_SIZE - 1 ∧
      s.upd.bpHead ≤ UN_BUF_SIZE - 1 ∧ s.upd.bpTail ≤ UN_BUF_SIZE - 1 ∧
      s.negative = false ∧ s.fault = none := by
  have hstreams := reached_streams h
  have hlen : s.upd.queue.length = s.upd.avail.toNat := queued_length
  have hlt := s.upd.avail_lt
  have hhead := hstreams.ok.head_lt
  have htail := hstreams.ok.tail_lt
  have hsize : UN_BUF_SIZE = 64 := rfl
  exact ⟨⟨s.upd.queue, hstreams.bytes.symm⟩, hstreams.bytes, by omega, by omega, by omega,
    hstreams.quiet, hstreams.fault⟩

/-- A task reads and sleeps, another writes, and the first goes on. -/
theorem unix_streams_hello :
    ∃ s : Sys Bool, s.returned = [104, 105] ∧ s.returned <+: s.accepted ∧
      s.accepted = s.returned ++ s.upd.queue ∧ s.upd.queue.length ≤ UN_BUF_SIZE - 1 ∧
      s.upd.bpHead ≤ UN_BUF_SIZE - 1 ∧ s.upd.bpTail ≤ UN_BUF_SIZE - 1 ∧
      s.negative = false ∧ s.fault = none :=
  ⟨_, rfl, unix_streams (.step (.step (.step (@Reached.start Bool _ fun _ => 0)
    (a := .read false false 2) rfl) (a := .write true false [104, 105]) rfl)
    (a := .resume false false) rfl)⟩

end Runs

end Stream
end Unix
end Elks
