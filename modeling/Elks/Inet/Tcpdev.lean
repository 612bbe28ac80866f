import Mathlib.Tactic

/-!
# The device of the TCP/IP daemon (arch/i86/drivers/char/tcpdev.c, net/ipv4/af_inet.c)

The sockets write commands to `tdout_buf`, which the daemon reads, and the daemon writes
messages to `tdin_buf`, which the sockets read.  Each buffer is taken by `down` of its
semaphore on one side and given back by `up` on the other.

A task runs from one place where it may sleep to the next; a switch may also come between
`tcpdev_inetwrite` and the first look at `bufin_sem`, where the code has none.  The last
fields of the state record what has been sent, received and used.

**Result.**  `tcpdev_buffers`: both semaphores stay in `{-1, 0}` and no panic is reached,
and `bufout_sem` and `tdout_tail` agree just as long as the daemon has not opened the
device while a command was waiting.
-/

namespace Elks
namespace Inet

open Function (update update_idem update_of_ne update_self)

/-- A task. -/
abbrev Task := Nat

/-- A `struct socket`, by its address. -/
abbrev Sock := Nat

/-- The commands with their data. -/
inductive Cmd
  | bind (addr : List UInt8)
  | accept (newsock : Sock) (nonblock : Bool)
  | connect (addr : List UInt8)
  | listen (backlog : Int)
  | release
  | read (size : Int) (nonblock : Bool)
  | write (data : List UInt8) (nonblock : Bool)
deriving DecidableEq

/-- The sizes of the structures that are written. -/
def Cmd.size : Cmd → Nat
  | bind _ => 11
  | accept _ _ => 7
  | connect _ => 11
  | listen _ => 5
  | release => 3
  | read _ _ => 7
  | write _ _ => 107

theorem Cmd.size_pos (c : Cmd) : 0 < c.size := by
  cases c <;> exact Nat.zero_lt_succ _

/-- A command for a socket, with its place in the order of commands. -/
structure Command where
  cmd : Cmd
  sock : Sock
  serial : Nat
deriving DecidableEq

/-- The types of messages; `sock->wait` is woken for every other type as for
`TDT_RETURN`. -/
inductive MsgType
  | ret
  | chgState
  | availData
  | other
deriving DecidableEq

/-- `struct tdb_return_data`, with the command that it answers. -/
structure Msg where
  type : MsgType
  retValue : Int
  sock : Sock
  data : List UInt8
  answers : Nat
deriving DecidableEq

/-- Where a task is: in the system calls of a socket, with the rest of the data of
`inet_write`, or in those of the daemon. -/
inductive Pc
  | idle
  | out (c : Command) (rest : List UInt8)
  | wait (c : Command) (rest : List UInt8) (slept : Bool)
  | lock (c : Command)
  | reading (len : Nat) (nonblock slept : Bool)
  | inw (m : Msg)
  | avail (m : Msg)
deriving DecidableEq

/-- The wait queues. -/
inductive Chan
  | bufout
  | bufin
  | tcpdevq
  | wait (sock : Sock)
  | sem (sock : Sock)
deriving DecidableEq

/-- Where a task sleeps when it sleeps. -/
def Pc.chan : Pc → Option Chan
  | idle => none
  | out _ _ => some .bufout
  | wait c _ _ => some (.wait c.sock)
  | lock c => some (.sem c.sock)
  | reading _ _ _ => some .tcpdevq
  | inw _ => some .bufin
  | avail m => some (.sem m.sock)

/-- It sleeps in `interruptible_sleep_on`. -/
def Pc.interruptible : Pc → Bool
  | wait _ _ _ => true
  | reading _ _ _ => true
  | _ => false

/-- `inet_listen` and `inet_accept` give up on a signal. -/
def Cmd.givesUp : Cmd → Bool
  | listen _ => true
  | accept _ _ => true
  | _ => false

structure State where
  bufinSem : Int
  bufoutSem : Int
  tdoutTail : Nat
  tdinBuf : Msg
  tdoutBuf : Command
  inuse : Bool
  sem : Sock → Int
  state : Sock → Nat
  availData : Sock → Int
  pc : Task → Pc
  awake : Task → Bool
  signal : Task → Bool
  panicked : Option String
  sent : List Command
  got : List (Command × Nat)
  answered : List Nat
  delivered : List Msg
  taken : List (Command × Msg)

/-- `SS_CONNECTING`, `SS_CONNECTED` and `ERESTARTSYS`, and the sizes of an address and of
the data of one `TDC_WRITE`. -/
def ssConnecting : Nat := 2
def ssConnected : Nat := 3
def erestartsys : Int := 512
def sockaddrSize : Nat := 8
def tdbWriteMax : Nat := 100

/-- What happens next. -/
inductive Label
  | opens (root : Bool)
  | release
  | read (t : Task) (len : Nat) (nonblock : Bool)
  | write (t : Task) (m : Msg)
  | call (t : Task) (sock : Sock) (cmd : Cmd)
  | run (t : Task)
  | signal (t : Task)
  | handle (t : Task)

section Code

variable (s : State)

/-- `wake_up`. -/
def State.wakeUp (ch : Chan) : State :=
  { s with awake := fun t => s.awake t || decide ((s.pc t).chan = some ch) }

/-- A task goes on at `p`. -/
def State.goto (t : Task) (p : Pc) : State :=
  { s with pc := update s.pc t p, awake := update s.awake t true }

/-- `sleep_on`. -/
def State.sleepOn (t : Task) (p : Pc) : State :=
  { s with pc := update s.pc t p, awake := update s.awake t false }

/-- `interruptible_sleep_on`: with a signal pending the task stays runnable. -/
def State.interruptibleSleepOn (t : Task) (p : Pc) : State :=
  { s with pc := update s.pc t p, awake := update s.awake t (s.signal t) }

/-- `up(&bufin_sem)`. -/
def State.upBufin : State :=
  let s := { s with bufinSem := s.bufinSem + 1 }
  if s.bufinSem = 0 then s.wakeUp .bufin else s

/-- `up(&bufout_sem)`. -/
def State.upBufout : State :=
  let s := { s with bufoutSem := s.bufoutSem + 1 }
  if s.bufoutSem = 0 then s.wakeUp .bufout else s

/-- `up(&sock->sem)`. -/
def State.upSem (k : Sock) : State :=
  let s := { s with sem := update s.sem k (s.sem k + 1) }
  if s.sem k = 0 then s.wakeUp (.sem k) else s

/-- The end of `down(&sock->sem)`. -/
def State.downSem (k : Sock) : State :=
  { s with sem := update s.sem k (s.sem k - 1) }

def State.panic (message : String) : State :=
  { s with panicked := some message }

/-- `tcpdev_clear_data_avail`. -/
def State.clearDataAvail : State :=
  let s := s.upBufin
  if s.bufinSem > 0 then s.panic "bufin_sem tragedy" else s

/-- `tcpdev_inetwrite` behind its `down`. -/
def State.inetwrite (c : Command) : State :=
  { s with
    bufoutSem := s.bufoutSem - 1
    tdoutBuf := { c with serial := s.sent.length }
    tdoutTail := c.cmd.size
    sent := s.sent ++ [{ c with serial := s.sent.length }] }.wakeUp .tcpdevq

/-- `tcpdev_read` with a command in the buffer. -/
def State.tcpdevRead (len : Nat) : State :=
  let s :=
    { s with
      tdoutTail := 0
      got := s.got ++ [(s.tdoutBuf, min len s.tdoutTail)] }.upBufout
  if s.bufoutSem > 0 then s.panic "bufout_sem tragedy" else s

/-- What `inet_process_tcpdev` does with `TDT_AVAIL_DATA`. -/
def State.processAvail (t : Task) (m : Msg) : State :=
  let s := s.downSem m.sock
  let s := { s with availData := update s.availData m.sock m.retValue }
  (((s.upSem m.sock).clearDataAvail).wakeUp (.wait m.sock)).goto t .idle

/-- `inet_process_tcpdev`. -/
def State.processTcpdev (t : Task) (m : Msg) : State :=
  match m.type with
  | .chgState =>
      { s with
        state := update s.state m.sock (m.retValue % 256).toNat }.clearDataAvail.goto t
          .idle
  | .availData => if s.sem m.sock < 0 then s.sleepOn t (.avail m) else s.processAvail t m
  | _ => (s.wakeUp (.wait m.sock)).goto t .idle

/-- `tcpdev_write` behind its `down`. -/
def State.tcpdevWrite (t : Task) (m : Msg) : State :=
  { s with
    bufinSem := s.bufinSem - 1
    tdinBuf := m
    delivered := s.delivered ++ [m] }.processTcpdev t m

/-- The next command of `inet_write`. -/
def chunk (c : Command) (data : List UInt8) (nonblock : Bool) : Command :=
  { c with cmd := .write (data.take tdbWriteMax) nonblock }

/-- A call uses the message in `tdin_buf`. -/
def State.use (c : Command) : State :=
  { s with taken := s.taken ++ [(c, s.tdinBuf)] }.clearDataAvail

/-- `inet_read` with the buffer and the lock on the socket. -/
def State.useRead (t : Task) (c : Command) : State :=
  let s := s.downSem c.sock
  let s :=
    if s.tdinBuf.retValue > 0 then { s with availData := update s.availData c.sock 0 }
    else s
  ((s.upSem c.sock).use c).goto t .idle

/-- A call with the buffer. -/
def State.useReply (t : Task) (c : Command) (rest : List UInt8) : State :=
  let ret := s.tdinBuf.retValue
  match c.cmd with
  | .read _ _ => if s.sem c.sock < 0 then s.sleepOn t (.lock c) else s.useRead t c
  | .connect _ =>
      let s := s.use c
      let s :=
        if ret < 0 then s else { s with state := update s.state c.sock ssConnected }
      s.goto t .idle
  | .accept newsock _ =>
      let s := s.use c
      let s :=
        if ret < 0 then s else { s with state := update s.state newsock ssConnected }
      s.goto t .idle
  | .write _ nonblock =>
      let s := s.use c
      if ret = -erestartsys then
        s.goto t (.out c rest)
      else if ret < 0 ∨ rest = [] then
        s.goto t .idle
      else
        s.goto t (.out (chunk c rest nonblock) (rest.drop tdbWriteMax))
  | _ => (s.use c).goto t .idle

/-- A task that sends a command. -/
def State.runOut (t : Task) (c : Command) (rest : List UInt8) : State :=
  if s.bufoutSem < 0 then
    s.sleepOn t (.out c rest)
  else
    match c.cmd with
    | .release => (s.inetwrite c).goto t .idle
    | _ => (s.inetwrite c).goto t (.wait { c with serial := s.sent.length } rest false)

/-- A task that waits for `bufin_sem`. -/
def State.runWait (t : Task) (c : Command) (rest : List UInt8) (slept : Bool) : State :=
  if slept && c.cmd.givesUp && s.signal t then
    s.goto t .idle
  else if s.bufinSem = 0 then
    s.interruptibleSleepOn t (.wait c rest true)
  else
    s.useReply t c rest

/-- A task that reads a command. -/
def State.runReading (t : Task) (len : Nat) (nonblock slept : Bool) : State :=
  if slept && s.signal t then
    s.goto t .idle
  else if s.tdoutTail = 0 then
    if nonblock then s.goto t .idle
    else s.interruptibleSleepOn t (.reading len nonblock true)
  else
    (s.tcpdevRead len).goto t .idle

/-- A task runs from where it is. -/
def State.run (t : Task) : State :=
  if s.awake t then
    match s.pc t with
    | .idle => s
    | .out c rest => s.runOut t c rest
    | .wait c rest slept => s.runWait t c rest slept
    | .lock c => if s.sem c.sock < 0 then s.sleepOn t (.lock c) else s.useRead t c
    | .reading len nonblock slept => s.runReading t len nonblock slept
    | .inw m => if s.bufinSem < 0 then s.sleepOn t (.inw m) else s.tcpdevWrite t m
    | .avail m => if s.sem m.sock < 0 then s.sleepOn t (.avail m) else s.processAvail t m
  else
    s

/-- What a call checks before it sends its command. -/
def State.accepts (sock : Sock) : Cmd → Bool
  | .bind addr => 0 < addr.length ∧ addr.length ≤ sockaddrSize
  | .connect addr =>
      0 < addr.length ∧ addr.length ≤ sockaddrSize ∧ s.state sock ≠ ssConnecting ∧
        s.state sock ≠ ssConnected
  | .write data _ => data ≠ [] ∧ s.state sock = ssConnected
  | _ => true

/-- A task calls a function of a socket. -/
def State.call (t : Task) (sock : Sock) (cmd : Cmd) : State :=
  if s.pc t = .idle ∧ s.accepts sock cmd = true then
    match cmd with
    | .write data nonblock =>
        s.goto t (.out (chunk ⟨cmd, sock, 0⟩ data nonblock) (data.drop tdbWriteMax))
    | _ => s.goto t (.out ⟨cmd, sock, 0⟩ [])
  else
    s

/-- `tcpdev_open`. -/
def State.tcpdevOpen (root : Bool) : State :=
  if root = false ∨ s.inuse = true then s else { s with tdoutTail := 0, inuse := true }

/-- The next state. -/
def State.step : Label → State
  | .opens root => s.tcpdevOpen root
  | .release => { s with inuse := false }
  | .read t len nonblock =>
      if s.pc t = .idle then s.goto t (.reading len nonblock false) else s
  | .write t m =>
      if s.pc t = .idle then
        { s with answered := if m.type = MsgType.ret then s.answered ++ [m.answers] else s.answered }.goto t
          (.inw m)
      else
        s
  | .call t sock cmd => s.call t sock cmd
  | .run t => s.run t
  | .signal t =>
      { s with
        signal := update s.signal t true
        awake := if (s.pc t).interruptible then update s.awake t true else s.awake }
  | .handle t => if s.pc t = .idle then { s with signal := update s.signal t false } else s

end Code

/-- The machine after `tcpdev_init`. -/
structure State.Init (s : State) : Prop where
  bufin : s.bufinSem = 0
  bufout : s.bufoutSem = 0
  tail : s.tdoutTail = 0
  sems : ∀ k, s.sem k = 0
  tasks : ∀ t, s.pc t = .idle
  panicked : s.panicked = none
  sent : s.sent = []
  got : s.got = []
  answered : s.answered = []
  delivered : s.delivered = []
  taken : s.taken = []

/-- The daemon opens the device while a command waits in `tdout_buf`. -/
def State.drops (s : State) : Label → Bool
  | .opens root => root && !s.inuse && decide (s.tdoutTail ≠ 0)
  | _ => false

/-- The states of a run, with whether a command has been dropped. -/
inductive Reached : Bool → State → Prop
  | init {s : State} (h : s.Init) : Reached false s
  | step {b : Bool} {s : State} (h : Reached b s) (l : Label) : Reached (b || s.drops l) (s.step l)

/-- `bufout_sem` is taken just while a command waits, and all commands before it have
been read in their order. -/
structure State.Agrees (s : State) : Prop where
  sem : s.bufoutSem = -1 ↔ s.tdoutTail ≠ 0
  order : s.sent = s.got.map Prod.fst ++ if s.tdoutTail = 0 then [] else [s.tdoutBuf]

/-- The part of the state that the buffers are about. -/
structure Buffers where
  bufinSem : Int
  bufoutSem : Int
  tdoutTail : Nat
  tdoutBuf : Command
  sem : Sock → Int
  panicked : Option String
  sent : List Command
  got : List (Command × Nat)

def State.buffers (s : State) : Buffers :=
  ⟨s.bufinSem, s.bufoutSem, s.tdoutTail, s.tdoutBuf, s.sem, s.panicked, s.sent, s.got⟩

/-- What is always true of the buffers.  After a drop nobody gets `bufout_sem` any more. -/
structure Sound (b : Bool) (x : Buffers) : Prop where
  bufin : x.bufinSem = 0 ∨ x.bufinSem = -1
  panicked : x.panicked = none
  sems : ∀ k, x.sem k = 0
  out : if b then x.bufoutSem = -1 ∧ x.tdoutTail = 0
    else if x.tdoutTail = 0 then x.bufoutSem = 0 ∧ x.sent = x.got.map Prod.fst
    else x.bufoutSem = -1 ∧ x.sent = x.got.map Prod.fst ++ [x.tdoutBuf]

/-- No task sleeps on the semaphore of a socket. -/
def Pc.calm : Pc → Bool
  | lock _ => false
  | avail _ => false
  | _ => true

/-- The invariant. -/
structure Inv (b : Bool) (s : State) : Prop where
  sound : Sound b s.buffers
  calm : ∀ t, (s.pc t).calm = true

section Steps

variable {b : Bool} {s : State} {t : Task} {p : Pc} {k : Sock} {m : Msg} {c : Command}
  {rest : List UInt8}

theorem calm_update (h : ∀ t, (s.pc t).calm = true) (hp : p.calm = true) :
    ∀ t', (update s.pc t p t').calm = true := by
  intro t'
  by_cases ht : t' = t
  · rw [ht, update_self]
    exact hp
  · rw [update_of_ne ht]
    exact h t'

theorem Inv.goto (h : Inv b s) (hp : p.calm = true) : Inv b (s.goto t p) :=
  ⟨h.sound, calm_update h.calm hp⟩

theorem Inv.sleepOn (h : Inv b s) (hp : p.calm = true) : Inv b (s.sleepOn t p) :=
  ⟨h.sound, calm_update h.calm hp⟩

theorem Inv.interruptibleSleepOn (h : Inv b s) (hp : p.calm = true) :
    Inv b (s.interruptibleSleepOn t p) :=
  ⟨h.sound, calm_update h.calm hp⟩

theorem Inv.wakeUp {ch : Chan} (h : Inv b s) : Inv b (s.wakeUp ch) :=
  ⟨h.sound, h.calm⟩

theorem Inv.lockSem {s' : State} (h : Inv b s) (hsem : s'.sem = update s.sem k (s.sem k - 1))
    (hbuffers : s'.buffers = { s.buffers with sem := s'.sem }) (hpc : s'.pc = s.pc) :
    Inv b (s'.upSem k) := by
  have hzero := h.sound.sems
  have hback : update s'.sem k (s'.sem k + 1) = s.sem := by
    rw [hsem, update_self, update_idem]
    refine Function.update_eq_self_iff.mpr ?_
    omega
  have hsound : Sound b { s'.buffers with sem := update s'.sem k (s'.sem k + 1) } := by
    rw [hbuffers, hback]
    exact h.sound
  have hcalm : ∀ t, (s'.pc t).calm = true := by
    rw [hpc]
    exact h.calm
  unfold State.upSem
  dsimp only
  split
  · exact ⟨hsound, hcalm⟩
  · exact ⟨hsound, hcalm⟩

theorem Inv.clearDataAvail (h : Inv b s) (hbufin : s.bufinSem = -1) : Inv b s.clearDataAvail := by
  have hup : s.bufinSem + 1 = 0 := by omega
  unfold State.clearDataAvail State.upBufin
  dsimp only
  rw [if_pos hup]
  have hpos : ¬ ({ s with bufinSem := s.bufinSem + 1 }.wakeUp .bufin).bufinSem > 0 := by
    have hsame : ({ s with bufinSem := s.bufinSem + 1 }.wakeUp .bufin).bufinSem =
        s.bufinSem + 1 := rfl
    omega
  rw [if_neg hpos]
  exact ⟨⟨Or.inl hup, h.sound.panicked, h.sound.sems, h.sound.out⟩, h.calm⟩

theorem Inv.use (h : Inv b s) (hbufin : s.bufinSem = -1) : Inv b (s.use c) := by
  have hlogged : Inv b { s with taken := s.taken ++ [(c, s.tdinBuf)] } := ⟨h.sound, h.calm⟩
  exact hlogged.clearDataAvail hbufin

theorem upSem_bufinSem : (s.upSem k).bufinSem = s.bufinSem := by
  unfold State.upSem
  dsimp only
  split
  · rfl
  · rfl

theorem Inv.useRead (h : Inv b s) (hbufin : s.bufinSem = -1) : Inv b (s.useRead t c) := by
  unfold State.useRead
  dsimp only
  refine Inv.goto ?_ rfl
  split
  · exact Inv.use (h.lockSem rfl rfl rfl) (upSem_bufinSem.trans hbufin)
  · exact Inv.use (h.lockSem rfl rfl rfl) (upSem_bufinSem.trans hbufin)

theorem Inv.useReply (h : Inv b s) (hbufin : s.bufinSem = -1) : Inv b (s.useReply t c rest) := by
  have huse : Inv b (s.use c) := h.use hbufin
  have hstate : ∀ v, Inv b { s.use c with state := v } := fun _ => ⟨huse.sound, huse.calm⟩
  unfold State.useReply
  dsimp only
  split
  · have hsem := h.sound.sems c.sock
    have hfree : ¬ s.sem c.sock < 0 := by
      have hsame : s.buffers.sem = s.sem := rfl
      rw [hsame] at hsem
      omega
    rw [if_neg hfree]
    exact h.useRead hbufin
  · refine Inv.goto ?_ rfl
    split
    · exact huse
    · exact hstate _
  · refine Inv.goto ?_ rfl
    split
    · exact huse
    · exact hstate _
  · split
    · exact huse.goto rfl
    · split
      · exact huse.goto rfl
      · exact huse.goto rfl
  · exact huse.goto rfl

theorem Inv.processAvail (h : Inv b s) (hbufin : s.bufinSem = -1) : Inv b (s.processAvail t m) := by
  unfold State.processAvail
  dsimp only
  refine Inv.goto (Inv.wakeUp (Inv.clearDataAvail (h.lockSem rfl rfl rfl) ?_)) rfl
  exact upSem_bufinSem.trans hbufin

theorem Inv.tcpdevWrite (h : Inv b s) (hbufin : s.bufinSem = 0) : Inv b (s.tcpdevWrite t m) := by
  have hdown : s.bufinSem - 1 = -1 := by omega
  have htaken : Inv b { s with
      bufinSem := s.bufinSem - 1
      tdinBuf := m
      delivered := s.delivered ++ [m] } :=
    ⟨⟨Or.inr hdown, h.sound.panicked, h.sound.sems, h.sound.out⟩, h.calm⟩
  unfold State.tcpdevWrite State.processTcpdev
  dsimp only
  split
  · refine Inv.goto (Inv.clearDataAvail ?_ hdown) rfl
    exact ⟨htaken.sound, htaken.calm⟩
  · have hsem := h.sound.sems m.sock
    have hsame : s.buffers.sem = s.sem := rfl
    rw [hsame] at hsem
    rw [if_neg (show ¬ s.sem m.sock < 0 by omega)]
    exact htaken.processAvail hdown
  · exact (htaken.wakeUp).goto rfl

theorem Inv.inetwrite (h : Inv b s) (hbufout : ¬ s.bufoutSem < 0) : Inv b (s.inetwrite c) := by
  have hpos : c.cmd.size ≠ 0 := c.cmd.size_pos.ne'
  have hout := h.sound.out
  have hsame : s.buffers.bufoutSem = s.bufoutSem ∧ s.buffers.tdoutTail = s.tdoutTail := ⟨rfl, rfl⟩
  refine ⟨⟨h.sound.bufin, h.sound.panicked, h.sound.sems, ?_⟩, h.calm⟩
  cases b with
  | true =>
      simp only [if_true] at hout
      omega
  | false =>
      simp only [Bool.false_eq_true, if_false] at hout ⊢
      split at hout
      · rename_i htail
        have hnew : (s.inetwrite c).buffers.tdoutTail = c.cmd.size := rfl
        rw [hnew, if_neg hpos]
        constructor
        · have hless : (s.inetwrite c).buffers.bufoutSem = s.bufoutSem - 1 := rfl
          omega
        · have hsent : s.sent = s.got.map Prod.fst := hout.2
          have happend : (s.inetwrite c).buffers.sent =
              s.sent ++ [{ c with serial := s.sent.length }] := rfl
          rw [happend, hsent]
          have hbuf : (s.inetwrite c).buffers.tdoutBuf = { c with serial := s.sent.length } := rfl
          have hgot : (s.inetwrite c).buffers.got = s.got := rfl
          rw [hbuf, hgot, hsent]
      · omega

theorem Inv.tcpdevRead {len : Nat} (h : Inv b s) (htail : s.tdoutTail ≠ 0) :
    Inv b (s.tcpdevRead len) := by
  have hout := h.sound.out
  have hsame : s.buffers.bufoutSem = s.bufoutSem ∧ s.buffers.tdoutTail = s.tdoutTail := ⟨rfl, rfl⟩
  cases b with
  | true =>
      simp only [if_true] at hout
      omega
  | false =>
      have hne : s.buffers.tdoutTail ≠ 0 := htail
      simp only [Bool.false_eq_true, if_false] at hout
      rw [if_neg hne] at hout
      obtain ⟨hsem, horder⟩ := hout
      have hup : s.bufoutSem + 1 = 0 := by omega
      unfold State.tcpdevRead State.upBufout
      dsimp only
      rw [if_pos hup]
      have hpos : ¬ s.bufoutSem + 1 > 0 := by omega
      refine ⟨?_, ?_⟩
      · unfold State.wakeUp
        dsimp only
        rw [if_neg hpos]
        refine ⟨h.sound.bufin, h.sound.panicked, h.sound.sems, ?_⟩
        have hgot : s.sent = (s.got ++ [(s.tdoutBuf, min len s.tdoutTail)]).map Prod.fst := by
          rw [List.map_append]
          exact horder
        exact ⟨hup, hgot⟩
      · unfold State.wakeUp
        dsimp only
        rw [if_neg hpos]
        exact h.calm

theorem Inv.run (h : Inv b s) : Inv b (s.run t) := by
  have hbufin : s.bufinSem = 0 ∨ s.bufinSem = -1 := h.sound.bufin
  unfold State.run
  split
  · cases hpc : s.pc t with
    | idle => exact h
    | out c rest =>
        dsimp only
        unfold State.runOut
        split
        · exact h.sleepOn rfl
        · rename_i hfree
          have hsent : Inv b (s.inetwrite c) := h.inetwrite hfree
          split
          · exact hsent.goto rfl
          · exact hsent.goto rfl
    | wait c rest slept =>
        dsimp only
        unfold State.runWait
        split
        · exact h.goto rfl
        · split
          · exact h.interruptibleSleepOn rfl
          · rename_i hne
            exact h.useReply (hbufin.resolve_left hne)
    | lock c =>
        have hcalm := h.calm t
        rw [hpc] at hcalm
        cases hcalm
    | reading len nonblock slept =>
        dsimp only
        unfold State.runReading
        split
        · exact h.goto rfl
        · split
          · split
            · exact h.goto rfl
            · exact h.interruptibleSleepOn rfl
          · rename_i htail
            exact (h.tcpdevRead htail).goto rfl
    | inw m =>
        dsimp only
        split
        · exact h.sleepOn rfl
        · rename_i hfree
          exact h.tcpdevWrite (by omega)
    | avail m =>
        have hcalm := h.calm t
        rw [hpc] at hcalm
        cases hcalm
  · exact h

theorem Inv.call {sock : Sock} {cmd : Cmd} (h : Inv b s) : Inv b (s.call t sock cmd) := by
  unfold State.call
  split
  · split
    · exact h.goto rfl
    · exact h.goto rfl
  · exact h

theorem Inv.step (h : Inv b s) (l : Label) : Inv (b || s.drops l) (s.step l) := by
  have hsame : s.drops l = false → (b || s.drops l) = b := by
    intro hdrops
    rw [hdrops, Bool.or_false]
  cases l with
  | opens root =>
      unfold State.step State.tcpdevOpen State.drops
      dsimp only
      split
      · rename_i hrefused
        have hno : (root && !s.inuse && decide (s.tdoutTail ≠ 0)) = false := by
          rcases hrefused with hroot | hinuse
          · rw [hroot]
            rfl
          · rw [hinuse, Bool.not_true, Bool.and_false, Bool.false_and]
        rw [hno, Bool.or_false]
        exact h
      · rename_i hopens
        obtain ⟨hroot, hinuse⟩ := not_or.mp hopens
        rw [Bool.not_eq_false] at hroot
        rw [Bool.not_eq_true] at hinuse
        rw [hroot, hinuse, Bool.not_false, Bool.true_and, Bool.true_and]
        refine ⟨⟨h.sound.bufin, h.sound.panicked, h.sound.sems, ?_⟩, h.calm⟩
        have hout := h.sound.out
        by_cases htail : s.tdoutTail = 0
        · rw [decide_eq_false (not_not.mpr htail), Bool.or_false]
          cases b with
          | true => exact ⟨hout.1, rfl⟩
          | false =>
              have hzero : s.buffers.tdoutTail = 0 := htail
              simp only [Bool.false_eq_true, if_false] at hout ⊢
              rw [if_pos hzero] at hout
              exact hout
        · rw [decide_eq_true htail, Bool.or_true]
          cases b with
          | true => exact ⟨hout.1, rfl⟩
          | false =>
              have hne : s.buffers.tdoutTail ≠ 0 := htail
              simp only [Bool.false_eq_true, if_false] at hout
              rw [if_neg hne] at hout
              exact ⟨hout.1, rfl⟩
  | release =>
      rw [hsame rfl]
      exact ⟨h.sound, h.calm⟩
  | read t len nonblock =>
      rw [hsame rfl]
      unfold State.step
      dsimp only
      split
      · exact h.goto rfl
      · exact h
  | write t m =>
      rw [hsame rfl]
      unfold State.step
      dsimp only
      split
      · refine Inv.goto ?_ rfl
        exact ⟨h.sound, h.calm⟩
      · exact h
  | call t sock cmd =>
      rw [hsame rfl]
      exact h.call
  | run t =>
      rw [hsame rfl]
      exact h.run
  | signal t =>
      rw [hsame rfl]
      exact ⟨h.sound, h.calm⟩
  | handle t =>
      rw [hsame rfl]
      unfold State.step
      dsimp only
      split
      · exact ⟨h.sound, h.calm⟩
      · exact h

theorem State.Init.inv (h : s.Init) : Inv false s := by
  refine ⟨⟨Or.inl h.bufin, h.panicked, h.sems, ?_⟩, fun t => ?_⟩
  · have htail : s.buffers.tdoutTail = 0 := h.tail
    simp only [Bool.false_eq_true, if_false]
    rw [if_pos htail]
    refine ⟨h.bufout, ?_⟩
    have hsent : s.buffers.sent = [] := h.sent
    have hgot : s.buffers.got = [] := h.got
    rw [hsent, hgot]
    rfl
  · rw [h.tasks t]
    rfl

theorem reached_inv (h : Reached b s) : Inv b s := by
  induction h with
  | init h => exact h.inv
  | step _ l ih => exact ih.step l

/-- The semaphores stay in `{-1, 0}` and the panics are not reached.  `bufout_sem` is
taken just while a command waits, and no command is lost, in the states before the daemon
has opened the device over a waiting command, and in no state after that. -/
theorem tcpdev_buffers (h : Reached b s) :
    (s.bufinSem = 0 ∨ s.bufinSem = -1) ∧ (s.bufoutSem = 0 ∨ s.bufoutSem = -1) ∧
      s.panicked = none ∧ (s.Agrees ↔ b = false) := by
  have hinv := reached_inv h
  have hbufin : s.bufinSem = 0 ∨ s.bufinSem = -1 := hinv.sound.bufin
  have hout := hinv.sound.out
  have hsem : s.buffers.bufoutSem = s.bufoutSem := rfl
  have htail : s.buffers.tdoutTail = s.tdoutTail := rfl
  have horder : s.buffers.sent = s.sent ∧ s.buffers.got = s.got ∧ s.buffers.tdoutBuf = s.tdoutBuf :=
    ⟨rfl, rfl, rfl⟩
  rw [hsem, htail, horder.1, horder.2.1, horder.2.2] at hout
  cases b with
  | true =>
      simp only [if_true] at hout
      refine ⟨hbufin, Or.inr hout.1, hinv.sound.panicked, fun hagrees => ?_, fun hb => ?_⟩
      · exact absurd hout.2 (hagrees.sem.mp hout.1)
      · cases hb
  | false =>
      simp only [Bool.false_eq_true, if_false] at hout
      by_cases hzero : s.tdoutTail = 0
      · rw [if_pos hzero] at hout
        refine ⟨hbufin, Or.inl hout.1, hinv.sound.panicked, fun _ => rfl, fun _ => ⟨?_, ?_⟩⟩
        · constructor
          · intro hminus
            omega
          · intro hne
            exact absurd hzero hne
        · rw [if_pos hzero, List.append_nil]
          exact hout.2
      · rw [if_neg hzero] at hout
        refine ⟨hbufin, Or.inr hout.1, hinv.sound.panicked, fun _ => rfl, fun _ => ⟨?_, ?_⟩⟩
        · exact ⟨fun _ => hzero, fun _ => hout.1⟩
        · rw [if_neg hzero]
          exact hout.2

end Steps

section Runs

/-- The machine after `tcpdev_init`, with no task in a system call. -/
def started : State where
  bufinSem := 0
  bufoutSem := 0
  tdoutTail := 0
  tdinBuf := ⟨.other, 0, 0, [], 0⟩
  tdoutBuf := ⟨.release, 0, 0⟩
  inuse := false
  sem _ := 0
  state _ := 1
  availData _ := 0
  pc _ := .idle
  awake _ := true
  signal _ := false
  panicked := none
  sent := []
  got := []
  answered := []
  delivered := []
  taken := []

theorem started_init : started.Init :=
  ⟨rfl, rfl, rfl, fun _ => rfl, fun _ => rfl, rfl, rfl, rfl, rfl, rfl, rfl⟩

/-- Some steps. -/
def State.steps (s : State) (ls : List Label) : State :=
  ls.foldl State.step s

/-- A socket that sends a command to the daemon. -/
def oneCommand : List Label :=
  [.opens true, .call 1 7 (.listen 5), .run 1]

theorem tcpdev_buffers_command :
    (started.steps oneCommand).bufoutSem = -1 ∧ (started.steps oneCommand).Agrees := by
  have hreached : Reached false (started.steps oneCommand) :=
    .step (.step (.step (.init started_init) (.opens true)) (.call 1 7 (.listen 5))) (.run 1)
  exact ⟨rfl, (tcpdev_buffers hreached).2.2.2.mpr rfl⟩

/-- The daemon goes away with a command in the buffer and comes back. -/
theorem command_dropped :
    started.Init ∧ ∃ s, s = started.steps (oneCommand ++ [.release, .opens true]) ∧
      s.bufoutSem = -1 ∧ s.tdoutTail = 0 ∧ s.sent.length = 1 ∧ s.got = [] :=
  ⟨started_init, _, rfl, rfl, rfl, rfl, rfl⟩

end Runs

end Inet
end Elks
