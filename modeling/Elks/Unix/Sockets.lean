import Mathlib.Data.List.FinRange
import Mathlib.Data.PNat.Basic
import Mathlib.Data.Fintype.Basic
import Mathlib.Logic.Function.Basic

/-!
# Unix-domain sockets (net/socket.c, net/unix/af_unix.c)

A socket lives in the slot of its inode.  The fields of `struct socket` and of
`struct unix_proto_data` are functions of the slot, so a stale pointer is read as the
code reads it, whatever has come to the slot since.

A task runs from one place where it may sleep to the next: on the wait queue of a
socket, in the file system with a name or with an inode that is given back, and in
`get_empty_inode`.  The last fields of the state record the order of the connects, which
of them a server has accepted and which have returned 0.
-/

namespace Elks
namespace Unix

open Function (update)

/-- The slots of `inode_block`. -/
abbrev NR_INODE : Nat := 96

/-- The entries of `unix_datas`. -/
abbrev NSOCKETS_UNIX : Nat := 16

abbrev MAX_TASKS : Nat := 15

/-- A `struct socket`, by the slot of its inode. -/
abbrev Sock := Fin NR_INODE

/-- A `struct unix_proto_data`. -/
abbrev Upd := Fin NSOCKETS_UNIX

abbrev Task := Fin MAX_TASKS

/-- A `struct inode` of the file system. -/
abbrev Inode := Nat

section Constants

def AF_UNIX : Nat := 1
def MAX_SOCK_ADDR : Int := 16
def SOCKADDR_UN : Int := 110
def UN_BUF_SIZE : Nat := 64

def EINTR : Int := 4
def EAGAIN : Int := 11
def ENOMEM : Int := 12
def EACCES : Int := 13
def EEXIST : Int := 17
def EINVAL : Int := 22
def EPIPE : Int := 32
def EADDRINUSE : Int := 98
def EISCONN : Int := 106
def EINPROGRESS : Int := 115
def ERESTARTSYS : Int := 512

end Constants

/-- `socket_state`. -/
inductive SockState
  | unconnected
  | connecting
  | connected
  | disconnecting
deriving DecidableEq, Repr

/-- Where the code goes wrong for good: a loop over a queue that does not end, the loop
of `sock_awaitconn` that does not find its own socket, and pointers that are `NULL`. -/
inductive Fault
  | endless
  | lost
  | noServer
  | noData
  | noConn
  | noPeer
deriving DecidableEq, Repr

/-- Where a task is in a system call of a socket. -/
inductive Pc
  | idle
  | bind (k : Sock) (u : Upd) (len : Int)
  | opening (k : Sock) (nonblock : Bool)
  | found (k : Sock) (u : Upd) (nonblock : Bool)
  | connect (k serv : Sock) (attempt : Nat)
  | allocating (k : Sock) (nonblock : Bool)
  | accept (k new : Sock)
  | read (k : Sock) (size : Nat)
  | write (k : Sock) (pupd : Upd) (size : Nat)
  | release (k : Sock) (u : Upd) (peer : Option Sock) (ret : Int)
deriving DecidableEq

/-- The socket that the call is on, by a file descriptor. -/
def Pc.sock : Pc → Option Sock
  | bind k _ _ => some k
  | opening k _ => some k
  | found k _ _ => some k
  | connect k _ _ => some k
  | allocating k _ => some k
  | accept k _ => some k
  | read k _ => some k
  | write k _ _ => some k
  | _ => none

/-- A socket without a file descriptor that the call has in hand. -/
def Pc.own : Pc → Option Sock
  | accept _ new => some new
  | release k _ _ _ => some k
  | _ => none

/-- The socket on whose wait queue it sleeps. -/
def Pc.chan : Pc → Option Sock
  | connect k _ _ => some k
  | accept k _ => some k
  | read k _ => some k
  | write k _ _ => some k
  | _ => none

/-- The fields of `struct socket` that tie the sockets together. -/
structure Net where
  state : Sock → SockState
  acceptcon : Sock → Bool
  conn : Sock → Option Sock
  iconn : Sock → Option Sock
  next : Sock → Option Sock
  /-- The slot is in use for a socket. -/
  live : Sock → Bool
  /-- The socket has a file. -/
  opened : Sock → Bool
  clock : Nat
  stamp : Sock → Nat

/-- The fields of `struct unix_proto_data`. -/
structure UnixDatas where
  refcnt : Upd → Int
  socket : Upd → Option Sock
  inode : Upd → Option Inode
  sockaddrLen : Upd → Int
  sunFamily : Upd → Nat
  peerupd : Upd → Option Upd
  bpHead : Upd → Nat
  bpTail : Upd → Nat

structure State extends Net, UnixDatas where
  data : Sock → Option Upd
  pc : Task → Pc
  awake : Task → Bool
  signal : Task → Bool
  ret : Task → Int
  fault : Option Fault
  accepted : List Nat
  returned : List Nat

/-- What the slot of a closed socket holds is arbitrary. -/
structure State.Init (s : State) : Prop where
  refcnt : ∀ u, s.refcnt u = 0
  socket : ∀ u, s.socket u = none
  peerupd : ∀ u, s.peerupd u = none
  live : ∀ k, s.live k = false
  opened : ∀ k, s.opened k = false
  pc : ∀ t, s.pc t = .idle
  fault : s.fault = none
  clock : s.clock = 0
  stamp : ∀ k, s.stamp k = 0
  accepted : s.accepted = []
  returned : s.returned = []

section Tasks

def State.goto (s : State) (t : Task) (p : Pc) : State :=
  { s with pc := update s.pc t p }

/-- The system call returns `r`. -/
def State.finish (s : State) (t : Task) (r : Int) : State :=
  { s with
    pc := update s.pc t .idle
    ret := update s.ret t r }

/-- `interruptible_sleep_on`, which does not sleep while a signal is pending. -/
def State.sleepOn (s : State) (t : Task) (p : Pc) : State :=
  { s with
    pc := update s.pc t p
    awake := update s.awake t (s.signal t) }

/-- `wake_up_interruptible` of the queue of a socket. -/
def State.wake (s : State) (k : Sock) : State :=
  { s with awake := fun t => s.awake t || decide ((s.pc t).chan = some k) }

def State.fail (s : State) (f : Fault) : State :=
  { s with fault := some f }

end Tasks

section Data

/-- `unix_data_alloc`. -/
def State.unixDataAlloc (s : State) : Option Upd :=
  (List.finRange NSOCKETS_UNIX).find? fun u => s.refcnt u = 0

/-- `unix_data_lookup`. -/
def State.unixDataLookup (s : State) (family : Nat) (i : Inode) : Option Upd :=
  (List.finRange NSOCKETS_UNIX).find? fun u =>
    decide (0 < s.refcnt u) && (s.socket u).any (fun c => s.state c = .unconnected) &&
      decide (s.sunFamily u = family ∧ s.inode u = some i)

/-- `unix_data_ref`, which lets `NULL` pass. -/
def State.unixDataRef (s : State) : Option Upd → State
  | none => s
  | some u => { s with refcnt := update s.refcnt u (s.refcnt u + 1) }

/-- `unix_data_deref`. -/
def State.unixDataDeref (s : State) (u : Upd) : State :=
  { s with
    bpHead := if s.refcnt u = 1 then update s.bpHead u 0 else s.bpHead
    bpTail := if s.refcnt u = 1 then update s.bpTail u 0 else s.bpTail
    refcnt := update s.refcnt u (s.refcnt u - 1) }

/-- `unix_create`, with the entry as `unix_data_alloc` leaves it. -/
def State.unixCreate (s : State) (k : Sock) (protocol : Int) : State × Int :=
  if protocol ≠ 0 then (s, -EINVAL)
  else match s.unixDataAlloc with
    | none => (s, -ENOMEM)
    | some u =>
      ({ s with
          refcnt := update s.refcnt u 1
          socket := update s.socket u (some k)
          inode := update s.inode u none
          sockaddrLen := update s.sockaddrLen u 0
          sunFamily := update s.sunFamily u 0
          peerupd := update s.peerupd u none
          bpHead := update s.bpHead u 0
          bpTail := update s.bpTail u 0
          data := update s.data k (some u) }, 0)

/-- `unix_release` from `iput(upd->inode)` on, for the entry of the socket. -/
def State.unixRelease (s : State) (k : Sock) : Option Upd → State
  | none => s
  | some u =>
    let s := { s with
      inode := update s.inode u none
      data := update s.data k none
      socket := update s.socket u none }
    match s.peerupd u with
    | some v => (s.unixDataDeref v).unixDataDeref u
    | none => s.unixDataDeref u

end Data

section Release

/-- `sock_release_peer`. -/
def State.releasePeer (s : State) (p : Sock) : State :=
  { s with state := update s.state p .disconnecting }.wake p

/-- `sock_release_peer` of the peer, if there is one. -/
def State.releaseConn (s : State) : Option Sock → State
  | none => s
  | some p => s.releasePeer p

/-- The loop of `sock_release` over the queue. -/
def State.releasePeers : Nat → Option Sock → State → Option State
  | _, none, s => some s
  | 0, some _, _ => none
  | n + 1, some p, s => State.releasePeers n (s.next p) (s.releasePeer p)

/-- `sock_release` from `iput(upd->inode)` on. -/
def State.releaseTail (s : State) (t : Task) (k : Sock) (upd : Option Upd) (peer : Option Sock)
    (r : Int) : State :=
  let s := (s.unixRelease k upd).releaseConn peer
  { s with live := update s.live k false }.finish t r

/-- `sock_release`, with `unix_release`; `iput(upd->inode)` may sleep. -/
def State.sockRelease (s : State) (t : Task) (k : Sock) (r : Int) : State :=
  let oldstate := s.state k
  let s := if oldstate = .unconnected then s
    else { s with state := update s.state k .disconnecting }
  match s.releasePeers NR_INODE (s.iconn k) with
  | none => s.fail .endless
  | some s =>
    let peer := if oldstate = .connected then s.conn k else none
    match s.data k with
    | none => s.releaseTail t k none peer r
    | some u =>
      if s.socket u ≠ some k then s.releaseTail t k none peer r
      else match s.inode u with
        | some _ => s.goto t (.release k u peer r)
        | none => s.releaseTail t k (some u) peer r

/-- `sock_close`, when the last reference to the file goes. -/
def State.sockClose (s : State) (t : Task) (k : Sock) : State :=
  { s with opened := update s.opened k false }.sockRelease t k 0

end Release

section Create

/-- `sock_alloc` in the slot that `get_empty_inode` has found. -/
def State.sockAlloc (s : State) (k : Sock) : State :=
  { s with
    state := update s.state k .unconnected
    acceptcon := update s.acceptcon k false
    data := update s.data k none
    conn := update s.conn k none
    iconn := update s.iconn k none
    next := update s.next k none
    live := update s.live k true }

/-- `get_fd`, with `sock_release` when it fails. -/
def State.getFd (s : State) (t : Task) (k : Sock) (fd : Bool) : State :=
  if fd then { s with opened := update s.opened k true }.finish t 0
  else s.sockRelease t k (-EINVAL)

/-- `sys_socket` of the family. -/
def State.sysSocket (s : State) (t : Task) (k : Sock) (protocol : Int) (fd : Bool) : State :=
  let r := (s.sockAlloc k).unixCreate k protocol
  if r.2 < 0 then r.1.sockRelease t k r.2 else r.1.getFd t k fd

/-- `sys_bind` and `unix_bind` up to `do_mknod`. -/
def State.sysBind (s : State) (t : Task) (k : Sock) (len : Int) (family : Nat) : State :=
  if len < 0 ∨ MAX_SOCK_ADDR < len then s.finish t (-EINVAL)
  else if len ≤ 0 ∨ SOCKADDR_UN < len then s.finish t (-EINVAL)
  else match s.data k with
    | none => s.fail .noData
    | some u =>
      if s.sockaddrLen u ≠ 0 ∨ s.inode u ≠ none then s.finish t (-EINVAL)
      else
        let s := { s with sunFamily := update s.sunFamily u family }
        if family ≠ AF_UNIX then s.finish t (-EINVAL) else s.goto t (.bind k u len)

/-- The rest of `unix_bind`, with what `do_mknod` and `open_namei` have returned. -/
def State.bindEnd (s : State) (t : Task) (u : Upd) (len : Int) : Except ℕ+ Inode → State
  | .error e => s.finish t (if (e : Int) = EEXIST then -EADDRINUSE else -(e : Int))
  | .ok i =>
    { s with
      inode := update s.inode u (some i)
      sockaddrLen := update s.sockaddrLen u len }.finish t 0

/-- `sys_listen`. -/
def State.sysListen (s : State) (t : Task) (k : Sock) : State :=
  if s.state k ≠ .unconnected then s.finish t (-EINVAL)
  else { s with acceptcon := update s.acceptcon k true }.finish t 0

end Create

section Connect

/-- The end of the queue, from a socket on it. -/
def State.lastOf (s : State) : Nat → Sock → Option Sock
  | 0, _ => none
  | n + 1, last =>
    match s.next last with
    | none => some last
    | some i => s.lastOf n i

/-- `sock_awaitconn` puts its socket on the queue of the server. -/
def State.enqueue (s : State) (k serv : Sock) : Option State :=
  let s := { s with next := update s.next k none }
  match s.iconn serv with
  | none => some { s with iconn := update s.iconn serv (some k) }
  | some first =>
    match s.lastOf NR_INODE first with
    | none => none
    | some last => some { s with next := update s.next last (some k) }

/-- The socket on the queue whose `next` is `k`. -/
def State.prevOf (s : State) (k : Sock) : Nat → Option Sock → Option Sock
  | 0, _ => none
  | _ + 1, none => none
  | n + 1, some last => if s.next last = some k then some last else s.prevOf k n (s.next last)

/-- `sock_awaitconn` takes its socket from the queue of the server. -/
def State.unlink (s : State) (k serv : Sock) : Option State :=
  if s.iconn serv = some k then
    some { s with iconn := update s.iconn serv (s.next k) }
  else match s.prevOf k NR_INODE (s.iconn serv) with
    | none => none
    | some last => some { s with next := update s.next last (s.next k) }

/-- `unix_connect` after `sock_awaitconn` has returned 0. -/
def State.connectEnd (s : State) (t : Task) (k : Sock) (attempt : Nat) : State :=
  match s.conn k with
  | none => { s with returned := attempt :: s.returned }.finish t 0
  | some c =>
    match s.data k with
    | none => s.fail .noData
    | some u =>
      let s := s.unixDataRef (s.data c)
      { s with
        peerupd := update s.peerupd u (s.data c)
        returned := attempt :: s.returned }.finish t 0

/-- `sys_connect` and `unix_connect` up to `open_namei`. -/
def State.sysConnect (s : State) (t : Task) (k : Sock) (len : Int) (family : Nat)
    (nonblock : Bool) : State :=
  if len < 0 ∨ MAX_SOCK_ADDR < len then s.finish t (-EINVAL)
  else match s.state k with
    | .connected => s.finish t (-EISCONN)
    | .disconnecting => s.finish t (-EINVAL)
    | .connecting =>
      if len ≤ 0 ∨ SOCKADDR_UN < len then s.finish t (-EINVAL) else s.finish t (-EINPROGRESS)
    | .unconnected =>
      if len ≤ 0 ∨ SOCKADDR_UN < len then s.finish t (-EINVAL)
      else if family ≠ AF_UNIX then s.finish t (-EINVAL)
      else s.goto t (.opening k nonblock)

/-- `unix_connect` from `open_namei` to `iput`. -/
def State.connectLookup (s : State) (t : Task) (k : Sock) (nonblock : Bool) :
    Except ℕ+ Inode → State
  | .error e => s.finish t (-(e : Int))
  | .ok i =>
    match s.unixDataLookup AF_UNIX i with
    | none => s.finish t (-EINVAL)
    | some u => s.goto t (.found k u nonblock)

/-- `sock_awaitconn` up to its sleep. -/
def State.awaitconn (s : State) (t : Task) (k serv : Sock) (nonblock : Bool) : State :=
  if s.acceptcon serv = false then s.finish t (-EINVAL)
  else match s.enqueue k serv with
    | none => s.fail .endless
    | some s =>
      let s := { s with
        state := update s.state k .connecting
        conn := update s.conn k (some serv)
        clock := s.clock + 1
        stamp := update s.stamp k (s.clock + 1) }.wake serv
      if s.state k = .connected then s.connectEnd t k s.clock
      else if nonblock then s.finish t (-EINPROGRESS)
      else s.sleepOn t (.connect k serv s.clock)

/-- `sock_awaitconn` after its sleep. -/
def State.connectTurn (s : State) (t : Task) (k serv : Sock) (attempt : Nat) : State :=
  if s.state k ≠ .connected ∧ s.state k ≠ .disconnecting then
    if s.conn k = some serv then
      match s.unlink k serv with
      | none => s.fail .lost
      | some s => s.finish t (-EINTR)
    else if s.conn k = none then s.finish t (-EACCES)
    else s.finish t (-EINTR)
  else s.connectEnd t k attempt

end Connect

section Accept

/-- `sys_accept` up to `get_empty_inode`. -/
def State.sysAccept (s : State) (t : Task) (k : Sock) (nonblock : Bool) : State :=
  if s.state k ≠ .unconnected then s.finish t (-EINVAL)
  else if s.acceptcon k = false then s.finish t (-EINVAL)
  else s.goto t (.allocating k nonblock)

/-- `unix_accept` with a client at the head of the queue, and the rest of `sys_accept`. -/
def State.acceptEnd (s : State) (t : Task) (k new c : Sock) (fd : Bool) : State :=
  let s := { s with iconn := update s.iconn k (s.next c) }
  let s := { s with
    next := update s.next c none
    conn := update (update s.conn new (some c)) c (some new)
    state := update (update s.state c .connected) new .connected
    accepted := s.stamp c :: s.accepted }
  let s := s.unixDataRef (s.data c)
  match s.data new, s.data k with
  | some w, some u =>
    let s := { s with
      peerupd := update s.peerupd w (s.data c)
      sunFamily := update s.sunFamily w (s.sunFamily u)
      sockaddrLen := update s.sockaddrLen w (s.sockaddrLen u) }
    (s.wake c).getFd t new fd
  | _, _ => s.fail .noData

/-- A turn of the loop of `unix_accept`. -/
def State.acceptTurn (s : State) (t : Task) (k new : Sock) (nonblock fd : Bool) : State :=
  match s.iconn k with
  | some c => s.acceptEnd t k new c fd
  | none =>
    if nonblock then s.sockRelease t new (-EAGAIN) else s.sleepOn t (.accept k new)

/-- `sys_accept` from `sock_alloc` on. -/
def State.acceptStart (s : State) (t : Task) (k new : Sock) (nonblock fd : Bool) : State :=
  let r := (s.sockAlloc new).unixCreate new 0
  if r.2 < 0 then r.1.sockRelease t new r.2 else r.1.acceptTurn t k new nonblock fd

end Accept

section ReadWrite

/-- `UN_BUF_AVAIL`. -/
def unBufAvail (head tail : Nat) : Nat :=
  (head + (UN_BUF_SIZE - tail)) % UN_BUF_SIZE

/-- `UN_BUF_SPACE`. -/
def unBufSpace (head tail : Nat) : Nat :=
  UN_BUF_SIZE - 1 - unBufAvail head tail

/-- The loop of `unix_read`: the new `bp_tail`, and what is left to do. -/
def readLoop (head : Nat) : Nat → Nat → Nat → Nat × Nat
  | 0, tail, todo => (tail, todo)
  | n + 1, tail, todo =>
    let cando := min (min todo (unBufAvail head tail)) (UN_BUF_SIZE - tail)
    let tail := (tail + cando) % UN_BUF_SIZE
    let todo := todo - cando
    if todo ≠ 0 ∧ unBufAvail head tail ≠ 0 then readLoop head n tail todo else (tail, todo)

/-- The loop of `unix_write`: the new `bp_head`, and what is left to do. -/
def writeLoop (tail : Nat) : Nat → Nat → Nat → Nat × Nat
  | 0, head, todo => (head, todo)
  | n + 1, head, todo =>
    let cando := min (min todo (unBufSpace head tail)) (UN_BUF_SIZE - head)
    let head := (head + cando) % UN_BUF_SIZE
    let todo := todo - cando
    if todo ≠ 0 ∧ unBufSpace head tail ≠ 0 then writeLoop tail n head todo else (head, todo)

/-- The task at the other end is woken while the socket is connected. -/
def State.wakeConn (s : State) (k : Sock) : State :=
  if s.state k = .connected then
    match s.conn k with
    | none => s.fail .noConn
    | some c => s.wake c
  else s

/-- A turn of the first loop of `unix_read`, and its rest. -/
def State.readTurn (s : State) (t : Task) (k : Sock) (size : Nat) (nonblock : Bool) : State :=
  match s.data k with
  | none => s.fail .noData
  | some u =>
    if unBufAvail (s.bpHead u) (s.bpTail u) = 0 then
      if s.state k ≠ .connected then
        s.finish t (if s.state k = .disconnecting then 0 else -EINVAL)
      else if nonblock then s.finish t (-EAGAIN)
      else s.sleepOn t (.read k size)
    else
      let r := readLoop (s.bpHead u) size (s.bpTail u) size
      ({ s with bpTail := update s.bpTail u r.1 }.wakeConn k).finish t (size - r.2 : Int)

/-- `sock_read`. -/
def State.sockRead (s : State) (t : Task) (k : Sock) (size : Nat) (nonblock : Bool) : State :=
  if s.acceptcon k then s.finish t (-EINVAL)
  else if size = 0 then s.finish t 0
  else s.readTurn t k size nonblock

/-- `send_sig(SIGPIPE, current, 1)` and `-EPIPE`. -/
def State.sigpipe (s : State) (t : Task) : State :=
  { s with signal := update s.signal t true }.finish t (-EPIPE)

/-- A turn of the first loop of `unix_write`, and its rest. -/
def State.writeTurn (s : State) (t : Task) (k : Sock) (p : Upd) (size : Nat) (nonblock : Bool) :
    State :=
  if unBufSpace (s.bpHead p) (s.bpTail p) = 0 then
    if nonblock then s.finish t (-EAGAIN) else s.sleepOn t (.write k p size)
  else if s.state k = .disconnecting then s.sigpipe t
  else
    let r := writeLoop (s.bpTail p) size (s.bpHead p) size
    ({ s with bpHead := update s.bpHead p r.1 }.wakeConn k).finish t (size - r.2 : Int)

/-- `sock_write`, with `unix_write` up to its first loop. -/
def State.sockWrite (s : State) (t : Task) (k : Sock) (size : Nat) (nonblock : Bool) : State :=
  if s.acceptcon k then s.finish t (-EINVAL)
  else if size = 0 then s.finish t 0
  else match s.state k with
    | .disconnecting => s.sigpipe t
    | .unconnected => s.finish t (-EINVAL)
    | .connecting => s.finish t (-EINVAL)
    | .connected =>
      match s.data k with
      | none => s.fail .noData
      | some u =>
        match s.peerupd u with
        | none => s.fail .noPeer
        | some p => s.writeTurn t k p size nonblock

end ReadWrite

section Steps

/-- What a socket slot holds when another inode has been in it. -/
structure Content where
  state : SockState
  acceptcon : Bool
  data : Option Upd
  conn : Option Sock
  iconn : Option Sock
  next : Option Sock

/-- A system call on a socket, the return of the file system to a call that waits for
it, a task that goes on after a sleep, a signal that arrives or is taken, and a slot
that serves for something else.  `fd` tells whether `get_fd` finds a descriptor. -/
inductive Label
  | socket (t : Task) (slot : Sock) (protocol : Int) (fd : Bool)
  | bind (t : Task) (k : Sock) (len : Int) (family : Nat)
  | listen (t : Task) (k : Sock)
  | accept (t : Task) (k : Sock) (nonblock : Bool)
  | connect (t : Task) (k : Sock) (len : Int) (family : Nat) (nonblock : Bool)
  | read (t : Task) (k : Sock) (size : Nat) (nonblock : Bool)
  | write (t : Task) (k : Sock) (size : Nat) (nonblock : Bool)
  | close (t : Task) (k : Sock)
  | answer (t : Task) (r : Except ℕ+ Inode)
  | inode (t : Task) (slot : Sock) (fd : Bool)
  | run (t : Task) (fd : Bool)
  | signal (t : Task)
  | deliver (t : Task)
  | reuse (k : Sock) (c : Content)

/-- A task that is in no call may make one on a socket that is open. -/
def State.Ready (s : State) (t : Task) (k : Sock) : Prop :=
  s.pc t = .idle ∧ s.opened k = true

instance (s : State) (t : Task) (k : Sock) : Decidable (s.Ready t k) :=
  inferInstanceAs (Decidable (_ ∧ _))

/-- The file system returns to a call. -/
def State.answer (s : State) (t : Task) (r : Except ℕ+ Inode) : State :=
  match s.pc t with
  | .bind _ u len => s.bindEnd t u len r
  | .opening k nonblock => s.connectLookup t k nonblock r
  | _ => s

/-- `get_empty_inode` returns to `sys_accept` with a slot. -/
def State.gotInode (s : State) (t : Task) (slot : Sock) (fd : Bool) : State :=
  match s.pc t with
  | .allocating k nonblock => if s.live slot then s else s.acceptStart t k slot nonblock fd
  | _ => s

/-- A task goes on after a sleep. -/
def State.runTask (s : State) (t : Task) (fd : Bool) : State :=
  match s.pc t with
  | .found k u nonblock =>
    match s.socket u with
    | none => s.fail .noServer
    | some serv => s.awaitconn t k serv nonblock
  | .connect k serv attempt => if s.awake t then s.connectTurn t k serv attempt else s
  | .accept k new =>
    if s.awake t then
      if s.signal t then s.sockRelease t new (-ERESTARTSYS) else s.acceptTurn t k new false fd
    else s
  | .read k size =>
    if s.awake t then
      if s.signal t then s.finish t (-ERESTARTSYS) else s.readTurn t k size false
    else s
  | .write k p size =>
    if s.awake t then
      if s.signal t then s.finish t (-ERESTARTSYS)
      else if s.state k = .disconnecting then s.sigpipe t
      else s.writeTurn t k p size false
    else s
  | .release k u peer r => s.releaseTail t k (some u) peer r
  | _ => s

/-- The slot of a closed socket comes to hold something else. -/
def State.reuse (s : State) (k : Sock) (c : Content) : State :=
  { s with
    state := update s.state k c.state
    acceptcon := update s.acceptcon k c.acceptcon
    data := update s.data k c.data
    conn := update s.conn k c.conn
    iconn := update s.iconn k c.iconn
    next := update s.next k c.next }

def State.step (s : State) (l : Label) : State :=
  if s.fault ≠ none then s
  else match l with
    | .socket t slot protocol fd =>
      if s.pc t = .idle ∧ s.live slot = false then s.sysSocket t slot protocol fd else s
    | .bind t k len family => if s.Ready t k then s.sysBind t k len family else s
    | .listen t k => if s.Ready t k then s.sysListen t k else s
    | .accept t k nonblock => if s.Ready t k then s.sysAccept t k nonblock else s
    | .connect t k len family nonblock =>
      if s.Ready t k then s.sysConnect t k len family nonblock else s
    | .read t k size nonblock => if s.Ready t k then s.sockRead t k size nonblock else s
    | .write t k size nonblock => if s.Ready t k then s.sockWrite t k size nonblock else s
    | .close t k =>
      if s.Ready t k ∧ ∀ t', (s.pc t').sock ≠ some k then s.sockClose t k else s
    | .answer t r => s.answer t r
    | .inode t slot fd => s.gotInode t slot fd
    | .run t fd => s.runTask t fd
    | .signal t =>
      { s with
        signal := update s.signal t true
        awake := update s.awake t true }
    | .deliver t =>
      if s.pc t = .idle then { s with signal := update s.signal t false } else s
    | .reuse k c => if s.live k then s else s.reuse k c

def State.run (s : State) (ls : List Label) : State :=
  ls.foldl State.step s

end Steps

end Unix
end Elks
