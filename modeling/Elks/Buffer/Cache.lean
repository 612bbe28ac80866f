import Elks.Buffer.Head

/-!
# The buffer cache and its requests (fs/buffer.c, ll_rw_blk.c, blk.h)

The functions follow the source one by one, from `wait_on_buffer` up to
`getblk` and `bread`, and through `ll_rw_blk` and `make_request` down to the
drivers.  A driver with an interrupt only starts the transfer; `ioInterrupt`
is its other half.  The queue of a device is the list of the requests linked
through `rq_next`, its head `current_request`.

`fuel` bounds the rounds of the loops that may sleep.
-/

namespace Elks
namespace Buffer

open Lib

/-- `MAJOR`. -/
def major (dev : Nat) : Nat :=
  dev / 2 ^ 8

/-- The block a request is about; a block is two sectors. -/
def Request.block (r : Request) : Nat :=
  r.rqSector / 2

/-- `IN_ORDER`. -/
def inOrder (r₁ r₂ : Request) : Bool :=
  r₁.rqCmd.code > r₂.rqCmd.code ||
    (r₁.rqCmd.code == r₂.rqCmd.code &&
      (r₁.rqDev < r₂.rqDev ||
        (r₁.rqDev == r₂.rqDev && r₁.rqSector < r₂.rqSector)))

namespace Buffers

/-- `unlock_buffer`. -/
def unlockBuffer (bh : Bh) (s : Buffers) : Buffers :=
  (s.modHead bh fun h => { h with bLock := false }).unmapBuffer bh

/-- The queues `unlock_buffer` wakes. -/
def unlockWakes (bh : Bh) (s : Buffers) : List Wait :=
  s.unmapWakes bh ++ [.bWait bh]

/-- The transfer of a request. -/
def transfer (r : Request) (s : Buffers) : Buffers :=
  match r.rqCmd with
  | .read => s.store r.rqBuffer (s.disk r.rqDev r.block)
  | .write =>
      { s with
        disk := Function.update s.disk r.rqDev
          (Function.update (s.disk r.rqDev) r.block (s.deref r.rqBuffer)) }

/-- `end_request` on the current request of device `m`. -/
def endRequest (m : Nat) (uptodate : Bool) (s : Buffers) : Buffers :=
  match s.queue m with
  | [] => s
  | r :: rest =>
      let bh := (s.allRequests r).rqBh
      let s₁ := s.modHead bh fun h => { h with bUptodate := uptodate }
      { s₁.unlockBuffer bh with
        queue := Function.update s.queue m rest
        allRequests := Function.update s.allRequests r
          { s.allRequests r with rqDev := 2 ^ 16 - 1, rqActive := false } }

/-- The queues `end_request` wakes. -/
def endRequestWakes (m : Nat) (s : Buffers) : List Wait :=
  match s.queue m with
  | [] => []
  | r :: _ => s.unlockWakes (s.allRequests r).rqBh

/-- The interrupt of an interrupt-driven device: the current request has been
carried out, or has failed. -/
def ioInterrupt (m : Nat) (uptodate : Bool) (s : Buffers) : Buffers :=
  match s.requestFn m, s.queue m with
  | .interrupt, r :: _ =>
      if uptodate then
        (s.transfer (s.allRequests r)).endRequest m true
      else
        s.endRequest m false
  | _, _ => s

/-- The queues the interrupt wakes. -/
def ioWakes (m : Nat) (s : Buffers) : List Wait :=
  match s.requestFn m with
  | .interrupt => s.endRequestWakes m
  | _ => []

/-- The search of `get_request` among the first `n` requests, down from `req`. -/
def findRequest (s : Buffers) (n : Nat) : Nat → Nat → Option Nat
  | 0, _ => none
  | rounds + 1, req =>
      let req' := (if 0 < req then req else n) - 1
      if (s.allRequests req').rqActive then
        if req' = s.prevFound then none else s.findRequest n rounds req'
      else
        some req'

/-- `get_request`. -/
def getRequest (n dev : Nat) (s : Buffers) : Option Nat × Buffers :=
  let s₁ := if s.prevLimit = n then s else { s with prevLimit := n, prevFound := 0 }
  match s₁.findRequest n n s₁.prevFound with
  | none => (none, s₁)
  | some req =>
      (some req,
        { s₁ with
          prevFound := req
          allRequests := Function.update s₁.allRequests req
            { s₁.allRequests req with rqActive := true, rqDev := dev } })

/-- The elevator of `add_request`: where `req` goes in the queue after `tmp`. -/
def elevate (s : Buffers) (req : Nat) : Nat → List Nat → List Nat
  | tmp, [] => [tmp, req]
  | tmp, next :: rest =>
      if (inOrder (s.allRequests tmp) (s.allRequests req) ||
            !inOrder (s.allRequests tmp) (s.allRequests next)) &&
          inOrder (s.allRequests req) (s.allRequests next) then
        tmp :: req :: next :: rest
      else
        tmp :: s.elevate req next rest

/-- `add_request` up to the call of `request_fn`, which is made if the device
had nothing to do. -/
def enqueue (m req : Nat) (s : Buffers) : Bool × Buffers :=
  let s₁ := s.modHead (s.allRequests req).rqBh fun h => { h with bDirty := false }
  match s₁.queue m with
  | [] => (true, { s₁ with queue := Function.update s₁.queue m [req] })
  | tmp :: rest =>
      (false,
        { s₁ with
          queue := Function.update s₁.queue m (s₁.elevate req tmp rest) })

/-- `make_request` filling in the request. -/
def fillRequest (req : Nat) (rw : Rw) (sector : Nat) (bh : Bh) (s : Buffers) :
    Buffers :=
  { s with
    allRequests := Function.update s.allRequests req
      { s.allRequests req with
        rqCmd := rw
        rqSector := sector
        rqBuffer := (s.buffers bh).bData
        rqSeg := (s.buffers bh).bSeg
        rqBh := bh } }

/-- `find_buffer`. -/
def findBuffer (s : Buffers) (dev block : Nat) : Option Bh :=
  (List.finRange nrBuffers).find? fun bh =>
    (s.buffers bh).bBlocknr = block ∧ (s.buffers bh).bDev = dev

/-- `put_last_lru`. -/
def putLastLru (bh : Bh) (s : Buffers) : Buffers :=
  if s.lru.getLast? = some bh then s
  else { s with lru := s.lru.erase bh ++ [bh] }

/-- The test of `get_free_buffer`. -/
def free (s : Buffers) (bh : Bh) : Bool :=
  (s.buffers bh).bCount = 0 ∧ !(s.buffers bh).bDirty ∧ !(s.buffers bh).bLock ∧
    (s.buffers bh).bData = none

/-- The pass of `get_free_buffer` over the LRU list. -/
def takeFree (s : Buffers) : Option Bh × Buffers :=
  match s.lru.find? s.free with
  | some bh => (some bh, s.putLastLru bh)
  | none => (none, s)

/-- The end of `getblk`: the head becomes that of the block. -/
def tagHead (bh : Bh) (dev block : Nat) (s : Buffers) : Buffers :=
  s.modHead bh fun h =>
    { h with
      bCount := 1
      bDirty := false
      bLock := false
      bUptodate := false
      bDev := dev
      bBlocknr := block
      bSeg := s.ds }

end Buffers

/-- Change one head in one action. -/
def updHead (bh : Bh) (f : BufferHead → BufferHead) : Code Unit :=
  Prog.modify fun s => s.modHead bh f

/-- `bh->b_count++`. -/
def incCount (bh : Bh) : Code Unit :=
  updHead bh fun h => { h with bCount := wrap 16 (h.bCount + 1) }

/-- `bh->b_count--`. -/
def decCount (bh : Bh) : Code Unit :=
  updHead bh fun h => { h with bCount := wrapSub 16 h.bCount 1 }

/-- `mark_buffer_dirty(bh, 1)`. -/
def markBufferDirty (bh : Bh) : Code Unit :=
  updHead bh fun h => { h with bDirty := true }

/-- `mark_buffer_uptodate(bh, 1)`. -/
def markBufferUptodate (bh : Bh) : Code Unit :=
  updHead bh fun h => { h with bUptodate := true }

/-- `unlock_buffer`, as a step of a program. -/
def unlockBuffer (bh : Bh) : Code Unit :=
  Prog.signal (Buffers.unlockBuffer bh) (Buffers.unlockWakes bh)

/-- `end_request`, as a step of a program. -/
def endRequest (m : Nat) (uptodate : Bool) : Code Unit :=
  Prog.signal (Buffers.endRequest m uptodate) (Buffers.endRequestWakes m)

/-- The loop of `wait_on_buffer`. -/
def waitUnlocked (bh : Bh) : Nat → Code Unit
  | 0 => .fault .endless
  | n + 1 => do
      let s ← Prog.get
      if (s.buffers bh).bLock then
        Prog.sleepOn (.bWait bh)
        waitUnlocked bh n
      else
        pure ()

/-- `getblk` moving a clean and valid head it has found to the end of the LRU
list. -/
def touchLru (bh : Bh) : Code Unit := do
  let s ← Prog.get
  if !(s.buffers bh).bDirty ∧ (s.buffers bh).bUptodate then
    Prog.modify (Buffers.putLastLru bh)
  else
    pure ()

/-- The request function of a driver that does its transfers itself. -/
def polledRequest (m : Nat) : Nat → Code Unit
  | 0 => .fault .endless
  | n + 1 => do
      let s ← Prog.get
      match s.queue m with
      | [] => pure ()
      | r :: _ =>
          let req := s.allRequests r
          if major req.rqDev ≠ m then
            .fault (.panic "request list destroyed")
          else if !(s.buffers req.rqBh).bLock then
            .fault (.panic "block not locked")
          else if s.ioError req.rqDev req.block then
            endRequest m false
            polledRequest m n
          else
            Prog.modify (Buffers.transfer req)
            endRequest m true
            polledRequest m n

section Code

variable (fuel : Nat)

/-- `wait_on_buffer`. -/
def waitOnBuffer (bh : Bh) : Code Unit := do
  let s ← Prog.get
  if (s.buffers bh).bLock then
    incCount bh
    waitUnlocked bh fuel
    decCount bh
  else
    pure ()

/-- `(dev->request_fn)()`. -/
def requestFn (m : Nat) : Code Unit := do
  let s ← Prog.get
  match s.requestFn m with
  | .polled => polledRequest m fuel
  | .interrupt => pure ()
  | .absent => .fault .nullPointer

/-- `add_request`. -/
def addRequest (m req : Nat) : Code Unit := do
  let idle ← Prog.atomically (Buffers.enqueue m req)
  if idle then requestFn fuel m else pure ()

/-- `make_request` once the buffer is locked and mapped and the transfer is
known to be needed. -/
def submit (m maxReq : Nat) (rw : Rw) (sector : Nat) (bh : Bh) : Code Unit := do
  let req ← Prog.atomically fun s =>
    s.getRequest maxReq (s.buffers bh).bDev
  match req with
  | none => .fault (.panic "Can't get request.")
  | some req =>
      Prog.modify (Buffers.fillRequest req rw sector bh)
      addRequest fuel m req

/-- `make_request`. -/
def makeRequest (m : Nat) (rw : Rw) (bh : Bh) : Code Unit := do
  let s ← Prog.get
  let sector := (s.buffers bh).bBlocknr * 2
  if (s.buffers bh).bLock then
    pure ()
  else
    updHead bh fun h => { h with bLock := true }
    mapBuffer fuel bh
    let s ← Prog.get
    match rw with
    | .read =>
        if (s.buffers bh).bUptodate then
          unlockBuffer bh
        else
          submit fuel m nrRequest rw sector bh
    | .write =>
        if !(s.buffers bh).bDirty then
          unlockBuffer bh
        else
          submit fuel m (nrRequest * 2 / 3) rw sector bh

/-- `ll_rw_blk`. -/
def llRwBlk (rw : Rw) (bh : Bh) : Code Unit := do
  let s ← Prog.get
  let m := major (s.buffers bh).bDev
  if m < maxBlkdev ∧ s.requestFn m ≠ .absent then
    makeRequest fuel m rw bh
  else
    updHead bh fun h => { h with bDirty := false, bUptodate := false }

/-- The body of the loop of `sync_buffers`. -/
def syncBuffer (dev : Nat) (wait : Bool) (bh : Bh) : Code Unit := do
  let s ← Prog.get
  if dev ≠ 0 ∧ (s.buffers bh).bDev ≠ dev then
    pure ()
  else if !(s.buffers bh).bDirty then
    pure ()
  else if (s.buffers bh).bLock ∧ wait then
    pure ()
  else
    waitOnBuffer fuel bh
    incCount bh
    llRwBlk fuel .write bh
    decCount bh

/-- `sync_buffers`. -/
def syncBuffers (dev : Nat) (wait : Bool) : Code Unit :=
  Prog.seqAll ((List.finRange nrBuffers).map (syncBuffer fuel dev wait))

/-- `get_free_buffer`. -/
def getFreeBuffer : Nat → Code Bh
  | 0 => .fault .endless
  | n + 1 => do
      let found ← Prog.atomically Buffers.takeFree
      match found with
      | some bh => pure bh
      | none => do
          syncBuffers fuel 0 false
          getFreeBuffer n

/-- `get_hash_table`. -/
def getHashTable (dev block : Nat) : Nat → Code (Option Bh)
  | 0 => .fault .endless
  | n + 1 => do
      let s ← Prog.get
      match s.findBuffer dev block with
      | none => pure none
      | some bh => do
          incCount bh
          waitOnBuffer fuel bh
          let s ← Prog.get
          if (s.buffers bh).bDev = dev ∧ (s.buffers bh).bBlocknr = block then
            pure (some bh)
          else
            decCount bh
            getHashTable dev block n

/-- The loop of `getblk`: the head that is there, or `none` to create one. -/
def lookup (dev block : Nat) : Nat → Code (Option Bh)
  | 0 => .fault .endless
  | n + 1 => do
      let found ← getHashTable fuel dev block fuel
      match found with
      | some bh => do
          touchLru bh
          pure (some bh)
      | none => do
          let s ← Prog.get
          match s.findBuffer dev block with
          | none => pure none
          | some _ => lookup dev block n

/-- `getblk`. -/
def getblk (dev block : Nat) : Code Bh := do
  let found ← lookup fuel dev block fuel
  match found with
  | some bh => pure bh
  | none => do
      let bh ← getFreeBuffer fuel fuel
      Prog.modify (Buffers.tagHead bh dev block)
      pure bh

/-- `__brelse`. -/
def brelse (bh : Bh) : Code Unit := do
  waitOnBuffer fuel bh
  let s ← Prog.get
  if (s.buffers bh).bCount = 0 then
    .fault (.panic "brelse")
  else
    decCount bh

/-- `readbuf`. -/
def readbuf (bh : Bh) : Code (Option Bh) := do
  let s ← Prog.get
  if (s.buffers bh).bUptodate then
    pure (some bh)
  else
    llRwBlk fuel .read bh
    waitOnBuffer fuel bh
    let s ← Prog.get
    if (s.buffers bh).bUptodate then
      pure (some bh)
    else
      brelse fuel bh
      pure none

/-- `bread`. -/
def bread (dev block : Nat) : Code (Option Bh) := do
  let bh ← getblk fuel dev block
  readbuf fuel bh

end Code

end Buffer
end Elks
