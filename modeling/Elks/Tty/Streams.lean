import Elks.Tty.Chqueue

/-!
# The byte streams of a terminal (arch/i86/drivers/char/pty.c, ntty.c, lib/chqueue.c)

`pty_write` and `tty_write` put bytes into a queue one at a time, `pty_read` and
`tty_read` take them out one at a time, and before each byte the call may sleep.
It is woken when the queue has changed or by a signal, looks once more, and gives
up if nothing has changed.  The exits then taken do not look at how many bytes
have been moved: `pty_read`, `pty_write` and `tty_read` return `-EINTR`, and
`tty_charout_raw` goes on without the byte.

Any number of calls run on one terminal in raw mode, and its driver adds to one
queue and takes from the other.  Every queue operation is a step of its own, so
the calls may be interleaved at more points than they sleep at; a sleep that is
followed by no test, as in `ttyp_write`, is one more pause between two steps.

The result, `streams_sound`: in every run whose steps are clean no byte is lost
or repeated.
-/

namespace Elks
namespace Terminal

open Tty (ChQueue)
open Function (update update_eq_self update_of_ne update_self)

section Code

/-- The two queues of a `struct tty`. -/
inductive Line
  | inq
  | outq
deriving DecidableEq

/-- The four calls. -/
inductive Kind
  | ptyRead
  | ptyWrite
  | ttyRead
  | ttyWrite
deriving DecidableEq

/-- What a call is given: the bytes of its buffer, its length, and whether the
file is `O_NONBLOCK`. -/
structure Call where
  kind : Kind
  data : Nat → UInt8
  len : Int
  nonblock : Bool

/-- The terminal: `ECHO`, `ONLCR`, and whether its driver has an `ops->read`. -/
structure Config where
  echo : Bool
  onlcr : Bool
  opsRead : Bool

/-- Where a call is: at the head of its loop, back from the sleep in the queue
operation of its loop, in `tty_charout` before or behind the sleep of
`chq_addch`, or done. -/
inductive Pc
  | loop
  | woken
  | out (waited : Bool)
  | done (ret : Int)
deriving DecidableEq

/-- A call on its way: `pi`, the bytes stored by `pokeb`, and those that
`tty_charout` has still to hand over. -/
structure Task where
  call : Call
  pc : Pc
  pi : Nat
  stored : List UInt8
  pending : List UInt8

/-- `EINTR`. -/
def eintr : Int := 4

variable {ι : Type} [DecidableEq ι] (cfg : Config)

/-- The terminal and its calls, with every byte that was placed in a queue or
removed from one, and who did it; `none` is the driver. -/
structure State (ι : Type) where
  queue : Line → ChQueue
  task : ι → Task
  placed : Line → List (Option ι × UInt8)
  removed : Line → List (Option ι × UInt8)

namespace State

variable (s : State ι)

def setTask (i : ι) (t : Task) : State ι :=
  { s with task := update s.task i t }

/-- One byte went into a queue. -/
def place (who : Option ι) (l : Line) (c : UInt8) (q : ChQueue) : State ι :=
  { s with
    queue := update s.queue l q
    placed := update s.placed l (s.placed l ++ [(who, c)]) }

/-- One byte came out of a queue. -/
def remove (who : Option ι) (l : Line) (c : UInt8) (q : ChQueue) : State ι :=
  { s with
    queue := update s.queue l q
    removed := update s.removed l (s.removed l ++ [(who, c)]) }

/-- `chq_addch` for task `i`, which is `t` behind it, or `blocked` without room. -/
def puts (i : ι) (l : Line) (c : UInt8) (t blocked : Task) : State ι :=
  match (s.queue l).addch c with
  | some q => (s.place (some i) l c q).setTask i t
  | none => s.setTask i blocked

/-- `chq_getch` for task `i`, which goes on with the byte, or is `blocked`
without one. -/
def gets (i : ι) (l : Line) (f : UInt8 → Task) (blocked : Task) : State ι :=
  match (s.queue l).getch with
  | some (c, q) => (s.remove (some i) l c q).setTask i (f c)
  | none => s.setTask i blocked

end State

namespace Task

variable (t : Task)

/-- The third argument of the queue operation. -/
def wait : Bool :=
  match t.call.kind with
  | .ttyRead => !t.call.nonblock && !cfg.opsRead
  | _ => !t.call.nonblock

/-- The queue operation of the loop returned -1: the call is interrupted or, if it
does not wait, comes to its end. -/
def refused : Task :=
  if t.wait cfg then { t with pc := .done (-eintr) } else { t with pc := .done t.pi }

/-- The queue operation of the loop finds the queue full or empty. -/
def blocked : Task :=
  if t.pc = .loop ∧ t.wait cfg = true then { t with pc := .woken } else t.refused cfg

/-- The bytes `tty_charout` makes of one, in raw mode. -/
def cook (c : UInt8) : List UInt8 :=
  if c = 10 ∧ cfg.onlcr = true then [13, c] else [c]

/-- A byte that was read.  `chq_getch` returns it as a `char` with a sign, so 255
is -1. -/
def took (c : UInt8) : Task :=
  if c = 255 then t.refused cfg
  else
    match t.call.kind with
    | .ttyRead =>
        { t with
          pc := .out false
          pi := t.pi + 1
          stored := t.stored ++ [c]
          pending := if cfg.echo then cook cfg c else [] }
    | _ => { t with pc := .loop, pi := t.pi + 1, stored := t.stored ++ [c] }

end Task

namespace State

variable (s : State ι)

/-- The rounds of `tty_charout_raw`, and the end of the round of the caller. -/
def charout (i : ι) (t : Task) (waited : Bool) : State ι :=
  match t.pending with
  | c :: rest =>
      s.puts i .outq c { t with pc := .out false, pending := rest }
        (if waited then { t with pc := .out false, pending := rest }
          else { t with pc := .out true })
  | [] =>
      match t.call.kind with
      | .ttyWrite => s.setTask i { t with pc := .loop, pi := t.pi + 1 }
      | _ =>
          s.setTask i (if (t.pi : Int) < t.call.len then { t with pc := .loop }
            else { t with pc := .done t.pi })

/-- The round of the loop of a call. -/
def round (i : ι) (t : Task) : State ι :=
  match t.call.kind with
  | .ptyRead =>
      if (t.pi : Int) < t.call.len then s.gets i .outq (t.took cfg) (t.blocked cfg)
      else s.setTask i { t with pc := .done t.pi }
  | .ptyWrite =>
      if (t.pi : Int) < t.call.len then
        s.puts i .inq (t.call.data t.pi) { t with pc := .loop, pi := t.pi + 1 } (t.blocked cfg)
      else s.setTask i { t with pc := .done t.pi }
  | .ttyRead =>
      if t.call.len ≠ 0 then s.gets i .inq (t.took cfg) (t.blocked cfg)
      else s.setTask i { t with pc := .done t.pi }
  | .ttyWrite =>
      if (t.pi : Int) < t.call.len then
        s.setTask i { t with pc := .out false, pending := Task.cook cfg (t.call.data t.pi) }
      else s.setTask i { t with pc := .done t.pi }

/-- A call goes one step.  Back from its sleep it finds the test of its loop as it
was. -/
def run (i : ι) : State ι :=
  match (s.task i).pc with
  | .done _ => s
  | .out waited => s.charout i (s.task i) waited
  | _ => s.round cfg i (s.task i)

end State

/-- What happens next: a call goes on, or the driver adds or takes a byte. -/
inductive Act (ι : Type)
  | call (i : ι)
  | feed (c : UInt8)
  | drain

/-- One step. -/
def State.step (s : State ι) : Act ι → State ι
  | .call i => s.run cfg i
  | .feed c =>
      match (s.queue .inq).addch c with
      | some q => s.place none .inq c q
      | none => s
  | .drain =>
      match (s.queue .outq).getch with
      | some (c, q) => s.remove none .outq c q
      | none => s

end Code

section Property

variable {ι : Type} [DecidableEq ι] (cfg : Config)

/-- The queue that the loop of a call works on. -/
def Kind.line : Kind → Line
  | .ptyRead => .outq
  | .ptyWrite => .inq
  | .ttyRead => .inq
  | .ttyWrite => .outq

/-- The calls that read. -/
def Kind.reads : Kind → Bool
  | .ptyRead => true
  | .ttyRead => true
  | _ => false

/-- What a write of the first `n` bytes places in its queue. -/
def Call.output (c : Call) (n : Nat) : List UInt8 :=
  match c.kind with
  | .ttyWrite => (List.range n).flatMap fun k => Task.cook cfg (c.data k)
  | _ => (List.range n).map c.data

/-- The bytes that an actor did something with. -/
def bytesOf (who : Option ι) (log : List (Option ι × UInt8)) : List UInt8 :=
  (log.filter fun e => e.1 = who).map Prod.snd

/-- The bytes that call `i` placed in a queue. -/
def State.putBy (s : State ι) (i : ι) (l : Line) : List UInt8 :=
  bytesOf (some i) (s.placed l)

/-- The bytes that call `i` removed from a queue. -/
def State.gotBy (s : State ι) (i : ι) (l : Line) : List UInt8 :=
  bytesOf (some i) (s.removed l)

/-- No byte is lost or repeated: the queues keep the order, a write that returns
a count placed exactly the bytes it counts, a read that returns a count removed
exactly the bytes it stored and counts, and a call that returns an error moved
nothing. -/
structure Sound (s : State ι) : Prop where
  fifo : ∀ l, (s.placed l).map Prod.snd =
    (s.removed l).map Prod.snd ++ (s.queue l).contents
  written : ∀ i r, (s.task i).call.kind.reads = false → (s.task i).pc = .done r → 0 ≤ r →
    s.putBy i (s.task i).call.kind.line = (s.task i).call.output cfg r.toNat
  read : ∀ i r, (s.task i).call.kind.reads = true → (s.task i).pc = .done r → 0 ≤ r →
    s.gotBy i (s.task i).call.kind.line = (s.task i).stored ∧
      ((s.task i).stored.length : Int) = r
  failed : ∀ i r, (s.task i).pc = .done r → r < 0 → ∀ l, s.putBy i l = [] ∧ s.gotBy i l = []

/-- The queue operation of the loop of a call would return -1. -/
def State.Stuck (s : State ι) (i : ι) : Prop :=
  if (s.task i).call.kind.reads then (s.queue (s.task i).call.kind.line).len = 0
  else (s.queue (s.task i).call.kind.line).full = true

/-- A call is about to go round its loop. -/
def Task.Goes (t : Task) : Prop :=
  (t.pc = .loop ∨ t.pc = .woken) ∧
    if t.call.kind = .ttyRead then t.call.len ≠ 0 else (t.pi : Int) < t.call.len

/-- A step of a call is clean: if its sleep brought nothing it has moved no byte
yet, a byte of `tty_write` finds room behind the sleep, and a byte that is read
is not 255. -/
structure Clean (s : State ι) (i : ι) : Prop where
  unmoved : (s.task i).pc = .woken → s.Stuck i → (s.task i).pi = 0
  room : (s.task i).pc = .out true → (s.task i).call.kind = .ttyWrite →
    (s.task i).pending ≠ [] → (s.queue .outq).full = false
  plain : (s.task i).call.kind.reads = true → (s.task i).Goes →
    (s.queue (s.task i).call.kind.line).len ≠ 0 →
      (s.queue (s.task i).call.kind.line).contents.head? ≠ some 255

/-- Steps of the driver are clean. -/
def State.CleanAct (s : State ι) : Act ι → Prop
  | .call i => Clean s i
  | _ => True

/-- No call has begun, and what is in the queues came from the driver. -/
structure State.Starts (s : State ι) : Prop where
  queues : ∀ l, (s.queue l).Ok
  placed : ∀ l, s.placed l = (s.queue l).contents.map fun c => (none, c)
  removed : ∀ l, s.removed l = []
  fresh : ∀ i, (s.task i).pc = .loop ∧ (s.task i).pi = 0 ∧ (s.task i).stored = [] ∧
    (s.task i).pending = []

/-- The states that a run of clean steps comes to. -/
inductive Reached (s₀ : State ι) : State ι → Prop
  | start : Reached s₀ s₀
  | step (s : State ι) (a : Act ι) :
      Reached s₀ s →
      s.CleanAct a →
      Reached s₀ (s.step cfg a)

end Property

section Invariant

variable {ι : Type} [DecidableEq ι] {cfg : Config}

/-- A call is in `tty_charout`. -/
def Pc.inOut : Pc → Bool
  | .out _ => true
  | _ => false

/-- What a call in progress has placed and removed. -/
structure Task.Ok (cfg : Config) (t : Task) (put got : Line → List UInt8) : Prop where
  returned : ∀ r, t.pc = .done r → r = t.pi ∨ r = -eintr ∧ t.pi = 0
  inOut : t.pc.inOut = true →
    t.call.kind = .ttyWrite ∨ t.call.kind = .ttyRead ∧ t.pi ≠ 0
  wrote : t.call.kind.reads = false →
    put t.call.kind.line ++ (if t.pc.inOut then t.pending else []) =
      t.call.output cfg (if t.pc.inOut then t.pi + 1 else t.pi)
  wroteOther : t.call.kind.reads = false → ∀ l, l ≠ t.call.kind.line → put l = []
  quiet : t.call.kind.reads = true → t.pi = 0 → ∀ l, put l = []
  read : t.call.kind.reads = true →
    got t.call.kind.line = t.stored ∧ t.stored.length = t.pi
  readOther : ∀ l, t.call.kind.reads = false ∨ l ≠ t.call.kind.line → got l = []

/-- What every state keeps. -/
structure Inv (cfg : Config) (s : State ι) : Prop where
  queues : ∀ l, (s.queue l).Ok
  fifo : ∀ l, (s.placed l).map Prod.snd =
    (s.removed l).map Prod.snd ++ (s.queue l).contents
  tasks : ∀ i, (s.task i).Ok cfg (s.putBy i) (s.gotBy i)

/-- One more byte in the log of a queue is one more byte of the actor there. -/
theorem bytesOf_logged (who w : Option ι) (log : Line → List (Option ι × UInt8)) (l : Line)
    (c : UInt8) :
    (fun m => bytesOf who (update log l (log l ++ [(w, c)]) m)) =
      update (fun m => bytesOf who (log m)) l
        (bytesOf who (log l) ++ if w = who then [c] else []) := by
  funext m
  by_cases hm : m = l
  · subst hm
    rw [update_self, update_self]
    unfold bytesOf
    rw [List.filter_append, List.map_append]
    by_cases h : w = who
    · simp [h]
    · simp [h]
  · rw [update_of_ne hm, update_of_ne hm]

section Moves

variable {s : State ι} {i : ι} {l : Line} {c : UInt8} {q : ChQueue} {t b : Task}

theorem Inv.setTask (h : Inv cfg s) (ht : t.Ok cfg (s.putBy i) (s.gotBy i)) :
    Inv cfg (s.setTask i t) := by
  refine ⟨h.queues, h.fifo, fun j => ?_⟩
  by_cases hj : j = i
  · subst hj
    change Task.Ok cfg (update s.task j t j) _ _
    rw [update_self]
    exact ht
  · change Task.Ok cfg (update s.task i t j) _ _
    rw [update_of_ne hj]
    exact h.tasks j

theorem putBy_place (who : Option ι) (j : ι) :
    (s.place who l c q).putBy j =
      update (s.putBy j) l (s.putBy j l ++ if who = some j then [c] else []) :=
  bytesOf_logged (some j) who s.placed l c

theorem gotBy_remove (who : Option ι) (j : ι) :
    (s.remove who l c q).gotBy j =
      update (s.gotBy j) l (s.gotBy j l ++ if who = some j then [c] else []) :=
  bytesOf_logged (some j) who s.removed l c

theorem Inv.place (h : Inv cfg s) (hadd : (s.queue l).addch c = some q) {who : Option ι}
    {task' : ι → Task} (hother : ∀ j, who ≠ some j → task' j = s.task j)
    (hown : ∀ j, who = some j → (task' j).Ok cfg
      (update (s.putBy j) l (s.putBy j l ++ [c])) (s.gotBy j)) :
    Inv cfg { s.place who l c q with task := task' } := by
  obtain ⟨hq, hcontents⟩ := (h.queues l).addch hadd
  refine ⟨?_, fun m => ?_, fun j => ?_⟩
  · exact (Function.forall_update_iff s.queue fun _ q => q.Ok).mpr ⟨hq, fun m _ => h.queues m⟩
  · change (update s.placed l _ m).map Prod.snd =
      (s.removed m).map Prod.snd ++ (update s.queue l q m).contents
    by_cases hm : m = l
    · rw [hm, update_self, update_self, List.map_append, h.fifo l, hcontents]
      simp
    · rw [update_of_ne hm, update_of_ne hm]
      exact h.fifo m
  · change (task' j).Ok cfg ((s.place who l c q).putBy j) (s.gotBy j)
    rw [putBy_place]
    by_cases hj : who = some j
    · rw [if_pos hj]
      exact hown j hj
    · rw [if_neg hj, List.append_nil, update_eq_self, hother j hj]
      exact h.tasks j

theorem Inv.remove (h : Inv cfg s) (hget : (s.queue l).getch = some (c, q)) {who : Option ι}
    {task' : ι → Task} (hother : ∀ j, who ≠ some j → task' j = s.task j)
    (hown : ∀ j, who = some j → (task' j).Ok cfg (s.putBy j)
      (update (s.gotBy j) l (s.gotBy j l ++ [c]))) :
    Inv cfg { s.remove who l c q with task := task' } := by
  obtain ⟨hq, hcontents⟩ := (h.queues l).getch hget
  refine ⟨?_, fun m => ?_, fun j => ?_⟩
  · exact (Function.forall_update_iff s.queue fun _ q => q.Ok).mpr ⟨hq, fun m _ => h.queues m⟩
  · change (s.placed m).map Prod.snd =
      (update s.removed l _ m).map Prod.snd ++ (update s.queue l q m).contents
    by_cases hm : m = l
    · rw [hm, update_self, update_self, List.map_append, h.fifo l, hcontents]
      simp
    · rw [update_of_ne hm, update_of_ne hm]
      exact h.fifo m
  · change (task' j).Ok cfg (s.putBy j) ((s.remove who l c q).gotBy j)
    rw [gotBy_remove]
    by_cases hj : who = some j
    · rw [if_pos hj]
      exact hown j hj
    · rw [if_neg hj, List.append_nil, update_eq_self, hother j hj]
      exact h.tasks j

/-- `chq_addch` keeps what every state keeps, if what the call is behind it
accounts for the byte. -/
theorem Inv.puts (h : Inv cfg s)
    (hput : (s.queue l).full = false →
      t.Ok cfg (update (s.putBy i) l (s.putBy i l ++ [c])) (s.gotBy i))
    (hblocked : (s.queue l).full = true → b.Ok cfg (s.putBy i) (s.gotBy i)) :
    Inv cfg (s.puts i l c t b) := by
  unfold State.puts
  cases hadd : (s.queue l).addch c with
  | none =>
      exact h.setTask (hblocked (ChQueue.addch_eq_none.mp hadd))
  | some q =>
      have hroom : (s.queue l).full = false := by
        by_contra hfull
        rw [Bool.not_eq_false] at hfull
        rw [ChQueue.addch_eq_none.mpr hfull] at hadd
        cases hadd
      refine h.place hadd (fun j hj => ?_) (fun j hj => ?_)
      · exact update_of_ne (fun he => hj (by rw [he])) _ _
      · obtain rfl := Option.some.inj hj
        rw [update_self]
        exact hput hroom

/-- `chq_getch` keeps what every state keeps, if what the call is with the byte
accounts for it. -/
theorem Inv.gets {f : UInt8 → Task} (h : Inv cfg s)
    (hget : ∀ c, (s.queue l).contents.head? = some c →
      (f c).Ok cfg (s.putBy i) (update (s.gotBy i) l (s.gotBy i l ++ [c])))
    (hblocked : (s.queue l).len = 0 → b.Ok cfg (s.putBy i) (s.gotBy i)) :
    Inv cfg (s.gets i l f b) := by
  unfold State.gets
  cases hch : (s.queue l).getch with
  | none =>
      exact h.setTask (hblocked (ChQueue.getch_eq_none.mp hch))
  | some cq =>
      obtain ⟨c, q⟩ := cq
      have hhead : (s.queue l).contents.head? = some c := by
        rw [((h.queues l).getch hch).2]
        rfl
      refine h.remove hch (fun j hj => ?_) (fun j hj => ?_)
      · exact update_of_ne (fun he => hj (by rw [he])) _ _
      · obtain rfl := Option.some.inj hj
        rw [update_self]
        exact hget c hhead

end Moves

section Tasks

variable {t : Task} {put got : Line → List UInt8}

namespace Task.Ok

/-- Outside `tty_charout` a call may go to another place of its loop, and may
return its count, or an error while it has moved nothing. -/
theorem setPc (h : t.Ok cfg put got) (hout : t.pc.inOut = false) {pc : Pc} (hpc : pc.inOut = false)
    (hret : ∀ r, pc = .done r → r = t.pi ∨ r = -eintr ∧ t.pi = 0) :
    Task.Ok cfg { t with pc := pc } put got where
  returned := hret
  inOut := fun hin => absurd hin (by simp [hpc])
  wrote := fun hw => by
    have hwrote := h.wrote hw
    simp only [hout, hpc] at hwrote ⊢
    exact hwrote
  wroteOther := h.wroteOther
  quiet := h.quiet
  read := h.read
  readOther := h.readOther

theorem finish (h : t.Ok cfg put got) (hout : t.pc.inOut = false) :
    Task.Ok cfg { t with pc := .done t.pi } put got :=
  h.setPc hout rfl fun _ hr => Or.inl (Pc.done.inj hr).symm

theorem refused (h : t.Ok cfg put got) (hout : t.pc.inOut = false)
    (h0 : t.wait cfg = true → t.pi = 0) : (t.refused cfg).Ok cfg put got := by
  unfold Task.refused
  split
  · rename_i hwait
    exact h.setPc hout rfl fun _ hr => Or.inr ⟨(Pc.done.inj hr).symm, h0 hwait⟩
  · exact h.finish hout

theorem blocked (h : t.Ok cfg put got) (hout : t.pc.inOut = false) (h0 : t.pc = .woken → t.pi = 0)
    (hpc : t.pc = .loop ∨ t.pc = .woken) : (t.blocked cfg).Ok cfg put got := by
  unfold Task.blocked
  split
  · exact h.setPc hout rfl fun _ hr => absurd hr (by simp)
  · rename_i hnot
    refine h.refused hout fun hwait => ?_
    rcases hpc with hloop | hwoken
    · exact absurd ⟨hloop, hwait⟩ hnot
    · exact h0 hwoken

theorem ptyWrite (h : t.Ok cfg put got) (hkind : t.call.kind = .ptyWrite)
    (hout : t.pc.inOut = false) :
    Task.Ok cfg { t with pc := .loop, pi := t.pi + 1 }
      (update put .inq (put .inq ++ [t.call.data t.pi])) got := by
  have hw : t.call.kind.reads = false := by rw [hkind]; rfl
  have hwrote := h.wrote hw
  refine ⟨fun r hr => absurd hr (by simp), fun hin => absurd hin (by simp [Pc.inOut]), ?_, ?_,
    fun hr => absurd hr (by simp [hw]), fun hr => absurd hr (by simp [hw]), h.readOther⟩
  · intro _
    simp only [hout, hkind, Kind.line, Call.output] at hwrote
    simp only [Pc.inOut, hkind, Kind.line, Call.output, update_self]
    simp at hwrote ⊢
    rw [hwrote, List.range_succ, List.map_append]
    rfl
  · intro _ l hl
    dsimp only at hl
    rw [hkind] at hl
    change l ≠ .inq at hl
    rw [update_of_ne hl]
    exact h.wroteOther hw l (by rw [hkind]; exact hl)

theorem took (h : t.Ok cfg put got) (hreads : t.call.kind.reads = true) {c : UInt8} (hc : c ≠ 255) :
    (t.took cfg c).Ok cfg put
      (update got t.call.kind.line (got t.call.kind.line ++ [c])) := by
  obtain ⟨hgot, hlen⟩ := h.read hreads
  have hread : update got t.call.kind.line (got t.call.kind.line ++ [c])
      t.call.kind.line = t.stored ++ [c] ∧ (t.stored ++ [c]).length = t.pi + 1 := by
    rw [update_self, hgot]
    simp [hlen]
  have hother : ∀ l, t.call.kind.reads = false ∨ l ≠ t.call.kind.line →
      update got t.call.kind.line (got t.call.kind.line ++ [c]) l = [] := by
    intro l hl
    have hne : l ≠ t.call.kind.line := hl.resolve_left (by simp [hreads])
    rw [update_of_ne hne]
    exact h.readOther l (Or.inr hne)
  unfold Task.took
  rw [if_neg hc]
  split
  · rename_i hkind
    exact ⟨fun r hr => absurd hr (by simp), fun _ => Or.inr ⟨hkind, Nat.succ_ne_zero _⟩,
      fun hw => absurd hw (by simp [hreads]), fun hw => absurd hw (by simp [hreads]),
      fun _ h0 => absurd h0 (Nat.succ_ne_zero _), fun _ => hread, hother⟩
  · exact ⟨fun r hr => absurd hr (by simp), fun hin => absurd hin (by simp [Pc.inOut]),
      fun hw => absurd hw (by simp [hreads]), fun hw => absurd hw (by simp [hreads]),
      fun _ h0 => absurd h0 (Nat.succ_ne_zero _), fun _ => hread, hother⟩

theorem ttyWrite (h : t.Ok cfg put got) (hkind : t.call.kind = .ttyWrite)
    (hout : t.pc.inOut = false) :
    Task.Ok cfg { t with pc := .out false, pending := Task.cook cfg (t.call.data t.pi) }
      put got := by
  have hw : t.call.kind.reads = false := by rw [hkind]; rfl
  have hwrote := h.wrote hw
  refine ⟨fun r hr => absurd hr (by simp), fun _ => Or.inl hkind, ?_, h.wroteOther, h.quiet,
    h.read, h.readOther⟩
  intro _
  simp only [hout, hkind, Kind.line, Call.output] at hwrote
  simp only [Pc.inOut, hkind, Kind.line, Call.output]
  simp at hwrote ⊢
  rw [hwrote, List.range_succ, List.flatMap_append]
  simp

variable {c : UInt8} {rest : List UInt8} {w : Bool}

theorem charout (h : t.Ok cfg put got) (hout : t.pc.inOut = true)
    (hpending : t.pending = c :: rest) :
    Task.Ok cfg { t with pc := .out false, pending := rest }
      (update put .outq (put .outq ++ [c])) got := by
  have hkind : t.call.kind.reads = false → t.call.kind = .ttyWrite := by
    intro hw
    rcases h.inOut hout with hk | ⟨hk, -⟩
    · exact hk
    · rw [hk] at hw
      cases hw
  refine ⟨fun r hr => absurd hr (by simp), fun _ => h.inOut hout, ?_, ?_, ?_, h.read, h.readOther⟩
  · intro hw
    have hwrote := h.wrote hw
    simp only [hout, hkind hw, Kind.line, hpending, if_true] at hwrote
    simp only [Pc.inOut, hkind hw, Kind.line, update_self, if_true]
    rw [← hwrote, List.append_assoc]
    rfl
  · intro hw l hl
    dsimp only at hl
    rw [hkind hw] at hl
    change l ≠ .outq at hl
    rw [update_of_ne hl]
    exact h.wroteOther hw l (by rw [hkind hw]; exact hl)
  · intro hr h0
    rcases h.inOut hout with hk | ⟨-, hne⟩
    · dsimp only at hr
      rw [hk] at hr
      cases hr
    · exact absurd h0 hne

theorem sleeps (h : t.Ok cfg put got) (hout : t.pc.inOut = true) :
    Task.Ok cfg { t with pc := .out true } put got := by
  refine ⟨fun r hr => absurd hr (by simp), fun _ => h.inOut hout, ?_, h.wroteOther, h.quiet,
    h.read, h.readOther⟩
  intro hw
  have hwrote := h.wrote hw
  simp only [hout] at hwrote
  exact hwrote

theorem drops (h : t.Ok cfg put got) (hout : t.pc.inOut = true) (hkind : t.call.kind ≠ .ttyWrite) :
    Task.Ok cfg { t with pc := .out false, pending := rest } put got := by
  refine ⟨fun r hr => absurd hr (by simp), fun _ => h.inOut hout, ?_, h.wroteOther, h.quiet,
    h.read, h.readOther⟩
  intro hw
  rcases h.inOut hout with hk | ⟨hk, -⟩
  · exact absurd hk hkind
  · dsimp only at hw
    rw [hk] at hw
    cases hw

theorem counts (h : t.Ok cfg put got) (hout : t.pc.inOut = true) (hkind : t.call.kind = .ttyWrite)
    (hpending : t.pending = []) : Task.Ok cfg { t with pc := .loop, pi := t.pi + 1 } put got := by
  have hw : t.call.kind.reads = false := by rw [hkind]; rfl
  have hwrote := h.wrote hw
  refine ⟨fun r hr => absurd hr (by simp), fun hin => absurd hin (by simp [Pc.inOut]), ?_,
    h.wroteOther, fun hr => absurd hr (by simp [hw]), fun hr => absurd hr (by simp [hw]),
    h.readOther⟩
  intro _
  simp only [hout, hpending, if_true] at hwrote
  simp only [Pc.inOut]
  exact hwrote

theorem echoed (h : t.Ok cfg put got) (hout : t.pc.inOut = true) (hkind : t.call.kind ≠ .ttyWrite)
    {pc : Pc} (hpc : pc = .loop ∨ pc = .done t.pi) : Task.Ok cfg { t with pc := pc } put got := by
  have hreads : t.call.kind.reads = true := by
    rcases h.inOut hout with hk | ⟨hk, -⟩
    · exact absurd hk hkind
    · rw [hk]
      rfl
  refine ⟨?_, ?_, fun hw => absurd hw (by simp [hreads]), h.wroteOther, h.quiet, h.read,
    h.readOther⟩
  · rintro r hr
    rcases hpc with rfl | rfl
    · cases hr
    · exact Or.inl (Pc.done.inj hr).symm
  · intro hin
    rcases hpc with rfl | rfl <;> cases hin

end Task.Ok

end Tasks

section Runs

variable {s : State ι} {i : ι}

theorem Inv.round (h : Inv cfg s) (hclean : Clean s i)
    (hpc : (s.task i).pc = .loop ∨ (s.task i).pc = .woken) :
    Inv cfg (s.round cfg i (s.task i)) := by
  have ht := h.tasks i
  have hout : (s.task i).pc.inOut = false := by
    rcases hpc with hp | hp <;> rw [hp] <;> rfl
  have hblocked : s.Stuck i → ((s.task i).blocked cfg).Ok cfg (s.putBy i) (s.gotBy i) :=
    fun hstuck => ht.blocked hout (fun hw => hclean.unmoved hw hstuck) hpc
  have htook : ∀ (hr : (s.task i).call.kind.reads = true), (s.task i).Goes →
      Inv cfg (s.gets i (s.task i).call.kind.line ((s.task i).took cfg)
        ((s.task i).blocked cfg)) := by
    intro hr hgoes
    refine h.gets (fun c hc => ht.took hr ?_) fun h0 => hblocked (by
      unfold State.Stuck
      rw [if_pos hr]
      exact h0)
    rintro rfl
    refine hclean.plain hr hgoes ?_ hc
    intro h0
    unfold ChQueue.contents at hc
    rw [Lib.queued_eq_nil.mpr h0] at hc
    cases hc
  unfold State.round
  cases hkind : (s.task i).call.kind with
  | ptyRead =>
      dsimp only
      rw [hkind] at htook
      split
      · rename_i hlt
        exact htook rfl ⟨hpc, by rw [hkind]; exact hlt⟩
      · exact h.setTask (ht.finish hout)
  | ptyWrite =>
      dsimp only
      split
      · refine h.puts (fun _ => ht.ptyWrite hkind hout) fun hfull => hblocked ?_
        unfold State.Stuck
        rw [hkind]
        exact hfull
      · exact h.setTask (ht.finish hout)
  | ttyRead =>
      dsimp only
      rw [hkind] at htook
      split
      · rename_i hne
        exact htook rfl ⟨hpc, by rw [hkind]; exact hne⟩
      · exact h.setTask (ht.finish hout)
  | ttyWrite =>
      dsimp only
      split
      · exact h.setTask (ht.ttyWrite hkind hout)
      · exact h.setTask (ht.finish hout)

theorem Inv.charout (h : Inv cfg s) (hclean : Clean s i) {waited : Bool}
    (hpc : (s.task i).pc = .out waited) : Inv cfg (s.charout i (s.task i) waited) := by
  have ht := h.tasks i
  have hout : (s.task i).pc.inOut = true := by
    rw [hpc]
    rfl
  unfold State.charout
  split
  · rename_i c rest hpending
    refine h.puts (fun _ => ht.charout hout hpending) fun hfull => ?_
    cases waited with
    | false => exact ht.sleeps hout
    | true =>
        refine ht.drops hout fun hkind => ?_
        have hroom := hclean.room hpc hkind (by rw [hpending]; simp)
        rw [hfull] at hroom
        cases hroom
  · rename_i hpending
    split
    · rename_i hkind
      exact h.setTask (ht.counts hout hkind hpending)
    · rename_i hkind
      refine h.setTask ?_
      split
      · exact ht.echoed hout hkind (Or.inl rfl)
      · exact ht.echoed hout hkind (Or.inr rfl)

theorem Inv.step (h : Inv cfg s) {a : Act ι} (hclean : s.CleanAct a) : Inv cfg (s.step cfg a) := by
  cases a with
  | call i =>
      change Inv cfg (s.run cfg i)
      unfold State.run
      cases hpc : (s.task i).pc with
      | done r => exact h
      | out w => exact h.charout hclean hpc
      | loop => exact h.round hclean (Or.inl hpc)
      | woken => exact h.round hclean (Or.inr hpc)
  | feed c =>
      unfold State.step
      dsimp only
      split
      · rename_i q hadd
        have hplaced : Inv cfg { s.place none .inq c q with task := s.task } :=
          h.place hadd (fun _ _ => rfl) fun j hj => by cases hj
        exact hplaced
      · exact h
  | drain =>
      unfold State.step
      dsimp only
      split
      · rename_i c q hget
        have hremoved : Inv cfg { s.remove none .outq c q with task := s.task } :=
          h.remove hget (fun _ _ => rfl) fun j hj => by cases hj
        exact hremoved
      · exact h

theorem State.Starts.inv (h : s.Starts) : Inv cfg s := by
  have hput : ∀ j l, s.putBy j l = [] := by
    intro j l
    unfold State.putBy bytesOf
    rw [h.placed l]
    simp [List.filter_map]
  have hgot : ∀ j l, s.gotBy j l = [] := by
    intro j l
    unfold State.gotBy
    rw [h.removed l]
    rfl
  refine ⟨h.queues, fun l => ?_, fun j => ?_⟩
  · rw [h.placed l, h.removed l, List.map_map]
    simp
  · obtain ⟨hpc, hpi, hstored, -⟩ := h.fresh j
    refine ⟨fun r hr => ?_, fun hin => ?_, fun _ => ?_, fun _ l _ => hput j l,
      fun _ _ l => hput j l, fun _ => ?_, fun l _ => hgot j l⟩
    · rw [hpc] at hr
      cases hr
    · rw [hpc] at hin
      cases hin
    · rw [hput, hpc, hpi]
      unfold Call.output
      cases (s.task j).call.kind <;> rfl
    · rw [hgot, hstored, hpi]
      exact ⟨rfl, rfl⟩

theorem Reached.inv {s₀ : State ι} (hstart : s₀.Starts) (h : Reached cfg s₀ s) : Inv cfg s := by
  induction h with
  | start => exact hstart.inv
  | step s a _ hclean ih => exact ih.step hclean

/-- What every state keeps says that no byte is lost or repeated. -/
theorem Inv.sound (h : Inv cfg s) : Sound cfg s := by
  refine ⟨h.fifo, fun i r hw hr h0 => ?_, fun i r hread hr h0 => ?_, fun i r hr h0 => ?_⟩
  · have ht := h.tasks i
    have hwrote := ht.wrote hw
    rw [hr] at hwrote
    simp only [Pc.inOut] at hwrote
    rcases ht.returned r hr with rfl | ⟨rfl, -⟩
    · simpa using hwrote
    · exact absurd h0 (by decide)
  · have ht := h.tasks i
    obtain ⟨hgot, hlen⟩ := ht.read hread
    rcases ht.returned r hr with rfl | ⟨rfl, -⟩
    · exact ⟨hgot, by rw [hlen]⟩
    · exact absurd h0 (by decide)
  · have ht := h.tasks i
    rcases ht.returned r hr with rfl | ⟨-, hpi⟩
    · omega
    · intro l
      by_cases hread : (s.task i).call.kind.reads = true
      · obtain ⟨hgot, hlen⟩ := ht.read hread
        refine ⟨ht.quiet hread hpi l, ?_⟩
        by_cases hl : l = (s.task i).call.kind.line
        · rw [hl, hgot]
          exact List.eq_nil_of_length_eq_zero (hlen.trans hpi)
        · exact ht.readOther l (Or.inr hl)
      · have hw : (s.task i).call.kind.reads = false := by simpa using hread
        refine ⟨?_, ht.readOther l (Or.inl hw)⟩
        by_cases hl : l = (s.task i).call.kind.line
        · have hwrote := ht.wrote hw
          have hnone : (s.task i).call.output cfg 0 = [] := by
            unfold Call.output
            split <;> rfl
          rw [hr, hpi] at hwrote
          simp only [Pc.inOut] at hwrote
          rw [hl]
          simpa [hnone] using hwrote
        · exact ht.wroteOther hw l hl

end Runs

end Invariant

section Streams

variable {ι : Type} [DecidableEq ι]

/-- In a run of clean steps no byte of a terminal is lost or repeated, whatever
calls there are and however they are interleaved. -/
theorem streams_sound
    (cfg : Config) (s₀ s : State ι)
    (hstart : s₀.Starts)
    (h : Reached cfg s₀ s) :
    Sound cfg s :=
  (h.inv hstart).sound

/-- The state after a run. -/
def State.runAll (cfg : Config) (s : State ι) (acts : List (Act ι)) : State ι :=
  acts.foldl (State.step cfg) s

/-- A terminal that does not echo. -/
def rawTty : Config where
  echo := false
  onlcr := false
  opsRead := false

/-- One byte is queued for the master of a pty, which reads `len` bytes. -/
def ptyReader (len : Int) : State Unit where
  queue
    | .inq => { buf := fun _ => 0, size := 512, tail := 0, len := 0 }
    | .outq => { buf := fun _ => 65, size := 64, tail := 0, len := 1 }
  task := fun _ => {
    call := { kind := .ptyRead, data := fun _ => 0, len := len, nonblock := false }
    pc := .loop
    pi := 0
    stored := []
    pending := [] }
  placed
    | .inq => []
    | .outq => [(none, 65)]
  removed := fun _ => []

theorem ptyReader_starts (len : Int) : (ptyReader len).Starts := by
  refine ⟨fun l => ?_, fun l => ?_, fun l => rfl, fun i => ⟨rfl, rfl, rfl, rfl⟩⟩
  · cases l with
    | inq => exact ⟨⟨9, rfl⟩, Nat.succ_pos 511, Nat.zero_le 512⟩
    | outq => exact ⟨⟨6, rfl⟩, Nat.succ_pos 63, Nat.succ_le_succ (Nat.zero_le 63)⟩
  · cases l <;> rfl

/-- A read of the byte that is there. -/
theorem streams_sound_read :
    Sound rawTty ((ptyReader 1).runAll rawTty [.call (), .call ()]) := by
  refine streams_sound rawTty (ptyReader 1) _ (ptyReader_starts 1) ?_
  refine Reached.step _ (.call ()) (Reached.step _ (.call ()) Reached.start ?_) ?_
  · exact ⟨fun h => absurd h (by decide), fun h => absurd h (by decide), fun _ _ _ => by decide⟩
  · exact ⟨fun h => absurd h (by decide), fun h => absurd h (by decide),
      fun _ hgoes => absurd hgoes.2 (by decide)⟩

/-- A read of two bytes takes the one that is there, sleeps, and is interrupted by
a signal: it returns an error, and the byte is gone. -/
theorem streams_lost_read :
    (ptyReader 2).Starts ∧
      ¬ Sound rawTty ((ptyReader 2).runAll rawTty [.call (), .call (), .call ()]) := by
  refine ⟨ptyReader_starts 2, fun h => ?_⟩
  have hgot := (h.failed () (-4) (by rfl) (by decide) .outq).2
  exact absurd hgot (by decide)

end Streams

end Terminal
end Elks
