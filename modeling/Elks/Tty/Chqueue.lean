import Elks.Lib.Fifo

/-!
# Character queues (lib/chqueue.c)

A queue of `size` bytes with the position `tail` of its oldest byte.  `chq_addch` and
`chq_getch` may sleep before they look at the queue; what is here is what they do to it
then, and a task that only watches the queue sees nothing else.
-/

namespace Elks
namespace Tty

/-- `struct ch_queue`. -/
structure ChQueue where
  buf : Nat → UInt8
  size : Nat
  tail : Nat
  len : Nat

namespace ChQueue

variable (q : ChQueue)

/-- `chq_peekch`: there is something to read. -/
def peekch : Bool :=
  q.len ≠ 0

/-- `chq_full`. -/
def full : Bool :=
  q.len = q.size

/-- `chq_addch`: the queue with one more byte, or `none` for `-1`. -/
def addch (c : UInt8) : Option ChQueue :=
  if q.len = q.size then
    none
  else
    let nhead := (q.tail + q.len) &&& (q.size - 1)
    some { q with buf := Function.update q.buf nhead c, len := q.len + 1 }

/-- `chq_getch`: the oldest byte and the queue without it, or `none` for `-1`. -/
def getch : Option (UInt8 × ChQueue) :=
  if q.len = 0 then
    none
  else
    some (q.buf q.tail, { q with tail := (q.tail + 1) &&& (q.size - 1), len := q.len - 1 })

/-- The bytes in the queue, the oldest first. -/
def contents : List UInt8 :=
  Lib.queued q.size q.buf q.tail q.len

/-- What `chq_init` and the calls leave: a size that is a power of two, and `tail`
and `len` within it. -/
structure Ok : Prop where
  size : ∃ k, q.size = 2 ^ k
  tail_lt : q.tail < q.size
  len_le : q.len ≤ q.size

variable {q} {q' : ChQueue} {c : UInt8}

theorem Ok.and_mask (h : q.Ok) (n : Nat) : n &&& (q.size - 1) = n % q.size := by
  obtain ⟨k, hk⟩ := h.size
  rw [hk, Nat.and_two_pow_sub_one_eq_mod]

theorem addch_eq_none : q.addch c = none ↔ q.full = true := by
  unfold addch full
  split <;> simp_all

theorem getch_eq_none : q.getch = none ↔ q.len = 0 := by
  unfold getch
  split <;> simp_all

theorem Ok.addch (h : q.Ok) (hadd : q.addch c = some q') :
    q'.Ok ∧ q'.contents = q.contents ++ [c] := by
  have hmask := h.and_mask (q.tail + q.len)
  have htail := h.tail_lt
  have hlen := h.len_le
  unfold ChQueue.addch at hadd
  split at hadd
  · cases hadd
  · rename_i hfull
    rw [hmask] at hadd
    obtain rfl := Option.some.inj hadd
    refine ⟨⟨h.size, htail, by change q.len + 1 ≤ q.size; omega⟩, ?_⟩
    have hput := @Lib.queued_copyIn _ q.buf q.size q.tail q.len [c] (by simp; omega) (by
        have hlt := Nat.mod_lt (q.tail + q.len) (show 0 < q.size by omega)
        simp
        omega)
    have hbuf : Lib.copyIn q.buf ((q.tail + q.len) % q.size) [c] =
        Function.update q.buf ((q.tail + q.len) % q.size) c := by
      funext j
      unfold Lib.copyIn
      by_cases hj : j = (q.tail + q.len) % q.size
      · subst hj
        simp
      · rw [Function.update_of_ne hj, dif_neg]
        simp
        omega
    rw [hbuf] at hput
    exact hput

theorem Ok.getch (h : q.Ok) (hget : q.getch = some (c, q')) :
    q'.Ok ∧ q.contents = c :: q'.contents := by
  have hmask := h.and_mask (q.tail + 1)
  have htail := h.tail_lt
  have hlen := h.len_le
  unfold ChQueue.getch at hget
  split at hget
  · cases hget
  · rename_i hne
    rw [hmask] at hget
    obtain ⟨rfl, rfl⟩ := Prod.mk.inj (Option.some.inj hget)
    refine ⟨⟨h.size, Nat.mod_lt _ (by omega), by change q.len - 1 ≤ q.size; omega⟩, ?_⟩
    exact Lib.queued_eq_slice_append (k := 1) (by omega) (by omega)

end ChQueue

end Tty
end Elks
