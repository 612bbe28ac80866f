import Elks.Tty.Chqueue

/-!
# The calls on a character queue (lib/chqueue.c)

What the calls return as numbers, beside what they do to the queue.  A byte is kept as a
`char`, which has a sign here, and `chq_getch` returns it as that; `chq_delch` looks
whether the queue is full.

**Result.**  `follows_iff`: a sequence of calls does to the queue what it does to a list
of bytes, exactly when no `chq_getch` meets a byte 255 and no `chq_delch` a queue that
is neither empty nor full.
-/

namespace Elks
namespace Tty

namespace ChQueue

/-- A `char` as an `int`. -/
def signed (c : UInt8) : Int :=
  (c.toNat : Int).bmod 256

/-- An `int` as an `unsigned char`. -/
def lowByte (n : Int) : UInt8 :=
  UInt8.ofNat (n % 256).toNat

/-- What a call returns, and the byte that it stores. -/
structure Reply where
  ret : Int
  stored : Option UInt8

/-- The calls that do not sleep.  The pointer of `chq_getch` may be null. -/
inductive Call
  | addch (c : UInt8)
  | getch (pointer : Bool)
  | delch
  | peekch
  | full

section Code

variable (q : ChQueue)

/-- `chq_erase`. -/
def erase : ChQueue :=
  { q with tail := 0, len := 0 }

/-- `chq_init`. -/
def init (buf : Nat → UInt8) (size : Nat) : ChQueue :=
  { q with buf := buf, size := size }.erase

/-- `chq_addch` with its number. -/
def addchCall (c : UInt8) : Reply × ChQueue :=
  match q.addch c with
  | none => (⟨-1, none⟩, q)
  | some q' => (⟨0, none⟩, q')

/-- `chq_getch` with its number. -/
def getchCall (pointer : Bool) : Reply × ChQueue :=
  match q.getch with
  | none => (⟨-1, none⟩, q)
  | some (c, q') =>
      let retval := signed c
      (⟨retval, if pointer then some (lowByte retval) else none⟩, q')

/-- `chq_delch`. -/
def delchCall : Reply × ChQueue :=
  if q.len = q.size then
    (⟨1, none⟩, { q with len := q.len - 1 })
  else
    (⟨0, none⟩, q)

def call : Call → Reply × ChQueue
  | .addch c => q.addchCall c
  | .getch pointer => q.getchCall pointer
  | .delch => q.delchCall
  | .peekch => (⟨if q.peekch then 1 else 0, none⟩, q)
  | .full => (⟨if q.full then 1 else 0, none⟩, q)

end Code

section Lists

variable (n : Nat) (l : List UInt8)

/-- A list of at most `n` bytes after a call. -/
def listAfter : Call → List UInt8
  | .addch c => if l.length = n then l else l ++ [c]
  | .getch _ => l.tail
  | .delch => l.dropLast
  | .peekch => l
  | .full => l

/-- What a call answers about a list of at most `n` bytes. -/
def Answer : Call → Reply → Prop
  | .addch _, r => r.ret = -1 ↔ l.length = n
  | .getch pointer, r =>
      (r.ret = -1 ↔ l = []) ∧ r.stored = if pointer then l.head? else none
  | .delch, r => r.ret = 1 ↔ l ≠ []
  | .peekch, r => r.ret ≠ 0 ↔ l ≠ []
  | .full, r => r.ret ≠ 0 ↔ l.length = n

/-- The calls that go right. -/
def Plain : Call → Prop
  | .getch _ => l.head? ≠ some 255
  | .delch => l = [] ∨ l.length = n
  | _ => True

/-- A sequence of such calls, on a list. -/
def PlainRun : List UInt8 → List Call → Prop
  | _, [] => True
  | l, c :: cs => Plain n l c ∧ PlainRun (listAfter n l c) cs

end Lists

/-- A call does to the queue what it does to the list of its bytes, and leaves `tail` and
`len` in their bounds. -/
structure Meets (q : ChQueue) (c : Call) : Prop where
  answer : Answer q.size q.contents c (q.call c).1
  contents : (q.call c).2.contents = listAfter q.size q.contents c
  size : (q.call c).2.size = q.size
  tail_lt : (q.call c).2.tail < q.size
  len_le : (q.call c).2.len ≤ q.size

/-- A sequence of calls does so. -/
def Follows : ChQueue → List Call → Prop
  | _, [] => True
  | q, c :: cs => q.Meets c ∧ (q.call c).2.Follows cs

section Calls

variable {q q' : ChQueue} {c : UInt8} {pointer : Bool}

theorem signed_eq_neg_one : signed c = -1 ↔ c = 255 := by
  have hlt : c.toNat < 256 := c.toNat_lt
  have hval : c = 255 ↔ c.toNat = 255 := UInt8.toNat_inj.symm
  rw [hval]
  unfold signed
  rw [Int.bmod_def]
  split <;> omega

@[simp] theorem lowByte_signed (c : UInt8) : lowByte (signed c) = c := by
  have hlt : c.toNat < 256 := c.toNat_lt
  unfold lowByte signed
  have hmod : ((c.toNat : Int).bmod 256 % 256).toNat = c.toNat := by
    rw [Int.bmod_def]
    split <;> omega
  rw [hmod, UInt8.ofNat_toNat]

theorem zero_ne_neg_one : (0 : Int) ≠ -1 := by
  decide

@[simp] theorem contents_length : q.contents.length = q.len :=
  Lib.queued_length

theorem contents_eq_nil : q.contents = [] ↔ q.len = 0 :=
  Lib.queued_eq_nil

theorem ok_init {buf : Nat → UInt8} {size : Nat} (hsize : ∃ k, size = 2 ^ k) :
    (q.init buf size).Ok := by
  obtain ⟨k, rfl⟩ := hsize
  exact ⟨⟨k, rfl⟩, Nat.two_pow_pos k, Nat.zero_le _⟩

theorem Ok.size_pos (h : q.Ok) : 0 < q.size :=
  Nat.zero_lt_of_lt h.tail_lt

theorem contents_shorter (q : ChQueue) :
    ({ q with len := q.len - 1 } : ChQueue).contents = q.contents.dropLast := by
  cases hlen : q.len with
  | zero =>
      have hnil : q.contents = [] := contents_eq_nil.mpr hlen
      rw [hnil]
      rfl
  | succ k =>
      have hsplit : q.contents =
          Lib.queued q.size q.buf q.tail k ++
            Lib.queued q.size q.buf ((q.tail + k) % q.size) 1 := by
        unfold ChQueue.contents
        rw [hlen]
        exact Lib.queued_add 1
      have hone : ∃ x, Lib.queued q.size q.buf ((q.tail + k) % q.size) 1 = [x] :=
        List.length_eq_one_iff.mp Lib.queued_length
      obtain ⟨x, hx⟩ := hone
      rw [hsplit, hx, List.dropLast_concat]
      rfl

theorem Ok.addch_meets (h : q.Ok) : q.Meets (.addch c) := by
  have hfull : q.full = true ↔ q.contents.length = q.size := by
    rw [contents_length]
    exact decide_eq_true_iff
  cases hadd : q.addch c with
  | none =>
      have hlen := hfull.mp (addch_eq_none.mp hadd)
      have hcall : q.call (.addch c) = (⟨-1, none⟩, q) := by
        simp only [call, addchCall, hadd]
      constructor
      · rw [hcall]
        exact iff_of_true rfl hlen
      · rw [hcall]
        exact (if_pos hlen).symm
      · rw [hcall]
      · rw [hcall]
        exact h.tail_lt
      · rw [hcall]
        exact h.len_le
  | some q' =>
      have hlen : ¬q.contents.length = q.size := by
        intro hlen
        rw [addch_eq_none.mpr (hfull.mpr hlen)] at hadd
        cases hadd
      have hcall : q.call (.addch c) = (⟨0, none⟩, q') := by
        simp only [call, addchCall, hadd]
      obtain ⟨hok, hcontents⟩ := h.addch hadd
      have hsize : q'.size = q.size := by
        unfold ChQueue.addch at hadd
        split at hadd
        · cases hadd
        · rw [← Option.some.inj hadd]
      constructor
      · rw [hcall]
        exact iff_of_false zero_ne_neg_one hlen
      · rw [hcall]
        exact hcontents.trans (if_neg hlen).symm
      · rw [hcall]
        exact hsize
      · rw [hcall, ← hsize]
        exact hok.tail_lt
      · rw [hcall, ← hsize]
        exact hok.len_le

/-- `chq_getch` is right unless it returns the number that stands for an empty queue. -/
theorem Ok.getch_meets_iff (h : q.Ok) : q.Meets (.getch pointer) ↔ q.contents.head? ≠ some 255 := by
  cases hget : q.getch with
  | none =>
      have hnil : q.contents = [] := contents_eq_nil.mpr (getch_eq_none.mp hget)
      have hcall : q.call (.getch pointer) = (⟨-1, none⟩, q) := by
        simp only [call, getchCall, hget]
      refine iff_of_true ⟨?_, ?_, ?_, ?_, ?_⟩ (by rw [hnil]; simp)
      · rw [hcall]
        refine ⟨iff_of_true rfl hnil, ?_⟩
        rw [hnil]
        cases pointer <;> rfl
      · rw [hcall, listAfter, hnil]
        rfl
      · rw [hcall]
      · rw [hcall]
        exact h.tail_lt
      · rw [hcall]
        exact h.len_le
  | some r =>
      obtain ⟨c, q'⟩ := r
      obtain ⟨hok, hcontents⟩ := h.getch hget
      have hcall : q.call (.getch pointer) =
          (⟨signed c, if pointer then some c else none⟩, q') := by
        simp only [call, getchCall, hget, lowByte_signed]
      have hsize : q'.size = q.size := by
        unfold ChQueue.getch at hget
        split at hget
        · cases hget
        · rw [← (Prod.mk.inj (Option.some.inj hget)).2]
      have hhead : q.contents.head? ≠ some 255 ↔ signed c ≠ -1 := by
        rw [hcontents, List.head?_cons, ne_eq, Option.some.injEq, ne_eq, signed_eq_neg_one]
      rw [hhead]
      generalize signed c = retval at hcall ⊢
      constructor
      · rintro ⟨hanswer, -, -, -, -⟩ hneg
        rw [hcall] at hanswer
        have hnil := hanswer.1.mp hneg
        rw [hcontents] at hnil
        cases hnil
      · intro hneg
        constructor
        · rw [hcall]
          refine ⟨iff_of_false hneg (by rw [hcontents]; simp), ?_⟩
          rw [hcontents]
          rfl
        · rw [hcall, listAfter, hcontents]
          rfl
        · rw [hcall]
          exact hsize
        · rw [hcall, ← hsize]
          exact hok.tail_lt
        · rw [hcall, ← hsize]
          exact hok.len_le

theorem Ok.delch_meets_iff (h : q.Ok) :
    q.Meets .delch ↔ q.contents = [] ∨ q.contents.length = q.size := by
  have hlen := contents_length (q := q)
  by_cases hfull : q.len = q.size
  · have hcall : q.call .delch = (⟨1, none⟩, { q with len := q.len - 1 }) := by
      simp only [call, delchCall, if_pos hfull]
    have hne : q.contents ≠ [] := by
      rw [ne_eq, contents_eq_nil, hfull]
      exact h.size_pos.ne'
    refine iff_of_true ⟨?_, ?_, ?_, ?_, ?_⟩ (Or.inr (hlen.trans hfull))
    · rw [hcall]
      exact iff_of_true rfl hne
    · rw [hcall]
      exact contents_shorter q
    · rw [hcall]
    · rw [hcall]
      exact h.tail_lt
    · rw [hcall]
      exact (Nat.sub_le _ _).trans h.len_le
  · have hcall : q.call .delch = (⟨0, none⟩, q) := by
      simp only [call, delchCall, if_neg hfull]
    rw [hlen]
    constructor
    · rintro ⟨hanswer, -, -, -, -⟩
      rw [hcall] at hanswer
      by_contra hnot
      have hret := hanswer.mpr (fun hnil => hnot (Or.inl hnil))
      cases hret
    · intro hempty
      have hnil : q.contents = [] := hempty.resolve_right hfull
      constructor
      · rw [hcall]
        exact iff_of_false zero_ne_one (not_not_intro hnil)
      · rw [hcall, listAfter, hnil]
        rfl
      · rw [hcall]
      · rw [hcall]
        exact h.tail_lt
      · rw [hcall]
        exact h.len_le

theorem Ok.peekch_meets (h : q.Ok) : q.Meets .peekch := by
  refine ⟨?_, rfl, rfl, h.tail_lt, h.len_le⟩
  simp only [Answer, call, ChQueue.peekch, ne_eq, contents_eq_nil]
  by_cases hlen : q.len = 0 <;> simp [hlen]

theorem Ok.full_meets (h : q.Ok) : q.Meets .full := by
  refine ⟨?_, rfl, rfl, h.tail_lt, h.len_le⟩
  simp only [Answer, call, ChQueue.full, contents_length]
  by_cases hlen : q.len = q.size <;> simp [hlen]

theorem Ok.meets_iff (h : q.Ok) (c : Call) : q.Meets c ↔ Plain q.size q.contents c := by
  cases c with
  | addch c => exact iff_of_true h.addch_meets trivial
  | getch pointer => exact h.getch_meets_iff
  | delch => exact h.delch_meets_iff
  | peekch => exact iff_of_true h.peekch_meets trivial
  | full => exact iff_of_true h.full_meets trivial

theorem Meets.ok {c : Call} (h : q.Ok) (hmeets : q.Meets c) : (q.call c).2.Ok where
  size := by
    rw [hmeets.size]
    exact h.size
  tail_lt := by
    rw [hmeets.size]
    exact hmeets.tail_lt
  len_le := by
    rw [hmeets.size]
    exact hmeets.len_le

theorem Ok.follows_calls_iff (h : q.Ok) (calls : List Call) :
    q.Follows calls ↔ PlainRun q.size q.contents calls := by
  induction calls generalizing q with
  | nil => exact Iff.rfl
  | cons c cs ih =>
      unfold Follows PlainRun
      rw [h.meets_iff c]
      refine and_congr_right fun hplain => ?_
      have hmeets := (h.meets_iff c).mpr hplain
      rw [ih (hmeets.ok h), hmeets.contents, hmeets.size]

/-- Behind `chq_init`, a sequence of calls does to a queue what it does to a list of
bytes exactly when no `chq_getch` meets a byte 255 and no `chq_delch` a queue that is
neither empty nor full. -/
theorem follows_iff {buf : Nat → UInt8} {size : Nat} (hsize : ∃ k, size = 2 ^ k)
    (calls : List Call) :
    (q.init buf size).Follows calls ↔ PlainRun size [] calls :=
  (ok_init hsize).follows_calls_iff calls

end Calls

section Four

/-- A queue of four bytes. -/
def fourBytes : ChQueue where
  buf _ := 0
  size := 4
  tail := 0
  len := 0

theorem follows_iff_four :
    (fourBytes.init (fun _ => 0) 4).Follows [.addch 65, .getch true] ↔
      PlainRun 4 [] [.addch 65, .getch true] :=
  follows_iff ⟨2, rfl⟩ _

/-- A byte 255 is taken out with the number for an empty queue, and the one byte of a queue
of four is not deleted. -/
theorem follows_fails :
    ¬(fourBytes.init (fun _ => 0) 4).Follows [.addch 255, .getch true] ∧
      ¬(fourBytes.init (fun _ => 0) 4).Follows [.addch 65, .delch] := by
  have hok : (fourBytes.init (fun _ => 0) 4).Ok := ok_init ⟨2, rfl⟩
  rw [hok.follows_calls_iff, hok.follows_calls_iff]
  constructor
  · rintro ⟨-, hget, -⟩
    exact hget rfl
  · rintro ⟨-, hdel, -⟩
    have hone : [(65 : UInt8)] = [] ∨ [(65 : UInt8)].length = 4 := hdel
    exact absurd hone (by decide)

end Four

end ChQueue

end Tty
end Elks
