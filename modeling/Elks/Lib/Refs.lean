import Elks.Lib.Outcome

/-!
# Counted references

A table counts the references to its objects.  A routine is given some of these
references and gives some back; what it does to the table is fixed by the two.

* `one i` is a single reference to `i`, and references add up as functions.
* `Trades A m h post` says that `m`, started with the references `h` in hand,
  comes back with references in hand as `post` allows, and has left all other
  references as they were.

The frame is part of `Trades`: whatever else the table counts is an arbitrary
function that is added on both sides.  `TradesIn` fixes it, for results that depend on
what else the table counts.
-/

namespace Elks
namespace Lib

section Trades

variable {ι ε α β : Type} {m : RoutineOf ε (ι → ℕ) α} {f : α → RoutineOf ε (ι → ℕ) β} {a : α}

/-- `m` turns the references `h` into references that `post` allows for the value
it returns, in a table that counts `b` besides. -/
def TradesIn
    (A : ε → Prop)
    (b : ι → ℕ)
    (m : RoutineOf ε (ι → ℕ) α)
    (h : ι → ℕ)
    (post : α → (ι → ℕ) → Prop) : Prop :=
  Outcome A m (b + h) fun a s => ∃ h', s = b + h' ∧ post a h'

/-- The same, whatever else the table counts: the frame is arbitrary. -/
def Trades
    (A : ε → Prop)
    (m : RoutineOf ε (ι → ℕ) α)
    (h : ι → ℕ)
    (post : α → (ι → ℕ) → Prop) : Prop :=
  ∀ b, Outcome A m (b + h) fun a s => ∃ h', s = b + h' ∧ post a h'

variable {A : ε → Prop} {b h : ι → ℕ} {post R : α → (ι → ℕ) → Prop}

theorem Trades.mono (hm : Trades A m h R) (hp : ∀ a h', R a h' → post a h') :
    Trades A m h post := by
  intro b
  refine (hm b).mono ?_
  rintro a s ⟨h', hs, hr⟩
  exact ⟨h', hs, hp a h' hr⟩

theorem Trades.pure (hp : post a h) :
    Trades A (pure a) h post :=
  fun _ => Outcome.pure ⟨h, rfl, hp⟩

theorem Trades.throw {e : ε} (he : A e) :
    Trades A (throw e : RoutineOf ε (ι → ℕ) α) h post :=
  fun _ => Outcome.throw he

theorem Trades.ite {c : Prop} [Decidable c] {m n : RoutineOf ε (ι → ℕ) α}
    (hm : c → Trades A m h post) (hn : ¬ c → Trades A n h post) :
    Trades A (if c then m else n) h post :=
  fun b => Outcome.ite (fun hc => hm hc b) fun hc => hn hc b

/-- The references `g` are put aside while `m` trades `h`. -/
theorem TradesIn.call {post : β → (ι → ℕ) → Prop} {k : ι → ℕ} (g : ι → ℕ) (hk : k = g + h)
    (hm : TradesIn A (b + g) m h R) (hf : ∀ a h', R a h' → TradesIn A b (f a) (g + h') post) :
    TradesIn A b (m >>= f) k post := by
  unfold TradesIn at hm ⊢
  rw [hk, ← add_assoc]
  refine hm.bind ?_
  rintro a s ⟨h', rfl, hr⟩
  rw [add_assoc]
  exact hf a h' hr

theorem Trades.call {post : β → (ι → ℕ) → Prop} {k : ι → ℕ} (g : ι → ℕ) (hk : k = g + h)
    (hm : Trades A m h R) (hf : ∀ a h', R a h' → Trades A (f a) (g + h') post) :
    Trades A (m >>= f) k post :=
  fun b => TradesIn.call g hk (hm (b + g)) fun a h' hr => hf a h' hr b

theorem TradesIn.bind {post : β → (ι → ℕ) → Prop} (hm : TradesIn A b m h R)
    (hf : ∀ a h', R a h' → TradesIn A b (f a) h' post) : TradesIn A b (m >>= f) h post := by
  refine Outcome.bind hm ?_
  rintro a s ⟨h', rfl, hr⟩
  exact hf a h' hr

theorem Trades.bind {post : β → (ι → ℕ) → Prop} (hm : Trades A m h R)
    (hf : ∀ a h', R a h' → Trades A (f a) h' post) : Trades A (m >>= f) h post :=
  fun b => TradesIn.bind (hm b) fun a h' hr => hf a h' hr b

theorem Trades.get {f : (ι → ℕ) → RoutineOf ε (ι → ℕ) α} (hf : ∀ s, Trades A (f s) h post) :
    Trades A (get >>= f) h post :=
  fun b => hf (b + h) b

/-- A trade, with the run that it is kept in mind. -/
theorem TradesIn.traced (hm : TradesIn A b m h R) :
    TradesIn A b m h fun a h' => R a h' ∧ m (b + h) = .ok (a, b + h') := by
  unfold TradesIn Outcome at hm ⊢
  cases hrun : m (b + h) with
  | ok r =>
      rw [hrun] at hm
      obtain ⟨h', hs, hr⟩ := hm
      exact ⟨h', hs, hr, congrArg Except.ok (Prod.ext rfl hs)⟩
  | error e =>
      rw [hrun] at hm
      exact hm

/-- The table that a trade leaves. -/
theorem Trades.run (hm : Trades A m 0 post) {s s' : ι → ℕ} (hrun : m s = .ok (a, s')) :
    ∃ h', s' = s + h' ∧ post a h' := by
  have hs := hm s
  rw [add_zero] at hs
  exact hs.of_ok hrun

end Trades

section Refs

variable {ι ε α : Type} [DecidableEq ι] {f : Unit → RoutineOf ε (ι → ℕ) α} {s : ι → ℕ} {e : ε}

/-- A single reference to `i`. -/
def one (i : ι) : ι → ℕ :=
  Pi.single i 1

theorem one_self (i : ι) : one i i = 1 :=
  Pi.single_eq_same i 1

theorem one_ne {i j : ι} (h : j ≠ i) : one i j = 0 :=
  Pi.single_eq_of_ne h 1

theorem add_one_ne (s : ι → ℕ) (i : ι) : s + one i ≠ s := by
  intro h
  have hi := congrFun h i
  rw [Pi.add_apply, one_self] at hi
  omega

/-- A table that counts a reference to `i`. -/
theorem exists_add_one_of_pos (h : 0 < s i) : ∃ b, s = b + one i := by
  refine ⟨Function.update s i (s i - 1), ?_⟩
  funext j
  by_cases hj : j = i
  · subst hj
    rw [Pi.add_apply, Function.update_self, one_self]
    omega
  · rw [Pi.add_apply, Function.update_of_ne hj, one_ne hj]
    rfl

/-- Take a reference; a count that would reach `limit` is the fault `e`. -/
def takeRef (limit : ℕ) (e : ε) (i : ι) : RoutineOf ε (ι → ℕ) Unit :=
  fun s => if s i + 1 < limit then .ok ((), s + one i) else .error e

/-- Drop a reference.  An object that nothing refers to is left alone. -/
def dropRef (i : ι) : RoutineOf ε (ι → ℕ) Unit :=
  fun s => .ok ((), if s i = 0 then s else Function.update s i (s i - 1))

/-- Start to refer to an object that nothing refers to; that there is none is
the fault `e`. -/
def claimRef (pick : (ι → ℕ) → Option ι) (e : ε) : RoutineOf ε (ι → ℕ) ι :=
  fun s =>
    match pick s with
    | some i => .ok (i, Function.update s i 1)
    | none => .error e

/-- Dropping undoes taking. -/
theorem drop_one (s : ι → ℕ) (i : ι) :
    (if (s + one i) i = 0 then s + one i
      else Function.update (s + one i) i ((s + one i) i - 1)) = s := by
  have hi : (s + one i) i = s i + 1 := by rw [Pi.add_apply, one_self]
  rw [if_neg (by omega)]
  funext j
  by_cases h : j = i
  · subst h
    rw [Function.update_self, hi]
    omega
  · rw [Function.update_of_ne h, Pi.add_apply, one_ne h]
    rfl

theorem claim_one (h : s i = 0) : Function.update s i 1 = s + one i := by
  funext j
  by_cases hj : j = i
  · subst hj
    rw [Function.update_self, Pi.add_apply, one_self, h]
  · rw [Function.update_of_ne hj, Pi.add_apply, one_ne hj]
    rfl

variable {A : ε → Prop} {b h : ι → ℕ} {i : ι} {post : α → (ι → ℕ) → Prop}

theorem TradesIn.take {limit : ℕ} (he : A e) (hf : TradesIn A b (f ()) (h + one i) post) :
    TradesIn A b (takeRef limit e i >>= f) h post := by
  refine Outcome.bind (R := fun _ s => s = b + (h + one i)) ?_ ?_
  · unfold Outcome takeRef
    by_cases hi : (b + h) i + 1 < limit
    · rw [if_pos hi, add_assoc]
    · rw [if_neg hi]
      exact he
  · rintro a s rfl
    exact hf

theorem Trades.take {limit : ℕ} (he : A e) (hf : Trades A (f ()) (h + one i) post) :
    Trades A (takeRef limit e i >>= f) h post :=
  fun b => TradesIn.take he (hf b)

theorem TradesIn.drop {k : ι → ℕ} (hk : k = h + one i) (hf : TradesIn A b (f ()) h post) :
    TradesIn A b (dropRef i >>= f) k post := by
  refine Outcome.bind (R := fun _ s => s = b + h) ?_ ?_
  · unfold Outcome dropRef
    rw [hk, ← add_assoc]
    exact drop_one (b + h) i
  · rintro a s rfl
    exact hf

theorem Trades.drop {k : ι → ℕ} (hk : k = h + one i) (hf : Trades A (f ()) h post) :
    Trades A (dropRef i >>= f) k post :=
  fun b => TradesIn.drop hk (hf b)

theorem Trades.claim {pick : (ι → ℕ) → Option ι} {f : ι → RoutineOf ε (ι → ℕ) α}
    (hpick : ∀ s i, pick s = some i → s i = 0) (he : A e)
    (hf : ∀ i, Trades A (f i) (h + one i) post) : Trades A (claimRef pick e >>= f) h post := by
  intro b
  refine Outcome.bind (R := fun i s => s = b + (h + one i)) ?_ ?_
  · unfold Outcome claimRef
    cases hp : pick (b + h) with
    | some i => exact (claim_one (hpick _ i hp)).trans (add_assoc b h (one i))
    | none => exact he
  · rintro i s rfl
    exact hf i b

end Refs

end Lib
end Elks
