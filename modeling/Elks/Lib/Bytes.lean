import Mathlib.Data.List.GetD
import Mathlib.Tactic

/-!
# Records in bytes

A memory is a function from addresses to bytes.  A record is laid out in it as the
bytes of its members, one after the other and each with its low byte first; where a
member begins follows from the sizes of those before it.

* `le`, `leAt`: a number as bytes, and the number at an address;
* `overlay`: a memory after a list of bytes is copied into it;
* `member_overlay_pack`: a member of a record that was copied is what was put there.
-/

namespace Elks
namespace Lib

/-- The low `n` bytes of a number, the lowest first. -/
def le : Nat → Nat → List UInt8
  | 0, _ => []
  | n + 1, v => UInt8.ofNat v :: le n (v / 256)

/-- The number in the `n` bytes from `a` on. -/
def leAt (m : Nat → UInt8) : Nat → Nat → Nat
  | _, 0 => 0
  | a, n + 1 => (m a).toNat + 256 * leAt m (a + 1) n

/-- The memory `m` with the bytes of `l` from `a` on. -/
def overlay (m : Nat → UInt8) (a : Nat) (l : List UInt8) : Nat → UInt8 :=
  fun x => if x < a then m x else l.getD (x - a) (m x)

/-- The bytes of members, each given by its size and its value. -/
def pack : List (Nat × Nat) → List UInt8
  | [] => []
  | (n, v) :: l => le n v ++ pack l

/-- Where member `j` begins. -/
def offsetOf (sizes : List Nat) (j : Nat) : Nat :=
  (sizes.take j).sum

/-- The value of member `j` of the record at `a`. -/
def member (sizes : List Nat) (j : Nat) (m : Nat → UInt8) (a : Nat) : Nat :=
  leAt m (a + offsetOf sizes j) (sizes.getD j 0)

section Bytes

variable {m m' : Nat → UInt8} {a n : Nat} {l : List UInt8}

@[simp] theorem length_le (n v : Nat) : (le n v).length = n := by
  induction n generalizing v with
  | zero => rfl
  | succ n ih => rw [le, List.length_cons, ih]

theorem leAt_congr (h : ∀ x, a ≤ x → x < a + n → m x = m' x) : leAt m a n = leAt m' a n := by
  induction n generalizing a with
  | zero => rfl
  | succ n ih =>
      rw [leAt, leAt, h a (Nat.le_refl a) (by omega), ih]
      exact fun x hx hx' => h x (by omega) (by omega)

/-- The bytes of a list that are in memory from `a` on give back the number. -/
theorem leAt_of_le (v : Nat) (h : ∀ k, k < n → some (m (a + k)) = (le n v)[k]?) :
    leAt m a n = v % 256 ^ n := by
  induction n generalizing a v with
  | zero => rw [leAt, Nat.pow_zero, Nat.mod_one]
  | succ n ih =>
      have hfirst : m a = UInt8.ofNat v := Option.some.inj (h 0 (Nat.succ_pos n))
      have hrest : leAt m (a + 1) n = v / 256 % 256 ^ n := by
        refine ih (v / 256) fun k hk => ?_
        have hk' := h (k + 1) (by omega)
        rw [← Nat.add_assoc, Nat.add_right_comm] at hk'
        exact hk'
      have hpow : 256 ^ (n + 1) = 256 * 256 ^ n := Nat.pow_succ'
      rw [leAt, hfirst, hrest, UInt8.toNat_ofNat', hpow]
      exact Nat.mod_mul.symm

theorem overlay_other {x : Nat} (h : x < a ∨ a + l.length ≤ x) : overlay m a l x = m x := by
  unfold overlay
  split
  · rfl
  · exact List.getD_eq_default _ _ (by omega)

theorem overlay_get {k : Nat} (hk : k < l.length) : some (overlay m a l (a + k)) = l[k]? := by
  unfold overlay
  rw [if_neg (by omega), Nat.add_sub_cancel_left, List.getD_eq_getElem?_getD,
    List.getElem?_eq_getElem hk, Option.getD_some]

end Bytes

section Records

variable {m : Nat → UInt8} {a : Nat} {l : List (Nat × Nat)}

@[simp] theorem length_pack (l : List (Nat × Nat)) : (pack l).length = (l.map Prod.fst).sum := by
  induction l with
  | nil => rfl
  | cons f l ih => simp [pack, ih]

/-- The bytes of a member are where the sizes put them. -/
theorem pack_getElem? {j k : Nat} (hj : j < l.length) (hk : k < l[j].1) :
    (pack l)[offsetOf (l.map Prod.fst) j + k]? = (le l[j].1 l[j].2)[k]? := by
  induction l generalizing j with
  | nil => cases hj
  | cons f l ih =>
      obtain ⟨n, v⟩ := f
      cases j with
      | zero =>
          have hk' : k < n := hk
          rw [pack, offsetOf, List.take_zero, List.sum_nil, Nat.zero_add,
            List.getElem?_append_left (by simpa using hk')]
          rfl
      | succ j =>
          have hrest := ih (Nat.lt_of_succ_lt_succ hj) hk
          rw [pack, offsetOf, List.map_cons, List.take_succ_cons, List.sum_cons, Nat.add_assoc,
            List.getElem?_append_right (by simp), length_le, Nat.add_sub_cancel_left]
          exact hrest

/-- A member of a record that was copied to `a`. -/
theorem member_overlay_pack {j : Nat} (hj : j < l.length) :
    member (l.map Prod.fst) j (overlay m a (pack l)) a = l[j].2 % 256 ^ l[j].1 := by
  have hsize : (l.map Prod.fst).getD j 0 = l[j].1 := by
    rw [List.getD_eq_getElem?_getD, List.getElem?_map, List.getElem?_eq_getElem hj]
    rfl
  rw [member, hsize]
  refine leAt_of_le _ fun k hk => ?_
  rw [← pack_getElem? hj hk, Nat.add_assoc]
  refine overlay_get ?_
  have hbyte := pack_getElem? hj hk
  rw [List.getElem?_eq_getElem (i := k) (by simpa using hk)] at hbyte
  exact (List.getElem?_eq_some_iff.mp hbyte).1

end Records

end Lib
end Elks
