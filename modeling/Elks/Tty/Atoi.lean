import Elks.Tty.DirconLanguage

/-!
# Decimal numbers in strings (lib/string.c)

`atoi` is to pass over blanks and control characters, to take one sign, and to read digits
up to the first byte that is none.  `Layout` says where in a string these parts are, and
`Parses` what is to come back and how far the string may be read.

`atoi` compares signed characters, and only from above: what is above 127 counts as a blank,
and whatever is not above `'9'` counts as a digit, the NUL at the end among it.

**Results.**  `skipBlanks_ends`, `digits_ends`: where the two loops end.
`atoi_parses_iff`: `atoi` parses a string exactly when its layout is `Layout.Plain`.
-/

namespace Elks
namespace Tty
namespace Dircon

open Lib ChQueue

section Places

/-- The blanks and the control characters. -/
def isBlank (b : UInt8) : Prop :=
  0 < b ∧ b ≤ ascii ' '

instance (b : UInt8) : Decidable (isBlank b) :=
  inferInstanceAs (Decidable (_ ∧ _))

/-- A sign. -/
def isSign (b : UInt8) : Prop :=
  b = ascii '-' ∨ b = ascii '+'

instance (b : UInt8) : Decidable (isSign b) :=
  inferInstanceAs (Decidable (_ ∨ _))

variable (mem : Nat → UInt8)

/-- The bytes from one place up to another. -/
def bytes (start stop : Nat) : List UInt8 :=
  (List.range' start (stop - start)).map mem

/-- Where the parts of a number are that is looked for at `i`: behind the blanks, behind the
sign, and behind the digits. -/
structure Layout (i first start stop : Nat) : Prop where
  le_first : i ≤ first
  blanks : ∀ j, i ≤ j → j < first → isBlank (mem j)
  not_blank : ¬isBlank (mem first)
  sign : start = if isSign (mem first) then first + 1 else first
  le_stop : start ≤ stop
  run : ∀ j, start ≤ j → j < stop → isDigit (mem j)
  not_digit : ¬isDigit (mem stop)

/-- The number of a layout. -/
def number (first start stop : Nat) : Int :=
  if mem first = ascii '-' then -(decimal (bytes mem start stop) : Int)
  else decimal (bytes mem start stop)

/-- What parsing a number at `i` is: its value in 16 bits, and nothing read behind the first
byte that is no digit. -/
def Parses (i : Nat) (n : Int) (last : Nat) : Prop :=
  ∃ first start stop, Layout mem i first start stop ∧ n = int16 (number mem first start stop) ∧
    last ≤ stop

/-- Only blanks before the NUL; or nothing above 127 behind the blanks, and behind the digits
a byte above `'9'`, but not above 127. -/
def Layout.Plain (first stop : Nat) : Prop :=
  mem first = 0 ∨ (mem first).toNat < 128 ∧ Stops (mem stop)

/-- The condition on the string at `i`. -/
def Plain (i : Nat) : Prop :=
  ∃ first start stop, Layout mem i first start stop ∧ Layout.Plain mem first stop

end Places

section Layouts

variable {mem : Nat → UInt8} {i k first first' start start' stop stop' : Nat}

theorem exists_first {φ : Nat → Prop} [DecidablePred φ] (hik : i ≤ k) (hk : ¬φ k) :
    ∃ n, i ≤ n ∧ n ≤ k ∧ (∀ j, i ≤ j → j < n → φ j) ∧ ¬φ n := by
  have hex : ∃ n, i ≤ n ∧ ¬φ n := ⟨k, hik, hk⟩
  refine ⟨Nat.find hex, (Nat.find_spec hex).1, Nat.find_min' hex ⟨hik, hk⟩, ?_,
    (Nat.find_spec hex).2⟩
  intro j hij hj
  by_contra hnot
  exact Nat.find_min hex hj ⟨hij, hnot⟩

theorem first_unique {φ : Nat → Prop} {n n' : Nat} (hle : i ≤ n) (hall : ∀ j, i ≤ j → j < n → φ j)
    (hnot : ¬φ n) (hle' : i ≤ n') (hall' : ∀ j, i ≤ j → j < n' → φ j) (hnot' : ¬φ n') : n = n' := by
  rcases Nat.lt_trichotomy n n' with hlt | heq | hgt
  · exact absurd (hall' n hle hlt) hnot
  · exact heq
  · exact absurd (hall n' hle' hgt) hnot'

theorem nul_not_blank : ¬isBlank 0 := by
  decide

theorem nul_not_digit : ¬isDigit 0 := by
  decide

theorem exists_layout (hik : i ≤ k) (hnul : mem k = 0) :
    ∃ first start stop, Layout mem i first start stop ∧ first ≤ k ∧ stop ≤ k := by
  obtain ⟨first, hle, hfirst, hblanks, hnot⟩ :=
    exists_first (φ := fun j => isBlank (mem j)) hik (by rw [hnul]; exact nul_not_blank)
  have hstart : (if isSign (mem first) then first + 1 else first) ≤ k := by
    split_ifs with hsign
    · have hne : first ≠ k := by
        intro heq
        rw [heq, hnul] at hsign
        exact absurd hsign (by decide)
      omega
    · exact hfirst
  obtain ⟨stop, hle', hstop, hrun, hnot'⟩ :=
    exists_first (φ := fun j => isDigit (mem j)) hstart (by rw [hnul]; exact nul_not_digit)
  exact ⟨first, _, stop, ⟨hle, hblanks, hnot, rfl, hle', hrun, hnot'⟩, hfirst, hstop⟩

theorem Layout.unique (h : Layout mem i first start stop) (h' : Layout mem i first' start' stop') :
    first = first' ∧ start = start' ∧ stop = stop' := by
  obtain rfl : first = first' :=
    first_unique (φ := fun j => isBlank (mem j)) h.le_first h.blanks h.not_blank h'.le_first
      h'.blanks h'.not_blank
  obtain rfl : start = start' := h.sign.trans h'.sign.symm
  exact ⟨rfl, rfl, first_unique (φ := fun j => isDigit (mem j)) h.le_stop h.run h.not_digit
    h'.le_stop h'.run h'.not_digit⟩

theorem Layout.first_le_start (h : Layout mem i first start stop) : first ≤ start := by
  rw [h.sign]
  split_ifs
  · exact Nat.le_succ first
  · exact Nat.le_refl first

theorem Layout.of_nul (h : Layout mem i first start stop) (hnul : mem first = 0) :
    start = first ∧ stop = first := by
  have hstart : start = first := by
    rw [h.sign, hnul, if_neg (by decide)]
  refine ⟨hstart, ?_⟩
  by_contra hne
  have hdigit := h.run first (by omega) (by have hle := h.le_stop; omega)
  rw [hnul] at hdigit
  exact nul_not_digit hdigit

theorem bytes_self (start : Nat) : bytes mem start start = [] := by
  unfold bytes
  rw [Nat.sub_self]
  rfl

theorem bytes_length : (bytes mem start stop).length = stop - start := by
  unfold bytes
  rw [List.length_map, List.length_range']

theorem digit_of_mem_bytes (h : Layout mem i first start stop) :
    ∀ d ∈ bytes mem start stop, isDigit d := by
  intro d hd
  obtain ⟨j, hj, rfl⟩ := List.mem_map.mp hd
  have hbounds := List.mem_range'_1.mp hj
  exact h.run j hbounds.1 (by omega)

theorem stores_bytes (hle : start ≤ stop) :
    Stores mem start (bytes mem start stop ++ [mem stop]) := by
  obtain ⟨n, rfl⟩ := Nat.exists_eq_add_of_le hle
  unfold bytes
  rw [Nat.add_sub_cancel_left]
  clear hle
  induction n generalizing start with
  | zero => exact ⟨rfl, trivial⟩
  | succ n ih =>
      rw [List.range'_succ, List.map_cons]
      have hplace : start + (n + 1) = start + 1 + n := by omega
      rw [hplace]
      exact ⟨rfl, ih⟩

end Layouts

section Loops

variable {mem : Nat → UInt8} {i fuel last : Nat} {n v : Int} {b : UInt8}

theorem signed_le_iff {k : Nat} (hk : k < 128) : signed b ≤ k ↔ b.toNat ≤ k ∨ 128 ≤ b.toNat := by
  have hlt := b.toNat_lt
  unfold signed
  rw [Int.bmod_def]
  omega

theorem isBlank_iff : isBlank b ↔ 0 < b.toNat ∧ b.toNat ≤ 32 :=
  and_congr UInt8.lt_iff_toNat_lt UInt8.le_iff_toNat_le

theorem isDigit_iff : isDigit b ↔ 48 ≤ b.toNat ∧ b.toNat ≤ 57 :=
  and_congr UInt8.le_iff_toNat_le UInt8.le_iff_toNat_le

theorem toNat_eq_zero_iff : b = 0 ↔ b.toNat = 0 :=
  UInt8.toNat_inj.symm

/-- What the first loop of `atoi` passes over. -/
def Passed (b : UInt8) : Prop :=
  signed b ≤ 32 ∧ b ≠ 0

instance (b : UInt8) : Decidable (Passed b) :=
  inferInstanceAs (Decidable (_ ∧ _))

/-- What the second loop of `atoi` takes for a digit. -/
def Consumed (b : UInt8) : Prop :=
  signed b - 48 ≤ 9

theorem passed_iff : Passed b ↔ isBlank b ∨ 128 ≤ b.toNat := by
  unfold Passed
  have hsigned : signed b ≤ 32 ↔ b.toNat ≤ 32 ∨ 128 ≤ b.toNat := signed_le_iff (by decide)
  rw [hsigned, ne_eq, toNat_eq_zero_iff, isBlank_iff]
  omega

theorem consumed_iff : Consumed b ↔ ¬Stops b := by
  unfold Consumed
  have hsigned : signed b ≤ 57 ↔ b.toNat ≤ 57 ∨ 128 ≤ b.toNat := signed_le_iff (by decide)
  have hdiff : signed b - 48 ≤ 9 ↔ signed b ≤ 57 := by
    omega
  rw [hdiff, hsigned]
  constructor
  · intro h hstops
    have hbehind := hstops.behind
    have hlow := hstops.low
    omega
  · intro h
    by_contra hnot
    exact h ⟨by omega, by omega⟩

theorem skipBlanks_ends (h : skipBlanks mem fuel i = .ok last) :
    i ≤ last ∧ (∀ j, i ≤ j → j < last → Passed (mem j)) ∧ ¬Passed (mem last) := by
  induction fuel generalizing i with
  | zero => cases h
  | succ fuel ih =>
      rw [skipBlanks] at h
      by_cases hpassed : Passed (mem i)
      · rw [if_pos hpassed.1, if_neg hpassed.2] at h
        obtain ⟨hle, hall, hlast⟩ := ih h
        refine ⟨by omega, fun j hij hj => ?_, hlast⟩
        rcases Nat.eq_or_lt_of_le hij with rfl | hlt
        · exact hpassed
        · exact hall j hlt hj
      · have hstop : (if signed (mem i) ≤ 32 then
            if mem i = 0 then .ok i else skipBlanks mem fuel (i + 1) else .ok i) =
              (.ok i : Except Fault Nat) := by
          split_ifs with hle hzero
          · rfl
          · exact absurd ⟨hle, hzero⟩ hpassed
          · rfl
        rw [hstop] at h
        obtain rfl := Except.ok.inj h
        exact ⟨Nat.le_refl i, fun j hij hj => absurd hj (by omega), hpassed⟩

theorem skipBlanks_eq (hle : i ≤ last) (hall : ∀ j, i ≤ j → j < last → Passed (mem j))
    (hlast : ¬Passed (mem last)) (hfuel : last < i + fuel) : skipBlanks mem fuel i = .ok last := by
  induction fuel generalizing i with
  | zero => exact absurd hfuel (by omega)
  | succ fuel ih =>
      rw [skipBlanks]
      rcases Nat.eq_or_lt_of_le hle with rfl | hlt
      · split_ifs with hblank hzero
        · rfl
        · exact absurd ⟨hblank, hzero⟩ hlast
        · rfl
      · have hpassed := hall i (Nat.le_refl i) hlt
        rw [if_pos hpassed.1, if_neg hpassed.2]
        exact ih hlt (fun j hij hj => hall j (by omega) hj) (by omega)

theorem digits_ends (h : digits mem fuel i n = .ok (v, last)) : i ≤ last ∧ Stops (mem last) := by
  induction fuel generalizing i n with
  | zero => cases h
  | succ fuel ih =>
      rw [digits] at h
      split_ifs at h with hdigit
      · obtain ⟨hle, hstops⟩ := ih h
        exact ⟨by omega, hstops⟩
      · obtain ⟨rfl, rfl⟩ := Prod.mk.inj (Except.ok.inj h)
        exact ⟨Nat.le_refl i, not_not.mp (mt consumed_iff.mpr hdigit)⟩

theorem atoi_ends (h : atoi mem i = .ok (v, last)) :
    ∃ first, i ≤ first ∧ (∀ j, i ≤ j → j < first → Passed (mem j)) ∧ ¬Passed (mem first) ∧
      (mem first = 0 ∧ last = first ∨
        (if isSign (mem first) then first + 1 else first) ≤ last ∧ Stops (mem last)) := by
  unfold atoi at h
  cases hskip : skipBlanks mem SEGMENT i with
  | error e =>
      rw [hskip] at h
      cases h
  | ok first =>
      obtain ⟨hle, hpassed, hend⟩ := skipBlanks_ends hskip
      refine ⟨first, hle, hpassed, hend, ?_⟩
      rw [hskip] at h
      simp only [bind, Except.bind] at h
      by_cases hnul : mem first = 0
      · rw [if_pos hnul] at h
        obtain ⟨-, rfl⟩ := Prod.mk.inj (Except.ok.inj h)
        exact Or.inl ⟨hnul, rfl⟩
      · rw [if_neg hnul] at h
        cases hdigits : digits mem SEGMENT
            (if mem first = ascii '-' ∨ mem first = ascii '+' then first + 1 else first) 0 with
        | error e =>
            rw [hdigits] at h
            cases h
        | ok r =>
            rw [hdigits] at h
            obtain ⟨-, rfl⟩ := Prod.mk.inj (Except.ok.inj h)
            exact Or.inr (digits_ends hdigits)

theorem int16_neg_int16 (n : Int) : int16 (-int16 n) = int16 (-n) := by
  unfold int16
  omega

end Loops

section Result

variable {mem : Nat → UInt8} {i k first start stop last : Nat} {v : Int}

theorem Layout.atoi_eq (h : Layout mem i first start stop) (hplain : Layout.Plain mem first stop)
    (hstop : stop < i + SEGMENT) :
    atoi mem i = .ok (int16 (number mem first start stop), stop) := by
  have hfirst := h.le_first
  have hstart := h.first_le_start
  have hle := h.le_stop
  have hlow : (mem first).toNat < 128 := by
    rcases hplain with hnul | hplain
    · rw [hnul]
      decide
    · exact hplain.1
  have hskip : skipBlanks mem SEGMENT i = .ok first := by
    refine skipBlanks_eq hfirst (fun j hij hj => passed_iff.mpr (Or.inl (h.blanks j hij hj))) ?_
      (by omega)
    intro hpassed
    rcases passed_iff.mp hpassed with hblank | hhigh
    · exact h.not_blank hblank
    · omega
  unfold atoi
  rw [hskip]
  simp only [bind, Except.bind]
  rcases Classical.em (mem first = 0) with hnul | hnul
  · obtain ⟨hstart', hstop'⟩ := h.of_nul hnul
    rw [if_pos hnul, hstart', hstop']
    unfold number
    rw [bytes_self, hnul, if_neg (by decide)]
    rfl
  · have hstops := (hplain.resolve_left hnul).2
    have hdigits := digits_eq 0 (stores_bytes hle) (digit_of_mem_bytes h) hstops
      (bytes_length.trans_lt (by omega) : _ < SEGMENT)
    have hplace : start + (bytes mem start stop).length = stop := by
      rw [bytes_length]
      omega
    have hzero : int16 ((0 : Nat) : Int) = 0 := rfl
    rw [hplace, hzero] at hdigits
    have hsign : (if mem first = ascii '-' ∨ mem first = ascii '+' then first + 1 else first) =
        start := h.sign.symm
    rw [if_neg hnul, hsign, hdigits]
    unfold number
    simp only
    split_ifs
    · rw [int16_neg_int16]
      rfl
    · rfl

theorem Parses.plain (h : Parses mem i v last) (hatoi : atoi mem i = .ok (v, last)) :
    Plain mem i := by
  obtain ⟨first, start, stop, hlayout, -, hlast⟩ := h
  refine ⟨first, start, stop, hlayout, ?_⟩
  have hfirst := hlayout.le_first
  have hstart := hlayout.first_le_start
  have hstop := hlayout.le_stop
  obtain ⟨n, hn, hpassed, hend, hread⟩ := atoi_ends hatoi
  by_cases hlow : (mem first).toNat < 128
  · -- The first loop ends where the blanks end.
    obtain rfl : first = n := by
      refine first_unique (φ := fun j => Passed (mem j)) hfirst
        (fun j hij hj => passed_iff.mpr (Or.inl (hlayout.blanks j hij hj))) ?_ hn hpassed hend
      intro hfirst'
      rcases passed_iff.mp hfirst' with hblank | hhigh
      · exact hlayout.not_blank hblank
      · omega
    rcases hread with ⟨hnul, -⟩ | ⟨hle, hstops⟩
    · exact Or.inl hnul
    · rw [← hlayout.sign] at hle
      rcases Nat.eq_or_lt_of_le hlast with rfl | hlt
      · exact Or.inr ⟨hlow, hstops⟩
      · have hdigit := isDigit_iff.mp (hlayout.run last hle hlt)
        have hbehind := hstops.behind
        omega
  · -- Otherwise it goes on behind the place where the number was to end.
    have hhigh : Passed (mem first) := passed_iff.mpr (Or.inr (by omega))
    have hnone : stop = first := by
      have hsign : ¬isSign (mem first) := by
        rintro (hminus | hplus)
        · rw [hminus] at hlow
          exact hlow (by decide)
        · rw [hplus] at hlow
          exact hlow (by decide)
      have hplace := hlayout.sign
      rw [if_neg hsign] at hplace
      by_contra hne
      have hdigit := isDigit_iff.mp (hlayout.run first (by omega) (by omega))
      omega
    have hbeyond : first < n := by
      by_contra hle
      rcases Nat.eq_or_lt_of_le (not_lt.mp hle) with rfl | hlt
      · exact hend hhigh
      · exact hend (passed_iff.mpr (Or.inl (hlayout.blanks n hn hlt)))
    have hlast' : n ≤ last := by
      rcases hread with ⟨-, rfl⟩ | ⟨hle, -⟩
      · exact Nat.le_refl _
      · split_ifs at hle
        · omega
        · exact hle
    omega

/-- `atoi` parses a string that ends when, and only when, its layout is plain. -/
theorem atoi_parses_iff (hik : i ≤ k) (hk : k < i + SEGMENT) (hnul : mem k = 0) :
    (∃ n last, atoi mem i = .ok (n, last) ∧ Parses mem i n last) ↔ Plain mem i := by
  constructor
  · rintro ⟨n, last, hatoi, hparses⟩
    exact hparses.plain hatoi
  · rintro ⟨first, start, stop, hlayout, hplain⟩
    obtain ⟨_, _, stop', hlayout', -, hstop⟩ := exists_layout hik hnul
    obtain ⟨-, -, rfl⟩ := hlayout.unique hlayout'
    exact ⟨_, stop, hlayout.atoi_eq hplain (by omega), first, start, stop, hlayout, rfl,
      Nat.le_refl stop⟩

/-- A memory that begins with a text. -/
def text (l : List UInt8) (i : Nat) : UInt8 :=
  l.getD i 0

/-- The parameter of `ESC [ 7 A`. -/
def seven : Nat → UInt8 :=
  text [ascii '7', ascii 'A']

theorem atoi_parses_iff_seven :
    ∃ n last, atoi seven 0 = .ok (n, last) ∧ Parses seven 0 n last :=
  (atoi_parses_iff (k := 2) (by decide) (by decide) (by decide)).mpr
    ⟨0, 0, 1, ⟨by decide, by decide, by decide, by decide, by decide, by decide, by decide⟩,
      Or.inr ⟨by decide, by decide, by decide⟩⟩

/-- The parameter of `ESC [ 5 blank 3 A`. -/
def fiveBlankThree : Nat → UInt8 :=
  text [ascii '5', ascii ' ', ascii '3', ascii 'A']

theorem atoi_fiveBlankThree :
    atoi fiveBlankThree 0 = .ok (343, 3) ∧
      ¬∃ n last, atoi fiveBlankThree 0 = .ok (n, last) ∧ Parses fiveBlankThree 0 n last := by
  have hskip (fuel : Nat) : skipBlanks fiveBlankThree (fuel + 1) 0 = .ok 0 := by
    rw [skipBlanks, if_neg (by decide)]
  have hdigits (fuel : Nat) : digits fiveBlankThree (fuel + 4) 0 0 = .ok (343, 3) := by
    rw [digits, if_pos (by decide), digits, if_pos (by decide), digits, if_pos (by decide),
      digits, if_neg (by decide)]
    have hvalue : int16 (int16 (int16 (0 * 10 + (signed (fiveBlankThree 0) - 48)) * 10 +
        (signed (fiveBlankThree 1) - 48)) * 10 + (signed (fiveBlankThree 2) - 48)) = 343 := by
      decide +kernel
    rw [hvalue]
  have hatoi : atoi fiveBlankThree 0 = .ok (343, 3) := by
    have hsegment : SEGMENT = 65535 + 1 := rfl
    have hsegment' : SEGMENT = 65532 + 4 := rfl
    have hdigits' := hdigits 65532
    rw [← hsegment'] at hdigits'
    unfold atoi
    rw [hsegment, hskip 65535, ← hsegment]
    simp only [bind, Except.bind]
    rw [if_neg (by decide), if_neg (by decide), hdigits']
    rfl
  have hlayout : Layout fiveBlankThree 0 0 0 1 :=
    ⟨by decide, by decide, by decide, by decide, by decide, by decide, by decide⟩
  refine ⟨hatoi, ?_⟩
  rintro ⟨n, last, heq, first, start, stop, hlayout', -, hlast⟩
  obtain ⟨-, -, rfl⟩ := hlayout.unique hlayout'
  rw [hatoi] at heq
  obtain ⟨-, rfl⟩ := Prod.mk.inj (Except.ok.inj heq)
  exact absurd hlast (by decide)

end Result

end Dircon
end Tty
end Elks
