import Mathlib.Data.Int.Bitwise
import Mathlib.Data.Int.ModEq
import StackMachine.Word

/-!
# `StackMachine.Proofs.Wrapping`: words stand for residues

Wrapping is arithmetic here: a remainder, shifted down if it is too large. On a machine it is a
matter of bits: all but the lowest are cut off, and the highest that is left decides on the sign.
The two are the same for every integer, however large, and also for a negative one, whose bits go
on without end.

- `land_two_pow_sub_one`: cutting off bits takes a remainder. `wrapBits_eq_wrap` is wrapping on
  bits.
- `Congruent` is equality of residues. `wrap_eq_iff`: every class has exactly one word, and wrapping
  finds it. `wrap_eq_wrap_iff`: so the word is a complete invariant of the class.
- `wrap_wrap_add`: a sum may be wrapped at any time. The laws of the addition of words are those of
  the addition of integers then.
- `wrap_projects_onto_words` puts these together.
-/

set_option autoImplicit false

namespace StackMachine.Word

/-- Two integers have the same residue modulo the number of words. -/
def Congruent (u v : Int) : Prop := u % modulus = v % modulus

/-! ### Bits -/

/-- The integer with the bits of a word set, and no others. -/
def mask : Int := modulus - 1

/-- The integer with the highest bit of a word set, and no others. -/
def signBit : Int := greatest + 1

/-- Wrapping on bits. Those beyond a word are cut off. If the highest one that is left is set, the
word is negative. -/
def wrapBits (v : Int) : Int :=
  let kept := Int.land v mask
  if Int.land kept signBit = 0 then kept else kept - modulus

/-- The lower bits of an integer are its remainder. For a negative one these are the bits of its
complement, reversed; the remainder is the one that is not negative. -/
theorem land_two_pow_sub_one (v : Int) (n : Nat) :
    Int.land v (2 ^ n - 1 : Nat) = v % (2 ^ n : Nat) := by
  cases v with
  | ofNat m =>
    show ((m &&& (2 ^ n - 1) : Nat) : Int) = m % (2 ^ n : Nat)
    rw [Nat.and_two_pow_sub_one_eq_mod, Int.natCast_mod]
  | negSucc m =>
    -- The bits of a negative integer are the opposites of those of `m`, and within the lower ones
    -- the opposite of a number is what is missing to the number with all of them set.
    have hlt : m % 2 ^ n < 2 ^ n := Nat.mod_lt m (Nat.two_pow_pos n)
    have hbits : Nat.ldiff (2 ^ n - 1) m = 2 ^ n - (m % 2 ^ n + 1) := by
      refine Nat.eq_of_testBit_eq fun i => ?_
      rw [Nat.testBit_ldiff, Nat.testBit_two_pow_sub_one, Nat.testBit_two_pow_sub_succ hlt,
        Nat.testBit_mod_two_pow]
      cases decide (i < n) <;> rfl
    have hpos : (0 : Int) < (2 ^ n : Nat) := Int.natCast_pos.mpr (Nat.two_pow_pos n)
    show ((Nat.ldiff (2 ^ n - 1) m : Nat) : Int) = _
    rw [hbits, Int.negSucc_emod m hpos, ← Int.natCast_mod]
    omega

/-- Of a number with `n + 1` bits, the highest is clear exactly if the number is in the lower half.
-/
private theorem and_two_pow_eq_zero_iff {n r : Nat} (h : r < 2 ^ (n + 1)) :
    r &&& 2 ^ n = 0 ↔ r < 2 ^ n := by
  rw [Nat.and_two_pow]
  by_cases hlt : r < 2 ^ n
  · rw [Nat.testBit_lt_two_pow hlt]
    simp [hlt]
  · rw [Nat.testBit_of_two_pow_le_and_two_pow_add_one_gt (Nat.le_of_not_lt hlt) h]
    simp [hlt]

/-- Cutting off what is beyond a word takes the residue, for negative integers too, whose bits go
on without an end. -/
private theorem land_mask (v : Int) : Int.land v mask = v % modulus := land_two_pow_sub_one v 32

/-- The sign bit of a residue is clear exactly if the residue is a word itself. Otherwise it stands
for a negative word, and the number of words is taken away. -/
private theorem land_signBit_eq_zero_iff {r : Int} (hpos : 0 ≤ r) (hlt : r < modulus) :
    Int.land r signBit = 0 ↔ r ≤ greatest := by
  obtain ⟨k, rfl⟩ := Int.eq_ofNat_of_zero_le hpos
  rw [modulus_eq] at hlt
  have hbound : k < 2 ^ (31 + 1) := by omega
  show ((k &&& 2 ^ 31 : Nat) : Int) = 0 ↔ (k : Int) ≤ greatest
  rw [Int.natCast_eq_zero, and_two_pow_eq_zero_iff hbound, greatest_eq]
  omega

/-- Wrapping on bits is wrapping, for every integer. So what follows about remainders is about
masks as well. -/
theorem wrapBits_eq_wrap (v : Int) : wrapBits v = wrap v := by
  have hpos : 0 ≤ v % modulus := Int.emod_nonneg v (by decide)
  have hlt : v % modulus < modulus := Int.emod_lt_of_pos v (by decide)
  unfold wrapBits wrap
  simp only [land_mask, land_signBit_eq_zero_iff hpos hlt]

-- One beyond either end, and the next integer in the class of zero.
example : [2147483648, -2147483649, 4294967296].map wrapBits = [-2147483648, 2147483647, 0] := by
  decide +kernel

/-! ### Classes -/

section

variable {u v w : Int}

/-- Integers wrap to the same word exactly if they are congruent modulo the number of words. This
is the sense in which wrapping is a projection. -/
theorem wrap_eq_wrap_iff : wrap u = wrap v ↔ Congruent u v := by
  constructor
  · intro h
    show u % modulus = v % modulus
    rw [← emod_wrap u, h, emod_wrap]
  · intro h
    rw [← wrap_emod u, show u % modulus = v % modulus from h, wrap_emod]

/-- The words are exactly the integers that wrap to themselves. -/
private theorem wrap_eq_self_iff : wrap v = v ↔ InRange v := by
  constructor
  · intro h
    rw [← h]
    exact wrap_inRange v
  · exact wrap_eq_self

/-- There is one word in the class of an integer, the one to which it wraps. A bound and a residue
are enough to recognise it. -/
theorem wrap_eq_iff : wrap v = w ↔ InRange w ∧ Congruent w v := by
  constructor
  · rintro rfl
    exact ⟨wrap_inRange v, emod_wrap v⟩
  · rintro ⟨hw, hcongruent⟩
    rw [← wrap_eq_wrap_iff.mpr hcongruent, wrap_eq_self hw]

/-- The range of words, written out. -/
private theorem inRange_iff : InRange v ↔ -2 ^ 31 ≤ v ∧ v ≤ 2 ^ 31 - 1 := by
  unfold InRange
  rw [least_eq, greatest_eq]
  omega

/-- Congruence is that of the library, modulo the number of words. -/
private theorem congruent_iff : Congruent u v ↔ u ≡ v [ZMOD 2 ^ 32] := by
  unfold Congruent
  rw [modulus_eq]
  rfl

end

/-! ### Sums -/

/-- A summand may be wrapped before. The laws of the addition of words come down to this one. -/
theorem wrap_wrap_add (u v : Int) : wrap (wrap u + v) = wrap (u + v) := by
  refine wrap_eq_wrap_iff.mpr ?_
  show (wrap u + v) % modulus = (u + v) % modulus
  rw [Int.add_emod, emod_wrap, ← Int.add_emod]

/-- The order of the summands does not matter, as for integers. -/
protected theorem add_comm (a b : Int) : add a b = add b a := congrArg wrap (Int.add_comm a b)

/-- The first summand may be wrapped before it is added. -/
private theorem add_wrap_left (a b : Int) : add (wrap a) b = add a b := wrap_wrap_add a b

/-- So may the second. -/
private theorem add_wrap_right (a b : Int) : add a (wrap b) = add a b := by
  rw [Word.add_comm, add_wrap_left, Word.add_comm]

/-- Three summands may be added in either grouping. The inner sum is wrapped in both, and wrapping
it makes no difference. -/
protected theorem add_assoc (a b c : Int) : add (add a b) c = add a (add b c) :=
  calc add (wrap (a + b)) c
    _ = wrap (a + b + c) := add_wrap_left (a + b) c
    _ = wrap (a + (b + c)) := by rw [Int.add_assoc]
    _ = add a (wrap (b + c)) := (add_wrap_right a (b + c)).symm

/-- Adding zero wraps. So it changes nothing exactly for words. -/
protected theorem add_zero (a : Int) : add a 0 = wrap a := congrArg wrap (Int.add_zero a)

/-- The opposite of an integer is one of its word as well. -/
private theorem add_neg_self (a : Int) : add a (-a) = 0 := by
  unfold add
  rw [Int.add_right_neg]
  exact wrap_eq_self (by decide)

/-- Wrapping is the projection of the integers onto the words, and the addition of words is the
addition of classes. Words are the integers from `-2^31` to `2^31 - 1`, and classes are those modulo
`2^32`.

- An integer wraps to the one word in its class, which the masks find as well. So the words are the
  integers that wrap to themselves, integers wrap to the same word exactly if they are congruent,
  and wrapping once more changes nothing.
- The sum of integers as words is the sum of the words to which they wrap, and is the word of their
  exact sum. This addition is commutative and associative. Adding zero wraps, and adding the
  opposite gives zero. -/
theorem wrap_projects_onto_words :
    ((∀ v, InRange v ↔ -2 ^ 31 ≤ v ∧ v ≤ 2 ^ 31 - 1) ∧
      ∀ u v, Congruent u v ↔ u ≡ v [ZMOD 2 ^ 32]) ∧
    ((∀ v w, wrap v = w ↔ InRange w ∧ Congruent w v) ∧
      (∀ v, wrapBits v = wrap v) ∧
      (∀ v, wrap v = v ↔ InRange v) ∧
      (∀ u v, wrap u = wrap v ↔ Congruent u v) ∧
      ∀ v, wrap (wrap v) = wrap v) ∧
    (∀ a b, add a b = add (wrap a) (wrap b) ∧ add a b = wrap (a + b)) ∧
    (∀ a b, add a b = add b a) ∧
    (∀ a b c, add (add a b) c = add a (add b c)) ∧
    (∀ a, add a 0 = wrap a) ∧
    ∀ a, add a (-a) = 0 := by
  refine ⟨⟨fun v => inRange_iff, fun u v => congruent_iff⟩,
    ⟨fun v w => wrap_eq_iff, wrapBits_eq_wrap, fun v => wrap_eq_self_iff,
      fun u v => wrap_eq_wrap_iff, fun v => wrap_eq_self (wrap_inRange v)⟩,
    fun a b => ⟨?_, rfl⟩, Word.add_comm, Word.add_assoc, Word.add_zero, add_neg_self⟩
  rw [add_wrap_left, add_wrap_right]

end StackMachine.Word
