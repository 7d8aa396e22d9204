/-!
# `StackMachine.Word`: signed 32-bit words

A word is an integer in `[-2^31, 2^31 - 1]`. Programs are made of words and addition yields
words, while a host may put any integer on a stack. Values are therefore plain integers,
and `wrap` folds one back into the range.

- `wrap v` is the word congruent to `v` modulo `2^32`.
- `add a b` is the wrapped sum.
- `toChar w` is the character with code point `w`, or U+FFFD when there is none.
-/

set_option autoImplicit false

namespace StackMachine.Word

/-- The number of bytes that hold a word. -/
def byteCount : Nat := 4

/-- The number of bits that hold a word. -/
def bitCount : Nat := 8 * byteCount

/-- The number of words. -/
def modulus : Int := Int.pow 2 bitCount

/-- The least word. -/
def least : Int := -Int.pow 2 (bitCount - 1)

/-- The greatest word. -/
def greatest : Int := Int.pow 2 (bitCount - 1) - 1

/-- The name of the byte order in which words are stored: most significant byte first. -/
def byteOrder : String := "big"

/-- An integer that is a word. -/
def InRange (v : Int) : Prop := least ≤ v ∧ v ≤ greatest

instance (v : Int) : Decidable (InRange v) := inferInstanceAs (Decidable (_ ∧ _))

/-- The word to which an integer wraps around. The residue modulo `2^32` is itself a word in
its lower half; the upper half stands for the negative words. -/
def wrap (v : Int) : Int :=
  if v % modulus ≤ greatest then v % modulus else v % modulus - modulus

/-- Addition of words wraps around instead of failing. -/
def add (a b : Int) : Int := wrap (a + b)

/-- The character written for a word. A word that is no code point of a character (negative,
a surrogate, or beyond U+10FFFF) is written as U+FFFD. -/
def toChar (w : Int) : Char :=
  if 0 ≤ w ∧ w.toNat.isValidChar then Char.ofNat w.toNat else '\uFFFD'

/-! ### Wrapping -/

/-- The number of words, written out. `modulus` is a power by definition, which `omega` does not
read. -/
theorem modulus_eq : modulus = 4294967296 := rfl

/-- The least word, written out. -/
theorem least_eq : least = -2147483648 := rfl

/-- The greatest word, written out. -/
theorem greatest_eq : greatest = 2147483647 := rfl

/-- Wrapping always lands in range, so every word of a program and every sum is a word. Nothing is
asked of the integer. -/
theorem wrap_inRange (v : Int) : InRange (wrap v) := by
  simp only [InRange, wrap]
  rw [modulus_eq, least_eq, greatest_eq]
  split <;> omega

/-- A word wraps to itself. Together with `wrap_inRange`: the words are exactly what wrapping
yields. -/
theorem wrap_eq_self {v : Int} (h : InRange v) : wrap v = v := by
  simp only [InRange] at h
  simp only [wrap]
  rw [modulus_eq, greatest_eq]
  rw [least_eq, greatest_eq] at h
  split <;> omega

/-- Wrapping an integer and wrapping its residue give the same word. -/
theorem wrap_emod (v : Int) : wrap (v % modulus) = wrap v := by
  unfold wrap
  rw [Int.emod_emod]

/-- A word has the residue of the integer that wraps to it. -/
theorem emod_wrap (v : Int) : wrap v % modulus = v % modulus := by
  unfold wrap
  split
  · rw [Int.emod_emod]
  · rw [Int.sub_emod_right, Int.emod_emod]

end StackMachine.Word
