import StackMachine.Text.CodeRange

/-!
# `StackMachine.Text.Blank`: white space

The characters with the Unicode property White_Space, which may surround a numeral.

- `isBlank` is the class.
- `trim` drops blanks from both ends.
-/

set_option autoImplicit false

namespace StackMachine.Blank

/-- The white space of Unicode 14.0. -/
def ranges : List CodeRange :=
  [⟨0x9, 0xD⟩, ⟨0x20, 0x20⟩, ⟨0x85, 0x85⟩, ⟨0xA0, 0xA0⟩, ⟨0x1680, 0x1680⟩,
   ⟨0x2000, 0x200A⟩, ⟨0x2028, 0x2029⟩, ⟨0x202F, 0x202F⟩, ⟨0x205F, 0x205F⟩, ⟨0x3000, 0x3000⟩]

/-- The table is in order, and it lists the 25 characters of the property. -/
example : CodeRange.ascending ranges = true ∧ CodeRange.count ranges = 25 := by decide

/-- Whether a character is white space. -/
def isBlank (c : Char) : Bool := CodeRange.has ranges c

/-- A text without the white space at its two ends. -/
def trim (cs : List Char) : List Char :=
  ((cs.dropWhile isBlank).reverse.dropWhile isBlank).reverse

end StackMachine.Blank
