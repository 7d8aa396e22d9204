/-!
# `StackMachine.Index`: what memory can count

Slots, bytes and words in memory are counted with signed integers of 64 bits. A count or a
position beyond them is refused in words of its own, by which it is told apart from one that
memory merely has no room for.

- `Index.fits` says which integers can index memory.
- `Index.tooLarge` is the wording for all others.
-/

set_option autoImplicit false

namespace StackMachine.Index

/-- The greatest index. -/
def greatest : Int := 0x7FFFFFFFFFFFFFFF

/-- The least index. -/
def least : Int := -0x8000000000000000

/-- Whether an integer can index memory. -/
def fits (v : Int) : Bool := least ≤ v && v ≤ greatest

/-- The wording about an integer that cannot index memory. -/
def tooLarge : String := "cannot fit 'int' into an index-sized integer"

end StackMachine.Index
