/-!
# `StackMachine.Text.CodeRange`: sets of characters as ranges of code points

A class of characters is a list of closed ranges, ascending and apart.

- `CodeRange.has` is membership of a character.
- `CodeRange.ascending` checks the order that a table keeps, and `CodeRange.count` is its size.
  Beside every table an example evaluates both, so that a slip in its numbers does not go unseen.
-/

set_option autoImplicit false

namespace StackMachine

/-- The code points from `first` to `last`, both included. -/
structure CodeRange where
  first : Nat
  last : Nat
  deriving DecidableEq, Repr

namespace CodeRange

/-- Whether a character lies in one of the ranges. -/
def has (ranges : List CodeRange) (c : Char) : Bool :=
  ranges.any fun r => r.first ≤ c.toNat && c.toNat ≤ r.last

/-- Whether ranges are nonempty, ascending, and not adjacent. -/
def ascending : List CodeRange → Bool
  | [] => true
  | [r] => r.first ≤ r.last
  | r :: s :: rest => r.first ≤ r.last && r.last + 1 < s.first && ascending (s :: rest)

/-- The number of code points in the ranges. -/
def count (ranges : List CodeRange) : Nat :=
  ranges.foldl (fun n r => n + (r.last + 1 - r.first)) 0

end CodeRange

end StackMachine
