/-!
# `StackMachine.Text.Numeral`: writing integers in a base

- `signed base v` writes the digits of `v`, after a minus sign if `v` is negative.
- `padded base width v` fills up with zeros after the sign; the sign counts in the width.
- `decimal`, `hexPadded` and `hexWord` are the three forms that reports use.

Digits beyond nine are lower-case letters.

Numerals are written with all their digits, however many there are. A host may be set to refuse to
write integers of thousands of digits; that is a setting of the host, which no report depends on
otherwise, and it is not modelled. The limit for numerals that are read is, since the command line
refuses by it: `Capacity.digitLimit`.
-/

set_option autoImplicit false

namespace StackMachine.Numeral

/-- An integer in a base, with a minus sign in front of a negative one. -/
def signed (base : Nat) (v : Int) : List Char :=
  if v < 0 then '-' :: Nat.toDigits base v.natAbs else Nat.toDigits base v.natAbs

/-- An integer in a base, filled up with zeros to a width. The zeros stand between the sign and
the digits, and the sign counts in the width. A longer numeral is not cut. -/
def padded (base width : Nat) (v : Int) : List Char :=
  let digits := Nat.toDigits base v.natAbs
  if v < 0 then '-' :: (List.replicate (width - 1 - digits.length) '0' ++ digits)
  else List.replicate (width - digits.length) '0' ++ digits

/-- An integer in decimal. -/
def decimal (v : Int) : String := String.ofList (signed 10 v)

/-- An integer in hexadecimal, at least eight characters wide after the mark `0x`. -/
def hexPadded (v : Int) : String := "0x" ++ String.ofList (padded 16 8 v)

/-- The residue of an integer modulo `2^32` as eight hexadecimal digits after the mark `0x`. -/
def hexWord (v : Int) : String := hexPadded (v % 0x100000000)

end StackMachine.Numeral
