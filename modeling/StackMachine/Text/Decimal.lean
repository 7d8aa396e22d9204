import StackMachine.Text.Numeral

/-!
# `StackMachine.Text.Decimal`: floating point numbers as text

A floating point number is written with the fewest digits that read back as the same number.
Of several such texts the nearest to its exact value is taken, and of two equally near ones
the one whose last digit is even.

- `Decimal` is a natural number times a power of ten. `toFloat` reads it, and `magnitude` is the
  value of a finite number without any rounding.
- `shortest` finds the digits.
- `ofFloat` writes a number. The point stands among the digits while it is not too far to
  either side of them; otherwise a power of ten follows.
- `integer?` is the integer that a number is, if it is one.
-/

set_option autoImplicit false

namespace StackMachine

/-- The number `digits * 10 ^ exponent`. -/
structure Decimal where
  digits : Nat
  exponent : Int
  deriving DecidableEq, Repr

namespace Decimal

/-- How many digits there are. Zero has one. -/
def length (d : Decimal) : Nat := (Nat.toDigits 10 d.digits).length

/-- Where the point stands, counted in digits from the left. -/
def point (d : Decimal) : Int := d.length + d.exponent

/-! ### Reading -/

/-- Beyond this many places to the left every number is infinite, and beyond as many to the
right every number is zero. -/
def reach : Int := 400

/-- The nearest floating point number. -/
def toFloat (d : Decimal) : Float :=
  if d.digits = 0 ∨ d.point < -reach then 0
  else if reach < d.point then Float.ofScientific 1 false reach.toNat
  else Float.ofScientific d.digits (d.exponent < 0) d.exponent.natAbs

/-! ### The parts of a floating point number -/

/-- Whether a number is below zero, or is the zero with a minus sign. -/
def isNegative (x : Float) : Bool := x.toBits >>> 63 == 1

/-- The field of the exponent. -/
def exponentField (x : Float) : Nat := ((x.toBits >>> 52) &&& 0x7FF).toNat

/-- The field of the fraction. -/
def fractionField (x : Float) : Nat := (x.toBits &&& 0xFFFFFFFFFFFFF).toNat

/-- Whether a number is neither infinite nor undefined. -/
def isFinite (x : Float) : Bool := exponentField x ≠ 0x7FF

/-- The decimal `m * 2 ^ q`. -/
def ofBinary (m : Nat) (q : Int) : Decimal :=
  if m = 0 then ⟨0, 0⟩
  else if q < 0 then ⟨m * Nat.pow 5 q.natAbs, q⟩
  else ⟨m * Nat.pow 2 q.natAbs, 0⟩

/-- The exact magnitude of a finite number. -/
def magnitude (x : Float) : Decimal :=
  if exponentField x = 0 then ofBinary (fractionField x) (-1074)
  else ofBinary (0x10000000000000 + fractionField x) ((exponentField x : Int) - 1075)

/-- The integer that a number is. -/
def integer? (x : Float) : Option Int :=
  let d := magnitude x
  let unit := Nat.pow 10 d.exponent.natAbs
  if ¬ isFinite x ∨ d.digits % unit ≠ 0 then none
  else some (if isNegative x then -((d.digits / unit : Nat) : Int) else (d.digits / unit : Nat))

/-! ### The fewest digits -/

/-- The two decimals with `n` digits around a decimal, the nearer one first. -/
def around (d : Decimal) (n : Nat) : List Decimal :=
  let dropped := d.length - n
  let unit := Nat.pow 10 dropped
  let below : Decimal := ⟨d.digits / unit, d.exponent + dropped⟩
  let above : Decimal := ⟨d.digits / unit + 1, d.exponent + dropped⟩
  let rest := 2 * (d.digits % unit)
  if rest < unit ∨ (rest = unit ∧ below.digits % 2 = 0) then [below, above] else [above, below]

/-- Whether a decimal reads back as the magnitude of a number. -/
def readsBack (x : Float) (d : Decimal) : Bool := d.toFloat.toBits == x.abs.toBits

/-- The decimal with the fewest digits that reads back as the magnitude of a finite number. -/
def shortest (x : Float) : Decimal :=
  let d := magnitude x
  ((List.range d.length).findSome? fun n => (d.around (n + 1)).find? (readsBack x)).getD d

/-! ### Writing -/

/-- Digits with the point among them. There is at least one digit on either side. -/
def plain (digits : List Char) (point : Int) : List Char :=
  if point ≤ 0 then '0' :: '.' :: (List.replicate point.natAbs '0' ++ digits)
  else
    let whole := digits.take point.toNat
    let fraction := digits.drop point.toNat
    whole ++ List.replicate (point.toNat - whole.length) '0' ++
      '.' :: (if fraction = [] then ['0'] else fraction)

/-- Digits with the point after the first one, and a power of ten. -/
def scientific (digits : List Char) (power : Int) : List Char :=
  let fraction := digits.drop 1
  digits.take 1 ++ (if fraction = [] then [] else '.' :: fraction) ++
    'e' :: (if power < 0 then '-' else '+') :: Numeral.padded 10 2 power.natAbs

/-- A decimal without the zeros at its end. -/
def write (d : Decimal) : List Char :=
  let digits := ((Nat.toDigits 10 d.digits).reverse.dropWhile (· = '0')).reverse
  if -4 < d.point ∧ d.point ≤ 16 then plain digits d.point
  else scientific digits (d.point - 1)

/-- A floating point number as text. -/
def ofFloat (x : Float) : String :=
  if x.isNaN then "nan"
  else
    (if isNegative x then "-" else "") ++
      (if isFinite x then String.ofList (shortest x).write else "inf")

end Decimal

end StackMachine
