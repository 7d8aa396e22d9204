import StackMachine.Text.Blank
import StackMachine.Text.DecimalDigit
import StackMachine.Text.Numeral
import StackMachine.Text.Quoted

/-!
# `StackMachine.Capacity`: stack capacities as text

A capacity on the command line is a decimal numeral that is not negative. White space may
surround it, a sign may precede it, its digits may come from any script, and one underscore
may stand between two digits. A limit on the number of digits may be set: a numeral with more
of them is not read. On the command line the limit is 4300 digits. It concerns the reading of
numerals alone: what a report writes has all its digits (see `StackMachine.Text.Numeral`).

- `Capacity.natural` reads the digits, and `Capacity.integer` a numeral.
- `Capacity.ofTextWithin` reads a capacity under any limit or none.
- `Capacity.ofText` reads a capacity on the command line.
- `CapacityError.message` words the refusals.
-/

set_option autoImplicit false

namespace StackMachine

/-- A reason why a text is no capacity. -/
inductive CapacityError where
  | notNumeral
  /-- A numeral with too many digits, and how many there are. -/
  | tooLong (count : Nat)
  | negative
  deriving DecidableEq, Repr

namespace Capacity

/-- The most digits of a numeral on the command line. -/
def digitLimit : Nat := 4300

/-- Whether a character may stand in a numeral after its sign. -/
def isFigure (c : Char) : Bool := DecimalDigit.isDigit c || c = '_'

/-- Whether every underscore stands between two digits. `afterDigit` says whether a digit came
last: only then may the text end, or an underscore come next. -/
def isGrouped (afterDigit : Bool) : List Char → Bool
  | [] => afterDigit
  | c :: rest =>
    if DecimalDigit.isDigit c then isGrouped true rest
    else c = '_' && afterDigit && isGrouped false rest

/-- The value of digits, the most significant first. -/
def value (digits : List Nat) : Nat := digits.foldl (fun acc d => 10 * acc + d) 0

/-- The value of a digit string, if it has no more digits than the limit. The digits are counted
before what follows them is looked at. -/
def natural (limit? : Option Nat) (cs : List Char) : Except CapacityError Nat :=
  let figures := cs.takeWhile isFigure
  let digits := figures.filterMap DecimalDigit.value?
  if ¬ isGrouped false figures then .error .notNumeral
  else if limit?.any (· < digits.length) then .error (.tooLong digits.length)
  else if figures.length < cs.length then .error .notNumeral
  else .ok (value digits)

/-- The value of a digit string after an optional sign. -/
def signed (limit? : Option Nat) : List Char → Except CapacityError Int
  | '-' :: digits => (natural limit? digits).map fun n : Nat => -(n : Int)
  | '+' :: digits => (natural limit? digits).map fun n : Nat => (n : Int)
  | digits => (natural limit? digits).map fun n : Nat => (n : Int)

/-- The value of a numeral that white space may surround. -/
def integer (limit? : Option Nat) (s : String) : Except CapacityError Int :=
  signed limit? (Blank.trim s.toList)

/-- The capacity that a text stands for, if it has no more digits than the limit. -/
def ofTextWithin (limit? : Option Nat) (s : String) : Except CapacityError Int :=
  match integer limit? s with
  | .error e => .error e
  | .ok v => if v < 0 then .error .negative else .ok v

/-- The capacity that a text on the command line stands for. -/
def ofText (s : String) : Except CapacityError Int := ofTextWithin (some digitLimit) s

/-- No capacity is negative, whatever the limit. A stack is therefore never refused for a capacity
that was read from the command line. -/
theorem nonneg_of_ofTextWithin {limit? : Option Nat} {s : String} {v : Int}
    (h : ofTextWithin limit? s = .ok v) : 0 ≤ v := by
  unfold ofTextWithin at h
  split at h
  · cases h
  · split at h
    · cases h
    · cases h
      omega

end Capacity

namespace CapacityError

/-- The most characters of a quoted text that the message about a wrong numeral shows. -/
def shownLimit : Nat := 200

/-- The wording of a refusal of the text `s`. -/
def message (s : String) : CapacityError → String
  | notNumeral =>
    "invalid literal for int() with base 10: " ++
      String.ofList ((Quoted.quoteList s.toList).take shownLimit)
  | tooLong count =>
    "Exceeds the limit (" ++ Numeral.decimal Capacity.digitLimit ++
      " digits) for integer string conversion: value has " ++ Numeral.decimal count ++
      " digits; use sys.set_int_max_str_digits() to increase the limit"
  | negative => "stack size cannot be negative: " ++ s

end CapacityError

end StackMachine
