import StackMachine.Index
import StackMachine.Text.Numeral

/-!
# `StackMachine.Fault`: why a call is refused

- `Fault` lists the causes for which the machine, its stacks, or the program encoding refuse
  a call, with the values that their wording needs.
- `Fault.message` is the wording. The integers in it are shown with all their digits; a limit on
  them that a host may set is left out (see `StackMachine.Text.Numeral`).
- `ErrorKind` is the taxonomy to which most causes belong. `ErrorKind.ancestors` gives the
  broader kinds of a kind, nearest first.
- `Fault.kind?` classifies a cause. The causes outside the taxonomy are a capacity that no
  stack has, a count that memory does not reach, a missing operand or word, and a refusal by a
  sink. A run marks the machine as errored only for a cause inside it.
-/

set_option autoImplicit false

namespace StackMachine

/-- The kinds of error, from the broadest to the single causes. -/
inductive ErrorKind where
  /-- Every error of the taxonomy. -/
  | any
  /-- Errors of the engine and its program. -/
  | engine
  /-- Errors of a bounded stack. -/
  | stack
  /-- Errors met while a program is loaded from outside. -/
  | loader
  | outOfBounds
  | jumpOutOfBounds
  | unknownOpcode
  | emptyProgram
  | stackOverflow
  | stackUnderflow
  | malformedEncoding
  deriving DecidableEq, Repr

/-- The kinds that include a kind, nearest first. -/
def ErrorKind.ancestors : ErrorKind → List ErrorKind
  | .any => []
  | .engine | .stack | .loader => [.any]
  | .outOfBounds | .jumpOutOfBounds | .unknownOpcode | .emptyProgram => [.engine, .any]
  | .stackOverflow | .stackUnderflow => [.stack, .any]
  | .malformedEncoding => [.loader, .any]

/-- A cause for which a call is refused. -/
inductive Fault where
  /-- A push on a stack without a free slot. -/
  | stackOverflow
  /-- A pop from an empty stack. -/
  | stackUnderflow
  /-- A fetch at an address outside the program. -/
  | outOfBounds (pc : Int)
  /-- A jump to an address outside the program. -/
  | jumpOutOfBounds (target : Int)
  /-- An opcode that names no instruction. -/
  | unknownOpcode (opcode : Int)
  /-- A program without words. -/
  | emptyProgram
  /-- A byte count that no program has. -/
  | badLength (size : Int)
  /-- A stream that ended before the bytes asked for. -/
  | shortRead (expected got : Int)
  /-- A stack asked for with fewer than no slots. -/
  | negativeCapacity
  /-- A number of slots or bytes asked for that cannot index memory. -/
  | countTooLarge
  /-- A stack asked for with more slots than memory holds. -/
  | outOfMemory
  /-- An instruction executed without the operand it needs. -/
  | missingOperand
  /-- A word read at an index where the program has none. -/
  | missingWord (index : Int)
  /-- The output sink did not take a character. -/
  | outputRefused
  /-- The trace stream did not take a line. -/
  | traceRefused
  deriving DecidableEq, Repr

namespace Fault

/-- The kind of a cause, if it belongs to the taxonomy. -/
def kind? : Fault → Option ErrorKind
  | stackOverflow => some .stackOverflow
  | stackUnderflow => some .stackUnderflow
  | outOfBounds _ => some .outOfBounds
  | jumpOutOfBounds _ => some .jumpOutOfBounds
  | unknownOpcode _ => some .unknownOpcode
  | emptyProgram => some .emptyProgram
  | badLength _ | shortRead _ _ => some .malformedEncoding
  | negativeCapacity | countTooLarge | outOfMemory => none
  | missingOperand | missingWord _ | outputRefused | traceRefused => none

/-- The message for an opcode that names no instruction, given how the opcode is shown. -/
def unknownOpcodeMessage (shown : String) : String := "Unknown opcode " ++ shown

/-- The wording of a cause. A missing operand is spoken of as an index into the list of
operands, and a missing word as an index into the tuple of words. Memory that ran out leaves
nothing to say. -/
def message : Fault → String
  | stackOverflow => "Stack overflow"
  | stackUnderflow => "Stack underflow"
  | outOfBounds pc => "Program counter " ++ Numeral.decimal pc ++ " out of bounds"
  | jumpOutOfBounds target => "Jump to " ++ Numeral.decimal target ++ " out of bounds"
  | unknownOpcode opcode => unknownOpcodeMessage (Numeral.decimal opcode)
  | emptyProgram => "Empty program"
  | badLength size => "Bad program length " ++ Numeral.decimal size
  | shortRead expected got =>
    "Expected " ++ Numeral.decimal expected ++ " bytes, read " ++ Numeral.decimal got
  | negativeCapacity => "Stack size cannot be negative"
  | countTooLarge => Index.tooLarge
  | outOfMemory => ""
  | missingOperand => "list index out of range"
  | missingWord index =>
    if Index.fits index then "tuple index out of range" else Index.tooLarge
  | outputRefused => "output full"
  | traceRefused => "trace full"

/-- Whether a cause belongs to the taxonomy. -/
def isClassified (f : Fault) : Bool := f.kind?.isSome

end Fault

end StackMachine
