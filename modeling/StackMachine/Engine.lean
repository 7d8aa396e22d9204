import StackMachine.Instr
import StackMachine.Program
import StackMachine.Sink
import StackMachine.Stack

/-!
# `StackMachine.Engine`: the state of an engine

An engine holds a program, a stack of operands and a stack of return addresses, and it writes
characters to a sink. A monitor watches it: while tracing is on, the engine tells the monitor
about every instruction before the instruction takes effect.

- `Phase` says what the engine is doing.
- `Monitor` is the watcher: a flag, and a sink for lines.
- `Engine` is the state. Beside the program it holds the number of words that was noted when the
  program was loaded, and addresses are checked against that number alone.
- `Engine.ofStacks` builds a fresh engine around two stacks, and `Engine.new` one with stacks of
  given capacities, where memory has room for them.
- `Action` is the type of everything that an engine can do: it may be refused, and a refusal
  leaves the state as it was at that moment. Nothing is rolled back.
-/

set_option autoImplicit false

namespace StackMachine

/-- What an engine is doing. -/
inductive Phase where
  | fetching
  | executing
  | halted
  | errored
  deriving DecidableEq, Repr

/-- The name of a phase. -/
def Phase.label : Phase → String
  | .fetching => "fetching"
  | .executing => "executing"
  | .halted => "halted"
  | .errored => "errored"

/-- The watcher of an engine. -/
structure Monitor where
  /-- Whether the monitor wants to be told about every instruction. -/
  live : Bool
  /-- Where trace lines go, each without its line end. -/
  lines : Sink String

/-- The state of an engine. -/
structure Engine where
  program : Option Program
  /-- The number of words that was noted when the program was loaded. Nothing in the type says that
  it is the right one. -/
  size : Nat
  operands : Stack
  returns : Stack
  /-- The address of the next word to fetch. Assignments may put any integer here. -/
  pc : Int
  /-- The address at which the latest instruction of a run began. -/
  origin : Int
  opcode : Int
  /-- The operand words of the present instruction. -/
  params : List Int
  phase : Phase
  output : Sink Char
  monitor : Monitor
  /-- Whether instructions are traced. This is the flag of the monitor as it was when the
  engine was built; later changes of the flag do not reach it. -/
  tracing : Bool

/-- Something that an engine does. -/
abbrev Action (α : Type) := EStateM Fault Engine α

namespace Engine

/-- The number of slots of each stack unless a caller says otherwise. -/
def defaultCapacity : Int := 1024

/-- A fresh engine without a program. -/
def ofStacks (output : Sink Char) (monitor : Monitor) (operands returns : Stack) : Engine where
  program := none
  size := 0
  operands := operands
  returns := returns
  pc := 0
  origin := 0
  opcode := Instr.halt.opcode
  params := []
  phase := .fetching
  output := output
  monitor := monitor
  tracing := monitor.live

/-- A fresh engine with stacks of given capacities. That of the operand stack is looked at
first. -/
def new (output : Sink Char) (monitor : Monitor) (operandCapacity returnCapacity : Int)
    (memory : Memory := .unlimited) : Except Fault Engine := do
  let operands ← Stack.ofCapacity operandCapacity memory
  let returns ← Stack.ofCapacity returnCapacity memory
  pure (ofStacks output monitor operands returns)

/-- A fresh engine can have stacks of any numbers of slots that memory has room for. Nothing else
can keep it from being made. -/
theorem new_of_hasRoom {output : Sink Char} {monitor : Monitor} {c r : Nat} {memory : Memory}
    (hc : memory.hasRoom c) (hr : memory.hasRoom r) :
    new output monitor c r memory
      = .ok (ofStacks output monitor (Stack.empty c) (Stack.empty r)) := by
  unfold new
  rw [Stack.ofCapacity_of_hasRoom hc, Stack.ofCapacity_of_hasRoom hr]
  rfl

end Engine

end StackMachine
