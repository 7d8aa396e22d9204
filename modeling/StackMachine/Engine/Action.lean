import StackMachine.Engine.Report

/-!
# `StackMachine.Engine.Action`: what an engine can do

Each action here touches one part of the engine: a stack, the program counter, a sink, or the
program. Instructions are put together from them in `StackMachine.Engine.Execute`.

- `load` puts in a program and notes its number of words.
- `fetch` reads the word at the program counter and moves on; `fetchMany` repeats it. The address
  is checked against the noted number, and the program is then read without another check.
- `jump` checks an address against the same number.
- `operand` is looked up only when it is needed.
- `trace` writes a line even when the engine does not trace.
-/

set_option autoImplicit false

namespace StackMachine.Engine

/-! ### The stacks -/

/-- Push a value on the operand stack. -/
def push (v : Int) : Action Unit := fun e =>
  match e.operands.push v with
  | .ok s => .ok () { e with operands := s }
  | .error f => .error f e

/-- Pop a value from the operand stack. -/
def pop : Action Int := fun e =>
  match e.operands.pop with
  | .ok (v, s) => .ok v { e with operands := s }
  | .error f => .error f e

/-- Push an address on the return stack. -/
def pushReturn (address : Int) : Action Unit := fun e =>
  match e.returns.push address with
  | .ok s => .ok () { e with returns := s }
  | .error f => .error f e

/-- Pop an address from the return stack. -/
def popReturn : Action Int := fun e =>
  match e.returns.pop with
  | .ok (v, s) => .ok v { e with returns := s }
  | .error f => .error f e

/-! ### The sinks -/

/-- Write one character. -/
def emit (c : Char) : Action Unit := fun e =>
  match e.output.write c with
  | some s => .ok () { e with output := s }
  | none => .error .outputRefused e

/-- Write a line about the instruction that `text` describes. -/
def trace (text : String) : Action Unit := fun e =>
  match e.monitor.lines.write (e.line text) with
  | some s => .ok () { e with monitor := { e.monitor with lines := s } }
  | none => .error .traceRefused e

/-! ### The program -/

/-- Replace the program, and note its number of words. An empty program is refused, and the old
one stays with its number. Nothing else changes. -/
def load (vs : List Int) : Action Unit := fun e =>
  match Program.ofInts vs with
  | .ok p => .ok () { e with program := some p, size := p.size }
  | .error f => .error f e

/-- The word at the program counter, which moves on before the word is read. If the noted number
were too large, there would be no word to read behind the check. -/
def fetch : Action Int := fun e =>
  if e.pc < 0 ∨ e.size ≤ e.pc then .error (.outOfBounds e.pc) e
  else
    let next := { e with pc := e.pc + 1 }
    match e.program with
    | none => .error (.missingWord e.pc) next
    | some p =>
      match p.read e.pc with
      | .ok w => .ok w next
      | .error f => .error f next

/-- The next `n` words. After a refusal the program counter stays behind the words read. -/
def fetchMany : Nat → Action (List Int)
  | 0 => pure []
  | n + 1 => do
    let w ← fetch
    let ws ← fetchMany n
    pure (w :: ws)

/-- The next `n` words for any integer `n`, none if it is negative. The words are returned;
they do not become the operands of the present instruction. -/
def loadParams (n : Int) : Action (List Int) := fetchMany n.toNat

/-- Go to an address of the program. -/
def jump (address : Int) : Action Unit := fun e =>
  if address < 0 ∨ e.size ≤ address then .error (.jumpOutOfBounds address) e
  else .ok () { e with pc := address }

/-- The first operand of the present instruction. -/
def operand : Action Int := fun e =>
  match e.params with
  | v :: _ => .ok v e
  | [] => .error .missingOperand e

end StackMachine.Engine
