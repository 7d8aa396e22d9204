import StackMachine.Engine.Action

/-!
# `StackMachine.Engine.Execute`: the effects of the instructions

- `announce` traces an instruction, if the engine traces.
- `effect` is what an instruction does after it was announced.
- `decodeExec` executes the present opcode with the present operands, and `execute` sets both
  first.

Effects are not transactions. An addition that finds one item has consumed it, and a call to
an invalid address has pushed its return address.
-/

set_option autoImplicit false

namespace StackMachine.Engine

/-- The description of an instruction in a trace: its name, and its operand if it has one. -/
def describe (i : Instr) : Action String :=
  if i.arity = 0 then pure i.mnemonic
  else do
    let v ← operand
    pure (i.mnemonic ++ " " ++ Numeral.decimal v)

/-- Trace an instruction, if the engine traces. -/
def announce (i : Instr) : Action Unit := do
  if (← get).tracing then
    let text ← describe i
    trace text

/-- The effect of an instruction. A stop has none here: a run looks for it before executing. -/
def effect : Instr → Action Unit
  | .halt | .nop => pure ()
  | .print => do
    let v ← pop
    emit (Word.toChar v)
  | .push => do
    let v ← operand
    push v
  | .pop => do
    let _ ← pop
  | .add => do
    let first ← pop
    let second ← pop
    push (Word.add first second)
  | .jmp => do
    let target ← pop
    jump target
  | .jz => do
    let v ← pop
    if v = 0 then
      let target ← operand
      jump target
  | .jnz => do
    let v ← pop
    if v ≠ 0 then
      let target ← operand
      jump target
  | .call => do
    pushReturn (← get).pc
    let target ← operand
    jump target
  | .ret => do
    let target ← popReturn
    jump target

/-- Execute an instruction. A stop that is executed directly does nothing and is not traced. -/
def perform (i : Instr) : Action Unit :=
  if i = .halt then pure ()
  else do
    announce i
    effect i

/-- Execute the present opcode with the present operands. -/
def decodeExec : Action Unit := do
  let opcode := (← get).opcode
  match Instr.ofOpcode? opcode with
  | some i => perform i
  | none => throw (.unknownOpcode opcode)

/-- Execute an opcode with operands. Neither the phase nor the origin changes, and operands
beyond the first are kept and ignored. -/
def execute (opcode : Int) (params : List Int) : Action Unit := do
  modify fun e => { e with opcode, params }
  decodeExec

end StackMachine.Engine
