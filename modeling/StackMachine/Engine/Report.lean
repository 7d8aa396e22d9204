import StackMachine.Engine
import StackMachine.Text.Numeral

/-!
# `StackMachine.Engine.Report`: what is shown of an engine

- `Engine.line` is the line that shows where the engine is: the address and the opcode of the
  latest instruction as residues modulo `2^32`, a text for the instruction, and the depths of
  both stacks.
- `Engine.dump` adds the content of both stacks on demand.

Operands are shown in decimal. Return addresses are shown in hexadecimal without reduction,
so a negative one shows its sign.
-/

set_option autoImplicit false

namespace StackMachine.Engine

/-- The line about an instruction that is described by `text`. -/
def line (e : Engine) (text : String) : String :=
  "PC: " ++ Numeral.hexWord e.origin ++ " OP: " ++ Numeral.hexWord e.opcode ++
    " IN: " ++ text ++ " SP: " ++ Numeral.decimal e.operands.depth ++
    " RP: " ++ Numeral.decimal e.returns.depth

/-- The items of a stack after a heading, each after a space, or a mark that there are none. -/
def listing (heading : String) (render : Int → String) (items : List Int) : String :=
  heading ++ (if items = [] then " (Empty)" else String.join (items.map (" " ++ render ·)))

/-- The line about an instruction and, if `verbose`, the content of both stacks, bottom first.
Without a text, the instruction is described by the name of the present opcode. -/
def dump (e : Engine) (text? : Option String) (verbose : Bool) : String :=
  let text := text?.getD (Instr.mnemonicOf e.opcode)
  if verbose then
    e.line text ++ "\n" ++ listing "Stack:" Numeral.decimal e.operands.toList ++
      "\n" ++ listing "Return:" Numeral.hexPadded e.returns.toList
  else e.line text

end StackMachine.Engine
