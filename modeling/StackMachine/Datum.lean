import StackMachine.Fault
import StackMachine.Instr
import StackMachine.Text.Decimal
import StackMachine.Text.Quoted

/-!
# `StackMachine.Datum`: values offered as opcodes

A host that looks up an opcode may offer a value that is no integer. Such a value names no
instruction, and the refusal shows it.

- `Datum.display` shows a value; a text is shown as it is, but in quotes inside another value.
- `Datum.toInt?` is the integer that a value counts as, and `Datum.holds` its truth value.
- `Datum.arity` and `Datum.mnemonic` look a value up.
- `LookupFailure` says why a value cannot be looked up.
-/

set_option autoImplicit false

namespace StackMachine

/-- A value that a host may offer as an opcode. -/
inductive Datum where
  | null
  /-- A truth value. It counts as the integer zero or one. -/
  | flag (b : Bool)
  | int (v : Int)
  /-- A floating point number. It may count as an integer. -/
  | real (x : Float)
  | text (s : String)
  | list (items : List Datum)
  /-- Values under names, in order. -/
  | record (entries : List (String × Datum))
  deriving Inhabited, Repr

namespace Datum

mutual

/-- How a value is shown inside another one. -/
def inside : Datum → String
  | null => "None"
  | flag b => if b then "True" else "False"
  | int v => Numeral.decimal v
  | real x => Decimal.ofFloat x
  | text s => Quoted.quote s
  | list items => "[" ++ ", ".intercalate (insideAll items) ++ "]"
  | record entries => "\x7b" ++ ", ".intercalate (insideEntries entries) ++ "\x7d"

/-- How the items of a list are shown. -/
def insideAll : List Datum → List String
  | [] => []
  | d :: rest => inside d :: insideAll rest

/-- How the entries of a record are shown. -/
def insideEntries : List (String × Datum) → List String
  | [] => []
  | (name, d) :: rest => (Quoted.quote name ++ ": " ++ inside d) :: insideEntries rest

end

/-- How a value is shown on its own. -/
def display : Datum → String
  | text s => s
  | d => inside d

/-- The integer that a value counts as. -/
def toInt? : Datum → Option Int
  | int v => some v
  | flag b => some (if b then 1 else 0)
  | real x => Decimal.integer? x
  | null | text _ | list _ | record _ => none

/-- The truth value that a value counts as. Zero and everything empty is false. -/
def holds : Datum → Bool
  | null => false
  | text s => s ≠ ""
  | list items => !items.isEmpty
  | record entries => !entries.isEmpty
  | d => d.toInt? ≠ some 0

/-- The instruction that a value names. -/
def instr? (d : Datum) : Option Instr := d.toInt?.bind Instr.ofOpcode?

/-- The kind of a value that cannot stand in a table of names, because its content might
change. -/
def mutableKind? : Datum → Option String
  | list _ => some "list"
  | record _ => some "dict"
  | null | flag _ | int _ | real _ | text _ => none

end Datum

/-- A reason why a value cannot be looked up. -/
inductive LookupFailure where
  /-- A value that names no instruction. -/
  | unknownOpcode (d : Datum)
  /-- A value that cannot stand in a table of names. -/
  | noKey (kind : String)

/-- The wording of a reason. -/
def LookupFailure.message : LookupFailure → String
  | unknownOpcode d => Fault.unknownOpcodeMessage d.display
  | noKey kind => "unhashable type: " ++ Quoted.quote kind

namespace Datum

/-- The number of operands of the instruction that a value names. -/
def arity (d : Datum) : Except LookupFailure Nat :=
  match d.instr? with
  | some i => .ok i.arity
  | none => .error (.unknownOpcode d)

/-- The name shown for a value. -/
def mnemonic (d : Datum) : Except LookupFailure String :=
  match d.instr?, d.mutableKind? with
  | some i, _ => .ok i.mnemonic
  | none, none => .ok Instr.unknownMnemonic
  | none, some kind => .error (.noKey kind)

end Datum

end StackMachine
