/-!
# `StackMachine.Settings`: how a program is to be run

- `CapacitySetting` is how large a stack is to be.
- `Settings` says what to run and how.
- `Entries` are settings as a host supplies them, where an entry may be missing.
- `Entry` names the entries.
-/

set_option autoImplicit false

namespace StackMachine

/-- How large a stack is to be. -/
inductive CapacitySetting where
  /-- As large as stacks are unless a caller says otherwise. -/
  | standard
  | slots (n : Int)
  /-- A setting that was made and is left without a value. No stack is that large. -/
  | blank
  deriving DecidableEq, Repr

/-- What to run and how. -/
structure Settings where
  filename : String
  stackSize : CapacitySetting
  returnStackSize : CapacitySetting
  debug : Bool
  deriving DecidableEq, Repr

/-- The names of the settings. -/
inductive Entry where
  | filename
  | stackSize
  | returnStackSize
  | debug
  deriving DecidableEq, Repr

/-- The name of a setting as a host writes it. -/
def Entry.key : Entry → String
  | .filename => "filename"
  | .stackSize => "stack_size"
  | .returnStackSize => "return_stack_size"
  | .debug => "debug"

/-- Settings of which some may be missing. -/
structure Entries where
  filename : Option String
  stackSize : Option CapacitySetting
  returnStackSize : Option CapacitySetting
  debug : Option Bool
  deriving DecidableEq, Repr

/-- Settings of which none is missing. -/
def Settings.entries (s : Settings) : Entries :=
  ⟨some s.filename, some s.stackSize, some s.returnStackSize, some s.debug⟩

end StackMachine
