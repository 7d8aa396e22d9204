import StackMachine.Encoding
import StackMachine.Engine.Run
import StackMachine.FileTree
import StackMachine.Settings

/-!
# `StackMachine.Launch`: running a program file

A launch prints a banner, builds an engine, reads and decodes a file, and runs it. Its result
is an exit status, 0 after a stop and 1 after a refusal, and the texts on two streams.

- `prepare` does everything before the run, given how files are read and what memory has room
  for. It gives the engine to run, or the report of a launch that has already ended.
- `report` is the report of a launch whose run has ended.
- `launchFor` puts both around a run that is cut off after a number of iterations.

While debugging, the engine traces to the error stream, and after a failed run the state of
the engine is shown there.
-/

set_option autoImplicit false

namespace StackMachine

/-- The name of the program. -/
def appName : String := "stack-vm"

/-- The version of the program. -/
def appVersion : String := "1.0.0"

/-- Name and version. -/
def appIntro : String := appName ++ " (" ++ appVersion ++ ")"

namespace Launch

/-- A mistake of the caller, which ends a launch without an exit status. -/
inductive Misuse where
  /-- A setting that was not supplied. -/
  | missingEntry (entry : Entry)
  /-- A stack that cannot be made, and why. -/
  | badCapacity (cause : Fault)
  /-- A capacity that is left without a value. -/
  | blankCapacity
  /-- A file name with the character U+0000. -/
  | embeddedNul
  deriving DecidableEq, Repr

/-- The wording of a mistake. A blank capacity is an empty list where an integer is meant. -/
def Misuse.message : Misuse → String
  | missingEntry entry => Quoted.quote entry.key
  | badCapacity cause => cause.message
  | blankCapacity => "'<' not supported between instances of 'list' and 'int'"
  | embeddedNul => FileError.embeddedNul.message ""

/-- What a launch leaves behind. -/
structure Report where
  /-- The exit status, unless the caller made a mistake. -/
  status : Except Misuse Nat
  /-- The text on the output stream. -/
  out : String
  /-- The text on the error stream. -/
  err : String

/-- The line that a launch prints first. -/
def banner : String := appIntro ++ "\n"

/-- The line about a failed stage of a launch. -/
def failure (stage reason : String) : String := stage ++ ": " ++ reason ++ "\n"

/-- The error stream after the lines of a trace. -/
def traceText (lines : List String) : String := String.join (lines.map (· ++ "\n"))

/-- A launch before its run. -/
inductive Preparation where
  | ended (report : Report)
  | ready (engine : Engine)

/-- The report of a launch that a mistake ended. -/
def misused (m : Misuse) : Preparation := .ended ⟨.error m, banner, ""⟩

/-- The report of a launch that a failed stage ended. -/
def refused (stage reason : String) : Preparation :=
  .ended ⟨.ok 1, banner, failure stage reason⟩

/-- Load the content of a file into an engine. -/
def loadBytes (engine : Engine) (bytes : List UInt8) : Preparation :=
  match Encoding.decode bytes with
  | .error f => refused "error reading program" f.message
  | .ok words =>
    match engine.load words with
    | .ok () engine => .ready engine
    | .error f _ => refused "error loading program" f.message

/-- The stack of a capacity. -/
def stackOf (memory : Memory) : CapacitySetting → Except Misuse Stack
  | .standard => (Stack.ofCapacity Engine.defaultCapacity memory).mapError .badCapacity
  | .slots n => (Stack.ofCapacity n memory).mapError .badCapacity
  | .blank => .error .blankCapacity

/-- A fresh engine for a launch. The operand stack is made first. -/
def build (stackSize returnStackSize : CapacitySetting) (debug : Bool) (memory : Memory) :
    Except Misuse Engine := do
  let operands ← stackOf memory stackSize
  let returns ← stackOf memory returnStackSize
  pure (Engine.ofStacks Sink.unlimited ⟨debug, Sink.unlimited⟩ operands returns)

/-- Everything before the run, given how files are read and what memory has room for. The settings
are looked at in a fixed order, and the engine is built before the file name is. -/
def prepare (read : String → Except FileError (List UInt8)) (entries : Entries)
    (memory : Memory := .unlimited) : Preparation :=
  match entries.stackSize, entries.returnStackSize, entries.debug with
  | none, _, _ => misused (.missingEntry .stackSize)
  | some _, none, _ => misused (.missingEntry .returnStackSize)
  | some _, some _, none => misused (.missingEntry .debug)
  | some stackSize, some returnStackSize, some debug =>
    match build stackSize returnStackSize debug memory with
    | .error m => misused m
    | .ok engine =>
      match entries.filename with
      | none => misused (.missingEntry .filename)
      | some filename =>
        match read filename with
        | .ok bytes => loadBytes engine bytes
        | .error .embeddedNul => misused .embeddedNul
        | .error e => refused "error loading file" (e.message filename)

/-- What stands on the error stream after the trace of a failed run: the state of the engine
while debugging, and the reason. -/
def complaint (engine : Engine) (cause : Fault) : String :=
  (if engine.monitor.live then engine.dump none true ++ "\n" else "") ++
    failure "error running program" cause.message

/-- The report of a launch after its run. -/
def report (outcome : Outcome) (engine : Engine) : Report where
  status := match outcome with
    | .failed _ => .ok 1
    | .halted | .running => .ok 0
  out := banner ++ String.ofList engine.output.toList
  err := traceText engine.monitor.lines.toList ++ match outcome with
    | .failed cause => complaint engine cause
    | .halted | .running => ""

/-- A launch whose run is cut off after `n` iterations, or `none` if the run goes on then. -/
def launchFor (n : Nat) (read : String → Except FileError (List UInt8)) (entries : Entries)
    (memory : Memory := .unlimited) : Option Report :=
  match prepare read entries memory with
  | .ended r => some r
  | .ready engine =>
    match engine.runFor n with
    | (.running, _) => none
    | (outcome, engine) => some (report outcome engine)

end Launch

end StackMachine
