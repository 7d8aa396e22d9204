import StackMachine.CommandLine.Parse

/-!
# `StackMachine.Main`: the program

The command line is parsed, the file is read, and the engine runs. Output and trace are passed
on to the two streams piece by piece, so that a program that never stops is heard.
-/

set_option autoImplicit false

namespace StackMachine.Host

/-- The number of iterations between two looks at the sinks. -/
def pieceLength : Nat := 1024

/-- A refusal by the file system of the host. The number may come negated in two's
complement. -/
def refusal (code : UInt32) (reason : String) : FileError :=
  let number := if code.toNat < 0x80000000 then code.toNat else 0x100000000 - code.toNat
  .ofCode number reason.capitalize

/-- An error of the host as a reason why a file is not opened. -/
def hostError : IO.Error → FileError
  | .noFileOrDirectory _ code reason | .alreadyExists _ code reason
  | .invalidArgument _ code reason | .permissionDenied _ code reason
  | .resourceExhausted _ code reason | .inappropriateType _ code reason
  | .noSuchThing _ code reason | .interrupted _ code reason
  | .otherError code reason | .resourceBusy code reason | .resourceVanished code reason
  | .unsupportedOperation code reason | .hardwareFault code reason
  | .unsatisfiedConstraints code reason | .illegalOperation code reason
  | .protocolError code reason | .timeExpired code reason => refusal code reason
  | .unexpectedEof => .other 0 "end of file"
  | .userError reason => .other 0 reason

/-- The content of a file of the host. -/
def readFile (name : String) : IO (Except FileError (List UInt8)) := do
  try
    let bytes ← IO.FS.readBinFile name
    pure (.ok bytes.toList)
  catch e => pure (.error (hostError e))

/-- Run an engine and pass on what it writes. The result is the exit status. -/
partial def drive (engine : Engine) : IO UInt32 := do
  let (outcome, engine) := engine.runFor pieceLength
  IO.print (String.ofList engine.output.toList)
  IO.eprint (Launch.traceText engine.monitor.lines.toList)
  (← IO.getStdout).flush
  match outcome with
  | .running =>
    drive { engine with
      output := Sink.unlimited
      monitor := { engine.monitor with lines := Sink.unlimited } }
  | .halted => pure 0
  | .failed cause =>
    IO.eprint (Launch.complaint engine cause)
    pure 1

/-- Launch a program. -/
def launch (settings : Settings) : IO UInt32 := do
  let content ← readFile settings.filename
  match Launch.prepare (fun _ => content) settings.entries with
  | .ended r =>
    IO.print r.out
    IO.eprint r.err
    match r.status with
    | .ok status => pure (UInt32.ofNat status)
    | .error misuse =>
      IO.eprint (misuse.message ++ "\n")
      pure 1
  | .ready engine =>
    IO.print Launch.banner
    drive engine

end StackMachine.Host

open StackMachine in
/-- Parse the command line and launch what it asks for. -/
def main (args : List String) : IO UInt32 := do
  match CommandLine.parse args with
  | .ok settings => Host.launch settings
  | .error e =>
    IO.print e.out
    IO.eprint e.err
    pure (UInt32.ofNat e.status)
