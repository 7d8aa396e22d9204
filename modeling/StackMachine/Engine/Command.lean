import StackMachine.Engine.Run

/-!
# `StackMachine.Engine.Command`: driving an engine from outside

A host drives an engine by commands: calls of its actions, and assignments to some of its
fields. A session is a sequence of commands.

- `Command` lists the commands, and `Answer` what they answer.
- `obey` carries out one command. A refused command keeps what it has done.
- `session` carries out a sequence and collects the answers.

A run is cut off after a number of iterations, so that every command ends.
-/

set_option autoImplicit false

namespace StackMachine

/-- What a host can ask of an engine. -/
inductive Command where
  | load (words : List Int)
  | run (iterations : Nat)
  | fetch
  | loadParams (count : Int)
  | execute (opcode : Int) (params : List Int)
  | decodeExec
  | jump (address : Int)
  | operand
  | push (v : Int)
  | pop
  | pushReturn (address : Int)
  | popReturn
  | setPc (v : Int)
  | setOpcode (v : Int)
  | setOrigin (v : Int)
  | setLive (live : Bool)
  | trace (text : String)
  deriving DecidableEq, Repr

/-- What a command answers. -/
inductive Answer where
  | done
  | value (v : Int)
  | values (vs : List Int)
  /-- A run was cut off. -/
  | unfinished
  deriving DecidableEq, Repr

namespace Engine

/-- The answer of an action. -/
def ask {α : Type} (a : Action α) (answer : α → Answer) (e : Engine) :
    Except Fault Answer × Engine :=
  match a e with
  | .ok v e => (.ok (answer v), e)
  | .error f e => (.error f, e)

/-- The answer of a run. -/
def askRun (n : Nat) (e : Engine) : Except Fault Answer × Engine :=
  match e.runFor n with
  | (.running, e) => (.ok .unfinished, e)
  | (.halted, e) => (.ok .done, e)
  | (.failed f, e) => (.error f, e)

/-- Carry out a command. -/
def obey (c : Command) (e : Engine) : Except Fault Answer × Engine :=
  match c with
  | .load words => ask (load words) (fun _ => .done) e
  | .run n => askRun n e
  | .fetch => ask fetch .value e
  | .loadParams n => ask (loadParams n) .values e
  | .execute opcode params => ask (execute opcode params) (fun _ => .done) e
  | .decodeExec => ask decodeExec (fun _ => .done) e
  | .jump address => ask (jump address) (fun _ => .done) e
  | .operand => ask operand .value e
  | .push v => ask (push v) (fun _ => .done) e
  | .pop => ask pop .value e
  | .pushReturn address => ask (pushReturn address) (fun _ => .done) e
  | .popReturn => ask popReturn .value e
  | .setPc v => (.ok .done, { e with pc := v })
  | .setOpcode v => (.ok .done, { e with opcode := v })
  | .setOrigin v => (.ok .done, { e with origin := v })
  | .setLive live => (.ok .done, { e with monitor := { e.monitor with live } })
  | .trace text => ask (trace text) (fun _ => .done) e

/-- Carry out commands in order. -/
def session (e : Engine) : List Command → List (Except Fault Answer) × Engine
  | [] => ([], e)
  | c :: rest =>
    match obey c e with
    | (answer, e) =>
      match session e rest with
      | (answers, e) => (answer :: answers, e)

end Engine

end StackMachine
