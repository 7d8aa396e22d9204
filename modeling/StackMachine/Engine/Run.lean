import StackMachine.Engine.Execute

/-!
# `StackMachine.Engine.Run`: running a program

A run repeats one iteration: fetch an opcode, find its number of operands, fetch these, and
execute. It ends when a stop is fetched or something is refused. There is no limit on the
number of iterations, so a run is described by what has become of it after `n` of them.

- `cycle` is one iteration as an action.
- `turn` is one iteration with its outcome; a classified fault makes the phase errored.
- `runFor n` is a run cut off after `n` iterations.
-/

set_option autoImplicit false

namespace StackMachine

/-- What has become of a run. -/
inductive Outcome where
  /-- It goes on. -/
  | running
  /-- A stop was fetched. -/
  | halted
  /-- Something was refused. -/
  | failed (cause : Fault)
  deriving DecidableEq, Repr

namespace Engine

/-- One iteration of a run. It tells whether the run goes on. -/
def cycle : Action Bool := do
  modify fun e => { e with phase := .fetching, origin := e.pc }
  let opcode ← fetch
  modify fun e => { e with opcode }
  match Instr.ofOpcode? opcode with
  | none => throw (.unknownOpcode opcode)
  | some .halt =>
    announce .halt
    modify fun e => { e with phase := .halted }
    pure false
  | some i =>
    let params ← fetchMany i.arity
    modify fun e => { e with params, phase := .executing }
    decodeExec
    pure true

/-- One iteration of a run with its outcome. A fault of the machine leaves it errored; other
faults leave the phase as it is. -/
def turn (e : Engine) : Outcome × Engine :=
  match cycle e with
  | .ok true e => (.running, e)
  | .ok false e => (.halted, e)
  | .error f e => (.failed f, if f.isClassified then { e with phase := .errored } else e)

/-- A run from the present state, cut off after `n` iterations. -/
def runFor : Nat → Engine → Outcome × Engine
  | 0, e => (.running, e)
  | n + 1, e =>
    match e.turn with
    | (.running, e) => runFor n e
    | ended => ended

/-! ### Cutting a run off -/

/-- A run that has ended stays as it is, however long it may go on. The cuts after `m` and after `m
+ n` iterations tell the same then. -/
theorem runFor_add_of_ended {m : Nat} {e e' : Engine} {o : Outcome} (n : Nat)
    (h : runFor m e = (o, e')) (ho : o ≠ .running) : runFor (m + n) e = (o, e') := by
  induction m generalizing e with
  | zero =>
    cases h
    exact absurd rfl ho
  | succ m ih =>
    rw [Nat.succ_add]
    simp only [runFor] at h ⊢
    cases hturn : e.turn with
    | mk o₁ e₁ =>
      rw [hturn] at h
      cases o₁ with
      | running => exact ih h
      | halted => exact h
      | failed f => exact h

/-- A run that goes on after `m` iterations continues from the state it has reached. With
`runFor_add_of_ended` this takes every longer run apart at `m`. -/
theorem runFor_add_of_running {m : Nat} {e e' : Engine} (n : Nat)
    (h : runFor m e = (.running, e')) : runFor (m + n) e = runFor n e' := by
  induction m generalizing e with
  | zero =>
    cases h
    rw [Nat.zero_add]
  | succ m ih =>
    rw [Nat.succ_add]
    simp only [runFor] at h
    rw [runFor]
    cases hturn : e.turn with
    | mk o₁ e₁ =>
      rw [hturn] at h
      cases o₁ with
      | running => exact ih h
      | halted => cases h
      | failed f => cases h

end Engine

end StackMachine
