import StackMachine.Proofs.Coupling

/-!
# `StackMachine.Proofs.Tracing`: a watched engine runs like an unwatched one

A monitor that wants to see every instruction changes what an engine does between reading an
instruction and its effect: a line is composed and written, and for that the operand is looked
up before its time. None of it can be told from the engine itself. `runFor_eq_of_watched`: of
two engines that differ only in their monitors and in whether they trace, both run alike for
any number of iterations, as long as no trace line is refused.

A refused line does end a run, which is why the sinks of the lines must be `Total` here.
-/

set_option autoImplicit false

namespace StackMachine

/-- A sink that takes whatever it is given. -/
def Sink.Total {α : Type} (s : Sink α) : Prop := ∀ taken a, s.accepts taken a = true

/-- A total sink takes the next item and remains total. So the hypothesis that a sink takes
everything is needed once, at the start of a run. -/
theorem Sink.write_of_total {α : Type} {s : Sink α} (h : s.Total) (a : α) :
    ∃ t, s.write a = some t ∧ t.Total := by
  refine ⟨{ s with written := s.written.push a }, ?_, h⟩
  rw [write, if_pos (h s.written a)]

namespace Engine

/-- No line that the engine traces is refused. -/
def TracesFreely (e : Engine) : Prop := e.tracing = true → e.monitor.lines.Total

/-- Two engines are equal but for their monitors and whether they trace. -/
structure EqualButWatched (s t : Engine) : Prop where
  program : s.program = t.program
  size : s.size = t.size
  operands : s.operands = t.operands
  returns : s.returns = t.returns
  registers : s.registers = t.registers
  output : s.output = t.output

/-- Equal engines are at the same address, whoever watches them. -/
theorem EqualButWatched.pc {s t : Engine} (h : EqualButWatched s t) : s.pc = t.pc :=
  congrArg Registers.pc h.registers

/-- Equal engines have read the same operands. -/
theorem EqualButWatched.params {s t : Engine} (h : EqualButWatched s t) : s.params = t.params :=
  congrArg Registers.params h.registers

/-- Equal engines read the same words, whoever watches them. So they carry out the same
instruction, and only its announcement can differ. -/
theorem EqualButWatched.decoded {s t : Engine} (h : EqualButWatched s t) :
    s.decoded = t.decoded :=
  decoded_congr h.program h.size h.pc

/-- The relation that a run keeps: the engines differ in their watching alone, and neither is
stopped by it. -/
private structure Shadowed (s t : Engine) : Prop where
  equal : EqualButWatched s t
  left : s.TracesFreely
  right : t.TracesFreely

/-- An announcement writes at most a line to the monitor. No line is refused, so it always
succeeds, and none will be refused later. -/
theorem announce_of_tracesFreely {e : Engine} (h : e.TracesFreely) {i : Instr}
    (hi : i.arity ≤ e.params.length) :
    ∃ m, announce i e = .ok () { e with monitor := m } ∧
      TracesFreely { e with monitor := m } := by
  by_cases ht : e.tracing = true
  · -- What the line says does not matter, since the sink takes any.
    obtain ⟨lines, hwrite, htotal⟩ := Sink.write_of_total (h ht) (e.line (described i e.params))
    refine ⟨{ e.monitor with lines }, ?_, fun _ => htotal⟩
    rw [announce_of_tracing ht hi, trace, hwrite]
  · exact ⟨e.monitor, announce_of_not_tracing (Bool.eq_false_iff.mpr ht) i, h⟩

/-- Watching has no part in the stacks. -/
private theorem sameStacks_shadowed : SameStacks Shadowed where
  operands h := h.equal.operands
  returns h := h.equal.returns
  setOperands h _ :=
    ⟨{ h.equal with operands := rfl }, h.left, h.right⟩
  setReturns h _ :=
    ⟨{ h.equal with returns := rfl }, h.left, h.right⟩

/-- Everything an engine does goes on alike whether it is watched or not. No cause is excepted,
since the lines of both engines are taken. -/
private theorem coupling_shadowed : Coupling Shadowed fun _ => False where
  registers h := h.equal.registers
  assign h _ :=
    ⟨{ h.equal with registers := rfl }, h.left, h.right⟩
  push := sameStacks_shadowed.push
  pop := sameStacks_shadowed.pop
  pushReturn := sameStacks_shadowed.pushReturn
  popReturn := sameStacks_shadowed.popReturn
  emit := coupled_emit (fun _ _ h => h.equal.output) fun s t h o =>
    ⟨{ h.equal with output := rfl }, h.left, h.right⟩
  jump := by
    refine coupled_jump (fun s t h => h.equal.size) fun s t h a => ?_
    have hregisters := congrArg (fun r => { r with pc := a }) h.equal.registers
    exact ⟨{ h.equal with registers := hregisters }, h.left, h.right⟩
  announce i h hi := by
    -- Run always has the operands ready, so composing the line cannot fail on either side.
    rename_i s t
    have hi' : i.arity ≤ t.params.length := by rwa [← h.equal.params]
    obtain ⟨m, hs, hsfree⟩ := announce_of_tracesFreely h.left hi
    obtain ⟨m', ht, htfree⟩ := announce_of_tracesFreely h.right hi'
    rw [hs, ht]
    exact .ok ⟨{ h.equal with }, hsfree, htfree⟩

/-- One iteration of two such engines. Neither is stopped by its watching afterwards, so the next
iteration may follow. -/
theorem turn_of_watched {s t : Engine} (h : EqualButWatched s t) (hs : s.TracesFreely)
    (ht : t.TracesFreely) : s.turn.1 = t.turn.1 ∧ EqualButWatched s.turn.2 t.turn.2 ∧
      s.turn.2.TracesFreely ∧ t.turn.2.TracesFreely := by
  have hturn := coupling_shadowed.runFor (fun _ _ h => h.equal.program)
    (fun _ _ h => h.equal.size) ⟨h, hs, ht⟩ 1
  rw [runFor_one, runFor_one] at hturn
  generalize s.turn = x at hturn ⊢
  generalize t.turn = y at hturn ⊢
  cases hturn with
  | same h => exact ⟨rfl, h.equal, h.left, h.right⟩
  | escape h => exact h.elim

/-- Watching never influences a run. Let two engines be equal but for their monitors and
whether they trace, and let no trace line be refused. Then after any number of iterations both
have gone on, halted, or failed for the same cause, and they are still equal in everything
else: the program with the noted number of words, all slots of both stacks, the registers, and the
output. -/
theorem runFor_eq_of_watched {s t : Engine} (h : EqualButWatched s t) (hs : s.TracesFreely)
    (ht : t.TracesFreely) (n : Nat) :
    (s.runFor n).1 = (t.runFor n).1 ∧ EqualButWatched (s.runFor n).2 (t.runFor n).2 := by
  have hrun := coupling_shadowed.runFor (fun _ _ h => h.equal.program)
    (fun _ _ h => h.equal.size) ⟨h, hs, ht⟩ n
  generalize s.runFor n = x at hrun ⊢
  generalize t.runFor n = y at hrun ⊢
  cases hrun with
  | same h => exact ⟨rfl, h.equal⟩
  | escape h => exact h.elim

/-- A watched call goes to its subroutine, writes a letter and comes back, as an unwatched one
does. Four lines are written about it. -/
theorem runFor_eq_of_watched_callLetter :
    ((callLetter true).runFor 4).2.monitor.lines.written.size = 4 ∧
      ((callLetter true).runFor 4).1 = ((callLetter false).runFor 4).1 ∧
      EqualButWatched ((callLetter true).runFor 4).2 ((callLetter false).runFor 4).2 := by
  have hequal : EqualButWatched (callLetter true) (callLetter false) :=
    ⟨rfl, rfl, rfl, rfl, rfl, rfl⟩
  have hwatched : (callLetter true).TracesFreely := fun _ _ _ => rfl
  have hunwatched : (callLetter false).TracesFreely := nofun
  exact ⟨by decide +kernel, runFor_eq_of_watched hequal hwatched hunwatched 4⟩

end Engine

end StackMachine
