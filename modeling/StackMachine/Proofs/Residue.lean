import StackMachine.Proofs.Failure
import StackMachine.Proofs.Progress
import StackMachine.Proofs.Reference
import StackMachine.Proofs.StackCoupling

/-!
# `StackMachine.Proofs.Residue`: what a failing execution leaves behind

A host may execute any opcode with any operands. If that fails, nothing is rolled back: what the
instruction had done by then stays done, and `execute_residue` says how much that is.

- `Blocked s i f t` lists the ways in which the effect of `i` fails on `s`, as `Effected` lists the
  ways in which it succeeds. Operands may be missing here, which never happens in a run.
  `blocked_of_error` and `effect_of_blocked` say that these are all, and that each happens.
- `execute_of_opcode`: an execution is an announcement and an effect. The announcement fails only
  for want of an operand to announce, and then before the effect.
- `Residue e i params f o r` lists the executions that fail and do not leave both stacks alone.
  Each has popped one item or pushed one address, and fails at its next step.
-/

set_option autoImplicit false

namespace StackMachine

/-- The instruction goes to its operand if it has popped this value. -/
def Instr.Branches : Instr → Int → Prop
  | jz, v => v = 0
  | jnz, v => v ≠ 0
  | halt, _ | nop, _ | print, _ | push, _ | pop, _ | add, _ | jmp, _ | call, _ | ret, _ => False

/-- The instructions that begin by popping an operand. -/
def Instr.popping : List Instr := [print, pop, add, jmp, jz, jnz]

/-- A push that succeeds has found a free slot. -/
private theorem Stack.lt_capacity_of_push {s t : Stack} {v : Int} (h : s.push v = .ok t) :
    s.toList.length < s.capacity := by
  have hfree := (items_push h).2
  have hfull := @free_eq_zero_iff s
  omega

namespace Engine

/-! ### Actions that fail -/

section

variable {s t : Engine} {f : Fault}

/-- What has failed as a whole has failed in the first part, or in the second one behind it. With
`bind_eq_ok`, this takes every composed action apart. -/
private theorem bind_eq_error {α β : Type} {a : Action α} {k : α → Action β}
    (h : (a >>= k) s = .error f t) :
    a s = .error f t ∨ ∃ v r, a s = .ok v r ∧ k v r = .error f t := by
  cases ha : a s with
  | ok v r =>
    rw [bind_of_ok ha] at h
    exact .inr ⟨v, r, rfl, h⟩
  | error g r =>
    rw [bind_of_error ha] at h
    cases h
    exact .inl rfl

/-- A push fails on a full stack alone, and changes nothing. The lemmas that follow say when the
other actions fail; none of them changes anything then. -/
private theorem push_eq_error {v : Int} (h : push v s = .error f t) :
    s.operands.free = 0 ∧ f = .stackOverflow ∧ t = s := by
  unfold push at h
  split at h
  · cases h
  · rename_i g hg
    cases h
    obtain ⟨hfree, hf⟩ := Stack.push_eq_error_iff.mp hg
    exact ⟨hfree, hf, rfl⟩

/-- A pop fails on an empty stack alone. -/
private theorem pop_eq_error (h : pop s = .error f t) :
    s.operands.toList = [] ∧ f = .stackUnderflow ∧ t = s := by
  unfold pop at h
  split at h
  · cases h
  · rename_i g hg
    cases h
    obtain ⟨hnil, hf⟩ := Stack.pop_eq_error_iff.mp hg
    exact ⟨hnil, hf, rfl⟩

/-- A push on the return stack fails if that stack is full. -/
private theorem pushReturn_eq_error {a : Int} (h : pushReturn a s = .error f t) :
    s.returns.free = 0 ∧ f = .stackOverflow ∧ t = s := by
  unfold pushReturn at h
  split at h
  · cases h
  · rename_i g hg
    cases h
    obtain ⟨hfree, hf⟩ := Stack.push_eq_error_iff.mp hg
    exact ⟨hfree, hf, rfl⟩

/-- A pop of the return stack fails if that stack is empty. -/
private theorem popReturn_eq_error (h : popReturn s = .error f t) :
    s.returns.toList = [] ∧ f = .stackUnderflow ∧ t = s := by
  unfold popReturn at h
  split at h
  · cases h
  · rename_i g hg
    cases h
    obtain ⟨hnil, hf⟩ := Stack.pop_eq_error_iff.mp hg
    exact ⟨hnil, hf, rfl⟩

/-- A write fails if the sink refuses the character. -/
private theorem emit_eq_error {c : Char} (h : emit c s = .error f t) :
    s.output.write c = none ∧ f = .outputRefused ∧ t = s := by
  unfold emit at h
  split at h
  · cases h
  · rename_i hwrite
    cases h
    exact ⟨hwrite, rfl, rfl⟩

/-- A jump fails for an address out of bounds. -/
private theorem jump_eq_error {a : Int} (h : jump a s = .error f t) :
    ¬ (0 ≤ a ∧ a < s.size) ∧ f = .jumpOutOfBounds a ∧ t = s := by
  unfold jump at h
  split at h
  · cases h
    exact ⟨by omega, rfl, rfl⟩
  · cases h

/-- An operand is not found if there are none. -/
private theorem operand_eq_error (h : operand s = .error f t) :
    s.params = [] ∧ f = .missingOperand ∧ t = s := by
  unfold operand at h
  split at h
  · cases h
  · rename_i hparams
    cases h
    exact ⟨hparams, rfl, rfl⟩

/-- A jump to an address out of bounds is refused. -/
private theorem jump_of_outside {a : Int} (h : ¬ (0 ≤ a ∧ a < s.size)) :
    jump a s = .error (.jumpOutOfBounds a) s := by
  unfold jump
  rw [if_pos (by omega)]

/-- Without operands, none is found. -/
theorem operand_of_nil (h : s.params = []) : operand s = .error .missingOperand s := by
  simp only [operand, h]

/-- The second half of the instructions that go to their operand. It fails for want of the operand
or of a word at that address, and changes nothing itself. -/
private theorem jumpToOperand_eq_error
    (h : (do let a ← operand; jump a : Action Unit) s = .error f t) :
    t = s ∧ (s.params = [] ∧ f = .missingOperand ∨
      ∃ x rest, s.params = x :: rest ∧ ¬ (0 ≤ x ∧ x < s.size) ∧ f = .jumpOutOfBounds x) := by
  rcases bind_eq_error h with hmissing | ⟨x, r, hx, hjump⟩
  · obtain ⟨hparams, rfl, rfl⟩ := operand_eq_error hmissing
    exact ⟨rfl, .inl ⟨hparams, rfl⟩⟩
  · obtain ⟨⟨rest, hparams⟩, rfl⟩ := operand_eq_ok hx
    obtain ⟨houtside, rfl, rfl⟩ := jump_eq_error hjump
    exact ⟨rfl, .inr ⟨x, rest, hparams, houtside, rfl⟩⟩

end

/-! ### Instructions that fail -/

/-- The effect of an instruction on `s` fails for a cause and leaves a state. -/
inductive Blocked (s : Engine) : Instr → Fault → Engine → Prop
  /-- There is nothing to pop. -/
  | empty {i : Instr} (hi : i ∈ Instr.popping) (hnil : s.operands.toList = []) :
      Blocked s i .stackUnderflow s
  | emptyReturns (hnil : s.returns.toList = []) : Blocked s .ret .stackUnderflow s
  /-- There is no room for what is to be pushed. -/
  | full {x : Int} {rest : List Int} (hparams : s.params = x :: rest)
      (hfree : s.operands.free = 0) :
      Blocked s .push .stackOverflow s
  | fullReturns (hfree : s.returns.free = 0) : Blocked s .call .stackOverflow s
  /-- There is no operand to push. -/
  | missing (hparams : s.params = []) : Blocked s .push .missingOperand s
  | refused {v : Int} {o : Stack} (hpop : s.operands.pop = .ok (v, o))
      (hwrite : s.output.write (Word.toChar v) = none) :
      Blocked s .print .outputRefused { s with operands := o }
  /-- There is only one item to add. -/
  | add {a : Int} {o : Stack} (hfirst : s.operands.pop = .ok (a, o)) (hnil : o.toList = []) :
      Blocked s .add .stackUnderflow { s with operands := o }
  | jmp {a : Int} {o : Stack} (hpop : s.operands.pop = .ok (a, o))
      (ha : ¬ (0 ≤ a ∧ a < s.size)) :
      Blocked s .jmp (.jumpOutOfBounds a) { s with operands := o }
  /-- A value asks for a jump that leads out of the program, or nowhere. -/
  | branch {i : Instr} {v x : Int} {rest : List Int} {o : Stack} (hv : i.Branches v)
      (hpop : s.operands.pop = .ok (v, o)) (hparams : s.params = x :: rest)
      (hx : ¬ (0 ≤ x ∧ x < s.size)) :
      Blocked s i (.jumpOutOfBounds x) { s with operands := o }
  | branchMissing {i : Instr} {v : Int} {o : Stack} (hv : i.Branches v)
      (hpop : s.operands.pop = .ok (v, o)) (hparams : s.params = []) :
      Blocked s i .missingOperand { s with operands := o }
  /-- The return address is pushed before the call leads out of the program, or nowhere. -/
  | call {x : Int} {rest : List Int} {r : Stack} (hpush : s.returns.push s.pc = .ok r)
      (hparams : s.params = x :: rest) (hx : ¬ (0 ≤ x ∧ x < s.size)) :
      Blocked s .call (.jumpOutOfBounds x) { s with returns := r }
  | callMissing {r : Stack} (hpush : s.returns.push s.pc = .ok r) (hparams : s.params = []) :
      Blocked s .call .missingOperand { s with returns := r }
  | ret {a : Int} {r : Stack} (hpop : s.returns.pop = .ok (a, r)) (ha : ¬ (0 ≤ a ∧ a < s.size)) :
      Blocked s .ret (.jumpOutOfBounds a) { s with returns := r }

section

variable {e s t : Engine} {i : Instr} {f : Fault}

/-- A value that asks for a jump leads to the operand. Only then is the operand looked at, so a
branch that is not taken does without one. -/
private theorem effect_of_branches {v : Int} {o : Stack} (hv : i.Branches v)
    (hpop : s.operands.pop = .ok (v, o)) :
    effect i s = (do let a ← operand; jump a : Action Unit) { s with operands := o } := by
  cases i with
  | jz =>
    have hzero : v = 0 := hv
    exact (bind_of_ok (pop_of_ok hpop)).trans (congrFun (if_pos hzero) _)
  | jnz =>
    have hne : v ≠ 0 := hv
    exact (bind_of_ok (pop_of_ok hpop)).trans (congrFun (if_pos hne) _)
  | _ => exact hv.elim

/-- The part of a branch behind its pop. -/
private theorem blocked_of_branch {v : Int} {o : Stack} (hv : i.Branches v)
    (hpop : s.operands.pop = .ok (v, o))
    (h : (do let a ← operand; jump a : Action Unit) { s with operands := o } = .error f t) :
    Blocked s i f t := by
  obtain ⟨rfl, ⟨hparams, rfl⟩ | ⟨x, rest, hparams, hx, rfl⟩⟩ := jumpToOperand_eq_error h
  · exact .branchMissing hv hpop hparams
  · exact .branch hv hpop hparams hx

/-- An instruction that fails does so in one of these ways. Unlike in a run, an operand may be
missing here, and a branch that is not taken does not notice. -/
theorem blocked_of_error (h : effect i s = .error f t) : Blocked s i f t := by
  -- The first action of an instruction that pops has found nothing.
  have hempty (hi : i ∈ Instr.popping) (hpop : pop s = .error f t) : Blocked s i f t := by
    obtain ⟨hnil, rfl, rfl⟩ := pop_eq_error hpop
    exact .empty hi hnil
  -- One case for each instruction, and in it one for each action that can fail.
  cases i with
  | halt | nop => cases h
  | print =>
    rcases bind_eq_error h with hpop | ⟨v, r, hv, hemit⟩
    · exact hempty (by decide) hpop
    · obtain ⟨o, hpop, rfl⟩ := pop_eq_ok hv
      obtain ⟨hwrite, rfl, rfl⟩ := emit_eq_error hemit
      exact .refused hpop hwrite
  | push =>
    rcases bind_eq_error h with hoperand | ⟨x, r, hx, hpush⟩
    · obtain ⟨hparams, rfl, rfl⟩ := operand_eq_error hoperand
      exact .missing hparams
    · obtain ⟨⟨rest, hparams⟩, rfl⟩ := operand_eq_ok hx
      obtain ⟨hfree, rfl, rfl⟩ := push_eq_error hpush
      exact .full hparams hfree
  | pop =>
    rcases bind_eq_error h with hpop | ⟨v, r, _, hdone⟩
    · exact hempty (by decide) hpop
    · cases hdone
  | add =>
    rcases bind_eq_error h with hpop | ⟨a, r, ha, hrest⟩
    · exact hempty (by decide) hpop
    · obtain ⟨o, hfirst, rfl⟩ := pop_eq_ok ha
      rcases bind_eq_error hrest with hpop | ⟨b, r, hb, hsum⟩
      · obtain ⟨hnil, rfl, rfl⟩ := pop_eq_error hpop
        exact .add hfirst hnil
      · -- The two pops have made room for the sum.
        obtain ⟨u, hsecond, rfl⟩ := pop_eq_ok hb
        obtain ⟨hfree, _, _⟩ := push_eq_error hsum
        have hroom := (Stack.items_pop hsecond).2
        change u.free = 0 at hfree
        omega
  | jmp =>
    rcases bind_eq_error h with hpop | ⟨a, r, ha, hjump⟩
    · exact hempty (by decide) hpop
    · obtain ⟨o, hpop, rfl⟩ := pop_eq_ok ha
      obtain ⟨houtside, rfl, rfl⟩ := jump_eq_error hjump
      exact .jmp hpop houtside
  | jz =>
    rcases bind_eq_error h with hpop | ⟨v, r, hv, hrest⟩
    · exact hempty (by decide) hpop
    · obtain ⟨o, hpop, rfl⟩ := pop_eq_ok hv
      split at hrest
      · rename_i hzero
        exact blocked_of_branch hzero hpop hrest
      · cases hrest
  | jnz =>
    rcases bind_eq_error h with hpop | ⟨v, r, hv, hrest⟩
    · exact hempty (by decide) hpop
    · obtain ⟨o, hpop, rfl⟩ := pop_eq_ok hv
      split at hrest
      · rename_i hne
        exact blocked_of_branch hne hpop hrest
      · cases hrest
  | call =>
    -- The address that is pushed is read off the state first.
    change (do pushReturn s.pc; let a ← operand; jump a : Action Unit) s = .error f t at h
    rcases bind_eq_error h with hpush | ⟨_, r, hr, hrest⟩
    · obtain ⟨hfree, rfl, rfl⟩ := pushReturn_eq_error hpush
      exact .fullReturns hfree
    · obtain ⟨r, hpush, rfl⟩ := pushReturn_eq_ok hr
      obtain ⟨rfl, ⟨hparams, rfl⟩ | ⟨x, rest, hparams, hx, rfl⟩⟩ := jumpToOperand_eq_error hrest
      · exact .callMissing hpush hparams
      · exact .call hpush hparams hx
  | ret =>
    rcases bind_eq_error h with hpop | ⟨a, r, ha, hjump⟩
    · obtain ⟨hnil, rfl, rfl⟩ := popReturn_eq_error hpop
      exact .emptyReturns hnil
    · obtain ⟨r, hpop, rfl⟩ := popReturn_eq_ok ha
      obtain ⟨houtside, rfl, rfl⟩ := jump_eq_error hjump
      exact .ret hpop houtside

/-- An instruction that pops finds nothing and changes nothing. An addition with one item is not
such a case, since its first pop succeeds. -/
theorem effect_of_empty (hi : i ∈ Instr.popping) (hnil : s.operands.toList = []) :
    effect i s = .error .stackUnderflow s := by
  have hpop : pop s = .error .stackUnderflow s := pop_of_error (Stack.pop_of_nil hnil)
  cases i with
  | print | pop | add | jmp | jz | jnz => exact bind_of_error hpop
  | halt | nop | push | call | ret => exact absurd hi (by decide)

/-- A jump to the operand fails for want of the operand. -/
private theorem jumpToOperand_of_nil (hparams : s.params = []) :
    (do let a ← operand; jump a : Action Unit) s = .error .missingOperand s :=
  bind_of_error (operand_of_nil hparams)

/-- It fails for want of a word there. -/
private theorem jumpToOperand_of_outside {x : Int} {rest : List Int}
    (hparams : s.params = x :: rest)
    (hx : ¬ (0 ≤ x ∧ x < s.size)) :
    (do let a ← operand; jump a : Action Unit) s = .error (.jumpOutOfBounds x) s :=
  (bind_of_ok (operand_of_cons hparams)).trans (jump_of_outside hx)

/-- Each of these ways is one in which an instruction fails. So `Blocked` lists neither too few nor
too many. -/
theorem effect_of_blocked (h : Blocked s i f t) : effect i s = .error f t := by
  cases h with
  | empty hi hnil => exact effect_of_empty hi hnil
  | emptyReturns hnil => exact effect_ret_of_empty (Stack.pop_of_nil hnil)
  | @full x rest hparams hfree =>
    have hpush : s.operands.push x = .error .stackOverflow :=
      Stack.push_eq_error_iff.mpr ⟨hfree, rfl⟩
    refine (bind_of_ok (operand_of_cons hparams)).trans ?_
    simp only [push, hpush]
  | fullReturns hfree => exact effect_call_of_full (Stack.push_eq_error_iff.mpr ⟨hfree, rfl⟩)
  | missing hparams => exact bind_of_error (operand_of_nil hparams)
  | refused hpop hwrite =>
    refine (bind_of_ok (pop_of_ok hpop)).trans ?_
    simp only [emit, hwrite]
  | @add a o hfirst hnil =>
    have hsecond : pop { s with operands := o } = .error .stackUnderflow _ :=
      pop_of_error (Stack.pop_of_nil hnil)
    exact (bind_of_ok (pop_of_ok hfirst)).trans (bind_of_error hsecond)
  | @jmp a o hpop ha =>
    exact (bind_of_ok (pop_of_ok hpop)).trans (jump_of_outside (s := { s with operands := o }) ha)
  | @branch i v x rest o hv hpop hparams hx =>
    rw [effect_of_branches hv hpop]
    exact jumpToOperand_of_outside (s := { s with operands := o }) hparams hx
  | @branchMissing i v o hv hpop hparams =>
    rw [effect_of_branches hv hpop]
    exact jumpToOperand_of_nil (s := { s with operands := o }) hparams
  | @call x rest r hpush hparams hx =>
    exact (bind_of_ok (pushReturn_of_ok hpush)).trans
      (jumpToOperand_of_outside (s := { s with returns := r }) hparams hx)
  | @callMissing r hpush hparams =>
    exact (bind_of_ok (pushReturn_of_ok hpush)).trans
      (jumpToOperand_of_nil (s := { s with returns := r }) hparams)
  | @ret a r hpop ha =>
    rw [effect_ret hpop]
    exact jump_of_outside (s := { s with returns := r }) ha

end

/-! ### Executions -/

/-- The engine as an opcode with operands finds it behind its announcement. -/
def given (e : Engine) (opcode : Int) (params : List Int) (m : Monitor) : Engine :=
  { e with opcode, params, monitor := m }

section

variable {e t : Engine} {i : Instr} {f : Fault} {opcode : Int} {params : List Int}

/-- An opcode that names no instruction is refused, and nothing is done. The opcode and the
operands are noted all the same, as they were assigned before. -/
theorem execute_of_unknown (h : ¬ (0 ≤ opcode ∧ opcode ≤ 10)) :
    execute opcode params e = .error (.unknownOpcode opcode) (e.given opcode params e.monitor) := by
  have hnone : Instr.ofOpcode? opcode = none := Instr.ofOpcode?_eq_none_iff.mpr (by omega)
  show decodeExec (e.given opcode params e.monitor) = _
  unfold decodeExec
  rw [get_bind]
  simp only [given, hnone]
  rfl

/-- An execution of an instruction is an announcement and an effect, but for a stop, which does
nothing. The opcode and the operands are set before either. -/
theorem execute_of_opcode (i : Instr) : execute i.opcode params e =
    if i = .halt then .ok () (e.given i.opcode params e.monitor)
    else (do announce i; effect i : Action Unit) (e.given i.opcode params e.monitor) := by
  show decodeExec (e.given i.opcode params e.monitor) = _
  unfold decodeExec
  rw [get_bind]
  simp only [given, ofOpcode?_opcode, perform]
  by_cases hi : i = .halt
  · rw [if_pos hi, if_pos hi]
    rfl
  · rw [if_neg hi, if_neg hi]

/-- An operand that is to be announced is missing. The line cannot be composed, so the monitor is
told nothing. -/
theorem announce_of_missing (ht : e.tracing = true) (hi : i.arity ≠ 0) (hparams : e.params = []) :
    announce i e = .error .missingOperand e := by
  have hdescribe : describe i e = .error .missingOperand e := by
    unfold describe
    rw [if_neg hi]
    exact bind_of_error (operand_of_nil hparams)
  show (do if (← get).tracing then _ : Action Unit) e = _
  rw [get_bind, if_pos ht, bind_of_error hdescribe]

/-- An announcement whose line is not refused succeeds, unless the operand is missing. -/
private theorem announce_of_unobstructed (h : e.TracesFreely) (i : Instr) :
    (∃ m, announce i e = .ok () { e with monitor := m }) ∨
      e.tracing = true ∧ i.arity = 1 ∧ e.params = [] ∧
        announce i e = .error .missingOperand e := by
  by_cases hle : i.arity ≤ e.params.length
  · obtain ⟨m, hm, _⟩ := announce_of_tracesFreely h hle
    exact .inl ⟨m, hm⟩
  · -- Fewer operands than the instruction takes are none, for it takes one at most.
    have harity : i.arity = 0 ∨ i.arity = 1 := by cases i <;> decide
    have hone : i.arity = 1 := by omega
    have hnil : e.params = [] := List.eq_nil_of_length_eq_zero (by omega)
    by_cases ht : e.tracing = true
    · exact .inr ⟨ht, hone, hnil, announce_of_missing ht (by omega) hnil⟩
    · exact .inl ⟨e.monitor, announce_of_not_tracing (Bool.eq_false_iff.mpr ht) i⟩

/-- An execution whose announcement succeeds comes down to the effect of the instruction, in a
state in which at most the monitor has changed. -/
theorem execute_of_announced {m : Monitor} (hi : i ≠ .halt)
    (hm : announce i (e.given i.opcode params e.monitor)
      = .ok () (e.given i.opcode params m)) :
    execute i.opcode params e = effect i (e.given i.opcode params m) := by
  rw [execute_of_opcode, if_neg hi, bind_of_ok hm]

/-- An execution that fails has an unknown opcode, lacks an operand to announce, or is blocked in
its effect. Each of the three says what state is left. -/
theorem execute_eq_error (hfree : e.TracesFreely) (h : execute opcode params e = .error f t) :
    (¬ (0 ≤ opcode ∧ opcode ≤ 10) ∧ f = .unknownOpcode opcode ∧
      t = e.given opcode params e.monitor) ∨
    ∃ i, i.opcode = opcode ∧
      ((f = .missingOperand ∧ t = e.given opcode params e.monitor) ∨
        ∃ m, announce i (e.given opcode params e.monitor)
            = .ok () (e.given opcode params m) ∧
          Blocked (e.given opcode params m) i f t) := by
  cases hi : Instr.ofOpcode? opcode with
  | none =>
    have hout := Instr.ofOpcode?_eq_none_iff.mp hi
    rw [execute_of_unknown (by omega)] at h
    cases h
    exact .inl ⟨by omega, rfl, rfl⟩
  | some i =>
    have hopcode := (Instr.ofOpcode?_eq_some_iff.mp hi).symm
    subst hopcode
    refine .inr ⟨i, rfl, ?_⟩
    by_cases hhalt : i = .halt
    · rw [execute_of_opcode, if_pos hhalt] at h
      cases h
    · rcases announce_of_unobstructed (e := e.given i.opcode params e.monitor) hfree i with
        ⟨m, hm⟩ | ⟨_, _, _, hmissing⟩
      · rw [execute_of_announced hhalt hm] at h
        exact .inr ⟨m, hm, blocked_of_error h⟩
      · rw [execute_of_opcode, if_neg hhalt, bind_of_error hmissing] at h
        cases h
        exact .inl ⟨rfl, rfl⟩

end

/-! ### What is left -/

/-- An execution of an instruction on `e` with operands fails for a cause, and leaves other items on
the stacks than before: these operands and these return addresses, bottom first. -/
inductive Residue (e : Engine) : Instr → List Int → Fault → List Int → List Int → Prop
  /-- The only item was popped. -/
  | add {params : List Int} {a : Int} (hone : e.operands.toList = [a]) :
      Residue e .add params .stackUnderflow [] e.returns.toList
  /-- The target was popped, and is no address of the program. -/
  | jmp {params rest : List Int} {a : Int} (htop : e.operands.toList = rest ++ [a])
      (ha : ¬ (0 ≤ a ∧ a < e.size)) :
      Residue e .jmp params (.jumpOutOfBounds a) rest e.returns.toList
  /-- The tested value was popped, and the operand is no address of the program. -/
  | branch {i : Instr} {v x : Int} {rest more : List Int} (hv : i.Branches v)
      (htop : e.operands.toList = rest ++ [v]) (hx : ¬ (0 ≤ x ∧ x < e.size)) :
      Residue e i (x :: more) (.jumpOutOfBounds x) rest e.returns.toList
  /-- The tested value was popped, and the operand is missing. -/
  | branchMissing {i : Instr} {v : Int} {rest : List Int} (hv : i.Branches v)
      (htop : e.operands.toList = rest ++ [v]) (ht : e.tracing = false) :
      Residue e i [] .missingOperand rest e.returns.toList
  /-- The return address was pushed, and the operand is no address of the program. -/
  | call {x : Int} {more : List Int} (hroom : e.returns.toList.length < e.returns.capacity)
      (hx : ¬ (0 ≤ x ∧ x < e.size)) :
      Residue e .call (x :: more) (.jumpOutOfBounds x) e.operands.toList
        (e.returns.toList ++ [e.pc])
  /-- The return address was pushed, and the operand is missing. -/
  | callMissing (hroom : e.returns.toList.length < e.returns.capacity)
      (ht : e.tracing = false) :
      Residue e .call [] .missingOperand e.operands.toList (e.returns.toList ++ [e.pc])
  /-- The return address was popped, and is no address of the program. -/
  | ret {params rest : List Int} {a : Int} (htop : e.returns.toList = rest ++ [a])
      (ha : ¬ (0 ≤ a ∧ a < e.size)) :
      Residue e .ret params (.jumpOutOfBounds a) e.operands.toList rest

section

variable {e t : Engine} {i : Instr} {f : Fault} {opcode : Int} {params o r : List Int}

/-- A blocked effect has left such items, or has not touched the stacks. Each way to be blocked is
one or the other. -/
private theorem residue_of_blocked {m : Monitor} (hout : e.output.Total)
    (hm : announce i (e.given opcode params e.monitor) = .ok () (e.given opcode params m))
    (h : Blocked (e.given opcode params m) i f t) :
    Residue e i params f t.operands.toList t.returns.toList ∨
      t.operands = e.operands ∧ t.returns = e.returns := by
  -- An operand that is missing has not been announced.
  have huntraced (hnil : params = []) (hi : i.arity ≠ 0) : e.tracing = false := by
    rw [← Bool.not_eq_true]
    intro ht
    rw [announce_of_missing (e := e.given opcode params e.monitor) ht hi hnil] at hm
    cases hm
  cases h with
  | empty _ _ | emptyReturns _ | full _ _ | fullReturns _ | missing _ => exact .inr ⟨rfl, rfl⟩
  | @refused v _ _ hwrite =>
    obtain ⟨out, htaken, _⟩ := Sink.write_of_total hout (Word.toChar v)
    change e.output.write (Word.toChar v) = none at hwrite
    rw [htaken] at hwrite
    cases hwrite
  | add hfirst hnil =>
    have htop := Stack.toList_pop hfirst
    rw [hnil] at htop
    exact .inl (hnil ▸ .add htop)
  | jmp hpop ha => exact .inl (.jmp (Stack.toList_pop hpop) ha)
  | branch hv hpop hparams hx =>
    change params = _ at hparams
    subst hparams
    exact .inl (.branch hv (Stack.toList_pop hpop) hx)
  | branchMissing hv hpop hparams =>
    change params = _ at hparams
    have harity : i.arity ≠ 0 := by
      cases i with
      | jz | jnz => decide
      | _ => exact hv.elim
    have ht := huntraced hparams harity
    subst hparams
    exact .inl (.branchMissing hv (Stack.toList_pop hpop) ht)
  | call hpush hparams hx =>
    change params = _ at hparams
    subst hparams
    have hleft := Stack.toList_push hpush
    exact .inl (hleft ▸ .call (Stack.lt_capacity_of_push hpush) hx)
  | callMissing hpush hparams =>
    have ht := huntraced hparams (by decide)
    change params = _ at hparams
    subst hparams
    have hleft := Stack.toList_push hpush
    exact .inl (hleft ▸ .callMissing (Stack.lt_capacity_of_push hpush) ht)
  | ret hpop ha => exact .inl (.ret (Stack.toList_pop hpop) ha)

/-- With such stacks and operands, the effect is blocked, and leaves these items. It is the
converse of `residue_of_blocked`, so that the list of residues is complete and has nothing in
excess. -/
private theorem blocked_of_residue (h : Residue e i params f o r) (opcode : Int) (m : Monitor) :
    ∃ t, Blocked (e.given opcode params m) i f t ∧ t.operands.toList = o ∧
      t.returns.toList = r := by
  cases h with
  | add hone =>
    have htop : e.operands.toList = [] ++ [_] := hone
    obtain ⟨u, hpop, hleft, _⟩ := Stack.pop_of_toList htop
    exact ⟨_, .add hpop hleft, hleft, rfl⟩
  | jmp htop ha =>
    obtain ⟨u, hpop, hleft, _⟩ := Stack.pop_of_toList htop
    exact ⟨_, .jmp hpop ha, hleft, rfl⟩
  | branch hv htop hx =>
    obtain ⟨u, hpop, hleft, _⟩ := Stack.pop_of_toList htop
    exact ⟨_, .branch hv hpop rfl hx, hleft, rfl⟩
  | branchMissing hv htop _ =>
    obtain ⟨u, hpop, hleft, _⟩ := Stack.pop_of_toList htop
    exact ⟨_, .branchMissing hv hpop rfl, hleft, rfl⟩
  | call hroom hx =>
    obtain ⟨u, hpush, hleft, _⟩ := Stack.push_of_room e.pc hroom
    exact ⟨_, .call hpush rfl hx, rfl, hleft⟩
  | callMissing hroom _ =>
    obtain ⟨u, hpush, hleft, _⟩ := Stack.push_of_room e.pc hroom
    exact ⟨_, .callMissing hpush rfl, rfl, hleft⟩
  | ret htop ha =>
    obtain ⟨u, hpop, hleft, _⟩ := Stack.pop_of_toList htop
    exact ⟨_, .ret hpop ha, rfl, hleft⟩

/-- The announcement has not failed: a missing operand was not to be announced. -/
private theorem Residue.announced (h : Residue e i params f o r) :
    i ≠ .halt ∧ ¬ (e.tracing = true ∧ i.arity = 1 ∧ params = []) := by
  cases h with
  | add _ | jmp _ _ | ret _ _ => exact ⟨nofun, fun hmissing => nomatch hmissing.2.1⟩
  | branch hv _ _ =>
    refine ⟨?_, fun hmissing => nomatch hmissing.2.2⟩
    rintro rfl
    exact hv
  | branchMissing hv _ ht =>
    refine ⟨?_, fun hmissing => ?_⟩
    · rintro rfl
      exact hv
    · rw [ht] at hmissing
      cases hmissing.1
  | call _ _ => exact ⟨nofun, fun hmissing => nomatch hmissing.2.2⟩
  | callMissing _ ht =>
    refine ⟨nofun, fun hmissing => ?_⟩
    rw [ht] at hmissing
    cases hmissing.1

/-- One stack has an item more or less than before. So the listed cases are exactly those in which
the stacks are not as they were. -/
private theorem Residue.changed (h : Residue e i params f o r) :
    ¬ (o = e.operands.toList ∧ r = e.returns.toList) := by
  rintro ⟨ho, hr⟩
  have hlength := congrArg List.length ho
  have hlength' := congrArg List.length hr
  cases h with
  | add htop | jmp htop _ | branch _ htop _ | branchMissing _ htop _ =>
    rw [htop] at hlength
    simp at hlength
  | call _ _ | callMissing _ _ => simp at hlength'
  | ret htop _ =>
    rw [htop] at hlength'
    simp at hlength'

/-- With such stacks and operands, the execution fails, and leaves these items. It is the converse
of `residue_of_blocked`, for whole executions. -/
theorem execute_of_residue (hfree : e.TracesFreely) (h : Residue e i params f o r) :
    ∃ t, execute i.opcode params e = .error f t ∧ t.operands.toList = o ∧
      t.returns.toList = r := by
  obtain ⟨hhalt, hannounced⟩ := h.announced
  rcases announce_of_unobstructed (e := e.given i.opcode params e.monitor) hfree i with
    ⟨m, hm⟩ | ⟨ht, hone, hnil, _⟩
  · obtain ⟨t, hblocked, ho, hr⟩ := blocked_of_residue h i.opcode m
    refine ⟨t, ?_, ho, hr⟩
    rw [execute_of_announced hhalt hm]
    exact effect_of_blocked hblocked
  · exact absurd ⟨ht, hone, hnil⟩ hannounced

/-- What is neither a stack nor the monitor is left alone by a blocked effect. -/
private theorem restacked_of_blocked {s : Engine} (h : Blocked s i f t) : Restacked s t := by
  cases h with
  | empty _ _ | emptyReturns _ | full _ _ | fullReturns _ | missing _ => exact Restacked.refl _
  | refused _ _ | add _ _ | jmp _ _ | branch _ _ _ _ | branchMissing _ _ _ | call _ _ _
  | callMissing _ _ | ret _ _ => exact ⟨_, _, rfl⟩

/-- The parts of an engine that no failing execution changes. -/
structure Retained (e t : Engine) : Prop where
  pc : t.pc = e.pc
  origin : t.origin = e.origin
  phase : t.phase = e.phase
  program : t.program = e.program
  size : t.size = e.size
  output : t.output = e.output

/-- An execution that fails has set the opcode and the operands, and has changed nothing else but
the stacks and the monitor. -/
theorem retained_of_execute (hfree : e.TracesFreely) (h : execute opcode params e = .error f t) :
    Retained e t ∧ t.opcode = opcode ∧ t.params = params := by
  rcases execute_eq_error hfree h with ⟨_, _, rfl⟩ | ⟨i, _, ⟨_, rfl⟩ | ⟨m, _, hblocked⟩⟩
  · exact ⟨⟨rfl, rfl, rfl, rfl, rfl, rfl⟩, rfl, rfl⟩
  · exact ⟨⟨rfl, rfl, rfl, rfl, rfl, rfl⟩, rfl, rfl⟩
  · obtain ⟨o, r, rfl⟩ := restacked_of_blocked hblocked
    exact ⟨⟨rfl, rfl, rfl, rfl, rfl, rfl⟩, rfl, rfl⟩

/-- Only an opcode that names no instruction is refused as unknown. -/
private theorem unknown_of_execute {w : Int} (hfree : e.TracesFreely)
    (h : execute opcode params e = .error (.unknownOpcode w) t) : ¬ (0 ≤ opcode ∧ opcode ≤ 10) := by
  rcases execute_eq_error hfree h with ⟨hunknown, _, _⟩ | ⟨i, _, ⟨hf, _⟩ | ⟨m, _, hblocked⟩⟩
  · exact hunknown
  · cases hf
  · cases hblocked

end

/-- What a failing execution leaves behind. Let the sinks of an engine take everything, and let any
opcode be executed with any operands.

- If the execution fails, the opcode and the operands are set, and the program counter, the origin,
  the phase, the program with its noted size and the output are as before. The stacks are as before
  as well, or they hold what `Residue` says.
- Each case of `Residue` is one in which the execution does fail and leave these items, which are
  not those from before. So these are exactly the cases in which a stack is changed.
- While tracing, an instruction whose operand is missing fails before it does anything: not even
  the monitor is told of it.
- An opcode is refused as unknown exactly if it lies outside `0..10`. -/
theorem execute_residue {e : Engine} (hfree : e.Unobstructed) (opcode : Int) (params : List Int) :
    (∀ f t, execute opcode params e = .error f t →
      Retained e t ∧ t.opcode = opcode ∧ t.params = params ∧
      ((∃ i, i.opcode = opcode ∧ Residue e i params f t.operands.toList t.returns.toList) ∨
        t.operands = e.operands ∧ t.returns = e.returns)) ∧
    (∀ i f o r, i.opcode = opcode → Residue e i params f o r →
      ¬ (o = e.operands.toList ∧ r = e.returns.toList) ∧
      ∃ t, execute opcode params e = .error f t ∧ t.operands.toList = o ∧ t.returns.toList = r) ∧
    (e.tracing = true → params = [] → opcode ∈ [Instr.push, .jz, .jnz, .call].map Instr.opcode →
      execute opcode params e = .error .missingOperand { e with opcode, params }) ∧
    ((∃ w t, execute opcode params e = .error (.unknownOpcode w) t) ↔
      ¬ (0 ≤ opcode ∧ opcode ≤ 10)) := by
  refine ⟨fun f t h => ?_, fun i f o r hi hresidue => ?_, fun ht hnil hopcode => ?_, ?_⟩
  · obtain ⟨hretained, hopcode, hparams⟩ := retained_of_execute hfree.trace h
    refine ⟨hretained, hopcode, hparams, ?_⟩
    rcases execute_eq_error hfree.trace h with
      ⟨_, _, rfl⟩ | ⟨i, hi, ⟨_, rfl⟩ | ⟨m, hm, hblocked⟩⟩
    · exact .inr ⟨rfl, rfl⟩
    · exact .inr ⟨rfl, rfl⟩
    · rcases residue_of_blocked hfree.output hm hblocked with hresidue | hsame
      · exact .inl ⟨i, hi, hresidue⟩
      · exact .inr hsame
  · subst hi
    exact ⟨hresidue.changed, execute_of_residue hfree.trace hresidue⟩
  · obtain ⟨i, hi, rfl⟩ := List.mem_map.mp hopcode
    have harity : i ≠ .halt ∧ i.arity ≠ 0 := by
      revert i
      decide
    have hmissing : announce i (e.given i.opcode params e.monitor)
        = .error .missingOperand (e.given i.opcode params e.monitor) :=
      announce_of_missing ht harity.2 hnil
    rw [execute_of_opcode, if_neg harity.1, bind_of_error hmissing]
    rfl
  · constructor
    · rintro ⟨w, t, h⟩
      exact unknown_of_execute hfree.trace h
    · intro h
      exact ⟨opcode, _, execute_of_unknown h⟩

/-- With one item on the operand stack, an addition fails and leaves none. A call to an address
outside the program fails and leaves its return address. While tracing, a push without operand
fails, and an opcode beyond the last one is unknown. -/
theorem execute_residue_oneItem : ∃ e e' : Engine,
    e.Unobstructed ∧ e.operands.toList = [7] ∧ e.returns.toList = [] ∧
    (∃ t, execute 5 [] e = .error .stackUnderflow t ∧ t.operands.toList = [] ∧ Retained e t) ∧
    (∃ t, execute 9 [8] e = .error (.jumpOutOfBounds 8) t ∧ t.returns.toList = [0] ∧
      Retained e t) ∧
    e'.Unobstructed ∧
    execute 3 [] e' = .error .missingOperand { e' with opcode := 3, params := [] } ∧
    ∃ w t, execute 11 [] e' = .error (.unknownOpcode w) t := by
  let e : Engine := { callLetter false with operands := ⟨[7], 3, [], Nat.zero_le 3⟩ }
  have hfree : e.Unobstructed := ⟨fun _ _ => rfl, nofun⟩
  have hfree' : (callLetter true).Unobstructed := ⟨fun _ _ => rfl, fun _ _ _ => rfl⟩
  obtain ⟨hkept, hfails, _⟩ := execute_residue hfree 5 []
  obtain ⟨_, t, hadd, hnone, _⟩ := hfails .add .stackUnderflow [] [] rfl (.add rfl)
  obtain ⟨hkept', hfails', _⟩ := execute_residue hfree 9 [8]
  obtain ⟨_, u, hcall, _, haddress⟩ := hfails' .call (.jumpOutOfBounds 8) [7] [0] rfl
    (.call (by decide) (by decide))
  obtain ⟨_, _, hmissing, _⟩ := execute_residue hfree' 3 []
  obtain ⟨_, _, _, hunknown⟩ := execute_residue hfree' 11 []
  exact ⟨e, callLetter true, hfree, rfl, rfl, ⟨t, hadd, hnone, (hkept _ t hadd).1⟩,
    ⟨u, hcall, haddress, (hkept' _ u hcall).1⟩, hfree', hmissing rfl rfl (by decide),
    hunknown.mpr (by decide)⟩

end Engine

end StackMachine
