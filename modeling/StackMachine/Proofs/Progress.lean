import StackMachine.Proofs.Contract

/-!
# `StackMachine.Proofs.Progress`: what an iteration that goes on has done

`Failure` tells what an iteration leaves that fails. This is the other half: an iteration that
goes on has read an instruction with its operands, has announced it, and has carried it out.
`Effected s i t` says what that was, with one constructor for each way in which an instruction
succeeds: `t` is `s` with the stacks, the output and the program counter that it names, and with
nothing else changed.

- `effected_of_ok` is the inversion of an instruction, and `turn_running` that of an iteration.
- `Instr.operandShift` and `Instr.returnShift` are what an instruction does to the depths of the
  stacks, and `depths_of_effected` shows that it does so whenever it succeeds.
- `starts` are the states in which the iterations of a run begin. What a run does is collected
  from these.
-/

set_option autoImplicit false

namespace StackMachine

/-- What an instruction that succeeds adds to the depth of the operand stack. -/
def Instr.operandShift : Instr → Int
  | push => 1
  | print | pop | add | jmp | jz | jnz => -1
  | halt | nop | call | ret => 0

/-- What an instruction that succeeds adds to the depth of the return stack. -/
def Instr.returnShift : Instr → Int
  | call => 1
  | ret => -1
  | halt | nop | print | push | pop | add | jmp | jz | jnz => 0

/-- The instructions that are always followed by the one behind them. -/
def Instr.straight : List Instr := [nop, print, push, pop, add]

namespace Stack

variable {s t : Stack} {v : Int}

/-- A push makes a stack deeper by one item. -/
private theorem depth_push (h : s.push v = .ok t) : t.depth = s.depth + 1 := by
  unfold depth
  rw [(items_push h).1, List.length_cons]

/-- A pop makes a stack less deep by one item. -/
private theorem depth_pop (h : s.pop = .ok (v, t)) : s.depth = t.depth + 1 := by
  unfold depth
  rw [(items_pop h).1, List.length_cons]

end Stack

namespace Engine

/-! ### Actions that succeed -/

section

variable {s t : Engine}

/-- What has succeeded as a whole has succeeded in both parts. Inversions of composed actions begin
here. -/
theorem bind_eq_ok {α β : Type} {a : Action α} {k : α → Action β} {v : β}
    (h : (a >>= k) s = .ok v t) : ∃ u r, a s = .ok u r ∧ k u r = .ok v t := by
  cases ha : a s with
  | ok u r =>
    rw [bind_of_ok ha] at h
    exact ⟨u, r, rfl, h⟩
  | error f r =>
    rw [bind_of_error ha] at h
    cases h

/-- A push that succeeds has put its value on the operand stack and touched nothing else. The
lemmas that follow say what the other actions have done when they succeed. -/
private theorem push_eq_ok {v : Int} {u : Unit} (h : push v s = .ok u t) :
    ∃ o, s.operands.push v = .ok o ∧ t = { s with operands := o } := by
  unfold push at h
  split at h
  · rename_i o ho
    cases h
    exact ⟨o, ho, rfl⟩
  · cases h

/-- A pop that succeeds has taken its value from the operand stack. -/
theorem pop_eq_ok {v : Int} (h : pop s = .ok v t) :
    ∃ o, s.operands.pop = .ok (v, o) ∧ t = { s with operands := o } := by
  unfold pop at h
  split at h
  · rename_i w o ho
    cases h
    exact ⟨o, ho, rfl⟩
  · cases h

/-- A push on the return stack that succeeds has put its address there. -/
theorem pushReturn_eq_ok {a : Int} {u : Unit} (h : pushReturn a s = .ok u t) :
    ∃ r, s.returns.push a = .ok r ∧ t = { s with returns := r } := by
  unfold pushReturn at h
  split at h
  · rename_i r hr
    cases h
    exact ⟨r, hr, rfl⟩
  · cases h

/-- A pop of the return stack that succeeds has taken its address from there. -/
theorem popReturn_eq_ok {a : Int} (h : popReturn s = .ok a t) :
    ∃ r, s.returns.pop = .ok (a, r) ∧ t = { s with returns := r } := by
  unfold popReturn at h
  split at h
  · rename_i w r hr
    cases h
    exact ⟨r, hr, rfl⟩
  · cases h

/-- A write that succeeds has been taken by the sink. -/
private theorem emit_eq_ok {c : Char} {u : Unit} (h : emit c s = .ok u t) :
    ∃ out, s.output.write c = some out ∧ t = { s with output := out } := by
  unfold emit at h
  split at h
  · rename_i out hout
    cases h
    exact ⟨out, hout, rfl⟩
  · cases h

/-- A jump that succeeds has gone to an address below the noted size. That there is a word at it
takes a sized engine. -/
theorem jump_eq_ok {a : Int} {u : Unit} (h : jump a s = .ok u t) :
    (0 ≤ a ∧ a < s.size) ∧ t = { s with pc := a } := by
  unfold jump at h
  split at h
  · cases h
  · cases h
    exact ⟨by omega, rfl⟩

/-- An operand that is found is the first one, and finding it changes nothing. -/
theorem operand_eq_ok {x : Int} (h : operand s = .ok x t) :
    (∃ rest, s.params = x :: rest) ∧ t = s := by
  unfold operand at h
  split at h
  · rename_i w rest hparams
    cases h
    exact ⟨⟨rest, hparams⟩, rfl⟩
  · cases h

/-- The second half of the instructions that go to their operand. -/
private theorem jumpToOperand_eq_ok {u : Unit}
    (h : (do let a ← operand; jump a : Action Unit) s = .ok u t) :
    ∃ x rest, s.params = x :: rest ∧ (0 ≤ x ∧ x < s.size) ∧ t = { s with pc := x } := by
  obtain ⟨x, r, hx, hjump⟩ := bind_eq_ok h
  obtain ⟨⟨rest, hparams⟩, rfl⟩ := operand_eq_ok hx
  obtain ⟨hinside, rfl⟩ := jump_eq_ok hjump
  exact ⟨x, rest, hparams, hinside, rfl⟩

end

/-! ### Instructions that succeed -/

/-- An instruction has turned `s` into `t`. -/
inductive Effected (s : Engine) : Instr → Engine → Prop
  | halt : Effected s .halt s
  | nop : Effected s .nop s
  | print {v : Int} {o : Stack} {out : Sink Char} (hpop : s.operands.pop = .ok (v, o))
      (hwrite : s.output.write (Word.toChar v) = some out) :
      Effected s .print { s with operands := o, output := out }
  | push {x : Int} {rest : List Int} {o : Stack} (hparams : s.params = x :: rest)
      (hpush : s.operands.push x = .ok o) : Effected s .push { s with operands := o }
  | pop {v : Int} {o : Stack} (hpop : s.operands.pop = .ok (v, o)) :
      Effected s .pop { s with operands := o }
  | add {a b : Int} {o u r : Stack} (hfirst : s.operands.pop = .ok (a, o))
      (hsecond : o.pop = .ok (b, u)) (hpush : u.push (Word.add a b) = .ok r) :
      Effected s .add { s with operands := r }
  | jmp {a : Int} {o : Stack} (hpop : s.operands.pop = .ok (a, o)) (ha : 0 ≤ a ∧ a < s.size) :
      Effected s .jmp { s with operands := o, pc := a }
  /-- The value does not ask for a jump. -/
  | jzStays {v : Int} {o : Stack} (hpop : s.operands.pop = .ok (v, o)) (hv : v ≠ 0) :
      Effected s .jz { s with operands := o }
  | jzJumps {x : Int} {rest : List Int} {o : Stack} (hpop : s.operands.pop = .ok (0, o))
      (hparams : s.params = x :: rest) (hx : 0 ≤ x ∧ x < s.size) :
      Effected s .jz { s with operands := o, pc := x }
  | jnzStays {o : Stack} (hpop : s.operands.pop = .ok (0, o)) :
      Effected s .jnz { s with operands := o }
  | jnzJumps {v x : Int} {rest : List Int} {o : Stack} (hpop : s.operands.pop = .ok (v, o))
      (hv : v ≠ 0) (hparams : s.params = x :: rest) (hx : 0 ≤ x ∧ x < s.size) :
      Effected s .jnz { s with operands := o, pc := x }
  | call {x : Int} {rest : List Int} {r : Stack} (hpush : s.returns.push s.pc = .ok r)
      (hparams : s.params = x :: rest) (hx : 0 ≤ x ∧ x < s.size) :
      Effected s .call { s with returns := r, pc := x }
  | ret {a : Int} {r : Stack} (hpop : s.returns.pop = .ok (a, r)) (ha : 0 ≤ a ∧ a < s.size) :
      Effected s .ret { s with returns := r, pc := a }

section

variable {e s t : Engine}

/-- An instruction that succeeds does so in one of these ways. Facts about iterations that go on
are case analyses over them. -/
theorem effected_of_ok {i : Instr} {u : Unit} (h : effect i s = .ok u t) : Effected s i t := by
  -- One case for each instruction, taken apart into its actions in their order.
  cases i with
  | halt =>
    cases h
    exact .halt
  | nop =>
    cases h
    exact .nop
  | print =>
    obtain ⟨v, r, hv, hemit⟩ := bind_eq_ok h
    obtain ⟨o, hpop, rfl⟩ := pop_eq_ok hv
    obtain ⟨out, hwrite, rfl⟩ := emit_eq_ok hemit
    exact .print hpop hwrite
  | push =>
    obtain ⟨x, r, hx, hrest⟩ := bind_eq_ok h
    obtain ⟨⟨rest, hparams⟩, rfl⟩ := operand_eq_ok hx
    obtain ⟨o, hpush, rfl⟩ := push_eq_ok hrest
    exact .push hparams hpush
  | pop =>
    obtain ⟨v, r, hv, hdone⟩ := bind_eq_ok h
    obtain ⟨o, hpop, rfl⟩ := pop_eq_ok hv
    cases hdone
    exact .pop hpop
  | add =>
    obtain ⟨a, r, ha, hrest⟩ := bind_eq_ok h
    obtain ⟨o, hfirst, rfl⟩ := pop_eq_ok ha
    obtain ⟨b, r, hb, hsum⟩ := bind_eq_ok hrest
    obtain ⟨u, hsecond, rfl⟩ := pop_eq_ok hb
    obtain ⟨w, hpush, rfl⟩ := push_eq_ok hsum
    exact .add hfirst hsecond hpush
  | jmp =>
    obtain ⟨a, r, ha, hjump⟩ := bind_eq_ok h
    obtain ⟨o, hpop, rfl⟩ := pop_eq_ok ha
    obtain ⟨hinside, rfl⟩ := jump_eq_ok hjump
    exact .jmp hpop hinside
  | jz =>
    obtain ⟨v, r, hv, hrest⟩ := bind_eq_ok h
    obtain ⟨o, hpop, rfl⟩ := pop_eq_ok hv
    split at hrest
    · rename_i hzero
      subst hzero
      obtain ⟨x, rest, hparams, hx, rfl⟩ := jumpToOperand_eq_ok hrest
      exact .jzJumps hpop hparams hx
    · rename_i hzero
      cases hrest
      exact .jzStays hpop hzero
  | jnz =>
    obtain ⟨v, r, hv, hrest⟩ := bind_eq_ok h
    obtain ⟨o, hpop, rfl⟩ := pop_eq_ok hv
    split at hrest
    · rename_i hzero
      obtain ⟨x, rest, hparams, hx, rfl⟩ := jumpToOperand_eq_ok hrest
      exact .jnzJumps hpop hzero hparams hx
    · rename_i hzero
      cases hrest
      have hv : v = 0 := Decidable.not_not.mp hzero
      subst hv
      exact .jnzStays hpop
  | call =>
    -- The address that is pushed is read off the state first.
    change (do pushReturn s.pc; let a ← operand; jump a : Action Unit) s = .ok u t at h
    obtain ⟨_, r, hr, hrest⟩ := bind_eq_ok h
    obtain ⟨r, hpush, rfl⟩ := pushReturn_eq_ok hr
    obtain ⟨x, rest, hparams, hx, rfl⟩ := jumpToOperand_eq_ok hrest
    exact .call hpush hparams hx
  | ret =>
    obtain ⟨a, r, ha, hjump⟩ := bind_eq_ok h
    obtain ⟨r, hpop, rfl⟩ := popReturn_eq_ok ha
    obtain ⟨hinside, rfl⟩ := jump_eq_ok hjump
    exact .ret hpop hinside

/-- The stacks grow and shrink by what the instruction says, whichever way it took. So depths can
be told from the instructions that were carried out, without their operands. -/
theorem depths_of_effected {i : Instr} (h : Effected s i t) :
    (t.operands.depth : Int) = s.operands.depth + i.operandShift ∧
      (t.returns.depth : Int) = s.returns.depth + i.returnShift := by
  cases h with
  | halt | nop => simp [Instr.operandShift, Instr.returnShift]
  | print hpop _ | pop hpop | jmp hpop _ | jzStays hpop _ | jzJumps hpop _ _ | jnzStays hpop
  | jnzJumps hpop _ _ _ =>
    have hdepth := Stack.depth_pop hpop
    simp only [Instr.operandShift, Instr.returnShift]
    omega
  | push _ hpush =>
    have hdepth := Stack.depth_push hpush
    simp only [Instr.operandShift, Instr.returnShift]
    omega
  | add hfirst hsecond hpush =>
    -- Two items are popped for the one that is pushed.
    have ha := Stack.depth_pop hfirst
    have hb := Stack.depth_pop hsecond
    have hsum := Stack.depth_push hpush
    simp only [Instr.operandShift, Instr.returnShift]
    omega
  | call hpush _ _ =>
    have hdepth := Stack.depth_push hpush
    simp only [Instr.operandShift, Instr.returnShift]
    omega
  | ret hpop _ =>
    have hdepth := Stack.depth_pop hpop
    simp only [Instr.operandShift, Instr.returnShift]
    omega

/-- Only the instructions that may jump move the program counter. After any other one, the run is
at the words behind it. -/
theorem pc_of_straight {i : Instr} (h : Effected s i t) (hi : i ∈ Instr.straight) :
    t.pc = s.pc := by
  cases h with
  | halt | nop | print _ _ | push _ _ | pop _ | add _ _ _ => rfl
  | jmp _ _ | jzStays _ _ | jzJumps _ _ _ | jnzStays _ | jnzJumps _ _ _ _ | call _ _ _ | ret _ _ =>
    exact absurd hi (by decide)

/-- An iteration that goes on has read an instruction, announced it, and carried it out. It is the
counterpart of `failure_of_turn` and `turn_halted`. -/
theorem turn_running (h : e.turn = (.running, t)) : ∃ i params m,
    e.decoded = .ready i params ∧ i ≠ .halt ∧
      announce i (e.loaded i params) = .ok () { e.loaded i params with monitor := m } ∧
      Effected { e.loaded i params with monitor := m } i t := by
  cases hd : e.decoded with
  | outside =>
    rw [turn_of_outside hd] at h
    cases h
  | unknown w =>
    rw [turn_of_unknown hd] at h
    cases h
  | cut i =>
    rw [turn_of_cut hd] at h
    cases h
  | ready i params =>
    by_cases hi : i = .halt
    · subst hi
      -- A stop ends the run, with or without its announcement.
      rcases turn_cases_of_halt hd with ⟨m, _, hturn⟩ | ⟨_, hturn⟩
      · rw [hturn] at h
        cases h
      · rw [hturn] at h
        cases h
    · rcases turn_cases_of_ready hd hi with ⟨m, hm, hturn⟩ | ⟨_, hturn⟩
      · rw [hturn] at h
        cases heffect : effect i { e.loaded i params with monitor := m } with
        | ok u r =>
          rw [heffect] at h
          cases h
          exact ⟨i, params, m, rfl, hi, hm, effected_of_ok heffect⟩
        | error f r =>
          rw [heffect] at h
          cases h
      · rw [hturn] at h
        cases h

end

/-! ### Where iterations begin -/

/-- The states in which the first `n` iterations of a run begin, in order. There are fewer of them
if the run ends before. -/
def starts : Nat → Engine → List Engine
  | 0, _ => []
  | n + 1, e =>
    match e.turn with
    | (.running, t) => e :: starts n t
    | _ => [e]

section

variable {e s t : Engine} {n : Nat}

/-- The iterations of a run are its first one and those of the rest. Inductions that follow a run
from its beginning use this equation. -/
theorem starts_succ_of_turn (h : e.turn = (.running, t)) (n : Nat) :
    e.starts (n + 1) = e :: t.starts n := by
  rw [starts, h]

/-- If the first iteration ends the run, it is the only one. -/
theorem starts_succ_of_turn_ended (h : e.turn.1 ≠ .running) (n : Nat) :
    e.starts (n + 1) = [e] := by
  unfold starts
  split
  · rename_i t hturn
    rw [hturn] at h
    exact absurd rfl h
  · rfl

/-- An iteration begins where the run has got to so far. This adds an iteration at the end, where
`starts_succ_of_turn` adds one at the beginning. -/
theorem starts_succ_of_running (h : e.runFor n = (.running, s)) :
    e.starts (n + 1) = e.starts n ++ [s] := by
  induction n generalizing e with
  | zero =>
    cases h
    unfold starts
    split
    · rfl
    · rfl
  | succ n ih =>
    unfold runFor at h
    split at h
    · rename_i t hturn
      rw [starts_succ_of_turn hturn, starts_succ_of_turn hturn, ih h]
      rfl
    · rename_i hgoes
      exact absurd h (hgoes s)

/-- A longer run begins with the iterations of a shorter one, so what is collected along a run only
grows. -/
theorem starts_mono {m : Nat} (h : m ≤ n) : e.starts m <+: e.starts n := by
  -- Both counts go down from the start of the run, until the shorter one is used up.
  induction m generalizing n e with
  | zero => exact List.nil_prefix
  | succ m ih =>
    obtain ⟨n, rfl⟩ : ∃ k, n = k + 1 := ⟨n - 1, by omega⟩
    by_cases hgoes : e.turn.1 = .running
    · have hturn := turn_of_outcome hgoes
      rw [starts_succ_of_turn hturn, starts_succ_of_turn hturn]
      exact (List.prefix_cons_inj e).mpr (ih (Nat.le_of_succ_le_succ h))
    · have heq : e.starts (m + 1) = e.starts (n + 1) := by
        rw [starts_succ_of_turn_ended hgoes, starts_succ_of_turn_ended hgoes]
      exact heq ▸ List.prefix_refl _

end

end Engine

end StackMachine
