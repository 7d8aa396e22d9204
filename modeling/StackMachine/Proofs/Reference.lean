import Mathlib.Algebra.Ring.Int.Defs
import Mathlib.Algebra.Ring.Nat
import StackMachine.Proofs.Contract
import StackMachine.Proofs.Tracing

/-!
# `StackMachine.Proofs.Reference`: runs refine a machine on two lists

`Machine` is the machine that the instruction set describes, with nothing of how an engine
stores it: two lists for the stacks, a list of characters for the output, and the program
counter. `Machine.step` is one of its steps, on a list of words and with two capacities, and
`Machine.run` is a run cut off after a number of steps. Nothing of how an engine computes is taken
over: a sum is wrapped by the library's balanced remainder, and `Machine.character` spells out which
character is written. `Word.wrap_eq_bmod` and `Word.toChar_eq_character` are the links.

`Engine.machine` is the machine that an engine stands for. `runFor_refines_machine`: after any
number of iterations, a sized engine and its machine have gone on, halted, or failed for the same
cause, and the engine stands for the state that the machine has reached. Only a sink that
refuses can part them, and sinks that take everything never do.
-/

set_option autoImplicit false

namespace StackMachine

/-- The state of the reference machine. -/
structure Machine where
  pc : Int
  /-- The operands, top first. -/
  operands : List Int
  /-- The return addresses, top first. -/
  returns : List Int
  /-- The characters written so far, in order. -/
  output : List Char
  deriving DecidableEq, Repr

namespace Machine

/-- The word at an address of a list of words. -/
def wordAt (w : List Int) (a : Int) : Option Int :=
  if 0 ≤ a ∧ a < w.length then w[a.toNat]? else none

/-- Go to an address, which has to be that of a word. -/
def goTo (w : List Int) (a : Int) (m : Machine) : Outcome × Machine :=
  if 0 ≤ a ∧ a < w.length then (.running, { m with pc := a })
  else (.failed (.jumpOutOfBounds a), m)

/-- Read the operand at the program counter and go on with it. -/
def readThen (w : List Int) (next : Int → Machine → Outcome × Machine) (m : Machine) :
    Outcome × Machine :=
  match wordAt w m.pc with
  | none => (.failed (.outOfBounds m.pc), m)
  | some x => next x { m with pc := m.pc + 1 }

/-- Pop an operand and go on with it. -/
def popThen (next : Int → Machine → Outcome × Machine) (m : Machine) : Outcome × Machine :=
  match m.operands with
  | [] => (.failed .stackUnderflow, m)
  | v :: rest => next v { m with operands := rest }

/-- Pop a return address and go on with it. -/
def popReturnThen (next : Int → Machine → Outcome × Machine) (m : Machine) : Outcome × Machine :=
  match m.returns with
  | [] => (.failed .stackUnderflow, m)
  | a :: rest => next a { m with returns := rest }

/-- The character that is written for a value: the one with that code point. A value that is the
code point of no character, since it is negative, a surrogate, or too large, is written as U+FFFD.
-/
def character (v : Int) : Char :=
  if v < 0 ∨ (0xD800 ≤ v ∧ v ≤ 0xDFFF) ∨ 0x10FFFF < v then '\uFFFD' else Char.ofNat v.toNat

/-- What an opcode does, once the program counter is behind it, on the words `w` and with room
for `c` operands and `r` return addresses. -/
def perform (w : List Int) (c r : Nat) (opcode : Int) (m : Machine) : Outcome × Machine :=
  match opcode with
  | 0 => (.halted, m)
  | 1 => (.running, m)
  | 2 => m.popThen fun v m => (.running, { m with output := m.output ++ [character v] })
  | 3 => m.readThen w fun x m =>
    if m.operands.length = c then (.failed .stackOverflow, m)
    else (.running, { m with operands := x :: m.operands })
  | 4 => m.popThen fun _ m => (.running, m)
  | 5 => m.popThen fun a m => m.popThen fun b m =>
    (.running, { m with operands := (a + b).bmod (2 ^ 32) :: m.operands })
  | 6 => m.popThen fun a m => m.goTo w a
  | 7 => m.readThen w fun x m => m.popThen fun v m => if v = 0 then m.goTo w x else (.running, m)
  | 8 => m.readThen w fun x m => m.popThen fun v m => if v ≠ 0 then m.goTo w x else (.running, m)
  | 9 => m.readThen w fun x m =>
    if m.returns.length = r then (.failed .stackOverflow, m)
    else { m with returns := m.pc :: m.returns }.goTo w x
  | 10 => m.popReturnThen fun a m => m.goTo w a
  | _ => (.failed (.unknownOpcode opcode), m)

/-- One step. -/
def step (w : List Int) (c r : Nat) (m : Machine) : Outcome × Machine :=
  match wordAt w m.pc with
  | none => (.failed (.outOfBounds m.pc), m)
  | some opcode => perform w c r opcode { m with pc := m.pc + 1 }

/-- A run, cut off after `n` steps. -/
def run (w : List Int) (c r : Nat) : Nat → Machine → Outcome × Machine
  | 0, m => (.running, m)
  | n + 1, m =>
    match step w c r m with
    | (.running, m) => run w c r n m
    | ended => ended

/-- A number that is no opcode fails, and the machine is as it was when it had read the number. The
machine lists its eleven opcodes as numbers, so this compares the two lists. -/
private theorem perform_of_unknown {w : List Int} {c r : Nat} {opcode : Int} {m : Machine}
    (h : Instr.ofOpcode? opcode = none) :
    perform w c r opcode m = (.failed (.unknownOpcode opcode), m) := by
  simp only [perform]
  -- The eleven opcodes are excluded by the assumption.
  split
  all_goals first | rfl | cases h

/-- An instruction whose operand is missing fails at the end of the words. The machine reads
operands one by one, so it fails where the operand should stand. -/
private theorem perform_of_missing {w : List Int} {c r : Nat} {i : Instr} {m : Machine}
    (harity : i.arity = 1) (h : wordAt w m.pc = none) :
    perform w c r i.opcode m = (.failed (.outOfBounds m.pc), m) := by
  cases i with
  | push | jz | jnz | call => simp only [Instr.opcode, perform, readThen, h]
  | _ => cases harity

end Machine

/-- The balanced remainder wraps to the same words. So the sum of the machine does not rest on how
the engine wraps. -/
theorem Word.wrap_eq_bmod (v : Int) : Word.wrap v = v.bmod (2 ^ 32) := by
  rw [Word.wrap, Word.modulus_eq, Word.greatest_eq, Int.bmod_def]
  split <;> split <;> omega

/-- The engine's validity check of code points leaves out the same values as the two ranges. So
what the machine writes does not rest on that check. -/
theorem Word.toChar_eq_character (v : Int) : Word.toChar v = Machine.character v := by
  unfold toChar Machine.character
  by_cases hneg : v < 0
  · rw [if_neg (by omega), if_pos (.inl hneg)]
  · -- A code point is valid below the surrogates, or between them and the last one.
    have hvalid : v.toNat.isValidChar ↔ v < 0xD800 ∨ (0xDFFF < v ∧ v ≤ 0x10FFFF) := by
      unfold Nat.isValidChar
      omega
    by_cases hout : (0xD800 ≤ v ∧ v ≤ 0xDFFF) ∨ 0x10FFFF < v
    · rw [if_neg (by omega), if_pos (.inr hout)]
    · rw [if_pos (by omega), if_neg (by omega)]

/-- A refusal by a sink, which the reference machine does not know. -/
def Fault.IsRefusal (f : Fault) : Prop := f = .outputRefused ∨ f = .traceRefused

/-- A run was ended by a sink that refused. -/
def Outcome.IsRefusal (o : Outcome) : Prop := ∃ f, o = .failed f ∧ f.IsRefusal

namespace Engine

/-- The machine that an engine stands for. -/
def machine (e : Engine) : Machine :=
  ⟨e.pc, e.operands.items, e.returns.items, e.output.toList⟩

/-- The engine runs the words `w`, and has noted how many they are, on stacks with `c` and `r`
slots, and these are the operands of its present instruction. -/
structure Hosts (w : List Int) (c r : Nat) (params : List Int) (e : Engine) : Prop where
  size : e.size = w.length
  operands : e.operands.capacity = c
  returns : e.returns.capacity = r
  params : e.params = params

/-! ### Results and steps -/

/-- What an engine does is what its machine does: both go on, or both fail for the same cause,
unless a sink refused. -/
inductive Refines : EStateM.Result Fault Engine Unit → Outcome × Machine → Prop
  | ok {s : Engine} : Refines (.ok () s) (.running, s.machine)
  | error {f : Fault} {s : Engine} : Refines (.error f s) (.failed f, s.machine)
  | refused {f : Fault} {s : Engine} {x : Outcome × Machine} (h : f.IsRefusal) :
      Refines (.error f s) x

section

variable {w : List Int} {c r : Nat} {params : List Int} {s : Engine}

/-- The machine sees the words that a sized engine sees. The machine goes by the length of the
list, and the engine by the number that it has noted. -/
private theorem Sized.wordAt_words {e : Engine} (h : e.Sized) :
    Machine.wordAt e.words = e.word? := by
  funext a
  have hsize : e.size = e.words.length := h
  unfold Machine.wordAt
  by_cases hin : 0 ≤ a ∧ a < e.words.length
  · rw [if_pos hin, word?, if_pos (by omega)]
    unfold words at hin ⊢
    cases hp : e.program with
    | none =>
      -- Without a program, no address passes.
      rw [hp] at hin
      exact absurd hin.2 (by show ¬ a < (0 : Int); omega)
    | some p =>
      show p.words.toList[a.toNat]? = p.word? a
      rw [Program.word?, if_pos hin.1, Array.getElem?_toList]
  · rw [if_neg hin, word?_of_outside (by omega)]

/-- Popping an operand, with what follows. It leaves room for another one, which the sum of two
operands relies on. -/
private theorem refines_pop {k : Int → Action Unit} {l : Int → Machine → Outcome × Machine}
    (h : ∀ v t, Hosts w c r params t → t.machine.operands.length ≠ c →
      Refines (k v t) (l v t.machine))
    (hs : Hosts w c r params s) : Refines ((pop >>= k) s) (s.machine.popThen l) := by
  cases hpop : s.operands.pop with
  | error f =>
    obtain ⟨hnil, rfl⟩ := Stack.pop_eq_error_iff.mp hpop
    have hitems : s.machine.operands = [] := List.reverse_eq_nil_iff.mp hnil
    rw [bind_of_error (pop_of_error hpop), Machine.popThen, hitems]
    exact .error
  | ok vo =>
    obtain ⟨v, o⟩ := vo
    obtain ⟨hitems, hfree⟩ := Stack.items_pop hpop
    have hcapacity : o.items.length + o.free = c :=
      (Stack.capacity_pop hpop).trans hs.operands
    have hmachine : s.machine.operands = v :: o.items := hitems
    rw [bind_of_ok (pop_of_ok hpop), Machine.popThen, hmachine]
    refine h v _ ⟨hs.size, hcapacity, hs.returns, hs.params⟩ ?_
    -- The slot of the popped item is free now.
    show o.items.length ≠ c
    omega

/-- Popping a return address, with what follows. -/
private theorem refines_popReturn {k : Int → Action Unit} {l : Int → Machine → Outcome × Machine}
    (h : ∀ a t, Hosts w c r params t → Refines (k a t) (l a t.machine))
    (hs : Hosts w c r params s) :
    Refines ((popReturn >>= k) s) (s.machine.popReturnThen l) := by
  cases hpop : s.returns.pop with
  | error f =>
    obtain ⟨hnil, rfl⟩ := Stack.pop_eq_error_iff.mp hpop
    have hitems : s.machine.returns = [] := List.reverse_eq_nil_iff.mp hnil
    rw [bind_of_error (popReturn_of_error hpop), Machine.popReturnThen, hitems]
    exact .error
  | ok ao =>
    obtain ⟨a, o⟩ := ao
    have hmachine : s.machine.returns = a :: o.items := (Stack.items_pop hpop).1
    rw [bind_of_ok (popReturn_of_ok hpop), Machine.popReturnThen, hmachine]
    exact h a _ ⟨hs.size, hs.operands, (Stack.capacity_pop hpop).trans hs.returns, hs.params⟩

/-- Looking up the operand of the instruction. The machine has read it already and does nothing
here. -/
private theorem refines_operand {x : Int} {k : Int → Action Unit} {y : Outcome × Machine}
    (h : Refines (k x s) y) (hs : Hosts w c r [x] s) :
    Refines ((operand >>= k) s) y := by
  rwa [bind_of_ok (operand_of_cons hs.params)]

/-- Pushing an operand where there may be no room. The machine compares the length of its list with
the capacity. -/
private theorem refines_push (v : Int) (hs : Hosts w c r params s) :
    Refines (push v s)
      (if s.machine.operands.length = c then (.failed .stackOverflow, s.machine)
        else (.running, { s.machine with operands := v :: s.machine.operands })) := by
  have hcapacity : s.operands.items.length + s.operands.free = c := hs.operands
  simp only [push]
  cases hpush : s.operands.push v with
  | error f =>
    obtain ⟨hfree, rfl⟩ := Stack.push_eq_error_iff.mp hpush
    -- No free slot means as many items as slots.
    have hfull : s.machine.operands.length = c := by
      show s.operands.items.length = c
      omega
    rw [if_pos hfull]
    exact .error
  | ok o =>
    obtain ⟨hitems, hfree⟩ := Stack.items_push hpush
    have hroom : s.machine.operands.length ≠ c := by
      show s.operands.items.length ≠ c
      omega
    have hmachine : { s.machine with operands := v :: s.machine.operands }
        = machine { s with operands := o } := by simp only [machine, hitems]
    rw [if_neg hroom, hmachine]
    exact .ok

/-- Pushing a return address where there may be no room, with what follows. The machine compares
the depth with the capacity, and the engine counts free slots. -/
private theorem refines_pushReturn (a : Int) {k : Unit → Action Unit}
    {l : Machine → Outcome × Machine}
    (h : ∀ t, Hosts w c r params t → Refines (k () t) (l t.machine))
    (hs : Hosts w c r params s) :
    Refines ((pushReturn a >>= k) s)
      (if s.machine.returns.length = r then (.failed .stackOverflow, s.machine)
        else l { s.machine with returns := a :: s.machine.returns }) := by
  have hcapacity : s.returns.items.length + s.returns.free = r := hs.returns
  cases hpush : s.returns.push a with
  | error f =>
    obtain ⟨hfree, rfl⟩ := Stack.push_eq_error_iff.mp hpush
    have hfull : s.machine.returns.length = r := by
      show s.returns.items.length = r
      omega
    rw [bind_of_error (pushReturn_of_error hpush), if_pos hfull]
    exact .error
  | ok o =>
    obtain ⟨hitems, hfree⟩ := Stack.items_push hpush
    have hroom : s.machine.returns.length ≠ r := by
      show s.returns.items.length ≠ r
      omega
    have hmachine : { s.machine with returns := a :: s.machine.returns }
        = machine { s with returns := o } := by simp only [machine, hitems]
    rw [bind_of_ok (pushReturn_of_ok hpush), if_neg hroom, hmachine]
    exact h _ ⟨hs.size, hs.operands, (Stack.capacity_push hpush).trans hs.returns, hs.params⟩

/-- Jumping. The bound of the engine is the number that it has noted, and that of the machine the
length of the words. -/
private theorem refines_jump (a : Int) (hs : Hosts w c r params s) :
    Refines (jump a s) (s.machine.goTo w a) := by
  simp only [jump, Machine.goTo, ← hs.size]
  by_cases ha : a < 0 ∨ s.size ≤ a
  · rw [if_pos ha, if_neg (by omega)]
    exact .error
  · rw [if_neg ha, if_pos (by omega)]
    exact .ok

/-- Writing a character. This is where a sink can part the two, since the machine writes to a list.
-/
private theorem refines_emit (a : Char) :
    Refines (emit a s)
      (.running, { s.machine with output := s.machine.output ++ [a] }) := by
  simp only [emit]
  cases hwrite : s.output.write a with
  | none => exact .refused (.inl rfl)
  | some o =>
    have hmachine : { s.machine with output := s.machine.output ++ [a] }
        = machine { s with output := o } := by simp only [machine, Sink.toList_write hwrite]
    rw [hmachine]
    exact .ok

/-- A machine that has read the opcode of an instruction does what an engine does that has read its
operands as well. The instructions are put together from the actions before. -/
private theorem refines_effect {i : Instr} (hi : i ≠ .halt) {m : Machine}
    (hblock : block? (Machine.wordAt w) m.pc i.arity = some params)
    (hm : s.machine = { m with pc := m.pc + i.arity }) (hs : Hosts w c r params s) :
    Refines (effect i s) (Machine.perform w c r i.opcode m) := by
  -- Without operands both have read the same.
  have hsame (harity : i.arity = 0) : m = s.machine := by
    rw [hm, harity]
    simp
  -- With an operand, the machine reads it now.
  have hread (harity : i.arity = 1) : ∃ x, params = [x] ∧
      ∀ next, m.readThen w next = next x s.machine := by
    rw [harity] at hblock hm
    obtain ⟨x, hword, hparams⟩ := block?_one hblock
    refine ⟨x, hparams, fun next => ?_⟩
    rw [Machine.readThen, hword, hm]
    rfl
  have hjump {x : Int} {t : Engine} (ht : Hosts w c r [x] t) :
      Refines ((do let a ← operand; jump a : Action Unit) t) (t.machine.goTo w x) :=
    refines_operand (refines_jump x ht) ht
  cases i with
  | halt => exact absurd rfl hi
  | nop =>
    rw [hsame rfl]
    exact .ok
  | print =>
    rw [hsame rfl]
    simp only [Instr.opcode, Machine.perform]
    refine refines_pop (fun v t ht _ => ?_) hs
    rw [← Word.toChar_eq_character]
    exact refines_emit _
  | pop =>
    rw [hsame rfl]
    simp only [Instr.opcode, Machine.perform]
    exact refines_pop (fun v t ht _ => .ok) hs
  | add =>
    rw [hsame rfl]
    simp only [Instr.opcode, Machine.perform]
    -- Two items were popped, so the sum never lacks room.
    refine refines_pop (fun a t ht _ => refines_pop (fun b u hu hroom => ?_) ht) hs
    have hsum : Word.add a b = (a + b).bmod (2 ^ 32) := Word.wrap_eq_bmod (a + b)
    have hpush := refines_push (Word.add a b) hu
    rw [if_neg hroom] at hpush
    rw [← hsum]
    exact hpush
  | jmp =>
    rw [hsame rfl]
    simp only [Instr.opcode, Machine.perform]
    exact refines_pop (fun a t ht _ => refines_jump a ht) hs
  | push =>
    obtain ⟨x, rfl, hnext⟩ := hread rfl
    simp only [Instr.opcode, Machine.perform, hnext]
    exact refines_operand (refines_push x hs) hs
  | jz =>
    obtain ⟨x, rfl, hnext⟩ := hread rfl
    simp only [Instr.opcode, Machine.perform, hnext]
    refine refines_pop (fun v t ht _ => ?_) hs
    by_cases hv : v = 0
    · simpa only [if_pos hv] using hjump ht
    · simpa only [if_neg hv] using .ok
  | jnz =>
    obtain ⟨x, rfl, hnext⟩ := hread rfl
    simp only [Instr.opcode, Machine.perform, hnext]
    refine refines_pop (fun v t ht _ => ?_) hs
    by_cases hv : v ≠ 0
    · simpa only [if_pos hv] using hjump ht
    · simpa only [if_neg hv] using .ok
  | call =>
    obtain ⟨x, rfl, hnext⟩ := hread rfl
    simp only [Instr.opcode, Machine.perform, hnext]
    exact refines_pushReturn s.pc (fun t ht => hjump ht) hs
  | ret =>
    rw [hsame rfl]
    simp only [Instr.opcode, Machine.perform]
    exact refines_popReturn (fun a t ht => refines_jump a ht) hs

end

/-! ### Turns and runs -/

/-- A fault leaves the machine that an engine stands for, which has no phase. -/
private theorem machine_faulted (s : Engine) (f : Fault) : (s.faulted f).machine = s.machine := by
  obtain ⟨_, hphase⟩ := s.exists_faulted_eq f
  rw [hphase]
  rfl

/-- What an action refines, the turn that it concludes refines. The phase that a fault sets has no
part in the machine. -/
private theorem concluded_refines {x : EStateM.Result Fault Engine Unit} {y : Outcome × Machine}
    (h : Refines x y) : (concluded .running x).1.IsRefusal ∨
      ((concluded .running x).1, (concluded .running x).2.machine) = y := by
  cases h with
  | ok => exact .inr rfl
  | @error f s => exact .inr (by simp only [concluded, machine_faulted])
  | refused h => exact .inl ⟨_, rfl, h⟩

/-- One iteration refines one step. The five ways to read an instruction are taken one by one; only
in the last is there an effect to compare. -/
theorem turn_refines_step {e : Engine} (h : e.Sized) : e.turn.1.IsRefusal ∨
    (e.turn.1, e.turn.2.machine)
      = Machine.step e.words e.operands.capacity e.returns.capacity e.machine := by
  have hread : Machine.wordAt e.words = e.word? := h.wordAt_words
  have hword : Machine.wordAt e.words e.machine.pc = e.word? e.pc := congrFun hread e.pc
  rw [Machine.step, hword]
  cases hd : e.decoded with
  | outside =>
    have hnone := decode_eq_outside_iff.mp hd
    obtain ⟨hcause, hstays⟩ := h.absence hnone
    rw [hnone, turn_of_outside hd, hcause, hstays]
    exact .inr rfl
  | unknown w =>
    obtain ⟨hw, hnone⟩ := decode_eq_unknown_iff.mp hd
    simp only [hw, Machine.perform_of_unknown hnone, turn_of_unknown hd]
    exact .inr rfl
  | cut i =>
    obtain ⟨harity, hnone⟩ := arity_of_cut hd
    have hw := (decode_eq_cut_iff.mp hd).1
    obtain ⟨hcause, hstays⟩ := h.absence hnone
    have hmissing := Machine.perform_of_missing (c := e.operands.capacity)
      (r := e.returns.capacity) (m := { e.machine with pc := e.pc + 1 }) harity
      ((congrFun hread _).trans hnone)
    simp only [hw, turn_of_cut hd, hcause, hstays]
    exact .inr hmissing.symm
  | ready i params =>
    obtain ⟨hw, hblock⟩ := decode_eq_ready_iff.mp hd
    simp only [hw]
    by_cases hi : i = .halt
    · subst hi
      rcases turn_cases_of_halt hd with ⟨m, _, hturn⟩ | ⟨_, hturn⟩
      · rw [hturn]
        exact .inr rfl
      · rw [hturn]
        exact .inl ⟨_, rfl, .inr rfl⟩
    · rcases turn_cases_of_ready hd hi with ⟨m, _, hturn⟩ | ⟨_, hturn⟩
      · have hhosts : Hosts e.words e.operands.capacity e.returns.capacity params
            { e.loaded i params with monitor := m } := ⟨h, rfl, rfl, rfl⟩
        rw [← hread] at hblock
        rw [hturn]
        -- The machine has read the opcode only; the engine has all its words.
        exact concluded_refines
          (refines_effect hi (m := { e.machine with pc := e.pc + 1 }) hblock rfl hhosts)
      · rw [hturn]
        exact .inl ⟨_, rfl, .inr rfl⟩

/-- A run refines a run of the machine, by induction from its first iteration on. The words and the
capacities are those at the start, since no iteration changes them. -/
theorem runFor_refines_run {e : Engine} (h : e.Sized) (n : Nat) : (e.runFor n).1.IsRefusal ∨
    ((e.runFor n).1, (e.runFor n).2.machine)
      = Machine.run e.words e.operands.capacity e.returns.capacity n e.machine := by
  induction n generalizing e with
  | zero => exact .inr rfl
  | succ n ih =>
    have hturn := turn_refines_step h
    have hframe := turn_frame e
    have hsized := h.turn
    rw [Machine.run]
    simp only [runFor]
    cases hx : e.turn with
    | mk o s =>
      rw [hx] at hturn hframe hsized
      rcases hturn with hrefused | hstep
      · obtain ⟨f, rfl, hf⟩ := hrefused
        exact .inl ⟨f, rfl, hf⟩
      · rw [← hstep]
        cases o with
        | running =>
          -- The words and the capacities are still those of the start.
          have hprogram : s.program = e.program := hframe.program
          have hwords : s.words = e.words := by simp only [words, hprogram]
          have hrun := ih hsized
          rw [hwords, hframe.operands, hframe.returns] at hrun
          exact hrun
        | halted => exact .inr rfl
        | failed f => exact .inr rfl

/-! ### Sinks that never refuse -/

/-- Neither the output nor the trace of the engine is ever refused. -/
structure Unobstructed (e : Engine) : Prop where
  output : e.output.Total
  trace : e.TracesFreely

/-- No action makes sinks refuse that take everything, and none but a sink's refusal is one. It has
nothing to say of values, only of causes. -/
private theorem contract_unobstructed :
    Contract Unobstructed (fun f => ¬ f.IsRefusal) Any Any where
  push _ _ := keeps_push (by simp [Fault.IsRefusal]) fun _ _ h _ => ⟨h.output, h.trace⟩
  pop := keeps_pop (by simp [Fault.IsRefusal]) fun _ _ _ h _ => ⟨trivial, h.output, h.trace⟩
  pushReturn _ _ := keeps_pushReturn (by simp [Fault.IsRefusal]) fun _ _ h _ =>
    ⟨h.output, h.trace⟩
  popReturn := keeps_popReturn (by simp [Fault.IsRefusal]) fun _ _ _ h _ =>
    ⟨trivial, h.output, h.trace⟩
  emit c := by
    intro s h
    obtain ⟨o, hwrite, htotal⟩ := Sink.write_of_total h.output c
    simp only [emit, hwrite]
    exact .ok trivial ⟨htotal, h.trace⟩
  jump _ := keeps_jump (by simp [Fault.IsRefusal]) fun _ h _ _ => ⟨h.output, h.trace⟩
  operand _ h hne := sound_operand h hne fun _ _ => trivial
  add _ _ _ _ := trivial

/-- A run is never refused by sinks that take everything. It removes the one way in which an engine
and the machine can part. -/
theorem not_isRefusal_of_unobstructed {e : Engine} (h : e.Unobstructed) (n : Nat) :
    ¬ (e.runFor n).1.IsRefusal := by
  have hends := contract_unobstructed.runFor (fun s h r => ⟨h.output, h.trace⟩)
    (fun s i h hi => by
      obtain ⟨m, hm, hfree⟩ := announce_of_tracesFreely h.trace hi
      rw [hm]
      exact .ok trivial ⟨h.output, hfree⟩)
    (fun s a _ _ => not_or.mpr (s.absence_ne_refused a)) (fun _ => by simp [Fault.IsRefusal]) h n
  rintro ⟨f, hf, hrefusal⟩
  exact hends.cause f hf hrefusal

/-- Runs refine the reference machine. After any number of iterations a sized engine, with whatever
words and stacks, has gone on, halted, or failed exactly as its machine has after as many steps,
with the same cause, and it stands for the state that the machine has reached, whatever was popped
or pushed before a failure. This is so unless a sink has refused an item, and sinks that take
everything never do. -/
theorem runFor_refines_machine {e : Engine} (hsized : e.Sized) (n : Nat) :
    (¬ (e.runFor n).1.IsRefusal →
      ((e.runFor n).1, (e.runFor n).2.machine)
        = Machine.run e.words e.operands.capacity e.returns.capacity n e.machine) ∧
    (e.Unobstructed → ¬ (e.runFor n).1.IsRefusal) := by
  refine ⟨fun hrefusal => ?_, fun h => not_isRefusal_of_unobstructed h n⟩
  rcases runFor_refines_run hsized n with hrefused | hrun
  · exact absurd hrefused hrefusal
  · exact hrun

/-- The machine of a call that writes a letter stops behind the stop, with both stacks empty and
the letter written. So does the engine. -/
theorem runFor_refines_machine_callLetter :
    (callLetter false).Sized ∧ (callLetter false).Unobstructed ∧
      ¬ ((callLetter false).runFor 5).1.IsRefusal ∧
      ((callLetter false).runFor 5).1 = .halted ∧
      ((callLetter false).runFor 5).2.machine = ⟨3, [], [], ['A']⟩ := by
  have hfree : (callLetter false).Unobstructed := ⟨fun _ _ => rfl, nofun⟩
  have hsized : (callLetter false).Sized := rfl
  obtain ⟨hrun, hrefusal⟩ := runFor_refines_machine hsized 5
  have hmachine : Machine.run (callLetter false).words (callLetter false).operands.capacity
      (callLetter false).returns.capacity 5 (callLetter false).machine
      = (.halted, ⟨3, [], [], ['A']⟩) := by decide +kernel
  have hend := hrun (hrefusal hfree)
  rw [hmachine] at hend
  obtain ⟨houtcome, hstate⟩ := Prod.mk.inj hend
  exact ⟨hsized, hfree, hrefusal hfree, houtcome, hstate⟩

end Engine

end StackMachine
