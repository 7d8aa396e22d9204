import StackMachine.Proofs.Contract

/-!
# `StackMachine.Proofs.Reachable`: the states that a fresh engine can reach by running

A host may put any integer anywhere. An engine that is only loaded and run keeps much tighter
bounds, which nothing in it checks: `WellFormed` lists them. The word behind a return address is
the heart of it. A return address is always two words behind a call, so a return can leave the
program only over its end, and only to the address right there.

- `turn_wellFormed`: one iteration keeps the bounds, and also says where faults can point.
- `wellFormed_ofStacks`: a fresh engine with a program is within the bounds.
- `wellFormed_of_runs`: the bounds hold at every moment of every run in a row of runs.
-/

set_option autoImplicit false

namespace StackMachine

/-- An address to which a call in the program returns. -/
structure Program.IsReturnAddress (p : Program) (a : Int) : Prop where
  two_le : 2 ≤ a
  le_size : a ≤ p.size
  call : p.word? (a - 2) = some Instr.call.opcode

/-- Every slot of a stack, whether its value is live or stale, holds a word. -/
def Stack.HoldsWords (s : Stack) : Prop := ∀ v ∈ s.slots, Word.InRange v

/-- A stack of words remains one when a word is pushed. The word takes the place of a stale one, so
all slots have to be looked at, not the items alone. -/
private theorem Stack.HoldsWords.push {s t : Stack} {v : Int} (h : s.HoldsWords)
    (hv : Word.InRange v)
    (hpush : s.push v = .ok t) : t.HoldsWords := by
  intro x hx
  rw [slots_push hpush] at hx
  rcases List.mem_or_eq_of_mem_set hx with hx | rfl
  · exact h x hx
  · exact hv

/-- What is popped from a stack of words is a word, and it stays in its slot, where it is still one
of the slots that the invariant is about. -/
private theorem Stack.HoldsWords.pop {s t : Stack} {v : Int} (h : s.HoldsWords)
    (hpop : s.pop = .ok (v, t)) : Word.InRange v ∧ t.HoldsWords := by
  -- The popped item is itself one of the slots.
  have hmem : v ∈ s.slots := by
    simp only [slots, (items_pop hpop).1, List.reverse_cons, List.mem_append, List.mem_singleton]
    exact .inl (.inl (.inr trivial))
  refine ⟨h v hmem, fun x hx => ?_⟩
  rw [slots_pop hpop] at hx
  exact h x hx

/-- The slots of an empty stack hold zeros. -/
private theorem Stack.holdsWords_empty (n : Nat) : (Stack.empty n).HoldsWords := by
  intro v hv
  have hslots : (Stack.empty n).slots = List.replicate n 0 := by simp [Stack.empty, slots]
  rw [hslots] at hv
  rw [List.eq_of_mem_replicate hv]
  decide

/-- A stack never has more items than slots. -/
private theorem Stack.depth_le {s : Stack} {n : Nat} (h : s.capacity = n) : s.depth ≤ n := by
  rw [← h]
  exact Nat.le_add_right _ _

namespace Engine

/-- The bounds that a loaded engine with stacks of `c` and `r` slots keeps. -/
structure WellFormed (p : Program) (c r : Nat) (e : Engine) : Prop where
  frame : Frame (some p) p.size c r e
  origin : 0 ≤ e.origin ∧ e.origin ≤ p.size
  pc : 0 ≤ e.pc ∧ e.pc ≤ p.size
  opcode : Word.InRange e.opcode
  params : ∀ v ∈ e.params, Word.InRange v
  words : e.operands.HoldsWords
  operandTop : e.operands.depth ≤ c
  returnTop : e.returns.depth ≤ r
  returns : ∀ a ∈ e.returns.toList, p.IsReturnAddress a

/-- A fault that does not speak of the program counter. -/
def NotOutOfBounds (f : Fault) : Prop := ∀ a, f ≠ .outOfBounds a

section

variable {p : Program} {c r : Nat} {e : Engine}

/-- The number of words that was noted is that of the program. It is a part of the frame, so
nothing that an engine does can spoil it. -/
theorem WellFormed.size (h : WellFormed p c r e) : e.size = p.size := h.frame.size

/-- The engine reads the words of the program. -/
private theorem WellFormed.word? (h : WellFormed p c r e) : e.word? = p.word? :=
  (word?_congr h.frame.program h.frame.size (t := e.withProgram p)).trans (word?_withProgram e p)

/-- A word that is not there is out of bounds, since the noted number is the right one. With the
bounds on the program counter, it is the end of the program. -/
private theorem WellFormed.outside (h : WellFormed p c r e) {a : Int} (hnone : e.word? a = none) :
    a < 0 ∨ p.size ≤ a := by
  rw [h.word?] at hnone
  exact Program.word?_eq_none_iff.mp hnone

/-- The actions of an instruction keep the bounds: the operand stack deals in words, and the return
stack in return addresses. That a call pushes such an address is asked for apart. -/
theorem contract_wellFormed :
    Contract (WellFormed p c r) NotOutOfBounds Word.InRange p.IsReturnAddress where
  push v hv := keeps_push nofun fun s o h hpush =>
    have hcapacity := (Stack.capacity_push hpush).trans h.frame.operands
    { h with
      frame := { h.frame with operands := hcapacity }
      words := h.words.push hv hpush
      operandTop := Stack.depth_le hcapacity }
  pop := keeps_pop nofun fun s v o h hpop =>
    have hcapacity := (Stack.capacity_pop hpop).trans h.frame.operands
    ⟨(h.words.pop hpop).1,
      { h with
        frame := { h.frame with operands := hcapacity }
        words := (h.words.pop hpop).2
        operandTop := Stack.depth_le hcapacity }⟩
  pushReturn a ha := keeps_pushReturn nofun fun s o h hpush => by
    have hcapacity := (Stack.capacity_push hpush).trans h.frame.returns
    -- The new item is a return address by assumption, the others were before.
    have hreturns : ∀ b ∈ o.toList, p.IsReturnAddress b := by
      intro b hb
      rw [Stack.toList_push hpush] at hb
      rcases List.mem_append.mp hb with hb | hb
      · exact h.returns b hb
      · rwa [List.mem_singleton.mp hb]
    exact { h with
      frame := { h.frame with returns := hcapacity }
      returns := hreturns
      returnTop := Stack.depth_le hcapacity }
  popReturn := keeps_popReturn nofun fun s a o h hpop => by
    have hcapacity := (Stack.capacity_pop hpop).trans h.frame.returns
    have hall : ∀ b ∈ o.toList ++ [a], p.IsReturnAddress b := by
      rw [← Stack.toList_pop hpop]
      exact h.returns
    refine ⟨hall a (by simp), ?_⟩
    exact { h with
      frame := { h.frame with returns := hcapacity }
      returns := fun b hb => hall b (List.mem_append_left _ hb)
      returnTop := Stack.depth_le hcapacity }
  emit _ := keeps_emit (fun _ _ _ => nofun) fun _ _ h _ => { h with frame := { h.frame with } }
  jump a := keeps_jump nofun fun s h hpos hlt => by
    rw [h.size] at hlt
    exact { h with frame := { h.frame with }, pc := ⟨hpos, Int.le_of_lt hlt⟩ }
  operand _ h hne := sound_operand h hne h.params
  add a b _ _ := Word.wrap_inRange (a + b)

/-! ### One iteration -/

/-- How a turn or a run of a well-formed engine may end. -/
structure EndsWell (p : Program) (c r : Nat) (x : Outcome × Engine) : Prop where
  state : WellFormed p c r x.2
  /-- The program counter leaves the program only over its end. -/
  outOfBounds : ∀ a, x.1 = .failed (.outOfBounds a) → a = p.size
  /-- A return leaves the program only right behind a call at its end. -/
  returned : ∀ a, x.1 = .failed (.jumpOutOfBounds a) → x.2.opcode = Instr.ret.opcode →
    a = p.size ∧ p.word? (a - 2) = some Instr.call.opcode

/-- The phase is not bounded. -/
private theorem WellFormed.withPhase (h : WellFormed p c r e) (phase : Phase) :
    WellFormed p c r { e with phase } :=
  { h with frame := { h.frame with } }

/-- A fault touches the phase at most, so it keeps the bounds. -/
private theorem WellFormed.faulted (h : WellFormed p c r e) (f : Fault) :
    WellFormed p c r (e.faulted f) := by
  obtain ⟨phase, hphase⟩ := e.exists_faulted_eq f
  rw [hphase]
  exact h.withPhase phase

/-- Reading an opcode keeps the bounds: it is a word, and the program counter is at most at the end
then. -/
private theorem WellFormed.opened (h : WellFormed p c r e) {w : Int} (hw : e.word? e.pc = some w) :
    WellFormed p c r (e.opened w) := by
  have hin := bounds_of_word? hw
  have hsize := h.size
  exact { h with
    frame := { h.frame with }
    origin := h.pc
    pc := ⟨by show 0 ≤ e.pc + 1; omega, by show e.pc + 1 ≤ p.size; omega⟩
    opcode := inRange_of_word? hw }

/-- Reading a whole instruction keeps the bounds, since its operands are words of the program too.
-/
private theorem WellFormed.loaded (h : WellFormed p c r e) {i : Instr} {params : List Int}
    (hd : e.decoded = .ready i params) : WellFormed p c r (e.loaded i params) := by
  obtain ⟨hw, hblock⟩ := decode_eq_ready_iff.mp hd
  have hin := bounds_of_word? hw
  have hsize := h.size
  -- All operands were read, so the program counter is at most at the end.
  have hend := le_size_of_block? hblock (by omega)
  exact { h with
    frame := { h.frame with }
    origin := h.pc
    pc := ⟨by show 0 ≤ e.pc + 1 + i.arity; omega, by show e.pc + 1 + i.arity ≤ p.size; omega⟩
    opcode := inRange_of_word? hw
    params := fun v hv => by
      obtain ⟨b, hb⟩ := read_of_mem_block? hblock v hv
      exact inRange_of_word? hb }

/-- A loaded call stands two words in front of its return address. This is what makes a return
address more than a number. -/
private theorem WellFormed.isReturnAddress (h : WellFormed p c r e) {params : List Int}
    (hd : e.decoded = .ready .call params) :
    p.IsReturnAddress (e.loaded .call params).pc := by
  have hpc : (e.loaded .call params).pc = e.pc + 2 := by
    show e.pc + 1 + 1 = e.pc + 2
    omega
  have hw := (decode_eq_ready_iff.mp hd).1
  rw [h.word?] at hw
  have hle : e.pc + 2 ≤ p.size := by
    rw [← hpc]
    exact (h.loaded hd).pc.2
  rw [hpc]
  exact ⟨by have := h.pc.1; omega, hle, by rwa [Int.add_sub_cancel]⟩

/-- A return that cannot jump has popped the end of the program. Any other return address is that
of a word. -/
private theorem WellFormed.end_of_ret (h : WellFormed p c r e) {a : Int} {s : Engine}
    (hret : effect .ret e = .error (.jumpOutOfBounds a) s) :
    a = p.size ∧ p.word? (a - 2) = some Instr.call.opcode := by
  cases hpop : e.returns.pop with
  | error f =>
    -- An empty return stack is another fault.
    obtain ⟨_, rfl⟩ := Stack.pop_eq_error_iff.mp hpop
    rw [effect_ret_of_empty hpop] at hret
    cases hret
  | ok bo =>
    obtain ⟨b, o⟩ := bo
    rw [effect_ret hpop] at hret
    have hmem : b ∈ e.returns.toList := by
      rw [Stack.toList_pop hpop]
      exact List.mem_append_right _ (List.mem_singleton_self b)
    have hb := h.returns b hmem
    have hsize := h.size
    have hle := hb.le_size
    have htwo := hb.two_le
    simp only [jump] at hret
    split at hret
    · -- A return address is never negative, so it is beyond the last word.
      cases hret
      exact ⟨by omega, hb.call⟩
    · cases hret

/-- One iteration keeps the bounds, and if it fails, the cause points where `EndsWell` says. This
is the step of the induction, with the words that are decoded as its cases. -/
theorem turn_wellFormed (h : WellFormed p c r e) : EndsWell p c r e.turn := by
  have hsize := h.size
  cases hd : e.decoded with
  | outside =>
    have hout := h.outside (decode_eq_outside_iff.mp hd)
    have hpc := h.pc
    obtain ⟨hcause, hstays⟩ := absence_of_outside (e := e) (a := e.pc) (by omega)
    have hkept : WellFormed p c r { e with phase := .fetching, origin := e.pc, pc := e.pc } :=
      { h with frame := { h.frame with }, origin := h.pc }
    rw [turn_of_outside hd, hcause, hstays]
    refine ⟨hkept.faulted (.outOfBounds e.pc), fun a ha => ?_, nofun⟩
    -- Within the bounds, the only address without a word is the end.
    cases ha
    omega
  | unknown w =>
    rw [turn_of_unknown hd]
    exact ⟨(h.opened (decode_eq_unknown_iff.mp hd).1).withPhase .errored, nofun, nofun⟩
  | cut i =>
    have hw := (decode_eq_cut_iff.mp hd).1
    have hin := bounds_of_word? hw
    have hout := h.outside (arity_of_cut hd).2
    obtain ⟨hcause, hstays⟩ := absence_of_outside (e := e) (a := e.pc + 1) (by omega)
    rw [turn_of_cut hd, hcause, hstays]
    refine ⟨(h.opened hw).faulted (.outOfBounds (e.pc + 1)), fun a ha => ?_, nofun⟩
    cases ha
    omega
  | ready i params =>
    by_cases hi : i = .halt
    · subst hi
      have hopened := h.opened (decode_eq_ready_iff.mp hd).1
      rcases turn_cases_of_halt hd with ⟨m, _, hturn⟩ | ⟨_, hturn⟩
      · rw [hturn]
        refine ⟨?_, nofun, nofun⟩
        exact { hopened with frame := { hopened.frame with } }
      · rw [hturn]
        exact ⟨hopened.faulted .traceRefused, nofun, nofun⟩
    · have hloaded := h.loaded hd
      rcases turn_cases_of_ready hd hi with ⟨m, _, hturn⟩ | ⟨_, hturn⟩
      · -- The announcement has touched the monitor alone.
        have ht : WellFormed p c r { e.loaded i params with monitor := m } :=
          { hloaded with frame := { hloaded.frame with } }
        have heffect := contract_wellFormed.effect ht (arity_le_of_ready hd) fun hcall => by
          subst hcall
          exact h.isReturnAddress hd
        rw [hturn]
        cases hresult : effect i { e.loaded i params with monitor := m } with
        | ok _ u =>
          rw [hresult] at heffect
          cases heffect with
          | ok _ hu => exact ⟨hu.1, nofun, nofun⟩
        | error f u =>
          rw [hresult] at heffect
          cases heffect with
          | error hf hu =>
            refine ⟨hu.1.faulted f, fun a ha => ?_, fun a ha hopcode => ?_⟩
            · cases ha
              exact absurd rfl (hf a)
            · cases ha
              -- The opcode is still that of the instruction, so it is a return.
              have hsame : u.opcode = i.opcode := congrArg Registers.opcode hu.2
              have hret : i = .ret := opcode_injective (hsame.symm.trans hopcode)
              subst hret
              exact ht.end_of_ret hresult
      · rw [hturn]
        exact ⟨hloaded.faulted .traceRefused, nofun, nofun⟩

/-- A run of any length keeps the bounds. A run that has failed is not continued, so `EndsWell` of
its last iteration is what it ends in. -/
theorem runFor_wellFormed (h : WellFormed p c r e) (n : Nat) : EndsWell p c r (e.runFor n) :=
  runFor_induction ⟨h, nofun, nofun⟩ (fun _ hs => turn_wellFormed hs.state) n

/-- A fresh engine that was given a program is within the bounds: nothing but the program differs
from the state in which all is zero and empty. -/
theorem wellFormed_ofStacks (output : Sink Char) (monitor : Monitor) (p : Program) (c r : Nat) :
    WellFormed p c r
      ((ofStacks output monitor (Stack.empty c) (Stack.empty r)).withProgram p) where
  frame := ⟨rfl, rfl, Nat.zero_add _, Nat.zero_add _⟩
  origin := ⟨Int.le_refl 0, Int.natCast_nonneg _⟩
  pc := ⟨Int.le_refl 0, Int.natCast_nonneg _⟩
  opcode := (by decide : Word.InRange 0)
  params := fun _ hv => absurd hv List.not_mem_nil
  words := Stack.holdsWords_empty _
  operandTop := Nat.zero_le _
  returnTop := Nat.zero_le _
  returns := fun _ ha => absurd ha List.not_mem_nil

end

/-! ### Runs in a row -/

/-- The state after several runs in a row, each cut off after a number of iterations. A run that
has ended before its number stays ended, and the next one starts where it stopped. -/
def runs : List Nat → Engine → Engine
  | [], e => e
  | n :: ns, e => runs ns (e.runFor n).2

/-- So do several runs in a row. A failed run ends within the bounds, and the next one may begin
there. -/
private theorem runs_wellFormed {p : Program} {c r : Nat} {e : Engine} (h : WellFormed p c r e)
    (ns : List Nat) : WellFormed p c r (runs ns e) := by
  induction ns generalizing e with
  | nil => exact h
  | cons n ns ih => exact ih (runFor_wellFormed h n).state

/-- The states that an engine reaches by running alone. An engine can be made with stacks of any
numbers of slots that memory has room for. Let it be given any integers as a program, which only an
empty list of them prevents, and let it run any number of times in a row. At every moment of every
run, and after every failure, it is within the bounds of `WellFormed`. Moreover, a fetch fails only
at the end of the program, and a return fails only at the end of a program whose last two words are
a call and its target. -/
theorem wellFormed_of_runs {output : Sink Char} {monitor : Monitor} {c r : Nat} {memory : Memory}
    (hc : memory.hasRoom c) (hr : memory.hasRoom r) :
    ∃ e₀, Engine.new output monitor c r memory = .ok e₀ ∧
      ∀ vs, vs ≠ [] → ∃ e p, load vs e₀ = .ok () e ∧ e.program = some p ∧
        p.toList = vs.map Word.wrap ∧ ∀ ns n, EndsWell p c r ((runs ns e).runFor n) := by
  refine ⟨_, new_of_hasRoom hc hr, fun vs hne => ?_⟩
  obtain ⟨p, hp⟩ := Program.exists_ofInts hne
  refine ⟨_, p, load_of_ofInts hp _, rfl, Program.toList_of_ofInts hp, fun ns n => ?_⟩
  exact runFor_wellFormed (runs_wellFormed (wellFormed_ofStacks output monitor p c r) ns) n

/-- A jump leads to a call in the last two words, and that to a return, which fails at the end
of the program. Where memory has no end, the operand stack may have more slots than a word can
count. -/
theorem wellFormed_of_runs_call_at_end : ∃ e₀ e p,
    Engine.new Sink.unlimited ⟨false, Sink.unlimited⟩ 5000000000 2 = .ok e₀ ∧
    load [3, 4, 6, 10, 9, 3] e₀ = .ok () e ∧ e.program = some p ∧ p.size = 6 ∧
    ((runs [1] e).runFor 3).1 = .failed (.jumpOutOfBounds 6) ∧
    EndsWell p 5000000000 2 ((runs [1] e).runFor 3) := by
  have hall (n : Nat) : Memory.unlimited.hasRoom n := rfl
  obtain ⟨e₀, hnew, hruns⟩ := @wellFormed_of_runs Sink.unlimited ⟨false, Sink.unlimited⟩ _ _ _
    (hall 5000000000) (hall 2)
  obtain ⟨e, p, hload, hp, hwords, hends⟩ := hruns [3, 4, 6, 10, 9, 3] (by decide)
  have hsize : p.size = 6 := by
    rw [← p.length_toList, hwords]
    rfl
  refine ⟨e₀, e, p, hnew, hload, hp, hsize, ?_, hends [1] 3⟩
  -- The engine is known, so the run can be looked at.
  cases (new_of_hasRoom (hall 5000000000) (hall 2)).symm.trans hnew
  cases hload
  decide +kernel

end Engine

end StackMachine
