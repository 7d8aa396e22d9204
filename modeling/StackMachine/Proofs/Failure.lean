import StackMachine.Proofs.Contract

/-!
# `StackMachine.Proofs.Failure`: what a failing iteration leaves behind

Nothing is rolled back when an iteration fails, so how much it has done is part of what it
means. `Failure e f t` lists the ways in which an iteration of `e` fails for the cause `f` and
leaves `t`: its words could not be read, its trace line was refused, or its instruction was
thwarted. In the last case only the stacks tell that the instruction was begun, and `Thwarted`
says what is the case in the engine that makes the cause a true one.

- `reasoned_effect`: an instruction whose operands are at hand fails in no other way.
- `failure_of_turn` and `turn_halted`: the same for an iteration, and how it halts.
- `exists_turn_of_ended`: a run that has ended did so in one of its iterations.
-/

set_option autoImplicit false

namespace StackMachine.Engine

/-- The engine `t` is `s` but for the stacks. -/
def Restacked (s t : Engine) : Prop := ∃ o r, t = { s with operands := o, returns := r }

/-- An engine whose stacks were not touched is one of those. -/
theorem Restacked.refl (s : Engine) : Restacked s s := ⟨s.operands, s.returns, rfl⟩

/-- What is the case in an engine that an instruction has left, when it has failed. -/
inductive Thwarted : Fault → Engine → Prop
  | full {t : Engine} (h : t.operands.free = 0 ∨ t.returns.free = 0) : Thwarted .stackOverflow t
  | empty {t : Engine} (h : t.operands.toList = [] ∨ t.returns.toList = []) :
      Thwarted .stackUnderflow t
  | outside {t : Engine} {a : Int} (h : a < 0 ∨ t.size ≤ a) : Thwarted (.jumpOutOfBounds a) t
  | refused {t : Engine} {c : Char} (h : t.output.write c = none) : Thwarted .outputRefused t

/-! ### Actions inside an instruction

A jump and a write to the output come last in every instruction that has one. Only for the
actions before them does it matter what they leave when they succeed. -/

/-- A result that leaves a state in `I`, or fails for a reason where only the stacks of `s` have
changed. -/
inductive Reasoned (s : Engine) (I : Engine → Prop) {α : Type} :
    EStateM.Result Fault Engine α → Prop
  | ok {v : α} {t : Engine} (ht : I t) : Reasoned s I (.ok v t)
  | error {f : Fault} {t : Engine} (ht : Restacked s t) (hf : Thwarted f t) :
      Reasoned s I (.error f t)

/-- An action has such results wherever only the stacks of `s` have changed. -/
def ReasonedIn (s : Engine) (I : Engine → Prop) {α : Type} (a : Action α) : Prop :=
  ∀ t, Restacked s t → Reasoned s I (a t)

section

variable {s : Engine} {I : Engine → Prop} {α β : Type}

/-- Two actions have such results one after the other, if the first leaves all but the stacks alone
when it succeeds. -/
private theorem ReasonedIn.bind {a : Action α} {k : α → Action β}
    (ha : ReasonedIn s (Restacked s) a)
    (hk : ∀ v, ReasonedIn s I (k v)) : ReasonedIn s I (a >>= k) := by
  intro t ht
  show Reasoned s I (EStateM.bind a k t)
  unfold EStateM.bind
  have hresult := ha t ht
  generalize a t = r at hresult ⊢
  cases hresult with
  | ok hu => exact hk _ _ hu
  | error hu hf => exact .error hu hf

/-- An action that does nothing does not fail. -/
private theorem reasonedIn_pure (v : α) : ReasonedIn s Any (pure v : Action α) :=
  fun _ _ => .ok trivial

/-- A pop fails only on an empty stack. -/
private theorem reasonedIn_pop : ReasonedIn s (Restacked s) pop := by
  intro t ht
  cases hpop : t.operands.pop with
  | ok vo =>
    obtain ⟨_, r, rfl⟩ := ht
    rw [pop_of_ok hpop]
    exact .ok ⟨_, r, rfl⟩
  | error f =>
    obtain ⟨hnil, rfl⟩ := Stack.pop_eq_error_iff.mp hpop
    rw [pop_of_error hpop]
    exact .error ht (.empty (.inl hnil))

/-- A push on the return stack fails only if that stack is full. The cause does not tell which
stack it was, and the instruction does. -/
private theorem reasonedIn_pushReturn (a : Int) : ReasonedIn s (Restacked s) (pushReturn a) := by
  intro t ht
  cases hpush : t.returns.push a with
  | ok r =>
    obtain ⟨o, _, rfl⟩ := ht
    rw [pushReturn_of_ok hpush]
    exact .ok ⟨o, r, rfl⟩
  | error f =>
    obtain ⟨hfree, rfl⟩ := Stack.push_eq_error_iff.mp hpush
    rw [pushReturn_of_error hpush]
    exact .error ht (.full (.inr hfree))

/-- A pop of the return stack fails only if that stack is empty. -/
private theorem reasonedIn_popReturn : ReasonedIn s (Restacked s) popReturn := by
  intro t ht
  cases hpop : t.returns.pop with
  | ok ar =>
    obtain ⟨o, _, rfl⟩ := ht
    rw [popReturn_of_ok hpop]
    exact .ok ⟨o, _, rfl⟩
  | error f =>
    obtain ⟨hnil, rfl⟩ := Stack.pop_eq_error_iff.mp hpop
    rw [popReturn_of_error hpop]
    exact .error ht (.empty (.inr hnil))

/-- The operands are not on a stack, so one that was at hand still is, whatever the actions before
have done to the stacks. -/
private theorem reasonedIn_operand (hne : s.params ≠ []) : ReasonedIn s (Restacked s) operand := by
  intro t ht
  obtain ⟨x, rest, hx⟩ := List.exists_cons_of_ne_nil hne
  have hoperand : operand t = .ok x t := by
    obtain ⟨o, r, rfl⟩ := ht
    exact operand_of_cons hx
  rw [hoperand]
  exact .ok ht

/-- A push fails only on a full stack. It comes last, so it need not leave all but the stacks
alone. -/
private theorem reasonedIn_push (v : Int) : ReasonedIn s Any (push v) := by
  intro t ht
  unfold push
  cases hpush : t.operands.push v with
  | ok o => exact .ok trivial
  | error f =>
    obtain ⟨hfree, rfl⟩ := Stack.push_eq_error_iff.mp hpush
    exact .error ht (.full (.inl hfree))

/-- A write fails only if the sink refuses the character. It comes last as well. -/
private theorem reasonedIn_emit (c : Char) : ReasonedIn s Any (emit c) := by
  intro t ht
  unfold emit
  cases hwrite : t.output.write c with
  | some o => exact .ok trivial
  | none => exact .error ht (.refused hwrite)

/-- A jump fails only for an address out of bounds. It comes last as well. -/
private theorem reasonedIn_jump (a : Int) : ReasonedIn s Any (jump a) := by
  intro t ht
  unfold jump
  split
  · rename_i ha
    exact .error ht (.outside ha)
  · exact .ok trivial

/-- Nor does a jump to an operand that is at hand fail for any other reason. -/
private theorem reasonedIn_jumpToOperand (hne : s.params ≠ []) :
    ReasonedIn s Any (do let a ← operand; jump a) :=
  (reasonedIn_operand hne).bind reasonedIn_jump

/-- An instruction whose operands are at hand fails only for a reason, and has changed nothing but
the stacks then. The instructions are put together from the actions before. -/
private theorem reasoned_effect {i : Instr} (harity : i.arity ≤ s.params.length) :
    Reasoned s Any (effect i s) := by
  have hne (hi : 0 < i.arity) : s.params ≠ [] :=
    List.ne_nil_of_length_pos (Nat.lt_of_lt_of_le hi harity)
  have hs : Restacked s s := Restacked.refl s
  cases i with
  | halt | nop => exact reasonedIn_pure () s hs
  | print => exact reasonedIn_pop.bind (fun v => reasonedIn_emit _) s hs
  | push => exact (reasonedIn_operand (hne Nat.one_pos)).bind reasonedIn_push s hs
  | pop => exact reasonedIn_pop.bind (fun _ => reasonedIn_pure ()) s hs
  | add =>
    exact reasonedIn_pop.bind (fun a => reasonedIn_pop.bind fun b => reasonedIn_push _) s hs
  | jmp => exact reasonedIn_pop.bind reasonedIn_jump s hs
  | jz =>
    refine reasonedIn_pop.bind (fun v => ?_) s hs
    by_cases hv : v = 0
    · simpa only [if_pos hv] using reasonedIn_jumpToOperand (hne Nat.one_pos)
    · simpa only [if_neg hv] using reasonedIn_pure ()
  | jnz =>
    refine reasonedIn_pop.bind (fun v => ?_) s hs
    by_cases hv : v ≠ 0
    · simpa only [if_pos hv] using reasonedIn_jumpToOperand (hne Nat.one_pos)
    · simpa only [if_neg hv] using reasonedIn_pure ()
  | call =>
    -- The address that is pushed is read off the state first.
    show Reasoned s Any ((do pushReturn s.pc; let a ← operand; jump a : Action Unit) s)
    exact (reasonedIn_pushReturn s.pc).bind
      (fun _ => reasonedIn_jumpToOperand (hne Nat.one_pos)) s hs
  | ret => exact reasonedIn_popReturn.bind reasonedIn_jump s hs

end

/-! ### Iterations -/

/-- The ways in which an iteration fails, with the state that it leaves. -/
inductive Failure (e : Engine) : Fault → Engine → Prop
  /-- There is no word to read. -/
  | outside (hd : e.decoded = .outside) :
      Failure e (e.absence e.pc)
        (faulted { e with phase := .fetching, origin := e.pc, pc := e.stranded e.pc }
          (e.absence e.pc))
  /-- The word that was read is no opcode. -/
  | unknown {w : Int} (hd : e.decoded = .unknown w) :
      Failure e (.unknownOpcode w) { e.opened w with phase := .errored }
  /-- There is no operand to read. -/
  | cut {i : Instr} (hd : e.decoded = .cut i) :
      Failure e (e.absence (e.pc + 1))
        (faulted { e.opened i.opcode with pc := e.stranded (e.pc + 1) } (e.absence (e.pc + 1)))
  /-- The line of a stop is refused. -/
  | haltLine {params : List Int} (hd : e.decoded = .ready .halt params)
      (hline : (e.opened Instr.halt.opcode).monitor.lines.write
        ((e.opened Instr.halt.opcode).line (described .halt e.params)) = none) :
      Failure e .traceRefused (e.opened Instr.halt.opcode)
  /-- The line of another instruction is refused. -/
  | line {i : Instr} {params : List Int} (hd : e.decoded = .ready i params) (hi : i ≠ .halt)
      (hline : (e.loaded i params).monitor.lines.write
        ((e.loaded i params).line (described i params)) = none) :
      Failure e .traceRefused (e.loaded i params)
  /-- The instruction is begun, but something is in its way. -/
  | thwarted {i : Instr} {params : List Int} {m : Monitor} {o r : Stack} {f : Fault}
      (hd : e.decoded = .ready i params) (hi : i ≠ .halt)
      (hf : Thwarted f { e.loaded i params with monitor := m, operands := o, returns := r }) :
      Failure e f
        (faulted { e.loaded i params with monitor := m, operands := o, returns := r } f)

variable {e t : Engine}

/-- An announcement that is refused is refused by the monitor, since the operands are at hand.
Outside a run it might be refused for a missing operand. -/
private theorem write_of_announce {i : Instr} {f : Fault} (hi : i.arity ≤ e.params.length)
    (h : announce i e = .error f t) :
    e.monitor.lines.write (e.line (described i e.params)) = none := by
  cases ht : e.tracing with
  | false =>
    rw [announce_of_not_tracing ht] at h
    cases h
  | true =>
    rw [announce_of_tracing ht hi] at h
    unfold trace at h
    split at h
    · cases h
    · assumption

/-- A failing iteration fails in one of these ways. What is proved of failures is a case analysis
over them, and no later proof asks where an iteration can stop. -/
theorem failure_of_turn {f : Fault} (h : e.turn = (.failed f, t)) : Failure e f t := by
  cases hd : e.decoded with
  | outside =>
    rw [turn_of_outside hd] at h
    cases h
    exact .outside hd
  | unknown w =>
    rw [turn_of_unknown hd] at h
    cases h
    exact .unknown hd
  | cut i =>
    rw [turn_of_cut hd] at h
    cases h
    exact .cut hd
  | ready i params =>
    by_cases hi : i = .halt
    · subst hi
      rcases turn_cases_of_halt hd with ⟨m, _, hturn⟩ | ⟨hrefused, hturn⟩
      · rw [hturn] at h
        cases h
      · rw [hturn] at h
        cases h
        exact .haltLine hd (write_of_announce (Nat.zero_le _) hrefused)
    · rcases turn_cases_of_ready hd hi with ⟨m, _, hturn⟩ | ⟨hrefused, hturn⟩
      · rw [hturn] at h
        cases heffect : effect i { e.loaded i params with monitor := m } with
        | ok v u =>
          rw [heffect] at h
          cases h
        | error g u =>
          rw [heffect] at h
          cases h
          have hreasoned := reasoned_effect (s := { e.loaded i params with monitor := m })
            (arity_le_of_ready hd)
          rw [heffect] at hreasoned
          cases hreasoned with
          | error hu hf =>
            obtain ⟨o, r, rfl⟩ := hu
            exact .thwarted hd hi hf
      · rw [hturn] at h
        cases h
        exact .line hd hi (write_of_announce (arity_le_of_ready hd) hrefused)

/-- An iteration that fails has written nothing: a write comes last, and this one was refused. So
what was written in a run was written by the iterations that went on. -/
theorem output_of_failed {f : Fault} (h : e.turn = (.failed f, t)) : t.output = e.output := by
  -- Many failures touch the phase last, and nothing of the output.
  cases failure_of_turn h with
  | unknown _ | haltLine _ _ | line _ _ _ => rfl
  | outside _ | cut _ | thwarted _ _ _ => exact output_faulted _ _

/-- An iteration that halts has announced a stop, and no more. The stacks and the output are those
from before. -/
theorem turn_halted (h : e.turn = (.halted, t)) :
    ∃ m, t = { e.opened Instr.halt.opcode with monitor := m, phase := .halted } := by
  cases hd : e.decoded with
  | outside =>
    rw [turn_of_outside hd] at h
    cases h
  | unknown w =>
    rw [turn_of_unknown hd] at h
    cases h
  | cut i =>
    rw [turn_of_cut hd] at h
    cases h
  | ready i params =>
    by_cases hi : i = .halt
    · subst hi
      rcases turn_cases_of_halt hd with ⟨m, _, hturn⟩ | ⟨_, hturn⟩
      · rw [hturn] at h
        cases h
        exact ⟨m, rfl⟩
      · rw [hturn] at h
        cases h
    · -- Other instructions go on or fail.
      rw [turn_of_ready hd hi] at h
      unfold concluded at h
      split at h
      · cases h
      · cases h

/-- A run that has ended did so in an iteration that began in some state of the run. What is known
of single iterations applies to the last one by this. -/
theorem exists_turn_of_ended {n : Nat} {o : Outcome} (h : e.runFor n = (o, t))
    (ho : o ≠ .running) : ∃ m s, m < n ∧ e.runFor m = (.running, s) ∧ s.turn = (o, t) := by
  induction n with
  | zero =>
    cases h
    exact absurd rfl ho
  | succ n ih =>
    cases hrun : e.runFor n with
    | mk o' s =>
      by_cases hgoes : o' = .running
      · subst hgoes
        rw [runFor_succ_of_running hrun] at h
        exact ⟨n, s, Nat.lt_succ_self n, hrun, h⟩
      · -- The run had ended before, and is still in that state.
        rw [runFor_add_of_ended 1 hrun hgoes, ← hrun] at h
        obtain ⟨m, u, hm, hreached, hturn⟩ := ih h
        exact ⟨m, u, Nat.lt_succ_of_lt hm, hreached, hturn⟩

end StackMachine.Engine
