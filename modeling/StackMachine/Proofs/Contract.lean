import StackMachine.Proofs.Iteration

/-!
# `StackMachine.Proofs.Contract`: what every action of one engine keeps

An invariant of runs is shown one action at a time. `Contract I F V A` collects what there is to
show: every action keeps `I` and is refused only for causes in `F`, the operand stack takes and
gives values in `V`, and the return stack takes and gives addresses in `A`.

- `Sound I F V` judges one result, and `Keeps I F V` an action.
- `Contract.effect` puts the instructions together. A call pushes the program counter, so that
  has to be an address in `A` then.
- `Contract.turn` is the same for a whole iteration, where `I` does not depend on the registers.
-/

set_option autoImplicit false

namespace StackMachine.Engine

/-- A result with a value in `V`, or with a cause in `F`, that leaves a state in `I`. -/
inductive Sound (I : Engine → Prop) (F : Fault → Prop) {α : Type} (V : α → Prop) :
    EStateM.Result Fault Engine α → Prop
  | ok {v : α} {s : Engine} (hv : V v) (hs : I s) : Sound I F V (.ok v s)
  | error {f : Fault} {s : Engine} (hf : F f) (hs : I s) : Sound I F V (.error f s)

/-- An action has sound results from the states in `I`. -/
def Keeps (I : Engine → Prop) (F : Fault → Prop) {α : Type} (V : α → Prop) (a : Action α) : Prop :=
  ∀ s, I s → Sound I F V (a s)

/-- The predicate that asks for nothing. -/
def Any {α : Type} : α → Prop := fun _ => True

section

variable {I J : Engine → Prop} {F : Fault → Prop} {α β : Type} {V : α → Prop} {W : β → Prop}

/-- A sound result is continued by actions that are sound after its value. A failure ends the whole
and is sound already. -/
private theorem Sound.bind {s : Engine} {a : Action α} {k : α → Action β} (h : Sound I F V (a s))
    (hk : ∀ v, V v → Keeps I F W (k v)) : Sound I F W ((a >>= k) s) := by
  show Sound I F W (EStateM.bind a k s)
  simp only [EStateM.bind]
  generalize a s = r at h ⊢
  cases h with
  | ok hv hs => exact hk _ hv _ hs
  -- A failure skips the rest and leaves its state.
  | error hf hs => exact .error hf hs

/-- What two actions keep, they keep one after the other. The second has to keep it after every
value that the first may give, and `V` says which those are. -/
theorem Keeps.bind {a : Action α} {k : α → Action β} (h : Keeps I F V a)
    (hk : ∀ v, V v → Keeps I F W (k v)) : Keeps I F W (a >>= k) :=
  fun s hs => (h s hs).bind hk

/-- An action that only returns a value keeps everything. The value has to be one that the
invariant vouches for. -/
theorem keeps_pure {v : α} (hv : V v) : Keeps I F V (pure v : Action α) :=
  fun _ hs => .ok hv hs

/-- A result is sound for a weaker invariant as well. Effects are shown to keep the invariant
together with the registers, and runs need the invariant alone. -/
theorem Sound.imp {r : EStateM.Result Fault Engine α} (h : Sound I F V r)
    (hI : ∀ s, I s → J s) : Sound J F V r := by
  cases h with
  | ok hv hs => exact .ok hv (hI _ hs)
  | error hf hs => exact .error hf (hI _ hs)

/-- What holds of a result for two reasons. The causes and the values need to be judged once only,
so the second reason is about the state alone. -/
private theorem Sound.and {r : EStateM.Result Fault Engine α} (h : Sound I F V r)
    (h' : Sound J Any Any r) :
    Sound (fun s => I s ∧ J s) F V r := by
  cases h with
  | ok hv hs =>
    cases h' with
    | ok _ hs' => exact .ok hv ⟨hs, hs'⟩
  | error hf hs =>
    cases h' with
    | error _ hs' => exact .error hf ⟨hs, hs'⟩

/-- Two invariants that an action keeps, it keeps together. -/
private theorem Keeps.and {a : Action α} (h : Keeps I F V a) (h' : Keeps J Any Any a) :
    Keeps (fun s => I s ∧ J s) F V a :=
  fun s hs => (h s hs.1).and (h' s hs.2)

end

/-! ### Single actions

What an action shows of an invariant is that it survives the one change that the action makes. -/

section

variable {I : Engine → Prop} {F : Fault → Prop} {V A : Int → Prop}

/-- A push keeps an invariant that survives the new operand stack. A full stack has to be among the
causes. -/
theorem keeps_push {v : Int} (hf : F .stackOverflow)
    (hset : ∀ s o, I s → s.operands.push v = .ok o → I { s with operands := o }) :
    Keeps I F Any (push v) := by
  intro s hs
  simp only [push]
  cases hpush : s.operands.push v with
  | ok o => exact .ok trivial (hset s o hs hpush)
  | error f =>
    obtain ⟨_, rfl⟩ := Stack.push_eq_error_iff.mp hpush
    exact .error hf hs

/-- A pop keeps an invariant that survives the new operand stack, and its value is one that the
invariant vouches for. -/
theorem keeps_pop (hf : F .stackUnderflow)
    (hset : ∀ s v o, I s → s.operands.pop = .ok (v, o) → V v ∧ I { s with operands := o }) :
    Keeps I F V pop := by
  intro s hs
  simp only [pop]
  cases hpop : s.operands.pop with
  | ok vo => exact .ok (hset s vo.1 vo.2 hs hpop).1 (hset s vo.1 vo.2 hs hpop).2
  | error f =>
    obtain ⟨_, rfl⟩ := Stack.pop_eq_error_iff.mp hpop
    exact .error hf hs

/-- The same for a push on the return stack. It stands apart from `keeps_push` as invariants may
treat the two stacks differently. -/
theorem keeps_pushReturn {a : Int} (hf : F .stackOverflow)
    (hset : ∀ s o, I s → s.returns.push a = .ok o → I { s with returns := o }) :
    Keeps I F Any (pushReturn a) := by
  intro s hs
  simp only [pushReturn]
  cases hpush : s.returns.push a with
  | ok o => exact .ok trivial (hset s o hs hpush)
  | error f =>
    obtain ⟨_, rfl⟩ := Stack.push_eq_error_iff.mp hpush
    exact .error hf hs

/-- The same for a pop of the return stack, whose addresses are judged by a predicate of their own.
-/
theorem keeps_popReturn (hf : F .stackUnderflow)
    (hset : ∀ s a o, I s → s.returns.pop = .ok (a, o) → A a ∧ I { s with returns := o }) :
    Keeps I F A popReturn := by
  intro s hs
  simp only [popReturn]
  cases hpop : s.returns.pop with
  | ok ao => exact .ok (hset s ao.1 ao.2 hs hpop).1 (hset s ao.1 ao.2 hs hpop).2
  | error f =>
    obtain ⟨_, rfl⟩ := Stack.pop_eq_error_iff.mp hpop
    exact .error hf hs

/-- A write keeps an invariant that survives the new output. The refusal may be ruled out by the
invariant itself, where the sink takes everything. -/
theorem keeps_emit {c : Char} (hf : ∀ s, I s → s.output.write c = none → F .outputRefused)
    (hset : ∀ s o, I s → s.output.write c = some o → I { s with output := o }) :
    Keeps I F Any (emit c) := by
  intro s hs
  simp only [emit]
  cases hwrite : s.output.write c with
  | some o => exact .ok trivial (hset s o hs hwrite)
  | none => exact .error (hf s hs hwrite) hs

/-- A jump keeps an invariant that survives the new program counter, which is known to have passed
the check. -/
theorem keeps_jump {a : Int} (hf : F (.jumpOutOfBounds a))
    (hset : ∀ s, I s → 0 ≤ a → a < s.size → I { s with pc := a }) : Keeps I F Any (jump a) := by
  intro s hs
  simp only [jump]
  split
  · exact .error hf hs
  · exact .ok trivial (hset s hs (by omega) (by omega))

/-- An operand that is at hand is found, and nothing changes. Inside a run the operands have been
read before, so a missing one is never among the causes there. -/
theorem sound_operand {s : Engine} (hs : I s) (hne : s.params ≠ [])
    (hv : ∀ v ∈ s.params, V v) : Sound I F V (operand s) := by
  simp only [operand]
  cases hp : s.params with
  | nil => exact absurd hp hne
  | cons v rest =>
    refine .ok (hv v ?_) hs
    rw [hp]
    exact List.mem_cons_self

/-- An announcement keeps an invariant that does not depend on the monitor. Invariants that do (see
`StackMachine.Proofs.Log`) treat announcements themselves. -/
theorem sound_announce {s : Engine} {i : Instr} (hs : I s) (hi : i.arity ≤ s.params.length)
    (hf : F .traceRefused) (hset : ∀ m, I { s with monitor := m }) :
    Sound I F Any (announce i s) := by
  rcases announce_cases hi with ⟨m, hm⟩ | ⟨_, herror⟩
  · rw [hm]
    exact .ok trivial (hset m)
  · rw [herror]
    exact .error hf hs

end

/-! ### One instruction -/

/-- What the actions have to show that the instruction `i` is made of when it is carried out in the
state `s`. Values in `V` are on the operand stack and among the operands, and addresses in `A` on
the return stack. -/
structure Performs (i : Instr) (s : Engine) (I : Engine → Prop) (F : Fault → Prop)
    (V A : Int → Prop) : Prop where
  operand : 0 < i.arity → Keeps I F V operand
  push : i = .push → ∀ v, V v → Keeps I F Any (push v)
  pop : i ∈ [Instr.print, .pop, .add, .jmp, .jz, .jnz] → Keeps I F V pop
  /-- An addition pushes its sum. -/
  sum : i = .add → ∀ a b, V a → V b → Keeps I F Any (Engine.push (Word.add a b))
  emit : i = .print → ∀ c, Keeps I F Any (emit c)
  jump : i ∈ [Instr.jmp, .jz, .jnz, .call, .ret] → ∀ a, Keeps I F Any (jump a)
  /-- A call pushes the program counter. -/
  pushReturn : i = .call → Keeps I F Any (pushReturn s.pc)
  popReturn : i = .ret → Keeps I F A popReturn

/-- The effect of an instruction is sound if its actions are. This is the one place where the
instructions are taken case by case for invariants; what follows only chooses what the actions have
to show. -/
theorem Performs.effect {i : Instr} {s : Engine} {I : Engine → Prop} {F : Fault → Prop}
    {V A : Int → Prop} (K : Performs i s I F V A) (hs : I s) : Sound I F Any (effect i s) := by
  -- One case for each instruction, made of its actions in their order.
  cases i with
  | halt | nop => exact keeps_pure trivial s hs
  | print => exact (K.pop (by decide)).bind (fun v _ => K.emit rfl _) s hs
  | push => exact (K.operand (by decide)).bind (K.push rfl) s hs
  | pop => exact (K.pop (by decide)).bind (fun _ _ => keeps_pure trivial) s hs
  | add =>
    have hpop := K.pop (by decide)
    exact hpop.bind (fun a ha => hpop.bind fun b hb => K.sum rfl a b ha hb) s hs
  | jmp => exact (K.pop (by decide)).bind (fun a _ => K.jump (by decide) a) s hs
  | jz =>
    refine (K.pop (by decide)).bind (fun v _ => ?_) s hs
    by_cases hv : v = 0
    · simpa only [if_pos hv] using (K.operand (by decide)).bind fun a _ => K.jump (by decide) a
    · simpa only [if_neg hv] using keeps_pure trivial
  | jnz =>
    refine (K.pop (by decide)).bind (fun v _ => ?_) s hs
    by_cases hv : v ≠ 0
    · simpa only [if_pos hv] using (K.operand (by decide)).bind fun a _ => K.jump (by decide) a
    · simpa only [if_neg hv] using keeps_pure trivial
  | call =>
    -- The program counter is read first, from the state as it is.
    show Sound I F Any ((do
      Engine.pushReturn s.pc
      let a ← Engine.operand
      Engine.jump a : Action Unit) s)
    have hjump := (K.operand (by decide)).bind fun a _ => K.jump (by decide) a
    exact (K.pushReturn rfl).bind (fun _ _ => hjump) s hs
  | ret => exact (K.popReturn rfl).bind (fun a _ => K.jump (by decide) a) s hs

/-! ### All instructions -/

/-- What the actions have to show that make up the instructions other than calls and returns. -/
structure LocalContract (I : Engine → Prop) (F : Fault → Prop) (V : Int → Prop) : Prop where
  push : ∀ v, V v → Keeps I F Any (push v)
  pop : Keeps I F V pop
  emit : ∀ c, Keeps I F Any (emit c)
  jump : ∀ a, Keeps I F Any (jump a)
  /-- An operand is looked up only by instructions that have one. -/
  operand : ∀ s, I s → s.params ≠ [] → Sound I F V (operand s)
  add : ∀ a b, V a → V b → V (Word.add a b)

/-- What all the actions that make up the instructions have to show. -/
structure Contract (I : Engine → Prop) (F : Fault → Prop) (V A : Int → Prop) : Prop extends
    LocalContract I F V where
  pushReturn : ∀ a, A a → Keeps I F Any (pushReturn a)
  popReturn : Keeps I F A popReturn

/-- Within an instruction only the program counter moves; the other registers stay. It is kept
together with other invariants by `and`. -/
private theorem contract_registers (r : Registers) :
    Contract (fun s => s.registers = { r with pc := s.pc }) Any Any Any where
  push _ _ := keeps_push trivial fun _ _ h _ => h
  pop := keeps_pop trivial fun _ _ _ h _ => ⟨trivial, h⟩
  pushReturn _ _ := keeps_pushReturn trivial fun _ _ h _ => h
  popReturn := keeps_popReturn trivial fun _ _ _ h _ => ⟨trivial, h⟩
  emit _ := keeps_emit (fun _ _ _ => trivial) fun _ _ h _ => h
  jump a := keeps_jump trivial fun _ h _ _ => congrArg (fun r => { r with pc := a }) h
  operand _ h hne := sound_operand h hne fun _ _ => trivial
  add _ _ _ _ := trivial

namespace LocalContract

variable {I J : Engine → Prop} {F : Fault → Prop} {V : Int → Prop} {r : Registers}

/-- Two invariants are kept together. Only the first has to say which causes and values there are.
-/
theorem and (K : LocalContract I F V) (L : LocalContract J Any Any) :
    LocalContract (fun s => I s ∧ J s) F V where
  push v hv := (K.push v hv).and (L.push v trivial)
  pop := K.pop.and L.pop
  emit c := (K.emit c).and (L.emit c)
  jump a := (K.jump a).and (L.jump a)
  operand s hs hne := (K.operand s hs.1 hne).and (L.operand s hs.2 hne)
  add := K.add

variable (K : LocalContract I F V)
include K

/-- Any invariant can be kept together with the registers, since no action of an instruction
assigns one but the program counter. -/
private theorem withRegisters (r : Registers) :
    LocalContract (fun t => I t ∧ t.registers = { r with pc := t.pc }) F V :=
  K.and (contract_registers r).toLocalContract

/-- The operands stay, so one that was there at first is there when it is needed, whatever was
popped or pushed in between. -/
private theorem keeps_operand (hne : r.params ≠ []) :
    Keeps (fun t => I t ∧ t.registers = { r with pc := t.pc }) F V Engine.operand := by
  intro t ht
  have hparams : t.params = r.params := congrArg Registers.params ht.2
  refine (K.withRegisters r).operand t ht ?_
  rwa [hparams]

/-- The effect of an instruction whose operands are at hand keeps the invariant, and all registers
but the program counter. Calls and returns are left out: what they do to the return stack is for
`Contract` to say. -/
theorem effect {i : Instr} (hcall : i ≠ .call) (hret : i ≠ .ret) {s : Engine} (hs : I s)
    (harity : i.arity ≤ s.params.length) :
    Sound (fun t => I t ∧ t.registers = { s.registers with pc := t.pc }) F Any (effect i s) := by
  have L := K.withRegisters s.registers
  have hperforms : Performs i s (fun t => I t ∧ t.registers = { s.registers with pc := t.pc })
      F V Any := {
    operand := fun hi =>
      K.keeps_operand (List.ne_nil_of_length_pos (Nat.lt_of_lt_of_le hi harity))
    push := fun _ => L.push
    pop := fun _ => L.pop
    sum := fun _ a b ha hb => L.push _ (K.add a b ha hb)
    emit := fun _ => L.emit
    jump := fun _ => L.jump
    pushReturn := fun hi => absurd hi hcall
    popReturn := fun hi => absurd hi hret }
  exact hperforms.effect ⟨hs, rfl⟩

end LocalContract

namespace Contract

variable {I J : Engine → Prop} {F : Fault → Prop} {V A : Int → Prop}

/-- Two invariants are kept together, those of the return stack included. The second is there for
its states alone, so causes, values and addresses are judged by the first. -/
theorem and (K : Contract I F V A) (L : Contract J Any Any Any) :
    Contract (fun s => I s ∧ J s) F V A where
  toLocalContract := K.toLocalContract.and L.toLocalContract
  pushReturn a ha := (K.pushReturn a ha).and (L.pushReturn a trivial)
  popReturn := K.popReturn.and L.popReturn

/-- The effect of any instruction. A call pushes the program counter, so that has to be an address
in `A` where the call is carried out. -/
theorem effect (K : Contract I F V A) {i : Instr} {s : Engine} (hs : I s)
    (harity : i.arity ≤ s.params.length) (hcall : i = .call → A s.pc) :
    Sound (fun t => I t ∧ t.registers = { s.registers with pc := t.pc }) F Any (effect i s) := by
  have L := K.and (contract_registers s.registers)
  have hperforms : Performs i s (fun t => I t ∧ t.registers = { s.registers with pc := t.pc })
      F V A := {
    operand := fun hi =>
      K.keeps_operand (List.ne_nil_of_length_pos (Nat.lt_of_lt_of_le hi harity))
    push := fun _ => L.push
    pop := fun _ => L.pop
    sum := fun _ a b ha hb => L.push _ (K.add a b ha hb)
    emit := fun _ => L.emit
    jump := fun _ => L.jump
    pushReturn := fun hi => L.pushReturn s.pc (hcall hi)
    popReturn := fun _ => L.popReturn }
  exact hperforms.effect ⟨hs, rfl⟩

/-! ### Turns and runs

An invariant that does not depend on the registers is kept by whole iterations as well. -/

/-- How a turn or a run may end: in a state of `I`, and if it failed, for a cause in `F`. -/
structure Ends (I : Engine → Prop) (F : Fault → Prop) (r : Outcome × Engine) : Prop where
  state : I r.2
  cause : ∀ f, r.1 = .failed f → F f

/-- A turn that comes down to one sound action ends soundly. The fault may change the phase, so the
invariant must not depend on it. -/
private theorem concluded (hassign : ∀ s, I s → ∀ r, I (s.assign r)) {o : Outcome}
    (ho : ∀ f, o ≠ .failed f) {r : EStateM.Result Fault Engine Unit} (h : Sound I F Any r) :
    Ends I F (concluded o r) := by
  cases h with
  | ok _ hs => exact ⟨hs, fun f hf => absurd hf (ho f)⟩
  | @error f s hf hs =>
    refine ⟨?_, fun g hg => ?_⟩
    · show I (s.faulted f)
      -- A classified fault sets the phase, which the invariant does not see.
      obtain ⟨phase, hphase⟩ := s.exists_faulted_eq f
      rw [hphase]
      exact hassign s hs { s.registers with phase }
    · cases hg
      exact hf

/-- One iteration. A word that is not there may be so for a reason that depends on the state, so
the cause of the refusal is asked for state by state. -/
theorem turn (K : Contract I F V Any) (hassign : ∀ s, I s → ∀ r, I (s.assign r))
    (hannounce : ∀ s i, I s → i.arity ≤ s.params.length → Sound I F Any (announce i s))
    (habsence : ∀ s a, I s → s.word? a = none → F (s.absence a))
    (hunknown : ∀ w, F (.unknownOpcode w)) {s : Engine} (hs : I s) : Ends I F s.turn := by
  cases hd : s.decoded with
  | outside =>
    rw [turn_of_outside hd]
    refine concluded (o := .running) hassign nofun (.error ?_ ?_)
    · exact habsence s s.pc hs (decode_eq_outside_iff.mp hd)
    · exact hassign s hs ⟨s.stranded s.pc, s.pc, s.opcode, s.params, .fetching⟩
  | unknown w =>
    rw [turn_of_unknown hd]
    refine ⟨hassign s hs ⟨s.pc + 1, s.pc, w, s.params, .errored⟩, fun f hf => ?_⟩
    cases hf
    exact hunknown w
  | cut i =>
    rw [turn_of_cut hd]
    refine concluded (o := .running) hassign nofun (.error ?_ ?_)
    · exact habsence s (s.pc + 1) hs (arity_of_cut hd).2
    · exact hassign s hs ⟨s.stranded (s.pc + 1), s.pc, i.opcode, s.params, .fetching⟩
  | ready i params =>
    by_cases hi : i = .halt
    · subst hi
      have hopened : I (s.opened Instr.halt.opcode) :=
        hassign s hs ⟨s.pc + 1, s.pc, Instr.halt.opcode, s.params, .fetching⟩
      have hsound := hannounce _ .halt hopened (Nat.zero_le _)
      rcases turn_cases_of_halt hd with ⟨m, hm, hturn⟩ | ⟨herror, hturn⟩
      · rw [hm] at hsound
        rw [hturn]
        cases hsound with
        | ok _ ht =>
          exact ⟨hassign _ ht ⟨s.pc + 1, s.pc, Instr.halt.opcode, s.params, .halted⟩, nofun⟩
      · rw [herror] at hsound
        rw [hturn]
        exact concluded (o := .halted) hassign nofun hsound
    · have hloaded : I (s.loaded i params) :=
        hassign s hs ⟨s.pc + 1 + i.arity, s.pc, i.opcode, params, .executing⟩
      have harity := arity_le_of_ready hd
      have hsound := hannounce _ i hloaded harity
      rcases turn_cases_of_ready hd hi with ⟨m, hm, hturn⟩ | ⟨herror, hturn⟩
      · rw [hm] at hsound
        rw [hturn]
        cases hsound with
        | ok _ ht =>
          have heffect := K.effect ht harity fun _ => trivial
          exact concluded (o := .running) hassign nofun (heffect.imp fun _ h => h.1)
      · rw [herror] at hsound
        rw [hturn]
        exact concluded (o := .running) hassign nofun hsound

/-- A run of any length, by induction over its iterations. Apart from the contract, there is to
show what holds between actions: a change of registers, an announcement, a word that is not there
and an opcode that names nothing. -/
theorem runFor (K : Contract I F V Any) (hassign : ∀ s, I s → ∀ r, I (s.assign r))
    (hannounce : ∀ s i, I s → i.arity ≤ s.params.length → Sound I F Any (announce i s))
    (habsence : ∀ s a, I s → s.word? a = none → F (s.absence a))
    (hunknown : ∀ w, F (.unknownOpcode w)) {s : Engine} (hs : I s) (n : Nat) :
    Ends I F (s.runFor n) := by
  refine runFor_induction ⟨hs, fun f hf => by cases hf⟩ (fun t ht => ?_) n
  exact K.turn hassign hannounce habsence hunknown ht.state

end Contract

/-! ### What never changes -/

/-- The parts of an engine that no run changes: its program with the noted number of words, and the
capacities of its stacks. -/
structure Frame (p : Option Program) (n c r : Nat) (s : Engine) : Prop where
  program : s.program = p
  size : s.size = n
  operands : s.operands.capacity = c
  returns : s.returns.capacity = r

/-- No action of an instruction touches the program or its noted size, and pushes and pops keep the
capacities. -/
private theorem contract_frame (p : Option Program) (n c r : Nat) :
    Contract (Frame p n c r) Any Any Any where
  push _ _ := keeps_push trivial fun _ _ h hpush =>
    { h with operands := (Stack.capacity_push hpush).trans h.operands }
  pop := keeps_pop trivial fun _ _ _ h hpop =>
    ⟨trivial, { h with operands := (Stack.capacity_pop hpop).trans h.operands }⟩
  pushReturn _ _ := keeps_pushReturn trivial fun _ _ h hpush =>
    { h with returns := (Stack.capacity_push hpush).trans h.returns }
  popReturn := keeps_popReturn trivial fun _ _ _ h hpop =>
    ⟨trivial, { h with returns := (Stack.capacity_pop hpop).trans h.returns }⟩
  emit _ := keeps_emit (fun _ _ _ => trivial) fun _ _ h _ => { h with }
  jump _ := keeps_jump trivial fun _ h _ _ => { h with }
  operand _ h hne := sound_operand h hne fun _ _ => trivial
  add _ _ _ _ := trivial

/-- A turn changes neither the program, nor its noted number of words, nor a capacity. It is a
contract without any causes or values to judge. -/
theorem turn_frame (e : Engine) :
    Frame e.program e.size e.operands.capacity e.returns.capacity e.turn.2 := by
  have K := contract_frame e.program e.size e.operands.capacity e.returns.capacity
  refine (K.turn (fun s h r => { h with }) (fun s i h hi => ?_) (fun _ _ _ _ => trivial)
    (fun _ => trivial) ⟨rfl, rfl, rfl, rfl⟩).state
  exact sound_announce h hi trivial fun m => { h with }

/-- Nor does a run of any length. So what is known of the program and the stacks at the start of a
run is known to its end. -/
theorem runFor_frame (e : Engine) (n : Nat) :
    Frame e.program e.size e.operands.capacity e.returns.capacity (e.runFor n).2 := by
  refine runFor_induction (P := fun r => Frame _ _ _ _ r.2) ⟨rfl, rfl, rfl, rfl⟩ (fun s hs => ?_) n
  -- The turn keeps the frame of its own start, which is that of the run.
  have hturn := turn_frame s
  rwa [hs.program, hs.size, hs.operands, hs.returns] at hturn

/-- A sized engine stays sized while it runs, since neither the noted number nor the program
changes. Only loads assign them, and they assign both. -/
theorem Sized.turn {e : Engine} (h : e.Sized) : e.turn.2.Sized := by
  have hframe := turn_frame e
  unfold Sized words
  rw [hframe.size, hframe.program]
  exact h

/-- A sized engine is sized after any number of iterations, since they change neither the program
nor the number that was noted. -/
theorem Sized.runFor {e : Engine} (h : e.Sized) (n : Nat) : (e.runFor n).2.Sized :=
  runFor_induction (P := fun r => r.2.Sized) h (fun _ hs => hs.turn) n

end StackMachine.Engine
