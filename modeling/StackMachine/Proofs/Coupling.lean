import StackMachine.Proofs.Iteration

/-!
# `StackMachine.Proofs.Coupling`: two engines in lockstep

Several laws compare two runs: with tracing and without, on larger stacks, on longer programs.
All of them have one shape. A relation `R` ties the states of the two engines together, every
action keeps it, and so the runs stay together for ever, unless the first engine fails for a
cause that the law excepts (`X`).

- `Matches R X` compares two results, and `Coupled R X` two actions.
- `Coupling R X` collects what a law has to show: one fact for each thing that an engine can do.
  `EffectCoupling R X` asks only for those of which effects are made, so that the registers may
  differ.
- `EffectCoupling.effect` puts the instructions together from these facts, `Coupling.turn` one
  iteration, and `Coupling.runFor` a run of any length.
-/

set_option autoImplicit false

namespace StackMachine

namespace Engine

/-! ### Results and actions -/

/-- Two results are alike and leave related states, or the first is a failure for a cause in
`X`, which frees the second from everything. -/
inductive Matches (R : Engine → Engine → Prop) (X : Fault → Prop) {α : Type} :
    EStateM.Result Fault Engine α → EStateM.Result Fault Engine α → Prop
  | ok {v : α} {s t : Engine} (h : R s t) : Matches R X (.ok v s) (.ok v t)
  | error {f : Fault} {s t : Engine} (h : R s t) : Matches R X (.error f s) (.error f t)
  | escape {f : Fault} {s : Engine} {r : EStateM.Result Fault Engine α} (h : X f) :
      Matches R X (.error f s) r

/-- Two actions give matching results from related states. -/
def Coupled (R : Engine → Engine → Prop) (X : Fault → Prop) {α : Type} (a b : Action α) : Prop :=
  ∀ s t : Engine, R s t → Matches R X (a s) (b t)

section

variable {R : Engine → Engine → Prop} {X : Fault → Prop} {α β : Type}

/-- An action that does nothing is coupled with itself. -/
private theorem coupled_pure (v : α) : Coupled R X (pure v : Action α) (pure v) :=
  fun _ _ h => .ok h

/-- Matching results are continued by coupled actions. If the first engine has failed for an
excepted cause, what the second one does next is free as well. -/
theorem Matches.bind {s t : Engine} {a b : Action α} {k l : α → Action β}
    (h : Matches R X (a s) (b t)) (hk : ∀ v, Coupled R X (k v) (l v)) :
    Matches R X ((a >>= k) s) ((b >>= l) t) := by
  show Matches R X (EStateM.bind a k s) (EStateM.bind b l t)
  simp only [EStateM.bind]
  generalize a s = r₁ at h ⊢
  generalize b t = r₂ at h ⊢
  cases h with
  | ok h => exact hk _ _ _ h
  -- A failure skips the rest in both, and an escape makes the second irrelevant.
  | error h => exact .error h
  | escape h => exact .escape h

/-- Results that match for a relation match for a weaker one. A step may be shown for a finer
relation and be used for the one that the run keeps. -/
theorem Matches.imp {Q : Engine → Engine → Prop} {r r' : EStateM.Result Fault Engine α}
    (h : Matches R X r r') (hR : ∀ s t, R s t → Q s t) : Matches Q X r r' := by
  cases h with
  | ok h => exact .ok (hR _ _ h)
  | error h => exact .error (hR _ _ h)
  | escape h => exact .escape h

/-- Coupled actions are coupled one after the other. They hand on the same value, so what follows
may depend on it. -/
theorem Coupled.bind {a b : Action α} {k l : α → Action β} (h : Coupled R X a b)
    (hk : ∀ v, Coupled R X (k v) (l v)) : Coupled R X (a >>= k) (b >>= l) :=
  fun s t hst => (h s t hst).bind hk

/-- Actions that first look at the state are coupled if they are once they have seen it. They may
see different states, as long as these are related. -/
private theorem coupled_get {k l : Engine → Action β}
    (h : ∀ s t : Engine, R s t → Coupled R X (k s) (l t)) :
    Coupled R X (do let s ← get; k s) (do let t ← get; l t) :=
  fun s t hst => h s t hst s t hst

end

/-- Two ends of turns or runs are alike and leave related states, or the first is a failure
for a cause in `X`. -/
inductive Agree (R : Engine → Engine → Prop) (X : Fault → Prop) :
    Outcome × Engine → Outcome × Engine → Prop
  | same {o : Outcome} {s t : Engine} (h : R s t) : Agree R X (o, s) (o, t)
  | escape {f : Fault} {s : Engine} {r : Outcome × Engine} (h : X f) : Agree R X (.failed f, s) r

/-! ### Actions on equal parts

Most laws compare engines in which the part that an action touches is equal. Then the action
does the same in both, and the relation only has to survive that the part is replaced. -/

section

variable {R : Engine → Engine → Prop} {X : Fault → Prop}

/-- The stacks of related engines are equal, and replacing them in both keeps the relation. -/
structure SameStacks (R : Engine → Engine → Prop) : Prop where
  operands : ∀ {s t : Engine}, R s t → s.operands = t.operands
  returns : ∀ {s t : Engine}, R s t → s.returns = t.returns
  setOperands : ∀ {s t : Engine}, R s t → ∀ o, R { s with operands := o } { t with operands := o }
  setReturns : ∀ {s t : Engine}, R s t → ∀ o, R { s with returns := o } { t with returns := o }

/-- Equal stacks take a value alike, or refuse it alike. Then both engines fail for the same cause,
and the relation holds of what they leave. -/
theorem SameStacks.push (S : SameStacks R) (v : Int) : Coupled R X (push v) (push v) := by
  intro s t h
  simp only [Engine.push]
  rw [S.operands h]
  cases t.operands.push v with
  | ok o => exact .ok (S.setOperands h o)
  | error f => exact .error h

/-- Equal stacks give the same value, or are both empty. The value is the same on both sides, so
that the actions after it are coupled too. -/
theorem SameStacks.pop (S : SameStacks R) : Coupled R X pop pop := by
  intro s t h
  simp only [Engine.pop]
  rw [S.operands h]
  cases t.operands.pop with
  | ok vo => exact .ok (S.setOperands h vo.2)
  | error f => exact .error h

/-- The same for the return stacks. -/
theorem SameStacks.pushReturn (S : SameStacks R) (a : Int) :
    Coupled R X (pushReturn a) (pushReturn a) := by
  intro s t h
  simp only [Engine.pushReturn]
  rw [S.returns h]
  cases t.returns.push a with
  | ok o => exact .ok (S.setReturns h o)
  | error f => exact .error h

/-- The same for the return stacks. -/
theorem SameStacks.popReturn (S : SameStacks R) : Coupled R X popReturn popReturn := by
  intro s t h
  simp only [Engine.popReturn]
  rw [S.returns h]
  cases t.returns.pop with
  | ok vo => exact .ok (S.setReturns h vo.2)
  | error f => exact .error h

/-- A write to equal sinks is taken by both or refused by both. Where the sinks differ, as with a
ration on one of them, a relation treats writes itself. -/
theorem coupled_emit (houtput : ∀ s t, R s t → s.output = t.output)
    (hset : ∀ s t, R s t → ∀ o, R { s with output := o } { t with output := o }) (c : Char) :
    Coupled R X (emit c) (emit c) := by
  intro s t h
  simp only [emit]
  rw [houtput s t h]
  cases t.output.write c with
  | some o => exact .ok (hset s t h o)
  | none => exact .error h

/-- A jump depends on the noted size alone, so engines that have noted the same one jump alike.
Their programs need not be equal for that. -/
theorem coupled_jump (hsize : ∀ s t, R s t → s.size = t.size)
    (hset : ∀ s t, R s t → ∀ a, R { s with pc := a } { t with pc := a }) (a : Int) :
    Coupled R X (jump a) (jump a) := by
  intro s t h
  have hst := hsize s t h
  simp only [jump]
  by_cases ha : a < 0 ∨ t.size ≤ a
  · rw [if_pos (by omega), if_pos ha]
    exact .error h
  · rw [if_neg (by omega), if_neg ha]
    exact .ok (hset s t h a)

/-- Writing a line to equal monitors, by engines of which a line shows the same. The line shows the
depths of the stacks, so this is about single states and not about all related ones. -/
theorem matches_trace {s t : Engine} (h : R s t) (hlines : s.monitor.lines = t.monitor.lines)
    (hline : ∀ text, s.line text = t.line text)
    (hset : ∀ lines, R { s with monitor := { s.monitor with lines } }
      { t with monitor := { t.monitor with lines } }) (text : String) :
    Matches R X (trace text s) (trace text t) := by
  simp only [trace]
  rw [hlines, hline text]
  cases t.monitor.lines.write (t.line text) with
  | some lines => exact .ok (hset lines)
  | none => exact .error h

/-- An announcement is a line, if the engines trace. The operand that the line shows has to be at
hand. -/
theorem matches_announce {s t : Engine} {i : Instr} (h : R s t) (hi : i.arity ≤ s.params.length)
    (hparams : s.params = t.params) (htracing : s.tracing = t.tracing)
    (htrace : ∀ text, Matches R X (trace text s) (trace text t)) :
    Matches R X (announce i s) (announce i t) := by
  cases ht : t.tracing with
  | false =>
    rw [announce_of_not_tracing (htracing.trans ht), announce_of_not_tracing ht]
    exact .ok h
  | true =>
    rw [announce_of_tracing (htracing.trans ht) hi, announce_of_tracing ht (hparams ▸ hi), hparams]
    exact htrace _

end

/-! ### What a law has to show -/

/-- A relation between engines that the actions keep of which effects are made, with the causes `X`
for which the first engine may leave the second behind. -/
structure EffectCoupling (R : Engine → Engine → Prop) (X : Fault → Prop) : Prop where
  pc_eq : ∀ {s t : Engine}, R s t → s.pc = t.pc
  operand : Coupled R X operand operand
  push : ∀ v, Coupled R X (push v) (push v)
  pop : Coupled R X pop pop
  pushReturn : ∀ a, Coupled R X (pushReturn a) (pushReturn a)
  popReturn : Coupled R X popReturn popReturn
  emit : ∀ c, Coupled R X (emit c) (emit c)
  jump : ∀ a, Coupled R X (jump a) (jump a)

/-- A relation between engines that everything an engine does keeps, with the causes `X` for
which the first engine may leave the second behind. -/
structure Coupling (R : Engine → Engine → Prop) (X : Fault → Prop) : Prop where
  registers : ∀ {s t : Engine}, R s t → s.registers = t.registers
  assign : ∀ {s t : Engine}, R s t → ∀ r, R (s.assign r) (t.assign r)
  push : ∀ v, Coupled R X (push v) (push v)
  pop : Coupled R X pop pop
  pushReturn : ∀ a, Coupled R X (pushReturn a) (pushReturn a)
  popReturn : Coupled R X popReturn popReturn
  emit : ∀ c, Coupled R X (emit c) (emit c)
  jump : ∀ a, Coupled R X (jump a) (jump a)
  /-- Instructions are announced only when their operands are at hand. -/
  announce : ∀ {s t : Engine} (i : Instr), R s t → i.arity ≤ s.params.length →
    Matches R X (announce i s) (announce i t)

namespace EffectCoupling

variable {R : Engine → Engine → Prop} {X : Fault → Prop} (C : EffectCoupling R X)
include C

/-- A jump to the operand. -/
private theorem jumpToOperand : Coupled R X (do let a ← Engine.operand; Engine.jump a)
    (do let a ← Engine.operand; Engine.jump a) :=
  C.operand.bind C.jump

/-- The effects of the instructions are made of coupled actions. This is the one place where the
instructions are taken case by case for two engines, as `Performs.effect` is for one. -/
theorem effect (i : Instr) : Coupled R X (effect i) (effect i) := by
  cases i with
  | halt => exact coupled_pure ()
  | nop => exact coupled_pure ()
  | print => exact C.pop.bind fun v => C.emit _
  | push => exact C.operand.bind fun v => C.push v
  | pop => exact C.pop.bind fun _ => coupled_pure ()
  | add => exact C.pop.bind fun a => C.pop.bind fun b => C.push _
  | jmp => exact C.pop.bind fun a => C.jump a
  | jz =>
    refine C.pop.bind fun v => ?_
    by_cases hv : v = 0
    · simpa only [if_pos hv] using C.jumpToOperand
    · simpa only [if_neg hv] using coupled_pure ()
  | jnz =>
    refine C.pop.bind fun v => ?_
    by_cases hv : v ≠ 0
    · simpa only [if_pos hv] using C.jumpToOperand
    · simpa only [if_neg hv] using coupled_pure ()
  | call =>
    refine coupled_get fun s t h => ?_
    -- Both push the same address, since their program counters are equal.
    rw [C.pc_eq h]
    exact (C.pushReturn _).bind fun _ => C.jumpToOperand
  | ret => exact C.popReturn.bind fun a => C.jump a

end EffectCoupling

namespace Coupling

variable {R : Engine → Engine → Prop} {X : Fault → Prop} (C : Coupling R X)
include C

/-- Related engines are at the same address. -/
private theorem pc_eq {s t : Engine} (h : R s t) : s.pc = t.pc :=
  congrArg Registers.pc (C.registers h)

/-- Related engines have read the same operands. -/
private theorem params_eq {s t : Engine} (h : R s t) : s.params = t.params :=
  congrArg Registers.params (C.registers h)

/-- Related engines have the same operands, so they find the same one or both find none. Inside a
run there is always one, but the effects are coupled for any state. -/
private theorem operand : Coupled R X operand operand := by
  intro s t h
  simp only [Engine.operand]
  rw [C.params_eq h]
  cases t.params with
  | nil => exact .error h
  | cons v _ => exact .ok h

/-- What keeps everything alike keeps the effects alike. A coupling has all that
`EffectCoupling.effect` asks for, and more. -/
private theorem effect (i : Instr) : Coupled R X (effect i) (effect i) :=
  EffectCoupling.effect ⟨C.pc_eq, C.operand, C.push, C.pop, C.pushReturn, C.popReturn, C.emit,
    C.jump⟩ i

/-! ### Turns and runs -/

/-- Registers that are computed alike stay alike. The steps of a turn are assignments of this kind.
-/
private theorem update {s t : Engine} (h : R s t) (g : Registers → Registers) :
    R (s.assign (g s.registers)) (t.assign (g t.registers)) := by
  rw [C.registers h]
  exact C.assign h _

/-- Related engines may enter a phase together. -/
private theorem withPhase {s t : Engine} (h : R s t) (phase : Phase) :
    R { s with phase } { t with phase } :=
  C.update h fun r => { r with phase }

/-- They may read an opcode together. -/
private theorem opened {s t : Engine} (h : R s t) (w : Int) : R (s.opened w) (t.opened w) :=
  C.update h fun r => { r with phase := .fetching, origin := r.pc, pc := r.pc + 1, opcode := w }

/-- Engines that are coupled may read an instruction with its operands together. It is the change
of registers before an instruction is carried out. -/
theorem loaded {s t : Engine} (h : R s t) (i : Instr) (params : List Int) :
    R (s.loaded i params) (t.loaded i params) :=
  C.update h fun r => ⟨r.pc + 1 + i.arity, r.pc, i.opcode, params, .executing⟩

/-- They may suffer a fault together. -/
private theorem faulted {s t : Engine} (h : R s t) (f : Fault) : R (s.faulted f) (t.faulted f) := by
  simp only [Engine.faulted]
  by_cases hf : f.isClassified = true
  · rw [if_pos hf, if_pos hf]
    exact C.withPhase h .errored
  · rw [if_neg hf, if_neg hf]
    exact h

/-- Matching results conclude a turn alike: the outcome is the same, and a fault sets the phase on
both sides. -/
private theorem concluded {r₁ r₂ : EStateM.Result Fault Engine Unit} (o : Outcome)
    (h : Matches R X r₁ r₂) : Agree R X (concluded o r₁) (concluded o r₂) := by
  cases h with
  | ok h => exact .same h
  | error h => exact .same (C.faulted h _)
  | escape h => exact .escape h

/-- Related engines that read the same words have alike turns. The noted sizes matter only where a
word is not there, for then they decide which cause is named. -/
theorem turn {s t : Engine} (h : R s t) (hdecoded : s.decoded = t.decoded)
    (hsize : s.decoded = .outside ∨ (∃ i, s.decoded = .cut i) → s.size = t.size) :
    Agree R X s.turn t.turn := by
  have hpc := C.pc_eq h
  cases hs : s.decoded with
  | outside =>
    obtain ⟨hcause, hstranded⟩ := absence_congr (hsize (.inl hs)) hpc
    rw [turn_of_outside hs, turn_of_outside (hdecoded ▸ hs), hcause, hstranded]
    exact .same (C.faulted (C.update h fun r =>
      { r with phase := .fetching, origin := r.pc, pc := t.stranded t.pc }) _)
  | unknown w =>
    rw [turn_of_unknown hs, turn_of_unknown (hdecoded ▸ hs)]
    exact .same (C.withPhase (C.opened h w) .errored)
  | cut i =>
    have hnext : s.pc + 1 = t.pc + 1 := by rw [hpc]
    obtain ⟨hcause, hstranded⟩ := absence_congr (hsize (.inr ⟨i, hs⟩)) hnext
    rw [turn_of_cut hs, turn_of_cut (hdecoded ▸ hs), hcause, hstranded]
    exact .same (C.faulted (C.update (C.opened h i.opcode) fun r =>
      { r with pc := t.stranded (t.pc + 1) }) _)
  | ready i params =>
    by_cases hi : i = .halt
    · subst hi
      rw [turn_of_halt hs, turn_of_halt (hdecoded ▸ hs)]
      have hannounce := C.announce .halt (C.opened h Instr.halt.opcode) (Nat.zero_le _)
      exact C.concluded .halted (hannounce.bind fun _ s t h => .ok (C.withPhase h .halted))
    · rw [turn_of_ready hs hi, turn_of_ready (hdecoded ▸ hs) hi]
      have hannounce := C.announce i (C.loaded h i params) (arity_le_of_ready hs)
      exact C.concluded .running (hannounce.bind fun _ => C.effect i)

/-- Engines with one program that are related stay so in a run, and it ends alike in both. With the
same program and the same size they read the same words throughout. -/
theorem runFor {s t : Engine} (hprogram : ∀ s t, R s t → s.program = t.program)
    (hsize : ∀ s t, R s t → s.size = t.size) (h : R s t) (n : Nat) :
    Agree R X (s.runFor n) (t.runFor n) := by
  -- The count goes down from the start of the run, so that an escape ends the comparison.
  induction n generalizing s t with
  | zero => exact .same h
  | succ n ih =>
    have hdecoded : s.decoded = t.decoded :=
      decoded_congr (hprogram s t h) (hsize s t h) (C.pc_eq h)
    have hturn := C.turn h hdecoded fun _ => hsize s t h
    simp only [Engine.runFor]
    generalize s.turn = x at hturn ⊢
    generalize t.turn = y at hturn ⊢
    cases hturn with
    | escape hx => exact .escape hx
    | @same o _ _ hst =>
      cases o with
      | running => exact ih hst
      | halted => exact .same hst
      | failed f => exact .same hst

end Coupling

end Engine

end StackMachine
