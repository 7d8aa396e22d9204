import StackMachine.Proofs.Coupling

/-!
# `StackMachine.Proofs.StackCoupling`: engines that differ in their stacks

What an engine does depends on what is on its stacks, never on how they hold it. The laws of
that kind compare engines that are equal in everything but the stacks, where some relation
between stacks takes the place of equality: one holds more slots, or more items below. All such
a law has to show is what the relation does under one push and one pop.

- `push_of_room` and `pop_of_toList` describe both operations by content and capacity alone.
- `StackCoupling Q X`: related stacks stay related by `Q` under pushes and pops, unless the first
  is refused for a cause in `X`.
- `EqualButStacks P Q` relates two engines whose operand stacks are related by `P` and whose
  return stacks are related by `Q`.
- `coupling_of_stacks` puts two such relations together to a coupling of engines, so that
  `Coupling.runFor` applies.
-/

set_option autoImplicit false

namespace StackMachine

namespace Stack

variable {s : Stack} {v : Int}

/-! ### Stacks by content and capacity -/

/-- The content of a stack has as many items as the stack is deep. -/
theorem length_toList (s : Stack) : s.toList.length = s.depth := List.length_reverse

/-- No slot is free exactly if there are as many items as slots. -/
theorem free_eq_zero_iff : s.free = 0 ↔ s.capacity ≤ s.toList.length := by
  rw [length_toList]
  unfold capacity depth
  omega

/-- A push onto a stack that is not full succeeds. What it leaves is known by content and capacity;
how the slots are held is not asked. -/
theorem push_of_room (v : Int) (h : s.toList.length < s.capacity) :
    ∃ t, s.push v = .ok t ∧ t.toList = s.toList ++ [v] ∧ t.capacity = s.capacity := by
  cases hpush : s.push v with
  | ok t => exact ⟨t, rfl, toList_push hpush, capacity_push hpush⟩
  | error f =>
    have hfull := free_eq_zero_iff.mp (push_eq_error_iff.mp hpush).1
    omega

/-- A push onto a full stack is refused. With `push_of_room`, a push depends on the number of free
slots and on nothing else. -/
theorem push_of_full (v : Int) (h : s.capacity ≤ s.toList.length) :
    s.push v = .error .stackOverflow :=
  push_eq_error_iff.mpr ⟨free_eq_zero_iff.mpr h, rfl⟩

/-- A pop from a stack that holds an item gives the topmost one, which is the last in the order
from the bottom. This is the order in which a frame stands below the items. -/
theorem pop_of_toList {items : List Int} (h : s.toList = items ++ [v]) :
    ∃ t, s.pop = .ok (v, t) ∧ t.toList = items ∧ t.capacity = s.capacity := by
  cases hpop : s.pop with
  | ok wt =>
    obtain ⟨w, t⟩ := wt
    have hlist := toList_pop hpop
    rw [h] at hlist
    obtain ⟨hitems, hv⟩ := List.append_inj' hlist rfl
    cases hv
    exact ⟨t, rfl, hitems.symm, capacity_pop hpop⟩
  | error f =>
    have hnil := (pop_eq_error_iff.mp hpop).1
    rw [h] at hnil
    exact absurd hnil (List.append_ne_nil_of_right_ne_nil _ (List.cons_ne_nil _ _))

/-- A pop from an empty stack is refused. -/
theorem pop_of_nil (h : s.toList = []) : s.pop = .error .stackUnderflow :=
  pop_eq_error_iff.mpr ⟨h, rfl⟩

/-- Two operations on stacks give values related by `Q`, or both are refused for one cause, or
the first is refused for a cause in `X`. -/
inductive Alike {α : Type} (Q : α → α → Prop) (X : Fault → Prop) :
    Except Fault α → Except Fault α → Prop
  | ok {x y : α} (h : Q x y) : Alike Q X (.ok x) (.ok y)
  | error {f : Fault} : Alike Q X (.error f) (.error f)
  | escape {f : Fault} {r : Except Fault α} (h : X f) : Alike Q X (.error f) r

end Stack

/-- A relation between stacks that both operations keep, with the causes `X` for which the first
stack may leave the second behind. A pop gives the same value on both. -/
structure StackCoupling (Q : Stack → Stack → Prop) (X : Fault → Prop) : Prop where
  push : ∀ {s t : Stack} (v : Int), Q s t → Stack.Alike Q X (s.push v) (t.push v)
  pop : ∀ {s t : Stack}, Q s t →
    Stack.Alike (fun x y => x.1 = y.1 ∧ Q x.2 y.2) X s.pop t.pop

namespace Engine

/-! ### Actions that are one operation on a stack -/

/-- The result of an action that is one operation on a stack: `put` stores what the operation has
made of the stack, and `value` is what the action gives. -/
def carry {α β : Type} (value : α → β) (put : Engine → α → Engine) (x : Except Fault α)
    (e : Engine) : EStateM.Result Fault Engine β :=
  match x with
  | .ok a => .ok (value a) (put e a)
  | .error f => .error f e

/-- The action is a push on the operand stack, carried to the engine. -/
private theorem push_eq_carry (v : Int) (e : Engine) :
    push v e = carry (fun _ => ()) (fun e o => { e with operands := o }) (e.operands.push v) e := by
  unfold push carry
  cases e.operands.push v <;> rfl

/-- The action is a pop of the operand stack, carried to the engine. -/
private theorem pop_eq_carry (e : Engine) :
    pop e = carry Prod.fst (fun e x => { e with operands := x.2 }) e.operands.pop e := by
  unfold pop carry
  cases e.operands.pop <;> rfl

/-- The action is a push on the return stack, carried to the engine. -/
private theorem pushReturn_eq_carry (a : Int) (e : Engine) :
    pushReturn a e
      = carry (fun _ => ()) (fun e o => { e with returns := o }) (e.returns.push a) e := by
  unfold pushReturn carry
  cases e.returns.push a <;> rfl

/-- The action is a pop of the return stack, carried to the engine. -/
private theorem popReturn_eq_carry (e : Engine) :
    popReturn e = carry Prod.fst (fun e x => { e with returns := x.2 }) e.returns.pop e := by
  unfold popReturn carry
  cases e.returns.pop <;> rfl

/-! ### Paired engines -/

/-- What watches an engine: its monitor, and whether the engine tells it anything. -/
def watch (e : Engine) : Monitor × Bool := (e.monitor, e.tracing)

/-- Two engines are equal but for their stacks and what watches them. The operand stacks are
related by `P` and the return stacks by `Q`. -/
structure EqualButStacks (P Q : Stack → Stack → Prop) (s t : Engine) : Prop where
  program : s.program = t.program
  size : s.size = t.size
  operands : P s.operands t.operands
  returns : Q s.returns t.returns
  registers : s.registers = t.registers
  output : s.output = t.output

/-- Moreover, what watches the engines is related by `W`. -/
structure StackPaired (P Q : Stack → Stack → Prop) (W : Monitor × Bool → Monitor × Bool → Prop)
    (s t : Engine) : Prop extends EqualButStacks P Q s t where
  watch : W s.watch t.watch

section

variable {P Q : Stack → Stack → Prop} {W : Monitor × Bool → Monitor × Bool → Prop}
  {X : Fault → Prop}

/-- Actions that come down to one operation on a stack match if the operations are alike. The four
actions on stacks are all of this kind. -/
private theorem matches_carry {R : Engine → Engine → Prop} {α β : Type} {Q : α → α → Prop}
    {x y : Except Fault α} {s t : Engine} {value : α → β} {put : Engine → α → Engine}
    (h : Stack.Alike Q X x y) (hst : R s t)
    (hput : ∀ a b, Q a b → value a = value b ∧ R (put s a) (put t b)) :
    Matches R X (carry value put x s) (carry value put y t) := by
  cases h with
  | @ok a b hab =>
    obtain ⟨hvalue, hab⟩ := hput a b hab
    unfold carry
    simp only [hvalue]
    exact .ok hab
  | error => exact .error hst
  | escape hx => exact .escape hx

/-- Pushes are coupled if the relation of the operand stacks keeps them. -/
private theorem stackPaired_push (hP : StackCoupling P X) (v : Int) :
    Coupled (StackPaired P Q W) X (push v) (push v) := by
  intro s t h
  rw [push_eq_carry, push_eq_carry]
  exact matches_carry (hP.push v h.operands) h fun _ _ ho => ⟨rfl, { h with operands := ho }⟩

/-- Pops are coupled if the relation of the operand stacks keeps them. -/
private theorem stackPaired_pop (hP : StackCoupling P X) :
    Coupled (StackPaired P Q W) X pop pop := by
  intro s t h
  rw [pop_eq_carry, pop_eq_carry]
  exact matches_carry (hP.pop h.operands) h fun _ _ ho => ⟨ho.1, { h with operands := ho.2 }⟩

/-- The same for pushes on the return stacks. -/
private theorem stackPaired_pushReturn (hQ : StackCoupling Q X) (a : Int) :
    Coupled (StackPaired P Q W) X (pushReturn a) (pushReturn a) := by
  intro s t h
  rw [pushReturn_eq_carry, pushReturn_eq_carry]
  exact matches_carry (hQ.push a h.returns) h fun _ _ ho => ⟨rfl, { h with returns := ho }⟩

/-- The same for pops of the return stacks. -/
private theorem stackPaired_popReturn (hQ : StackCoupling Q X) :
    Coupled (StackPaired P Q W) X popReturn popReturn := by
  intro s t h
  rw [popReturn_eq_carry, popReturn_eq_carry]
  exact matches_carry (hQ.pop h.returns) h fun _ _ ho => ⟨ho.1, { h with returns := ho.2 }⟩

/-- Relations between stacks that pushes and pops keep make a coupling of engines, if watching has
no part in it. Announcements are left to the law, because their lines show the depths of the
stacks. -/
theorem coupling_of_stacks (hP : StackCoupling P X) (hQ : StackCoupling Q X)
    (hannounce : ∀ {s t : Engine} (i : Instr), StackPaired P Q W s t →
      i.arity ≤ s.params.length → Matches (StackPaired P Q W) X (announce i s) (announce i t)) :
    Coupling (StackPaired P Q W) X where
  registers h := h.registers
  assign h _ := { h with registers := rfl }
  push := stackPaired_push hP
  pop := stackPaired_pop hP
  pushReturn := stackPaired_pushReturn hQ
  popReturn := stackPaired_popReturn hQ
  emit := coupled_emit (fun _ _ h => h.output) fun _ _ h _ => { h with output := rfl }
  jump := by
    refine coupled_jump (fun s t h => h.size) fun s t h a => ?_
    have hregisters := congrArg (fun r => { r with pc := a }) h.registers
    exact { h with registers := hregisters }
  announce := hannounce

end

end Engine

end StackMachine
