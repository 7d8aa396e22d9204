import StackMachine.Proofs.StackCoupling
import StackMachine.Proofs.Tracing

/-!
# `StackMachine.Proofs.Framing`: items below what a run uses

A run neither sees nor disturbs what lies below the items it was given and those it has pushed.
Put more items at the bottom of either stack, and as many more slots, and the run is the same
one with these items below: `runFor_eq_of_framed`. Only an underflow is different, since the run
would go on with an item from below.

Both capacities have to grow by just the items below, or overflows would come later. Trace lines
do show the depth of the stacks, so traces differ; but what they say is never read back.
-/

set_option autoImplicit false

namespace StackMachine

/-- The stack `t` holds what `s` holds on top of the items `base`, with as many more slots. -/
structure Stack.OnTopOf (base : List Int) (s t : Stack) : Prop where
  content : t.toList = base ++ s.toList
  room : t.capacity = s.capacity + base.length

/-- A stack on top of other items is as much deeper as these are many. The two have as many free
slots, so their capacities differ by the same number. -/
private theorem Stack.OnTopOf.length {base : List Int} {s t : Stack} (h : OnTopOf base s t) :
    t.toList.length = s.toList.length + base.length := by
  rw [h.content, List.length_append, Nat.add_comm]

/-- A stack does what it would do without the items below, until it has none of its own. Overflows
come at the same push, since the slots are as many more as the items. -/
theorem stackCoupling_onTopOf (base : List Int) :
    StackCoupling (Stack.OnTopOf base) (· = .stackUnderflow) where
  push {s t} v h := by
    have hlength := h.length
    have hcapacity := h.room
    by_cases hroom : s.toList.length < s.capacity
    · obtain ⟨o, hpush, hlist, hcap⟩ := Stack.push_of_room v hroom
      obtain ⟨u, hpush', hlist', hcap'⟩ := Stack.push_of_room (s := t) v (by omega)
      rw [hpush, hpush']
      refine .ok ⟨?_, by omega⟩
      rw [hlist, hlist', h.content, List.append_assoc]
    · -- The slots added are those that the items below take up, so both are full.
      rw [Stack.push_of_full v (by omega), Stack.push_of_full v (by omega)]
      exact .error
  pop {s t} h := by
    have hcapacity := h.room
    rcases List.eq_nil_or_concat s.toList with hnil | ⟨items, v, hitems⟩
    · rw [Stack.pop_of_nil hnil]
      exact .escape rfl
    · rw [List.concat_eq_append] at hitems
      have hitems' : t.toList = (base ++ items) ++ [v] := by
        rw [h.content, hitems, List.append_assoc]
      obtain ⟨o, hpop, hlist, hcap⟩ := Stack.pop_of_toList hitems
      obtain ⟨u, hpop', hlist', hcap'⟩ := Stack.pop_of_toList hitems'
      rw [hpop, hpop']
      have hcontent : u.toList = base ++ o.toList := by rw [hlist, hlist']
      have hroom : u.capacity = o.capacity + base.length := by omega
      exact .ok ⟨rfl, hcontent, hroom⟩

namespace Engine

/-- The engine `t` is `s` with more operands and more return addresses below its own, but for what
watches either. -/
def Framed (operands addresses : List Int) (s t : Engine) : Prop :=
  EqualButStacks (Stack.OnTopOf operands) (Stack.OnTopOf addresses) s t

/-- No line that is traced under this watch is refused. -/
private def Unhindered (w : Monitor × Bool) : Prop := w.2 = true → w.1.lines.Total

/-- Everything an engine does goes on alike above the items of a frame, until a stack has no items
of its own. Trace lines differ in the depths that they show, but neither engine is stopped by them.
-/
private theorem coupling_framed (operands addresses : List Int) :
    Coupling (StackPaired (Stack.OnTopOf operands) (Stack.OnTopOf addresses)
      fun v w => Unhindered v ∧ Unhindered w) (· = .stackUnderflow) := by
  refine coupling_of_stacks (stackCoupling_onTopOf operands) (stackCoupling_onTopOf addresses) ?_
  intro s t i h hi
  -- The lines differ in the depths they show, but both are written.
  have hparams : s.params = t.params := congrArg Registers.params h.registers
  obtain ⟨m, hs, hsfree⟩ := announce_of_tracesFreely (e := s) h.watch.1 hi
  obtain ⟨m', ht, htfree⟩ := announce_of_tracesFreely (e := t) h.watch.2 (hparams ▸ hi)
  rw [hs, ht]
  exact .ok { h with watch := ⟨hsfree, htfree⟩ }

/-- The frame rule for both stacks. Let an engine hold more operands and more return addresses
below those of another, in as many more slots, and be equal to it otherwise; and let neither be
stopped by a trace line, as none is that does not trace. After any number of iterations in which
the engine without them has not found a stack empty, both have gone on, halted, or failed for the
same cause, and they still differ in nothing but these items below. -/
theorem runFor_eq_of_framed {operands addresses : List Int} {s t : Engine}
    (h : Framed operands addresses s t) (hs : s.TracesFreely) (ht : t.TracesFreely) (n : Nat)
    (hn : (s.runFor n).1 ≠ .failed .stackUnderflow) :
    (t.runFor n).1 = (s.runFor n).1 ∧
      Framed operands addresses (s.runFor n).2 (t.runFor n).2 := by
  have hrun := (coupling_framed operands addresses).runFor (fun _ _ h => h.program)
    (fun _ _ h => h.size) ⟨h, ⟨hs, ht⟩⟩ n
  generalize s.runFor n = x at hrun hn ⊢
  generalize t.runFor n = y at hrun ⊢
  cases hrun with
  | same h => exact ⟨rfl, h.toEqualButStacks⟩
  | escape hx => exact absurd (congrArg Outcome.failed hx) hn

/-- A call that writes a letter leaves two operands and a return address below it in place. -/
theorem runFor_eq_of_framed_callLetter : ∃ t : Engine, Framed [7, 8] [9] (callLetter false) t ∧
    (callLetter false).TracesFreely ∧ t.TracesFreely ∧
    ((callLetter false).runFor 5).1 ≠ .failed .stackUnderflow ∧
    (t.runFor 5).1 = .halted ∧ (t.runFor 5).2.operands.toList = [7, 8] ∧
    (t.runFor 5).2.returns.toList = [9] := by
  let t : Engine :=
    { callLetter false with
      operands := ⟨[8, 7], 4, [], by decide⟩
      returns := ⟨[9], 2, [], by decide⟩ }
  have hframed : Framed [7, 8] [9] (callLetter false) t :=
    ⟨rfl, rfl, ⟨rfl, rfl⟩, ⟨rfl, rfl⟩, rfl, rfl⟩
  have hhalts : ((callLetter false).runFor 5).1 = .halted := by decide +kernel
  have hempty : ((callLetter false).runFor 5).2.operands.toList = [] ∧
      ((callLetter false).runFor 5).2.returns.toList = [] := by decide +kernel
  have hn : ((callLetter false).runFor 5).1 ≠ .failed .stackUnderflow := by rw [hhalts]; nofun
  obtain ⟨houtcome, hstate⟩ := runFor_eq_of_framed hframed nofun nofun 5 hn
  refine ⟨t, hframed, nofun, nofun, hn, houtcome.trans hhalts, ?_, ?_⟩
  · rw [hstate.operands.content, hempty.1]
    rfl
  · rw [hstate.returns.content, hempty.2]
    rfl

end Engine

end StackMachine
