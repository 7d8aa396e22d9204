import StackMachine.Proofs.Failure
import StackMachine.Proofs.StackCoupling

/-!
# `StackMachine.Proofs.Capacities`: capacities matter only when they run out

An engine with larger stacks does what the engine with the smaller ones does, for as long as
these do not overflow. `runFor_eq_of_enlarged` says so for any number of iterations, and what is
left of it when they do overflow: up to that iteration the engines agree, and what the smaller
one has written the larger one has written first.

The overflow is the only way apart because the two pushes are the only places that look at a
capacity. What the slots above the top hold is never looked at, so the engines may differ in
that too, and so they do once one of them has more such slots.
-/

set_option autoImplicit false

namespace StackMachine

/-- The stack `t` holds what `s` holds, and has at least as many slots. -/
structure Stack.FitsIn (s t : Stack) : Prop where
  content : s.toList = t.toList
  room : s.capacity ≤ t.capacity

/-- A stack that fits into another one is as deep. So depths, which lines show, do not tell the two
apart. -/
private theorem Stack.FitsIn.depth {s t : Stack} (h : s.FitsIn t) : s.depth = t.depth := by
  rw [← length_toList, ← length_toList, h.content]

/-- A larger stack does what a smaller one does until that is full. After an overflow of the
smaller one nothing is said of the larger one, which may have taken the value. -/
private theorem stackCoupling_fitsIn : StackCoupling Stack.FitsIn (· = .stackOverflow) where
  push {s t} v h := by
    by_cases hroom : s.toList.length < s.capacity
    · have hroom' : t.toList.length < t.capacity := by
        rw [← h.content]
        exact Nat.lt_of_lt_of_le hroom h.room
      obtain ⟨o, hpush, hlist, hcap⟩ := Stack.push_of_room v hroom
      obtain ⟨u, hpush', hlist', hcap'⟩ := Stack.push_of_room v hroom'
      rw [hpush, hpush']
      exact .ok ⟨by rw [hlist, hlist', h.content], by rw [hcap, hcap']; exact h.room⟩
    · -- Whether the larger stack is full as well is of no account.
      rw [Stack.push_of_full v (Nat.le_of_not_lt hroom)]
      exact .escape rfl
  pop {s t} h := by
    rcases List.eq_nil_or_concat s.toList with hnil | ⟨items, v, hitems⟩
    · rw [Stack.pop_of_nil hnil, Stack.pop_of_nil (h.content ▸ hnil)]
      exact .error
    · rw [List.concat_eq_append] at hitems
      obtain ⟨o, hpop, hlist, hcap⟩ := Stack.pop_of_toList hitems
      obtain ⟨u, hpop', hlist', hcap'⟩ := Stack.pop_of_toList (h.content ▸ hitems)
      rw [hpop, hpop']
      exact .ok ⟨rfl, by rw [hlist, hlist'], by rw [hcap, hcap']; exact h.room⟩

namespace Engine

/-- The engine `t` is `s` with stacks that hold the same items in at least as many slots. -/
def Enlarged (s t : Engine) : Prop := StackPaired Stack.FitsIn Stack.FitsIn Eq s t

/-- A line shows nothing of the stacks but how many items they hold. -/
private theorem line_of_enlarged {s t : Engine} (h : s.Enlarged t) (text : String) :
    s.line text = t.line text := by
  have horigin : s.origin = t.origin := congrArg Registers.origin h.registers
  have hopcode : s.opcode = t.opcode := congrArg Registers.opcode h.registers
  unfold line
  rw [horigin, hopcode, h.operands.depth, h.returns.depth]

/-- Both engines are watched alike, so both write the same line or have it refused. Their lines
agree since free slots are not shown. -/
private theorem matches_announce_of_enlarged {s t : Engine} {X : Fault → Prop} (i : Instr)
    (h : s.Enlarged t) (hi : i.arity ≤ s.params.length) :
    Matches Enlarged X (announce i s) (announce i t) := by
  have hmonitor : s.monitor = t.monitor := congrArg Prod.fst h.watch
  have htracing : s.tracing = t.tracing := congrArg Prod.snd h.watch
  have hparams : s.params = t.params := congrArg Registers.params h.registers
  refine matches_announce h hi hparams htracing (matches_trace h (congrArg Monitor.lines hmonitor)
    (line_of_enlarged h) fun lines => ?_)
  have hwatch : (({ s.monitor with lines } : Monitor), s.tracing)
      = ({ t.monitor with lines }, t.tracing) := by rw [hmonitor, htracing]
  exact { h with watch := hwatch }

/-- Everything an engine does goes on alike in an enlarged one, until a stack overflows. Overflow
is the one cause for which they may part, as every other check compares what the two have in
common. -/
theorem coupling_enlarged : Coupling Enlarged (· = .stackOverflow) :=
  coupling_of_stacks stackCoupling_fitsIn stackCoupling_fitsIn
    fun i h hi => matches_announce_of_enlarged i h hi

/-! ### What a run has written -/

/-- No action takes back what was written: a write comes behind it, and nothing else touches the
output. -/
private theorem contract_output (cs : List Char) :
    Contract (cs <+: ·.output.toList) Any Any Any where
  push _ _ := keeps_push trivial fun _ _ h _ => h
  pop := keeps_pop trivial fun _ _ _ h _ => ⟨trivial, h⟩
  pushReturn _ _ := keeps_pushReturn trivial fun _ _ h _ => h
  popReturn := keeps_popReturn trivial fun _ _ _ h _ => ⟨trivial, h⟩
  emit _ := keeps_emit (fun _ _ _ => trivial) fun _ _ h hwrite => by
    show cs <+: _
    rw [Sink.toList_write hwrite]
    exact h.trans (List.prefix_append _ _)
  jump _ := keeps_jump trivial fun _ h _ _ => h
  operand _ h hne := sound_operand h hne fun _ _ => trivial
  add _ _ _ _ := trivial

/-- What was written before a run stays at the front of the output. This is what remains of the
agreement after an overflow. -/
theorem output_prefix_runFor (e : Engine) (n : Nat) :
    e.output.toList <+: (e.runFor n).2.output.toList := by
  refine ((contract_output e.output.toList).runFor (fun _ h _ => h) (fun s i h hi => ?_)
    (fun _ _ _ _ => trivial) (fun _ => trivial) (List.prefix_refl _) n).state
  exact sound_announce h hi trivial fun _ => h

/-! ### Smaller and larger stacks -/

/-- Capacities matter only when they run out. Let an engine hold the items of another in at
least as many slots, and be equal to it otherwise. After any number of iterations in which no
stack of the smaller engine has overflowed, both have gone on, halted, or failed for the same
cause, and the larger is still the smaller one enlarged: in particular, it halts where the
smaller one halts. If a stack of the smaller engine overflows, they have agreed up to that
iteration, and the output of the smaller one stays at the front of that of the larger one. -/
theorem runFor_eq_of_enlarged {s t : Engine} (h : s.Enlarged t) :
    (∀ n, (s.runFor n).1 ≠ .failed .stackOverflow →
      (t.runFor n).1 = (s.runFor n).1 ∧ Enlarged (s.runFor n).2 (t.runFor n).2) ∧
    (∀ n, (s.runFor n).1 = .running → (s.runFor (n + 1)).1 = .failed .stackOverflow →
      (t.runFor n).1 = .running ∧ Enlarged (s.runFor n).2 (t.runFor n).2 ∧
        ∀ k, n ≤ k → (s.runFor (n + 1)).2.output.toList <+: (t.runFor k).2.output.toList) := by
  have hagree (n : Nat) (hn : (s.runFor n).1 ≠ .failed .stackOverflow) :
      (t.runFor n).1 = (s.runFor n).1 ∧ Enlarged (s.runFor n).2 (t.runFor n).2 := by
    have hrun := coupling_enlarged.runFor (fun _ _ h => h.program) (fun _ _ h => h.size) h n
    generalize s.runFor n = x at hrun hn ⊢
    generalize t.runFor n = y at hrun ⊢
    cases hrun with
    | same h => exact ⟨rfl, h⟩
    | escape hx => exact absurd (congrArg Outcome.failed hx) hn
  refine ⟨hagree, fun n hgoes hover => ?_⟩
  obtain ⟨houtcome, hstate⟩ := hagree n (by rw [hgoes]; nofun)
  rw [hgoes] at houtcome
  refine ⟨houtcome, hstate, fun k hk => ?_⟩
  generalize hs : s.runFor n = x at hgoes hstate
  generalize ht : t.runFor n = y at houtcome hstate
  obtain ⟨_, s₁⟩ := x
  obtain ⟨_, t₁⟩ := y
  cases hgoes
  cases houtcome
  -- The iteration that overflows writes nothing, and the larger engine goes on from there.
  have hturn : s₁.turn = (.failed .stackOverflow, s₁.turn.2) := by
    rw [runFor_succ_of_running hs] at hover
    rw [← hover]
  have hlast : (s.runFor (n + 1)).2.output = t₁.output := by
    rw [runFor_succ_of_running hs, output_of_failed hturn]
    exact hstate.output
  have hmore : t.runFor k = t₁.runFor (k - n) := by
    rw [← runFor_add_of_running (k - n) ht, Nat.add_sub_cancel' hk]
  rw [hlast, hmore]
  exact output_prefix_runFor t₁ (k - n)

/-- On one operand slot a program that writes a letter overflows behind it. With more slots it
writes the same letter and goes on. -/
theorem runFor_eq_of_enlarged_letter : ∃ s t : Engine, s.Enlarged t ∧
    (s.runFor 3).1 = .running ∧ (s.runFor (3 + 1)).1 = .failed .stackOverflow ∧
    (t.runFor 3).1 = .running ∧ (s.runFor (3 + 1)).2.output.toList = ['A'] ∧
    ['A'] <+: (t.runFor 5).2.output.toList ∧ (t.runFor 5).1 = .halted := by
  let p : Program := ⟨#[3, 65, 2, 3, 7, 3, 8, 0], by decide, by decide⟩
  let fresh (c : Nat) : Engine :=
    (ofStacks Sink.unlimited ⟨false, Sink.unlimited⟩ (Stack.empty c) (Stack.empty 0)).withProgram p
  have henlarged : (fresh 1).Enlarged (fresh 2) :=
    ⟨⟨rfl, rfl, ⟨rfl, by decide⟩, ⟨rfl, by decide⟩, rfl, rfl⟩, rfl⟩
  have hgoes : ((fresh 1).runFor 3).1 = .running := by decide +kernel
  have hover : ((fresh 1).runFor (3 + 1)).1 = .failed .stackOverflow := by decide +kernel
  have hletter : ((fresh 1).runFor (3 + 1)).2.output.toList = ['A'] := by decide +kernel
  obtain ⟨_, hlater⟩ := runFor_eq_of_enlarged henlarged
  obtain ⟨hgoes', _, hoverflow⟩ := hlater 3 hgoes hover
  refine ⟨fresh 1, fresh 2, henlarged, hgoes, hover, hgoes', hletter, ?_, by decide +kernel⟩
  rw [← hletter]
  exact hoverflow 5 (by decide)

end Engine

end StackMachine
