import StackMachine.Proofs.Addresses
import StackMachine.Proofs.Endings
import StackMachine.Proofs.Residue

/-!
# `StackMachine.Proofs.StraightLine`: code without jumps is a fold

Straight-line code is a list of instructions that never jump. It works on a desk: the operands, and
the characters written so far. Each instruction turns one desk into the next or fails, so the code
as a whole is the left fold of its instructions, `Straight.fold`. A run of the words of such code,
with a stop behind them, does what the fold does. Operand words are passed over with their opcodes
and are never taken for opcodes themselves.

- `Faces ws e`: the words from the program counter on are `ws`. `Faces.decoded` reads one
  instruction off them, and `Faces.advance` goes on behind it.
- `effect_of_apply` and `effect_of_apply_error`: the effect of an instruction is its application to
  the desk of the engine.
- `turn_of_apply` and `runFor_of_fold`: so is an iteration, and so is a run. `Advanced` is what such
  a run leaves alone.
- `endsIn_of_fold` and `endsIn_of_apply_error` are the two ways in which code with a stop behind it
  ends. `fold_cases` says that there are no more.
- `endsIn_code` puts these together, with the law for code that is followed by other code.
-/

set_option autoImplicit false

namespace StackMachine

/-- The instructions of straight-line code, with what they push. -/
inductive Straight where
  | nop | print | pop | add
  | push (v : Int)
  deriving DecidableEq, Repr

/-- What straight-line code works on. -/
structure Desk where
  /-- The operands, top first. -/
  items : List Int
  /-- The characters written so far, in order. -/
  written : List Char
  deriving DecidableEq, Repr

namespace Straight

/-- The instruction without what it pushes. -/
def instr : Straight → Instr
  | nop => .nop
  | print => .print
  | pop => .pop
  | add => .add
  | push _ => .push

/-- The operands that stand behind the opcode. -/
def operands : Straight → List Int
  | push v => [v]
  | nop | print | pop | add => []

/-- The opcode and the operands. -/
def words (i : Straight) : List Int := i.instr.opcode :: i.operands

/-- The words of instructions, one after the other. -/
def assemble (is : List Straight) : List Int := is.flatMap words

/-- The words of instructions with a stop behind them. -/
def code (is : List Straight) : List Int := assemble is ++ [Instr.halt.opcode]

/-- What an instruction makes of a desk on which there is room for `capacity` operands. -/
def apply (capacity : Nat) : Straight → Desk → Except Fault Desk
  | nop, d => .ok d
  | print, ⟨v :: rest, out⟩ => .ok ⟨rest, out ++ [Machine.character v]⟩
  | pop, ⟨_ :: rest, out⟩ => .ok ⟨rest, out⟩
  | add, ⟨a :: b :: rest, out⟩ => .ok ⟨Word.wrap (a + b) :: rest, out⟩
  | push v, ⟨items, out⟩ =>
    if items.length < capacity then .ok ⟨Word.wrap v :: items, out⟩ else .error .stackOverflow
  | print, _ | pop, _ | add, _ => .error .stackUnderflow

/-- What instructions make of a desk, one after the other. -/
def fold (capacity : Nat) (d : Desk) (is : List Straight) : Except Fault Desk :=
  is.foldlM (fun d i => i.apply capacity d) d

/-- The operands that an instruction leaves when it fails: all of them if there was no room for
another one, and otherwise none. -/
def residue (f : Fault) (items : List Int) : List Int := if f = .stackOverflow then items else []

/-- How code with a stop behind it ends on a desk: with which outcome, behind how many words, and
with what on the desk. -/
inductive Finishes (c : Nat) (d : Desk) (is : List Straight) : Outcome → Nat → Desk → Prop
  | halts {d' : Desk} (h : fold c d is = .ok d') : Finishes c d is .halted (code is).length d'
  /-- The instruction `i` is the first to fail. -/
  | fails {front rest : List Straight} {i : Straight} {d' : Desk} {f : Fault}
      (his : is = front ++ i :: rest) (hfront : fold c d front = .ok d')
      (h : i.apply c d' = .error f) :
      Finishes c d is (.failed f) (assemble (front ++ [i])).length ⟨residue f d'.items, d'.written⟩

/-- No instruction of straight-line code is a stop. -/
private theorem instr_ne_halt (i : Straight) : i.instr ≠ .halt := by
  intro h
  cases i <;> cases h

/-- An instruction has as many operands as its arity says. -/
private theorem arity_instr (i : Straight) : i.instr.arity = i.operands.length := by
  cases i <;> rfl

/-- An instruction takes its opcode and its operands. -/
private theorem length_words (i : Straight) : i.words.length = 1 + i.instr.arity := by
  rw [words, List.length_cons, arity_instr, Nat.add_comm]

section

variable {c n : Nat} {d d' d'' : Desk} {is js : List Straight} {i : Straight} {o : Outcome}
  {f : Fault}

/-- Straight-line code fails for want of room or of operands. Both belong to the taxonomy, so the
run leaves the engine errored. -/
private theorem isClassified_of_apply (h : i.apply c d = .error f) : f.isClassified = true := by
  obtain ⟨items, out⟩ := d
  unfold apply at h
  split at h
  case h_5 v items out =>
    split at h
    · cases h
    · cases h
      rfl
  all_goals cases h
  all_goals rfl

/-- The first instruction is applied, and the rest is folded over what it leaves. -/
private theorem fold_cons : fold c d (i :: is) = (do let d' ← i.apply c d; fold c d' is) :=
  List.foldlM_cons

/-- Code behind other code is folded over what that leaves. -/
private theorem fold_append : fold c d (is ++ js) = (do let d' ← fold c d is; fold c d' js) :=
  List.foldlM_append

/-- The words of the first instruction come first. -/
private theorem assemble_cons : assemble (i :: is) = i.words ++ assemble is := List.flatMap_cons

/-- The words of code and of what follows it stand one after the other. -/
theorem assemble_append : assemble (is ++ js) = assemble is ++ assemble js := List.flatMap_append

/-- The fold goes through, or some instruction is the first to fail. The ones before it have a fold
of their own, which is what a run has done when it gets there. -/
theorem fold_cases (c : Nat) (d : Desk) (is : List Straight) :
    (∃ d', fold c d is = .ok d') ∨ ∃ front i rest d' f, is = front ++ i :: rest ∧
      fold c d front = .ok d' ∧ i.apply c d' = .error f := by
  induction is generalizing d with
  | nil => exact .inl ⟨d, rfl⟩
  | cons j js ih =>
    cases happly : j.apply c d with
    | error f => exact .inr ⟨[], j, js, d, f, rfl, rfl, happly⟩
    | ok e =>
      have hcons (ks : List Straight) : fold c d (j :: ks) = fold c e ks := by
        rw [fold_cons, happly]
        rfl
      rcases ih e with ⟨d', hd'⟩ | ⟨front, i, rest, d', f, rfl, hfront, hi⟩
      · exact .inl ⟨d', (hcons js).trans hd'⟩
      · exact .inr ⟨j :: front, i, rest, d', f, rfl, (hcons front).trans hfront, hi⟩

/-- Code ends in one of the two ways. -/
private theorem exists_finishes (c : Nat) (d : Desk) (is : List Straight) :
    ∃ o n d', Finishes c d is o n d' := by
  rcases fold_cases c d is with ⟨d', h⟩ | ⟨front, i, rest, d', f, his, hfront, h⟩
  · exact ⟨_, _, _, .halts h⟩
  · exact ⟨_, _, _, .fails his hfront h⟩

/-- If the fold goes through, other code is folded over the desk that was left. -/
private theorem fold_append_of_ok (h : fold c d is = .ok d') (js : List Straight) :
    fold c d (is ++ js) = fold c d' js := by
  rw [fold_append, h]
  rfl

/-- Behind code whose fold goes through, other code ends as it does on the desk that was left. The
words of the first are counted in, but not its stop, which has gone. -/
private theorem Finishes.append (h : fold c d is = .ok d') (hjs : Finishes c d' js o n d'') :
    Finishes c d (is ++ js) o ((assemble is).length + n) d'' := by
  cases hjs with
  | halts hd =>
    have hlength : (code (is ++ js)).length = (assemble is).length + (code js).length := by
      rw [code, code, assemble_append, List.append_assoc, List.length_append]
    rw [← hlength]
    exact .halts ((fold_append_of_ok h js).trans hd)
  | @fails front rest i d₁ f his hfront hi =>
    have hlength : (assemble (is ++ front ++ [i])).length
        = (assemble is).length + (assemble (front ++ [i])).length := by
      rw [List.append_assoc, assemble_append, List.length_append]
    have hcode : is ++ js = is ++ front ++ i :: rest := by rw [his, List.append_assoc]
    rw [← hlength]
    exact .fails hcode ((fold_append_of_ok h front).trans hfront) hi

/-- Code that fails ends alike whatever is behind it. -/
private theorem Finishes.append_of_failed (h : Finishes c d is (.failed f) n d')
    (js : List Straight) :
    Finishes c d (is ++ js) (.failed f) n d' := by
  cases h with
  | @fails front rest i d₁ f his hfront hi =>
    have hcode : is ++ js = front ++ i :: (rest ++ js) := by
      rw [his, List.append_assoc, List.cons_append]
    exact .fails hcode hfront hi

end

end Straight

namespace Stack

variable {s : Stack} {v : Int}

/-- A pop from a stack that holds an item, with the top first. Straight-line code is folded over
items in that order. -/
theorem pop_of_cons {rest : List Int} (h : s.items = v :: rest) :
    ∃ t, s.pop = .ok (v, t) ∧ t.items = rest ∧ t.capacity = s.capacity := by
  have hcontent : s.toList = rest.reverse ++ [v] := by rw [toList, h, List.reverse_cons]
  obtain ⟨t, hpop, ht, hcapacity⟩ := pop_of_toList hcontent
  exact ⟨t, hpop, List.reverse_inj.mp ht, hcapacity⟩

/-- A push onto a stack that is not full, with the top first. -/
private theorem push_of_lt (v : Int) (h : s.items.length < s.capacity) :
    ∃ t, s.push v = .ok t ∧ t.items = v :: s.items ∧ t.capacity = s.capacity := by
  obtain ⟨t, hpush, _, hcapacity⟩ := push_of_room v (by rwa [toList, List.length_reverse])
  exact ⟨t, hpush, (items_push hpush).1, hcapacity⟩

end Stack

namespace Engine

open Straight (Finishes assemble code fold residue)

/-- The desk of an engine. -/
def desk (e : Engine) : Desk := ⟨e.operands.items, e.output.toList⟩

/-! ### Words ahead -/

/-- Opcodes are words, so the code that is loaded has the words that were assembled. -/
private theorem wrap_opcode (i : Instr) : Word.wrap i.opcode = i.opcode := by
  cases i <;> decide

/-- The words from the program counter on are these, each wrapped. -/
def Faces (ws : List Int) (e : Engine) : Prop :=
  ∀ (n : Nat) (v : Int), ws[n]? = some v → e.word? (e.pc + n) = some (Word.wrap v)

section

variable {e t : Engine} {ws vs : List Int} {i : Straight}

/-- A program that is loaded is faced from its beginning. -/
private theorem Holds.faces (h : Holds ws e) (hpc : e.pc = 0) : Faces ws e := by
  intro n v hv
  rw [hpc, Int.zero_add, h.word?, hv]
  rfl

/-- The first of the words ahead are ahead as well. -/
theorem Faces.left (h : Faces (ws ++ vs) e) : Faces ws e := by
  intro n v hv
  have hlt := (List.getElem?_eq_some_iff.mp hv).1
  exact h n v ((List.getElem?_append_left hlt).trans hv)

/-- Behind the first words, the rest is faced. The program and its noted size have to be the same
still. -/
theorem Faces.advance (h : Faces (ws ++ vs) e) (hpc : t.pc = e.pc + ws.length)
    (hprogram : t.program = e.program) (hsize : t.size = e.size) : Faces vs t := by
  intro n v hv
  have hplace : (ws ++ vs)[ws.length + n]? = some v := by
    rw [List.getElem?_append_right (Nat.le_add_right _ _), Nat.add_sub_cancel_left, hv]
  have hword := h (ws.length + n) v hplace
  rw [word?_congr hprogram hsize, hpc]
  rwa [Int.natCast_add, ← Int.add_assoc] at hword

/-- The word at the program counter is the opcode, and the one behind it is the operand. So an
operand that happens to be an opcode is not taken for one. -/
theorem Faces.decoded (h : Faces i.words e) :
    e.decoded = .ready i.instr (i.operands.map Word.wrap) := by
  have hfirst := h 0 i.instr.opcode rfl
  rw [wrap_opcode, Int.natCast_zero, Int.add_zero] at hfirst
  refine decode_eq_ready_iff.mpr ⟨hfirst, ?_⟩
  cases i with
  | nop | print | pop | add => rfl
  | push v =>
    have hsecond : e.word? (e.pc + 1) = some (Word.wrap v) := h 1 v rfl
    show block? e.word? (e.pc + 1) 1 = some [Word.wrap v]
    simp only [block?, hsecond, Option.map_some]

/-- A stop that is faced is decoded. -/
private theorem Faces.decoded_halt (h : Faces [Instr.halt.opcode] e) :
    e.decoded = .ready .halt [] := by
  have hfirst := h 0 _ rfl
  rw [Int.natCast_zero, Int.add_zero] at hfirst
  exact decode_eq_ready_iff.mpr ⟨hfirst, rfl⟩

end

/-! ### One instruction -/

section

variable {e s t u : Engine} {i : Straight} {d d' : Desk} {f : Fault}

/-- An instruction that succeeds on the desk succeeds on the engine, and leaves everything alone
that is not on the desk. -/
theorem effect_of_apply (hparams : s.params = i.operands.map Word.wrap) (hout : s.output.Total)
    (h : i.apply s.operands.capacity s.desk = .ok d) :
    ∃ o out, effect i.instr s = .ok () { s with operands := o, output := out } ∧
      o.items = d.items ∧ out.toList = d.written ∧ o.capacity = s.operands.capacity ∧
      out.Total := by
  unfold desk at h
  cases i with
  | nop =>
    cases h
    exact ⟨s.operands, s.output, rfl, rfl, rfl, rfl, hout⟩
  | print =>
    cases hitems : s.operands.items with
    | nil =>
      rw [hitems] at h
      cases h
    | cons v rest =>
      rw [hitems] at h
      cases h
      obtain ⟨o, hpop, ho, hcapacity⟩ := Stack.pop_of_cons hitems
      obtain ⟨out, hwrite, htotal⟩ := Sink.write_of_total hout (Machine.character v)
      have hemit : emit (Word.toChar v) { s with operands := o }
          = .ok () { s with operands := o, output := out } := by
        simp only [Word.toChar_eq_character, emit, hwrite]
      exact ⟨o, out, (bind_of_ok (pop_of_ok hpop)).trans hemit, ho, Sink.toList_write hwrite,
        hcapacity, htotal⟩
  | pop =>
    cases hitems : s.operands.items with
    | nil =>
      rw [hitems] at h
      cases h
    | cons v rest =>
      rw [hitems] at h
      cases h
      obtain ⟨o, hpop, ho, hcapacity⟩ := Stack.pop_of_cons hitems
      exact ⟨o, s.output, bind_of_ok (pop_of_ok hpop), ho, rfl, hcapacity, hout⟩
  | add =>
    rcases hitems : s.operands.items with _ | ⟨a, _ | ⟨b, rest⟩⟩
    · rw [hitems] at h
      cases h
    · rw [hitems] at h
      cases h
    · rw [hitems] at h
      cases h
      obtain ⟨o, hfirst, ho, hcapacity⟩ := Stack.pop_of_cons hitems
      obtain ⟨u, hsecond, hu, hcapacity'⟩ := Stack.pop_of_cons ho
      -- The two pops have made room for the sum.
      have hroom : u.items.length < u.capacity := by
        have hslots : s.operands.items.length ≤ s.operands.capacity := Nat.le_add_right _ _
        rw [hitems, List.length_cons, List.length_cons] at hslots
        rw [hu, hcapacity', hcapacity]
        omega
      obtain ⟨r, hpush, hr, hcapacity''⟩ := Stack.push_of_lt (Word.add a b) hroom
      have hsum : push (Word.add a b) { s with operands := u }
          = .ok () { s with operands := r } := by simp only [push, hpush]
      have hrest : (do let b ← Engine.pop; push (Word.add a b) : Action Unit)
          { s with operands := o } = .ok () { s with operands := r } :=
        (bind_of_ok (pop_of_ok (e := { s with operands := o }) hsecond)).trans hsum
      refine ⟨r, s.output, (bind_of_ok (pop_of_ok hfirst)).trans hrest, ?_, rfl, ?_, hout⟩
      · rw [hr, hu]
        rfl
      · rw [hcapacity'', hcapacity', hcapacity]
  | push v =>
    by_cases hroom : s.operands.items.length < s.operands.capacity
    · have happly := (if_pos hroom).symm.trans h
      cases happly
      obtain ⟨o, hpush, ho, hcapacity⟩ := Stack.push_of_lt (Word.wrap v) hroom
      have hdone : push (Word.wrap v) s = .ok () { s with operands := o } := by
        simp only [push, hpush]
      exact ⟨o, s.output, (bind_of_ok (operand_of_cons hparams)).trans hdone, ho, rfl, hcapacity,
        hout⟩
    · cases (if_neg hroom).symm.trans h

/-- An instruction that fails on the desk fails on the engine for the same cause. What it has
popped by then is gone. -/
theorem effect_of_apply_error (hparams : s.params = i.operands.map Word.wrap)
    (h : i.apply s.operands.capacity s.desk = .error f) :
    ∃ o, effect i.instr s = .error f { s with operands := o } ∧
      o.items = residue f s.operands.items := by
  unfold desk at h
  have hempty (hi : i.instr ∈ Instr.popping) (hnil : s.operands.items = []) :
      effect i.instr s = .error .stackUnderflow s :=
    effect_of_empty hi (by rw [Stack.toList, hnil, List.reverse_nil])
  cases i with
  | nop => cases h
  | print | pop =>
    cases hitems : s.operands.items with
    | nil =>
      rw [hitems] at h
      cases h
      exact ⟨s.operands, hempty (by decide) hitems, hitems⟩
    | cons v rest =>
      rw [hitems] at h
      cases h
  | add =>
    rcases hitems : s.operands.items with _ | ⟨a, _ | ⟨b, rest⟩⟩
    · rw [hitems] at h
      cases h
      exact ⟨s.operands, hempty (by decide) hitems, hitems⟩
    · rw [hitems] at h
      cases h
      obtain ⟨o, hfirst, ho, _⟩ := Stack.pop_of_cons hitems
      have hnil : o.toList = [] := by rw [Stack.toList, ho, List.reverse_nil]
      exact ⟨o, effect_of_blocked (.add hfirst hnil), ho⟩
    · rw [hitems] at h
      cases h
  | push v =>
    by_cases hroom : s.operands.items.length < s.operands.capacity
    · cases (if_pos hroom).symm.trans h
    · have happly := (if_neg hroom).symm.trans h
      cases happly
      have hfull : s.operands.free = 0 := by
        have hcapacity : s.operands.capacity = s.operands.items.length + s.operands.free := rfl
        omega
      exact ⟨s.operands, effect_of_blocked (.full hparams hfull), rfl⟩

/-- The engine `t` is `n` words behind `e`, and on its desk is `d`. The rest of it that matters to
straight-line code is that of `e`. -/
structure Advanced (e : Engine) (n : Nat) (d : Desk) (t : Engine) : Prop where
  pc : t.pc = e.pc + n
  desk : t.desk = d
  program : t.program = e.program
  size : t.size = e.size
  capacity : t.operands.capacity = e.operands.capacity
  returns : t.returns = e.returns
  unobstructed : t.Unobstructed

/-- An engine that was advanced twice was advanced by both numbers of words. -/
private theorem Advanced.trans {n m : Nat} (h : Advanced e n d t) (h' : Advanced t m d' u) :
    Advanced e (n + m) d' u where
  pc := by rw [h'.pc, h.pc, Int.natCast_add, Int.add_assoc]
  desk := h'.desk
  program := h'.program.trans h.program
  size := h'.size.trans h.size
  capacity := h'.capacity.trans h.capacity
  returns := h'.returns.trans h.returns
  unobstructed := h'.unobstructed

/-- The state from which an announced instruction takes effect. The monitor may have changed, and
the line was not refused. -/
private theorem turn_of_announced {params : List Int} {j : Instr} (hfree : e.Unobstructed)
    (hd : e.decoded = .ready j params) (hj : j ≠ .halt) :
    ∃ m, Unobstructed { e.loaded j params with monitor := m } ∧
      e.turn = concluded .running (effect j { e.loaded j params with monitor := m }) := by
  have htraces : TracesFreely (e.loaded j params) := hfree.trace
  obtain ⟨m, hm, hfree'⟩ := announce_of_tracesFreely htraces (arity_le_of_ready hd)
  refine ⟨m, ⟨hfree.output, hfree'⟩, ?_⟩
  rw [turn_of_ready hd hj, bind_of_ok hm]

/-- An iteration that faces an instruction applies it to the desk and moves behind its words. What
stays the same is in `Advanced`, so that iterations can be put together. -/
theorem turn_of_apply (hfree : e.Unobstructed) (hfaces : Faces i.words e)
    (h : i.apply e.operands.capacity e.desk = .ok d) :
    ∃ t, e.turn = (.running, t) ∧ Advanced e i.words.length d t := by
  obtain ⟨m, hfree', hturn⟩ := turn_of_announced hfree hfaces.decoded i.instr_ne_halt
  obtain ⟨o, out, heffect, ho, hout, hcapacity, htotal⟩ := effect_of_apply
    (s := { e.loaded i.instr (i.operands.map Word.wrap) with monitor := m }) rfl hfree'.output h
  rw [heffect] at hturn
  refine ⟨_, hturn, ?_, ?_, rfl, rfl, hcapacity, rfl, htotal, hfree'.trace⟩
  · show e.pc + 1 + i.instr.arity = e.pc + i.words.length
    rw [i.length_words]
    omega
  · show (⟨o.items, out.toList⟩ : Desk) = d
    rw [ho, hout]

/-- An iteration that faces an instruction fails with it. The program counter is behind its last
word then. -/
theorem turn_of_apply_error (hfree : e.Unobstructed) (hfaces : Faces i.words e)
    (h : i.apply e.operands.capacity e.desk = .error f) :
    ∃ t, e.turn = (.failed f, t) ∧ t.pc = e.pc + i.words.length ∧
      t.desk = ⟨residue f e.desk.items, e.desk.written⟩ ∧ t.returns = e.returns := by
  obtain ⟨m, _, hturn⟩ := turn_of_announced hfree hfaces.decoded i.instr_ne_halt
  obtain ⟨o, heffect, ho⟩ := effect_of_apply_error
    (s := { e.loaded i.instr (i.operands.map Word.wrap) with monitor := m }) rfl h
  let s : Engine := { e.loaded i.instr (i.operands.map Word.wrap) with monitor := m, operands := o }
  obtain ⟨_, hphase⟩ := s.exists_faulted_eq f
  rw [heffect] at hturn
  refine ⟨s.faulted f, hturn, ?_, ?_, ?_⟩
  · rw [hphase, i.length_words]
    show e.pc + 1 + i.instr.arity = _
    omega
  · rw [hphase]
    show (⟨o.items, e.output.toList⟩ : Desk) = _
    rw [ho]
    rfl
  · rw [hphase]
    rfl

/-- An iteration that faces a stop halts. -/
private theorem turn_of_stop (hfree : e.Unobstructed) (hfaces : Faces [Instr.halt.opcode] e) :
    ∃ t, e.turn = (.halted, t) ∧ Advanced e 1 e.desk t := by
  have htraces : TracesFreely (e.opened Instr.halt.opcode) := hfree.trace
  obtain ⟨m, hm, hfree'⟩ := announce_of_tracesFreely htraces (i := .halt) (Nat.zero_le _)
  have hturn := turn_of_halt hfaces.decoded_halt
  rw [bind_of_ok hm] at hturn
  exact ⟨_, hturn, rfl, rfl, rfl, rfl, rfl, rfl, hfree.output, hfree'⟩

end

/-! ### Code -/

/-- A run of the engine ends with this outcome in this state. -/
def EndsIn (e : Engine) (o : Outcome) (t : Engine) : Prop :=
  o ≠ .running ∧ ∃ n, e.runFor n = (o, t)

section

variable {e t u : Engine} {o o' : Outcome} {is front rest : List Straight} {i : Straight}
  {d : Desk} {f : Fault}

/-- A run ends in one way at most, whatever the lengths are that witness it. So the two endings of
code exclude each other. -/
theorem EndsIn.unique (h : EndsIn e o t) (h' : EndsIn e o' u) : o = o' ∧ t = u := by
  obtain ⟨ho, n, hn⟩ := h
  obtain ⟨ho', m, hm⟩ := h'
  -- Both runs have ended by the time of the longer one.
  have hlong := runFor_of_ended_of_le hn ho (Nat.le_max_left n m)
  rw [runFor_of_ended_of_le hm ho' (Nat.le_max_right n m)] at hlong
  cases hlong
  exact ⟨rfl, rfl⟩

/-- A turn that ends a run behind its first iterations. The length of the run is found by adding
one to theirs. -/
private theorem endsIn_of_turn {n : Nat} (h : e.runFor n = (.running, t)) (hturn : t.turn = (o, u))
    (ho : o ≠ .running) : EndsIn e o u := by
  refine ⟨ho, n + 1, ?_⟩
  rw [runFor_succ_of_running h, hturn]

/-- A run of a sized engine ends in one of the known ways. The phase at the end is read off it. -/
private theorem EndsIn.ending (h : EndsIn e o t) (hsized : e.Sized) : Ending o t := by
  obtain ⟨ho, n, hn⟩ := h
  exact ending_of_ended hsized hn ho

/-- A run over the words of instructions folds them over the desk, one iteration for each. The
induction is on the code, and each step advances by the words of one instruction. -/
theorem runFor_of_fold (hfree : e.Unobstructed) (hfaces : Faces (assemble is) e)
    (h : fold e.operands.capacity e.desk is = .ok d) :
    ∃ t, e.runFor is.length = (.running, t) ∧ Advanced e (assemble is).length d t := by
  induction is generalizing e with
  | nil =>
    cases h
    exact ⟨e, rfl, (Int.add_zero _).symm, rfl, rfl, rfl, rfl, rfl, hfree⟩
  | cons i is ih =>
    rw [Straight.assemble_cons] at hfaces
    rw [Straight.fold_cons] at h
    cases happly : i.apply e.operands.capacity e.desk with
    | error f =>
      rw [happly] at h
      cases h
    | ok d' =>
      rw [happly] at h
      obtain ⟨s, hturn, hs⟩ := turn_of_apply hfree hfaces.left happly
      -- The rest of the code is faced from here, by an engine with the desk that it is folded over.
      have hrest : fold s.operands.capacity s.desk is = .ok d := by
        rw [hs.capacity, hs.desk]
        exact h
      obtain ⟨t, hrun, ht⟩ := ih hs.unobstructed (hfaces.advance hs.pc hs.program hs.size) hrest
      have hlength : (assemble (i :: is)).length = i.words.length + (assemble is).length := by
        rw [Straight.assemble_cons, List.length_append]
      refine ⟨t, ?_, hlength ▸ hs.trans ht⟩
      rw [List.length_cons, runFor, hturn]
      exact hrun

/-- Code whose fold goes through halts behind its stop, with what the fold says on its desk. -/
theorem endsIn_of_fold (hfree : e.Unobstructed) (hfaces : Faces (code is) e)
    (h : fold e.operands.capacity e.desk is = .ok d) :
    ∃ t, EndsIn e .halted t ∧ Advanced e (code is).length d t := by
  obtain ⟨s, hrun, hs⟩ := runFor_of_fold hfree hfaces.left h
  obtain ⟨t, hturn, ht⟩ := turn_of_stop hs.unobstructed (hfaces.advance hs.pc hs.program hs.size)
  have hlength : (code is).length = (assemble is).length + 1 := List.length_append
  refine ⟨t, endsIn_of_turn hrun hturn nofun, ?_⟩
  rw [hlength, ← hs.desk]
  exact hs.trans ht

/-- Code with an instruction that fails ends there, behind the words of that instruction, and what
follows it does not matter. What the failure leaves of the items is their `residue`. -/
theorem endsIn_of_apply_error {ws : List Int} (hfree : e.Unobstructed)
    (hfaces : Faces (assemble (front ++ [i]) ++ ws) e)
    (hfront : fold e.operands.capacity e.desk front = .ok d)
    (h : i.apply e.operands.capacity d = .error f) :
    ∃ t, EndsIn e (.failed f) t ∧ t.pc = e.pc + (assemble (front ++ [i])).length ∧
      t.desk = ⟨residue f d.items, d.written⟩ ∧ t.returns = e.returns := by
  have hwords : assemble (front ++ [i]) = assemble front ++ i.words := by
    rw [Straight.assemble_append, Straight.assemble_cons]
    exact congrArg _ (List.append_nil _)
  rw [hwords] at hfaces ⊢
  obtain ⟨s, hrun, hs⟩ := runFor_of_fold hfree hfaces.left.left hfront
  have happly : i.apply s.operands.capacity s.desk = .error f := by rw [hs.capacity, hs.desk, h]
  obtain ⟨t, hturn, hpc, hdesk, hreturns⟩ :=
    turn_of_apply_error hs.unobstructed (hfaces.left.advance hs.pc hs.program hs.size) happly
  refine ⟨t, endsIn_of_turn hrun hturn nofun, ?_, ?_, hreturns.trans hs.returns⟩
  · rw [hpc, hs.pc, List.length_append, Int.natCast_add, Int.add_assoc]
  · rw [hdesk, hs.desk]

/-- Code ends on an engine as it does on its desk. Both ways to end are covered, so the two main
results are put together here. -/
private theorem endsIn_of_finishes {n : Nat} (hfree : e.Unobstructed) (hfaces : Faces (code is) e)
    (h : Finishes e.operands.capacity e.desk is o n d) :
    ∃ t, EndsIn e o t ∧ t.pc = e.pc + n ∧ t.desk = d ∧ t.returns = e.returns := by
  cases h with
  | halts hd =>
    obtain ⟨t, hends, ht⟩ := endsIn_of_fold hfree hfaces hd
    exact ⟨t, hends, ht.pc, ht.desk, ht.returns⟩
  | @fails front rest i d' f his hfront hi =>
    have hwords : code is = assemble (front ++ [i]) ++ code rest := by
      rw [his, List.append_cons, code, code, Straight.assemble_append, List.append_assoc]
    exact endsIn_of_apply_error hfree (hwords ▸ hfaces) hfront hi

end

/-- The engine with code in the place of its program, and with the number of its words noted. -/
def withCode (e : Engine) (is : List Straight) : Engine :=
  { e with program := (Program.ofInts (code is)).toOption, size := (code is).length }

/-- Two runs have ended alike, but for `n` words that the first one had to pass over before. -/
structure EndedAlike (n : Nat) (t t' : Engine) : Prop where
  pc : t.pc = n + t'.pc
  desk : t.desk = t'.desk
  returns : t.returns = t'.returns
  phase : t.phase = t'.phase

section

variable {e : Engine} {is js : List Straight}

/-- The program that takes the place is made of the words of the code. -/
private theorem holds_withCode (e : Engine) (is : List Straight) :
    Holds (code is) (e.withCode is) :=
  ⟨rfl, rfl⟩

/-- The engine faces the code from its first word on. -/
theorem faces_withCode (hpc : e.pc = 0) : Faces (code is) (e.withCode is) :=
  (holds_withCode e is).faces hpc

/-- Putting code in the place of the program is what loading its words does. -/
private theorem load_code (e : Engine) (is : List Straight) :
    load (code is) e = .ok () (e.withCode is) := by
  have hne : code is ≠ [] := List.append_ne_nil_of_right_ne_nil _ (List.cons_ne_nil _ _)
  obtain ⟨p, hp⟩ := Program.exists_ofInts hne
  rw [load_of_ofInts hp, withCode, hp, ← (holds_of_ofInts hp e).size]
  rfl

/-- Code that ends on the desk of an engine ends on the engine, with the phase of its outcome. -/
private theorem endsIn_withCode {o : Outcome} {n : Nat} {d : Desk} (hpc : e.pc = 0)
    (hfree : e.Unobstructed) (h : Finishes e.operands.capacity e.desk is o n d) :
    ∃ t, EndsIn (e.withCode is) o t ∧ t.pc = n ∧ t.desk = d ∧ t.returns = e.returns ∧
      (o = .halted → t.phase = .halted) ∧ (∀ f, o = .failed f → t.phase = .errored) := by
  have hfree' : (e.withCode is).Unobstructed := ⟨hfree.output, hfree.trace⟩
  obtain ⟨t, hends, htpc, hdesk, hreturns⟩ := endsIn_of_finishes hfree' (faces_withCode hpc) h
  have hstart : (e.withCode is).pc = 0 := hpc
  rw [hstart, Int.zero_add] at htpc
  have hending := hends.ending (holds_withCode e is).sized
  refine ⟨t, hends, htpc, hdesk, hreturns, fun ho => ?_, fun f hf => ?_⟩
  · exact hending.phase_eq_halted_iff.mpr ho
  · refine hending.phase_eq_errored_iff.mpr ⟨f, hf, ?_⟩
    subst hf
    cases h with
    | fails _ _ hi => exact Straight.isClassified_of_apply hi

/-- Two engines with code that end alike on their desks, but for the words passed over before. -/
private theorem endedAlike_of_finishes {e' : Engine} {o : Outcome} {n m : Nat} {d : Desk}
    (hpc : e.pc = 0) (hpc' : e'.pc = 0) (hfree : e.Unobstructed) (hfree' : e'.Unobstructed)
    (hreturns : e.returns = e'.returns)
    (h : Finishes e.operands.capacity e.desk is o (m + n) d)
    (h' : Finishes e'.operands.capacity e'.desk js o n d) :
    ∃ t t', EndsIn (e.withCode is) o t ∧ EndsIn (e'.withCode js) o t' ∧ EndedAlike m t t' := by
  obtain ⟨t, hends, htpc, hdesk, hkept, hhalted, herrored⟩ := endsIn_withCode hpc hfree h
  obtain ⟨t', hends', htpc', hdesk', hkept', hhalted', herrored'⟩ := endsIn_withCode hpc' hfree' h'
  refine ⟨t, t', hends, hends', ?_, hdesk.trans hdesk'.symm, ?_, ?_⟩
  · rw [htpc, htpc', Int.natCast_add]
  · rw [hkept, hkept', hreturns]
  · cases o with
    | running => exact absurd rfl hends.1
    | halted => rw [hhalted rfl, hhalted' rfl]
    | failed f => rw [herrored f rfl, herrored' f rfl]

/-- Straight-line code runs as the fold of its instructions. Load code with a stop behind it into an
engine that starts at address zero and whose sinks take everything, whatever is on its stacks.

- If the fold over its desk goes through, the run halts behind the stop, with the desk that the fold
  gives.
- If an instruction is the first to fail, the run fails for its cause and leaves the engine errored,
  with the program counter behind its last word. Written is what the instructions before it have
  written, and the operands are those that they left, or none if they were too few.
- One of the two is the case, and the return stack is untouched in both.
- If the code is followed by other code, and it has halted, the run goes on as one of the other code
  would from the state that was left, but for the program counter, which is ahead by the words of
  the first code. If it has failed, it fails alike. -/
theorem endsIn_code (hpc : e.pc = 0) (hfree : e.Unobstructed) (is : List Straight) :
    load (code is) e = .ok () (e.withCode is) ∧
    (∀ d, fold e.operands.capacity e.desk is = .ok d →
      ∃ t, EndsIn (e.withCode is) .halted t ∧ t.pc = (code is).length ∧ t.desk = d ∧
        t.returns = e.returns ∧ t.phase = .halted) ∧
    (∀ front i rest d f, is = front ++ i :: rest → fold e.operands.capacity e.desk front = .ok d →
      i.apply e.operands.capacity d = .error f →
      ∃ t, EndsIn (e.withCode is) (.failed f) t ∧ t.pc = (assemble (front ++ [i])).length ∧
        t.desk = ⟨residue f d.items, d.written⟩ ∧ t.returns = e.returns ∧ t.phase = .errored) ∧
    ((∃ d, fold e.operands.capacity e.desk is = .ok d) ∨
      ∃ front i rest d f, is = front ++ i :: rest ∧
        fold e.operands.capacity e.desk front = .ok d ∧
        i.apply e.operands.capacity d = .error f) ∧
    ∀ js : List Straight,
      (∀ s, EndsIn (e.withCode is) .halted s → ∃ o t t', EndsIn (e.withCode (is ++ js)) o t ∧
        EndsIn ({ s with pc := 0 }.withCode js) o t' ∧
        EndedAlike (assemble is).length t t') ∧
      ∀ f s, EndsIn (e.withCode is) (.failed f) s →
        ∃ t, EndsIn (e.withCode (is ++ js)) (.failed f) t ∧ EndedAlike 0 t s := by
  refine ⟨load_code e is, fun d hd => ?_, fun front i rest d f his hfront hi => ?_,
    Straight.fold_cases _ _ is, fun js => ⟨fun s hs => ?_, fun f s hs => ?_⟩⟩
  · obtain ⟨t, hends, htpc, hdesk, hreturns, hhalted, _⟩ :=
      endsIn_withCode hpc hfree (.halts hd)
    exact ⟨t, hends, htpc, hdesk, hreturns, hhalted rfl⟩
  · obtain ⟨t, hends, htpc, hdesk, hreturns, _, herrored⟩ :=
      endsIn_withCode hpc hfree (.fails his hfront hi)
    exact ⟨t, hends, htpc, hdesk, hreturns, herrored f rfl⟩
  · -- The code has halted, so its fold went through, and `s` is the state that this leaves.
    obtain ⟨o, n, d, hfinishes⟩ := Straight.exists_finishes e.operands.capacity e.desk is
    obtain ⟨u, hu, _⟩ := endsIn_withCode hpc hfree hfinishes
    obtain ⟨rfl, _⟩ := hs.unique hu
    cases hfinishes with
    | halts hd =>
      have hfree' : (e.withCode is).Unobstructed := ⟨hfree.output, hfree.trace⟩
      obtain ⟨u, hu, hleft⟩ := endsIn_of_fold hfree' (faces_withCode hpc) hd
      obtain ⟨_, rfl⟩ := hs.unique hu
      let s' : Engine := { s with pc := 0 }
      have hpcs : s'.pc = 0 := rfl
      have hdesk : s'.desk = d := hleft.desk
      have hcapacity : s'.operands.capacity = e.operands.capacity := hleft.capacity
      have hfrees : s'.Unobstructed := ⟨hleft.unobstructed.output, hleft.unobstructed.trace⟩
      obtain ⟨o, n, d', hjs⟩ := Straight.exists_finishes s'.operands.capacity s'.desk js
      have hboth := hjs
      rw [hcapacity, hdesk] at hboth
      obtain ⟨t, t', ht, ht', halike⟩ := endedAlike_of_finishes hpc hpcs hfree hfrees
        hleft.returns.symm (hboth.append hd) hjs
      exact ⟨o, t, t', ht, ht', halike⟩
  · obtain ⟨o, n, d, hfinishes⟩ := Straight.exists_finishes e.operands.capacity e.desk is
    obtain ⟨u, hu, _⟩ := endsIn_withCode hpc hfree hfinishes
    obtain ⟨rfl, _⟩ := hs.unique hu
    have hboth := hfinishes.append_of_failed js
    rw [← Nat.zero_add n] at hboth
    obtain ⟨t, t', ht, ht', halike⟩ :=
      endedAlike_of_finishes hpc hpc hfree hfree rfl hboth hfinishes
    obtain ⟨_, rfl⟩ := hs.unique ht'
    exact ⟨t, ht, halike⟩

/-- Code that writes a letter halts. With an addition behind it that finds one operand, it fails
there, three words further than the addition does on its own. -/
theorem endsIn_code_letter :
    let letter : List Straight := [.push 4294967361, .print]
    let sum : List Straight := [.push 7, .add]
    (callLetter true).pc = 0 ∧ (callLetter true).Unobstructed ∧
    ∃ s, EndsIn ((callLetter true).withCode letter) .halted s ∧ s.pc = 4 ∧ s.desk = ⟨[], ['A']⟩ ∧
      s.phase = .halted ∧
      ∃ t t', EndsIn ((callLetter true).withCode (letter ++ sum)) (.failed .stackUnderflow) t ∧
        t.pc = 6 ∧ t.desk = ⟨[], ['A']⟩ ∧ t.phase = .errored ∧
        EndsIn ({ s with pc := 0 }.withCode sum) (.failed .stackUnderflow) t' ∧ t'.pc = 3 := by
  intro letter sum
  have hfree : (callLetter true).Unobstructed := ⟨fun _ _ => rfl, fun _ _ _ => rfl⟩
  have hfold : fold 4 ⟨[], []⟩ letter = .ok ⟨[], ['A']⟩ := by decide +kernel
  have hfront : fold 4 ⟨[], []⟩ (letter ++ [.push 7]) = .ok ⟨[7], ['A']⟩ := by decide +kernel
  obtain ⟨_, hhalts, _, _, happend⟩ := endsIn_code (e := callLetter true) rfl hfree letter
  obtain ⟨s, hs, hpc, hdesk, _, hphase⟩ := hhalts _ hfold
  obtain ⟨o, u, t', hu, ht', halike⟩ := (happend sum).1 s hs
  obtain ⟨_, _, hfails, _, _⟩ := endsIn_code (e := callLetter true) rfl hfree (letter ++ sum)
  obtain ⟨t, ht, htpc, htdesk, _, htphase⟩ :=
    hfails (letter ++ [Straight.push 7]) .add [] ⟨[7], ['A']⟩ .stackUnderflow rfl hfront rfl
  obtain ⟨rfl, rfl⟩ := hu.unique ht
  have hsix : u.pc = 6 := htpc
  have hthree : u.pc = 3 + t'.pc := halike.pc
  exact ⟨rfl, hfree, s, hs, hpc, hdesk, hphase, u, t', ht, hsix, htdesk, htphase, ht', by omega⟩

end

end Engine

end StackMachine
