import StackMachine.Proofs.Failure
import StackMachine.Proofs.Rationing
import StackMachine.Proofs.Transcript

/-!
# `StackMachine.Proofs.OutputCut`: an output that fills its sink

Only one instruction writes to the output, one character at a time, and the write comes last in
it. `runFor_of_limited_output` says what follows for a sink that runs out of room: the run is the
same as with room enough, up to the one write that is refused, and there it stops. What the
refused instruction has done before its write stays done.

- `printed?` is the character that an iteration comes to write, if it does, and `Prints` the state
  in which it comes to write it.
- `output_runFor`: the output of a run is collected from its iterations.
- `OutputRationed` relates an engine to one whose output is limited, and `coupling_outputRationed`
  shows that nothing but a refused character tells them apart.
-/

set_option autoImplicit false

namespace StackMachine.Engine

/-! ### Iterations that write -/

/-- The character that the next iteration comes to write: its instruction is read and announced, is
the one that prints, and finds a value. -/
def printed? (e : Engine) : Option Char :=
  match e.instruction?, e.operands.pop with
  | some (.print, params), .ok (v, _) =>
    match announce .print (e.loaded .print params) with
    | .ok _ _ => some (Word.toChar v)
    | .error _ _ => none
  | _, _ => none

/-- The next iteration of `e` comes to write a character, in the state `t`. -/
inductive Prints (e : Engine) : Char → Engine → Prop
  | intro {params : List Int} {m : Monitor} {v : Int} {o : Stack}
      (hd : e.decoded = .ready .print params)
      (hannounce : announce .print (e.loaded .print params)
        = .ok () { e.loaded .print params with monitor := m })
      (hpop : e.operands.pop = .ok (v, o)) :
      Prints e (Word.toChar v) { e.loaded .print params with monitor := m, operands := o }

section

variable {e s t : Engine} {c : Char}

/-- Up to the write, nothing is written, so the output is still that at the beginning of the
iteration. -/
private theorem Prints.output_eq (h : Prints e c t) : t.output = e.output := by
  cases h
  rfl

/-- The engine is executing when it comes to write. -/
private theorem Prints.phase_eq (h : Prints e c t) : t.phase = .executing := by
  cases h
  rfl

/-- A print writes what it has popped. -/
private theorem effect_print {v : Int} {o : Stack} (hpop : e.operands.pop = .ok (v, o)) :
    effect .print e = emit (Word.toChar v) { e with operands := o } := by
  show (do let v ← pop; emit (Word.toChar v) : Action Unit) e = _
  rw [bind_of_ok (pop_of_ok hpop)]

/-- The write decides about the iteration: if it is taken the run goes on, and otherwise it ends
there. -/
private theorem Prints.turn_eq (h : Prints e c t) : e.turn = concluded .running (emit c t) := by
  obtain @⟨params, m, v, o, hd, hannounce, hpop⟩ := h
  rw [turn_of_ready hd (by decide), bind_of_ok hannounce,
    effect_print (e := { e.loaded .print params with monitor := m }) hpop]

/-- What an iteration comes to write is computed from the state in which it begins. -/
private theorem Prints.printed?_eq (h : Prints e c t) : e.printed? = some c := by
  obtain ⟨hd, hannounce, hpop⟩ := h
  unfold printed?
  rw [instruction?_eq_some_iff.mpr hd, hpop]
  simp only [hannounce]

/-- The converse: if there is such a character, the iteration comes to write it. So `printed?` can
be computed along a run in place of the states. -/
private theorem prints_of_printed? (h : e.printed? = some c) : ∃ t, Prints e c t := by
  unfold printed? at h
  split at h
  · rename_i params v o hread hpop
    have hd := instruction?_eq_some_iff.mp hread
    rcases announce_cases (arity_le_of_ready hd) with ⟨m, hm⟩ | ⟨_, hrefused⟩
    · rw [hm] at h
      cases h
      exact ⟨_, .intro hd hm hpop⟩
    · rw [hrefused] at h
      cases h
  · cases h

/-- A write is taken. -/
private theorem emit_of_some {out : Sink Char} (h : e.output.write c = some out) :
    emit c e = .ok () { e with output := out } := by simp only [emit, h]

/-- A write is refused, and nothing changes. -/
private theorem emit_of_none (h : e.output.write c = none) :
    emit c e = .error .outputRefused e := by
  simp only [emit, h]

/-! ### Nothing else writes -/

/-- No other instruction can be refused by the output. The contract is that every action is kept
but the write. -/
private theorem sound_effect_of_ne_print {i : Instr} (hi : i ≠ .print) :
    Sound Any (· ≠ .outputRefused) Any (effect i s) := by
  have hoperand : Keeps Any (· ≠ .outputRefused) Any operand := by
    intro t _
    unfold operand
    split
    · exact .ok trivial trivial
    · exact .error nofun trivial
  have hperforms : Performs i s Any (· ≠ .outputRefused) Any Any := {
    operand := fun _ => hoperand
    push := fun _ _ _ => keeps_push nofun fun _ _ _ _ => trivial
    pop := fun _ => keeps_pop nofun fun _ _ _ _ _ => ⟨trivial, trivial⟩
    sum := fun _ _ _ _ _ => keeps_push nofun fun _ _ _ _ => trivial
    emit := fun hprint => absurd hprint hi
    jump := fun _ _ => keeps_jump nofun fun _ _ _ _ => trivial
    pushReturn := fun _ => keeps_pushReturn nofun fun _ _ _ _ => trivial
    popReturn := fun _ => keeps_popReturn nofun fun _ _ _ _ _ => ⟨trivial, trivial⟩ }
  exact hperforms.effect trivial

/-- An instruction that the output refuses is a print that has popped its value. No other
instruction has that cause. -/
private theorem print_of_refused {i : Instr} (h : effect i s = .error .outputRefused t) :
    i = .print ∧ ∃ v o, s.operands.pop = .ok (v, o) ∧ t = { s with operands := o } := by
  have hprint : i = .print := by
    by_contra hne
    have hsound := sound_effect_of_ne_print (s := s) hne
    rw [h] at hsound
    cases hsound with
    | error hf _ => exact hf rfl
  subst hprint
  refine ⟨rfl, ?_⟩
  cases hpop : s.operands.pop with
  | ok vo =>
    rw [effect_print hpop] at h
    unfold emit at h
    split at h
    · cases h
    · cases h
      exact ⟨vo.1, vo.2, rfl, rfl⟩
  | error f =>
    -- A print that finds no value does not come to its write.
    obtain ⟨_, rfl⟩ := Stack.pop_eq_error_iff.mp hpop
    change (do let v ← pop; emit (Word.toChar v) : Action Unit) s = _ at h
    rw [bind_of_error (pop_of_error hpop)] at h
    cases h

/-- What the output refuses is a character that an iteration comes to write. -/
private theorem prints_of_refused (h : e.turn = (.failed .outputRefused, t)) :
    ∃ c, Prints e c t := by
  have hread : ∃ i params, e.decoded = .ready i params ∧ i ≠ .halt := by
    generalize hf : Fault.outputRefused = f at h
    cases failure_of_turn h with
    | thwarted hd hi _ => exact ⟨_, _, hd, hi⟩
    | outside _ | cut _ => exact absurd hf.symm (absence_ne_refused _ _).1
    | unknown _ | haltLine _ _ | line _ _ _ => cases hf
  obtain ⟨i, params, hd, hi⟩ := hread
  rcases turn_cases_of_ready hd hi with ⟨m, hm, hturn⟩ | ⟨_, hturn⟩
  · rw [hturn] at h
    cases heffect : effect i { e.loaded i params with monitor := m } with
    | ok v u =>
      rw [heffect] at h
      cases h
    | error f u =>
      rw [heffect] at h
      cases h
      obtain ⟨rfl, v, o, hpop, rfl⟩ := print_of_refused heffect
      exact ⟨_, .intro hd hm hpop⟩
  · rw [hturn] at h
    cases h

/-- An iteration that does not come to write leaves the output alone. If it fails, this is
`output_of_failed`; if it goes on, none of its ways to do so is that of a print. -/
private theorem output_of_not_printed (h : e.printed? = none) : e.turn.2.output = e.output := by
  cases hturn : e.turn with
  | mk o t =>
    cases o with
    | running =>
      obtain ⟨i, params, m, hd, _, hm, heffect⟩ := turn_running hturn
      cases heffect with
      | print hpop _ =>
        have hprinted := (Prints.intro hd hm hpop).printed?_eq
        rw [h] at hprinted
        cases hprinted
      | _ => rfl
    | halted =>
      obtain ⟨m, rfl⟩ := turn_halted hturn
      rfl
    | failed f => exact output_of_failed hturn

/-- An iteration writes the character that it comes to write, and no other, to an output that takes
everything. -/
theorem output_turn (h : e.output.Total) : e.turn.2.output.Total ∧
    e.turn.2.output.toList = e.output.toList ++ e.printed?.toList := by
  cases hprinted : e.printed? with
  | none =>
    rw [output_of_not_printed hprinted]
    exact ⟨h, (List.append_nil _).symm⟩
  | some c =>
    obtain ⟨t, ht⟩ := prints_of_printed? hprinted
    obtain ⟨out, hwrite, htotal⟩ := Sink.write_of_total (ht.output_eq ▸ h) c
    have hturn : e.turn = (.running, { t with output := out }) := by
      rw [ht.turn_eq, emit_of_some hwrite]
      rfl
    rw [hturn]
    refine ⟨htotal, ?_⟩
    show out.toList = _
    rw [Sink.toList_write hwrite, ht.output_eq]
    rfl

/-- One iteration on its own writes what it comes to write. -/
private theorem filterMap_printed?_singleton (e : Engine) :
    [e].filterMap printed? = e.printed?.toList := by
  rw [List.filterMap_cons]
  cases e.printed? <;> rfl

/-- The output of a run is collected from its iterations, one character for each that comes to
write one. -/
theorem output_runFor (h : e.output.Total) (n : Nat) :
    (e.runFor n).2.output.toList = e.output.toList ++ (e.starts n).filterMap printed? := by
  induction n generalizing e with
  | zero => exact (List.append_nil _).symm
  | succ n ih =>
    obtain ⟨htotal, hlist⟩ := output_turn h
    have hone := filterMap_printed?_singleton e
    by_cases hgoes : e.turn.1 = .running
    · have hturn := turn_of_outcome hgoes
      have hrun : e.runFor (n + 1) = e.turn.2.runFor n := by
        rw [runFor, hturn]
      rw [hrun, ih htotal, hlist, starts_succ_of_turn hturn, ← List.singleton_append,
        List.filterMap_append, hone, List.append_assoc]
    · have hrun : e.runFor (n + 1) = e.turn := by
        rw [Nat.add_comm]
        exact runFor_add_of_ended n (runFor_one e) hgoes
      rw [hrun, starts_succ_of_turn_ended hgoes, hone, hlist]

end

/-! ### Two sinks -/

/-- The engine with a ration of `k` characters for its output. -/
def outputRationed (k : Nat) (e : Engine) : Engine := { e with output := e.output.rationed k }

/-- The engine `s` is `t` with a ration of `k` characters, which is not exceeded so far. -/
structure OutputRationed (k : Nat) (s t : Engine) : Prop where
  rationed : s = t.outputRationed k
  within : t.output.Within k

section

variable {k : Nat} {s t : Engine}

/-- The ration has no part in the stacks. -/
private theorem sameStacks_outputRationed : SameStacks (OutputRationed k) where
  operands h := by rw [h.rationed]; rfl
  returns h := by rw [h.rationed]; rfl
  setOperands h _ := ⟨by rw [h.rationed]; rfl, h.within⟩
  setReturns h _ := ⟨by rw [h.rationed]; rfl, h.within⟩

/-- Both write the character, unless the ration is used up. -/
private theorem coupled_emit_of_outputRationed (c : Char) :
    Coupled (OutputRationed k) (· = .outputRefused) (emit c) (emit c) := by
  intro s t h
  obtain ⟨rfl, hwithin⟩ := h
  rcases Sink.write_rationed hwithin c with ⟨out, hwrite, hrationed, hwithin'⟩ | ⟨hrefused, _⟩
  · rw [emit_of_some hwrite, emit_of_some (e := t.outputRationed k) hrationed]
    exact .ok ⟨rfl, hwithin'⟩
  · rw [emit_of_none (e := t.outputRationed k) hrefused]
    exact .escape rfl

/-- Nothing but a refused character tells the two engines apart: apart from the ration, the engine
with the limit has the same output. -/
theorem coupling_outputRationed : Coupling (OutputRationed k) (· = .outputRefused) where
  registers h := by rw [h.rationed]; rfl
  assign h _ := ⟨by rw [h.rationed]; rfl, h.within⟩
  push := sameStacks_outputRationed.push
  pop := sameStacks_outputRationed.pop
  pushReturn := sameStacks_outputRationed.pushReturn
  popReturn := sameStacks_outputRationed.popReturn
  emit := coupled_emit_of_outputRationed
  jump := coupled_jump (fun _ _ h => by rw [h.rationed]; rfl)
    fun _ _ h _ => ⟨by rw [h.rationed]; rfl, h.within⟩
  announce _ h hi := by
    obtain ⟨rfl, hwithin⟩ := h
    exact matches_announce ⟨rfl, hwithin⟩ hi rfl rfl
      (matches_trace ⟨rfl, hwithin⟩ rfl (fun _ => rfl) fun _ => ⟨rfl, hwithin⟩)

/-- An engine with room enough comes to write the same character. It does not stop there, so the
two runs part at this write. -/
private theorem Prints.of_outputRationed {u : Engine} {c : Char} (h : Prints s c u)
    (hst : OutputRationed k s t) : Prints t c { u with output := t.output } := by
  obtain @⟨params, m, v, o, hd, hannounce, hpop⟩ := h
  have hmatches := coupling_outputRationed.announce .print
    (coupling_outputRationed.loaded hst .print params) (arity_le_of_ready hd)
  obtain ⟨rfl, _⟩ := hst
  rw [hannounce] at hmatches
  rcases announce_cases (e := t.loaded .print params) (arity_le_of_ready hd) with
    ⟨m', hm'⟩ | ⟨_, hrefused⟩
  · rw [hm'] at hmatches
    cases hmatches with
    | ok hafter =>
      -- What was announced is the same in both.
      have hmonitor : m = m' := congrArg Engine.monitor hafter.rationed
      subst hmonitor
      exact .intro hd hm' hpop
  · rw [hrefused] at hmatches
    cases hmatches

end

/-! ### Limited outputs -/

/-- The engine, writing from now on to this output. -/
def printingTo (out : Sink Char) (e : Engine) : Engine := { e with output := out }

/-- What `n` iterations write if there is room enough. -/
def outputOf (e : Engine) (n : Nat) : List Char :=
  ((e.printingTo .unlimited).runFor n).2.output.toList

section

variable {e t : Engine} {m n : Nat}

/-- An output without end takes everything. -/
private theorem total_printingTo (e : Engine) :
    (e.printingTo .unlimited).output.Total := fun _ _ => rfl

/-- The two outputs of the result differ by a ration, of which nothing is used at first. -/
private theorem outputRationed_printingTo (k : Nat) (e : Engine) :
    OutputRationed k (e.printingTo (.limited k)) (e.printingTo .unlimited) :=
  ⟨rfl, Sink.within_unlimited k⟩

/-- What a run writes to an output without end is collected from its iterations, in their order.
The characters can be counted by it. -/
private theorem outputOf_eq_filterMap :
    e.outputOf n = ((e.printingTo .unlimited).starts n).filterMap printed? := by
  have hlist := output_runFor (total_printingTo e) n
  -- The output is empty at first.
  change _ = [] ++ _ at hlist
  rwa [List.nil_append] at hlist

/-- A longer run writes what a shorter one does, and then perhaps more. -/
private theorem outputOf_mono (h : m ≤ n) : e.outputOf m <+: e.outputOf n := by
  rw [outputOf_eq_filterMap, outputOf_eq_filterMap]
  exact (starts_mono h).filterMap printed?

/-- What one more iteration writes. -/
private theorem outputOf_succ_of_running (h : (e.printingTo .unlimited).runFor m = (.running, t)) :
    e.outputOf (m + 1) = e.outputOf m ++ t.printed?.toList := by
  rw [outputOf_eq_filterMap, outputOf_eq_filterMap, starts_succ_of_running h,
    List.filterMap_append, filterMap_printed?_singleton]

end

/-- Of the runs of `e` with room for `k` characters and with room enough, the one is cut off in
iteration `m + 1`, and the other goes on. The iteration begins in `s`, but for the ration, and `t`
is what the refusal leaves. -/
structure CutAtPrint (e : Engine) (k m : Nat) (s t : Engine) : Prop where
  begins : (e.printingTo .unlimited).runFor m = (.running, s)
  beginsRationed : (e.printingTo (.limited k)).runFor m = (.running, s.outputRationed k)
  /-- The iterations before have used the ration up. -/
  written : (e.outputOf m).length = k
  /-- This one comes to write a character more. -/
  printed : s.printed?.isSome = true
  refused : (e.printingTo (.limited k)).runFor (m + 1) = (.failed .outputRefused, t)
  /-- The write makes no difference but to the output. -/
  goesOn : ∃ out, (e.printingTo .unlimited).runFor (m + 1) = (.running, { t with output := out })
  phase : t.phase = .executing
  output : t.output.toList = e.outputOf m

/-- The run with a limited output leaves the other behind in the iteration for which the ration is
used up. The refused print has popped its value, and the other one has popped the same. -/
theorem cutAtPrint_of_parted {e s t u : Engine} {k m : Nat}
    (hs : (e.printingTo (.limited k)).runFor m = (.running, s))
    (ht : (e.printingTo .unlimited).runFor m = (.running, t)) (hst : OutputRationed k s t)
    (hturn : s.turn = (.failed .outputRefused, u)) : CutAtPrint e k m t u := by
  obtain ⟨c, hprints⟩ := prints_of_refused hturn
  have hfree := hprints.of_outputRationed hst
  obtain ⟨rfl, hwithin⟩ := hst
  have hrunning : e.outputOf m = t.output.toList := by
    unfold outputOf
    rw [ht]
  have hfull : t.output.toList.length = k := by
    cases hwrite : (t.output.rationed k).write c with
    | none => exact Sink.length_of_refused hwithin hwrite
    | some out =>
      -- Were there room, the character would have been written.
      rw [hprints.turn_eq, emit_of_some (by rw [hprints.output_eq]; exact hwrite)] at hturn
      cases hturn
  obtain ⟨out, hwrite, _⟩ := Sink.write_of_total hwithin.total c
  have hgoes : t.turn = (.running, { u with output := out }) := by
    rw [hfree.turn_eq, emit_of_some (e := { u with output := t.output }) hwrite]
    rfl
  exact {
    begins := ht
    beginsRationed := hs
    written := by rw [hrunning, hfull]
    printed := by rw [hfree.printed?_eq]; rfl
    refused := by rw [runFor_succ_of_running hs, hturn]
    goesOn := ⟨out, by rw [runFor_succ_of_running ht, hgoes]⟩
    phase := hprints.phase_eq
    output := by rw [hprints.output_eq, hrunning]; rfl }

/-- An output without room cuts a run off at exactly one print. Let an engine write from some state
on to a sink that takes `k` characters and refuses the next. What it would write in `n` iterations
to a sink that takes everything is one character for each of them that comes to write one, by an
instruction that prints and finds a value, and nothing else. If there are at most `k` of these, the
run is the same as with room enough, in its outcome and in every field. Otherwise it is refused in
the iteration that comes to write character `k + 1`, and this ends the run. The output has the first
`k` characters. Every other field is what it is with room enough at the end of that iteration: the
value is off the stack, the trace has its line, and the engine is still executing. -/
theorem runFor_of_limited_output (e : Engine) (k n : Nat) :
    e.outputOf n = ((e.printingTo .unlimited).starts n).filterMap printed? ∧
    ((e.outputOf n).length ≤ k →
      (e.printingTo (.limited k)).runFor n = (((e.printingTo .unlimited).runFor n).1,
        outputRationed k ((e.printingTo .unlimited).runFor n).2)) ∧
    (k < (e.outputOf n).length → ∃ m s t, m < n ∧ CutAtPrint e k m s t ∧
      (e.printingTo (.limited k)).runFor n = (.failed .outputRefused, t) ∧
      t.output.toList = (e.outputOf n).take k) := by
  refine ⟨outputOf_eq_filterMap, ?_⟩
  have hprogram (s t : Engine) (h : OutputRationed k s t) : s.program = t.program := by
    rw [h.rationed]
    rfl
  have hsize (s t : Engine) (h : OutputRationed k s t) : s.size = t.size := by
    rw [h.rationed]
    rfl
  rcases coupling_outputRationed.together_or_parted hprogram hsize (outputRationed_printingTo k e) n
    with
    ⟨o, s, t, hs, ht, hst⟩ | ⟨m, s, t, f, u, hm, hs, ht, hst, hturn, rfl⟩
  · have houtput : e.outputOf n = t.output.toList := by
      unfold outputOf
      rw [ht]
    refine ⟨fun _ => by rw [hs, ht, hst.rationed], fun hlong => ?_⟩
    have hle := hst.within.le
    rw [houtput] at hlong
    omega
  · rw [hst.rationed] at hs
    have hcut := cutAtPrint_of_parted hs ht ⟨rfl, hst.within⟩ (hst.rationed ▸ hturn)
    have hmore : (e.outputOf (m + 1)).length = k + 1 := by
      obtain ⟨c, hc⟩ := Option.isSome_iff_exists.mp hcut.printed
      rw [outputOf_succ_of_running ht, hc, List.length_append, hcut.written]
      rfl
    have hle : (e.outputOf (m + 1)).length ≤ (e.outputOf n).length :=
      (outputOf_mono hm).length_le
    have hprefix := List.prefix_iff_eq_take.mp (outputOf_mono (e := e) (Nat.le_of_lt hm))
    rw [hcut.written] at hprefix
    have hlater : (e.printingTo (.limited k)).runFor n = (.failed .outputRefused, u) :=
      runFor_of_ended_of_le hcut.refused nofun hm
    exact ⟨fun hshort => by omega,
      fun _ => ⟨m, t, u, hm, hcut, hlater, hcut.output.trans hprefix⟩⟩

/-- A call that writes a letter, without room for it. It is cut off in the print: the letter is off
the stack and in no output, and its line is in the trace. -/
theorem runFor_of_limited_output_callLetter : ∃ m s t, CutAtPrint (callLetter true) 0 m s t ∧
    ((callLetter true).printingTo (.limited 0)).runFor 5 = (.failed .outputRefused, t) ∧
    t.output.toList = [] ∧ t.operands.toList = [] ∧ t.registers = ⟨6, 5, 2, [], .executing⟩ ∧
    t.monitor.lines.toList.length = 3 := by
  have hlong : 0 < ((callLetter true).outputOf 5).length := by decide +kernel
  obtain ⟨m, s, t, _, hcut, ht, houtput⟩ :=
    (runFor_of_limited_output (callLetter true) 0 5).2.2 hlong
  have hstate : let u := (((callLetter true).printingTo (.limited 0)).runFor 5).2
      u.operands.toList = [] ∧ u.registers = ⟨6, 5, 2, [], .executing⟩ ∧
        u.monitor.lines.toList.length = 3 := by decide +kernel
  rw [ht] at hstate
  exact ⟨m, s, t, hcut, ht, houtput, hstate⟩

end StackMachine.Engine
