import StackMachine.Proofs.Failure

/-!
# `StackMachine.Proofs.Endings`: what the phase tells of a run that has ended

The phase of an engine and the outcome of its run are set at different places: the phase by the
iteration, and by what catches its faults. `phase_of_ended` says that they fit together, whatever
the engine was like when the run began, and whatever its sinks refuse.

- `Ending` lists the ways in which a run ends, and `ending_of_ended` shows that there are no more.
- A cause outside the taxonomy is always that of a sink. The phase is then the one that the
  iteration had reached: only the line of a stop is written before execution begins.
- `cycleWith_decodeExecOr`: a run never executes an opcode that names no instruction, so it does
  not matter what would be done with one.
-/

set_option autoImplicit false

namespace StackMachine.Engine

/-! ### Ways to end -/

/-- The kinds of error that end a run. -/
def runKinds : List ErrorKind :=
  [.outOfBounds, .jumpOutOfBounds, .unknownOpcode, .stackOverflow, .stackUnderflow]

/-- The ways in which a run ends, with the outcome and the state that it leaves. -/
inductive Ending : Outcome → Engine → Prop
  /-- A stop was reached. -/
  | halted {s : Engine} (hphase : s.phase = .halted) : Ending .halted s
  /-- The program or a stack did not allow what was to be done. -/
  | errored {s : Engine} {f : Fault} {k : ErrorKind} (hkind : f.kind? = some k) (hk : k ∈ runKinds)
      (hphase : s.phase = .errored) : Ending (.failed f) s
  /-- The output did not take a character. -/
  | character {s : Engine} {c : Char} (hwrite : s.output.write c = none)
      (hphase : s.phase = .executing) : Ending (.failed .outputRefused) s
  /-- The monitor did not take the line of a stop. -/
  | haltLine {s : Engine} (hopcode : s.opcode = Instr.halt.opcode)
      (hwrite : s.monitor.lines.write (s.line (described .halt s.params)) = none)
      (hphase : s.phase = .fetching) : Ending (.failed .traceRefused) s
  /-- The monitor did not take the line of another instruction. -/
  | line {s : Engine} {i : Instr} (hi : i ≠ .halt) (hopcode : s.opcode = i.opcode)
      (hwrite : s.monitor.lines.write (s.line (described i s.params)) = none)
      (hphase : s.phase = .executing) : Ending (.failed .traceRefused) s

section

variable {e s : Engine} {o : Outcome}

/-- A failing iteration of a sized engine ends in one of these ways. The engine has to be sized,
since otherwise a lookup might fail behind the check. -/
private theorem ending_of_failure {f : Fault} (hsized : e.Sized) (h : Failure e f s) :
    Ending (.failed f) s := by
  cases h with
  | unknown _ => exact .errored rfl (by decide) rfl
  -- The noted size is right, so a word that is not there is out of bounds.
  | outside hd =>
    rw [(hsized.absence (decode_eq_outside_iff.mp hd)).1]
    exact .errored rfl (by decide) rfl
  | cut hd =>
    rw [(hsized.absence (arity_of_cut hd).2).1]
    exact .errored rfl (by decide) rfl
  | haltLine _ hline => exact .haltLine rfl hline rfl
  | line _ hi hline => exact .line hi rfl hline rfl
  | thwarted _ _ hf =>
    cases hf with
    | full _ | empty _ | outside _ => exact .errored rfl (by decide) rfl
    | refused hwrite => exact .character hwrite rfl

/-- So does every run of such an engine: it ends in an iteration, and the engine was sized up to
there. -/
theorem ending_of_ended {n : Nat} (hsized : e.Sized) (h : e.runFor n = (o, s))
    (ho : o ≠ .running) : Ending o s := by
  obtain ⟨m, u, _, hreached, hturn⟩ := exists_turn_of_ended h ho
  cases o with
  | running => exact absurd rfl ho
  | halted =>
    obtain ⟨w, rfl⟩ := turn_halted hturn
    exact .halted rfl
  | failed f =>
    have hstill : u.Sized := by simpa only [hreached] using hsized.runFor m
    exact ending_of_failure hstill (failure_of_turn hturn)

namespace Ending

/-- The engine is halted exactly after a stop. No other ending sets that phase, and a stop sets it
before anything else could go wrong. -/
theorem phase_eq_halted_iff (h : Ending o s) : s.phase = .halted ↔ o = .halted := by
  cases h with
  | halted hphase | errored _ _ hphase | character _ hphase | haltLine _ _ hphase
  | line _ _ _ hphase => simp [hphase]

/-- The engine is errored exactly after an error of the taxonomy. A refusal by a sink leaves the
phase that the iteration had reached. -/
theorem phase_eq_errored_iff (h : Ending o s) :
    s.phase = .errored ↔ ∃ f, o = .failed f ∧ f.isClassified = true := by
  cases h with
  | halted hphase => simp [hphase]
  | @errored _ f k hkind _ hphase =>
    have hclassified : f.isClassified = true := by rw [Fault.isClassified, hkind]; rfl
    simp [hphase, hclassified]
  -- A refusal of a sink has no kind.
  | character _ hphase | haltLine _ _ hphase | line _ _ _ hphase =>
    simp [hphase, Fault.isClassified, Fault.kind?]

/-- Neither an operand nor a word is looked up where there is none: operands are read before they
are used, and a noted size that is right keeps every lookup inside the program. -/
theorem ne_missing {f : Fault} (h : Ending (.failed f) s) :
    f ≠ .missingOperand ∧ ∀ a, f ≠ .missingWord a := by
  cases h with
  | errored hkind _ _ =>
    -- These two causes have no kind.
    constructor
    · rintro rfl
      cases hkind
    · rintro a rfl
      cases hkind
  | character _ _ | haltLine _ _ _ | line _ _ _ _ => exact ⟨nofun, nofun⟩

end Ending

end

/-! ### Opcodes that name no instruction -/

/-- One iteration of a run, with `execute` in the place of `decodeExec`. -/
def cycleWith (execute : Action Unit) : Action Bool := do
  modify fun e => { e with phase := .fetching, origin := e.pc }
  let opcode ← fetch
  modify fun e => { e with opcode }
  match Instr.ofOpcode? opcode with
  | none => throw (.unknownOpcode opcode)
  | some .halt =>
    announce .halt
    modify fun e => { e with phase := .halted }
    pure false
  | some i =>
    let params ← fetchMany i.arity
    modify fun e => { e with params, phase := .executing }
    execute
    pure true

/-- The iteration of a run is of this kind. -/
private theorem cycleWith_decodeExec : cycleWith decodeExec = cycle := rfl

/-- Execute the present opcode, or do something else with it if it names no instruction. -/
def decodeExecOr (otherwise : Int → Action Unit) : Action Unit := do
  let opcode := (← get).opcode
  match Instr.ofOpcode? opcode with
  | some i => perform i
  | none => otherwise opcode

/-- The engine refuses to execute an opcode that names no instruction. -/
private theorem decodeExecOr_throw :
    decodeExecOr (fun w => throw (.unknownOpcode w)) = decodeExec := rfl

/-- An opcode that names an instruction gets that one performed, whatever would be done otherwise.
-/
private theorem decodeExecOr_of_opcode {s : Engine} {i : Instr} (h : s.opcode = i.opcode)
    (otherwise : Int → Action Unit) : decodeExecOr otherwise s = perform i s := by
  have hi : Instr.ofOpcode? s.opcode = some i := Instr.ofOpcode?_eq_some_iff.mpr h
  simp only [decodeExecOr]
  rw [get_bind]
  simp only [hi]

/-- Fetching leaves the opcode alone, so what is executed is the opcode that was looked up.
Therefore the execution in a run never meets an opcode that it does not know. -/
private theorem opcode_of_fetchMany {n : Nat} {e s : Engine} {ws : List Int}
    (h : fetchMany n e = .ok ws s) : s.opcode = e.opcode := by
  induction n generalizing e ws with
  | zero =>
    cases h
    rfl
  | succ n ih =>
    simp only [fetchMany] at h
    cases hw : e.word? e.pc with
    | none =>
      rw [bind_of_error (fetch_of_none hw)] at h
      cases h
    | some w =>
      rw [bind_of_ok (fetch_of_word hw)] at h
      cases hrest : fetchMany n { e with pc := e.pc + 1 } with
      | error f t =>
        rw [bind_of_error hrest] at h
        cases h
      | ok rest t =>
        rw [bind_of_ok hrest] at h
        cases h
        exact ih (e := { e with pc := e.pc + 1 }) hrest

/-- Two iterations are the same if they execute every instruction alike. What they do with other
opcodes does not matter, because they never get so far. -/
private theorem cycleWith_congr {a b : Action Unit}
    (h : ∀ (s : Engine) (i : Instr), s.opcode = i.opcode → a s = b s) :
    cycleWith a = cycleWith b := by
  funext e
  simp only [cycleWith]
  rw [modify_bind, modify_bind]
  cases hfetch : fetch { e with phase := .fetching, origin := e.pc } with
  | error f s => rw [bind_of_error hfetch, bind_of_error hfetch]
  | ok w s =>
    rw [bind_of_ok hfetch, bind_of_ok hfetch, modify_bind, modify_bind]
    cases hi : Instr.ofOpcode? w with
    | none => rfl
    | some i =>
      have hw : w = i.opcode := Instr.ofOpcode?_eq_some_iff.mp hi
      cases i with
      | halt => rfl
      | _ =>
        -- The opcode was checked when it was fetched, and is still there.
        simp only []
        cases hmany : fetchMany _ { s with opcode := w } with
        | error f t => rw [bind_of_error hmany, bind_of_error hmany]
        | ok params t =>
          rw [bind_of_ok hmany, bind_of_ok hmany, modify_bind, modify_bind]
          have hopcode : t.opcode = w := opcode_of_fetchMany hmany
          have ht := h { t with params, phase := .executing } _ (hopcode.trans hw)
          cases ha : a { t with params, phase := .executing } with
          | ok v u => rw [bind_of_ok ha, bind_of_ok (ht.symm.trans ha)]
          | error f u => rw [bind_of_error ha, bind_of_error (ht.symm.trans ha)]

/-- A run executes no opcode that names no instruction: it has refused to fetch operands for it. So
it does not matter what would be done. -/
theorem cycleWith_decodeExecOr (otherwise : Int → Action Unit) :
    cycleWith (decodeExecOr otherwise) = cycle := by
  rw [← cycleWith_decodeExec, ← decodeExecOr_throw]
  refine cycleWith_congr fun s i h => ?_
  rw [decodeExecOr_of_opcode h, decodeExecOr_of_opcode h]

/-! ### What the phase tells -/

/-- The outcome of a run and the phase of the engine fit together. Whatever the state of a sized
engine is, and whatever its sinks refuse, when a run of it has ended

- it is halted if and only if a stop was reached,
- it is errored if and only if the run failed for a cause of the taxonomy, which is then one of
  `runKinds`,
- and otherwise a sink has refused what it was given. The engine is still fetching if that was
  the line of a stop, and is executing if it was anything else.

In particular no lookup fails, and it does not matter what would be done with an opcode that
names no instruction after its operands were fetched. -/
theorem phase_of_ended {e s : Engine} {o : Outcome} {n : Nat} (hsized : e.Sized)
    (h : e.runFor n = (o, s)) (ho : o ≠ .running) :
    (s.phase = .halted ↔ o = .halted) ∧
    (s.phase = .errored ↔ ∃ f, o = .failed f ∧ f.isClassified = true) ∧
    Ending o s ∧
    (∀ f, o = .failed f → f ≠ .missingOperand ∧ ∀ a, f ≠ .missingWord a) ∧
    ∀ otherwise, cycleWith (decodeExecOr otherwise) = cycle := by
  have hending := ending_of_ended hsized h ho
  refine ⟨hending.phase_eq_halted_iff, hending.phase_eq_errored_iff, hending, fun f hf => ?_,
    cycleWith_decodeExecOr⟩
  subst hf
  exact hending.ne_missing

/-- A monitor that takes four lines refuses that of the stop behind them. The letter has been
written by then, and the engine is fetching. With three lines, it is executing. -/
theorem phase_of_ended_callLetter : ∃ e e' s s' : Engine,
    e.runFor 5 = (.failed .traceRefused, s) ∧ s.output.toList = ['A'] ∧ s.phase = .fetching ∧
    e'.runFor 5 = (.failed .traceRefused, s') ∧ s'.output.toList = ['A'] ∧
      s'.phase = .executing := by
  let watched (n : Nat) : Engine := { callLetter true with monitor := ⟨true, Sink.limited n⟩ }
  have hpair (x : Outcome × Engine) (h : x.1 = .failed .traceRefused) :
      x = (.failed .traceRefused, x.2) := by rw [← h]
  have hstop := hpair ((watched 4).runFor 5) (by decide +kernel)
  have hreturn := hpair ((watched 3).runFor 5) (by decide +kernel)
  have hsized (n : Nat) : (watched n).Sized := rfl
  obtain ⟨_, _, hending, _, _⟩ := phase_of_ended (hsized 4) hstop nofun
  obtain ⟨_, _, hending', _, _⟩ := phase_of_ended (hsized 3) hreturn nofun
  have hopcode : ((watched 4).runFor 5).2.opcode = Instr.halt.opcode := by decide +kernel
  have hopcode' : ((watched 3).runFor 5).2.opcode = Instr.ret.opcode := by decide +kernel
  have hletter : ((watched 4).runFor 5).2.output.toList = ['A'] := by decide +kernel
  have hletter' : ((watched 3).runFor 5).2.output.toList = ['A'] := by decide +kernel
  refine ⟨watched 4, watched 3, _, _, hstop, hletter, ?_, hreturn, hletter', ?_⟩
  · cases hending with
    | errored hkind _ _ => cases hkind
    | haltLine _ _ hphase => exact hphase
    | line hi hother _ _ => exact absurd (opcode_injective (hother.symm.trans hopcode)) hi
  · cases hending' with
    | errored hkind _ _ => cases hkind
    | haltLine hother _ _ => cases opcode_injective (hother.symm.trans hopcode')
    | line _ _ _ hphase => exact hphase

end StackMachine.Engine
