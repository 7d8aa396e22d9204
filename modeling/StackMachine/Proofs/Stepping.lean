import StackMachine.Datum
import StackMachine.Proofs.Log
import StackMachine.Proofs.Residue

/-!
# `StackMachine.Proofs.Stepping`: an engine driven by hand runs like one that runs

A host need not leave the loop to the engine. It can fetch an opcode, ask how many operands it
takes, fetch these, and have the opcode executed with them, for as long as it likes. `driveFor` is
that loop, and `driveFor_agrees` compares it with a run.

- `readByHand` is the part of a round before the execution, and `roundByHand` the whole.
- `Relabelled l m` relates engines that are alike but for registers which no effect assigns. The
  effects keep it (`effectCoupling_relabelled`), and they look at the operands through the first
  one alone.
- `turn_agrees` compares one iteration with one round. The host assigns neither the phase nor the
  origin, and the opcode later than a run does.
-/

set_option autoImplicit false

namespace StackMachine

/-- An integer that names no instruction is not looked up. The refusal shows the integer as the
refusal to execute it does, so a host that passes it on (`arityOf`) says what a run would say. -/
theorem Datum.arity_of_none {w : Int} (h : Instr.ofOpcode? w = none) :
    ∃ l, (Datum.int w).arity = .error l ∧ l.message = (Fault.unknownOpcode w).message := by
  refine ⟨.unknownOpcode (.int w), ?_, rfl⟩
  unfold Datum.arity Datum.instr?
  simp only [Datum.toInt?, Option.bind_some, h]

namespace Engine

/-! ### The loop of a host -/

/-- The number of operands of an opcode, as a host looks it up. -/
def arityOf (opcode : Int) : Action Nat :=
  match (Datum.int opcode).arity with
  | .ok n => pure n
  | .error _ => throw (.unknownOpcode opcode)

/-- The opcode that comes next with its operands, or nothing if it is a stop. -/
def readByHand : Action (Option (Int × List Int)) := do
  let opcode ← fetch
  if opcode = Instr.halt.opcode then pure none
  else
    let n ← arityOf opcode
    let params ← loadParams n
    pure (some (opcode, params))

/-- One round of the loop. It tells whether the loop goes on. -/
def roundByHand : Action Bool := do
  match ← readByHand with
  | none => pure false
  | some (opcode, params) =>
    execute opcode params
    pure true

/-- One round with its outcome. -/
def turnByHand (e : Engine) : Outcome × Engine :=
  match roundByHand e with
  | .ok true e => (.running, e)
  | .ok false e => (.halted, e)
  | .error f e => (.failed f, e)

/-- The loop, cut off after `n` rounds. -/
def driveFor : Nat → Engine → Outcome × Engine
  | 0, e => (.running, e)
  | n + 1, e =>
    match e.turnByHand with
    | (.running, e) => driveFor n e
    | ended => ended

/-- The next round does not get as far as an execution: it meets a stop, or a lookup fails. -/
def StopsReading (e : Engine) : Prop := ∀ x t, readByHand e ≠ .ok (some x) t

/-- Two engines are alike but for opcode, origin and phase. -/
structure AlikeButLabels (s t : Engine) : Prop where
  program : s.program = t.program
  size : s.size = t.size
  operands : s.operands = t.operands
  returns : s.returns = t.returns
  pc : s.pc = t.pc
  params : s.params = t.params
  output : s.output = t.output
  monitor : s.monitor = t.monitor
  tracing : s.tracing = t.tracing

/-! ### What effects do not look at -/

/-- Two engines are alike but for the registers, which are `l` and `m`. The program counters are
equal, whatever those of `l` and `m` are. -/
def Relabelled (l m : Registers) (s t : Engine) : Prop :=
  s.registers = { l with pc := s.pc } ∧ t = s.assign { m with pc := s.pc }

section

variable {l m : Registers} {X : Fault → Prop} {s t : Engine}

/-- Registers have no part in the stacks. -/
private theorem sameStacks_relabelled : SameStacks (Relabelled l m) where
  operands h := by rw [h.2]; rfl
  returns h := by rw [h.2]; rfl
  setOperands h _ := ⟨h.1, by rw [h.2]; rfl⟩
  setReturns h _ := ⟨h.1, by rw [h.2]; rfl⟩

/-- Of several operands only the first is looked up. So what stands behind it need not be the same
in both engines. -/
private theorem coupled_operand_relabelled (h : l.params.head? = m.params.head?) :
    Coupled (Relabelled l m) X operand operand := by
  intro s t hst
  have hs : s.params = l.params := congrArg Registers.params hst.1
  have ht : t.params = m.params := by
    rw [hst.2]
    rfl
  cases hl : l.params with
  | nil =>
    have hm : m.params = [] := by
      rw [hl] at h
      exact List.head?_eq_none_iff.mp h.symm
    rw [operand_of_nil (hs.trans hl), operand_of_nil (ht.trans hm)]
    exact .error hst
  | cons v rest =>
    obtain ⟨more, hm⟩ : ∃ more, m.params = v :: more := by
      rw [hl] at h
      exact List.head?_eq_some_iff.mp h.symm
    rw [operand_of_cons (hs.trans hl), operand_of_cons (ht.trans hm)]
    exact .ok hst

/-- Effects assign no register but the program counter, and look at no other but the first operand.
-/
theorem effectCoupling_relabelled (h : l.params.head? = m.params.head?) :
    EffectCoupling (Relabelled l m) X where
  pc_eq hst := by rw [hst.2]; rfl
  operand := coupled_operand_relabelled h
  push := sameStacks_relabelled.push
  pop := sameStacks_relabelled.pop
  pushReturn := sameStacks_relabelled.pushReturn
  popReturn := sameStacks_relabelled.popReturn
  emit := coupled_emit (fun _ _ hst => by rw [hst.2]; rfl) fun _ _ hst _ =>
    ⟨hst.1, by rw [hst.2]; rfl⟩
  jump := by
    refine coupled_jump (fun _ _ hst => by rw [hst.2]; rfl) fun s t hst a => ⟨?_, ?_⟩
    · show ({ s.registers with pc := a } : Registers) = _
      rw [hst.1]
    · rw [hst.2]
      rfl

end

/-! ### One round -/

section

variable {e s t u : Engine} {f : Fault}

/-- Registers that are set to the same program counter and operands leave engines alike. -/
private theorem AlikeButLabels.assign (h : AlikeButLabels s t) {l m : Registers} (hpc : l.pc = m.pc)
    (hparams : l.params = m.params) : AlikeButLabels (s.assign l) (t.assign m) :=
  { h with pc := hpc, params := hparams }

/-- Engines that are alike are relabelled to each other by setting their registers. -/
private theorem AlikeButLabels.relabelled (h : AlikeButLabels s t) {l m : Registers}
    (hpc : l.pc = m.pc) :
    Relabelled l m (s.assign l) (t.assign m) := by
  refine ⟨rfl, ?_⟩
  unfold Engine.assign
  simp only [h.program, h.size, h.operands, h.returns, hpc, h.output, h.monitor, h.tracing]

/-- Relabelled engines are alike if their operands are the same. -/
private theorem Relabelled.alike {l m : Registers} (h : Relabelled l m s t)
    (hparams : l.params = m.params) : AlikeButLabels s t := by
  obtain ⟨hs, rfl⟩ := h
  exact ⟨rfl, rfl, rfl, rfl, rfl, (congrArg Registers.params hs).trans hparams, rfl, rfl, rfl⟩

/-- They have the same opcode if their labels do. -/
private theorem Relabelled.opcode_eq {l m : Registers} (h : Relabelled l m s t)
    (hopcode : l.opcode = m.opcode) : s.opcode = t.opcode := by
  obtain ⟨hs, rfl⟩ := h
  exact (congrArg Registers.opcode hs).trans hopcode

/-- Engines that are alike read the same words. -/
private theorem AlikeButLabels.decoded (h : AlikeButLabels s t) : s.decoded = t.decoded :=
  decoded_congr h.program h.size h.pc

/-- A fault touches nothing in which engines are alike. -/
private theorem AlikeButLabels.faulted (h : AlikeButLabels s t) (f : Fault) :
    AlikeButLabels (s.faulted f) t := by
  obtain ⟨phase, hphase⟩ := s.exists_faulted_eq f
  rw [hphase]
  exact { h with }

/-- The opcode of an instruction is looked up. -/
private theorem arityOf_opcode (i : Instr) : arityOf i.opcode e = .ok i.arity e := by
  have harity : (Datum.int i.opcode).arity = .ok i.arity := by cases i <;> rfl
  simp only [arityOf, harity]
  rfl

/-- Any other opcode is refused, for the cause for which a run would refuse it. The lookup knows
more kinds of arguments than integers, and words are a case of them. -/
private theorem arityOf_of_none {w : Int} (h : Instr.ofOpcode? w = none) :
    arityOf w e = .error (.unknownOpcode w) e := by
  obtain ⟨l, harity, -⟩ := Datum.arity_of_none h
  simp only [arityOf, harity]
  rfl

/-! ### Reading by hand -/

/-- Where no word can be fetched, a host is told what a run is told. The lemmas that follow go
through what the words may say otherwise. -/
private theorem readByHand_of_outside (h : e.decoded = .outside) :
    readByHand e = .error (e.absence e.pc) { e with pc := e.stranded e.pc } :=
  bind_of_error (fetch_of_none (decode_eq_outside_iff.mp h))

/-- A word that names no instruction is fetched, and refused when its operands are looked up. -/
private theorem readByHand_of_unknown {w : Int} (h : e.decoded = .unknown w) :
    readByHand e = .error (.unknownOpcode w) { e with pc := e.pc + 1 } := by
  obtain ⟨hw, hnone⟩ := decode_eq_unknown_iff.mp h
  have hne : w ≠ Instr.halt.opcode := by
    rintro rfl
    rw [ofOpcode?_opcode] at hnone
    cases hnone
  unfold readByHand
  rw [bind_of_ok (fetch_of_word hw), if_neg hne, bind_of_error (arityOf_of_none hnone)]

/-- The operand of an instruction that is cut short is refused as in a run. The program counter is
left where a run leaves it too. -/
private theorem readByHand_of_cut {i : Instr} (h : e.decoded = .cut i) :
    readByHand e
      = .error (e.absence (e.pc + 1)) { e with pc := e.stranded (e.pc + 1) } := by
  obtain ⟨hw, hblock⟩ := decode_eq_cut_iff.mp h
  have hne : i.opcode ≠ Instr.halt.opcode := by
    intro hi
    rw [opcode_injective hi] at hblock
    cases hblock
  have hmany : loadParams i.arity { e with pc := e.pc + 1 }
      = .error (e.absence (e.pc + 1)) { e with pc := e.stranded (e.pc + 1) } := fetchMany_of_cut h
  unfold readByHand
  rw [bind_of_ok (fetch_of_word hw), if_neg hne, bind_of_ok (arityOf_opcode i),
    bind_of_error hmany]

/-- A stop ends the reading, and nothing but the program counter has changed. -/
private theorem readByHand_of_halt {params : List Int} (h : e.decoded = .ready .halt params) :
    readByHand e = .ok none { e with pc := e.pc + 1 } := by
  obtain ⟨hw, _⟩ := decode_eq_ready_iff.mp h
  unfold readByHand
  rw [bind_of_ok (fetch_of_word hw), if_pos rfl]
  rfl

/-- Any other instruction is read with its operands. -/
private theorem readByHand_of_ready {i : Instr} {params : List Int}
    (h : e.decoded = .ready i params)
    (hi : i ≠ .halt) :
    readByHand e = .ok (some (i.opcode, params)) { e with pc := e.pc + 1 + i.arity } := by
  obtain ⟨hw, hblock⟩ := decode_eq_ready_iff.mp h
  have hne : i.opcode ≠ Instr.halt.opcode := fun heq => hi (opcode_injective heq)
  have hmany : loadParams i.arity { e with pc := e.pc + 1 } = .ok params _ :=
    fetchMany_of_block (e := { e with pc := e.pc + 1 }) hblock
  unfold readByHand
  rw [bind_of_ok (fetch_of_word hw), if_neg hne, bind_of_ok (arityOf_opcode i),
    bind_of_ok hmany]
  rfl

/-! ### Rounds -/

/-- A round whose reading fails has failed before an execution, so the opcode that the engine holds
is still an earlier one. -/
private theorem turnByHand_of_error (h : readByHand e = .error f t) :
    e.turnByHand = (.failed f, t) ∧ e.StopsReading := by
  refine ⟨?_, fun x u hx => ?_⟩
  · unfold turnByHand roundByHand
    rw [bind_of_error h]
  · rw [h] at hx
    cases hx

/-- A round that reads a stop ends the loop before an execution. -/
private theorem turnByHand_of_none (h : readByHand e = .ok none t) :
    e.turnByHand = (.halted, t) ∧ e.StopsReading := by
  refine ⟨?_, fun x u hx => ?_⟩
  · unfold turnByHand roundByHand
    rw [bind_of_ok h]
    rfl
  · rw [h] at hx
    cases hx

/-- Any other round is an execution. -/
private theorem turnByHand_of_some {w : Int} {params : List Int}
    (h : readByHand e = .ok (some (w, params)) t) :
    e.turnByHand = match execute w params t with
      | .ok _ u => (.running, u)
      | .error f u => (.failed f, u) := by
  have hround : roundByHand e = (do execute w params; pure true : Action Bool) t := bind_of_ok h
  unfold turnByHand
  rw [hround]
  cases hrun : execute w params t with
  | ok v u =>
    rw [bind_of_ok hrun]
    rfl
  | error g u => rw [bind_of_error hrun]

/-- An iteration and a round that both get to carry out an instruction. They agree but for labels,
since a round by hand neither sets the phase nor notes the origin. -/
theorem turn_agrees_of_ready {i : Instr} {params : List Int} (h : AlikeButLabels s t)
    (ht : s.tracing = false) (hd : t.decoded = .ready i params) (hi : i ≠ .halt) :
    s.turn.1 = t.turnByHand.1 ∧ AlikeButLabels s.turn.2 t.turnByHand.2 ∧
      s.turn.2.opcode = t.turnByHand.2.opcode := by
  -- The two are alike then but for origin and phase.
  let l : Registers := ⟨s.pc + 1 + i.arity, s.pc, i.opcode, params, .executing⟩
  let m : Registers := ⟨t.pc + 1 + i.arity, t.origin, i.opcode, params, t.phase⟩
  have hrelated : Relabelled l m (s.assign l) (t.assign m) :=
    h.relabelled (congrArg (· + 1 + (i.arity : Int)) h.pc)
  have hcoupling : EffectCoupling (Relabelled l m) fun _ => False := effectCoupling_relabelled rfl
  have hmatch := hcoupling.effect i _ _ hrelated
  have hleft : announce i (s.assign l) = .ok () (s.assign l) :=
    announce_of_not_tracing (e := s.assign l) ht i
  have hright : announce i (t.assign m) = .ok () (t.assign m) :=
    announce_of_not_tracing (e := t.assign m) (h.tracing.symm.trans ht) i
  have hrun : s.turn = concluded .running (effect i (s.assign l)) := by
    rw [turn_of_ready (h.decoded.trans hd) hi]
    exact congrArg (concluded .running) (bind_of_ok hleft)
  have hexecute : execute i.opcode params { t with pc := t.pc + 1 + i.arity }
      = effect i (t.assign m) := by
    rw [execute_of_opcode, if_neg hi]
    exact bind_of_ok hright
  rw [hrun, turnByHand_of_some (readByHand_of_ready hd hi), hexecute]
  generalize effect i (s.assign l) = r at hmatch ⊢
  generalize effect i (t.assign m) = r' at hmatch ⊢
  cases hmatch with
  | ok hst => exact ⟨rfl, hst.alike rfl, hst.opcode_eq rfl⟩
  | error hst =>
    exact ⟨rfl, (hst.alike rfl).faulted _, (opcode_faulted _ _).trans (hst.opcode_eq rfl)⟩
  | escape hf => exact hf.elim

/-- One iteration and one round. Where the round stops before an execution, so does the iteration,
and has set the opcode by then if it got hold of one. -/
theorem turn_agrees (h : AlikeButLabels s t) (ht : s.tracing = false) :
    s.turn.1 = t.turnByHand.1 ∧ AlikeButLabels s.turn.2 t.turnByHand.2 ∧
      (s.turn.2.opcode = t.turnByHand.2.opcode ∨ s.turn.1 ≠ .running ∧ t.StopsReading) := by
  have hdecoded := h.decoded
  have hnext : s.pc + 1 = t.pc + 1 := by rw [h.pc]
  cases hd : t.decoded with
  | outside =>
    obtain ⟨hturn, hstops⟩ := turnByHand_of_error (readByHand_of_outside hd)
    obtain ⟨hcause, hstranded⟩ := absence_congr h.size h.pc
    have halike := h.assign (l := ⟨s.stranded s.pc, s.pc, s.opcode, s.params, .fetching⟩)
      (m := { t.registers with pc := t.stranded t.pc }) hstranded h.params
    rw [turn_of_outside (hdecoded.trans hd), hturn, ← hcause]
    exact ⟨rfl, halike.faulted _, .inr ⟨nofun, hstops⟩⟩
  | unknown w =>
    obtain ⟨hturn, hstops⟩ := turnByHand_of_error (readByHand_of_unknown hd)
    have halike := h.assign (l := ⟨s.pc + 1, s.pc, w, s.params, .errored⟩)
      (m := { t.registers with pc := t.pc + 1 }) hnext h.params
    rw [turn_of_unknown (hdecoded.trans hd), hturn]
    exact ⟨rfl, halike, .inr ⟨nofun, hstops⟩⟩
  | cut i =>
    obtain ⟨hturn, hstops⟩ := turnByHand_of_error (readByHand_of_cut hd)
    obtain ⟨hcause, hstranded⟩ := absence_congr h.size hnext
    have halike := h.assign
      (l := ⟨s.stranded (s.pc + 1), s.pc, i.opcode, s.params, .fetching⟩)
      (m := { t.registers with pc := t.stranded (t.pc + 1) }) hstranded h.params
    rw [turn_of_cut (hdecoded.trans hd), hturn, ← hcause]
    exact ⟨rfl, halike.faulted _, .inr ⟨nofun, hstops⟩⟩
  | ready i params =>
    by_cases hi : i = .halt
    · subst hi
      obtain ⟨hturn, hstops⟩ := turnByHand_of_none (readByHand_of_halt hd)
      have halike := h.assign (l := ⟨s.pc + 1, s.pc, Instr.halt.opcode, s.params, .halted⟩)
        (m := { t.registers with pc := t.pc + 1 }) hnext h.params
      have hann : announce .halt (s.opened Instr.halt.opcode) = .ok () _ :=
        announce_of_not_tracing (e := s.opened Instr.halt.opcode) ht .halt
      rw [turn_of_halt (hdecoded.trans hd), bind_of_ok hann, hturn]
      exact ⟨rfl, halike, .inr ⟨nofun, hstops⟩⟩
    · obtain ⟨houtcome, halike, hopcode⟩ := turn_agrees_of_ready h ht hd hi
      exact ⟨houtcome, halike, .inl hopcode⟩

/-! ### Runs -/

/-- After any number of iterations and rounds. Engines that are alike stay so, and their opcodes
are the same again after every execution. -/
theorem runFor_agrees (h : AlikeButLabels s t) (hopcode : s.opcode = t.opcode)
    (ht : s.tracing = false) (n : Nat) :
    (s.runFor n).1 = (t.driveFor n).1 ∧ AlikeButLabels (s.runFor n).2 (t.driveFor n).2 ∧
      ((s.runFor n).2.opcode = (t.driveFor n).2.opcode ∨
        ∃ m u, m < n ∧ t.driveFor m = (.running, u) ∧ u.StopsReading) := by
  -- The count goes down from the start, where the loop and the run have their next step.
  induction n generalizing s t with
  | zero => exact ⟨rfl, h, .inl hopcode⟩
  | succ n ih =>
    obtain ⟨houtcome, halike, hstep⟩ := turn_agrees h ht
    have huntraced := (untraced_runFor ht 1).2
    rw [runFor_one] at huntraced
    cases hs : s.turn with
    | mk o s' =>
      cases hd : t.turnByHand with
      | mk o' t' =>
        rw [hs] at houtcome halike hstep huntraced
        rw [hd] at houtcome halike hstep
        obtain rfl : o = o' := houtcome
        simp only [runFor, driveFor, hs, hd]
        cases o with
        | running =>
          have hopcode' : s'.opcode = t'.opcode := by
            rcases hstep with hsame | ⟨hended, _⟩
            · exact hsame
            · exact absurd rfl hended
          obtain ⟨hrest, hsame, hlast⟩ := ih halike hopcode' huntraced
          refine ⟨hrest, hsame, hlast.imp_right ?_⟩
          rintro ⟨m, u, hm, hdrive, hstops⟩
          refine ⟨m + 1, u, Nat.succ_lt_succ hm, ?_, hstops⟩
          simp only [driveFor, hd]
          exact hdrive
        | halted | failed f =>
          refine ⟨rfl, halike, hstep.imp_right fun hstopped => ?_⟩
          exact ⟨0, t, Nat.succ_pos n, rfl, hstopped.2⟩

/-! ### Executions with more operands than one -/

/-- Two engines are alike but for the operands: the first has these, and the second only the first
of them. -/
def FirstOperandOf (v : Int) (rest : List Int) (s t : Engine) : Prop :=
  s.params = v :: rest ∧ t = { s with params := [v] }

variable {l : Registers} {v : Int} {rest : List Int}

/-- Engines with such labels differ in the operands behind the first. -/
private theorem Relabelled.firstOperandOf (h : Relabelled l { l with params := [v] } s t)
    (hl : l.params = v :: rest) : FirstOperandOf v rest s t := by
  obtain ⟨hs, rfl⟩ := h
  have hlabels : { l with params := [v], pc := s.pc } = { s.registers with params := [v] } := by
    rw [hs]
  rw [hlabels]
  exact ⟨(congrArg Registers.params hs).trans hl, rfl⟩

/-- Announcements show the first operand alone. -/
private theorem matches_announce_relabelled {X : Fault → Prop}
    (h : Relabelled l { l with params := [v] } s t) (hl : l.params = v :: rest) (i : Instr) :
    Matches (Relabelled l { l with params := [v] }) X (announce i s) (announce i t) := by
  obtain ⟨hparams, ht⟩ := h.firstOperandOf hl
  have hone : i.arity ≤ 1 := by cases i <;> decide
  have htracing : s.tracing = t.tracing := by rw [ht]
  have hparams' : t.params = [v] := by rw [ht]
  cases hlive : s.tracing with
  | false =>
    rw [announce_of_not_tracing hlive, announce_of_not_tracing (htracing.symm.trans hlive)]
    exact .ok h
  | true =>
    have hle : i.arity ≤ s.params.length := by
      rw [hparams, List.length_cons]
      omega
    have hle' : i.arity ≤ t.params.length := by
      rw [hparams']
      exact hone
    have hdescribed : described i t.params = described i s.params := by
      unfold described
      rw [hparams, hparams']
      rfl
    rw [announce_of_tracing hlive hle, announce_of_tracing (htracing.symm.trans hlive) hle',
      hdescribed]
    refine matches_trace h (by rw [ht]) (fun text => by rw [ht]; rfl) (fun lines => ?_) _
    exact ⟨h.1, by rw [h.2]; rfl⟩

/-- An execution looks at its operands through the first one alone. No cause is excepted, since the
traces are the same as well. -/
theorem execute_agrees (e : Engine) (w v : Int) (rest : List Int) :
    Matches (FirstOperandOf v rest) (fun _ => False)
      (execute w (v :: rest) e) (execute w [v] e) := by
  cases hi : Instr.ofOpcode? w with
  | none =>
    have hout := Instr.ofOpcode?_eq_none_iff.mp hi
    rw [execute_of_unknown (by omega), execute_of_unknown (by omega)]
    exact .error ⟨rfl, rfl⟩
  | some i =>
    obtain rfl : w = i.opcode := Instr.ofOpcode?_eq_some_iff.mp hi
    rw [execute_of_opcode, execute_of_opcode]
    by_cases hhalt : i = .halt
    · rw [if_pos hhalt, if_pos hhalt]
      exact .ok ⟨rfl, rfl⟩
    · rw [if_neg hhalt, if_neg hhalt]
      let l : Registers := ⟨e.pc, e.origin, i.opcode, v :: rest, e.phase⟩
      have hstart : Relabelled l { l with params := [v] }
          (e.given i.opcode (v :: rest) e.monitor) (e.given i.opcode [v] e.monitor) := ⟨rfl, rfl⟩
      have hcoupling : EffectCoupling (Relabelled l { l with params := [v] }) fun _ => False :=
        effectCoupling_relabelled rfl
      have hmatch := (matches_announce_relabelled hstart rfl i).bind fun _ => hcoupling.effect i
      exact hmatch.imp fun s t hst => hst.firstOperandOf rfl

end

/-- An engine driven by hand agrees with one that runs. Let an engine not trace, and let a host
drive it by hand while its twin runs. After any number of rounds and iterations

- both go on, both have met a stop, or both have failed for the same cause, which is worded alike;
- the program with the noted number of its words, all slots of both stacks, the program counter, the
  operands, the output and the monitor are the same;
- the opcodes are the same as well, unless the last round stopped before it executed anything.

Of the operands with which an opcode is executed, only the first counts. On any engine, tracing or
not, the execution with further operands succeeds or fails exactly as that without them does, and
leaves the same but for the operands themselves. -/
theorem driveFor_agrees (e : Engine) :
    (e.tracing = false → ∀ n,
      (e.runFor n).1 = (e.driveFor n).1 ∧ AlikeButLabels (e.runFor n).2 (e.driveFor n).2 ∧
      ((e.runFor n).2.opcode = (e.driveFor n).2.opcode ∨
        ∃ m u, m < n ∧ e.driveFor m = (.running, u) ∧ u.StopsReading)) ∧
    ∀ w v rest, Matches (FirstOperandOf v rest) (fun _ => False)
      (execute w (v :: rest) e) (execute w [v] e) :=
  ⟨fun ht => runFor_agrees ⟨rfl, rfl, rfl, rfl, rfl, rfl, rfl, rfl, rfl⟩ rfl ht, execute_agrees e⟩

/-- A call that writes a letter and comes back to a stop, by hand and in a run. The opcodes differ
in the end, because only the run takes note of the stop. -/
theorem driveFor_agrees_callLetter : (callLetter false).tracing = false ∧
    ((callLetter false).driveFor 5).1 = .halted ∧
    ((callLetter false).driveFor 5).2.output.toList = ['A'] ∧
    ((callLetter false).driveFor 5).2.opcode ≠ ((callLetter false).runFor 5).2.opcode ∧
    ((callLetter false).runFor 5).1 = ((callLetter false).driveFor 5).1 ∧
    AlikeButLabels ((callLetter false).runFor 5).2 ((callLetter false).driveFor 5).2 := by
  obtain ⟨houtcome, halike, _⟩ := (driveFor_agrees (callLetter false)).1 rfl 5
  exact ⟨rfl, by decide +kernel, by decide +kernel, by decide +kernel, houtcome, halike⟩

end Engine

end StackMachine
