import Mathlib.Logic.ExistsUnique
import StackMachine.Proofs.Failure
import StackMachine.Proofs.Footprint

/-!
# `StackMachine.Proofs.LastInstruction`: where a run has ended

A report about a run that has ended shows the registers of the engine. `lastInstruction_of_ended`
says what they tell: the origin is the address of the last instruction, and the program counter,
the opcode and the operands say how far that instruction has come.

An iteration has four stages, and each leaves its own mixture of new and old registers when it
fails. `FailedAt` describes the mixtures, one structure for each stage. No two of them fit one
report, since the words at the origin decide the stage: that is `stage_of_failedAt`.

- `Instr.hindrances` are the kinds of fault that can stop an instruction, and
  `kind_of_effect` shows that there are no others. An addition never lacks room for its sum.
- `failedAt_of_turn`: a failing iteration has failed at one of the stages.
- A refusal by a sink is not a fault of the run, and is not described here.
-/

set_option autoImplicit false

namespace StackMachine

/-- The kinds of fault that can stop an instruction which has its operands. -/
def Instr.hindrances : Instr → List ErrorKind
  | halt | nop => []
  | push => [.stackOverflow]
  | print | pop | add => [.stackUnderflow]
  | jmp | jz | jnz | ret => [.stackUnderflow, .jumpOutOfBounds]
  | call => [.stackOverflow, .jumpOutOfBounds]

/-- The instructions that take an operand. -/
theorem Instr.arity_eq_one_iff {i : Instr} : i.arity = 1 ↔ i ∈ [push, jz, jnz, call] := by
  cases i <;> decide

/-- The stages of an iteration. -/
inductive Stage where
  /-- Fetching a word. -/
  | fetch
  /-- Looking up what instruction the word stands for. -/
  | lookup
  /-- Fetching the operand of the instruction. -/
  | operand
  /-- Carrying the instruction out. -/
  | effect
  deriving DecidableEq, Repr

/-- The stage at which an iteration fails if it fails, given what its words say. -/
def Decoded.stage : Decoded → Stage
  | outside => .fetch
  | unknown _ => .lookup
  | cut _ => .operand
  | ready _ _ => .effect

namespace Engine

/-! ### What can stop an instruction -/

/-- A cause for which the instruction can fail: one of its hindrances, or a refusal by the
output. -/
def Hinders (i : Instr) (f : Fault) : Prop :=
  f = .outputRefused ∨ ∃ k ∈ i.hindrances, f.kind? = some k

section

variable {s t : Engine} {i : Instr} {f : Fault}

/-- A fault of a hindrance's kind can stop the instruction. -/
private theorem hinders_of_kind {k : ErrorKind} (hk : k ∈ i.hindrances) (hf : f.kind? = some k) :
    Hinders i f := .inr ⟨k, hk, hf⟩

/-- An addition fails only for want of an operand: what it pops makes room for the sum. The
contract of single pushes cannot tell this, so the addition is opened here. -/
private theorem hinders_of_add (h : effect .add s = .error f t) : Hinders .add f := by
  have hunderflow : Hinders .add .stackUnderflow :=
    hinders_of_kind (k := .stackUnderflow) (by decide) rfl
  change (do let a ← pop; let b ← pop; push (Word.add a b) : Action Unit) s = .error f t at h
  cases hfirst : s.operands.pop with
  | error g =>
    obtain ⟨_, rfl⟩ := Stack.pop_eq_error_iff.mp hfirst
    rw [bind_of_error (pop_of_error hfirst)] at h
    cases h
    exact hunderflow
  | ok ao =>
    obtain ⟨a, o⟩ := ao
    rw [bind_of_ok (pop_of_ok hfirst)] at h
    cases hsecond : o.pop with
    | error g =>
      obtain ⟨_, rfl⟩ := Stack.pop_eq_error_iff.mp hsecond
      rw [bind_of_error (pop_of_error (e := { s with operands := o }) hsecond)] at h
      cases h
      exact hunderflow
    | ok bu =>
      obtain ⟨b, u⟩ := bu
      rw [bind_of_ok (pop_of_ok (e := { s with operands := o }) hsecond)] at h
      have hroom := (Stack.items_pop hsecond).2
      unfold push at h
      split at h
      · cases h
      · rename_i g hpush
        have hfull := (Stack.push_eq_error_iff.mp hpush).1
        change u.free = 0 at hfull
        omega

/-- The operands of the instruction are at hand. -/
def AtHand (i : Instr) (s : Engine) : Prop := i.arity ≤ s.params.length

/-- An operand that is at hand is no hindrance. -/
private theorem keeps_operand_of_atHand (harity : 0 < i.arity) :
    Keeps (AtHand i) (Hinders i) Any operand := fun _ hs =>
  sound_operand hs (List.ne_nil_of_length_pos (Nat.lt_of_lt_of_le harity hs)) fun _ _ => trivial

/-- A pop can be stopped by an underflow alone. -/
private theorem keeps_pop_of_atHand (h : .stackUnderflow ∈ i.hindrances) :
    Keeps (AtHand i) (Hinders i) Any pop :=
  keeps_pop (hinders_of_kind h rfl) fun _ _ _ hs _ => ⟨trivial, hs⟩

/-- A jump can be stopped by its address alone. -/
private theorem keeps_jump_of_atHand (h : .jumpOutOfBounds ∈ i.hindrances) (a : Int) :
    Keeps (AtHand i) (Hinders i) Any (jump a) :=
  keeps_jump (hinders_of_kind h rfl) fun _ hs _ _ => hs

/-- Nothing but its hindrances can stop an instruction that has its operands. The contract is one
of causes alone, with an invariant that keeps the operands at hand. -/
private theorem kind_of_effect (harity : i.arity ≤ s.params.length) (h : effect i s = .error f t) :
    Hinders i f := by
  by_cases hadd : i = .add
  · subst hadd
    exact hinders_of_add h
  have hunderflow : ∀ j ∈ [Instr.print, .pop, .add, .jmp, .jz, .jnz],
      .stackUnderflow ∈ j.hindrances := by decide
  have houtside : ∀ j ∈ [Instr.jmp, .jz, .jnz, .call, .ret],
      .jumpOutOfBounds ∈ j.hindrances := by decide
  have hperforms : Performs i s (AtHand i) (Hinders i) Any Any := {
    operand := keeps_operand_of_atHand
    push := fun hi _ _ => keeps_push (hinders_of_kind (by rw [hi]; decide) rfl) fun _ _ hs _ => hs
    pop := fun hi => keeps_pop_of_atHand (hunderflow i hi)
    sum := fun hi => absurd hi hadd
    emit := fun _ _ => keeps_emit (fun _ _ _ => .inl rfl) fun _ _ hs _ => hs
    jump := fun hi => keeps_jump_of_atHand (houtside i hi)
    pushReturn := fun hi =>
      keeps_pushReturn (hinders_of_kind (by rw [hi]; decide) rfl) fun _ _ hs _ => hs
    popReturn := fun hi =>
      keeps_popReturn (hinders_of_kind (by rw [hi]; decide) rfl) fun _ _ _ hs _ => ⟨trivial, hs⟩ }
  have hsound := hperforms.effect harity
  rw [h] at hsound
  cases hsound with
  | error hf _ => exact hf

/-- An iteration that has read all its words fails for a hindrance of its instruction, or because a
sink has refused. -/
theorem hinders_of_turn {params : List Int} (hd : s.decoded = .ready i params) (hi : i ≠ .halt)
    (h : s.turn = (.failed f, t)) : f = .traceRefused ∨ Hinders i f := by
  rcases turn_cases_of_ready hd hi with ⟨m, _, hturn⟩ | ⟨_, hturn⟩
  · rw [hturn] at h
    cases heffect : effect i { s.loaded i params with monitor := m } with
    | ok v u =>
      rw [heffect] at h
      cases h
    | error g u =>
      rw [heffect] at h
      cases h
      exact .inr (kind_of_effect (s := { s.loaded i params with monitor := m })
        (arity_le_of_ready hd) heffect)
  · rw [hturn] at h
    cases h
    exact .inl rfl

end

/-! ### What each stage leaves behind -/

/-- The engine `t` has the operands and the stacks of `s`. -/
structure Untouched (s t : Engine) : Prop where
  params : t.params = s.params
  operands : t.operands = s.operands
  returns : t.returns = s.returns

/-- No word stands at the origin. The iteration has done nothing. -/
structure FailedFetch (s : Engine) (f : Fault) (t : Engine) : Prop where
  outside : ¬ (0 ≤ t.origin ∧ t.origin < s.size)
  pc : t.pc = t.origin
  cause : f = .outOfBounds t.origin
  opcode : t.opcode = s.opcode
  untouched : Untouched s t

/-- The word at the origin is no opcode. It is the only word that was fetched. -/
structure FailedLookup (s : Engine) (f : Fault) (t : Engine) : Prop where
  opcode : s.word? t.origin = some t.opcode
  unknown : ¬ (0 ≤ t.opcode ∧ t.opcode ≤ 10)
  pc : t.pc = t.origin + 1
  cause : f = .unknownOpcode t.opcode
  fetched : s.fetchedInTurn = [t.origin]
  untouched : Untouched s t

/-- The instruction at the origin is the last word of the program, and takes an operand. -/
structure FailedOperand (s : Engine) (f : Fault) (t : Engine) : Prop where
  last : t.origin = s.size - 1
  opcode : s.word? t.origin = some t.opcode
  instr : t.opcode ∈ [Instr.push, .jz, .jnz, .call].map Instr.opcode
  pc : t.pc = s.size
  cause : f = .outOfBounds s.size
  untouched : Untouched s t

/-- The instruction at the origin was read with its operands, and something was in its way. The
program counter stands behind them, so no jump has taken place. -/
structure FailedEffect (s : Engine) (f : Fault) (t : Engine) (i : Instr) : Prop where
  opcode : s.word? t.origin = some t.opcode
  instr : t.opcode = i.opcode
  bounds : 2 ≤ t.opcode ∧ t.opcode ≤ 10
  params : block? s.word? (t.origin + 1) i.arity = some t.params
  pc : t.pc = t.origin + 1 + i.arity
  cause : ∃ k ∈ i.hindrances, f.kind? = some k

/-- An iteration of `s` has failed for `f` at a stage, and has left `t`. -/
def FailedAt (s : Engine) (f : Fault) (t : Engine) : Stage → Prop
  | .fetch => FailedFetch s f t
  | .lookup => FailedLookup s f t
  | .operand => FailedOperand s f t
  | .effect => ∃ i, FailedEffect s f t i

section

variable {s t : Engine} {f : Fault}

/-- The words at the origin decide the stage at which a run failed, so no failure belongs to two of
them. This makes the three descriptions of a failure exclude each other. -/
theorem stage_of_failedAt {k : Stage} (h : FailedAt s f t k) :
    (decode s.word? t.origin).stage = k := by
  cases k with
  | fetch =>
    have hnone : s.word? t.origin = none := word?_of_outside (by have := h.outside; omega)
    rw [decode_eq_outside_iff.mpr hnone]
    rfl
  | lookup =>
    have hout : t.opcode < 0 ∨ 10 < t.opcode := by have := h.unknown; omega
    have hunknown := Instr.ofOpcode?_eq_none_iff.mpr hout
    rw [decode_eq_unknown_iff.mpr ⟨h.opcode, hunknown⟩]
    rfl
  | operand =>
    obtain ⟨i, hi, hopcode⟩ := List.mem_map.mp h.instr
    have harity : i.arity = 1 := Instr.arity_eq_one_iff.mpr hi
    -- The operand would stand where the program ends.
    have hnone : s.word? (t.origin + 1) = none := word?_of_outside (by have := h.last; omega)
    have hblock : block? s.word? (t.origin + 1) i.arity = none := by
      rw [harity]
      simp only [block?, hnone]
    rw [decode_eq_cut_iff.mpr ⟨by rw [h.opcode, hopcode], hblock⟩]
    rfl
  | effect =>
    obtain ⟨i, h⟩ := h
    rw [decode_eq_ready_iff.mpr ⟨by rw [h.opcode, h.instr], h.params⟩]
    rfl

/-- A word that is no opcode is the only one that its iteration fetches. It has no operands that
could be fetched. -/
private theorem fetchedInTurn_of_unknown {w : Int} (h : s.decoded = .unknown w) :
    s.fetchedInTurn = [s.pc] := by
  obtain ⟨hw, hnone⟩ := decode_eq_unknown_iff.mp h
  unfold fetchedInTurn
  rw [fetch_of_word hw]
  simp only [hnone]

/-- A failing iteration has failed at one of the stages, unless a sink has refused. Each case of
`failure_of_turn` is one of them. -/
theorem failedAt_of_turn (h : s.turn = (.failed f, t)) (hf : f.isClassified = true) :
    ∃ k, FailedAt s f t k := by
  cases failure_of_turn h with
  | outside hd =>
    have hout := outside_of_isClassified_absence hf
    obtain ⟨hcause, hstays⟩ := absence_of_outside hout
    rw [faulted, if_pos hf, hstays]
    refine ⟨.fetch, ⟨?_, rfl, hcause, rfl, rfl, rfl, rfl⟩⟩
    show ¬ (0 ≤ s.pc ∧ s.pc < s.size)
    omega
  | @unknown w hd =>
    obtain ⟨hw, hnone⟩ := decode_eq_unknown_iff.mp hd
    have hunknown := Instr.ofOpcode?_eq_none_iff.mp hnone
    refine ⟨.lookup, ⟨hw, ?_, rfl, rfl, fetchedInTurn_of_unknown hd, rfl, rfl, rfl⟩⟩
    show ¬ (0 ≤ w ∧ w ≤ 10)
    omega
  | @cut i hd =>
    have harity := (arity_of_cut hd).1
    have hw := (decode_eq_cut_iff.mp hd).1
    have hin := bounds_of_word? hw
    have hout := outside_of_isClassified_absence hf
    obtain ⟨hcause, hstays⟩ := absence_of_outside hout
    have hi := Instr.arity_eq_one_iff.mp harity
    -- The opcode has passed the check and the next address has not, so the opcode comes last.
    have hend : s.pc + 1 = s.size := by omega
    rw [faulted, if_pos hf, hstays]
    refine ⟨.operand, ⟨?_, hw, List.mem_map_of_mem hi, hend, ?_, rfl, rfl, rfl⟩⟩
    · show s.pc = s.size - 1
      omega
    · rw [hcause, hend]
  | haltLine _ _ | line _ _ _ => cases hf
  | @thwarted i params m o r _ hd hi _ =>
    obtain ⟨hw, hblock⟩ := decode_eq_ready_iff.mp hd
    rcases hinders_of_turn hd hi h with rfl | rfl | ⟨k, hk, hkind⟩
    · cases hf
    · cases hf
    · have hbounds : 2 ≤ i.opcode ∧ i.opcode ≤ 10 := by
        -- Neither a stop nor an idle instruction has a hindrance.
        cases i with
        | halt | nop => cases hk
        | _ => decide
      rw [faulted, if_pos hf]
      exact ⟨.effect, i, hw, rfl, hbounds, hblock, rfl, k, hk, hkind⟩

/-- An iteration that halts has read a stop. No effect concludes with a stop, so the other cases
cannot arise. -/
private theorem decoded_of_halted (h : s.turn = (.halted, t)) :
    ∃ params, s.decoded = .ready .halt params := by
  cases hd : s.decoded with
  | outside =>
    rw [turn_of_outside hd] at h
    cases h
  | unknown w =>
    rw [turn_of_unknown hd] at h
    cases h
  | cut i =>
    rw [turn_of_cut hd] at h
    cases h
  | ready i params =>
    by_cases hi : i = .halt
    · exact ⟨params, by rw [hi]⟩
    · rw [turn_of_ready hd hi] at h
      unfold concluded at h
      split at h
      · cases h
      · cases h

/-- The address of the stop, with the registers behind it. -/
private theorem origin_of_halted (h : s.turn = (.halted, t)) :
    0 ≤ t.origin ∧ t.origin < s.size ∧ s.word? t.origin = some 0 ∧ t.pc = t.origin + 1 ∧
      t.opcode = 0 := by
  obtain ⟨params, hd⟩ := decoded_of_halted h
  have hw := (decode_eq_ready_iff.mp hd).1
  have hin := bounds_of_word? hw
  obtain ⟨m, rfl⟩ := turn_halted h
  exact ⟨hin.1, hin.2, hw, rfl, rfl⟩

end

/-! ### The last instruction of a run -/

/-- The registers of an engine locate the last instruction of a run that has ended. Let `t` be the
state at the end, and `s` the state that the iteration before the last one has left, or the one
at the start if there was none. If the run has halted, a stop stands at the origin, and the program
counter is right behind it. If it has failed for a cause of the taxonomy, then it has failed at
exactly one stage, in the way that `FailedAt` describes for that stage. -/
theorem lastInstruction_of_ended {e t : Engine} {o : Outcome} {n : Nat} (h : e.runFor n = (o, t))
    (ho : o ≠ .running) : ∃ m s, m < n ∧ e.runFor m = (.running, s) ∧ e.runFor (m + 1) = (o, t) ∧
      s.program = e.program ∧ s.size = e.size ∧
      (o = .halted → 0 ≤ t.origin ∧ t.origin < s.size ∧ s.word? t.origin = some 0 ∧
        t.pc = t.origin + 1 ∧ t.opcode = 0) ∧
      ∀ f, o = .failed f → f.isClassified = true → ∃! k, FailedAt s f t k := by
  obtain ⟨m, s, hm, hreached, hturn⟩ := exists_turn_of_ended h ho
  have hframe := runFor_frame e m
  rw [hreached] at hframe
  refine ⟨m, s, hm, hreached, ?_, hframe.program, hframe.size, fun hhalted => ?_,
    fun f hfailed hf => ?_⟩
  · rw [runFor_succ_of_running hreached, hturn]
  · subst hhalted
    exact origin_of_halted hturn
  · subst hfailed
    obtain ⟨k, hk⟩ := failedAt_of_turn hturn hf
    refine ⟨k, hk, fun k' hk' => ?_⟩
    rw [← stage_of_failedAt hk, stage_of_failedAt hk']

/-- An addition that finds one item fails behind itself, at its last stage. A call that writes a
letter and comes back halts behind the stop. -/
theorem lastInstruction_of_ended_add : ∃ p s t t',
    ((callLetter false).withProgram p).runFor 2 = (.failed .stackUnderflow, t) ∧
    t.origin = 2 ∧ FailedAt s .stackUnderflow t .effect ∧
    (callLetter false).runFor 5 = (.halted, t') ∧ t'.origin = 2 ∧ t'.pc = t'.origin + 1 ∧
      t'.opcode = 0 := by
  let p : Program := ⟨#[3, 7, 5], by decide, by decide⟩
  have hfails := runFor_of_outcome (e := (callLetter false).withProgram p) (n := 2)
    (o := .failed .stackUnderflow) (by decide +kernel)
  have hhalts := runFor_of_outcome (e := callLetter false) (n := 5) (o := .halted)
    (by decide +kernel)
  obtain ⟨_, s, _, _, _, hprogram, hsize, _, hfailed⟩ := lastInstruction_of_ended hfails nofun
  obtain ⟨k, hk, _⟩ := hfailed _ rfl rfl
  obtain ⟨_, _, _, _, _, _, _, hhalted, _⟩ := lastInstruction_of_ended hhalts nofun
  obtain ⟨_, _, _, hpc, hopcode⟩ := hhalted rfl
  have horigin : (((callLetter false).withProgram p).runFor 2).2.origin = 2 := by decide +kernel
  have hstage : k = .effect := by
    have hwords : s.word? = p.word? :=
      (word?_congr hprogram hsize).trans (word?_withProgram (callLetter false) p)
    rw [← stage_of_failedAt hk, hwords, horigin]
    decide +kernel
  subst hstage
  exact ⟨p, s, _, _, hfails, horigin, hk, hhalts, by decide +kernel, hpc, hopcode⟩

end Engine

end StackMachine
