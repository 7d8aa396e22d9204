import Mathlib.Data.List.Chain
import StackMachine.Proofs.FixedWidth
import StackMachine.Proofs.Log
import StackMachine.Proofs.Progress

/-!
# `StackMachine.Proofs.Transcript`: what can be read off a trace

A trace is made of lines, and someone who reads it wants to know which iterations they are about
and what they say. `trace_isTranscript` answers both for a watched engine. There is one line for
each iteration that gets past its lookups, in the order of the iterations, and no other line. The
line shows where the iteration began, which words it read there, and how deep both stacks were;
and from one line to the next the depths and the address change as the instruction demands.

- `instruction?` is what an iteration reads, by its own three lookups: the fetch of the opcode,
  the arity of the instruction, and the fetch of the operands.
- `LineAbout s line`: the line shows the words from the program counter of `s` on, and the depths
  of its stacks. Addresses and opcodes are shown modulo `2^32`, by eight hexadecimal digits.
- `Follows s t`: how an iteration that begins in `t` follows one that begins in `s`.
-/

set_option autoImplicit false

namespace StackMachine

open Numeral (decimal eightDigits)

namespace Engine

/-! ### What an iteration reads -/

/-- The instruction that the next iteration reads, with its operands, if none of its lookups
fails. -/
def instruction? (e : Engine) : Option (Instr × List Int) :=
  match fetch e with
  | .error _ _ => none
  | .ok w t =>
    match Instr.ofOpcode? w with
    | none => none
    | some i =>
      match fetchMany i.arity t with
      | .error _ _ => none
      | .ok params _ => some (i, params)

/-- The next iteration gets past its lookups. -/
def reads (e : Engine) : Bool := e.instruction?.isSome

/-- The states in which those of the first `n` iterations begin that get past their lookups. -/
def readings (e : Engine) (n : Nat) : List Engine := (e.starts n).filter reads

/-- The text of a line: an address, an opcode, what the instruction is, and two depths. -/
def lineText (address opcode : Int) (what : String) (operands returns : Nat) : String :=
  "PC: 0x" ++ eightDigits address ++ " OP: 0x" ++ eightDigits opcode ++ " IN: " ++ what ++
    " SP: " ++ decimal operands ++ " RP: " ++ decimal returns

/-- A line is about the iteration that begins in `s`. -/
inductive LineAbout (s : Engine) : String → Prop
  | plain {i : Instr} (hw : s.word? s.pc = some i.opcode) (hi : i.arity = 0) :
      LineAbout s (lineText s.pc i.opcode i.mnemonic s.operands.depth s.returns.depth)
  /-- The operand follows the mnemonic. -/
  | withOperand {i : Instr} {x : Int} (hw : s.word? s.pc = some i.opcode) (hi : i.arity = 1)
      (hx : s.word? (s.pc + 1) = some x) :
      LineAbout s (lineText s.pc i.opcode (i.mnemonic ++ " " ++ decimal x) s.operands.depth
        s.returns.depth)

/-- The iteration that begins in `t` comes next after the one that begins in `s`: the depths have
changed as the instruction at `s` demands, and if that never jumps, `t` stands behind it. -/
def Follows (s t : Engine) : Prop :=
  ∃ i : Instr, s.word? s.pc = some i.opcode ∧
    (t.operands.depth : Int) = s.operands.depth + i.operandShift ∧
    (t.returns.depth : Int) = s.returns.depth + i.returnShift ∧
    (i ∈ Instr.straight → t.pc = s.pc + 1 + i.arity)

section

variable {e s t : Engine} {n : Nat}

/-- The lookups succeed exactly where the words decode to an instruction. So what is proved of
decoding holds of the engine's own lookups. -/
theorem instruction?_eq_decoded : e.instruction? =
    match e.decoded with
    | .ready i params => some (i, params)
    | _ => none := by
  unfold instruction?
  cases hd : e.decoded with
  | outside =>
    have hnone := decode_eq_outside_iff.mp hd
    rw [fetch_of_none hnone]
  | unknown w =>
    obtain ⟨hw, hunknown⟩ := decode_eq_unknown_iff.mp hd
    rw [fetch_of_word hw]
    simp only [hunknown]
  | cut i =>
    rw [fetch_of_word (decode_eq_cut_iff.mp hd).1]
    simp only [ofOpcode?_opcode, fetchMany_of_cut hd]
  | ready i params =>
    obtain ⟨hw, hblock⟩ := decode_eq_ready_iff.mp hd
    have hmany := fetchMany_of_block (e := { e with pc := e.pc + 1 }) hblock
    rw [fetch_of_word hw]
    simp only [ofOpcode?_opcode, hmany]

/-- The instruction that is read is the one that is decoded. It is what the line of an iteration
shows, and a stop is among them. -/
theorem instruction?_eq_some_iff {i : Instr} {params : List Int} :
    e.instruction? = some (i, params) ↔ e.decoded = .ready i params := by
  rw [instruction?_eq_decoded]
  cases e.decoded with
  | outside | unknown w | cut j => simp
  | ready j ps => simp

/-- The log has an entry exactly for the iterations that get past their lookups. Lines and
iterations are paired by it. -/
theorem reads_eq_isSome_logged? : e.reads = e.logged?.isSome := by
  unfold reads logged?
  rw [instruction?_eq_decoded]
  cases e.decoded with
  | outside | unknown w | cut i | ready i params => rfl

/-- An iteration that goes on has got past its lookups. -/
theorem reads_of_running (h : e.turn = (.running, t)) : e.reads = true := by
  obtain ⟨i, params, _, hd, _⟩ := turn_running h
  unfold reads
  rw [instruction?_eq_decoded, hd]
  rfl

/-- The first iteration of a run that goes on is among them, and the rest are those of the rest.
The chain of iterations is built by this equation. -/
private theorem readings_succ_of_turn (h : e.turn = (.running, t)) (n : Nat) :
    e.readings (n + 1) = e :: t.readings n := by
  unfold readings
  rw [starts_succ_of_turn h, List.filter_cons_of_pos (reads_of_running h)]

/-- An iteration that ends the run is among them if it gets past its lookups, and there are no
others. -/
private theorem readings_succ_of_turn_ended (h : e.turn.1 ≠ .running) (n : Nat) :
    e.readings (n + 1) = [e].filter reads := by
  unfold readings
  rw [starts_succ_of_turn_ended h]

/-- The log is collected from the iterations of the run, in their order. What holds of the entry of
one iteration is carried over to the log by it. -/
theorem log_eq_filterMap_starts : e.log n = (e.starts n).filterMap logged? := by
  induction n generalizing e with
  | zero => rfl
  | succ n ih =>
    unfold log starts
    cases e.turn with
    | mk o t =>
      cases o with
      | running =>
        simp only [ih, List.filterMap_cons]
        cases e.logged? <;> rfl
      | halted | failed f =>
        simp only [List.filterMap_cons, List.filterMap_nil]
        cases e.logged? <;> rfl

/-! ### What a line shows -/

/-- The line of an entry has its address and its opcode as eight hexadecimal digits each. -/
private theorem LogEntry.text_eq_lineText (x : LogEntry) :
    x.text
      = lineText x.address x.instr.opcode (described x.instr x.params) x.operands x.returns := by
  -- The mark in front of the digits belongs to the text before it.
  have hmark (s : String) (v : Int) : s ++ Numeral.hexWord v = s ++ "0x" ++ eightDigits v := by
    rw [Numeral.hexWord_eq_eightDigits, String.append_assoc]
  unfold LogEntry.text lineText
  rw [hmark, hmark, @String.append_assoc _ " OP: " "0x"]
  rfl

/-- The line of an entry is about the iteration that made it. -/
private theorem lineAbout_of_logged {x : LogEntry} (h : s.logged? = some x) :
    LineAbout s x.text := by
  rw [LogEntry.text_eq_lineText]
  unfold logged? at h
  split at h
  · rename_i i params hd
    obtain ⟨hw, hblock⟩ := decode_eq_ready_iff.mp hd
    cases h
    unfold described
    by_cases hi : i.arity = 0
    · rw [if_pos hi]
      exact .plain hw hi
    · have hone : i.arity = 1 := by cases i <;> simp_all [Instr.arity]
      rw [if_neg hi]
      rw [hone] at hblock
      obtain ⟨y, hy, rfl⟩ := block?_one hblock
      exact .withOperand hw hone hy
  · cases h

/-- The lines of the log are about the iterations that get past their lookups, one for each. The
pairing is by position, so no line is about two iterations, and none is missing. -/
theorem forall₂_lineAbout (l : List Engine) :
    List.Forall₂ LineAbout (l.filter reads)
      ((l.filterMap logged?).map LogEntry.text) := by
  induction l with
  | nil => exact .nil
  | cons s l ih =>
    cases hentry : s.logged? with
    | none =>
      have hfails : ¬ s.reads = true := by
        rw [reads_eq_isSome_logged?, hentry]
        exact Bool.false_ne_true
      rw [List.filter_cons_of_neg hfails, List.filterMap_cons, hentry]
      exact ih
    | some x =>
      have hreads : s.reads = true := by
        rw [reads_eq_isSome_logged?, hentry]
        rfl
      rw [List.filter_cons_of_pos hreads, List.filterMap_cons, hentry]
      exact .cons (lineAbout_of_logged hentry) ih

/-! ### From line to line -/

/-- An iteration is followed by the one that it leads to. This is the step of the chain, and it is
read off the ways to succeed. -/
private theorem follows_of_turn (h : e.turn = (.running, t)) : Follows e t := by
  obtain ⟨i, params, m, hd, _, _, heffect⟩ := turn_running h
  obtain ⟨hoperands, hreturns⟩ := depths_of_effected heffect
  exact ⟨i, (decode_eq_ready_iff.mp hd).1, hoperands, hreturns, pc_of_straight heffect⟩

/-- The first iteration of a run that gets past its lookups is the very first one: otherwise the
run has ended there. -/
private theorem eq_of_mem_head?_readings (h : s ∈ (e.readings n).head?) : s = e := by
  cases n with
  | zero => cases h
  | succ n =>
    by_cases hgoes : e.turn.1 = .running
    · have hturn := turn_of_outcome hgoes
      rw [readings_succ_of_turn hturn] at h
      exact (Option.some.inj h).symm
    · rw [readings_succ_of_turn_ended hgoes] at h
      exact List.mem_singleton.mp (List.mem_of_mem_filter (List.mem_of_mem_head? h))

/-- Each iteration of a run follows the one before. None is passed over in between, since an
iteration that does not get past its lookups ends the run. -/
theorem isChain_readings : (e.readings n).IsChain Follows := by
  induction n generalizing e with
  | zero => exact .nil
  | succ n ih =>
    by_cases hgoes : e.turn.1 = .running
    · have hturn := turn_of_outcome hgoes
      rw [readings_succ_of_turn hturn]
      refine List.isChain_cons.mpr ⟨fun s hs => ?_, ih⟩
      rw [eq_of_mem_head?_readings hs]
      exact follows_of_turn hturn
    · rw [readings_succ_of_turn_ended hgoes, List.filter_singleton]
      cases e.reads with
      | true => exact .singleton e
      | false => exact .nil

/-- The trace of a run is a transcript of it. What a watched engine tells its monitor in a run is
one line for each iteration that gets past its lookups, among them a stop and an instruction that
then fails, in their order, and nothing about an iteration that does not get so far. Each line
shows the words that its iteration read, and the depths of both stacks before the effect, and each
of these iterations follows the one before. -/
theorem trace_isTranscript (h : e.Watched) (n : Nat) : ∃ lines,
    (e.runFor n).2.monitor.lines.toList = e.monitor.lines.toList ++ lines ∧
      List.Forall₂ LineAbout (e.readings n) lines ∧ (e.readings n).IsChain Follows := by
  refine ⟨(e.log n).map LogEntry.text, (told_runFor h n).lines, ?_, isChain_readings⟩
  rw [log_eq_filterMap_starts]
  exact forall₂_lineAbout (e.starts n)

end

/-- The transcript of a call that writes a letter and comes back to a stop. -/
theorem trace_isTranscript_callLetter : (callLetter true).Watched ∧
    List.Forall₂ LineAbout ((callLetter true).readings 5)
      ["PC: 0x00000000 OP: 0x00000009 IN: CALL 3 SP: 0 RP: 0",
        "PC: 0x00000003 OP: 0x00000003 IN: PUSH 65 SP: 0 RP: 1",
        "PC: 0x00000005 OP: 0x00000002 IN: PRINT SP: 1 RP: 1",
        "PC: 0x00000006 OP: 0x0000000a IN: RET SP: 0 RP: 1",
        "PC: 0x00000002 OP: 0x00000000 IN: HALT SP: 0 RP: 0"] ∧
    ((callLetter true).readings 5).IsChain Follows := by
  have hwatched : (callLetter true).Watched := ⟨rfl, fun _ _ => rfl⟩
  obtain ⟨lines, htrace, habout, hchain⟩ := trace_isTranscript hwatched 5
  -- Nothing was traced before the run.
  change _ = [] ++ lines at htrace
  rw [List.nil_append] at htrace
  rw [← htrace] at habout
  have hlines : ((callLetter true).runFor 5).2.monitor.lines.toList =
      ["PC: 0x00000000 OP: 0x00000009 IN: CALL 3 SP: 0 RP: 0",
        "PC: 0x00000003 OP: 0x00000003 IN: PUSH 65 SP: 0 RP: 1",
        "PC: 0x00000005 OP: 0x00000002 IN: PRINT SP: 1 RP: 1",
        "PC: 0x00000006 OP: 0x0000000a IN: RET SP: 0 RP: 1",
        "PC: 0x00000002 OP: 0x00000000 IN: HALT SP: 0 RP: 0"] := by decide +kernel
  rw [hlines] at habout
  exact ⟨hwatched, habout, hchain⟩

end Engine

end StackMachine
