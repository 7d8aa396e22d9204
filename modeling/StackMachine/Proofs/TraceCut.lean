import StackMachine.Proofs.Failure
import StackMachine.Proofs.Rationing
import StackMachine.Proofs.Transcript

/-!
# `StackMachine.Proofs.TraceCut`: a trace that fills its stream

The stream of a trace may be full before the run is over, and a line that it does not take ends
the run. `runFor_of_limited_lines` says where: exactly between two instructions. A run whose trace
has at most `k` lines does not notice that its stream takes no more than `k`. Any other run
completes `k` iterations and is then stopped in the next one, when that has read its words and has
not yet touched a stack or the output.

- `LineRationed` relates an engine to one whose stream is limited, and `coupling_lineRationed`
  shows that nothing but a refused line tells them apart.
- `length_log_of_running`: each completed iteration has its line.
- `Announcing s r`: an iteration that begins in `s` has the registers `r` when its line is due.
-/

set_option autoImplicit false

namespace StackMachine.Engine

/-! ### Two streams -/

/-- The engine with a ration of `k` lines for its trace. -/
def lineRationed (k : Nat) (e : Engine) : Engine :=
  { e with monitor := { e.monitor with lines := e.monitor.lines.rationed k } }

/-- The engine `s` is `t` with a ration of `k` lines, which is not exceeded so far. -/
structure LineRationed (k : Nat) (s t : Engine) : Prop where
  rationed : s = t.lineRationed k
  within : t.monitor.lines.Within k

section

variable {k : Nat} {s t : Engine}

/-- The ration has no part in the stacks. -/
private theorem sameStacks_lineRationed : SameStacks (LineRationed k) where
  operands h := by rw [h.rationed]; rfl
  returns h := by rw [h.rationed]; rfl
  setOperands h _ := ⟨by rw [h.rationed]; rfl, h.within⟩
  setReturns h _ := ⟨by rw [h.rationed]; rfl, h.within⟩

/-- Both write the same line, unless the ration is used up. -/
private theorem matches_trace_of_lineRationed (h : LineRationed k s t) (text : String) :
    Matches (LineRationed k) (· = .traceRefused) (trace text s) (trace text t) := by
  obtain ⟨rfl, hwithin⟩ := h
  rcases Sink.write_rationed hwithin (t.line text) with
    ⟨lines, hwrite, hrationed, hwithin'⟩ | ⟨hrefused, _⟩
  · rw [trace_of_some hwrite, trace_of_some (e := t.lineRationed k) hrationed]
    exact .ok ⟨rfl, hwithin'⟩
  · rw [trace_of_none (e := t.lineRationed k) hrefused]
    exact .escape rfl

/-- Nothing but a refused line tells the two engines apart: apart from the ration, the monitor with
the limit has the same lines. -/
theorem coupling_lineRationed : Coupling (LineRationed k) (· = .traceRefused) where
  registers h := by rw [h.rationed]; rfl
  assign h _ := ⟨by rw [h.rationed]; rfl, h.within⟩
  push := sameStacks_lineRationed.push
  pop := sameStacks_lineRationed.pop
  pushReturn := sameStacks_lineRationed.pushReturn
  popReturn := sameStacks_lineRationed.popReturn
  emit := coupled_emit (fun _ _ h => by rw [h.rationed]; rfl)
    fun _ _ h _ => ⟨by rw [h.rationed]; rfl, h.within⟩
  jump := coupled_jump (fun _ _ h => by rw [h.rationed]; rfl)
    fun _ _ h _ => ⟨by rw [h.rationed]; rfl, h.within⟩
  announce _ h hi := matches_announce h hi (by rw [h.rationed]; rfl) (by rw [h.rationed]; rfl)
    (matches_trace_of_lineRationed h)

end

/-! ### Lines and iterations -/

section

variable {e s t u : Engine} {m n : Nat}

/-- An iteration that goes on has made its entry in the log, since it has read all its words. So
the log of a run that goes on has one entry for each iteration. -/
theorem length_log_of_running (h : e.runFor n = (.running, s)) : (e.log n).length = n := by
  induction n generalizing e with
  | zero => rfl
  | succ n ih =>
    unfold runFor at h
    split at h
    · rename_i t hturn
      have hentry : e.logged?.isSome = true := by
        rw [← reads_eq_isSome_logged?]
        exact reads_of_running hturn
      obtain ⟨x, hx⟩ := Option.isSome_iff_exists.mp hentry
      unfold log
      rw [hturn]
      simp only [hx, Option.toList_some, List.singleton_append, List.length_cons, ih h]
    · rename_i hgoes
      exact absurd h (hgoes s)

/-- The log only grows. -/
private theorem log_mono (h : m ≤ n) : e.log m <+: e.log n := by
  rw [log_eq_filterMap_starts, log_eq_filterMap_starts]
  exact (starts_mono h).filterMap logged?

/-- What the registers are when the line of an iteration is due that began in `s`. A stop is
announced before its operands would be loaded, so those of the instruction before are still
there. -/
inductive Announcing (s : Engine) : Registers → Prop
  | halt {params : List Int} (h : s.instruction? = some (.halt, params)) :
      Announcing s ⟨s.pc + 1, s.pc, Instr.halt.opcode, s.params, .fetching⟩
  | other {i : Instr} {params : List Int} (h : s.instruction? = some (i, params))
      (hi : i ≠ .halt) :
      Announcing s ⟨s.pc + 1 + i.arity, s.pc, i.opcode, params, .executing⟩

/-- The engine `t` is `s` in the middle of an iteration: its words have been read, and nothing has
been done about them. -/
structure Announces (s t : Engine) : Prop where
  program : t.program = s.program
  size : t.size = s.size
  operands : t.operands = s.operands
  returns : t.returns = s.returns
  output : t.output = s.output
  registers : Announcing s t.registers

/-- An iteration whose line is refused is left there: the registers are assigned, and neither a
stack nor the output nor the monitor is touched. -/
theorem announces_of_refused (h : s.turn = (.failed .traceRefused, u)) :
    Announces s u ∧ u.monitor = s.monitor ∧ s.logged?.isSome = true ∧
      ∃ text, s.monitor.lines.write text = none := by
  have hentry {i : Instr} {params : List Int} (hd : s.decoded = .ready i params) :
      s.logged?.isSome = true := by
    unfold logged?
    rw [hd]
    rfl
  generalize hrefused : Fault.traceRefused = f at h
  cases failure_of_turn h with
  | haltLine hd hline =>
    have hregisters := Announcing.halt (instruction?_eq_some_iff.mpr hd)
    exact ⟨⟨rfl, rfl, rfl, rfl, rfl, hregisters⟩, rfl, hentry hd, _, hline⟩
  | line hd hi hline =>
    have hregisters := Announcing.other (instruction?_eq_some_iff.mpr hd) hi
    exact ⟨⟨rfl, rfl, rfl, rfl, rfl, hregisters⟩, rfl, hentry hd, _, hline⟩
  | outside _ | cut _ => exact absurd hrefused.symm (absence_ne_refused _ _).2
  | unknown _ => cases hrefused
  | thwarted _ _ hf =>
    subst hrefused
    cases hf

/-- It is left there as much in an engine that is watched in another way. The state before the
refused line can be described without the ration therefore. -/
private theorem Announces.of_watched (h : Announces s u) (heq : EqualButWatched s t) :
    Announces t u := by
  have hread : s.instruction? = t.instruction? := by
    rw [instruction?_eq_decoded, instruction?_eq_decoded, heq.decoded]
  have hregisters : Announcing t u.registers := by
    have hannouncing := h.registers
    generalize u.registers = r at hannouncing ⊢
    cases hannouncing with
    | halt hi =>
      rw [heq.pc, heq.params]
      exact .halt (hread ▸ hi)
    | other hi hne =>
      rw [heq.pc]
      exact .other (hread ▸ hi) hne
  exact ⟨h.program.trans heq.program, h.size.trans heq.size, h.operands.trans heq.operands,
    h.returns.trans heq.returns, h.output.trans heq.output, hregisters⟩

end

/-! ### Limited traces -/

/-- The engine, watched from now on by a monitor that writes to these lines. -/
def tracedTo (lines : Sink String) (e : Engine) : Engine :=
  { e with monitor := ⟨true, lines⟩, tracing := true }

/-- The engine without tracing. -/
def untraced (e : Engine) : Engine := { e with tracing := false }

/-- The trace of `n` iterations in a stream that takes every line. -/
def traceOf (e : Engine) (n : Nat) : List String :=
  ((e.tracedTo .unlimited).runFor n).2.monitor.lines.toList

section

variable {e s t : Engine} {k m n : Nat}

/-- With a stream that takes everything, the engine is watched for good. -/
private theorem watched_tracedTo (e : Engine) :
    (e.tracedTo .unlimited).Watched := ⟨rfl, fun _ _ => rfl⟩

/-- However it is traced, it is the untraced engine but for the watching. -/
private theorem equalButWatched_tracedTo (lines : Sink String) (e : Engine) :
    EqualButWatched (e.tracedTo lines) e.untraced :=
  ⟨rfl, rfl, rfl, rfl, rfl, rfl⟩

/-- The two streams of the result differ by a ration, of which nothing is used at first. -/
private theorem lineRationed_tracedTo (k : Nat) (e : Engine) :
    LineRationed k (e.tracedTo (.limited k)) (e.tracedTo .unlimited) :=
  ⟨rfl, Sink.within_unlimited k⟩

/-- The trace is the log of the engine that traces to a stream without end. So lines can be counted
by entries of the log. -/
private theorem traceOf_eq_log :
    e.traceOf n = ((e.tracedTo .unlimited).log n).map LogEntry.text := by
  have hlines := (told_runFor (watched_tracedTo e) n).lines
  -- The stream is empty at first.
  change _ = [] ++ _ at hlines
  rwa [List.nil_append] at hlines

/-- A longer run has a trace that begins like that of a shorter one. -/
private theorem traceOf_mono (h : m ≤ n) : e.traceOf m <+: e.traceOf n := by
  rw [traceOf_eq_log, traceOf_eq_log]
  exact (log_mono h).map LogEntry.text

/-- As long as the run goes on, there are as many lines as iterations. -/
private theorem length_traceOf_of_running (h : (e.tracedTo .unlimited).runFor m = (.running, t)) :
    (e.traceOf m).length = m := by
  rw [traceOf_eq_log, List.length_map, length_log_of_running h]

/-- The line of the next iteration is one more. It is the one that the limit refuses, if the limit
is the number of lines before. -/
private theorem lt_length_traceOf (h : (e.tracedTo .unlimited).runFor m = (.running, t))
    (hentry : t.logged?.isSome = true) (hm : m < n) : m < (e.traceOf n).length := by
  obtain ⟨x, hx⟩ := Option.isSome_iff_exists.mp hentry
  have hlog : (e.tracedTo .unlimited).log (m + 1) = (e.tracedTo .unlimited).log m ++ [x] := by
    rw [log_eq_filterMap_starts, starts_succ_of_running h, List.filterMap_append,
      ← log_eq_filterMap_starts, List.filterMap_cons, hx, List.filterMap_nil]
  have hlength : (e.traceOf (m + 1)).length = m + 1 := by
    rw [traceOf_eq_log, List.length_map, hlog, List.length_append, length_log_of_running h,
      List.length_singleton]
  have hle : (e.traceOf (m + 1)).length ≤ (e.traceOf n).length := (traceOf_mono hm).length_le
  omega

/-- Where the run with a limited stream leaves the other behind: in the iteration for which the
ration is used up. Lines and iterations are counted alike, so that is iteration `k + 1`. -/
theorem cut_of_parted {u : Engine} (hm : m < n)
    (hs : (e.tracedTo (.limited k)).runFor m = (.running, s))
    (ht : (e.tracedTo .unlimited).runFor m = (.running, t)) (hst : LineRationed k s t)
    (hturn : s.turn = (.failed .traceRefused, u)) :
    m = k ∧ k < (e.traceOf n).length ∧ u.monitor.lines.toList = (e.traceOf n).take k ∧
      ∃ v, e.untraced.runFor k = (.running, v) ∧ Announces v u := by
  obtain ⟨hannounces, hmonitor, hentry, text, hrefused⟩ := announces_of_refused hturn
  obtain ⟨rfl, hwithin⟩ := hst
  -- The stream is full, and it has one line for each iteration.
  have hfull : t.monitor.lines.toList.length = k := Sink.length_of_refused hwithin hrefused
  have htrace : e.traceOf m = t.monitor.lines.toList := by
    unfold traceOf
    rw [ht]
  have hmk : m = k := by
    rw [← length_traceOf_of_running ht, htrace, hfull]
  subst hmk
  have hprefix := List.prefix_iff_eq_take.mp (traceOf_mono (e := e) (Nat.le_of_lt hm))
  rw [length_traceOf_of_running ht, htrace] at hprefix
  obtain ⟨houtcome, hequal⟩ := runFor_eq_of_watched (equalButWatched_tracedTo .unlimited e)
    (watched_tracedTo e).tracesFreely nofun m
  rw [ht] at houtcome hequal
  -- A ration of lines does not show without the monitor.
  have hshown : EqualButWatched (t.lineRationed m) (e.untraced.runFor m).2 :=
    { hequal with }
  refine ⟨rfl, lt_length_traceOf ht hentry hm, ?_, _, runFor_of_outcome houtcome.symm,
    hannounces.of_watched hshown⟩
  rw [hmonitor, ← hprefix]
  rfl

end

/-- A full stream cuts a run off exactly between two instructions. Let an engine be watched from
some state on, by a monitor that takes `k` lines and refuses the next. If there are at most `k`
lines about the next `n` iterations, the run is the same as with a monitor that takes everything:
in its outcome, in the trace, and in every other field. Otherwise the line of iteration `k + 1` is
refused, and this ends the run. The trace has the first `k` lines. Both stacks, with all their
slots, and the output are those of the engine that does not trace, after exactly `k` completed
iterations. The registers belong to iteration `k + 1` already: its opcode has been read with its
operands, which are loaded unless it is a stop. -/
theorem runFor_of_limited_lines (e : Engine) (k n : Nat) :
    ((e.traceOf n).length ≤ k →
      (e.tracedTo (.limited k)).runFor n = (((e.tracedTo .unlimited).runFor n).1,
        lineRationed k ((e.tracedTo .unlimited).runFor n).2)) ∧
    (k < (e.traceOf n).length → ∃ s t, e.untraced.runFor k = (.running, s) ∧
      (e.tracedTo (.limited k)).runFor (k + 1) = (.failed .traceRefused, t) ∧
      (e.tracedTo (.limited k)).runFor n = (.failed .traceRefused, t) ∧
      t.monitor.lines.toList = (e.traceOf n).take k ∧ Announces s t) := by
  have hprogram (s t : Engine) (h : LineRationed k s t) : s.program = t.program := by
    rw [h.rationed]
    rfl
  have hsize (s t : Engine) (h : LineRationed k s t) : s.size = t.size := by
    rw [h.rationed]
    rfl
  rcases coupling_lineRationed.together_or_parted hprogram hsize (lineRationed_tracedTo k e) n with
    ⟨o, s, t, hs, ht, hst⟩ | ⟨m, s, t, f, u, hm, hs, ht, hst, hturn, rfl⟩
  · have htrace : e.traceOf n = t.monitor.lines.toList := by
      unfold traceOf
      rw [ht]
    refine ⟨fun _ => by rw [hs, ht, hst.rationed], fun hlong => ?_⟩
    have hle := hst.within.le
    rw [htrace] at hlong
    omega
  · obtain ⟨rfl, hlong, htake, v, hv, hannounces⟩ := cut_of_parted hm hs ht hst hturn
    have hended : (e.tracedTo (.limited m)).runFor (m + 1) = (.failed .traceRefused, u) := by
      rw [runFor_succ_of_running hs, hturn]
    have hlater : (e.tracedTo (.limited m)).runFor n = (.failed .traceRefused, u) :=
      runFor_of_ended_of_le hended nofun hm
    exact ⟨fun hshort => by omega, fun _ => ⟨v, u, hv, hended, hlater, htake, hannounces⟩⟩

/-- A call that writes a letter, traced to a stream that takes two lines. It is cut off before the
letter is written: the letter is on the stack, and the registers show the instruction that would
write it. -/
theorem runFor_of_limited_lines_callLetter : ∃ s t,
    (callLetter true).untraced.runFor 2 = (.running, s) ∧
      ((callLetter true).tracedTo (.limited 2)).runFor 5 = (.failed .traceRefused, t) ∧
      t.monitor.lines.toList = ["PC: 0x00000000 OP: 0x00000009 IN: CALL 3 SP: 0 RP: 0",
        "PC: 0x00000003 OP: 0x00000003 IN: PUSH 65 SP: 0 RP: 1"] ∧
      Announces s t ∧ s.operands.toList = [65] ∧ t.registers = ⟨6, 5, 2, [], .executing⟩ := by
  have hlong : 2 < ((callLetter true).traceOf 5).length := by decide +kernel
  have hlines : ((callLetter true).traceOf 5).take 2 =
      ["PC: 0x00000000 OP: 0x00000009 IN: CALL 3 SP: 0 RP: 0",
        "PC: 0x00000003 OP: 0x00000003 IN: PUSH 65 SP: 0 RP: 1"] := by decide +kernel
  obtain ⟨s, t, hs, _, ht, htrace, hannounces⟩ :=
    (runFor_of_limited_lines (callLetter true) 2 5).2 hlong
  have hletter : ((callLetter true).untraced.runFor 2).2.operands.toList = [65] := by
    decide +kernel
  have hregisters : (((callLetter true).tracedTo (.limited 2)).runFor 5).2.registers =
      ⟨6, 5, 2, [], .executing⟩ := by decide +kernel
  rw [hs] at hletter
  rw [ht] at hregisters
  rw [hlines] at htrace
  exact ⟨s, t, hs, ht, htrace, hannounces, hletter, hregisters⟩

end StackMachine.Engine
