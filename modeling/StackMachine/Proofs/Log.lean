import StackMachine.Proofs.Contract
import StackMachine.Proofs.Tracing

/-!
# `StackMachine.Proofs.Log`: the log of a run

The log of a run has one entry for each iteration that reads all its words, whether or not its
instruction then succeeds, and none for an iteration that does not get so far. It is read off the
states of the run, watched or not. `told_runFor`: the trace of a watched engine is that log,
line by line. `log_of_watched`: watching does not change the log, so the trace of a watched
engine is the log of the unwatched one.

- `LogEntry` is what the log says about an instruction, and `LogEntry.text` how a line shows it.
- `logged?` is the entry of an iteration, and `log` collects them.
- `told_turn` is the step of `told_runFor`: an instruction is announced before its effect, and no
  effect touches the monitor.
- `untraced_runFor`: an engine that does not trace tells its monitor nothing.
-/

set_option autoImplicit false

namespace StackMachine

/-- What the log says about an instruction: where it stands, what it is, and how many items both
stacks hold before it takes effect. -/
structure LogEntry where
  address : Int
  instr : Instr
  params : List Int
  operands : Nat
  returns : Nat
  deriving DecidableEq, Repr

/-- The line that shows an entry. -/
def LogEntry.text (x : LogEntry) : String :=
  "PC: " ++ Numeral.hexWord x.address ++ " OP: " ++ Numeral.hexWord x.instr.opcode ++
    " IN: " ++ Engine.described x.instr x.params ++ " SP: " ++ Numeral.decimal x.operands ++
    " RP: " ++ Numeral.decimal x.returns

namespace Engine

/-- The entry about the next iteration, if it reads all its words. -/
def logged? (e : Engine) : Option LogEntry :=
  match e.decoded with
  | .ready i params => some ⟨e.pc, i, params, e.operands.depth, e.returns.depth⟩
  | _ => none

/-- The log of the first `n` iterations of a run. -/
def log : Nat → Engine → List LogEntry
  | 0, _ => []
  | n + 1, e =>
    match e.turn with
    | (.running, t) => e.logged?.toList ++ log n t
    | _ => e.logged?.toList

/-! ### Watching and the log -/

/-- Equal engines make the same entry, whoever watches them. An entry is made of what was decoded
and of the depths of the stacks. -/
private theorem logged?_of_watched {s t : Engine} (h : EqualButWatched s t) :
    s.logged? = t.logged? := by
  unfold logged?
  rw [h.decoded, h.pc, h.operands, h.returns]

/-- Two engines that differ in their watching alone run alike and have one log. This is what makes
the log of an unwatched engine say something about a watched one. -/
theorem log_of_watched {s t : Engine} (h : EqualButWatched s t) (hs : s.TracesFreely)
    (ht : t.TracesFreely) (n : Nat) : s.log n = t.log n ∧ (s.runFor n).1 = (t.runFor n).1 ∧
      EqualButWatched (s.runFor n).2 (t.runFor n).2 := by
  induction n generalizing s t with
  | zero => exact ⟨rfl, rfl, h⟩
  | succ n ih =>
    have hentry := logged?_of_watched h
    have hturn := turn_of_watched h hs ht
    unfold log runFor
    rw [hentry]
    generalize s.turn = x at hturn ⊢
    generalize t.turn = y at hturn ⊢
    obtain ⟨o, s'⟩ := x
    obtain ⟨o', t'⟩ := y
    obtain ⟨ho, hequal, hsfree, htfree⟩ := hturn
    cases ho
    cases o with
    | running =>
      obtain ⟨hlog, hrest⟩ := ih hequal hsfree htfree
      exact ⟨by simp only [hlog], hrest⟩
    | halted => exact ⟨rfl, rfl, hequal⟩
    | failed f => exact ⟨rfl, rfl, hequal⟩

/-! ### The trace -/

section

variable {e : Engine}

/-- Being watched for good: the monitor is told of everything and takes every line. -/
structure Watched (e : Engine) : Prop where
  tracing : e.tracing = true
  total : e.monitor.lines.Total

/-- No line of such an engine is refused. -/
theorem Watched.tracesFreely (h : e.Watched) : e.TracesFreely := fun _ => h.total

/-- The announcement of an instruction is one line more, and the next one will be taken as well. So
a watched engine stays watched. -/
private theorem Watched.announce (h : e.Watched) {i : Instr} (hi : i.arity ≤ e.params.length) :
    ∃ m : Monitor, announce i e = .ok () { e with monitor := m } ∧ m.lines.Total ∧
      m.live = e.monitor.live ∧
      m.lines.toList = e.monitor.lines.toList ++ [e.line (described i e.params)] := by
  obtain ⟨lines, hwrite, htotal⟩ :=
    Sink.write_of_total h.total (e.line (described i e.params))
  refine ⟨{ e.monitor with lines }, ?_, htotal, rfl, Sink.toList_write hwrite⟩
  rw [announce_of_tracing h.tracing hi, trace_of_some hwrite]

/-- No effect touches the monitor, or whether the engine is watched. Only announcements do, and
they come before the effect. -/
private theorem contract_monitor (m : Monitor) (b : Bool) :
    Contract (fun s => s.monitor = m ∧ s.tracing = b) Any Any Any where
  push _ _ := keeps_push trivial fun _ _ h _ => h
  pop := keeps_pop trivial fun _ _ _ h _ => ⟨trivial, h⟩
  pushReturn _ _ := keeps_pushReturn trivial fun _ _ h _ => h
  popReturn := keeps_popReturn trivial fun _ _ _ h _ => ⟨trivial, h⟩
  emit _ := keeps_emit (fun _ _ _ => trivial) fun _ _ h _ => h
  jump _ := keeps_jump trivial fun _ h _ _ => h
  operand _ h hne := sound_operand h hne fun _ _ => trivial
  add _ _ _ _ := trivial

/-- An engine that does not trace leaves its monitor alone, and does not begin to trace. Whether to
trace is decided before the run, and no instruction changes it. -/
theorem untraced_runFor (h : e.tracing = false) (n : Nat) :
    (e.runFor n).2.monitor = e.monitor ∧ (e.runFor n).2.tracing = false := by
  refine ((contract_monitor e.monitor false).runFor (fun _ hs _ => hs) (fun s i hs _ => ?_)
    (fun _ _ _ _ => trivial) (fun _ => trivial) ⟨rfl, h⟩ n).state
  rw [announce_of_not_tracing hs.2]
  exact .ok trivial hs

/-- A watched engine has told its monitor these lines, and the monitor's flag is this one. -/
structure Told (live : Bool) (lines : List String) (e : Engine) : Prop extends Watched e where
  live : e.monitor.live = live
  lines : e.monitor.lines.toList = lines

/-- Before a run, the monitor has been told what it was told. -/
private theorem Watched.told (h : e.Watched) : Told e.monitor.live e.monitor.lines.toList e :=
  ⟨h, rfl, rfl⟩

/-- The registers have no part in it. -/
private theorem Told.assign {live : Bool} {lines : List String} (h : Told live lines e)
    (r : Registers) :
    Told live lines (e.assign r) :=
  ⟨⟨h.tracing, h.total⟩, h.live, h.lines⟩

/-- Nor has a fault, which touches the phase at most. -/
private theorem Told.faulted {live : Bool} {lines : List String} (h : Told live lines e)
    (f : Fault) :
    Told live lines (e.faulted f) := by
  unfold Engine.faulted
  split
  · exact h.assign { e.registers with phase := .errored }
  · exact h

/-- Once an instruction is announced, the rest of its turn tells nothing. So there is one line for
each iteration at most. -/
private theorem told_concluded {m : Monitor} {r : EStateM.Result Fault Engine Unit}
    (htotal : m.lines.Total)
    (h : Sound (fun s => s.monitor = m ∧ s.tracing = true) Any Any r) (o : Outcome) :
    Told m.live m.lines.toList (concluded o r).2 := by
  have htold (s : Engine) (hs : s.monitor = m ∧ s.tracing = true) :
      Told m.live m.lines.toList s := by
    obtain ⟨rfl, htracing⟩ := hs
    exact ⟨⟨htracing, htotal⟩, rfl, rfl⟩
  cases h with
  | @ok _ s _ hs => exact htold s hs
  | @error f s _ hs => exact (htold s hs).faulted f

/-- An iteration tells the entry that it makes in the log, and nothing else. If the words cannot
all be read, there is no entry, and nothing is told. -/
theorem told_turn (h : e.Watched) : Told e.monitor.live
    (e.monitor.lines.toList ++ e.logged?.toList.map LogEntry.text) e.turn.2 := by
  -- An iteration that does not read all its words makes no entry, and announces nothing.
  have hnothing (hnone : e.logged? = none) :
      e.monitor.lines.toList ++ e.logged?.toList.map LogEntry.text = e.monitor.lines.toList := by
    rw [hnone]
    exact List.append_nil _
  cases hd : e.decoded with
  | outside =>
    rw [turn_of_outside hd, hnothing (by simp only [logged?, hd])]
    exact (h.told.assign ⟨e.stranded e.pc, e.pc, e.opcode, e.params, .fetching⟩).faulted _
  | unknown w =>
    rw [turn_of_unknown hd, hnothing (by simp only [logged?, hd])]
    exact h.told.assign ⟨e.pc + 1, e.pc, w, e.params, .errored⟩
  | cut i =>
    rw [turn_of_cut hd, hnothing (by simp only [logged?, hd])]
    exact (h.told.assign ⟨e.stranded (e.pc + 1), e.pc, i.opcode, e.params, .fetching⟩).faulted _
  | ready i params =>
    have hentry : e.logged? = some ⟨e.pc, i, params, e.operands.depth, e.returns.depth⟩ := by
      simp only [logged?, hd]
    rw [hentry]
    by_cases hi : i = .halt
    · subst hi
      have hopened : (e.opened Instr.halt.opcode).Watched := ⟨h.tracing, h.total⟩
      obtain ⟨m, hm, htotal, hlive, hlines⟩ := hopened.announce (i := .halt) (Nat.zero_le _)
      rw [turn_of_halt hd, bind_of_ok hm]
      exact ⟨⟨h.tracing, htotal⟩, hlive, hlines⟩
    · have hloaded : (e.loaded i params).Watched := ⟨h.tracing, h.total⟩
      obtain ⟨m, hm, htotal, hlive, hlines⟩ := hloaded.announce (arity_le_of_ready hd)
      have heffect := (contract_monitor m true).effect (i := i)
        (s := { e.loaded i params with monitor := m }) ⟨rfl, h.tracing⟩ (arity_le_of_ready hd)
        fun _ => trivial
      rw [turn_of_ready hd hi, bind_of_ok hm]
      have htold := told_concluded htotal (heffect.imp fun _ hs => hs.1) .running
      rwa [hlines, hlive] at htold

/-- The trace of a watched engine is the log of its run, line by line, behind what was there
before. This reduces claims about traces to claims about logs. -/
theorem told_runFor (h : e.Watched) (n : Nat) : Told e.monitor.live
    (e.monitor.lines.toList ++ (e.log n).map LogEntry.text) (e.runFor n).2 := by
  induction n generalizing e with
  | zero =>
    show Told _ (_ ++ []) e
    rw [List.append_nil]
    exact h.told
  | succ n ih =>
    have hturn := told_turn h
    unfold log runFor
    generalize e.turn = x at hturn ⊢
    obtain ⟨o, t⟩ := x
    cases o with
    | running =>
      have hrest := ih hturn.toWatched
      rw [hturn.live, hturn.lines, List.append_assoc, ← List.map_append] at hrest
      exact hrest
    | halted => exact hturn
    | failed f => exact hturn

end

end Engine

end StackMachine
