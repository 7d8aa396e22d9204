import StackMachine.Launch
import StackMachine.Proofs.Endings
import StackMachine.Proofs.Log
import StackMachine.Proofs.Reference
import StackMachine.Proofs.RoundTrip

/-!
# `StackMachine.Proofs.Launches`: a launch is decoding and one run

A launch goes through many hands: the settings make an engine, the file is found, read and
decoded, its words are loaded, and what becomes of the run is put into a status and two texts.
`launchFor_of_file`: none of them adds anything. What a launch of a file reports is the `verdict`
on the run of a fresh engine that was given the words of the file.

- `build_of_room`: the engine of a launch has the capacities of the settings, whatever they are, if
  memory has room for them. How much room there is belongs to the host, so it is a parameter.
- `load_of_ne_nil`: only an empty program is refused, and no file decodes to one. So a launch that
  has decoded its file never fails while loading.
- `isClassified_of_unobstructed`: as the sinks of a launch take everything, a run fails only for
  causes of the taxonomy.
-/

set_option autoImplicit false

namespace StackMachine

/-- The number of slots that a setting asks for. -/
def CapacitySetting.count? : CapacitySetting → Option Int
  | .standard => some Engine.defaultCapacity
  | .slots n => some n
  | .blank => none

namespace Engine

/-- Only an empty program is refused. The program does not depend on the engine, so two engines can
be given the same one. -/
private theorem load_of_ne_nil {vs : List Int} (h : vs ≠ []) :
    ∃ p, ∀ e : Engine, load vs e = .ok () (e.withProgram p) := by
  obtain ⟨p, hp⟩ := Program.exists_ofInts h
  exact ⟨p, load_of_ofInts hp⟩

/-- Loading wraps the integers, so that they may as well be wrapped before, as they are when they
come from a file. -/
private theorem load_map_wrap (vs : List Int) : load (vs.map Word.wrap) = load vs := by
  unfold load
  rw [Program.ofInts_map_wrap]

/-- Without refusals by a sink, a run of a sized engine fails only for causes of the taxonomy. For
these a launch has a status and a message. -/
theorem isClassified_of_unobstructed {e s : Engine} {f : Fault} {n : Nat} (hsized : e.Sized)
    (h : e.Unobstructed) (hrun : e.runFor n = (.failed f, s)) : f.isClassified = true := by
  have hrefusal : ¬ f.IsRefusal := fun hf =>
    not_isRefusal_of_unobstructed h n ⟨f, by rw [hrun], hf⟩
  cases ending_of_ended hsized hrun nofun with
  | errored hkind _ _ => rw [Fault.isClassified, hkind]; rfl
  | character _ _ => exact absurd (.inl rfl) hrefusal
  | haltLine _ _ _ | line _ _ _ _ => exact absurd (.inr rfl) hrefusal

end Engine

namespace Launch

/-- A fresh engine with two capacities, whose output takes everything and which nobody watches. -/
def fresh (operandCapacity returnCapacity : Int) (memory : Memory) : Except Fault Engine :=
  Engine.new Sink.unlimited ⟨false, Sink.unlimited⟩ operandCapacity returnCapacity memory

/-- What is to be reported about a run, or `none` while it goes on. -/
def verdict : Outcome × Engine → Option Report
  | (.running, _) => none
  | (.halted, e) => some ⟨.ok 0, banner ++ String.ofList e.output.toList, ""⟩
  | (.failed f, e) => some ⟨.ok 1, banner ++ String.ofList e.output.toList,
      "error running program: " ++ f.message ++ "\n"⟩

/-- A launch that is cut off after any number of iterations reports the verdict on the run of `e`,
which fails only for causes of the taxonomy. -/
def ReportsRunOf (launch : Nat → Option Report) (e : Engine) : Prop :=
  ∀ n, launch n = verdict (e.runFor n) ∧
    ∀ f s, e.runFor n = (.failed f, s) → f.isClassified = true

section

variable {read : String → Except FileError (List UInt8)} {settings : Settings} {memory : Memory}
  {k l : Nat}

/-! ### Before the run -/

/-- A setting gives a stack with as many slots as it asks for, if memory has room for them. -/
private theorem stackOf_of_room {c : CapacitySetting} (h : c.count? = some (k : Int))
    (hroom : memory.hasRoom k) : stackOf memory c = .ok (Stack.empty k) := by
  have hmade : (Stack.ofCapacity k memory).mapError Misuse.badCapacity = .ok (Stack.empty k) := by
    rw [Stack.ofCapacity_of_hasRoom hroom]
    rfl
  cases c with
  | standard | slots n =>
    rw [← hmade, ← Option.some.inj h]
    rfl
  | blank => cases h

/-- The engine of a launch has stacks with as many slots as the settings ask for. It is watched if
the launch is debugged, and this is all that the flag does here. -/
theorem build_of_room {c r : CapacitySetting} (hc : c.count? = some (k : Int))
    (hr : r.count? = some (l : Int)) (hkroom : memory.hasRoom k) (hlroom : memory.hasRoom l)
    (debug : Bool) :
    build c r debug memory = .ok (Engine.ofStacks Sink.unlimited ⟨debug, Sink.unlimited⟩
      (Stack.empty k) (Stack.empty l)) := by
  unfold build
  rw [stackOf_of_room hc hkroom, stackOf_of_room hr hlroom]
  rfl

/-- A launch whose engine cannot be built ends there, before anything is read. So a bad capacity is
reported even where the file is missing too. -/
theorem prepare_of_build_error {m : Misuse}
    (h : build settings.stackSize settings.returnStackSize settings.debug memory = .error m) :
    prepare read settings.entries memory = misused m := by
  simp only [prepare, Settings.entries, h]

/-- Once the engine is built and the file is read, what remains is to load the file. Launches are
compared from there on, so neither the settings nor the files matter to the run. -/
theorem prepare_of_read {e : Engine} {bytes : List UInt8}
    (h : build settings.stackSize settings.returnStackSize settings.debug memory = .ok e)
    (hread : read settings.filename = .ok bytes) :
    prepare read settings.entries memory = loadBytes e bytes := by
  simp only [prepare, Settings.entries, h, hread]

/-- A file that decodes is loaded, by whatever engine. Nothing of the engine but its program
changes, and the size that is noted for it. -/
theorem loadBytes_of_decode {bytes : List UInt8} {ws : List Int}
    (h : Encoding.decode bytes = .ok ws) :
    ∃ p, ∀ e : Engine, Engine.load ws e = .ok () (e.withProgram p) ∧
      loadBytes e bytes = .ready (e.withProgram p) := by
  have hne : ws ≠ [] := by
    obtain ⟨hne, hwhole, rfl⟩ := Encoding.whole_of_decode h
    have hlength := Encoding.length_decodeWords hwhole
    exact List.ne_nil_of_length_pos (by omega)
  obtain ⟨p, hload⟩ := Engine.load_of_ne_nil hne
  exact ⟨p, fun e => ⟨hload e, by simp only [loadBytes, h, hload]⟩⟩

/-- A file that does not decode ends the launch with status one and a line that says why. The
banner has been written by then. -/
theorem loadBytes_of_decode_error {bytes : List UInt8} {f : Fault}
    (h : Encoding.decode bytes = .error f) (e : Engine) :
    loadBytes e bytes = .ended ⟨.ok 1, banner, failure "error reading program" f.message⟩ := by
  simp only [loadBytes, h]
  rfl

/-! ### After the run -/

/-- A sized engine that nobody watches, and that has room for all that it may write. -/
structure Plain (e : Engine) : Prop where
  sized : e.Sized
  tracing : e.tracing = false
  monitor : e.monitor = ⟨false, Sink.unlimited⟩
  output : e.output = Sink.unlimited

/-- Neither sink of such an engine ever refuses: one takes everything, and the other is never
written to. -/
theorem Plain.unobstructed {e : Engine} (h : Plain e) : e.Unobstructed := by
  refine ⟨?_, ?_⟩
  · rw [h.output]
    exact fun _ _ => rfl
  · intro htracing
    rw [h.tracing] at htracing
    cases htracing

/-- The report on the run of such an engine is the verdict: its monitor has nothing to add, so the
outcome and the output are all that is left to tell. -/
theorem report_of_plain {e s : Engine} {o : Outcome} {n : Nat} (h : Plain e)
    (hrun : e.runFor n = (o, s)) (ho : o ≠ .running) : verdict (o, s) = some (report o s) := by
  have hmonitor : s.monitor = ⟨false, Sink.unlimited⟩ := by
    have hkept := (Engine.untraced_runFor h.tracing n).1
    rw [hrun, h.monitor] at hkept
    exact hkept
  have hlines : traceText s.monitor.lines.toList = "" := by rw [hmonitor]; rfl
  cases o with
  | running => exact absurd rfl ho
  | halted =>
    unfold report
    rw [hlines]
    rfl
  | failed f =>
    have hcomplaint : complaint s f = "error running program: " ++ f.message ++ "\n" := by
      unfold complaint
      rw [hmonitor]
      exact String.empty_append
    unfold report
    simp only [hlines, hcomplaint, String.empty_append]
    rfl

/-- A launch that has got such an engine ready reports its run, whether that ends with a stop or
with a fault. While the run goes on, neither says anything. -/
private theorem launchFor_of_plain {e : Engine}
    (hprepare : prepare read settings.entries memory = .ready e)
    (h : Plain e) : ReportsRunOf (launchFor · read settings.entries memory) e := by
  intro n
  refine ⟨?_, fun f s hrun => Engine.isClassified_of_unobstructed h.sized h.unobstructed hrun⟩
  simp only [launchFor, hprepare]
  cases hrun : e.runFor n with
  | mk o s =>
    cases o with
    | running => rfl
    | halted => exact (report_of_plain h hrun nofun).symm
    | failed f => exact (report_of_plain h hrun nofun).symm

/-- A launch whose file was decoded reports the run of a fresh engine with these words. The stage
that loads them never fails, since a file that decodes is not empty. -/
private theorem launchFor_of_decode {o r : Stack} {bytes : List UInt8} {ws : List Int}
    (hbuild : build settings.stackSize settings.returnStackSize settings.debug memory
      = .ok (Engine.ofStacks Sink.unlimited ⟨false, Sink.unlimited⟩ o r))
    (hread : read settings.filename = .ok bytes) (h : Encoding.decode bytes = .ok ws) :
    ∃ t, Engine.load ws (Engine.ofStacks Sink.unlimited ⟨false, Sink.unlimited⟩ o r) = .ok () t ∧
      ReportsRunOf (launchFor · read settings.entries memory) t := by
  obtain ⟨p, hloads⟩ := loadBytes_of_decode h
  obtain ⟨hload, hloaded⟩ := hloads (Engine.ofStacks Sink.unlimited ⟨false, Sink.unlimited⟩ o r)
  refine ⟨_, hload, launchFor_of_plain ((prepare_of_read hbuild hread).trans hloaded) ?_⟩
  exact ⟨Engine.sized_withProgram _ p, rfl, rfl, rfl⟩

/-- A launch whose file has a length that no program has ends while the file is read, after any
number of iterations. With `launchFor_of_decode` there is an answer for every file that is opened.
-/
private theorem launchFor_of_badLength {e : Engine} {bytes : List UInt8}
    (hbuild : build settings.stackSize settings.returnStackSize settings.debug memory = .ok e)
    (hread : read settings.filename = .ok bytes)
    (hlength : bytes.length = 0 ∨ bytes.length % 4 ≠ 0) (n : Nat) :
    launchFor n read settings.entries memory = some ⟨.ok 1, banner,
      failure "error reading program" (Fault.badLength bytes.length).message⟩ := by
  have hdecode := Encoding.decode_eq_error_iff.mpr ⟨hlength, rfl⟩
  simp only [launchFor, prepare_of_read hbuild hread, loadBytes_of_decode_error hdecode]

/-! ### What a report tells -/

/-- The line about bytes that are no program. -/
private theorem failure_badLength (n : Int) :
    failure "error reading program" (Fault.badLength n).message
    = "error reading program: Bad program length " ++ Numeral.decimal n ++ "\n" := by
  have hstage : "error reading program" ++ ": " ++ "Bad program length "
      = "error reading program: Bad program length " := by decide
  show "error reading program" ++ ": " ++ ("Bad program length " ++ Numeral.decimal n) ++ "\n" = _
  rw [← String.append_assoc, hstage]

/-- The line about a failed stage is never left out, so an empty error stream tells of success. -/
private theorem failure_ne_empty (stage reason : String) : failure stage reason ≠ "" := by
  intro heq
  have hchars := congrArg String.toList heq
  simp [failure, String.toList_append] at hchars

/-- The stages that do fail have other names than the one that never does. -/
private theorem failure_ne_loading {stage : String}
    (h : stage = "error reading program" ∨ stage = "error running program")
    (reason other : String) : failure stage reason ≠ failure "error loading program" other := by
  intro heq
  have hchars := congrArg String.toList heq
  rcases h with rfl | rfl <;> simp [failure, String.toList_append] at hchars

/-- A verdict on a run that has ended: a stop has status zero and no line, and a failure has status
one and its line. -/
private theorem verdict_eq_some {x : Outcome × Engine} {r : Report} (h : verdict x = some r) :
    (x.1 = .halted ∧ r.status = .ok 0 ∧ r.err = "") ∨
    ∃ f, x.1 = .failed f ∧ r.status = .ok 1 ∧
      r.err = failure "error running program" f.message := by
  obtain ⟨o, s⟩ := x
  cases o with
  | running => cases h
  | halted =>
    cases h
    exact .inl ⟨rfl, rfl, rfl⟩
  | failed f =>
    cases h
    exact .inr ⟨f, rfl, rfl, rfl⟩

/-- The bytes are those of a program that halts within `n` iterations of `e`. -/
def HaltsWithin (n : Nat) (bytes : List UInt8) (e : Engine) : Prop :=
  0 < bytes.length ∧ bytes.length % 4 = 0 ∧ ∃ ws t s, Encoding.decode bytes = .ok ws ∧
    Engine.load ws e = .ok () t ∧ t.runFor n = (.halted, s)

/-- What the report of a launch tells about the bytes of its file and the run after `n`
iterations, where `e` is the fresh engine of the launch. -/
structure Tells (bytes : List UInt8) (e : Engine) (n : Nat) (r : Report) : Prop where
  zero_iff : r.status = .ok 0 ↔ HaltsWithin n bytes e
  zero_or_one : r.status = .ok 0 ∨ r.status = .ok 1
  quiet : r.status = .ok 0 → r.err = ""
  /-- The stage between decoding and running never fails. -/
  loaded : ∀ reason, r.err ≠ failure "error loading program" reason

section

variable {bytes : List UInt8} {e : Engine} {n : Nat} {r : Report}

/-- The report on a launch that has failed at a stage which does fail: at reading or at running,
but not at loading. -/
private theorem tells_of_failed {stage reason : String} (hstatus : r.status = .ok 1)
    (hstage : stage = "error reading program" ∨ stage = "error running program")
    (herr : r.err = failure stage reason) (h : ¬ HaltsWithin n bytes e) : Tells bytes e n r := by
  have hone : r.status ≠ .ok 0 := by
    rw [hstatus]
    nofun
  refine ⟨⟨fun hzero => absurd hzero hone, fun hhalts => absurd hhalts h⟩, .inr hstatus,
    fun hzero => absurd hzero hone, fun other => ?_⟩
  rw [herr]
  exact failure_ne_loading hstage reason other

/-- The report on the run of a program. Its status tells whether the program halts within the
iterations, and the line tells why if not. -/
private theorem tells_of_verdict {ws : List Int} {t : Engine}
    (hdecode : Encoding.decode bytes = .ok ws)
    (hload : Engine.load ws e = .ok () t) (h : verdict (t.runFor n) = some r) :
    Tells bytes e n r := by
  obtain ⟨hne, hwhole, _⟩ := Encoding.whole_of_decode hdecode
  -- The words and the engine are those of this launch, as both are computed from the bytes.
  have hhalts : HaltsWithin n bytes e ↔ (t.runFor n).1 = .halted := by
    constructor
    · rintro ⟨_, _, vs, t', s, hdecode', hload', hrun⟩
      rw [hdecode] at hdecode'
      cases hdecode'
      rw [hload] at hload'
      cases hload'
      rw [hrun]
    · intro ho
      exact ⟨by omega, hwhole, ws, t, (t.runFor n).2, hdecode, hload, Engine.runFor_of_outcome ho⟩
  rcases verdict_eq_some h with ⟨ho, hstatus, herr⟩ | ⟨f, ho, hstatus, herr⟩
  · refine ⟨⟨fun _ => hhalts.mpr ho, fun _ => hstatus⟩, .inl hstatus, fun _ => herr,
      fun other => ?_⟩
    rw [herr]
    exact (failure_ne_empty _ other).symm
  · refine tells_of_failed hstatus (.inr rfl) herr ?_
    rw [hhalts, ho]
    nofun

end

/-- A launch of a file is decoding and one run, and nothing else. Let nobody watch it, and let
memory have room for stacks of the two capacities, which may be any numbers of slots. Then there is
a fresh engine with these capacities, and

- bytes whose number is zero or no multiple of four are refused while they are read;
- any others are the words of a program, which is loaded without fail, and the launch reports the
  verdict on its run, for any number of iterations;
- in particular, this is so for the bytes of any integers, with the program that is made of the
  integers themselves;
- and the report of a launch that has ended tells what `Tells` lists. -/
theorem launchFor_of_file {bytes : List UInt8} (hread : read settings.filename = .ok bytes)
    (hdebug : settings.debug = false) (hk : settings.stackSize.count? = some (k : Int))
    (hl : settings.returnStackSize.count? = some (l : Int)) (hkroom : memory.hasRoom k)
    (hlroom : memory.hasRoom l) :
    ∃ e, fresh k l memory = .ok e ∧
      (bytes.length = 0 ∨ bytes.length % 4 ≠ 0 → ∀ n, launchFor n read settings.entries memory
        = some ⟨.ok 1, banner,
            "error reading program: Bad program length " ++ Numeral.decimal bytes.length ++ "\n"⟩) ∧
      (∀ ws, Encoding.decode bytes = .ok ws → ∃ t, Engine.load ws e = .ok () t ∧
        ReportsRunOf (launchFor · read settings.entries memory) t) ∧
      (∀ vs, vs ≠ [] → bytes = Encoding.encode vs → ∃ t, Engine.load vs e = .ok () t ∧
        ReportsRunOf (launchFor · read settings.entries memory) t) ∧
      ∀ n r, launchFor n read settings.entries memory = some r → Tells bytes e n r := by
  have hbuild := build_of_room hk hl hkroom hlroom settings.debug
  rw [hdebug] at hbuild
  have hbuilt : build settings.stackSize settings.returnStackSize settings.debug memory
      = .ok (Engine.ofStacks Sink.unlimited ⟨false, Sink.unlimited⟩ (Stack.empty k)
          (Stack.empty l)) := by rw [hdebug, hbuild]
  have hgood (ws : List Int) (hdecode : Encoding.decode bytes = .ok ws) :=
    launchFor_of_decode hbuilt hread hdecode
  refine ⟨_, Engine.new_of_hasRoom hkroom hlroom, fun hlength n => ?_, hgood,
    fun vs hvs hbytes => ?_, fun n r hr => ?_⟩
  · rw [launchFor_of_badLength hbuilt hread hlength n, failure_badLength]
  · -- The integers wrap to the words in the file, and either make the same program.
    obtain ⟨t, hload, hreports⟩ := hgood _ (hbytes ▸ Encoding.decode_encode hvs)
    rw [Engine.load_map_wrap] at hload
    exact ⟨t, hload, hreports⟩
  · by_cases hlength : bytes.length = 0 ∨ bytes.length % 4 ≠ 0
    · rw [launchFor_of_badLength hbuilt hread hlength n] at hr
      cases hr
      refine tells_of_failed rfl (.inl rfl) rfl ?_
      rintro ⟨hpos, hwhole, _⟩
      omega
    · have hdecode := Encoding.decode_of_whole (by omega) (by omega : bytes.length % 4 = 0)
      obtain ⟨t, hload, hreports⟩ := hgood _ hdecode
      have hverdict : launchFor n read settings.entries memory = verdict (t.runFor n) :=
        (hreports n).1
      rw [hverdict] at hr
      exact tells_of_verdict hdecode hload hr

end

/-- The file of a call that writes a letter is launched with status zero, and its letter follows
the banner. A file of three bytes is refused. Where memory has no end, the operand stack may have
more slots than a word can count. -/
theorem launchFor_of_file_callLetter :
    (∃ r, launchFor 5 (fun _ => .ok (Encoding.encode [9, 3, 0, 3, 65, 2, 10]))
        (Settings.entries ⟨"letter", .slots 5000000000, .standard, false⟩) = some r ∧
      r.status = .ok 0 ∧ r.out = "stack-vm (1.0.0)\nA" ∧ r.err = "") ∧
    launchFor 5 (fun _ => .ok [0, 0, 9])
        (Settings.entries ⟨"letter", .slots 5000000000, .standard, false⟩)
      = some ⟨.ok 1, banner, "error reading program: Bad program length 3\n"⟩ := by
  have hall (n : Nat) : Memory.unlimited.hasRoom n := rfl
  constructor
  · obtain ⟨e, hfresh, _, _, hencoded, htells⟩ := @launchFor_of_file
      (fun _ => .ok (Encoding.encode [9, 3, 0, 3, 65, 2, 10]))
      ⟨"letter", .slots 5000000000, .standard, false⟩ _ 5000000000 1024 _ rfl rfl rfl rfl
      (hall 5000000000) (hall 1024)
    obtain ⟨t, hload, hreports⟩ := hencoded _ (List.cons_ne_nil _ _) rfl
    -- Both the engine and its program are known, so the run can be looked at.
    cases (Engine.new_of_hasRoom (hall 5000000000) (hall 1024)).symm.trans hfresh
    have hruns := Engine.runFor_of_outcome (e := t) (n := 5) (o := .halted) (by
      cases hload
      decide +kernel)
    have hletter : (t.runFor 5).2.output.toList = ['A'] := by
      cases hload
      decide +kernel
    have hverdict := (hreports 5).1
    rw [hruns] at hverdict
    refine ⟨_, hverdict, rfl, ?_, (htells 5 _ hverdict).quiet rfl⟩
    show banner ++ String.ofList (t.runFor 5).2.output.toList = _
    rw [hletter]
    decide
  · obtain ⟨_, _, hbad, _⟩ := @launchFor_of_file (fun _ => .ok [0, 0, 9])
      ⟨"letter", .slots 5000000000, .standard, false⟩ _ 5000000000 1024 _ rfl rfl rfl rfl
      (hall 5000000000) (hall 1024)
    exact hbad (.inr (by decide)) 5

end Launch

end StackMachine
