import StackMachine.Proofs.Launches

/-!
# `StackMachine.Proofs.Diagnostics`: debugging only adds to the error stream

The debug flag of a launch makes its engine trace, and lets a failed run end with a dump. Both go
to the error stream, which also carries the line about the failure. `launchFor_debug` says in which
order, and that nothing else is different: a launch with the flag ends when the one without it
ends, with the same status and the same output.

- `prepare_cases`: the flag has no part in what happens before the run.
- `diagnostics` is what the flag adds, told by the run of the engine without it: the `log` of the
  run, and the dump of its last state if it has failed.
- `report_of_debug`: the watched run has the same outcome, and its report is that of the unwatched
  one behind the diagnostics.
- `dump_of_watched`: a dump shows nothing of the watching.
-/

set_option autoImplicit false

namespace StackMachine

/-- A dump shows nothing of the watching, so the unwatched double can be dumped instead. This is
what allows the diagnostics to be told by the run without the flag. -/
private theorem Engine.dump_of_watched {s t : Engine} (h : EqualButWatched s t)
    (text? : Option String)
    (verbose : Bool) : s.dump text? verbose = t.dump text? verbose := by
  have horigin : s.origin = t.origin := congrArg Registers.origin h.registers
  have hopcode : s.opcode = t.opcode := congrArg Registers.opcode h.registers
  unfold dump line
  rw [horigin, hopcode, h.operands, h.returns]

namespace Launch

variable {read : String → Except FileError (List UInt8)} {settings : Settings} {memory : Memory}

/-! ### Before the run -/

/-- The report of a launch whose file was not opened. -/
def unread (name : String) : FileError → Report
  | .embeddedNul => ⟨.error .embeddedNul, banner, ""⟩
  | err => ⟨.ok 1, banner, failure "error loading file" (err.message name)⟩

/-- A launch whose file is not opened ends there, after its engine was built. Nothing has been
loaded then, and `unread` is the report. -/
theorem prepare_of_unread {e : Engine} {err : FileError}
    (h : build settings.stackSize settings.returnStackSize settings.debug memory = .ok e)
    (hread : read settings.filename = .error err) :
    prepare read settings.entries memory = .ended (unread settings.filename err) := by
  cases err <;> simp only [prepare, Settings.entries, h, hread] <;> rfl

/-- The engine of a launch, with or without the debug flag. -/
def engineOf (p : Program) (operands returns : Stack) (debug : Bool) : Engine :=
  (Engine.ofStacks Sink.unlimited ⟨debug, Sink.unlimited⟩ operands returns).withProgram p

/-- Before the run, the flag does nothing but to set the watch. A launch that ends here does not
know it, and any other has the same program and the same stacks either way. -/
theorem prepare_cases (read : String → Except FileError (List UInt8)) (settings : Settings)
    (memory : Memory) :
    (∃ r, ∀ debug, prepare read (Settings.entries { settings with debug }) memory = .ended r) ∨
    ∃ p o s, ∀ debug, prepare read (Settings.entries { settings with debug }) memory
      = .ready (engineOf p o s debug) := by
  cases ho : stackOf memory settings.stackSize with
  | error m =>
    refine .inl ⟨_, fun debug => prepare_of_build_error (m := m) ?_⟩
    simp only [build, ho]
    rfl
  | ok o =>
    cases hs : stackOf memory settings.returnStackSize with
    | error m =>
      refine .inl ⟨_, fun debug => prepare_of_build_error (m := m) ?_⟩
      simp only [build, ho, hs]
      rfl
    | ok s =>
      have hbuild (debug : Bool) : build settings.stackSize settings.returnStackSize debug memory
          = .ok (Engine.ofStacks Sink.unlimited ⟨debug, Sink.unlimited⟩ o s) := by
        simp only [build, ho, hs]
        rfl
      cases hread : read settings.filename with
      | error err =>
        exact .inl ⟨unread settings.filename err, fun debug =>
          prepare_of_unread (hbuild debug) hread⟩
      | ok bytes =>
        have hprepare (debug : Bool) :
            prepare read (Settings.entries { settings with debug }) memory = loadBytes _ bytes :=
          prepare_of_read (hbuild debug) hread
        cases hdecode : Encoding.decode bytes with
        | error f =>
          exact .inl ⟨_, fun debug => (hprepare debug).trans (loadBytes_of_decode_error hdecode _)⟩
        | ok ws =>
          obtain ⟨p, hloads⟩ := loadBytes_of_decode hdecode
          exact .inr ⟨p, o, s, fun debug => (hprepare debug).trans (hloads _).2⟩

/-- A launch whose file is not opened, or does not decode, ends before its run, also where its
engine could not be built. -/
private theorem prepare_of_unreadable (h : (∃ err, read settings.filename = .error err) ∨
    ∃ bytes f, read settings.filename = .ok bytes ∧ Encoding.decode bytes = .error f) :
    ∃ r, prepare read settings.entries memory = .ended r := by
  cases hbuild : build settings.stackSize settings.returnStackSize settings.debug memory with
  | error m => exact ⟨_, prepare_of_build_error hbuild⟩
  | ok e =>
    rcases h with ⟨err, hread⟩ | ⟨bytes, f, hread, hdecode⟩
    · exact ⟨_, prepare_of_unread hbuild hread⟩
    · exact ⟨_, (prepare_of_read hbuild hread).trans (loadBytes_of_decode_error hdecode e)⟩

/-! ### What the flag adds -/

/-- What is shown of the engine behind a run that has failed for a cause of the taxonomy. -/
def crashDump : Outcome × Engine → String
  | (.failed f, e) => if f.isClassified then e.dump none true ++ "\n" else ""
  | _ => ""

/-- A report with a text before all else on the error stream. -/
def Report.after (text : String) (r : Report) : Report := { r with err := text ++ r.err }

/-- No text before all else changes nothing. -/
private theorem Report.after_empty (r : Report) : r.after "" = r := by
  unfold after
  rw [String.empty_append]

/-- What a launch with the debug flag writes to the error stream before all that it would write
there without it: the lines of the log of its run, and the dump. -/
def diagnostics (n : Nat) : Preparation → String
  | .ended _ => ""
  | .ready e => traceText ((e.log n).map LogEntry.text) ++ crashDump (e.runFor n)

section

variable {p : Program} {o s : Stack}

/-- Without the flag, the run of such an engine is what the verdict of a launch is about. Its sinks
take everything, and its program was put in with its size. -/
private theorem plain_engineOf : Plain (engineOf p o s false) :=
  ⟨Engine.sized_withProgram _ p, rfl, rfl, rfl⟩

/-- With the flag, it is watched, and every line is taken. -/
private theorem watched_engineOf : (engineOf p o s true).Watched := ⟨rfl, fun _ _ => rfl⟩

/-- The two differ in the watching alone. -/
private theorem equalButWatched_engineOf :
    Engine.EqualButWatched (engineOf p o s false) (engineOf p o s true) :=
  ⟨rfl, rfl, rfl, rfl, rfl, rfl⟩

/-- The report on an engine that was watched, beside the one on its unwatched double. The lines of
the trace come first, then the dump, and then what the double reports. -/
private theorem report_of_watched {outcome : Outcome} {e t : Engine} {lines : List String}
    (hequal : Engine.EqualButWatched e t) (ht : Engine.Told true lines t)
    (he : verdict (outcome, e) = some (report outcome e))
    (hf : ∀ f, outcome = .failed f → f.isClassified = true) :
    report outcome t = (report outcome e).after (traceText lines ++ crashDump (outcome, e)) := by
  have hout : (report outcome t).out = (report outcome e).out := by
    unfold report
    rw [hequal.output]
  have herr : (report outcome t).err
      = traceText lines ++ crashDump (outcome, e) ++ (report outcome e).err := by
    rw [← ht.lines]
    cases outcome with
    | running => cases he
    | halted =>
      have hquiet : (report .halted e).err = "" :=
        (congrArg Report.err (Option.some.inj he)).symm
      rw [hquiet]
      exact String.append_empty.symm
    | failed f =>
      have hreason : (report (.failed f) e).err = failure "error running program" f.message :=
        (congrArg Report.err (Option.some.inj he)).symm
      have hcrash : crashDump (.failed f, e) = t.dump none true ++ "\n" := by
        simp only [crashDump, hf f rfl, Engine.dump_of_watched hequal, if_true]
      have hcomplaint : complaint t f
          = crashDump (.failed f, e) ++ failure "error running program" f.message := by
        simp only [complaint, ht.live, hcrash, if_true]
      show traceText t.monitor.lines.toList ++ complaint t f = _
      rw [hreason, hcomplaint, String.append_assoc]
  calc report outcome t
    _ = ⟨(report outcome t).status, (report outcome t).out, (report outcome t).err⟩ := rfl
    _ = (report outcome e).after (traceText lines ++ crashDump (outcome, e)) := by
      rw [hout, herr]
      rfl

/-- With the flag, the run has the same outcome, and the report on it is the same but for the
diagnostics. -/
theorem report_of_debug {n : Nat} {outcome : Outcome} {e : Engine}
    (hrun : (engineOf p o s false).runFor n = (outcome, e)) :
    ∃ t, (engineOf p o s true).runFor n = (outcome, t) ∧ (outcome ≠ .running → report outcome t
      = (report outcome e).after (diagnostics n (.ready (engineOf p o s false)))) := by
  have hwatched := watched_engineOf (p := p) (o := o) (s := s)
  obtain ⟨hlog, houtcome, hequal⟩ := Engine.log_of_watched equalButWatched_engineOf
    plain_engineOf.unobstructed.2 hwatched.tracesFreely n
  have htold := Engine.told_runFor hwatched n
  rw [← hlog] at htold
  have hdiagnostics : diagnostics n (.ready (engineOf p o s false))
      = traceText (((engineOf p o s false).log n).map LogEntry.text) ++ crashDump (outcome, e) := by
    rw [← hrun]
    rfl
  rw [hrun] at houtcome hequal
  refine ⟨((engineOf p o s true).runFor n).2, Engine.runFor_of_outcome houtcome.symm, fun ho => ?_⟩
  rw [hdiagnostics]
  exact report_of_watched hequal htold (report_of_plain plain_engineOf hrun ho) fun f hf =>
    Engine.isClassified_of_unobstructed plain_engineOf.sized plain_engineOf.unobstructed (hf ▸ hrun)

/-- Where a launch gets as far as its run, it reports with the flag what it reports without it
behind the diagnostics, and goes on as long. This is `report_of_debug` for launches. -/
private theorem launchFor_of_engineOf (hprepare : ∀ debug,
    prepare read (Settings.entries { settings with debug }) memory = .ready (engineOf p o s debug))
    (n : Nat) :
    launchFor n read (Settings.entries { settings with debug := true }) memory
      = (launchFor n read (Settings.entries { settings with debug := false }) memory).map
          (Report.after (diagnostics n (.ready (engineOf p o s false)))) := by
  simp only [launchFor, hprepare]
  cases hrun : (engineOf p o s false).runFor n with
  | mk outcome e =>
    obtain ⟨t, hdebug, hreport⟩ := report_of_debug hrun
    rw [hdebug]
    cases outcome with
    | running => rfl
    | halted => exact congrArg some (hreport fun h => by cases h)
    | failed f => exact congrArg some (hreport fun h => by cases h)

/-- A launch whose file decodes gets a fresh engine ready that has loaded the words of the file, if
memory has room for its stacks. It is the run of this engine that the diagnostics are about. -/
private theorem ready_of_decode {k l : Nat} {bytes : List UInt8} {ws : List Int}
    (hk : settings.stackSize.count? = some (k : Int))
    (hl : settings.returnStackSize.count? = some (l : Int)) (hkroom : memory.hasRoom k)
    (hlroom : memory.hasRoom l) (hread : read settings.filename = .ok bytes)
    (hdecode : Encoding.decode bytes = .ok ws) :
    ∃ e t, fresh k l memory = .ok e ∧ Engine.load ws e = .ok () t ∧
      prepare read (Settings.entries { settings with debug := false }) memory = .ready t := by
  obtain ⟨p, hloads⟩ := loadBytes_of_decode hdecode
  obtain ⟨hload, hready⟩ := hloads _
  have hprepare : prepare read (Settings.entries { settings with debug := false }) memory
      = loadBytes _ bytes := prepare_of_read (build_of_room hk hl hkroom hlroom false) hread
  exact ⟨_, _, Engine.new_of_hasRoom hkroom hlroom, hload, hprepare.trans hready⟩

/-- The debug flag of a launch adds diagnostics to the error stream, before all else that is written
there, and does nothing more.

- The launch ends when it would end without the flag, and with the same status and output. This is
  so for all settings, and for any memory of the host.
- Where the file is not opened, or does not decode, the flag adds nothing.
- Where it decodes, and memory has room for stacks of the two capacities, which may be any numbers
  of slots, the diagnostics are about the run of a fresh engine with the words of the file. -/
theorem launchFor_debug (n : Nat) (read : String → Except FileError (List UInt8))
    (settings : Settings) (memory : Memory) :
    launchFor n read (Settings.entries { settings with debug := true }) memory
      = (launchFor n read (Settings.entries { settings with debug := false }) memory).map
          (Report.after (diagnostics n
            (prepare read (Settings.entries { settings with debug := false }) memory))) ∧
    ((∃ err, read settings.filename = .error err) ∨
      (∃ bytes f, read settings.filename = .ok bytes ∧ Encoding.decode bytes = .error f) →
      launchFor n read (Settings.entries { settings with debug := true }) memory
        = launchFor n read (Settings.entries { settings with debug := false }) memory) ∧
    ∀ (k l : Nat) (bytes : List UInt8) (ws : List Int),
      settings.stackSize.count? = some (k : Int) →
      settings.returnStackSize.count? = some (l : Int) →
      memory.hasRoom k → memory.hasRoom l →
      read settings.filename = .ok bytes → Encoding.decode bytes = .ok ws →
      ∃ e t, fresh k l memory = .ok e ∧ Engine.load ws e = .ok () t ∧
        prepare read (Settings.entries { settings with debug := false }) memory = .ready t := by
  rcases prepare_cases read settings memory with ⟨r, hended⟩ | ⟨p, o, s, hready⟩
  · -- Both launches end before the run, and there is nothing to add.
    refine ⟨?_, ?_, fun _ _ _ _ => ready_of_decode⟩
    · simp only [launchFor, hended, Option.map_some, diagnostics, Report.after_empty]
    · simp only [launchFor, hended, implies_true]
  · refine ⟨?_, fun hunreadable => ?_, fun _ _ _ _ => ready_of_decode⟩
    · rw [hready false]
      exact launchFor_of_engineOf hready n
    · -- An unreadable file does not get as far as the run.
      obtain ⟨r, hended⟩ : ∃ r,
          prepare read (Settings.entries { settings with debug := false }) memory = .ended r :=
        prepare_of_unreadable hunreadable
      rw [hready false] at hended
      cases hended

end

/-- A sum without a second addend fails, and with the flag it leaves two lines of trace and a dump
behind. A file that is missing leaves the same report with the flag and without it. Where memory has
no end, the operand stack may have more slots than a word can count. -/
theorem launchFor_debug_underflow :
    (launchFor 5 (fun _ => .ok (Encoding.encode [3, 7, 5]))
        (Settings.entries ⟨"sum", .slots 5000000000, .slots 2, true⟩)).map
        (fun r => (r.status.toOption, r.out, r.err)) =
      some (some 1, "stack-vm (1.0.0)\n",
        "PC: 0x00000000 OP: 0x00000003 IN: PUSH 7 SP: 0 RP: 0\n" ++
        "PC: 0x00000002 OP: 0x00000005 IN: ADD SP: 1 RP: 0\n" ++
        "PC: 0x00000002 OP: 0x00000005 IN: ADD SP: 0 RP: 0\nStack: (Empty)\nReturn: (Empty)\n" ++
        "error running program: Stack underflow\n") ∧
    launchFor 5 (fun _ => .error .missing)
        (Settings.entries ⟨"sum", .slots 5000000000, .slots 2, true⟩)
      = launchFor 5 (fun _ => .error .missing)
          (Settings.entries ⟨"sum", .slots 5000000000, .slots 2, false⟩) := by
  constructor
  · rw [(launchFor_debug 5 (fun _ => .ok (Encoding.encode [3, 7, 5]))
      ⟨"sum", .slots 5000000000, .slots 2, false⟩ .unlimited).1]
    decide +kernel
  · exact (launchFor_debug 5 (fun _ => .error .missing)
      ⟨"sum", .slots 5000000000, .slots 2, false⟩ .unlimited).2.1 (.inl ⟨.missing, rfl⟩)

end Launch

end StackMachine
