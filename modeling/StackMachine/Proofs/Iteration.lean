import StackMachine.Engine.Run

/-!
# `StackMachine.Proofs.Iteration`: what one iteration does, and how a run is made of them

An iteration first reads words: an opcode, then the operands that the opcode asks for. What it
reads depends on the program and the program counter alone. `Engine.decoded` is that reading as
a value, with its three ways to fail, and five theorems say what a turn does with each value:

- `turn_of_outside`: no word can be fetched at the program counter.
- `turn_of_unknown`: the word names no instruction.
- `turn_of_cut`: no word can be fetched for the operand.
- `turn_of_halt`: the instruction is a stop.
- `turn_of_ready`: any other instruction is performed, from the state `Engine.loaded`.

Everything that is proved of a run rests on these five, so that no later proof opens `cycle`
or `turn` again.

A fetch checks its address against the number of words that was noted, and not against the
program. `Engine.Sized` says that the number is the right one; nothing in this module takes that for
granted. `Engine.absence` is the cause for which a fetch is refused, and only in a sized engine
is it always that the address is out of bounds.

`Registers` are the fields that these states assign; most laws treat them as
one, and the stacks, the sinks and the program as the rest. For runs there is one induction,
`runFor_induction`: what holds at the start, and after a turn whenever it held before, holds
after any number of iterations.
-/

set_option autoImplicit false

namespace StackMachine

/-- The word at an address, if there is one. A negative address has none. -/
def Program.word? (p : Program) (a : Int) : Option Int :=
  if 0 ≤ a then p.words[a.toNat]? else none

/-- A program has words exactly at the addresses below its size. Unlike `Program.read`, this lookup
does not count negative addresses from the end. -/
theorem Program.word?_eq_none_iff {p : Program} {a : Int} :
    p.word? a = none ↔ a < 0 ∨ p.size ≤ a := by
  simp only [Program.word?, Program.size]
  split
  · rw [Array.getElem?_eq_none_iff]
    omega
  · simp only [true_iff]
    omega

/-- Every word of a program is in range, because integers are wrapped when a program is made. -/
private theorem Program.inRange_of_word? {p : Program} {a w : Int} (h : p.word? a = some w) :
    Word.InRange w := by
  simp only [Program.word?] at h
  split at h
  · exact p.inRange w (Array.mem_of_getElem? h)
  · cases h

/-- The words of a program are the integers it was made of, each wrapped. Nothing else about the
integers is kept. -/
theorem Program.toList_of_ofInts {vs : List Int} {p : Program} (h : ofInts vs = .ok p) :
    p.toList = vs.map Word.wrap := by
  unfold ofInts at h
  split at h
  · cases h
  · cases h
    rfl

/-- Only an empty list of integers makes no program. Any integer becomes a word by wrapping, so
there is no other reason. -/
theorem Program.ofInts_eq_error_iff {vs : List Int} {f : Fault} :
    ofInts vs = .error f ↔ vs = [] ∧ f = .emptyProgram := by
  unfold ofInts
  split
  · rename_i h
    simp [h, eq_comm]
  · rename_i h
    simp [h]

/-- Any integers make a program, if there are some. -/
theorem Program.exists_ofInts {vs : List Int} (h : vs ≠ []) : ∃ p, ofInts vs = .ok p := by
  cases hp : ofInts vs with
  | ok p => exact ⟨p, rfl⟩
  | error f => exact absurd (ofInts_eq_error_iff.mp hp).1 h

/-- The words of a program in order are as many as its size says. -/
theorem Program.length_toList (p : Program) : p.toList.length = p.size := Array.length_toList

/-- A program that calls a subroutine which writes a letter. -/
def Program.callLetter : Program := ⟨#[9, 3, 0, 3, 65, 2, 10], by decide, by decide⟩

/-! ### Reading from an address on -/

/-- The `n` words from an address on, if they all exist. `read` looks up single words. -/
def block? (read : Int → Option Int) : Int → Nat → Option (List Int)
  | _, 0 => some []
  | a, n + 1 =>
    match read a with
    | none => none
    | some w => (block? read (a + 1) n).map (w :: ·)

/-- A block of one word more is a word and the block behind it. The inductions over blocks take
their step by this. -/
theorem block?_succ_eq_some_iff {read : Int → Option Int} {a : Int} {n : Nat} {ws : List Int} :
    block? read a (n + 1) = some ws ↔
      ∃ w rest, read a = some w ∧ block? read (a + 1) n = some rest ∧ ws = w :: rest := by
  simp only [block?]
  cases read a with
  | none => simp
  | some w =>
    simp only [Option.map_eq_some_iff]
    constructor
    · rintro ⟨rest, hrest, rfl⟩
      exact ⟨w, rest, rfl, hrest, rfl⟩
    · rintro ⟨_, rest, hw, hrest, rfl⟩
      cases hw
      exact ⟨rest, hrest, rfl⟩

/-- A block has as many words as were asked for, since one missing word makes the whole block
missing. -/
private theorem length_of_block? {read : Int → Option Int} {a : Int} {n : Nat} {ws : List Int}
    (h : block? read a n = some ws) : ws.length = n := by
  induction n generalizing a ws with
  | zero =>
    cases h
    rfl
  | succ n ih =>
    obtain ⟨w, rest, _, hrest, rfl⟩ := block?_succ_eq_some_iff.mp h
    rw [List.length_cons, ih hrest]

/-- A block of one word is that word. Instructions with an operand have such a block behind them.
-/
theorem block?_one {read : Int → Option Int} {a : Int} {ws : List Int}
    (h : block? read a 1 = some ws) : ∃ x, read a = some x ∧ ws = [x] := by
  obtain ⟨x, rest, hx, hrest, rfl⟩ := block?_succ_eq_some_iff.mp h
  cases hrest
  exact ⟨x, hx, rfl⟩

/-- Every word of a block is the word at some address, so what holds of all words of a program
holds of operands. -/
theorem read_of_mem_block? {read : Int → Option Int} {a : Int} {n : Nat} {ws : List Int}
    (h : block? read a n = some ws) : ∀ w ∈ ws, ∃ b, read b = some w := by
  induction n generalizing a ws with
  | zero =>
    cases h
    intro w hw
    cases hw
  | succ n ih =>
    obtain ⟨v, rest, hv, hrest, rfl⟩ := block?_succ_eq_some_iff.mp h
    intro w hw
    rcases List.mem_cons.mp hw with rfl | hw
    · exact ⟨a, hv⟩
    · exact ih hrest w hw

/-- What the words from an address on say. -/
inductive Decoded where
  /-- There is no word at the address. -/
  | outside
  /-- The word is not the opcode of an instruction. -/
  | unknown (w : Int)
  /-- The program ends before the operands of the instruction do. -/
  | cut (i : Instr)
  /-- An instruction with all its operands. -/
  | ready (i : Instr) (params : List Int)
  deriving DecidableEq, Repr

/-- Decode the words from an address on. -/
def decode (read : Int → Option Int) (a : Int) : Decoded :=
  match read a with
  | none => .outside
  | some w =>
    match Instr.ofOpcode? w with
    | none => .unknown w
    | some i =>
      match block? read (a + 1) i.arity with
      | none => .cut i
      | some params => .ready i params

section Decode

variable {read : Int → Option Int} {a : Int}

/-- The opcode of an instruction names that instruction. -/
theorem ofOpcode?_opcode (i : Instr) : Instr.ofOpcode? i.opcode = some i :=
  Instr.ofOpcode?_eq_some_iff.mpr rfl

/-- No two instructions have the same opcode. A comparison of opcodes is one of instructions. -/
theorem opcode_injective {i j : Instr} (h : i.opcode = j.opcode) : i = j := by
  have hi := ofOpcode?_opcode i
  rw [h, ofOpcode?_opcode j] at hi
  exact (Option.some.inj hi).symm

/-- Nothing is decoded exactly if the first word is not there. -/
theorem decode_eq_outside_iff : decode read a = .outside ↔ read a = none := by
  simp only [decode]
  cases read a with
  | none => simp only
  | some w => grind

/-- An unknown opcode is decoded exactly if the first word names no instruction. The words behind
it have no part in that. -/
theorem decode_eq_unknown_iff {w : Int} :
    decode read a = .unknown w ↔ read a = some w ∧ Instr.ofOpcode? w = none := by
  simp only [decode]
  cases read a with
  | none => simp
  | some v => grind

/-- An instruction is cut short exactly if its opcode is there and its operands are not. -/
theorem decode_eq_cut_iff {i : Instr} :
    decode read a = .cut i ↔ read a = some i.opcode ∧ block? read (a + 1) i.arity = none := by
  constructor
  · intro h
    simp only [decode] at h
    split at h
    · cases h
    · rename_i w hw
      split at h
      · cases h
      · rename_i j hj
        split at h
        · cases h
          rw [Instr.ofOpcode?_eq_some_iff] at hj
          exact ⟨by rw [hw, hj], by assumption⟩
        · cases h
  · rintro ⟨hw, hb⟩
    simp only [decode, hw, ofOpcode?_opcode, hb]

/-- Only an instruction with an operand is cut short, and it is that operand that is missing. There
is no instruction of which a part of the operands could be there. -/
theorem arity_of_cut {i : Instr} (h : decode read a = .cut i) :
    i.arity = 1 ∧ read (a + 1) = none := by
  have hblock := (decode_eq_cut_iff.mp h).2
  have harity : i.arity = 0 ∨ i.arity = 1 := by cases i <;> decide
  rcases harity with h0 | h1
  · -- A block of no words is never cut short.
    rw [h0] at hblock
    cases hblock
  · refine ⟨h1, ?_⟩
    rw [h1] at hblock
    simp only [block?] at hblock
    split at hblock
    · assumption
    · cases hblock

/-- An instruction is decoded exactly if its opcode and its operands are there. With the three
lemmas before it, every use of `decode` becomes one of words. -/
theorem decode_eq_ready_iff {i : Instr} {params : List Int} :
    decode read a = .ready i params ↔
      read a = some i.opcode ∧ block? read (a + 1) i.arity = some params := by
  constructor
  · intro h
    simp only [decode] at h
    split at h
    · cases h
    · rename_i w hw
      split at h
      · cases h
      · rename_i j hj
        split at h
        · cases h
        · cases h
          rw [Instr.ofOpcode?_eq_some_iff] at hj
          exact ⟨by rw [hw, hj], by assumption⟩
  · rintro ⟨hw, hb⟩
    simp only [decode, hw, ofOpcode?_opcode, hb]

end Decode

/-- The fields of an engine that say where it is and what it is doing. -/
structure Registers where
  pc : Int
  origin : Int
  opcode : Int
  params : List Int
  phase : Phase
  deriving DecidableEq, Repr

namespace Engine

variable {e : Engine}

/-! ### Running actions -/

/-- An action that succeeds hands its value and its state on to what follows. With `bind_of_error`,
a sequence of actions is taken apart one action at a time, and no other lemma opens it. -/
theorem bind_of_ok {α β : Type} {a : Action α} {k : α → Action β} {s t : Engine} {v : α}
    (h : a s = .ok v t) : (a >>= k) s = k v t := by
  show EStateM.bind a k s = k v t
  rw [EStateM.bind, h]

/-- An action that is refused ends the whole, in the state in which it was refused. Nothing is
rolled back. -/
theorem bind_of_error {α β : Type} {a : Action α} {k : α → Action β} {s t : Engine} {f : Fault}
    (h : a s = .error f t) : (a >>= k) s = .error f t := by
  show EStateM.bind a k s = .error f t
  rw [EStateM.bind, h]

/-- A change of state never fails. -/
theorem modify_bind {β : Type} {g : Engine → Engine} {k : PUnit → Action β} {s : Engine} :
    ((modify g : Action PUnit) >>= k) s = k ⟨⟩ (g s) := rfl

/-- To look at the state does not change it. -/
theorem get_bind {β : Type} {k : Engine → Action β} {s : Engine} :
    ((get : Action Engine) >>= k) s = k s s := rfl

/-- The action pops the operand stack and touches nothing else. The lemmas that follow say the same
of the other stack actions, for success and for refusal. -/
theorem pop_of_ok {v : Int} {o : Stack} (h : e.operands.pop = .ok (v, o)) :
    pop e = .ok v { e with operands := o } := by simp only [pop, h]

/-- A pop that the operand stack refuses leaves the engine as it is. -/
theorem pop_of_error {f : Fault} (h : e.operands.pop = .error f) : pop e = .error f e := by
  simp only [pop, h]

/-- The action pushes on the return stack and touches nothing else. -/
theorem pushReturn_of_ok {a : Int} {o : Stack} (h : e.returns.push a = .ok o) :
    pushReturn a e = .ok () { e with returns := o } := by simp only [pushReturn, h]

/-- A push that the return stack refuses leaves the engine as it is. -/
theorem pushReturn_of_error {a : Int} {f : Fault} (h : e.returns.push a = .error f) :
    pushReturn a e = .error f e := by simp only [pushReturn, h]

/-- The action pops the return stack and touches nothing else. -/
theorem popReturn_of_ok {a : Int} {o : Stack} (h : e.returns.pop = .ok (a, o)) :
    popReturn e = .ok a { e with returns := o } := by simp only [popReturn, h]

/-- A pop that the return stack refuses leaves the engine as it is. -/
theorem popReturn_of_error {f : Fault} (h : e.returns.pop = .error f) :
    popReturn e = .error f e := by simp only [popReturn, h]

/-- A trace writes one line to the monitor, if the monitor takes it. -/
theorem trace_of_some {text : String} {lines : Sink String}
    (h : e.monitor.lines.write (e.line text) = some lines) :
    trace text e = .ok () { e with monitor := { e.monitor with lines } } := by
  simp only [trace, h]

/-- A line that the monitor refuses is a fault of the engine, which has changed nothing then. -/
theorem trace_of_none {text : String} (h : e.monitor.lines.write (e.line text) = none) :
    trace text e = .error .traceRefused e := by simp only [trace, h]

/-- The operand is the first of those that were read. Any others are not looked at. -/
theorem operand_of_cons {v : Int} {rest : List Int} (h : e.params = v :: rest) :
    operand e = .ok v e := by simp only [operand, h]

/-! ### Reading words -/

/-- The engine with another program, whose number of words is noted. -/
def withProgram (e : Engine) (p : Program) : Engine := { e with program := some p, size := p.size }

/-- A program that integers make is loaded in place of the one before, and its size is noted with
it. Registers, stacks and sinks stay. -/
theorem load_of_ofInts {vs : List Int} {p : Program} (h : Program.ofInts vs = .ok p) (e : Engine) :
    load vs e = .ok () (e.withProgram p) := by
  simp only [load, h]
  rfl

/-- The words of the program in order. Without a program there are none. -/
def words (e : Engine) : List Int :=
  match e.program with
  | some p => p.toList
  | none => []

/-- The noted number of words is that of the program. It is so in every engine that a host has
driven from the start, but an engine as such need not be like that. -/
def Sized (e : Engine) : Prop := e.size = e.words.length

/-- The word that a fetch at an address gives, if it gives one: the address has to pass the check
against the noted number, and the program has to have a word there. -/
def word? (e : Engine) (a : Int) : Option Int :=
  if a < e.size then e.program.bind (·.word? a) else none

/-- What the words at the program counter say. -/
def decoded (e : Engine) : Decoded := decode e.word? e.pc

/-- Engines with the same program and the same noted number read the same words, wherever they are.
-/
theorem word?_congr {s t : Engine} (hprogram : s.program = t.program) (hsize : s.size = t.size) :
    s.word? = t.word? := by
  funext a
  unfold word?
  rw [hprogram, hsize]

/-- If they are at the same address as well, they decode the same. -/
theorem decoded_congr {s t : Engine} (hprogram : s.program = t.program) (hsize : s.size = t.size)
    (hpc : s.pc = t.pc) : s.decoded = t.decoded := by
  unfold decoded
  rw [word?_congr hprogram hsize, hpc]

/-- A word that is fetched stands in the program. The noted number can hide words from a fetch, but
it cannot add any. -/
theorem program_of_word? {a w : Int} (h : e.word? a = some w) :
    ∃ p, e.program = some p ∧ p.word? a = some w := by
  simp only [word?] at h
  split at h
  · exact Option.bind_eq_some_iff.mp h
  · cases h

/-- It stands at its address in the list of words as well. -/
theorem getElem?_words_of_word? {a w : Int} (h : e.word? a = some w) :
    e.words[a.toNat]? = some w := by
  obtain ⟨p, hp, hw⟩ := program_of_word? h
  unfold Program.word? at hw
  split at hw
  · rw [words, hp]
    show p.words.toList[a.toNat]? = some w
    rw [Array.getElem?_toList, hw]
  · cases hw

/-- An address with a word has passed the check. The converse takes a sized engine, as the noted
size may exceed the program otherwise. -/
theorem bounds_of_word? {a w : Int} (h : e.word? a = some w) : 0 ≤ a ∧ a < e.size := by
  obtain ⟨p, _, hp⟩ := program_of_word? h
  have hpos : ¬ (a < 0 ∨ (p.size : Int) ≤ a) := by
    rw [← Program.word?_eq_none_iff, hp]
    exact Option.some_ne_none w
  simp only [word?] at h
  split at h
  · exact ⟨by omega, by assumption⟩
  · cases h

/-- No word is fetched at an address that does not pass the check, not even a negative one that
would count from the end of the program. -/
theorem word?_of_outside {a : Int} (h : a < 0 ∨ e.size ≤ a) : e.word? a = none := by
  cases hw : e.word? a with
  | none => rfl
  | some w =>
    have hb := bounds_of_word? hw
    omega

/-- Every word that an engine can read is in range. Programs are made by wrapping, so this needs
nothing of the engine. -/
theorem inRange_of_word? {a w : Int} (h : e.word? a = some w) : Word.InRange w := by
  obtain ⟨p, _, hp⟩ := program_of_word? h
  exact Program.inRange_of_word? hp

/-- In a sized engine, the words are exactly those below the noted number: the check of an address
and the lookup agree. -/
theorem Sized.word?_eq_none_iff (h : e.Sized) {a : Int} :
    e.word? a = none ↔ a < 0 ∨ e.size ≤ a := by
  refine ⟨fun hnone => ?_, word?_of_outside⟩
  have hsize : e.size = e.words.length := h
  simp only [word?] at hnone
  split at hnone
  · cases hp : e.program with
    | none =>
      -- Without a program, the noted number is zero.
      have hzero : e.size = 0 := by rw [hsize, words, hp]; rfl
      omega
    | some p =>
      have hlength : e.size = p.size := by rw [hsize, words, hp, ← p.length_toList]
      rw [hp] at hnone
      have hout := Program.word?_eq_none_iff.mp hnone
      omega
  · omega

/-- A program that is put into an engine comes with its number of words, so the engine is sized
whatever it has noted before. -/
theorem sized_withProgram (e : Engine) (p : Program) : (e.withProgram p).Sized :=
  p.length_toList.symm

/-- The engine reads the words of that program. The check that comes before a lookup refuses nothing
that the lookup would find. -/
theorem word?_withProgram (e : Engine) (p : Program) : (e.withProgram p).word? = p.word? := by
  funext a
  cases hp : p.word? a with
  | none =>
    rw [(sized_withProgram e p).word?_eq_none_iff]
    exact Program.word?_eq_none_iff.mp hp
  | some w =>
    have hin : ¬ (a < 0 ∨ (p.size : Int) ≤ a) := by
      rw [← Program.word?_eq_none_iff, hp]
      exact Option.some_ne_none w
    have hlt : a < (e.withProgram p).size := by
      show a < (p.size : Int)
      omega
    rw [word?, if_pos hlt]
    exact hp

/-- A block that begins inside the program or at its end does not reach beyond the end. -/
theorem le_size_of_block? {a : Int} {n : Nat} {ws : List Int} (h : block? e.word? a n = some ws)
    (ha : a ≤ e.size) : a + n ≤ e.size := by
  induction n generalizing a ws with
  | zero => simpa using ha
  | succ n ih =>
    obtain ⟨v, rest, hv, hrest, rfl⟩ := block?_succ_eq_some_iff.mp h
    -- There is a word here, so the next address is at most the end again.
    have hb := bounds_of_word? hv
    have hend := ih hrest (by omega)
    omega

/-- A fetch reads the word at the program counter and moves on. It moves first, which shows only
where the lookup fails: see `stranded`. -/
theorem fetch_of_word {w : Int} (h : e.word? e.pc = some w) :
    fetch e = .ok w { e with pc := e.pc + 1 } := by
  have hb := bounds_of_word? h
  obtain ⟨p, hp, hw⟩ := program_of_word? h
  have hpos : ¬ (e.pc < 0 ∨ (p.size : Int) ≤ e.pc) := by
    rw [← Program.word?_eq_none_iff, hw]
    exact Option.some_ne_none w
  simp only [fetch]
  rw [if_neg (by omega)]
  -- The address is one of the program, so the reading cannot count from the end.
  have hcontains : p.contains e.pc = true := by
    simp only [Program.contains, Bool.and_eq_true, decide_eq_true_eq]
    omega
  obtain ⟨v, hv, hread⟩ := Program.read_of_contains hcontains
  have hvw : v = w := by
    rw [Program.word?, if_pos hb.1, hv] at hw
    exact Option.some.inj hw
  simp only [hp, hread, hvw]

/-! ### Words that are not there -/

/-- Why a fetch at an address gives no word: the address is out of bounds, or it has passed the
check and the program has no such word. The second is the case only if the noted number is too
large. -/
def absence (e : Engine) (a : Int) : Fault :=
  if a < 0 ∨ e.size ≤ a then .outOfBounds a else .missingWord a

/-- Where such a fetch leaves the program counter, which moves on once the address has passed the
check. -/
def stranded (e : Engine) (a : Int) : Int := if a < 0 ∨ e.size ≤ a then a else a + 1

/-- A fetch of a word that is not there is refused. Whether the program counter has moved then
depends on which of the two, the check or the lookup, has refused. -/
theorem fetch_of_none (h : e.word? e.pc = none) :
    fetch e = .error (e.absence e.pc) { e with pc := e.stranded e.pc } := by
  simp only [fetch, absence, stranded]
  by_cases hout : e.pc < 0 ∨ (e.size : Int) ≤ e.pc
  · rw [if_pos hout, if_pos hout, if_pos hout]
  · rw [if_neg hout, if_neg hout, if_neg hout]
    cases hp : e.program with
    | none => rfl
    | some p =>
      simp only [word?, hp, Option.bind_some, if_pos (show e.pc < e.size by omega)] at h
      -- The program has no word there, so that its own lookup fails.
      have hbeyond := Program.word?_eq_none_iff.mp h
      have hread : p.read e.pc = .error (.missingWord e.pc) := Program.read_of_le (by omega)
      simp only [hread]

/-- An address that is out of bounds is named by the fault, and the program counter stays there.
The other reason for an absence is a noted size that exceeds the program. -/
theorem absence_of_outside {a : Int} (h : a < 0 ∨ e.size ≤ a) :
    e.absence a = .outOfBounds a ∧ e.stranded a = a := by
  unfold absence stranded
  rw [if_pos h, if_pos h]
  exact ⟨rfl, rfl⟩

/-- In a sized engine, a word that is not there is out of bounds. The second reason for an absence,
a size that exceeds the program, does not exist there. -/
theorem Sized.absence (h : e.Sized) {a : Int} (hnone : e.word? a = none) :
    e.absence a = .outOfBounds a ∧ e.stranded a = a :=
  absence_of_outside (h.word?_eq_none_iff.mp hnone)

/-- An absence that belongs to the taxonomy is that the address is out of bounds. The other
absence, a lookup that fails, leaves the phase of a run alone. -/
theorem outside_of_isClassified_absence {a : Int} (h : (e.absence a).isClassified = true) :
    a < 0 ∨ e.size ≤ a := by
  unfold Engine.absence at h
  split at h
  · assumption
  · cases h

/-- No sink has a part in an absence, so a fetch is never refused for the sake of one. Couplings
whose engines part at a sink only need this. -/
theorem absence_ne_refused (e : Engine) (a : Int) :
    e.absence a ≠ .outputRefused ∧ e.absence a ≠ .traceRefused := by
  unfold absence
  split
  · exact ⟨nofun, nofun⟩
  · exact ⟨nofun, nofun⟩

/-- Engines that have noted the same number refuse a fetch alike. -/
theorem absence_congr {s t : Engine} {a b : Int} (hsize : s.size = t.size) (hab : a = b) :
    s.absence a = t.absence b ∧ s.stranded a = t.stranded b := by
  subst hab
  unfold absence stranded
  rw [hsize]
  exact ⟨rfl, rfl⟩

/-- A block is fetched word by word, and the program counter moves behind it. The block has been
looked up without changing the engine, and this is where the two ways to read meet. -/
theorem fetchMany_of_block {n : Nat} {ws : List Int} (h : block? e.word? e.pc n = some ws) :
    fetchMany n e = .ok ws { e with pc := e.pc + n } := by
  induction n generalizing e ws with
  | zero =>
    cases h
    show EStateM.Result.ok _ e = _
    simp
  | succ n ih =>
    obtain ⟨w, rest, hw, hrest, rfl⟩ := block?_succ_eq_some_iff.mp h
    have hnext := ih (e := { e with pc := e.pc + 1 }) hrest
    simp only [fetchMany]
    rw [bind_of_ok (fetch_of_word hw), bind_of_ok hnext]
    show EStateM.Result.ok _ { e with pc := e.pc + 1 + n } = _
    rw [show e.pc + 1 + (n : Int) = e.pc + (n + 1 : Nat) by omega]

/-- The operand of an instruction that is cut short is not fetched. The program counter has moved
behind the opcode by then. -/
theorem fetchMany_of_cut {i : Instr} (h : e.decoded = .cut i) :
    fetchMany i.arity { e with pc := e.pc + 1 }
      = .error (e.absence (e.pc + 1)) { e with pc := e.stranded (e.pc + 1) } := by
  obtain ⟨harity, hnone⟩ := arity_of_cut h
  rw [harity]
  exact bind_of_error (fetch_of_none (e := { e with pc := e.pc + 1 }) hnone)

/-! ### What a turn does -/

/-- The registers of an engine. -/
def registers (e : Engine) : Registers := ⟨e.pc, e.origin, e.opcode, e.params, e.phase⟩

/-- The engine with other registers. -/
def assign (e : Engine) (r : Registers) : Engine :=
  { e with
    pc := r.pc, origin := r.origin, opcode := r.opcode, params := r.params, phase := r.phase }

/-- The state after an opcode was read. -/
def opened (e : Engine) (opcode : Int) : Engine :=
  { e with phase := .fetching, origin := e.pc, pc := e.pc + 1, opcode }

/-- The state from which an instruction is performed: its words were read, and its effect is
still to come. -/
def loaded (e : Engine) (i : Instr) (params : List Int) : Engine :=
  { e with
    phase := .executing, origin := e.pc, pc := e.pc + 1 + i.arity, opcode := i.opcode, params }

/-- The text under which an instruction with its operands is announced. -/
def described (i : Instr) (params : List Int) : String :=
  if i.arity = 0 then i.mnemonic else i.mnemonic ++ " " ++ Numeral.decimal (params.headD 0)

/-- The state in which a fault leaves a run. -/
def faulted (e : Engine) (f : Fault) : Engine :=
  if f.isClassified then { e with phase := .errored } else e

/-- A fault touches the phase at most. Proofs cite this instead of asking whether the fault is
classified. -/
theorem exists_faulted_eq (e : Engine) (f : Fault) : ∃ phase, e.faulted f = { e with phase } := by
  unfold faulted
  split
  · exact ⟨.errored, rfl⟩
  · exact ⟨e.phase, rfl⟩

/-- What was written stays. -/
theorem output_faulted (e : Engine) (f : Fault) : (e.faulted f).output = e.output := by
  obtain ⟨_, hphase⟩ := e.exists_faulted_eq f
  rw [hphase]

/-- The return stack stays. -/
theorem returns_faulted (e : Engine) (f : Fault) : (e.faulted f).returns = e.returns := by
  obtain ⟨_, hphase⟩ := e.exists_faulted_eq f
  rw [hphase]

/-- The opcode stays. -/
theorem opcode_faulted (e : Engine) (f : Fault) : (e.faulted f).opcode = e.opcode := by
  obtain ⟨_, hphase⟩ := e.exists_faulted_eq f
  rw [hphase]

/-- The outcome of a turn that comes down to one action. -/
def concluded (o : Outcome) : EStateM.Result Fault Engine Unit → Outcome × Engine
  | .ok _ e => (o, e)
  | .error f e => (.failed f, e.faulted f)

/-- Where no word can be fetched, nothing is read. The origin is set by then, and the phase too if
the fault leaves it alone. -/
theorem turn_of_outside (h : e.decoded = .outside) :
    e.turn = (.failed (e.absence e.pc),
      faulted { e with phase := .fetching, origin := e.pc, pc := e.stranded e.pc }
        (e.absence e.pc)) := by
  -- The words do not depend on the registers that are set before the fetch.
  have hw : word? { e with phase := .fetching, origin := e.pc } e.pc = none :=
    decode_eq_outside_iff.mp h
  simp only [turn, cycle]
  rw [modify_bind, bind_of_error (fetch_of_none hw)]
  rfl

/-- The first half of every turn that reads an opcode: it is fetched and noted, and what follows
depends on the instruction that it names. -/
private theorem cycle_of_word {w : Int} (h : e.word? e.pc = some w) :
    cycle e = (match Instr.ofOpcode? w with
      | none => throw (.unknownOpcode w)
      | some .halt => do
        announce .halt
        modify fun e => { e with phase := .halted }
        pure false
      | some i => do
        let params ← fetchMany i.arity
        modify fun e => { e with params, phase := .executing }
        decodeExec
        pure true : Action Bool) (e.opened w) := by
  have hw : word? { e with phase := .fetching, origin := e.pc } e.pc = some w := h
  simp only [cycle]
  rw [modify_bind, bind_of_ok (fetch_of_word hw), modify_bind]
  rfl

/-- A word that names no instruction is read, and nothing after it: its number of operands is not
known. -/
theorem turn_of_unknown {w : Int} (h : e.decoded = .unknown w) :
    e.turn = (.failed (.unknownOpcode w), { e.opened w with phase := .errored }) := by
  obtain ⟨hw, hnone⟩ := decode_eq_unknown_iff.mp h
  simp only [turn]
  rw [cycle_of_word hw, hnone]
  rfl

/-- An instruction that is cut short has been read when its operand turns out to be missing: the
opcode is set, the operands are still those of the instruction before, and the fault is about the
address of the operand. -/
theorem turn_of_cut {i : Instr} (h : e.decoded = .cut i) :
    e.turn = (.failed (e.absence (e.pc + 1)),
      faulted { e.opened i.opcode with pc := e.stranded (e.pc + 1) }
        (e.absence (e.pc + 1))) := by
  obtain ⟨hw, hblock⟩ := decode_eq_cut_iff.mp h
  have hmany : fetchMany i.arity (e.opened i.opcode)
      = .error (e.absence (e.pc + 1)) { e.opened i.opcode with pc := e.stranded (e.pc + 1) } := by
    obtain ⟨harity, hnone⟩ := arity_of_cut h
    rw [harity]
    exact bind_of_error (fetch_of_none (e := e.opened i.opcode) hnone)
  simp only [turn]
  rw [cycle_of_word hw, ofOpcode?_opcode]
  -- A stop has no operands, so it is never cut short.
  cases i with
  | halt => cases hblock
  | _ =>
    simp only []
    rw [bind_of_error hmany]
    rfl

/-- A stop is only announced, and then sets the phase. It is told apart before any operand is read,
so no effect and no change of the operands are part of it. -/
theorem turn_of_halt {params : List Int} (h : e.decoded = .ready .halt params) :
    e.turn = concluded .halted
      ((do announce .halt; modify fun e => { e with phase := .halted } : Action Unit)
        (e.opened Instr.halt.opcode)) := by
  obtain ⟨hw, _⟩ := decode_eq_ready_iff.mp h
  simp only [turn]
  rw [cycle_of_word hw, ofOpcode?_opcode]
  simp only []
  -- Both sides begin with the announcement; what follows it never fails.
  cases hann : announce .halt (e.opened Instr.halt.opcode) with
  | ok _ s =>
    rw [bind_of_ok hann, bind_of_ok hann]
    rfl
  | error f s =>
    rw [bind_of_error hann, bind_of_error hann]
    rfl

/-- Any other instruction is announced and then takes effect, with its operands at hand and the
program counter behind them. -/
theorem turn_of_ready {i : Instr} {params : List Int} (h : e.decoded = .ready i params)
    (hi : i ≠ .halt) :
    e.turn = concluded .running ((do announce i; effect i : Action Unit) (e.loaded i params)) := by
  obtain ⟨hw, hblock⟩ := decode_eq_ready_iff.mp h
  have hmany : fetchMany i.arity (e.opened i.opcode) = .ok params _ :=
    fetchMany_of_block (e := e.opened i.opcode) hblock
  -- The opcode is looked up once more, and names the same instruction.
  have hdecode : decodeExec (e.loaded i params)
      = (do announce i; effect i : Action Unit) (e.loaded i params) := by
    have hopcode : Instr.ofOpcode? (e.loaded i params).opcode = some i := ofOpcode?_opcode i
    simp only [decodeExec]
    rw [get_bind]
    simp only [hopcode, perform, if_neg hi]
  have hcycle : cycle e = (do decodeExec; pure true : Action Bool) (e.loaded i params) := by
    rw [cycle_of_word hw, ofOpcode?_opcode]
    cases i with
    | halt => exact absurd rfl hi
    | _ =>
      simp only []
      rw [bind_of_ok hmany, modify_bind]
      rfl
  simp only [turn]
  rw [hcycle]
  cases hrun : decodeExec (e.loaded i params) with
  | ok _ s =>
    rw [← hdecode, hrun, bind_of_ok hrun]
    rfl
  | error f s =>
    rw [← hdecode, hrun, bind_of_error hrun]
    rfl

/-! ### Announcements -/

/-- An engine that does not trace announces nothing, whatever its monitor is. In particular no
missing operand is noticed then. -/
theorem announce_of_not_tracing (h : e.tracing = false) (i : Instr) :
    announce i e = .ok () e := by
  show (do if (← get).tracing then _ : Action Unit) e = _
  rw [get_bind, h]
  rfl

/-- An engine that traces announces an instruction with its operand, if the operand is there.
Without it the engine fails before it tells the monitor anything. -/
theorem announce_of_tracing (h : e.tracing = true) {i : Instr} (hi : i.arity ≤ e.params.length) :
    announce i e = trace (described i e.params) e := by
  have hdescribe : describe i e = .ok (described i e.params) e := by
    simp only [describe, described]
    by_cases harity : i.arity = 0
    · rw [if_pos harity, if_pos harity]
      rfl
    · rw [if_neg harity, if_neg harity]
      cases hp : e.params with
      | nil =>
        -- No operand although the instruction has one: excluded by the arity.
        rw [hp] at hi
        exact absurd (Nat.le_zero.mp hi) harity
      | cons v _ =>
        rw [bind_of_ok (operand_of_cons hp)]
        rfl
  show (do if (← get).tracing then _ : Action Unit) e = _
  rw [get_bind, if_pos h, bind_of_ok hdescribe]

/-- An announcement changes the monitor at most, and nothing if its line is refused. Most
invariants ignore the monitor and need no more than this. -/
theorem announce_cases {i : Instr} (hi : i.arity ≤ e.params.length) :
    (∃ m, announce i e = .ok () { e with monitor := m }) ∨
      (e.tracing = true ∧ announce i e = .error .traceRefused e) := by
  by_cases ht : e.tracing = true
  · rw [announce_of_tracing ht hi, trace]
    cases e.monitor.lines.write (e.line (described i e.params)) with
    | some lines => exact .inl ⟨{ e.monitor with lines }, rfl⟩
    | none => exact .inr ⟨ht, rfl⟩
  · exact .inl ⟨e.monitor, announce_of_not_tracing (Bool.eq_false_iff.mpr ht) i⟩

/-- The operands of a loaded instruction are all at hand, so no run is refused for a missing
operand. -/
theorem arity_le_of_ready {i : Instr} {params : List Int} (h : e.decoded = .ready i params) :
    i.arity ≤ (e.loaded i params).params.length :=
  Nat.le_of_eq (length_of_block? (decode_eq_ready_iff.mp h).2).symm

/-- A stop halts the run, unless its announcement is refused. Either way the stacks and the output
are as they were. -/
theorem turn_cases_of_halt {params : List Int} (h : e.decoded = .ready .halt params) :
    (∃ m, announce .halt (e.opened Instr.halt.opcode)
        = .ok () { e.opened Instr.halt.opcode with monitor := m } ∧
      e.turn = (.halted, { e.opened Instr.halt.opcode with monitor := m, phase := .halted })) ∨
    (announce .halt (e.opened Instr.halt.opcode)
        = .error .traceRefused (e.opened Instr.halt.opcode) ∧
      e.turn = (.failed .traceRefused, (e.opened Instr.halt.opcode).faulted .traceRefused)) := by
  rw [turn_of_halt h]
  rcases announce_cases (e := e.opened Instr.halt.opcode) (i := .halt) (Nat.zero_le _) with
    ⟨m, hm⟩ | ⟨_, herror⟩
  · rw [bind_of_ok hm]
    exact .inl ⟨m, hm, rfl⟩
  · rw [bind_of_error herror]
    exact .inr ⟨herror, rfl⟩

/-- An instruction with its operands takes effect, unless its announcement is refused. This is
`turn_of_ready` with the announcement worked out. -/
theorem turn_cases_of_ready {i : Instr} {params : List Int} (h : e.decoded = .ready i params)
    (hi : i ≠ .halt) :
    (∃ m, announce i (e.loaded i params) = .ok () { e.loaded i params with monitor := m } ∧
      e.turn = concluded .running (effect i { e.loaded i params with monitor := m })) ∨
    (announce i (e.loaded i params) = .error .traceRefused (e.loaded i params) ∧
      e.turn = (.failed .traceRefused, (e.loaded i params).faulted .traceRefused)) := by
  rw [turn_of_ready h hi]
  rcases announce_cases (arity_le_of_ready h) with ⟨m, hm⟩ | ⟨_, herror⟩
  · rw [bind_of_ok hm]
    exact .inl ⟨m, hm, rfl⟩
  · rw [bind_of_error herror]
    exact .inr ⟨herror, rfl⟩

/-! ### Calls and returns -/

/-- A call pushes the program counter, and only then goes to its operand. A jump that is refused
has pushed its address already. -/
theorem effect_call {x : Int} {o : Stack} (hparams : e.params = [x])
    (hpush : e.returns.push e.pc = .ok o) : effect .call e = jump x { e with returns := o } := by
  show (do pushReturn e.pc; let a ← operand; jump a : Action Unit) e = _
  rw [bind_of_ok (pushReturn_of_ok hpush)]
  -- The push has left the operands alone.
  have hoperand : operand { e with returns := o } = .ok x { e with returns := o } :=
    operand_of_cons hparams
  rw [bind_of_ok hoperand]

/-- A call with no slot left for its address is refused before it looks at its operand. The order
matters where both are missing. -/
theorem effect_call_of_full {f : Fault} (hpush : e.returns.push e.pc = .error f) :
    effect .call e = .error f e := by
  show (do pushReturn e.pc; let a ← operand; jump a : Action Unit) e = _
  rw [bind_of_error (pushReturn_of_error hpush)]

/-- A return pops an address, and only then goes there. An address out of bounds is off the stack
when the jump is refused. -/
theorem effect_ret {a : Int} {o : Stack} (hpop : e.returns.pop = .ok (a, o)) :
    effect .ret e = jump a { e with returns := o } := by
  show (do let a ← popReturn; jump a : Action Unit) e = _
  rw [bind_of_ok (popReturn_of_ok hpop)]

/-- A return without an address to pop is refused. -/
theorem effect_ret_of_empty {f : Fault} (hpop : e.returns.pop = .error f) :
    effect .ret e = .error f e := by
  show (do let a ← popReturn; jump a : Action Unit) e = _
  rw [bind_of_error (popReturn_of_error hpop)]

/-! ### Runs as repeated turns -/

/-- A run with a known outcome, as a pair. Where the outcome is evaluated, this spares the
evaluation of the state. -/
theorem runFor_of_outcome {n : Nat} {o : Outcome} (h : (e.runFor n).1 = o) :
    e.runFor n = (o, (e.runFor n).2) :=
  Prod.ext h rfl

/-- A turn with a known outcome, as a pair. -/
theorem turn_of_outcome {o : Outcome} (h : e.turn.1 = o) : e.turn = (o, e.turn.2) :=
  Prod.ext h rfl

/-- A run of one iteration is a turn. -/
theorem runFor_one (e : Engine) : runFor 1 e = e.turn := by
  simp only [runFor]
  cases e.turn with
  | mk o s => cases o <;> rfl

/-- One more iteration of a run that goes on is a turn from the state it has reached. So a run can
be extended at its end, while `runFor` is defined from its beginning. -/
theorem runFor_succ_of_running {n : Nat} {s : Engine} (h : e.runFor n = (.running, s)) :
    e.runFor (n + 1) = s.turn := by
  rw [runFor_add_of_running 1 h, runFor_one]

/-- A run that has ended is in that state after any longer time. So an ending may be stated without
the length of the run, as `EndsIn` does. -/
theorem runFor_of_ended_of_le {m n : Nat} {o : Outcome} {s : Engine} (h : e.runFor m = (o, s))
    (ho : o ≠ .running) (hmn : m ≤ n) : e.runFor n = (o, s) := by
  rw [← Nat.add_sub_cancel' hmn]
  exact runFor_add_of_ended (n - m) h ho

/-- What holds before a run, and after a turn whenever it held before it, holds after any
number of iterations. -/
theorem runFor_induction {P : Outcome × Engine → Prop} (zero : P (.running, e))
    (turn : ∀ s, P (.running, s) → P s.turn) (n : Nat) : P (e.runFor n) := by
  -- The count goes up at the end of the run, so that the last turn starts where the rest ended.
  induction n with
  | zero => exact zero
  | succ n ih =>
    cases hrun : e.runFor n with
    | mk o s =>
      rw [hrun] at ih
      by_cases ho : o = .running
      · subst ho
        rw [runFor_succ_of_running hrun]
        exact turn s ih
      · rw [runFor_add_of_ended 1 hrun ho]
        exact ih

/-- A fresh engine with that program, watched or not. -/
def callLetter (live : Bool) : Engine :=
  (ofStacks Sink.unlimited ⟨live, Sink.unlimited⟩ (Stack.empty 4) (Stack.empty 2)).withProgram
    Program.callLetter

end Engine

end StackMachine
