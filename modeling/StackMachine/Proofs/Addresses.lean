import StackMachine.Engine.Command
import StackMachine.Proofs.Progress
import StackMachine.Proofs.Reachable

/-!
# `StackMachine.Proofs.Addresses`: which addresses a driven engine has

A host may load programs at any time, put any integer into the program counter, and call any
action in between. Addresses are checked in three places. A fetch checks the program counter and a
jump checks its target, both against the number of words that was noted at the last load, and
`Program.contains` checks for a caller, against the words themselves. What is read after such a
check is not checked again, and an index below zero would count from the end.

The three agree as long as the noted number is the right one. No field guards it: that it is right
is an invariant of whatever a host does with an engine that was fresh at first.

- `Holds ws e`: the program of `e` is made of the integers `ws`, and their number is noted.
- `Orderly a`: the action `a` keeps that, and does not look up a word where there is none.
  `orderly_obey` says so of all commands but loads.
- `holds_session` follows these integers through a session.
- `addresses_of_session` says what this means for addresses.
-/

set_option autoImplicit false

namespace StackMachine

/-- The cause is not the lookup of a word that is not there. -/
def Fault.Checked (f : Fault) : Prop := ∀ a, f ≠ .missingWord a

/-- The addresses of a program begin at zero and end before its size. The third of the three checks
is put into the form of the other two by it. -/
private theorem Program.contains_iff {p : Program} {a : Int} :
    p.contains a = true ↔ 0 ≤ a ∧ a < p.size := by
  simp [contains]

namespace Engine

/-! ### Actions that leave the program alone -/

section

variable {I : Engine → Prop} {F : Fault → Prop}

/-- An operand that may be missing. The contract of runs (`sound_operand`) takes it to be at hand,
which a host does not guarantee. -/
private theorem keeps_operand (hf : F .missingOperand) : Keeps I F Any operand := by
  intro s hs
  simp only [operand]
  cases s.params with
  | nil => exact .error hf hs
  | cons v rest => exact .ok trivial hs

/-- A trace changes the monitor at most. -/
private theorem keeps_trace (hf : F .traceRefused)
    (hset : ∀ s m, I s → I { s with monitor := m }) (text : String) :
    Keeps I F Any (trace text) := by
  intro s hs
  simp only [trace]
  split
  · exact .ok trivial (hset s _ hs)
  · exact .error hf hs

/-- A fetch moves the program counter at most. Why it may be refused depends on the state, so that
the invariant may exclude the lookup of a word that is not there. -/
private theorem keeps_fetch (hf : ∀ s a, I s → s.word? a = none → F (s.absence a))
    (hset : ∀ s a, I s → I { s with pc := a }) : Keeps I F Any fetch := by
  intro s hs
  cases hw : s.word? s.pc with
  | none =>
    rw [fetch_of_none hw]
    exact .error (hf s s.pc hs hw) (hset s _ hs)
  | some w =>
    rw [fetch_of_word hw]
    exact .ok trivial (hset s _ hs)

/-- Several fetches do no more than that. -/
private theorem keeps_fetchMany (hf : ∀ s a, I s → s.word? a = none → F (s.absence a))
    (hset : ∀ s a, I s → I { s with pc := a }) (n : Nat) : Keeps I F Any (fetchMany n) := by
  induction n with
  | zero => exact keeps_pure trivial
  | succ n ih =>
    exact (keeps_fetch hf hset).bind fun w _ => ih.bind fun ws _ => keeps_pure trivial

end

/-- The program of the engine is made of these integers, and it is their number that was noted.
Without any integers, there is no program. -/
structure Holds (ws : List Int) (e : Engine) : Prop where
  program : e.program = (Program.ofInts ws).toOption
  size : e.size = ws.length

section

variable {ws : List Int} {e : Engine}

/-- A program that integers make is held, with their number, by every engine that it is put into.
-/
theorem holds_of_ofInts {vs : List Int} {p : Program} (h : Program.ofInts vs = .ok p)
    (e : Engine) : Holds vs (e.withProgram p) where
  program := by rw [h]; rfl
  size := by
    show p.size = vs.length
    rw [← Program.length_toList, Program.toList_of_ofInts h, List.length_map]

/-- Without integers there is no program, and only then: a program has a word at least. -/
private theorem Holds.none_iff (h : Holds ws e) : e.program = none ↔ ws = [] := by
  rw [h.program]
  cases hp : Program.ofInts ws with
  | ok p =>
    constructor
    · intro hnone
      cases hnone
    · rintro rfl
      cases hp
  | error f => exact ⟨fun _ => (Program.ofInts_eq_error_iff.mp hp).1, fun _ => rfl⟩

/-- The words of the program are the integers, wrapped. -/
private theorem Holds.toList (h : Holds ws e) {p : Program} (hp : e.program = some p) :
    p.toList = ws.map Word.wrap := by
  rw [h.program] at hp
  cases hmade : Program.ofInts ws with
  | ok q =>
    rw [hmade] at hp
    cases hp
    exact Program.toList_of_ofInts hmade
  | error f =>
    rw [hmade] at hp
    cases hp

/-- The words that the engine has are these integers, wrapped. Without a program there are none of
either, so no case is left out. -/
private theorem Holds.words (h : Holds ws e) : e.words = ws.map Word.wrap := by
  cases hp : e.program with
  | none => rw [Engine.words, hp, h.none_iff.mp hp, List.map_nil]
  | some p =>
    rw [Engine.words, hp]
    exact h.toList hp

/-- Such an engine is sized, whether it holds a program or not. This is what an action may rely on
when it looks up a word, and what makes the noted number of words the right bound. -/
theorem Holds.sized (h : Holds ws e) : e.Sized := by
  rw [Sized, h.size, h.words, List.length_map]

/-- The words are not read where there are none, since the number that is checked is the right one.
-/
private theorem Holds.checked_absence (h : Holds ws e) {a : Int} (hnone : e.word? a = none) :
    (e.absence a).Checked := by
  rw [(h.sized.absence hnone).1]
  exact nofun

/-- An engine with the same program and the same number holds the same integers. Most commands
leave both alone, and need no more than this. -/
theorem Holds.congr {s : Engine} (h : Holds ws e) (hprogram : s.program = e.program)
    (hsize : s.size = e.size) : Holds ws s :=
  ⟨hprogram.trans h.program, hsize.trans h.size⟩

end

/-- Whatever integers the program is made of, the action keeps them with their number, and every
word that it looks up is there. -/
def Orderly {α : Type} (a : Action α) : Prop := ∀ ws, Keeps (Holds ws) Fault.Checked Any a

/-- No action that instructions are made of touches the program or the noted number. What is left
to the commands is how they put these actions together. -/
private theorem contract_holds (ws : List Int) : Contract (Holds ws) Fault.Checked Any Any where
  push _ _ := keeps_push nofun fun _ _ h _ => h.congr rfl rfl
  pop := keeps_pop nofun fun _ _ _ h _ => ⟨trivial, h.congr rfl rfl⟩
  pushReturn _ _ := keeps_pushReturn nofun fun _ _ h _ => h.congr rfl rfl
  popReturn := keeps_popReturn nofun fun _ _ _ h _ => ⟨trivial, h.congr rfl rfl⟩
  emit _ := keeps_emit (fun _ _ _ => nofun) fun _ _ h _ => h.congr rfl rfl
  jump _ := keeps_jump nofun fun _ h _ _ => h.congr rfl rfl
  operand _ h hne := sound_operand h hne fun _ _ => trivial
  add _ _ _ _ := trivial

section

variable {α β : Type}

/-- Orderly actions are orderly one after the other. -/
private theorem Orderly.bind {a : Action α} {k : α → Action β} (h : Orderly a)
    (hk : ∀ v, Orderly (k v)) :
    Orderly (a >>= k) :=
  fun ws => (h ws).bind fun v _ => hk v ws

/-- An action that does nothing is orderly. -/
private theorem orderly_pure (v : α) : Orderly (pure v : Action α) := fun _ => keeps_pure trivial

/-- To look up an operand is orderly, be it there or not. -/
private theorem orderly_operand : Orderly operand := fun _ => keeps_operand nofun

/-- To trace is orderly. -/
private theorem orderly_trace (text : String) : Orderly (trace text) :=
  fun _ => keeps_trace nofun (fun _ _ h => h.congr rfl rfl) text

/-- A fetch relies on the noted number: behind the check, the word is there. Every command that
fetches comes down to this. -/
private theorem orderly_fetch : Orderly fetch := fun _ =>
  keeps_fetch (fun _ _ h hnone => h.checked_absence hnone) fun _ _ h => h.congr rfl rfl

/-- So do several fetches. -/
private theorem orderly_fetchMany (n : Nat) : Orderly (fetchMany n) := fun _ =>
  keeps_fetchMany (fun _ _ h hnone => h.checked_absence hnone) (fun _ _ h => h.congr rfl rfl) n

/-- An announcement may find its operand missing, which is another cause than a missing word. Runs
never get there, but a host may execute an opcode with no operands. -/
private theorem orderly_announce (i : Instr) : Orderly (announce i) := by
  have hdescribe : Orderly (describe i) := by
    unfold describe
    split
    · exact orderly_pure _
    · exact orderly_operand.bind fun v => orderly_pure _
  intro ws s hs
  by_cases ht : s.tracing = true
  · show Sound _ _ _ ((do if (← get).tracing then _ : Action Unit) s)
    rw [get_bind, if_pos ht]
    exact hdescribe.bind (fun text => orderly_trace text) ws s hs
  · rw [announce_of_not_tracing (Bool.eq_false_iff.mpr ht)]
    exact .ok trivial hs

/-- The effect of every instruction is orderly, with any operands or none. `Performs.effect` is
used and not `Contract.effect`, which is about operands that are at hand. -/
private theorem orderly_effect (i : Instr) : Orderly (effect i) := by
  intro ws s hs
  have K := contract_holds ws
  have hperforms : Performs i s (Holds ws) Fault.Checked Any Any := {
    operand := fun _ => orderly_operand ws
    push := fun _ => K.push
    pop := fun _ => K.pop
    sum := fun _ a b _ _ => K.push _ trivial
    emit := fun _ => K.emit
    jump := fun _ => K.jump
    pushReturn := fun _ => K.pushReturn s.pc trivial
    popReturn := fun _ => K.popReturn }
  exact hperforms.effect hs

/-- So is the execution of the present opcode. -/
private theorem orderly_decodeExec : Orderly decodeExec := by
  intro ws s hs
  unfold decodeExec
  rw [get_bind]
  cases Instr.ofOpcode? s.opcode with
  | none => exact .error nofun hs
  | some i =>
    show Sound _ _ _ (perform i s)
    unfold perform
    split
    · exact .ok trivial hs
    · exact (orderly_announce i).bind (fun _ => orderly_effect i) ws s hs

/-- So is the execution of any opcode with any operands. -/
private theorem orderly_execute (opcode : Int) (params : List Int) :
    Orderly (execute opcode params) := by
  intro ws s hs
  -- Both assignments come before everything else, and neither is one of the program.
  exact orderly_decodeExec ws { s with opcode, params } (hs.congr rfl rfl)

/-- A run is cut off with the program it has begun with. Runs are not actions, so they have a lemma
of their own beside `Orderly`. -/
private theorem ends_runFor {ws : List Int} {e : Engine} (h : Holds ws e) (n : Nat) :
    Contract.Ends (Holds ws) Fault.Checked (e.runFor n) :=
  (contract_holds ws).runFor (fun _ hs _ => hs.congr rfl rfl)
    (fun s i hs _ => orderly_announce i ws s hs) (fun _ _ hs hnone => hs.checked_absence hnone)
    (fun _ => nofun) h n

end

/-! ### Commands -/

/-- The answer tells of no lookup of a word that is not there. -/
def CheckedAnswer (answer : Except Fault Answer) : Prop := ∀ f, answer = .error f → f.Checked

section

variable {ws : List Int} {e : Engine}

/-- What a host asks of an orderly action keeps the integers, whatever the answer is. The answer is
checked, since a word that is not there is never among its causes. -/
private theorem Orderly.ask {α : Type} {a : Action α} (h : Orderly a) (answer : α → Answer)
    (hs : Holds ws e) :
    Holds ws (Engine.ask a answer e).2 ∧ CheckedAnswer (Engine.ask a answer e).1 := by
  have hsound := h ws e hs
  unfold Engine.ask
  generalize a e = r at hsound ⊢
  cases hsound with
  | ok _ ht => exact ⟨ht, nofun⟩
  | error hf ht =>
    refine ⟨ht, fun f hfault => ?_⟩
    cases hfault
    exact hf

/-- The same for a run. -/
private theorem orderly_askRun (n : Nat) (hs : Holds ws e) :
    Holds ws (askRun n e).2 ∧ CheckedAnswer (askRun n e).1 := by
  have hends := ends_runFor hs n
  unfold askRun
  generalize e.runFor n = r at hends ⊢
  obtain ⟨o, t⟩ := r
  cases o with
  | running | halted => exact ⟨hends.state, nofun⟩
  | failed f =>
    refine ⟨hends.state, fun g hfault => ?_⟩
    cases hfault
    exact hends.cause f rfl

/-- No command but a load changes the program or the noted number, and none looks up a word that is
not there. The commands are taken one by one; those that assign a field are the short cases. -/
theorem orderly_obey {c : Command} (hc : ∀ vs, c ≠ .load vs) (hs : Holds ws e) :
    Holds ws (obey c e).2 ∧ CheckedAnswer (obey c e).1 := by
  cases c with
  | load vs => exact absurd rfl (hc vs)
  | run n => exact orderly_askRun n hs
  | fetch => exact orderly_fetch.ask _ hs
  | loadParams n => exact (orderly_fetchMany n.toNat).ask _ hs
  | execute opcode params => exact (orderly_execute opcode params).ask _ hs
  | decodeExec => exact orderly_decodeExec.ask _ hs
  | jump a => exact Orderly.ask (fun ws => (contract_holds ws).jump a) _ hs
  | operand => exact orderly_operand.ask _ hs
  | push v => exact Orderly.ask (fun ws => (contract_holds ws).push v trivial) _ hs
  | pop => exact Orderly.ask (fun ws => (contract_holds ws).pop) _ hs
  | pushReturn a => exact Orderly.ask (fun ws => (contract_holds ws).pushReturn a trivial) _ hs
  | popReturn => exact Orderly.ask (fun ws => (contract_holds ws).popReturn) _ hs
  | trace text => exact (orderly_trace text).ask _ hs
  | setPc _ | setOpcode _ | setOrigin _ | setLive _ => exact ⟨hs.congr rfl rfl, nofun⟩

end

/-! ### Loads -/

/-- The integers that make up the program once a command is answered, if it was made of `ws`
before. A load that is refused replaces nothing. -/
def loadedBy (ws : List Int) : Command → Except Fault Answer → List Int
  | .load vs, .ok _ => vs
  | _, _ => ws

/-- The same for all the commands of a session. -/
def loadedAfter (ws : List Int) : List Command → List (Except Fault Answer) → List Int
  | c :: rest, answer :: answers => loadedAfter (loadedBy ws c answer) rest answers
  | _, _ => ws

section

variable {ws : List Int} {e : Engine}

/-- An empty load is refused, and changes nothing. -/
private theorem load_nil (e : Engine) : load [] e = .error .emptyProgram e := rfl

/-- A load of integers puts their program into the engine and notes its number of words. It is the
one command that changes either, so `Orderly` is about all the others. -/
theorem obey_load {vs : List Int} {p : Program} (h : Program.ofInts vs = .ok p) (e : Engine) :
    obey (.load vs) e = (.ok .done, e.withProgram p) := by
  simp only [obey, ask, load_of_ofInts h]

/-- A load puts its integers in place of those that were there, or is refused. Which of the two is
told by its answer, which is what `loadedBy` goes by. -/
private theorem holds_obey_load (h : Holds ws e) (vs : List Int) :
    Holds (loadedBy ws (.load vs) (obey (.load vs) e).1) (obey (.load vs) e).2 ∧
      CheckedAnswer (obey (.load vs) e).1 := by
  cases hp : Program.ofInts vs with
  | ok p =>
    rw [obey_load hp]
    exact ⟨holds_of_ofInts hp e, nofun⟩
  | error f =>
    obtain ⟨rfl, rfl⟩ := Program.ofInts_eq_error_iff.mp hp
    refine ⟨h, fun g hfault => ?_⟩
    cases hfault
    exact nofun

/-- One command, be it a load or not. This is the step of the induction over a session. -/
private theorem holds_obey (h : Holds ws e) (c : Command) :
    Holds (loadedBy ws c (obey c e).1) (obey c e).2 ∧ CheckedAnswer (obey c e).1 := by
  by_cases hload : ∃ vs, c = .load vs
  · obtain ⟨vs, rfl⟩ := hload
    exact holds_obey_load h vs
  · have hsame : loadedBy ws c (obey c e).1 = ws := by
      unfold loadedBy
      split
      · exact absurd ⟨_, rfl⟩ hload
      · rfl
    rw [hsame]
    exact orderly_obey (not_exists.mp hload) h

/-- A session, by induction on its commands: the engine holds the integers loaded last, which
follow the session as `loadedAfter` does, and every answer to a jump or a lookup is as
`CheckedAnswer` says. -/
theorem holds_session (h : Holds ws e) (cs : List Command) :
    Holds (loadedAfter ws cs (session e cs).1) (session e cs).2 ∧
      ∀ answer ∈ (session e cs).1, CheckedAnswer answer := by
  induction cs generalizing ws e with
  | nil => exact ⟨h, nofun⟩
  | cons c rest ih =>
    obtain ⟨hnext, hfirst⟩ := holds_obey h c
    obtain ⟨hlast, hrest⟩ := ih hnext
    refine ⟨hlast, fun answer hmem => ?_⟩
    rcases List.mem_cons.mp hmem with rfl | hmem
    · exact hfirst
    · exact hrest answer hmem

end

/-! ### Addresses -/

/-- The engine has a program, and the integer is one of its addresses. -/
def HasAddress (e : Engine) (a : Int) : Prop := ∃ p, e.program = some p ∧ p.contains a = true

/-- A fetch that looks up its word in a way of its own, after the same check. -/
def fetchBy (lookup : Option Program → Int → Except Fault Int) : Action Int := fun e =>
  if e.pc < 0 ∨ e.size ≤ e.pc then .error (.outOfBounds e.pc) e
  else
    match lookup e.program e.pc with
    | .ok w => .ok w { e with pc := e.pc + 1 }
    | .error f => .error f { e with pc := e.pc + 1 }

section

variable {e : Engine} {a : Int}

/-- In a sized engine, the noted number gives the addresses that the program itself claims to have.
-/
theorem Sized.hasAddress_iff (h : e.Sized) : e.HasAddress a ↔ 0 ≤ a ∧ a < e.size := by
  have hsize : e.size = e.words.length := h
  unfold HasAddress
  cases hp : e.program with
  | none =>
    -- The number is zero, so nothing passes the check.
    have hzero : e.size = 0 := by rw [hsize, words, hp]; rfl
    constructor
    · rintro ⟨p, hp', _⟩
      cases hp'
    · rintro ⟨hle, hlt⟩
      omega
  | some p =>
    have hlength : e.size = p.size := by rw [hsize, words, hp, ← p.length_toList]
    rw [hlength]
    constructor
    · rintro ⟨q, hq, hcontains⟩
      cases hq
      exact Program.contains_iff.mp hcontains
    · intro hin
      exact ⟨p, rfl, Program.contains_iff.mpr hin⟩

/-- A jump succeeds exactly to the addresses of the program. The jump itself compares with the
noted number, so this takes a sized engine. -/
private theorem Sized.jump_eq_ok_iff (h : e.Sized) :
    (∃ t, jump a e = .ok () t) ↔ e.HasAddress a := by
  rw [h.hasAddress_iff]
  constructor
  · rintro ⟨t, hjump⟩
    exact (jump_eq_ok hjump).1
  · intro hin
    exact ⟨{ e with pc := a }, if_neg (by omega)⟩

/-- So does a fetch. There the check and the lookup have to agree, or there would be addresses
behind the check without a word. -/
private theorem Sized.fetch_eq_ok_iff (h : e.Sized) :
    (∃ w t, fetch e = .ok w t) ↔ e.HasAddress e.pc := by
  rw [h.hasAddress_iff]
  cases hw : e.word? e.pc with
  | none =>
    have hbounds := h.word?_eq_none_iff.mp hw
    rw [fetch_of_none hw]
    constructor
    · rintro ⟨w, t, hfetch⟩
      cases hfetch
    · intro hin
      omega
  | some w =>
    rw [fetch_of_word hw]
    exact ⟨fun _ => bounds_of_word? hw, fun _ => ⟨w, _, rfl⟩⟩

/-- In a sized engine, a fetch looks up nothing but addresses of its program, so it makes no
difference what a lookup would give elsewhere. -/
private theorem Sized.fetchBy_eq_fetch {lookup : Option Program → Int → Except Fault Int}
    (hlookup : ∀ p a, p.contains a = true → lookup (some p) a = p.read a) (h : e.Sized) :
    fetchBy lookup e = fetch e := by
  unfold fetchBy fetch
  by_cases hout : e.pc < 0 ∨ (e.size : Int) ≤ e.pc
  · rw [if_pos hout, if_pos hout]
  · obtain ⟨p, hp, hcontains⟩ := (h.hasAddress_iff (a := e.pc)).mpr (by omega)
    obtain ⟨w, _, hread⟩ := Program.read_of_contains hcontains
    have hfound : lookup (some p) e.pc = .ok w := (hlookup p e.pc hcontains).trans hread
    rw [if_neg hout, if_neg hout]
    simp only [hp, hfound, hread]

variable {ws : List Int}

/-- The word at a place is the integer there, wrapped. Places are natural numbers, and behind the
last integer there is none. -/
theorem Holds.word? (h : Holds ws e) (n : Nat) : e.word? n = (ws[n]?).map Word.wrap := by
  rw [← List.getElem?_map, ← h.words]
  cases hw : e.word? n with
  | some w => exact (getElem?_words_of_word? hw).symm
  | none =>
    have hout := h.sized.word?_eq_none_iff.mp hw
    have hsize : e.size = e.words.length := h.sized
    exact (List.getElem?_eq_none (by omega)).symm

/-- The word at an address is the integer at its place, wrapped, and the fetch moves on by one. -/
private theorem Holds.fetch (h : Holds ws e) (ha : e.HasAddress a) :
    ∃ v, ws[a.toNat]? = some v ∧
      Engine.fetch { e with pc := a } = .ok (Word.wrap v) { e with pc := a + 1 } := by
  obtain ⟨hpos, hlt⟩ := h.sized.hasAddress_iff.mp ha
  rw [h.size] at hlt
  have hget : ws[a.toNat]? = some ws[a.toNat] := List.getElem?_eq_getElem (by omega)
  have hword : e.word? a = some (Word.wrap ws[a.toNat]) := by
    have hplace := h.word? a.toNat
    rwa [Int.toNat_of_nonneg hpos, hget] at hplace
  exact ⟨ws[a.toNat], hget, fetch_of_word (e := { e with pc := a }) hword⟩

end

/-- A fresh engine has no program, and zero is noted. The induction over a session begins here. -/
private theorem holds_nil_ofStacks (output : Sink Char) (monitor : Monitor)
    (operands returns : Stack) :
    Holds [] (ofStacks output monitor operands returns) := ⟨rfl, rfl⟩

/-- All addresses are checked alike. An engine can be made with stacks of any numbers of slots that
memory has room for. Let a host drive it by any commands, and let `ws` be the integers of the last
load that succeeded, or none if there was none. Then

- the noted number is that of the words of the program, which are `ws` wrapped; there is no program
  exactly if there are none;
- another load is refused if it is empty, and then changes nothing; otherwise it changes only the
  program and the noted number, which becomes that of its integers;
- for every integer `n`, a fetch at `n` succeeds, a jump to `n` succeeds, and the program contains
  `n`, or none of the three;
- a fetch at an address gives the word there and moves on by one;
- in no state with this program and this number, and so nowhere within the next command either, does
  it matter what looking up a word would give at other integers, or without a program;
- no command was answered with a word that is not there.

As the commands are any, this is so at every point between them. -/
theorem addresses_of_session {output : Sink Char} {monitor : Monitor} {c r : Nat} {memory : Memory}
    (hc : memory.hasRoom c) (hr : memory.hasRoom r) :
    ∃ e₀, Engine.new output monitor c r memory = .ok e₀ ∧ ∀ cs : List Command,
      let e := (session e₀ cs).2
      let ws := loadedAfter [] cs (session e₀ cs).1
      (e.Sized ∧ e.size = ws.length ∧ (e.program = none ↔ ws = []) ∧
        ∀ p, e.program = some p → p.toList = ws.map Word.wrap) ∧
      (load [] e = .error .emptyProgram e ∧
        ∀ vs, vs ≠ [] → ∃ p, p.toList = vs.map Word.wrap ∧
          load vs e = .ok () { e with program := some p, size := vs.length }) ∧
      (∀ n : Int,
        ((∃ w t, fetch { e with pc := n } = .ok w t) ↔ e.HasAddress n) ∧
        ((∃ t, jump n e = .ok () t) ↔ e.HasAddress n) ∧
        (e.HasAddress n → ∃ v, ws[n.toNat]? = some v ∧
          fetch { e with pc := n } = .ok (Word.wrap v) { e with pc := n + 1 })) ∧
      (∀ lookup : Option Program → Int → Except Fault Int,
        (∀ p a, p.contains a = true → lookup (some p) a = p.read a) →
        ∀ s : Engine, s.program = e.program → s.size = e.size → fetchBy lookup s = fetch s) ∧
      ∀ answer ∈ (session e₀ cs).1, CheckedAnswer answer := by
  refine ⟨_, new_of_hasRoom hc hr, fun cs => ?_⟩
  intro e ws
  have hfresh := holds_nil_ofStacks output monitor (Stack.empty c) (Stack.empty r)
  obtain ⟨hholds, hanswers⟩ := holds_session hfresh cs
  have hload (vs : List Int) (hne : vs ≠ []) : ∃ p, p.toList = vs.map Word.wrap ∧
      load vs e = .ok () { e with program := some p, size := vs.length } := by
    obtain ⟨p, hp⟩ := Program.exists_ofInts hne
    refine ⟨p, Program.toList_of_ofInts hp, ?_⟩
    rw [load_of_ofInts hp, ← (holds_of_ofInts hp e).size]
    rfl
  have hat (n : Int) : Sized { e with pc := n } := hholds.sized
  exact ⟨⟨hholds.sized, hholds.size, hholds.none_iff, fun p hp => hholds.toList hp⟩,
    ⟨load_nil e, hload⟩,
    fun n => ⟨(hat n).fetch_eq_ok_iff, hholds.sized.jump_eq_ok_iff, hholds.fetch⟩,
    fun lookup hlookup s hprogram hsize =>
      Sized.fetchBy_eq_fetch hlookup (hholds.congr hprogram hsize).sized,
    hanswers⟩

/-- Between two loads, of which the second is refused, a host goes to an address below zero, to the
last address, and beyond it. Where memory has no end, the operand stack may have more slots than a
word can count. -/
theorem addresses_of_session_twoLoads : ∃ e₀ : Engine,
    Engine.new Sink.unlimited ⟨false, Sink.unlimited⟩ 5000000000 2 = .ok e₀ ∧
    let cs : List Command :=
      [.fetch, .load [1, 4294967295], .setPc (-1), .fetch, .load [], .jump 2, .jump 1, .run 3]
    let e := (session e₀ cs).2
    (session e₀ cs).1 =
      [.error (.outOfBounds 0), .ok .done, .ok .done, .error (.outOfBounds (-1)),
        .error .emptyProgram, .error (.jumpOutOfBounds 2), .ok .done,
        .error (.unknownOpcode (-1))] ∧
    e.size = 2 ∧ ¬ e.HasAddress (-1) ∧ ¬ e.HasAddress 2 ∧
    fetch { e with pc := 1 } = .ok (-1) { e with pc := 2 } ∧
    (∃ t, jump 1 e = .ok () t) ∧ ¬ ∃ t, jump (-1) e = .ok () t := by
  have hall (n : Nat) : Memory.unlimited.hasRoom n := rfl
  obtain ⟨e₀, hnew, hsession⟩ := @addresses_of_session Sink.unlimited ⟨false, Sink.unlimited⟩
    _ _ _ (hall 5000000000) (hall 2)
  refine ⟨e₀, hnew, ?_⟩
  intro cs e
  have hanswers : (session e₀ cs).1 =
      [.error (.outOfBounds 0), .ok .done, .ok .done, .error (.outOfBounds (-1)),
        .error .emptyProgram, .error (.jumpOutOfBounds 2), .ok .done,
        .error (.unknownOpcode (-1))] := by
    cases (new_of_hasRoom (hall 5000000000) (hall 2)).symm.trans hnew
    rfl
  obtain ⟨⟨hsized, hsize, _, _⟩, _, haddresses, _, _⟩ := hsession cs
  have hloaded : loadedAfter [] cs (session e₀ cs).1 = [1, 4294967295] := by
    rw [hanswers]
    rfl
  rw [hloaded] at hsize haddresses
  have htwo : e.size = 2 := hsize
  have hbounds (n : Int) : e.HasAddress n ↔ 0 ≤ n ∧ n < 2 := by
    have hiff : e.HasAddress n ↔ 0 ≤ n ∧ n < e.size := hsized.hasAddress_iff
    rwa [htwo] at hiff
  have hbelow : ¬ e.HasAddress (-1) := by
    rw [hbounds]
    decide
  have hbeyond : ¬ e.HasAddress 2 := by
    rw [hbounds]
    decide
  have hlast : e.HasAddress 1 := (hbounds 1).mpr (by decide)
  obtain ⟨v, hv, hfetch⟩ := (haddresses 1).2.2 hlast
  cases hv
  have hjump : ∃ t, jump 1 e = .ok () t := (haddresses 1).2.1.mpr hlast
  have hrefused : ¬ ∃ t, jump (-1) e = .ok () t := fun h => hbelow ((haddresses (-1)).2.1.mp h)
  exact ⟨hanswers, htwo, hbelow, hbeyond, hfetch, hjump, hrefused⟩

end Engine

end StackMachine
