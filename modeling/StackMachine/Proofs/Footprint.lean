import StackMachine.Proofs.Contract
import StackMachine.Proofs.Coupling

/-!
# `StackMachine.Proofs.Footprint`: the words that a run reads

A run depends on its program only through the words that it fetches, and through where the
program ends if it runs into that end. `fetched` collects the addresses of these words along a
run, as opcodes or as operands: words may overlap, and the same word may serve as both.

- `decode_of_fetched`: the words that an iteration fetches decide what it decodes.
- `coupling_swapped`: after the decoding, the program matters only to jumps that leave it.
- `runFor_withProgram`: two programs that agree on what a run of the first fetches run alike.
  In particular, words may be appended to a program whose run does not leave it.
-/

set_option autoImplicit false

namespace StackMachine

/-- A run was ended by an address outside the program. -/
def Outcome.LeftProgram (o : Outcome) : Prop :=
  ∃ f, o = .failed f ∧ (f.kind? = some .outOfBounds ∨ f.kind? = some .jumpOutOfBounds)

/-- The words of a program stay where they are when more are appended. So appending words does not
change what is fetched. -/
private theorem Program.word?_of_prefix {p q : Program} (h : p.toList <+: q.toList) {a w : Int}
    (hw : p.word? a = some w) : q.word? a = some w := by
  unfold word? at hw ⊢
  split at hw
  · rename_i ha
    rw [if_pos ha]
    rw [← Array.getElem?_toList] at hw ⊢
    obtain ⟨hlt, hget⟩ := List.getElem?_eq_some_iff.mp hw
    rw [← hget]
    exact List.prefix_iff_getElem?.mp h a.toNat hlt
  · cases hw

/-- Appending words makes a program larger. -/
private theorem Program.size_le_of_prefix {p q : Program} (h : p.toList <+: q.toList) :
    p.size ≤ q.size := by
  have hlength := h.length_le
  simpa [toList, size] using hlength

namespace Engine

/-! ### What is fetched -/

/-- The addresses of the words that `fetchMany n` reads. -/
def fetchedMany : Nat → Engine → List Int
  | 0, _ => []
  | n + 1, e =>
    match fetch e with
    | .ok _ t => e.pc :: fetchedMany n t
    | .error _ _ => []

/-- The addresses of the words that an iteration reads: that of its opcode, and those of as many
operands as the opcode asks for, up to the first that is not there. -/
def fetchedInTurn (e : Engine) : List Int :=
  match fetch e with
  | .ok w t =>
    match Instr.ofOpcode? w with
    | some i => e.pc :: fetchedMany i.arity t
    | none => [e.pc]
  | .error _ _ => []

/-- The addresses of the words that the first `n` iterations of a run read. -/
def fetched : Nat → Engine → List Int
  | 0, _ => []
  | n + 1, e =>
    match e.turn with
    | (.running, t) => e.fetchedInTurn ++ fetched n t
    | _ => e.fetchedInTurn

section

variable {e : Engine} {read : Int → Option Int}

/-- Fetching one more word from here on adds this address in front. -/
private theorem fetchedMany_succ {n : Nat} {w : Int} (hw : e.word? e.pc = some w) :
    e.fetchedMany (n + 1) = e.pc :: fetchedMany n { e with pc := e.pc + 1 } := by
  rw [fetchedMany, fetch_of_word hw]

/-- There is a word wherever one is fetched. The address at which a fetch is refused is not among
those collected. -/
private theorem word?_of_mem_fetchedMany {n : Nat} :
    ∀ a ∈ e.fetchedMany n, ∃ w, e.word? a = some w := by
  induction n generalizing e with
  | zero =>
    intro a ha
    cases ha
  | succ n ih =>
    intro a ha
    cases hw : e.word? e.pc with
    | none =>
      rw [fetchedMany, fetch_of_none hw] at ha
      cases ha
    | some w =>
      rw [fetchedMany_succ hw] at ha
      rcases List.mem_cons.mp ha with rfl | hrest
      · exact ⟨w, hw⟩
      · -- The words do not depend on the program counter.
        exact ih (e := { e with pc := e.pc + 1 }) a hrest

/-- The same for all that an iteration fetches. -/
private theorem word?_of_mem_fetchedInTurn : ∀ a ∈ e.fetchedInTurn, ∃ w, e.word? a = some w := by
  intro a ha
  unfold fetchedInTurn at ha
  cases hw : e.word? e.pc with
  | none =>
    rw [fetch_of_none hw] at ha
    cases ha
  | some w =>
    rw [fetch_of_word hw] at ha
    simp only [] at ha
    split at ha
    · rcases List.mem_cons.mp ha with rfl | hrest
      · exact ⟨w, hw⟩
      · obtain ⟨v, hv⟩ := word?_of_mem_fetchedMany a hrest
        exact ⟨v, hv⟩
    · rw [List.mem_singleton.mp ha]
      exact ⟨w, hw⟩

/-- An opcode that is there is fetched. With the operands, these are all words on which the
decoding depends. -/
private theorem pc_mem_fetchedInTurn {w : Int} (hw : e.word? e.pc = some w) :
    e.pc ∈ e.fetchedInTurn := by
  unfold fetchedInTurn
  rw [fetch_of_word hw]
  simp only []
  split
  · exact List.mem_cons_self
  · exact List.mem_cons_self

/-- So are the operands of an instruction, as far as they are there. -/
private theorem fetchedMany_subset_fetchedInTurn {i : Instr} (hw : e.word? e.pc = some i.opcode) :
    ∀ a ∈ fetchedMany i.arity { e with pc := e.pc + 1 }, a ∈ e.fetchedInTurn := by
  intro a ha
  unfold fetchedInTurn
  rw [fetch_of_word hw]
  simp only [ofOpcode?_opcode]
  exact List.mem_cons_of_mem _ ha

/-- A block is decided by the words that are fetched for it. Any other way to read that agrees on
these finds the same block. -/
private theorem block?_of_fetchedMany {n : Nat} {ws : List Int}
    (hread : ∀ a ∈ e.fetchedMany n, e.word? a = read a) (h : block? e.word? e.pc n = some ws) :
    block? read e.pc n = some ws := by
  induction n generalizing e ws with
  | zero => exact h
  | succ n ih =>
    obtain ⟨w, rest, hw, hrest, rfl⟩ := block?_succ_eq_some_iff.mp h
    rw [fetchedMany_succ hw] at hread
    have hhere : read e.pc = some w := by rw [← hread e.pc List.mem_cons_self, hw]
    have hbehind := ih (e := { e with pc := e.pc + 1 })
      (fun a ha => hread a (List.mem_cons_of_mem _ ha)) hrest
    exact block?_succ_eq_some_iff.mpr ⟨w, rest, hhere, hbehind, rfl⟩

/-- What an iteration decodes is decided by the words that it fetches, unless it meets the end of
the program. Then it has to be the end for the other reader as well. -/
theorem decode_of_fetched (hread : ∀ a ∈ e.fetchedInTurn, e.word? a = read a)
    (houtside : e.decoded = .outside → read e.pc = none)
    (hcut : ∀ i, e.decoded = .cut i → read (e.pc + 1) = none) : decode read e.pc = e.decoded := by
  cases hd : e.decoded with
  | outside => exact decode_eq_outside_iff.mpr (houtside hd)
  | unknown w =>
    obtain ⟨hw, hunknown⟩ := decode_eq_unknown_iff.mp hd
    have hhere : read e.pc = some w := by rw [← hread e.pc (pc_mem_fetchedInTurn hw), hw]
    exact decode_eq_unknown_iff.mpr ⟨hhere, hunknown⟩
  | cut i =>
    have hw := (decode_eq_cut_iff.mp hd).1
    have hhere : read e.pc = some i.opcode := by rw [← hread e.pc (pc_mem_fetchedInTurn hw), hw]
    refine decode_eq_cut_iff.mpr ⟨hhere, ?_⟩
    -- Only one operand was wanted, and it is missing there, too.
    rw [(arity_of_cut hd).1]
    simp only [block?, hcut i hd]
  | ready i params =>
    obtain ⟨hw, hblock⟩ := decode_eq_ready_iff.mp hd
    have hhere : read e.pc = some i.opcode := by rw [← hread e.pc (pc_mem_fetchedInTurn hw), hw]
    have hoperands := block?_of_fetchedMany (e := { e with pc := e.pc + 1 })
      (fun a ha => hread a (fetchedMany_subset_fetchedInTurn hw a ha)) hblock
    exact decode_eq_ready_iff.mpr ⟨hhere, hoperands⟩

/-- There is a word wherever a run fetches one, so a program that is continued has the same word
there. -/
private theorem word?_of_mem_fetched {n : Nat} : ∀ a ∈ e.fetched n, ∃ w, e.word? a = some w := by
  induction n generalizing e with
  | zero =>
    intro a ha
    cases ha
  | succ n ih =>
    intro a ha
    unfold fetched at ha
    split at ha
    · rename_i t hturn
      rcases List.mem_append.mp ha with hfirst | hlater
      · exact word?_of_mem_fetchedInTurn a hfirst
      · -- The program is the same one after the turn.
        have hframe := turn_frame e
        rw [hturn] at hframe
        rw [← word?_congr hframe.program hframe.size]
        exact ih a hlater
    · exact word?_of_mem_fetchedInTurn a ha

end

/-! ### Two programs -/

/-- The engine `s` runs `p`, of which it has noted the size, and `t` is `s` with the program `q`. -/
structure Swapped (p q : Program) (s t : Engine) : Prop where
  program : s.program = some p
  size : s.size = p.size
  swapped : t = s.withProgram q

/-- The faults that can have to do with where a program ends, if two programs do not end at the
same address. -/
def EndsApart (p q : Program) (f : Fault) : Prop :=
  p.size ≠ q.size ∧ (f.kind? = some .outOfBounds ∨ f.kind? = some .jumpOutOfBounds)

section

variable {p q : Program} {s t : Engine}

/-- The first engine reads the words of `p`: the check that comes before a lookup refuses nothing
that the lookup would find. -/
private theorem Swapped.word?_left (h : Swapped p q s t) : s.word? = p.word? := by
  rw [word?_congr h.program h.size (t := s.withProgram p), word?_withProgram]

/-- The second engine reads the words of `q`. -/
private theorem Swapped.word?_right (h : Swapped p q s t) : t.word? = q.word? := by
  rw [h.swapped, word?_withProgram]

/-- The number that the first engine has noted is that of its words. The second one need not be
assumed to be sized, as its program was put in with its size. -/
private theorem Swapped.sized (h : Swapped p q s t) : s.Sized := by
  unfold Sized words
  rw [h.size, h.program, ← p.length_toList]

/-- The number that the second engine has noted is that of the words of `q`. -/
private theorem Swapped.size_right (h : Swapped p q s t) : t.size = q.size := by
  rw [h.swapped]
  rfl

/-- The programs have no part in the stacks. -/
private theorem sameStacks_swapped : SameStacks (Swapped p q) where
  operands h := by rw [h.swapped]; rfl
  returns h := by rw [h.swapped]; rfl
  setOperands h _ := ⟨h.program, h.size, by rw [h.swapped]; rfl⟩
  setReturns h _ := ⟨h.program, h.size, by rw [h.swapped]; rfl⟩

/-- Where a jump can go in the smaller program, it can go in the larger one. A jump between the two
ends is the exception that `EndsApart` names. -/
private theorem coupled_jump_swapped (hle : p.size ≤ q.size) (a : Int) :
    Coupled (Swapped p q) (EndsApart p q) (jump a) (jump a) := by
  intro s t h
  have hs := h.size
  have ht := h.size_right
  unfold jump
  by_cases ha : a < 0 ∨ s.size ≤ a
  · rw [if_pos ha]
    by_cases hsize : p.size = q.size
    · rw [if_pos (by omega)]
      exact .error h
    · exact .escape ⟨hsize, .inr rfl⟩
  · rw [if_neg ha, if_neg (by omega)]
    exact .ok ⟨h.program, h.size, by rw [h.swapped]; rfl⟩

/-- Apart from fetching, a program matters only to jumps that leave it, and only if the two
programs end at different addresses. `EndsApart` names the causes for which the engines may part
then. -/
theorem coupling_swapped (hle : p.size ≤ q.size) :
    Coupling (Swapped p q) (EndsApart p q) where
  registers h := by rw [h.swapped]; rfl
  assign h _ := ⟨h.program, h.size, by rw [h.swapped]; rfl⟩
  push := sameStacks_swapped.push
  pop := sameStacks_swapped.pop
  pushReturn := sameStacks_swapped.pushReturn
  popReturn := sameStacks_swapped.popReturn
  emit := coupled_emit (fun _ _ h => by rw [h.swapped]; rfl)
    fun _ _ h _ => ⟨h.program, h.size, by rw [h.swapped]; rfl⟩
  jump := coupled_jump_swapped hle
  announce i h hi := by
    rename_i s t
    obtain ⟨hp, hsize, rfl⟩ := h
    -- Nothing of the program is shown in a line.
    exact matches_announce ⟨hp, hsize, rfl⟩ hi rfl rfl
      (matches_trace ⟨hp, hsize, rfl⟩ rfl (fun _ => rfl) fun _ => ⟨hp, hsize, rfl⟩)

/-- One iteration, if the programs agree on the words that it fetches. Where it finds no word, the
engines agree as far as their ends do. -/
theorem turn_of_swapped (hle : p.size ≤ q.size) (h : Swapped p q s t)
    (hwords : ∀ a ∈ s.fetchedInTurn, p.word? a = q.word? a) :
    Agree (Swapped p q) (EndsApart p q) s.turn t.turn := by
  have hpc : t.pc = s.pc := by
    rw [h.swapped]
    rfl
  by_cases hsize : p.size = q.size
  · -- Programs of one size have no words at the same addresses.
    have hnone (a : Int) (ha : s.word? a = none) : q.word? a = none := by
      rw [h.word?_left] at ha
      have hout := Program.word?_eq_none_iff.mp ha
      exact Program.word?_eq_none_iff.mpr (by omega)
    have hdecoded : decode q.word? s.pc = s.decoded :=
      decode_of_fetched (fun a ha => by rw [h.word?_left, hwords a ha])
        (fun hd => hnone _ (decode_eq_outside_iff.mp hd)) fun i hd => hnone _ (arity_of_cut hd).2
    refine (coupling_swapped hle).turn h ?_ fun _ => ?_
    · rw [← hdecoded]
      unfold decoded
      rw [h.word?_right, hpc]
    · rw [h.size, h.size_right, hsize]
  · by_cases hend : s.decoded = .outside ∨ ∃ i, s.decoded = .cut i
    · -- An iteration that meets the end of the smaller program proves nothing.
      rcases hend with hd | ⟨i, hd⟩
      · rw [turn_of_outside hd, (h.sized.absence (decode_eq_outside_iff.mp hd)).1]
        exact .escape ⟨hsize, .inl rfl⟩
      · rw [turn_of_cut hd, (h.sized.absence (arity_of_cut hd).2).1]
        exact .escape ⟨hsize, .inl rfl⟩
    · have houtside : s.decoded ≠ .outside := fun hd => hend (.inl hd)
      have hcut (i : Instr) : s.decoded ≠ .cut i := fun hd => hend (.inr ⟨i, hd⟩)
      have hdecoded : decode q.word? s.pc = s.decoded :=
        decode_of_fetched (fun a ha => by rw [h.word?_left, hwords a ha])
          (fun hd => absurd hd houtside) fun i hd => absurd hd (hcut i)
      refine (coupling_swapped hle).turn h ?_ fun hd => absurd hd hend
      rw [← hdecoded]
      unfold decoded
      rw [h.word?_right, hpc]

/-- A run of any length, if the programs agree on the words that it fetches. The induction is on
the length, and each iteration hands on the addresses that are left. -/
theorem runFor_of_swapped (hle : p.size ≤ q.size) (h : Swapped p q s t) {n : Nat}
    (hwords : ∀ a ∈ s.fetched n, p.word? a = q.word? a) :
    Agree (Swapped p q) (EndsApart p q) (s.runFor n) (t.runFor n) := by
  induction n generalizing s t with
  | zero => exact .same h
  | succ n ih =>
    -- The words of the first iteration are among those of the run.
    have hfirst : ∀ a ∈ s.fetchedInTurn, p.word? a = q.word? a := by
      intro a ha
      refine hwords a ?_
      unfold fetched
      split
      · exact List.mem_append_left _ ha
      · exact ha
    have hturn := turn_of_swapped hle h hfirst
    unfold fetched at hwords
    unfold runFor
    generalize s.turn = x at hturn hwords ⊢
    generalize t.turn = y at hturn ⊢
    cases hturn with
    | escape hx => exact .escape hx
    | @same o _ _ hst =>
      cases o with
      | running => exact ih hst fun a ha => hwords a (List.mem_append_right _ ha)
      | halted => exact .same hst
      | failed f => exact .same hst

end

/-- Up to `n` iterations, an engine with the program `q` does what it does with `p`. -/
def RunsAlike (e : Engine) (n : Nat) (p q : Program) : Prop :=
  (e.withProgram q).runFor n
    = (((e.withProgram p).runFor n).1, ((e.withProgram p).runFor n).2.withProgram q)

/-- A run depends only on the words that it fetches. Let `q` have at least as many words as `p`,
and let both agree on the words that an engine with `p` fetches in `n` iterations. If the programs
have one size, or if the run of `p` has not left its program, then the engine with `q` has gone on,
halted, or failed for the same cause, and is in the same state but for the program. In particular,
words may be appended to a program without effect on the runs that do not leave it. -/
theorem runFor_withProgram (e : Engine) (p q : Program) (n : Nat) :
    (p.size ≤ q.size → (∀ a ∈ (e.withProgram p).fetched n, p.word? a = q.word? a) →
      (p.size = q.size ∨ ¬ ((e.withProgram p).runFor n).1.LeftProgram) → e.RunsAlike n p q) ∧
    (p.toList <+: q.toList → ¬ ((e.withProgram p).runFor n).1.LeftProgram →
      e.RunsAlike n p q) := by
  have hagree (hle : p.size ≤ q.size)
      (hwords : ∀ a ∈ (e.withProgram p).fetched n, p.word? a = q.word? a)
      (hend : p.size = q.size ∨ ¬ ((e.withProgram p).runFor n).1.LeftProgram) :
      e.RunsAlike n p q := by
    have hswapped : Swapped p q (e.withProgram p) (e.withProgram q) := ⟨rfl, rfl, rfl⟩
    have hrun := runFor_of_swapped hle hswapped hwords
    unfold RunsAlike
    generalize (e.withProgram p).runFor n = x at hrun hend ⊢
    generalize (e.withProgram q).runFor n = y at hrun ⊢
    cases hrun with
    | same h => rw [h.swapped]
    | @escape f _ _ hx =>
      rcases hend with hsize | hinside
      · exact absurd hsize hx.1
      · exact absurd ⟨f, rfl, hx.2⟩ hinside
  refine ⟨hagree, fun hprefix hinside => ?_⟩
  refine hagree (Program.size_le_of_prefix hprefix) (fun a ha => ?_) (.inr hinside)
  obtain ⟨w, hw⟩ := word?_of_mem_fetched a ha
  have hp : p.word? a = some w := by rwa [word?_withProgram] at hw
  rw [hp, Program.word?_of_prefix hprefix hp]

/-- A jump passes over a word, which may be another one then, and the run that halts behind it
does not see what follows there. -/
theorem runFor_withProgram_jump : ∃ p q r : Program,
    (∀ a ∈ ((callLetter false).withProgram p).fetched 3, p.word? a = q.word? a) ∧
    p.word? 3 ≠ q.word? 3 ∧ p.size < q.size ∧ (callLetter false).RunsAlike 3 p q ∧
    p.toList <+: r.toList ∧ p.size < r.size ∧ (callLetter false).RunsAlike 3 p r ∧
    (((callLetter false).withProgram p).runFor 3).1 = .halted := by
  let p : Program := ⟨#[3, 4, 6, 7, 0], by decide, by decide⟩
  let q : Program := ⟨#[3, 4, 6, 8, 0, 5], by decide, by decide⟩
  let r : Program := ⟨#[3, 4, 6, 7, 0, 2], by decide, by decide⟩
  have hhalts : (((callLetter false).withProgram p).runFor 3).1 = .halted := by decide +kernel
  have hinside : ¬ (((callLetter false).withProgram p).runFor 3).1.LeftProgram := by
    rintro ⟨f, hf, _⟩
    cases hhalts.symm.trans hf
  have hwords : ∀ a ∈ ((callLetter false).withProgram p).fetched 3, p.word? a = q.word? a := by
    decide +kernel
  have hprefix : p.toList <+: r.toList := ⟨[2], rfl⟩
  have hq := (runFor_withProgram (callLetter false) p q 3).1 (by decide) hwords (.inr hinside)
  have hr := (runFor_withProgram (callLetter false) p r 3).2 hprefix hinside
  exact ⟨p, q, r, hwords, by decide, by decide, hq, hprefix, by decide, hr, hhalts⟩

end Engine

end StackMachine
