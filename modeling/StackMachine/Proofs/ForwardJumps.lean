import Mathlib.Algebra.Order.Ring.Nat
import StackMachine.Proofs.LastInstruction
import StackMachine.Proofs.Progress

/-!
# `StackMachine.Proofs.ForwardJumps`: programs that cannot run for ever

A program whose jumps all go forward may still enter the same code many times: a call leaves its
return address behind, and a return goes back to it. `ends_of_forward` shows that all its runs
end nevertheless, whatever state they begin in.

The measure that an iteration decreases is a budget. An address is worth twice what the next one
is worth, so an instruction that goes on behind itself or jumps forward gives up half of the worth
of its own address at least. A call pays for two addresses, its target and the one behind it, which
are worth a half and a quarter at most. A return gives up the worth of its own address, and goes on
with that of an address which was on the stack.

- `Program.Forward` is the condition on a program. It can be computed.
- `budget_turn` is the step, and `add_budget_le` follows it through a run.
-/

set_option autoImplicit false

namespace StackMachine

/-- No word of the program is the jump to a popped address, and every other jump or call has an
operand beyond its own address. Words that are operands themselves count as well, since a run may
get to read them as instructions. -/
structure Program.Forward (p : Program) : Prop where
  noJump : ∀ w ∈ p.words, w ≠ Instr.jmp.opcode
  ahead : ∀ k < p.size, ∀ i ∈ [Instr.jz, .jnz, .call], p.words[k]? = some i.opcode →
    ∀ x ∈ p.words[k + 1]?, (k : Int) < x

instance (p : Program) : Decidable p.Forward :=
  decidable_of_iff
    ((∀ w ∈ p.words, w ≠ Instr.jmp.opcode) ∧
      ∀ k < p.size, ∀ i ∈ [Instr.jz, .jnz, .call], p.words[k]? = some i.opcode →
        ∀ x ∈ p.words[k + 1]?, (k : Int) < x)
    ⟨fun h => ⟨h.1, h.2⟩, fun h => ⟨h.noJump, h.ahead⟩⟩

/-- A word stands at its address in the array of words. -/
private theorem Program.getElem?_of_word? {p : Program} {a w : Int} (h : p.word? a = some w) :
    0 ≤ a ∧ p.words[a.toNat]? = some w := by
  unfold word? at h
  split at h
  · exact ⟨by assumption, h⟩
  · cases h

namespace Engine

/-! ### What an address is worth -/

/-- What an address is worth in a program of `length` words. Addresses that no run of the program
goes on from have the least worth there is. -/
def worth (length : Nat) (a : Int) : Nat :=
  if 0 ≤ a ∧ a < length then 2 ^ (length - a.toNat) else 1

/-- The number of iterations that a run may still take, if all jumps go forward. It is the words of
the program that count, and not the number of words that the engine has noted. -/
def budget (e : Engine) : Nat :=
  worth e.words.length e.pc + (e.returns.items.map (worth e.words.length)).sum

section

variable {length : Nat} {a b : Int}

/-- Every address is worth something, also outside the program. A budget can therefore never be
spent without an end. -/
private theorem worth_pos (length : Nat) (a : Int) : 0 < worth length a := by
  unfold worth
  split
  · exact Nat.two_pow_pos _
  · exact Nat.one_pos

/-- So a run that goes on has a budget left. Together with `add_budget_le` this bounds its length.
-/
private theorem budget_pos (e : Engine) : 0 < e.budget :=
  Nat.add_pos_left (worth_pos _ e.pc) _

/-- Later addresses are worth half as much at most as that of a word, also those beyond all words.
-/
theorem two_mul_worth_le (ha : 0 ≤ a) (hlt : a < length) (hab : a < b) :
    2 * worth length b ≤ worth length a := by
  unfold worth
  rw [if_pos (show 0 ≤ a ∧ a < length from ⟨ha, hlt⟩)]
  split
  · rw [Nat.mul_comm, ← Nat.pow_succ]
    exact Nat.pow_le_pow_right Nat.two_pos (by omega)
  · -- A word is worth two at least, and nothing beyond the words more than one.
    have htwo : 2 ^ 1 ≤ 2 ^ (length - a.toNat) := Nat.pow_le_pow_right Nat.two_pos (by omega)
    exact htwo

/-- The address of a word pays for two later ones, if another word comes next and one of the two
lies behind that. A call needs this: it goes to one address and will return to another. -/
theorem worth_add_worth_lt {c : Int} (ha : 0 ≤ a) (hlt : a + 1 < length) (hab : a < b)
    (hac : a + 1 < c) : worth length b + worth length c < worth length a := by
  have hhere : a < length := by omega
  have hhalf := two_mul_worth_le ha hhere hab
  have hnext : 2 * worth length (a + 1) ≤ worth length a :=
    two_mul_worth_le ha hhere (Int.lt_succ a)
  have hquarter := two_mul_worth_le (by omega) hlt hac
  have hpos := worth_pos length c
  omega

end

/-! ### One iteration -/

section

variable {e t : Engine} {p : Program}

/-- A word that is fetched is one of the program. -/
private theorem getElem?_of_word? (hp : e.program = some p) {a w : Int} (h : e.word? a = some w) :
    0 ≤ a ∧ p.words[a.toNat]? = some w := by
  obtain ⟨q, hq, hw⟩ := program_of_word? h
  cases hp.symm.trans hq
  exact Program.getElem?_of_word? hw

/-- The address of a word that is fetched lies below the number of words, whatever number the
engine has noted. -/
private theorem lt_length_of_word? {a w : Int} (h : e.word? a = some w) : a < e.words.length := by
  have hlt := (List.getElem?_eq_some_iff.mp (getElem?_words_of_word? h)).1
  omega

/-- In a forward program, the operand of a jump or a call lies ahead. The condition is about the
words of the program, and this puts it in terms of what an iteration has read. -/
private theorem lt_operand_of_forward (hp : e.program = some p) (hforward : p.Forward) {i : Instr}
    {x : Int} {params rest : List Int} (hd : e.decoded = .ready i params)
    (hi : i ∈ [Instr.jz, .jnz, .call]) (hparams : params = x :: rest) : e.pc < x := by
  obtain ⟨hw, hblock⟩ := decode_eq_ready_iff.mp hd
  rw [Instr.arity_eq_one_iff.mpr (List.mem_cons_of_mem _ hi)] at hblock
  obtain ⟨y, hy, hone⟩ := block?_one hblock
  have hxy : x = y := by
    rw [hparams] at hone
    exact (List.cons.inj hone).1
  subst hxy
  obtain ⟨hnonneg, hhere⟩ := getElem?_of_word? hp hw
  obtain ⟨_, hnext⟩ := getElem?_of_word? hp hy
  have hk : e.pc.toNat < p.size := (Array.getElem?_eq_some_iff.mp hhere).1
  have hbehind : (e.pc + 1).toNat = e.pc.toNat + 1 := by omega
  rw [hbehind] at hnext
  have hlt := hforward.ahead e.pc.toNat hk i hi hhere x hnext
  omega

/-- An iteration of a forward program does not jump to a popped address. Such a jump would be the
only way to spend nothing. -/
private theorem ne_jmp_of_forward (hp : e.program = some p) (hforward : p.Forward)
    {params : List Int} :
    e.decoded ≠ .ready .jmp params := by
  intro hd
  have hw := (decode_eq_ready_iff.mp hd).1
  obtain ⟨_, hhere⟩ := getElem?_of_word? hp hw
  exact hforward.noJump _ (Array.mem_of_getElem? hhere) rfl

/-- An iteration of a forward program that goes on decreases the budget. There is one case for each
way in which an instruction succeeds. -/
theorem budget_turn (hp : e.program = some p) (hforward : p.Forward)
    (h : e.turn = (.running, t)) : t.budget < e.budget := by
  obtain ⟨i, params, m, hd, hi, _, heffect⟩ := turn_running h
  obtain ⟨hw, hblock⟩ := decode_eq_ready_iff.mp hd
  have hnonneg := (bounds_of_word? hw).1
  have hlt := lt_length_of_word? hw
  have hbehind : e.pc < e.pc + 1 + i.arity := by omega
  -- Going to a later address is paid by the present one. The return stack stays as it is.
  have hlater {b : Int} (hb : e.pc < b) :
      worth e.words.length b + (e.returns.items.map (worth e.words.length)).sum < e.budget := by
    have hhalf := two_mul_worth_le hnonneg hlt hb
    have hpos := worth_pos e.words.length b
    unfold budget
    omega
  cases heffect with
  | halt => exact absurd rfl hi
  | nop | print _ _ | push _ _ | pop _ | add _ _ _ | jzStays _ _ | jnzStays _ =>
    exact hlater hbehind
  | jmp _ _ => exact absurd hd (ne_jmp_of_forward hp hforward)
  | jzJumps _ hparams _ | jnzJumps _ _ hparams _ =>
    exact hlater (lt_operand_of_forward hp hforward hd (by decide) hparams)
  | @call x _ r hpush hparams _ =>
    have hahead := lt_operand_of_forward hp hforward hd (by decide) hparams
    -- The operand is a word, too, so the call does not stand at the end of the program.
    obtain ⟨y, hy, _⟩ := block?_one hblock
    have hnext := lt_length_of_word? hy
    have hpays : worth e.words.length x + worth e.words.length (e.pc + 1 + Instr.call.arity)
        < worth e.words.length e.pc :=
      worth_add_worth_lt hnonneg hnext hahead (Int.lt_succ _)
    have hitems : r.items = (e.pc + 1 + Instr.call.arity) :: e.returns.items :=
      (Stack.items_push hpush).1
    show worth e.words.length x + (r.items.map (worth e.words.length)).sum < e.budget
    rw [hitems, List.map_cons, List.sum_cons]
    unfold budget
    omega
  | @ret a r hpop _ =>
    have hitems : e.returns.items = a :: r.items := (Stack.items_pop hpop).1
    have hpos := worth_pos e.words.length e.pc
    show worth e.words.length a + (r.items.map (worth e.words.length)).sum < e.budget
    unfold budget
    rw [hitems, List.map_cons, List.sum_cons]
    omega

/-! ### Whole runs -/

/-- A run of a forward program that goes on has spent a part of its budget in each iteration. So
the budget at its start bounds the number of iterations from above. -/
theorem add_budget_le (hp : e.program = some p) (hforward : p.Forward) {n : Nat}
    (h : e.runFor n = (.running, t)) : n + t.budget ≤ e.budget := by
  induction n generalizing e with
  | zero =>
    cases h
    exact Nat.le_of_eq (Nat.zero_add _)
  | succ n ih =>
    unfold runFor at h
    split at h
    · rename_i s hturn
      -- The program is the same one after the turn.
      have hprogram : s.program = some p := by
        have hframe := turn_frame e
        rw [hturn] at hframe
        exact hframe.program.trans hp
      have hspent := budget_turn hp hforward hturn
      have hrest := ih hprogram h
      omega
    · rename_i hgoes
      exact absurd h (hgoes t)

/-- Programs whose jumps all go forward cannot run for ever. Let no word of a program be the jump to
a popped address, and let every word that jumps or calls by its operand have the next word beyond
its own address. From every state of an engine with that program, a run ends within the budget of
that state. If it begins at the first word with nothing to return to, it ends within `2 ^ n`
iterations, where `n` is the number of words. -/
theorem ends_of_forward (hp : e.program = some p) (hforward : p.Forward) :
    (∃ n ≤ e.budget, (e.runFor n).1 ≠ .running) ∧
      (e.pc = 0 → e.returns.toList = [] → (e.runFor (2 ^ p.size)).1 ≠ .running) := by
  have hends : (e.runFor e.budget).1 ≠ .running := by
    intro hgoes
    have hspent := add_budget_le hp hforward (runFor_of_outcome hgoes)
    have hpos := budget_pos (e.runFor e.budget).2
    omega
  refine ⟨⟨e.budget, Nat.le_refl _, hends⟩, fun hpc hempty => ?_⟩
  have hitems : e.returns.items = [] := List.reverse_eq_nil_iff.mp hempty
  have hlength : e.words.length = p.size := by rw [words, hp, p.length_toList]
  have hpos : 0 < p.size := p.nonempty
  have hbudget : e.budget = 2 ^ p.size := by
    unfold budget worth
    rw [hitems, hpc, hlength, if_pos (by omega)]
    rfl
  rwa [← hbudget]

/-- The call of a subroutine behind it is forward, so it ends. -/
theorem ends_of_forward_callLetter : Program.callLetter.Forward ∧
    ((callLetter false).runFor (2 ^ 7)).1 ≠ .running := by
  have hforward : Program.callLetter.Forward := by decide
  exact ⟨hforward, (ends_of_forward (e := callLetter false) rfl hforward).2 rfl rfl⟩

end

end Engine

end StackMachine
