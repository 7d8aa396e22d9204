import StackMachine.Proofs.Progress

/-!
# `StackMachine.Proofs.Blocks`: operands are read as a block

Operands are fetched one at a time, and every fetch checks its own address. What several fetches
give, and where they leave the program counter, depends on two addresses only: the one where they
begin and the one where the program ends.

- `block?_of_fits`: the words between two addresses are that part of the program, if it reaches so
  far.
- `fetchMany_of_fits`, `fetchMany_of_overrun` and `fetchMany_of_outside` say what several fetches do
  if they stay inside the program, if they come to its end, and if they begin outside.
- `fetchMany_add`: fetching in two goes is fetching at once. It holds of any fetch, so it does not
  rest on the others.
- `loadParams_reads_block` puts these together for a host that loads any number of operands.
-/

set_option autoImplicit false

namespace StackMachine.Engine

variable {e t : Engine}

/-! ### Blocks of the program -/

section

variable {a : Int} {n : Nat}

/-- From the address of a word on, the program is that word and what follows it. The induction over
a block takes its first word off by this. -/
private theorem drop_words_of_word? {w : Int} (h : e.word? a = some w) :
    e.words.drop a.toNat = w :: e.words.drop (a + 1).toNat := by
  have hpos := (bounds_of_word? h).1
  obtain ⟨hbound, hget⟩ := List.getElem?_eq_some_iff.mp (getElem?_words_of_word? h)
  have hnext : (a + 1).toNat = a.toNat + 1 := by omega
  rw [List.drop_eq_getElem_cons hbound, hget, hnext]

/-- A block that ends inside the program, or where it ends, is a part of it. The engine has to be
sized, since the end is taken to be where the check says. -/
theorem block?_of_fits (hsized : e.Sized) (hpos : 0 ≤ a) (hle : a + n ≤ e.size) :
    block? e.word? a n = some ((e.words.drop a.toNat).take n) := by
  induction n generalizing a with
  | zero => rw [block?, List.take_zero]
  | succ n ih =>
    obtain ⟨w, hw⟩ : ∃ w, e.word? a = some w :=
      Option.ne_none_iff_exists'.mp (mt hsized.word?_eq_none_iff.mp (by omega))
    have hrest := ih (a := a + 1) (by omega) (by omega)
    refine block?_succ_eq_some_iff.mpr ⟨w, _, hw, hrest, ?_⟩
    rw [drop_words_of_word? hw, List.take_succ_cons]

end

/-! ### Several fetches -/

section

variable {n : Nat}

/-- Fetches that stay inside the program read that part of it and move the program counter behind
it. The bound on the end of the block suffices, since the words before it are then all there. -/
theorem fetchMany_of_fits (hsized : e.Sized) (hpos : 0 ≤ e.pc) (hle : e.pc + n ≤ e.size) :
    fetchMany n e = .ok ((e.words.drop e.pc.toNat).take n) { e with pc := e.pc + n } :=
  fetchMany_of_block (block?_of_fits hsized hpos hle)

/-- Of fetches that begin at an address out of bounds, the first one is refused, and nothing moves.
This is so in an engine that is not sized as well. -/
theorem fetchMany_of_outside (hn : n ≠ 0) (h : e.pc < 0 ∨ e.size ≤ e.pc) :
    fetchMany n e = .error (.outOfBounds e.pc) e := by
  cases n with
  | zero => exact absurd rfl hn
  | succ n =>
    obtain ⟨hcause, hstays⟩ := absence_of_outside h
    have hfetch := fetch_of_none (word?_of_outside h)
    rw [hcause, hstays] at hfetch
    exact bind_of_error hfetch

/-- Fetches that begin inside the program and go too far are refused at its end. The words before
it were read by then. -/
theorem fetchMany_of_overrun (hsized : e.Sized) (hpos : 0 ≤ e.pc) (hle : e.pc ≤ e.size)
    (hlt : e.size < e.pc + n) :
    fetchMany n e = .error (.outOfBounds e.size) { e with pc := e.size } := by
  induction n generalizing e with
  | zero => omega
  | succ n ih =>
    by_cases hend : e.pc = e.size
    · rw [← hend]
      exact fetchMany_of_outside (Nat.succ_ne_zero n) (by omega)
    · -- There is a word here, and the rest begins no later than the program ends.
      obtain ⟨w, hw⟩ : ∃ w, e.word? e.pc = some w :=
        Option.ne_none_iff_exists'.mp (mt hsized.word?_eq_none_iff.mp (by omega))
      have hrest := ih (e := { e with pc := e.pc + 1 }) hsized (by show 0 ≤ e.pc + 1; omega)
        (by show e.pc + 1 ≤ e.size; omega) (by show e.size < e.pc + 1 + n; omega)
      simp only [fetchMany]
      rw [bind_of_ok (fetch_of_word hw), bind_of_error hrest]

/-- Fetches give as many words as were asked for. -/
private theorem length_of_fetchMany {ws : List Int} (h : fetchMany n e = .ok ws t) :
    ws.length = n := by
  induction n generalizing e ws with
  | zero =>
    cases h
    rfl
  | succ n ih =>
    obtain ⟨w, r, _, hafter⟩ := bind_eq_ok h
    obtain ⟨rest, r', hrest, hpure⟩ := bind_eq_ok hafter
    cases hpure
    rw [List.length_cons, ih hrest]

/-- Fetching in two goes is fetching at once. Both sides are the same action, so the equation
covers what is given, what is left, and why it may fail. -/
theorem fetchMany_add (m n : Nat) :
    fetchMany (m + n)
      = (do let front ← fetchMany m; let back ← fetchMany n; pure (front ++ back)) := by
  induction m with
  | zero => simp only [Nat.zero_add, fetchMany, pure_bind, List.nil_append, bind_pure]
  | succ m ih => simp only [Nat.succ_add, fetchMany, ih, bind_assoc, pure_bind, List.cons_append]

/-- The two parts of what is fetched at once are what is fetched in two goes. It is an equation
between actions, so it holds in every state, also where one of the fetches fails. -/
theorem fetchMany_split (m n : Nat) :
    (do let front ← fetchMany m; let back ← fetchMany n; pure (front, back))
      = (do let ws ← fetchMany (m + n); pure (ws.take m, ws.drop m)) := by
  funext e
  simp only [fetchMany_add, bind_assoc, pure_bind]
  cases hfront : fetchMany m e with
  | error f s => rw [bind_of_error hfront, bind_of_error hfront]
  | ok front s =>
    -- The first go has given `m` words, so the two lists come apart at their seam.
    have hlength := length_of_fetchMany hfront
    rw [bind_of_ok hfront, bind_of_ok hfront]
    simp only [List.take_left' hlength, List.drop_left' hlength]

end

/-- Loading operands reads a contiguous block of the program, or stops at its end.

- Loading `n` operands succeeds if `n` is not positive, or if the program counter is not negative
  and there are `n` words from it to the end of the program. It then gives these words in order,
  and the program counter moves behind them.
- Otherwise, if the program counter lies in the program or at its end, it moves to that end, and
  the end is named as the address that is out of bounds. If it lies elsewhere, it stays there and is
  named itself.
- Nothing but the program counter ever changes.
- Loading `m` operands and then `n` gives the two parts of what loading `m + n` of them gives. Both
  end in the same state, and one is refused exactly if the other one is, for the same cause.

The first three are about sized engines, in which the noted number is that of the words. An engine
without a program is one whose program has no words. -/
theorem loadParams_reads_block :
    (∀ (e : Engine) (n : Int), e.Sized → e.words.length = e.size ∧ loadParams n e =
      if n ≤ 0 ∨ 0 ≤ e.pc ∧ e.pc + n ≤ e.size then
        .ok ((e.words.drop e.pc.toNat).take n.toNat) { e with pc := e.pc + n.toNat }
      else if 0 ≤ e.pc ∧ e.pc ≤ e.size then
        .error (.outOfBounds e.size) { e with pc := e.size }
      else .error (.outOfBounds e.pc) e) ∧
    ∀ m n : Nat,
      (do let front ← loadParams m; let back ← loadParams n; pure (front, back))
        = (do let ws ← loadParams (m + n : Nat); pure (ws.take m, ws.drop m)) := by
  refine ⟨fun e n hsized => ⟨hsized.symm, ?_⟩, fetchMany_split⟩
  unfold loadParams
  split
  · rename_i hfits
    by_cases hn : n ≤ 0
    · -- Nothing is read, wherever the program counter is.
      rw [Int.toNat_of_nonpos hn, List.take_zero, Int.natCast_zero, Int.add_zero]
      rfl
    · exact fetchMany_of_fits hsized (by omega) (by omega)
  · split
    · exact fetchMany_of_overrun hsized (by omega) (by omega) (by omega)
    · exact fetchMany_of_outside (by omega) (by omega)

/-- Two operands are there from the third word before the end on, and three are not from the
second. -/
theorem loadParams_reads_block_callLetter : (callLetter false).Sized ∧
    loadParams 2 { callLetter false with pc := 4 }
      = .ok [65, 2] { callLetter false with pc := 6 } ∧
    loadParams 3 { callLetter false with pc := 5 }
      = .error (.outOfBounds 7) { callLetter false with pc := 7 } := by
  have hsized : (callLetter false).Sized := rfl
  have hfits := (loadParams_reads_block.1 { callLetter false with pc := 4 } 2 hsized).2
  have hoverrun := (loadParams_reads_block.1 { callLetter false with pc := 5 } 3 hsized).2
  exact ⟨hsized, hfits, hoverrun⟩

end StackMachine.Engine
