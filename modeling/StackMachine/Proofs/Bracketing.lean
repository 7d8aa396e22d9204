import StackMachine.Proofs.Contract
import StackMachine.Proofs.Tracing

/-!
# `StackMachine.Proofs.Bracketing`: calls and returns nest

The return stack of a run is a matter of its calls and returns alone. `transfers` is the log of
both, and it is read off the instructions and the outcomes, never off the stack. `Nesting.ofLog`
pairs the entries of a log like brackets; what remains are returns without a call and calls
without a return.

- `moves` sorts turns by what they do to the return stack and add to the log.
- `moved` is what an instruction does to the return stack, and `returns_turn` says that a turn
  does just that.
- `transfers_nest`: the log accounts for the return stack after any number of iterations.
- `turn_of_pending`: a return address and all below it stay in place until the turn that
  returns to it.
- `wellBracketed` puts this together for the runs of any engine.
-/

set_option autoImplicit false

namespace StackMachine

/-! ### Logs and their nesting -/

/-- A transfer of control that goes through the return stack. -/
inductive Transfer where
  /-- The call at an address. -/
  | call (address : Int)
  | ret
  deriving DecidableEq, Repr

/-- What a log comes down to once every return has been paired with the latest open call. -/
structure Nesting where
  /-- How many returns have no call in the log. -/
  returned : Nat
  /-- The addresses of the calls without a return, the latest first. -/
  opened : List Int
  deriving DecidableEq, Repr

namespace Nesting

/-- The nesting after one more transfer. -/
def after (N : Nesting) : Transfer → Nesting
  | .call a => { N with opened := a :: N.opened }
  | .ret =>
    match N.opened with
    | [] => { N with returned := N.returned + 1 }
    | _ :: rest => { N with opened := rest }

/-- The nesting of a log. -/
def ofLog (ts : List Transfer) : Nesting := ts.foldl after ⟨0, []⟩

/-- The return addresses, top first, that a nesting makes of those at the start: its returns
have popped some of these, and its calls have put their own on top. -/
def applied (N : Nesting) (base : List Int) : List Int :=
  N.opened.map (· + 2) ++ base.drop N.returned

example : ofLog [.ret, .call 0, .call 5, .ret, .call 8] = ⟨1, [8, 0]⟩ := rfl

/-- One more transfer comes after those of the log. -/
private theorem ofLog_append_singleton (ts : List Transfer) (t : Transfer) :
    ofLog (ts ++ [t]) = (ofLog ts).after t := by
  rw [ofLog, List.foldl_append]
  rfl

variable {N : Nesting} {base : List Int}

/-- A call puts its return address on top, two words behind its opcode. The log has the address of
the opcode alone, so the two words are added here. -/
private theorem applied_call (a : Int) :
    (N.after (.call a)).applied base = (a + 2) :: N.applied base :=
  rfl

/-- A return pops the top of what was there before it. If no call is open, that is one of the
addresses from the start. -/
private theorem applied_ret {a : Int} {rest : List Int} (hN : N.returned ≤ base.length)
    (h : N.applied base = a :: rest) :
    (N.after .ret).returned ≤ base.length ∧ (N.after .ret).applied base = rest := by
  simp only [applied] at h
  cases hopened : N.opened with
  | nil =>
    -- No call is open, so the return pops an address from the start.
    rw [hopened, List.map_nil, List.nil_append] at h
    have hlength := congrArg List.length h
    rw [List.length_drop, List.length_cons] at hlength
    simp only [after, hopened, applied, List.map_nil, List.nil_append]
    refine ⟨by omega, ?_⟩
    rw [← List.tail_drop, h]
    rfl
  | cons b bs =>
    -- The latest open call is closed, and its address was on top.
    rw [hopened] at h
    simp only [after, hopened, applied]
    exact ⟨hN, (List.cons.inj h).2⟩

end Nesting

/-- An instruction that ends in a jump has got as far as that jump. -/
def Outcome.reachedJump : Outcome → Bool
  | .running => true
  | .failed (.jumpOutOfBounds _) => true
  | _ => false

namespace Engine

/-- The transfer that the next turn makes, if it makes one. A call has pushed its return address,
and a return has popped one, by the time it jumps, whether the jump succeeds or not. -/
def transfer? (e : Engine) : Option Transfer :=
  match e.decoded with
  | .ready .call _ => if e.turn.1.reachedJump then some (.call e.pc) else none
  | .ready .ret _ => if e.turn.1.reachedJump then some .ret else none
  | _ => none

/-- The log of the first `n` iterations of a run. -/
def transfers (e : Engine) : Nat → List Transfer
  | 0 => []
  | n + 1 =>
    match e.runFor n with
    | (.running, s) => e.transfers n ++ s.transfer?.toList
    -- A run that has ended makes no more transfers.
    | _ => e.transfers n

/-! ### One turn -/

section

variable {s : Engine}

/-- Only calls and returns touch the return stack. It is a contract for the other instructions, so
it says nothing of the actions on that stack. -/
private theorem contract_returns (r : Stack) : LocalContract (fun s => s.returns = r) Any Any where
  push _ _ := keeps_push trivial fun _ _ h _ => h
  pop := keeps_pop trivial fun _ _ _ h _ => ⟨trivial, h⟩
  emit _ := keeps_emit (fun _ _ _ => trivial) fun _ _ h _ => h
  jump _ := keeps_jump trivial fun _ h _ _ => h
  operand _ h hne := sound_operand h hne fun _ _ => trivial
  add _ _ _ _ := trivial

/-- What is left of a turn after its effect has come down to a jump. Calls and returns end like
this once they have pushed or popped. -/
private theorem concluded_jump (a : Int) : ∃ o t, concluded .running (jump a s) = (o, t) ∧
    o.reachedJump = true ∧ t.returns = s.returns ∧
    if 0 ≤ a ∧ a < s.size then o = .running ∧ t.pc = a else o = .failed (.jumpOutOfBounds a) := by
  simp only [jump]
  by_cases ha : a < 0 ∨ s.size ≤ a
  · rw [if_pos ha]
    refine ⟨_, _, rfl, rfl, returns_faulted _ _, ?_⟩
    rw [if_neg (by omega)]
  · rw [if_neg ha]
    refine ⟨_, _, rfl, rfl, rfl, ?_⟩
    rw [if_pos (by omega)]
    exact ⟨rfl, rfl⟩

end

variable {e : Engine}

/-- A turn that neither calls nor returns leaves the return stack as it is, down to the last stale
slot. -/
theorem returns_turn_of_other (hcall : ∀ params, e.decoded ≠ .ready .call params)
    (hret : ∀ params, e.decoded ≠ .ready .ret params) : e.turn.2.returns = e.returns := by
  cases hd : e.decoded with
  | outside =>
    rw [turn_of_outside hd]
    exact returns_faulted _ _
  | unknown w =>
    rw [turn_of_unknown hd]
    rfl
  | cut i =>
    rw [turn_of_cut hd]
    exact returns_faulted _ _
  | ready i params =>
    by_cases hi : i = .halt
    · subst hi
      rcases turn_cases_of_halt hd with ⟨m, _, hturn⟩ | ⟨_, hturn⟩
      · rw [hturn]
        rfl
      · rw [hturn]
        exact returns_faulted _ _
    · rcases turn_cases_of_ready hd hi with ⟨m, _, hturn⟩ | ⟨_, hturn⟩
      · have heffect := (contract_returns e.returns).effect
          (s := { e.loaded i params with monitor := m }) (fun h => hcall params (h ▸ hd))
          (fun h => hret params (h ▸ hd)) rfl (arity_le_of_ready hd)
        rw [hturn]
        generalize effect i _ = r at heffect ⊢
        cases heffect with
        | ok _ h => exact h.1
        | error _ h => exact (returns_faulted _ _).trans h.1
      · rw [hturn]
        exact returns_faulted _ _

/-- What the instruction at an address does to the return stack, once it is announced. Operands
have no say in it. -/
def moved (d : Decoded) (pc : Int) (returns : Stack) : Stack :=
  match d with
  | .ready .call _ =>
    match returns.push (pc + 2) with
    | .ok o => o
    | .error _ => returns
  | .ready .ret _ =>
    match returns.pop with
    | .ok (_, o) => o
    | .error _ => returns
  | _ => returns

/-- The turns, sorted by what they do to the return stack and add to the log. -/
inductive Moves (e : Engine) : Prop
  /-- The trace line of the instruction is refused, so it does nothing. -/
  | refused (ht : e.transfer? = none) (hr : e.turn.2.returns = e.returns)
      (hrefused : ¬ e.TracesFreely)
  /-- The instruction has nothing to do with the return stack, or the stack refuses. -/
  | kept (ht : e.transfer? = none) (hr : e.turn.2.returns = e.returns)
      (hm : moved e.decoded e.pc e.returns = e.returns)
  | called {params : List Int} (hd : e.decoded = .ready .call params)
      (ht : e.transfer? = some (.call e.pc)) (hr : e.returns.push (e.pc + 2) = .ok e.turn.2.returns)
  | returned {a : Int} (hd : e.decoded = .ready .ret []) (ht : e.transfer? = some .ret)
      (hr : e.returns.pop = .ok (a, e.turn.2.returns))
      (hjump : if 0 ≤ a ∧ a < e.size then e.turn.1 = .running ∧ e.turn.2.pc = a
        else e.turn.1 = .failed (.jumpOutOfBounds a))

/-- A turn that fails before its jump is not logged. It has not pushed or popped a return address.
-/
private theorem transfer?_of_failed {f : Fault} {s : Engine} (hturn : e.turn = (.failed f, s))
    (hf : ∀ a, f ≠ .jumpOutOfBounds a) : e.transfer? = none := by
  have hreached : e.turn.1.reachedJump = false := by
    rw [hturn]
    cases f with
    | jumpOutOfBounds a => exact absurd rfl (hf a)
    | _ => rfl
  simp only [transfer?, hreached]
  split <;> rfl

/-- A turn whose announcement is refused neither moves the stack nor is logged. The refusal comes
before the effect, so calls and returns share this case. -/
private theorem moves_of_refused {i : Instr} {params : List Int} (hd : e.decoded = .ready i params)
    (hrefused : announce i (e.loaded i params) = .error .traceRefused (e.loaded i params))
    (hturn : e.turn = (.failed .traceRefused, (e.loaded i params).faulted .traceRefused)) :
    Moves e := by
  refine .refused (transfer?_of_failed hturn nofun) ?_ fun hfree => ?_
  · rw [hturn]
    exact returns_faulted _ _
  · -- The operands are at hand, so nothing but the sink can have refused.
    obtain ⟨m, hm, _⟩ := announce_of_tracesFreely (e := e.loaded i params) hfree
      (arity_le_of_ready hd)
    rw [hm] at hrefused
    cases hrefused

/-- Turns at a call. The call is logged if its address was pushed, even where the jump fails. -/
private theorem moves_of_call {params : List Int} (hd : e.decoded = .ready .call params) :
    Moves e := by
  obtain ⟨x, _, hparams⟩ := block?_one (decode_eq_ready_iff.mp hd).2
  rcases turn_cases_of_ready hd nofun with ⟨m, _, hturn⟩ | ⟨hrefused, hturn⟩
  · generalize hs : ({ e.loaded .call params with monitor := m } : Engine) = s at hturn
    have hparams' : s.params = [x] := by
      rw [← hs]
      exact hparams
    -- By now the program counter is behind the operand.
    have hpush' : s.returns.push s.pc = e.returns.push (e.pc + 2) := by
      rw [← hs]
      show e.returns.push (e.pc + 1 + 1) = _
      rw [Int.add_assoc]
      rfl
    cases hpush : e.returns.push (e.pc + 2) with
    | ok u =>
      rw [hpush] at hpush'
      obtain ⟨o, t, hjump, hreached, hreturns, _⟩ :=
        concluded_jump (s := { s with returns := u }) x
      rw [effect_call hparams' hpush', hjump] at hturn
      -- Whether or not the target is valid, the address has been pushed.
      refine .called hd ?_ ?_
      · simp only [transfer?, hd, hturn, hreached, if_true]
      · rw [hpush, hturn, hreturns]
    | error f =>
      -- A full stack refuses, and the call does nothing.
      rw [hpush] at hpush'
      rw [effect_call_of_full hpush'] at hturn
      obtain ⟨_, rfl⟩ := Stack.push_eq_error_iff.mp hpush
      refine .kept (transfer?_of_failed hturn nofun) ?_ ?_
      · rw [hturn]
        show (s.faulted _).returns = _
        rw [returns_faulted, ← hs]
        rfl
      · simp only [moved, hd, hpush]
  · exact moves_of_refused hd hrefused hturn

/-- Turns at a return. The return is logged if an address was popped, even where the jump fails. -/
private theorem moves_of_ret {params : List Int} (hd : e.decoded = .ready .ret params) :
    Moves e := by
  have hparams : params = [] := (Option.some.inj (decode_eq_ready_iff.mp hd).2).symm
  subst hparams
  rcases turn_cases_of_ready hd nofun with ⟨m, _, hturn⟩ | ⟨hrefused, hturn⟩
  · generalize hs : ({ e.loaded .ret [] with monitor := m } : Engine) = s at hturn
    have hpop' : s.returns.pop = e.returns.pop := by
      rw [← hs]
      rfl
    have hsize : s.size = e.size := by
      rw [← hs]
      rfl
    cases hpop : e.returns.pop with
    | ok au =>
      obtain ⟨a, u⟩ := au
      rw [hpop] at hpop'
      obtain ⟨o, t, hjump, hreached, hreturns, hgoes⟩ :=
        concluded_jump (s := { s with returns := u }) a
      rw [effect_ret hpop', hjump] at hturn
      -- Likewise, the address is gone even if nothing stands there.
      refine .returned (a := a) hd ?_ ?_ ?_
      · simp only [transfer?, hd, hturn, hreached, if_true]
      · rw [hpop, hturn, hreturns]
      · rw [hturn, ← hsize]
        exact hgoes
    | error f =>
      rw [hpop] at hpop'
      rw [effect_ret_of_empty hpop'] at hturn
      obtain ⟨_, rfl⟩ := Stack.pop_eq_error_iff.mp hpop
      refine .kept (transfer?_of_failed hturn nofun) ?_ ?_
      · rw [hturn]
        show (s.faulted _).returns = _
        rw [returns_faulted, ← hs]
        rfl
      · simp only [moved, hd, hpop]
  · exact moves_of_refused hd hrefused hturn

/-- Every turn is of one of these sorts. Both halves of the result, the log and the addresses that
stay in place, are case analyses over them. -/
theorem moves (e : Engine) : Moves e := by
  by_cases hcall : ∃ params, e.decoded = .ready .call params
  · obtain ⟨params, hd⟩ := hcall
    exact moves_of_call hd
  by_cases hret : ∃ params, e.decoded = .ready .ret params
  · obtain ⟨params, hd⟩ := hret
    exact moves_of_ret hd
  have hcall' : ∀ params, e.decoded ≠ .ready .call params := fun params h => hcall ⟨params, h⟩
  have hret' : ∀ params, e.decoded ≠ .ready .ret params := fun params h => hret ⟨params, h⟩
  have ht : e.transfer? = none := by simp only [transfer?]
  have hm : moved e.decoded e.pc e.returns = e.returns := by simp only [moved]
  exact .kept ht (returns_turn_of_other hcall' hret') hm

/-- Unless its trace line is refused, an instruction does to the return stack what it always does
there. -/
theorem returns_turn (h : e.TracesFreely) :
    e.turn.2.returns = moved e.decoded e.pc e.returns := by
  cases moves e with
  | refused _ _ hrefused => exact absurd h hrefused
  | kept _ hr hm => rw [hr, hm]
  | called hd _ hr => simp only [moved, hd, hr]
  | returned hd _ hr _ => simp only [moved, hd, hr]

/-! ### Runs -/

/-- The log accounts for the return stack at every moment of a run. The induction adds one turn at
the end, where `moves` says what it does to both. -/
theorem transfers_nest (e : Engine) (n : Nat) :
    (Nesting.ofLog (e.transfers n)).returned ≤ e.returns.depth ∧
    (e.runFor n).2.returns.items = (Nesting.ofLog (e.transfers n)).applied e.returns.items := by
  -- The bound is part of the induction: a return can only pop an address that is there.
  induction n with
  | zero => exact ⟨Nat.zero_le _, rfl⟩
  | succ n ih =>
    cases hrun : e.runFor n with
    | mk o s =>
      rw [hrun] at ih
      by_cases ho : o = .running
      · subst ho
        rw [runFor_succ_of_running hrun]
        simp only [transfers, hrun]
        cases moves s with
        | refused ht hr _ | kept ht hr _ =>
          rw [ht, hr, Option.toList_none, List.append_nil]
          exact ih
        | called _ ht hr =>
          rw [ht, Option.toList_some, Nesting.ofLog_append_singleton, Nesting.applied_call, ← ih.2]
          exact ⟨ih.1, (Stack.items_push hr).1⟩
        | returned _ ht hr _ =>
          rw [ht, Option.toList_some, Nesting.ofLog_append_singleton]
          obtain ⟨hle, hitems⟩ := Nesting.applied_ret ih.1
            (ih.2.symm.trans (Stack.items_pop hr).1)
          exact ⟨hle, hitems.symm⟩
      · have hlog : e.transfers (n + 1) = e.transfers n := by
          simp only [transfers, hrun]
          cases o with
          | running => exact absurd rfl ho
          | halted | failed f => rfl
        rw [runFor_add_of_ended 1 hrun ho, hlog]
        exact ih

/-- A call that succeeds has left its return address on top. What is pushed while the call is
pending comes above it. -/
private theorem items_turn_of_call {params : List Int} (hd : e.decoded = .ready .call params)
    (hrun : e.turn.1 = .running) :
    e.turn.2.returns.items = (e.pc + 2) :: e.returns.items := by
  -- Only a turn that has pushed the address is logged as a call.
  have hlogged : e.transfer? = some (.call e.pc) := by
    simp [transfer?, hd, hrun, Outcome.reachedJump]
  cases moves e with
  | refused ht _ _ | kept ht _ _ => cases hlogged.symm.trans ht
  | called _ _ hr => exact (Stack.items_push hr).1
  | returned _ ht _ _ => cases hlogged.symm.trans ht

/-- A return address and everything below it stay in place for one more turn, unless the turn is
the return that goes there. No other instruction reaches that deep. -/
theorem turn_of_pending {a : Int} {base : List Int} (h : a :: base <:+ e.returns.items) :
    a :: base <:+ e.turn.2.returns.items ∨
    (e.decoded = .ready .ret [] ∧ e.turn.2.returns.items = base ∧
      if 0 ≤ a ∧ a < e.size then e.turn.1 = .running ∧ e.turn.2.pc = a
      else e.turn.1 = .failed (.jumpOutOfBounds a)) := by
  cases moves e with
  | refused _ hr _ | kept _ hr _ =>
    rw [hr]
    exact .inl h
  | called _ _ hr =>
    rw [(Stack.items_push hr).1]
    exact .inl (h.trans (List.suffix_cons _ _))
  | returned hd _ hr hjump =>
    rw [(Stack.items_pop hr).1] at h
    -- The address that is popped is the pending one or one above it.
    rcases List.suffix_cons_iff.mp h with heq | hbelow
    · obtain ⟨rfl, rfl⟩ := List.cons.inj heq
      exact .inr ⟨hd, rfl, hjump⟩
    · exact .inl hbelow

/-- After `m` iterations of a run of `e`, in the state `s`, a call succeeds. From then on and for
`k` iterations more the return stack is never as shallow as it was before the call. -/
structure Pending (e : Engine) (m k : Nat) (s : Engine) : Prop where
  reached : e.runFor m = (.running, s)
  call : ∃ params, s.decoded = .ready .call params
  succeeds : s.turn.1 = .running
  deeper : ∀ j, j ≤ k → (e.runFor (m + 1 + j)).2.returns.depth ≠ s.returns.depth

namespace Pending

variable {m k : Nat} {s : Engine}

/-- The call was read at some address, so the address is not negative. -/
private theorem pc_nonneg (h : Pending e m k s) : 0 ≤ s.pc := by
  obtain ⟨params, hd⟩ := h.call
  exact (bounds_of_word? (decode_eq_ready_iff.mp hd).1).1

/-- The return address of the call, and everything below it, is still there. A turn that took the
address off would have made the stack as shallow as before. -/
theorem suffix (h : Pending e m k s) :
    (s.pc + 2) :: s.returns.items <:+ (e.runFor (m + 1 + k)).2.returns.items := by
  induction k with
  | zero =>
    obtain ⟨params, hd⟩ := h.call
    have hitems := items_turn_of_call hd h.succeeds
    rw [Nat.add_zero, runFor_succ_of_running h.reached]
    exact ⟨[], hitems.symm⟩
  | succ k ih =>
    have hbefore := ih { h with deeper := fun j hj => h.deeper j (Nat.le_succ_of_le hj) }
    have hdepth := h.deeper (k + 1) (Nat.le_refl _)
    rw [← Nat.add_assoc] at hdepth ⊢
    cases hrun : e.runFor (m + 1 + k) with
    | mk o t =>
      rw [hrun] at hbefore
      by_cases ho : o = .running
      · subst ho
        rw [runFor_succ_of_running hrun] at hdepth ⊢
        rcases turn_of_pending hbefore with hstill | ⟨_, hitems, _⟩
        · exact hstill
        -- Had it been popped, the stack would be as shallow as before the call.
        · exact absurd (congrArg List.length hitems) hdepth
      · rw [runFor_add_of_ended 1 hrun ho]
        exact hbefore

/-- The iteration that makes the stack as shallow as before is the return of the call. It jumps
right behind the call, or fails if there is nothing. -/
theorem returns (h : Pending e m k s)
    (hdepth : (e.runFor (m + 1 + k + 1)).2.returns.depth = s.returns.depth) :
    ∃ t, e.runFor (m + 1 + k) = (.running, t) ∧ t.decoded = .ready .ret [] ∧
      t.turn.2.returns.items = s.returns.items ∧
      if s.pc + 2 < e.size then t.turn.1 = .running ∧ t.turn.2.pc = s.pc + 2
      else t.turn.1 = .failed (.jumpOutOfBounds (s.pc + 2)) := by
  -- While the return address is there, the stack is too deep.
  have htooDeep {u : Engine} (hu : (s.pc + 2) :: s.returns.items <:+ u.returns.items) :
      u.returns.depth ≠ s.returns.depth := by
    have hlength := hu.length_le
    rw [List.length_cons] at hlength
    exact Nat.ne_of_gt hlength
  have hsuffix := h.suffix
  have hpc := h.pc_nonneg
  cases hrun : e.runFor (m + 1 + k) with
  | mk o t =>
    have hsize : t.size = e.size := by
      simpa only [hrun] using (runFor_frame e (m + 1 + k)).size
    rw [hrun] at hsuffix
    by_cases ho : o = .running
    · subst ho
      rw [runFor_succ_of_running hrun] at hdepth
      rcases turn_of_pending hsuffix with hstill | ⟨hd, hitems, hjump⟩
      · exact absurd hdepth (htooDeep hstill)
      · refine ⟨t, rfl, hd, hitems, ?_⟩
        have hinside : (0 ≤ s.pc + 2 ∧ s.pc + 2 < t.size) ↔ s.pc + 2 < e.size := by omega
        simpa only [hinside] using hjump
    · rw [runFor_add_of_ended 1 hrun ho] at hdepth
      exact absurd hdepth (htooDeep hsuffix)

end Pending

/-- How the return stack behaves in the runs of an engine. -/
structure WellBracketed (e : Engine) : Prop where
  /-- At any moment, the log so far accounts for the return stack: of the addresses at the start
  it lacks one, from the top, for every return without a call, and it has one more on top for
  every call without a return. -/
  nested : ∀ n, (Nesting.ofLog (e.transfers n)).returned ≤ e.returns.depth ∧
    (e.runFor n).2.returns.items = (Nesting.ofLog (e.transfers n)).applied e.returns.items
  /-- While a call is pending, its return address and everything below it stay in place. -/
  kept : ∀ m k s, Pending e m k s →
    (s.pc + 2) :: s.returns.items <:+ (e.runFor (m + 1 + k)).2.returns.items
  /-- The iteration after which the stack is as deep as before the call is a return. It goes right
  behind the call, or fails because the program ends there. -/
  matched : ∀ m k s, Pending e m k s →
    (e.runFor (m + 1 + k + 1)).2.returns.depth = s.returns.depth →
    ∃ t, e.runFor (m + 1 + k) = (.running, t) ∧ t.decoded = .ready .ret [] ∧
      t.turn.2.returns.items = s.returns.items ∧
      if s.pc + 2 < e.size then t.turn.1 = .running ∧ t.turn.2.pc = s.pc + 2
      else t.turn.1 = .failed (.jumpOutOfBounds (s.pc + 2))
  /-- An iteration that neither calls nor returns leaves the return stack as it is. -/
  untouched : ∀ n s, e.runFor n = (.running, s) →
    (∀ params, s.decoded ≠ .ready .call params) → (∀ params, s.decoded ≠ .ready .ret params) →
    (e.runFor (n + 1)).2.returns = s.returns
  /-- What an iteration does to the return stack is the same whatever is on the operand stack,
  unless a trace line is refused. -/
  unswayed : ∀ n s o, e.runFor n = (.running, s) → s.TracesFreely →
    (e.runFor (n + 1)).2.returns = (turn { s with operands := o }).2.returns

/-- Calls and returns are well bracketed in every run of every engine, whatever it holds at the
start, and however calls, returns, jumps and work on the operands are interleaved. -/
theorem wellBracketed (e : Engine) : e.WellBracketed where
  nested := transfers_nest e
  kept _ _ _ h := h.suffix
  matched _ _ _ h := h.returns
  untouched n s hrun hcall hret := by
    rw [runFor_succ_of_running hrun]
    exact returns_turn_of_other hcall hret
  unswayed n s o hrun hfree := by
    have hother := returns_turn (e := { s with operands := o }) hfree
    rw [runFor_succ_of_running hrun, returns_turn hfree, hother]
    rfl

/-- The call that writes a letter is pending for two iterations, and the one after these returns
right behind it. -/
theorem wellBracketed_callLetter : Pending (callLetter false) 0 2 (callLetter false) ∧
    ∃ t, (callLetter false).runFor (0 + 1 + 2) = (.running, t) ∧ t.decoded = .ready .ret [] ∧
      t.turn.1 = .running ∧ t.turn.2.pc = 0 + 2 := by
  have hpending : Pending (callLetter false) 0 2 (callLetter false) :=
    ⟨rfl, ⟨[3], by decide +kernel⟩, by decide +kernel, by decide +kernel⟩
  have hdepth : ((callLetter false).runFor (0 + 1 + 2 + 1)).2.returns.depth
      = (callLetter false).returns.depth := by decide +kernel
  obtain ⟨t, hrun, hd, _, hjump⟩ :=
    (wellBracketed (callLetter false)).matched 0 2 (callLetter false) hpending hdepth
  rw [if_pos (by decide +kernel)] at hjump
  exact ⟨hpending, t, hrun, hd, hjump⟩

end Engine

end StackMachine
