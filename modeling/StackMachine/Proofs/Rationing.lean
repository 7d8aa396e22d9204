import StackMachine.Proofs.Progress
import StackMachine.Proofs.Tracing

/-!
# `StackMachine.Proofs.Rationing`: sinks that run out of room

A limited sink is a total one with a ration: it takes the same items until the ration is used up,
and refuses the next. An engine that writes to the one sink therefore runs in lockstep with an
engine that writes to the other, until an iteration is refused. This module has what is common to
the sink of the trace and that of the output.

- `Sink.rationed` puts a ration on a sink, and `Sink.write_rationed` compares a write to both.
- `Coupling.together_or_parted`: two engines in lockstep stay together for ever, or they part in
  one iteration of a run that has gone on so far.
-/

set_option autoImplicit false

namespace StackMachine

namespace Sink

variable {α : Type}

/-- The sink with room for `k` items in all. What it has taken before counts. -/
def rationed (k : Nat) (s : Sink α) : Sink α := { s with accepts := (limited k).accepts }

/-- A total sink that has not taken more than `k` items. -/
structure Within (k : Nat) (s : Sink α) : Prop where
  total : s.Total
  le : s.toList.length ≤ k

/-- A sink that has taken nothing is within any ration. -/
theorem within_unlimited (k : Nat) : (unlimited : Sink α).Within k :=
  ⟨fun _ _ => rfl, Nat.zero_le k⟩

/-- A ration makes no difference to a write until it is used up. The two cases are those of the
lockstep: both sinks take the item, or the rationed one alone refuses it. -/
theorem write_rationed {k : Nat} {s : Sink α} (h : s.Within k) (a : α) :
    (∃ t, s.write a = some t ∧ (s.rationed k).write a = some (t.rationed k) ∧ t.Within k) ∨
      ((s.rationed k).write a = none ∧ s.toList.length = k) := by
  have hlength : s.toList.length = s.written.size := Array.length_toList
  have hle := h.le
  by_cases hroom : s.written.size < k
  · obtain ⟨t, hwrite, htotal⟩ := write_of_total h.total a
    have ht : t = { s with written := s.written.push a } := by
      rw [write, if_pos (h.total s.written a)] at hwrite
      exact (Option.some.inj hwrite).symm
    have htake : (s.rationed k).accepts s.written a = true := decide_eq_true hroom
    refine .inl ⟨t, hwrite, ?_, htotal, ?_⟩
    · rw [write, show (s.rationed k).written = s.written from rfl, if_pos htake, ht]
      rfl
    · rw [toList_write hwrite, List.length_append, List.length_singleton]
      omega
  · have hrefuse : (s.rationed k).accepts s.written a = false := decide_eq_false hroom
    refine .inr ⟨?_, by omega⟩
    rw [write, show (s.rationed k).written = s.written from rfl, hrefuse]
    rfl

/-- A ration that refuses an item is used up. So the refused item is the one behind `k` others,
which is how the position of a cut is known. -/
theorem length_of_refused {k : Nat} {s : Sink α} {a : α} (h : s.Within k)
    (hrefused : (s.rationed k).write a = none) : s.toList.length = k := by
  rcases write_rationed h a with ⟨t, _, hwrite, _⟩ | ⟨_, hlength⟩
  · rw [hrefused] at hwrite
    cases hwrite
  · exact hlength

end Sink

namespace Engine

/-! ### Where two runs part -/

/-- Two engines in lockstep stay together, or the first leaves the second behind in one iteration,
before which the runs of both have gone on. That iteration can then be looked at by itself. -/
theorem Coupling.together_or_parted {R : Engine → Engine → Prop} {X : Fault → Prop}
    (C : Coupling R X) (hprogram : ∀ s t, R s t → s.program = t.program)
    (hsize : ∀ s t, R s t → s.size = t.size) {s t : Engine} (h : R s t) (n : Nat) :
    (∃ o s' t', s.runFor n = (o, s') ∧ t.runFor n = (o, t') ∧ R s' t') ∨
      ∃ m s' t' f u, m < n ∧ s.runFor m = (.running, s') ∧ t.runFor m = (.running, t') ∧ R s' t' ∧
        s'.turn = (.failed f, u) ∧ X f := by
  induction n with
  | zero => exact .inl ⟨.running, s, t, rfl, rfl, h⟩
  | succ n ih =>
    rcases ih with ⟨o, s', t', hs, ht, hst⟩ | ⟨m, s', t', f, u, hm, hparted⟩
    · by_cases ho : o = .running
      · subst ho
        have hturn := C.runFor hprogram hsize hst 1
        rw [runFor_one, runFor_one] at hturn
        rw [runFor_succ_of_running hs, runFor_succ_of_running ht]
        generalize hx : s'.turn = x at hturn
        generalize t'.turn = y at hturn
        cases hturn with
        | same h => exact .inl ⟨_, _, _, rfl, rfl, h⟩
        | escape hf => exact .inr ⟨n, s', t', _, _, Nat.lt_succ_self n, hs, ht, hst, hx, hf⟩
      · rw [runFor_add_of_ended 1 hs ho, runFor_add_of_ended 1 ht ho]
        exact .inl ⟨o, s', t', rfl, rfl, hst⟩
    · exact .inr ⟨m, s', t', f, u, Nat.lt_succ_of_lt hm, hparted⟩

end Engine

end StackMachine
