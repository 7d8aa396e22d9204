import StackMachine.Proofs.Congruence
import StackMachine.Proofs.StraightLine

/-!
# `StackMachine.Proofs.Summation`: additions in a row add up

An addition wraps its sum, and the next addition wraps again. Wrapping keeps residues, so what is
left after several additions is the exact sum of all the items, wrapped once. The order of the items
does not matter then, and neither does whether they were words before.

- `total` is the exact sum. `total_of_perm` and `wrap_total_of_allCongruent` say what its word does
  not depend on, and `wrap_total_merge` that adding two items first makes no difference.
- `items_of_execute_add` tells what an addition has done that succeeds, and `execute_add_of_two` and
  `execute_add_of_one` when it succeeds.
- `addEach` executes an addition several times, and stops at the first that fails. `fold_additions`
  is the same for straight-line code of additions, and so for a run.
- `additions_total`: what is left is the total of the items that were taken, or nothing once they
  have run out.
-/

set_option autoImplicit false

namespace StackMachine

namespace Word

/-- The sum of integers. -/
def total (vs : List Int) : Int := vs.foldr (· + ·) 0

variable {us vs : List Int}

/-- The first summand is added to the rest. -/
private theorem total_cons (v : Int) (vs : List Int) : total (v :: vs) = v + total vs := rfl

/-- The total of two integers is their sum. -/
private theorem total_pair (u v : Int) : total [u, v] = u + v := by
  show u + (v + 0) = u + v
  rw [Int.add_zero]

/-- Two of the summands may be added and wrapped before the others are. This is one addition in a
row of several. -/
theorem wrap_total_merge (u v : Int) (vs : List Int) :
    wrap (total (wrap (u + v) :: vs)) = wrap (total (u :: v :: vs)) := by
  rw [total_cons, total_cons, total_cons, wrap_wrap_add, Int.add_assoc]

/-- The order of the summands does not matter. -/
private theorem total_of_perm (h : us.Perm vs) : total us = total vs := by
  induction h with
  | nil => rfl
  | cons v _ ih => rw [total_cons, total_cons, ih]
  | swap u v vs =>
    simp only [total_cons]
    omega
  | trans _ _ ih ih' => exact ih.trans ih'

/-- Nor does it matter whether they are wrapped first. -/
private theorem wrap_total_map_wrap (vs : List Int) :
    wrap (total (vs.map wrap)) = wrap (total vs) := by
  induction vs with
  | nil => rfl
  | cons v vs ih =>
    -- Both summands are wrapped on the left, one after the other.
    calc wrap (wrap v + total (vs.map wrap))
      _ = wrap (v + total (vs.map wrap)) := wrap_wrap_add v _
      _ = wrap (wrap (total (vs.map wrap)) + v) := by rw [wrap_wrap_add, Int.add_comm]
      _ = wrap (v + total vs) := by rw [ih, wrap_wrap_add, Int.add_comm]

/-- The word of a total depends on the residues of the summands alone. So congruent items lead to
the same sum, in any order. -/
private theorem wrap_total_of_allCongruent (h : AllCongruent us vs) :
    wrap (total us) = wrap (total vs) := by
  rw [← wrap_total_map_wrap us, map_wrap_eq_iff.mpr h, wrap_total_map_wrap]

end Word

namespace Engine

open Straight (assemble fold)
open Word (total AllCongruent)

/-! ### One addition -/

section

variable {e t : Engine} {params : List Int} {a b : Int} {rest : List Int}

/-- An addition that succeeds has put the wrapped sum of the two items at the top in their place,
and the items below are as they were. -/
theorem items_of_execute_add (h : execute Instr.add.opcode params e = .ok () t) :
    ∃ a b rest, e.operands.items = a :: b :: rest ∧
      t.operands.items = Word.wrap (a + b) :: rest := by
  rw [execute_of_opcode, if_neg nofun] at h
  obtain ⟨_, s, hannounce, heffect⟩ := bind_eq_ok h
  -- The announcement has changed nothing but the monitor.
  rcases announce_cases (e := e.given Instr.add.opcode params e.monitor) (i := .add)
    (Nat.zero_le _) with ⟨m, hm⟩ | ⟨_, herror⟩
  · rw [hm] at hannounce
    cases hannounce
    cases effected_of_ok heffect with
    | @add a b o u r hfirst hsecond hpush =>
      have ha : e.operands.items = a :: o.items := (Stack.items_pop hfirst).1
      have hb : o.items = b :: u.items := (Stack.items_pop hsecond).1
      have hsum : r.items = Word.wrap (a + b) :: u.items := (Stack.items_push hpush).1
      exact ⟨a, b, u.items, by rw [ha, hb], hsum⟩
  · rw [herror] at hannounce
    cases hannounce

/-- An addition comes down to its effect if its announcement is not refused. It needs no operand,
so none can be missing. -/
private theorem execute_add (hfree : e.TracesFreely) (params : List Int) :
    ∃ m, TracesFreely (e.given Instr.add.opcode params m) ∧
      execute Instr.add.opcode params e = effect .add (e.given Instr.add.opcode params m) := by
  have hfree' : TracesFreely (e.given Instr.add.opcode params e.monitor) := hfree
  obtain ⟨m, hm, hfree''⟩ := announce_of_tracesFreely hfree' (i := .add) (Nat.zero_le _)
  exact ⟨m, hfree'', execute_of_announced nofun hm⟩

/-- With two items at the top, an addition succeeds: what it pops makes room for the sum. -/
private theorem execute_add_of_two (hfree : e.TracesFreely) (params : List Int)
    (h : e.operands.items = a :: b :: rest) :
    ∃ t, execute Instr.add.opcode params e = .ok () t ∧ t.TracesFreely := by
  obtain ⟨m, hfree', hexecute⟩ := execute_add hfree params
  cases heffect : effect .add (e.given Instr.add.opcode params m) with
  | ok u t =>
    refine ⟨t, hexecute.trans heffect, ?_⟩
    cases effected_of_ok heffect with
    | add _ _ _ => exact hfree'
  | error f t =>
    -- An addition is blocked only for want of an item, the first or the second one.
    cases blocked_of_error heffect with
    | empty _ hnil =>
      have hitems : e.operands.items = [] := List.reverse_eq_nil_iff.mp hnil
      rw [h] at hitems
      cases hitems
    | add hfirst hnil =>
      have hitems := (Stack.items_pop hfirst).1
      rw [List.reverse_eq_nil_iff.mp hnil] at hitems
      cases h.symm.trans hitems
    | branch hv _ _ _ | branchMissing hv _ _ => exact hv.elim

/-- With one item, an addition consumes it and fails. So a failing sequence of additions leaves an
empty stack behind. -/
private theorem execute_add_of_one (hfree : e.TracesFreely) (params : List Int)
    (h : e.operands.items = [a]) :
    ∃ t, execute Instr.add.opcode params e = .error .stackUnderflow t ∧
      t.operands.items = [] := by
  obtain ⟨m, _, hexecute⟩ := execute_add hfree params
  obtain ⟨o, hfirst, ho, _⟩ := Stack.pop_of_cons h
  have hnil : o.toList = [] := by rw [Stack.toList, ho, List.reverse_nil]
  have hblocked : Blocked (e.given Instr.add.opcode params m) .add .stackUnderflow _ :=
    .add hfirst hnil
  exact ⟨_, hexecute.trans (effect_of_blocked hblocked), ho⟩

end

/-! ### Additions in a row -/

/-- Execute an addition once for each of the given lists of operands. The first that fails ends
this. -/
def addEach : List (List Int) → Action Unit
  | [] => pure ()
  | params :: rest => do
    execute Instr.add.opcode params
    addEach rest

section

variable {e t : Engine} {ps qs : List (List Int)} {vs base : List Int}

/-- Additions that succeed are followed by the rest. -/
private theorem addEach_append_of_ok (h : addEach ps e = .ok () t) (qs : List (List Int)) :
    addEach (ps ++ qs) e = addEach qs t := by
  induction ps generalizing e with
  | nil =>
    cases h
    rfl
  | cons params rest ih =>
    obtain ⟨_, s, hfirst, hrest⟩ := bind_eq_ok h
    exact (bind_of_ok hfirst).trans (ih hrest)

/-- Additions that succeed leave the word of the total in the place of the items that they took.
The induction is on the additions, and each merges two of the items. -/
theorem items_of_addEach (hne : ps ≠ []) (hlength : vs.length = ps.length + 1)
    (hitems : e.operands.items = vs ++ base) (h : addEach ps e = .ok () t) :
    t.operands.items = Word.wrap (total vs) :: base := by
  induction ps generalizing e vs with
  | nil => exact absurd rfl hne
  | cons params rest ih =>
    obtain ⟨_, s, hfirst, hrest⟩ := bind_eq_ok h
    obtain ⟨a, b, below, hbefore, hafter⟩ := items_of_execute_add hfirst
    match vs, hlength with
    | a' :: b' :: vs, hlength =>
      rw [hitems] at hbefore
      cases hbefore
      cases rest with
      | nil =>
        -- This was the last addition, so there were two items.
        have hnil : vs = [] := List.eq_nil_of_length_eq_zero (by simpa using hlength)
        subst hnil
        cases hrest
        rw [hafter, Word.total_pair]
        rfl
      | cons params' rest =>
        have hlength' : (Word.wrap (a + b) :: vs).length = (params' :: rest).length + 1 := by
          simpa using hlength
        rw [ih (List.cons_ne_nil _ _) hlength' hafter hrest, Word.wrap_total_merge]

/-- As long as there are items left to add, additions succeed. Each takes one item, so one item is
left after one addition less than there were items. -/
private theorem exists_addEach (hfree : e.TracesFreely) (h : ps.length < e.operands.items.length) :
    ∃ t, addEach ps e = .ok () t ∧ t.TracesFreely ∧
      t.operands.items.length + ps.length = e.operands.items.length := by
  induction ps generalizing e with
  | nil => exact ⟨e, rfl, hfree, rfl⟩
  | cons params rest ih =>
    match hitems : e.operands.items with
    | [] | [_] =>
      rw [hitems] at h
      simp at h
    | a :: b :: below =>
      obtain ⟨s, hfirst, hfree'⟩ := execute_add_of_two hfree params hitems
      obtain ⟨a', b', below', hbefore, hafter⟩ := items_of_execute_add hfirst
      cases hitems.symm.trans hbefore
      have hlength : s.operands.items.length + 1 = e.operands.items.length := by
        rw [hafter, hitems]
        rfl
      rw [List.length_cons] at h
      obtain ⟨t, hrest, hfree'', hleft⟩ := ih hfree' (by omega)
      refine ⟨t, (bind_of_ok hfirst).trans hrest, hfree'', ?_⟩
      rw [← hitems, List.length_cons]
      omega

/-- With as many additions as items, or more, the one that finds a single item consumes it and
fails. All before it succeed. -/
theorem addEach_of_le (hfree : e.TracesFreely) (hne : e.operands.items ≠ [])
    (h : e.operands.items.length ≤ ps.length) :
    ∃ front params rest s t, ps = front ++ params :: rest ∧
      front.length + 1 = e.operands.items.length ∧ addEach front e = .ok () s ∧
      execute Instr.add.opcode params s = .error .stackUnderflow t ∧ t.operands.items = [] ∧
      addEach ps e = .error .stackUnderflow t := by
  have hpos := List.length_pos_iff.mpr hne
  let k := e.operands.items.length - 1
  have hk : k < ps.length := by omega
  have hsplit : ps = ps.take k ++ ps[k] :: ps.drop (k + 1) := by
    rw [← List.drop_eq_getElem_cons hk, List.take_append_drop]
  have htake : (ps.take k).length = k := List.length_take_of_le (by omega)
  obtain ⟨s, hs, hfree', hleft⟩ :=
    exists_addEach hfree (show (ps.take k).length < e.operands.items.length by omega)
  obtain ⟨a, ha⟩ : ∃ a, s.operands.items = [a] := List.length_eq_one_iff.mp (by omega)
  obtain ⟨t, ht, hnil⟩ := execute_add_of_one hfree' ps[k] ha
  refine ⟨ps.take k, ps[k], ps.drop (k + 1), s, t, hsplit, by omega, hs, ht, hnil, ?_⟩
  rw [hsplit, addEach_append_of_ok hs]
  exact bind_of_error ht

end

/-! ### Code of additions -/

section

variable {c n : Nat} {e : Engine} {vs base : List Int} {out : List Char}

/-- Additions fold the items at the top into the word of their total, whatever is below them and
written so far. -/
theorem fold_additions (h : vs.length = n + 2) :
    fold c ⟨vs ++ base, out⟩ (List.replicate (n + 1) .add)
      = .ok ⟨Word.wrap (total vs) :: base, out⟩ := by
  induction n generalizing vs with
  | zero =>
    match vs, h with
    | [a, b], _ =>
      rw [Word.total_pair]
      rfl
  | succ n ih =>
    match vs, h with
    | a :: b :: vs, h =>
      have hlength : (Word.wrap (a + b) :: vs).length = n + 2 := by simpa using h
      have hrest := ih hlength
      rw [Word.wrap_total_merge] at hrest
      exact hrest

/-- One addition less than there are items folds them into a single one. -/
private theorem fold_additions_all (h : vs.length = n + 1) :
    ∃ v, fold c ⟨vs, out⟩ (List.replicate n .add) = .ok ⟨[v], out⟩ := by
  cases n with
  | zero =>
    obtain ⟨v, rfl⟩ := List.length_eq_one_iff.mp h
    exact ⟨v, rfl⟩
  | succ n =>
    have hfold : fold c ⟨vs ++ [], out⟩ (List.replicate (n + 1) .add)
        = .ok ⟨[Word.wrap (total vs)], out⟩ := fold_additions h
    rw [List.append_nil] at hfold
    exact ⟨_, hfold⟩

/-- A run over more additions than it has items to add ends with the one that finds a single item.
-/
theorem endsIn_of_additions (hfree : e.Unobstructed)
    (hfaces : Faces (assemble (List.replicate n .add)) e) (hne : e.operands.items ≠ [])
    (h : e.operands.items.length ≤ n) :
    ∃ t, EndsIn e (.failed .stackUnderflow) t ∧ t.operands.items = [] := by
  obtain ⟨k, hk⟩ : ∃ k, e.operands.items.length = k + 1 :=
    Nat.exists_eq_add_one.mpr (List.length_pos_iff.mpr hne)
  obtain ⟨v, hfold⟩ : ∃ v, fold e.operands.capacity e.desk (List.replicate k .add)
      = .ok ⟨[v], e.output.toList⟩ := fold_additions_all hk
  have hsplit : List.replicate n Straight.add
      = (List.replicate k .add ++ [.add]) ++ List.replicate (n - (k + 1)) .add := by
    rw [← List.replicate_succ', List.replicate_append_replicate]
    congr 1
    omega
  rw [hsplit, Straight.assemble_append] at hfaces
  obtain ⟨t, hends, _, hdesk, _⟩ := endsIn_of_apply_error hfree hfaces hfold rfl
  exact ⟨t, hends, congrArg Desk.items hdesk⟩

end

/-- Additions compute the wrapped exact sum, in any order. Execute additions one after the other,
with any operands, which they ignore.

- `n` additions that succeed, for a positive `n`, replace the `n + 1` items at the top by the word
  of their total, and leave the items below alone. They do succeed, unless a line that they trace is
  refused.
- The word is the same for every order of these items, and also if each is replaced by a congruent
  one.
- On a stack of `m` items, for a positive `m`, the first `m - 1` of at least `m` additions succeed.
  The next one finds a single item. It underflows and leaves the stack empty.
- A run that comes to `n` additions in the program does all this as well, if its sinks take
  everything. -/
theorem additions_total :
    (∀ (e : Engine) (ps : List (List Int)) (vs base : List Int), ps ≠ [] →
      vs.length = ps.length + 1 → e.operands.items = vs ++ base →
      (∀ t, addEach ps e = .ok () t → t.operands.items = Word.wrap (total vs) :: base ∧
        ∀ us ws, vs.Perm us → AllCongruent us ws →
          t.operands.items = Word.wrap (total ws) :: base) ∧
      (e.TracesFreely → ∃ t, addEach ps e = .ok () t)) ∧
    (∀ (e : Engine) (ps : List (List Int)), e.TracesFreely → e.operands.items ≠ [] →
      e.operands.items.length ≤ ps.length →
      ∃ front params rest s t, ps = front ++ params :: rest ∧
        front.length + 1 = e.operands.items.length ∧ addEach front e = .ok () s ∧
        execute Instr.add.opcode params s = .error .stackUnderflow t ∧ t.operands.items = [] ∧
        addEach ps e = .error .stackUnderflow t) ∧
    ∀ (e : Engine) (n : Nat), e.Unobstructed → Faces (assemble (List.replicate n .add)) e →
      (∀ vs base, 0 < n → vs.length = n + 1 → e.operands.items = vs ++ base →
        ∃ t, e.runFor n = (.running, t) ∧ t.operands.items = Word.wrap (total vs) :: base) ∧
      (e.operands.items ≠ [] → e.operands.items.length ≤ n →
        ∃ t, EndsIn e (.failed .stackUnderflow) t ∧ t.operands.items = []) := by
  refine ⟨fun e ps vs base hne hlength hitems => ⟨fun t ht => ?_, fun hfree => ?_⟩,
    fun e ps hfree hne h => addEach_of_le hfree hne h,
    fun e n hfree hfaces => ⟨fun vs base hn hlength hitems => ?_,
      fun hne h => endsIn_of_additions hfree hfaces hne h⟩⟩
  · have htotal := items_of_addEach hne hlength hitems ht
    refine ⟨htotal, fun us ws hperm hcongruent => ?_⟩
    rw [htotal, Word.total_of_perm hperm, Word.wrap_total_of_allCongruent hcongruent]
  · have hlt : ps.length < e.operands.items.length := by
      rw [hitems, List.length_append]
      omega
    obtain ⟨t, ht, _⟩ := exists_addEach hfree hlt
    exact ⟨t, ht⟩
  · obtain ⟨n, rfl⟩ := Nat.exists_eq_add_one.mpr hn
    have hdesk : e.desk = ⟨vs ++ base, e.output.toList⟩ := by rw [desk, hitems]
    obtain ⟨t, hrun, ht⟩ := runFor_of_fold hfree hfaces (hdesk ▸ fold_additions hlength)
    rw [List.length_replicate] at hrun
    exact ⟨t, hrun, congrArg Desk.items ht.desk⟩

/-- Of three items one is far beyond a word. In the other order, and with that item replaced by a
congruent one, they have the same sum. A third addition takes the item below as well, and a fourth
one finds nothing to add to it. -/
theorem additions_total_three :
    let e : Engine := { callLetter true with
      operands := ⟨[2147483647, 4294967296000000000001, -5, 9], 0, [], Nat.le_refl 0⟩ }
    let two : List Straight := List.replicate 2 .add
    let four : List Straight := List.replicate 4 .add
    e.Unobstructed ∧
    (∃ t, addEach [[], [7]] e = .ok () t ∧ t.operands.items = [2147483643, 9] ∧
      t.operands.items = [Word.wrap (total [-5, 1, 2147483647]), 9]) ∧
    (∃ t, addEach [[], [7], [], []] e = .error .stackUnderflow t ∧ t.operands.items = []) ∧
    (∃ t, (e.withCode two).runFor 2 = (.running, t) ∧ t.operands.items = [2147483643, 9]) ∧
    ∃ t, EndsIn (e.withCode four) (.failed .stackUnderflow) t ∧ t.operands.items = [] := by
  intro e two four
  have hfree : e.Unobstructed := ⟨fun _ _ => rfl, fun _ _ _ => rfl⟩
  have hloaded (is : List Straight) : (e.withCode is).Unobstructed :=
    ⟨fun _ _ => rfl, fun _ _ _ => rfl⟩
  have hword : Word.wrap (total [2147483647, 4294967296000000000001, -5]) = 2147483643 := by
    decide +kernel
  have hcongruent : AllCongruent [-5, 4294967296000000000001, 2147483647] [-5, 1, 2147483647] :=
    Word.map_wrap_eq_iff.mp (by decide +kernel)
  obtain ⟨hsum, hunder, hrun⟩ := additions_total
  -- By hand.
  obtain ⟨htotal, hdone⟩ := hsum e [[], [7]] [2147483647, 4294967296000000000001, -5] [9]
    (List.cons_ne_nil _ _) rfl rfl
  obtain ⟨t, ht⟩ := hdone hfree.trace
  obtain ⟨hitems, hsame⟩ := htotal t ht
  obtain ⟨_, _, _, _, u, _, _, _, _, hnil, hu⟩ := hunder e [[], [7], [], []] hfree.trace
    (List.cons_ne_nil _ _) (Nat.le_refl 4)
  -- In a run.
  obtain ⟨r, hr, hritems⟩ := (hrun (e.withCode two) 2 (hloaded two) (faces_withCode rfl).left).1
    [2147483647, 4294967296000000000001, -5] [9] Nat.zero_lt_two rfl rfl
  have hends := (hrun (e.withCode four) 4 (hloaded four) (faces_withCode rfl).left).2
    (List.cons_ne_nil _ _) (Nat.le_refl 4)
  rw [hword] at hitems hritems
  exact ⟨hfree, ⟨t, ht, hitems, hsame _ _ (List.reverse_perm _).symm hcongruent⟩, ⟨u, hu, hnil⟩,
    ⟨r, hr, hritems⟩, hends⟩

end Engine

end StackMachine
