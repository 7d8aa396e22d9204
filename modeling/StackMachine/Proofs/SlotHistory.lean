import StackMachine.Proofs.StackCoupling

/-!
# `StackMachine.Proofs.SlotHistory`: a stack as a bounded list with a history

A caller sees a stack through its calls: what a push or a pop gives, and what it leaves. This is
all that a list of bounded length has to offer as well, and `calls_of_empty` says that the two
cannot be told apart by any sequence of calls.

The slots show more than the content, since a pop leaves its value behind. `BoundedList` therefore
remembers every item that it has ever taken, together with the number of items that were there
before it. A slot is only written by a push at its own depth, so it holds the latest of the items
that were taken at that depth.

- `Stands s l`: the stack `s` has the room, the content and the slots of the list `l`.
- `stands_call`: a call is answered alike on both sides, and keeps them together.
- `stands_calls`: so is a sequence of calls.
-/

set_option autoImplicit false

namespace StackMachine

/-- A call of a stack. -/
inductive StackCall where
  | push (v : Int)
  | pop
  deriving DecidableEq, Repr

/-- What a call gives: the value of a pop, nothing for a push, or the cause of a refusal. -/
abbrev StackReply := Except Fault (Option Int)

/-- Make a call of a stack. A refused call leaves the stack as it was. -/
def Stack.call (s : Stack) : StackCall → StackReply × Stack
  | .push v =>
    match s.push v with
    | .ok t => (.ok none, t)
    | .error f => (.error f, s)
  | .pop =>
    match s.pop with
    | .ok (v, t) => (.ok (some v), t)
    | .error f => (.error f, s)

/-- Make calls of a stack in order. -/
def Stack.calls (s : Stack) : List StackCall → List StackReply × Stack
  | [] => ([], s)
  | c :: rest =>
    match s.call c with
    | (reply, t) =>
      match t.calls rest with
      | (replies, u) => (reply :: replies, u)

/-! ### Bounded lists -/

/-- A list of at most `n` items that remembers all it has taken. -/
structure BoundedList (n : Nat) where
  /-- The items, bottom first. -/
  items : List Int
  /-- The items taken so far, each with the number of items below it. The latest comes first. -/
  taken : List (Nat × Int)
  length_le : items.length ≤ n

namespace BoundedList

variable {n : Nat}

/-- The list without items that has never taken any. -/
def empty (n : Nat) : BoundedList n := ⟨[], [], Nat.zero_le n⟩

/-- The list after one more item. -/
def take (l : BoundedList n) (v : Int) (h : l.items.length ≠ n) : BoundedList n where
  items := l.items ++ [v]
  taken := (l.items.length, v) :: l.taken
  length_le := by
    have hle := l.length_le
    rw [List.length_append, List.length_singleton]
    omega

/-- The list without its last item. -/
def dropLast (l : BoundedList n) : BoundedList n where
  items := l.items.dropLast
  taken := l.taken
  length_le := by
    have hle := l.length_le
    rw [List.length_dropLast]
    omega

/-- Make a call of a list. A push is refused if the list is full, and a pop if it is empty. -/
def call (l : BoundedList n) : StackCall → StackReply × BoundedList n
  | .push v =>
    if h : l.items.length = n then (.error .stackOverflow, l) else (.ok none, l.take v h)
  | .pop =>
    match l.items.getLast? with
    | none => (.error .stackUnderflow, l)
    | some v => (.ok (some v), l.dropLast)

/-- Make calls of a list in order. -/
def calls (l : BoundedList n) : List StackCall → List StackReply × BoundedList n
  | [] => ([], l)
  | c :: rest =>
    match l.call c with
    | (reply, m) =>
      match m.calls rest with
      | (replies, k) => (reply :: replies, k)

/-- The latest of the taken items that had `i` items below it, or zero if there was none. -/
def latestAt (i : Nat) : List (Nat × Int) → Int
  | [] => 0
  | (depth, v) :: earlier => if depth = i then v else latestAt i earlier

end BoundedList

namespace Stack

open BoundedList (latestAt)

/-- The stack `s` stands for the list `l`. -/
structure Stands {n : Nat} (s : Stack) (l : BoundedList n) : Prop where
  capacity : s.capacity = n
  content : s.toList = l.items
  /-- A slot holds the latest item that was taken at its depth, whether or not it is still there. -/
  slot : ∀ i < n, s.slots[i]? = some (latestAt i l.taken)

section

variable {n : Nat} {s t : Stack} {l : BoundedList n} {v : Int}

/-- Empty stacks have slots that are zero, and nothing was taken yet. -/
private theorem stands_empty (n : Nat) : Stands (Stack.empty n) (BoundedList.empty n) where
  capacity := Nat.zero_add n
  content := rfl
  slot i hi := by
    show (List.replicate n (0 : Int))[i]? = some 0
    exact List.getElem?_replicate_of_lt hi

/-- The list is full exactly if no slot is free. -/
private theorem Stands.free_eq_zero_iff (h : Stands s l) : s.free = 0 ↔ l.items.length = n := by
  have hle := l.length_le
  rw [Stack.free_eq_zero_iff, h.content, h.capacity]
  omega

/-- The item that a push has taken is the latest one in its slot, and in no other. The depth before
the push is the place of that slot. -/
private theorem Stands.push (h : Stands s l) (hroom : l.items.length ≠ n)
    (hpush : s.push v = .ok t) :
    Stands t (l.take v hroom) where
  capacity := (capacity_push hpush).trans h.capacity
  content := by
    rw [toList_push hpush, h.content]
    rfl
  slot i hi := by
    have hdepth : s.depth = l.items.length := by rw [← length_toList, h.content]
    have hlength : s.slots.length = n := by rw [length_slots, h.capacity]
    rw [slots_push hpush, hdepth, List.getElem?_set]
    show _ = some (if l.items.length = i then v else latestAt i l.taken)
    by_cases hslot : l.items.length = i
    · have hin : l.items.length < s.slots.length := by
        rw [hlength, hslot]
        exact hi
      rw [if_pos hslot, if_pos hslot, if_pos hin]
    · rw [if_neg hslot, if_neg hslot]
      exact h.slot i hi

/-- A pop leaves the slots alone, and takes nothing. So the history, which is of items taken, is as
it was, and the list is shorter by one. -/
private theorem Stands.pop (h : Stands s l) (hpop : s.pop = .ok (v, t)) : Stands t l.dropLast where
  capacity := (capacity_pop hpop).trans h.capacity
  content := by
    show t.toList = l.items.dropLast
    rw [← h.content, toList_pop hpop, List.dropLast_concat]
  slot i hi := by
    rw [slots_pop hpop]
    exact h.slot i hi

/-- A stack and a list that stand for each other answer a call alike, and still stand for each
other afterwards. A refused call leaves both as they were. -/
theorem stands_call (h : Stands s l) (c : StackCall) :
    (s.call c).1 = (l.call c).1 ∧ Stands (s.call c).2 (l.call c).2 := by
  cases c with
  | push v =>
    cases hpush : s.push v with
    | ok t =>
      have hroom : l.items.length ≠ n := by
        rw [Ne, ← h.free_eq_zero_iff, (items_push hpush).2]
        exact Nat.succ_ne_zero _
      have hs : s.call (.push v) = (.ok none, t) := by simp only [call, hpush]
      have hl : l.call (.push v) = (.ok none, l.take v hroom) := dif_neg hroom
      rw [hs, hl]
      exact ⟨rfl, h.push hroom hpush⟩
    | error f =>
      obtain ⟨hfree, rfl⟩ := push_eq_error_iff.mp hpush
      have hs : s.call (.push v) = (.error .stackOverflow, s) := by simp only [call, hpush]
      have hl : l.call (.push v) = (.error .stackOverflow, l) :=
        dif_pos (h.free_eq_zero_iff.mp hfree)
      rw [hs, hl]
      exact ⟨rfl, h⟩
  | pop =>
    cases hpop : s.pop with
    | ok vt =>
      obtain ⟨v, t⟩ := vt
      have hlast : l.items.getLast? = some v := by
        rw [← h.content, toList_pop hpop, List.getLast?_concat]
      have hs : s.call .pop = (.ok (some v), t) := by simp only [call, hpop]
      have hl : l.call .pop = (.ok (some v), l.dropLast) := by
        simp only [BoundedList.call, hlast]
      rw [hs, hl]
      exact ⟨rfl, h.pop hpop⟩
    | error f =>
      obtain ⟨hnil, rfl⟩ := pop_eq_error_iff.mp hpop
      have hlast : l.items.getLast? = none := by rw [← h.content, hnil, List.getLast?_nil]
      have hs : s.call .pop = (.error .stackUnderflow, s) := by simp only [call, hpop]
      have hl : l.call .pop = (.error .stackUnderflow, l) := by
        simp only [BoundedList.call, hlast]
      rw [hs, hl]
      exact ⟨rfl, h⟩

/-- The same for any sequence of calls, by induction on it: the answers agree call by call, and
what the two sides are left with corresponds. -/
theorem stands_calls (h : Stands s l) (cs : List StackCall) :
    (s.calls cs).1 = (l.calls cs).1 ∧ Stands (s.calls cs).2 (l.calls cs).2 := by
  induction cs generalizing s l with
  | nil => exact ⟨rfl, h⟩
  | cons c rest ih =>
    obtain ⟨hreply, hstands⟩ := stands_call h c
    obtain ⟨hreplies, hend⟩ := ih hstands
    refine ⟨?_, hend⟩
    show (s.call c).1 :: ((s.call c).2.calls rest).1 = (l.call c).1 :: ((l.call c).2.calls rest).1
    rw [hreply, hreplies]

/-- A refused call changes nothing. -/
private theorem call_of_refused {c : StackCall} {f : Fault} (h : (s.call c).1 = .error f) :
    (s.call c).2 = s := by
  cases c with
  | push v =>
    cases hpush : s.push v with
    | ok t =>
      simp only [call, hpush] at h
      cases h
    | error g => simp only [call, hpush]
  | pop =>
    cases hpop : s.pop with
    | ok vt =>
      simp only [call, hpop] at h
      cases h
    | error g => simp only [call, hpop]

end

/-- A stack is a bounded list that remembers its history. A stack of `n` slots can be made for
every `n`, given room for it: how much there is belongs to the host, and memory without an end has
room for all of them. After any calls of it,

- its depth is at most its capacity, which is the number of its slots and still `n`;
- every call was answered as by a list of at most `n` items, and the content is that of the list;
- if the next call is refused, it changes nothing;
- a slot holds the latest item that was taken at its depth, and zero if there was none.

As the calls are any, this is so at every point between them. -/
theorem calls_of_empty (n : Nat) (cs : List StackCall) :
    let s := ((empty n).calls cs).2
    let l := ((BoundedList.empty n).calls cs).2
    (∀ memory : Memory, memory.hasRoom n → ofCapacity n memory = .ok (empty n)) ∧
    (s.depth ≤ s.capacity ∧ s.capacity = n ∧ s.slots.length = n) ∧
    ((empty n).calls cs).1 = ((BoundedList.empty n).calls cs).1 ∧
    s.toList = l.items ∧
    (∀ c f, (s.call c).1 = .error f → (s.call c).2 = s) ∧
    ∀ i < n, s.slots[i]? = some (latestAt i l.taken) := by
  intro s l
  obtain ⟨hreplies, hstands⟩ := stands_calls (stands_empty n) cs
  have hslots : s.slots.length = n := (length_slots s).trans hstands.capacity
  exact ⟨fun _ => ofCapacity_of_hasRoom,
    ⟨Nat.le_add_right _ _, hstands.capacity, hslots⟩, hreplies, hstands.content,
    fun _ _ => call_of_refused, hstands.slot⟩

/-- Two items are popped and one is pushed over the lower one. The upper one is still in its slot,
and the third slot was never written. -/
example : ((empty 3).calls [.push 7, .push 8, .pop, .pop, .push 9]).2.slots = [9, 8, 0] := by decide

end Stack

end StackMachine
