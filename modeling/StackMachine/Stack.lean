import StackMachine.Fault

/-!
# `StackMachine.Stack`: a stack of bounded capacity

A stack owns a fixed number of slots, all zero at first. A pop leaves the popped value in its
slot; only the next push at that depth overwrites it.

The slots are held as a zipper at the top of the stack: `items` below the top, and above it
`free` slots of which the nearest ones still hold `stale` values. Slots farther up have never
been written and hold zero.

- `push` and `pop` are the two operations, and each may be refused.
- `Memory` is what a host has room for. It is a parameter wherever stacks are made.
- `ofCapacity` makes an empty stack of any capacity that is not negative, if there is room for
  it; `ofCapacity_eq_ok_iff` says so, and `ofCapacity_eq_error_iff` what happens otherwise.
- `toList` is the content, bottom first, and `slots` all the storage, bottom first.
- `toList_push` and `toList_pop` say what the operations do to the content,
  `push_eq_error_iff` and `pop_eq_error_iff` when they are refused.
- `capacity_push` and `capacity_pop` say that the number of slots never changes.
-/

set_option autoImplicit false

namespace StackMachine

/-- The memory of a host, as far as stacks need it. All slots of a stack are set aside when it is
made, so the host either has room for them or makes no stack. Nothing is known of how much room
there is: that is for the host to say. -/
structure Memory where
  /-- Whether there is room for a stack with so many slots. -/
  hasRoom : Nat → Bool

/-- Memory without an end. -/
def Memory.unlimited : Memory := ⟨fun _ => true⟩

/-- A stack with a fixed number of slots. -/
structure Stack where
  /-- The content, top first. -/
  items : List Int
  /-- The number of slots above the top. -/
  free : Nat
  /-- What slots above the top still hold, nearest to the top first. -/
  stale : List Int
  stale_le : stale.length ≤ free
  deriving Repr, DecidableEq

namespace Stack

/-- The empty stack with `n` slots. -/
def empty (n : Nat) : Stack := ⟨[], n, [], Nat.zero_le n⟩

/-- The empty stack of a capacity that a caller asks for. Where memory has no room for it, a number
of slots that cannot even be counted there is refused in words of its own. -/
def ofCapacity (capacity : Int) (memory : Memory := .unlimited) : Except Fault Stack :=
  if capacity < 0 then .error .negativeCapacity
  else if memory.hasRoom capacity.toNat then .ok (empty capacity.toNat)
  else .error (if Index.fits capacity then .outOfMemory else .countTooLarge)

/-- The number of slots. -/
def capacity (s : Stack) : Nat := s.items.length + s.free

/-- The number of items. -/
def depth (s : Stack) : Nat := s.items.length

/-- The content, bottom first. -/
def toList (s : Stack) : List Int := s.items.reverse

/-- All the storage, bottom first: the items, the stale values, and the untouched zeros. -/
def slots (s : Stack) : List Int :=
  s.items.reverse ++ s.stale ++ List.replicate (s.free - s.stale.length) 0

/-- Put a value on top. A stack without a free slot refuses. -/
def push (v : Int) (s : Stack) : Except Fault Stack :=
  match h : s.free with
  | 0 => .error .stackOverflow
  | free + 1 => .ok ⟨v :: s.items, free, s.stale.tail, by
      have := s.stale_le
      rw [List.length_tail]
      omega⟩

/-- Take the top value. Its slot keeps it as a stale value. An empty stack refuses. -/
def pop (s : Stack) : Except Fault (Int × Stack) :=
  match s.items with
  | [] => .error .stackUnderflow
  | v :: items => .ok (v, ⟨items, s.free + 1, v :: s.stale, by
      have := s.stale_le
      rw [List.length_cons]
      omega⟩)

/-! ### Capacity -/

variable {c : Int} {memory : Memory}

/-- A stack can be made exactly if its capacity is not negative and memory has room for it. There is
no other bound on the capacity. -/
theorem ofCapacity_eq_ok_iff {s : Stack} :
    ofCapacity c memory = .ok s ↔ 0 ≤ c ∧ memory.hasRoom c.toNat ∧ s = empty c.toNat := by
  simp only [ofCapacity]
  by_cases hneg : c < 0
  · rw [if_pos hneg]
    constructor
    · intro h
      cases h
    · rintro ⟨hpos, _, _⟩
      omega
  · rw [if_neg hneg]
    by_cases hroom : memory.hasRoom c.toNat = true
    · rw [if_pos hroom]
      constructor
      · intro h
        cases h
        exact ⟨by omega, hroom, rfl⟩
      · rintro ⟨_, _, rfl⟩
        rfl
    · rw [if_neg hroom]
      constructor
      · intro h
        cases h
      · rintro ⟨_, hroom', _⟩
        exact absurd hroom' hroom

/-- A stack of every number of slots can be made, if memory has room for it. What is proved of
fresh stacks and engines starts here, for any number. -/
theorem ofCapacity_of_hasRoom {n : Nat} (h : memory.hasRoom n) :
    ofCapacity n memory = .ok (empty n) :=
  ofCapacity_eq_ok_iff.mpr ⟨Int.natCast_nonneg n, h, rfl⟩

/-- A stack is refused for a negative capacity, or for want of room. Only then does it matter
whether the number of slots can be counted. -/
theorem ofCapacity_eq_error_iff {f : Fault} :
    ofCapacity c memory = .error f ↔ c < 0 ∧ f = .negativeCapacity ∨
      0 ≤ c ∧ memory.hasRoom c.toNat = false ∧
        f = if Index.fits c then .outOfMemory else .countTooLarge := by
  simp only [ofCapacity]
  by_cases hneg : c < 0
  · rw [if_pos hneg]
    constructor
    · intro h
      cases h
      exact .inl ⟨hneg, rfl⟩
    · rintro (⟨_, rfl⟩ | ⟨hpos, _, _⟩)
      · rfl
      · omega
  · rw [if_neg hneg]
    cases hroom : memory.hasRoom c.toNat with
    | true =>
      rw [if_pos rfl]
      constructor
      · intro h
        cases h
      · rintro (⟨hneg', _⟩ | ⟨_, hfalse, _⟩)
        · exact absurd hneg' hneg
        · cases hfalse
    | false =>
      rw [if_neg Bool.false_ne_true]
      constructor
      · intro h
        exact .inr ⟨by omega, rfl, (Except.error.inj h).symm⟩
      · rintro (⟨hneg', _⟩ | ⟨_, _, rfl⟩)
        · exact absurd hneg' hneg
        · rfl

/-! ### Content -/

/-- A push is refused exactly if no slot is free. The value does not matter, nor what stale values
there are. -/
theorem push_eq_error_iff {v : Int} {s : Stack} {f : Fault} :
    s.push v = .error f ↔ s.free = 0 ∧ f = .stackOverflow := by
  simp only [push]
  split
  · rename_i hfree
    constructor
    · intro h
      cases h
      exact ⟨hfree, rfl⟩
    · rintro ⟨_, rfl⟩
      rfl
  · rename_i free hfree
    constructor
    · intro h
      cases h
    · rintro ⟨hzero, _⟩
      omega

/-- A pop is refused exactly if the stack is empty, and underflow is the only cause for it. -/
theorem pop_eq_error_iff {s : Stack} {f : Fault} :
    s.pop = .error f ↔ s.toList = [] ∧ f = .stackUnderflow := by
  simp only [pop, toList]
  split
  · rename_i hitems
    constructor
    · intro h
      cases h
      exact ⟨by rw [hitems, List.reverse_nil], rfl⟩
    · rintro ⟨_, rfl⟩
      rfl
  · rename_i v items hitems
    constructor
    · intro h
      cases h
    · rintro ⟨hnil, _⟩
      rw [hitems] at hnil
      cases List.reverse_eq_nil_iff.mp hnil

/-- A push adds its value at the top, and the content below stays as it was. -/
theorem toList_push {v : Int} {s t : Stack} (h : s.push v = .ok t) :
    t.toList = s.toList ++ [v] := by
  simp only [push] at h
  split at h
  · cases h
  · cases h
    exact List.reverse_cons

/-- A pop takes the value at the top, and nothing below it. It is the equation of `toList_push`
with the two stacks exchanged. -/
theorem toList_pop {v : Int} {s t : Stack} (h : s.pop = .ok (v, t)) :
    s.toList = t.toList ++ [v] := by
  simp only [pop] at h
  split at h
  · cases h
  · rename_i items hitems
    cases h
    show s.items.reverse = items.reverse ++ [v]
    rw [hitems, List.reverse_cons]

/-- A push adds its value to the items and takes one free slot. Counting arguments use this form;
for the content see `toList_push`. -/
theorem items_push {v : Int} {s t : Stack} (h : s.push v = .ok t) :
    t.items = v :: s.items ∧ s.free = t.free + 1 := by
  simp only [push] at h
  split at h
  · cases h
  · rename_i free hfree
    cases h
    exact ⟨rfl, hfree⟩

/-- A pop takes its value from the items and frees one slot. -/
theorem items_pop {v : Int} {s t : Stack} (h : s.pop = .ok (v, t)) :
    s.items = v :: t.items ∧ t.free = s.free + 1 := by
  simp only [pop] at h
  split at h
  · cases h
  · rename_i items hitems
    cases h
    exact ⟨hitems, rfl⟩

/-! ### Slots -/

/-- There are as many slots as the capacity says. The zipper does not lose any: what is not an item
is free, and what is not stale is still zero. -/
theorem length_slots (s : Stack) : s.slots.length = s.capacity := by
  have := s.stale_le
  simp only [slots, capacity, List.length_append, List.length_reverse, List.length_replicate]
  omega

/-- The slots below the top hold the content. The slots above it may hold anything that was there
before. -/
theorem take_depth_slots (s : Stack) : s.slots.take s.depth = s.toList := by
  simp [slots, depth, toList, List.append_assoc]

/-- A pop leaves all slots as they are: the popped value stays where it was, as a stale one, until
a push takes that slot again. -/
theorem slots_pop {v : Int} {s t : Stack} (h : s.pop = .ok (v, t)) : t.slots = s.slots := by
  simp only [pop] at h
  split at h
  · cases h
  · rename_i items hitems
    cases h
    have hlen : s.free + 1 - (s.stale.length + 1) = s.free - s.stale.length := by omega
    simp only [slots, hitems, List.reverse_cons, List.length_cons, hlen, List.append_assoc,
      List.cons_append, List.nil_append]

/-- A push writes to the first slot above the top and to no other. -/
theorem slots_push {v : Int} {s t : Stack} (h : s.push v = .ok t) :
    t.slots = s.slots.set s.depth v := by
  simp only [push] at h
  split at h
  · cases h
  · rename_i free hfree
    cases h
    have hdepth : s.items.reverse.length = s.depth := List.length_reverse
    simp only [slots, List.reverse_cons, List.append_assoc, ← hdepth, hfree]
    rw [List.set_append_right _ _ (Nat.le_refl _), Nat.sub_self]
    -- The slot is a stale one, or one that was never written.
    cases hstale : s.stale with
    | nil => simp [List.replicate_succ]
    | cons a rest =>
      have hlen : free + 1 - (rest.length + 1) = free - rest.length := by omega
      simp [hlen]

/-- A push keeps the capacity: the slot that it takes was a free one. So a stack never grows beyond
what was asked for when it was made. -/
theorem capacity_push {v : Int} {s t : Stack} (h : s.push v = .ok t) :
    t.capacity = s.capacity := by
  simp only [push] at h
  split at h
  · cases h
  · cases h
    simp only [capacity, List.length_cons]
    omega

/-- A pop keeps the capacity: the slot that it frees stays. -/
theorem capacity_pop {v : Int} {s t : Stack} (h : s.pop = .ok (v, t)) :
    t.capacity = s.capacity := by
  simp only [pop] at h
  split at h
  · cases h
  · rename_i items hitems
    cases h
    simp only [capacity, hitems, List.length_cons]
    omega

end Stack

end StackMachine
