/-!
# `StackMachine.Sink`: where output goes

A sink takes items one by one and keeps them in order. It may refuse an item, depending on the
item and on what it has taken so far; a refused item leaves it as it is.

- `Sink.write` is the only operation.
- `Sink.unlimited` takes everything, and `Sink.limited n` takes `n` items and no more.
-/

set_option autoImplicit false

namespace StackMachine

/-- A sink for items of type `α`. -/
structure Sink (α : Type) where
  /-- The items taken so far, in order. -/
  written : Array α
  /-- Whether the sink takes an item after the given ones. -/
  accepts : Array α → α → Bool

namespace Sink

variable {α : Type}

/-- An empty sink that takes everything. -/
def unlimited : Sink α := ⟨#[], fun _ _ => true⟩

/-- An empty sink that takes `n` items. -/
def limited (n : Nat) : Sink α := ⟨#[], fun taken _ => taken.size < n⟩

/-- The items taken so far. -/
def toList (s : Sink α) : List α := s.written.toList

/-- The sink after one more item, or `none` if it refuses the item. -/
@[inline]
def write (s : Sink α) (a : α) : Option (Sink α) :=
  if s.accepts s.written a then some { s with written := s.written.push a } else none

/-- A written item comes last, and the items taken before it stay as they were. What was written is
never taken back. -/
theorem toList_write {s t : Sink α} {a : α} (h : s.write a = some t) :
    t.toList = s.toList ++ [a] := by
  simp only [write] at h
  split at h
  · cases h
    simp [toList]
  · cases h

end Sink

end StackMachine
