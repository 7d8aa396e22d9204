import StackMachine.Fault
import StackMachine.Word

/-!
# `StackMachine.Program`: program memory

A program is a nonempty sequence of words. It never changes.

- `Program.ofInts` wraps the given integers into words.
- `contains` says which addresses are valid.
- `read` looks up a word. It counts a negative index from the end, so it is meant for
  addresses that `contains` has accepted.
- `sameWords` compares with integers that are not wrapped.
-/

set_option autoImplicit false

namespace StackMachine

/-- A nonempty sequence of words. -/
structure Program where
  words : Array Int
  nonempty : 0 < words.size
  inRange : ∀ w ∈ words, Word.InRange w
  deriving DecidableEq

namespace Program

/-- The program whose words are the given integers, each wrapped. -/
def ofInts (vs : List Int) : Except Fault Program :=
  if h : vs = [] then .error .emptyProgram
  else .ok {
    words := (vs.map Word.wrap).toArray
    nonempty := by
      rw [List.size_toArray, List.length_map]
      exact List.length_pos_iff.mpr h
    inRange := by
      intro w hw
      rw [List.mem_toArray, List.mem_map] at hw
      obtain ⟨v, _, rfl⟩ := hw
      exact Word.wrap_inRange v }

/-- The number of words. -/
def size (p : Program) : Nat := p.words.size

/-- The words in order. -/
def toList (p : Program) : List Int := p.words.toList

/-- Whether an integer is the address of a word. -/
def contains (p : Program) (address : Int) : Bool := 0 ≤ address && address < p.size

/-- The word at an index. A negative index counts from the end. -/
def read (p : Program) (index : Int) : Except Fault Int :=
  let position := if index < 0 then index + p.size else index
  if position < 0 then .error (.missingWord index)
  else match p.words[position.toNat]? with
    | some w => .ok w
    | none => .error (.missingWord index)

/-- Whether the words of a program are exactly the given integers. -/
def sameWords (p : Program) (vs : List Int) : Bool := p.toList == vs

/-- Programs are equal if their words are. -/
@[ext]
theorem ext {p q : Program} (h : p.words = q.words) : p = q := by
  cases p
  cases q
  cases h
  rfl

/-- A valid address reads its word. This is the only way in which an engine reads, since it checks
the address first. -/
theorem read_of_contains {p : Program} {a : Int} (h : p.contains a = true) :
    ∃ w, p.words[a.toNat]? = some w ∧ p.read a = .ok w := by
  have hpos : 0 ≤ a ∧ a < p.size := by simpa [contains] using h
  have hsize : p.size = p.words.size := rfl
  have hlt : a.toNat < p.words.size := by omega
  have hneg : ¬ a < 0 := by omega
  have hget : ∃ w, p.words[a.toNat]? = some w := by
    rw [Array.getElem?_eq_getElem hlt]
    exact ⟨_, rfl⟩
  obtain ⟨w, hw⟩ := hget
  exact ⟨w, hw, by simp [read, hneg, hw]⟩

/-- Beyond the last word there is nothing to read. An engine whose noted size is too great meets
this refusal, which no check of addresses gives. -/
theorem read_of_le {p : Program} {a : Int} (h : p.size ≤ a) :
    p.read a = .error (.missingWord a) := by
  have hsize : p.size = p.words.size := rfl
  have hneg : ¬ a < 0 := by omega
  have hnone : p.words[a.toNat]? = none := Array.getElem?_eq_none (by omega)
  simp [read, hneg, hnone]

end Program

end StackMachine
