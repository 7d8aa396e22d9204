/-!
# `StackMachine.Text.DecimalDigit`: decimal digits of all scripts

A decimal digit is a character of the Unicode category Nd. Each script writes its ten digits
at consecutive code points, so a table of the zeros gives both the class and the values.

- `value? c` is the value of the digit `c`, or `none` if `c` is no decimal digit.
- `isDigit` is the class.
- `value?_eq_some_iff` says that the value does not depend on where the table is searched first.
-/

set_option autoImplicit false

namespace StackMachine.DecimalDigit

/-- The code points of the digits zero in Unicode 14.0, ascending. -/
def zeros : List Nat :=
  [0x30, 0x660, 0x6F0, 0x7C0, 0x966, 0x9E6, 0xA66, 0xAE6, 0xB66, 0xBE6, 0xC66, 0xCE6, 0xD66,
   0xDE6, 0xE50, 0xED0, 0xF20, 0x1040, 0x1090, 0x17E0, 0x1810, 0x1946, 0x19D0, 0x1A80, 0x1A90,
   0x1B50, 0x1BB0, 0x1C40, 0x1C50, 0xA620, 0xA8D0, 0xA900, 0xA9D0, 0xA9F0, 0xAA50, 0xABF0,
   0xFF10, 0x104A0, 0x10D30, 0x11066, 0x110F0, 0x11136, 0x111D0, 0x112F0, 0x11450, 0x114D0,
   0x11650, 0x116C0, 0x11730, 0x118E0, 0x11950, 0x11C50, 0x11D50, 0x11DA0, 0x16A60, 0x16AC0,
   0x16B50, 0x1D7CE, 0x1D7D8, 0x1D7E2, 0x1D7EC, 0x1D7F6, 0x1E140, 0x1E2F0, 0x1E950, 0x1FBF0]

/-- As many scripts have digits of their own. -/
example : zeros.length = 66 := by decide

/-- The value of a decimal digit. -/
def value? (c : Char) : Option Nat :=
  (zeros.find? fun z => z ≤ c.toNat && c.toNat ≤ z + 9).map (c.toNat - ·)

/-- Whether a character is a decimal digit. -/
def isDigit (c : Char) : Bool := (value? c).isSome

/-- The digits of one script end before those of the next begin. -/
private theorem pairwise_zeros : zeros.Pairwise (fun a b => a + 9 < b) := by decide

/-- A character is a digit of value `d` exactly if it stands `d` places behind a zero. The scripts
keep apart, so no other zero of the table can claim it first. -/
theorem value?_eq_some_iff {c : Char} {d : Nat} :
    value? c = some d ↔ ∃ z ∈ zeros, c.toNat = z + d ∧ d ≤ 9 := by
  constructor
  · intro h
    obtain ⟨z, hz, rfl⟩ := Option.map_eq_some_iff.mp h
    have hrange := List.find?_some hz
    simp only [Bool.and_eq_true, decide_eq_true_eq] at hrange
    exact ⟨z, List.mem_of_find?_eq_some hz, by omega, by omega⟩
  · rintro ⟨z, hz, hc, hd⟩
    obtain ⟨below, above, hsplit⟩ := List.append_of_mem hz
    have hsorted := pairwise_zeros
    rw [hsplit] at hsorted
    have hapart := (List.pairwise_append.mp hsorted).2.2
    have hfind : zeros.find? (fun z => z ≤ c.toNat && c.toNat ≤ z + 9) = some z := by
      refine List.find?_eq_some_iff_append.mpr ⟨?_, below, above, hsplit, fun a ha => ?_⟩
      · simp only [Bool.and_eq_true, decide_eq_true_eq]
        omega
      · have := hapart a ha z List.mem_cons_self
        simp only [Bool.not_eq_true', Bool.and_eq_false_iff, decide_eq_false_iff_not]
        omega
    unfold value?
    rw [hfind, Option.map_some, hc, Nat.add_sub_cancel_left]

end StackMachine.DecimalDigit
