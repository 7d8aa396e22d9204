import Mathlib.Algebra.Ring.Nat
import StackMachine.Text.Numeral

/-!
# `StackMachine.Proofs.FixedWidth`: numerals of a fixed width

A report shows an address or an opcode as a numeral that zeros fill up. A number that fits into
the width is then shown by its digits at the places of the numeral, all of them and no more.
`hexWord_eq_eightDigits`: for residues modulo `2^32` and eight hexadecimal places that is always
so.
-/

set_option autoImplicit false

namespace StackMachine.Numeral

/-- The digits of a number at the last `width` places, most significant first. -/
def fixedDigits (base : Nat) : Nat → Nat → List Char
  | 0, _ => []
  | width + 1, n => fixedDigits base width (n / base) ++ [Nat.digitChar (n % base)]

/-- The eight hexadecimal digits of the residue of an integer modulo `2^32`. -/
def eightDigits (v : Int) : String := String.ofList (fixedDigits 16 8 (v % 0x100000000).toNat)

/-- There is one digit for each place. -/
private theorem length_fixedDigits (base width n : Nat) :
    (fixedDigits base width n).length = width := by
  induction width generalizing n with
  | zero => rfl
  | succ width ih =>
    unfold fixedDigits
    rw [List.length_append, ih, List.length_singleton]

/-- The digits of a residue fill eight places. -/
theorem length_eightDigits (v : Int) : (eightDigits v).length = 8 := by
  unfold eightDigits
  rw [String.length_ofList, length_fixedDigits]

/-- At the places of zero stand zeros. This is where the induction below ends, once all digits of
the number are written. -/
private theorem fixedDigits_zero (base width : Nat) :
    fixedDigits base width 0 = List.replicate width '0' := by
  induction width with
  | zero => rfl
  | succ width ih =>
    have hdigit : Nat.digitChar (0 % base) = '0' := by
      rw [Nat.zero_mod]
      rfl
    unfold fixedDigits
    rw [Nat.zero_div, ih, hdigit, List.replicate_succ']

/-- Zeros fill the digits of a number up to those at all places, if the number fits. The induction
is on the width and takes off the last digit, as `Nat.toDigits` does. -/
theorem replicate_append_toDigits {base width n : Nat} (hbase : 1 < base) (hwidth : 0 < width)
    (h : n < base ^ width) :
    List.replicate (width - (Nat.toDigits base n).length) '0' ++ Nat.toDigits base n
      = fixedDigits base width n := by
  -- The last digit comes off the end, in the numeral as at the places.
  induction width generalizing n with
  | zero => omega
  | succ width ih =>
    by_cases hn : n < base
    · rw [Nat.toDigits_of_lt_base hn]
      unfold fixedDigits
      rw [Nat.div_eq_of_lt hn, Nat.mod_eq_of_lt hn, fixedDigits_zero]
      rfl
    · have hle : base ≤ n := Nat.le_of_not_lt hn
      have hquotient : n / base < base ^ width := by
        rw [Nat.div_lt_iff_lt_mul (by omega), ← Nat.pow_succ]
        exact h
      -- A number of two digits or more does not fit into one place.
      have hpos : 0 < width := by
        cases width with
        | zero =>
          rw [Nat.pow_zero] at hquotient
          have hone : 1 ≤ n / base := (Nat.one_le_div_iff (by omega)).mpr hle
          omega
        | succ width => exact Nat.succ_pos width
      rw [Nat.toDigits_of_base_le hbase hle, List.length_append, List.length_singleton,
        Nat.add_sub_add_right, ← List.append_assoc, ih hpos hquotient]
      rfl

/-- A residue modulo `2^32` is shown by eight hexadecimal digits. It is never negative and always
fits, so neither a sign nor a ninth digit can occur. -/
theorem hexWord_eq_eightDigits (v : Int) : hexWord v = "0x" ++ eightDigits v := by
  have hpos : 0 ≤ v % 0x100000000 := Int.emod_nonneg v (by decide)
  have hlt : v % 0x100000000 < 0x100000000 := Int.emod_lt_of_pos v (by decide)
  have hfits : (v % 0x100000000).natAbs < 16 ^ 8 := by omega
  have habs : (v % 0x100000000).natAbs = (v % 0x100000000).toNat := by omega
  have hsign : ¬ v % 0x100000000 < 0 := by omega
  unfold hexWord hexPadded eightDigits padded
  rw [if_neg hsign, replicate_append_toDigits (by decide) (by decide) hfits, habs]

end StackMachine.Numeral
