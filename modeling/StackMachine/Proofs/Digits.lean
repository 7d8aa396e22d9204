import Mathlib.Data.Nat.Digits.Lemmas
import StackMachine.Proofs.FixedWidth

/-!
# `StackMachine.Proofs.Digits`: reading numerals back

A number is a row of digits, each below the base. `exists_digits` names the digits that its
numeral shows, and `reading` puts them together again.

`Shows` is what the signed numeral and the padded one have in common: a sign, zeros, and the
digits. The zeros do not change what is read, so a text shows at most one integer,
`Shows.unique`. The sign is compared first, because in a padded numeral it takes the place of a
zero.
-/

set_option autoImplicit false

namespace StackMachine.Numeral

/-- The figures of the bases up to sixteen. Each stands at the place of its value. -/
def figures : List Char :=
  ['0', '1', '2', '3', '4', '5', '6', '7', '8', '9', 'a', 'b', 'c', 'd', 'e', 'f']

/-- The number that a row of figures stands for, the most significant first. -/
def reading (base : Nat) (cs : List Char) : Nat :=
  Nat.ofDigits base (cs.map fun c => figures.idxOf c).reverse

/-- A text is a minus sign for a negative integer, then zeros, then the digits. -/
def Shows (base : Nat) (v : Int) (cs : List Char) : Prop :=
  ∃ k, cs = (if v < 0 then ['-'] else []) ++ (List.replicate k '0' ++ Nat.toDigits base v.natAbs)

/-- Below sixteen, the library writes a digit with one of the figures. -/
private theorem digitChar_mem_figures {d : Nat} (h : d < 16) : Nat.digitChar d ∈ figures := by
  have hall : ∀ d < 16, Nat.digitChar d ∈ figures := by decide
  exact hall d h

/-- A figure stands at the place of its value, which is how `reading` finds the value. There are
sixteen cases, and they are computed. -/
private theorem idxOf_digitChar {d : Nat} (h : d < 16) : figures.idxOf (Nat.digitChar d) = d := by
  have hall : ∀ d < 16, figures.idxOf (Nat.digitChar d) = d := by decide
  exact hall d h

/-- The numeral of a number shows digits below the base, and they make up the number. What is
proved of numerals here is read off these digits. -/
theorem exists_digits {base : Nat} (hbase : 1 < base) (n : Nat) :
    ∃ ds, Nat.toDigits base n = ds.map Nat.digitChar ∧ ds ≠ [] ∧ (∀ d ∈ ds, d < base) ∧
      Nat.ofDigits base ds.reverse = n := by
  -- The last digit comes off the end until one digit is left.
  induction n using Nat.strong_induction_on with
  | _ n ih =>
    by_cases hn : n < base
    · exact ⟨[n], by simp [Nat.toDigits_of_lt_base hn], by simp, by simpa using hn, by simp⟩
    · have hle : base ≤ n := Nat.le_of_not_lt hn
      have hsmaller : n / base < n := Nat.div_lt_self (by omega) hbase
      obtain ⟨ds, hshown, -, hlt, hvalue⟩ := ih (n / base) hsmaller
      refine ⟨ds ++ [n % base], ?_, by simp, ?_, ?_⟩
      · simp [Nat.toDigits_of_base_le hbase hle, hshown]
      · intro d hd
        rcases List.mem_append.mp hd with hd | hd
        · exact hlt d hd
        · rw [List.mem_singleton.mp hd]
          exact Nat.mod_lt n (by omega)
      · rw [List.reverse_append, List.reverse_singleton, List.singleton_append,
          Nat.ofDigits_cons, hvalue]
        exact Nat.mod_add_div n base

/-- A signed numeral shows its integer, without zeros in between. -/
private theorem shows_signed (base : Nat) (v : Int) : Shows base v (signed base v) := by
  refine ⟨0, ?_⟩
  unfold signed
  split <;> simp

/-- A padded numeral shows its integer. The zeros are what the width leaves over, which may be
none, and the sign is in front of them. -/
private theorem shows_padded (base width : Nat) (v : Int) : Shows base v (padded base width v) := by
  unfold padded Shows
  split
  · exact ⟨width - 1 - (Nat.toDigits base v.natAbs).length, by simp⟩
  · exact ⟨width - (Nat.toDigits base v.natAbs).length, by simp⟩

/-! ### Reading digits back -/

section

variable {base : Nat} (hbase : 1 < base) (hsixteen : base ≤ 16)
include hbase hsixteen

/-- The digits of a number are written with figures. -/
private theorem mem_figures_of_mem_toDigits {n : Nat} {c : Char} (h : c ∈ Nat.toDigits base n) :
    c ∈ figures := by
  obtain ⟨ds, hshown, -, hlt, -⟩ := exists_digits hbase n
  rw [hshown] at h
  obtain ⟨d, hd, rfl⟩ := List.mem_map.mp h
  have hbelow : d < base := hlt d hd
  exact digitChar_mem_figures (by omega)

/-- Zeros in front do not change what a numeral stands for. This is why a numeral can be padded
without becoming ambiguous. -/
private theorem reading_replicate_append (k n : Nat) :
    reading base (List.replicate k '0' ++ Nat.toDigits base n) = n := by
  obtain ⟨ds, hshown, -, hlt, hvalue⟩ := exists_digits hbase n
  have hback : (ds.map Nat.digitChar).map (fun c => figures.idxOf c) = ds := by
    rw [List.map_map]
    conv_rhs => rw [← List.map_id ds]
    refine List.map_congr_left fun d hd => ?_
    have hbelow : d < base := hlt d hd
    exact idxOf_digitChar (by omega)
  have hzero : figures.idxOf '0' = 0 := rfl
  unfold reading
  rw [List.map_append, List.map_replicate, hzero, hshown, hback, List.reverse_append,
    List.reverse_replicate, Nat.ofDigits_append_replicate_zero, hvalue]

/-- Zeros in front are figures as well. -/
private theorem mem_figures_of_zeros {k n : Nat} {c : Char}
    (h : c ∈ List.replicate k '0' ++ Nat.toDigits base n) : c ∈ figures := by
  rcases List.mem_append.mp h with h | h
  · rw [List.eq_of_mem_replicate h]
    exact digitChar_mem_figures (by decide : 0 < 16)
  · exact mem_figures_of_mem_toDigits hbase hsixteen h

/-- What shows an integer consists of figures, apart from the sign. -/
theorem Shows.mem_figures {v : Int} {cs : List Char} (h : Shows base v cs) {c : Char}
    (hc : c ∈ cs) : c = '-' ∨ c ∈ figures := by
  obtain ⟨k, rfl⟩ := h
  rcases List.mem_append.mp hc with hsign | hdigits
  · split at hsign
    · exact .inl (List.mem_singleton.mp hsign)
    · cases hsign
  · exact .inr (mem_figures_of_zeros hbase hsixteen hdigits)

/-- No figure is taken for the sign, so a minus sign tells that the integer is negative. With the
digits, which tell the absolute value, this determines the integer. -/
private theorem Shows.minus_mem_iff {v : Int} {cs : List Char} (h : Shows base v cs) :
    '-' ∈ cs ↔ v < 0 := by
  obtain ⟨k, rfl⟩ := h
  have hminus : '-' ∉ List.replicate k '0' ++ Nat.toDigits base v.natAbs := by
    intro hmem
    have hfigure : '-' ∈ figures := mem_figures_of_zeros hbase hsixteen hmem
    revert hfigure
    decide
  by_cases hv : v < 0
  · simp [hv]
  · simpa [hv] using hminus

/-- A text shows at most one integer. The sign is read off first, and what follows it is then a
numeral of the absolute value, whatever zeros are in front. -/
theorem Shows.unique {v w : Int} {cs : List Char} (hv : Shows base v cs) (hw : Shows base w cs) :
    v = w := by
  have hsign : v < 0 ↔ w < 0 :=
    (hv.minus_mem_iff hbase hsixteen).symm.trans (hw.minus_mem_iff hbase hsixteen)
  obtain ⟨i, hv⟩ := hv
  obtain ⟨j, hw⟩ := hw
  have hrest : List.replicate i '0' ++ Nat.toDigits base v.natAbs
      = List.replicate j '0' ++ Nat.toDigits base w.natAbs := by
    have hsame := hv.symm.trans hw
    rw [if_congr hsign rfl rfl] at hsame
    exact List.append_cancel_left hsame
  have habs : v.natAbs = w.natAbs := by
    have hread := congrArg (reading base) hrest
    rwa [reading_replicate_append hbase hsixteen, reading_replicate_append hbase hsixteen] at hread
  omega

end

/-! ### The numerals of a report -/

/-- Different integers have different decimal numerals: the digits denote the absolute value, and
the mark in front of them the sign. -/
theorem decimal_injective : Function.Injective decimal := by
  intro v w h
  have hchars : signed 10 v = signed 10 w := String.ofList_injective h
  exact (shows_signed 10 v).unique (by decide) (by decide) (hchars ▸ shows_signed 10 w)

/-- Different integers have different padded numerals, also where the digits exceed the width. The
zeros in front do not matter to what the digits denote. -/
theorem hexPadded_injective : Function.Injective hexPadded := by
  intro v w h
  have hchars : padded 16 8 v = padded 16 8 w :=
    String.ofList_injective (String.append_right_inj "0x" |>.mp h)
  exact (shows_padded 16 8 v).unique (by decide) (by decide) (hchars ▸ shows_padded 16 8 w)

-- The sign takes the place of a zero.
example : hexPadded (-31) = "0x-000001f" ∧ hexPadded 31 = "0x0000001f" := by decide

/-- Equal words show integers that are congruent. More cannot be had from a word, which shows a
residue. -/
theorem emod_eq_of_hexWord_eq {v w : Int} (h : hexWord v = hexWord w) :
    v % 0x100000000 = w % 0x100000000 := hexPadded_injective h

/-- A decimal numeral consists of a sign and figures. -/
theorem mem_decimal {v : Int} {c : Char} (h : c ∈ (decimal v).toList) : c = '-' ∨ c ∈ figures := by
  unfold decimal at h
  rw [String.toList_ofList] at h
  exact (shows_signed 10 v).mem_figures (by decide) (by decide) h

/-- A padded numeral consists of its mark, a sign and figures. -/
theorem mem_hexPadded {v : Int} {c : Char} (h : c ∈ (hexPadded v).toList) :
    c = 'x' ∨ c = '-' ∨ c ∈ figures := by
  simp only [hexPadded, String.toList_append, String.toList_ofList] at h
  rcases List.mem_append.mp h with hmark | hdigits
  · rcases List.mem_pair.mp hmark with rfl | rfl
    · exact .inr (.inr (by decide))
    · exact .inl rfl
  · exact .inr ((shows_padded 16 8 v).mem_figures (by decide) (by decide) hdigits)

/-- Eight lower-case hexadecimal digits that denote the residue of an integer modulo `2^32`. -/
structure EightDigitsOf (v : Int) (s : String) : Prop where
  length : s.length = 8
  figures : ∀ c ∈ s.toList, c ∈ "0123456789abcdef".toList
  reading : (reading 16 s.toList : Int) = v % 0x100000000

/-- The digits of a residue are eight, they are figures, and they denote the residue. So a word of
a dump tells the residue, and no more than that. -/
theorem eightDigitsOf_eightDigits (v : Int) : EightDigitsOf v (eightDigits v) := by
  have hpos : 0 ≤ v % 0x100000000 := Int.emod_nonneg v (by decide)
  have hlt : v % 0x100000000 < 0x100000000 := Int.emod_lt_of_pos v (by decide)
  have hfits : (v % 0x100000000).toNat < 16 ^ 8 := by omega
  have hdigits : (eightDigits v).toList
      = List.replicate (8 - (Nat.toDigits 16 (v % 0x100000000).toNat).length) '0'
        ++ Nat.toDigits 16 (v % 0x100000000).toNat := by
    unfold eightDigits
    rw [String.toList_ofList, replicate_append_toDigits (by decide) (by decide) hfits]
  refine ⟨length_eightDigits v, fun c hc => ?_, ?_⟩
  · rw [hdigits] at hc
    exact mem_figures_of_zeros (by decide) (by decide) hc
  · rw [hdigits, reading_replicate_append (by decide) (by decide)]
    omega

end StackMachine.Numeral
