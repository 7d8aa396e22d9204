import Mathlib.Data.List.TakeWhile
import Mathlib.Logic.Relation
import StackMachine.Capacity
import StackMachine.Proofs.Digits

/-!
# `StackMachine.Proofs.CapacityGrammar`: which texts are capacities

A numeral is an optional sign directly before figures, and figures are decimal digits of any
scripts with at most one underscore between two neighbours. `Figures` and `Denotes` are this
grammar with the values, and `Trimmed` is what is left of a text without the blanks around it.

`signed_eq` and `signed_eq_notNumeral` say that the reader follows the grammar: it finds the value
of every numeral, and refuses every other text. What becomes of a text then follows from what its
numeral denotes. `Respelled` lists the changes of a text that leave that alone.

`ofText_eq_or` compares with the reader of the command line, which counts the digits: it either
agrees or has counted too many.
-/

set_option autoImplicit false

namespace StackMachine.Capacity

/-! ### The grammar -/

/-- Figures that write a row of digits: decimal digits with at most one underscore between two
neighbours. -/
inductive Figures : List Char → List Nat → Prop
  | last {c : Char} {d : Nat} : DecimalDigit.value? c = some d → Figures [c] [d]
  | next {c : Char} {d : Nat} {cs : List Char} {ds : List Nat} :
      DecimalDigit.value? c = some d → Figures cs ds → Figures (c :: cs) (d :: ds)
  | grouped {c : Char} {d : Nat} {cs : List Char} {ds : List Nat} :
      DecimalDigit.value? c = some d → Figures cs ds → Figures (c :: '_' :: cs) (d :: ds)

/-- What may stand directly before the figures of a numeral. -/
inductive Sign where
  | none | plus | minus
  deriving DecidableEq, Repr

/-- How a sign is written. -/
def Sign.chars : Sign → List Char
  | .none => []
  | .plus => ['+']
  | .minus => ['-']

/-- What a sign makes of a number. -/
def Sign.apply (n : Nat) : Sign → Int
  | .none | .plus => n
  | .minus => -n

/-- A text is a numeral and denotes an integer. -/
def Denotes (t : List Char) (v : Int) : Prop :=
  ∃ (sign : Sign) (cs : List Char) (ds : List Nat), t = sign.chars ++ cs ∧ Figures cs ds ∧
    v = sign.apply (Nat.ofDigits 10 ds.reverse)

/-- `t` is the text `s` without the blanks at its two ends. -/
structure Trimmed (s t : List Char) : Prop where
  surrounded : ∃ l r, s = l ++ t ++ r ∧ (∀ c ∈ l, Blank.isBlank c) ∧ ∀ c ∈ r, Blank.isBlank c
  head : ∀ c ∈ t.head?, Blank.isBlank c = false
  last : ∀ c ∈ t.getLast?, Blank.isBlank c = false

/-- A change of a text that leaves alone what it denotes. -/
inductive Respelled : List Char → List Char → Prop
  | blanks {l t r : List Char} : (∀ c ∈ l, Blank.isBlank c) → (∀ c ∈ r, Blank.isBlank c) →
      Respelled t (l ++ t ++ r)
  | plus {cs : List Char} {ds : List Nat} : Figures cs ds → Respelled cs ('+' :: cs)
  | zero (sign : Sign) {cs cs' : List Char} {ds : List Nat} :
      Figures cs ds → Figures cs' (0 :: ds) → Respelled (sign.chars ++ cs) (sign.chars ++ cs')
  | figures (sign : Sign) {cs cs' : List Char} {ds : List Nat} :
      Figures cs ds → Figures cs' ds → Respelled (sign.chars ++ cs) (sign.chars ++ cs')

/-! ### Figures -/

/-- An underscore is no digit of any script. -/
private theorem not_isDigit_underscore : DecimalDigit.isDigit '_' = false := by decide

/-- What has a value is a digit. -/
private theorem isDigit_of_value? {c : Char} {d : Nat} (h : DecimalDigit.value? c = some d) :
    DecimalDigit.isDigit c = true := by
  unfold DecimalDigit.isDigit
  rw [h, Option.isSome_some]

/-- What may follow a beginning may follow a digit. The converse fails for a text that begins with
an underscore, or is empty. -/
private theorem isGrouped_true_of_false {cs : List Char} (h : isGrouped false cs = true) :
    isGrouped true cs = true := by
  cases cs with
  | nil => cases h
  | cons c cs =>
    cases hc : DecimalDigit.isDigit c with
    | true => simpa [isGrouped, hc] using h
    | false => simp [isGrouped, hc] at h

/-- Figures pass the check of the underscores, and their digits are the ones they write. This is
one half of the comparison with the grammar; `figures_of_isGrouped` is the other. -/
private theorem Figures.isGrouped {cs : List Char} {ds : List Nat} (h : Figures cs ds) :
    isGrouped false cs = true ∧ cs.filterMap DecimalDigit.value? = ds := by
  induction h with
  | last hc => simp [Capacity.isGrouped, isDigit_of_value? hc, hc]
  | next hc _ ih =>
    exact ⟨by simp [Capacity.isGrouped, isDigit_of_value? hc, isGrouped_true_of_false ih.1],
      by simp [hc, ih.2]⟩
  | grouped hc _ ih =>
    have hunderscore : DecimalDigit.value? '_' = none := by decide
    exact ⟨by simp [Capacity.isGrouped, isDigit_of_value? hc, not_isDigit_underscore, ih.1],
      by simp [hc, hunderscore, ih.2]⟩

/-- Texts that pass the check are figures, or can follow a digit of figures. The second half
carries the induction, since behind a digit the check allows an end and an underscore. -/
theorem figures_of_isGrouped (cs : List Char) :
    (isGrouped false cs = true → Figures cs (cs.filterMap DecimalDigit.value?)) ∧
    (isGrouped true cs = true → ∀ {c d}, DecimalDigit.value? c = some d →
      Figures (c :: cs) (d :: cs.filterMap DecimalDigit.value?)) := by
  induction cs with
  | nil => exact ⟨fun h => absurd h (by decide), fun _ _ _ hc => .last hc⟩
  | cons x cs ih =>
    cases hx : DecimalDigit.value? x with
    | some e =>
      have hdigit : DecimalDigit.isDigit x = true := isDigit_of_value? hx
      have hafter : ∀ b, isGrouped b (x :: cs) = isGrouped true cs := by
        intro b
        simp [Capacity.isGrouped, hdigit]
      simp only [hafter, List.filterMap_cons, hx]
      exact ⟨fun h => ih.2 h hx, fun h _ _ hc => .next hc (ih.2 h hx)⟩
    | none =>
      have hdigit : DecimalDigit.isDigit x = false := by
        unfold DecimalDigit.isDigit
        rw [hx, Option.isSome_none]
      have hafter : ∀ b, isGrouped b (x :: cs) = (x = '_' && b && isGrouped false cs) := by
        intro b
        simp [Capacity.isGrouped, hdigit]
      simp only [hafter, List.filterMap_cons, hx]
      refine ⟨fun h => by simp at h, fun h c d hc => ?_⟩
      obtain ⟨rfl, hrest⟩ : x = '_' ∧ isGrouped false cs = true := by simpa using h
      exact .grouped hc (ih.1 hrest)

/-- Figures begin with a digit, so neither with a sign nor with a blank. -/
private theorem Figures.exists_cons {cs : List Char} {ds : List Nat} (h : Figures cs ds) :
    ∃ c rest, cs = c :: rest ∧ DecimalDigit.isDigit c = true := by
  cases h with
  | last hc => exact ⟨_, _, rfl, isDigit_of_value? hc⟩
  | next hc _ => exact ⟨_, _, rfl, isDigit_of_value? hc⟩
  | grouped hc _ => exact ⟨_, _, rfl, isDigit_of_value? hc⟩

/-- Figures end with a digit. -/
private theorem Figures.isDigit_getLast? {cs : List Char} {ds : List Nat} (h : Figures cs ds) :
    ∀ c ∈ cs.getLast?, DecimalDigit.isDigit c = true := by
  induction h with
  | last hc =>
    intro c hlast
    obtain rfl : _ = c := by simpa using hlast
    exact isDigit_of_value? hc
  | @next c d cs ds hc hrest ih =>
    obtain ⟨x, rest, rfl, -⟩ := hrest.exists_cons
    simpa using ih
  | @grouped c d cs ds hc hrest ih =>
    obtain ⟨x, rest, rfl, -⟩ := hrest.exists_cons
    simpa using ih

/-- The reader takes the whole of them, since each character is a digit or an underscore. Nothing
is left that could make it refuse. -/
private theorem Figures.takeWhile_isFigure {cs : List Char} {ds : List Nat} (h : Figures cs ds) :
    cs.takeWhile isFigure = cs := by
  induction h with
  | last hc => simp [isFigure, isDigit_of_value? hc]
  | next hc _ ih => simp [isFigure, isDigit_of_value? hc, ih]
  | grouped hc _ ih => simp [isFigure, isDigit_of_value? hc, ih]

/-- Figures behind a sign are a numeral. -/
private theorem Figures.denotes {cs : List Char} {ds : List Nat} (h : Figures cs ds) (sign : Sign) :
    Denotes (sign.chars ++ cs) (sign.apply (Nat.ofDigits 10 ds.reverse)) :=
  ⟨sign, cs, ds, rfl, h, rfl⟩

/-- Digits put together from the left give the number that they make up. The library counts digits
from the right, so the list is turned around. -/
private theorem value_eq_ofDigits (ds : List Nat) : value ds = Nat.ofDigits 10 ds.reverse := by
  rw [Nat.ofDigits_eq_foldr, List.foldr_reverse]
  unfold value
  congr 1
  funext acc d
  simp [Nat.add_comm]

/-! ### The reader follows the grammar -/

/-- The reader finds the number that figures write. -/
private theorem natural_eq {cs : List Char} {ds : List Nat} (h : Figures cs ds) :
    natural none cs = .ok (Nat.ofDigits 10 ds.reverse) := by
  obtain ⟨hgrouped, hdigits⟩ := h.isGrouped
  simp [natural, h.takeWhile_isFigure, hgrouped, hdigits, value_eq_ofDigits]

/-- Without figures in front of what follows, or with anything behind them, nothing is read. The
hypothesis excludes all digits at once, so no case is left in which some are read. -/
private theorem natural_eq_notNumeral {cs : List Char} (h : ∀ ds, ¬ Figures cs ds) :
    natural none cs = .error .notNumeral := by
  by_cases hgrouped : isGrouped false (cs.takeWhile isFigure) = true
  · have hshorter : (cs.takeWhile isFigure).length < cs.length := by
      refine lt_of_le_of_ne (List.takeWhile_prefix isFigure).length_le fun hlength => ?_
      have hall : cs.takeWhile isFigure = cs :=
        (List.takeWhile_prefix isFigure).eq_of_length hlength
      rw [hall] at hgrouped
      exact h _ ((figures_of_isGrouped cs).1 hgrouped)
    simp [natural, hgrouped, hshorter]
  · simp [natural, hgrouped]

/-- The reader finds the integer that a numeral denotes. What follows the sign is `natural_eq`, and
where there is no sign, the first figure must not be taken for one. -/
theorem signed_eq {t : List Char} {v : Int} (h : Denotes t v) : signed none t = .ok v := by
  obtain ⟨sign, cs, ds, rfl, hcs, rfl⟩ := h
  cases sign with
  | plus => simp [Sign.chars, Sign.apply, signed, natural_eq hcs, Except.map]
  | minus => simp [Sign.chars, Sign.apply, signed, natural_eq hcs, Except.map]
  | none =>
    -- The first figure is a digit, so it is not taken for a sign.
    obtain ⟨c, rest, rfl, hc⟩ := hcs.exists_cons
    have hminus : c ≠ '-' := by rintro rfl; revert hc; decide
    have hplus : c ≠ '+' := by rintro rfl; revert hc; decide
    unfold signed
    split
    · rename_i heq
      exact absurd (List.cons.inj heq).1 hminus
    · rename_i heq
      exact absurd (List.cons.inj heq).1 hplus
    · simp [Sign.chars, Sign.apply, natural_eq hcs, Except.map]

/-- The reader accepts no more than the grammar: a text that denotes nothing is refused, and for
that reason. With `signed_eq`, the reader is the grammar. -/
theorem signed_eq_notNumeral {t : List Char} (h : ∀ v, ¬ Denotes t v) :
    signed none t = .error .notNumeral := by
  have hfigures : ∀ (sign : Sign) {cs}, t = sign.chars ++ cs → ∀ ds, ¬ Figures cs ds :=
    fun sign cs ht ds hcs => h _ ⟨sign, cs, ds, ht, hcs, rfl⟩
  unfold signed
  split
  · rw [natural_eq_notNumeral (hfigures .minus rfl)]
    rfl
  · rw [natural_eq_notNumeral (hfigures .plus rfl)]
    rfl
  · rw [natural_eq_notNumeral (hfigures .none rfl)]
    rfl

/-! ### Blanks around a text -/

/-- No digit is white space: the ranges of the two tables do not meet. -/
private theorem not_isBlank_of_isDigit {c : Char} (h : DecimalDigit.isDigit c = true) :
    Blank.isBlank c = false := by
  have happart : ∀ z ∈ DecimalDigit.zeros, ∀ r ∈ Blank.ranges, z + 9 < r.first ∨ r.last < z := by
    decide
  obtain ⟨d, hd⟩ := Option.isSome_iff_exists.mp h
  obtain ⟨z, hz, hc, hle⟩ := DecimalDigit.value?_eq_some_iff.mp hd
  unfold Blank.isBlank CodeRange.has
  simp only [List.any_eq_false, Bool.and_eq_true, decide_eq_true_eq, not_and, Nat.not_le]
  intro r hr hfirst
  have := happart z hz r hr
  omega

/-- Once the blanks in front are dropped, there is none in front. Used once on the text and once on
the text turned around. -/
private theorem head?_dropWhile_isBlank (cs : List Char) :
    ∀ c ∈ (cs.dropWhile Blank.isBlank).head?, Blank.isBlank c = false := by
  intro c hc
  have hfirst := List.head?_dropWhile_not Blank.isBlank cs
  rwa [hc] at hfirst

/-- Blanks before what begins with no blank are dropped, and nothing else. Such a text is what a
reader has to find. -/
private theorem dropWhile_isBlank_append {l t : List Char} (hl : ∀ c ∈ l, Blank.isBlank c)
    (ht : ∀ c ∈ t.head?, Blank.isBlank c = false) : (l ++ t).dropWhile Blank.isBlank = t := by
  rw [List.dropWhile_append_of_pos hl]
  cases t with
  | nil => rfl
  | cons c t => simp [ht c rfl]

/-- What the reader leaves of a text is the text without the blanks around it, as `Trimmed` says it
without naming an algorithm. -/
theorem trimmed_trim (s : List Char) : Trimmed s (Blank.trim s) := by
  have hfront : s.takeWhile Blank.isBlank ++ s.dropWhile Blank.isBlank = s :=
    List.takeWhile_append_dropWhile
  have hback : Blank.trim s ++ ((s.dropWhile Blank.isBlank).reverse.takeWhile Blank.isBlank).reverse
      = s.dropWhile Blank.isBlank := by
    unfold Blank.trim
    rw [← List.reverse_append, List.takeWhile_append_dropWhile, List.reverse_reverse]
  refine ⟨⟨s.takeWhile Blank.isBlank,
    ((s.dropWhile Blank.isBlank).reverse.takeWhile Blank.isBlank).reverse, ?_, ?_, ?_⟩, ?_, ?_⟩
  · rw [List.append_assoc, hback, hfront]
  · exact fun c hc => List.mem_takeWhile_imp hc
  · exact fun c hc => List.mem_takeWhile_imp (List.mem_reverse.mp hc)
  · intro c hc
    refine head?_dropWhile_isBlank s c ?_
    rw [← hback, List.head?_append, hc]
    rfl
  · intro c hc
    rw [Blank.trim, List.getLast?_reverse] at hc
    exact head?_dropWhile_isBlank _ c hc

/-- What is left without the blanks is determined. So the grammar may speak of *the* middle of a
text, and the reader has found it. -/
theorem Trimmed.trim_eq {s t : List Char} (h : Trimmed s t) : Blank.trim s = t := by
  obtain ⟨⟨l, r, rfl, hl, hr⟩, hhead, hlast⟩ := h
  cases t with
  | nil =>
    have hall : ∀ c ∈ l ++ [] ++ r, Blank.isBlank c := by
      simpa [or_imp, forall_and] using And.intro hl hr
    unfold Blank.trim
    rw [List.dropWhile_eq_nil_iff.mpr hall]
    rfl
  | cons c t =>
    have hfront : (l ++ (c :: t) ++ r).dropWhile Blank.isBlank = (c :: t) ++ r := by
      rw [List.append_assoc]
      exact dropWhile_isBlank_append hl hhead
    have hback : (r.reverse ++ (c :: t).reverse).dropWhile Blank.isBlank = (c :: t).reverse := by
      refine dropWhile_isBlank_append (fun x hx => hr x (List.mem_reverse.mp hx)) ?_
      rwa [List.head?_reverse]
    unfold Blank.trim
    rw [hfront, List.reverse_append, hback, List.reverse_reverse]

/-- More blanks around a text make no difference. -/
private theorem Trimmed.blanks {l t r u : List Char} (h : Trimmed t u)
    (hl : ∀ c ∈ l, Blank.isBlank c)
    (hr : ∀ c ∈ r, Blank.isBlank c) : Trimmed (l ++ t ++ r) u := by
  obtain ⟨⟨l', r', rfl, hl', hr'⟩, hhead, hlast⟩ := h
  refine ⟨⟨l ++ l', r' ++ r, by simp, ?_, ?_⟩, hhead, hlast⟩
  · simpa [or_imp, forall_and] using And.intro hl hl'
  · simpa [or_imp, forall_and] using And.intro hr' hr

/-- A numeral has no blanks around it, since digits and signs are no blanks. So a numeral inside
blanks is left by the reader just as it is. -/
private theorem trimmed_numeral (sign : Sign) {cs : List Char} {ds : List Nat} (h : Figures cs ds) :
    Trimmed (sign.chars ++ cs) (sign.chars ++ cs) := by
  refine ⟨⟨[], [], by simp, by simp, by simp⟩, fun c hc => ?_, fun c hc => ?_⟩
  · obtain ⟨d, rest, rfl, hd⟩ := h.exists_cons
    cases sign with
    | none =>
      obtain rfl : d = c := by simpa [Sign.chars] using hc
      exact not_isBlank_of_isDigit hd
    | plus =>
      obtain rfl : '+' = c := by simpa [Sign.chars] using hc
      decide
    | minus =>
      obtain rfl : '-' = c := by simpa [Sign.chars] using hc
      decide
  · obtain ⟨d, rest, rfl, -⟩ := h.exists_cons
    rw [List.getLast?_append_of_ne_nil _ (List.cons_ne_nil d rest)] at hc
    exact not_isBlank_of_isDigit (h.isDigit_getLast? c hc)

/-! ### What becomes of a text -/

section

variable {s : String} {t : List Char}

/-- A text whose middle denotes an integer is a capacity, or is refused for being negative. The
sign is judged last, after the whole numeral was read. -/
theorem ofTextWithin_of_denotes {v : Int} (ht : Trimmed s.toList t) (hv : Denotes t v) :
    ofTextWithin none s = if v < 0 then .error .negative else .ok v := by
  simp [ofTextWithin, integer, ht.trim_eq, signed_eq hv]

/-- Any other text is refused for being no numeral. -/
theorem ofTextWithin_of_not_denotes (ht : Trimmed s.toList t) (hv : ∀ v, ¬ Denotes t v) :
    ofTextWithin none s = .error .notNumeral := by
  simp [ofTextWithin, integer, ht.trim_eq, signed_eq_notNumeral hv]

end

/-- A respelled text is read alike. Each kind of respelling is taken by itself. -/
private theorem Respelled.signed_trim {cs cs' : List Char} (h : Respelled cs cs') :
    signed none (Blank.trim cs') = signed none (Blank.trim cs) := by
  cases h with
  | blanks hl hr => rw [((trimmed_trim cs).blanks hl hr).trim_eq]
  | plus hcs =>
    show signed none (Blank.trim (Sign.plus.chars ++ cs))
      = signed none (Blank.trim (Sign.none.chars ++ cs))
    rw [(trimmed_numeral .none hcs).trim_eq, (trimmed_numeral .plus hcs).trim_eq,
      signed_eq (hcs.denotes .none), signed_eq (hcs.denotes .plus)]
    rfl
  | zero sign hcs hcs' =>
    rw [(trimmed_numeral sign hcs).trim_eq, (trimmed_numeral sign hcs').trim_eq,
      signed_eq (hcs.denotes sign), signed_eq (hcs'.denotes sign),
      ← value_eq_ofDigits, ← value_eq_ofDigits]
    rfl
  | figures sign hcs hcs' =>
    rw [(trimmed_numeral sign hcs).trim_eq, (trimmed_numeral sign hcs').trim_eq,
      signed_eq (hcs.denotes sign), signed_eq (hcs'.denotes sign)]

/-- So is a text that was respelled several times, in either direction. Two texts are respellings
of one numeral if such steps lead from one to the other. -/
private theorem signed_trim_of_eqvGen {cs cs' : List Char} (h : Relation.EqvGen Respelled cs cs') :
    signed none (Blank.trim cs') = signed none (Blank.trim cs) := by
  induction h with
  | rel _ _ h => exact h.signed_trim
  | refl _ => rfl
  | symm _ _ _ ih => exact ih.symm
  | trans _ _ _ _ _ ih₁ ih₂ => exact ih₂.trans ih₁

/-- Digits below ten are written by figures. -/
private theorem figures_map_digitChar {ds : List Nat} (hne : ds ≠ []) (hlt : ∀ d ∈ ds, d < 10) :
    Figures (ds.map Nat.digitChar) ds := by
  have hvalue : ∀ d < 10, DecimalDigit.value? (Nat.digitChar d) = some d := by decide
  induction ds with
  | nil => exact absurd rfl hne
  | cons d ds ih =>
    have hd := hvalue d (hlt d List.mem_cons_self)
    cases ds with
    | nil => exact .last hd
    | cons e ds =>
      exact .next hd (ih (List.cons_ne_nil e ds) fun x hx => hlt x (List.mem_cons_of_mem d hx))

/-- The decimal text of a number is read as the number, so a capacity that is shown can be given
again. -/
theorem ofTextWithin_decimal (n : Nat) : ofTextWithin none (Numeral.decimal n) = .ok (n : Int) := by
  obtain ⟨ds, hshown, hne, hlt, hvalue⟩ := Numeral.exists_digits (by decide : 1 < 10) n
  have hfigures : Figures (ds.map Nat.digitChar) ds := figures_map_digitChar hne hlt
  have htext : (Numeral.decimal n).toList = Sign.none.chars ++ ds.map Nat.digitChar := by
    simp [Numeral.decimal, Numeral.signed, hshown, Sign.chars]
  have htrimmed : Trimmed (Numeral.decimal n).toList (Sign.none.chars ++ ds.map Nat.digitChar) := by
    rw [htext]
    exact trimmed_numeral .none hfigures
  rw [ofTextWithin_of_denotes htrimmed (hfigures.denotes .none), hvalue]
  exact if_neg (Int.not_lt.mpr (Int.natCast_nonneg n))

/-! ### Counting the digits -/

/-- A reader that counts the digits agrees with one that does not, or there are too many. There are
never more digits than characters, so short texts are never refused for their length. -/
private theorem natural_some_or (limit : Nat) (cs : List Char) :
    natural (some limit) cs = natural none cs ∨
      ∃ count, limit < count ∧ count ≤ cs.length ∧
        natural (some limit) cs = .error (.tooLong count) := by
  by_cases hgrouped : isGrouped false (cs.takeWhile isFigure) = true
  · by_cases hlong : limit < ((cs.takeWhile isFigure).filterMap DecimalDigit.value?).length
    · refine .inr ⟨_, hlong, ?_, by simp [natural, hgrouped, hlong]⟩
      exact (List.length_filterMap_le _ _).trans (List.takeWhile_prefix isFigure).length_le
    · exact .inl (by simp [natural, hgrouped, hlong])
  · exact .inl (by simp [natural, hgrouped])

/-- The same behind a sign, which is not counted. -/
private theorem signed_some_or (limit : Nat) (t : List Char) :
    signed (some limit) t = signed none t ∨
      ∃ count, limit < count ∧ count ≤ t.length ∧
        signed (some limit) t = .error (.tooLong count) := by
  -- The sign only decides which figures are read and how their value is taken.
  have hrest : ∀ (f : Nat → Int) (cs : List Char), cs.length ≤ t.length →
      (natural (some limit) cs).map f = (natural none cs).map f ∨ ∃ count, limit < count ∧
        count ≤ t.length ∧ (natural (some limit) cs).map f = .error (.tooLong count) := by
    intro f cs hlength
    rcases natural_some_or limit cs with hsame | ⟨count, hmany, hle, hlong⟩
    · exact .inl (by rw [hsame])
    · exact .inr ⟨count, hmany, hle.trans hlength, by rw [hlong]; rfl⟩
  unfold signed
  split
  · exact hrest _ _ (Nat.le_succ _)
  · exact hrest _ _ (Nat.le_succ _)
  · exact hrest _ _ (Nat.le_refl _)

/-- No characters are added by leaving out blanks. -/
private theorem length_trim_le (s : List Char) : (Blank.trim s).length ≤ s.length := by
  obtain ⟨l, r, hs, -, -⟩ := (trimmed_trim s).surrounded
  have hlength := congrArg List.length hs
  simp only [List.length_append] at hlength
  omega

/-- A text on the command line is read as it is without a limit, unless it has more digits than the
limit. What is said of the grammar carries over to all texts but those. -/
theorem ofText_eq_or (s : String) :
    ofText s = ofTextWithin none s ∨
      ∃ count, digitLimit < count ∧ count ≤ s.length ∧ ofText s = .error (.tooLong count) := by
  unfold ofText ofTextWithin integer
  rcases signed_some_or digitLimit (Blank.trim s.toList) with hsame | ⟨count, hmany, hle, hlong⟩
  · exact .inl (by rw [hsame])
  · refine .inr ⟨count, hmany, ?_, by rw [hlong]⟩
    calc count ≤ (Blank.trim s.toList).length := hle
      _ ≤ s.toList.length := length_trim_le s.toList
      _ = s.length := String.length_toList

/-! ### The main result -/

/-- Without a limit on the digits, the texts that are capacities are exactly the numerals, with
blanks around them, of integers that are not negative.

- Every text has one part without the blanks around it.
- If this part denotes an integer that is not negative, the integer is the capacity. A negative
  integer is refused with a message that quotes the text unchanged. A part that denotes nothing is
  no numeral.
- The decimal text of a number is read as the number, and so is the decimal text of any capacity
  that has been read.
- Blanks around a text, a plus sign, zeros in front, underscores and digits of other scripts change
  nothing, in any combination.
- With the limit of the command line the outcome is the same, unless there are more digits than
  that. -/
theorem ofTextWithin_none_grammar (s : String) :
    (∃! t, Trimmed s.toList t) ∧
    (∀ t, Trimmed s.toList t →
      (∀ v, Denotes t v → 0 ≤ v → ofTextWithin none s = .ok v) ∧
      (∀ v, Denotes t v → v < 0 → ofTextWithin none s = .error .negative) ∧
      ((∀ v, ¬ Denotes t v) → ofTextWithin none s = .error .notNumeral)) ∧
    CapacityError.negative.message s = "stack size cannot be negative: " ++ s ∧
    (∀ n : Nat, ofTextWithin none (Numeral.decimal n) = .ok (n : Int)) ∧
    (∀ v, ofTextWithin none s = .ok v → ofTextWithin none (Numeral.decimal v) = .ok v) ∧
    (∀ s' : String, Relation.EqvGen Respelled s.toList s'.toList →
      ofTextWithin none s' = ofTextWithin none s) ∧
    (ofText s = ofTextWithin none s ∨
      ∃ count, digitLimit < count ∧ count ≤ s.length ∧ ofText s = .error (.tooLong count)) := by
  refine ⟨⟨Blank.trim s.toList, trimmed_trim _, fun t ht => ht.trim_eq.symm⟩, ?_, rfl,
    ofTextWithin_decimal, ?_, ?_, ofText_eq_or s⟩
  · intro t ht
    refine ⟨fun v hv hnonneg => ?_, fun v hv hnegative => ?_, ofTextWithin_of_not_denotes ht⟩
    · rw [ofTextWithin_of_denotes ht hv, if_neg (by omega)]
    · rw [ofTextWithin_of_denotes ht hv, if_pos hnegative]
  · intro v hv
    obtain ⟨n, rfl⟩ := Int.eq_ofNat_of_zero_le (nonneg_of_ofTextWithin hv)
    exact ofTextWithin_decimal n
  · intro s' hs'
    unfold ofTextWithin integer
    rw [signed_trim_of_eqvGen hs']

example : ofTextWithin none " +00_1\u0662\n" = .ok 12 := rfl

end StackMachine.Capacity
