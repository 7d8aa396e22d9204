import StackMachine.Engine.Report
import StackMachine.Proofs.Digits

/-!
# `StackMachine.Proofs.Dumps`: what a dump tells

A dump is three lines of words with single spaces between them. No word contains a space or a
line end, so the words can be told apart again: `words_dump` splits a dump into them. Each word
is then a word of the report, a mnemonic, or a numeral that shows one integer only. In place of
the items of an empty stack stands a mark that is no numeral.

`dump_faithful` is what follows. Equal dumps come from engines that agree in all that is shown:
in the address and the opcode up to multiples of `2^32`, and in every item of both stacks
exactly.
-/

set_option autoImplicit false

namespace StackMachine

/-! ### Words -/

/-- The words of each line of a text. -/
def words (s : String) : List (List (List Char)) := (s.toList.splitOn '\n').map (List.splitOn ' ')

/-- A text without a space or a line end. -/
def IsWord (w : String) : Prop := ' ' ∉ w.toList ∧ '\n' ∉ w.toList

instance (w : String) : Decidable (IsWord w) := inferInstanceAs (Decidable (_ ∧ _))

/-- A line of words with single spaces between them. -/
def spaced (first : String) (ws : List String) : List Char :=
  first.toList ++ ws.flatMap fun w => ' ' :: w.toList

/-- A line of words is split into just these, since no word has a space inside. Lines are compared
word by word from there on. -/
private theorem splitOn_spaced {first : String} {ws : List String} (hfirst : IsWord first)
    (hws : ∀ w ∈ ws, IsWord w) :
    (spaced first ws).splitOn ' ' = (first :: ws).map String.toList := by
  unfold spaced
  induction ws generalizing first with
  | nil => simpa using List.splitOn_eq_singleton hfirst.1
  | cons w ws ih =>
    have hrest := ih (hws w List.mem_cons_self) fun x hx => hws x (List.mem_cons_of_mem w hx)
    rw [List.flatMap_cons, List.cons_append, List.splitOn_append_cons_self,
      List.splitOn_eq_singleton hfirst.1, hrest]
    rfl

/-- A line of words ends where its last word ends. So the lines of a dump can be told apart by
their line ends. -/
private theorem not_mem_spaced {first : String} {ws : List String} (hfirst : IsWord first)
    (hws : ∀ w ∈ ws, IsWord w) : '\n' ∉ spaced first ws := by
  intro hmem
  rcases List.mem_append.mp hmem with hmem | hmem
  · exact hfirst.2 hmem
  · obtain ⟨w, hw, hmem⟩ := List.mem_flatMap.mp hmem
    rcases List.mem_cons.mp hmem with hspace | hmem
    · exact absurd hspace (by decide)
    · exact (hws w hw).2 hmem

/-- A decimal numeral is one word. -/
private theorem isWord_decimal (v : Int) : IsWord (Numeral.decimal v) :=
  ⟨mt Numeral.mem_decimal (by decide), mt Numeral.mem_decimal (by decide)⟩

/-- A padded numeral is one word. -/
private theorem isWord_hexPadded (v : Int) : IsWord (Numeral.hexPadded v) :=
  ⟨mt Numeral.mem_hexPadded (by decide), mt Numeral.mem_hexPadded (by decide)⟩

/-- A mnemonic is one word, and so is the name of what is no opcode. The default text of a dump is
therefore a word for every opcode. -/
private theorem isWord_mnemonicOf (n : Int) : IsWord (Instr.mnemonicOf n) := by
  unfold Instr.mnemonicOf
  split
  · rename_i i _
    cases i <;> decide
  · decide

/-! ### The words of a dump -/

/-- The mark of an empty stack. -/
def emptyMark : String := "(Empty)"

/-- The words that stand for the items of a stack. -/
def itemWords (render : Int → String) (items : List Int) : List String :=
  if items = [] then [emptyMark] else items.map render

namespace Engine

/-- The words of the line that describes an instruction by `text`, after the first one. -/
def lineWords (e : Engine) (text : String) : List String :=
  [Numeral.hexWord e.origin, "OP:", Numeral.hexWord e.opcode, "IN:", text,
    "SP:", Numeral.decimal e.operands.depth, "RP:", Numeral.decimal e.returns.depth]

/-- The first line of a dump is made of words: the fixed ones, and the numerals between them. -/
private theorem toList_line (e : Engine) (text : String) :
    (e.line text).toList = spaced "PC:" (e.lineWords text) := by
  simp [line, lineWords, spaced]

/-- So is the line about a stack. -/
private theorem toList_listing (heading : String) (render : Int → String) (items : List Int) :
    (listing heading render items).toList = spaced heading (itemWords render items) := by
  unfold listing itemWords
  split
  · simp [spaced, emptyMark]
  · simp [spaced, String.toList_join, List.flatMap_map]

/-- What stands in the first line are words, if what describes the instruction is one. -/
private theorem isWord_of_mem_lineWords {e : Engine} {text w : String} (htext : IsWord text)
    (hw : w ∈ e.lineWords text) : IsWord w := by
  simp only [lineWords, List.mem_cons, List.not_mem_nil, or_false] at hw
  rcases hw with rfl | rfl | rfl | rfl | rfl | rfl | rfl | rfl | rfl
  · exact isWord_hexPadded _
  · decide
  · exact isWord_hexPadded _
  · decide
  · exact htext
  · decide
  · exact isWord_decimal _
  · decide
  · exact isWord_decimal _

/-- What stands for the items of a stack are words, and the mark of an empty one is a word too. -/
private theorem isWord_of_mem_itemWords {render : Int → String} (hrender : ∀ v, IsWord (render v))
    {items : List Int} {w : String} (hw : w ∈ itemWords render items) : IsWord w := by
  unfold itemWords at hw
  split at hw
  · rw [List.mem_singleton.mp hw]
    decide
  · obtain ⟨v, -, rfl⟩ := List.mem_map.mp hw
    exact hrender v

/-- The words of the three lines of a dump. A reader finds them by splitting at line ends and
spaces, so they are determined by the text. -/
theorem words_dump (e : Engine) :
    words (e.dump none true) =
      [("PC:" :: e.lineWords (Instr.mnemonicOf e.opcode)).map String.toList,
        ("Stack:" :: itemWords Numeral.decimal e.operands.toList).map String.toList,
        ("Return:" :: itemWords Numeral.hexPadded e.returns.toList).map String.toList] := by
  have hline : ∀ w ∈ e.lineWords (Instr.mnemonicOf e.opcode), IsWord w :=
    fun w hw => isWord_of_mem_lineWords (isWord_mnemonicOf e.opcode) hw
  have hoperands : ∀ w ∈ itemWords Numeral.decimal e.operands.toList, IsWord w :=
    fun w hw => isWord_of_mem_itemWords isWord_decimal hw
  have hreturns : ∀ w ∈ itemWords Numeral.hexPadded e.returns.toList, IsWord w :=
    fun w hw => isWord_of_mem_itemWords isWord_hexPadded hw
  have htext : (e.dump none true).toList
      = spaced "PC:" (e.lineWords (Instr.mnemonicOf e.opcode)) ++ '\n' ::
          (spaced "Stack:" (itemWords Numeral.decimal e.operands.toList) ++ '\n' ::
            spaced "Return:" (itemWords Numeral.hexPadded e.returns.toList)) := by
    simp [dump, toList_line, toList_listing]
  unfold words
  rw [htext, List.splitOn_append_cons_self, List.splitOn_append_cons_self,
    List.splitOn_eq_singleton (not_mem_spaced (by decide) hline),
    List.splitOn_eq_singleton (not_mem_spaced (by decide) hoperands),
    List.splitOn_eq_singleton (not_mem_spaced (by decide) hreturns)]
  show [(spaced "PC:" _).splitOn ' ', (spaced "Stack:" _).splitOn ' ',
    (spaced "Return:" _).splitOn ' '] = _
  rw [splitOn_spaced (by decide) hline, splitOn_spaced (by decide) hoperands,
    splitOn_spaced (by decide) hreturns]

end Engine

/-! ### What the words tell -/

section

variable {render : Int → String} (hrender : ∀ v, '(' ∉ (render v).toList)
include hrender

/-- No item is shown by the mark, which has a bracket. -/
private theorem render_ne_emptyMark (v : Int) : render v ≠ emptyMark := by
  intro h
  have hmem : '(' ∉ emptyMark.toList := h ▸ hrender v
  exact hmem (by decide)

/-- No shown item is taken for the mark of an empty stack, so the words of a line tell its items.
It is enough that items are shown without a bracket, and different ones differently. -/
theorem itemWords_injective (hinjective : Function.Injective render) :
    Function.Injective (itemWords render) := by
  have hother : ∀ items : List Int, [emptyMark] ≠ items.map render := by
    intro items h
    obtain ⟨v, -, hv⟩ := List.mem_map.mp (h ▸ List.mem_singleton_self emptyMark)
    exact render_ne_emptyMark hrender v hv
  intro xs ys h
  unfold itemWords at h
  by_cases hxs : xs = [] <;> by_cases hys : ys = []
  · rw [hxs, hys]
  · rw [if_pos hxs, if_neg hys] at h
    exact absurd h (hother ys)
  · rw [if_neg hxs, if_pos hys] at h
    exact absurd h.symm (hother xs)
  · rw [if_neg hxs, if_neg hys] at h
    exact List.map_injective_iff.mpr hinjective h

end

/-- What a dump shows of a stack: the mark of an empty stack exactly if there are no items, and
otherwise the slots below the top, bottom first. -/
structure Stack.ShownAs (stack : Stack) (render : Int → String) (s : String) : Prop where
  empty : s = " (Empty)" ↔ stack.depth = 0
  items : stack.depth ≠ 0 →
    s = String.join ((stack.slots.take stack.depth).map fun v => " " ++ render v)

/-- A listing is its heading with what is shown of the stack. The items are told by it if no item
is shown with a bracket. -/
private theorem Stack.exists_shownAs (stack : Stack) {render : Int → String}
    (hrender : ∀ v, '(' ∉ (render v).toList) (heading : String) :
    ∃ s, Engine.listing heading render stack.toList = heading ++ s ∧ stack.ShownAs render s := by
  have hdepth : stack.toList = [] ↔ stack.depth = 0 := by
    simp [toList, depth]
  unfold Engine.listing
  by_cases hempty : stack.toList = []
  · rw [if_pos hempty]
    exact ⟨_, rfl, by simp [hdepth.mp hempty], fun h => absurd (hdepth.mp hempty) h⟩
  · rw [if_neg hempty]
    refine ⟨_, rfl, ⟨fun h => ?_, fun h => absurd (hdepth.mpr h) hempty⟩, fun _ => ?_⟩
    · -- The bracket of the mark occurs in no listing.
      have hmem : '(' ∈ (String.join (stack.toList.map (" " ++ render ·))).toList := by
        rw [h]
        decide
      obtain ⟨v, -, hv⟩ : ∃ v ∈ stack.toList, '(' ∈ (" " ++ render v).toList := by
        simpa [String.toList_join] using hmem
      rcases List.mem_append.mp (String.toList_append ▸ hv) with hspace | hv
      · exact absurd hspace (by decide)
      · exact absurd hv (hrender v)
    · rw [stack.take_depth_slots]

/-! ### The main result -/

/-- A dump loses no information.

- Its address and its opcode are eight lower-case hexadecimal digits each, which denote the
  residues modulo `2^32`.
- After the heading of a stack stands the mark `(Empty)` exactly if the stack is empty, and
  otherwise every item below the top, and no other slot.
- Equal dumps come from engines whose addresses and opcodes are congruent, whose mnemonics are the
  same, and whose stacks have the same content, item by item. -/
theorem Engine.dump_faithful (e : Engine) :
    (∃ pc op operands returns : String,
      e.dump none true = "PC: 0x" ++ pc ++ " OP: 0x" ++ op ++
        " IN: " ++ Instr.mnemonicOf e.opcode ++ " SP: " ++ Numeral.decimal e.operands.depth ++
        " RP: " ++ Numeral.decimal e.returns.depth ++
        "\nStack:" ++ operands ++ "\nReturn:" ++ returns ∧
      Numeral.EightDigitsOf e.origin pc ∧ Numeral.EightDigitsOf e.opcode op ∧
      e.operands.ShownAs Numeral.decimal operands ∧
      e.returns.ShownAs Numeral.hexPadded returns) ∧
    ∀ e' : Engine, e'.dump none true = e.dump none true →
      e'.origin % 0x100000000 = e.origin % 0x100000000 ∧
      e'.opcode % 0x100000000 = e.opcode % 0x100000000 ∧
      Instr.mnemonicOf e'.opcode = Instr.mnemonicOf e.opcode ∧
      e'.operands.toList = e.operands.toList ∧ e'.returns.toList = e.returns.toList := by
  have hdecimal : ∀ v, '(' ∉ (Numeral.decimal v).toList :=
    fun v => mt Numeral.mem_decimal (by decide)
  have hhexPadded : ∀ v, '(' ∉ (Numeral.hexPadded v).toList :=
    fun v => mt Numeral.mem_hexPadded (by decide)
  constructor
  · obtain ⟨operands, hoperands, hshown⟩ := e.operands.exists_shownAs hdecimal "Stack:"
    obtain ⟨returns, hreturns, hshown'⟩ := e.returns.exists_shownAs hhexPadded "Return:"
    refine ⟨Numeral.eightDigits e.origin, Numeral.eightDigits e.opcode, operands, returns, ?_,
      Numeral.eightDigitsOf_eightDigits _, Numeral.eightDigitsOf_eightDigits _, hshown, hshown'⟩
    rw [← String.toList_inj]
    simp [dump, line, hoperands, hreturns, Numeral.hexWord_eq_eightDigits]
  · intro e' h
    have hwords := congrArg words h
    rw [words_dump, words_dump] at hwords
    have htoList : Function.Injective (List.map String.toList) :=
      List.map_injective_iff.mpr fun s t hst => String.toList_inj.mp hst
    simp only [List.cons.injEq, htoList.eq_iff, true_and, and_true, lineWords] at hwords
    obtain ⟨⟨horigin, hopcode, hmnemonic, -, -⟩, hoperands, hreturns⟩ := hwords
    exact ⟨Numeral.emod_eq_of_hexWord_eq horigin, Numeral.emod_eq_of_hexWord_eq hopcode, hmnemonic,
      itemWords_injective hdecimal Numeral.decimal_injective hoperands,
      itemWords_injective hhexPadded Numeral.hexPadded_injective hreturns⟩

end StackMachine
