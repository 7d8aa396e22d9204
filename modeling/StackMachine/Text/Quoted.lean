import StackMachine.Text.Unprintable

/-!
# `StackMachine.Text.Quoted`: texts in quotes

Error messages show a text in quotes, with every character that would be invisible or would
end the text spelled out.

- `delimiter` chooses the quote: an apostrophe, or a quotation mark for a text that has an
  apostrophe and no quotation mark.
- `escape` is the spelling of one character.
- `quote` is the whole quoted text.
-/

set_option autoImplicit false

namespace StackMachine.Quoted

/-- The usual quote around a text. -/
def apostrophe : Char := '\x27'

/-- The quote around a text that has an apostrophe. -/
def quotationMark : Char := '\x22'

/-- The character that begins a spelling. -/
def backslash : Char := '\x5c'

/-- The quote that stands around a text. -/
def delimiter (cs : List Char) : Char :=
  if apostrophe ∈ cs ∧ quotationMark ∉ cs then quotationMark else apostrophe

/-- A number in hexadecimal with leading zeros, `width` digits in all. -/
def hexDigits (width n : Nat) : List Char :=
  let digits := Nat.toDigits 16 n
  List.replicate (width - digits.length) '0' ++ digits

/-- The spelling of an unprintable character by its code point: two, four, or eight digits,
whichever suffices first. -/
def codePoint (c : Char) : List Char :=
  if c.toNat < 0x100 then backslash :: 'x' :: hexDigits 2 c.toNat
  else if c.toNat < 0x10000 then backslash :: 'u' :: hexDigits 4 c.toNat
  else backslash :: 'U' :: hexDigits 8 c.toNat

/-- The spelling of a character between the given quotes. -/
def escape (delim c : Char) : List Char :=
  if c = delim ∨ c = backslash then [backslash, c]
  else if c = '\t' then [backslash, 't']
  else if c = '\n' then [backslash, 'n']
  else if c = '\r' then [backslash, 'r']
  else if Unprintable.isUnprintable c then codePoint c
  else [c]

/-- The quoted text as a list of characters. -/
def quoteList (cs : List Char) : List Char :=
  let delim := delimiter cs
  delim :: (cs.flatMap (escape delim) ++ [delim])

/-- A text in quotes. -/
def quote (s : String) : String := String.ofList (quoteList s.toList)

end StackMachine.Quoted
