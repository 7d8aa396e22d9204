/-!
# `StackMachine.CommandLine.Option`: the options

- `Opt` lists the options.
- `Opt.long` and `Opt.short?` are their spellings, and `Opt.takesValue` says which of them take
  a value.
- `Opt.label` is how messages name an option.
- `Opt.ofShort?`, `Opt.ofSpelling?` and `Opt.abbreviatedBy` look options up.
-/

set_option autoImplicit false

namespace StackMachine.CommandLine

/-- The options of the command line. -/
inductive Opt where
  | help
  | stackSize
  | returnStackSize
  | debug
  | version
  deriving DecidableEq, Repr

namespace Opt

/-- The options in the order in which they are listed. -/
def all : List Opt := [help, stackSize, returnStackSize, debug, version]

/-- The spelling with two dashes. -/
def long : Opt → String
  | help => "--help"
  | stackSize => "--stack_size"
  | returnStackSize => "--return_stack_size"
  | debug => "--debug"
  | version => "--version"

/-- The letter of the spelling with one dash. -/
def short? : Opt → Option Char
  | help => some 'h'
  | stackSize => some 's'
  | returnStackSize => some 'r'
  | debug => some 'd'
  | version => none

/-- Whether an option takes a value. The others are flags. -/
def takesValue : Opt → Bool
  | stackSize | returnStackSize => true
  | help | debug | version => false

/-- All spellings of an option, as messages name it. -/
def label (o : Opt) : String :=
  match o.short? with
  | some c => "-" ++ c.toString ++ "/" ++ o.long
  | none => o.long

/-- The option with a letter. -/
def ofShort? (c : Char) : Option Opt := all.find? fun o => o.short? = some c

/-- A spelling has one dash or two. -/
inductive Style where
  | short
  | long
  deriving DecidableEq, Repr

/-- The option with exactly the given spelling. -/
def ofSpelling? (s : List Char) : Option (Opt × Style) :=
  match s with
  | ['-', c] => (ofShort? c).map (·, .short)
  | _ => (all.find? fun o => o.long.toList = s).map (·, .long)

/-- The options whose long spelling begins with the given text. -/
def abbreviatedBy (s : List Char) : List Opt := all.filter fun o => s.isPrefixOf o.long.toList

end Opt

end StackMachine.CommandLine
