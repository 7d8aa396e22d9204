import StackMachine.CommandLine.Argument
import StackMachine.CommandLine.Usage

/-!
# `StackMachine.CommandLine.Parse`: from arguments to settings

Arguments are handled from left to right, and the first problem ends parsing. What is left
over is complained about only at the end.

- `Progress` is what the arguments handled so far have set.
- `Cluster` is one argument that spells options: flags joined together, and a last option with
  or without an attached value. It is understood as a whole before any of it takes effect.
- `scan` handles all arguments.
- `parse` gives the settings, or the reason why there are none.
-/

set_option autoImplicit false

namespace StackMachine.CommandLine

/-- What has been set so far. -/
structure Progress where
  filename : Option String
  stackSize : CapacitySetting
  returnStackSize : CapacitySetting
  debug : Bool
  /-- Arguments that are left over, in order. -/
  extras : List String
  /-- Whether the argument handled last became the file name. -/
  justNamed : Bool
  deriving DecidableEq, Repr

namespace Progress

/-- The settings before any argument. -/
def initial : Progress := ⟨none, .standard, .standard, false, [], false⟩

/-- Handle a positional argument. The first one is the file name. -/
def positional (p : Progress) (text : String) : Progress :=
  match p.filename with
  | none => { p with filename := some text, justNamed := true }
  | some _ => { p with extras := p.extras ++ [text], justNamed := false }

/-- Handle an argument that is no option and no positional argument. -/
def leftOver (p : Progress) (text : String) : Progress :=
  { p with extras := p.extras ++ [text], justNamed := false }

/-- Handle the separator. It goes unnoticed beside the file name, before or after it, and is
left over elsewhere. -/
def separator (p : Progress) : Progress :=
  if p.filename.isNone || p.justNamed then { p with justNamed := false } else p.leftOver "--"

/-- The effect of a flag. -/
def flag (p : Progress) : Opt → Except Exit Progress
  | .help => .error .help
  | .version => .error .version
  | .debug => .ok { p with debug := true }
  | .stackSize | .returnStackSize => .ok p

/-- The effect of flags in order. -/
def flags (p : Progress) : List Opt → Except Exit Progress
  | [] => .ok p
  | o :: rest =>
    match p.flag o with
    | .error e => .error e
    | .ok p => p.flags rest

/-- The capacity that the value of an option stands for. The separator is no value, not even
where it is attached to an option: the option is then left without one. -/
def capacity (text : String) : Except CapacityError CapacitySetting :=
  if text = "--" then .ok .blank else (Capacity.ofText text).map .slots

/-- The effect of an option with a value. -/
def value (p : Progress) (o : Opt) (text : String) : Except Exit Progress :=
  match capacity text with
  | .error cause => .error (.refused (.badCapacity o text cause))
  | .ok size =>
    match o with
    | .stackSize => .ok { p with stackSize := size }
    | .returnStackSize => .ok { p with returnStackSize := size }
    | .help | .debug | .version => .ok p

end Progress

/-- Options joined in one argument. -/
structure Cluster where
  flags : List Opt
  last : Opt
  value : Option String
  deriving DecidableEq, Repr

namespace Cluster

/-- An option with the letters after it. An option that takes a value takes all of them; after
a flag, the next letter has to be an option as well. -/
def ofLetters (o : Opt) : List Char → Except UsageError Cluster
  | [] => .ok ⟨[], o, none⟩
  | c :: rest =>
    if o.takesValue then .ok ⟨[], o, some (String.ofList (c :: rest))⟩
    else
      match Opt.ofShort? c with
      | none => .error (.valueIgnored o (String.ofList (c :: rest)))
      | some o' =>
        match ofLetters o' rest with
        | .error e => .error e
        | .ok k => .ok { k with flags := o :: k.flags }

/-- What an argument spells. A text attached to a flag is taken for further letters if the
flag has one dash and the text is not empty. -/
def ofArgument (o : Opt) (style : Opt.Style) : Option String → Except UsageError Cluster
  | none => .ok ⟨[], o, none⟩
  | some text =>
    if o.takesValue then .ok ⟨[], o, some text⟩
    else if style = .short ∧ text ≠ "" then ofLetters o text.toList
    else .error (.valueIgnored o text)

end Cluster

/-- Handle arguments from left to right. -/
def scan (p : Progress) : List Argument → Except Exit Progress
  | [] => .ok p
  | .positional text :: rest => scan (p.positional text) rest
  | .unknown text :: rest => scan (p.leftOver text) rest
  | .separator :: rest => scan p.separator rest
  | .option o style attached :: rest =>
    match Cluster.ofArgument o style attached with
    | .error e => .error (.refused e)
    | .ok k =>
      let p := { p with justNamed := false }
      match k.value with
      | some text =>
        match p.flags k.flags with
        | .error e => .error e
        | .ok p =>
          match p.value k.last text with
          | .error e => .error e
          | .ok p => scan p rest
      | none =>
        if k.last.takesValue then
          match rest with
          | .positional text :: rest =>
            match p.flags k.flags with
            | .error e => .error e
            | .ok p =>
              match p.value k.last text with
              | .error e => .error e
              | .ok p => scan p rest
          | _ => .error (.refused (.valueExpected k.last))
        else
          match p.flags (k.flags ++ [k.last]) with
          | .error e => .error e
          | .ok p => scan p rest

/-- The settings after all arguments. -/
def Progress.finish (p : Progress) : Except Exit Settings :=
  match p.filename with
  | none => .error (.refused .filenameRequired)
  | some filename =>
    if p.extras = [] then .ok ⟨filename, p.stackSize, p.returnStackSize, p.debug⟩
    else .error (.refused (.unrecognized p.extras))

/-- The settings that a command line stands for. -/
def parse (args : List String) : Except Exit Settings :=
  match classifyAll args with
  | .error (text, several) => .error (.refused (.ambiguous text several))
  | .ok args =>
    match scan Progress.initial args with
    | .error e => .error e
    | .ok p => p.finish

end StackMachine.CommandLine
