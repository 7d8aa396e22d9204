import StackMachine.CommandLine.Option
import StackMachine.Text.DecimalDigit

/-!
# `StackMachine.CommandLine.Argument`: what an argument is

Before any argument is handled, every one is classified by its text alone.

- `Argument` lists the classes.
- `classify` applies the rules to one text, in a fixed order; the first that fits decides.
- `classifyAll` classifies a whole command line. After the first `--` every argument is
  positional.
-/

set_option autoImplicit false

namespace StackMachine.CommandLine

/-- An argument by its class. -/
inductive Argument where
  | positional (text : String)
  /-- An option with its spelling and the text attached to it. -/
  | option (opt : Opt) (style : Opt.Style) (attached : Option String)
  /-- An argument that looks like an option and is none. -/
  | unknown (text : String)
  /-- The first `--`. -/
  | separator
  deriving DecidableEq, Repr

/-- Whether a text without its leading dash is a number: digits, or digits with a point of
which those after the point are required. A line end after it does not count. -/
def isNumber (body : List Char) : Bool :=
  let body := if body.getLast? = some '\n' then body.dropLast else body
  match body.dropWhile DecimalDigit.isDigit with
  | [] => body ≠ []
  | '.' :: fraction => fraction ≠ [] && fraction.all DecimalDigit.isDigit
  | _ => false

/-- A text divided at its first equals sign. -/
def divide (s : List Char) : List Char × Option String :=
  match s.dropWhile (· ≠ '=') with
  | [] => (s, none)
  | _ :: value => (s.takeWhile (· ≠ '='), some (String.ofList value))

/-- A text with a leading dash that is no spelling of an option, complete or abbreviated. -/
def classifyOther (text : String) (body : List Char) : Argument :=
  if isNumber body || text.toList.contains ' ' then .positional text else .unknown text

/-- The class of an argument. A text that abbreviates several options has none, and they are
returned instead. -/
def classify (text : String) : Except (List Opt) Argument :=
  match text.toList with
  | '-' :: body =>
    match Opt.ofSpelling? ('-' :: body) with
    | some (o, style) => .ok (.option o style none)
    | none =>
      match divide ('-' :: body) with
      | (name, value?) =>
        match value?.bind fun _ => Opt.ofSpelling? name with
        | some (o, style) => .ok (.option o style value?)
        | none =>
          match body with
          | [] => .ok (.positional text)
          | '-' :: _ =>
            match Opt.abbreviatedBy name with
            | [] => .ok (classifyOther text body)
            | [o] => .ok (.option o .long value?)
            | several => .error several
          | c :: rest =>
            match Opt.ofShort? c with
            | some o => .ok (.option o .short (some (String.ofList rest)))
            | none => .ok (classifyOther text body)
  | _ => .ok (.positional text)

/-- The classes of all arguments. An ambiguous one is returned with the options that it
abbreviates. -/
def classifyAll : List String → Except (String × List Opt) (List Argument)
  | [] => .ok []
  | text :: rest =>
    if text = "--" then .ok (.separator :: rest.map .positional)
    else
      match classify text with
      | .error several => .error (text, several)
      | .ok a =>
        match classifyAll rest with
        | .error e => .error e
        | .ok as => .ok (a :: as)

end StackMachine.CommandLine
