import StackMachine.Capacity
import StackMachine.CommandLine.Option
import StackMachine.Launch

/-!
# `StackMachine.CommandLine.Usage`: what the command line prints

- `usage` and `help` are the two fixed texts.
- `UsageError` lists what can be wrong with a command line, and `UsageError.message` words it.
- `Exit` is why parsing does not lead to a launch; `Exit.status`, `Exit.out` and `Exit.err` are
  its exit status and its text on the two streams.
-/

set_option autoImplicit false

namespace StackMachine.CommandLine

/-- The name under which the program is called. -/
def programName : String := "stack_vm.py"

/-- What stands before the arguments in their summary. -/
def usageLead : String := "usage: " ++ programName ++ " "

/-- The summary of the arguments. Further lines are indented to where the first one lists
arguments. -/
def usage : String :=
  let indent := String.ofList (List.replicate usageLead.length ' ')
  usageLead ++ "[-h] [-s STACK_SIZE] [-r RETURN_STACK_SIZE] [-d]\n" ++
  indent ++ "[--version]\n" ++
  indent ++ "filename\n"

/-- The description of every argument. -/
def help : String :=
  usage ++
  "\n" ++
  "positional arguments:\n" ++
  "  filename              program binary to execute (big-endian 32-bit words)\n" ++
  "\n" ++
  "options:\n" ++
  "  -h, --help            show this help message and exit\n" ++
  "  -s STACK_SIZE, --stack_size STACK_SIZE\n" ++
  "                        set the operand stack capacity in words (default 1024)\n" ++
  "  -r RETURN_STACK_SIZE, --return_stack_size RETURN_STACK_SIZE\n" ++
  "                        set the return-address stack capacity in words\n" ++
  "                        (default 1024)\n" ++
  "  -d, --debug           enable live debug output on stderr. Slows execution\n" ++
  "  --version             show program's version number and exit\n"

/-- What can be wrong with a command line. -/
inductive UsageError where
  /-- An argument that abbreviates several options. -/
  | ambiguous (text : String) (opts : List Opt)
  /-- An option without the value it takes. -/
  | valueExpected (opt : Opt)
  /-- A flag with a value. -/
  | valueIgnored (opt : Opt) (value : String)
  /-- A value that is no capacity. -/
  | badCapacity (opt : Opt) (value : String) (cause : CapacityError)
  /-- No file name. -/
  | filenameRequired
  /-- Arguments that are left over. -/
  | unrecognized (texts : List String)
  deriving DecidableEq, Repr

namespace UsageError

/-- What is wrong with the value of an option. -/
def badCapacityMessage (value : String) : CapacityError → String
  | .notNumeral | .tooLong _ => "invalid stack_size value: " ++ Quoted.quote value
  | .negative => CapacityError.negative.message value

/-- The wording of an error. -/
def message : UsageError → String
  | ambiguous text opts =>
    "ambiguous option: " ++ text ++ " could match " ++ ", ".intercalate (opts.map Opt.long)
  | valueExpected opt => "argument " ++ opt.label ++ ": expected one argument"
  | valueIgnored opt value =>
    "argument " ++ opt.label ++ ": ignored explicit argument " ++ Quoted.quote value
  | badCapacity opt value cause =>
    "argument " ++ opt.label ++ ": " ++ badCapacityMessage value cause
  | filenameRequired => "the following arguments are required: filename"
  | unrecognized texts => "unrecognized arguments: " ++ " ".intercalate texts

end UsageError

/-- Why parsing does not lead to a launch. -/
inductive Exit where
  | help
  | version
  | refused (error : UsageError)
  deriving DecidableEq, Repr

namespace Exit

/-- The exit status. -/
def status : Exit → Nat
  | help | version => 0
  | refused _ => 2

/-- The text on the output stream. -/
def out : Exit → String
  | help => CommandLine.help
  | version => appIntro ++ "\n"
  | refused _ => ""

/-- The text on the error stream. -/
def err : Exit → String
  | help | version => ""
  | refused error => usage ++ programName ++ ": error: " ++ error.message ++ "\n"

end Exit

end StackMachine.CommandLine
