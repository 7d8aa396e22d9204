import StackMachine.Text.Numeral
import StackMachine.Text.Quoted

/-!
# `StackMachine.FileTree`: files below a working directory

A small model of a file system, just enough to say which names can be read and written and
how the others are refused.

- `FileTree` holds directories and files by their place.
- `walk` follows a name component by component.
- `read` and `write` open a file by its name, and `makeDirectory` makes a directory by its name.
- `FileError` lists the refusals and `FileError.message` words them.

A place is a list of components below the working directory. Places above it begin with
`..`, and places below the root of the file system begin with `/`.
-/

set_option autoImplicit false

namespace StackMachine

/-- A reason why a file is not opened. -/
inductive FileError where
  | missing
  | isDirectory
  | notDirectory
  | nameTooLong
  /-- A refusal for another reason, with its number. -/
  | other (code : Nat) (reason : String)
  /-- A name with the character U+0000, which no file has. This is a mistake of the caller and
  not a refusal by the file system. -/
  | embeddedNul
  deriving DecidableEq, Repr

namespace FileError

/-- The reason that a file system gives by number. -/
def ofCode (code : Nat) (reason : String) : FileError :=
  match code with
  | 2 => missing
  | 20 => notDirectory
  | 21 => isDirectory
  | 36 => nameTooLong
  | _ => other code reason

/-- The text of a refusal by the file system: a number, a reason, and the name as given. -/
def refusal (code : Nat) (reason name : String) : String :=
  "[Errno " ++ Numeral.decimal code ++ "] " ++ reason ++ ": " ++ Quoted.quote name

/-- The wording of a refusal to open the file called `name`. -/
def message (name : String) : FileError → String
  | missing => refusal 2 "No such file or directory" name
  | isDirectory => refusal 21 "Is a directory" name
  | notDirectory => refusal 20 "Not a directory" name
  | nameTooLong => refusal 36 "File name too long" name
  | other code reason => refusal code reason name
  | embeddedNul => "embedded null byte"

end FileError

/-- A place in the file system. -/
abbrev Place := List String

/-- What is at a place. -/
inductive Node where
  | directory
  | file (bytes : List UInt8)
  deriving DecidableEq, Repr

/-- The directories and files that were made, latest first. -/
structure FileTree where
  nodes : List (Place × Node)

namespace FileTree

/-- The most bytes that one component of a name may have. -/
def maxComponent : Nat := 255

/-- The most bytes that a whole name may have. -/
def maxName : Nat := 4095

/-- Nothing but the working directory. -/
def empty : FileTree := ⟨[]⟩

/-- What is at a place. The working directory, those above it, and the root always exist. -/
def node? (t : FileTree) (p : Place) : Option Node :=
  if p.all (· = "..") ∨ p = ["/"] then some .directory else t.nodes.lookup p

/-- The directory above a place. -/
def parent (p : Place) : Place :=
  if p.all (· = "..") then p ++ [".."]
  else if p = ["/"] then p
  else p.dropLast

/-- The place where a name starts. -/
def start (name : String) : Place := if name.startsWith "/" then ["/"] else []

/-- The components of a name. -/
def components (name : String) : List String := (name.splitOn "/").filter (· ≠ "")

/-- What a name leads to. -/
inductive Target where
  | directory (place : Place)
  | file (place : Place) (bytes : List UInt8)
  /-- Nothing, in a directory that exists. -/
  | vacant (place : Place)

/-- One component of a name, seen from a directory. -/
def enter (t : FileTree) (dir : Place) (component : String) : Except FileError Target :=
  if component = "." then .ok (.directory dir)
  else if component = ".." then .ok (.directory (parent dir))
  else if maxComponent < component.utf8ByteSize then .error .nameTooLong
  else
    let place := dir ++ [component]
    match t.node? place with
    | some .directory => .ok (.directory place)
    | some (.file bytes) => .ok (.file place bytes)
    | none => .ok (.vacant place)

/-- Follow components from a directory. All but the last have to be directories. -/
def walk (t : FileTree) (dir : Place) : List String → Except FileError Target
  | [] => .ok (.directory dir)
  | c :: rest =>
    match t.enter dir c with
    | .error e => .error e
    | .ok (.directory place) => walk t place rest
    | .ok target =>
      if rest = [] then .ok target
      else match target with
        | .vacant _ => .error .missing
        | _ => .error .notDirectory

/-- The refusals that do not depend on the tree. -/
def checkName (name : String) : Except FileError Unit :=
  if name.toList.contains '\x00' then .error .embeddedNul
  else if name = "" then .error .missing
  else if maxName < name.utf8ByteSize then .error .nameTooLong
  else .ok ()

/-- The content of a file. A name with a slash at the end can only be a directory. -/
def read (t : FileTree) (name : String) : Except FileError (List UInt8) :=
  match checkName name with
  | .error e => .error e
  | .ok () =>
    match t.walk (start name) (components name) with
    | .error e => .error e
    | .ok (.directory _) => .error .isDirectory
    | .ok (.vacant _) => .error .missing
    | .ok (.file _ bytes) => if name.endsWith "/" then .error .notDirectory else .ok bytes

/-- The tree with a file at a place. -/
def put (t : FileTree) (place : Place) (node : Node) : FileTree := ⟨(place, node) :: t.nodes⟩

/-- Create a file or replace its content. A name with a slash at the end is refused once the
directory that it lies in was found. -/
def write (t : FileTree) (name : String) (bytes : List UInt8) : Except FileError FileTree :=
  match checkName name with
  | .error e => .error e
  | .ok () =>
    let path := components name
    if name.endsWith "/" then
      match t.walk (start name) path.dropLast with
      | .error e => .error e
      | .ok (.directory _) => .error .isDirectory
      | .ok (.file _ _) => .error .notDirectory
      | .ok (.vacant _) => .error .missing
    else
      match t.walk (start name) path with
      | .error e => .error e
      | .ok (.directory _) => .error .isDirectory
      | .ok (.file place _) | .ok (.vacant place) => .ok (t.put place (.file bytes))

/-- Follow components from a directory, and make a directory of each one that is missing. A
component that cannot be entered ends this. -/
def makeFrom (t : FileTree) (dir : Place) : List String → FileTree
  | [] => t
  | c :: rest =>
    match t.enter dir c with
    | .ok (.directory place) => t.makeFrom place rest
    | .ok (.vacant place) => (t.put place .directory).makeFrom place rest
    | .ok (.file _ _) | .error _ => t

/-- The tree with the directory that a name leads to, and with all those on the way to it. -/
def makeDirectory (t : FileTree) (name : String) : FileTree :=
  t.makeFrom (start name) (components name)

end FileTree

end StackMachine
