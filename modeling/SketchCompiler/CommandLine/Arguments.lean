namespace SketchCompiler

/-- What has been read: each option with its values or uses, and whether a value is missing. -/
structure Arguments where
  input : Option String := none
  boards : List String := []
  outputs : List String := []
  lineComments : Nat := 0
  verbose : Nat := 0
  missingValue : Bool := false
deriving DecidableEq, Repr

/-- What the command line asks for. -/
inductive Request where
  | help
  | version
  | usage
  | compile (input : String) (board : Option String) (output : String) (lineComments : Bool)
deriving DecidableEq, Repr

/-- The options that take a value. -/
inductive ValueOption where
  | board
  | output
deriving DecidableEq, Repr

namespace Arguments

def setValue (a : Arguments) (o : ValueOption) (value : String) : Arguments :=
  match o with
  | .board => { a with boards := a.boards ++ [value] }
  | .output => { a with outputs := a.outputs ++ [value] }

/-- Whether an argument is an option, or the mark that ends them. -/
def isOption (s : String) : Bool :=
  match s.toList with
  | '-' :: _ :: _ => true
  | _ => false

/-- What an argument amounts to: more arguments read, an option whose value is the next argument, or an answer. -/
inductive Reading where
  | read (a : Arguments)
  | wants (a : Arguments) (o : ValueOption)
  | answer (r : Request)

/-- An option with two dashes, split at its equals sign. -/
def long (a : Arguments) (name : String) (value : Option String) : Reading :=
  match name, value with
  | "board", some value => .read (a.setValue .board value)
  | "board", none => .wants a .board
  | "line-comments", none => .read { a with lineComments := a.lineComments + 1 }
  | "help", none => .answer .help
  | "version", none => .answer .version
  | _, _ => .answer .usage

/-- The value attached to a short option. -/
def attached (a : Arguments) (o : ValueOption) : List Char → Reading
  | [] => .wants a o
  | '=' :: cs => .read (a.setValue o (String.ofList cs))
  | cs => .read (a.setValue o (String.ofList cs))

/-- Short options joined behind one dash. -/
def short (a : Arguments) : List Char → Reading
  | [] => .read a
  | 'v' :: cs => short { a with verbose := a.verbose + 1 } cs
  | 'b' :: cs => attached a .board cs
  | 'o' :: cs => attached a .output cs
  | 'h' :: _ => .answer .help
  | 'V' :: _ => .answer .version
  | _ :: _ => .answer .usage

def file (a : Arguments) (s : String) : Reading :=
  match a.input with
  | none => .read { a with input := some s }
  | some _ => .answer .usage

def option (a : Arguments) (s : String) : Reading :=
  match s.toList with
  | '-' :: '-' :: cs =>
    let name := cs.takeWhile (· ≠ '=')
    let value := match cs.drop name.length with
      | [] => none
      | _ :: value => some (String.ofList value)
    long a (String.ofList name) value
  | _ :: cs => short a cs
  | [] => .answer .usage

/-- Each option stands at most once, a value is there for each, and there is a file. -/
def finish (a : Arguments) : Request :=
  match a.input with
  | none => .usage
  | some input =>
    if a.missingValue || 1 < a.boards.length || 1 < a.outputs.length || 1 < a.lineComments then .usage
    else .compile input a.boards.head? (a.outputs.head?.getD "-") (a.lineComments = 1)

/-- Reads the rest of the arguments; `wanted` is the option that waits for its value, `files` whether `--` was read. -/
def readAll (a : Arguments) (wanted : Option ValueOption) (files : Bool) : List String → Request
  | [] => finish { a with missingValue := a.missingValue || wanted.isSome }
  | s :: rest =>
    let reading :=
      if files then file a s
      else if isOption s then option { a with missingValue := a.missingValue || wanted.isSome } s
      else match wanted with
        | some o => .read (a.setValue o s)
        | none => file a s
    if !files && s = "--" then
      readAll { a with missingValue := a.missingValue || wanted.isSome } none true rest
    else match reading with
      | .read a => readAll a none files rest
      | .wants a o => readAll a (some o) files rest
      | .answer r => r

end Arguments

def Request.ofArguments (args : List String) : Request :=
  Arguments.readAll {} none false args

end SketchCompiler
