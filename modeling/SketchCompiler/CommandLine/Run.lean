import SketchCompiler.CommandLine.Arguments
import SketchCompiler.CommandLine.FileTree
import SketchCompiler.Compilation

namespace SketchCompiler

namespace CommandLine

def versionText : String := "ysc 0.1.0\n"

def helpText : String :=
  "ysc 0.1.0\nCompiles YS programs to Arduino sketches\n\nUSAGE:\n    ysc [OPTIONS] <FILE>\n\nARGS:\n" ++
  "    <FILE>    Main source unit\n\nOPTIONS:\n" ++
  "    -b, --board <BOARD>    Target board, overrides the config block\n" ++
  "    -h, --help             Print help information\n" ++
  "        --line-comments    Annotate declarations with their source location\n" ++
  "    -o <FILE>              Output file ('-' for stdout) [default: -]\n" ++
  "    -v                     Log compiler passes (-vv for more detail)\n" ++
  "    -V, --version          Print version information\n"

def usageText : String :=
  "USAGE:\n    ysc [OPTIONS] <FILE>\n\nFor more information try --help\n"

structure Outcome where
  code : Nat := 0
  stdout : String := ""
  stderr : String := ""
  /-- A path and the text to write there. -/
  file : Option (String × String) := none

/-- A failure and what caused it. -/
def failure (context : String) (cause : Option String) : Outcome :=
  let cause := match cause with
    | some cause => s!"\n\nCaused by:\n    {cause}"
    | none => ""
  { code := 1, stderr := s!"Error: {context}{cause}\n" }

def writeFailure (path cause : String) : Outcome :=
  failure s!"Failed to write output file: {path}" (some cause)

/-- The last component of the input names its unit. -/
def unitName (input : String) : String :=
  match fileName? input with
  | some name => String.ofList name
  | none => input

/-- Modules are found from the directory of the input. -/
def loader (read : String → Except String String) (depth : Nat) (input : String) : Loader where
  read path := read (joinPath (parentPath input) path)
  depth := depth

def compileInput (read : String → Except String String) (depth : Nat) (input : String) (board : Option Board)
    (output : String) (lineComments : Bool) : Outcome :=
  match read input with
  | .error cause => failure s!"Failed to read source file: {input}" (some cause)
  | .ok text =>
    match compile (unitName input) text (loader read depth input) { board, flags := { lineComments } } with
    | .error r => { code := 1, stderr := r.text }
    | .ok c => if output = "-" then { stdout := c.code } else { file := some (output, c.code) }

/-- Answers a request; loads of the files that can be read nest no deeper than `depth`. -/
def answer (read : String → Except String String) (depth : Nat) : Request → Outcome
  | .help => { stdout := helpText }
  | .version => { stdout := versionText }
  | .usage => { code := 2, stderr := usageText }
  | .compile input none output lineComments => compileInput read depth input none output lineComments
  | .compile input (some name) output lineComments =>
    match Board.ofName? name with
    | some board => compileInput read depth input (some board) output lineComments
    | none => failure (Board.unknownMessage name) none

/-- Runs in a directory, and gives the directory afterwards. -/
def runIn (t : FileTree) (args : List String) : Outcome × FileTree :=
  let read path := (t.read path).mapError FileError.message
  let outcome := answer read t.size (.ofArguments args)
  match outcome.file with
  | none => (outcome, t)
  | some (path, text) =>
    match t.write path text with
    | .ok t => (outcome, t)
    | .error e => (writeFailure path e.message, t)

end CommandLine

end SketchCompiler
