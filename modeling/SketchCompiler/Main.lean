import SketchCompiler.CommandLine.Run

namespace SketchCompiler.CommandLine

def causeOf : IO.Error → String
  | .noFileOrDirectory _ code details => s!"{details} (os error {code})"
  | .permissionDenied _ code details => s!"{details} (os error {code})"
  | .inappropriateType _ code details => s!"{details} (os error {code})"
  | .invalidArgument _ code details => s!"{details} (os error {code})"
  | .otherError code details => s!"{details} (os error {code})"
  | e => toString e

abbrev Known := List (String × Except String String)

def readFrom (known : Known) (path : String) : Except String String :=
  (known.lookup path).getD (.error FileError.notFound.message)

def sizeOfTexts (known : Known) : Nat :=
  known.foldl (fun n (_, text) => n + (text.toOption.map String.length).getD 0) 0

/-- The paths of the source files that a text loads. -/
def loadedPaths (input text : String) : List String :=
  match Program.ofText (unitName input) text with
  | .ok p => p.items.filterMap fun
    | .load _ path _ => if isSourcePath path.value then some path.value else none
    | _ => none
  | .error _ => []

def readText (path : String) : IO (Except String String) := do
  match checkPath path with
  | .error e => return .error e.message
  | .ok () =>
    try return .ok (← (← IO.FS.Handle.mk path .read).readToEnd)
    catch e => return .error (causeOf e)

/-- Reads the pending files and all that they load. -/
partial def gather (directory : String) (known : Known) : List String → IO Known
  | [] => return known
  | path :: pending => do
    if (known.lookup path).isSome then gather directory known pending
    else
      let text ← readText path
      let loaded := match text with
        | .ok text => (loadedPaths path text).map (joinPath directory)
        | .error _ => []
      gather directory ((path, text) :: known) (loaded ++ pending)

def finish (outcome : Outcome) : IO UInt32 := do
  (← IO.getStdout).putStr outcome.stdout
  (← IO.getStderr).putStr outcome.stderr
  return outcome.code.toUInt32

end SketchCompiler.CommandLine

open SketchCompiler SketchCompiler.CommandLine in
def main (args : List String) : IO UInt32 := do
  let request := Request.ofArguments args
  let known ← match request with
    | .compile input _ _ _ => gather (parentPath input) [] [input]
    | _ => pure []
  let outcome := answer (readFrom known) (sizeOfTexts known) request
  match outcome.file with
  | none => finish outcome
  | some (path, text) =>
    try
      IO.FS.writeFile path text
      finish outcome
    catch e => finish (writeFailure path (causeOf e))
