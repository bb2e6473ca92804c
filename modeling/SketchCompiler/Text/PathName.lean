namespace SketchCompiler

/-- The pieces between the slashes, some of which may be empty. -/
def cutAtSlashes : List Char → List (List Char)
  | [] => [[]]
  | '/' :: cs => [] :: cutAtSlashes cs
  | c :: cs =>
    match cutAtSlashes cs with
    | [] => [[c]]
    | p :: ps => (c :: p) :: ps

/-- The components that lead somewhere else. -/
def pathComponents (path : String) : List (List Char) :=
  (cutAtSlashes path.toList).filter fun p => p ≠ [] && p ≠ ['.']

/-- The last component, unless it leads upwards. -/
def fileName? (path : String) : Option (List Char) :=
  (pathComponents path).getLast?.filter (· ≠ ['.', '.'])

/-- A name before and behind its last dot; a dot at the beginning does not count. -/
def splitExtension (name : List Char) : List Char × Option (List Char) :=
  let extension := (name.reverse.takeWhile (· ≠ '.')).reverse
  let stem := name.take (name.length - extension.length - 1)
  if stem = [] then (name, none) else (stem, some extension)

def fileStem? (path : String) : Option (List Char) :=
  (fileName? path).map fun name => (splitExtension name).1

def fileExtension? (path : String) : Option (List Char) :=
  (fileName? path).bind fun name => (splitExtension name).2

/-- Leaves out the slashes and the single dots at the end of a path, whose characters are in reverse order. -/
def dropSlashes : List Char → List Char
  | '/' :: cs => dropSlashes cs
  | '.' :: '/' :: cs => dropSlashes cs
  | cs => cs

/-- The path up to its last component, empty if there is no other. -/
def parentPath (path : String) : String :=
  let beforeLast := (dropSlashes path.toList.reverse).dropWhile (· ≠ '/')
  let parent := dropSlashes beforeLast
  if beforeLast ≠ [] && parent = [] then "/" else String.ofList parent.reverse

/-- A path as seen from a directory. -/
def joinPath (directory path : String) : String :=
  if path.toList.head? = some '/' || directory = "" then path
  else if directory.toList.getLast? = some '/' then directory ++ path
  else directory ++ "/" ++ path

end SketchCompiler
