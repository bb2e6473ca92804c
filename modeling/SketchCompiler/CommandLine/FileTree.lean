import SketchCompiler.Text.PathName

namespace SketchCompiler

inductive FileError where
  | notFound
  | notADirectory
  | isADirectory
  | nameTooLong
  | embeddedNul
deriving DecidableEq, Repr

def FileError.message : FileError → String
  | notFound => "No such file or directory (os error 2)"
  | notADirectory => "Not a directory (os error 20)"
  | isADirectory => "Is a directory (os error 21)"
  | nameTooLong => "File name too long (os error 36)"
  | embeddedNul => "file name contained an unexpected NUL byte"

/-- The most bytes that a component of a path may have. -/
def maxNameBytes : Nat := 255

/-- The most bytes that a path may have. -/
def maxPathBytes : Nat := 4095

/-- Refuses a path before any of its components is looked up. -/
def checkPath (path : String) : Except FileError Unit :=
  if path.toList.contains '\x00' then .error .embeddedNul
  else if maxPathBytes < path.utf8ByteSize then .error .nameTooLong
  else .ok ()

/-- Files by their components below the directory. Every beginning of a file's components is a directory. -/
structure FileTree where
  files : List (List (List Char) × String)

/-- A place below the directory, a directory that holds it, or a place on the way from the root to the null device. -/
inductive Place where
  | inside (components : List (List Char))
  | above
  | fromRoot (components : List (List Char))

/-- Takes any text and holds none. -/
def nullDevice : List (List Char) :=
  [['d', 'e', 'v'], ['n', 'u', 'l', 'l']]

namespace FileTree

def ofPaths (files : List (String × String)) : FileTree :=
  ⟨files.map fun (path, text) => (pathComponents path, text)⟩

def isFile (t : FileTree) (place : List (List Char)) : Bool :=
  (t.files.lookup place).isSome

def isDirectory (t : FileTree) (place : List (List Char)) : Bool :=
  place = [] || t.files.any fun (file, _) => place.length < file.length && place.isPrefixOf file

def isTooLong (c : List Char) : Bool :=
  maxNameBytes < (String.ofList c).utf8ByteSize

/-- One component further; an empty one and a dot stay in their directory, two dots leave it. -/
def step (t : FileTree) (p : Place) (c : List Char) : Except FileError Place :=
  match p with
  | .inside place =>
    if t.isDirectory place then
      if c = [] || c = ['.'] then .ok p
      else if c = ['.', '.'] then .ok (if place = [] then .above else .inside place.dropLast)
      else if isTooLong c then .error .nameTooLong
      else .ok (.inside (place ++ [c]))
    else if t.isFile place then .error .notADirectory
    else .error .notFound
  | .above =>
    if c = [] || c = ['.'] || c = ['.', '.'] then .ok p
    else if isTooLong c then .error .nameTooLong
    else .error .notFound
  | .fromRoot place =>
    if place = nullDevice then .error .notADirectory
    else if c = [] || c = ['.'] then .ok p
    else if c = ['.', '.'] then .ok (.fromRoot place.dropLast)
    else if isTooLong c then .error .nameTooLong
    else if (place ++ [c]).isPrefixOf nullDevice then .ok (.fromRoot (place ++ [c]))
    else .error .notFound

/-- Where the pieces of a path lead; the last one need not be there. -/
def walk (t : FileTree) : List (List Char) → Except FileError Place
  | [[]] => .error .notFound
  | [] :: cs => cs.foldlM t.step (.fromRoot [])
  | cs => cs.foldlM t.step (.inside [])

def read (t : FileTree) (path : String) : Except FileError String := do
  checkPath path
  match ← t.walk (cutAtSlashes path.toList) with
  | .above => .error .isADirectory
  | .fromRoot place => if place = nullDevice then .ok "" else .error .isADirectory
  | .inside place =>
    match t.files.lookup place with
    | some text => .ok text
    | none => if t.isDirectory place then .error .isADirectory else .error .notFound

/-- The path of the directory that holds the last component. -/
def holder (path : List Char) : List Char :=
  ((path.reverse.dropWhile (· = '/')).dropWhile (· ≠ '/')).reverse ++ ['.']

/-- Creates or replaces a file. A path with a slash at its end could only be a directory. -/
def write (t : FileTree) (path text : String) : Except FileError FileTree := do
  checkPath path
  let endsInSlash := path.toList.getLast? = some '/'
  match ← t.walk (cutAtSlashes (if endsInSlash then holder path.toList else path.toList)) with
  | .above => .error .isADirectory
  | .fromRoot place => if place = nullDevice && !endsInSlash then .ok t else .error .isADirectory
  | .inside place =>
    if endsInSlash || t.isDirectory place then .error .isADirectory
    else .ok ⟨t.files.filter (·.1 ≠ place) ++ [(place, text)]⟩

/-- The characters of all files. A chain of loads without a cycle is no longer. -/
def size (t : FileTree) : Nat :=
  t.files.foldl (fun n (_, text) => n + text.length) 0

end FileTree

end SketchCompiler
