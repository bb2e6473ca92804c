import SketchCompiler.Grammar.Program
import SketchCompiler.Text.PathName

namespace SketchCompiler

/-- Finds the text of a module, or says why there is none. Without a cycle, loads nest no deeper than `depth`. -/
structure Loader where
  read : String → Except String String
  depth : Nat

/-- Files in memory, by the path that a load gives. -/
def Loader.ofFiles (files : List (String × String)) : Loader where
  read path := match files.lookup path with
    | some text => .ok text
    | none => .error "no such module"
  depth := files.length

inductive ModuleError where
  | loadFailed (path reason : String)
  | cycle (units : List String)
  | duplicateNamespace (name : String)
  | invalidNamespace (path : String)
  | missingMain (units : List String)
  | multipleMain (units : List String)
deriving DecidableEq, Repr

namespace ModuleError

def message : ModuleError → String
  | loadFailed path reason => s!"Cannot load module '{path}': {reason}"
  | cycle units => "Module cycle detected: " ++ String.intercalate " -> " units
  | duplicateNamespace name => s!"Namespace '{name}' is already in use"
  | invalidNamespace path =>
    s!"Module path '{path}' does not name a valid namespace, use `load <...> as name`"
  | missingMain units => "No @main directive found in: " ++ String.intercalate ", " units
  | multipleMain units => "Multiple @main directives found in: " ++ String.intercalate ", " units

def report (e : ModuleError) (loc : Location) : Report :=
  .ofErrors "Module error" message [⟨e, loc⟩]

end ModuleError

def isSourcePath (path : String) : Bool :=
  match fileExtension? path with
  | some extension => extension = ['y', 's'] || extension = ['s', 'r', 'c']
  | none => false

/-- The name of the file without its extension, if it is a word. -/
def namespaceOf? (path : String) : Option String :=
  match fileStem? path with
  | some (c :: cs) => if isWordStart c && cs.all isWordChar then some (String.ofList (c :: cs)) else none
  | _ => none

/-- The units read so far, in order, and those with a `@main` together with its place. -/
structure Links where
  units : List String := []
  marked : List (String × Location) := []

namespace Links

def add (l : Links) (p : Program) : Links where
  units := l.units ++ [p.name]
  marked := match p.mainMark with
    | some loc => l.marked ++ [(p.name, loc)]
    | none => l.marked

end Links

/-- The units that are being read, from the main one on, and how to link one more. -/
structure Linker where
  loader : Loader
  stack : List String
  inner : Links → Program → Except Report (Program × Links)

namespace Linker

/-- The alias of a load, by default the name of its file. -/
def aliasFor (path : Located String) : Option Name → Except Report Name
  | some name => .ok name
  | none =>
    match namespaceOf? path.value with
    | some name => .ok ⟨name, path.loc⟩
    | none => .error ((ModuleError.invalidNamespace path.value).report path.loc)

def checkAlias (used : List String) (name : Name) : Except Report Unit :=
  if used.contains name.text then .error ((ModuleError.duplicateNamespace name.text).report name.loc) else .ok ()

def checkCycle (k : Linker) (path : Located String) : Except Report Unit :=
  match k.stack.dropWhile (· ≠ path.value) with
  | [] => .ok ()
  | units => .error ((ModuleError.cycle (units ++ [path.value])).report path.loc)

def read (k : Linker) (path : Located String) : Except Report Program :=
  match k.loader.read path.value with
  | .ok text => Program.ofText path.value text
  | .error reason => .error ((ModuleError.loadFailed path.value reason).report path.loc)

/-- The module for a load; `used` are the aliases of the unit so far. -/
def module (k : Linker) (used : List String) (links : Links) (loc : Location) (path : Located String)
    (name? : Option Name) : Except Report (Item × List String × Links) := do
  let name ← aliasFor path name?
  checkAlias used name
  checkCycle k path
  let program ← read k path
  let (program, links) ← k.inner links program
  return (.module loc name path.value none program, used ++ [name.text], links)

/-- Replaces the loads of a unit up to the first one that fails. -/
def items (k : Linker) (used : List String) (links : Links) : List Item → List Item × Except Report Links
  | [] => ([], .ok links)
  | .load loc path name? :: is =>
    if isSourcePath path.value then
      match module k used links loc path name? with
      | .ok (item, used, links) =>
        let (is, result) := items k used links is
        (item :: is, result)
      | .error r => (.load loc path name? :: is, .error r)
    else
      let (is, result) := items k used links is
      (.nativeInclude loc path.value :: is, result)
  | i :: is =>
    let (is, result) := items k used links is
    (i :: is, result)

def unit (k : Linker) (links : Links) (p : Program) : Program × Except Report Links :=
  let (is, result) := items k [] (links.add p) p.items
  ({ p with items := is }, result)

/-- A linker with `n` levels of loads; one more level than there are modules could only be a cycle. -/
def ofDepth (loader : Loader) : Nat → List String → Linker
  | 0, stack => ⟨loader, stack, fun _ p =>
      .error ((ModuleError.cycle (stack ++ [p.name])).report (SourceText.ofString "" p.name).start)⟩
  | n + 1, stack => ⟨loader, stack, fun links p =>
      match unit (ofDepth loader n (stack ++ [p.name])) links p with
      | (p, .ok links) => .ok (p, links)
      | (_, .error r) => .error r⟩

end Linker

/-- What linking found: whether a unit carries `@main`, and how many modules were loaded. -/
structure Linked where
  hasMain : Bool
  modules : Nat
deriving DecidableEq, Repr

namespace Program

def start (p : Program) : Location :=
  match p.items with
  | i :: _ => i.loc
  | [] => (SourceText.ofString "" p.name).start

/-- With modules, exactly one unit carries `@main`. -/
def checkMain (p : Program) (links : Links) : Except Report Linked :=
  let modules := links.units.length - 1
  match links.marked with
  | [] => if modules = 0 then .ok ⟨false, modules⟩ else .error ((ModuleError.missingMain links.units).report p.start)
  | [_] => .ok ⟨true, modules⟩
  | _ :: (_, loc) :: _ =>
    if modules = 0 then .ok ⟨true, modules⟩
    else .error ((ModuleError.multipleMain (links.marked.map (·.1))).report loc)

/-- Replaces all loads. The program keeps the replacements before an error. -/
def link (loader : Loader) (p : Program) : Program × Except Report Linked :=
  match (Linker.ofDepth loader (loader.depth + 1) [p.name]).unit {} p with
  | (p, .ok links) => (p, p.checkMain links)
  | (p, .error r) => (p, .error r)

end Program

end SketchCompiler
