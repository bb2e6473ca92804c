import SketchCompiler.Tree.Expr

namespace SketchCompiler

abbrev ScopeId := Nat

inductive SymbolKind where
  | var | constant | function | classType | enumType | structType | param | moduleAlias | builtin | signal | task
  | variant | field
deriving DecidableEq, Repr

namespace SymbolKind

def isAssignable : SymbolKind → Bool
  | var | param | field => true
  | _ => false

def isType : SymbolKind → Bool
  | classType | enumType | structType => true
  | _ => false

end SymbolKind

/-- The members of a class, a structure or an enumeration have a scope of their own. -/
inductive ScopeKind where
  | builtins | global | module | function | method | block | loop | members
deriving DecidableEq, Repr

structure Symbol where
  name : String
  kind : SymbolKind := .builtin
  type : Option TypeName := none
  scope : ScopeId := 0
  members : Option ScopeId := none
deriving Repr

instance : Inhabited Symbol := ⟨{ name := "" }⟩

/-- A scope and its own names; `path` holds the aliases of the modules around it, outermost first. -/
structure Scope where
  parent : Option ScopeId := none
  kind : ScopeKind
  path : List String := []
  names : List (String × SymbolId) := []
deriving Repr

instance : Inhabited Scope := ⟨{ kind := .builtins }⟩

structure SymbolTable where
  scopes : Array Scope
  symbols : Array Symbol
deriving Repr

namespace SymbolTable

def root : ScopeId := 0

def empty : SymbolTable := ⟨#[{ kind := .builtins }], #[]⟩

variable (t : SymbolTable)

def get (id : SymbolId) : Symbol :=
  t.symbols.getD id default

def kind (id : SymbolId) : SymbolKind :=
  (t.get id).kind

def scope (s : ScopeId) : Scope :=
  t.scopes.getD s default

/-- A scope inside `parent`. -/
def pushScope (parent : ScopeId) (kind : ScopeKind) : SymbolTable × ScopeId :=
  ({ t with scopes := t.scopes.push { parent, kind, path := (t.scope parent).path } }, t.scopes.size)

/-- The scope of a module, which sees only the names that every program knows. -/
def pushModule (path : List String) : SymbolTable × ScopeId :=
  ({ t with scopes := t.scopes.push { parent := some root, kind := .module, path } }, t.scopes.size)

def member? (s : ScopeId) (name : String) : Option SymbolId :=
  (t.scope s).names.lookup name

/-- Adds a symbol to its scope, or gives the one that has its name already. -/
def declare (symbol : Symbol) : Except SymbolId (SymbolTable × SymbolId) :=
  match t.member? symbol.scope symbol.name with
  | some existing => .error existing
  | none =>
    let id := t.symbols.size
    let add (s : Scope) : Scope := { s with names := (symbol.name, id) :: s.names }
    .ok (⟨t.scopes.modify symbol.scope add, t.symbols.push symbol⟩, id)

def setMembers (id : SymbolId) (members : ScopeId) : SymbolTable :=
  { t with symbols := t.symbols.modify id fun s => { s with members } }

/-- At most `n` scopes from `s` outwards. -/
def chainOf : Nat → ScopeId → List Scope
  | 0, _ => []
  | n + 1, s =>
    match (t.scope s).parent with
    | some parent => t.scope s :: chainOf n parent
    | none => [t.scope s]

/-- The scopes from `s` outwards; there are no more than `s + 1`, as parents are older. -/
def chain (s : ScopeId) : List Scope :=
  t.chainOf (s + 1) s

/-- The nearest declaration of a name. -/
def lookup? (s : ScopeId) (name : String) : Option SymbolId :=
  (t.chain s).findSome? (·.names.lookup name)

/-- All names that can be looked up, inner ones first. -/
def visible (s : ScopeId) : List String :=
  (t.chain s).flatMap (·.names.map (·.1))

/-- Whether a loop encloses the scope, within its function. -/
def inLoop (s : ScopeId) : Bool :=
  ((t.chain s).dropWhile (·.kind = .block)).head?.any (·.kind = .loop)

/-- Whether the symbol is declared at the top of a unit. -/
def isGlobal (id : SymbolId) : Bool :=
  match (t.scope (t.get id).scope).kind with
  | .global | .module => true
  | _ => false

/-- The aliases of the modules around a symbol, and its name. -/
def qualifiedPath (id : SymbolId) : List String :=
  (t.scope (t.get id).scope).path ++ [(t.get id).name]

def qualifiedName (id : SymbolId) (separator : String) : String :=
  String.intercalate separator (t.qualifiedPath id)

/-- Follows members from `id`. -/
def follow? (id : SymbolId) : List String → Option SymbolId
  | [] => some id
  | name :: path => do follow? (← t.member? (← (t.get id).members) name) path

/-- Looks up `a.b.c`. -/
def path? (s : ScopeId) : List String → Option SymbolId
  | [] => none
  | first :: path => do t.follow? (← t.lookup? s first) path

/-- The declaration of a symbol's type, seen from where the symbol is declared. -/
def typeOf? (id : SymbolId) : Option SymbolId := do
  t.path? (t.get id).scope (← (t.get id).type).path

end SymbolTable

end SketchCompiler
