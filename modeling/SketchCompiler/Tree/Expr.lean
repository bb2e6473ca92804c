import SketchCompiler.Hardware.Device
import SketchCompiler.PhysicalUnit
import SketchCompiler.Text.Source

namespace SketchCompiler

/-- The identity of a declaration: two declarations of one name in different scopes differ. -/
abbrev SymbolId := Nat

structure Name where
  text : String
  loc : Location
deriving Repr, Inhabited

/-- A use of a name. -/
structure Reference where
  name : Name
  symbol : Option SymbolId := none
deriving Repr

/-- A type, possibly of a module, as in `lib.Point`. -/
structure TypeName where
  qualifiers : List String := []
  base : String
  array : Bool := false
deriving DecidableEq, Repr

namespace TypeName

def path (t : TypeName) : List String :=
  t.qualifiers ++ [t.base]

def isQualified (t : TypeName) : Bool :=
  !t.qualifiers.isEmpty

def text (t : TypeName) : String :=
  String.intercalate "." t.path ++ if t.array then "[]" else ""

/-- The type of `t.name`. -/
def member (t : TypeName) (name : String) : TypeName :=
  ⟨t.path, name, t.array⟩

/-- The device type that stands alone, not as an array. -/
def device? (t : TypeName) : Option Device :=
  if t.isQualified || t.array then none else Device.ofName? t.base

end TypeName

inductive Literal where
  | number (value : Number) (unit : Option PhysicalUnit)
  | str (value : String)
  | bool (value : Bool)

inductive BinOp where
  | or | and | bitOr | bitXor | bitAnd | equal | notEqual | less | lessEqual | greater | greaterEqual | shiftLeft
  | shiftRight | add | sub | mul | div | mod
deriving DecidableEq, Repr

/-- The operator of the target language. -/
def BinOp.text : BinOp → String
  | or => "||"
  | and => "&&"
  | bitOr => "|"
  | bitXor => "^"
  | bitAnd => "&"
  | equal => "=="
  | notEqual => "!="
  | less => "<"
  | lessEqual => "<="
  | greater => ">"
  | greaterEqual => ">="
  | shiftLeft => "<<"
  | shiftRight => ">>"
  | add => "+"
  | sub => "-"
  | mul => "*"
  | div => "/"
  | mod => "%"

inductive UnOp where
  | negate | not
deriving DecidableEq, Repr

def UnOp.text : UnOp → String
  | negate => "-"
  | not => "!"

/-- A reactive variable is mutable, and always volatile. -/
inductive Qualifier where
  | constant | mutable | reactive
deriving DecidableEq, Repr

def Qualifier.isMutable : Qualifier → Bool
  | constant => false
  | mutable | reactive => true

mutual

inductive Expr where
  | literal (loc : Location) (value : Literal)
  | name (loc : Location) (ref : Reference)
  | self (loc : Location)
  | binary (loc : Location) (left : Expr) (op : BinOp) (right : Expr)
  | unary (loc : Location) (op : UnOp) (operand : Expr)
  | call (loc : Location) (callee : Expr) (args : List Expr)
  | member (loc : Location) (object : Expr) (name : Name) (symbol : Option SymbolId)
  | new (loc : Location) (type : Located TypeName) (args : List Expr)
  | array (loc : Location) (elements : List Expr)
  | subscript (loc : Location) (array index : Expr)
  | convert (loc : Location) (value : Expr) (target : Located TypeName)
  | guarded (loc : Location) (value : Expr) (handler : List Stmt)
  | struct (loc : Location) (type : Located TypeName) (fields : List FieldValue)
  | clamp (loc : Location) (value min max : Expr)

structure FieldValue where
  name : Name
  value : Expr

structure Range where
  min : Expr
  max : Expr

structure VarDecl where
  qualifier : Qualifier
  type : Located TypeName
  name : Name
  initializer : Option Expr
  range : Option Range
  symbol : Option SymbolId

inductive Stmt where
  | var (loc : Location) (decl : VarDecl)
  | assign (loc : Location) (target value : Expr)
  | expr (loc : Location) (value : Expr)
  | cond (loc : Location) (branches : List Branch) (otherwise : Option (List Stmt))
  | whileLoop (loc : Location) (condition : Expr) (body : List Stmt)
  | forLoop (loc : Location) (init : Option Stmt) (condition : Option Expr) (update : Option Stmt) (body : List Stmt)
  | repeatLoop (loc : Location) (count : Expr) (body : List Stmt)
  | choose (loc : Location) (subject : Expr) (arms : List Arm)
  | switch (loc : Location) (subject : Expr) (cases : List Branch) (otherwise : Option (List Stmt))
  | atomic (loc : Location) (body : List Stmt)
  | emit (loc : Location) (signal : Reference)
  | ret (loc : Location) (value : Option Expr)
  | breakLoop (loc : Location)
  | continueLoop (loc : Location)
  | native (loc : Location) (text : String)

/-- A condition, or the value of a case, and what it leads to. -/
structure Branch where
  test : Expr
  body : List Stmt

structure Arm where
  patterns : List Pattern
  body : List Stmt

inductive Pattern where
  | wildcard (loc : Location)
  | value (loc : Location) (value : Expr)

end

namespace Expr

def loc : Expr → Location
  | literal l _ | name l _ | self l | binary l _ _ _ | unary l _ _ | call l _ _ | member l _ _ _ | new l _ _
  | array l _ | subscript l _ _ | convert l _ _ | guarded l _ _ | struct l _ _ | clamp l _ _ _ => l

/-- The same expression at another place. -/
def relocate (l : Location) : Expr → Expr
  | literal _ v => literal l v
  | name _ r => name l r
  | self _ => self l
  | binary _ a op b => binary l a op b
  | unary _ op e => unary l op e
  | call _ c as => call l c as
  | member _ o n s => member l o n s
  | new _ t as => new l t as
  | array _ es => array l es
  | subscript _ a i => subscript l a i
  | convert _ v t => convert l v t
  | guarded _ v h => guarded l v h
  | struct _ t fs => struct l t fs
  | clamp _ v a b => clamp l v a b

/-- The declaration that a name or a member stands for. -/
def symbol? : Expr → Option SymbolId
  | name _ r => r.symbol
  | member _ _ _ s => s
  | _ => none

/-- The type that a name or a chain of members spells. -/
def typeName? : Expr → Option TypeName
  | name _ r => some { base := r.name.text }
  | member _ o n _ => o.typeName?.map (·.member n.text)
  | _ => none

end Expr

def Stmt.loc : Stmt → Location
  | var l _ | assign l _ _ | expr l _ | cond l _ _ | whileLoop l _ _ | forLoop l _ _ _ _ | repeatLoop l _ _
  | choose l _ _ | switch l _ _ _ | atomic l _ | emit l _ | ret l _ | breakLoop l | continueLoop l | native l _ => l

def Pattern.isWildcard : Pattern → Bool
  | wildcard _ => true
  | value _ _ => false

/-- An arm with a wildcard among its patterns is taken last. -/
def Arm.isWildcard (a : Arm) : Bool :=
  a.patterns.any (·.isWildcard)

end SketchCompiler
