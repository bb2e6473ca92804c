import SketchCompiler.Tree.Expr

namespace SketchCompiler

structure Param where
  type : Located TypeName
  name : Name
  symbol : Option SymbolId := none

structure FunctionDecl where
  name : Name
  params : List Param
  returnType : Option (Located TypeName)
  body : List Stmt
  symbol : Option SymbolId := none

structure Constructor where
  loc : Location
  params : List Param
  body : List Stmt

structure ClassDecl where
  name : Name
  fields : List (Located VarDecl)
  constructor : Option Constructor
  methods : List (Located FunctionDecl)
  symbol : Option SymbolId := none

structure EnumDecl where
  name : Name
  variants : List Name
  symbol : Option SymbolId := none

structure StructField where
  type : Located TypeName
  name : Name

structure StructDecl where
  name : Name
  fields : List StructField
  symbol : Option SymbolId := none

inductive Event where
  | start
  | loop
  | signal (ref : Reference)

/-- What triggers an interrupt on its pin. -/
inductive Trigger where
  | rising | falling | change | low | high
deriving DecidableEq, Repr

/-- The trigger's constant in the target language. -/
def Trigger.text : Trigger → String
  | rising => "RISING"
  | falling => "FALLING"
  | change => "CHANGE"
  | low => "LOW"
  | high => "HIGH"

structure InterruptDecl where
  name : Option Name
  pin : Expr
  trigger : Trigger
  body : List Stmt

structure TaskDecl where
  name : Name
  /-- The period in milliseconds; a task without one runs in every round. -/
  period : Option Expr
  body : List Stmt
  symbol : Option SymbolId := none

mutual

inductive Item where
  | config (loc : Location) (entries : List FieldValue)
  | load (loc : Location) (path : Located String) (aliasName : Option Name)
  | module (loc : Location) (aliasName : Name) (path : String) (symbol : Option SymbolId) (program : Program)
  | nativeInclude (loc : Location) (path : String)
  | var (loc : Location) (decl : VarDecl)
  | aliasDecl (loc : Location) (name : Name) (value : Expr) (symbol : Option SymbolId)
  | function (loc : Location) (decl : FunctionDecl)
  | classDecl (loc : Location) (decl : ClassDecl)
  | enumDecl (loc : Location) (decl : EnumDecl)
  | structDecl (loc : Location) (decl : StructDecl)
  | signal (loc : Location) (name : Name) (symbol : Option SymbolId)
  | event (loc : Location) (kind : Event) (body : List Stmt)
  | interrupt (loc : Location) (decl : InterruptDecl)
  | task (loc : Location) (decl : TaskDecl)
  | native (loc : Location) (text : String)

/-- A unit: `mainMark` is the place of its `@main`. -/
structure Program where
  name : String
  mainMark : Option Location
  items : List Item

end

def Item.loc : Item → Location
  | config l _ | load l _ _ | module l _ _ _ _ | nativeInclude l _ | var l _ | aliasDecl l _ _ _ | function l _
  | classDecl l _ | enumDecl l _ | structDecl l _ | signal l _ _ | event l _ _ | interrupt l _ | task l _
  | native l _ => l

end SketchCompiler
