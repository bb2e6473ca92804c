import SketchCompiler.Symbol.Resolve

namespace SketchCompiler

open Resolve

def ClassDecl.declare (c : Site) (d : ClassDecl) : Resolve ClassDecl := do
  let symbol ← declareIn c.scope d.name .classType none
  let members := (← enter c .members).scope
  let fields ← d.fields.mapM fun f => do
    let kind := if f.value.qualifier.isMutable then .field else .constant
    return { f with value := { f.value with symbol := ← declareIn members f.value.name kind f.value.type.value } }
  let methods ← d.methods.mapM fun m => do
    let type := m.value.returnType.map (·.value)
    return { m with value := { m.value with symbol := ← declareIn members m.value.name .function type } }
  setMembers symbol members
  return { d with fields, methods, symbol }

/-- A variant is a member of its enumeration, and a name of its own beside it. -/
def EnumDecl.declare (c : Site) (d : EnumDecl) : Resolve EnumDecl := do
  let symbol ← declareIn c.scope d.name .enumType none
  let members := (← enter c .members).scope
  let type : TypeName := { base := d.name.text }
  d.variants.forM fun v => do
    let _ ← declareIn members v .variant type
    let _ ← declareIn c.scope v .variant type
  setMembers symbol members
  return { d with symbol }

def StructDecl.declare (c : Site) (d : StructDecl) : Resolve StructDecl := do
  let symbol ← declareIn c.scope d.name .structType none
  let members := (← enter c .members).scope
  d.fields.forM fun f => do
    let _ ← declareIn members f.name .field f.type.value
  setMembers symbol members
  return { d with symbol }

def Param.resolve (c : Site) (p : Param) : Resolve Param := do
  checkType c p.type
  return { p with symbol := ← declareIn c.scope p.name .param p.type.value }

/-- Parameters and body share a scope. -/
def resolveCallable (c : Site) (kind : ScopeKind) (returnType : Option (Located TypeName)) (params : List Param)
    (body : List Stmt) : Resolve (List Param × List Stmt) := do
  if let some type := returnType then checkType c type
  let c ← enter c kind
  let params ← params.mapM (·.resolve c)
  return (params, ← resolveBlock c body)

def FunctionDecl.resolve (c : Site) (kind : ScopeKind) (d : FunctionDecl) : Resolve FunctionDecl := do
  let (params, body) ← resolveCallable c kind d.returnType d.params d.body
  return { d with params, body }

/-- The ranges of fields are left as they are. -/
def resolveField (c : Site) (d : VarDecl) : Resolve VarDecl := do
  checkType c d.type
  return { d with initializer := ← resolveExpr? { c with declaring := some d.name.text } d.initializer }

def ClassDecl.resolve (c : Site) (d : ClassDecl) : Resolve ClassDecl := do
  let fields ← d.fields.mapM fun f => return { f with value := ← resolveField c f.value }
  let inner := { c with owner := d.symbol }
  let constructor ← d.constructor.mapM fun k => do
    let (params, body) ← resolveCallable inner .method none k.params k.body
    return { k with params, body }
  let methods ← d.methods.mapM fun m => return { m with value := ← m.value.resolve inner .method }
  return { d with fields, constructor, methods }

/-- Resolves the bodies of a declaration, and declares variables and aliases. -/
def Item.resolve (c : Site) : Item → Resolve Item
  | .var l d => return .var l (← d.resolve c)
  | .aliasDecl l name e _ => do
    let e ← e.resolve c
    return .aliasDecl l name e (← declareIn c.scope name .constant none)
  | .function l d => return .function l (← d.resolve c .function)
  | .classDecl l d => return .classDecl l (← d.resolve c)
  | .structDecl l d => do
    d.fields.forM fun f => checkType c f.type
    return .structDecl l d
  | .event l kind body => do
    let kind ← match kind with
      | .signal r => Event.signal <$> Resolve.signal c r
      | kind => pure kind
    return .event l kind (← resolveBlock (← enter c .function) body)
  | .interrupt l d => do
    let pin ← d.pin.resolve c
    return .interrupt l { d with pin, body := ← resolveBlock (← enter c .function) d.body }
  | .task l d => do
    let period ← resolveExpr? c d.period
    return .task l { d with period, body := ← resolveBlock (← enter c .function) d.body }
  | item => return item

mutual

/-- Declares what may be used before its text. -/
def Item.declare (c : Site) : Item → Resolve Item
  | .function l d =>
    return .function l { d with symbol := ← declareIn c.scope d.name .function (d.returnType.map (·.value)) }
  | .classDecl l d => return .classDecl l (← d.declare c)
  | .enumDecl l d => return .enumDecl l (← d.declare c)
  | .structDecl l d => return .structDecl l (← d.declare c)
  | .signal l name _ => return .signal l name (← declareIn c.scope name .signal none)
  | .task l d => return .task l { d with symbol := ← declareIn c.scope d.name .task none }
  | .module l aliasName path _ program => do
    let t ← table
    let (t, scope) := t.pushModule ((t.scope c.scope).path ++ [aliasName.text])
    modify fun r => { r with table := t }
    let program ← program.resolveUnit { c with scope }
    let symbol ← declareIn c.scope aliasName .moduleAlias none
    setMembers symbol scope
    return .module l aliasName path symbol program
  | .config l entries => return .config l entries
  | .load l path aliasName => return .load l path aliasName
  | .nativeInclude l path => return .nativeInclude l path
  | .var l d => return .var l d
  | .aliasDecl l name e symbol => return .aliasDecl l name e symbol
  | .event l kind body => return .event l kind body
  | .interrupt l d => return .interrupt l d
  | .native l text => return .native l text

def declareItems (c : Site) : List Item → Resolve (List Item)
  | [] => return []
  | i :: is => return (← i.declare c) :: (← declareItems c is)

def Program.resolveUnit (c : Site) : Program → Resolve Program
  | ⟨name, mainMark, items⟩ => do
    let items ← declareItems c items
    return ⟨name, mainMark, ← items.mapM (·.resolve c)⟩

end

namespace SymbolTable

/-- The table with the names that every program knows, numbered in their order. -/
def ofBuiltins : SymbolTable :=
  Builtin.names.foldl (fun t name =>
    match t.declare { name, scope := root } with
    | .ok (t, _) => t
    | .error _ => t) empty

end SymbolTable

/-- Resolves all names. The program keeps what could be resolved even if there are errors. -/
def Program.resolveNames (p : Program) : Program × Except (List (Located NameError)) SymbolTable :=
  let (t, scope) := SymbolTable.ofBuiltins.pushScope SymbolTable.root .global
  let (p, r) := (p.resolveUnit { scope }).run { table := t }
  (p, if r.errors.isEmpty then .ok r.table else .error r.errors.toList)

end SketchCompiler
