import SketchCompiler.Builtin
import SketchCompiler.Suggestion
import SketchCompiler.Symbol.Table
import SketchCompiler.Tree.Program

namespace SketchCompiler

inductive NameError where
  | undefined (name : String) (suggestion : Suggestion)
  | selfReference (name : String)
  | redeclaration (name : String)
  | constantAssignment (name : String)
  | unknownType (type : TypeName)
  | unknownMember (owner member : String)
  | unknownField (struct : TypeName) (field : String)
  | notAStruct (type : TypeName)
  | notASignal (name : String)
  | selfOutsideClass
  | outsideLoop (word : String)

namespace NameError

def message : NameError → String
  | undefined name suggestion => s!"Undefined variable '{name}'{suggestion.text}"
  | selfReference name => s!"Variable '{name}' cannot be used in its own initializer"
  | redeclaration name => s!"'{name}' is already declared in this scope"
  | constantAssignment name => s!"Cannot assign to constant '{name}'"
  | unknownType type => s!"Unknown type '{type.text}'"
  | unknownMember owner member => s!"'{owner}' has no member '{member}'"
  | unknownField struct field => s!"Struct '{struct.text}' has no field '{field}'"
  | notAStruct type => s!"'{type.text}' is not a struct"
  | notASignal name => s!"'{name}' is not a signal"
  | selfOutsideClass => "`self` can only be used inside a class"
  | outsideLoop word => s!"`{word}` outside of a loop"

end NameError

structure Resolution where
  table : SymbolTable
  errors : Array (Located NameError) := #[]

abbrev Resolve := StateM Resolution

/-- Where a name is read: its scope, the class around it, and the variable whose initializer it belongs to. -/
structure Site where
  scope : ScopeId
  owner : Option SymbolId := none
  declaring : Option String := none

namespace Resolve

def table : Resolve SymbolTable :=
  return (← get).table

def report (e : NameError) (loc : Location) : Resolve Unit :=
  modify fun r => { r with errors := r.errors.push ⟨e, loc⟩ }

def declareIn (scope : ScopeId) (name : Name) (kind : SymbolKind) (type : Option TypeName) :
    Resolve (Option SymbolId) := do
  match (← table).declare { name := name.text, kind, type, scope } with
  | .ok (t, id) =>
    modify fun r => { r with table := t }
    return some id
  | .error _ =>
    report (.redeclaration name.text) name.loc
    return none

/-- A new scope inside that of the site. -/
def enter (c : Site) (kind : ScopeKind) : Resolve Site := do
  let (t, scope) := (← table).pushScope c.scope kind
  modify fun r => { r with table := t }
  return { c with scope }

def setMembers (id : Option SymbolId) (members : ScopeId) : Resolve Unit := do
  match id with
  | some id => modify fun r => { r with table := r.table.setMembers id members }
  | none => return

def reference (c : Site) (r : Reference) : Resolve Reference := do
  if c.declaring = some r.name.text then
    report (.selfReference r.name.text) r.name.loc
    return r
  else
    let t ← table
    match t.lookup? c.scope r.name.text with
    | some id => return { r with symbol := some id }
    | none =>
      report (.undefined r.name.text (.ofCandidates r.name.text (t.visible c.scope))) r.name.loc
      return r

def signal (c : Site) (r : Reference) : Resolve Reference := do
  let r ← reference c r
  if let some id := r.symbol then
    if (← table).kind id ≠ .signal then report (.notASignal r.name.text) r.name.loc
  return r

/-- The declaration whose members are known at an object: `self`, a module or an enumeration. -/
def owner? (t : SymbolTable) (c : Site) : Expr → Option SymbolId
  | .self _ => c.owner
  | e => e.symbol?.filter fun id => t.kind id = .moduleAlias || t.kind id = .enumType

def member (c : Site) (object : Expr) (name : Name) : Resolve (Option SymbolId) := do
  let t ← table
  match owner? t c object with
  | none => return none
  | some owner =>
    match (t.get owner).members with
    | none => return none
    | some members =>
      match t.member? members name.text with
      | some id => return some id
      | none =>
        report (.unknownMember (t.qualifiedName owner ".") name.text) name.loc
        return none

def isKnownType (t : SymbolTable) (scope : ScopeId) (type : TypeName) : Bool :=
  if type.isQualified then (t.path? scope type.path).any fun id => (t.kind id).isType
  else
    Builtin.primitiveTypes.contains type.base || (Device.ofName? type.base).isSome ||
      (t.lookup? scope type.base).any fun id => (t.kind id).isType

def checkType (c : Site) (type : Located TypeName) : Resolve Unit := do
  unless isKnownType (← table) c.scope type.value do
    report (.unknownType type.value) type.loc

def checkFields (members : ScopeId) (type : TypeName) : List FieldValue → Resolve Unit
  | [] => return
  | f :: fs => do
    if ((← table).member? members f.name.text).isNone then
      report (.unknownField type f.name.text) f.name.loc
    checkFields members type fs

def checkStruct (c : Site) (type : Located TypeName) (fields : List FieldValue) : Resolve Unit := do
  let t ← table
  match t.path? c.scope type.value.path with
  | none => report (.unknownType type.value) type.loc
  | some id =>
    if t.kind id ≠ .structType then report (.notAStruct type.value) type.loc
    else
      match (t.get id).members with
      | some members => checkFields members type.value fields
      | none => return

def checkAssignable (target : Expr) : Resolve Unit := do
  match target.symbol? with
  | none => return
  | some id =>
    let t ← table
    unless (t.kind id).isAssignable do
      report (.constantAssignment (t.qualifiedName id ".")) target.loc

def checkInLoop (c : Site) (word : String) (loc : Location) : Resolve Unit := do
  unless (← table).inLoop c.scope do
    report (.outsideLoop word) loc

end Resolve

open Resolve

mutual

def Expr.resolve (c : Site) : Expr → Resolve Expr
  | .literal l v => return .literal l v
  | .name l r => return .name l (← reference c r)
  | .self l => do
    if c.owner.isNone then report .selfOutsideClass l
    return .self l
  | .binary l a op b => return .binary l (← a.resolve c) op (← b.resolve c)
  | .unary l op e => return .unary l op (← e.resolve c)
  | .call l callee args => return .call l (← callee.resolve c) (← resolveExprs c args)
  | .member l object name _ => do
    let object ← object.resolve c
    return .member l object name (← Resolve.member c object name)
  | .new l type args => do
    checkType c type
    return .new l type (← resolveExprs c args)
  | .array l es => return .array l (← resolveExprs c es)
  | .subscript l a i => return .subscript l (← a.resolve c) (← i.resolve c)
  | .convert l e type => do
    let e ← e.resolve c
    checkType c type
    return .convert l e type
  | .guarded l e handler => return .guarded l (← e.resolve c) (← resolveBlock (← enter c .block) handler)
  | .struct l type fields => do
    let fields ← resolveFields c fields
    checkStruct c type fields
    return .struct l type fields
  | .clamp l e min max => return .clamp l (← e.resolve c) (← min.resolve c) (← max.resolve c)

def resolveExprs (c : Site) : List Expr → Resolve (List Expr)
  | [] => return []
  | e :: es => return (← e.resolve c) :: (← resolveExprs c es)

def resolveExpr? (c : Site) : Option Expr → Resolve (Option Expr)
  | none => return none
  | some e => return some (← e.resolve c)

def resolveFields (c : Site) : List FieldValue → Resolve (List FieldValue)
  | [] => return []
  | ⟨name, e⟩ :: fs => return ⟨name, ← e.resolve c⟩ :: (← resolveFields c fs)

def resolveRange? (c : Site) : Option Range → Resolve (Option Range)
  | none => return none
  | some ⟨min, max⟩ => return some ⟨← min.resolve c, ← max.resolve c⟩

/-- A variable is declared behind its initializer, but before the initializer's handler. -/
def VarDecl.resolve (c : Site) : VarDecl → Resolve VarDecl
  | ⟨qualifier, type, name, initializer, range, _⟩ => do
    checkType c type
    let range ← resolveRange? c range
    let inner := { c with declaring := some name.text }
    let kind := if qualifier.isMutable then .var else .constant
    match initializer with
    | some (.guarded l e handler) =>
      let e ← e.resolve inner
      let symbol ← declareIn c.scope name kind (some type.value)
      let handler ← resolveBlock (← enter c .block) handler
      return ⟨qualifier, type, name, some (.guarded l e handler), range, symbol⟩
    | initializer =>
      let initializer ← resolveExpr? inner initializer
      let symbol ← declareIn c.scope name kind (some type.value)
      return ⟨qualifier, type, name, initializer, range, symbol⟩

def Stmt.resolve (c : Site) : Stmt → Resolve Stmt
  | .var l d => return .var l (← d.resolve c)
  | .assign l target e => do
    let target ← target.resolve c
    let e ← e.resolve c
    checkAssignable target
    return .assign l target e
  | .expr l e => return .expr l (← e.resolve c)
  | .cond l branches otherwise => return .cond l (← resolveBranches c branches) (← resolveBlock? c otherwise)
  | .whileLoop l e body => return .whileLoop l (← e.resolve c) (← resolveBlock (← enter c .loop) body)
  | .forLoop l init e update body => do
    let c ← enter c .loop
    let init ← resolveStmt? c init
    let e ← resolveExpr? c e
    let update ← resolveStmt? c update
    return .forLoop l init e update (← resolveBlock (← enter c .block) body)
  | .repeatLoop l e body => return .repeatLoop l (← e.resolve c) (← resolveBlock (← enter c .loop) body)
  | .choose l e arms => return .choose l (← e.resolve c) (← resolveArms c arms)
  | .switch l e cases otherwise =>
    return .switch l (← e.resolve c) (← resolveBranches c cases) (← resolveBlock? c otherwise)
  | .atomic l body => return .atomic l (← resolveBlock (← enter c .block) body)
  | .emit l r => return .emit l (← Resolve.signal c r)
  | .ret l e => return .ret l (← resolveExpr? c e)
  | .breakLoop l => do
    checkInLoop c "break" l
    return .breakLoop l
  | .continueLoop l => do
    checkInLoop c "continue" l
    return .continueLoop l
  | .native l text => return .native l text

def resolveStmt? (c : Site) : Option Stmt → Resolve (Option Stmt)
  | none => return none
  | some s => return some (← s.resolve c)

def resolveBlock (c : Site) : List Stmt → Resolve (List Stmt)
  | [] => return []
  | s :: ss => return (← s.resolve c) :: (← resolveBlock c ss)

def resolveBlock? (c : Site) : Option (List Stmt) → Resolve (Option (List Stmt))
  | none => return none
  | some body => return some (← resolveBlock (← enter c .block) body)

def resolveBranches (c : Site) : List Branch → Resolve (List Branch)
  | [] => return []
  | ⟨e, body⟩ :: bs => do
    let e ← e.resolve c
    let body ← resolveBlock (← enter c .block) body
    return ⟨e, body⟩ :: (← resolveBranches c bs)

def resolveArms (c : Site) : List Arm → Resolve (List Arm)
  | [] => return []
  | ⟨patterns, body⟩ :: as => do
    let patterns ← resolvePatterns c patterns
    let body ← resolveBlock (← enter c .block) body
    return ⟨patterns, body⟩ :: (← resolveArms c as)

def resolvePatterns (c : Site) : List Pattern → Resolve (List Pattern)
  | [] => return []
  | .wildcard l :: ps => return .wildcard l :: (← resolvePatterns c ps)
  | .value l e :: ps => return .value l (← e.resolve c) :: (← resolvePatterns c ps)

end

end SketchCompiler
