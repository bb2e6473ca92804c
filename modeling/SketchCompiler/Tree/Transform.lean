import SketchCompiler.Tree.Program

namespace SketchCompiler

/-- What happens to literals and to stored values: `stored` gets the symbol that a value is stored into, and the value
with its parts transformed. -/
structure Transform where
  literal : Literal → Literal := id
  stored : Option SymbolId → Expr → Expr := fun _ e => e

section

variable (f : Transform)

mutual

def Expr.transform : Expr → Expr
  | .literal l v => .literal l (f.literal v)
  | .name l r => .name l r
  | .self l => .self l
  | .binary l a op b => .binary l a.transform op b.transform
  | .unary l op e => .unary l op e.transform
  | .call l callee args => .call l callee.transform (transformExprs args)
  | .member l object name symbol => .member l object.transform name symbol
  | .new l type args => .new l type (transformExprs args)
  | .array l es => .array l (transformExprs es)
  | .subscript l a i => .subscript l a.transform i.transform
  | .convert l e type => .convert l e.transform type
  | .guarded l e handler => .guarded l e.transform (transformBlock handler)
  | .struct l type fields => .struct l type (transformFields fields)
  | .clamp l e min max => .clamp l e.transform min.transform max.transform

def transformExprs : List Expr → List Expr
  | [] => []
  | e :: es => e.transform :: transformExprs es

def transformExpr? : Option Expr → Option Expr
  | none => none
  | some e => some e.transform

def transformFields : List FieldValue → List FieldValue
  | [] => []
  | ⟨name, e⟩ :: fs => ⟨name, e.transform⟩ :: transformFields fs

def transformRange? : Option Range → Option Range
  | none => none
  | some ⟨min, max⟩ => some ⟨min.transform, max.transform⟩

def VarDecl.transform : VarDecl → VarDecl
  | ⟨qualifier, type, name, initializer, range, symbol⟩ =>
    ⟨qualifier, type, name, (transformExpr? initializer).map (f.stored symbol), transformRange? range, symbol⟩

def Stmt.transform : Stmt → Stmt
  | .var l d => .var l d.transform
  | .assign l target e =>
    let target := target.transform
    .assign l target (f.stored target.symbol? e.transform)
  | .expr l e => .expr l e.transform
  | .cond l branches otherwise => .cond l (transformBranches branches) (transformBlock? otherwise)
  | .whileLoop l e body => .whileLoop l e.transform (transformBlock body)
  | .forLoop l init e update body =>
    .forLoop l (transformStmt? init) (transformExpr? e) (transformStmt? update) (transformBlock body)
  | .repeatLoop l e body => .repeatLoop l e.transform (transformBlock body)
  | .choose l e arms => .choose l e.transform (transformArms arms)
  | .switch l e cases otherwise => .switch l e.transform (transformBranches cases) (transformBlock? otherwise)
  | .atomic l body => .atomic l (transformBlock body)
  | .emit l r => .emit l r
  | .ret l e => .ret l (transformExpr? e)
  | .breakLoop l => .breakLoop l
  | .continueLoop l => .continueLoop l
  | .native l text => .native l text

def transformStmt? : Option Stmt → Option Stmt
  | none => none
  | some s => some s.transform

def transformBlock : List Stmt → List Stmt
  | [] => []
  | s :: ss => s.transform :: transformBlock ss

def transformBlock? : Option (List Stmt) → Option (List Stmt)
  | none => none
  | some body => some (transformBlock body)

def transformBranches : List Branch → List Branch
  | [] => []
  | ⟨e, body⟩ :: bs => ⟨e.transform, transformBlock body⟩ :: transformBranches bs

def transformArms : List Arm → List Arm
  | [] => []
  | ⟨patterns, body⟩ :: as => ⟨transformPatterns patterns, transformBlock body⟩ :: transformArms as

def transformPatterns : List Pattern → List Pattern
  | [] => []
  | .wildcard l :: ps => .wildcard l :: transformPatterns ps
  | .value l e :: ps => .value l e.transform :: transformPatterns ps

end

end

def FunctionDecl.transform (f : Transform) (d : FunctionDecl) : FunctionDecl :=
  { d with body := transformBlock f d.body }

def ClassDecl.transform (f : Transform) (d : ClassDecl) : ClassDecl :=
  { d with
    fields := d.fields.map fun d => { d with value := d.value.transform f }
    constructor := d.constructor.map fun k => { k with body := transformBlock f k.body }
    methods := d.methods.map fun m => { m with value := m.value.transform f } }

mutual

def Item.transform (f : Transform) : Item → Item
  | .config l entries => .config l (transformFields f entries)
  | .load l path aliasName => .load l path aliasName
  | .module l aliasName path symbol program => .module l aliasName path symbol (program.transform f)
  | .nativeInclude l path => .nativeInclude l path
  | .var l d => .var l (d.transform f)
  | .aliasDecl l name e symbol => .aliasDecl l name (e.transform f) symbol
  | .function l d => .function l (d.transform f)
  | .classDecl l d => .classDecl l (d.transform f)
  | .enumDecl l d => .enumDecl l d
  | .structDecl l d => .structDecl l d
  | .signal l name symbol => .signal l name symbol
  | .event l kind body => .event l kind (transformBlock f body)
  | .interrupt l d => .interrupt l { d with pin := d.pin.transform f, body := transformBlock f d.body }
  | .task l d => .task l { d with period := transformExpr? f d.period, body := transformBlock f d.body }
  | .native l text => .native l text

def transformItems (f : Transform) : List Item → List Item
  | [] => []
  | i :: is => i.transform f :: transformItems f is

def Program.transform (f : Transform) : Program → Program
  | ⟨name, mainMark, items⟩ => ⟨name, mainMark, transformItems f items⟩

end

end SketchCompiler
