import SketchCompiler.Tree.Program

namespace SketchCompiler

mutual

def Expr.vars : Expr → List VarDecl
  | .literal .. | .name .. | .self _ => []
  | .binary _ a _ b => a.vars ++ b.vars
  | .unary _ _ e => e.vars
  | .call _ callee args => callee.vars ++ exprsVars args
  | .member _ object _ _ => object.vars
  | .new _ _ args => exprsVars args
  | .array _ es => exprsVars es
  | .subscript _ a i => a.vars ++ i.vars
  | .convert _ e _ => e.vars
  | .guarded _ e handler => e.vars ++ blockVars handler
  | .struct _ _ fields => fieldsVars fields
  | .clamp _ e min max => e.vars ++ min.vars ++ max.vars

def exprsVars : List Expr → List VarDecl
  | [] => []
  | e :: es => e.vars ++ exprsVars es

def exprVars? : Option Expr → List VarDecl
  | none => []
  | some e => e.vars

def fieldsVars : List FieldValue → List VarDecl
  | [] => []
  | ⟨_, e⟩ :: fs => e.vars ++ fieldsVars fs

def rangeVars? : Option Range → List VarDecl
  | none => []
  | some ⟨min, max⟩ => min.vars ++ max.vars

/-- The declaration itself, and those inside it. -/
def VarDecl.vars : VarDecl → List VarDecl
  | ⟨qualifier, type, name, initializer, range, symbol⟩ =>
    ⟨qualifier, type, name, initializer, range, symbol⟩ :: (rangeVars? range ++ exprVars? initializer)

def Stmt.vars : Stmt → List VarDecl
  | .var _ d => d.vars
  | .assign _ target e => target.vars ++ e.vars
  | .expr _ e => e.vars
  | .cond _ branches otherwise => branchesVars branches ++ blockVars? otherwise
  | .whileLoop _ e body => e.vars ++ blockVars body
  | .forLoop _ init e update body => stmtVars? init ++ exprVars? e ++ stmtVars? update ++ blockVars body
  | .repeatLoop _ e body => e.vars ++ blockVars body
  | .choose _ e arms => e.vars ++ armsVars arms
  | .switch _ e cases otherwise => e.vars ++ branchesVars cases ++ blockVars? otherwise
  | .atomic _ body => blockVars body
  | .ret _ e => exprVars? e
  | .emit .. | .breakLoop _ | .continueLoop _ | .native .. => []

def stmtVars? : Option Stmt → List VarDecl
  | none => []
  | some s => s.vars

def blockVars : List Stmt → List VarDecl
  | [] => []
  | s :: ss => s.vars ++ blockVars ss

def blockVars? : Option (List Stmt) → List VarDecl
  | none => []
  | some body => blockVars body

def branchesVars : List Branch → List VarDecl
  | [] => []
  | ⟨e, body⟩ :: bs => e.vars ++ blockVars body ++ branchesVars bs

def armsVars : List Arm → List VarDecl
  | [] => []
  | ⟨patterns, body⟩ :: as => patternsVars patterns ++ blockVars body ++ armsVars as

def patternsVars : List Pattern → List VarDecl
  | [] => []
  | .wildcard _ :: ps => patternsVars ps
  | .value _ e :: ps => e.vars ++ patternsVars ps

end

def ClassDecl.vars (d : ClassDecl) : List VarDecl :=
  d.fields.flatMap (·.value.vars) ++ (d.constructor.map (blockVars ·.body)).getD [] ++
    d.methods.flatMap (blockVars ·.value.body)

mutual

def Item.vars : Item → List VarDecl
  | .config _ entries => fieldsVars entries
  | .module _ _ _ _ program => program.vars
  | .var _ d => d.vars
  | .aliasDecl _ _ e _ => e.vars
  | .function _ d => blockVars d.body
  | .classDecl _ d => d.vars
  | .event _ _ body => blockVars body
  | .interrupt _ d => d.pin.vars ++ blockVars d.body
  | .task _ d => exprVars? d.period ++ blockVars d.body
  | .load .. | .nativeInclude .. | .enumDecl .. | .structDecl .. | .signal .. | .native .. => []

def itemsVars : List Item → List VarDecl
  | [] => []
  | i :: is => i.vars ++ itemsVars is

def Program.vars : Program → List VarDecl
  | ⟨_, _, items⟩ => itemsVars items

end

end SketchCompiler
