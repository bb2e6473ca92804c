import SketchCompiler.Builtin
import SketchCompiler.Diagnostic
import SketchCompiler.Symbol.Table
import SketchCompiler.Tree.Vars

namespace SketchCompiler

inductive InterruptError where
  | loop
  | forbiddenCall (name : String)
  | functionCall (name : String)
deriving DecidableEq, Repr

def InterruptError.message : InterruptError → String
  | loop => "loops are not allowed in interrupts"
  | forbiddenCall name => s!"{name}() is not allowed in interrupts"
  | functionCall name => s!"calls to function '{name}' are not allowed in interrupts"

/-- What reading a program for its interrupts finds. -/
inductive Finding where
  | error (e : Located InterruptError)
  | volatile (id : SymbolId)

/-- The variable whose type has the methods of an object. -/
def Expr.instance? : Expr → Option SymbolId
  | name _ r => r.symbol
  | member _ _ _ s => s
  | subscript _ a _ => a.instance?
  | _ => none

namespace SymbolTable

/-- A method of an object of a class. -/
def forbiddenMethod? (t : SymbolTable) (object : Expr) (method : String) : Option InterruptError := do
  let type ← t.typeOf? (← object.instance?)
  if t.kind type = .classType then some (.functionCall (t.qualifiedName type "." ++ "." ++ method)) else none

def forbiddenMember? (t : SymbolTable) (object : Expr) (method : String) (symbol : Option SymbolId) :
    Option InterruptError :=
  match symbol with
  | some id => if t.kind id = .function then some (.functionCall (t.qualifiedName id ".")) else none
  | none => t.forbiddenMethod? object method

/-- Why an interrupt may not call `callee`. -/
def forbiddenCall? (t : SymbolTable) : Expr → Option InterruptError
  | .name _ ⟨name, some id⟩ =>
    if t.kind id = .builtin then
      if Builtin.blocking.contains name.text then some (.forbiddenCall name.text) else none
    else if t.kind id = .function then some (.functionCall (t.qualifiedName id "."))
    else none
  | .member _ (.name l ⟨name, some owner⟩) method symbol =>
    if t.kind owner = .builtin then some (.forbiddenCall (name.text ++ "." ++ method.text))
    else t.forbiddenMember? (.name l ⟨name, some owner⟩) method.text symbol
  | .member _ object method symbol => t.forbiddenMember? object method.text symbol
  | _ => none

/-- A use of a variable at the top of a unit. -/
def sharedUse (t : SymbolTable) (symbol : Option SymbolId) : List Finding :=
  match symbol with
  | some id => if t.kind id = .var && t.isGlobal id then [.volatile id] else []
  | none => []

def callFindings (t : SymbolTable) (callee : Expr) : List Finding :=
  match t.forbiddenCall? callee with
  | some e => [.error ⟨e, callee.loc⟩]
  | none => []

end SymbolTable

section

variable (t : SymbolTable)

mutual

/-- What an expression in the body of an interrupt does. -/
def Expr.findings : Expr → List Finding
  | .literal .. | .self _ => []
  | .name _ r => t.sharedUse r.symbol
  | .binary _ a _ b => a.findings ++ b.findings
  | .unary _ _ e => e.findings
  | .call _ callee args => t.callFindings callee ++ callee.findings ++ exprsFindings args
  | .member _ object _ symbol => t.sharedUse symbol ++ object.findings
  | .new _ _ args => exprsFindings args
  | .array _ es => exprsFindings es
  | .subscript _ a i => a.findings ++ i.findings
  | .convert _ e _ => e.findings
  | .guarded _ e handler => e.findings ++ blockFindings handler
  | .struct _ _ fields => fieldsFindings fields
  | .clamp _ e min max => e.findings ++ min.findings ++ max.findings

def exprsFindings : List Expr → List Finding
  | [] => []
  | e :: es => e.findings ++ exprsFindings es

def exprFindings? : Option Expr → List Finding
  | none => []
  | some e => e.findings

def fieldsFindings : List FieldValue → List Finding
  | [] => []
  | ⟨_, e⟩ :: fs => e.findings ++ fieldsFindings fs

def rangeFindings? : Option Range → List Finding
  | none => []
  | some ⟨min, max⟩ => min.findings ++ max.findings

def VarDecl.findings : VarDecl → List Finding
  | ⟨_, _, _, initializer, range, _⟩ => rangeFindings? range ++ exprFindings? initializer

def Stmt.findings : Stmt → List Finding
  | .var _ d => d.findings
  | .assign _ target e => target.findings ++ e.findings
  | .expr _ e => e.findings
  | .cond _ branches otherwise => branchesFindings branches ++ blockFindings? otherwise
  | .whileLoop l e body => .error ⟨.loop, l⟩ :: (e.findings ++ blockFindings body)
  | .forLoop l init e update body =>
    .error ⟨.loop, l⟩ ::
      (stmtFindings? init ++ exprFindings? e ++ stmtFindings? update ++ blockFindings body)
  | .repeatLoop l e body => .error ⟨.loop, l⟩ :: (e.findings ++ blockFindings body)
  | .choose _ e arms => e.findings ++ armsFindings arms
  | .switch _ e cases otherwise => e.findings ++ branchesFindings cases ++ blockFindings? otherwise
  | .atomic _ body => blockFindings body
  | .ret _ e => exprFindings? e
  | .emit .. | .breakLoop _ | .continueLoop _ | .native .. => []

def stmtFindings? : Option Stmt → List Finding
  | none => []
  | some s => s.findings

def blockFindings : List Stmt → List Finding
  | [] => []
  | s :: ss => s.findings ++ blockFindings ss

def blockFindings? : Option (List Stmt) → List Finding
  | none => []
  | some body => blockFindings body

def branchesFindings : List Branch → List Finding
  | [] => []
  | ⟨e, body⟩ :: bs => e.findings ++ blockFindings body ++ branchesFindings bs

def armsFindings : List Arm → List Finding
  | [] => []
  | ⟨patterns, body⟩ :: as => patternsFindings patterns ++ blockFindings body ++ armsFindings as

def patternsFindings : List Pattern → List Finding
  | [] => []
  | .wildcard _ :: ps => patternsFindings ps
  | .value _ e :: ps => e.findings ++ patternsFindings ps

end

end

/-- The reactive variables among declarations. -/
def reactiveFindings (vars : List VarDecl) : List Finding :=
  vars.filterMap fun d => if d.qualifier = .reactive then d.symbol.map .volatile else none

mutual

/-- The pin of an interrupt is evaluated outside its body. -/
def Item.findings (t : SymbolTable) : Item → List Finding
  | .interrupt _ d => blockFindings t d.body
  | .module _ _ _ _ program => program.findings t
  | item => reactiveFindings item.vars

def itemsFindings (t : SymbolTable) : List Item → List Finding
  | [] => []
  | i :: is => i.findings t ++ itemsFindings t is

def Program.findings (t : SymbolTable) : Program → List Finding
  | ⟨_, _, items⟩ => itemsFindings t items

end

/-- Volatile variables, each once, in order of their numbers. -/
structure VolatileSet where
  ids : List SymbolId := []
deriving DecidableEq, Repr

namespace VolatileSet

def contains (s : VolatileSet) (id : SymbolId) : Bool :=
  s.ids.contains id

/-- Puts an element at its place in an ascending list, unless it is there. -/
def insertId (id : SymbolId) : List SymbolId → List SymbolId
  | [] => [id]
  | x :: xs => if id < x then id :: x :: xs else if id = x then x :: xs else x :: insertId id xs

def insert (s : VolatileSet) (id : SymbolId) : VolatileSet :=
  ⟨insertId id s.ids⟩

def ofFindings (fs : List Finding) : VolatileSet :=
  fs.foldl (fun s f => match f with
    | .volatile id => s.insert id
    | .error _ => s) {}

/-- Qualified names, each once, in order of their characters. -/
def names (s : VolatileSet) (t : SymbolTable) : List String :=
  ((s.ids.map (t.qualifiedName · ".")).mergeSort fun a b => decide (a ≤ b)).eraseReps

end VolatileSet

/-- The volatile variables, or all that interrupts must not do. -/
def Program.checkInterrupts (p : Program) (t : SymbolTable) :
    Except (List (Located InterruptError)) VolatileSet :=
  let findings := p.findings t
  match findings.filterMap fun | .error e => some e | .volatile _ => none with
  | [] => .ok (.ofFindings findings)
  | errors => .error errors

end SketchCompiler
