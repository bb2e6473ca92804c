import SketchCompiler.Hardware.Plan
import SketchCompiler.Interrupts

namespace SketchCompiler

/-- Comments in the target code: one on top, and one before each declaration. -/
structure EmitFlags where
  header : Bool := true
  lineComments : Bool := false
deriving DecidableEq, Repr

/-- All that is known about a program when its code is written. -/
structure Scene where
  table : SymbolTable
  volatile : VolatileSet
  plan : HardwarePlan
  config : BoardConfig
  flags : EmitFlags := {}

def commaList (codes : List String) : String :=
  String.intercalate ", " codes

def TypeName.code (t : TypeName) : String :=
  if t.device?.isSome then Device.pinType
  else if !t.isQualified && t.base = "string" then "String"
  else String.intercalate "::" t.path

/-- The suffix of a name that is an array. -/
def TypeName.arrayMark (t : TypeName) : String :=
  if t.array then "[]" else ""

def escapeTargetChar (c : Char) : List Char :=
  match c with
  | '"' => ['\\', '"']
  | '\\' => ['\\', '\\']
  | '\n' => ['\\', 'n']
  | '\r' => ['\\', 'r']
  | '\t' => ['\\', 't']
  | '\x00' => ['\\', '0']
  | c => [c]

def Literal.code : Literal → String
  | number n _ => n.text
  | bool b => if b then "true" else "false"
  | str s => String.ofList ('"' :: s.toList.flatMap escapeTargetChar ++ ['"'])

/-- Puts a binary operation in parentheses. -/
def Expr.wrap (e : Expr) (code : String) : String :=
  match e with
  | binary .. => s!"({code})"
  | _ => code

namespace Scene

def reference (k : Scene) (r : Reference) : String :=
  match r.symbol with
  | some id =>
    if k.table.kind id ≠ .builtin && k.table.isGlobal id then k.table.qualifiedName id "::" else r.name.text
  | none => r.name.text

/-- The method of the instance that an object stands for. -/
def deviceMethod? (k : Scene) (object : Expr) (method : String) : Option (Instance × Method) := do
  let (_, i) ← k.plan.instanceOf? object
  let (m, _) ← i.device.method? method
  return (i, m)

/-- The function of a call, whose code by itself is `code`. -/
def callee (k : Scene) (e : Expr) (code : String) : String :=
  match e with
  | .name _ ⟨name, some id⟩ => if k.table.kind id = .builtin then Builtin.target name.text else code
  | e => e.wrap code

/-- A member of an object, whose code by itself is `code`. -/
def member (k : Scene) (object : Expr) (code member : String) (symbol : Option SymbolId) : String :=
  match object with
  | .self _ => "this->" ++ member
  | object =>
    match object.symbol?.map k.table.kind, symbol with
    | some .moduleAlias, some id => k.table.qualifiedName id "::"
    | some .enumType, _ => code ++ "::" ++ member
    | _, _ => object.wrap code ++ "." ++ member

end Scene

mutual

def Expr.code (k : Scene) : Expr → String
  | .literal _ v => v.code
  | .name _ r => k.reference r
  | .self _ => "(*this)"
  | .binary _ a op b =>
    let left := a.wrap (a.code k)
    let right := b.wrap (b.code k)
    s!"{left} {op.text} {right}"
  | .unary _ op e => op.text ++ e.wrap (e.code k)
  | .call _ (.member l object name symbol) args =>
    match k.deviceMethod? object name.text with
    | some (i, m) => k.plan.call i (object.code k) m (exprCodes k args)
    | none =>
      let function := k.member object (object.code k) name.text symbol
      k.callee (.member l object name symbol) function ++ s!"({commaList (exprCodes k args)})"
  | .call _ callee args => k.callee callee (callee.code k) ++ s!"({commaList (exprCodes k args)})"
  | .member _ object name symbol => k.member object (object.code k) name.text symbol
  | .new _ type args => type.value.code ++ s!"({commaList (exprCodes k args)})"
  | .array _ es => s!"\x7b{commaList (exprCodes k es)}\x7d"
  | .subscript _ a i => a.wrap (a.code k) ++ s!"[{i.code k}]"
  | .convert _ e type =>
    if type.value.code = "String" then s!"String({e.code k})" else s!"({type.value.code})({e.code k})"
  | .guarded _ e _ => e.code k
  | .struct _ type fields => type.value.code ++ s!"\x7b{commaList (fieldCodes k fields)}\x7d"
  | .clamp _ e min max => s!"constrain({e.code k}, {min.code k}, {max.code k})"

def exprCodes (k : Scene) : List Expr → List String
  | [] => []
  | e :: es => e.code k :: exprCodes k es

def fieldCodes (k : Scene) : List FieldValue → List String
  | [] => []
  | ⟨name, e⟩ :: fs => s!".{name.text} = {e.code k}" :: fieldCodes k fs

end

/-- The code of an operand. -/
def Expr.operand (k : Scene) (e : Expr) : String :=
  e.wrap (e.code k)

/-- The handler of a value, also of one that is clamped. -/
def Expr.handler? : Expr → Option (List Stmt)
  | guarded _ _ handler => some handler
  | clamp _ (guarded _ _ handler) _ _ => some handler
  | _ => none

end SketchCompiler
