import SketchCompiler.Grammar.Cursor

namespace SketchCompiler

/-- The rules of a level. In a restricted expression, the head of a statement, a brace opens a block. -/
structure Grammar where
  binary : (restricted : Bool) → (level : Nat) → Parser Expr
  unary : (restricted : Bool) → Parser Expr
  block : Parser (List Stmt)

def BinOp.ofToken? : Token → Option BinOp
  | .keyword .orKw | .punct .pipePipe => some .or
  | .keyword .andKw | .punct .ampAmp => some .and
  | .punct .pipe => some .bitOr
  | .punct .caret => some .bitXor
  | .punct .amp => some .bitAnd
  | .punct .equal => some .equal
  | .punct .notEqual => some .notEqual
  | .punct .less => some .less
  | .punct .lessEqual => some .lessEqual
  | .punct .greater => some .greater
  | .punct .greaterEqual => some .greaterEqual
  | .punct .shiftLeft => some .shiftLeft
  | .punct .shiftRight => some .shiftRight
  | .punct .plus => some .add
  | .punct .minus => some .sub
  | .punct .times => some .mul
  | .punct .slash => some .div
  | .punct .percent => some .mod
  | _ => none

/-- Tighter operators have higher levels. -/
def BinOp.level : BinOp → Nat
  | or => 1
  | and => 2
  | bitOr => 3
  | bitXor => 4
  | bitAnd => 5
  | equal | notEqual => 6
  | less | lessEqual | greater | greaterEqual => 7
  | shiftLeft | shiftRight => 8
  | add | sub => 9
  | mul | div | mod => 10

def UnOp.ofToken? : Token → Option UnOp
  | .punct .minus => some .negate
  | .punct .bang | .keyword .notKw => some .not
  | _ => none

namespace Grammar

open SketchCompiler.Parser

def lowestLevel : Nat := 1

/-- Patterns begin above `|`, which separates them. -/
def patternLevel : Nat := 4

def typeName : Parser (Located TypeName) := do
  let first ← id
  let type ← iterate (fun (t : TypeName) => do
    if ← accept .period then return .again (t.member (← id).text)
    else return .done t) { base := first.text }
  let array ← match (← get).rest with
    | ⟨.punct .openSquare, _⟩ :: ⟨.punct .closeSquare, _⟩ :: _ =>
      skip
      skip
      pure true
    | _ => pure false
  return ⟨{ type with array }, first.loc.through (← last)⟩

variable (g : Grammar)

/-- The expressions up to `close`, which is consumed. -/
def arguments (close : Punct) : Parser (List Expr) := do
  let args ← commaSeparated (g.binary false lowestLevel)
  expect close
  return args

def fieldValue (value : Parser Expr) : Parser FieldValue := do
  let name ← id
  expect .colon
  return ⟨name, ← strict value⟩

def primary : Parser Expr := do
  let t ← next
  let e ← match t.value with
    | .number n u => pure (.literal t.loc (.number n u))
    | .str s => pure (.literal t.loc (.str s))
    | .keyword .trueKw => pure (.literal t.loc (.bool true))
    | .keyword .falseKw => pure (.literal t.loc (.bool false))
    | .keyword .selfKw => pure (.self t.loc)
    | .id name => pure (.name t.loc { name := ⟨name, t.loc⟩ })
    | .punct .openParen =>
      let e ← strict (g.binary false lowestLevel)
      expect .closeParen
      pure e
    | .punct .openSquare => pure (.array t.loc (← arguments g .closeSquare))
    | .keyword .newKw =>
      let type ← typeName
      expect .openParen
      pure (.new t.loc type (← arguments g .closeParen))
    | found => weaken (fail (.expectedExpr found))
  return e.relocate (t.loc.through (← last))

/-- What may follow `e` as a part of it. -/
def suffix (restricted : Bool) (e : Expr) : Parser (Step Expr) := do
  let extend (e' : Expr) : Parser (Step Expr) := return .again (e'.relocate (e.loc.through (← last)))
  match ← peek, ← onSameLine with
  | some (.punct .openParen), true =>
    skip
    extend (.call e.loc e (← arguments g .closeParen))
  | some (.punct .openSquare), true =>
    skip
    let index ← strict (g.binary false lowestLevel)
    expect .closeSquare
    extend (.subscript e.loc e index)
  | some (.punct .period), _ =>
    skip
    extend (.member e.loc e (← id) none)
  | some (.keyword .asKw), true =>
    skip
    extend (.convert e.loc e (← typeName))
  | some (.punct .openCurly), true =>
    match restricted, e.typeName? with
    | false, some type =>
      let fields ← braced (fieldValue (g.binary false lowestLevel))
      extend (.struct e.loc ⟨type, e.loc⟩ fields)
    | _, _ => return .done e
  | _, _ => return .done e

def suffixed (restricted : Bool) : Parser Expr := do
  iterate (suffix g restricted) (← primary g)

def unaryRule (restricted : Bool) : Parser Expr := do
  match (← peek).bind UnOp.ofToken? with
  | some op =>
    let start ← next
    let e ← strict (g.unary restricted)
    return .unary (start.loc.through e.loc) op e
  | none => suffixed g restricted

/-- One more operator of at least the given level, with its right operand. -/
def operation (restricted : Bool) (level : Nat) (left : Expr) : Parser (Step Expr) := do
  match (← peekOnLine).bind BinOp.ofToken? with
  | some op =>
    if level ≤ op.level then
      skip
      let right ← strict (g.binary restricted (op.level + 1))
      return .again (.binary (left.loc.through right.loc) left op right)
    else return .done left
  | none => return .done left

def binaryRule (restricted : Bool) (level : Nat) : Parser Expr := do
  iterate (operation g restricted level) (← unaryRule g restricted)

def expr : Parser Expr :=
  strict (binaryRule g false lowestLevel)

/-- The head of a statement. -/
def condition : Parser Expr :=
  strict (binaryRule g true lowestLevel)

/-- A handler behind `e`, on its line. -/
def guard (e : Expr) : Parser Expr := do
  match ← peekOnLine with
  | some (.keyword .catchKw) =>
    skip
    let handler ← g.block
    return .guarded (e.loc.through (← last)) e handler
  | _ => return e

def guardable : Parser Expr := do
  guard g (← expr g)

end Grammar

end SketchCompiler
