import SketchCompiler.Grammar.Expr

namespace SketchCompiler

/-- A declared device is made from its pin: `mut Led led = 13` means `mut Led led = new Led(13)`. -/
def Expr.asDevice (type : Located TypeName) (e : Expr) : Expr :=
  match type.value.device?, e with
  | some _, .new .. => e
  | some _, e => .new e.loc type [e]
  | none, e => e

/-- Whether an assignment may have `e` as its target. -/
def Expr.isPlace : Expr → Bool
  | name .. | member .. | subscript .. => true
  | _ => false

namespace Grammar

open SketchCompiler.Parser

def qualifier : Parser Qualifier := do
  if ← acceptWord .reactKw then
    let _ ← acceptWord .mutKw
    return .reactive
  else if ← acceptWord .mutKw then return .mutable
  else
    expectWord .constKw
    return .constant

variable (g : Grammar)

def range : Parser Range := do
  let min ← expr g
  expect .ellipsis
  return ⟨min, ← expr g⟩

def varDecl : Parser VarDecl := do
  let qualifier ← qualifier
  let type ← typeName
  let name ← id
  let range ←
    if ← acceptWord .inKw then
      if qualifier.isMutable then some <$> range g else fail (.rangeOnImmutable name.text)
    else pure none
  let initializer ←
    if ← accept .assign then
      let e ← guardable g
      pure (some (e.asDevice type))
    else if qualifier.isMutable then pure none
    else fail (.missingInitializer name.text)
  return ⟨qualifier, type, name, initializer, range, none⟩

/-- Text for the target, behind its directive. -/
def native : Parser String := do
  let t ← next
  match t.value with
  | .directive name => if name ≠ "cpp" then failAt t.loc (.unknownDirective name)
  | found => fail (.expectedItem found)
  let text ← next
  match text.value with
  | .str s => return s
  | found => fail (.unexpectedToken (.str "") found)

/-- An assignment or an expression. -/
def simpleStmt : Parser (Location → Stmt) := do
  let e ← expr g
  if ← accept .assign then
    if e.isPlace then
      let value ← guardable g
      return (.assign · e value)
    else failAt e.loc .invalidAssignTarget
  else
    let e ← guard g e
    return (.expr · e)

def branch : Parser Branch := do
  let test ← condition g
  return ⟨test, ← g.block⟩

/-- The branches read so far, and the last one without a condition. -/
def elseBranch (bs : List Branch × Option (List Stmt)) :
    Parser (Step (List Branch × Option (List Stmt))) := do
  if ← acceptWord .elseKw then
    if ← acceptWord .ifKw then return .again (bs.1 ++ [← branch g], none)
    else return .done (bs.1, some (← g.block))
  else return .done bs

def condStmt : Parser (Location → Stmt) := do
  expectWord .ifKw
  let first ← branch g
  let (branches, otherwise) ← iterate (elseBranch g) ([first], none)
  return (.cond · branches otherwise)

def forStmt : Parser (Location → Stmt) := do
  expectWord .forKw
  expect .openParen
  let init ←
    if ← peekIs .semicolon then pure none
    else some <$> located (do
      match ← peek with
      | some (.keyword .mutKw) | some (.keyword .constKw) =>
        let decl ← varDecl g
        return (.var · decl)
      | _ => simpleStmt g)
  expect .semicolon
  let condition ← if ← peekIs .semicolon then pure none else some <$> expr g
  expect .semicolon
  let update ← if ← peekIs .closeParen then pure none else some <$> located (simpleStmt g)
  expect .closeParen
  let body ← g.block
  return (.forLoop · init condition update body)

def pattern : Parser (Location → Pattern) := do
  match ← peek with
  | some (.id "_") =>
    skip
    return .wildcard
  | _ =>
    let e ← binaryRule g true patternLevel
    return (.value · e)

def arm : Parser Arm := do
  let first ← located (pattern g)
  let patterns ← iterate (fun ps => do
    if ← accept .pipe then return .again (ps ++ [← located (pattern g)])
    else return .done ps) [first]
  expect .fatArrow
  let body ← if ← peekIs .openCurly then g.block else List.singleton <$> located (simpleStmt g)
  return ⟨patterns, body⟩

def chooseStmt : Parser (Location → Stmt) := do
  expectWord .matchKw
  let subject ← condition g
  let arms ← braced (arm g)
  return (.choose · subject arms)

/-- One more case, or the default, of a switch. -/
def switchCase (cs : List Branch × Option (List Stmt)) :
    Parser (Step (List Branch × Option (List Stmt))) := do
  let t ← next
  match t.value with
  | .punct .closeCurly => return .done cs
  | .punct .semicolon => return .again cs
  | .keyword .caseKw => return .again (cs.1 ++ [← branch g], cs.2)
  | .keyword .defaultKw =>
    if cs.2.isSome then fail .duplicateDefault
    else return .again (cs.1, some (← g.block))
  | found => fail (.expectedCase found)

def switchStmt : Parser (Location → Stmt) := do
  expectWord .switchKw
  let subject ← condition g
  expect .openCurly
  let (cases, otherwise) ← iterate (switchCase g) ([], none)
  return (.switch · subject cases otherwise)

def returnStmt : Parser (Location → Stmt) := do
  skip
  match ← peekOnLine with
  | none | some (.punct .closeCurly) | some (.punct .semicolon) => return (.ret · none)
  | some _ =>
    let e ← expr g
    return (.ret · (some e))

/-- A statement that has to be ended. -/
def plainStmt : Parser (Location → Stmt) := do
  match ← peek with
  | some (.keyword .mutKw) | some (.keyword .constKw) | some (.keyword .reactKw) =>
    let decl ← varDecl g
    return (.var · decl)
  | some (.keyword .emitKw) =>
    skip
    let signal ← id
    return (.emit · { name := signal })
  | some (.keyword .returnKw) => returnStmt g
  | some (.keyword .breakKw) =>
    skip
    return .breakLoop
  | some (.keyword .continueKw) =>
    skip
    return .continueLoop
  | some (.directive _) =>
    let text ← native
    return (.native · text)
  | _ => simpleStmt g

def stmtRule : Parser (Location → Stmt) := do
  match ← peek with
  | some (.keyword .ifKw) => condStmt g
  | some (.keyword .whileKw) =>
    skip
    let b ← branch g
    return (.whileLoop · b.test b.body)
  | some (.keyword .forKw) => forStmt g
  | some (.keyword .repeatKw) =>
    skip
    let b ← branch g
    return (.repeatLoop · b.test b.body)
  | some (.keyword .matchKw) => chooseStmt g
  | some (.keyword .switchKw) => switchStmt g
  | some (.keyword .atomicKw) =>
    skip
    let body ← g.block
    return (.atomic · body)
  | _ =>
    let stmt ← plainStmt g
    endOfStatement
    return stmt

def stmt : Parser Stmt :=
  located (stmtRule g)

def blockRule : Parser (List Stmt) := do
  expect .openCurly
  iterate (fun ss => do
    match ← peek with
    | none => fail (.missingToken (.punct .closeCurly))
    | some (.punct .closeCurly) =>
      skip
      return .done ss
    | some (.punct .semicolon) =>
      skip
      return .again ss
    | some _ => return .again (ss ++ [← stmt g])) []

/-- The rules with `n` levels; without a level there is nothing left to read. -/
def ofDepth : Nat → Grammar
  | 0 => ⟨fun _ _ => fail .unexpectedEof, fun _ => fail .unexpectedEof, fail .unexpectedEof⟩
  | n + 1 =>
    let g := ofDepth n
    ⟨binaryRule g, unaryRule g, blockRule g⟩

end Grammar

end SketchCompiler
