import SketchCompiler.Grammar.Stmt
import SketchCompiler.Token.Lexer

namespace SketchCompiler

namespace Grammar

open SketchCompiler.Parser

def load : Parser (Location → Item) := do
  expectWord .loadKw
  let t ← next
  match t.value with
  | .path path =>
    let aliasName ← if ← acceptWord .asKw then some <$> id else pure none
    return (.load · ⟨path, t.loc⟩ aliasName)
  | found => fail (.expectedPath found)

/-- The list of parameters is empty where no type begins. -/
def param : Parser Param := do
  let type ← weaken typeName
  return { type, name := ← id }

def params : Parser (List Param) := do
  expect .openParen
  let ps ← commaSeparated param
  expect .closeParen
  return ps

variable (g : Grammar)

def function : Parser FunctionDecl := do
  expectWord .fnKw
  let name ← id
  let params ← params
  let returnType ← if ← accept .arrow then some <$> typeName else pure none
  return { name, params, returnType, body := ← g.block }

/-- One more member of the class read so far. -/
def classMember (c : ClassDecl) : Parser (Step ClassDecl) := do
  match ← peek with
  | none => fail (.missingToken (.punct .closeCurly))
  | some (.punct .closeCurly) =>
    skip
    return .done c
  | some (.punct .semicolon) =>
    skip
    return .again c
  | some (.keyword .mutKw) | some (.keyword .constKw) | some (.keyword .reactKw) =>
    let field ← located (do
      let decl ← varDecl g
      return (⟨decl, ·⟩))
    endOfStatement
    return .again { c with fields := c.fields ++ [field] }
  | some (.keyword .constructorKw) =>
    let start ← next
    if c.constructor.isSome then fail (.duplicateConstructor c.name.text)
    else
      let params ← params
      let body ← g.block
      return .again { c with constructor := some ⟨start.loc.through (← last), params, body⟩ }
  | some (.keyword .fnKw) =>
    let method ← located (do
      let decl ← function g
      return (⟨decl, ·⟩))
    return .again { c with methods := c.methods ++ [method] }
  | some _ => refuse .expectedMember

def classDecl (g : Grammar) : Parser (Location → Item) := do
  expectWord .classKw
  let name ← id
  expect .openCurly
  let decl ← iterate (classMember g) { name, fields := [], constructor := none, methods := [] }
  return (.classDecl · decl)

def enumDecl : Parser (Location → Item) := do
  expectWord .enumKw
  let name ← id
  let variants ← braced id
  return (.enumDecl · { name, variants })

def structField : Parser StructField := do
  let type ← typeName
  return ⟨type, ← id⟩

def structDecl : Parser (Location → Item) := do
  expectWord .structKw
  let name ← id
  let fields ← braced structField
  return (.structDecl · { name, fields })

def event (g : Grammar) : Parser (Location → Item) := do
  expectWord .onKw
  let name ← id
  let kind : Event :=
    if name.text = "start" then .start
    else if name.text = "loop" then .loop
    else .signal { name }
  let body ← g.block
  return (.event · kind body)

/-- The level triggers are no keywords. -/
def trigger : Parser Trigger := do
  let t ← next
  match t.value with
  | .keyword .risingKw => return .rising
  | .keyword .fallingKw => return .falling
  | .keyword .changeKw => return .change
  | .id "low" => return .low
  | .id "high" => return .high
  | found => fail (.expectedTrigger found)

def interrupt (g : Grammar) : Parser (Location → Item) := do
  expectWord .interruptKw
  let name ← match ← peek with
    | some (.id _) => some <$> id
    | _ => pure none
  expectWord .onKw
  let pin ← condition g
  let trigger ← trigger
  let body ← g.block
  return (.interrupt · ⟨name, pin, trigger, body⟩)

def task (g : Grammar) : Parser (Location → Item) := do
  expectWord .taskKw
  let name ← id
  let t ← next
  let period ← match t.value with
    | .keyword .everyKw => some <$> condition g
    | .keyword .backgroundKw => pure none
    | found => fail (.expectedSchedule found)
  let body ← g.block
  return (.task · { name, period, body })

def aliasDecl (g : Grammar) : Parser (Location → Item) := do
  skip
  let name ← id
  expect .assign
  let value ← expr g
  return (.aliasDecl · name value none)

/-- A declaration that has to be ended like a statement. -/
def plainItem : Parser (Location → Item) := do
  match ← peek with
  | some (.keyword .loadKw) => load
  | some (.keyword .mutKw) | some (.keyword .constKw) | some (.keyword .reactKw) =>
    let decl ← varDecl g
    return (.var · decl)
  | some (.keyword .aliasKw) => aliasDecl g
  | some (.keyword .signalKw) =>
    skip
    let name ← id
    return (.signal · name none)
  | some (.directive _) =>
    let text ← native
    return (.native · text)
  | _ => refuse .expectedItem

def itemRule : Parser (Location → Item) := do
  match ← peek with
  | some (.keyword .configKw) =>
    skip
    let entries ← braced (fieldValue (expr g))
    return (.config · entries)
  | some (.keyword .fnKw) =>
    let decl ← function g
    return (.function · decl)
  | some (.keyword .classKw) => classDecl g
  | some (.keyword .enumKw) => enumDecl
  | some (.keyword .structKw) => structDecl
  | some (.keyword .onKw) => event g
  | some (.keyword .interruptKw) => interrupt g
  | some (.keyword .taskKw) => task g
  | _ =>
    let item ← plainItem g
    endOfStatement
    return item

def item : Parser Item :=
  located (itemRule g)

def programStep (p : Program) : Parser (Step Program) := do
  match ← peek with
  | none => return .done p
  | some .mainDirective =>
    let t ← next
    if p.mainMark.isSome then fail .duplicateMainDirective
    else return .again { p with mainMark := some t.loc }
  | some (.punct .semicolon) =>
    skip
    return .again p
  | some _ => return .again { p with items := p.items ++ [← item g] }

def program (name : String) : Parser Program :=
  iterate (programStep g) ⟨name, none, []⟩

end Grammar

namespace Program

/-- Reads the tokens of a unit; `start` is where an error stands before the first token. -/
def ofTokens (tokens : List (Located Token)) (name : String) (start : Location) :
    Except (Located ParseError) Program :=
  match Grammar.program (.ofDepth (tokens.length + 1)) name ⟨tokens, start⟩ with
  | .ok (p, _) => .ok p
  | .error f => .error f.error

/-- Reads the text of a unit. -/
def ofText (name text : String) : Except Report Program :=
  let source := SourceText.ofString text name
  match source.tokenize with
  | .error errors => .error (.ofErrors "Lexical error" LexError.message errors)
  | .ok tokens =>
    match ofTokens tokens name source.start with
    | .error e => .error (.ofErrors "Syntax error" ParseError.message [e])
    | .ok p => .ok p

end Program

end SketchCompiler
