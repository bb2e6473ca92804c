import SketchCompiler.Diagnostic
import SketchCompiler.Token
import SketchCompiler.Tree.Program

namespace SketchCompiler

inductive ParseError where
  | unexpectedToken (expected found : Token)
  | missingToken (expected : Token)
  | expectedId (found : Token)
  | expectedExpr (found : Token)
  | expectedItem (found : Token)
  | expectedMember (found : Token)
  | expectedCase (found : Token)
  | expectedPath (found : Token)
  | expectedTrigger (found : Token)
  | expectedSchedule (found : Token)
  | expectedEndOfStatement (found : Token)
  | expectedSeparator (found : Token)
  | rangeOnImmutable (name : String)
  | missingInitializer (name : String)
  | invalidAssignTarget
  | unknownDirective (name : String)
  | duplicateMainDirective
  | duplicateConstructor (name : String)
  | duplicateDefault
  | unexpectedEof

namespace ParseError

def message : ParseError → String
  | unexpectedToken expected found => s!"Expected {expected.text}, found {found.text} instead"
  | missingToken expected => s!"Expected {expected.text}, none was found instead"
  | expectedId found => s!"Expected identifier, found {found.text}"
  | expectedExpr found => s!"Expected an expression, found {found.text}"
  | expectedItem found => s!"Expected a declaration, found {found.text}"
  | expectedMember found => s!"Expected a field, constructor or method, found {found.text}"
  | expectedCase found => s!"Expected `case` or `default`, found {found.text}"
  | expectedPath found => s!"Expected a module path after `load`, found {found.text}"
  | expectedTrigger found =>
    s!"Expected an interrupt mode (rising, falling, change, low, high), found {found.text}"
  | expectedSchedule found => s!"Expected `every` or `background`, found {found.text}"
  | expectedEndOfStatement found => s!"Expected end of statement, found {found.text}"
  | expectedSeparator found => s!"Expected `,` or a new line, found {found.text}"
  | rangeOnImmutable name => s!"Range constraints are only allowed on `mut` declarations ('{name}')"
  | missingInitializer name => s!"Constant '{name}' must be initialized"
  | invalidAssignTarget => "Invalid assignment target"
  | unknownDirective name => s!"Unknown directive `@{name}`"
  | duplicateMainDirective => "Duplicate `@main` directive"
  | duplicateConstructor name => s!"Class '{name}' has more than one constructor"
  | duplicateDefault => "Switch statement has more than one `default` case"
  | unexpectedEof => "Abrupt end of program"

end ParseError

/-- A weak failure says that a rule does not begin here, which an optional list may ignore. -/
structure Failure where
  error : Located ParseError
  weak : Bool := false

/-- The tokens ahead, and the place of the last one consumed. -/
structure Cursor where
  rest : List (Located Token)
  last : Location

abbrev Parser := StateT Cursor (Except Failure)

namespace Parser

variable {α β : Type}

def failAt (loc : Location) (e : ParseError) : Parser α :=
  fun _ => .error { error := ⟨e, loc⟩ }

def fail (e : ParseError) : Parser α :=
  fun s => .error { error := ⟨e, s.last⟩ }

/-- Turns every failure into a strict one. -/
def strict (p : Parser α) : Parser α :=
  fun s => match p s with
  | .error f => .error { f with weak := false }
  | r => r

/-- Turns every failure into a weak one. -/
def weaken (p : Parser α) : Parser α :=
  fun s => match p s with
  | .error f => .error { f with weak := true }
  | r => r

def last : Parser Location :=
  return (← get).last

def peek : Parser (Option Token) :=
  return (← get).rest.head?.map (·.value)

def next : Parser (Located Token) :=
  fun s => match s.rest with
  | [] => .error { error := ⟨.unexpectedEof, s.last⟩ }
  | t :: ts => .ok (t, ⟨ts, t.loc⟩)

def skip : Parser Unit := do
  let _ ← next

/-- Consumes a token and complains about it. -/
def refuse (e : Token → ParseError) : Parser α := do
  let t ← next
  fail (e t.value)

/-- Whether the next token stands on the line of the last one. -/
def onSameLine : Parser Bool := do
  let s ← get
  return s.rest.head?.any fun t => t.loc.line = s.last.stop.line

/-- The next token, if it stands on the line of the last one. -/
def peekOnLine : Parser (Option Token) := do
  if ← onSameLine then peek else return none

def peekIs (mark : Punct) : Parser Bool :=
  return (← peek).any (·.isPunct mark)

/-- Consumes the next token if it is `mark`. -/
def accept (mark : Punct) : Parser Bool := do
  if ← peekIs mark then
    skip
    return true
  else return false

def acceptWord (word : Keyword) : Parser Bool := do
  if (← peek).any (·.isKeyword word) then
    skip
    return true
  else return false

def expectToken (expected : Token) (isIt : Token → Bool) : Parser Unit :=
  fun s => match s.rest with
  | [] => .error { error := ⟨.missingToken expected, s.last⟩ }
  | t :: ts =>
    if isIt t.value then .ok ((), ⟨ts, t.loc⟩)
    else .error { error := ⟨.unexpectedToken expected t.value, t.loc⟩ }

def expect (mark : Punct) : Parser Unit :=
  expectToken (.punct mark) (·.isPunct mark)

def expectWord (word : Keyword) : Parser Unit :=
  expectToken (.keyword word) (·.isKeyword word)

/-- Gives the rule's result the place from its first to its last token. -/
def located (rule : Parser (Location → α)) : Parser α := do
  match (← get).rest with
  | [] => fail .unexpectedEof
  | t :: _ =>
    let build ← rule
    return build (t.loc.through (← last))

inductive Step (β : Type) where
  | again (value : β)
  | done (value : β)

/-- At most `n` rounds of `step`. -/
def rounds (step : β → Parser (Step β)) : Nat → β → Parser β
  | 0, b => pure b
  | n + 1, b => do
    match ← step b with
    | .again b => rounds step n b
    | .done b => return b

/-- Repeats `step` until it is done. A round that goes on consumes a token, so the tokens ahead bound their number. -/
def iterate (step : β → Parser (Step β)) (b : β) : Parser β := do
  rounds step ((← get).rest.length + 1) b

/-- A list with commas between its elements, empty if no element begins here. -/
def commaSeparated (rule : Parser α) : Parser (List α) :=
  fun s => match rule s with
  | .error f => if f.weak then .ok ([], s) else .error f
  | .ok (a, s) =>
    iterate (fun as => do
      if ← accept .comma then return .again (as ++ [← strict rule])
      else return .done as) [a] s

/-- Elements between braces, each ended by a comma or a line break. -/
def braced (rule : Parser α) : Parser (List α) := do
  expect .openCurly
  iterate (fun as => do
    match ← peek with
    | none => fail (.missingToken (.punct .closeCurly))
    | some (.punct .closeCurly) =>
      skip
      return .done as
    | some _ =>
      let a ← strict rule
      unless ← accept .comma do
        match ← peekOnLine with
        | none | some (.punct .closeCurly) => pure ()
        | some _ => refuse .expectedSeparator
      return .again (as ++ [a])) []

def id : Parser Name := do
  let t ← next
  match t.value with
  | .id name => return ⟨name, t.loc⟩
  | found => fail (.expectedId found)

/-- A statement ends at a semicolon, at the end of its line or before a closing brace. -/
def endOfStatement : Parser Unit := do
  match ← peek with
  | none | some (.punct .closeCurly) => return
  | some (.punct .semicolon) => skip
  | some _ => if ← onSameLine then refuse .expectedEndOfStatement

end Parser

end SketchCompiler
