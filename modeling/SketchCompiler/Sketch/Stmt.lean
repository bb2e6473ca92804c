import SketchCompiler.Sketch.Expr

namespace SketchCompiler

inductive Line where
  | blank
  | code (depth : Nat) (text : String)
deriving DecidableEq, Repr

namespace Line

def render : Line → String
  | blank => "\n"
  | code depth text => String.ofList (List.replicate (4 * depth) ' ') ++ text ++ "\n"

end Line

def renderLines (lines : List Line) : String :=
  String.join (lines.map Line.render)

/-- A declaration without its semicolon. A device is held as its pin. -/
def VarDecl.code (k : Scene) (d : VarDecl) : String :=
  let device := d.symbol.bind k.plan.instance?
  let volatile := if d.symbol.any k.volatile.contains then "volatile " else ""
  let const := if d.qualifier.isMutable then "" else "const "
  let type := match device with
    | some _ => Device.pinType
    | none => d.type.value.code
  let value := match device, d.initializer with
    | some i, _ => " = " ++ i.pin.code k
    | none, some e => " = " ++ e.code k
    | none, none => ""
  s!"{volatile}{const}{type} {d.name.text}{d.type.value.arrayMark}{value}"

/-- A statement in the head of a loop; its handler is left out. -/
def Stmt.inlineCode (k : Scene) : Stmt → String
  | var _ d => d.code k
  | assign _ target e => s!"{target.code k} = {e.code k}"
  | expr _ e => e.code k
  | _ => ""

def inlineCode? (k : Scene) : Option Stmt → String
  | some s => s.inlineCode k
  | none => ""

def Pattern.test? (k : Scene) (subject : String) : Pattern → Option String
  | wildcard _ => none
  | value _ e => some s!"{subject} == {e.operand k}"

namespace Scene

/-- The variable that is set when a signal is emitted. -/
def signalFlag (name : String) : String :=
  "ys_signal_" ++ name

def signalReference (k : Scene) (r : Reference) : String :=
  match r.symbol with
  | some id =>
    let symbol := k.table.get id
    String.intercalate "::" ((k.table.scope symbol.scope).path ++ [signalFlag symbol.name])
  | none => signalFlag r.name.text

end Scene

/-- A new name with the given beginning. -/
def temporary (stem : String) : StateM Nat String :=
  modifyGet fun n => (s!"{stem}_{n}", n + 1)

/-- Whether a subject can be repeated in each test. -/
def Expr.isRepeatable : Expr → Bool
  | name .. | member .. | literal .. => true
  | _ => false

section

variable (k : Scene)

mutual

/-- The lines of a statement at the given depth. -/
def Stmt.lines (depth : Nat) : Stmt → StateM Nat (List Line)
  | .var _ ⟨qualifier, type, name, initializer, range, symbol⟩ => do
    let d : VarDecl := ⟨qualifier, type, name, initializer, range, symbol⟩
    let line := Line.code depth (d.code k ++ ";")
    match symbol.bind k.plan.instance? with
    | some i => return line :: (k.plan.setup i name.text).map (.code depth)
    | none => return line :: (← guardLines? depth name.text initializer)
  | .assign _ target e => do
    let place := target.code k
    let guard ← e.guardLines depth place
    return .code depth s!"{place} = {e.code k};" :: guard
  | .expr _ e =>
    if e.handler?.isSome then e.guardLines depth (e.code k) else return [.code depth (e.code k ++ ";")]
  | .cond _ branches otherwise => do
    let branches ← branchLines depth true branches
    let otherwise ← otherwiseLines depth otherwise
    return branches ++ otherwise ++ [.code depth "\x7d"]
  | .whileLoop _ e body => do
    let body ← blockLines (depth + 1) body
    return .code depth s!"while ({e.code k}) \x7b" :: body ++ [.code depth "\x7d"]
  | .forLoop _ init e update body => do
    let condition := (e.map (Expr.code k)).getD ""
    let body ← blockLines (depth + 1) body
    return .code depth s!"for ({inlineCode? k init}; {condition}; {inlineCode? k update}) \x7b" ::
      body ++ [.code depth "\x7d"]
  | .repeatLoop _ e body => do
    let counter ← temporary "ys_repeat"
    let body ← blockLines (depth + 1) body
    return .code depth s!"for (long {counter} = 0; {counter} < {e.operand k}; {counter}++) \x7b" ::
      body ++ [.code depth "\x7d"]
  | .choose _ e arms => do
    let (subject, store) ←
      if e.isRepeatable then pure (e.code k, [])
      else
        let name ← temporary "ys_match"
        pure (name, [Line.code depth s!"auto {name} = {e.code k};"])
    let tests ← armLines depth subject true arms
    let otherwise ← wildcardLines depth (if tests.isEmpty then "\x7b" else "\x7d else \x7b") arms
    let close := if arms.isEmpty then [] else [Line.code depth "\x7d"]
    return store ++ tests ++ otherwise ++ close
  | .switch _ e cases otherwise => do
    let cases ← caseLines depth cases
    let otherwise ← defaultLines depth otherwise
    return .code depth s!"switch ({e.code k}) \x7b" :: cases ++ otherwise ++ [.code depth "\x7d"]
  | .atomic _ body => do
    let body ← blockLines (depth + 1) body
    return .code depth "noInterrupts();" :: .code depth "\x7b" ::
      body ++ [.code depth "\x7d", .code depth "interrupts();"]
  | .emit _ r => return [.code depth s!"{k.signalReference r} = true;"]
  | .ret _ (some e) => return [.code depth s!"return {e.code k};"]
  | .ret _ none => return [.code depth "return;"]
  | .breakLoop _ => return [.code depth "break;"]
  | .continueLoop _ => return [.code depth "continue;"]
  | .native _ text => return [.code depth text]

/-- The lines of the statements of a block, all at the given depth. -/
def blockLines (depth : Nat) : List Stmt → StateM Nat (List Line)
  | [] => return []
  | s :: ss => return (← s.lines depth) ++ (← blockLines depth ss)

/-- Runs the handler of `e` if the value, which the target names `value`, is false. -/
def Expr.guardLines (depth : Nat) (value : String) : Expr → StateM Nat (List Line)
  | .guarded _ _ handler => do
    let body ← blockLines (depth + 1) handler
    return .code depth s!"if (!({value})) \x7b" :: body ++ [.code depth "\x7d"]
  | .clamp _ (.guarded _ _ handler) _ _ => do
    let body ← blockLines (depth + 1) handler
    return .code depth s!"if (!({value})) \x7b" :: body ++ [.code depth "\x7d"]
  | _ => return []

def guardLines? (depth : Nat) (value : String) : Option Expr → StateM Nat (List Line)
  | none => return []
  | some e => e.guardLines depth value

/-- All branches up to the last brace; only the first one opens the statement. -/
def branchLines (depth : Nat) (first : Bool) : List Branch → StateM Nat (List Line)
  | [] => return []
  | ⟨e, body⟩ :: bs => do
    let word := if first then "if" else "\x7d else if"
    let body ← blockLines (depth + 1) body
    return .code depth s!"{word} ({e.code k}) \x7b" :: body ++ (← branchLines depth false bs)

def otherwiseLines (depth : Nat) : Option (List Stmt) → StateM Nat (List Line)
  | none => return []
  | some body => return .code depth "\x7d else \x7b" :: (← blockLines (depth + 1) body)

/-- The arms without a wildcard. -/
def armLines (depth : Nat) (subject : String) (first : Bool) : List Arm → StateM Nat (List Line)
  | [] => return []
  | ⟨patterns, body⟩ :: as =>
    if patterns.any (·.isWildcard) then armLines depth subject first as
    else do
      let word := if first then "if" else "\x7d else if"
      let test := String.intercalate " || " (patterns.filterMap (·.test? k subject))
      let body ← blockLines (depth + 1) body
      return .code depth s!"{word} ({test}) \x7b" :: body ++ (← armLines depth subject false as)

/-- The first arm with a wildcard. -/
def wildcardLines (depth : Nat) (opening : String) : List Arm → StateM Nat (List Line)
  | [] => return []
  | ⟨patterns, body⟩ :: as =>
    if patterns.any (·.isWildcard) then return .code depth opening :: (← blockLines (depth + 1) body)
    else wildcardLines depth opening as

def caseLines (depth : Nat) : List Branch → StateM Nat (List Line)
  | [] => return []
  | ⟨e, body⟩ :: bs => do
    let body ← blockLines (depth + 1) body
    return .code depth s!"case {e.code k}: \x7b" ::
      body ++ [.code (depth + 1) "break;", .code depth "\x7d"] ++ (← caseLines depth bs)

def defaultLines (depth : Nat) : Option (List Stmt) → StateM Nat (List Line)
  | none => return []
  | some body => do
    let body ← blockLines (depth + 1) body
    return .code depth "default: \x7b" :: body ++ [.code (depth + 1) "break;", .code depth "\x7d"]

end

end

end SketchCompiler
