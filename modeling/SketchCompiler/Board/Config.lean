import SketchCompiler.Board
import SketchCompiler.Diagnostic
import SketchCompiler.Tree.Program

namespace SketchCompiler

inductive ConfigError where
  | unknownBoard (name : String)
  | unknownKey (key : String)
  | duplicateKey (key : String)
  | invalidValue (key : String)
deriving DecidableEq, Repr

def ConfigError.message : ConfigError → String
  | unknownBoard name => Board.unknownMessage name
  | unknownKey key => s!"Unknown configuration key '{key}'"
  | duplicateKey key => s!"Configuration key '{key}' is set more than once"
  | invalidValue key => s!"Invalid value for configuration key '{key}'"

structure BoardConfig where
  board : Board := .uno
  clock : Option Nat := none
  uart : Option String := none
  serialPort : Option String := none
deriving DecidableEq, Repr

/-- A name, a string or a number without a unit. -/
def Expr.word? : Expr → Option String
  | name _ r => some r.name.text
  | literal _ (.str s) => some s
  | literal _ (.number n none) => some n.text
  | _ => none

/-- A frequency, or a whole number of hertz. -/
def Expr.hertz? : Expr → Option Float
  | literal _ (.number n (some unit)) => unit.hertz? n
  | literal _ (.number (.int n) none) => some (Float.ofInt n)
  | _ => none

namespace BoardConfig

/-- In hertz. -/
def clockRate (c : BoardConfig) : Nat :=
  c.clock.getD c.board.defaultClock

def buildProperty (c : BoardConfig) : String :=
  s!"build.f_cpu={c.clockRate}L"

def set (c : BoardConfig) (key : String) (value : Expr) : Except ConfigError BoardConfig :=
  match key with
  | "board" =>
    match value.word? with
    | none => .error (.invalidValue key)
    | some name =>
      match Board.ofName? name with
      | some board => .ok { c with board }
      | none => .error (.unknownBoard name)
  | "clock" =>
    match value.hertz? with
    | some x => if x > 0.0 then .ok { c with clock := x.round.toUInt64.toNat } else .error (.invalidValue key)
    | none => .error (.invalidValue key)
  | "uart" =>
    match value.word? with
    | some uart => .ok { c with uart }
    | none => .error (.invalidValue key)
  | "port" =>
    match value.word? with
    | some serialPort => .ok { c with serialPort }
    | none => .error (.invalidValue key)
  | _ => .error (.unknownKey key)

/-- Takes the entries in order; `seen` are the keys so far. -/
def setAll (c : BoardConfig) (seen : List String) : List FieldValue → BoardConfig × List (Located ConfigError)
  | [] => (c, [])
  | ⟨key, value⟩ :: es =>
    if seen.contains key.text then
      let (c, errors) := c.setAll seen es
      (c, ⟨.duplicateKey key.text, key.loc⟩ :: errors)
    else
      match c.set key.text value with
      | .ok c => c.setAll (key.text :: seen) es
      | .error e =>
        let (c, errors) := c.setAll (key.text :: seen) es
        (c, ⟨e, value.loc⟩ :: errors)

def ofEntries (entries : List FieldValue) : Except (List (Located ConfigError)) BoardConfig :=
  match setAll {} [] entries with
  | (c, []) => .ok c
  | (_, errors) => .error errors

end BoardConfig

/-- The entries of the first `config` block. -/
def Program.configEntries (p : Program) : List FieldValue :=
  (p.items.findSome? fun
    | .config _ entries => some entries
    | _ => none).getD []

def Program.boardConfig (p : Program) : Except (List (Located ConfigError)) BoardConfig :=
  BoardConfig.ofEntries p.configEntries

end SketchCompiler
