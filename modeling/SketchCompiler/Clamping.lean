import SketchCompiler.Diagnostic
import SketchCompiler.Tree.Transform
import SketchCompiler.Tree.Vars

namespace SketchCompiler

inductive RangeError where
  | inverted (name : String) (min max : Number)

def RangeError.message : RangeError → String
  | inverted name min max =>
    s!"Invalid range for '{name}': lower bound {min.text} is greater than upper bound {max.text}"

/-- The range of each variable that has one. -/
abbrev RangeTable := List (SymbolId × Range)

def Literal.inCommonUnit : Literal → Literal
  | number n (some unit) => number (n.inCommonUnit unit) none
  | v => v

/-- The value of a literal, negated or not. -/
def Expr.constant? : Expr → Option Number
  | literal _ (.number n _) => some n
  | unary _ .negate e => e.constant?.map (·.neg)
  | _ => none

namespace VarDecl

/-- Bounds that are known now have to be in order. -/
def rangeError? (d : VarDecl) : Option (Located RangeError) := do
  let _ ← d.symbol
  let range ← d.range
  let min ← range.min.constant?
  let max ← range.max.constant?
  if min.toFloat > max.toFloat then some ⟨.inverted d.name.text min max, range.min.loc⟩ else none

def symbolRange? (d : VarDecl) : Option (SymbolId × Range) := do
  return (← d.symbol, ← d.range)

end VarDecl

/-- Adds a range, in place of an older one of the same variable. -/
def RangeTable.insert (t : RangeTable) (entry : SymbolId × Range) : RangeTable :=
  t.filter (·.1 ≠ entry.1) ++ [entry]

/-- Clamps a value that is stored into a variable with a range. -/
def Expr.clampTo (ranges : RangeTable) (symbol : Option SymbolId) (e : Expr) : Expr :=
  match symbol.bind (ranges.lookup ·) with
  | some range => .clamp e.loc e range.min range.max
  | none => e

namespace Program

def convertUnits (p : Program) : Program :=
  p.transform { literal := Literal.inCommonUnit }

def rangeTable (p : Program) : RangeTable :=
  (p.vars.filterMap (·.symbolRange?)).foldl RangeTable.insert []

def insertClamps (ranges : RangeTable) (p : Program) : Program :=
  p.transform { stored := Expr.clampTo ranges }

/-- Converts units and clamps. With an error in a range, units are converted and nothing is clamped. -/
def clampRanges (p : Program) : Program × Except (List (Located RangeError)) RangeTable :=
  let p := p.convertUnits
  match p.vars.filterMap (·.rangeError?) with
  | [] => (p.insertClamps p.rangeTable, .ok p.rangeTable)
  | errors => (p, .error errors)

end Program

end SketchCompiler
