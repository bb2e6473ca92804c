import SketchCompiler.Text.Source

namespace SketchCompiler

structure Diagnostic where
  message : String
  file : String
  line : Nat
  column : Nat
  endColumn : Nat
  excerpt : Option String
deriving DecidableEq, Repr

namespace Diagnostic

/-- Marks the part of the location that lies on its first line, at least one column. -/
def ofLocation (message : String) (l : Location) : Diagnostic where
  message := message
  file := l.source.name
  line := l.start.line
  column := l.start.column
  endColumn := if l.stop.line = l.start.line then max l.stop.column (l.start.column + 1) else l.start.column + 1
  excerpt := l.source.line? l.start.line

def text (d : Diagnostic) : String :=
  s!"{d.file}:{d.line}:{d.column}: {d.message}"

end Diagnostic

/-- The errors of one phase under its label. -/
structure Report where
  kind : String := "error"
  errors : List Diagnostic := []
deriving DecidableEq, Repr

def spaces (n : Nat) : String :=
  String.ofList (List.replicate n ' ')

namespace Report

def ofErrors {ε : Type} (kind : String) (message : ε → String) (es : List (Located ε)) : Report :=
  ⟨kind, es.map fun e => .ofLocation (message e.value) e.loc⟩

def push (r : Report) (d : Diagnostic) : Report :=
  { r with errors := r.errors ++ [d] }

/-- The line with the error and carets under it, if the source has that line. -/
def excerptLines (d : Diagnostic) : List String :=
  match d.excerpt with
  | none => []
  | some line =>
    let margin := spaces (toString d.line).length
    let carets := String.ofList (List.replicate (max (d.endColumn - d.column) 1) '^')
    [s!"{d.line} | {line}", s!"{margin} | {spaces (d.column - 1)}{carets}"]

def errorLines (kind : String) (d : Diagnostic) : List String :=
  [s!"{kind}: {d.message}", s!" --> {d.file}:{d.line}:{d.column}", s!"{spaces (toString d.line).length} |"] ++
    excerptLines d ++ [""]

def summary (n : Nat) : String :=
  let noun := if n = 1 then "error" else "errors"
  s!"Build failed with {n} {noun}"

def lines (r : Report) : List String :=
  match r.errors with
  | [] => ["No errors were reported"]
  | es => es.flatMap (errorLines r.kind) ++ [summary es.length]

def text (r : Report) : String :=
  String.join (r.lines.map (· ++ "\n"))

end Report

end SketchCompiler
