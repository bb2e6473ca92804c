import Mathlib.Tactic.Lemma
import SketchCompiler.Grammar.Program
import SketchCompiler.Sketch.Expr
import SketchCompiler.Symbol.Declare

namespace SketchCompiler

namespace Sample

def name (text : String) : Name := ⟨text, default⟩

def use (text : String) : Expr := .name default { name := name text }

def type (text : String) : Located TypeName := ⟨{ base := text }, default⟩

def call (callee : Expr) : Stmt := .expr default (.call default callee [])

def method (text : String) (body : List Stmt) : Located FunctionDecl :=
  ⟨{ name := name text, params := [], returnType := none, body }, default⟩

def mutableVar (typeName text : String) : VarDecl := ⟨.mutable, type typeName, name text, none, none, none⟩

def interrupt (body : List Stmt) : Item :=
  .interrupt default { name := none, pin := use "LOW", trigger := .rising, body }

def unit (items : List Item) : Program := ⟨"main", none, items⟩

def ofText (text : String) : Program :=
  match Program.ofText "main" text with
  | .ok p => p
  | .error _ => unit []

def isResolved (p : Program) : Bool :=
  match p.resolveNames.2 with
  | .ok _ => true
  | .error _ => false

def tableOf (p : Program) : SymbolTable :=
  match p.resolveNames.2 with
  | .ok t => t
  | .error _ => .empty

lemma resolveNames_eq {p : Program} (h : isResolved p = true) :
    p.resolveNames = (p.resolveNames.1, .ok (tableOf p)) := by
  have h2 : p.resolveNames.2 = .ok (tableOf p) := by
    unfold isResolved at h
    unfold tableOf
    cases he : p.resolveNames.2 with
    | ok t => rfl
    | error e => simp [he] at h
  rw [← h2]

def bareScene : Scene where
  table := .empty
  volatile := {}
  plan := { family := .avr }
  config := {}

def plainScene (p : Program) : Scene := { bareScene with table := tableOf p }

lemma plainScene_table (p : Program) : (plainScene p).table = tableOf p := rfl

lemma eq_ok_of_toOption {α β : Type} {x : Except α β} {b : β} (h : x.toOption = some b) : x = .ok b := by
  cases x with
  | error => cases h
  | ok => exact congrArg Except.ok (Option.some.inj h)

end Sample

end SketchCompiler
