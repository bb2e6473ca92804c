import SketchCompiler.Sketch.Stmt

namespace SketchCompiler

/-- A line of `setup()`, or the check of a variable that has a handler. -/
inductive Deferred where
  | line (text : String)
  | guard (value : String) (handler : List Stmt)

structure Emission where
  interrupts : Nat := 0
  handlers : Nat := 0
  temporaries : Nat := 0
  setup : List Deferred := []
  starts : List (List Stmt) := []
  schedule : List String := []
  dispatch : List (String × List String) := []
  loops : List (List Stmt) := []

abbrev Emit := StateM Emission

namespace Emit

/-- Runs what needs temporary names. -/
def withTemporaries {α : Type} (m : StateM Nat α) : Emit α :=
  modifyGet fun s =>
    let (a, n) := m.run s.temporaries
    (a, { s with temporaries := n })

def defer (line : String) : Emit Unit :=
  modify fun s => { s with setup := s.setup ++ [.line line] }

def schedule (line : String) : Emit Unit :=
  modify fun s => { s with schedule := s.schedule ++ [line] }

/-- Adds a handler of the signal with the given flag. -/
def addHandler (flag handler : String) : List (String × List String) → List (String × List String)
  | [] => [(flag, [handler])]
  | (f, hs) :: rest => if f = flag then (f, hs ++ [handler]) :: rest else (f, hs) :: addHandler flag handler rest

def dispatch (flag handler : String) : Emit Unit :=
  modify fun s => { s with dispatch := addHandler flag handler s.dispatch }

def nextHandler : Emit Nat :=
  modifyGet fun s => (s.handlers, { s with handlers := s.handlers + 1 })

def nextInterrupt : Emit Nat :=
  modifyGet fun s => (s.interrupts, { s with interrupts := s.interrupts + 1 })

end Emit

open Emit

/-- A name in the namespaces of the modules around it. -/
def qualify (path : List String) (name : String) : String :=
  String.intercalate "::" (path ++ [name])

def paramCodes (params : List Param) : String :=
  commaList (params.map fun p => s!"{p.type.value.code} {p.name.text}{p.type.value.arrayMark}")

/-- The head of a function with the given name. -/
def FunctionDecl.signature (d : FunctionDecl) (name : String) : String :=
  let type := match d.returnType with
    | some t => if t.value.array then t.value.code ++ "*" else t.value.code
    | none => "void"
  s!"{type} {name}({paramCodes d.params})"

variable (k : Scene)

def functionLines (signature : String) (body : List Stmt) : Emit (List Line) := do
  let body ← withTemporaries (blockLines k 1 body)
  return .code 0 s!"{signature} \x7b" :: body ++ [.code 0 "\x7d", .blank]

def EnumDecl.lines (d : EnumDecl) : List Line :=
  let variants := commaList (d.variants.map (·.text))
  [.code 0 s!"enum {d.name.text} \x7b {variants} \x7d;", .blank]

def StructDecl.lines (d : StructDecl) : List Line :=
  let fields := d.fields.map fun f => Line.code 1 s!"{f.type.value.code} {f.name.text}{f.type.value.arrayMark};"
  .code 0 s!"struct {d.name.text} \x7b" :: fields ++ [.code 0 "\x7d;", .blank]

/-- The class with the prototypes of its methods. -/
def ClassDecl.lines (d : ClassDecl) : List Line :=
  let fields := d.fields.map fun f => Line.code 1 (f.value.code k ++ ";")
  let constructor := match d.constructor with
    | some c => [Line.code 1 s!"{d.name.text}({paramCodes c.params});"]
    | none => []
  let methods := d.methods.map fun m => Line.code 1 (m.value.signature m.value.name.text ++ ";")
  let gap := if fields.isEmpty || (constructor.isEmpty && methods.isEmpty) then [] else [Line.blank]
  .code 0 s!"class {d.name.text} \x7b" :: .code 0 "public:" ::
    fields ++ gap ++ constructor ++ methods ++ [.code 0 "\x7d;", .blank]

def ClassDecl.constructorLines (d : ClassDecl) : Emit (List Line) :=
  match d.constructor with
  | some c => functionLines k s!"{d.name.text}::{d.name.text}({paramCodes c.params})" c.body
  | none => return []

def ClassDecl.bodyLines (d : ClassDecl) : Emit (List Line) := do
  let constructor ← d.constructorLines k
  let methods ← d.methods.mapM fun m =>
    functionLines k (m.value.signature s!"{d.name.text}::{m.value.name.text}") m.value.body
  return constructor ++ methods.flatten

def Item.typeLines : Item → List Line
  | enumDecl _ d => d.lines
  | structDecl _ d => d.lines
  | classDecl _ d => d.lines k
  | _ => []

def Item.prototypeLines : Item → List Line
  | function _ d => [.code 0 (d.signature d.name.text ++ ";")]
  | _ => []

def Item.methodLines : Item → Emit (List Line)
  | classDecl _ d => d.bodyLines k
  | _ => return []

/-- A variable at the top of a unit. Its pin and its handler are left to `setup()`. -/
def VarDecl.globalLines (d : VarDecl) : Emit (List Line) := do
  if let some id := d.symbol then
    let name := k.table.qualifiedName id "::"
    match k.plan.instance? id, d.initializer.bind (·.handler?) with
    | some i, _ => (k.plan.setup i name).forM defer
    | none, some handler => modify fun s => { s with setup := s.setup ++ [.guard name handler] }
    | none, none => pure ()
  return [.code 0 (d.code k ++ ";"), .blank]

/-- Only the blocks of the main unit run inside `setup()` and `loop()` themselves. -/
def eventLines (path : List String) (root : Bool) (kind : Event) (body : List Stmt) :
    Emit (List Line) := do
  match kind, root with
  | .start, true =>
    modify fun s => { s with starts := s.starts ++ [body] }
    return []
  | .loop, true =>
    modify fun s => { s with loops := s.loops ++ [body] }
    return []
  | .start, false =>
    let n ← nextHandler
    let name := s!"ys_start_{n}"
    let lines ← functionLines k s!"void {name}()" body
    defer s!"{qualify path name}();"
    return lines
  | .loop, false =>
    let n ← nextHandler
    let name := s!"ys_loop_{n}"
    let lines ← functionLines k s!"void {name}()" body
    Emit.schedule s!"{qualify path name}();"
    return lines
  | .signal r, _ =>
    let n ← nextHandler
    let name := s!"ys_on_{r.name.text}_{n}"
    let lines ← functionLines k s!"void {name}()" body
    Emit.dispatch (k.signalReference r) s!"{qualify path name}();"
    return lines

def InterruptDecl.lines (k : Scene) (path : List String) (d : InterruptDecl) : Emit (List Line) := do
  let n ← nextInterrupt
  let name := match d.name with
    | some name => name.text
    | none => s!"isr_{n}"
  let placement := if k.plan.family = .avr then "" else "IRAM_ATTR "
  let lines ← functionLines k s!"void {placement}{name}()" d.body
  defer s!"attachInterrupt(digitalPinToInterrupt({d.pin.code k}), {qualify path name}, {d.trigger.text});"
  return lines

def TaskDecl.lines (path : List String) (d : TaskDecl) : Emit (List Line) := do
  let name := d.name.text
  let last := "ys_last_" ++ name
  let clock ← match d.period with
    | some period =>
      let q := qualify path last
      Emit.schedule
        s!"if (millis() - {q} >= {period.operand k}) \x7b {q} = millis(); {qualify path name}(); \x7d"
      pure [Line.code 0 s!"unsigned long {last} = 0;"]
    | none =>
      Emit.schedule s!"{qualify path name}();"
      pure []
  return clock ++ (← functionLines k s!"void {name}()" d.body)

/-- The place of a declaration, where comments are wanted. -/
def Item.commentLines (i : Item) : List Line :=
  match i with
  | config .. | load .. | module .. | nativeInclude .. | enumDecl .. | structDecl .. | classDecl .. => []
  | i => if k.flags.lineComments then [.code 0 s!"// {i.loc.source.name}:{i.loc.line}"] else []

def Item.codeLines (path : List String) (root : Bool) : Item → Emit (List Line)
  | var _ d => d.globalLines k
  | aliasDecl _ name e _ => return [.code 0 s!"const auto {name.text} = {e.code k};"]
  | function _ d => functionLines k (d.signature d.name.text) d.body
  | signal _ name _ => return [.code 0 s!"volatile bool {Scene.signalFlag name.text} = false;", .blank]
  | event _ kind body => eventLines k path root kind body
  | interrupt _ d => d.lines k path
  | task _ d => d.lines k path
  | native _ text => return [.code 0 text, .blank]
  | config .. | load .. | module .. | nativeInclude .. | enumDecl .. | structDecl .. | classDecl .. => return []

def Item.lines (path : List String) (root : Bool) (i : Item) : Emit (List Line) :=
  return i.commentLines k ++ (← i.codeLines k path root)

/-- All of a unit but its modules. -/
def unitLines (path : List String) (root : Bool) (items : List Item) : Emit (List Line) := do
  let types := items.flatMap (·.typeLines k)
  let prototypes := items.flatMap (·.prototypeLines)
  let gap := if prototypes.isEmpty then [] else [Line.blank]
  let code ← items.mapM (·.lines k path root)
  let methods ← items.mapM (·.methodLines k)
  return types ++ prototypes ++ gap ++ code.flatten ++ methods.flatten

mutual

def Item.moduleLines (k : Scene) (path : List String) : Item → Emit (List Line)
  | .module _ aliasName _ _ program => do
    let lines ← program.lines k (path ++ [aliasName.text]) false
    return .code 0 s!"namespace {aliasName.text} \x7b" :: .blank ::
      lines ++ [.code 0 s!"\x7d // namespace {aliasName.text}", .blank]
  | _ => return []

def moduleLines (k : Scene) (path : List String) : List Item → Emit (List Line)
  | [] => return []
  | i :: is => return (← i.moduleLines k path) ++ (← moduleLines k path is)

def Program.lines (k : Scene) (path : List String) (root : Bool) : Program → Emit (List Line)
  | ⟨_, _, items⟩ => return (← moduleLines k path items) ++ (← unitLines k path root items)

end

mutual

/-- The includes of the target in reading order, with repetitions. -/
def Item.includes : Item → List String
  | .nativeInclude _ path => [path]
  | .module _ _ _ _ program => program.includes
  | _ => []

def itemsIncludes : List Item → List String
  | [] => []
  | i :: is => i.includes ++ itemsIncludes is

def Program.includes : Program → List String
  | ⟨_, _, items⟩ => itemsIncludes items

end

/-- The first of each group of equal elements, in order. -/
def firsts (l : List String) : List String :=
  l.foldl (fun seen s => if seen.contains s then seen else seen ++ [s]) []

def Deferred.lines : Deferred → Emit (List Line)
  | line text => return [.code 1 text]
  | guard value handler => do
    let body ← withTemporaries (blockLines k 2 handler)
    return .code 1 s!"if (!({value})) \x7b" :: body ++ [.code 1 "\x7d"]

def setupLines : Emit (List Line) := do
  let deferred ← (← get).setup.mapM (·.lines k)
  let starts ← (← get).starts.mapM fun body => withTemporaries (blockLines k 1 body)
  return .code 0 "void setup() \x7b" :: deferred.flatten ++ starts.flatten ++ [.code 0 "\x7d", .blank]

/-- Takes back the flag, and then runs the handlers of the signal. -/
def dispatchLines (flag : String) (handlers : List String) : List Line :=
  .code 1 s!"if ({flag}) \x7b" :: .code 2 s!"{flag} = false;" ::
    handlers.map (.code 2) ++ [.code 1 "\x7d"]

def loopLines : Emit (List Line) := do
  let schedule := (← get).schedule.map (Line.code 1)
  let dispatch := (← get).dispatch.flatMap fun (flag, handlers) => dispatchLines flag handlers
  let loops ← (← get).loops.mapM fun body => withTemporaries (blockLines k 1 body)
  return .code 0 "void loop() \x7b" :: schedule ++ dispatch ++ loops.flatten ++ [.code 0 "\x7d"]

/-- What stands before the code of the program. -/
def Program.headLines (p : Program) : List Line :=
  let header := if k.flags.header then
      [Line.code 0 s!"// Generated by ysc from {p.name} (board: {k.config.board.name})", .blank]
    else []
  let includes := ("Arduino.h" :: firsts p.includes).map fun path => Line.code 0 s!"#include <{path}>"
  let prelude := k.plan.prelude.map (Line.code 0)
  header ++ includes ++ [.blank] ++ prelude ++ if prelude.isEmpty then [] else [.blank]

def Program.sketchLines (p : Program) : Emit (List Line) := do
  if let some baud := k.config.uart then defer s!"Serial.begin({baud});"
  let lines ← p.lines k [] true
  return p.headLines k ++ lines ++ (← setupLines k) ++ (← loopLines k)

/-- The sketch as one text. -/
def Program.sketch (p : Program) : String :=
  renderLines ((p.sketchLines k).run {}).1

end SketchCompiler
