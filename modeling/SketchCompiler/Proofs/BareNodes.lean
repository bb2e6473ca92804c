import SketchCompiler.Proofs.Places

namespace SketchCompiler

lemma eq_map {α β : Type} {step : List α → List β} {g : α → β} (hnil : step [] = [])
    (hcons : ∀ a as, step (a :: as) = g a :: step as) (as : List α) : step as = as.map g := by
  induction as with
  | nil => exact hnil
  | cons a as ih => rw [hcons, ih, List.map_cons]

namespace Node

def hole : Expr := .self default

def stmtHole : Stmt := .breakLoop default

def varHole : VarDecl := ⟨.constant, ⟨{ base := "" }, default⟩, default, none, none, none⟩

def itemHole : Item := .native default ""

def bareBlock (body : List Stmt) : List Stmt := body.map fun _ => stmtHole

def bareBranch (b : Branch) : Branch := ⟨hole, bareBlock b.body⟩

def barePattern : Pattern → Pattern
  | .wildcard l => .wildcard l
  | .value l _ => .value l hole

def bareArm (a : Arm) : Arm := ⟨a.patterns.map barePattern, bareBlock a.body⟩

def bareField (f : FieldValue) : FieldValue := { f with value := hole }

def bareExpr : Expr → Expr
  | .binary l _ op _ => .binary l hole op hole
  | .unary l op _ => .unary l op hole
  | .call l _ args => .call l hole (args.map fun _ => hole)
  | .member l _ name symbol => .member l hole name symbol
  | .new l type args => .new l type (args.map fun _ => hole)
  | .array l es => .array l (es.map fun _ => hole)
  | .subscript l _ _ => .subscript l hole hole
  | .convert l _ type => .convert l hole type
  | .guarded l _ handler => .guarded l hole (bareBlock handler)
  | .struct l type fields => .struct l type (fields.map bareField)
  | .clamp l _ _ _ => .clamp l hole hole hole
  | e => e

def bareStmt : Stmt → Stmt
  | .var l _ => .var l varHole
  | .assign l _ _ => .assign l hole hole
  | .expr l _ => .expr l hole
  | .cond l branches otherwise => .cond l (branches.map bareBranch) (otherwise.map bareBlock)
  | .whileLoop l _ body => .whileLoop l hole (bareBlock body)
  | .forLoop l init e update body =>
    .forLoop l (init.map fun _ => stmtHole) (e.map fun _ => hole) (update.map fun _ => stmtHole) (bareBlock body)
  | .repeatLoop l _ body => .repeatLoop l hole (bareBlock body)
  | .choose l _ arms => .choose l hole (arms.map bareArm)
  | .switch l _ cases otherwise => .switch l hole (cases.map bareBranch) (otherwise.map bareBlock)
  | .atomic l body => .atomic l (bareBlock body)
  | .ret l e => .ret l (e.map fun _ => hole)
  | s => s

def bareFunction (d : FunctionDecl) : FunctionDecl := { d with body := bareBlock d.body }

def bareClass (d : ClassDecl) : ClassDecl :=
  { d with
    fields := d.fields.map fun f => { f with value := varHole }
    constructor := d.constructor.map fun k => { k with body := bareBlock k.body }
    methods := d.methods.map fun m => { m with value := bareFunction m.value } }

def bareItem : Item → Item
  | .config l entries => .config l (entries.map bareField)
  | .module l aliasName path symbol _ => .module l aliasName path symbol ⟨"", none, []⟩
  | .var l _ => .var l varHole
  | .aliasDecl l name _ symbol => .aliasDecl l name hole symbol
  | .function l d => .function l (bareFunction d)
  | .classDecl l d => .classDecl l (bareClass d)
  | .event l kind body => .event l kind (bareBlock body)
  | .interrupt l d => .interrupt l { d with pin := hole, body := bareBlock d.body }
  | .task l d => .task l { d with period := d.period.map fun _ => hole, body := bareBlock d.body }
  | i => i

/-- The node by itself: each of its children is replaced by a hole. -/
def bare : Node → Node
  | unit p => unit { p with items := p.items.map fun _ => itemHole }
  | item i => item (bareItem i)
  | var d => var { d with
      initializer := d.initializer.map fun _ => hole
      range := d.range.map fun _ => ⟨hole, hole⟩ }
  | stmt s => stmt (bareStmt s)
  | expr e => expr (bareExpr e)

def unnumberedParam (p : Param) : Param := { p with symbol := none }

def unnumberedFunction (d : FunctionDecl) : FunctionDecl :=
  { d with params := d.params.map unnumberedParam, symbol := none }

def unnumberedClass (d : ClassDecl) : ClassDecl :=
  { d with
    constructor := d.constructor.map fun k => { k with params := k.params.map unnumberedParam }
    methods := d.methods.map fun m => { m with value := unnumberedFunction m.value }
    symbol := none }

def unnumberedEvent : Event → Event
  | .signal r => .signal { r with symbol := none }
  | kind => kind

def unnumberedItem : Item → Item
  | .module l aliasName path _ program => .module l aliasName path none program
  | .aliasDecl l name e _ => .aliasDecl l name e none
  | .function l d => .function l (unnumberedFunction d)
  | .classDecl l d => .classDecl l (unnumberedClass d)
  | .enumDecl l d => .enumDecl l { d with symbol := none }
  | .structDecl l d => .structDecl l { d with symbol := none }
  | .signal l name _ => .signal l name none
  | .event l kind body => .event l (unnumberedEvent kind) body
  | .task l d => .task l { d with symbol := none }
  | i => i

/-- The node without the numbers of its own names. -/
def unnumbered : Node → Node
  | item i => item (unnumberedItem i)
  | var d => var { d with symbol := none }
  | stmt (.emit l r) => stmt (.emit l { r with symbol := none })
  | expr (.name l r) => expr (.name l { r with symbol := none })
  | expr (.member l object name _) => expr (.member l object name none)
  | n => n

def form (n : Node) : Node := n.bare.unnumbered

/-- At each place the trees have nodes that differ at most in their numbers. -/
def Alike (n m : Node) : Prop := ∀ a, (n.at? a).map form = (m.at? a).map form

end Node

end SketchCompiler
