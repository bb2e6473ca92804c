import SketchCompiler.Board.Config
import SketchCompiler.Hardware.Pwm
import SketchCompiler.Symbol.Table

namespace SketchCompiler

inductive HardwareError where
  | unknownMethod (device : Device) (method : String)
  | arity (device : Device) (method : String) (expected found : Nat)
  | pinArity (device : Device) (found : Nat)
  | instantiation (device : Device)
  | outOfChannels (board : Board) (limit : Nat)
deriving DecidableEq, Repr

def HardwareError.message : HardwareError → String
  | unknownMethod device method => s!"Hardware type '{device.name}' has no method '{method}'"
  | arity device method expected found =>
    s!"'{device.name}.{method}()' takes {expected} argument(s) but {found} were given"
  | pinArity device found => s!"Hardware type '{device.name}' takes exactly one pin argument, found {found}"
  | instantiation device =>
    s!"Hardware type '{device.name}' can only be instantiated as a variable initializer"
  | outOfChannels board limit => s!"Board '{board.name}' has only {limit} PWM channels"

/-- A variable that is a device; instances with the same key share a channel. -/
structure Instance where
  device : Device
  pin : Expr
  channel : Option Nat := none
  key : String

structure HardwarePlan where
  family : Family
  instances : List (SymbolId × Instance) := []
  channels : List (String × Nat) := []

namespace HardwarePlan

def instance? (p : HardwarePlan) (id : SymbolId) : Option Instance :=
  p.instances.lookup id

/-- The instance that an object stands for. -/
def instanceOf? (p : HardwarePlan) (object : Expr) : Option (SymbolId × Instance) := do
  let id ← object.symbol?
  return (id, ← p.instance? id)

def insert (p : HardwarePlan) (id : SymbolId) (i : Instance) : HardwarePlan :=
  { p with instances := p.instances.filter (·.1 ≠ id) ++ [(id, i)] }

/-- Definitions ahead of all others. -/
def prelude (p : HardwarePlan) : List String :=
  p.family.pwm.prelude p.channels

/-- What sets up the pin, which the target names `object`. -/
def setup (p : HardwarePlan) (i : Instance) (object : String) : List String :=
  i.device.setup p.family.pwm i.channel object

def call (p : HardwarePlan) (i : Instance) (object : String) (m : Method) (args : List String) : String :=
  i.device.call p.family.pwm i.channel object m args

end HardwarePlan

structure Planning where
  plan : HardwarePlan
  errors : Array (Located HardwareError) := #[]

abbrev Plan := StateM Planning

/-- What a plan is made for. -/
structure Target where
  table : SymbolTable
  board : Board

/-- A pin is known by its number or by the name of its declaration. -/
def Expr.pinKey? (t : SymbolTable) : Expr → Option String
  | literal _ (.number (.int n) _) => some (toString n)
  | e => e.symbol?.map (t.qualifiedName · ".")

namespace Plan

def report (e : HardwareError) (loc : Location) : Plan Unit :=
  modify fun s => { s with errors := s.errors.push ⟨e, loc⟩ }

/-- The channel of a key, a new one if it has none; too many are an error. -/
def channelFor (board : Board) (key : String) (loc : Location) : Plan (Option Nat) := do
  let channels := (← get).plan.channels
  match channels.lookup key with
  | some channel => return some channel
  | none =>
    let limit := board.pwmChannels?.getD 255
    if limit ≤ channels.length then
      report (.outOfChannels board limit) loc
      return none
    else
      modify fun s => { s with plan := { s.plan with channels := channels ++ [(key, channels.length)] } }
      return some channels.length

/-- Gives the instance a channel, on boards that have them. -/
def allocate (k : Target) (id : SymbolId) (loc : Location) : Plan Unit := do
  let plan := (← get).plan
  match plan.family, plan.instance? id with
  | .espChannel, some i =>
    if i.channel.isNone then
      match ← channelFor k.board i.key loc with
      | some channel => modify fun s => { s with plan := s.plan.insert id { i with channel } }
      | none => return
  | _, _ => return

def addInstance (k : Target) (id : SymbolId) (device : Device) (pin : Expr) : Plan Unit := do
  let key := (pin.pinKey? k.table).getD s!"{device.name}#{id}"
  modify fun s => { s with plan := s.plan.insert id { device, pin, key } }
  if device = .pwm then allocate k id pin.loc

/-- A device as the initializer of a variable, which must not be a member. -/
def declareDevice (k : Target) (symbol : Option SymbolId) (device : Device) (loc : Location) (args : List Expr) :
    Plan Unit :=
  match symbol.filter fun id => (k.table.scope (k.table.get id).scope).kind ≠ .members, args with
  | some id, [pin] => addInstance k id device pin
  | some _, args => report (.pinArity device args.length) loc
  | none, _ => report (.instantiation device) loc

/-- The call of a method of an instance. -/
def useMethod (k : Target) (id : SymbolId) (device : Device) (method : Name) (found : Nat) (loc : Location) :
    Plan Unit :=
  match device.method? method.text with
  | none => report (.unknownMethod device method.text) method.loc
  | some (m, expected) =>
    if expected ≠ found then report (.arity device method.text expected found) loc
    else if device.usesPwm m then allocate k id loc
    else return

def useCallee (k : Target) (found : Nat) : Expr → Plan Unit
  | .member loc object method _ => do
    match (← get).plan.instanceOf? object with
    | some (id, i) => useMethod k id i.device method found loc
    | none => return
  | _ => return

end Plan

section

variable (k : Target)

mutual

def Expr.plan : Expr → Plan Unit
  | .literal .. | .name .. | .self _ => return
  | .binary _ a _ b => do
    a.plan
    b.plan
  | .unary _ _ e => e.plan
  | .call _ callee args => do
    Plan.useCallee k args.length callee
    callee.plan
    planExprs args
  | .member _ object _ _ => object.plan
  | .new l type args => do
    if let some device := type.value.device? then Plan.report (.instantiation device) l
    planExprs args
  | .array _ es => planExprs es
  | .subscript _ a i => do
    a.plan
    i.plan
  | .convert _ e _ => e.plan
  | .guarded _ e handler => do
    e.plan
    planBlock handler
  | .struct _ _ fields => planFields fields
  | .clamp _ e min max => do
    e.plan
    min.plan
    max.plan

def planExprs : List Expr → Plan Unit
  | [] => return
  | e :: es => do
    e.plan
    planExprs es

def planExpr? : Option Expr → Plan Unit
  | none => return
  | some e => e.plan

def planFields : List FieldValue → Plan Unit
  | [] => return
  | ⟨_, e⟩ :: fs => do
    e.plan
    planFields fs

def planRange? : Option Range → Plan Unit
  | none => return
  | some ⟨min, max⟩ => do
    min.plan
    max.plan

/-- An initializer that makes a device declares an instance. -/
def VarDecl.plan : VarDecl → Plan Unit
  | ⟨_, _, _, some (.new l type args), range, symbol⟩ => do
    match type.value.device? with
    | some device =>
      planExprs args
      Plan.declareDevice k symbol device l args
    | none =>
      planRange? range
      planExprs args
  | ⟨_, _, _, initializer, range, _⟩ => do
    planRange? range
    planExpr? initializer

def Stmt.plan : Stmt → Plan Unit
  | .var _ d => d.plan
  | .assign _ target e => do
    target.plan
    e.plan
  | .expr _ e => e.plan
  | .cond _ branches otherwise => do
    planBranches branches
    planBlock? otherwise
  | .whileLoop _ e body => do
    e.plan
    planBlock body
  | .forLoop _ init e update body => do
    planStmt? init
    planExpr? e
    planStmt? update
    planBlock body
  | .repeatLoop _ e body => do
    e.plan
    planBlock body
  | .choose _ e arms => do
    e.plan
    planArms arms
  | .switch _ e cases otherwise => do
    e.plan
    planBranches cases
    planBlock? otherwise
  | .atomic _ body => planBlock body
  | .ret _ e => planExpr? e
  | .emit .. | .breakLoop _ | .continueLoop _ | .native .. => return

def planStmt? : Option Stmt → Plan Unit
  | none => return
  | some s => s.plan

def planBlock : List Stmt → Plan Unit
  | [] => return
  | s :: ss => do
    s.plan
    planBlock ss

def planBlock? : Option (List Stmt) → Plan Unit
  | none => return
  | some body => planBlock body

def planBranches : List Branch → Plan Unit
  | [] => return
  | ⟨e, body⟩ :: bs => do
    e.plan
    planBlock body
    planBranches bs

def planArms : List Arm → Plan Unit
  | [] => return
  | ⟨patterns, body⟩ :: as => do
    planPatterns patterns
    planBlock body
    planArms as

def planPatterns : List Pattern → Plan Unit
  | [] => return
  | .wildcard _ :: ps => planPatterns ps
  | .value _ e :: ps => do
    e.plan
    planPatterns ps

end

end

def ClassDecl.plan (k : Target) (d : ClassDecl) : Plan Unit := do
  d.fields.forM (·.value.plan k)
  if let some constructor := d.constructor then planBlock k constructor.body
  d.methods.forM (planBlock k ·.value.body)

mutual

def Item.plan (k : Target) : Item → Plan Unit
  | .config _ entries => planFields k entries
  | .module _ _ _ _ program => program.plan k
  | .var _ d => d.plan k
  | .aliasDecl _ _ e _ => e.plan k
  | .function _ d => planBlock k d.body
  | .classDecl _ d => d.plan k
  | .event _ _ body => planBlock k body
  | .interrupt _ d => do
    d.pin.plan k
    planBlock k d.body
  | .task _ d => do
    planExpr? k d.period
    planBlock k d.body
  | .load .. | .nativeInclude .. | .enumDecl .. | .structDecl .. | .signal .. | .native .. => return

def planItems (k : Target) : List Item → Plan Unit
  | [] => return
  | i :: is => do
    i.plan k
    planItems k is

def Program.plan (k : Target) : Program → Plan Unit
  | ⟨_, _, items⟩ => planItems k items

end

/-- The plan for a board, or all misuses of devices. -/
def Program.planHardware (p : Program) (t : SymbolTable) (c : BoardConfig) :
    Except (List (Located HardwareError)) HardwarePlan :=
  let start : Planning := { plan := { family := c.board.family } }
  let s := ((p.plan ⟨t, c.board⟩).run start).2
  if s.errors.isEmpty then .ok s.plan else .error s.errors.toList

end SketchCompiler
