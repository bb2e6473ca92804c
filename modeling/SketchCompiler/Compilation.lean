import SketchCompiler.Clamping
import SketchCompiler.Module.Link
import SketchCompiler.Sketch.Program
import SketchCompiler.Symbol.Declare

namespace SketchCompiler

namespace Phase

/-- The configuration, with its errors as a report. -/
def config (p : Program) : Except Report BoardConfig :=
  p.boardConfig.mapError (Report.ofErrors "Semantic error" ConfigError.message)

def names (p : Program) : Program × Except Report SymbolTable :=
  let (p, result) := p.resolveNames
  (p, result.mapError (Report.ofErrors "Semantic error" NameError.message))

def interrupts (p : Program) (t : SymbolTable) : Except Report VolatileSet :=
  (p.checkInterrupts t).mapError (Report.ofErrors "Interrupt safety error" InterruptError.message)

def ranges (p : Program) : Program × Except Report RangeTable :=
  let (p, result) := p.clampRanges
  (p, result.mapError (Report.ofErrors "Semantic error" RangeError.message))

def hardware (p : Program) (t : SymbolTable) (c : BoardConfig) : Except Report HardwarePlan :=
  (p.planHardware t c).mapError (Report.ofErrors "Hardware error" HardwareError.message)

end Phase

/-- Choices beside the program: `board` takes the place of the configured one. -/
structure CompileOptions where
  board : Option Board := none
  flags : EmitFlags := {}

structure Compilation where
  code : String
  hasMain : Bool
  volatileNames : List String
  config : BoardConfig
  channels : List (String × Nat)

def BoardConfig.withBoard (c : BoardConfig) (board : Option Board) : BoardConfig :=
  { c with board := board.getD c.board }

/-- Compiles the main unit `name` with the given text. -/
def compile (name text : String) (loader : Loader) (options : CompileOptions) : Except Report Compilation := do
  let p ← Program.ofText name text
  let (p, linked) := p.link loader
  let linked ← linked
  let config := (← Phase.config p).withBoard options.board
  let (p, table) := Phase.names p
  let table ← table
  let volatile ← Phase.interrupts p table
  let (p, ranges) := Phase.ranges p
  let _ ← ranges
  let plan ← Phase.hardware p table config
  return {
    code := p.sketch { table, volatile, plan, config, flags := options.flags }
    hasMain := linked.hasMain
    volatileNames := volatile.names table
    config
    channels := plan.channels }

end SketchCompiler
