import SketchCompiler.Main
import SketchCompiler.Proofs.EmittedStructure
import SketchCompiler.Proofs.OperatorSequences
import SketchCompiler.Proofs.ChoiceRuns
import SketchCompiler.Proofs.InterruptCalls
import SketchCompiler.Proofs.LoweredCalls
import SketchCompiler.Proofs.StringLiterals
import SketchCompiler.Proofs.LineScans
import SketchCompiler.Proofs.QualifiedNames
import SketchCompiler.Proofs.SketchHandlers
import SketchCompiler.Proofs.EntryPoints
import SketchCompiler.Proofs.WrittenInterrupts
import SketchCompiler.Proofs.NearestNames
import SketchCompiler.Proofs.InvertedRanges
import SketchCompiler.Proofs.TextLines
import SketchCompiler.Proofs.CommonUnits
