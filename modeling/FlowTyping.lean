import FlowTyping.Main
import FlowTyping.Scope.Codec
import FlowTyping.Symbol.Codec
import FlowTyping.Proofs.Analysis.Rebinding
import FlowTyping.Proofs.Analysis.SharedCapture
import FlowTyping.Proofs.Ast.RoundTrip
import FlowTyping.Proofs.Check.ArrowReads
import FlowTyping.Proofs.Check.CatchScope
import FlowTyping.Proofs.Check.FunctionReturns
import FlowTyping.Proofs.Check.ReadMarks
import FlowTyping.Proofs.Check.RecordedTypes
import FlowTyping.Proofs.Check.ShownOptions
import FlowTyping.Proofs.Check.Termination
import FlowTyping.Proofs.Compare.DeMorgan
import FlowTyping.Proofs.Control.Balance
import FlowTyping.Proofs.Definite.Assignment
import FlowTyping.Proofs.Definite.LoopTail
import FlowTyping.Proofs.Flow.Soundness
import FlowTyping.Proofs.Growth.References
import FlowTyping.Proofs.Scope.JoinOrder
import FlowTyping.Proofs.Symbol.Hierarchy
import FlowTyping.Proofs.Symbol.Initializers
import FlowTyping.Proofs.Symbol.Parameters
import FlowTyping.Proofs.Symbol.WrittenSignatures
import FlowTyping.Proofs.Ty.Lowering
import FlowTyping.Proofs.Ty.NarrowedValues
import FlowTyping.Proofs.Ty.PrintedTypes
import FlowTyping.Proofs.Walk.DepthLimit
