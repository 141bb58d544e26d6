import EffectScript.Text.Quoted
import EffectScript.Text.Column
import EffectScript.Decimal.Layout
import EffectScript.Token.Lexer
import EffectScript.Expression.Parser
import EffectScript.Instruction
import EffectScript.Failure
import EffectScript.DebugTables
import EffectScript.Value.Printer
import EffectScript.Operator
import EffectScript.Lowering
import EffectScript.Listing
import EffectScript.Machine.Step
import EffectScript.Timings
import EffectScript.Script
import EffectScript.FileTree
import EffectScript.Command.Execution
import EffectScript.Main
import EffectScript.Proofs.Safety
import EffectScript.Proofs.Suspension
import EffectScript.Proofs.Attempt
import EffectScript.Proofs.Dispatch
import EffectScript.Proofs.Promotion
import EffectScript.Proofs.Boxes
import EffectScript.Proofs.Capture
import EffectScript.Proofs.Evaluation
import EffectScript.Proofs.EvaluationRuns
import EffectScript.Proofs.Translation
import EffectScript.Proofs.Simulation
import EffectScript.Proofs.Alignment
import EffectScript.Proofs.TwinValues
import EffectScript.Proofs.Lockstep
import EffectScript.Proofs.Unison
import EffectScript.Proofs.TwinDrafts
import EffectScript.Proofs.Pairing
import EffectScript.Proofs.Elision
import EffectScript.Proofs.Allowance
import EffectScript.Proofs.Sketch
import EffectScript.Proofs.Scoping
import EffectScript.Proofs.Description
import EffectScript.Proofs.Surveying
import EffectScript.Proofs.Identifiers
import EffectScript.Proofs.Resolution
import EffectScript.Proofs.Layout
import EffectScript.Proofs.Provenance
import EffectScript.Proofs.Termination
import EffectScript.Proofs.Revision
import EffectScript.Proofs.Indifference
import EffectScript.Proofs.TokenCoverage
import EffectScript.Proofs.ParserBound
import EffectScript.Proofs.ParserRoundTrip
import EffectScript.Proofs.Lexemes
import EffectScript.Proofs.Scanning
import EffectScript.Proofs.Encoding
import EffectScript.Proofs.Spelling
import EffectScript.Proofs.Arrangement
import EffectScript.Proofs.Relocation
import EffectScript.Proofs.Lines
import EffectScript.Proofs.Origin
import EffectScript.Proofs.Naming
import EffectScript.Proofs.Backtrace
import EffectScript.Proofs.Separators
import EffectScript.Proofs.Tabulation
import EffectScript.Proofs.Compilability
import EffectScript.Proofs.Sharing
import EffectScript.Proofs.Identity
import EffectScript.Proofs.Memory
import EffectScript.Proofs.Coherence
import EffectScript.Proofs.Equality
import EffectScript.Proofs.Operands
import EffectScript.Proofs.Entries
import EffectScript.Proofs.Maps
import EffectScript.Proofs.Capacity
import EffectScript.Proofs.Rewriting
import EffectScript.Proofs.PromotionLayout
import EffectScript.Proofs.Balance
import EffectScript.Proofs.Parts
import EffectScript.Proofs.PartBalance
import EffectScript.Proofs.Destinations
import EffectScript.Proofs.Indices
import EffectScript.Proofs.Progress
