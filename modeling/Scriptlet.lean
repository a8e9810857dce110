import Scriptlet.Main
import Scriptlet.Program.Render
import Scriptlet.Proofs.Token.Lexeme
import Scriptlet.Proofs.Grammar.Depth
import Scriptlet.Proofs.Grammar.Outcome
import Scriptlet.Proofs.Grammar.Derivation
import Scriptlet.Proofs.Grammar.Steps
import Scriptlet.Proofs.Grammar.Completeness
import Scriptlet.Proofs.Grammar.Soundness
import Scriptlet.Proofs.Grammar.Sequence
import Scriptlet.Proofs.Grammar.Pieces
import Scriptlet.Proofs.Grammar.Braces
import Scriptlet.Proofs.Grammar.Context
import Scriptlet.Proofs.Grammar.Terrain
import Scriptlet.Proofs.Grammar.Uniform
import Scriptlet.Proofs.Grammar.Barrier
import Scriptlet.Proofs.Grammar.Containment
import Scriptlet.Proofs.Evaluation.Depth
import Scriptlet.Proofs.Evaluation.Ends
import Scriptlet.Proofs.Evaluation.Pairing
import Scriptlet.Proofs.Evaluation.Agreement
import Scriptlet.Proofs.Evaluation.Invariant
import Scriptlet.Proofs.Evaluation.Frame
import Scriptlet.Proofs.Evaluation.Points
import Scriptlet.Proofs.Evaluation.Throughout
import Scriptlet.Proofs.Evaluation.Turns
import Scriptlet.Proofs.Evaluation.Signals
import Scriptlet.Proofs.Evaluation.Relocation
import Scriptlet.Proofs.Evaluation.Linked
import Scriptlet.Proofs.Evaluation.Repetition
import Scriptlet.Proofs.Evaluation.Reach
import Scriptlet.Proofs.Evaluation.Unwinding
import Scriptlet.Proofs.Evaluation.PointInduction
import Scriptlet.Proofs.Evaluation.Names
import Scriptlet.Proofs.Evaluation.Faults
import Scriptlet.Proofs.Token.Tokenization
import Scriptlet.Proofs.Rendering.RoundTrip
import Scriptlet.Proofs.Grammar.Lookahead
import Scriptlet.Proofs.Grammar.Termination
import Scriptlet.Proofs.Grammar.FirstError
import Scriptlet.Proofs.Grammar.Places
import Scriptlet.Proofs.Token.Layout
import Scriptlet.Proofs.Token.Touching
import Scriptlet.Proofs.Session.Layout
import Scriptlet.Proofs.Session.Parts
import Scriptlet.Proofs.Shell.Transcript
import Scriptlet.Proofs.Grammar.FirstEnd
import Scriptlet.Proofs.Grammar.Reported
import Scriptlet.Proofs.Text.Margins
import Scriptlet.Proofs.CommandLine.OneLine
import Scriptlet.Proofs.Store.Bindings
import Scriptlet.Proofs.Store.EditLog
import Scriptlet.Proofs.Evaluation.LateBinding
import Scriptlet.Proofs.Grammar.Thrift
import Scriptlet.Proofs.Grammar.SourceOrder
import Scriptlet.Proofs.Evaluation.Arithmetic
import Scriptlet.Proofs.Shell.Truncation
import Scriptlet.Proofs.Grammar.Numeral
import Scriptlet.Proofs.Session.Numerals
import Scriptlet.Proofs.Evaluation.Recursion
import Scriptlet.Proofs.Session.Recursion
import Scriptlet.Proofs.Grammar.Demand
import Scriptlet.Proofs.Session.Lineage
import Scriptlet.Proofs.Grammar.Script
import Scriptlet.Proofs.Grammar.Closing
