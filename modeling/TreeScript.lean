import TreeScript.Arithmetic
import TreeScript.CallStack
import TreeScript.CommandLine
import TreeScript.Decimal.Layout
import TreeScript.Decimal.Shortest
import TreeScript.Directory
import TreeScript.Double
import TreeScript.Eval
import TreeScript.Failure
import TreeScript.HostFunction
import TreeScript.Json
import TreeScript.Json.Reader
import TreeScript.Json.Token
import TreeScript.Json.Writer
import TreeScript.Main
import TreeScript.Node
import TreeScript.Node.Decode
import TreeScript.Node.Dump
import TreeScript.Node.Encode
import TreeScript.Node.Equality
import TreeScript.Operator
import TreeScript.Options
import TreeScript.Policy
import TreeScript.Run
import TreeScript.Session
import TreeScript.Span
import TreeScript.Store
import TreeScript.Store.Dump
import TreeScript.Text.Quoted
import TreeScript.Text.Visible
import TreeScript.Value
import TreeScript.Value.Equality
import TreeScript.Value.Text
import TreeScript.World
import TreeScript.Proofs.Correspondence
import TreeScript.Proofs.Invariance
import TreeScript.Proofs.Balance
import TreeScript.Proofs.Accord
import TreeScript.Proofs.Simulation
import TreeScript.Proofs.Termination
import TreeScript.Proofs.Growth
import TreeScript.Proofs.Lexical
import TreeScript.Proofs.Curtailment
import TreeScript.Proofs.Faults
import TreeScript.Proofs.Relaxation
import TreeScript.Proofs.Declarations
import TreeScript.Proofs.JsonText
import TreeScript.Proofs.RoundTrip
import TreeScript.Proofs.Operands
import TreeScript.Proofs.Raise
import TreeScript.Proofs.Backtrace
import TreeScript.Proofs.Location
import TreeScript.Proofs.Erasure
import TreeScript.Proofs.Indifference
import TreeScript.Proofs.Respelling
import TreeScript.Proofs.Fields
import TreeScript.Proofs.Spelling
import TreeScript.Proofs.Rounding
import TreeScript.Proofs.Reload
import TreeScript.Proofs.Truth
import TreeScript.Proofs.Confinement
import TreeScript.Proofs.Unmentioned
import TreeScript.Proofs.Nesting
import TreeScript.Proofs.Pieces
import TreeScript.Proofs.Updates
import TreeScript.Proofs.Resolution
import TreeScript.Proofs.Parameters
import TreeScript.Proofs.Display
import TreeScript.Proofs.Effects
import TreeScript.Proofs.Literals
import TreeScript.Proofs.Properties
import TreeScript.Proofs.Equality
import TreeScript.Proofs.Arguments
