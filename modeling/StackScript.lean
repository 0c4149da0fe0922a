import StackScript.Bytes.Reader
import StackScript.Bytes.Varint
import StackScript.Bytes.Writer
import StackScript.Code.Basic
import StackScript.Code.Check
import StackScript.Code.Command
import StackScript.Code.Emitter
import StackScript.Code.File
import StackScript.Code.Listing
import StackScript.Code.OfScript
import StackScript.Code.Opcode
import StackScript.Code.Statistics
import StackScript.CommandLine
import StackScript.CommandLine.Request
import StackScript.Cursor
import StackScript.Decimal
import StackScript.Diagnostic
import StackScript.Engine
import StackScript.Files
import StackScript.Grammar.Expression
import StackScript.Grammar.Rule
import StackScript.Grammar.Script
import StackScript.Grammar.Statement
import StackScript.Log
import StackScript.Machine.Basic
import StackScript.Machine.Host
import StackScript.Machine.Run
import StackScript.Machine.Step
import StackScript.Main
import StackScript.Operator.Apply
import StackScript.Operator.Basic
import StackScript.Position
import StackScript.Rounding
import StackScript.Single.Basic
import StackScript.Single.Text
import StackScript.Text.Column
import StackScript.Text.Hidden
import StackScript.Text.Percent
import StackScript.Text.Quoted
import StackScript.Token
import StackScript.Token.Gap
import StackScript.Token.Kind
import StackScript.Token.Listing
import StackScript.Token.Reader
import StackScript.Token.Scan
import StackScript.Tree.Basic
import StackScript.Tree.Bytes
import StackScript.Tree.Evaluate
import StackScript.Tree.Numbered
import StackScript.Tree.Text
import StackScript.Value
import StackScript.Proofs.Grammar.Productions
import StackScript.Proofs.Grammar.Writing
import StackScript.Proofs.Grammar.Acceptance
import StackScript.Proofs.Code.Checks
import StackScript.Proofs.Code.Heights
import StackScript.Proofs.Code.Independence
import StackScript.Proofs.Code.Patching
import StackScript.Proofs.Code.Relocation
import StackScript.Proofs.Code.Slots
import StackScript.Proofs.Code.Storage
import StackScript.Proofs.Engine.Gates
import StackScript.Proofs.Grammar.Constants
import StackScript.Proofs.Grammar.Grown
import StackScript.Proofs.Grammar.Independence
import StackScript.Proofs.Grammar.Nesting
import StackScript.Proofs.Grammar.Sequence
import StackScript.Proofs.Grammar.Tables
import StackScript.Proofs.Machine.Agreement
import StackScript.Proofs.Machine.Alike
import StackScript.Proofs.Machine.Bounds
import StackScript.Proofs.Machine.Evaluation
import StackScript.Proofs.Machine.Guarded
import StackScript.Proofs.Machine.HostCalls
import StackScript.Proofs.Machine.Integrity
import StackScript.Proofs.Machine.Limits
import StackScript.Proofs.Machine.Recording
import StackScript.Proofs.Machine.Reports
import StackScript.Proofs.Machine.Rerun
import StackScript.Proofs.Operator.Comparisons
import StackScript.Proofs.Operator.Ints
import StackScript.Proofs.Single.Reading
import StackScript.Proofs.Token.Literals
import StackScript.Proofs.Token.Lookahead
import StackScript.Proofs.Token.Respacing
import StackScript.Proofs.Token.Stepping
import StackScript.Proofs.Token.Strings
import StackScript.Proofs.Token.Tiling
import StackScript.Proofs.Tree.Places
import StackScript.Proofs.Tree.Printing
import StackScript.Proofs.Tree.Storage
