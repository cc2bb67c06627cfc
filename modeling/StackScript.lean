import StackScript.CommandLine
import StackScript.Main
import StackScript.Proofs.Syntax.Grammar
import StackScript.Proofs.Drafting.Tree
import StackScript.Proofs.Drafting.Reading
import StackScript.Proofs.Parsing.Derivation
import StackScript.Proofs.Parsing.Blame
import StackScript.Proofs.Parsing.Agreement
import StackScript.Proofs.Parsing.Statement
import StackScript.Proofs.Parsing.Recognition
import StackScript.Proofs.Parsing.Program
import StackScript.Proofs.Assembly.Asm
import StackScript.Proofs.Assembly.Fragment
import StackScript.Proofs.Assembly.Generation
import StackScript.Proofs.Drafting.Writing
import StackScript.Proofs.Drafting.Exact
import StackScript.Proofs.Assembly.Rules
import StackScript.Proofs.Drafting.Emission
import StackScript.Proofs.Drafting.Control
import StackScript.Proofs.Drafting.Blocks
import StackScript.Proofs.Drafting.Statement
import StackScript.Proofs.Language
import StackScript.Proofs.Machine.Symbolic
import StackScript.Proofs.Machine.Height
import StackScript.Proofs.Machine.Balance
import StackScript.Proofs.Machine.Safety
import StackScript.Proofs.Machine.Names
import StackScript.Proofs.Integrity
import StackScript.Proofs.Machine.Moves
import StackScript.Proofs.Semantics.Evaluation
import StackScript.Proofs.Semantics.Simulation
import StackScript.Proofs.Semantics.Instructions
import StackScript.Proofs.Semantics.Expressions
import StackScript.Proofs.Semantics.Statements
import StackScript.Proofs.Preservation
import StackScript.Proofs.Machine.Congruence
import StackScript.Proofs.Machine.Shift
import StackScript.Proofs.Machine.Course
import StackScript.Proofs.Assembly.Concatenation
import StackScript.Proofs.Assembly.Spans
import StackScript.Proofs.Incremental
import StackScript.Proofs.Machine.Trail
import StackScript.Proofs.Machine.Strict
import StackScript.Proofs.Containment
import StackScript.Proofs.Machine.Bounds
import StackScript.Proofs.Limits
import StackScript.Proofs.Assembly.Origins
import StackScript.Proofs.Attribution
import StackScript.Proofs.Lexing.Gaps
import StackScript.Proofs.Lexing.Places
import StackScript.Proofs.Lexing.Scans
import StackScript.Proofs.Lexing.Calls
import StackScript.Proofs.Tiling
import StackScript.Proofs.Text.Encoding
import StackScript.Proofs.Lexing.Classes
import StackScript.Proofs.LongestMatch
import StackScript.Proofs.Parsing.Pairing
import StackScript.Proofs.Parsing.Watching
import StackScript.Proofs.Parsing.Journal
import StackScript.Proofs.FaultOrder
import StackScript.Proofs.Locality
import StackScript.Proofs.Assembly.LineTable
import StackScript.Proofs.Drafting.Lines
import StackScript.Proofs.Lexing.Windows
import StackScript.Proofs.Tables
import StackScript.Proofs.Machine.Hosts
import StackScript.Proofs.Session.Busy
import StackScript.Proofs.Session.Input
import StackScript.Proofs.LastError
import StackScript.Proofs.Reentrancy
import StackScript.Proofs.Layout
import StackScript.Proofs.Termination
import StackScript.Proofs.Excerpts
import StackScript.Proofs.Gathering
import StackScript.Proofs.Listings
import StackScript.Proofs.Lexing.Spelling
import StackScript.Proofs.Session.Channels
import StackScript.Proofs.RoundTrip
import StackScript.Proofs.Machine.Bisimulation
import StackScript.Proofs.Session.Twins
import StackScript.Proofs.Traceless
import StackScript.Proofs.LineLookup
import StackScript.Proofs.Relexing
import StackScript.Proofs.Syntax.Parts
import StackScript.Proofs.Drafting.Likeness
import StackScript.Proofs.Drafting.Replacement
import StackScript.Proofs.CompoundAssignment
import StackScript.Proofs.Session.Abreast
import StackScript.Proofs.Episodes
import StackScript.Proofs.Snapshots
import StackScript.Proofs.Arithmetic
import StackScript.Proofs.Comparison
import StackScript.Proofs.Drafting.History
import StackScript.Proofs.Drafting.Scopes
import StackScript.Proofs.ScopeBalance
import StackScript.Proofs.Escapes
import StackScript.Proofs.Progress
import StackScript.Proofs.Assembly.Outline
import StackScript.Proofs.Assembly.Tracing
import StackScript.Proofs.SpanNesting
import StackScript.Proofs.Drafting.Ledger
import StackScript.Proofs.Drafting.Bookkeeping
import StackScript.Proofs.ConstantPool
