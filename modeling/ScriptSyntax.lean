import ScriptSyntax.Command.Folder
import ScriptSyntax.Command.Options
import ScriptSyntax.Command.Report
import ScriptSyntax.Diagnostic
import ScriptSyntax.Fault
import ScriptSyntax.Lexeme
import ScriptSyntax.Lexicon
import ScriptSyntax.Main
import ScriptSyntax.Outline
import ScriptSyntax.Phrase
import ScriptSyntax.Phrase.Unfolding
import ScriptSyntax.Position
import ScriptSyntax.Production
import ScriptSyntax.Production.Laws
import ScriptSyntax.Production.Recursion
import ScriptSyntax.Program
import ScriptSyntax.Proofs.Acceptance
import ScriptSyntax.Proofs.Completeness
import ScriptSyntax.Proofs.Composition
import ScriptSyntax.Proofs.Conformance
import ScriptSyntax.Proofs.Conservation
import ScriptSyntax.Proofs.Failure
import ScriptSyntax.Proofs.Grammar
import ScriptSyntax.Proofs.Locality
import ScriptSyntax.Proofs.Schema
import ScriptSyntax.Proofs.Segmentation
import ScriptSyntax.Proofs.Spelling
import ScriptSyntax.Proofs.Tiling
import ScriptSyntax.Proofs.Viability
import ScriptSyntax.Scanner
import ScriptSyntax.Session
import ScriptSyntax.Text.Blank
import ScriptSyntax.Text.Bytes
import ScriptSyntax.Text.Extender
import ScriptSyntax.Text.Lines
import ScriptSyntax.Text.Quoted
import ScriptSyntax.Text.RangeTable
import ScriptSyntax.Text.Unprintable
import ScriptSyntax.Token
import ScriptSyntax.Tree
import ScriptSyntax.Proofs.Lockstep
import ScriptSyntax.Proofs.Layout
import ScriptSyntax.Proofs.Sessions
import ScriptSyntax.Proofs.Writing
import ScriptSyntax.Proofs.RoundTrip
import ScriptSyntax.Proofs.Concatenation
import ScriptSyntax.Proofs.Relocation
import ScriptSyntax.Proofs.SourceNames
import ScriptSyntax.Proofs.Quotation
import ScriptSyntax.Proofs.Outlines
import ScriptSyntax.Proofs.Dressing
import ScriptSyntax.Proofs.Truncation
import ScriptSyntax.Proofs.Excerpts
import ScriptSyntax.Proofs.Division
import ScriptSyntax.Proofs.Diagnostics
import ScriptSyntax.Proofs.Chains
import ScriptSyntax.Proofs.SourceLines
import ScriptSyntax.Proofs.FaultReports
import ScriptSyntax.Proofs.Attachment
import ScriptSyntax.Proofs.HiddenTrivia
import ScriptSyntax.Proofs.Loops
import ScriptSyntax.Proofs.Progress
import ScriptSyntax.Proofs.Lookahead
import ScriptSyntax.Proofs.Editing
import ScriptSyntax.Proofs.Appending
import ScriptSyntax.Proofs.ScannerTurns
