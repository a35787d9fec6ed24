import LintBridge.Linter.Locks
import LintBridge.Session.Dispatch
import LintBridge.Proofs.Text.Lines
import LintBridge.Proofs.Text.Position
import LintBridge.Proofs.Text.Reconcile
import LintBridge.Proofs.Document.Rewriting
import LintBridge.Proofs.Store.Mirror
import LintBridge.Proofs.Toolbox.Learning
import LintBridge.Proofs.Linter.Learning
import LintBridge.Proofs.Session.Resolving
import LintBridge.Proofs.Store.Isolation
import LintBridge.Proofs.Session.Attribution
import LintBridge.Proofs.Session.Withdrawn
import LintBridge.Proofs.Linter.Exclusion
import LintBridge.Proofs.Settings.Configuring
import LintBridge.Proofs.Text.Utf8
import LintBridge.Proofs.Json.Integers
import LintBridge.Proofs.Json.Texts
import LintBridge.Proofs.Json.Written
import LintBridge.Proofs.Document.Echo
import LintBridge.Proofs.Json.Records
import LintBridge.Proofs.Finding.Stated
import LintBridge.Proofs.Diagnostic.Data
import LintBridge.Proofs.Finding.Landing
import LintBridge.Proofs.Session.Mending
import LintBridge.Proofs.Linter.Purpose
import LintBridge.Proofs.Toolbox.Runs
import LintBridge.Proofs.Linter.Gates
import LintBridge.Proofs.Linter.Sending
import LintBridge.Proofs.Session.SingleLayer
import LintBridge.Proofs.Host.Places
import LintBridge.Proofs.Session.Ended
import LintBridge.Proofs.Session.Rounds
import LintBridge.Proofs.Toolbox.Overlapping
import LintBridge.Proofs.Text.Endings
import LintBridge.Proofs.Text.LastLine
import LintBridge.Proofs.Text.Window
import LintBridge.Proofs.Text.Uniform
import LintBridge.Proofs.Text.OneLine
import LintBridge.Proofs.Suppression.InPlace
import LintBridge.Proofs.Document.CellPaths
import LintBridge.Proofs.Suppression.CodeList
import LintBridge.Proofs.Suppression.Covered
import LintBridge.Proofs.Store.Splicing
import LintBridge.Proofs.Finding.Joined
import LintBridge.Proofs.Diagnostic.Returned
import LintBridge.Proofs.CommandLine.Kept
import LintBridge.Proofs.Text.Simultaneous
import LintBridge.Proofs.Text.Split
import LintBridge.Proofs.Path.Ancestors
import LintBridge.Proofs.Settings.Nearest
import LintBridge.Proofs.Toolbox.Searching
import LintBridge.Proofs.Session.Offering
import LintBridge.Proofs.Text.Places
import LintBridge.Proofs.Store.Ranges
import LintBridge.Proofs.Store.Reopening
import LintBridge.Proofs.Suppression.Maximal
import LintBridge.Proofs.Suppression.Blocks
import LintBridge.Proofs.Version.Strict
import LintBridge.Proofs.Version.Lenient
import LintBridge.Proofs.Version.Order
import LintBridge.Proofs.Capability.Growing
import LintBridge.Proofs.Text.Division
import LintBridge.Proofs.CommandLine.Ranges
import LintBridge.Proofs.Finding.Floor
