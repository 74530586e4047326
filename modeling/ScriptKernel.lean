import ScriptKernel.Main
import ScriptKernel.Parse.OperatorTable
import ScriptKernel.Proofs.Layout.BlockLevels
import ScriptKernel.Proofs.Parse.Climbing
import ScriptKernel.Proofs.Machine.ScopeDiscipline
import ScriptKernel.Proofs.Lumen.Rendering
import ScriptKernel.Proofs.Parse.Reads
import ScriptKernel.Proofs.Source.PairedLexemes
import ScriptKernel.Proofs.Lumen.Cursor
import ScriptKernel.Proofs.Lumen.Blocks
import ScriptKernel.Proofs.Lumen.Layout
import ScriptKernel.Proofs.Text.Utf8
import ScriptKernel.Proofs.Number.Shortest
import ScriptKernel.Proofs.Parse.Yields
import ScriptKernel.Proofs.Parse.DepthBound
import ScriptKernel.Proofs.Lumen.WellFormed
import ScriptKernel.Proofs.Lumen.DepthBound
import ScriptKernel.Proofs.Lumen.RoundTrip
import ScriptKernel.Proofs.MiniRust.Memoization
import ScriptKernel.Proofs.Layout.WordBoundaries
import ScriptKernel.Proofs.Machine.CacheSharing
import ScriptKernel.Proofs.Machine.ArrayForest
import ScriptKernel.Proofs.Source.LexemeTables
import ScriptKernel.Proofs.Source.MaximalMunch
import ScriptKernel.Proofs.MiniRust.RoundTrip
import ScriptKernel.Proofs.Session.Progress
import ScriptKernel.Proofs.Session.Denial
import ScriptKernel.Proofs.Layout.Balance
import ScriptKernel.Proofs.Session.Positions
import ScriptKernel.Proofs.Machine.LoopSignals
import ScriptKernel.Proofs.Session.CallBound
import ScriptKernel.Proofs.Layout.Steps
import ScriptKernel.Proofs.Lumen.IgnoredLines
import ScriptKernel.Proofs.Session.Entries
import ScriptKernel.Proofs.Parse.Transfer
import ScriptKernel.Proofs.MiniRust.Annotations
import ScriptKernel.Proofs.MiniRust.Trivia
import ScriptKernel.Proofs.MiniRust.IntegerArithmetic
import ScriptKernel.Proofs.Session.SoundPrograms
import ScriptKernel.Proofs.Session.Presence
import ScriptKernel.Proofs.Layout.Retention
import ScriptKernel.Proofs.Lumen.Sequences
import ScriptKernel.Proofs.Session.UnfinishedEntries
import ScriptKernel.Proofs.MiniRust.Templates
import ScriptKernel.Proofs.Capability.SelectorTexts
import ScriptKernel.Proofs.Capability.Grouping
import ScriptKernel.Proofs.Session.StringLiterals
import ScriptKernel.Proofs.Lumen.Comparison
import ScriptKernel.Proofs.Machine.Assignments
import ScriptKernel.Proofs.Machine.ArgumentKeys
import ScriptKernel.Proofs.Lumen.Memoization
