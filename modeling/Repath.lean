import Repath.Text.Cuts
import Repath.Double.Shortest
import Repath.Utf8
import Repath.Json.Printer
import Repath.Json.Reader
import Repath.ImportLine
import Repath.Rule
import Repath.Config
import Repath.Pass
import Repath.Trial
import Repath.Exemption
import Repath.Edit
import Repath.Diff.Snake
import Repath.Diff.Compaction
import Repath.Diff.Unified
import Repath.PathName
import Repath.Report
import Repath.ScriptedDocument
import Repath.Session
import Repath.Glob.Bytes
import Repath.Files.Disk
import Repath.Files.Reading
import Repath.Files.SourceFile
import Repath.Failure
import Repath.Files.SettingsFile
import Repath.Service
import Repath.Watch
import Repath.Arguments
import Repath.Follower
import Repath.CommandLine
import Repath.Main
import Repath.Proofs.Text.Trim
import Repath.Proofs.ImportLine
import Repath.Proofs.Text.Substitution
import Repath.Proofs.Text.Lines
import Repath.Proofs.Text.Clash
import Repath.Proofs.Text.Cuts
import Repath.Proofs.Text.Separator
import Repath.Proofs.Text.LineEnds
import Repath.Proofs.Pass.Chain
import Repath.Proofs.Pass.Apply
import Repath.Proofs.Pass.Collapse
import Repath.Proofs.Pass.Records
import Repath.Proofs.Edit
import Repath.Proofs.LiveDocument
import Repath.Proofs.Pass.Commit
import Repath.Proofs.Pass.Rewrite
import Repath.Proofs.Trial
import Repath.Proofs.Pass.LineEnds
import Repath.Proofs.Pass.LineNumbers
import Repath.Proofs.Report
import Repath.Proofs.Session.Save
import Repath.Proofs.Cooldown
import Repath.Proofs.Session.Run
import Repath.Proofs.Json
import Repath.Proofs.Rule
import Repath.Proofs.Settings
import Repath.Proofs.Settings.Shapes
import Repath.Proofs.Glob.Reach
import Repath.Proofs.Glob.Tokens
import Repath.Proofs.Glob.Regex
import Repath.Proofs.Files.Disk
import Repath.Proofs.Files.SharedFile
import Repath.Proofs.Session.Undone
import Repath.Proofs.Files.SettingsFile
import Repath.Proofs.Session.Exempt
import Repath.Proofs.Session.Validated
import Repath.Proofs.Files.SourceFile
import Repath.Proofs.Service
import Repath.Proofs.Json.Reader
import Repath.Proofs.Json.Readback
import Repath.Proofs.Files.SavedRules
import Repath.Proofs.Cooldown.History
import Repath.Proofs.Utf8.WellFormed
import Repath.Proofs.Files.Decoding
import Repath.Proofs.Diff.Compaction
import Repath.Proofs.Diff.Blocks
import Repath.Proofs.Diff.Unified
import Repath.Proofs.Glob.ByteTokens
import Repath.Proofs.Glob.BytePatterns
import Repath.Proofs.Glob.MatcherSize
import Repath.Proofs.Watch
