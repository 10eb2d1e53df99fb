import Moonfort.CommonSubsequence
import Moonfort.Framing
import Moonfort.Sandbox.Lifecycle
import Moonfort.Sandbox.LocalLinuxBackend
import Moonfort.UnifiedDiff.Minimal
import Moonfort.AenBackend.MessageCodec
import Moonfort.AenBackend.ConnectStream
import Moonfort.Executor.GrantStoreRuns
import Moonfort.Executor.Deployment
import Moonfort.Executor.LiveOutputRuns
import Moonfort.Executor.RetentionBrowser
import Moonfort.Executor.GrantRehearsal
import Moonfort.Executor.RetentionCsv
import Moonfort.Executor.ScratchAccounting
import Moonfort.Executor.RetentionBundle
import Moonfort.AenBackend.ExecReceipts
import Moonfort.AenGuest.WorkspaceDigest
import Moonfort.AenGuest.Supervisor
import Moonfort.AenBackend.StartRequest
import Moonfort.Executor.RetentionCsvCompare
import Moonfort.Executor.RetentionJson
import Moonfort.Executor.RetentionJsonPointer
import Moonfort.Executor.RetentionJsonDraft
import Moonfort.Executor.RetentionTextDraft
import Moonfort.Executor.RetentionCsvAggregate
import Moonfort.Executor.RetentionCsvDraft
import Moonfort.Executor.RetentionCsvEnrichment
import Moonfort.Executor.RetentionHar
import Moonfort.Executor.RetentionLcov
import Moonfort.Tap.Faithfulness
import Moonfort.Executor.RetentionJsonlCsv
import Moonfort.Executor.RetentionTimeline
import Moonfort.Executor.RetentionRunSearch
import Moonfort.Sandbox.ScratchPatch
import Moonfort.Executor.SandboxRoots
import Moonfort.MoonBit.Utf8Cuts
import Moonfort.Executor.ProjectionCuts
import Moonfort.Executor.RetainedOutputSize
import Moonfort.AenBackend.OutputCap
import Moonfort.AenBackend.ChangedPaths
import Moonfort.Sha256
import Moonfort.Tools.LcovAgreement
import Moonfort.Stateful
import Moonfort.Junit.XmlReader
import Moonfort.Junit.XmlReaderSafety
import Moonfort.Junit.XmlSyntax
import Moonfort.Junit.XmlConstructs
import Moonfort.Junit.XmlRoundTrip
import Moonfort.Junit.XmlTexts
import Moonfort.Junit.XmlWriter
import Moonfort.Junit.Report
import Moonfort.Junit.ReportRows
import Moonfort.Junit.SuiteAttributes
import Moonfort.AenGuest.JoinPath
import Moonfort.AenProvisioner.Utf8Names
import Moonfort.TreeSizes
import Moonfort.AenGuest.DirectoryBytes
import Moonfort.LinkChains
import Moonfort.BinarySearch
import Moonfort.LocalSupervisor.ProcessTable
import Moonfort.Tools.CoverageCompare
import Moonfort.Executor.RetentionCsvSummary
