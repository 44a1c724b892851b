import EvidenceV4.CheckedExcept
import EvidenceV4.Transaction
import EvidenceV4.PrefixLog
import EvidenceV4.StableGrouping
import EvidenceV4.Supersession
import EvidenceV4.RequirementWalk
import EvidenceV4.Schema
import EvidenceV4.Utf8Order
import EvidenceV4.PolicyDocument
import EvidenceV4.PolicyExpansion
import EvidenceV4.StoreDocument
import EvidenceV4.RetainedFiles
import EvidenceV4.FilePublication
import EvidenceV4.ExecutionArchive
import EvidenceV4.RetainedHistory
import EvidenceV4.HistoryInvariant
import EvidenceV4.CandidateSelection
import EvidenceV4.PortableEligibility
import EvidenceV4.Generation
import EvidenceV4.RunAssessment
import EvidenceV4.RunPublication
import EvidenceV4.TransitionRun
import EvidenceV4.Scheduler
import EvidenceV4.SchedulerSafety
import EvidenceV4.HistoryAppend
import EvidenceV4.HistoryRun
import EvidenceV4.ExpansionMembers
import EvidenceV4.JsonText
import EvidenceV4.Utf16
import EvidenceV4.CanonicalJson
import EvidenceV4.CanonicalRoundTrip
import EvidenceV4.CheckerJson
import EvidenceV4.JsonAgreement
import EvidenceV4.JsonIdentity
import EvidenceV4.TextCode
import EvidenceV4.VerifiedInputs
import EvidenceV4.VerifiedInputsAgreement
import EvidenceV4.SourceSelection
import EvidenceV4.DescriptorKey
import EvidenceV4.Raising
import EvidenceV4.ObligationManifest
import EvidenceV4.PortableHistory
import EvidenceV4.PackagePolicy
import EvidenceV4.PortableAssessment
import EvidenceV4.PortableRows
import EvidenceV4.PortableVerdict
import EvidenceV4.AssessmentFailures
import EvidenceV4.AssessmentReports
import EvidenceV4.PythonData
import EvidenceV4.Findings
import EvidenceV4.EvidenceArtifact
import EvidenceV4.GateManifest
import EvidenceV4.RepositoryTree
import EvidenceV4.GateRecord
import EvidenceV4.GateValidation
import EvidenceV4.GateRun
import EvidenceV4.GateVerdict
import EvidenceV4.ArtifactIdentity
import EvidenceV4.DashboardManifest
import EvidenceV4.CoverageDashboard
import EvidenceV4.GateCoverage
import EvidenceV4.ScalarText
import EvidenceV4.ProducerArtifact
import EvidenceV4.ProducerManifest
import EvidenceV4.MigrationState
import EvidenceV4.MigrationIntent
import EvidenceV4.MigrationManifest
import EvidenceV4.MigrationRuns
import EvidenceV4.MigrationInputs
import EvidenceV4.MigrationBuild
import EvidenceV4.MigrationRules
import EvidenceV4.MigrationRun
import EvidenceV4.MigrationIds
import EvidenceV4.MigratedManifest
import EvidenceV4.MigrationClaims
import EvidenceV4.MigrationCoverage
import EvidenceV4.PyramidPlan
import EvidenceV4.PyramidFloors
import EvidenceV4.PyramidRun
import EvidenceV4.PlanDeclarations
import EvidenceV4.PyramidVerdict
import EvidenceV4.PyramidBacking
import EvidenceV4.LineText
import EvidenceV4.PromptFence
import EvidenceV4.PromptBlocks
import EvidenceV4.PromptConfinement
import EvidenceV4.PanelGuard
import EvidenceV4.PanelRun
import EvidenceV4.PanelVerdict
import EvidenceV4.ObligationSpec
import EvidenceV4.ObligationCheck
import EvidenceV4.ObligationVerdict
import EvidenceV4.ObligationSoundness
import EvidenceV4.RunManifest
import EvidenceV4.ManifestProtocol
import EvidenceV4.ManifestRecord
import EvidenceV4.ManifestInvariant
import EvidenceV4.ManifestSafety
import EvidenceV4.JsonPointer
import EvidenceV4.ObservationPointer
import EvidenceV4.Calendar
import EvidenceV4.Timestamp
import EvidenceV4.PolicyRoundTrip
import EvidenceV4.GateTotality
import EvidenceV4.RawLog
import EvidenceV4.PointerReplacement
import EvidenceV4.ShellCommand
import EvidenceV4.MigrationCommands
import EvidenceV4.ToolManifest
import EvidenceV4.ToolLinks
import EvidenceV4.ToolHashes
import EvidenceV4.ToolReconstruction
import EvidenceV4.ToolAcceptance
import EvidenceV4.OrderedRecord
import EvidenceV4.ChildEnvironment
import EvidenceV4.VoiceVerdict
import EvidenceV4.AxiomGate
import EvidenceV4.TraceReplay
import EvidenceV4.SeparatedFields
import EvidenceV4.TreeDigest
import EvidenceV4.JsonPrefix
import EvidenceV4.BenchmarkFindings
import EvidenceV4.FindingsBlock
import EvidenceV4.FindingsExactness
import EvidenceV4.OutputCapture
import EvidenceV4.ToolPaths
import EvidenceV4.LeanSelection
import EvidenceV4.AncestorWalk
import EvidenceV4.ElanAgreement
import EvidenceV4.GraphExploration
import EvidenceV4.NativeImages
import EvidenceV4.NativeClosure
import EvidenceV4.NativeTermination
import EvidenceV4.NativeDiscovery
import EvidenceV4.LoggedReads
import EvidenceV4.ElfReader
import EvidenceV4.ElfEncoding
import EvidenceV4.ElfLoops
import EvidenceV4.ElfRoundTrip
import EvidenceV4.LinuxLinkage
import EvidenceV4.LinuxLoader
import EvidenceV4.LinuxDiscovery
import EvidenceV4.FramedStream
import EvidenceV4.ControlPipe
import EvidenceV4.ControlRun
import EvidenceV4.PortableOwnership
import EvidenceV4.OwnedCells
import EvidenceV4.LockFiles
import EvidenceV4.LockSafety
import EvidenceV4.LockRecovery
import EvidenceV4.DiskTree
import EvidenceV4.RaisingTriples
import EvidenceV4.MigrationApply
import EvidenceV4.MigrationInvariant
import EvidenceV4.MigrationMoves
import EvidenceV4.MigrationRollback
import EvidenceV4.MigrationRestore
