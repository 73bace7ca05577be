import BreezeDesk.Library.Ranges
import BreezeDesk.Database.Transactions
import BreezeDesk.Database.Schema
import BreezeDesk.Library.Transaction
import BreezeDesk.Library.Runs
import BreezeDesk.App.ChunkCommit
import BreezeDesk.Jobs.LeaseFencing
import BreezeDesk.Jobs.StateHistory
import BreezeDesk.Jobs.InterruptedRecovery
import BreezeDesk.Library.Process
import BreezeDesk.Resume.Resumption
import BreezeDesk.Ipc.Authentication
import BreezeDesk.Ipc.AsrWorkerClient
import BreezeDesk.Ipc.CommandForwarding
import BreezeDesk.Worker.HandOff
import BreezeDesk.Transcript.CurrentTranscript
import BreezeDesk.Transcript.ActiveTranscript
import BreezeDesk.Transcript.SegmentOrder
import BreezeDesk.Transcript.EditProtection
import BreezeDesk.Glossary.PostProcessor
import BreezeDesk.Library.Patch
import BreezeDesk.Asr.ChunkPlanDecoding
import BreezeDesk.Asr.WorkerSegments
import BreezeDesk.Asr.OverlapDeduplicator
import BreezeDesk.Audio.OrphanCleanup
import BreezeDesk.Audio.LayoutAgreement
import BreezeDesk.Ui.SavedTranscript
import BreezeDesk.Jobs.EventLog
import BreezeDesk.Jobs.QueueOrder
import BreezeDesk.Database.ArtifactDeletion
import BreezeDesk.Database.SearchIndex
import BreezeDesk.App.BoundaryTexts
import BreezeDesk.Models.DownloadHeaders
import BreezeDesk.Models.DownloadOperation
import BreezeDesk.Models.DownloadSafety
import BreezeDesk.Asr.StreamingVadSegmenter
import BreezeDesk.Asr.BoundaryChoice
import BreezeDesk.Resume.WorkerRanges
import BreezeDesk.Glossary.Selections
import BreezeDesk.Ui.GlossarySelections
import BreezeDesk.App.ModelTestLifecycle
import BreezeDesk.Database.MigrationResume
import BreezeDesk.Transcript.Editor
import BreezeDesk.Ui.EditHistory
import BreezeDesk.Transcript.SplitMerge
import BreezeDesk.Transcript.ExportSyntax
import BreezeDesk.Glossary.Stability
import BreezeDesk.Asr.PromptTokenBudget
import BreezeDesk.Database.DatabaseSearchService
import BreezeDesk.App.WorkerProcessManager
import BreezeDesk.Ui.JobListModel
import BreezeDesk.Jobs.Progress
import BreezeDesk.Glossary.GlossarySerializer
import BreezeDesk.Audio.MediaMetadata
import BreezeDesk.Glossary.SingleGlossary
import BreezeDesk.Glossary.SqliteGlossaryRepository
import BreezeDesk.Core.TemporaryFileJanitor
import BreezeDesk.Library.Progress
import BreezeDesk.Ui.FolderImport
import BreezeDesk.Ui.FolderImportAccounts
import BreezeDesk.Ui.FolderImportProgress
import BreezeDesk.Library.Bisection
import BreezeDesk.Library.Rotation
import BreezeDesk.Core.ApplicationLogger
import BreezeDesk.Library.Windows
import BreezeDesk.Audio.WaveformCache
import BreezeDesk.Audio.WaveformGenerator
import BreezeDesk.Library.Effects
import BreezeDesk.Cli.Persistence
import BreezeDesk.Jobs.Parameters
import BreezeDesk.Cli.SourceBinding
import BreezeDesk.Library.Mirror
import BreezeDesk.Cli.StoppedChunks
import BreezeDesk.App.TranscriptionCoordinator
import BreezeDesk.App.TranscriptionStages
import BreezeDesk.App.TranscriptionEvents
import BreezeDesk.Library.Ledger
import BreezeDesk.App.RunFrame
import BreezeDesk.App.RunInvariant
import BreezeDesk.App.RunSteps
import BreezeDesk.App.RunEndings
import BreezeDesk.App.RunPlaces
import BreezeDesk.App.RunStages
import BreezeDesk.App.RunMessages
import BreezeDesk.App.RunCallbacks
import BreezeDesk.App.RunEvents
import BreezeDesk.App.RunLog
