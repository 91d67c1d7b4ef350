import AgenticPlatform.CandidateSelection
import AgenticPlatform.Maintenance
import AgenticPlatform.StageEffects
import AgenticPlatform.Cancellation
import AgenticPlatform.JobQueueTokens
import AgenticPlatform.JobQueueFencing
import AgenticPlatform.Interleaving
import AgenticPlatform.TerminalJobs
import AgenticPlatform.OpenTransactions
import AgenticPlatform.Publication
import AgenticPlatform.RunTransactions
import AgenticPlatform.WorkspaceRelease
import AgenticPlatform.QueueEquivalence
import AgenticPlatform.WorkflowProgress
import AgenticPlatform.WorkflowBounds
import AgenticPlatform.WorkerDraining
import AgenticPlatform.EventReplay
import AgenticPlatform.RunGuarantees
import AgenticPlatform.RunDiscipline
import AgenticPlatform.JobDiscipline
import AgenticPlatform.CandidateEvidence
import AgenticPlatform.PlannerOutput
import AgenticPlatform.DocumentMappers
import AgenticPlatform.RegistryTimes
import AgenticPlatform.EventCodecs
import AgenticPlatform.EventLog
import AgenticPlatform.RunCoordinator
import AgenticPlatform.RedisLock
import AgenticPlatform.WorkerAgent
import AgenticPlatform.CreateRun
import AgenticPlatform.WarmRestart
import AgenticPlatform.RunPodClient
import AgenticPlatform.LinkedTree
import AgenticPlatform.FilePaths
import AgenticPlatform.WorkspaceTools
import AgenticPlatform.FileWrites
import AgenticPlatform.CoderOutput
import AgenticPlatform.WorkspaceFiles
import AgenticPlatform.WorkerCapacity
import AgenticPlatform.WorkerRegistration
import AgenticPlatform.ClaimOrder
import AgenticPlatform.EditFrame
import AgenticPlatform.RepairTarget
import AgenticPlatform.BatchWrites
import AgenticPlatform.WrittenTexts
import AgenticPlatform.SchedulingPolicies
import AgenticPlatform.BoundedBacklog
import AgenticPlatform.StampedDiscipline
import AgenticPlatform.JobTimes
import AgenticPlatform.RedactedArgv
import AgenticPlatform.Redaction
import AgenticPlatform.SizeAuthority
import AgenticPlatform.VerifiedMarker
import AgenticPlatform.PodSettings
import AgenticPlatform.CappedReading
import AgenticPlatform.PublicPayload
import AgenticPlatform.StructuredCompletion
import AgenticPlatform.SearchMatches
import AgenticPlatform.BearerCredentials
import AgenticPlatform.Excerpts
import AgenticPlatform.Subscriptions
import AgenticPlatform.ExecutorSlots
import AgenticPlatform.InferenceResponses
import AgenticPlatform.ToolCache
import AgenticPlatform.DiffStatistics
import AgenticPlatform.StandardRecords
import AgenticPlatform.MarkerRoundTrip
import AgenticPlatform.SseFrames
import AgenticPlatform.JsonAnswers
import AgenticPlatform.RedisEventDelivery
import AgenticPlatform.WorktreeDirectories
import AgenticPlatform.PromptLibrary
import AgenticPlatform.ToolExecution
import AgenticPlatform.RepositoryContext
