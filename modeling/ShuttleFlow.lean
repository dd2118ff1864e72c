import ShuttleFlow.View.Recovery
import ShuttleFlow.Conversation.Answered
import ShuttleFlow.Io.Coherence
import ShuttleFlow.Io.StoreLaws
import ShuttleFlow.Conversation.Durability
import ShuttleFlow.Conversation.PairedMessages
import ShuttleFlow.Conversation.ResourceLockRuns
import ShuttleFlow.AgentServer.LeaseFencing
import ShuttleFlow.AgentServer.CrashRecovery
import ShuttleFlow.Conversation.BlockedPrompts
import ShuttleFlow.Conversation.BlockedActions
import ShuttleFlow.Conversation.SharedConversation
import ShuttleFlow.AgentServer.StrandedMessages
import ShuttleFlow.Terminal.PaneConservation
import ShuttleFlow.AgentServer.BashOutputOrder
import ShuttleFlow.Workspace.CommandDelivery
import ShuttleFlow.Skills.TwoPhaseExpansion
import ShuttleFlow.Conversation.SecretMasking
import ShuttleFlow.AgentServer.SafeFork
import ShuttleFlow.Conversation.EventsListCoherence
import ShuttleFlow.FileEditor.UndoLaw
import ShuttleFlow.FileEditor.CheckedEditor
import ShuttleFlow.FileEditor.EditorAtomicity
import ShuttleFlow.FileEditor.OnePlace
import ShuttleFlow.Agent.SecurityGate
import ShuttleFlow.AgentServer.SettingsRestart
import ShuttleFlow.Llm.ResponsesReplay
import ShuttleFlow.AgentServer.SecretsKept
import ShuttleFlow.AgentServer.WebhookDelivery
import ShuttleFlow.Terminal.BashCommands
import ShuttleFlow.Terminal.CmdOutputMetadata
import ShuttleFlow.Terminal.QueryFilter
import ShuttleFlow.Conversation.RemoteRun
import ShuttleFlow.Conversation.RemoteRuns
import ShuttleFlow.AgentServer.EventReplay
import ShuttleFlow.AgentServer.Confirmations
import ShuttleFlow.AgentServer.LiveServices
import ShuttleFlow.AppServer.EventConfinement
import ShuttleFlow.AppServer.MetadataWriters
import ShuttleFlow.Llm.SpendingTracked
import ShuttleFlow.Subagents.PromptResults
import ShuttleFlow.Skills.SkillPresence
import ShuttleFlow.Subagents.TaskManager
import ShuttleFlow.Subagents.TaskIsolation
import ShuttleFlow.Subagents.SpendingConserved
import ShuttleFlow.Extensions.DisabledExtensions
import ShuttleFlow.Extensions.AtomicInstallation
import ShuttleFlow.Condenser.CondensationProgress
import ShuttleFlow.ApplyPatch.PatchAtomicity
import ShuttleFlow.AppServer.StatisticsAgree
import ShuttleFlow.Extensions.PinnedExtensions
import ShuttleFlow.AppServer.AcknowledgedEvents
import ShuttleFlow.AppServer.ActiveProfile
import ShuttleFlow.AppServer.PendingDelivery
import ShuttleFlow.Library.JsonRoundTrip
import ShuttleFlow.Llm.FnCallConverter
import ShuttleFlow.Llm.CallText
import ShuttleFlow.Llm.CallRoundTrip
import ShuttleFlow.Llm.ToolCallSplit
import ShuttleFlow.Llm.SplitRounds
import ShuttleFlow.Condenser.CondensationSize
import ShuttleFlow.ApplyPatch.PatchTotality
import ShuttleFlow.ApplyPatch.WorkspaceConfinement
import ShuttleFlow.ApplyPatch.PatchOutcome
import ShuttleFlow.ApplyPatch.UpdatedFiles
import ShuttleFlow.Conversation.StuckSoundness
import ShuttleFlow.Hooks.HookExecutor
import ShuttleFlow.Hooks.BlockingHooks
import ShuttleFlow.FileEditor.InsertedLines
import ShuttleFlow.FileEditor.NumberedLines
import ShuttleFlow.Llm.ResponsesInput
import ShuttleFlow.AgentServer.EventSearch
import ShuttleFlow.AgentServer.BashDecoding
import ShuttleFlow.Terminal.PromptBlocks
import ShuttleFlow.Terminal.TerminalSession
import ShuttleFlow.Terminal.CompletedCommand
import ShuttleFlow.Library.Removal
import ShuttleFlow.Terminal.QueryPatterns
import ShuttleFlow.Terminal.ChunkedOutput
import ShuttleFlow.Terminal.CleanOutput
import ShuttleFlow.AgentServer.EnvOverrides
import ShuttleFlow.Subagents.SpawnedAgents
import ShuttleFlow.Llm.FallbackStrategy
import ShuttleFlow.AgentServer.ConversationPages
import ShuttleFlow.Terminal.EnvExports
import ShuttleFlow.Agent.ToolArguments
import ShuttleFlow.AppServer.EventCounts
import ShuttleFlow.Llm.MetricsDiff
import ShuttleFlow.FileEditor.FileCache
import ShuttleFlow.Security.ActionCorpus
import ShuttleFlow.Condenser.HardContextReset
import ShuttleFlow.Conversation.Autosave
import ShuttleFlow.AgentServer.EnvGraph
import ShuttleFlow.Git.GitChanges
import ShuttleFlow.Conversation.RunViews
