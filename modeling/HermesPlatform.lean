import HermesPlatform.Lib.QueryDenotation
import HermesPlatform.PostgresMcp.SqlPolicy
import HermesPlatform.PostgresMcp.CteScope
import HermesPlatform.PostgresMcp.Validate
import HermesPlatform.PostgresMcp.SearchPath
import HermesPlatform.PostgresMcp.Dialects
import HermesPlatform.PostgresMcp.Denylist
import HermesPlatform.Lib.Overload
import HermesPlatform.PostgresMcp.Functions
import HermesPlatform.PostgresMcp.Noninterference
import HermesPlatform.Lib.DepthFirst
import HermesPlatform.Lib.Transition
import HermesPlatform.Orchestration.Records
import HermesPlatform.Orchestration.Workflow
import HermesPlatform.Orchestration.Reconcile
import HermesPlatform.Orchestration.TaskActions
import HermesPlatform.Orchestration.RunSystem
import HermesPlatform.Orchestration.Progress
import HermesPlatform.Orchestration.DependencyOrder
import HermesPlatform.Orchestration.Interleaving
import HermesPlatform.Orchestration.RunEnd
import HermesPlatform.Orchestration.Lease
import HermesPlatform.Orchestration.Scan
import HermesPlatform.Orchestration.Statuses
import HermesPlatform.Orchestration.Submission
import HermesPlatform.Orchestration.Operations
import HermesPlatform.Orchestration.Sparing
import HermesPlatform.Orchestration.Continuation
import HermesPlatform.Orchestration.Containment
import HermesPlatform.Lib.LockOrder
import HermesPlatform.Lib.Parties
import HermesPlatform.Gateway.Quota
import HermesPlatform.Gateway.Admission
import HermesPlatform.Lib.Json
import HermesPlatform.Gateway.CacheKey
import HermesPlatform.Gateway.Policy
import HermesPlatform.Gateway.Steering
import HermesPlatform.Production.Sessions
import HermesPlatform.Production.Publication
import HermesPlatform.Production.Metrics
import HermesPlatform.Production.Immutability
import HermesPlatform.Lib.Table
import HermesPlatform.Production.Contract
import HermesPlatform.Production.ContractSteps
import HermesPlatform.Production.ContractRuns
import HermesPlatform.Lib.RefCount
import HermesPlatform.Runtimes.Aliases
import HermesPlatform.Lib.Base64
import HermesPlatform.Lib.JsonText
import HermesPlatform.Tokens.CapabilityToken
import HermesPlatform.Tokens.Agreement
import HermesPlatform.Tokens.Malleability
import HermesPlatform.Gateway.Revocation
import HermesPlatform.Conversations.ModeLock
import HermesPlatform.Runtimes.DeepSeek
import HermesPlatform.Lib.Procedure
import HermesPlatform.Gateway.Audit
import HermesPlatform.Capabilities.ParameterPolicy
import HermesPlatform.Lib.JsonDict
import HermesPlatform.Capabilities.Resolver
import HermesPlatform.Capabilities.FrozenDigest
import HermesPlatform.Snapshots.Validation
import HermesPlatform.Snapshots.Materialisation
import HermesPlatform.Runtimes.PiGate
import HermesPlatform.Runtimes.PiRuns
import HermesPlatform.Memory.Turns
import HermesPlatform.Registry.DefaultModel
import HermesPlatform.Lib.Semaphore
import HermesPlatform.Gateway.ModelCapacity
import HermesPlatform.Production.PublicAudit
import HermesPlatform.Knowledge.ObjectStore
import HermesPlatform.PostgresMcp.Wrapping
import HermesPlatform.Orchestration.Dag
import HermesPlatform.Capabilities.ProtectedFields
import HermesPlatform.Knowledge.Chunks
import HermesPlatform.Lib.Uuid
import HermesPlatform.Lib.SortedSet
import HermesPlatform.Orchestration.TaskQueue
import HermesPlatform.Lib.Separated
import HermesPlatform.Memory.Provider
import HermesPlatform.Memory.Finality
import HermesPlatform.Gateway.Redaction
import HermesPlatform.Gateway.Retry
import HermesPlatform.Lib.Paging
import HermesPlatform.Orchestration.MessageBus
import HermesPlatform.Executions.Steps
import HermesPlatform.Executions.Timeline
import HermesPlatform.Knowledge.ChunkProgress
import HermesPlatform.Lib.FileTree
import HermesPlatform.Skills.Package
import HermesPlatform.Skills.Import
import HermesPlatform.Prompting.Builder
import HermesPlatform.Production.RateLimit
import HermesPlatform.Runtimes.WorkspaceOwner
import HermesPlatform.Lib.Quoting
import HermesPlatform.PostgresMcp.Quoting
import HermesPlatform.Connections.Selection
import HermesPlatform.Connections.ScopeRevisions
import HermesPlatform.Lib.Utf8
import HermesPlatform.Runtimes.Artifacts
import HermesPlatform.Lib.JsonLoads
import HermesPlatform.Lib.Exceptions
import HermesPlatform.Tokens.Totality
import HermesPlatform.Tokens.Texts
import HermesPlatform.Lib.Incremental
import HermesPlatform.Lib.Utf8Stream
import HermesPlatform.Streams.EventStream
import HermesPlatform.Lib.JsonPrefix
import HermesPlatform.Streams.RuntimeStream
import HermesPlatform.Streams.Relay
import HermesPlatform.Lib.Correlation
import HermesPlatform.Runtimes.CapabilityDispatcher
import HermesPlatform.Lib.History
import HermesPlatform.Production.ApiKeys
import HermesPlatform.Tokens.AccessToken
import HermesPlatform.Lib.Expiring
import HermesPlatform.Memory.Expiry
