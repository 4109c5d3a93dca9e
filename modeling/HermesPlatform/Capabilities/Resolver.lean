/-
  HermesPlatform.Capabilities.Resolver

  Which capabilities a version of an agent is offered: `resolve_agent_capabilities`
  (`app.capabilities.resolver`).

  The resolution reads the catalogue as it is at the moment.  Every enabled binding of
  the version is joined with its capability and an implementation is chosen for it; what
  is in the way becomes an issue of the preflight.

  The rows of a table stand in the order in which they are read, which decides where
  `ORDER BY` does not.
-/

import HermesPlatform.Gateway.CacheKey
import HermesPlatform.Gateway.Policy
import HermesPlatform.Lib.JsonDict
import HermesPlatform.Lib.Table

namespace HermesPlatform
namespace Capabilities

open Gateway (truthy optional optional_inj)
open Json (asDict asList)
open Python (Dict isSpace strip)
open Table (lookup mem_of_lookup key_of_lookup)

/-! ## The catalogue -/

inductive CapabilityStatus where
  | draft
  | testing
  | published
  | deprecated
  | disabled
deriving DecidableEq, Repr

structure Capability where
  id : String
  key : String
  displayName : String
  description : Option String

structure CapabilityVersion where
  id : String
  capabilityId : String
  version : String
  inputSchema : Json
  outputSchema : Json
  status : CapabilityStatus

inductive ImplementationStatus where
  | active
  | disabled
deriving DecidableEq, Repr

structure Implementation where
  id : String
  capabilityVersionId : String
  connectorOperationId : String
  connectorInstanceRevisionId : String
  priority : Int
  status : ImplementationStatus
  createdAt : Nat

inductive ConnectorType where
  | internalRest
  | mcp
  | postgresqlMcp
  | databaseMcp
deriving DecidableEq, Repr

structure Connector where
  id : String
  type : ConnectorType

structure ConnectorOperation where
  id : String
  connectorId : String

structure ConnectorInstanceRevision where
  id : String
  connectorInstanceId : String

inductive ConnectorHealth where
  | unknown
  | healthy
  | degraded
  | offline
deriving DecidableEq, Repr

structure ConnectorInstance where
  id : String
  enabled : Bool
  healthStatus : ConnectorHealth

structure ResourceScopeRevision where
  id : String
  scopeDefinition : Json

structure Binding where
  id : String
  agentVersionId : String
  toolAlias : String
  capabilityVersionId : String
  implementationId : Option String
  resourceScopeRevisionId : Option String
  parameterPolicy : Json
  quotaPolicy : Json
  approvalPolicy : Json
  enabled : Bool

inductive RuntimeStatus where
  | unknown
  | online
  | offline
  | disabled
deriving DecidableEq, Repr

structure AgentRuntime where
  id : String
  version : String
  status : RuntimeStatus

structure RuntimeFeatureProfile where
  runtimeRegistryId : String
  runtimeVersion : String
  features : Dict String Json

structure SkillRequirement where
  skillVersionId : String
  toolAlias : String
  capabilityKey : String
  versionRange : String
  required : Bool

/-- The tables that the resolution reads. -/
structure Catalogue where
  capabilities : List Capability
  versions : List CapabilityVersion
  implementations : List Implementation
  connectors : List Connector
  operations : List ConnectorOperation
  revisions : List ConnectorInstanceRevision
  instances : List ConnectorInstance
  scopeRevisions : List ResourceScopeRevision
  bindings : List Binding
  runtimes : List AgentRuntime
  featureProfiles : List RuntimeFeatureProfile
  requirements : List SkillRequirement

structure AgentVersion where
  id : String
  snapshot : Dict String Json
  snapshotFormatVersion : Int
  resolutionDigest : Option String

/-- What the functions use of Python and of the database. -/
structure ResolverPython where
  /-- `str` of a value that is no string. -/
  repr : Json → String
  /-- `int`; `none` where it raises. -/
  int : Json → Option Int
  /-- `str(UUID(text))`; `none` where it raises. -/
  uuid : String → Option String
  /-- The value of a decimal digit, of any script. -/
  digit : Char → Option Nat
  /-- The collation of `ORDER BY tool_alias`. -/
  collate : String → String → Bool
  /-- `hashlib.sha256(text.encode()).hexdigest()`. -/
  sha256 : String → String

def ResolverPython.str (py : ResolverPython) : Json → String
  | .string s => s
  | v => py.repr v

/-! ## Issues -/

structure PreflightIssue where
  code : String
  path : String
  message : String
  severity : String
deriving DecidableEq, Repr

/-- `severity` has the default `error` and no issue has another. -/
def errorIssue (code path message : String) : PreflightIssue := ⟨code, path, message, "error"⟩

/-! ## `version_satisfies` -/

/-- `int(digits)` of one group `\d+`. -/
def decimal (py : ResolverPython) (digits : List Char) : Option Int :=
  if digits = [] then none else (digits.mapM py.digit).map fun ds => ds.foldl (fun n d => 10 * n + d) 0

/-- `\d+\.\d+\.\d+`. -/
def matchVersion (py : ResolverPython) (value : List Char) : Option (Int × Int × Int) :=
  match value.splitOn '.' with
  | [major, minor, patch] => do
      return (← decimal py major, ← decimal py minor, ← decimal py patch)
  | _ => none

/-- `_semver`. -/
def semver (py : ResolverPython) (value : String) : Int × Int × Int :=
  (matchVersion py value.toList).getD (-1, -1, -1)

/-- `v < w` of tuples. -/
def versionLess (v w : Int × Int × Int) : Bool :=
  v.1 < w.1 || (v.1 = w.1 && (v.2.1 < w.2.1 || (v.2.1 = w.2.1 && v.2.2 < w.2.2)))

/-- One token of the range. -/
def satisfiesToken (py : ResolverPython) (current : Int × Int × Int) : List Char → Bool
  | '>' :: '=' :: target => (matchVersion py target).any fun t => !versionLess current t
  | '<' :: '=' :: target => (matchVersion py target).any fun t => !versionLess t current
  | '>' :: target => (matchVersion py target).any fun t => versionLess t current
  | '<' :: target => (matchVersion py target).any fun t => versionLess current t
  | '=' :: target => (matchVersion py target).any fun t => current = t
  | target => (matchVersion py target).any fun t => current = t

def versionSatisfies (py : ResolverPython) (version versionRange : String) : Bool :=
  let expression := strip versionRange
  if expression = "" ∨ expression = "*" then true
  else
    ((expression.toList.splitOnP isSpace).filter (· ≠ [])).all
      (satisfiesToken py (semver py version))

/-! ## Features of the runtime -/

/-- `_runtime_features`. -/
def runtimeFeatures (py : ResolverPython) (c : Catalogue) (v : AgentVersion) :
    Dict String Json × List PreflightIssue :=
  let runtime := asDict (v.snapshot.get? "runtime")
  let required := asList (runtime.get? "required_features")
  match (runtime.get? "runtime_id").filter truthy with
  | none => (Dict.empty, [errorIssue "RUNTIME_REQUIRED" "runtime" "请选择可用 Runtime"])
  | some rawRuntimeId =>
      match py.uuid (py.str rawRuntimeId) with
      | none =>
          (Dict.empty, [errorIssue "RUNTIME_REQUIRED" "runtime.runtime_id" "Runtime ID 无效"])
      | some runtimeId =>
          match (lookup AgentRuntime.id runtimeId c.runtimes).filter fun record =>
              record.status ≠ .offline ∧ record.status ≠ .disabled with
          | none => (Dict.empty, [errorIssue "RUNTIME_UNAVAILABLE" "runtime" "当前 Runtime 不可用"])
          | some record =>
              -- A runtime version has one profile at most.
              let features := ((c.featureProfiles.find? fun profile =>
                profile.runtimeRegistryId = record.id ∧ profile.runtimeVersion = record.version).map
                  RuntimeFeatureProfile.features).getD Dict.empty
              (features, (required.filter fun name =>
                  !(features.get? (py.str name)).any truthy).map fun name =>
                errorIssue "RUNTIME_FEATURE_MISMATCH" ("runtime.required_features." ++ py.str name)
                  ("当前 Runtime 不支持 " ++ py.str name))

/-! ## Rows -/

structure BindingRow where
  binding : Binding
  version : CapabilityVersion
  capability : Capability

/-- The enabled bindings of the version with their capabilities, in the order of the aliases. -/
def bindingRows (py : ResolverPython) (c : Catalogue) (v : AgentVersion) : List BindingRow :=
  let enabled := c.bindings.filter fun binding => binding.agentVersionId = v.id ∧ binding.enabled
  (enabled.insertionSort fun a b => py.collate a.toolAlias b.toolAlias).filterMap fun binding => do
    let version ← lookup CapabilityVersion.id binding.capabilityVersionId c.versions
    let capability ← lookup Capability.id version.capabilityId c.capabilities
    return ⟨binding, version, capability⟩

/-- `ORDER BY priority, created_at`. -/
def Implementation.precedes (a b : Implementation) : Bool :=
  a.priority < b.priority || (a.priority = b.priority && a.createdAt ≤ b.createdAt)

/-- `_implementation`. -/
def chooseImplementation (c : Catalogue) (binding : Binding) (capabilityVersionId : String) :
    Option Implementation :=
  match binding.implementationId with
  | some implementationId =>
      (lookup Implementation.id implementationId c.implementations).filter (·.status = .active)
  | none =>
      ((c.implementations.filter fun implementation =>
        implementation.capabilityVersionId = capabilityVersionId ∧
          implementation.status = .active).insertionSort (·.precedes ·)).head?

/-! ## `_validate_skill_requirements` -/

/-- The binding of the last row that fits, as in a dict comprehension. -/
def lastBinding (rows : List BindingRow) (fits : BindingRow → Bool) : Option Binding :=
  (rows.reverse.find? fits).map BindingRow.binding

def requirementIssue (py : ResolverPython) (c : Catalogue) (rows : List BindingRow)
    (requirement : SkillRequirement) : Option PreflightIssue :=
  let path := "skills.capability_requirements." ++ requirement.toolAlias
  match (lastBinding rows (·.binding.toolAlias = requirement.toolAlias)).or
      (lastBinding rows (·.capability.key = requirement.capabilityKey)) with
  | none =>
      some (errorIssue "CAPABILITY_NOT_BOUND" path ("缺少所需能力 " ++ requirement.capabilityKey))
  | some binding =>
      if (lookup CapabilityVersion.id binding.capabilityVersionId c.versions).any fun version =>
          versionSatisfies py version.version requirement.versionRange
      then none
      else some (errorIssue "CONTRACT_VERSION_MISMATCH" path
        ("能力 " ++ requirement.capabilityKey ++ " 版本不满足 " ++ requirement.versionRange))

def skillIssues (py : ResolverPython) (c : Catalogue) (v : AgentVersion) (rows : List BindingRow) :
    List PreflightIssue :=
  let rawIds := (asList (v.snapshot.get? "skills")).filterMap fun item =>
    ((asDict (some item)).get? "skill_version_id").filter truthy
  let parsed := rawIds.map fun rawId => py.uuid (py.str rawId)
  let versionIds := parsed.filterMap id
  (parsed.filter (· = none)).map (fun _ =>
      errorIssue "SKILL_VERSION_INVALID" "skills" "Skill Version ID 无效") ++
    (c.requirements.filter fun requirement =>
      requirement.skillVersionId ∈ versionIds ∧ requirement.required).filterMap
        (requirementIssue py c rows)

/-! ## `resolve_agent_capabilities` -/

structure ResolvedCapability where
  bindingId : String
  toolName : String
  capabilityKey : String
  capabilityVersion : String
  description : String
  inputSchema : Json
  outputSchema : Json
  implementationId : String
  connectorOperationId : String
  connectorInstanceRevisionId : String
  resourceScopeRevisionId : Option String
  parameterPolicy : Json
  quotaPolicy : Json
  approvalPolicy : Json

/-- `as_dict`. -/
def ResolvedCapability.members (tool : ResolvedCapability) : List (String × Json) :=
  [("binding_id", .string tool.bindingId),
    ("tool_name", .string tool.toolName),
    ("capability_key", .string tool.capabilityKey),
    ("capability_version", .string tool.capabilityVersion),
    ("description", .string tool.description),
    ("input_schema", tool.inputSchema),
    ("output_schema", tool.outputSchema),
    ("implementation_id", .string tool.implementationId),
    ("connector_operation_id", .string tool.connectorOperationId),
    ("connector_instance_revision_id", .string tool.connectorInstanceRevisionId),
    ("resource_scope_revision_id", optional tool.resourceScopeRevisionId),
    ("parameter_policy", tool.parameterPolicy),
    ("quota_policy", tool.quotaPolicy),
    ("approval_policy", tool.approvalPolicy)]

/-- `value or {}`. -/
def orEmpty (v : Json) : Json := if truthy v then v else .object []

/-- `capability.description or capability.display_name`. -/
def Capability.shown (capability : Capability) : String :=
  (Python.truthy capability.description).getD capability.displayName

def BindingRow.tool (row : BindingRow) (implementation : Implementation) : ResolvedCapability :=
  { bindingId := row.binding.id
    toolName := row.binding.toolAlias
    capabilityKey := row.capability.key
    capabilityVersion := row.version.version
    description := row.capability.shown
    inputSchema := orEmpty row.version.inputSchema
    outputSchema := orEmpty row.version.outputSchema
    implementationId := implementation.id
    connectorOperationId := implementation.connectorOperationId
    connectorInstanceRevisionId := implementation.connectorInstanceRevisionId
    resourceScopeRevisionId := row.binding.resourceScopeRevisionId
    parameterPolicy := orEmpty row.binding.parameterPolicy
    quotaPolicy := orEmpty row.binding.quotaPolicy
    approvalPolicy := orEmpty row.binding.approvalPolicy }

/-- What the connector says of the scope of a binding. -/
def scopeIssues (py : ResolverPython) (c : Catalogue) (row : BindingRow)
    (operation : ConnectorOperation) (revision : ConnectorInstanceRevision) : List PreflightIssue :=
  let path := "capability_bindings." ++ row.binding.toolAlias ++ ".resource_scope_revision_id"
  let scopeRevision := row.binding.resourceScopeRevisionId.bind fun id =>
    lookup ResourceScopeRevision.id id c.scopeRevisions
  if (lookup Connector.id operation.connectorId c.connectors).any fun connector =>
      connector.type = .postgresqlMcp ∨ connector.type = .databaseMcp then
    match scopeRevision with
    | none =>
        [errorIssue "RESOURCE_SCOPE_REQUIRED" path
          ("数据库能力 " ++ row.capability.key ++ " 必须绑定单数据库 Scope Revision")]
    | some scopeRevision =>
        if py.str (((asDict (some scopeRevision.scopeDefinition)).get?
            "connector_revision_id").getD .null) ≠ revision.id then
          [errorIssue "RESOURCE_SCOPE_MISMATCH" path
            ("数据库能力 " ++ row.capability.key ++ " 的 Scope 与 Connector Revision 不匹配")]
        else []
  else []

/-- One round of the loop over the rows: its issues, and the tool that it appends. -/
def resolveRow (py : ResolverPython) (c : Catalogue) (row : BindingRow) :
    List PreflightIssue × Option ResolvedCapability :=
  let path := "capability_bindings." ++ row.binding.toolAlias
  if row.version.status ≠ .published ∧ row.version.status ≠ .deprecated then
    ([errorIssue "CONTRACT_VERSION_MISMATCH" path
      ("能力 " ++ row.capability.key ++ "@" ++ row.version.version ++ " 尚未发布")], none)
  else
    match chooseImplementation c row.binding row.version.id with
    | none =>
        ([errorIssue "CAPABILITY_IMPLEMENTATION_MISSING" path
          ("能力 " ++ row.capability.key ++ " 没有可用实现")], none)
    | some implementation =>
        match lookup ConnectorOperation.id implementation.connectorOperationId c.operations,
            lookup ConnectorInstanceRevision.id implementation.connectorInstanceRevisionId
              c.revisions with
        | some operation, some revision =>
            let unhealthy := !(lookup ConnectorInstance.id revision.connectorInstanceId
              c.instances).any fun inst => inst.enabled ∧ inst.healthStatus ≠ .offline
            ((if unhealthy then
                [errorIssue "PROVIDER_UNHEALTHY" path
                  ("能力 " ++ row.capability.key ++ " 的连接当前不可用")]
              else []) ++ scopeIssues py c row operation revision, some (row.tool implementation))
        | _, _ =>
            ([errorIssue "CAPABILITY_IMPLEMENTATION_MISSING" path
              ("能力 " ++ row.capability.key ++ " 的连接实现不完整")], none)

structure CapabilityResolution where
  agentVersionId : String
  formatVersion : Int
  legacy : Bool
  tools : List ResolvedCapability
  issues : List PreflightIssue
  resolutionDigest : String
  runtimeFeatures : Dict String Json

def CapabilityResolution.ready (resolution : CapabilityResolution) : Bool :=
  !resolution.issues.any (·.severity = "error")

/-- `_digest`. -/
def digest (py : ResolverPython) (value : Json) : String := "sha256:" ++ py.sha256 value.dumps

/-- The `digest_payload`. -/
def digestPayload (agentVersionId : String) (features : Dict String Json)
    (tools : List ResolvedCapability) : Json :=
  .object
    [("agent_version_id", .string agentVersionId),
      ("runtime_features", .object features.entries),
      ("tools", .array (tools.map fun tool => .object tool.members))]

/-- `int(snapshot.get("format_version") or .. or 1)`. -/
def formatVersion (py : ResolverPython) (snapshot : Dict String Json) (column : Int) : Option Int :=
  match (snapshot.get? "format_version").filter truthy with
  | some version => py.int version
  | none => some (if column ≠ 0 then column else 1)

/-- `runtime_features.get("runtime_type") or "当前"`. -/
def shownRuntimeType (py : ResolverPython) (features : Dict String Json) : String :=
  match (features.get? "runtime_type").filter truthy with
  | some runtimeType => py.str runtimeType
  | none => "当前"

/-- The part for snapshots of the second format. -/
def resolveCapabilities (py : ResolverPython) (c : Catalogue) (v : AgentVersion) :
    CapabilityResolution :=
  let (features, featureIssues) := runtimeFeatures py c v
  let rows := bindingRows py c v
  let dispatcherIssues :=
    if rows ≠ [] ∧ !(features.get? "capability_gateway").any truthy then
      [errorIssue "RUNTIME_FEATURE_MISMATCH" "runtime.required_features.capability_gateway"
        (shownRuntimeType py features ++
          " Runtime 尚未提供不向模型暴露 Token 的动态 Capability Dispatcher")]
    else []
  let resolved := rows.map (resolveRow py c)
  let tools := resolved.filterMap Prod.snd
  { agentVersionId := v.id
    formatVersion := 2
    legacy := false
    tools := tools
    issues := featureIssues ++ dispatcherIssues ++ skillIssues py c v rows ++ resolved.flatMap Prod.fst
    resolutionDigest := digest py (digestPayload v.id features tools)
    runtimeFeatures := features }

/-- `resolve_agent_capabilities`; `none` where `int` raises. -/
def resolveAgentCapabilities (py : ResolverPython) (c : Catalogue) (v : AgentVersion) :
    Option CapabilityResolution :=
  (formatVersion py v.snapshot v.snapshotFormatVersion).map fun version =>
    if version = 1 then
      { agentVersionId := v.id
        formatVersion := 1
        legacy := true
        tools := []
        issues := []
        resolutionDigest := digest py
          (.object [("format_version", .int 1), ("agent_version_id", .string v.id)])
        runtimeFeatures := Dict.empty }
    else resolveCapabilities py c v

end Capabilities
end HermesPlatform
