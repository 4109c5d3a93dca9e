/-
  HermesPlatform.Snapshots.Materialisation

  The two readers of an agent snapshot, and its writer.

  `build_version_runtime_agent` makes the agent that runs a version directly;
  `restore_agent_version` writes the version into the live agent when it is published
  or rolled back to.  `build_agent_snapshot` takes a snapshot of the live agent
  (`app.repositories.production`).

  Both readers read the prompt, the model and the schemas alike, but the Skills, a
  missing capability profile and the schema's version in two ways.
-/

import HermesPlatform.Production.Contract
import HermesPlatform.Snapshots.Validation
import Mathlib.Data.List.MinMax
import Mathlib.Data.Prod.Lex
import Mathlib.Order.WithBot

namespace HermesPlatform
namespace Snapshots

open Gateway (truthy)
open Json (asDict asList sortKeys)
open Production (AgentSchemaVersion AgentAPIVersion ContractStatus)
open Python (Dict bind_eq_ok map_eq_ok strip)
open Table (lookup upsert)

/-! ## The agent and its tables -/

inductive ResponseMode where
  | sync
  | stream
deriving DecidableEq, Repr

def ResponseMode.text : ResponseMode → String
  | .sync => "sync"
  | .stream => "stream"

def ResponseMode.read (v : Json) : Option ResponseMode :=
  [sync, stream].find? fun responseMode =>
    match v with
    | .string s => s = responseMode.text
    | _ => false

/-- What a snapshot holds of a row of `agents`. -/
structure Agent where
  role : String
  systemPrompt : String
  promptTemplate : String
  model : String
  modelAdapter : String
  modelSettings : Json
  responseMode : ResponseMode
  runtimeType : RuntimeType
  runtimeId : Option String
  runtimeConfig : Json
  capabilityProfile : Json
  inputSchema : Json
  outputSchema : Json

/-- A name of a schema version: the API takes only `VERSION_PATTERN`, and
    `restore_agent_version` strips the name and skips an empty one. -/
def IsVersionName (name : String) : Prop := name ≠ "" ∧ strip name = name

instance (name : String) : Decidable (IsVersionName name) := inferInstanceAs (Decidable (_ ∧ _))

/-- A row of `agent_schema_versions`, with its times. -/
structure SchemaVersion extends AgentSchemaVersion Json where
  createdAt : Nat
  publishedAt : Option Nat
  named : IsVersionName version

/-- The `ORDER BY` of `build_agent_snapshot`: published rows first, then the latest
    publication with nulls last, then the latest creation. -/
def orderKey (status : ContractStatus) (publishedAt : Option Nat) (createdAt : Nat) :
    Bool ×ₗ (WithBot Nat)ᵒᵈ ×ₗ Natᵒᵈ :=
  toLex (decide (status ≠ .published),
    toLex (OrderDual.toDual (publishedAt : WithBot Nat), OrderDual.toDual createdAt))

def SchemaVersion.orderKey (row : SchemaVersion) : Bool ×ₗ (WithBot Nat)ᵒᵈ ×ₗ Natᵒᵈ :=
  Snapshots.orderKey row.status row.publishedAt row.createdAt

/-- The tables that the functions read and write; all but the first three are those
    of one agent. -/
structure AgentTables where
  skills : List String
  mcpServers : List String
  runtimes : List String
  agentSkills : List String
  agentMcps : List String
  schemas : List SchemaVersion
  apis : List AgentAPIVersion
  schemas_unique : Table.Unique (·.version) schemas
  /-- The foreign key of `agent_api_versions`. -/
  bound : ∀ api ∈ apis, api.schemaVersion ∈ schemas.map (·.version)

/-- The order in which the database sorts ids. -/
structure Collation where
  sort : List String → List String
  perm : ∀ ids, (sort ids).Perm ids

structure Clock where
  /-- `datetime.now` of the process. -/
  now : Nat
  /-- `now()` of the database. -/
  transaction : Nat

/-! ## Reading a snapshot -/

/-- A dict of the snapshot. -/
def part (snapshot : Dict String Json) (name : String) : Dict String Json :=
  asDict (snapshot.get? name)

/-- `[str(item) for item in snapshot[field]]`. -/
def idsOf (py : SnapshotPython) (snapshot : Dict String Json) (field : String) : List String :=
  (asList (snapshot.get? field)).map py.str

/-- `str(v) if v else None`. -/
def trueText (py : SnapshotPython) (v : Option Json) : Option String := (v.filter truthy).map py.str

/-- `v if isinstance(v, dict) else default`. -/
def objectOr (v : Option Json) (default : Json) : Json := (v.filter isObject).getD default

/-- The Skills of a direct run: those of `skills` in a snapshot of the second format. -/
def versionSkillIds (py : SnapshotPython) (snapshot : Dict String Json) : List String :=
  if formatVersion py snapshot 1 = some 2 ∧ (snapshot.get? "skills").any isArray then
    (asList (snapshot.get? "skills")).filterMap fun item =>
      trueText py ((asDict (some item)).get? "skill_id")
  else idsOf py snapshot "skill_ids"

/-- `UUID(str(v))`. -/
def readUuid (py : SnapshotPython) (v : Json) : Except SnapshotError String :=
  match py.uuid (py.str v) with
  | some id => .ok id
  | none => .error (.value "badly formed hexadecimal UUID string")

/-- What is not there is listed in the complaint. -/
def checkDependencies (tables : AgentTables) (skillIds mcpIds : List String) (complaint : String) :
    Except SnapshotError Unit :=
  let missingSkills := skillIds.eraseDups.filter (· ∉ tables.skills)
  let missingMcps := mcpIds.eraseDups.filter (· ∉ tables.mcpServers)
  check (missingSkills = [] ∧ missingMcps = [])
    (complaint ++ " (" ++ "; ".intercalate
      ((if missingSkills = [] then [] else ["Skills: " ++ joinNames missingSkills]) ++
        if missingMcps = [] then [] else ["MCP servers: " ++ joinNames missingMcps]) ++ ")")

/-! ## `build_version_runtime_agent` -/

/-- The agent of a direct run. -/
structure RuntimeAgent extends Agent where
  skills : List String
  mcpServers : List String

/-- The schema version of a direct run. -/
structure SchemaRuntime where
  version : Option String
  inputSchema : Json
  outputSchema : Json

/-- The profile of a direct run. -/
def versionProfile (py : SnapshotPython) (agent : Agent) (snapshot : Dict String Json) :
    Except SnapshotError CapabilityProfile :=
  let runtime := part snapshot "runtime"
  normalizeCapabilityProfile py ((runtime.get? "capability_profile").getD agent.capabilityProfile)
    (((runtime.get? "runtime_type").bind RuntimeType.read).getD agent.runtimeType)

/-- The Runtime of a direct run. -/
def versionRuntimeId (py : SnapshotPython) (agent : Agent) (snapshot : Dict String Json) :
    Except SnapshotError (Option String) :=
  match ((part snapshot "runtime").get? "runtime_id").filter truthy with
  | some v => do
      let runtimeId ← readUuid py v
      return some runtimeId
  | none => .ok agent.runtimeId

/-- The namespace that `build_version_runtime_agent` returns. -/
def runtimeAgent (py : SnapshotPython) (order : Collation) (tables : AgentTables) (agent : Agent)
    (snapshot : Dict String Json) (runtimeId : Option String)
    (capabilityProfile : CapabilityProfile) : RuntimeAgent :=
  let prompt := part snapshot "prompt"
  let model := part snapshot "model"
  let schema := part snapshot "schema"
  let runtime := part snapshot "runtime"
  { role := textOr py (prompt.get? "role") agent.role
    systemPrompt := textOr py (prompt.get? "system_prompt") ""
    promptTemplate := textOr py (prompt.get? "prompt_template") "\x7b\x7binput\x7d\x7d"
    model := textOr py (model.get? "name") agent.model
    modelAdapter := textOr py (model.get? "adapter") agent.modelAdapter
    modelSettings := objectOr (model.get? "config") (.object [])
    responseMode := ((runtime.get? "response_mode").bind ResponseMode.read).getD .sync
    runtimeType := ((runtime.get? "runtime_type").bind RuntimeType.read).getD agent.runtimeType
    runtimeId
    runtimeConfig := objectOr (runtime.get? "runtime_config") agent.runtimeConfig
    capabilityProfile := capabilityProfile.toJson
    inputSchema := objectOr (schema.get? "input_schema") (.object [])
    outputSchema := objectOr (schema.get? "output_schema") (.object [])
    skills := order.sort (tables.skills.filter (· ∈ versionSkillIds py snapshot))
    mcpServers := order.sort (tables.mcpServers.filter (· ∈ idsOf py snapshot "mcp_ids")) }

def schemaRuntime (py : SnapshotPython) (snapshot : Dict String Json) : SchemaRuntime :=
  let schema := part snapshot "schema"
  { version := trueText py (schema.get? "version")
    inputSchema := objectOr (schema.get? "input_schema") (.object [])
    outputSchema := objectOr (schema.get? "output_schema") (.object []) }

def buildVersionRuntimeAgent (py : SnapshotPython) (order : Collation) (tables : AgentTables)
    (agent : Agent) (snapshot : Dict String Json) :
    Except SnapshotError (RuntimeAgent × SchemaRuntime) := do
  validateAgentSnapshot py snapshot
  checkDependencies tables (versionSkillIds py snapshot) (idsOf py snapshot "mcp_ids")
    "Agent Version dependencies are missing"
  let runtimeId ← versionRuntimeId py agent snapshot
  let capabilityProfile ← versionProfile py agent snapshot
  return (runtimeAgent py order tables agent snapshot runtimeId capabilityProfile,
    schemaRuntime py snapshot)

/-! ## `restore_agent_version` -/

/-- A snapshot that is accepted. -/
structure ValidSnapshot (py : SnapshotPython) where
  fields : Dict String Json
  valid : validateAgentSnapshot py fields = .ok ()

/-- What the constraints of the tables refuse. -/
def constrain (ok : Bool) : Except SnapshotError Unit := if ok then .ok () else .error .other

/-- `String(32)`, for a name that is not in the table yet. -/
def fitsName (stored : List String) (name : String) : Bool := name ∈ stored || name.length ≤ 32

/-- A runtime that the snapshot names has to be in `agent_runtimes`. -/
def restoredRuntimeId (py : SnapshotPython) (tables : AgentTables) (agent : Agent)
    (snapshot : Dict String Json) : Except SnapshotError (Option String) :=
  match (part snapshot "runtime").get? "runtime_id" with
  | none => .ok agent.runtimeId
  | some v =>
      if truthy v then do
        let runtimeId ← readUuid py v
        constrain (runtimeId ∈ tables.runtimes)
        return some runtimeId
      else .ok none

def restoredProfile (py : SnapshotPython) (agent : Agent) (snapshot : Dict String Json) :
    Except SnapshotError Json :=
  let runtime := part snapshot "runtime"
  match (runtime.get? "capability_profile").filter isObject with
  | some value => do
      let capabilityProfile ← normalizeCapabilityProfile py value
        (((runtime.get? "runtime_type").bind RuntimeType.read).getD agent.runtimeType)
      return capabilityProfile.toJson
  | none => .ok agent.capabilityProfile

/-- The columns of the agent. -/
def restoredAgent (py : SnapshotPython) (agent : Agent) (snapshot : Dict String Json)
    (runtimeId : Option String) (capabilityProfile : Json) : Agent :=
  let prompt := part snapshot "prompt"
  let model := part snapshot "model"
  let schema := part snapshot "schema"
  let runtime := part snapshot "runtime"
  { role := textOr py (prompt.get? "role") agent.role
    systemPrompt := textOr py (prompt.get? "system_prompt") agent.systemPrompt
    promptTemplate := textOr py (prompt.get? "prompt_template") agent.promptTemplate
    model := textOr py (model.get? "name") agent.model
    modelAdapter := textOr py (model.get? "adapter") agent.modelAdapter
    modelSettings := objectOr (model.get? "config") (.object [])
    responseMode := ((runtime.get? "response_mode").bind ResponseMode.read).getD agent.responseMode
    runtimeType := ((runtime.get? "runtime_type").bind RuntimeType.read).getD agent.runtimeType
    runtimeId
    runtimeConfig := objectOr (runtime.get? "runtime_config") agent.runtimeConfig
    capabilityProfile
    inputSchema := objectOr (schema.get? "input_schema") (.object [])
    outputSchema := objectOr (schema.get? "output_schema") (.object []) }

/-- The update of the schema version's row. -/
def SchemaVersion.republish (clock : Clock) (inputSchema outputSchema : Json)
    (row : SchemaVersion) : SchemaVersion :=
  { row with
    inputSchema, outputSchema
    status := .published
    publishedAt := some (row.publishedAt.getD clock.now) }

/-- The rows of the agent's Skills and MCP servers. -/
def AgentTables.bindIds (tables : AgentTables) (skillIds mcpIds : List String) : AgentTables :=
  { tables with agentSkills := skillIds, agentMcps := mcpIds }

/-- The schema version and the API version that is bound to it. -/
def AgentTables.publish (tables : AgentTables) (clock : Clock) (version : String)
    (named : IsVersionName version) (inputSchema outputSchema : Json) (apiVersion : String) :
    AgentTables :=
  { tables with
    schemas := upsert (·.version) version (·.republish clock inputSchema outputSchema)
      ⟨⟨version, inputSchema, outputSchema, .published⟩, clock.transaction, some clock.now, named⟩
      tables.schemas
    apis := upsert (·.apiVersion) apiVersion
      ({ · with schemaVersion := version, status := .published })
      ⟨apiVersion, version, .published⟩ tables.apis
    schemas_unique := tables.schemas_unique.upsert (fun _ h => h) rfl
    bound := by
      intro api hapi
      rcases Table.mem_upsert_cases hapi with ⟨hold, -⟩ | ⟨old, -, rfl⟩ | rfl
      · exact Table.mem_keys_upsert (tables.bound api hold) fun _ h => h
      · exact Table.mem_keys_upsert_self (fun _ h => h) rfl
      · exact Table.mem_keys_upsert_self (fun _ h => h) rfl }

/-- `str(schema.get("version") or "").strip()`. -/
def restoredVersion (py : SnapshotPython) (snapshot : Dict String Json) : String :=
  strip (textOr py ((part snapshot "schema").get? "version") "")

def apiVersionName (py : SnapshotPython) (snapshot : Dict String Json) : String :=
  textOr py ((part snapshot "api").get? "version") "v1"

/-- The part of `restore_agent_version` that writes the contract, which it does
    wherever the snapshot names a schema version. -/
def restoreContract (py : SnapshotPython) (clock : Clock) (tables : AgentTables) (agent : Agent)
    (snapshot : Dict String Json) : Except SnapshotError AgentTables :=
  let version := restoredVersion py snapshot
  let apiVersion := apiVersionName py snapshot
  if h : version = "" then .ok tables
  else do
    constrain (fitsName (tables.schemas.map (·.version)) version &&
      fitsName (tables.apis.map (·.apiVersion)) apiVersion)
    return tables.publish clock version ⟨h, Python.strip_strip _⟩ agent.inputSchema
      agent.outputSchema apiVersion

/-- The function does not validate the snapshot itself; both callers have it publish the
    contract. -/
def restoreAgentVersion (py : SnapshotPython) (clock : Clock) (tables : AgentTables) (agent : Agent)
    (snapshot : ValidSnapshot py) : Except SnapshotError (Agent × AgentTables) := do
  let skillIds := idsOf py snapshot.fields "skill_ids"
  let mcpIds := idsOf py snapshot.fields "mcp_ids"
  checkDependencies tables skillIds mcpIds "Agent rollback dependencies are missing"
  let runtimeId ← restoredRuntimeId py tables agent snapshot.fields
  let capabilityProfile ← restoredProfile py agent snapshot.fields
  let restored := restoredAgent py agent snapshot.fields runtimeId capabilityProfile
  constrain (restored.model.length ≤ 255)
  -- The primary keys of the two tables.
  constrain (skillIds.Nodup ∧ mcpIds.Nodup)
  let written ← restoreContract py clock (tables.bindIds skillIds mcpIds) restored snapshot.fields
  return (restored, written)

/-! ## The contract -/

instance : EmptyCollection Json := ⟨.object []⟩

/-- What the snapshot says about the contract. -/
def readContract (py : SnapshotPython) (snapshot : Dict String Json) :
    Production.AgentSnapshot Json :=
  let schema := part snapshot "schema"
  { schemaVersion := trueText py (schema.get? "version")
    inputSchema := (schema.get? "input_schema").filter isObject
    outputSchema := (schema.get? "output_schema").filter isObject
    apiVersion := trueText py ((part snapshot "api").get? "version") }

/-- The tables without their times. -/
def AgentTables.contract (tables : AgentTables) (agent : Production.Agent)
    (versions : List (Production.AgentVersion (Production.AgentSnapshot Json))) :
    Production.Contract Json :=
  ⟨agent, versions, tables.schemas.map (·.toAgentSchemaVersion), tables.apis⟩

/-! ## `build_agent_snapshot` -/

/-- What the query for the latest schema version may answer; the database is free where
    rows are tied. -/
def MayAnswer (rows : List SchemaVersion) : Option SchemaVersion → Prop
  | some row => row ∈ rows ∧ ∀ other ∈ rows, row.orderKey ≤ other.orderKey
  | none => rows = []

/-- The schema version of a snapshot: that of the API version `v1`, else the latest. -/
def snapshotSchema (tables : AgentTables) (answer : Option SchemaVersion) : Option SchemaVersion :=
  ((lookup (·.apiVersion) "v1" tables.apis).bind fun binding =>
    lookup (·.version) binding.schemaVersion tables.schemas).or answer

def orNull (v : Option String) : Json := v.elim .null .string

/-- `v or {}`. -/
def orEmpty (v : Json) : Json := if truthy v then v else .object []

def buildAgentSnapshot (order : Collation) (tables : AgentTables) (agent : Agent)
    (answer : Option SchemaVersion) : Dict String Json :=
  let binding := lookup (·.apiVersion) "v1" tables.apis
  let schema := snapshotSchema tables answer
  Dict.ofPairs
    [("format_version", .int 1),
      ("prompt", .object
        [("role", .string agent.role), ("system_prompt", .string agent.systemPrompt),
          ("prompt_template", .string agent.promptTemplate)]),
      ("model", .object
        [("name", .string agent.model), ("adapter", .string agent.modelAdapter),
          ("config", agent.modelSettings)]),
      ("skill_ids", .array ((order.sort tables.agentSkills).map .string)),
      ("mcp_ids", .array ((order.sort tables.agentMcps).map .string)),
      ("schema", .object
        [("version", orNull (schema.map (·.version))),
          ("input_schema", (schema.map (·.inputSchema)).getD agent.inputSchema),
          ("output_schema", (schema.map (·.outputSchema)).getD agent.outputSchema)]),
      ("api", .object
        [("version", .string ((binding.map (·.apiVersion)).getD "v1")),
          ("status", orNull (binding.map (·.status.text)))]),
      ("runtime", .object
        [("response_mode", .string agent.responseMode.text),
          ("runtime_type", .string agent.runtimeType.text), ("runtime_id", orNull agent.runtimeId),
          ("runtime_config", orEmpty agent.runtimeConfig),
          ("capability_profile", orEmpty agent.capabilityProfile)])]

/-- A row of `skill_versions`. -/
structure SkillVersion where
  id : String
  skillId : String
  version : String
  createdAt : Nat
  named : skillId ≠ ""

/-- The `skills` of a snapshot of the second format. -/
def latestSkills (py : SnapshotPython) (versions : List SkillVersion) (skillIds : List Json) :
    List Json :=
  skillIds.filterMap fun skillId =>
    ((versions.filter (·.skillId = py.str skillId)).argmax (·.createdAt)).map fun version =>
      .object
        [("skill_id", .string version.skillId), ("skill_version_id", .string version.id),
          ("version", .string version.version)]

/-- `_snapshot_v2`. -/
def snapshotV2 (py : SnapshotPython) (versions : List SkillVersion) (legacy : Dict String Json) :
    Dict String Json :=
  let skills := latestSkills py versions (asList (legacy.get? "skill_ids"))
  let requiredFeatures : List Json :=
    if skills.isEmpty then [] else [.string "tool_call", .string "structured_output"]
  legacy.update
    [("format_version", .int 2), ("skills", .array skills), ("capability_bindings", .array []),
      ("resource_scope_revisions", .array []), ("policy_set_revisions", .array []),
      ("runtime", .object
        ((part legacy "runtime").set "required_features" (.array requiredFeatures)).entries),
      ("resolution_digest", .null)]

/-! ## Agreement -/

/-- The live agent has the configuration of the direct run. -/
structure SameConfiguration (direct : RuntimeAgent) (live : Agent) (tables : AgentTables) :
    Prop where
  prompt : direct.role = live.role ∧ direct.systemPrompt = live.systemPrompt ∧
    direct.promptTemplate = live.promptTemplate
  model : direct.model = live.model ∧ direct.modelAdapter = live.modelAdapter ∧
    direct.modelSettings = live.modelSettings
  skills : ∀ id, id ∈ direct.skills ↔ id ∈ tables.agentSkills
  mcpServers : ∀ id, id ∈ direct.mcpServers ↔ id ∈ tables.agentMcps
  /-- The column does not keep the order of the members. -/
  profile : sortKeys direct.capabilityProfile = sortKeys live.capabilityProfile
  schemas : direct.inputSchema = live.inputSchema ∧ direct.outputSchema = live.outputSchema

/-- A snapshot has the values that a direct run of the original reads. -/
structure SameSnapshot (py : SnapshotPython) (again : Dict String Json) (direct : RuntimeAgent)
    (schema : SchemaRuntime) : Prop where
  prompt : again.get? "prompt" = some (.object
    [("role", .string direct.role), ("system_prompt", .string direct.systemPrompt),
      ("prompt_template", .string direct.promptTemplate)])
  model : again.get? "model" = some (.object
    [("name", .string direct.model), ("adapter", .string direct.modelAdapter),
      ("config", direct.modelSettings)])
  skills : ∀ id, id ∈ idsOf py again "skill_ids" ↔ id ∈ direct.skills
  mcpServers : ∀ id, id ∈ idsOf py again "mcp_ids" ↔ id ∈ direct.mcpServers
  schema : again.get? "schema" = some (.object
    [("version", orNull schema.version), ("input_schema", schema.inputSchema),
      ("output_schema", schema.outputSchema)])
  profile : ((part again "runtime").get? "capability_profile").map sortKeys =
    some (sortKeys direct.capabilityProfile)

/-- The direct run and the live agent that is restored have one configuration, and so has
    any snapshot of that agent; or no agent is made in either way. -/
def MaterialisationAgrees (py : SnapshotPython) (order : Collation) (clock : Clock)
    (tables : AgentTables) (agent : Agent) (snapshot : ValidSnapshot py) : Prop :=
  match buildVersionRuntimeAgent py order tables agent snapshot.fields,
    restoreAgentVersion py clock tables agent snapshot with
  | .ok (direct, schema), .ok (live, restored) =>
      SameConfiguration direct live restored ∧ ∀ answer, MayAnswer restored.schemas answer →
        SameSnapshot py (buildAgentSnapshot order restored live answer) direct schema
  | .error _, .error _ => True
  | _, _ => False

/-- The direct run does not raise. -/
structure Runs (py : SnapshotPython) (tables : AgentTables) (agent : Agent)
    (snapshot : Dict String Json) : Prop where
  skills : ∀ id ∈ versionSkillIds py snapshot, id ∈ tables.skills
  mcpServers : ∀ id ∈ idsOf py snapshot "mcp_ids", id ∈ tables.mcpServers
  profile : ∃ profile, versionProfile py agent snapshot = .ok profile

/-- Restoring the version does not raise. -/
structure Restores (py : SnapshotPython) (tables : AgentTables) (agent : Agent)
    (snapshot : Dict String Json) : Prop where
  skills : ∀ id ∈ idsOf py snapshot "skill_ids", id ∈ tables.skills
  mcpServers : ∀ id ∈ idsOf py snapshot "mcp_ids", id ∈ tables.mcpServers
  once : (idsOf py snapshot "skill_ids").Nodup ∧ (idsOf py snapshot "mcp_ids").Nodup
  runtimeId : ∀ id, (((part snapshot "runtime").get? "runtime_id").filter truthy).bind
    (fun v => py.uuid (py.str v)) = some id → id ∈ tables.runtimes
  profile : ((part snapshot "runtime").get? "capability_profile").any isObject = true →
    ∃ profile, versionProfile py agent snapshot = .ok profile
  model : (textOr py ((part snapshot "model").get? "name") agent.model).length ≤ 255
  names : restoredVersion py snapshot ≠ "" →
    fitsName (tables.schemas.map (·.version)) (restoredVersion py snapshot) = true ∧
      fitsName (tables.apis.map (·.apiVersion)) (apiVersionName py snapshot) = true

/-- The profile is a dict, or what a direct run makes of it is what the agent has. -/
def KeepsProfile (py : SnapshotPython) (agent : Agent) (snapshot : Dict String Json) : Prop :=
  ((part snapshot "runtime").get? "capability_profile").any isObject = true ∨
    ∃ profile, versionProfile py agent snapshot = .ok profile ∧
      sortKeys profile.toJson = sortKeys agent.capabilityProfile

/-- The place of a schema version in the query once it is published. -/
def publishedKey (clock : Clock) (rows : List SchemaVersion) (version : String) :
    Bool ×ₗ (WithBot Nat)ᵒᵈ ×ₗ Natᵒᵈ :=
  match lookup (·.version) version rows with
  | some row => orderKey .published (some (row.publishedAt.getD clock.now)) row.createdAt
  | none => orderKey .published (some clock.now) clock.transaction

/-- The snapshot names the schema version that `build_agent_snapshot` will read. -/
def NamesSchema (py : SnapshotPython) (clock : Clock) (tables : AgentTables)
    (snapshot : Dict String Json) : Prop :=
  match trueText py ((part snapshot "schema").get? "version") with
  | none => tables.schemas = []
  | some version => IsVersionName version ∧
      (apiVersionName py snapshot = "v1" ∨
        match lookup (·.apiVersion) "v1" tables.apis with
        | some binding => binding.schemaVersion = version
        | none => ∀ row ∈ tables.schemas, row.version ≠ version →
            publishedKey clock tables.schemas version < row.orderKey)

/-- When the readers agree on a snapshot that neither refuses. -/
structure ReadersAgree (py : SnapshotPython) (clock : Clock) (tables : AgentTables) (agent : Agent)
    (snapshot : Dict String Json) : Prop where
  runs : Runs py tables agent snapshot
  restores : Restores py tables agent snapshot
  skills : ∀ id, id ∈ versionSkillIds py snapshot ↔ id ∈ idsOf py snapshot "skill_ids"
  profile : KeepsProfile py agent snapshot
  schema : NamesSchema py clock tables snapshot

/-! ## When the functions raise -/

section Outcomes

variable {py : SnapshotPython} {order : Collation} {clock : Clock} {tables : AgentTables}
  {agent : Agent} {snapshot : Dict String Json}

@[simp] theorem constrain_eq_ok {ok : Bool} {u : Unit} : constrain ok = .ok u ↔ ok = true := by
  cases ok with
  | true => exact iff_of_true rfl rfl
  | false => exact iff_of_false (by rintro ⟨⟩) Bool.false_ne_true

theorem missing_eq_nil {ids stored : List String} :
    ids.eraseDups.filter (· ∉ stored) = [] ↔ ∀ id ∈ ids, id ∈ stored := by
  rw [List.filter_eq_nil_iff]
  simp only [List.mem_eraseDups, decide_eq_true_eq, not_not]

@[simp] theorem checkDependencies_eq_ok {skillIds mcpIds : List String} {complaint : String}
    {u : Unit} : checkDependencies tables skillIds mcpIds complaint = .ok u ↔
      (∀ id ∈ skillIds, id ∈ tables.skills) ∧ ∀ id ∈ mcpIds, id ∈ tables.mcpServers := by
  rw [checkDependencies, check_eq_ok, decide_eq_true_eq, missing_eq_nil, missing_eq_nil]

/-- The runtime that an accepted snapshot names has a UUID. -/
theorem readUuid_of_accepted (h : Accepted py snapshot) {v : Json}
    (hv : (part snapshot "runtime").get? "runtime_id" = some v) (htruthy : truthy v = true) :
    ∃ id, py.uuid (py.str v) = some id ∧ readUuid py v = .ok id := by
  have hsome : (py.uuid (py.str v)).isSome = true := by
    have hall := h.runtimeId
    rw [part] at hv
    rw [hv] at hall
    cases v with
    | null => cases htruthy
    | bool | int | float | string | array | object => exact hall
  obtain ⟨id, hid⟩ := Option.isSome_iff_exists.mp hsome
  exact ⟨id, hid, by rw [readUuid, hid]⟩

theorem versionRuntimeId_ok (h : Accepted py snapshot) :
    ∃ runtimeId, versionRuntimeId py agent snapshot = .ok runtimeId := by
  unfold versionRuntimeId
  cases hv : ((part snapshot "runtime").get? "runtime_id").filter truthy with
  | none => exact ⟨_, rfl⟩
  | some v =>
      obtain ⟨hget, htruthy⟩ := Option.filter_eq_some_iff.mp hv
      obtain ⟨id, -, hread⟩ := readUuid_of_accepted h hget htruthy
      exact ⟨some id, by simp only [hread]; rfl⟩

theorem restoredRuntimeId_ok_iff (h : Accepted py snapshot) :
    (∃ runtimeId, restoredRuntimeId py tables agent snapshot = .ok runtimeId) ↔
      ∀ id, (((part snapshot "runtime").get? "runtime_id").filter truthy).bind
        (fun v => py.uuid (py.str v)) = some id → id ∈ tables.runtimes := by
  unfold restoredRuntimeId
  cases hv : (part snapshot "runtime").get? "runtime_id" with
  | none => exact iff_of_true ⟨_, rfl⟩ (by rintro id ⟨⟩)
  | some v =>
      cases htruthy : truthy v with
      | false =>
          rw [Option.filter_some_neg htruthy]
          exact iff_of_true ⟨none, by simp only [htruthy]; rfl⟩ (by rintro id ⟨⟩)
      | true =>
          obtain ⟨id, hid, hread⟩ := readUuid_of_accepted h hv htruthy
          rw [Option.filter_some_pos htruthy, Option.bind_some, hid]
          simp only [htruthy, if_true, bind_eq_ok, hread, Except.ok.injEq, exists_eq_left',
            constrain_eq_ok, decide_eq_true_eq, Option.some.injEq, forall_eq']
          refine ⟨?_, fun hmem => ⟨some id, (), hmem, rfl⟩⟩
          rintro ⟨_, _, hmem, -⟩
          exact hmem

theorem textOr_eq (v : Option Json) (default : String) :
    textOr py v default = (trueText py v).getD default := by
  rw [textOr, trueText]
  cases v.filter truthy with
  | none => rfl
  | some v => rfl

/-- A profile that is a dict is normalized in both ways alike. -/
theorem restoredProfile_of_object
    (h : ((part snapshot "runtime").get? "capability_profile").any isObject = true) :
    restoredProfile py agent snapshot = (versionProfile py agent snapshot).map (·.toJson) := by
  obtain ⟨value, hv, hobject⟩ := (Option.any_eq_true isObject _).mp h
  simp only [restoredProfile, versionProfile, hv, Option.filter_some_pos hobject, Option.getD_some]
  rfl

/-- A profile that is no dict leaves the agent's. -/
theorem restoredProfile_of_not_object
    (h : ((part snapshot "runtime").get? "capability_profile").any isObject = false) :
    restoredProfile py agent snapshot = .ok agent.capabilityProfile := by
  have hnone : ((part snapshot "runtime").get? "capability_profile").filter isObject = none :=
    Option.filter_eq_none_iff.mpr fun value hv =>
      Bool.not_eq_true _ ▸ (Option.any_eq_false isObject _).mp h value hv
  simp only [restoredProfile, hnone]

theorem restoredProfile_ok_iff :
    (∃ stored, restoredProfile py agent snapshot = .ok stored) ↔
      (((part snapshot "runtime").get? "capability_profile").any isObject = true →
        ∃ profile, versionProfile py agent snapshot = .ok profile) := by
  cases h : ((part snapshot "runtime").get? "capability_profile").any isObject with
  | false => exact iff_of_true ⟨_, restoredProfile_of_not_object h⟩ (by rintro ⟨⟩)
  | true =>
      rw [restoredProfile_of_object h]
      simp only [map_eq_ok, true_implies]
      refine ⟨fun ⟨_, profile, hprofile, _⟩ => ⟨profile, hprofile⟩, ?_⟩
      rintro ⟨profile, hprofile⟩
      exact ⟨profile.toJson, profile, hprofile, rfl⟩

theorem restoreContract_ok_iff :
    (∃ written, restoreContract py clock tables agent snapshot = .ok written) ↔
      (restoredVersion py snapshot ≠ "" →
        fitsName (tables.schemas.map (·.version)) (restoredVersion py snapshot) = true ∧
          fitsName (tables.apis.map (·.apiVersion)) (apiVersionName py snapshot) = true) := by
  unfold restoreContract
  by_cases hversion : restoredVersion py snapshot = ""
  · simp only [dif_pos hversion]
    exact iff_of_true ⟨_, rfl⟩ fun h => absurd hversion h
  · simp only [dif_neg hversion, bind_eq_ok, constrain_eq_ok, Bool.and_eq_true]
    refine ⟨fun ⟨_, _, hfits, _⟩ _ => hfits, fun h => ⟨_, (), h hversion, rfl⟩⟩

variable {valid : ValidSnapshot py}

theorem build_eq_ok {result : RuntimeAgent × SchemaRuntime} :
    buildVersionRuntimeAgent py order tables agent valid.fields = .ok result ↔
      ((∀ id ∈ versionSkillIds py valid.fields, id ∈ tables.skills) ∧
        ∀ id ∈ idsOf py valid.fields "mcp_ids", id ∈ tables.mcpServers) ∧
      ∃ runtimeId, versionRuntimeId py agent valid.fields = .ok runtimeId ∧
        ∃ profile, versionProfile py agent valid.fields = .ok profile ∧
          (runtimeAgent py order tables agent valid.fields runtimeId profile,
            schemaRuntime py valid.fields) = result := by
  simp only [buildVersionRuntimeAgent, bind_eq_ok, valid.valid, checkDependencies_eq_ok]
  refine ⟨?_, ?_⟩
  · rintro ⟨_, -, _, hfound, runtimeId, hruntimeId, profile, hprofile, hresult⟩
    exact ⟨hfound, runtimeId, hruntimeId, profile, hprofile, Except.ok.inj hresult⟩
  · rintro ⟨hfound, runtimeId, hruntimeId, profile, hprofile, rfl⟩
    exact ⟨(), trivial, (), hfound, runtimeId, hruntimeId, profile, hprofile, rfl⟩

theorem runs_iff (order : Collation) : Runs py tables agent valid.fields ↔
    ∃ result, buildVersionRuntimeAgent py order tables agent valid.fields = .ok result := by
  refine ⟨fun h => ?_, ?_⟩
  · obtain ⟨runtimeId, hruntimeId⟩ := versionRuntimeId_ok (accepted_of_validate valid.valid)
    obtain ⟨profile, hprofile⟩ := h.profile
    exact ⟨_, build_eq_ok.mpr ⟨⟨h.skills, h.mcpServers⟩, runtimeId, hruntimeId, profile, hprofile,
      rfl⟩⟩
  · rintro ⟨result, h⟩
    obtain ⟨⟨hskills, hmcps⟩, _, -, profile, hprofile, -⟩ := build_eq_ok.mp h
    exact ⟨hskills, hmcps, profile, hprofile⟩

theorem restore_eq_ok {live : Agent} {written : AgentTables} :
    restoreAgentVersion py clock tables agent valid = .ok (live, written) ↔
      ((∀ id ∈ idsOf py valid.fields "skill_ids", id ∈ tables.skills) ∧
        ∀ id ∈ idsOf py valid.fields "mcp_ids", id ∈ tables.mcpServers) ∧
      ∃ runtimeId, restoredRuntimeId py tables agent valid.fields = .ok runtimeId ∧
        ∃ stored, restoredProfile py agent valid.fields = .ok stored ∧
          live = restoredAgent py agent valid.fields runtimeId stored ∧
          live.model.length ≤ 255 ∧
          ((idsOf py valid.fields "skill_ids").Nodup ∧ (idsOf py valid.fields "mcp_ids").Nodup) ∧
          restoreContract py clock (tables.bindIds (idsOf py valid.fields "skill_ids")
            (idsOf py valid.fields "mcp_ids")) live valid.fields = .ok written := by
  simp only [restoreAgentVersion, bind_eq_ok, checkDependencies_eq_ok, constrain_eq_ok,
    decide_eq_true_eq]
  refine ⟨?_, ?_⟩
  · rintro ⟨_, hfound, runtimeId, hruntimeId, stored, hstored, _, hmodel, _, honce, _, hwritten,
      hresult⟩
    cases hresult
    exact ⟨hfound, runtimeId, hruntimeId, stored, hstored, rfl, hmodel, honce, hwritten⟩
  · rintro ⟨hfound, runtimeId, hruntimeId, stored, hstored, rfl, hmodel, honce, hwritten⟩
    exact ⟨(), hfound, runtimeId, hruntimeId, stored, hstored, (), hmodel, (), honce, written,
      hwritten, rfl⟩

theorem restores_iff (clock : Clock) : Restores py tables agent valid.fields ↔
    ∃ result, restoreAgentVersion py clock tables agent valid = .ok result := by
  have haccepted := accepted_of_validate valid.valid
  refine ⟨fun h => ?_, ?_⟩
  · obtain ⟨runtimeId, hruntimeId⟩ := (restoredRuntimeId_ok_iff haccepted).mpr h.runtimeId
    obtain ⟨stored, hstored⟩ := restoredProfile_ok_iff.mpr h.profile
    have hcontract : ∃ written, restoreContract py clock
        (tables.bindIds (idsOf py valid.fields "skill_ids") (idsOf py valid.fields "mcp_ids"))
        (restoredAgent py agent valid.fields runtimeId stored) valid.fields = .ok written :=
      restoreContract_ok_iff.mpr h.names
    obtain ⟨written, hwritten⟩ := hcontract
    exact ⟨(_, written), restore_eq_ok.mpr ⟨⟨h.skills, h.mcpServers⟩, runtimeId, hruntimeId, stored,
      hstored, rfl, h.model, h.once, hwritten⟩⟩
  · rintro ⟨⟨live, written⟩, h⟩
    obtain ⟨⟨hskills, hmcps⟩, runtimeId, hruntimeId, stored, hstored, rfl, hmodel, honce,
      hwritten⟩ := restore_eq_ok.mp h
    have hnames := restoreContract_ok_iff.mp ⟨written, hwritten⟩
    exact {
      skills := hskills
      mcpServers := hmcps
      once := honce
      runtimeId := (restoredRuntimeId_ok_iff haccepted).mp ⟨runtimeId, hruntimeId⟩
      profile := restoredProfile_ok_iff.mp ⟨stored, hstored⟩
      model := hmodel
      names := hnames }

/-! ## The schema that is read back -/

theorem exists_answer (rows : List SchemaVersion) : ∃ answer, MayAnswer rows answer := by
  cases hfirst : rows.argmin SchemaVersion.orderKey with
  | none => exact ⟨none, List.argmin_eq_none.mp hfirst⟩
  | some row =>
      exact ⟨some row, List.argmin_mem hfirst,
        fun other hother => List.le_of_mem_argmin hother hfirst⟩

/-- The database has to answer with a row just when that row comes before all others. -/
theorem only_answer_iff {rows : List SchemaVersion} {stored : SchemaVersion}
    (hmem : stored ∈ rows) :
    (∀ answer, MayAnswer rows answer → answer = some stored) ↔
      ∀ row ∈ rows, row ≠ stored → stored.orderKey < row.orderKey := by
  refine ⟨fun h row hrow hne => ?_, fun h answer hanswer => ?_⟩
  · by_contra hle
    obtain ⟨answer, hanswer⟩ := exists_answer rows
    have hfirst : ∀ other ∈ rows, stored.orderKey ≤ other.orderKey := by
      rw [h answer hanswer] at hanswer
      exact hanswer.2
    -- A row that is not behind the first one is a first one too.
    have hrow' : MayAnswer rows (some row) :=
      ⟨hrow, fun other hother => (not_lt.mp hle).trans (hfirst other hother)⟩
    exact hne (Option.some.inj (h (some row) hrow'))
  · cases answer with
    | none =>
        rw [hanswer] at hmem
        cases hmem
    | some first =>
        by_contra hne
        have hlt := h first hanswer.1 fun heq => hne (congrArg some heq)
        exact not_le_of_gt hlt (hanswer.2 stored hmem)

/-- The schema of a snapshot is the one that the agent was restored from. -/
def SchemaAgrees (live : Agent) (version : Option String) (schema : Option SchemaVersion) : Prop :=
  schema.map (·.version) = version ∧
    (schema.map (·.inputSchema)).getD live.inputSchema = live.inputSchema ∧
    (schema.map (·.outputSchema)).getD live.outputSchema = live.outputSchema

/-- The row that `publish` leaves. -/
theorem lookup_publish {version : String} {named : IsVersionName version}
    {inputSchema outputSchema : Json} {apiVersion : String} :
    ∃ row, lookup (·.version) version
        (tables.publish clock version named inputSchema outputSchema apiVersion).schemas =
          some row ∧
      row.inputSchema = inputSchema ∧ row.outputSchema = outputSchema ∧
      row.orderKey = publishedKey clock tables.schemas version := by
  have hlookup : lookup (·.version) version
      (tables.publish clock version named inputSchema outputSchema apiVersion).schemas = _ :=
    Table.lookup_upsert_self (fun _ h => h) rfl
  refine ⟨_, hlookup, ?_⟩
  rw [publishedKey]
  cases lookup (·.version) version tables.schemas with
  | some row => exact ⟨rfl, rfl, rfl⟩
  | none => exact ⟨rfl, rfl, rfl⟩

theorem lookup_publish_api {version : String} {named : IsVersionName version}
    {inputSchema outputSchema : Json} {apiVersion : String} :
    ∃ binding, lookup (·.apiVersion) apiVersion
        (tables.publish clock version named inputSchema outputSchema apiVersion).apis =
          some binding ∧ binding.schemaVersion = version := by
  have hlookup : lookup (·.apiVersion) apiVersion
      (tables.publish clock version named inputSchema outputSchema apiVersion).apis = _ :=
    Table.lookup_upsert_self (fun _ h => h) rfl
  refine ⟨_, hlookup, ?_⟩
  cases lookup (·.apiVersion) apiVersion tables.apis with
  | some binding => rfl
  | none => rfl

/-- The schema version that the API version `v1` is bound to is read. -/
theorem snapshotSchema_of_binding {answer : Option SchemaVersion} {binding : AgentAPIVersion}
    (h : lookup (·.apiVersion) "v1" tables.apis = some binding) :
    ∃ row, snapshotSchema tables answer = some row ∧
      lookup (·.version) binding.schemaVersion tables.schemas = some row := by
  cases hrow : lookup (·.version) binding.schemaVersion tables.schemas with
  | none => exact absurd (tables.bound _ (Table.mem_of_lookup h)) (Table.lookup_eq_none.mp hrow)
  | some row => exact ⟨row, by rw [snapshotSchema, h, Option.bind_some, hrow, Option.some_or], rfl⟩

theorem snapshotSchema_of_none {answer : Option SchemaVersion}
    (h : lookup (·.apiVersion) "v1" tables.apis = none) :
    snapshotSchema tables answer = answer := by
  rw [snapshotSchema, h, Option.bind_none, Option.none_or]

theorem publish_agrees_iff {live : Agent} {version apiVersion : String}
    {named : IsVersionName version} {published : AgentTables}
    (hpublished : published = tables.publish clock version named live.inputSchema live.outputSchema
      apiVersion) :
    (∀ answer, MayAnswer published.schemas answer →
        SchemaAgrees live (some version) (snapshotSchema published answer)) ↔
      (apiVersion = "v1" ∨
        match lookup (·.apiVersion) "v1" tables.apis with
        | some binding => binding.schemaVersion = version
        | none => ∀ row ∈ tables.schemas, row.version ≠ version →
            publishedKey clock tables.schemas version < row.orderKey) := by
  have hstored : ∃ stored, lookup (·.version) version published.schemas = some stored ∧
      stored.inputSchema = live.inputSchema ∧ stored.outputSchema = live.outputSchema ∧
      stored.orderKey = publishedKey clock tables.schemas version := hpublished ▸ lookup_publish
  obtain ⟨stored, hlookup, hinput, houtput, hkey⟩ := hstored
  have hunique : ∀ row ∈ published.schemas, row.version = version ↔ row = stored := by
    intro row hrow
    refine ⟨published.schemas_unique.eq_of_lookup hlookup hrow, ?_⟩
    rintro rfl
    have hversion := Table.key_of_lookup hlookup
    exact hversion
  have hagrees : ∀ row ∈ published.schemas,
      SchemaAgrees live (some version) (some row) ↔ row = stored := by
    intro row hrow
    rw [← hunique row hrow]
    refine ⟨fun h => Option.some.inj h.1, fun h => ?_⟩
    obtain rfl := (hunique row hrow).mp h
    exact ⟨congrArg some h, hinput, houtput⟩
  -- What is read where the API version `v1` is bound.
  have hbound : ∀ binding, lookup (·.apiVersion) "v1" published.apis = some binding →
      ∀ answer, SchemaAgrees live (some version) (snapshotSchema published answer) ↔
        binding.schemaVersion = version := by
    intro binding hbinding answer
    obtain ⟨row, hread, hrow⟩ := snapshotSchema_of_binding hbinding
    have hmem := Table.mem_of_lookup hrow
    rw [hread, hagrees row hmem, ← hunique row hmem, Table.key_of_lookup hrow]
  by_cases hapi : apiVersion = "v1"
  · obtain ⟨binding, hbinding, hversion⟩ : ∃ binding,
        lookup (·.apiVersion) "v1" published.apis = some binding ∧
          binding.schemaVersion = version := by
      rw [hpublished, ← hapi]
      exact lookup_publish_api
    exact iff_of_true (fun answer _ => (hbound binding hbinding answer).mpr hversion) (.inl hapi)
  · have hapis : lookup (·.apiVersion) "v1" published.apis =
        lookup (·.apiVersion) "v1" tables.apis := by
      rw [hpublished]
      exact Table.lookup_upsert_of_ne (Ne.symm hapi) (fun _ h => h) rfl
    rw [or_iff_right hapi]
    cases hbinding : lookup (·.apiVersion) "v1" tables.apis with
    | some binding =>
        obtain ⟨answer, hanswer⟩ := exists_answer published.schemas
        have hread := hbound binding (hapis.trans hbinding)
        exact ⟨fun h => (hread answer).mp (h answer hanswer),
          fun h answer _ => (hread answer).mpr h⟩
    | none =>
        have hmem : stored ∈ published.schemas := Table.mem_of_lookup hlookup
        have hanswers : ∀ answer, MayAnswer published.schemas answer →
            (SchemaAgrees live (some version) (snapshotSchema published answer) ↔
              answer = some stored) := by
          intro answer hanswer
          rw [snapshotSchema_of_none (hapis.trans hbinding)]
          cases answer with
          | none =>
              rw [hanswer] at hmem
              cases hmem
          | some row => rw [hagrees row hanswer.1, Option.some.injEq]
        rw [forall₂_congr hanswers, only_answer_iff hmem, hkey]
        refine ⟨fun h row hrow hne => ?_, fun h row hrow hne => ?_⟩
        · have hrow' : row ∈ published.schemas := by
            rw [hpublished]
            exact Table.mem_upsert_of_ne hrow hne
          exact h row hrow' fun heq => hne ((hunique row hrow').mpr heq)
        · have hversion : row.version ≠ version := fun h => hne ((hunique row hrow).mp h)
          rw [hpublished] at hrow
          exact h row (Table.mem_of_mem_upsert hrow hversion (fun _ h => h) rfl) hversion

theorem snapshotSchema_eq_none {answer : Option SchemaVersion}
    (hanswer : MayAnswer tables.schemas answer) :
    snapshotSchema tables answer = none ↔ tables.schemas = [] := by
  cases hbinding : lookup (·.apiVersion) "v1" tables.apis with
  | some binding =>
      obtain ⟨row, hread, hrow⟩ := snapshotSchema_of_binding hbinding
      rw [hread]
      exact iff_of_false (Option.some_ne_none _) (List.ne_nil_of_mem (Table.mem_of_lookup hrow))
  | none =>
      rw [snapshotSchema_of_none hbinding]
      cases answer with
      | none => exact iff_of_true rfl hanswer
      | some row => exact iff_of_false (Option.some_ne_none _) (List.ne_nil_of_mem hanswer.1)

/-- Without a name nothing is written. -/
theorem restoreContract_empty (h : restoredVersion py snapshot = "") :
    restoreContract py clock tables agent snapshot = .ok tables :=
  dif_pos h

theorem restoreContract_named {restored : AgentTables} (h : restoredVersion py snapshot ≠ "")
    (hrestored : restoreContract py clock tables agent snapshot = .ok restored) :
    restored = tables.publish clock (restoredVersion py snapshot) ⟨h, Python.strip_strip _⟩
      agent.inputSchema agent.outputSchema (apiVersionName py snapshot) := by
  simp only [restoreContract, dif_neg h, bind_eq_ok] at hrestored
  obtain ⟨_, -, hresult⟩ := hrestored
  exact (Except.ok.inj hresult).symm

theorem map_schemas_publish {version : String} {named : IsVersionName version}
    {inputSchema outputSchema : Json} {apiVersion : String} :
    (tables.publish clock version named inputSchema outputSchema apiVersion).schemas.map
        (·.toAgentSchemaVersion) =
      upsert (·.version) version
        ({ ·.withSchemas inputSchema outputSchema with status := .published })
        ⟨version, inputSchema, outputSchema, .published⟩
        (tables.schemas.map (·.toAgentSchemaVersion)) :=
  Table.map_upsert _ (fun _ => rfl) fun _ => rfl

/-- The tables are those of the contract's own `restore_agent_version`. -/
theorem contract_restoreContract {row : Production.Agent}
    {versions : List (Production.AgentVersion (Production.AgentSnapshot Json))}
    {restored : AgentTables} {runtimeId : Option String} {stored : Json}
    (h : restoreContract py clock tables (restoredAgent py agent snapshot runtimeId stored)
      snapshot = .ok restored) :
    restored.contract row versions =
      (tables.contract row versions).restoreContract (readContract py snapshot) true := by
  have hname : (readContract py snapshot).restoredSchema = restoredVersion py snapshot := by
    rw [restoredVersion, textOr_eq]
    rfl
  have hapi : (readContract py snapshot).api = apiVersionName py snapshot :=
    (textOr_eq _ _).symm
  by_cases hversion : restoredVersion py snapshot = ""
  · rw [restoreContract_empty hversion, Except.ok.injEq] at h
    rw [Production.Contract.restoreContract_empty _ (hname.trans hversion), h]
  · rw [restoreContract_named hversion h,
      Production.Contract.restoreContract_published _ (hname ▸ hversion), hname, hapi]
    exact congrArg (Production.Contract.mk row versions · _) map_schemas_publish

theorem schema_agrees_iff {live : Agent} {restored : AgentTables}
    (hrestored : restoreContract py clock tables live snapshot = .ok restored) :
    (∀ answer, MayAnswer restored.schemas answer → SchemaAgrees live
        (trueText py ((part snapshot "schema").get? "version")) (snapshotSchema restored answer)) ↔
      NamesSchema py clock tables snapshot := by
  have hname : restoredVersion py snapshot =
      strip ((trueText py ((part snapshot "schema").get? "version")).getD "") := by
    rw [restoredVersion, textOr_eq]
  rw [NamesSchema]
  cases hversion : trueText py ((part snapshot "schema").get? "version") with
  | none =>
      rw [hversion] at hname
      rw [restoreContract_empty hname, Except.ok.injEq] at hrestored
      subst hrestored
      obtain ⟨answer, hanswer⟩ := exists_answer tables.schemas
      refine ⟨fun h => ?_, fun h answer hanswer => ?_⟩
      · exact (snapshotSchema_eq_none hanswer).mp (Option.map_eq_none_iff.mp (h answer hanswer).1)
      · rw [(snapshotSchema_eq_none hanswer).mpr h]
        exact ⟨rfl, rfl, rfl⟩
  | some version =>
      rw [hversion, Option.getD_some] at hname
      by_cases hnamed : IsVersionName version
      · rw [hnamed.2] at hname
        subst hname
        rw [publish_agrees_iff (restoreContract_named hnamed.1 hrestored)]
        exact (and_iff_right hnamed).symm
      · -- Every row has a name, so no row has this one.
        refine iff_of_false (fun h => ?_) fun h => hnamed h.1
        obtain ⟨answer, hanswer⟩ := exists_answer restored.schemas
        obtain ⟨row, -, rfl⟩ := Option.map_eq_some_iff.mp (h answer hanswer).1
        exact hnamed row.named

/-! ## Snapshots of the second format -/

/-- `_snapshot_v2` names the Skills of the snapshot that it is made from, where each has a
    version. -/
theorem versionSkillIds_snapshotV2 {versions : List SkillVersion} {legacy : Dict String Json}
    (hint : py.int (.int 2) = some 2)
    (h : ∀ id ∈ idsOf py legacy "skill_ids", ∃ row ∈ versions, row.skillId = id) :
    versionSkillIds py (snapshotV2 py versions legacy) = idsOf py legacy "skill_ids" := by
  have hformat : formatVersion py (snapshotV2 py versions legacy) 1 = some 2 := by
    rw [formatVersion, snapshotV2, Dict.get?_update]
    exact hint
  have hskills : (snapshotV2 py versions legacy).get? "skills" =
      some (.array (latestSkills py versions (asList (legacy.get? "skill_ids")))) := by
    rw [snapshotV2, Dict.get?_update]
    rfl
  rw [versionSkillIds, hskills, if_pos ⟨hformat, rfl⟩, idsOf, ← List.filterMap_eq_map']
  have hitems (items : List Json) : asList (some (.array items)) = items := rfl
  rw [hitems, latestSkills, List.filterMap_filterMap]
  refine List.filterMap_congr fun skillId hskillId => ?_
  obtain ⟨row, hrow, hid⟩ := h (py.str skillId) (List.mem_map_of_mem hskillId)
  cases hlatest : (versions.filter (·.skillId = py.str skillId)).argmax (·.createdAt) with
  | none =>
      have hmem : row ∈ versions.filter (·.skillId = py.str skillId) :=
        List.mem_filter.mpr ⟨hrow, decide_eq_true hid⟩
      rw [List.argmax_eq_none.mp hlatest] at hmem
      cases hmem
  | some version =>
      have hmem := List.mem_filter.mp (List.argmax_mem hlatest)
      have hversion : version.skillId = py.str skillId := of_decide_eq_true hmem.2
      have htruthy : truthy (.string version.skillId) = true := decide_eq_true version.named
      rw [Option.map_some, Option.bind_some, ← hversion]
      exact congrArg (Option.map py.str) (Option.filter_some_pos htruthy)

/-! ## The configuration that is read back -/

theorem truthy_sortKeys (v : Json) : truthy (sortKeys v) = truthy v := by
  cases v with
  | null | bool | int | float | string => rfl
  | array items =>
      rw [sortKeys, Json.sortItems_eq_map, truthy, truthy, List.isEmpty_map]
  | object members =>
      rw [sortKeys, truthy, truthy, (Json.sortByKey_perm _).isEmpty_eq, Json.sortMembers_eq_map,
        List.isEmpty_map]

theorem orNull_inj {v w : Option String} : orNull v = orNull w ↔ v = w := by
  cases v with
  | none =>
      cases w with
      | none => exact iff_of_true rfl rfl
      | some w => exact iff_of_false (by rintro ⟨⟩) (by rintro ⟨⟩)
  | some v =>
      cases w with
      | none => exact iff_of_false (by rintro ⟨⟩) (by rintro ⟨⟩)
      | some w => exact (Json.string.injEq v w ▸ Option.some.injEq v w ▸ Iff.rfl)

theorem map_str_string (ids : List String) : (ids.map Json.string).map py.str = ids := by
  rw [List.map_map]
  exact List.map_id ids

theorem profile_agrees_iff {profile : CapabilityProfile} {stored : Json}
    (hprofile : versionProfile py agent snapshot = .ok profile)
    (hstored : restoredProfile py agent snapshot = .ok stored) :
    sortKeys profile.toJson = sortKeys stored ↔ KeepsProfile py agent snapshot := by
  cases hobject : ((part snapshot "runtime").get? "capability_profile").any isObject with
  | true =>
      rw [restoredProfile_of_object hobject, hprofile] at hstored
      obtain rfl := Except.ok.inj hstored
      exact iff_of_true rfl (.inl hobject)
  | false =>
      rw [restoredProfile_of_not_object hobject] at hstored
      obtain rfl := Except.ok.inj hstored
      refine ⟨fun h => .inr ⟨profile, hprofile, h⟩, ?_⟩
      rintro (hobject' | ⟨profile', hprofile', h⟩)
      · rw [hobject] at hobject'
        cases hobject'
      · rw [hprofile] at hprofile'
        obtain rfl := Except.ok.inj hprofile'
        exact h

/-- A true text is read alike with any default. -/
theorem textOr_of_truthy {v : Option Json} (h : v.any truthy = true) (d d' : String) :
    textOr py v d = textOr py v d' := by
  obtain ⟨value, rfl, htruthy⟩ := (Option.any_eq_true truthy _).mp h
  rw [textOr, textOr, Option.filter_some_pos htruthy]

theorem restoreContract_ids {restored : AgentTables}
    (h : restoreContract py clock tables agent snapshot = .ok restored) :
    restored.agentSkills = tables.agentSkills ∧ restored.agentMcps = tables.agentMcps := by
  by_cases hversion : restoredVersion py snapshot = ""
  · rw [restoreContract_empty hversion, Except.ok.injEq] at h
    exact h ▸ ⟨rfl, rfl⟩
  · rw [restoreContract_named hversion h]
    exact ⟨rfl, rfl⟩

theorem mem_sort_filter {ids stored : List String} (h : ∀ id ∈ ids, id ∈ stored) (id : String) :
    id ∈ order.sort (stored.filter (· ∈ ids)) ↔ id ∈ ids := by
  rw [(order.perm _).mem_iff, List.mem_filter, decide_eq_true_eq]
  exact and_iff_right_of_imp (h id)

/-- A snapshot of an agent that has the configuration can differ in the schema only. -/
theorem sameSnapshot_iff {direct : RuntimeAgent} {schema : SchemaRuntime} {live : Agent}
    {answer : Option SchemaVersion} (hsame : SameConfiguration direct live tables)
    (hprofile : truthy direct.capabilityProfile = true)
    (hschema : schema.inputSchema = live.inputSchema ∧ schema.outputSchema = live.outputSchema) :
    SameSnapshot py (buildAgentSnapshot order tables live answer) direct schema ↔
      SchemaAgrees live schema.version (snapshotSchema tables answer) := by
  have hschemaRead : (buildAgentSnapshot order tables live answer).get? "schema" = some (.object
      [("version", orNull ((snapshotSchema tables answer).map (·.version))),
        ("input_schema",
          ((snapshotSchema tables answer).map (·.inputSchema)).getD live.inputSchema),
        ("output_schema",
          ((snapshotSchema tables answer).map (·.outputSchema)).getD live.outputSchema)]) := rfl
  have hskills : idsOf py (buildAgentSnapshot order tables live answer) "skill_ids" =
      order.sort tables.agentSkills := map_str_string _
  have hmcps : idsOf py (buildAgentSnapshot order tables live answer) "mcp_ids" =
      order.sort tables.agentMcps := map_str_string _
  refine ⟨fun h => ?_, fun h => ?_⟩
  · have hread := h.schema
    rw [hschemaRead] at hread
    simp only [Option.some.injEq, Json.object.injEq, List.cons.injEq, Prod.mk.injEq, true_and,
      and_true, orNull_inj] at hread
    exact ⟨hread.1, hread.2.1.trans hschema.1, hread.2.2.trans hschema.2⟩
  · have htruthy : truthy live.capabilityProfile = true := by
      rw [← truthy_sortKeys, ← hsame.profile, truthy_sortKeys, hprofile]
    exact {
      prompt := by
        rw [hsame.prompt.1, hsame.prompt.2.1, hsame.prompt.2.2]
        rfl
      model := by
        rw [hsame.model.1, hsame.model.2.1, hsame.model.2.2]
        rfl
      skills := fun id => by rw [hskills, (order.perm _).mem_iff, hsame.skills]
      mcpServers := fun id => by rw [hmcps, (order.perm _).mem_iff, hsame.mcpServers]
      schema := by rw [hschemaRead, h.1, h.2.1, h.2.2, hschema.1, hschema.2]
      profile := by
        rw [hsame.profile]
        have hread : (part (buildAgentSnapshot order tables live answer) "runtime").get?
            "capability_profile" = some (orEmpty live.capabilityProfile) := rfl
        rw [hread, orEmpty, if_pos htruthy]
        rfl }

/-- The ids do not matter for the schema. -/
theorem namesSchema_bindIds {skillIds mcpIds : List String} :
    NamesSchema py clock (tables.bindIds skillIds mcpIds) snapshot ↔
      NamesSchema py clock tables snapshot := by
  simp only [NamesSchema, AgentTables.bindIds]

/-- Two runs agree just when the two configurations do and the schema can be read back. -/
theorem agrees_iff_of_ok (order : Collation) (runtimeId : Option String) {live : Agent}
    {restored : AgentTables} {profile : CapabilityProfile} {stored : Json}
    (hruns : Runs py tables agent valid.fields)
    (hprofile : versionProfile py agent valid.fields = .ok profile)
    (hstored : restoredProfile py agent valid.fields = .ok stored)
    (hlive : ∃ id, live = restoredAgent py agent valid.fields id stored)
    (hrestored : restoreContract py clock (tables.bindIds (idsOf py valid.fields "skill_ids")
      (idsOf py valid.fields "mcp_ids")) live valid.fields = .ok restored) :
    (SameConfiguration (runtimeAgent py order tables agent valid.fields runtimeId profile) live
        restored ∧
      ∀ answer, MayAnswer restored.schemas answer →
        SameSnapshot py (buildAgentSnapshot order restored live answer)
          (runtimeAgent py order tables agent valid.fields runtimeId profile)
          (schemaRuntime py valid.fields)) ↔
      (∀ id, id ∈ versionSkillIds py valid.fields ↔ id ∈ idsOf py valid.fields "skill_ids") ∧
        KeepsProfile py agent valid.fields ∧ NamesSchema py clock tables valid.fields := by
  have haccepted := accepted_of_validate valid.valid
  obtain ⟨hskills, hmcps⟩ := restoreContract_ids hrestored
  obtain ⟨id, rfl⟩ := hlive
  have hconfiguration : SameConfiguration
      (runtimeAgent py order tables agent valid.fields runtimeId profile)
      (restoredAgent py agent valid.fields id stored) restored ↔
        (∀ id, id ∈ versionSkillIds py valid.fields ↔ id ∈ idsOf py valid.fields "skill_ids") ∧
          KeepsProfile py agent valid.fields := by
    have hprofiles := profile_agrees_iff hprofile hstored
    refine ⟨fun h => ⟨fun id => ?_, hprofiles.mp h.profile⟩, fun h => ?_⟩
    · have hid := h.skills id
      rw [hskills] at hid
      exact (mem_sort_filter hruns.skills id).symm.trans hid
    · exact {
        prompt := ⟨rfl, textOr_of_truthy haccepted.systemPrompt _ _,
          textOr_of_truthy haccepted.promptTemplate _ _⟩
        model := ⟨rfl, rfl, rfl⟩
        skills := by
          intro id
          rw [hskills]
          exact (mem_sort_filter hruns.skills id).trans (h.1 id)
        mcpServers := by
          intro id
          rw [hmcps]
          exact mem_sort_filter hruns.mcpServers id
        profile := hprofiles.mpr h.2
        schemas := ⟨rfl, rfl⟩ }
  rw [← and_assoc, ← hconfiguration]
  refine and_congr_right fun hsame => ?_
  rw [← namesSchema_bindIds, ← schema_agrees_iff hrestored]
  exact forall₂_congr fun _ _ => sameSnapshot_iff hsame rfl ⟨rfl, rfl⟩

end Outcomes

/-- The direct run of a version and the agent that is restored from it agree just when the
    snapshot names the same Skills twice, gives the profile that the agent ends with and
    names the schema that a snapshot of the agent reads; or when neither is made. -/
theorem materialisation_agrees_iff (py : SnapshotPython) (order : Collation) (clock : Clock)
    (tables : AgentTables) (agent : Agent) (snapshot : ValidSnapshot py) :
    MaterialisationAgrees py order clock tables agent snapshot ↔
      ReadersAgree py clock tables agent snapshot.fields ∨
        (¬ Runs py tables agent snapshot.fields ∧ ¬ Restores py tables agent snapshot.fields) := by
  unfold MaterialisationAgrees
  cases hbuild : buildVersionRuntimeAgent py order tables agent snapshot.fields with
  | error e =>
      have hnot : ¬ Runs py tables agent snapshot.fields := by
        rw [runs_iff order, hbuild]
        rintro ⟨_, ⟨⟩⟩
      cases hrestore : restoreAgentVersion py clock tables agent snapshot with
      | error e' =>
          have hnot' : ¬ Restores py tables agent snapshot.fields := by
            rw [restores_iff clock, hrestore]
            rintro ⟨_, ⟨⟩⟩
          exact iff_of_true trivial (.inr ⟨hnot, hnot'⟩)
      | ok result =>
          have hrestores := (restores_iff clock).mpr ⟨result, hrestore⟩
          refine iff_of_false id ?_
          rintro (h | h)
          · exact hnot h.runs
          · exact h.2 hrestores
  | ok result =>
      have hruns : Runs py tables agent snapshot.fields := (runs_iff order).mpr ⟨result, hbuild⟩
      cases hrestore : restoreAgentVersion py clock tables agent snapshot with
      | error e' =>
          have hnot' : ¬ Restores py tables agent snapshot.fields := by
            rw [restores_iff clock, hrestore]
            rintro ⟨_, ⟨⟩⟩
          refine iff_of_false id ?_
          rintro (h | h)
          · exact hnot' h.restores
          · exact h.1 hruns
      | ok result' =>
          have hrestores := (restores_iff clock).mpr ⟨result', hrestore⟩
          obtain ⟨-, runtimeId, -, profile, hprofile, rfl⟩ := build_eq_ok.mp hbuild
          obtain ⟨live, restored⟩ := result'
          obtain ⟨-, id, -, stored, hstored, hlive, -, -, hrestored⟩ := restore_eq_ok.mp hrestore
          have hagrees := agrees_iff_of_ok order runtimeId hruns hprofile hstored
            ⟨id, hlive⟩ hrestored
          refine hagrees.trans ⟨?_, ?_⟩
          · rintro ⟨hskills, hprofile, hschema⟩
            exact .inl ⟨hruns, hrestores, hskills, hprofile, hschema⟩
          · rintro (h | h)
            · exact ⟨h.skills, h.profile, h.schema⟩
            · exact absurd hruns h.1

/-- A version of the second format whose `skills` and `skill_ids` name two Skills. -/
def twoSkills : Dict String Json :=
  Dict.ofPairs
    [("format_version", .int 2),
      ("prompt", .object
        [("role", .string "reader"), ("system_prompt", .string "Read."),
          ("prompt_template", .string "\x7b\x7binput\x7d\x7d")]),
      ("model", .object
        [("name", .string "qwen"), ("adapter", .string "qwen"), ("config", .object [])]),
      ("skill_ids", .array [.string "skill-a"]),
      ("skills", .array [.object [("skill_id", .string "skill-b")]]),
      ("mcp_ids", .array []),
      ("schema", .object
        [("version", .string "v1"), ("input_schema", .object []), ("output_schema", .object [])]),
      ("api", .object [("version", .string "v1")]),
      ("runtime", .object
        [("response_mode", .string "sync"), ("runtime_type", .string "hermes"),
          ("runtime_config", .object []), ("capability_profile", .object [])])]

/-- Python, as far as the example needs it. -/
def examplePython : SnapshotPython where
  repr _ := ""
  int
    | .int n => some n
    | _ => none
  uuid _ := none
  lower := Python.asciiLower
  checkSchema _ := none

def exampleOrder : Collation where
  sort := List.insertionSort (· ≤ ·)
  perm := List.perm_insertionSort _

def exampleTables : AgentTables where
  skills := ["skill-a", "skill-b"]
  mcpServers := []
  runtimes := []
  agentSkills := []
  agentMcps := []
  schemas := [⟨⟨"v1", .object [], .object [], .draft⟩, 0, none, by decide⟩]
  apis := []
  schemas_unique := List.nodup_singleton _
  bound := by rintro _ ⟨⟩

def exampleAgent : Agent :=
  ⟨"reader", "Read.", "\x7b\x7binput\x7d\x7d", "qwen", "qwen", .object [], .sync, .hermes, none,
    .object [], .object [], .object [], .object []⟩

theorem twoSkills_valid : validateAgentSnapshot examplePython twoSkills = .ok () := by
  decide

/-- The direct run has the one Skill, the agent that is restored has the other. -/
theorem twoSkills_disagree :
    ¬ MaterialisationAgrees examplePython exampleOrder ⟨1, 1⟩ exampleTables exampleAgent
      ⟨twoSkills, twoSkills_valid⟩ := by
  obtain ⟨direct, schema, hbuild, hskill⟩ : ∃ direct schema,
      buildVersionRuntimeAgent examplePython exampleOrder exampleTables exampleAgent twoSkills =
        .ok (direct, schema) ∧ direct.skills = ["skill-b"] := ⟨_, _, rfl, rfl⟩
  obtain ⟨live, restored, hrestore, hskills⟩ : ∃ live restored,
      restoreAgentVersion examplePython ⟨1, 1⟩ exampleTables exampleAgent
        ⟨twoSkills, twoSkills_valid⟩ = .ok (live, restored) ∧
          restored.agentSkills = ["skill-a"] := ⟨_, _, rfl, rfl⟩
  intro h
  unfold MaterialisationAgrees at h
  rw [hbuild, hrestore] at h
  have hmem : "skill-b" ∈ restored.agentSkills := (h.1.skills "skill-b").mp (by rw [hskill]; decide)
  rw [hskills] at hmem
  exact absurd hmem (by decide)

end Snapshots
end HermesPlatform
