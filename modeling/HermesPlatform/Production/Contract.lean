/-
  HermesPlatform.Production.Contract

  The public contract of one agent: its schema versions, its API versions, and
  every operation that writes them.

  The published contract comes from two sides.  The contract's own operations move
  a version through its lifecycle; publishing an agent version or rolling back to
  one applies the contract of a snapshot that was taken earlier.
-/

import HermesPlatform.Lib.Python
import HermesPlatform.Lib.Table
import HermesPlatform.Production.Sessions

namespace HermesPlatform
namespace Production

open Python Table Transition

/-! ## Rows -/

/-- The status of a schema version or of an API version. -/
inductive ContractStatus where
  | draft
  | testing
  | published
  | deprecated
  | disabled
deriving DecidableEq, Repr

namespace ContractStatus

/-- `status in {"draft", "testing"}`. -/
def isDraft : ContractStatus → Bool
  | .draft | .testing => true
  | .published | .deprecated | .disabled => false

/-- The statuses that `publish_agent` takes. -/
def available : ContractStatus → Bool
  | .draft | .testing | .published | .deprecated => true
  | .disabled => false

/-- `TRANSITIONS`. -/
def transitions : ContractStatus → List ContractStatus
  | .draft => [.testing]
  | .testing => [.published]
  | .published => [.deprecated]
  | .deprecated => [.disabled]
  | .disabled => []

def text : ContractStatus → String
  | .draft => "draft"
  | .testing => "testing"
  | .published => "published"
  | .deprecated => "deprecated"
  | .disabled => "disabled"

end ContractStatus

def VersionStatus.text : VersionStatus → String
  | .development => "development"
  | .testing => "testing"
  | .releaseCandidate => "release_candidate"
  | .published => "published"
  | .deprecated => "deprecated"

def AgentStatus.text : AgentStatus → String
  | .active => "active"
  | .inactive => "inactive"
  | .archived => "archived"

/-- The test of `VERSION_PATTERN`, a `v` and a number of at most nine digits. -/
def versionPattern (version : String) : Bool :=
  match version.toList with
  | 'v' :: first :: rest =>
      ('1' ≤ first && first ≤ '9') && rest.length ≤ 8 && rest.all fun c => '0' ≤ c && c ≤ '9'
  | _ => false

/-- A version name that a request can have. -/
structure VersionName where
  name : String
  pattern : versionPattern name = true

/-- A row of `agent_schema_versions`; `σ` are the JSON schemas. -/
structure AgentSchemaVersion (σ : Type) where
  version : String
  inputSchema : σ
  outputSchema : σ
  status : ContractStatus

/-- The update of a row's schemas. -/
def AgentSchemaVersion.withSchemas {σ : Type} (row : AgentSchemaVersion σ) (inputSchema outputSchema : σ) :
    AgentSchemaVersion σ :=
  { row with inputSchema, outputSchema }

/-- A draft gets published, a released version keeps its status. -/
def AgentSchemaVersion.publish {σ : Type} (row : AgentSchemaVersion σ) : AgentSchemaVersion σ :=
  { row with status := if row.status.isDraft then .published else row.status }

theorem AgentSchemaVersion.publish_released {σ : Type} {row : AgentSchemaVersion σ}
    (h : row.status.isDraft = false) : row.publish = row := by
  rw [publish, h]
  rfl

/-- A row of `agent_api_versions`. -/
structure AgentAPIVersion where
  apiVersion : String
  /-- The schema version that the row is bound to. -/
  schemaVersion : String
  status : ContractStatus

/-- What a snapshot says about the contract. -/
structure AgentSnapshot (σ : Type) where
  /-- The text of the schema's version, where the value is true. -/
  schemaVersion : Option String
  /-- The input schema, where it is an object. -/
  inputSchema : Option σ
  outputSchema : Option σ
  /-- The text of the API's version, where the value is true. -/
  apiVersion : Option String

namespace AgentSnapshot

variable {σ : Type} (snapshot : AgentSnapshot σ)

/-- The schema version that `publish_agent` publishes. -/
def publishedSchema : String := snapshot.schemaVersion.getD "v1"

/-- The schema version that `restore_agent_version` writes, if the name is not
    empty. -/
def restoredSchema : String := strip (snapshot.schemaVersion.getD "")

def api : String := snapshot.apiVersion.getD "v1"

variable [EmptyCollection σ]

def input : σ := snapshot.inputSchema.getD ∅

def output : σ := snapshot.outputSchema.getD ∅

end AgentSnapshot

/-- The tables of one agent. -/
structure Contract (σ : Type) where
  agent : Agent
  versions : List (AgentVersion (AgentSnapshot σ))
  schemas : List (AgentSchemaVersion σ)
  apis : List AgentAPIVersion

/-! ## Tests -/

/-- A test that raises with a detail where it fails. -/
def require (ok : Prop) [Decidable ok] (detail : String) : Except String Unit :=
  if ok then .ok () else .error detail

@[simp] theorem require_eq_ok {ok : Prop} [Decidable ok] {detail : String} {u : Unit} :
    require ok detail = .ok u ↔ ok := by
  unfold require
  split <;> simp_all

/-- A row that must be there. -/
def found {α : Type} (row : Option α) (detail : String) : Except String α :=
  row.elim (.error detail) .ok

@[simp] theorem found_eq_ok {α : Type} {row : Option α} {detail : String} {a : α} :
    found row detail = .ok a ↔ row = some a := by
  cases row <;> simp [found]

def ensureAgentEditable (agent : Agent) : Except String Unit :=
  require (¬ (agent.status = .archived ∨ agent.currentVersionId ≠ none))
    "Agent live configuration is immutable; edit an Agent Version instead"

/-- `_transition`. -/
def checkTransition (current target : ContractStatus) : Except String Unit :=
  require (target = current ∨ target ∈ current.transitions)
    ("invalid lifecycle transition: " ++ current.text ++ " -> " ++ target.text)

namespace Contract

/-! ## Schema versions and API versions -/

section Operations

variable {σ : Type} (c : Contract σ)

def getSchema (version : String) : Except String (AgentSchemaVersion σ) :=
  found (lookup (·.version) version c.schemas) "Schema version not found"

def getApi (apiVersion : String) : Except String AgentAPIVersion :=
  found (lookup (·.apiVersion) apiVersion c.apis) "API version not found"

/-- `template` is the outcome of `validate_prompt_template`. -/
def createSchemaVersion (version : VersionName) (inputSchema outputSchema : σ)
    (template : Except String Unit) : Except String (Contract σ) := do
  ensureAgentEditable c.agent
  template
  require (version.name ∉ c.schemas.map (·.version)) "Schema version already exists"
  return { c with schemas := c.schemas ++ [⟨version.name, inputSchema, outputSchema, .draft⟩] }

def deleteSchemaVersion (version : String) : Except String (Contract σ) := do
  ensureAgentEditable c.agent
  let value ← getSchema c version
  require (value.status.isDraft = true) "published Schema versions cannot be deleted"
  require (¬ ∃ api ∈ c.apis, api.schemaVersion = version)
    "Schema version is bound to an API version"
  return { c with schemas := delete (·.version) version c.schemas }

def updateSchemaVersion (version : String) (inputSchema outputSchema : σ)
    (template : Except String Unit) : Except String (Contract σ) := do
  ensureAgentEditable c.agent
  let value ← getSchema c version
  require (value.status.isDraft = true) "published Schema versions are immutable"
  template
  return { c with
    schemas := modify (·.version) version (·.withSchemas inputSchema outputSchema) c.schemas }

/-- The older operation of `api/agents.py`, for the schema version `v1`. -/
def updateAgentSchema (inputSchema outputSchema : σ) (template : Except String Unit) :
    Except String (Contract σ) := do
  require (c.agent.status ≠ .archived) "archived Agents are immutable"
  require (c.agent.currentVersionId = none)
    "published Agent configuration is immutable; create and edit a new Version"
  let value ← found (lookup (·.version) "v1" c.schemas) "Agent v1 Schema version is missing"
  require (value.status.isDraft = true)
    "published Schema versions are immutable; create a new Schema version"
  template
  return { c with
    schemas := modify (·.version) "v1" (·.withSchemas inputSchema outputSchema) c.schemas }

def updateSchemaStatus (version : String) (target : ContractStatus) :
    Except String (Contract σ) := do
  let value ← getSchema c version
  checkTransition value.status target
  require (target = .published → c.agent.status = .active)
    "only active Agents can publish Schema versions"
  return { c with schemas := modify (·.version) version ({ · with status := target }) c.schemas }

def createApiVersion (apiVersion : VersionName) (schemaVersion : String) :
    Except String (Contract σ) := do
  ensureAgentEditable c.agent
  let schema ← getSchema c schemaVersion
  require (apiVersion.name ∉ c.apis.map (·.apiVersion)) "API version already exists"
  return { c with apis := c.apis ++ [⟨apiVersion.name, schema.version, .draft⟩] }

def deleteApiVersion (apiVersion : String) : Except String (Contract σ) := do
  ensureAgentEditable c.agent
  let value ← getApi c apiVersion
  require (value.status.isDraft = true) "published API versions cannot be deleted"
  return { c with apis := delete (·.apiVersion) apiVersion c.apis }

def updateApiBinding (apiVersion schemaVersion : String) : Except String (Contract σ) := do
  ensureAgentEditable c.agent
  let value ← getApi c apiVersion
  require (value.status.isDraft = true) "published API bindings are immutable"
  let schema ← getSchema c schemaVersion
  return { c with
    apis := modify (·.apiVersion) apiVersion ({ · with schemaVersion := schema.version }) c.apis }

def updateApiStatus (apiVersion : String) (target : ContractStatus) :
    Except String (Contract σ) := do
  let value ← getApi c apiVersion
  checkTransition value.status target
  require (target = .published →
      ∃ schema ∈ c.schemas, schema.version = value.schemaVersion ∧ schema.status = .published)
    "API requires a published Schema version"
  require (target = .published → c.agent.status = .active) "only active Agents can publish APIs"
  return { c with
    apis := modify (·.apiVersion) apiVersion ({ · with status := target }) c.apis }

end Operations

/-! ## Publication and rollback -/

section Publication

variable {σ : Type} (c : Contract σ)

/-- The schema version and the API version that a snapshot names are published. -/
def publishContract (snapshot : AgentSnapshot σ) : Except String (Contract σ) := do
  let schema ← found (lookup (·.version) snapshot.publishedSchema c.schemas)
    ("Agent " ++ snapshot.publishedSchema ++ " Schema version is missing")
  require (schema.status.available = true) "Agent v1 Schema version is unavailable"
  require (∀ api, lookup (·.apiVersion) snapshot.api c.apis = some api → api.status.available = true)
    "Agent v1 API version is unavailable"
  return { c with
    schemas := modify (·.version) snapshot.publishedSchema (·.publish) c.schemas
    apis := upsert (·.apiVersion) snapshot.api
      ({ · with schemaVersion := schema.version, status := .published })
      ⟨snapshot.api, schema.version, .published⟩ c.apis }

variable [EmptyCollection σ]

/-- The contract part of `restore_agent_version`. -/
def restoreContract (snapshot : AgentSnapshot σ) (publishContract : Bool) : Contract σ :=
  let version := snapshot.restoredSchema
  if version = "" then c
  else
    let status : ContractStatus := if publishContract then .published else .testing
    let schemas := upsert (·.version) version
      ({ ·.withSchemas snapshot.input snapshot.output with status })
      ⟨version, snapshot.input, snapshot.output, status⟩ c.schemas
    let apis :=
      if publishContract then
        upsert (·.apiVersion) snapshot.api
          ({ · with schemaVersion := version, status := .published })
          ⟨snapshot.api, version, .published⟩ c.apis
      else c.apis
    { c with schemas, apis }

theorem restoreContract_empty {snapshot : AgentSnapshot σ} (h : snapshot.restoredSchema = "")
    (publishContract : Bool) : c.restoreContract snapshot publishContract = c :=
  if_pos h

/-- The rows of a published contract. -/
theorem restoreContract_published {snapshot : AgentSnapshot σ}
    (h : snapshot.restoredSchema ≠ "") :
    c.restoreContract snapshot true = { c with
      schemas := upsert (·.version) snapshot.restoredSchema
        ({ ·.withSchemas snapshot.input snapshot.output with status := .published })
        ⟨snapshot.restoredSchema, snapshot.input, snapshot.output, .published⟩ c.schemas
      apis := upsert (·.apiVersion) snapshot.api
        ({ · with schemaVersion := snapshot.restoredSchema, status := .published })
        ⟨snapshot.api, snapshot.restoredSchema, .published⟩ c.apis } :=
  if_neg h

/-- `dependencies` is the outcome of the search for the snapshot's Skills and MCP
    servers. -/
def restoreAgentVersion (snapshot : AgentSnapshot σ) (publishContract : Bool)
    (dependencies : Except String Unit) : Except String (Contract σ) := do
  dependencies
  return restoreContract c snapshot publishContract

omit [EmptyCollection σ] in
/-- The version becomes the published one and the agent's current one. -/
def makeCurrent (id : Nat) : Contract σ :=
  { c with
    agent := ⟨.active, some id⟩
    versions := c.versions.map fun row =>
      if row.id = id then { row with status := .published }
      else if row.status = .published then { row with status := .deprecated }
      else row }

def publishAgent (version : AgentVersion (AgentSnapshot σ)) (dependencies : Except String Unit) :
    Except String (Contract σ) := do
  require (version.status = .releaseCandidate)
    "only a Release Candidate Agent version can be published"
  let published ← publishContract c version.snapshot
  let restored ← restoreAgentVersion published version.snapshot true dependencies
  return makeCurrent restored version.id

def rollbackAgentVersion (version : AgentVersion (AgentSnapshot σ))
    (dependencies : Except String Unit) : Except String (Contract σ) := do
  require (version.status = .deprecated) "only a deprecated Agent version can be rolled back"
  let restored ← restoreAgentVersion c version.snapshot true dependencies
  return makeCurrent restored version.id

end Publication

/-! ## Agent versions and requests -/

section Requests

variable {σ : Type} (c : Contract σ)

def getVersion (id : Nat) : Except String (AgentVersion (AgentSnapshot σ)) :=
  found (lookup (·.id) id c.versions) "Agent version not found"

def createAgentVersion (id : Nat) (snapshot : AgentSnapshot σ) : Except String (Contract σ) := do
  require (c.agent.status ≠ .archived) "archived Agents are immutable"
  require (id ∉ c.versions.map (·.id)) "Agent version already exists"
  return { c with versions := c.versions ++ [⟨id, .development, snapshot⟩] }

/-- `valid` is the outcome of `validate_agent_snapshot`. -/
def updateAgentVersion (id : Nat) (snapshot : AgentSnapshot σ) (valid : Except String Unit) :
    Except String (Contract σ) := do
  let value ← getVersion c id
  require (value.status.isDraft = true) "published and deprecated Agent versions are immutable"
  valid
  return { c with versions := modify (·.id) id ({ · with snapshot }) c.versions }

/-- The request model admits only drafts as targets. -/
def transitionAgentVersion (id : Nat) (target : VersionStatus) : Except String (Contract σ) := do
  let value ← getVersion c id
  require (target.isDraft = true ∧
      (target = value.status ∨ target ∈ versionTransitions value.status))
    ("invalid Agent Version transition: " ++ value.status.text ++ " -> " ++ target.text)
  return { c with versions := modify (·.id) id ({ · with status := target }) c.versions }

def transitionAgent (target : AgentStatus) : Except String (Contract σ) := do
  require (target = c.agent.status ∨ target ∈ agentTransitions c.agent.status)
    ("invalid Agent lifecycle transition: " ++ c.agent.status.text ++ " -> " ++ target.text)
  return { c with agent := { c.agent with status := target } }

/-- The first commit of the console. -/
def makeCandidate (id : Nat) : Contract σ :=
  { c with versions := modify (·.id) id ({ · with status := .releaseCandidate }) c.versions }

variable [EmptyCollection σ]

/-- `publish_agent` of the API; `checks` is the outcome of the capability, runtime
    and health checks. -/
def apiPublishAgent (id : Nat) (checks dependencies : Except String Unit) :
    Except String (Contract σ) := do
  require (c.agent.status = .active) "only active Agents can publish a Version"
  let version ← getVersion c id
  require (version.status = .releaseCandidate)
    "only a Release Candidate Agent version can be published"
  checks
  publishAgent c version dependencies

/-- `console_publish_agent`: the draft is made a release candidate and committed,
    and stays one where the publication fails. -/
def consolePublishAgent (id : Nat) (checks dependencies : Except String Unit) :
    Except String (Contract σ) := do
  let draft ← found ((lookup (·.id) id c.versions).filter (·.status.isDraft)) "Agent 或草稿不存在"
  checks
  let candidate := { draft with status := .releaseCandidate }
  match publishAgent (makeCandidate c id) candidate dependencies with
  | .ok published => return published
  | .error _ => return makeCandidate c id

def rollbackAgent (id : Nat) (dependencies : Except String Unit) : Except String (Contract σ) := do
  require (c.agent.status = .active) "only active Agents can be rolled back"
  let value ← getVersion c id
  rollbackAgentVersion c value dependencies

end Requests

end Contract

/-! ## The system -/

/-- The operations, with what the requests carry and what the tests outside the
    contract say. -/
inductive Operation (σ : Type) where
  | createSchemaVersion (version : VersionName) (inputSchema outputSchema : σ)
      (template : Except String Unit)
  | deleteSchemaVersion (version : String)
  | updateSchemaVersion (version : String) (inputSchema outputSchema : σ)
      (template : Except String Unit)
  | updateAgentSchema (inputSchema outputSchema : σ) (template : Except String Unit)
  | updateSchemaStatus (version : String) (target : ContractStatus)
  | createApiVersion (apiVersion : VersionName) (schemaVersion : String)
  | deleteApiVersion (apiVersion : String)
  | updateApiBinding (apiVersion schemaVersion : String)
  | updateApiStatus (apiVersion : String) (target : ContractStatus)
  | createAgentVersion (id : Nat) (snapshot : AgentSnapshot σ)
  | updateAgentVersion (id : Nat) (snapshot : AgentSnapshot σ) (valid : Except String Unit)
  | transitionAgentVersion (id : Nat) (target : VersionStatus)
  | transitionAgent (target : AgentStatus)
  | publishAgent (id : Nat) (checks dependencies : Except String Unit)
  | consolePublishAgent (id : Nat) (checks dependencies : Except String Unit)
  | rollbackAgent (id : Nat) (dependencies : Except String Unit)

namespace Contract

variable {σ : Type}

def run [EmptyCollection σ] (c : Contract σ) : Operation σ → Except String (Contract σ)
  | .createSchemaVersion version inputSchema outputSchema template =>
      c.createSchemaVersion version inputSchema outputSchema template
  | .deleteSchemaVersion version => c.deleteSchemaVersion version
  | .updateSchemaVersion version inputSchema outputSchema template =>
      c.updateSchemaVersion version inputSchema outputSchema template
  | .updateAgentSchema inputSchema outputSchema template =>
      c.updateAgentSchema inputSchema outputSchema template
  | .updateSchemaStatus version target => c.updateSchemaStatus version target
  | .createApiVersion apiVersion schemaVersion => c.createApiVersion apiVersion schemaVersion
  | .deleteApiVersion apiVersion => c.deleteApiVersion apiVersion
  | .updateApiBinding apiVersion schemaVersion => c.updateApiBinding apiVersion schemaVersion
  | .updateApiStatus apiVersion target => c.updateApiStatus apiVersion target
  | .createAgentVersion id snapshot => c.createAgentVersion id snapshot
  | .updateAgentVersion id snapshot valid => c.updateAgentVersion id snapshot valid
  | .transitionAgentVersion id target => c.transitionAgentVersion id target
  | .transitionAgent target => c.transitionAgent target
  | .publishAgent id checks dependencies => c.apiPublishAgent id checks dependencies
  | .consolePublishAgent id checks dependencies => c.consolePublishAgent id checks dependencies
  | .rollbackAgent id dependencies => c.rollbackAgent id dependencies

/-- The rows after `create_agent`. -/
def Created (c : Contract σ) : Prop :=
  c.agent.currentVersionId = none ∧ c.versions = [] ∧ c.apis = [] ∧
    ∃ inputSchema outputSchema, c.schemas = [⟨"v1", inputSchema, outputSchema, .draft⟩]

end Contract

/-- The operations one after another; an operation that raises changes nothing. -/
def contractSystem (σ : Type) [EmptyCollection σ] : System (Contract σ) (Operation σ) where
  init := Contract.Created
  step c op := (c.run op).toOption

end Production
end HermesPlatform
