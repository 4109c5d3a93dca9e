/-
  HermesPlatform.Production.PublicAudit

  One call of the public agent endpoint: `_execute_public_agent`, and the generator
  `_public_sse_events` of its streaming response, with the audit row that
  `_record_public_audit` writes.

  A call is suspended at one await, or at one `yield` of the generator, at a time.  What is
  awaited returns or raises, and the code runs on to the next suspension; a generator that
  is suspended at a `yield` is resumed, closed or cancelled there.  `request_id` is unique in
  `audit_logs`, so that a second row of a call cannot be committed.
-/

import HermesPlatform.Lib.Transition
import HermesPlatform.Production.Metrics

namespace HermesPlatform
namespace Production
namespace PublicAudit

open Transition
open Metrics (CallStatus)

/-! ## Data -/

/-- The exceptions that the code tells apart. -/
inductive Exc where
  | http (status : Nat)
  | redisError
  | hermesRuntimeError
  /-- Its subclasses are `ValidationError` and `JSONDecodeError`. -/
  | valueError
  | agentMemoryError
  | artifactStorageError
  /-- Any other subclass of `Exception`. -/
  | other
  | cancelledError
  | generatorExit
deriving DecidableEq, Repr

/-- What `except Exception` catches. -/
def Exc.isException : Exc → Bool
  | .cancelledError => false
  | .generatorExit => false
  | _ => true

/-- What a database call can raise. -/
def Exc.ofDatabase : Exc → Bool
  | .http _ => false
  | .generatorExit => false
  | _ => true

inductive Mode where
  | sync
  | stream
deriving DecidableEq, Repr

structure Agent where
  id : String
  status : String
  currentVersionId : Option String
  apiEnabled : Bool
  responseMode : Mode
deriving DecidableEq, Repr

/-- An authenticated API client and its key. -/
structure Authentication where
  clientId : String
  apiKeyId : String
deriving DecidableEq, Repr

structure ApiBinding where
  status : String
  schemaStatus : String
  /-- What `validate_instance` raises on the input. -/
  validation : Option Exc
deriving DecidableEq, Repr

/-- The arguments of the endpoint. -/
structure PublicRequest where
  responseMode : Option Mode
  forcedMode : Option Mode
  xApiKey : Option String
  authorization : Option String
  /-- `_public_payload`, its input as the text that `json.dumps` gives; none where it raises
      `ValidationError`. -/
  publicPayload : Option (String × Option Mode)
deriving DecidableEq, Repr

/-- `_bearer_token` -/
def bearerToken : Option String → Option String
  | some value =>
      if "Bearer ".toList.isPrefixOf value.toList then some (String.ofList (value.toList.drop 7))
      else none
  | none => none

/-- `x_api_key or _bearer_token(authorization)` -/
def PublicRequest.presentedKey (request : PublicRequest) : Option String :=
  match request.xApiKey with
  | some key => if key ≠ "" then some key else bearerToken request.authorization
  | none => bearerToken request.authorization

/-- The length that `AgentRunRequest` accepts. -/
def inputFits (input : String) : Bool := 1 ≤ input.length && input.length ≤ 100000

/-- `PublicAuditContext` -/
structure AuditContext where
  agentId : Option String
  clientId : Option String
  apiKeyId : Option String
  recorded : Bool
deriving DecidableEq, Repr

/-- A row of `audit_logs`. -/
structure AuditRow where
  agentId : Option String
  clientId : Option String
  apiKeyId : Option String
  status : CallStatus
  tokenUsage : Option Nat
  mcpCallCount : Nat
  errorCode : Option String
deriving DecidableEq, Repr

/-- An event of the response. -/
inductive Sse where
  | start
  | schemaInput
  | mapped
  | schemaOutput
  | finish
  | error
deriving DecidableEq, Repr

/-- What follows a `_record_public_audit`. -/
inductive After where
  | raise (e : Exc)
  /-- The `PublicAgentRunResponse`. -/
  | respond
  /-- In the `try` of the generator, the events of the end. -/
  | finish
  /-- The generator yields an `error` event. -/
  | errorEvent
  /-- The `CancelledError` is raised again. -/
  | reraise
deriving DecidableEq, Repr

structure Recording where
  status : CallStatus
  tokenUsage : Option Nat
  mcpCallCount : Nat
  errorCode : Option String
  next : After
deriving DecidableEq, Repr

inductive Exit where
  | response
  | raised (e : Exc)
  /-- The generator has come to its end. -/
  | finished
  /-- The generator goes away without having been started. -/
  | dropped
deriving DecidableEq, Repr

/-- Where a call is suspended. -/
inductive Phase where
  | getAgent
  | getPublication (responseMode : Mode)
  | authenticateApiKey (responseMode : Mode)
  | authenticateClientKey (responseMode : Mode)
  | hasInvokePermission (responseMode : Mode)
  | enforceRateLimit (responseMode : Mode)
  | getApiVersion (responseMode : Mode)
  | prepareExecution
  | executeSync
  | observability
  | recording (r : Recording)
  /-- The `StreamingResponse` is returned and the generator has not been started. -/
  | responding
  | yieldStart
  | yieldSchemaInput
  | getExecution
  /-- In the `async for` of `stream_prepared_agent`. -/
  | streaming
  | yieldEvent
  | observabilityCompleted
  | observabilityFailed
  | yieldSchemaOutput
  | yieldEnd
  | yieldError
  | ended (exit : Exit)
deriving DecidableEq, Repr

structure Call where
  request : PublicRequest
  phase : Phase
  audit : AuditContext
  /-- The rows with its `request_id`. -/
  rows : List AuditRow
  /-- The preparation of the execution, or the execution, has been called. -/
  started : Bool
  /-- The run has completed and its output is valid. -/
  completed : Bool
  /-- The events that have been yielded. -/
  sent : List Sse
deriving DecidableEq, Repr

inductive Event where
  | agent (value : Option Agent)
  | publication (status : Option String)
  | apiKey (authentication : Option Authentication)
  | clientKey (authentication : Option Authentication)
  | permission (granted : Bool)
  | rateLimit (allowed : Bool)
  | apiVersion (binding : Option ApiBinding)
  | prepared
  /-- A run, and whether `_validate_public_output` accepts its output. -/
  | executed (valid : Bool)
  | observed (tokenUsage : Option Nat) (mcpCallCount : Nat)
  | committed
  /-- The commit is done and the refresh after it raises. -/
  | committedRaised (e : Exc)
  | execution (found : Bool)
  /-- An event other than `run.completed`, and whether `_map_hermes_event` maps it. -/
  | event (mapped : Bool)
  | runCompleted (valid : Bool)
  | exhausted
  /-- The generator is asked for its next value. -/
  | next
  | dropped
  | raised (e : Exc)
deriving DecidableEq, Repr

/-! ## The code -/

namespace Call

variable (c : Call)

def goTo (phase : Phase) : Call := { c with phase := phase }

/-- The generator yields an event. -/
def send (event : Sse) (phase : Phase) : Call :=
  { c with
    phase := phase
    sent := c.sent ++ [event] }

def resume : After → Call
  | .raise e => c.goTo (.ended (.raised e))
  | .respond => c.goTo (.ended .response)
  | .finish => c.send .schemaOutput .yieldSchemaOutput
  | .errorEvent => c.send .error .yieldError
  | .reraise => c.goTo (.ended (.raised .cancelledError))

/-- `_record_public_audit` up to its first suspension. -/
def recordPublicAudit (r : Recording) : Call :=
  if c.audit.recorded then c.resume r.next else c.goTo (.recording r)

/-- `_reject_public_call`, and the places that do the same by hand. -/
def rejectPublicCall (status : Nat) (errorCode : String) : Call :=
  c.recordPublicAudit ⟨.rejected, none, 0, some errorCode, .raise (.http status)⟩

/-- A recording of a failure without observability. -/
def fail (errorCode : String) (next : After) : Call :=
  c.recordPublicAudit ⟨.failed, none, 0, some errorCode, next⟩

def authenticated (authentication : Authentication) : Call :=
  { c with
    audit :=
      { c.audit with
        clientId := some authentication.clientId
        apiKeyId := some authentication.apiKeyId } }

def row (r : Recording) : AuditRow :=
  { agentId := c.audit.agentId
    clientId := c.audit.clientId
    apiKeyId := c.audit.apiKeyId
    status := r.status
    tokenUsage := r.tokenUsage
    mcpCallCount := r.mcpCallCount
    errorCode := r.errorCode }

/-- The checks from the API version to the execution. -/
def checkVersion (responseMode : Mode) : Option ApiBinding → Call
  | none => c.rejectPublicCall 404 "api_version_not_published"
  | some binding =>
      if binding.status ∉ ["published", "deprecated"] then
        c.rejectPublicCall 404 "api_version_not_published"
      else if binding.schemaStatus ∉ ["published", "deprecated"] then
        c.rejectPublicCall 409 "schema_version_unavailable"
      else
        match c.request.publicPayload with
        | none => c.rejectPublicCall 422 "invalid_request_envelope"
        | some (input, bodyMode) =>
            match binding.validation with
            | some .valueError => c.rejectPublicCall 422 "input_schema_validation"
            | some e => c.goTo (.ended (.raised e))
            | none =>
                -- The `ValidationError` of `AgentRunRequest` is not caught.
                if !inputFits input then c.goTo (.ended (.raised .valueError))
                else
                  let mode := ((c.request.forcedMode.or c.request.responseMode).or bodyMode).getD
                    responseMode
                  { c with
                    phase := if mode = .stream then .prepareExecution else .executeSync
                    started := true }

/-- The `except` clauses around the preparation and the execution. -/
def executionFailed (httpCode code : String) : Exc → Call
  | .http status => c.fail (httpCode ++ toString status) (.raise (.http status))
  | .cancelledError => c.goTo (.ended (.raised .cancelledError))
  | .generatorExit => c.goTo (.ended (.raised .generatorExit))
  | e => c.fail code (.raise e)

/-- The `except` clauses of the generator. -/
def streamFailed : Exc → Call
  | .cancelledError => c.fail "stream_disconnected" .reraise
  | .hermesRuntimeError => c.goTo .observabilityFailed
  | .valueError => c.goTo .observabilityFailed
  | .agentMemoryError => c.fail "stream_dependency_failed" .errorEvent
  | .artifactStorageError => c.fail "stream_dependency_failed" .errorEvent
  | .generatorExit => c.goTo (.ended (.raised .generatorExit))
  | _ => c.fail "stream_internal_error" .errorEvent

end Call

/-- A generator at a `yield` is closed or cancelled; an await does not raise
    `GeneratorExit`. -/
def Phase.canRaise (e : Exc) : Phase → Bool
  | .yieldStart | .yieldSchemaInput | .yieldEvent | .yieldSchemaOutput | .yieldEnd | .yieldError =>
      e = .generatorExit || e = .cancelledError
  | .responding | .ended _ => false
  | _ => e ≠ .generatorExit

/-- An exception at the suspension. -/
def raised (c : Call) (e : Exc) : Call :=
  match c.phase with
  | .enforceRateLimit _ =>
      if e = .redisError then c.fail "rate_limit_unavailable" (.raise (.http 503))
      else c.goTo (.ended (.raised e))
  | .prepareExecution =>
      c.executionFailed "execution_prepare_http_" "execution_prepare_failed" e
  | .executeSync => c.executionFailed "execution_http_" "execution_failed" e
  | .recording ⟨_, _, _, _, .finish⟩ => c.streamFailed e
  | .streaming | .yieldEvent | .observabilityCompleted | .yieldSchemaOutput | .yieldEnd =>
      c.streamFailed e
  | _ => c.goTo (.ended (.raised e))

def step (c : Call) : Event → Option Call
  | .agent value =>
      match c.phase, value with
      | .getAgent, none => some (c.rejectPublicCall 404 "agent_not_found")
      | .getAgent, some agent =>
          let c := { c with audit := { c.audit with agentId := some agent.id } }
          if agent.status ≠ "active" ∨ agent.currentVersionId = none ∨ !agent.apiEnabled then
            some (c.rejectPublicCall 404 "agent_not_published")
          else some (c.goTo (.getPublication agent.responseMode))
      | _, _ => none
  | .publication status =>
      match c.phase with
      | .getPublication responseMode =>
          if status ≠ some "published" then
            some (c.rejectPublicCall 404 "publication_not_published")
          else if c.request.presentedKey = none ∨ c.request.presentedKey = some "" then
            some (c.rejectPublicCall 401 "invalid_api_key")
          else some (c.goTo (.authenticateApiKey responseMode))
      | _ => none
  | .apiKey authentication =>
      match c.phase, authentication with
      | .authenticateApiKey responseMode, none =>
          some (c.goTo (.authenticateClientKey responseMode))
      | .authenticateApiKey responseMode, some authentication =>
          some ((c.authenticated authentication).goTo (.enforceRateLimit responseMode))
      | _, _ => none
  | .clientKey authentication =>
      match c.phase, authentication with
      | .authenticateClientKey _, none => some (c.rejectPublicCall 401 "invalid_api_key")
      | .authenticateClientKey responseMode, some authentication =>
          some ((c.authenticated authentication).goTo (.hasInvokePermission responseMode))
      | _, _ => none
  | .permission granted =>
      match c.phase with
      | .hasInvokePermission responseMode =>
          if granted then some (c.goTo (.enforceRateLimit responseMode))
          else some (c.rejectPublicCall 403 "invoke_permission_denied")
      | _ => none
  | .rateLimit allowed =>
      match c.phase with
      | .enforceRateLimit responseMode =>
          if allowed then some (c.goTo (.getApiVersion responseMode))
          else some (c.rejectPublicCall 429 "rate_limit_exceeded")
      | _ => none
  | .apiVersion binding =>
      match c.phase with
      | .getApiVersion responseMode => some (c.checkVersion responseMode binding)
      | _ => none
  | .prepared =>
      match c.phase with
      | .prepareExecution => some (c.goTo .responding)
      | _ => none
  | .executed valid =>
      match c.phase with
      | .executeSync =>
          if valid then some { c with phase := .observability, completed := true }
          else some (c.executionFailed "execution_http_" "execution_failed" .valueError)
      | _ => none
  | .observed tokenUsage mcpCallCount =>
      match c.phase with
      | .observability =>
          some (c.recordPublicAudit ⟨.succeeded, tokenUsage, mcpCallCount, none, .respond⟩)
      | .observabilityCompleted =>
          some (c.recordPublicAudit ⟨.succeeded, tokenUsage, mcpCallCount, none, .finish⟩)
      | .observabilityFailed =>
          some (c.recordPublicAudit
            ⟨.failed, tokenUsage, mcpCallCount, some "stream_execution_failed", .errorEvent⟩)
      | _ => none
  | .committed =>
      match c.phase with
      | .recording r =>
          if c.rows = [] then
            some ({ c with
              rows := [c.row r]
              audit := { c.audit with recorded := true } }.resume r.next)
          else none
      | _ => none
  | .committedRaised e =>
      match c.phase with
      | .recording r =>
          if c.rows = [] ∧ e.ofDatabase then some (raised { c with rows := [c.row r] } e)
          else none
      | _ => none
  | .execution found =>
      match c.phase with
      | .getExecution =>
          if found then some (c.goTo .streaming)
          else some (c.fail "execution_log_missing" .errorEvent)
      | _ => none
  | .event mapped =>
      match c.phase with
      | .streaming => some (if mapped then c.send .mapped .yieldEvent else c)
      | _ => none
  | .runCompleted valid =>
      match c.phase with
      | .streaming =>
          if valid then some { c with phase := .observabilityCompleted, completed := true }
          else some (c.streamFailed .valueError)
      | _ => none
  | .exhausted =>
      match c.phase with
      | .streaming => some (c.streamFailed .hermesRuntimeError)
      | _ => none
  | .next =>
      match c.phase with
      | .responding => some (c.send .start .yieldStart)
      | .yieldStart => some (c.send .schemaInput .yieldSchemaInput)
      | .yieldSchemaInput => some (c.goTo .getExecution)
      | .yieldEvent => some (c.goTo .streaming)
      | .yieldSchemaOutput => some (c.send .finish .yieldEnd)
      | .yieldEnd => some (c.goTo (.ended .finished))
      | .yieldError => some (c.goTo (.ended .finished))
      | _ => none
  | .dropped =>
      match c.phase with
      | .responding => some (c.goTo (.ended .dropped))
      | _ => none
  | .raised e => if c.phase.canRaise e then some (raised c e) else none

def initial (request : PublicRequest) : Call :=
  ⟨request, .getAgent, ⟨none, none, none, false⟩, [], false, false, []⟩

def system : System Call Event where
  init c := ∃ request, c = initial request
  step := step

/-! ## What is promised -/

namespace Call

variable (c : Call)

def hasEnded : Bool :=
  match c.phase with
  | .ended _ => true
  | _ => false

/-- It ends with an error of the client, before anything is executed. -/
def Refused : Prop := c.started = false ∧ ∃ status < 500, c.phase = .ended (.raised (.http status))

/-- The caller has the result. -/
def Answered : Prop := c.phase = .ended .response ∨ .finish ∈ c.sent

/-- The caller has an error, as the response or as an event of it. -/
def Errored : Prop :=
  (∃ e : Exc, e.isException ∧ c.phase = .ended (.raised e) ∧ c.sent = []) ∨ .error ∈ c.sent

end Call

/-- One row, of the agent, whose status is that of the outcome. -/
structure AuditedOnce (c : Call) : Prop where
  one : ∃ row, c.rows = [row]
  agent : ∀ row ∈ c.rows, row.agentId = c.audit.agentId
  refused : c.Refused → ∀ row ∈ c.rows, row.status = .rejected
  answered : c.Answered → ∀ row ∈ c.rows, row.status = .succeeded
  errored : c.Errored → ∀ row ∈ c.rows, row.status ≠ .succeeded
  rejected : ∀ row ∈ c.rows, row.status = .rejected → c.started = false
  succeeded : ∀ row ∈ c.rows, row.status = .succeeded → c.completed

/-- An exception at the end of the checks that is not caught. -/
def ApiBinding.unchecked (binding : ApiBinding) (request : PublicRequest) : Bool :=
  match request.publicPayload with
  | none => false
  | some (input, _) =>
      match binding.validation with
      | some e => e ≠ .valueError
      | none => !inputFits input

/-- The step ends the call without a row, or with an error after a row of a success. -/
def escapes (c : Call) : Event → Bool
  | .apiVersion (some binding) =>
      binding.status ∈ ["published", "deprecated"] &&
        binding.schemaStatus ∈ ["published", "deprecated"] && binding.unchecked c.request
  | .committedRaised e =>
      match c.phase with
      | .recording r => r.next = .respond && e.isException
      | _ => false
  | .dropped => true
  | .raised e =>
      match c.phase with
      | .enforceRateLimit _ => e ≠ .redisError
      | .prepareExecution | .executeSync => !e.isException
      | .recording r => r.next ≠ .finish && c.rows.isEmpty
      | .observabilityFailed => c.rows.isEmpty
      | .streaming | .observabilityCompleted | .yieldSchemaOutput | .yieldEnd | .yieldError => false
      | .yieldEvent => e = .generatorExit
      | _ => true
  | _ => false

/-- No step of the call escapes its audit. -/
def Contained (c : Call) (e : Event) : Prop := escapes c e = false

instance (c : Call) (e : Event) : Decidable (Contained c e) :=
  inferInstanceAs (Decidable (escapes c e = false))

/-! ## The invariant -/

namespace Call

variable (c : Call)

/-- Nothing is recorded. -/
def Fresh : Prop := c.rows = [] ∧ c.audit.recorded = false

/-- The response has begun, and has neither its end nor an error yet. -/
def Streaming : Prop := c.started ∧ c.sent ≠ [] ∧ .finish ∉ c.sent ∧ .error ∉ c.sent

/-- The one row of the call. -/
def Recorded (status : CallStatus) : Prop :=
  ∃ row, c.rows = [row] ∧ row.status = status ∧ row.agentId = c.audit.agentId

/-- In a handler of the generator.  The row of the success can be there, when the refresh after
    its commit has raised. -/
def Handling : Prop := c.Streaming ∧ c.audit.recorded = false ∧
  (c.rows = [] ∨ c.Recorded .succeeded ∧ c.completed)

/-- A recording fits what follows it. -/
def Follows (r : Recording) : After → Prop
  | .raise e => c.sent = [] ∧
      ((r.status = .rejected ∧ c.started = false ∧ ∃ status, e = .http status) ∨
        (r.status = .failed ∧ (c.started ∨ e = .http 503)))
  | .respond => c.started ∧ c.completed ∧ c.sent = [] ∧ r.status = .succeeded
  | .finish => c.Streaming ∧ c.completed ∧ r.status = .succeeded
  | .errorEvent => c.Streaming ∧ r.status = .failed
  | .reraise => c.Streaming ∧ r.status = .failed

def Awaits (r : Recording) : Prop :=
  c.Follows r r.next ∧ c.audit.recorded = false ∧
    (c.rows = [] ∨ (r.next = .errorEvent ∨ r.next = .reraise) ∧
      c.Recorded .succeeded ∧ c.completed)

end Call

theorem Call.Streaming.send {c : Call} (h : c.Streaming) {event : Sse} {phase : Phase}
    (hfinish : event ≠ .finish) (herror : event ≠ .error) : (c.send event phase).Streaming := by
  obtain ⟨hstarted, -, hnotFinish, hnotError⟩ := h
  refine ⟨hstarted, by simp [Call.send], ?_, ?_⟩
  · simp [Call.send, hnotFinish, hfinish.symm]
  · simp [Call.send, hnotError, herror.symm]

/-- What holds at each suspension. -/
def CallInv (c : Call) : Prop :=
  match c.phase with
  | .getAgent | .getPublication _ | .authenticateApiKey _ | .authenticateClientKey _
  | .hasInvokePermission _ | .enforceRateLimit _ | .getApiVersion _ =>
      c.Fresh ∧ c.started = false ∧ c.sent = []
  | .prepareExecution | .executeSync | .responding => c.Fresh ∧ c.started ∧ c.sent = []
  | .observability => c.Fresh ∧ c.started ∧ c.completed ∧ c.sent = []
  | .recording r => c.Awaits r
  | .yieldStart | .yieldSchemaInput | .getExecution | .streaming | .yieldEvent =>
      c.Fresh ∧ c.Streaming
  | .observabilityCompleted => c.Fresh ∧ c.Streaming ∧ c.completed
  | .observabilityFailed => c.Handling
  | .yieldSchemaOutput =>
      c.audit.recorded ∧ c.Recorded .succeeded ∧ c.completed ∧ c.Streaming
  | .yieldEnd => c.audit.recorded ∧ c.Recorded .succeeded ∧ c.completed ∧ c.started ∧
      c.sent ≠ [] ∧ .error ∉ c.sent
  | .yieldError => c.Recorded .failed ∧ c.started ∧ .finish ∉ c.sent ∧ .error ∈ c.sent
  | .ended _ => False

/-- What a step leaves: the call goes on, or it has ended with its law decided. -/
def Settled (escaped : Bool) (c : Call) : Prop :=
  if c.hasEnded then AuditedOnce c ↔ escaped = false else CallInv c ∧ escaped = false

namespace Settled

variable {c : Call} {escaped : Bool}

theorem going (hended : c.hasEnded = false) (h : CallInv c) : Settled false c := by
  rw [Settled, hended]
  exact ⟨h, rfl⟩

/-- A call that ends without a row. -/
theorem lost (hended : c.hasEnded = true) (hrows : c.rows = []) : Settled true c := by
  have hnot : ¬ AuditedOnce c := by
    intro haudited
    obtain ⟨row, hrow⟩ := haudited.one
    rw [hrows] at hrow
    cases hrow
  rw [Settled, hended, if_pos rfl]
  exact iff_of_false hnot (by decide)

theorem audited (hended : c.hasEnded = true) (h : AuditedOnce c) : Settled false c := by
  rw [Settled, hended, if_pos rfl]
  exact iff_of_true h rfl

end Settled

/-- The law of a call with a row of a success: it has completed, and has no error. -/
theorem audited_of_succeeded {c : Call} (h : c.Recorded .succeeded) (hcompleted : c.completed)
    (hrefused : ¬ c.Refused) (herrored : ¬ c.Errored) : AuditedOnce c := by
  obtain ⟨row, hrow, hstatus, hagent⟩ := h
  have hmem : ∀ row' ∈ c.rows, row' = row := by
    rw [hrow]
    exact fun _ => List.mem_singleton.mp
  exact
    { one := ⟨row, hrow⟩
      agent := fun row' h' => hmem row' h' ▸ hagent
      refused := fun h' => absurd h' hrefused
      answered := fun _ row' h' => hmem row' h' ▸ hstatus
      errored := fun h' => absurd h' herrored
      rejected := fun row' h' hrejected => by
        rw [hmem row' h', hstatus] at hrejected
        cases hrejected
      succeeded := fun _ _ _ => hcompleted }

theorem audited_of_failed {c : Call} (h : c.Recorded .failed) (hrefused : ¬ c.Refused)
    (hanswered : ¬ c.Answered) : AuditedOnce c := by
  obtain ⟨row, hrow, hstatus, hagent⟩ := h
  have hmem : ∀ row' ∈ c.rows, row' = row := by
    rw [hrow]
    exact fun _ => List.mem_singleton.mp
  have hne : ∀ status, status ≠ .failed → ∀ row' ∈ c.rows, row'.status ≠ status := by
    intro status hstatus' row' h' heq
    rw [hmem row' h', hstatus] at heq
    exact hstatus' heq.symm
  exact
    { one := ⟨row, hrow⟩
      agent := fun row' h' => hmem row' h' ▸ hagent
      refused := fun h' => absurd h' hrefused
      answered := fun h' => absurd h' hanswered
      errored := fun _ => hne .succeeded (by decide)
      rejected := fun row' h' heq => absurd heq (hne .rejected (by decide) row' h')
      succeeded := fun row' h' heq => absurd heq (hne .succeeded (by decide) row' h') }

theorem audited_of_rejected {c : Call} (h : c.Recorded .rejected) (hstarted : c.started = false)
    (hanswered : ¬ c.Answered) : AuditedOnce c := by
  obtain ⟨row, hrow, hstatus, hagent⟩ := h
  have hmem : ∀ row' ∈ c.rows, row' = row := by
    rw [hrow]
    exact fun _ => List.mem_singleton.mp
  have hne : ∀ row' ∈ c.rows, row'.status ≠ .succeeded := by
    intro row' h' heq
    rw [hmem row' h', hstatus] at heq
    cases heq
  exact
    { one := ⟨row, hrow⟩
      agent := fun row' h' => hmem row' h' ▸ hagent
      refused := fun _ row' h' => hmem row' h' ▸ hstatus
      answered := fun h' => absurd h' hanswered
      errored := fun _ => hne
      rejected := fun _ _ _ => hstarted
      succeeded := fun row' h' heq => absurd heq (hne row' h') }

/-! ## The functions of the code -/

section Functions

variable {c : Call}

theorem settled_record {r : Recording} (hrecorded : c.audit.recorded = false)
    (h : c.Awaits r) : Settled false (c.recordPublicAudit r) := by
  have heq : c.recordPublicAudit r = c.goTo (.recording r) := by
    simp [Call.recordPublicAudit, hrecorded]
  rw [heq]
  refine .going rfl ?_
  obtain ⟨status, tokenUsage, mcpCallCount, errorCode, next⟩ := r
  cases next <;> exact h

theorem settled_record_fresh {r : Recording} (h : c.Fresh) (hfollows : c.Follows r r.next) :
    Settled false (c.recordPublicAudit r) :=
  settled_record h.2 ⟨hfollows, h.2, .inl h.1⟩

theorem settled_reject (h : c.Fresh) (hstarted : c.started = false) (hsent : c.sent = [])
    (status : Nat) (errorCode : String) : Settled false (c.rejectPublicCall status errorCode) :=
  settled_record_fresh h ⟨hsent, .inl ⟨rfl, hstarted, status, rfl⟩⟩

theorem settled_streamFailed (h : c.Handling) {e : Exc} (he : e ≠ .generatorExit) :
    Settled false (c.streamFailed e) := by
  have hfail : ∀ errorCode, Settled false (c.fail errorCode .errorEvent) := fun _ =>
    settled_record h.2.1 ⟨⟨h.1, rfl⟩, h.2.1, h.2.2.imp_right fun hrow => ⟨.inl rfl, hrow⟩⟩
  cases e with
  | hermesRuntimeError => exact .going rfl h
  | valueError => exact .going rfl h
  | cancelledError =>
      exact settled_record h.2.1
        ⟨⟨h.1, rfl⟩, h.2.1, h.2.2.imp_right fun hrow => ⟨.inr rfl, hrow⟩⟩
  | generatorExit => exact absurd rfl he
  | http status => exact hfail _
  | redisError => exact hfail _
  | agentMemoryError => exact hfail _
  | artifactStorageError => exact hfail _
  | other => exact hfail _

/-- The preparation and the execution lose the call only to a cancellation. -/
theorem settled_executionFailed (h : c.Fresh) (hstarted : c.started) (hsent : c.sent = [])
    (httpCode code : String) (e : Exc) :
    Settled (!e.isException) (c.executionFailed httpCode code e) := by
  have hfail : ∀ errorCode e', Settled false (c.fail errorCode (.raise e')) := fun _ _ =>
    settled_record_fresh h ⟨hsent, .inr ⟨rfl, .inl hstarted⟩⟩
  cases e with
  | cancelledError => exact .lost rfl h.1
  | generatorExit => exact .lost rfl h.1
  | http status => exact hfail _ _
  | redisError => exact hfail _ _
  | hermesRuntimeError => exact hfail _ _
  | valueError => exact hfail _ _
  | agentMemoryError => exact hfail _ _
  | artifactStorageError => exact hfail _ _
  | other => exact hfail _ _

theorem settled_checkVersion (h : c.Fresh) (hstarted : c.started = false) (hsent : c.sent = [])
    (responseMode : Mode) (binding : Option ApiBinding) :
    Settled (escapes c (.apiVersion binding)) (c.checkVersion responseMode binding) := by
  have hreject := settled_reject h hstarted hsent
  cases binding with
  | none => exact hreject _ _
  | some binding =>
      simp only [Call.checkVersion, escapes]
      by_cases hstatus : binding.status ∈ ["published", "deprecated"]
      case neg =>
        rw [if_pos hstatus, decide_eq_false hstatus]
        exact hreject _ _
      by_cases hschema : binding.schemaStatus ∈ ["published", "deprecated"]
      case neg =>
        rw [if_neg (not_not.mpr hstatus), if_pos hschema, decide_eq_false hschema, Bool.and_false]
        exact hreject _ _
      rw [if_neg (not_not.mpr hstatus), if_neg (not_not.mpr hschema), decide_eq_true hstatus,
        decide_eq_true hschema, Bool.true_and, Bool.true_and, ApiBinding.unchecked]
      split
      next => exact hreject _ _
      next input bodyMode hpayload =>
        cases binding.validation with
        | some e =>
            cases e with
            | valueError => exact hreject _ _
            | _ => exact .lost rfl h.1
        | none =>
            cases hfits : inputFits input with
            | false =>
                exact .lost rfl h.1
            | true =>
                simp only [Bool.not_true, Bool.false_eq_true, if_false]
                split
                next => exact .going rfl ⟨h, rfl, hsent⟩
                next => exact .going rfl ⟨h, rfl, hsent⟩

/-- A response that has begun is not refused, and its only error is an event. -/
theorem audited_of_streamed (h : c.Recorded .succeeded) (hcompleted : c.completed)
    (hstarted : c.started) (hsent : c.sent ≠ []) (herror : .error ∉ c.sent) : AuditedOnce c := by
  refine audited_of_succeeded h hcompleted ?_ ?_
  · rintro ⟨hnot, -⟩
    simp [hstarted] at hnot
  · rintro (⟨e, -, -, hnil⟩ | hmem)
    · exact hsent hnil
    · exact herror hmem

theorem not_refused_of_started (hstarted : c.started) : ¬ c.Refused := by
  rintro ⟨hnot, -⟩
  simp [hstarted] at hnot

/-- A handler of the generator that raises. -/
theorem settled_handling_raised (h : c.Handling) (e : Exc) :
    Settled c.rows.isEmpty (c.goTo (.ended (.raised e))) := by
  obtain ⟨⟨hstarted, hsent, -, herror⟩, -, hrows | ⟨hrecorded, hcompleted⟩⟩ := h
  · rw [hrows]
    exact .lost rfl hrows
  · have hne : c.rows.isEmpty = false := by
      obtain ⟨row, hrow, -⟩ := hrecorded
      rw [hrow]
      rfl
    rw [hne]
    exact .audited rfl (audited_of_streamed hrecorded hcompleted hstarted hsent herror)

/-- Past the recording of the success the generator can only be closed or cancelled, and a
    recording would do nothing. -/
theorem settled_streamFailed_recorded (hrecorded : c.audit.recorded) (hrow : c.Recorded .succeeded)
    (hcompleted : c.completed) (hstarted : c.started) (hsent : c.sent ≠ [])
    (herror : .error ∉ c.sent) {e : Exc} (he : e = .generatorExit ∨ e = .cancelledError) :
    Settled false (c.streamFailed e) := by
  have haudited : ∀ exit, AuditedOnce (c.goTo (.ended exit)) := fun exit =>
    audited_of_streamed (c := c.goTo (.ended exit)) hrow hcompleted hstarted hsent herror
  obtain rfl | rfl := he
  · exact .audited rfl (haudited _)
  · have hskip : c.streamFailed .cancelledError = c.goTo (.ended (.raised .cancelledError)) := by
      simp [Call.streamFailed, Call.fail, Call.recordPublicAudit, hrecorded, Call.resume]
    rw [hskip]
    exact .audited rfl (haudited _)

theorem handling_of_fresh (h : c.Fresh) (hstreaming : c.Streaming) : c.Handling :=
  ⟨hstreaming, h.2, .inl h.1⟩

end Functions

/-! ## The steps -/

/-- An exception at any suspension. -/
theorem settled_raised {c : Call} {e : Exc} (h : CallInv c) (hraise : c.phase.canRaise e) :
    Settled (escapes c (.raised e)) (raised c e) := by
  obtain ⟨request, phase, audit, rows, started, completed, sent⟩ := c
  cases phase with
  | getAgent => exact .lost rfl h.1.1
  | getPublication responseMode => exact .lost rfl h.1.1
  | authenticateApiKey responseMode => exact .lost rfl h.1.1
  | authenticateClientKey responseMode => exact .lost rfl h.1.1
  | hasInvokePermission responseMode => exact .lost rfl h.1.1
  | getApiVersion responseMode => exact .lost rfl h.1.1
  | enforceRateLimit responseMode =>
      by_cases hredis : e = .redisError
      · subst hredis
        exact settled_record_fresh h.1 ⟨h.2.2, .inr ⟨rfl, .inr rfl⟩⟩
      · simp only [raised, escapes, if_neg hredis, decide_eq_true hredis]
        exact .lost rfl h.1.1
  | prepareExecution => exact settled_executionFailed h.1 h.2.1 h.2.2 _ _ e
  | executeSync => exact settled_executionFailed h.1 h.2.1 h.2.2 _ _ e
  | observability => exact .lost rfl h.1.1
  | recording r =>
      have he : e ≠ .generatorExit := by simpa [Phase.canRaise] using hraise
      obtain ⟨status, tokenUsage, mcpCallCount, errorCode, next⟩ := r
      obtain ⟨hfollows, hrecorded, hrows⟩ := h
      cases next with
      | raise e' =>
          obtain rfl : rows = [] := by simpa using hrows
          exact .lost rfl rfl
      | respond =>
          obtain rfl : rows = [] := by simpa using hrows
          exact .lost rfl rfl
      | finish =>
          have hnil : rows = [] := by simpa using hrows
          exact settled_streamFailed (handling_of_fresh ⟨hnil, hrecorded⟩ hfollows.1) he
      | errorEvent =>
          exact settled_handling_raised ⟨hfollows.1, hrecorded, hrows.imp_right And.right⟩ e
      | reraise =>
          exact settled_handling_raised ⟨hfollows.1, hrecorded, hrows.imp_right And.right⟩ e
  | responding => cases hraise
  | yieldStart => exact .lost rfl h.1.1
  | yieldSchemaInput => exact .lost rfl h.1.1
  | getExecution => exact .lost rfl h.1.1
  | streaming =>
      exact settled_streamFailed (handling_of_fresh h.1 h.2) (by simpa [Phase.canRaise] using hraise)
  | yieldEvent =>
      by_cases he : e = .generatorExit
      · subst he
        exact .lost rfl h.1.1
      · simp only [escapes, decide_eq_false he]
        exact settled_streamFailed (handling_of_fresh h.1 h.2) he
  | observabilityCompleted =>
      exact settled_streamFailed (handling_of_fresh h.1 h.2.1)
        (by simpa [Phase.canRaise] using hraise)
  | observabilityFailed => exact settled_handling_raised h e
  | yieldSchemaOutput =>
      obtain ⟨hrecorded, hrow, hcompleted, hstarted, hsent, -, herror⟩ := h
      exact settled_streamFailed_recorded hrecorded hrow hcompleted hstarted hsent herror
        (by simpa [Phase.canRaise] using hraise)
  | yieldEnd =>
      obtain ⟨hrecorded, hrow, hcompleted, hstarted, hsent, herror⟩ := h
      exact settled_streamFailed_recorded hrecorded hrow hcompleted hstarted hsent herror
        (by simpa [Phase.canRaise] using hraise)
  | yieldError =>
      obtain ⟨hrow, hstarted, hfinish, -⟩ := h
      refine .audited rfl (audited_of_failed hrow (not_refused_of_started hstarted) ?_)
      rintro (hresponse | hmem)
      · cases hresponse
      · exact hfinish hmem
  | ended exit => cases hraise

/-- Past the commit of a recording. -/
theorem settled_resume {c : Call} {r : Recording} (hrecorded : c.audit.recorded)
    (hrow : c.Recorded r.status) (h : c.Follows r r.next) : Settled false (c.resume r.next) := by
  obtain ⟨status, tokenUsage, mcpCallCount, errorCode, next⟩ := r
  have hraised : ∀ e, c.sent = [] → ¬ (c.goTo (.ended (.raised e))).Answered := by
    rintro e hsent (hresponse | hmem)
    · cases hresponse
    · rw [Call.goTo, hsent] at hmem
      cases hmem
  cases next with
  | raise e =>
      obtain ⟨hsent, ⟨rfl, hstarted, status, rfl⟩ | ⟨rfl, hstarted⟩⟩ := h
      · exact .audited rfl (audited_of_rejected hrow hstarted (hraised _ hsent))
      · refine .audited rfl (audited_of_failed hrow ?_ (hraised _ hsent))
        rintro ⟨hnot, status, hlt, heq⟩
        obtain hstarted | rfl := hstarted
        · rw [Call.resume, Call.goTo, hstarted] at hnot
          cases hnot
        · cases heq
          omega
  | respond =>
      obtain ⟨hstarted, hcompleted, hsent, rfl⟩ := h
      refine .audited rfl (audited_of_succeeded hrow hcompleted ?_ ?_)
      · exact not_refused_of_started hstarted
      · rintro (⟨e, -, hphase, -⟩ | hmem)
        · cases hphase
        · rw [Call.resume, Call.goTo, hsent] at hmem
          cases hmem
  | finish =>
      obtain ⟨⟨hstarted, hsent, hfinish, herror⟩, hcompleted, rfl⟩ := h
      refine .going rfl ⟨hrecorded, hrow, hcompleted, hstarted, ?_, ?_, ?_⟩
      · simp [Call.resume, Call.send]
      · simpa [Call.resume, Call.send] using hfinish
      · simpa [Call.resume, Call.send] using herror
  | errorEvent =>
      obtain ⟨⟨hstarted, hsent, hfinish, herror⟩, rfl⟩ := h
      refine .going rfl ⟨hrow, hstarted, ?_, ?_⟩
      · simpa [Call.resume, Call.send] using hfinish
      · simp [Call.resume, Call.send]
  | reraise =>
      obtain ⟨⟨hstarted, hsent, hfinish, herror⟩, rfl⟩ := h
      refine .audited rfl (audited_of_failed hrow (not_refused_of_started hstarted) ?_)
      rintro (hresponse | hmem)
      · cases hresponse
      · exact hfinish hmem

theorem settled_failed_raised {c : Call} {status : CallStatus} (hrow : c.Recorded status)
    (hstreaming : c.Streaming) (hstatus : status = .failed) (e : Exc) :
    Settled false (c.goTo (.ended (.raised e))) := by
  obtain ⟨hstarted, -, hfinish, -⟩ := hstreaming
  subst hstatus
  refine .audited rfl (audited_of_failed hrow (not_refused_of_started hstarted) ?_)
  rintro (hresponse | hmem)
  · cases hresponse
  · exact hfinish hmem

/-- A commit, and a refresh after it that raises. -/
theorem settled_committedRaised {c : Call} {r : Recording} {e : Exc} (he : e.ofDatabase)
    (hphase : c.phase = .recording r) (hrecorded : c.audit.recorded = false)
    (hrow : c.Recorded r.status) (h : c.Follows r r.next) :
    Settled (r.next = .respond && e.isException) (raised c e) := by
  obtain ⟨request, phase, audit, rows, started, completed, sent⟩ := c
  obtain ⟨status, tokenUsage, mcpCallCount, errorCode, next⟩ := r
  obtain rfl : phase = .recording ⟨status, tokenUsage, mcpCallCount, errorCode, next⟩ := hphase
  have hhttp : ∀ status, e ≠ .http status := by
    rintro status rfl
    cases he
  have hrefused : ¬ Call.Refused
      ⟨request, .ended (.raised e), audit, rows, started, completed, sent⟩ := by
    rintro ⟨-, status, -, heq⟩
    cases heq
    exact hhttp status rfl
  cases next with
  | raise e' =>
      obtain ⟨hsent, hstatus⟩ := h
      have hanswered : ¬ Call.Answered
          ⟨request, .ended (.raised e), audit, rows, started, completed, sent⟩ := by
        rintro (hresponse | hmem)
        · cases hresponse
        · rw [show sent = [] from hsent] at hmem
          cases hmem
      obtain ⟨rfl, hstarted, -⟩ | ⟨rfl, -⟩ := hstatus
      · exact .audited rfl (audited_of_rejected hrow hstarted hanswered)
      · exact .audited rfl (audited_of_failed hrow hrefused hanswered)
  | respond =>
      obtain ⟨hstarted, hcompleted, hsent, rfl⟩ := h
      cases hexception : e.isException with
      | true =>
          -- The caller has an error, and the row says that the call has succeeded.
          have hnot : ¬ AuditedOnce
              ⟨request, .ended (.raised e), audit, rows, started, completed, sent⟩ := by
            intro haudited
            obtain ⟨row, hrows, hsucceeded, -⟩ := hrow
            have hmem : row ∈ rows := by
              rw [show rows = [row] from hrows]
              exact List.mem_singleton_self row
            exact haudited.errored (.inl ⟨e, hexception, rfl, hsent⟩) row hmem hsucceeded
          exact iff_of_false hnot (by simp)
      | false =>
          refine .audited rfl (audited_of_succeeded hrow hcompleted hrefused ?_)
          rintro (⟨e', he', hphase, -⟩ | hmem)
          · cases hphase
            rw [hexception] at he'
            cases he'
          · rw [show sent = [] from hsent] at hmem
            cases hmem
  | finish =>
      obtain ⟨hstreaming, hcompleted, rfl⟩ := h
      have hne : e ≠ .generatorExit := by
        rintro rfl
        cases he
      exact settled_streamFailed ⟨hstreaming, hrecorded, .inr ⟨hrow, hcompleted⟩⟩ hne
  | errorEvent => exact settled_failed_raised hrow h.1 h.2 e
  | reraise => exact settled_failed_raised hrow h.1 h.2 e

/-- **Exactly one row.** What a step leaves. -/
theorem settled_step {c c' : Call} {e : Event} (h : CallInv c) (hstep : step c e = some c') :
    Settled (escapes c e) c' := by
  obtain ⟨request, phase, audit, rows, started, completed, sent⟩ := c
  cases e with
  | agent value =>
      simp only [step] at hstep
      split at hstep
      next =>
        cases hstep
        exact settled_reject h.1 h.2.1 h.2.2 _ _
      next agent =>
        split at hstep
        next =>
          cases hstep
          refine settled_reject ?_ ?_ ?_ _ _
          · exact h.1
          · exact h.2.1
          · exact h.2.2
        next =>
          cases hstep
          exact .going rfl h
      next => cases hstep
  | publication status =>
      simp only [step] at hstep
      split at hstep
      next =>
        split at hstep
        next =>
          cases hstep
          exact settled_reject h.1 h.2.1 h.2.2 _ _
        next =>
          split at hstep
          next =>
            cases hstep
            exact settled_reject h.1 h.2.1 h.2.2 _ _
          next =>
            cases hstep
            exact .going rfl h
      next => cases hstep
  | apiKey authentication =>
      simp only [step] at hstep
      split at hstep
      next =>
        cases hstep
        exact .going rfl h
      next =>
        cases hstep
        exact .going rfl h
      next => cases hstep
  | clientKey authentication =>
      simp only [step] at hstep
      split at hstep
      next =>
        cases hstep
        exact settled_reject h.1 h.2.1 h.2.2 _ _
      next =>
        cases hstep
        exact .going rfl h
      next => cases hstep
  | permission granted =>
      simp only [step] at hstep
      split at hstep
      next =>
        split at hstep
        next =>
          cases hstep
          exact .going rfl h
        next =>
          cases hstep
          exact settled_reject h.1 h.2.1 h.2.2 _ _
      next => cases hstep
  | rateLimit allowed =>
      simp only [step] at hstep
      split at hstep
      next =>
        split at hstep
        next =>
          cases hstep
          exact .going rfl h
        next =>
          cases hstep
          exact settled_reject h.1 h.2.1 h.2.2 _ _
      next => cases hstep
  | apiVersion binding =>
      simp only [step] at hstep
      split at hstep
      next responseMode =>
        cases hstep
        exact settled_checkVersion h.1 h.2.1 h.2.2 responseMode binding
      next => cases hstep
  | prepared =>
      simp only [step] at hstep
      split at hstep
      next =>
        cases hstep
        exact .going rfl h
      next => cases hstep
  | executed valid =>
      simp only [step] at hstep
      split at hstep
      next =>
        split at hstep
        next =>
          cases hstep
          exact .going rfl ⟨h.1, h.2.1, rfl, h.2.2⟩
        next =>
          cases hstep
          exact settled_executionFailed h.1 h.2.1 h.2.2 _ _ .valueError
      next => cases hstep
  | observed tokenUsage mcpCallCount =>
      simp only [step] at hstep
      split at hstep
      next =>
        cases hstep
        obtain ⟨hfresh, hstarted, hcompleted, hsent⟩ := h
        exact settled_record_fresh hfresh ⟨hstarted, hcompleted, hsent, rfl⟩
      next =>
        cases hstep
        exact settled_record_fresh h.1 ⟨h.2.1, h.2.2, rfl⟩
      next =>
        cases hstep
        obtain ⟨hstreaming, hrecorded, hrows⟩ := h
        exact settled_record hrecorded
          ⟨⟨hstreaming, rfl⟩, hrecorded, hrows.imp_right fun hrow => ⟨.inl rfl, hrow⟩⟩
      next => cases hstep
  | committed =>
      simp only [step] at hstep
      split at hstep
      next r =>
        split at hstep
        next =>
          cases hstep
          exact settled_resume rfl ⟨_, rfl, rfl, rfl⟩ h.1
        next => cases hstep
      next => cases hstep
  | committedRaised e =>
      simp only [step] at hstep
      split at hstep
      next r =>
        split at hstep
        next hraise =>
          cases hstep
          exact settled_committedRaised hraise.2 rfl h.2.1 ⟨_, rfl, rfl, rfl⟩ h.1
        next => cases hstep
      next => cases hstep
  | execution found =>
      simp only [step] at hstep
      split at hstep
      next =>
        split at hstep
        next =>
          cases hstep
          exact .going rfl h
        next =>
          cases hstep
          exact settled_record_fresh h.1 ⟨h.2, rfl⟩
      next => cases hstep
  | event mapped =>
      simp only [step] at hstep
      split at hstep
      next =>
        cases hstep
        split
        next => exact .going rfl ⟨h.1, h.2.send (by decide) (by decide)⟩
        next => exact .going rfl h
      next => cases hstep
  | runCompleted valid =>
      simp only [step] at hstep
      split at hstep
      next =>
        split at hstep
        next =>
          cases hstep
          exact .going rfl ⟨h.1, h.2, rfl⟩
        next =>
          cases hstep
          exact settled_streamFailed (handling_of_fresh h.1 h.2) (by decide)
      next => cases hstep
  | exhausted =>
      simp only [step] at hstep
      split at hstep
      next =>
        cases hstep
        exact settled_streamFailed (handling_of_fresh h.1 h.2) (by decide)
      next => cases hstep
  | next =>
      simp only [step] at hstep
      split at hstep
      next =>
        cases hstep
        obtain ⟨hfresh, hstarted, hsent⟩ := h
        obtain rfl : sent = [] := hsent
        refine .going rfl ⟨hfresh, hstarted, ?_, ?_, ?_⟩ <;> simp [Call.send]
      next =>
        cases hstep
        exact .going rfl ⟨h.1, h.2.send (by decide) (by decide)⟩
      next =>
        cases hstep
        exact .going rfl h
      next =>
        cases hstep
        exact .going rfl h
      next =>
        cases hstep
        obtain ⟨hrecorded, hrow, hcompleted, hstarted, -, -, herror⟩ := h
        refine .going rfl ⟨hrecorded, hrow, hcompleted, hstarted, ?_, ?_⟩
        · simp [Call.send]
        · simpa [Call.send] using herror
      next =>
        cases hstep
        obtain ⟨-, hrow, hcompleted, hstarted, hsent, herror⟩ := h
        exact .audited rfl (audited_of_streamed hrow hcompleted hstarted hsent herror)
      next =>
        cases hstep
        obtain ⟨hrow, hstarted, hfinish, -⟩ := h
        refine .audited rfl (audited_of_failed hrow (not_refused_of_started hstarted) ?_)
        rintro (hresponse | hmem)
        · cases hresponse
        · exact hfinish hmem
      next => cases hstep
  | dropped =>
      simp only [step] at hstep
      split at hstep
      next =>
        cases hstep
        exact .lost rfl h.1.1
      next => cases hstep
  | raised e =>
      simp only [step] at hstep
      split at hstep
      next hraise =>
        cases hstep
        exact settled_raised h hraise
      next => cases hstep

theorem callInv_initial (request : PublicRequest) : CallInv (initial request) :=
  ⟨⟨rfl, rfl⟩, rfl, rfl⟩

/-- A call that has ended takes no step. -/
theorem step_of_hasEnded {c : Call} (h : c.hasEnded) (e : Event) : step c e = none := by
  obtain ⟨request, phase, audit, rows, started, completed, sent⟩ := c
  cases phase with
  | ended exit =>
      cases e <;> simp only [step, Phase.canRaise, Bool.false_eq_true, if_false]
  | _ => cases h

/-- The law of a call that ends is decided by its last step; the others cannot fail it. -/
theorem exec_iff (events : List Event) {c c' : Call} (h : CallInv c)
    (hexec : system.exec c events = some c') (hended : c'.hasEnded) :
    AuditedOnce c' ↔ system.Allowed Contained c events := by
  induction events generalizing c with
  | nil =>
      cases hexec
      obtain ⟨request, phase, audit, rows, started, completed, sent⟩ := c'
      cases phase with
      | ended exit => exact h.elim
      | _ => cases hended
  | cons e events ih =>
      obtain ⟨mid, hmid, hexec⟩ := Option.bind_eq_some_iff.mp hexec
      have hallowed : system.Allowed Contained c (e :: events) ↔
          escapes c e = false ∧ system.Allowed Contained mid events := by
        have hstep : system.step c e = some mid := hmid
        simp [System.Allowed, Contained, hstep]
      have hsettled := settled_step h hmid
      rw [hallowed]
      cases hmidEnded : mid.hasEnded with
      | true =>
          rw [Settled, hmidEnded, if_pos rfl] at hsettled
          cases events with
          | nil =>
              cases hexec
              rw [hsettled]
              exact (and_iff_left trivial).symm
          | cons e' events =>
              obtain ⟨next, hnext, -⟩ := Option.bind_eq_some_iff.mp hexec
              have hnone : system.step mid e' = none := step_of_hasEnded hmidEnded e'
              rw [hnone] at hnext
              cases hnext
      | false =>
          rw [Settled, hmidEnded, if_neg Bool.false_ne_true] at hsettled
          rw [ih hsettled.1 hexec, and_iff_right hsettled.2]

/-- **Public calls are audited exactly once**, with the status of their outcome, exactly if no
    exception escapes. -/
theorem audited_once_iff {c c' : Call} (events : List Event) (hinit : system.init c)
    (hexec : system.exec c events = some c') (hended : c'.hasEnded) :
    AuditedOnce c' ↔ system.Allowed Contained c events := by
  obtain ⟨request, rfl⟩ := hinit
  exact exec_iff events (callInv_initial request) hexec hended

/-! ## Calls -/

def publicRequest : PublicRequest :=
  { responseMode := none
    forcedMode := some .stream
    xApiKey := some "key"
    authorization := none
    publicPayload := some ("\x7b\x7d", none) }

/-- A streaming call up to its response. -/
def accepted : List Event :=
  [.agent (some ⟨"agent", "active", some "version", true, .sync⟩), .publication (some "published"),
    .apiKey (some ⟨"client", "key"⟩), .rateLimit true,
    .apiVersion (some ⟨"published", "published", none⟩), .prepared, .next]

def streamedRun : List Event :=
  accepted ++ [.next, .next, .execution true, .event true, .next, .runCompleted true,
    .observed (some 7) 1, .committed, .next, .next]

theorem audited_once_iff_streamedRun : ∃ c,
    system.exec (initial publicRequest) streamedRun = some c ∧
      c.sent = [.start, .schemaInput, .mapped, .schemaOutput, .finish] ∧
      c.rows.map (·.status) = [.succeeded] ∧ AuditedOnce c := by
  refine ⟨_, rfl, by decide, by decide, ?_⟩
  exact (audited_once_iff streamedRun ⟨publicRequest, rfl⟩ rfl rfl).mpr (by decide)

/-- The client goes away at the first event. -/
def disconnectedRun : List Event := accepted ++ [.raised .generatorExit]

theorem disconnectedRun_unaudited : ∃ c,
    system.exec (initial publicRequest) disconnectedRun = some c ∧ c.hasEnded ∧
      c.audit.agentId = some "agent" ∧ c.rows = [] ∧ ¬ AuditedOnce c := by
  refine ⟨_, rfl, by decide, by decide, by decide, ?_⟩
  rintro ⟨⟨row, hrow⟩, -⟩
  cases hrow

end PublicAudit
end Production
end HermesPlatform
