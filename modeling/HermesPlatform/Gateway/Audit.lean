/-
  HermesPlatform.Gateway.Audit

  The audit of a capability call: `invoke_capability` from the authorisation on, with
  `_finish`, `_audit_failure` and the summaries that are stored.

  What the steps between return or raise is given by `Steps`, so that a statement about
  all of them is about every point at which a call may fail.  The audit table itself is
  there: its statements fail only where a value does not fit its column.  The rows that
  an audit row refers to are not deleted during the call, and Python's limit on the
  depth of recursion is not modelled.
-/

import HermesPlatform.Gateway.Quota
import HermesPlatform.Lib.Procedure
import HermesPlatform.Lib.Table
import Mathlib.Data.List.Infix

namespace HermesPlatform
namespace Gateway
namespace Audit

open Procedure (ofExcept require catching)

/-! ## Values -/

/-- A Python string: code points, among them unpaired surrogates. -/
abbrev Text := List Nat

def text (s : String) : Text := s.toList.map Char.toNat

/-- `1e400` is read as an infinity. -/
inductive PyFloat where
  | finite (repr : String)
  | infinite (negative : Bool)
  | nan
deriving DecidableEq, Repr

def PyFloat.isFinite : PyFloat → Bool
  | .finite _ => true
  | .infinite _ | .nan => false

/-- What `json.loads` returns. -/
inductive PyValue where
  | none
  | bool (b : Bool)
  | int (n : Int)
  | float (f : PyFloat)
  | str (s : Text)
  | list (items : List PyValue)
  | dict (members : List (Text × PyValue))

mutual
/-- `_bounded`. -/
def bounded : PyValue → PyValue
  | .str s => .str (s.take 500)
  | .list items => .list (boundedItems items 20)
  | .dict members => .dict (boundedMembers members 20)
  | v => v
def boundedItems : List PyValue → Nat → List PyValue
  | v :: rest, n + 1 => bounded v :: boundedItems rest n
  | _, _ => []
def boundedMembers : List (Text × PyValue) → Nat → List (Text × PyValue)
  | (key, v) :: rest, n + 1 => (key, bounded v) :: boundedMembers rest n
  | _, _ => []
end

/-- `any(part in key.lower() for part in ..)`. -/
def isSecret (lower : Text → Text) (key : Text) : Bool :=
  ["token", "secret", "password", "api_key"].any fun part => text part <:+: lower key

/-- `_summary`. -/
def summary (lower : Text → Text) : PyValue → PyValue
  | .dict members =>
      .dict (((members.take 50).filter (·.1 ≠ text "resource_scope")).map fun (key, item) =>
        (key, if isSecret lower key then .str (text "[REDACTED]") else bounded item))
  | v => .dict [(text "value", bounded v)]

/-! ## What fits where -/

def isSurrogate (c : Nat) : Bool := 0xd800 ≤ c && c ≤ 0xdfff

/-- The string can be encoded in UTF-8. -/
def encodableText (s : Text) : Bool := s.all (!isSurrogate ·)

/-- PostgreSQL takes the string for a `text` or inside a `jsonb`. -/
def storableText (s : Text) : Bool := s.all fun c => c ≠ 0 && !isSurrogate c

mutual
/-- All strings and keys are as `ok` says, and all numbers are finite. -/
def allText (ok : Text → Bool) : PyValue → Bool
  | .float f => f.isFinite
  | .str s => ok s
  | .list items => allItems ok items
  | .dict members => allMembers ok members
  | _ => true
def allItems (ok : Text → Bool) : List PyValue → Bool
  | [] => true
  | v :: rest => allText ok v && allItems ok rest
def allMembers (ok : Text → Bool) : List (Text × PyValue) → Bool
  | [] => true
  | (key, v) :: rest => ok key && allText ok v && allMembers ok rest
end

/-- PostgreSQL takes `json.dumps(v)` for a `jsonb`. -/
def storable (v : PyValue) : Bool := allText storableText v

/-- `JSONResponse` can render the value. -/
def encodable (v : PyValue) : Bool := allText encodableText v

/-- What `varchar(n)` stores: only spaces may be beyond the limit. -/
def varchar (n : Nat) (s : Text) : Option Text :=
  if storableText s && (s.drop n).all (· = 32) then some (s.take n) else none

/-! ## Rows -/

/-- A row of `capability_invocations`. -/
structure CapabilityInvocation where
  id : Nat
  executionId : String
  agentId : String
  agentVersionId : String
  bindingId : Option String
  capabilityKey : String
  capabilityVersion : String
  toolAlias : Text
  connectorInstanceRevisionId : Option String
  resourceScopeRevisionId : Option String
  status : InvocationStatus
  inputSummary : PyValue
  outputSummary : PyValue
  errorCode : Option String
  latencyMs : Option Nat
  cacheHit : Bool

structure CapabilityBinding where
  id : String
  capabilityKey : String
  capabilityVersion : String
  resourceScopeRevisionId : Option String

structure CapabilityImplementation where
  connectorInstanceRevisionId : String

structure Provider where
  enabled : Bool
  healthStatus : String

structure CapabilityClaims where
  agentId : String
  agentVersionId : String
  allowedBindings : List String

/-- A call whose request has been read. -/
structure CapabilityCall where
  claims : CapabilityClaims
  executionId : String
  toolName : Text
  arguments : List (Text × PyValue)

/-! ## Steps -/

/-- A `GatewayError`, or any other exception. -/
inductive StepError where
  | gateway (code : String) (message : Text)
  | other

/-- The exceptions of `invoke_capability`. -/
inductive Raised where
  | accessDenied (message : Text)
  | gateway (code : String) (message : Text)
  | timeout
  | http
  | other

/-- An exception of the authorisation. -/
inductive AuthError where
  | accessDenied (message : Text)
  | step (error : StepError)

/-- An exception of the provider call. -/
inductive ProviderError where
  | timeout
  | http
  | step (error : StepError)

def StepError.raised : StepError → Raised
  | .gateway code message => .gateway code message
  | .other => .other

def AuthError.raised : AuthError → Raised
  | .accessDenied message => .accessDenied message
  | .step error => error.raised

def ProviderError.raised : ProviderError → Raised
  | .timeout => .timeout
  | .http => .http
  | .step error => error.raised

/-- What the steps of a call return or raise, and the values of `uuid4` and of the clock. -/
structure Steps where
  authorized : Except AuthError Unit
  binding : Except StepError (Option CapabilityBinding)
  implementation : Except StepError (Option CapabilityImplementation)
  provider : Except StepError (Option Provider)
  approval : Except StepError Unit
  /-- The message of the `ValidationError` of the arguments. -/
  inputError : Except StepError (Option Text)
  scopedArguments : Except StepError (List (Text × PyValue))
  locks : Except StepError Unit
  quota : Except StepError Unit
  cached : Except StepError (Option PyValue)
  cachedValid : Except StepError Bool
  decrypt : Except StepError Unit
  result : Except ProviderError PyValue
  mapped : Except StepError PyValue
  /-- The message of the `ValidationError` of the output. -/
  outputError : Except StepError (Option Text)
  cacheSet : Except StepError Unit
  trace : Except StepError Unit
  renewal : Except StepError (Option String)
  invocationId : Nat
  failureId : Nat
  latency : Nat
  failureLatency : Nat

/-- The locals that the `except` clauses read, and the audit table. -/
structure CallState where
  invocationId : Option Nat
  binding : Option CapabilityBinding
  implementation : Option CapabilityImplementation
  executionAuthorized : Bool
  rows : List CapabilityInvocation

inductive Response where
  | succeeded (invocationId : Nat) (data : PyValue) (cacheHit : Bool) (tokenRenewal : Option String)
  | failed (code : String) (message : Text) (invocationId : Option Nat)

/-- An exception that leaves `invoke_capability`. -/
inductive Escaped where
  | audit
  | response

/-! ## `_finish` and `_audit_failure` -/

/-- `UPDATE capability_invocations SET .. WHERE id=$1`. -/
def finishRow (status : InvocationStatus) (latency : Nat) (output : PyValue) (error : Option String)
    (cacheHit : Bool) (row : CapabilityInvocation) : CapabilityInvocation :=
  { row with
    status := status
    latencyMs := some latency
    outputSummary := output
    errorCode := error
    cacheHit := cacheHit }

def CallState.updateRow (st : CallState) (id : Nat)
    (f : CapabilityInvocation → CapabilityInvocation) : CallState :=
  { st with rows := Table.modify CapabilityInvocation.id id f st.rows }

/-- `_finish` with an output; the update fails where the output cannot be stored. -/
def finishSucceeded (steps : Steps) (output : PyValue) (cacheHit : Bool) :
    Procedure CallState Raised Unit := do
  require (storable output) .other
  modify fun st => st.updateRow steps.invocationId
    (finishRow .succeeded steps.latency output none cacheHit)

/-- `_finish` with an error, and no output. -/
def finishFailed (steps : Steps) (id : Nat) (error : String) : Procedure CallState Escaped Unit :=
  modify fun st => st.updateRow id
    (finishRow .failed steps.failureLatency (.dict []) (some error) false)

/-- The row that `_audit_failure` inserts. -/
def failureRow (lower : Text → Text) (steps : Steps) (call : CapabilityCall) (st : CallState)
    (toolAlias : Text) (code : String) : CapabilityInvocation :=
  { id := st.invocationId.getD steps.failureId
    executionId := call.executionId
    agentId := call.claims.agentId
    agentVersionId := call.claims.agentVersionId
    bindingId := st.binding.map (·.id)
    capabilityKey := (st.binding.map (·.capabilityKey)).getD "unknown"
    capabilityVersion := (st.binding.map (·.capabilityVersion)).getD "unknown"
    toolAlias := toolAlias
    connectorInstanceRevisionId := st.implementation.map (·.connectorInstanceRevisionId)
    resourceScopeRevisionId := st.binding.bind (·.resourceScopeRevisionId)
    status := if code = "PERMISSION_DENIED" then .denied else .failed
    inputSummary := summary lower (.dict call.arguments)
    outputSummary := .dict []
    errorCode := some code
    latencyMs := some steps.failureLatency
    cacheHit := false }

/-- `ON CONFLICT (id) DO UPDATE SET ..`. -/
def failRow (new row : CapabilityInvocation) : CapabilityInvocation :=
  { row with status := new.status, errorCode := new.errorCode, latencyMs := new.latencyMs }

def CallState.upsertRow (st : CallState) (new : CapabilityInvocation) : CallState :=
  { st with rows := Table.upsert CapabilityInvocation.id new.id (failRow new) new st.rows }

/-- `tool_name or "unknown"`. -/
def orUnknown (toolName : Text) : Text := if toolName = [] then text "unknown" else toolName

/-- `_audit_failure`; the values are converted before the conflict is looked at. -/
def auditFailure (lower : Text → Text) (steps : Steps) (call : CapabilityCall) (code : String) :
    Procedure CallState Escaped Nat := do
  let st ← get
  match varchar 128 (orUnknown call.toolName) with
  | none => throw .audit
  | some toolAlias =>
      let new := failureRow lower steps call st toolAlias code
      require (storable new.inputSummary) .audit
      modify fun st => st.upsertRow new
      pure new.id

/-! ## `invoke_capability` -/

def step {α : Type} (r : Except StepError α) : Procedure CallState Raised α :=
  ofExcept StepError.raised r

def gatewayError {α : Type} (code message : String) : Procedure CallState Raised α :=
  throw (.gateway code (text message))

/-- `raise GatewayError(code, f"{complaint}{exc.message}")` on a `ValidationError`. -/
def rejectInvalid (code complaint : String) : Option Text → Procedure CallState Raised Unit
  | some message => throw (.gateway code (text complaint ++ message))
  | none => pure ()

/-- The binding of the tool; a name that is no `text` of PostgreSQL fails the query. -/
def findBinding (steps : Steps) (call : CapabilityCall) :
    Procedure CallState Raised CapabilityBinding := do
  require (storableText call.toolName) .other
  let binding ← step steps.binding
  modify fun st => { st with binding := binding }
  match binding with
  | some binding =>
      if binding.id ∈ call.claims.allowedBindings then pure binding
      else gatewayError "PERMISSION_DENIED" "当前 Agent Version 未绑定该能力"
  | none => gatewayError "PERMISSION_DENIED" "当前 Agent Version 未绑定该能力"

def findImplementation (steps : Steps) :
    Procedure CallState Raised CapabilityImplementation := do
  let implementation ← step steps.implementation
  modify fun st => { st with implementation := implementation }
  match implementation with
  | some implementation => pure implementation
  | none => gatewayError "PROVIDER_UNAVAILABLE" "能力没有可用实现"

def findProvider (steps : Steps) : Procedure CallState Raised Unit := do
  match ← step steps.provider with
  | some provider =>
      if !provider.enabled || provider.healthStatus = "offline" then
        gatewayError "PROVIDER_UNAVAILABLE" "Connector 当前不可用"
      else pure ()
  | none => gatewayError "PROVIDER_UNAVAILABLE" "Connector 当前不可用"

/-- The row that the admission inserts. -/
def pendingRow (lower : Text → Text) (steps : Steps) (call : CapabilityCall)
    (binding : CapabilityBinding) (implementation : CapabilityImplementation)
    (scopedArguments : List (Text × PyValue)) (toolAlias : Text) : CapabilityInvocation :=
  { id := steps.invocationId
    executionId := call.executionId
    agentId := call.claims.agentId
    agentVersionId := call.claims.agentVersionId
    bindingId := some binding.id
    capabilityKey := binding.capabilityKey
    capabilityVersion := binding.capabilityVersion
    toolAlias := toolAlias
    connectorInstanceRevisionId := some implementation.connectorInstanceRevisionId
    resourceScopeRevisionId := binding.resourceScopeRevisionId
    status := .pending
    inputSummary := summary lower (.dict scopedArguments)
    outputSummary := .dict []
    errorCode := none
    latencyMs := none
    cacheHit := false }

/-- The transaction of the admission. -/
def admitCall (lower : Text → Text) (steps : Steps) (call : CapabilityCall)
    (binding : CapabilityBinding) (implementation : CapabilityImplementation)
    (scopedArguments : List (Text × PyValue)) : Procedure CallState Raised Unit := do
  modify fun st => { st with invocationId := some steps.invocationId }
  step steps.locks
  step steps.quota
  match varchar 128 call.toolName with
  | none => throw .other
  | some toolAlias =>
      let new := pendingRow lower steps call binding implementation scopedArguments toolAlias
      require (storable new.inputSummary) .other
      modify fun st => { st with rows := st.rows ++ [new] }

/-- The cached value, unless it does not validate. -/
def readCache (steps : Steps) : Procedure CallState Raised (Option PyValue) := do
  match ← step steps.cached with
  | some value =>
      let valid ← step steps.cachedValid
      pure (if valid then some value else none)
  | none => pure none

/-- `_finish`, `_trace`, `_renewal` and the response. -/
def succeed (lower : Text → Text) (steps : Steps) (data : PyValue) (cacheHit : Bool) :
    Procedure CallState Raised Response := do
  finishSucceeded steps (summary lower data) cacheHit
  step steps.trace
  let tokenRenewal ← step steps.renewal
  require (encodable data) .other
  pure (.succeeded steps.invocationId data cacheHit tokenRenewal)

/-- The provider call, its mapping and validation, and the write to the cache. -/
def callProvider (steps : Steps) : Procedure CallState Raised PyValue := do
  step steps.decrypt
  let _ ← ofExcept ProviderError.raised steps.result
  let mapped ← step steps.mapped
  let outputError ← step steps.outputError
  rejectInvalid "OUTPUT_INVALID" "Connector 输出不符合契约：" outputError
  step steps.cacheSet
  pure mapped

/-- The body of the `try`. -/
def invokeBody (lower : Text → Text) (steps : Steps) (call : CapabilityCall) :
    Procedure CallState Raised Response := do
  ofExcept AuthError.raised steps.authorized
  modify fun st => { st with executionAuthorized := true }
  let binding ← findBinding steps call
  let implementation ← findImplementation steps
  findProvider steps
  step steps.approval
  let inputError ← step steps.inputError
  rejectInvalid "INVALID_ARGUMENT" "Capability 输入不符合契约：" inputError
  let scopedArguments ← step steps.scopedArguments
  admitCall lower steps call binding implementation scopedArguments
  match ← readCache steps with
  | some cached => succeed lower steps cached true
  | none =>
      let mapped ← callProvider steps
      succeed lower steps mapped false

/-- `_error`. -/
def errorResponse (code : String) (message : Text) (invocationId : Option Nat) :
    Procedure CallState Escaped Response := do
  require (encodableText message) .response
  pure (.failed code message invocationId)

/-- A failure that is audited once the execution is authorized. -/
def auditedError (lower : Text → Text) (steps : Steps) (call : CapabilityCall) (code : String)
    (message : Text) : Procedure CallState Escaped Response := do
  let st ← get
  if st.executionAuthorized then
    let id ← auditFailure lower steps call code
    errorResponse code message (some id)
  else errorResponse code message st.invocationId

/-- A failure of the transport, which has no row to add. -/
def transportError (steps : Steps) (code message : String) :
    Procedure CallState Escaped Response := do
  let st ← get
  match st.invocationId with
  | some id => finishFailed steps id code
  | none => pure ()
  errorResponse code (text message) st.invocationId

/-- The `except` clauses. -/
def handleError (lower : Text → Text) (steps : Steps) (call : CapabilityCall) :
    Raised → Procedure CallState Escaped Response
  | .accessDenied message => errorResponse "PERMISSION_DENIED" message none
  | .gateway code message => auditedError lower steps call code message
  | .timeout => transportError steps "TIMEOUT" "Connector 调用超时"
  | .http => transportError steps "PROVIDER_UNAVAILABLE" "Connector 调用失败"
  | .other =>
      auditedError lower steps call "INTERNAL_ERROR" (text "Capability Gateway 内部错误")

def CallState.initial (rows : List CapabilityInvocation) : CallState :=
  ⟨none, none, none, false, rows⟩

/-- `invoke_capability`: what the caller gets, and the audit table afterwards. -/
def invokeCapability (lower : Text → Text) (steps : Steps) (call : CapabilityCall)
    (rows : List CapabilityInvocation) : Except Escaped Response × List CapabilityInvocation :=
  let outcome := (catching (invokeBody lower steps call) (handleError lower steps call)).exec (.initial rows)
  (outcome.1, outcome.2.rows)

/-! ## The law -/

/-- The caller has received a success result. -/
def isSuccess : Except Escaped Response → Bool
  | .ok (.succeeded ..) => true
  | _ => false

/-- The call has one row, which is no longer pending and tells what the caller received. -/
def AuditComplete (rows : List CapabilityInvocation)
    (outcome : Except Escaped Response × List CapabilityInvocation) : Prop :=
  ∃ row, outcome.2 = rows ++ [row] ∧ row.status ≠ .pending ∧
    (row.status = .succeeded ↔ isSuccess outcome.1 = true)

/-- `uuid4` gives identifiers that are not in use. -/
def Steps.Fresh (steps : Steps) (rows : List CapabilityInvocation) : Prop :=
  steps.invocationId ∉ rows.map CapabilityInvocation.id ∧
    steps.failureId ∉ rows.map CapabilityInvocation.id

/-- The tool name fits its column, and the summary of the arguments can be stored. -/
def Auditable (lower : Text → Text) (call : CapabilityCall) : Prop :=
  varchar 128 (orUnknown call.toolName) ≠ none ∧
    storable (summary lower (.dict call.arguments)) = true

/-! ## Where a call stands -/

open Procedure (Ensures)

variable {lower : Text → Text} {steps : Steps} {call : CapabilityCall}
  {rows : List CapabilityInvocation} {st : CallState}

/-- The execution is authorized, and the call has no row. -/
structure Before (steps : Steps) (rows : List CapabilityInvocation) (st : CallState) : Prop where
  authorized : st.executionAuthorized = true
  rows : st.rows = rows
  id : st.invocationId = none ∨ st.invocationId = some steps.invocationId

/-- The call has a row, with a status as `ok` says. -/
structure Recorded (steps : Steps) (rows : List CapabilityInvocation) (ok : InvocationStatus → Prop)
    (st : CallState) : Prop where
  authorized : st.executionAuthorized = true
  row : ∃ row, st.rows = rows ++ [row] ∧ row.id = steps.invocationId ∧ ok row.status
  id : st.invocationId = some steps.invocationId

def anyStatus : InvocationStatus → Prop := fun _ => True

/-- The exception goes through `_audit_failure`. -/
def Raised.isStep : Raised → Bool
  | .gateway _ _ | .other => true
  | _ => false

/-- Where a call may fail: only its transport knows other exceptions, and then it has a row. -/
inductive Failing (steps : Steps) (rows : List CapabilityInvocation) (e : Raised) (st : CallState) :
    Prop where
  | before (he : e.isStep = true) (h : Before steps rows st)
  | recorded (he : ∀ message, e ≠ .accessDenied message) (h : Recorded steps rows anyStatus st)

theorem StepError.isStep_raised (e : StepError) : e.raised.isStep = true := by
  cases e <;> rfl

theorem not_accessDenied_of_isStep {e : Raised} (he : e.isStep = true) :
    ∀ message, e ≠ .accessDenied message := by
  rintro message rfl
  cases he

theorem Recorded.weaken {ok : InvocationStatus → Prop} (h : Recorded steps rows ok st) :
    Recorded steps rows anyStatus st := by
  obtain ⟨row, hrows, hid, _⟩ := h.row
  exact ⟨h.authorized, ⟨row, hrows, hid, trivial⟩, h.id⟩

theorem Recorded.failing {ok : InvocationStatus → Prop} {e : Raised} (he : e.isStep = true)
    (h : Recorded steps rows ok st) : Failing steps rows e st :=
  .recorded (not_accessDenied_of_isStep he) h.weaken

/-! ## Steps -/

section Rules

variable {α : Type} {pre : CallState → Prop} {raised : Raised → CallState → Prop}

/-- A step that only returns or raises. -/
theorem step_ensures {r : Except StepError α}
    (hraised : ∀ e s, e.isStep = true → pre s → raised e s) :
    Ensures pre (step r) (fun _ => pre) raised :=
  .ofExcept (fun _ _ _ hs => hs) fun e s _ hs => hraised e.raised s e.isStep_raised hs

theorem require_ensures {condition : Bool} (hraised : ∀ e s, e.isStep = true → pre s → raised e s) :
    Ensures pre (require condition Raised.other) (fun _ s => condition = true ∧ pre s) raised :=
  .require (fun _ hc hs => ⟨hc, hs⟩) fun s _ hs => hraised .other s rfl hs

theorem gatewayError_ensures {code message : String} {post : α → CallState → Prop}
    (hraised : ∀ e s, e.isStep = true → pre s → raised e s) :
    Ensures pre (gatewayError code message) post raised :=
  .throw fun s hs => hraised _ s rfl hs

theorem rejectInvalid_ensures {code complaint : String} {message : Option Text}
    (hraised : ∀ e s, e.isStep = true → pre s → raised e s) :
    Ensures pre (rejectInvalid code complaint message) (fun _ => pre) raised := by
  cases message with
  | some message => exact .throw fun s hs => hraised _ s rfl hs
  | none => exact .pure fun _ hs => hs

end Rules

theorem before_failing {e : Raised} {s : CallState} (he : e.isStep = true)
    (h : Before steps rows s) : Failing steps rows e s := .before he h

theorem recorded_failing {ok : InvocationStatus → Prop} {e : Raised} {s : CallState}
    (he : e.isStep = true) (h : Recorded steps rows ok s) : Failing steps rows e s := h.failing he

theorem findBinding_ensures :
    Ensures (Before steps rows) (findBinding steps call) (fun _ => Before steps rows)
      (Failing steps rows) := by
  refine (require_ensures fun e s => before_failing).bind fun _ => ?_
  refine ((step_ensures fun e s => before_failing).weaken (fun _ hs => hs.2) (fun _ _ hs => hs)
    (fun _ _ hs => hs)).bind fun binding => ?_
  refine (Ensures.modify (Q := fun _ => Before steps rows) fun s hs =>
    ⟨hs.authorized, hs.rows, hs.id⟩).bind fun _ => ?_
  split
  · split
    · exact .pure fun _ hs => hs
    · exact gatewayError_ensures fun e s => before_failing
  · exact gatewayError_ensures fun e s => before_failing

theorem findImplementation_ensures :
    Ensures (Before steps rows) (findImplementation steps) (fun _ => Before steps rows)
      (Failing steps rows) := by
  refine (step_ensures fun e s => before_failing).bind fun implementation => ?_
  refine (Ensures.modify (Q := fun _ => Before steps rows) fun s hs =>
    ⟨hs.authorized, hs.rows, hs.id⟩).bind fun _ => ?_
  split
  · exact .pure fun _ hs => hs
  · exact gatewayError_ensures fun e s => before_failing

theorem findProvider_ensures :
    Ensures (Before steps rows) (findProvider steps) (fun _ => Before steps rows)
      (Failing steps rows) := by
  refine (step_ensures fun e s => before_failing).bind fun provider => ?_
  split
  · split
    · exact gatewayError_ensures fun e s => before_failing
    · exact .pure fun _ hs => hs
  · exact gatewayError_ensures fun e s => before_failing

/-- The admission inserts the pending row, or leaves the table as it is. -/
theorem admitCall_ensures {binding : CapabilityBinding} {implementation : CapabilityImplementation}
    {scopedArguments : List (Text × PyValue)} :
    Ensures (Before steps rows) (admitCall lower steps call binding implementation scopedArguments)
      (fun _ => Recorded steps rows anyStatus) (Failing steps rows) := by
  refine (Ensures.modify (Q := fun _ s =>
    Before steps rows s ∧ s.invocationId = some steps.invocationId) fun s hs =>
      ⟨⟨hs.authorized, hs.rows, Or.inr rfl⟩, rfl⟩).bind fun _ => ?_
  refine (step_ensures fun e s he hs => before_failing he hs.1).bind fun _ => ?_
  refine (step_ensures fun e s he hs => before_failing he hs.1).bind fun _ => ?_
  split
  · exact .throw fun s hs => before_failing rfl hs.1
  next toolAlias _ =>
    refine (require_ensures fun e s he hs => before_failing he hs.1).bind fun _ => ?_
    refine .modify fun s hs => ?_
    obtain ⟨_, hbefore, hid⟩ := hs
    refine ⟨hbefore.authorized, ⟨pendingRow lower steps call binding implementation scopedArguments
      toolAlias, ?_, rfl, trivial⟩, hid⟩
    rw [hbefore.rows]

theorem readCache_ensures :
    Ensures (Recorded steps rows anyStatus) (readCache steps)
      (fun _ => Recorded steps rows anyStatus) (Failing steps rows) := by
  refine (step_ensures fun e s => recorded_failing).bind fun cached => ?_
  split
  · refine (step_ensures fun e s => recorded_failing).bind fun valid => ?_
    exact .pure fun _ hs => hs
  · exact .pure fun _ hs => hs

theorem callProvider_ensures :
    Ensures (Recorded steps rows anyStatus) (callProvider steps)
      (fun _ => Recorded steps rows anyStatus) (Failing steps rows) := by
  refine (step_ensures fun e s => recorded_failing).bind fun _ => ?_
  refine (Ensures.ofExcept (Q := fun _ => Recorded steps rows anyStatus) (fun _ _ _ hs => hs)
    fun e s _ hs => ?_).bind fun result => ?_
  · refine .recorded ?_ hs
    rintro message h
    cases e with
    | timeout | http => cases h
    | step error => cases error <;> cases h
  refine (step_ensures fun e s => recorded_failing).bind fun mapped => ?_
  refine (step_ensures fun e s => recorded_failing).bind fun outputError => ?_
  refine (rejectInvalid_ensures fun e s => recorded_failing).bind fun _ => ?_
  refine (step_ensures fun e s => recorded_failing).bind fun _ => ?_
  exact .pure fun _ hs => hs

theorem finishSucceeded_ensures (hfresh : steps.Fresh rows) {output : PyValue} {cacheHit : Bool} :
    Ensures (Recorded steps rows anyStatus) (finishSucceeded steps output cacheHit)
      (fun _ => Recorded steps rows (· = .succeeded)) (Failing steps rows) := by
  refine (require_ensures fun e s => recorded_failing).bind fun _ => ?_
  refine .modify fun s hs => ?_
  obtain ⟨_, hauthorized, ⟨row, hrows, hid, _⟩, hlocal⟩ := hs
  refine ⟨hauthorized, ⟨finishRow .succeeded steps.latency output none cacheHit row, ?_, hid, rfl⟩, hlocal⟩
  rw [CallState.updateRow, hrows, ← hid]
  exact Table.modify_concat (hid ▸ hfresh.1)

theorem succeed_ensures (hfresh : steps.Fresh rows) {data : PyValue} {cacheHit : Bool} :
    Ensures (Recorded steps rows anyStatus) (succeed lower steps data cacheHit)
      (fun response s => isSuccess (.ok response) = true ∧ Recorded steps rows (· = .succeeded) s)
      (Failing steps rows) := by
  refine (finishSucceeded_ensures hfresh).bind fun _ => ?_
  refine (step_ensures fun e s => recorded_failing).bind fun _ => ?_
  refine (step_ensures fun e s => recorded_failing).bind fun tokenRenewal => ?_
  refine (require_ensures fun e s => recorded_failing).bind fun _ => ?_
  exact .pure fun s hs => ⟨rfl, hs.2⟩

/-- An authorized call returns a success with its row, or fails where the `except` clauses
    can audit it. -/
theorem invokeBody_ensures (hfresh : steps.Fresh rows) (hauthorized : steps.authorized = .ok ()) :
    Ensures (· = .initial rows) (invokeBody lower steps call)
      (fun response s => isSuccess (.ok response) = true ∧ Recorded steps rows (· = .succeeded) s)
      (Failing steps rows) := by
  rw [invokeBody, hauthorized]
  refine (Ensures.ofExcept (Q := fun _ s => s = CallState.initial rows) (fun _ _ _ hs => hs)
    fun _ _ herror _ => nomatch herror).bind fun _ => ?_
  refine (Ensures.modify (Q := fun _ => Before steps rows) fun s hs => ?_).bind fun _ => ?_
  · subst hs
    exact ⟨rfl, rfl, Or.inl rfl⟩
  refine findBinding_ensures.bind fun binding => ?_
  refine findImplementation_ensures.bind fun implementation => ?_
  refine findProvider_ensures.bind fun _ => ?_
  refine (step_ensures fun e s => before_failing).bind fun _ => ?_
  refine (step_ensures fun e s => before_failing).bind fun inputError => ?_
  refine (rejectInvalid_ensures fun e s => before_failing).bind fun _ => ?_
  refine (step_ensures fun e s => before_failing).bind fun scopedArguments => ?_
  refine admitCall_ensures.bind fun _ => ?_
  refine readCache_ensures.bind fun cached => ?_
  split
  · exact succeed_ensures hfresh
  · exact callProvider_ensures.bind fun mapped => succeed_ensures hfresh

/-! ## The `except` clauses -/

/-- The call has one row, which says that it failed. -/
def Ended (rows : List CapabilityInvocation) (st : CallState) : Prop :=
  ∃ row, st.rows = rows ++ [row] ∧ row.status ≠ .pending ∧ row.status ≠ .succeeded

theorem failureRow_status (st : CallState) (toolAlias : Text) (code : String) :
    (failureRow lower steps call st toolAlias code).status ≠ .pending ∧
      (failureRow lower steps call st toolAlias code).status ≠ .succeeded := by
  simp only [failureRow]
  split <;> exact ⟨by decide, by decide⟩

/-- The insert of `_audit_failure` adds the row or, where it is there, ends it. -/
theorem upsertRow_ended {e : Raised} (hfresh : steps.Fresh rows) (h : Failing steps rows e st)
    {toolAlias : Text} {code : String} :
    Ended rows (st.upsertRow (failureRow lower steps call st toolAlias code)) := by
  have hstatus : (failureRow lower steps call st toolAlias code).status ≠ .pending ∧
      (failureRow lower steps call st toolAlias code).status ≠ .succeeded :=
    failureRow_status st toolAlias code
  cases h with
  | before he hbefore =>
      have hnew : (failureRow lower steps call st toolAlias code).id ∉
          rows.map CapabilityInvocation.id := by
        obtain hnone | hsome := hbefore.id
        · rw [failureRow, hnone]
          exact hfresh.2
        · rw [failureRow, hsome]
          exact hfresh.1
      refine ⟨_, ?_, hstatus⟩
      rw [CallState.upsertRow, hbefore.rows]
      exact Table.upsert_of_notMem hnew
  | recorded he hrecorded =>
      obtain ⟨row, hrows, hid, _⟩ := hrecorded.row
      have hsame : (failureRow lower steps call st toolAlias code).id = row.id := by
        rw [failureRow, hrecorded.id, hid]
        rfl
      refine ⟨failRow (failureRow lower steps call st toolAlias code) row, ?_, hstatus⟩
      rw [CallState.upsertRow, hrows, hsame]
      exact Table.upsert_concat (hid ▸ hfresh.1)

theorem auditFailure_ensures {e : Raised} (hfresh : steps.Fresh rows)
    (haudit : Auditable lower call) {code : String} :
    Ensures (Failing steps rows e) (auditFailure lower steps call code) (fun _ => Ended rows)
      (fun _ => Ended rows) := by
  obtain ⟨toolAlias, halias⟩ := Option.ne_none_iff_exists'.1 haudit.1
  refine (Ensures.get (Q := fun st s => s = st ∧ Failing steps rows e st) fun s hs =>
    ⟨rfl, hs⟩).bind fun st => ?_
  rw [halias]
  refine (Ensures.require (Q := fun _ s => s = st ∧ Failing steps rows e st)
    (fun _ _ hs => hs) fun s hstored _ => ?_).bind fun _ => ?_
  · exact absurd (haudit.2.symm.trans hstored) (by decide)
  refine (Ensures.modify (Q := fun _ => Ended rows) fun s hs => ?_).bind fun _ => ?_
  · obtain ⟨rfl, hfailing⟩ := hs
    exact upsertRow_ended hfresh hfailing
  · exact .pure fun _ hs => hs

theorem errorResponse_ensures {code : String} {message : Text} {id : Option Nat} :
    Ensures (Ended rows) (errorResponse code message id)
      (fun response s => isSuccess (.ok response) = false ∧ Ended rows s) (fun _ => Ended rows) := by
  refine (Ensures.require (Q := fun _ => Ended rows) (R := fun _ => Ended rows) (fun _ _ hs => hs)
    fun _ _ hs => hs).bind fun _ => ?_
  exact .pure fun _ hs => ⟨rfl, hs⟩

theorem Failing.authorized {e : Raised} (h : Failing steps rows e st) :
    st.executionAuthorized = true := by
  cases h with
  | before _ hbefore => exact hbefore.authorized
  | recorded _ hrecorded => exact hrecorded.authorized

theorem auditedError_ensures {e : Raised} (hfresh : steps.Fresh rows) (haudit : Auditable lower call)
    {code : String} {message : Text} :
    Ensures (Failing steps rows e) (auditedError lower steps call code message)
      (fun response s => isSuccess (.ok response) = false ∧ Ended rows s) (fun _ => Ended rows) := by
  refine (Ensures.get (Q := fun st s => s = st ∧ Failing steps rows e st) fun s hs =>
    ⟨rfl, hs⟩).bind fun st => ?_
  split
  · refine ((auditFailure_ensures (e := e) hfresh haudit).weaken ?_ (fun _ _ hs => hs)
      (fun _ _ hs => hs)).bind fun id => errorResponse_ensures
    rintro s ⟨rfl, hfailing⟩
    exact hfailing
  next hauthorized =>
    intro s hs
    exact absurd hs.2.authorized hauthorized

/-- A call whose transport fails has its row. -/
theorem transportError_ensures {e : Raised} (hfresh : steps.Fresh rows) (he : e.isStep = false)
    {code message : String} :
    Ensures (Failing steps rows e) (transportError steps code message)
      (fun response s => isSuccess (.ok response) = false ∧ Ended rows s) (fun _ => Ended rows) := by
  refine (Ensures.get (Q := fun st s => s = st ∧ Failing steps rows e st) fun s hs =>
    ⟨rfl, hs⟩).bind fun st => ?_
  split
  next id hid =>
    refine (Ensures.modify (Q := fun _ => Ended rows) fun s hs => ?_).bind fun _ =>
      errorResponse_ensures
    obtain ⟨rfl, hfailing⟩ := hs
    cases hfailing with
    | before hstep => rw [hstep] at he; cases he
    | recorded _ hrecorded =>
        obtain ⟨row, hrows, hrow, _⟩ := hrecorded.row
        obtain rfl : steps.invocationId = id := Option.some.inj (hrecorded.id.symm.trans hid)
        refine ⟨finishRow .failed steps.failureLatency (.dict []) (some code) false row, ?_,
          InvocationStatus.noConfusion, InvocationStatus.noConfusion⟩
        rw [CallState.updateRow, hrows, ← hrow]
        exact Table.modify_concat (hrow ▸ hfresh.1)
  next hnone =>
    intro s hs
    cases hs.2 with
    | before hstep => rw [hstep] at he; cases he
    | recorded _ hrecorded => rw [hrecorded.id] at hnone; cases hnone

theorem handleError_ensures (hfresh : steps.Fresh rows) (haudit : Auditable lower call) (e : Raised) :
    Ensures (Failing steps rows e) (handleError lower steps call e)
      (fun response s => isSuccess (.ok response) = false ∧ Ended rows s) (fun _ => Ended rows) := by
  cases e with
  | accessDenied message =>
      intro s hs
      cases hs with
      | before he => cases he
      | recorded he => exact absurd rfl (he message)
  | gateway code message => exact auditedError_ensures hfresh haudit
  | other => exact auditedError_ensures hfresh haudit
  | timeout => exact transportError_ensures hfresh rfl
  | http => exact transportError_ensures hfresh rfl

/-! ## Results -/

/-- An authorized call whose tool name and arguments can be audited has exactly one final
    row, whatever its steps return or raise. -/
theorem auditComplete_of_auditable (haudit : Auditable lower call) (hfresh : steps.Fresh rows)
    (hauthorized : steps.authorized = .ok ()) :
    AuditComplete rows (invokeCapability lower steps call rows) := by
  have hinvoke : Ensures (· = .initial rows)
      (catching (invokeBody lower steps call) (handleError lower steps call))
      (fun response s => (isSuccess (.ok response) = true ∧ Recorded steps rows (· = .succeeded) s) ∨
        (isSuccess (.ok response) = false ∧ Ended rows s)) (fun _ => Ended rows) := by
    refine Ensures.catching (M := Failing steps rows) ?_ fun e => ?_
    · exact (invokeBody_ensures hfresh hauthorized).weaken (fun _ hs => hs) (fun _ _ hs => Or.inl hs)
        (fun _ _ hs => hs)
    · exact (handleError_ensures hfresh haudit e).weaken (fun _ hs => hs) (fun _ _ hs => Or.inr hs)
        (fun _ _ hs => hs)
  have hcall := hinvoke (.initial rows) rfl
  rw [invokeCapability]
  split at hcall
  next response s hexec =>
    rw [hexec]
    obtain ⟨hsuccess, hrecorded⟩ | ⟨hfailed, row, hrows, hpending, hstatus⟩ := hcall
    · obtain ⟨row, hrows, _, hstatus⟩ := hrecorded.row
      refine ⟨row, hrows, ?_, iff_of_true hstatus hsuccess⟩
      rw [hstatus]
      decide
    · exact ⟨row, hrows, hpending, iff_of_false hstatus (by rw [hfailed]; decide)⟩
  next e s hexec =>
    rw [hexec]
    obtain ⟨row, hrows, hpending, hstatus⟩ := hcall
    exact ⟨row, hrows, hpending, iff_of_false hstatus (by simp [isSuccess])⟩

/-! ## Calls that cannot be audited -/

/-- The tool is not bound, and nothing else is asked. -/
def unboundSteps : Steps :=
  { authorized := .ok ()
    binding := .ok none
    implementation := .error .other
    provider := .error .other
    approval := .error .other
    inputError := .error .other
    scopedArguments := .error .other
    locks := .error .other
    quota := .error .other
    cached := .error .other
    cachedValid := .error .other
    decrypt := .error .other
    result := .error (.step .other)
    mapped := .error .other
    outputError := .error .other
    cacheSet := .error .other
    trace := .error .other
    renewal := .error .other
    invocationId := 1
    failureId := 2
    latency := 0
    failureLatency := 0 }

theorem unboundSteps_fresh : unboundSteps.Fresh [] := ⟨List.not_mem_nil, List.not_mem_nil⟩

/-- The execution is authorized, and the table is empty. -/
structure NoRow (st : CallState) : Prop where
  authorized : st.executionAuthorized = true
  rows : st.rows = []

/-- The call of a tool that is not bound fails before it has a row. -/
theorem invokeBody_unbound :
    Ensures (· = .initial []) (invokeBody lower unboundSteps call) (fun _ _ => False)
      (fun e s => e.isStep = true ∧ NoRow s) := by
  refine (Ensures.ofExcept (Q := fun _ s => s = CallState.initial []) (fun _ _ _ hs => hs)
    fun _ _ herror _ => nomatch herror).bind fun _ => ?_
  refine (Ensures.modify (Q := fun _ => NoRow) fun s hs => ?_).bind fun _ => ?_
  · subst hs
    exact ⟨rfl, rfl⟩
  refine Ensures.bind (M := fun _ _ => False) ?_ fun _ _ hs => hs.elim
  refine (require_ensures fun e s he hs => ⟨he, hs⟩).bind fun _ => ?_
  refine (Ensures.pure (Q := fun binding s => binding = none ∧ NoRow s) fun s hs =>
    ⟨rfl, hs.2⟩).bind fun binding => ?_
  refine (Ensures.modify (Q := fun _ s => binding = none ∧ NoRow s) fun s hs =>
    ⟨hs.1, hs.2.authorized, hs.2.rows⟩).bind fun _ => ?_
  cases binding with
  | none => exact gatewayError_ensures fun e s he hs => ⟨he, hs.2⟩
  | some binding => exact fun s hs => nomatch hs.1

/-- The insert of `_audit_failure` raises, and its exception leaves the call. -/
theorem auditFailure_not_auditable (haudit : ¬ Auditable lower call) {code : String} :
    Ensures NoRow (auditFailure lower steps call code) (fun _ _ => False) (fun _ => NoRow) := by
  refine (Ensures.get (Q := fun _ => NoRow) fun s hs => hs).bind fun st => ?_
  split
  · exact .throw fun s hs => hs
  next toolAlias halias =>
    refine (Ensures.require (Q := fun _ _ => False) (R := fun _ => NoRow) (fun s hstored _ => ?_)
      fun s _ hs => hs).bind fun _ s hs => hs.elim
    exact haudit ⟨by rw [halias]; exact Option.some_ne_none _, hstored⟩

theorem auditedError_not_auditable (haudit : ¬ Auditable lower call) {code : String} {message : Text} :
    Ensures NoRow (auditedError lower steps call code message) (fun _ _ => False) (fun _ => NoRow) := by
  refine (Ensures.get (Q := fun st s => NoRow st ∧ NoRow s) fun s hs => ⟨hs, hs⟩).bind fun st => ?_
  split
  · refine ((auditFailure_not_auditable haudit).weaken (fun _ hs => hs.2) (fun _ _ hs => hs)
      (fun _ _ hs => hs)).bind fun _ s hs => hs.elim
  next hauthorized => exact fun s hs => absurd hs.1.authorized hauthorized

theorem handleError_not_auditable (haudit : ¬ Auditable lower call) {e : Raised} :
    Ensures (fun s => e.isStep = true ∧ NoRow s) (handleError lower steps call e) (fun _ _ => False)
      (fun _ => NoRow) := by
  cases e with
  | accessDenied | timeout | http => exact fun s hs => nomatch hs.1
  | gateway code message =>
      exact (auditedError_not_auditable haudit).weaken (fun _ hs => hs.2) (fun _ _ hs => hs)
        (fun _ _ hs => hs)
  | other =>
      exact (auditedError_not_auditable haudit).weaken (fun _ hs => hs.2) (fun _ _ hs => hs)
        (fun _ _ hs => hs)

/-- A call that cannot be audited can end without a row. -/
theorem no_row_of_not_auditable (haudit : ¬ Auditable lower call) :
    (invokeCapability lower unboundSteps call []).2 = [] := by
  have hinvoke : Ensures (· = .initial [])
      (catching (invokeBody lower unboundSteps call) (handleError lower unboundSteps call))
      (fun _ _ => False) (fun _ => NoRow) :=
    invokeBody_unbound.catching fun _ => handleError_not_auditable haudit
  have hcall := hinvoke (.initial []) rfl
  rw [invokeCapability]
  split at hcall
  · exact hcall.elim
  next e s hexec =>
    rw [hexec]
    exact hcall.rows

/-- Every authorized call has exactly one final row, whatever its steps return or raise, just
    when its tool name and the summary of its arguments can be stored. -/
theorem audit_complete_iff (lower : Text → Text) (call : CapabilityCall) :
    (∀ (steps : Steps) (rows : List CapabilityInvocation), steps.authorized = .ok () →
      steps.Fresh rows → AuditComplete rows (invokeCapability lower steps call rows)) ↔
      Auditable lower call := by
  constructor
  · intro hcomplete
    by_contra haudit
    obtain ⟨row, hrows, _⟩ := hcomplete unboundSteps [] rfl unboundSteps_fresh
    rw [no_row_of_not_auditable haudit] at hrows
    cases hrows
  · intro haudit steps rows hauthorized hfresh
    exact auditComplete_of_auditable haudit hfresh hauthorized

/-! ## A call without a row -/

/-- `{"query": "\u0000"}`. -/
def nulCall : CapabilityCall :=
  { claims := ⟨"agent-1", "version-1", []⟩
    executionId := "execution-1"
    toolName := text "search"
    arguments := [(text "query", .str [0])] }

theorem nul_call_not_audited :
    unboundSteps.authorized = .ok () ∧ unboundSteps.Fresh [] ∧
      ¬ AuditComplete [] (invokeCapability id unboundSteps nulCall []) := by
  refine ⟨rfl, unboundSteps_fresh, ?_⟩
  rintro ⟨row, hrows, _⟩
  have hnone : (invokeCapability id unboundSteps nulCall []).2 = [] := rfl
  rw [hnone] at hrows
  cases hrows

end Audit
end Gateway
end HermesPlatform
