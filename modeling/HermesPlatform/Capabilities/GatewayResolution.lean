/-
  HermesPlatform.Capabilities.GatewayResolution

  What the capability gateway resolves for a request under an execution token:
  `_authorized_execution`, `resolve_capabilities` and the part of `invoke_capability` that
  finds the binding, the implementation and the connector
  (`hermes_mcp_gateway.capability_gateway`).

  Every request reads the catalogue anew.  The token names the bindings that may be used
  and the digest; with the rows that are found the digest is not compared.
-/

import HermesPlatform.Capabilities.Resolver
import HermesPlatform.Tokens.CapabilityToken

namespace HermesPlatform
namespace Capabilities

open Gateway (GatewayError)
open Json (asDict)
open Table (lookup)
open Tokens (IssueArguments)

/-! ## The execution -/

/-- A row of `execution_logs`. -/
structure ExecutionRow where
  agentId : String
  agentVersionId : Option String
  running : Bool

/-- `_authorized_execution`; `column` is `resolution_digest` of the version's row. -/
def authorizedExecution (execution : Option ExecutionRow) (column : Option String)
    (claims : IssueArguments) : Except GatewayError ExecutionRow :=
  match execution.filter (·.running) with
  | none => .error ⟨"PERMISSION_DENIED", "Execution 当前不可调用能力"⟩
  | some row =>
      if row.agentId ≠ claims.agentId ∨
          row.agentVersionId.getD "None" ≠ claims.agentVersionId ∨
          column ≠ some claims.resolutionDigest then
        .error ⟨"PERMISSION_DENIED", "Execution Token 与执行快照不匹配"⟩
      else .ok row

/-! ## The rows -/

/-- A binding with its capability version and capability. -/
def joinRow (c : Catalogue) (binding : Binding) : Option BindingRow := do
  let version ← lookup CapabilityVersion.id binding.capabilityVersionId c.versions
  let capability ← lookup Capability.id version.capabilityId c.capabilities
  return ⟨binding, version, capability⟩

/-- The rows that `resolve_capabilities` lists, in the order of the aliases. -/
def listedRows (py : ResolverPython) (c : Catalogue) (claims : IssueArguments) : List BindingRow :=
  let allowed := c.bindings.filter fun binding =>
    binding.agentVersionId = claims.agentVersionId ∧ binding.enabled ∧
      binding.id ∈ claims.allowedBindings
  (allowed.insertionSort fun a b => py.collate a.toolAlias b.toolAlias).filterMap (joinRow c)

/-- The row of an alias that `invoke_capability` finds. -/
def boundRow (c : Catalogue) (claims : IssueArguments) (toolName : String) : Option BindingRow :=
  ((c.bindings.filter fun binding =>
    binding.agentVersionId = claims.agentVersionId ∧ binding.toolAlias = toolName ∧
      binding.enabled).filterMap (joinRow c)).head?

/-- There is a connector, which is enabled and not offline. -/
def providerAvailable (c : Catalogue) (implementation : Implementation) : Bool :=
  ((lookup ConnectorOperation.id implementation.connectorOperationId c.operations).any
    fun operation => (lookup Connector.id operation.connectorId c.connectors).isSome) &&
  ((lookup ConnectorInstanceRevision.id implementation.connectorInstanceRevisionId
    c.revisions).any fun revision =>
      (lookup ConnectorInstance.id revision.connectorInstanceId c.instances).any
        fun inst => inst.enabled ∧ inst.healthStatus ≠ .offline)

/-- What `invoke_capability` runs for a tool; `check` is the error of `_enforce_approval`, of
    the arguments or of the quotas for the rows that were found. -/
def invokeCapability (c : Catalogue) (claims : IssueArguments) (toolName : String)
    (check : BindingRow × Implementation → Option GatewayError) :
    Except GatewayError (BindingRow × Implementation) :=
  match (boundRow c claims toolName).filter (·.binding.id ∈ claims.allowedBindings) with
  | none => .error ⟨"PERMISSION_DENIED", "当前 Agent Version 未绑定该能力"⟩
  | some row =>
      match chooseImplementation c row.binding row.version.id with
      | none => .error ⟨"PROVIDER_UNAVAILABLE", "能力没有可用实现"⟩
      | some implementation =>
          if providerAvailable c implementation = false then
            .error ⟨"PROVIDER_UNAVAILABLE", "Connector 当前不可用"⟩
          else
            match check (row, implementation) with
            | some error => .error error
            | none => .ok (row, implementation)

/-- A row as `resolve_capabilities` lists it; `side_effect` and `idempotency`, which no digest
    covers, are left out. -/
def BindingRow.listed (row : BindingRow) : Json :=
  .object
    [("binding_id", .string row.binding.id),
      ("tool_name", .string row.binding.toolAlias),
      ("capability", .string row.capability.key),
      ("version", .string row.version.version),
      ("description", .string row.capability.shown),
      ("input_schema", .object (asDict (some row.version.inputSchema)).entries),
      ("output_schema", .object (asDict (some row.version.outputSchema)).entries)]

/-! ## Requests -/

inductive GatewayRequest where
  | resolve
  | invoke (toolName : String) (check : BindingRow × Implementation → Option GatewayError)

/-- A request with what the gateway finds in the database when it comes. -/
structure GatewayCall where
  catalogue : Catalogue
  execution : Option ExecutionRow
  column : Option String
  request : GatewayRequest

inductive GatewayAnswer where
  | listed (rows : List BindingRow)
  | invoked (row : BindingRow × Implementation)

/-- The gateway's answer to a request under a token. -/
def GatewayCall.answer (call : GatewayCall) (py : ResolverPython) (claims : IssueArguments) :
    Except GatewayError GatewayAnswer :=
  match authorizedExecution call.execution call.column claims with
  | .error error => .error error
  | .ok _ =>
      match call.request with
      | .resolve => .ok (.listed (listedRows py call.catalogue claims))
      | .invoke toolName check =>
          (invokeCapability call.catalogue claims toolName check).map .invoked

/-! ## When a request is answered -/

variable {py : ResolverPython} {claims : IssueArguments} {call : GatewayCall}

/-- The execution runs, for the agent and the version of the token, and the version's column
    has the digest of the token. -/
structure GatewayCall.Authorized (call : GatewayCall) (claims : IssueArguments) : Prop where
  execution : ∃ row ∈ call.execution, row.running = true ∧ row.agentId = claims.agentId ∧
    row.agentVersionId.getD "None" = claims.agentVersionId
  column : call.column = some claims.resolutionDigest

/-- A call of a tool finds these rows and nothing is in its way. -/
structure GatewayCall.Finds (call : GatewayCall) (claims : IssueArguments) (toolName : String)
    (check : BindingRow × Implementation → Option GatewayError)
    (row : BindingRow × Implementation) : Prop where
  bound : boundRow call.catalogue claims toolName = some row.1
  allowed : row.1.binding.id ∈ claims.allowedBindings
  chosen : chooseImplementation call.catalogue row.1.binding row.1.version.id = some row.2
  available : providerAvailable call.catalogue row.2 = true
  admitted : check row = none

theorem authorizedExecution_isOk :
    (∃ row, authorizedExecution call.execution call.column claims = .ok row) ↔
      call.Authorized claims := by
  unfold authorizedExecution
  cases hexecution : call.execution.filter (·.running) with
  | none =>
      refine iff_of_false (by rintro ⟨_, h⟩; cases h) ?_
      rintro ⟨⟨row, hrow, hrunning, -⟩, -⟩
      rw [Option.mem_def.mp hrow, Option.filter_some_pos hrunning] at hexecution
      cases hexecution
  | some row =>
      obtain ⟨hrow, hrunning⟩ := Option.filter_eq_some_iff.mp hexecution
      dsimp only
      split
      · rename_i hdiffers
        refine iff_of_false (by rintro ⟨_, h⟩; cases h) ?_
        rintro ⟨⟨row', hrow', -, hagent, hversion⟩, hcolumn⟩
        cases Option.some.inj (hrow.symm.trans hrow')
        rcases hdiffers with h | h | h
        · exact h hagent
        · exact h hversion
        · exact h hcolumn
      · rename_i hsame
        rw [not_or, not_or, not_not, not_not, not_not] at hsame
        exact iff_of_true ⟨row, rfl⟩ ⟨⟨row, hrow, hrunning, hsame.1, hsame.2.1⟩, hsame.2.2⟩

theorem invokeCapability_ok {toolName : String}
    {check : BindingRow × Implementation → Option GatewayError} {row : BindingRow × Implementation} :
    invokeCapability call.catalogue claims toolName check = .ok row ↔
      call.Finds claims toolName check row := by
  refine ⟨?_, ?_⟩
  · intro h
    unfold invokeCapability at h
    -- No binding, no implementation, no connector, and what `check` refuses.
    split at h
    · cases h
    rename_i bound hbound
    obtain ⟨hbound, hallowed⟩ := Option.filter_eq_some_iff.mp hbound
    split at h
    · cases h
    rename_i implementation hchosen
    split at h
    · cases h
    rename_i havailable
    split at h
    · cases h
    rename_i hcheck
    cases h
    exact ⟨hbound, of_decide_eq_true hallowed, hchosen, eq_true_of_ne_false havailable, hcheck⟩
  · rintro ⟨hbound, hallowed, hchosen, havailable, hcheck⟩
    unfold invokeCapability
    have hfound : (some row.1).filter (·.binding.id ∈ claims.allowedBindings) = some row.1 :=
      Option.filter_some_pos (decide_eq_true hallowed)
    rw [hbound, hfound]
    dsimp only
    rw [hchosen]
    dsimp only
    rw [if_neg (by rw [havailable]; exact Bool.noConfusion), hcheck]

/-- A request that is answered is authorized; a listing has the listed rows, and a call of a
    tool runs the rows that it finds. -/
theorem GatewayCall.answer_ok {answer : GatewayAnswer} :
    call.answer py claims = .ok answer ↔
      call.Authorized claims ∧
        match call.request with
        | .resolve => answer = .listed (listedRows py call.catalogue claims)
        | .invoke toolName check =>
            ∃ row, call.Finds claims toolName check row ∧ answer = .invoked row := by
  unfold GatewayCall.answer
  cases hexecution : authorizedExecution call.execution call.column claims with
  | error error =>
      refine iff_of_false (by intro h; cases h) ?_
      rintro ⟨hauthorized, -⟩
      obtain ⟨row, hrow⟩ := authorizedExecution_isOk.mpr hauthorized
      rw [hexecution] at hrow
      cases hrow
  | ok row =>
      rw [and_iff_right (authorizedExecution_isOk.mp ⟨row, hexecution⟩)]
      cases call.request with
      | resolve =>
          dsimp only
          rw [Except.ok.injEq]
          exact eq_comm
      | invoke toolName check =>
          simp only [← invokeCapability_ok]
          cases invokeCapability call.catalogue claims toolName check with
          | error error => exact iff_of_false (by intro h; cases h) (by rintro ⟨_, h, -⟩; cases h)
          | ok found =>
              refine ⟨?_, ?_⟩
              · intro h
                cases h
                exact ⟨found, rfl, rfl⟩
              · rintro ⟨_, h, rfl⟩
                cases h
                rfl

end Capabilities
end HermesPlatform
