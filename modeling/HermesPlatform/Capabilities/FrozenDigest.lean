/-
  HermesPlatform.Capabilities.FrozenDigest

  The frozen resolution of an agent version: where it is frozen (`publish_agent`), how an
  execution of the version uses it (`app.api.agents`), and what the capability gateway
  finds for the requests of the execution.

  An execution resolves the capabilities anew and puts the frozen digest in the place of
  the digest of what it found, and at every request the gateway reads the catalogue again.
  So an execution runs under the frozen digest whatever the catalogue offers by then; the
  two agree just when the catalogue offers at the start, and has at every request that is
  answered, what it offered when the digest was frozen (`frozen_resolution_enforced_iff`).
-/

import HermesPlatform.Capabilities.GatewayResolution
import Mathlib.Data.List.Forall2

namespace HermesPlatform
namespace Capabilities

open Gateway (GatewayError truthy optional_inj)
open Json (asDict)
open Python (Dict)
open Table (lookup mem_of_lookup key_of_lookup)
open Tokens (IssueArguments)

/-! ## Executions -/

structure CapabilitySettings where
  capabilityPlatformEnabled : Bool
  capabilityGatewayEnabled : Bool

structure ExecutionContext where
  executionId : String
  agentId : String
  runtimeId : String

/-- 409, 503, or the 500 of any other exception. -/
inductive ExecutionRefusal where
  | preflight (issues : List PreflightIssue)
  | gatewayDisabled
  | internal

/-- What the execution goes on with: the resolution, and the arguments of its token. -/
structure ExecutionCapabilities where
  resolution : CapabilityResolution
  token : IssueArguments

/-- `frozen_digest`, where there is one. -/
def frozenDigest (py : ResolverPython) (v : AgentVersion) : Option String :=
  Python.truthy <| match Python.truthy v.resolutionDigest with
    | some frozen => some frozen
    | none => ((v.snapshot.get? "resolution_digest").filter truthy).map py.str

/-- `replace(resolution, resolution_digest=frozen_digest)`, if there is one. -/
def CapabilityResolution.withFrozen (resolution : CapabilityResolution) (frozen : Option String) :
    CapabilityResolution :=
  match frozen with
  | some frozen => { resolution with resolutionDigest := frozen }
  | none => resolution

/-- The token is issued for the tools of the resolution, under its digest. -/
def granted (context : ExecutionContext) (v : AgentVersion) (resolution : CapabilityResolution) :
    ExecutionCapabilities :=
  { resolution := resolution
    token :=
      { executionId := context.executionId
        agentId := context.agentId
        agentVersionId := v.id
        runtimeId := context.runtimeId
        allowedBindings := resolution.tools.map ResolvedCapability.bindingId
        resolutionDigest := resolution.resolutionDigest } }

/-- The capabilities of an execution of the version. -/
def executionCapabilities (py : ResolverPython) (settings : CapabilitySettings) (c : Catalogue)
    (v : AgentVersion) (context : ExecutionContext) :
    Except ExecutionRefusal (Option ExecutionCapabilities) :=
  if settings.capabilityPlatformEnabled = false then .ok none
  else
    match formatVersion py v.snapshot 1 with
    | none => .error .internal
    | some version =>
        if version ≠ 2 then .ok none
        else
          match resolveAgentCapabilities py c v with
          | none => .error .internal
          | some resolution =>
              if resolution.ready = false then .error (.preflight resolution.issues)
              else if resolution.tools ≠ [] ∧ settings.capabilityGatewayEnabled = false then
                .error .gatewayDisabled
              else
                .ok (some (granted context v (resolution.withFrozen (frozenDigest py v))))

/-! ## Publication -/

/-- The version with the resolution in its snapshot and in its columns. -/
def AgentVersion.freeze (v : AgentVersion) (resolution : CapabilityResolution) : AgentVersion :=
  let scopes := (resolution.tools.filterMap (·.resourceScopeRevisionId)).dedup
  { v with
    snapshot := v.snapshot.update
      [("capability_bindings", .array (resolution.tools.map fun tool => .object tool.members)),
        ("resource_scope_revisions", .array ((scopes.insertionSort (· ≤ ·)).map .string)),
        ("resolution_digest", .string resolution.resolutionDigest)]
    snapshotFormatVersion := 2
    resolutionDigest := some resolution.resolutionDigest }

/-- The part of `publish_agent` that freezes the resolution; an error is the list of the
    issues, or an exception. -/
def freezeResolution (py : ResolverPython) (c : Catalogue) (v : AgentVersion) :
    Except (Option (List PreflightIssue)) AgentVersion :=
  match formatVersion py v.snapshot v.snapshotFormatVersion with
  | none => .error none
  | some version =>
      if version ≠ 2 then .ok v
      else
        match resolveAgentCapabilities py c v with
        | none => .error none
        | some resolution =>
            if resolution.ready = false then .error (some resolution.issues)
            else .ok (v.freeze resolution)

/-! ## The law -/

/-- The digest of what the execution is offered. -/
def ExecutionCapabilities.offeredDigest (py : ResolverPython) (v : AgentVersion)
    (e : ExecutionCapabilities) : String :=
  digest py (digestPayload v.id e.resolution.runtimeFeatures e.resolution.tools)

/-- The digest of what it is offered, with the rows that a call runs in the place of those of
    their binding. -/
def ExecutionCapabilities.invokedDigest (py : ResolverPython) (v : AgentVersion)
    (e : ExecutionCapabilities) (row : BindingRow × Implementation) : String :=
  digest py (digestPayload v.id e.resolution.runtimeFeatures
    (e.resolution.tools.map fun tool =>
      if tool.bindingId = row.1.binding.id then row.1.tool row.2 else tool))

/-- A tool as it is to be listed. -/
def ResolvedCapability.listed (tool : ResolvedCapability) : Json :=
  .object
    [("binding_id", .string tool.bindingId),
      ("tool_name", .string tool.toolName),
      ("capability", .string tool.capabilityKey),
      ("version", .string tool.capabilityVersion),
      ("description", .string tool.description),
      ("input_schema", tool.inputSchema),
      ("output_schema", tool.outputSchema)]

/-- An answer of the gateway shows or runs what the execution is offered under the digest. -/
def ExecutionCapabilities.Covers (py : ResolverPython) (v : AgentVersion)
    (e : ExecutionCapabilities) (frozen : String) : GatewayAnswer → Prop
  | .listed rows => (Json.array (rows.map BindingRow.listed)).sortKeys =
      (Json.array (e.resolution.tools.map ResolvedCapability.listed)).sortKeys
  | .invoked row => e.invokedDigest py v row = frozen

/-- An execution of the version that goes on with capabilities has those of the frozen
    digest, and so has every request of it that the gateway answers. -/
def FrozenEnforced (py : ResolverPython) (settings : CapabilitySettings) (c : Catalogue)
    (v : AgentVersion) (context : ExecutionContext) (calls : List GatewayCall) : Prop :=
  ∀ e, executionCapabilities py settings c v context = .ok (some e) →
    ∀ frozen ∈ frozenDigest py v, e.offeredDigest py v = frozen ∧
      ∀ call ∈ calls, ∀ answer, call.answer py e.token = .ok answer → e.Covers py v frozen answer

/-- The digest was frozen in this state of the catalogue. -/
structure FrozenIn (py : ResolverPython) (c : Catalogue) (v : AgentVersion) : Prop where
  ready : (resolveCapabilities py c v).ready = true
  frozen : frozenDigest py v = some (resolveCapabilities py c v).resolutionDigest

/-- The row of a binding that can be offered, with the implementation that is chosen for it. -/
def offeredRow (c : Catalogue) (row : BindingRow) : Option (BindingRow × Implementation) :=
  if row.version.status ≠ .published ∧ row.version.status ≠ .deprecated then none
  else (chooseImplementation c row.binding row.version.id).bind fun implementation =>
    if (lookup ConnectorOperation.id implementation.connectorOperationId c.operations).isSome ∧
        (lookup ConnectorInstanceRevision.id implementation.connectorInstanceRevisionId
          c.revisions).isSome
    then some (row, implementation)
    else none

def offeredRows (py : ResolverPython) (c : Catalogue) (v : AgentVersion) :
    List (BindingRow × Implementation) :=
  (bindingRows py c v).filterMap (offeredRow c)

/-- Two rows agree in what a tool shows of them. -/
structure SameRow (a b : BindingRow × Implementation) : Prop where
  binding : a.1.binding.id = b.1.binding.id
  toolAlias : a.1.binding.toolAlias = b.1.binding.toolAlias
  capability : a.1.capability.key = b.1.capability.key
  version : a.1.version.version = b.1.version.version
  description : a.1.capability.shown = b.1.capability.shown
  inputSchema : (orEmpty a.1.version.inputSchema).sortKeys = (orEmpty b.1.version.inputSchema).sortKeys
  outputSchema :
    (orEmpty a.1.version.outputSchema).sortKeys = (orEmpty b.1.version.outputSchema).sortKeys
  implementation : a.2.id = b.2.id
  operation : a.2.connectorOperationId = b.2.connectorOperationId
  revision : a.2.connectorInstanceRevisionId = b.2.connectorInstanceRevisionId
  scope : a.1.binding.resourceScopeRevisionId = b.1.binding.resourceScopeRevisionId
  parameterPolicy :
    (orEmpty a.1.binding.parameterPolicy).sortKeys = (orEmpty b.1.binding.parameterPolicy).sortKeys
  quotaPolicy : (orEmpty a.1.binding.quotaPolicy).sortKeys = (orEmpty b.1.binding.quotaPolicy).sortKeys
  approvalPolicy :
    (orEmpty a.1.binding.approvalPolicy).sortKeys = (orEmpty b.1.binding.approvalPolicy).sortKeys

/-- Two states of the catalogue offer the version the same. -/
structure SameOffer (py : ResolverPython) (c c' : Catalogue) (v : AgentVersion) : Prop where
  features : (Json.object (runtimeFeatures py c v).1.entries).sortKeys =
    (Json.object (runtimeFeatures py c' v).1.entries).sortKeys
  rows : List.Forall₂ SameRow (offeredRows py c v) (offeredRows py c' v)

/-- A listed row shows what the tool of the other row shows. -/
structure SameListing (a b : BindingRow) : Prop where
  binding : a.binding.id = b.binding.id
  toolAlias : a.binding.toolAlias = b.binding.toolAlias
  capability : a.capability.key = b.capability.key
  version : a.version.version = b.version.version
  description : a.capability.shown = b.capability.shown
  inputSchema : (orEmpty a.version.inputSchema).sortKeys =
    (Json.object (asDict (some b.version.inputSchema)).entries).sortKeys
  outputSchema : (orEmpty a.version.outputSchema).sortKeys =
    (Json.object (asDict (some b.version.outputSchema)).entries).sortKeys

/-- The token of an execution that is offered what the catalogue offers, under its digest. -/
def offerToken (py : ResolverPython) (c : Catalogue) (v : AgentVersion)
    (context : ExecutionContext) : IssueArguments :=
  (granted context v (resolveCapabilities py c v)).token

/-- A request under the token is refused, or has in its state of the catalogue what the other
    state offers: the listed rows, or the row of the binding and its implementation. -/
def SameAtCall (py : ResolverPython) (c₀ : Catalogue) (v : AgentVersion)
    (context : ExecutionContext) (call : GatewayCall) : Prop :=
  call.Authorized (offerToken py c₀ v context) →
    match call.request with
    | .resolve => List.Forall₂ SameListing ((offeredRows py c₀ v).map Prod.fst)
        (listedRows py call.catalogue (offerToken py c₀ v context))
    | .invoke toolName check =>
        ∀ row, call.Finds (offerToken py c₀ v context) toolName check row →
          ∀ row₀ ∈ offeredRows py c₀ v, row₀.1.binding.id = row.1.binding.id → SameRow row₀ row

/-- No capabilities are given to an execution: the platform is off, the snapshot is not of
    the second format, the preflight fails, or there are tools and the gateway is off. -/
def NotGranted (py : ResolverPython) (settings : CapabilitySettings) (c : Catalogue)
    (v : AgentVersion) : Prop :=
  settings.capabilityPlatformEnabled = false ∨ formatVersion py v.snapshot 1 ≠ some 2 ∨
    (resolveCapabilities py c v).ready = false ∨
    (offeredRows py c v ≠ [] ∧ settings.capabilityGatewayEnabled = false)

/-! ## What the digest covers -/

variable {py : ResolverPython} {settings : CapabilitySettings} {c c₀ : Catalogue}
  {v : AgentVersion} {context : ExecutionContext} {calls : List GatewayCall}

theorem resolveRow_tool (row : BindingRow) :
    (resolveRow py c row).2 = (offeredRow c row).map fun r => r.1.tool r.2 := by
  unfold resolveRow offeredRow
  split
  · rfl
  · cases chooseImplementation c row.binding row.version.id with
    | none => rfl
    | some implementation =>
        dsimp only [Option.bind_some]
        cases lookup ConnectorOperation.id implementation.connectorOperationId c.operations with
        | none => rfl
        | some operation =>
            cases lookup ConnectorInstanceRevision.id implementation.connectorInstanceRevisionId
              c.revisions with
            | none => rfl
            | some revision => rfl

/-- The tools of the resolution are those of the rows that can be offered. -/
theorem resolve_tools :
    (resolveCapabilities py c v).tools = (offeredRows py c v).map fun r => r.1.tool r.2 := by
  show ((bindingRows py c v).map (resolveRow py c)).filterMap Prod.snd = _
  rw [List.filterMap_map, offeredRows, List.map_filterMap]
  exact List.filterMap_congr fun row _ => resolveRow_tool row

theorem members_nodup (tool : ResolvedCapability) : (tool.members.map Prod.fst).Nodup := by
  simp [ResolvedCapability.members]

theorem sameRow_iff {a b : BindingRow × Implementation} :
    (Json.object (a.1.tool a.2).members).sortKeys = (Json.object (b.1.tool b.2).members).sortKeys ↔
      SameRow a b := by
  rw [Json.sortKeys_object_iff (by rfl) (members_nodup _)]
  simp only [ResolvedCapability.members, BindingRow.tool, List.map_cons, List.map_nil,
    List.cons.injEq, and_true, Json.sortKeys_string, Json.string.injEq]
  refine ⟨?_, ?_⟩
  · rintro ⟨binding, toolAlias, capability, version, description, inputSchema, outputSchema,
      implementation, operation, revision, scope, parameterPolicy, quotaPolicy, approvalPolicy⟩
    exact ⟨binding, toolAlias, capability, version, description, inputSchema, outputSchema,
      implementation, operation, revision, optional_inj scope, parameterPolicy, quotaPolicy,
      approvalPolicy⟩
  · intro h
    exact ⟨h.binding, h.toolAlias, h.capability, h.version, h.description, h.inputSchema,
      h.outputSchema, h.implementation, h.operation, h.revision, by rw [h.scope],
      h.parameterPolicy, h.quotaPolicy, h.approvalPolicy⟩

theorem sameRows_iff {rows rows' : List (BindingRow × Implementation)} :
    (rows.map fun r => (Json.object (r.1.tool r.2).members).sortKeys) =
        (rows'.map fun r => (Json.object (r.1.tool r.2).members).sortKeys) ↔
      List.Forall₂ SameRow rows rows' := by
  rw [← List.forall₂_eq_eq_eq, List.forall₂_map_left_iff, List.forall₂_map_right_iff]
  exact ⟨fun h => h.imp fun _ _ => sameRow_iff.mp, fun h => h.imp fun _ _ => sameRow_iff.mpr⟩

theorem digest_inj (hsha : Function.Injective py.sha256) {a b : Json} :
    digest py a = digest py b ↔ a.sortKeys = b.sortKeys := by
  rw [← Json.dumps_inj]
  refine ⟨?_, ?_⟩
  · intro h
    exact hsha (String.append_right_inj _ |>.mp h)
  · intro h
    rw [digest, digest, h]

theorem payload_nodup (id : String) (features : Dict String Json)
    (tools : List ResolvedCapability) :
    ([("agent_version_id", Json.string id), ("runtime_features", .object features.entries),
      ("tools", .array (tools.map fun tool => .object tool.members))].map Prod.fst).Nodup := by
  simp

/-- **Coverage.**  The digests of two resolutions of a version are equal just when the
    catalogue offers the same. -/
theorem resolutionDigest_eq_iff (hsha : Function.Injective py.sha256) :
    (resolveCapabilities py c₀ v).resolutionDigest = (resolveCapabilities py c v).resolutionDigest ↔
      SameOffer py c₀ c v := by
  have hdigest (c : Catalogue) : (resolveCapabilities py c v).resolutionDigest =
      digest py (digestPayload v.id (runtimeFeatures py c v).1 (resolveCapabilities py c v).tools) := rfl
  rw [hdigest, hdigest, digest_inj hsha, digestPayload, digestPayload,
    Json.sortKeys_object_iff (by rfl) (payload_nodup _ _ _)]
  simp only [List.map_cons, List.map_nil, List.cons.injEq, and_true, true_and,
    Json.sortKeys_array_iff, List.map_map, resolve_tools]
  refine ⟨?_, ?_⟩
  · rintro ⟨features, rows⟩
    exact ⟨features, sameRows_iff.mp rows⟩
  · intro h
    exact ⟨h.features, sameRows_iff.mpr h.rows⟩

/-! ## Executions of the version -/

theorem formatVersion_column {snapshot : Dict String Json}
    (h : formatVersion py snapshot 1 = some 2) (column : Int) :
    formatVersion py snapshot column = some 2 := by
  unfold formatVersion at h ⊢
  cases hversion : (snapshot.get? "format_version").filter truthy with
  | none =>
      rw [hversion] at h
      cases h
  | some version =>
      rw [hversion] at h
      exact h

/-- A version of the second format is resolved by the part for it. -/
theorem resolve_of_format (h : formatVersion py v.snapshot 1 = some 2) :
    resolveAgentCapabilities py c v = some (resolveCapabilities py c v) := by
  rw [resolveAgentCapabilities, formatVersion_column h]
  rfl

theorem executionCapabilities_eq_ok {e : ExecutionCapabilities} :
    executionCapabilities py settings c v context = .ok (some e) ↔
      ¬ NotGranted py settings c v ∧
        e = granted context v ((resolveCapabilities py c v).withFrozen (frozenDigest py v)) := by
  have htools : (resolveCapabilities py c v).tools ≠ [] ↔ offeredRows py c v ≠ [] := by
    rw [resolve_tools, ne_eq, List.map_eq_nil_iff]
  -- One case for each reason not to grant anything, in the order of the code.
  unfold executionCapabilities
  by_cases hplatform : settings.capabilityPlatformEnabled = false
  · simp [NotGranted, hplatform]
  rw [if_neg hplatform]
  cases hversion : formatVersion py v.snapshot 1 with
  | none => simp [NotGranted, hversion]
  | some version =>
      by_cases htwo : version = 2
      · subst htwo
        rw [resolve_of_format hversion]
        dsimp only
        rw [if_neg (not_not.mpr rfl)]
        by_cases hready : (resolveCapabilities py c v).ready = false
        · simp [NotGranted, hready]
        by_cases hgateway : offeredRows py c v ≠ [] ∧ settings.capabilityGatewayEnabled = false
        · rw [if_neg hready, if_pos ⟨htools.mpr hgateway.1, hgateway.2⟩]
          simp [NotGranted, hgateway]
        · have hgranted : ¬ NotGranted py settings c v := by
            rintro (h | h | h | h)
            · exact hplatform h
            · exact h hversion
            · exact hready h
            · exact hgateway h
          rw [if_neg hready, if_neg fun h => hgateway ⟨htools.mp h.1, h.2⟩, Except.ok.injEq,
            Option.some.injEq, and_iff_right hgranted]
          exact eq_comm
      · dsimp only
        rw [if_pos htwo]
        simp [NotGranted, hversion, htwo]

theorem withFrozen_offer (resolution : CapabilityResolution) (frozen : Option String) :
    (resolution.withFrozen frozen).tools = resolution.tools ∧
      (resolution.withFrozen frozen).runtimeFeatures = resolution.runtimeFeatures := by
  cases frozen with
  | none => exact ⟨rfl, rfl⟩
  | some frozen => exact ⟨rfl, rfl⟩

/-- What an execution is offered is what the catalogue offers at that time. -/
theorem offeredDigest_granted :
    (granted context v ((resolveCapabilities py c v).withFrozen (frozenDigest py v))).offeredDigest
      py v = (resolveCapabilities py c v).resolutionDigest := by
  obtain ⟨htools, hfeatures⟩ := withFrozen_offer (resolveCapabilities py c v) (frozenDigest py v)
  rw [ExecutionCapabilities.offeredDigest, granted, htools, hfeatures]
  rfl

/-- Under its own digest a resolution is given on as it is. -/
theorem withFrozen_self {resolution : CapabilityResolution} {frozen : String}
    (h : resolution.resolutionDigest = frozen) : resolution.withFrozen (some frozen) = resolution := by
  subst h
  rfl

/-- The law speaks about the digest of what is resolved, and then about the requests under
    its token. -/
theorem frozenEnforced_iff {frozen : String} (hfrozen : frozenDigest py v = some frozen) :
    FrozenEnforced py settings c v context calls ↔
      NotGranted py settings c v ∨ (resolveCapabilities py c v).resolutionDigest = frozen ∧
        ∀ call ∈ calls, ∀ answer, call.answer py (offerToken py c v context) = .ok answer →
          (granted context v (resolveCapabilities py c v)).Covers py v frozen answer := by
  refine ⟨?_, ?_⟩
  · intro h
    by_cases hgranted : NotGranted py settings c v
    · exact .inl hgranted
    · obtain ⟨hdigest, hcalls⟩ :=
        h _ (executionCapabilities_eq_ok.mpr ⟨hgranted, rfl⟩) frozen hfrozen
      rw [offeredDigest_granted] at hdigest
      rw [hfrozen, withFrozen_self hdigest] at hcalls
      exact .inr ⟨hdigest, hcalls⟩
  · rintro (hgranted | ⟨hdigest, hcalls⟩) e he frozen' hfrozen'
    · exact absurd hgranted (executionCapabilities_eq_ok.mp he).1
    · obtain ⟨-, rfl⟩ := executionCapabilities_eq_ok.mp he
      rw [hfrozen, Option.mem_some_iff] at hfrozen'
      subst hfrozen'
      rw [offeredDigest_granted, hfrozen, withFrozen_self hdigest]
      exact ⟨hdigest, hcalls⟩

theorem ready_of_granted (h : ¬ NotGranted py settings c v) :
    (resolveCapabilities py c v).ready = true := by
  rw [NotGranted, not_or, not_or, not_or] at h
  exact eq_true_of_ne_false h.2.2.1

/-! ## Publication and the gateway -/

/-- The resolution reads two fields of the snapshot. -/
theorem resolveCapabilities_congr {v' : AgentVersion} (hid : v'.id = v.id)
    (hruntime : v'.snapshot.get? "runtime" = v.snapshot.get? "runtime")
    (hskills : v'.snapshot.get? "skills" = v.snapshot.get? "skills") :
    resolveCapabilities py c v' = resolveCapabilities py c v := by
  have hfeatures : runtimeFeatures py c v' = runtimeFeatures py c v := by
    rw [runtimeFeatures, runtimeFeatures, hruntime]
  have hrows : bindingRows py c v' = bindingRows py c v := by
    rw [bindingRows, bindingRows, hid]
  have hissues (rows : List BindingRow) : skillIssues py c v' rows = skillIssues py c v rows := by
    rw [skillIssues, skillIssues, hskills]
  simp only [resolveCapabilities, hfeatures, hrows, hissues, hid]

theorem resolveCapabilities_freeze (py : ResolverPython) (c : Catalogue) (v : AgentVersion)
    (resolution : CapabilityResolution) :
    resolveCapabilities py c (v.freeze resolution) = resolveCapabilities py c v := by
  refine resolveCapabilities_congr rfl ?_ ?_
  · rw [AgentVersion.freeze, Dict.get?_update]
    rfl
  · rw [AgentVersion.freeze, Dict.get?_update]
    rfl

theorem digest_ne_empty (value : Json) : digest py value ≠ "" := by
  intro h
  have hlength := congrArg String.length h
  rw [digest, String.length_append] at hlength
  exact absurd hlength (by rw [Nat.add_comm]; exact Nat.succ_ne_zero _)

/-- A version of the second format that is published is frozen in the state of the
    catalogue in which it is. -/
theorem frozenIn_of_freeze {v' : AgentVersion} (h : freezeResolution py c v = .ok v')
    (hformat : formatVersion py v.snapshot v.snapshotFormatVersion = some 2) : FrozenIn py c v' := by
  have hresolve : resolveAgentCapabilities py c v = some (resolveCapabilities py c v) := by
    rw [resolveAgentCapabilities, hformat]
    rfl
  unfold freezeResolution at h
  rw [hformat] at h
  dsimp only at h
  rw [if_neg (not_not.mpr rfl), hresolve] at h
  dsimp only at h
  split at h
  · cases h
  · rename_i hready
    cases h
    have hsame := resolveCapabilities_freeze py c v (resolveCapabilities py c v)
    have hdigest : Python.truthy (some (resolveCapabilities py c v).resolutionDigest) =
        some (resolveCapabilities py c v).resolutionDigest :=
      Python.truthy_eq_some.mpr ⟨rfl, digest_ne_empty _⟩
    refine ⟨?_, ?_⟩
    · rw [hsame]
      exact eq_true_of_ne_false hready
    · rw [hsame, frozenDigest, AgentVersion.freeze]
      dsimp only
      rw [hdigest]
      exact hdigest

/-! ## The requests of the execution -/

theorem invoked_iff (hsha : Function.Injective py.sha256) {row : BindingRow × Implementation} :
    (granted context v (resolveCapabilities py c v)).invokedDigest py v row =
        (resolveCapabilities py c v).resolutionDigest ↔
      ∀ r ∈ offeredRows py c v, r.1.binding.id = row.1.binding.id → SameRow r row := by
  show digest py (digestPayload v.id (runtimeFeatures py c v).1
      ((resolveCapabilities py c v).tools.map fun tool =>
        if tool.bindingId = row.1.binding.id then row.1.tool row.2 else tool)) =
    digest py (digestPayload v.id (runtimeFeatures py c v).1 (resolveCapabilities py c v).tools) ↔ _
  rw [digest_inj hsha, digestPayload, digestPayload,
    Json.sortKeys_object_iff (by rfl) (payload_nodup _ _ _)]
  simp only [List.map_cons, List.map_nil, List.cons.injEq, and_true, true_and,
    Json.sortKeys_array_iff, List.map_map, resolve_tools, List.map_inj_left, Function.comp_apply]
  refine forall_congr' fun r => forall_congr' fun _ => ?_
  by_cases hid : r.1.binding.id = row.1.binding.id
  · have htool : (r.1.tool r.2).bindingId = row.1.binding.id := hid
    rw [if_pos htool, eq_comm, sameRow_iff]
    exact ⟨fun h _ => h, fun h => h hid⟩
  · have htool : ¬ (r.1.tool r.2).bindingId = row.1.binding.id := hid
    rw [if_neg htool]
    exact iff_of_true rfl fun h => absurd h hid

theorem listed_nodup (tool : ResolvedCapability) :
    ([("binding_id", Json.string tool.bindingId), ("tool_name", .string tool.toolName),
      ("capability", .string tool.capabilityKey), ("version", .string tool.capabilityVersion),
      ("description", .string tool.description), ("input_schema", tool.inputSchema),
      ("output_schema", tool.outputSchema)].map Prod.fst).Nodup := by
  simp

theorem sameListing_iff {a : BindingRow × Implementation} {b : BindingRow} :
    (a.1.tool a.2).listed.sortKeys = b.listed.sortKeys ↔ SameListing a.1 b := by
  rw [ResolvedCapability.listed, BindingRow.listed,
    Json.sortKeys_object_iff (by rfl) (listed_nodup _)]
  simp only [BindingRow.tool, List.map_cons, List.map_nil, List.cons.injEq, and_true,
    Json.sortKeys_string, Json.string.injEq]
  refine ⟨?_, ?_⟩
  · rintro ⟨binding, toolAlias, capability, version, description, inputSchema, outputSchema⟩
    exact ⟨binding, toolAlias, capability, version, description, inputSchema, outputSchema⟩
  · intro h
    exact ⟨h.binding, h.toolAlias, h.capability, h.version, h.description, h.inputSchema,
      h.outputSchema⟩

theorem listing_iff {rows : List BindingRow} :
    (Json.array (rows.map BindingRow.listed)).sortKeys =
        (Json.array ((resolveCapabilities py c v).tools.map ResolvedCapability.listed)).sortKeys ↔
      List.Forall₂ SameListing ((offeredRows py c v).map Prod.fst) rows := by
  rw [eq_comm, Json.sortKeys_array_iff, resolve_tools, List.map_map, List.map_map, List.map_map,
    ← List.forall₂_eq_eq_eq, List.forall₂_map_left_iff, List.forall₂_map_right_iff,
    List.forall₂_map_left_iff]
  exact ⟨fun h => h.imp fun _ _ => sameListing_iff.mp, fun h => h.imp fun _ _ => sameListing_iff.mpr⟩

theorem SameRow.symm {a b : BindingRow × Implementation} (h : SameRow a b) : SameRow b a :=
  sameRow_iff.mp (sameRow_iff.mpr h).symm

theorem SameRow.trans {a b d : BindingRow × Implementation} (h : SameRow a b) (h' : SameRow b d) :
    SameRow a d :=
  sameRow_iff.mp ((sameRow_iff.mpr h).trans (sameRow_iff.mpr h'))

theorem SameRow.listing {a b : BindingRow × Implementation} {d : BindingRow} (h : SameRow a b) :
    SameListing a.1 d ↔ SameListing b.1 d := by
  have hlisted : (a.1.tool a.2).listed.sortKeys = (b.1.tool b.2).listed.sortKeys := by
    rw [ResolvedCapability.listed, ResolvedCapability.listed,
      Json.sortKeys_object_iff (by rfl) (listed_nodup _)]
    simp only [BindingRow.tool, List.map_cons, List.map_nil, h.binding, h.toolAlias,
      h.capability, h.version, h.description, h.inputSchema, h.outputSchema]
  rw [← sameListing_iff, ← sameListing_iff, hlisted]

section

variable {rows₀ rows : List (BindingRow × Implementation)}

/-- Rows that agree one by one are the same for the rows of a call. -/
theorem sameRow_congr (h : List.Forall₂ SameRow rows₀ rows) {row : BindingRow × Implementation} :
    (∀ r ∈ rows₀, r.1.binding.id = row.1.binding.id → SameRow r row) ↔
      ∀ r ∈ rows, r.1.binding.id = row.1.binding.id → SameRow r row := by
  induction h with
  | nil => rfl
  | cons hab _ ih =>
      rw [List.forall_mem_cons, List.forall_mem_cons, ih, hab.binding]
      refine and_congr_left fun _ => forall_congr' fun _ => ?_
      exact ⟨hab.symm.trans, hab.trans⟩

/-- They are the same for a listing. -/
theorem sameListing_congr (h : List.Forall₂ SameRow rows₀ rows) {listed : List BindingRow} :
    List.Forall₂ SameListing (rows₀.map Prod.fst) listed ↔
      List.Forall₂ SameListing (rows.map Prod.fst) listed := by
  induction h generalizing listed with
  | nil => rfl
  | cons hab _ ih =>
      cases listed with
      | nil => exact iff_of_false (by rintro ⟨⟩) (by rintro ⟨⟩)
      | cons row listed =>
          rw [List.map_cons, List.map_cons, List.forall₂_cons, List.forall₂_cons, hab.listing, ih]

/-- They have the same bindings. -/
theorem bindingIds_congr (h : List.Forall₂ SameRow rows₀ rows) :
    rows.map (fun r => r.1.binding.id) = rows₀.map fun r => r.1.binding.id := by
  induction h with
  | nil => rfl
  | cons hab _ ih => rw [List.map_cons, List.map_cons, ih, hab.binding]

end

theorem SameOffer.token (h : SameOffer py c₀ c v)
    (hdigest : (resolveCapabilities py c v).resolutionDigest =
      (resolveCapabilities py c₀ v).resolutionDigest) :
    offerToken py c v context = offerToken py c₀ v context := by
  have hbindings : (resolveCapabilities py c v).tools.map ResolvedCapability.bindingId =
      (resolveCapabilities py c₀ v).tools.map ResolvedCapability.bindingId := by
    rw [resolve_tools, resolve_tools, List.map_map, List.map_map]
    exact bindingIds_congr h.rows
  rw [offerToken, offerToken, granted, granted, hbindings, hdigest]

/-- What the gateway answers under the token is covered just when it is refused or has what
    was offered. -/
theorem covers_iff (hsha : Function.Injective py.sha256) {call : GatewayCall} :
    (∀ answer, call.answer py (offerToken py c v context) = .ok answer →
        (granted context v (resolveCapabilities py c v)).Covers py v
          (resolveCapabilities py c v).resolutionDigest answer) ↔
      SameAtCall py c v context call := by
  simp only [GatewayCall.answer_ok, SameAtCall]
  cases call.request with
  | resolve =>
      refine ⟨?_, ?_⟩
      · intro h hauthorized
        exact listing_iff.mp (h _ ⟨hauthorized, rfl⟩)
      · rintro h _ ⟨hauthorized, rfl⟩
        exact listing_iff.mpr (h hauthorized)
  | invoke toolName check =>
      refine ⟨?_, ?_⟩
      · intro h hauthorized row hfinds
        exact (invoked_iff hsha).mp (h _ ⟨hauthorized, row, hfinds, rfl⟩)
      · rintro h _ ⟨hauthorized, row, hfinds, rfl⟩
        exact (invoked_iff hsha).mpr (h hauthorized row hfinds)

theorem SameOffer.sameAtCall_iff (h : SameOffer py c₀ c v)
    (hdigest : (resolveCapabilities py c v).resolutionDigest =
      (resolveCapabilities py c₀ v).resolutionDigest) {call : GatewayCall} :
    SameAtCall py c₀ v context call ↔ SameAtCall py c v context call := by
  rw [SameAtCall, SameAtCall, h.token hdigest]
  cases call.request with
  | resolve => exact imp_congr_right fun _ => sameListing_congr h.rows
  | invoke toolName check =>
      exact imp_congr_right fun _ => forall_congr' fun _ => imp_congr_right fun _ =>
        sameRow_congr h.rows

/-- **Frozen digests.**  An execution runs with what the version was frozen with just when
    it is given no capabilities, or the catalogue offers the same again and every request
    that the gateway answers finds it.  A digest that was frozen in no state of the catalogue
    is the digest of no execution. -/
theorem frozen_resolution_enforced_iff (hsha : Function.Injective py.sha256) {frozen : String}
    (hfrozen : frozenDigest py v = some frozen) :
    (∀ c₀, FrozenIn py c₀ v → (FrozenEnforced py settings c v context calls ↔
      NotGranted py settings c v ∨
        SameOffer py c₀ c v ∧ ∀ call ∈ calls, SameAtCall py c₀ v context call)) ∧
    ((∀ c₀, ¬ FrozenIn py c₀ v) →
      (FrozenEnforced py settings c v context calls ↔ NotGranted py settings c v)) := by
  rw [frozenEnforced_iff hfrozen]
  refine ⟨?_, ?_⟩
  · intro c₀ hin
    have hdigest := Option.some.inj (hfrozen.symm.trans hin.frozen)
    subst hdigest
    refine or_congr_right ?_
    rw [eq_comm, resolutionDigest_eq_iff hsha]
    refine and_congr_right fun hoffer => ?_
    have hsame := ((resolutionDigest_eq_iff hsha).mpr hoffer).symm
    refine forall_congr' fun call => forall_congr' fun _ => ?_
    rw [hoffer.sameAtCall_iff hsame, ← covers_iff hsha, hsame]
  · intro hnever
    refine or_iff_left_of_imp fun h => ?_
    by_contra hgranted
    exact hnever c ⟨ready_of_granted hgranted, by rw [hfrozen, h.1]⟩

/-! ## An orders tool -/

/-- One active implementation of `orders.read`, which the binding does not name. -/
def ordersCatalogue : Catalogue where
  capabilities := [⟨"capability", "orders.read", "Orders", none⟩]
  versions := [⟨"capability-version", "capability", "1.0.0", .object [("type", .string "object")],
    .object [], .published⟩]
  implementations := [⟨"implementation-1", "capability-version", "operation-1", "revision-1", 100,
    .active, 0⟩]
  connectors := [⟨"connector", .internalRest⟩]
  operations := [⟨"operation-1", "connector"⟩, ⟨"operation-2", "connector"⟩]
  revisions := [⟨"revision-1", "instance"⟩, ⟨"revision-2", "instance"⟩]
  instances := [⟨"instance", true, .healthy⟩]
  scopeRevisions := []
  bindings := [⟨"binding", "version", "orders", "capability-version", none, none, .object [],
    .object [], .object [], true⟩]
  runtimes := [⟨"3fa85f64-5717-4562-b3fc-2c963f66afa6", "1", .online⟩]
  featureProfiles := [⟨"3fa85f64-5717-4562-b3fc-2c963f66afa6", "1",
    Dict.ofPairs [("capability_gateway", .bool true)]⟩]
  requirements := []

/-- A second implementation is created. -/
def Catalogue.addImplementation (c : Catalogue) (priority : Int) : Catalogue :=
  { c with implementations := c.implementations ++
      [⟨"implementation-2", "capability-version", "operation-2", "revision-2", priority, .active, 1⟩] }

def ordersDraft : AgentVersion where
  id := "version"
  snapshot := Dict.ofPairs [("format_version", .int 2), ("runtime", .object
    [("runtime_id", .string "3fa85f64-5717-4562-b3fc-2c963f66afa6")])]
  snapshotFormatVersion := 2
  resolutionDigest := none

/-- The canonical text of what is offered. -/
def offerText : String :=
  "\x7b\"agent_version_id\":\"version\",\"runtime_features\":\x7b\"capability_gateway\":true\x7d," ++
    "\"tools\":[\x7b\"approval_policy\":\x7b\x7d," ++
    "\"binding_id\":\"binding\",\"capability_key\":\"orders.read\"," ++
    "\"capability_version\":\"1.0.0\",\"connector_instance_revision_id\":\"revision-1\"," ++
    "\"connector_operation_id\":\"operation-1\",\"description\":\"Orders\"," ++
    "\"implementation_id\":\"implementation-1\"," ++
    "\"input_schema\":\x7b\"type\":\"object\"\x7d,\"output_schema\":\x7b\x7d,\"parameter_policy\":\x7b\x7d," ++
    "\"quota_policy\":\x7b\x7d,\"resource_scope_revision_id\":null,\"tool_name\":\"orders\"\x7d]\x7d"

/-- The hash is injective and has the digest of this text. -/
def samplePython : ResolverPython where
  repr _ := ""
  int
    | .int n => some n
    | _ => none
  uuid := some
  digit c := if c.isDigit then some (c.toNat - 48) else none
  collate a b := a ≤ b
  sha256 := Equiv.swap offerText
    "ed0c86f10c05d9c318c276ba03e9f3afab76cea324e1df1c7d320a20dd674681"

theorem samplePython_injective : Function.Injective samplePython.sha256 := Equiv.injective _

def ordersVersion : AgentVersion :=
  ordersDraft.freeze (resolveCapabilities samplePython ordersCatalogue ordersDraft)

theorem freeze_orders :
    freezeResolution samplePython ordersCatalogue ordersDraft = .ok ordersVersion := rfl

theorem ordersVersion_frozen : FrozenIn samplePython ordersCatalogue ordersVersion :=
  frozenIn_of_freeze freeze_orders rfl

def ordersContext : ExecutionContext := ⟨"execution", "agent", "hermes"⟩

/-- A request of the running execution in a state of the catalogue. -/
def ordersCall (c : Catalogue) (request : GatewayRequest) : GatewayCall where
  catalogue := c
  execution := some ⟨"agent", some "version", true⟩
  column := ordersVersion.resolutionDigest
  request := request

/-- The row of the binding and its implementation at the publication. -/
def ordersRow : BindingRow × Implementation :=
  (⟨⟨"binding", "version", "orders", "capability-version", none, none, .object [], .object [],
      .object [], true⟩,
    ⟨"capability-version", "capability", "1.0.0", .object [("type", .string "object")], .object [],
      .published⟩,
    ⟨"capability", "orders.read", "Orders", none⟩⟩,
    ⟨"implementation-1", "capability-version", "operation-1", "revision-1", 100, .active, 0⟩)

theorem sameRow_refl (row : BindingRow × Implementation) : SameRow row row := sameRow_iff.mp rfl

/-- An implementation of lower precedence changes nothing, before the execution or during it. -/
theorem frozen_resolution_enforced_orders :
    FrozenEnforced samplePython ⟨true, true⟩ (ordersCatalogue.addImplementation 200) ordersVersion
      ordersContext
      [ordersCall (ordersCatalogue.addImplementation 200) .resolve,
        ordersCall (ordersCatalogue.addImplementation 200) (.invoke "orders" fun _ => none)] := by
  have hsame : SameOffer samplePython ordersCatalogue (ordersCatalogue.addImplementation 200)
      ordersVersion := ⟨rfl, .cons (sameRow_refl ordersRow) .nil⟩
  refine ((frozen_resolution_enforced_iff samplePython_injective ordersVersion_frozen.frozen).1
    ordersCatalogue ordersVersion_frozen).mpr (.inr ⟨hsame, ?_⟩)
  rw [List.forall_mem_cons, List.forall_mem_singleton]
  refine ⟨fun _ => .cons ⟨rfl, rfl, rfl, rfl, rfl, rfl, rfl⟩ .nil, ?_⟩
  rintro - row ⟨hbound, -, hchosen, -, -⟩ row₀ hrow₀ -
  cases List.mem_singleton.mp (show row₀ ∈ [ordersRow] from hrow₀)
  obtain ⟨row, implementation⟩ := row
  cases Option.some.inj (show some ordersRow.1 = some row from hbound)
  cases Option.some.inj (show some ordersRow.2 = some implementation from hchosen)
  exact sameRow_refl ordersRow

/-- An implementation of higher precedence takes the place of the one that was there at the
    publication, under the digest that was frozen then: before the execution, or during it. -/
theorem replaced_implementation_runs :
    freezeResolution samplePython ordersCatalogue ordersDraft = .ok ordersVersion ∧
      ¬ FrozenEnforced samplePython ⟨true, true⟩ (ordersCatalogue.addImplementation 50) ordersVersion
        ordersContext [] ∧
      ¬ FrozenEnforced samplePython ⟨true, true⟩ ordersCatalogue ordersVersion ordersContext
        [ordersCall (ordersCatalogue.addImplementation 50) (.invoke "orders" fun _ => none)] := by
  have hgranted (c : Catalogue) (hready : (resolveCapabilities samplePython c ordersVersion).ready = true) :
      ¬ NotGranted samplePython ⟨true, true⟩ c ordersVersion := by
    rintro (h | h | h | h)
    · cases h
    · exact h rfl
    · exact Bool.noConfusion (hready.symm.trans h)
    · cases h.2
  refine ⟨freeze_orders, ?_, ?_⟩
  · intro henforced
    rcases (frozenEnforced_iff ordersVersion_frozen.frozen).mp henforced with h | ⟨hdigest, -⟩
    · exact hgranted _ rfl h
    · have hsame := (resolutionDigest_eq_iff samplePython_injective).mp hdigest
      cases hsame.rows with
      | cons hrow _ => exact absurd hrow.implementation (by decide)
  · intro henforced
    rcases (frozenEnforced_iff ordersVersion_frozen.frozen).mp henforced with h | ⟨-, hcalls⟩
    · exact hgranted _ rfl h
    · have hsame := (covers_iff samplePython_injective).mp (hcalls _ (List.mem_singleton.mpr rfl))
        ⟨⟨_, rfl, rfl, rfl, rfl⟩, rfl⟩
        (ordersRow.1, ⟨"implementation-2", "capability-version", "operation-2", "revision-2", 50,
          .active, 1⟩) ⟨rfl, List.mem_singleton.mpr rfl, rfl, rfl, rfl⟩
        ordersRow (List.mem_singleton.mpr rfl) rfl
      exact absurd hsame.implementation (by decide)

end Capabilities
end HermesPlatform
