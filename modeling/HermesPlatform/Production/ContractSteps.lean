/-
  HermesPlatform.Production.ContractSteps

  What one operation can do to the released rows of a contract: it leaves them as
  they are, moves them on in their lifecycle, or writes what a snapshot says.
-/

import HermesPlatform.Production.Contract

namespace HermesPlatform
namespace Production

open Python Table Transition

variable {σ : Type}

/-! ## Names -/

theorem versionPattern_strip {version : String} (h : versionPattern version = true) :
    strip version = version := by
  refine strip_of_forall fun c hc => ?_
  unfold versionPattern at h
  split at h
  · rename_i first rest heq
    simp only [Bool.and_eq_true, decide_eq_true_eq, List.all_eq_true] at h
    obtain ⟨⟨hfirst, -⟩, hrest⟩ := h
    -- A `v`, or a digit.
    have hdigit : ∀ d : Char, '0' ≤ d → d ≤ '9' → isSpace d = false := by
      intro d hlow hhigh
      have hlow' : 48 ≤ d.toNat := hlow
      have hhigh' : d.toNat ≤ 57 := hhigh
      simp only [isSpace, Bool.or_eq_false_iff, Bool.and_eq_false_iff, decide_eq_false_iff_not,
        beq_eq_false_iff_ne]
      omega
    rw [heq] at hc
    rcases List.mem_cons.mp hc with rfl | hc
    · rfl
    · rcases List.mem_cons.mp hc with rfl | hc
      · exact hdigit c (Char.le_trans (by decide) hfirst.1) hfirst.2
      · exact hdigit c (hrest c hc).1 (hrest c hc).2
  · cases h

/-! ## The transaction of a session -/

theorem write_stored {α : Type} [DecidableEq α] (value stored : α) :
    write stored value stored = value := by
  unfold write
  split
  · rename_i heq
    exact heq.symm
  · rfl

theorem mem_publishedOthers {versions : List (AgentVersion σ)} (h : Unique (·.id) versions)
    {id : Nat} {row : AgentVersion σ} (hrow : row ∈ versions) (hne : row.id ≠ id) :
    row.id ∈ publishedOthers id versions ↔ row.status = .published := by
  rw [publishedOthers, List.mem_map]
  refine ⟨?_, fun hstatus => ⟨row, List.mem_filter.mpr ⟨hrow, by simp [hne, hstatus]⟩, rfl⟩⟩
  rintro ⟨other, hother, hid⟩
  obtain ⟨hmem, hpublished⟩ := List.mem_filter.mp hother
  obtain rfl := h.eq hmem hrow hid
  simp only [Bool.decide_and, Bool.and_eq_true, decide_eq_true_eq] at hpublished
  exact hpublished.2

/-- What a session commits that works alone is `makeCurrent`. -/
theorem publish_eq_makeCurrent (c : Contract σ) (h : Unique (·.id) c.versions)
    {version : AgentVersion (AgentSnapshot σ)} (hversion : version ∈ c.versions) :
    publishAgent ⟨c.agent, version, none⟩ c.agent = (c.makeCurrent version.id).agent ∧
      publishRows ⟨c.agent, version, none⟩ (publishedOthers version.id c.versions) c.versions =
        (c.makeCurrent version.id).versions := by
  refine ⟨?_, List.map_congr_left fun row hrow => ?_⟩
  · simp only [publishAgent, write_stored, Contract.makeCurrent]
  · by_cases hid : row.id = version.id
    · obtain rfl := h.eq hrow hversion hid
      simp only [if_true, publishRow, write_stored, Option.getD_none]
    · simp only [if_neg hid, mem_publishedOthers h hrow hid]

/-! ## Fates of released rows -/

/-- The agent version that an operation publishes or rolls back to. -/
def Operation.release : Operation σ → Option Nat
  | .publishAgent id _ _ | .consolePublishAgent id _ _ | .rollbackAgent id _ => some id
  | _ => none

def Operation.isRollback : Operation σ → Bool
  | .rollbackAgent _ _ => true
  | _ => false

/-- The operation applies the snapshot of one of the agent versions. -/
def Applies (versions : List (AgentVersion (AgentSnapshot σ))) (op : Operation σ)
    (snapshot : AgentSnapshot σ) : Prop :=
  ∃ version ∈ versions, op.release = some version.id ∧ version.snapshot = snapshot

section Fates

variable [EmptyCollection σ] (versions : List (AgentVersion (AgentSnapshot σ)))
  (op : Operation σ)

/-- What becomes of a released schema version.  Only a rollback writes one that is
    disabled. -/
inductive SchemaFate (row : AgentSchemaVersion σ) : AgentSchemaVersion σ → Prop where
  | kept : SchemaFate row row
  | moved {target : ContractStatus} (htarget : target ∈ row.status.transitions) :
      SchemaFate row { row with status := target }
  | restored {snapshot : AgentSnapshot σ} (happlies : Applies versions op snapshot)
      (hname : snapshot.restoredSchema = row.version)
      (hdisabled : row.status = .disabled → op.isRollback = true ∧ snapshot.restoredSchema ≠ "") :
      SchemaFate row { row.withSchemas snapshot.input snapshot.output with status := .published }

omit [EmptyCollection σ] in
/-- What becomes of a released API version. -/
inductive ApiFate (row : AgentAPIVersion) : AgentAPIVersion → Prop where
  | kept : ApiFate row row
  | moved {target : ContractStatus} (htarget : target ∈ row.status.transitions) :
      ApiFate row { row with status := target }
  | published {snapshot : AgentSnapshot σ} {schemaVersion : String}
      (happlies : Applies versions op snapshot) (hname : snapshot.api = row.apiVersion)
      (hdisabled : row.status = .disabled → op.isRollback = true ∧ snapshot.restoredSchema ≠ "") :
      ApiFate row { row with schemaVersion, status := .published }

end Fates

/-- The rows have names of their own, and those of the schemas have no white space
    around them. -/
structure WellNamed (c : Contract σ) : Prop where
  schemas : Unique (·.version) c.schemas
  stripped : ∀ row ∈ c.schemas, strip row.version = row.version
  apis : Unique (·.apiVersion) c.apis

/-- What an operation does, which may apply the snapshots of these versions. -/
structure Effect [EmptyCollection σ] (versions : List (AgentVersion (AgentSnapshot σ)))
    (op : Operation σ) (c c' : Contract σ) : Prop where
  named : WellNamed c'
  schemas : ∀ row ∈ c.schemas, row.status.isDraft = false →
    ∃ row' ∈ c'.schemas, SchemaFate versions op row row'
  apis : ∀ row ∈ c.apis, row.status.isDraft = false →
    ∃ row' ∈ c'.apis, ApiFate versions op row row'

theorem ne_of_isDraft {ρ : Type} (status : ρ → ContractStatus) {row value : ρ}
    (hrow : (status row).isDraft = false) (hvalue : (status value).isDraft = true) :
    row ≠ value := by
  rintro rfl
  rw [hrow] at hvalue
  cases hvalue

/-! ## What `publish_agent` does before the restore -/

section Published

variable {c c' : Contract σ}

theorem stripped_modify {schemas : List (AgentSchemaVersion σ)} {version : String}
    {f : AgentSchemaVersion σ → AgentSchemaVersion σ} (hf : ∀ row, (f row).version = row.version)
    (h : ∀ row ∈ schemas, strip row.version = row.version) :
    ∀ row ∈ modify (·.version) version f schemas, strip row.version = row.version := by
  intro row hrow
  obtain ⟨old, hold, rfl⟩ := List.mem_map.mp hrow
  split
  · rw [hf]
    exact h old hold
  · exact h old hold

/-- All that `publish_agent` does before the restore. -/
theorem publishContract_cases {snapshot : AgentSnapshot σ}
    (hrun : c.publishContract snapshot = .ok c') :
    ∃ schema, lookup (·.version) snapshot.publishedSchema c.schemas = some schema ∧
      schema.status.available = true ∧
      (∀ api, lookup (·.apiVersion) snapshot.api c.apis = some api →
        api.status.available = true) ∧
      c' = { c with
        schemas := modify (·.version) snapshot.publishedSchema (·.publish) c.schemas
        apis := upsert (·.apiVersion) snapshot.api
          ({ · with schemaVersion := schema.version, status := .published })
          ⟨snapshot.api, schema.version, .published⟩ c.apis } := by
  simp only [Contract.publishContract, bind_eq_ok, require_eq_ok, found_eq_ok] at hrun
  obtain ⟨schema, hfound, -, havailable, -, hapi, hrun⟩ := hrun
  cases hrun
  exact ⟨schema, hfound, havailable, hapi, rfl⟩

/-- The contract that `publish_agent` restores is the one that it has published,
    and this was not disabled. -/
theorem published_available (h : WellNamed c) {snapshot : AgentSnapshot σ}
    {schema row : AgentSchemaVersion σ}
    (hfound : lookup (·.version) snapshot.publishedSchema c.schemas = some schema)
    (havailable : schema.status.available = true) (hrow : row ∈ c.schemas)
    (hne : snapshot.restoredSchema ≠ "") (hname : snapshot.restoredSchema = row.version) :
    row.status ≠ .disabled := by
  cases hversion : snapshot.schemaVersion with
  | none =>
      refine absurd ?_ hne
      simp only [AgentSnapshot.restoredSchema, hversion, Option.getD_none]
      rfl
  | some version =>
      have hpublished : snapshot.publishedSchema = version := by
        simp only [AgentSnapshot.publishedSchema, hversion, Option.getD_some]
      have hschema : schema.version = version := (key_of_lookup hfound).trans hpublished
      have hrestored : snapshot.restoredSchema = version := by
        simp only [AgentSnapshot.restoredSchema, hversion, Option.getD_some]
        rw [← hschema]
        exact h.stripped schema (mem_of_lookup hfound)
      obtain rfl : row = schema :=
        h.schemas.eq hrow (mem_of_lookup hfound) (hname.symm.trans (hrestored.trans hschema.symm))
      intro hdisabled
      rw [hdisabled] at havailable
      cases havailable

theorem WellNamed.publish (h : WellNamed c) {snapshot : AgentSnapshot σ}
    (hrun : c.publishContract snapshot = .ok c') : WellNamed c' := by
  obtain ⟨schema, -, -, -, rfl⟩ := publishContract_cases hrun
  exact ⟨h.schemas.modify fun row hrow => hrow, stripped_modify (fun _ => rfl) h.stripped,
    h.apis.upsert (fun row hrow => hrow) rfl⟩

/-- A released schema version keeps its row until the restore. -/
theorem publishContract_schema {snapshot : AgentSnapshot σ}
    (hrun : c.publishContract snapshot = .ok c') {row : AgentSchemaVersion σ}
    (hrow : row ∈ c.schemas) (hreleased : row.status.isDraft = false) : row ∈ c'.schemas := by
  obtain ⟨schema, -, -, -, rfl⟩ := publishContract_cases hrun
  by_cases hname : row.version = snapshot.publishedSchema
  · rw [← AgentSchemaVersion.publish_released hreleased]
    exact mem_modify_of_eq hrow hname
  · exact mem_modify_of_ne hrow hname

/-- An API version keeps its row or is published. -/
theorem publishContract_api (h : WellNamed c) {snapshot : AgentSnapshot σ}
    (hrun : c.publishContract snapshot = .ok c') {row : AgentAPIVersion} (hrow : row ∈ c.apis) :
    snapshot.api ≠ row.apiVersion ∧ row ∈ c'.apis ∨
      snapshot.api = row.apiVersion ∧ row.status ≠ .disabled ∧
        ∃ schemaVersion, { row with schemaVersion, status := .published } ∈ c'.apis := by
  obtain ⟨schema, -, -, havailable, rfl⟩ := publishContract_cases hrun
  by_cases hname : row.apiVersion = snapshot.api
  · refine .inr ⟨hname.symm, fun hdisabled => ?_, _, mem_upsert_of_eq hrow hname⟩
    cases hfound : lookup (·.apiVersion) snapshot.api c.apis with
    | none => exact lookup_eq_none.mp hfound (hname ▸ List.mem_map_of_mem hrow)
    | some api =>
        obtain rfl := h.apis.eq_of_lookup hfound hrow hname
        have hrowAvailable := havailable row hfound
        rw [hdisabled] at hrowAvailable
        cases hrowAvailable
  · exact .inl ⟨Ne.symm hname, mem_upsert_of_ne hrow hname⟩

end Published

section Effects

variable [EmptyCollection σ] {c c' : Contract σ} {op : Operation σ}
  {versions : List (AgentVersion (AgentSnapshot σ))}

/-- The schema versions change. -/
theorem Effect.ofSchemas (h : WellNamed c) {schemas : List (AgentSchemaVersion σ)}
    (hunique : Unique (·.version) schemas)
    (hstripped : ∀ row ∈ schemas, strip row.version = row.version)
    (hfate : ∀ row ∈ c.schemas, row.status.isDraft = false →
      ∃ row' ∈ schemas, SchemaFate versions op row row') :
    Effect versions op c { c with schemas } where
  named := ⟨hunique, hstripped, h.apis⟩
  schemas := hfate
  apis row hrow _ := ⟨row, hrow, .kept⟩

/-- The API versions change. -/
theorem Effect.ofApis (h : WellNamed c) {apis : List AgentAPIVersion}
    (hunique : Unique (·.apiVersion) apis)
    (hfate : ∀ row ∈ c.apis, row.status.isDraft = false →
      ∃ row' ∈ apis, ApiFate versions op row row') :
    Effect versions op c { c with apis } where
  named := ⟨h.schemas, h.stripped, hunique⟩
  schemas row hrow _ := ⟨row, hrow, .kept⟩
  apis := hfate

/-- The agent and its versions change. -/
theorem Effect.same (h : WellNamed c) (agent : Agent)
    (versions' : List (AgentVersion (AgentSnapshot σ))) :
    Effect versions op c { c with agent, versions := versions' } where
  named := ⟨h.schemas, h.stripped, h.apis⟩
  schemas row hrow _ := ⟨row, hrow, .kept⟩
  apis row hrow _ := ⟨row, hrow, .kept⟩

/-! ## Operations on schema versions -/

/-- A draft is written. -/
theorem Effect.modifySchema (h : WellNamed c) {version : String} {value : AgentSchemaVersion σ}
    (hfound : lookup (·.version) version c.schemas = some value)
    (hdraft : value.status.isDraft = true) {f : AgentSchemaVersion σ → AgentSchemaVersion σ}
    (hf : ∀ row, (f row).version = row.version) :
    Effect versions op c { c with schemas := modify (·.version) version f c.schemas } := by
  refine .ofSchemas h (h.schemas.modify fun row hrow => (hf row).trans hrow)
    (stripped_modify hf h.stripped) fun row hrow hreleased => ?_
  have hne := h.schemas.ne_of_lookup hfound hrow (ne_of_isDraft (·.status) hreleased hdraft)
  exact ⟨row, mem_modify_of_ne hrow hne, .kept⟩

theorem createSchemaVersion_effect (h : WellNamed c) {version : VersionName}
    {inputSchema outputSchema : σ} {template : Except String Unit}
    (hrun : c.createSchemaVersion version inputSchema outputSchema template = .ok c') :
    Effect versions op c c' := by
  simp only [Contract.createSchemaVersion, bind_eq_ok, require_eq_ok] at hrun
  obtain ⟨-, -, -, -, -, hnew, hrun⟩ := hrun
  cases hrun
  refine .ofSchemas h (h.schemas.append hnew) (fun row hrow => ?_) fun row hrow _ =>
    ⟨row, List.mem_append_left _ hrow, .kept⟩
  rcases List.mem_append.mp hrow with hrow | hrow
  · exact h.stripped row hrow
  · obtain rfl := List.mem_singleton.mp hrow
    exact versionPattern_strip version.pattern

theorem deleteSchemaVersion_effect (h : WellNamed c) {version : String}
    (hrun : c.deleteSchemaVersion version = .ok c') : Effect versions op c c' := by
  simp only [Contract.deleteSchemaVersion, Contract.getSchema, bind_eq_ok, require_eq_ok,
    found_eq_ok] at hrun
  obtain ⟨-, -, value, hfound, -, hdraft, -, -, hrun⟩ := hrun
  cases hrun
  refine .ofSchemas h h.schemas.delete (fun row hrow => h.stripped row (List.mem_filter.mp hrow).1)
    fun row hrow hreleased => ?_
  have hne := h.schemas.ne_of_lookup hfound hrow (ne_of_isDraft (·.status) hreleased hdraft)
  exact ⟨row, mem_delete_of_ne hrow hne, .kept⟩

theorem updateSchemaVersion_effect (h : WellNamed c) {version : String}
    {inputSchema outputSchema : σ} {template : Except String Unit}
    (hrun : c.updateSchemaVersion version inputSchema outputSchema template = .ok c') :
    Effect versions op c c' := by
  simp only [Contract.updateSchemaVersion, Contract.getSchema, bind_eq_ok, require_eq_ok,
    found_eq_ok] at hrun
  obtain ⟨-, -, value, hfound, -, hdraft, -, -, hrun⟩ := hrun
  cases hrun
  exact .modifySchema h hfound hdraft fun _ => rfl

theorem updateAgentSchema_effect (h : WellNamed c) {inputSchema outputSchema : σ}
    {template : Except String Unit}
    (hrun : c.updateAgentSchema inputSchema outputSchema template = .ok c') : Effect versions op c c' := by
  simp only [Contract.updateAgentSchema, bind_eq_ok, require_eq_ok, found_eq_ok] at hrun
  obtain ⟨-, -, -, -, value, hfound, -, hdraft, -, -, hrun⟩ := hrun
  cases hrun
  exact .modifySchema h hfound hdraft fun _ => rfl

theorem updateSchemaStatus_effect (h : WellNamed c) {version : String} {target : ContractStatus}
    (hrun : c.updateSchemaStatus version target = .ok c') : Effect versions op c c' := by
  simp only [Contract.updateSchemaStatus, Contract.getSchema, checkTransition, bind_eq_ok,
    require_eq_ok, found_eq_ok] at hrun
  obtain ⟨value, hfound, -, htarget, -, -, hrun⟩ := hrun
  cases hrun
  refine .ofSchemas h (h.schemas.modify fun row hrow => hrow)
    (stripped_modify (fun _ => rfl) h.stripped) fun row hrow _ => ?_
  by_cases hname : row.version = version
  · obtain rfl := h.schemas.eq_of_lookup hfound hrow hname
    refine ⟨_, mem_modify_of_eq hrow hname, ?_⟩
    rcases htarget with rfl | htarget
    · exact .kept
    · exact .moved htarget
  · exact ⟨row, mem_modify_of_ne hrow hname, .kept⟩

/-! ## Operations on API versions -/

/-- A draft is written. -/
theorem Effect.modifyApi (h : WellNamed c) {apiVersion : String} {value : AgentAPIVersion}
    (hfound : lookup (·.apiVersion) apiVersion c.apis = some value)
    (hdraft : value.status.isDraft = true) {f : AgentAPIVersion → AgentAPIVersion}
    (hf : ∀ row, (f row).apiVersion = row.apiVersion) :
    Effect versions op c { c with apis := modify (·.apiVersion) apiVersion f c.apis } := by
  refine .ofApis h (h.apis.modify fun row hrow => (hf row).trans hrow) fun row hrow hreleased => ?_
  have hne := h.apis.ne_of_lookup hfound hrow (ne_of_isDraft (·.status) hreleased hdraft)
  exact ⟨row, mem_modify_of_ne hrow hne, .kept⟩

theorem createApiVersion_effect (h : WellNamed c) {apiVersion : VersionName}
    {schemaVersion : String}
    (hrun : c.createApiVersion apiVersion schemaVersion = .ok c') : Effect versions op c c' := by
  simp only [Contract.createApiVersion, Contract.getSchema, bind_eq_ok, require_eq_ok,
    found_eq_ok] at hrun
  obtain ⟨-, -, schema, -, -, hnew, hrun⟩ := hrun
  cases hrun
  exact .ofApis h (h.apis.append hnew) fun row hrow _ => ⟨row, List.mem_append_left _ hrow, .kept⟩

theorem deleteApiVersion_effect (h : WellNamed c) {apiVersion : String}
    (hrun : c.deleteApiVersion apiVersion = .ok c') : Effect versions op c c' := by
  simp only [Contract.deleteApiVersion, Contract.getApi, bind_eq_ok, require_eq_ok,
    found_eq_ok] at hrun
  obtain ⟨-, -, value, hfound, -, hdraft, hrun⟩ := hrun
  cases hrun
  refine .ofApis h h.apis.delete fun row hrow hreleased => ?_
  have hne := h.apis.ne_of_lookup hfound hrow (ne_of_isDraft (·.status) hreleased hdraft)
  exact ⟨row, mem_delete_of_ne hrow hne, .kept⟩

theorem updateApiBinding_effect (h : WellNamed c) {apiVersion schemaVersion : String}
    (hrun : c.updateApiBinding apiVersion schemaVersion = .ok c') :
    Effect versions op c c' := by
  simp only [Contract.updateApiBinding, Contract.getApi, Contract.getSchema, bind_eq_ok,
    require_eq_ok, found_eq_ok] at hrun
  obtain ⟨-, -, value, hfound, -, hdraft, schema, -, hrun⟩ := hrun
  cases hrun
  exact .modifyApi h hfound hdraft fun _ => rfl

theorem updateApiStatus_effect (h : WellNamed c) {apiVersion : String} {target : ContractStatus}
    (hrun : c.updateApiStatus apiVersion target = .ok c') : Effect versions op c c' := by
  simp only [Contract.updateApiStatus, Contract.getApi, checkTransition, bind_eq_ok,
    require_eq_ok, found_eq_ok] at hrun
  obtain ⟨value, hfound, -, htarget, -, -, -, -, hrun⟩ := hrun
  cases hrun
  refine .ofApis h (h.apis.modify fun row hrow => hrow) fun row hrow _ => ?_
  by_cases hname : row.apiVersion = apiVersion
  · obtain rfl := h.apis.eq_of_lookup hfound hrow hname
    refine ⟨_, mem_modify_of_eq hrow hname, ?_⟩
    rcases htarget with rfl | htarget
    · exact .kept
    · exact .moved htarget
  · exact ⟨row, mem_modify_of_ne hrow hname, .kept⟩

/-! ## Publication and rollback -/

/-- A schema version after the restore. -/
theorem restoreContract_schema (snapshot : AgentSnapshot σ) {row : AgentSchemaVersion σ}
    (hrow : row ∈ c.schemas) :
    row ∈ (c.restoreContract snapshot true).schemas ∨
      snapshot.restoredSchema ≠ "" ∧ snapshot.restoredSchema = row.version ∧
        { row.withSchemas snapshot.input snapshot.output with status := .published } ∈
          (c.restoreContract snapshot true).schemas := by
  by_cases hempty : snapshot.restoredSchema = ""
  · rw [c.restoreContract_empty hempty]
    exact .inl hrow
  · rw [c.restoreContract_published hempty]
    by_cases hname : row.version = snapshot.restoredSchema
    · exact .inr ⟨hempty, hname.symm, mem_upsert_of_eq hrow hname⟩
    · exact .inl (mem_upsert_of_ne hrow hname)

/-- An API version after the restore. -/
theorem restoreContract_api (snapshot : AgentSnapshot σ) {row : AgentAPIVersion}
    (hrow : row ∈ c.apis) :
    row ∈ (c.restoreContract snapshot true).apis ∨
      snapshot.restoredSchema ≠ "" ∧ snapshot.api = row.apiVersion ∧
        { row with schemaVersion := snapshot.restoredSchema, status := .published } ∈
          (c.restoreContract snapshot true).apis := by
  by_cases hempty : snapshot.restoredSchema = ""
  · rw [c.restoreContract_empty hempty]
    exact .inl hrow
  · rw [c.restoreContract_published hempty]
    by_cases hname : row.apiVersion = snapshot.api
    · exact .inr ⟨hempty, hname.symm, mem_upsert_of_eq hrow hname⟩
    · exact .inl (mem_upsert_of_ne hrow hname)

theorem WellNamed.restore (h : WellNamed c) (snapshot : AgentSnapshot σ) :
    WellNamed (c.restoreContract snapshot true) := by
  by_cases hempty : snapshot.restoredSchema = ""
  · rw [c.restoreContract_empty hempty]
    exact h
  · rw [c.restoreContract_published hempty]
    refine ⟨h.schemas.upsert (fun row hrow => hrow) rfl, ?_,
      h.apis.upsert (fun row hrow => hrow) rfl⟩
    exact keys_upsert (P := fun name => strip name = name) h.stripped (fun row hrow => hrow) rfl
      (strip_strip _)

theorem restoreAgentVersion_eq_ok {snapshot : AgentSnapshot σ} {dependencies : Except String Unit}
    (hrun : c.restoreAgentVersion snapshot true dependencies = .ok c') :
    c' = c.restoreContract snapshot true := by
  simp only [Contract.restoreAgentVersion, bind_eq_ok] at hrun
  obtain ⟨-, -, hrun⟩ := hrun
  exact (Except.ok.inj hrun).symm

/-- The version that becomes current is no part of the contract. -/
theorem Effect.makeCurrent (h : Effect versions op c c') (id : Nat) :
    Effect versions op c (c'.makeCurrent id) :=
  ⟨⟨h.named.schemas, h.named.stripped, h.named.apis⟩, h.schemas, h.apis⟩

/-- What `publish_agent` does to the contract. -/
theorem publishContract_effect (h : WellNamed c) {snapshot : AgentSnapshot σ} {published : Contract σ}
    (happlies : Applies versions op snapshot) (hrun : c.publishContract snapshot = .ok published) :
    Effect versions op c (published.restoreContract snapshot true) := by
  refine ⟨(h.publish hrun).restore snapshot, fun row hrow hreleased => ?_, fun row hrow _ => ?_⟩
  · have hkept := publishContract_schema hrun hrow hreleased
    rcases restoreContract_schema snapshot hkept with hkept | ⟨hne, hname, hrestored⟩
    · exact ⟨row, hkept, .kept⟩
    · obtain ⟨schema, hfound, havailable, -, -⟩ := publishContract_cases hrun
      have henabled := published_available h hfound havailable hrow hne hname
      exact ⟨_, hrestored, .restored happlies hname fun hdisabled => absurd hdisabled henabled⟩
  · rcases publishContract_api h hrun hrow with ⟨hother, hkept⟩ | ⟨hname, henabled, _, hpublished⟩
    · rcases restoreContract_api snapshot hkept with hkept | ⟨-, hname, -⟩
      · exact ⟨row, hkept, .kept⟩
      · exact absurd hname hother
    · -- The restore may publish the row a second time.
      rcases restoreContract_api snapshot hpublished with hkept | ⟨-, -, hrestored⟩
      · exact ⟨_, hkept, .published happlies hname fun hdisabled => absurd hdisabled henabled⟩
      · exact ⟨_, hrestored, .published happlies hname fun hdisabled => absurd hdisabled henabled⟩

theorem publishAgent_effect (h : WellNamed c) {version : AgentVersion (AgentSnapshot σ)}
    {dependencies : Except String Unit} (happlies : Applies versions op version.snapshot)
    (hrun : c.publishAgent version dependencies = .ok c') : Effect versions op c c' := by
  simp only [Contract.publishAgent, bind_eq_ok, require_eq_ok] at hrun
  obtain ⟨-, -, published, hpublish, restored, hrestore, hrun⟩ := hrun
  rw [restoreAgentVersion_eq_ok hrestore] at hrun
  cases hrun
  exact (publishContract_effect h happlies hpublish).makeCurrent version.id

/-- What a rollback does to the contract. -/
theorem restoreContract_effect (h : WellNamed c) {snapshot : AgentSnapshot σ}
    (happlies : Applies versions op snapshot) (hop : op.isRollback = true) :
    Effect versions op c (c.restoreContract snapshot true) := by
  refine ⟨h.restore snapshot, fun row hrow _ => ?_, fun row hrow _ => ?_⟩
  · rcases restoreContract_schema snapshot hrow with hkept | ⟨hne, hname, hrestored⟩
    · exact ⟨row, hkept, .kept⟩
    · exact ⟨_, hrestored, .restored happlies hname fun _ => ⟨hop, hne⟩⟩
  · rcases restoreContract_api snapshot hrow with hkept | ⟨hne, hname, hrestored⟩
    · exact ⟨row, hkept, .kept⟩
    · exact ⟨_, hrestored, .published happlies hname fun _ => ⟨hop, hne⟩⟩

theorem rollbackAgentVersion_effect (h : WellNamed c) {version : AgentVersion (AgentSnapshot σ)}
    {dependencies : Except String Unit} (happlies : Applies versions op version.snapshot)
    (hop : op.isRollback = true)
    (hrun : c.rollbackAgentVersion version dependencies = .ok c') : Effect versions op c c' := by
  simp only [Contract.rollbackAgentVersion, bind_eq_ok, require_eq_ok] at hrun
  obtain ⟨-, -, restored, hrestore, hrun⟩ := hrun
  rw [restoreAgentVersion_eq_ok hrestore] at hrun
  cases hrun
  exact (restoreContract_effect h happlies hop).makeCurrent version.id

/-! ## Every operation -/

theorem apiPublishAgent_effect (h : WellNamed c) {id : Nat} {checks dependencies : Except String Unit}
    (hrun : c.apiPublishAgent id checks dependencies = .ok c') :
    Effect c.versions (.publishAgent id checks dependencies) c c' := by
  simp only [Contract.apiPublishAgent, Contract.getVersion, bind_eq_ok, require_eq_ok,
    found_eq_ok] at hrun
  obtain ⟨-, -, version, hfound, -, -, -, -, hrun⟩ := hrun
  obtain rfl := key_of_lookup hfound
  exact publishAgent_effect h ⟨version, mem_of_lookup hfound, rfl, rfl⟩ hrun

theorem consolePublishAgent_effect (h : WellNamed c) {id : Nat}
    {checks dependencies : Except String Unit}
    (hrun : c.consolePublishAgent id checks dependencies = .ok c') :
    Effect c.versions (.consolePublishAgent id checks dependencies) c c' := by
  simp only [Contract.consolePublishAgent, bind_eq_ok, found_eq_ok,
    Option.filter_eq_some_iff] at hrun
  obtain ⟨draft, ⟨hfound, -⟩, -, -, hrun⟩ := hrun
  obtain rfl := key_of_lookup hfound
  split at hrun
  · rename_i published hpublish
    cases hrun
    have hcandidate : WellNamed (c.makeCandidate draft.id) := ⟨h.schemas, h.stripped, h.apis⟩
    have heffect : Effect c.versions (.consolePublishAgent draft.id checks dependencies)
        (c.makeCandidate draft.id) c' := by
      refine publishAgent_effect hcandidate ?_ hpublish
      exact ⟨draft, mem_of_lookup hfound, rfl, rfl⟩
    exact ⟨heffect.named, heffect.schemas, heffect.apis⟩
  · -- The release candidate stays.
    cases hrun
    exact .same h c.agent _

theorem rollbackAgent_effect (h : WellNamed c) {id : Nat} {dependencies : Except String Unit}
    (hrun : c.rollbackAgent id dependencies = .ok c') :
    Effect c.versions (.rollbackAgent id dependencies) c c' := by
  simp only [Contract.rollbackAgent, Contract.getVersion, bind_eq_ok, require_eq_ok,
    found_eq_ok] at hrun
  obtain ⟨-, -, value, hfound, hrun⟩ := hrun
  obtain rfl := key_of_lookup hfound
  exact rollbackAgentVersion_effect h ⟨value, mem_of_lookup hfound, rfl, rfl⟩ rfl hrun

/-- **Effect of an operation.** A released row is kept, moved on in its lifecycle,
    or written from the snapshot that the operation applies. -/
theorem run_effect (h : WellNamed c) (hrun : c.run op = .ok c') : Effect c.versions op c c' := by
  cases op with
  | createSchemaVersion => exact createSchemaVersion_effect h hrun
  | deleteSchemaVersion => exact deleteSchemaVersion_effect h hrun
  | updateSchemaVersion => exact updateSchemaVersion_effect h hrun
  | updateAgentSchema => exact updateAgentSchema_effect h hrun
  | updateSchemaStatus => exact updateSchemaStatus_effect h hrun
  | createApiVersion => exact createApiVersion_effect h hrun
  | deleteApiVersion => exact deleteApiVersion_effect h hrun
  | updateApiBinding => exact updateApiBinding_effect h hrun
  | updateApiStatus => exact updateApiStatus_effect h hrun
  | createAgentVersion id snapshot =>
      simp only [Contract.run, Contract.createAgentVersion, bind_eq_ok, require_eq_ok] at hrun
      obtain ⟨-, -, -, -, hrun⟩ := hrun
      cases hrun
      exact .same h c.agent _
  | updateAgentVersion id snapshot valid =>
      simp only [Contract.run, Contract.updateAgentVersion, bind_eq_ok, require_eq_ok] at hrun
      obtain ⟨-, -, -, -, -, -, hrun⟩ := hrun
      cases hrun
      exact .same h c.agent _
  | transitionAgentVersion id target =>
      simp only [Contract.run, Contract.transitionAgentVersion, bind_eq_ok, require_eq_ok] at hrun
      obtain ⟨-, -, -, -, hrun⟩ := hrun
      cases hrun
      exact .same h c.agent _
  | transitionAgent target =>
      simp only [Contract.run, Contract.transitionAgent, bind_eq_ok, require_eq_ok] at hrun
      obtain ⟨-, -, hrun⟩ := hrun
      cases hrun
      exact .same h _ c.versions
  | publishAgent => exact apiPublishAgent_effect h hrun
  | consolePublishAgent => exact consolePublishAgent_effect h hrun
  | rollbackAgent => exact rollbackAgent_effect h hrun

end Effects

theorem versionPattern_first : versionPattern "v1" = true := by decide

theorem created_wellNamed {c : Contract σ} (h : c.Created) : WellNamed c := by
  obtain ⟨-, -, hapis, inputSchema, outputSchema, hschemas⟩ := h
  refine ⟨?_, fun row hrow => ?_, ?_⟩
  · rw [hschemas]
    exact List.nodup_singleton _
  · rw [hschemas] at hrow
    obtain rfl := List.mem_singleton.mp hrow
    exact versionPattern_strip versionPattern_first
  · rw [hapis]
    exact List.nodup_nil

theorem step_effect [EmptyCollection σ] {c c' : Contract σ} {op : Operation σ} (h : WellNamed c)
    (hstep : (contractSystem σ).step c op = some c') : Effect c.versions op c c' := by
  cases hrun : c.run op with
  | ok published =>
      simp only [contractSystem, hrun, Except.toOption, Option.some.injEq] at hstep
      subst hstep
      exact run_effect h hrun
  | error detail =>
      simp only [contractSystem, hrun, Except.toOption] at hstep
      cases hstep

end Production
end HermesPlatform
