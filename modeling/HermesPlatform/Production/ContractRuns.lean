/-
  HermesPlatform.Production.ContractRuns

  Two laws of the public contract over whole runs: the content of a published
  schema version does not change, and what is disabled stays disabled.

  The operations on the contract keep both.  The snapshots do not: they are older
  than the rows that they are applied to, and only `publish_agent` looks at the
  status of these rows, so each law rests on a condition on the run.
-/

import HermesPlatform.Production.ContractSteps

namespace HermesPlatform
namespace Production

open Table Transition

variable {σ : Type} [EmptyCollection σ]

/-! ## Content -/

/-- A snapshot that is applied to a released schema version has its content. -/
def KeepsContent (c : Contract σ) (op : Operation σ) : Prop :=
  ∀ version ∈ c.versions, op.release = some version.id →
    ∀ row ∈ c.schemas, row.status.isDraft = false → row.version = version.snapshot.restoredSchema →
      version.snapshot.input = row.inputSchema ∧ version.snapshot.output = row.outputSchema

instance [DecidableEq σ] (c : Contract σ) (op : Operation σ) : Decidable (KeepsContent c op) :=
  inferInstanceAs (Decidable (∀ version ∈ c.versions, op.release = some version.id →
    ∀ row ∈ c.schemas, row.status.isDraft = false → row.version = version.snapshot.restoredSchema →
      version.snapshot.input = row.inputSchema ∧ version.snapshot.output = row.outputSchema))

/-- The schema version is released, with this content. -/
def HasContent (version : String) (inputSchema outputSchema : σ) (c : Contract σ) : Prop :=
  ∃ row ∈ c.schemas, row.version = version ∧ row.status.isDraft = false ∧
    row.inputSchema = inputSchema ∧ row.outputSchema = outputSchema

/-- A released version never becomes a draft again. -/
theorem transitions_released {status target : ContractStatus} (h : status.isDraft = false)
    (htarget : target ∈ status.transitions) : target.isDraft = false := by
  cases status with
  | draft => cases h
  | testing => cases h
  | published =>
      obtain rfl := List.mem_singleton.mp htarget
      rfl
  | deprecated =>
      obtain rfl := List.mem_singleton.mp htarget
      rfl
  | disabled => cases htarget

theorem hasContent_step {c c' : Contract σ} {op : Operation σ} (h : WellNamed c)
    (hkeeps : KeepsContent c op) (hstep : (contractSystem σ).step c op = some c')
    {version : String} {inputSchema outputSchema : σ}
    (hcontent : HasContent version inputSchema outputSchema c) :
    HasContent version inputSchema outputSchema c' := by
  obtain ⟨row, hrow, hname, hreleased, rfl, rfl⟩ := hcontent
  obtain ⟨row', hrow', hfate⟩ := (step_effect h hstep).schemas row hrow hreleased
  refine ⟨row', hrow', ?_⟩
  cases hfate with
  | kept => exact ⟨hname, hreleased, rfl, rfl⟩
  | moved htarget => exact ⟨hname, transitions_released hreleased htarget, rfl, rfl⟩
  | restored happlies hrestored _ =>
      obtain ⟨version, hversion, hrelease, rfl⟩ := happlies
      obtain ⟨hinput, houtput⟩ := hkeeps version hversion hrelease row hrow hreleased hrestored.symm
      exact ⟨hname, rfl, hinput, houtput⟩

theorem wellNamed_reachable {good : Contract σ → Operation σ → Prop} {s : Contract σ}
    (h : (contractSystem σ).Reachable good s) : WellNamed s :=
  h.invariant WellNamed (fun _ hcreated => created_wellNamed hcreated)
    fun _ _ _ hnamed _ hstep => (step_effect hnamed hstep).named

/-- **Immutable schema versions.** In the runs in which the snapshots agree with the
    released schema versions that they name, a published version keeps its content. -/
theorem schema_immutable {s t : Contract σ} (h : (contractSystem σ).Reachable KeepsContent s)
    (hpath : (contractSystem σ).Path KeepsContent s t) :
    ∀ row ∈ s.schemas, row.status = .published →
      ∀ row' ∈ t.schemas, row'.version = row.version →
        row'.inputSchema = row.inputSchema ∧ row'.outputSchema = row.outputSchema := by
  intro row hrow hstatus row' hrow' hname
  have hreleased : row.status.isDraft = false := by rw [hstatus]; rfl
  have hkept := hpath.preserves
    (fun u => WellNamed u ∧ HasContent row.version row.inputSchema row.outputSchema u)
    (fun u op v hu hkeeps hstep => ⟨(step_effect hu.1 hstep).named,
      hasContent_step hu.1 hkeeps hstep hu.2⟩)
    ⟨wellNamed_reachable h, row, hrow, rfl, hreleased, rfl, rfl⟩
  obtain ⟨hnamed, kept, hkept, hkeptName, -, hinput, houtput⟩ := hkept
  obtain rfl := hnamed.schemas.eq hrow' hkept (hname.trans hkeptName.symm)
  exact ⟨hinput, houtput⟩

/-- An agent with the draft `v1`; a schema is a list of fields here. -/
def newContract : Contract (List String) :=
  ⟨⟨.active, none⟩, [], [⟨"v1", ["city"], ["text"], .draft⟩], []⟩

theorem newContract_created : newContract.Created := ⟨rfl, rfl, rfl, _, _, rfl⟩

/-- A snapshot that names a schema version and the API version of the same name. -/
def named (version : String) (inputSchema : List String) : AgentSnapshot (List String) :=
  ⟨some version, some inputSchema, some ["text"], some version⟩

def releaseCandidate (id : Nat) (snapshot : AgentSnapshot (List String)) :
    List (Operation (List String)) :=
  [.createAgentVersion id snapshot, .transitionAgentVersion id .testing,
    .transitionAgentVersion id .releaseCandidate]

def publishNow (id : Nat) : Operation (List String) := .publishAgent id (.ok ()) (.ok ())

/-- The draft gets another field and is published, after the snapshot was taken. -/
def outdatedSnapshot : List (Operation (List String)) :=
  releaseCandidate 1 (named "v1" ["city"]) ++
    [.updateSchemaVersion "v1" ["city", "date"] ["text"] (.ok ()),
      .updateSchemaStatus "v1" .testing, .updateSchemaStatus "v1" .published]

/-- The published schema version loses its new field. -/
theorem published_schema_rewritten :
    ¬ ∀ s t : Contract (List String), (contractSystem _).Reachable System.anyStep s →
      (contractSystem _).Path System.anyStep s t →
        ∀ row ∈ s.schemas, row.status = .published → ∀ row' ∈ t.schemas,
          row'.version = row.version →
            row'.inputSchema = row.inputSchema ∧ row'.outputSchema = row.outputSchema := by
  intro hclaim
  have hcontent := hclaim _ _
    ⟨newContract, newContract_created, System.path_of_exec outdatedSnapshot rfl⟩
    (System.path_of_exec [publishNow 1] rfl)
    ⟨"v1", ["city", "date"], ["text"], .published⟩ (.head _) rfl
    ⟨"v1", ["city"], ["text"], .published⟩ (.head _) rfl
  exact absurd hcontent.1 (by decide)

def twoVersions : List (Operation (List String)) :=
  releaseCandidate 1 (named "v1" ["city"]) ++ [publishNow 1]

def backAndForth : List (Operation (List String)) :=
  releaseCandidate 2 (named "v1" ["city"]) ++ [publishNow 2, .rollbackAgent 1 (.ok ())]

theorem schema_immutable_rollback :
    ∃ s t, (contractSystem (List String)).exec newContract twoVersions = some s ∧
      (contractSystem (List String)).exec s backAndForth = some t ∧
      ∀ row ∈ s.schemas, row.status = .published → ∀ row' ∈ t.schemas,
        row'.version = row.version →
          row'.inputSchema = row.inputSchema ∧ row'.outputSchema = row.outputSchema :=
  ⟨_, _, rfl, rfl, schema_immutable
    ⟨newContract, newContract_created, System.path_of_allowed twoVersions (by decide) rfl⟩
    (System.path_of_allowed backAndForth (by decide) rfl)⟩

/-! ## Disabled versions -/

/-- A rollback applies its snapshot to no row that is disabled. -/
def SparesDisabled (c : Contract σ) (op : Operation σ) : Prop :=
  op.isRollback = true → ∀ version ∈ c.versions, op.release = some version.id →
    version.snapshot.restoredSchema ≠ "" →
      (∀ row ∈ c.schemas, row.version = version.snapshot.restoredSchema →
        row.status ≠ .disabled) ∧
      ∀ row ∈ c.apis, row.apiVersion = version.snapshot.api → row.status ≠ .disabled

instance (c : Contract σ) (op : Operation σ) : Decidable (SparesDisabled c op) :=
  inferInstanceAs (Decidable (op.isRollback = true → ∀ version ∈ c.versions,
    op.release = some version.id → version.snapshot.restoredSchema ≠ "" →
      (∀ row ∈ c.schemas, row.version = version.snapshot.restoredSchema →
        row.status ≠ .disabled) ∧
      ∀ row ∈ c.apis, row.apiVersion = version.snapshot.api → row.status ≠ .disabled))

/-- A disabled row is there after the operation. -/
theorem disabled_step {c c' : Contract σ} {op : Operation σ} (h : WellNamed c)
    (hspares : SparesDisabled c op) (hstep : (contractSystem σ).step c op = some c') :
    (∀ row ∈ c.schemas, row.status = .disabled → row ∈ c'.schemas) ∧
      ∀ row ∈ c.apis, row.status = .disabled → row ∈ c'.apis := by
  have heffect := step_effect h hstep
  refine ⟨fun row hrow hdisabled => ?_, fun row hrow hdisabled => ?_⟩
  · have hreleased : row.status.isDraft = false := by rw [hdisabled]; rfl
    obtain ⟨row', hrow', hfate⟩ := heffect.schemas row hrow hreleased
    cases hfate with
    | kept => exact hrow'
    | moved htarget =>
        rw [hdisabled] at htarget
        cases htarget
    | restored happlies hname hrollback =>
        obtain ⟨version, hversion, hrelease, rfl⟩ := happlies
        obtain ⟨hop, hne⟩ := hrollback hdisabled
        exact absurd hdisabled ((hspares hop version hversion hrelease hne).1 row hrow hname.symm)
  · have hreleased : row.status.isDraft = false := by rw [hdisabled]; rfl
    obtain ⟨row', hrow', hfate⟩ := heffect.apis row hrow hreleased
    cases hfate with
    | kept => exact hrow'
    | moved htarget =>
        rw [hdisabled] at htarget
        cases htarget
    | published happlies hname hrollback =>
        obtain ⟨version, hversion, hrelease, rfl⟩ := happlies
        obtain ⟨hop, hne⟩ := hrollback hdisabled
        exact absurd hdisabled ((hspares hop version hversion hrelease hne).2 row hrow hname.symm)

/-- **Disabled is final.** In the runs in which no rollback meets a disabled row, a
    disabled schema version or API version stays disabled. -/
theorem disabled_final {s t : Contract σ} (h : (contractSystem σ).Reachable SparesDisabled s)
    (hpath : (contractSystem σ).Path SparesDisabled s t) :
    (∀ row ∈ s.schemas, row.status = .disabled →
        ∀ row' ∈ t.schemas, row'.version = row.version → row'.status = .disabled) ∧
      ∀ row ∈ s.apis, row.status = .disabled →
        ∀ row' ∈ t.apis, row'.apiVersion = row.apiVersion → row'.status = .disabled := by
  have hkept := hpath.preserves
    (fun u => WellNamed u ∧ (∀ row ∈ s.schemas, row.status = .disabled → row ∈ u.schemas) ∧
      ∀ row ∈ s.apis, row.status = .disabled → row ∈ u.apis)
    (fun u op v hu hspares hstep => by
      obtain ⟨hschemas, hapis⟩ := disabled_step hu.1 hspares hstep
      exact ⟨(step_effect hu.1 hstep).named,
        fun row hrow hdisabled => hschemas row (hu.2.1 row hrow hdisabled) hdisabled,
        fun row hrow hdisabled => hapis row (hu.2.2 row hrow hdisabled) hdisabled⟩)
    ⟨wellNamed_reachable h, fun row hrow _ => hrow, fun row hrow _ => hrow⟩
  obtain ⟨hnamed, hschemas, hapis⟩ := hkept
  refine ⟨fun row hrow hdisabled row' hrow' hname => ?_,
    fun row hrow hdisabled row' hrow' hname => ?_⟩
  · obtain rfl := hnamed.schemas.eq hrow' (hschemas row hrow hdisabled) hname
    exact hdisabled
  · obtain rfl := hnamed.apis.eq hrow' (hapis row hrow hdisabled) hname
    exact hdisabled

/-- `v1` is published, replaced and disabled. -/
def disableFirst : List (Operation (List String)) :=
  [.createSchemaVersion ⟨"v2", by decide⟩ ["city", "date"] ["text"] (.ok ())] ++
    releaseCandidate 1 (named "v1" ["city"]) ++ releaseCandidate 2 (named "v2" ["city", "date"]) ++
    [publishNow 1, publishNow 2, .updateSchemaStatus "v1" .deprecated,
      .updateSchemaStatus "v1" .disabled, .updateApiStatus "v1" .deprecated,
      .updateApiStatus "v1" .disabled]

/-- The rollback to the first version publishes both again. -/
theorem disabled_published_again :
    (¬ ∀ s t : Contract (List String), (contractSystem _).Reachable System.anyStep s →
        (contractSystem _).Path System.anyStep s t →
          ∀ row ∈ s.schemas, row.status = .disabled → ∀ row' ∈ t.schemas,
            row'.version = row.version → row'.status ≠ .published) ∧
      ¬ ∀ s t : Contract (List String), (contractSystem _).Reachable System.anyStep s →
        (contractSystem _).Path System.anyStep s t →
          ∀ row ∈ s.apis, row.status = .disabled → ∀ row' ∈ t.apis,
            row'.apiVersion = row.apiVersion → row'.status ≠ .published := by
  refine ⟨fun hclaim => ?_, fun hclaim => ?_⟩
  · have hschema := hclaim _ _
      ⟨newContract, newContract_created, System.path_of_exec disableFirst rfl⟩
      (System.path_of_exec [.rollbackAgent 1 (.ok ())] rfl)
      ⟨"v1", ["city"], ["text"], .disabled⟩ (.head _) rfl
      ⟨"v1", ["city"], ["text"], .published⟩ (.head _) rfl
    exact hschema rfl
  · have hapi := hclaim _ _
      ⟨newContract, newContract_created, System.path_of_exec disableFirst rfl⟩
      (System.path_of_exec [.rollbackAgent 1 (.ok ())] rfl)
      ⟨"v1", "v1", .disabled⟩ (.head _) rfl ⟨"v1", "v1", .published⟩ (.head _) rfl
    exact hapi rfl

/-- The other version is replaced and comes back. -/
def secondAgain : List (Operation (List String)) :=
  releaseCandidate 3 (named "v2" ["city", "date"]) ++
    [publishNow 3, .rollbackAgent 2 (.ok ())]

theorem disabled_final_rollback :
    ∃ s t, (contractSystem (List String)).exec newContract disableFirst = some s ∧
      (contractSystem (List String)).exec s secondAgain = some t ∧
      (∀ row ∈ s.schemas, row.status = .disabled →
          ∀ row' ∈ t.schemas, row'.version = row.version → row'.status = .disabled) ∧
        ∀ row ∈ s.apis, row.status = .disabled →
          ∀ row' ∈ t.apis, row'.apiVersion = row.apiVersion → row'.status = .disabled :=
  ⟨_, _, rfl, rfl, disabled_final
    ⟨newContract, newContract_created, System.path_of_allowed disableFirst (by decide) rfl⟩
    (System.path_of_allowed secondAgain (by decide) rfl)⟩

end Production
end HermesPlatform
