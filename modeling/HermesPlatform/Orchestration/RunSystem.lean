/-
  HermesPlatform.Orchestration.RunSystem

  A submitted run as a transition system with atomic steps: passes of
  `reconcile_run`, starts and ends of workers, the requests on tasks and on the
  run, and the recovery of expired leases.  `Interleaving`, `Lease` and
  `Operations` take the operations apart that make several transactions: passes,
  cancellations of the run, recoveries and stops.

  `step_spec` says what a step can do, action by action; the invariants of the
  modules after this one are derived from it.
-/

import HermesPlatform.Lib.Transition
import HermesPlatform.Orchestration.Reconcile
import HermesPlatform.Orchestration.TaskActions
import HermesPlatform.Orchestration.Workflow

namespace HermesPlatform
namespace Orchestration

open Python Transition

/-! ## Rows -/

def RunRows.task? (rows : RunRows) (id : Nat) : Option AgentTask :=
  rows.tasks.find? fun t => t.id = id

def RunRows.setTask (rows : RunRows) (t : AgentTask) : RunRows :=
  { rows with tasks := updateTask t.id (fun _ => t) rows.tasks }

/-- The tasks of the members or nodes. -/
def RunRows.children (rows : RunRows) : List AgentTask :=
  rows.tasks.filter fun t => t.parentTaskId ≠ none

/-! ## States and steps -/

/-- The rows of a run; the tasks between the start and the end of a worker's
    execution, once for each worker; the approvals whose pass is still due. -/
structure RunState where
  rows : RunRows
  working : List Nat
  reviewed : Nat

inductive RunAction where
  /-- A pass of the loop of the orchestrator over the active runs. -/
  | reconcile
  /-- The pass at the end of `review_human_task`. -/
  | reviewPass
  | start (id : Nat) (workerId : String) (agentActive : Bool)
  | finish (id : Nat) (workerId : String) (outcome : Outcome)
  | review (id : Nat) (approved : Bool) (note : Option String)
  | cancelTask (id : Nat)
  | stopExecution (id : Nat)
  | cancelRun
  | recover (workerId : String) (stale : Nat → Bool)

/-- A request that is refused, and a queue entry that a worker drops, change
    nothing and are no steps.  Queue entries can be repeated, so a worker may
    start any task that its row lets it start. -/
def step (s : RunState) : RunAction → Option RunState
  | .reconcile =>
      -- The loop lists active runs only; the pass of an approval does not ask.
      if s.rows.run.status.terminal = true then none
      else some { s with rows := reconcileRun s.rows }
  | .reviewPass =>
      if s.reviewed = 0 then none
      else some { s with rows := reconcileRun s.rows, reviewed := s.reviewed - 1 }
  | .start id workerId agentActive =>
      (s.rows.task? id).bind fun t =>
        match startTask workerId agentActive t with
        | .ignored => none
        | .finished t' => some { s with rows := s.rows.setTask t' }
        | .started t' => some { s with rows := s.rows.setTask t', working := id :: s.working }
  | .finish id workerId outcome =>
      (s.rows.task? id).bind fun t =>
        if id ∈ s.working then
          some { s with
            rows := s.rows.setTask (finishTask workerId outcome t)
            working := s.working.erase id }
        else none
  | .review id approved note =>
      (s.rows.task? id).bind fun t =>
        match reviewTask approved note t with
        | .error _ => none
        | .ok t' => some { s with rows := s.rows.setTask t', reviewed := s.reviewed + 1 }
  | .cancelTask id =>
      (s.rows.task? id).bind fun t =>
        match cancelTask t with
        | .error _ => none
        | .ok t' => some { s with rows := s.rows.setTask t' }
  | .stopExecution id =>
      (s.rows.task? id).bind fun t =>
        match stopExecution t with
        | .error _ => none
        | .ok t' => some { s with rows := s.rows.setTask t' }
  | .cancelRun =>
      match cancelWorkflowRun s.rows with
      | .error _ => none
      | .ok rows => some { s with rows := rows }
  | .recover workerId stale =>
      some { s with rows := { s.rows with tasks := recoverTasks workerId stale s.rows.tasks } }

/-- The state at the end of a submission. -/
def fresh (rows : RunRows) : RunState := ⟨rows, [], 0⟩

def TeamSubmitted (s : RunState) : Prop :=
  ∃ team payload, s = fresh ((submitTeamRun team payload).submitted payload)

def WorkflowSubmitted (nodes : List WorkflowNodeSpec) (s : RunState) : Prop :=
  validateWorkflowDag nodes = .ok () ∧ ∃ team payload plan,
    submitWorkflowRun team nodes payload = .ok plan ∧ s = fresh (plan.submitted payload)

def Submitted (s : RunState) : Prop :=
  TeamSubmitted s ∨ ∃ nodes, WorkflowSubmitted nodes s

def runSystem (init : RunState → Prop) : System RunState RunAction := ⟨init, step⟩

/-! ## What a step can do -/

/-- What a step can do to one task and to the workers. -/
inductive Change (working working' : List Nat) (t t' : AgentTask) : Prop where
  | started (queued : t.status = .pending ∨ t.status = .retrying) (status : t'.status = .running)
      (workers : working' = t.id :: working)
  | finished (busy : t.id ∈ working) (ended : Ended t'.status)
      (workers : working' = working.erase t.id)
  /-- The task ends without a worker, or by a stop of its execution. -/
  | closed (open_ : t.status = .pending ∨ t.status = .retrying ∨ t.status = .humanReview ∨
        (t.status = .running ∧ t'.status = .cancelled))
      (ended : t'.status = .succeeded ∨ t'.status = .failed ∨ t'.status = .cancelled)
      (workers : working' = working)
  | kept (status : t'.status = t.status) (workers : working' = working)

inductive StepSpec (s s' : RunState) : RunAction → Prop where
  | pass {a : RunAction} (action : a = .reconcile ∨ a = .reviewPass)
      (rows : s'.rows = reconcileRun s.rows) (workers : s'.working = s.working) : StepSpec s s' a
  | row {a : RunAction} (t t' : AgentTask) (mem : t ∈ s.rows.tasks)
      (spec : t'.toTaskSpec = t.toTaskSpec) (rows : s'.rows = s.rows.setTask t')
      (change : Change s.working s'.working t t') : StepSpec s s' a
  | cancelRun (rows : cancelWorkflowRun s.rows = .ok s'.rows) (workers : s'.working = s.working) :
      StepSpec s s' .cancelRun
  | recover (workerId : String) (stale : Nat → Bool)
      (run : s'.rows.run = s.rows.run)
      (tasks : s'.rows.tasks = recoverTasks workerId stale s.rows.tasks)
      (workers : s'.working = s.working) : StepSpec s s' (.recover workerId stale)

theorem task?_eq_some {rows : RunRows} {id : Nat} {t : AgentTask} (h : rows.task? id = some t) :
    t ∈ rows.tasks ∧ t.id = id := by
  have hid := List.find?_some h
  exact ⟨List.mem_of_find?_eq_some h, by simpa using hid⟩

/-- The operation of the source that a step carries out, and on what. -/
inductive Carries (s : RunState) : RunAction → RunState → Prop where
  | reconcile : Carries s .reconcile { s with rows := reconcileRun s.rows }
  | reviewPass :
      Carries s .reviewPass { s with rows := reconcileRun s.rows, reviewed := s.reviewed - 1 }
  | refused {t t' : AgentTask} {workerId : String} {agentActive : Bool} (hmem : t ∈ s.rows.tasks)
      (hstart : startTask workerId agentActive t = .finished t') :
      Carries s (.start t.id workerId agentActive) { s with rows := s.rows.setTask t' }
  | started {t t' : AgentTask} {workerId : String} {agentActive : Bool} (hmem : t ∈ s.rows.tasks)
      (hstart : startTask workerId agentActive t = .started t') :
      Carries s (.start t.id workerId agentActive)
        { s with rows := s.rows.setTask t', working := t.id :: s.working }
  | finished {t : AgentTask} {workerId : String} {outcome : Outcome} (hmem : t ∈ s.rows.tasks)
      (hbusy : t.id ∈ s.working) :
      Carries s (.finish t.id workerId outcome) { s with
        rows := s.rows.setTask (finishTask workerId outcome t)
        working := s.working.erase t.id }
  | reviewed {t t' : AgentTask} {approved : Bool} {note : Option String} (hmem : t ∈ s.rows.tasks)
      (hreview : reviewTask approved note t = .ok t') :
      Carries s (.review t.id approved note)
        { s with rows := s.rows.setTask t', reviewed := s.reviewed + 1 }
  | cancelled {t t' : AgentTask} (hmem : t ∈ s.rows.tasks) (hcancel : cancelTask t = .ok t') :
      Carries s (.cancelTask t.id) { s with rows := s.rows.setTask t' }
  | stopped {t t' : AgentTask} (hmem : t ∈ s.rows.tasks) (hstop : stopExecution t = .ok t') :
      Carries s (.stopExecution t.id) { s with rows := s.rows.setTask t' }
  | runCancelled {rows : RunRows} (hcancel : cancelWorkflowRun s.rows = .ok rows) :
      Carries s .cancelRun { s with rows := rows }
  | recovered (workerId : String) (stale : Nat → Bool) :
      Carries s (.recover workerId stale)
        { s with rows := { s.rows with tasks := recoverTasks workerId stale s.rows.tasks } }

theorem step_carries {s s' : RunState} {a : RunAction} (h : step s a = some s') :
    Carries s a s' := by
  cases a with
  | reconcile =>
      simp only [step] at h
      split at h
      · cases h
      · cases h
        exact .reconcile
  | reviewPass =>
      simp only [step] at h
      split at h
      · cases h
      · cases h
        exact .reviewPass
  | start id workerId agentActive =>
      simp only [step, Option.bind_eq_some_iff] at h
      obtain ⟨t, ht, h⟩ := h
      obtain ⟨hmem, rfl⟩ := task?_eq_some ht
      split at h
      · cases h
      · rename_i t' hstart
        cases h
        exact .refused hmem hstart
      · rename_i t' hstart
        cases h
        exact .started hmem hstart
  | finish id workerId outcome =>
      simp only [step, Option.bind_eq_some_iff] at h
      obtain ⟨t, ht, h⟩ := h
      obtain ⟨hmem, rfl⟩ := task?_eq_some ht
      split at h
      · rename_i hbusy
        cases h
        exact .finished hmem hbusy
      · cases h
  | review id approved note =>
      simp only [step, Option.bind_eq_some_iff] at h
      obtain ⟨t, ht, h⟩ := h
      obtain ⟨hmem, rfl⟩ := task?_eq_some ht
      split at h
      · cases h
      · rename_i t' hreview
        cases h
        exact .reviewed hmem hreview
  | cancelTask id =>
      simp only [step, Option.bind_eq_some_iff] at h
      obtain ⟨t, ht, h⟩ := h
      obtain ⟨hmem, rfl⟩ := task?_eq_some ht
      split at h
      · cases h
      · rename_i t' hcancel
        cases h
        exact .cancelled hmem hcancel
  | stopExecution id =>
      simp only [step, Option.bind_eq_some_iff] at h
      obtain ⟨t, ht, h⟩ := h
      obtain ⟨hmem, rfl⟩ := task?_eq_some ht
      split at h
      · cases h
      · rename_i t' hstop
        cases h
        exact .stopped hmem hstop
  | cancelRun =>
      simp only [step] at h
      split at h
      · cases h
      · rename_i rows hcancel
        cases h
        exact .runCancelled hcancel
  | recover workerId stale =>
      simp only [step] at h
      cases h
      exact .recovered workerId stale

theorem step_spec {s s' : RunState} {a : RunAction} (h : step s a = some s') :
    StepSpec s s' a := by
  cases step_carries h with
  | reconcile => exact .pass (Or.inl rfl) rfl rfl
  | reviewPass => exact .pass (Or.inr rfl) rfl rfl
  | @refused t t' _ _ hmem hstart =>
      -- A session that has succeeded, or an Agent that is not active.
      obtain ⟨hqueued, hspec, hended, -⟩ := startTask_spec.1 hstart
      refine .row t t' hmem hspec rfl (.closed ?_ ?_ rfl)
      · tauto
      · tauto
  | @started t t' _ _ hmem hstart =>
      obtain ⟨hqueued, hspec, hrunning, -⟩ := startTask_spec.2 hstart
      exact .row t t' hmem hspec rfl (.started hqueued hrunning rfl)
  | @finished t workerId outcome hmem hbusy =>
      obtain ⟨hspec, hended⟩ := finishTask_spec workerId outcome t
      exact .row t _ hmem hspec rfl (.finished hbusy hended rfl)
  | @reviewed t t' approved _ hmem hreview =>
      obtain ⟨hwait, hspec, hstatus⟩ := reviewTask_ok hreview
      refine .row t t' hmem hspec rfl (.closed (by tauto) ?_ rfl)
      rw [hstatus]
      cases approved <;> simp
  | @cancelled t _ hmem hcancel =>
      obtain ⟨hqueued, rfl⟩ := cancelTask_ok hcancel
      exact .row t (cancelRow t) hmem rfl rfl (.closed (by tauto) (Or.inr (Or.inr rfl)) rfl)
  | @stopped t t' hmem hstop =>
      obtain ⟨hspec, hsame | ⟨hopen, hstatus⟩⟩ := stopExecution_ok hstop
      · -- A task that is neither queued nor running keeps its status.
        exact .row t t' hmem hspec rfl (.kept hsame rfl)
      · exact .row t t' hmem hspec rfl (.closed (by tauto) (Or.inr (Or.inr hstatus)) rfl)
  | runCancelled hcancel => exact .cancelRun hcancel rfl
  | recovered workerId stale => exact .recover workerId stale rfl rfl rfl

theorem pass_rows {s s' : RunState} {a : RunAction} (hpass : a = .reconcile ∨ a = .reviewPass)
    (hstep : step s a = some s') : s'.rows = reconcileRun s.rows := by
  rcases hpass with rfl | rfl
  · cases step_carries hstep with
    | reconcile => rfl
  · cases step_carries hstep with
    | reviewPass => rfl

/-! ## The shape of the run is invariant -/

section Shape

variable {deps : String → List String}

theorem RunShape.eq_of_id {tasks : List AgentTask} (h : RunShape deps tasks) {t u : AgentTask}
    (ht : t ∈ tasks) (hu : u ∈ tasks) (hid : t.id = u.id) : t = u := by
  obtain ⟨r, cs, hsplit⟩ := h.split
  rw [hsplit.eq] at ht hu
  -- The manager task is 0, and no child is.
  have hroot : ∀ v ∈ cs, v.id ≠ r.id := by
    intro v hv
    rw [hsplit.id]
    exact hsplit.specs.child_nonzero hv
  rcases List.mem_cons.mp ht with rfl | htc
  · rcases List.mem_cons.mp hu with rfl | huc
    · rfl
    · exact absurd hid.symm (hroot u huc)
  · rcases List.mem_cons.mp hu with rfl | huc
    · exact absurd hid (hroot t htc)
    · exact hsplit.specs.eq_of_id htc huc hid

/-- A run has one manager task. -/
theorem RunShape.eq_of_root {tasks : List AgentTask} (h : RunShape deps tasks) {t u : AgentTask}
    (ht : t ∈ tasks) (hu : u ∈ tasks) (htroot : t.parentTaskId = none)
    (huroot : u.parentTaskId = none) : t = u := by
  obtain ⟨r, cs, hsplit⟩ := h.split
  have hroot : ∀ v ∈ tasks, v.parentTaskId = none → v = r := by
    intro v hv hnone
    rw [hsplit.eq] at hv
    rcases List.mem_cons.mp hv with rfl | hv
    · rfl
    · rw [hsplit.specs.child_parent hv] at hnone
      cases hnone
  rw [hroot t ht htroot, hroot u hu huroot]

theorem children_split {rows : RunRows} {r : AgentTask} {cs : List AgentTask}
    (h : Split deps rows.tasks r cs) : rows.children = cs := by
  rw [RunRows.children, h.eq, List.filter_cons_of_neg (by simp [h.parent])]
  apply List.filter_eq_self.mpr
  intro t ht
  simp [h.specs.child_parent ht]

theorem mem_setTask {rows : RunRows} {t u : AgentTask} (h : u ∈ (rows.setTask t).tasks) :
    u = t ∨ (u ∈ rows.tasks ∧ u.id ≠ t.id) := by
  obtain ⟨v, hv, rfl⟩ := List.mem_map.mp h
  split
  · exact Or.inl rfl
  · rename_i hid
    exact Or.inr ⟨hv, hid⟩

theorem setTask_self {rows : RunRows} {t t' : AgentTask} (ht : t ∈ rows.tasks)
    (hid : t'.id = t.id) : t' ∈ (rows.setTask t').tasks :=
  List.mem_map.mpr ⟨t, ht, if_pos hid.symm⟩

theorem setTask_other {rows : RunRows} {t u : AgentTask} (hu : u ∈ rows.tasks)
    (hid : u.id ≠ t.id) : u ∈ (rows.setTask t).tasks :=
  List.mem_map.mpr ⟨u, hu, if_neg hid⟩

theorem specs_setTask {rows : RunRows} {t t' : AgentTask} (h : RunShape deps rows.tasks)
    (ht : t ∈ rows.tasks) (hspec : t'.toTaskSpec = t.toTaskSpec) :
    specs (rows.setTask t').tasks = specs rows.tasks := by
  have hid : t'.id = t.id := congrArg TaskSpec.id hspec
  -- Only `t` has the id of `t'`, and it has the specs of `t'` already.
  have hevolves : Evolves (fun u u' => u'.toTaskSpec = u.toTaskSpec) rows.tasks
      (rows.setTask t').tasks := by
    apply evolves_updateTask
    · intro u hu huid
      rw [h.eq_of_id hu ht (huid.trans hid)]
      exact hspec
    · intro u _ _
      rfl
  exact specs_of_evolves (fun _ _ hR => hR) hevolves

theorem specs_step {s s' : RunState} {a : RunAction} (h : RunShape deps s.rows.tasks)
    (hstep : step s a = some s') : specs s'.rows.tasks = specs s.rows.tasks := by
  cases step_spec hstep with
  | pass action rows workers =>
      rw [rows]
      exact specs_reconcileRun h
  | row t t' mem spec rows change =>
      rw [rows]
      exact specs_setTask h mem spec
  | cancelRun rows workers =>
      obtain ⟨-, -, -, htasks⟩ := cancelWorkflowRun_ok rows
      rw [htasks]
      apply specs_map
      intro t
      split <;> rfl
  | recover workerId stale run tasks workers =>
      rw [tasks]
      apply specs_map
      intro t
      split
      · exact (recoverTask_spec workerId t).1
      · rfl

theorem shape_step {s s' : RunState} {a : RunAction} (h : RunShape deps s.rows.tasks)
    (hstep : step s a = some s') : RunShape deps s'.rows.tasks :=
  h.congr (specs_step h hstep)

end Shape

/-! ## The shape of a submission -/

/-- Tasks numbered from 1 in the order of the items they are made of. -/
theorem childSpecs_zipIdx {α : Type} {deps : String → List String} {items : List α}
    {task : α → Nat → AgentTask} (key : α → String) (hid : ∀ a n, (task a n).id = n)
    (hparent : ∀ a n, (task a n).parentTaskId = some 0)
    (hkey : ∀ a n, (task a n).nodeKey = some (key a))
    (hdeps : ∀ a ∈ items, ∀ n, (task a n).dependsOn = deps (key a))
    (hkeys : (items.map key).Nodup) (hne : ∀ a ∈ items, key a ≠ "")
    (hknown : ∀ a ∈ items, ∀ k ∈ deps (key a), ∃ b ∈ items, key b = k) :
    ChildSpecs deps (specs ((items.zipIdx 1).map fun m => task m.1 m.2)) := by
  have hmem : ∀ t ∈ specs ((items.zipIdx 1).map fun m => task m.1 m.2),
      ∃ a ∈ items, ∃ n, 1 ≤ n ∧ t = (task a n).toTaskSpec := by
    intro t ht
    obtain ⟨u, hu, rfl⟩ := List.mem_map.mp ht
    obtain ⟨⟨a, n⟩, hm, rfl⟩ := List.mem_map.mp hu
    exact ⟨a, List.fst_mem_of_mem_zipIdx hm, n, List.le_snd_of_mem_zipIdx hm, rfl⟩
  refine ⟨?_, ?_, ?_, ?_, ?_, ?_⟩
  · intro t ht
    obtain ⟨a, -, n, -, rfl⟩ := hmem t ht
    exact hparent a n
  · intro t ht
    obtain ⟨a, -, n, hn, rfl⟩ := hmem t ht
    show (task a n).id ≠ 0
    rw [hid]
    omega
  · -- The ids are the numbers from 1 on.
    have hids : (specs ((items.zipIdx 1).map fun m => task m.1 m.2)).map TaskSpec.id =
        (items.zipIdx 1).map Prod.snd := by
      rw [specs, List.map_map, List.map_map]
      exact List.map_congr_left fun m _ => hid m.1 m.2
    rw [hids, List.zipIdx_map_snd]
    exact List.nodup_range'
  · intro t ht
    obtain ⟨a, ha, n, -, rfl⟩ := hmem t ht
    exact ⟨key a, hkey a n, hne a ha, hdeps a ha n⟩
  · -- The keys are those of the items, in their order.
    have hks : (specs ((items.zipIdx 1).map fun m => task m.1 m.2)).map TaskSpec.nodeKey =
        (items.map key).map some := by
      rw [specs, List.map_map, List.map_map, ← List.zipIdx_map_fst 1 items, List.map_map,
        List.map_map]
      rw [List.zipIdx_map_fst]
      exact List.map_congr_left fun m _ => hkey m.1 m.2
    rw [hks]
    exact hkeys.map (Option.some_injective String)
  · intro t ht k hk
    obtain ⟨a, ha, n, -, rfl⟩ := hmem t ht
    rw [hdeps a ha n] at hk
    -- The item a dependency names has a task somewhere in the list.
    obtain ⟨b, hb, rfl⟩ := hknown a ha k hk
    have hzip : b ∈ (items.zipIdx 1).map Prod.fst := by
      rw [List.zipIdx_map_fst]
      exact hb
    obtain ⟨⟨b', i⟩, hi, rfl⟩ := List.mem_map.mp hzip
    exact ⟨_, List.mem_map.mpr ⟨_, List.mem_map.mpr ⟨_, hi, rfl⟩, rfl⟩, hkey b' i⟩

theorem matchesKeyPattern_ne {key : String} (h : matchesKeyPattern key = true) : key ≠ "" := by
  rintro rfl
  simp [matchesKeyPattern] at h

/-- A manager task and its children make a run. -/
theorem shape_submitted {deps : String → List String} {plan : SubmissionPlan}
    {payload : RunRequest} {team : AgentTeam} (hroot : plan.root = managerTask payload team)
    (hchildren : ChildSpecs deps (specs plan.children)) :
    RunShape deps (plan.submitted payload).tasks := by
  have hspec : plan.finalRoot.toTaskSpec = (managerTask payload team).toTaskSpec := by
    rw [SubmissionPlan.finalRoot, hroot]
    split <;> rfl
  refine ⟨plan.finalRoot.toTaskSpec, specs plan.children, rfl, ?_, ?_, hchildren⟩
  · rw [hspec]
    rfl
  · rw [hspec]
    rfl

/-- The manager task and the children of a submitted run. -/
theorem submitted_split {deps : String → List String} {plan : SubmissionPlan} {payload : RunRequest}
    (h : RunShape deps (plan.submitted payload).tasks) :
    Split deps (plan.submitted payload).tasks plan.finalRoot plan.children := by
  obtain ⟨r, cs, hsplit⟩ := h.split
  obtain ⟨rfl, rfl⟩ := List.cons.inj hsplit.eq
  exact hsplit

theorem shape_teamRun (team : AgentTeam) (payload : RunRequest) :
    RunShape (fun _ => []) ((submitTeamRun team payload).submitted payload).tasks := by
  apply shape_submitted rfl
  -- Sorting and filtering keep the Agents of the members distinct.
  have hmembers : ((runMembers team).map TeamMember.agentId).Nodup := by
    have hperm := (List.perm_insertionSort memberLe team.members).map TeamMember.agentId
    have hsorted := hperm.nodup_iff.mpr team.distinct
    exact hsorted.sublist (List.filter_sublist.map _)
  -- Distinct Agents give distinct node keys.
  have hkeys : ((runMembers team).map fun member => "member-" ++ member.agentId).Nodup := by
    have h := hmembers.map fun a b (hab : "member-" ++ a = "member-" ++ b) =>
      String.append_right_inj _ |>.mp hab
    rwa [List.map_map] at h
  refine childSpecs_zipIdx (fun member : TeamMember => "member-" ++ member.agentId)
    (fun _ _ => rfl) (fun _ _ => rfl) (fun _ _ => rfl) (fun _ _ _ => rfl) hkeys ?_ ?_
  · intro member _ h
    simp at h
  · intro member _ k hk
    cases hk

theorem submitWorkflowRun_ok {team : AgentTeam} {nodes : List WorkflowNodeSpec}
    {payload : RunRequest} {plan : SubmissionPlan}
    (h : submitWorkflowRun team nodes payload = .ok plan) :
    nodes ≠ [] ∧ plan.root = managerTask payload team ∧ plan.rootPending = false ∧
      plan.children = (nodes.zipIdx 1).map fun n => nodeTask team payload n.1 n.2 := by
  unfold submitWorkflowRun at h
  split at h
  · cases h
  · rename_i hne
    rw [bind_eq_ok] at h
    obtain ⟨_, -, h⟩ := h
    cases h
    exact ⟨hne, rfl, rfl, rfl⟩

/-- Every child is the task of a node. -/
theorem exists_nodeTask {team : AgentTeam} {nodes : List WorkflowNodeSpec} {payload : RunRequest}
    {plan : SubmissionPlan} (h : submitWorkflowRun team nodes payload = .ok plan) {t : AgentTask}
    (ht : t ∈ plan.children) : ∃ node ∈ nodes, ∃ n, t = nodeTask team payload node n := by
  rw [(submitWorkflowRun_ok h).2.2.2] at ht
  obtain ⟨⟨node, n⟩, hm, rfl⟩ := List.mem_map.mp ht
  exact ⟨node, List.fst_mem_of_mem_zipIdx hm, n, rfl⟩

theorem initialStatus_cases (node : WorkflowNodeSpec) :
    initialStatus node = .pending ∨ initialStatus node = .humanReview ∨
      (initialStatus node = .waitingChild ∧ node.dependsOn ≠ []) := by
  unfold initialStatus
  split
  · exact Or.inr (Or.inl rfl)
  · split
    · rename_i hne
      exact Or.inr (Or.inr ⟨rfl, hne⟩)
    · exact Or.inl rfl

theorem submitWorkflowRun_active {team : AgentTeam} {nodes : List WorkflowNodeSpec}
    {payload : RunRequest} {plan : SubmissionPlan}
    (h : submitWorkflowRun team nodes payload = .ok plan) : plan.runStatus.terminal = false := by
  unfold submitWorkflowRun at h
  split at h
  · cases h
  · rw [bind_eq_ok] at h
    obtain ⟨_, -, h⟩ := h
    cases h
    simp only
    split <;> rfl

theorem shape_workflowRun {team : AgentTeam} {nodes : List WorkflowNodeSpec} {payload : RunRequest}
    {plan : SubmissionPlan} (hdag : validateWorkflowDag nodes = .ok ())
    (h : submitWorkflowRun team nodes payload = .ok plan) :
    RunShape (nodeDeps nodes) (plan.submitted payload).tasks := by
  obtain ⟨-, hroot, -, hchildren⟩ := submitWorkflowRun_ok h
  obtain ⟨hkeys, hknown, -⟩ := validateWorkflowDag_ok hdag
  apply shape_submitted hroot
  rw [hchildren]
  have hdeps := fun node (hnode : node ∈ nodes) => nodeDeps_eq hkeys hnode
  refine childSpecs_zipIdx WorkflowNodeSpec.key (fun _ _ => rfl) (fun _ _ => rfl)
    (fun _ _ => rfl) (fun node hnode _ => (hdeps node hnode).symm) hkeys
    (fun node _ => matchesKeyPattern_ne node.key_pattern) ?_
  intro node hnode k hk
  rw [hdeps node hnode] at hk
  exact hknown node hnode k hk

theorem workflowSubmitted_shape {nodes : List WorkflowNodeSpec} {s : RunState}
    (h : WorkflowSubmitted nodes s) : RunShape (nodeDeps nodes) s.rows.tasks := by
  obtain ⟨hdag, team, payload, plan, hplan, rfl⟩ := h
  exact shape_workflowRun hdag hplan

/-- Every reachable state of an accepted run has the shape of a run. -/
theorem submitted_shape {good : RunState → RunAction → Prop} {s : RunState}
    (h : (runSystem Submitted).Reachable good s) : ∃ deps, RunShape deps s.rows.tasks := by
  refine h.invariant (fun s => ∃ deps, RunShape deps s.rows.tasks) ?_ ?_
  · rintro s (⟨team, payload, rfl⟩ | ⟨nodes, hnodes⟩)
    · exact ⟨_, shape_teamRun team payload⟩
    · exact ⟨_, workflowSubmitted_shape hnodes⟩
  · rintro s a t ⟨deps, hshape⟩ - hstep
    exact ⟨deps, shape_step hshape hstep⟩

end Orchestration
end HermesPlatform
