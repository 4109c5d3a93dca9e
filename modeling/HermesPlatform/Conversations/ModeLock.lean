/-
  HermesPlatform.Conversations.ModeLock

  The conversations of a team: the runs of one team with one session id
  (`app.api.multi_agent`, `app.repositories.multi_agent`).

  `send_team_conversation_message` locks the mode of a conversation, manager or one
  workflow, by reading the mode before it inserts a run.  `run_team` and `run_workflow`
  insert into the same conversations and do not read it, and between the check and the
  insert of one message other requests may insert theirs.

  Every step is one statement of a request.  A request that fails otherwise just takes
  no further step.
-/

import HermesPlatform.Lib.Parties
import HermesPlatform.Lib.Transition
import HermesPlatform.Orchestration.Records
import Mathlib.Data.List.Nodup

namespace HermesPlatform
namespace Conversations

open Parties Transition
open Orchestration (RunStatus)

/-! ## Rows -/

/-- `created_at` is the time at which the transaction of the insert began. -/
structure WorkflowRun where
  teamId : String
  workflowId : Option String
  sessionId : String
  status : RunStatus
  createdAt : Nat
deriving DecidableEq, Repr

structure Workflow where
  id : String
  teamId : String
  active : Bool
deriving DecidableEq, Repr

def WorkflowRun.isOf (run : WorkflowRun) (teamId sessionId : String) : Bool :=
  run.teamId = teamId ∧ run.sessionId = sessionId

/-- `status IN ('pending', 'running', 'human_review')`. -/
def WorkflowRun.active (run : WorkflowRun) : Bool := !run.status.terminal

/-- The rows that the query of `conversation_mode` may return: of several that were
    created first at the same time it may be any. -/
def conversationRows (runs : List WorkflowRun) (teamId sessionId : String) :
    List (Option WorkflowRun) :=
  let rows := runs.filter (·.isOf teamId sessionId)
  if rows = [] then [none]
  else (rows.filter fun run => rows.all (run.createdAt ≤ ·.createdAt)).map some

def conversationMode (row : Option WorkflowRun) : Bool × Option String :=
  (row.isSome, row.bind WorkflowRun.workflowId)

/-- `exists and locked_workflow_id != payload.workflow_id`. -/
def modeIsLocked (mode : Bool × Option String) (workflowId : Option String) : Bool :=
  mode.1 && mode.2 != workflowId

/-- `list_runs(team_id=.., session_id=.., active_only=True)` is not empty. -/
def hasActiveRun (runs : List WorkflowRun) (teamId sessionId : String) : Bool :=
  runs.any fun run => run.isOf teamId sessionId && run.active

/-- The foreign key of a deleted workflow, `ON DELETE SET NULL`. -/
def WorkflowRun.unlink (workflowId : String) (run : WorkflowRun) : WorkflowRun :=
  if run.workflowId = some workflowId then { run with workflowId := none } else run

/-! ## Requests -/

inductive RequestStage where
  /-- `send_team_conversation_message` has found the team active. -/
  | started
  | modeChecked
  | idleChecked
  /-- Nothing is left of `send_team_conversation_message` but `submit_team_run` or
      `submit_workflow_run`. -/
  | ready
  /-- `run_workflow` has found the workflow active. -/
  | workflowRead
  /-- `run_team` or `run_workflow` has found the team active, and inserts its run. -/
  | teamRead
  | ended
deriving DecidableEq, Repr

structure RunRequest where
  teamId : String
  sessionId : String
  workflowId : Option String
  startedAt : Nat
  stage : RequestStage
  /-- The number of runs of the conversation when the request began or when it has checked the
      mode, for the statements only. -/
  runsBefore : Nat
deriving DecidableEq, Repr

/-- The clock, the active teams, the rows, the identifiers of deleted workflows, the
    requests to run, and the workflows that a deletion has found without an active run. -/
structure ConversationState where
  now : Nat
  teams : List String
  workflows : List Workflow
  deletedWorkflows : List String
  runs : List WorkflowRun
  requests : List RunRequest
  deletions : List String
deriving DecidableEq, Repr

inductive ConversationAction where
  | tick
  | setTeam (teamId : String) (active : Bool)
  | createWorkflow (workflow : Workflow)
  | setWorkflow (workflowId : String) (active : Bool)
  | setStatus (run : Nat) (status : RunStatus)
  | sendMessage (teamId sessionId : String) (workflowId : Option String)
  | checkMode (request : Nat) (row : Option WorkflowRun)
  | checkIdle (request : Nat)
  | checkWorkflow (request : Nat)
  | runTeam (teamId sessionId : String)
  | runWorkflow (workflow : Workflow) (sessionId : String)
  | checkTeam (request : Nat)
  | createRun (request : Nat)
  | checkDeletion (workflowId : String)
  | deleteWorkflow (workflowId : String)
deriving DecidableEq, Repr

def RunRequest.newRun (request : RunRequest) : WorkflowRun :=
  { teamId := request.teamId
    workflowId := request.workflowId
    sessionId := request.sessionId
    status := .pending
    createdAt := request.startedAt }

/-- The insert violates neither the unique index of active runs nor the foreign key. -/
def ConversationState.insertable (st : ConversationState) (request : RunRequest) : Bool :=
  !hasActiveRun st.runs request.teamId request.sessionId &&
    request.workflowId.all fun workflowId => st.workflows.any (·.id = workflowId)

/-- The number of runs of a conversation. -/
def ConversationState.runsOf (st : ConversationState) (teamId sessionId : String) : Nat :=
  st.runs.countP (·.isOf teamId sessionId)

def ConversationState.addRequest (st : ConversationState) (teamId sessionId : String)
    (workflowId : Option String) (stage : RequestStage) : ConversationState :=
  { st with requests := st.requests ++
      [⟨teamId, sessionId, workflowId, st.now, stage, st.runsOf teamId sessionId⟩] }

def ConversationState.withStage (st : ConversationState) (i : Nat) (request : RunRequest)
    (stage : RequestStage) : ConversationState :=
  { st with requests := st.requests.set i { request with stage := stage } }

def ConversationState.insertRun (st : ConversationState) (request : RunRequest) :
    ConversationState :=
  { st with runs := st.runs ++ [request.newRun] }

/-- The statement of the request `i`, where it stands at one of the stages. -/
def ConversationState.advance (st : ConversationState) (i : Nat) (stages : List RequestStage)
    (next : RunRequest → Option ConversationState) : Option ConversationState :=
  match st.requests[i]? with
  | some request => if request.stage ∈ stages then next request else none
  | none => none

def conversationStep (st : ConversationState) : ConversationAction → Option ConversationState
  | .tick => some { st with now := st.now + 1 }
  | .setTeam teamId active =>
      some { st with teams := if active then teamId :: st.teams else st.teams.filter (· ≠ teamId) }
  | .createWorkflow workflow =>
      -- `uuid4` gives an identifier that no workflow has or had.
      if workflow.id ∈ st.workflows.map Workflow.id ∨ workflow.id ∈ st.deletedWorkflows then none
      else some { st with workflows := st.workflows ++ [workflow] }
  | .setWorkflow workflowId active =>
      some { st with workflows := st.workflows.map fun workflow =>
        if workflow.id = workflowId then { workflow with active := active } else workflow }
  | .setStatus i status =>
      match st.runs[i]? with
      | some run => some { st with runs := st.runs.set i { run with status := status } }
      | none => none
  | .sendMessage teamId sessionId workflowId =>
      if teamId ∈ st.teams then some (st.addRequest teamId sessionId workflowId .started) else none
  | .checkMode i row =>
      st.advance i [.started] fun request =>
        if row ∈ conversationRows st.runs request.teamId request.sessionId then
          some (st.withStage i
            { request with runsBefore := st.runsOf request.teamId request.sessionId }
            (if modeIsLocked (conversationMode row) request.workflowId then .ended else .modeChecked))
        else none
  | .checkIdle i =>
      st.advance i [.modeChecked] fun request =>
        some (st.withStage i request
          (if hasActiveRun st.runs request.teamId request.sessionId then .ended else .idleChecked))
  | .checkWorkflow i =>
      st.advance i [.idleChecked] fun request =>
        some (st.withStage i request
          (if request.workflowId.all fun workflowId => st.workflows.any fun workflow =>
              workflow.id = workflowId ∧ workflow.teamId = request.teamId ∧ workflow.active
            then .ready else .ended))
  | .runTeam teamId sessionId =>
      if teamId ∈ st.teams then some (st.addRequest teamId sessionId none .teamRead) else none
  | .runWorkflow workflow sessionId =>
      if workflow ∈ st.workflows ∧ workflow.active then
        some (st.addRequest workflow.teamId sessionId (some workflow.id) .workflowRead)
      else none
  | .checkTeam i =>
      st.advance i [.workflowRead] fun request =>
        some (st.withStage i request (if request.teamId ∈ st.teams then .teamRead else .ended))
  | .createRun i =>
      st.advance i [.ready, .teamRead] fun request =>
        if st.insertable request then some ((st.withStage i request .ended).insertRun request)
        else some (st.withStage i request .ended)
  | .checkDeletion workflowId =>
      if workflowId ∈ st.workflows.map Workflow.id ∧
          ∀ run ∈ st.runs, run.workflowId = some workflowId → run.active = false then
        some { st with deletions := workflowId :: st.deletions }
      else none
  | .deleteWorkflow workflowId =>
      if workflowId ∈ st.deletions then
        some { st with
          workflows := st.workflows.filter (·.id ≠ workflowId)
          deletedWorkflows := workflowId :: st.deletedWorkflows
          runs := st.runs.map (WorkflowRun.unlink workflowId) }
      else none

/-- No request yet; the migration has given every run that was there a session of its own. -/
def ConversationState.Fresh (st : ConversationState) : Prop :=
  (st.runs.map WorkflowRun.sessionId).Nodup ∧ st.requests = [] ∧ st.deletions = []

def conversationSystem : System ConversationState ConversationAction where
  init := ConversationState.Fresh
  step := conversationStep

/-! ## The lock -/

/-- All runs of a conversation have the same workflow, or none. -/
def ModeLocked (runs : List WorkflowRun) : Prop :=
  ∀ run ∈ runs, ∀ run' ∈ runs, run.teamId = run'.teamId → run.sessionId = run'.sessionId →
    run.workflowId = run'.workflowId

/-- No run has come into the conversation of a message since it checked the mode.  `run_team` and
    `run_workflow` check nothing, so that their runs have to be of the mode of the conversation. -/
def ModeUndisputed (st : ConversationState) : ConversationAction → Prop
  | .createRun i => ∀ request ∈ st.requests[i]?, st.insertable request →
      if request.stage = .ready then st.runsOf request.teamId request.sessionId = request.runsBefore
      else ∀ run ∈ st.runs, run.isOf request.teamId request.sessionId →
        run.workflowId = request.workflowId
  | _ => True

instance (st : ConversationState) (action : ConversationAction) :
    Decidable (ModeUndisputed st action) :=
  match action with
  | .createRun i => inferInstanceAs (Decidable (∀ request ∈ st.requests[i]?, st.insertable request →
      if request.stage = .ready then st.runsOf request.teamId request.sessionId = request.runsBefore
      else ∀ run ∈ st.runs, run.isOf request.teamId request.sessionId →
        run.workflowId = request.workflowId))
  | .tick | .setTeam _ _ | .createWorkflow _ | .setWorkflow _ _ | .setStatus _ _
  | .sendMessage _ _ _ | .checkMode _ _ | .checkIdle _ | .checkWorkflow _ | .runTeam _ _
  | .runWorkflow _ _ | .checkTeam _ | .checkDeletion _ | .deleteWorkflow _ => isTrue trivial

/-! ## Rows of a conversation -/

variable {st st' : ConversationState} {runs : List WorkflowRun} {run : WorkflowRun}
  {teamId sessionId : String} {workflowId : Option String}

theorem isOf_iff : run.isOf teamId sessionId = true ↔ run.teamId = teamId ∧ run.sessionId = sessionId := by
  simp [WorkflowRun.isOf]

/-- Every row of the query is one of the conversation. -/
theorem of_mem_conversationRows (h : some run ∈ conversationRows runs teamId sessionId) :
    run ∈ runs ∧ run.isOf teamId sessionId = true := by
  simp only [conversationRows] at h
  split at h
  · simp at h
  · obtain ⟨row, hrow, hsome⟩ := List.mem_map.1 h
    cases hsome
    exact List.mem_filter.1 (List.mem_filter.1 hrow).1

theorem modeIsLocked_some :
    modeIsLocked (conversationMode (some run)) workflowId = false ↔ run.workflowId = workflowId := by
  simp [modeIsLocked, conversationMode]

/-- Where the lock holds, the check speaks about every run of the conversation. -/
theorem ModeLocked.workflowId_eq (hlocked : ModeLocked runs) {row : Option WorkflowRun}
    (hrow : row ∈ conversationRows runs teamId sessionId)
    (hcheck : modeIsLocked (conversationMode row) workflowId = false)
    (hrun : run ∈ runs) (hof : run.isOf teamId sessionId = true) : run.workflowId = workflowId := by
  cases row with
  | none =>
      have hne : runs.filter (·.isOf teamId sessionId) ≠ [] :=
        List.ne_nil_of_mem (List.mem_filter.2 ⟨hrun, hof⟩)
      rw [conversationRows, if_neg hne] at hrow
      obtain ⟨first, -, hnone⟩ := List.mem_map.1 hrow
      cases hnone
  | some first =>
      obtain ⟨hfirst, hfirstOf⟩ := of_mem_conversationRows hrow
      obtain ⟨hteam, hsession⟩ := isOf_iff.1 hof
      obtain ⟨hteam', hsession'⟩ := isOf_iff.1 hfirstOf
      calc
        run.workflowId = first.workflowId :=
          hlocked run hrun first hfirst (hteam.trans hteam'.symm) (hsession.trans hsession'.symm)
        _ = workflowId := modeIsLocked_some.1 hcheck

/-! ## Steps on the rows -/

/-- The rows of `runs'` are rows of `runs` with some columns changed; the workflow of a row
    becomes what `f` makes of it. -/
theorem ModeLocked.of_rows {runs' : List WorkflowRun} (f : Option String → Option String)
    (hlocked : ModeLocked runs)
    (hrows : ∀ run' ∈ runs', ∃ run ∈ runs, run'.teamId = run.teamId ∧
      run'.sessionId = run.sessionId ∧ run'.workflowId = f run.workflowId) : ModeLocked runs' := by
  intro first hfirst second hsecond hteam hsession
  obtain ⟨row, hrow, hteam₁, hsession₁, hworkflow₁⟩ := hrows first hfirst
  obtain ⟨row', hrow', hteam₂, hsession₂, hworkflow₂⟩ := hrows second hsecond
  have hsame : row.workflowId = row'.workflowId :=
    hlocked row hrow row' hrow' (by rw [← hteam₁, hteam, hteam₂])
      (by rw [← hsession₁, hsession, hsession₂])
  rw [hworkflow₁, hworkflow₂, hsame]

theorem WorkflowRun.unlink_workflowId (deleted : String) (run : WorkflowRun) :
    (run.unlink deleted).workflowId = if run.workflowId = some deleted then none else run.workflowId := by
  rw [WorkflowRun.unlink]
  split <;> rfl

theorem WorkflowRun.unlink_isOf (deleted : String) (run : WorkflowRun) :
    (run.unlink deleted).isOf teamId sessionId = run.isOf teamId sessionId := by
  rw [WorkflowRun.unlink]
  split <;> rfl

theorem ModeLocked.unlink (hlocked : ModeLocked runs) (deleted : String) :
    ModeLocked (runs.map (WorkflowRun.unlink deleted)) := by
  refine hlocked.of_rows (fun workflowId => if workflowId = some deleted then none else workflowId) ?_
  intro run' hrun'
  obtain ⟨run, hrun, rfl⟩ := List.mem_map.1 hrun'
  refine ⟨run, hrun, ?_, ?_, run.unlink_workflowId deleted⟩
  · rw [WorkflowRun.unlink]
    split <;> rfl
  · rw [WorkflowRun.unlink]
    split <;> rfl

theorem ModeLocked.setStatus (hlocked : ModeLocked runs) {i : Nat} (hi : runs[i]? = some run)
    (status : RunStatus) : ModeLocked (runs.set i { run with status := status }) := by
  refine hlocked.of_rows id ?_
  intro run' hrun'
  obtain hold | hnew := List.mem_or_eq_of_mem_set hrun'
  · exact ⟨run', hold, rfl, rfl, rfl⟩
  · exact ⟨run, List.mem_of_getElem? hi, by rw [hnew], by rw [hnew], by rw [hnew]; rfl⟩

theorem ModeLocked.insert (hlocked : ModeLocked runs)
    (hsame : ∀ other ∈ runs, other.isOf run.teamId run.sessionId = true →
      other.workflowId = run.workflowId) : ModeLocked (runs ++ [run]) := by
  intro first hfirst second hsecond hteam hsession
  obtain hold | hnew := List.mem_append.1 hfirst <;>
    obtain hold' | hnew' := List.mem_append.1 hsecond
  · exact hlocked first hold second hold' hteam hsession
  · rw [List.mem_singleton.1 hnew'] at hteam hsession ⊢
    exact hsame first hold (isOf_iff.2 ⟨hteam, hsession⟩)
  · rw [List.mem_singleton.1 hnew] at hteam hsession ⊢
    exact (hsame second hold' (isOf_iff.2 ⟨hteam.symm, hsession.symm⟩)).symm
  · rw [List.mem_singleton.1 hnew, List.mem_singleton.1 hnew']

/-! ## Steps -/

theorem advance_eq_some {i : Nat} {stages : List RequestStage}
    {next : RunRequest → Option ConversationState} (h : st.advance i stages next = some st') :
    ∃ request, st.requests[i]? = some request ∧ request.stage ∈ stages ∧
      next request = some st' := by
  rw [ConversationState.advance] at h
  split at h
  next request hrequest =>
    split at h
    next hstage => exact ⟨request, hrequest, hstage, h⟩
    next => cases h
  next => cases h

/-- What a step may do to the rows. -/
inductive RunsStep (st : ConversationState) : ConversationAction → List WorkflowRun → Prop where
  | same (action : ConversationAction) : RunsStep st action st.runs
  | status {i : Nat} {run : WorkflowRun} (hrun : st.runs[i]? = some run) (status : RunStatus) :
      RunsStep st (.setStatus i status) (st.runs.set i { run with status := status })
  | insert {i : Nat} {request : RunRequest} (hrequest : st.requests[i]? = some request)
      (hinsertable : st.insertable request = true) :
      RunsStep st (.createRun i) (st.runs ++ [request.newRun])
  | unlink (deleted : String) :
      RunsStep st (.deleteWorkflow deleted) (st.runs.map (WorkflowRun.unlink deleted))

/-- The rows after a step of a request that only moves on. -/
theorem RunsStep.ofAdvance {action : ConversationAction} {i : Nat} {stages : List RequestStage}
    {next : RunRequest → RequestStage}
    (h : (st.advance i stages fun request => some (st.withStage i request (next request))) = some st') :
    RunsStep st action st'.runs := by
  obtain ⟨request, -, -, h⟩ := advance_eq_some h
  cases h
  exact .same action

theorem conversationStep_runs {action : ConversationAction}
    (h : conversationStep st action = some st') : RunsStep st action st'.runs := by
  cases action with
  | tick | setTeam | setWorkflow =>
      cases h
      exact .same _
  | createWorkflow | sendMessage | runTeam | runWorkflow | checkDeletion =>
      simp only [conversationStep] at h
      split at h <;> cases h
      exact .same _
  | setStatus i status =>
      simp only [conversationStep] at h
      split at h
      next run hrun =>
        cases h
        exact .status hrun status
      next => cases h
  | checkMode i row =>
      obtain ⟨request, -, -, h⟩ := advance_eq_some h
      split at h <;> cases h
      exact .same _
  | checkIdle i => exact .ofAdvance h
  | checkWorkflow i => exact .ofAdvance h
  | checkTeam i => exact .ofAdvance h
  | createRun i =>
      obtain ⟨request, hrequest, -, h⟩ := advance_eq_some h
      split at h <;> cases h
      next hinsertable => exact .insert hrequest hinsertable
      next => exact .same _
  | deleteWorkflow workflowId =>
      simp only [conversationStep] at h
      split at h <;> cases h
      exact .unlink workflowId

/-- No run leaves a conversation. -/
theorem runsOf_mono {action : ConversationAction} (h : conversationStep st action = some st')
    (teamId sessionId : String) : st.runsOf teamId sessionId ≤ st'.runsOf teamId sessionId := by
  have hstep := conversationStep_runs h
  rw [ConversationState.runsOf, ConversationState.runsOf]
  generalize st'.runs = runs' at hstep ⊢
  cases hstep with
  | same => exact Nat.le_refl _
  | @status i run hrun status =>
      have hcount := countP_set (·.isOf teamId sessionId) hrun { run with status := status }
      have hof : ({ run with status := status } : WorkflowRun).isOf teamId sessionId =
        run.isOf teamId sessionId := rfl
      rw [hof] at hcount
      omega
  | insert _ _ =>
      rw [List.countP_append]
      omega
  | unlink deleted =>
      -- Unlinked runs stay in their conversation.
      rw [List.countP_map]
      refine Nat.le_of_eq (List.countP_congr fun run _ => ?_)
      rw [Function.comp_apply, WorkflowRun.unlink_isOf]

/-! ## Messages -/

def ConversationState.gone (st : ConversationState) (workflowId : String) : Prop :=
  workflowId ∈ st.deletedWorkflows ∧ workflowId ∉ st.workflows.map Workflow.id

/-- The identifier of a deleted workflow is not used again. -/
theorem gone_step {action : ConversationAction} {deleted : String} (hgone : st.gone deleted)
    (h : conversationStep st action = some st') : st'.gone deleted := by
  cases action with
  | tick | setTeam =>
      cases h
      exact hgone
  | setWorkflow workflowId active =>
      cases h
      refine ⟨hgone.1, ?_⟩
      rw [List.map_map]
      convert hgone.2 using 3
      funext workflow
      dsimp only [Function.comp]
      split <;> rfl
  | createWorkflow workflow =>
      simp only [conversationStep, Option.ite_none_left_eq_some, Option.some.injEq] at h
      obtain ⟨hnew, rfl⟩ := h
      -- `uuid4` does not give an identifier again.
      refine ⟨hgone.1, ?_⟩
      rw [List.map_append, List.mem_append, not_or]
      refine ⟨hgone.2, ?_⟩
      intro hid
      rw [List.map_singleton, List.mem_singleton] at hid
      exact hnew (Or.inr (hid ▸ hgone.1))
  | sendMessage | runTeam | runWorkflow | checkDeletion =>
      simp only [conversationStep] at h
      split at h <;> cases h
      exact hgone
  | setStatus i status =>
      simp only [conversationStep] at h
      split at h <;> cases h
      exact hgone
  | checkMode i row =>
      obtain ⟨request, -, -, h⟩ := advance_eq_some h
      split at h <;> cases h
      exact hgone
  | checkIdle i | checkWorkflow i | checkTeam i =>
      obtain ⟨request, -, -, h⟩ := advance_eq_some h
      cases h
      exact hgone
  | createRun i =>
      obtain ⟨request, -, -, h⟩ := advance_eq_some h
      split at h <;> cases h <;> exact hgone
  | deleteWorkflow workflowId =>
      simp only [conversationStep] at h
      split at h <;> cases h
      refine ⟨List.mem_cons_of_mem _ hgone.1, ?_⟩
      intro hid
      obtain ⟨workflow, hworkflow, rfl⟩ := List.mem_map.1 hid
      exact hgone.2 (List.mem_map_of_mem (List.mem_filter.1 hworkflow).1)

/-- The runs of the conversation are in the mode `workflowId`, which a deletion may since
    have turned into the manager mode. -/
def ConversationState.InMode (st : ConversationState) (teamId sessionId : String)
    (workflowId : Option String) : Prop :=
  ∀ run ∈ st.runs, run.isOf teamId sessionId = true →
    run.workflowId = workflowId ∨
      run.workflowId = none ∧ ∃ deleted, workflowId = some deleted ∧ st.gone deleted

/-- Deletions never reuse or revive a workflow, so a mode stays until another run comes in. -/
theorem ConversationState.InMode.step {action : ConversationAction}
    (hmode : st.InMode teamId sessionId workflowId)
    (hcount : st'.runsOf teamId sessionId = st.runsOf teamId sessionId)
    (h : conversationStep st action = some st') :
    st'.InMode teamId sessionId workflowId := by
  have hkeep : ∀ run ∈ st.runs, run.isOf teamId sessionId = true →
      run.workflowId = workflowId ∨
        run.workflowId = none ∧ ∃ deleted, workflowId = some deleted ∧ st'.gone deleted := by
    intro run hrun hof
    obtain hsame | ⟨hnone, deleted, hdeleted, hgone⟩ := hmode run hrun hof
    · exact Or.inl hsame
    · exact Or.inr ⟨hnone, deleted, hdeleted, gone_step hgone h⟩
  intro run' hrun' hof'
  have hstep := conversationStep_runs h
  cases action with
  | createRun i =>
      rw [ConversationState.runsOf, ConversationState.runsOf] at hcount
      generalize st'.runs = runs' at hstep hrun' hcount
      cases hstep with
      | same => exact hkeep run' hrun' hof'
      | insert hrequest hinsertable =>
          obtain hold | hnew := List.mem_append.1 hrun'
          · exact hkeep run' hold hof'
          · -- A new run of the conversation would change their number.
            obtain rfl := List.mem_singleton.1 hnew
            rw [List.countP_append, List.countP_singleton, if_pos hof'] at hcount
            omega
  | setStatus i status =>
      generalize st'.runs = runs' at hstep hrun'
      cases hstep with
      | same => exact hkeep run' hrun' hof'
      | @status _ run hrun status =>
          obtain hold | hnew := List.mem_or_eq_of_mem_set hrun'
          · exact hkeep run' hold hof'
          · rw [hnew] at hof' ⊢
            exact hkeep run (List.mem_of_getElem? hrun) hof'
  | deleteWorkflow deleted =>
      simp only [conversationStep] at h
      split at h <;> cases h
      obtain ⟨run, hrun, rfl⟩ := List.mem_map.1 hrun'
      rw [WorkflowRun.unlink_isOf] at hof'
      rw [WorkflowRun.unlink_workflowId]
      split
      next hdeleted =>
        -- The foreign key of the run is set to null: this is the mode that is gone.
        obtain hsame | ⟨hnone, _⟩ := hkeep run hrun hof'
        · refine Or.inr ⟨rfl, deleted, hsame.symm.trans hdeleted, List.mem_cons_self, ?_⟩
          intro hid
          obtain ⟨workflow, hworkflow, hid⟩ := List.mem_map.1 hid
          exact of_decide_eq_true (List.mem_filter.1 hworkflow).2 hid
        · rw [hnone] at hdeleted
          cases hdeleted
      next => exact hkeep run hrun hof'
  | tick | setTeam | createWorkflow | setWorkflow | sendMessage | checkMode | checkIdle
  | checkWorkflow | runTeam | runWorkflow | checkTeam | checkDeletion =>
      generalize st'.runs = runs' at hstep hrun'
      cases hstep
      exact hkeep run' hrun' hof'

/-- A message that has checked the mode, and not inserted its run. -/
def RequestStage.checked (stage : RequestStage) : Bool :=
  stage = .modeChecked ∨ stage = .idleChecked ∨ stage = .ready

/-- The request has checked the mode before the step, or passes the check in it. -/
inductive Checked (st st' : ConversationState) (request' : RunRequest) : Prop where
  | before {request : RunRequest} (hrequest : request ∈ st.requests)
      (hchecked : request.stage.checked = true) (stage : RequestStage)
      (heq : request' = { request with stage := stage })
  | now (hruns : st'.runs = st.runs)
      (hbefore : request'.runsBefore = st.runsOf request'.teamId request'.sessionId)
      {row : Option WorkflowRun}
      (hrow : row ∈ conversationRows st.runs request'.teamId request'.sessionId)
      (hcheck : modeIsLocked (conversationMode row) request'.workflowId = false)

theorem checked_of_step {action : ConversationAction} (h : conversationStep st action = some st')
    {request' : RunRequest} (hmem : request' ∈ st'.requests)
    (hchecked : request'.stage.checked = true) : Checked st st' request' := by
  have hkeep : request' ∈ st.requests → Checked st st' request' := fun hold =>
    .before hold hchecked request'.stage rfl
  have hadd : ∀ {new : RunRequest}, new.stage.checked = false →
      request' ∈ st.requests ++ [new] → Checked st st' request' := by
    intro new hnew hin
    obtain hold | hin := List.mem_append.1 hin
    · exact hkeep hold
    · rw [List.mem_singleton.1 hin, hnew] at hchecked
      cases hchecked
  -- A request that moves on to a stage behind the check comes from one.
  have hmove : ∀ {i : Nat} {request : RunRequest} {stage : RequestStage},
      st.requests[i]? = some request → (stage.checked = true → request.stage.checked = true) →
      request' ∈ st.requests.set i { request with stage := stage } → Checked st st' request' := by
    intro i request stage hget hbefore hin
    obtain hold | rfl := List.mem_or_eq_of_mem_set hin
    · exact hkeep hold
    · exact .before (List.mem_of_getElem? hget) (hbefore hchecked) stage rfl
  cases action with
  | tick | setTeam | setWorkflow =>
      cases h
      exact hkeep hmem
  | createWorkflow | checkDeletion | deleteWorkflow | setStatus =>
      simp only [conversationStep] at h
      split at h <;> cases h
      exact hkeep hmem
  | sendMessage | runTeam | runWorkflow =>
      simp only [conversationStep] at h
      split at h <;> cases h
      exact hadd rfl hmem
  | checkMode i row =>
      obtain ⟨request, hget, -, h⟩ := advance_eq_some h
      split at h <;> cases h
      next hrow =>
        obtain hold | rfl := List.mem_or_eq_of_mem_set hmem
        · exact hkeep hold
        · refine .now rfl rfl hrow ?_
          by_contra hlocked
          rw [Bool.not_eq_false] at hlocked
          simp only [hlocked] at hchecked
          cases hchecked
  | checkIdle i =>
      obtain ⟨request, hget, hstage, h⟩ := advance_eq_some h
      cases h
      rw [List.mem_singleton] at hstage
      exact hmove hget (fun _ => by rw [hstage]; rfl) hmem
  | checkWorkflow i =>
      obtain ⟨request, hget, hstage, h⟩ := advance_eq_some h
      cases h
      rw [List.mem_singleton] at hstage
      exact hmove hget (fun _ => by rw [hstage]; rfl) hmem
  | checkTeam i =>
      obtain ⟨request, hget, -, h⟩ := advance_eq_some h
      cases h
      refine hmove hget (fun hafter => ?_) hmem
      split at hafter <;> cases hafter
  | createRun i =>
      obtain ⟨request, hget, -, h⟩ := advance_eq_some h
      split at h <;> cases h <;> exact hmove hget (fun hafter => by cases hafter) hmem

/-- The lock, and what is known of a message between its check and its insert: the mode that it
    has checked, while no run comes in. -/
structure LockInv (st : ConversationState) : Prop where
  locked : ModeLocked st.runs
  runsBefore : ∀ request ∈ st.requests, request.stage.checked = true →
    request.runsBefore ≤ st.runsOf request.teamId request.sessionId
  inMode : ∀ request ∈ st.requests, request.stage.checked = true →
    st.runsOf request.teamId request.sessionId = request.runsBefore →
    st.InMode request.teamId request.sessionId request.workflowId

namespace LockInv

theorem fresh (h : st.Fresh) : LockInv st := by
  obtain ⟨hsessions, hrequests, -⟩ := h
  have hnone : ∀ {P : RunRequest → Prop}, ∀ request ∈ st.requests, P request := by
    intro P request hrequest
    rw [hrequests] at hrequest
    cases hrequest
  refine ⟨?_, hnone, hnone⟩
  intro run hrun run' hrun' _ hsession
  rw [List.inj_on_of_nodup_map hsessions hrun hrun' hsession]

/-- The foreign key refuses a workflow that has been deleted, so the run of a message is in the
    mode that has been checked. -/
theorem workflowId_eq (h : LockInv st) {i : Nat} {request : RunRequest}
    (hrequest : st.requests[i]? = some request) (hinsertable : st.insertable request = true)
    (hok : ModeUndisputed st (.createRun i)) :
    ∀ run ∈ st.runs, run.isOf request.teamId request.sessionId = true →
      run.workflowId = request.workflowId := by
  have hundisputed := hok request hrequest hinsertable
  by_cases hstage : request.stage = .ready
  · rw [if_pos hstage] at hundisputed
    have hmode := h.inMode request (List.mem_of_getElem? hrequest) (by rw [hstage]; rfl) hundisputed
    intro run hrun hof
    obtain hsame | ⟨-, deleted, hdeleted, -, hgone⟩ := hmode run hrun hof
    · exact hsame
    · have hkey := (Bool.and_eq_true_iff.1 hinsertable).2
      rw [hdeleted, Option.all_some, List.any_eq_true] at hkey
      obtain ⟨workflow, hworkflow, hid⟩ := hkey
      exact absurd (of_decide_eq_true hid ▸ List.mem_map_of_mem hworkflow) hgone
  · rwa [if_neg hstage] at hundisputed

theorem lockedAfter {action : ConversationAction} (h : LockInv st)
    (hok : ModeUndisputed st action) (hstep : conversationStep st action = some st') :
    ModeLocked st'.runs := by
  have hruns := conversationStep_runs hstep
  generalize st'.runs = runs' at hruns ⊢
  cases hruns with
  | same => exact h.locked
  | status hrun status => exact h.locked.setStatus hrun status
  | insert hrequest hinsertable =>
      exact h.locked.insert (h.workflowId_eq hrequest hinsertable hok)
  | unlink deleted => exact h.locked.unlink deleted

/-- **Step lemma.** -/
theorem step {action : ConversationAction} (h : LockInv st) (hok : ModeUndisputed st action)
    (hstep : conversationStep st action = some st') : LockInv st' where
  locked := h.lockedAfter hok hstep
  runsBefore := by
    intro request' hmem hchecked
    have hmono := runsOf_mono hstep request'.teamId request'.sessionId
    cases checked_of_step hstep hmem hchecked with
    | @before request hrequest hbefore stage heq =>
        subst heq
        exact Nat.le_trans (h.runsBefore request hrequest hbefore) hmono
    | now hruns hbefore hrow hcheck => exact hbefore ▸ hmono
  inMode := by
    intro request' hmem hchecked hcount
    have hmono := runsOf_mono hstep request'.teamId request'.sessionId
    cases checked_of_step hstep hmem hchecked with
    | @before request hrequest hbefore stage heq =>
        subst heq
        -- No run has come in since the check, so none in this step.
        have hbound := Nat.le_trans (Nat.le_of_eq hcount) (h.runsBefore request hrequest hbefore)
        have hsame := Nat.le_antisymm hbound hmono
        exact (h.inMode request hrequest hbefore (hsame.symm.trans hcount)).step hsame hstep
    | now hruns hbefore hrow hcheck =>
        have hmode : st.InMode request'.teamId request'.sessionId request'.workflowId :=
          fun run hrun hof => .inl (h.locked.workflowId_eq hrow hcheck hrun hof)
        exact hmode.step (hcount.trans hbefore) hstep

end LockInv

/-! ## Results -/

/-- **The mode lock.**  If no run comes into a conversation between the check and the insert of a
    message, and the endpoints without a check insert in the mode of the conversation, then all
    runs of a conversation have the same workflow. -/
theorem conversation_mode_locked (h : conversationSystem.Reachable ModeUndisputed st) :
    ModeLocked st.runs :=
  (h.invariant LockInv (fun _ hfresh => LockInv.fresh hfresh)
    fun _ _ _ hinv hok hstep => hinv.step hok hstep).locked

/-! ## Runs -/

/-- One team with one workflow. -/
def quietTeam : ConversationState :=
  { now := 0
    teams := ["team-1"]
    workflows := [⟨"workflow-1", "team-1", true⟩]
    deletedWorkflows := []
    runs := []
    requests := []
    deletions := [] }

theorem quietTeam_fresh : quietTeam.Fresh := ⟨List.nodup_nil, rfl, rfl⟩

/-- `run_team` and then `run_workflow`, with the default session id. -/
def directRuns : List ConversationAction :=
  [.runTeam "team-1" "multi-agent", .createRun 0, .setStatus 0 .succeeded,
    .runWorkflow ⟨"workflow-1", "team-1", true⟩ "multi-agent", .checkTeam 1, .createRun 1]

theorem direct_runs_break_mode_lock :
    ∃ st, conversationSystem.Reachable System.anyStep st ∧ ¬ ModeLocked st.runs := by
  refine ⟨_, ⟨quietTeam, quietTeam_fresh, System.path_of_exec directRuns rfl⟩, ?_⟩
  intro hlocked
  exact absurd (hlocked ⟨"team-1", none, "multi-agent", .succeeded, 0⟩ (by decide)
    ⟨"team-1", some "workflow-1", "multi-agent", .pending, 0⟩ (by decide) rfl rfl) (by decide)

/-- Two first messages: the second has read the mode before the first inserts its run,
    and looks for an active run after that run has ended. -/
example :
    (conversationSystem.exec quietTeam
      [.sendMessage "team-1" "chat" none, .sendMessage "team-1" "chat" (some "workflow-1"),
        .checkMode 0 none, .checkMode 1 none, .checkIdle 0, .checkWorkflow 0, .createRun 0,
        .setStatus 0 .failed, .checkIdle 1, .checkWorkflow 1, .createRun 1]).map
      (fun st => st.runs.map WorkflowRun.workflowId) = some [none, some "workflow-1"] := rfl

/-- Two messages of one conversation, the second after the first run has ended. -/
def secondMessage : List ConversationAction :=
  [.sendMessage "team-1" "chat" none, .checkMode 0 none, .checkIdle 0, .checkWorkflow 0, .createRun 0,
    .setStatus 0 .succeeded, .tick, .sendMessage "team-1" "chat" none,
    .checkMode 1 (some ⟨"team-1", none, "chat", .succeeded, 0⟩), .checkIdle 1, .checkWorkflow 1,
    .createRun 1]

theorem conversation_mode_locked_messages :
    ∃ st, conversationSystem.Reachable ModeUndisputed st ∧ st.runs.length = 2 ∧ ModeLocked st.runs := by
  have hrun : conversationSystem.Reachable ModeUndisputed _ :=
    ⟨quietTeam, quietTeam_fresh, System.path_of_allowed secondMessage (by decide) rfl⟩
  exact ⟨_, hrun, rfl, conversation_mode_locked hrun⟩

end Conversations
end HermesPlatform
