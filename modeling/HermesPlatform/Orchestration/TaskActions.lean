/-
  HermesPlatform.Orchestration.TaskActions

  What workers and requests do to the row of a task: the start and the end of
  `AgentWorker._execute`, `AgentWorker._recover`, and the requests
  `review_human_task`, `cancel_task`, `stop_execution` and
  `cancel_workflow_run`.

  A worker's run of a task is summed up in an `Outcome`; the end of `_execute`
  combines it with the row as it is then, since `execute_agent_sync` and the
  failure path read parts of it again.
-/

import HermesPlatform.Lib.Python
import HermesPlatform.Orchestration.Records

namespace HermesPlatform
namespace Orchestration

open Python

/-! ## Workers -/

/-- `_terminal_failure`. -/
def terminalFailure (message : String) (t : AgentTask) : AgentTask :=
  { t.setSessionStatus .failed with
    status := .failed
    error := some (truncate message)
    execution := t.execution.map fun e =>
      { e with status := .failed, error := some (truncate message) } }

/-- The first transaction of `_execute`. -/
inductive Start where
  /-- The task is not queued, and the worker drops it. -/
  | ignored
  /-- The task ends without a run. -/
  | finished (t : AgentTask)
  | started (t : AgentTask)

def startTask (workerId : String) (agentActive : Bool) (t : AgentTask) : Start :=
  if ¬ (t.status = .pending ∨ t.status = .retrying) then .ignored
  -- An earlier worker has stored the result and died before the end.
  else if t.session.status = .succeeded then
    .finished { t with status := .succeeded, error := none, workerId := some workerId }
  else if agentActive = false then .finished (terminalFailure "Agent is unavailable" t)
  else .started
    { t.setSessionStatus .running with
      status := .running
      attempt := t.attempt + 1
      workerId := some workerId
      error := none
      execution := t.execution.map fun e => { e with status := .running, error := none } }

/-- How a worker's run of a task ends. -/
inductive Outcome where
  | succeeded (output : String)
  /-- An exception other than a cancellation of the Runtime. -/
  | failed (message : String)
  /-- The Runtime reports a cancellation. -/
  | cancelled
  /-- The Agent Version cannot be used. -/
  | unavailable (message : String)
deriving DecidableEq, Repr

def AgentTask.executionStatus (t : AgentTask) : Option WorkStatus :=
  t.execution.map ExecutionLog.status

/-- `_cancel_execution`, then `_cancel_task` unless the task is cancelled. -/
def finishCancelled (t : AgentTask) : AgentTask :=
  let t := { t.setSessionStatus .cancelled with
    execution := t.execution.map fun e => { e with status := .cancelled, error := none } }
  if t.status = .cancelled then t else { t with status := .cancelled, error := none }

/-- `_fail_execution`: nothing for a cancelled execution. -/
def failExecution (message : String) (t : AgentTask) : AgentTask :=
  if t.executionStatus = some .cancelled then t
  else { t.setSessionStatus .failed with
    execution := t.execution.map fun e =>
      { e with status := .failed, error := some (truncate message) } }

/-- The `except` clause of `_execute`: a retry, or the end of the task. -/
def finishFailed (message : String) (t : AgentTask) : AgentTask :=
  -- `execute_agent_sync` has failed the execution before it raised.
  let t := failExecution message t
  -- The row is locked and read again here.
  if t.status = .cancelled then t
  else if t.attempt < t.maxAttempts then
    { t.setSessionStatus .queued with
      status := .retrying
      error := some message
      workerId := none
      execution := t.execution.map fun e =>
        { e with status := .queued, error := some message } }
  else terminalFailure message t

/-- `_complete_execution`: the commit of `execute_agent_sync` for a result. -/
def deliverOutput (output : String) (t : AgentTask) : AgentTask :=
  { t with
    session := { t.session with status := .succeeded, output := some output }
    execution := t.execution.map fun e =>
      { e with status := .succeeded, output := some output } }

/-- The end of `_execute` on the row as it is then.  A success does not read the
    status of the task again, only that of the execution. -/
def finishTask (workerId : String) (outcome : Outcome) (t : AgentTask) : AgentTask :=
  match outcome with
  | .succeeded output =>
      if t.executionStatus = some .cancelled then finishCancelled t
      else
        { deliverOutput output t with
          status := .succeeded
          error := none
          workerId := some workerId }
  | .failed message => finishFailed message t
  | .cancelled => finishCancelled t
  | .unavailable message => terminalFailure message t

/-- Body of the loop of `_recover` over the stale running tasks. -/
def recoverTask (workerId : String) (t : AgentTask) : AgentTask :=
  if t.session.status = .succeeded then
    { t with status := .succeeded, error := none, workerId := some workerId }
  else
    let retry := decide (t.attempt < t.maxAttempts)
    let work : WorkStatus := if retry then .queued else .failed
    { t.setSessionStatus work with
      status := if retry then .retrying else .failed
      workerId := none
      error := some "worker lease expired"
      execution := t.execution.map fun e =>
        { e with status := work, error := some "worker lease expired" } }

/-- The rows after `_recover`; `stale` tells which running tasks are past the
    lease time. -/
def recoverTasks (workerId : String) (stale : Nat → Bool) (tasks : List AgentTask) :
    List AgentTask :=
  tasks.map fun t =>
    if t.status = .running ∧ stale t.id = true then recoverTask workerId t else t

/-! ## Requests -/

structure HttpError where
  statusCode : Nat
  detail : String
deriving DecidableEq, Repr

/-- The first transaction of `review_human_task`. -/
def reviewTask (approved : Bool) (note : Option String) (t : AgentTask) :
    Except HttpError AgentTask :=
  if t.status ≠ .humanReview then .error ⟨409, "task is not waiting for human review"⟩
  else
    let error := if approved then none else some ((truthy note).getD "human review rejected")
    let output := (truthy note).getD (if approved then "approved" else "rejected")
    let work : WorkStatus := if approved then .succeeded else .failed
    .ok
      { t with
        status := if approved then .succeeded else .failed
        error := error
        session := { t.session with status := work, output := some output }
        execution := t.execution.map fun e =>
          { e with
            status := work
            output := if approved then some output else none
            error := error } }

/-- A task that a request cancels, with its session and its execution. -/
def cancelRow (t : AgentTask) : AgentTask :=
  { ((t.setSessionStatus .cancelled).setExecutionStatus .cancelled) with status := .cancelled }

/-- `cancel_task`. -/
def cancelTask (t : AgentTask) : Except HttpError AgentTask :=
  if ¬ (t.status = .pending ∨ t.status = .retrying) then
    .error ⟨409, "only queued tasks can be cancelled"⟩
  else .ok (cancelRow t)

/-- `stop_execution` of the execution of the task. -/
def stopExecution (t : AgentTask) : Except HttpError AgentTask :=
  if t.executionStatus ≠ some .running then
    .error ⟨409, "only running executions can be stopped"⟩
  else
    -- The session and the execution stop whatever the task does.
    let stopped := { t.setSessionStatus .cancelled with
      execution := t.execution.map fun e => { e with status := .cancelled, error := none } }
    if t.status = .pending ∨ t.status = .retrying ∨ t.status = .running then
      .ok { stopped with status := .cancelled, error := none }
    else .ok stopped

/-- The tasks `cancel_workflow_run` cancels. -/
def TaskStatus.cancellable : TaskStatus → Bool
  | .pending | .retrying | .waitingChild | .humanReview => true
  | _ => false

/-- `cancel_workflow_run`. -/
def cancelWorkflowRun (rows : RunRows) : Except HttpError RunRows :=
  if rows.run.status.terminal = true then .error ⟨409, "Workflow Run is already terminal"⟩
  else if rows.tasks.any fun t => t.status = .running then
    .error ⟨409, "running Runtime tasks must finish before this Run can be cancelled safely"⟩
  else .ok
    { run := { rows.run with status := .cancelled }
      tasks := rows.tasks.map fun t => if t.status.cancellable then cancelRow t else t }

/-! ## What they do to the status -/

theorem finishCancelled_spec (t : AgentTask) :
    (finishCancelled t).toTaskSpec = t.toTaskSpec ∧ (finishCancelled t).status = .cancelled := by
  simp only [finishCancelled]
  split
  · rename_i h
    exact ⟨rfl, h⟩
  · exact ⟨rfl, rfl⟩

theorem failExecution_spec (message : String) (t : AgentTask) :
    (failExecution message t).toTaskSpec = t.toTaskSpec ∧
      (failExecution message t).status = t.status ∧
      (failExecution message t).attempt = t.attempt := by
  unfold failExecution
  split
  · exact ⟨rfl, rfl, rfl⟩
  · exact ⟨rfl, rfl, rfl⟩

/-- The failure path: a cancelled task stays cancelled, any other is retried
    while it has attempts left. -/
theorem finishFailed_spec (message : String) (t : AgentTask) :
    (finishFailed message t).toTaskSpec = t.toTaskSpec ∧
      (finishFailed message t).attempt = t.attempt ∧
      (finishFailed message t).status =
        if t.status = .cancelled then .cancelled
        else if t.attempt < t.maxAttempts then .retrying else .failed := by
  obtain ⟨hspec, hstatus, hattempt⟩ := failExecution_spec message t
  -- The limit the row is tested against is the one it had.
  have hmax : (failExecution message t).maxAttempts = t.maxAttempts :=
    congrArg TaskSpec.maxAttempts hspec
  simp only [finishFailed]
  rw [hstatus, hattempt, hmax]
  split
  · rename_i h
    exact ⟨hspec, hattempt, hstatus.trans h⟩
  · split
    · exact ⟨hspec, hattempt, rfl⟩
    · exact ⟨hspec, hattempt, rfl⟩

/-- The statuses a worker can leave a task in. -/
def Ended (status : TaskStatus) : Prop :=
  status = .succeeded ∨ status = .failed ∨ status = .cancelled ∨ status = .retrying

theorem finishTask_spec (workerId : String) (outcome : Outcome) (t : AgentTask) :
    (finishTask workerId outcome t).toTaskSpec = t.toTaskSpec ∧
      Ended (finishTask workerId outcome t).status := by
  unfold Ended
  cases outcome with
  | succeeded output =>
      simp only [finishTask]
      split
      · have h := finishCancelled_spec t
        exact ⟨h.1, by simp [h.2]⟩
      · exact ⟨rfl, by simp⟩
  | failed message =>
      obtain ⟨hspec, -, hstatus⟩ := finishFailed_spec message t
      refine ⟨hspec, ?_⟩
      simp only [finishTask, hstatus]
      split
      · simp
      · split <;> simp
  | cancelled =>
      have h := finishCancelled_spec t
      exact ⟨h.1, by simp [finishTask, h.2]⟩
  | unavailable message => exact ⟨rfl, by simp [finishTask, terminalFailure]⟩

/-- The end of a run of a task leaves its attempts, and puts it back into the
    queue only when attempts are left. -/
theorem finishTask_attempts (workerId : String) (outcome : Outcome) (t : AgentTask) :
    (finishTask workerId outcome t).attempt = t.attempt ∧
      ((finishTask workerId outcome t).status = .retrying → t.attempt < t.maxAttempts) := by
  -- Two of the outcomes come down to a cancellation.
  have hcancelled : (finishCancelled t).attempt = t.attempt ∧
      ((finishCancelled t).status = .retrying → t.attempt < t.maxAttempts) := by
    refine ⟨?_, by simp [(finishCancelled_spec t).2]⟩
    simp only [finishCancelled]
    split <;> rfl
  cases outcome with
  | succeeded output =>
      simp only [finishTask]
      split
      · exact hcancelled
      · exact ⟨rfl, by simp⟩
  | failed message =>
      obtain ⟨-, hattempt, hstatus⟩ := finishFailed_spec message t
      refine ⟨hattempt, ?_⟩
      simp only [finishTask, hstatus]
      split
      · simp
      · split
        · exact fun _ => by assumption
        · simp
  | cancelled => exact hcancelled
  | unavailable message => exact ⟨rfl, by simp [finishTask, terminalFailure]⟩

/-- A start changes a queued task only, into one that runs or has ended. -/
theorem startTask_spec {workerId : String} {agentActive : Bool} {t t' : AgentTask} :
    (startTask workerId agentActive t = .finished t' →
      (t.status = .pending ∨ t.status = .retrying) ∧ t'.toTaskSpec = t.toTaskSpec ∧
        (t'.status = .succeeded ∨ t'.status = .failed) ∧ t'.attempt = t.attempt) ∧
    (startTask workerId agentActive t = .started t' →
      (t.status = .pending ∨ t.status = .retrying) ∧ t'.toTaskSpec = t.toTaskSpec ∧
        t'.status = .running ∧ t'.attempt = t.attempt + 1) := by
  unfold startTask
  split
  · simp
  · rename_i hqueued
    have hqueued := not_not.mp hqueued
    split
    · refine ⟨?_, by simp⟩
      intro h
      cases h
      exact ⟨hqueued, rfl, Or.inl rfl, rfl⟩
    · split
      · refine ⟨?_, by simp⟩
        intro h
        cases h
        exact ⟨hqueued, rfl, Or.inr rfl, rfl⟩
      · refine ⟨by simp, ?_⟩
        intro h
        cases h
        exact ⟨hqueued, rfl, rfl, rfl⟩

theorem recoverTask_spec (workerId : String) (t : AgentTask) :
    (recoverTask workerId t).toTaskSpec = t.toTaskSpec ∧
      (recoverTask workerId t).attempt = t.attempt ∧
      Ended (recoverTask workerId t).status := by
  unfold recoverTask Ended
  split
  · exact ⟨rfl, rfl, Or.inl rfl⟩
  · refine ⟨rfl, rfl, ?_⟩
    simp only
    split <;> simp

theorem recoverTask_retrying {workerId : String} {t : AgentTask}
    (h : (recoverTask workerId t).status = .retrying) : t.attempt < t.maxAttempts := by
  unfold recoverTask at h
  split at h
  · cases h
  · simp only at h
    split at h
    · rename_i hleft
      simpa using hleft
    · cases h

theorem reviewTask_ok {approved : Bool} {note : Option String} {t t' : AgentTask}
    (h : reviewTask approved note t = .ok t') :
    t.status = .humanReview ∧ t'.toTaskSpec = t.toTaskSpec ∧
      t'.status = if approved then .succeeded else .failed := by
  unfold reviewTask at h
  split at h
  · cases h
  · rename_i hstatus
    cases h
    exact ⟨not_not.mp hstatus, rfl, rfl⟩

theorem cancelTask_ok {t t' : AgentTask} (h : cancelTask t = .ok t') :
    (t.status = .pending ∨ t.status = .retrying) ∧ t' = cancelRow t := by
  unfold cancelTask at h
  split at h
  · cases h
  · rename_i hstatus
    cases h
    exact ⟨not_not.mp hstatus, rfl⟩

/-- A stop cancels a task that is queued or running and leaves any other alone. -/
theorem stopExecution_ok {t t' : AgentTask} (h : stopExecution t = .ok t') :
    t'.toTaskSpec = t.toTaskSpec ∧
      (t'.status = t.status ∨
        ((t.status = .pending ∨ t.status = .retrying ∨ t.status = .running) ∧
          t'.status = .cancelled)) := by
  unfold stopExecution at h
  split at h
  · cases h
  · split at h
    · rename_i hstatus
      cases h
      exact ⟨rfl, Or.inr ⟨hstatus, rfl⟩⟩
    · cases h
      exact ⟨rfl, Or.inl rfl⟩

theorem stopExecution_attempt {t t' : AgentTask} (h : stopExecution t = .ok t') :
    t'.attempt = t.attempt := by
  unfold stopExecution at h
  split at h
  · cases h
  · split at h
    · cases h
      rfl
    · cases h
      rfl

theorem cancelWorkflowRun_ok {rows rows' : RunRows} (h : cancelWorkflowRun rows = .ok rows') :
    rows.run.status.terminal = false ∧ (∀ t ∈ rows.tasks, t.status ≠ .running) ∧
      rows'.run.status = .cancelled ∧
      rows'.tasks = rows.tasks.map fun t => if t.status.cancellable then cancelRow t else t := by
  unfold cancelWorkflowRun at h
  split at h
  · cases h
  · rename_i hrun
    split at h
    · cases h
    · rename_i hrunning
      cases h
      exact ⟨by simpa using hrun, by simpa using hrunning, rfl, rfl⟩

end Orchestration
end HermesPlatform
