/-
  HermesPlatform.Orchestration.Interleaving

  The transactions of the processes that work on a run, in any order: the
  submission, passes of `reconcile_run`, `cancel_workflow_run`,
  `review_human_task` and the workers.

  A process reads rows into the objects of its database session (`Sessions`) and
  decides by these objects; only the run is read again, by the `refresh` between
  the phases of a pass.  The rows of tasks that `review_human_task` and a worker's
  start change are locked while they are.
-/

import HermesPlatform.Orchestration.RunSystem
import HermesPlatform.Orchestration.Sessions

namespace HermesPlatform
namespace Orchestration

open Python Transition

/-! ## Processes -/

/-- A submission after `create_run`: the tasks it is still going to create. -/
structure Submission where
  plan : SubmissionPlan
  remaining : List AgentTask

/-- The final update of a submission.  Its objects were read as a pending run and
    a waiting manager task, so what it assigns is written. -/
def Submission.finish (sub : Submission) (db : RunRows) : RunRows where
  run := { db.run with status := sub.plan.runStatus }
  tasks :=
    if sub.plan.rootPending then
      updateTask sub.plan.root.id (fun t => { t with status := .pending }) db.tasks
    else db.tasks

/-- A pass of `reconcile_run`, by its last database access; `run` and `tasks` are
    its objects. -/
inductive Pass where
  | begun (run : WorkflowRun) (tasks : List AgentTask)
  | read (run : WorkflowRun) (tasks : List AgentTask)
  /-- The first phase is committed. -/
  | committed (run : WorkflowRun) (tasks : List AgentTask)
  | refreshed (run : WorkflowRun) (tasks : List AgentTask)
  | readAgain (run : WorkflowRun) (tasks : List AgentTask)

/-- The next database access of a pass: the rows after it and the rest of the
    pass. -/
def Pass.step (db : RunRows) : Pass → RunRows × Option Pass
  | .begun run tasks => (db, some (.read run (listRunTasks tasks db)))
  | .read run tasks =>
      match firstPhase ⟨run, tasks⟩ with
      | .finished rows => (commit ⟨run, tasks⟩ rows db, none)
      | .promoted rows _ => (commit ⟨run, tasks⟩ rows db, some (.committed rows.run rows.tasks))
  -- `refresh` reads the run; the tasks stay as the session holds them.
  | .committed _ tasks => (db, some (.refreshed db.run tasks))
  | .refreshed run tasks => (db, some (.readAgain run (listRunTasks tasks db)))
  | .readAgain run tasks => (commit ⟨run, tasks⟩ (secondPhase ⟨run, tasks⟩).1 db, none)

/-- A request of `cancel_workflow_run`. -/
inductive Cancellation where
  | begun (run : WorkflowRun)
  | read (run : WorkflowRun) (tasks : List AgentTask)

/-- The next database access of a cancellation. -/
def Cancellation.step (db : RunRows) : Cancellation → RunRows × Option Cancellation
  | .begun run => (db, some (.read run (listRunTasks [] db)))
  | .read run tasks =>
      -- Tests and changes the objects, then commits them.
      match cancelWorkflowRun ⟨run, tasks⟩ with
      | .error _ => (db, none)
      | .ok rows => (commit ⟨run, tasks⟩ rows db, none)

/-- Replace or drop an entry. -/
def replaceAt {α : Type} (l : List α) (i : Nat) : Option α → List α
  | some x => l.set i x
  | none => l.eraseIdx i

/-! ## The system -/

structure RaceState where
  db : RunRows
  submission : Option Submission
  passes : List Pass
  cancellations : List Cancellation
  /-- Tasks of committed approvals, as the requests hold them. -/
  reviewed : List AgentTask
  working : List Nat

inductive RaceAction where
  | submit
  /-- The submission raises. -/
  | abandonSubmission
  /-- The loop of the orchestrator reads an active run. -/
  | beginPass
  /-- A committed approval begins its pass. -/
  | beginReviewPass (i : Nat)
  | passStep (i : Nat)
  /-- A pass raises, or its process ends. -/
  | abandonPass (i : Nat)
  | beginCancellation
  | cancelStep (i : Nat)
  | abandonCancellation (i : Nat)
  | review (id : Nat) (approved : Bool) (note : Option String)
  | abandonReview (i : Nat)
  | start (id : Nat) (workerId : String) (agentActive : Bool)
  | finish (id : Nat) (workerId : String) (outcome : Outcome)

def raceStep (s : RaceState) : RaceAction → Option RaceState
  | .submit =>
      s.submission.bind fun sub =>
        match sub.remaining with
        -- `create_task` commits one task after the other.
        | t :: rest => some { s with
            db := { s.db with tasks := s.db.tasks ++ [t] }
            submission := some { sub with remaining := rest } }
        | [] => some { s with db := sub.finish s.db, submission := none }
  | .abandonSubmission => s.submission.bind fun _ => some { s with submission := none }
  | .beginPass =>
      -- The loop reads the run here and its tasks in a later transaction.
      if s.db.run.status.terminal = true then none
      else some { s with passes := s.passes ++ [.begun s.db.run []] }
  | .beginReviewPass i =>
      -- The session of the request still holds the task it has reviewed.
      (s.reviewed[i]?).bind fun t => some { s with
        passes := s.passes ++ [.begun s.db.run [t]]
        reviewed := s.reviewed.eraseIdx i }
  | .passStep i =>
      (s.passes[i]?).bind fun p => some { s with
        db := (p.step s.db).1
        passes := replaceAt s.passes i (p.step s.db).2 }
  | .abandonPass i => (s.passes[i]?).bind fun _ => some { s with passes := s.passes.eraseIdx i }
  | .beginCancellation =>
      if s.db.run.status.terminal = true then none
      else some { s with cancellations := s.cancellations ++ [.begun s.db.run] }
  | .cancelStep i =>
      (s.cancellations[i]?).bind fun c => some { s with
        db := (c.step s.db).1
        cancellations := replaceAt s.cancellations i (c.step s.db).2 }
  | .abandonCancellation i =>
      (s.cancellations[i]?).bind fun _ => some { s with
        cancellations := s.cancellations.eraseIdx i }
  | .review id approved note =>
      (s.db.task? id).bind fun t =>
        match reviewTask approved note t with
        | .error _ => none
        | .ok t' => some { s with db := s.db.setTask t', reviewed := s.reviewed ++ [t'] }
  | .abandonReview i =>
      (s.reviewed[i]?).bind fun _ => some { s with reviewed := s.reviewed.eraseIdx i }
  | .start id workerId agentActive =>
      (s.db.task? id).bind fun t =>
        match startTask workerId agentActive t with
        | .ignored => none
        | .finished t' => some { s with db := s.db.setTask t' }
        | .started t' => some { s with db := s.db.setTask t', working := id :: s.working }
  | .finish id workerId outcome =>
      (s.db.task? id).bind fun t =>
        if id ∈ s.working then
          some { s with
            db := s.db.setTask (finishTask workerId outcome t)
            working := s.working.erase id }
        else none

/-- The state after `create_run`. -/
def created (plan : SubmissionPlan) (payload : RunRequest) : RaceState where
  db := ⟨⟨.pending, payload.input, none, none⟩, []⟩
  submission := some ⟨plan, plan.root :: plan.children⟩
  passes := []
  cancellations := []
  reviewed := []
  working := []

/-- The runs of a team or of an accepted workflow. -/
def Created (s : RaceState) : Prop :=
  (∃ team payload, s = created (submitTeamRun team payload) payload) ∨
    ∃ nodes team payload plan, validateWorkflowDag nodes = .ok () ∧
      submitWorkflowRun team nodes payload = .ok plan ∧ s = created plan payload

def raceSystem : System RaceState RaceAction := ⟨Created, raceStep⟩

/-! ## What a step carries out -/

/-- The transaction that a step carries out, and on what. -/
inductive RaceCarries (s : RaceState) : RaceAction → RaceState → Prop where
  | create {sub : Submission} {t : AgentTask} {rest : List AgentTask}
      (hsub : s.submission = some sub) (hremaining : sub.remaining = t :: rest) :
      RaceCarries s .submit { s with
        db := { s.db with tasks := s.db.tasks ++ [t] }
        submission := some { sub with remaining := rest } }
  | submitted {sub : Submission} (hsub : s.submission = some sub) (hremaining : sub.remaining = []) :
      RaceCarries s .submit { s with db := sub.finish s.db, submission := none }
  | abandonSubmission : RaceCarries s .abandonSubmission { s with submission := none }
  | beginPass : RaceCarries s .beginPass { s with passes := s.passes ++ [.begun s.db.run []] }
  | beginReviewPass {i : Nat} {t : AgentTask} (hreviewed : s.reviewed[i]? = some t) :
      RaceCarries s (.beginReviewPass i) { s with
        passes := s.passes ++ [.begun s.db.run [t]]
        reviewed := s.reviewed.eraseIdx i }
  | passStep {i : Nat} {p : Pass} (hpass : s.passes[i]? = some p) :
      RaceCarries s (.passStep i) { s with
        db := (p.step s.db).1
        passes := replaceAt s.passes i (p.step s.db).2 }
  | abandonPass {i : Nat} : RaceCarries s (.abandonPass i) { s with passes := s.passes.eraseIdx i }
  | beginCancellation :
      RaceCarries s .beginCancellation
        { s with cancellations := s.cancellations ++ [.begun s.db.run] }
  | cancelStep {i : Nat} {c : Cancellation} (hcancellation : s.cancellations[i]? = some c) :
      RaceCarries s (.cancelStep i) { s with
        db := (c.step s.db).1
        cancellations := replaceAt s.cancellations i (c.step s.db).2 }
  | abandonCancellation {i : Nat} :
      RaceCarries s (.abandonCancellation i)
        { s with cancellations := s.cancellations.eraseIdx i }
  | reviewed {t t' : AgentTask} {approved : Bool} {note : Option String} (hmem : t ∈ s.db.tasks)
      (hreview : reviewTask approved note t = .ok t') :
      RaceCarries s (.review t.id approved note)
        { s with db := s.db.setTask t', reviewed := s.reviewed ++ [t'] }
  | abandonReview {i : Nat} :
      RaceCarries s (.abandonReview i) { s with reviewed := s.reviewed.eraseIdx i }
  | refused {t t' : AgentTask} {workerId : String} {agentActive : Bool} (hmem : t ∈ s.db.tasks)
      (hstart : startTask workerId agentActive t = .finished t') :
      RaceCarries s (.start t.id workerId agentActive) { s with db := s.db.setTask t' }
  | started {t t' : AgentTask} {workerId : String} {agentActive : Bool} (hmem : t ∈ s.db.tasks)
      (hstart : startTask workerId agentActive t = .started t') :
      RaceCarries s (.start t.id workerId agentActive)
        { s with db := s.db.setTask t', working := t.id :: s.working }
  | finished {t : AgentTask} {workerId : String} {outcome : Outcome} (hmem : t ∈ s.db.tasks)
      (hbusy : t.id ∈ s.working) :
      RaceCarries s (.finish t.id workerId outcome) { s with
        db := s.db.setTask (finishTask workerId outcome t)
        working := s.working.erase t.id }

theorem race_carries {s s' : RaceState} {a : RaceAction} (h : raceStep s a = some s') :
    RaceCarries s a s' := by
  cases a with
  | submit =>
      simp only [raceStep, Option.bind_eq_some_iff] at h
      obtain ⟨sub, hsub, h⟩ := h
      split at h
      · rename_i t rest hremaining
        cases h
        exact .create hsub hremaining
      · rename_i hremaining
        cases h
        exact .submitted hsub hremaining
  | abandonSubmission =>
      simp only [raceStep, Option.bind_eq_some_iff] at h
      obtain ⟨sub, -, h⟩ := h
      cases h
      exact .abandonSubmission
  | beginPass =>
      simp only [raceStep] at h
      split at h
      · cases h
      · cases h
        exact .beginPass
  | beginReviewPass i =>
      simp only [raceStep, Option.bind_eq_some_iff] at h
      obtain ⟨t, ht, h⟩ := h
      cases h
      exact .beginReviewPass ht
  | passStep i =>
      simp only [raceStep, Option.bind_eq_some_iff] at h
      obtain ⟨p, hp, h⟩ := h
      cases h
      exact .passStep hp
  | abandonPass i =>
      simp only [raceStep, Option.bind_eq_some_iff] at h
      obtain ⟨p, -, h⟩ := h
      cases h
      exact .abandonPass
  | beginCancellation =>
      simp only [raceStep] at h
      split at h
      · cases h
      · cases h
        exact .beginCancellation
  | cancelStep i =>
      simp only [raceStep, Option.bind_eq_some_iff] at h
      obtain ⟨c, hc, h⟩ := h
      cases h
      exact .cancelStep hc
  | abandonCancellation i =>
      simp only [raceStep, Option.bind_eq_some_iff] at h
      obtain ⟨c, -, h⟩ := h
      cases h
      exact .abandonCancellation
  | review id approved note =>
      simp only [raceStep, Option.bind_eq_some_iff] at h
      obtain ⟨t, ht, h⟩ := h
      obtain ⟨hmem, rfl⟩ := task?_eq_some ht
      split at h
      · cases h
      · rename_i t' hreview
        cases h
        exact .reviewed hmem hreview
  | abandonReview i =>
      simp only [raceStep, Option.bind_eq_some_iff] at h
      obtain ⟨t, -, h⟩ := h
      cases h
      exact .abandonReview
  | start id workerId agentActive =>
      simp only [raceStep, Option.bind_eq_some_iff] at h
      obtain ⟨t, ht, h⟩ := h
      obtain ⟨hmem, rfl⟩ := task?_eq_some ht
      split at h
      · cases h
      · rename_i t' hstart
        cases h
        exact .refused hmem hstart
      · rename_i t' hstart
        cases h
        exact .started hmem hstart
  | finish id workerId outcome =>
      simp only [raceStep, Option.bind_eq_some_iff] at h
      obtain ⟨t, ht, h⟩ := h
      obtain ⟨hmem, rfl⟩ := task?_eq_some ht
      split at h
      · rename_i hbusy
        cases h
        exact .finished hmem hbusy
      · cases h

end Orchestration
end HermesPlatform
