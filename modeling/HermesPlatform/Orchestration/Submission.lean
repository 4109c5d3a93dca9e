/-
  HermesPlatform.Orchestration.Submission

  The commits of a submission between the steps of the other processes.

  `create_run` makes a run active before any of its tasks exists, so passes of
  `reconcile_run` work on whatever the submission has created by then.  The state
  of `raceSystem` is extended by what the submission is going to create and by
  what has happened; `Isolating` is the condition that no pass mistakes a task
  that is still missing for a defect of the run, or for nothing to wait for.
-/

import HermesPlatform.Orchestration.RunEnd
import HermesPlatform.Orchestration.Scan

namespace HermesPlatform
namespace Orchestration

open Python Transition

/-! ## The system -/

/-- The transactions of the processes on a run, and `_recover`. -/
inductive SubmissionAction where
  | race (a : RaceAction)
  | recover (workerId : String) (stale : Nat → Bool)

structure SubmissionState where
  race : RaceState
  plan : SubmissionPlan
  /-- A task had failed before the last step. -/
  taskFailed : Bool
  /-- The submission has raised. -/
  raised : Bool

def RaceAction.raises : RaceAction → Bool
  | .abandonSubmission => true
  | _ => false

def anyFailed (rows : RunRows) : Bool := rows.tasks.any fun t => t.status = .failed

def submissionStep (s : SubmissionState) : SubmissionAction → Option SubmissionState
  | .race a =>
      (raceStep s.race a).map fun race => { s with
        race := race
        taskFailed := s.taskFailed || anyFailed s.race.db
        raised := s.raised || a.raises }
  | .recover workerId stale =>
      some { s with
        race := { s.race with
          db := { s.race.db with tasks := recoverTasks workerId stale s.race.db.tasks } }
        taskFailed := s.taskFailed || anyFailed s.race.db }

/-- The state after `create_run`. -/
def submitting (plan : SubmissionPlan) (payload : RunRequest) : SubmissionState where
  race := created plan payload
  plan := plan
  taskFailed := false
  raised := false

/-- The submissions of a team or of an accepted workflow. -/
def Submitting (s : SubmissionState) : Prop :=
  (∃ team payload, s = submitting (submitTeamRun team payload) payload) ∨
    ∃ nodes team payload plan, validateWorkflowDag nodes = .ok () ∧
      submitWorkflowRun team nodes payload = .ok plan ∧ s = submitting plan payload

def submissionSystem : System SubmissionState SubmissionAction := ⟨Submitting, submissionStep⟩

/-! ## What isolation means -/

def SubmissionPlan.tasks (plan : SubmissionPlan) : List AgentTask := plan.root :: plan.children

/-- All tasks of the run exist. -/
def Complete (plan : SubmissionPlan) (db : RunRows) : Prop :=
  ∀ t ∈ plan.tasks, t.id ∈ taskIds db

/-- Some task of the run has failed. -/
def FailedBefore (s : SubmissionState) : Prop :=
  s.taskFailed = true ∨ anyFailed s.race.db = true

/-- What a step should be: it fails the run only after a failure, it starts the
    manager task only when all tasks exist, and a submission that raises leaves no
    active run. -/
structure StepIsolated (s s' : SubmissionState) (a : SubmissionAction) : Prop where
  failed : s.race.db.run.status ≠ .failed → s'.race.db.run.status = .failed →
    FailedBefore s ∨ s.raised = true
  root : ∀ workerId agentActive t t', a = .race (.start s.plan.root.id workerId agentActive) →
    s.race.db.task? s.plan.root.id = some t → startTask workerId agentActive t = .started t' →
    Complete s.plan s.race.db
  raised : a = .race .abandonSubmission → s'.race.db.run.status.terminal = true

/-- The first phase takes the run for a defective one: it finds no manager task,
    or a child that waits for a key no child has. -/
def Spurious (tasks : List AgentTask) : Prop :=
  match rootOf tasks with
  | none => True
  | some root => ∃ t ∈ childrenOf root tasks, MissesDependency (childrenOf root tasks) t

/-- The second phase puts the manager task into the queue. -/
def Releases (tasks : List AgentTask) : Prop :=
  match rootOf tasks with
  | none => False
  | some root => root.status = .waitingChild ∧ childrenOf root tasks ≠ [] ∧
      ∀ t ∈ childrenOf root tasks, t.status = .succeeded

/-- No pass takes the run for a defective one before anything has failed or
    releases the manager task before all tasks exist, and the submission does not
    raise while the run is active. -/
def Isolating (s : SubmissionState) : SubmissionAction → Prop
  | .race (.passStep i) => ∀ p, s.race.passes[i]? = some p →
      match p with
      | .read _ tasks => ¬ FailedBefore s → s.raised = false → ¬ Spurious tasks
      | .readAgain _ tasks => ¬ Complete s.plan s.race.db → ¬ Releases tasks
      | _ => True
  | .race .abandonSubmission => s.race.db.run.status.terminal = true
  | _ => True

/-! ## The plan -/

structure PlanShape (plan : SubmissionPlan) : Prop where
  root : plan.root.id = 0
  rootParent : plan.root.parentTaskId = none
  rootWaits : plan.root.status = .waitingChild
  children : ∀ t ∈ plan.children, t.id ≠ 0
  runStatus : plan.runStatus ≠ .failed

/-- The task was created from the plan. -/
def Origin (plan : SubmissionPlan) (t : AgentTask) : Prop :=
  ∃ p ∈ plan.tasks, t.toTaskSpec = p.toTaskSpec

theorem Origin.congr {plan : SubmissionPlan} {t t' : AgentTask} (h : Origin plan t)
    (hspec : t'.toTaskSpec = t.toTaskSpec) : Origin plan t' := by
  obtain ⟨p, hp, heq⟩ := h
  exact ⟨p, hp, hspec.trans heq⟩

/-- A task with a parent is not the manager task. -/
theorem Origin.nonzero {plan : SubmissionPlan} (hplan : PlanShape plan) {t : AgentTask}
    (h : Origin plan t) (hparent : t.parentTaskId ≠ none) : t.id ≠ 0 := by
  obtain ⟨p, hp, hspec⟩ := h
  rcases List.mem_cons.mp hp with rfl | hp
  · exact absurd ((congrArg TaskSpec.parentTaskId hspec).trans hplan.rootParent) hparent
  · rw [congrArg TaskSpec.id hspec]
    exact hplan.children p hp

theorem planShape_of {deps : String → List String} {plan : SubmissionPlan} {payload : RunRequest}
    {team : AgentTeam} (h : RunShape deps (plan.submitted payload).tasks)
    (hroot : plan.root = managerTask payload team) (hrun : plan.runStatus ≠ .failed) :
    PlanShape plan := by
  refine ⟨?_, ?_, ?_, fun t ht => (submitted_split h).specs.child_nonzero ht, hrun⟩
  · rw [hroot]
    rfl
  · rw [hroot]
    rfl
  · rw [hroot]
    rfl

/-! ## Phases on any objects -/

/-- What a commit of a pass or a cancellation can do to the manager task of an
    incomplete run: nothing, or end it. -/
def RootKept (l c : AgentTask) : Prop :=
  c.toTaskSpec = l.toTaskSpec ∧ (l.id = 0 → c.status = l.status ∨ c.status.terminal = true)

theorem evolves_rootKept_refl (tasks : List AgentTask) : Evolves RootKept tasks tasks :=
  List.forall₂_same.mpr fun _ _ => ⟨rfl, fun _ => Or.inl rfl⟩

section Objects

variable {plan : SubmissionPlan} {tasks : List AgentTask}

theorem child_nonzero (hplan : PlanShape plan) (horigin : ∀ o ∈ tasks, Origin plan o)
    {root t : AgentTask} (ht : t ∈ childrenOf root tasks) : t.id ≠ 0 := by
  obtain ⟨hmem, hparent⟩ := List.mem_filter.mp ht
  refine (horigin t hmem).nonzero hplan ?_
  rw [of_decide_eq_true hparent]
  simp

/-- The loop over the children leaves the manager task alone. -/
theorem scanned_rootKept (hplan : PlanShape plan) (horigin : ∀ o ∈ tasks, Origin plan o)
    {root : AgentTask} {tasks' : List AgentTask}
    (h : Evolves (Scanned (childrenOf root tasks)) tasks tasks') : Evolves RootKept tasks tasks' := by
  refine h.imp fun l c hscan => ⟨hscan.spec, ?_⟩
  intro hid
  rcases hscan.status with hsame | ⟨⟨t, ht, htid, -⟩, -⟩
  · exact Or.inl hsame
  · exact absurd (htid.trans hid) (child_nonzero hplan horigin ht)

theorem failRoot_rootKept {tasks' : List AgentTask} (h : Evolves RootKept tasks tasks')
    (root : AgentTask) (error : String) :
    Evolves RootKept tasks (updateTask root.id (failRoot error) tasks') := by
  refine evolves_update h ?_
  rintro l b ⟨hspec, hstatus⟩ -
  refine ⟨(failRoot_spec error b).trans hspec, ?_⟩
  intro hid
  rcases failRoot_status error b with hsame | hended
  · rw [hsame]
    exact hstatus hid
  · exact Or.inr hended

/-- The objects after the loop. -/
theorem scan_objects (root : AgentTask) :
    (∀ promotion, foldEach (scanChild root) ⟨tasks, []⟩ (childrenOf root tasks) = .ok promotion →
        Evolves (Scanned (childrenOf root tasks)) tasks promotion.tasks) ∧
      ∀ e, foldEach (scanChild root) ⟨tasks, []⟩ (childrenOf root tasks) = .error e →
        Evolves (Scanned (childrenOf root tasks)) tasks e.2 ∧
          ∃ t ∈ childrenOf root tasks, MissesDependency (childrenOf root tasks) t := by
  have hinit : Evolves (Scanned (childrenOf root tasks)) tasks tasks :=
    List.forall₂_same.mpr fun t _ => Scanned.refl _ t
  have hstep : ∀ t ∈ childrenOf root tasks, ∀ acc acc' : Promotion,
      Evolves (Scanned (childrenOf root tasks)) tasks acc.tasks →
      ScanSpec root acc t (.ok acc') → Evolves (Scanned (childrenOf root tasks)) tasks acc'.tasks :=
    fun t ht acc acc' hacc hturn => scanned_turn ht hacc hturn
  have hrule := scanChildren_rule hstep ⟨tasks, []⟩ hinit
  refine ⟨hrule.1, fun e he => ⟨hrule.2 e he, ?_⟩⟩
  -- A key that is missing now was missing from the start.
  have hmoved := scanChildren_moved (childrenOf root tasks) ⟨tasks, []⟩ (List.Subset.refl _)
    (evolves_moved_refl _ _)
  rw [he] at hmoved
  exact hmoved.2

/-- The first phase on objects of the run. -/
theorem firstPhase_objects (hplan : PlanShape plan) (horigin : ∀ o ∈ tasks, Origin plan o)
    (run : WorkflowRun) :
    (∀ rows, firstPhase ⟨run, tasks⟩ = .finished rows →
        Evolves RootKept tasks rows.tasks ∧
          ((∃ t ∈ tasks, t.status = .failed) ∨ Spurious tasks)) ∧
      ∀ rows changed, firstPhase ⟨run, tasks⟩ = .promoted rows changed →
        rows.run = run ∧ Evolves RootKept tasks rows.tasks ∧
          ∀ o ∈ rows.tasks, Origin plan o ∧
            (o.status = .failed → ∃ t ∈ tasks, t.status = .failed) := by
  have hcases := firstPhase_cases ⟨run, tasks⟩
  refine ⟨?_, ?_⟩
  · intro rows hphase
    rw [hphase] at hcases
    cases hcases with
    | rootless absent =>
        refine ⟨evolves_rootKept_refl tasks, Or.inr ?_⟩
        unfold Spurious
        rw [absent]
        trivial
    | failed root t error found mem status =>
        exact ⟨failRoot_rootKept (evolves_rootKept_refl tasks) root error,
          Or.inl ⟨t, (List.mem_filter.mp mem).1, status⟩⟩
    | raised root error tasks' found healthy loop =>
        obtain ⟨hevolves, hmissing⟩ := (scan_objects root).2 _ loop
        refine ⟨failRoot_rootKept (scanned_rootKept hplan horigin hevolves) root error, Or.inr ?_⟩
        unfold Spurious
        rw [found]
        exact hmissing
  · intro rows changed hphase
    rw [hphase] at hcases
    cases hcases with
    | promoted root promotion found healthy loop =>
        have hevolves := (scan_objects root).1 _ loop
        refine ⟨rfl, scanned_rootKept hplan horigin hevolves, ?_⟩
        intro o ho
        obtain ⟨l, hl, hscan⟩ := hevolves.exists_before ho
        refine ⟨(horigin l hl).congr hscan.spec, ?_⟩
        intro hfailed
        rcases hscan.status with hsame | ⟨-, hset⟩
        · exact ⟨l, hl, hsame.symm.trans hfailed⟩
        · rw [hfailed] at hset
          simp at hset

/-- The second phase on objects of the run. -/
theorem secondPhase_objects (run : WorkflowRun) :
    (Evolves RootKept tasks (secondPhase ⟨run, tasks⟩).1.tasks ∨ Releases tasks) ∧
      ((secondPhase ⟨run, tasks⟩).1.run.status ≠ .failed ∨
        (secondPhase ⟨run, tasks⟩).1.run = run ∨ ∃ t ∈ tasks, t.status = .failed) := by
  cases secondPhase_cases ⟨run, tasks⟩ with
  | kept tasks' run' =>
      refine ⟨Or.inl ?_, run'.imp_right Or.inl⟩
      rw [tasks']
      exact evolves_rootKept_refl tasks
  | released root prompt found nonempty succeeded waiting run' tasks' =>
      refine ⟨Or.inr ?_, Or.inl (by rw [run']; decide)⟩
      unfold Releases
      rw [found]
      exact ⟨waiting, nonempty, succeeded⟩
  | failed root error found status run' tasks' =>
      refine ⟨Or.inl ?_, Or.inr (Or.inr ⟨root, (rootOf_mem found).1, status⟩)⟩
      rw [tasks']
      exact failRoot_rootKept (evolves_rootKept_refl tasks) root error

end Objects

/-! ## Commits -/

/-- What a step does to the rows of a run that is not complete: it keeps their
    specs, and the manager task stays as it is or ends. -/
def RowsKept (db db' : RunRows) : Prop :=
  ∀ d' ∈ db'.tasks, ∃ d ∈ db.tasks, RootKept d d'

theorem RowsKept.refl (db : RunRows) : RowsKept db db :=
  fun d hd => ⟨d, hd, rfl, fun _ => Or.inl rfl⟩

theorem commit_rowsKept {loaded rows db : RunRows} (h : Evolves RootKept loaded.tasks rows.tasks) :
    RowsKept db (commit loaded rows db) := by
  intro d' hd'
  obtain ⟨d, hd, hspec, hcase⟩ := commit_task h hd'
  refine ⟨d, hd, hspec, ?_⟩
  intro hid
  rcases hcase with hsame | ⟨l, c, ⟨-, hlc⟩, hlid, hne, hnew⟩
  · exact Or.inl hsame
  · -- A status that was changed ends the manager task.
    rw [hnew]
    exact Or.inr ((hlc (hlid.trans hid)).resolve_left hne)

/-- The rows and the objects of a process come from the plan, and objects that
    have failed have done so for everybody. -/
def ObjectsOk (plan : SubmissionPlan) (failed : Prop) (tasks : List AgentTask) : Prop :=
  ∀ o ∈ tasks, Origin plan o ∧ (o.status = .failed → failed)

theorem listRunTasks_ok {plan : SubmissionPlan} {failed : Prop} {objects : List AgentTask}
    {db : RunRows} (hobjects : ObjectsOk plan failed objects) (hdb : ObjectsOk plan failed db.tasks) :
    ObjectsOk plan failed (listRunTasks objects db) := by
  intro o ho
  obtain ⟨d, hd, rfl⟩ := List.mem_map.mp ho
  cases hfind : objects.find? fun o => o.id = d.id with
  | none => exact hdb d hd
  | some o => exact hobjects o (List.mem_of_find?_eq_some hfind)

def Pass.tasks : Pass → List AgentTask
  | .begun _ tasks | .read _ tasks | .committed _ tasks | .refreshed _ tasks
  | .readAgain _ tasks => tasks

def Cancellation.tasks : Cancellation → List AgentTask
  | .begun _ => []
  | .read _ tasks => tasks

section Processes

variable {plan : SubmissionPlan} {failed : Prop} {db : RunRows}

/-- The objects of a pass after its next access. -/
theorem passStep_objects (hplan : PlanShape plan) (hdb : ObjectsOk plan failed db.tasks) {p q : Pass}
    (hp : ObjectsOk plan failed p.tasks) (hq : (p.step db).2 = some q) :
    ObjectsOk plan failed q.tasks := by
  cases p with
  | begun run tasks =>
      cases hq
      exact listRunTasks_ok hp hdb
  | read run tasks =>
      have hobjects := (firstPhase_objects hplan (fun o ho => (hp o ho).1) run).2
      simp only [Pass.step] at hq
      split at hq
      · cases hq
      · rename_i rows changed hphase
        cases hq
        intro o ho
        obtain ⟨horigin, hfailed⟩ := (hobjects rows changed hphase).2.2 o ho
        refine ⟨horigin, fun hs => ?_⟩
        obtain ⟨t, ht, hts⟩ := hfailed hs
        exact (hp t ht).2 hts
  | committed run tasks =>
      cases hq
      exact hp
  | refreshed run tasks =>
      cases hq
      exact listRunTasks_ok hp hdb
  | readAgain run tasks => cases hq

/-- What a pass may be about to do in `Isolating`. -/
def PassIsolates (plan : SubmissionPlan) (failed : Prop) (db : RunRows) : Pass → Prop
  | .read _ tasks => ¬ failed → ¬ Spurious tasks
  | .readAgain _ tasks => ¬ Complete plan db → ¬ Releases tasks
  | _ => True

/-- The rows after the next access of a pass. -/
theorem passStep_rows (hplan : PlanShape plan) {p : Pass} (hp : ObjectsOk plan failed p.tasks)
    (hgood : PassIsolates plan failed db p) :
    (Complete plan db ∨ RowsKept db (p.step db).1) ∧
      ((p.step db).1.run.status = .failed → db.run.status = .failed ∨ failed) := by
  have horigin : ∀ o ∈ p.tasks, Origin plan o := fun o ho => (hp o ho).1
  cases p with
  | begun run tasks => exact ⟨Or.inr (RowsKept.refl db), Or.inl⟩
  | committed run tasks => exact ⟨Or.inr (RowsKept.refl db), Or.inl⟩
  | refreshed run tasks => exact ⟨Or.inr (RowsKept.refl db), Or.inl⟩
  | read run tasks =>
      obtain ⟨hfinished, hpromoted⟩ := firstPhase_objects hplan horigin run
      simp only [Pass.step]
      split
      · rename_i rows hphase
        obtain ⟨hevolves, hreason⟩ := hfinished rows hphase
        refine ⟨Or.inr (commit_rowsKept hevolves), fun _ => Or.inr ?_⟩
        rcases hreason with ⟨t, ht, hs⟩ | hspurious
        · exact (hp t ht).2 hs
        · by_contra hnot
          exact hgood hnot hspurious
      · rename_i rows changed hphase
        obtain ⟨hrun, hevolves, -⟩ := hpromoted rows changed hphase
        refine ⟨Or.inr (commit_rowsKept hevolves), fun hs => Or.inl ?_⟩
        -- The run is as it was read, so it is not written.
        rw [← hs, commit_run _ _ _ (Or.inl (congrArg WorkflowRun.status hrun))]
  | readAgain run tasks =>
      obtain ⟨hkept, hrun⟩ := @secondPhase_objects tasks run
      refine ⟨?_, ?_⟩
      · by_cases hcomplete : Complete plan db
        · exact Or.inl hcomplete
        · exact Or.inr (commit_rowsKept (hkept.resolve_right (hgood hcomplete)))
      · intro hs
        rcases hrun with hne | hsame | ⟨t, ht, hfailed⟩
        · rcases commitColumn_cases run.status (secondPhase ⟨run, tasks⟩).1.run.status
            db.run.status with hold | ⟨-, hnew⟩
          · exact Or.inl (hold.symm.trans hs)
          · exact absurd (hnew.symm.trans hs) hne
        · left
          rw [← hs]
          exact (commit_run ⟨run, tasks⟩ _ db (Or.inl (congrArg WorkflowRun.status hsame))).symm
        · exact Or.inr ((hp t ht).2 hfailed)

theorem cancelStep_rows (c : Cancellation) (db : RunRows) :
    RowsKept db (c.step db).1 ∧
      ((c.step db).1.run.status = .failed → db.run.status = .failed) := by
  cases c with
  | begun run => exact ⟨RowsKept.refl db, id⟩
  | read run tasks =>
      simp only [Cancellation.step]
      split
      · exact ⟨RowsKept.refl db, id⟩
      · rename_i rows hcancel
        obtain ⟨-, -, hrun, htasks⟩ := cancelWorkflowRun_ok hcancel
        refine ⟨commit_rowsKept ?_, ?_⟩
        · rw [htasks]
          apply evolves_map
          intro t _
          split
          · exact ⟨rfl, fun _ => Or.inr rfl⟩
          · exact ⟨rfl, fun _ => Or.inl rfl⟩
        · intro hs
          rcases commitColumn_cases run.status rows.run.status db.run.status with
            hold | ⟨-, hnew⟩
          · exact hold.symm.trans hs
          · have hcancelled := hnew.symm.trans hs
            rw [hrun] at hcancelled
            cases hcancelled

end Processes

/-! ## The invariant -/

/-- A task in the queue or with a worker. -/
def TaskStatus.active : TaskStatus → Bool
  | .pending | .retrying | .running => true
  | _ => false

/-- What holds of a run during and after its submission; `failed` stands for a
    failure of a task or of the submission. -/
structure Isolated (plan : SubmissionPlan) (failed : Prop) (s : RaceState) : Prop where
  rows : ObjectsOk plan failed s.db.tasks
  submission : ∀ sub, s.submission = some sub →
    sub.plan = plan ∧ (∀ t ∈ sub.remaining, t ∈ plan.tasks) ∧
      ∀ p ∈ plan.tasks, p ∈ sub.remaining ∨ p.id ∈ taskIds s.db
  passes : ∀ p ∈ s.passes, ObjectsOk plan failed p.tasks
  reviewed : ObjectsOk plan failed s.reviewed
  root : ¬ Complete plan s.db →
    (∀ t ∈ s.db.tasks, t.id = 0 → t.status.active = false) ∧ 0 ∉ s.working
  run : s.db.run.status = .failed → failed

section Invariant

variable {plan : SubmissionPlan} {failed : Prop} {s s' : RaceState}

theorem ObjectsOk.mono {failed' : Prop} {tasks : List AgentTask} (h : ObjectsOk plan failed tasks)
    (himp : failed → failed') : ObjectsOk plan failed' tasks :=
  fun o ho => ⟨(h o ho).1, fun hs => himp ((h o ho).2 hs)⟩

theorem Isolated.mono {failed' : Prop} (h : Isolated plan failed s) (himp : failed → failed') :
    Isolated plan failed' s where
  rows := h.rows.mono himp
  submission := h.submission
  passes p hp := (h.passes p hp).mono himp
  reviewed := h.reviewed.mono himp
  root := h.root
  run hs := himp (h.run hs)

theorem Complete.mono {db db' : RunRows} (h : Complete plan db) (hids : taskIds db ⊆ taskIds db') :
    Complete plan db' :=
  fun t ht => hids (h t ht)

theorem mem_replaceAt {α : Type} {l : List α} {i : Nat} {o : Option α} {x : α}
    (h : x ∈ replaceAt l i o) : x ∈ l ∨ o = some x := by
  cases o with
  | none => exact Or.inl (List.mem_of_mem_eraseIdx h)
  | some y =>
      rcases List.mem_or_eq_of_mem_set h with hx | rfl
      · exact Or.inl hx
      · exact Or.inr rfl

/-- A step that keeps the rows and the ids of the run. -/
theorem Isolated.withRows {db : RunRows} (h : Isolated plan failed s)
    (hids : taskIds db = taskIds s.db) (hkept : Complete plan s.db ∨ RowsKept s.db db)
    (hspecs : ∀ d' ∈ db.tasks, ∃ d ∈ s.db.tasks, d'.toTaskSpec = d.toTaskSpec)
    (hfailed : anyFailed db = true → failed) (hrun : db.run.status = .failed → failed) :
    Isolated plan failed { s with db := db } where
  rows := by
    intro o ho
    obtain ⟨d, hd, hspec⟩ := hspecs o ho
    refine ⟨(h.rows d hd).1.congr hspec, fun hs => hfailed ?_⟩
    exact List.any_eq_true.mpr ⟨o, ho, by simpa using hs⟩
  submission sub hsub := by
    obtain ⟨hplan, hremaining, hcover⟩ := h.submission sub hsub
    refine ⟨hplan, hremaining, ?_⟩
    show ∀ p ∈ plan.tasks, p ∈ sub.remaining ∨ p.id ∈ taskIds db
    rw [hids]
    exact hcover
  passes := h.passes
  reviewed := h.reviewed
  root hincomplete := by
    have hincomplete' : ¬ Complete plan s.db := by
      intro hcomplete
      exact hincomplete (hcomplete.mono (by rw [hids]; exact List.Subset.refl _))
    obtain ⟨hroot, hidle⟩ := h.root hincomplete'
    refine ⟨?_, hidle⟩
    intro t ht hid
    obtain ⟨d, hd, hspec, hstatus⟩ := hkept.resolve_left hincomplete' t ht
    have hdid : d.id = 0 := (congrArg TaskSpec.id hspec).symm.trans hid
    rcases hstatus hdid with hsame | hended
    · rw [hsame]
      exact hroot d hd hdid
    · cases hs : t.status <;> rw [hs] at hended <;> first | rfl | cases hended
  run := hrun

theorem setTask_rowsKept {db : RunRows} {t t' : AgentTask} (ht : t ∈ db.tasks)
    (hspec : t'.toTaskSpec = t.toTaskSpec) (hstatus : t.id = 0 → t'.status.terminal = true) :
    RowsKept db (db.setTask t') := by
  intro d' hd'
  rcases mem_setTask hd' with rfl | ⟨hd', -⟩
  · exact ⟨t, ht, hspec, fun hid => Or.inr (hstatus hid)⟩
  · exact ⟨d', hd', rfl, fun _ => Or.inl rfl⟩

/-- A change of one task. -/
theorem Isolated.setTask {t t' : AgentTask} (h : Isolated plan failed s) (ht : t ∈ s.db.tasks)
    (hspec : t'.toTaskSpec = t.toTaskSpec)
    (hstatus : Complete plan s.db ∨ (t.id = 0 → t'.status.terminal = true))
    (hfailed : anyFailed (s.db.setTask t') = true → failed) :
    Isolated plan failed { s with db := s.db.setTask t' } := by
  refine h.withRows (taskIds_setTask _ _) (hstatus.imp_right (setTask_rowsKept ht hspec)) ?_ hfailed
    h.run
  intro d' hd'
  rcases mem_setTask hd' with rfl | ⟨hd', -⟩
  · exact ⟨t, ht, hspec⟩
  · exact ⟨d', hd', rfl⟩

/-- In an incomplete run the manager task is not in the queue. -/
theorem Isolated.not_root (h : Isolated plan failed s) {t : AgentTask} (ht : t ∈ s.db.tasks)
    (hactive : t.status.active = true) : Complete plan s.db ∨ t.id ≠ 0 := by
  by_cases hcomplete : Complete plan s.db
  · exact Or.inl hcomplete
  · refine Or.inr fun hid => ?_
    rw [(h.root hcomplete).1 t ht hid] at hactive
    cases hactive

theorem active_of_queued {t : AgentTask} (h : t.status = .pending ∨ t.status = .retrying) :
    t.status.active = true := by
  rcases h with hs | hs <;> rw [hs] <;> rfl

/-- The creation of the next task of the plan. -/
theorem Isolated.create (hplan : PlanShape plan) (h : Isolated plan failed s) {sub : Submission}
    (hsub : s.submission = some sub) {t : AgentTask} {rest : List AgentTask}
    (hremaining : sub.remaining = t :: rest)
    (hfailed : anyFailed { s.db with tasks := s.db.tasks ++ [t] } = true → failed) :
    Isolated plan failed { s with
      db := { s.db with tasks := s.db.tasks ++ [t] }
      submission := some { sub with remaining := rest } } := by
  obtain ⟨hsame, hfrom, hcover⟩ := h.submission sub hsub
  rw [hremaining] at hfrom hcover
  have ht : t ∈ plan.tasks := hfrom t List.mem_cons_self
  have hids : taskIds { s.db with tasks := s.db.tasks ++ [t] } = taskIds s.db ++ [t.id] := by
    rw [taskIds, List.map_append]
    rfl
  refine { h with rows := ?_, submission := ?_, root := ?_ }
  · intro o ho
    refine ⟨?_, fun hs => hfailed (List.any_eq_true.mpr ⟨o, ho, by simpa using hs⟩)⟩
    rcases List.mem_append.mp ho with ho | ho
    · exact (h.rows o ho).1
    · exact ⟨t, ht, by rw [List.mem_singleton.mp ho]⟩
  · intro sub' hsub'
    cases hsub'
    refine ⟨hsame, fun u hu => hfrom u (List.mem_cons_of_mem _ hu), ?_⟩
    intro p hp
    show p ∈ rest ∨ p.id ∈ taskIds { s.db with tasks := s.db.tasks ++ [t] }
    rw [hids]
    rcases hcover p hp with hin | hin
    · rcases List.mem_cons.mp hin with rfl | hin
      · exact Or.inr (List.mem_append_right _ List.mem_cons_self)
      · exact Or.inl hin
    · exact Or.inr (List.mem_append_left _ hin)
  · intro hincomplete
    have hincomplete' : ¬ Complete plan s.db := fun hcomplete => hincomplete
      (hcomplete.mono (by rw [hids]; exact List.subset_append_left _ _))
    obtain ⟨hroot, hidle⟩ := h.root hincomplete'
    refine ⟨?_, hidle⟩
    intro u hu hid
    rcases List.mem_append.mp hu with hu | hu
    · exact hroot u hu hid
    · -- A new manager task waits.
      rw [List.mem_singleton.mp hu] at hid ⊢
      rcases List.mem_cons.mp ht with rfl | hchild
      · rw [hplan.rootWaits]
        rfl
      · exact absurd hid (hplan.children t hchild)

/-- The final update of a submission. -/
theorem Isolated.finish (hplan : PlanShape plan) (h : Isolated plan failed s) {sub : Submission}
    (hsub : s.submission = some sub) (hremaining : sub.remaining = [])
    (hfailed : anyFailed (sub.finish s.db) = true → failed) :
    Isolated plan failed { s with db := sub.finish s.db, submission := none } := by
  obtain ⟨hsame, -, hcover⟩ := h.submission sub hsub
  -- Nothing remains to be created.
  have hcomplete : Complete plan s.db := by
    intro p hp
    have hin := hcover p hp
    rw [hremaining] at hin
    exact hin.resolve_left List.not_mem_nil
  have hrows := h.withRows (taskIds_finish sub s.db) (Or.inl hcomplete) ?_ hfailed ?_
  · exact { hrows with submission := fun _ hnone => by cases hnone }
  · intro d' hd'
    unfold Submission.finish at hd'
    split at hd'
    · obtain ⟨d, hd, rfl⟩ := List.mem_map.mp hd'
      refine ⟨d, hd, ?_⟩
      split <;> rfl
    · exact ⟨d', hd', rfl⟩
  · intro hs
    rw [show (sub.finish s.db).run.status = sub.plan.runStatus from rfl, hsame] at hs
    exact absurd hs hplan.runStatus

theorem evolves_spec {db db' : RunRows} (h : RowsKept db db') :
    ∀ d' ∈ db'.tasks, ∃ d ∈ db.tasks, d'.toTaskSpec = d.toTaskSpec := by
  intro d' hd'
  obtain ⟨d, hd, hspec, -⟩ := h d' hd'
  exact ⟨d, hd, hspec⟩

/-- A pass keeps the specs of the rows whatever it commits. -/
theorem specs_passStep (p : Pass) (db : RunRows) :
    ∀ d' ∈ (p.step db).1.tasks, ∃ d ∈ db.tasks, d'.toTaskSpec = d.toTaskSpec := by
  have hcommit : ∀ loaded rows : RunRows, ∀ d' ∈ (commit loaded rows db).tasks,
      ∃ d ∈ db.tasks, d'.toTaskSpec = d.toTaskSpec := by
    intro loaded rows d' hd'
    obtain ⟨d, hd, rfl⟩ := List.mem_map.mp hd'
    refine ⟨d, hd, ?_⟩
    split <;> rfl
  cases p with
  | begun run tasks => exact fun d hd => ⟨d, hd, rfl⟩
  | committed run tasks => exact fun d hd => ⟨d, hd, rfl⟩
  | refreshed run tasks => exact fun d hd => ⟨d, hd, rfl⟩
  | read run tasks =>
      simp only [Pass.step]
      split
      · exact hcommit _ _
      · exact hcommit _ _
  | readAgain run tasks => exact hcommit _ _

/-- One transaction of a process. -/
theorem isolated_race (hplan : PlanShape plan) (h : Isolated plan failed s) {a : RaceAction}
    (hgood : ∀ i p, a = .passStep i → s.passes[i]? = some p → PassIsolates plan failed s.db p)
    (hfailed : anyFailed s'.db = true → failed) (hstep : raceStep s a = some s') :
    Isolated plan failed s' := by
  cases race_carries hstep with
  | create hsub hremaining => exact h.create hplan hsub hremaining hfailed
  | submitted hsub hremaining => exact h.finish hplan hsub hremaining hfailed
  | abandonSubmission => exact { h with submission := fun _ hnone => by cases hnone }
  | beginPass =>
      refine { h with passes := ?_ }
      intro p hp
      rcases List.mem_append.mp hp with hp | hp
      · exact h.passes p hp
      · rw [List.mem_singleton.mp hp]
        exact fun o ho => by cases ho
  | beginReviewPass hreviewed =>
      refine { h with passes := ?_, reviewed := ?_ }
      · intro p hp
        rcases List.mem_append.mp hp with hp | hp
        · exact h.passes p hp
        · rw [List.mem_singleton.mp hp]
          intro o ho
          rw [List.mem_singleton.mp ho]
          exact h.reviewed _ (List.mem_of_getElem? hreviewed)
      · exact fun o ho => h.reviewed o (List.mem_of_mem_eraseIdx ho)
  | @passStep i p hp =>
      have hok := h.passes p (List.mem_of_getElem? hp)
      obtain ⟨hkept, hrun⟩ := passStep_rows hplan hok (hgood i p rfl hp)
      have hrows := h.withRows (taskIds_passStep p s.db) hkept (specs_passStep p s.db) hfailed
        fun hs => (hrun hs).elim h.run id
      refine { hrows with passes := ?_ }
      intro q hq
      rcases mem_replaceAt hq with hq | hq
      · exact h.passes q hq
      · exact passStep_objects hplan h.rows hok hq
  | abandonPass => exact { h with passes := fun q hq => h.passes q (List.mem_of_mem_eraseIdx hq) }
  | beginCancellation => exact { h with }
  | @cancelStep i c _ =>
      obtain ⟨hkept, hrun⟩ := cancelStep_rows c s.db
      have hrows := h.withRows (taskIds_cancelStep c s.db) (Or.inr hkept) (evolves_spec hkept) hfailed
        fun hs => h.run (hrun hs)
      exact { hrows with }
  | abandonCancellation => exact { h with }
  | @reviewed t t' approved _ hmem hreview =>
      obtain ⟨-, hspec, hstatus⟩ := reviewTask_ok hreview
      have hended : t'.status.terminal = true := by
        rw [hstatus]
        cases approved <;> rfl
      have hrows := h.setTask hmem hspec (Or.inr fun _ => hended) hfailed
      refine { hrows with reviewed := ?_ }
      intro o ho
      rcases List.mem_append.mp ho with ho | ho
      · exact h.reviewed o ho
      · -- The request holds the task as it has committed it.
        rw [List.mem_singleton.mp ho]
        exact hrows.rows t' (setTask_self hmem (congrArg TaskSpec.id hspec))
  | abandonReview =>
      exact { h with reviewed := fun o ho => h.reviewed o (List.mem_of_mem_eraseIdx ho) }
  | refused hmem hstart =>
      obtain ⟨hqueued, hspec, hended, -⟩ := startTask_spec.1 hstart
      refine h.setTask hmem hspec (Or.inr fun _ => ?_) hfailed
      rcases hended with hs | hs <;> rw [hs] <;> rfl
  | started hmem hstart =>
      obtain ⟨hqueued, hspec, -, -⟩ := startTask_spec.2 hstart
      -- In an incomplete run the started task is not the manager task.
      have hroot := h.not_root hmem (active_of_queued hqueued)
      have hrows := h.setTask hmem hspec (hroot.imp_right fun hne hid => absurd hid hne) hfailed
      refine { hrows with root := ?_ }
      intro hincomplete
      obtain ⟨hinactive, hidle⟩ := hrows.root hincomplete
      refine ⟨hinactive, ?_⟩
      intro hbusy
      rcases List.mem_cons.mp hbusy with heq | hbusy
      · refine hroot.elim (fun hcomplete => hincomplete ?_) fun hne => hne heq.symm
        exact hcomplete.mono (by rw [taskIds_setTask]; exact List.Subset.refl _)
      · exact hidle hbusy
  | @finished t workerId outcome hmem hbusy =>
      have hspec := (finishTask_spec workerId outcome t).1
      have hroot : Complete plan s.db ∨ t.id ≠ 0 := by
        by_cases hcomplete : Complete plan s.db
        · exact Or.inl hcomplete
        · refine Or.inr fun hid => ?_
          rw [hid] at hbusy
          exact (h.root hcomplete).2 hbusy
      have hrows := h.setTask hmem hspec (hroot.imp_right fun hne hid => absurd hid hne) hfailed
      refine { hrows with root := ?_ }
      intro hincomplete
      obtain ⟨hinactive, hidle⟩ := hrows.root hincomplete
      exact ⟨hinactive, fun hbusy => hidle (List.mem_of_mem_erase hbusy)⟩

/-- The recovery of expired leases. -/
theorem isolated_recover (h : Isolated plan failed s) (workerId : String) (stale : Nat → Bool)
    (hfailed : anyFailed { s.db with tasks := recoverTasks workerId stale s.db.tasks } = true →
      failed) :
    Isolated plan failed { s with
      db := { s.db with tasks := recoverTasks workerId stale s.db.tasks } } := by
  have hspecs : ∀ d' ∈ recoverTasks workerId stale s.db.tasks, ∃ d ∈ s.db.tasks,
      d'.toTaskSpec = d.toTaskSpec := by
    intro d' hd'
    obtain ⟨d, hd, rfl⟩ := List.mem_map.mp hd'
    refine ⟨d, hd, ?_⟩
    split
    · exact (recoverTask_spec workerId d).1
    · rfl
  have hids : taskIds { s.db with tasks := recoverTasks workerId stale s.db.tasks } =
      taskIds s.db := by
    unfold taskIds recoverTasks
    rw [List.map_map]
    apply List.map_congr_left
    intro d _
    simp only [Function.comp_apply]
    split
    · exact congrArg TaskSpec.id (recoverTask_spec workerId d).1
    · rfl
  refine h.withRows hids ?_ hspecs hfailed h.run
  by_cases hcomplete : Complete plan s.db
  · exact Or.inl hcomplete
  · right
    intro d' hd'
    obtain ⟨d, hd, rfl⟩ := List.mem_map.mp hd'
    refine ⟨d, hd, ?_⟩
    split
    · rename_i hrunning
      refine ⟨(recoverTask_spec workerId d).1, ?_⟩
      -- The manager task of an incomplete run does not run.
      intro hid
      have hinactive := (h.root hcomplete).1 d hd hid
      rw [hrunning.1] at hinactive
      cases hinactive
    · exact ⟨rfl, fun _ => Or.inl rfl⟩

/-- A step fails the run only after a failure. -/
theorem race_run (hplan : PlanShape plan) (h : Isolated plan failed s) {a : RaceAction}
    (hgood : ∀ i p, a = .passStep i → s.passes[i]? = some p → PassIsolates plan failed s.db p)
    (hstep : raceStep s a = some s') (hs : s'.db.run.status = .failed) :
    s.db.run.status = .failed ∨ failed := by
  cases raceStep_spec hstep with
  | quiet db upcoming => exact Or.inl (by rw [← db]; exact hs)
  | created t run tasks upcoming => exact Or.inl (by rw [← run]; exact hs)
  | submitted sub current last db upcoming =>
      rw [db, show (sub.finish s.db).run.status = sub.plan.runStatus from rfl,
        (h.submission sub current).1] at hs
      exact absurd hs hplan.runStatus
  | pass i p current db upcoming =>
      rw [db] at hs
      exact (passStep_rows hplan (h.passes p (List.mem_of_getElem? current))
        (hgood i p rfl current)).2 hs
  | cancellation i c current db upcoming =>
      rw [db] at hs
      exact Or.inl ((cancelStep_rows c s.db).2 hs)
  | row t t' mem spec open_ db upcoming =>
      rw [db] at hs
      exact Or.inl hs
  | finish id workerId outcome t mem self db upcoming =>
      rw [db] at hs
      exact Or.inl hs

end Invariant

/-! ## Every run -/

/-- A failure of a task or of the submission. -/
def Failure (s : SubmissionState) : Prop := FailedBefore s ∨ s.raised = true

structure SubmissionOk (s : SubmissionState) : Prop where
  plan : PlanShape s.plan
  isolated : Isolated s.plan (Failure s) s.race

theorem passIsolates_of {s : SubmissionState} {a : RaceAction} (hgood : Isolating s (.race a))
    {i : Nat} {p : Pass} (ha : a = .passStep i) (hp : s.race.passes[i]? = some p) :
    PassIsolates s.plan (Failure s) s.race.db p := by
  subst ha
  have hpass := hgood p hp
  cases p with
  | read run tasks =>
      intro hnot
      refine hpass (fun hf => hnot (Or.inl hf)) ?_
      cases hraised : s.raised with
      | false => rfl
      | true => exact absurd (Or.inr hraised) hnot
  | readAgain run tasks => exact hpass
  | begun run tasks => trivial
  | committed run tasks => trivial
  | refreshed run tasks => trivial

theorem failure_step {s s' : SubmissionState} {a : SubmissionAction}
    (hstep : submissionStep s a = some s') : s'.plan = s.plan ∧ (Failure s → Failure s') := by
  cases a with
  | race a =>
      obtain ⟨race, -, rfl⟩ := Option.map_eq_some_iff.mp hstep
      refine ⟨rfl, ?_⟩
      rintro ((hf | hf) | hr)
      · exact Or.inl (Or.inl (by simp [hf]))
      · exact Or.inl (Or.inl (by simp [hf]))
      · exact Or.inr (by simp [hr])
  | recover workerId stale =>
      cases hstep
      refine ⟨rfl, ?_⟩
      rintro ((hf | hf) | hr)
      · exact Or.inl (Or.inl (by simp [hf]))
      · exact Or.inl (Or.inl (by simp [hf]))
      · exact Or.inr hr

theorem submissionOk_step {s s' : SubmissionState} {a : SubmissionAction} (h : SubmissionOk s)
    (hgood : Isolating s a) (hstep : submissionStep s a = some s') : SubmissionOk s' := by
  obtain ⟨hsame, himp⟩ := failure_step hstep
  obtain ⟨hplan, hisolated⟩ := h
  have hold := hisolated.mono himp
  have hnew : anyFailed s'.race.db = true → Failure s' := fun hf => Or.inl (Or.inr hf)
  refine ⟨hsame ▸ hplan, ?_⟩
  rw [hsame]
  cases a with
  | race a =>
      obtain ⟨race, hrace, rfl⟩ := Option.map_eq_some_iff.mp hstep
      refine isolated_race hplan hold ?_ hnew hrace
      intro i p ha hp
      have hpass := passIsolates_of hgood ha hp
      -- What has not failed after the step had not failed before it.
      cases p with
      | read run tasks => exact fun hnot => hpass fun hf => hnot (himp hf)
      | readAgain run tasks => exact hpass
      | begun run tasks => trivial
      | committed run tasks => trivial
      | refreshed run tasks => trivial
  | recover workerId stale =>
      cases hstep
      exact isolated_recover hold workerId stale hnew

theorem submissionOk_submitting {s : SubmissionState} (h : Submitting s) : SubmissionOk s := by
  -- Nothing exists yet, and everything is still to be created.
  have hcreated : ∀ (plan : SubmissionPlan) (payload : RunRequest), PlanShape plan →
      SubmissionOk (submitting plan payload) := by
    intro plan payload hplan
    refine ⟨hplan, ⟨?_, ?_, ?_, ?_, ?_, ?_⟩⟩
    · exact fun o ho => by cases ho
    · intro sub hsub
      cases hsub
      exact ⟨rfl, fun t ht => ht, fun p hp => Or.inl hp⟩
    · exact fun p hp => by cases hp
    · exact fun o ho => by cases ho
    · exact fun _ => ⟨fun t ht => (by cases ht), List.not_mem_nil⟩
    · exact fun hs => by cases hs
  rcases h with ⟨team, payload, rfl⟩ | ⟨nodes, team, payload, plan, hdag, hplan, rfl⟩
  · exact hcreated _ _ (planShape_of (shape_teamRun team payload) rfl (by simp [submitTeamRun]))
  · have hactive := submitWorkflowRun_active hplan
    refine hcreated _ _ (planShape_of (shape_workflowRun hdag hplan)
      (submitWorkflowRun_ok hplan).2.1 ?_)
    intro hfailed
    rw [hfailed] at hactive
    cases hactive

theorem submissionOk_reachable {s : SubmissionState}
    (h : submissionSystem.Reachable Isolating s) : SubmissionOk s :=
  h.invariant SubmissionOk (fun _ hs => submissionOk_submitting hs)
    fun _ _ _ hok hgood hstep => submissionOk_step hok hgood hstep

/-- **Isolation of a submission.** Along steps of `Isolating`, the run becomes
    failed only after a task has failed or the submission has raised, the manager
    task is started only when all tasks exist, and a submission that raises leaves
    no active run. -/
theorem submission_isolated {s s' : SubmissionState} {a : SubmissionAction}
    (h : submissionSystem.Reachable Isolating s) (hgood : Isolating s a)
    (hstep : submissionSystem.step s a = some s') : StepIsolated s s' a := by
  obtain ⟨hplan, hisolated⟩ := submissionOk_reachable h
  refine ⟨?_, ?_, ?_⟩
  · intro hne hs
    cases a with
    | race a =>
        obtain ⟨race, hrace, rfl⟩ := Option.map_eq_some_iff.mp hstep
        refine (race_run hplan hisolated ?_ hrace hs).resolve_left hne
        exact fun i p ha hp => passIsolates_of hgood ha hp
    | recover workerId stale =>
        cases hstep
        exact absurd hs hne
  · intro workerId agentActive t t' _ ht hstart
    obtain ⟨hmem, hid⟩ := task?_eq_some ht
    have hqueued := (startTask_spec.2 hstart).1
    rcases hisolated.not_root hmem (active_of_queued hqueued) with hcomplete | hne
    · exact hcomplete
    · exact absurd (hid.trans hplan.root) hne
  · rintro rfl
    obtain ⟨race, hrace, rfl⟩ := Option.map_eq_some_iff.mp hstep
    simp only [raceStep, Option.bind_eq_some_iff] at hrace
    obtain ⟨sub, -, hrace⟩ := hrace
    cases hrace
    exact hgood

/-! ### Submissions of a team -/

def pairSubmitting : SubmissionState := submitting (submitTeamRun pairTeam oneAttempt) oneAttempt

/-- The run of a pair is submitted, its member fails, and a pass reads that. -/
def pairFails : List SubmissionAction :=
  [.race .submit, .race .submit, .race .submit, .race (.start 1 "w" true),
    .race (.finish 1 "w" (.failed "no answer")), .race .beginPass, .race (.passStep 0)]

theorem submission_isolated_pair :
    ∃ s s', submissionSystem.exec pairSubmitting pairFails = some s ∧
      submissionSystem.step s (.race (.passStep 0)) = some s' ∧
      StepIsolated s s' (.race (.passStep 0)) := by
  refine ⟨_, _, rfl, rfl, submission_isolated ⟨pairSubmitting, Or.inl ⟨pairTeam, oneAttempt, rfl⟩,
    System.path_of_allowed pairFails ?_ rfl⟩ ?_ rfl⟩
  · iterate 6 refine System.allowed_cons trivial rfl ?_
    refine System.allowed_cons (fun p hp => ?_) rfl trivial
    cases hp
    trivial
  · intro p hp
    cases hp
    exact fun hnot => absurd (Or.inr rfl) hnot

/-- A manager with two members. -/
def trioTeam : AgentTeam where
  ownerAgentId := "manager"
  members := [⟨"manager", true, 50, "manager"⟩, ⟨"analyst", true, 50, "analyst"⟩,
    ⟨"writer", true, 50, "writer"⟩]
  distinct := by decide

def trioSubmitting : SubmissionState := submitting (submitTeamRun trioTeam oneAttempt) oneAttempt

/-- The task of the first member runs and a pass releases the manager task, both
    before the task of the second member exists. -/
def trioReleases : List SubmissionAction :=
  [.race .submit, .race .submit, .race (.start 1 "w" true),
    .race (.finish 1 "w" (.succeeded "done")), .race .beginPass, .race (.passStep 0),
    .race (.passStep 0), .race (.passStep 0), .race (.passStep 0), .race (.passStep 0)]

/-- A pass finds no task of the run and fails it; a pass releases the manager task
    before all tasks exist; the submission raises and leaves the run active. -/
theorem submission_not_isolated :
    (¬ ∀ s a s', submissionSystem.Reachable System.anyStep s → submissionSystem.step s a = some s' →
        s.race.db.run.status ≠ .failed → s'.race.db.run.status = .failed →
        FailedBefore s ∨ s.raised = true) ∧
      (¬ ∀ s, submissionSystem.Reachable System.anyStep s → ∀ workerId agentActive t t',
        s.race.db.task? s.plan.root.id = some t → startTask workerId agentActive t = .started t' →
        Complete s.plan s.race.db) ∧
      ¬ ∀ s s', submissionSystem.Reachable System.anyStep s →
        submissionSystem.step s (.race .abandonSubmission) = some s' →
        s'.race.db.run.status.terminal = true := by
  have hpair : submissionSystem.init pairSubmitting := Or.inl ⟨pairTeam, oneAttempt, rfl⟩
  have htrio : submissionSystem.init trioSubmitting := Or.inl ⟨trioTeam, oneAttempt, rfl⟩
  refine ⟨?_, ?_, ?_⟩
  · intro hclaim
    have hfailure := hclaim _ (.race (.passStep 0)) _ ⟨pairSubmitting, hpair, System.path_of_exec
      [.race .beginPass, .race (.passStep 0)] rfl⟩ rfl (by decide) rfl
    rcases hfailure with (hf | hf) | hr
    · cases hf
    · cases hf
    · cases hr
  · intro hclaim
    have hrun : ∃ s t t', submissionSystem.exec trioSubmitting trioReleases = some s ∧
        s.race.db.task? s.plan.root.id = some t ∧ startTask "w" true t = .started t' ∧
        s.plan = submitTeamRun trioTeam oneAttempt ∧ taskIds s.race.db = [0, 1] :=
      ⟨_, _, _, rfl, rfl, rfl, rfl, rfl⟩
    obtain ⟨s, t, t', hexec, ht, hstart, hplan, hids⟩ := hrun
    have hcomplete := hclaim s ⟨trioSubmitting, htrio, System.path_of_exec trioReleases hexec⟩ "w"
      true t t' ht hstart
    unfold Complete at hcomplete
    rw [hplan, hids] at hcomplete
    exact absurd hcomplete (by decide)
  · intro hclaim
    have hended := hclaim _ _ ⟨pairSubmitting, hpair, .refl⟩ rfl
    cases hended

end Orchestration
end HermesPlatform
