/-
  HermesPlatform.Orchestration.Operations

  Every operation on a run, in the transactions it is made of: to those of
  `Interleaving` come `cancel_task`, `_recover` and `stop_execution`.

  `cancel_task` locks the row of its task.  `_recover` selects the stale tasks
  without a lock and commits what it has made of them later.  `stop_execution`
  reads an execution and its session, waits for the Runtime, reads the task and
  commits the three.  `Commits` lists what the processes commit that hold no
  lock, and `OperationSpec` what a step does to the rows.
-/

import HermesPlatform.Orchestration.Submission

namespace HermesPlatform
namespace Orchestration

open Python Transition

/-! ## The system -/

/-- A request of `stop_execution`. -/
inductive Stop where
  /-- The execution of the task `id` and its session are read, and the Runtime is
      asked to stop. -/
  | begun (id : Nat) (session : AgentSession) (execution : Option ExecutionLog)
  /-- The Runtime has answered, and the task is read. -/
  | read (t : AgentTask)

def Stop.tasks : Stop → List AgentTask
  | .begun _ _ _ => []
  | .read t => [t]

structure OperationState where
  race : RaceState
  /-- The stale tasks of recoveries on their way, as they were read. -/
  recoveries : List (List AgentTask)
  stops : List Stop

inductive OperationAction where
  | race (a : RaceAction)
  | cancelTask (id : Nat)
  /-- `stale` tells which running tasks are past the lease time. -/
  | beginRecovery (stale : Nat → Bool)
  | commitRecovery (i : Nat) (workerId : String)
  | abandonRecovery (i : Nat)
  | beginStop (id : Nat)
  | stopStep (i : Nat)
  /-- The Runtime does not stop, or the process of the request ends. -/
  | abandonStop (i : Nat)

def OperationState.withRows (s : OperationState) (db : RunRows) : OperationState :=
  { s with race := { s.race with db := db } }

def operationStep (s : OperationState) : OperationAction → Option OperationState
  | .race a => (raceStep s.race a).map fun race => { s with race := race }
  | .cancelTask id =>
      (s.race.db.task? id).bind fun t =>
        match cancelTask t with
        | .error _ => none
        | .ok t' => some (s.withRows (s.race.db.setTask t'))
  | .beginRecovery stale =>
      some { s with recoveries := s.recoveries ++
        [s.race.db.tasks.filter fun t => t.status = .running ∧ stale t.id = true] }
  | .commitRecovery i workerId =>
      (s.recoveries[i]?).bind fun loaded => some { s.withRows (commit ⟨s.race.db.run, loaded⟩
          ⟨s.race.db.run, loaded.map (recoverTask workerId)⟩ s.race.db) with
        recoveries := s.recoveries.eraseIdx i }
  | .abandonRecovery i =>
      (s.recoveries[i]?).bind fun _ => some { s with recoveries := s.recoveries.eraseIdx i }
  | .beginStop id =>
      (s.race.db.task? id).bind fun t =>
        if t.executionStatus = some .running then
          some { s with stops := s.stops ++ [.begun id t.session t.execution] }
        else none
  | .stopStep i =>
      (s.stops[i]?).bind fun
        | .begun id session execution =>
            -- The session of the request holds the two already.
            (s.race.db.task? id).bind fun t => some { s with
              stops := s.stops.set i (.read { t with session := session, execution := execution }) }
        | .read t =>
            match stopExecution t with
            | .error _ => none
            | .ok t' => some { s.withRows
                (commit ⟨s.race.db.run, [t]⟩ ⟨s.race.db.run, [t']⟩ s.race.db) with
                stops := s.stops.eraseIdx i }
  | .abandonStop i => (s.stops[i]?).bind fun _ => some { s with stops := s.stops.eraseIdx i }

/-- A run nothing has begun to work on. -/
def operating (race : RaceState) : OperationState := ⟨race, [], []⟩

/-- The runs whose submission begins. -/
def OperationsCreated (s : OperationState) : Prop := ∃ race, Created race ∧ s = operating race

/-- The runs whose submission has ended before anything else has begun. -/
def OperationsSubmitted (s : OperationState) : Prop :=
  ∃ run, Submitted run ∧ s = operating ⟨run.rows, none, [], [], [], []⟩

def operationSystem (init : OperationState → Prop) : System OperationState OperationAction :=
  ⟨init, operationStep⟩

/-! ## Inversion -/

/-- What a step is, and the state it leads to. -/
inductive OperationCarries (s : OperationState) : OperationAction → OperationState → Prop where
  | race {b : RaceAction} {race : RaceState} (hrace : raceStep s.race b = some race) :
      OperationCarries s (.race b) { s with race := race }
  | cancelTask {t t' : AgentTask} (hmem : t ∈ s.race.db.tasks) (hcancel : cancelTask t = .ok t') :
      OperationCarries s (.cancelTask t.id) (s.withRows (s.race.db.setTask t'))
  | beginRecovery {stale : Nat → Bool} :
      OperationCarries s (.beginRecovery stale) { s with recoveries := s.recoveries ++
        [s.race.db.tasks.filter fun t => t.status = .running ∧ stale t.id = true] }
  | commitRecovery {i : Nat} {workerId : String} {loaded : List AgentTask}
      (hloaded : s.recoveries[i]? = some loaded) :
      OperationCarries s (.commitRecovery i workerId)
        { s.withRows (commit ⟨s.race.db.run, loaded⟩
            ⟨s.race.db.run, loaded.map (recoverTask workerId)⟩ s.race.db) with
          recoveries := s.recoveries.eraseIdx i }
  | abandonRecovery {i : Nat} :
      OperationCarries s (.abandonRecovery i) { s with recoveries := s.recoveries.eraseIdx i }
  | beginStop {id : Nat} {t : AgentTask} :
      OperationCarries s (.beginStop id)
        { s with stops := s.stops ++ [.begun id t.session t.execution] }
  | readStop {i : Nat} {t : AgentTask} {session : AgentSession} {execution : Option ExecutionLog}
      (hstop : s.stops[i]? = some (.begun t.id session execution)) (hmem : t ∈ s.race.db.tasks) :
      OperationCarries s (.stopStep i) { s with
        stops := s.stops.set i (.read { t with session := session, execution := execution }) }
  | commitStop {i : Nat} {t t' : AgentTask} (hstop : s.stops[i]? = some (.read t))
      (hok : stopExecution t = .ok t') :
      OperationCarries s (.stopStep i)
        { s.withRows (commit ⟨s.race.db.run, [t]⟩ ⟨s.race.db.run, [t']⟩ s.race.db) with
          stops := s.stops.eraseIdx i }
  | abandonStop {i : Nat} :
      OperationCarries s (.abandonStop i) { s with stops := s.stops.eraseIdx i }

theorem operation_carries {s s' : OperationState} {a : OperationAction}
    (h : operationStep s a = some s') : OperationCarries s a s' := by
  cases a with
  | race b =>
      obtain ⟨race, hrace, rfl⟩ := Option.map_eq_some_iff.mp h
      exact .race hrace
  | cancelTask id =>
      simp only [operationStep, Option.bind_eq_some_iff] at h
      obtain ⟨t, ht, h⟩ := h
      obtain ⟨hmem, rfl⟩ := task?_eq_some ht
      split at h
      · cases h
      · rename_i t' hcancel
        cases h
        exact .cancelTask hmem hcancel
  | beginRecovery stale =>
      cases h
      exact .beginRecovery
  | commitRecovery i workerId =>
      simp only [operationStep, Option.bind_eq_some_iff] at h
      obtain ⟨loaded, hloaded, h⟩ := h
      cases h
      exact .commitRecovery hloaded
  | abandonRecovery i =>
      simp only [operationStep, Option.bind_eq_some_iff] at h
      obtain ⟨loaded, -, h⟩ := h
      cases h
      exact .abandonRecovery
  | beginStop id =>
      simp only [operationStep, Option.bind_eq_some_iff] at h
      obtain ⟨t, -, h⟩ := h
      split at h
      · cases h
        exact .beginStop
      · cases h
  | stopStep i =>
      simp only [operationStep, Option.bind_eq_some_iff] at h
      obtain ⟨stop, hstop, h⟩ := h
      cases stop with
      | begun id session execution =>
          simp only [Option.bind_eq_some_iff] at h
          obtain ⟨t, ht, h⟩ := h
          obtain ⟨hmem, rfl⟩ := task?_eq_some ht
          cases h
          exact .readStop hstop hmem
      | read t =>
          simp only at h
          split at h
          · cases h
          · rename_i t' hok
            cases h
            exact .commitStop hstop hok
  | abandonStop i =>
      simp only [operationStep, Option.bind_eq_some_iff] at h
      obtain ⟨stop, -, h⟩ := h
      cases h
      exact .abandonStop

/-! ## What a step does to the rows -/

/-- The objects a process commits without a lock: as they were read, and as they
    are now. -/
inductive Commits (s : OperationState) : OperationAction → RunRows → RunRows → Prop where
  | first {i : Nat} {run : WorkflowRun} {tasks : List AgentTask}
      (pass : s.race.passes[i]? = some (.read run tasks)) :
      Commits s (.race (.passStep i)) ⟨run, tasks⟩ (firstPhase ⟨run, tasks⟩).rows
  | second {i : Nat} {run : WorkflowRun} {tasks : List AgentTask}
      (pass : s.race.passes[i]? = some (.readAgain run tasks)) :
      Commits s (.race (.passStep i)) ⟨run, tasks⟩ (secondPhase ⟨run, tasks⟩).1
  | cancelled {i : Nat} {run : WorkflowRun} {tasks : List AgentTask} {rows : RunRows}
      (cancellation : s.race.cancellations[i]? = some (.read run tasks))
      (ok : cancelWorkflowRun ⟨run, tasks⟩ = .ok rows) :
      Commits s (.race (.cancelStep i)) ⟨run, tasks⟩ rows
  | recovered {i : Nat} {workerId : String} {loaded : List AgentTask}
      (recovery : s.recoveries[i]? = some loaded) :
      Commits s (.commitRecovery i workerId) ⟨s.race.db.run, loaded⟩
        ⟨s.race.db.run, loaded.map (recoverTask workerId)⟩
  | stopped {i : Nat} {t t' : AgentTask} (stop : s.stops[i]? = some (.read t))
      (ok : stopExecution t = .ok t') :
      Commits s (.stopStep i) ⟨s.race.db.run, [t]⟩ ⟨s.race.db.run, [t']⟩

/-- A change of a row under its lock, and the workers after it. -/
inductive RowChange (working : List Nat) (t : AgentTask) :
    OperationAction → AgentTask → List Nat → Prop where
  | refused {workerId : String} {agentActive : Bool} {t' : AgentTask}
      (start : startTask workerId agentActive t = .finished t') :
      RowChange working t (.race (.start t.id workerId agentActive)) t' working
  | started {workerId : String} {agentActive : Bool} {t' : AgentTask}
      (start : startTask workerId agentActive t = .started t') :
      RowChange working t (.race (.start t.id workerId agentActive)) t' (t.id :: working)
  | finished (workerId : String) (outcome : Outcome) (busy : t.id ∈ working) :
      RowChange working t (.race (.finish t.id workerId outcome)) (finishTask workerId outcome t)
        (working.erase t.id)
  | reviewed {approved : Bool} {note : Option String} {t' : AgentTask}
      (review : reviewTask approved note t = .ok t') :
      RowChange working t (.race (.review t.id approved note)) t' working
  | cancelled {t' : AgentTask} (cancel : cancelTask t = .ok t') :
      RowChange working t (.cancelTask t.id) t' working

theorem RowChange.spec {working working' : List Nat} {t t' : AgentTask} {a : OperationAction}
    (h : RowChange working t a t' working') : t'.toTaskSpec = t.toTaskSpec := by
  cases h with
  | refused start => exact (startTask_spec.1 start).2.1
  | started start => exact (startTask_spec.2 start).2.1
  | finished workerId outcome busy => exact (finishTask_spec workerId outcome t).1
  | reviewed review => exact (reviewTask_ok review).2.1
  | cancelled cancel =>
      rw [(cancelTask_ok cancel).2]
      rfl

theorem RowChange.id_eq {working working' : List Nat} {t t' : AgentTask} {a : OperationAction}
    (h : RowChange working t a t' working') : t'.id = t.id :=
  congrArg TaskSpec.id h.spec

/-- An operation under a row's lock makes no task wait. -/
theorem RowChange.ne_waiting {working working' : List Nat} {t t' : AgentTask} {a : OperationAction}
    (h : RowChange working t a t' working') : t'.status ≠ .waitingChild := by
  intro hwait
  cases h with
  | refused start =>
      obtain ⟨-, -, hended, -⟩ := startTask_spec.1 start
      rw [hwait] at hended
      simp at hended
  | started start =>
      obtain ⟨-, -, hrunning, -⟩ := startTask_spec.2 start
      rw [hwait] at hrunning
      cases hrunning
  | finished workerId outcome busy =>
      have hended := (finishTask_spec workerId outcome t).2
      rw [hwait] at hended
      simp [Ended] at hended
  | @reviewed approved note t' review =>
      have hstatus := (reviewTask_ok review).2.2
      rw [hwait] at hstatus
      cases approved <;> cases hstatus
  | cancelled cancel =>
      rw [(cancelTask_ok cancel).2] at hwait
      cases hwait

/-- An operation under a row's lock leaves a waiting task alone. -/
theorem RowChange.waits {working working' : List Nat} {t t' : AgentTask} {a : OperationAction}
    (h : RowChange working t a t' working') : t.status ≠ .waitingChild ∨ t.id ∈ working := by
  cases h with
  | refused start =>
      left
      rcases (startTask_spec.1 start).1 with hs | hs <;> rw [hs] <;> decide
  | started start =>
      left
      rcases (startTask_spec.2 start).1 with hs | hs <;> rw [hs] <;> decide
  | finished workerId outcome busy => exact Or.inr busy
  | reviewed review =>
      left
      rw [(reviewTask_ok review).1]
      decide
  | cancelled cancel =>
      left
      rcases (cancelTask_ok cancel).1 with hs | hs <;> rw [hs] <;> decide

/-- What a step does to the rows and to the tasks of the workers. -/
inductive OperationSpec (s s' : OperationState) : OperationAction → Prop where
  | quiet {a : OperationAction} (db : s'.race.db = s.race.db)
      (workers : s'.race.working = s.race.working) : OperationSpec s s' a
  | created (sub : Submission) (t : AgentTask) (rest : List AgentTask)
      (current : s.race.submission = some sub) (remaining : sub.remaining = t :: rest)
      (db : s'.race.db = { s.race.db with tasks := s.race.db.tasks ++ [t] })
      (workers : s'.race.working = s.race.working) : OperationSpec s s' (.race .submit)
  | submitted (sub : Submission) (current : s.race.submission = some sub)
      (remaining : sub.remaining = []) (db : s'.race.db = sub.finish s.race.db)
      (workers : s'.race.working = s.race.working) : OperationSpec s s' (.race .submit)
  | committed {a : OperationAction} {loaded rows : RunRows} (commits : Commits s a loaded rows)
      (db : s'.race.db = commit loaded rows s.race.db)
      (workers : s'.race.working = s.race.working) : OperationSpec s s' a
  | row {a : OperationAction} (t t' : AgentTask) (mem : t ∈ s.race.db.tasks)
      (change : RowChange s.race.working t a t' s'.race.working)
      (db : s'.race.db = s.race.db.setTask t') : OperationSpec s s' a

/-- A pass reads, or commits one of its phases. -/
theorem passStep_spec {s s' : OperationState} {i : Nat} {p : Pass}
    (hp : s.race.passes[i]? = some p) (hdb : s'.race.db = (p.step s.race.db).1)
    (hworkers : s'.race.working = s.race.working) : OperationSpec s s' (.race (.passStep i)) := by
  cases p with
  | begun run tasks => exact .quiet hdb hworkers
  | committed run tasks => exact .quiet hdb hworkers
  | refreshed run tasks => exact .quiet hdb hworkers
  | read run tasks =>
      refine .committed (.first hp) ?_ hworkers
      rw [hdb, Pass.step]
      split
      · rename_i rows hphase
        rw [hphase]
        rfl
      · rename_i rows changed hphase
        rw [hphase]
        rfl
  | readAgain run tasks => exact .committed (.second hp) hdb hworkers

theorem cancelStep_spec {s s' : OperationState} {i : Nat} {c : Cancellation}
    (hc : s.race.cancellations[i]? = some c) (hdb : s'.race.db = (c.step s.race.db).1)
    (hworkers : s'.race.working = s.race.working) : OperationSpec s s' (.race (.cancelStep i)) := by
  cases c with
  | begun run => exact .quiet hdb hworkers
  | read run tasks =>
      rw [Cancellation.step] at hdb
      split at hdb
      · exact .quiet hdb hworkers
      · rename_i rows hcancel
        exact .committed (.cancelled hc hcancel) hdb hworkers

theorem operationStep_spec {s s' : OperationState} {a : OperationAction}
    (h : operationStep s a = some s') : OperationSpec s s' a := by
  cases operation_carries h with
  | race hrace =>
      cases race_carries hrace with
      | create hsub hremaining => exact .created _ _ _ hsub hremaining rfl rfl
      | submitted hsub hremaining => exact .submitted _ hsub hremaining rfl rfl
      | abandonSubmission => exact .quiet rfl rfl
      | beginPass => exact .quiet rfl rfl
      | beginReviewPass _ => exact .quiet rfl rfl
      | passStep hpass => exact passStep_spec hpass rfl rfl
      | abandonPass => exact .quiet rfl rfl
      | beginCancellation => exact .quiet rfl rfl
      | cancelStep hcancellation => exact cancelStep_spec hcancellation rfl rfl
      | abandonCancellation => exact .quiet rfl rfl
      | reviewed hmem hreview => exact .row _ _ hmem (.reviewed hreview) rfl
      | abandonReview => exact .quiet rfl rfl
      | refused hmem hstart => exact .row _ _ hmem (.refused hstart) rfl
      | started hmem hstart => exact .row _ _ hmem (.started hstart) rfl
      | finished hmem hbusy => exact .row _ _ hmem (.finished _ _ hbusy) rfl
  | cancelTask hmem hcancel => exact .row _ _ hmem (.cancelled hcancel) rfl
  | beginRecovery => exact .quiet rfl rfl
  | commitRecovery hloaded => exact .committed (.recovered hloaded) rfl rfl
  | abandonRecovery => exact .quiet rfl rfl
  | beginStop => exact .quiet rfl rfl
  | readStop _ _ => exact .quiet rfl rfl
  | commitStop hstop hok => exact .committed (.stopped hstop hok) rfl rfl
  | abandonStop => exact .quiet rfl rfl

/-! ## What a commit writes -/

/-- What a process makes of the status of an object it commits. -/
inductive Rewrites (s : OperationState) (tasks : List AgentTask) (l c : AgentTask) :
    OperationAction → Prop where
  | kept {a : OperationAction} (status : c.status = l.status) : Rewrites s tasks l c a
  /-- A pass moves the waiting child `t`. -/
  | moved {i : Nat} (root t : AgentTask) (found : rootOf tasks = some root)
      (healthy : ∀ u ∈ childrenOf root tasks, u.status ≠ .failed) (mem : t ∈ childrenOf root tasks)
      (self : t.id = l.id) (waiting : t.status = .waitingChild)
      (status : c.status = .cancelled ∨ c.status = .pending ∨ c.status = .humanReview) :
      Rewrites s tasks l c (.race (.passStep i))
  /-- A pass ends the manager task. -/
  | failed {i : Nat} (root : AgentTask) (found : rootOf tasks = some root) (self : root.id = l.id)
      (status : c.status = .failed) : Rewrites s tasks l c (.race (.passStep i))
  /-- A pass puts the manager task into the queue. -/
  | released {i : Nat} {run : WorkflowRun} (root : AgentTask)
      (pass : s.race.passes[i]? = some (.readAgain run tasks)) (found : rootOf tasks = some root)
      (releases : Releases tasks) (self : root.id = l.id) (status : c.status = .pending) :
      Rewrites s tasks l c (.race (.passStep i))
  | cancelled {i : Nat} (open_ : l.status.cancellable = true) (status : c.status = .cancelled) :
      Rewrites s tasks l c (.race (.cancelStep i))
  | recovered {i : Nat} {workerId : String} (recovery : s.recoveries[i]? = some tasks)
      (status : Ended c.status) : Rewrites s tasks l c (.commitRecovery i workerId)
  | stopped {i : Nat}
      (open_ : l.status = .pending ∨ l.status = .retrying ∨ l.status = .running)
      (status : c.status = .cancelled) : Rewrites s tasks l c (.stopStep i)

/-- What becomes of an object that the step `a` commits. -/
structure Rewritten (s : OperationState) (a : OperationAction) (tasks : List AgentTask)
    (l c : AgentTask) : Prop where
  spec : c.toTaskSpec = l.toTaskSpec
  attempt : c.attempt = l.attempt
  status : Rewrites s tasks l c a

theorem rewritten_refl (s : OperationState) (a : OperationAction) (tasks : List AgentTask) :
    Evolves (Rewritten s a tasks) tasks tasks :=
  List.forall₂_same.mpr fun _ _ => ⟨rfl, rfl, .kept rfl⟩

theorem rewritten_scanned {s : OperationState} {i : Nat} {root : AgentTask}
    {tasks tasks' : List AgentTask} (found : rootOf tasks = some root)
    (healthy : ∀ u ∈ childrenOf root tasks, u.status ≠ .failed)
    (h : Evolves (Scanned (childrenOf root tasks)) tasks tasks') :
    Evolves (Rewritten s (.race (.passStep i)) tasks) tasks tasks' := by
  refine h.imp fun l c hscan => ⟨hscan.spec, hscan.attempt, ?_⟩
  rcases hscan.status with hsame | ⟨⟨t, ht, hid, hwait⟩, hset⟩
  · exact .kept hsame
  · exact .moved root t found healthy ht hid hwait hset

theorem rewritten_failRoot {s : OperationState} {i : Nat} {root : AgentTask}
    {tasks tasks' : List AgentTask} (found : rootOf tasks = some root)
    (h : Evolves (Rewritten s (.race (.passStep i)) tasks) tasks tasks') (error : String) :
    Evolves (Rewritten s (.race (.passStep i)) tasks) tasks
      (updateTask root.id (failRoot error) tasks') := by
  refine evolves_update h fun l b hlb hid => ?_
  have hself : root.id = l.id := hid.symm.trans (congrArg TaskSpec.id hlb.spec)
  unfold failRoot
  split
  · exact ⟨hlb.spec, hlb.attempt, .failed root found hself rfl⟩
  · exact hlb

theorem firstPhase_rewritten (s : OperationState) (i : Nat) (run : WorkflowRun)
    (tasks : List AgentTask) :
    Evolves (Rewritten s (.race (.passStep i)) tasks) tasks
      (firstPhase ⟨run, tasks⟩).rows.tasks := by
  have hcases := firstPhase_cases ⟨run, tasks⟩
  cases hphase : firstPhase ⟨run, tasks⟩ with
  | finished rows =>
      rw [hphase] at hcases
      cases hcases with
      | rootless absent => exact rewritten_refl s _ tasks
      | failed root t error found mem status =>
          exact rewritten_failRoot found (rewritten_refl s _ tasks) error
      | raised root error tasks' found healthy loop =>
          have hscan := ((scan_objects root).2 _ loop).1
          exact rewritten_failRoot found (rewritten_scanned found healthy hscan) error
  | promoted rows changed =>
      rw [hphase] at hcases
      cases hcases with
      | promoted root promotion found healthy loop =>
          exact rewritten_scanned found healthy ((scan_objects root).1 _ loop)

theorem secondPhase_rewritten {s : OperationState} {i : Nat} {run : WorkflowRun}
    {tasks : List AgentTask} (hpass : s.race.passes[i]? = some (.readAgain run tasks)) :
    Evolves (Rewritten s (.race (.passStep i)) tasks) tasks (secondPhase ⟨run, tasks⟩).1.tasks := by
  cases secondPhase_cases ⟨run, tasks⟩ with
  | kept tasks' run' =>
      rw [tasks']
      exact rewritten_refl s _ tasks
  | released root prompt found nonempty succeeded waiting run' tasks' =>
      have hreleases : Releases tasks := by
        unfold Releases
        rw [found]
        exact ⟨waiting, nonempty, succeeded⟩
      rw [tasks']
      refine evolves_update (rewritten_refl s _ tasks) fun l b hlb hid => ?_
      have hself : root.id = l.id := hid.symm.trans (congrArg TaskSpec.id hlb.spec)
      exact ⟨hlb.spec, hlb.attempt, .released root hpass found hreleases hself rfl⟩
  | failed root error found status run' tasks' =>
      rw [tasks']
      exact rewritten_failRoot found (rewritten_refl s _ tasks) error

/-- **Commits.** What becomes of the objects of a process that holds no lock. -/
theorem Commits.rewritten {s : OperationState} {a : OperationAction} {loaded rows : RunRows}
    (h : Commits s a loaded rows) :
    Evolves (Rewritten s a loaded.tasks) loaded.tasks rows.tasks := by
  cases h with
  | first pass => exact firstPhase_rewritten s _ _ _
  | second pass => exact secondPhase_rewritten pass
  | cancelled cancellation ok =>
      rw [(cancelWorkflowRun_ok ok).2.2.2]
      refine evolves_map fun t _ => ?_
      split
      · rename_i hcancellable
        exact ⟨rfl, rfl, .cancelled hcancellable rfl⟩
      · exact ⟨rfl, rfl, .kept rfl⟩
  | @recovered i workerId loaded recovery =>
      refine evolves_map fun t _ => ?_
      obtain ⟨hspec, hattempt, hended⟩ := recoverTask_spec workerId t
      exact ⟨hspec, hattempt, .recovered recovery hended⟩
  | stopped stop ok =>
      obtain ⟨hspec, hstatus⟩ := stopExecution_ok ok
      have hattempt := stopExecution_attempt ok
      refine .cons ⟨hspec, hattempt, ?_⟩ .nil
      rcases hstatus with hsame | ⟨hopen, hcancelled⟩
      · exact .kept hsame
      · exact .stopped hopen hcancelled

/-- A row after a commit keeps its spec and its attempts, and its status unless the
    process has set it. -/
theorem Commits.row {s : OperationState} {a : OperationAction} {loaded rows : RunRows}
    (h : Commits s a loaded rows) {d' : AgentTask}
    (hd' : d' ∈ (commit loaded rows s.race.db).tasks) :
    ∃ d ∈ s.race.db.tasks, d'.toTaskSpec = d.toTaskSpec ∧ d'.attempt = d.attempt ∧
      (d'.status = d.status ∨ ∃ l ∈ loaded.tasks, ∃ c ∈ rows.tasks, l.id = d.id ∧
        c.status ≠ l.status ∧ d'.status = c.status ∧ Rewrites s loaded.tasks l c a) := by
  obtain ⟨d, hd, ⟨rfl, -⟩ | ⟨l, hl, c, hc, hR, hid, rfl⟩⟩ := commit_rows h.rewritten hd'
  · exact ⟨d', hd, rfl, rfl, Or.inl rfl⟩
  · refine ⟨d, hd, rfl, if_pos hR.attempt, ?_⟩
    rcases commitColumn_cases l.status c.status d.status with hsame | ⟨hne, hnew⟩
    · exact Or.inl hsame
    · exact Or.inr ⟨l, hl, c, hc, hid, hne, hnew, hR.status⟩

/-- A commit makes no task wait. -/
theorem Rewrites.ne_waiting {s : OperationState} {a : OperationAction} {tasks : List AgentTask}
    {l c : AgentTask} (h : Rewrites s tasks l c a) (hne : c.status ≠ l.status) :
    c.status ≠ .waitingChild := by
  intro hwait
  cases h with
  | kept status => exact hne status
  | moved root t found healthy mem self waiting status =>
      rw [hwait] at status
      simp at status
  | failed root found self status => rw [hwait] at status; cases status
  | released root pass found releases self status => rw [hwait] at status; cases status
  | cancelled open_ status => rw [hwait] at status; cases status
  | recovered recovery status =>
      rw [hwait] at status
      simp [Ended] at status
  | stopped open_ status => rw [hwait] at status; cases status

/-! ## The objects of the processes -/

/-- A process holds the object `o`. -/
inductive Held (s : OperationState) (o : AgentTask) : Prop where
  | pass {p : Pass} (mem : p ∈ s.race.passes) (object : o ∈ p.tasks)
  | cancellation {c : Cancellation} (mem : c ∈ s.race.cancellations) (object : o ∈ c.tasks)
  | reviewed (mem : o ∈ s.race.reviewed)
  | recovery {loaded : List AgentTask} (mem : loaded ∈ s.recoveries) (object : o ∈ loaded)
  | stop {p : Stop} (mem : p ∈ s.stops) (object : o ∈ p.tasks)

/-- Where an object that a process holds after the step `a` comes from. -/
inductive Source (s : OperationState) (a : OperationAction) (o : AgentTask) : Prop where
  | held (held : Held s o)
  | read (mem : o ∈ s.race.db.tasks)
  /-- The first phase of a pass has changed it. -/
  | promoted {i : Nat} {run : WorkflowRun} {tasks : List AgentTask} {rows : RunRows}
      {changed : List Nat} (action : a = .race (.passStep i))
      (pass : s.race.passes[i]? = some (.read run tasks))
      (phase : firstPhase ⟨run, tasks⟩ = .promoted rows changed) (mem : o ∈ rows.tasks)
  | reviewed {t : AgentTask} {approved : Bool} {note : Option String} (mem : t ∈ s.race.db.tasks)
      (review : reviewTask approved note t = .ok o)
  /-- A stop has read the task of its execution. -/
  | stopped {session : AgentSession} {execution : Option ExecutionLog} {t : AgentTask}
      (stop : Stop.begun t.id session execution ∈ s.stops) (mem : t ∈ s.race.db.tasks)
      (object : o = { t with session := session, execution := execution })

theorem Commits.held {s : OperationState} {a : OperationAction} {loaded rows : RunRows}
    (h : Commits s a loaded rows) {l : AgentTask}
    (hl : l ∈ loaded.tasks) : Held s l := by
  cases h with
  | first pass => exact .pass (List.mem_of_getElem? pass) hl
  | second pass => exact .pass (List.mem_of_getElem? pass) hl
  | cancelled cancellation ok => exact .cancellation (List.mem_of_getElem? cancellation) hl
  | recovered recovery => exact .recovery (List.mem_of_getElem? recovery) hl
  | stopped stop ok => exact .stop (List.mem_of_getElem? stop) hl

theorem mem_listRunTasks {objects : List AgentTask} {db : RunRows} {o : AgentTask}
    (h : o ∈ listRunTasks objects db) : o ∈ objects ∨ o ∈ db.tasks := by
  obtain ⟨d, hd, rfl⟩ := List.mem_map.mp h
  cases hfind : objects.find? fun o => o.id = d.id with
  | none => exact Or.inr hd
  | some o => exact Or.inl (List.mem_of_find?_eq_some hfind)

/-- The objects of a pass after its next access. -/
theorem passStep_source {s : OperationState} {i : Nat} {p q : Pass}
    (hp : s.race.passes[i]? = some p) (hq : (p.step s.race.db).2 = some q) {o : AgentTask}
    (ho : o ∈ q.tasks) : Source s (.race (.passStep i)) o := by
  have hpmem := List.mem_of_getElem? hp
  have hlist : ∀ {objects : List AgentTask}, objects ⊆ p.tasks →
      o ∈ listRunTasks objects s.race.db → Source s (.race (.passStep i)) o := by
    intro objects hsub hmem
    rcases mem_listRunTasks hmem with hmem | hmem
    · exact .held (.pass hpmem (hsub hmem))
    · exact .read hmem
  cases p with
  | begun run tasks =>
      cases hq
      exact hlist (List.Subset.refl _) ho
  | read run tasks =>
      simp only [Pass.step] at hq
      split at hq
      · cases hq
      · rename_i rows changed hphase
        cases hq
        exact .promoted rfl hp hphase ho
  | committed run tasks =>
      cases hq
      exact .held (.pass hpmem ho)
  | refreshed run tasks =>
      cases hq
      exact hlist (List.Subset.refl _) ho
  | readAgain run tasks => cases hq

/-- The objects after a step that adds none to those of the other processes. -/
theorem Held.mono {s s' : OperationState} {o : AgentTask} (h : Held s' o)
    (hpasses : s'.race.passes ⊆ s.race.passes)
    (hcancellations : s'.race.cancellations ⊆ s.race.cancellations)
    (hreviewed : s'.race.reviewed ⊆ s.race.reviewed) (hrecoveries : s'.recoveries ⊆ s.recoveries)
    (hstops : s'.stops ⊆ s.stops) : Held s o := by
  cases h with
  | pass mem object => exact .pass (hpasses mem) object
  | cancellation mem object => exact .cancellation (hcancellations mem) object
  | reviewed mem => exact .reviewed (hreviewed mem)
  | recovery mem object => exact .recovery (hrecoveries mem) object
  | stop mem object => exact .stop (hstops mem) object

theorem heldRace_step {s : OperationState} {race : RaceState} {a : RaceAction}
    (h : raceStep s.race a = some race) {o : AgentTask} (ho : Held { s with race := race } o) :
    Source s (.race a) o := by
  have hself : ∀ {α : Type} (l : List α), l ⊆ l := fun l => List.Subset.refl l
  cases race_carries h with
  | create _ _ => exact .held (ho.mono (hself _) (hself _) (hself _) (hself _) (hself _))
  | submitted _ _ => exact .held (ho.mono (hself _) (hself _) (hself _) (hself _) (hself _))
  | abandonSubmission => exact .held (ho.mono (hself _) (hself _) (hself _) (hself _) (hself _))
  | beginPass =>
      cases ho with
      | pass mem object =>
          rcases List.mem_append.mp mem with mem | mem
          · exact .held (.pass mem object)
          · rw [List.mem_singleton.mp mem] at object
            cases object
      | cancellation mem object => exact .held (.cancellation mem object)
      | reviewed mem => exact .held (.reviewed mem)
      | recovery mem object => exact .held (.recovery mem object)
      | stop mem object => exact .held (.stop mem object)
  | @beginReviewPass i t hreviewed =>
      cases ho with
      | pass mem object =>
          rcases List.mem_append.mp mem with mem | mem
          · exact .held (.pass mem object)
          · -- The pass takes the object over from the request.
            rw [List.mem_singleton.mp mem] at object
            rw [List.mem_singleton.mp object]
            exact .held (.reviewed (List.mem_of_getElem? hreviewed))
      | cancellation mem object => exact .held (.cancellation mem object)
      | reviewed mem => exact .held (.reviewed (List.mem_of_mem_eraseIdx mem))
      | recovery mem object => exact .held (.recovery mem object)
      | stop mem object => exact .held (.stop mem object)
  | @passStep i p hpass =>
      cases ho with
      | pass mem object =>
          rcases mem_replaceAt mem with mem | mem
          · exact .held (.pass mem object)
          · exact passStep_source hpass mem object
      | cancellation mem object => exact .held (.cancellation mem object)
      | reviewed mem => exact .held (.reviewed mem)
      | recovery mem object => exact .held (.recovery mem object)
      | stop mem object => exact .held (.stop mem object)
  | abandonPass =>
      exact .held (ho.mono List.eraseIdx_subset (hself _) (hself _) (hself _) (hself _))
  | beginCancellation =>
      cases ho with
      | pass mem object => exact .held (.pass mem object)
      | cancellation mem object =>
          rcases List.mem_append.mp mem with mem | mem
          · exact .held (.cancellation mem object)
          · rw [List.mem_singleton.mp mem] at object
            cases object
      | reviewed mem => exact .held (.reviewed mem)
      | recovery mem object => exact .held (.recovery mem object)
      | stop mem object => exact .held (.stop mem object)
  | @cancelStep i c _ =>
      cases ho with
      | pass mem object => exact .held (.pass mem object)
      | cancellation mem object =>
          rcases mem_replaceAt mem with mem | mem
          · exact .held (.cancellation mem object)
          · cases c with
            | begun run =>
                cases mem
                exact .read ((mem_listRunTasks object).resolve_left List.not_mem_nil)
            | read run tasks =>
                simp only [Cancellation.step] at mem
                split at mem <;> cases mem
      | reviewed mem => exact .held (.reviewed mem)
      | recovery mem object => exact .held (.recovery mem object)
      | stop mem object => exact .held (.stop mem object)
  | abandonCancellation =>
      exact .held (ho.mono (hself _) List.eraseIdx_subset (hself _) (hself _) (hself _))
  | reviewed hmem hreview =>
      cases ho with
      | pass mem object => exact .held (.pass mem object)
      | cancellation mem object => exact .held (.cancellation mem object)
      | reviewed mem =>
          rcases List.mem_append.mp mem with mem | mem
          · exact .held (.reviewed mem)
          · rw [List.mem_singleton.mp mem]
            exact .reviewed hmem hreview
      | recovery mem object => exact .held (.recovery mem object)
      | stop mem object => exact .held (.stop mem object)
  | abandonReview =>
      exact .held (ho.mono (hself _) (hself _) List.eraseIdx_subset (hself _) (hself _))
  | refused _ _ => exact .held (ho.mono (hself _) (hself _) (hself _) (hself _) (hself _))
  | started _ _ => exact .held (ho.mono (hself _) (hself _) (hself _) (hself _) (hself _))
  | finished _ _ => exact .held (ho.mono (hself _) (hself _) (hself _) (hself _) (hself _))

theorem held_step {s s' : OperationState} {a : OperationAction} (h : operationStep s a = some s')
    {o : AgentTask} (ho : Held s' o) : Source s a o := by
  have hself : ∀ {α : Type} (l : List α), l ⊆ l := fun l => List.Subset.refl l
  cases operation_carries h with
  | race hrace => exact heldRace_step hrace ho
  | cancelTask _ _ => exact .held (ho.mono (hself _) (hself _) (hself _) (hself _) (hself _))
  | beginRecovery =>
      cases ho with
      | pass mem object => exact .held (.pass mem object)
      | cancellation mem object => exact .held (.cancellation mem object)
      | reviewed mem => exact .held (.reviewed mem)
      | recovery mem object =>
          rcases List.mem_append.mp mem with mem | mem
          · exact .held (.recovery mem object)
          · -- The select of the stale tasks.
            rw [List.mem_singleton.mp mem] at object
            exact .read (List.mem_filter.mp object).1
      | stop mem object => exact .held (.stop mem object)
  | commitRecovery _ =>
      exact .held (ho.mono (hself _) (hself _) (hself _) List.eraseIdx_subset (hself _))
  | abandonRecovery =>
      exact .held (ho.mono (hself _) (hself _) (hself _) List.eraseIdx_subset (hself _))
  | beginStop =>
      cases ho with
      | pass mem object => exact .held (.pass mem object)
      | cancellation mem object => exact .held (.cancellation mem object)
      | reviewed mem => exact .held (.reviewed mem)
      | recovery mem object => exact .held (.recovery mem object)
      | stop mem object =>
          rcases List.mem_append.mp mem with mem | mem
          · exact .held (.stop mem object)
          · -- It has read an execution and a session, but no task.
            rw [List.mem_singleton.mp mem] at object
            cases object
  | readStop hstop hmem =>
      cases ho with
      | pass mem object => exact .held (.pass mem object)
      | cancellation mem object => exact .held (.cancellation mem object)
      | reviewed mem => exact .held (.reviewed mem)
      | recovery mem object => exact .held (.recovery mem object)
      | stop mem object =>
          rcases List.mem_or_eq_of_mem_set mem with mem | rfl
          · exact .held (.stop mem object)
          · exact .stopped (List.mem_of_getElem? hstop) hmem (List.mem_singleton.mp object)
  | commitStop _ _ =>
      exact .held (ho.mono (hself _) (hself _) (hself _) (hself _) List.eraseIdx_subset)
  | abandonStop =>
      exact .held (ho.mono (hself _) (hself _) (hself _) (hself _) List.eraseIdx_subset)

theorem recoveries_step {s s' : OperationState} {a : OperationAction}
    (h : operationStep s a = some s') {loaded : List AgentTask} (hloaded : loaded ∈ s'.recoveries) :
    loaded ∈ s.recoveries ∨ ∀ l ∈ loaded, l ∈ s.race.db.tasks ∧ l.status = .running := by
  cases operation_carries h with
  | race _ => exact Or.inl hloaded
  | cancelTask _ _ => exact Or.inl hloaded
  | beginRecovery =>
      rcases List.mem_append.mp hloaded with hloaded | hloaded
      · exact Or.inl hloaded
      · right
        intro l hl
        rw [List.mem_singleton.mp hloaded] at hl
        obtain ⟨hmem, hstale⟩ := List.mem_filter.mp hl
        exact ⟨hmem, (of_decide_eq_true hstale).1⟩
  | commitRecovery _ => exact Or.inl (List.mem_of_mem_eraseIdx hloaded)
  | abandonRecovery => exact Or.inl (List.mem_of_mem_eraseIdx hloaded)
  | beginStop => exact Or.inl hloaded
  | readStop _ _ => exact Or.inl hloaded
  | commitStop _ _ => exact Or.inl hloaded
  | abandonStop => exact Or.inl hloaded

/-! ## Passes -/

/-- The operations of this module leave the processes of the others alone. -/
theorem operation_race {s s' : OperationState} {a : OperationAction}
    (h : operationStep s a = some s') :
    (∃ b, a = .race b ∧ raceStep s.race b = some s'.race) ∨
      s'.race = { s.race with db := s'.race.db } := by
  cases operation_carries h with
  | race hrace => exact Or.inl ⟨_, rfl, hrace⟩
  | cancelTask _ _ => exact Or.inr rfl
  | beginRecovery => exact Or.inr rfl
  | commitRecovery _ => exact Or.inr rfl
  | abandonRecovery => exact Or.inr rfl
  | beginStop => exact Or.inr rfl
  | readStop _ _ => exact Or.inr rfl
  | commitStop _ _ => exact Or.inr rfl
  | abandonStop => exact Or.inr rfl

/-- The rows after the next access of a pass. -/
theorem passStep_db {s s' : OperationState} {i : Nat} {p : Pass}
    (hpass : s.race.passes[i]? = some p) (hstep : operationStep s (.race (.passStep i)) = some s') :
    s'.race.db = (p.step s.race.db).1 := by
  obtain ⟨race, hrace, rfl⟩ := Option.map_eq_some_iff.mp hstep
  simp only [raceStep, hpass, Option.bind_some, Option.some.injEq] at hrace
  rw [← hrace]

/-- The passes after a step: those before it, one that begins, and the one that has
    made its next access. -/
theorem passes_step {s s' : OperationState} {a : OperationAction}
    (h : operationStep s a = some s') {q : Pass} (hq : q ∈ s'.race.passes) :
    q ∈ s.race.passes ∨ (∃ run tasks, q = .begun run tasks ∧ tasks ⊆ s.race.reviewed) ∨
      ∃ i p, a = .race (.passStep i) ∧ s.race.passes[i]? = some p ∧
        (p.step s.race.db).2 = some q := by
  rcases operation_race h with ⟨b, rfl, hrace⟩ | hsame
  · generalize s'.race = race at hrace hq
    cases race_carries hrace with
    | beginPass =>
        rcases List.mem_append.mp hq with hq | hq
        · exact Or.inl hq
        · exact Or.inr (Or.inl ⟨_, _, List.mem_singleton.mp hq, List.nil_subset _⟩)
    | beginReviewPass hreviewed =>
        rcases List.mem_append.mp hq with hq | hq
        · exact Or.inl hq
        · refine Or.inr (Or.inl ⟨_, _, List.mem_singleton.mp hq, ?_⟩)
          exact List.cons_subset.mpr ⟨List.mem_of_getElem? hreviewed, List.nil_subset _⟩
    | passStep hpass =>
        rcases mem_replaceAt hq with hq | hq
        · exact Or.inl hq
        · exact Or.inr (Or.inr ⟨_, _, rfl, hpass, hq⟩)
    | abandonPass => exact Or.inl (List.mem_of_mem_eraseIdx hq)
    | create _ _ => exact Or.inl hq
    | submitted _ _ => exact Or.inl hq
    | abandonSubmission => exact Or.inl hq
    | beginCancellation => exact Or.inl hq
    | cancelStep _ => exact Or.inl hq
    | abandonCancellation => exact Or.inl hq
    | reviewed _ _ => exact Or.inl hq
    | abandonReview => exact Or.inl hq
    | refused _ _ => exact Or.inl hq
    | started _ _ => exact Or.inl hq
    | finished _ _ => exact Or.inl hq
  · rw [hsame] at hq
    exact Or.inl hq

theorem reviewed_step {s s' : OperationState} {a : OperationAction}
    (h : operationStep s a = some s') {o : AgentTask} (ho : o ∈ s'.race.reviewed) :
    o ∈ s.race.reviewed ∨ ∃ t ∈ s.race.db.tasks, ∃ approved note,
      reviewTask approved note t = .ok o := by
  rcases operation_race h with ⟨b, rfl, hrace⟩ | hsame
  · generalize s'.race = race at hrace ho
    cases race_carries hrace with
    | beginReviewPass _ => exact Or.inl (List.mem_of_mem_eraseIdx ho)
    | reviewed hmem hreview =>
        rcases List.mem_append.mp ho with ho | ho
        · exact Or.inl ho
        · rw [List.mem_singleton.mp ho]
          exact Or.inr ⟨_, hmem, _, _, hreview⟩
    | abandonReview => exact Or.inl (List.mem_of_mem_eraseIdx ho)
    | create _ _ => exact Or.inl ho
    | submitted _ _ => exact Or.inl ho
    | abandonSubmission => exact Or.inl ho
    | beginPass => exact Or.inl ho
    | passStep _ => exact Or.inl ho
    | abandonPass => exact Or.inl ho
    | beginCancellation => exact Or.inl ho
    | cancelStep _ => exact Or.inl ho
    | abandonCancellation => exact Or.inl ho
    | refused _ _ => exact Or.inl ho
    | started _ _ => exact Or.inl ho
    | finished _ _ => exact Or.inl ho
  · rw [hsame] at ho
    exact Or.inl ho

theorem submission_step {s s' : OperationState} {a : OperationAction}
    (h : operationStep s a = some s') (hnone : s.race.submission = none) :
    s'.race.submission = none := by
  rcases operation_race h with ⟨b, rfl, hrace⟩ | hsame
  · generalize s'.race = race at hrace ⊢
    cases race_carries hrace with
    | create hsub _ =>
        rw [hnone] at hsub
        cases hsub
    | submitted _ _ => rfl
    | abandonSubmission => rfl
    | beginPass => exact hnone
    | beginReviewPass _ => exact hnone
    | passStep _ => exact hnone
    | abandonPass => exact hnone
    | beginCancellation => exact hnone
    | cancelStep _ => exact hnone
    | abandonCancellation => exact hnone
    | reviewed _ _ => exact hnone
    | abandonReview => exact hnone
    | refused _ _ => exact hnone
    | started _ _ => exact hnone
    | finished _ _ => exact hnone
  · rw [hsame]
    exact hnone

/-! ## Runs after their submission -/

section Whole

variable {deps : String → List String} {s s' : OperationState} {a : OperationAction}

/-- The pass has read the tasks of the run. -/
def Pass.hasRead : Pass → Bool
  | .begun _ _ => false
  | _ => true

/-- All tasks of the run exist, and the processes hold no others. -/
structure Whole (deps : String → List String) (s : OperationState) : Prop where
  shape : RunShape deps s.race.db.tasks
  submission : s.race.submission = none
  held : ∀ o, Held s o → ∃ d ∈ s.race.db.tasks, o.toTaskSpec = d.toTaskSpec
  passes : ∀ p ∈ s.race.passes, p.hasRead = true → specs p.tasks = specs s.race.db.tasks

theorem specs_commit (loaded rows db : RunRows) :
    specs (commit loaded rows db).tasks = specs db.tasks := by
  apply specs_map
  intro t
  split <;> rfl

theorem specs_operation (h : Whole deps s) (hstep : operationStep s a = some s') :
    specs s'.race.db.tasks = specs s.race.db.tasks := by
  cases operationStep_spec hstep with
  | quiet db workers => rw [db]
  | created sub t rest current remaining db workers =>
      rw [h.submission] at current
      cases current
  | submitted sub current remaining db workers =>
      rw [h.submission] at current
      cases current
  | committed commits db workers =>
      rw [db]
      exact specs_commit _ _ _
  | row t t' mem change db =>
      rw [db]
      exact specs_setTask h.shape mem change.spec

/-- `list_run_tasks` gives one object for each row. -/
theorem specs_listRunTasks {db : RunRows} (h : RunShape deps db.tasks) {objects : List AgentTask}
    (hobjects : ∀ o ∈ objects, ∃ d ∈ db.tasks, o.toTaskSpec = d.toTaskSpec) :
    specs (listRunTasks objects db) = specs db.tasks := by
  unfold specs listRunTasks
  rw [List.map_map]
  apply List.map_congr_left
  intro d hd
  simp only [Function.comp_apply]
  cases hfind : objects.find? fun o => o.id = d.id with
  | none => rfl
  | some o =>
      obtain ⟨e, he, hspec⟩ := hobjects o (List.mem_of_find?_eq_some hfind)
      have hid : o.id = d.id := by simpa using List.find?_some hfind
      -- The row with the id of `d` is `d`.
      have heq : e = d := h.eq_of_id he hd ((congrArg TaskSpec.id hspec).symm.trans hid)
      rw [← heq]
      exact hspec

theorem specs_firstPhase {run : WorkflowRun} {tasks : List AgentTask} {rows : RunRows}
    {changed : List Nat} (hphase : firstPhase ⟨run, tasks⟩ = .promoted rows changed) :
    specs rows.tasks = specs tasks := by
  have hcases := firstPhase_cases ⟨run, tasks⟩
  rw [hphase] at hcases
  cases hcases with
  | promoted root promotion found healthy loop =>
      exact specs_of_evolves (fun _ _ hR => hR.spec) ((scan_objects root).1 _ loop)

/-- The specs of the rows are those of the objects. -/
theorem exists_spec {tasks tasks' : List AgentTask} (h : specs tasks = specs tasks') {o : AgentTask}
    (ho : o ∈ tasks) : ∃ d ∈ tasks', o.toTaskSpec = d.toTaskSpec := by
  have hmem : o.toTaskSpec ∈ specs tasks' := by
    rw [← h]
    exact List.mem_map.mpr ⟨o, ho, rfl⟩
  obtain ⟨d, hd, hspec⟩ := List.mem_map.mp hmem
  exact ⟨d, hd, hspec.symm⟩

theorem whole_pass (h : Whole deps s) {p q : Pass} (hp : p ∈ s.race.passes)
    (hq : (p.step s.race.db).2 = some q) : specs q.tasks = specs s.race.db.tasks := by
  have hobjects : ∀ o ∈ p.tasks, ∃ d ∈ s.race.db.tasks, o.toTaskSpec = d.toTaskSpec :=
    fun o ho => h.held o (.pass hp ho)
  cases p with
  | begun run tasks =>
      cases hq
      exact specs_listRunTasks h.shape hobjects
  | read run tasks =>
      have hspecs : specs tasks = specs s.race.db.tasks := h.passes _ hp rfl
      simp only [Pass.step] at hq
      split at hq
      · cases hq
      · rename_i rows changed hphase
        cases hq
        exact (specs_firstPhase hphase).trans hspecs
  | committed run tasks =>
      cases hq
      exact h.passes (.committed run tasks) hp rfl
  | refreshed run tasks =>
      cases hq
      exact specs_listRunTasks h.shape hobjects
  | readAgain run tasks => cases hq

theorem whole_step (h : Whole deps s) (hstep : operationStep s a = some s') : Whole deps s' := by
  have hspecs := specs_operation h hstep
  have hkept : ∀ d ∈ s.race.db.tasks, ∃ d' ∈ s'.race.db.tasks, d.toTaskSpec = d'.toTaskSpec :=
    fun d hd => exists_spec hspecs.symm hd
  refine ⟨h.shape.congr hspecs, submission_step hstep h.submission, ?_, ?_⟩
  · intro o ho
    have hread : ∃ d ∈ s.race.db.tasks, o.toTaskSpec = d.toTaskSpec := by
      cases held_step hstep ho with
      | held held => exact h.held o held
      | read mem => exact ⟨o, mem, rfl⟩
      | promoted action pass phase mem =>
          obtain ⟨l, hl, hspec⟩ := exists_spec (specs_firstPhase phase) mem
          obtain ⟨d, hd, hd'⟩ := h.held l (.pass (List.mem_of_getElem? pass) hl)
          exact ⟨d, hd, hspec.trans hd'⟩
      | reviewed mem review => exact ⟨_, mem, (reviewTask_ok review).2.1⟩
      | stopped stop mem object => exact ⟨_, mem, by rw [object]⟩
    obtain ⟨d, hd, hspec⟩ := hread
    obtain ⟨d', hd', hspec'⟩ := hkept d hd
    exact ⟨d', hd', hspec.trans hspec'⟩
  · intro q hq hread
    rw [hspecs]
    rcases passes_step hstep hq with hold | ⟨run, tasks, rfl, -⟩ | ⟨i, p, -, hp, hnext⟩
    · exact h.passes q hold hread
    · cases hread
    · exact whole_pass h (List.mem_of_getElem? hp) hnext

/-- Before anything begins, no process holds an object. -/
theorem not_held_operating {db : RunRows} {submission : Option Submission} {o : AgentTask} :
    ¬ Held (operating ⟨db, submission, [], [], [], []⟩) o := by
  intro ho
  cases ho with
  | pass mem _ => cases mem
  | cancellation mem _ => cases mem
  | reviewed mem => cases mem
  | recovery mem _ => cases mem
  | stop mem _ => cases mem

theorem whole_operating {rows : RunRows} (h : RunShape deps rows.tasks) :
    Whole deps (operating ⟨rows, none, [], [], [], []⟩) := by
  refine ⟨h, rfl, fun o ho => absurd ho not_held_operating, ?_⟩
  intro p hp
  cases hp

theorem whole_submitted (h : OperationsSubmitted s) : ∃ deps, Whole deps s := by
  obtain ⟨run, hrun, rfl⟩ := h
  obtain ⟨deps, hshape⟩ := @submitted_shape System.anyStep _ (.init hrun)
  exact ⟨deps, whole_operating hshape⟩

end Whole

end Orchestration
end HermesPlatform
