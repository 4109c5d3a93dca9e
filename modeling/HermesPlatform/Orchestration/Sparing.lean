/-
  HermesPlatform.Orchestration.Sparing

  Which tasks a run can still get to.

  The manager task waits for its children to succeed, and a child for those it
  depends on.  `SparesChildren` is the condition that while a task waits, no
  operation ends a child otherwise than by a success.  Along runs that meet it and
  the condition of `Statuses`, no child has failed or been cancelled while a task
  waits, every running task has a worker and the run is active (`Prospects`).
-/

import HermesPlatform.Orchestration.Statuses

namespace HermesPlatform
namespace Orchestration

open Python Transition

/-! ## The condition -/

/-- Some task waits for others. -/
def Waits (rows : RunRows) : Prop := ∃ t ∈ rows.tasks, t.status = .waitingChild

/-- The worker's run of the task is a success or can be tried again. -/
def Outcome.spares (t : AgentTask) : Outcome → Prop
  | .succeeded _ => True
  | .failed _ => t.attempt < t.maxAttempts
  | .cancelled => False
  | .unavailable _ => False

/-- No child ends but by a success: its Agent is active when it is started, it has
    attempts left when a worker fails or its lease expires, it is approved when it
    is reviewed, and nobody cancels it or stops its execution. -/
def SparesChildren (s : OperationState) : OperationAction → Prop
  | .race (.start id _ agentActive) =>
      ∀ t ∈ s.race.db.tasks, t.id = id → t.parentTaskId ≠ none → agentActive = true
  | .race (.finish id _ outcome) =>
      ∀ t ∈ s.race.db.tasks, t.id = id → t.parentTaskId ≠ none → outcome.spares t
  | .race (.review _ approved _) => approved = true
  | .cancelTask id => ∀ t ∈ s.race.db.tasks, t.id = id → t.parentTaskId = none
  | .commitRecovery i _ => ∀ loaded, s.recoveries[i]? = some loaded →
      ∀ l ∈ loaded, l.parentTaskId ≠ none → l.attempt < l.maxAttempts
  | .stopStep i => ∀ t, s.stops[i]? = some (.read t) → t.parentTaskId = none
  | _ => True

/-- The condition of `Statuses`, and while a task waits the children are spared. -/
def Sparing (s : OperationState) (a : OperationAction) : Prop :=
  Agreeing s a ∧ (Waits s.race.db → SparesChildren s a)

/-! ## What a spared task becomes -/

/-- The status of a child that neither has failed nor was cancelled. -/
def TaskStatus.Spared (status : TaskStatus) : Prop := status ≠ .failed ∧ status ≠ .cancelled

theorem startTask_spared {workerId : String} {t t' : AgentTask}
    (h : startTask workerId true t = .finished t') : t'.status.Spared := by
  unfold startTask at h
  split at h
  · cases h
  · split at h
    · cases h
      exact ⟨by simp, by simp⟩
    · simp at h

theorem finishTask_spared {workerId : String} {outcome : Outcome} {t : AgentTask}
    (hrow : RowAgrees t) (hstatus : t.status.Spared) (h : outcome.spares t) :
    (finishTask workerId outcome t).status.Spared := by
  cases outcome with
  | succeeded output =>
      -- The execution of a task that was not cancelled is not cancelled.
      have hexecution : t.executionStatus ≠ some .cancelled := by
        rw [hrow.execution]
        intro hcancelled
        have hwork := Option.some.inj hcancelled
        cases hs : t.status <;> rw [hs] at hwork <;> cases hwork
        exact hstatus.2 hs
      simp only [finishTask, if_neg hexecution]
      exact ⟨by simp, by simp⟩
  | failed message =>
      obtain ⟨-, -, hafter⟩ := finishFailed_spec message t
      have hleft : t.attempt < t.maxAttempts := h
      simp only [finishTask]
      rw [hafter, if_neg hstatus.2, if_pos hleft]
      exact ⟨by simp, by simp⟩
  | cancelled => exact h.elim
  | unavailable message => exact h.elim

theorem recoverTask_spared (workerId : String) {t : AgentTask} (h : t.attempt < t.maxAttempts) :
    (recoverTask workerId t).status.Spared := by
  unfold recoverTask
  split
  · exact ⟨by simp, by simp⟩
  · simp only [decide_eq_true h, if_true]
    exact ⟨by simp, by simp⟩

/-! ## No task waits again -/

section Steps

variable {deps : String → List String} {s s' : OperationState} {a : OperationAction}

/-- A task that waits after a step has waited before it. -/
theorem waiting_before (h : Whole deps s) (hstep : operationStep s a = some s') {d' : AgentTask}
    (hd' : d' ∈ s'.race.db.tasks) (hwait : d'.status = .waitingChild) :
    ∃ d ∈ s.race.db.tasks, d'.toTaskSpec = d.toTaskSpec ∧ d.status = .waitingChild := by
  cases operationStep_spec hstep with
  | quiet db workers =>
      rw [db] at hd'
      exact ⟨d', hd', rfl, hwait⟩
  | created sub t rest current remaining db workers =>
      rw [h.submission] at current
      cases current
  | submitted sub current remaining db workers =>
      rw [h.submission] at current
      cases current
  | committed commits db workers =>
      rw [db] at hd'
      obtain ⟨d, hd, hspec, -, hsame | ⟨l, -, c, -, -, hne, hnew, hrewrites⟩⟩ := commits.row hd'
      · exact ⟨d, hd, hspec, hsame.symm.trans hwait⟩
      · exact absurd (hnew.symm.trans hwait) (hrewrites.ne_waiting hne)
  | row t t' mem change db =>
      rw [db] at hd'
      rcases mem_setTask hd' with rfl | ⟨hd, -⟩
      · exact absurd hwait change.ne_waiting
      · exact ⟨d', hd, rfl, hwait⟩

theorem waits_before (h : Whole deps s) (hstep : operationStep s a = some s')
    (hwaits : Waits s'.race.db) : Waits s.race.db := by
  obtain ⟨d', hd', hwait⟩ := hwaits
  obtain ⟨d, hd, -, hbefore⟩ := waiting_before h hstep hd' hwait
  exact ⟨d, hd, hbefore⟩

/-! ## What a commit moves -/

/-- What a process that settles what it has read makes of the status of an object. -/
inductive Moves (s : OperationState) (tasks : List AgentTask) (l c : AgentTask) :
    OperationAction → Prop where
  | kept {a : OperationAction} (status : c.status = l.status) : Moves s tasks l c a
  | promoted {i : Nat} (child : l.parentTaskId ≠ none)
      (status : c.status = .pending ∨ c.status = .humanReview) :
      Moves s tasks l c (.race (.passStep i))
  /-- All children have succeeded, and the manager task is put into the queue. -/
  | released {i : Nat} (all : specs tasks = specs s.race.db.tasks)
      (succeeded : ∀ t ∈ tasks, t.parentTaskId ≠ none → t.status = .succeeded)
      (status : c.status = .pending) : Moves s tasks l c (.race (.passStep i))
  | cancelled {i : Nat} {run : WorkflowRun}
      (cancellation : s.race.cancellations[i]? = some (.read run tasks))
      (object : c = if l.status.cancellable then cancelRow l else l) :
      Moves s tasks l c (.race (.cancelStep i))
  | recovered {i : Nat} {workerId : String} (recovery : s.recoveries[i]? = some tasks)
      (object : c = recoverTask workerId l) : Moves s tasks l c (.commitRecovery i workerId)
  | stopped {i : Nat} (stop : s.stops[i]? = some (.read l)) (open_ : l.status ≠ .waitingChild)
      (status : c.status = .cancelled) : Moves s tasks l c (.stopStep i)

theorem Commits.moves (h : Whole deps s) (hsettles : PassSettles s a) {loaded rows : RunRows}
    (hcommits : Commits s a loaded rows) :
    Evolves (fun l c => Moves s loaded.tasks l c a) loaded.tasks rows.tasks := by
  cases hcommits with
  | @first i run tasks pass =>
      obtain ⟨r, cs, hsplit⟩ : ∃ r cs, Split deps tasks r cs :=
        h.split (List.mem_of_getElem? pass) rfl
      refine (firstPhase_agrees_rows hsplit (hsettles run tasks pass)).imp_mem ?_
      rintro l hl c - (rfl | ⟨hscan, hkeep⟩)
      · exact .kept rfl
      · rcases hscan.status with hsame | ⟨⟨t, ht, hid, hwait⟩, hset⟩
        · exact .kept hsame
        · -- The waiting child with the id of `l` is `l`.
          have htmem : t ∈ tasks := by
            rw [hsplit.eq]
            exact List.mem_cons_of_mem _ ht
          have heq : t = l := hsplit.shape.eq_of_id htmem hl hid
          subst heq
          refine .promoted ?_ ?_
          · rw [hsplit.specs.child_parent ht]
            simp
          · refine hset.resolve_left fun hcancelled => ?_
            rw [hkeep hcancelled] at hwait
            cases hwait
  | @second i run tasks pass =>
      have hmem := List.mem_of_getElem? pass
      have hall : specs tasks = specs s.race.db.tasks := h.passes _ hmem rfl
      obtain ⟨r, cs, hsplit⟩ : ∃ r cs, Split deps tasks r cs := h.split hmem rfl
      have hsame : Evolves (fun l c => Moves s tasks l c (.race (.passStep i))) cs cs :=
        List.forall₂_same.mpr fun _ _ => .kept rfl
      have hkept : Evolves (fun l c => Moves s tasks l c (.race (.passStep i))) tasks
          (r :: cs) := by
        rw [hsplit.eq] at hsame ⊢
        exact .cons (.kept rfl) hsame
      have hsecond : SecondSpec r cs (secondPhase ⟨run, tasks⟩).1 := secondPhase_spec hsplit
      cases hsecond with
      | released prompt nonempty succeeded waiting run' tasks' =>
          rw [tasks']
          rw [hsplit.eq] at hall hsame ⊢
          refine .cons (.released hall ?_ rfl) hsame
          intro t ht hchild
          rcases List.mem_cons.mp ht with rfl | ht
          · exact absurd hsplit.parent hchild
          · exact succeeded t ht
      | reviewing u mem status run' tasks' =>
          rw [tasks']
          exact hkept
      | succeeded root run' tasks' =>
          rw [tasks']
          exact hkept
      | failed root run' tasks' =>
          rw [tasks']
          exact hkept
      | waiting open_ notReady run' tasks' =>
          rw [tasks']
          exact hkept
  | @cancelled i run tasks rows cancellation ok =>
      rw [(cancelWorkflowRun_ok ok).2.2.2]
      exact evolves_map fun _ _ => .cancelled cancellation rfl
  | @recovered i workerId loaded recovery => exact evolves_map fun _ _ => .recovered recovery rfl
  | @stopped i t t' stop ok =>
      refine .cons ?_ .nil
      rcases (stopExecution_ok ok).2 with hsame | ⟨hopen, hcancelled⟩
      · exact .kept hsame
      · refine .stopped stop ?_ hcancelled
        rcases hopen with hs | hs | hs <;> rw [hs] <;> decide

/-- A row after a commit, and the object that was written to it. -/
theorem Commits.row_moves (h : Whole deps s) (hsettles : PassSettles s a) {loaded rows : RunRows}
    (hcommits : Commits s a loaded rows) {d' : AgentTask}
    (hd' : d' ∈ (commit loaded rows s.race.db).tasks) :
    ∃ d ∈ s.race.db.tasks, d'.toTaskSpec = d.toTaskSpec ∧
      (d'.status = d.status ∨ ∃ l ∈ loaded.tasks, ∃ c, l.toTaskSpec = d.toTaskSpec ∧
        c.status ≠ l.status ∧ d'.status = c.status ∧ Moves s loaded.tasks l c a) := by
  obtain ⟨d, hd, ⟨rfl, -⟩ | ⟨l, hl, c, -, hmoves, hid, rfl⟩⟩ :=
    commit_rows (hcommits.moves h hsettles) hd'
  · exact ⟨d', hd, rfl, Or.inl rfl⟩
  · refine ⟨d, hd, rfl, ?_⟩
    rcases commitColumn_cases l.status c.status d.status with hsame | ⟨hne, hnew⟩
    · exact Or.inl hsame
    · -- The row of a held object is the one with its id.
      obtain ⟨e, he, hspec⟩ := h.held l (hcommits.held hl)
      have heq : e = d := h.shape.eq_of_id he hd ((congrArg TaskSpec.id hspec).symm.trans hid)
      rw [heq] at hspec
      exact Or.inr ⟨l, hl, c, hspec, hne, hnew, hmoves⟩

/-! ## The invariant -/

/-- No child has failed or been cancelled, a worker has every running task, and the
    run is active. -/
structure Going (s : OperationState) : Prop where
  children : ∀ t ∈ s.race.db.tasks, t.parentTaskId ≠ none → t.status.Spared
  running : ∀ t ∈ s.race.db.tasks, t.status = .running → t.id ∈ s.race.working
  active : s.race.db.run.status.terminal = false

/-- What waiting tasks can count on. -/
structure Prospects (deps : String → List String) (s : OperationState) : Prop where
  /-- The dependencies can be ordered. -/
  order : ∃ order, DepthFirst.Ordered deps order ∧
    ∀ t ∈ s.race.db.tasks, t.parentTaskId ≠ none → ∃ key ∈ order, t.nodeKey = some key
  depends : ∀ t ∈ s.race.db.tasks, t.parentTaskId ≠ none → t.status = .waitingChild →
    t.dependsOn ≠ []
  children : Waits s.race.db → ∃ t ∈ s.race.db.tasks, t.parentTaskId ≠ none
  /-- An object was read before the row is what it is. -/
  tells : ∀ o, Held s o → ∀ d ∈ s.race.db.tasks, d.id = o.id → d.status = .waitingChild →
    o.status = .waitingChild
  recoveries : ∀ loaded ∈ s.recoveries, ∀ l ∈ loaded, l.status = .running
  cancellations : ∀ run tasks, .read run tasks ∈ s.race.cancellations →
    specs tasks = specs s.race.db.tasks
  busy : ∀ d ∈ s.race.db.tasks, d.id ∈ s.race.working → d.status ≠ .waitingChild
  manager : Waits s.race.db → ∀ r ∈ s.race.db.tasks, r.parentTaskId = none →
    r.status = .waitingChild
  going : Waits s.race.db → Going s

/-- The object of a waiting row waits. -/
theorem Prospects.object_waits (hp : Prospects deps s) {o d : AgentTask}
    (ho : Held s o) (hd : d ∈ s.race.db.tasks) (hspec : o.toTaskSpec = d.toTaskSpec)
    (hwait : d.status = .waitingChild) : o.status = .waitingChild :=
  hp.tells o ho d hd (congrArg TaskSpec.id hspec).symm hwait

/-- The first phase writes to the row of an object what it has made of the object. -/
theorem promoted_tells (h : Whole deps s) (hp : Prospects deps s) {i : Nat} {run : WorkflowRun}
    {tasks : List AgentTask} {rows : RunRows} {changed : List Nat}
    (hpass : s.race.passes[i]? = some (.read run tasks))
    (hphase : firstPhase ⟨run, tasks⟩ = .promoted rows changed) {o d' : AgentTask}
    (ho : o ∈ rows.tasks) (hd' : d' ∈ (commit ⟨run, tasks⟩ rows s.race.db).tasks)
    (hid : d'.id = o.id) (hwait : d'.status = .waitingChild) : o.status = .waitingChild := by
  have hmem := List.mem_of_getElem? hpass
  have hcases := firstPhase_cases ⟨run, tasks⟩
  rw [hphase] at hcases
  cases hcases with
  | promoted root promotion found healthy loop =>
      have hevolves := (scan_objects root).1 _ loop
      have hspecs : specs promotion.tasks = specs s.race.db.tasks :=
        (specs_firstPhase hphase).trans (h.passes _ hmem rfl)
      obtain ⟨d, hd, ⟨rfl, hnone⟩ | ⟨l, hl, c, hc, hscan, hld, rfl⟩⟩ := commit_rows hevolves hd'
      · -- The object was read from the row.
        obtain ⟨l, hl, hscan⟩ := hevolves.exists_before ho
        exact absurd ((congrArg TaskSpec.id hscan.spec).symm.trans hid.symm) (hnone l hl)
      · -- `c` is the object `o`.
        have hcid : c.id = o.id := (congrArg TaskSpec.id hscan.spec).trans (hld.trans hid)
        have heq : c = o := (h.shape.congr hspecs).eq_of_id hc ho hcid
        rw [← heq]
        rcases commitColumn_cases l.status c.status d.status with hsame | ⟨hne, hnew⟩
        · by_cases hkept : c.status = l.status
          · rw [hkept]
            exact hp.tells l (.pass hmem hl) d hd hld.symm (hsame.symm.trans hwait)
          · -- A changed status is written.
            have hwritten : commitColumn l.status c.status d.status = c.status := if_neg hkept
            exact hwritten.symm.trans hwait
        · exact hnew.symm.trans hwait

theorem tells_step (h : Whole deps s) (hp : Prospects deps s)
    (hstep : operationStep s a = some s') :
    ∀ o, Held s' o → ∀ d' ∈ s'.race.db.tasks, d'.id = o.id → d'.status = .waitingChild →
      o.status = .waitingChild := by
  intro o ho d' hd' hid hwait
  obtain ⟨d, hd, hspec, hbefore⟩ := waiting_before h hstep hd' hwait
  have hdo : d.id = o.id := (congrArg TaskSpec.id hspec).symm.trans hid
  cases held_step hstep ho with
  | held held => exact hp.tells o held d hd hdo hbefore
  | read mem =>
      rw [← h.shape.eq_of_id hd mem hdo]
      exact hbefore
  | promoted action pass phase mem =>
      subst action
      have hdb := passStep_db pass hstep
      simp only [Pass.step, phase] at hdb
      rw [hdb] at hd'
      exact promoted_tells h hp pass phase mem hd' hid hwait
  | @reviewed t approved note mem review =>
      -- A reviewed task does not wait for others.
      obtain ⟨hreview, hspec', -⟩ := reviewTask_ok review
      have heq : d = t := h.shape.eq_of_id hd mem (hdo.trans (congrArg TaskSpec.id hspec'))
      rw [heq, hreview] at hbefore
      cases hbefore
  | @stopped session execution t stop mem object =>
      subst object
      have heq : d = t := h.shape.eq_of_id hd mem hdo
      rw [heq] at hbefore
      exact hbefore

theorem cancellations_step (h : operationStep s a = some s') {run : WorkflowRun}
    {tasks : List AgentTask} (hmem : .read run tasks ∈ s'.race.cancellations) :
    .read run tasks ∈ s.race.cancellations ∨ tasks = listRunTasks [] s.race.db := by
  rcases operation_race h with ⟨b, rfl, hrace⟩ | hsame
  · generalize s'.race = race at hrace hmem
    cases race_carries hrace with
    | beginCancellation =>
        rcases List.mem_append.mp hmem with hmem | hmem
        · exact Or.inl hmem
        · cases List.mem_singleton.mp hmem
    | @cancelStep i c _ =>
        rcases mem_replaceAt hmem with hmem | hnext
        · exact Or.inl hmem
        · cases c with
          | begun run =>
              cases hnext
              exact Or.inr rfl
          | read run tasks =>
              simp only [Cancellation.step] at hnext
              split at hnext <;> cases hnext
    | abandonCancellation => exact Or.inl (List.mem_of_mem_eraseIdx hmem)
    | create _ _ => exact Or.inl hmem
    | submitted _ _ => exact Or.inl hmem
    | abandonSubmission => exact Or.inl hmem
    | beginPass => exact Or.inl hmem
    | beginReviewPass _ => exact Or.inl hmem
    | passStep _ => exact Or.inl hmem
    | abandonPass => exact Or.inl hmem
    | reviewed _ _ => exact Or.inl hmem
    | abandonReview => exact Or.inl hmem
    | refused _ _ => exact Or.inl hmem
    | started _ _ => exact Or.inl hmem
    | finished _ _ => exact Or.inl hmem
  · rw [hsame] at hmem
    exact Or.inl hmem

theorem busy_step (h : Whole deps s) (hp : Prospects deps s) (hstep : operationStep s a = some s') :
    ∀ d' ∈ s'.race.db.tasks, d'.id ∈ s'.race.working → d'.status ≠ .waitingChild := by
  intro d' hd' hworking hwait
  obtain ⟨d, hd, hspec, hbefore⟩ := waiting_before h hstep hd' hwait
  have hid : d'.id = d.id := congrArg TaskSpec.id hspec
  rw [hid] at hworking
  have hidle : d.id ∉ s.race.working := fun hbusy => hp.busy d hd hbusy hbefore
  cases operationStep_spec hstep with
  | quiet db workers => exact hidle (workers ▸ hworking)
  | created sub t rest current remaining db workers => exact hidle (workers ▸ hworking)
  | submitted sub current remaining db workers => exact hidle (workers ▸ hworking)
  | committed commits db workers => exact hidle (workers ▸ hworking)
  | row t t' mem change db =>
      generalize s'.race.working = working' at change hworking
      cases change with
      | refused start => exact hidle hworking
      | started start =>
          rcases List.mem_cons.mp hworking with hid' | hworking
          · -- The task that was started was in the queue.
            have heq : d = t := h.shape.eq_of_id hd mem hid'
            rw [heq] at hbefore
            rcases (startTask_spec.2 start).1 with hs | hs <;> rw [hbefore] at hs <;> cases hs
          · exact hidle hworking
      | finished workerId outcome busy => exact hidle (List.mem_of_mem_erase hworking)
      | reviewed review => exact hidle hworking
      | cancelled cancel => exact hidle hworking

/-- A cancellation of the run leaves no task waiting. -/
theorem cancelled_waits (hp : Prospects deps s) {i : Nat} {run : WorkflowRun}
    {tasks : List AgentTask} {rows : RunRows}
    (hcancellation : s.race.cancellations[i]? = some (.read run tasks))
    (hok : cancelWorkflowRun ⟨run, tasks⟩ = .ok rows) :
    ¬ Waits (commit ⟨run, tasks⟩ rows s.race.db) := by
  rintro ⟨d', hd', hwait⟩
  have hmem := List.mem_of_getElem? hcancellation
  have hevolves : Evolves (fun l c => c = if l.status.cancellable then cancelRow l else l)
      tasks rows.tasks := by
    rw [(cancelWorkflowRun_ok hok).2.2.2]
    exact evolves_map fun _ _ => rfl
  obtain ⟨d, hd, ⟨rfl, hnone⟩ | ⟨l, hl, c, -, hc, hid, rfl⟩⟩ := commit_rows hevolves hd'
  · -- The request has read every task.
    obtain ⟨l, hl, hspec⟩ := exists_spec (hp.cancellations run tasks hmem).symm hd
    exact hnone l hl (congrArg TaskSpec.id hspec).symm
  · have hwritten : commitColumn l.status c.status d.status = .waitingChild := hwait
    by_cases hl' : l.status = .waitingChild
    · -- A task that waits is cancelled.
      rw [hl', if_pos (show TaskStatus.waitingChild.cancellable = true from rfl)] at hc
      rw [hc, hl'] at hwritten
      cases hwritten
    · have hd' : d.status ≠ .waitingChild := fun hbefore =>
        hl' (hp.tells l (.cancellation hmem hl) d hd hid.symm hbefore)
      have hc' : c.status ≠ .waitingChild := by
        rw [hc]
        split
        · exact fun hcancelled => by cases hcancelled
        · exact hl'
      rcases commitColumn_cases l.status c.status d.status with hsame | ⟨-, hnew⟩
      · exact hd' (hsame.symm.trans hwritten)
      · exact hc' (hnew.symm.trans hwritten)

theorem manager_step (h : Whole deps s) (hp : Prospects deps s) (hsettles : PassSettles s a)
    (hstep : operationStep s a = some s') (hwaits : Waits s'.race.db) :
    ∀ r' ∈ s'.race.db.tasks, r'.parentTaskId = none → r'.status = .waitingChild := by
  intro r' hr' hparent
  have hbefore := hp.manager (waits_before h hstep hwaits)
  obtain ⟨d', hd', hd'wait⟩ := hwaits
  obtain ⟨d, hd, hd'spec, hdwait⟩ := waiting_before h hstep hd' hd'wait
  cases operationStep_spec hstep with
  | quiet db workers =>
      rw [db] at hr'
      exact hbefore r' hr' hparent
  | created sub t rest current remaining db workers =>
      rw [h.submission] at current
      cases current
  | submitted sub current remaining db workers =>
      rw [h.submission] at current
      cases current
  | committed commits db workers =>
      have hshape := (whole_step h hstep).shape
      have hr'mem := hr'
      rw [db] at hr'
      obtain ⟨r, hr, hspec, hcase⟩ := commits.row_moves h hsettles hr'
      have hroot : r.parentTaskId = none :=
        (congrArg TaskSpec.parentTaskId hspec).symm.trans hparent
      have hwait := hbefore r hr hroot
      rcases hcase with hsame | ⟨l, hl, c, hspec', hne, -, hmoves⟩
      · exact hsame.trans hwait
      · -- The manager task waits, so its object does.
        have hheld : Held s l := commits.held hl
        have hl' : l.status = .waitingChild := hp.object_waits hheld hr hspec' hwait
        cases hmoves with
        | kept status => exact absurd status hne
        | promoted child status =>
            exact absurd ((congrArg TaskSpec.parentTaskId hspec').trans hroot) child
        | released all succeeded status =>
            by_cases hchild : d.parentTaskId = none
            · -- The task that waits after the step is the manager task.
              have heq : d' = r' := by
                refine hshape.eq_of_root hd' hr'mem ?_ hparent
                exact (congrArg TaskSpec.parentTaskId hd'spec).trans hchild
              rw [← heq]
              exact hd'wait
            · -- A child whose object has succeeded does not wait.
              obtain ⟨t, ht, htspec⟩ := exists_spec all.symm hd
              have htwait := hp.object_waits (commits.held ht) hd htspec.symm hdwait
              have htchild : t.parentTaskId ≠ none := by
                rw [← congrArg TaskSpec.parentTaskId htspec]
                exact hchild
              rw [succeeded t ht htchild] at htwait
              cases htwait
        | @cancelled i run cancellation object =>
            cases commits with
            | cancelled cancellation' ok =>
                exact absurd ⟨d', db ▸ hd', hd'wait⟩ (cancelled_waits hp cancellation' ok)
        | recovered recovery object =>
            rw [hp.recoveries _ (List.mem_of_getElem? recovery) l hl] at hl'
            cases hl'
        | stopped stop open_ status => exact absurd hl' open_
  | row t t' mem change db =>
      rw [db] at hr'
      rcases mem_setTask hr' with rfl | ⟨hr', -⟩
      · have hroot : t.parentTaskId = none :=
          (congrArg TaskSpec.parentTaskId change.spec).symm.trans hparent
        have hwait := hbefore t mem hroot
        rcases change.waits with hne | hbusy
        · exact absurd hwait hne
        · exact absurd hwait (hp.busy t mem hbusy)
      · exact hbefore r' hr' hparent

/-! ### The run goes on -/

theorem children_step (h : Whole deps s) (hp : Prospects deps s) (hrows : RowsAgree s.race.db)
    (hsettles : PassSettles s a) (hspares : SparesChildren s a) (hgoing : Going s)
    (hstep : operationStep s a = some s') (hwaits : Waits s'.race.db) :
    ∀ t' ∈ s'.race.db.tasks, t'.parentTaskId ≠ none → t'.status.Spared := by
  intro d' hd' hchild
  cases operationStep_spec hstep with
  | quiet db workers =>
      rw [db] at hd'
      exact hgoing.children d' hd' hchild
  | created sub t rest current remaining db workers =>
      rw [h.submission] at current
      cases current
  | submitted sub current remaining db workers =>
      rw [h.submission] at current
      cases current
  | committed commits db workers =>
      rw [db] at hd' hwaits
      obtain ⟨d, hd, hspec, hcase⟩ := commits.row_moves h hsettles hd'
      have hdchild : d.parentTaskId ≠ none := by
        rw [← congrArg TaskSpec.parentTaskId hspec]
        exact hchild
      rcases hcase with hsame | ⟨l, hl, c, hspec', hne, hnew, hmoves⟩
      · rw [hsame]
        exact hgoing.children d hd hdchild
      · -- The row of the child takes the status of the object that is committed.
        have hlchild : l.parentTaskId ≠ none := by
          rw [congrArg TaskSpec.parentTaskId hspec']
          exact hdchild
        rw [hnew]
        cases hmoves with
        | kept status => exact absurd status hne
        | promoted child status =>
            rcases status with hs | hs <;> rw [hs]
            · exact ⟨by decide, by decide⟩
            · exact ⟨by decide, by decide⟩
        | released all succeeded status =>
            rw [status]
            exact ⟨by decide, by decide⟩
        | cancelled cancellation object =>
            -- After a cancellation of the run no task waits.
            cases commits with
            | cancelled cancellation' ok => exact absurd hwaits (cancelled_waits hp cancellation' ok)
        | @recovered i workerId recovery object =>
            rw [object]
            exact recoverTask_spared workerId (hspares _ recovery l hl hlchild)
        | stopped stop open_ status => exact absurd (hspares l stop) hlchild
  | row t t' mem change db =>
      rw [db] at hd'
      rcases mem_setTask hd' with rfl | ⟨hd, -⟩
      · have htchild : t.parentTaskId ≠ none := by
          rw [← congrArg TaskSpec.parentTaskId change.spec]
          exact hchild
        generalize s'.race.working = working' at change
        cases change with
        | @refused workerId agentActive _ start =>
            rw [hspares t mem rfl htchild] at start
            exact startTask_spared start
        | started start =>
            rw [(startTask_spec.2 start).2.2.1]
            exact ⟨by decide, by decide⟩
        | finished workerId outcome busy =>
            exact finishTask_spared (hrows t mem) (hgoing.children t mem htchild)
              (hspares t mem rfl htchild)
        | @reviewed approved note _ review =>
            rw [(reviewTask_ok review).2.2, if_pos (show approved = true from hspares)]
            exact ⟨by decide, by decide⟩
        | cancelled cancel => exact absurd (hspares t mem rfl) htchild
      · exact hgoing.children d' hd hchild

theorem Moves.ne_running {tasks : List AgentTask} {l c : AgentTask} (h : Moves s tasks l c a)
    (hne : c.status ≠ l.status) : c.status ≠ .running := by
  intro hrunning
  cases h with
  | kept status => exact hne status
  | promoted child status =>
      rw [hrunning] at status
      simp at status
  | released all succeeded status =>
      rw [hrunning] at status
      cases status
  | cancelled cancellation object =>
      rw [object] at hne hrunning
      split at hrunning
      · cases hrunning
      · rename_i hkept
        rw [if_neg hkept] at hne
        exact hne rfl
  | @recovered i workerId recovery object =>
      have hended := (recoverTask_spec workerId l).2.2
      rw [← object, hrunning] at hended
      simp [Ended] at hended
  | stopped stop open_ status =>
      rw [hrunning] at status
      cases status

theorem running_step (h : Whole deps s) (hsettles : PassSettles s a) (hgoing : Going s)
    (hstep : operationStep s a = some s') :
    ∀ t' ∈ s'.race.db.tasks, t'.status = .running → t'.id ∈ s'.race.working := by
  intro d' hd' hrunning
  cases operationStep_spec hstep with
  | quiet db workers =>
      rw [db] at hd'
      rw [workers]
      exact hgoing.running d' hd' hrunning
  | created sub t rest current remaining db workers =>
      rw [h.submission] at current
      cases current
  | submitted sub current remaining db workers =>
      rw [h.submission] at current
      cases current
  | committed commits db workers =>
      rw [db] at hd'
      rw [workers]
      obtain ⟨d, hd, hspec, hsame | ⟨l, -, c, -, hne, hnew, hmoves⟩⟩ :=
        commits.row_moves h hsettles hd'
      · rw [show d'.id = d.id from congrArg TaskSpec.id hspec]
        exact hgoing.running d hd (hsame.symm.trans hrunning)
      · exact absurd (hnew.symm.trans hrunning) (hmoves.ne_running hne)
  | row t t' mem change db =>
      rw [db] at hd'
      generalize s'.race.working = working' at change ⊢
      rcases mem_setTask hd' with rfl | ⟨hd, hne⟩
      · cases change with
        | refused start =>
            have hended := (startTask_spec.1 start).2.2.1
            rw [hrunning] at hended
            simp at hended
        | started start =>
            rw [show d'.id = t.id from congrArg TaskSpec.id (startTask_spec.2 start).2.1]
            exact List.mem_cons_self
        | finished workerId outcome busy =>
            have hended := (finishTask_spec workerId outcome t).2
            rw [hrunning] at hended
            simp [Ended] at hended
        | @reviewed approved note _ review =>
            have hstatus := (reviewTask_ok review).2.2
            rw [hrunning] at hstatus
            cases approved <;> cases hstatus
        | cancelled cancel =>
            rw [(cancelTask_ok cancel).2] at hrunning
            cases hrunning
      · -- Another task keeps its worker.
        have hworking := hgoing.running d' hd hrunning
        rw [change.id_eq] at hne
        cases change with
        | refused start => exact hworking
        | started start => exact List.mem_cons_of_mem _ hworking
        | finished workerId outcome busy => exact (List.mem_erase_of_ne hne).mpr hworking
        | reviewed review => exact hworking
        | cancelled cancel => exact hworking

/-- The object of the manager task of a pass waits when some row does. -/
theorem pass_manager (hp : Prospects deps s) (h : Whole deps s) (hwaits : Waits s.race.db)
    {p : Pass} (hpass : p ∈ s.race.passes) {r : AgentTask} {cs : List AgentTask}
    (hsplit : Split deps p.tasks r cs) : r.status = .waitingChild := by
  have hr : r ∈ p.tasks := by
    rw [hsplit.eq]
    exact List.mem_cons_self
  have hheld : Held s r := .pass hpass hr
  obtain ⟨d, hd, hspec⟩ := h.held r hheld
  have hroot : d.parentTaskId = none :=
    (congrArg TaskSpec.parentTaskId hspec).symm.trans hsplit.parent
  exact hp.object_waits hheld hd hspec (hp.manager hwaits d hd hroot)

theorem active_step (h : Whole deps s) (hp : Prospects deps s) (hsettles : PassSettles s a)
    (hgoing : Going s) (hstep : operationStep s a = some s') (hwaits : Waits s'.race.db) :
    s'.race.db.run.status.terminal = false := by
  have hbefore := waits_before h hstep hwaits
  have hcolumn : ∀ {x y : RunStatus}, y.terminal = false ∨ y = x →
      (commitColumn x y s.race.db.run.status).terminal = false := by
    intro x y hy
    unfold commitColumn
    split
    · exact hgoing.active
    · rename_i hne
      exact hy.resolve_right hne
  cases operationStep_spec hstep with
  | quiet db workers =>
      rw [db]
      exact hgoing.active
  | created sub t rest current remaining db workers =>
      rw [h.submission] at current
      cases current
  | submitted sub current remaining db workers =>
      rw [h.submission] at current
      cases current
  | committed commits db workers =>
      rw [db] at hwaits ⊢
      refine hcolumn ?_
      cases commits with
      | @first i run tasks pass =>
          have hmem := List.mem_of_getElem? pass
          obtain ⟨r, cs, hsplit⟩ : ∃ r cs, Split deps tasks r cs := h.split hmem rfl
          have hr := pass_manager hp h hbefore hmem hsplit
          have hspec : FirstSpec ⟨run, tasks⟩ r cs (firstPhase ⟨run, tasks⟩) :=
            firstPhase_spec hsplit
          cases hphase : firstPhase ⟨run, tasks⟩ with
          | finished rows' =>
              rw [hphase] at hspec
              cases hspec with
              | failed t error mem status =>
                  -- A failed child is not found while the manager task waits.
                  have hcs : (RunRows.mk run tasks).children = cs := children_split hsplit
                  rw [← hcs] at mem
                  have hroot := (hsettles run tasks pass).failed t mem status r (rootOf_split hsplit)
                  exact absurd hr hroot.1
          | promoted rows' changed =>
              rw [hphase] at hspec
              cases hspec with
              | promoted tasks' changed healthy loop => exact Or.inr rfl
      | @second i run tasks pass =>
          have hmem := List.mem_of_getElem? pass
          obtain ⟨r, cs, hsplit⟩ : ∃ r cs, Split deps tasks r cs := h.split hmem rfl
          have hr := pass_manager hp h hbefore hmem hsplit
          left
          have hsecond : SecondSpec r cs (secondPhase ⟨run, tasks⟩).1 := secondPhase_spec hsplit
          cases hsecond with
          | reviewing u mem status run' tasks' =>
              rw [run']
              rfl
          | released prompt nonempty succeeded waiting run' tasks' =>
              rw [run']
              rfl
          | succeeded root run' tasks' =>
              rw [hr] at root
              cases root
          | failed root run' tasks' =>
              rw [hr] at root
              cases root
          | waiting open_ notReady run' tasks' =>
              rw [run']
              rfl
      | cancelled cancellation ok => exact absurd hwaits (cancelled_waits hp cancellation ok)
      | recovered recovery => exact Or.inr rfl
      | stopped stop ok => exact Or.inr rfl
  | row t t' mem change db =>
      rw [db]
      exact hgoing.active

/-! ## Reachable states -/

theorem prospects_step (h : Whole deps s) (hagree : Agreement s) (hp : Prospects deps s)
    (hgood : Sparing s a) (hstep : operationStep s a = some s') : Prospects deps s' := by
  obtain ⟨⟨-, hsettles⟩, hspares⟩ := hgood
  have hspecs := specs_operation h hstep
  obtain ⟨order, hordered, hcovers⟩ := hp.order
  -- What remains: the order, the dependencies, a child that is there, the objects of recoveries
  -- and cancellations, and a run that goes on as long as a task waits.
  refine ⟨⟨order, hordered, ?_⟩, ?_, ?_, tells_step h hp hstep, ?_, ?_, busy_step h hp hstep,
    manager_step h hp hsettles hstep, ?_⟩
  · intro t' ht' hchild
    obtain ⟨t, ht, hspec⟩ := exists_spec hspecs ht'
    obtain ⟨key, hkey, hnode⟩ := hcovers t ht (by
      rw [← congrArg TaskSpec.parentTaskId hspec]
      exact hchild)
    exact ⟨key, hkey, (congrArg TaskSpec.nodeKey hspec).trans hnode⟩
  · intro t' ht' hchild hwait
    obtain ⟨t, ht, hspec, hbefore⟩ := waiting_before h hstep ht' hwait
    rw [show t'.dependsOn = t.dependsOn from congrArg TaskSpec.dependsOn hspec]
    refine hp.depends t ht ?_ hbefore
    rw [← congrArg TaskSpec.parentTaskId hspec]
    exact hchild
  · intro hwaits
    obtain ⟨t, ht, hchild⟩ := hp.children (waits_before h hstep hwaits)
    obtain ⟨t', ht', hspec⟩ := exists_spec hspecs.symm ht
    refine ⟨t', ht', ?_⟩
    rw [← congrArg TaskSpec.parentTaskId hspec]
    exact hchild
  · intro loaded hloaded l hl
    rcases recoveries_step hstep hloaded with hold | hread
    · exact hp.recoveries loaded hold l hl
    · exact (hread l hl).2
  · intro run tasks hmem
    rw [hspecs]
    rcases cancellations_step hstep hmem with hold | rfl
    · exact hp.cancellations run tasks hold
    · refine specs_listRunTasks h.shape ?_
      intro o ho
      cases ho
  · intro hwaits
    have hbefore := waits_before h hstep hwaits
    have hgoing := hp.going hbefore
    have hchildren := hspares hbefore
    exact ⟨children_step h hp hagree.rows hsettles hchildren hgoing hstep hwaits,
      running_step h hsettles hgoing hstep, active_step h hp hsettles hgoing hstep hwaits⟩

end Steps

/-- The start of a run: its children are queued, wait for others or for an approval,
    and the manager task waits for them if there are any. -/
theorem prospects_plan {deps : String → List String} {plan : SubmissionPlan} {payload : RunRequest}
    {team : AgentTeam} (hshape : RunShape deps (plan.submitted payload).tasks)
    (hroot : plan.root = managerTask payload team)
    (hpending : plan.rootPending = plan.children.isEmpty)
    (hactive : plan.runStatus.terminal = false)
    (hchildren : ∀ t ∈ plan.children, (t.status = .pending ∨ t.status = .humanReview ∨
      (t.status = .waitingChild ∧ t.dependsOn ≠ [])))
    (horder : ∃ order, DepthFirst.Ordered deps order ∧
      ∀ t ∈ plan.children, ∃ key ∈ order, t.nodeKey = some key) :
    Prospects deps (operating ⟨plan.submitted payload, none, [], [], [], []⟩) := by
  have hsplit := submitted_split hshape
  have hmem : ∀ t ∈ (plan.submitted payload).tasks, t.parentTaskId ≠ none → t ∈ plan.children := by
    intro t ht hchild
    rcases List.mem_cons.mp ht with rfl | ht
    · exact absurd hsplit.parent hchild
    · exact ht
  have hwaitsRoot : plan.children ≠ [] → plan.finalRoot.status = .waitingChild := by
    intro hne
    rw [SubmissionPlan.finalRoot, hpending, if_neg (by simpa using hne), hroot]
    rfl
  -- When some task waits there are children, and the manager task waits for them.
  have hnonempty : Waits (plan.submitted payload) → plan.children ≠ [] := by
    rintro ⟨t, ht, hwait⟩ hempty
    rcases List.mem_cons.mp ht with rfl | ht
    · rw [SubmissionPlan.finalRoot, hpending, hempty, if_pos (by rfl)] at hwait
      cases hwait
    · rw [hempty] at ht
      cases ht
  obtain ⟨order, hordered, hcovers⟩ := horder
  refine ⟨⟨order, hordered, fun t ht hchild => hcovers t (hmem t ht hchild)⟩, ?_, ?_,
    fun o ho => absurd ho not_held_operating, ?_, ?_, ?_, ?_, ?_⟩
  · intro t ht hchild hwait
    rcases hchildren t (hmem t ht hchild) with hs | hs | ⟨-, hne⟩
    · rw [hs] at hwait
      cases hwait
    · rw [hs] at hwait
      cases hwait
    · exact hne
  · intro hwaits
    obtain ⟨t, rest, hcons⟩ := List.exists_cons_of_ne_nil (hnonempty hwaits)
    have ht : t ∈ plan.children := by
      rw [hcons]
      exact List.mem_cons_self
    refine ⟨t, List.mem_cons_of_mem _ ht, ?_⟩
    rw [hsplit.specs.child_parent ht]
    simp
  · intro loaded hloaded
    cases hloaded
  · intro run tasks hcancellation
    cases hcancellation
  · intro d _ hworking
    cases hworking
  · intro hwaits r hr hparent
    rcases List.mem_cons.mp hr with rfl | hr
    · exact hwaitsRoot (hnonempty hwaits)
    · rw [hsplit.specs.child_parent hr] at hparent
      cases hparent
  · intro hwaits
    refine ⟨?_, ?_, hactive⟩
    · intro t ht hchild
      rcases hchildren t (hmem t ht hchild) with hs | hs | ⟨hs, -⟩ <;> rw [hs]
      · exact ⟨by decide, by decide⟩
      · exact ⟨by decide, by decide⟩
      · exact ⟨by decide, by decide⟩
    · intro t ht hrunning
      rcases List.mem_cons.mp ht with rfl | ht
      · rw [hwaitsRoot (hnonempty hwaits)] at hrunning
        cases hrunning
      · rcases hchildren t ht with hs | hs | ⟨hs, -⟩ <;> rw [hs] at hrunning <;> cases hrunning

theorem prospects_submitted {s : OperationState} (h : OperationsSubmitted s) :
    ∃ deps, Whole deps s ∧ Prospects deps s := by
  obtain ⟨run, ⟨team, payload, rfl⟩ | ⟨nodes, hdag, team, payload, plan, hplan, rfl⟩, rfl⟩ := h
  · have hshape := shape_teamRun team payload
    refine ⟨_, whole_operating hshape, prospects_plan hshape rfl rfl rfl ?_ ?_⟩
    · intro t ht
      obtain ⟨m, -, rfl⟩ := List.mem_map.mp ht
      exact Or.inl rfl
    · -- The members depend on nothing, so any order of their keys will do.
      refine ⟨(submitTeamRun team payload).children.filterMap fun t => t.nodeKey,
        DepthFirst.ordered_of_isolated _, ?_⟩
      intro t ht
      obtain ⟨m, -, rfl⟩ := List.mem_map.mp ht
      exact ⟨_, List.mem_filterMap.mpr ⟨_, ht, rfl⟩, rfl⟩
  · have hshape := shape_workflowRun hdag hplan
    obtain ⟨order, hordered, hcovers⟩ := (validateWorkflowDag_ok hdag).acyclic
    obtain ⟨hne, hroot, hpending, hchildren⟩ := submitWorkflowRun_ok hplan
    refine ⟨_, whole_operating hshape, prospects_plan hshape hroot ?_ ?_ ?_ ?_⟩
    · rw [hpending, hchildren]
      simpa using hne
    · exact submitWorkflowRun_active hplan
    · intro t ht
      obtain ⟨node, -, n, rfl⟩ := exists_nodeTask hplan ht
      exact initialStatus_cases node
    · refine ⟨order, hordered, ?_⟩
      intro t ht
      obtain ⟨node, hmem, n, rfl⟩ := exists_nodeTask hplan ht
      exact ⟨node.key, hcovers node hmem, rfl⟩

/-- What holds of every state of a run that meets the condition. -/
structure Spared (deps : String → List String) (s : OperationState) : Prop where
  whole : Whole deps s
  agreement : Agreement s
  prospects : Prospects deps s

theorem spared_step {deps : String → List String} {s s' : OperationState} {a : OperationAction}
    (h : Spared deps s) (hgood : Sparing s a) (hstep : operationStep s a = some s') :
    Spared deps s' :=
  ⟨whole_step h.whole hstep, agreement_step h.whole h.agreement hgood.1 hstep,
    prospects_step h.whole h.agreement h.prospects hgood hstep⟩

theorem spared_reachable {s : OperationState}
    (h : (operationSystem OperationsSubmitted).Reachable Sparing s) : ∃ deps, Spared deps s := by
  refine h.invariant (fun s => ∃ deps, Spared deps s) ?_ ?_
  · intro s hs
    obtain ⟨deps, hwhole, hprospects⟩ := prospects_submitted hs
    exact ⟨deps, hwhole, agreement_submitted hs, hprospects⟩
  · rintro s a t ⟨deps, hs⟩ hgood hstep
    exact ⟨deps, spared_step hs hgood hstep⟩

end Orchestration
end HermesPlatform
