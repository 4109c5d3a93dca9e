/-
  HermesPlatform.Orchestration.Containment

  What the failure of a run ends.

  A pass that fails a run ends the manager task if it waits or is in the queue and
  leaves the other tasks alone.  `Guarded` is the condition that whoever puts the
  manager task into the queue finds it still waiting; with it the manager task
  never comes back.  `Current` is the condition that the processes commit over the
  statuses they have read; with it no pass promotes a task that waits once a child
  has failed.
-/

import HermesPlatform.Orchestration.Operations

namespace HermesPlatform
namespace Orchestration

open Python Transition

/-! ## The tasks of a plan -/

/-- What a submission is going to create. -/
structure Drafted (plan : SubmissionPlan) : Prop where
  shape : PlanShape plan
  parent : ∀ t ∈ plan.children, t.parentTaskId = some 0
  /-- The statuses a child is created with. -/
  initial : ∀ t ∈ plan.children,
    t.status = .pending ∨ t.status = .humanReview ∨ t.status = .waitingChild

/-- The rows and the objects of a run come from its plan. -/
structure Drawn (plan : SubmissionPlan) (s : OperationState) : Prop where
  draft : Drafted plan
  ids : DistinctIds s.race
  rows : ∀ d ∈ s.race.db.tasks, Origin plan d
  submission : ∀ sub, s.race.submission = some sub →
    sub.plan = plan ∧ ∀ t ∈ sub.remaining, t ∈ plan.tasks
  held : ∀ o, Held s o → ∃ d ∈ s.race.db.tasks, o.toTaskSpec = d.toTaskSpec

section Drawn

variable {plan : SubmissionPlan} {s s' : OperationState} {a : OperationAction}

/-- The manager task is the one without a parent. -/
theorem Origin.parent_iff (h : Drafted plan) {t : AgentTask} (ht : Origin plan t) :
    t.parentTaskId = none ↔ t.id = 0 := by
  refine ⟨?_, fun hid => ?_⟩
  · intro hparent
    obtain ⟨p, hp, hspec⟩ := ht
    rcases List.mem_cons.mp hp with rfl | hp
    · exact (congrArg TaskSpec.id hspec).trans h.shape.root
    · have hsome := h.parent p hp
      rw [← congrArg TaskSpec.parentTaskId hspec, hparent] at hsome
      cases hsome
  · by_contra hparent
    exact ht.nonzero h.shape hparent hid

theorem Origin.child_parent (h : Drafted plan) {t : AgentTask} (ht : Origin plan t)
    (hne : t.id ≠ 0) : t.parentTaskId = some 0 := by
  obtain ⟨p, hp, hspec⟩ := ht
  rcases List.mem_cons.mp hp with rfl | hp
  · exact absurd ((congrArg TaskSpec.id hspec).trans h.shape.root) hne
  · rw [congrArg TaskSpec.parentTaskId hspec]
    exact h.parent p hp

theorem Drawn.eq_of_id (h : Drawn plan s) {t u : AgentTask} (ht : t ∈ s.race.db.tasks)
    (hu : u ∈ s.race.db.tasks) (hid : t.id = u.id) : t = u :=
  List.inj_on_of_nodup_map (List.nodup_append.mp h.ids).1 ht hu hid

theorem Drawn.origin (h : Drawn plan s) {o : AgentTask} (ho : Held s o) : Origin plan o := by
  obtain ⟨d, hd, hspec⟩ := h.held o ho
  exact (h.rows d hd).congr hspec

/-! ### One row -/

/-- What a step makes of a row. -/
inductive RowStep (s s' : OperationState) (a : OperationAction) (d d' : AgentTask) : Prop where
  | kept (status : d'.status = d.status) (attempt : d'.attempt = d.attempt)
  /-- The submission ends and puts the manager task into the queue. -/
  | queued (sub : Submission) (action : a = .race .submit) (current : s.race.submission = some sub)
      (remaining : sub.remaining = []) (rootPending : sub.plan.rootPending = true)
      (root : d.id = sub.plan.root.id) (status : d'.status = .pending)
      (attempt : d'.attempt = d.attempt)
  | written (loaded rows : RunRows) (l c : AgentTask) (commits : Commits s a loaded rows)
      (mem : l ∈ loaded.tasks) (self : l.id = d.id) (changed : c.status ≠ l.status)
      (status : d'.status = c.status) (attempt : d'.attempt = d.attempt)
      (rewrites : Rewrites s loaded.tasks l c a)
  | changed (change : RowChange s.race.working d a d' s'.race.working)

/-- A row after a step: one the submission has just created, or one there was. -/
theorem row_before (hstep : operationStep s a = some s') {d' : AgentTask}
    (hd' : d' ∈ s'.race.db.tasks) :
    (∃ sub rest, s.race.submission = some sub ∧ sub.remaining = d' :: rest ∧
        s'.race.working = s.race.working) ∨
      ∃ d ∈ s.race.db.tasks, d'.toTaskSpec = d.toTaskSpec ∧ RowStep s s' a d d' := by
  cases operationStep_spec hstep with
  | quiet db workers =>
      rw [db] at hd'
      exact Or.inr ⟨d', hd', rfl, .kept rfl rfl⟩
  | created sub t rest current remaining db workers =>
      rw [db] at hd'
      rcases List.mem_append.mp hd' with hd | hnew
      · exact Or.inr ⟨d', hd, rfl, .kept rfl rfl⟩
      · rw [List.mem_singleton.mp hnew]
        exact Or.inl ⟨sub, rest, current, remaining, workers⟩
  | submitted sub current remaining db workers =>
      -- The end of a submission may put the manager task into the queue.
      right
      rw [db] at hd'
      unfold Submission.finish at hd'
      split at hd'
      · rename_i hpending
        obtain ⟨d, hd, rfl⟩ := List.mem_map.mp hd'
        split
        · rename_i hid
          exact ⟨d, hd, rfl, .queued sub rfl current remaining hpending hid rfl rfl⟩
        · exact ⟨d, hd, rfl, .kept rfl rfl⟩
      · exact ⟨d', hd', rfl, .kept rfl rfl⟩
  -- A commit writes the columns in which its object has changed, to the row of its id.
  | @committed _ loaded rows commits db workers =>
      right
      rw [db] at hd'
      obtain ⟨d, hd, hspec, hattempt, hsame | ⟨l, hl, c, -, hid, hne, hnew, hrewrites⟩⟩ :=
        commits.row hd'
      · exact ⟨d, hd, hspec, .kept hsame hattempt⟩
      · exact ⟨d, hd, hspec, .written loaded rows l c commits hl hid hne hnew hattempt hrewrites⟩
  | row t t' mem change db =>
      right
      rw [db] at hd'
      rcases mem_setTask hd' with rfl | ⟨hd, -⟩
      · exact ⟨t, mem, change.spec, .changed change⟩
      · exact ⟨d', hd, rfl, .kept rfl rfl⟩

theorem taskIds_step (hids : DistinctIds s.race) (hstep : operationStep s a = some s') :
    DistinctIds s'.race ∧ taskIds s.race.db ⊆ taskIds s'.race.db := by
  by_cases hrace : ∃ b, a = .race b
  · obtain ⟨b, rfl⟩ := hrace
    obtain ⟨race, hb, rfl⟩ := Option.map_eq_some_iff.mp hstep
    exact distinctIds_step hids hb
  · -- The operations of `Operations` keep the ids and the submission.
    have hkept : taskIds s'.race.db = taskIds s.race.db := by
      cases operationStep_spec hstep with
      | quiet db workers => rw [db]
      | created sub t rest current remaining db workers => exact absurd ⟨_, rfl⟩ hrace
      | submitted sub current remaining db workers => exact absurd ⟨_, rfl⟩ hrace
      | committed commits db workers =>
          rw [db]
          exact commit_ids _ _ _
      | row t t' mem change db => rw [db, taskIds_setTask]
    have hupcoming : s'.race.upcoming = s.race.upcoming := by
      rcases operation_race hstep with ⟨b, hb, -⟩ | hsame
      · exact absurd ⟨b, hb⟩ hrace
      · rw [hsame]
        rfl
    refine ⟨?_, by rw [hkept]; exact List.Subset.refl _⟩
    unfold DistinctIds at hids ⊢
    rw [hkept, hupcoming]
    exact hids

/-- A row that there was is still there. -/
theorem row_after (h : Drawn plan s) (hstep : operationStep s a = some s') {d : AgentTask}
    (hd : d ∈ s.race.db.tasks) :
    ∃ d' ∈ s'.race.db.tasks, d'.toTaskSpec = d.toTaskSpec ∧ RowStep s s' a d d' := by
  have hmem : d.id ∈ taskIds s.race.db := List.mem_map.mpr ⟨d, hd, rfl⟩
  obtain ⟨d', hd', hid⟩ := List.mem_map.mp ((taskIds_step h.ids hstep).2 hmem)
  rcases row_before hstep hd' with ⟨sub, rest, hsub, hremaining, -⟩ | ⟨e, he, hspec, hrow⟩
  · -- A task that is created has an id of its own.
    have hupcoming : d'.id ∈ s.race.upcoming := by
      simp [RaceState.upcoming, hsub, hremaining]
    have hdisjoint := (List.nodup_append.mp h.ids).2.2 d.id hmem d'.id hupcoming
    exact absurd hid.symm hdisjoint
  · have heq : e = d := h.eq_of_id he hd ((congrArg TaskSpec.id hspec).symm.trans hid)
    rw [heq] at hspec hrow
    exact ⟨d', hd', hspec, hrow⟩

theorem submission_before (hstep : operationStep s a = some s') {sub' : Submission}
    (hsub' : s'.race.submission = some sub') :
    ∃ sub, s.race.submission = some sub ∧ sub'.plan = sub.plan ∧
      sub'.remaining ⊆ sub.remaining := by
  have hkept : s.race.submission = some sub' → ∃ sub, s.race.submission = some sub ∧
      sub'.plan = sub.plan ∧ sub'.remaining ⊆ sub.remaining :=
    fun hsame => ⟨sub', hsame, rfl, List.Subset.refl _⟩
  rcases operation_race hstep with ⟨b, rfl, hrace⟩ | hsame
  · generalize s'.race = race at hrace hsub'
    cases race_carries hrace with
    | @create sub t rest hsub hremaining =>
        cases hsub'
        refine ⟨sub, hsub, rfl, ?_⟩
        rw [hremaining]
        exact List.subset_cons_self t rest
    | submitted _ _ => cases hsub'
    | abandonSubmission => cases hsub'
    | beginPass => exact hkept hsub'
    | beginReviewPass _ => exact hkept hsub'
    | passStep _ => exact hkept hsub'
    | abandonPass => exact hkept hsub'
    | beginCancellation => exact hkept hsub'
    | cancelStep _ => exact hkept hsub'
    | abandonCancellation => exact hkept hsub'
    | reviewed _ _ => exact hkept hsub'
    | abandonReview => exact hkept hsub'
    | refused _ _ => exact hkept hsub'
    | started _ _ => exact hkept hsub'
    | finished _ _ => exact hkept hsub'
  · rw [hsame] at hsub'
    exact hkept hsub'

/-- What the first phase has made of an object. -/
theorem promoted_object {i : Nat} {run : WorkflowRun} {tasks : List AgentTask} {rows : RunRows}
    {changed : List Nat} (hpass : s.race.passes[i]? = some (.read run tasks))
    (hphase : firstPhase ⟨run, tasks⟩ = .promoted rows changed) {o : AgentTask}
    (ho : o ∈ rows.tasks) :
    ∃ l ∈ tasks, Held s l ∧ ∃ root, Scanned (childrenOf root tasks) l o := by
  have hcases := firstPhase_cases ⟨run, tasks⟩
  rw [hphase] at hcases
  cases hcases with
  | promoted root promotion found healthy loop =>
      obtain ⟨l, hl, hscan⟩ := ((scan_objects root).1 _ loop).exists_before ho
      exact ⟨l, hl, .pass (List.mem_of_getElem? hpass) hl, root, hscan⟩

theorem drawn_step (h : Drawn plan s) (hstep : operationStep s a = some s') : Drawn plan s' := by
  refine ⟨h.draft, (taskIds_step h.ids hstep).1, ?_, ?_, ?_⟩
  · intro d' hd'
    rcases row_before hstep hd' with ⟨sub, rest, hsub, hremaining, -⟩ | ⟨d, hd, hspec, -⟩
    · refine ⟨d', (h.submission sub hsub).2 d' ?_, rfl⟩
      rw [hremaining]
      exact List.mem_cons_self
    · exact (h.rows d hd).congr hspec
  · intro sub' hsub'
    obtain ⟨sub, hsub, hplan, hremaining⟩ := submission_before hstep hsub'
    obtain ⟨hsame, hfrom⟩ := h.submission sub hsub
    exact ⟨hplan.trans hsame, fun t ht => hfrom t (hremaining ht)⟩
  · intro o ho
    have hread : ∃ d ∈ s.race.db.tasks, o.toTaskSpec = d.toTaskSpec := by
      cases held_step hstep ho with
      | held held => exact h.held o held
      | read mem => exact ⟨o, mem, rfl⟩
      | promoted action pass phase mem =>
          obtain ⟨l, -, hl, root, hscan⟩ := promoted_object pass phase mem
          obtain ⟨d, hd, hspec⟩ := h.held l hl
          exact ⟨d, hd, hscan.spec.trans hspec⟩
      | reviewed mem review => exact ⟨_, mem, (reviewTask_ok review).2.1⟩
      | stopped stop mem object => exact ⟨_, mem, by rw [object]⟩
    obtain ⟨d, hd, hspec⟩ := hread
    obtain ⟨d', hd', hspec', -⟩ := row_after h hstep hd
    exact ⟨d', hd', hspec.trans hspec'.symm⟩

/-! ### Attempts -/

/-- A worker has started the task, and it has not ended. -/
def TaskStatus.Begun (status : TaskStatus) : Prop := status = .running ∨ status = .retrying

/-- What holds in every run, whatever its processes interleave. -/
structure Traced (plan : SubmissionPlan) (s : OperationState) : Prop extends Drawn plan s where
  recoveries : ∀ loaded ∈ s.recoveries, ∀ l ∈ loaded, l.status = .running
  busy : ∀ id ∈ s.race.working, id ∈ taskIds s.race.db ∧
    ∀ d ∈ s.race.db.tasks, d.id = id → d.status ≠ .waitingChild ∧ 0 < d.attempt
  begun : ∀ d ∈ s.race.db.tasks, d.status.Begun → 0 < d.attempt
  objects : ∀ o, Held s o → (o.status.Begun → 0 < o.attempt) ∧
    ∀ d ∈ s.race.db.tasks, d.id = o.id → o.attempt ≤ d.attempt
  /-- Only a node is up for its approval. -/
  reviews : ∀ d ∈ s.race.db.tasks, d.status = .humanReview → d.id ≠ 0

theorem reviewTask_attempt {approved : Bool} {note : Option String} {t t' : AgentTask}
    (h : reviewTask approved note t = .ok t') : t'.attempt = t.attempt := by
  unfold reviewTask at h
  split at h
  · cases h
  · cases h
    rfl

theorem RowChange.attempt {working working' : List Nat} {t t' : AgentTask}
    (h : RowChange working t a t' working') : t.attempt ≤ t'.attempt := by
  cases h with
  | refused start => exact Nat.le_of_eq (startTask_spec.1 start).2.2.2.symm
  | started start =>
      rw [(startTask_spec.2 start).2.2.2]
      exact Nat.le_succ _
  | finished workerId outcome busy =>
      exact Nat.le_of_eq (finishTask_attempts workerId outcome t).1.symm
  | reviewed review => exact Nat.le_of_eq (reviewTask_attempt review).symm
  | cancelled cancel =>
      rw [(cancelTask_ok cancel).2]
      exact Nat.le_refl _

theorem RowStep.attempt {d d' : AgentTask} (h : RowStep s s' a d d') : d.attempt ≤ d'.attempt := by
  cases h with
  | kept status attempt => exact Nat.le_of_eq attempt.symm
  | queued sub action current remaining rootPending root status attempt =>
      exact Nat.le_of_eq attempt.symm
  | written loaded rows l c commits mem self changed status attempt rewrites =>
      exact Nat.le_of_eq attempt.symm
  | changed change => exact change.attempt

/-- A worker that has a task after a step had it before, or has just started it. -/
theorem working_before (hstep : operationStep s a = some s') {id : Nat}
    (hid : id ∈ s'.race.working) :
    id ∈ s.race.working ∨ ∃ t ∈ s.race.db.tasks, ∃ t', t.id = id ∧
      (t.status = .pending ∨ t.status = .retrying) ∧ t'.id = t.id ∧ t'.status = .running ∧
      0 < t'.attempt ∧ s'.race.db = s.race.db.setTask t' := by
  cases operationStep_spec hstep with
  | quiet db workers => exact Or.inl (workers ▸ hid)
  | created sub t rest current remaining db workers => exact Or.inl (workers ▸ hid)
  | submitted sub current remaining db workers => exact Or.inl (workers ▸ hid)
  | committed commits db workers => exact Or.inl (workers ▸ hid)
  | row t t' mem change db =>
      generalize s'.race.working = working' at change hid
      cases change with
      | refused start => exact Or.inl hid
      | started start =>
          rcases List.mem_cons.mp hid with rfl | hid
          · obtain ⟨hqueued, hspec, hrunning, hattempt⟩ := startTask_spec.2 start
            refine Or.inr ⟨t, mem, t', rfl, hqueued, congrArg TaskSpec.id hspec, hrunning, ?_, db⟩
            omega
          · exact Or.inl hid
      | finished workerId outcome busy => exact Or.inl (List.mem_of_mem_erase hid)
      | reviewed review => exact Or.inl hid
      | cancelled cancel => exact Or.inl hid

/-- What a task that has begun before a commit keeps, and a recovered one has. -/
theorem traced_begun (h : Traced plan s) (hstep : operationStep s a = some s') :
    ∀ d' ∈ s'.race.db.tasks, d'.status.Begun → 0 < d'.attempt := by
  intro d' hd' hbegun
  rcases row_before hstep hd' with ⟨sub, rest, hsub, hremaining, -⟩ | ⟨d, hd, hspec, hrow⟩
  · -- A new task is queued or waits.
    have hmem : d' ∈ plan.tasks := (h.submission sub hsub).2 d' (by
      rw [hremaining]
      exact List.mem_cons_self)
    have hstatus : d'.status = .pending ∨ d'.status = .humanReview ∨ d'.status = .waitingChild := by
      rcases List.mem_cons.mp hmem with rfl | hmem
      · exact Or.inr (Or.inr h.draft.shape.rootWaits)
      · exact h.draft.initial d' hmem
    rcases hstatus with hs | hs | hs <;> rw [hs] at hbegun <;> simp [TaskStatus.Begun] at hbegun
  · have hle := hrow.attempt
    cases hrow with
    | kept status attempt =>
        rw [status] at hbegun
        exact Nat.lt_of_lt_of_le (h.begun d hd hbegun) hle
    | queued sub action current remaining rootPending root status attempt =>
        rw [status] at hbegun
        simp [TaskStatus.Begun] at hbegun
    | written loaded rows l c commits mem self changed status attempt rewrites =>
        rw [status] at hbegun
        cases rewrites with
        | kept same => exact absurd same changed
        | moved root t found healthy memt selft waiting hset =>
            rcases hset with hs | hs | hs <;> rw [hs] at hbegun <;>
              simp [TaskStatus.Begun] at hbegun
        | failed root found selft hset => rw [hset] at hbegun; simp [TaskStatus.Begun] at hbegun
        | released root pass found releases selft hset =>
            rw [hset] at hbegun
            simp [TaskStatus.Begun] at hbegun
        | cancelled open_ hset => rw [hset] at hbegun; simp [TaskStatus.Begun] at hbegun
        | recovered recovery ended =>
            -- The recovered object ran when it was read.
            have hrunning := h.recoveries _ (List.mem_of_getElem? recovery) l mem
            obtain ⟨hl, hattempts⟩ := h.objects l (commits.held mem)
            exact Nat.lt_of_lt_of_le (hl (Or.inl hrunning))
              (Nat.le_trans (hattempts d hd self.symm) hle)
        | stopped open_ hset => rw [hset] at hbegun; simp [TaskStatus.Begun] at hbegun
    | changed change =>
        generalize s'.race.working = working' at change
        cases change with
        | refused start =>
            have hended := (startTask_spec.1 start).2.2.1
            rcases hended with hs | hs <;> rw [hs] at hbegun <;> simp [TaskStatus.Begun] at hbegun
        | started start =>
            rw [(startTask_spec.2 start).2.2.2]
            exact Nat.succ_pos _
        | finished workerId outcome busy =>
            exact Nat.lt_of_lt_of_le ((h.busy d.id busy).2 d hd rfl).2 hle
        | @reviewed approved note _ review =>
            have hstatus := (reviewTask_ok review).2.2
            cases approved <;> rw [hstatus] at hbegun <;> simp [TaskStatus.Begun] at hbegun
        | cancelled cancel =>
            rw [(cancelTask_ok cancel).2] at hbegun
            simp [TaskStatus.Begun, cancelRow] at hbegun

theorem RowStep.waits {d d' : AgentTask} (h : RowStep s s' a d d')
    (hwait : d'.status = .waitingChild) : d.status = .waitingChild := by
  cases h with
  | kept status attempt => exact status.symm.trans hwait
  | queued sub action current remaining rootPending root status attempt =>
      rw [hwait] at status
      cases status
  | written loaded rows l c commits mem self changed status attempt rewrites =>
      exact absurd (status.symm.trans hwait) (rewrites.ne_waiting changed)
  | changed change => exact absurd hwait change.ne_waiting

/-- A row whose id was there before the step. -/
theorem row_of_id (h : Drawn plan s) (hstep : operationStep s a = some s') {d d' : AgentTask}
    (hd : d ∈ s.race.db.tasks) (hd' : d' ∈ s'.race.db.tasks) (hid : d'.id = d.id) :
    d'.toTaskSpec = d.toTaskSpec ∧ RowStep s s' a d d' := by
  obtain ⟨e', he', hspec, hrow⟩ := row_after h hstep hd
  have heq : e' = d' := by
    refine (drawn_step h hstep).eq_of_id he' hd' ?_
    exact (congrArg TaskSpec.id hspec).trans hid.symm
  rw [heq] at hspec hrow
  exact ⟨hspec, hrow⟩

theorem traced_busy (h : Traced plan s) (hstep : operationStep s a = some s') {id : Nat}
    (hid : id ∈ s'.race.working) : id ∈ taskIds s'.race.db ∧
      ∀ d' ∈ s'.race.db.tasks, d'.id = id → d'.status ≠ .waitingChild ∧ 0 < d'.attempt := by
  have hids := (taskIds_step h.ids hstep).2
  rcases working_before hstep hid with hold | ⟨t, ht, t', rfl, -, ht'id, hrunning, hattempt, hdb⟩
  · obtain ⟨hmem, hrows⟩ := h.busy id hold
    refine ⟨hids hmem, ?_⟩
    intro d' hd' hd'id
    obtain ⟨d, hd, hdid⟩ := List.mem_map.mp hmem
    obtain ⟨-, hrow⟩ := row_of_id h.toDrawn hstep hd hd' (hd'id.trans hdid.symm)
    obtain ⟨hne, hpos⟩ := hrows d hd hdid
    exact ⟨fun hwait => hne (hrow.waits hwait), Nat.lt_of_lt_of_le hpos hrow.attempt⟩
  · refine ⟨hids (List.mem_map.mpr ⟨t, ht, rfl⟩), ?_⟩
    intro d' hd' hd'id
    rw [hdb] at hd'
    rcases mem_setTask hd' with rfl | ⟨-, hne⟩
    · exact ⟨by rw [hrunning]; decide, hattempt⟩
    · exact absurd (hd'id.trans ht'id.symm) hne

theorem Scanned.begun {children : List AgentTask} {l c : AgentTask} (h : Scanned children l c)
    (hbegun : c.status.Begun) : l.status.Begun := by
  rcases h.status with hsame | ⟨-, hset⟩
  · rwa [hsame] at hbegun
  · rcases hset with hs | hs | hs <;> rw [hs] at hbegun <;> simp [TaskStatus.Begun] at hbegun

theorem traced_objects (h : Traced plan s) (hstep : operationStep s a = some s') {o : AgentTask}
    (ho : Held s' o) : (o.status.Begun → 0 < o.attempt) ∧
      ∀ d' ∈ s'.race.db.tasks, d'.id = o.id → o.attempt ≤ d'.attempt := by
  have hread : (o.status.Begun → 0 < o.attempt) ∧
      ∃ d ∈ s.race.db.tasks, o.id = d.id ∧ o.attempt ≤ d.attempt := by
    cases held_step hstep ho with
    | held held =>
        obtain ⟨d, hd, hspec⟩ := h.held o held
        obtain ⟨hbegun, hattempts⟩ := h.objects o held
        have hid : o.id = d.id := congrArg TaskSpec.id hspec
        exact ⟨hbegun, d, hd, hid, hattempts d hd hid.symm⟩
    | read mem => exact ⟨h.begun o mem, o, mem, rfl, Nat.le_refl _⟩
    | promoted action pass phase mem =>
        obtain ⟨l, -, hl, root, hscan⟩ := promoted_object pass phase mem
        obtain ⟨d, hd, hspec⟩ := h.held l hl
        obtain ⟨hbegun, hattempts⟩ := h.objects l hl
        have hid : l.id = d.id := congrArg TaskSpec.id hspec
        rw [hscan.attempt]
        exact ⟨fun hc => hbegun (hscan.begun hc), d, hd,
          (congrArg TaskSpec.id hscan.spec).trans hid, hattempts d hd hid.symm⟩
    | @reviewed t approved note mem review =>
        obtain ⟨-, hspec, hstatus⟩ := reviewTask_ok review
        refine ⟨?_, t, mem, congrArg TaskSpec.id hspec, Nat.le_of_eq (reviewTask_attempt review)⟩
        intro hbegun
        cases approved <;> rw [hstatus] at hbegun <;> simp [TaskStatus.Begun] at hbegun
    | @stopped session execution t stop mem object =>
        subst object
        exact ⟨h.begun t mem, t, mem, rfl, Nat.le_refl _⟩
  obtain ⟨hbegun, d, hd, hid, hle⟩ := hread
  refine ⟨hbegun, ?_⟩
  intro d' hd' hd'id
  obtain ⟨-, hrow⟩ := row_of_id h.toDrawn hstep hd hd' (hd'id.trans hid)
  exact Nat.le_trans hle hrow.attempt

/-- The object of a child is not the manager task. -/
theorem Drawn.child_nonzero (h : Drawn plan s) {tasks : List AgentTask}
    (hheld : ∀ o ∈ tasks, Held s o) {root t : AgentTask} (ht : t ∈ childrenOf root tasks) :
    t.id ≠ 0 := by
  obtain ⟨hmem, hparent⟩ := List.mem_filter.mp ht
  refine (h.origin (hheld t hmem)).nonzero h.draft.shape ?_
  rw [of_decide_eq_true hparent]
  simp

theorem traced_reviews (h : Traced plan s) (hstep : operationStep s a = some s') :
    ∀ d' ∈ s'.race.db.tasks, d'.status = .humanReview → d'.id ≠ 0 := by
  intro d' hd' hreview
  rcases row_before hstep hd' with ⟨sub, rest, hsub, hremaining, -⟩ | ⟨d, hd, hspec, hrow⟩
  · -- The manager task is created waiting.
    have hmem : d' ∈ plan.tasks := (h.submission sub hsub).2 d' (by
      rw [hremaining]
      exact List.mem_cons_self)
    rcases List.mem_cons.mp hmem with rfl | hmem
    · rw [h.draft.shape.rootWaits] at hreview
      cases hreview
    · exact h.draft.shape.children d' hmem
  · rw [congrArg TaskSpec.id hspec]
    cases hrow with
    | kept status attempt => exact h.reviews d hd (status.symm.trans hreview)
    | queued sub action current remaining rootPending root status attempt =>
        rw [hreview] at status
        cases status
    | written loaded rows l c commits mem self changed status attempt rewrites =>
        rw [hreview] at status
        cases rewrites with
        | kept same => exact absurd same changed
        | moved root t found healthy memt selft waiting hset =>
            -- Only the loop over the children asks for an approval.
            rw [← selft.trans self]
            exact h.child_nonzero (fun _ => commits.held) memt
        | failed root found selft hset => rw [hset] at status; cases status
        | released root pass found releases selft hset => rw [hset] at status; cases status
        | cancelled open_ hset => rw [hset] at status; cases status
        | recovered recovery ended =>
            rw [← status] at ended
            simp [Ended] at ended
        | stopped open_ hset => rw [hset] at status; cases status
    | changed change =>
        generalize s'.race.working = working' at change
        cases change with
        | refused start =>
            have hended := (startTask_spec.1 start).2.2.1
            rw [hreview] at hended
            simp at hended
        | started start =>
            have hrunning := (startTask_spec.2 start).2.2.1
            rw [hreview] at hrunning
            cases hrunning
        | finished workerId outcome busy =>
            have hended := (finishTask_spec workerId outcome d).2
            rw [hreview] at hended
            simp [Ended] at hended
        | reviewed review => exact h.reviews d hd (reviewTask_ok review).1
        | cancelled cancel =>
            rw [(cancelTask_ok cancel).2] at hreview
            cases hreview

theorem traced_step (h : Traced plan s) (hstep : operationStep s a = some s') : Traced plan s' where
  toDrawn := drawn_step h.toDrawn hstep
  recoveries loaded hloaded l hl := by
    rcases recoveries_step hstep hloaded with hold | hread
    · exact h.recoveries loaded hold l hl
    · exact (hread l hl).2
  busy _ hid := traced_busy h hstep hid
  begun := traced_begun h hstep
  objects _ ho := traced_objects h hstep ho
  reviews := traced_reviews h hstep

/-! ## The manager task -/

/-- The manager task neither waits nor is in the queue for the first time. -/
def TaskStatus.Left (status : TaskStatus) : Prop := status ≠ .waitingChild ∧ status ≠ .pending

/-- A pass or a submission that puts the manager task into the queue finds it
    waiting. -/
def Guarded (s : OperationState) : OperationAction → Prop
  | .race (.passStep i) => ∀ run tasks, s.race.passes[i]? = some (.readAgain run tasks) →
      Releases tasks → ∀ r ∈ s.race.db.tasks, r.parentTaskId = none → r.status = .waitingChild
  | .race .submit => ∀ sub, s.race.submission = some sub → sub.remaining = [] →
      sub.plan.rootPending = true →
      ∀ r ∈ s.race.db.tasks, r.parentTaskId = none → r.status = .waitingChild
  | _ => True

theorem RowChange.left {working working' : List Nat} {t t' : AgentTask}
    (h : RowChange working t a t' working') : t'.status.Left := by
  refine ⟨h.ne_waiting, ?_⟩
  intro hpending
  cases h with
  | refused start =>
      have hended := (startTask_spec.1 start).2.2.1
      rw [hpending] at hended
      simp at hended
  | started start =>
      have hrunning := (startTask_spec.2 start).2.2.1
      rw [hpending] at hrunning
      cases hrunning
  | finished workerId outcome busy =>
      have hended := (finishTask_spec workerId outcome t).2
      rw [hpending] at hended
      simp [Ended] at hended
  | @reviewed approved note _ review =>
      have hstatus := (reviewTask_ok review).2.2
      rw [hpending] at hstatus
      cases approved <;> cases hstatus
  | cancelled cancel =>
      rw [(cancelTask_ok cancel).2] at hpending
      cases hpending

/-- The manager task does not come back. -/
theorem left_step (h : Traced plan s) (hgood : Guarded s a) {d d' : AgentTask}
    (hd : d ∈ s.race.db.tasks) (hroot : d.id = 0) (hleft : d.status.Left)
    (hrow : RowStep s s' a d d') : d'.status.Left := by
  have hparent : d.parentTaskId = none := ((h.rows d hd).parent_iff h.draft).mpr hroot
  cases hrow with
  | kept status attempt => rwa [status]
  | queued sub action current remaining rootPending root status attempt =>
      subst action
      exact absurd (hgood sub current remaining rootPending d hd hparent) hleft.1
  | written loaded rows l c commits mem self changed status attempt rewrites =>
      rw [status]
      refine ⟨rewrites.ne_waiting changed, ?_⟩
      intro hpending
      cases rewrites with
      | kept same => exact changed same
      | moved root t found healthy memt selft waiting hset =>
          exact h.child_nonzero (fun _ => commits.held) memt ((selft.trans self).trans hroot)
      | failed root found selft hset => rw [hpending] at hset; cases hset
      | released root pass found releases selft hset =>
          exact hleft.1 (hgood _ _ pass releases d hd hparent)
      | cancelled open_ hset => rw [hpending] at hset; cases hset
      | recovered recovery ended =>
          rw [hpending] at ended
          simp [Ended] at ended
      | stopped open_ hset => rw [hpending] at hset; cases hset
  | changed change => exact change.left

/-- An object of the manager task that has left the queue tells that the row has. -/
def Tells (s : OperationState) : Prop :=
  ∀ o, Held s o → o.id = 0 → o.status.Left → ∀ d ∈ s.race.db.tasks, d.id = 0 → d.status.Left

theorem tells_after (h : Traced plan s) (htells : Tells s) (hgood : Guarded s a)
    (hstep : operationStep s a = some s') : Tells s' := by
  intro o ho hroot hleft d' hd' hd'root
  have hread : ∃ d ∈ s.race.db.tasks, d.id = 0 ∧ d.status.Left := by
    cases held_step hstep ho with
    | held held =>
        obtain ⟨d, hd, hspec⟩ := h.held o held
        have hd0 : d.id = 0 := (congrArg TaskSpec.id hspec).symm.trans hroot
        exact ⟨d, hd, hd0, htells o held hroot hleft d hd hd0⟩
    | read mem => exact ⟨o, mem, hroot, hleft⟩
    | promoted action pass phase mem =>
        subst action
        obtain ⟨l, -, hl, root, hscan⟩ := promoted_object pass phase mem
        obtain ⟨d, hd, hspec⟩ := h.held l hl
        have hl0 : l.id = 0 := (congrArg TaskSpec.id hscan.spec).symm.trans hroot
        have hd0 : d.id = 0 := (congrArg TaskSpec.id hspec).symm.trans hl0
        refine ⟨d, hd, hd0, htells l hl hl0 ?_ d hd hd0⟩
        rcases hscan.status with hsame | ⟨⟨t, ht, hid, -⟩, -⟩
        · rwa [hsame] at hleft
        · -- The loop over the children leaves the manager task alone.
          have hheld : ∀ o ∈ _, Held s o := fun o ho => .pass (List.mem_of_getElem? pass) ho
          exact absurd (hid.trans hl0) (h.child_nonzero hheld ht)
    | @reviewed t approved note mem review =>
        obtain ⟨hreview, hspec, -⟩ := reviewTask_ok review
        exact absurd ((congrArg TaskSpec.id hspec).symm.trans hroot) (h.reviews t mem hreview)
    | @stopped session execution t stop mem object =>
        subst object
        exact ⟨t, mem, hroot, hleft⟩
  obtain ⟨d, hd, hd0, hdleft⟩ := hread
  obtain ⟨-, hrow⟩ := row_of_id h.toDrawn hstep hd hd' (hd'root.trans hd0.symm)
  exact left_step h hgood hd hd0 hdleft hrow

/-! ## The commit that fails a run -/

theorem failRoot_left (error : String) (t : AgentTask) : (failRoot error t).status.Left := by
  unfold failRoot
  split
  · exact ⟨by simp [AgentTask.setSessionStatus], by simp [AgentTask.setSessionStatus]⟩
  · rename_i hopen
    exact ⟨fun hwait => hopen (Or.inl hwait), fun hpending => hopen (Or.inr hpending)⟩

/-- The commit of a pass that fails a run: it takes the run for a defective one, or
    changes the manager task only. -/
theorem marks_failed {i : Nat} {p : Pass} (hpass : s.race.passes[i]? = some p)
    (hstep : operationStep s (.race (.passStep i)) = some s')
    (hactive : s.race.db.run.status ≠ .failed) (hfailed : s'.race.db.run.status = .failed) :
    (∃ run tasks, p = .read run tasks ∧ Spurious tasks) ∨
      ∃ root error loaded rows, Commits s (.race (.passStep i)) loaded rows ∧
        s'.race.db = commit loaded rows s.race.db ∧ rootOf loaded.tasks = some root ∧
        rows.tasks = updateTask root.id (failRoot error) loaded.tasks := by
  have hdb := passStep_db hpass hstep
  -- A commit that does not set the status of the run to failed leaves it.
  have hnot : ∀ {loaded rows : RunRows}, s'.race.db = commit loaded rows s.race.db →
      ¬ (rows.run.status ≠ .failed ∨ rows.run = loaded.run) := by
    intro loaded rows hcommit hrun
    rw [hcommit] at hfailed
    rcases commitColumn_cases loaded.run.status rows.run.status s.race.db.run.status with
      hsame | ⟨hne, hnew⟩
    · exact hactive (hsame.symm.trans hfailed)
    · rcases hrun with hrun | hrun
      · exact hrun (hnew.symm.trans hfailed)
      · exact hne (congrArg WorkflowRun.status hrun)
  have hquiet : ¬ s'.race.db = s.race.db := fun hsame => hactive (hsame ▸ hfailed)
  cases p with
  | begun run tasks => exact absurd hdb hquiet
  | committed run tasks => exact absurd hdb hquiet
  | refreshed run tasks => exact absurd hdb hquiet
  | read run tasks =>
      have hcommits : Commits s (.race (.passStep i)) ⟨run, tasks⟩
          (firstPhase ⟨run, tasks⟩).rows := .first hpass
      have hcases := firstPhase_cases ⟨run, tasks⟩
      have hcommit : s'.race.db = commit ⟨run, tasks⟩ (firstPhase ⟨run, tasks⟩).rows s.race.db := by
        rw [hdb, Pass.step]
        cases firstPhase ⟨run, tasks⟩ with
        | finished rows => rfl
        | promoted rows changed => rfl
      cases hphase : firstPhase ⟨run, tasks⟩ with
      | finished rows =>
          rw [hphase] at hcases hcommits hcommit
          cases hcases with
          | rootless absent =>
              refine Or.inl ⟨run, tasks, rfl, ?_⟩
              unfold Spurious
              rw [absent]
              trivial
          | failed root t error found mem status =>
              exact Or.inr ⟨root, error, _, _, hcommits, hcommit, found, rfl⟩
          | raised root error tasks' found healthy loop =>
              refine Or.inl ⟨run, tasks, rfl, ?_⟩
              unfold Spurious
              rw [found]
              exact ((scan_objects root).2 _ loop).2
      | promoted rows changed =>
          rw [hphase] at hcases hcommit
          cases hcases with
          | promoted root promotion found healthy loop =>
              have hkept : ({ run := run, tasks := promotion.tasks } : RunRows).run = run := rfl
              exact absurd (Or.inr hkept) (hnot hcommit)
  | readAgain run tasks =>
      have hcommit : s'.race.db = commit ⟨run, tasks⟩ (secondPhase ⟨run, tasks⟩).1 s.race.db := hdb
      cases secondPhase_cases ⟨run, tasks⟩ with
      | kept tasks' run' => exact absurd run' (hnot hcommit)
      | released root prompt found nonempty succeeded waiting run' tasks' =>
          exact absurd (Or.inl (by rw [run']; decide)) (hnot hcommit)
      | failed root error found status run' tasks' =>
          exact Or.inr ⟨root, error, _, _, .second hpass, hcommit, found, tasks'⟩

section Failing

variable {root : AgentTask} {error : String} {loaded rows : RunRows}

theorem Drawn.root_id (h : Drawn plan s) (hcommits : Commits s a loaded rows)
    (hfound : rootOf loaded.tasks = some root) : root.id = 0 := by
  obtain ⟨hmem, hparent⟩ := rootOf_mem hfound
  exact ((h.origin (hcommits.held hmem)).parent_iff h.draft).mp hparent

/-- The commit ends the manager task, unless it has left the queue before. -/
theorem failing_root (h : Traced plan s) (htells : Tells s) (hcommits : Commits s a loaded rows)
    (hdb : s'.race.db = commit loaded rows s.race.db) (hfound : rootOf loaded.tasks = some root)
    (hrows : rows.tasks = updateTask root.id (failRoot error) loaded.tasks) {r' : AgentTask}
    (hr' : r' ∈ s'.race.db.tasks) (hid : r'.id = 0) : r'.status.Left := by
  have hroot := h.root_id hcommits hfound
  have hevolves : Evolves (fun l c => l.id = root.id → c.status.Left) loaded.tasks rows.tasks := by
    rw [hrows]
    refine evolves_updateTask (fun t _ _ _ => failRoot_left error t) ?_
    exact fun t _ hne hself => absurd hself hne
  rw [hdb] at hr'
  obtain ⟨d, hd, ⟨rfl, hnone⟩ | ⟨l, hl, c, -, hleft, hld, rfl⟩⟩ := commit_rows hevolves hr'
  · -- The pass holds the manager task.
    exact absurd (hroot.trans hid.symm) (hnone root (rootOf_mem hfound).1)
  · have hd0 : d.id = 0 := hid
    have hl0 : l.id = 0 := hld.trans hd0
    have hc := hleft (hl0.trans hroot.symm)
    show (commitColumn l.status c.status d.status).Left
    unfold commitColumn
    split
    · -- An object that is left as it was has left the queue, and so has the row.
      rename_i hsame
      rw [hsame] at hc
      exact htells l (hcommits.held hl) hl0 hc d hd hd0
    · exact hc

/-- The commit leaves the rows of the other tasks as they are. -/
theorem failing_others (h : Traced plan s) (hstep : operationStep s a = some s')
    (hcommits : Commits s a loaded rows) (hdb : s'.race.db = commit loaded rows s.race.db)
    (hfound : rootOf loaded.tasks = some root)
    (hrows : rows.tasks = updateTask root.id (failRoot error) loaded.tasks) {t : AgentTask}
    (ht : t ∈ s.race.db.tasks) (hchild : t.id ≠ 0) : t ∈ s'.race.db.tasks := by
  have hroot := h.root_id hcommits hfound
  have hevolves : Evolves (fun l c => l.id = root.id ∨ c = l) loaded.tasks rows.tasks := by
    rw [hrows]
    exact evolves_updateTask (fun t _ hid => Or.inl hid) fun t _ _ => Or.inr rfl
  obtain ⟨t', ht', hspec, -⟩ := row_after h.toDrawn hstep ht
  have hid : t'.id = t.id := congrArg TaskSpec.id hspec
  have hmem := ht'
  rw [hdb] at hmem
  obtain ⟨d, hd, ⟨rfl, -⟩ | ⟨l, -, c, -, hlc, hld, rfl⟩⟩ := commit_rows hevolves hmem
  · rw [← h.eq_of_id hd ht hid]
    exact ht'
  · have hdt : d = t := h.eq_of_id hd ht hid
    subst hdt
    rcases hlc with hl | rfl
    · exact absurd (hld.symm.trans (hl.trans hroot)) hchild
    · rwa [commitTask_unchanged] at ht'

end Failing

/-! ## Tasks that wait -/

/-- The rows of the objects have the statuses these were read with. -/
def StatusesRead (db : RunRows) (tasks : List AgentTask) : Prop :=
  ∀ l ∈ tasks, ∀ d ∈ db.tasks, d.id = l.id → l.status = d.status

/-- The processes commit over the statuses they have read, passes when they have
    read every task, and no worker ends a task that has failed. -/
def Current (s : OperationState) : OperationAction → Prop
  | .race (.passStep i) => ∀ p, s.race.passes[i]? = some p →
      match p with
      | .read _ tasks | .readAgain _ tasks => StatusesRead s.race.db tasks ∧
          ∀ d ∈ s.race.db.tasks, ∃ l ∈ tasks, l.id = d.id
      | _ => True
  | .race (.cancelStep i) => ∀ run tasks, s.race.cancellations[i]? = some (.read run tasks) →
      StatusesRead s.race.db tasks
  | .race (.finish id _ _) => ∀ d ∈ s.race.db.tasks, d.id = id → d.status ≠ .failed
  | .commitRecovery i _ => ∀ loaded, s.recoveries[i]? = some loaded →
      StatusesRead s.race.db loaded
  | .stopStep i => ∀ t, s.stops[i]? = some (.read t) → StatusesRead s.race.db [t]
  | _ => True

theorem current_read (hcurrent : Current s a) {loaded rows : RunRows}
    (hcommits : Commits s a loaded rows) : StatusesRead s.race.db loaded.tasks := by
  cases hcommits with
  | first pass => exact (hcurrent _ pass).1
  | second pass => exact (hcurrent _ pass).1
  | cancelled cancellation ok => exact hcurrent _ _ cancellation
  | recovered recovery => exact hcurrent _ recovery
  | stopped stop ok => exact hcurrent _ stop

theorem current_all {i : Nat} (hcurrent : Current s (.race (.passStep i))) {loaded rows : RunRows}
    (hcommits : Commits s (.race (.passStep i)) loaded rows) :
    ∀ d ∈ s.race.db.tasks, ∃ l ∈ loaded.tasks, l.id = d.id := by
  cases hcommits with
  | first pass => exact (hcurrent _ pass).2
  | second pass => exact (hcurrent _ pass).2

/-- A child that has failed stays so. -/
theorem failed_stays (h : Traced plan s) (hcurrent : Current s a) {f f' : AgentTask}
    (hf : f ∈ s.race.db.tasks) (hchild : f.id ≠ 0) (hfailed : f.status = .failed)
    (hrow : RowStep s s' a f f') : f'.status = .failed := by
  cases hrow with
  | kept status attempt => exact status.trans hfailed
  | queued sub action current remaining rootPending root status attempt =>
      rw [(h.submission sub current).1, h.draft.shape.root] at root
      exact absurd root hchild
  | written loaded rows l c commits mem self changed status attempt rewrites =>
      -- The commit has read the child as failed, and no process rewrites such a task.
      have hread := current_read hcurrent commits
      have hl : l.status = .failed := (hread l mem f hf self.symm).trans hfailed
      cases rewrites with
      | kept same => exact absurd same changed
      | moved root t found healthy memt selft waiting hset =>
          have ht := hread t (List.mem_filter.mp memt).1 f hf (selft.trans self).symm
          rw [waiting, hfailed] at ht
          cases ht
      | failed root found selft hset => exact status.trans hset
      | released root pass found releases selft hset =>
          exact absurd ((selft.trans self).symm.trans (h.root_id commits found)) hchild
      | cancelled open_ hset =>
          rw [hl] at open_
          cases open_
      | recovered recovery ended =>
          rw [h.recoveries _ (List.mem_of_getElem? recovery) l mem] at hl
          cases hl
      | stopped open_ hset =>
          rw [hl] at open_
          simp at open_
  | changed change =>
      -- Under the lock of its row only a worker that still runs it would change it.
      generalize s'.race.working = working' at change
      cases change with
      | refused start =>
          rcases (startTask_spec.1 start).1 with hs | hs <;> rw [hfailed] at hs <;> cases hs
      | started start =>
          rcases (startTask_spec.2 start).1 with hs | hs <;> rw [hfailed] at hs <;> cases hs
      | finished workerId outcome busy => exact absurd hfailed (hcurrent f hf rfl)
      | reviewed review =>
          rw [(reviewTask_ok review).1] at hfailed
          cases hfailed
      | cancelled cancel =>
          rcases (cancelTask_ok cancel).1 with hs | hs <;> rw [hfailed] at hs <;> cases hs

/-- While a child has failed, a task that waits is not put into the queue. -/
theorem waiting_stays (h : Traced plan s) (hcurrent : Current s a) {f w w' : AgentTask}
    (hf : f ∈ s.race.db.tasks) (hfchild : f.id ≠ 0) (hfailed : f.status = .failed)
    (hw : w ∈ s.race.db.tasks) (hwchild : w.id ≠ 0) (hidle : w.id ∉ s.race.working)
    (hwait : w.status = .waitingChild ∨ w.status = .cancelled) (hrow : RowStep s s' a w w') :
    w'.status = .waitingChild ∨ w'.status = .cancelled := by
  have hnotQueued : ¬ (w.status = .pending ∨ w.status = .retrying) := by
    rcases hwait with hs | hs <;> rw [hs] <;> simp
  cases hrow with
  | kept status attempt => rwa [status]
  | queued sub action current remaining rootPending root status attempt =>
      rw [(h.submission sub current).1, h.draft.shape.root] at root
      exact absurd root hwchild
  | written loaded rows l c commits mem self changed status attempt rewrites =>
      have hread := current_read hcurrent commits
      have hl : l.status = w.status := hread l mem w hw self.symm
      rw [status]
      cases rewrites with
      | kept same => exact absurd same changed
      | moved root t found healthy memt selft waiting hset =>
          -- The pass has read the failed child, so it promotes nothing.
          obtain ⟨l', hl', hid⟩ := current_all hcurrent commits f hf
          have hl'failed : l'.status = .failed := (hread l' hl' f hf hid.symm).trans hfailed
          have hparent : l'.parentTaskId = some root.id := by
            rw [h.root_id commits found]
            refine (h.origin (commits.held hl')).child_parent h.draft ?_
            rw [hid]
            exact hfchild
          have hmem : l' ∈ childrenOf root loaded.tasks :=
            List.mem_filter.mpr ⟨hl', by simpa using hparent⟩
          exact absurd hl'failed (healthy l' hmem)
      | failed root found selft hset =>
          exact absurd ((selft.trans self).symm.trans (h.root_id commits found)) hwchild
      | released root pass found releases selft hset =>
          exact absurd ((selft.trans self).symm.trans (h.root_id commits found)) hwchild
      | cancelled open_ hset => exact Or.inr hset
      | recovered recovery ended =>
          rw [h.recoveries _ (List.mem_of_getElem? recovery) l mem] at hl
          rw [← hl] at hwait
          simp at hwait
      | stopped open_ hset => exact Or.inr hset
  | changed change =>
      generalize s'.race.working = working' at change
      cases change with
      | refused start => exact absurd (startTask_spec.1 start).1 hnotQueued
      | started start => exact absurd (startTask_spec.2 start).1 hnotQueued
      | finished workerId outcome busy => exact absurd busy hidle
      | reviewed review =>
          rw [(reviewTask_ok review).1] at hwait
          simp at hwait
      | cancelled cancel => exact absurd (cancelTask_ok cancel).1 hnotQueued

/-- The child `f` has failed, and nobody works on the child `w`, which waits or has
    been cancelled. -/
structure Stalled (f w : Nat) (s : OperationState) : Prop where
  nonzero : f ≠ 0 ∧ w ≠ 0
  failed : ∃ t ∈ s.race.db.tasks, t.id = f ∧ t.status = .failed
  waits : ∃ t ∈ s.race.db.tasks, t.id = w ∧ (t.status = .waitingChild ∨ t.status = .cancelled)
  idle : w ∉ s.race.working

theorem stalled_step {f w : Nat} (h : Traced plan s) (hstalled : Stalled f w s)
    (hcurrent : Current s a) (hstep : operationStep s a = some s') : Stalled f w s' := by
  obtain ⟨⟨hf0, hw0⟩, ⟨f, hf, rfl, hfailed⟩, ⟨w, hw, rfl, hwait⟩, hidle⟩ := hstalled
  refine ⟨⟨hf0, hw0⟩, ?_, ?_, ?_⟩
  · obtain ⟨f', hf', hspec, hrow⟩ := row_after h.toDrawn hstep hf
    exact ⟨f', hf', congrArg TaskSpec.id hspec, failed_stays h hcurrent hf hf0 hfailed hrow⟩
  · obtain ⟨w', hw', hspec, hrow⟩ := row_after h.toDrawn hstep hw
    exact ⟨w', hw', congrArg TaskSpec.id hspec,
      waiting_stays h hcurrent hf hf0 hfailed hw hw0 hidle hwait hrow⟩
  · intro hworking
    rcases working_before hstep hworking with hold | ⟨t, ht, t', hid, hqueued, -⟩
    · exact hidle hold
    · -- The task that a worker has just started was in the queue.
      rw [h.eq_of_id ht hw hid] at hqueued
      rcases hwait with hs | hs <;> rw [hs] at hqueued <;> simp at hqueued

end Drawn

/-! ## Reachable states -/

/-- A submission creates a manager task and its children. -/
theorem drafted_of {deps : String → List String} {plan : SubmissionPlan} {payload : RunRequest}
    {team : AgentTeam} (h : RunShape deps (plan.submitted payload).tasks)
    (hroot : plan.root = managerTask payload team) (hactive : plan.runStatus.terminal = false)
    (hinitial : ∀ t ∈ plan.children,
      t.status = .pending ∨ t.status = .humanReview ∨ t.status = .waitingChild) : Drafted plan := by
  refine ⟨planShape_of h hroot ?_, fun t ht => ?_, hinitial⟩
  · intro hfailed
    rw [hfailed] at hactive
    cases hactive
  · exact (submitted_split h).specs.child_parent ht

/-- When a submission begins there are no rows yet, and no process holds an object. -/
theorem traced_begin {plan : SubmissionPlan} {payload : RunRequest} (hdraft : Drafted plan)
    (hids : DistinctIds (created plan payload)) :
    Traced plan (operating (created plan payload)) ∧ Tells (operating (created plan payload)) := by
  have hheld : ∀ o, ¬ Held (operating (created plan payload)) o := fun o => not_held_operating
  refine ⟨⟨⟨hdraft, hids, ?_, ?_, fun o ho => absurd ho (hheld o)⟩, ?_, ?_, ?_,
    fun o ho => absurd ho (hheld o), ?_⟩, fun o ho => absurd ho (hheld o)⟩
  · intro d hd
    cases hd
  · intro sub hsub
    cases hsub
    exact ⟨rfl, fun t ht => ht⟩
  · intro loaded hloaded
    cases hloaded
  · intro id hid
    cases hid
  · intro d hd
    cases hd
  · intro d hd
    cases hd

theorem traced_created {race : RaceState} (h : Created race) :
    ∃ plan, Traced plan (operating race) ∧ Tells (operating race) := by
  rcases h with ⟨team, payload, rfl⟩ | ⟨nodes, team, payload, plan, hdag, hplan, rfl⟩
  · have hshape := shape_teamRun team payload
    refine ⟨_, traced_begin (drafted_of hshape rfl rfl ?_) (distinctIds_created hshape)⟩
    intro t ht
    obtain ⟨m, -, rfl⟩ := List.mem_map.mp ht
    exact Or.inl rfl
  · have hshape := shape_workflowRun hdag hplan
    refine ⟨plan, traced_begin (drafted_of hshape (submitWorkflowRun_ok hplan).2.1
      (submitWorkflowRun_active hplan) ?_) (distinctIds_created hshape)⟩
    intro t ht
    obtain ⟨node, -, n, rfl⟩ := exists_nodeTask hplan ht
    rcases initialStatus_cases node with hs | hs | ⟨hs, -⟩
    · exact Or.inl hs
    · exact Or.inr (Or.inl hs)
    · exact Or.inr (Or.inr hs)

/-- What every run keeps whose steps are `Guarded`. -/
theorem traced_reachable {s : OperationState}
    (h : (operationSystem OperationsCreated).Reachable Guarded s) :
    ∃ plan, Traced plan s ∧ Tells s := by
  refine h.invariant (fun s => ∃ plan, Traced plan s ∧ Tells s) ?_ ?_
  · rintro s ⟨race, hrace, rfl⟩
    exact traced_created hrace
  · rintro s a t ⟨plan, hs, htells⟩ hgood hstep
    exact ⟨plan, traced_step hs hstep, tells_after hs htells hgood hstep⟩

/-! ## Containment -/

/-- The next commit of the pass `i` fails the run. -/
structure Fails (s : OperationState) (i : Nat) (s' : OperationState) : Prop where
  step : (operationSystem OperationsCreated).step s (.race (.passStep i)) = some s'
  before : s.race.db.run.status ≠ .failed
  after : s'.race.db.run.status = .failed

/-- What the commit that fails a run ends, and what it leaves alone. -/
structure Contained (s s' : OperationState) : Prop where
  /-- The manager task has ended or a worker had started it. -/
  manager : ∀ u, (operationSystem OperationsCreated).Path Guarded s' u →
    ∀ r ∈ u.race.db.tasks, r.parentTaskId = none →
      r.status.terminal = true ∨ (r.status.Begun ∧ 0 < r.attempt)
  /-- A manager task that no worker had started is not started any more. -/
  unstarted : ∀ r ∈ s'.race.db.tasks, r.parentTaskId = none → r.attempt = 0 →
    ∀ u, (operationSystem OperationsCreated).Path Guarded s' u →
      ∃ r' ∈ u.race.db.tasks, r'.id = r.id ∧ r'.attempt = 0 ∧
        ∀ workerId agentActive r'', startTask workerId agentActive r' ≠ .started r''
  /-- The other tasks stay as they were. -/
  others : ∀ t ∈ s.race.db.tasks, t.parentTaskId ≠ none → t ∈ s'.race.db.tasks
  /-- A task that waits next to a failed one is not put into the queue. -/
  waiting : ∀ f ∈ s'.race.db.tasks, f.parentTaskId ≠ none → f.status = .failed →
    ∀ w ∈ s'.race.db.tasks, w.parentTaskId ≠ none → w.status = .waitingChild →
      ∀ u, (operationSystem OperationsCreated).Path Current s' u →
        ∃ w' ∈ u.race.db.tasks, w'.id = w.id ∧
          (w'.status = .waitingChild ∨ w'.status = .cancelled)

/-- The manager task has left the queue. -/
def ManagerLeft (s : OperationState) : Prop :=
  ∃ r ∈ s.race.db.tasks, r.id = 0 ∧ r.status.Left

/-- The manager task has left the queue, and no worker has started it. -/
def NeverStarted (s : OperationState) : Prop :=
  ∃ r ∈ s.race.db.tasks, r.id = 0 ∧ r.status.Left ∧ r.attempt = 0

section Containment

variable {plan : SubmissionPlan} {s s' : OperationState} {a : OperationAction}

/-- A task that has left the queue and that no worker has started is not started. -/
theorem Traced.not_started (h : Traced plan s) {d : AgentTask} (hd : d ∈ s.race.db.tasks)
    (hleft : d.status.Left) (hnever : d.attempt = 0) (workerId : String) (agentActive : Bool)
    (t : AgentTask) : startTask workerId agentActive d ≠ .started t := by
  intro hstart
  rcases (startTask_spec.2 hstart).1 with hs | hs
  · exact hleft.2 hs
  · -- A task is retried only after it has been started.
    have hpos := h.begun d hd (Or.inr hs)
    omega

theorem never_step (h : Traced plan s) {d d' : AgentTask} (hd : d ∈ s.race.db.tasks)
    (hleft : d.status.Left) (hnever : d.attempt = 0) (hrow : RowStep s s' a d d') :
    d'.attempt = 0 := by
  cases hrow with
  | kept status attempt => exact attempt.trans hnever
  | queued sub action current remaining rootPending root status attempt =>
      exact attempt.trans hnever
  | written loaded rows l c commits mem self changed status attempt rewrites =>
      exact attempt.trans hnever
  | changed change =>
      generalize s'.race.working = working' at change
      cases change with
      | refused start => exact (startTask_spec.1 start).2.2.2.trans hnever
      | started start => exact absurd start (h.not_started hd hleft hnever _ _ _)
      | finished workerId outcome busy =>
          exact (finishTask_attempts workerId outcome d).1.trans hnever
      | reviewed review => exact (reviewTask_attempt review).trans hnever
      | cancelled cancel =>
          rw [(cancelTask_ok cancel).2]
          exact hnever

theorem managerLeft_step (h : Traced plan s) (hleft : ManagerLeft s) (hgood : Guarded s a)
    (hstep : operationStep s a = some s') : ManagerLeft s' := by
  obtain ⟨r, hr, hid, hstatus⟩ := hleft
  obtain ⟨r', hr', hspec, hrow⟩ := row_after h.toDrawn hstep hr
  exact ⟨r', hr', (congrArg TaskSpec.id hspec).trans hid, left_step h hgood hr hid hstatus hrow⟩

theorem neverStarted_step (h : Traced plan s) (hnever : NeverStarted s) (hgood : Guarded s a)
    (hstep : operationStep s a = some s') : NeverStarted s' := by
  obtain ⟨r, hr, hid, hstatus, hattempt⟩ := hnever
  obtain ⟨r', hr', hspec, hrow⟩ := row_after h.toDrawn hstep hr
  exact ⟨r', hr', (congrArg TaskSpec.id hspec).trans hid, left_step h hgood hr hid hstatus hrow,
    never_step h hr hstatus hattempt hrow⟩

/-- What a `Guarded` step keeps holds along a run of such steps. -/
theorem traced_path {Inv : OperationState → Prop} (h : Traced plan s) (hs : Inv s)
    (hkept : ∀ {s s' a}, Traced plan s → Inv s → Guarded s a → operationStep s a = some s' → Inv s')
    {u : OperationState} (hpath : (operationSystem OperationsCreated).Path Guarded s u) :
    Traced plan u ∧ Inv u :=
  hpath.preserves (fun u => Traced plan u ∧ Inv u)
    (fun _ _ _ hu hgood hstep => ⟨traced_step hu.1 hstep, hkept hu.1 hu.2 hgood hstep⟩) ⟨h, hs⟩

/-- A manager task that has left the queue has ended or a worker has started it. -/
theorem Traced.manager_ended (h : Traced plan s) (hleft : ManagerLeft s) {r : AgentTask}
    (hr : r ∈ s.race.db.tasks) (hparent : r.parentTaskId = none) :
    r.status.terminal = true ∨ (r.status.Begun ∧ 0 < r.attempt) := by
  obtain ⟨d, hd, hid, hne, hnotPending⟩ := hleft
  have hr0 : r.id = 0 := ((h.rows r hr).parent_iff h.draft).mp hparent
  have heq : d = r := h.eq_of_id hd hr (hid.trans hr0.symm)
  subst heq
  cases hs : d.status with
  | pending => exact absurd hs hnotPending
  | waitingChild => exact absurd hs hne
  | humanReview => exact absurd hid (h.reviews d hd hs)
  | running => exact Or.inr ⟨Or.inl rfl, h.begun d hd (Or.inl hs)⟩
  | retrying => exact Or.inr ⟨Or.inr rfl, h.begun d hd (Or.inr hs)⟩
  | succeeded => exact Or.inl rfl
  | failed => exact Or.inl rfl
  | cancelled => exact Or.inl rfl

/-- Next to a failed task, one that waits stays so or is cancelled. -/
theorem waiting_contained (h : Traced plan s) {f w : AgentTask} (hf : f ∈ s.race.db.tasks)
    (hfchild : f.parentTaskId ≠ none) (hfailed : f.status = .failed) (hw : w ∈ s.race.db.tasks)
    (hwchild : w.parentTaskId ≠ none) (hwait : w.status = .waitingChild) {u : OperationState}
    (hpath : (operationSystem OperationsCreated).Path Current s u) :
    ∃ w' ∈ u.race.db.tasks, w'.id = w.id ∧
      (w'.status = .waitingChild ∨ w'.status = .cancelled) := by
  have hstalled : Stalled f.id w.id s := by
    refine ⟨⟨(h.rows f hf).nonzero h.draft.shape hfchild,
      (h.rows w hw).nonzero h.draft.shape hwchild⟩, ⟨f, hf, rfl, hfailed⟩,
      ⟨w, hw, rfl, Or.inl hwait⟩, ?_⟩
    exact fun hbusy => ((h.busy w.id hbusy).2 w hw rfl).1 hwait
  obtain ⟨-, hend⟩ := hpath.preserves (fun u => Traced plan u ∧ Stalled f.id w.id u)
    (fun _ _ _ hu hcurrent hstep =>
      ⟨traced_step hu.1 hstep, stalled_step hu.1 hu.2 hcurrent hstep⟩) ⟨h, hstalled⟩
  exact hend.waits

/-- **Containment of a failure.** In every run of `Guarded` steps, the commit of a
    pass that fails the run, and that does not take it for a defective one, ends a
    manager task that no worker had started and leaves the other tasks alone. -/
theorem failure_contained {i : Nat}
    (h : (operationSystem OperationsCreated).Reachable Guarded s) (hfails : Fails s i s')
    (hsound : ∀ run tasks, s.race.passes[i]? = some (.read run tasks) → ¬ Spurious tasks) :
    Contained s s' := by
  obtain ⟨plan, htraced, htells⟩ := traced_reachable h
  obtain ⟨hrun, hactive, hfailed⟩ := hfails
  have hstep : operationStep s (.race (.passStep i)) = some s' := hrun
  have hnext : Traced plan s' := traced_step htraced hstep
  -- The pass exists, since it makes a step.
  obtain ⟨p, hpass⟩ : ∃ p, s.race.passes[i]? = some p := by
    obtain ⟨race, hrace, -⟩ := Option.map_eq_some_iff.mp hstep
    obtain ⟨p, hp, -⟩ := Option.bind_eq_some_iff.mp hrace
    exact ⟨p, hp⟩
  rcases marks_failed hpass hstep hactive hfailed with
    ⟨run, tasks, rfl, hspurious⟩ | ⟨root, error, loaded, rows, hcommits, hdb, hfound, hrows⟩
  · exact absurd hspurious (hsound run tasks hpass)
  · have hleft : ManagerLeft s' := by
      -- The pass has read the manager task, so there is one.
      obtain ⟨d, hd, hspec⟩ := htraced.held root (hcommits.held (rootOf_mem hfound).1)
      obtain ⟨d', hd', hspec', -⟩ := row_after htraced.toDrawn hstep hd
      have hid : d'.id = 0 := by
        rw [← htraced.root_id hcommits hfound]
        exact congrArg TaskSpec.id (hspec'.trans hspec.symm)
      exact ⟨d', hd', hid, failing_root htraced htells hcommits hdb hfound hrows hd' hid⟩
    refine ⟨?_, ?_, ?_, ?_⟩
    · intro u hpath r hr hparent
      obtain ⟨hu, hleft'⟩ := traced_path hnext hleft managerLeft_step hpath
      exact hu.manager_ended hleft' hr hparent
    · intro r hr hparent hattempt u hpath
      have hid : r.id = 0 := ((hnext.rows r hr).parent_iff hnext.draft).mp hparent
      have hnever : NeverStarted s' := by
        obtain ⟨d, hd, hd0, hstatus⟩ := hleft
        rw [hnext.eq_of_id hd hr (hd0.trans hid.symm)] at hstatus
        exact ⟨r, hr, hid, hstatus, hattempt⟩
      obtain ⟨hu, r', hr', hid', hstatus', hattempt'⟩ :=
        traced_path hnext hnever neverStarted_step hpath
      exact ⟨r', hr', hid'.trans hid.symm, hattempt',
        hu.not_started hr' hstatus' hattempt'⟩
    · intro t ht hchild
      exact failing_others htraced hstep hcommits hdb hfound hrows ht
        ((htraced.rows t ht).nonzero htraced.draft.shape hchild)
    · intro f hf hfchild hffailed w hw hwchild hwait u hpath
      exact waiting_contained hnext hf hfchild hffailed hw hwchild hwait hpath

end Containment

/-! ### A sibling -/

def trioOperations : OperationState :=
  operating (created (submitTeamRun trioTeam oneAttempt) oneAttempt)

theorem trioOperations_created : OperationsCreated trioOperations :=
  ⟨_, Or.inl ⟨trioTeam, oneAttempt, rfl⟩, rfl⟩

/-- The run of a trio is submitted, its first member fails, and a pass reads that. -/
def trioFails : List OperationAction :=
  [.race .submit, .race .submit, .race .submit, .race .submit, .race (.start 1 "w" true),
    .race (.finish 1 "w" (.failed "no answer")), .race .beginPass, .race (.passStep 0)]

theorem failure_contained_trio :
    ∃ s s', (operationSystem OperationsCreated).exec trioOperations trioFails = some s ∧
      Fails s 0 s' ∧ Contained s s' := by
  have hallowed : (operationSystem OperationsCreated).Allowed Guarded trioOperations trioFails := by
    -- The members wait for nothing, but the manager task waits for them.
    iterate 3
      refine System.allowed_cons (fun sub hsub hdone => ?_) rfl ?_
      · cases hsub
        cases hdone
    refine System.allowed_cons (fun sub hsub _ hpending => ?_) rfl ?_
    · cases hsub
      cases hpending
    iterate 3 refine System.allowed_cons trivial rfl ?_
    refine System.allowed_cons (fun run tasks hpass => ?_) rfl trivial
    cases hpass
  have hrun : ∃ s s' run tasks root, (operationSystem OperationsCreated).exec trioOperations
        trioFails = some s ∧ Fails s 0 s' ∧ s.race.passes[0]? = some (.read run tasks) ∧
      rootOf tasks = some root ∧ ∀ t ∈ tasks, t.dependsOn = [] :=
    ⟨_, _, _, _, _, rfl, ⟨rfl, by decide, rfl⟩, rfl, rfl, by decide⟩
  obtain ⟨s, s', run, tasks, root, hexec, hfails, hpass, hroot, hfree⟩ := hrun
  refine ⟨s, s', hexec, hfails, failure_contained
    ⟨trioOperations, trioOperations_created, System.path_of_allowed _ hallowed hexec⟩ hfails ?_⟩
  intro run' tasks' hpass' hspurious
  rw [hpass] at hpass'
  cases hpass'
  -- No task of a team depends on another.
  unfold Spurious at hspurious
  rw [hroot] at hspurious
  obtain ⟨t, ht, hmisses⟩ := hspurious
  have hnone := hfree t (List.mem_filter.mp ht).1
  unfold MissesDependency at hmisses
  rw [hnone] at hmisses
  simp at hmisses

/-- The sibling of a failed task is in the queue when the run fails, and a worker
    may start it afterwards. -/
theorem sibling_started :
    (¬ ∀ s i s', (operationSystem OperationsCreated).Reachable System.anyStep s → Fails s i s' →
        ∀ u, (operationSystem OperationsCreated).Path System.anyStep s' u →
          ∀ t ∈ u.race.db.tasks,
            t.status.terminal = true ∨ (t.status = .running ∧ 0 < t.attempt)) ∧
      ¬ ∀ s i s', (operationSystem OperationsCreated).Reachable System.anyStep s → Fails s i s' →
        ∀ u, (operationSystem OperationsCreated).Path System.anyStep s' u →
          ∀ t ∈ u.race.db.tasks, ∀ workerId agentActive t',
            startTask workerId agentActive t ≠ .started t' := by
  have hrun : ∃ s s' t t', (operationSystem OperationsCreated).exec trioOperations trioFails =
      some s ∧ Fails s 0 s' ∧ s'.race.db.task? 2 = some t ∧ t.status = .pending ∧
      startTask "w" true t = .started t' :=
    ⟨_, _, _, _, rfl, ⟨rfl, by decide, rfl⟩, rfl, rfl, rfl⟩
  obtain ⟨s, s', t, t', hexec, hfails, ht, hpending, hstart⟩ := hrun
  have hreach : (operationSystem OperationsCreated).Reachable System.anyStep s :=
    ⟨trioOperations, trioOperations_created, System.path_of_exec _ hexec⟩
  have hmem := (task?_eq_some ht).1
  refine ⟨?_, ?_⟩
  · intro hclaim
    rcases hclaim s 0 s' hreach hfails s' .refl t hmem with hended | ⟨hrunning, -⟩
    · rw [hpending] at hended
      cases hended
    · rw [hpending] at hrunning
      cases hrunning
  · intro hclaim
    exact hclaim s 0 s' hreach hfails s' .refl t hmem "w" true t' hstart

end Orchestration
end HermesPlatform
