/-
  HermesPlatform.Orchestration.RunEnd

  What may still happen to a run that has ended.

  No process looks at the status of the run in the transaction that writes it,
  so a pass or a submission that is under way when a run is cancelled brings it
  back.  `Compatible` lists, branch by branch, the steps on an ended run that
  agree with its end; along runs of such steps an ended run stays as it ended,
  and what was cancelled then is never queued again.
-/

import HermesPlatform.Orchestration.Interleaving
import HermesPlatform.Orchestration.Progress

namespace HermesPlatform
namespace Orchestration

open Python Transition

/-! ## Steps that agree with the end of a run -/

/-- The run is failed for the process or in the database. -/
def KnownFailed (db : RunRows) (run : WorkflowRun) : Prop :=
  run.status = .failed ∨ db.run.status = .failed

/-- A child that waits for a key no child has. -/
def MissesDependency (children : List AgentTask) (t : AgentTask) : Prop :=
  t.status = .waitingChild ∧ ∃ key ∈ t.dependsOn, (byKey children).get? key = none

/-- The commit of a first phase: it fails a failed run only, and what it read as
    waiting has not ended since. -/
def FirstAgrees (db : RunRows) (run : WorkflowRun) (tasks : List AgentTask) : Prop :=
  match rootOf tasks with
  | none => KnownFailed db run
  | some root =>
      ((∃ t ∈ childrenOf root tasks, t.status = .failed) → KnownFailed db run) ∧
      ((∀ t ∈ childrenOf root tasks, t.status ≠ .failed) →
        ((∃ t ∈ childrenOf root tasks, MissesDependency (childrenOf root tasks) t) →
          KnownFailed db run) ∧
        ∀ t ∈ childrenOf root tasks, t.status = .waitingChild →
          ∀ d ∈ db.tasks, d.id = t.id → d.status.terminal = false)

/-- The commit of a second phase: the status it comes to is the one the pass read
    or the one the run has. -/
def SecondAgrees (db : RunRows) (run : WorkflowRun) (tasks : List AgentTask) : Prop :=
  match rootOf tasks with
  | none => True
  | some root =>
      let children := childrenOf root tasks
      if children.any fun t => t.status = .humanReview then run.status = .humanReview
      else if (children ≠ [] ∧ children.all fun t => t.status = .succeeded) ∧
          root.status = .waitingChild then
        run.status = .running ∧ ∀ d ∈ db.tasks, d.id = root.id → d.status.terminal = false
      else if root.status = .succeeded then
        run.status = .succeeded ∨ db.run.status = .succeeded
      else if root.status = .failed then KnownFailed db run
      else run.status = .running

/-- A step on a run that has ended agrees with its end. -/
def AgreesWithEnd (s : RaceState) : RaceAction → Prop
  -- The final update of a submission makes the run active.
  | .submit => ∀ sub, s.submission = some sub → sub.remaining ≠ []
  | .passStep i => ∀ p, s.passes[i]? = some p →
      match p with
      | .read run tasks => FirstAgrees s.db run tasks
      | .readAgain run tasks => SecondAgrees s.db run tasks
      | _ => True
  -- A cancellation is refused, or repeats the one that ended the run.
  | .cancelStep i => ∀ c, s.cancellations[i]? = some c →
      match c with
      | .read _ tasks => (∃ t ∈ tasks, t.status = .running) ∨ s.db.run.status = .cancelled
      | .begun _ => True
  -- A worker that fails does not retry a task that has ended meanwhile.
  | .finish id _ outcome => ∀ t ∈ s.db.tasks, t.id = id → t.status = .succeeded ∨ t.status = .failed →
      ∀ message, outcome = .failed message → t.maxAttempts ≤ t.attempt
  | _ => True

def Compatible (s : RaceState) (a : RaceAction) : Prop :=
  s.db.run.status.terminal = true → AgreesWithEnd s a

/-! ## Commits -/

/-- A commit leaves every row its spec; a status it writes is one the process
    changed. -/
theorem commit_task {R : AgentTask → AgentTask → Prop} {loaded rows db : RunRows}
    (h : Evolves R loaded.tasks rows.tasks) {d' : AgentTask}
    (hd' : d' ∈ (commit loaded rows db).tasks) :
    ∃ d ∈ db.tasks, d'.toTaskSpec = d.toTaskSpec ∧
      (d'.status = d.status ∨
        ∃ l c, R l c ∧ l.id = d.id ∧ c.status ≠ l.status ∧ d'.status = c.status) := by
  obtain ⟨d, hd, ⟨rfl, -⟩ | ⟨l, -, c, -, hR, hid, rfl⟩⟩ := commit_rows h hd'
  · exact ⟨d', hd, rfl, Or.inl rfl⟩
  · refine ⟨d, hd, rfl, ?_⟩
    rcases commitColumn_cases l.status c.status d.status with hsame | ⟨hne, hnew⟩
    · exact Or.inl hsame
    · exact Or.inr ⟨l, c, hR, hid, hne, hnew⟩

theorem commit_run (loaded rows db : RunRows)
    (h : rows.run.status = loaded.run.status ∨ rows.run.status = db.run.status) :
    (commit loaded rows db).run.status = db.run.status := by
  show commitColumn loaded.run.status rows.run.status db.run.status = db.run.status
  -- A changed status was assigned the value the row has.
  rcases commitColumn_cases loaded.run.status rows.run.status db.run.status with hsame | ⟨hne, hnew⟩
  · exact hsame
  · rw [hnew]
    exact h.resolve_left hne

/-! ## What the phases write -/

/-- What a phase can do to an object: nothing, end it, or move a task that is in
    `from_`. -/
def Moved (from_ : List AgentTask) (l c : AgentTask) : Prop :=
  c.toTaskSpec = l.toTaskSpec ∧
    (c.status = l.status ∨ c.status.terminal = true ∨ ∃ t ∈ from_, t.id = l.id)

theorem Moved.refl (from_ : List AgentTask) (t : AgentTask) : Moved from_ t t :=
  ⟨rfl, Or.inl rfl⟩

theorem evolves_moved_refl (from_ tasks : List AgentTask) : Evolves (Moved from_) tasks tasks :=
  List.forall₂_same.mpr fun t _ => Moved.refl from_ t

/-- An update after which the objects still have moved in a permitted way. -/
theorem evolves_moved_update {from_ tasks tasks' : List AgentTask} {id : Nat}
    {f : AgentTask → AgentTask} (h : Evolves (Moved from_) tasks tasks')
    (hspec : ∀ t, (f t).toTaskSpec = t.toTaskSpec)
    (hf : (∃ t ∈ from_, t.id = id) ∨
      ∀ t, (f t).status = t.status ∨ (f t).status.terminal = true) :
    Evolves (Moved from_) tasks (updateTask id f tasks') := by
  refine evolves_update h fun l b ⟨hlb, hmoved⟩ hid => ⟨(hspec b).trans hlb, ?_⟩
  have hbl : b.id = l.id := congrArg TaskSpec.id hlb
  rcases hf with ⟨t, ht, htid⟩ | hf
  · exact Or.inr (Or.inr ⟨t, ht, htid.trans (hid.symm.trans hbl)⟩)
  · rcases hf b with hsame | hended
    · rw [hsame]
      exact hmoved
    · exact Or.inr (Or.inl hended)

theorem failRoot_status (error : String) (t : AgentTask) :
    (failRoot error t).status = t.status ∨ (failRoot error t).status.terminal = true := by
  unfold failRoot
  split
  · exact Or.inr rfl
  · exact Or.inl rfl

/-- The waiting children among the objects. -/
def waiting (tasks : List AgentTask) : List AgentTask :=
  tasks.filter fun t => t.status = .waitingChild

theorem get?_byKey_none {cs : List AgentTask} {key : String} :
    (byKey cs).get? key = none ↔ key ∉ (specs cs).filterMap fun t => truthy t.nodeKey := by
  -- The keys of the dictionary are a matter of the specs.
  have hpairs : (cs.filterMap fun t => (truthy t.nodeKey).map fun key => (key, t)).map Prod.fst =
      (specs cs).filterMap fun t => truthy t.nodeKey := by
    rw [specs, List.filterMap_map, List.map_filterMap]
    apply List.filterMap_congr
    intro t _
    simp only [Option.map_map, Function.comp_def, Option.map_id']
  rw [← hpairs]
  refine ⟨?_, ?_⟩
  · intro hnone hmem
    obtain ⟨v, hv⟩ := Dict.exists_get?_ofPairs hmem
    rw [byKey, hv] at hnone
    cases hnone
  · intro hmem
    cases hget : (byKey cs).get? key with
    | none => rfl
    | some v =>
        have hv := Dict.mem_of_mem_ofPairs (Dict.mem_of_get? hget)
        exact absurd (List.mem_map.mpr ⟨_, hv, rfl⟩) hmem

theorem specs_childrenOf (root : AgentTask) (tasks : List AgentTask) :
    specs (childrenOf root tasks) =
      (specs tasks).filter fun t => t.parentTaskId = some root.id := by
  unfold specs childrenOf
  rw [List.filter_map]
  rfl

/-- A turn of the loop of the first phase, whatever the objects are: it keeps the
    specs and moves waiting tasks only, and raises only for a key no child has. -/
theorem scanChild_moved {root : AgentTask} {tasks : List AgentTask} {acc : Promotion}
    {t : AgentTask} (ht : t ∈ childrenOf root tasks)
    (h : Evolves (Moved (waiting (childrenOf root tasks))) tasks acc.tasks) :
    (∃ acc', scanChild root acc t = .ok acc' ∧
      Evolves (Moved (waiting (childrenOf root tasks))) tasks acc'.tasks) ∨
    (∃ error, scanChild root acc t = .error (error, acc.tasks) ∧
      MissesDependency (childrenOf root tasks) t) := by
  unfold scanChild
  split
  · exact Or.inl ⟨acc, rfl, h⟩
  rename_i hwait
  have hwait := not_not.mp hwait
  have hfrom : ∃ u ∈ waiting (childrenOf root tasks), u.id = t.id :=
    ⟨t, List.mem_filter.mpr ⟨ht, by simpa using hwait⟩, rfl⟩
  simp only
  split
  · rename_i hmissing
    obtain ⟨found, hfound, hnone⟩ := List.any_eq_true.mp hmissing
    obtain ⟨key, hkey, rfl⟩ := List.mem_map.mp hfound
    refine Or.inr ⟨_, rfl, hwait, key, hkey, ?_⟩
    -- The loop keeps the keys, so the key was missing from the start.
    have hspecs : specs (childrenOf root acc.tasks) = specs (childrenOf root tasks) := by
      rw [specs_childrenOf, specs_childrenOf, specs_of_evolves (fun _ _ hR => hR.1) h]
    have hnone := get?_byKey_none.mp (Option.isNone_iff_eq_none.mp hnone)
    rw [hspecs] at hnone
    exact get?_byKey_none.mpr hnone
  · left
    split
    · exact ⟨_, rfl, evolves_moved_update h (fun _ => rfl) (Or.inl hfrom)⟩
    · split
      · exact ⟨_, rfl, evolves_moved_update h (fun _ => rfl) (Or.inl hfrom)⟩
      · exact ⟨acc, rfl, h⟩

/-- The loop over the children. -/
theorem scanChildren_moved {root : AgentTask} {tasks : List AgentTask} (children : List AgentTask)
    (acc : Promotion) (hsub : children ⊆ childrenOf root tasks)
    (h : Evolves (Moved (waiting (childrenOf root tasks))) tasks acc.tasks) :
    match foldEach (scanChild root) acc children with
    | .ok acc' => Evolves (Moved (waiting (childrenOf root tasks))) tasks acc'.tasks
    | .error (_, tasks') => Evolves (Moved (waiting (childrenOf root tasks))) tasks tasks' ∧
        ∃ t ∈ childrenOf root tasks, MissesDependency (childrenOf root tasks) t := by
  -- Induction on the children still to come.
  induction children generalizing acc with
  | nil => exact h
  | cons t rest ih =>
      obtain ⟨ht, hrest⟩ := List.cons_subset.mp hsub
      rcases scanChild_moved ht h with ⟨acc', hok, hacc'⟩ | ⟨error, herror, hmissing⟩
      · simp only [foldEach, hok]
        exact ih acc' hrest hacc'
      · simp only [foldEach, herror]
        exact ⟨h, t, ht, hmissing⟩

/-! ## Commits that agree with the end -/

/-- What a process commits agrees with the rows `db` of an ended run: the status
    of the run is the one it read or the one in `db`, and a task it moves has not
    ended in `db`. -/
structure Agrees (db loaded rows : RunRows) : Prop where
  run : rows.run.status = loaded.run.status ∨ rows.run.status = db.run.status
  tasks : ∃ from_, Evolves (Moved from_) loaded.tasks rows.tasks ∧
    ∀ t ∈ from_, ∀ d ∈ db.tasks, d.id = t.id → d.status.terminal = false

/-- Ended tasks stay ended: `tasks'` has the rows of `tasks`. -/
def KeepsEnded (tasks tasks' : List AgentTask) : Prop :=
  ∀ d' ∈ tasks', ∃ d ∈ tasks, d'.id = d.id ∧ (d.status.terminal = true → d'.status.terminal = true)

theorem KeepsEnded.refl (tasks : List AgentTask) : KeepsEnded tasks tasks :=
  fun d hd => ⟨d, hd, rfl, id⟩

theorem Agrees.commit {db loaded rows : RunRows} (h : Agrees db loaded rows) :
    (commit loaded rows db).run.status = db.run.status ∧
      KeepsEnded db.tasks (commit loaded rows db).tasks := by
  refine ⟨commit_run loaded rows db h.run, ?_⟩
  obtain ⟨from_, hmoved, hfrom⟩ := h.tasks
  intro d' hd'
  obtain ⟨d, hd, hspec, hcase⟩ := commit_task hmoved hd'
  refine ⟨d, hd, congrArg TaskSpec.id hspec, ?_⟩
  intro hended
  rcases hcase with hsame | ⟨l, c, ⟨-, hlc⟩, hid, hne, hnew⟩
  · rw [hsame]
    exact hended
  · -- The status changed: to an end, or on a task that has not ended in the row.
    rcases hlc with hsame | hterminal | ⟨t, ht, htid⟩
    · exact absurd hsame hne
    · rw [hnew]
      exact hterminal
    · have hopen := hfrom t ht d hd (by rw [htid, hid])
      rw [hended] at hopen
      cases hopen

theorem KnownFailed.run {db loaded rows : RunRows} (h : KnownFailed db loaded.run)
    (hrows : rows.run.status = .failed) :
    rows.run.status = loaded.run.status ∨ rows.run.status = db.run.status :=
  h.imp (fun hl => hrows.trans hl.symm) fun hd => hrows.trans hd.symm

/-- The rows at the end of a first phase. -/
def FirstPhase.rows : FirstPhase → RunRows
  | .finished rows => rows
  | .promoted rows _ => rows

/-- `_fail_run` by a process that knows of the failure. -/
theorem agrees_failRun {db loaded : RunRows} {root : AgentTask} {tasks : List AgentTask}
    {from_ : List AgentTask} (error : String) (hknown : KnownFailed db loaded.run)
    (hmoved : Evolves (Moved from_) loaded.tasks tasks)
    (hfrom : ∀ t ∈ from_, ∀ d ∈ db.tasks, d.id = t.id → d.status.terminal = false) :
    Agrees db loaded (failRun { loaded with tasks := tasks } root error) := by
  refine ⟨hknown.run rfl, from_, ?_, hfrom⟩
  exact evolves_moved_update hmoved (failRoot_spec error) (Or.inr (failRoot_status error))

theorem firstPhase_agrees {db loaded : RunRows} (h : FirstAgrees db loaded.run loaded.tasks) :
    Agrees db loaded (firstPhase loaded).rows := by
  have hnone : ∀ t ∈ ([] : List AgentTask), ∀ d ∈ db.tasks, d.id = t.id →
      d.status.terminal = false := by simp
  unfold FirstAgrees at h
  unfold firstPhase
  cases hroot : rootOf loaded.tasks with
  | none =>
      simp only [hroot] at h ⊢
      exact ⟨h.run rfl, [], evolves_moved_refl _ _, hnone⟩
  | some root =>
      simp only [hroot] at h ⊢
      obtain ⟨hfailed, hhealthy⟩ := h
      split
      · rename_i t hfind
        have hstatus := List.find?_some hfind
        have hknown := hfailed ⟨t, List.mem_of_find?_eq_some hfind, by simpa using hstatus⟩
        exact agrees_failRun _ hknown (evolves_moved_refl _ _) hnone
      · rename_i hfind
        obtain ⟨hmissing, hstale⟩ := hhealthy (by simpa using List.find?_eq_none.mp hfind)
        have hfrom : ∀ t ∈ waiting (childrenOf root loaded.tasks), ∀ d ∈ db.tasks, d.id = t.id →
            d.status.terminal = false := by
          intro t ht
          obtain ⟨ht, hwait⟩ := List.mem_filter.mp ht
          exact hstale t ht (by simpa using hwait)
        have hloop := scanChildren_moved (childrenOf root loaded.tasks) ⟨loaded.tasks, []⟩
          (List.Subset.refl _) (evolves_moved_refl _ _)
        cases hend : foldEach (scanChild root) ⟨loaded.tasks, []⟩ (childrenOf root loaded.tasks) with
        | error e =>
            obtain ⟨error, tasks⟩ := e
            rw [hend] at hloop
            -- The loop has raised: a dependency is missing.
            exact agrees_failRun _ (hmissing hloop.2) hloop.1 hfrom
        | ok promotion =>
            rw [hend] at hloop
            exact ⟨Or.inl rfl, _, hloop, hfrom⟩

theorem secondPhase_agrees {db loaded : RunRows} (h : SecondAgrees db loaded.run loaded.tasks) :
    Agrees db loaded (secondPhase loaded).1 := by
  have hnone : ∀ t ∈ ([] : List AgentTask), ∀ d ∈ db.tasks, d.id = t.id →
      d.status.terminal = false := by simp
  unfold SecondAgrees at h
  unfold secondPhase
  cases hroot : rootOf loaded.tasks with
  | none => exact ⟨Or.inl rfl, [], evolves_moved_refl _ _, hnone⟩
  | some root =>
      simp only [hroot] at h ⊢
      split
      · -- The branches are those of `SecondAgrees`, one after the other.
        rename_i hreview
        rw [if_pos hreview] at h
        exact ⟨Or.inl h.symm, [], evolves_moved_refl _ _, hnone⟩
      rename_i hreview
      rw [if_neg hreview] at h
      split
      · rename_i hall
        rw [if_pos hall] at h
        refine ⟨Or.inl h.1.symm, [root], ?_, by simpa using h.2⟩
        exact evolves_moved_update (evolves_moved_refl _ _) (fun _ => rfl)
          (Or.inl ⟨root, List.mem_singleton_self root, rfl⟩)
      rename_i hall
      rw [if_neg hall] at h
      split
      · rename_i hsucceeded
        rw [if_pos hsucceeded] at h
        refine ⟨h.imp Eq.symm Eq.symm, [], evolves_moved_refl _ _, hnone⟩
      rename_i hsucceeded
      rw [if_neg hsucceeded] at h
      split
      · rename_i hfailed
        rw [if_pos hfailed] at h
        refine ⟨h.run rfl, [], ?_, hnone⟩
        exact evolves_moved_update (evolves_moved_refl _ _) (failRoot_spec _)
          (Or.inr (failRoot_status _))
      · rename_i hfailed
        rw [if_neg hfailed] at h
        exact ⟨Or.inl h.symm, [], evolves_moved_refl _ _, hnone⟩

theorem cancelWorkflowRun_agrees {db loaded rows : RunRows}
    (hcancel : cancelWorkflowRun loaded = .ok rows) (hdb : db.run.status = .cancelled) :
    Agrees db loaded rows := by
  obtain ⟨-, -, hrun, htasks⟩ := cancelWorkflowRun_ok hcancel
  refine ⟨Or.inr (hrun.trans hdb.symm), [], ?_, by simp⟩
  rw [htasks]
  apply evolves_map
  intro t _
  split
  · exact ⟨rfl, Or.inr (Or.inl rfl)⟩
  · exact Moved.refl _ t

/-! ## One step -/

/-- The ids of the tasks a submission is still going to create. -/
def RaceState.upcoming (s : RaceState) : List Nat :=
  match s.submission with
  | some sub => sub.remaining.map fun t => t.id
  | none => []

def taskIds (rows : RunRows) : List Nat := rows.tasks.map fun t => t.id

/-- The tasks of a run have distinct ids. -/
def DistinctIds (s : RaceState) : Prop := (taskIds s.db ++ s.upcoming).Nodup

/-- What a step does to the rows and to the tasks to come. -/
inductive RaceSpec (s s' : RaceState) : RaceAction → Prop where
  | quiet {a : RaceAction} (db : s'.db = s.db) (upcoming : s'.upcoming <:+ s.upcoming) :
      RaceSpec s s' a
  | created (t : AgentTask) (run : s'.db.run = s.db.run) (tasks : s'.db.tasks = s.db.tasks ++ [t])
      (upcoming : s.upcoming = t.id :: s'.upcoming) : RaceSpec s s' .submit
  | submitted (sub : Submission) (current : s.submission = some sub) (last : sub.remaining = [])
      (db : s'.db = sub.finish s.db) (upcoming : s'.upcoming = []) : RaceSpec s s' .submit
  | pass (i : Nat) (p : Pass) (current : s.passes[i]? = some p) (db : s'.db = (p.step s.db).1)
      (upcoming : s'.upcoming = s.upcoming) : RaceSpec s s' (.passStep i)
  | cancellation (i : Nat) (c : Cancellation) (current : s.cancellations[i]? = some c)
      (db : s'.db = (c.step s.db).1) (upcoming : s'.upcoming = s.upcoming) :
      RaceSpec s s' (.cancelStep i)
  /-- An open task changes. -/
  | row {a : RaceAction} (t t' : AgentTask) (mem : t ∈ s.db.tasks) (spec : t'.toTaskSpec = t.toTaskSpec)
      (open_ : t.status.terminal = false) (db : s'.db = s.db.setTask t')
      (upcoming : s'.upcoming = s.upcoming) : RaceSpec s s' a
  | finish (id : Nat) (workerId : String) (outcome : Outcome) (t : AgentTask) (mem : t ∈ s.db.tasks)
      (self : t.id = id) (db : s'.db = s.db.setTask (finishTask workerId outcome t))
      (upcoming : s'.upcoming = s.upcoming) : RaceSpec s s' (.finish id workerId outcome)

theorem queued_open {t : AgentTask} (h : t.status = .pending ∨ t.status = .retrying) :
    t.status.terminal = false := by
  rcases h with hs | hs <;> rw [hs] <;> rfl

theorem raceStep_spec {s s' : RaceState} {a : RaceAction} (h : raceStep s a = some s') :
    RaceSpec s s' a := by
  cases race_carries h with
  | @create sub t rest hsub hremaining =>
      refine .created t rfl rfl ?_
      simp [RaceState.upcoming, hsub, hremaining]
  | submitted hsub hremaining =>
      -- No task is left: the final update of the submission.
      exact .submitted _ hsub hremaining rfl rfl
  | abandonSubmission => exact .quiet rfl List.nil_suffix
  | beginPass => exact .quiet rfl (List.suffix_refl _)
  | beginReviewPass _ => exact .quiet rfl (List.suffix_refl _)
  | passStep hpass => exact .pass _ _ hpass rfl rfl
  | abandonPass => exact .quiet rfl (List.suffix_refl _)
  | beginCancellation => exact .quiet rfl (List.suffix_refl _)
  | cancelStep hcancellation => exact .cancellation _ _ hcancellation rfl rfl
  | abandonCancellation => exact .quiet rfl (List.suffix_refl _)
  | reviewed hmem hreview =>
      obtain ⟨hwait, hspec, -⟩ := reviewTask_ok hreview
      exact .row _ _ hmem hspec (by rw [hwait]; rfl) rfl rfl
  | abandonReview => exact .quiet rfl (List.suffix_refl _)
  | refused hmem hstart =>
      obtain ⟨hqueued, hspec, -⟩ := startTask_spec.1 hstart
      exact .row _ _ hmem hspec (queued_open hqueued) rfl rfl
  | started hmem hstart =>
      obtain ⟨hqueued, hspec, -⟩ := startTask_spec.2 hstart
      exact .row _ _ hmem hspec (queued_open hqueued) rfl rfl
  | finished hmem _ =>
      -- The row may have ended by now; what follows depends on the outcome.
      exact .finish _ _ _ _ hmem rfl rfl rfl

/-! ## The ids -/

theorem taskIds_setTask (rows : RunRows) (t : AgentTask) :
    taskIds (rows.setTask t) = taskIds rows := by
  unfold taskIds RunRows.setTask updateTask
  rw [List.map_map]
  apply List.map_congr_left
  intro u _
  simp only [Function.comp_apply]
  split
  · rename_i hid
    exact hid.symm
  · rfl

theorem taskIds_passStep (p : Pass) (db : RunRows) : taskIds (p.step db).1 = taskIds db := by
  cases p with
  | begun run tasks => rfl
  | read run tasks =>
      simp only [Pass.step]
      split
      · exact commit_ids _ _ _
      · exact commit_ids _ _ _
  | committed run tasks => rfl
  | refreshed run tasks => rfl
  | readAgain run tasks => exact commit_ids _ _ _

theorem taskIds_cancelStep (c : Cancellation) (db : RunRows) :
    taskIds (c.step db).1 = taskIds db := by
  cases c with
  | begun run => rfl
  | read run tasks =>
      simp only [Cancellation.step]
      split
      · rfl
      · exact commit_ids _ _ _

theorem taskIds_finish (sub : Submission) (db : RunRows) :
    taskIds (sub.finish db) = taskIds db := by
  unfold Submission.finish taskIds
  split
  · unfold updateTask
    rw [List.map_map]
    apply List.map_congr_left
    intro u _
    simp only [Function.comp_apply]
    split <;> rfl
  · rfl

/-- A step keeps the ids distinct and drops no task. -/
theorem distinctIds_step {s s' : RaceState} {a : RaceAction} (h : DistinctIds s)
    (hstep : raceStep s a = some s') : DistinctIds s' ∧ taskIds s.db ⊆ taskIds s'.db := by
  unfold DistinctIds at h ⊢
  -- All steps but the creation of a task keep the ids of the rows.
  have hsame : taskIds s'.db = taskIds s.db → s'.upcoming <:+ s.upcoming →
      (taskIds s'.db ++ s'.upcoming).Nodup ∧ taskIds s.db ⊆ taskIds s'.db := by
    intro hids hsuffix
    rw [hids]
    refine ⟨?_, List.Subset.refl _⟩
    exact h.sublist ((List.Sublist.refl _).append hsuffix.sublist)
  cases raceStep_spec hstep with
  | quiet db upcoming => exact hsame (by rw [db]) upcoming
  | created t run tasks upcoming =>
      -- The new task leaves the list of those to come.
      have hids : taskIds s'.db = taskIds s.db ++ [t.id] := by
        rw [taskIds, tasks, List.map_append]
        rfl
      rw [hids, List.append_assoc]
      rw [upcoming] at h
      exact ⟨h, List.subset_append_left _ _⟩
  | submitted sub current last db upcoming =>
      exact hsame (by rw [db, taskIds_finish]) (by simp only [upcoming, List.nil_suffix])
  | pass i p current db upcoming =>
      exact hsame (by rw [db, taskIds_passStep]) (by simp only [upcoming, List.suffix_refl])
  | cancellation i c current db upcoming =>
      exact hsame (by rw [db, taskIds_cancelStep]) (by simp only [upcoming, List.suffix_refl])
  | row t t' mem spec open_ db upcoming =>
      exact hsame (by rw [db, taskIds_setTask]) (by simp only [upcoming, List.suffix_refl])
  | finish id workerId outcome t mem self db upcoming =>
      exact hsame (by rw [db, taskIds_setTask]) (by simp only [upcoming, List.suffix_refl])

/-- The ids of a run's tasks are distinct. -/
theorem RunShape.nodup {deps : String → List String} {tasks : List AgentTask}
    (h : RunShape deps tasks) : (tasks.map fun t => t.id).Nodup := by
  obtain ⟨r, cs, hsplit⟩ := h.split
  rw [hsplit.eq, List.map_cons, List.nodup_cons]
  refine ⟨?_, ?_⟩
  · intro hmem
    obtain ⟨t, ht, hid⟩ := List.mem_map.mp hmem
    have hne := hsplit.specs.child_nonzero ht
    rw [hid, hsplit.id] at hne
    exact hne rfl
  · have hids := hsplit.specs.ids
    rwa [specs, List.map_map] at hids

theorem distinctIds_created {deps : String → List String} {plan : SubmissionPlan}
    {payload : RunRequest} (h : RunShape deps (plan.submitted payload).tasks) :
    DistinctIds (created plan payload) := by
  have hnodup := h.nodup
  have hroot : plan.finalRoot.id = plan.root.id := by
    unfold SubmissionPlan.finalRoot
    split <;> rfl
  rw [SubmissionPlan.submitted, List.map_cons, hroot] at hnodup
  exact hnodup

theorem distinctIds_reachable {good : RaceState → RaceAction → Prop} {s : RaceState}
    (h : raceSystem.Reachable good s) : DistinctIds s := by
  refine h.invariant DistinctIds ?_ fun _ _ _ hids _ hstep => (distinctIds_step hids hstep).1
  rintro s (⟨team, payload, rfl⟩ | ⟨nodes, team, payload, plan, hdag, hplan, rfl⟩)
  · exact distinctIds_created (shape_teamRun team payload)
  · exact distinctIds_created (shape_workflowRun hdag hplan)

/-! ## The end of a run is kept -/

theorem passStep_kept {s : RaceState} {i : Nat} {p : Pass} (hp : s.passes[i]? = some p)
    (h : AgreesWithEnd s (.passStep i)) :
    (p.step s.db).1.run.status = s.db.run.status ∧ KeepsEnded s.db.tasks (p.step s.db).1.tasks := by
  have hagrees := h p hp
  cases p with
  | begun run tasks => exact ⟨rfl, KeepsEnded.refl _⟩
  | committed run tasks => exact ⟨rfl, KeepsEnded.refl _⟩
  | refreshed run tasks => exact ⟨rfl, KeepsEnded.refl _⟩
  | read run tasks =>
      have hfirst : Agrees s.db ⟨run, tasks⟩ (firstPhase ⟨run, tasks⟩).rows :=
        firstPhase_agrees hagrees
      simp only [Pass.step]
      cases hphase : firstPhase ⟨run, tasks⟩ with
      | finished rows =>
          rw [hphase] at hfirst
          exact hfirst.commit
      | promoted rows changed =>
          rw [hphase] at hfirst
          exact hfirst.commit
  | readAgain run tasks =>
      have hsecond : Agrees s.db ⟨run, tasks⟩ (secondPhase ⟨run, tasks⟩).1 :=
        secondPhase_agrees hagrees
      exact hsecond.commit

theorem cancelStep_kept {s : RaceState} {i : Nat} {c : Cancellation}
    (hc : s.cancellations[i]? = some c) (h : AgreesWithEnd s (.cancelStep i)) :
    (c.step s.db).1.run.status = s.db.run.status ∧ KeepsEnded s.db.tasks (c.step s.db).1.tasks := by
  have hagrees := h c hc
  cases c with
  | begun run => exact ⟨rfl, KeepsEnded.refl _⟩
  | read run tasks =>
      simp only [Cancellation.step]
      split
      · exact ⟨rfl, KeepsEnded.refl _⟩
      · rename_i rows hcancel
        rcases hagrees with ⟨t, ht, hrunning⟩ | hdb
        · -- It is refused when a task it has read is running.
          obtain ⟨-, hnone, -⟩ := cancelWorkflowRun_ok hcancel
          exact absurd hrunning (hnone t ht)
        · exact (cancelWorkflowRun_agrees hcancel hdb).commit

/-- A worker that ends on a task that has ended leaves it ended, unless it fails
    with attempts left. -/
theorem finishTask_ended (workerId : String) {outcome : Outcome} {t : AgentTask}
    (hended : t.status.terminal = true)
    (hspent : t.status = .succeeded ∨ t.status = .failed →
      ∀ message, outcome = .failed message → t.maxAttempts ≤ t.attempt) :
    (finishTask workerId outcome t).status.terminal = true := by
  cases outcome with
  | succeeded output =>
      simp only [finishTask]
      split
      · rw [(finishCancelled_spec t).2]
        rfl
      · rfl
  | failed message =>
      obtain ⟨-, -, hstatus⟩ := finishFailed_spec message t
      show (finishFailed message t).status.terminal = true
      rw [hstatus]
      by_cases hcancelled : t.status = .cancelled
      · rw [if_pos hcancelled]
        rfl
      · -- A cancelled task is read again and kept; a spent one fails.
        have hdone : t.status = .succeeded ∨ t.status = .failed := by
          cases hs : t.status <;> simp_all [TaskStatus.terminal]
        have hmax := hspent hdone message rfl
        rw [if_neg hcancelled, if_neg (by omega)]
        rfl
  | cancelled =>
      show (finishCancelled t).status.terminal = true
      rw [(finishCancelled_spec t).2]
      rfl
  | unavailable message => rfl

theorem keepsEnded_setTask {rows : RunRows} {t t' : AgentTask} (ht : t ∈ rows.tasks)
    (hid : t'.id = t.id) (hended : t.status.terminal = true → t'.status.terminal = true) :
    KeepsEnded rows.tasks (rows.setTask t').tasks := by
  intro d' hd'
  rcases mem_setTask hd' with rfl | ⟨hd', -⟩
  · exact ⟨t, ht, hid, hended⟩
  · exact ⟨d', hd', rfl, id⟩

/-- One compatible step on an ended run. -/
theorem compatible_step {s s' : RaceState} {a : RaceAction} (hids : DistinctIds s)
    (hend : s.db.run.status.terminal = true) (hgood : Compatible s a)
    (hstep : raceStep s a = some s') :
    s'.db.run.status = s.db.run.status ∧
      ∀ d' ∈ s'.db.tasks, d'.id ∈ taskIds s.db →
        ∃ d ∈ s.db.tasks, d'.id = d.id ∧ (d.status.terminal = true → d'.status.terminal = true) := by
  have hagrees := hgood hend
  -- All cases but the creation of a task keep every row.
  have hkept : s'.db.run.status = s.db.run.status ∧ KeepsEnded s.db.tasks s'.db.tasks →
      s'.db.run.status = s.db.run.status ∧
        ∀ d' ∈ s'.db.tasks, d'.id ∈ taskIds s.db →
          ∃ d ∈ s.db.tasks, d'.id = d.id ∧
            (d.status.terminal = true → d'.status.terminal = true) :=
    fun h => ⟨h.1, fun d' hd' _ => h.2 d' hd'⟩
  cases raceStep_spec hstep with
  | quiet db upcoming =>
      apply hkept
      rw [db]
      exact ⟨rfl, KeepsEnded.refl _⟩
  | created t run tasks upcoming =>
      refine ⟨by rw [run], ?_⟩
      intro d' hd' hid
      rw [tasks] at hd'
      rcases List.mem_append.mp hd' with hd' | hd'
      · exact ⟨d', hd', rfl, id⟩
      · -- The new task has an id of its own.
        rw [List.mem_singleton.mp hd'] at hid
        unfold DistinctIds at hids
        rw [upcoming] at hids
        exact absurd List.mem_cons_self ((List.disjoint_of_nodup_append hids) hid)
  | submitted sub current last db upcoming => exact absurd last (hagrees sub current)
  | pass i p current db upcoming =>
      apply hkept
      rw [db]
      exact passStep_kept current hagrees
  | cancellation i c current db upcoming =>
      apply hkept
      rw [db]
      exact cancelStep_kept current hagrees
  | row t t' mem spec open_ db upcoming =>
      apply hkept
      rw [db]
      -- The task was open before.
      refine ⟨rfl, keepsEnded_setTask mem (congrArg TaskSpec.id spec) ?_⟩
      intro hended
      rw [open_] at hended
      cases hended
  | finish id workerId outcome t mem self db upcoming =>
      apply hkept
      rw [db]
      have hspec := (finishTask_spec workerId outcome t).1
      refine ⟨rfl, keepsEnded_setTask mem (congrArg TaskSpec.id hspec) ?_⟩
      intro hended
      exact finishTask_ended workerId hended (hagrees t mem self)

/-- What `t` has kept of the ended run in `s`. -/
structure EndKept (s t : RaceState) : Prop where
  ids : DistinctIds t
  grows : taskIds s.db ⊆ taskIds t.db
  run : t.db.run.status = s.db.run.status
  ended : ∀ d ∈ s.db.tasks, d.status.terminal = true →
    ∀ d' ∈ t.db.tasks, d'.id = d.id → d'.status.terminal = true

theorem EndKept.refl {s : RaceState} (hids : DistinctIds s) : EndKept s s := by
  refine ⟨hids, List.Subset.refl _, rfl, ?_⟩
  intro d hd hended d' hd' hid
  have hnodup : (s.db.tasks.map fun t => t.id).Nodup := hids.of_append_left
  rw [List.inj_on_of_nodup_map hnodup hd' hd hid]
  exact hended

theorem endKept_step {s t u : RaceState} {a : RaceAction} (h : EndKept s t)
    (hend : s.db.run.status.terminal = true) (hgood : Compatible t a)
    (hstep : raceStep t a = some u) : EndKept s u := by
  obtain ⟨hids, hgrows⟩ := distinctIds_step h.ids hstep
  have hend' : t.db.run.status.terminal = true := by
    rw [h.run]
    exact hend
  obtain ⟨hrun, htasks⟩ := compatible_step h.ids hend' hgood hstep
  refine ⟨hids, List.Subset.trans h.grows hgrows, hrun.trans h.run, ?_⟩
  intro d hd hended d' hd' hid
  have hmem : d'.id ∈ taskIds t.db := by
    rw [hid]
    exact h.grows (List.mem_map.mpr ⟨d, hd, rfl⟩)
  -- `d` became `e` in the run so far, and `e` becomes `d'` in this step.
  obtain ⟨e, he, heid, hkeep⟩ := htasks d' hd' hmem
  exact hkeep (h.ended d hd hended e he (heid.symm.trans hid))

/-- **The end of a run.** Along compatible steps the status of a run that has
    ended never changes, and no task that is cancelled by then is queued, runs or
    waits for an approval later. -/
theorem ended_run_stays {s t : RaceState} (h : raceSystem.Reachable Compatible s)
    (hend : s.db.run.status.terminal = true) (hpath : raceSystem.Path Compatible s t) :
    t.db.run.status = s.db.run.status ∧
      ∀ d ∈ s.db.tasks, d.status = .cancelled → ∀ d' ∈ t.db.tasks, d'.id = d.id →
        d'.status ≠ .pending ∧ d'.status ≠ .running ∧ d'.status ≠ .humanReview := by
  have hkept := hpath.preserves (EndKept s)
    (fun _ _ _ hk hgood hstep => endKept_step hk hend hgood hstep)
    (EndKept.refl (distinctIds_reachable h))
  refine ⟨hkept.run, ?_⟩
  intro d hd hcancelled d' hd' hid
  have hended := hkept.ended d hd (by rw [hcancelled]; rfl) d' hd' hid
  refine ⟨?_, ?_, ?_⟩ <;> intro hs <;> rw [hs] at hended <;> cases hended

/-- A draft and an approval that does not wait for it. -/
def parallelNodes : List WorkflowNodeSpec := [draftNode, approvalNode [] List.not_mem_nil]

def parallelPlan : SubmissionPlan where
  root := managerTask oneAttempt pairTeam
  children := parallelNodes.zipIdx 1 |>.map fun n => nodeTask pairTeam oneAttempt n.1 n.2
  runStatus := .humanReview
  rootPending := false

theorem parallelPlan_created : Created (created parallelPlan oneAttempt) :=
  Or.inr ⟨parallelNodes, pairTeam, oneAttempt, parallelPlan, by decide, rfl, rfl⟩

/-- The draft fails, and a pass fails the run. -/
def failingRun : List RaceAction :=
  [.submit, .submit, .submit, .submit, .start 1 "w" true, .finish 1 "w" (.failed "no answer"),
    .beginPass, .passStep 0, .passStep 0]

/-- The approval comes after that, with a pass of its own. -/
def lateReview : List RaceAction :=
  [.review 2 true none, .beginReviewPass 0, .passStep 0, .passStep 0]

theorem ended_run_stays_failed :
    ∃ s t, raceSystem.exec (created parallelPlan oneAttempt) failingRun = some s ∧
      raceSystem.exec s lateReview = some t ∧
      t.db.run.status = s.db.run.status ∧
      ∀ d ∈ s.db.tasks, d.status = .cancelled → ∀ d' ∈ t.db.tasks, d'.id = d.id →
        d'.status ≠ .pending ∧ d'.status ≠ .running ∧ d'.status ≠ .humanReview := by
  refine ⟨_, _, rfl, rfl, ?_⟩
  refine ended_run_stays
    ⟨_, parallelPlan_created, System.path_of_allowed failingRun ?_ rfl⟩ rfl
    (System.path_of_allowed lateReview ?_ rfl)
  · -- The run is active before each of these steps.
    iterate 9 refine System.allowed_cons (fun h => nomatch h) rfl ?_
    trivial
  · refine System.allowed_cons (fun _ => trivial) rfl ?_
    refine System.allowed_cons (fun _ => trivial) rfl ?_
    refine System.allowed_cons (fun _ p hp => ?_) rfl ?_
    · cases hp
      trivial
    refine System.allowed_cons (fun _ p hp => ?_) rfl trivial
    cases hp
    -- The pass reads the failed child, and the run has failed.
    exact ⟨fun _ => Or.inl rfl, fun hnone => absurd hnone (by decide)⟩

/-- The run of a team is cancelled while a pass has read its rows: the pass goes
    on, and makes the run active again. -/
theorem ended_run_comes_back :
    ¬ ∀ s t, raceSystem.Reachable System.anyStep s → s.db.run.status.terminal = true →
        raceSystem.Path System.anyStep s t →
        t.db.run.status = s.db.run.status ∧
          ∀ d ∈ s.db.tasks, d.status = .cancelled → ∀ d' ∈ t.db.tasks, d'.id = d.id →
            d'.status ≠ .pending ∧ d'.status ≠ .running ∧ d'.status ≠ .humanReview := by
  intro hclaim
  have hs₀ : Created (created (submitTeamRun pairTeam oneAttempt) oneAttempt) :=
    Or.inl ⟨pairTeam, oneAttempt, rfl⟩
  have hrun := (hclaim _ _ ⟨_, hs₀, System.path_of_exec
    [.submit, .submit, .submit, .beginPass, .passStep 0,
      .beginCancellation, .cancelStep 0, .cancelStep 0] rfl⟩ rfl
    (System.path_of_exec [.passStep 0, .passStep 0, .passStep 0, .passStep 0] rfl)).1
  exact absurd hrun (by decide)

end Orchestration
end HermesPlatform
