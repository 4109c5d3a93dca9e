/-
  HermesPlatform.Orchestration.Statuses

  The status of a task and those of its session and its execution.

  Workers and requests set the three together, and so does every operation but
  two branches of a pass: the failure of the manager task leaves its execution in
  the queue, the cancellation of a dependent its session and its execution.
  `PassSettles` is the condition that a pass takes neither.  And an operation that
  holds no lock sets the three of a row that may have changed since it was read:
  `Fresh` is the condition that it has not.  Along such runs the three agree.
-/

import HermesPlatform.Orchestration.Operations

namespace HermesPlatform
namespace Orchestration

open Python Transition

/-! ## What should agree -/

/-- The status of the session and of the execution of a task. -/
def TaskStatus.work : TaskStatus → WorkStatus
  | .pending | .waitingChild | .humanReview | .retrying => .queued
  | .running => .running
  | .succeeded => .succeeded
  | .failed => .failed
  | .cancelled => .cancelled

/-- The session and the execution of a task have the status that goes with that
    of the task. -/
structure RowAgrees (t : AgentTask) : Prop where
  session : t.session.status = t.status.work
  execution : t.executionStatus = some t.status.work

def RowsAgree (rows : RunRows) : Prop := ∀ t ∈ rows.tasks, RowAgrees t

/-- A task that has ended has its session and its execution ended in the same
    way. -/
def OutcomesAgree (rows : RunRows) : Prop :=
  ∀ t ∈ rows.tasks, t.status.terminal = true → RowAgrees t

/-- What a pass has read: no failed child under a manager task that has not
    started, and no child that waits for a cancelled one. -/
structure Settles (rows : RunRows) : Prop where
  failed : ∀ t ∈ rows.children, t.status = .failed →
    ∀ r, rootOf rows.tasks = some r → r.status ≠ .waitingChild ∧ r.status ≠ .pending
  cancelled : (∀ t ∈ rows.children, t.status ≠ .failed) →
    ∀ t ∈ rows.children, t.status = .waitingChild →
    ∀ d ∈ rows.children, d.status = .cancelled → ∀ key ∈ t.dependsOn, d.nodeKey ≠ some key

/-- The first phase of every pass settles what it has read. -/
def PassSettles (s : OperationState) : OperationAction → Prop
  | .race (.passStep i) => ∀ run tasks, s.race.passes[i]? = some (.read run tasks) →
      Settles ⟨run, tasks⟩
  | _ => True

/-- The three statuses of a task. -/
structure SameStatuses (t u : AgentTask) : Prop where
  status : t.status = u.status
  session : t.session.status = u.session.status
  execution : t.executionStatus = u.executionStatus

theorem SameStatuses.refl (t : AgentTask) : SameStatuses t t := ⟨rfl, rfl, rfl⟩

/-- The row of an object still has the statuses the object was read with. -/
def StillReads (db : RunRows) (l : AgentTask) : Prop :=
  ∀ d ∈ db.tasks, d.id = l.id → SameStatuses l d

/-- A commit without a lock finds the tasks it may change as they were read: the
    waiting children for the first phase of a pass, a waiting manager task for the
    second, the tasks that can be cancelled for a cancellation of the run, and the
    tasks of a recovery and of a stop. -/
def Fresh (s : OperationState) : OperationAction → Prop
  | .race (.passStep i) => ∀ p, s.race.passes[i]? = some p →
      match p with
      | .read _ tasks => ∀ l ∈ tasks, l.parentTaskId ≠ none → l.status = .waitingChild →
          StillReads s.race.db l
      | .readAgain _ tasks => ∀ l ∈ tasks, l.parentTaskId = none → l.status = .waitingChild →
          StillReads s.race.db l
      | _ => True
  | .race (.cancelStep i) => ∀ run tasks, s.race.cancellations[i]? = some (.read run tasks) →
      ∀ l ∈ tasks, l.status.cancellable = true → StillReads s.race.db l
  | .commitRecovery i _ => ∀ loaded, s.recoveries[i]? = some loaded →
      ∀ l ∈ loaded, StillReads s.race.db l
  | .stopStep i => ∀ t, s.stops[i]? = some (.read t) → StillReads s.race.db t
  | _ => True

def Agreeing (s : OperationState) (a : OperationAction) : Prop := Fresh s a ∧ PassSettles s a

/-! ## One row -/

theorem RowAgrees.isSome {t : AgentTask} (h : RowAgrees t) : t.execution.isSome = true := by
  obtain ⟨e, he, -⟩ := Option.map_eq_some_iff.mp h.execution
  rw [he]
  rfl

/-- An update that sets the three statuses. -/
theorem rowAgrees_set {t t' : AgentTask} {w : WorkStatus} {f : ExecutionLog → ExecutionLog}
    (hsome : t.execution.isSome = true) (hexecution : t'.execution = t.execution.map f)
    (hf : ∀ e, (f e).status = w) (hsession : t'.session.status = w)
    (hstatus : t'.status.work = w) : RowAgrees t' := by
  obtain ⟨e, he⟩ := Option.isSome_iff_exists.mp hsome
  refine ⟨hsession.trans hstatus.symm, ?_⟩
  rw [AgentTask.executionStatus, hexecution, he, hstatus, ← hf e]
  rfl

theorem terminalFailure_agrees (message : String) {t : AgentTask}
    (h : t.execution.isSome = true) : RowAgrees (terminalFailure message t) :=
  rowAgrees_set h rfl (fun _ => rfl) rfl rfl

theorem startTask_agrees {workerId : String} {agentActive : Bool} {t t' : AgentTask}
    (h : RowAgrees t)
    (hstart : startTask workerId agentActive t = .finished t' ∨
      startTask workerId agentActive t = .started t') : RowAgrees t' := by
  unfold startTask at hstart
  split at hstart
  · simp at hstart
  · rename_i hqueued
    split at hstart
    · rename_i hsucceeded
      -- The session of a queued task is queued.
      rw [h.session] at hsucceeded
      rcases not_not.mp hqueued with hs | hs <;> rw [hs] at hsucceeded <;> cases hsucceeded
    · split at hstart
      · rcases hstart with hstart | hstart
        · cases hstart
          exact terminalFailure_agrees _ h.isSome
        · cases hstart
      · rcases hstart with hstart | hstart
        · cases hstart
        · cases hstart
          exact rowAgrees_set h.isSome rfl (fun _ => rfl) rfl rfl

theorem finishCancelled_agrees {t : AgentTask} (h : RowAgrees t) :
    RowAgrees (finishCancelled t) := by
  simp only [finishCancelled]
  split
  · rename_i hstatus
    refine rowAgrees_set (w := .cancelled) h.isSome rfl (fun _ => rfl) rfl ?_
    rw [hstatus]
    rfl
  · exact rowAgrees_set h.isSome rfl (fun _ => rfl) rfl rfl

theorem failExecution_isSome (message : String) {t : AgentTask}
    (h : t.execution.isSome = true) : (failExecution message t).execution.isSome = true := by
  unfold failExecution
  split
  · exact h
  · simpa using h

theorem finishFailed_agrees (message : String) {t : AgentTask} (h : RowAgrees t) :
    RowAgrees (finishFailed message t) := by
  have hstatus := (failExecution_spec message t).2.1
  have hsome := failExecution_isSome message h.isSome
  simp only [finishFailed]
  split
  · rename_i hcancelled
    rw [hstatus] at hcancelled
    -- The execution of a cancelled task is cancelled, so nothing was failed.
    have hsame : failExecution message t = t := by
      rw [failExecution, if_pos]
      rw [h.execution, hcancelled]
      rfl
    rw [hsame]
    exact h
  · split
    · exact rowAgrees_set hsome rfl (fun _ => rfl) rfl rfl
    · exact terminalFailure_agrees _ hsome

theorem finishTask_agrees (workerId : String) (outcome : Outcome) {t : AgentTask}
    (h : RowAgrees t) : RowAgrees (finishTask workerId outcome t) := by
  cases outcome with
  | succeeded output =>
      simp only [finishTask]
      split
      · exact finishCancelled_agrees h
      · exact rowAgrees_set h.isSome rfl (fun _ => rfl) rfl rfl
  | failed message => exact finishFailed_agrees message h
  | cancelled => exact finishCancelled_agrees h
  | unavailable message => exact terminalFailure_agrees message h.isSome

theorem recoverTask_agrees (workerId : String) {t : AgentTask} (h : RowAgrees t) :
    RowAgrees (recoverTask workerId t) := by
  unfold recoverTask
  split
  · rename_i hsucceeded
    -- Only a task that has succeeded has a session that has.
    have hwork : t.status.work = .succeeded := h.session.symm.trans hsucceeded
    exact ⟨hsucceeded, h.execution.trans (congrArg some hwork)⟩
  · -- A retry while attempts are left, else a failure.
    cases decide (t.attempt < t.maxAttempts)
    · exact rowAgrees_set h.isSome rfl (fun _ => rfl) rfl rfl
    · exact rowAgrees_set h.isSome rfl (fun _ => rfl) rfl rfl

theorem reviewTask_agrees {approved : Bool} {note : Option String} {t t' : AgentTask}
    (h : RowAgrees t) (hreview : reviewTask approved note t = .ok t') : RowAgrees t' := by
  unfold reviewTask at hreview
  split at hreview
  · cases hreview
  · cases hreview
    cases approved
    · exact rowAgrees_set h.isSome rfl (fun _ => rfl) rfl rfl
    · exact rowAgrees_set h.isSome rfl (fun _ => rfl) rfl rfl

theorem cancelRow_agrees {t : AgentTask} (h : RowAgrees t) : RowAgrees (cancelRow t) :=
  rowAgrees_set h.isSome rfl (fun _ => rfl) rfl rfl

theorem stopExecution_agrees {t t' : AgentTask} (h : RowAgrees t)
    (hstop : stopExecution t = .ok t') : RowAgrees t' := by
  unfold stopExecution at hstop
  split at hstop
  · cases hstop
  · rename_i hrunning
    -- Only a running task has a running execution.
    have hwork : t.status.work = .running := by
      rw [not_not, h.execution] at hrunning
      exact Option.some.inj hrunning
    have hstatus : t.status = .running := by
      cases hs : t.status <;> rw [hs] at hwork <;> first | rfl | cases hwork
    rw [if_pos (Or.inr (Or.inr hstatus))] at hstop
    cases hstop
    exact rowAgrees_set h.isSome rfl (fun _ => rfl) rfl rfl

/-! ## A pass -/

section Pass

variable {deps : String → List String} {rows : RunRows} {r : AgentTask} {cs : List AgentTask}

/-- A manager task that has started or ended is left as it is. -/
theorem failRoot_kept (error : String) {t : AgentTask}
    (h : t.status ≠ .waitingChild ∧ t.status ≠ .pending) : failRoot error t = t := by
  unfold failRoot
  rw [if_neg]
  rintro (hs | hs)
  · exact h.1 hs
  · exact h.2 hs

/-- When no child has failed and none waits for a cancelled one, the loop cancels
    no child. -/
theorem scan_settles (h : Split deps rows.tasks r cs) (hsettles : Settles rows)
    (hhealthy : ∀ t ∈ cs, t.status ≠ .failed) {promotion : Promotion}
    (hloop : foldEach (scanChild r) ⟨rows.tasks, []⟩ cs = .ok promotion) :
    Evolves (fun l c => Scanned cs l c ∧ (c.status = .cancelled → l.status = .cancelled))
      rows.tasks promotion.tasks := by
  have hcs := children_split h
  have hinit : Evolves (fun l c => Scanned cs l c ∧ (c.status = .cancelled → l.status = .cancelled))
      rows.tasks rows.tasks := List.forall₂_same.mpr fun t _ => ⟨Scanned.refl cs t, id⟩
  refine (scanChildren_rule ?_ _ hinit).1 promotion hloop
  intro t ht acc acc' hacc hturn
  cases hturn with
  | kept => exact hacc
  | cancelled d key wait mem child nodeKey ended =>
      -- What became a failed or cancelled dependency was one before the loop.
      obtain ⟨hd, hparent⟩ := List.mem_filter.mp child
      obtain ⟨l, hl, hscan, hkeep⟩ := hacc.exists_before hd
      have hlcs : l ∈ cs := by
        rw [← childrenOf_split h]
        refine List.mem_filter.mpr ⟨hl, ?_⟩
        rw [← show d.parentTaskId = l.parentTaskId from congrArg TaskSpec.parentTaskId hscan.spec]
        exact hparent
      have hkey : l.nodeKey = some key := (congrArg TaskSpec.nodeKey hscan.spec).symm.trans nodeKey
      rcases ended with hfailed | hcancelled
      · rcases hscan.status with hsame | ⟨-, hset⟩
        · exact absurd (hsame.symm.trans hfailed) (hhealthy l hlcs)
        · rw [hfailed] at hset
          simp at hset
      · rw [← hcs] at hhealthy ht hlcs
        exact absurd hkey (hsettles.cancelled hhealthy t ht wait l hlcs (hkeep hcancelled) key mem)
  | promoted changed wait =>
      refine evolves_update hacc fun l b hlb hid => ?_
      have hstatus := promotedStatus_cases t.toTaskSpec
      refine ⟨hlb.1.update ht wait hid (Or.inr hstatus.symm), ?_⟩
      intro hcancelled
      rcases hstatus with hs | hs <;> rw [hs] at hcancelled <;> cases hcancelled

/-- What the loop makes of an object: nothing, or a waiting child that does not wait
    any more and whose session and execution stay queued. -/
theorem scanned_agrees {tasks : List AgentTask} (h : Split deps tasks r cs) {l c : AgentTask}
    (hl : l ∈ tasks)
    (hscan : Scanned cs l c) (hkeep : c.status = .cancelled → l.status = .cancelled) :
    SameStatuses c l ∨
      (l ∈ cs ∧ l.status = .waitingChild ∧ (RowAgrees l → RowAgrees c)) := by
  have hexecution : c.executionStatus = l.executionStatus :=
    congrArg (Option.map ExecutionLog.status) hscan.execution
  have hsession : c.session.status = l.session.status := congrArg AgentSession.status hscan.session
  rcases hscan.status with hsame | ⟨⟨t, ht, hid, hwait⟩, hset⟩
  · exact Or.inl ⟨hsame, hsession, hexecution⟩
  · -- The waiting child with the id of `l` is `l`.
    have htmem : t ∈ tasks := by
      rw [h.eq]
      exact List.mem_cons_of_mem _ ht
    have heq : t = l := h.shape.eq_of_id htmem hl hid
    subst heq
    refine Or.inr ⟨ht, hwait, fun hrow => ?_⟩
    have hwork : c.status.work = t.status.work := by
      rw [hwait]
      rcases hset with hs | hs | hs
      · have hcancelled := hkeep hs
        rw [hwait] at hcancelled
        cases hcancelled
      · rw [hs]
        rfl
      · rw [hs]
        rfl
    refine ⟨?_, ?_⟩
    · rw [hsession, hwork]
      exact hrow.session
    · rw [hexecution, hwork]
      exact hrow.execution

theorem releaseRoot_agrees (prompt : String) {t : AgentTask} (h : RowAgrees t)
    (hwait : t.status = .waitingChild) : RowAgrees (releaseRoot prompt t) := by
  obtain ⟨hsession, hexecution⟩ := h
  rw [hwait] at hsession hexecution
  refine ⟨hsession, ?_⟩
  obtain ⟨e, he, hstatus⟩ := Option.map_eq_some_iff.mp hexecution
  simp only [AgentTask.executionStatus, releaseRoot, he, Option.map_some]
  exact congrArg some hstatus

/-- The first phase of a pass that settles what it has read. -/
theorem firstPhase_agrees_rows (h : Split deps rows.tasks r cs) (hsettles : Settles rows) :
    Evolves (fun l c => c = l ∨
        Scanned cs l c ∧ (c.status = .cancelled → l.status = .cancelled))
      rows.tasks (firstPhase rows).rows.tasks := by
  have hcases := firstPhase_cases rows
  have hspec := firstPhase_spec h
  cases hphase : firstPhase rows with
  | finished rows' =>
      rw [hphase] at hspec
      cases hspec with
      | failed t error mem status =>
          rw [← children_split h] at mem
          have hroot := hsettles.failed t mem status r (rootOf_split h)
          -- The manager task is left as it is.
          have hsame : (failRun rows r error).tasks = rows.tasks := by
            rw [failRun, updateTask_root h, failRoot_kept error hroot, ← h.eq]
          show Evolves _ rows.tasks (failRun rows r error).tasks
          rw [hsame]
          exact List.forall₂_same.mpr fun _ _ => Or.inl rfl
  | promoted rows' changed =>
      rw [hphase] at hcases
      cases hcases with
      | promoted root promotion found healthy loop =>
          rw [rootOf_split h, Option.some.injEq] at found
          subst found
          rw [childrenOf_split h] at healthy loop
          exact (scan_settles h hsettles healthy loop).imp fun _ _ => Or.inr

/-- The second phase changes a waiting manager task only. -/
theorem secondPhase_agrees_rows (h : Split deps rows.tasks r cs) :
    Evolves (fun l c => c = l ∨
        l.parentTaskId = none ∧ l.status = .waitingChild ∧ ∃ prompt, c = releaseRoot prompt l)
      rows.tasks (secondPhase rows).1.tasks := by
  have hsame : ∀ tasks, Evolves (fun l c => c = l ∨
      l.parentTaskId = none ∧ l.status = .waitingChild ∧ ∃ prompt, c = releaseRoot prompt l)
      tasks tasks := fun tasks => List.forall₂_same.mpr fun _ _ => Or.inl rfl
  rw [h.eq]
  cases secondPhase_spec h with
  | released prompt nonempty succeeded waiting run tasks =>
      rw [tasks]
      exact .cons (Or.inr ⟨h.parent, waiting, prompt, rfl⟩) (hsame cs)
  | reviewing u mem status run tasks =>
      rw [tasks]
      exact hsame _
  | succeeded root run tasks =>
      rw [tasks]
      exact hsame _
  | failed root run tasks =>
      rw [tasks]
      exact hsame _
  | waiting open_ notReady run tasks =>
      rw [tasks]
      exact hsame _

end Pass

/-! ## A commit -/

/-- The statuses of an object that has none of them changed are not written. -/
theorem commitTask_same {l c d : AgentTask} (h : SameStatuses c l) :
    SameStatuses (commitTask l c d) d := by
  refine ⟨if_pos h.status, if_pos h.session, ?_⟩
  have hexecution := h.execution
  simp only [AgentTask.executionStatus, commitTask, Option.map_map] at hexecution ⊢
  congr 1
  funext e
  simp only [Function.comp_apply]
  split
  · rename_i l' c' hl hc
    rw [hl, hc, Option.map_some, Option.map_some, Option.some.injEq] at hexecution
    exact if_pos hexecution
  · rfl

/-- The statuses of an object whose row is as it was read become those of the
    row. -/
theorem commitTask_fresh {l c d : AgentTask} (hfresh : SameStatuses l d) (hl : RowAgrees l)
    (hc : RowAgrees c) : SameStatuses (commitTask l c d) c := by
  have hcolumn : ∀ {α : Type} [DecidableEq α] {x y z : α}, x = z → commitColumn x y z = y := by
    intro α _ x y z hxz
    unfold commitColumn
    split
    · rename_i hyx
      rw [hyx, hxz]
    · rfl
  refine ⟨hcolumn hfresh.status, hcolumn hfresh.session, ?_⟩
  obtain ⟨x, hx⟩ := Option.isSome_iff_exists.mp hl.isSome
  obtain ⟨y, hy⟩ := Option.isSome_iff_exists.mp hc.isSome
  have hexecution := hfresh.execution
  simp only [AgentTask.executionStatus, hx, Option.map_some] at hexecution
  obtain ⟨z, hz, hzx⟩ := Option.map_eq_some_iff.mp hexecution.symm
  simp only [AgentTask.executionStatus, commitTask, hx, hy, hz, Option.map_some]
  exact congrArg some (hcolumn hzx.symm)

theorem SameStatuses.agrees {t u : AgentTask} (h : SameStatuses t u) (hu : RowAgrees u) :
    RowAgrees t := by
  refine ⟨?_, ?_⟩
  · rw [h.session, h.status]
    exact hu.session
  · rw [h.execution, h.status]
    exact hu.execution

/-- A commit that changes the statuses of fresh objects only, and leaves them in
    agreement. -/
theorem commit_agrees {R : AgentTask → AgentTask → Prop} {loaded rows db : RunRows}
    (hevolves : Evolves R loaded.tasks rows.tasks)
    (hR : ∀ l ∈ loaded.tasks, ∀ c, R l c →
      SameStatuses c l ∨ (StillReads db l ∧ (RowAgrees l → RowAgrees c)))
    (hagree : RowsAgree db) : RowsAgree (commit loaded rows db) := by
  intro d' hd'
  obtain ⟨d, hd, ⟨rfl, -⟩ | ⟨l, hl, c, -, hlc, hid, rfl⟩⟩ := commit_rows hevolves hd'
  · exact hagree d' hd
  · rcases hR l hl c hlc with hsame | ⟨hstill, hwritten⟩
    · exact (commitTask_same hsame).agrees (hagree d hd)
    · have hfresh := hstill d hd hid.symm
      have hrow := hfresh.agrees (hagree d hd)
      exact (commitTask_fresh hfresh hrow (hwritten hrow)).agrees (hwritten hrow)

section Commit

variable {deps : String → List String} {s s' : OperationState} {a : OperationAction}

/-- The rows, and the objects a pass works on, are in agreement. -/
structure Agreement (s : OperationState) : Prop where
  rows : RowsAgree s.race.db
  reviewed : ∀ o ∈ s.race.reviewed, RowAgrees o
  passes : ∀ p ∈ s.race.passes, ∀ o ∈ p.tasks, RowAgrees o

theorem Whole.split (h : Whole deps s) {p : Pass} (hp : p ∈ s.race.passes)
    (hread : p.hasRead = true) : ∃ r cs, Split deps p.tasks r cs :=
  (h.shape.congr (h.passes p hp hread)).split

theorem commits_agree (h : Whole deps s) (hagree : RowsAgree s.race.db) (hgood : Agreeing s a)
    {loaded rows : RunRows} (hcommits : Commits s a loaded rows) :
    RowsAgree (commit loaded rows s.race.db) := by
  obtain ⟨hfresh, hsettles⟩ := hgood
  cases hcommits with
  | @first i run tasks pass =>
      obtain ⟨r, cs, hsplit⟩ := h.split (List.mem_of_getElem? pass) rfl
      have hevolves := firstPhase_agrees_rows hsplit (hsettles run tasks pass)
      refine commit_agrees hevolves ?_ hagree
      -- The loop changes children that wait, whose rows are as the pass has read them.
      rintro l hl c (rfl | ⟨hscan, hkeep⟩)
      · exact Or.inl (SameStatuses.refl c)
      · refine (scanned_agrees hsplit hl hscan hkeep).imp_right ?_
        rintro ⟨hmem, hwait, hwritten⟩
        have hparent : l.parentTaskId ≠ none := by
          rw [hsplit.specs.child_parent hmem]
          simp
        exact ⟨hfresh _ pass l hl hparent hwait, hwritten⟩
  | @second i run tasks pass =>
      obtain ⟨r, cs, hsplit⟩ := h.split (List.mem_of_getElem? pass) rfl
      refine commit_agrees (@secondPhase_agrees_rows deps ⟨run, tasks⟩ r cs hsplit) ?_ hagree
      rintro l hl c (rfl | ⟨hparent, hwait, prompt, rfl⟩)
      · exact Or.inl (SameStatuses.refl c)
      · exact Or.inr ⟨hfresh _ pass l hl hparent hwait,
          fun hrow => releaseRoot_agrees prompt hrow hwait⟩
  -- The last three write all of the three statuses.
  | @cancelled i run tasks rows cancellation ok =>
      have hevolves : Evolves (fun l c => c = if l.status.cancellable then cancelRow l else l)
          tasks rows.tasks := by
        rw [(cancelWorkflowRun_ok ok).2.2.2]
        exact evolves_map fun _ _ => rfl
      refine commit_agrees hevolves ?_ hagree
      rintro l hl c rfl
      split
      · rename_i hcancellable
        exact Or.inr ⟨hfresh run tasks cancellation l hl hcancellable, cancelRow_agrees⟩
      · exact Or.inl (SameStatuses.refl l)
  | @recovered i workerId loaded recovery =>
      have hevolves : Evolves (fun l c => c = recoverTask workerId l) loaded
          (loaded.map (recoverTask workerId)) := evolves_map fun _ _ => rfl
      refine commit_agrees hevolves ?_ hagree
      rintro l hl c rfl
      exact Or.inr ⟨hfresh loaded recovery l hl, recoverTask_agrees workerId⟩
  | @stopped i t t' stop ok =>
      have hevolves : Evolves (fun l c => stopExecution l = .ok c) [t] [t'] := .cons ok .nil
      refine commit_agrees hevolves ?_ hagree
      intro l hl c hlc
      rw [List.mem_singleton.mp hl] at hlc ⊢
      exact Or.inr ⟨hfresh t stop, fun hrow => stopExecution_agrees hrow hlc⟩

/-! ## A step -/

theorem setTask_agrees {rows : RunRows} {t' : AgentTask} (h : RowsAgree rows)
    (ht' : RowAgrees t') : RowsAgree (rows.setTask t') := by
  intro u hu
  rcases mem_setTask hu with rfl | ⟨hu, -⟩
  · exact ht'
  · exact h u hu

/-- Under the lock of its row an operation sets the three statuses. -/
theorem RowChange.agrees {working working' : List Nat} {t t' : AgentTask}
    (h : RowChange working t a t' working') (hrow : RowAgrees t) : RowAgrees t' := by
  cases h with
  | refused start => exact startTask_agrees hrow (Or.inl start)
  | started start => exact startTask_agrees hrow (Or.inr start)
  | finished workerId outcome busy => exact finishTask_agrees workerId outcome hrow
  | reviewed review => exact reviewTask_agrees hrow review
  | cancelled cancel =>
      rw [(cancelTask_ok cancel).2]
      exact cancelRow_agrees hrow

/-- The objects of a pass after its next access. -/
theorem passStep_agrees (h : Whole deps s) (hagree : Agreement s) {i : Nat}
    (hsettles : PassSettles s (.race (.passStep i))) {p q : Pass} (hp : s.race.passes[i]? = some p)
    (hq : (p.step s.race.db).2 = some q) : ∀ o ∈ q.tasks, RowAgrees o := by
  have hmem := List.mem_of_getElem? hp
  have hobjects := hagree.passes p hmem
  have hlist : ∀ o ∈ listRunTasks p.tasks s.race.db, RowAgrees o := by
    intro o ho
    rcases mem_listRunTasks ho with ho | ho
    · exact hobjects o ho
    · exact hagree.rows o ho
  cases p with
  | begun run tasks =>
      cases hq
      exact hlist
  | read run tasks =>
      -- The objects are those that the first phase has changed.
      obtain ⟨r, cs, hsplit⟩ := h.split hmem rfl
      have hevolves := firstPhase_agrees_rows hsplit (hsettles run tasks hp)
      simp only [Pass.step] at hq
      split at hq
      · cases hq
      · rename_i rows changed hphase
        rw [hphase] at hevolves
        cases hq
        intro c hc
        obtain ⟨l, hl, rfl | ⟨hscan, hkeep⟩⟩ := hevolves.exists_before hc
        · exact hobjects c hl
        · have hrow := hobjects l hl
          rcases scanned_agrees hsplit hl hscan hkeep with
            hsame | ⟨-, -, hwritten⟩
          · exact hsame.agrees hrow
          · exact hwritten hrow
  | committed run tasks =>
      cases hq
      exact hobjects
  | refreshed run tasks =>
      cases hq
      exact hlist
  | readAgain run tasks => cases hq

theorem agreement_step (h : Whole deps s) (hagree : Agreement s) (hgood : Agreeing s a)
    (hstep : operationStep s a = some s') : Agreement s' := by
  refine ⟨?_, ?_, ?_⟩
  · cases operationStep_spec hstep with
    | quiet db workers =>
        rw [db]
        exact hagree.rows
    | created sub t rest current remaining db workers =>
        rw [h.submission] at current
        cases current
    | submitted sub current remaining db workers =>
        rw [h.submission] at current
        cases current
    | committed commits db workers =>
        rw [db]
        exact commits_agree h hagree.rows hgood commits
    | row t t' mem change db =>
        rw [db]
        exact setTask_agrees hagree.rows (change.agrees (hagree.rows t mem))
  · intro o ho
    rcases reviewed_step hstep ho with hold | ⟨t, ht, approved, note, hreview⟩
    · exact hagree.reviewed o hold
    · exact reviewTask_agrees (hagree.rows t ht) hreview
  · intro q hq
    rcases passes_step hstep hq with hold | ⟨run, tasks, rfl, hsub⟩ | ⟨i, p, rfl, hp, hnext⟩
    · exact hagree.passes q hold
    · exact fun o ho => hagree.reviewed o (hsub ho)
    · exact passStep_agrees h hagree hgood.2 hp hnext

end Commit

/-! ## The start of a run -/

theorem createTask_agrees (payload : RunRequest) (id : Nat) (agentId nodeKey : String)
    (nodeType : NodeType) (parentTaskId : Option Nat) (role : String) {initialStatus : TaskStatus}
    (dependsOn : List String) (instruction : Option String) (h : initialStatus.work = .queued) :
    RowAgrees (createTask payload id agentId nodeKey nodeType parentTaskId role initialStatus
      dependsOn instruction) :=
  ⟨h.symm, congrArg some h.symm⟩

theorem initialStatus_work (node : WorkflowNodeSpec) : (initialStatus node).work = .queued := by
  unfold initialStatus
  split
  · rfl
  · split <;> rfl

/-- A submission creates every task in the queue or waiting. -/
theorem submitted_agrees {plan : SubmissionPlan} {payload : RunRequest} {team : AgentTeam}
    (hroot : plan.root = managerTask payload team) (hchildren : ∀ t ∈ plan.children, RowAgrees t) :
    RowsAgree (plan.submitted payload) := by
  intro t ht
  rcases List.mem_cons.mp ht with rfl | ht
  · rw [SubmissionPlan.finalRoot, hroot]
    split
    · exact ⟨rfl, rfl⟩
    · exact ⟨rfl, rfl⟩
  · exact hchildren t ht

theorem rowsAgree_submitted {run : RunState} (h : Submitted run) : RowsAgree run.rows := by
  rcases h with ⟨team, payload, rfl⟩ | ⟨nodes, hdag, team, payload, plan, hplan, rfl⟩
  · refine submitted_agrees rfl ?_
    intro t ht
    obtain ⟨m, -, rfl⟩ := List.mem_map.mp ht
    exact createTask_agrees _ _ _ _ _ _ _ _ _ rfl
  · obtain ⟨-, hroot, -, -⟩ := submitWorkflowRun_ok hplan
    refine submitted_agrees hroot ?_
    intro t ht
    obtain ⟨node, -, n, rfl⟩ := exists_nodeTask hplan ht
    exact createTask_agrees _ _ _ _ _ _ _ _ _ (initialStatus_work node)

theorem agreement_submitted {s : OperationState} (h : OperationsSubmitted s) : Agreement s := by
  obtain ⟨run, hrun, rfl⟩ := h
  refine ⟨rowsAgree_submitted hrun, ?_, ?_⟩
  · intro o ho
    cases ho
  · intro p hp
    cases hp

/-- The states of runs whose operations are fresh and whose passes settle what they
    have read. -/
theorem agreement_reachable {s : OperationState}
    (h : (operationSystem OperationsSubmitted).Reachable Agreeing s) :
    (∃ deps, Whole deps s) ∧ Agreement s := by
  refine h.invariant (fun s => (∃ deps, Whole deps s) ∧ Agreement s)
    (fun s hs => ⟨whole_submitted hs, agreement_submitted hs⟩) ?_
  rintro s a t ⟨⟨deps, hwhole⟩, hagree⟩ hgood hstep
  exact ⟨⟨deps, whole_step hwhole hstep⟩, agreement_step hwhole hagree hgood hstep⟩

end Orchestration
end HermesPlatform
