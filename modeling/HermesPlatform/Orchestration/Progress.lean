/-
  HermesPlatform.Orchestration.Progress

  When a run can go on and when it is stuck.

  A run of an accepted workflow without a failed or cancelled task never blocks
  on its dependencies: the first task in the order of the search that still
  waits has only succeeded dependencies.  A run whose tasks have all ended does
  block when none of them failed and the manager task has not run.
-/

import HermesPlatform.Orchestration.RunSystem

namespace HermesPlatform
namespace Orchestration

open Python Transition

/-! ## The end of a run -/

/-- A pass over the run sees a reason to end it: a failed child, or the end of
    the manager task. -/
def Decided (rows : RunRows) : Prop :=
  (∃ t ∈ rows.children, t.status = .failed) ∨
    ∃ r, rootOf rows.tasks = some r ∧ (r.status = .succeeded ∨ r.status = .failed)

/-- Every child has ended, and the manager task neither runs nor is about to. -/
def Quiet (rows : RunRows) : Prop :=
  (∀ t ∈ rows.children, t.status.terminal = true) ∧
    ∀ r, rootOf rows.tasks = some r →
      r.status ≠ .pending ∧ r.status ≠ .running ∧ r.status ≠ .retrying ∧ r.status ≠ .humanReview

theorem decided_split {deps : String → List String} {rows : RunRows} {r : AgentTask}
    {cs : List AgentTask} (h : Split deps rows.tasks r cs) :
    Decided rows ↔
      (∃ t ∈ cs, t.status = .failed) ∨ r.status = .succeeded ∨ r.status = .failed := by
  simp only [Decided, children_split h, rootOf_split h, Option.some.injEq]
  simp

/-- The second phase ends the run when the manager task has ended. -/
theorem SecondSpec.terminal_iff {r : AgentTask} {cs : List AgentTask} {out : RunRows}
    (h : SecondSpec r cs out) (hquiet : ∀ t ∈ cs, t.status.terminal = true)
    (hroot : ∀ r', out.tasks = r' :: cs → r'.status ≠ .pending) :
    out.run.status.terminal = true ↔ r.status = .succeeded ∨ r.status = .failed := by
  cases h with
  | reviewing t mem status run tasks =>
      -- A child that waits for its approval has not ended.
      have hterminal := hquiet t mem
      rw [status] at hterminal
      cases hterminal
  | released prompt nonempty succeeded waiting run tasks => exact absurd rfl (hroot _ tasks)
  | succeeded root run tasks => simp [run, root, RunStatus.terminal]
  | failed root run tasks => simp [run, root, RunStatus.terminal]
  | waiting open_ notReady run tasks => simp [run, open_, RunStatus.terminal]

/-- **The end of a run.** A pass that leaves the run quiet leaves it ended exactly
    when it sees a reason to end it. -/
theorem pass_terminal_iff {s s' : RunState} {a : RunAction}
    (h : (runSystem Submitted).Reachable System.anyStep s)
    (hpass : a = .reconcile ∨ a = .reviewPass)
    (hstep : (runSystem Submitted).step s a = some s') (hquiet : Quiet s'.rows) :
    s'.rows.run.status.terminal = true ↔ Decided s.rows := by
  obtain ⟨deps, hshape⟩ := submitted_shape h
  obtain ⟨r, cs, hsplit⟩ := hshape.split
  rw [pass_rows hpass hstep] at hquiet ⊢
  rw [decided_split hsplit]
  have hafter : RunShape deps (reconcileRun s.rows).tasks :=
    hshape.congr (specs_reconcileRun hshape)
  -- The quiet rows are those after the pass; read its two cases against them.
  obtain ⟨r', cs', hsplit'⟩ := hafter.split
  obtain ⟨hchildren, hroot⟩ := hquiet
  rw [children_split hsplit'] at hchildren
  have hopen := hroot r' (rootOf_split hsplit')
  cases reconcileRun_spec hsplit with
  | failed t error mem status run tasks =>
      rw [run]
      exact iff_of_true rfl (Or.inl ⟨t, mem, status⟩)
  | settled cs₂ healthy evolves promotes second =>
      obtain ⟨r₂, htasks, -, -⟩ := second.moved
      obtain ⟨rfl, rfl⟩ := List.cons.inj (htasks.symm.trans hsplit'.eq)
      -- A pass that released the manager task would leave it pending.
      have hiff := second.terminal_iff hchildren fun r₃ h₃ => by
        rw [hsplit'.eq] at h₃
        rw [← (List.cons.inj h₃).1]
        exact hopen.1
      rw [hiff]
      -- Without a failed child only the manager task can decide.
      have hnot : ¬ ∃ t ∈ cs, t.status = .failed := by
        rintro ⟨t, ht, hstatus⟩
        exact healthy t ht hstatus
      simp only [hnot, false_or]

/-! ### A run that does not end -/

/-- A manager with one member. -/
def pairTeam : AgentTeam where
  ownerAgentId := "manager"
  members := [⟨"manager", true, 50, "manager"⟩, ⟨"analyst", true, 50, "analyst"⟩]
  distinct := by decide

def oneAttempt : RunRequest := ⟨"report", 50, 1⟩

def pairRun : RunState := fresh ((submitTeamRun pairTeam oneAttempt).submitted oneAttempt)

theorem pairRun_reachable (as : List RunAction) {s : RunState}
    (h : (runSystem Submitted).exec pairRun as = some s) :
    (runSystem Submitted).Reachable System.anyStep s :=
  ⟨pairRun, Or.inl ⟨pairTeam, oneAttempt, rfl⟩, System.path_of_exec as h⟩

/-- The run ends when the task of the member fails. -/
theorem pass_terminal_iff_failed :
    ∃ s s', (runSystem Submitted).exec pairRun
        [.start 1 "w" true, .finish 1 "w" (.failed "no answer")] = some s ∧
      (runSystem Submitted).step s .reconcile = some s' ∧
      (s'.rows.run.status.terminal = true ↔ Decided s.rows) := by
  refine ⟨_, _, rfl, rfl, ?_⟩
  refine pass_terminal_iff (pairRun_reachable
    [.start 1 "w" true, .finish 1 "w" (.failed "no answer")] rfl) (Or.inl rfl) rfl ⟨by decide, ?_⟩
  intro r hr
  cases hr
  decide

/-- The task of the member is cancelled on its own, and no pass ends the run. -/
theorem pass_leaves_run_active :
    ¬ ∀ s s', (runSystem Submitted).Reachable System.anyStep s →
        s.rows.run.status.terminal = false →
        (runSystem Submitted).step s .reconcile = some s' → Quiet s'.rows →
        s'.rows.run.status.terminal = true := by
  intro hclaim
  have hcancelled : ∃ s, (runSystem Submitted).exec pairRun [.cancelTask 1] = some s := ⟨_, rfl⟩
  obtain ⟨s, hs⟩ := hcancelled
  have hreach := pairRun_reachable _ hs
  cases hs
  have hended := hclaim _ _ hreach rfl rfl ⟨by decide, by
    intro r hr
    cases hr
    decide⟩
  exact absurd hended (by decide)

/-! ## No deadlock -/

/-- A task that a worker or a person can work on. -/
def TaskStatus.live : TaskStatus → Bool
  | .pending | .running | .retrying | .humanReview => true
  | _ => false

/-- `s'` has a task promoted that waited in `s`. -/
def Promotes (rows rows' : RunRows) : Prop :=
  ∃ t ∈ rows.tasks, ∃ t' ∈ rows'.tasks, t'.id = t.id ∧ t.status = .waitingChild ∧
    (t'.status = .pending ∨ t'.status = .humanReview)

/-- No step makes a task wait again. -/
theorem step_waiting {deps : String → List String} {s s' : RunState} {a : RunAction}
    (h : RunShape deps s.rows.tasks) (hstep : step s a = some s') {u : AgentTask}
    (hu : u ∈ s'.rows.tasks) (hwait : u.status = .waitingChild) :
    ∃ t ∈ s.rows.tasks, u.toTaskSpec = t.toTaskSpec ∧ t.status = .waitingChild := by
  -- Workers and the recovery leave a task ended or queued again.
  have hnotEnded : ¬ Ended u.status := by
    rw [hwait]
    simp [Ended]
  cases step_spec hstep with
  | pass action rows workers =>
      obtain ⟨r, cs, hsplit⟩ := h.split
      obtain ⟨r', cs', hsplit', hmoved, hevolves⟩ := reconcileRun_moved hsplit
      rw [rows, hsplit'.eq] at hu
      rw [hsplit.eq]
      rcases List.mem_cons.mp hu with rfl | hu
      · cases hmoved with
        | kept same =>
            subst same
            exact ⟨u, List.mem_cons_self, rfl, hwait⟩
        | failed open_ status => rw [status] at hwait; cases hwait
        | released waiting status nonempty succeeded => rw [status] at hwait; cases hwait
      · obtain ⟨t, ht, hspec, hcase⟩ := hevolves.exists_before hu
        refine ⟨t, List.mem_cons_of_mem _ ht, hspec, ?_⟩
        -- The loop over the children sets a status other than `waiting_child`.
        rcases hcase with rfl | ⟨-, hready, -⟩ | ⟨-, hwaiting, -⟩
        · exact hwait
        · exact hready.1
        · exact hwaiting
  | row t t' mem spec rows change =>
      rw [rows] at hu
      rcases mem_setTask hu with rfl | ⟨hu, -⟩
      · refine ⟨t, mem, spec, ?_⟩
        cases change with
        | started queued status workers => rw [status] at hwait; cases hwait
        | finished busy ended workers => exact absurd ended hnotEnded
        | closed open_ ended workers => rw [hwait] at ended; simp at ended
        | kept status workers => exact status.symm.trans hwait
      · exact ⟨u, hu, rfl, hwait⟩
  | cancelRun rows workers =>
      obtain ⟨-, -, -, htasks⟩ := cancelWorkflowRun_ok rows
      rw [htasks] at hu
      obtain ⟨t, ht, rfl⟩ := List.mem_map.mp hu
      split at hwait
      · cases hwait
      · rename_i hcancellable
        rw [if_neg hcancellable]
        exact ⟨t, ht, rfl, hwait⟩
  | recover workerId stale run tasks workers =>
      rw [tasks] at hu
      obtain ⟨t, ht, rfl⟩ := List.mem_map.mp hu
      split at hwait
      · rename_i hstale
        rw [if_pos hstale] at hnotEnded
        exact absurd (recoverTask_spec workerId t).2.2 hnotEnded
      · rename_i hstale
        rw [if_neg hstale]
        exact ⟨t, ht, rfl, hwait⟩

theorem specs_children (rows : RunRows) :
    specs rows.children = (specs rows.tasks).filter fun t => t.parentTaskId ≠ none := by
  unfold specs RunRows.children
  rw [List.filter_map]
  rfl

/-- What holds of the run of an accepted workflow in every state. -/
structure WorkflowRunning (nodes : List WorkflowNodeSpec) (s : RunState) : Prop where
  shape : RunShape (nodeDeps nodes) s.rows.tasks
  keys : ∀ t ∈ specs s.rows.children, ∃ node ∈ nodes, t.nodeKey = some node.key
  nonempty : specs s.rows.children ≠ []
  waits : ∀ t ∈ s.rows.children, t.status = .waitingChild → t.dependsOn ≠ []

theorem initialStatus_waiting {node : WorkflowNodeSpec} (h : initialStatus node = .waitingChild) :
    node.dependsOn ≠ [] := by
  unfold initialStatus at h
  split at h
  · cases h
  · split at h
    · assumption
    · cases h

theorem workflowRunning_init {nodes : List WorkflowNodeSpec} {s : RunState}
    (h : WorkflowSubmitted nodes s) : WorkflowRunning nodes s := by
  have hshape := workflowSubmitted_shape h
  obtain ⟨-, team, payload, plan, hplan, rfl⟩ := h
  obtain ⟨hne, -, -, hchildren⟩ := submitWorkflowRun_ok hplan
  obtain ⟨r, cs, hsplit⟩ := hshape.split
  have hcs : (fresh (plan.submitted payload)).rows.children = plan.children := by
    rw [children_split hsplit]
    exact (List.cons.inj hsplit.eq).2.symm
  refine ⟨hshape, ?_, ?_, ?_⟩
  · rw [hcs]
    intro t ht
    obtain ⟨u, hu, rfl⟩ := List.mem_map.mp ht
    obtain ⟨node, hnode, n, rfl⟩ := exists_nodeTask hplan hu
    exact ⟨node, hnode, rfl⟩
  · rw [hcs, hchildren]
    simpa [specs] using hne
  · rw [hcs]
    intro t ht hwait
    obtain ⟨node, hnode, n, rfl⟩ := exists_nodeTask hplan ht
    exact initialStatus_waiting hwait

theorem workflowRunning_step {nodes : List WorkflowNodeSpec} {s s' : RunState} {a : RunAction}
    (h : WorkflowRunning nodes s) (hstep : step s a = some s') : WorkflowRunning nodes s' := by
  have hspecs : specs s'.rows.children = specs s.rows.children := by
    rw [specs_children, specs_children, specs_step h.shape hstep]
  refine ⟨shape_step h.shape hstep, ?_, ?_, ?_⟩
  · rw [hspecs]
    exact h.keys
  · rw [hspecs]
    exact h.nonempty
  · intro u hu hwait
    obtain ⟨hmem, hparent⟩ := List.mem_filter.mp hu
    -- A task that waits now has waited before.
    obtain ⟨t, ht, hspec, hstatus⟩ := step_waiting h.shape hstep hmem hwait
    rw [hspec] at hparent ⊢
    exact h.waits t (List.mem_filter.mpr ⟨ht, hparent⟩) hstatus

theorem workflowRunning_reachable {nodes : List WorkflowNodeSpec} {s : RunState}
    {good : RunState → RunAction → Prop}
    (h : (runSystem (WorkflowSubmitted nodes)).Reachable good s) : WorkflowRunning nodes s :=
  h.invariant (WorkflowRunning nodes) (fun _ h => workflowRunning_init h)
    fun _ _ _ h _ hstep => workflowRunning_step h hstep

/-- When no child that waits is ready and none works or has been stopped, all
    children have succeeded: by induction along the dependencies. -/
theorem all_succeeded {deps : String → List String} {order : List String}
    (hordered : DepthFirst.Ordered deps order) {tasks : List AgentTask} {r : AgentTask}
    {cs : List AgentTask} (hsplit : Split deps tasks r cs)
    (hcovers : ∀ t ∈ cs, ∃ key ∈ order, t.nodeKey = some key)
    (hdepends : ∀ t ∈ cs, t.status = .waitingChild → t.dependsOn ≠ [])
    (hstatus : ∀ t ∈ cs, t.status = .waitingChild ∨ t.status = .succeeded)
    (hready : ∀ t ∈ cs, ¬ Ready cs t) : ∀ t ∈ cs, t.status = .succeeded := by
  have hall : ∀ key ∈ order, ∀ t ∈ cs, t.nodeKey = some key → t.status = .succeeded := by
    -- The dependencies of a key come before it in the order.
    refine hordered.induction
      (P := fun key => ∀ t ∈ cs, t.nodeKey = some key → t.status = .succeeded) ?_
    intro key _ ih t ht hkey
    rcases hstatus t ht with hwait | hsucceeded
    · -- If `t` waited, its dependencies would make it ready.
      have hdeps : DepsSucceeded cs t.toTaskSpec := by
        intro dep hdep
        obtain ⟨d, hd, hdkey⟩ := hsplit.specs.child_known ht hdep
        refine ⟨d, hd, hdkey, ih dep ?_ d hd hdkey⟩
        obtain ⟨key', hkey', -, heq⟩ := hsplit.specs.child_key ht
        rw [hkey, Option.some.injEq] at hkey'
        subst hkey'
        rw [← heq]
        exact hdep
      exact absurd ⟨hwait, hdepends t ht hwait, hdeps⟩ (hready t ht)
    · exact hsucceeded
  intro t ht
  obtain ⟨key, hkey, hnode⟩ := hcovers t ht
  exact hall key hkey t ht hnode

/-- A pass over children that have all succeeded leaves them alone. -/
theorem evolves_succeeded {cs cs' : List AgentTask} (h : Evolves (Promoted cs) cs cs')
    (hsucceeded : ∀ t ∈ cs, t.status = .succeeded) : ∀ t' ∈ cs', t'.status = .succeeded := by
  intro t' ht'
  obtain ⟨t, ht, hR⟩ := h.exists_before ht'
  have hne : t.status ≠ .waitingChild := by
    rw [hsucceeded t ht]
    decide
  rw [hR.eq_of_ne hne]
  exact hsucceeded t ht

/-- **No deadlock.** While no task of an accepted workflow has failed or been
    cancelled and the run is active, some task can be worked on, or the next
    pass promotes a task or ends the run. -/
theorem workflow_progress {nodes : List WorkflowNodeSpec} {s : RunState}
    (h : (runSystem (WorkflowSubmitted nodes)).Reachable System.anyStep s)
    (hhealthy : ∀ t ∈ s.rows.tasks, t.status ≠ .failed ∧ t.status ≠ .cancelled)
    (hactive : s.rows.run.status.terminal = false) :
    (∃ t ∈ s.rows.tasks, t.status.live = true) ∨
      ∃ s', (runSystem (WorkflowSubmitted nodes)).step s .reconcile = some s' ∧
        (Promotes s.rows s'.rows ∨ s'.rows.run.status.terminal = true) := by
  have hrunning := workflowRunning_reachable h
  have hdag : AcceptedDag nodes := by
    obtain ⟨s₀, ⟨hvalid, -⟩, -⟩ := h
    exact validateWorkflowDag_ok hvalid
  by_cases hlive : ∃ t ∈ s.rows.tasks, t.status.live = true
  · exact Or.inl hlive
  right
  -- Nothing is live, failed or cancelled: two statuses are left.
  have hstatus : ∀ t ∈ s.rows.tasks, t.status = .waitingChild ∨ t.status = .succeeded := by
    intro t ht
    obtain ⟨hnf, hnc⟩ := hhealthy t ht
    have hnl : t.status.live ≠ true := fun hl => hlive ⟨t, ht, hl⟩
    cases hs : t.status <;> simp_all [TaskStatus.live]
  refine ⟨{ s with rows := reconcileRun s.rows }, by simp [runSystem, step, hactive], ?_⟩
  obtain ⟨r, cs, hsplit⟩ := hrunning.shape.split
  rw [hsplit.eq] at hstatus
  have hchildren : ∀ t ∈ cs, t.status = .waitingChild ∨ t.status = .succeeded :=
    fun t ht => hstatus t (List.mem_cons_of_mem _ ht)
  have hroot := hstatus r List.mem_cons_self
  cases reconcileRun_spec hsplit with
  | failed t error mem status run tasks =>
      -- No child has failed.
      have hs := hchildren t mem
      rw [status] at hs
      simp at hs
  | settled cs' healthy evolves promotes second =>
      obtain ⟨r', htasks, hspec, hmoved⟩ := second.moved
      by_cases hready : ∃ t ∈ cs, Ready cs t
      · -- A ready child is promoted by this pass.
        obtain ⟨t, ht, hr⟩ := hready
        obtain ⟨t', ht', hid, hs⟩ := promotes t ht hr
        refine Or.inl ⟨t, ?_, t', ?_, hid, hr.1, ?_⟩
        · rw [hsplit.eq]
          exact List.mem_cons_of_mem _ ht
        · rw [htasks]
          exact List.mem_cons_of_mem _ ht'
        · rw [hs]
          exact (promotedStatus_cases t.toTaskSpec).symm
      · -- No child is ready, so all have succeeded, and the manager task decides.
        have hnone : ∀ t ∈ cs, ¬ Ready cs t := fun t ht hr => hready ⟨t, ht, hr⟩
        have hcs := children_split hsplit
        obtain ⟨order, hordered, hcovers⟩ := hdag.acyclic
        have hsucceeded : ∀ t ∈ cs, t.status = .succeeded := by
          refine all_succeeded hordered hsplit ?_ ?_ hchildren hnone
          · intro t ht
            obtain ⟨node, hnode, hkey⟩ := hrunning.keys t.toTaskSpec (by
              rw [hcs]
              exact List.mem_map.mpr ⟨t, ht, rfl⟩)
            exact ⟨node.key, hcovers node hnode, hkey⟩
          · rw [← hcs]
            exact hrunning.waits
        have hsucceeded' := evolves_succeeded evolves hsucceeded
        cases second with
        | reviewing t mem status run tasks =>
            have hs := hsucceeded' t mem
            rw [status] at hs
            cases hs
        | released prompt nonempty succeeded waiting run tasks =>
            refine Or.inl ⟨r, ?_, releaseRoot prompt r, ?_, rfl, waiting, Or.inl rfl⟩
            · rw [hsplit.eq]
              exact List.mem_cons_self
            · rw [tasks]
              exact List.mem_cons_self
        | succeeded root run tasks =>
            right
            rw [run]
            rfl
        | failed root run tasks =>
            rw [root] at hroot
            simp at hroot
        | waiting open_ notReady run tasks =>
            have hwait : r.status = .waitingChild := hroot.resolve_right open_.1
            -- A workflow has a node, and the manager task waits for its children only.
            have hcs' : cs' ≠ [] := by
              have hne := hrunning.nonempty
              rw [children_split hsplit] at hne
              rintro rfl
              cases evolves
              exact hne rfl
            exact absurd ⟨hcs', hsucceeded', hwait⟩ notReady

def draftNode : WorkflowNodeSpec where
  key := "draft"
  nodeType := .agent
  name := "Draft"
  agentId := some "analyst"
  dependsOn := []
  instruction := none
  key_pattern := by decide
  agent_given := by decide
  not_self := by decide

def approvalNode (dependsOn : List String) (h : "approval" ∉ dependsOn) : WorkflowNodeSpec where
  key := "approval"
  nodeType := .humanApproval
  name := "Approval"
  agentId := none
  dependsOn := dependsOn
  instruction := none
  key_pattern := by decide
  agent_given := by decide
  not_self := h

/-- A draft that a person approves. -/
def draftNodes : List WorkflowNodeSpec := [draftNode, approvalNode ["draft"] (by decide)]

def draftPlan : SubmissionPlan where
  root := managerTask oneAttempt pairTeam
  children := draftNodes.zipIdx 1 |>.map fun n => nodeTask pairTeam oneAttempt n.1 n.2
  runStatus := .running
  rootPending := false

def draftRun : RunState := fresh (draftPlan.submitted oneAttempt)

theorem draftRun_submitted : WorkflowSubmitted draftNodes draftRun :=
  ⟨by decide, pairTeam, oneAttempt, draftPlan, rfl, rfl⟩

/-- Once the draft is there, the next pass asks for its approval. -/
theorem workflow_progress_draft :
    ∃ s, (runSystem (WorkflowSubmitted draftNodes)).exec draftRun
        [.start 1 "w" true, .finish 1 "w" (.succeeded "text")] = some s ∧
      ((∃ t ∈ s.rows.tasks, t.status.live = true) ∨
        ∃ s', (runSystem (WorkflowSubmitted draftNodes)).step s .reconcile = some s' ∧
          (Promotes s.rows s'.rows ∨ s'.rows.run.status.terminal = true)) := by
  refine ⟨_, rfl, ?_⟩
  refine workflow_progress ⟨draftRun, draftRun_submitted, System.path_of_exec
    [.start 1 "w" true, .finish 1 "w" (.succeeded "text")] rfl⟩ (by decide) rfl

end Orchestration
end HermesPlatform
