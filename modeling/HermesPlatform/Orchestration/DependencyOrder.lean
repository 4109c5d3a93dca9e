/-
  HermesPlatform.Orchestration.DependencyOrder

  Tasks run after their dependencies.

  The invariant has two parts.  Workers work on running or cancelled tasks, each
  on its own (`WorkersAgree`), so a task that has succeeded stays so.  A child
  that does not wait, or on which a worker still works, has only succeeded
  dependencies.  An expired lease breaks the first part, and with it the second.
-/

import HermesPlatform.Orchestration.Progress

namespace HermesPlatform
namespace Orchestration

open Python Transition

/-- No lease expires. -/
def NoExpiry (_ : RunState) : RunAction → Prop
  | .recover _ _ => False
  | _ => True

theorem mem_children {rows : RunRows} {t : AgentTask} :
    t ∈ rows.children ↔ t ∈ rows.tasks ∧ t.parentTaskId ≠ none := by
  simp [RunRows.children]

/-! ## Workers and statuses agree -/

structure WorkersAgree (s : RunState) : Prop where
  nodup : s.working.Nodup
  busy : ∀ t ∈ s.rows.tasks, t.id ∈ s.working → t.status = .running ∨ t.status = .cancelled

/-- A task in one of the statuses no worker works in is not worked on. -/
theorem WorkersAgree.idle {s : RunState} (h : WorkersAgree s) {t : AgentTask}
    (ht : t ∈ s.rows.tasks) (hr : t.status ≠ .running) (hc : t.status ≠ .cancelled) :
    t.id ∉ s.working := by
  intro hbusy
  rcases h.busy t ht hbusy with hstatus | hstatus
  · exact hr hstatus
  · exact hc hstatus

theorem WorkersAgree.idle_of {s : RunState} (h : WorkersAgree s) {t : AgentTask}
    (ht : t ∈ s.rows.tasks)
    (hstatus : t.status = .waitingChild ∨ t.status = .pending ∨ t.status = .retrying ∨
      t.status = .humanReview) : t.id ∉ s.working := by
  apply h.idle ht
  · rcases hstatus with hs | hs | hs | hs <;> rw [hs] <;> decide
  · rcases hstatus with hs | hs | hs | hs <;> rw [hs] <;> decide

section Step

variable {deps : String → List String} {s s' : RunState} {a : RunAction}

/-- What a pass leaves of a task a worker works on: the task. -/
theorem pass_busy (h : RunShape deps s.rows.tasks) (hw : WorkersAgree s) {u : AgentTask}
    (hu : u ∈ (reconcileRun s.rows).tasks) (hbusy : u.id ∈ s.working) : u ∈ s.rows.tasks := by
  obtain ⟨r, cs, hsplit⟩ := h.split
  obtain ⟨r', cs', hsplit', hmoved, hevolves⟩ := reconcileRun_moved hsplit
  have hr : r ∈ s.rows.tasks := by
    rw [hsplit.eq]
    exact List.mem_cons_self
  rw [hsplit'.eq] at hu
  rcases List.mem_cons.mp hu with rfl | hu
  · -- The pass moves the manager task only while no worker is on it.
    have hid : r.id ∈ s.working := by
      rw [hsplit.id, ← hsplit'.id]
      exact hbusy
    cases hmoved with
    | kept same =>
        rw [same]
        exact hr
    | failed open_ status =>
        exact absurd hid (hw.idle_of hr (by tauto))
    | released waiting status nonempty succeeded =>
        exact absurd hid (hw.idle_of hr (Or.inl waiting))
  · obtain ⟨t, ht, hspec, hcase⟩ := hevolves.exists_before hu
    have htmem : t ∈ s.rows.tasks := by
      rw [hsplit.eq]
      exact List.mem_cons_of_mem _ ht
    -- It moves waiting children only, and no worker is on those.
    have hid : t.id ∈ s.working := by
      have heq : u.id = t.id := congrArg TaskSpec.id hspec
      rw [← heq]
      exact hbusy
    rcases hcase with rfl | ⟨-, hready, -⟩ | ⟨-, hwaiting, -⟩
    · exact htmem
    · exact absurd hid (hw.idle_of htmem (Or.inl hready.1))
    · exact absurd hid (hw.idle_of htmem (Or.inl hwaiting))

/-- A change of another task leaves a task's worker alone. -/
theorem Change.busy_other {working working' : List Nat} {t t' u : AgentTask}
    (h : Change working working' t t') (hne : u.id ≠ t.id) (hbusy : u.id ∈ working') :
    u.id ∈ working := by
  cases h with
  | started queued status workers =>
      rw [workers] at hbusy
      exact (List.mem_cons.mp hbusy).resolve_left hne
  | finished busy ended workers =>
      rw [workers] at hbusy
      exact List.mem_of_mem_erase hbusy
  | closed open_ ended workers => rwa [workers] at hbusy
  | kept status workers => rwa [workers] at hbusy

theorem workersAgree_step (h : RunShape deps s.rows.tasks) (hw : WorkersAgree s)
    (hgood : NoExpiry s a) (hstep : step s a = some s') : WorkersAgree s' := by
  cases step_spec hstep with
  | pass action rows workers =>
      refine ⟨workers ▸ hw.nodup, ?_⟩
      rw [rows, workers]
      intro u hu hbusy
      exact hw.busy u (pass_busy h hw hu hbusy) hbusy
  | row t t' mem spec rows change =>
      have hid : t'.id = t.id := congrArg TaskSpec.id spec
      refine ⟨?_, ?_⟩
      · cases change with
        | started queued status workers =>
            rw [workers]
            -- A queued task has no worker yet.
            exact List.nodup_cons.mpr ⟨hw.idle_of mem (by tauto), hw.nodup⟩
        | finished busy ended workers =>
            rw [workers]
            exact hw.nodup.erase _
        | closed open_ ended workers => exact workers ▸ hw.nodup
        | kept status workers => exact workers ▸ hw.nodup
      · intro u hu hbusy
        rw [rows] at hu
        rcases mem_setTask hu with rfl | ⟨hu, hne⟩
        · rw [hid] at hbusy
          cases change with
          | started queued status workers => exact Or.inl status
          | finished busy ended workers =>
              rw [workers] at hbusy
              -- The only worker of the task has left it.
              exact absurd hbusy hw.nodup.not_mem_erase
          | closed open_ ended workers =>
              rw [workers] at hbusy
              -- A stop cancels a task under its worker; the other tasks have none.
              rcases open_ with hs | hs | hs | ⟨-, hs⟩
              · exact absurd hbusy (hw.idle_of mem (by tauto))
              · exact absurd hbusy (hw.idle_of mem (by tauto))
              · exact absurd hbusy (hw.idle_of mem (by tauto))
              · exact Or.inr hs
          | kept status workers =>
              rw [workers] at hbusy
              rw [status]
              exact hw.busy t mem hbusy
        · rw [hid] at hne
          exact hw.busy u hu (change.busy_other hne hbusy)
  | cancelRun rows workers =>
      obtain ⟨-, hrunning, -, htasks⟩ := cancelWorkflowRun_ok rows
      refine ⟨workers ▸ hw.nodup, ?_⟩
      rw [htasks, workers]
      intro u hu hbusy
      -- `cancel_workflow_run` leaves a worker's task alone or cancels it.
      obtain ⟨t, ht, rfl⟩ := List.mem_map.mp hu
      split
      · exact Or.inr rfl
      · rename_i hkept
        rw [if_neg hkept] at hbusy
        exact hw.busy t ht hbusy
  | recover workerId stale run tasks workers => exact hgood.elim

/-! ## Ended tasks stay -/

/-- A child that has succeeded or failed stays so. -/
theorem step_ended (h : RunShape deps s.rows.tasks) (hw : WorkersAgree s)
    (hstep : step s a = some s') {d : AgentTask} (hd : d ∈ s.rows.children)
    (hended : d.status = .succeeded ∨ d.status = .failed) :
    ∃ d' ∈ s'.rows.children, d'.toTaskSpec = d.toTaskSpec ∧ d'.status = d.status := by
  obtain ⟨hmem, hparent⟩ := mem_children.mp hd
  -- It is enough to find the task among all tasks.
  suffices ∃ d' ∈ s'.rows.tasks, d'.toTaskSpec = d.toTaskSpec ∧ d'.status = d.status by
    obtain ⟨d', hd', hspec, hstatus⟩ := this
    refine ⟨d', mem_children.mpr ⟨hd', ?_⟩, hspec, hstatus⟩
    rw [show d'.parentTaskId = d.parentTaskId from congrArg TaskSpec.parentTaskId hspec]
    exact hparent
  cases step_spec hstep with
  | pass action rows workers =>
      obtain ⟨r, cs, hsplit⟩ := h.split
      obtain ⟨r', cs', hsplit', -, hevolves⟩ := reconcileRun_moved hsplit
      rw [children_split hsplit] at hd
      obtain ⟨d', hd', hR⟩ := hevolves.exists_after hd
      have heq : d' = d := hR.eq_of_ne (by rcases hended with hs | hs <;> rw [hs] <;> decide)
      subst heq
      refine ⟨d', ?_, rfl, rfl⟩
      rw [rows, hsplit'.eq]
      exact List.mem_cons_of_mem _ hd'
  | row t t' mem spec rows change =>
      have hid : t'.id = t.id := congrArg TaskSpec.id spec
      rw [rows]
      by_cases hdt : d.id = t.id
      · have heq : d = t := h.eq_of_id hmem mem hdt
        subst heq
        refine ⟨t', setTask_self mem hid, spec, ?_⟩
        cases change with
        | started queued status workers =>
            rcases hended with hs | hs <;> simp [hs] at queued
        | finished busy ended workers =>
            -- A worker's late end would undo the end of the task, but there is no worker.
            rcases hw.busy d mem busy with hrunning | hcancelled
            · rcases hended with hs | hs <;> rw [hs] at hrunning <;> cases hrunning
            · rcases hended with hs | hs <;> rw [hs] at hcancelled <;> cases hcancelled
        | closed open_ ended workers =>
            rcases hended with hs | hs <;> simp [hs] at open_
        | kept status workers => exact status
      · refine ⟨d, setTask_other hmem ?_, rfl, rfl⟩
        rw [hid]
        exact hdt
  | cancelRun rows workers =>
      obtain ⟨-, -, -, htasks⟩ := cancelWorkflowRun_ok rows
      rw [htasks]
      refine ⟨d, List.mem_map.mpr ⟨d, hmem, if_neg ?_⟩, rfl, rfl⟩
      rcases hended with hs | hs <;> simp [hs, TaskStatus.cancellable]
  | recover workerId stale run tasks workers =>
      rw [tasks]
      refine ⟨d, List.mem_map.mpr ⟨d, hmem, if_neg ?_⟩, rfl, rfl⟩
      rcases hended with hs | hs <;> simp [hs]

theorem step_succeeded (h : RunShape deps s.rows.tasks) (hw : WorkersAgree s)
    (hstep : step s a = some s') {d : AgentTask} (hd : d ∈ s.rows.children)
    (hsucceeded : d.status = .succeeded) :
    ∃ d' ∈ s'.rows.children, d'.toTaskSpec = d.toTaskSpec ∧ d'.status = .succeeded := by
  obtain ⟨d', hd', hspec, hstatus⟩ := step_ended h hw hstep hd (Or.inl hsucceeded)
  exact ⟨d', hd', hspec, hstatus.trans hsucceeded⟩

theorem DepsSucceeded.mono {cs cs' : List AgentTask} {t : TaskSpec} (h : DepsSucceeded cs t)
    (hkeep : ∀ d ∈ cs, d.status = .succeeded →
      ∃ d' ∈ cs', d'.toTaskSpec = d.toTaskSpec ∧ d'.status = .succeeded) : DepsSucceeded cs' t := by
  intro key hkey
  obtain ⟨d, hd, hdkey, hstatus⟩ := h key hkey
  obtain ⟨d', hd', hspec, hstatus'⟩ := hkeep d hd hstatus
  have heq : d'.nodeKey = d.nodeKey := congrArg TaskSpec.nodeKey hspec
  exact ⟨d', hd', heq.trans hdkey, hstatus'⟩

/-! ## The invariant -/

/-- A child that does not wait, or that a worker works on. -/
def Begun (s : RunState) (t : AgentTask) : Prop :=
  (t.status ≠ .waitingChild ∧ t.status ≠ .cancelled) ∨ t.id ∈ s.working

/-- What begun has its dependencies behind it. -/
def DepsFirst (s : RunState) : Prop :=
  ∀ t ∈ s.rows.children, Begun s t → DepsSucceeded s.rows.children t.toTaskSpec

theorem depsFirst_step (h : RunShape deps s.rows.tasks) (hw : WorkersAgree s)
    (hd : DepsFirst s) (hgood : NoExpiry s a) (hstep : step s a = some s') : DepsFirst s' := by
  intro u hu hbegun
  obtain ⟨humem, huparent⟩ := mem_children.mp hu
  -- The dependencies of the task `u` comes from had succeeded before the step.
  suffices hbefore : ∃ t ∈ s.rows.children, u.toTaskSpec = t.toTaskSpec ∧
      DepsSucceeded s.rows.children t.toTaskSpec by
    obtain ⟨t, ht, hspec, hdeps⟩ := hbefore
    rw [hspec]
    exact hdeps.mono fun d hd hs => step_succeeded h hw hstep hd hs
  cases step_spec hstep with
  | pass action rows workers =>
      obtain ⟨r, cs, hsplit⟩ := h.split
      obtain ⟨r', cs', hsplit', -, hevolves⟩ := reconcileRun_moved hsplit
      rw [rows, children_split hsplit'] at hu
      obtain ⟨t, ht, hspec, hcase⟩ := hevolves.exists_before hu
      have hchild : t ∈ s.rows.children := by
        rw [children_split hsplit]
        exact ht
      refine ⟨t, hchild, hspec, ?_⟩
      -- Unchanged, promoted because it was ready, or cancelled while it waited.
      rcases hcase with rfl | ⟨-, hready, -⟩ | ⟨-, hwaiting, hcancelled⟩
      · unfold Begun at hbegun
        rw [workers] at hbegun
        exact hd u hchild hbegun
      · rw [children_split hsplit]
        exact hready.2.2
      · have hidle := hw.idle_of (mem_children.mp hchild).1 (Or.inl hwaiting)
        have hid : u.id = t.id := congrArg TaskSpec.id hspec
        rcases hbegun with ⟨-, hne⟩ | hbusy
        · exact absurd hcancelled hne
        · rw [workers, hid] at hbusy
          exact absurd hbusy hidle
  | row t t' mem spec rows change =>
      have hid : t'.id = t.id := congrArg TaskSpec.id spec
      rw [rows] at humem
      rcases mem_setTask humem with rfl | ⟨humem, hne⟩
      · have hchild : t ∈ s.rows.children := by
          refine mem_children.mpr ⟨mem, ?_⟩
          rw [← show u.parentTaskId = t.parentTaskId from congrArg TaskSpec.parentTaskId spec]
          exact huparent
        refine ⟨t, hchild, spec, hd t hchild ?_⟩
        -- Every change starts from a task that had begun.
        cases change with
        | started queued status workers =>
            left
            rcases queued with hs | hs <;> rw [hs] <;> decide
        | finished busy ended workers => exact Or.inr busy
        | closed open_ ended workers =>
            left
            rcases open_ with hs | hs | hs | ⟨hs, -⟩ <;> rw [hs] <;> decide
        | kept status workers =>
            unfold Begun at hbegun ⊢
            rwa [status, workers, hid] at hbegun
      · have hchild : u ∈ s.rows.children := mem_children.mpr ⟨humem, huparent⟩
        refine ⟨u, hchild, rfl, hd u hchild ?_⟩
        rw [hid] at hne
        exact hbegun.imp_right fun hbusy => change.busy_other hne hbusy
  | cancelRun rows workers =>
      obtain ⟨-, hrunning, -, htasks⟩ := cancelWorkflowRun_ok rows
      rw [htasks] at humem
      obtain ⟨t, ht, rfl⟩ := List.mem_map.mp humem
      split at huparent
      · rename_i hcancelled
        have hchild : t ∈ s.rows.children := mem_children.mpr ⟨ht, huparent⟩
        rw [if_pos hcancelled] at hbegun ⊢
        refine ⟨t, hchild, rfl, hd t hchild (Or.inr ?_)⟩
        rcases hbegun with ⟨-, hne⟩ | hbusy
        · exact absurd rfl hne
        · rwa [workers] at hbusy
      · rename_i hkept
        have hchild : t ∈ s.rows.children := mem_children.mpr ⟨ht, huparent⟩
        rw [if_neg hkept] at hbegun ⊢
        refine ⟨t, hchild, rfl, hd t hchild ?_⟩
        exact hbegun.imp_right fun hbusy => workers ▸ hbusy
  | recover workerId stale run tasks workers => exact hgood.elim

/-- The manager task starts only when all children have succeeded. -/
theorem root_released (h : RunShape deps s.rows.tasks) (hw : WorkersAgree s)
    (hgood : NoExpiry s a) (hstep : step s a = some s') {r r' : AgentTask}
    (hr : rootOf s.rows.tasks = some r) (hr' : rootOf s'.rows.tasks = some r')
    (hwait : r.status = .waitingChild) (hpending : r'.status = .pending) :
    ∀ t ∈ s'.rows.children, t.status = .succeeded := by
  obtain ⟨r₀, cs, hsplit⟩ := h.split
  obtain ⟨r₁, cs', hsplit'⟩ := (shape_step h hstep).split
  rw [rootOf_split hsplit, Option.some.injEq] at hr
  rw [rootOf_split hsplit', Option.some.injEq] at hr'
  subst hr hr'
  have hr₀ : r₀ ∈ s.rows.tasks := by
    rw [hsplit.eq]
    exact List.mem_cons_self
  have hr₁ : r₁ ∈ s'.rows.tasks := by
    rw [hsplit'.eq]
    exact List.mem_cons_self
  cases step_spec hstep with
  | pass action rows workers =>
      obtain ⟨r₂, cs₂, hsplit₂, hmoved, -⟩ := reconcileRun_moved hsplit
      rw [← rows] at hsplit₂
      obtain ⟨rfl, rfl⟩ := List.cons.inj (hsplit'.eq.symm.trans hsplit₂.eq)
      rw [children_split hsplit']
      -- Only the release leads from waiting to pending.
      cases hmoved with
      | kept same =>
          rw [same, hwait] at hpending
          cases hpending
      | failed open_ status =>
          rw [status] at hpending
          cases hpending
      | released waiting status nonempty succeeded => exact succeeded
  | row t t' mem spec rows change =>
      exfalso
      have hid : t'.id = t.id := congrArg TaskSpec.id spec
      rw [rows] at hr₁
      rcases mem_setTask hr₁ with rfl | ⟨hr₁, -⟩
      · -- No request and no worker takes the manager task out of waiting.
        have heq : r₀ = t := h.eq_of_id hr₀ mem (by rw [hsplit.id, ← hid, hsplit'.id])
        subst heq
        cases change with
        | started queued status workers => simp [hwait] at queued
        | finished busy ended workers => exact hw.idle_of hr₀ (Or.inl hwait) busy
        | closed open_ ended workers => simp [hwait] at open_
        | kept status workers =>
            rw [hpending, hwait] at status
            cases status
      · have heq : r₀ = r₁ := h.eq_of_id hr₀ hr₁ (by rw [hsplit.id, hsplit'.id])
        rw [← heq, hwait] at hpending
        cases hpending
  | cancelRun rows workers =>
      exfalso
      obtain ⟨-, -, -, htasks⟩ := cancelWorkflowRun_ok rows
      rw [htasks] at hr₁
      obtain ⟨t, ht, heq⟩ := List.mem_map.mp hr₁
      split at heq
      · rw [← heq] at hpending
        cases hpending
      · rename_i hkept
        rw [heq, hpending] at hkept
        exact hkept rfl
  | recover workerId stale run tasks workers => exact hgood.elim

end Step

/-! ## Every run -/

theorem initialStatus_begun {node : WorkflowNodeSpec} (h : initialStatus node ≠ .waitingChild) :
    node.dependsOn = [] := by
  unfold initialStatus at h
  split at h
  · rename_i hfirst
    simp only [WorkflowNodeSpec.approvesFirst, Bool.and_eq_true] at hfirst
    exact List.isEmpty_iff.mp hfirst.2
  · split at h
    · exact absurd rfl h
    · rename_i hdeps
      exact not_not.mp hdeps

theorem depsFirst_init {nodes : List WorkflowNodeSpec} {s : RunState}
    (h : WorkflowSubmitted nodes s) : WorkersAgree s ∧ DepsFirst s := by
  obtain ⟨r, cs, hsplit⟩ := (workflowSubmitted_shape h).split
  obtain ⟨-, team, payload, plan, hplan, rfl⟩ := h
  obtain ⟨-, -, -, hchildren⟩ := submitWorkflowRun_ok hplan
  refine ⟨⟨List.nodup_nil, fun _ _ hbusy => absurd hbusy List.not_mem_nil⟩, ?_⟩
  intro t ht hbegun
  rw [children_split hsplit, ← (List.cons.inj hsplit.eq).2, hchildren] at ht
  obtain ⟨⟨node, n⟩, -, rfl⟩ := List.mem_map.mp ht
  have hdeps : node.dependsOn = [] := by
    rcases hbegun with ⟨hne, -⟩ | hbusy
    · exact initialStatus_begun hne
    · exact absurd hbusy List.not_mem_nil
  intro key hkey
  rw [show (nodeTask team payload node n).dependsOn = node.dependsOn from rfl, hdeps] at hkey
  cases hkey

theorem depsFirst_reachable {nodes : List WorkflowNodeSpec} {s : RunState}
    (h : (runSystem (WorkflowSubmitted nodes)).Reachable NoExpiry s) :
    WorkflowRunning nodes s ∧ WorkersAgree s ∧ DepsFirst s := by
  refine h.invariant (fun s => WorkflowRunning nodes s ∧ WorkersAgree s ∧ DepsFirst s) ?_ ?_
  · intro s hs
    exact ⟨workflowRunning_init hs, depsFirst_init hs⟩
  · rintro s a t ⟨hrun, hw, hd⟩ hgood hstep
    exact ⟨workflowRunning_step hrun hstep, workersAgree_step hrun.shape hw hgood hstep,
      depsFirst_step hrun.shape hw hd hgood hstep⟩

/-- **Dependency order.** In a run without an expired lease, a child that is
    queued, waits for its approval, runs or has succeeded has all its
    dependencies succeeded, and the manager task is released only when all
    children have succeeded. -/
theorem workflow_order {nodes : List WorkflowNodeSpec} {s : RunState}
    (h : (runSystem (WorkflowSubmitted nodes)).Reachable NoExpiry s) :
    (∀ t ∈ s.rows.children, t.status = .pending ∨ t.status = .humanReview ∨
        t.status = .running ∨ t.status = .succeeded →
      DepsSucceeded s.rows.children t.toTaskSpec) ∧
    ∀ a s' r r', NoExpiry s a → (runSystem (WorkflowSubmitted nodes)).step s a = some s' →
      rootOf s.rows.tasks = some r → rootOf s'.rows.tasks = some r' →
      r.status = .waitingChild → r'.status = .pending →
      ∀ t ∈ s'.rows.children, t.status = .succeeded := by
  obtain ⟨hrun, hw, hd⟩ := depsFirst_reachable h
  refine ⟨?_, ?_⟩
  · intro t ht hstatus
    apply hd t ht
    left
    rcases hstatus with hs | hs | hs | hs <;> rw [hs] <;> decide
  · intro a s' r r' hgood hstep hr hr' hwait hpending
    exact root_released hrun.shape hw hgood hstep hr hr' hwait hpending

/-- The run of the draft up to the release of the manager task. -/
def draftActions : List RunAction :=
  [.start 1 "w" true, .finish 1 "w" (.succeeded "text"), .reconcile, .review 2 true none]

theorem workflow_order_draft :
    ∃ s, (runSystem (WorkflowSubmitted draftNodes)).exec draftRun draftActions = some s ∧
      (∀ t ∈ s.rows.children, t.status = .pending ∨ t.status = .humanReview ∨
          t.status = .running ∨ t.status = .succeeded →
        DepsSucceeded s.rows.children t.toTaskSpec) ∧
      ∀ a s' r r', NoExpiry s a → (runSystem (WorkflowSubmitted draftNodes)).step s a = some s' →
        rootOf s.rows.tasks = some r → rootOf s'.rows.tasks = some r' →
        r.status = .waitingChild → r'.status = .pending →
        ∀ t ∈ s'.rows.children, t.status = .succeeded := by
  refine ⟨_, rfl, workflow_order ⟨draftRun, draftRun_submitted,
    System.path_of_allowed draftActions ?_ rfl⟩⟩
  refine System.allowed_cons trivial rfl ?_
  refine System.allowed_cons trivial rfl ?_
  refine System.allowed_cons trivial rfl ?_
  exact System.allowed_cons trivial rfl trivial

end Orchestration
end HermesPlatform
