/-
  HermesPlatform.Orchestration.Reconcile

  `AgentOrchestrator.reconcile_run`.

  A pass over a run has two phases with a commit between them.  `firstPhase`
  fails the run when a child has failed and else promotes or cancels waiting
  children by the statuses of their dependencies; `secondPhase` works on the
  rows read again and decides the status of the run.  `reconcileRun` is a pass
  with nothing in between.

  The loop over the children changes the task objects it looks the
  dependencies up in, so it sees the statuses it has already changed.
-/

import HermesPlatform.Lib.Python
import HermesPlatform.Orchestration.Records
import Mathlib.Data.List.ReduceOption

namespace HermesPlatform
namespace Orchestration

open Python

/-! ## The code -/

/-- `next((task for task in tasks if task.parent_task_id is None), None)`. -/
def rootOf (tasks : List AgentTask) : Option AgentTask :=
  tasks.find? fun t => t.parentTaskId = none

def childrenOf (root : AgentTask) (tasks : List AgentTask) : List AgentTask :=
  tasks.filter fun t => t.parentTaskId = some root.id

/-- `{task.node_key: task for task in children if task.node_key}`. -/
def byKey (children : List AgentTask) : Dict String AgentTask :=
  .ofPairs (children.filterMap fun t => (truthy t.nodeKey).map fun key => (key, t))

/-- A node key in an error text. -/
def keyText (t : AgentTask) : String := t.nodeKey.getD "None"

/-- The manager task of a failing run. -/
def failRoot (error : String) (t : AgentTask) : AgentTask :=
  if t.status = .waitingChild ∨ t.status = .pending then
    { t with status := .failed, error := some (truncate error) }.setSessionStatus .failed
  else t

/-- `_fail_run`. -/
def failRun (rows : RunRows) (root : AgentTask) (error : String) : RunRows where
  run := { rows.run with status := .failed, error := some (truncate error) }
  tasks := updateTask root.id (failRoot error) rows.tasks

/-- The task objects during the loop over the children, and `changed`. -/
structure Promotion where
  tasks : List AgentTask
  changed : List Nat

/-- A child one of whose dependencies has failed or was cancelled. -/
def cancelDependent (t : AgentTask) : AgentTask :=
  { t with status := .cancelled, error := some "dependency failed or was cancelled" }

/-- The status a waiting child is promoted to. -/
def promotedStatus (t : TaskSpec) : TaskStatus :=
  if t.nodeType = .humanApproval then .humanReview else .pending

/-- Body of the loop over the children.  A missing dependency ends the pass with
    the objects as they are. -/
def scanChild (root : AgentTask) (acc : Promotion) (task : AgentTask) :
    Except (String × List AgentTask) Promotion :=
  if task.status ≠ .waitingChild then .ok acc
  else
    -- Looked up in the objects as the loop has left them so far.
    let found := task.dependsOn.map (byKey (childrenOf root acc.tasks)).get?
    if found.any Option.isNone then
      .error ("task " ++ keyText task ++ " dependency is missing", acc.tasks)
    else
      let dependencies := found.reduceOption
      if dependencies.any fun d => d.status = .failed ∨ d.status = .cancelled then
        .ok { acc with tasks := updateTask task.id cancelDependent acc.tasks }
      else if dependencies ≠ [] ∧ dependencies.all fun d => d.status = .succeeded then
        .ok
          { tasks := updateTask task.id (fun t => { t with status := promotedStatus task.toTaskSpec })
              acc.tasks
            changed :=
              if task.nodeType = .humanApproval then acc.changed else acc.changed ++ [task.id] }
      -- Some dependency has not ended, or there is none.
      else .ok acc

/-- How the first phase ends. -/
inductive FirstPhase where
  /-- The run has failed and the pass is over. -/
  | finished (rows : RunRows)
  /-- The pass goes on after its commit; `changed` is put into the queue. -/
  | promoted (rows : RunRows) (changed : List Nat)

def firstPhase (rows : RunRows) : FirstPhase :=
  match rootOf rows.tasks with
  | none => .finished { rows with run :=
      { rows.run with status := .failed, error := some "orchestration root task is missing" } }
  | some root =>
      let children := childrenOf root rows.tasks
      match children.find? fun t => t.status = .failed with
      | some failed =>
          .finished (failRun rows root
            ((truthy failed.error).getD ("task " ++ keyText failed ++ " failed")))
      | none =>
          match foldEach (scanChild root) ⟨rows.tasks, []⟩ children with
          | .error (error, tasks) => .finished (failRun { rows with tasks := tasks } root error)
          | .ok promotion => .promoted { rows with tasks := promotion.tasks } promotion.changed

/-- `_manager_prompt`. -/
def managerPrompt (original : String) (children : List AgentTask) : String :=
  "\n".intercalate
    (["请作为 Manager Agent 汇总并校验团队结果。", "原始任务：" ++ original] ++
      children.map fun t =>
        "\n[" ++ keyText t ++ " / " ++ t.agentId ++ "]\n" ++
          (truthy t.session.output).getD "(无输出)")

/-- The manager task when all children have succeeded. -/
def releaseRoot (prompt : String) (t : AgentTask) : AgentTask :=
  { t with
    status := .pending
    session := { t.session with input := prompt }
    execution := t.execution.map fun e => { e with input := prompt } }

def secondPhase (rows : RunRows) : RunRows × List Nat :=
  match rootOf rows.tasks with
  | none => (rows, [])  -- `next` raises; the first phase has seen a root
  | some root =>
      let children := childrenOf root rows.tasks
      if children.any fun t => t.status = .humanReview then
        ({ rows with run := { rows.run with status := .humanReview } }, [])
      else
        -- Assigned whatever the status of the run is by now.
        let rows := { rows with run := { rows.run with status := .running } }
        if (children ≠ [] ∧ children.all fun t => t.status = .succeeded) ∧
            root.status = .waitingChild then
          ({ rows with tasks :=
              updateTask root.id (releaseRoot (managerPrompt rows.run.input children)) rows.tasks },
            [root.id])
        else if root.status = .succeeded then
          ({ rows with run :=
              { rows.run with status := .succeeded, output := root.session.output, error := none } },
            [])
        else if root.status = .failed then
          (failRun rows root ((truthy root.error).getD "manager Agent failed"), [])
        else (rows, [])

/-- `reconcile_run` with nothing between its phases. -/
def reconcileRun (rows : RunRows) : RunRows :=
  match firstPhase rows with
  | .finished rows' => rows'
  | .promoted rows' _ => (secondPhase rows').1

/-! ## The shape of a run -/

/-- The children of a run: distinct ids and keys, dependencies among them.
    `deps` gives the dependencies of a key. -/
structure ChildSpecs (deps : String → List String) (cs : List TaskSpec) : Prop where
  parent : ∀ t ∈ cs, t.parentTaskId = some 0
  nonzero : ∀ t ∈ cs, t.id ≠ 0
  ids : (cs.map TaskSpec.id).Nodup
  keyed : ∀ t ∈ cs, ∃ key, t.nodeKey = some key ∧ key ≠ "" ∧ t.dependsOn = deps key
  keys : (cs.map TaskSpec.nodeKey).Nodup
  known : ∀ t ∈ cs, ∀ key ∈ t.dependsOn, ∃ d ∈ cs, d.nodeKey = some key

/-- A manager task followed by its children. -/
def RunShape (deps : String → List String) (tasks : List AgentTask) : Prop :=
  ∃ r cs, specs tasks = r :: cs ∧ r.id = 0 ∧ r.parentTaskId = none ∧ ChildSpecs deps cs

theorem RunShape.congr {deps : String → List String} {tasks tasks' : List AgentTask}
    (h : RunShape deps tasks) (hspecs : specs tasks' = specs tasks) : RunShape deps tasks' := by
  unfold RunShape
  rw [hspecs]
  exact h

/-- The parts of a run's tasks. -/
structure Split (deps : String → List String) (tasks : List AgentTask) (r : AgentTask)
    (cs : List AgentTask) : Prop where
  eq : tasks = r :: cs
  id : r.id = 0
  parent : r.parentTaskId = none
  specs : ChildSpecs deps (specs cs)

theorem RunShape.split {deps : String → List String} {tasks : List AgentTask}
    (h : RunShape deps tasks) : ∃ r cs, Split deps tasks r cs := by
  obtain ⟨r, cs, hspecs, hid, hparent, hcs⟩ := h
  cases tasks with
  | nil => cases hspecs
  | cons r' cs' =>
      rw [specs, List.map_cons, List.cons.injEq] at hspecs
      obtain ⟨rfl, rfl⟩ := hspecs
      exact ⟨r', cs', rfl, hid, hparent, hcs⟩

theorem Split.shape {deps : String → List String} {tasks : List AgentTask} {r : AgentTask}
    {cs : List AgentTask} (h : Split deps tasks r cs) : RunShape deps tasks :=
  ⟨r.toTaskSpec, Orchestration.specs cs, by rw [h.eq]; rfl, h.id, h.parent, h.specs⟩

section Children

variable {deps : String → List String} {cs : List AgentTask}

theorem ChildSpecs.child_parent (h : ChildSpecs deps (specs cs)) {t : AgentTask} (ht : t ∈ cs) :
    t.parentTaskId = some 0 :=
  h.parent _ (List.mem_map.mpr ⟨t, ht, rfl⟩)

theorem ChildSpecs.child_nonzero (h : ChildSpecs deps (specs cs)) {t : AgentTask} (ht : t ∈ cs) :
    t.id ≠ 0 :=
  h.nonzero _ (List.mem_map.mpr ⟨t, ht, rfl⟩)

theorem ChildSpecs.child_key (h : ChildSpecs deps (specs cs)) {t : AgentTask} (ht : t ∈ cs) :
    ∃ key, t.nodeKey = some key ∧ key ≠ "" ∧ t.dependsOn = deps key :=
  h.keyed _ (List.mem_map.mpr ⟨t, ht, rfl⟩)

theorem ChildSpecs.child_known (h : ChildSpecs deps (specs cs)) {t : AgentTask} (ht : t ∈ cs)
    {key : String} (hkey : key ∈ t.dependsOn) : ∃ d ∈ cs, d.nodeKey = some key := by
  obtain ⟨d, hd, hdkey⟩ := h.known _ (List.mem_map.mpr ⟨t, ht, rfl⟩) key hkey
  obtain ⟨u, hu, rfl⟩ := List.mem_map.mp hd
  exact ⟨u, hu, hdkey⟩

theorem ChildSpecs.eq_of_id (h : ChildSpecs deps (specs cs)) {t u : AgentTask} (ht : t ∈ cs)
    (hu : u ∈ cs) (hid : t.id = u.id) : t = u := by
  have hnodup : (cs.map fun t => t.id).Nodup := by
    have := h.ids
    rwa [specs, List.map_map] at this
  exact List.inj_on_of_nodup_map hnodup ht hu hid

theorem ChildSpecs.eq_of_key (h : ChildSpecs deps (specs cs)) {t u : AgentTask} (ht : t ∈ cs)
    (hu : u ∈ cs) (hkey : t.nodeKey = u.nodeKey) : t = u := by
  have hnodup : (cs.map fun t => t.nodeKey).Nodup := by
    have := h.keys
    rwa [specs, List.map_map] at this
  exact List.inj_on_of_nodup_map hnodup ht hu hkey

/-- `by_key` finds the child of a key. -/
theorem get?_byKey (h : ChildSpecs deps (specs cs)) {key : String} {d : AgentTask} :
    (byKey cs).get? key = some d ↔ d ∈ cs ∧ d.nodeKey = some key := by
  have hsound : ∀ v, (byKey cs).get? key = some v → v ∈ cs ∧ v.nodeKey = some key := by
    -- An entry of the dictionary comes from a child with that key.
    intro v hv
    have hmem := Dict.mem_of_mem_ofPairs (Dict.mem_of_get? hv)
    obtain ⟨t, ht, hpair⟩ := List.mem_filterMap.mp hmem
    obtain ⟨k, hk, heq⟩ := Option.map_eq_some_iff.mp hpair
    cases heq
    exact ⟨ht, (truthy_eq_some.mp hk).1⟩
  refine ⟨?_, ?_⟩
  · exact hsound d
  · -- The child has an entry, and no other child has its key.
    rintro ⟨hd, hkey⟩
    obtain ⟨k, hk, hne, -⟩ := h.child_key hd
    rw [hkey, Option.some.injEq] at hk
    subst hk
    have hpair : key ∈ (cs.filterMap fun t =>
        (truthy t.nodeKey).map fun key => (key, t)).map Prod.fst := by
      refine List.mem_map.mpr ⟨(key, d), List.mem_filterMap.mpr ⟨d, hd, ?_⟩, rfl⟩
      rw [truthy_eq_some.mpr ⟨hkey, hne⟩]
      rfl
    obtain ⟨v, hv⟩ := Dict.exists_get?_ofPairs hpair
    obtain ⟨hvmem, hvkey⟩ := hsound v hv
    rw [h.eq_of_key hd hvmem (hkey.trans hvkey.symm)]
    exact hv

end Children

theorem rootOf_split {deps : String → List String} {tasks : List AgentTask} {r : AgentTask}
    {cs : List AgentTask} (h : Split deps tasks r cs) : rootOf tasks = some r := by
  rw [h.eq, rootOf, List.find?_cons_of_pos (by simp [h.parent])]

theorem childrenOf_split {deps : String → List String} {tasks : List AgentTask} {r : AgentTask}
    {cs : List AgentTask} (h : Split deps tasks r cs) : childrenOf r tasks = cs := by
  rw [h.eq, childrenOf, List.filter_cons_of_neg (by simp [h.parent])]
  apply List.filter_eq_self.mpr
  intro t ht
  simp [h.specs.child_parent ht, h.id]

/-- An update of the manager task leaves the children alone. -/
theorem updateTask_root {deps : String → List String} {tasks : List AgentTask} {r : AgentTask}
    {cs : List AgentTask} (h : Split deps tasks r cs) (f : AgentTask → AgentTask) :
    updateTask r.id f tasks = f r :: cs := by
  rw [h.eq, updateTask, List.map_cons, if_pos rfl]
  congr 1
  rw [List.map_congr_left (g := id), List.map_id]
  -- No child has the id of the manager task.
  intro t ht
  have hne : t.id ≠ r.id := by
    rw [h.id]
    exact h.specs.child_nonzero ht
  rw [if_neg hne]
  rfl

/-! ## The loop over the children -/

/-- Every dependency of `t` is a succeeded child. -/
def DepsSucceeded (cs : List AgentTask) (t : TaskSpec) : Prop :=
  ∀ key ∈ t.dependsOn, ∃ d ∈ cs, d.nodeKey = some key ∧ d.status = .succeeded

/-- `t` waits, and all it waits for has succeeded. -/
def Ready (cs : List AgentTask) (t : AgentTask) : Prop :=
  t.status = .waitingChild ∧ t.dependsOn ≠ [] ∧ DepsSucceeded cs t.toTaskSpec

/-- What the loop can do to a task: promote it when it is ready, or cancel it
    when it waits. -/
def Promoted (cs : List AgentTask) (t t' : AgentTask) : Prop :=
  t'.toTaskSpec = t.toTaskSpec ∧
    (t' = t ∨
      (t.parentTaskId = some 0 ∧ Ready cs t ∧ t'.status = promotedStatus t.toTaskSpec) ∨
      (t.parentTaskId = some 0 ∧ t.status = .waitingChild ∧ t'.status = .cancelled))

theorem Promoted.eq_of_ne {cs : List AgentTask} {t t' : AgentTask} (h : Promoted cs t t')
    (hne : t.status ≠ .waitingChild) : t' = t := by
  rcases h.2 with heq | ⟨-, hready, -⟩ | ⟨-, hwait, -⟩
  · exact heq
  · exact absurd hready.1 hne
  · exact absurd hwait hne

theorem promotedStatus_cases (t : TaskSpec) :
    promotedStatus t = .humanReview ∨ promotedStatus t = .pending := by
  unfold promotedStatus
  split
  · exact Or.inl rfl
  · exact Or.inr rfl

/-- The loop does not make a task succeed. -/
theorem Promoted.succeeded {cs : List AgentTask} {t t' : AgentTask} (h : Promoted cs t t')
    (hs : t'.status = .succeeded) : t' = t := by
  rcases h.2 with heq | ⟨-, -, hstatus⟩ | ⟨-, -, hstatus⟩
  · exact heq
  · rw [hs] at hstatus
    rcases promotedStatus_cases t.toTaskSpec with hp | hp <;> rw [hp] at hstatus <;> cases hstatus
  · rw [hs] at hstatus
    cases hstatus

theorem Promoted.refl (cs : List AgentTask) (t : AgentTask) : Promoted cs t t :=
  ⟨rfl, Or.inl rfl⟩

/-- What holds of the tasks after the children in `seen`. -/
structure LoopSpec (r : AgentTask) (cs : List AgentTask) (acc : Promotion)
    (seen : List AgentTask) : Prop where
  seen_subset : seen ⊆ cs
  evolves : Evolves (Promoted cs) (r :: cs) acc.tasks
  promotes : ∀ t ∈ seen, Ready cs t →
    ∃ t' ∈ acc.tasks, t'.id = t.id ∧ t'.status = promotedStatus t.toTaskSpec

theorem specs_of_evolves {R : AgentTask → AgentTask → Prop}
    (hR : ∀ t t', R t t' → t'.toTaskSpec = t.toTaskSpec) {tasks tasks' : List AgentTask}
    (h : Evolves R tasks tasks') : specs tasks' = specs tasks := by
  unfold specs
  induction h with
  | nil => rfl
  | cons hhead _ ih => rw [List.map_cons, List.map_cons, ih, hR _ _ hhead]

section Loop

variable {deps : String → List String} {tasks : List AgentTask} {r : AgentTask}
  {cs : List AgentTask}

/-- The tasks during the loop: the manager task, and the children as far as
    they have been changed. -/
theorem LoopSpec.split (h : Split deps tasks r cs) {acc : Promotion} {seen : List AgentTask}
    (hacc : LoopSpec r cs acc seen) :
    ∃ cs', Split deps acc.tasks r cs' ∧ Evolves (Promoted cs) cs cs' := by
  have hevolves := hacc.evolves
  have hspecs := specs_of_evolves (fun _ _ hR => hR.1) hevolves
  cases htasks : acc.tasks with
  | nil =>
      rw [htasks] at hevolves
      cases hevolves
  | cons r' cs' =>
      rw [htasks] at hevolves hspecs
      rw [Evolves, List.forall₂_cons] at hevolves
      obtain ⟨hroot, hchildren⟩ := hevolves
      -- The loop moves tasks with a parent only, so the manager task is as it was.
      have hr' : r' = r := by
        rcases hroot.2 with heq | ⟨hparent, -⟩ | ⟨hparent, -⟩
        · exact heq
        · rw [h.parent] at hparent
          cases hparent
        · rw [h.parent] at hparent
          cases hparent
      subst hr'
      have hcs : specs cs' = specs cs := specs_of_evolves (fun _ _ hR => hR.1) hchildren
      exact ⟨cs', ⟨rfl, h.id, h.parent, by rw [hcs]; exact h.specs⟩, hchildren⟩

/-- The dependencies the body of the loop looks up. -/
theorem mem_dependencies {cs' : List AgentTask} (hcs : ChildSpecs deps (specs cs'))
    {t d : AgentTask} :
    d ∈ (t.dependsOn.map (byKey cs').get?).reduceOption ↔
      ∃ key ∈ t.dependsOn, d ∈ cs' ∧ d.nodeKey = some key := by
  rw [List.reduceOption_mem_iff, List.mem_map]
  refine ⟨?_, ?_⟩
  · rintro ⟨key, hkey, hget⟩
    exact ⟨key, hkey, (get?_byKey hcs).mp hget⟩
  · rintro ⟨key, hkey, hd⟩
    exact ⟨key, hkey, (get?_byKey hcs).mpr hd⟩

/-- A waiting child is ready iff the dependencies the loop finds for it, in the
    objects as they are now, are some and have all succeeded. -/
theorem ready_iff (h : Split deps tasks r cs) {cs' : List AgentTask} {r' : AgentTask}
    {tasks' : List AgentTask} (h' : Split deps tasks' r' cs') (hevolves : Evolves (Promoted cs) cs cs')
    {t : AgentTask} (ht : t ∈ cs) (hwait : t.status = .waitingChild) :
    Ready cs t ↔
      (t.dependsOn.map (byKey cs').get?).reduceOption ≠ [] ∧
      ∀ d ∈ (t.dependsOn.map (byKey cs').get?).reduceOption, d.status = .succeeded := by
  refine ⟨?_, ?_⟩
  · rintro ⟨-, hne, hdeps⟩
    -- What had succeeded before the loop is left as it is.
    have hfound : ∀ key ∈ t.dependsOn, ∃ d ∈ cs', d.nodeKey = some key ∧ d.status = .succeeded := by
      intro key hkey
      obtain ⟨d, hd, hdkey, hds⟩ := hdeps key hkey
      obtain ⟨d', hd', hR⟩ := hevolves.exists_after hd
      have heq : d' = d := hR.eq_of_ne (by rw [hds]; decide)
      subst heq
      exact ⟨d', hd', hdkey, hds⟩
    refine ⟨?_, ?_⟩
    · obtain ⟨key, hkey⟩ := List.exists_mem_of_ne_nil _ hne
      obtain ⟨d, hd, hdkey, -⟩ := hfound key hkey
      exact List.ne_nil_of_mem ((mem_dependencies h'.specs).mpr ⟨key, hkey, hd, hdkey⟩)
    · intro d hd
      obtain ⟨key, hkey, hmem, hdkey⟩ := (mem_dependencies h'.specs).mp hd
      obtain ⟨u, hu, hukey, hus⟩ := hfound key hkey
      rw [h'.specs.eq_of_key hmem hu (hdkey.trans hukey.symm)]
      exact hus
  · rintro ⟨hne, hall⟩
    refine ⟨hwait, ?_, ?_⟩
    · rintro hnil
      rw [hnil] at hne
      exact hne rfl
    · intro key hkey
      obtain ⟨d, hd, hdkey⟩ := h.specs.child_known ht hkey
      obtain ⟨d', hd', hR⟩ := hevolves.exists_after hd
      have hspec : d'.nodeKey = d.nodeKey := congrArg TaskSpec.nodeKey hR.1
      have hds := hall d' ((mem_dependencies h'.specs).mpr ⟨key, hkey, hd', hspec.trans hdkey⟩)
      -- The loop makes nothing succeed, so `d` had succeeded before it.
      have heq : d' = d := hR.succeeded hds
      subst heq
      exact ⟨d', hd, hdkey, hds⟩

/-- A child that is not ready and keeps its status. -/
theorem LoopSpec.keep {acc : Promotion} {seen : List AgentTask} {t : AgentTask} (ht : t ∈ cs)
    (hacc : LoopSpec r cs acc seen) (hnot : ¬ Ready cs t) : LoopSpec r cs acc (seen ++ [t]) := by
  refine ⟨List.append_subset.mpr ⟨hacc.seen_subset, by simpa using ht⟩, hacc.evolves, ?_⟩
  intro u hu hready
  rcases List.mem_append.mp hu with hu | hu
  · exact hacc.promotes u hu hready
  · rw [List.mem_singleton.mp hu] at hready
    exact absurd hready hnot

/-- A child whose status the loop sets. -/
theorem LoopSpec.update (h : Split deps tasks r cs) {acc : Promotion} {seen : List AgentTask}
    {t : AgentTask} (ht : t ∈ cs) (hacc : LoopSpec r cs acc seen) {f : AgentTask → AgentTask}
    (status : TaskStatus) {changed : List Nat}
    (hspec : ∀ u, (f u).toTaskSpec = u.toTaskSpec) (hstatus : ∀ u, (f u).status = status)
    (hcase : (Ready cs t ∧ status = promotedStatus t.toTaskSpec) ∨
      (¬ Ready cs t ∧ t.status = .waitingChild ∧ status = .cancelled)) :
    LoopSpec r cs ⟨updateTask t.id f acc.tasks, changed⟩ (seen ++ [t]) := by
  have hparent : t.parentTaskId = some 0 := h.specs.child_parent ht
  -- The object with the id of `t` is what became of `t`.
  have hself : ∀ u ∈ r :: cs, u.id = t.id → u = t := by
    intro u hu hid
    rcases List.mem_cons.mp hu with rfl | hu
    · rw [h.id] at hid
      exact absurd hid.symm (h.specs.child_nonzero ht)
    · exact h.specs.eq_of_id hu ht hid
  -- The new status is one the loop may give to `t`.
  have hstep : ∀ u ∈ r :: cs, ∀ u', Promoted cs u u' → u'.id = t.id → Promoted cs u (f u') := by
    intro u hu u' hR hid
    have hut : u = t := hself u hu ((congrArg TaskSpec.id hR.1).symm.trans hid)
    subst hut
    refine ⟨(hspec u').trans hR.1, Or.inr ?_⟩
    rcases hcase with ⟨hready, hs⟩ | ⟨-, hwait, hs⟩
    · exact Or.inl ⟨hparent, hready, (hstatus u').trans hs⟩
    · exact Or.inr ⟨hparent, hwait, (hstatus u').trans hs⟩
  refine ⟨List.append_subset.mpr ⟨hacc.seen_subset, by simpa using ht⟩, ?_, ?_⟩
  · -- Induction on the tasks: the update moves `t` and keeps the others.
    have hmem : ∀ (l l' : List AgentTask), l ⊆ r :: cs → List.Forall₂ (Promoted cs) l l' →
        List.Forall₂ (Promoted cs) l (updateTask t.id f l') := by
      intro l l' hsub hl
      induction hl with
      | nil => exact .nil
      | cons hR _ ih =>
          obtain ⟨hu, hrest⟩ := List.cons_subset.mp hsub
          refine .cons ?_ (ih hrest)
          beta_reduce
          split
          · rename_i hid
            exact hstep _ hu _ hR hid
          · exact hR
    exact hmem _ _ (List.Subset.refl _) hacc.evolves
  · intro u hu hready
    have hucs : u ∈ cs := by
      rcases List.mem_append.mp hu with hu | hu
      · exact hacc.seen_subset hu
      · rw [List.mem_singleton.mp hu]
        exact ht
    by_cases hid : u.id = t.id
    · -- The task the loop has just set.
      have hut : u = t := h.specs.eq_of_id hucs ht hid
      subst hut
      obtain ⟨u', hu', hR⟩ := hacc.evolves.exists_after (List.mem_cons_of_mem _ hucs)
      have hid' : u'.id = u.id := congrArg TaskSpec.id hR.1
      refine ⟨f u', List.mem_map.mpr ⟨u', hu', if_pos hid'⟩,
        (congrArg TaskSpec.id (hspec u')).trans hid', ?_⟩
      rcases hcase with ⟨-, hs⟩ | ⟨hnot, -⟩
      · exact (hstatus u').trans hs
      · exact absurd hready hnot
    · rcases List.mem_append.mp hu with hu | hu
      · -- A task promoted earlier has another id.
        obtain ⟨u', hu', hid', hs⟩ := hacc.promotes u hu hready
        refine ⟨u', List.mem_map.mpr ⟨u', hu', if_neg ?_⟩, hid', hs⟩
        rw [hid']
        exact hid
      · exact absurd (by rw [List.mem_singleton.mp hu]) hid

/-- One turn of the loop: it does not raise, and keeps the specification. -/
theorem scanChild_spec (h : Split deps tasks r cs) {acc : Promotion} {seen : List AgentTask}
    {t : AgentTask} (ht : t ∈ cs) (hacc : LoopSpec r cs acc seen) :
    ∃ acc', scanChild r acc t = .ok acc' ∧ LoopSpec r cs acc' (seen ++ [t]) := by
  by_cases hwait : t.status = .waitingChild
  · obtain ⟨cs', hsplit, hevolves⟩ := hacc.split h
    have hready := ready_iff h hsplit hevolves ht hwait
    -- No dependency is missing: all of them are children.
    have hfound : (t.dependsOn.map (byKey cs').get?).any Option.isNone = false := by
      rw [List.any_eq_false]
      intro o ho
      obtain ⟨key, hkey, rfl⟩ := List.mem_map.mp ho
      obtain ⟨d, hd, hdkey⟩ := h.specs.child_known ht hkey
      obtain ⟨d', hd', hR⟩ := hevolves.exists_after hd
      have hspec : d'.nodeKey = d.nodeKey := congrArg TaskSpec.nodeKey hR.1
      rw [(get?_byKey hsplit.specs).mpr ⟨hd', hspec.trans hdkey⟩]
      simp
    simp only [scanChild, childrenOf_split hsplit, if_neg (not_not.mpr hwait), hfound,
      Bool.false_eq_true, if_false]
    split
    · rename_i hfailed
      refine ⟨_, rfl, hacc.update h ht .cancelled (fun _ => rfl) (fun _ => rfl) ?_⟩
      -- A failed or cancelled dependency means that `t` is not ready.
      refine Or.inr ⟨?_, hwait, rfl⟩
      intro hr
      obtain ⟨d, hd, hbad⟩ := List.any_eq_true.mp hfailed
      have hds := (hready.mp hr).2 d hd
      rw [hds] at hbad
      simp at hbad
    · split
      · rename_i hsucceeded
        have hr : Ready cs t := hready.mpr
          ⟨hsucceeded.1, by simpa using hsucceeded.2⟩
        exact ⟨_, rfl, hacc.update h ht _ (fun _ => rfl) (fun _ => rfl) (Or.inl ⟨hr, rfl⟩)⟩
      · rename_i hsucceeded
        refine ⟨acc, rfl, hacc.keep ht ?_⟩
        intro hr
        obtain ⟨hne, hall⟩ := hready.mp hr
        exact hsucceeded ⟨hne, by simpa using hall⟩
  · refine ⟨acc, by rw [scanChild, if_pos hwait], hacc.keep ht ?_⟩
    exact fun hr => hwait hr.1

/-- **The loop over the children.** It completes, and does to the tasks what
    `LoopSpec` says. -/
theorem scanChildren_spec (h : Split deps tasks r cs) :
    ∃ promotion, foldEach (scanChild r) ⟨tasks, []⟩ cs = .ok promotion ∧
      LoopSpec r cs promotion cs := by
  have hinit : LoopSpec r cs ⟨tasks, []⟩ [] := by
    refine ⟨List.nil_subset _, ?_, by simp⟩
    rw [h.eq]
    exact List.forall₂_same.mpr fun t _ => Promoted.refl cs t
  exact foldEach_total (P := LoopSpec r cs)
    (fun acc seen t ht hacc => scanChild_spec h ht hacc) cs _ [] (List.Subset.refl _) hinit

end Loop

/-! ## What a pass can do -/

section Phases

variable {deps : String → List String} {rows : RunRows} {r : AgentTask} {cs : List AgentTask}

/-- How the first phase ends. -/
inductive FirstSpec (rows : RunRows) (r : AgentTask) (cs : List AgentTask) :
    FirstPhase → Prop where
  /-- A child has failed. -/
  | failed (t : AgentTask) (error : String) (mem : t ∈ cs) (status : t.status = .failed) :
      FirstSpec rows r cs (.finished (failRun rows r error))
  /-- No child has failed, and the loop did its work. -/
  | promoted (tasks : List AgentTask) (changed : List Nat)
      (healthy : ∀ t ∈ cs, t.status ≠ .failed) (loop : LoopSpec r cs ⟨tasks, changed⟩ cs) :
      FirstSpec rows r cs (.promoted { rows with tasks := tasks } changed)

theorem firstPhase_spec (h : Split deps rows.tasks r cs) :
    FirstSpec rows r cs (firstPhase rows) := by
  simp only [firstPhase, rootOf_split h, childrenOf_split h]
  split
  · rename_i t hfind
    have hstatus := List.find?_some hfind
    exact .failed t _ (List.mem_of_find?_eq_some hfind) (by simpa using hstatus)
  · rename_i hnone
    have hhealthy : ∀ t ∈ cs, t.status ≠ .failed := by
      simpa using List.find?_eq_none.mp hnone
    obtain ⟨promotion, hloop, hspec⟩ := scanChildren_spec h
    rw [hloop]
    exact .promoted promotion.tasks promotion.changed hhealthy hspec

/-- How the second phase ends: the status of the run and the tasks. -/
inductive SecondSpec (r : AgentTask) (cs : List AgentTask) (out : RunRows) : Prop where
  /-- A child waits for its approval. -/
  | reviewing (t : AgentTask) (mem : t ∈ cs) (status : t.status = .humanReview)
      (run : out.run.status = .humanReview) (tasks : out.tasks = r :: cs)
  /-- Every child has succeeded and the manager task starts. -/
  | released (prompt : String) (nonempty : cs ≠ [])
      (succeeded : ∀ t ∈ cs, t.status = .succeeded) (waiting : r.status = .waitingChild)
      (run : out.run.status = .running) (tasks : out.tasks = releaseRoot prompt r :: cs)
  /-- The manager task has ended, and with it the run. -/
  | succeeded (root : r.status = .succeeded) (run : out.run.status = .succeeded)
      (tasks : out.tasks = r :: cs)
  | failed (root : r.status = .failed) (run : out.run.status = .failed)
      (tasks : out.tasks = r :: cs)
  /-- Nothing to do. -/
  | waiting (open_ : r.status ≠ .succeeded ∧ r.status ≠ .failed)
      (notReady : ¬ (cs ≠ [] ∧ (∀ t ∈ cs, t.status = .succeeded) ∧ r.status = .waitingChild))
      (run : out.run.status = .running) (tasks : out.tasks = r :: cs)

theorem secondPhase_spec (h : Split deps rows.tasks r cs) :
    SecondSpec r cs (secondPhase rows).1 := by
  simp only [secondPhase, rootOf_split h, childrenOf_split h]
  split
  · rename_i hreview
    obtain ⟨t, ht, hstatus⟩ := List.any_eq_true.mp hreview
    exact .reviewing t ht (by simpa using hstatus) rfl h.eq
  · split
    · rename_i hall
      obtain ⟨⟨hne, hsucceeded⟩, hwaiting⟩ := hall
      exact .released _ hne (by simpa using hsucceeded) hwaiting rfl (updateTask_root h _)
    · rename_i hnot
      split
      · rename_i hroot
        exact .succeeded hroot rfl h.eq
      · rename_i hsucceeded
        split
        · rename_i hroot
          refine .failed hroot rfl ?_
          simp only [failRun]
          rw [updateTask_root h, failRoot, if_neg (by rw [hroot]; decide)]
        · rename_i hfailed
          refine .waiting ⟨hsucceeded, hfailed⟩ ?_ rfl h.eq
          rintro ⟨hne, hall, hwaiting⟩
          exact hnot ⟨⟨hne, by simpa using hall⟩, hwaiting⟩

theorem failRoot_spec (error : String) (t : AgentTask) :
    (failRoot error t).toTaskSpec = t.toTaskSpec := by
  unfold failRoot
  split <;> rfl

/-- What a pass can do to the manager task. -/
inductive RootMoved (cs' : List AgentTask) (r r' : AgentTask) : Prop where
  | kept (same : r' = r)
  | failed (open_ : r.status = .waitingChild ∨ r.status = .pending) (status : r'.status = .failed)
  | released (waiting : r.status = .waitingChild) (status : r'.status = .pending)
      (nonempty : cs' ≠ []) (succeeded : ∀ t ∈ cs', t.status = .succeeded)

theorem failRoot_moved (error : String) (cs' : List AgentTask) (r : AgentTask) :
    RootMoved cs' r (failRoot error r) := by
  unfold failRoot
  split
  · rename_i hopen
    exact .failed hopen rfl
  · exact .kept rfl

theorem SecondSpec.moved {out : RunRows} (h : SecondSpec r cs out) :
    ∃ r', out.tasks = r' :: cs ∧ r'.toTaskSpec = r.toTaskSpec ∧ RootMoved cs r r' := by
  cases h with
  | reviewing t mem status run tasks => exact ⟨r, tasks, rfl, .kept rfl⟩
  | released prompt nonempty succeeded waiting run tasks =>
      exact ⟨_, tasks, rfl, .released waiting rfl nonempty succeeded⟩
  | succeeded root run tasks => exact ⟨r, tasks, rfl, .kept rfl⟩
  | failed root run tasks => exact ⟨r, tasks, rfl, .kept rfl⟩
  | waiting open_ notReady run tasks => exact ⟨r, tasks, rfl, .kept rfl⟩

/-- How a pass with nothing in between ends. -/
inductive PassSpec (r : AgentTask) (cs : List AgentTask) (out : RunRows) : Prop where
  /-- A child has failed; a manager task that has not started fails too. -/
  | failed (t : AgentTask) (error : String) (mem : t ∈ cs) (status : t.status = .failed)
      (run : out.run.status = .failed) (tasks : out.tasks = failRoot error r :: cs)
  /-- No child has failed: the loop made `cs'` of the children. -/
  | settled (cs' : List AgentTask) (healthy : ∀ t ∈ cs, t.status ≠ .failed)
      (evolves : Evolves (Promoted cs) cs cs')
      (promotes : ∀ t ∈ cs, Ready cs t →
        ∃ t' ∈ cs', t'.id = t.id ∧ t'.status = promotedStatus t.toTaskSpec)
      (second : SecondSpec r cs' out)

theorem reconcileRun_spec (h : Split deps rows.tasks r cs) :
    PassSpec r cs (reconcileRun rows) := by
  have hfirst := firstPhase_spec h
  unfold reconcileRun
  cases hphase : firstPhase rows with
  | finished rows' =>
      rw [hphase] at hfirst
      cases hfirst with
      | failed t error mem status =>
          exact .failed t error mem status rfl (updateTask_root h (failRoot error))
  | promoted rows' changed =>
      rw [hphase] at hfirst
      cases hfirst with
      | promoted tasks changed healthy loop =>
          -- The second phase starts from the rows the loop has left.
          obtain ⟨cs', hsplit, hevolves⟩ := loop.split h
          refine .settled cs' healthy hevolves ?_ (secondPhase_spec hsplit)
          intro t ht hready
          obtain ⟨t', ht', hid, hstatus⟩ := loop.promotes t ht hready
          rw [hsplit.eq] at ht'
          rcases List.mem_cons.mp ht' with rfl | ht'
          · rw [h.id] at hid
            exact absurd hid.symm (h.specs.child_nonzero ht)
          · exact ⟨t', ht', hid, hstatus⟩

/-- A pass keeps the shape of the run. -/
theorem specs_reconcileRun (h : RunShape deps rows.tasks) :
    specs (reconcileRun rows).tasks = specs rows.tasks := by
  obtain ⟨r, cs, hsplit⟩ := h.split
  rw [hsplit.eq]
  cases reconcileRun_spec hsplit with
  | failed t error mem status run tasks =>
      rw [tasks, specs, List.map_cons, failRoot_spec]
      rfl
  | settled cs' healthy evolves promotes second =>
      obtain ⟨r', htasks, hspec, -⟩ := second.moved
      have hcs : specs cs' = specs cs := specs_of_evolves (fun _ _ hR => hR.1) evolves
      rw [htasks]
      unfold specs at hcs ⊢
      rw [List.map_cons, List.map_cons, hspec, hcs]

/-- The tasks after a pass. -/
theorem reconcileRun_moved (h : Split deps rows.tasks r cs) :
    ∃ r' cs', Split deps (reconcileRun rows).tasks r' cs' ∧ RootMoved cs' r r' ∧
      Evolves (Promoted cs) cs cs' := by
  have hshape : RunShape deps (reconcileRun rows).tasks :=
    h.shape.congr (specs_reconcileRun h.shape)
  obtain ⟨r₁, cs₁, hsplit⟩ := hshape.split
  cases reconcileRun_spec h with
  | failed t error mem status run tasks =>
      obtain ⟨rfl, rfl⟩ := List.cons.inj (tasks.symm.trans hsplit.eq)
      exact ⟨_, _, hsplit, failRoot_moved error _ r,
        List.forall₂_same.mpr fun t _ => Promoted.refl _ t⟩
  | settled cs' healthy evolves promotes second =>
      obtain ⟨r', htasks, -, hmoved⟩ := second.moved
      obtain ⟨rfl, rfl⟩ := List.cons.inj (htasks.symm.trans hsplit.eq)
      exact ⟨_, _, hsplit, hmoved, evolves⟩

end Phases

end Orchestration
end HermesPlatform
