/-
  HermesPlatform.Orchestration.Continuation

  Where a run can go from a state: to every task whose execution is open.

  While a task waits, each operation of a run that spares its children brings the
  rows nearer to the end (`weight`): a worker starts a queued task, ends a running
  one, a person approves a task, and when only waiting and succeeded children are
  left, a pass puts the next ones or the manager task into the queue.
-/

import HermesPlatform.Orchestration.Progress
import HermesPlatform.Orchestration.Sparing
import Mathlib.Algebra.GroupWithZero.Nat

namespace HermesPlatform
namespace Orchestration

open Python Transition

/-! ## A pass that nothing interferes with -/

/-- What a pass keeps of the object of a task. -/
structure Recorded (l c : AgentTask) : Prop where
  spec : c.toTaskSpec = l.toTaskSpec
  execution : c.execution.isSome = l.execution.isSome

theorem commitColumn_self {α : Type} [DecidableEq α] (loaded current : α) :
    commitColumn loaded current loaded = current := by
  unfold commitColumn
  split
  · rename_i hsame
    exact hsame.symm
  · rfl

theorem commitExecution_self (loaded current : ExecutionLog) :
    commitExecution loaded current loaded = current := by
  simp only [commitExecution, commitColumn_self]

theorem commitSession_self (loaded current : AgentSession) :
    commitSession loaded current loaded = current := by
  simp only [commitSession, commitColumn_self]

/-- A row that is as it was read becomes the object. -/
theorem commitTask_self {l c : AgentTask} (h : Recorded l c) : commitTask l c l = c := by
  have hexecution : (commitTask l c l).execution = c.execution := by
    have hsome := h.execution
    simp only [commitTask]
    cases hl : l.execution with
    | none =>
        rw [hl, Option.isSome_none, Option.isSome_eq_false_iff, Option.isNone_iff_eq_none] at hsome
        rw [hsome]
        rfl
    | some x =>
        rw [hl] at hsome
        obtain ⟨y, hy⟩ := Option.isSome_iff_exists.mp hsome
        rw [hy, Option.map_some]
        exact congrArg some (commitExecution_self x y)
  have hfields : commitTask l c l = { c with
      toTaskSpec := l.toTaskSpec
      execution := (commitTask l c l).execution } := by
    simp only [commitTask, commitColumn_self, commitSession_self]
  rw [hfields, hexecution, ← h.spec]

theorem commit_self {rows rows' : RunRows} (hids : (rows.tasks.map fun t => t.id).Nodup)
    (h : Evolves Recorded rows.tasks rows'.tasks) : commit rows rows' rows = rows' := by
  have hrun : commitRun rows.run rows'.run rows.run = rows'.run := by
    simp only [commitRun, commitColumn_self]
  have htasks : (commit rows rows' rows).tasks = rows'.tasks := by
    apply List.ext_getElem
    · rw [commit, List.length_map]
      exact h.length_eq
    · intro i hi hi'
      have hlt : i < rows.tasks.length := h.length_eq ▸ hi'
      have hR : Recorded rows.tasks[i] rows'.tasks[i] := List.Forall₂.get h hlt hi'
      simp only [commit, List.getElem_map]
      split
      · rename_i p hp
        -- The pair with the id of the row is the one at its place.
        have hid : p.1.id = rows.tasks[i].id := by simpa using List.find?_some hp
        obtain ⟨j, hj, hpj⟩ := List.getElem_of_mem (List.mem_of_find?_eq_some hp)
        rw [List.getElem_zip] at hpj
        have hjlt : j < rows.tasks.length := by
          rw [List.length_zip] at hj
          omega
        have hij : j = i := by
          have hlength : (rows.tasks.map fun t => t.id).length = rows.tasks.length :=
            List.length_map _
          have hsame : (rows.tasks.map fun t => t.id).get ⟨j, hlength ▸ hjlt⟩ =
              (rows.tasks.map fun t => t.id).get ⟨i, hlength ▸ hlt⟩ := by
            rw [List.get_eq_getElem, List.get_eq_getElem, List.getElem_map, List.getElem_map, ← hid,
              ← hpj]
          exact congrArg Fin.val (List.nodup_iff_injective_get.mp hids hsame)
        subst hij
        rw [← hpj]
        exact commitTask_self hR
      · rename_i hnone
        have hpair : (rows.tasks[i], rows'.tasks[i]) ∈ rows.tasks.zip rows'.tasks := by
          refine List.mem_iff_getElem.mpr ⟨i, ?_, List.getElem_zip⟩
          rw [List.length_zip]
          omega
        have hne := List.find?_eq_none.mp hnone _ hpair
        simp at hne
  rw [commit] at htasks ⊢
  simp only at htasks
  rw [hrun, htasks]

/-- A session that holds every row, as it is, reads the rows. -/
theorem listRunTasks_self {deps : String → List String} {db : RunRows}
    (h : RunShape deps db.tasks) : listRunTasks db.tasks db = db.tasks := by
  unfold listRunTasks
  conv_rhs => rw [← List.map_id db.tasks]
  apply List.map_congr_left
  intro d hd
  cases hfind : db.tasks.find? fun o => o.id = d.id with
  | none => rfl
  | some o =>
      have hid : o.id = d.id := by simpa using List.find?_some hfind
      exact h.eq_of_id (List.mem_of_find?_eq_some hfind) hd hid

theorem listRunTasks_nil (db : RunRows) : listRunTasks [] db = db.tasks := by
  unfold listRunTasks
  exact List.map_id db.tasks

/-- The state with one more pass. -/
def OperationState.withPass (s : OperationState) (db : RunRows) (p : Pass) : OperationState :=
  { s with race := { s.race with db := db, passes := s.race.passes ++ [p] } }

theorem replaceAt_last {α : Type} (l : List α) (x : α) :
    (∀ y, replaceAt (l ++ [x]) l.length (some y) = l ++ [y]) ∧
      replaceAt (l ++ [x]) l.length none = l := by
  refine ⟨fun y => ?_, ?_⟩
  · simp [replaceAt]
  · simp [replaceAt, List.eraseIdx_append_of_length_le]

section Moves

variable {deps : String → List String} {s : OperationState}

/-- A run of the continuation that meets the condition. -/
abbrev Sparing.Path (s s' : OperationState) : Prop :=
  (operationSystem OperationsSubmitted).Path Sparing s s'

theorem Sparing.Path.step {s t u : OperationState} {a : OperationAction} (h : Sparing.Path s t)
    (ok : Sparing t a) (hstep : operationStep t a = some u) : Sparing.Path s u :=
  .snoc h ok hstep

theorem beginPass_step (hactive : s.race.db.run.status.terminal = false) :
    operationStep s (.race .beginPass) =
      some (s.withPass s.race.db (.begun s.race.db.run [])) := by
  simp [operationStep, raceStep, hactive, OperationState.withPass]

theorem withPass_step (s : OperationState) (db : RunRows) {p q : Pass}
    (h : (p.step db).2 = some q) :
    operationStep (s.withPass db p) (.race (.passStep s.race.passes.length)) =
      some (s.withPass (p.step db).1 q) := by
  have hlast := (replaceAt_last s.race.passes p).1 q
  simp only [operationStep, raceStep, OperationState.withPass, List.getElem?_concat_length,
    Option.bind_some, Option.map_some, h, hlast]

theorem withPass_end (s : OperationState) (db : RunRows) {p : Pass} (h : (p.step db).2 = none) :
    operationStep (s.withPass db p) (.race (.passStep s.race.passes.length)) =
      some (s.withRows (p.step db).1) := by
  have hlast := (replaceAt_last s.race.passes p).2
  simp only [operationStep, raceStep, OperationState.withPass, OperationState.withRows,
    List.getElem?_concat_length, Option.bind_some, Option.map_some, h, hlast]

/-- The next access of the pass that began last meets the condition when it settles
    what it has read and its objects are the rows. -/
theorem withPass_sparing {db : RunRows} {p : Pass} (hshape : RunShape deps db.tasks)
    (hobjects : p.tasks ⊆ db.tasks)
    (hsettles : ∀ run tasks, p = .read run tasks → Settles ⟨run, tasks⟩) :
    Sparing (s.withPass db p) (.race (.passStep s.race.passes.length)) := by
  have hstill : ∀ l ∈ p.tasks, StillReads db l := by
    intro l hl d hd hid
    rw [hshape.eq_of_id hd (hobjects hl) hid]
    exact SameStatuses.refl l
  have hlast : (s.withPass db p).race.passes[s.race.passes.length]? = some p :=
    List.getElem?_concat_length
  refine ⟨⟨?_, ?_⟩, fun _ => trivial⟩
  · intro q hq
    cases hlast.symm.trans hq
    cases p with
    | begun run tasks => trivial
    | read run tasks => exact fun l hl _ _ => hstill l hl
    | committed run tasks => trivial
    | refreshed run tasks => trivial
    | readAgain run tasks => exact fun l hl _ _ => hstill l hl
  · intro run tasks hread
    exact hsettles run tasks (Option.some.inj (hlast.symm.trans hread))

/-- What a run that goes on has to do is settled. -/
theorem Going.settles (h : Going s) : Settles s.race.db where
  failed t ht hfailed := by
    obtain ⟨hmem, hchild⟩ := List.mem_filter.mp ht
    exact absurd hfailed (h.children t hmem (by simpa using hchild)).1
  cancelled _ _ _ _ d hd hcancelled := by
    obtain ⟨hmem, hchild⟩ := List.mem_filter.mp hd
    exact absurd hcancelled (h.children d hmem (by simpa using hchild)).2

/-- **A pass.** While a task waits, a run can make a whole pass over its rows. -/
theorem reconcile_path (h : Spared deps s) (hwaits : Waits s.race.db) :
    Sparing.Path s (s.withRows (reconcileRun s.race.db)) := by
  have hgoing := h.prospects.going hwaits
  have hshape := h.whole.shape
  obtain ⟨r, cs, hsplit⟩ := hshape.split
  have hevolves := firstPhase_agrees_rows hsplit hgoing.settles
  have hspec := firstPhase_spec hsplit
  cases hphase : firstPhase s.race.db with
  | finished rows =>
      rw [hphase] at hspec
      cases hspec with
      | failed t error mem status =>
          rw [← children_split hsplit] at mem
          obtain ⟨hmem, hchild⟩ := List.mem_filter.mp mem
          exact absurd status (hgoing.children t hmem (by simpa using hchild)).1
  | promoted rows changed =>
      rw [hphase] at hevolves
      have hfirst : commit s.race.db rows s.race.db = rows := by
        refine commit_self hshape.nodup (hevolves.imp ?_)
        rintro l c (rfl | ⟨hscan, -⟩)
        · exact ⟨rfl, rfl⟩
        · exact ⟨hscan.spec, by rw [hscan.execution]⟩
      have hshape' : RunShape deps rows.tasks :=
        hshape.congr (specs_firstPhase hphase)
      obtain ⟨r', cs', hsplit'⟩ := hshape'.split
      have hsecond : commit rows (secondPhase rows).1 rows = (secondPhase rows).1 := by
        refine commit_self hshape'.nodup ((secondPhase_agrees_rows hsplit').imp ?_)
        rintro l c (rfl | ⟨-, -, prompt, rfl⟩)
        · exact ⟨rfl, rfl⟩
        · exact ⟨rfl, by simp [releaseRoot]⟩
      have hreconcile : reconcileRun s.race.db = (secondPhase rows).1 := by
        rw [reconcileRun, hphase]
      rw [hreconcile]
      -- The accesses of the pass, one after the other.
      have hbegin := beginPass_step hgoing.active
      have hread := withPass_step s s.race.db
        (p := .begun s.race.db.run []) (q := .read s.race.db.run s.race.db.tasks)
        (by rw [Pass.step, listRunTasks_nil])
      have hcommit := withPass_step s s.race.db
        (p := .read s.race.db.run s.race.db.tasks) (q := .committed rows.run rows.tasks)
        (by simp only [Pass.step, hphase])
      have hrefresh := withPass_step s rows (p := .committed rows.run rows.tasks)
        (q := .refreshed rows.run rows.tasks) rfl
      have hagain := withPass_step s rows (p := .refreshed rows.run rows.tasks)
        (q := .readAgain rows.run rows.tasks)
        (by rw [Pass.step, listRunTasks_self hshape'])
      have hend := withPass_end s rows (p := .readAgain rows.run rows.tasks) rfl
      have hwritten : (Pass.step s.race.db (.read s.race.db.run s.race.db.tasks)).1 = rows := by
        simp only [Pass.step, hphase]
        exact hfirst
      rw [hwritten] at hcommit
      rw [show (Pass.step rows (.readAgain rows.run rows.tasks)).1 = (secondPhase rows).1 from
        hsecond] at hend
      have hempty : Sparing s (.race .beginPass) := ⟨⟨trivial, trivial⟩, fun _ => trivial⟩
      have hsub : ∀ tasks : List AgentTask, tasks ⊆ tasks := fun tasks => List.Subset.refl tasks
      have hsettled : ∀ run tasks, Pass.read s.race.db.run s.race.db.tasks = .read run tasks →
          Settles ⟨run, tasks⟩ := by
        intro run tasks hp
        cases hp
        exact hgoing.settles
      have hpath : Sparing.Path s (s.withPass s.race.db (.begun s.race.db.run [])) :=
        .snoc .refl hempty hbegin
      replace hpath := hpath.step (withPass_sparing hshape (List.nil_subset _) (by simp)) hread
      replace hpath := hpath.step (withPass_sparing hshape (hsub _) hsettled) hcommit
      replace hpath := hpath.step (withPass_sparing hshape' (hsub _) (by simp)) hrefresh
      replace hpath := hpath.step (withPass_sparing hshape' (hsub _) (by simp)) hagain
      exact hpath.step (withPass_sparing hshape' (hsub _) (by simp)) hend

/-! ## Work on one task -/

theorem task?_of_mem {rows : RunRows} (h : RunShape deps rows.tasks) {t : AgentTask}
    (ht : t ∈ rows.tasks) : rows.task? t.id = some t := by
  unfold RunRows.task?
  cases hfind : rows.tasks.find? fun u => u.id = t.id with
  | none => exact absurd (List.find?_eq_none.mp hfind t ht) (by simp)
  | some u =>
      have hid : u.id = t.id := by simpa using List.find?_some hfind
      rw [h.eq_of_id (List.mem_of_find?_eq_some hfind) ht hid]

/-- A worker can start a queued task. -/
theorem start_step (h : Spared deps s) {t : AgentTask} (ht : t ∈ s.race.db.tasks)
    (hqueued : t.status = .pending ∨ t.status = .retrying) :
    ∃ t' s', t'.id = t.id ∧ t'.status = .running ∧
      s'.race.db = s.race.db.setTask t' ∧
      Sparing s (.race (.start t.id "worker" true)) ∧
      operationStep s (.race (.start t.id "worker" true)) = some s' := by
  have hsession : t.session.status ≠ .succeeded := by
    rw [(h.agreement.rows t ht).session]
    rcases hqueued with hs | hs <;> rw [hs] <;> decide
  have hstart : ∃ t', startTask "worker" true t = .started t' := by
    unfold startTask
    rw [if_neg (not_not.mpr hqueued), if_neg hsession, if_neg (by decide)]
    exact ⟨_, rfl⟩
  obtain ⟨t', hstart⟩ := hstart
  obtain ⟨-, hspec, hrunning, -⟩ := startTask_spec.2 hstart
  refine ⟨t', { s with race := { s.race with
    db := s.race.db.setTask t', working := t.id :: s.race.working } },
    congrArg TaskSpec.id hspec, hrunning, rfl, ?_, ?_⟩
  · exact ⟨⟨trivial, trivial⟩, fun _ _ _ _ _ => rfl⟩
  · simp [operationStep, raceStep, task?_of_mem h.whole.shape ht, hstart]

/-- The worker of a running task can end it with a success. -/
theorem finish_step (h : Spared deps s) {t : AgentTask} (ht : t ∈ s.race.db.tasks)
    (hrunning : t.status = .running) (hbusy : t.id ∈ s.race.working) :
    ∃ t' s', t'.id = t.id ∧ t'.status = .succeeded ∧
      s'.race.db = s.race.db.setTask t' ∧
      Sparing s (.race (.finish t.id "worker" (.succeeded ""))) ∧
      operationStep s (.race (.finish t.id "worker" (.succeeded ""))) = some s' := by
  have hexecution : t.executionStatus ≠ some .cancelled := by
    rw [(h.agreement.rows t ht).execution, hrunning]
    decide
  have hfinish : (finishTask "worker" (.succeeded "") t).status = .succeeded := by
    simp only [finishTask, if_neg hexecution]
  have hspec := (finishTask_spec "worker" (.succeeded "") t).1
  refine ⟨_, { s with race := { s.race with
    db := s.race.db.setTask (finishTask "worker" (.succeeded "") t)
    working := s.race.working.erase t.id } },
    congrArg TaskSpec.id hspec, hfinish, rfl, ?_, ?_⟩
  · exact ⟨⟨trivial, trivial⟩, fun _ _ _ _ _ => trivial⟩
  · simp [operationStep, raceStep, task?_of_mem h.whole.shape ht, hbusy]

/-- A person can approve a task. -/
theorem review_step (h : Spared deps s) {t : AgentTask} (ht : t ∈ s.race.db.tasks)
    (hreview : t.status = .humanReview) :
    ∃ t' s', t'.id = t.id ∧ t'.status = .succeeded ∧
      s'.race.db = s.race.db.setTask t' ∧
      Sparing s (.race (.review t.id true none)) ∧
      operationStep s (.race (.review t.id true none)) = some s' := by
  have hok : ∃ t', reviewTask true none t = .ok t' := by
    unfold reviewTask
    rw [if_neg (not_not.mpr hreview)]
    exact ⟨_, rfl⟩
  obtain ⟨t', hok⟩ := hok
  obtain ⟨-, hspec, hstatus⟩ := reviewTask_ok hok
  refine ⟨t', { s with race := { s.race with
    db := s.race.db.setTask t', reviewed := s.race.reviewed ++ [t'] } },
    congrArg TaskSpec.id hspec, hstatus, rfl, ?_, ?_⟩
  · exact ⟨⟨trivial, trivial⟩, fun _ => rfl⟩
  · simp [operationStep, raceStep, task?_of_mem h.whole.shape ht, hok]

end Moves

/-! ## Nearer to the end -/

/-- How far a task is from its success. -/
def TaskStatus.weight : TaskStatus → Nat
  | .waitingChild => 3
  | .pending | .retrying => 2
  | .running | .humanReview => 1
  | .succeeded | .failed | .cancelled => 0

def weight (tasks : List AgentTask) : Nat := (tasks.map fun t => t.status.weight).sum

/-- No task gets heavier and the task `t` lighter. -/
theorem weight_lt {t : AgentTask} {tasks tasks' : List AgentTask}
    (h : Evolves (fun l c => c.status.weight ≤ l.status.weight ∧
      (l = t → c.status.weight < l.status.weight)) tasks tasks') (ht : t ∈ tasks) :
    weight tasks' < weight tasks := by
  have hle : ∀ {l l' : List AgentTask}, Evolves (fun l c => c.status.weight ≤ l.status.weight ∧
      (l = t → c.status.weight < l.status.weight)) l l' → weight l' ≤ weight l := by
    intro l l' hl
    induction hl with
    | nil => exact Nat.le_refl _
    | cons hR _ ih =>
        simp only [weight, List.map_cons, List.sum_cons] at ih ⊢
        exact Nat.add_le_add hR.1 ih
  induction h with
  | nil => cases ht
  | cons hR hrest ih =>
      have hrest := hle hrest
      simp only [weight, List.map_cons, List.sum_cons] at ih hrest ⊢
      rcases List.mem_cons.mp ht with rfl | ht
      · have hlt := hR.2 rfl
        omega
      · have hlt := ih ht
        have hhead := hR.1
        omega

theorem weight_setTask {deps : String → List String} {rows : RunRows}
    (h : RunShape deps rows.tasks) {t t' : AgentTask} (ht : t ∈ rows.tasks) (hid : t'.id = t.id)
    (hlt : t'.status.weight < t.status.weight) :
    weight (rows.setTask t').tasks < weight rows.tasks := by
  refine weight_lt ?_ ht
  apply evolves_updateTask
  · intro u hu huid
    rw [h.eq_of_id hu ht (huid.trans hid)]
    exact ⟨Nat.le_of_lt hlt, fun _ => hlt⟩
  · intro u hu huid
    refine ⟨Nat.le_refl _, ?_⟩
    rintro rfl
    exact absurd hid.symm huid

/-! ## Every waiting task is reached -/

section Reach

variable {deps : String → List String} {s s' : OperationState}

/-- Along the continuation the task `id` comes into the queue or is up for its
    approval. -/
def Reaches (s : OperationState) (id : Nat) : Prop :=
  ∃ s', Sparing.Path s s' ∧ ∃ t ∈ s'.race.db.tasks, t.id = id ∧
    (t.status = .pending ∨ t.status = .humanReview)

theorem Reaches.of_path {id : Nat} (hpath : Sparing.Path s s') (h : Reaches s' id) :
    Reaches s id := by
  obtain ⟨u, hu, ht⟩ := h
  exact ⟨u, hpath.trans hu, ht⟩

theorem Spared.path (h : Spared deps s) (hpath : Sparing.Path s s') : Spared deps s' :=
  hpath.preserves (Spared deps) (fun _ _ _ hs hgood hstep => spared_step hs hgood hstep) h

/-- A step on the row of one task that makes the task lighter. -/
theorem reaches_row (h : Spared deps s) {n : Nat} (hn : weight s.race.db.tasks = n)
    (ih : ∀ m < n, ∀ u, Spared deps u → weight u.race.db.tasks = m → ∀ t ∈ u.race.db.tasks,
      t.status = .waitingChild → Reaches u t.id)
    {a : OperationAction} {t t' v : AgentTask} (ht : t ∈ s.race.db.tasks)
    (hwait : t.status = .waitingChild) (hv : v ∈ s.race.db.tasks) (hid : t'.id = v.id)
    (hne : v.status ≠ .waitingChild) (hlt : t'.status.weight < v.status.weight)
    (hdb : s'.race.db = s.race.db.setTask t') (hgood : Sparing s a)
    (hstep : operationStep s a = some s') : Reaches s t.id := by
  have hpath : Sparing.Path s s' := .snoc .refl hgood hstep
  refine .of_path hpath (ih (weight s'.race.db.tasks) ?_ s' (h.path hpath) rfl t ?_ hwait)
  · rw [hdb, ← hn]
    exact weight_setTask h.whole.shape hv hid hlt
  · rw [hdb]
    refine setTask_other ht ?_
    rw [hid]
    intro hsame
    rw [h.whole.shape.eq_of_id ht hv hsame] at hwait
    exact hne hwait

/-- The loop over the children makes no child heavier, and a ready one lighter. -/
theorem weight_promoted {cs cs' : List AgentTask} {u u' : AgentTask}
    (hshape : ChildSpecs deps (specs cs')) (hevolves : Evolves (Promoted cs) cs cs') (hu : u ∈ cs)
    (hready : Ready cs u) (hu' : u' ∈ cs') (hid : u'.id = u.id)
    (hstatus : u'.status = promotedStatus u.toTaskSpec) : weight cs' < weight cs := by
  have hpromoted : ∀ t : TaskSpec, (promotedStatus t).weight < TaskStatus.waitingChild.weight := by
    intro t
    rcases promotedStatus_cases t with hs | hs <;> rw [hs] <;> decide
  refine weight_lt (hevolves.imp_mem ?_) hu
  intro l _ c hc hR
  refine ⟨?_, ?_⟩
  · rcases hR.2 with rfl | ⟨-, hready', hs⟩ | ⟨-, hwait, hs⟩
    · exact Nat.le_refl _
    · rw [hs, hready'.1]
      exact Nat.le_of_lt (hpromoted _)
    · rw [hs, hwait]
      decide
  · rintro rfl
    -- The object of the ready child is the promoted one.
    have hcu : c = u' := hshape.eq_of_id hc hu' ((congrArg TaskSpec.id hR.1).trans hid.symm)
    rw [hcu, hstatus, hready.1]
    exact hpromoted _

/-- A pass over children that wait or have succeeded. -/
theorem reaches_pass (h : Spared deps s) {n : Nat} (hn : weight s.race.db.tasks = n)
    (ih : ∀ m < n, ∀ u, Spared deps u → weight u.race.db.tasks = m → ∀ t ∈ u.race.db.tasks,
      t.status = .waitingChild → Reaches u t.id)
    {t r : AgentTask} {cs : List AgentTask} (ht : t ∈ s.race.db.tasks)
    (hwait : t.status = .waitingChild) (hsplit : Split deps s.race.db.tasks r cs)
    (hstatus : ∀ u ∈ cs, u.status = .waitingChild ∨ u.status = .succeeded) : Reaches s t.id := by
  have hwaits : Waits s.race.db := ⟨t, ht, hwait⟩
  have hgoing := h.prospects.going hwaits
  have hmem : ∀ u ∈ cs, u ∈ s.race.db.tasks ∧ u.parentTaskId ≠ none := by
    intro u hu
    rw [hsplit.eq, hsplit.specs.child_parent hu]
    exact ⟨List.mem_cons_of_mem _ hu, by simp⟩
  have hr : r ∈ s.race.db.tasks := by
    rw [hsplit.eq]
    exact List.mem_cons_self
  have hroot : r.status = .waitingChild := h.prospects.manager hwaits r hr hsplit.parent
  have hpath := reconcile_path h hwaits
  have hafter := h.path hpath
  have hspecs : specs (reconcileRun s.race.db).tasks = specs s.race.db.tasks :=
    specs_reconcileRun h.whole.shape
  cases reconcileRun_spec hsplit with
  | failed u error mem status run tasks =>
      obtain ⟨humem, huchild⟩ := hmem u mem
      exact absurd status (hgoing.children u humem huchild).1
  | settled cs' healthy evolves promotes second =>
      have hspecs' : specs cs' = specs cs := specs_of_evolves (fun _ _ hR => hR.1) evolves
      have hchildren : ChildSpecs deps (specs cs') := by
        rw [hspecs']
        exact hsplit.specs
      by_cases hready : ∃ u ∈ cs, Ready cs u
      · -- A ready child is promoted, and the manager task waits on.
        obtain ⟨u, hu, hru⟩ := hready
        obtain ⟨u', hu', hid, hs⟩ := promotes u hu hru
        have htasks : (reconcileRun s.race.db).tasks = r :: cs' := by
          cases second with
          | released prompt nonempty succeeded waiting run tasks =>
              rw [succeeded u' hu'] at hs
              rcases promotedStatus_cases u.toTaskSpec with hp | hp <;> rw [hp] at hs <;> cases hs
          | reviewing v mem status run tasks => exact tasks
          | succeeded root run tasks => exact tasks
          | failed root run tasks => exact tasks
          | waiting open_ notReady run tasks => exact tasks
        have hlt : weight (reconcileRun s.race.db).tasks < n := by
          have hcs := weight_promoted hchildren evolves hu hru hu' hid hs
          rw [← hn, htasks, hsplit.eq]
          simp only [weight, List.map_cons, List.sum_cons] at hcs ⊢
          omega
        have hr' : r ∈ (reconcileRun s.race.db).tasks := by
          rw [htasks]
          exact List.mem_cons_self
        have hagain : ∀ v ∈ (reconcileRun s.race.db).tasks, v.status = .waitingChild →
            Reaches s v.id := fun v hv hvwait =>
          .of_path hpath (ih _ hlt _ hafter rfl v hv hvwait)
        rw [hsplit.eq] at ht
        rcases List.mem_cons.mp ht with rfl | ht
        · exact hagain t hr' hroot
        · obtain ⟨t', ht', hR⟩ := evolves.exists_after ht
          have ht'mem : t' ∈ (reconcileRun s.race.db).tasks := by
            rw [htasks]
            exact List.mem_cons_of_mem _ ht'
          have hid' : t'.id = t.id := congrArg TaskSpec.id hR.1
          rcases hR.2 with rfl | ⟨-, -, hpromoted⟩ | ⟨-, -, hcancelled⟩
          · exact hagain t' ht'mem hwait
          · refine ⟨_, hpath, t', ht'mem, hid', ?_⟩
            rw [hpromoted]
            exact (promotedStatus_cases t.toTaskSpec).symm
          · -- The manager task waits, so no child has been cancelled.
            have hgoing' := hafter.prospects.going ⟨r, hr', hroot⟩
            have hchild : t'.parentTaskId ≠ none := by
              rw [show t'.parentTaskId = t.parentTaskId from congrArg TaskSpec.parentTaskId hR.1]
              exact (hmem t ht).2
            exact absurd hcancelled (hgoing'.children t' ht'mem hchild).2
      · -- All children have succeeded, and the manager task is released.
        obtain ⟨order, hordered, hcovers⟩ := h.prospects.order
        have hsucceeded : ∀ u ∈ cs, u.status = .succeeded := by
          refine all_succeeded hordered hsplit ?_ ?_ hstatus fun u hu hru => hready ⟨u, hu, hru⟩
          · exact fun u hu => hcovers u (hmem u hu).1 (hmem u hu).2
          · exact fun u hu => h.prospects.depends u (hmem u hu).1 (hmem u hu).2
        have hsucceeded' := evolves_succeeded evolves hsucceeded
        have htr : t = r := by
          rw [hsplit.eq] at ht
          rcases List.mem_cons.mp ht with htr | ht
          · exact htr
          · rw [hsucceeded t ht] at hwait
            cases hwait
        subst htr
        cases second with
        | released prompt nonempty succeeded waiting run tasks =>
            refine ⟨_, hpath, releaseRoot prompt t, ?_, rfl, Or.inl rfl⟩
            show releaseRoot prompt t ∈ (reconcileRun s.race.db).tasks
            rw [tasks]
            exact List.mem_cons_self
        | reviewing v mem status run tasks =>
            rw [hsucceeded' v mem] at status
            cases status
        | succeeded root run tasks =>
            rw [hroot] at root
            cases root
        | failed root run tasks =>
            rw [hroot] at root
            cases root
        | waiting open_ notReady run tasks =>
            -- The manager task waits, so there are children.
            have hne : cs' ≠ [] := by
              obtain ⟨c, hc, hchild⟩ := h.prospects.children hwaits
              rw [hsplit.eq] at hc
              rcases List.mem_cons.mp hc with rfl | hc
              · exact absurd hsplit.parent hchild
              · rintro rfl
                cases evolves
                cases hc
            exact absurd ⟨hne, hsucceeded', hroot⟩ notReady

/-- **Every waiting task is reached.** By induction on the weight of the rows. -/
theorem reaches (h : Spared deps s) {t : AgentTask} (ht : t ∈ s.race.db.tasks)
    (hwait : t.status = .waitingChild) : Reaches s t.id := by
  induction hn : weight s.race.db.tasks using Nat.strong_induction_on generalizing s t with
  | h n ih =>
      have ih' : ∀ m < n, ∀ u, Spared deps u → weight u.race.db.tasks = m →
          ∀ t ∈ u.race.db.tasks, t.status = .waitingChild → Reaches u t.id :=
        fun m hm u hu hum t ht hwait => ih m hm hu ht hwait hum
      have hgoing := h.prospects.going ⟨t, ht, hwait⟩
      by_cases hlive : ∃ v ∈ s.race.db.tasks, v.status.live = true
      · -- Some task is worked on first.
        obtain ⟨v, hv, hvlive⟩ := hlive
        cases hs : v.status with
        | pending =>
            obtain ⟨t', s', hid, hnew, hdb, hgood, hstep⟩ := start_step h hv (Or.inl hs)
            refine reaches_row h hn ih' ht hwait hv hid ?_ ?_ hdb hgood hstep
            · rw [hs]; decide
            · rw [hs, hnew]; decide
        | retrying =>
            obtain ⟨t', s', hid, hnew, hdb, hgood, hstep⟩ := start_step h hv (Or.inr hs)
            refine reaches_row h hn ih' ht hwait hv hid ?_ ?_ hdb hgood hstep
            · rw [hs]; decide
            · rw [hs, hnew]; decide
        | running =>
            obtain ⟨t', s', hid, hnew, hdb, hgood, hstep⟩ :=
              finish_step h hv hs (hgoing.running v hv hs)
            refine reaches_row h hn ih' ht hwait hv hid ?_ ?_ hdb hgood hstep
            · rw [hs]; decide
            · rw [hs, hnew]; decide
        | humanReview =>
            obtain ⟨t', s', hid, hnew, hdb, hgood, hstep⟩ := review_step h hv hs
            refine reaches_row h hn ih' ht hwait hv hid ?_ ?_ hdb hgood hstep
            · rw [hs]; decide
            · rw [hs, hnew]; decide
        | waitingChild => rw [hs] at hvlive; cases hvlive
        | succeeded => rw [hs] at hvlive; cases hvlive
        | failed => rw [hs] at hvlive; cases hvlive
        | cancelled => rw [hs] at hvlive; cases hvlive
      · obtain ⟨r, cs, hsplit⟩ := h.whole.shape.split
        refine reaches_pass h hn ih' ht hwait hsplit ?_
        intro u hu
        have humem : u ∈ s.race.db.tasks := by
          rw [hsplit.eq]
          exact List.mem_cons_of_mem _ hu
        have hchild : u.parentTaskId ≠ none := by
          rw [hsplit.specs.child_parent hu]
          simp
        obtain ⟨hnf, hnc⟩ := hgoing.children u humem hchild
        have hnl : u.status.live ≠ true := fun hl => hlive ⟨u, humem, hl⟩
        cases hs : u.status <;> simp_all [TaskStatus.live]

end Reach

/-! ## Open executions -/

/-- The execution of the task is queued or running. -/
def OpenExecution (t : AgentTask) : Prop :=
  t.executionStatus = some .queued ∨ t.executionStatus = some .running

/-- In some continuation of the run a worker runs the task, or a person is asked for
    its approval. -/
def CanRun (s : OperationState) (id : Nat) : Prop :=
  ∃ s', (operationSystem OperationsSubmitted).Path System.anyStep s s' ∧
    ∃ t ∈ s'.race.db.tasks, t.id = id ∧ (t.status = .running ∨ t.status = .humanReview)

theorem Sparing.Path.any {s s' : OperationState} (h : Sparing.Path s s') :
    (operationSystem OperationsSubmitted).Path System.anyStep s s' :=
  h.mono fun _ _ _ => trivial

theorem canRun_queued {deps : String → List String} {s : OperationState} (h : Spared deps s)
    {t : AgentTask} (ht : t ∈ s.race.db.tasks)
    (hqueued : t.status = .pending ∨ t.status = .retrying) : CanRun s t.id := by
  obtain ⟨t', s', hid, hrunning, hdb, hgood, hstep⟩ := start_step h ht hqueued
  have hpath : Sparing.Path s s' := .snoc .refl hgood hstep
  refine ⟨s', hpath.any, t', ?_, hid, Or.inl hrunning⟩
  rw [hdb]
  exact setTask_self ht hid

theorem CanRun.of_path {s s' : OperationState} {id : Nat} (hpath : Sparing.Path s s')
    (h : CanRun s' id) : CanRun s id := by
  obtain ⟨u, hu, ht⟩ := h
  exact ⟨u, hpath.any.trans hu, ht⟩

theorem canRun_open {deps : String → List String} {s : OperationState} (h : Spared deps s)
    {t : AgentTask} (ht : t ∈ s.race.db.tasks) (hopen : OpenExecution t) : CanRun s t.id := by
  -- A task with an open execution has not ended.
  have hterminal : t.status.terminal = false := by
    rw [OpenExecution, (h.agreement.rows t ht).execution] at hopen
    cases hs : t.status <;> rw [hs] at hopen <;> first | rfl | simp [TaskStatus.work] at hopen
  cases hs : t.status with
  | pending => exact canRun_queued h ht (Or.inl hs)
  | retrying => exact canRun_queued h ht (Or.inr hs)
  | running => exact ⟨s, .refl, t, ht, rfl, Or.inl hs⟩
  | humanReview => exact ⟨s, .refl, t, ht, rfl, Or.inr hs⟩
  | waitingChild =>
      obtain ⟨s', hpath, t', ht', hid, hnew⟩ := reaches h ht hs
      refine .of_path hpath ?_
      rw [← hid]
      rcases hnew with hpending | hreview
      · exact canRun_queued (h.path hpath) ht' (Or.inl hpending)
      · exact ⟨s', .refl, t', ht', rfl, Or.inr hreview⟩
  | succeeded => rw [hs] at hterminal; cases hterminal
  | failed => rw [hs] at hterminal; cases hterminal
  | cancelled => rw [hs] at hterminal; cases hterminal

/-- The run of a manager and a member, before anything begins. -/
def pairOperations : OperationState := operating ⟨pairRun.rows, none, [], [], [], []⟩

theorem pairOperations_submitted : OperationsSubmitted pairOperations :=
  ⟨pairRun, Or.inl ⟨pairTeam, oneAttempt, rfl⟩, rfl⟩

def memberActions : List OperationAction :=
  [.race (.start 1 "w" true), .race (.finish 1 "w" (.succeeded "done"))]

/-- The member works, a pass releases the manager task, and a worker starts it. -/
def pairActions : List OperationAction :=
  memberActions ++ [.race .beginPass, .race (.passStep 0), .race (.passStep 0), .race (.passStep 0),
    .race (.passStep 0), .race (.passStep 0), .race (.start 0 "w" true)]

/-- A worker ends the task while the Runtime is asked to stop its execution. -/
theorem stopped_task_succeeds :
    ∃ s t, (operationSystem OperationsSubmitted).exec pairOperations
        [.race (.start 1 "w" true), .beginStop 1, .race (.finish 1 "w" (.succeeded "done")),
          .stopStep 0, .stopStep 0] = some s ∧
      t ∈ s.race.db.tasks ∧ t.status = .succeeded ∧ t.executionStatus = some .cancelled :=
  ⟨_, _, rfl, List.mem_cons_of_mem _ List.mem_cons_self, rfl, rfl⟩

end Orchestration
end HermesPlatform
