/-
  HermesPlatform.Orchestration.Sessions

  What a database session does with the rows of a run.

  A process reads rows into the objects of its session and decides by these
  objects.  A commit writes the columns it has changed since they were read, over
  whatever the row holds by then, and an object that is in the session already is
  not read again by a later query.
-/

import HermesPlatform.Orchestration.Records

namespace HermesPlatform
namespace Orchestration

/-- What a commit leaves in a column: `loaded` was read, `current` is the value
    of the attribute, `db` the one of the row. -/
def commitColumn {α : Type} [DecidableEq α] (loaded current db : α) : α :=
  if current = loaded then db else current

def commitSession (loaded current db : AgentSession) : AgentSession where
  status := commitColumn loaded.status current.status db.status
  input := commitColumn loaded.input current.input db.input
  output := commitColumn loaded.output current.output db.output

def commitExecution (loaded current db : ExecutionLog) : ExecutionLog where
  status := commitColumn loaded.status current.status db.status
  input := commitColumn loaded.input current.input db.input
  output := commitColumn loaded.output current.output db.output
  error := commitColumn loaded.error current.error db.error

/-- A commit to the rows of one task by a process that creates no execution
    record. -/
def commitTask (loaded current db : AgentTask) : AgentTask :=
  { db with
    status := commitColumn loaded.status current.status db.status
    attempt := commitColumn loaded.attempt current.attempt db.attempt
    workerId := commitColumn loaded.workerId current.workerId db.workerId
    error := commitColumn loaded.error current.error db.error
    session := commitSession loaded.session current.session db.session
    execution := db.execution.map fun e =>
      match loaded.execution, current.execution with
      | some l, some c => commitExecution l c e
      | _, _ => e }

def commitRun (loaded current db : WorkflowRun) : WorkflowRun where
  status := commitColumn loaded.status current.status db.status
  input := commitColumn loaded.input current.input db.input
  output := commitColumn loaded.output current.output db.output
  error := commitColumn loaded.error current.error db.error

/-- A commit of the objects `current` that were read as `loaded`. -/
def commit (loaded current db : RunRows) : RunRows where
  run := commitRun loaded.run current.run db.run
  tasks := db.tasks.map fun d =>
    match (loaded.tasks.zip current.tasks).find? fun p => p.1.id = d.id with
    | some p => commitTask p.1 p.2 d
    | none => d

/-- `list_run_tasks` in a session that holds `objects`. -/
def listRunTasks (objects : List AgentTask) (db : RunRows) : List AgentTask :=
  db.tasks.map fun d => (objects.find? fun o => o.id = d.id).getD d

/-! ## What a commit leaves -/

theorem commitColumn_cases {α : Type} [DecidableEq α] (loaded current db : α) :
    commitColumn loaded current db = db ∨
      (current ≠ loaded ∧ commitColumn loaded current db = current) := by
  unfold commitColumn
  split
  · exact Or.inl rfl
  · rename_i hne
    exact Or.inr ⟨hne, rfl⟩

/-- An object that was not changed is not written. -/
theorem commitTask_unchanged (l d : AgentTask) : commitTask l l d = d := by
  have hcolumn : ∀ {α : Type} [DecidableEq α] (x y : α), commitColumn x x y = y := by
    intro α _ x y
    exact if_pos rfl
  have hexecution : (commitTask l l d).execution = d.execution := by
    simp only [commitTask]
    cases l.execution with
    | none => exact Option.map_id'
    | some x =>
        simp only [commitExecution, hcolumn]
        exact Option.map_id'
  have hfields : commitTask l l d = { d with execution := (commitTask l l d).execution } := by
    simp only [commitTask, commitSession, hcolumn]
  rw [hfields, hexecution]

/-- A row after a commit: one that no object of the process belongs to, or one that
    the object `l`, now `c`, is written to. -/
theorem commit_rows {R : AgentTask → AgentTask → Prop} {loaded rows db : RunRows}
    (h : Evolves R loaded.tasks rows.tasks) {d' : AgentTask}
    (hd' : d' ∈ (commit loaded rows db).tasks) :
    ∃ d ∈ db.tasks, (d' = d ∧ ∀ l ∈ loaded.tasks, l.id ≠ d.id) ∨
      ∃ l ∈ loaded.tasks, ∃ c ∈ rows.tasks, R l c ∧ l.id = d.id ∧ d' = commitTask l c d := by
  obtain ⟨d, hd, rfl⟩ := List.mem_map.mp hd'
  refine ⟨d, hd, ?_⟩
  split
  · rename_i p hp
    -- The object of `d` was loaded as `p.1` and is `p.2` now.
    have hmem : (p.1, p.2) ∈ loaded.tasks.zip rows.tasks := List.mem_of_find?_eq_some hp
    have hR : R p.1 p.2 := (List.forall₂_iff_zip.mp h).2 hmem
    have hid : p.1.id = d.id := by simpa using List.find?_some hp
    obtain ⟨hl, hc⟩ := List.of_mem_zip hmem
    exact Or.inr ⟨p.1, hl, p.2, hc, hR, hid, rfl⟩
  · rename_i hnone
    refine Or.inl ⟨rfl, ?_⟩
    intro l hl hid
    -- Every object has a pair.
    have hfst : l ∈ (loaded.tasks.zip rows.tasks).map Prod.fst := by
      rw [List.map_fst_zip (Nat.le_of_eq h.length_eq)]
      exact hl
    obtain ⟨p, hp, rfl⟩ := List.mem_map.mp hfst
    have hne := List.find?_eq_none.mp hnone p hp
    simp [hid] at hne

theorem commit_ids (loaded rows db : RunRows) :
    (commit loaded rows db).tasks.map (fun t => t.id) = db.tasks.map fun t => t.id := by
  rw [commit, List.map_map]
  apply List.map_congr_left
  intro d _
  simp only [Function.comp_apply]
  split <;> rfl

end Orchestration
end HermesPlatform
