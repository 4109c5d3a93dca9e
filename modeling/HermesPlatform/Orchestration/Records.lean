/-
  HermesPlatform.Orchestration.Records

  The rows of a workflow run: the run, its tasks, and the session and the
  execution record of each task (`app.db.models`).

  Only the columns the orchestration code reads or decides by are kept; time
  stamps, workspaces and the JSON copies of inputs and outputs are not.  The
  columns of a task that never change after its creation are its `TaskSpec`.
-/

import Mathlib.Data.List.Basic
import Mathlib.Data.List.Forall2

namespace HermesPlatform
namespace Orchestration

/-- `AgentTask.status`. -/
inductive TaskStatus where
  | pending
  | running
  | waitingChild
  | humanReview
  | retrying
  | succeeded
  | failed
  | cancelled
deriving DecidableEq, Repr

/-- `WorkflowRun.status`. -/
inductive RunStatus where
  | pending
  | running
  | humanReview
  | succeeded
  | failed
  | cancelled
deriving DecidableEq, Repr

/-- `AgentSession.status` and `ExecutionLog.status`. -/
inductive WorkStatus where
  | queued
  | running
  | succeeded
  | failed
  | cancelled
deriving DecidableEq, Repr

/-- `WorkflowNodeType`. -/
inductive NodeType where
  | agent
  | tool
  | skill
  | condition
  | humanApproval
deriving DecidableEq, Repr

def NodeType.str : NodeType → String
  | .agent => "agent"
  | .tool => "tool"
  | .skill => "skill"
  | .condition => "condition"
  | .humanApproval => "human_approval"

/-- The statuses a task never leaves in a normal life. -/
def TaskStatus.terminal : TaskStatus → Bool
  | .succeeded | .failed | .cancelled => true
  | _ => false

def RunStatus.terminal : RunStatus → Bool
  | .succeeded | .failed | .cancelled => true
  | _ => false

structure AgentSession where
  status : WorkStatus
  input : String
  output : Option String
deriving DecidableEq, Repr

structure ExecutionLog where
  status : WorkStatus
  input : String
  output : Option String
  error : Option String
deriving DecidableEq, Repr

/-- The columns of a task that are written once. -/
structure TaskSpec where
  id : Nat
  parentTaskId : Option Nat
  nodeKey : Option String
  nodeType : NodeType
  dependsOn : List String
  agentId : String
  priority : Nat
  maxAttempts : Nat
deriving DecidableEq, Repr

structure AgentTask extends TaskSpec where
  status : TaskStatus
  attempt : Nat
  workerId : Option String
  error : Option String
  session : AgentSession
  execution : Option ExecutionLog
deriving DecidableEq, Repr

structure WorkflowRun where
  status : RunStatus
  input : String
  output : Option String
  error : Option String
deriving DecidableEq, Repr

/-- The rows of one run; the tasks in the order `list_run_tasks` returns. -/
structure RunRows where
  run : WorkflowRun
  tasks : List AgentTask
deriving DecidableEq, Repr

/-- `error[:2000]`. -/
def truncate (error : String) : String := String.ofList (error.toList.take 2000)

/-! ## Updates of rows -/

def AgentTask.setExecutionStatus (t : AgentTask) (status : WorkStatus) : AgentTask :=
  { t with execution := t.execution.map fun e => { e with status := status } }

def AgentTask.setSessionStatus (t : AgentTask) (status : WorkStatus) : AgentTask :=
  { t with session := { t.session with status := status } }

/-- Assign to the attributes of the task `id`. -/
def updateTask (id : Nat) (f : AgentTask → AgentTask) (tasks : List AgentTask) :
    List AgentTask :=
  tasks.map fun t => if t.id = id then f t else t

/-- The specs of a list of tasks. -/
def specs (tasks : List AgentTask) : List TaskSpec := tasks.map AgentTask.toTaskSpec

theorem specs_map {f : AgentTask → AgentTask} (h : ∀ t, (f t).toTaskSpec = t.toTaskSpec)
    (tasks : List AgentTask) : specs (tasks.map f) = specs tasks := by
  unfold specs
  rw [List.map_map]
  exact List.map_congr_left fun t _ => h t

/-! ## The tasks of a run before and after -/

/-- `R` relates every task to what became of it. -/
abbrev Evolves (R : AgentTask → AgentTask → Prop) (tasks tasks' : List AgentTask) : Prop :=
  List.Forall₂ R tasks tasks'

theorem evolves_map {R : AgentTask → AgentTask → Prop} {f : AgentTask → AgentTask}
    {tasks : List AgentTask} (h : ∀ t ∈ tasks, R t (f t)) : Evolves R tasks (tasks.map f) := by
  rw [Evolves, List.forall₂_map_right_iff]
  exact List.forall₂_same.mpr h

theorem evolves_updateTask {R : AgentTask → AgentTask → Prop} {f : AgentTask → AgentTask}
    {id : Nat} {tasks : List AgentTask} (hself : ∀ t ∈ tasks, t.id = id → R t (f t))
    (hother : ∀ t ∈ tasks, t.id ≠ id → R t t) : Evolves R tasks (updateTask id f tasks) := by
  apply evolves_map
  intro t ht
  split
  · rename_i h
    exact hself t ht h
  · rename_i h
    exact hother t ht h

theorem Evolves.exists_after {R : AgentTask → AgentTask → Prop} {tasks tasks' : List AgentTask}
    (h : Evolves R tasks tasks') {t : AgentTask} (ht : t ∈ tasks) : ∃ t' ∈ tasks', R t t' := by
  induction h with
  | nil => cases ht
  | cons hR _ ih =>
      rcases List.mem_cons.mp ht with rfl | ht
      · exact ⟨_, List.mem_cons_self, hR⟩
      · obtain ⟨t', ht', hR'⟩ := ih ht
        exact ⟨t', List.mem_cons_of_mem _ ht', hR'⟩

theorem Evolves.exists_before {R : AgentTask → AgentTask → Prop} {tasks tasks' : List AgentTask}
    (h : Evolves R tasks tasks') {t' : AgentTask} (ht : t' ∈ tasks') : ∃ t ∈ tasks, R t t' := by
  induction h with
  | nil => cases ht
  | cons hR _ ih =>
      rcases List.mem_cons.mp ht with rfl | ht
      · exact ⟨_, List.mem_cons_self, hR⟩
      · obtain ⟨t, ht, hR'⟩ := ih ht
        exact ⟨t, List.mem_cons_of_mem _ ht, hR'⟩

theorem Evolves.trans {R S T : AgentTask → AgentTask → Prop}
    (hRS : ∀ a b c, R a b → S b c → T a c) {l₁ l₂ l₃ : List AgentTask} (h : Evolves R l₁ l₂)
    (h' : Evolves S l₂ l₃) : Evolves T l₁ l₃ := by
  -- Induction on the first list; the second one has its shape.
  induction h generalizing l₃ with
  | nil =>
      cases h'
      exact .nil
  | cons hR _ ih =>
      cases h' with
      | cons hS hrest => exact .cons (hRS _ _ _ hR hS) (ih hrest)

theorem Evolves.imp_mem {R S : AgentTask → AgentTask → Prop} {tasks tasks' : List AgentTask}
    (h : Evolves R tasks tasks') (himp : ∀ l ∈ tasks, ∀ c ∈ tasks', R l c → S l c) :
    Evolves S tasks tasks' := by
  induction h with
  | nil => exact .nil
  | cons hR _ ih =>
      refine .cons (himp _ List.mem_cons_self _ List.mem_cons_self hR) (ih ?_)
      exact fun l hl c hc => himp l (List.mem_cons_of_mem _ hl) c (List.mem_cons_of_mem _ hc)

/-- An update after which the objects are still related to the tasks. -/
theorem evolves_update {R : AgentTask → AgentTask → Prop} {tasks tasks' : List AgentTask} {id : Nat}
    {f : AgentTask → AgentTask} (h : Evolves R tasks tasks')
    (hf : ∀ l b, R l b → b.id = id → R l (f b)) : Evolves R tasks (updateTask id f tasks') := by
  have hstep : Evolves (fun a b => a.id = id ∧ b = f a ∨ b = a) tasks' (updateTask id f tasks') := by
    apply evolves_updateTask
    · intro t _ hid
      exact Or.inl ⟨hid, rfl⟩
    · intro t _ _
      exact Or.inr rfl
  refine h.trans ?_ hstep
  rintro l b c hlb (⟨hid, rfl⟩ | rfl)
  · exact hf l b hlb hid
  · exact hlb

end Orchestration
end HermesPlatform
