/-
  HermesPlatform.Orchestration.Workflow

  Workflow definitions and the submission of a run: `validate_workflow_dag`,
  `submit_team_run` and `submit_workflow_run`.

  A submission creates the run, the manager task and one task for each member
  or node, each in a transaction of its own, and ends with an update of the
  run.  `SubmissionPlan` is what it is going to create; `submitted` is the
  result of all its transactions.
-/

import HermesPlatform.Lib.Python
import HermesPlatform.Orchestration.Dag
import HermesPlatform.Orchestration.Records
import Mathlib.Data.List.Sort
import Mathlib.Data.String.Basic

namespace HermesPlatform
namespace Orchestration

open Python

/-! ## Definitions -/

/-- The pattern `^[a-z][a-z0-9_-]{0,63}$` of node keys. -/
def matchesKeyPattern (key : String) : Bool :=
  match key.toList with
  | [] => false
  | c :: rest =>
      c.isLower && decide (rest.length ≤ 63) &&
        rest.all fun c => c.isLower || c.isDigit || c == '_' || c == '-'

/-- `WorkflowNodeSpec` with what its validation guarantees; of `config` only the
    instruction is used. -/
structure WorkflowNodeSpec where
  key : String
  nodeType : NodeType
  name : String
  agentId : Option String
  dependsOn : List String
  instruction : Option String
  key_pattern : matchesKeyPattern key = true
  agent_given : nodeType = .agent → truthy agentId ≠ none
  not_self : key ∉ dependsOn
deriving DecidableEq, Repr

/-- A member of a team with the state of its Agent. -/
structure TeamMember where
  agentId : String
  active : Bool
  priority : Int
  role : String
deriving DecidableEq, Repr

/-- A team; a member's Agent is part of the primary key of its row. -/
structure AgentTeam where
  ownerAgentId : String
  members : List TeamMember
  distinct : (members.map TeamMember.agentId).Nodup
deriving DecidableEq, Repr

/-- `MultiAgentRunRequest` with the setting `task_max_attempts`. -/
structure RunRequest where
  input : String
  priority : Nat
  taskMaxAttempts : Nat
deriving DecidableEq, Repr

/-! ## `validate_workflow_dag` -/

/-- What `validate_workflow_dag` reads of a node. -/
def WorkflowNodeSpec.dagNode (node : WorkflowNodeSpec) : DagNode := ⟨node.key, node.dependsOn⟩

/-- `by_key[key].depends_on`; every key asked for is known. -/
def nodeDeps (nodes : List WorkflowNodeSpec) : String → List String :=
  DagNode.dependencies (nodes.map WorkflowNodeSpec.dagNode)

/-- The recursion has a frame for each node and one; `validateDag_iff` shows that it
    needs no more. -/
def validateWorkflowDag (nodes : List WorkflowNodeSpec) : Except String Unit :=
  DagNode.validateDag (nodes.map WorkflowNodeSpec.dagNode) (nodes.length + 1)

/-! ## Task creation -/

/-- `_node_prompt`. -/
def nodePrompt (original role : String) (nodeType : NodeType) (instruction : Option String) :
    String :=
  let instruction := String.ofList (stripChars (instruction.getD "").toList)
  let suffix := if instruction = "" then "" else "\n节点要求：" ++ instruction
  "团队总任务：" ++ original ++ "\n你的职责：" ++ role ++ "\n节点类型：" ++ nodeType.str ++ suffix

/-- `_create_task` followed by `create_task`. -/
def createTask (payload : RunRequest) (id : Nat) (agentId nodeKey : String) (nodeType : NodeType)
    (parentTaskId : Option Nat) (role : String) (initialStatus : TaskStatus)
    (dependsOn : List String) (instruction : Option String) : AgentTask :=
  let input := nodePrompt payload.input role nodeType instruction
  { id := id
    parentTaskId := parentTaskId
    nodeKey := some nodeKey
    nodeType := nodeType
    dependsOn := dependsOn
    agentId := agentId
    priority := payload.priority
    maxAttempts := payload.taskMaxAttempts
    status := initialStatus
    attempt := 0
    workerId := none
    error := none
    -- A session and an execution of its own, both for the same prompt.
    session := ⟨.queued, input, none⟩
    execution := some ⟨.queued, input, none, none⟩ }

/-- The manager task; the tasks of a run are numbered in creation order. -/
def managerTask (payload : RunRequest) (team : AgentTeam) : AgentTask :=
  createTask payload 0 team.ownerAgentId "__manager__" .agent none "manager" .waitingChild [] none

/-- What a submission creates, and its final update. -/
structure SubmissionPlan where
  root : AgentTask
  children : List AgentTask
  runStatus : RunStatus
  /-- The manager task becomes `pending` in the final update. -/
  rootPending : Bool
deriving DecidableEq, Repr

/-- The final update of the manager task. -/
def SubmissionPlan.finalRoot (plan : SubmissionPlan) : AgentTask :=
  if plan.rootPending then { plan.root with status := .pending } else plan.root

/-- The rows after the last transaction of a submission that nothing
    interferes with. -/
def SubmissionPlan.submitted (plan : SubmissionPlan) (payload : RunRequest) : RunRows :=
  ⟨⟨plan.runStatus, payload.input, none, none⟩, plan.finalRoot :: plan.children⟩

/-! ## `submit_team_run` -/

/-- Order of `sorted(team.members, key=lambda item: (-item.priority, item.agent_id))`. -/
def memberLe (a b : TeamMember) : Prop :=
  -a.priority < -b.priority ∨ (-a.priority = -b.priority ∧ a.agentId ≤ b.agentId)

instance : DecidableRel memberLe := fun _ _ => inferInstanceAs (Decidable (_ ∨ (_ ∧ _)))

/-- The members that get a task. -/
def runMembers (team : AgentTeam) : List TeamMember :=
  (team.members.insertionSort memberLe).filter fun member =>
    member.agentId ≠ team.ownerAgentId ∧ member.active = true

def memberTask (payload : RunRequest) (member : TeamMember) (id : Nat) : AgentTask :=
  createTask payload id member.agentId ("member-" ++ member.agentId) .agent (some 0) member.role
    .pending [] none

def submitTeamRun (team : AgentTeam) (payload : RunRequest) : SubmissionPlan :=
  let children := (runMembers team).zipIdx 1 |>.map fun m => memberTask payload m.1 m.2
  { root := managerTask payload team
    children := children
    runStatus := .running
    rootPending := children.isEmpty }

/-! ## `submit_workflow_run` -/

/-- The Agent of a node must be an active member. -/
def checkNodeAgent (team : AgentTeam) (node : WorkflowNodeSpec) : Except String Unit :=
  -- A node without an Agent is worked on by the owner of the team.
  let agentId := (truthy node.agentId).getD team.ownerAgentId
  match (Dict.ofPairs (team.members.map fun m => (m.agentId, m))).get? agentId with
  | some member =>
      if member.active then .ok ()
      else .error ("workflow node " ++ node.key ++ " references an unavailable team Agent")
  | none => .error ("workflow node " ++ node.key ++ " references an unavailable team Agent")

/-- A node a person approves before anything else has run. -/
def WorkflowNodeSpec.approvesFirst (node : WorkflowNodeSpec) : Bool :=
  node.nodeType == .humanApproval && node.dependsOn.isEmpty

/-- The status a node's task is created with. -/
def initialStatus (node : WorkflowNodeSpec) : TaskStatus :=
  -- An approval that depends on nothing waits for a person at once.
  if node.approvesFirst then .humanReview
  else if node.dependsOn ≠ [] then .waitingChild
  else .pending

def nodeTask (team : AgentTeam) (payload : RunRequest) (node : WorkflowNodeSpec) (id : Nat) :
    AgentTask :=
  createTask payload id ((truthy node.agentId).getD team.ownerAgentId) node.key node.nodeType
    (some 0) node.name (initialStatus node) node.dependsOn node.instruction

def submitWorkflowRun (team : AgentTeam) (nodes : List WorkflowNodeSpec) (payload : RunRequest) :
    Except String SubmissionPlan :=
  if nodes = [] then .error "workflow has no executable nodes"
  else forEach (checkNodeAgent team) nodes >>= fun _ => .ok
    { root := managerTask payload team
      children := nodes.zipIdx 1 |>.map fun n => nodeTask team payload n.1 n.2
      runStatus := if nodes.any WorkflowNodeSpec.approvesFirst then .humanReview else .running
      rootPending := false }

/-! ## Accepted workflows -/

/-- The facts about an accepted node list that the run depends on. -/
structure AcceptedDag (nodes : List WorkflowNodeSpec) : Prop where
  keys : (nodes.map WorkflowNodeSpec.key).Nodup
  known : ∀ node ∈ nodes, ∀ key ∈ node.dependsOn, ∃ dep ∈ nodes, dep.key = key
  acyclic : ∃ order, DepthFirst.Ordered (nodeDeps nodes) order ∧
    ∀ node ∈ nodes, node.key ∈ order

theorem keys_dagNode (nodes : List WorkflowNodeSpec) :
    (nodes.map WorkflowNodeSpec.dagNode).map DagNode.key = nodes.map WorkflowNodeSpec.key := by
  rw [List.map_map]
  rfl

theorem nodeDeps_eq {nodes : List WorkflowNodeSpec} {node : WorkflowNodeSpec}
    (hkeys : (nodes.map WorkflowNodeSpec.key).Nodup) (hnode : node ∈ nodes) :
    nodeDeps nodes node.key = node.dependsOn := by
  have hdistinct : DagNode.Distinct (nodes.map WorkflowNodeSpec.dagNode) := by
    rw [DagNode.Distinct, keys_dagNode]
    exact hkeys
  exact DagNode.dependencies_key hdistinct (List.mem_map.mpr ⟨node, hnode, rfl⟩)

/-- An accepted node list has distinct keys, known dependencies and no cycle. -/
theorem validateWorkflowDag_ok {nodes : List WorkflowNodeSpec}
    (h : validateWorkflowDag nodes = .ok ()) : AcceptedDag nodes := by
  have hfuel : (nodes.map WorkflowNodeSpec.dagNode).length < nodes.length + 1 := by
    rw [List.length_map]
    exact Nat.lt_succ_self _
  obtain ⟨hdistinct, hknown, hcycle⟩ := (DagNode.validateDag_ok_iff hfuel).mp h
  refine ⟨?_, ?_, ?_⟩
  · rw [← keys_dagNode]
    exact hdistinct
  · intro node hnode key hkey
    obtain ⟨dep, hdep, hdepkey⟩ :=
      hknown node.dagNode (List.mem_map.mpr ⟨node, hnode, rfl⟩) key hkey
    obtain ⟨spec, hspec, rfl⟩ := List.mem_map.mp hdep
    exact ⟨spec, hspec, hdepkey⟩
  · -- The nodes in the order the search is done with them.
    obtain ⟨order, horder⟩ := (DagNode.visitAll_ok_iff hdistinct hknown hfuel).mpr hcycle
    obtain ⟨hordered, hall⟩ := DepthFirst.ordered_of_visitAll horder
    refine ⟨order, hordered, fun node hnode => hall _ (DagNode.mem_keys_byKey.mpr ?_)⟩
    rw [keys_dagNode]
    exact List.mem_map.mpr ⟨node, hnode, rfl⟩

end Orchestration
end HermesPlatform
