/-
  HermesPlatform.Orchestration.Dag

  `validate_workflow_dag` on any list of nodes, against the graph they describe.

  `WorkflowNodeSpec` refuses a node that depends on itself before the function sees it;
  here a node is any key with any dependencies, as the function reads no more of it.
  `Workflow` calls the function on the nodes of a workflow.  The recursion has `fuel`
  frames; the callers pass at most 100 nodes, and it needs no more than one frame for
  each node and one (`validateDag_iff`).
-/

import HermesPlatform.Lib.DepthFirst
import HermesPlatform.Lib.Python

namespace HermesPlatform
namespace Orchestration

open Python DepthFirst

/-- What `validate_workflow_dag` reads of a node. -/
structure DagNode where
  key : String
  dependsOn : List String
deriving DecidableEq, Repr

/-- The texts of the exceptions of the recursion `visit`.  Running out of fuel
    does not happen, see `validateDag_iff`. -/
def visitError : Failure → String
  | .cycle => "workflow graph contains a cycle"
  | .outOfFuel => "maximum recursion depth exceeded"

namespace DagNode

variable (nodes : List DagNode)

/-- `{node.key: node for node in nodes}`. -/
def byKey : Dict String DagNode := .ofPairs (nodes.map fun node => (node.key, node))

/-- `by_key[key].depends_on`; every key asked for is known. -/
def dependencies (key : String) : List String :=
  match (byKey nodes).get? key with
  | some node => node.dependsOn
  | none => []

def checkKnown (node : DagNode) : Except String Unit :=
  let missing := node.dependsOn.filter fun key => key ∉ (byKey nodes).keys
  if missing ≠ [] then
    .error ("workflow node " ++ node.key ++ " has unknown dependencies: " ++
      ", ".intercalate missing)
  else .ok ()

/-- `validate_workflow_dag`. -/
def validateDag (fuel : Nat) : Except String Unit :=
  -- The dictionary has one entry for each distinct key.
  let keys := (byKey nodes).keys
  if keys.length ≠ nodes.length then .error "workflow node keys must be unique"
  else forEach (checkKnown nodes) nodes >>= fun _ =>
    match visitAll (dependencies nodes) fuel keys with
    | .ok _ => .ok ()
    | .error e => .error (visitError e)

/-! ## The graph -/

/-- A node with the first key lists the second. -/
def DependsOn (a b : String) : Prop := ∃ node ∈ nodes, node.key = a ∧ b ∈ node.dependsOn

def Distinct : Prop := (nodes.map DagNode.key).Nodup

def Known : Prop := ∀ node ∈ nodes, ∀ key ∈ node.dependsOn, ∃ dep ∈ nodes, dep.key = key

/-- No key depends on itself, over any number of steps. -/
def NoCycle : Prop := ∀ key, ¬ Relation.TransGen (DependsOn nodes) key key

/-- The keys of the list in an order in which the dependencies of each come before it. -/
def Topological (order : List String) : Prop :=
  order.Perm (nodes.map DagNode.key) ∧
    ∀ before key after, order = before ++ key :: after →
      ∀ dep, DependsOn nodes key dep → dep ∈ before

variable {nodes}

theorem mem_keys_byKey {key : String} : key ∈ (byKey nodes).keys ↔ key ∈ nodes.map DagNode.key := by
  rw [byKey, Dict.mem_keys_ofPairs, List.map_map]
  rfl

theorem length_keys_iff : (byKey nodes).keys.length = nodes.length ↔ Distinct nodes := by
  have hkeys : (nodes.map fun node => (node.key, node)).map Prod.fst = nodes.map DagNode.key := by
    rw [List.map_map]
    rfl
  constructor
  · intro h
    rw [Distinct, ← hkeys]
    apply Dict.nodup_of_length_keys_ofPairs
    rw [List.length_map]
    exact h
  · intro h
    rw [byKey, Dict.keys, Dict.entries_ofPairs (by rw [hkeys]; exact h), List.length_map,
      List.length_map]

theorem entries_byKey (hdistinct : Distinct nodes) :
    (byKey nodes).entries = nodes.map fun node => (node.key, node) := by
  apply Dict.entries_ofPairs
  rw [List.map_map]
  exact hdistinct

/-- With distinct keys no entry of the dictionary is overwritten. -/
theorem dependencies_key (hdistinct : Distinct nodes) {node : DagNode} (hnode : node ∈ nodes) :
    dependencies nodes node.key = node.dependsOn := by
  have hmem : (node.key, node) ∈ (byKey nodes).entries := by
    rw [entries_byKey hdistinct]
    exact List.mem_map.mpr ⟨node, hnode, rfl⟩
  rw [dependencies, Dict.get?_of_mem hmem]

/-- With distinct keys the dictionary has the dependencies that the nodes list. -/
theorem mem_dependencies_iff (hdistinct : Distinct nodes) {a b : String} :
    b ∈ dependencies nodes a ↔ DependsOn nodes a b := by
  constructor
  · intro h
    rw [dependencies] at h
    split at h
    next node hget =>
      have hmem := Dict.mem_of_get? hget
      rw [entries_byKey hdistinct] at hmem
      obtain ⟨node', hnode, heq⟩ := List.mem_map.mp hmem
      cases heq
      exact ⟨_, hnode, rfl, h⟩
    next => cases h
  · rintro ⟨node, hnode, rfl, hb⟩
    rw [dependencies_key hdistinct hnode]
    exact hb

theorem mem_keys_of_dependencies (hdistinct : Distinct nodes) {key : String}
    (hne : dependencies nodes key ≠ []) : key ∈ nodes.map DagNode.key := by
  obtain ⟨d, hd⟩ := List.exists_mem_of_ne_nil _ hne
  obtain ⟨node, hnode, rfl, -⟩ := (mem_dependencies_iff hdistinct).mp hd
  exact List.mem_map_of_mem hnode

theorem checkKnown_iff : (∀ node ∈ nodes, checkKnown nodes node = .ok ()) ↔ Known nodes := by
  refine forall₂_congr fun node _ => ?_
  simp only [checkKnown]
  split
  next hmissing =>
    simp only [reduceCtorEq, false_iff]
    intro hknown
    apply hmissing
    rw [List.filter_eq_nil_iff]
    intro key hkey
    obtain ⟨dep, hdep, hdepkey⟩ := hknown key hkey
    simpa [mem_keys_byKey] using ⟨dep, hdep, hdepkey⟩
  next hnone =>
    simp only [true_iff]
    intro key hkey
    have hknown := List.filter_eq_nil_iff.mp (not_not.mp hnone) key hkey
    simpa [mem_keys_byKey] using hknown

theorem acyclic_iff (hdistinct : Distinct nodes) :
    Acyclic (dependencies nodes) ↔ NoCycle nodes := by
  have hrel : (fun a b => b ∈ dependencies nodes a) = DependsOn nodes := by
    funext a b
    exact propext (mem_dependencies_iff hdistinct)
  rw [Acyclic, hrel]
  rfl

/-- The keys are closed under dependencies. -/
theorem dependencies_closed (hdistinct : Distinct nodes) (hknown : Known nodes) :
    ∀ k ∈ (byKey nodes).keys, ∀ d ∈ dependencies nodes k, d ∈ (byKey nodes).keys := by
  intro k _ d hd
  obtain ⟨node, hnode, -, hdep⟩ := (mem_dependencies_iff hdistinct).mp hd
  rw [mem_keys_byKey, List.mem_map]
  exact hknown node hnode d hdep

theorem keys_length_lt (hdistinct : Distinct nodes) {fuel : Nat} (hfuel : nodes.length < fuel) :
    (byKey nodes).keys.length < fuel := by
  rw [length_keys_iff.mpr hdistinct]
  exact hfuel

/-- The search succeeds just on a graph without a cycle. -/
theorem visitAll_ok_iff (hdistinct : Distinct nodes) (hknown : Known nodes) {fuel : Nat}
    (hfuel : nodes.length < fuel) :
    (∃ order, visitAll (dependencies nodes) fuel (byKey nodes).keys = .ok order) ↔
      NoCycle nodes := by
  rw [← acyclic_iff hdistinct]
  constructor
  · rintro ⟨order, horder⟩
    obtain ⟨hordered, hall⟩ := ordered_of_visitAll horder
    apply acyclic_of_ordered hordered
    intro key hne
    exact hall key (mem_keys_byKey.mpr (mem_keys_of_dependencies hdistinct hne))
  · intro hacyclic
    cases h : visitAll (dependencies nodes) fuel (byKey nodes).keys with
    | ok order => exact ⟨order, rfl⟩
    | error e =>
        cases e with
        | cycle => exact absurd h (visitAll_ne_cycle hacyclic fuel _)
        | outOfFuel =>
            exact absurd h (visitAll_ne_outOfFuel (dependencies_closed hdistinct hknown)
              (keys_length_lt hdistinct hfuel))

/-- What comes before an element in a reversed list comes after it in the list. -/
theorem eq_of_reverse_eq {order before after : List String} {key : String}
    (h : order.reverse = before ++ key :: after) :
    order = after.reverse ++ key :: before.reverse := by
  have hback := congrArg List.reverse h
  rw [List.reverse_reverse, List.reverse_append, List.reverse_cons, List.append_assoc,
    List.singleton_append] at hback
  exact hback

/-- The order in which the search leaves the nodes, backwards, is topological. -/
theorem noCycle_iff_topological (hdistinct : Distinct nodes) (hknown : Known nodes) :
    NoCycle nodes ↔ ∃ order, Topological nodes order := by
  constructor
  · intro hcycle
    obtain ⟨order, horder⟩ :=
      (visitAll_ok_iff hdistinct hknown (Nat.lt_succ_self nodes.length)).mpr hcycle
    obtain ⟨hordered, hall⟩ := ordered_of_visitAll horder
    -- Of the order only this is used: all keys are in it, each behind its dependencies.
    have hrestrict := hordered.restrict (dependencies_closed hdistinct hknown)
    refine ⟨((order.filter (· ∈ (byKey nodes).keys)).dedup).reverse, ?_, ?_⟩
    · refine (List.reverse_perm _).trans ?_
      rw [List.perm_ext_iff_of_nodup (List.nodup_dedup _) hdistinct]
      intro key
      rw [List.mem_dedup, List.mem_filter, ← mem_keys_byKey]
      constructor
      · rintro ⟨-, hkey⟩
        simpa using hkey
      · intro hkey
        exact ⟨hall key hkey, by simpa using hkey⟩
    · intro before key after heq dep hdep
      have hmem := ordered_iff.mp hrestrict _ key _ (eq_of_reverse_eq heq) dep
        ((mem_dependencies_iff hdistinct).mpr hdep)
      rwa [List.mem_reverse] at hmem
  · rintro ⟨order, hperm, hbefore⟩
    rw [← acyclic_iff hdistinct]
    have hordered : Ordered (dependencies nodes) order.reverse := by
      rw [ordered_iff]
      intro before key after heq d hd
      have hmem := hbefore _ key _ (eq_of_reverse_eq heq) d
        ((mem_dependencies_iff hdistinct).mp hd)
      rwa [List.mem_reverse] at hmem
    apply acyclic_of_ordered hordered
    intro key hne
    rw [List.mem_reverse, hperm.mem_iff]
    exact mem_keys_of_dependencies hdistinct hne

theorem validateDag_ok_iff {fuel : Nat} (hfuel : nodes.length < fuel) :
    validateDag nodes fuel = .ok () ↔ Distinct nodes ∧ Known nodes ∧ NoCycle nodes := by
  simp only [validateDag]
  split
  next hlength =>
    rw [← length_keys_iff]
    simp [hlength]
  next hlength =>
    have hdistinct := length_keys_iff.mp (not_not.mp hlength)
    rw [bind_eq_ok]
    constructor
    · rintro ⟨_, hchecks, hvisit⟩
      have hknown := checkKnown_iff.mp (forEach_eq_ok.mp hchecks)
      refine ⟨hdistinct, hknown, (visitAll_ok_iff hdistinct hknown hfuel).mp ?_⟩
      split at hvisit
      next order horder => exact ⟨order, horder⟩
      next => cases hvisit
    · rintro ⟨-, hknown, hcycle⟩
      obtain ⟨order, horder⟩ := (visitAll_ok_iff hdistinct hknown hfuel).mpr hcycle
      refine ⟨(), forEach_eq_ok.mpr (checkKnown_iff.mpr hknown), ?_⟩
      rw [horder]

/-- **`validate_workflow_dag`** accepts the lists whose keys are distinct, whose dependencies
    are in the list and whose graph has no cycle, so that it can be ordered.  Its recursion
    ends within one frame more than there are nodes. -/
theorem validateDag_iff (nodes : List DagNode) (fuel : Nat) (hfuel : nodes.length < fuel) :
    (validateDag nodes fuel = .ok () ↔ Distinct nodes ∧ Known nodes ∧ NoCycle nodes) ∧
      (Distinct nodes → Known nodes → (NoCycle nodes ↔ ∃ order, Topological nodes order)) ∧
      (Distinct nodes → Known nodes →
        visitAll (dependencies nodes) fuel (byKey nodes).keys ≠ .error .outOfFuel) := by
  refine ⟨validateDag_ok_iff hfuel, noCycle_iff_topological, ?_⟩
  intro hdistinct hknown
  exact visitAll_ne_outOfFuel (dependencies_closed hdistinct hknown)
    (keys_length_lt hdistinct hfuel)

/-- A node named twice by another, and two ways to it. -/
def diamond : List DagNode :=
  [⟨"publish", ["review", "check"]⟩, ⟨"review", ["draft", "draft"]⟩, ⟨"check", ["draft"]⟩,
   ⟨"draft", []⟩]

theorem validateDag_iff_diamond : validateDag diamond 5 = .ok () ∧ NoCycle diamond := by
  have haccepted : validateDag diamond 5 = .ok () := by decide
  obtain ⟨-, -, hcycle⟩ := (validateDag_iff diamond 5 (by decide)).1.mp haccepted
  exact ⟨haccepted, hcycle⟩

example : validateDag [⟨"draft", ["draft"]⟩] 2 = .error "workflow graph contains a cycle" := by
  decide

end DagNode

end Orchestration
end HermesPlatform
